import Flywheel.Core.Pcs

/-!
# Members of a group and their positions

The index of a group says at which position each member is. Every operation keeps it so,
and membership changes as the operation says: a removed node is no longer a member, an
added one is, and nobody else is affected.
-/

namespace Flywheel.Core

open List

namespace PcsGroupState

variable {σ : Type} {crypto : PcsCrypto σ} {s s' : PcsGroupState σ}

/-- An index of positions of node ids in a list of members. -/
def Positions (members : List GroupMember) (index : AList (fun _ : NodeId => ℕ)) : Prop :=
  ∀ id i, index.lookup id = some i ↔ ∃ m, members[i]? = some m ∧ m.nodeId = id

/-- The index of the group gives the positions of its members. -/
def Indexed (s : PcsGroupState σ) : Prop := Positions s.members s.memberIndex

variable {members : List GroupMember} {index : AList (fun _ : NodeId => ℕ)}

/-- Positions of all members, for the node ids of members only. -/
theorem positions_of (hat : ∀ i m, members[i]? = some m → index.lookup m.nodeId = some i)
    (honly : ∀ id i, index.lookup id = some i → ∃ m ∈ members, m.nodeId = id) :
    Positions members index := by
  intro id i
  constructor
  · intro hi
    obtain ⟨m, hm, rfl⟩ := honly id i hi
    obtain ⟨j, hj⟩ := mem_iff_getElem?.mp hm
    rw [hat j m hj, Option.some.injEq] at hi
    exact ⟨m, hi ▸ hj, rfl⟩
  · rintro ⟨m, hm, rfl⟩
    exact hat i m hm

section

variable (h : Positions members index)
include h

theorem Positions.unique {i j : ℕ} {m m' : GroupMember}
    (hi : members[i]? = some m) (hj : members[j]? = some m') (heq : m.nodeId = m'.nodeId) :
    i = j := by
  have hi' := (h m'.nodeId i).mpr ⟨m, hi, heq⟩
  rw [(h m'.nodeId j).mpr ⟨m', hj, rfl⟩, Option.some.injEq] at hi'
  exact hi'.symm

theorem Positions.nodup : (members.map (·.nodeId)).Nodup := by
  rw [nodup_iff_getElem?_ne_getElem?]
  intro i j hij hj heq
  rw [length_map] at hj
  rw [getElem?_map, getElem?_map, getElem?_eq_getElem (by omega),
    getElem?_eq_getElem hj, Option.map_some, Option.map_some, Option.some.injEq] at heq
  exact hij.ne (h.unique (getElem?_eq_getElem _) (getElem?_eq_getElem hj) heq)

theorem Positions.append {m : GroupMember} (hm : index.lookup m.nodeId = none) :
    Positions (members ++ [m]) (index.insert m.nodeId members.length) := by
  refine positions_of (fun i m' hi => ?_) fun id i hi => ?_
  · rcases Nat.lt_or_ge i members.length with hlt | hge
    · rw [getElem?_append_left hlt] at hi
      have hold := (h m'.nodeId i).mpr ⟨m', hi, rfl⟩
      have hne : m'.nodeId ≠ m.nodeId := fun heq => by
        rw [heq, hm] at hold
        cases hold
      rw [AList.lookup_insert_ne hne, hold]
    · rw [getElem?_append_right hge, getElem?_singleton] at hi
      split_ifs at hi with hzero
      cases hi
      rw [AList.lookup_insert, Option.some.injEq]
      omega
  · by_cases hid : id = m.nodeId
    · exact ⟨m, by simp, hid.symm⟩
    · rw [AList.lookup_insert_ne hid] at hi
      obtain ⟨m', hm', heq⟩ := (h id i).mp hi
      exact ⟨m', mem_append_left _ (mem_of_getElem? hm'), heq⟩

/-- The loop of `new` indexes the members it is given after those before. -/
theorem indexMembers_positions {rest : List GroupMember} {index' : AList (fun _ : NodeId => ℕ)}
    (hok : indexMembers rest members.length index = .ok index') :
    Positions (members ++ rest) index' := by
  induction rest generalizing members index with
  | nil =>
    cases hok
    rwa [append_nil]
  | cons m rest ih =>
    rw [indexMembers] at hok
    split_ifs at hok with hm
    have hnone : index.lookup m.nodeId = none := Option.not_isSome_iff_eq_none.mp hm
    have hstep := ih (h.append hnone) (by rwa [length_append])
    rwa [append_assoc] at hstep

end

/-- A new group is indexed and has the secret and the epoch it is given. -/
theorem new_spec {zoneId : ZoneId} {secret : σ} (hok : new zoneId members secret = .ok s) :
    s.Indexed ∧ s.epochSecret = secret := by
  unfold new at hok
  split_ifs at hok
  cases hindex : indexMembers members 0 ∅ <;> rw [hindex] at hok <;> cases hok
  have hempty : Positions [] ∅ := by
    intro id i
    simp
  exact ⟨indexMembers_positions hempty hindex, rfl⟩

/-- The loop of `remove_member` sets the positions of the members it is given, and leaves
other ids alone. -/
theorem shiftIndices_lookup {rest : List GroupMember} (hnodup : (rest.map (·.nodeId)).Nodup)
    (hall : ∀ m ∈ rest, (index.lookup m.nodeId).isSome) (i : ℕ) :
    (∀ k m, rest[k]? = some m → (shiftIndices rest i index).lookup m.nodeId = some (i + k)) ∧
      ∀ id, (∀ m ∈ rest, m.nodeId ≠ id) →
        (shiftIndices rest i index).lookup id = index.lookup id := by
  induction rest generalizing i index with
  | nil => exact ⟨fun k m hk => by simp at hk, fun id _ => rfl⟩
  | cons m rest ih =>
    rw [map_cons, nodup_cons] at hnodup
    obtain ⟨hm, hrest⟩ := hnodup
    have hne : ∀ m' ∈ rest, m'.nodeId ≠ m.nodeId :=
      fun m' hm' heq => hm (heq ▸ mem_map_of_mem hm')
    rw [shiftIndices, if_pos (hall m mem_cons_self)]
    have hall' : ∀ m' ∈ rest, ((index.insert m.nodeId i).lookup m'.nodeId).isSome := by
      intro m' hm'
      rw [AList.lookup_insert_ne (hne m' hm')]
      exact hall m' (mem_cons_of_mem m hm')
    obtain ⟨hset, hkeep⟩ := ih hrest hall' (i + 1)
    constructor
    · intro k m' hk
      cases k with
      | zero =>
        cases hk
        rw [hkeep _ hne, AList.lookup_insert, Nat.add_zero]
      | succ k =>
        rw [hset k m' hk]
        congr 1
        omega
    · intro id hid
      rw [hkeep id fun m' hm' => hid m' (mem_cons_of_mem m hm')]
      exact AList.lookup_insert_ne (hid m mem_cons_self).symm

/-- Removing a member and moving the positions of those behind it. -/
theorem Positions.remove (h : Positions members index) {idx : ℕ} {removed : GroupMember}
    (hidx : members[idx]? = some removed) :
    Positions (members.eraseIdx idx) (shiftIndices ((members.eraseIdx idx).drop idx) idx
      (index.erase removed.nodeId)) := by
  have hdrop : ∀ k, ((members.eraseIdx idx).drop idx)[k]? = members[idx + k + 1]? := by
    intro k
    rw [getElem?_drop, getElem?_eraseIdx, if_neg (by omega)]
  have hnodup : (((members.eraseIdx idx).drop idx).map (·.nodeId)).Nodup := by
    refine h.nodup.sublist (Sublist.map _ ?_)
    exact (drop_sublist _ _).trans (eraseIdx_sublist _ _)
  -- the members behind have other ids than the removed one and those before it
  have hbehind : ∀ {j m}, members[j]? = some m → j ≤ idx →
      ∀ m' ∈ (members.eraseIdx idx).drop idx, m'.nodeId ≠ m.nodeId := by
    intro j m hj hle m' hm' heq
    obtain ⟨k, hk⟩ := mem_iff_getElem?.mp hm'
    rw [hdrop] at hk
    have hpos := h.unique hk hj heq
    omega
  have hall : ∀ m ∈ (members.eraseIdx idx).drop idx,
      ((index.erase removed.nodeId).lookup m.nodeId).isSome := by
    intro m hm
    obtain ⟨k, hk⟩ := mem_iff_getElem?.mp hm
    rw [hdrop] at hk
    rw [AList.lookup_erase_ne (hbehind hidx (Nat.le_refl idx) m hm),
      (h m.nodeId _).mpr ⟨m, hk, rfl⟩]
    rfl
  obtain ⟨hset, hkeep⟩ := shiftIndices_lookup hnodup hall idx
  refine positions_of (fun j m hj => ?_) fun id j hj => ?_
  · rcases Nat.lt_or_ge j idx with hlt | hge
    · rw [getElem?_eraseIdx, if_pos hlt] at hj
      have hne : m.nodeId ≠ removed.nodeId := fun heq => by
        have hpos := h.unique hj hidx heq
        omega
      rw [hkeep _ (hbehind hj hlt.le), AList.lookup_erase_ne hne, (h _ j).mpr ⟨m, hj, rfl⟩]
    · obtain ⟨k, rfl⟩ := Nat.exists_eq_add_of_le hge
      exact hset k m (by rwa [getElem?_drop])
  · by_contra hnone
    have hother : ∀ m ∈ members.eraseIdx idx, m.nodeId ≠ id := fun m hm heq => hnone ⟨m, hm, heq⟩
    rw [hkeep id fun m hm => hother m (mem_of_mem_drop hm)] at hj
    by_cases hremoved : id = removed.nodeId
    · rw [hremoved, AList.lookup_erase] at hj
      cases hj
    · rw [AList.lookup_erase_ne hremoved] at hj
      obtain ⟨m, hm, heq⟩ := (h id j).mp hj
      refine hother m (mem_eraseIdx_iff_getElem?.mpr ⟨j, ?_, hm⟩) heq
      rintro rfl
      cases hidx.symm.trans hm
      exact hremoved heq.symm

/-- The indexed node ids are those of the members. -/
theorem Positions.isSome_iff (h : Positions members index) (id : NodeId) :
    (index.lookup id).isSome = true ↔ ∃ m ∈ members, m.nodeId = id := by
  rw [Option.isSome_iff_exists]
  constructor
  · rintro ⟨i, hi⟩
    obtain ⟨m, hm, heq⟩ := (h id i).mp hi
    exact ⟨m, mem_of_getElem? hm, heq⟩
  · rintro ⟨m, hm, heq⟩
    obtain ⟨i, hi⟩ := mem_iff_getElem?.mp hm
    exact ⟨i, (h id i).mpr ⟨m, hi, heq⟩⟩

inductive Op
  | advanceEpoch
  | addMember (member : GroupMember)
  | removeMember (nodeId : NodeId)

variable (crypto) in
/-- The outcome of one operation on the state. -/
def apply (s : PcsGroupState σ) : Op → Except PcsError (PcsGroupState σ)
  | .advanceEpoch => .ok (s.advanceEpoch crypto).1
  | .addMember member => (s.addMember crypto member).map Prod.fst
  | .removeMember nodeId => (s.removeMember crypto nodeId).map Prod.fst

/-- What a successful advance or addition does. The secret is ratcheted without a salt. -/
structure Ratcheted (crypto : PcsCrypto σ) (s s' : PcsGroupState σ) : Prop where
  indexed : s'.Indexed
  epochSecret_eq : s'.epochSecret = deriveNextEpochSecret crypto s.epochSecret (s.epoch + 1)

/-- What a successful removal does. The secret is ratcheted with the removal salt. -/
structure Removed (crypto : PcsCrypto σ) (s s' : PcsGroupState σ) (nodeId : NodeId) : Prop where
  indexed : s'.Indexed
  epochSecret_eq : s'.epochSecret = derivePostRemovalSecret crypto s.epochSecret
    (computeRemovalSalt crypto nodeId s.epoch) (s.epoch + 1)
  isMember_before : s.isMember nodeId = true
  isMember_iff : ∀ id, s'.isMember id = true ↔ id ≠ nodeId ∧ s.isMember id = true

theorem addMember_spec (h : s.Indexed) {m : GroupMember}
    (hok : s.apply crypto (.addMember m) = .ok s') :
    Ratcheted crypto s s' ∧ s.isMember m.nodeId = false ∧
      ∀ id, s'.isMember id = true ↔ id = m.nodeId ∨ s.isMember id = true := by
  rw [apply, addMember] at hok
  split_ifs at hok with hsize hmember <;> cases hok
  have hnone : s.memberIndex.lookup m.nodeId = none := by
    rw [← Option.not_isSome_iff_eq_none]
    exact hmember
  refine ⟨⟨h.append hnone, rfl⟩, by simpa using hmember, fun id => ?_⟩
  by_cases hid : id = m.nodeId
  · subst hid
    simp [isMember]
  · simp [isMember, hid]

theorem removeMember_spec (h : s.Indexed) {nodeId : NodeId}
    (hok : s.apply crypto (.removeMember nodeId) = .ok s') : Removed crypto s s' nodeId := by
  rw [apply, removeMember] at hok
  split at hok
  · cases hok
  rename_i idx hidx
  obtain ⟨removed, hremoved, rfl⟩ := (h nodeId idx).mp hidx
  rw [hremoved] at hok
  split_ifs at hok with hsize <;> cases hok
  have hindexed := Positions.remove h hremoved
  refine ⟨hindexed, rfl, by rw [isMember, hidx]; rfl, fun id => ?_⟩
  rw [isMember, isMember, hindexed.isSome_iff, Positions.isSome_iff h]
  constructor
  · rintro ⟨m, hm, rfl⟩
    obtain ⟨i, hi, hne, rfl⟩ := mem_eraseIdx_iff_getElem.mp hm
    refine ⟨fun heq => hne ?_, _, getElem_mem _, rfl⟩
    exact h.unique (getElem?_eq_getElem hi) hremoved heq
  · rintro ⟨hid, m, hm, rfl⟩
    obtain ⟨i, hi, rfl⟩ := getElem_of_mem hm
    refine ⟨_, mem_eraseIdx_iff_getElem.mpr ⟨i, hi, fun heq => hid ?_, rfl⟩, rfl⟩
    subst heq
    rw [getElem?_eq_getElem hi, Option.some.injEq] at hremoved
    rw [hremoved]

end PcsGroupState

end Flywheel.Core
