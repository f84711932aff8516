import Flywheel.Core.PcsGroup
import Flywheel.Data.Derivation

/-!
# Who can derive an epoch secret

The group is read symbolically: HKDF and BLAKE3 are free one-way functions, and the
initial secret is a value nobody else has. A node knows the secrets of the epochs in
which it was a member, and everything public: byte strings, the operations, and commit
references. The removal salt is a hash of public data, so a removed member goes on
deriving. In runs without removals, an added member cannot go back.
-/

namespace Flywheel.Core

open Flywheel.Data

inductive Term
  | secret (n : ℕ)
  | hkdf (ikm : Term) (info : List UInt8)
  | hkdfSalted (salt ikm : Term) (info : List UInt8)
  | blake3 (input : List UInt8)
  | blake3With (input : List UInt8) (value : Term)
  deriving DecidableEq

namespace Term

/-- How deep the functions are nested over the key material. -/
def depth : Term → ℕ
  | secret _ => 0
  | hkdf ikm _ => ikm.depth + 1
  | hkdfSalted _ ikm _ => ikm.depth + 1
  | blake3 _ => 0
  | blake3With _ value => value.depth + 1

def crypto : PcsCrypto Term := ⟨hkdf, hkdfSalted, blake3, blake3With⟩

/-- What can be computed: each function from its arguments. Byte strings are public. -/
inductive Rule : List Term → Term → Prop
  | hkdf (ikm : Term) (info : List UInt8) : Rule [ikm] (.hkdf ikm info)
  | hkdfSalted (salt ikm : Term) (info : List UInt8) :
      Rule [salt, ikm] (.hkdfSalted salt ikm info)
  | blake3 (input : List UInt8) : Rule [] (.blake3 input)
  | blake3With (input : List UInt8) (value : Term) : Rule [value] (.blake3With input value)

end Term

open Term

namespace PcsGroupState

variable (s : PcsGroupState Term)

/-- One operation. A refused one leaves the group as it is. -/
def step (op : Op) : PcsGroupState Term :=
  match s.apply crypto op with
  | .ok s' => s'
  | .error _ => s

variable (ops : List Op)

/-- The group after the first `k` operations of a run. -/
def stateAt (k : ℕ) : PcsGroupState Term :=
  (ops.take k).foldl step s

/-- The `i`-th operation of a run is the given one, and succeeds. -/
def Succeeds (i : ℕ) (op : Op) : Prop :=
  ops[i]? = some op ∧ ∃ s', (s.stateAt ops i).apply crypto op = .ok s'

/-- What a node knows after a run: the secrets of the epochs in which it was a member, and
the commit references of all epochs. -/
def knowledge (node : NodeId) : Set Term :=
  {t | ∃ k ≤ ops.length,
    ((s.stateAt ops k).isMember node = true ∧ t = (s.stateAt ops k).epochSecret) ∨
      t = (s.stateAt ops k).commitRef crypto}

/-- The guarantee for a run: after a removal, and until the node is a member again, it
derives neither the secrets nor the zone keys of later epochs; and an added member derives
no secret of an epoch before its addition. -/
structure Secure (s : PcsGroupState Term) (ops : List Op) : Prop where
  healed : ∀ i j node, i < j → j ≤ ops.length → s.Succeeds ops i (.removeMember node) →
    (∀ k, i < k → k ≤ j → (s.stateAt ops k).isMember node = false) →
      ¬ Derivable Rule (s.knowledge (ops.take j) node) (s.stateAt ops j).epochSecret ∧
      ¬ Derivable Rule (s.knowledge (ops.take j) node)
        ((s.stateAt ops j).deriveZoneKey crypto)
  blind : ∀ i k member, s.Succeeds ops i (.addMember member) → k ≤ i →
    ¬ Derivable Rule (s.knowledge ops member.nodeId) (s.stateAt ops k).epochSecret

variable {s s' : PcsGroupState Term} {ops : List Op} {op : Op}

theorem stateAt_succ {i : ℕ} (hop : ops[i]? = some op) :
    s.stateAt ops (i + 1) = (s.stateAt ops i).step op := by
  rw [stateAt, List.take_add_one, hop, List.foldl_append]
  rfl

theorem stateAt_succ_of_none {i : ℕ} (hop : ops[i]? = none) :
    s.stateAt ops (i + 1) = s.stateAt ops i := by
  rw [stateAt, List.take_add_one, hop, Option.toList_none, List.append_nil]
  rfl

section

variable (h : s.Indexed)
include h

/-- What one operation does to an indexed group: nothing, a ratchet that only adds members,
or a removal. -/
theorem step_cases (op : Op) :
    s.step op = s ∨
      (Ratcheted crypto s (s.step op) ∧
        ∀ id, s.isMember id = true → (s.step op).isMember id = true) ∨
      ∃ node, op = .removeMember node ∧ s.apply crypto op = .ok (s.step op) ∧
        Removed crypto s (s.step op) node := by
  unfold step
  cases hok : s.apply crypto op with
  | error e => exact Or.inl rfl
  | ok s' =>
    right
    cases op with
    | advanceEpoch =>
      cases hok
      exact Or.inl ⟨⟨h, rfl⟩, fun _ hid => hid⟩
    | addMember member =>
      obtain ⟨hratchet, -, hmember⟩ := addMember_spec h hok
      exact Or.inl ⟨hratchet, fun id hid => (hmember id).mpr (Or.inr hid)⟩
    | removeMember node => exact Or.inr ⟨node, rfl, rfl, removeMember_spec h hok⟩

theorem step_indexed_depth (op : Op) :
    (s.step op).Indexed ∧ s.epochSecret.depth ≤ (s.step op).epochSecret.depth := by
  rcases step_cases h op with heq | ⟨hratchet, -⟩ | ⟨node, -, -, hremoved⟩
  · rw [heq]
    exact ⟨h, le_rfl⟩
  · rw [hratchet.epochSecret_eq]
    exact ⟨hratchet.indexed, Nat.le_succ _⟩
  · rw [hremoved.epochSecret_eq]
    exact ⟨hremoved.indexed, Nat.le_succ _⟩

theorem indexed_stateAt (k : ℕ) : (s.stateAt ops k).Indexed := by
  induction k with
  | zero => exact h
  | succ k ih =>
    cases hop : ops[k]? with
    | none => rwa [stateAt_succ_of_none hop]
    | some op =>
      rw [stateAt_succ hop]
      exact (step_indexed_depth ih op).1

/-- The secrets of a run do not get shallower. -/
theorem depth_stateAt_mono (ops : List Op) {j k : ℕ} (hjk : j ≤ k) :
    (s.stateAt ops j).epochSecret.depth ≤ (s.stateAt ops k).epochSecret.depth := by
  induction k, hjk using Nat.le_induction with
  | base => exact le_rfl
  | succ k _ ih =>
    cases hop : ops[k]? with
    | none => rwa [stateAt_succ_of_none hop]
    | some op =>
      rw [stateAt_succ hop]
      exact ih.trans (step_indexed_depth (indexed_stateAt h k) op).2

/-- A removed member derives the secret of the epoch that its removal starts. -/
theorem derivable_after_removal {i : ℕ} {node : NodeId}
    (hop : s.Succeeds ops i (.removeMember node)) :
    Derivable Rule (s.knowledge (ops.take (i + 1)) node)
        (s.stateAt ops (i + 1)).epochSecret ∧
      (s.stateAt ops (i + 1)).isMember node = false := by
  obtain ⟨hat, s', hok⟩ := hop
  have hspec := removeMember_spec (indexed_stateAt h i) hok
  have hstep : s.stateAt ops (i + 1) = s' := by
    rw [stateAt_succ hat, step, hok]
  have hlen : i < ops.length := (List.getElem?_eq_some_iff.mp hat).1
  rw [hstep, hspec.epochSecret_eq]
  constructor
  · refine .build (.hkdfSalted _ _ _) fun t ht => ?_
    rcases List.mem_pair.mp ht with rfl | rfl
    · exact .build (.blake3 _) fun t ht => absurd ht List.not_mem_nil
    · refine .known ⟨i, by rw [List.length_take]; omega, Or.inl ?_⟩
      rw [stateAt, List.take_take, Nat.min_eq_left (Nat.le_succ i)]
      exact ⟨hspec.isMember_before, rfl⟩
  · rw [← Bool.not_eq_true, hspec.isMember_iff]
    exact fun hmember => hmember.1 rfl

end

section NoRemoval

variable (h : s.Indexed) (hno : ∀ i node, ¬ s.Succeeds ops i (.removeMember node))

include h hno

/-- In a run without removals, each operation leaves the group alone or ratchets it and
keeps the members. -/
theorem stateAt_succ_cases (k : ℕ) :
    s.stateAt ops (k + 1) = s.stateAt ops k ∨
      (Ratcheted crypto (s.stateAt ops k) (s.stateAt ops (k + 1)) ∧
        ∀ id, (s.stateAt ops k).isMember id = true →
          (s.stateAt ops (k + 1)).isMember id = true) := by
  cases hop : ops[k]? with
  | none => exact Or.inl (stateAt_succ_of_none hop)
  | some op =>
    rw [stateAt_succ hop]
    rcases step_cases (indexed_stateAt h k) op with heq | hratchet | ⟨node, rfl, hok, -⟩
    · exact Or.inl heq
    · exact Or.inr hratchet
    · exact absurd ⟨hop, _, hok⟩ (hno k node)

theorem isMember_stateAt_mono {j k : ℕ} (hjk : j ≤ k) {id : NodeId}
    (hj : (s.stateAt ops j).isMember id = true) : (s.stateAt ops k).isMember id = true := by
  induction k, hjk using Nat.le_induction with
  | base => exact hj
  | succ k _ ih =>
    rcases stateAt_succ_cases h hno k with heq | ⟨-, hmember⟩
    · rwa [heq]
    · exact hmember id ih

/-- In a run without removals, a secret is the initial one or is derived from one before. -/
theorem epochSecret_cases (k : ℕ) :
    (s.stateAt ops k).epochSecret = s.epochSecret ∨
      ∃ j ≤ k, ∃ info,
        (s.stateAt ops k).epochSecret = .hkdf (s.stateAt ops j).epochSecret info := by
  induction k with
  | zero => exact Or.inl rfl
  | succ k ih =>
    rcases stateAt_succ_cases h hno k with heq | ⟨hratchet, -⟩
    · rw [heq]
      rcases ih with hinitial | ⟨j, hj, info, hinfo⟩
      · exact Or.inl hinitial
      · exact Or.inr ⟨j, by omega, info, hinfo⟩
    · exact Or.inr ⟨k, by omega, _, hratchet.epochSecret_eq⟩

/-- In a run without removals, an added member derives no secret from before. -/
theorem not_derivable_before_addition {n : ℕ} (hsecret : s.epochSecret = .secret n) {i k : ℕ}
    {member : GroupMember} (hadd : s.Succeeds ops i (.addMember member)) (hk : k ≤ i) :
    ¬ Derivable Rule (s.knowledge ops member.nodeId) (s.stateAt ops k).epochSecret := by
  obtain ⟨hat, s', hok⟩ := hadd
  obtain ⟨hratchet, hnot, -⟩ := addMember_spec (indexed_stateAt h i) hok
  have hstep : s.stateAt ops (i + 1) = s' := by
    rw [stateAt_succ hat, step, hok]
  have hdeeper : (s.stateAt ops i).epochSecret.depth <
      (s.stateAt ops (i + 1)).epochSecret.depth := by
    rw [hstep, hratchet.epochSecret_eq]
    exact Nat.lt_succ_self _
  -- The secrets up to the addition are not among those the member was given, which are
  -- deeper, nor among the commit references, and each takes the one before to build.
  apply not_derivable_of_guarded {t | ∃ k ≤ i, t = (s.stateAt ops k).epochSecret}
  · rintro t ⟨k, hk, rfl⟩ ⟨j, -, ⟨hmember, heq⟩ | heq⟩
    · have hij : i < j := by
        by_contra hle
        rw [isMember_stateAt_mono h hno (not_lt.mp hle) hmember] at hnot
        cases hnot
      have hdepth := depth_stateAt_mono h ops hk
      have hdepth' := depth_stateAt_mono h ops (show i + 1 ≤ j from hij)
      rw [← heq] at hdepth'
      omega
    · rcases epochSecret_cases h hno k with hinitial | ⟨_, -, info, hinfo⟩
      · rw [hinitial, hsecret] at heq
        cases heq
      · cases hinfo.symm.trans heq
  · rintro t ⟨k, hk, rfl⟩ premises hrule
    rcases epochSecret_cases h hno k with hinitial | ⟨j, hj, info, hinfo⟩
    · rw [hinitial, hsecret] at hrule
      cases hrule
    · rw [hinfo] at hrule
      cases hrule
      exact ⟨_, List.mem_singleton_self _, j, hj.trans hk, rfl⟩
  · exact ⟨k, hk, rfl⟩

end NoRemoval

/-- The guarantee holds for a run of a new group with a secret of its own exactly when no
removal in it succeeds. -/
theorem secure_iff_no_removal {zoneId : ZoneId} {members : List GroupMember} {n : ℕ}
    (hnew : new zoneId members (.secret n) = .ok s) (ops : List Op) :
    s.Secure ops ↔ ∀ i node, ¬ s.Succeeds ops i (.removeMember node) := by
  obtain ⟨h, hsecret⟩ := new_spec hnew
  constructor
  · intro hsecure i node hop
    obtain ⟨hderivable, hout⟩ := derivable_after_removal h hop
    have hlen : i < ops.length := (List.getElem?_eq_some_iff.mp hop.1).1
    refine (hsecure.healed i (i + 1) node (Nat.lt_succ_self i) hlen hop fun k hik hk => ?_).1
      hderivable
    obtain rfl : k = i + 1 := by omega
    exact hout
  · intro hno
    refine ⟨fun i j node _ _ hop => absurd hop (hno i node), fun i k member hadd hk => ?_⟩
    exact not_derivable_before_addition h hno hsecret hadd hk

/-- A member with the given node id. -/
def plainMember (nodeId : NodeId) (leafIndex : UInt32) : GroupMember :=
  ⟨nodeId, List.Vector.replicate 32 0, leafIndex⟩

/-- A group of two of which one is added an epoch later: the guarantee holds. -/
theorem added_member_secure : ∃ s, new "z:work" [plainMember "a" 0] (.secret 0) = .ok s ∧
    s.Secure [.advanceEpoch, .addMember (plainMember "b" 1)] := by
  obtain ⟨s, hs⟩ : ∃ s, new "z:work" [plainMember "a" 0] (secret 0) = .ok s := ⟨_, rfl⟩
  refine ⟨s, hs, (secure_iff_no_removal hs _).mpr ?_⟩
  rintro i node ⟨hop, -⟩
  rcases i with _ | _ | i <;> cases hop

/-- A group of two of which one is removed: the removed member derives the secret and the
zone key of the next epoch. -/
theorem removed_member_derives : ∃ s,
    new "z:work" [plainMember "a" 0, plainMember "b" 1] (.secret 0) = .ok s ∧
    s.Succeeds [.removeMember "b"] 0 (.removeMember "b") ∧
    (s.stateAt [.removeMember "b"] 1).isMember "b" = false ∧
    Derivable Rule (s.knowledge [.removeMember "b"] "b")
      (s.stateAt [.removeMember "b"] 1).epochSecret ∧
    Derivable Rule (s.knowledge [.removeMember "b"] "b")
      ((s.stateAt [.removeMember "b"] 1).deriveZoneKey crypto) := by
  obtain ⟨s, hs⟩ : ∃ s, new "z:work" [plainMember "a" 0, plainMember "b" 1]
    (secret 0) = .ok s := ⟨_, rfl⟩
  have hop : s.Succeeds [.removeMember "b"] 0 (.removeMember "b") := by
    cases hs
    exact ⟨rfl, _, rfl⟩
  obtain ⟨hderivable, hout⟩ := derivable_after_removal (new_spec hs).1 hop
  refine ⟨s, hs, hop, hout, hderivable, .build (.hkdf _ _) fun t ht => ?_⟩
  rw [List.mem_singleton.mp ht]
  exact hderivable

end PcsGroupState

end Flywheel.Core
