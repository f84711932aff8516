import Flywheel.Data.Replicas
import Mathlib.Data.Prod.Lex
import Mathlib.Data.String.Basic

/-!
# Last-write-wins maps

`LwwMap` of `fcp-core`. An entry wins by its timestamp and then by its actor; an entry
with the same timestamp and actor does not replace the one that is there. Merging is
associative and idempotent. It is commutative, and replicas with the same updates
agree, exactly when no two updates of a key share timestamp and actor but not the value.
-/

namespace Flywheel.Core

open Flywheel.Data
open Std (ExtTreeMap)

abbrev CrdtActorId := String

@[ext]
structure LwwEntry (V : Type) where
  value : V
  timestamp : UInt64
  actor : CrdtActorId

namespace LwwEntry

variable {V : Type}

def winsOver (entry other : LwwEntry V) : Bool :=
  if entry.timestamp = other.timestamp then decide (other.actor < entry.actor)
  else decide (other.timestamp < entry.timestamp)

/-- What `winsOver` compares, in the order in which it compares. -/
def stamp (entry : LwwEntry V) : ℕ ×ₗ String := toLex (entry.timestamp.toNat, entry.actor)

theorem winsOver_iff {entry other : LwwEntry V} :
    entry.winsOver other = true ↔ other.stamp < entry.stamp := by
  rw [stamp, stamp, Prod.Lex.toLex_lt_toLex, winsOver]
  split_ifs with heq
  · simp [heq]
  · have hne : other.timestamp.toNat ≠ entry.timestamp.toNat :=
      fun h => heq (UInt64.toNat_inj.mp h.symm)
    simp [hne, UInt64.lt_iff_toNat_lt]

theorem stamp_eq_iff {entry other : LwwEntry V} :
    entry.stamp = other.stamp ↔
      entry.timestamp = other.timestamp ∧ entry.actor = other.actor := by
  rw [stamp, stamp, toLex_inj, Prod.mk.injEq, UInt64.toNat_inj]

end LwwEntry

@[ext]
structure LwwMap (K V : Type) [LinearOrder K] where
  entries : ExtTreeMap K (LwwEntry V)

namespace LwwMap

variable {K V : Type} [LinearOrder K]

/-- `LwwMap::default`. -/
def empty : LwwMap K V := ⟨∅⟩

variable (entries : ExtTreeMap K (LwwEntry V))

/-- The body of `insert` and of the loop in `merge`: store the entry unless the one that is there
stands. -/
def store (key : K) (entry : LwwEntry V) : ExtTreeMap K (LwwEntry V) :=
  match entries[key]? with
  | some existing => if !entry.winsOver existing then entries else entries.insert key entry
  | none => entries.insert key entry

variable (m : LwwMap K V)

def insert (key : K) (value : V) (timestamp : UInt64) (actor : CrdtActorId) : LwwMap K V :=
  ⟨store m.entries key ⟨value, timestamp, actor⟩⟩

def merge (m other : LwwMap K V) : LwwMap K V := ⟨other.entries.foldl store m.entries⟩

def get (key : K) : Option (LwwEntry V) := m.entries[key]?

/-- The entry that stands when a second one arrives. -/
def prefer (old : Option (LwwEntry V)) (entry : LwwEntry V) : LwwEntry V :=
  match old with
  | some existing => if entry.winsOver existing then entry else existing
  | none => entry

theorem ext_get {m m' : LwwMap K V} (h : ∀ key, m.get key = m'.get key) : m = m' :=
  LwwMap.ext (ExtTreeMap.ext_getElem? h)

/-- Storing an entry changes its key only. -/
theorem getElem?_store (key : K) (entry : LwwEntry V) (j : K) :
    (store entries key entry)[j]? =
      if key = j then some (prefer entries[j]? entry) else entries[j]? := by
  have hinsert : (entries.insert key entry)[j]? = if key = j then some entry else entries[j]? := by
    rw [ExtTreeMap.getElem?_insert]
    simp only [compare_eq_iff_eq]
  rcases eq_or_ne key j with rfl | hne
  · cases hold : entries[key]? with
    | none => simp only [store, prefer, hold, hinsert]
    | some existing =>
      cases hwins : entry.winsOver existing <;> simp [store, prefer, hold, hwins]
  · rw [if_neg hne] at hinsert ⊢
    unfold store
    split
    · split_ifs
      · rfl
      · exact hinsert
    · exact hinsert

theorem get_insert (key : K) (value : V) (timestamp : UInt64) (actor : CrdtActorId) (j : K) :
    (m.insert key value timestamp actor).get j =
      if key = j then some (prefer (m.get j) ⟨value, timestamp, actor⟩) else m.get j :=
  getElem?_store m.entries key _ j

theorem get_insert_empty (key : K) (entry : LwwEntry V) :
    (empty.insert key entry.value entry.timestamp entry.actor).get key = some entry := by
  rw [get_insert, if_pos rfl]
  rfl

theorem get_merge (m other : LwwMap K V) (key : K) :
    (m.merge other).get key = absorb prefer (m.get key) (other.get key) :=
  getElem?_foldl_entries getElem?_store m.entries other.entries key

/-! ### Merging as a choice of the later entry -/

variable {x y : LwwEntry V}

theorem prefer_of_le (h : y.stamp ≤ x.stamp) : prefer (some x) y = x := by
  have hwins : ¬ y.winsOver x := fun hwins => (LwwEntry.winsOver_iff.mp hwins).not_ge h
  rw [prefer, if_neg hwins]

theorem prefer_of_lt (h : x.stamp < y.stamp) : prefer (some x) y = y := by
  rw [prefer, if_pos (LwwEntry.winsOver_iff.mpr h)]

/-- Choosing the latest of three entries, the first of them on ties, is associative. -/
theorem absorb_prefer_assoc (a b c : Option (LwwEntry V)) :
    absorb prefer (absorb prefer a b) c = absorb prefer a (absorb prefer b c) := by
  match a, b, c with
  | _, _, none => rfl
  | _, none, some _ => rfl
  | none, some _, some _ => rfl
  | some x, some y, some z =>
    change some (prefer (some (prefer (some x) y)) z) = some (prefer (some x) (prefer (some y) z))
    rcases le_or_gt y.stamp x.stamp with hxy | hxy <;>
      rcases le_or_gt z.stamp y.stamp with hyz | hyz
    · rw [prefer_of_le hyz, prefer_of_le hxy, prefer_of_le (hyz.trans hxy)]
    · rw [prefer_of_le hxy, prefer_of_lt hyz]
    · rw [prefer_of_lt hxy, prefer_of_le hyz, prefer_of_lt hxy]
    · rw [prefer_of_lt hxy, prefer_of_lt hyz, prefer_of_lt (hxy.trans hyz)]

theorem absorb_prefer_self (a : Option (LwwEntry V)) : absorb prefer a a = a := by
  cases a with
  | none => rfl
  | some x => exact congrArg some (prefer_of_le le_rfl)

/-- The order of two entries matters only for different entries with one stamp. -/
theorem absorb_prefer_comm_iff (a b : Option (LwwEntry V)) :
    absorb prefer a b = absorb prefer b a ↔
      ∀ x y, a = some x → b = some y → x.stamp = y.stamp → x = y := by
  match a, b with
  | none, none => simp
  | none, some _ => exact ⟨fun _ _ _ h => (nomatch h), fun _ => rfl⟩
  | some _, none => exact ⟨fun _ _ _ _ h => (nomatch h), fun _ => rfl⟩
  | some x, some y =>
    simp only [absorb, Option.some.injEq]
    rcases lt_trichotomy x.stamp y.stamp with hlt | heq | hgt
    · rw [prefer_of_lt hlt, prefer_of_le hlt.le]
      exact ⟨fun _ x' y' hx hy heq => absurd (hx ▸ hy ▸ heq) hlt.ne, fun _ => rfl⟩
    · rw [prefer_of_le heq.ge, prefer_of_le heq.le]
      exact ⟨fun h x' y' hx hy _ => hx ▸ hy ▸ h, fun h => h x y rfl rfl heq⟩
    · rw [prefer_of_le hgt.le, prefer_of_lt hgt]
      exact ⟨fun _ x' y' hx hy heq => absurd (hx ▸ hy ▸ heq) hgt.ne', fun _ => rfl⟩

theorem merge_assoc (a b c : LwwMap K V) : (a.merge b).merge c = a.merge (b.merge c) := by
  refine ext_get fun key => ?_
  simp only [get_merge]
  exact absorb_prefer_assoc _ _ _

theorem merge_self (a : LwwMap K V) : a.merge a = a := by
  refine ext_get fun key => ?_
  rw [get_merge]
  exact absorb_prefer_self _

/-- Merging two maps is commutative unless some key has two entries of one stamp. -/
theorem merge_comm_iff (a b : LwwMap K V) :
    a.merge b = b.merge a ↔
      ∀ key x y, a.get key = some x → b.get key = some y → x.stamp = y.stamp → x = y := by
  constructor
  · intro h key
    rw [← absorb_prefer_comm_iff, ← get_merge, ← get_merge, h]
  · intro h
    refine ext_get fun key => ?_
    rw [get_merge, get_merge]
    exact (absorb_prefer_comm_iff _ _).mpr (h key)

/-! ### Replicas -/

/-- An update: the arguments of an insertion. -/
abbrev Update (K V : Type) := K × LwwEntry V

def applyUpdate (u : Update K V) (r : Replica (LwwMap K V) (Update K V)) :
    Replica (LwwMap K V) (Update K V) :=
  ⟨r.state.insert u.1 u.2.value u.2.timestamp u.2.actor, r.history ∪ {u}⟩

variable (ops : List (ReplicaOp (Update K V)))

/-- The replicas after a run of insertions and merges from empty maps. -/
def runMaps : ℕ → Replica (LwwMap K V) (Update K V) :=
  runReplicas applyUpdate merge ⟨empty, ∅⟩ ops

/-- The map holds for each key an update of the history, and a latest one. -/
structure HoldsLatest (r : Replica (LwwMap K V) (Update K V)) : Prop where
  /-- Every entry is an update of the history. -/
  mem : ∀ {key entry}, r.state.get key = some entry → (key, entry) ∈ r.history
  /-- No update of the history is later than the entry of its key. -/
  le : ∀ {key entry}, (key, entry) ∈ r.history →
    ∃ latest, r.state.get key = some latest ∧ entry.stamp ≤ latest.stamp

/-- The preferred entry is one of the two, and neither of the two is later. -/
theorem prefer_spec (old : Option (LwwEntry V)) (entry : LwwEntry V) :
    (prefer old entry = entry ∨ old = some (prefer old entry)) ∧
      entry.stamp ≤ (prefer old entry).stamp ∧
      ∀ existing, old = some existing → existing.stamp ≤ (prefer old entry).stamp := by
  cases old with
  | none => exact ⟨Or.inl rfl, le_rfl, fun _ h => nomatch h⟩
  | some existing =>
    rcases le_or_gt entry.stamp existing.stamp with hle | hlt
    · rw [prefer_of_le hle]
      exact ⟨Or.inr rfl, hle, fun x h => (Option.some.inj h) ▸ le_rfl⟩
    · rw [prefer_of_lt hlt]
      exact ⟨Or.inl rfl, le_rfl, fun x h => (Option.some.inj h) ▸ hlt.le⟩

theorem holdsLatest_empty : HoldsLatest (K := K) (V := V) ⟨empty, ∅⟩ :=
  ⟨fun h => absurd h (by simp [empty, get]), fun h => h.elim⟩

variable {r : Replica (LwwMap K V) (Update K V)}

/-- A map that absorbs another one holds the latest of both histories. -/
theorem HoldsLatest.of_absorb (h : HoldsLatest r)
    {other : K → Option (LwwEntry V)} {history : Set (Update K V)}
    (hmem : ∀ {key entry}, other key = some entry → (key, entry) ∈ history)
    (hle : ∀ {key entry}, (key, entry) ∈ history →
      ∃ latest, other key = some latest ∧ entry.stamp ≤ latest.stamp)
    {m : LwwMap K V} (hm : ∀ key, m.get key = absorb prefer (r.state.get key) (other key)) :
    HoldsLatest ⟨m, r.history ∪ history⟩ := by
  constructor
  · intro key entry hget
    rw [hm] at hget
    cases hother : other key with
    | none =>
      rw [hother] at hget
      exact Or.inl (h.mem hget)
    | some entry' =>
      rw [hother, absorb] at hget
      rcases (prefer_spec (r.state.get key) entry').1 with hnew | hold
      · exact Or.inr (hmem (by rw [hother, ← hget, hnew]))
      · exact Or.inl (h.mem (by rw [← hget, ← hold]))
  · intro key entry hhistory
    simp only [hm]
    cases hother : other key with
    | none =>
      rcases hhistory with hhistory | hhistory
      · exact h.le hhistory
      · obtain ⟨latest, hlatest, -⟩ := hle hhistory
        cases hother.symm.trans hlatest
    | some entry' =>
      obtain ⟨-, hnew, hold⟩ := prefer_spec (r.state.get key) entry'
      refine ⟨_, rfl, ?_⟩
      rcases hhistory with hhistory | hhistory
      · obtain ⟨latest, hlatest, hstamp⟩ := h.le hhistory
        exact hstamp.trans (hold latest hlatest)
      · obtain ⟨latest, hlatest, hstamp⟩ := hle hhistory
        rw [hother, Option.some.injEq] at hlatest
        exact hstamp.trans (hlatest ▸ hnew)

theorem HoldsLatest.applyUpdate (h : HoldsLatest r)
    (u : Update K V) : HoldsLatest (applyUpdate u r) := by
  have hget (key) : (LwwMap.applyUpdate u r).state.get key =
      absorb prefer (r.state.get key) (if u.1 = key then some u.2 else none) := by
    rw [LwwMap.applyUpdate, get_insert]
    split_ifs <;> rfl
  refine h.of_absorb ?_ ?_ hget
  · intro key entry hentry
    split_ifs at hentry with hkey
    rw [← hkey, ← Option.some.inj hentry]
    rfl
  · rintro key entry rfl
    exact ⟨entry, if_pos rfl, le_rfl⟩

variable {r r' : Replica (LwwMap K V) (Update K V)}
theorem holdsLatest_runMaps (i : ℕ) : HoldsLatest (runMaps ops i) :=
  runReplicas_invariant holdsLatest_empty
    (fun _ _ h h' => h.of_absorb h'.mem h'.le fun key => get_merge _ _ key)
    (fun _ u _ _ h => h.applyUpdate u) i

/-- No two updates of a key share timestamp and actor but not the value. -/
def Unambiguous (updates : Set (Update K V)) : Prop :=
  ∀ key x y, (key, x) ∈ updates → (key, y) ∈ updates → x.timestamp = y.timestamp →
    x.actor = y.actor → x.value = y.value

/-- Merging is commutative, associative and idempotent on the replicas of every run of the given
updates, and replicas that have merged the same updates hold the same map. -/
def Converges (updates : Set (Update K V)) : Prop :=
  ∀ ops, (∀ i u, .act i u ∈ ops → u ∈ updates) → ∀ i j k,
    (runMaps ops i).state.merge (runMaps ops j).state =
        (runMaps ops j).state.merge (runMaps ops i).state ∧
      ((runMaps ops i).state.merge (runMaps ops j).state).merge (runMaps ops k).state =
        (runMaps ops i).state.merge ((runMaps ops j).state.merge (runMaps ops k).state) ∧
      (runMaps ops i).state.merge (runMaps ops i).state = (runMaps ops i).state ∧
      ((runMaps ops i).history = (runMaps ops j).history →
        (runMaps ops i).state = (runMaps ops j).state)

theorem history_runMaps_subset {updates : Set (Update K V)} {ops : List (ReplicaOp (Update K V))}
    (hops : ∀ i u, .act i u ∈ ops → u ∈ updates) (i : ℕ) : (runMaps ops i).history ⊆ updates := by
  refine runReplicas_invariant (P := fun r => r.history ⊆ updates) (Set.empty_subset _) ?_ ?_ i
  · exact fun r r' h h' => Set.union_subset h h'
  · exact fun j u hmem r h => Set.union_subset h (Set.singleton_subset_iff.mpr (hops j u hmem))

omit [LinearOrder K] in
theorem Unambiguous.eq_of_stamp_eq {updates : Set (Update K V)} (h : Unambiguous updates)
    {key : K} (hx : (key, x) ∈ updates) (hy : (key, y) ∈ updates) (hstamp : x.stamp = y.stamp) :
    x = y := by
  obtain ⟨htimestamp, hactor⟩ := LwwEntry.stamp_eq_iff.mp hstamp
  exact LwwEntry.ext (h key x y hx hy htimestamp hactor) htimestamp hactor

/-- Replicas with the same unambiguous history hold the same map. -/
theorem HoldsLatest.state_eq (h : HoldsLatest r)
    (h' : HoldsLatest r') (hhistory : r.history = r'.history) (hunique : Unambiguous r.history) :
    r.state = r'.state := by
  refine ext_get fun key => ?_
  cases hget : r.state.get key with
  | none =>
    cases hget' : r'.state.get key with
    | none => rfl
    | some entry' =>
      obtain ⟨latest, hlatest, -⟩ := h.le (hhistory ▸ h'.mem hget')
      cases hget.symm.trans hlatest
  | some entry =>
    have hmem := h.mem hget
    obtain ⟨entry', hget', hle⟩ := h'.le (hhistory ▸ hmem)
    have hmem' := hhistory.symm ▸ h'.mem hget'
    obtain ⟨latest, hlatest, hle'⟩ := h.le hmem'
    cases hget.symm.trans hlatest
    rw [hget', hunique.eq_of_stamp_eq hmem hmem' (le_antisymm hle hle')]

/-- Runs of a set of updates converge exactly when the set holds no two updates of a key with the
same timestamp and actor and different values. -/
theorem converges_iff_unambiguous (updates : Set (Update K V)) :
    Converges updates ↔ Unambiguous updates := by
  constructor
  · intro h key x y hx hy htimestamp hactor
    -- One replica inserts `x`, another inserts `y`; their merges keep their own entry.
    have hops : ∀ i u, .act i u ∈ [.act 0 (key, x), ReplicaOp.act 1 (key, y)] → u ∈ updates := by
      rintro i u hmem
      simp only [List.mem_cons, List.not_mem_nil, or_false] at hmem
      rcases hmem with ⟨-, rfl⟩ | ⟨-, rfl⟩
      · exact hx
      · exact hy
    have hcomm := (merge_comm_iff _ _).mp (h _ hops 0 1 0).1
    have hentry : x = y := hcomm key x y (get_insert_empty key x) (get_insert_empty key y)
      (LwwEntry.stamp_eq_iff.mpr ⟨htimestamp, hactor⟩)
    rw [hentry]
  · intro hunique ops hops i j k
    have hsubset := history_runMaps_subset hops
    have hlatest := holdsLatest_runMaps ops
    refine ⟨?_, merge_assoc _ _ _, merge_self _, fun hhistory => ?_⟩
    · refine (merge_comm_iff _ _).mpr fun key x y hx hy => ?_
      exact hunique.eq_of_stamp_eq (hsubset i ((hlatest i).mem hx)) (hsubset j ((hlatest j).mem hy))
    · exact (hlatest i).state_eq (hlatest j) hhistory fun key x y hx hy =>
        hunique key x y (hsubset i hx) (hsubset i hy)

/-- Two maps in which one actor wrote different values at one time keep their own value when they
are merged. -/
theorem merge_comm_fails_on_tie :
    let a := (empty : LwwMap String ℕ).insert "k" 1 100 "X"
    let b := (empty : LwwMap String ℕ).insert "k" 2 100 "X"
    a.merge b ≠ b.merge a := by
  intro a b heq
  have hentry := (merge_comm_iff a b).mp heq "k" ⟨1, 100, "X"⟩ ⟨2, 100, "X"⟩
    (get_insert_empty "k" ⟨1, 100, "X"⟩) (get_insert_empty "k" ⟨2, 100, "X"⟩) rfl
  exact absurd (congrArg LwwEntry.value hentry) (by decide)

end LwwMap

end Flywheel.Core
