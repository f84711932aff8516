import Flywheel.Core.LwwMap

/-!
# Observed-remove sets

`OrSet` of `fcp-core`. Every addition carries a tag, and a removal retires the tags
that the replica has seen. The state of a replica is a function of its history: the
removed tags are those that some removal has observed, and the live ones are the other
tags that were added.
-/

namespace Flywheel.Core

open Flywheel.Data Finset
open Std (ExtTreeMap)

structure OrSetTag where
  actor : CrdtActorId
  nonce : UInt64
  deriving DecidableEq

/-- `OrSetTags`: the tags of one value. -/
@[ext]
structure OrSetTags where
  adds : Finset OrSetTag
  removes : Finset OrSetTag

/-- `OrSetTags::default`. -/
def OrSetTags.none : OrSetTags := ⟨∅, ∅⟩

namespace OrSet

/-! ### Histories -/

variable {T : Type}

inductive Event (T : Type)
  | added (value : T) (tag : OrSetTag)
  /-- A value was removed by a replica that had observed these tags of it. -/
  | removed (value : T) (observed : Set OrSetTag)

/-- The tags under which a history adds a value. -/
def addedTags (history : Set (Event T)) (value : T) : Set OrSetTag :=
  {tag | .added value tag ∈ history}

/-- The tags that some removal of the value in the history has observed. -/
def observedTags (history : Set (Event T)) (value : T) : Set OrSetTag :=
  {tag | ∃ observed, .removed value observed ∈ history ∧ tag ∈ observed}

variable {x : T} {tag : OrSetTag} {history history' : Set (Event T)}

@[simp] theorem mem_addedTags_union :
    tag ∈ addedTags (history ∪ history') x ↔
      tag ∈ addedTags history x ∨ tag ∈ addedTags history' x := Iff.rfl

/-- The removals of two histories observe the tags of both. -/
@[simp] theorem mem_observedTags_union :
    tag ∈ observedTags (history ∪ history') x ↔
      tag ∈ observedTags history x ∨ tag ∈ observedTags history' x := by
  simp only [observedTags, Set.mem_ofPred_eq, Set.mem_union, or_and_right, exists_or]

variable {value : T}

@[simp] theorem mem_addedTags_added {tag' : OrSetTag} :
    tag' ∈ addedTags {.added value tag} x ↔ x = value ∧ tag' = tag := by
  simp [addedTags]

@[simp] theorem notMem_observedTags_added {tag' : OrSetTag} :
    tag' ∉ observedTags {.added value tag} x := by
  simp [observedTags]

@[simp] theorem notMem_addedTags_removed {observed : Set OrSetTag} :
    tag ∉ addedTags {.removed value observed} x := by
  simp [addedTags]

@[simp] theorem mem_observedTags_removed {observed : Set OrSetTag} :
    tag ∈ observedTags {.removed value observed} x ↔ x = value ∧ tag ∈ observed := by
  simp [observedTags]

end OrSet

@[ext]
structure OrSet (T : Type) [LinearOrder T] where
  entries : ExtTreeMap T OrSetTags

namespace OrSet

variable {T : Type} [LinearOrder T]

/-- `OrSet::default`. -/
def empty : OrSet T := ⟨∅⟩

variable (s : OrSet T) (value : T)

/-- The tags of a value, as `entry(value).or_default()` finds them. -/
def tagsOf : OrSetTags := s.entries[value]?.getD .none

/-- A tag is added to the tags of a value unless it is retired. -/
def addTag (tags : OrSetTags) (tag : OrSetTag) : OrSetTags :=
  if tag ∉ tags.removes then { tags with adds := insert tag tags.adds } else tags

def add (tag : OrSetTag) : OrSet T :=
  ⟨s.entries.insert value (addTag (s.tagsOf value) tag)⟩

def removeObserved : OrSet T :=
  match s.entries[value]? with
  | some tags => ⟨s.entries.insert value ⟨∅, tags.removes ∪ tags.adds⟩⟩
  | none => s

def contains : Bool :=
  match s.entries[value]? with
  | some tags => decide (tags.adds ≠ ∅)
  | none => false

/-- The body of the loop in `merge`, on the tags of one value. -/
def mergeTags (old : Option OrSetTags) (tags : OrSetTags) : OrSetTags :=
  let entry := old.getD .none
  let removes := entry.removes ∪ tags.removes
  let adds := entry.adds ∪ tags.adds.filter (· ∉ removes)
  ⟨adds.filter (· ∉ removes), removes⟩

def merge (s other : OrSet T) : OrSet T :=
  ⟨other.entries.foldl
    (fun entries value tags => entries.insert value (mergeTags entries[value]? tags)) s.entries⟩

theorem getElem?_insert (entries : ExtTreeMap T OrSetTags) (value : T) (tags : OrSetTags) (x : T) :
    (entries.insert value tags)[x]? = if value = x then some tags else entries[x]? := by
  rw [ExtTreeMap.getElem?_insert]
  simp only [compare_eq_iff_eq]

theorem entries_merge (s other : OrSet T) (x : T) :
    (s.merge other).entries[x]? = absorb mergeTags s.entries[x]? other.entries[x]? := by
  refine getElem?_foldl_entries (fun entries value tags x => ?_) s.entries other.entries x
  rw [getElem?_insert]
  split_ifs with heq
  · rw [heq]
  · rfl

/-! ### Replicas -/

inductive Action (T : Type)
  | add (value : T) (tag : OrSetTag)
  | removeObserved (value : T)

/-- A local action, with the event it appends to the history. A removal observes every tag that the
history of the replica adds. -/
def act : Action T → Replica (OrSet T) (Event T) → Replica (OrSet T) (Event T)
  | .add value tag, r => ⟨r.state.add value tag, r.history ∪ {.added value tag}⟩
  | .removeObserved value, r =>
    ⟨r.state.removeObserved value, r.history ∪ {.removed value (addedTags r.history value)}⟩

variable (ops : List (ReplicaOp (Action T)))

/-- The replicas after a run from empty sets. -/
def runSets : ℕ → Replica (OrSet T) (Event T) :=
  runReplicas act merge ⟨empty, ∅⟩ ops

/-- The state is the one that the history determines. -/
structure Reflects (r : Replica (OrSet T) (Event T)) : Prop where
  present : ∀ x, r.state.entries[x]?.isSome ↔ ∃ tag, tag ∈ addedTags r.history x
  /-- A tag is live when it was added and no removal has observed it. -/
  adds : ∀ x tag, tag ∈ (r.state.tagsOf x).adds ↔
    tag ∈ addedTags r.history x ∧ tag ∉ observedTags r.history x
  removes : ∀ x tag, tag ∈ (r.state.tagsOf x).removes ↔ tag ∈ observedTags r.history x

variable {r : Replica (OrSet T) (Event T)} {r' : Replica (OrSet T) (Event T)}

/-- Replicas with the same history have the same state. -/
theorem Reflects.state_eq (h : Reflects r) (h' : Reflects r')
    (hhistory : r.history = r'.history) : r.state = r'.state := by
  refine OrSet.ext (ExtTreeMap.ext_getElem? fun x => ?_)
  have hpresent : r.state.entries[x]?.isSome ↔ r'.state.entries[x]?.isSome := by
    rw [h.present, h'.present, hhistory]
  have htags : r.state.tagsOf x = r'.state.tagsOf x := by
    refine OrSetTags.ext (ext fun tag => ?_) (ext fun tag => ?_)
    · rw [h.adds, h'.adds, hhistory]
    · rw [h.removes, h'.removes, hhistory]
  unfold tagsOf at htags
  cases hentry : r.state.entries[x]? <;> cases hentry' : r'.state.entries[x]? <;>
    simp_all

theorem reflects_empty : Reflects (T := T) ⟨empty, ∅⟩ := by
  have hnone (x : T) : (empty).entries[x]? = none := ExtTreeMap.getElem?_empty
  constructor <;> simp [tagsOf, hnone, OrSetTags.none, addedTags, observedTags]

theorem tagsOf_add (tag : OrSetTag) (x : T) :
    (s.add value tag).tagsOf x = if x = value then addTag (s.tagsOf x) tag else s.tagsOf x := by
  rw [tagsOf, OrSet.add, getElem?_insert]
  by_cases hx : x = value
  · rw [if_pos hx, if_pos hx.symm, hx, Option.getD_some]
  · rw [if_neg hx, if_neg (Ne.symm hx), tagsOf]

theorem mem_adds_addTag {tags : OrSetTags} {tag tag' : OrSetTag} :
    tag' ∈ (addTag tags tag).adds ↔ tag' ∈ tags.adds ∨ tag' = tag ∧ tag' ∉ tags.removes := by
  unfold addTag
  split_ifs with hremoved
  · grind
  · grind

theorem removes_addTag (tags : OrSetTags) (tag : OrSetTag) :
    (addTag tags tag).removes = tags.removes := by
  unfold addTag
  split_ifs <;> rfl

/-- Adding keeps the state in line with the history. -/
theorem Reflects.add (h : Reflects r) (value : T)
    (tag : OrSetTag) : Reflects (act (.add value tag) r) := by
  refine ⟨fun x => ?_, fun x tag' => ?_, fun x tag' => ?_⟩
  · have hpresent := h.present x
    simp only [act, OrSet.add, mem_addedTags_union, mem_addedTags_added]
    grind
  · simp only [act, tagsOf_add, mem_addedTags_union, mem_addedTags_added, mem_observedTags_union,
      notMem_observedTags_added, or_false]
    have hadds := h.adds x tag'
    have hremoves := h.removes x tag'
    split_ifs with hx
    · rw [mem_adds_addTag]
      tauto
    · tauto
  · simp only [act, tagsOf_add, mem_observedTags_union, notMem_observedTags_added, or_false]
    have hremoves := h.removes x tag'
    split_ifs with hx
    · rwa [removes_addTag]
    · exact hremoves

theorem tagsOf_removeObserved (value x : T) :
    (s.removeObserved value).tagsOf x =
      if x = value then ⟨∅, (s.tagsOf x).removes ∪ (s.tagsOf x).adds⟩ else s.tagsOf x := by
  unfold OrSet.removeObserved
  by_cases hx : x = value
  · subst hx
    cases hentry : s.entries[x]? with
    | none => simp [tagsOf, hentry, OrSetTags.none]
    | some tags => simp [tagsOf, hentry]
  · rw [if_neg hx]
    cases hentry : s.entries[value]? with
    | none => rfl
    | some tags => simp only [tagsOf, getElem?_insert, if_neg (Ne.symm hx)]

/-- A removal makes and drops no entry. -/
theorem isSome_removeObserved (value x : T) :
    (s.removeObserved value).entries[x]?.isSome = s.entries[x]?.isSome := by
  unfold OrSet.removeObserved
  cases hentry : s.entries[value]? with
  | none => rfl
  | some tags =>
    rw [getElem?_insert]
    split_ifs with hx
    · rw [← hx, hentry, Option.isSome_some, Option.isSome_some]
    · rfl

/-- Removing keeps the state in line with the history. -/
theorem Reflects.removeObserved (h : Reflects r) (value : T) :
    Reflects (act (.removeObserved value) r) := by
  refine ⟨fun x => ?_, fun x tag => ?_, fun x tag => ?_⟩
  · rw [act, isSome_removeObserved, h.present]
    simp only [mem_addedTags_union, notMem_addedTags_removed, or_false]
  · rw [act, tagsOf_removeObserved]
    simp only [mem_addedTags_union, mem_observedTags_union,
      mem_observedTags_removed]
    have hadds := h.adds x tag
    split_ifs with hx
    · subst hx
      tauto
    · tauto
  · rw [act, tagsOf_removeObserved]
    simp only [mem_observedTags_union, mem_observedTags_removed]
    have hadds := h.adds x tag
    have hremoves := h.removes x tag
    split_ifs with hx
    · subst hx
      rw [mem_union]
      tauto
    · tauto

/-- The live tags after a merge. The cleanup runs only where the merged set has an entry. -/
theorem mem_adds_merge {s other : OrSet T} {x : T} {tag : OrSetTag}
    (hdisjoint : Disjoint (s.tagsOf x).adds (s.tagsOf x).removes) :
    tag ∈ ((s.merge other).tagsOf x).adds ↔
      (tag ∈ (s.tagsOf x).adds ∨ tag ∈ (other.tagsOf x).adds) ∧
        tag ∉ (s.tagsOf x).removes ∧ tag ∉ (other.tagsOf x).removes := by
  have hnot : tag ∈ (s.tagsOf x).adds → tag ∉ (s.tagsOf x).removes :=
    fun h => disjoint_left.mp hdisjoint h
  unfold tagsOf at hnot ⊢
  rw [entries_merge]
  cases other.entries[x]? with
  | none =>
    tauto
  | some tags =>
    simp only [absorb, mergeTags, Option.getD_some, mem_filter, mem_union]
    tauto

theorem mem_removes_merge {s other : OrSet T} {x : T} {tag : OrSetTag} :
    tag ∈ ((s.merge other).tagsOf x).removes ↔
      tag ∈ (s.tagsOf x).removes ∨ tag ∈ (other.tagsOf x).removes := by
  unfold tagsOf
  rw [entries_merge]
  cases other.entries[x]? with
  | none => simp only [absorb, Option.getD_none, OrSetTags.none, notMem_empty, or_false]
  | some tags => simp only [absorb, mergeTags, Option.getD_some, mem_union]

theorem Reflects.disjoint (h : Reflects r) (x : T) :
    Disjoint (r.state.tagsOf x).adds (r.state.tagsOf x).removes :=
  disjoint_left.mpr fun tag hadds hremoves =>
    ((h.adds x tag).mp hadds).2 ((h.removes x tag).mp hremoves)

/-- Merging keeps the state in line with the history. -/
theorem Reflects.join (h : Reflects r) (h' : Reflects r') : Reflects (r.join merge r') := by
  refine ⟨fun x => ?_, fun x tag => ?_, fun x tag => ?_⟩
  · have hpresent := h.present x
    have hpresent' := h'.present x
    simp only [Replica.join, entries_merge, mem_addedTags_union, exists_or]
    rw [← hpresent, ← hpresent']
    cases r'.state.entries[x]? with
    | none | some tags => simp [absorb]
  · simp only [Replica.join, mem_addedTags_union, mem_observedTags_union]
    rw [mem_adds_merge (h.disjoint x), h.adds, h'.adds, h.removes, h'.removes]
    tauto
  · simp only [Replica.join, mem_observedTags_union]
    rw [mem_removes_merge, h.removes, h'.removes]

theorem reflects_runSets (i : ℕ) : Reflects (runSets ops i) := by
  refine runReplicas_invariant reflects_empty (fun _ _ h h' => h.join h') ?_ i
  intro _ action _ r h
  cases action with
  | add value tag => exact h.add value tag
  | removeObserved value => exact h.removeObserved value

theorem contains_iff (x : T) : s.contains x = true ↔ ∃ tag, tag ∈ (s.tagsOf x).adds := by
  unfold contains tagsOf
  cases s.entries[x]? with
  | none => simp [OrSetTags.none]
  | some tags => simp [eq_empty_iff_forall_notMem]

/-- At every replica of every run a value is in the set exactly when some tag that its history adds
for the value was observed by no removal of the value in that history. Live and retired tags are
disjoint, merging is commutative, associative and idempotent, and replicas with the same history
are equal. -/
theorem runSets_add_wins (ops : List (ReplicaOp (Action T))) (i j k : ℕ) :
    (∀ x, (runSets ops i).state.contains x = true ↔
      ∃ tag, .added x tag ∈ (runSets ops i).history ∧
        ∀ observed, .removed x observed ∈ (runSets ops i).history → tag ∉ observed) ∧
    (∀ (x : T) (tags : OrSetTags), (runSets ops i).state.entries[x]? = some tags →
      Disjoint tags.adds tags.removes) ∧
    (runSets ops i).state.merge (runSets ops j).state =
      (runSets ops j).state.merge (runSets ops i).state ∧
    ((runSets ops i).state.merge (runSets ops j).state).merge (runSets ops k).state =
      (runSets ops i).state.merge ((runSets ops j).state.merge (runSets ops k).state) ∧
    (runSets ops i).state.merge (runSets ops i).state = (runSets ops i).state ∧
    ((runSets ops i).history = (runSets ops j).history →
      (runSets ops i).state = (runSets ops j).state) := by
  have h := reflects_runSets ops
  refine ⟨fun x => ?_, fun x tags htags => ?_, ?_, ?_, ?_, fun heq => (h i).state_eq (h j) heq⟩
  · rw [contains_iff]
    simp only [(h i).adds, addedTags, observedTags, Set.mem_ofPred_eq, not_exists, not_and]
  · have hdisjoint := (h i).disjoint x
    rwa [tagsOf, htags] at hdisjoint
  -- Both sides of each law are states of replicas with the same history.
  · exact ((h i).join (h j)).state_eq ((h j).join (h i)) (Set.union_comm _ _)
  · exact (((h i).join (h j)).join (h k)).state_eq ((h i).join ((h j).join (h k)))
      (Set.union_assoc _ _ _)
  · exact ((h i).join (h i)).state_eq (h i) (Set.union_self _)

end OrSet

end Flywheel.Core
