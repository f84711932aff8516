import Flywheel.Store.GarbageCollection

/-!
# Lifecycle snapshots

`snapshot_zone_lifecycle` of `fcp-store` reports the state of every object of a zone, and
whether it can be reached from the roots. It searches the objects by itself. The collector
leaves references to missing objects alone, and the snapshot fails on them.
-/

namespace Flywheel.Store

open Flywheel.Core Flywheel.Data
open Std (ExtTreeMap LawfulEqCmp TransCmp)

inductive LifecycleRootRole
  | checkpoint
  | pin
  deriving DecidableEq

def LifecycleRootRole.sortKey : LifecycleRootRole → ℕ
  | .checkpoint => 0
  | .pin => 1

inductive LifecycleRootStatus
  | valid
  | missing
  | foreignZone
  deriving DecidableEq

structure LifecycleRootObservation where
  objectId : ObjectId
  role : LifecycleRootRole
  status : LifecycleRootStatus
  deriving DecidableEq

inductive ObjectLeaseState
  | notLeased
  | active
  | expired
  deriving DecidableEq

/-- `ObjectLifecycleSnapshot`, without what it says about symbols. -/
structure ObjectLifecycleSnapshot where
  objectId : ObjectId
  rootRoles : List LifecycleRootRole
  reachableFromRoots : Bool
  retention : RetentionClass
  leaseState : ObjectLeaseState
  refs : List ObjectId
  foreignRefs : List ObjectId

/-- `ZoneLifecycleSnapshot`, without what it says about symbols. -/
structure ZoneLifecycleSnapshot where
  zoneId : ZoneId
  generatedAt : UInt64
  checkpointRoot : Option ObjectId
  roots : List LifecycleRootObservation
  objectCount : ℕ
  reachableCount : ℕ
  unreachableCount : ℕ
  objects : List ObjectLifecycleSnapshot

section Snapshot

variable (zone : ZoneId) (roots : GcRoots) (objects : ObjectMap) (now : UInt64)

def classifyRoot (id : ObjectId) : LifecycleRootStatus :=
  match objects[id]? with
  | some object => if object.header.zoneId = zone then .valid else .foreignZone
  | none => .missing

def LifecycleRootObservation.isLE (left right : LifecycleRootObservation) : Bool :=
  ((objectIdCmp left.objectId right.objectId).then
    (compare left.role.sortKey right.role.sortKey)).isLE

def rootObservations : List LifecycleRootObservation :=
  let checkpoint := roots.zoneCheckpoint.toList.map fun id =>
    ⟨id, .checkpoint, classifyRoot zone objects id⟩
  let pinned := (sortIds roots.pinned).map fun id => ⟨id, .pin, classifyRoot zone objects id⟩
  (checkpoint ++ pinned).insertionSort fun left right => left.isLE right

/-- The roots that the search starts from. -/
def validRoots : List ObjectId :=
  ((rootObservations zone roots objects).filter (·.status = .valid)).map
    LifecycleRootObservation.objectId

/-- What the search does with an object. A missing one is an error. -/
def expandLifecycle (id : ObjectId) : Except ObjectStoreError (Option (List ObjectId)) :=
  match objects[id]? with
  | none => .error (.notFound id)
  | some object =>
    if object.header.zoneId ≠ zone then .ok none else .ok (some (sortIds object.header.refs))

/-- The search: every object that it comes to. -/
def lifecycleSearch : Except ObjectStoreError (Marks ObjectId) :=
  mark (expandLifecycle zone objects) (markSteps objects (validRoots zone roots objects))
    (validRoots zone roots objects)

def leaseState : RetentionClass → ObjectLeaseState
  | .pinned => .notLeased
  | .ephemeral => .notLeased
  | .lease expiresAt => if now < expiresAt then .active else .expired

def lifecycleEntry (reachable : List ObjectId) (id : ObjectId) :
    Except ObjectStoreError ObjectLifecycleSnapshot :=
  match objects[id]? with
  | none => .error (.notFound id)
  | some object =>
    .ok
      { objectId := id
        rootRoles :=
          (if roots.zoneCheckpoint = some id then [.checkpoint] else []) ++
            if id ∈ roots.pinned then [.pin] else []
        reachableFromRoots := id ∈ reachable
        retention := object.storage.retention
        leaseState := leaseState now object.storage.retention
        refs := sortIds object.header.refs
        foreignRefs := sortIds object.header.foreignRefs }

def snapshotZoneLifecycle : Except ObjectStoreError ZoneLifecycleSnapshot := do
  let marks ← lifecycleSearch zone roots objects
  let entries ← (sortIds (objects.zoneIds zone)).mapM
    (lifecycleEntry roots objects now marks.visited)
  let reachableCount := (entries.filter ObjectLifecycleSnapshot.reachableFromRoots).length
  return ⟨zone, now, roots.zoneCheckpoint, rootObservations zone roots objects, entries.length,
    reachableCount, entries.length - reachableCount, entries⟩

end Snapshot

variable {config : GcConfig} {zone : ZoneId} {roots : GcRoots} {objects : ObjectMap}
  {now : UInt64} {plan : SweepPlan} {id : ObjectId}

/-- The references of the zone's objects are followed. -/
theorem expandLifecycle_eq_some {refs : List ObjectId} :
    expandLifecycle zone objects id = .ok (some refs) ↔
      ∃ object, InZone zone objects id object ∧ sortIds object.header.refs = refs := by
  rw [expandLifecycle]
  cases hget : objects[id]? with
  | none => simp [InZone, hget]
  | some object =>
    simp only [InZone]
    split_ifs with hzone <;> simp_all

theorem expandLifecycle_eq_error {e : ObjectStoreError} :
    expandLifecycle zone objects id = .error e ↔ objects[id]? = none ∧ e = .notFound id := by
  rw [expandLifecycle]
  cases hget : objects[id]? with
  | none => simp [eq_comm]
  | some object =>
    simp only [reduceCtorEq, false_and, iff_false]
    split_ifs <;> exact fun h => by cases h

/-- A root that is an object of the zone is valid. -/
theorem mem_validRoots :
    id ∈ validRoots zone roots objects ↔
      roots.isRoot id = true ∧ ∃ object, InZone zone objects id object := by
  have hvalid : ∀ id, classifyRoot zone objects id = .valid ↔
      ∃ object, InZone zone objects id object := by
    intro id
    rw [classifyRoot]
    cases hget : objects[id]? with
    | none => simp [InZone, hget]
    | some object =>
      simp only [InZone, hget]
      split_ifs with hzone <;> simp [hzone]
  simp only [validRoots, rootObservations, List.mem_map, List.mem_filter, List.mem_append,
    (List.perm_insertionSort _ _).mem_iff, Option.mem_toList, mem_sortIds, ← hvalid,
    GcRoots.isRoot, decide_eq_true_eq]
  constructor
  · rintro ⟨-, ⟨⟨root, hroot, rfl⟩ | ⟨root, hroot, rfl⟩, hstatus⟩, rfl⟩
    · exact ⟨.inl hroot, hstatus⟩
    · exact ⟨.inr hroot, hstatus⟩
  · rintro ⟨hroot | hroot, hstatus⟩
    · exact ⟨⟨id, .checkpoint, _⟩, ⟨.inl ⟨id, hroot, rfl⟩, hstatus⟩, rfl⟩
    · exact ⟨⟨id, .pin, _⟩, ⟨.inr ⟨id, hroot, rfl⟩, hstatus⟩, rfl⟩

variable (zone roots objects) in
theorem searches_expandLifecycle : Searches zone roots objects (expandLifecycle zone objects)
    (validRoots zone roots objects) sortIds :=
  ⟨fun hobject => mem_validRoots.trans (and_iff_left ⟨_, hobject⟩), expandLifecycle_eq_some,
    List.perm_insertionSort _⟩

variable (zone roots objects) in
/-- No reachable object refers to a missing one. -/
def NoDanglingRefs : Prop :=
  ∀ id object, Reachable zone roots objects id → objects[id]? = some object →
    ∀ ref ∈ object.header.refs, ref ∈ objects

/-- The search comes to a missing object exactly when a reachable one refers to it. -/
theorem noDanglingRefs_iff :
    NoDanglingRefs zone roots objects ↔
      ∀ id, Touched (expandLifecycle zone objects) (validRoots zone roots objects) id →
        id ∈ objects := by
  have hsearches := searches_expandLifecycle zone roots objects
  constructor
  · intro h id htouched
    cases htouched with
    | root hroot =>
      obtain ⟨-, object, hobject⟩ := mem_validRoots.mp hroot
      rw [ExtTreeMap.mem_iff_isSome_getElem?, hobject.1]
      rfl
    | next hy hnext hx =>
      obtain ⟨referrer, hreferrer, rfl⟩ := expandLifecycle_eq_some.mp hnext
      exact h _ referrer (hsearches.reachable_iff.mpr ⟨hy, referrer, hreferrer⟩)
        hreferrer.1 id (mem_sortIds.mp hx)
  · intro h id object hreachable hobject ref href
    obtain ⟨htouched, object', hin⟩ := hsearches.reachable_iff.mp hreachable
    refine h ref (.next htouched (expandLifecycle_eq_some.mpr ⟨object', hin, rfl⟩) ?_)
    rw [hin.1] at hobject
    cases hobject
    exact mem_sortIds.mpr href

/-! ### Snapshots -/

variable (roots now) in
theorem exists_lifecycleEntries (reachable : List ObjectId) {ids : List ObjectId}
    (hids : ∀ id ∈ ids, id ∈ objects) :
    ∃ entries, ids.mapM (lifecycleEntry roots objects now reachable) = .ok entries ∧
      entries.map ObjectLifecycleSnapshot.objectId = ids ∧
      ∀ entry ∈ entries, (entry.reachableFromRoots = true ↔ entry.objectId ∈ reachable) ∧
        ∃ object, objects[entry.objectId]? = some object ∧
          entry.retention = object.storage.retention := by
  induction ids with
  | nil => exact ⟨[], rfl, rfl, by simp⟩
  | cons id ids ih =>
    obtain ⟨hid, hids⟩ := List.forall_mem_cons.mp hids
    obtain ⟨entries, hentries, hmap, hall⟩ := ih hids
    obtain ⟨object, hobject⟩ : ∃ object, objects[id]? = some object :=
      ⟨_, ExtTreeMap.getElem?_eq_some_getElem hid⟩
    obtain ⟨entry, hentry, hid', hreachable, hretention⟩ : ∃ entry,
        lifecycleEntry roots objects now reachable id = .ok entry ∧ entry.objectId = id ∧
          (entry.reachableFromRoots = true ↔ id ∈ reachable) ∧
          entry.retention = object.storage.retention := by
      rw [lifecycleEntry, hobject]
      exact ⟨_, rfl, rfl, decide_eq_true_iff, rfl⟩
    refine ⟨entry :: entries, ?_, ?_, ?_⟩
    · rw [List.mapM_cons, hentry, hentries]
      rfl
    · rw [List.map_cons, hmap, hid']
    · refine List.forall_mem_cons.mpr ⟨?_, hall⟩
      rw [hid']
      exact ⟨hreachable, object, hobject, hretention⟩

/-- A snapshot succeeds exactly when no reachable object refers to a missing one. It has an
entry for every object of the zone, which says whether the object is reachable. -/
theorem snapshotZoneLifecycle_cases (zone : ZoneId) (roots : GcRoots) (objects : ObjectMap)
    (now : UInt64) :
    (∃ snapshot, snapshotZoneLifecycle zone roots objects now = .ok snapshot ∧
        NoDanglingRefs zone roots objects ∧
        snapshot.objects.map ObjectLifecycleSnapshot.objectId = sortIds (objects.zoneIds zone) ∧
        ∀ entry ∈ snapshot.objects,
          (entry.reachableFromRoots = true ↔ Reachable zone roots objects entry.objectId) ∧
            ∃ object, InZone zone objects entry.objectId object ∧
              entry.retention = object.storage.retention) ∨
      ∃ e, snapshotZoneLifecycle zone roots objects now = .error e ∧
        ¬ NoDanglingRefs zone roots objects := by
  have hsearches := searches_expandLifecycle zone roots objects
  obtain ⟨hnodes, hsteps⟩ := hsearches.markSteps_enough
  rcases mark_cases hnodes hsteps with ⟨marks, hmark, hvisited, -, -, hok⟩ |
    ⟨id, e, htouched, he, hmark⟩
  · have hdangling : NoDanglingRefs zone roots objects := by
      refine noDanglingRefs_iff.mpr fun id htouched => ?_
      by_contra hmissing
      exact hok id htouched _
        (expandLifecycle_eq_error.mpr ⟨ExtTreeMap.getElem?_eq_none hmissing, rfl⟩)
    have hmarks : lifecycleSearch zone roots objects = .ok marks := hmark
    have hids : ∀ id ∈ sortIds (objects.zoneIds zone), id ∈ objects := fun _ => mem_of_mem_zoneIds
    obtain ⟨entries, hentries, hmap, hall⟩ := exists_lifecycleEntries roots now marks.visited hids
    obtain ⟨snapshot, hsnapshot, hobjects⟩ : ∃ snapshot,
        snapshotZoneLifecycle zone roots objects now = .ok snapshot ∧
          snapshot.objects = entries := by
      simp only [snapshotZoneLifecycle, hmarks, hentries, bind, Except.bind]
      exact ⟨_, rfl, rfl⟩
    subst hobjects
    refine .inl ⟨snapshot, hsnapshot, hdangling, hmap, fun entry hentry => ?_⟩
    have hin : ∃ object, InZone zone objects entry.objectId object := by
      refine mem_sortIds_zoneIds.mp ?_
      rw [← hmap]
      exact List.mem_map_of_mem hentry
    obtain ⟨hreachable, object, hobject, hretention⟩ := hall entry hentry
    rw [hvisited] at hreachable
    refine ⟨hreachable.trans ((and_iff_left hin).symm.trans hsearches.reachable_iff.symm), object, ?_, hretention⟩
    obtain ⟨object', hobject'⟩ := hin
    have hsame := hobject'.1
    cases hobject.symm.trans hsame
    exact hobject'
  · refine .inr ⟨e, ?_, fun hdangling => ?_⟩
    · rw [snapshotZoneLifecycle, show lifecycleSearch zone roots objects = .error e from hmark]
      rfl
    · have hmem := noDanglingRefs_iff.mp hdangling id htouched
      rw [ExtTreeMap.mem_iff_isSome_getElem?, (expandLifecycle_eq_error.mp he).1] at hmem
      cases hmem

variable (config zone roots objects now) in
/-- A snapshot succeeds and agrees with a plan: the objects are the same, an object is reported
reachable when the plan counts it so, and it may be evicted when it is reported unreachable
and its retention allows it. -/
def LifecycleAgrees (plan : SweepPlan) : Prop :=
  ∃ snapshot, snapshotZoneLifecycle zone roots objects now = .ok snapshot ∧
    snapshot.objects.map ObjectLifecycleSnapshot.objectId =
      plan.transcript.decisions.map GcDecision.objectId ∧
    ∀ entry ∈ snapshot.objects, ∀ decision ∈ plan.transcript.decisions,
      entry.objectId = decision.objectId →
        (entry.reachableFromRoots = true ↔ decision.countsLive = true) ∧
        (decision.action ≠ .keep ↔ entry.reachableFromRoots = false ∧
          entry.retention.allowsCollection config now = true)

/-- Whenever planning succeeds, the snapshot succeeds and agrees with the plan exactly when no
reachable object refers to a missing one. -/
theorem lifecycleAgrees_iff (h : collectInternal config zone roots objects now = .ok plan) :
    LifecycleAgrees config zone roots objects now plan ↔ NoDanglingRefs zone roots objects := by
  have hfits := planFits_of_collectInternal h
  rcases snapshotZoneLifecycle_cases zone roots objects now with
    ⟨snapshot, hsnapshot, hdangling, hmap, hentries⟩ | ⟨e, he, hdangling⟩
  · refine iff_of_true ⟨snapshot, hsnapshot, ?_, ?_⟩ hdangling
    · rw [hmap, hfits.decisions_eq]
    · intro entry hentry decision hdecision hid
      obtain ⟨hreachable, object, hobject, hretention⟩ := hentries entry hentry
      rw [hid] at hreachable hobject
      refine ⟨hreachable.trans (hfits.countsLive_iff decision hdecision).symm, ?_⟩
      rw [ne_eq, hfits.keep_iff decision hdecision, not_not, ← Bool.not_eq_true, hreachable,
        hretention]
      constructor
      · rintro ⟨object', hobject', hunreachable, hallows⟩
        have hsame := hobject'.1
        rw [hobject.1] at hsame
        cases hsame
        exact ⟨hunreachable, hallows⟩
      · rintro ⟨hunreachable, hallows⟩
        exact ⟨object, hobject, hunreachable, hallows⟩
  · refine iff_of_false ?_ hdangling
    rintro ⟨snapshot, hsnapshot, -⟩
    cases he.symm.trans hsnapshot

/-- The checkpoint refers to a missing object: planning succeeds and the snapshot fails. -/
theorem demoObjects_snapshot_fails :
    ∃ plan, collectInternal .default "z:test" demoRoots demoObjects 0 = .ok plan ∧
      ¬ LifecycleAgrees .default "z:test" demoRoots demoObjects 0 plan ∧
      (snapshotZoneLifecycle "z:test" demoRoots demoObjects 0).isOk = false := by
  obtain ⟨plan, hplan, -⟩ := exists_demoPlan
  have hfails : (snapshotZoneLifecycle "z:test" demoRoots demoObjects 0).isOk = false := by
    decide +kernel
  refine ⟨plan, hplan, ?_, hfails⟩
  rintro ⟨snapshot, hsnapshot, -⟩
  rw [hsnapshot] at hfails
  cases hfails

/-- The objects without the missing reference. -/
def demoClosedObjects : ObjectMap := demoObjects.insert (demoId 1) (demoObject 1 [2] .ephemeral)

/-- Without the missing reference the snapshot agrees with the plan. -/
theorem demoClosedObjects_agree :
    ∃ plan, collectInternal .default "z:test" demoRoots demoClosedObjects 0 = .ok plan ∧
      LifecycleAgrees .default "z:test" demoRoots demoClosedObjects 0 plan := by
  have hok : (collectInternal .default "z:test" demoRoots demoClosedObjects 0).isOk = true := by
    decide +kernel
  have hsnapshot : (snapshotZoneLifecycle "z:test" demoRoots demoClosedObjects 0).isOk = true := by
    decide +kernel
  cases hplan : collectInternal .default "z:test" demoRoots demoClosedObjects 0 with
  | error e =>
    rw [hplan] at hok
    cases hok
  | ok plan =>
    refine ⟨plan, rfl, (lifecycleAgrees_iff hplan).mpr ?_⟩
    rcases snapshotZoneLifecycle_cases "z:test" demoRoots demoClosedObjects 0 with
      ⟨snapshot, -, hdangling, -⟩ | ⟨e, he, -⟩
    · exact hdangling
    · rw [he] at hsnapshot
      cases hsnapshot

end Flywheel.Store
