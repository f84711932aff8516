import Flywheel.Data.Marking
import Flywheel.Store.Objects
import Mathlib.Algebra.Order.BigOperators.Group.List

/-!
# Garbage collection

`GarbageCollector` of `fcp-store`. A sweep marks the objects of a zone that can be reached
from the roots, and then decides about every object of the zone in the order of the ids. Of
the objects that are not reached, those whose retention allows it are evicted, up to a number
of evictions for each sweep.
-/

namespace Flywheel.Store

open Flywheel.Core Flywheel.Data List
open Std (ExtTreeMap LawfulEqCmp TransCmp)

/-! ### The collector -/

inductive GcDecisionAction
  | keep
  | evict
  /-- The object could be evicted, but the sweep has evicted enough. -/
  | defer
  deriving DecidableEq

inductive GcReasonCode
  | rootCheckpoint
  | rootPin
  | reachableRef
  | retentionPinned
  | leaseActive
  | leaseExpired
  /-- The lease of the object is active and leases are not enforced. -/
  | leasePolicyCollect
  | unreachableEphemeral
  deriving DecidableEq

structure GcDecision where
  objectId : ObjectId
  retention : RetentionClass
  action : GcDecisionAction
  reasonCode : GcReasonCode
  authoritativeCheckpoint : Option ObjectId
  deriving DecidableEq

structure GcTranscript where
  zoneId : ZoneId
  currentTime : UInt64
  checkpointRoot : Option ObjectId
  rootCount : ℕ
  decisions : List GcDecision

structure GcResult where
  live : ℕ
  evicted : ℕ
  expiredLeases : ℕ
  pinned : ℕ

structure GcRunReport where
  result : GcResult
  transcript : GcTranscript

structure GcConfig where
  maxEvictionsPerRun : ℕ
  enforceLeaseExpiry : Bool

def GcConfig.default : GcConfig := ⟨10000, true⟩

structure GcRoots where
  zoneCheckpoint : Option ObjectId
  pinned : List ObjectId
  nodup_pinned : pinned.Nodup

variable (roots : GcRoots)

def GcRoots.isRoot (id : ObjectId) : Bool :=
  roots.zoneCheckpoint = some id ∨ id ∈ roots.pinned

def GcRoots.rootIter : List ObjectId :=
  roots.pinned ++ roots.zoneCheckpoint.toList

def GcRoots.rootCount : ℕ :=
  roots.pinned.length + if roots.zoneCheckpoint.isSome then 1 else 0

/-- `GcError`, as far as the object store raises it. -/
inductive GcError
  | invalidRoot (id : ObjectId)
  | objectStore (error : ObjectStoreError)

structure SweepCandidate where
  objectId : ObjectId
  expiredLease : Bool

structure SweepPlan where
  liveCount : ℕ
  skippedPinnedCount : ℕ
  candidates : List SweepCandidate
  transcript : GcTranscript

def sortIds (ids : List ObjectId) : List ObjectId :=
  ids.insertionSort fun a b => (objectIdCmp a b).isLE

section Collector

variable (config : GcConfig) (zone : ZoneId) (roots : GcRoots) (objects : ObjectMap)
  (now : UInt64)

variable (id : ObjectId)

/-- What the mark phase does with an object. -/
def expandObject : Except GcError (Option (List ObjectId)) :=
  match objects[id]? with
  | none => if roots.isRoot id then .error (.invalidRoot id) else .ok none
  | some object =>
    if object.header.zoneId ≠ zone then
      if roots.isRoot id then .error (.invalidRoot id) else .ok none
    else .ok (some object.header.refs)

/-- Steps that are enough for every search through the objects. -/
def markSteps (queue : List ObjectId) : ℕ :=
  queue.length + (objects.toList.map fun entry => entry.2.header.refs.length).sum

def markPhase : Except GcError (Marks ObjectId) :=
  mark (expandObject zone roots objects) (markSteps objects roots.rootIter) roots.rootIter

structure Sweep where
  skippedPinnedCount : ℕ
  candidates : List SweepCandidate
  decisions : List GcDecision

/-- Evict an object unless the sweep has evicted enough. -/
def Sweep.collect (s : Sweep) (candidate : SweepCandidate) : GcDecisionAction × Sweep :=
  if s.candidates.length < config.maxEvictionsPerRun then
    (.evict, { s with candidates := s.candidates ++ [candidate] })
  else (.defer, s)

/-- The decision about an object that is not reachable. -/
def Sweep.decideUnreachable (s : Sweep) (id : ObjectId) :
    RetentionClass → (GcDecisionAction × Sweep) × GcReasonCode
  | .pinned =>
    ((.keep, { s with skippedPinnedCount := s.skippedPinnedCount + 1 }), .retentionPinned)
  | .lease expiresAt =>
    let expiredLease : Bool := expiresAt ≤ now
    let reasonCode : GcReasonCode :=
      if expiredLease then .leaseExpired
      else if config.enforceLeaseExpiry then .leaseActive
      else .leasePolicyCollect
    if config.enforceLeaseExpiry && !expiredLease then ((.keep, s), reasonCode)
    else (s.collect config ⟨id, expiredLease⟩, reasonCode)
  | .ephemeral => (s.collect config ⟨id, false⟩, .unreachableEphemeral)

def sweepObject (live : List ObjectId) (s : Sweep) (id : ObjectId) : Except GcError Sweep :=
  match objects[id]? with
  | none => .error (.objectStore (.notFound id))
  | some object =>
    let retention := object.storage.retention
    let ((action, s), reasonCode) :=
      if roots.zoneCheckpoint = some id then ((.keep, s), .rootCheckpoint)
      else if id ∈ roots.pinned then ((.keep, s), .rootPin)
      else if id ∈ live then ((.keep, s), .reachableRef)
      else s.decideUnreachable config now id retention
    .ok { s with
      decisions := s.decisions ++ [⟨id, retention, action, reasonCode, roots.zoneCheckpoint⟩] }

def collectInternal : Except GcError SweepPlan :=
  match markPhase zone roots objects with
  | .error e => .error e
  | .ok marks =>
    match (sortIds (objects.zoneIds zone)).foldlM
        (sweepObject config roots objects now marks.live) ⟨0, [], []⟩ with
    | .error e => .error e
    | .ok s =>
      .ok ⟨marks.live.length, s.skippedPinnedCount, s.candidates,
        ⟨zone, now, roots.zoneCheckpoint, roots.rootCount, s.decisions⟩⟩

/-- `execute_plan`. An object that is missing already counts as evicted. -/
def executePlan (plan : SweepPlan) : ObjectMap × GcRunReport :=
  (plan.candidates.foldl (fun objects candidate => objects.erase candidate.objectId) objects,
    ⟨⟨plan.liveCount, plan.candidates.length,
      (plan.candidates.filter SweepCandidate.expiredLease).length, plan.skippedPinnedCount⟩,
      plan.transcript⟩)

def collectWithTranscript : Except GcError (ObjectMap × GcRunReport) :=
  match collectInternal config zone roots objects now with
  | .error e => .error e
  | .ok plan => .ok (executePlan objects plan)

def wouldCollect : Bool :=
  match collectInternal config zone roots objects now with
  | .error _ => false
  | .ok plan =>
    match plan.transcript.decisions.find? (fun decision => decision.objectId = id) with
    | none => false
    | some decision => decision.action = .evict

/-- The objects after a number of sweeps. -/
def repeatSweep : ℕ → ObjectMap → Except GcError ObjectMap
  | 0, objects => .ok objects
  | n + 1, objects =>
    match collectWithTranscript config zone roots objects now with
    | .error e => .error e
    | .ok (objects, _) => repeatSweep n objects

/-! ### What a sweep is for -/

def InZone (object : StoredObject) : Prop :=
  objects[id]? = some object ∧ object.header.zoneId = zone

/-- The objects of the zone that can be reached from the roots through objects of the zone. -/
inductive Reachable : ObjectId → Prop
  | root {id : ObjectId} {object : StoredObject} (hroot : roots.isRoot id = true)
      (hobject : InZone zone objects id object) : Reachable id
  | ref {id source : ObjectId} {object referrer : StoredObject} (hsource : Reachable source)
      (hreferrer : objects[source]? = some referrer) (href : id ∈ referrer.header.refs)
      (hobject : InZone zone objects id object) : Reachable id

/-- Whether an object that is not reachable may be collected. -/
def RetentionClass.allowsCollection : RetentionClass → Bool
  | .pinned => false
  | .lease expiresAt => expiresAt ≤ now ∨ ¬ config.enforceLeaseExpiry
  | .ephemeral => true

/-- An object that may be evicted. -/
def Eligible : Prop :=
  ∃ object, InZone zone objects id object ∧ ¬ Reachable zone roots objects id ∧
    object.storage.retention.allowsCollection config now = true

open Classical in
/-- The objects that may be evicted, in the order of their ids. -/
noncomputable def eligibleIds : List ObjectId :=
  (sortIds (objects.zoneIds zone)).filter fun id => Eligible config zone roots objects now id

/-- Whether the sweep would evict an object, given the marked ones. -/
def collects (live : List ObjectId) (id : ObjectId) : Bool :=
  match objects[id]? with
  | none => false
  | some object =>
    !roots.isRoot id && decide (id ∉ live) && object.storage.retention.allowsCollection config now

/-- Whether a decision counts the object as reachable. -/
def GcDecision.countsLive (decision : GcDecision) : Bool :=
  decision.reasonCode = .rootCheckpoint ∨ decision.reasonCode = .rootPin ∨
    decision.reasonCode = .reachableRef

end Collector

section Marked

variable {zone : ZoneId} {roots : GcRoots} {objects : ObjectMap} {id : ObjectId}

theorem GcRoots.mem_rootIter (roots : GcRoots) : id ∈ roots.rootIter ↔ roots.isRoot id = true := by
  rw [rootIter, mem_append, Option.mem_toList, isRoot, decide_eq_true_eq, or_comm]

/-- The references of the zone's objects are followed. -/
theorem expandObject_eq_some {refs : List ObjectId} :
    expandObject zone roots objects id = .ok (some refs) ↔
      ∃ object, InZone zone objects id object ∧ object.header.refs = refs := by
  rw [expandObject]
  cases hget : objects[id]? with
  | none =>
    simp only [InZone, hget]
    split_ifs <;> simp
  | some object =>
    simp only [InZone]
    split_ifs with hzone hroot <;> simp_all

/-- Only a root outside of the zone fails. -/
theorem expandObject_eq_error {e : GcError} :
    expandObject zone roots objects id = .error e ↔
      roots.isRoot id = true ∧ (¬ ∃ object, InZone zone objects id object) ∧ e = .invalidRoot id := by
  rw [expandObject]
  cases hget : objects[id]? with
  | none =>
    simp only [InZone, hget]
    split_ifs with hroot <;> simp [hroot, eq_comm]
  | some object =>
    simp only [InZone, hget]
    split_ifs with hzone hroot
    · simpa [hzone, hroot] using eq_comm
    · simp [hroot]
    · simp_all

theorem followed_expandObject :
    Followed (expandObject zone roots objects) id ↔ ∃ object, InZone zone objects id object := by
  constructor
  · rintro ⟨refs, h⟩
    obtain ⟨object, hobject, -⟩ := expandObject_eq_some.mp h
    exact ⟨object, hobject⟩
  · rintro ⟨object, hobject⟩
    exact ⟨object.header.refs, expandObject_eq_some.mpr ⟨object, hobject, rfl⟩⟩

variable (zone roots objects) in
/-- A search that starts from the roots in the zone and follows the references of its objects, in
some order. -/
structure Searches {ε : Type} (expand : ObjectId → Except ε (Option (List ObjectId)))
    (start : List ObjectId) (order : List ObjectId → List ObjectId) : Prop where
  mem_start : ∀ {id object}, InZone zone objects id object →
    (id ∈ start ↔ roots.isRoot id = true)
  expand_iff : ∀ {id refs}, expand id = .ok (some refs) ↔
    ∃ object, InZone zone objects id object ∧ order object.header.refs = refs
  order_perm : ∀ refs, (order refs).Perm refs

section

variable {ε : Type} {expand : ObjectId → Except ε (Option (List ObjectId))} {start : List ObjectId}
  {order : List ObjectId → List ObjectId} (h : Searches zone roots objects expand start order)
include h

/-- The reachable objects are the ones of the zone that the search touches. -/
theorem Searches.reachable_iff :
    Reachable zone roots objects id ↔
      Touched expand start id ∧ ∃ object, InZone zone objects id object := by
  constructor
  · intro hreach
    induction hreach with
    | root hroot hobject => exact ⟨.root ((h.mem_start hobject).mpr hroot), _, hobject⟩
    | ref hsource hreferrer href hobject ih =>
      obtain ⟨htouched, object, hin⟩ := ih
      refine ⟨.next htouched (h.expand_iff.mpr ⟨object, hin, rfl⟩) ?_, _, hobject⟩
      rw [hin.1] at hreferrer
      cases hreferrer
      exact (h.order_perm _).mem_iff.mpr href
  · rintro ⟨htouched, object, hobject⟩
    induction htouched generalizing object with
    | root hroot => exact .root ((h.mem_start hobject).mp hroot) hobject
    | next hy hnext hx ih =>
      obtain ⟨referrer, hreferrer, rfl⟩ := h.expand_iff.mp hnext
      exact .ref (ih referrer hreferrer) hreferrer.1 ((h.order_perm _).mem_iff.mp hx) hobject

/-- A search through the objects of a store has enough steps. -/
theorem Searches.markSteps_enough :
    (∀ id, Followed expand id → id ∈ objects.toList.map Prod.fst) ∧
      start.length + ((objects.toList.map Prod.fst).map (edgeCount expand)).sum ≤
        markSteps objects start := by
  constructor
  · rintro id ⟨refs, hnext⟩
    obtain ⟨object, hobject, -⟩ := h.expand_iff.mp hnext
    exact mem_map_of_mem (ExtTreeMap.mem_toList_iff_getElem?_eq_some.mpr hobject.1)
  · rw [map_map]
    refine Nat.add_le_add_left (sum_le_sum fun entry hentry => ?_) _
    have hget := ExtTreeMap.mem_toList_iff_getElem?_eq_some.mp hentry
    simp only [Function.comp_apply, edgeCount]
    split
    · rename_i refs hnext
      obtain ⟨object', hobject', rfl⟩ := h.expand_iff.mp hnext
      rw [hobject'.1] at hget
      cases hget
      exact Nat.le_of_eq (h.order_perm _).length_eq
    · exact Nat.zero_le _

end

variable (zone roots objects) in
theorem searches_expandObject : Searches zone roots objects (expandObject zone roots objects)
    roots.rootIter fun refs => refs :=
  ⟨fun _ => roots.mem_rootIter, expandObject_eq_some, fun _ => .rfl⟩

end Marked

section Swept

variable {config : GcConfig} {roots : GcRoots} {objects : ObjectMap} {now : UInt64}
  {live : List ObjectId} {id : ObjectId} {object : StoredObject}

variable (config roots objects now live) in
/-- A decision that fits the marked objects. -/
structure DecisionFits (decision : GcDecision) : Prop where
  /-- The object counts as reachable when it is a root or marked. -/
  countsLive_iff : decision.countsLive = true ↔
    roots.isRoot decision.objectId = true ∨ decision.objectId ∈ live
  keep_iff : decision.action = .keep ↔
    collects config roots objects now live decision.objectId = false

variable (config roots objects now live) in
/-- What one object adds to a sweep. -/
structure Swept (s s' : Sweep) (id : ObjectId) (decision : GcDecision) : Prop where
  objectId_eq : decision.objectId = id
  fits : DecisionFits config roots objects now live decision
  /-- The object is evicted when the sweep would evict it and has not evicted enough. -/
  evict_iff : decision.action = .evict ↔ collects config roots objects now live id = true ∧
    s.candidates.length < config.maxEvictionsPerRun
  decisions_eq : s'.decisions = s.decisions ++ [decision]
  candidates_eq : s'.candidates.map SweepCandidate.objectId =
    s.candidates.map SweepCandidate.objectId ++ if decision.action = .evict then [id] else []

variable (config roots objects now live) in
/-- An action with its reason that fits the marked objects, and the sweep after it. -/
structure Decided (s : Sweep) (id : ObjectId)
    (outcome : (GcDecisionAction × Sweep) × GcReasonCode) : Prop where
  reason_iff : outcome.2 = .rootCheckpoint ∨ outcome.2 = .rootPin ∨ outcome.2 = .reachableRef ↔
    roots.isRoot id = true ∨ id ∈ live
  keep_iff : outcome.1.1 = .keep ↔ collects config roots objects now live id = false
  evict_iff : outcome.1.1 = .evict ↔ collects config roots objects now live id = true ∧
    s.candidates.length < config.maxEvictionsPerRun
  decisions_eq : outcome.1.2.decisions = s.decisions
  candidates_eq : outcome.1.2.candidates.map SweepCandidate.objectId =
    s.candidates.map SweepCandidate.objectId ++ if outcome.1.1 = .evict then [id] else []

section

variable {s : Sweep} {reason : GcReasonCode}
  (hreason : reason = .rootCheckpoint ∨ reason = .rootPin ∨ reason = .reachableRef ↔
    roots.isRoot id = true ∨ id ∈ live)
include hreason

theorem Decided.keep (count : ℕ) (h : collects config roots objects now live id = false) :
    Decided config roots objects now live s id
      ((.keep, { s with skippedPinnedCount := count }), reason) :=
  ⟨hreason, by simp [h], by simp [h], rfl, by simp⟩

theorem Decided.collect (expired : Bool) (h : collects config roots objects now live id = true) :
    Decided config roots objects now live s id (s.collect config ⟨id, expired⟩, reason) := by
  rw [Sweep.collect]
  split_ifs with hlen
  · exact ⟨hreason, by simp [h], by simp [h, hlen], rfl, by simp⟩
  · exact ⟨hreason, by simp [h], by simp [hlen], rfl, by simp⟩

end

variable (config roots now live) in
theorem exists_sweepObject (hobject : objects[id]? = some object) (s : Sweep) :
    ∃ s' decision, sweepObject config roots objects now live s id = .ok s' ∧
      Swept config roots objects now live s s' id decision := by
  rw [sweepObject, hobject]
  dsimp only
  generalize houtcome : ite (roots.zoneCheckpoint = some id) _ _ = outcome
  obtain ⟨⟨action, s'⟩, reason⟩ := outcome
  have hdecided : Decided config roots objects now live s id ((action, s'), reason) := by
    rw [← houtcome]
    split_ifs with hcheckpoint hpinned hlive
    · have hroot : roots.isRoot id = true := decide_eq_true (.inl hcheckpoint)
      exact .keep (by simp [hroot]) _ (by simp [collects, hobject, hroot])
    · have hroot : roots.isRoot id = true := decide_eq_true (.inr hpinned)
      exact .keep (by simp [hroot]) _ (by simp [collects, hobject, hroot])
    · exact .keep (by simp [hlive]) _ (by simp [collects, hobject, hlive])
    · have hroot : roots.isRoot id = false := by simp [GcRoots.isRoot, hcheckpoint, hpinned]
      have hcollects : collects config roots objects now live id =
          object.storage.retention.allowsCollection config now := by
        simp [collects, hobject, hroot, hlive]
      cases hretention : object.storage.retention with
      | pinned =>
        exact .keep (by simp [hroot, hlive]) _ (by rw [hcollects, hretention]; rfl)
      | ephemeral =>
        exact .collect (by simp [hroot, hlive]) false (by rw [hcollects, hretention]; rfl)
      | lease expiresAt =>
        rw [hretention, RetentionClass.allowsCollection] at hcollects
        rw [Sweep.decideUnreachable]
        by_cases hexpired : expiresAt ≤ now
        · simp only [hexpired, decide_true, Bool.not_true, Bool.and_false]
          exact .collect (by simp [hroot, hlive]) true (by simp [hcollects, hexpired])
        · cases henforce : config.enforceLeaseExpiry with
          | true =>
            simp only [hexpired]
            exact .keep (by simp [hroot, hlive]) _ (by simp [hcollects, hexpired, henforce])
          | false =>
            simp only [hexpired]
            exact .collect (by simp [hroot, hlive]) false (by simp [hcollects, henforce])
  refine ⟨_, ⟨id, object.storage.retention, action, reason, roots.zoneCheckpoint⟩, rfl, rfl,
    ⟨?_, hdecided.keep_iff⟩, hdecided.evict_iff, ?_, hdecided.candidates_eq⟩
  · simpa only [GcDecision.countsLive, decide_eq_true_eq] using hdecided.reason_iff
  · rw [← hdecided.decisions_eq]

variable (config roots now live) in
/-- The sweep loop: every object gets a decision, and the first objects that may be collected
are evicted. -/
theorem exists_sweep {ids : List ObjectId} (hids : ∀ id ∈ ids, id ∈ objects) (s : Sweep) :
    ∃ s' decisions, ids.foldlM (sweepObject config roots objects now live) s = .ok s' ∧
      s'.decisions = s.decisions ++ decisions ∧ decisions.map GcDecision.objectId = ids ∧
      (∀ decision ∈ decisions, DecisionFits config roots objects now live decision) ∧
      (decisions.filter (·.action = .evict)).map GcDecision.objectId =
        (ids.filter (collects config roots objects now live)).take
          (config.maxEvictionsPerRun - s.candidates.length) ∧
      s'.candidates.map SweepCandidate.objectId = s.candidates.map SweepCandidate.objectId ++
        (decisions.filter (·.action = .evict)).map GcDecision.objectId := by
  induction ids generalizing s with
  | nil => exact ⟨s, [], rfl, by simp⟩
  | cons id ids ih =>
    obtain ⟨hid, hids⟩ := forall_mem_cons.mp hids
    obtain ⟨s₁, decision, hstep, hswept⟩ :=
      exists_sweepObject config roots now live (ExtTreeMap.getElem?_eq_some_getElem hid) s
    obtain ⟨s', decisions, hrest, hdecisions, hmap, hfits, hevicted, hcandidates⟩ := ih hids s₁
    have hlength := congrArg length hswept.candidates_eq
    simp only [length_append, length_map] at hlength
    refine ⟨s', decision :: decisions, ?_, ?_, ?_, ?_, ?_, ?_⟩
    · rw [foldlM_cons, hstep]
      exact hrest
    · rw [hdecisions, hswept.decisions_eq, append_assoc, singleton_append]
    · rw [map_cons, hmap, hswept.objectId_eq]
    · exact forall_mem_cons.mpr ⟨hswept.fits, hfits⟩
    · by_cases hevict : decision.action = .evict
      · obtain ⟨hcollects, hlen⟩ := hswept.evict_iff.mp hevict
        rw [if_pos hevict, length_singleton] at hlength
        have hroom : config.maxEvictionsPerRun - s.candidates.length =
            config.maxEvictionsPerRun - s₁.candidates.length + 1 := by omega
        simp [hevict, hevicted, hcollects, hroom, hswept.objectId_eq]
      · rw [if_neg hevict] at hlength
        rw [filter_cons_of_neg (by simpa using hevict), hevicted, hlength]
        cases hcollects : collects config roots objects now live id with
        | false => simp [hcollects]
        | true =>
          have hfull : config.maxEvictionsPerRun - s.candidates.length = 0 := by
            have hlen : ¬ s.candidates.length < config.maxEvictionsPerRun := fun hlt =>
              hevict (hswept.evict_iff.mpr ⟨hcollects, hlt⟩)
            omega
          simp [hfull]
    · rw [hcandidates, hswept.candidates_eq]
      split_ifs with hevict <;> simp [hevict, hswept.objectId_eq]

end Swept

/-! ### A small zone -/

def demoId (n : UInt8) : ObjectId := arrayOf 32 (replicate 32 n)

def demoObject (n : UInt8) (refs : List UInt8) (retention : RetentionClass) : StoredObject where
  objectId := demoId n
  header := ⟨⟨"fcp.test", "Test", "1.0.0"⟩, "z:test", 1000000, refs.map demoId, [], []⟩
  body := []
  storage := ⟨retention⟩

/-- A checkpoint with a child and a missing one, and an object that is kept with one that is
not. -/
def demoObjects : ObjectMap :=
  [demoObject 1 [2, 9] .ephemeral, demoObject 2 [1] .ephemeral, demoObject 3 [] .ephemeral,
    demoObject 4 [3] .pinned].foldl (fun m object => m.insert object.objectId object) ∅

def demoRoots : GcRoots := ⟨some (demoId 1), [], nodup_nil⟩

theorem exists_demoPlan :
    ∃ plan, collectInternal .default "z:test" demoRoots demoObjects 0 = .ok plan ∧
      plan.candidates.map SweepCandidate.objectId = [demoId 3] := by
  have hids : (collectInternal .default "z:test" demoRoots demoObjects 0).toOption.map
      (fun plan => plan.candidates.map SweepCandidate.objectId) = some [demoId 3] := by
    decide +kernel
  cases hplan : collectInternal .default "z:test" demoRoots demoObjects 0 with
  | error e =>
    rw [hplan] at hids
    cases hids
  | ok plan =>
    rw [hplan] at hids
    exact ⟨plan, rfl, Option.some.inj hids⟩

/-! ### Plans -/

section Plans

variable {config : GcConfig} {zone : ZoneId} {roots : GcRoots} {objects objects' : ObjectMap}
  {now : UInt64} {plan : SweepPlan} {id : ObjectId}

theorem mem_sortIds {ids : List ObjectId} : id ∈ sortIds ids ↔ id ∈ ids :=
  (perm_insertionSort _ ids).mem_iff

theorem nodup_sortIds_zoneIds (objects : ObjectMap) (zone : ZoneId) :
    (sortIds (objects.zoneIds zone)).Nodup :=
  (perm_insertionSort _ _).nodup_iff.mpr (ObjectMap.nodup_zoneIds objects zone)

theorem mem_sortIds_zoneIds :
    id ∈ sortIds (objects.zoneIds zone) ↔ ∃ object, InZone zone objects id object := by
  rw [mem_sortIds, ObjectMap.mem_zoneIds]
  rfl

theorem mem_of_mem_zoneIds (h : id ∈ sortIds (objects.zoneIds zone)) : id ∈ objects := by
  obtain ⟨object, hobject⟩ := mem_sortIds_zoneIds.mp h
  rw [ExtTreeMap.mem_iff_isSome_getElem?, hobject.1]
  rfl

theorem mem_eligibleIds :
    id ∈ eligibleIds config zone roots objects now ↔ Eligible config zone roots objects now id := by
  classical
  rw [eligibleIds, mem_filter, mem_sortIds_zoneIds, decide_eq_true_eq]
  exact ⟨And.right, fun h => ⟨h.imp fun _ hobject => hobject.1, h⟩⟩

theorem nodup_eligibleIds (config : GcConfig) (zone : ZoneId) (roots : GcRoots)
    (objects : ObjectMap) (now : UInt64) : (eligibleIds config zone roots objects now).Nodup :=
  (nodup_sortIds_zoneIds objects zone).filter _

variable (config zone roots objects now) in
/-- A plan that says what a sweep is for. -/
structure PlanFits (plan : SweepPlan) : Prop where
  roots_inZone : ∀ id, roots.isRoot id = true → ∃ object, InZone zone objects id object
  candidates_eq : plan.candidates.map SweepCandidate.objectId =
    (eligibleIds config zone roots objects now).take config.maxEvictionsPerRun
  decisions_eq : plan.transcript.decisions.map GcDecision.objectId =
    sortIds (objects.zoneIds zone)
  /-- The objects with the decision to evict them are the evicted ones. -/
  evicted_eq : (plan.transcript.decisions.filter (·.action = .evict)).map GcDecision.objectId =
    plan.candidates.map SweepCandidate.objectId
  countsLive_iff : ∀ decision ∈ plan.transcript.decisions,
    decision.countsLive = true ↔ Reachable zone roots objects decision.objectId
  keep_iff : ∀ decision ∈ plan.transcript.decisions,
    decision.action = .keep ↔ ¬ Eligible config zone roots objects now decision.objectId

theorem reachable_of_isRoot
    (hroots : ∀ id, roots.isRoot id = true → ∃ object, InZone zone objects id object)
    (h : roots.isRoot id = true) : Reachable zone roots objects id := by
  obtain ⟨object, hobject⟩ := hroots id h
  exact .root h hobject

/-- With the reachable objects marked, the sweep would evict the objects that may be. -/
theorem collects_iff_eligible {live : List ObjectId}
    (hlive : ∀ id, id ∈ live ↔ Reachable zone roots objects id)
    (hroots : ∀ id, roots.isRoot id = true → ∃ object, InZone zone objects id object)
    (hid : ∃ object, InZone zone objects id object) :
    collects config roots objects now live id = true ↔ Eligible config zone roots objects now id := by
  obtain ⟨object, hobject⟩ := hid
  have hnot : ¬ Reachable zone roots objects id → roots.isRoot id = false := by
    intro hunreachable
    rw [← Bool.not_eq_true]
    exact fun hroot => hunreachable (reachable_of_isRoot hroots hroot)
  rw [collects, hobject.1]
  simp only [Bool.and_eq_true, Bool.not_eq_true', decide_eq_true_eq, hlive]
  constructor
  · rintro ⟨⟨-, hunreachable⟩, hallows⟩
    exact ⟨object, hobject, hunreachable, hallows⟩
  · rintro ⟨object', hobject', hunreachable, hallows⟩
    have hsame := hobject'.1
    rw [hobject.1] at hsame
    cases hsame
    exact ⟨⟨hnot hunreachable, hunreachable⟩, hallows⟩

/-- Planning succeeds when all roots are objects of the zone, and the plan says what a sweep is
for. -/
theorem collectInternal_cases (config : GcConfig) (zone : ZoneId) (roots : GcRoots)
    (objects : ObjectMap) (now : UInt64) :
    (∃ plan, collectInternal config zone roots objects now = .ok plan ∧
        PlanFits config zone roots objects now plan) ∨
      ∃ id, roots.isRoot id = true ∧ (¬ ∃ object, InZone zone objects id object) ∧
        collectInternal config zone roots objects now = .error (.invalidRoot id) := by
  have hsearches := searches_expandObject zone roots objects
  obtain ⟨hnodes, hsteps⟩ := hsearches.markSteps_enough
  rcases mark_cases hnodes hsteps with ⟨marks, hmark, -, hfollowed, -, hok⟩ | ⟨id, e, -, he, hmark⟩
  · have hmarks : markPhase zone roots objects = .ok marks := hmark
    have hlive : ∀ id, id ∈ marks.live ↔ Reachable zone roots objects id := fun id => by
      rw [hfollowed, followed_expandObject, hsearches.reachable_iff]
    have hroots : ∀ id, roots.isRoot id = true → ∃ object, InZone zone objects id object := by
      intro id hroot
      by_contra hout
      exact hok id (.root (roots.mem_rootIter.mpr hroot)) _
        (expandObject_eq_error.mpr ⟨hroot, hout, rfl⟩)
    obtain ⟨s, decisions, hsweep, hdecisions, hmap, hfits, hevicted, hcandidates⟩ :=
      exists_sweep config roots now marks.live (fun _ => mem_of_mem_zoneIds) ⟨0, [], []⟩
    rw [nil_append] at hdecisions
    rw [map_nil, nil_append] at hcandidates
    have hfilter : (sortIds (objects.zoneIds zone)).filter
        (collects config roots objects now marks.live) =
          eligibleIds config zone roots objects now := by
      classical
      refine filter_congr fun id hid => ?_
      rw [Bool.eq_iff_iff, decide_eq_true_eq]
      exact collects_iff_eligible hlive hroots (mem_sortIds_zoneIds.mp hid)
    have hinZone : ∀ decision ∈ decisions,
        ∃ object, InZone zone objects decision.objectId object := by
      intro decision hdecision
      refine mem_sortIds_zoneIds.mp ?_
      rw [← hmap]
      exact mem_map_of_mem hdecision
    have hplan : collectInternal config zone roots objects now =
        .ok ⟨marks.live.length, s.skippedPinnedCount, s.candidates,
          ⟨zone, now, roots.zoneCheckpoint, roots.rootCount, s.decisions⟩⟩ := by
      simp only [collectInternal, hmarks, hsweep]
    refine .inl ⟨_, hplan, hroots, ?_, ?_, ?_, ?_, ?_⟩
    · rw [hcandidates, hevicted, hfilter, length_nil, Nat.sub_zero]
    · rw [hdecisions, hmap]
    · rw [hdecisions, hcandidates]
    · intro decision hdecision
      rw [hdecisions] at hdecision
      rw [(hfits decision hdecision).countsLive_iff, hlive]
      exact or_iff_right_of_imp (reachable_of_isRoot hroots)
    · intro decision hdecision
      rw [hdecisions] at hdecision
      rw [(hfits decision hdecision).keep_iff, ← Bool.not_eq_true]
      exact not_congr (collects_iff_eligible hlive hroots (hinZone decision hdecision))
  · obtain ⟨hroot, hout, rfl⟩ := expandObject_eq_error.mp he
    have hmarks : markPhase zone roots objects = .error (.invalidRoot id) := hmark
    exact .inr ⟨id, hroot, hout, by simp only [collectInternal, hmarks]⟩

/-- A plan says what a sweep is for. -/
theorem planFits_of_collectInternal (h : collectInternal config zone roots objects now = .ok plan) :
    PlanFits config zone roots objects now plan := by
  rcases collectInternal_cases config zone roots objects now with ⟨plan', hplan, hfits⟩ |
    ⟨id, -, -, hplan⟩ <;> cases h.symm.trans hplan
  exact hfits

/-! ### Sweeps -/

/-- Evicted objects are gone, and the others are as before. -/
theorem getElem?_executePlan (objects : ObjectMap) (plan : SweepPlan) (id : ObjectId) :
    (executePlan objects plan).1[id]? =
      if id ∈ plan.candidates.map SweepCandidate.objectId then none else objects[id]? := by
  rw [executePlan]
  generalize plan.candidates = candidates
  induction candidates generalizing objects with
  | nil => rw [foldl_nil, map_nil, if_neg not_mem_nil]
  | cons candidate candidates ih =>
    rw [foldl_cons, ih, getElem?_erase_eq]
    by_cases hid : candidate.objectId = id
    · simp [hid]
    · simp [hid, Ne.symm hid]

/-- The prediction is exact: an object would be collected if a sweep succeeds and takes it away. -/
theorem wouldCollect_iff :
    wouldCollect config zone roots objects now id = true ↔
      ∃ run, collectWithTranscript config zone roots objects now = .ok run ∧
        id ∈ objects ∧ id ∉ run.1 := by
  rw [wouldCollect, collectWithTranscript]
  cases hplan : collectInternal config zone roots objects now with
  | error e => simp
  | ok plan =>
    have hfits := planFits_of_collectInternal hplan
    have hgone : id ∈ objects ∧ id ∉ (executePlan objects plan).1 ↔
        ∃ d ∈ plan.transcript.decisions, d.action = .evict ∧ d.objectId = id := by
      trans id ∈ plan.candidates.map SweepCandidate.objectId
      · rw [ExtTreeMap.mem_iff_isSome_getElem?, ExtTreeMap.mem_iff_isSome_getElem?,
          getElem?_executePlan]
        refine ⟨fun h => by_contra fun hid => h.2 (by rw [if_neg hid]; exact h.1), fun hid => ?_⟩
        rw [if_pos hid]
        rw [hfits.candidates_eq] at hid
        obtain ⟨object, hobject, -⟩ := mem_eligibleIds.mp (mem_of_mem_take hid)
        simp [hobject.1]
      · rw [← hfits.evicted_eq]
        simp [and_assoc]
    simp only [Except.ok.injEq, exists_eq_left', hgone]
    cases hfind : plan.transcript.decisions.find? (fun d => d.objectId = id) with
    | none => simpa using fun d hd _ => by simpa using find?_eq_none.mp hfind d hd
    | some d =>
      have hd := mem_of_find?_eq_some hfind
      have hid : d.objectId = id := by simpa using find?_some hfind
      -- An object has one decision, so the one that is found is the one to evict it.
      have hnodup := nodup_sortIds_zoneIds objects zone
      rw [← hfits.decisions_eq] at hnodup
      refine ⟨fun h => ⟨d, hd, of_decide_eq_true h, hid⟩, ?_⟩
      rintro ⟨d', hd', h, hid'⟩
      rw [← inj_on_of_nodup_map hnodup hd' hd (hid'.trans hid.symm)]
      exact decide_eq_true h

/-- What is reachable stays so where the reachable objects are found as before. -/
theorem Reachable.mono (hfound : ∀ {id object}, Reachable zone roots objects id →
      objects[id]? = some object → objects'[id]? = some object)
    (h : Reachable zone roots objects id) : Reachable zone roots objects' id := by
  induction h with
  | root hroot hobject =>
    exact .root hroot ⟨hfound (.root hroot hobject) hobject.1, hobject.2⟩
  | ref hsource hreferrer href hobject ih =>
    exact .ref ih (hfound hsource hreferrer) href
      ⟨hfound (.ref hsource hreferrer href hobject) hobject.1, hobject.2⟩

/-- Some objects were removed, none of which was reachable. -/
structure Removed (zone : ZoneId) (roots : GcRoots) (objects objects' : ObjectMap)
    (removed : List ObjectId) : Prop where
  /-- The removed objects are gone, and the others are as before. -/
  getElem?_eq : ∀ id, objects'[id]? = if id ∈ removed then none else objects[id]?
  not_reachable : ∀ id ∈ removed, ¬ Reachable zone roots objects id

namespace Removed

variable {removed : List ObjectId} {object : StoredObject}

variable (h : Removed zone roots objects objects' removed)
include h

theorem inZone_iff :
    InZone zone objects' id object ↔ id ∉ removed ∧ InZone zone objects id object := by
  rw [InZone, InZone, h.getElem?_eq]
  split_ifs with hid <;> simp [hid]

theorem getElem?_of_reachable (hreach : Reachable zone roots objects id) :
    objects'[id]? = objects[id]? := by
  rw [h.getElem?_eq, if_neg fun hid => h.not_reachable id hid hreach]

theorem reachable_iff : Reachable zone roots objects' id ↔ Reachable zone roots objects id := by
  constructor
  · refine Reachable.mono fun _ hget => ?_
    rw [h.getElem?_eq] at hget
    split_ifs at hget
    exact hget
  · exact Reachable.mono fun hreach hget => (h.getElem?_of_reachable hreach).trans hget

theorem eligible_iff :
    Eligible config zone roots objects' now id ↔
      id ∉ removed ∧ Eligible config zone roots objects now id := by
  simp only [Eligible, h.inZone_iff, h.reachable_iff, and_assoc, exists_and_left]

end Removed

theorem removed_executePlan (h : PlanFits config zone roots objects now plan) :
    Removed zone roots objects (executePlan objects plan).1
      ((eligibleIds config zone roots objects now).take config.maxEvictionsPerRun) where
  getElem?_eq id := by rw [getElem?_executePlan, h.candidates_eq]
  not_reachable id hid := by
    obtain ⟨object, -, hunreachable, -⟩ := mem_eligibleIds.mp (mem_of_mem_take hid)
    exact hunreachable

/-- After a sweep the objects that may be evicted are those that it did not come to. -/
theorem eligibleIds_executePlan_perm (h : PlanFits config zone roots objects now plan) :
    (eligibleIds config zone roots (executePlan objects plan).1 now).Perm
      ((eligibleIds config zone roots objects now).drop config.maxEvictionsPerRun) := by
  have hnodup := nodup_eligibleIds config zone roots objects now
  refine (perm_ext_iff_of_nodup (nodup_eligibleIds ..)
    (hnodup.sublist (drop_sublist _ _))).mpr fun id => ?_
  rw [mem_eligibleIds, (removed_executePlan h).eligible_iff, ← mem_eligibleIds]
  have hsplit := take_append_drop config.maxEvictionsPerRun
    (eligibleIds config zone roots objects now)
  rw [← hsplit] at hnodup
  have hdisjoint := disjoint_of_nodup_append hnodup
  constructor
  · rintro ⟨hid, hmem⟩
    rw [← hsplit] at hmem
    exact (mem_append.mp hmem).resolve_left hid
  · intro hid
    exact ⟨fun htaken => hdisjoint htaken hid, mem_of_mem_drop hid⟩

/-- Enough sweeps evict exactly the objects that may be evicted. -/
theorem exists_repeatSweep {n : ℕ}
    (hroots : ∀ id, roots.isRoot id = true → ∃ object, InZone zone objects id object)
    (hn : (eligibleIds config zone roots objects now).length ≤ n * config.maxEvictionsPerRun) :
    ∃ objects', repeatSweep config zone roots now n objects = .ok objects' ∧
      ∀ id, (Eligible config zone roots objects now id → objects'[id]? = none) ∧
        (¬ Eligible config zone roots objects now id → objects'[id]? = objects[id]?) := by
  induction n generalizing objects with
  | zero =>
    rw [Nat.zero_mul, Nat.le_zero, length_eq_zero_iff] at hn
    refine ⟨objects, rfl, fun id => ⟨fun heligible => ?_, fun _ => rfl⟩⟩
    rw [← mem_eligibleIds, hn] at heligible
    cases heligible
  | succ n ih =>
    rcases collectInternal_cases config zone roots objects now with ⟨plan, hplan, hfits⟩ |
      ⟨id, hroot, hout, -⟩
    · have hremoved := removed_executePlan hfits
      have hroots' : ∀ id, roots.isRoot id = true →
          ∃ object, InZone zone (executePlan objects plan).1 id object := by
        intro id hroot
        obtain ⟨object, hobject⟩ := hroots id hroot
        refine ⟨object, ?_, hobject.2⟩
        rw [hremoved.getElem?_of_reachable (.root hroot hobject), hobject.1]
      have hlength := (eligibleIds_executePlan_perm hfits).length_eq
      rw [length_drop] at hlength
      have hn' : (eligibleIds config zone roots (executePlan objects plan).1 now).length ≤
          n * config.maxEvictionsPerRun := by
        rw [Nat.succ_mul] at hn
        omega
      obtain ⟨objects', hrepeat, hobjects'⟩ := ih hroots' hn'
      refine ⟨objects', ?_, fun id => ?_⟩
      · rw [repeatSweep, collectWithTranscript, hplan]
        exact hrepeat
      · obtain ⟨hgone, hkept⟩ := hobjects' id
        rw [hremoved.eligible_iff] at hgone hkept
        rw [hremoved.getElem?_eq] at hkept
        constructor
        · intro heligible
          by_cases hid :
              id ∈ (eligibleIds config zone roots objects now).take config.maxEvictionsPerRun
          · rw [hkept fun h => h.1 hid, if_pos hid]
          · exact hgone ⟨hid, heligible⟩
        · intro hnot
          rw [hkept fun h => hnot h.2,
            if_neg fun htaken => hnot (mem_eligibleIds.mp (mem_of_mem_take htaken))]
    · exact absurd (hroots id hroot) hout

/-- A sweep evicts exactly the first objects, in the order of their ids, that are not reachable
and may be collected. Every object of the zone gets one decision. Repeating the sweep evicts
every object that may be evicted, and no other. -/
theorem sweep_exact (h : collectInternal config zone roots objects now = .ok plan) :
    plan.candidates.map SweepCandidate.objectId =
        (eligibleIds config zone roots objects now).take config.maxEvictionsPerRun ∧
      (∀ id, (executePlan objects plan).1[id]? =
        if id ∈ plan.candidates.map SweepCandidate.objectId then none else objects[id]?) ∧
      (∀ id ∈ plan.candidates.map SweepCandidate.objectId,
        roots.isRoot id = false ∧ ¬ Reachable zone roots objects id ∧
          ∀ object, objects[id]? = some object → object.storage.retention ≠ .pinned ∧
            (config.enforceLeaseExpiry = true →
              ∀ expiresAt, object.storage.retention = .lease expiresAt → expiresAt ≤ now)) ∧
      plan.transcript.decisions.map GcDecision.objectId = sortIds (objects.zoneIds zone) ∧
      (sortIds (objects.zoneIds zone)).Nodup ∧
      (plan.transcript.decisions.filter (·.action = .evict)).map GcDecision.objectId =
        plan.candidates.map SweepCandidate.objectId ∧
      (0 < config.maxEvictionsPerRun → ∃ n, ∀ m, n ≤ m → ∃ objects',
        repeatSweep config zone roots now m objects = .ok objects' ∧
          ∀ id, (Eligible config zone roots objects now id → objects'[id]? = none) ∧
            (¬ Eligible config zone roots objects now id → objects'[id]? = objects[id]?)) := by
  have hfits := planFits_of_collectInternal h
  refine ⟨hfits.candidates_eq, getElem?_executePlan objects plan, fun id hid => ?_,
    hfits.decisions_eq, nodup_sortIds_zoneIds objects zone, hfits.evicted_eq, fun hmax => ?_⟩
  · rw [hfits.candidates_eq] at hid
    obtain ⟨object, hobject, hunreachable, hallows⟩ :=
      mem_eligibleIds.mp (mem_of_mem_take hid)
    refine ⟨?_, hunreachable, fun object' hobject' => ?_⟩
    · rw [← Bool.not_eq_true]
      exact fun hroot => hunreachable (.root hroot hobject)
    · rw [hobject.1] at hobject'
      cases hobject'
      constructor
      · intro hpinned
        rw [hpinned] at hallows
        cases hallows
      · intro henforce expiresAt hlease
        rw [hlease, RetentionClass.allowsCollection, decide_eq_true_eq, henforce] at hallows
        exact hallows.resolve_right fun hnot => hnot rfl
  · refine ⟨(eligibleIds config zone roots objects now).length, fun m hm => ?_⟩
    refine exists_repeatSweep hfits.roots_inZone (hm.trans ?_)
    exact Nat.le_mul_of_pos_right m hmax

/-- The checkpoint's child stays, and the object that nothing keeps is evicted. -/
theorem demoObjects_sweep_exact :
    ∃ plan, collectInternal .default "z:test" demoRoots demoObjects 0 = .ok plan ∧
      plan.candidates.map SweepCandidate.objectId = [demoId 3] ∧
      ∀ id ∈ plan.candidates.map SweepCandidate.objectId,
        ¬ Reachable "z:test" demoRoots demoObjects id := by
  obtain ⟨plan, hplan, hids⟩ := exists_demoPlan
  exact ⟨plan, hplan, hids, fun id hid => ((sweep_exact hplan).2.2.1 id hid).2.1⟩

/-- A sweep leaves an object that is reachable with all of its references. An object that is
kept for another reason loses no reference but those that the sweep evicts. -/
theorem sweep_keeps_refs {source : ObjectId} {referrer object : StoredObject}
    (h : collectInternal config zone roots objects now = .ok plan)
    (hreferrer : InZone zone objects source referrer) (href : id ∈ referrer.header.refs)
    (hobject : InZone zone objects id object) :
    (Reachable zone roots objects source →
        (executePlan objects plan).1[source]? = some referrer ∧
          (executePlan objects plan).1[id]? = some object) ∧
      ((executePlan objects plan).1[id]? = some object ∨
        id ∈ (eligibleIds config zone roots objects now).take config.maxEvictionsPerRun) := by
  have hremoved := removed_executePlan (planFits_of_collectInternal h)
  constructor
  · intro hreach
    rw [hremoved.getElem?_of_reachable hreach,
      hremoved.getElem?_of_reachable (.ref hreach hreferrer.1 href hobject)]
    exact ⟨hreferrer.1, hobject.1⟩
  · by_cases hid : id ∈ (eligibleIds config zone roots objects now).take config.maxEvictionsPerRun
    · exact .inr hid
    · rw [hremoved.getElem?_eq, if_neg hid]
      exact .inl hobject.1

/-- The pinned object stays, and the object that it refers to is evicted. -/
theorem pinned_object_loses_ref :
    ∃ plan, collectInternal .default "z:test" demoRoots demoObjects 0 = .ok plan ∧
      InZone "z:test" demoObjects (demoId 4) (demoObject 4 [3] .pinned) ∧
      demoId 3 ∈ (demoObject 4 [3] .pinned).header.refs ∧
      InZone "z:test" demoObjects (demoId 3) (demoObject 3 [] .ephemeral) ∧
      (executePlan demoObjects plan).1[demoId 4]? = some (demoObject 4 [3] .pinned) ∧
      (executePlan demoObjects plan).1[demoId 3]? = none := by
  obtain ⟨plan, hplan, hids⟩ := exists_demoPlan
  refine ⟨plan, hplan, ⟨rfl, rfl⟩, mem_cons_self, ⟨rfl, rfl⟩, ?_, ?_⟩
  · rw [getElem?_executePlan, hids]
    rfl
  · rw [getElem?_executePlan, hids, if_pos mem_cons_self]

/-- The checkpoint and its child both stay. -/
theorem checkpoint_keeps_ref :
    ∃ plan, collectInternal .default "z:test" demoRoots demoObjects 0 = .ok plan ∧
      (executePlan demoObjects plan).1[demoId 1]? = some (demoObject 1 [2, 9] .ephemeral) ∧
      (executePlan demoObjects plan).1[demoId 2]? = some (demoObject 2 [1] .ephemeral) := by
  obtain ⟨plan, hplan, -⟩ := exists_demoPlan
  have hroot : demoRoots.isRoot (demoId 1) = true := rfl
  exact ⟨plan, hplan, (sweep_keeps_refs hplan ⟨rfl, rfl⟩ mem_cons_self ⟨rfl, rfl⟩).1
    (.root hroot ⟨rfl, rfl⟩)⟩

/-! ### Durable stores -/

variable {codec : Codec} {serde : Serde ObjectHeader} {verifier : Option ObjectIdVerifier}
  {s : DurableObjectState}

variable (codec serde) in
/-- Delete an object from a durable store. It does not matter when it is missing. -/
def deleteCandidate (s : DurableObjectState) (candidate : SweepCandidate) :
    Except ObjectStoreError DurableObjectState :=
  match s.deleteUnchecked codec serde candidate.objectId with
  | .error (.notFound _) => .ok s
  | result => result

end Plans

/-! ### Pruning symbols -/

/-- What the calls for a candidate fail with, where they fail for another reason than a missing
object. `E` is the errors of the symbol store. -/
structure PruneFailures (E : Type) where
  load : Option ObjectStoreError
  delete : Option ObjectStoreError
  prune : Option E

/-- An object store and a symbol store, which has the symbols of some objects. -/
structure PrunedStores (Symbols : Type) where
  objects : ObjectMap
  symbols : ObjectId → Option Symbols

def PrunedStores.lookup {Symbols : Type} (s : PrunedStores Symbols) (id : ObjectId) :
    Option StoredObject × Option Symbols := (s.objects[id]?, s.symbols id)

variable {E Symbols : Type} (failures : ObjectId → PruneFailures E)

/-- The loop over the candidates. A call that fails leaves its store as it is, and an object whose
symbols are not deleted is put back. -/
def pruneCandidates : List SweepCandidate → PrunedStores Symbols →
    Except (GcError ⊕ E) Unit × PrunedStores Symbols
  | [], s => (.ok (), s)
  | ⟨id, _⟩ :: candidates, s =>
    match failures id with
    | ⟨some e, _, _⟩ | ⟨none, some e, _⟩ => (.error (.inl (.objectStore e)), s)
    | ⟨none, none, some e⟩ =>
      match s.objects[id]? with
      | none => (.error (.inr e), { s with objects := s.objects.erase id })
      | some snapshot =>
        (.error (.inr e), { s with objects := (s.objects.erase id).insert id snapshot })
    | ⟨none, none, none⟩ => pruneCandidates candidates
      ⟨s.objects.erase id, fun other => if id = other then none else s.symbols other⟩

variable (config : GcConfig) (zone : ZoneId) (roots : GcRoots) (now : UInt64)
  (s : PrunedStores Symbols)

def collectAndPruneSymbolsWithTranscript :
    Except (GcError ⊕ E) GcRunReport × PrunedStores Symbols :=
  match collectInternal config zone roots s.objects now with
  | .error e => (.error (.inl e), s)
  | .ok plan =>
    ((pruneCandidates failures plan.candidates s).1.map fun _ => (executePlan s.objects plan).2,
      (pruneCandidates failures plan.candidates s).2)

/-- The loop leaves an object and its symbols as they are, or deletes both of a candidate. -/
theorem lookup_pruneCandidates (candidates : List SweepCandidate) (s : PrunedStores Symbols)
    (id : ObjectId) :
    (pruneCandidates failures candidates s).2.lookup id = s.lookup id ∨
      id ∈ candidates.map SweepCandidate.objectId ∧
        (pruneCandidates failures candidates s).2.lookup id = (none, none) := by
  induction candidates generalizing s with
  | nil => exact .inl rfl
  | cons candidate candidates ih =>
    obtain ⟨other, expired⟩ := candidate
    simp only [pruneCandidates]
    split
    · exact .inl rfl
    · exact .inl rfl
    · refine .inl ?_
      rcases eq_or_ne other id with rfl | hother <;> split <;> rename_i hsnapshot <;>
        simp [PrunedStores.lookup, getElem?_insert_eq, getElem?_erase_eq, *]
    · rcases ih _ with hsame | ⟨hmem, hgone⟩
      · rw [hsame]
        by_cases hother : other = id
        · exact .inr (by simp [PrunedStores.lookup, hother])
        · exact .inl (by simp [PrunedStores.lookup, getElem?_erase_eq, hother])
      · exact .inr ⟨mem_cons_of_mem _ hmem, hgone⟩

/-- Whatever fails during a sweep, it leaves of a candidate neither the object nor its symbols, or
both as they were, and it does not touch anything else. -/
theorem prune_failure_atomic (id : ObjectId) :
    let after := (collectAndPruneSymbolsWithTranscript failures config zone roots now s).2
    match collectInternal config zone roots s.objects now with
    | .error _ => after = s
    | .ok plan =>
      if id ∈ plan.candidates.map SweepCandidate.objectId then
        after.lookup id = (none, none) ∨
          s.objects[id]?.isSome = true ∧ after.lookup id = s.lookup id
      else after.lookup id = s.lookup id := by
  rw [collectAndPruneSymbolsWithTranscript]
  cases hplan : collectInternal config zone roots s.objects now with
  | error e => rfl
  | ok plan =>
    have hcases := lookup_pruneCandidates failures plan.candidates s id
    dsimp only
    split_ifs with hid
    · rw [(planFits_of_collectInternal hplan).candidates_eq] at hid
      obtain ⟨object, ⟨hobject, -⟩, -⟩ := mem_eligibleIds.mp (mem_of_mem_take hid)
      exact hcases.symm.imp And.right fun hsame => ⟨by rw [hobject]; rfl, hsame⟩
    · exact hcases.resolve_right fun hgone => hid hgone.1

end Flywheel.Store
