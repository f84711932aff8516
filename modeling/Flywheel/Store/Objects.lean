import Flywheel.Core.CanonicalCbor
import Flywheel.Core.Ids
import Flywheel.Data.TreeMaps
import Flywheel.Store.Refinement

/-!
# The durable object store

`DurableObjectState` of `fcp-store`: objects by id, the ids of each zone, and the bytes in
use. The abstract store is the map from ids to objects. The ids of the zones and the bytes in
use are functions of it, up to the order of the ids of a zone.
-/

namespace Flywheel.Store

open Flywheel.Core Flywheel.Data List
open Std (ExtTreeMap LawfulEqCmp TransCmp)

/-! ### Objects -/

inductive RetentionClass
  | pinned
  | lease (expiresAt : UInt64)
  | ephemeral
  deriving DecidableEq

structure StorageMeta where
  retention : RetentionClass
  deriving DecidableEq

structure ObjectHeader where
  schema : SchemaId
  zoneId : ZoneId
  createdAt : UInt64
  refs : List ObjectId
  foreignRefs : List ObjectId
  /-- Provenance, time to live, placement and encryption, which the stores do not look into. -/
  others : List UInt8

structure StoredObject where
  objectId : ObjectId
  header : ObjectHeader
  body : List UInt8
  storage : StorageMeta

def StoredObject.withRetention (object : StoredObject) (retention : RetentionClass) :
    StoredObject :=
  { object with storage := { object.storage with retention := retention } }

inductive ObjectStoreError
  | notFound (id : ObjectId)
  | alreadyExists (id : ObjectId)
  | quotaExceeded (used max : ℕ)
  | invalidStructure (error : SerializationError)
  | snapshotStructure (id : ObjectId) (error : SerializationError)
  | contentIdMismatch (claimed computed : ObjectId)
  | verifierKeyMissing (zone : ZoneId)
  | store (failure : StoreFailure)

/-- `ObjectIdVerifier`: whether an id belongs to a header and a body. -/
structure ObjectIdVerifier where
  verify : ObjectId → ObjectHeader → List UInt8 → Except ObjectStoreError Unit

variable (codec : Codec) (serde : Serde ObjectHeader)

def StoredObject.canonicalBytes (header : ObjectHeader) (body : List UInt8) :
    Except SerializationError (List UInt8) := do
  let encoded ← toCanonicalCbor codec serde header
  let out := utf8 "FCP2-OBJECT-V1" ++ encoded ++ body
  if maxCanonicalObjectBytes < out.length then
    throw (.payloadTooLarge out.length maxCanonicalObjectBytes)
  return out

def StoredObject.validateStructure (object : StoredObject) : Except SerializationError Unit := do
  let _ ← canonicalBytes codec serde object.header object.body
  return ()

/-! ### The state -/

abbrev ObjectMap := ExtTreeMap ObjectId StoredObject objectIdCmp

structure DurableObjectState where
  objects : ObjectMap
  zoneIndex : ExtTreeMap ZoneId (List ObjectId)
  usedBytes : ℕ

inductive ObjectWalOp
  | put (object : StoredObject)
  | delete (objectId : ObjectId)
  | setRetention (objectId : ObjectId) (retention : RetentionClass)

namespace DurableObjectState

def default : DurableObjectState := ⟨∅, ∅, 0⟩

variable (s : DurableObjectState)

def listZone (zone : ZoneId) : List ObjectId :=
  (s.zoneIndex[zone]?).getD []

def objectSize (object : StoredObject) : ℕ :=
  match StoredObject.canonicalBytes codec serde object.header object.body with
  | .ok bytes => bytes.length
  | .error _ => 64 * 1024 * 1024

def insertLoaded (object : StoredObject) : DurableObjectState where
  usedBytes := saturatingAdd s.usedBytes (objectSize codec serde object)
  zoneIndex :=
    s.zoneIndex.insert object.header.zoneId (s.listZone object.header.zoneId ++ [object.objectId])
  objects := s.objects.insert object.objectId object

variable (verifier : Option ObjectIdVerifier)

/-- The check of a verifier, if there is one. -/
def verifyObject (object : StoredObject) : Except ObjectStoreError Unit :=
  match verifier with
  | none => .ok ()
  | some verifier => verifier.verify object.objectId object.header object.body

/-- One object of `from_snapshot`. -/
def loadObject (s : DurableObjectState)
    (object : StoredObject) : Except ObjectStoreError DurableObjectState := do
  match object.validateStructure codec serde with
  | .error e => throw (.snapshotStructure object.objectId e)
  | .ok () =>
    verifyObject verifier object
    return s.insertLoaded codec serde object

def fromSnapshot (snapshot : List StoredObject) : Except ObjectStoreError DurableObjectState :=
  snapshot.foldlM (loadObject codec serde verifier) default

def toSnapshot : List StoredObject :=
  (s.objects.toList.map Prod.snd).mergeSort fun a b => (objectIdCmp a.objectId b.objectId).isLE

def validateMutation (op : ObjectWalOp) (maxBytes : ℕ) : Except ObjectStoreError Unit :=
  match op with
  | .put object =>
    match object.validateStructure codec serde with
    | .error e => .error (.invalidStructure e)
    | .ok () =>
      if object.objectId ∈ s.objects then .error (.alreadyExists object.objectId)
      else if maxBytes < saturatingAdd s.usedBytes (objectSize codec serde object) then
        .error (.quotaExceeded s.usedBytes maxBytes)
      else .ok ()
  | .delete id => if id ∈ s.objects then .ok () else .error (.notFound id)
  | .setRetention id _ => if id ∈ s.objects then .ok () else .error (.notFound id)

/-- Remove an id from its zone, and the zone if it was the last one. -/
def removeFromZone (index : ExtTreeMap ZoneId (List ObjectId)) (zone : ZoneId) (id : ObjectId) :
    ExtTreeMap ZoneId (List ObjectId) :=
  match index[zone]? with
  | none => index
  | some ids =>
    let ids := ids.filter (· ≠ id)
    if ids.isEmpty then index.erase zone else index.insert zone ids

def deleteUnchecked (id : ObjectId) : Except ObjectStoreError DurableObjectState :=
  match s.objects[id]? with
  | none => .error (.notFound id)
  | some object =>
    .ok
      { objects := s.objects.erase id
        usedBytes := s.usedBytes - objectSize codec serde object
        zoneIndex := removeFromZone s.zoneIndex object.header.zoneId id }

def setRetentionUnchecked (id : ObjectId) (retention : RetentionClass) :
    Except ObjectStoreError DurableObjectState :=
  match s.objects[id]? with
  | none => .error (.notFound id)
  | some object => .ok { s with objects := s.objects.insert id (object.withRetention retention) }

def applyLoadedMutation :
    ObjectWalOp → Except ObjectStoreError DurableObjectState
  | .put object =>
    if object.objectId ∈ s.objects then .error (.alreadyExists object.objectId)
    else .ok (s.insertLoaded codec serde object)
  | .delete id => s.deleteUnchecked codec serde id
  | .setRetention id retention => s.setRetentionUnchecked id retention

end DurableObjectState

open DurableObjectState

variable (verifier : Option ObjectIdVerifier)

/-- The part of `DurableObjectStore` that is about objects. -/
def objectMachine :
    Machine DurableObjectState ObjectWalOp (List StoredObject) ObjectStoreError where
  initial := .default
  verify
    | .put object => verifyObject verifier object
    | _ => .ok ()
  validateMutation := validateMutation codec serde
  applyLoadedMutation := applyLoadedMutation codec serde
  toSnapshot := toSnapshot
  fromSnapshot := fromSnapshot codec serde verifier
  failure := .store
  addressable s
    | .put object => s.usedBytes + objectSize codec serde object ≤ u64Max
    | _ => true

/-! ### The abstract store -/

/-- The bytes in use, computed from the objects. -/
def ObjectMap.totalSize (objects : ObjectMap) : ℕ :=
  entrySum (objectSize codec serde) objects

/-- The ids of a zone, computed from the objects. -/
def ObjectMap.zoneIds (objects : ObjectMap) (zone : ZoneId) : List ObjectId :=
  (objects.toList.filter fun entry => entry.2.header.zoneId = zone).map Prod.fst

/-- A map from ids to objects: an object is added under a new id, when it can be encoded, its
id is right and its size can be counted. -/
def objectSpec : StoreSpec ObjectMap ObjectWalOp where
  initial := ∅
  transition objects
    | .put object =>
      if (object.validateStructure codec serde).isOk ∧
          (verifyObject verifier object).isOk ∧ object.objectId ∉ objects ∧
          objects.totalSize codec serde + objectSize codec serde object ≤
            u64Max then
        some (objects.insert object.objectId object)
      else none
    | .delete id => if id ∈ objects then some (objects.erase id) else none
    | .setRetention id retention =>
      objects[id]?.map fun object => objects.insert id (object.withRetention retention)

/-! ### What holds of a state -/

/-- An object that is under its id and passes the checks. -/
structure StoredObject.ValidAt (verifier : Option ObjectIdVerifier) (id : ObjectId)
    (object : StoredObject) : Prop where
  objectId_eq : object.objectId = id
  structure_ok : object.validateStructure codec serde = .ok ()
  verify_ok : verifyObject verifier object = .ok ()

/-- A state in memory is in order: every object is under its id and passes the checks, the
bytes in use are the sizes of the objects, and every zone has the ids of its objects. -/
structure DurableObjectState.Inv (verifier : Option ObjectIdVerifier) (s : DurableObjectState) :
    Prop where
  valid : ∀ {id : ObjectId} {object : StoredObject}, s.objects[id]? = some object →
    object.ValidAt codec serde verifier id
  usedBytes_eq : s.usedBytes = s.objects.totalSize codec serde
  usedBytes_le : s.usedBytes ≤ u64Max
  mem_listZone : ∀ {zone : ZoneId} {id : ObjectId}, id ∈ s.listZone zone ↔
    ∃ object, s.objects[id]? = some object ∧ object.header.zoneId = zone
  nodup_listZone : ∀ zone, (s.listZone zone).Nodup
  listZone_ne_nil : ∀ {zone : ZoneId}, zone ∈ s.zoneIndex → s.listZone zone ≠ []

namespace DurableObjectState

variable {codec serde} {verifier : Option ObjectIdVerifier} {s : DurableObjectState}
  {object : StoredObject} {id : ObjectId}

theorem inv_default : Inv codec serde verifier default where
  valid h := by cases h
  usedBytes_eq := entrySum_empty.symm
  usedBytes_le := Nat.zero_le _
  mem_listZone := by
    intro zone id
    constructor
    · intro h
      cases h
    · rintro ⟨object, h, -⟩
      cases h
  nodup_listZone _ := nodup_nil
  listZone_ne_nil h := absurd h ExtTreeMap.not_mem_empty

/-- The ids of a zone after an object was added. -/
theorem listZone_insertLoaded (zone : ZoneId) :
    (s.insertLoaded codec serde object).listZone zone =
      if object.header.zoneId = zone then s.listZone zone ++ [object.objectId]
      else s.listZone zone := by
  rw [listZone, insertLoaded, getElem?_insert_eq]
  split_ifs with h
  · rw [h]
    rfl
  · rfl

/-- Adding an object under a new id. -/
theorem Inv.insertLoaded (h : Inv codec serde verifier s) (hnew : object.objectId ∉ s.objects)
    (hvalid : object.ValidAt codec serde verifier object.objectId)
    (hsize : s.objects.totalSize codec serde + objectSize codec serde object ≤ u64Max) :
    Inv codec serde verifier (s.insertLoaded codec serde object) := by
  have hget : ∀ {id other}, (s.insertLoaded codec serde object).objects[id]? = some other ↔
      object.objectId = id ∧ object = other ∨ s.objects[id]? = some other := by
    intro id other
    rw [DurableObjectState.insertLoaded, getElem?_insert_eq]
    split_ifs with hid
    · simp [← hid, ExtTreeMap.getElem?_eq_none hnew]
    · simp [hid]
  have hused : (s.insertLoaded codec serde object).usedBytes =
      s.usedBytes + objectSize codec serde object := by
    refine saturatingAdd_of_le ?_
    rwa [h.usedBytes_eq]
  refine ⟨?_, ?_, ?_, ?_, ?_, ?_⟩
  · intro id other hother
    rcases hget.mp hother with ⟨rfl, rfl⟩ | hold
    · exact hvalid
    · exact h.valid hold
  · rw [hused, h.usedBytes_eq]
    exact (entrySum_insert hnew).symm
  · rwa [hused, h.usedBytes_eq]
  · intro zone id
    have hexists : (∃ other, (s.insertLoaded codec serde object).objects[id]? = some other ∧
          other.header.zoneId = zone) ↔
        id ∈ s.listZone zone ∨ object.objectId = id ∧ object.header.zoneId = zone := by
      rw [h.mem_listZone]
      constructor
      · rintro ⟨other, hother, hzone⟩
        rcases hget.mp hother with ⟨hid, rfl⟩ | hold
        · exact .inr ⟨hid, hzone⟩
        · exact .inl ⟨other, hold, hzone⟩
      · rintro (⟨other, hold, hzone⟩ | ⟨hid, hzone⟩)
        · exact ⟨other, hget.mpr (.inr hold), hzone⟩
        · exact ⟨object, hget.mpr (.inl ⟨hid, rfl⟩), hzone⟩
    rw [hexists, listZone_insertLoaded]
    split_ifs with hzone
    · simp [hzone, eq_comm]
    · simp [hzone]
  · intro zone
    rw [listZone_insertLoaded]
    split_ifs with hzone
    · refine nodup_append.mpr ⟨h.nodup_listZone zone, nodup_singleton _, ?_⟩
      intro id hid other hother
      rw [mem_singleton.mp hother]
      rintro rfl
      obtain ⟨old, hold, -⟩ := h.mem_listZone.mp hid
      exact hnew (ExtTreeMap.mem_iff_isSome_getElem?.mpr (by rw [hold]; rfl))
    · exact h.nodup_listZone zone
  · intro zone hzone
    rw [listZone_insertLoaded]
    split_ifs with heq
    · exact append_ne_nil_of_right_ne_nil _ (cons_ne_nil _ _)
    · refine h.listZone_ne_nil ?_
      rw [DurableObjectState.insertLoaded, ExtTreeMap.mem_insert] at hzone
      exact hzone.resolve_left fun hcmp => heq (compare_eq_iff_eq.mp hcmp)

theorem Inv.getElem?_zoneIndex (h : Inv codec serde verifier s) (zone : ZoneId) :
    s.zoneIndex[zone]? = if s.listZone zone = [] then none else some (s.listZone zone) := by
  have hne : zone ∈ s.zoneIndex → s.listZone zone ≠ [] := h.listZone_ne_nil
  rw [ExtTreeMap.mem_iff_isSome_getElem?] at hne
  rw [listZone] at hne ⊢
  cases hget : s.zoneIndex[zone]? with
  | none => rfl
  | some ids =>
    rw [hget] at hne
    exact (if_neg (hne rfl)).symm

theorem listZone_of_getElem? {zone : ZoneId} {ids : List ObjectId}
    (h : s.zoneIndex[zone]? = if ids = [] then none else some ids) :
    s.listZone zone = ids ∧ (zone ∈ s.zoneIndex → s.listZone zone ≠ []) := by
  rw [ExtTreeMap.mem_iff_isSome_getElem?, listZone, h]
  split_ifs with hempty
  · exact ⟨hempty.symm, nofun⟩
  · exact ⟨rfl, fun _ => hempty⟩

section

variable (h : Inv codec serde verifier s) (hobject : s.objects[id]? = some object)
include h hobject

/-- What removing an object leaves of the zones. -/
theorem zones_removeFromZone {s' : DurableObjectState}
    (hindex : s'.zoneIndex = removeFromZone s.zoneIndex object.header.zoneId id) (zone : ZoneId) :
    s'.listZone zone = (s.listZone zone).filter (· ≠ id) ∧
      (zone ∈ s'.zoneIndex → s'.listZone zone ≠ []) := by
  have hmem : id ∈ s.listZone object.header.zoneId := h.mem_listZone.mpr ⟨object, hobject, rfl⟩
  have hids : s.zoneIndex[object.header.zoneId]? = some (s.listZone object.header.zoneId) := by
    rw [h.getElem?_zoneIndex, if_neg (ne_nil_of_mem hmem)]
  refine listZone_of_getElem? ?_
  rw [hindex, removeFromZone, hids]
  simp only [List.isEmpty_iff]
  by_cases hzone : object.header.zoneId = zone
  · subst hzone
    split_ifs
    · rw [getElem?_erase_eq, if_pos rfl]
    · rw [getElem?_insert_eq, if_pos rfl]
  · -- the removed id is in another zone
    have hkeep : (s.listZone zone).filter (· ≠ id) = s.listZone zone := by
      refine filter_eq_self.mpr fun other hmem' => decide_eq_true ?_
      rintro rfl
      obtain ⟨o, ho, hzone'⟩ := h.mem_listZone.mp hmem'
      cases hobject.symm.trans ho
      exact hzone hzone'
    rw [hkeep, ← h.getElem?_zoneIndex]
    split_ifs
    · rw [getElem?_erase_eq, if_neg hzone]
    · rw [getElem?_insert_eq, if_neg hzone]

theorem Inv.deleteUnchecked :
    ∃ s', s.deleteUnchecked codec serde id = .ok s' ∧ Inv codec serde verifier s' ∧
      s'.objects = s.objects.erase id := by
  have hsum : s.objects.totalSize codec serde =
      entrySum (objectSize codec serde) (s.objects.erase id) + objectSize codec serde object :=
    entrySum_erase hobject
  have hused := h.usedBytes_eq
  have hle := h.usedBytes_le
  obtain ⟨s', hdelete, hobjects, hused', hindex⟩ : ∃ s',
      s.deleteUnchecked codec serde id = .ok s' ∧ s'.objects = s.objects.erase id ∧
      s'.usedBytes = s.usedBytes - objectSize codec serde object ∧
      s'.zoneIndex = removeFromZone s.zoneIndex object.header.zoneId id := by
    rw [DurableObjectState.deleteUnchecked, hobject]
    exact ⟨_, rfl, rfl, rfl, rfl⟩
  have hzones := zones_removeFromZone h hobject hindex
  refine ⟨s', hdelete, ⟨?_, ?_, ?_, ?_, ?_, ?_⟩, hobjects⟩
  · intro other o ho
    rw [hobjects] at ho
    exact h.valid (getElem?_erase_eq_some.mp ho).2
  · rw [hobjects, ObjectMap.totalSize]
    omega
  · omega
  · intro zone other
    rw [(hzones zone).1, mem_filter, h.mem_listZone, hobjects]
    simp only [getElem?_erase_eq_some, ne_comm, decide_eq_true_eq]
    constructor
    · rintro ⟨⟨o, ho, hzone⟩, hne⟩
      exact ⟨o, ⟨hne, ho⟩, hzone⟩
    · rintro ⟨o, ⟨hne, ho⟩, hzone⟩
      exact ⟨⟨o, ho, hzone⟩, hne⟩
  · intro zone
    rw [(hzones zone).1]
    exact (h.nodup_listZone zone).filter _
  · intro zone
    exact (hzones zone).2

/-- Changing how long an object is kept. -/
theorem Inv.setRetentionUnchecked (retention : RetentionClass) :
    ∃ s', s.setRetentionUnchecked id retention = .ok s' ∧ Inv codec serde verifier s' ∧
      s'.objects = s.objects.insert id (object.withRetention retention) := by
  have hvalid := h.valid hobject
  refine ⟨{ s with objects := s.objects.insert id (object.withRetention retention) }, ?_,
    ⟨?_, ?_, h.usedBytes_le, ?_, h.nodup_listZone, h.listZone_ne_nil⟩, rfl⟩
  · rw [DurableObjectState.setRetentionUnchecked, hobject]
  · intro other o ho
    rcases getElem?_insert_eq_some.mp ho with ⟨rfl, rfl⟩ | ⟨-, hold⟩
    · exact ⟨hvalid.objectId_eq, hvalid.structure_ok, hvalid.verify_ok⟩
    · exact h.valid hold
  · have hsum : entrySum (objectSize codec serde)
          (s.objects.insert id (object.withRetention retention)) +
          objectSize codec serde object =
        entrySum (objectSize codec serde) s.objects +
          objectSize codec serde (object.withRetention retention) :=
      entrySum_replace hobject
    have hused := h.usedBytes_eq
    exact hused.trans (Nat.add_right_cancel hsum).symm
  · intro zone other
    refine h.mem_listZone.trans ?_
    constructor
    · rintro ⟨o, ho, hzone⟩
      by_cases hid : id = other
      · subst hid
        cases hobject.symm.trans ho
        exact ⟨_, getElem?_insert_eq_some.mpr (.inl ⟨rfl, rfl⟩), hzone⟩
      · exact ⟨o, getElem?_insert_eq_some.mpr (.inr ⟨hid, ho⟩), hzone⟩
    · rintro ⟨o, ho, hzone⟩
      rcases getElem?_insert_eq_some.mp ho with ⟨rfl, rfl⟩ | ⟨-, hold⟩
      · exact ⟨object, hobject, hzone⟩
      · exact ⟨o, hold, hzone⟩

end

/-! ### Snapshots -/

theorem Inv.fromSnapshot_toSnapshot (h : Inv codec serde verifier s) :
    ∃ s', fromSnapshot codec serde verifier s.toSnapshot = .ok s' ∧
      Inv codec serde verifier s' ∧ s'.objects = s.objects := by
  have hentries : (s.toSnapshot.map fun object => (object.objectId, object)).Perm
      s.objects.toList :=
    map_key_perm (fun id o hget => (h.valid hget).objectId_eq) (mergeSort_perm _ _)
  refine exists_foldlM_of_perm _ (objectSize codec serde) ?_
    ((Perm.of_eq (append_nil _)).trans hentries) inv_default
  intro s' object hmem hinv hfresh hsize
  have hvalid := h.valid (ExtTreeMap.mem_toList_iff_getElem?_eq_some.mp hmem)
  have hle := h.usedBytes_le
  rw [h.usedBytes_eq] at hle
  refine ⟨s'.insertLoaded codec serde object, ?_, hinv.insertLoaded hfresh hvalid
    (hsize.trans hle), rfl⟩
  rw [loadObject, hvalid.structure_ok, hvalid.verify_ok]
  rfl

end DurableObjectState

/-! ### The refinement -/

variable {codec serde} {verifier : Option ObjectIdVerifier} {s : DurableObjectState}
  {op : ObjectWalOp}

/-- What it takes to add an object. -/
theorem objectSpec_put {objects v : ObjectMap} {object : StoredObject} :
    (objectSpec codec serde verifier).transition objects (.put object) = some v ↔
      object.ValidAt codec serde verifier object.objectId ∧ object.objectId ∉ objects ∧
        objects.totalSize codec serde + objectSize codec serde object ≤
          u64Max ∧ v = objects.insert object.objectId object := by
  rw [objectSpec]
  constructor
  · intro h
    simp only at h
    split_ifs at h with hchecks
    obtain ⟨hstructure, hverify, hnew, hsize⟩ := hchecks
    exact ⟨⟨rfl, isOk_iff.mp hstructure, isOk_iff.mp hverify⟩, hnew, hsize,
      (Option.some.inj h).symm⟩
  · rintro ⟨hvalid, hnew, hsize, rfl⟩
    exact if_pos ⟨isOk_iff.mpr hvalid.structure_ok, isOk_iff.mpr hvalid.verify_ok, hnew, hsize⟩

/-- A mutation that passes the checks is possible. -/
theorem DurableObjectState.Inv.exists_transition (h : Inv codec serde verifier s) {maxBytes : ℕ}
    (hverify : (objectMachine codec serde verifier).verify op = .ok ())
    (hvalidate : s.validateMutation codec serde op maxBytes = .ok ())
    (haddressable : (objectMachine codec serde verifier).addressable s op = true) :
    ∃ v, (objectSpec codec serde verifier).transition s.objects op = some v := by
  cases op with
  | put object =>
    rw [validateMutation] at hvalidate
    cases hstructure : object.validateStructure codec serde with
    | error e =>
      rw [hstructure] at hvalidate
      cases hvalidate
    | ok u =>
      rw [hstructure] at hvalidate
      split_ifs at hvalidate with hnew hquota
      refine ⟨_, objectSpec_put.mpr ⟨⟨rfl, hstructure, hverify⟩, hnew, ?_, rfl⟩⟩
      rw [← h.usedBytes_eq]
      exact of_decide_eq_true haddressable
  | delete id =>
    rw [validateMutation] at hvalidate
    split_ifs at hvalidate with hmem
    exact ⟨_, if_pos hmem⟩
  | setRetention id retention =>
    rw [validateMutation] at hvalidate
    split_ifs at hvalidate with hmem
    have hget : s.objects[id]? = some s.objects[id] := ExtTreeMap.getElem?_eq_some_getElem hmem
    exact ⟨_, by simp only [objectSpec, hget]; rfl⟩

/-- A mutation that is possible passes the checks without a quota and is carried out. -/
theorem DurableObjectState.Inv.apply_transition (h : Inv codec serde verifier s) {v : ObjectMap}
    (hv : (objectSpec codec serde verifier).transition s.objects op = some v) :
    (objectMachine codec serde verifier).verify op = .ok () ∧
      s.validateMutation codec serde op u64Max = .ok () ∧
      ∃ s', s.applyLoadedMutation codec serde op = .ok s' ∧ Inv codec serde verifier s' ∧
        s'.objects = v := by
  cases op with
  | put object =>
    obtain ⟨hvalid, hnew, hsize, rfl⟩ := objectSpec_put.mp hv
    refine ⟨hvalid.verify_ok, ?_, s.insertLoaded codec serde object, if_neg hnew,
      h.insertLoaded hnew hvalid hsize, rfl⟩
    rw [validateMutation, hvalid.structure_ok]
    have hquota : saturatingAdd s.usedBytes (objectSize codec serde object) ≤ u64Max :=
      Nat.min_le_right _ _
    rw [if_neg hnew, if_neg (Nat.not_lt.mpr hquota)]
  | delete id =>
    rw [objectSpec] at hv
    simp only at hv
    split_ifs at hv with hmem
    cases hv
    obtain ⟨s', hs', hinv, hobjects⟩ :=
      h.deleteUnchecked (ExtTreeMap.getElem?_eq_some_getElem hmem)
    exact ⟨rfl, if_pos hmem, s', hs', hinv, hobjects⟩
  | setRetention id retention =>
    obtain ⟨object, hobject, rfl⟩ := Option.map_eq_some_iff.mp hv
    have hmem : id ∈ s.objects := by
      rw [ExtTreeMap.mem_iff_isSome_getElem?, hobject]
      rfl
    obtain ⟨s', hs', hinv, hobjects⟩ := h.setRetentionUnchecked hobject retention
    exact ⟨rfl, if_pos hmem, s', hs', hinv, hobjects⟩

variable (codec serde verifier) in
/-- The durable object store refines the map from ids to objects. -/
def objectRefinement : Refinement (objectMachine codec serde verifier) ObjectMap where
  spec := objectSpec codec serde verifier
  view := objects
  Inv := Inv codec serde verifier
  inv_initial := inv_default
  view_initial := rfl
  accepted := fun hinv hverify hvalidate haddressable =>
    hinv.exists_transition hverify hvalidate haddressable
  applied := fun hinv hv => hinv.apply_transition hv
  restored := fun hinv => hinv.fromSnapshot_toSnapshot

/-- The ids of a zone, computed from the objects. -/
theorem ObjectMap.mem_zoneIds {objects : ObjectMap} {zone : ZoneId} {id : ObjectId} :
    id ∈ objects.zoneIds zone ↔
      ∃ object, objects[id]? = some object ∧ object.header.zoneId = zone := by
  rw [zoneIds, mem_map]
  constructor
  · rintro ⟨⟨id, object⟩, hmem, rfl⟩
    obtain ⟨hentry, hzone⟩ := mem_filter.mp hmem
    exact ⟨object, ExtTreeMap.mem_toList_iff_getElem?_eq_some.mp hentry, of_decide_eq_true hzone⟩
  · rintro ⟨object, hget, hzone⟩
    exact ⟨(id, object), mem_filter.mpr
      ⟨ExtTreeMap.mem_toList_iff_getElem?_eq_some.mpr hget, decide_eq_true hzone⟩, rfl⟩

theorem ObjectMap.nodup_zoneIds (objects : ObjectMap) (zone : ZoneId) :
    (objects.zoneIds zone).Nodup := by
  rw [zoneIds, Nodup, pairwise_map]
  refine (ExtTreeMap.distinct_keys_toList.filter _).imp fun {a b} hne heq => ?_
  exact hne (LawfulEqCmp.compare_eq_iff_eq.mpr heq)

/-- The zones of a state in order are the ones computed from its objects. -/
theorem DurableObjectState.Inv.zones_eq (h : Inv codec serde verifier s) (zone : ZoneId) :
    (s.listZone zone).Perm (s.objects.zoneIds zone) ∧
      (zone ∈ s.zoneIndex ↔ s.objects.zoneIds zone ≠ []) := by
  have hnodup := ObjectMap.nodup_zoneIds s.objects zone
  have hperm : (s.listZone zone).Perm (s.objects.zoneIds zone) := by
    refine (perm_ext_iff_of_nodup (h.nodup_listZone zone) hnodup).mpr fun id => ?_
    rw [h.mem_listZone, ObjectMap.mem_zoneIds]
  refine ⟨hperm, fun hmem hnil => ?_, fun hne => ?_⟩
  · rw [hnil] at hperm
    exact h.listZone_ne_nil hmem hperm.eq_nil
  · by_contra hmem
    rw [listZone, ExtTreeMap.getElem?_eq_none hmem] at hperm
    exact hne hperm.symm.eq_nil

end Flywheel.Store
