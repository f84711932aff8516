import Flywheel.Core.Ids
import Flywheel.Data.TreeMaps

/-!
# The quarantine of unreferenced objects

`QuarantineStore` of `fcp-store`: objects of unknown provenance wait in a store with a quota of
bytes and of objects for each zone. An object that needs room evicts the oldest ones of its
zone. A store carries what its operations keep: the eviction queue lists the objects of the
zone, the bytes in use are theirs, and the quotas hold.

A rejected object is one that is larger than the quota, and the store finds that out only after
it has evicted the whole zone.
-/

namespace Flywheel.Store

open Flywheel.Core Flywheel.Data Std.ExtTreeMap
open Std (ExtTreeMap ExtTreeSet LawfulEqCmp TransCmp)

/-! ### Objects and eviction entries -/

structure ObjectAdmissionPolicy where
  maxQuarantineBytesPerZone : ℕ
  maxQuarantineObjectsPerZone : ℕ
  quarantineTtlSecs : ℕ
  requireSchemaValidation : Bool

def ObjectAdmissionPolicy.default : ObjectAdmissionPolicy where
  maxQuarantineBytesPerZone := 256 * 1024 * 1024
  maxQuarantineObjectsPerZone := 100000
  quarantineTtlSecs := 3600
  requireSchemaValidation := true

structure QuarantinedObject where
  objectId : ObjectId
  zoneId : ZoneId
  data : List UInt8
  sourcePeer : Option ℕ
  receivedAt : ℕ
  peerReputation : ℤ
  deriving DecidableEq

inductive QuarantineError
  | quotaExceeded (used max : ℕ)
  | notFound (id : ObjectId)
  | promotionDenied (reason : String)
  | schemaValidationFailed (reason : String)
  deriving DecidableEq

structure EvictionEntry where
  objectId : ObjectId
  receivedAt : ℕ
  peerReputation : ℤ
  size : ℕ

/-- `EvictionEntry::cmp`: the oldest first, then the lowest reputation, then the largest. -/
def evictionEntryCmp : EvictionEntry → EvictionEntry → Ordering :=
  compareLex (compareOn EvictionEntry.receivedAt) <|
    compareLex (compareOn EvictionEntry.peerReputation) <|
      compareLex (fun a b => compareOn EvictionEntry.size b a)
        fun a b => objectIdCmp a.objectId b.objectId

instance instTransCmpEvictionEntry : TransCmp evictionEntryCmp := by
  have hid : TransCmp fun a b : EvictionEntry => objectIdCmp a.objectId b.objectId :=
    { eq_swap := Std.OrientedCmp.eq_swap, isLE_trans := TransCmp.isLE_trans }
  exact inferInstanceAs (TransCmp (compareLex _ (compareLex _ (compareLex _ _))))

instance instLawfulEqCmpEvictionEntry : LawfulEqCmp evictionEntryCmp where
  eq_of_compare {a b} h := by
    simp only [evictionEntryCmp, compareLex_eq_eq, compareOn] at h
    obtain ⟨hreceived, hreputation, hsize, hid⟩ := h
    cases a
    cases b
    cases LawfulEqCmp.eq_of_compare hreceived
    cases LawfulEqCmp.eq_of_compare hreputation
    cases LawfulEqCmp.eq_of_compare hsize
    cases LawfulEqCmp.eq_of_compare hid
    rfl

def evictionEntry (id : ObjectId) (object : QuarantinedObject) : EvictionEntry where
  objectId := id
  receivedAt := object.receivedAt
  peerReputation := object.peerReputation
  size := object.data.length

/-! ### One zone -/

structure ZoneQuarantine where
  objects : ExtTreeMap ObjectId QuarantinedObject objectIdCmp
  usedBytes : ℕ
  evictionQueue : ExtTreeSet EvictionEntry evictionEntryCmp

namespace ZoneQuarantine

def new : ZoneQuarantine := ⟨∅, 0, ∅⟩

variable (zone : ZoneQuarantine)

/-- What `remove` and `evict_expired` do with an object of the zone. -/
def removeObject (id : ObjectId) : ZoneQuarantine :=
  match zone.objects[id]? with
  | some object =>
    { objects := zone.objects.erase id
      usedBytes := zone.usedBytes - object.data.length
      evictionQueue := zone.evictionQueue.erase (evictionEntry id object) }
  | none => zone

variable (ttl now : ℕ)

def expired (object : QuarantinedObject) : Bool :=
  decide (ttl < now - object.receivedAt)

/-- The ids that `evict_expired` removes. -/
def expiredIds (zone : ZoneQuarantine) : List ObjectId :=
  (zone.objects.toList.filter fun entry => expired ttl now entry.2).map Prod.fst

/-- `QuarantineStore::evict_expired` on one zone. -/
def evictExpired (zone : ZoneQuarantine) : ZoneQuarantine :=
  (zone.expiredIds ttl now).foldl removeObject zone

/-- The loop body of `quarantine`: the first entry is popped and its object removed. -/
def evict (entry : EvictionEntry) : ZoneQuarantine :=
  match zone.objects[entry.objectId]? with
  | some evicted =>
    { objects := zone.objects.erase entry.objectId
      usedBytes := zone.usedBytes - evicted.data.length
      evictionQueue := zone.evictionQueue.erase entry }
  | none => { zone with evictionQueue := zone.evictionQueue.erase entry }

/-- The loop of `quarantine`. Each turn pops an entry, so that one more turn than there are
entries is enough. -/
def makeRoom (policy : ObjectAdmissionPolicy) (size : ℕ) :
    ℕ → ZoneQuarantine → Except QuarantineError Unit × ZoneQuarantine
  | 0, zone => (.error (.quotaExceeded zone.usedBytes policy.maxQuarantineBytesPerZone), zone)
  | turns + 1, zone =>
    if policy.maxQuarantineObjectsPerZone ≤ zone.objects.size ∨
        policy.maxQuarantineBytesPerZone < zone.usedBytes + size then
      match zone.evictionQueue.toList.head? with
      | some entry => makeRoom policy size turns (zone.evict entry)
      | none => (.error (.quotaExceeded zone.usedBytes policy.maxQuarantineBytesPerZone), zone)
    else (.ok (), zone)

def add (object : QuarantinedObject) : ZoneQuarantine where
  objects := zone.objects.insert object.objectId object
  usedBytes := zone.usedBytes + object.data.length
  evictionQueue := zone.evictionQueue.insert (evictionEntry object.objectId object)

/-- `QuarantineStore::quarantine` on the zone of the object. -/
def quarantine (policy : ObjectAdmissionPolicy) (zone : ZoneQuarantine)
    (object : QuarantinedObject) : Except QuarantineError Unit × ZoneQuarantine :=
  if object.objectId ∈ zone.objects then (.ok (), zone)
  else
    match zone.makeRoom policy object.data.length (zone.evictionQueue.size + 1) with
    | (.ok (), zone) => (.ok (), zone.add object)
    | (.error e, zone) => (.error e, zone)

/-! ### What a zone keeps -/

/-- What holds of the zones of a store. -/
structure Fits (policy : ObjectAdmissionPolicy) (zoneId : ZoneId) (zone : ZoneQuarantine) :
    Prop where
  objectId_eq : ∀ (id : ObjectId) (object : QuarantinedObject),
    zone.objects[id]? = some object → object.objectId = id
  zoneId_eq : ∀ (id : ObjectId) (object : QuarantinedObject),
    zone.objects[id]? = some object → object.zoneId = zoneId
  mem_evictionQueue : ∀ entry, entry ∈ zone.evictionQueue ↔
    ∃ object, zone.objects[entry.objectId]? = some object ∧
      evictionEntry entry.objectId object = entry
  usedBytes_eq : zone.usedBytes =
    entrySum (fun object : QuarantinedObject => object.data.length) zone.objects
  usedBytes_le : zone.usedBytes ≤ policy.maxQuarantineBytesPerZone
  size_le : zone.objects.size ≤ policy.maxQuarantineObjectsPerZone

variable {policy : ObjectAdmissionPolicy} {zoneId : ZoneId} {zone : ZoneQuarantine}
  {id : ObjectId} {object : QuarantinedObject}

variable (policy zoneId) in
theorem fits_new : new.Fits policy zoneId where
  objectId_eq id object h := by simp [new] at h
  zoneId_eq id object h := by simp [new] at h
  mem_evictionQueue entry := by simp [new]
  usedBytes_eq := by simp [new]
  usedBytes_le := Nat.zero_le _
  size_le := by simp [new]

theorem getElem?_removeObject {other : ObjectId} :
    (zone.removeObject id).objects[other]? = some object ↔
      id ≠ other ∧ zone.objects[other]? = some object := by
  rw [removeObject]
  split
  · exact getElem?_erase_eq_some
  · next hnone =>
    refine ⟨fun h => ⟨?_, h⟩, And.right⟩
    rintro rfl
    cases hnone.symm.trans h

/-- A removal keeps what a zone keeps. -/
theorem Fits.removeObject (hfits : zone.Fits policy zoneId) (id : ObjectId) :
    (zone.removeObject id).Fits policy zoneId := by
  rw [ZoneQuarantine.removeObject]
  split
  · next object hobject =>
    have hsum : entrySum (fun object => object.data.length) zone.objects =
        entrySum (fun object => object.data.length) (zone.objects.erase id) +
          object.data.length := entrySum_erase hobject
    have hused := hfits.usedBytes_eq
    have hle := hfits.usedBytes_le
    have hsize := hfits.size_le
    refine ⟨fun _ _ h => hfits.objectId_eq _ _ (getElem?_erase_eq_some.mp h).2,
      fun _ _ h => hfits.zoneId_eq _ _ (getElem?_erase_eq_some.mp h).2, fun entry => ?_, ?_, ?_, ?_⟩
    · simp only [getElem?_erase_eq_some, ExtTreeSet.mem_erase, hfits.mem_evictionQueue, ne_eq,
        LawfulEqCmp.compare_eq_iff_eq]
      constructor
      · rintro ⟨hne, object', hobject', hentry⟩
        refine ⟨object', ⟨?_, hobject'⟩, hentry⟩
        rintro rfl
        cases hobject.symm.trans hobject'
        exact hne hentry
      · rintro ⟨object', ⟨hid, hobject'⟩, hentry⟩
        refine ⟨?_, object', hobject', hentry⟩
        rintro rfl
        exact hid rfl
    · dsimp only
      omega
    · dsimp only
      omega
    · rw [size_erase]
      split <;> omega
  · exact hfits

theorem Fits.foldl_removeObject (hfits : zone.Fits policy zoneId) (ids : List ObjectId) :
    (ids.foldl ZoneQuarantine.removeObject zone).Fits policy zoneId := by
  induction ids generalizing zone with
  | nil => exact hfits
  | cons id ids ih => exact ih (hfits.removeObject id)

theorem getElem?_foldl_removeObject {ids : List ObjectId} {other : ObjectId} :
    (ids.foldl ZoneQuarantine.removeObject zone).objects[other]? = some object ↔
      other ∉ ids ∧ zone.objects[other]? = some object := by
  induction ids generalizing zone with
  | nil => simp
  | cons id ids ih =>
    rw [List.foldl_cons, ih, getElem?_removeObject, List.mem_cons, not_or, and_left_comm, and_assoc,
      ne_comm]

/-- An object stays when it has not expired. -/
theorem getElem?_evictExpired {ttl now : ℕ} :
    (zone.evictExpired ttl now).objects[id]? = some object ↔
      zone.objects[id]? = some object ∧ expired ttl now object = false := by
  have hids : id ∈ zone.expiredIds ttl now ↔
      ∃ object, zone.objects[id]? = some object ∧ expired ttl now object = true := by
    simp only [expiredIds, List.mem_map, List.mem_filter, Prod.exists,
      mem_toList_iff_getElem?_eq_some, exists_and_right, exists_eq_right]
  rw [evictExpired, getElem?_foldl_removeObject, and_comm]
  refine and_congr_right fun hobject => ?_
  rw [hids, hobject]
  simp

section

variable (hfits : zone.Fits policy zoneId)
include hfits

theorem Fits.evict_eq {entry : EvictionEntry}
    (hentry : entry ∈ zone.evictionQueue) : zone.evict entry = zone.removeObject entry.objectId := by
  obtain ⟨object, hobject, heq⟩ := (hfits.mem_evictionQueue entry).mp hentry
  rw [evict, ZoneQuarantine.removeObject, hobject]
  dsimp only
  rw [heq]

/-- A zone with an empty queue has no objects and no bytes in use. -/
theorem Fits.eq_empty (hqueue : zone.evictionQueue = ∅) :
    zone.objects = ∅ ∧ zone.usedBytes = 0 := by
  have hobjects : zone.objects = ∅ := by
    refine ext_getElem? fun id => ?_
    cases hobject : zone.objects[id]? with
    | none => rfl
    | some object =>
      have hmem := (hfits.mem_evictionQueue (evictionEntry id object)).mpr ⟨object, hobject, rfl⟩
      rw [hqueue] at hmem
      exact absurd hmem not_mem_empty
  refine ⟨hobjects, ?_⟩
  rw [hfits.usedBytes_eq, hobjects, entrySum_empty]

/-- The loop makes room by evictions. It fails only when the object does not fit into an empty
zone, and then the zone is empty. -/
theorem makeRoom_cases (size : ℕ) {turns : ℕ} (hturns : zone.evictionQueue.size < turns) :
    (∃ left, zone.makeRoom policy size turns = (.ok (), left) ∧ left.Fits policy zoneId ∧
        (∀ (id : ObjectId) (object : QuarantinedObject),
          left.objects[id]? = some object → zone.objects[id]? = some object) ∧
        left.objects.size < policy.maxQuarantineObjectsPerZone ∧
        left.usedBytes + size ≤ policy.maxQuarantineBytesPerZone) ∨
      ∃ left, zone.makeRoom policy size turns =
          (.error (.quotaExceeded 0 policy.maxQuarantineBytesPerZone), left) ∧
        left.Fits policy zoneId ∧ left.objects = ∅ ∧
        (policy.maxQuarantineObjectsPerZone = 0 ∨ policy.maxQuarantineBytesPerZone < size) := by
  induction turns generalizing zone with
  | zero => omega
  | succ turns ih =>
    rw [makeRoom]
    split_ifs with hfull
    · cases hfirst : zone.evictionQueue.toList.head? with
      | none =>
        have hqueue : zone.evictionQueue = ∅ := by
          rw [← ExtTreeSet.isEmpty_iff, ← ExtTreeSet.isEmpty_toList, List.isEmpty_iff]
          exact List.head?_eq_none_iff.mp hfirst
        obtain ⟨hobjects, hused⟩ := hfits.eq_empty hqueue
        rw [hobjects, size_empty] at hfull
        rw [hused]
        exact .inr ⟨zone, rfl, hfits, hobjects, by omega⟩
      | some entry =>
        have hentry : entry ∈ zone.evictionQueue :=
          ExtTreeSet.mem_toList.mp (List.mem_of_head? hfirst)
        have hleft := hfits.removeObject entry.objectId
        have hsize : (zone.evict entry).evictionQueue.size < turns := by
          have herase : (zone.evict entry).evictionQueue = zone.evictionQueue.erase entry := by
            rw [evict]
            split <;> rfl
          have hpos : zone.evictionQueue.size ≠ 0 := by
            intro hzero
            rw [ExtTreeSet.eq_empty_iff_size_eq_zero.mpr hzero] at hentry
            exact not_mem_empty hentry
          rw [herase, ExtTreeSet.size_erase, if_pos (ExtTreeSet.mem_iff_contains.mp hentry)]
          omega
        simp only [hfits.evict_eq hentry] at hsize ⊢
        rcases ih hleft hsize with ⟨left, heq, hfitsLeft, hsub, hroom⟩ | herror
        · exact .inl ⟨left, heq, hfitsLeft, fun id object hobject =>
            (getElem?_removeObject.mp (hsub id object hobject)).2, hroom⟩
        · exact .inr herror
    · exact .inl ⟨zone, rfl, hfits, fun _ _ h => h, by omega, by omega⟩

end

/-- A new object with room for it keeps what a zone keeps. -/
theorem Fits.add (hfits : zone.Fits policy object.zoneId) (hnew : object.objectId ∉ zone.objects)
    (hsize : zone.objects.size < policy.maxQuarantineObjectsPerZone)
    (hbytes : zone.usedBytes + object.data.length ≤ policy.maxQuarantineBytesPerZone) :
    (zone.add object).Fits policy object.zoneId := by
  refine ⟨?_, ?_, ?_, ?_, hbytes, ?_⟩
  · intro id other h
    rcases getElem?_insert_eq_some.mp h with ⟨hid, rfl⟩ | ⟨-, h⟩
    · exact hid
    · exact hfits.objectId_eq id other h
  · intro id other h
    rcases getElem?_insert_eq_some.mp h with ⟨-, rfl⟩ | ⟨-, h⟩
    · rfl
    · exact hfits.zoneId_eq id other h
  · intro entry
    simp only [ZoneQuarantine.add, getElem?_insert_eq_some]
    rw [ExtTreeSet.mem_insert, LawfulEqCmp.compare_eq_iff_eq, hfits.mem_evictionQueue]
    constructor
    · rintro (rfl | ⟨other, hother, hentry⟩)
      · exact ⟨object, .inl ⟨rfl, rfl⟩, rfl⟩
      · refine ⟨other, .inr ⟨fun hid => ?_, hother⟩, hentry⟩
        rw [← hid, getElem?_eq_none hnew] at hother
        cases hother
    · rintro ⟨other, ⟨hid, rfl⟩ | ⟨-, hother⟩, hentry⟩
      · exact .inl (by rw [hid, hentry])
      · exact .inr ⟨other, hother, hentry⟩
  · rw [ZoneQuarantine.add, entrySum_insert hnew, hfits.usedBytes_eq]
  · rw [ZoneQuarantine.add, size_insert]
    split <;> omega

/-- A zone accepts an object, or it is emptied for an object that can never fit. -/
theorem quarantine_cases (hfits : zone.Fits policy object.zoneId) :
    (∃ left, zone.quarantine policy object = (.ok (), left) ∧ left.Fits policy object.zoneId ∧
        object.objectId ∈ left.objects ∧
        (object.objectId ∈ zone.objects ∨
          policy.maxQuarantineObjectsPerZone ≠ 0 ∧
            object.data.length ≤ policy.maxQuarantineBytesPerZone)) ∨
      ∃ left, zone.quarantine policy object =
          (.error (.quotaExceeded 0 policy.maxQuarantineBytesPerZone), left) ∧
        left.Fits policy object.zoneId ∧ left.objects = ∅ ∧ object.objectId ∉ zone.objects ∧
        (policy.maxQuarantineObjectsPerZone = 0 ∨
          policy.maxQuarantineBytesPerZone < object.data.length) := by
  rw [quarantine]
  split_ifs with hmem
  · exact .inl ⟨zone, rfl, hfits, hmem, .inl hmem⟩
  · rcases makeRoom_cases hfits object.data.length (Nat.lt_succ_self _) with
      ⟨left, heq, hleft, hsub, hsize, hbytes⟩ | ⟨left, heq, hleft, hempty, hfull⟩
    · have hnew : object.objectId ∉ left.objects := by
        intro hin
        refine hmem ?_
        rw [mem_iff_isSome_getElem?,
          hsub _ _ (getElem?_eq_some_getElem hin)]
        rfl
      rw [heq]
      refine .inl ⟨left.add object, rfl, hleft.add hnew hsize hbytes, ?_,
        .inr ⟨by omega, by omega⟩⟩
      exact mem_insert_self
    · rw [heq]
      exact .inr ⟨left, rfl, hleft, hempty, hmem, hfull⟩

end ZoneQuarantine

/-! ### The store -/

/-- `QuarantineStore`. Its zones fit their quotas. -/
structure QuarantineStore where
  policy : ObjectAdmissionPolicy
  zones : ExtTreeMap ZoneId ZoneQuarantine
  fits : ∀ (zoneId : ZoneId) (zone : ZoneQuarantine),
    zones[zoneId]? = some zone → zone.Fits policy zoneId

namespace QuarantineStore

def new (policy : ObjectAdmissionPolicy) : QuarantineStore where
  policy := policy
  zones := ∅
  fits zoneId zone h := by simp at h

variable (store : QuarantineStore) (zoneId : ZoneId)

/-- The quarantine of a zone, a new one if there is none (`entry().or_insert_with`). -/
def zone : ZoneQuarantine :=
  store.zones[zoneId]?.getD .new

theorem fits_zone : (store.zone zoneId).Fits store.policy zoneId := by
  rw [zone]
  cases hzone : store.zones[zoneId]? with
  | none => exact ZoneQuarantine.fits_new store.policy zoneId
  | some zone => exact store.fits zoneId zone hzone

/-- A store with another quarantine for a zone. -/
def setZone (zone : ZoneQuarantine) (hfits : zone.Fits store.policy zoneId) : QuarantineStore where
  policy := store.policy
  zones := store.zones.insert zoneId zone
  fits other zone' h := by
    rcases getElem?_insert_eq_some.mp h with ⟨rfl, rfl⟩ | ⟨-, h⟩
    · exact hfits
    · exact store.fits other zone' h

/-- `evict_expired`: every zone is swept. -/
def evictExpired (now : ℕ) : QuarantineStore where
  policy := store.policy
  zones := store.zones.map fun _ zone => zone.evictExpired store.policy.quarantineTtlSecs now
  fits zoneId zone h := by
    rw [getElem?_map, Option.map_eq_some_iff] at h
    obtain ⟨before, hbefore, rfl⟩ := h
    exact (store.fits zoneId before hbefore).foldl_removeObject _

/-- The number of objects that `evict_expired` evicts. -/
def expiredCount (now : ℕ) : ℕ :=
  (store.zones.toList.map fun entry =>
    (entry.2.expiredIds store.policy.quarantineTtlSecs now).length).sum

/-- `quarantine`: a sweep at the time of receipt, then the zone of the object. -/
def quarantine (object : QuarantinedObject) : Except QuarantineError Unit × QuarantineStore :=
  let swept := store.evictExpired object.receivedAt
  let result := (swept.zone object.zoneId).quarantine swept.policy object
  (result.1, swept.setZone object.zoneId result.2 (by
    rcases ZoneQuarantine.quarantine_cases (swept.fits_zone object.zoneId) with
      ⟨left, heq, hleft, -⟩ | ⟨left, heq, hleft, -⟩
    · rw [show result = (.ok (), left) from heq]
      exact hleft
    · rw [show result = (.error _, left) from heq]
      exact hleft))

def contains (id : ObjectId) : Bool :=
  store.zones.toList.any fun entry => entry.2.objects.contains id

/-- `remove`: the object leaves the first zone, in the order in which the zones are visited,
that holds it. -/
def remove (order : List ZoneId) (id : ObjectId) :
    Except QuarantineError QuarantinedObject × QuarantineStore :=
  match order.findSome? fun zoneId => (store.zone zoneId).objects[id]?.map (zoneId, ·) with
  | some (zoneId, object) =>
    (.ok object, store.setZone zoneId ((store.zone zoneId).removeObject id)
      ((store.fits_zone zoneId).removeObject id))
  | none => (.error (.notFound id), store)

inductive PromotionReason
  | reachableFromCheckpoint (checkpointId : ObjectId)
  | authenticatedPeerRequest (peerId : ℕ) (requestToken : List UInt8)
  | localPin (reason : String)

def validatePromotionReason (id : ObjectId) : PromotionReason → Except QuarantineError Unit
  | .reachableFromCheckpoint checkpointId =>
    if checkpointId = id then .error (.promotionDenied "Object cannot be reachable from itself")
    else .ok ()
  | .authenticatedPeerRequest peerId requestToken =>
    if requestToken.isEmpty then
      .error (.promotionDenied "Authenticated peer request requires a valid request token")
    else if peerId = 0 then .error (.promotionDenied "Invalid peer ID")
    else .ok ()
  | .localPin reason =>
    if reason.isEmpty then
      .error (.promotionDenied "Local pin requires a reason for audit trail")
    else .ok ()

def promote (order : List ZoneId) (id : ObjectId) (reason : PromotionReason) (schemaValid : Bool) :
    Except QuarantineError QuarantinedObject × QuarantineStore :=
  if store.contains id = false then (.error (.notFound id), store)
  else
    match validatePromotionReason id reason with
    | .error e => (.error e, store)
    | .ok () =>
      if store.policy.requireSchemaValidation && !schemaValid then
        (.error (.schemaValidationFailed
          "Schema validation is required but object failed validation"), store)
      else store.remove order id

variable {store : QuarantineStore} {zoneId : ZoneId} {id : ObjectId} {object : QuarantinedObject}

variable (store zoneId) in
/-- An object is quarantined in a zone and has not expired. -/
def Fresh (now : ℕ) (id : ObjectId) (object : QuarantinedObject) : Prop :=
  (store.zone zoneId).objects[id]? = some object ∧
    ZoneQuarantine.expired store.policy.quarantineTtlSecs now object = false

theorem zone_setZone {zone : ZoneQuarantine} (hfits : zone.Fits store.policy zoneId)
    (other : ZoneId) :
    (store.setZone zoneId zone hfits).zone other =
      if zoneId = other then zone else store.zone other := by
  rw [QuarantineStore.zone, setZone, getElem?_insert_eq]
  split_ifs <;> rfl

theorem getElem?_evictExpired {now : ℕ} :
    ((store.evictExpired now).zone zoneId).objects[id]? = some object ↔
      store.Fresh zoneId now id object := by
  rw [Fresh, ← ZoneQuarantine.getElem?_evictExpired, zone, zone, evictExpired,
    getElem?_map]
  cases store.zones[zoneId]? with
  | none =>
    rw [ZoneQuarantine.getElem?_evictExpired]
    simp [ZoneQuarantine.new]
  | some zone => rfl

variable (store object) in
/-- If an object is rejected, what was fresh in any zone is still there. -/
def RejectionHarmless : Prop :=
  ∀ e, (store.quarantine object).1 = .error e →
    ∀ (zoneId : ZoneId) (id : ObjectId) (other : QuarantinedObject),
      store.Fresh zoneId object.receivedAt id other →
        ((store.quarantine object).2.zone zoneId).objects[id]? = some other

/-- Rejecting an object is harmless exactly when the object is not larger than the quota, or it
is quarantined already, or nothing fresh is quarantined in its zone. -/
theorem rejectionHarmless_iff (store : QuarantineStore) (object : QuarantinedObject) :
    store.RejectionHarmless object ↔
      object.data.length ≤ store.policy.maxQuarantineBytesPerZone ∨
        (∃ other, store.Fresh object.zoneId object.receivedAt object.objectId other) ∨
        ∀ id other, ¬ store.Fresh object.zoneId object.receivedAt id other := by
  have hfits := (store.evictExpired object.receivedAt).fits_zone object.zoneId
  have hmem : object.objectId ∈ ((store.evictExpired object.receivedAt).zone
      object.zoneId).objects ↔
        ∃ other, store.Fresh object.zoneId object.receivedAt object.objectId other := by
    simp only [← getElem?_evictExpired, mem_iff_isSome_getElem?, Option.isSome_iff_exists]
  rcases ZoneQuarantine.quarantine_cases hfits with
    ⟨left, heq, -, -, hroom⟩ | ⟨left, heq, -, hempty, hnew, hfull⟩
  · -- the object is accepted
    have hok : (store.quarantine object).1 = .ok () := congrArg Prod.fst heq
    refine iff_of_true (fun e he => ?_) ?_
    · cases hok.symm.trans he
    · rcases hroom with hin | ⟨-, hsize⟩
      · exact .inr (.inl (hmem.mp hin))
      · exact .inl hsize
  · -- the object is rejected, and its zone is empty
    have herror : (store.quarantine object).1 =
        .error (.quotaExceeded 0 store.policy.maxQuarantineBytesPerZone) := congrArg Prod.fst heq
    have hzone : ((store.quarantine object).2.zone object.zoneId).objects = ∅ := by
      rw [quarantine, zone_setZone, if_pos rfl]
      exact (congrArg (fun result => result.2.objects) heq).trans hempty
    have hnothing : store.RejectionHarmless object ↔
        ∀ id other, ¬ store.Fresh object.zoneId object.receivedAt id other := by
      constructor
      · intro hharmless id other hfresh
        have hkept := hharmless _ herror object.zoneId id other hfresh
        rw [hzone] at hkept
        cases hkept
      · intro hnone e _ zoneId id other hfresh
        have hne : object.zoneId ≠ zoneId := by
          rintro rfl
          exact hnone id other hfresh
        rw [quarantine, zone_setZone, if_neg hne]
        exact getElem?_evictExpired.mpr hfresh
    rw [hnothing]
    constructor
    · exact fun hnone => .inr (.inr hnone)
    · rintro (hsize | hfresh | hnone)
      · -- no objects are allowed, so that none are there
        have hmax := hfull.resolve_right (Nat.not_lt.mpr hsize)
        have hzero := Nat.le_zero.mp (hfits.size_le.trans hmax.le)
        intro id other hfresh
        have hobject := getElem?_evictExpired.mpr hfresh
        rw [eq_empty_iff_size_eq_zero.mpr hzero] at hobject
        cases hobject
      · exact absurd (hmem.mpr hfresh) hnew
      · exact hnone

def demoQuarantined (n : UInt8) (bytes : ℕ) : QuarantinedObject where
  objectId := List.Vector.replicate 32 n
  zoneId := "z:test"
  data := List.replicate bytes n
  sourcePeer := some n.toNat
  receivedAt := 1000
  peerReputation := 50

def demoAdmissionPolicy : ObjectAdmissionPolicy :=
  { ObjectAdmissionPolicy.default with maxQuarantineBytesPerZone := 10 }

/-- A store with one object of five bytes. -/
def demoQuarantineStore : QuarantineStore :=
  ((new demoAdmissionPolicy).quarantine (demoQuarantined 1 5)).2

/-- One peer's object of eleven bytes is rejected, and the object of another peer is gone. -/
theorem rejected_object_flushes_zone :
    demoQuarantineStore.Fresh "z:test" 1000 (demoQuarantined 1 5).objectId
        (demoQuarantined 1 5) ∧
      (demoQuarantineStore.quarantine (demoQuarantined 2 11)).1 =
        .error (.quotaExceeded 0 10) ∧
      ((demoQuarantineStore.quarantine (demoQuarantined 2 11)).2.zone "z:test").objects[
        (demoQuarantined 1 5).objectId]? = none ∧
      ¬ demoQuarantineStore.RejectionHarmless (demoQuarantined 2 11) := by
  have hfresh : demoQuarantineStore.Fresh "z:test" 1000 (demoQuarantined 1 5).objectId
      (demoQuarantined 1 5) := ⟨by decide +kernel, by decide +kernel⟩
  refine ⟨hfresh, by decide +kernel, by decide +kernel, fun hharmless => ?_⟩
  have hkept := hharmless (.quotaExceeded 0 10) (by decide +kernel) "z:test" _ _ hfresh
  exact absurd hkept (by decide +kernel)

/-! ### Runs and freshness -/

inductive QuarantineCall
  | quarantine (object : QuarantinedObject)
  | remove (order : List ZoneId) (id : ObjectId)
  | promote (order : List ZoneId) (id : ObjectId) (reason : PromotionReason) (schemaValid : Bool)
  | evictExpired (now : ℕ)

def call (store : QuarantineStore) : QuarantineCall → QuarantineStore
  | .quarantine object => (store.quarantine object).2
  | .remove order id => (store.remove order id).2
  | .promote order id reason schemaValid => (store.promote order id reason schemaValid).2
  | .evictExpired now => store.evictExpired now

/-- The stores after all sequences of calls. -/
def run (policy : ObjectAdmissionPolicy) (calls : List QuarantineCall) : QuarantineStore :=
  calls.foldl call (new policy)

variable (store) (order : List ZoneId) (id) (now : ℕ)

def containsFresh : Bool :=
  order.any fun zoneId => (store.zone zoneId).objects[id]?.any fun object =>
    now - object.receivedAt ≤ store.policy.quarantineTtlSecs

/-- `get_fresh`: the first copy, in the order in which the zones are visited, decides. -/
def getFresh : Option QuarantinedObject :=
  (order.findSome? fun zoneId => (store.zone zoneId).objects[id]?).bind fun object =>
    if store.policy.quarantineTtlSecs < now - object.receivedAt then none else some object

/-- Both freshness queries agree, in whatever order the zones are visited. -/
def FreshViewsAgree : Prop :=
  ∀ order : List ZoneId, order.Perm store.zones.keys →
    (store.containsFresh id order now = true ↔ (store.getFresh id order now).isSome = true)

variable {store order id now}

theorem containsFresh_iff : store.containsFresh id order now = true ↔
    ∃ zoneId ∈ order, ∃ object, store.Fresh zoneId now id object := by
  simp [containsFresh, Fresh, ZoneQuarantine.expired, Option.any_eq_true]

theorem mem_of_perm_keys (hperm : order.Perm store.zones.keys)
    (hobject : (store.zone zoneId).objects[id]? = some object) : zoneId ∈ order := by
  rw [hperm.mem_iff, mem_keys, mem_iff_isSome_getElem?]
  rw [QuarantineStore.zone] at hobject
  cases hzone : store.zones[zoneId]? with
  | none => simp [hzone, ZoneQuarantine.new] at hobject
  | some zone => rfl

/-- After every run the books of every zone are right and its quotas hold. The freshness queries
agree exactly when the copies of the object in different zones are all fresh or all expired. -/
theorem fits_and_views_agree_iff (policy : ObjectAdmissionPolicy) (calls : List QuarantineCall)
    (id : ObjectId) (now : ℕ) :
    (∀ zoneId, ((run policy calls).zone zoneId).Fits (run policy calls).policy zoneId) ∧
        (run policy calls).FreshViewsAgree id now ↔
      ∀ zoneId zoneId' object object',
        ((run policy calls).zone zoneId).objects[id]? = some object →
        ((run policy calls).zone zoneId').objects[id]? = some object' →
        ((run policy calls).Fresh zoneId now id object ↔
          (run policy calls).Fresh zoneId' now id object') := by
  set store := run policy calls
  rw [and_iff_right store.fits_zone]
  constructor
  · intro hagree
    -- A zone with an expired copy that is visited first hides a fresh one.
    have hkeep : ∀ zoneId zoneId' object object', store.Fresh zoneId now id object →
        (store.zone zoneId').objects[id]? = some object' → store.Fresh zoneId' now id object' := by
      intro zoneId zoneId' object object' hfresh hobject'
      have hperm := (List.perm_cons_erase (mem_of_perm_keys (.refl _) hobject')).symm
      have hsome := (hagree _ hperm).mp
        (containsFresh_iff.mpr ⟨zoneId, mem_of_perm_keys hperm hfresh.1, object, hfresh⟩)
      simpa [getFresh, hobject', Fresh, ZoneQuarantine.expired] using hsome
    intro zoneId zoneId' object object' hobject hobject'
    exact ⟨fun h => hkeep _ _ _ _ h hobject', fun h => hkeep _ _ _ _ h hobject⟩
  · intro hsame order hperm
    rw [containsFresh_iff, getFresh]
    cases hfirst : order.findSome? fun zoneId => (store.zone zoneId).objects[id]? with
    | none =>
      have hnone := List.findSome?_eq_none_iff.mp hfirst
      simp +contextual [Fresh, hnone]
    | some object =>
      obtain ⟨zoneId, hmem, hobject⟩ := List.exists_of_findSome?_eq_some hfirst
      have hiff : (∃ zoneId ∈ order, ∃ object, store.Fresh zoneId now id object) ↔
          store.Fresh zoneId now id object :=
        ⟨fun ⟨_, _, _, h⟩ => (hsame _ _ _ _ h.1 hobject).mp h, fun h => ⟨_, hmem, _, h⟩⟩
      rw [hiff]
      simp [Fresh, hobject, ZoneQuarantine.expired]

/-- One object is quarantined in two zones, 3000 seconds apart. -/
def demoCopies : List QuarantineCall :=
  [.quarantine { demoQuarantined 1 5 with zoneId := "z:a", receivedAt := 0 },
    .quarantine { demoQuarantined 1 5 with zoneId := "z:b", receivedAt := 3000 }]

/-- The older copy is in the zone that is visited first. -/
theorem expired_copy_hides_fresh_one :
    (run .default demoCopies).zones.keys = ["z:a", "z:b"] ∧
      (run .default demoCopies).containsFresh (demoQuarantined 1 5).objectId ["z:a", "z:b"] 4000 ∧
      (run .default demoCopies).getFresh (demoQuarantined 1 5).objectId ["z:a", "z:b"] 4000 =
        none := by
  decide +kernel

end QuarantineStore

end Flywheel.Store
