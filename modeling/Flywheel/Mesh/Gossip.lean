import Flywheel.Data.Cbor
import Flywheel.Mesh.GossipFilter
import Flywheel.Mesh.Iblt

/-!
# Gossip state of a zone

`GossipState` of `fcp-mesh` with the sketch it puts into its summaries. The admitted
objects and the symbols are authoritative. Two filters, the summary sketch and the cached
sketch are kept up to date incrementally, and removing an object rebuilds the filters.
The signature of a summary is attached later and left out.
-/

namespace Flywheel.Mesh

open Flywheel.Core Flywheel.Data
open Std (ExtTreeMap ExtTreeSet LawfulEqCmp TransCmp)

/-- `BTreeSet<ObjectId>`. -/
abbrev ObjectSet := ExtTreeSet ObjectId objectIdCmp

/-- `BTreeMap<ObjectId, BTreeSet<u32>>`. -/
abbrev SymbolMap := ExtTreeMap ObjectId (ExtTreeSet UInt32) objectIdCmp

/-- The fields of `GossipConfig` that summaries depend on. -/
structure GossipConfig where
  maxObjectsPerSummary : ℕ
  maxSymbolsPerSummary : ℕ
  reconciliationBatchSize : ℕ

def minIbltBytesBudget : ℕ := 8192

def maxIbltBytesCap : ℕ := 16 * 1024 * 1024

def GossipConfig.maxIbltBytes (config : GossipConfig) : ℕ :=
  let derived := min (config.reconciliationBatchSize * 128) usizeMax
  if derived < minIbltBytesBudget then minIbltBytesBudget
  else if derived > maxIbltBytesCap then maxIbltBytesCap
  else derived

variable (expectedDifference : ℕ)

def Iblt.withExpectedDifference : Iblt :=
  ⟨List.replicate (Iblt.recommendedCellCount expectedDifference) .default⟩

theorem Iblt.le_recommendedCellCount :
    minRecommendedIbltCells ≤ Iblt.recommendedCellCount expectedDifference := by
  unfold Iblt.recommendedCellCount
  dsimp only
  split_ifs with hlt
  · exact le_refl _
  · exact not_lt.mp hlt

theorem Iblt.withCellCount_recommendedCellCount :
    Iblt.withCellCount (Iblt.recommendedCellCount expectedDifference) =
      .ok (Iblt.withExpectedDifference expectedDifference) := by
  have hle := Iblt.le_recommendedCellCount expectedDifference
  rw [Iblt.withCellCount, if_neg]
  · rfl
  · rw [minRecommendedIbltCells] at hle
    rw [ibltHashCount]
    omega

/-! ### The encoding of a sketch -/

/-- A number in the range of `i32`, as a CBOR integer. -/
def i32Value (n : ℤ) : Cbor.Value :=
  .integer ⟨saturateI32 n, by unfold saturateI32; omega⟩

/-- A natural number that fits a head, as a CBOR integer. -/
def natValue (n : ℕ) (h : n < 2 ^ 64) : Cbor.Value := .integer ⟨n, by omega⟩

def byteValue (b : UInt8) : Cbor.Value :=
  natValue b.toNat (lt_of_lt_of_le b.toNat_lt (by decide))

/-- What `serde` makes of a cell: a map with the names of the fields, the key as an array of
numbers. -/
def IbltCell.value (cell : IbltCell) : Cbor.Value :=
  .map [(.text "count", i32Value cell.count),
    (.text "key_sum", .array (cell.keySum.toList.map byteValue)),
    (.text "hash_check",
      natValue cell.hashCheck.toNat (lt_of_lt_of_le cell.hashCheck.toNat_lt (by decide)))]

/-- What `serde` makes of a table. -/
def Iblt.value (t : Iblt) : Cbor.Value :=
  .map [(.text "cells", .array (t.cells.map IbltCell.value))]

structure IbltPlaceholder where
  mask : IbltMask
  iblt : Iblt
  cellCount : ℕ
  changeSeq : ℕ
  deriving DecidableEq

inductive IbltDecodeError
  | tooLarge (len max : ℕ)
  | invalidEncoding
  | tooManyChanges (decoded max : ℕ)
  deriving DecidableEq

namespace IbltPlaceholder

def withMask (maxChanges : ℕ) (mask : IbltMask) : IbltPlaceholder :=
  ⟨mask, Iblt.withExpectedDifference maxChanges, Iblt.recommendedCellCount maxChanges, 0⟩

def withMaxChanges (maxChanges : ℕ) : IbltPlaceholder := withMask maxChanges (Bytes.zeros 32)

variable (blake3 : List UInt8 → Bytes 32) (p : IbltPlaceholder)

def noteLocalChange (objectId : ObjectId) : IbltPlaceholder :=
  { p with iblt := p.iblt.insert blake3 (p.mask.apply objectId), changeSeq := p.changeSeq + 1 }

def noteLocalDelete (objectId : ObjectId) : IbltPlaceholder :=
  { p with iblt := p.iblt.delete blake3 (p.mask.apply objectId), changeSeq := p.changeSeq + 1 }

def encode : List UInt8 := Cbor.encode p.iblt.value

/-- `decode_with_limits`, for what `ciborium::from_reader` reads. -/
def decodeWithLimits (fromReader : List UInt8 → Option Iblt) (bytes : List UInt8)
    (maxChanges maxBytes : ℕ) : Except IbltDecodeError IbltPlaceholder :=
  if bytes.length > maxBytes then .error (.tooLarge bytes.length maxBytes)
  else if bytes = [] then .ok (withMaxChanges maxChanges)
  else
    match fromReader bytes with
    | none => .error .invalidEncoding
    | some iblt =>
      let cellCap := Iblt.recommendedCellCount maxChanges
      if iblt.cells.length > cellCap then .error (.tooManyChanges iblt.cells.length cellCap)
      else .ok ⟨Bytes.zeros 32, iblt, iblt.cells.length, 0⟩

end IbltPlaceholder

/-! ### The state -/

structure GossipState (Xor8 : Type) where
  zoneId : ZoneId
  objectFilter : XorFilterPlaceholder Xor8
  symbolFilter : XorFilterPlaceholder Xor8
  ibltState : IbltPlaceholder
  ibltMask : IbltMask
  admittedObjects : ObjectSet
  symbolAvailability : SymbolMap
  lastUpdated : UInt64
  cachedIblt : Iblt
  cachedIbltCellCount : ℕ

/-- `GossipSummary`, before it is signed. -/
structure GossipSummary where
  sender : NodeId
  zoneId : ZoneId
  epochId : String
  objectFilterDigest : Bytes 32
  symbolFilterDigest : Bytes 32
  objectCount : ℕ
  symbolCount : ℕ
  iblt : List UInt8
  timestamp : UInt64
  deriving DecidableEq

def symbolKey (objectId : ObjectId) (esi : UInt32) : List UInt8 :=
  objectId.toList ++ leBytes 4 esi.toNat

namespace GossipState

variable (blake3 : List UInt8 → Bytes 32) {Xor8 : Type} (xorf : Xorf Xor8)

def new (zoneId : ZoneId) (config : GossipConfig) : GossipState Xor8 where
  zoneId := zoneId
  objectFilter := .new
  symbolFilter := .new
  ibltState := .withMask config.reconciliationBatchSize (IbltMask.forZone blake3 zoneId)
  ibltMask := IbltMask.forZone blake3 zoneId
  admittedObjects := ∅
  symbolAvailability := ∅
  lastUpdated := 0
  cachedIblt := .withExpectedDifference config.reconciliationBatchSize
  cachedIbltCellCount := Iblt.recommendedCellCount config.reconciliationBatchSize

variable (s : GossipState Xor8) (objectId : ObjectId)

def announceObject (now : UInt64) : GossipState Xor8 :=
  if objectId ∈ s.admittedObjects then s
  else
    { s with
      admittedObjects := s.admittedObjects.insert objectId
      objectFilter := s.objectFilter.insert blake3 objectId.toList
      ibltState := s.ibltState.noteLocalChange blake3 objectId
      cachedIblt := s.cachedIblt.insert blake3 (s.ibltMask.apply objectId)
      lastUpdated := now }

variable (esi : UInt32)

/-- The second half of `announce_symbol`, for an object that is tracked. -/
def addSymbol (now : UInt64) : GossipState Xor8 :=
  let symbols := s.symbolAvailability[objectId]?.getD ∅
  if esi ∈ symbols then s
  else
    { s with
      symbolAvailability := s.symbolAvailability.insert objectId (symbols.insert esi)
      symbolFilter := s.symbolFilter.insert blake3 (symbolKey objectId esi)
      lastUpdated := now }

def announceSymbol (now : UInt64) : GossipState Xor8 :=
  let tracked := if objectId ∈ s.admittedObjects then s else s.announceObject blake3 objectId now
  tracked.addSymbol blake3 objectId esi now

def rebuildFilters : GossipState Xor8 :=
  { s with
    objectFilter := s.admittedObjects.toList.foldl
      (fun filter objectId => filter.insert blake3 objectId.toList) .new
    symbolFilter := s.symbolAvailability.toList.foldl
      (fun filter entry => entry.2.toList.foldl
        (fun filter esi => filter.insert blake3 (symbolKey entry.1 esi)) filter) .new }

/-- The first half of `remove_object`, for an object that is admitted. -/
def dropObject : GossipState Xor8 :=
  { s with
    admittedObjects := s.admittedObjects.erase objectId
    ibltState := s.ibltState.noteLocalDelete blake3 objectId
    cachedIblt := s.cachedIblt.delete blake3 (s.ibltMask.apply objectId) }

def removeObject (now : UInt64) : GossipState Xor8 :=
  let dropped := if objectId ∈ s.admittedObjects then s.dropObject blake3 objectId else s
  { rebuildFilters blake3
      { dropped with symbolAvailability := dropped.symbolAvailability.erase objectId } with
    lastUpdated := now }

/-- `may_have_object`, with the state as the query leaves it. -/
def mayHaveObject : Bool × GossipState Xor8 :=
  let answer := s.objectFilter.mayContain blake3 xorf objectId.toList
  (answer.1, { s with objectFilter := answer.2 })

/-- `may_have_symbol`, with the state as the query leaves it. -/
def mayHaveSymbol : Bool × GossipState Xor8 :=
  let answer := s.symbolFilter.mayContain blake3 xorf (symbolKey objectId esi)
  (answer.1, { s with symbolFilter := answer.2 })

def hasObject : Bool := objectId ∈ s.admittedObjects

def hasSymbol : Bool :=
  s.symbolAvailability[objectId]?.any fun symbols => esi ∈ symbols

def symbolCount : ℕ :=
  (s.symbolAvailability.values.map ExtTreeSet.size).sum

def createSummary (sender : NodeId) (epochId : String) : GossipSummary where
  sender := sender
  zoneId := s.zoneId
  epochId := epochId
  objectFilterDigest := s.objectFilter.digest blake3
  symbolFilterDigest := s.symbolFilter.digest blake3
  objectCount := min s.admittedObjects.size (2 ^ 32 - 1)
  symbolCount := min s.symbolCount (2 ^ 32 - 1)
  iblt := s.ibltState.encode
  timestamp := s.lastUpdated

/-- The slow path of `build_iblt`. -/
def rebuildIblt (expectedDifference : ℕ) : Iblt :=
  s.admittedObjects.toList.foldl
    (fun iblt objectId => iblt.insert blake3 (s.ibltMask.apply objectId))
    (.withExpectedDifference expectedDifference)

def buildIblt (expectedDifference : ℕ) : Iblt :=
  if Iblt.recommendedCellCount expectedDifference = s.cachedIbltCellCount then s.cachedIblt
  else s.rebuildIblt blake3 expectedDifference

end GossipState

/-! ### The node -/

/-- The fields of `MeshGossip` that summaries are made from. -/
structure MeshGossip (Xor8 : Type) where
  localNode : NodeId
  config : GossipConfig
  zoneStates : ZoneId → Option (GossipState Xor8)

/-- `MeshGossip::create_summary`. An empty payload stands for a sketch that was dropped. -/
def MeshGossip.createSummary (blake3 : List UInt8 → Bytes 32) {Xor8 : Type}
    (g : MeshGossip Xor8) (zoneId : ZoneId) (epochId : String) : Option GossipSummary :=
  (g.zoneStates zoneId).map fun state =>
    let summary := state.createSummary blake3 g.localNode epochId
    { summary with
      objectCount := min summary.objectCount (min g.config.maxObjectsPerSummary (2 ^ 32 - 1))
      symbolCount := min summary.symbolCount (min g.config.maxSymbolsPerSummary (2 ^ 32 - 1))
      iblt := if summary.iblt.length > g.config.maxIbltBytes then [] else summary.iblt }

end Flywheel.Mesh
