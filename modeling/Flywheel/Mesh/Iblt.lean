import Flywheel.Core.Ids
import Flywheel.Data.Xor

/-!
# Invertible Bloom lookup tables

`Iblt` and `MaskedIblt` of `fcp-mesh`. Every object is entered into three cells, a cell
sums up its objects, and the difference of two tables is decoded by peeling cells that
hold a single object. Counts are `i32` with saturating arithmetic. BLAKE3 is a
parameter.
-/

namespace Flywheel.Mesh

open Flywheel.Core Flywheel.Data

def ibltHashCount : ℕ := 3

def minRecommendedIbltCells : ℕ := 64

def indexHashDomains : List (List UInt8) :=
  [utf8 "fcp-iblt-h0", utf8 "fcp-iblt-h1", utf8 "fcp-iblt-h2"]

def hashCheckDomain : List UInt8 := utf8 "fcp-iblt-hc"

/-- An `i32` result that saturates at the bounds. -/
def saturateI32 (x : ℤ) : ℤ := max (-2 ^ 31) (min x (2 ^ 31 - 1))

structure IbltCell where
  count : ℤ
  keySum : ObjectId
  /-- Exclusive or of the hash checks of all keys entered into this cell. -/
  hashCheck : UInt32
  deriving DecidableEq

def IbltCell.default : IbltCell := ⟨0, Bytes.zeros 32, 0⟩

inductive IbltError
  | invalidCellCount (got : ℕ)
  | cellCountMismatch (left right : ℕ)
  deriving DecidableEq

structure Iblt where
  cells : List IbltCell
  deriving DecidableEq

structure IbltDecodeResult where
  onlyLeft : Finset ObjectId
  onlyRight : Finset ObjectId
  complete : Bool
  remainingNonzeroCells : ℕ
  deriving DecidableEq

def IbltCell.subtract (cell other : IbltCell) : IbltCell :=
  ⟨saturateI32 (cell.count - other.count), Bytes.xor cell.keySum other.keySum,
    cell.hashCheck ^^^ other.hashCheck⟩

def IbltCell.isZero (cell : IbltCell) : Bool :=
  cell.count = 0 ∧ cell.keySum = Bytes.zeros 32 ∧ cell.hashCheck = 0

def Iblt.withCellCount (cellCount : ℕ) : Except IbltError Iblt :=
  if cellCount < ibltHashCount then .error (.invalidCellCount cellCount)
  else .ok ⟨List.replicate cellCount .default⟩

def Iblt.recommendedCellCount (expectedDifference : ℕ) : ℕ :=
  let scaled := min (min (expectedDifference * 3) (2 ^ 64 - 1) + 1) (2 ^ 64 - 1) / 2
  if scaled < minRecommendedIbltCells then minRecommendedIbltCells else scaled

def Iblt.subtract (t other : Iblt) : Except IbltError Iblt :=
  if t.cells.length ≠ other.cells.length then
    .error (.cellCountMismatch t.cells.length other.cells.length)
  else .ok ⟨List.zipWith IbltCell.subtract t.cells other.cells⟩

/-- The inner loop of `indices_for`, with the number of steps that are left. -/
def avoidIndices (cellCount : ℕ) (used : List ℕ) : ℕ → ℕ → ℕ
  | 0, index => index
  | steps + 1, index =>
    if used.contains index then avoidIndices cellCount used steps ((index + 1) % cellCount)
    else index

section Hash

variable (blake3 : List UInt8 → Bytes 32)

def hashIndex (domain : List UInt8) (key : ObjectId) (cellCount : ℕ) : ℕ :=
  leNat ((blake3 (domain ++ key.toList)).toList.take 8) % cellCount

variable (objectId : ObjectId)

def hashCheckFor : UInt32 :=
  UInt32.ofNat (leNat ((blake3 (hashCheckDomain ++ objectId.toList)).toList.take 4))

def indicesFor (cellCount : ℕ) : List ℕ :=
  indexHashDomains.foldl
    (fun indices domain =>
      indices ++ [avoidIndices cellCount indices cellCount
        (hashIndex blake3 domain objectId cellCount)])
    []

def IbltCell.apply (cell : IbltCell) (objectId : ObjectId) (delta : ℤ) : IbltCell :=
  ⟨saturateI32 (cell.count + delta), Bytes.xor cell.keySum objectId,
    cell.hashCheck ^^^ hashCheckFor blake3 objectId⟩

def IbltCell.pureKey (cell : IbltCell) : Option (ObjectId × ℤ) :=
  if cell.count ≠ 1 ∧ cell.count ≠ -1 then none
  else if cell.hashCheck = hashCheckFor blake3 cell.keySum then
    some (cell.keySum, cell.count.sign)
  else none

variable (t : Iblt) (objectId : ObjectId)

def Iblt.apply (delta : ℤ) : Iblt :=
  ⟨(indicesFor blake3 objectId t.cells.length).foldl
    (fun cells index => cells.modify index fun cell => cell.apply blake3 objectId delta) t.cells⟩

def Iblt.insert : Iblt := t.apply blake3 objectId 1

def Iblt.delete : Iblt := t.apply blake3 objectId (-1)

/-- The variables of `Iblt::decode`. -/
structure DecodeState where
  working : List IbltCell
  /-- Indices of cells that held a single object when they were queued. -/
  pending : List ℕ
  onlyLeft : Finset ObjectId
  onlyRight : Finset ObjectId

/-- Whether the cell at an index holds a single object. The indices in use are in range. -/
def pureAt (working : List IbltCell) (index : ℕ) : Option (ObjectId × ℤ) :=
  working[index]?.bind (IbltCell.pureKey blake3)

/-- The inner loop of `decode`, which takes an object out of its cells and queues the cells
that then hold a single object. -/
def peelCell (sign : ℤ) (state : List IbltCell × List ℕ) (peerIndex : ℕ) : List IbltCell × List ℕ :=
  let working := state.1.modify peerIndex fun cell => cell.apply blake3 objectId (-sign)
  (working, if (pureAt blake3 working peerIndex).isSome then state.2 ++ [peerIndex] else state.2)

/-- One pass of the loop of `decode`, for the index that was taken from the queue. -/
def decodeStep (state : DecodeState) (index : ℕ) (pending : List ℕ) : DecodeState :=
  match pureAt blake3 state.working index with
  | none => { state with pending }
  | some (objectId, sign) =>
    let peeled := (indicesFor blake3 objectId state.working.length).foldl
      (peelCell blake3 objectId sign) (state.working, pending)
    { working := peeled.1
      pending := peeled.2
      onlyLeft := if sign > 0 then Insert.insert objectId state.onlyLeft else state.onlyLeft
      onlyRight := if sign > 0 then state.onlyRight else Insert.insert objectId state.onlyRight }

/-- The loop of `decode`, with the number of pops that are left. -/
def decodeLoop : ℕ → DecodeState → DecodeState
  | 0, state => state
  | pops + 1, state =>
    match state.pending with
    | [] => state
    | index :: pending => decodeLoop pops (decodeStep blake3 state index pending)

/-- `Iblt::decode` with the bound on the pops as an argument. -/
def Iblt.decodeWith (maxPops : ℕ) (t : Iblt) : IbltDecodeResult :=
  let pending := (List.range t.cells.length).filter fun index =>
    (pureAt blake3 t.cells index).isSome
  let final := decodeLoop blake3 maxPops ⟨t.cells, pending, ∅, ∅⟩
  let remaining := final.working.countP fun cell => !cell.isZero
  ⟨final.onlyLeft, final.onlyRight, remaining = 0, remaining⟩

/-- The bound on the pops in `Iblt::decode`. It does not saturate, since a vector of cells
has fewer than `2 ^ 60` of them. -/
def Iblt.maxPops : ℕ := t.cells.length * ibltHashCount + t.cells.length

def Iblt.decode : IbltDecodeResult := t.decodeWith blake3 t.maxPops

end Hash

abbrev IbltMask := Bytes 32

def IbltMask.apply (mask : IbltMask) (objectId : ObjectId) : ObjectId := Bytes.xor objectId mask

def IbltMask.forZone (blake3 : List UInt8 → Bytes 32) (zoneId : ZoneId) : IbltMask :=
  blake3 (utf8 "FCP-MESH-MASKED-IBLT-ZONE-V1" ++ utf8 zoneId)

inductive MaskedIbltError
  | iblt (error : IbltError)
  | maskMismatch
  | decodeIncomplete (remainingNonzeroCells : ℕ)
  deriving DecidableEq

structure MaskedIblt where
  mask : IbltMask
  iblt : Iblt
  deriving DecidableEq

namespace MaskedIblt

def withCellCount (mask : IbltMask) (cellCount : ℕ) : Except IbltError MaskedIblt :=
  (Iblt.withCellCount cellCount).map fun iblt => ⟨mask, iblt⟩

def subtract (t other : MaskedIblt) : Except MaskedIbltError MaskedIblt :=
  if t.mask ≠ other.mask then .error .maskMismatch
  else
    match t.iblt.subtract other.iblt with
    | .error e => .error (.iblt e)
    | .ok iblt => .ok ⟨t.mask, iblt⟩

def unmaskDecodeResult (result : IbltDecodeResult) (mask : IbltMask) : IbltDecodeResult :=
  { result with
    onlyLeft := result.onlyLeft.image mask.apply
    onlyRight := result.onlyRight.image mask.apply }

variable (blake3 : List UInt8 → Bytes 32) (t : MaskedIblt)

def insert (objectId : ObjectId) : MaskedIblt :=
  { t with iblt := t.iblt.insert blake3 (t.mask.apply objectId) }

def delete (objectId : ObjectId) : MaskedIblt :=
  { t with iblt := t.iblt.delete blake3 (t.mask.apply objectId) }

def decode : IbltDecodeResult :=
  unmaskDecodeResult (t.iblt.decode blake3) t.mask

def decodeComplete : Except MaskedIbltError IbltDecodeResult :=
  let result := t.decode blake3
  if result.complete then .ok result
  else .error (.decodeIncomplete result.remainingNonzeroCells)

end MaskedIblt

end Flywheel.Mesh
