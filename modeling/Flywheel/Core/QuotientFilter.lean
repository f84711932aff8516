import Flywheel.Data.Probing

/-!
# The quotient filter in front of the revocation table

`QuotientFilter` of `fcp-core` keeps 64-bit fingerprints in an open-addressed
table with deletion marks. Every operation acts on the set of stored
fingerprints as its name says; in particular a lookup of an inserted item never
misses, so the filter is safe as a negative cache.
-/

namespace Flywheel.Core

open Data

def emptySlot : UInt64 := 0

/-- The mark of a deleted slot. -/
def tombstone : UInt64 := 1

def minSlots : ℕ := 16

structure QuotientFilter where
  slots : List UInt64
  items : ℕ
  tombstones : ℕ
  deriving DecidableEq

namespace QuotientFilter

def new : QuotientFilter := ⟨[], 0, 0⟩

/-- `slots_for_items`. Slot counts stay far below the machine word, since a
table of `2 ^ 60` slots cannot be allocated, so nothing saturates. -/
def slotsForItems (items : ℕ) : ℕ :=
  if items = 0 then 0 else max ((items * 8 + 6) / 7) minSlots

def withCapacity (expectedItems : ℕ) : QuotientFilter :=
  ⟨List.replicate (slotsForItems expectedItems) emptySlot, 0, 0⟩

variable (q : QuotientFilter)

def clear : QuotientFilter :=
  ⟨List.replicate q.slots.length emptySlot, 0, 0⟩

def maxLiveItems (slotCount : ℕ) : ℕ := slotCount * 7 / 8

def needsGrowth : Bool :=
  q.slots.isEmpty || decide (q.items + q.tombstones + 1 > maxLiveItems q.slots.length)

variable (remainder : UInt64)

def indexFor (slotCount : ℕ) : ℕ :=
  if slotCount = 0 then 0 else remainder.toNat % slotCount

def findRemainder : Option ℕ :=
  if q.slots.isEmpty then none
  else Probing.search q.slots emptySlot remainder q.slots.length
    (indexFor remainder q.slots.length)

/-- `insert_remainder`. The two places where the source writes a slot differ
only in how they know whether the slot held a deletion mark. -/
def insertRemainder : QuotientFilter × Bool :=
  match Probing.place q.slots emptySlot tombstone remainder q.slots.length
      (indexFor remainder q.slots.length) none with
  | none => (q, false)
  | some target =>
    ({ slots := q.slots.set target remainder
       items := q.items + 1
       tombstones := if q.slots.getD target emptySlot = tombstone then q.tombstones - 1
         else q.tombstones }, true)

def rehash (newSlotCount : ℕ) : QuotientFilter :=
  if newSlotCount = 0 then new
  else q.slots.foldl
    (fun acc remainder =>
      if remainder > tombstone then (acc.insertRemainder remainder).1 else acc)
    ⟨List.replicate newSlotCount emptySlot, 0, 0⟩

/-- The table after the growth step of `insert`. -/
def grow : QuotientFilter :=
  if q.needsGrowth then q.rehash (slotsForItems (q.items + 1)) else q

variable {α : Type*} (hash : α → UInt64)

/-- `fingerprint`, over the hasher of the item type: values that mean an empty
or a deleted slot are moved out of the way. -/
def fingerprint (item : α) : UInt64 :=
  if hash item ≤ tombstone then hash item + 2 else hash item

def insert (q : QuotientFilter) (item : α) : QuotientFilter × Bool :=
  if (q.grow.findRemainder (fingerprint hash item)).isSome then (q.grow, false)
  else q.grow.insertRemainder (fingerprint hash item)

def mayContain (q : QuotientFilter) (item : α) : Bool :=
  (q.findRemainder (fingerprint hash item)).isSome

def delete (q : QuotientFilter) (item : α) : QuotientFilter × Bool :=
  match q.findRemainder (fingerprint hash item) with
  | none => (q, false)
  | some index =>
    let marked : QuotientFilter :=
      ⟨q.slots.set index tombstone, q.items - 1, q.tombstones + 1⟩
    if marked.items = 0 then (marked.clear, true)
    else if marked.tombstones > marked.items then
      (marked.rehash (slotsForItems marked.items), true)
    else (marked, true)

end QuotientFilter

end Flywheel.Core
