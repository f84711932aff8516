import Flywheel.Data.Bytes
import Mathlib.Data.String.Basic

/-!
# Identifiers

Object, node and zone identifiers of `fcp-core`. Object ids are 32 raw bytes,
node and zone ids are strings.
-/

namespace Flywheel.Core

open Std (LawfulEqCmp TransCmp)

/-- `ObjectId`, 32 bytes. -/
abbrev ObjectId := Data.Bytes 32

/-- `TailscaleNodeId`. -/
abbrev NodeId := String

abbrev ZoneId := String

/-- The order of `ObjectId`: object ids are compared byte by byte. -/
def objectIdCmp : ObjectId → ObjectId → Ordering := compareOn List.Vector.toList

/-- The order of object ids is transitive. -/
instance instTransCmpObjectId : TransCmp objectIdCmp :=
  inferInstanceAs (TransCmp (compareOn List.Vector.toList))

/-- Object ids that compare equal are equal. -/
instance instLawfulEqCmpObjectId : LawfulEqCmp objectIdCmp where
  eq_of_compare h := List.Vector.toList_injective (LawfulEqCmp.eq_of_compare h)

/-- `ObjectId::from_unscoped_bytes`. -/
def objectIdFromUnscopedBytes (blake3 : List UInt8 → Data.Bytes 32) (content : List UInt8) :
    ObjectId :=
  blake3 (Data.utf8 "FCP2-CONTENT-V2" ++ content)

end Flywheel.Core
