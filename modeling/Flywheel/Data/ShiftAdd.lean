import Mathlib.Algebra.Group.Basic

/-!
# Multiplication by shifting and adding

An additive group with an additive doubling map and a unit such that every element is a sum of
doublings of the unit. Shift-and-add multiplication reads the bits of one factor and adds the
doublings of the other one; it is commutative, associative and distributive whatever the doubling
is.
-/

namespace Flywheel.Data

variable {G : Type*} [AddCommMonoid G] {double : G → G}

/-- The sum of those doublings of an element whose bits are set, the lowest bit first. -/
def spread (double : G → G) : List Bool → G → G
  | [], _ => 0
  | bit :: bits, x => (if bit then x else 0) + spread double bits (double x)

/-- An additive map that commutes with the doubling commutes with sums of doublings. -/
theorem map_spread {f : G → G} (hzero : f 0 = 0) (hadd : ∀ x y, f (x + y) = f x + f y)
    (hdouble : ∀ x, f (double x) = double (f x)) (bits : List Bool) (x : G) :
    f (spread double bits x) = spread double bits (f x) := by
  induction bits generalizing x with
  | nil => exact hzero
  | cons bit bits ih =>
    have hbit : f (if bit then x else 0) = if bit then f x else 0 := by
      cases bit
      · exact hzero
      · rfl
    rw [spread, spread, hadd, hbit, ih, hdouble]

variable (hzero : double 0 = 0) (hadd : ∀ x y, double (x + y) = double x + double y)

include hzero in
theorem spread_zero (bits : List Bool) : spread double bits 0 = 0 := by
  induction bits with
  | nil => rfl
  | cons bit bits ih => rw [spread, hzero, ih, ite_self, add_zero]

include hadd in
theorem spread_add (bits : List Bool) (x y : G) :
    spread double bits (x + y) = spread double bits x + spread double bits y := by
  induction bits generalizing x y with
  | nil => exact (add_zero 0).symm
  | cons bit bits ih =>
    have hbit : (if bit then x + y else 0) = (if bit then x else 0) + if bit then y else 0 := by
      cases bit
      · exact (add_zero 0).symm
      · rfl
    rw [spread, spread, spread, hadd, ih, hbit, add_add_add_comm]

include hzero hadd in
theorem spread_comm (bits bits' : List Bool) (x : G) :
    spread double bits (spread double bits' x) = spread double bits' (spread double bits x) :=
  map_spread (spread_zero hzero bits) (spread_add hadd bits)
    (fun x => (map_spread hzero hadd (fun _ => rfl) bits x).symm) bits' x

variable {one : G} {bits : G → List Bool} (hbits : ∀ x, spread double (bits x) one = x)

include hzero hadd hbits in
theorem shiftAdd_comm (x y : G) : spread double (bits y) x = spread double (bits x) y := by
  calc spread double (bits y) x = spread double (bits y) (spread double (bits x) one) := by
        rw [hbits]
    _ = spread double (bits x) (spread double (bits y) one) := spread_comm hzero hadd _ _ _
    _ = spread double (bits x) y := by rw [hbits]

include hzero hadd hbits in
theorem shiftAdd_assoc (x y z : G) :
    spread double (bits z) (spread double (bits y) x) =
      spread double (bits (spread double (bits z) y)) x := by
  calc spread double (bits z) (spread double (bits y) x)
      = spread double (bits z) (spread double (bits x) y) := by
        rw [shiftAdd_comm hzero hadd hbits x y]
    _ = spread double (bits x) (spread double (bits z) y) := spread_comm hzero hadd _ _ _
    _ = spread double (bits (spread double (bits z) y)) x :=
        (shiftAdd_comm hzero hadd hbits x _).symm

end Flywheel.Data
