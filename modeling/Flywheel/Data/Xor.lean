import Flywheel.Data.Bytes
import Mathlib.Data.Finset.Fold
import Mathlib.Data.Finset.SymmDiff
import Mathlib.Data.Vector.Zip

/-!
# Exclusive or

Exclusive or of byte strings of one length, and the exclusive or over a finite set for
any operation that behaves like it. Adding an element a second time takes it out again,
so combining the values of two sets gives the value of their symmetric difference.
-/

namespace Flywheel.Data

open Finset

namespace Bytes

variable {n : ℕ}

def xor (a b : Bytes n) : Bytes n := List.Vector.zipWith (· ^^^ ·) a b

def zeros (n : ℕ) : Bytes n := List.Vector.replicate n 0

theorem get_xor (a b : Bytes n) (i : Fin n) : (xor a b).get i = a.get i ^^^ b.get i :=
  List.Vector.zipWith_get _ a b i

instance : Std.Commutative (xor (n := n)) where
  comm a b := by
    ext i
    rw [get_xor, get_xor, UInt8.xor_comm]

instance : Std.Associative (xor (n := n)) where
  assoc a b c := by
    ext i
    simp only [get_xor, UInt8.xor_assoc]

theorem xor_self (a : Bytes n) : xor a a = zeros n := by
  ext i
  rw [get_xor, UInt8.xor_self, zeros, List.Vector.get_replicate]

theorem xor_zeros (a : Bytes n) : xor a (zeros n) = a := by
  ext i
  rw [get_xor, zeros, List.Vector.get_replicate, UInt8.xor_zero]

end Bytes

variable {α β : Type*} [DecidableEq α] {op : β → β → β} [Std.Commutative op]
  [Std.Associative op] {zero : β} {f : α → β}

theorem fold_erase (hself : ∀ x, op x x = zero) (hzero : ∀ x, op x zero = x) {S : Finset α}
    {x : α} (hx : x ∈ S) : op (S.fold op zero f) (f x) = (S.erase x).fold op zero f := by
  have hcomm : ∀ a b, op a b = op b a := Std.Commutative.comm
  have hassoc : ∀ a b c, op (op a b) c = op a (op b c) := Std.Associative.assoc
  have hS : (insert x (S.erase x)).fold op zero f = op (f x) ((S.erase x).fold op zero f) :=
    fold_insert (notMem_erase x S)
  rw [insert_erase hx] at hS
  rw [hS, hcomm (f x), hassoc, hself, hzero]

end Flywheel.Data
