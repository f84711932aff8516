import Flywheel.Data.ShiftAdd
import Mathlib.Algebra.CharP.Frobenius
import Mathlib.Algebra.CharP.Two

/-!
# The AES field

Bytes with exclusive or and the Russian peasant multiplication modulo x^8 + x^4 + x^3 + x + 1, as
the secret sharing computes them. The peasant loop is a shift-and-add multiplication, so the bytes
are a commutative ring; every byte is its own 256th power and zero and one are the only idempotents,
so the 254th power is the inverse.
-/

namespace Flywheel.Crypto

open Flywheel.Data

/-- An element of the field: a byte. -/
structure Gf256 where
  value : UInt8
  deriving DecidableEq, Repr

namespace Gf256

def modulus : UInt16 := 0x11B

/-- Shift a word left and reduce it if its high bit was set. -/
def shiftReduce (a : UInt16) : UInt16 :=
  let highBit := (a >>> 7) &&& 1
  let reduceMask := 0 - highBit
  (a <<< 1) ^^^ (modulus &&& reduceMask)

/-- The turns of the multiplication loop: add `a` for a set bit of `b`, double `a`, drop the bit of
`b`. -/
def mulLoop : ℕ → UInt16 → UInt16 → UInt16 → UInt16
  | 0, _, _, result => result
  | turns + 1, a, b, result =>
    let mask := 0 - (b &&& 1)
    let result := result ^^^ (a &&& mask)
    mulLoop turns (shiftReduce a) (b >>> 1) result

/-- Multiplication by the Russian peasant algorithm. -/
instance : Mul Gf256 :=
  ⟨fun a b => ⟨(mulLoop 8 a.value.toUInt16 b.value.toUInt16 0).toUInt8⟩⟩

variable (a : Gf256)

/-- The inverse as the 254th power, by repeated squaring; zero for zero. -/
def inv : Gf256 :=
  let a2 := a * a
  let a4 := a2 * a2
  let a8 := a4 * a4
  let a16 := a8 * a8
  let a32 := a16 * a16
  let a64 := a32 * a32
  let a128 := a64 * a64
  a128 * a64 * a32 * a16 * a8 * a4 * a2

theorem ext {a b : Gf256} (h : a.value = b.value) : a = b := by
  cases a; cases b; exact congrArg mk h

instance : Zero Gf256 := ⟨⟨0⟩⟩

instance : Add Gf256 := ⟨fun a b => ⟨a.value ^^^ b.value⟩⟩

/-- Every byte is its own opposite. -/
instance : Neg Gf256 := ⟨fun a => a⟩

/-- Bytes with exclusive or are a group; subtraction is addition. -/
instance addCommGroup : AddCommGroup Gf256 where
  sub a b := ⟨a.value ^^^ b.value⟩
  add_assoc a b c := ext (UInt8.xor_assoc a.value b.value c.value)
  zero_add a := ext (UInt8.zero_xor (a := a.value))
  add_zero a := ext (UInt8.xor_zero (a := a.value))
  add_comm a b := ext (UInt8.xor_comm a.value b.value)
  neg_add_cancel a := ext (UInt8.xor_self (a := a.value))
  nsmul := nsmulRec
  zsmul := zsmulRec

variable (a b : Gf256)

theorem value_add : (a + b).value = a.value ^^^ b.value := rfl

def double : Gf256 := ⟨(shiftReduce a.value.toUInt16).toUInt8⟩

/-- The low bits of a word, the lowest first. -/
def lowBits : ℕ → UInt16 → List Bool
  | 0, _ => []
  | turns + 1, b => (b &&& 1 == 1) :: lowBits turns (b >>> 1)

theorem shiftReduce_eq : shiftReduce a.value.toUInt16 = a.double.value.toUInt16 := by
  have h : ∀ i, shiftReduce (UInt8.ofFin i).toUInt16 =
      (double ⟨UInt8.ofFin i⟩).value.toUInt16 := by decide +kernel
  exact h a.value.toFin

theorem low_bit (b : UInt16) : b &&& 1 = 0 ∨ b &&& 1 = 1 := by
  have hmod : (b &&& 1).toNat = b.toNat % 2 := by
    exact Nat.and_one_is_mod b.toNat
  rcases Nat.mod_two_eq_zero_or_one b.toNat with h | h
  · exact .inl (UInt16.toNat_inj.mp (hmod.trans h))
  · exact .inr (UInt16.toNat_inj.mp (hmod.trans h))

theorem toUInt8_masked (b result : UInt16) :
    (⟨(result ^^^ (a.value.toUInt16 &&& (0 - (b &&& 1)))).toUInt8⟩ : Gf256) =
      ⟨result.toUInt8⟩ + if b &&& 1 == 1 then a else 0 := by
  rcases low_bit b with hbit | hbit
  · rw [hbit]
    simp
  · rw [hbit]
    exact ext (by simp [value_add])

/-- The multiplication loop adds the doublings of `a` at the set bits of `b`. -/
theorem mulLoop_eq (turns : ℕ) (a : Gf256) (b result : UInt16) :
    (⟨(mulLoop turns a.value.toUInt16 b result).toUInt8⟩ : Gf256) =
      ⟨result.toUInt8⟩ + spread double (lowBits turns b) a := by
  induction turns generalizing a b result with
  | zero => exact (add_zero _).symm
  | succ turns ih =>
    rw [mulLoop, shiftReduce_eq, ih, toUInt8_masked, lowBits, spread, add_assoc]

def bits : List Bool := lowBits 8 a.value.toUInt16

theorem mul_eq_spread : a * b = spread double b.bits a :=
  (mulLoop_eq 8 a b.value.toUInt16 0).trans (zero_add _)

theorem double_zero : double 0 = 0 := by decide

theorem xor_and (x y mask : UInt16) : (x ^^^ y) &&& mask = (x &&& mask) ^^^ (y &&& mask) :=
  UInt16.toNat_inj.mp (by simp [Nat.and_xor_distrib_right])

theorem reduction_xor (x y : UInt16) :
    modulus &&& (0 - ((x ^^^ y) &&& 1)) =
      (modulus &&& (0 - (x &&& 1))) ^^^ (modulus &&& (0 - (y &&& 1))) := by
  rw [xor_and]
  rcases low_bit x with hx | hx <;> rcases low_bit y with hy | hy <;> rw [hx, hy] <;> decide

theorem shiftReduce_xor (x y : UInt16) :
    shiftReduce (x ^^^ y) = shiftReduce x ^^^ shiftReduce y := by
  simp only [shiftReduce, UInt16.shiftLeft_xor, UInt16.shiftRight_xor, reduction_xor]
  generalize modulus &&& ((0 : UInt16) - (x >>> 7 &&& 1)) = p
  generalize modulus &&& ((0 : UInt16) - (y >>> 7 &&& 1)) = q
  rw [UInt16.xor_assoc, UInt16.xor_assoc, ← UInt16.xor_assoc (y <<< 1) p q,
    ← UInt16.xor_assoc p (y <<< 1) q, UInt16.xor_comm (y <<< 1) p]

theorem double_add : double (a + b) = double a + double b := by
  apply ext
  simp only [double, value_add, UInt8.toUInt16_xor, shiftReduce_xor, UInt16.toUInt8_xor]

instance : One Gf256 := ⟨⟨1⟩⟩

theorem spread_bits : spread double a.bits 1 = a := by
  have h : ∀ i, spread double (bits ⟨UInt8.ofFin i⟩) 1 = ⟨UInt8.ofFin i⟩ := by
    decide +kernel
  exact h a.value.toFin

theorem mulPeasant_comm : a * b = b * a := by
  rw [mul_eq_spread, mul_eq_spread]
  exact shiftAdd_comm double_zero double_add spread_bits a b

theorem mulPeasant_assoc (a b c : Gf256) : a * b * c = a * (b * c) := by
  simp only [mul_eq_spread]
  exact shiftAdd_assoc double_zero double_add spread_bits a b c

theorem mulPeasant_add (a b c : Gf256) : (a + b) * c = a * c + b * c := by
  simp only [mul_eq_spread]
  exact spread_add double_add c.bits a b

theorem mulPeasant_one : 1 * a = a := by
  rw [mul_eq_spread, spread_bits]

theorem mulPeasant_zero : 0 * a = 0 := by
  rw [mul_eq_spread, spread_zero double_zero]

instance commRing : CommRing Gf256 where
  __ := addCommGroup
  mul_assoc := mulPeasant_assoc
  mul_comm := mulPeasant_comm
  one_mul := mulPeasant_one
  mul_one a := (mulPeasant_comm a 1).trans (mulPeasant_one a)
  zero_mul := mulPeasant_zero
  mul_zero a := (mulPeasant_comm a 0).trans (mulPeasant_zero a)
  right_distrib := mulPeasant_add
  left_distrib a b c := by
    rw [mulPeasant_comm, mulPeasant_add, mulPeasant_comm b, mulPeasant_comm c]

theorem neg_eq : -a = a := rfl

theorem add_self : a + a = 0 := ext UInt8.xor_self

instance charP_two : CharP Gf256 2 :=
  CharTwo.of_one_ne_zero_of_two_eq_zero (by decide) ((one_add_one_eq_two).symm.trans (add_self 1))

theorem double_eq : double a = a * ⟨2⟩ := by
  have hbits : bits ⟨2⟩ = [false, true, false, false, false, false, false, false] := by decide
  simp [mul_eq_spread, hbits, spread]

/-- Every byte is its own 256th power: the eightfold squaring is additive, keeps products and fixes
one and two. -/
theorem pow_256 : a ^ 256 = a := by
  have hpow : ∀ x, iterateFrobenius Gf256 2 8 x = x ^ 256 := iterateFrobenius_def 2 8
  have htwo : iterateFrobenius Gf256 2 8 ⟨2⟩ = ⟨2⟩ := by
    have hsquares : ((((((((⟨2⟩ : Gf256) ^ 2) ^ 2) ^ 2) ^ 2) ^ 2) ^ 2) ^ 2) ^ 2 = ⟨2⟩ := by
      decide +kernel
    rw [hpow]
    simpa only [← pow_mul] using hsquares
  have hdouble : ∀ x, iterateFrobenius Gf256 2 8 (double x) =
      double (iterateFrobenius Gf256 2 8 x) := fun x => by
    rw [double_eq, double_eq, map_mul, htwo]
  have hspread := map_spread (map_zero (iterateFrobenius Gf256 2 8))
    (map_add (iterateFrobenius Gf256 2 8)) hdouble a.bits 1
  rw [map_one, spread_bits] at hspread
  exact hspread

theorem eq_zero_or_one {a : Gf256} (h : a * a = a) : a = 0 ∨ a = 1 := by
  have hall : ∀ i, (⟨UInt8.ofFin i⟩ * ⟨UInt8.ofFin i⟩ : Gf256) = ⟨UInt8.ofFin i⟩ →
      (⟨UInt8.ofFin i⟩ : Gf256) = 0 ∨ (⟨UInt8.ofFin i⟩ : Gf256) = 1 := by decide +kernel
  exact hall a.value.toFin h

theorem inv_eq_pow : a.inv = a ^ 254 := by
  simp only [inv]
  ring

theorem mul_inv {a : Gf256} (ha : a ≠ 0) : a * a.inv = 1 := by
  have hpow : a * a.inv = a ^ 255 := by rw [inv_eq_pow, ← pow_succ']
  have hidem : a ^ 255 * a ^ 255 = a ^ 255 := by
    calc a ^ 255 * a ^ 255 = a ^ 256 * a ^ 254 := by ring
      _ = a ^ 255 := by rw [pow_256, ← pow_succ']
  rcases eq_zero_or_one hidem with hzero | hone
  · refine absurd ?_ ha
    rw [← pow_256 a, pow_succ, hzero, zero_mul]
  · exact hpow.trans hone

instance field : Field Gf256 where
  __ := commRing
  inv := inv
  exists_pair_ne := ⟨0, 1, by decide⟩
  mul_inv_cancel a ha := mul_inv ha
  inv_zero := by decide +kernel
  nnqsmul := _
  nnqsmul_def _ _ := rfl
  qsmul := _
  qsmul_def _ _ := rfl

end Gf256

end Flywheel.Crypto
