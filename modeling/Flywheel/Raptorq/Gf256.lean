import Flywheel.Data.Elimination
import Mathlib.Algebra.Field.MinimalAxioms
import Mathlib.Data.List.GetD
import Mathlib.Data.List.Iterate
import Mathlib.Dynamics.PeriodicPts.Defs

/-!
# The field with 256 elements

Elements are bytes; addition is exclusive or, and multiplication goes through the logarithm and
exponential tables of the generator 2 modulo x^8 + x^4 + x^3 + x^2 + 1. The tables make the bytes a
field, and the slice operations on symbols are the module operations over it.
-/

namespace Flywheel.Raptorq

open Flywheel.Data List

/-- The irreducible polynomial without its leading term. -/
def poly : UInt16 := 0x1D

/-- One turn of the table loops: the next power of the generator, reduced. -/
def nextPower (val : UInt16) : UInt16 :=
  let val := val <<< 1
  if val &&& 0x100 ≠ 0 then val ^^^ (0x100 ||| poly) else val

/-- The exponential table as its loop fills it: 255 powers, their mirror and the last two slots. -/
def buildExpTable : List UInt8 :=
  let powers := (iterate nextPower 1 255).map UInt16.toUInt8
  powers ++ powers ++ [1, 0]

/-- The logarithm table as its loop fills it; the slot of zero stays zero. -/
def buildLogTable : List UInt8 :=
  ((range 255).foldl (fun (state : List UInt8 × UInt16) i =>
    (state.1.set state.2.toNat (UInt8.ofNat i), nextPower state.2)) (replicate 256 0, 1)).1

def expTable : List UInt8 :=
  [1,2,4,8,16,32,64,128,29,58,116,232,205,135,19,38,76,152,45,90,180,117,234,201,143,3,6,12,24,48,
   96,192,157,39,78,156,37,74,148,53,106,212,181,119,238,193,159,35,70,140,5,10,20,40,80,160,93,186,
   105,210,185,111,222,161,95,190,97,194,153,47,94,188,101,202,137,15,30,60,120,240,253,231,211,187,
   107,214,177,127,254,225,223,163,91,182,113,226,217,175,67,134,17,34,68,136,13,26,52,104,208,189,
   103,206,129,31,62,124,248,237,199,147,59,118,236,197,151,51,102,204,133,23,46,92,184,109,218,169,
   79,158,33,66,132,21,42,84,168,77,154,41,82,164,85,170,73,146,57,114,228,213,183,115,230,209,191,
   99,198,145,63,126,252,229,215,179,123,246,241,255,227,219,171,75,150,49,98,196,149,55,110,220,
   165,87,174,65,130,25,50,100,200,141,7,14,28,56,112,224,221,167,83,166,81,162,89,178,121,242,249,
   239,195,155,43,86,172,69,138,9,18,36,72,144,61,122,244,245,247,243,251,235,203,139,11,22,44,88,
   176,125,250,233,207,131,27,54,108,216,173,71,142,1,2,4,8,16,32,64,128,29,58,116,232,205,135,19,
   38,76,152,45,90,180,117,234,201,143,3,6,12,24,48,96,192,157,39,78,156,37,74,148,53,106,212,181,
   119,238,193,159,35,70,140,5,10,20,40,80,160,93,186,105,210,185,111,222,161,95,190,97,194,153,47,
   94,188,101,202,137,15,30,60,120,240,253,231,211,187,107,214,177,127,254,225,223,163,91,182,113,
   226,217,175,67,134,17,34,68,136,13,26,52,104,208,189,103,206,129,31,62,124,248,237,199,147,59,
   118,236,197,151,51,102,204,133,23,46,92,184,109,218,169,79,158,33,66,132,21,42,84,168,77,154,41,
   82,164,85,170,73,146,57,114,228,213,183,115,230,209,191,99,198,145,63,126,252,229,215,179,123,
   246,241,255,227,219,171,75,150,49,98,196,149,55,110,220,165,87,174,65,130,25,50,100,200,141,7,14,
   28,56,112,224,221,167,83,166,81,162,89,178,121,242,249,239,195,155,43,86,172,69,138,9,18,36,72,
   144,61,122,244,245,247,243,251,235,203,139,11,22,44,88,176,125,250,233,207,131,27,54,108,216,173,
   71,142,1,0]

def logTable : List UInt8 :=
  [0,0,1,25,2,50,26,198,3,223,51,238,27,104,199,75,4,100,224,14,52,141,239,129,28,193,105,248,200,8,
   76,113,5,138,101,47,225,36,15,33,53,147,142,218,240,18,130,69,29,181,194,125,106,39,249,185,201,
   154,9,120,77,228,114,166,6,191,139,98,102,221,48,253,226,152,37,179,16,145,34,136,54,208,148,206,
   143,150,219,189,241,210,19,92,131,56,70,64,30,66,182,163,195,72,126,110,107,58,40,84,250,133,186,
   61,202,94,155,159,10,21,121,43,78,212,229,172,115,243,167,87,7,112,192,247,140,128,99,13,103,74,
   222,237,49,197,254,24,227,165,153,119,38,184,180,124,17,68,146,217,35,32,137,46,55,63,209,91,149,
   188,207,205,144,135,151,178,220,252,190,97,242,86,211,171,20,42,93,158,132,60,57,83,71,109,65,
   162,31,45,67,216,183,123,164,118,196,23,73,236,127,12,111,246,108,161,59,82,41,157,85,170,251,96,
   134,177,187,204,62,90,203,89,95,176,156,169,160,81,11,245,22,235,122,117,44,215,79,174,213,233,
   230,231,173,232,116,214,244,234,168,80,88,175]

theorem expTable_eq_build : expTable = buildExpTable := by decide +kernel

theorem logTable_eq_build : logTable = buildLogTable := by decide +kernel

/-- An element of the field: a byte. -/
structure Gf256 where
  raw : UInt8
  deriving DecidableEq, Repr

namespace Gf256

instance : Zero Gf256 := ⟨⟨0⟩⟩

instance : One Gf256 := ⟨⟨1⟩⟩

instance : Add Gf256 := ⟨fun a b => ⟨a.raw ^^^ b.raw⟩⟩

/-- Every element is its own opposite: subtraction is addition. -/
instance : Neg Gf256 := ⟨fun a => a⟩

variable (a : Gf256)

def log : ℕ := (logTable.getD a.raw.toNat 0).toNat

def exp (i : ℕ) : Gf256 := ⟨expTable.getD i 0⟩

variable (a b : Gf256)

def mulField : Gf256 :=
  if a.raw = 0 ∨ b.raw = 0 then 0 else exp (a.log + b.log)

instance : Mul Gf256 := ⟨mulField⟩

/-- The inverse by the tables; the source refuses zero, which here is its own inverse. -/
instance : Inv Gf256 := ⟨fun a => if a.raw = 0 then 0 else exp (255 - a.log)⟩

def alpha : Gf256 := ⟨2⟩

def pow (e : UInt8) : Gf256 :=
  if e = 0 then 1 else if a.raw = 0 then 0 else exp (a.log * e.toNat % 255)

/-- Multiplication by the generator, as the shift and reduction on bytes. -/
def double : Gf256 :=
  ⟨(a.raw <<< 1) ^^^ (if a.raw &&& 0x80 ≠ 0 then poly.toUInt8 else 0)⟩

theorem ext {a b : Gf256} (h : a.raw = b.raw) : a = b := by
  cases a; cases b; exact congrArg mk h

theorem raw_add : (a + b).raw = a.raw ^^^ b.raw := rfl

theorem xor_and (x y mask : UInt8) : (x ^^^ y) &&& mask = (x &&& mask) ^^^ (y &&& mask) :=
  UInt8.toNat_inj.mp (by simp [Nat.and_xor_distrib_right])

theorem high_bit (x : UInt8) : x &&& 0x80 = 0 ∨ x &&& 0x80 = 0x80 := by
  have h : ∀ i, UInt8.ofFin i &&& 0x80 = 0 ∨ UInt8.ofFin i &&& 0x80 = 0x80 := by
    decide +kernel
  exact h x.toFin

theorem reduction_xor (x y : UInt8) :
    (if (x ^^^ y) &&& 0x80 ≠ 0 then poly.toUInt8 else 0) =
      (if x &&& 0x80 ≠ 0 then poly.toUInt8 else 0) ^^^
        (if y &&& 0x80 ≠ 0 then poly.toUInt8 else 0) := by
  rw [xor_and]
  rcases high_bit x with hx | hx <;> rcases high_bit y with hy | hy <;> rw [hx, hy] <;> decide

theorem double_add : (a + b).double = a.double + b.double := by
  apply ext
  simp only [double, raw_add, UInt8.shiftLeft_xor, reduction_xor]
  generalize (if a.raw &&& 0x80 ≠ 0 then poly.toUInt8 else 0) = p
  generalize (if b.raw &&& 0x80 ≠ 0 then poly.toUInt8 else 0) = q
  rw [UInt8.xor_assoc, UInt8.xor_assoc, ← UInt8.xor_assoc (b.raw <<< 1) p q,
    ← UInt8.xor_assoc p (b.raw <<< 1) q, UInt8.xor_comm (b.raw <<< 1) p]

theorem double_iterate_add (k : ℕ) (a b : Gf256) :
    double^[k] (a + b) = double^[k] a + double^[k] b := by
  induction k generalizing a b with
  | zero => rfl
  | succ k ih => rw [Function.iterate_succ_apply, double_add, ih]; rfl

theorem double_iterate_zero (k : ℕ) : double^[k] 0 = 0 := by
  induction k with
  | zero => rfl
  | succ k ih => rw [Function.iterate_succ_apply', ih]; decide

theorem expTable_eq_iterate :
    expTable = (iterate double 1 511).map raw ++ [0] := by decide +kernel

theorem exp_eq_iterate {i : ℕ} (hi : i ≤ 510) : exp i = double^[i] 1 := by
  have hlt : i < ((iterate double 1 511).map raw).length := by
    rw [length_map, length_iterate]
    omega
  rw [exp, expTable_eq_iterate, getD_append _ _ _ _ hlt, getD_eq_getElem _ _ hlt,
    getElem_map, getElem_iterate]

theorem exp_log {a : Gf256} (ha : a.raw ≠ 0) : a.log < 255 ∧ exp a.log = a := by
  have h : ∀ p ∈ logTable.zipIdx, p.2 ≠ 0 →
      p.1.toNat < 255 ∧ exp p.1.toNat = ⟨UInt8.ofNat p.2⟩ := by decide +kernel
  have hlength : logTable.length = 256 := by decide +kernel
  have hlt : a.raw.toNat < logTable.length := hlength ▸ a.raw.toNat_lt
  have hmem := mk_mem_zipIdx_iff_getElem?.mpr (getElem?_eq_getElem hlt)
  have hpair := h _ hmem fun heq => ha (UInt8.toNat_inj.mp heq)
  rw [← getD_eq_getElem _ 0, UInt8.ofNat_toNat] at hpair
  exact hpair

theorem log_exp {i : ℕ} (hi : i < 255) : (exp i).log = i ∧ (exp i).raw ≠ 0 := by
  have h : ∀ p ∈ expTable.zipIdx, p.2 < 255 →
      (mk p.1).log = p.2 ∧ p.1 ≠ 0 := by decide +kernel
  have hlength : expTable.length = 512 := by decide +kernel
  have hlt : i < expTable.length := by omega
  have hmem := mk_mem_zipIdx_iff_getElem?.mpr (getElem?_eq_getElem hlt)
  have hpair := h _ hmem hi
  rw [← getD_eq_getElem _ 0] at hpair
  exact hpair

theorem iterate_log {a : Gf256} (ha : a.raw ≠ 0) : double^[a.log] 1 = a := by
  obtain ⟨hlt, hexp⟩ := exp_log ha
  rw [← exp_eq_iterate (by omega), hexp]

theorem double_iterate_period : double^[255] a = a := by
  by_cases ha : a.raw = 0
  · rw [show a = 0 from ext ha, double_iterate_zero]
  · have hone : double^[255] (1) = 1 := by
      rw [← exp_eq_iterate (by omega)]
      decide
    calc double^[255] a = double^[255] (double^[a.log] 1) := by rw [iterate_log ha]
      _ = double^[a.log] (double^[255] 1) := by
        rw [← Function.iterate_add_apply, Nat.add_comm, Function.iterate_add_apply]
      _ = a := by rw [hone, iterate_log ha]

theorem double_iterate_mod (k : ℕ) (a : Gf256) : double^[k % 255] a = double^[k] a :=
  Function.IsPeriodicPt.iterate_mod_apply (double_iterate_period a) k

theorem mulField_zero_left (b : Gf256) : 0 * b = 0 := by
  change mulField 0 b = 0
  exact if_pos (.inl rfl)

theorem mul_eq_iterate {a : Gf256} (ha : a.raw ≠ 0) (b : Gf256) : a * b = double^[a.log] b := by
  by_cases hb : b.raw = 0
  · rw [show b = 0 from ext hb, double_iterate_zero]
    exact if_pos (.inr rfl)
  · have hmul : a * b = exp (a.log + b.log) := if_neg (by simp [ha, hb])
    have hlogs := (exp_log ha).1
    have hlogs' := (exp_log hb).1
    rw [hmul, exp_eq_iterate (by omega), Function.iterate_add_apply, iterate_log hb]

theorem log_mul {a b : Gf256} (ha : a.raw ≠ 0) (hb : b.raw ≠ 0) :
    (a * b).log = (a.log + b.log) % 255 ∧ (a * b).raw ≠ 0 := by
  have hprod : a * b = exp ((a.log + b.log) % 255) := by
    rw [mul_eq_iterate ha, exp_eq_iterate (by omega), double_iterate_mod,
      Function.iterate_add_apply, iterate_log hb]
  rw [hprod]
  exact log_exp (Nat.mod_lt _ (by omega))

theorem mulField_comm : a * b = b * a := by
  change mulField a b = mulField b a
  simp only [mulField, or_comm, Nat.add_comm a.log]

theorem mulField_assoc (a b c : Gf256) : a * b * c = a * (b * c) := by
  by_cases ha : a.raw = 0
  · rw [show a = 0 from ext ha, mulField_zero_left, mulField_zero_left, mulField_zero_left]
  · by_cases hb : b.raw = 0
    · rw [show b = 0 from ext hb, mulField_zero_left, mulField_comm a 0, mulField_zero_left,
        mulField_zero_left]
    · obtain ⟨hlog, hne⟩ := log_mul ha hb
      rw [mul_eq_iterate hne, hlog, double_iterate_mod, Function.iterate_add_apply,
        mul_eq_iterate ha, mul_eq_iterate hb]

theorem mulField_inv {a : Gf256} (ha : a.raw ≠ 0) : a * a⁻¹ = 1 := by
  have hlt := (exp_log ha).1
  have hinv : a⁻¹ = exp (255 - a.log) := if_neg ha
  rw [hinv, mul_eq_iterate ha, exp_eq_iterate (by omega), ← Function.iterate_add_apply,
    show a.log + (255 - a.log) = 255 by omega, double_iterate_period]

theorem mulField_add (a b c : Gf256) : a * (b + c) = a * b + a * c := by
  by_cases ha : a.raw = 0
  · rw [show a = 0 from ext ha, mulField_zero_left, mulField_zero_left, mulField_zero_left]
    rfl
  · rw [mul_eq_iterate ha, mul_eq_iterate ha, mul_eq_iterate ha, double_iterate_add]

/-- The bytes with the table arithmetic are a field. -/
instance field : Field Gf256 :=
  Field.ofMinimalAxioms Gf256
    (fun a b c => ext (UInt8.xor_assoc a.raw b.raw c.raw))
    (fun a => ext (UInt8.zero_xor (a := a.raw)))
    (fun a => ext (UInt8.xor_self (a := a.raw)))
    mulField_assoc mulField_comm
    (fun a => mul_eq_iterate (a := 1) (by decide) a)
    (fun a ha => mulField_inv fun hraw => ha (ext hraw))
    (if_pos rfl) mulField_add ⟨0, 1, by decide⟩

theorem neg_eq : -a = a := rfl

theorem double_eq : a.double = alpha * a :=
  (mul_eq_iterate (a := alpha) (by decide) a).symm

end Gf256

/-- The loop that fills the multiplication tables: shift `a`, reduce, and add it for each set bit
of `b`. -/
def gf256MulLoop : ℕ → UInt8 → UInt8 → UInt8 → UInt8
  | 0, _, _, acc => acc
  | i + 1, a, b, acc =>
    let acc := if b &&& 1 ≠ 0 then acc ^^^ a else acc
    let hi := a &&& 0x80
    let a := a <<< 1
    let a := if hi ≠ 0 then a ^^^ poly.toUInt8 else a
    gf256MulLoop i a (b >>> 1) acc

/-- The product of two bytes as the table loop computes it. -/
def gf256MulConst (a b : UInt8) : UInt8 := gf256MulLoop 8 a b 0

/-- The row of the multiplication tables for `c`, at `x`. -/
def mulTable (c x : Gf256) : Gf256 := ⟨gf256MulConst x.raw c.raw⟩

/-- The value of the `i` low bits of a byte, one doubling per bit. -/
def lowBits : ℕ → UInt8 → Gf256
  | 0, _ => 0
  | i + 1, b => (if b &&& 1 ≠ 0 then (1 : Gf256) else 0) + (lowBits i (b >>> 1)).double

theorem lowBits_eight (b : UInt8) : lowBits 8 b = ⟨b⟩ := by
  have h : ∀ i, lowBits 8 (UInt8.ofFin i) = ⟨UInt8.ofFin i⟩ := by decide +kernel
  exact h b.toFin

/-- The multiplication loop adds to its accumulator the product with the bits still to come. -/
theorem gf256MulLoop_eq (i : ℕ) (a b acc : UInt8) :
    (⟨gf256MulLoop i a b acc⟩ : Gf256) = ⟨acc⟩ + ⟨a⟩ * lowBits i b := by
  induction i generalizing a b acc with
  | zero => simp [gf256MulLoop, lowBits]
  | succ i ih =>
    have hshift : (⟨if a &&& 0x80 ≠ 0 then a <<< 1 ^^^ poly.toUInt8 else a <<< 1⟩) =
        (⟨a⟩ : Gf256).double := by
      by_cases ha : a &&& 0x80 = 0 <;> simp [Gf256.double, ha]
    have hacc : (⟨if b &&& 1 ≠ 0 then acc ^^^ a else acc⟩ : Gf256) =
        ⟨acc⟩ + ⟨a⟩ * (if b &&& 1 ≠ 0 then 1 else 0) := by
      by_cases hb : b &&& 1 = 0
      · simp [hb]
      · simp only [ne_eq, hb, not_false_eq_true, if_true, mul_one]
        rfl
    rw [gf256MulLoop, ih, hshift, hacc, lowBits, Gf256.double_eq, Gf256.double_eq]
    ring

theorem mulTable_eq (c x : Gf256) : mulTable c x = c * x := by
  rw [mulTable, gf256MulConst, gf256MulLoop_eq, lowBits_eight, mul_comm]
  exact zero_add _

/-- A symbol of `size` bytes. -/
abbrev Symbol (size : ℕ) := List.Vector Gf256 size

variable {size : ℕ} (dst src : Symbol size)

def gf256AddSlice : Symbol size := List.Vector.zipWith (· + ·) dst src

/-- A symbol scaled by a field element, through the table of that element. -/
def gf256MulSlice (dst : Symbol size) (c : Gf256) : Symbol size :=
  if c = 0 then List.Vector.replicate size 0
  else if c = 1 then dst
  else dst.map (mulTable c)

/-- A symbol plus a multiple of another one, through the table of the factor. -/
def gf256AddmulSlice (c : Gf256) : Symbol size :=
  if c = 0 then dst
  else if c = 1 then gf256AddSlice dst src
  else List.Vector.zipWith (fun d s => d + mulTable c s) dst src

theorem gf256MulSlice_eq (dst : Symbol size) (c : Gf256) : gf256MulSlice dst c = c • dst := by
  unfold gf256MulSlice
  split_ifs with hzero hone
  · rw [hzero, zero_smul]
    rfl
  · rw [hone, one_smul]
  · ext i
    simp [mulTable_eq]

theorem gf256AddmulSlice_eq (c : Gf256) : gf256AddmulSlice dst src c = dst + c • src := by
  unfold gf256AddmulSlice
  split_ifs with hzero hone
  · rw [hzero, zero_smul, add_zero]
  · rw [hone, one_smul]
    rfl
  · ext i
    simp [mulTable_eq]

theorem symbol_sub_eq_add (v w : Symbol size) : v - w = v + w := by
  ext i
  rw [get_vectorSub, get_vectorAdd, sub_eq_add_neg, Gf256.neg_eq]

end Flywheel.Raptorq
