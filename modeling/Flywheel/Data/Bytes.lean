import Mathlib.Algebra.Ring.Nat
import Mathlib.Data.Vector.Basic

/-!
# Byte strings and little-endian words

Fixed-size byte arrays, slices of byte strings, and the little-endian encoding
of natural numbers at a fixed width. The two directions of the word codec are
inverse on words of the right width, and adjacent slices concatenate.
-/

namespace Flywheel.Data

open List

/-- A byte array of statically known length. -/
abbrev Bytes (n : ℕ) := List.Vector UInt8 n

instance {n : ℕ} (b : Bytes n) (l : List (Bytes n)) : Decidable (b ∈ l) := inferInstance

variable (bytes : List UInt8)

/-- The `len` bytes of a string from position `start` on, fewer at its end. -/
def slice (start len : ℕ) : List UInt8 := (bytes.drop start).take len

/-- Copy a slice into a zeroed array of `n` bytes. -/
def arrayOf (n : ℕ) (bytes : List UInt8) : Bytes n :=
  ⟨(bytes ++ replicate n 0).take n, by simp⟩

def utf8 (text : String) : List UInt8 := text.toUTF8.toList

/-- The lower-case hexadecimal digits of a byte string. -/
def hexEncode : String :=
  String.ofList (bytes.flatMap fun b =>
    [Nat.digitChar (b.toNat / 16), Nat.digitChar (b.toNat % 16)])

/-- The `width` low-order bytes of a number, least significant first. -/
def leBytes : ℕ → ℕ → List UInt8
  | 0, _ => []
  | width + 1, v => UInt8.ofNat (v % 256) :: leBytes width (v / 256)

/-- The number written by a string of bytes, least significant first. -/
def leNat : List UInt8 → ℕ
  | [] => 0
  | b :: bs => b.toNat + 256 * leNat bs

variable (width v : ℕ)

/-- The `width` low-order bytes of a number, most significant first. -/
def beBytes : List UInt8 := (leBytes width v).reverse

@[simp] theorem leBytes_length : (leBytes width v).length = width := by
  induction width generalizing v with
  | zero => rfl
  | succ width ih => simp [leBytes, ih]

theorem leNat_lt : leNat bytes < 256 ^ bytes.length := by
  induction bytes with
  | nil => simp [leNat]
  | cons b bs ih =>
    have hb : b.toNat < 256 := b.toNat_lt
    simp only [leNat, length_cons]
    omega

theorem leNat_leBytes : leNat (leBytes width v) = v % 256 ^ width := by
  induction width generalizing v with
  | zero => simp [leBytes, leNat, Nat.mod_one]
  | succ width ih =>
    have hbyte : (UInt8.ofNat (v % 256)).toNat = v % 256 := by simp
    rw [leBytes, leNat, hbyte, ih, pow_succ', Nat.mod_mul]

theorem leBytes_leNat : leBytes bytes.length (leNat bytes) = bytes := by
  induction bytes with
  | nil => rfl
  | cons b bs ih =>
    have hb : b.toNat < 256 := b.toNat_lt
    have hmod : (b.toNat + 256 * leNat bs) % 256 = b.toNat := by omega
    have hdiv : (b.toNat + 256 * leNat bs) / 256 = leNat bs := by omega
    simp only [length_cons, leBytes, leNat, hmod, hdiv, ih, UInt8.ofNat_toNat]

/-- The list of a byte array, read off from a position on. -/
theorem toList_loop (bytes : ByteArray) (i : ℕ) (acc : List UInt8) :
    ByteArray.toList.loop bytes i acc = acc.reverse ++ bytes.data.toList.drop i := by
  fun_induction ByteArray.toList.loop bytes i acc with
  | case1 i acc h ih =>
    have hlt : i < bytes.data.toList.length := by simpa using h
    have hget : bytes.get! i = bytes.data.toList[i] := by
      simp [ByteArray.get!, h]
    rw [ih, reverse_cons, append_assoc, hget, drop_eq_getElem_cons hlt]
    rfl
  | case2 i acc h =>
    have hle : bytes.data.toList.length ≤ i := by simpa using h
    rw [drop_eq_nil_of_le hle, append_nil]

theorem utf8_eq (text : String) : utf8 text = text.toByteArray.data.toList := by
  rw [utf8, ByteArray.toList, toList_loop]
  rfl

theorem utf8_injective : Function.Injective utf8 := by
  intro s t h
  rw [utf8_eq, utf8_eq] at h
  exact String.toByteArray_inj.mp (ByteArray.ext (Array.toList_inj.mp h))

theorem utf8_append (s t : String) : utf8 (s ++ t) = utf8 s ++ utf8 t := by
  simp [utf8_eq]

theorem leBytes_inj {width v w : ℕ} (hv : v < 256 ^ width) (hw : w < 256 ^ width)
    (h : leBytes width v = leBytes width w) : v = w := by
  have hnat := congrArg leNat h
  rwa [leNat_leBytes, leNat_leBytes, Nat.mod_eq_of_lt hv, Nat.mod_eq_of_lt hw] at hnat

/-- Items are read back from their concatenated codes if no code is empty and each is read back with
what follows it. -/
theorem flatMap_inj {α β : Type*} {f : α → List β} {l l' : List α} (hne : ∀ a, f a ≠ [])
    (hf : ∀ a ∈ l, ∀ b ∈ l', ∀ s t, f a ++ s = f b ++ t → a = b ∧ s = t)
    (h : l.flatMap f = l'.flatMap f) : l = l' := by
  induction l generalizing l' with
  | nil =>
    cases l' with
    | nil => rfl
    | cons b l' => simp [hne] at h
  | cons a l ih =>
    cases l' with
    | nil => simp [hne] at h
    | cons b l' =>
      obtain ⟨rfl, hrest⟩ := hf a mem_cons_self b mem_cons_self _ _ h
      rw [ih (fun a ha b hb => hf a (mem_cons_of_mem _ ha) b (mem_cons_of_mem _ hb)) hrest]

variable {bytes : List UInt8}

theorem slice_length {start len : ℕ} (h : start + len ≤ bytes.length) :
    (slice bytes start len).length = len := by
  simp only [slice, length_take, length_drop]
  omega

theorem slice_append_slice (bytes : List UInt8) (start m n : ℕ) :
    slice bytes start m ++ slice bytes (start + m) n = slice bytes start (m + n) := by
  simp only [slice, ← drop_drop, take_add]

/-- A slice that starts after the left part of a string lies in the right part. -/
theorem slice_append_right {l r : List UInt8} {start len : ℕ} (h : l.length ≤ start) :
    slice (l ++ r) start len = slice r (start - l.length) len := by
  simp only [slice, drop_append, drop_eq_nil_of_le h, nil_append]

/-- The slice from the start over the whole left part of a string is that part. -/
theorem slice_append_left {l r : List UInt8} {len : ℕ} (h : l.length = len) :
    slice (l ++ r) 0 len = l := by
  simp only [slice, drop_zero, take_left' h]

theorem slice_self {len : ℕ} (h : bytes.length = len) : slice bytes 0 len = bytes := by
  simp only [slice, drop_zero, ← h, take_length]

theorem toList_arrayOf {n : ℕ} (h : bytes.length = n) : (arrayOf n bytes).toList = bytes := by
  simp only [arrayOf, List.Vector.toList_mk, List.take_left' h]

@[simp] theorem arrayOf_toList {n : ℕ} (a : Bytes n) : arrayOf n a.toList = a := by
  apply Vector.eq
  exact toList_arrayOf a.toList_length

@[simp] theorem UInt16.ofNat_leNat_leBytes (v : UInt16) :
    UInt16.ofNat (leNat (leBytes 2 v.toNat)) = v := by
  rw [leNat_leBytes, Nat.mod_eq_of_lt (by exact v.toNat_lt), UInt16.ofNat_toNat]

@[simp] theorem UInt32.ofNat_leNat_leBytes (v : UInt32) :
    UInt32.ofNat (leNat (leBytes 4 v.toNat)) = v := by
  rw [leNat_leBytes, Nat.mod_eq_of_lt (by exact v.toNat_lt), UInt32.ofNat_toNat]

@[simp] theorem UInt64.ofNat_leNat_leBytes (v : UInt64) :
    UInt64.ofNat (leNat (leBytes 8 v.toNat)) = v := by
  rw [leNat_leBytes, Nat.mod_eq_of_lt (by exact v.toNat_lt), UInt64.ofNat_toNat]

theorem leBytes_ofNat_leNat_two (h : bytes.length = 2) :
    leBytes 2 (UInt16.ofNat (leNat bytes)).toNat = bytes := by
  have hlt : leNat bytes < 2 ^ 16 := by simpa [h] using leNat_lt bytes
  rw [UInt16.toNat_ofNat_of_lt' hlt, ← h, leBytes_leNat]

theorem leBytes_ofNat_leNat_four (h : bytes.length = 4) :
    leBytes 4 (UInt32.ofNat (leNat bytes)).toNat = bytes := by
  have hlt : leNat bytes < 2 ^ 32 := by simpa [h] using leNat_lt bytes
  rw [UInt32.toNat_ofNat_of_lt' hlt, ← h, leBytes_leNat]

theorem leBytes_ofNat_leNat_eight (h : bytes.length = 8) :
    leBytes 8 (UInt64.ofNat (leNat bytes)).toNat = bytes := by
  have hlt : leNat bytes < 2 ^ 64 := by simpa [h] using leNat_lt bytes
  rw [UInt64.toNat_ofNat_of_lt' hlt, ← h, leBytes_leNat]

end Flywheel.Data
