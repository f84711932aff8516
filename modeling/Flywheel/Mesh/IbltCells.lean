import Flywheel.Data.Peeling
import Flywheel.Data.Probing
import Flywheel.Mesh.Iblt
import Mathlib.Algebra.BigOperators.Ring.Finset
import Mathlib.Algebra.Order.BigOperators.Group.Finset

/-!
# What the cells of a table hold

An object is entered into three different cells. As long as no count saturates, a cell
is the signed sum of the objects entered into it, and the difference of two tables holds
in each cell the sum of the symmetric difference of the two sets. A cell that holds one
object is recognised as such.
-/

namespace Flywheel.Mesh

open Flywheel.Core Flywheel.Data Finset

section Indices

variable {used : List ℕ}

theorem avoidIndices_lt {n : ℕ} (steps : ℕ) {index : ℕ} (hindex : index < n) :
    avoidIndices n used steps index < n := by
  induction steps generalizing index with
  | zero => exact hindex
  | succ steps ih =>
    rw [avoidIndices]
    split_ifs
    · exact ih (Nat.mod_lt _ (by omega))
    · exact hindex

/-- Stepping over used indices ends at a free one that comes within the steps. -/
theorem avoidIndices_notMem {n home : ℕ} {steps k m : ℕ} (hkm : k ≤ m)
    (hm : m ≤ k + steps) (hfree : Probing.probe n home m ∉ used) :
    avoidIndices n used steps (Probing.probe n home k) ∉ used := by
  induction steps generalizing k with
  | zero =>
    obtain rfl : m = k := by omega
    exact hfree
  | succ steps ih =>
    rw [avoidIndices]
    split_ifs with hused
    · have hne : m ≠ k := by
        rintro rfl
        exact hfree (by simpa using hused)
      have hnext : (Probing.probe n home k + 1) % n = Probing.probe n home (k + 1) := by
        rw [Probing.probe, Probing.probe, Nat.mod_add_mod, Nat.add_assoc]
      rw [hnext]
      exact ih (by omega) (by omega)
    · simpa using hused

/-- With fewer used indices than cells, the one that is found is free. -/
theorem avoidIndices_fresh {n : ℕ} (hused : used.length < n) {index : ℕ}
    (hindex : index < n) : avoidIndices n used n index ∉ used := by
  have hcard : used.toFinset.card < (range n).card := by
    rw [card_range]
    exact lt_of_le_of_lt (List.toFinset_card_le used) hused
  obtain ⟨free, hfree, hnot⟩ := exists_mem_notMem_of_card_lt_card hcard
  obtain ⟨m, hm, hprobe⟩ := Probing.exists_probe_eq index (mem_range.mp hfree)
  rw [← Probing.probe_zero hindex]
  apply avoidIndices_notMem (Nat.zero_le m) (by omega)
  rw [hprobe]
  exact fun hmem => hnot (List.mem_toFinset.mpr hmem)

variable (blake3 : List UInt8 → Bytes 32)

/-- The indices of an object are in range, different, and three. -/
theorem indicesFor_spec {n : ℕ} (hn : ibltHashCount ≤ n) (x : ObjectId) :
    (∀ i ∈ indicesFor blake3 x n, i < n) ∧ (indicesFor blake3 x n).Nodup ∧
      (indicesFor blake3 x n).length = ibltHashCount := by
  have hloop : ∀ (domains : List (List UInt8)) (indices),
      indices.length + domains.length ≤ n → (∀ i ∈ indices, i < n) → indices.Nodup →
      let result := domains.foldl (fun indices domain => indices ++
        [avoidIndices n indices n (hashIndex blake3 domain x n)]) indices
      (∀ i ∈ result, i < n) ∧ result.Nodup ∧ result.length = indices.length + domains.length := by
    intro domains
    induction domains with
    | nil => exact fun indices _ hlt hnodup => ⟨hlt, hnodup, rfl⟩
    | cons domain domains ih =>
      intro indices hlen hlt hnodup
      rw [List.length_cons] at hlen
      have hindex : hashIndex blake3 domain x n < n := Nat.mod_lt _ (by omega)
      have hfresh := avoidIndices_fresh (by omega : indices.length < n) hindex
      have hinRange : avoidIndices n indices n (hashIndex blake3 domain x n) < n :=
        avoidIndices_lt n hindex
      have hstep := ih (indices ++ [avoidIndices n indices n (hashIndex blake3 domain x n)])
        (by simp only [List.length_append, List.length_cons, List.length_nil]; omega)
        (by
          intro i hi
          rcases List.mem_append.mp hi with hi | hi
          · exact hlt i hi
          · rw [List.mem_singleton.mp hi]
            exact hinRange)
        (hnodup.append (List.nodup_singleton _) (by simpa using hfresh))
      obtain ⟨hlt', hnodup', hlen'⟩ := hstep
      refine ⟨hlt', hnodup', hlen'.trans ?_⟩
      simp only [List.length_append, List.length_cons, List.length_nil]
      omega
  obtain ⟨hlt, hnodup, hlen⟩ := hloop indexHashDomains [] hn
    (fun i hi => absurd hi List.not_mem_nil) List.nodup_nil
  exact ⟨hlt, hnodup, hlen⟩

end Indices

variable (blake3 : List UInt8 → Bytes 32)

/-- The cells of an object in a table of `n` cells. -/
def cellsOf (n : ℕ) (x : ObjectId) : Finset ℕ := (indicesFor blake3 x n).toFinset

/-- The objects of a set that are entered into a cell. -/
abbrev keysAt (n : ℕ) (S : Finset ObjectId) (i : ℕ) : Finset ObjectId :=
  Peeling.residents (cellsOf blake3 n) S i

/-- The exclusive or of a set of objects. -/
def keyXor (S : Finset ObjectId) : ObjectId := S.fold Bytes.xor (Bytes.zeros 32) id

/-- The exclusive or of the hash checks of a set of objects. -/
def checkXor (S : Finset ObjectId) : UInt32 := S.fold (· ^^^ ·) 0 (hashCheckFor blake3)

/-- The cell that holds a set of objects with signs. -/
def contents (sgn : ObjectId → ℤ) (S : Finset ObjectId) : IbltCell :=
  ⟨∑ x ∈ S, sgn x, keyXor S, checkXor blake3 S⟩

/-- A count that does not reach the bounds of `i32`. -/
def InRange (count : ℤ) : Prop := -2 ^ 31 < count ∧ count < 2 ^ 31

variable {blake3} {sgn : ObjectId → ℤ} {S T : Finset ObjectId} {x : ObjectId}

theorem saturateI32_of_inRange {count : ℤ} (h : InRange count) : saturateI32 count = count := by
  unfold InRange at h
  unfold saturateI32
  omega

theorem contents_apply_insert (hx : x ∉ S) (hrange : InRange (∑ y ∈ insert x S, sgn y)) :
    (contents blake3 sgn S).apply blake3 x (sgn x) = contents blake3 sgn (insert x S) := by
  have hkeys : keyXor (insert x S) = Bytes.xor x (keyXor S) := fold_insert hx
  have hchecks : checkXor blake3 (insert x S) = hashCheckFor blake3 x ^^^ checkXor blake3 S :=
    fold_insert hx
  have hcomm : Bytes.xor (keyXor S) x = Bytes.xor x (keyXor S) := Std.Commutative.comm _ _
  rw [sum_insert hx, add_comm] at hrange
  rw [IbltCell.apply, contents, contents, saturateI32_of_inRange hrange, sum_insert hx,
    add_comm (sgn x), hkeys, hchecks, hcomm, UInt32.xor_comm]

theorem contents_apply_erase (hx : x ∈ S) (hrange : InRange (∑ y ∈ S.erase x, sgn y)) :
    (contents blake3 sgn S).apply blake3 x (-sgn x) = contents blake3 sgn (S.erase x) := by
  have hkeys : Bytes.xor (keyXor S) x = keyXor (S.erase x) :=
    fold_erase Bytes.xor_self Bytes.xor_zeros hx
  have hchecks : checkXor blake3 S ^^^ hashCheckFor blake3 x = checkXor blake3 (S.erase x) :=
    fold_erase (fun _ => UInt32.xor_self) (fun _ => UInt32.xor_zero) hx
  rw [sum_erase_eq_sub hx, sub_eq_add_neg] at hrange
  rw [IbltCell.apply, contents, contents, saturateI32_of_inRange hrange,
    sum_erase_eq_sub hx, sub_eq_add_neg, hkeys, hchecks]

/-- The sign of an object in the difference with a left-hand set. -/
def sideOf (A : Finset ObjectId) (x : ObjectId) : ℤ := if x ∈ A then 1 else -1

variable (blake3) in
/-- No exclusive or of two or more objects of the set passes the hash check. -/
def Separated (S : Finset ObjectId) : Prop :=
  ∀ S' ⊆ S, 2 ≤ S'.card → checkXor blake3 S' ≠ hashCheckFor blake3 (keyXor S')

theorem keyXor_singleton (x : ObjectId) : keyXor {x} = x := by
  rw [keyXor, fold_singleton, id, Bytes.xor_zeros]

theorem checkXor_singleton (x : ObjectId) : checkXor blake3 {x} = hashCheckFor blake3 x := by
  rw [checkXor, fold_singleton, UInt32.xor_zero]

/-- A cell passes as holding a single object exactly when it does. -/
theorem pureKey_contents_iff (hsgn : ∀ y, sgn y = 1 ∨ sgn y = -1) (hS : Separated blake3 S)
    {s : ℤ} : (contents blake3 sgn S).pureKey blake3 = some (x, s) ↔ S = {x} ∧ s = sgn x := by
  constructor
  · intro h
    unfold IbltCell.pureKey at h
    split_ifs at h with hcount hcheck
    cases h
    have hcard : S.card = 1 := by
      have hpos : S.card ≠ 0 := by
        intro hzero
        rw [card_eq_zero] at hzero
        subst hzero
        exact hcount ⟨by simp [contents], by simp [contents]⟩
      by_contra hne
      exact hS S (Subset.refl S) (by omega) hcheck
    obtain ⟨y, rfl⟩ := card_eq_one.mp hcard
    have hy : (contents blake3 sgn {y}).keySum = y := keyXor_singleton y
    have hcountY : (contents blake3 sgn {y}).count = sgn y := sum_singleton sgn y
    rw [hy, hcountY]
    refine ⟨rfl, ?_⟩
    rcases hsgn y with h | h <;> rw [h] <;> rfl
  · rintro ⟨rfl, rfl⟩
    unfold IbltCell.pureKey contents
    simp only [sum_singleton, keyXor_singleton, checkXor_singleton]
    rcases hsgn x with h | h <;> rw [h] <;> rfl

end Flywheel.Mesh
