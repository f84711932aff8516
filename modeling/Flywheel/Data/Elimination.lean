import Mathlib.Algebra.Module.BigOperators
import Mathlib.Algebra.Module.LinearMap.Prod
import Mathlib.Data.Vector.Zip

/-!
# Gauss–Jordan elimination

A row of a linear system is a vector of coefficients together with a right-hand side in a module.
A tableau keeps the rows that were already used as pivots, each with its column, apart from the
pending ones. One pivot step keeps the solutions of the tableau and its reduced form, so every
elimination strategy that only makes pivot steps ends in one of two ways: all columns have a pivot
and the solution is read off, or a column without a pivot gives a nonzero vector of the kernel.
-/

namespace Flywheel.Data

open List

section Vectors

variable {F : Type*} {n : ℕ}

instance vectorAdd [Add F] : Add (List.Vector F n) := ⟨List.Vector.zipWith (· + ·)⟩

instance vectorZero [Zero F] : Zero (List.Vector F n) := ⟨List.Vector.replicate n 0⟩

instance vectorNeg [Neg F] : Neg (List.Vector F n) := ⟨List.Vector.map Neg.neg⟩

instance vectorSMul [Mul F] : SMul F (List.Vector F n) := ⟨fun k => List.Vector.map (k * ·)⟩

@[simp] theorem get_vectorAdd [Add F] (v w : List.Vector F n) (i : Fin n) :
    (v + w).get i = v.get i + w.get i :=
  Vector.zipWith_get _ v w i

@[simp] theorem get_vectorZero [Zero F] (i : Fin n) : (0 : List.Vector F n).get i = 0 :=
  List.Vector.get_replicate 0 i

@[simp] theorem get_vectorNeg [Neg F] (v : List.Vector F n) (i : Fin n) : (-v).get i = -v.get i :=
  List.Vector.get_map v _ i

@[simp] theorem get_vectorSMul [Mul F] (k : F) (v : List.Vector F n) (i : Fin n) :
    (k • v).get i = k * v.get i :=
  List.Vector.get_map v _ i

/-- Vectors of one length form a commutative group. -/
instance vectorAddCommGroup [AddCommGroup F] : AddCommGroup (List.Vector F n) where
  add_assoc u v w := List.Vector.ext fun i => by simp [add_assoc]
  zero_add v := List.Vector.ext fun i => by simp
  add_zero v := List.Vector.ext fun i => by simp
  add_comm v w := List.Vector.ext fun i => by simp [add_comm]
  neg_add_cancel v := List.Vector.ext fun i => by simp
  nsmul := nsmulRec
  zsmul := zsmulRec

/-- Vectors over a field form a module over it. -/
instance vectorModule [Field F] : Module F (List.Vector F n) where
  one_smul v := List.Vector.ext fun i => by simp
  mul_smul k l v := List.Vector.ext fun i => by simp [mul_assoc]
  smul_zero k := List.Vector.ext fun i => by simp
  smul_add k v w := List.Vector.ext fun i => by simp [mul_add]
  add_smul k l v := List.Vector.ext fun i => by simp [add_mul]
  zero_smul v := List.Vector.ext fun i => by simp

@[simp] theorem get_vectorSub [AddCommGroup F] (v w : List.Vector F n) (i : Fin n) :
    (v - w).get i = v.get i - w.get i := by
  rw [sub_eq_add_neg, get_vectorAdd, get_vectorNeg, ← sub_eq_add_neg]

end Vectors

variable {F V W : Type*} [Field F] [AddCommGroup V] [Module F V] [AddCommGroup W] [Module F W]
  {n : ℕ}

/-- A row of an augmented system: its coefficients and its right-hand side. -/
abbrev Row (F V : Type*) (n : ℕ) := List.Vector F n × V

/-- What an assignment `y` of the columns leaves of a row whose right-hand side is read through
`ρ`; it is zero exactly when `y` satisfies the row. -/
def residual (ρ : V →ₗ[F] W) (y : Fin n → W) : Row F V n →ₗ[F] W where
  toFun row := ∑ j, row.1.get j • y j - ρ row.2
  map_add' r s := by
    simp only [Prod.fst_add, Prod.snd_add, get_vectorAdd, add_smul, Finset.sum_add_distrib, map_add]
    abel
  map_smul' k r := by
    simp only [Prod.smul_fst, Prod.smul_snd, get_vectorSMul, mul_smul, ← Finset.smul_sum,
      map_smul, RingHom.id_apply, smul_sub]

theorem residual_apply (ρ : V →ₗ[F] W) (y : Fin n → W) (row : Row F V n) :
    residual ρ y row = ∑ j, row.1.get j • y j - ρ row.2 := rfl

/-- Pivot rows with their columns, and the rows that were not used yet. -/
structure Tableau (F V : Type*) (n : ℕ) where
  /-- The pivot rows, each tagged with the column it solves, in the order they were chosen. -/
  solved : List (Fin n × Row F V n)
  pending : List (Row F V n)

variable (t : Tableau F V n)

def Tableau.rows : List (Row F V n) := t.solved.map Prod.snd ++ t.pending

def Tableau.columns : List (Fin n) := t.solved.map Prod.fst

/-- Subtract from a row the multiple of the unit row that clears column `c`. -/
def clear (c : Fin n) (unit row : Row F V n) : Row F V n := row - row.1.get c • unit

/-- A row scaled to have coefficient one in column `c`. -/
def unitRow (c : Fin n) (row : Row F V n) : Row F V n := (row.1.get c)⁻¹ • row

/-- Take `row` as the pivot of column `c`, with `rest` the other pending rows. -/
def Tableau.pivot (c : Fin n) (row : Row F V n) (rest : List (Row F V n)) :
    Tableau F V n where
  solved := t.solved.map (fun p => (p.1, clear c (unitRow c row) p.2)) ++ [(c, unitRow c row)]
  pending := rest.map (clear c (unitRow c row))

/-- The form elimination keeps: a pivot row has a one in its own column, and every other row,
solved or pending, a zero. -/
structure Tableau.Reduced (t : Tableau F V n) : Prop where
  self : ∀ p ∈ t.solved, p.2.1.get p.1 = 1
  apart : t.solved.Pairwise fun p q => p.2.1.get q.1 = 0 ∧ q.2.1.get p.1 = 0
  pending : ∀ p ∈ t.solved, ∀ row ∈ t.pending, row.1.get p.1 = 0

theorem get_clear (c j : Fin n) (unit row : Row F V n) :
    (clear c unit row).1.get j = row.1.get j - row.1.get c * unit.1.get j := by
  simp [clear]

variable {c : Fin n} {row : Row F V n}

theorem get_unitRow (hc : row.1.get c ≠ 0) : (unitRow c row).1.get c = 1 := by
  simp [unitRow, hc]

variable (φ : Row F V n →ₗ[F] W)

theorem map_unitRow_eq_zero (hc : row.1.get c ≠ 0) : φ (unitRow c row) = 0 ↔ φ row = 0 := by
  rw [unitRow, map_smul]
  constructor
  · intro h
    rw [← smul_inv_smul₀ hc (φ row), h, smul_zero]
  · intro h
    rw [h, smul_zero]

/-- Clearing a row with a unit row that satisfies a linear condition keeps whether the row does. -/
theorem map_clear {unit : Row F V n} (hunit : φ unit = 0)
    (row : Row F V n) : φ (clear c unit row) = φ row := by
  rw [clear, map_sub, map_smul, hunit, smul_zero, sub_zero]

variable {t : Tableau F V n}

/-- The rows of a tableau satisfy a linear condition exactly when those of the pivoted one do. -/
theorem Tableau.forall_pivot_rows
    {rest : List (Row F V n)} (hperm : t.pending.Perm (row :: rest)) (hc : row.1.get c ≠ 0) :
    (∀ r ∈ (t.pivot c row rest).rows, φ r = 0) ↔ ∀ r ∈ t.rows, φ r = 0 := by
  have hmem : ∀ r, r ∈ t.pending ↔ r = row ∨ r ∈ rest := by simp [hperm.mem_iff]
  simp only [rows, pivot, mem_append, mem_map, map_append, hmem, map_map,
    map_cons, map_nil, mem_singleton]
  constructor
  · intro h
    have hunit : φ (unitRow c row) = 0 := h _ (.inl (.inr rfl))
    rintro r (⟨p, hp, rfl⟩ | rfl | hr)
    · rw [← map_clear φ hunit]
      exact h _ (.inl (.inl ⟨p, hp, rfl⟩))
    · exact (map_unitRow_eq_zero φ hc).mp hunit
    · rw [← map_clear φ hunit]
      exact h _ (.inr ⟨r, hr, rfl⟩)
  · intro h
    have hunit : φ (unitRow c row) = 0 := (map_unitRow_eq_zero φ hc).mpr (h _ (.inr (.inl rfl)))
    rintro r ((⟨p, hp, rfl⟩ | rfl) | ⟨r, hr, rfl⟩)
    · exact (map_clear φ hunit p.2).trans (h _ (.inl ⟨p, hp, rfl⟩))
    · exact hunit
    · exact (map_clear φ hunit r).trans (h _ (.inr (.inr hr)))

/-- Pivoting on a pending row with a nonzero coefficient keeps the reduced form. -/
theorem Tableau.Reduced.pivot (h : t.Reduced)
    {rest : List (Row F V n)} (hperm : t.pending.Perm (row :: rest)) (hc : row.1.get c ≠ 0) :
    (t.pivot c row rest).Reduced := by
  have hrow : ∀ p ∈ t.solved, (unitRow c row).1.get p.1 = 0 := fun p hp =>
    by simp [unitRow, h.pending p hp row (hperm.mem_iff.mpr (by simp))]
  have hrest : ∀ p ∈ t.solved, ∀ r ∈ rest, r.1.get p.1 = 0 := fun p hp r hr =>
    h.pending p hp r (hperm.mem_iff.mpr (by simp [hr]))
  have hcleared : ∀ r, (clear c (unitRow c row) r).1.get c = 0 := fun r => by
    rw [get_clear, get_unitRow hc, mul_one, sub_self]
  -- In a column that has a pivot the unit row is zero, so clearing changes no entry there.
  have hkept : ∀ p ∈ t.solved, ∀ r,
      (clear c (unitRow c row) r).1.get p.1 = r.1.get p.1 := fun p hp r => by
    rw [get_clear, hrow p hp, mul_zero, sub_zero]
  constructor
  · intro p hp
    simp only [Tableau.pivot, mem_append, mem_map, mem_singleton] at hp
    rcases hp with ⟨q, hq, rfl⟩ | rfl
    · exact (hkept q hq _).trans (h.self q hq)
    · exact get_unitRow hc
  · simp only [Tableau.pivot, pairwise_append, pairwise_map, mem_map,
      mem_singleton, pairwise_singleton, true_and]
    refine ⟨?_, ?_⟩
    · refine h.apart.imp_of_mem fun {p q} hp hq hpq => ?_
      exact ⟨(hkept q hq _).trans hpq.1, (hkept p hp _).trans hpq.2⟩
    · rintro _ ⟨p, hp, rfl⟩ _ rfl
      exact ⟨hcleared p.2, hrow p hp⟩
  · intro p hp r hr
    simp only [Tableau.pivot, mem_append, mem_map, mem_singleton] at hp hr
    obtain ⟨r, hr, rfl⟩ := hr
    rcases hp with ⟨q, hq, rfl⟩ | rfl
    · exact (hkept q hq r).trans (hrest q hq r hr)
    · exact hcleared r

variable {p : Fin n × Row F V n}

omit [AddCommGroup V] [Module F V] in
theorem Tableau.Reduced.get_of_ne (h : t.Reduced) {q : Fin n × Row F V n}
    (hp : p ∈ t.solved) (hq : q ∈ t.solved) (hne : p ≠ q) : p.2.1.get q.1 = 0 := by
  have hsymm : Std.Symm fun p q : Fin n × Row F V n =>
      p.2.1.get q.1 = 0 ∧ q.2.1.get p.1 = 0 := ⟨fun _ _ hpq => ⟨hpq.2, hpq.1⟩⟩
  exact (h.apart.forall hp hq hne).1

/-- When every column has a pivot, the right-hand sides of the pivot rows are the solution. -/
theorem Tableau.Reduced.eq_of_solved (h : t.Reduced)
    (hall : ∀ c, c ∈ t.columns) {ρ : V →ₗ[F] W} {y : Fin n → W}
    (hy : ∀ r ∈ t.rows, residual ρ y r = 0) (hp : p ∈ t.solved) :
    y p.1 = ρ p.2.2 := by
  have hzero : ∀ j ≠ p.1, p.2.1.get j = 0 := fun j hj => by
    obtain ⟨q, hq, rfl⟩ := mem_map.mp (hall j)
    exact h.get_of_ne hp hq fun heq => hj (congrArg Prod.fst heq.symm)
  have hres := hy p.2 (List.mem_append_left _ (List.mem_map_of_mem hp))
  rw [residual_apply, Finset.sum_eq_single p.1 (fun j _ hj => by rw [hzero j hj, zero_smul])
    (fun hmem => absurd (Finset.mem_univ _) hmem), h.self p hp, one_smul] at hres
  exact sub_eq_zero.mp hres

/-- The vector a column `f` without a pivot gives: one in `f`, the negated entry of its row in a
column with a pivot, and zero elsewhere. -/
def Tableau.freeVector (f j : Fin n) : F :=
  if j = f then 1 else
    match t.solved.find? (fun p => p.1 = j) with
    | some p => -p.2.1.get f
    | none => 0

omit [AddCommGroup V] [Module F V] in
theorem Tableau.freeVector_self (f : Fin n) : t.freeVector f f = 1 :=
  if_pos rfl

omit [AddCommGroup V] [Module F V] in
theorem Tableau.freeVector_of_notMem {f j : Fin n} (hj : j ≠ f)
    (hcol : j ∉ t.columns) : t.freeVector f j = 0 := by
  have hnone : t.solved.find? (fun p => p.1 = j) = none := by
    rw [find?_eq_none]
    intro p hp heq
    exact hcol (mem_map.mpr ⟨p, hp, by simpa using heq⟩)
  simp only [freeVector, if_neg hj, hnone]

omit [AddCommGroup V] [Module F V] in
/-- In the column of a pivot row the free vector is that row's negated entry. -/
theorem Tableau.Reduced.freeVector_of_mem (h : t.Reduced) {f : Fin n}
    (hp : p ∈ t.solved) (hpf : p.1 ≠ f) :
    t.freeVector f p.1 = -p.2.1.get f := by
  cases hfind : t.solved.find? (fun q => q.1 = p.1) with
  | none =>
    have hnone := find?_eq_none.mp hfind p hp
    simp at hnone
  | some q =>
    have hq := mem_of_find?_eq_some hfind
    have hqp : q.1 = p.1 := by simpa using find?_some hfind
    have heq : q = p := by
      by_contra hne
      have hzero := h.get_of_ne hq hp hne
      rw [← hqp, h.self q hq] at hzero
      exact one_ne_zero hzero
    simp only [freeVector, if_neg hpf, hfind, heq]

omit [AddCommGroup V] [Module F V] in
/-- A column without a pivot in which every pending row is zero gives a nonzero vector that all
rows send to zero. -/
theorem Tableau.Reduced.exists_kernel (h : t.Reduced) {f : Fin n}
    (hf : f ∉ t.columns) (hpending : ∀ r ∈ t.pending, r.1.get f = 0) :
    ∃ z : Fin n → F, z f = 1 ∧ ∀ r ∈ t.rows, ∑ j, r.1.get j * z j = 0 := by
  refine ⟨t.freeVector f, t.freeVector_self f, fun r hr => ?_⟩
  rcases mem_append.mp hr with hr | hr
  · obtain ⟨p, hp, rfl⟩ := mem_map.mp hr
    have hpf : p.1 ≠ f := fun heq => hf (heq ▸ mem_map_of_mem hp)
    rw [Finset.sum_eq_add_of_mem p.1 f (Finset.mem_univ _) (Finset.mem_univ _) hpf, h.self p hp,
      h.freeVector_of_mem hp hpf, t.freeVector_self, one_mul, mul_one, neg_add_cancel]
    intro j _ hj
    by_cases hcol : j ∈ t.columns
    · obtain ⟨q, hq, rfl⟩ := mem_map.mp hcol
      rw [h.get_of_ne hp hq fun heq => hj.1 (congrArg Prod.fst heq.symm), zero_mul]
    · rw [freeVector_of_notMem hj.2 hcol, mul_zero]
  · refine Finset.sum_eq_zero fun j _ => ?_
    by_cases hj : j = f
    · rw [hj, hpending r hr, zero_mul]
    · by_cases hcol : j ∈ t.columns
      · obtain ⟨p, hp, rfl⟩ := mem_map.mp hcol
        rw [h.pending p hp r hr, zero_mul]
      · rw [freeVector_of_notMem hj hcol, mul_zero]

/-- The tableaux that pivot steps lead to. -/
inductive Tableau.Pivots : Tableau F V n → Tableau F V n → Prop
  | refl (t : Tableau F V n) : t.Pivots t
  | step {t t' : Tableau F V n} {c : Fin n} {row : Row F V n} {rest : List (Row F V n)}
    (hperm : t.pending.Perm (row :: rest)) (hc : row.1.get c ≠ 0)
    (h : (t.pivot c row rest).Pivots t') : t.Pivots t'

theorem Tableau.Pivots.forall_rows {t' : Tableau F V n} (h : t.Pivots t') :
    (∀ r ∈ t'.rows, φ r = 0) ↔ ∀ r ∈ t.rows, φ r = 0 := by
  induction h with
  | refl => rfl
  | step hperm hc _ ih => exact ih.trans (forall_pivot_rows φ hperm hc)

variable {rows : List (Row F V n)} (h : (Tableau.mk [] rows).Pivots t)
include h

theorem Tableau.Pivots.reduced : t.Reduced := by
  have hpivots : ∀ {t t' : Tableau F V n}, t.Pivots t' → t.Reduced → t'.Reduced := by
    intro t t' h
    induction h with
    | refl => exact id
    | step hperm hc _ ih => exact fun ht => ih (ht.pivot hperm hc)
  exact hpivots h ⟨by simp, by simp, by simp⟩

/-- A column without a pivot that no pending row has gives a nonzero vector that all rows sent to
zero from the start. -/
theorem Tableau.Pivots.exists_kernel {f : Fin n} (hf : f ∉ t.columns)
    (hpending : ∀ r ∈ t.pending, r.1.get f = 0) :
    ∃ z : Fin n → F, z f = 1 ∧ ∀ r ∈ rows, residual (0 : V →ₗ[F] F) z r = 0 := by
  obtain ⟨z, hzf, hz⟩ := h.reduced.exists_kernel hf hpending
  exact ⟨z, hzf, (h.forall_rows _).mp fun r hr => by simpa [residual_apply] using hz r hr⟩

end Flywheel.Data
