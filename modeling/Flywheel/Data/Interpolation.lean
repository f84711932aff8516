import Mathlib.Data.List.GetD
import Mathlib.LinearAlgebra.Lagrange

/-!
# Coefficient lists and interpolation

Polynomials given by the list of their coefficients and evaluated by Horner's rule. Below a degree
bound a polynomial is determined by its values at as many points, and takes any values there.
-/

namespace Flywheel.Data

open Polynomial

variable {F : Type*} [Field F] (coeffs : List F)

/-- Horner's rule for a list of coefficients, the constant one first. -/
def horner (x : F) : F := coeffs.foldr (fun c acc => acc * x + c) 0

/-- The polynomial of a list of coefficients. -/
noncomputable def polynomialOf : List F → F[X]
  | [] => 0
  | c :: coeffs => polynomialOf coeffs * X + C c

theorem eval_polynomialOf (x : F) : (polynomialOf coeffs).eval x = horner coeffs x := by
  induction coeffs with
  | nil => exact eval_zero
  | cons c coeffs ih =>
    rw [polynomialOf, eval_add, eval_mul_X, eval_C, ih]
    rfl

theorem horner_zero (c : F) (coeffs : List F) : horner (c :: coeffs) 0 = c := by
  change horner coeffs 0 * 0 + c = c
  rw [mul_zero, zero_add]

theorem coeff_polynomialOf (i : ℕ) : (polynomialOf coeffs).coeff i = coeffs.getD i 0 := by
  induction coeffs generalizing i with
  | nil => simp [polynomialOf]
  | cons c coeffs ih =>
    cases i with
    | zero => simp [polynomialOf]
    | succ i => simp [polynomialOf, ih]

theorem degree_polynomialOf_lt : (polynomialOf coeffs).degree < coeffs.length := by
  rw [degree_lt_iff_coeff_zero]
  intro i hi
  rw [coeff_polynomialOf, List.getD_eq_default _ _ hi]

theorem eq_of_polynomialOf_eq {coeffs coeffs' : List F} (hlength : coeffs.length = coeffs'.length)
    (h : polynomialOf coeffs = polynomialOf coeffs') : coeffs = coeffs' := by
  refine List.ext_getElem hlength fun i hi hi' => ?_
  have hcoeff := congrArg (fun p => p.coeff i) h
  simp only [coeff_polynomialOf] at hcoeff
  rwa [List.getD_eq_getElem _ _ hi, List.getD_eq_getElem _ _ hi'] at hcoeff

theorem exists_polynomialOf_eq {p : F[X]} {n : ℕ} (hp : p.degree < n) :
    ∃ coeffs : List F, coeffs.length = n ∧ polynomialOf coeffs = p := by
  refine ⟨(List.range n).map p.coeff, by simp, ext fun i => ?_⟩
  rw [coeff_polynomialOf]
  by_cases hi : i < n
  · simp [hi]
  · rw [List.getD_eq_default _ _ (by simpa using hi)]
    exact ((degree_lt_iff_coeff_zero p n).mp hp i (by omega)).symm

section Lists

theorem zipIdx_eq_ofFn {α : Type*} (l : List α) :
    l.zipIdx = List.ofFn fun i : Fin l.length => (l[i], i.val) :=
  List.ext_getElem (by simp) fun i hi _ => by simp

theorem prod_skip {M : Type*} [CommMonoid M] {n : ℕ} (i : Fin n) (f : Fin n → M) :
    ∏ j, (if i.val = j.val then 1 else f j) = ∏ j ∈ Finset.univ.erase i, f j := by
  have hself : (if i.val = i.val then 1 else f i) = 1 := if_pos rfl
  rw [← Finset.prod_erase Finset.univ (f := fun j => if i.val = j.val then 1 else f j) hself]
  refine Finset.prod_congr rfl fun j hj => if_neg fun h => ?_
  exact Finset.ne_of_mem_erase hj (Fin.ext h).symm

end Lists

variable {ι : Type*} [DecidableEq ι] {s : Finset ι} {v : ι → F}

theorem eval_eq_sum_of_degree_lt {p : F[X]} (hv : Set.InjOn v s) (hp : p.degree < s.card) (x : F) :
    p.eval x = ∑ i ∈ s, p.eval (v i) *
      ((∏ j ∈ s.erase i, (x - v j)) / ∏ j ∈ s.erase i, (v i - v j)) := by
  conv_lhs => rw [Lagrange.eq_interpolate hv hp, Lagrange.interpolate_apply, eval_finsetSum]
  refine Finset.sum_congr rfl fun i _ => ?_
  rw [eval_mul, eval_C, Lagrange.basis, eval_prod, ← Finset.prod_div_distrib]
  congr 1
  refine Finset.prod_congr rfl fun j _ => ?_
  rw [Lagrange.basisDivisor, eval_mul, eval_C, eval_sub, eval_X, eval_C, div_eq_inv_mul]

/-- Exactly one list of coefficients takes given values at as many distinct points. -/
theorem existsUnique_horner (hv : Set.InjOn v s) (values : ι → F) :
    ∃! coeffs : List F, coeffs.length = s.card ∧ ∀ i ∈ s, horner coeffs (v i) = values i := by
  obtain ⟨coeffs, hlength, hcoeffs⟩ :=
    exists_polynomialOf_eq (Lagrange.degree_interpolate_lt values hv)
  refine ⟨coeffs, ⟨hlength, fun i hi => ?_⟩, fun coeffs' h => ?_⟩
  · rw [← eval_polynomialOf, hcoeffs, Lagrange.eval_interpolate_at_node values hv hi]
  · refine eq_of_polynomialOf_eq (h.1.trans hlength.symm) ?_
    rw [hcoeffs]
    refine Lagrange.eq_interpolate_of_eval_eq values hv ?_ fun i hi => ?_
    · rw [← h.1]
      exact degree_polynomialOf_lt coeffs'
    · rw [eval_polynomialOf, h.2 i hi]

end Flywheel.Data
