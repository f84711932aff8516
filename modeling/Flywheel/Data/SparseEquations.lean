import Mathlib.Algebra.Module.BigOperators
import Mathlib.Algebra.Module.LinearMap.Defs

/-!
# Sparse linear equations

The left-hand side of a sparse equation is a list of terms, each a column with its coefficient. The
value of the terms at an assignment of the columns does not change when they are sorted, when terms
of one column are merged and when zero coefficients are dropped, and taking a column out subtracts
its share.
-/

namespace Flywheel.Data

open List

variable {F W : Type*} [Field F] [AddCommGroup W] [Module F W]

/-- The value of the terms at an assignment of the columns. -/
def dot (y : ℕ → W) (terms : List (ℕ × F)) : W := (terms.map fun t => t.2 • y t.1).sum

section Values

variable (y : ℕ → W)

@[simp] theorem dot_nil : dot y ([] : List (ℕ × F)) = 0 := rfl

@[simp] theorem dot_cons (t : ℕ × F) (terms : List (ℕ × F)) :
    dot y (t :: terms) = t.2 • y t.1 + dot y terms := by
  rw [dot, map_cons, sum_cons, dot]

theorem dot_perm {terms terms' : List (ℕ × F)} (h : terms.Perm terms') :
    dot y terms = dot y terms' :=
  (h.map _).sum_eq

theorem dot_congr {y z : ℕ → W} {terms : List (ℕ × F)} (h : ∀ t ∈ terms, y t.1 = z t.1) :
    dot y terms = dot z terms := by
  induction terms with
  | nil => rfl
  | cons t terms ih =>
    rw [dot_cons, dot_cons, h t (mem_cons_self ..),
      ih fun t' ht' => h t' (mem_cons_of_mem _ ht')]

theorem map_dot {V : Type*} [AddCommGroup V] [Module F V] (φ : V →ₗ[F] W) (y : ℕ → V)
    (terms : List (ℕ × F)) : φ (dot y terms) = dot (fun c => φ (y c)) terms := by
  induction terms with
  | nil => exact map_zero φ
  | cons t terms ih => rw [dot_cons, dot_cons, map_add, map_smul, ih]

theorem dot_add (y z : ℕ → W) (terms : List (ℕ × F)) :
    dot (fun c => y c + z c) terms = dot y terms + dot z terms := by
  induction terms with
  | nil => exact (add_zero 0).symm
  | cons t terms ih =>
    rw [dot_cons, ih, smul_add]
    exact add_add_add_comm _ _ _ _

/-- The value of a dense row written with its nonzero entries only. -/
theorem dot_filter_range [DecidableEq F] (y : ℕ → W) (f : ℕ → F) (n : ℕ) :
    dot y (((range n).map fun c => (c, f c)).filter fun t => t.2 ≠ 0) =
      ∑ c ∈ Finset.range n, f c • y c := by
  induction n with
  | zero => rfl
  | succ n ih =>
    rw [range_succ, map_append, filter_append, Finset.sum_range_succ, dot,
      map_append, sum_append]
    congr 1
    by_cases hzero : f n = 0 <;> simp [hzero]

end Values

/-- The coefficient of a column, or zero. -/
def coefOf (terms : List (ℕ × F)) (c : ℕ) : F := (terms.lookup c).getD 0

/-- The terms without the first one of a column. -/
def dropColumn (terms : List (ℕ × F)) (c : ℕ) : List (ℕ × F) := terms.eraseP fun t => t.1 = c

section Columns

theorem coefOf_cons_self (c : ℕ) (a : F) (terms : List (ℕ × F)) :
    coefOf ((c, a) :: terms) c = a := by
  rw [coefOf, lookup_cons_self, Option.getD_some]

theorem coefOf_cons_of_ne {c d : ℕ} (h : d ≠ c) (a : F) (terms : List (ℕ × F)) :
    coefOf ((c, a) :: terms) d = coefOf terms d := by
  rw [coefOf, lookup_cons, beq_eq_false_iff_ne.mpr h, coefOf]

omit [Field F] in
theorem dropColumn_cons_self (c : ℕ) (a : F) (terms : List (ℕ × F)) :
    dropColumn ((c, a) :: terms) c = terms :=
  eraseP_cons_of_pos (by simp)

omit [Field F] in
theorem dropColumn_cons_of_ne {c d : ℕ} (h : d ≠ c) (a : F) (terms : List (ℕ × F)) :
    dropColumn ((c, a) :: terms) d = (c, a) :: dropColumn terms d :=
  eraseP_cons_of_neg (by simpa using h.symm)

/-- Taking a column out subtracts its share. -/
theorem dot_dropColumn (y : ℕ → W) (terms : List (ℕ × F)) (c : ℕ) :
    dot y terms = coefOf terms c • y c + dot y (dropColumn terms c) := by
  induction terms with
  | nil => simp [coefOf, dropColumn]
  | cons t terms ih =>
    obtain ⟨d, a⟩ := t
    by_cases hcd : c = d
    · subst hcd
      rw [coefOf_cons_self, dropColumn_cons_self, dot_cons]
    · rw [coefOf_cons_of_ne hcd, dropColumn_cons_of_ne hcd, dot_cons, ih]
      exact add_left_comm _ _ _

/-- The coefficients of the other columns stay. -/
theorem coefOf_dropColumn {c d : ℕ} (h : d ≠ c) (terms : List (ℕ × F)) :
    coefOf (dropColumn terms c) d = coefOf terms d := by
  induction terms with
  | nil => rfl
  | cons t terms ih =>
    obtain ⟨e, a⟩ := t
    by_cases hce : c = e
    · subst hce
      rw [dropColumn_cons_self, coefOf_cons_of_ne h]
    · rw [dropColumn_cons_of_ne hce]
      by_cases hde : d = e
      · subst hde
        rw [coefOf_cons_self, coefOf_cons_self]
      · rw [coefOf_cons_of_ne hde, coefOf_cons_of_ne hde, ih]

/-- Distinct columns with nonzero coefficients, as an equation keeps them. -/
structure Normal (terms : List (ℕ × F)) : Prop where
  nodup : (terms.map Prod.fst).Nodup
  nonzero : ∀ t ∈ terms, t.2 ≠ 0

variable {terms : List (ℕ × F)}

/-- The coefficient of a term's column is the term's. -/
theorem Normal.coefOf_of_mem (h : Normal terms) {t : ℕ × F}
    (ht : t ∈ terms) : coefOf terms t.1 = t.2 := by
  have hnodup := h.nodup
  clear h
  induction terms with
  | nil => cases ht
  | cons head terms ih =>
    obtain ⟨d, a⟩ := head
    rw [map_cons, nodup_cons] at hnodup
    rcases mem_cons.mp ht with rfl | ht
    · exact coefOf_cons_self ..
    · have hne : t.1 ≠ d := fun heq => hnodup.1 (mem_map.mpr ⟨t, ht, heq⟩)
      rw [coefOf_cons_of_ne hne, ih ht hnodup.2]

theorem Normal.dropColumn (h : Normal terms) (c : ℕ) :
    Normal (dropColumn terms c) where
  nodup := h.nodup.sublist (eraseP_sublist.map _)
  nonzero t ht := h.nonzero t (mem_of_mem_eraseP ht)

omit [Field F] in
/-- A column taken out of terms that name no column twice is gone. -/
theorem ne_of_mem_dropColumn (hnodup : (terms.map Prod.fst).Nodup) {c : ℕ}
    {t : ℕ × F} (ht : t ∈ dropColumn terms c) : t.1 ≠ c := by
  induction terms with
  | nil => simp [dropColumn] at ht
  | cons head terms ih =>
    obtain ⟨d, a⟩ := head
    rw [map_cons, nodup_cons] at hnodup
    by_cases hcd : c = d
    · subst hcd
      rw [dropColumn_cons_self] at ht
      exact fun htc => hnodup.1 (mem_map.mpr ⟨t, ht, htc⟩)
    · rw [dropColumn_cons_of_ne hcd] at ht
      rcases mem_cons.mp ht with rfl | ht
      · exact Ne.symm hcd
      · exact ih hnodup.2 ht

/-- The value of terms that name no column twice, as a sum over a list of columns that holds all of
theirs. -/
theorem dot_eq_sum (hterms : (terms.map Prod.fst).Nodup) (y : ℕ → W)
    {columns : List ℕ} (hnodup : columns.Nodup) (hsub : ∀ t ∈ terms, t.1 ∈ columns) :
    dot y terms = (columns.map fun c => coefOf terms c • y c).sum := by
  induction columns generalizing terms with
  | nil =>
    cases terms with
    | nil => rfl
    | cons t terms => exact absurd (hsub t (mem_cons_self ..)) not_mem_nil
  | cons c columns ih =>
    rw [nodup_cons] at hnodup
    have hdrop : dot y (dropColumn terms c) =
        (columns.map fun d => coefOf (dropColumn terms c) d • y d).sum :=
      ih (hterms.sublist (eraseP_sublist.map _)) hnodup.2 fun t ht =>
        (mem_cons.mp (hsub t (mem_of_mem_eraseP ht))).resolve_left
          (ne_of_mem_dropColumn hterms ht)
    rw [dot_dropColumn y terms c, hdrop]
    congr 2
    refine map_congr_left fun c' hc' => ?_
    have hne : c' ≠ c := fun heq => hnodup.1 (heq ▸ hc')
    rw [coefOf_dropColumn hne]

/-- The value of terms that name no column twice at a unit vector is the coefficient there. -/
theorem dot_unit (hnodup : (terms.map Prod.fst).Nodup) (c : ℕ) :
    dot (fun i => if i = c then (1 : F) else 0) terms = coefOf terms c := by
  have hrest : dot (fun i => if i = c then (1 : F) else 0) (dropColumn terms c) = 0 := by
    rw [dot, map_congr_left fun t ht => by rw [if_neg (ne_of_mem_dropColumn hnodup ht)]]
    simp
  rw [dot_dropColumn _ terms c, hrest, if_pos rfl, smul_eq_mul, mul_one, add_zero]

end Columns

/-- Add the coefficients of neighbouring terms of one column; `last` is the term before `terms`. -/
def mergeInto (last : ℕ × F) : List (ℕ × F) → List (ℕ × F)
  | [] => [last]
  | t :: terms =>
    if t.1 = last.1 then mergeInto (last.1, last.2 + t.2) terms else last :: mergeInto t terms

/-- The terms of an equation: sorted by column, one term a column, no zero coefficients. -/
def normalTerms [DecidableEq F] (terms : List (ℕ × F)) : List (ℕ × F) :=
  match terms.mergeSort (fun t u => t.1 ≤ u.1) with
  | [] => []
  | t :: rest => (mergeInto t rest).filter fun t => t.2 ≠ 0

theorem dot_mergeInto (y : ℕ → W) (last : ℕ × F) (terms : List (ℕ × F)) :
    dot y (mergeInto last terms) = dot y (last :: terms) := by
  induction terms generalizing last with
  | nil => rfl
  | cons t terms ih =>
    rw [mergeInto]
    split_ifs with hcol
    · rw [ih, dot_cons, dot_cons, dot_cons, hcol, add_smul, add_assoc]
    · rw [dot_cons, ih, dot_cons y last]

variable {terms : List (ℕ × F)}

/-- Merging sorted terms gives strictly sorted columns, none to the left of the first one. -/
theorem pairwise_mergeInto {last : ℕ × F} (h : (last :: terms).Pairwise fun t u => t.1 ≤ u.1) :
    (mergeInto last terms).Pairwise (fun t u => t.1 < u.1) ∧
      ∀ t ∈ mergeInto last terms, last.1 ≤ t.1 := by
  induction terms generalizing last with
  | nil => exact ⟨pairwise_singleton _ _, by simp [mergeInto]⟩
  | cons t terms ih =>
    rw [pairwise_cons, forall_mem_cons] at h
    obtain ⟨⟨hle, hlast⟩, hrest⟩ := h
    rw [mergeInto]
    split_ifs with hcol
    · refine ih (pairwise_cons.mpr ⟨hlast, (pairwise_cons.mp hrest).2⟩)
    · obtain ⟨hsorted, hbound⟩ := ih hrest
      have hlt : ∀ u ∈ mergeInto t terms, last.1 < u.1 := fun u hu => by
        have := hbound u hu
        omega
      refine ⟨pairwise_cons.mpr ⟨hlt, hsorted⟩, ?_⟩
      rintro u hu
      rcases mem_cons.mp hu with rfl | hu
      · exact le_rfl
      · exact (hlt u hu).le

theorem mem_columns_mergeInto {last : ℕ × F} {t : ℕ × F}
    (h : t ∈ mergeInto last terms) : ∃ u ∈ last :: terms, u.1 = t.1 := by
  induction terms generalizing last with
  | nil => exact ⟨t, h, rfl⟩
  | cons head terms ih =>
    rw [mergeInto] at h
    split_ifs at h with hcol
    · obtain ⟨u, hu, hut⟩ := ih h
      rcases mem_cons.mp hu with rfl | hu
      · exact ⟨last, mem_cons_self .., hut⟩
      · exact ⟨u, mem_cons_of_mem _ (mem_cons_of_mem _ hu), hut⟩
    · rcases mem_cons.mp h with rfl | h
      · exact ⟨t, mem_cons_self .., rfl⟩
      · obtain ⟨u, hu, hut⟩ := ih h
        exact ⟨u, mem_cons_of_mem _ hu, hut⟩

theorem dot_filter_ne_zero [DecidableEq F] (y : ℕ → W) (terms : List (ℕ × F)) :
    dot y (terms.filter fun t => t.2 ≠ 0) = dot y terms := by
  induction terms with
  | nil => rfl
  | cons t terms ih =>
    by_cases hzero : t.2 = 0
    · rw [filter_cons_of_neg (by simpa using hzero), ih, dot_cons, hzero, zero_smul, zero_add]
    · rw [filter_cons_of_pos (by simpa using hzero), dot_cons, dot_cons, ih]

variable [DecidableEq F]

theorem dot_normalTerms (y : ℕ → W) (terms : List (ℕ × F)) :
    dot y (normalTerms terms) = dot y terms := by
  have hperm := mergeSort_perm terms fun t u => t.1 ≤ u.1
  unfold normalTerms
  split
  case h_1 hnil => rw [← dot_perm y hperm, hnil]
  case h_2 t rest hcons => rw [dot_filter_ne_zero, dot_mergeInto, ← hcons, dot_perm y hperm]

theorem normal_normalTerms (terms : List (ℕ × F)) : Normal (normalTerms terms) := by
  have hsorted : (terms.mergeSort fun t u => t.1 ≤ u.1).Pairwise
      fun t u => decide (t.1 ≤ u.1) = true :=
    pairwise_mergeSort (fun _ _ _ => by simpa using Nat.le_trans)
      (fun t u => by simpa using Nat.le_total t.1 u.1) terms
  unfold normalTerms
  split
  case h_1 => exact ⟨nodup_nil, by simp⟩
  case h_2 t rest hcons =>
    rw [hcons] at hsorted
    have hmerged := (pairwise_mergeInto (by simpa using hsorted)).1
    refine ⟨?_, fun t ht => by simpa using (mem_filter.mp ht).2⟩
    rw [nodup_iff_pairwise_ne, pairwise_map]
    exact (hmerged.filter _).imp fun h => Nat.ne_of_lt h

theorem mem_columns_normalTerms {t : ℕ × F} (h : t ∈ normalTerms terms) :
    ∃ u ∈ terms, u.1 = t.1 := by
  have hperm := mergeSort_perm terms fun t u => t.1 ≤ u.1
  unfold normalTerms at h
  split at h
  case h_1 => cases h
  case h_2 head rest hcons =>
    obtain ⟨u, hu, hut⟩ := mem_columns_mergeInto (mem_filter.mp h).1
    exact ⟨u, hperm.mem_iff.mp (hcons ▸ hu), hut⟩

end Flywheel.Data
