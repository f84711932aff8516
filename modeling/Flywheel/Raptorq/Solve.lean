import Flywheel.Raptorq.Systematic

/-!
# The dense solver

Scaling and eliminating rows is the pivot step of a tableau, so the solver keeps the solutions of
its system. If it returns a vector, every solution of the system is that vector; if it returns
nothing, the coefficients have a nonzero kernel vector.
-/

namespace Flywheel.Raptorq

open Flywheel.Data List

variable {T n : ℕ}

section Steps

theorem scalePivotRow_eq (c : Fin n) (row : Row Gf256 (Symbol T) n) :
    scalePivotRow c row = unitRow c row := by
  refine Prod.ext ?_ ?_
  · refine List.Vector.ext fun i => ?_
    simp [scalePivotRow, unitRow, mul_comm]
  · simp [scalePivotRow, unitRow, gf256MulSlice_eq]

/-- Elimination is the tableau's clearing of a column. -/
theorem eliminateRow_eq (c : Fin n) (pivot row : Row Gf256 (Symbol T) n) :
    eliminateRow c pivot row = clear c pivot row := by
  simp only [eliminateRow, clear]
  split_ifs with hzero
  · rw [hzero, zero_smul, sub_zero]
  · refine Prod.ext ?_ ?_
    · rw [Prod.fst_sub, symbol_sub_eq_add]
      refine List.Vector.ext fun i => ?_
      simp
    · rw [Prod.snd_sub, symbol_sub_eq_add, gf256AddmulSlice_eq]
      rfl

theorem pivotStep_eq (t : Tableau Gf256 (Symbol T) n) (c : Fin n) (row : Row Gf256 (Symbol T) n)
    (rest : List (Row Gf256 (Symbol T) n)) : pivotStep t c row rest = t.pivot c row rest := by
  have hclear : eliminateRow c (unitRow c row) = clear c (unitRow c row) :=
    funext fun r => eliminateRow_eq c _ r
  simp only [pivotStep, Tableau.pivot, scalePivotRow_eq, hclear]

end Steps

section Selection

variable {used : List (Fin n)} {row : Row Gf256 (Symbol T) n}

/-- A row without a degree vanishes in every unused column. -/
theorem get_of_unusedDegree_eq_none
    (h : unusedDegree used row = none) {c : Fin n} (hc : c ∉ used) : row.1.get c = 0 := by
  unfold unusedDegree at h
  split at h
  case h_1 hnil =>
    by_contra hne
    have hmem : c ∈ (finRange n).filter (fun c => c ∉ used ∧ row.1.get c ≠ 0) := by
      simp [hc, hne]
    rw [hnil] at hmem
    exact absurd hmem not_mem_nil
  case h_2 => exact absurd h (by simp)

/-- The pivot column of a row has a nonzero entry. -/
theorem get_of_unusedDegree_eq_some {c : Fin n} {deg : ℕ}
    (h : unusedDegree used row = some (c, deg)) : row.1.get c ≠ 0 := by
  unfold unusedDegree at h
  split at h
  case h_1 => exact absurd h (by simp)
  case h_2 d rest hcons =>
    obtain ⟨rfl, -⟩ : d = c ∧ rest.length + 1 = deg := by simpa using h
    have hmem : d ∈ (finRange n).filter (fun c => c ∉ used ∧ row.1.get c ≠ 0) := by
      rw [hcons]
      exact mem_cons_self
    have hprop := (mem_filter.mp hmem).2
    simp only [decide_eq_true_eq] at hprop
    exact hprop.2

variable {rows : List (Row Gf256 (Symbol T) n)} {best : Option (ℕ × Fin n × ℕ)}

/-- The scan returns its best candidate so far or a row further on, with a nonzero entry in the
pivot column. -/
theorem selectMinDegree_eq_some {start r deg : ℕ} {c : Fin n}
    (h : selectMinDegree used rows start best = some (r, c, deg)) :
    best = some (r, c, deg) ∨
      ∃ k row, r = start + k ∧ rows[k]? = some row ∧ row.1.get c ≠ 0 := by
  induction rows generalizing start best with
  | nil => exact .inl h
  | cons head rest ih =>
    have hlater : ∀ {best'}, selectMinDegree used rest (start + 1) best' = some (r, c, deg) →
        best' = some (r, c, deg) ∨ ∃ k row, r = start + k ∧ (head :: rest)[k]? = some row ∧
          row.1.get c ≠ 0 := fun hrest => by
      rcases ih hrest with hbest | ⟨k, row, rfl, hrow, hne⟩
      · exact .inl hbest
      · exact .inr ⟨k + 1, row, by omega, by simpa using hrow, hne⟩
    rw [selectMinDegree] at h
    cases hdeg : unusedDegree used head with
    | none =>
      rw [hdeg] at h
      exact hlater h
    | some pair =>
      obtain ⟨d, deg'⟩ := pair
      have hne := get_of_unusedDegree_eq_some hdeg
      simp only [hdeg] at h
      split_ifs at h with hbetter hone
      · obtain ⟨rfl, rfl, -⟩ : start = r ∧ d = c ∧ deg' = deg := by simpa using h
        exact .inr ⟨0, head, rfl, rfl, hne⟩
      · rcases hlater h with hbest | hfound
        · obtain ⟨rfl, rfl, -⟩ : start = r ∧ d = c ∧ deg' = deg := by simpa using hbest
          exact .inr ⟨0, head, rfl, rfl, hne⟩
        · exact .inr hfound
      · exact hlater h

/-- A scan without a result saw only rows that vanish in the unused columns. -/
theorem selectMinDegree_eq_none {start : ℕ} (h : selectMinDegree used rows start best = none) :
    best = none ∧ ∀ row ∈ rows, ∀ c ∉ used, row.1.get c = 0 := by
  induction rows generalizing start best with
  | nil => exact ⟨h, by simp⟩
  | cons head rest ih =>
    rw [selectMinDegree] at h
    cases hdeg : unusedDegree used head with
    | none =>
      rw [hdeg] at h
      obtain ⟨hbest, hrest⟩ := ih h
      refine ⟨hbest, fun row hrow c hc => ?_⟩
      rcases mem_cons.mp hrow with rfl | hrow
      · exact get_of_unusedDegree_eq_none hdeg hc
      · exact hrest row hrow c hc
    | some pair =>
      simp only [hdeg] at h
      split_ifs at h with hbetter hone
      · exact absurd (ih h).1 (by simp)
      · obtain ⟨hbest, -⟩ := ih h
        rw [hbest] at hbetter
        exact absurd rfl hbetter

/-- Taking out a position by a swap leaves the other rows. -/
theorem perm_swapOut {α : Type*} {rows : List α} {r : ℕ} {row : α} (h : rows[r]? = some row) :
    rows.Perm (row :: swapOut rows r) := by
  cases rows with
  | nil => simp at h
  | cons head rest =>
    cases r with
    | zero =>
      obtain rfl : head = row := by simpa using h
      exact .refl _
    | succ r =>
      have hrest : rest[r]? = some row := by simpa using h
      obtain ⟨hr, hget⟩ := List.getElem?_eq_some_iff.mp hrest
      have hset := set_perm_cons_eraseIdx hr head
      have horig := (getElem_cons_eraseIdx_perm hr).symm
      rw [hget] at horig
      exact ((horig.cons head).trans (Perm.swap _ _ _)).trans (hset.symm.cons row)

end Selection

section Loop

variable {W : Type*} [AddCommGroup W] [Module Gf256 W] {t : Tableau Gf256 (Symbol T) n}

theorem solveLoop_of_none
    (h : selectMinDegree t.columns t.pending 0 none = none) (steps : ℕ) : solveLoop steps t = t := by
  induction steps with
  | zero => rfl
  | succ steps ih => rw [solveLoop, h, ih]

/-- One turn of the loop finds no row to use, or makes a pivot step on a pending row. -/
theorem solveLoop_succ_cases (steps : ℕ) (t : Tableau Gf256 (Symbol T) n) :
    (selectMinDegree t.columns t.pending 0 none = none ∧ solveLoop (steps + 1) t = t) ∨
      ∃ c row rest, t.pending.Perm (row :: rest) ∧ row.1.get c ≠ 0 ∧
        solveLoop (steps + 1) t = solveLoop steps (t.pivot c row rest) := by
  cases hselect : selectMinDegree t.columns t.pending 0 none with
  | none => exact .inl ⟨rfl, solveLoop_of_none hselect _⟩
  | some found =>
    obtain ⟨r, c, deg⟩ := found
    obtain ⟨k, row, hk, hrow, hne⟩ := (selectMinDegree_eq_some hselect).resolve_left (by simp)
    obtain rfl : r = k := by omega
    refine .inr ⟨c, row, swapOut t.pending r, perm_swapOut hrow, hne, ?_⟩
    rw [solveLoop]
    simp only [hselect, hrow, pivotStep_eq]

theorem pivots_solveLoop (steps : ℕ) (t : Tableau Gf256 (Symbol T) n) :
    t.Pivots (solveLoop steps t) := by
  induction steps generalizing t with
  | zero => exact .refl t
  | succ steps ih =>
    rcases solveLoop_succ_cases steps t with ⟨-, heq⟩ | ⟨c, row, rest, hperm, hne, heq⟩ <;> rw [heq]
    · exact .refl t
    · exact .step hperm hne (ih _)

/-- Every turn of the loop finds a pivot, or the rows left vanish in the columns left. -/
theorem solveLoop_progress (steps : ℕ) (t : Tableau Gf256 (Symbol T) n) :
    (solveLoop steps t).columns.length = t.columns.length + steps ∨
      ∀ row ∈ (solveLoop steps t).pending, ∀ c ∉ (solveLoop steps t).columns,
        row.1.get c = 0 := by
  induction steps generalizing t with
  | zero => exact .inl rfl
  | succ steps ih =>
    rcases solveLoop_succ_cases steps t with ⟨hnone, heq⟩ | ⟨c, row, rest, -, -, heq⟩ <;> rw [heq]
    · exact .inr (selectMinDegree_eq_none hnone).2
    · rcases ih (t.pivot c row rest) with hlength | hstuck
      · refine .inl (hlength.trans ?_)
        simp only [Tableau.columns, Tableau.pivot, length_append,
          length_map, length_cons, length_nil]
        omega
      · exact .inr hstuck

end Loop

namespace ConstraintMatrix

variable {rows : ℕ} {m : ConstraintMatrix rows n} {rhs : List.Vector (Symbol T) rows}
  {W : Type*} [AddCommGroup W] [Module Gf256 W]

variable {ρ : Symbol T →ₗ[Gf256] W} {t : Tableau Gf256 (Symbol T) n}

/-- In a reduced tableau with a pivot in every column, a solution is read off the solved rows. -/
theorem eq_solvedSymbol (hreduced : t.Reduced) (hall : ∀ c, c ∈ t.columns) {y : Fin n → W}
    (hrows : ∀ r ∈ t.rows, residual ρ y r = 0) (c : Fin n) : y c = ρ (solvedSymbol t c) := by
  obtain ⟨p, hp, rfl⟩ := mem_map.mp (hall c)
  rw [solvedSymbol]
  cases hfind : t.solved.find? (fun q => q.1 = p.1) with
  | none =>
    have hnone := find?_eq_none.mp hfind p hp
    simp at hnone
  | some q =>
    have hq : q.1 = p.1 := by simpa using find?_some hfind
    have heq := hreduced.eq_of_solved hall hrows (mem_of_find?_eq_some hfind)
    rw [hq] at heq
    exact heq

variable {x : List.Vector (Symbol T) n}

theorem columns_nodup (h : t.Reduced) : t.columns.Nodup := by
  rw [Tableau.columns, nodup_iff_pairwise_ne, pairwise_map]
  refine h.apart.imp_of_mem fun {p q} hp _ hpq heq => ?_
  have hone := h.self p hp
  rw [heq, hpq.1] at hone
  exact zero_ne_one hone

/-- When the solver returns nothing on a system with at least as many rows as columns, the
coefficients have a nonzero kernel vector. -/
theorem exists_kernel_of_solve_eq_none (hrows : n ≤ rows) (h : m.solve rhs = none) :
    ∃ z : Fin n → Gf256, (∃ c, z c ≠ 0) ∧
      ∀ r ∈ m.augmented rhs, ∑ j, r.1.get j * z j = 0 := by
  rw [solve] at h
  set t := solveLoop (min rows n) ⟨[], m.augmented rhs⟩ with ht
  have hpivots := pivots_solveLoop (min rows n) ⟨[], m.augmented rhs⟩
  split_ifs at h with hall
  obtain ⟨f, hf⟩ := not_forall.mp hall
  have hpending : ∀ r ∈ t.pending, r.1.get f = 0 := by
    rcases solveLoop_progress (min rows n) ⟨[], m.augmented rhs⟩ with hlength | hstuck
    · -- As many pivots as columns: no column is left.
      have hcard : t.columns.length = n := by
        rw [hlength, Nat.min_eq_right hrows]
        exact Nat.zero_add n
      have huniv : t.columns.toFinset = Finset.univ := Finset.eq_univ_of_card _ (by
        rw [toFinset_card_of_nodup (columns_nodup hpivots.reduced), hcard, Fintype.card_fin])
      exact absurd (mem_toFinset.mp (huniv ▸ Finset.mem_univ f)) hf
    · exact fun r hr => hstuck r hr f hf
  obtain ⟨z, hzf, hz⟩ := hpivots.exists_kernel hf hpending
  refine ⟨z, ⟨f, by rw [hzf]; exact one_ne_zero⟩, fun r hr => ?_⟩
  simpa [residual_apply] using hz r hr

/-- A row of the augmented system, by its index. -/
theorem forall_mem_augmented {P : Row Gf256 (Symbol T) n → Prop} :
    (∀ r ∈ m.augmented rhs, P r) ↔ ∀ i : Fin rows, P (m.data.get i, rhs.get i) := by
  have hmem : ∀ r, r ∈ m.augmented rhs ↔ ∃ i, (m.data.get i, rhs.get i) = r := by
    intro r
    rw [augmented, mem_iff_get]
    constructor
    · rintro ⟨i, rfl⟩
      have hi : i.1 < rows := by simpa using i.2
      refine ⟨⟨i.1, hi⟩, ?_⟩
      simp [Vector.get_eq_get_toList]
    · rintro ⟨i, rfl⟩
      refine ⟨⟨i.1, by simp⟩, ?_⟩
      simp [Vector.get_eq_get_toList]
  constructor
  · exact fun h i => h _ ((hmem _).mpr ⟨i, rfl⟩)
  · intro h r hr
    obtain ⟨i, rfl⟩ := (hmem r).mp hr
    exact h i

theorem sum_data_eq (i : Fin rows) (y : ℕ → W) :
    ∑ j : Fin n, (m.data.get i).get j • y j = ∑ c ∈ Finset.range n, m.get i c • y c := by
  rw [← Fin.sum_univ_eq_sum_range (fun c => m.get i c • y c)]
  exact Finset.sum_congr rfl fun j _ => by rw [get, dif_pos ⟨i.2, j.2⟩]

theorem eq_of_solve (h : m.solve rhs = some x) {y : ℕ → W}
    (hy : ∀ i : Fin rows, ∑ c ∈ Finset.range n, m.get i c • y c = ρ (rhs.get i)) (c : Fin n) :
    y c = ρ (x.get c) := by
  have hzero : ∀ r ∈ m.augmented rhs, residual ρ (fun j => y j) r = 0 := by
    refine forall_mem_augmented.mpr fun i => ?_
    rw [residual_apply, sum_data_eq, hy i, sub_self]
  rw [solve] at h
  have hpivots := pivots_solveLoop (min rows n) ⟨[], m.augmented rhs⟩
  split_ifs at h with hall
  cases h
  rw [List.Vector.get_ofFn]
  exact eq_solvedSymbol hpivots.reduced hall ((hpivots.forall_rows _).mpr hzero) c

/-- A system the solver gives up on has a nonzero kernel. -/
theorem exists_kernel_of_solve (hrows : n ≤ rows) (h : m.solve rhs = none) :
    ∃ z : ℕ → Gf256, (∃ c < n, z c ≠ 0) ∧
      ∀ i : Fin rows, ∑ c ∈ Finset.range n, m.get i c • z c = 0 := by
  obtain ⟨z, ⟨c, hc⟩, hz⟩ := exists_kernel_of_solve_eq_none hrows h
  have hextend : ∀ j : Fin n, (if hj : (j) < n then z ⟨j, hj⟩ else 0) = z j := fun j => by
    rw [dif_pos j.2]
  refine ⟨fun c => if hc : c < n then z ⟨c, hc⟩ else 0, ⟨c, c.2, (hextend c).trans_ne hc⟩, ?_⟩
  intro i
  rw [← sum_data_eq]
  refine (Finset.sum_congr rfl fun j _ => ?_).trans (forall_mem_augmented.mp hz i)
  rw [hextend, smul_eq_mul]

end ConstraintMatrix

end Flywheel.Raptorq
