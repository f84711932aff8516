import Flywheel.Data.Results
import Flywheel.Raptorq.Constraints
import Flywheel.Raptorq.Inactivation
import Mathlib.LinearAlgebra.FiniteDimensional.Lemmas

/-!
# What the inactivation decoder recovers

Peeling keeps the solutions of the equations, and so does every attempt at the dense elimination.
A result is therefore the only solution, and a decoder that gives up on equations with a solution
leaves a nonzero vector that all left-hand sides map to zero. Solutions are read through a linear
map of the data, so that both facts come from one invariant.
-/

namespace Flywheel.Raptorq

open Flywheel.Data LinearMap List

variable {T : ℕ} {W : Type*} [AddCommGroup W] [Module Gf256 W]

section Peeling

/-- An assignment meets the unused equations and the solved columns of a state. -/
structure DecoderState.Satisfies (st : DecoderState T) (ρ : Symbol T →ₗ[Gf256] W) (y : ℕ → W) :
    Prop where
  equations : ∀ row ∈ st.equations, row.1.used = false → dot y row.1.terms = ρ row.2
  solved : ∀ c solution, st.solved c = some solution → y c = ρ solution

/-- The bookkeeping of the columns: an unsolved column is active, and unused equations only name
active columns. -/
structure DecoderState.Valid (st : DecoderState T) (l : ℕ) : Prop where
  active_nodup : st.activeCols.Nodup
  active_iff : ∀ c, c ∈ st.activeCols ↔ c < l ∧ st.solved c = none
  unused_terms : ∀ row ∈ st.equations, row.1.used = false → ∀ t ∈ row.1.terms, t.1 ∈ st.activeCols

theorem smul_singleSolution {coef : Gf256} (hcoef : coef ≠ 0) (rhs : Symbol T) :
    coef • singleSolution coef rhs = rhs := by
  unfold singleSolution
  split_ifs with hone
  · rw [gf256MulSlice_eq, smul_inv_smul₀ hcoef]
  · rw [not_not.mp hone, one_smul]

theorem used_substitute (col : ℕ) (solution : Symbol T) (row : Equation × Symbol T) :
    (substitute col solution row).1.used = row.1.used := by
  unfold substitute
  split_ifs <;> rfl

variable {ρ : Symbol T →ₗ[Gf256] W}

/-- A substitution of the right value keeps what an unused equation says. -/
theorem substitute_iff {y : ℕ → W} {col : ℕ} {solution : Symbol T}
    (hcol : y col = ρ solution) (row : Equation × Symbol T) :
    dot y (substitute col solution row).1.terms = ρ (substitute col solution row).2 ↔
      dot y row.1.terms = ρ row.2 := by
  unfold substitute
  split_ifs with hskip
  · rfl
  · rw [gf256AddmulSlice_eq, ← symbol_sub_eq_add, dot_dropColumn y row.1.terms col, map_sub,
      map_smul, hcol]
    exact eq_sub_iff_add_eq'

theorem perm_of_getElem? {α : Type*} {l : List α} {i : ℕ} {a : α} (h : l[i]? = some a) (b : α) :
    l.Perm (a :: l.eraseIdx i) ∧ (l.set i b).Perm (b :: l.eraseIdx i) := by
  obtain ⟨hi, rfl⟩ := List.getElem?_eq_some_iff.mp h
  exact ⟨(getElem_cons_eraseIdx_perm hi).symm, set_perm_cons_eraseIdx hi b⟩

variable {st : DecoderState T} {l i col : ℕ} {row : Equation × Symbol T} {coef : Gf256}

/-- The equations after column `col` was solved by equation `i`: the used one and the others with
the solution substituted. -/
theorem mem_peelColumn (hrow : st.equations[i]? = some row) {r : Equation × Symbol T} :
    r ∈ (peelColumn st i row col coef).equations ↔
      r = ({ row.1 with used := true }, row.2) ∨
        ∃ r' ∈ st.equations.eraseIdx i, substitute col (singleSolution coef row.2) r' = r := by
  have hperm := ((perm_of_getElem? hrow ({ row.1 with used := true }, row.2)).2.map
    (substitute col (singleSolution coef row.2))).mem_iff (a := r)
  rw [map_cons, mem_cons] at hperm
  rw [← mem_map]
  exact hperm

/-- Solving a column keeps the assignments that meet the state. -/
theorem satisfies_peelColumn {y : ℕ → W} (hrow : st.equations[i]? = some row)
    (hready : activeDegreeOneCol st.activeCols st.solved row.1 = some (col, coef)) :
    (peelColumn st i row col coef).Satisfies ρ y ↔ st.Satisfies ρ y := by
  obtain ⟨hunused, hterms, -, hnone⟩ := activeDegreeOneCol_eq_some hready
  have hmem : ∀ r, r ∈ st.equations ↔ r = row ∨ r ∈ st.equations.eraseIdx i := fun r => by
    rw [(perm_of_getElem? hrow row).1.mem_iff, mem_cons]
  have hcoef : coef ≠ 0 := row.1.normal.nonzero (col, coef) (by simp [hterms])
  -- The equation used says exactly that the column has the solution's value.
  have hsingle : dot y row.1.terms = ρ row.2 ↔ y col = ρ (singleSolution coef row.2) := by
    rw [hterms, dot_cons, dot_nil, add_zero, ← smul_singleSolution hcoef row.2, map_smul,
      smul_singleSolution hcoef]
    constructor
    · intro h
      rw [← inv_smul_smul₀ hcoef (y col), h, inv_smul_smul₀ hcoef]
    · exact fun h => by rw [h]
  constructor
  · rintro ⟨heqs, hsolved⟩
    have hcol : y col = ρ (singleSolution coef row.2) :=
      hsolved col _ (Function.update_self ..)
    refine ⟨fun r hr hr' => ?_, fun c solution hc => ?_⟩
    · rcases (hmem r).mp hr with rfl | hr
      · exact hsingle.mpr hcol
      · rw [← substitute_iff hcol]
        exact heqs _ ((mem_peelColumn hrow).mpr (.inr ⟨r, hr, rfl⟩)) (by rw [used_substitute, hr'])
    · have hne : c ≠ col := fun heq => by
        rw [heq, hnone] at hc
        cases hc
      exact hsolved c solution ((Function.update_of_ne hne ..).trans hc)
  · rintro ⟨heqs, hsolved⟩
    have hcol := hsingle.mp (heqs row ((hmem row).mpr (.inl rfl)) hunused)
    refine ⟨fun r hr hr' => ?_, fun c solution hc => ?_⟩
    · rcases (mem_peelColumn hrow).mp hr with rfl | ⟨r', hr'', rfl⟩
      · cases hr'
      · rw [substitute_iff hcol]
        exact heqs r' ((hmem r').mpr (.inr hr'')) (by rw [← hr', used_substitute])
    · by_cases heq : c = col
      · subst heq
        have hsame : singleSolution coef row.2 = solution := by simpa [peelColumn] using hc
        rw [← hsame]
        exact hcol
      · exact hsolved c solution ((Function.update_of_ne heq ..).symm.trans hc)

theorem valid_peelColumn (hvalid : st.Valid l) (hrow : st.equations[i]? = some row)
    (hready : activeDegreeOneCol st.activeCols st.solved row.1 = some (col, coef)) :
    (peelColumn st i row col coef).Valid l := by
  have hmem : ∀ r ∈ st.equations.eraseIdx i, r ∈ st.equations := fun r hr =>
    mem_of_mem_eraseIdx hr
  refine ⟨hvalid.active_nodup.erase col, fun c => ?_, fun r hr hr' t ht => ?_⟩
  · have herase : c ∈ st.activeCols.erase col ↔ c ≠ col ∧ c ∈ st.activeCols :=
      hvalid.active_nodup.mem_erase_iff
    change c ∈ st.activeCols.erase col ↔
      c < l ∧ Function.update st.solved col (some (singleSolution coef row.2)) c = none
    rw [herase, hvalid.active_iff]
    by_cases heq : c = col
    · subst heq
      simp
    · rw [Function.update_of_ne heq]
      exact and_iff_right heq
  · change t.1 ∈ st.activeCols.erase col
    rw [hvalid.active_nodup.mem_erase_iff]
    rcases (mem_peelColumn hrow).mp hr with rfl | ⟨r', hr'', rfl⟩
    · cases hr'
    · rw [used_substitute] at hr'
      have hold := hvalid.unused_terms r' (hmem r' hr'') hr'
      unfold substitute at ht
      split_ifs at ht with hskip
      · refine ⟨fun heq => ?_, hold t ht⟩
        have hzero := hskip.resolve_left (by rw [hr']; exact Bool.false_ne_true)
        rw [Equation.coef, ← heq, r'.1.normal.coefOf_of_mem ht] at hzero
        exact r'.1.normal.nonzero t ht hzero
      · exact ⟨ne_of_mem_dropColumn r'.1.normal.nodup ht, hold t (mem_of_mem_eraseP ht)⟩

/-- Peeling keeps the assignments that meet the state, and the bookkeeping. -/
theorem peelLoop_spec (st : DecoderState T) (queue : List ℕ) (l : ℕ) :
    (st.Valid l → (peelLoop st queue).Valid l) ∧
      ∀ (ρ : Symbol T →ₗ[Gf256] W) (y : ℕ → W),
        (peelLoop st queue).Satisfies ρ y ↔ st.Satisfies ρ y := by
  fun_induction peelLoop st queue with
  | case1 st => exact ⟨id, fun _ _ => Iff.rfl⟩
  | case2 st i queue hnone ih | case3 st i queue row hrow hnone ih => exact ih
  | case4 st i queue row hrow col coef hready st' ih =>
    exact ⟨fun h => ih.1 (valid_peelColumn h hrow hready),
      fun ρ y => (ih.2 ρ y).trans (satisfies_peelColumn hrow hready)⟩

end Peeling

section Elimination

variable {n : ℕ} {hard : Option HardRegimePlan} {col : Fin n}

/-- The better pivot is one of the two. -/
theorem betterPivot_cases (r cross nnz : ℕ) (best : Option (ℕ × ℕ × ℕ)) :
    (betterPivot r cross nnz best).1 = r ∨ best = some (betterPivot r cross nnz best) := by
  cases best with
  | none => exact .inl rfl
  | some best =>
    simp only [betterPivot]
    split_ifs <;> simp

variable {plan : HardRegimePlan}

section

variable {rows : List (Row Gf256 (Symbol T) n)} {best : Option (ℕ × ℕ × ℕ)}

/-- A row chosen in the hard regime has the column, or was the best before. -/
theorem selectHard_eq_some {start : ℕ} {res : ℕ × ℕ × ℕ}
    (h : selectHard plan col rows start best = some res) : best = some res ∨
      ∃ k row, res.1 = start + k ∧ rows[k]? = some row ∧ row.1.get col ≠ 0 := by
  induction rows generalizing start best with
  | nil => exact .inl h
  | cons head rest ih =>
    have hlater : (∃ k row, res.1 = start + 1 + k ∧ rest[k]? = some row ∧ row.1.get col ≠ 0) →
        ∃ k row, res.1 = start + k ∧ (head :: rest)[k]? = some row ∧ row.1.get col ≠ 0 := by
      rintro ⟨k, row, hk, hrow, hne⟩
      exact ⟨k + 1, row, by omega, by simpa using hrow, hne⟩
    rw [selectHard] at h
    split_ifs at h with hzero
    · exact (ih h).imp_right hlater
    · rcases ih h with hbest | hfound
      · have hres := Option.some.inj hbest
        rcases betterPivot_cases start _ _ best with hstart | hold
        · exact .inr ⟨0, head, by rw [← hres, hstart]; rfl, rfl, hzero⟩
        · exact .inl (hold.trans hbest)
      · exact .inr (hlater hfound)

/-- If the hard regime finds no row, no row has the column. -/
theorem selectHard_eq_none {start : ℕ} (h : selectHard plan col rows start best = none) :
    best = none ∧ ∀ row ∈ rows, row.1.get col = 0 := by
  induction rows generalizing start best with
  | nil => exact ⟨h, by simp⟩
  | cons head rest ih =>
    rw [selectHard] at h
    split_ifs at h with hzero
    · exact ⟨(ih h).1, forall_mem_cons.mpr ⟨hzero, (ih h).2⟩⟩
    · cases (ih h).1

theorem selectPivotRow_eq_some {r : ℕ} (h : selectPivotRow hard col rows = some r) :
    ∃ row, rows[r]? = some row ∧ row.1.get col ≠ 0 := by
  cases hard with
  | none =>
    obtain ⟨hr, hne, -⟩ := findIdx?_eq_some_iff_getElem.mp h
    exact ⟨rows[r], getElem?_eq_getElem hr, by simpa using hne⟩
  | some plan =>
    obtain ⟨res, hres, rfl⟩ := Option.map_eq_some_iff.mp h
    rcases selectHard_eq_some hres with hnone | ⟨k, row, hk, hrow, hne⟩
    · cases hnone
    · exact ⟨row, by rw [hk, Nat.zero_add]; exact hrow, hne⟩

theorem selectPivotRow_eq_none
    (h : selectPivotRow hard col rows = none) : ∀ row ∈ rows, row.1.get col = 0 := by
  cases hard with
  | none =>
    intro row hrow
    simpa using findIdx?_eq_none_iff.mp h row hrow
  | some plan => exact (selectHard_eq_none (Option.map_eq_none_iff.mp h)).2

end

/-- The matrix an elimination ends with, either way. -/
def reached :
    Except (Fin n × Tableau Gf256 (Symbol T) n) (List ℕ × Tableau Gf256 (Symbol T) n) →
      Tableau Gf256 (Symbol T) n
  | .ok (_, t) => t
  | .error (_, t) => t

/-- One turn of the elimination finds no row with the column and stops, or makes a pivot step. -/
theorem eliminateColumns_cons_cases (hard : Option HardRegimePlan) (col : Fin n)
    (cols : List (Fin n)) (ids : List ℕ) (t : Tableau Gf256 (Symbol T) n) :
    ((∀ row ∈ t.pending, row.1.get col = 0) ∧
        eliminateColumns hard (col :: cols) ids t = .error (col, t)) ∨
      ∃ row rest ids', t.pending.Perm (row :: rest) ∧ row.1.get col ≠ 0 ∧
        eliminateColumns hard (col :: cols) ids t =
          eliminateColumns hard cols ids' (t.pivot col row rest) := by
  rw [eliminateColumns]
  cases hselect : selectPivotRow hard col t.pending with
  | none => exact .inl ⟨selectPivotRow_eq_none hselect, rfl⟩
  | some r =>
    obtain ⟨row, hrow, hne⟩ := selectPivotRow_eq_some hselect
    refine .inr ⟨row, t.pending.eraseIdx r, ids.eraseIdx r, (perm_of_getElem? hrow row).1, hne, ?_⟩
    simp only [hrow, pivotStep_eq]

theorem columns_pivot (t : Tableau Gf256 (Symbol T) n) (col : Fin n)
    (row : Row Gf256 (Symbol T) n) (rest : List (Row Gf256 (Symbol T) n)) :
    (t.pivot col row rest).columns = t.columns ++ [col] := by
  simp [Tableau.pivot, Tableau.columns]

variable {t : Tableau Gf256 (Symbol T) n}

theorem pivots_eliminateColumns (hard : Option HardRegimePlan) (cols : List (Fin n)) (ids : List ℕ)
    (t : Tableau Gf256 (Symbol T) n) : t.Pivots (reached (eliminateColumns hard cols ids t)) := by
  induction cols generalizing ids t with
  | nil => exact .refl t
  | cons col cols ih =>
    rcases eliminateColumns_cons_cases hard col cols ids t with
      ⟨-, heq⟩ | ⟨row, rest, ids', hperm, hne, heq⟩ <;> rw [heq]
    · exact .refl t
    · exact .step hperm hne (ih ids' _)

variable {t' : Tableau Gf256 (Symbol T) n}

/-- An elimination that comes to its end has a pivot in every column. -/
theorem columns_of_eliminateColumns {cols : List (Fin n)} {ids ids' : List ℕ}
    (h : eliminateColumns hard cols ids t = .ok (ids', t')) : t'.columns = t.columns ++ cols := by
  induction cols generalizing ids t with
  | nil =>
    cases h
    exact (append_nil _).symm
  | cons col cols ih =>
    rcases eliminateColumns_cons_cases hard col cols ids t with
      ⟨-, heq⟩ | ⟨row, rest, ids', -, -, heq⟩ <;> rw [heq] at h
    · cases h
    · rw [ih h, columns_pivot, append_assoc, singleton_append]

/-- An elimination that stops has a column that no pending row has. -/
theorem stuck_of_eliminateColumns {cols : List (Fin n)} {ids : List ℕ}
    (hnodup : (t.columns ++ cols).Nodup)
    (h : eliminateColumns hard cols ids t = .error (col, t')) :
    col ∉ t'.columns ∧ ∀ row ∈ t'.pending, row.1.get col = 0 := by
  induction cols generalizing ids t with
  | nil => cases h
  | cons head cols ih =>
    rcases eliminateColumns_cons_cases hard head cols ids t with
      ⟨hzero, heq⟩ | ⟨row, rest, ids', -, -, heq⟩ <;> rw [heq] at h
    · cases h
      exact ⟨fun hmem => (nodup_append.mp hnodup).2.2 _ hmem _ (mem_cons_self ..) rfl,
        hzero⟩
    · refine ih ?_ h
      rwa [columns_pivot, append_assoc]

/-- Rows with a nonzero vector that all of them map to zero. -/
def HasKernel (rows : List (Row Gf256 (Symbol T) n)) : Prop :=
  ∃ z : Fin n → Gf256, (∃ c, z c ≠ 0) ∧
    ∀ r ∈ rows, residual (0 : Symbol T →ₗ[Gf256] Gf256) z r = 0

variable {denseCols : Fin n → ℕ} {ids : List ℕ} {rows : List (Row Gf256 (Symbol T) n)}

/-- The result of an attempt is the only solution. -/
theorem gaussAttempt_ok
    (h : gaussAttempt hard denseCols ids rows = .ok t) {ρ : Symbol T →ₗ[Gf256] W} {y : Fin n → W}
    (hy : ∀ r ∈ rows, residual ρ y r = 0) (c : Fin n) : y c = ρ (solvedSymbol t c) := by
  have hpivots := pivots_eliminateColumns hard (finRange n) ids ⟨[], rows⟩
  unfold gaussAttempt at h
  split at h
  · cases h
  rename_i ids' _ heliminate
  split at h
  · cases h
  cases h
  rw [heliminate] at hpivots
  refine ConstraintMatrix.eq_solvedSymbol hpivots.reduced (fun c => ?_)
    ((hpivots.forall_rows _).mpr hy) c
  change c ∈ t.columns
  rw [columns_of_eliminateColumns heliminate]
  exact mem_append_right _ (mem_finRange c)

variable {err : InnerError}

/-- An attempt that fails on a system with a solution leaves a kernel. -/
theorem gaussAttempt_error
    (h : gaussAttempt hard denseCols ids rows = .error (err, t)) {y : Fin n → Symbol T}
    (hy : ∀ r ∈ rows, residual id y r = 0) :
    err.failureClass = .recoverable ∧ HasKernel rows := by
  have hpivots := pivots_eliminateColumns hard (finRange n) ids ⟨[], rows⟩
  unfold gaussAttempt at h
  split at h
  case h_1 col t' heliminate =>
    cases h
    rw [heliminate] at hpivots
    obtain ⟨hnew, hzero⟩ := stuck_of_eliminateColumns
      (by simpa [Tableau.columns] using nodup_finRange n) heliminate
    obtain ⟨z, hz, hkernel⟩ := hpivots.exists_kernel hnew hzero
    exact ⟨rfl, z, ⟨col, by rw [hz]; exact one_ne_zero⟩, hkernel⟩
  case h_2 ids' t' heliminate =>
    split at h
    case h_2 => cases h
    case h_1 id hbad =>
      -- A row with no left-hand side has a zero right-hand side, because there is a solution.
      obtain ⟨p, hp, -⟩ := Option.map_eq_some_iff.mp hbad
      obtain ⟨hleft, hright⟩ : p.2.1 = 0 ∧ p.2.2 ≠ 0 := by simpa using find?_some hp
      have hmem : p.2 ∈ t'.pending :=
        (of_mem_zip (mem_of_find?_eq_some hp)).2
      rw [heliminate] at hpivots
      have hres := (hpivots.forall_rows _).mpr hy p.2 (mem_append_right _ hmem)
      rw [residual_apply, hleft] at hres
      exact absurd (by simpa using hres) hright

/-- Whatever the plan, the outcome is that of one attempt. -/
theorem exists_solveHard_eq (plan : HardRegimePlan) (denseCols : Fin n → ℕ) (ids : List ℕ)
    (rows : List (Row Gf256 (Symbol T) n)) :
    ∃ hard, solveHard plan denseCols ids rows =
      (gaussAttempt hard denseCols ids rows).mapError Prod.fst := by
  unfold solveHard
  cases hfirst : gaussAttempt (some plan) denseCols ids rows with
  | ok t => exact ⟨some plan, by rw [hfirst]; rfl⟩
  | error failure =>
    cases plan with
    | markowitz => exact ⟨some .markowitz, by rw [hfirst]; rfl⟩
    | blockSchurLowRank splitCol =>
      refine ⟨some .markowitz, ?_⟩
      cases gaussAttempt (some .markowitz) denseCols ids rows <;> rfl

/-- Whatever the policy, the outcome is that of one attempt. -/
theorem exists_solveDenseCore_eq (mode : DecoderPolicyMode) (denseCols : Fin n → ℕ) (ids : List ℕ)
    (rows : List (Row Gf256 (Symbol T) n)) :
    ∃ hard, solveDenseCore mode denseCols ids rows =
      (gaussAttempt hard denseCols ids rows).mapError Prod.fst := by
  cases mode with
  | conservativeBaseline =>
    rw [solveDenseCore]
    cases hbaseline : gaussAttempt none denseCols ids rows with
    | ok t => exact ⟨none, by rw [hbaseline]; rfl⟩
    | error failure => exact exists_solveHard_eq ..
  | highSupportFirst | blockSchurLowRank => exact exists_solveHard_eq ..

end Elimination

section DenseCore

variable {st : DecoderState T} {l : ℕ} {unsolved : List ℕ}
  {candidates core : List ((Equation × Symbol T) × ℕ)}

/-- The rows of the dense core are the candidates with an unsolved column. Building it only fails on
an equation without one and with a nonzero right-hand side. -/
theorem buildDenseCoreRows_cases (unsolved : List ℕ)
    (candidates : List ((Equation × Symbol T) × ℕ)) :
    buildDenseCoreRows unsolved candidates = .ok (candidates.filter fun x =>
        x.1.1.terms.any fun t => t.1 ∈ unsolved && t.2 ≠ 0) ∨
      ∃ err, buildDenseCoreRows unsolved candidates = .error err ∧ ∃ x ∈ candidates,
        ¬ (x.1.1.terms.any fun t => t.1 ∈ unsolved && t.2 ≠ 0) ∧ x.1.2 ≠ 0 := by
  induction candidates with
  | nil => exact .inl rfl
  | cons head rest ih =>
    obtain ⟨row, i⟩ := head
    simp only [buildDenseCoreRows, filter_cons]
    split_ifs with hany hrhs
    · rcases ih with hok | ⟨err, herr, x, hx, hbad⟩
      · exact .inl (by rw [hok])
      · exact .inr ⟨err, by rw [herr], x, mem_cons_of_mem _ hx, hbad⟩
    · exact .inr ⟨_, rfl, (row, i), mem_cons_self, hany, hrhs⟩
    · exact ih.imp_right fun ⟨err, herr, x, hx, hbad⟩ => ⟨err, herr, x, mem_cons_of_mem _ hx, hbad⟩

theorem buildDenseCoreRows_ok (h : buildDenseCoreRows unsolved candidates = .ok core) :
    core = candidates.filter fun x =>
      x.1.1.terms.any fun t => t.1 ∈ unsolved && t.2 ≠ 0 := by
  rcases buildDenseCoreRows_cases unsolved candidates with hok | ⟨err, herr, -⟩
  · exact Except.ok.inj (h.symm.trans hok)
  · cases h.symm.trans herr

theorem perm_sparseFirstDenseColumns (core : List ((Equation × Symbol T) × ℕ))
    (unsolved : List ℕ) : (sparseFirstDenseColumns core unsolved).Perm unsolved := by
  unfold sparseFirstDenseColumns
  split_ifs
  · exact .refl _
  · exact mergeSort_perm ..

theorem residual_denseRow {cols : List ℕ} (hnodup : cols.Nodup) {row : Equation × Symbol T}
    (hterms : ∀ t ∈ row.1.terms, t.1 ∈ cols) (ρ : Symbol T →ₗ[Gf256] W) (y : ℕ → W) :
    residual ρ (fun j => y (cols.get j)) (denseRow cols row) = dot y row.1.terms - ρ row.2 := by
  rw [residual_apply, dot_eq_sum row.1.normal.nodup y hnodup hterms,
    ← Fin.sum_univ_fun_getElem cols fun c => coefOf row.1.terms c • y c]
  congr 1
  exact Finset.sum_congr rfl fun j _ => by rw [denseRow, List.Vector.get_ofFn]; rfl

/-- Fewer rows than columns leave a kernel. -/
theorem hasKernel_of_length_lt {n : ℕ} {rows : List (Row Gf256 (Symbol T) n)}
    (h : rows.length < n) : HasKernel rows := by
  let φ : (Fin n → Gf256) →ₗ[Gf256] (Fin rows.length → Gf256) :=
    pi fun i => ∑ j, (rows.get i).1.get j • proj j
  have hker : ker φ ≠ ⊥ := ker_ne_bot_of_finrank_lt (by simpa using h)
  obtain ⟨z, hz, hne⟩ := Submodule.exists_mem_ne_zero_of_ne_bot hker
  refine ⟨z, Function.ne_iff.mp hne, fun r hr => ?_⟩
  obtain ⟨i, rfl⟩ := get_of_mem hr
  have hi := congrFun (mem_ker.mp hz) i
  simpa [φ, residual_apply] using hi

end DenseCore

variable {params : SystematicParams} {st : DecoderState T}

structure DenseColumns (st : DecoderState T) (cols : List ℕ) : Prop where
  nodup : cols.Nodup
  mem_iff : ∀ c, c ∈ cols ↔ c ∈ st.activeCols

theorem DecoderState.Valid.terms_eq_nil {l : ℕ} (h : st.Valid l) {row : Equation × Symbol T}
    (hrow : row ∈ st.equations) (hunused : row.1.used = false)
    (hnone : ¬ row.1.terms.any fun t => t.1 ∈ st.activeCols && t.2 ≠ 0) : row.1.terms = [] := by
  refine eq_nil_iff_forall_not_mem.mpr fun t ht => hnone (any_eq_true.mpr ⟨t, ht, ?_⟩)
  simpa using ⟨h.unused_terms row hrow hunused t ht, row.1.normal.nonzero t ht⟩

theorem DecoderState.Valid.unsolved_eq {l : ℕ} (h : st.Valid l) :
    (st.activeCols.filter fun col => (st.solved col).isNone) = st.activeCols :=
  filter_eq_self.mpr fun c hc => by rw [((h.active_iff c).mp hc).2]; rfl

theorem DecoderState.Valid.denseColumns {l : ℕ} (h : st.Valid l)
    (core : List ((Equation × Symbol T) × ℕ)) :
    DenseColumns st (sparseFirstDenseColumns core st.activeCols) :=
  have hperm := perm_sparseFirstDenseColumns core st.activeCols
  ⟨hperm.nodup_iff.mpr h.active_nodup, fun _ => hperm.mem_iff⟩

theorem mem_unused {x : (Equation × Symbol T) × ℕ} :
    x ∈ (st.equations.zipIdx.filter fun row => !row.1.1.used) →
      x.1 ∈ st.equations ∧ x.1.1.used = false := by
  intro hx
  obtain ⟨hmem, hunused⟩ := mem_filter.mp hx
  exact ⟨fst_mem_of_mem_zipIdx hmem, by simpa using hunused⟩

theorem exists_mem_unused {row : Equation × Symbol T} (hrow : row ∈ st.equations)
    (hunused : row.1.used = false) :
    ∃ i, (row, i) ∈ st.equations.zipIdx.filter fun row => !row.1.1.used := by
  obtain ⟨i, hi, rfl⟩ := getElem_of_mem hrow
  refine ⟨i, mem_filter.mpr ⟨?_, by simpa using hunused⟩⟩
  exact mk_mem_zipIdx_iff_getElem?.mpr (getElem?_eq_getElem hi)

variable {core : List ((Equation × Symbol T) × ℕ)} {cols : List ℕ}
  {ρ : Symbol T →ₗ[Gf256] W} {y : ℕ → W}

theorem residual_core (hvalid : st.Valid params.l) (hcols : DenseColumns st cols)
    (hcore : ∀ x ∈ core, x.1 ∈ st.equations ∧ x.1.1.used = false) (hy : st.Satisfies ρ y) :
    ∀ r ∈ core.map (fun x => denseRow cols x.1), residual ρ (fun j => y (cols.get j)) r = 0 := by
  intro r hr
  obtain ⟨x, hx, rfl⟩ := mem_map.mp hr
  obtain ⟨hmem, hunused⟩ := hcore x hx
  rw [residual_denseRow hcols.nodup fun t ht =>
    (hcols.mem_iff _).mpr (hvalid.unused_terms x.1 hmem hunused t ht)]
  rw [hy.equations x.1 hmem hunused, sub_self]

theorem idxOf_lt {c : ℕ} (h : c ∈ cols) : cols.idxOf c < cols.length :=
  idxOf_lt_length_of_mem h

/-- A vector on the dense columns, extended by zero. -/
def extendColumns (cols : List ℕ) (z : Fin cols.length → Gf256) (c : ℕ) : Gf256 :=
  if h : c ∈ cols then z ⟨cols.idxOf c, idxOf_lt h⟩ else 0

theorem extendColumns_get (hnodup : cols.Nodup) (z : Fin cols.length → Gf256)
    (j : Fin cols.length) : extendColumns cols z (cols.get j) = z j := by
  rw [extendColumns, dif_pos (get_mem cols j)]
  congr 1
  exact Fin.ext (hnodup.idxOf_getElem j j.2)

/-- A kernel of the dense core is one of the whole state. -/
theorem exists_satisfies_zero (hvalid : st.Valid params.l) (hcols : DenseColumns st cols)
    (hcover : ∀ row ∈ st.equations, row.1.used = false →
      (∃ i, (row, i) ∈ core) ∨ row.1.terms = [])
    (h : HasKernel (core.map fun x => denseRow cols x.1)) :
    ∃ z : ℕ → Gf256, (∃ c < params.l, z c ≠ 0) ∧
      st.Satisfies (0 : Symbol T →ₗ[Gf256] Gf256) z := by
  obtain ⟨z, ⟨j, hj⟩, hz⟩ := h
  have hget := extendColumns_get hcols.nodup z
  have hext : (fun j => extendColumns cols z (cols.get j)) = z := funext hget
  refine ⟨extendColumns cols z, ⟨cols.get j, ?_, by rw [hget]; exact hj⟩, ?_, ?_⟩
  · exact ((hvalid.active_iff _).mp ((hcols.mem_iff _).mp (get_mem cols j))).1
  · intro row hrow hunused
    rcases hcover row hrow hunused with ⟨i, hi⟩ | hnil
    · have hres := hz _ (mem_map.mpr ⟨(row, i), hi, rfl⟩)
      rw [← hext, residual_denseRow hcols.nodup fun t ht =>
        (hcols.mem_iff _).mpr (hvalid.unused_terms row hrow hunused t ht)] at hres
      exact sub_eq_zero.mp hres
    · rw [hnil, dot_nil, LinearMap.zero_apply]
  · intro c solution hc
    have hnot : c ∉ cols := fun hmem => by
      have hnone := ((hvalid.active_iff c).mp ((hcols.mem_iff c).mp hmem)).2
      cases hc.symm.trans hnone
    rw [extendColumns, dif_neg hnot, LinearMap.zero_apply]

/-- What phase two solves is the only assignment that meets the state. -/
theorem inactivateAndSolve_ok (hvalid : st.Valid params.l) {solved : ℕ → Option (Symbol T)}
    (h : inactivateAndSolve params st = .ok solved)
    (hy : st.Satisfies ρ y) {c : ℕ} (hc : c < params.l) : y c = ρ ((solved c).getD 0) := by
  have hsolved : c ∉ st.activeCols → y c = ρ ((st.solved c).getD 0) := by
    intro hnot
    obtain ⟨solution, hsol⟩ := Option.ne_none_iff_exists'.mp
      fun hnone => hnot ((hvalid.active_iff c).mpr ⟨hc, hnone⟩)
    rw [hsol]
    exact hy.solved c solution hsol
  simp only [inactivateAndSolve, hvalid.unsolved_eq] at h
  split_ifs at h with hnil
  · cases h
    exact hsolved (by rw [hnil]; exact not_mem_nil)
  simp only [solveUnsolved] at h
  split at h
  · cases h
  rename_i core hbuild
  split_ifs at h with hfew
  split at h
  · cases h
  rename_i t hdense
  cases h
  obtain ⟨hard, hone⟩ := exists_solveDenseCore_eq ..
  have hattempt := mapError_eq_ok (hone.symm.trans hdense)
  have hcols := hvalid.denseColumns core
  have hcore : ∀ x ∈ core, x.1 ∈ st.equations ∧ x.1.1.used = false := fun x hx =>
    mem_unused (mem_of_mem_filter (buildDenseCoreRows_ok hbuild ▸ hx))
  have hunique := gaussAttempt_ok hattempt (residual_core hvalid hcols hcore hy)
  beta_reduce
  by_cases hmem : c ∈ sparseFirstDenseColumns core st.activeCols
  · have hindex := hunique ⟨_, idxOf_lt hmem⟩
    rw [idxOf_get] at hindex
    rw [dif_pos hmem]
    exact hindex
  · rw [dif_neg hmem]
    exact hsolved fun hactive => hmem ((hcols.mem_iff c).mpr hactive)

/-- If phase two gives up on a state that some assignment meets, the failure is recoverable and the
left-hand sides have a kernel. -/
theorem inactivateAndSolve_error (hvalid : st.Valid params.l) {err : InnerError}
    (h : inactivateAndSolve params st = .error err) {y : ℕ → Symbol T}
    (hy : st.Satisfies id y) :
    err.failureClass = .recoverable ∧ ∃ z : ℕ → Gf256, (∃ c < params.l, z c ≠ 0) ∧
      st.Satisfies (0 : Symbol T →ₗ[Gf256] Gf256) z := by
  simp only [inactivateAndSolve, hvalid.unsolved_eq] at h
  split_ifs at h with hnil
  simp only [solveUnsolved] at h
  split at h
  case h_1 err' hbuild =>
    -- An equation without terms has a zero right-hand side, because some assignment meets it.
    rcases buildDenseCoreRows_cases _ _ with hok | ⟨-, -, x, hx, hnone, hrhs⟩
    · cases hbuild.symm.trans hok
    obtain ⟨hmem, hunused⟩ := mem_unused hx
    have heq := hy.equations x.1 hmem hunused
    rw [hvalid.terms_eq_nil hmem hunused hnone] at heq
    exact absurd heq.symm hrhs
  rename_i core hbuild
  have hrows := buildDenseCoreRows_ok hbuild
  have hcols := hvalid.denseColumns core
  have hcore : ∀ x ∈ core, x.1 ∈ st.equations ∧ x.1.1.used = false := fun x hx =>
    mem_unused (mem_of_mem_filter (hrows ▸ hx))
  have hcover : ∀ row ∈ st.equations, row.1.used = false →
      (∃ i, (row, i) ∈ core) ∨ row.1.terms = [] := by
    intro row hrow hunused
    obtain ⟨i, hi⟩ := exists_mem_unused hrow hunused
    rw [hrows]
    exact (em _).imp (fun h => ⟨i, mem_filter.mpr ⟨hi, h⟩⟩) (hvalid.terms_eq_nil hrow hunused)
  split_ifs at h with hfew
  · cases h
    exact ⟨rfl, exists_satisfies_zero hvalid hcols hcover
      (hasKernel_of_length_lt (by simpa using hfew))⟩
  split at h
  · rename_i hdense
    cases h
    obtain ⟨hard, hone⟩ := exists_solveDenseCore_eq ..
    obtain ⟨_, hattempt, rfl⟩ := mapError_eq_error (hone.symm.trans hdense)
    obtain ⟨hclass, hkernel⟩ := gaussAttempt_error hattempt (residual_core hvalid hcols hcore hy)
    exact ⟨hclass, exists_satisfies_zero hvalid hcols hcover hkernel⟩
  · cases h

/-- An assignment meets the equation of every received symbol. -/
def SolvesSymbols (symbols : List (ReceivedSymbol T)) (ρ : Symbol T →ₗ[Gf256] W) (y : ℕ → W) :
    Prop :=
  ∀ sym ∈ symbols, dot y sym.terms = ρ sym.data

variable {symbols : List (ReceivedSymbol T)}

/-- The first state says what the symbols say. -/
theorem satisfies_buildState :
    (buildState params symbols).Satisfies ρ y ↔ SolvesSymbols symbols ρ y := by
  constructor
  · intro h sym hsym
    have heq := h.equations _ (mem_map_of_mem hsym) rfl
    rwa [Equation.new, dot_normalTerms] at heq
  · refine fun h => ⟨fun row hrow _ => ?_, nofun⟩
    obtain ⟨sym, hsym, rfl⟩ := mem_map.mp hrow
    rw [Equation.new, dot_normalTerms]
    exact h sym hsym

theorem valid_buildState (h : ∀ sym ∈ symbols, ∀ c ∈ sym.columns, c < params.l) :
    (buildState params symbols).Valid params.l where
  active_nodup := nodup_range
  active_iff c := by simp [buildState]
  unused_terms row hrow _ t ht := by
    obtain ⟨sym, hsym, rfl⟩ := mem_map.mp hrow
    obtain ⟨u, hu, hut⟩ := mem_columns_normalTerms ht
    rw [← hut]
    exact mem_range.mpr (h sym hsym u.1 (of_mem_zip hu).1)

/-- A symbol whose equation has as many columns as coefficients, all of them intermediate
symbols. -/
structure ReceivedSymbol.WellFormed (sym : ReceivedSymbol T) (l : ℕ) : Prop where
  arity : sym.columns.length = sym.coefficients.length
  columns_lt : ∀ c ∈ sym.columns, c < l

/-- The symbol check accepts exactly the well-formed symbols. -/
theorem validateSymbols_ok_iff {l : ℕ} :
    validateSymbols l symbols = .ok () ↔ ∀ sym ∈ symbols, sym.WellFormed l := by
  induction symbols with
  | nil => simp [validateSymbols]
  | cons sym rest ih =>
    rw [validateSymbols, forall_mem_cons, ← ih]
    split_ifs with harity
    · exact ⟨nofun, fun h => absurd h.1.arity harity⟩
    · cases hfind : sym.columns.find? (fun column => l ≤ column) with
      | none =>
        have hlt : ∀ c ∈ sym.columns, c < l := fun c hc => by
          simpa using find?_eq_none.mp hfind c hc
        exact (and_iff_right ⟨not_not.mp harity, hlt⟩).symm
      | some column =>
        refine ⟨nofun, fun h => ?_⟩
        have hle : l ≤ column := by simpa using find?_some hfind
        exact absurd (h.1.columns_lt column (mem_of_find?_eq_some hfind)) (by omega)

theorem firstMismatchByte_eq_none_iff {expected actual : Symbol T} :
    firstMismatchByte expected actual = none ↔ expected = actual := by
  rw [firstMismatchByte, find?_eq_none]
  constructor
  · intro h
    exact List.Vector.ext fun i => by simpa using h i (List.mem_finRange i)
  · rintro rfl
    simp

/-- The symbol a solution gives for a received equation is the value of its terms. -/
theorem expectedSymbol_eq_dot (intermediate : ℕ → Symbol T) (sym : ReceivedSymbol T) :
    expectedSymbol intermediate sym = dot intermediate sym.terms := by
  unfold expectedSymbol
  split
  case h_1 col coef hsource hcolumns hcoefs =>
    split_ifs with hone
    · rw [ReceivedSymbol.terms, hcolumns, hcoefs, hone]
      simp
    · exact combine_eq_dot ..
  case h_2 => exact combine_eq_dot ..

/-- The final check accepts exactly the solutions of the received equations. -/
theorem verifyDecodedOutput_ok_iff {intermediate : ℕ → Symbol T} :
    verifyDecodedOutput intermediate symbols = .ok () ↔ SolvesSymbols symbols id intermediate := by
  induction symbols with
  | nil => exact ⟨fun _ _ hsym => absurd hsym not_mem_nil, fun _ => rfl⟩
  | cons sym rest ih =>
    have hsym : firstMismatchByte (expectedSymbol intermediate sym) sym.data = none ↔
        dot intermediate sym.terms = sym.data := by
      rw [expectedSymbol_eq_dot, firstMismatchByte_eq_none_iff]
    rw [SolvesSymbols, forall_mem_cons, id_apply, ← hsym, verifyDecodedOutput]
    cases firstMismatchByte (expectedSymbol intermediate sym) sym.data with
    | none => simpa [SolvesSymbols] using ih
    | some i => simp

theorem satisfies_peel :
    (peel (buildState params symbols)).Satisfies ρ y ↔ SolvesSymbols symbols ρ y :=
  ((peelLoop_spec _ _ params.l).2 ρ y).trans satisfies_buildState

theorem valid_peel (h : ∀ sym ∈ symbols, sym.WellFormed params.l) :
    (peel (buildState params symbols)).Valid params.l :=
  (peelLoop_spec (W := Symbol T) _ _ params.l).1
    (valid_buildState fun sym hsym => (h sym hsym).columns_lt)

section

variable {x : List.Vector (Symbol T) params.l} (h : inactivationDecode params symbols = .ok x)
include h

/-- Symbols that are decoded are enough and well formed, and pass the final check. -/
theorem of_inactivationDecode :
    params.l ≤ symbols.length ∧ (∀ sym ∈ symbols, sym.WellFormed params.l) ∧
      SolvesSymbols symbols id (symbolAt x) ∧
      ∃ solved, inactivateAndSolve params (peel (buildState params symbols)) = .ok solved ∧
        x = List.Vector.ofFn fun c => (solved c).getD 0 := by
  unfold inactivationDecode at h
  split at h
  · cases h
  rename_i hinput
  split at h
  · cases h
  rename_i solved hsolve
  dsimp only at h
  split at h
  · cases h
  rename_i hverify
  cases h
  unfold validateInput at hinput
  split_ifs at hinput with hfew
  exact ⟨not_lt.mp hfew, validateSymbols_ok_iff.mp hinput,
    verifyDecodedOutput_ok_iff.mp hverify, solved, hsolve, rfl⟩

/-- What the decoder returns is the only solution of the received equations. -/
theorem inactivationDecode_ok (hy : SolvesSymbols symbols ρ y) (c : Fin params.l) :
    y c = ρ (x.get c) := by
  obtain ⟨-, hformed, -, solved, hsolve, rfl⟩ := of_inactivationDecode h
  rw [List.Vector.get_ofFn]
  exact inactivateAndSolve_ok (valid_peel hformed) hsolve (satisfies_peel.mpr hy) c.2

end

/-- A decoder that gives up on enough well-formed equations with a solution reports a recoverable
failure, and the left-hand sides have a kernel. -/
theorem inactivationDecode_error (hlength : params.l ≤ symbols.length)
    (hformed : ∀ sym ∈ symbols, sym.WellFormed params.l) {err : InnerError}
    (h : inactivationDecode params symbols = .error err) {y : ℕ → Symbol T}
    (hy : SolvesSymbols symbols id y) :
    err.failureClass = .recoverable ∧ ∃ z : ℕ → Gf256, (∃ c < params.l, z c ≠ 0) ∧
      SolvesSymbols symbols (0 : Symbol T →ₗ[Gf256] Gf256) z := by
  have hinput : validateInput params symbols = .ok () := by
    rw [validateInput, if_neg (by omega)]
    exact validateSymbols_ok_iff.mpr hformed
  rw [inactivationDecode, hinput] at h
  simp only at h
  split at h
  case h_1 err' hsolve =>
    cases h
    obtain ⟨hclass, z, hz, hkernel⟩ :=
      inactivateAndSolve_error (valid_peel hformed) hsolve (satisfies_peel.mpr hy)
    exact ⟨hclass, z, hz, satisfies_peel.mp hkernel⟩
  case h_2 solved hsolve =>
    -- What was solved is the solution, so the final check passes.
    have hsame : SolvesSymbols symbols id (symbolAt
        (List.Vector.ofFn fun c : Fin params.l => (solved c).getD 0)) := by
      intro sym hsym
      rw [← hy sym hsym]
      refine dot_congr fun t ht => ?_
      have hlt := (hformed sym hsym).columns_lt t.1 (of_mem_zip ht).1
      rw [symbolAt_of_lt _ hlt, List.Vector.get_ofFn]
      exact (inactivateAndSolve_ok (valid_peel hformed) hsolve (satisfies_peel.mpr hy) hlt).symm
    rw [verifyDecodedOutput_ok_iff.mpr hsame] at h
    cases h

end Flywheel.Raptorq
