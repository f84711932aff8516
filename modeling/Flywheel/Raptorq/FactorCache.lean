import Flywheel.Raptorq.Exactness

/-!
# The cache of column orders

`InactivationDecoder` keeps the column orders of its last dense matrices, under signatures of the
matrices. A signature determines the order, so a decode does not depend on the decodes before it.
-/

namespace Flywheel.Raptorq

open Flywheel.Data SystematicParams List
open Flywheel.Protocol (usizeMax)

variable {T : ℕ}

/-- The terms of an equation in unsolved columns. Both are ascending in the source, which walks
through them side by side. -/
def unsolvedTerms (unsolved : List ℕ) (row : (Equation × Symbol T) × ℕ) : List (ℕ × Gf256) :=
  row.1.1.terms.filter fun t => t.2 ≠ 0 ∧ t.1 ∈ unsolved

/-- How many terms stand before the end of each row. -/
def rowOffsets : ℕ → List (List (ℕ × Gf256)) → List ℕ
  | _, [] => []
  | before, terms :: rows => (before + terms.length) :: rowOffsets (before + terms.length) rows

structure DenseFactorSignature where
  fingerprint : UInt64
  unsolved : List ℕ
  rowOffsets : List ℕ
  rowTermsFlat : List (ℕ × Gf256)
deriving DecidableEq

variable (hash : List ℕ → List ℕ → List (ℕ × Gf256) → UInt64)

def DenseFactorSignature.fromEquations (rows : List ((Equation × Symbol T) × ℕ))
    (unsolved : List ℕ) : DenseFactorSignature :=
  let rowTerms := rows.map (unsolvedTerms unsolved)
  ⟨hash unsolved (Raptorq.rowOffsets 0 rowTerms) rowTerms.flatten, unsolved,
    Raptorq.rowOffsets 0 rowTerms, rowTerms.flatten⟩

theorem eq_of_rowOffsets_eq {rows rows' : List (List (ℕ × Gf256))} {before : ℕ}
    (h : rowOffsets before rows = rowOffsets before rows') (hflat : rows.flatten = rows'.flatten) :
    rows = rows' := by
  induction rows generalizing rows' before with
  | nil =>
    cases rows' with
    | nil => rfl
    | cons terms rows' => cases h
  | cons terms rows ih =>
    cases rows' with
    | nil => cases h
    | cons terms' rows' =>
      obtain ⟨hlength, hrest⟩ := cons.inj h
      obtain ⟨rfl, htail⟩ := append_inj hflat (Nat.add_left_cancel hlength)
      rw [ih hrest htail]

variable {rows rows' : List ((Equation × Symbol T) × ℕ)} {unsolved unsolved' : List ℕ}

/-- The equations with an unsolved column are those with a term in it. -/
theorem columnSupport_eq {col : ℕ} (hcol : col ∈ unsolved) :
    columnSupport rows col = ((rows.map (unsolvedTerms unsolved)).filter fun terms =>
      col ∈ terms.map Prod.fst).length := by
  rw [filter_map, length_map]
  refine congrArg length (filter_congr fun row _ => decide_eq_decide.mpr ?_)
  rw [Equation.coef]
  constructor
  · intro hne
    by_contra hnot
    have hnone : row.1.1.terms.lookup col = none := by
      refine lookup_eq_none_iff.mpr fun t ht => bne_iff_ne.mpr ?_
      rintro rfl
      refine hnot (mem_map_of_mem (mem_filter.mpr ⟨ht, ?_⟩))
      simpa using ⟨row.1.1.normal.nonzero t ht, hcol⟩
    rw [coefOf, hnone] at hne
    exact hne rfl
  · intro hmem
    obtain ⟨t, ht, rfl⟩ := mem_map.mp hmem
    have hterm := (mem_filter.mp ht).1
    rw [row.1.1.normal.coefOf_of_mem hterm]
    exact row.1.1.normal.nonzero t hterm

/-- Equations with one signature have their unsolved columns in one order. -/
theorem sparseFirstDenseColumns_congr
    (h : DenseFactorSignature.fromEquations hash rows unsolved =
      DenseFactorSignature.fromEquations hash rows' unsolved') :
    sparseFirstDenseColumns rows unsolved = sparseFirstDenseColumns rows' unsolved' := by
  obtain ⟨-, rfl, hoffsets, hflat⟩ := DenseFactorSignature.mk.inj h
  have hrows := eq_of_rowOffsets_eq hoffsets hflat
  have hsupport : ∀ col ∈ unsolved, columnSupport rows col = columnSupport rows' col := by
    intro col hcol
    rw [columnSupport_eq hcol, hrows, ← columnSupport_eq hcol]
  unfold sparseFirstDenseColumns
  split_ifs with hfew
  · rfl
  · rw [← map_id (mergeSort _ _), map_mergeSort, map_id]
    intro a ha b hb
    rw [hsupport a ha, hsupport b hb]
    rfl

variable (T) in
/-- A cache entry, with an order that fits every matrix of its signature. -/
structure DenseFactorCacheEntry where
  signature : DenseFactorSignature
  denseCols : List ℕ
  denseCols_eq : ∀ (rows : List ((Equation × Symbol T) × ℕ)) (unsolved : List ℕ),
    DenseFactorSignature.fromEquations hash rows unsolved = signature →
      sparseFirstDenseColumns rows unsolved = denseCols

variable (T) in
/-- The entries of the cache, the oldest first. -/
abbrev DenseFactorCache := List (DenseFactorCacheEntry T hash)

variable {hash} (cache : DenseFactorCache T hash)

def DenseFactorCache.lookup (signature : DenseFactorSignature) : Option (List ℕ) :=
  (cache.find? fun entry => entry.signature.fingerprint = signature.fingerprint ∧
    entry.signature = signature).map DenseFactorCacheEntry.denseCols

def DenseFactorCache.insert (entry : DenseFactorCacheEntry T hash) : DenseFactorCache T hash :=
  if cache.any (·.signature = entry.signature) then
    cache.set (cache.findIdx (·.signature = entry.signature)) entry
  else (if 16 ≤ cache.length then cache.tail else cache) ++ [entry]

def denseFactorWithCache (rows : List ((Equation × Symbol T) × ℕ)) (unsolved : List ℕ) :
    List ℕ × DenseFactorCache T hash :=
  let signature := .fromEquations hash rows unsolved
  match cache.lookup signature with
  | some denseCols => (denseCols, cache)
  | none =>
    let denseCols := sparseFirstDenseColumns rows unsolved
    (denseCols, cache.insert
      ⟨signature, denseCols, fun _ _ h => sparseFirstDenseColumns_congr hash h⟩)

variable (params : SystematicParams) (symbols : List (ReceivedSymbol T))

/-- `solveUnsolved` with the order of the columns from the cache. -/
def solveUnsolvedWithCache (st : DecoderState T) (unsolved : List ℕ) :
    Except InnerError (ℕ → Option (Symbol T)) × DenseFactorCache T hash :=
  match buildDenseCoreRows unsolved (st.equations.zipIdx.filter fun row => !row.1.1.used) with
  | .error err => (.error err, cache)
  | .ok core =>
    let (cols, cache) := denseFactorWithCache cache core unsolved
    (if core.length < cols.length then .error (.insufficientSymbols core.length cols.length)
    else
      let rows := core.map fun row => denseRow cols row.1
      let mode := chooseRuntimeDecoderPolicy core.length cols.length (matrixNonzeroCount rows)
        (cols.filter fun col => columnSupport core col = 0).length
        (saturatingMul usizeMax unsolved.length 1000 / max params.l 1)
      match solveDenseCore mode cols.get (core.map Prod.snd) rows with
      | .error err => .error err
      | .ok t => .ok fun col =>
        if h : col ∈ cols then
          some (solvedSymbol t ⟨cols.idxOf col, idxOf_lt h⟩)
        else st.solved col, cache)

/-- `InactivationDecoder::decode`, which passes the cache on. -/
def decodeWithCache :
    Except InnerError (List.Vector (Symbol T) params.l) × DenseFactorCache T hash :=
  match validateInput params symbols with
  | .error err => (.error err, cache)
  | .ok () =>
    let st := peel (buildState params symbols)
    let unsolved := st.activeCols.filter fun col => (st.solved col).isNone
    let (solved, cache) :=
      if unsolved = [] then (.ok st.solved, cache)
      else solveUnsolvedWithCache cache params st unsolved
    (match solved with
    | .error err => .error err
    | .ok solved =>
      let intermediate := List.Vector.ofFn fun c : Fin params.l => (solved c).getD 0
      match verifyDecodedOutput (symbolAt intermediate) symbols with
      | .error err => .error err
      | .ok () => .ok intermediate, cache)

variable (hash) in
/-- What a decoder returns after some earlier decodes. -/
def decodeAfter (earlier : List (List (ReceivedSymbol T))) :
    Except InnerError (List.Vector (Symbol T) params.l) :=
  let cache : DenseFactorCache T hash :=
    earlier.foldl (fun cache symbols => (decodeWithCache cache params symbols).2) []
  (decodeWithCache cache params symbols).1

theorem denseFactorWithCache_fst (rows : List ((Equation × Symbol T) × ℕ)) (unsolved : List ℕ) :
    (denseFactorWithCache cache rows unsolved).1 = sparseFirstDenseColumns rows unsolved := by
  unfold denseFactorWithCache
  dsimp only
  cases hlookup : cache.lookup (.fromEquations hash rows unsolved) with
  | none => rfl
  | some denseCols =>
    obtain ⟨entry, hfind, rfl⟩ := Option.map_eq_some_iff.mp hlookup
    have hsame := find?_some hfind
    rw [decide_eq_true_eq] at hsame
    exact (entry.denseCols_eq rows unsolved hsame.2.symm).symm

theorem solveUnsolvedWithCache_fst (st : DecoderState T) (unsolved : List ℕ) :
    (solveUnsolvedWithCache cache params st unsolved).1 = solveUnsolved params st unsolved := by
  unfold solveUnsolvedWithCache solveUnsolved
  cases buildDenseCoreRows unsolved (st.equations.zipIdx.filter fun row => !row.1.1.used) with
  | error err => rfl
  | ok core =>
    dsimp only
    rewrite [denseFactorWithCache_fst]
    rfl

/-- The cache is transparent. -/
theorem decodeWithCache_fst :
    (decodeWithCache cache params symbols).1 = inactivationDecode params symbols := by
  unfold decodeWithCache inactivationDecode inactivateAndSolve
  cases validateInput params symbols with
  | error err => rfl
  | ok u =>
    dsimp only
    rewrite [apply_ite Prod.fst, solveUnsolvedWithCache_fst]
    rfl

variable (hash) in
/-- The decoder succeeds exactly on enough well-formed equations of full column rank that have a
solution. It returns the only solution, whatever was decoded before and is in the cache. -/
theorem decodeAfter_exact (earlier : List (List (ReceivedSymbol T))) :
    ((∃ x, decodeAfter hash params symbols earlier = .ok x) ↔
      params.l ≤ symbols.length ∧ (∀ sym ∈ symbols, sym.WellFormed params.l) ∧
        (∃ y : ℕ → Symbol T, SolvesSymbols symbols LinearMap.id y) ∧ FullRank params symbols) ∧
    (∀ x, decodeAfter hash params symbols earlier = .ok x →
      SolvesSymbols symbols LinearMap.id (symbolAt x) ∧
        ∀ y : ℕ → Symbol T, SolvesSymbols symbols LinearMap.id y →
          ∀ c : Fin params.l, y c = x.get c) ∧
    decodeAfter hash params symbols earlier = decodeAfter hash params symbols [] ∧
    ∀ cache : DenseFactorCache T hash,
      (decodeWithCache cache params symbols).1 = decodeAfter hash params symbols [] := by
  simp only [decodeAfter, decodeWithCache_fst]
  refine ⟨exists_inactivationDecode_iff, fun x hx => ?_, trivial, fun _ => trivial⟩
  obtain ⟨-, -, hsolves, -⟩ := of_inactivationDecode hx
  exact ⟨hsolves, fun y hy => inactivationDecode_ok hx hy⟩

end Flywheel.Raptorq
