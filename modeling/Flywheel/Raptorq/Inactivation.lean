import Flywheel.Data.SparseEquations
import Flywheel.Protocol.Fcps
import Flywheel.Raptorq.Systematic

/-!
# The inactivation decoder

Received symbols become sparse equations over the intermediate symbols. Peeling solves equations of
degree one and substitutes the solution everywhere; what is left is solved by dense Gaussian
elimination, with a policy for the pivot rows and retries under another policy. The solution is
checked against every received symbol before it is returned.
-/

namespace Flywheel.Raptorq

open Flywheel.Data Flywheel.Protocol

variable {T : ℕ}

structure ReceivedSymbol (T : ℕ) where
  esi : UInt32
  isSource : Bool
  columns : List ℕ
  coefficients : List Gf256
  data : Symbol T

namespace ReceivedSymbol

def source (esi : UInt32) (data : Symbol T) : ReceivedSymbol T :=
  ⟨esi, true, [esi.toNat], [1], data⟩

def repair (esi : UInt32) (equation : List ℕ × List Gf256) (data : Symbol T) : ReceivedSymbol T :=
  ⟨esi, false, equation.1, equation.2, data⟩

def terms (sym : ReceivedSymbol T) : List (ℕ × Gf256) := sym.columns.zip sym.coefficients

end ReceivedSymbol

inductive InnerError
  | insufficientSymbols (received required : ℕ)
  /-- A column without a pivot, or an equation that reduced to an inconsistent one. -/
  | singularMatrix (row : ℕ)
  | unsupportedSourceBlockSize (requested maxSupported : ℕ)
  | symbolEquationArityMismatch (esi : UInt32) (columns coefficients : ℕ)
  | columnIndexOutOfRange (esi : UInt32) (column maxValid : ℕ)
  | corruptDecodedOutput (esi : UInt32) (byteIndex : ℕ) (expected actual : UInt8)
  deriving DecidableEq

/-- Whether a retry with more symbols may succeed. -/
inductive DecodeFailureClass
  | recoverable
  | unrecoverable
  deriving DecidableEq

def InnerError.failureClass : InnerError → DecodeFailureClass
  | insufficientSymbols .. => .recoverable
  | singularMatrix .. => .recoverable
  | unsupportedSourceBlockSize .. => .unrecoverable
  | symbolEquationArityMismatch .. => .unrecoverable
  | columnIndexOutOfRange .. => .unrecoverable
  | corruptDecodedOutput .. => .unrecoverable

structure Equation where
  terms : List (ℕ × Gf256)
  used : Bool
  normal : Normal terms

namespace Equation

/-- The equation of columns and coefficients: sorted, duplicates merged, zeros removed. -/
def new (columns : List ℕ) (coefficients : List Gf256) : Equation :=
  ⟨normalTerms (columns.zip coefficients), false, normal_normalTerms _⟩

variable (eq : Equation)

def degree : ℕ := eq.terms.length

/-- The coefficient of a column, or zero. -/
def coef (col : ℕ) : Gf256 := coefOf eq.terms col

def removeTerm (col : ℕ) : Equation :=
  { eq with terms := dropColumn eq.terms col, normal := eq.normal.dropColumn col }

end Equation

/-- The decoder's state: the equations with their right-hand sides, the solved columns and the
columns that are still active. -/
structure DecoderState (T : ℕ) where
  equations : List (Equation × Symbol T)
  solved : ℕ → Option (Symbol T)
  activeCols : List ℕ

section Peeling

/-- The column and coefficient of an unused equation of degree one whose column is active and
unsolved. -/
def activeDegreeOneCol (activeCols : List ℕ) (solved : ℕ → Option (Symbol T)) (eq : Equation) :
    Option (ℕ × Gf256) :=
  if eq.used ∨ eq.degree ≠ 1 then none
  else
    match eq.terms with
    | [] => none
    | (col, coef) :: _ =>
      if col ∈ activeCols ∧ (solved col).isNone then some (col, coef) else none

/-- What an equation ready for peeling looks like. -/
theorem activeDegreeOneCol_eq_some {activeCols : List ℕ} {solved : ℕ → Option (Symbol T)}
    {eq : Equation} {col : ℕ} {coef : Gf256}
    (h : activeDegreeOneCol activeCols solved eq = some (col, coef)) :
    eq.used = false ∧ eq.terms = [(col, coef)] ∧ col ∈ activeCols ∧ solved col = none := by
  unfold activeDegreeOneCol at h
  split_ifs at h with hskip
  rw [not_or, Bool.not_eq_true] at hskip
  split at h
  case h_1 => cases h
  case h_2 head coef' rest hterms =>
    split_ifs at h with hactive
    cases h
    have hrest : rest = [] := by
      have hdegree := hskip.2
      rw [Equation.degree, hterms, List.length_cons] at hdegree
      exact List.length_eq_zero_iff.mp (by omega)
    exact ⟨hskip.1, by rw [hterms, hrest], hactive.1, by simpa using hactive.2⟩

/-- The solution of an equation with a single term. -/
def singleSolution (coef : Gf256) (rhs : Symbol T) : Symbol T :=
  if coef ≠ 1 then gf256MulSlice rhs coef⁻¹ else rhs

/-- Substitute a solved column into an equation. -/
def substitute (col : ℕ) (solution : Symbol T) (row : Equation × Symbol T) : Equation × Symbol T :=
  if row.1.used ∨ row.1.coef col = 0 then row
  else (row.1.removeTerm col, gf256AddmulSlice row.2 solution (row.1.coef col))

variable (st : DecoderState T)

/-- Solve column `col` by equation `i` and substitute the solution everywhere. -/
def peelColumn (i : ℕ) (row : Equation × Symbol T) (col : ℕ) (coef : Gf256) : DecoderState T :=
  let solution := singleSolution coef row.2
  { equations :=
      (st.equations.set i ({ row.1 with used := true }, row.2)).map (substitute col solution)
    solved := Function.update st.solved col (some solution)
    activeCols := st.activeCols.erase col }

/-- The equations that a substitution brought to degree one and that are not in the queue. The
queue holds exactly the equations flagged as queued. -/
def newlyQueued (before after : DecoderState T) (col : ℕ) (queue : List ℕ) : List ℕ :=
  (List.range before.equations.length).filter fun i =>
    match before.equations[i]?, after.equations[i]? with
    | some (eq, _), some (eq', _) =>
      !eq'.used && eq.coef col ≠ 0 && i ∉ queue &&
        (activeDegreeOneCol after.activeCols before.solved eq').isSome
    | _, _ => false

/-- Phase one: solve queued equations of degree one until the queue is empty. -/
def peelLoop (st : DecoderState T) (queue : List ℕ) : DecoderState T :=
  match queue with
  | [] => st
  | i :: queue =>
    match st.equations[i]? with
    | none => peelLoop st queue
    | some row =>
      match _hcol : activeDegreeOneCol st.activeCols st.solved row.1 with
      | none => peelLoop st queue
      | some (col, coef) =>
        let st' := peelColumn st i row col coef
        peelLoop st' (queue ++ newlyQueued st st' col queue)
termination_by (st.activeCols.length, queue.length)
decreasing_by
  · exact Prod.Lex.right _ (Nat.lt_succ_self _)
  · exact Prod.Lex.right _ (Nat.lt_succ_self _)
  · refine Prod.Lex.left _ _ ?_
    have hmem := (activeDegreeOneCol_eq_some ‹_›).2.2.1
    rw [peelColumn, List.length_erase_of_mem hmem]
    exact Nat.sub_lt (List.length_pos_of_mem hmem) Nat.one_pos

/-- Phase one from the equations that have degree one at the start. -/
def peel : DecoderState T :=
  peelLoop st ((List.range st.equations.length).filter fun i =>
    (st.equations[i]?.bind fun row => activeDegreeOneCol st.activeCols st.solved row.1).isSome)

end Peeling

section Policy

/-- `u32::MAX`. -/
def u32Max : ℕ := 2 ^ 32 - 1

def saturatingAdd (bound a b : ℕ) : ℕ := min (a + b) bound

def saturatingMul (bound a b : ℕ) : ℕ := min (a * b) bound

/-- What the policy reads off the dense core. -/
structure DecoderPolicyFeatures where
  densityPermille : ℕ
  rankDeficitPermille : ℕ
  inactivationPressurePermille : ℕ
  overheadRatioPermille : ℕ
  budgetExhausted : Bool

inductive DecoderPolicyMode
  | conservativeBaseline
  | highSupportFirst
  | blockSchurLowRank
  deriving DecidableEq

/-- How pivots are chosen in the hard regime. -/
inductive HardRegimePlan
  | markowitz
  /-- The row with the fewest entries on the other side of a column. -/
  | blockSchurLowRank (splitCol : ℕ)
  deriving DecidableEq

variable (nRows nCols denseNonzeros unsupportedCols pressure : ℕ)

def computeDecoderPolicyFeatures : DecoderPolicyFeatures :=
  if nRows = 0 ∨ nCols = 0 then ⟨0, 0, pressure, 0, false⟩
  else
    let totalCells := saturatingMul usizeMax nRows nCols
    ⟨saturatingMul usizeMax denseNonzeros 1000 / max totalCells 1,
      saturatingMul usizeMax unsupportedCols 1000 / nCols,
      pressure,
      saturatingMul usizeMax (nRows - nCols) 1000 / nCols,
      4096 < totalCells⟩

/-- The expected losses of the three policies. -/
def policyLosses (features : DecoderPolicyFeatures) (nCols : ℕ) : ℕ × ℕ × ℕ :=
  let add := saturatingAdd u32Max
  let mul := saturatingMul u32Max
  let density := min features.densityPermille u32Max
  let rankDeficit := min features.rankDeficitPermille u32Max
  let pressure := min features.inactivationPressurePermille u32Max
  let overhead := min features.overheadRatioPermille u32Max
  let baseline :=
    add (add (add (add 400 (mul density 3)) (mul rankDeficit 4)) (mul pressure 2)) overhead
  let highSupport :=
    add (add (add (add 700 density) (mul rankDeficit 3)) pressure) (overhead / 2)
  let blockSchur :=
    if nCols < 12 then u32Max
    else add (add (add (add 750 (density / 2)) (mul rankDeficit 2)) pressure) (overhead / 3)
  (baseline, highSupport, blockSchur)

def chooseRuntimeDecoderPolicy : DecoderPolicyMode :=
  let features :=
    computeDecoderPolicyFeatures nRows nCols denseNonzeros unsupportedCols pressure
  let (_, highSupport, blockSchur) := policyLosses features nCols
  if features.budgetExhausted then .conservativeBaseline
  else if ¬ (8 ≤ nCols ∧
      (350 ≤ features.densityPermille ∨ nRows ≤ saturatingAdd usizeMax nCols 2)) then
    .conservativeBaseline
  else
    let blockSchur :=
      if 12 ≤ nCols ∧ 450 ≤ features.densityPermille ∧ 4 < nCols then blockSchur else u32Max
    if blockSchur < highSupport then .blockSchurLowRank else .highSupportFirst

/-- The plan of the hard regime for a matrix with so many nonzero cells. -/
def selectHardRegimePlan (nRows nCols nonzeros : ℕ) : HardRegimePlan :=
  let totalCells := saturatingMul usizeMax nRows nCols
  if nCols < 12 ∨ totalCells = 0 then .markowitz
  else if ¬ saturatingMul usizeMax totalCells 45 ≤ saturatingMul usizeMax nonzeros 100 ∨
      nCols ≤ 4 then .markowitz
  else .blockSchurLowRank (nCols - 4)

end Policy

section DenseCore

variable {n : ℕ}

/-- The nonzero entries of a row among some columns. -/
def rowNonzeroCount (row : Row Gf256 (Symbol T) n) (among : Fin n → Bool) : ℕ :=
  ((List.finRange n).filter fun c => among c && row.1.get c ≠ 0).length

def matrixNonzeroCount (rows : List (Row Gf256 (Symbol T) n)) : ℕ :=
  (rows.map fun row => rowNonzeroCount row fun _ => true).sum

/-- The nonzero entries on the other side of the split from a column. -/
def rowCrossBlockNnz (row : Row Gf256 (Symbol T) n) (splitCol : ℕ) (col : Fin n) : ℕ :=
  if (col : ℕ) < splitCol then rowNonzeroCount row fun c => splitCol ≤ (c : ℕ)
  else rowNonzeroCount row fun c => (c : ℕ) < splitCol

variable (plan : HardRegimePlan)

/-- The entries across the split that a plan counts. -/
def crossBlockNnz (row : Row Gf256 (Symbol T) n) (col : Fin n) : ℕ :=
  match plan with
  | .markowitz => 0
  | .blockSchurLowRank splitCol => rowCrossBlockNnz row splitCol col

/-- The better one of the best row so far and row `r`: the fewest entries across the split, then the
sparsest, then the first. -/
def betterPivot (r cross nnz : ℕ) : Option (ℕ × ℕ × ℕ) → ℕ × ℕ × ℕ
  | none => (r, cross, nnz)
  | some (bestRow, bestCross, bestNnz) =>
    if cross < bestCross then (r, cross, nnz)
    else if cross = bestCross ∧ nnz < bestNnz then (r, bestCross, nnz)
    else if cross = bestCross ∧ nnz = bestNnz ∧ r < bestRow then (r, bestCross, nnz)
    else (bestRow, bestCross, bestNnz)

/-- The hard regime's choice among the unused rows with the column. -/
def selectHard (plan : HardRegimePlan) (col : Fin n) :
    List (Row Gf256 (Symbol T) n) → ℕ → Option (ℕ × ℕ × ℕ) → Option (ℕ × ℕ × ℕ)
  | [], _, best => best
  | row :: rest, r, best =>
    if row.1.get col = 0 then selectHard plan col rest (r + 1) best
    else
      selectHard plan col rest (r + 1) (some (betterPivot r (crossBlockNnz plan row col)
        (rowNonzeroCount row fun _ => true) best))

/-- The position of the pivot row among the unused rows; the baseline takes the first one. -/
def selectPivotRow (hard : Option HardRegimePlan) (col : Fin n)
    (rows : List (Row Gf256 (Symbol T) n)) : Option ℕ :=
  match hard with
  | none => rows.findIdx? fun row => row.1.get col ≠ 0
  | some plan => (selectHard plan col rows 0 none).map Prod.fst

/-- Eliminate the columns one by one. The indices of the equations behind the unused rows are kept
beside them; a column without a pivot is reported with the matrix as it stands. -/
def eliminateColumns (hard : Option HardRegimePlan) :
    List (Fin n) → List ℕ → Tableau Gf256 (Symbol T) n →
      Except (Fin n × Tableau Gf256 (Symbol T) n) (List ℕ × Tableau Gf256 (Symbol T) n)
  | [], ids, t => .ok (ids, t)
  | col :: cols, ids, t =>
    match selectPivotRow hard col t.pending with
    | none => .error (col, t)
    | some r =>
      match t.pending[r]? with
      | none => .error (col, t)
      | some row =>
        eliminateColumns hard cols (ids.eraseIdx r) (pivotStep t col row (t.pending.eraseIdx r))

/-- The first equation that was reduced to zero on the left but not on the right. -/
def firstInconsistentDenseRow (ids : List ℕ) (rows : List (Row Gf256 (Symbol T) n)) : Option ℕ :=
  ((ids.zip rows).find? fun p => p.2.1 = 0 ∧ p.2.2 ≠ 0).map Prod.fst

/-- One attempt at the elimination: the reduced matrix, or the error with the matrix as it
stands. -/
def gaussAttempt (hard : Option HardRegimePlan) (denseCols : Fin n → ℕ) (ids : List ℕ)
    (rows : List (Row Gf256 (Symbol T) n)) :
    Except (InnerError × Tableau Gf256 (Symbol T) n) (Tableau Gf256 (Symbol T) n) :=
  match eliminateColumns hard (List.finRange n) ids ⟨[], rows⟩ with
  | .error (col, t) => .error (.singularMatrix (denseCols col), t)
  | .ok (ids, t) =>
    match firstInconsistentDenseRow ids t.pending with
    | some id => .error (.singularMatrix id, t)
    | none => .ok t

/-- Attempts in the hard regime: a block plan that fails is retried with the sparsest rows. -/
def solveHard (denseCols : Fin n → ℕ) (ids : List ℕ)
    (rows : List (Row Gf256 (Symbol T) n)) : Except InnerError (Tableau Gf256 (Symbol T) n) :=
  match gaussAttempt (some plan) denseCols ids rows with
  | .ok t => .ok t
  | .error (err, _) =>
    match plan with
    | .blockSchurLowRank _ =>
      match gaussAttempt (some .markowitz) denseCols ids rows with
      | .ok t => .ok t
      | .error (err, _) => .error err
    | .markowitz => .error err

/-- The attempts the policy asks for: a baseline that fails is retried in the hard regime, with a
plan read off the matrix it left. -/
def solveDenseCore (mode : DecoderPolicyMode) (denseCols : Fin n → ℕ) (ids : List ℕ)
    (rows : List (Row Gf256 (Symbol T) n)) : Except InnerError (Tableau Gf256 (Symbol T) n) :=
  match mode with
  | .conservativeBaseline =>
    match gaussAttempt none denseCols ids rows with
    | .ok t => .ok t
    | .error (_, t) =>
      solveHard (selectHardRegimePlan rows.length n (matrixNonzeroCount t.rows)) denseCols ids rows
  | .highSupportFirst => solveHard .markowitz denseCols ids rows
  | .blockSchurLowRank =>
    solveHard (selectHardRegimePlan rows.length n (matrixNonzeroCount rows)) denseCols ids rows

end DenseCore

/-- The unused equations with an unsolved column, each with its index. One without is dropped if its
right-hand side is zero and is an error otherwise. -/
def buildDenseCoreRows (unsolved : List ℕ) :
    List ((Equation × Symbol T) × ℕ) → Except InnerError (List ((Equation × Symbol T) × ℕ))
  | [] => .ok []
  | (row, i) :: rest =>
    if row.1.terms.any fun t => t.1 ∈ unsolved && t.2 ≠ 0 then
      match buildDenseCoreRows unsolved rest with
      | .ok rows => .ok ((row, i) :: rows)
      | .error err => .error err
    else if row.2 ≠ 0 then .error (.singularMatrix i)
    else buildDenseCoreRows unsolved rest

variable (rows : List ((Equation × Symbol T) × ℕ))

/-- The number of equations with a column. -/
def columnSupport (col : ℕ) : ℕ :=
  (rows.filter fun row => row.1.1.coef col ≠ 0).length

/-- The unsolved columns, those in few equations first. -/
def sparseFirstDenseColumns (unsolved : List ℕ) : List ℕ :=
  if unsolved.length < 2 then unsolved
  else unsolved.mergeSort fun a b =>
    columnSupport rows a < columnSupport rows b ||
      (columnSupport rows a == columnSupport rows b && a ≤ b)

/-- The row of the dense matrix of an equation. -/
def denseRow (cols : List ℕ) (row : Equation × Symbol T) : Row Gf256 (Symbol T) cols.length :=
  (List.Vector.ofFn fun j => row.1.coef (cols.get j), row.2)

variable (params : SystematicParams)

/-- Solve the unsolved columns by Gaussian elimination on the unused equations. -/
def solveUnsolved (st : DecoderState T) (unsolved : List ℕ) :
    Except InnerError (ℕ → Option (Symbol T)) :=
  match buildDenseCoreRows unsolved (st.equations.zipIdx.filter fun row => !row.1.1.used) with
  | .error err => .error err
  | .ok core =>
    let cols := sparseFirstDenseColumns core unsolved
    if core.length < cols.length then .error (.insufficientSymbols core.length cols.length)
    else
      let rows := core.map fun row => denseRow cols row.1
      let mode := chooseRuntimeDecoderPolicy core.length cols.length (matrixNonzeroCount rows)
        (cols.filter fun col => columnSupport core col = 0).length
        (saturatingMul usizeMax unsolved.length 1000 / max params.l 1)
      match solveDenseCore mode cols.get (core.map Prod.snd) rows with
      | .error err => .error err
      | .ok t => .ok fun col =>
        if h : col ∈ cols then
          some (solvedSymbol t ⟨cols.idxOf col, List.idxOf_lt_length_of_mem h⟩)
        else st.solved col

/-- Phase two: solve the columns that peeling left. -/
def inactivateAndSolve (st : DecoderState T) : Except InnerError (ℕ → Option (Symbol T)) :=
  let unsolved := st.activeCols.filter fun col => (st.solved col).isNone
  if unsolved = [] then .ok st.solved else solveUnsolved params st unsolved

/-- The first byte in which two symbols differ. -/
def firstMismatchByte (expected actual : Symbol T) : Option (Fin T) :=
  (List.finRange T).find? fun i => expected.get i ≠ actual.get i

/-- The symbol a solution gives for a received equation; a plain source symbol is read off. -/
def expectedSymbol (intermediate : ℕ → Symbol T) (sym : ReceivedSymbol T) : Symbol T :=
  match sym.isSource, sym.columns, sym.coefficients with
  | true, [col], [coef] => if coef = 1 then intermediate col else combine intermediate sym.terms
  | _, _, _ => combine intermediate sym.terms

/-- Check a solution against every received symbol. -/
def verifyDecodedOutput (intermediate : ℕ → Symbol T) :
    List (ReceivedSymbol T) → Except InnerError Unit
  | [] => .ok ()
  | sym :: rest =>
    let expected := expectedSymbol intermediate sym
    match firstMismatchByte expected sym.data with
    | some i => .error (.corruptDecodedOutput sym.esi i (expected.get i).raw (sym.data.get i).raw)
    | none => verifyDecodedOutput intermediate rest

/-- Check the equation of every symbol: as many columns as coefficients, all of them in range. -/
def validateSymbols (l : ℕ) : List (ReceivedSymbol T) → Except InnerError Unit
  | [] => .ok ()
  | sym :: rest =>
    if sym.columns.length ≠ sym.coefficients.length then
      .error (.symbolEquationArityMismatch sym.esi sym.columns.length sym.coefficients.length)
    else
      match sym.columns.find? fun column => l ≤ column with
      | some column => .error (.columnIndexOutOfRange sym.esi column l)
      | none => validateSymbols l rest

variable (symbols : List (ReceivedSymbol T))

def validateInput : Except InnerError Unit :=
  if symbols.length < params.l then .error (.insufficientSymbols symbols.length params.l)
  else validateSymbols params.l symbols

def buildState : DecoderState T :=
  { equations := symbols.map fun sym => (Equation.new sym.columns sym.coefficients, sym.data)
    solved := fun _ => none
    activeCols := List.range params.l }

/-- Decode received symbols into the intermediate symbols. -/
def inactivationDecode : Except InnerError (List.Vector (Symbol T) params.l) :=
  match validateInput params symbols with
  | .error err => .error err
  | .ok () =>
    match inactivateAndSolve params (peel (buildState params symbols)) with
    | .error err => .error err
    | .ok solved =>
      let intermediate := List.Vector.ofFn fun c : Fin params.l => (solved c).getD 0
      match verifyDecodedOutput (symbolAt intermediate) symbols with
      | .error err => .error err
      | .ok () => .ok intermediate

/-- The equation of a row of the constraint matrix: its nonzero entries. -/
def constraintRowEquation {rows cols : ℕ} (constraints : ConstraintMatrix rows cols) (row : ℕ) :
    List ℕ × List Gf256 :=
  (((List.range cols).map fun col => (col, constraints.get row col)).filter
    fun t => t.2 ≠ 0).unzip

/-- The LDPC and HDPC rows as symbols with zero data. -/
def constraintSymbols : List (ReceivedSymbol T) :=
  let constraints := ConstraintMatrix.build params
  (List.range (params.s + params.h)).map fun row =>
    .repair (UInt32.ofNat row) (constraintRowEquation constraints row) 0

end Flywheel.Raptorq
