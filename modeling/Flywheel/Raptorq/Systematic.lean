import Flywheel.Raptorq.Gf256
import Flywheel.Raptorq.Rfc6330

/-!
# The systematic encoder

The code parameters of a source block, the constraint matrix of its LDPC, HDPC and LT rows, the
dense solver that turns the source symbols into intermediate symbols, and the repair symbols taken
from them.
-/

namespace Flywheel.Raptorq

open Flywheel.Data

variable {T : ℕ}

/-- The source block has no row in the systematic index table. -/
structure UnsupportedBlock where
  requested : ℕ
  maxSupported : ℕ
  deriving DecidableEq

/-- The parameters of a source block of `k` symbols: a row of the systematic index table that can
hold it. -/
structure SystematicParams where
  /-- K, the number of source symbols. -/
  k : ℕ
  kPrime : ℕ
  /-- J(K'), the systematic index. -/
  j : ℕ
  /-- S, the number of LDPC symbols. -/
  s : ℕ
  /-- H, the number of HDPC symbols. -/
  h : ℕ
  /-- W, the number of LT symbols. -/
  w : ℕ
  k_pos : 0 < k
  k_le : k ≤ kPrime
  mem_table : IndexRow.mk kPrime j s h w ∈ systematicIndexTable

namespace SystematicParams

variable (params : SystematicParams)

/-- L, the number of intermediate symbols. -/
def l : ℕ := params.kPrime + params.s + params.h

/-- P, the number of PI symbols. -/
def p : ℕ := params.l - params.w

def maxSupported : ℕ := (systematicIndexTable.getLast?.map IndexRow.kPrime).getD 0

/-- The parameters of a source block: the first row of the table with K' at least `k`. -/
def tryForSourceBlock (k : ℕ) : Except UnsupportedBlock SystematicParams :=
  if hk : k = 0 ∨ maxSupported < k then .error ⟨k, maxSupported⟩
  else
    match hfind : systematicIndexTable.find? (fun row => k ≤ row.kPrime) with
    | some row => .ok
        { k := k, kPrime := row.kPrime, j := row.j, s := row.s, h := row.h, w := row.w
          k_pos := Nat.pos_of_ne_zero fun h => hk (.inl h)
          k_le := by simpa using List.find?_some hfind
          mem_table := List.mem_of_find?_eq_some hfind }
    | none => .error ⟨k, maxSupported⟩

/-- The equation of a repair symbol: the selected intermediate symbols, each with coefficient
one. -/
def rfcRepairEquation (esi : UInt32) : List ℕ × List Gf256 :=
  let columns := repairIndicesForEsi params.j params.w params.p esi
  (columns, List.replicate columns.length 1)

end SystematicParams

/-- A matrix over the field, row by row. -/
structure ConstraintMatrix (rows cols : ℕ) where
  data : List.Vector (List.Vector Gf256 cols) rows

namespace ConstraintMatrix

variable {rows cols : ℕ}

def zeros (rows cols : ℕ) : ConstraintMatrix rows cols :=
  ⟨List.Vector.replicate rows (List.Vector.replicate cols 0)⟩

variable (m : ConstraintMatrix rows cols)

/-- The element at a row and a column. -/
def get (r c : ℕ) : Gf256 :=
  if h : r < rows ∧ c < cols then (m.data.get ⟨r, h.1⟩).get ⟨c, h.2⟩ else 0

/-- Overwrite the element at a row and a column. -/
def set (r c : ℕ) (v : Gf256) : ConstraintMatrix rows cols :=
  if h : r < rows ∧ c < cols then
    ⟨m.data.set ⟨r, h.1⟩ ((m.data.get ⟨r, h.1⟩).set ⟨c, h.2⟩ v)⟩
  else m

/-- Add to the element at a row and a column. -/
def addAssign (r c : ℕ) (v : Gf256) : ConstraintMatrix rows cols :=
  m.set r c (m.get r c + v)

variable (params : SystematicParams)

/-- The LDPC rows: three ones per column in a circulant pattern, then the identity block of the
check symbols. -/
def buildLdpcRows : ConstraintMatrix rows cols :=
  let s := params.s
  let m := (List.range params.kPrime).foldl (fun m i =>
    let a := 1 + i / max s 1
    let row := i % s
    let m := m.addAssign row i 1
    let row := (row + a) % s
    let m := m.addAssign row i 1
    let row := (row + a) % s
    m.addAssign row i 1) m
  (List.range s).foldl (fun m i => m.set i (params.kPrime + i) 1) m

/-- The two rows of the MT matrix that get a one in column `j`. -/
def mtRows (h j : ℕ) : ℕ × ℕ :=
  let rand1 := (rand (UInt32.ofNat (j + 1)) 6 (UInt32.ofNat h)).toNat
  let rand2 :=
    if 1 < h then (rand (UInt32.ofNat (j + 1)) 7 (UInt32.ofNat (h - 1))).toNat else 0
  (rand1, (rand1 + rand2 + 1) % h)

/-- The MT matrix: two ones per column, and powers of the generator in the last one. -/
def buildMt (h ks : ℕ) : ConstraintMatrix h ks :=
  let mt := (List.range (ks - 1)).foldl (fun mt j =>
    let (rand1, i2) := mtRows h j
    let mt := mt.addAssign rand1 j 1
    if i2 ≠ rand1 then mt.addAssign i2 j 1 else mt) (zeros h ks)
  if 0 < ks then
    (List.range h).foldl (fun mt i => mt.set i (ks - 1) (Gf256.alpha.pow (UInt8.ofNat (i % 255)))) mt
  else mt

/-- An element of the product of the lower triangular GAMMA matrix with MT. -/
def gammaMt {h ks : ℕ} (mt : ConstraintMatrix h ks) (r c : ℕ) : Gf256 :=
  (List.range (r + 1)).foldl (fun val t =>
    if mt.get t c ≠ 0 then
      val + Gf256.alpha.pow (UInt8.ofNat ((r - t) % 255)) * mt.get t c
    else val) 0

/-- The HDPC rows: GAMMA times MT over the other symbols, then the identity block. -/
def buildHdpcRows : ConstraintMatrix rows cols :=
  let s := params.s
  let h := params.h
  let ks := params.kPrime + s
  if h = 0 then m
  else
    let mt := buildMt h ks
    let m := (List.range h).foldl (fun m r => (List.range ks).foldl (fun m c =>
      let val := gammaMt mt r c
      if val ≠ 0 then m.set (s + r) c val else m) m) m
    (List.range h).foldl (fun m r => m.set (s + r) (ks + r) 1) m

/-- The LT rows of the systematic symbols: source symbol `i` is intermediate symbol `i`. -/
def buildLtRows : ConstraintMatrix rows cols :=
  (List.range params.kPrime).foldl (fun m i => m.set (params.s + params.h + i) i 1) m

/-- The constraint matrix of a source block. -/
def build : ConstraintMatrix (params.s + params.h + params.kPrime) params.l :=
  (((zeros _ _).buildLdpcRows params).buildHdpcRows params).buildLtRows params

def augmented (rhs : List.Vector (Symbol T) rows) : List (Row Gf256 (Symbol T) cols) :=
  m.data.toList.zip rhs.toList

end ConstraintMatrix

section Pivots

variable {n : ℕ}

/-- Scale a row so that its pivot is one. -/
def scalePivotRow (c : Fin n) (row : Row Gf256 (Symbol T) n) : Row Gf256 (Symbol T) n :=
  let inv := (row.1.get c)⁻¹
  (row.1.map (· * inv), gf256MulSlice row.2 inv)

/-- Eliminate the pivot column from another row; a row without the column is left alone. -/
def eliminateRow (c : Fin n) (pivot row : Row Gf256 (Symbol T) n) : Row Gf256 (Symbol T) n :=
  let factor := row.1.get c
  if factor = 0 then row
  else (List.Vector.zipWith (fun x v => x + factor * v) row.1 pivot.1,
    gf256AddmulSlice row.2 pivot.2 factor)

variable (t : Tableau Gf256 (Symbol T) n)

/-- Use `row` as the pivot of column `c` and eliminate the column everywhere else. -/
def pivotStep (c : Fin n) (row : Row Gf256 (Symbol T) n)
    (rest : List (Row Gf256 (Symbol T) n)) : Tableau Gf256 (Symbol T) n :=
  let pivot := scalePivotRow c row
  { solved := t.solved.map (fun p => (p.1, eliminateRow c pivot p.2)) ++ [(c, pivot)]
    pending := rest.map (eliminateRow c pivot) }

/-- The first unused column of a row with a nonzero entry, and the number of such columns. -/
def unusedDegree (used : List (Fin n)) (row : Row Gf256 (Symbol T) n) : Option (Fin n × ℕ) :=
  match (List.finRange n).filter (fun c => c ∉ used ∧ row.1.get c ≠ 0) with
  | [] => none
  | c :: rest => some (c, rest.length + 1)

/-- The unprocessed row of smallest degree, the first one among equals; a row of degree one ends
the scan. The result is the row's position, its pivot column and its degree. -/
def selectMinDegree (used : List (Fin n)) :
    List (Row Gf256 (Symbol T) n) → ℕ → Option (ℕ × Fin n × ℕ) → Option (ℕ × Fin n × ℕ)
  | [], _, best => best
  | row :: rest, r, best =>
    match unusedDegree used row with
    | none => selectMinDegree used rest (r + 1) best
    | some (c, deg) =>
      if best.all (fun b => deg < b.2.2) then
        if deg = 1 then some (r, c, deg) else selectMinDegree used rest (r + 1) (some (r, c, deg))
      else selectMinDegree used rest (r + 1) best

/-- The unprocessed rows after position `r` was swapped to their front and taken out. -/
def swapOut {α : Type*} (rows : List α) (r : ℕ) : List α :=
  match rows with
  | [] => []
  | head :: rest => if r = 0 then rest else rest.set (r - 1) head

/-- The elimination loop. The processed rows with their pivot columns are the tableau's solved
rows, in the order of the steps; the rows after them are pending. -/
def solveLoop : ℕ → Tableau Gf256 (Symbol T) n → Tableau Gf256 (Symbol T) n
  | 0, t => t
  | steps + 1, t =>
    match selectMinDegree t.columns t.pending 0 none with
    | none => solveLoop steps t
    | some (r, c, _) =>
      match t.pending[r]? with
      | none => solveLoop steps t
      | some row => solveLoop steps (pivotStep t c row (swapOut t.pending r))

/-- The right-hand side of the row that solves column `c`. -/
def solvedSymbol (c : Fin n) : Symbol T :=
  ((t.solved.find? (fun p => p.1 = c)).map fun p => p.2.2).getD 0

/-- Solve the system by Gaussian elimination; `none` if some column has no pivot. -/
def ConstraintMatrix.solve {rows : ℕ} (m : ConstraintMatrix rows n)
    (rhs : List.Vector (Symbol T) rows) : Option (List.Vector (Symbol T) n) :=
  let t := solveLoop (min rows n) ⟨[], m.augmented rhs⟩
  if ∀ c, c ∈ t.columns then some (List.Vector.ofFn (solvedSymbol t)) else none

end Pivots

/-- Add up the symbols an equation names, each with its coefficient. -/
def combine (symbol : ℕ → Symbol T) (terms : List (ℕ × Gf256)) : Symbol T :=
  terms.foldl (fun acc term =>
    if term.2 = 0 then acc else gf256AddmulSlice acc (symbol term.1) term.2) 0

/-- A symbol of a vector by its index. -/
def symbolAt {n : ℕ} (symbols : List.Vector (Symbol T) n) (i : ℕ) : Symbol T :=
  symbols.toList.getD i 0

structure SystematicEncoder (T : ℕ) where
  params : SystematicParams
  intermediate : List.Vector (Symbol T) params.l

namespace SystematicEncoder

/-- The known symbols of the constraint rows: zeros for the LDPC and HDPC rows, the source symbols,
and zeros for the padding. -/
def knownSymbols (params : SystematicParams) (source : List (Symbol T)) :
    List.Vector (Symbol T) (params.s + params.h + params.kPrime) :=
  List.Vector.ofFn fun r =>
    if (r : ℕ) < params.s + params.h then 0 else source.getD (r - (params.s + params.h)) 0

/-- Create an encoder from the source symbols; the source panics on an unsupported block size, which
its caller has excluded. -/
def new (source : List (Symbol T)) : Option (SystematicEncoder T) :=
  match SystematicParams.tryForSourceBlock source.length with
  | .error _ => none
  | .ok params =>
    ((ConstraintMatrix.build params).solve (knownSymbols params source)).map fun intermediate =>
      ⟨params, intermediate⟩

/-- The repair symbol of an encoding symbol index. -/
def repairSymbol (enc : SystematicEncoder T) (esi : UInt32) : Symbol T :=
  let (columns, coefficients) := enc.params.rfcRepairEquation esi
  combine (symbolAt enc.intermediate) (columns.zip coefficients)

end SystematicEncoder

end Flywheel.Raptorq
