import Flywheel.Raptorq.Reconstruct

/-!
# The three smallest blocks

With fewer than thirty LT symbols a repair equation can name a column twice. The encoder and the
inactivation decoder then cancel the column; the dense fallback sets its entry once. For each of the
three block sizes concerned, two repair symbols and all but two source symbols leave the codeword
undetermined, while the dense system they make is regular. Blocks of one source symbol are not
affected, since every repair symbol determines it.
-/

namespace Flywheel.Raptorq

open Flywheel.Data ConstraintMatrix RaptorQDecoder List

variable {params : SystematicParams}

section Rows

/-- The entry of a constraint row, from a row of the systematic index table. -/
def rowCoef (row : IndexRow) (r c : ℕ) : Gf256 :=
  if c = row.kPrime + r then 1
  else if r < row.s then
    if c < row.kPrime then ldpcCoef row.s r c else 0
  else if c < row.kPrime + row.s then hdpcCoef row.h (row.kPrime + row.s) (r - row.s) c
  else 0

/-- The terms of a repair equation, from a row of the systematic index table. -/
def rowTerms (row : IndexRow) (esi : UInt32) : List (ℕ × Gf256) :=
  let columns := repairIndicesForEsi row.j row.w (row.kPrime + row.s + row.h - row.w) esi
  columns.zip (replicate columns.length 1)

/-- The row of the systematic index table of the parameters. -/
def SystematicParams.row (params : SystematicParams) : IndexRow :=
  ⟨params.kPrime, params.j, params.s, params.h, params.w⟩

/-- The number of intermediate symbols, from a row of the systematic index table. -/
def IndexRow.l (row : IndexRow) : ℕ := row.kPrime + row.s + row.h

theorem constraintsHold_iff_row {y : ℕ → Gf256} :
    ConstraintsHold params y ↔ ∀ r < params.row.s + params.row.h,
      ∑ c ∈ Finset.range params.row.l, rowCoef params.row r c • y c = 0 :=
  Iff.rfl

theorem symbolValue_eq_row {W : Type*} [AddCommGroup W] [Module Gf256 W] (y : ℕ → W) {esi : UInt32}
    (h : params.k ≤ esi.toNat) : symbolValue params y esi = dot y (rowTerms params.row esi) := by
  rw [symbolValue, if_neg (by omega)]
  rfl

theorem symbolValue_smul (a : Gf256) (y : ℕ → Gf256) (esi : UInt32) :
    symbolValue params (fun c => a • y c) esi = a • symbolValue params y esi := by
  have hmap : (a • LinearMap.id) (symbolValue params y esi) =
      symbolValue params (fun c => (a • LinearMap.id (R := Gf256)) (y c)) esi :=
    map_symbolValue (a • LinearMap.id) y esi
  exact hmap.symm

theorem Codeword.smul {y : ℕ → Gf256} (hy : Codeword params y) (a : Gf256) :
    Codeword params fun c => a • y c := by
  have hmap := hy.map (a • LinearMap.id)
  exact hmap

end Rows

section Collisions

/-- A vector of intermediate symbols, from its bytes. -/
def response (bytes : List UInt8) (c : ℕ) : Gf256 := ⟨bytes.getD c 0⟩

/-- What makes the dense fallback go wrong for a block size. -/
structure Collision where
  /-- The intermediate symbols for a one in the first source symbol. -/
  unit0 : List UInt8
  /-- The intermediate symbols for a one in the second source symbol. -/
  unit1 : List UInt8
  delta0 : Gf256
  delta1 : Gf256
  first : UInt32
  second : UInt32

/-- The collision for a block of at most 18 symbols. -/
def collisionOf (k : ℕ) : Collision :=
  if k ≤ 10 then
    { unit0 := [1,0,0,0,0,0,0,0,0,0,1,1,1,0,0,0,0,1,2,4,9,18,36,72,144,61, 122]
      unit1 := [0,1,0,0,0,0,0,0,0,0,0,1,1,1,0,0,0,1,3,6,13,27,55,110,221, 167,83]
      delta0 := ⟨45⟩, delta1 := ⟨55⟩, first := 12, second := 61 }
  else if k ≤ 12 then
    { unit0 := [1,0,0,0,0,0,0,0,0,0,0,0,1,1,1,0,0,0,0,0,1,3,6,12,25,50,101, 202,137]
      unit1 := [0,1,0,0,0,0,0,0,0,0,0,0,0,1,1,1,0,0,0,1,3,6,12,24,48,96, 192,157,39]
      delta0 := ⟨187⟩, delta1 := ⟨67⟩, first := 72, second := 113 }
  else
    { unit0 := [1,0,0,0,0,0,0,0,0,0,0,0,0,0,0,0,0,0,1,1,1,0,0,0,0,0,0,0,0,
        0,0,1,2,5,10,21,43,86,172]
      unit1 := [0,1,0,0,0,0,0,0,0,0,0,0,0,0,0,0,0,0,0,1,1,1,0,0,0,0,0,0,0,
        1,2,4,9,18,36,73,147,59,118]
      delta0 := ⟨129⟩, delta1 := ⟨46⟩, first := 20, second := 76 }

/-- What a collision must satisfy for a row of the systematic index table. -/
structure Collision.Valid (x : Collision) (row : IndexRow) : Prop where
  relations0 : ∀ r < row.s + row.h,
    ∑ c ∈ Finset.range row.l, rowCoef row r c • response x.unit0 c = 0
  relations1 : ∀ r < row.s + row.h,
    ∑ c ∈ Finset.range row.l, rowCoef row r c • response x.unit1 c = 0
  /-- The first response is that of a one in the first source symbol. -/
  source0 : ∀ c < row.kPrime, response x.unit0 c = if c = 0 then 1 else 0
  /-- The second response is that of a one in the second source symbol. -/
  source1 : ∀ c < row.kPrime, response x.unit1 c = if c = 1 then 1 else 0
  delta0_ne : x.delta0 ≠ 0
  distinct : x.first ≠ x.second
  first_ge : row.kPrime ≤ x.first.toNat
  second_ge : row.kPrime ≤ x.second.toNat
  first_eq : x.delta0 • dot (response x.unit0) (rowTerms row x.first) +
    x.delta1 • dot (response x.unit1) (rowTerms row x.first) = 0
  second_eq : x.delta0 • dot (response x.unit0) (rowTerms row x.second) +
    x.delta1 • dot (response x.unit1) (rowTerms row x.second) = 0
  minor : setValue row.l (response x.unit0) (rowTerms row x.first) *
      setValue row.l (response x.unit1) (rowTerms row x.second) -
    setValue row.l (response x.unit1) (rowTerms row x.first) *
      setValue row.l (response x.unit0) (rowTerms row x.second) ≠ 0

theorem collisionOf_valid (k : ℕ) : (collisionOf k).Valid (smallRow k) := by
  unfold collisionOf smallRow
  split_ifs <;> constructor <;> decide +kernel

/-- The symbols of a block that the collision is about: all source symbols but the first two, and
the two repair symbols. -/
def collisionEsis (k : ℕ) : List UInt32 :=
  (range (k - 2)).map (fun i => UInt32.ofNat (i + 2)) ++
    [(collisionOf k).first, (collisionOf k).second]

theorem length_collisionEsis {k : ℕ} (hk : 2 ≤ k) : (collisionEsis k).length = k := by
  simp only [collisionEsis, length_append, length_map, length_range, length_cons, length_nil]
  omega

variable (hrow : params.row = smallRow params.k)

include hrow

theorem collisionOf_valid_row : (collisionOf params.k).Valid params.row := by
  rw [hrow]
  exact collisionOf_valid params.k

theorem codeword_unit0 : Codeword params (response (collisionOf params.k).unit0) where
  constraints := constraintsHold_iff_row.mpr (collisionOf_valid_row hrow).relations0
  padding c hk hc := by
    have hpos := params.k_pos
    rw [(collisionOf_valid_row hrow).source0 c hc, if_neg (by omega)]

theorem codeword_unit1 (hk : 2 ≤ params.k) :
    Codeword params (response (collisionOf params.k).unit1) where
  constraints := constraintsHold_iff_row.mpr (collisionOf_valid_row hrow).relations1
  padding c hkc hc := by rw [(collisionOf_valid_row hrow).source1 c hc, if_neg (by omega)]

/-- A codeword with zeros after the first two source symbols is a combination of the responses. -/
theorem eq_combination (hk : 2 ≤ params.k) {z : ℕ → Gf256} (hz : Codeword params z)
    (hzero : ∀ c, 2 ≤ c → c < params.k → z c = 0) {c : ℕ} (hc : c < params.l) :
    z c = z 0 • response (collisionOf params.k).unit0 c +
      z 1 • response (collisionOf params.k).unit1 c := by
  have hvalid := collisionOf_valid_row hrow
  have hle := params.k_le
  refine hz.ext (((codeword_unit0 hrow).smul (z 0)).add ((codeword_unit1 hrow hk).smul (z 1)))
    (fun c hc => ?_) hc
  rw [hvalid.source0 c (lt_of_lt_of_le hc hle), hvalid.source1 c (lt_of_lt_of_le hc hle)]
  rcases Nat.lt_or_ge c 2 with hlt | hge
  · interval_cases c <;> simp
  · rw [hzero c hge hc, if_neg (by omega), if_neg (by omega), smul_zero, smul_zero, add_zero]

omit hrow in
/-- The codeword of the collision: the two source symbols, and zeros after them. -/
def collisionCode (k c : ℕ) : Gf256 :=
  (collisionOf k).delta0 • response (collisionOf k).unit0 c +
    (collisionOf k).delta1 • response (collisionOf k).unit1 c

theorem codeword_collisionCode (hk : 2 ≤ params.k) : Codeword params (collisionCode params.k) :=
  ((codeword_unit0 hrow).smul _).add ((codeword_unit1 hrow hk).smul _)

omit hrow in
theorem symbolValue_collisionCode {e : UInt32} (he : params.k ≤ e.toNat) :
    symbolValue params (collisionCode params.k) e =
      (collisionOf params.k).delta0 •
          dot (response (collisionOf params.k).unit0) (rowTerms params.row e) +
        (collisionOf params.k).delta1 •
          dot (response (collisionOf params.k).unit1) (rowTerms params.row e) := by
  rw [← symbolValue_eq_row _ he, ← symbolValue_eq_row _ he, ← symbolValue_smul, ← symbolValue_smul]
  exact symbolValue_add ..

/-- The codeword of the collision vanishes at its indices. -/
theorem symbolValue_collisionEsis {e : UInt32} (he : e ∈ collisionEsis params.k) :
    symbolValue params (collisionCode params.k) e = 0 := by
  have hvalid := collisionOf_valid_row hrow
  have hle := params.k_le
  rcases mem_append.mp he with he | he
  · obtain ⟨i, hi, rfl⟩ := mem_map.mp he
    have hlt := mem_range.mp hi
    have hin : i + 2 < params.kPrime := by omega
    rw [symbolValue, params.toNat_ofNat hin, if_pos (by omega), collisionCode, hvalid.source0 _ hin,
      hvalid.source1 _ hin, if_neg (by omega), if_neg (by omega), smul_zero, smul_zero, add_zero]
  · rcases mem_cons.mp he with rfl | he
    · rw [symbolValue_collisionCode (hle.trans hvalid.first_ge)]
      exact hvalid.first_eq
    · rw [mem_singleton.mp he, symbolValue_collisionCode (hle.trans hvalid.second_ge)]
      exact hvalid.second_eq

theorem not_determines_collisionEsis (hk : 2 ≤ params.k) :
    ¬ Determines params (collisionEsis params.k) := by
  intro hdetermines
  have hvalid := collisionOf_valid_row hrow
  have hpos : 0 < params.kPrime := lt_of_lt_of_le params.k_pos params.k_le
  have hfirst := hdetermines _ (codeword_collisionCode hrow hk)
    (fun e he => symbolValue_collisionEsis hrow he) 0 params.k_pos
  rw [collisionCode, hvalid.source0 0 hpos, hvalid.source1 0 hpos] at hfirst
  exact hvalid.delta0_ne (by simpa using hfirst)

omit hrow in
/-- The row of a dense system is linear in the assignment. -/
theorem setValue_combination {l : ℕ} {z u v : ℕ → Gf256} {a b : Gf256}
    (h : ∀ c < l, z c = a • u c + b • v c) (terms : List (ℕ × Gf256)) :
    setValue l z terms =
      a * setValue l u terms + b * setValue l v terms := by
  rw [setValue, setValue, setValue, Finset.mul_sum, Finset.mul_sum, ← Finset.sum_add_distrib]
  refine Finset.sum_congr rfl fun c hc => ?_
  rw [h c (Finset.mem_range.mp hc)]
  ring

/-- The dense system of the collision has no kernel. -/
theorem eq_zero_of_dense (hk : 2 ≤ params.k) {z : ℕ → Gf256} (hz : Codeword params z)
    (hzero : ∀ c, 2 ≤ c → c < params.k → z c = 0)
    (hfirst : setValue params.l z
      (repairTerms params (collisionOf params.k).first) = 0)
    (hsecond : setValue params.l z
      (repairTerms params (collisionOf params.k).second) = 0) {c : ℕ}
    (hc : c < params.l) : z c = 0 := by
  have hvalid := collisionOf_valid_row hrow
  have hcombination := fun c (hc : c < params.l) => eq_combination hrow hk hz hzero hc
  rw [setValue_combination hcombination] at hfirst hsecond
  set x := collisionOf params.k
  set a := setValue params.l (response x.unit0)
    (repairTerms params x.first)
  set b := setValue params.l (response x.unit1)
    (repairTerms params x.first)
  set a' := setValue params.l (response x.unit0)
    (repairTerms params x.second)
  set b' := setValue params.l (response x.unit1)
    (repairTerms params x.second)
  have hminor : a * b' - b * a' ≠ 0 := hvalid.minor
  -- Cramer's rule for the two rows.
  have hzero0 : z 0 * (a * b' - b * a') = 0 := by linear_combination b' * hfirst - b * hsecond
  have hzero1 : z 1 * (a * b' - b * a') = 0 := by linear_combination a * hsecond - a' * hfirst
  rw [hcombination c hc, (mul_eq_zero.mp hzero0).resolve_right hminor,
    (mul_eq_zero.mp hzero1).resolve_right hminor, zero_smul, zero_smul, add_zero]

end Collisions

section SingleSymbol

theorem dot_zip_replicate (y : ℕ → Gf256) (columns : List ℕ) :
    dot y (columns.zip (replicate columns.length (1 : Gf256))) = (columns.map y).sum := by
  induction columns with
  | nil => rfl
  | cons c columns ih =>
    rw [length_cons, replicate_succ, zip_cons_cons, dot_cons, ih, map_cons, sum_cons, one_smul]

theorem sum_mem_of_bits {ys : List Gf256} (h : ∀ y ∈ ys, y = 0 ∨ y = 1) :
    ys.sum = 0 ∨ ys.sum = 1 := by
  induction ys with
  | nil => exact .inl rfl
  | cons y ys ih =>
    rw [sum_cons]
    rcases h y (mem_cons_self ..) with rfl | rfl <;>
      rcases ih (fun y' hy' => h y' (mem_cons_of_mem _ hy')) with hsum | hsum <;>
      rw [hsum] <;> decide

/-- The response of a one in the single source symbol, for the smallest block size. -/
def singleResponse : ℕ → Gf256 := response (collisionOf 1).unit0

/-- Two or three different PI symbols of the response never add up to zero or one. -/
theorem sum_pi_ne {cs : List ℕ} (hlt : ∀ c ∈ cs, c < 10) (hnodup : cs.Nodup)
    (hlength : cs.length = 2 ∨ cs.length = 3) :
    (cs.map fun c => singleResponse (17 + c)).sum ≠ 0 ∧
      (cs.map fun c => singleResponse (17 + c)).sum ≠ 1 := by
  have htwo : ∀ a < 10, ∀ b < 10, [a, b].Nodup →
      ([a, b].map fun c => singleResponse (17 + c)).sum ≠ 0 ∧
        ([a, b].map fun c => singleResponse (17 + c)).sum ≠ 1 := by decide +kernel
  have hthree : ∀ a < 10, ∀ b < 10, ∀ c < 10, [a, b, c].Nodup →
      ([a, b, c].map fun c => singleResponse (17 + c)).sum ≠ 0 ∧
        ([a, b, c].map fun c => singleResponse (17 + c)).sum ≠ 1 := by decide +kernel
  match cs, hlength with
  | [a, b], _ => exact htwo a (hlt a (by simp)) b (hlt b (by simp)) hnodup
  | [a, b, c], _ =>
    exact hthree a (hlt a (by simp)) b (hlt b (by simp)) c (hlt c (by simp)) hnodup

/-- Every repair symbol depends on the single source symbol. -/
theorem dot_singleResponse_ne_zero (esi : UInt32) :
    dot singleResponse (rowTerms (smallRow 1) esi) ≠ 0 := by
  have hvalid : (tuple 254 17 11 esi).Valid 17 11 := tuple_valid esi (by decide) (by decide)
  change dot singleResponse ((repairIndicesForEsi 254 17 10 esi).zip
    (replicate (repairIndicesForEsi 254 17 10 esi).length 1)) ≠ 0
  rw [dot_zip_replicate, repairIndicesForEsi, tupleIndices, map_append, sum_append, map_map]
  set t := tuple 254 17 11 esi
  obtain ⟨hlt, hnodup⟩ : (∀ c ∈ piIndices t 10 11, c < 10) ∧ (piIndices t 10 11).Nodup :=
    piIndices_spec (by decide) (by omega) (by omega) hvalid.a1_pos hvalid.a1_lt hvalid.d1_eq
  have hlength : (piIndices t 10 11).length = 2 ∨ (piIndices t 10 11).length = 3 := by
    rw [piIndices, length_iterate]
    have := hvalid.d1_eq
    omega
  have hbits : ((ltIndices t 17).map singleResponse).sum = 0 ∨
      ((ltIndices t 17).map singleResponse).sum = 1 := by
    refine sum_mem_of_bits fun y hy => ?_
    obtain ⟨c, hc, rfl⟩ := mem_map.mp hy
    have hall : ∀ c < 17, singleResponse c = 0 ∨ singleResponse c = 1 := by decide +kernel
    exact hall c (ltIndices_lt (by omega) hc)
  have hpi := sum_pi_ne hlt hnodup hlength
  intro hsum
  have hneg : ∀ a b : Gf256, a + b = 0 → b = a := fun a b hab => by
    rw [eq_neg_of_add_eq_zero_left hab, Gf256.neg_eq]
  have hequal := hneg _ _ hsum
  rcases hbits with hzero | hone
  · exact hpi.1 (hequal.trans hzero)
  · exact hpi.2 (hequal.trans hone)

/-- In a block of one source symbol every symbol an encoder emits determines the codeword. -/
theorem determines_of_single (hrow : params.row = smallRow params.k) (hk : params.k = 1)
    {esis : List UInt32} {e : UInt32} (he : e ∈ esis) :
    Determines params esis := by
  intro z hz hzero c hc
  obtain rfl : c = 0 := by omega
  have hvalue := hzero e he
  by_cases hsource : e.toNat < params.k
  · rwa [symbolValue, if_pos hsource, show e.toNat = 0 by omega] at hvalue
  · have hcode := codeword_unit0 hrow
    rw [hk] at hrow hcode
    have hscaled : ∀ c < params.l, z c = z 0 • singleResponse c := fun c hc =>
      hz.ext (hcode.smul (z 0)) (fun c hc => by
        obtain rfl : c = 0 := by omega
        change z 0 = z 0 • singleResponse 0
        rw [show singleResponse 0 = 1 by decide +kernel, smul_eq_mul, mul_one]) hc
    have hmap := (symbolValue_congr hscaled e).trans (symbolValue_smul ..)
    rw [hmap, symbolValue_eq_row _ (by omega), hrow] at hvalue
    exact (mul_eq_zero.mp hvalue).resolve_right (dot_singleResponse_ne_zero e)

end SingleSymbol

open SystematicParams

/-- The equation the inactivation decoder stores for a repair symbol. -/
def repairEquation (params : SystematicParams) (esi : UInt32) : Equation :=
  Equation.new (params.rfcRepairEquation esi).1 (params.rfcRepairEquation esi).2

/-- The encoder, the inactivation decoder and the dense fallback read the equation of a repair symbol
as the same linear form of the intermediate symbols. -/
structure FormsAgree (params : SystematicParams) (esi : UInt32) : Prop where
  encoder : ∀ {T : ℕ} (intermediate : List.Vector (Symbol T) params.l),
    (SystematicEncoder.mk params intermediate).repairSymbol esi =
      dot (symbolAt intermediate) (repairEquation params esi).terms
  dense : ∀ c, (setRow params.l (repairTerms params esi)).get c = (repairEquation params esi).coef c

/-- The coefficient the decoder stores: ones added up, so that pairs cancel. -/
theorem coef_repairEquation (params : SystematicParams) (esi : UInt32) (c : ℕ) :
    (repairEquation params esi).coef c = (params.rfcRepairEquation esi).1.count c := by
  have hsum : ∀ columns : List ℕ,
      (columns.map fun i => if i = c then (1 : Gf256) else 0).sum = columns.count c := by
    intro columns
    induction columns with
    | nil => simp
    | cons i columns ih => by_cases hi : i = c <;> simp [hi, ih, add_comm]
  rw [Equation.coef, ← dot_unit (repairEquation params esi).normal.nodup, ← hsum]
  exact (dot_normalTerms _ _).trans (dot_zip_replicate _ _)

/-- The entry of the dense row: one, however often the column is named. -/
theorem get_setRow_repairTerms (esi : UInt32) (c : Fin params.l) :
    (setRow params.l (repairTerms params esi)).get c =
      if (c : ℕ) ∈ (params.rfcRepairEquation esi).1 then 1 else 0 := by
  have hones : ∀ terms : List (ℕ × Gf256), (∀ t ∈ terms, t.2 = 1) → coefOf terms c =
      if (c : ℕ) ∈ terms.map Prod.fst then 1 else 0 := by
    intro terms h
    induction terms with
    | nil => rfl
    | cons t terms ih =>
      by_cases hd : (c) = t.1
      · rw [hd, coefOf_cons_self, h t mem_cons_self, if_pos (mem_map_of_mem mem_cons_self)]
      · rw [coefOf_cons_of_ne hd, ih fun u hu => h u (mem_cons_of_mem _ hu)]
        simp only [map_cons, mem_cons, hd, false_or]
  rw [get_setRow, hones (repairTerms params esi).reverse
    fun t ht => eq_of_mem_replicate (of_mem_zip (mem_reverse.mp ht)).2]
  simp only [map_reverse, mem_reverse, map_fst_repairTerms]

/-- A repair symbol whose degree exceeds the number of LT symbols names the column it starts from
exactly twice. -/
theorem count_start {esi : UInt32} (h : params.w < (params.repairTuple esi).d) :
    (params.rfcRepairEquation esi).1.count ((params.repairTuple esi).b % params.w) = 2 := by
  have hvalid := params.repairTuple_valid esi
  have hd := hvalid.d_le
  have hw := params.w_ge_half
  change (tupleIndices (params.repairTuple esi) _ _ _).count _ = 2
  set t := params.repairTuple esi
  have hpi : ((piIndices t params.p (nextPrimeGe params.p)).map (params.w + ·)).count
      (t.b % params.w) = 0 := by
    refine count_eq_zero.mpr fun hmem => ?_
    obtain ⟨c, -, hc⟩ := mem_map.mp hmem
    have := Nat.mod_lt t.b params.w_prime.pos
    omega
  have honce : ∀ d, 1 ≤ d → d ≤ params.w →
      (ltIndices { t with d := d } params.w).count (t.b % params.w) = 1 := fun d hd1 hdw =>
    count_eq_one_of_mem (ltIndices_nodup params.w_prime hvalid.a_pos hvalid.a_lt hd1 hdw)
      (start_mem_ltIndices { t with d := d } params.w)
  rw [tupleIndices, count_append, hpi, ltIndices_of_lt params.w_prime.pos h, count_append,
    honce _ params.w_prime.pos le_rfl, honce _ (by omega) (by omega)]

/-- The column named twice cancels for the decoder and is set once in the dense row. -/
theorem not_formsAgree_of_lt {esi : UInt32} (h : params.w < (params.repairTuple esi).d) :
    ¬ FormsAgree params esi := by
  intro hagree
  have hcount := count_start h
  have hmem := count_pos_iff.mp (by omega : 0 < (params.rfcRepairEquation esi).1.count
    ((params.repairTuple esi).b % params.w))
  have hdense := hagree.dense ⟨_, params.repair_columns_lt hmem⟩
  rw [get_setRow_repairTerms, coef_repairEquation, if_pos hmem, hcount] at hdense
  exact absurd hdense (by decide)

/-- The three readings of a repair equation agree exactly if the degree of the symbol does not exceed
the number of LT symbols. -/
theorem formsAgree_iff (params : SystematicParams) (esi : UInt32) :
    FormsAgree params esi ↔ (params.repairTuple esi).d ≤ params.w := by
  refine ⟨fun h => Nat.le_of_not_lt fun hlt => not_formsAgree_of_lt hlt h, fun h => ⟨?_, ?_⟩⟩
  · intro T intermediate
    exact (combine_eq_dot _ _).trans (dot_normalTerms _ _).symm
  · intro c
    rw [get_setRow_repairTerms, coef_repairEquation, Nodup.count
      ((params.repair_columns_nodup_iff esi).mpr h)]
    split_ifs <;> simp

/-- In a block of ten source symbols, the repair symbol 30 is read in two ways. -/
theorem repair_thirty_read_twice : ∃ params, tryForSourceBlock 10 = .ok params ∧
    params.kPrime ≤ UInt32.toNat 30 ∧ ¬ FormsAgree params 30 := by
  obtain ⟨params, hparams⟩ := exists_tryForSourceBlock (k := 10) (by omega) (by omega)
  obtain ⟨hk, hj, hs, hh, hw⟩ : params.kPrime = 10 ∧ params.j = 254 ∧ params.s = 7 ∧
    params.h = 10 ∧ params.w = 17 := by simpa [smallRow] using row_of_le hparams (by omega)
  refine ⟨params, hparams, by rw [hk]; decide, not_formsAgree_of_lt ?_⟩
  rw [repairTuple, p, l, hk, hj, hs, hh, hw]
  decide

end Flywheel.Raptorq
