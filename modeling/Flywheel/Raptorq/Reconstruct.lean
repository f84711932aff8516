import Flywheel.Raptorq.Decode
import Flywheel.Raptorq.EncodeSpec
import Flywheel.Raptorq.InactivationSpec

/-!
# Reconstruction from honest symbols

What one attempt makes of symbols that all come from one codeword. The equations of an attempt say
that the unknown is a codeword with the received symbols. If those determine the codeword, the
inactivation decoder finds it; otherwise it reports a recoverable failure and the dense fallback
runs, if its byte count is within the budget.
-/

namespace Flywheel.Raptorq

open Flywheel.Data Flywheel.Protocol ReceivedSymbol SystematicParams ConstraintMatrix List

section Budgets

def denseFallbackBytes (totalRows l symbolSize transferLen : ℕ) : ℕ :=
  2 * (totalRows * l) + l * l + 2 * (totalRows * symbolSize) + l * symbolSize + totalRows * 8 +
    (l + totalRows) + transferLen + symbolSize

theorem bind_checked {p : Prop} [Decidable p] {n : ℕ} {f : ℕ → Option ℕ} :
    (if p then some n else none).bind f = if p then f n else none := by
  split_ifs <;> rfl

/-- The checked byte count is the byte count, if that fits a word. -/
theorem denseFallbackRequired_eq (rows l size len : ℕ) :
    denseFallbackRequired rows l size len =
      if denseFallbackBytes rows l size len ≤ usizeMax then
        some (denseFallbackBytes rows l size len) else none := by
  simp only [denseFallbackRequired, checkedMul, checkedAdd, Option.bind_eq_bind, bind_checked,
    mul_one]
  rw [denseFallbackBytes]
  by_cases hfit : 2 * (rows * l) + l * l + 2 * (rows * size) + l * size + rows * 8 +
      (l + rows) + len + size ≤ usizeMax
  · repeat rw [if_pos (by omega)]
    exact congrArg some (by omega)
  · -- Without an overflow on the way the last sum would fit.
    rw [if_neg hfit]
    simp only [ite_eq_right_iff]
    omega

theorem denseFallbackBytes_mono {rows rows' : ℕ} (h : rows ≤ rows') (l size len : ℕ) :
    denseFallbackBytes rows l size len ≤ denseFallbackBytes rows' l size len := by
  have hl := Nat.mul_le_mul_right l h
  have hsize := Nat.mul_le_mul_right size h
  unfold denseFallbackBytes
  omega

theorem maxSymbolsWithHeadroom_le (len size : ℕ) (bps : UInt16) :
    maxSymbolsWithHeadroom len size bps ≤ u32Max :=
  Nat.min_le_right ..

/-- The symbol limit leaves room for all source symbols and a thousand more, up to the word size. -/
theorem le_maxSymbolsWithHeadroom {len size n : ℕ} {bps : UInt16}
    (h : n ≤ divCeil len (max size 1) + 1000) (hn : n ≤ u32Max) :
    n ≤ maxSymbolsWithHeadroom len size bps := by
  simp only [maxSymbolsWithHeadroom, saturatingAdd]
  omega

theorem maxSymbolsWithHeadroom_mono {len len' : ℕ} (h : len ≤ len') (size : ℕ) (bps : UInt16) :
    maxSymbolsWithHeadroom len size bps ≤ maxSymbolsWithHeadroom len' size bps := by
  have hdiv : divCeil len (max size 1) ≤ divCeil len' (max size 1) := divCeil_mono h
  have hsource : min (divCeil len (max size 1)) u32Max ≤ min (divCeil len' (max size 1)) u32Max :=
    min_le_min_right _ hdiv
  have hrepair := Nat.div_le_div_right (c := 10000) (Nat.mul_le_mul_right bps.toNat hsource)
  exact min_le_min_right _ (Nat.add_le_add_right
    (min_le_min_right _ (Nat.add_le_add hsource (min_le_min_right _ hrepair))) _)

/-- The bytes of the buffered symbols never overflow. -/
theorem bufferBytes_lt (len : ℕ) (size bps : UInt16) :
    maxSymbolsWithHeadroom len size.toNat bps * max size.toNat 1 < usizeMax := by
  have hsize : max size.toNat 1 ≤ 65535 := by
    have := size.toNat_lt
    omega
  exact lt_of_le_of_lt (Nat.mul_le_mul (maxSymbolsWithHeadroom_le ..) hsize) (by decide)

theorem maxBufferBytesForBudget_eq (len : ℕ) (size bps : UInt16) (overflow : ℕ) :
    maxBufferBytesForBudget len size.toNat bps overflow =
      .ok (maxSymbolsWithHeadroom len size.toNat bps,
        maxSymbolsWithHeadroom len size.toNat bps * max size.toNat 1) := by
  simp only [maxBufferBytesForBudget, checkedMul]
  rw [if_pos (bufferBytes_lt ..).le]

namespace ObjectTransmissionInformation

variable {oti : ObjectTransmissionInformation} {config : RaptorQConfig}

/-- The number of symbols a decoder of the object buffers at most. -/
def symbolLimit (oti : ObjectTransmissionInformation) (config : RaptorQConfig) : ℕ :=
  maxSymbolsWithHeadroom oti.transferLength.toNat oti.symbolSize.toNat config.repairRatioBps

theorem k_le_symbolLimit (oti : ObjectTransmissionInformation) (config : RaptorQConfig) :
    oti.k ≤ oti.symbolLimit config :=
  le_maxSymbolsWithHeadroom ((Nat.min_le_left ..).trans (Nat.le_add_right ..)) (Nat.min_le_right ..)

/-- The bytes a decoder of the object may use. -/
def byteLimit (oti : ObjectTransmissionInformation) (config : RaptorQConfig) : ℕ :=
  oti.symbolLimit config * max oti.symbolSize.toNat 1

theorem byteLimit_lt (oti : ObjectTransmissionInformation) (config : RaptorQConfig) :
    oti.byteLimit config < usizeMax :=
  bufferBytes_lt ..

/-- There is room for a symbol exactly below the symbol limit. -/
theorem validateDirectBufferCapacity_eq (buffered : ℕ) :
    oti.validateDirectBufferCapacity config buffered =
      if oti.symbolLimit config ≤ buffered then
        .error (.symbolBufferExceeded (min buffered u32Max) (oti.symbolLimit config))
      else .ok () := by
  have hmax : oti.symbolLimit config ≤ u32Max := maxSymbolsWithHeadroom_le ..
  simp only [validateDirectBufferCapacity, maxBufferBytesForBudget_eq]
  change (if oti.symbolLimit config ≤ min buffered u32Max then _ else _) = _
  by_cases hfull : oti.symbolLimit config ≤ buffered
  · rw [if_pos (by omega), if_pos hfull]
    rfl
  · have hword : u32Max + 1 ≤ usizeMax := by decide
    have hprod : (buffered + 1) * oti.symbolSize.toNat ≤ oti.byteLimit config :=
      Nat.mul_le_mul (by omega) (Nat.le_max_left ..)
    have hlimit := byteLimit_lt oti config
    rw [if_neg (by omega), if_neg hfull, checkedAdd, if_pos (by omega)]
    simp only [checkedMul]
    rw [if_pos (by omega)]
    exact if_neg (by change ¬ oti.byteLimit config < _; omega)

theorem validateDenseFallbackBudget_ok {rows l : ℕ}
    (h : denseFallbackBytes rows l oti.symbolSize.toNat oti.transferLength.toNat ≤
      oti.byteLimit config) :
    oti.validateDenseFallbackBudget config rows l = .ok () := by
  have hlimit := byteLimit_lt oti config
  simp only [validateDenseFallbackBudget, maxBufferBytesForBudget_eq, denseFallbackRequired_eq]
  rw [if_pos (by omega)]
  exact if_neg (by change ¬ oti.byteLimit config < _; omega)

/-- Beyond the limit the dense fallback is refused. -/
theorem validateDenseFallbackBudget_error {rows l : ℕ} (h : oti.byteLimit config <
      denseFallbackBytes rows l oti.symbolSize.toNat oti.transferLength.toNat) :
    oti.validateDenseFallbackBudget config rows l =
      .error (.memoryLimitExceeded
        (min (denseFallbackBytes rows l oti.symbolSize.toNat oti.transferLength.toNat) usizeMax)
        (oti.byteLimit config)) := by
  simp only [validateDenseFallbackBudget, maxBufferBytesForBudget_eq, denseFallbackRequired_eq]
  split_ifs with hfit
  · rw [Nat.min_eq_left hfit]
    exact if_pos h
  · rw [Nat.min_eq_right (Nat.le_of_not_le hfit)]
    rfl

end ObjectTransmissionInformation

end Budgets

namespace RaptorQDecoder

variable {oti : ObjectTransmissionInformation} {config : RaptorQConfig}
  {dec : RaptorQDecoder oti config} {params : SystematicParams}

section Equations

variable {W : Type*} [AddCommGroup W] [Module Gf256 W]

/-- The constraint symbols say that the relations hold. -/
theorem solvesSymbols_constraintSymbols {T : ℕ} {ρ : Symbol T →ₗ[Gf256] W} {y : ℕ → W} :
    SolvesSymbols (constraintSymbols params) ρ y ↔ ConstraintsHold params y := by
  rw [SolvesSymbols, constraintSymbols, forall_mem_map]
  simp only [mem_range]
  refine forall₂_congr fun r hr => ?_
  have hdata : (repair (T := T) (UInt32.ofNat r) (constraintRowEquation (build params) r) 0).data =
    0 := rfl
  rw [hdata, map_zero, terms, repair, constraintRowEquation, zip_unzip, dot_filter_range]
  rw [Finset.sum_congr rfl fun c hc => by rw [get_build hr (Finset.mem_range.mp hc)]]

variable (hk : oti.k = params.k)
include hk
/-- The padding equations say that the padding is zero. -/
theorem solvesSymbols_padding {T : ℕ} {ρ : Symbol T →ₗ[Gf256] W} {y : ℕ → W} :
    SolvesSymbols ((range (params.kPrime - oti.k)).map fun i =>
        source (UInt32.ofNat (oti.k + i)) 0) ρ y ↔
      ∀ c, params.k ≤ c → c < params.kPrime → y c = 0 := by
  have hrow : ∀ c < params.kPrime,
      dot y (source (T := T) (UInt32.ofNat c) 0).terms = y c := by
    intro c hc
    simp only [terms, source, params.toNat_ofNat hc]
    simp
  constructor
  · intro h c hkc hc
    have hsym := h _ (mem_map.mpr ⟨c - oti.k, mem_range.mpr (by omega), rfl⟩)
    rw [show oti.k + (c - oti.k) = c by omega, hrow c hc] at hsym
    exact hsym.trans (map_zero ρ)
  · intro h sym hsym
    obtain ⟨i, hi, rfl⟩ := mem_map.mp hsym
    have hlt := mem_range.mp hi
    rw [hrow _ (by omega), h _ (by omega) (by omega)]
    exact (map_zero ρ).symm

/-- The equations of an attempt say that the unknown is a codeword with the received symbols. -/
theorem solvesSymbols_equationSymbols {ρ : Symbol oti.symbolSize.toNat →ₗ[Gf256] W} {y : ℕ → W} :
    SolvesSymbols (dec.equationSymbols params) ρ y ↔
      Codeword params y ∧ ∀ p ∈ dec.received, symbolValue params y p.1 = ρ p.2 := by
  have hreceived : SolvesSymbols (dec.received.map fun p =>
      if p.1.toNat < oti.k then source p.1 p.2
      else .repair p.1 (params.rfcRepairEquation p.1) p.2) ρ y ↔
      ∀ p ∈ dec.received, symbolValue params y p.1 = ρ p.2 := by
    rw [SolvesSymbols, forall_mem_map]
    refine forall₂_congr fun p _ => ?_
    rw [symbolValue, ← hk]
    split_ifs
    · simp [terms, source]
    · rfl
  have hsplit : SolvesSymbols (dec.equationSymbols params) ρ y ↔
      (ConstraintsHold params y ∧ ∀ p ∈ dec.received, symbolValue params y p.1 = ρ p.2) ∧
        ∀ c, params.k ≤ c → c < params.kPrime → y c = 0 := by
    rw [← hreceived, ← solvesSymbols_constraintSymbols (ρ := ρ), ← solvesSymbols_padding hk (ρ := ρ)]
    simp only [SolvesSymbols, equationSymbols, forall_mem_append]
  rw [hsplit]
  exact ⟨fun h => ⟨⟨h.1.1, h.2⟩, h.1.2⟩, fun h => ⟨⟨h.1.1, h.2⟩, h.1.2⟩⟩

/-- The equations of an attempt only name intermediate symbols. -/
theorem wellFormed_equationSymbols :
    ∀ sym ∈ dec.equationSymbols params, sym.WellFormed params.l := by
  have hl := params.kPrime_le_l
  have hsource : ∀ (esi) (data : Symbol oti.symbolSize.toNat), esi.toNat < params.kPrime →
      (source esi data).WellFormed params.l := fun esi data h =>
    ⟨rfl, fun c hc => by rw [mem_singleton.mp hc]; omega⟩
  intro sym hsym
  rw [equationSymbols, mem_append, mem_append] at hsym
  rcases hsym with (hsym | hsym) | hsym
  · obtain ⟨r, -, rfl⟩ := mem_map.mp hsym
    refine ⟨by simp [repair, constraintRowEquation], fun c hc => ?_⟩
    simp only [repair, constraintRowEquation, unzip_fst, mem_map, mem_filter] at hc
    obtain ⟨t, ⟨⟨d, hd, rfl⟩, -⟩, rfl⟩ := hc
    exact mem_range.mp hd
  · obtain ⟨p, -, rfl⟩ := mem_map.mp hsym
    have hle := params.k_le
    split_ifs with hlt
    · exact hsource _ _ (by omega)
    · exact ⟨by simp [repair, rfcRepairEquation],
        fun c hc => params.repair_columns_lt hc⟩
  · obtain ⟨i, hi, rfl⟩ := mem_map.mp hsym
    have hlt := mem_range.mp hi
    refine hsource _ _ ?_
    rw [params.toNat_ofNat] <;> omega

theorem l_le_length_equationSymbols (h : oti.k ≤ dec.received.length) :
    params.l ≤ (dec.equationSymbols params).length := by
  simp only [equationSymbols, constraintSymbols, length_append, length_map, length_range, l]
  omega

end Equations

/-- The symbols at some indices determine the codeword: only the zero codeword, byte by byte, has
zero symbols there. -/
def Determines (params : SystematicParams) (esis : List UInt32) : Prop :=
  ∀ z : ℕ → Gf256, Codeword params z → (∀ e ∈ esis, symbolValue params z e = 0) →
    ∀ c < params.k, z c = 0

theorem Determines.mono {esis esis' : List UInt32} (h : Determines params esis)
    (hsubset : esis ⊆ esis') : Determines params esis' :=
  fun z hz hzero => h z hz fun e he => hzero e (hsubset he)

theorem determines_of_source {esis : List UInt32}
    (h : ∀ c < params.k, UInt32.ofNat c ∈ esis) : Determines params esis := by
  intro z _ hzero c hc
  have hvalue := hzero _ (h c hc)
  rwa [symbolValue, params.toNat_ofNat (hc.trans_le params.k_le), if_pos hc] at hvalue

theorem codeword_zero {W : Type*} [AddCommGroup W] [Module Gf256 W] :
    Codeword params fun _ => (0 : W) :=
  ⟨fun r _ => by simp, fun _ _ _ => rfl⟩

section Inactivation

variable {y : ℕ → Symbol oti.symbolSize.toNat}

section

variable (hk : oti.k = params.k) (hcount : oti.k ≤ dec.received.length) (hy : Codeword params y)
  (hbuffer : ∀ p ∈ dec.received, symbolValue params y p.1 = p.2)
include hk hcount hy hbuffer

/-- If the buffered symbols determine the codeword, the inactivation decoder finds it. -/
theorem inactivationDecode_of_determines
    (hdetermines : Determines params (dec.received.map Prod.fst)) :
    ∃ x, inactivationDecode params (dec.equationSymbols params) = .ok x ∧
      ∀ c < params.l, symbolAt x c = y c := by
  have hsolves : SolvesSymbols (dec.equationSymbols params) LinearMap.id y :=
    (solvesSymbols_equationSymbols hk).mpr ⟨hy, hbuffer⟩
  cases hdecode : inactivationDecode params (dec.equationSymbols params) with
  | error err =>
    obtain ⟨-, z, ⟨c, hc, hne⟩, hz⟩ := inactivationDecode_error
      (l_le_length_equationSymbols hk hcount) (wellFormed_equationSymbols hk) hdecode hsolves
    obtain ⟨hcode, hvalues⟩ := (solvesSymbols_equationSymbols hk).mp hz
    have hsource := hdetermines z hcode (forall_mem_map.mpr hvalues)
    exact absurd (hcode.ext codeword_zero hsource hc) hne
  | ok x =>
    refine ⟨x, rfl, fun c hc => ?_⟩
    rw [symbolAt_of_lt x hc]
    exact (inactivationDecode_ok hdecode hsolves ⟨c, hc⟩).symm

end

/-- The payload of intermediate symbols only depends on the source symbols. -/
theorem payloadOf_eq (hk : oti.k = params.k)
    {x : List.Vector (Symbol oti.symbolSize.toNat) params.l}
    (h : ∀ c < params.l, symbolAt x c = y c) :
    payloadOf oti x = ((range params.k).flatMap fun c => Symbol.bytes (y c)).take
      oti.transferLength.toNat := by
  have hl := params.k_le.trans params.kPrime_le_l
  rw [payloadOf, hk]
  congr 1
  exact flatMap_congr fun c hc => by rw [h c (by have := mem_range.mp hc; omega)]

end Inactivation

section DenseRows

variable {W : Type*} [AddCommGroup W] [Module Gf256 W]

/-- An entry of a row after its entries were set: the last one set. -/
theorem get_setRow {l : ℕ} (terms : List (ℕ × Gf256)) (c : Fin l) :
    (setRow l terms).get c = coefOf terms.reverse c := by
  induction terms using reverseRecOn with
  | nil => exact List.Vector.get_replicate _ _
  | append_singleton terms t ih =>
    obtain ⟨d, a⟩ := t
    rw [setRow, foldl_append, foldl_cons, reverse_append,
      reverse_singleton, singleton_append]
    by_cases hcd : (c) = d
    · subst hcd
      rw [dif_pos c.2, coefOf_cons_self]
      exact Vector.get_set_same ..
    · rw [coefOf_cons_of_ne hcd, ← ih]
      split_ifs with hd
      · exact Vector.get_set_of_ne (fun h => hcd (congrArg Fin.val h).symm) _
      · rfl

/-- What a row of the dense matrix makes of an assignment. -/
def setValue (l : ℕ) (y : ℕ → W) (terms : List (ℕ × Gf256)) : W :=
  ∑ c ∈ Finset.range l, coefOf terms.reverse c • y c

theorem setValue_eq_dot {l : ℕ} (y : ℕ → W) {terms : List (ℕ × Gf256)}
    (hnodup : (terms.map Prod.fst).Nodup) (hlt : ∀ t ∈ terms, t.1 < l) :
    setValue l y terms = dot y terms := by
  have hreverse : (terms.reverse.map Prod.fst).Nodup := by
    rw [map_reverse]
    exact nodup_reverse.mpr hnodup
  rw [← dot_perm y terms.reverse_perm, dot_eq_sum hreverse y nodup_range fun t ht =>
    mem_range.mpr (hlt t (mem_reverse.mp ht))]
  rfl

variable (i : Fin (dec.denseEquations params).length)

/-- The dense system as a list of equations. -/
theorem sum_denseMatrix (y : ℕ → W) :
    ∑ c ∈ Finset.range params.l, (dec.denseMatrix params).get i c • y c =
      setValue params.l y ((dec.denseEquations params).get i).1 := by
  refine Finset.sum_congr rfl fun c hc => ?_
  have hlt := Finset.mem_range.mp hc
  have hrow : (dec.denseMatrix params).data.get i =
      setRow params.l ((dec.denseEquations params).get i).1 := by
    simp only [denseMatrix, List.Vector.get, List.get_eq_getElem, List.getElem_map]
    rfl
  rw [ConstraintMatrix.get, dif_pos ⟨i.2, hlt⟩, hrow, get_setRow]

theorem get_denseRhs : (dec.denseRhs params).get i = ((dec.denseEquations params).get i).2 := by
  simp only [denseRhs, List.Vector.get, List.get_eq_getElem, List.getElem_map]
  rfl

variable {ρ : Symbol oti.symbolSize.toNat →ₗ[Gf256] W} {y : ℕ → W}

theorem eq_of_solve_dense {x : List.Vector (Symbol oti.symbolSize.toNat) params.l}
    (h : (dec.denseMatrix params).solve (dec.denseRhs params) = some x)
    (hy : ∀ row ∈ dec.denseEquations params, setValue params.l y row.1 = ρ row.2) {c : ℕ}
    (hc : c < params.l) : y c = ρ (symbolAt x c) := by
  rw [symbolAt_of_lt x hc]
  refine eq_of_solve h (fun i => ?_) ⟨c, hc⟩
  rw [sum_denseMatrix, get_denseRhs]
  exact hy _ (get_mem _ i)

def repairTerms (params : SystematicParams) (esi : UInt32) : List (ℕ × Gf256) :=
  (params.rfcRepairEquation esi).1.zip (params.rfcRepairEquation esi).2

theorem map_fst_repairTerms (params : SystematicParams) (esi : UInt32) :
    (repairTerms params esi).map Prod.fst = (params.rfcRepairEquation esi).1 :=
  map_fst_zip (by simp [rfcRepairEquation])

/-- What the dense system says: the unknown is a codeword with the received source symbols, and the
rows of the repair symbols, with every column set once, have the received values. -/
theorem denseEquations_iff (hk : oti.k = params.k) :
    (∀ row ∈ dec.denseEquations params, setValue params.l y row.1 = ρ row.2) ↔
      Codeword params y ∧
        (∀ p ∈ dec.received, p.1.toNat < params.k → y p.1.toNat = ρ p.2) ∧
        ∀ p ∈ dec.received, params.k ≤ p.1.toNat →
          setValue params.l y (repairTerms params p.1) = ρ p.2 := by
  have hl := params.kPrime_le_l
  have hle := params.k_le
  have hconstraint : ∀ r < params.s + params.h, setValue params.l y
      ((range params.l).map fun c => (c, (build params).get r c)) =
      ∑ c ∈ Finset.range params.l, constraintCoef params r c • y c := by
    intro r hr
    rw [setValue_eq_dot y (by simpa [Function.comp_def] using nodup_range) (by simp), dot, map_map]
    refine Eq.trans ?_ (Finset.sum_congr rfl fun c hc => by
      rw [← get_build hr (Finset.mem_range.mp hc)])
    rfl
  have hunit : ∀ c < params.l, setValue params.l y [(c, (1))] = y c := by
    intro c hc
    rw [setValue_eq_dot y (by simp) (by simpa using hc), dot_cons, dot_nil, add_zero, one_smul]
  simp only [denseEquations, forall_mem_append, forall_mem_map, mem_filter,
    mem_range, decide_eq_true_eq, map_zero, hk]
  have hchecks : (∀ r < params.s + params.h, setValue params.l y
      ((range params.l).map fun c => (c, (build params).get r c)) = 0) ↔
        ConstraintsHold params y := forall₂_congr fun r hr => by rw [hconstraint r hr]
  rw [hchecks]
  constructor
  · rintro ⟨⟨⟨hcheck, hsource⟩, hpadding⟩, hrepair⟩
    refine ⟨⟨hcheck, fun c hkc hc => ?_⟩, fun p hp hlt => ?_, fun p hp hge => hrepair p ⟨hp, hge⟩⟩
    · have hrow := hpadding (c - params.k) (by omega)
      rwa [show params.k + (c - params.k) = c by omega, hunit c (by omega)] at hrow
    · rw [← hsource p ⟨hp, hlt⟩, hunit _ (by omega)]
  · rintro ⟨hcode, hsource, hrepair⟩
    refine ⟨⟨⟨hcode.constraints, fun p hp => ?_⟩, fun i hi => ?_⟩, fun p hp => hrepair p hp.1 hp.2⟩
    · rw [hunit _ (by omega), hsource p hp.1 hp.2]
    · rw [hunit _ (by omega), hcode.padding _ (by omega) (by omega)]

/-- Beyond the three smallest blocks the dense system says the same as the equations of the
attempt. -/
theorem denseEquations_iff_of_lt (hk : oti.k = params.k) (hlarge : 18 < params.kPrime) :
    (∀ row ∈ dec.denseEquations params, setValue params.l y row.1 = ρ row.2) ↔
      Codeword params y ∧ ∀ p ∈ dec.received, symbolValue params y p.1 = ρ p.2 := by
  have hrepair : ∀ esi, params.k ≤ esi.toNat →
      setValue params.l y (repairTerms params esi) = symbolValue params y esi := by
    intro esi hesi
    rw [symbolValue, if_neg (by omega)]
    refine setValue_eq_dot y ?_ fun t ht => params.repair_columns_lt (of_mem_zip ht).1
    rw [map_fst_repairTerms]
    exact params.repair_columns_nodup hlarge esi
  rw [denseEquations_iff hk]
  refine and_congr_right fun _ => ⟨fun h p hp => ?_, fun h => ⟨fun p hp hlt => ?_, fun p hp hge => ?_⟩⟩
  · by_cases hlt : p.1.toNat < params.k
    · rw [symbolValue, if_pos hlt]
      exact h.1 p hp hlt
    · rw [← hrepair _ (by omega)]
      exact h.2 p hp (by omega)
  · rw [← h p hp, symbolValue, if_pos hlt]
  · rw [hrepair _ hge]
    exact h p hp

/-- The number of rows of the dense system. -/
theorem length_denseEquations :
    (dec.denseEquations params).length =
      params.s + params.h + dec.received.length + (params.kPrime - oti.k) := by
  have hsplit := length_eq_length_filter_add (l := dec.received)
    fun p => decide (p.1.toNat < oti.k)
  have hnot : (dec.received.filter fun p => !decide (p.1.toNat < oti.k)) =
      dec.received.filter fun p => oti.k ≤ p.1.toNat := by
    refine filter_congr fun p _ => ?_
    rw [← decide_not]
    exact decide_eq_decide.mpr Nat.not_lt
  rw [hnot] at hsplit
  simp only [denseEquations, length_append, length_map, length_range]
  omega

end DenseRows

variable {y : ℕ → Symbol oti.symbolSize.toNat} {blake3 : List UInt8 → Bytes 32}

/-- A buffer whose symbols are encoding symbols of one codeword, at indices an encoder emits. -/
structure HonestBuffer (dec : RaptorQDecoder oti config) (params : SystematicParams)
    (y : ℕ → Symbol oti.symbolSize.toNat) : Prop where
  values : ∀ p ∈ dec.received, symbolValue params y p.1 = p.2
  emitted : ∀ p ∈ dec.received, p.1.toNat < params.k ∨ params.kPrime ≤ p.1.toNat

theorem HonestBuffer.find?_padding (h : dec.HonestBuffer params y) (hk : oti.k = params.k) :
    dec.received.find? (fun p => oti.k ≤ p.1.toNat ∧ p.1.toNat < params.kPrime) = none := by
  rw [find?_eq_none]
  intro p hp
  have hrange := h.emitted p hp
  rw [decide_eq_true_eq]
  omega

section

variable (hk : oti.k = params.k) (hcount : oti.k ≤ dec.received.length) (hy : Codeword params y)
  (hbuffer : dec.HonestBuffer params y)
include hk hcount hy hbuffer

theorem reconstructBlock_of_not_determines
    (hdetermines : ¬ Determines params (dec.received.map Prod.fst)) :
    dec.reconstructBlock params blake3 = dec.denseFallback params blake3 := by
  have hsolves : SolvesSymbols (dec.equationSymbols params) LinearMap.id y :=
    (solvesSymbols_equationSymbols hk).mpr ⟨hy, hbuffer.values⟩
  cases hdecode : inactivationDecode params (dec.equationSymbols params) with
  | error err =>
    have hclass := (inactivationDecode_error (l_le_length_equationSymbols hk hcount)
      (wellFormed_equationSymbols hk) hdecode hsolves).1
    simp only [reconstructBlock, hbuffer.find?_padding hk, hdecode, hclass]
  | ok x =>
    -- A result is unique also when read byte by byte, which excludes a kernel.
    refine absurd (fun z hz hvalues c hc => ?_) hdetermines
    have hl : c < params.l := hc.trans_le (params.k_le.trans params.kPrime_le_l)
    have hzero : SolvesSymbols (dec.equationSymbols params)
        (0) z :=
      (solvesSymbols_equationSymbols hk).mpr ⟨hz, forall_mem_map.mp hvalues⟩
    exact inactivationDecode_ok hdecode hzero ⟨c, hl⟩

end

/-- With fewer symbols than source symbols an attempt lacks symbols. -/
theorem reconstructBlock_of_lt (hk : oti.k = params.k) (hcount : dec.received.length < oti.k)
    (hbuffer : dec.HonestBuffer params y) :
    dec.reconstructBlock params blake3 =
      .error (.insufficientSymbols dec.receivedCount (needed oti)) := by
  have hle := params.k_le
  have hrows : (dec.equationSymbols params).length < params.l := by
    simp only [equationSymbols, constraintSymbols, length_append, length_map, length_range, l]
    omega
  have hdense : (dec.denseEquations params).length < params.l := by
    rw [length_denseEquations, l]
    omega
  simp only [reconstructBlock, hbuffer.find?_padding hk, inactivationDecode, validateInput,
    if_pos hrows, InnerError.failureClass, denseFallback, tryReconstructDense, if_pos hdense]

/-- The byte count of the dense fallback on the buffered symbols. -/
def fallbackBytes (dec : RaptorQDecoder oti config) (params : SystematicParams) : ℕ :=
  denseFallbackBytes (params.s + params.h + dec.received.length + (params.kPrime - params.k))
    params.l oti.symbolSize.toNat oti.transferLength.toNat

variable (hk : oti.k = params.k) (hcount : oti.k ≤ dec.received.length)
include hk hcount

theorem not_length_denseEquations_lt :
    ¬ (dec.denseEquations params).length < params.l := by
  rw [length_denseEquations, l]
  omega

theorem denseFallback_of_over
    (hover : oti.byteLimit config < dec.fallbackBytes params) :
    dec.denseFallback params blake3 = .error (.memoryLimitExceeded
      (min (dec.fallbackBytes params) usizeMax) (oti.byteLimit config)) := by
  rw [fallbackBytes, ← hk, ← length_denseEquations] at hover ⊢
  have hbudget := ObjectTransmissionInformation.validateDenseFallbackBudget_error hover
  simp only [denseFallback, tryReconstructDense,
    if_neg (not_length_denseEquations_lt hk hcount), hbudget]

/-- Within its budget the dense fallback solves the dense system. -/
theorem denseFallback_of_within
    (hwithin : dec.fallbackBytes params ≤ oti.byteLimit config) :
    dec.denseFallback params blake3 =
      match (dec.denseMatrix params).solve (dec.denseRhs params) with
      | none => .error (.insufficientSymbols dec.receivedCount (needed oti))
      | some x =>
        if dec.verifyDense x && hashMatches blake3 oti (payloadOf oti x) then .ok (payloadOf oti x)
        else .error (.insufficientSymbols dec.receivedCount (needed oti)) := by
  rw [fallbackBytes, ← hk, ← length_denseEquations] at hwithin
  have hbudget := ObjectTransmissionInformation.validateDenseFallbackBudget_ok hwithin
  simp only [denseFallback, tryReconstructDense,
    if_neg (not_length_denseEquations_lt hk hcount), hbudget]
  cases (dec.denseMatrix params).solve (dec.denseRhs params) with
  | none => rfl
  | some x =>
    cases hverify : dec.verifyDense x <;>
      simp only [hverify, if_true, Bool.false_eq_true, if_false, Bool.true_and, Bool.false_and]

/-- The dense fallback is refused for its budget, or it lacks symbols, or it returns a payload. -/
theorem denseFallback_cases
    (hwithin : dec.fallbackBytes params ≤ oti.byteLimit config) :
    (∃ x, dec.denseFallback params blake3 = .ok (payloadOf oti x) ∧
        hashMatches blake3 oti (payloadOf oti x) = true ∧
        (dec.denseMatrix params).solve (dec.denseRhs params) = some x) ∨
      dec.denseFallback params blake3 =
        .error (.insufficientSymbols dec.receivedCount (needed oti)) := by
  rw [denseFallback_of_within hk hcount hwithin]
  split
  · exact .inr rfl
  · next x hsolve =>
    split_ifs with hfound
    · exact .inl ⟨x, rfl, (Bool.and_eq_true_iff.mp hfound).2, hsolve⟩
    · exact .inr rfl

/-- Beyond the three smallest blocks the dense fallback only returns the payload. -/
theorem eq_of_denseFallback (hlarge : 18 < params.kPrime) (hy : Codeword params y)
    (hbuffer : dec.HonestBuffer params y) {payload : List UInt8}
    (h : dec.denseFallback params blake3 = .ok payload) :
    ((range params.k).flatMap fun c => Symbol.bytes (y c)).take oti.transferLength.toNat =
      payload := by
  by_cases hover : oti.byteLimit config < dec.fallbackBytes params
  · cases (denseFallback_of_over hk hcount hover).symm.trans h
  · rcases denseFallback_cases hk hcount (by omega) with ⟨x, heq, -, hsolve⟩ | heq
    · cases heq.symm.trans h
      have hrows := (denseEquations_iff_of_lt (ρ := LinearMap.id) hk hlarge).mpr
        ⟨hy, hbuffer.values⟩
      exact (payloadOf_eq hk fun c hc => (eq_of_solve_dense hsolve hrows hc).symm).symm
    · cases heq.symm.trans h

end RaptorQDecoder

end Flywheel.Raptorq
