import Flywheel.Raptorq.Encode

/-!
# Codewords

The intermediate symbols of a source block are the vectors that meet the constraint rows and vanish
in the padding. Every encoding symbol is a linear function of them. The systematic encoder never
fails on a supported block, and its intermediate symbols are the codeword of the source symbols. All
of this is stated over an arbitrary module, so that it applies to symbols and to single bytes.
-/

namespace Flywheel.Raptorq

open Flywheel.Data ConstraintMatrix SystematicParams

variable {W : Type*} [AddCommGroup W] [Module Gf256 W] {params : SystematicParams} {T : ℕ}

/-- Intermediate symbols that meet the constraint rows and vanish in the padding. -/
structure Codeword (params : SystematicParams) (y : ℕ → W) : Prop where
  constraints : ConstraintsHold params y
  padding : ∀ c, params.k ≤ c → c < params.kPrime → y c = 0

/-- The encoding symbol of an index, from the intermediate symbols. -/
def symbolValue (params : SystematicParams) (y : ℕ → W) (esi : UInt32) : W :=
  if esi.toNat < params.k then y esi.toNat
  else dot y ((params.rfcRepairEquation esi).1.zip (params.rfcRepairEquation esi).2)

section Linear

variable {y z : ℕ → W}

theorem Codeword.ext (hy : Codeword params y) (hz : Codeword params z)
    (heq : ∀ c < params.k, y c = z c) {c : ℕ} (hc : c < params.l) : y c = z c := by
  refine hy.constraints.ext hz.constraints (fun c hc => ?_) c hc
  by_cases hck : c < params.k
  · exact heq c hck
  · rw [hy.padding c (by omega) hc, hz.padding c (by omega) hc]

def codewordOf (params : SystematicParams) (x : ℕ → W) : ℕ → W :=
  intermediateOf params fun c => if c < params.k then x c else 0

theorem codeword_codewordOf (x : ℕ → W) : Codeword params (codewordOf params x) where
  constraints := constraintsHold_intermediateOf _
  padding c hk hc := by rw [codewordOf, intermediateOf_of_lt _ hc, if_neg (by omega)]

theorem codewordOf_of_lt (x : ℕ → W) {c : ℕ} (hc : c < params.k) : codewordOf params x c = x c := by
  rw [codewordOf, intermediateOf_of_lt _ (lt_of_lt_of_le hc params.k_le), if_pos hc]

theorem ConstraintsHold.map {V : Type*} [AddCommGroup V] [Module Gf256 V] {y : ℕ → V}
    (hy : ConstraintsHold params y) (φ : V →ₗ[Gf256] W) :
    ConstraintsHold params fun c => φ (y c) := by
  intro r hr
  have hsum := congrArg φ (hy r hr)
  rw [map_sum, map_zero] at hsum
  rw [← hsum]
  exact Finset.sum_congr rfl fun c _ => (map_smul φ _ _).symm

theorem Codeword.map {V : Type*} [AddCommGroup V] [Module Gf256 V] {y : ℕ → V}
    (hy : Codeword params y) (φ : V →ₗ[Gf256] W) : Codeword params fun c => φ (y c) where
  constraints := hy.constraints.map φ
  padding c hk hc := by rw [hy.padding c hk hc, map_zero]

theorem Codeword.add (hy : Codeword params y) (hz : Codeword params z) :
    Codeword params fun c => y c + z c where
  constraints r hr := by
    simp only [smul_add, Finset.sum_add_distrib]
    rw [hy.constraints r hr, hz.constraints r hr, add_zero]
  padding c hk hc := by rw [hy.padding c hk hc, hz.padding c hk hc, add_zero]

theorem map_symbolValue {V : Type*} [AddCommGroup V] [Module Gf256 V] (φ : V →ₗ[Gf256] W)
    (y : ℕ → V) (esi : UInt32) :
    φ (symbolValue params y esi) = symbolValue params (fun c => φ (y c)) esi := by
  unfold symbolValue
  split_ifs
  · rfl
  · exact map_dot φ y _

theorem symbolValue_add (y z : ℕ → W) (esi : UInt32) :
    symbolValue params (fun c => y c + z c) esi =
      symbolValue params y esi + symbolValue params z esi := by
  unfold symbolValue
  split_ifs
  · rfl
  · exact dot_add y z _

theorem symbolValue_congr (h : ∀ c < params.l, y c = z c) (esi : UInt32) :
    symbolValue params y esi = symbolValue params z esi := by
  unfold symbolValue
  split_ifs with hk
  · exact h _ (hk.trans_le (params.k_le.trans params.kPrime_le_l))
  · exact dot_congr fun t ht => h t.1 (params.repair_columns_lt (List.of_mem_zip ht).1)

end Linear

section Parameters

theorem SystematicParams.maxSupported_eq : maxSupported = 56403 := by
  decide +kernel

theorem SystematicParams.k_of_tryForSourceBlock {k : ℕ}
    (h : tryForSourceBlock k = .ok params) : params.k = k := by
  unfold tryForSourceBlock at h
  split_ifs at h
  split at h
  case h_1 => rw [← Except.ok.inj h]
  case h_2 => cases h

/-- Every block of at most 56403 symbols has parameters. -/
theorem SystematicParams.exists_tryForSourceBlock {k : ℕ} (hk : 0 < k) (hle : k ≤ 56403) :
    ∃ params, tryForSourceBlock k = .ok params := by
  unfold tryForSourceBlock
  rw [dif_neg (by rw [maxSupported_eq]; omega)]
  split
  case h_1 => exact ⟨_, rfl⟩
  case h_2 hnone =>
    -- The last row of the table holds every supported block.
    have hlast : systematicIndexTable.any (fun row => row.kPrime = 56403) = true := by
      decide +kernel
    obtain ⟨row, hrow, hprime⟩ := List.any_eq_true.mp hlast
    have hbad := List.find?_eq_none.mp hnone row hrow
    simp only [decide_eq_true_eq] at hprime hbad
    omega

/-- The row of the table for a block of at most 18 symbols. -/
def smallRow (k : ℕ) : IndexRow :=
  if k ≤ 10 then ⟨10, 254, 7, 10, 17⟩
  else if k ≤ 12 then ⟨12, 630, 7, 10, 19⟩ else ⟨18, 682, 11, 10, 29⟩

/-- The parameters of a block of at most 18 symbols. -/
theorem SystematicParams.row_of_le {k : ℕ} (h : tryForSourceBlock k = .ok params) (hk : k ≤ 18) :
    IndexRow.mk params.kPrime params.j params.s params.h params.w = smallRow k := by
  have hrows : ∀ k < 19, systematicIndexTable.find? (fun row => k ≤ row.kPrime) =
      some (smallRow k) := by decide +kernel
  have hrow := hrows k (by omega)
  unfold tryForSourceBlock at h
  split_ifs at h
  split at h
  case h_1 row hfind =>
    rw [← Except.ok.inj h]
    exact Option.some.inj (hfind.symm.trans hrow)
  case h_2 => cases h

end Parameters

/-- What the encoder computes for a block of source symbols. -/
structure SystematicEncoder.EncoderOf (enc : SystematicEncoder T) (source : List (Symbol T)) :
    Prop where
  params_eq : tryForSourceBlock source.length = .ok enc.params
  codeword : Codeword enc.params (symbolAt enc.intermediate)
  source_eq : ∀ c < source.length, symbolAt enc.intermediate c = source.getD c 0

theorem get_knownSymbols (params : SystematicParams) (source : List (Symbol T))
    (i : Fin (params.s + params.h + params.kPrime)) :
    (SystematicEncoder.knownSymbols params source).get i =
      if (i : ℕ) < params.s + params.h then 0
      else source.getD (i - (params.s + params.h)) 0 :=
  List.Vector.get_ofFn _ i

/-- The encoder never fails on a supported block. -/
theorem SystematicEncoder.exists_new {source : List (Symbol T)} (hpos : source ≠ [])
    (hle : source.length ≤ 56403) :
    ∃ enc, SystematicEncoder.new source = some enc ∧ enc.EncoderOf source := by
  obtain ⟨params, hparams⟩ :=
    exists_tryForSourceBlock (List.length_pos_of_ne_nil hpos) hle
  have hk := k_of_tryForSourceBlock hparams
  have hrows : params.l ≤ params.s + params.h + params.kPrime := by
    rw [l]
    omega
  cases hsolve : (build params).solve (knownSymbols params source) with
  | none =>
    -- A kernel vector of the whole matrix vanishes in the source columns, so everywhere.
    obtain ⟨z, ⟨c, hc, hne⟩, hz⟩ := exists_kernel_of_solve hrows hsolve
    obtain ⟨hhold, hsource⟩ : ConstraintsHold params z ∧ ∀ c < params.kPrime, z c = 0 :=
      build_rows_iff.mp fun i => by rw [ite_self, hz i]
    have hall := hhold.ext (z := fun _ => (0)) (fun r _ => by simp) hsource c hc
    exact absurd hall hne
  | some x =>
    have hmem : ∀ c < params.l, intermediateOf params (fun c => source.getD c 0) c =
        symbolAt x c := by
      intro c hc
      rw [symbolAt_of_lt x hc]
      refine eq_of_solve (ρ := LinearMap.id) hsolve (fun i => ?_) ⟨c, hc⟩
      rw [get_knownSymbols]
      exact build_rows_iff.mpr ⟨constraintsHold_intermediateOf _,
        fun c hc => intermediateOf_of_lt _ hc⟩ i
    have hl := params.kPrime_le_l
    have hsource : ∀ c < params.kPrime, symbolAt x c = source.getD c 0 := fun c hc => by
      rw [← hmem c (by omega), intermediateOf_of_lt _ hc]
    have hhold : ConstraintsHold params (intermediateOf params fun c => source.getD c 0) :=
      constraintsHold_intermediateOf _
    refine ⟨⟨params, x⟩, by rw [new, hparams]; simp [hsolve], hparams, ⟨?_, ?_⟩, ?_⟩
    · intro r hr
      rw [← hhold r hr]
      exact Finset.sum_congr rfl fun c hc => by rw [hmem c (Finset.mem_range.mp hc)]
    · rintro c (hkc : params.k ≤ c) hc
      rw [hsource c hc, List.getD_eq_default _ _ (by omega)]
    · intro c hc
      have := params.k_le
      exact hsource c (by omega)

/-- Every supported block has an encoder. Its intermediate symbols solve the whole system of the
constraint matrix, begin with the source symbols and vanish in the padding. -/
theorem precode_solvable (source : List (Symbol T)) (hpos : 0 < source.length)
    (hle : source.length ≤ 56403) :
    ∃ enc, SystematicEncoder.new source = some enc ∧
      (∀ i : Fin (enc.params.s + enc.params.h + enc.params.kPrime),
        ∑ c ∈ Finset.range enc.params.l, (build enc.params).get i c • symbolAt enc.intermediate c =
          (SystematicEncoder.knownSymbols enc.params source).get i) ∧
      (∀ i < source.length, symbolAt enc.intermediate i = source.getD i 0) ∧
      ∀ i, source.length ≤ i → i < enc.params.kPrime → symbolAt enc.intermediate i = 0 := by
  obtain ⟨enc, hnew, h⟩ := SystematicEncoder.exists_new (List.ne_nil_of_length_pos hpos) hle
  have hk := k_of_tryForSourceBlock h.params_eq
  have hpadding : ∀ i, source.length ≤ i → i < enc.params.kPrime →
      symbolAt enc.intermediate i = 0 := fun i hi hlt => h.codeword.padding i (by omega) hlt
  refine ⟨enc, hnew, fun i => ?_, h.source_eq, hpadding⟩
  rw [get_knownSymbols]
  refine (build_rows_iff (b := fun c => source.getD c 0)).mpr
    ⟨h.codeword.constraints, fun c hc => ?_⟩ i
  rcases Nat.lt_or_ge c source.length with hlt | hge
  · exact h.source_eq c hlt
  · rw [hpadding c hge hc, List.getD_eq_default _ _ hge]

theorem precode_solvable_single :
    ∃ enc, SystematicEncoder.new [(0 : Symbol 1)] = some enc ∧ symbolAt enc.intermediate 0 = 0 := by
  obtain ⟨enc, hnew, -, hsource, -⟩ :=
    precode_solvable [(0 : Symbol 1)] (by decide) (by decide)
  exact ⟨enc, hnew, hsource 0 Nat.one_pos⟩

theorem SystematicEncoder.repairSymbol_eq (enc : SystematicEncoder T) {esi : UInt32}
    (h : enc.params.k ≤ esi.toNat) :
    enc.repairSymbol esi = symbolValue enc.params (symbolAt enc.intermediate) esi := by
  rw [symbolValue, if_neg (by omega)]
  exact combine_eq_dot ..

end Flywheel.Raptorq
