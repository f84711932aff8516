import Flywheel.Raptorq.Ambiguity
import Flywheel.Raptorq.Runs
import Flywheel.Raptorq.SmallBlocks

/-!
# What the decoder returns for honest symbols

A payload the decoder returns comes from the inactivation decoder, which only returns the payload
that was encoded, or from the dense fallback. The fallback reads repair equations with a repeated
column differently from the encoder, which happens for blocks of two to eighteen source symbols. On
such a block there are payloads and symbols for which the decoder returns a payload of zeros
instead, unless the fallback never runs.
-/

namespace Flywheel.Raptorq

open Flywheel.Data RaptorQDecoder List

theorem paddedChunk_replicate (T n i : ℕ) : paddedChunk T (replicate n 0) i = 0 := by
  ext b
  rw [get_vectorZero, paddedChunk, List.Vector.get_ofFn]
  by_cases hin : i * T + b < n
  · rw [getD_eq_getElem _ _ (by rwa [length_replicate]), getElem_replicate]
    rfl
  · rw [getD_eq_default _ _ (by rw [length_replicate]; omega)]
    rfl

namespace RaptorQDecoder

variable {oti : ObjectTransmissionInformation} {config : RaptorQConfig}
  {dec : RaptorQDecoder oti config} {params : SystematicParams} {blake3 : List UInt8 → Bytes 32}

variable {x : List.Vector (Symbol oti.symbolSize.toNat) params.l}

/-- A solution of the dense system of zero symbols is zero. -/
theorem symbolAt_of_solve_dense_zero (hk : oti.k = params.k) (hzero : ∀ p ∈ dec.received, p.2 = 0)
    (hsolve : (dec.denseMatrix params).solve (dec.denseRhs params) = some x) :
    symbolAt x = fun _ => 0 := by
  have hrows : ∀ row ∈ dec.denseEquations params,
      setValue params.l (fun _ => (0)) row.1 =
        LinearMap.id row.2 :=
    (denseEquations_iff hk).mpr ⟨codeword_zero, fun p hp _ => (hzero p hp).symm,
      fun p hp _ => by rw [hzero p hp]; simp [setValue]⟩
  funext c
  by_cases hc : c < params.l
  · exact (eq_of_solve_dense hsolve hrows hc).symm
  · exact getD_eq_default _ _ (by rw [Vector.toList_length]; omega)

/-- The payload of zero symbols is zero. -/
theorem payloadOf_of_zero (hk : oti.k = params.k)
    (hlength : oti.transferLength.toNat ≤ params.k * oti.symbolSize.toNat)
    (hx : symbolAt x = fun _ => 0) :
    payloadOf oti x = replicate oti.transferLength.toNat 0 := by
  have hfits : (replicate oti.transferLength.toNat (0 : UInt8)).length ≤
      params.k * oti.symbolSize.toNat := by rwa [length_replicate]
  have htake := take_flatMap_paddedChunk hfits
  simp only [paddedChunk_replicate, length_replicate] at htake
  rw [payloadOf, hx, hk]
  exact htake

/-- On zero symbols that make a regular dense system, the dense fallback returns zeros. -/
theorem denseFallback_of_zero (hk : oti.k = params.k) (hcount : oti.k ≤ dec.received.length)
    (hwithin : dec.fallbackBytes params ≤ oti.byteLimit config) (hhash : oti.payloadHash = none)
    (hlength : oti.transferLength.toNat ≤ params.k * oti.symbolSize.toNat)
    (hzero : ∀ p ∈ dec.received, p.2 = 0)
    (hkernel : ∀ z : ℕ → Gf256, (∀ row ∈ dec.denseEquations params, setValue params.l z row.1 = 0) →
      ∀ c < params.l, z c = 0) :
    dec.denseFallback params blake3 = .ok (replicate oti.transferLength.toNat 0) := by
  rw [denseFallback_of_within hk hcount hwithin]
  cases hsolve : (dec.denseMatrix params).solve (dec.denseRhs params) with
  | none =>
    obtain ⟨z, ⟨c, hc, hne⟩, hz⟩ := ConstraintMatrix.exists_kernel_of_solve
      (Nat.not_lt.mp (not_length_denseEquations_lt hk hcount)) hsolve
    refine absurd (hkernel z (fun row hrow => ?_) c hc) hne
    obtain ⟨i, rfl⟩ := get_of_mem hrow
    rw [← sum_denseMatrix]
    exact hz i
  | some x =>
    have hx := symbolAt_of_solve_dense_zero hk hzero hsolve
    have hcombine : ∀ terms, combine (fun _ => (0 : Symbol oti.symbolSize.toNat)) terms = 0 :=
      fun terms => by
        rw [combine_eq_dot]
        simp [dot]
    have hverify : dec.verifyDense x = true := by
      simp only [verifyDense, Bool.and_eq_true, all_eq_true, mem_filter,
        decide_eq_true_eq, hx, hcombine]
      exact ⟨⟨fun p hp => (hzero p hp.1).symm, fun p hp => (hzero p hp.1).symm⟩, fun _ _ => trivial⟩
    simp only [hverify, payloadOf_of_zero hk hlength hx, hashMatches, hhash, Bool.and_self, if_true]

end RaptorQDecoder

/-- What a decoder is told about an object of some length, without a hash. -/
def RaptorQConfig.objectInfo (config : RaptorQConfig) (len : ℕ) : ObjectTransmissionInformation :=
  ⟨UInt64.ofNat len, config.symbolSize, 1, 1, 8, none⟩

namespace RaptorQEncoder

variable {blake3 : List UInt8 → Bytes 32} {config dconfig : RaptorQConfig} {payload : List UInt8}
  {enc : RaptorQEncoder config} {withHash : Bool}

/-- Zero symbols for the indices of the collision. -/
def collisionArrivals (T k : ℕ) : List Arrival :=
  (collisionEsis k).map fun e => ⟨0, e, replicate T 0⟩

namespace EncoderOf

section

variable (h : enc.EncoderOf blake3 payload)
include h

theorem withinBounds_iff :
    (enc.announce withHash).WithinBounds dconfig ↔
      (config.objectInfo payload.length).WithinBounds dconfig := by
  rw [← h.len_eq]
  exact ⟨fun h => ⟨h.length_le, h.k_le, h.bytes_le⟩, fun h => ⟨h.length_le, h.k_le, h.bytes_le⟩⟩

theorem byteLimit_announce :
    (enc.announce withHash).byteLimit dconfig =
      (config.objectInfo payload.length).byteLimit dconfig := by
  rw [← h.len_eq]
  rfl

theorem row_eq (hk : enc.inner.params.k ≤ 18) :
    enc.inner.params.row = smallRow enc.inner.params.k := by
  have hparams : SystematicParams.tryForSourceBlock (enc.announce false).k = .ok enc.inner.params :=
    h.params_announce
  rw [h.k_announce] at hparams
  exact SystematicParams.row_of_le hparams hk

end

section Zeros

theorem exists_zeros (blake3 : List UInt8 → Bytes 32) {len : ℕ} (hpos : 0 < len)
    (hmax : len ≤ config.maxObjectSize.toNat) (hsize : 0 < config.symbolSize.toNat)
    (hblock : divCeil len config.symbolSize.toNat ≤ 56403) :
    ∃ enc : RaptorQEncoder config, enc.EncoderOf blake3 (replicate len 0) := by
  obtain ⟨enc, -, h⟩ : ∃ enc,
      RaptorQEncoder.new blake3 (replicate len 0) config = .ok enc ∧
        enc.EncoderOf blake3 (replicate len 0) :=
    exists_new (by simpa using hpos.ne') (by simpa using hmax) hsize (by simpa using hblock)
  exact ⟨enc, h⟩

theorem symbolValue_zeros {len : ℕ} (h : enc.EncoderOf blake3 (replicate len 0))
    (esi : UInt32) : symbolValue enc.inner.params enc.symbols esi = 0 := by
  have hsymbols : ∀ c < enc.inner.params.l, enc.symbols c = 0 := fun c hc =>
    h.codeword.ext codeword_zero
      (fun c hc => by rw [h.symbols_of_lt hc, paddedChunk_replicate]) hc
  rw [symbolValue_congr hsymbols]
  simp [symbolValue, dot]

end Zeros

section Sound

variable {dec : RaptorQDecoder (enc.announce withHash) dconfig} {a : Arrival} {p : List UInt8}

variable (h : enc.EncoderOf blake3 payload)
  (hbuffer : dec.HonestBuffer enc.inner.params enc.symbols) (ha : enc.Emits a)
include h hbuffer ha

/-- Where the dense fallback reads the equations as the encoder does, or does not run, a call only
returns the payload. -/
theorem eq_of_receive (hcase : enc.inner.params.k = 1 ∨ 18 < enc.inner.params.k ∨
      ¬ (enc.announce withHash).WithinBounds dconfig ∨
      (enc.announce withHash).byteLimit dconfig <
        denseFallbackBytes enc.inner.params.l enc.inner.params.l config.symbolSize.toNat
          payload.length) (hreturn : (dec.receive blake3 a).1 = .ok (some p)) : p = payload := by
  obtain ⟨haccepts, hdue, hdense⟩ := exists_attempt_of_response hreturn
  have hbounds := h.validateDecodeBounds_announce.mp haccepts.bounds
  have hbuffer' := h.honestBuffer_insert hbuffer ha haccepts.size
  have hcount := k_le_of_shouldAttemptDecode hdue
  have hesi := (esis_insert (Symbol.ofBytes a.data haccepts.size) haccepts.fresh).mem_iff.mpr
    (mem_cons_self ..)
  set dec' := dec.insert a.esi (Symbol.ofBytes a.data haccepts.size)
  by_cases hdetermines : Determines enc.inner.params dec'.esis
  · rw [h.tryReconstruct_of_determines hbounds hbuffer' hcount hdetermines] at hdense
    exact (Except.ok.inj hdense).symm
  -- What else is returned comes from the dense fallback.
  rw [h.tryReconstruct_of_not_determines hbounds hbuffer' hcount hdetermines] at hdense
  have hle := enc.inner.params.k_le
  rcases hcase with hone | hlarge | hrefused | hover
  · exact absurd (determines_of_single (h.row_eq (by omega)) hone hesi) hdetermines
  · have hresult := eq_of_denseFallback h.k_announce hcount (by omega) h.codeword
      hbuffer' hdense
    rw [h.transferLength_announce] at hresult
    exact hresult.symm.trans h.payload_eq
  · exact absurd hbounds hrefused
  · -- The rows are at least as many as the intermediate symbols, so the budget is exceeded.
    have hk : (enc.announce withHash).k = enc.inner.params.k := h.k_announce
    have hrows : enc.inner.params.l ≤ enc.inner.params.s + enc.inner.params.h +
        dec'.received.length + (enc.inner.params.kPrime - enc.inner.params.k) := by
      rw [SystematicParams.l]
      omega
    have hmono := denseFallbackBytes_mono hrows enc.inner.params.l config.symbolSize.toNat
      payload.length
    rw [denseFallback_of_over hk hcount (by
      rw [fallbackBytes, h.transferLength_announce]
      exact lt_of_lt_of_le hover hmono)] at hdense
    cases hdense

end Sound

/-- The indices of the collision are different and outside the padding. -/
theorem nodup_collisionEsis {params : SystematicParams} (hrow : params.row = smallRow params.k) :
    (collisionEsis params.k).Nodup := by
  have hvalid := collisionOf_valid_row hrow
  have hle := params.k_le
  have hword : ∀ i ∈ range (params.k - 2), (UInt32.ofNat (i + 2)).toNat = i + 2 :=
    fun i hi => params.toNat_ofNat (by have hlt := mem_range.mp hi; omega)
  refine nodup_append.mpr ⟨Nodup.map_on (fun i hi j hj hij => ?_) nodup_range, ?_, ?_⟩
  · have hnat := congrArg UInt32.toNat hij
    rw [hword i hi, hword j hj] at hnat
    omega
  · simpa using hvalid.distinct
  · intro e he e' he' heq
    obtain ⟨i, hi, rfl⟩ := mem_map.mp he
    have hnat := hword i hi
    have hlt := mem_range.mp hi
    have hge : params.kPrime ≤ e'.toNat := by
      rcases mem_cons.mp he' with rfl | he'
      · exact hvalid.first_ge
      · exact mem_singleton.mp he' ▸ hvalid.second_ge
    rw [← heq] at hge
    omega

/-- On a buffer with the indices of the collision the dense system has no kernel. -/
theorem eq_zero_of_denseEquations {oti : ObjectTransmissionInformation}
    {dec : RaptorQDecoder oti dconfig} {params : SystematicParams}
    (hrow : params.row = smallRow params.k) (hlow : 2 ≤ params.k) (hk : oti.k = params.k)
    (hesis : collisionEsis params.k ⊆ dec.esis) {z : ℕ → Gf256}
    (hz : ∀ row ∈ dec.denseEquations params, setValue params.l z row.1 = 0) :
    ∀ c < params.l, z c = 0 := by
  have hvalid := collisionOf_valid_row hrow
  have hle := params.k_le
  obtain ⟨hcode, hsource, hrepair⟩ :=
    (denseEquations_iff (ρ := (0))
      hk).mp hz
  have hvalue : ∀ e ∈ [(collisionOf params.k).first, (collisionOf params.k).second],
      params.kPrime ≤ e.toNat → setValue params.l z (repairTerms params e) = 0 := by
    intro e he hge
    obtain ⟨q, hq, rfl⟩ := mem_map.mp (hesis (mem_append_right _ he))
    exact hrepair q hq (hle.trans hge)
  intro c hc
  refine eq_zero_of_dense hrow hlow hcode (fun c hge hlt => ?_)
    (hvalue _ (by simp) hvalid.first_ge) (hvalue _ (by simp) hvalid.second_ge) hc
  have hword : (UInt32.ofNat c).toNat = c := params.toNat_ofNat (hlt.trans_le hle)
  have hmem : UInt32.ofNat c ∈ dec.esis := hesis (mem_append_left _
    (mem_map.mpr ⟨c - 2, mem_range.mpr (by omega), by rw [Nat.sub_add_cancel hge]⟩))
  obtain ⟨q, hq, heq⟩ := mem_map.mp hmem
  have hvalue := hsource q hq (by rw [heq, hword]; exact hlt)
  rwa [heq, hword] at hvalue

theorem collisionArrivals_eq (T k : ℕ) : ∃ arrivals a, collisionArrivals T k = arrivals ++ [a] := by
  refine ⟨((range (k - 2)).map (fun i => UInt32.ofNat (i + 2)) ++
    [(collisionOf k).first]).map (fun e => ⟨0, e, replicate T 0⟩),
    ⟨0, (collisionOf k).second, replicate T 0⟩, ?_⟩
  simp [collisionArrivals, collisionEsis]

variable (h : enc.EncoderOf blake3 payload) (hlow : 2 ≤ enc.inner.params.k)
  (hhigh : enc.inner.params.k ≤ 18)
include h hlow hhigh

/-- A payload whose source symbols carry the codeword of the collision in their first bytes vanishes
at the indices of the collision. -/
theorem symbolValue_of_collision
    (hsource : ∀ c < enc.inner.params.k, paddedChunk config.symbolSize.toNat payload c =
      firstByte config.symbolSize.toNat (collisionCode enc.inner.params.k c)) :
    ∀ e ∈ collisionEsis enc.inner.params.k, symbolValue enc.inner.params enc.symbols e = 0 := by
  intro e he
  have hrow := h.row_eq hhigh
  have hsymbols : ∀ c < enc.inner.params.l, enc.symbols c =
      firstByte config.symbolSize.toNat (collisionCode enc.inner.params.k c) := fun c hc =>
    h.codeword.ext ((codeword_collisionCode hrow hlow).map _)
      (fun c hc => by rw [h.symbols_of_lt hc, hsource c hc]) hc
  rw [symbolValue_congr hsymbols, ← map_symbolValue, symbolValue_collisionEsis hrow he, map_zero]

variable (hzero : ∀ e ∈ collisionEsis enc.inner.params.k,
  symbolValue enc.inner.params enc.symbols e = 0)
include hzero

/-- Symbols that vanish at the indices of the collision form a stream. -/
theorem honestStream_collision :
    enc.HonestStream withHash dconfig
      (collisionArrivals config.symbolSize.toNat enc.inner.params.k) := by
  have hrow := h.row_eq hhigh
  have hvalid := collisionOf_valid_row hrow
  have hle := enc.inner.params.k_le
  refine ⟨fun a ha => ?_, ?_, fun a ha => ?_, ?_⟩
  · obtain ⟨e, he, rfl⟩ := mem_map.mp ha
    refine h.emits_iff.mpr ⟨?_, ?_⟩
    · rcases mem_append.mp he with he | he
      · obtain ⟨i, hi, rfl⟩ := mem_map.mp he
        have hlt := mem_range.mp hi
        rw [enc.inner.params.toNat_ofNat] <;> omega
      · rcases mem_cons.mp he with rfl | he
        · exact .inr hvalid.first_ge
        · exact .inr (mem_singleton.mp he ▸ hvalid.second_ge)
    · rw [hzero e he]
      exact map_replicate
  · rw [collisionArrivals, map_map]
    exact (nodup_collisionEsis hrow).map_on fun _ _ _ _ heq => heq
  · obtain ⟨e, -, rfl⟩ := mem_map.mp ha
    exact Nat.zero_le _
  · have hk : (enc.announce withHash).k = enc.inner.params.k := h.k_announce
    rw [collisionArrivals, length_map, length_collisionEsis hlow, ← hk]
    exact ObjectTransmissionInformation.k_le_symbolLimit ..

/-- The state in which the first attempt on a collision is made. -/
theorem exists_collision_attempt (hbounds : (enc.announce withHash).WithinBounds dconfig) :
    ∃ dec : RaptorQDecoder (enc.announce withHash) dconfig,
      (dec.attemptReconstruct blake3).1 ∈
        (RaptorQDecoder.new (enc.announce withHash) dconfig).responses blake3
          (collisionArrivals config.symbolSize.toNat enc.inner.params.k) ∧
      dec.HonestBuffer enc.inner.params enc.symbols ∧
      dec.esis.Perm (collisionEsis enc.inner.params.k) := by
  have hs : enc.HonestStream withHash dconfig
    (collisionArrivals config.symbolSize.toNat enc.inner.params.k) :=
    h.honestStream_collision hlow hhigh hzero
  have hesis : (collisionArrivals config.symbolSize.toNat enc.inner.params.k).map Arrival.esi =
      collisionEsis enc.inner.params.k := by
    rw [collisionArrivals, map_map]
    exact map_id' _
  have hlength : (collisionArrivals config.symbolSize.toNat enc.inner.params.k).length =
      enc.inner.params.k := by
    rw [collisionArrivals, length_map, length_collisionEsis hlow]
  obtain ⟨arrivals, a, heq⟩ := collisionArrivals_eq config.symbolSize.toNat enc.inner.params.k
  rw [heq] at hs hesis hlength ⊢
  rw [length_append] at hlength
  have hemits := hs.emits a (by simp)
  have hsize : a.data.length = (enc.announce withHash).symbolSize.toNat := h.length_of_emits hemits
  refine ⟨_, (mem_responses blake3).mpr ⟨arrivals, a, [], rfl, ?_⟩,
    h.honestBuffer_insert (h.honestBuffer_feed (honestBuffer_new ..) hs.of_append.emits) hemits
      hsize, ?_⟩
  · rw [h.receive_of_first_attempt hbounds hs hlength hsize]
  · rw [← hesis]
    exact h.esis_insert_of_stream hbounds hs (Symbol.ofBytes a.data hsize)

/-- On a collision within the budget of the dense fallback the decoder returns zeros. -/
theorem zeros_mem_responses (hbounds : (enc.announce false).WithinBounds dconfig)
    (hbudget : denseFallbackBytes enc.inner.params.l enc.inner.params.l config.symbolSize.toNat
      payload.length ≤ (enc.announce false).byteLimit dconfig) :
    .ok (some (replicate payload.length 0)) ∈
      (RaptorQDecoder.new (enc.announce false) dconfig).responses blake3
        (collisionArrivals config.symbolSize.toNat enc.inner.params.k) := by
  obtain ⟨dec, hresponse, hbuffer, hesis⟩ :=
    h.exists_collision_attempt hlow hhigh hzero hbounds
  have hrow := h.row_eq hhigh
  have hk : (enc.announce false).k = enc.inner.params.k := h.k_announce
  have hcount : dec.received.length = enc.inner.params.k := by
    rw [← length_esis, hesis.length_eq, length_collisionEsis hlow]
  have hdata : ∀ q ∈ dec.received, q.2 = 0 := fun q hq => by
    rw [← hbuffer.values q hq]
    exact hzero q.1 (hesis.mem_iff.mp (mem_map.mpr ⟨q, hq, rfl⟩))
  have hlength : (enc.announce false).transferLength.toNat ≤
      enc.inner.params.k * (enc.announce false).symbolSize.toNat := by
    rw [h.transferLength_announce, h.k_eq]
    exact le_divCeil_mul h.size_pos
  have hrows : enc.inner.params.s + enc.inner.params.h + dec.received.length +
      (enc.inner.params.kPrime - enc.inner.params.k) = enc.inner.params.l := by
    have hle := enc.inner.params.k_le
    rw [SystematicParams.l]
    omega
  have hdense : dec.denseFallback enc.inner.params blake3 =
      .ok (replicate (enc.announce false).transferLength.toNat 0) := by
    refine denseFallback_of_zero hk (by omega) ?_ rfl hlength hdata fun z hz =>
      eq_zero_of_denseEquations hrow hlow hk hesis.symm.subset hz
    rw [fallbackBytes, hrows, h.transferLength_announce]
    exact hbudget
  have hdetermines : ¬ Determines enc.inner.params dec.esis := fun hdetermines =>
    not_determines_collisionEsis hrow hlow (hdetermines.mono hesis.subset)
  rw [fst_attemptReconstruct,
    h.tryReconstruct_of_not_determines hbounds hbuffer (by omega) hdetermines, hdense,
    h.transferLength_announce] at hresponse
  exact hresponse

end EncoderOf

/-- The decoder only returns the payload that was encoded, for every payload of some length and
every choice of emitted symbols, exactly if the block has one or more than eighteen source symbols,
the decoder refuses the object, or the dense fallback is beyond its budget from the start. -/
theorem reconstruction_sound_iff (blake3 : List UInt8 → Bytes 32) (config dconfig : RaptorQConfig)
    {len : ℕ} (hpos : 0 < len) (hmax : len ≤ config.maxObjectSize.toNat)
    (hsize : 0 < config.symbolSize.toNat) (hblock : divCeil len config.symbolSize.toNat ≤ 56403) :
    (∀ (payload : List UInt8) (enc : RaptorQEncoder config), payload.length = len →
      RaptorQEncoder.new blake3 payload config = .ok enc →
      ∀ (withHash : Bool) (arrivals : List Arrival), (∀ a ∈ arrivals, enc.Emits a) →
        (arrivals.map Arrival.esi).Nodup → ∀ p,
          .ok (some p) ∈ (RaptorQDecoder.new (enc.announce withHash) dconfig).responses blake3
            arrivals → p = payload) ↔
    divCeil len config.symbolSize.toNat = 1 ∨ 18 < divCeil len config.symbolSize.toNat ∨
      ¬ (config.objectInfo len).WithinBounds dconfig ∨
      (config.objectInfo len).byteLimit dconfig <
        denseFallbackBytes (smallRow (divCeil len config.symbolSize.toNat)).l
          (smallRow (divCeil len config.symbolSize.toNat)).l config.symbolSize.toNat len := by
  constructor
  · intro hsound
    by_contra hcase
    rw [not_or, not_or, not_or, not_not, Nat.not_lt, Nat.not_lt] at hcase
    obtain ⟨hone, hsmall, hbounds, hbudget⟩ := hcase
    have hdiv := divCeil_pos hpos hsize
    obtain ⟨zeros, h⟩ := EncoderOf.exists_zeros blake3 hpos hmax hsize hblock
    have hk : zeros.inner.params.k = divCeil len config.symbolSize.toNat := by
      rw [h.k_eq, length_replicate]
    -- Another payload has the same symbols as the zeros at the indices of the collision.
    obtain ⟨payload, enc, hnew, h', hlength, hne, hvalues⟩ := h.exists_other_payload
      (not_determines_collisionEsis (h.row_eq (by omega)) (by omega))
    have hparams := h.params_eq_of_length h' hlength
    rw [length_replicate] at hlength
    rw [← hparams] at hk hvalues
    have hvanish : ∀ e ∈ collisionEsis enc.inner.params.k,
        symbolValue enc.inner.params enc.symbols e = 0 := fun e he => by
      rw [hvalues e he, hparams, h.symbolValue_zeros]
    have hl : enc.inner.params.l = (smallRow (divCeil len config.symbolSize.toNat)).l := by
      rw [← hk, ← h'.row_eq (by omega)]
      rfl
    have hbounds' : (enc.announce false).WithinBounds dconfig := by
      rw [h'.withinBounds_iff, hlength]
      exact hbounds
    have hreturn := h'.zeros_mem_responses (by omega) (by omega) hvanish hbounds'
      (by rw [h'.byteLimit_announce, hlength, hl]; exact hbudget)
    rw [hlength] at hreturn
    have hstream : enc.HonestStream false dconfig
        (collisionArrivals config.symbolSize.toNat enc.inner.params.k) :=
      h'.honestStream_collision (by omega) (by omega) hvanish
    exact hne (hsound payload enc hlength hnew false _ hstream.emits hstream.distinct _
      hreturn).symm
  · intro hcase payload enc hlength hnew withHash arrivals hemits _ p hp
    subst hlength
    have h := encoderOf_of_new hnew
    obtain ⟨before, a, after, rfl, hreturn⟩ := (mem_responses blake3).mp hp
    refine h.eq_of_receive (h.honestBuffer_feed (EncoderOf.honestBuffer_new ..) fun b hb =>
      hemits b (mem_append_left _ hb)) (hemits a (by simp)) ?_ hreturn
    by_cases hsmall : enc.inner.params.k ≤ 18
    · have hl : enc.inner.params.l = (smallRow enc.inner.params.k).l := by
        rw [← h.row_eq hsmall]
        rfl
      rw [hl, h.k_eq, h.withinBounds_iff, h.byteLimit_announce]
      exact hcase
    · exact .inr (.inl (by omega))

/-- A configuration with symbols of eight bytes and many repair symbols. -/
def repairConfig : RaptorQConfig := ⟨8, 65535, 80, 30000000000⟩

/-- A payload of ten symbols, of which the first two are not zero. -/
def tenSymbols : List UInt8 := [45, 0, 0, 0, 0, 0, 0, 0, 55] ++ replicate 71 0

/-- BLAKE3 on the payload of ten symbols. -/
def blake3OfTenSymbols (_ : List UInt8) : Bytes 32 :=
  ⟨[142,14,144,161,19,248,79,132,248,210,83,232,1,16,12,73,248,10,98,119,174,54,
    226,69,52,183,108,210,250,91,252,228], rfl⟩

/-- Without a hash, eight source symbols and two repair symbols of a payload that is not zero make
the decoder return zeros. -/
theorem zeros_returned_for_tenSymbols : ∃ enc,
    RaptorQEncoder.new blake3OfTenSymbols tenSymbols repairConfig = .ok enc ∧
    (∀ a ∈ collisionArrivals 8 10, enc.Emits a) ∧
    ((collisionArrivals 8 10).map Arrival.esi).Nodup ∧
    .ok (some (replicate 80 0)) ∈ (RaptorQDecoder.new (enc.announce false)
      repairConfig).responses blake3OfTenSymbols (collisionArrivals 8 10) ∧
    replicate 80 0 ≠ tenSymbols := by
  obtain ⟨enc, hnew, h⟩ : ∃ enc, RaptorQEncoder.new blake3OfTenSymbols tenSymbols repairConfig =
      .ok enc ∧ enc.EncoderOf blake3OfTenSymbols tenSymbols :=
    exists_new (by decide) (by decide) (by decide) (by decide)
  have hk : enc.inner.params.k = 10 := h.k_eq
  have hzero := h.symbolValue_of_collision (by omega) (by omega) (by
    rw [hk]
    decide +kernel)
  have hstream : enc.HonestStream false repairConfig (collisionArrivals 8 enc.inner.params.k) :=
    h.honestStream_collision (by omega) (by omega) hzero
  have hl : enc.inner.params.l = 27 := by
    have hrow := h.row_eq (by omega)
    rw [hk] at hrow
    exact congrArg IndexRow.l hrow
  have hreturn := h.zeros_mem_responses (by omega) (by omega) hzero h.withinBounds_announce (by
    rw [hl, h.byteLimit_announce]
    decide +kernel)
  rw [hk] at hstream hreturn
  exact ⟨enc, hnew, hstream.emits, hstream.distinct, hreturn, by decide⟩

/-- Payloads of one symbol are always returned as they were encoded. -/
theorem single_symbol_sound : divCeil 1 8 = 1 ∧
    ∀ (payload : List UInt8) (enc : RaptorQEncoder repairConfig), payload.length = 1 →
      RaptorQEncoder.new blake3OfTenSymbols payload repairConfig = .ok enc →
      ∀ (withHash : Bool) (arrivals : List Arrival), (∀ a ∈ arrivals, enc.Emits a) →
        (arrivals.map Arrival.esi).Nodup → ∀ p,
          .ok (some p) ∈ (RaptorQDecoder.new (enc.announce withHash) repairConfig).responses
            blake3OfTenSymbols arrivals → p = payload :=
  ⟨by decide, (reconstruction_sound_iff blake3OfTenSymbols repairConfig repairConfig (by decide)
    (by decide) (by decide) (by decide)).mpr (.inl (by decide))⟩

end RaptorQEncoder

end Flywheel.Raptorq
