import Flywheel.Raptorq.Soundness

/-!
# Which honest symbols are answered with an error

An encoder's symbols, in time and not more than the buffer holds, are answered with an error in one
case only: an attempt is due, the buffered symbols leave more than one payload possible, and the
dense fallback would use more bytes than the buffered symbols may. The error then says so.
-/

namespace Flywheel.Raptorq

open Flywheel.Data RaptorQDecoder

/-- An attempt is due once the symbol of an arrival is buffered. -/
def RaptorQDecoder.AttemptDue {oti : ObjectTransmissionInformation} {config : RaptorQConfig}
    (dec : RaptorQDecoder oti config) (a : Arrival) : Prop :=
  ∃ hsize : a.data.length = oti.symbolSize.toNat,
    (dec.insert a.esi (Symbol.ofBytes a.data hsize)).shouldAttemptDecode a.esi = true

namespace RaptorQEncoder

variable {blake3 : List UInt8 → Bytes 32} {config : RaptorQConfig} {payload : List UInt8}
  {enc : RaptorQEncoder config} {withHash : Bool}

/-- Another payload of the same length has the same symbols at some indices. -/
def Ambiguous (blake3 : List UInt8 → Bytes 32) (enc : RaptorQEncoder config) (payload : List UInt8)
    (esis : List UInt32) : Prop :=
  ∃ payload' enc', RaptorQEncoder.new blake3 payload' config = .ok enc' ∧
    payload'.length = payload.length ∧ payload' ≠ payload ∧
    ∀ e ∈ esis, enc'.emitted e = enc.emitted e

/-- The bytes of the dense fallback on some number of an encoder's symbols. -/
def fallbackBytes (enc : RaptorQEncoder config) (len count : ℕ) : ℕ :=
  denseFallbackBytes (enc.inner.params.s + enc.inner.params.h + count +
    (enc.inner.params.kPrime - enc.inner.params.k)) enc.inner.params.l config.symbolSize.toNat len

namespace EncoderOf

/-- Emitted symbols leave more than one payload possible exactly if they do not determine the
codeword. -/
theorem ambiguous_iff (h : enc.EncoderOf blake3 payload) {esis : List UInt32}
    (hesis : ∀ e ∈ esis, e.toNat < enc.inner.params.k ∨ enc.inner.params.kPrime ≤ e.toNat) :
    enc.Ambiguous blake3 payload esis ↔
      ¬ Determines enc.inner.params esis := by
  constructor
  · rintro ⟨payload', enc', hnew, hlength, hne, hemitted⟩ hdetermines
    have h' := encoderOf_of_new hnew
    refine hne (h.payload_ext h' hlength fun c hc => ?_)
    have hcode := h'.codeword
    rw [h.params_eq_of_length h' hlength] at hcode
    ext b
    refine add_eq_zero_iff_eq_neg.mp
      (hdetermines _ ((hcode.map (byteAt b)).add (h.codeword.map (byteAt b))) (fun e he => ?_) c hc)
    have heq := hemitted e he
    rw [h.emitted_eq, h'.emitted_eq, h.params_eq_of_length h' hlength, if_pos (hesis e he),
      if_pos (hesis e he)] at heq
    rw [symbolValue_add, ← map_symbolValue, ← map_symbolValue,
      Symbol.bytes_injective (Option.some.inj heq), ← map_add, ← symbol_sub_eq_add, sub_self,
      map_zero]
  · intro hdetermines
    obtain ⟨payload', enc', hnew, h', hlength, hne, hvalues⟩ := h.exists_other_payload hdetermines
    refine ⟨payload', enc', hnew, hlength, hne, fun e he => ?_⟩
    rw [h.emitted_eq, h'.emitted_eq, h.params_eq_of_length h' hlength, hvalues e he]

/-- The answer of an attempt on honest symbols is an error exactly if they do not determine the
codeword and the dense fallback is beyond its budget, and it is then the error of the budget. -/
theorem error_attempt_iff (h : enc.EncoderOf blake3 payload)
    {dec : RaptorQDecoder (enc.announce withHash) config}
    (hbuffer : dec.HonestBuffer enc.inner.params enc.symbols)
    (hcount : (enc.announce withHash).k ≤ dec.received.length) (err : DecodeError) :
    (dec.attemptReconstruct blake3).1 = .error err ↔
      (¬ Determines enc.inner.params dec.esis ∧
        (enc.announce withHash).byteLimit config < dec.fallbackBytes enc.inner.params) ∧
      err = .memoryLimitExceeded (min (dec.fallbackBytes enc.inner.params) Protocol.usizeMax)
        ((enc.announce withHash).byteLimit config) := by
  have hbounds : (enc.announce withHash).WithinBounds config := h.withinBounds_announce
  rw [fst_attemptReconstruct]
  rcases h.tryReconstruct_cases hbounds hbuffer hcount with ⟨hdetermines, heq⟩ |
    ⟨hdetermines, ⟨hover, heq⟩ | ⟨hwithin, ⟨x, heq, -⟩ | heq⟩⟩ <;> rw [heq]
  · exact ⟨nofun, fun herr => absurd hdetermines herr.1.1⟩
  · exact ⟨fun herr => ⟨⟨hdetermines, hover⟩, (Except.error.inj herr).symm⟩,
      fun herr => congrArg Except.error herr.2.symm⟩
  all_goals exact ⟨nofun, fun herr => absurd herr.1.2 (Nat.not_lt.mpr hwithin)⟩

end EncoderOf

/-- A symbol of an honest stream is answered with an error exactly if an attempt is due on symbols
that leave more than one payload possible while the dense fallback is beyond its budget, and the
error is then that of the budget. -/
theorem honest_error_iff (hnew : RaptorQEncoder.new blake3 payload config = .ok enc)
    {before after : List Arrival} {a : Arrival}
    (hs : enc.HonestStream withHash config (before ++ a :: after)) (err : DecodeError) :
    (((RaptorQDecoder.new (enc.announce withHash) config).feed blake3 before).receive blake3
        a).1 = .error err ↔
      (((RaptorQDecoder.new (enc.announce withHash) config).feed blake3 before).AttemptDue a ∧
        enc.Ambiguous blake3 payload ((before ++ [a]).map Arrival.esi) ∧
        (enc.announce withHash).byteLimit config <
          enc.fallbackBytes payload.length (before.length + 1)) ∧
      err = .memoryLimitExceeded
        (min (enc.fallbackBytes payload.length (before.length + 1)) Protocol.usizeMax)
        ((enc.announce withHash).byteLimit config) := by
  have h := encoderOf_of_new hnew
  have hbounds : (enc.announce withHash).WithinBounds config := h.withinBounds_announce
  have hs' : enc.HonestStream withHash config (before ++ [a]) := by
    rw [List.append_cons] at hs
    exact hs.of_append
  have hemits := hs'.emits a (by simp)
  have hsize : a.data.length = (enc.announce withHash).symbolSize.toNat := h.length_of_emits hemits
  have haccepts : ((RaptorQDecoder.new (enc.announce withHash) config).feed blake3 before).Accepts
    a := h.accepts_of_stream hbounds hs'
  have hesis := h.esis_insert_of_stream hbounds hs' (Symbol.ofBytes a.data hsize)
  have hbuffer := h.honestBuffer_insert
    (h.honestBuffer_feed (EncoderOf.honestBuffer_new enc withHash config) hs'.of_append.emits)
    hemits hsize
  rw [receive_of_accepts haccepts, bufferSymbol_eq]
  set dec := ((RaptorQDecoder.new (enc.announce withHash) config).feed blake3 before).insert a.esi
    (Symbol.ofBytes a.data hsize)
  have hlength : dec.received.length = before.length + 1 := by
    rw [← length_esis, hesis.length_eq, List.length_map, List.length_append,
      List.length_singleton]
  have hbytes : dec.fallbackBytes enc.inner.params =
      enc.fallbackBytes payload.length (before.length + 1) := by
    rw [RaptorQDecoder.fallbackBytes, hlength, h.transferLength_announce]
    rfl
  have hambiguous : enc.Ambiguous blake3 payload ((before ++ [a]).map Arrival.esi) ↔
      ¬ Determines enc.inner.params dec.esis := by
    rw [h.ambiguous_iff fun e he => ?_]
    · exact not_congr ⟨fun hdet => hdet.mono hesis.symm.subset, fun hdet => hdet.mono hesis.subset⟩
    · obtain ⟨b, hb, rfl⟩ := List.mem_map.mp he
      exact (h.emits_iff.mp (hs'.emits b hb)).1
  by_cases hdue : dec.shouldAttemptDecode a.esi = true
  · have hcount := k_le_of_shouldAttemptDecode hdue
    rw [if_pos hdue, h.error_attempt_iff hbuffer hcount, hambiguous, hbytes]
    exact ⟨fun herr => ⟨⟨⟨hsize, hdue⟩, herr.1⟩, herr.2⟩, fun herr => ⟨herr.1.2, herr.2⟩⟩
  · rw [if_neg hdue]
    exact ⟨fun herr => (by cases herr), fun herr => absurd herr.1.1.2 hdue⟩

/-- A configuration with symbols of one byte and many repair symbols. -/
def oneByteConfig : RaptorQConfig := ⟨1, 65535, 10, 30000000000⟩

/-- A payload of ten bytes, of which the first two are not zero. -/
def tenBytes : List UInt8 := [45, 55, 0, 0, 0, 0, 0, 0, 0, 0]

/-- BLAKE3 on the payload of ten bytes. -/
def blake3OfTenBytes (_ : List UInt8) : Bytes 32 :=
  ⟨[139,27,61,131,72,235,185,39,87,223,152,169,12,134,2,47,177,53,143,70,105,
    121,42,181,202,140,12,92,9,61,180,127], rfl⟩

/-- The encoder of the payload of ten bytes, its stream and its budget. -/
theorem exists_tenBytes : ∃ enc,
    RaptorQEncoder.new blake3OfTenBytes tenBytes oneByteConfig = .ok enc ∧
    enc.EncoderOf blake3OfTenBytes tenBytes ∧ enc.inner.params.k = 10 ∧
    enc.HonestStream true oneByteConfig (collisionArrivals 1 10) ∧
    (∀ e ∈ collisionEsis enc.inner.params.k, symbolValue enc.inner.params enc.symbols e = 0) ∧
    enc.fallbackBytes 10 10 = 2549 ∧ (enc.announce true).byteLimit oneByteConfig = 1075 := by
  obtain ⟨enc, hnew, h⟩ : ∃ enc, RaptorQEncoder.new blake3OfTenBytes tenBytes oneByteConfig =
      .ok enc ∧ enc.EncoderOf blake3OfTenBytes tenBytes :=
    exists_new (by decide) (by decide) (by decide) (by decide)
  have hk : enc.inner.params.k = 10 := h.k_eq
  have hzero := h.symbolValue_of_collision (by omega) (by omega) (by
    rw [hk]
    decide +kernel)
  have hstream : enc.HonestStream true oneByteConfig (collisionArrivals 1 enc.inner.params.k) :=
    h.honestStream_collision (by omega) (by omega) hzero
  have hrow := h.row_eq (by omega)
  rw [hk] at hrow hstream
  have hkPrime : enc.inner.params.kPrime = 10 := congrArg IndexRow.kPrime hrow
  have hs : enc.inner.params.s = 7 := congrArg IndexRow.s hrow
  have hh : enc.inner.params.h = 10 := congrArg IndexRow.h hrow
  refine ⟨enc, hnew, h, hk, hstream, hzero, ?_, ?_⟩
  · rw [fallbackBytes, SystematicParams.l, hkPrime, hs, hh, hk]
    decide
  · rw [h.byteLimit_announce]
    decide +kernel

theorem ambiguous_tenBytes {enc : RaptorQEncoder oneByteConfig}
    (h : enc.EncoderOf blake3OfTenBytes tenBytes) (hk : enc.inner.params.k = 10) :
    ¬ Determines enc.inner.params (collisionEsis 10) := by
  have hnot := not_determines_collisionEsis (h.row_eq (by omega)) (by omega)
  rwa [hk] at hnot

/-- Eight source symbols and two repair symbols of one object, in time, are answered with a memory
error. -/
theorem memory_error_for_tenBytes : ∃ enc,
    RaptorQEncoder.new blake3OfTenBytes tenBytes oneByteConfig = .ok enc ∧
    enc.HonestStream true oneByteConfig (collisionArrivals 1 10) ∧
    .error (.memoryLimitExceeded 2549 1075) ∈ (RaptorQDecoder.new (enc.announce true)
      oneByteConfig).responses blake3OfTenBytes (collisionArrivals 1 10) := by
  obtain ⟨enc, hnew, h, hk, hstream, hzero, hbytes, hlimit⟩ := exists_tenBytes
  refine ⟨enc, hnew, hstream, ?_⟩
  have hbounds : (enc.announce true).WithinBounds oneByteConfig := h.withinBounds_announce
  obtain ⟨dec, hresponse, hbuffer, hesis⟩ :=
    h.exists_collision_attempt (by omega) (by omega) hzero hbounds
  rw [hk] at hresponse hesis
  have hcount : dec.received.length = 10 := by
    rw [← length_esis, hesis.length_eq, length_collisionEsis (by omega)]
  have hused : dec.fallbackBytes enc.inner.params = 2549 := by
    rw [RaptorQDecoder.fallbackBytes, hcount, h.transferLength_announce]
    exact hbytes
  have herror := (h.error_attempt_iff hbuffer (by rw [h.k_announce, hk, hcount])
    (.memoryLimitExceeded 2549 1075)).mpr ⟨⟨fun hdetermines => ambiguous_tenBytes h hk
      (hdetermines.mono hesis.subset), by rw [hused, hlimit]; decide⟩, by
        rw [hused, hlimit]
        rfl⟩
  rw [← herror]
  exact hresponse

/-- The last symbol of the stream is answered with the memory error, since it completes a set of
symbols that leaves more than one payload possible. -/
theorem tenBytes_last_call : ∃ enc,
    RaptorQEncoder.new blake3OfTenBytes tenBytes oneByteConfig = .ok enc ∧
    (((RaptorQDecoder.new (enc.announce true) oneByteConfig).feed blake3OfTenBytes
      ((collisionArrivals 1 10).take 9)).receive blake3OfTenBytes ⟨0, 61, [0]⟩).1 =
        .error (.memoryLimitExceeded 2549 1075) := by
  obtain ⟨enc, hnew, h, hk, hstream, hzero, hbytes, hlimit⟩ := exists_tenBytes
  have hsplit : collisionArrivals 1 10 = (collisionArrivals 1 10).take 9 ++ [⟨0, 61, [0]⟩] := rfl
  have hbounds : (enc.announce true).WithinBounds oneByteConfig := h.withinBounds_announce
  refine ⟨enc, hnew, ?_⟩
  rw [hsplit] at hstream
  have hcount := (h.esis_insert_of_stream hbounds hstream
    (Symbol.ofBytes [0] (rfl))).length_eq
  have hlast : ((RaptorQDecoder.new (enc.announce true) oneByteConfig).feed blake3OfTenBytes
      ((collisionArrivals 1 10).take 9)).lastAttemptedAtCount = 0 :=
    (lastAttemptedAtCount_feed (by rw [h.k_announce, hk]; decide)).1
  refine (honest_error_iff hnew hstream _).mpr ⟨⟨⟨rfl, ?_⟩, ?_, ?_⟩, ?_⟩
  · refine shouldAttemptDecode_of_first hlast ?_
    rw [h.k_announce, hk, ← length_esis]
    exact hcount.ge
  · refine (h.ambiguous_iff fun e he => ?_).mpr (ambiguous_tenBytes h hk)
    obtain ⟨b, hb, rfl⟩ := List.mem_map.mp he
    exact (h.emits_iff.mp (hstream.emits b hb)).1
  · rw [hlimit]
    exact hbytes.symm ▸ (by decide)
  · rw [hlimit]
    exact congrArg (DecodeError.memoryLimitExceeded · 1075)
      (show min (enc.fallbackBytes 10 10) Protocol.usizeMax = 2549 by rw [hbytes]; rfl).symm

end RaptorQEncoder

end Flywheel.Raptorq
