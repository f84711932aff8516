import Flywheel.Raptorq.Codewords

/-!
# What the object encoder emits

The payloads the encoder accepts, the codeword it computes for them, and the symbols it emits as
functions of that codeword. Cutting a payload into symbols and joining them again gives the payload
back.
-/

namespace Flywheel.Raptorq

open Flywheel.Data Symbol List

section Division

variable {a b : ℕ}

theorem divCeil_pos (ha : 0 < a) (hb : 0 < b) : 0 < divCeil a b :=
  Nat.div_pos (by omega) hb

theorem le_divCeil_mul (hb : 0 < b) : a ≤ divCeil a b * b := by
  have hmod := Nat.mod_lt (a + b - 1) hb
  have hdiv := Nat.div_add_mod' (a + b - 1) b
  rw [divCeil]
  omega

theorem lt_of_lt_divCeil {i : ℕ} (hb : 0 < b) (hi : i < divCeil a b) : i * b < a := by
  have hle : (i + 1) * b ≤ a + b - 1 := (Nat.le_div_iff_mul_le hb).mp hi
  have hexpand := Nat.add_one_mul i b
  omega

theorem divCeil_mono {a' : ℕ} (h : a ≤ a') : divCeil a b ≤ divCeil a' b :=
  Nat.div_le_div_right (by omega)

end Division

section Bytes

variable {T : ℕ}

@[simp] theorem length_bytes (sym : Symbol T) : (bytes sym).length = T := by
  rw [bytes, length_map, Vector.toList_length]

theorem Symbol.ofBytes_bytes (sym : Symbol T) (h : (bytes sym).length = T) :
    ofBytes (bytes sym) h = sym := by
  refine Vector.eq _ _ ?_
  change ((sym.toList.map Gf256.raw).map Gf256.mk) = sym.toList
  rw [map_map]
  exact map_id' _

theorem Symbol.bytes_ofBytes (data : List UInt8) (h : data.length = T) :
    bytes (ofBytes data h) = data := by
  change ((data.map Gf256.mk).map Gf256.raw) = data
  rw [map_map]
  exact map_id' _

theorem Symbol.bytes_injective : Function.Injective (bytes : Symbol T → List UInt8) := by
  intro v w h
  rw [← ofBytes_bytes v (length_bytes v),
    ← ofBytes_bytes w (length_bytes w)]
  congr

theorem bytes_paddedChunk (T : ℕ) (payload : List UInt8) (i : ℕ) :
    bytes (paddedChunk T payload i) =
      (range T).map fun b => payload.getD (i * T + b) 0 := by
  refine ext_getElem (by simp) fun b hb _ => ?_
  simp [bytes, paddedChunk]

theorem flatMap_paddedChunk (T : ℕ) (payload : List UInt8) (k : ℕ) :
    ((range k).flatMap fun i => bytes (paddedChunk T payload i)) =
      (range (k * T)).map fun n => payload.getD n 0 := by
  induction k with
  | zero => simp
  | succ k ih =>
    rw [range_succ, flatMap_append, ih, flatMap_singleton, bytes_paddedChunk,
      Nat.succ_mul, range_add, map_append, map_map]
    rfl

theorem take_flatMap_paddedChunk {T k : ℕ} {payload : List UInt8} (h : payload.length ≤ k * T) :
    ((range k).flatMap fun i => bytes (paddedChunk T payload i)).take payload.length =
      payload := by
  rw [flatMap_paddedChunk]
  refine ext_getElem (by simp [h]) fun n hn hn' => ?_
  simp [getElem?_eq_getElem hn']

end Bytes

namespace RaptorQEncoder

variable {blake3 : List UInt8 → Bytes 32} {config : RaptorQConfig} {payload : List UInt8}
  {enc : RaptorQEncoder config}

def symbols (enc : RaptorQEncoder config) : ℕ → Symbol config.symbolSize.toNat :=
  symbolAt enc.inner.intermediate

/-- What the encoder of a payload consists of. -/
structure EncoderOf (blake3 : List UInt8 → Bytes 32) (payload : List UInt8)
    (enc : RaptorQEncoder config) : Prop where
  payload_ne : payload ≠ []
  length_le : payload.length ≤ config.maxObjectSize.toNat
  size_pos : 0 < config.symbolSize.toNat
  block_le : divCeil payload.length config.symbolSize.toNat ≤ 56403
  source_eq : enc.sourceData = sourceChunks config.symbolSize.toNat payload
  len_eq : enc.payloadLen = payload.length
  hash_eq : enc.payloadHash = blake3 payload
  inner : enc.inner.EncoderOf (sourceChunks config.symbolSize.toNat payload)

theorem length_sourceChunks (T : ℕ) (payload : List UInt8) :
    (sourceChunks T payload).length = divCeil payload.length T := by
  rw [sourceChunks, length_map, length_range]

/-- A payload that is not empty, not too large and not cut into too many symbols is accepted. -/
theorem exists_new (hpayload : payload ≠ []) (hlength : payload.length ≤ config.maxObjectSize.toNat)
    (hsize : 0 < config.symbolSize.toNat)
    (hblock : divCeil payload.length config.symbolSize.toNat ≤ 56403) :
    ∃ enc, RaptorQEncoder.new blake3 payload config = .ok enc ∧ enc.EncoderOf blake3 payload := by
  have hzero : config.symbolSize ≠ 0 := fun h => by
    rw [h] at hsize
    exact absurd hsize (by decide)
  have hchunks : sourceChunks config.symbolSize.toNat payload ≠ [] := by
    rw [← length_pos_iff, length_sourceChunks]
    exact divCeil_pos (length_pos_iff.mpr hpayload) hsize
  obtain ⟨inner, hnew, hinner⟩ := SystematicEncoder.exists_new hchunks
    (by rw [length_sourceChunks]; exact hblock)
  refine ⟨⟨inner, sourceChunks config.symbolSize.toNat payload, payload.length, blake3 payload⟩, ?_,
    hpayload, hlength, hsize, hblock, rfl, rfl, rfl, hinner⟩
  rw [RaptorQEncoder.new, if_neg hpayload, if_neg (by omega), if_neg hzero, if_neg (by omega)]
  simp only [hnew]

theorem encoderOf_of_new (h : RaptorQEncoder.new blake3 payload config = .ok enc) :
    enc.EncoderOf blake3 payload := by
  have hcases := h
  unfold RaptorQEncoder.new at hcases
  split_ifs at hcases with hnil hlarge hzero hblock
  have hsize : 0 < config.symbolSize.toNat := Nat.pos_of_ne_zero fun h =>
    hzero (UInt16.toNat_inj.mp h)
  obtain ⟨enc', hnew, henc'⟩ : ∃ enc', RaptorQEncoder.new blake3 payload config = .ok enc' ∧
      enc'.EncoderOf blake3 payload := exists_new hnil (by omega) hsize (by omega)
  rw [hnew] at h
  rw [← Except.ok.inj h]
  exact henc'

namespace EncoderOf

variable (h : enc.EncoderOf blake3 payload)
include h

theorem k_eq : enc.inner.params.k = divCeil payload.length config.symbolSize.toNat := by
  rw [SystematicParams.k_of_tryForSourceBlock h.inner.params_eq, length_sourceChunks]

theorem codeword : Codeword enc.inner.params enc.symbols :=
  h.inner.codeword

theorem symbols_of_lt {c : ℕ} (hc : c < enc.inner.params.k) :
    enc.symbols c = paddedChunk config.symbolSize.toNat payload c := by
  rw [h.k_eq, ← length_sourceChunks] at hc
  rw [symbols, h.inner.source_eq c hc, getD_eq_getElem _ _ hc]
  simp [sourceChunks]

theorem length_sourceData : enc.sourceData.length = enc.inner.params.k := by
  rw [h.source_eq, length_sourceChunks, h.k_eq]

/-- The emitted symbols are the encoding symbols of the codeword. -/
theorem emitted_eq (esi : UInt32) :
    enc.emitted esi =
      if esi.toNat < enc.inner.params.k ∨ enc.inner.params.kPrime ≤ esi.toNat then
        some (bytes (symbolValue enc.inner.params enc.symbols esi))
      else none := by
  unfold emitted
  by_cases hsource : esi.toNat < enc.inner.params.k
  · have hlt : esi.toNat < enc.sourceData.length := by rw [h.length_sourceData]; exact hsource
    rw [dif_pos hlt, if_pos (.inl hsource), symbolValue, if_pos hsource, h.symbols_of_lt hsource]
    simp [h.source_eq, sourceChunks]
  · rw [dif_neg (by rw [h.length_sourceData]; exact hsource)]
    by_cases hrepair : enc.inner.params.kPrime ≤ esi.toNat
    · rw [if_pos hrepair, if_pos (.inr hrepair), SystematicEncoder.repairSymbol_eq _ (by omega)]
      rfl
    · rw [if_neg hrepair, if_neg (by omega)]

/-- Joining the codeword's source symbols gives the payload back. -/
theorem payload_eq :
    ((range enc.inner.params.k).flatMap fun c => bytes (enc.symbols c)).take
      payload.length = payload := by
  have hchunks : (range enc.inner.params.k).flatMap (fun c => bytes (enc.symbols c)) =
      (range enc.inner.params.k).flatMap
        fun c => bytes (paddedChunk config.symbolSize.toNat payload c) :=
    flatMap_congr fun c hc => by rw [h.symbols_of_lt (mem_range.mp hc)]
  rw [hchunks]
  refine take_flatMap_paddedChunk ?_
  rw [h.k_eq]
  exact le_divCeil_mul h.size_pos

end EncoderOf

end RaptorQEncoder

end Flywheel.Raptorq
