import Flywheel.Raptorq.Reconstruct

/-!
# What the emitted symbols say about the payload

Some emitted symbols determine the codeword exactly if no other payload of the same length has the
same symbols at these indices. In one direction two payloads are compared byte by byte; in the other
a codeword that vanishes at the indices is added to the first byte of every source symbol.
-/

namespace Flywheel.Raptorq

open Flywheel.Data

section Bytes

variable {T : ℕ}

def byteAt (b : Fin T) : Symbol T →ₗ[Gf256] Gf256 where
  toFun sym := sym.get b
  map_add' v w := get_vectorAdd v w b
  map_smul' c v := get_vectorSMul c v b

/-- The symbol with a value in its first byte and zeros after it. -/
def firstByte (T : ℕ) : Gf256 →ₗ[Gf256] Symbol T where
  toFun a := List.Vector.ofFn fun b => if (b : ℕ) = 0 then a else 0
  map_add' v w := by
    ext b
    by_cases hb : (b : ℕ) = 0 <;> simp [hb]
  map_smul' c v := by
    ext b
    by_cases hb : (b : ℕ) = 0 <;> simp [hb]

theorem get_firstByte (a : Gf256) (b : Fin T) :
    (firstByte T a).get b = if (b : ℕ) = 0 then a else 0 :=
  List.Vector.get_ofFn _ b

/-- The payload with a value added to the first byte of every source symbol. -/
def perturb (T : ℕ) (z : ℕ → Gf256) (payload : List UInt8) : List UInt8 :=
  payload.mapIdx fun n byte => if n % T = 0 then byte ^^^ (z (n / T)).raw else byte

@[simp] theorem length_perturb (z : ℕ → Gf256) (payload : List UInt8) :
    (perturb T z payload).length = payload.length :=
  List.length_mapIdx

theorem paddedChunk_perturb (hT : 0 < T) (z : ℕ → Gf256) {payload : List UInt8} {i : ℕ}
    (hi : i < divCeil payload.length T) :
    paddedChunk T (perturb T z payload) i = paddedChunk T payload i + firstByte T (z i) := by
  have hstart := lt_of_lt_divCeil hT hi
  ext b
  have hb := b.isLt
  have hmod : (i * T + b) % T = b := Nat.mul_add_mod_of_lt hb
  have hdiv : (i * T + b) / T = i := by
    rw [Nat.mul_comm, Nat.mul_add_div hT, Nat.div_eq_of_lt hb, Nat.add_zero]
  rw [get_vectorAdd, get_firstByte]
  simp only [paddedChunk, List.Vector.get_ofFn]
  by_cases hin : i * T + b < payload.length
  · rw [List.getD_eq_getElem _ _ (by rwa [length_perturb]), List.getD_eq_getElem _ _ hin]
    simp only [perturb, List.getElem_mapIdx, hmod, hdiv]
    split_ifs
    · rfl
    · rw [add_zero]
  · rw [List.getD_eq_default _ _ (by rw [length_perturb]; omega),
      List.getD_eq_default _ _ (by omega), if_neg (by omega), add_zero]

end Bytes

namespace RaptorQEncoder.EncoderOf

variable {blake3 : List UInt8 → Bytes 32} {config : RaptorQConfig} {payload payload' : List UInt8}
  {enc enc' : RaptorQEncoder config}

section

variable (h : enc.EncoderOf blake3 payload) (h' : enc'.EncoderOf blake3 payload')
  (hlength : payload'.length = payload.length)
include h h' hlength

theorem params_eq_of_length : enc'.inner.params = enc.inner.params := by
  have hparams := h'.inner.params_eq
  rw [length_sourceChunks, hlength, ← length_sourceChunks, h.inner.params_eq] at hparams
  exact (Except.ok.inj hparams).symm

theorem payload_ext
    (hsymbols : ∀ c < enc.inner.params.k, enc'.symbols c = enc.symbols c) : payload' = payload := by
  have hflat : (List.range enc.inner.params.k).flatMap (fun c => Symbol.bytes (enc'.symbols c)) =
      (List.range enc.inner.params.k).flatMap fun c => Symbol.bytes (enc.symbols c) :=
    List.flatMap_congr fun c hc => by rw [hsymbols c (List.mem_range.mp hc)]
  have hpayload := h'.payload_eq
  rw [h.params_eq_of_length h' hlength, hlength, hflat, h.payload_eq] at hpayload
  exact hpayload.symm

end

/-- A codeword that vanishes at some indices gives another payload with the same symbols there. -/
theorem exists_other_payload (h : enc.EncoderOf blake3 payload) {esis : List UInt32}
    (hdetermines : ¬ RaptorQDecoder.Determines enc.inner.params esis) :
    ∃ payload' enc', RaptorQEncoder.new blake3 payload' config = .ok enc' ∧
      enc'.EncoderOf blake3 payload' ∧ payload'.length = payload.length ∧ payload' ≠ payload ∧
      ∀ e ∈ esis, symbolValue enc.inner.params enc'.symbols e =
        symbolValue enc.inner.params enc.symbols e := by
  obtain ⟨z, hz, hzero, c, hc, hne⟩ : ∃ z : ℕ → Gf256, Codeword enc.inner.params z ∧
      (∀ e ∈ esis, symbolValue enc.inner.params z e = 0) ∧ ∃ c < enc.inner.params.k, z c ≠ 0 := by
    by_contra hnone
    refine hdetermines fun z hz hzero c hc => ?_
    by_contra hne
    exact hnone ⟨z, hz, hzero, c, hc, hne⟩
  have hlength : (perturb config.symbolSize.toNat z payload).length = payload.length :=
    length_perturb z payload
  obtain ⟨enc', hnew, h'⟩ : ∃ enc',
      RaptorQEncoder.new blake3 (perturb config.symbolSize.toNat z payload) config = .ok enc' ∧
        enc'.EncoderOf blake3 (perturb config.symbolSize.toNat z payload) := by
    refine exists_new ?_ ?_ h.size_pos ?_
    · rw [← List.length_pos_iff, hlength]
      exact List.length_pos_iff.mpr h.payload_ne
    · rw [hlength]
      exact h.length_le
    · rw [hlength]
      exact h.block_le
  have hcode := h'.codeword
  rw [h.params_eq_of_length h' hlength] at hcode
  have hsource : ∀ c < enc.inner.params.k,
      enc'.symbols c = enc.symbols c + firstByte config.symbolSize.toNat (z c) := by
    intro c hc
    have hc' := hc
    rw [h.k_eq] at hc'
    rw [h.symbols_of_lt hc, h'.symbols_of_lt (by rwa [h.params_eq_of_length h' hlength])]
    exact paddedChunk_perturb h.size_pos z hc'
  refine ⟨_, enc', hnew, h', hlength, fun heq => hne ?_, fun e he => ?_⟩
  · have hchunk := hsource c hc
    rw [h.symbols_of_lt hc, h'.symbols_of_lt (by rwa [h.params_eq_of_length h' hlength]), heq,
      left_eq_add] at hchunk
    have hbyte := congrArg (fun sym => List.Vector.get sym ⟨0, h.size_pos⟩) hchunk
    rwa [get_firstByte, get_vectorZero] at hbyte
  · have hsum := symbolValue_congr (fun c hc => hcode.ext
      (h.codeword.add (hz.map (firstByte config.symbolSize.toNat))) hsource hc) e
    rw [hsum, symbolValue_add, ← map_symbolValue, hzero e he, map_zero, add_zero]

end RaptorQEncoder.EncoderOf

end Flywheel.Raptorq
