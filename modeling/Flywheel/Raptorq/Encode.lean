import Flywheel.Raptorq.Constraints
import Flywheel.Raptorq.Inactivation

/-!
# The object encoder

A payload is cut into symbols, the last one padded with zeros, and handed to the systematic
encoder. The encoder emits the source symbols as they are and repair symbols from the extended block
size on. BLAKE3 is a parameter.
-/

namespace Flywheel.Raptorq

open Flywheel.Data Flywheel.Protocol

def divCeil (a b : ℕ) : ℕ := (a + b - 1) / b

structure RaptorQConfig where
  symbolSize : UInt16
  repairRatioBps : UInt16
  maxObjectSize : UInt32
  decodeTimeout : ℕ

namespace RaptorQConfig

/-- The number of repair symbols for a number of source symbols. -/
def repairSymbols (config : RaptorQConfig) (sourceSymbols : ℕ) : ℕ :=
  min (sourceSymbols * config.repairRatioBps.toNat / 10000) u32Max

/-- K, the number of source symbols of a payload. -/
def sourceSymbols (config : RaptorQConfig) (payloadLen : ℕ) : ℕ :=
  min (divCeil payloadLen (max config.symbolSize.toNat 1)) u32Max

end RaptorQConfig

structure ObjectTransmissionInformation where
  transferLength : UInt64
  symbolSize : UInt16
  sourceBlocks : UInt8
  subBlocks : UInt16
  alignment : UInt8
  payloadHash : Option (Bytes 32)
  deriving DecidableEq

/-- `RaptorQ` encode errors. -/
inductive EncodeError
  | payloadTooLarge (size max : ℕ)
  | emptyPayload
  | invalidConfiguration (reason : String)
  | unsupportedSourceBlockSize (requested maxSupported : ℕ)
  deriving DecidableEq

section Bytes

variable {T : ℕ}

def Symbol.bytes (sym : Symbol T) : List UInt8 := sym.toList.map Gf256.raw

def Symbol.ofBytes (data : List UInt8) (h : data.length = T) : Symbol T :=
  ⟨data.map Gf256.mk, by rw [List.length_map, h]⟩

/-- Chunk `i` of a payload, padded with zeros. -/
def paddedChunk (T : ℕ) (payload : List UInt8) (i : ℕ) : Symbol T :=
  List.Vector.ofFn fun b => ⟨payload.getD (i * T + b) 0⟩

def sourceChunks (T : ℕ) (payload : List UInt8) : List (Symbol T) :=
  (List.range (divCeil payload.length T)).map (paddedChunk T payload)

end Bytes

structure RaptorQEncoder (config : RaptorQConfig) where
  inner : SystematicEncoder config.symbolSize.toNat
  sourceData : List (Symbol config.symbolSize.toNat)
  payloadLen : ℕ
  payloadHash : Bytes 32

namespace RaptorQEncoder

variable (blake3 : List UInt8 → Bytes 32) {config : RaptorQConfig}

def new (payload : List UInt8) (config : RaptorQConfig) :
    Except EncodeError (RaptorQEncoder config) :=
  if payload = [] then .error .emptyPayload
  else if config.maxObjectSize.toNat < payload.length then
    .error (.payloadTooLarge payload.length config.maxObjectSize.toNat)
  else if config.symbolSize = 0 then
    .error (.invalidConfiguration "symbol size must be greater than 0")
  else if 56403 < divCeil payload.length config.symbolSize.toNat then
    .error (.unsupportedSourceBlockSize (divCeil payload.length config.symbolSize.toNat) 56403)
  else
    let source := sourceChunks config.symbolSize.toNat payload
    match SystematicEncoder.new source with
    | none => .error (.invalidConfiguration "systematic encoder rejected validated payload")
    | some inner => .ok ⟨inner, source, payload.length, blake3 payload⟩

variable (enc : RaptorQEncoder config)

/-- The symbol of an encoding symbol index the encoder can emit: source symbols below K, repair
symbols from K' on. -/
def emitted (esi : UInt32) : Option (List UInt8) :=
  if h : esi.toNat < enc.sourceData.length then some enc.sourceData[esi.toNat].bytes
  else if enc.inner.params.kPrime ≤ esi.toNat then some (enc.inner.repairSymbol esi).bytes
  else none

/-- All source symbols, then the configured number of repair symbols. -/
def encodeAll : List (UInt32 × List UInt8) :=
  let kPrime := enc.inner.params.kPrime
  let repairCount :=
    min (config.repairSymbols (config.sourceSymbols enc.payloadLen)) (u32Max - kPrime)
  enc.sourceData.zipIdx.map (fun p => (UInt32.ofNat p.2, p.1.bytes)) ++
    (List.range repairCount).map fun i =>
      let esi := UInt32.ofNat (saturatingAdd u32Max kPrime i)
      (esi, (enc.inner.repairSymbol esi).bytes)

/-- What the decoder is told about the encoding. -/
def transmissionInfo : ObjectTransmissionInformation :=
  ⟨UInt64.ofNat enc.payloadLen, config.symbolSize, 1, 1, 8, some enc.payloadHash⟩

end RaptorQEncoder

end Flywheel.Raptorq
