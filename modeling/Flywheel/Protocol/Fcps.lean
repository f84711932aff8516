import Flywheel.Data.Bytes

/-!
# FCPS frames

The symbol-plane frame codec of `fcp-protocol`: a fixed header of 114 bytes
followed by symbol records of equal size. Encoding and the two decoders, the
owning one and the zero-copy one, are modelled check by check with their errors.
-/

namespace Flywheel.Protocol

open Data

/-- `FCPS_MAGIC`, the bytes of "FCPS". -/
def fcpsMagic : Bytes 4 := ⟨[0x46, 0x43, 0x50, 0x53], rfl⟩

def fcpsVersion : UInt16 := 1

def fcpsHeaderLen : ℕ := 114

/-- `SYMBOL_RECORD_OVERHEAD`: encoding symbol id, source count and tag. -/
def symbolRecordOverhead : ℕ := 22

/-- `usize::MAX` on the 64-bit targets the mesh runs on. -/
def usizeMax : ℕ := 2 ^ 64 - 1

def checkedAdd (a b : ℕ) : Option ℕ := if a + b ≤ usizeMax then some (a + b) else none

def checkedMul (a b : ℕ) : Option ℕ := if a * b ≤ usizeMax then some (a * b) else none

/-- The `bitflags` set over `u16`. Any bit pattern can be retained in a value. -/
structure FrameFlags where
  bits : UInt16
  deriving DecidableEq

namespace FrameFlags

def response : FrameFlags := ⟨0b0000_0000_1000⟩

def error : FrameFlags := ⟨0b0000_0001_0000⟩

def streaming : FrameFlags := ⟨0b0000_0010_0000⟩

def streamEnd : FrameFlags := ⟨0b0000_0100_0000⟩

/-- `FrameFlags::all`, the union of the twelve declared flags. -/
def all : FrameFlags := ⟨0b1111_1111_1111⟩

def contains (flags other : FrameFlags) : Bool := flags.bits &&& other.bits == other.bits

/-- `FrameFlags::from_bits`, which refuses bits outside `all`. -/
def fromBits (bits : UInt16) : Option FrameFlags :=
  if bits &&& ~~~all.bits = 0 then some ⟨bits⟩ else none

end FrameFlags

/-- The format `{:04x}` of a 16-bit word. -/
def hex4 (n : UInt16) : String :=
  let digits := Nat.toDigits 16 n.toNat
  String.ofList (List.replicate (4 - digits.length) '0' ++ digits)

/-- The errors of frame parsing that the frame codec can raise. -/
inductive FrameError
  | tooShort (len min : ℕ)
  | exceedsMtu (len max : ℕ)
  | invalidMagic (got : Bytes 4)
  | unsupportedVersion (version : UInt16)
  | lengthMismatch (claimed computed : ℕ)
  | frameSizeMismatch
  | symbolCountOverflow
  | invalidSymbolSize
  | invalidFlags (reason : String)
  deriving DecidableEq

@[ext] structure FcpsFrameHeader where
  version : UInt16
  flags : FrameFlags
  symbolCount : UInt32
  totalPayloadLen : UInt32
  objectId : Bytes 32
  symbolSize : UInt16
  zoneKeyId : Bytes 8
  zoneIdHash : Bytes 32
  epochId : UInt64
  senderInstanceId : UInt64
  frameSeq : UInt64
  deriving DecidableEq

/-- `FcpsFrameHeader::encode`. The source fills twelve consecutive ranges of a
buffer of 114 bytes, which is the concatenation of the fields. -/
def FcpsFrameHeader.encode (h : FcpsFrameHeader) : List UInt8 :=
  fcpsMagic.toList ++ (leBytes 2 h.version.toNat ++ (leBytes 2 h.flags.bits.toNat ++
    (leBytes 4 h.symbolCount.toNat ++ (leBytes 4 h.totalPayloadLen.toNat ++
    (h.objectId.toList ++ (leBytes 2 h.symbolSize.toNat ++ (h.zoneKeyId.toList ++
    (h.zoneIdHash.toList ++ (leBytes 8 h.epochId.toNat ++
    (leBytes 8 h.senderInstanceId.toNat ++ leBytes 8 h.frameSeq.toNat))))))))))

variable (bytes : List UInt8)

def FcpsFrameHeader.decode : Except FrameError FcpsFrameHeader :=
  if bytes.length < fcpsHeaderLen then .error (.tooShort bytes.length fcpsHeaderLen)
  else
    let magic := arrayOf 4 (slice bytes 0 4)
    if magic ≠ fcpsMagic then .error (.invalidMagic magic)
    else
      let version := UInt16.ofNat (leNat (slice bytes 4 2))
      if version ≠ fcpsVersion then .error (.unsupportedVersion version)
      else
        let flagsBits := UInt16.ofNat (leNat (slice bytes 6 2))
        match FrameFlags.fromBits flagsBits with
        | none => .error (.invalidFlags ("unknown flag bits 0x" ++ hex4 flagsBits ++
            " outside known mask 0x" ++ hex4 FrameFlags.all.bits))
        | some flags =>
          if flags.contains .error && flags.contains .response then
            .error (.invalidFlags "ERROR and RESPONSE are mutually exclusive")
          else if flags.contains .streamEnd && !flags.contains .streaming then
            .error (.invalidFlags "STREAM_END requires STREAMING to be set")
          else
            let symbolSize := UInt16.ofNat (leNat (slice bytes 48 2))
            if symbolSize = 0 then .error .invalidSymbolSize
            else .ok {
              version, flags
              symbolCount := UInt32.ofNat (leNat (slice bytes 8 4))
              totalPayloadLen := UInt32.ofNat (leNat (slice bytes 12 4))
              objectId := arrayOf 32 (slice bytes 16 32)
              symbolSize
              zoneKeyId := arrayOf 8 (slice bytes 50 8)
              zoneIdHash := arrayOf 32 (slice bytes 58 32)
              epochId := UInt64.ofNat (leNat (slice bytes 90 8))
              senderInstanceId := UInt64.ofNat (leNat (slice bytes 98 8))
              frameSeq := UInt64.ofNat (leNat (slice bytes 106 8)) }

@[ext] structure SymbolRecord where
  esi : UInt32
  /-- Total source symbols needed. -/
  k : UInt16
  data : List UInt8
  authTag : Bytes 16
  deriving DecidableEq

def SymbolRecord.wireSize (r : SymbolRecord) : ℕ := symbolRecordOverhead + r.data.length

/-- `SymbolRecord::encode`, and what `encode_to` appends to a buffer. -/
def SymbolRecord.encode (r : SymbolRecord) : List UInt8 :=
  leBytes 4 r.esi.toNat ++ (leBytes 2 r.k.toNat ++ (r.data ++ r.authTag.toList))

/-- `SymbolRecord::decode`. The conversions of the first six bytes to arrays
cannot fail, since those slices have the arrays' lengths. -/
def SymbolRecord.decode (symbolSize : UInt16) : Except FrameError SymbolRecord :=
  let expectedLen := symbolRecordOverhead + symbolSize.toNat
  if bytes.length < expectedLen then .error (.tooShort bytes.length expectedLen)
  else
    let dataEnd := 6 + symbolSize.toNat
    .ok {
      esi := UInt32.ofNat (leNat (slice bytes 0 4))
      k := UInt16.ofNat (leNat (slice bytes 4 2))
      data := slice bytes 6 (dataEnd - 6)
      authTag := arrayOf 16 (slice bytes dataEnd 16) }

/-- `SymbolRecordRef`, whose data is borrowed from the frame buffer. -/
structure SymbolRecordRef where
  esi : UInt32
  /-- Source block length. -/
  k : UInt16
  /-- Start of the borrowed data in the buffer handed to the decoder. -/
  dataStart : ℕ
  dataLen : ℕ
  buffer : List UInt8
  authTag : Bytes 16

def SymbolRecordRef.decode (symbolSize : UInt16) : Except FrameError SymbolRecordRef :=
  let expectedLen := symbolRecordOverhead + symbolSize.toNat
  if bytes.length < expectedLen then .error (.tooShort bytes.length expectedLen)
  else
    let dataEnd := 6 + symbolSize.toNat
    .ok {
      esi := UInt32.ofNat (leNat (slice bytes 0 4))
      k := UInt16.ofNat (leNat (slice bytes 4 2))
      dataStart := 6
      dataLen := dataEnd - 6
      buffer := bytes
      authTag := arrayOf 16 (slice bytes dataEnd 16) }

/-- `SymbolRecordRef::to_owned`, which copies the borrowed data. -/
def SymbolRecordRef.toOwned (r : SymbolRecordRef) : SymbolRecord where
  esi := r.esi
  k := r.k
  data := slice r.buffer r.dataStart r.dataLen
  authTag := r.authTag

@[ext] structure FcpsFrame where
  header : FcpsFrameHeader
  symbols : List SymbolRecord
  deriving DecidableEq

def FcpsFrame.encode (f : FcpsFrame) : Except FrameError (List UInt8) :=
  let headerBytes := f.header.encode
  let payloadLen := (f.symbols.map SymbolRecord.wireSize).sum
  if f.header.totalPayloadLen.toNat ≠ payloadLen then
    .error (.lengthMismatch f.header.totalPayloadLen.toNat payloadLen)
  else .ok (f.symbols.foldl (fun buf symbol => buf ++ symbol.encode) headerBytes)

def validateFrameLengths (header : FcpsFrameHeader) : Except FrameError Unit :=
  match checkedAdd symbolRecordOverhead header.symbolSize.toNat with
  | none => .error .symbolCountOverflow
  | some recordSize =>
    match checkedMul header.symbolCount.toNat recordSize with
    | none => .error .symbolCountOverflow
    | some expectedPayload =>
      if header.totalPayloadLen.toNat ≠ expectedPayload then
        .error (.lengthMismatch header.totalPayloadLen.toNat expectedPayload)
      else
        match checkedAdd fcpsHeaderLen expectedPayload with
        | none => .error .symbolCountOverflow
        | some expectedTotal =>
          if bytes.length ≠ expectedTotal then .error .frameSizeMismatch else .ok ()

/-- The record loop of `FcpsFrame::decode`: `count` records from `offset` on. -/
def FcpsFrame.decodeSymbols (bytes : List UInt8) (symbolSize : UInt16) (recordSize : ℕ) :
    ℕ → ℕ → Except FrameError (List SymbolRecord)
  | 0, _ => .ok []
  | count + 1, offset =>
    match SymbolRecord.decode (bytes.drop offset) symbolSize with
    | .error e => .error e
    | .ok record =>
      match FcpsFrame.decodeSymbols bytes symbolSize recordSize count (offset + recordSize) with
      | .error e => .error e
      | .ok records => .ok (record :: records)

def FcpsFrame.decode (maxDatagramBytes : ℕ) : Except FrameError FcpsFrame :=
  if bytes.length > maxDatagramBytes then .error (.exceedsMtu bytes.length maxDatagramBytes)
  else if bytes.length < fcpsHeaderLen then .error (.tooShort bytes.length fcpsHeaderLen)
  else
    match FcpsFrameHeader.decode bytes with
    | .error e => .error e
    | .ok header =>
      match validateFrameLengths bytes header with
      | .error e => .error e
      | .ok () =>
        match FcpsFrame.decodeSymbols bytes header.symbolSize
            (symbolRecordOverhead + header.symbolSize.toNat) header.symbolCount.toNat
            fcpsHeaderLen with
        | .error e => .error e
        | .ok symbols => .ok { header, symbols }

structure FcpsFrameRefs where
  header : FcpsFrameHeader
  symbols : List SymbolRecordRef

/-- The record loop of `FcpsFrameRefs::decode`: `count` records from `offset` on. -/
def FcpsFrameRefs.decodeSymbols (bytes : List UInt8) (symbolSize : UInt16) (recordSize : ℕ) :
    ℕ → ℕ → Except FrameError (List SymbolRecordRef)
  | 0, _ => .ok []
  | count + 1, offset =>
    match SymbolRecordRef.decode (bytes.drop offset) symbolSize with
    | .error e => .error e
    | .ok record =>
      match FcpsFrameRefs.decodeSymbols bytes symbolSize recordSize count
          (offset + recordSize) with
      | .error e => .error e
      | .ok records => .ok (record :: records)

def FcpsFrameRefs.decode (maxDatagramBytes : ℕ) : Except FrameError FcpsFrameRefs :=
  if bytes.length > maxDatagramBytes then .error (.exceedsMtu bytes.length maxDatagramBytes)
  else if bytes.length < fcpsHeaderLen then .error (.tooShort bytes.length fcpsHeaderLen)
  else
    match FcpsFrameHeader.decode bytes with
    | .error e => .error e
    | .ok header =>
      match validateFrameLengths bytes header with
      | .error e => .error e
      | .ok () =>
        match FcpsFrameRefs.decodeSymbols bytes header.symbolSize
            (symbolRecordOverhead + header.symbolSize.toNat) header.symbolCount.toNat
            fcpsHeaderLen with
        | .error e => .error e
        | .ok symbols => .ok { header, symbols }

/-- A zero-copy frame with the data of its records copied out. -/
def FcpsFrameRefs.toOwned (f : FcpsFrameRefs) : FcpsFrame where
  header := f.header
  symbols := f.symbols.map SymbolRecordRef.toOwned

end Flywheel.Protocol
