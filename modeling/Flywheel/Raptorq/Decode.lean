import Flywheel.Raptorq.Encode

/-!
# The object decoder

The decoder buffers symbols by index and tries to reconstruct the payload once it has as many as
there are source symbols, with a growing distance between the attempts. An attempt runs the
inactivation decoder and falls back to one dense elimination over all equations, within a byte
budget. The time since the decoder was created is an argument of every call.
-/

namespace Flywheel.Raptorq

open Flywheel.Data Flywheel.Protocol List

/-- `RaptorQ` decode errors. -/
inductive DecodeError
  | timeout
  | insufficientSymbols (received needed : ℕ)
  | symbolBufferExceeded (buffered limit : ℕ)
  | memoryLimitExceeded (used limit : ℕ)
  | invalidSymbol (reason : String)
  | invalidTransmissionInfo (reason : String)
  | unsupportedSourceBlockSize (requested maxSupported : ℕ)
  deriving DecidableEq

section Budgets

variable (transferLen symbolSize : ℕ)

/-- The number of symbols a decoder buffers at most. -/
def maxSymbolsWithHeadroom (repairRatioBps : UInt16) : ℕ :=
  let sourceSymbols := min (divCeil transferLen (max symbolSize 1)) u32Max
  let repairSymbols := min (sourceSymbols * repairRatioBps.toNat / 10000) u32Max
  saturatingAdd u32Max (saturatingAdd u32Max sourceSymbols repairSymbols) 1000

/-- The number of symbols a decoder buffers at most, and their bytes. -/
def maxBufferBytesForBudget (repairRatioBps : UInt16)
    (overflowLimit : ℕ) : Except DecodeError (ℕ × ℕ) :=
  let maxSymbols := maxSymbolsWithHeadroom transferLen symbolSize repairRatioBps
  match checkedMul maxSymbols (max symbolSize 1) with
  | none => .error (.memoryLimitExceeded usizeMax overflowLimit)
  | some maxBufferBytes => .ok (maxSymbols, maxBufferBytes)

/-- The bytes the dense fallback needs, or nothing if they overflow. -/
def denseFallbackRequired (totalRows l symbolSize transferLen : ℕ) : Option ℕ := do
  let denseMatrixBytes ← checkedMul (← checkedMul totalRows l) 1
  let constraintMatrixBytes ← checkedMul (← checkedMul l l) 1
  let rhsBytes ← checkedMul totalRows symbolSize
  let intermediateBytes ← checkedMul l symbolSize
  let pivotBytes ← checkedMul totalRows 8
  let boolStateBytes ← checkedAdd (← checkedMul l 1) (← checkedMul totalRows 1)
  let required ← checkedAdd denseMatrixBytes denseMatrixBytes
  let required ← checkedAdd required constraintMatrixBytes
  let required ← checkedAdd required rhsBytes
  let required ← checkedAdd required rhsBytes
  let required ← checkedAdd required intermediateBytes
  let required ← checkedAdd required pivotBytes
  let required ← checkedAdd required boolStateBytes
  let required ← checkedAdd required transferLen
  checkedAdd required symbolSize

end Budgets

namespace ObjectTransmissionInformation

/-- K, the number of source symbols of the object. -/
def k (oti : ObjectTransmissionInformation) : ℕ :=
  min (divCeil oti.transferLength.toNat (max oti.symbolSize.toNat 1)) u32Max

variable (oti : ObjectTransmissionInformation) (config : RaptorQConfig)

def validateTransmissionInfo : Except DecodeError Unit :=
  let sourceBlocks := oti.sourceBlocks
  let subBlocks := oti.subBlocks
  let alignment := oti.alignment
  if oti.symbolSize = 0 then .error (.invalidTransmissionInfo "symbol_size must be non-zero")
  else if sourceBlocks ≠ 1 then
    .error (.invalidTransmissionInfo
      s!"FCP decoder supports exactly 1 source block, got {sourceBlocks}")
  else if subBlocks ≠ 1 then
    .error (.invalidTransmissionInfo s!"FCP decoder supports exactly 1 sub-block, got {subBlocks}")
  else if alignment ≠ 8 then
    .error (.invalidTransmissionInfo
      s!"FCP decoder requires 8-byte symbol alignment, got {alignment}")
  else .ok ()

/-- Check that the object is within the configured bounds. -/
def validateDecodeBounds : Except DecodeError Unit :=
  match oti.validateTransmissionInfo with
  | .error err => .error err
  | .ok () =>
    let maxObjectSize := config.maxObjectSize.toNat
    let transferLen := oti.transferLength.toNat
    if maxObjectSize < transferLen then .error (.memoryLimitExceeded transferLen maxObjectSize)
    else
      let maxSupportedK := config.sourceSymbols maxObjectSize
      if maxSupportedK < oti.k then .error (.unsupportedSourceBlockSize oti.k maxSupportedK)
      else
        match maxBufferBytesForBudget transferLen oti.symbolSize.toNat config.repairRatioBps
            maxObjectSize with
        | .error err => .error err
        | .ok (_, requiredBufferBytes) =>
          match maxBufferBytesForBudget maxObjectSize config.symbolSize.toNat
              config.repairRatioBps maxObjectSize with
          | .error err => .error err
          | .ok (_, allowedBufferBytes) =>
            if allowedBufferBytes < requiredBufferBytes then
              .error (.memoryLimitExceeded requiredBufferBytes allowedBufferBytes)
            else .ok ()

/-- Check an incoming symbol: the object is not empty and the symbol has the symbol size. -/
def validateSymbolIngress (data : List UInt8) : Except DecodeError (Symbol oti.symbolSize.toNat) :=
  let expectedLen := oti.symbolSize.toNat
  let actualLen := data.length
  if oti.transferLength = 0 ∨ oti.k = 0 then
    .error (.invalidSymbol "zero-length source block must not receive symbols")
  else if h : actualLen = expectedLen then .ok (.ofBytes data h)
  else
    .error (.invalidSymbol
      s!"symbol size mismatch: expected {expectedLen} bytes, got {actualLen} bytes")

/-- Check that there is room for one more symbol. -/
def validateDirectBufferCapacity (buffered : ℕ) : Except DecodeError Unit :=
  match maxBufferBytesForBudget oti.transferLength.toNat oti.symbolSize.toNat
      config.repairRatioBps config.maxObjectSize.toNat with
  | .error err => .error err
  | .ok (maxSymbols, maxBufferBytes) =>
    let receivedCount := min buffered u32Max
    if maxSymbols ≤ receivedCount then .error (.symbolBufferExceeded receivedCount maxSymbols)
    else
      match checkedAdd buffered 1 with
      | none => .error (.memoryLimitExceeded usizeMax config.maxObjectSize.toNat)
      | some projectedSymbols =>
        match checkedMul projectedSymbols oti.symbolSize.toNat with
        | none => .error (.memoryLimitExceeded usizeMax maxBufferBytes)
        | some projectedMemory =>
          if maxBufferBytes < projectedMemory then
            .error (.memoryLimitExceeded projectedMemory maxBufferBytes)
          else .ok ()

/-- Check that the dense fallback stays within the bytes allowed for buffered symbols. -/
def validateDenseFallbackBudget (totalRows l : ℕ) : Except DecodeError Unit :=
  match maxBufferBytesForBudget oti.transferLength.toNat oti.symbolSize.toNat
      config.repairRatioBps config.maxObjectSize.toNat with
  | .error err => .error err
  | .ok (_, limit) =>
    match denseFallbackRequired totalRows l oti.symbolSize.toNat oti.transferLength.toNat with
    | none => .error (.memoryLimitExceeded usizeMax limit)
    | some required =>
      if limit < required then .error (.memoryLimitExceeded required limit) else .ok ()

end ObjectTransmissionInformation

section Buffer

variable {α : Type*}

/-- Insert a symbol into a buffer that is ascending by index. -/
def insertSymbol (esi : UInt32) (data : α) : List (UInt32 × α) → List (UInt32 × α)
  | [] => [(esi, data)]
  | (esi', data') :: rest =>
    if esi < esi' then (esi, data) :: (esi', data') :: rest
    else if esi = esi' then (esi, data) :: rest
    else (esi', data') :: insertSymbol esi data rest

variable {received : List (UInt32 × α)}

theorem mem_insertSymbol {esi : UInt32} {data : α}
    {p : UInt32 × α} (h : p ∈ insertSymbol esi data received) :
    p = (esi, data) ∨ p ∈ received := by
  induction received with
  | nil => exact .inl (mem_singleton.mp h)
  | cons head rest ih =>
    rw [insertSymbol] at h
    split_ifs at h
    · exact mem_cons.mp h
    · exact (mem_cons.mp h).imp_right (mem_cons_of_mem _)
    · rcases mem_cons.mp h with rfl | h
      · exact .inr (mem_cons_self ..)
      · exact (ih h).imp_right (mem_cons_of_mem _)

theorem pairwise_insertSymbol (esi : UInt32) (data : α)
    (h : received.Pairwise fun a b => a.1 < b.1) :
    (insertSymbol esi data received).Pairwise fun a b => a.1 < b.1 := by
  induction received with
  | nil => exact pairwise_singleton _ _
  | cons head rest ih =>
    rw [pairwise_cons] at h
    rw [insertSymbol]
    split_ifs with hlt heq
    · refine pairwise_cons.mpr ⟨fun p hp => ?_, pairwise_cons.mpr h⟩
      rcases mem_cons.mp hp with rfl | hp
      · exact hlt
      · exact UInt32.lt_trans hlt (h.1 p hp)
    · exact pairwise_cons.mpr ⟨fun p hp => heq ▸ h.1 p hp, h.2⟩
    · refine pairwise_cons.mpr ⟨fun p hp => ?_, ih h.2⟩
      rcases mem_insertSymbol hp with rfl | hp
      · exact UInt32.lt_of_le_of_ne (UInt32.not_lt.mp hlt) (Ne.symm heq)
      · exact h.1 p hp

end Buffer

structure RaptorQDecoder (oti : ObjectTransmissionInformation) (config : RaptorQConfig) where
  received : List (UInt32 × Symbol oti.symbolSize.toNat)
  /-- The number of symbols at the last attempt, zero before the first one. -/
  lastAttemptedAtCount : ℕ
  postKRetryStep : ℕ
  /-- No index is buffered twice, and the buffer is in their order. -/
  sorted : received.Pairwise fun a b => a.1 < b.1

namespace RaptorQDecoder

variable {oti : ObjectTransmissionInformation} {config : RaptorQConfig}

def new (oti : ObjectTransmissionInformation) (config : RaptorQConfig) :
    RaptorQDecoder oti config :=
  ⟨[], 0, 1, Pairwise.nil⟩

variable (dec : RaptorQDecoder oti config)

def receivedCount : ℕ := min dec.received.length u32Max

def needed (oti : ObjectTransmissionInformation) : ℕ :=
  max (min (oti.k + divCeil (oti.k * 2) 1000) u32Max) 1

def insert (esi : UInt32) (data : Symbol oti.symbolSize.toNat) : RaptorQDecoder oti config :=
  { dec with
    received := insertSymbol esi data dec.received
    sorted := pairwise_insertSymbol esi data dec.sorted }

/-- Whether to run an attempt for the symbol just inserted: at the first K symbols, for the first
repair symbol after that, and then by the growing distance. -/
def shouldAttemptDecode (justAddedEsi : UInt32) : Bool :=
  if dec.receivedCount < oti.k then false
  else if dec.lastAttemptedAtCount = 0 then true
  else if oti.k ≤ justAddedEsi.toNat ∧ dec.lastAttemptedAtCount = oti.k then true
  else saturatingAdd u32Max dec.lastAttemptedAtCount dec.postKRetryStep ≤ dec.receivedCount

variable (params : SystematicParams)

/-- The equations of an attempt: the constraint rows, the received symbols, and the zero symbols of
the padding. -/
def equationSymbols : List (ReceivedSymbol oti.symbolSize.toNat) :=
  constraintSymbols params ++
    dec.received.map (fun p =>
      if p.1.toNat < oti.k then .source p.1 p.2
      else .repair p.1 (params.rfcRepairEquation p.1) p.2) ++
    (range (params.kPrime - oti.k)).map fun i => .source (UInt32.ofNat (oti.k + i)) 0

/-- The payload of the intermediate symbols: the source symbols, cut to the object's length. -/
def payloadOf {params : SystematicParams} (oti : ObjectTransmissionInformation)
    (intermediate : List.Vector (Symbol oti.symbolSize.toNat) params.l) : List UInt8 :=
  ((range oti.k).flatMap fun c => (symbolAt intermediate c).bytes).take
    oti.transferLength.toNat

/-- The rows of the dense system, as the entries that are set and the right-hand side: the
constraint rows, the received source symbols, the padding and the received repair symbols. -/
def denseEquations : List (List (ℕ × Gf256) × Symbol oti.symbolSize.toNat) :=
  let constraints := ConstraintMatrix.build params
  (range (params.s + params.h)).map (fun r =>
      ((range params.l).map (fun c => (c, constraints.get r c)), 0)) ++
    (dec.received.filter fun p => p.1.toNat < oti.k).map (fun p => ([(p.1.toNat, 1)], p.2)) ++
    (range (params.kPrime - oti.k)).map (fun i => ([(oti.k + i, 1)], 0)) ++
    (dec.received.filter fun p => oti.k ≤ p.1.toNat).map (fun p =>
      let (columns, coefficients) := params.rfcRepairEquation p.1
      (columns.zip coefficients, p.2))

/-- A row of the dense matrix after its entries were set, the later ones over the earlier ones. -/
def setRow (l : ℕ) (terms : List (ℕ × Gf256)) : List.Vector Gf256 l :=
  terms.foldl (fun row t => if h : t.1 < l then row.set ⟨t.1, h⟩ t.2 else row)
    (List.Vector.replicate l 0)

def denseMatrix : ConstraintMatrix (dec.denseEquations params).length params.l :=
  ⟨⟨(dec.denseEquations params).map fun row => setRow params.l row.1, length_map _⟩⟩

/-- The right-hand sides of the dense system. -/
def denseRhs : List.Vector (Symbol oti.symbolSize.toNat) (dec.denseEquations params).length :=
  ⟨(dec.denseEquations params).map Prod.snd, length_map _⟩

/-- Check a solution against the received symbols and the constraint rows. -/
def verifyDense {params : SystematicParams}
    (intermediate : List.Vector (Symbol oti.symbolSize.toNat) params.l) : Bool :=
  let constraints := ConstraintMatrix.build params
  ((dec.received.filter fun p => p.1.toNat < oti.k).all fun p =>
      symbolAt intermediate p.1.toNat = p.2) &&
    ((dec.received.filter fun p => oti.k ≤ p.1.toNat).all fun p =>
      let (columns, coefficients) := params.rfcRepairEquation p.1
      combine (symbolAt intermediate) (columns.zip coefficients) = p.2) &&
    ((range (params.s + params.h)).all fun r =>
      combine (symbolAt intermediate)
        ((range params.l).map fun c => (c, constraints.get r c)) = 0)

/-- Solve all equations by one dense elimination. -/
def tryReconstructDense : Except DecodeError (List UInt8) :=
  let insufficient := DecodeError.insufficientSymbols dec.receivedCount (needed oti)
  let totalRows := (dec.denseEquations params).length
  if totalRows < params.l then .error insufficient
  else
    match oti.validateDenseFallbackBudget config totalRows params.l with
    | .error err => .error err
    | .ok () =>
      match (dec.denseMatrix params).solve (dec.denseRhs params) with
      | none => .error insufficient
      | some intermediate =>
        if dec.verifyDense intermediate then .ok (payloadOf oti intermediate)
        else .error insufficient

/-- The decoder's error for a failure of the inactivation decoder. -/
def mapDecodeError (received needed : ℕ) : InnerError → DecodeError
  | .symbolEquationArityMismatch esi columns coefficients =>
    .invalidSymbol s!"symbol equation mismatch for ESI {esi}: {columns} columns vs {coefficients} coefficients"
  | .columnIndexOutOfRange esi column maxValid =>
    .invalidSymbol s!"symbol ESI {esi} referenced out-of-range column {column} (max valid {maxValid})"
  | .unsupportedSourceBlockSize requested maxSupported =>
    .unsupportedSourceBlockSize requested maxSupported
  | .insufficientSymbols .. => .insufficientSymbols received needed
  | .singularMatrix .. => .insufficientSymbols received needed
  | .corruptDecodedOutput .. => .insufficientSymbols received needed

variable (blake3 : List UInt8 → Bytes 32)

/-- Whether a payload has the hash the object was announced with, if any. -/
def hashMatches (oti : ObjectTransmissionInformation) (payload : List UInt8) : Bool :=
  match oti.payloadHash with
  | none => true
  | some expected => blake3 payload = expected

/-- The dense reconstruction, checked against the hash. -/
def denseFallback : Except DecodeError (List UInt8) :=
  match dec.tryReconstructDense params with
  | .error err => .error err
  | .ok payload =>
    if hashMatches blake3 oti payload then .ok payload
    else .error (.insufficientSymbols dec.receivedCount (needed oti))

/-- Reconstruct the payload from the buffered symbols of a block with these parameters. -/
def reconstructBlock : Except DecodeError (List UInt8) :=
  let k := oti.k
  let kPrime := params.kPrime
  match dec.received.find? fun p => k ≤ p.1.toNat ∧ p.1.toNat < kPrime with
  | some (esi, _) =>
    .error (.invalidSymbol s!"symbol ESI {esi} is in virtual padding range [{k}..{kPrime})")
  | none =>
    match inactivationDecode params (dec.equationSymbols params) with
    | .ok intermediate =>
      let payload := payloadOf oti intermediate
      if hashMatches blake3 oti payload then .ok payload else dec.denseFallback params blake3
    | .error err =>
      match err.failureClass with
      | .recoverable => dec.denseFallback params blake3
      | .unrecoverable => .error (mapDecodeError dec.receivedCount (needed oti) err)

/-- Attempt to reconstruct the payload from the buffered symbols. -/
def tryReconstruct : Except DecodeError (List UInt8) :=
  let transferLen := oti.transferLength.toNat
  if config.maxObjectSize.toNat < transferLen then
    .error (.memoryLimitExceeded transferLen config.maxObjectSize.toNat)
  else if oti.k = 0 ∨ oti.symbolSize = 0 then
    .error (.insufficientSymbols dec.receivedCount (needed oti))
  else
    match SystematicParams.tryForSourceBlock oti.k with
    | .error err => .error (.unsupportedSourceBlockSize err.requested err.maxSupported)
    | .ok params => dec.reconstructBlock params blake3

/-- Run an attempt; a failure for lack of symbols doubles the distance to the next one. -/
def attemptReconstruct : Except DecodeError (Option (List UInt8)) × RaptorQDecoder oti config :=
  let dec' := { dec with lastAttemptedAtCount := dec.receivedCount }
  match dec.tryReconstruct blake3 with
  | .ok payload => (.ok (some payload), dec')
  | .error (.insufficientSymbols _ _) =>
    (.ok none,
      { dec' with postKRetryStep := min (saturatingMul u32Max dec.postKRetryStep 2) 32 })
  | .error err => (.error err, dec')

/-- Buffer a symbol that passed the checks and run an attempt if one is due. -/
def bufferSymbol (esi : UInt32) (sym : Symbol oti.symbolSize.toNat) :
    Except DecodeError (Option (List UInt8)) × RaptorQDecoder oti config :=
  let dec' := dec.insert esi sym
  if dec'.receivedCount < oti.k then (.ok none, dec')
  else if dec'.shouldAttemptDecode esi then dec'.attemptReconstruct blake3
  else (.ok none, dec')

/-- Add a symbol and attempt a reconstruction. -/
def addSymbol (elapsed : ℕ) (esi : UInt32) (data : List UInt8) :
    Except DecodeError (Option (List UInt8)) × RaptorQDecoder oti config :=
  if config.decodeTimeout < elapsed then (.error .timeout, dec)
  else
    match oti.validateDecodeBounds config with
    | .error err => (.error err, dec)
    | .ok () =>
      match oti.validateSymbolIngress data with
      | .error err => (.error err, dec)
      | .ok sym =>
        match dec.received.lookup esi with
        | some existing =>
          if existing ≠ sym then
            (.error (.invalidSymbol
              s!"conflicting duplicate symbol for ESI {esi}: payload differs from previously buffered symbol"),
              dec)
          else (.ok none, dec)
        | none =>
          match oti.validateDirectBufferCapacity config dec.received.length with
          | .error err => (.error err, dec)
          | .ok () => dec.bufferSymbol blake3 esi sym

end RaptorQDecoder

end Flywheel.Raptorq
