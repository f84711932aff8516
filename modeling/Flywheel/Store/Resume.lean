import Flywheel.Core.CanonicalCbor
import Flywheel.Core.Ids
import Flywheel.Raptorq.Schedule

/-!
# Resuming a process snapshot on another node

The resume handshake of `fcp-store`: a source announces the hash of a snapshot manifest, the target
acknowledges it, and the source streams the manifest as RaptorQ symbols. The target checks the
transcript and hands its symbols to a decoder until the decoder returns the manifest. CBOR, the
serde implementation of the identity and BLAKE3 are parameters.

The decoder makes attempts at growing distances, for a stream that goes on. A transcript does not:
the symbols after the last attempt are buffered and never used.
-/

namespace Flywheel.Store

open Flywheel.Core Flywheel.Data Flywheel.Raptorq RaptorQEncoder RaptorQDecoder
  SystematicParams Arrival List
open Std (ExtTreeMap)

/-! ### Messages -/

inductive SnapshotFreshness
  | fresh
  | stale
  | unknown
  deriving DecidableEq

inductive CapabilityAvailability
  | available
  | missing
  | revoked
  | expired
  deriving DecidableEq

structure ResumeReplayOp where
  opId : String
  effectHash : Bytes 32

inductive ResumeHandshakeError
  | serialization (error : SerializationError)
  | decode (error : Raptorq.DecodeError)
  | linkageMismatch (reason : String)
  | targetRejected (freshness : SnapshotFreshness) (capability : CapabilityAvailability)
  | timeout (elapsedMs timeoutMs : ℕ)
  | outOfOrder (reason : String)
  | replayConflict (opId : String)
  | symbolFrameMismatch (reason : String)
  | incompleteSnapshotStream
  | snapshotManifestHashMismatch (expected actual : ObjectId)

/-- `ResumeHandshakeIdentity`: what a handshake id is derived from. -/
structure ResumeHandshakeIdentity where
  sourceNode : String
  targetNode : String
  snapshotManifestHash : ObjectId
  snapshotId : ObjectId
  capabilityTokenPinned : Bytes 32
  raptorq : ObjectTransmissionInformation
  leaseFencingToken : UInt64
  startedAtMs : UInt64
  timeoutMs : UInt64
  inFlightOps : List ResumeReplayOp

/-- `ResumeHandshakeRequest`: an identity and the id that was derived from it. -/
structure ResumeHandshakeRequest extends ResumeHandshakeIdentity where
  handshakeId : ObjectId

structure ResumeTargetAck where
  handshakeId : ObjectId
  snapshotManifestHash : ObjectId
  freshness : SnapshotFreshness
  capability : CapabilityAvailability
  ackedAtMs : UInt64
  expectedRaptorq : ObjectTransmissionInformation

structure RaptorQSymbolFrame where
  objectId : ObjectId
  oti : ObjectTransmissionInformation
  esi : UInt32
  data : List UInt8

structure ResumeSnapshotSymbol where
  handshakeId : ObjectId
  snapshotManifestHash : ObjectId
  frame : RaptorQSymbolFrame
  ordinal : UInt32
  sentAtMs : UInt64

/-- `ResumeHandshakeTranscript`, up to the symbols. -/
structure ResumeHandshakeTranscript where
  request : ResumeHandshakeRequest
  ack : ResumeTargetAck
  symbols : List ResumeSnapshotSymbol

/-! ### Checks -/

/-- `replay_map`: the operations by id. -/
def replayMap (ops : List ResumeReplayOp) :
    Except ResumeHandshakeError (ExtTreeMap String (Bytes 32)) :=
  ops.foldlM (fun map op =>
    match map[op.opId]? with
    | some existing =>
      if existing ≠ op.effectHash then .error (.replayConflict op.opId)
      else .ok (map.insert op.opId op.effectHash)
    | none => .ok (map.insert op.opId op.effectHash)) ∅

/-- `canonical_replay_ops`: the operations in the order of their ids. -/
def canonicalReplayOps (ops : List ResumeReplayOp) :
    Except ResumeHandshakeError (List ResumeReplayOp) := do
  let map ← replayMap ops
  return map.toList.map fun entry => ⟨entry.1, entry.2⟩

def ensureLinkage (expectedHandshakeId expectedManifestHash actualHandshakeId
    actualManifestHash : ObjectId) (label : String) : Except ResumeHandshakeError Unit :=
  if actualHandshakeId ≠ expectedHandshakeId then
    .error (.linkageMismatch s!"{label} handshake id differs from request")
  else if actualManifestHash ≠ expectedManifestHash then
    .error (.linkageMismatch s!"{label} manifest hash differs from request")
  else .ok ()

def ensureElapsedWithinTimeout (startedAtMs observedAtMs timeoutMs : UInt64) :
    Except ResumeHandshakeError Unit :=
  if observedAtMs < startedAtMs then
    .error (.outOfOrder "handshake evidence predates the source request")
  else
    let elapsedMs := observedAtMs.toNat - startedAtMs.toNat
    if timeoutMs.toNat < elapsedMs then .error (.timeout elapsedMs timeoutMs.toNat) else .ok ()

namespace ResumeHandshakeRequest

def effectiveTimeoutMs (request : ResumeHandshakeRequest) : UInt64 :=
  if request.timeoutMs = 0 then 30000 else request.timeoutMs

variable (blake3 : List UInt8 → Bytes 32) (codec : Codec) (serde : Serde ResumeHandshakeIdentity)

def deriveHandshakeId (identity : ResumeHandshakeIdentity) : Except ResumeHandshakeError ObjectId :=
  match serialize blake3 codec serde identity
      ⟨"fcp.store", "ResumeHandshakeIdentity", "1.0.0"⟩ with
  | .error e => .error (.serialization e)
  | .ok bytes =>
    .ok (objectIdFromUnscopedBytes blake3 (utf8 "FCP-STORE-RESUME-HANDSHAKE-ID-V1" ++ bytes))

variable (request : ResumeHandshakeRequest)

/-- `identity`: the operations are put in order. -/
def identity :
    Except ResumeHandshakeError ResumeHandshakeIdentity := do
  let inFlightOps ← canonicalReplayOps request.inFlightOps
  return { request.toResumeHandshakeIdentity with inFlightOps := inFlightOps }

def validateIdentity : Except ResumeHandshakeError Unit := do
  let identity ← request.identity
  let computed ← deriveHandshakeId blake3 codec serde identity
  if computed ≠ request.handshakeId then
    throw (.linkageMismatch "request fields differ from their handshake identity")

end ResumeHandshakeRequest

open ResumeHandshakeRequest

def ResumeTargetAck.isAcceptance (ack : ResumeTargetAck) : Bool :=
  ack.freshness = .fresh && ack.capability = .available

def RaptorQSymbolFrame.hasExpectedSymbolSize (frame : RaptorQSymbolFrame) : Bool :=
  frame.data.length = frame.oti.symbolSize.toNat

namespace ResumeHandshakeTranscript

variable (blake3 : List UInt8 → Bytes 32) (codec : Codec) (serde : Serde ResumeHandshakeIdentity)
  (transcript : ResumeHandshakeTranscript)

def validatePreflight : Except ResumeHandshakeError Unit := do
  let request := transcript.request
  let ack := transcript.ack
  request.validateIdentity blake3 codec serde
  ensureLinkage request.handshakeId request.snapshotManifestHash ack.handshakeId
    ack.snapshotManifestHash "target ack"
  if ack.expectedRaptorq ≠ request.raptorq then
    throw (.linkageMismatch "target ack expected different raptorq metadata")
  ensureElapsedWithinTimeout request.startedAtMs ack.ackedAtMs request.effectiveTimeoutMs
  if ack.isAcceptance = false then throw (.targetRejected ack.freshness ack.capability)

/-- The checks of `validate_symbols` on one symbol after another. -/
def validateSymbol (request : ResumeHandshakeRequest) (previousOrdinal : Option UInt32)
    (previousSentAtMs : UInt64) (symbol : ResumeSnapshotSymbol) :
    Except ResumeHandshakeError Unit := do
  ensureLinkage request.handshakeId request.snapshotManifestHash symbol.handshakeId
    symbol.snapshotManifestHash "snapshot symbol"
  if symbol.sentAtMs < previousSentAtMs then
    throw (.outOfOrder "snapshot symbol sent before target ack or preceding symbol")
  ensureElapsedWithinTimeout request.startedAtMs symbol.sentAtMs request.effectiveTimeoutMs
  if symbol.frame.objectId ≠ request.snapshotManifestHash then
    throw (.symbolFrameMismatch "symbol object id differs from announced manifest hash")
  if symbol.frame.oti ≠ request.raptorq then
    throw (.symbolFrameMismatch "symbol OTI differs from request")
  if symbol.frame.hasExpectedSymbolSize = false then
    throw (.symbolFrameMismatch "symbol payload length differs from OTI symbol size")
  match previousOrdinal with
  | some previous =>
    if symbol.ordinal ≤ previous then
      throw (.outOfOrder "snapshot symbol ordinals must increase")
  | none => pure ()

/-- The loop of `validate_symbols`. -/
def validateSymbolsFrom (request : ResumeHandshakeRequest) (previousOrdinal : Option UInt32)
    (previousSentAtMs : UInt64) : List ResumeSnapshotSymbol → Except ResumeHandshakeError Unit
  | [] => .ok ()
  | symbol :: symbols => do
    validateSymbol request previousOrdinal previousSentAtMs symbol
    validateSymbolsFrom request (some symbol.ordinal) symbol.sentAtMs symbols

def validateSymbols : Except ResumeHandshakeError Unit :=
  if transcript.symbols.isEmpty then .error .incompleteSnapshotStream
  else validateSymbolsFrom transcript.request none transcript.ack.ackedAtMs transcript.symbols

/-- The symbols as they are handed to the decoder, each at its time since the decoder was
created. -/
def arrivals (elapsed : ℕ → ℕ) : List Arrival :=
  transcript.symbols.zipIdx.map fun p => ⟨elapsed p.2, p.1.frame.esi, p.1.frame.data⟩

def decodeSnapshotManifestBytes (config : RaptorQConfig) (elapsed : ℕ → ℕ) :
    Except ResumeHandshakeError (List UInt8) := do
  transcript.validatePreflight blake3 codec serde
  transcript.validateSymbols
  match (new transcript.request.raptorq config).drain blake3
      (transcript.arrivals elapsed) with
  | .error e => throw (.decode e)
  | .ok none => throw .incompleteSnapshotStream
  | .ok (some bytes) =>
    let actual := objectIdFromUnscopedBytes blake3 bytes
    if actual ≠ transcript.request.snapshotManifestHash then
      throw (.snapshotManifestHashMismatch transcript.request.snapshotManifestHash actual)
    return bytes

/-! ### Honest streams -/

variable {blake3 codec serde transcript} {config dconfig : RaptorQConfig} {enc : RaptorQEncoder config}
  {manifest : List UInt8} {elapsed : ℕ → ℕ}

variable (blake3 codec serde transcript) in
/-- A transcript that passes the checks and streams symbols of a manifest as its encoder emits
them. -/
structure Streams (enc : RaptorQEncoder config) (manifest : List UInt8) : Prop where
  encoder : new blake3 manifest config = .ok enc
  raptorq_eq : transcript.request.raptorq = enc.transmissionInfo
  hash_eq : transcript.request.snapshotManifestHash = objectIdFromUnscopedBytes blake3 manifest
  preflight : transcript.validatePreflight blake3 codec serde = .ok ()
  symbols : transcript.validateSymbols = .ok ()
  emitted : ∀ symbol ∈ transcript.symbols,
    enc.emitted symbol.frame.esi = some symbol.frame.data

section

variable (h : transcript.Streams blake3 codec serde enc manifest)
include h

/-- The manifest is decoded exactly if the decoder returns it. -/
theorem Streams.decode_iff :
    transcript.decodeSnapshotManifestBytes blake3 codec serde dconfig elapsed = .ok manifest ↔
      (new (enc.announce true) dconfig).drain blake3 (transcript.arrivals elapsed) =
        .ok (some manifest) := by
  have hannounce : enc.announce true = transcript.request.raptorq := h.raptorq_eq.symm
  rw [decodeSnapshotManifestBytes, h.preflight, h.symbols, hannounce]
  simp only [bind, Except.bind]
  rcases drain .. with e | _ | bytes
  · exact iff_of_false nofun nofun
  · exact iff_of_false nofun nofun
  · constructor
    · intro hok
      simp only at hok
      split_ifs at hok
      cases hok
      rfl
    · rintro ⟨⟩
      exact if_neg (not_not.mpr h.hash_eq.symm)

theorem Streams.decode_of_none (hnone : (new (enc.announce true) dconfig).drain blake3
      (transcript.arrivals elapsed) = .ok none) :
    transcript.decodeSnapshotManifestBytes blake3 codec serde dconfig elapsed =
      .error .incompleteSnapshotStream := by
  have hannounce : enc.announce true = transcript.request.raptorq := h.raptorq_eq.symm
  rw [hannounce] at hnone
  rw [decodeSnapshotManifestBytes, h.preflight, h.symbols, hnone]
  rfl

theorem Streams.emits : ∀ a ∈ transcript.arrivals elapsed, enc.Emits a := by
  intro a ha
  obtain ⟨⟨symbol, i⟩, hmem, rfl⟩ := mem_map.mp ha
  exact h.emitted symbol (fst_mem_of_mem_zipIdx hmem)

end

/-- A request for a manifest, with an id of its own. -/
def requestFor (enc : RaptorQEncoder config) (manifestHash handshakeId : ObjectId) :
    ResumeHandshakeRequest where
  sourceNode := "source-node"
  targetNode := "target-node"
  snapshotManifestHash := manifestHash
  snapshotId := List.Vector.replicate 32 0
  capabilityTokenPinned := List.Vector.replicate 32 0
  raptorq := enc.transmissionInfo
  leaseFencingToken := 77
  startedAtMs := 1000
  timeoutMs := 0
  inFlightOps := []
  handshakeId := handshakeId

variable (request : ResumeHandshakeRequest)

/-- A symbol of the stream for a request. -/
def symbolFor (enc : RaptorQEncoder config)
    (esi : UInt32) (ordinal : ℕ) : ResumeSnapshotSymbol where
  handshakeId := request.handshakeId
  snapshotManifestHash := request.snapshotManifestHash
  frame := ⟨request.snapshotManifestHash, request.raptorq, esi, (enc.emitted esi).getD []⟩
  ordinal := UInt32.ofNat ordinal
  sentAtMs := 1010

/-- A transcript that streams some symbols for a request. -/
def transcriptFor (enc : RaptorQEncoder config)
    (esis : List UInt32) : ResumeHandshakeTranscript where
  request := request
  ack := ⟨request.handshakeId, request.snapshotManifestHash, .fresh, .available, 1005,
    request.raptorq⟩
  symbols := esis.zipIdx.map fun p => symbolFor request enc p.1 p.2

variable {esis : List UInt32}

/-- The symbols of such a transcript are valid. -/
theorem validateSymbolsFrom_map {request : ResumeHandshakeRequest}
    (hstart : request.startedAtMs = 1000) (htimeout : request.timeoutMs = 0)
    (h : enc.EncoderOf blake3 manifest) (hraptorq : request.raptorq = enc.transmissionInfo)
    (hesis : ∀ e ∈ esis, (enc.emitted e).isSome = true) {n : ℕ}
    (hlength : n + esis.length ≤ 2 ^ 32) {previous : Option UInt32} {previousSentAtMs : UInt64}
    (hprevious : ∀ ordinal, previous = some ordinal → ordinal.toNat < n)
    (hsent : previousSentAtMs ≤ 1010) :
    validateSymbolsFrom request previous previousSentAtMs
      ((esis.zipIdx n).map fun p => symbolFor request enc p.1 p.2) = .ok () := by
  induction esis generalizing n previous previousSentAtMs with
  | nil => rfl
  | cons e esis ih =>
    rw [length_cons] at hlength
    rw [zipIdx_cons, map_cons, validateSymbolsFrom]
    have hordinal : (UInt32.ofNat n).toNat = n := UInt32.toNat_ofNat_of_lt' (by
      change n < 2 ^ 32
      omega)
    have hvalid : validateSymbol request previous previousSentAtMs (symbolFor request enc e n) =
        .ok () := by
      obtain ⟨data, hdata⟩ := Option.isSome_iff_exists.mp (hesis e (by simp))
      have hsize : (symbolFor request enc e n).frame.hasExpectedSymbolSize = true := by
        simp only [symbolFor, RaptorQSymbolFrame.hasExpectedSymbolSize, decide_eq_true_iff, hdata,
          hraptorq]
        exact show _ = (enc.announce true).symbolSize.toNat from
          h.length_of_emits (a := ⟨0, e, data⟩) hdata
      have helapsed : ensureElapsedWithinTimeout request.startedAtMs 1010
          request.effectiveTimeoutMs = .ok () := by
        rw [effectiveTimeoutMs, hstart, htimeout]
        rfl
      have hlate : ¬ (1010) < previousSentAtMs := UInt64.not_lt.mpr hsent
      simp only [validateSymbol, hsize]
      simp only [symbolFor, ensureLinkage, hlate, helapsed, ne_eq, not_true_eq_false,
        if_false, reduceCtorEq]
      cases previous with
      | none => rfl
      | some ordinal =>
        refine if_neg fun hle => absurd (hprevious ordinal rfl) ?_
        rwa [← hordinal, Nat.not_lt]
    simp only [hvalid]
    refine ih (fun e he => hesis e (mem_cons_of_mem _ he)) (by omega) ?_
      (UInt64.le_refl _)
    rintro ordinal ⟨⟩
    change (UInt32.ofNat n).toNat < n + 1
    omega

/-- Different indices are not more than a word counts. -/
theorem length_le_of_nodup (hdistinct : esis.Nodup) : esis.length ≤ 2 ^ 32 := by
  have hle := (hdistinct.map fun _ _ => UInt32.toFin_inj.mp).length_le_card
  rwa [length_map, Fintype.card_fin] at hle

/-- A transcript for a request streams what it was made for, if its id belongs to it. -/
theorem streams_transcriptFor (hnew : new blake3 manifest config = .ok enc)
    {handshakeId : ObjectId} (hid : deriveHandshakeId blake3 codec serde
      (requestFor enc (objectIdFromUnscopedBytes blake3 manifest)
        handshakeId).toResumeHandshakeIdentity = .ok handshakeId)
    (hne : esis ≠ []) (hdistinct : esis.Nodup) (hesis : ∀ e ∈ esis, (enc.emitted e).isSome = true) :
    Streams blake3 codec serde (transcriptFor (requestFor enc
      (objectIdFromUnscopedBytes blake3 manifest) handshakeId) enc esis) enc manifest := by
  have h := encoderOf_of_new hnew
  refine ⟨hnew, rfl, rfl, ?_, ?_, ?_⟩
  · set request := requestFor enc (objectIdFromUnscopedBytes blake3 manifest) handshakeId
    have hvalid : request.validateIdentity blake3 codec serde = .ok () := by
      rw [validateIdentity, show request.identity = .ok request.toResumeHandshakeIdentity from rfl]
      simp only [bind, Except.bind, hid]
      exact if_neg (not_not.mpr rfl)
    simp only [validatePreflight, transcriptFor, hvalid, ensureLinkage, ne_eq]
    rfl
  · have hnonempty : ¬ (esis.zipIdx.map fun p => symbolFor (requestFor enc
        (objectIdFromUnscopedBytes blake3 manifest) handshakeId) enc p.1 p.2).isEmpty = true := by
      simpa using hne
    refine (if_neg hnonempty).trans ?_
    refine validateSymbolsFrom_map rfl rfl h rfl hesis ?_ nofun ?_
    · rw [Nat.zero_add]
      exact length_le_of_nodup hdistinct
    · change (1005) ≤ 1010
      decide
  · intro symbol hsymbol
    obtain ⟨⟨e, i⟩, hmem, rfl⟩ := mem_map.mp hsymbol
    obtain ⟨data, hdata⟩ := Option.isSome_iff_exists.mp
      (hesis e (fst_mem_of_mem_zipIdx hmem))
    change enc.emitted e = some ((enc.emitted e).getD [])
    rw [hdata, Option.getD_some]

theorem map_esi_transcriptFor (enc : RaptorQEncoder config) (esis : List UInt32) :
    (transcriptFor request enc esis).symbols.map (fun symbol => symbol.frame.esi) = esis :=
  (map_map ..).trans (zipIdx_map_fst 0 esis)

/-- For some CBOR codec every choice of different symbols has a transcript that streams them. -/
theorem exists_streams (hnew : new blake3 manifest config = .ok enc)
    (hne : esis ≠ []) (hdistinct : esis.Nodup) (hesis : ∀ e ∈ esis, (enc.emitted e).isSome = true) :
    ∃ codec serde transcript, Streams blake3 codec serde transcript enc manifest ∧
      transcript.symbols.map (fun symbol => symbol.frame.esi) = esis := by
  obtain ⟨codec, serde, bytes, hbytes⟩ : ∃ (codec : Codec) (serde : Serde ResumeHandshakeIdentity)
      (bytes : List UInt8), ∀ identity, serialize blake3 codec serde identity
        ⟨"fcp.store", "ResumeHandshakeIdentity", "1.0.0"⟩ = .ok bytes := by
    refine ⟨cborCodec, ⟨fun _ => some .null, fun _ _ => .error .malformed⟩,
      (SchemaId.hash blake3 ⟨"fcp.store", "ResumeHandshakeIdentity", "1.0.0"⟩).toList ++
        cborCodec.encode .null, fun identity => ?_⟩
    have hlength : (cborCodec.encode .null).length = 1 := rfl
    have hmax : ¬ maxCanonicalObjectBytes < 32 := by decide
    have hmax' : ¬ maxCanonicalObjectBytes < 32 + 1 := by decide
    simp only [serialize, writeCanonicalCbor, canonicalizeValue, Vector.toList_length,
      length_append, hlength, hmax, hmax', Nat.not_lt_zero, if_false, bind, Except.bind, pure,
      Except.pure]
  have hid : ∀ identity, deriveHandshakeId blake3 codec serde identity =
      .ok (objectIdFromUnscopedBytes blake3
        (utf8 "FCP-STORE-RESUME-HANDSHAKE-ID-V1" ++ bytes)) := by
    intro identity
    rw [deriveHandshakeId, hbytes]
  exact ⟨codec, serde, _, streams_transcriptFor hnew (hid _) hne hdistinct hesis,
    map_esi_transcriptFor ..⟩

theorem map_esi_arrivals (transcript : ResumeHandshakeTranscript) (elapsed : ℕ → ℕ) :
    (transcript.arrivals elapsed).map esi =
      transcript.symbols.map fun symbol => symbol.frame.esi := by
  conv_rhs => rw [← zipIdx_map_fst 0 transcript.symbols, map_map]
  rw [arrivals, map_map]
  rfl

variable {calls : List (ℕ × UInt32)}

/-- For every choice of a manifest of some length and of a transcript that hands over given symbols
at given times, the manifest is decoded. -/
def DecodesManifests (config dconfig : RaptorQConfig) (len : ℕ) (calls : List (ℕ × UInt32)) :
    Prop :=
  ∀ blake3 codec serde manifest, ∀ enc : RaptorQEncoder config, ∀ transcript elapsed,
    manifest.length = len →
    (∀ p, p.length = len → blake3 p = blake3 manifest → p = manifest) →
    Streams blake3 codec serde transcript enc manifest →
    (transcript.arrivals elapsed).map call = calls →
      transcript.decodeSnapshotManifestBytes blake3 codec serde dconfig elapsed = .ok manifest

theorem isSome_emitted (h : enc.EncoderOf blake3 manifest) {e : UInt32}
    (he : e.toNat < enc.inner.params.k ∨ enc.inner.params.kPrime ≤ e.toNat) :
    (enc.emitted e).isSome = true := by
  rw [h.emitted_eq, if_pos he]
  rfl

section

variable (h : transcript.Streams blake3 codec serde enc manifest)
include h

/-- The arrivals of a transcript are offered to the decoder. -/
theorem Streams.offered (hcalls : (transcript.arrivals elapsed).map call = calls)
    (hdistinct : (calls.map Prod.snd).Nodup) : enc.Offered
      (repairNext enc.inner.params.k (calls.map Prod.snd)) ([] ++ transcript.arrivals elapsed) := by
  subst hcalls
  rw [map_map] at hdistinct ⊢
  exact ⟨h.emits, hdistinct, rfl⟩

/-- A manifest is not decoded if the object is outside the bounds of the decoder. -/
theorem Streams.decode_ne_of_bounds (hne : transcript.symbols ≠ [])
    (hbounds : ¬ (config.objectInfo manifest.length).WithinBounds dconfig) :
    transcript.decodeSnapshotManifestBytes blake3 codec serde dconfig elapsed ≠ .ok manifest := by
  have henc := encoderOf_of_new h.encoder
  rw [ne_eq, h.decode_iff]
  obtain ⟨a, rest, harrivals⟩ := exists_cons_of_ne_nil (l := transcript.arrivals elapsed)
    (by simpa [arrivals] using hne)
  have hrefused : ¬ (new (enc.announce true) dconfig).Accepts a :=
    fun haccepts => hbounds (henc.withinBounds_iff.mp
      (henc.validateDecodeBounds_announce.mp haccepts.bounds))
  rcases (receive_of_not_accepts blake3 hrefused).2 with ⟨e, he⟩ | ⟨-, hmem⟩
  · rw [harrivals, drain_cons, he]
    nofun
  · cases hmem

end

/-- Given symbols of a manifest are handed over at given times by some transcript. -/
theorem exists_transcript (hnew : new blake3 manifest config = .ok enc)
    (hne : calls ≠ []) (hdistinct : (calls.map Prod.snd).Nodup) (hesis : ∀ e ∈ calls.map Prod.snd,
      e.toNat < enc.inner.params.k ∨ enc.inner.params.kPrime ≤ e.toNat) :
    ∃ codec serde transcript elapsed, Streams blake3 codec serde transcript enc manifest ∧
      (transcript.arrivals elapsed).map call = calls := by
  have henc := encoderOf_of_new hnew
  obtain ⟨codec, serde, transcript, hstreams, hsymbols⟩ := exists_streams hnew
    (by simpa using hne) hdistinct fun e he => isSome_emitted henc (hesis e he)
  have hlength : transcript.symbols.length = calls.length := by simpa using congrArg length hsymbols
  refine ⟨codec, serde, transcript, fun i => (calls.map Prod.fst).getD i 0, hstreams,
    ext_getElem (by simp [arrivals, hlength]) fun i hi hi' => ?_⟩
  have hesi : transcript.symbols[i].frame.esi = calls[i].2 := by
    have hget := congrArg (fun l => l[i]?) hsymbols
    simpa [hi', hlength] using hget
  simp [arrivals, call, hesi, hi']

/-- Every manifest of some length is decoded from given symbols exactly if the object is within the
bounds of the decoder and an attempt is reached whose symbols determine the manifest. -/
theorem decodesManifests_iff (config dconfig : RaptorQConfig) {len : ℕ} {params : SystematicParams}
    (hpos : 0 < len) (hmax : len ≤ config.maxObjectSize.toNat) (hsize : 0 < config.symbolSize.toNat)
    (hparams : tryForSourceBlock (divCeil len config.symbolSize.toNat) =
      .ok params) {calls : List (ℕ × UInt32)} (hne : calls ≠ [])
    (hdistinct : (calls.map Prod.snd).Nodup)
    (hesis : ∀ e ∈ calls.map Prod.snd, e.toNat < params.k ∨ params.kPrime ≤ e.toNat) :
    DecodesManifests config dconfig len calls ↔
      (config.objectInfo len).WithinBounds dconfig ∧
        ∃ i, Reaches params config dconfig len calls i ∧
          Determines params
            ((calls.map Prod.snd).take (attemptAt params.k (calls.map Prod.snd) i)) := by
  have hblock : divCeil len config.symbolSize.toNat ≤ 56403 := by
    rw [← k_of_tryForSourceBlock hparams]
    exact params.k_le.trans params.kPrime_le
  constructor
  · intro hdecodes
    have hparams' : ∀ {blake3} {manifest : List UInt8} {enc : RaptorQEncoder config},
        new blake3 manifest config = .ok enc → manifest.length = len →
          enc.inner.params = params := by
      rintro blake3 manifest enc hnew rfl
      exact (encoderOf_of_new hnew).params_eq hparams
    constructor
    · -- zeros of an object that the decoder refuses
      by_contra hbounds
      obtain ⟨enc, hnew, -⟩ : ∃ enc,
          new (fun p => if p = List.replicate len 0 then List.Vector.replicate 32 1
            else List.Vector.replicate 32 0) (List.replicate len 0) config = .ok enc ∧
              enc.EncoderOf _ (replicate len 0) :=
        exists_new (by simpa using hpos.ne') (by simpa using hmax) hsize (by simpa using hblock)
      have hlength := length_replicate (n := len) (a := (0 : UInt8))
      rw [← hparams' hnew hlength] at hesis
      obtain ⟨codec, serde, transcript, elapsed, hstreams, hcalls⟩ :=
        exists_transcript hnew hne hdistinct hesis
      have hsymbols : transcript.symbols ≠ [] := by
        rintro hnil
        rw [arrivals, hnil] at hcalls
        exact hne hcalls.symm
      refine hstreams.decode_ne_of_bounds hsymbols (by rwa [hlength]) (hdecodes _ codec serde _ enc
        transcript elapsed hlength (fun p _ hp => ?_) hstreams hcalls)
      by_contra hother
      rw [if_pos rfl, if_neg hother] at hp
      exact absurd hp (by decide)
    · -- a manifest that is zero at every attempt, though not everywhere
      by_contra hnone
      obtain ⟨blake3, manifest, enc, hnew, rfl, hcollision, hzeros, hvanish⟩ :=
        exists_open_payload dconfig hpos hmax hsize hblock hparams
          fun i hreach hdetermines => hnone ⟨i, hreach, hdetermines⟩
      rw [← hparams' hnew rfl] at hesis hvanish hnone
      obtain ⟨codec, serde, transcript, elapsed, hstreams, hcalls⟩ :=
        exists_transcript hnew hne hdistinct hesis
      have hdecoded := hdecodes blake3 codec serde manifest enc transcript elapsed rfl
        (fun p _ => hcollision p) hstreams hcalls
      have henc := encoderOf_of_new hstreams.encoder
      have ho := hstreams.offered hcalls hdistinct
      subst hcalls
      rw [map_map] at hnone hvanish ho
      rw [hstreams.decode_iff] at hdecoded
      rcases (Progress.new henc _).drain_of_open henc (fun heq => hzeros (hcollision _ heq)) ho
        (fun _ hmem => absurd hmem not_mem_nil) (fun _ hlt => absurd hlt (Nat.not_lt_zero _))
        (fun i _ hreach => ⟨fun hdetermines => hnone ⟨i, hreach, hdetermines⟩, hvanish i hreach⟩)
        with heq | ⟨⟨e, heq⟩, -⟩
      · cases Except.ok.inj (heq.symm.trans hdecoded)
      · cases heq.symm.trans hdecoded
  · rintro ⟨hbounds, i, hreach, hdetermines⟩ blake3 codec serde manifest enc transcript elapsed
      rfl hcollision hstreams hcalls
    have henc := encoderOf_of_new hstreams.encoder
    have ho := hstreams.offered hcalls hdistinct
    obtain rfl := henc.params_eq hparams
    subst hcalls
    rw [map_map] at hdetermines ho
    exact hstreams.decode_iff.mpr ((Progress.new henc _).drain_of_reaches henc
      (henc.withinBounds_iff.mpr hbounds) hcollision ho (Nat.zero_le i) hreach hdetermines)

open Flywheel.Data.Cbor (Value)
open RaptorQEncoder (tenSymbols repairConfig)

/-- What serde derives for an array of bytes. -/
def bytesValue (bytes : Bytes 32) : Value :=
  .array (bytes.toList.map fun b => wordValue b.toUInt64)

/-- What serde derives for the transmission information: a hash is only written if there is one. -/
def transmissionInfoValue (oti : ObjectTransmissionInformation) : Value :=
  .map ([(.text "transfer_length", wordValue oti.transferLength),
    (.text "symbol_size", wordValue oti.symbolSize.toUInt64),
    (.text "source_blocks", wordValue oti.sourceBlocks.toUInt64),
    (.text "sub_blocks", wordValue oti.subBlocks.toUInt64),
    (.text "alignment", wordValue oti.alignment.toUInt64)] ++
    (oti.payloadHash.map fun hash => (.text "payload_hash", bytesValue hash)).toList)

/-- What serde derives for an operation. -/
def replayOpValue (op : ResumeReplayOp) : Value :=
  .map [(.text "op_id", .text op.opId), (.text "effect_hash", bytesValue op.effectHash)]

/-- What serde derives for the identity of a handshake. Object ids are byte strings. -/
def identityValue (identity : ResumeHandshakeIdentity) : Value :=
  .map [(.text "source_node", .text identity.sourceNode),
    (.text "target_node", .text identity.targetNode),
    (.text "snapshot_manifest_hash", .bytes identity.snapshotManifestHash.toList),
    (.text "snapshot_id", .bytes identity.snapshotId.toList),
    (.text "capability_token_pinned", bytesValue identity.capabilityTokenPinned),
    (.text "raptorq", transmissionInfoValue identity.raptorq),
    (.text "lease_fencing_token", wordValue identity.leaseFencingToken),
    (.text "started_at_ms", wordValue identity.startedAtMs),
    (.text "timeout_ms", wordValue identity.timeoutMs),
    (.text "in_flight_ops", .array (identity.inFlightOps.map replayOpValue))]

/-- Writing an identity. Identities are never read back. -/
def identitySerde : Serde ResumeHandshakeIdentity :=
  ⟨fun identity => some (identityValue identity), fun _ _ => .error .malformed⟩

/-- BLAKE3 of the payload of ten symbols. -/
def tenSymbolsHash : Bytes 32 :=
  arrayOf 32 (beBytes 32 0x8e0e90a113f84f84f8d253e801100c49f80a6277ae36e24534b76cd2fa5bfce4)

/-- BLAKE3 of zeros of its length. -/
def zerosHash : Bytes 32 :=
  ⟨[107,162,18,170,215,246,235,78,33,108,234,242,112,119,134,57,232,28,86,
    89,56,54,2,70,164,94,31,81,207,42,175,58], rfl⟩

def tenSymbolsContentHash : Bytes 32 :=
  ⟨[103,119,220,221,95,55,119,172,216,56,70,156,192,4,69,0,46,228,139,142,
    124,227,102,87,254,59,207,81,204,210,14,156], rfl⟩

/-- Hash of the schema of the identity. -/
def identitySchemaHash : Bytes 32 :=
  ⟨[40,96,194,137,129,241,43,193,248,98,119,229,184,164,243,53,125,41,14,
    183,211,23,198,157,184,189,187,103,189,249,23,81], rfl⟩

/-- Id of the handshake that streams the payload. -/
def tenSymbolsHandshakeId : Bytes 32 :=
  ⟨[164,175,231,91,135,215,116,217,116,30,162,5,235,176,196,68,173,134,198,
    136,81,10,119,43,124,137,157,149,93,110,167,169], rfl⟩

/-- BLAKE3 on what is hashed when the payload of ten symbols is streamed. -/
def blake3OfResume (input : List UInt8) : Bytes 32 :=
  if input = tenSymbols then tenSymbolsHash
  else if input = replicate 80 0 then zerosHash
  else if input = utf8 "FCP2-CONTENT-V2" ++ tenSymbols then tenSymbolsContentHash
  else if input.take 14 = utf8 "FCP2-SCHEMA-V1" then identitySchemaHash
  else tenSymbolsHandshakeId

theorem blake3OfResume_injective (p : List UInt8)
    (h : blake3OfResume p = blake3OfResume tenSymbols) : p = tenSymbols := by
  by_contra hne
  rw [blake3OfResume, if_neg hne] at h
  split_ifs at h <;> exact absurd h (by decide)

/-- Eight source symbols and two repair symbols, and then the first source symbol. -/
def elevenEsis : List UInt32 := [2, 3, 4, 5, 6, 7, 8, 9, 12, 61, 0]

/-- The eleven symbols determine a block of ten. -/
theorem determines_elevenEsis {params : SystematicParams} (hk : params.k = 10)
    (hrow : params.row = smallRow params.k) : Determines params elevenEsis := by
  have hrepair : (12) ∈ elevenEsis := by decide
  refine determines_of_second hrow (by omega) ?_ hrepair ?_ ?_
  · rw [hk]
    decide
  · rw [hk]
    decide
  · rw [hrow, hk]
    decide +kernel

/-- The first ten symbols leave the payload open, the eleventh closes it, and no attempt is made on
all of them: the stream is reported as incomplete. -/
theorem complete_stream_reported_incomplete : ∃ enc : RaptorQEncoder repairConfig, ∃ transcript,
    Streams blake3OfResume cborCodec identitySerde transcript enc tenSymbols ∧
    transcript.symbols.map (fun symbol => symbol.frame.esi) = elevenEsis ∧ elevenEsis.Nodup ∧
    Determines enc.inner.params elevenEsis ∧
    (∀ p, p.length = 80 → blake3OfResume p = blake3OfResume tenSymbols → p = tenSymbols) ∧
    transcript.decodeSnapshotManifestBytes blake3OfResume cborCodec identitySerde repairConfig
      (fun _ => 0) = .error .incompleteSnapshotStream := by
  obtain ⟨enc, hnew, h⟩ : ∃ enc, new blake3OfResume tenSymbols repairConfig =
      .ok enc ∧ enc.EncoderOf blake3OfResume tenSymbols :=
    exists_new (by decide) (by decide) (by decide) (by decide)
  have hk : enc.inner.params.k = 10 := h.k_eq
  have hrow := h.row_eq (by omega)
  have hzero := h.symbolValue_of_collision (by omega) (by omega) (by
    rw [hk]
    decide +kernel)
  have hopen := not_determines_collisionEsis hrow (by omega)
  have hdetermines := determines_elevenEsis hk hrow
  rw [hk] at hrow hzero hopen
  have hkPrime : enc.inner.params.kPrime = 10 := congrArg IndexRow.kPrime hrow
  have hs : enc.inner.params.s = 7 := congrArg IndexRow.s hrow
  have hh : enc.inner.params.h = 10 := congrArg IndexRow.h hrow
  have hesis : ∀ e ∈ elevenEsis, (enc.emitted e).isSome = true := by
    intro e he
    refine isSome_emitted h ?_
    rw [hk, hkPrime]
    exact Nat.lt_or_ge ..
  have hid : deriveHandshakeId blake3OfResume cborCodec identitySerde
      (requestFor enc (objectIdFromUnscopedBytes blake3OfResume tenSymbols)
        tenSymbolsHandshakeId).toResumeHandshakeIdentity = .ok tenSymbolsHandshakeId := by
    have hinfo : enc.transmissionInfo = ⟨80, 8, 1, 1, 8, some tenSymbolsHash⟩ := by
      rw [transmissionInfo, h.len_eq, h.hash_eq]
      rfl
    have hsome : (deriveHandshakeId blake3OfResume cborCodec identitySerde
        (requestFor enc (objectIdFromUnscopedBytes blake3OfResume tenSymbols)
          tenSymbolsHandshakeId).toResumeHandshakeIdentity).toOption =
            some tenSymbolsHandshakeId := by
      rw [requestFor, hinfo]
      decide +kernel
    revert hsome
    cases deriveHandshakeId .. <;> rintro ⟨⟩
    rfl
  obtain ⟨transcript, hstreams, hsymbols⟩ : ∃ transcript,
      Streams blake3OfResume cborCodec identitySerde transcript enc tenSymbols ∧
        transcript.symbols.map (fun symbol => symbol.frame.esi) = elevenEsis :=
    ⟨_, streams_transcriptFor hnew hid (by decide) (by decide) hesis,
      map_esi_transcriptFor ..⟩
  refine ⟨enc, transcript, hstreams, hsymbols, by decide, hdetermines,
    fun p _ => blake3OfResume_injective p, hstreams.decode_of_none ?_⟩
  have hmap : (transcript.arrivals fun _ => 0).map esi = elevenEsis := by
    rw [map_esi_arrivals, hsymbols]
  have hlength : (transcript.arrivals fun _ => 0).length = 11 := by
    rw [← length_map esi, hmap]
    rfl
  have ho : enc.Offered false ([] ++ transcript.arrivals fun _ => 0) := by
    rw [nil_append]
    refine ⟨hstreams.emits, ?_, ?_⟩ <;> rw [hmap]
    · decide
    · rw [hk]
      rfl
  -- the only attempt is made on the first ten symbols
  have honly : ∀ {j}, attemptCount 10 false j ≤ 11 → j = 0 := fun hj => by
    have hlt := (strictMono_attemptCount 10 false).lt_iff_lt (b := 1).mp (lt_of_le_of_lt hj (by decide))
    omega
  refine ((Progress.new h false).drain_of_open h (by decide) ho (fun _ hmem => absurd hmem not_mem_nil)
    (fun _ hlt => absurd hlt (Nat.not_lt_zero _)) fun j _ hreach => ?_).resolve_right
      fun hcase => hcase.2 ⟨h.withinBounds_announce, ?_, ?_, fun j hj => ?_⟩
  · have henough := hreach.enough
    rw [ho.attemptAt_eq, length_map, nil_append, hlength, hk] at henough
    obtain rfl := honly henough
    rw [nil_append, hmap, hk]
    exact ⟨hopen, hzero⟩
  · rw [nil_append, hlength]
    decide
  · intro a ha
    obtain ⟨p, -, rfl⟩ := mem_map.mp ha
    exact Nat.zero_le _
  · rw [nil_append, hlength, hk] at hj
    obtain rfl := honly hj
    rw [denseBytes, l, hkPrime, hs, hh, hk]
    decide

/-- A manifest of one symbol is decoded from that symbol. -/
theorem single_symbol_decoded : DecodesManifests repairConfig repairConfig 1 [(0, 0)] := by
  obtain ⟨params, hparams⟩ : ∃ params, tryForSourceBlock
      (divCeil 1 repairConfig.symbolSize.toNat) = .ok params :=
    exists_tryForSourceBlock (by decide) (by decide)
  have hk : params.k = 1 := k_of_tryForSourceBlock hparams
  have hat : attemptAt params.k [0] 0 = 1 := hk
  refine (decodesManifests_iff repairConfig repairConfig (by decide) (by decide) (by decide) hparams
    (by decide) (by decide) ?_).mpr ⟨⟨by decide, by decide, by decide⟩, 0, ⟨?_, ?_, ?_, ?_⟩, ?_⟩
  · intro e he
    obtain rfl : e = 0 := mem_singleton.mp he
    exact .inl params.k_pos
  · exact hat.le
  · exact hat.le.trans (by decide)
  · intro call hcall
    obtain rfl : call = (0, 0) := mem_singleton.mp (mem_of_mem_take hcall)
    exact Nat.zero_le _
  · exact fun j hj => absurd hj (Nat.not_lt_zero j)
  · refine determines_of_source fun c hc => ?_
    obtain rfl : c = 0 := by omega
    have htake : ([(0, 0)].map Prod.snd).take (attemptAt params.k [0] 0) = [(0 : UInt32)] := by
      rw [hat]
      rfl
    exact htake ▸ mem_singleton_self _

end ResumeHandshakeTranscript

end Flywheel.Store
