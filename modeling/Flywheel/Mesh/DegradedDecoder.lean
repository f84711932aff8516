import Flywheel.Core.Ids
import Flywheel.Data.Results
import Flywheel.Raptorq.Decode

/-!
# Control-plane frames in degraded mode

`DegradedModeDecoder` of `fcp-mesh` collects the symbols of control-plane frames
until an object can be reconstructed. A frame claims a place in the bounded table
of pending reconstructions before any of its symbols is authenticated, and keeps
it when the authentication fails. The opening of a symbol under the zone key is a
parameter, and so is the time since a reconstruction began.
-/

namespace Flywheel.Mesh

open Flywheel.Core Flywheel.Data Flywheel.Protocol Flywheel.Raptorq List

/-- `RetentionClass` of control-plane objects. -/
inductive ControlRetention where
  | required
  | ephemeral
deriving DecidableEq

/-- What the AEAD binds a symbol to. -/
structure SymbolContext where
  objectId : ObjectId
  esi : UInt32
  k : UInt16
  zoneIdHash : Bytes 32
  zoneKeyId : Bytes 8
  epochId : UInt64
  senderNodeId : NodeId
  senderInstanceId : UInt64
  frameSeq : UInt64

/-- The errors of `process_frame_authenticated`; that of a failed opening by its text. -/
inductive DegradedTransportError where
  | decode (e : DecodeError)
  | missingControlPlaneFlag
  | emptyControlPlaneFrame
  | zoneMismatch (expected got : Bytes 32)
  | symbolDecryptFailed (esi : UInt32) (source : String)
  | pendingLimitExceeded (current limit : ℕ)
deriving DecidableEq

structure ControlPlaneEnvelope where
  payload : List UInt8
  schemaHash : Bytes 32
  objectId : ObjectId
  zoneId : ZoneId
  zoneKeyId : Bytes 8
  epochId : UInt64
  retention : ControlRetention

structure PendingReconstructionKey where
  objectId : ObjectId
  zoneIdHash : Bytes 32
  zoneKeyId : Bytes 8
  epochId : UInt64
  symbolSize : UInt16
  sourceSymbolsK : UInt16
deriving DecidableEq

/-- What `with_expected_symbols` is told: the transfer length is taken to fill all symbols. -/
def PendingReconstructionKey.oti (key : PendingReconstructionKey) : ObjectTransmissionInformation :=
  ⟨.ofNat (key.sourceSymbolsK.toNat * key.symbolSize.toNat), key.symbolSize, 1, 1, 8, none⟩

/-- An entry of the table of pending reconstructions. -/
structure PendingReconstruction (config : RaptorQConfig) where
  key : PendingReconstructionKey
  decoder : RaptorQDecoder key.oti config
  zoneId : ZoneId
  zoneKeyId : Bytes 8
  retention : ControlRetention

/-- `DegradedModeDecoder`; the table has one entry for a key. -/
structure DegradedModeDecoder (config : RaptorQConfig) where
  pending : List (PendingReconstruction config)
  maxPending : ℕ
  nodup_keys : (pending.map (·.key)).Nodup

/-- The arguments of a call, with the opening of symbols under the zone key. -/
structure FrameCall where
  frame : FcpsFrame
  expectedZoneId : ZoneId
  retention : ControlRetention
  decryptSymbol : SymbolContext → List UInt8 → Bytes 16 → Except String (List UInt8)
  sourceId : NodeId
  elapsed : ℕ

section Process

variable {config : RaptorQConfig} (blake3 : List UInt8 → Bytes 32) (call : FrameCall)

/-- `ZoneId::hash`. -/
def zoneHash (zone : ZoneId) : Bytes 32 := blake3 (utf8 "FCP2-ZONE-ID-V1" ++ utf8 zone)

/-- `validate_control_plane_frame`, with the key that `from_frame` takes from the first symbol. -/
def validateControlPlaneFrame : Except DegradedTransportError PendingReconstructionKey :=
  let header := call.frame.header
  if header.zoneIdHash ≠ zoneHash blake3 call.expectedZoneId then
    .error (.zoneMismatch (zoneHash blake3 call.expectedZoneId) header.zoneIdHash)
  else if !header.flags.contains ⟨0b1000_0000_0000⟩ then .error .missingControlPlaneFlag
  else
    match call.frame.symbols with
    | [] => .error .emptyControlPlaneFrame
    | first :: rest =>
      match (first :: rest).zipIdx.find? fun symbol => symbol.1.k ≠ first.k with
      | some (symbol, index) => .error (.decode (.invalidSymbol
          s!"control-plane frame mixes source symbol counts: first k={first.k}, symbol[{index}] k={symbol.k}"))
      | none => .ok ⟨header.objectId, header.zoneIdHash, header.zoneKeyId, header.epochId,
          header.symbolSize, first.k⟩

def openSymbol (symbol : SymbolRecord) : Except String (List UInt8) :=
  let header := call.frame.header
  call.decryptSymbol ⟨header.objectId, symbol.esi, symbol.k, header.zoneIdHash, header.zoneKeyId,
    header.epochId, call.sourceId, header.senderInstanceId, header.frameSeq⟩ symbol.data
    symbol.authTag

def decodeSymbols {oti : ObjectTransmissionInformation} (dec : RaptorQDecoder oti config) :
    List SymbolRecord →
      Except DegradedTransportError (Option (List UInt8)) × RaptorQDecoder oti config
  | [] => (.ok none, dec)
  | symbol :: symbols =>
    match openSymbol call symbol with
    | .error source => (.error (.symbolDecryptFailed symbol.esi source), dec)
    | .ok plaintext =>
      match dec.addSymbol blake3 call.elapsed symbol.esi plaintext with
      | (.error e, dec) => (.error (.decode e), dec)
      | (.ok (some payload), dec) => (.ok (some payload), dec)
      | (.ok none, dec) => decodeSymbols dec symbols

def parseReconstructedPayload (payload : List UInt8) : Option (Bytes 32 × List UInt8) :=
  let len := leNat (slice payload 0 4).reverse
  if payload.length < 36 then none
  else if payload.length < 36 + len then none
  else some (arrayOf 32 (slice payload 4 32), slice payload 36 len)

namespace DegradedModeDecoder

def withMaxPending (config : RaptorQConfig) (maxPending : ℕ) : DegradedModeDecoder config :=
  ⟨[], max maxPending 1, nodup_nil⟩

/-- `new_pending_reconstruction`. -/
def newPending (key : PendingReconstructionKey) : PendingReconstruction config :=
  ⟨key, .new key.oti config, call.expectedZoneId, key.zoneKeyId, call.retention⟩

variable (d : DegradedModeDecoder config)

/-- The table with a place for the key. -/
def claim (key : PendingReconstructionKey) : DegradedModeDecoder config :=
  if h : key ∈ d.pending.map (·.key) then d
  else ⟨newPending call key :: d.pending, d.maxPending, nodup_cons.mpr ⟨h, d.nodup_keys⟩⟩

/-- The table with the decoder of an entry replaced. -/
def update (entry : PendingReconstruction config)
    (dec : RaptorQDecoder entry.key.oti config) : DegradedModeDecoder config where
  pending := d.pending.map fun e => if e.key = entry.key then { entry with decoder := dec } else e
  maxPending := d.maxPending
  nodup_keys := by
    have hkeys : ∀ e ∈ d.pending, (if e.key = entry.key then { entry with decoder := dec }
        else e : PendingReconstruction config).key = e.key := fun e _ => by
      split_ifs with h
      · exact h.symm
      · rfl
    rw [map_map]
    exact (map_congr_left hkeys).symm ▸ d.nodup_keys

def remove (key : PendingReconstructionKey) : DegradedModeDecoder config :=
  ⟨d.pending.filter (·.key ≠ key), d.maxPending, d.nodup_keys.sublist (filter_sublist.map _)⟩

/-- `process_frame_authenticated`. -/
def processFrame :
    Except DegradedTransportError (Option ControlPlaneEnvelope) × DegradedModeDecoder config :=
  match validateControlPlaneFrame blake3 call with
  | .error e => (.error e, d)
  | .ok key =>
    if key ∉ d.pending.map (·.key) ∧ d.maxPending ≤ d.pending.length then
      (.error (.pendingLimitExceeded d.pending.length d.maxPending), d)
    else
      let d := d.claim call key
      match d.pending.find? (·.key = key) with
      | none => (.ok none, d)
      | some entry =>
        match decodeSymbols blake3 call entry.decoder call.frame.symbols with
        | (.error e, dec) => (.error e, d.update entry dec)
        | (.ok none, dec) => (.ok none, d.update entry dec)
        | (.ok (some payload), dec) =>
          match parseReconstructedPayload payload with
          | none => (.ok none, d.update entry dec)
          | some (schemaHash, object) =>
            (.ok (some ⟨object, schemaHash, key.objectId, entry.zoneId, entry.zoneKeyId,
              call.frame.header.epochId, entry.retention⟩), d.remove key)

/-- The decoder after a sequence of frames. -/
def processAll (calls : List FrameCall) : DegradedModeDecoder config :=
  calls.foldl (fun d call => (d.processFrame blake3 call).2) d

end DegradedModeDecoder

/-- No symbol of the frame authenticates. -/
def Forged : Prop := ∀ symbol ∈ call.frame.symbols, ∃ e, openSymbol call symbol = .error e

/-- The frame is malformed, or its reconstruction is pending already, or the table is full. -/
def ClaimsNoPlace (d : DegradedModeDecoder config) : Prop :=
  ∀ key, validateControlPlaneFrame blake3 call = .ok key →
    key ∈ d.pending.map (·.key) ∨ d.maxPending ≤ d.pending.length

end Process

variable {config : RaptorQConfig} {blake3 : List UInt8 → Bytes 32} {call : FrameCall}
  {d : DegradedModeDecoder config} {key : PendingReconstructionKey}

theorem symbols_ne_nil (h : validateControlPlaneFrame blake3 call = .ok key) :
    call.frame.symbols ≠ [] := by
  intro hnil
  unfold validateControlPlaneFrame at h
  dsimp only at h
  rw [hnil] at h
  split_ifs at h

namespace DegradedModeDecoder

theorem update_decoder {entry : PendingReconstruction config} (h : entry ∈ d.pending) :
    d.update entry entry.decoder = d := by
  have hsame : ∀ e ∈ d.pending, (if e.key = entry.key then entry else e) = e := by
    intro e he
    split_ifs with hkey
    · exact inj_on_of_nodup_map d.nodup_keys h he hkey.symm
    · rfl
  obtain ⟨pending, maxPending, hnodup⟩ := d
  simp only [update, mk.injEq, and_true]
  exact (map_congr_left hsame).trans (map_id' _)

theorem exists_find?_claim (d : DegradedModeDecoder config) (call : FrameCall)
    (key : PendingReconstructionKey) :
    ∃ entry, (d.claim call key).pending.find? (·.key = key) = some entry := by
  refine Option.isSome_iff_exists.mp (find?_isSome.mpr ?_)
  rw [claim]
  split_ifs with h
  · obtain ⟨entry, hentry, hkey⟩ := mem_map.mp h
    exact ⟨entry, hentry, decide_eq_true hkey⟩
  · exact ⟨_, mem_cons_self, decide_eq_true rfl⟩

theorem claim_eq_self_iff : d.claim call key = d ↔ key ∈ d.pending.map (·.key) := by
  rw [claim]
  split_ifs with h
  · exact iff_of_true rfl h
  · refine iff_of_false (fun heq => ?_) h
    have hlength := congrArg (fun d => d.pending.length) heq
    simp at hlength

theorem snd_processFrame_eq_iff (hforged : Forged call) :
    (d.processFrame blake3 call).2 = d ↔ ClaimsNoPlace blake3 call d := by
  cases hkey : validateControlPlaneFrame blake3 call with
  | error e =>
    refine iff_of_true (by rw [processFrame, hkey]) fun key h => ?_
    cases hkey.symm.trans h
  | ok key =>
    have hclaims : ClaimsNoPlace blake3 call d ↔
        key ∈ d.pending.map (·.key) ∨ d.maxPending ≤ d.pending.length := by
      simp [ClaimsNoPlace, hkey]
    rw [hclaims]
    by_cases hroom : key ∉ d.pending.map (·.key) ∧ d.maxPending ≤ d.pending.length
    · refine iff_of_true ?_ (.inr hroom.2)
      rw [processFrame, hkey]
      dsimp only
      rw [if_pos hroom]
    · obtain ⟨entry, hfind⟩ := d.exists_find?_claim call key
      obtain ⟨symbol, rest, hsymbols⟩ := exists_cons_of_ne_nil (symbols_ne_nil hkey)
      obtain ⟨source, hopen⟩ := hforged symbol (by simp [hsymbols])
      rw [processFrame, hkey]
      dsimp only
      rw [if_neg hroom, hfind]
      dsimp only
      rw [hsymbols, decodeSymbols, hopen]
      dsimp only
      rw [update_decoder (mem_of_find?_eq_some hfind), claim_eq_self_iff]
      exact ⟨.inl, fun h => by_contra fun hnew => hroom ⟨hnew, h.resolve_left hnew⟩⟩

/-- A forged frame leaves the pending reconstructions as they are exactly when it claims no
place; and where that holds of all forged frames of a run, the run changes nothing. -/
theorem forged_frame_harmless_iff (blake3 : List UInt8 → Bytes 32)
    (d : DegradedModeDecoder config) :
    (∀ call, Forged call → ((d.processFrame blake3 call).2 = d ↔ ClaimsNoPlace blake3 call d)) ∧
    ∀ calls, (∀ call ∈ calls, Forged call ∧ ClaimsNoPlace blake3 call d) →
      d.processAll blake3 calls = d := by
  refine ⟨fun call hforged => snd_processFrame_eq_iff hforged, fun calls h => ?_⟩
  refine foldl_of_fixed fun call hcall => ?_
  obtain ⟨hforged, hplace⟩ := h call hcall
  exact (snd_processFrame_eq_iff hforged).mpr hplace

end DegradedModeDecoder

def workZoneHash : Bytes 32 :=
  arrayOf 32 (beBytes 32 0xb535a945ceeefe27b23fbb46a99aecb6de1dca1d48c721d9f772648e52d6bc99)

/-- A frame with one of the two symbols of an object; the tag of seven is the genuine one. -/
def workFrame (object tag : ℕ) : FrameCall where
  frame := ⟨⟨1, ⟨0b1000_0000_0000⟩, 1, 1046, arrayOf 32 (beBytes 32 object), 1024,
    arrayOf 8 [], workZoneHash, 1, 1, 1⟩, [⟨0, 2, .replicate 1024 0, arrayOf 16 (beBytes 16 tag)⟩]⟩
  expectedZoneId := "z:work"
  retention := .required
  decryptSymbol _ data authTag :=
    if authTag = arrayOf 16 (beBytes 16 7) then .ok data else .error "decryption failed"
  sourceId := "node-1"
  elapsed := 0

/-- A forged frame takes the one place of the table, and the authentic frame finds it full. -/
theorem forged_frame_fills_table :
    let d := DegradedModeDecoder.withMaxPending ⟨1024, 500, 67108864, 30000000000⟩ 1
    let d' := (d.processFrame (fun _ => workZoneHash) (workFrame 1 0)).2
    Forged (workFrame 1 0) ∧ ¬ Forged (workFrame 2 7) ∧ d' ≠ d ∧
      (d'.processFrame (fun _ => workZoneHash) (workFrame 2 7)).1 =
        .error (.pendingLimitExceeded 1 1) := by
  have hforged : Forged (workFrame 1 0) := by
    simp only [Forged, workFrame, mem_singleton, forall_eq]
    exact ⟨"decryption failed", rfl⟩
  refine ⟨hforged, ?_, fun heq => ?_, rfl⟩
  · simp only [Forged, workFrame, mem_singleton, forall_eq]
    rintro ⟨e, he⟩
    cases he
  · have hlength := congrArg (fun d => d.pending.length) heq
    cases hlength

end Flywheel.Mesh
