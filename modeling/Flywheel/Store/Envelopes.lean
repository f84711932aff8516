import Flywheel.Data.CrashFiles
import Flywheel.Data.Lines

/-!
# Envelopes of the durable stores

The log and the snapshot of a durable store of `fcp-store`. A log record is one line of
JSON with its sequence number and a checksum, which is a keyed MAC when the store has a key.
A snapshot is one such envelope around the whole state. Reading authenticates every record,
and stops at what looks like an interrupted append. JSON and BLAKE3 are parameters.
-/

namespace Flywheel.Store

open Flywheel.Data

/-- `u64::MAX`. -/
def u64Max : ℕ := 2 ^ 64 - 1

def saturatingAdd (a b : ℕ) : ℕ := min (a + b) u64Max

theorem saturatingAdd_of_le {a b : ℕ} (h : a + b ≤ u64Max) : saturatingAdd a b = a + b :=
  Nat.min_eq_left h

def maxWalRecordBytes : ℕ := 512 * 1024 * 1024

def maxSnapshotBytes : ℕ := 4 * 1024 * 1024 * 1024

/-! ### Errors -/

/-- The reasons of `DurableIoError::Tampered`. -/
inductive Tampering
  /-- The snapshot has a MAC and the store has no key. -/
  | snapshotWithoutKey
  | snapshotMac
  /-- The snapshot has no MAC although the store has a key. -/
  | snapshotLegacy
  | snapshotChecksum
  | recordTooLong (position max : ℕ)
  | malformedRecord (position : ℕ)
  | recordMac (seq : ℕ)
  /-- A record has a MAC and the store has no key. -/
  | recordWithoutKey (seq : ℕ)
  /-- A record has no MAC although the store has a key. -/
  | recordLegacy (seq : ℕ)
  | recordChecksum (seq : ℕ)
  | recordVersion (version seq : ℕ)
  | sequenceRegression (seq last : ℕ)
  deriving DecidableEq

/-- What is serialized when `DurableIoError::RejectedBeforeWrite` is returned. -/
inductive RejectedPart
  | checksum
  | envelope
  | delimiter
  deriving DecidableEq

/-- The reasons of `DurableIoError::Other`. -/
inductive IoFailure
  | file
  | snapshotTooLong (max got : ℕ)
  | snapshotParse
  | snapshotVersion (version : ℕ)
  | checksumInput
  | sequenceGap (expected found : ℕ)
  | readOnlyTail (position : ℕ)
  deriving DecidableEq

inductive DurableIoError
  | tampered (reason : Tampering)
  | rejectedBeforeWrite (part : RejectedPart)
  | other (failure : IoFailure)
  deriving DecidableEq

inductive WalReplayError (E : Type)
  | io (error : DurableIoError)
  | apply (error : E)

/-! ### Envelopes -/

structure WalEnvelope (Op : Type) where
  version : ℕ
  seq : ℕ
  checksum : Bytes 32
  op : Op

structure SnapshotEnvelope (Payload : Type) where
  version : ℕ
  lastSeq : ℕ
  checksum : Bytes 32
  payload : Payload

/-- `WAL_VERSION_V1` and `SNAPSHOT_VERSION_V1`: a checksum without a key. -/
def versionV1 : ℕ := 1

/-- `WAL_VERSION_V2` and `SNAPSHOT_VERSION_V2`: a keyed MAC. -/
def versionV2 : ℕ := 2

/-- The libraries that envelopes are written and read with: `serde_json` at the types of the
store, and BLAKE3 with or without a key. -/
structure EnvelopeFormat (Op Payload : Type) where
  /-- The JSON of the triple of version, sequence number and mutation. -/
  walTuple : ℕ → ℕ → Op → List UInt8
  /-- The JSON of the triple of version, sequence number and state. -/
  snapshotTuple : ℕ → ℕ → Payload → List UInt8
  writeWal : WalEnvelope Op → List UInt8
  readWal : List UInt8 → Option (WalEnvelope Op)
  writeSnapshot : SnapshotEnvelope Payload → List UInt8
  readSnapshot : List UInt8 → Option (SnapshotEnvelope Payload)
  blake3 : Option (Bytes 32) → List UInt8 → Bytes 32

/-- What `serde_json` documents: compact JSON has no newline, and what was written is read
back. Sequence numbers are 64-bit words. -/
structure EnvelopeFormat.Lawful {Op Payload : Type} (format : EnvelopeFormat Op Payload) :
    Prop where
  newline_not_mem : ∀ envelope, newline ∉ format.writeWal envelope
  readWal_writeWal : ∀ envelope, envelope.seq ≤ u64Max →
    format.readWal (format.writeWal envelope ++ [newline]) = some envelope
  readSnapshot_writeSnapshot : ∀ envelope, envelope.lastSeq ≤ u64Max →
    format.readSnapshot (format.writeSnapshot envelope) = some envelope

/-- The parts of a store's configuration that authenticate its files. -/
structure Keying where
  macKey : Option (Bytes 32)
  /-- Whether envelopes without a MAC are read although there is a key. -/
  allowLegacyUnauth : Bool

def Keying.version (keying : Keying) : ℕ :=
  if keying.macKey.isSome then versionV2 else versionV1

def macsEqual (a b : Bytes 32) : Bool :=
  (List.zipWith (· ^^^ ·) a.toList b.toList).foldl (· ||| ·) 0 == 0

variable {Op Payload : Type} (format : EnvelopeFormat Op Payload) (keying : Keying)

/-- `hash_json_bounded` of a value's JSON. -/
def hashJsonBounded (macKey : Option (Bytes 32)) (json : List UInt8) (maxBytes : ℕ) :
    Option (Bytes 32) :=
  if json.length ≤ maxBytes then some (format.blake3 macKey json) else none

/-! ### Snapshots -/

/-- The bytes of a snapshot, as `write_snapshot` computes them before it touches a file. -/
def encodeSnapshot (lastSeq : ℕ) (payload : Payload) (maxBytes : ℕ) :
    Except DurableIoError (List UInt8) :=
  match hashJsonBounded format keying.macKey
      (format.snapshotTuple keying.version lastSeq payload) maxBytes with
  | none => .error (.rejectedBeforeWrite .checksum)
  | some checksum =>
    let json := format.writeSnapshot ⟨keying.version, lastSeq, checksum, payload⟩
    if json.length ≤ maxBytes then .ok json else .error (.rejectedBeforeWrite .envelope)

def readSnapshot (file : Option (List UInt8)) (maxBytes : ℕ) :
    Except DurableIoError (Option (Payload × ℕ)) :=
  match file with
  | none => .ok none
  | some bytes =>
    if maxBytes < bytes.length then .error (.other (.snapshotTooLong maxBytes bytes.length))
    else
      match format.readSnapshot bytes with
      | none => .error (.other .snapshotParse)
      | some envelope =>
        let json := format.snapshotTuple envelope.version envelope.lastSeq envelope.payload
        if envelope.version = versionV2 then
          match keying.macKey with
          | none => .error (.tampered .snapshotWithoutKey)
          | some key =>
            match hashJsonBounded format (some key) json u64Max with
            | none => .error (.other .checksumInput)
            | some expected =>
              if macsEqual expected envelope.checksum then
                .ok (some (envelope.payload, envelope.lastSeq))
              else .error (.tampered .snapshotMac)
        else if envelope.version = versionV1 then
          if keying.macKey.isSome && !keying.allowLegacyUnauth then
            .error (.tampered .snapshotLegacy)
          else
            match hashJsonBounded format none json u64Max with
            | none => .error (.other .checksumInput)
            | some expected =>
              if expected = envelope.checksum then
                .ok (some (envelope.payload, envelope.lastSeq))
              else .error (.tampered .snapshotChecksum)
        else .error (.other (.snapshotVersion envelope.version))

/-! ### The log -/

/-- The line that `append_wal_record` computes before it opens the log. -/
def encodeRecord (seq : ℕ) (op : Op) (maxBytes : ℕ) : Except DurableIoError (List UInt8) :=
  match hashJsonBounded format keying.macKey (format.walTuple keying.version seq op) maxBytes with
  | none => .error (.rejectedBeforeWrite .checksum)
  | some checksum =>
    let json := format.writeWal ⟨keying.version, seq, checksum, op⟩
    if maxBytes < json.length then .error (.rejectedBeforeWrite .envelope)
    else if maxBytes < json.length + 1 then .error (.rejectedBeforeWrite .delimiter)
    else .ok (json ++ [newline])

/-- The authentication of one record in `replay_wal_records`; `false` stands for a torn
tail. -/
def authenticate (envelope : WalEnvelope Op) : Except DurableIoError Bool :=
  let json := format.walTuple envelope.version envelope.seq envelope.op
  if envelope.version = versionV2 then
    match keying.macKey with
    | some key =>
      match hashJsonBounded format (some key) json u64Max with
      | none => .error (.other .checksumInput)
      | some expected =>
        if macsEqual expected envelope.checksum then .ok true
        else .error (.tampered (.recordMac envelope.seq))
    | none => .error (.tampered (.recordWithoutKey envelope.seq))
  else if envelope.version = versionV1 then
    if keying.macKey.isSome && !keying.allowLegacyUnauth then
      .error (.tampered (.recordLegacy envelope.seq))
    else
      match hashJsonBounded format none json u64Max with
      | none => .error (.other .checksumInput)
      | some expected =>
        if expected = envelope.checksum then .ok true
        else if keying.macKey.isSome then .error (.tampered (.recordChecksum envelope.seq))
        else .ok false
  else if keying.macKey.isSome then
    .error (.tampered (.recordVersion envelope.version envelope.seq))
  else .ok false

/-- The variables of the loop in `replay_wal_records`. -/
structure Cursor where
  validPrefixLen : ℕ
  lastSeqInFile : ℕ
  expectedNextSeq : ℕ

section Replay

variable {S E : Type} (apply : S → WalEnvelope Op → Except E S) (minSeq : ℕ)

/-- One complete line in the loop of `replay_wal_records`; `none` stands for a torn tail. -/
def replayLine (cursor : Cursor) (s : S) (raw : List UInt8) :
    Except (WalReplayError E) (Option (Cursor × S)) :=
  match format.readWal raw with
  | none =>
    if keying.macKey.isSome then
      .error (.io (.tampered (.malformedRecord cursor.validPrefixLen)))
    else .ok none
  | some envelope =>
    match authenticate format keying envelope with
    | .error e => .error (.io e)
    | .ok false => .ok none
    | .ok true =>
      if envelope.seq ≤ cursor.lastSeqInFile then
        if keying.macKey.isSome then
          .error (.io (.tampered (.sequenceRegression envelope.seq cursor.lastSeqInFile)))
        else .ok none
      else
        let validPrefixLen := cursor.validPrefixLen + raw.length
        if minSeq < envelope.seq then
          if envelope.seq ≠ cursor.expectedNextSeq then
            .error (.io (.other (.sequenceGap cursor.expectedNextSeq envelope.seq)))
          else
            match apply s envelope with
            | .error e => .error (.apply e)
            | .ok s =>
              .ok (some (⟨validPrefixLen, envelope.seq,
                saturatingAdd cursor.expectedNextSeq 1⟩, s))
        else .ok (some (⟨validPrefixLen, envelope.seq, cursor.expectedNextSeq⟩, s))

/-- The loop of `replay_wal_records`: the state, how many bytes were accepted, and whether
the file has more. -/
def replayLoop (maxBytes : ℕ) :
    List Chunk → Cursor → S → Except (WalReplayError E) (S × ℕ × Bool)
  | [], cursor, s => .ok (s, cursor.validPrefixLen, false)
  | .capped :: _, cursor, s =>
    if keying.macKey.isSome then
      .error (.io (.tampered (.recordTooLong cursor.validPrefixLen maxBytes)))
    else .ok (s, cursor.validPrefixLen, true)
  | .tail _ :: _, cursor, s => .ok (s, cursor.validPrefixLen, true)
  | .line raw :: rest, cursor, s =>
    match replayLine format keying apply minSeq cursor s raw with
    | .error e => .error e
    | .ok none => .ok (s, cursor.validPrefixLen, true)
    | .ok (some (cursor, s)) => replayLoop maxBytes rest cursor s

/-- `replay_wal_records`: the state, and the length to truncate the log to. -/
def replayWalRecords (file : Option (List UInt8)) (readOnly : Bool) (maxBytes : ℕ) (s : S) :
    Except (WalReplayError E) (S × Option ℕ) :=
  match file with
  | none => .ok (s, none)
  | some bytes =>
    match replayLoop format keying apply minSeq maxBytes (chunks maxBytes bytes)
        ⟨0, 0, saturatingAdd minSeq 1⟩ s with
    | .error e => .error e
    | .ok (s, validPrefixLen, truncated) =>
      if truncated then
        if readOnly then .error (.io (.other (.readOnlyTail validPrefixLen)))
        else .ok (s, some validPrefixLen)
      else .ok (s, none)

end Replay

/-! ### Facts about the checksums -/

theorem foldl_or_eq_zero_iff {bytes : List UInt8} {acc : UInt8} :
    bytes.foldl (· ||| ·) acc = 0 ↔ acc = 0 ∧ ∀ b ∈ bytes, b = 0 := by
  induction bytes generalizing acc with
  | nil => simp
  | cons b bytes ih =>
    rw [List.foldl_cons, ih, UInt8.or_eq_zero_iff, List.forall_mem_cons, and_assoc]

/-- Two byte strings of one length whose differences are all zero are the same. -/
theorem zipWith_xor_eq_zero_iff {a b : List UInt8} (hlen : a.length = b.length) :
    (∀ d ∈ List.zipWith (· ^^^ ·) a b, d = 0) ↔ a = b := by
  induction a generalizing b with
  | nil =>
    cases b with
    | nil => simp
    | cons y b => cases hlen
  | cons x a ih =>
    cases b with
    | nil => cases hlen
    | cons y b =>
      rw [List.zipWith_cons_cons, List.forall_mem_cons, ih (Nat.succ.inj hlen),
        UInt8.xor_eq_zero_iff, List.cons.injEq]

theorem macsEqual_iff {a b : Bytes 32} : macsEqual a b = true ↔ a = b := by
  have hlen : a.toList.length = b.toList.length := by
    rw [a.toList_length, b.toList_length]
  rw [macsEqual, beq_iff_eq, foldl_or_eq_zero_iff, zipWith_xor_eq_zero_iff hlen]
  exact ⟨fun h => List.Vector.eq _ _ h.2, fun h => ⟨rfl, congrArg _ h⟩⟩

end Flywheel.Store
