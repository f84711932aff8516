import Flywheel.Store.Refinement

/-!
# Tampered files

A store with a MAC key is opened on files that anyone may have written. The MACs under the
key were all computed for the records and snapshots of one history. If MACs cannot be forged,
opening fails or yields the state at a place of that history, which is not before the one of
the snapshot that was found.
-/

namespace Flywheel.Store

open Flywheel.Data

variable {State Op Payload Error View : Type} {M : Machine State Op Payload Error}
  {format : EnvelopeFormat Op Payload} {keying : Keying} {key : Bytes 32}

/-- The inputs of the MACs determine what they are for: JSON of different values differs, and
a mutation is not written like a state. -/
structure EnvelopeFormat.Separates (format : EnvelopeFormat Op Payload) : Prop where
  /-- The input for a record determines its sequence number and its mutation. -/
  walTuple_inj : ∀ {version seq op version' seq' op'},
    format.walTuple version seq op = format.walTuple version' seq' op' → seq = seq' ∧ op = op'
  /-- The input for a snapshot determines its sequence number and its state. -/
  snapshotTuple_inj : ∀ {version seq payload version' seq' payload'},
    format.snapshotTuple version seq payload = format.snapshotTuple version' seq' payload' →
      seq = seq' ∧ payload = payload'
  /-- The input for a record is not one for a snapshot. -/
  walTuple_ne : ∀ {version seq op version' seq' payload},
    format.walTuple version seq op ≠ format.snapshotTuple version' seq' payload

/-- The inputs that MACs were computed for: the records of a history, and snapshots of its
states. -/
inductive Signed (R : Refinement M View) (format : EnvelopeFormat Op Payload) (ops : List Op) :
    List UInt8 → Prop
  | record {i : ℕ} {op : Op} (hop : ops[i]? = some op) :
      Signed R format ops (format.walTuple versionV2 (i + 1) op)
  | snapshot {k : ℕ} {state : State} (hk : k ≤ ops.length) (hinv : R.Inv state)
      (hrun : R.spec.run (ops.take k) = some (R.view state)) :
      Signed R format ops (format.snapshotTuple versionV2 k (M.toSnapshot state))

/-- No MAC in the files is forged: whatever is read from them with the right MAC has an input
that a MAC was computed for. -/
structure Unforged (R : Refinement M View) (format : EnvelopeFormat Op Payload) (key : Bytes 32)
    (ops : List Op) (snapshot wal : Option (List UInt8)) : Prop where
  snapshot : ∀ bytes envelope, snapshot = some bytes → format.readSnapshot bytes = some envelope →
    envelope.checksum = format.blake3 (some key)
      (format.snapshotTuple envelope.version envelope.lastSeq envelope.payload) →
    Signed R format ops
      (format.snapshotTuple envelope.version envelope.lastSeq envelope.payload)
  wal : ∀ bytes line envelope, wal = some bytes → Chunk.line line ∈ chunks maxWalRecordBytes bytes →
    format.readWal line = some envelope →
    envelope.checksum = format.blake3 (some key)
      (format.walTuple envelope.version envelope.seq envelope.op) →
    Signed R format ops (format.walTuple envelope.version envelope.seq envelope.op)

variable {R : Refinement M View} {config : DurableConfig} {ops : List Op} {v : View}
  {snapshot wal : Option (List UInt8)}

/-- A snapshot whose MAC is not forged restores a state of the history. -/
theorem reached_of_restore (hformat : format.Separates) (hkey : config.macKey = some key)
    (hlegacy : config.allowLegacyUnauth = false)
    (hunforged : Unforged R format key ops snapshot wal) {loaded : Option (Payload × ℕ)}
    (hread : readSnapshot format config.toKeying snapshot maxSnapshotBytes = .ok loaded)
    {restored : State × ℕ} (hrestore : M.restore loaded = .ok restored) :
    restored.2 ≤ ops.length ∧ R.Reached ops restored.2 restored ∧
      ∀ bytes envelope, snapshot = some bytes → format.readSnapshot bytes = some envelope →
        envelope.lastSeq = restored.2 := by
  cases snapshot with
  | none =>
    cases hread
    cases hrestore
    exact ⟨Nat.zero_le _, Refinement.reached_initial ops, nofun⟩
  | some bytes =>
    -- with a key, only a snapshot with the right MAC is accepted
    rw [readSnapshot] at hread
    split at hread
    · cases hread
    split at hread
    · cases hread
    rename_i envelope henvelope
    simp only [hkey, hlegacy, Option.isSome_some, Bool.not_false, Bool.and_self] at hread
    split_ifs at hread with hversion
    split at hread
    · cases hread
    rename_i expected hhash
    split_ifs at hread with hmac
    cases hread
    have hsigned := hunforged.snapshot bytes envelope rfl henvelope
      ((macsEqual_iff.mp hmac).symm.trans (hashJsonBounded_eq_some hhash).2)
    generalize hmessage : format.snapshotTuple envelope.version envelope.lastSeq envelope.payload =
      message at hsigned
    cases hsigned with
    | record hop => exact absurd hmessage.symm hformat.walTuple_ne
    | @snapshot k state hk hinv hrun =>
      obtain ⟨hseq, hpayload⟩ := hformat.snapshotTuple_inj hmessage
      obtain ⟨state', hfrom, hinv', hview⟩ := R.restored hinv
      rw [Machine.restore, hpayload, hfrom] at hrestore
      cases hrestore
      rw [hseq]
      refine ⟨hk, ⟨hinv', by rw [hview, hrun], rfl⟩, fun bytes' envelope' hbytes henvelope' => ?_⟩
      cases hbytes
      cases henvelope.symm.trans henvelope'
      exact hseq

/-- Opening files without forged MACs fails or yields a state of the history, not before the
one of the snapshot. -/
theorem reached_of_loadDurableState (hformat : format.Separates)
    (hkey : config.macKey = some key) (hlegacy : config.allowLegacyUnauth = false)
    (hrun : R.spec.run ops = some v) (hunforged : Unforged R format key ops snapshot wal)
    {readOnly : Bool} {loaded : State × ℕ} {cut : Option ℕ}
    (h : loadDurableState M format config snapshot wal readOnly = .ok (loaded, cut)) :
    ∃ k ≤ ops.length, R.Reached ops k loaded ∧
      ∀ bytes envelope, snapshot = some bytes → format.readSnapshot bytes = some envelope →
        envelope.lastSeq ≤ k := by
  rw [loadDurableState] at h
  split at h
  · cases h
  rename_i found hread
  split at h
  · cases h
  rename_i restored hrestore
  obtain ⟨hlength, hreached, hbase⟩ :=
    reached_of_restore hformat hkey hlegacy hunforged hread hrestore
  split at h
  · cases h
  · cases h
  rename_i result hreplay
  cases h
  have hstep : ∀ j loaded (record) loaded',
      (j ≤ ops.length ∧ R.Reached ops j loaded) → record.seq = j + 1 →
      ops[j]? = some record.op → M.replay loaded record = .ok loaded' →
      j + 1 ≤ ops.length ∧ R.Reached ops (j + 1) loaded' := by
    rintro j before record after ⟨-, hbefore⟩ hseq hop happly
    obtain ⟨after', hafter, hreached'⟩ := hbefore.replay hrun hseq hop
    cases happly.symm.trans hafter
    exact ⟨(List.getElem?_eq_some_iff.mp hop).1, hreached'⟩
  have hgenuine : ∀ bytes line (envelope), wal = some bytes →
      Chunk.line line ∈ chunks maxWalRecordBytes bytes →
      format.readWal line = some envelope →
      authenticate format config.toKeying envelope = .ok true →
      ops[envelope.seq - 1]? = some envelope.op := by
    intro bytes line envelope hwal hline henvelope hauth
    -- with a key, only records with the right MAC are accepted
    rw [authenticate, hkey, hlegacy] at hauth
    simp only [Option.isSome_some, Bool.not_false, Bool.and_self, if_true] at hauth
    split_ifs at hauth with hversion
    split at hauth
    · cases hauth
    rename_i expected hhash
    split_ifs at hauth with hmac
    have hsigned := hunforged.wal bytes line envelope hwal hline henvelope
      ((macsEqual_iff.mp hmac).symm.trans (hashJsonBounded_eq_some hhash).2)
    generalize hmessage : format.walTuple envelope.version envelope.seq envelope.op =
      message at hsigned
    cases hsigned with
    | @record i op hop =>
      obtain ⟨hseq, hopEq⟩ := hformat.walTuple_inj hmessage
      rw [hseq, hopEq, Nat.add_sub_cancel, hop]
    | snapshot hk hinv hrun => exact absurd hmessage hformat.walTuple_ne
  obtain ⟨k, hk, hlength', hreached'⟩ :=
    replayWalRecords_genuine hstep hgenuine ⟨hlength, hreached⟩ hreplay
  refine ⟨k, hlength', hreached', fun bytes envelope hbytes henvelope => ?_⟩
  rw [hbase bytes envelope hbytes henvelope]
  exact hk

end Flywheel.Store
