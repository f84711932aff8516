import Flywheel.Store.Envelopes

/-!
# Durable stores

`DurableObjectStore` and `DurableSymbolStore` of `fcp-store`. Both keep their state in
memory, append every mutation to a log before it is applied, and now and then write a
snapshot and clear the log. What differs between the two is a parameter here. Every file
operation can fail at any point, and the process can die or the machine crash at any point.
-/

namespace Flywheel.Store

open Flywheel.Data

/-- The failures that a durable store reports itself. -/
inductive StoreFailure
  | readOnly
  | fenced (reason : DurableIoError)
  | sequenceExhausted
  | durable (error : DurableIoError)
  deriving DecidableEq

/-- What differs between the durable stores: the state in memory, its mutations and its
snapshots. -/
structure Machine (State Op Payload Error : Type) where
  initial : State
  verify : Op → Except Error Unit
  validateMutation : State → Op → ℕ → Except Error Unit
  applyLoadedMutation : State → Op → Except Error State
  toSnapshot : State → Payload
  fromSnapshot : Payload → Except Error State
  failure : StoreFailure → Error
  /-- Whether what the state counts stays below `u64::MAX` with the mutation. The process
  holds it all in memory, so it cannot be called otherwise. -/
  addressable : State → Op → Bool

/-- `DurableObjectStoreConfig` and `DurableSymbolStoreConfig`. -/
structure DurableConfig extends Keying where
  maxBytes : ℕ
  checkpointAfterOps : ℕ

/-- A file that may be missing. -/
abbrev DiskFile := CrashFile (Option (List UInt8))

structure Disk where
  snapshot : DiskFile
  wal : DiskFile

/-- `DurableObjectStore` and `DurableSymbolStore`. -/
structure DurableStore (State : Type) where
  state : State
  writeFence : Option DurableIoError
  lastSeq : ℕ
  opsSinceCheckpoint : ℕ
  readOnly : Bool

/-- How far an append to the log gets. -/
inductive AppendIo
  | unopened
  /-- Some bytes were written, and writing the others or syncing failed. -/
  | written (count : ℕ)
  | synced
  deriving DecidableEq

inductive CheckpointIo
  | unrenamed
  | renamed
  /-- The snapshot is on the disk, and the log could not be opened. -/
  | unopened
  | cleared
  | synced
  deriving DecidableEq

variable {State Op Payload Error : Type} (M : Machine State Op Payload Error)
  (format : EnvelopeFormat Op Payload) (config : DurableConfig)

/-! ### Opening -/

/-- What is done with a record of the log. -/
def Machine.replay (loaded : State × ℕ) (record : WalEnvelope Op) :
    Except Error (State × ℕ) := do
  M.verify record.op
  M.validateMutation loaded.1 record.op u64Max
  let state ← M.applyLoadedMutation loaded.1 record.op
  return (state, record.seq)

/-- The state and the sequence number that a snapshot stands for. -/
def Machine.restore : Option (Payload × ℕ) → Except Error (State × ℕ)
  | some (payload, seq) => do
    let state ← M.fromSnapshot payload
    return (state, seq)
  | none => return (M.initial, 0)

/-- `load_durable_object_state` and `load_durable_symbol_state`: the state, its sequence
number, and the length to truncate the log to. -/
def loadDurableState (snapshot wal : Option (List UInt8)) (readOnly : Bool) :
    Except Error ((State × ℕ) × Option ℕ) :=
  match readSnapshot format config.toKeying snapshot maxSnapshotBytes with
  | .error e => .error (M.failure (.durable e))
  | .ok loaded =>
    match M.restore loaded with
    | .error e => .error e
    | .ok restored =>
      match replayWalRecords format config.toKeying M.replay restored.2 wal readOnly
          maxWalRecordBytes restored with
      | .error (.io e) => .error (M.failure (.durable e))
      | .error (.apply e) => .error e
      | .ok result => .ok result

/-- The log without what follows its last record. -/
def Disk.truncateWal (disk : Disk) (length : ℕ) : Disk :=
  { disk with wal := disk.wal.write (some ((disk.wal.visible.getD []).take length)) }

def openWithAccess (disk : Disk) (readOnly : Bool) : Except Error (DurableStore State × Disk) :=
  match loadDurableState M format config disk.snapshot.visible disk.wal.visible readOnly with
  | .error e => .error e
  | .ok ((state, lastSeq), cut) =>
    let store := ⟨state, none, lastSeq, 0, readOnly⟩
    match cut with
    | none => .ok (store, disk)
    | some length =>
      let disk := disk.truncateWal length
      .ok (store, { disk with wal := disk.wal.sync })

/-! ### Writing -/

def appendWalRecord (wal : DiskFile) (seq : ℕ) (op : Op) (io : AppendIo) :
    Except DurableIoError Unit × DiskFile :=
  match encodeRecord format config.toKeying seq op maxWalRecordBytes with
  | .error e => (.error e, wal)
  | .ok record =>
    match io with
    | .unopened => (.error (.other .file), wal)
    | .written count => (.error (.other .file), wal.append record count)
    | .synced => (.ok (), (wal.append record record.length).sync)

/-- `checkpoint_state` and `checkpoint_locked`, with `write_snapshot` and `clear_wal`. -/
def checkpointState (state : State) (lastSeq : ℕ) (disk : Disk) (io : CheckpointIo) :
    Except Error Unit × Disk :=
  match encodeSnapshot format config.toKeying lastSeq (M.toSnapshot state) maxSnapshotBytes with
  | .error e => (.error (M.failure (.durable e)), disk)
  | .ok bytes =>
    let failed := .error (M.failure (.durable (.other .file)))
    match io with
    | .unrenamed => (failed, disk)
    | .renamed => (failed, { disk with snapshot := disk.snapshot.write (some bytes) })
    | .unopened => (failed, { disk with snapshot := .synced (some bytes) })
    | .cleared => (failed, ⟨.synced (some bytes), disk.wal.write (some [])⟩)
    | .synced => (.ok (), ⟨.synced (some bytes), .synced (some [])⟩)

variable (store : DurableStore State)

/-- `require_writable` and `ensure_writable`. -/
def DurableStore.ensureWritable : Except Error Unit :=
  if store.readOnly then .error (M.failure .readOnly)
  else
    match store.writeFence with
    | some reason => .error (M.failure (.fenced reason))
    | none => .ok ()

def DurableStore.checkpoint (disk : Disk) (io : CheckpointIo) :
    Except Error Unit × DurableStore State × Disk :=
  match store.ensureWritable M with
  | .error e => (.error e, store, disk)
  | .ok () =>
    match checkpointState M format config store.state store.lastSeq disk io with
    | (.error e, disk) => (.error e, store, disk)
    | (.ok (), disk) => (.ok (), { store with opsSinceCheckpoint := 0 }, disk)

/-- The checks of `record_mutation` before the append, with the sequence number. -/
def DurableStore.admitMutation (op : Op) : Except Error ℕ := do
  store.ensureWritable M
  M.verify op
  M.validateMutation store.state op config.maxBytes
  if store.lastSeq < u64Max then return store.lastSeq + 1
  else throw (M.failure .sequenceExhausted)

/-- The automatic checkpoint of `record_mutation`, whose failure is only logged. -/
def DurableStore.checkpointIfDue (disk : Disk) (io : CheckpointIo) : DurableStore State × Disk :=
  if 0 < config.checkpointAfterOps then
    let ops := saturatingAdd store.opsSinceCheckpoint 1
    if config.checkpointAfterOps ≤ ops then
      match checkpointState M format config store.state store.lastSeq disk io with
      | (.error _, disk) => ({ store with opsSinceCheckpoint := ops }, disk)
      | (.ok (), disk) => ({ store with opsSinceCheckpoint := 0 }, disk)
    else ({ store with opsSinceCheckpoint := ops }, disk)
  else (store, disk)

/-- Whether a failed append leaves the log in doubt. -/
def DurableIoError.needsRecovery : DurableIoError → Bool
  | .rejectedBeforeWrite _ => false
  | _ => true

def DurableStore.recordMutation (disk : Disk) (op : Op)
    (io : AppendIo) (checkpointIo : CheckpointIo) :
    Except Error Unit × DurableStore State × Disk :=
  match store.admitMutation M config op with
  | .error e => (.error e, store, disk)
  | .ok seq =>
    match appendWalRecord format config disk.wal seq op io with
    | (.error e, wal) =>
      (.error (M.failure (.durable e)),
        if e.needsRecovery then { store with writeFence := some e } else store,
        { disk with wal := wal })
    | (.ok (), wal) =>
      let store := { store with lastSeq := seq }
      let disk := { disk with wal := wal }
      match M.applyLoadedMutation store.state op with
      | .error e => (.error e, store, disk)
      | .ok state =>
        (.ok (), DurableStore.checkpointIfDue M format config { store with state := state } disk
          checkpointIo)

/-! ### Runs with crashes -/

/-- A mutation that got as far as the log. -/
structure Attempt (Op : Type) where
  op : Op
  acknowledged : Bool

/-- A store with its files, and what happened to it. -/
structure StoreSystem (State Op : Type) where
  disk : Disk
  running : Option (DurableStore State)
  /-- The mutations that got as far as the log, back to the empty store. What a reopened store
  does not contain is no longer counted. -/
  history : List (Attempt Op)

/-- One thing that happens to a store. -/
inductive StoreEvent (Op : Type)
  /-- A mutation, how far its file operations get, and whether the process lives on and the
  caller gets the answer. -/
  | mutate (op : Op) (io : AppendIo) (checkpointIo : CheckpointIo) (returns : Bool)
  | checkpoint (io : CheckpointIo) (returns : Bool)
  | die
  /-- The machine crashes; every file is left with one of its possible contents. -/
  | crash (snapshotChoice walChoice : ℕ)
  | reopen
  /-- The store is opened again, and the process dies before the truncated log is synced. -/
  | reopenInterrupted

/-- Whether a mutation gets as far as the log. -/
def DurableStore.reachesLog (op : Op) : Bool :=
  match store.admitMutation M config op with
  | .error _ => false
  | .ok seq => (encodeRecord format config.toKeying seq op maxWalRecordBytes).isOk

/-- One step of a store with its files. -/
def StoreSystem.step (sys : StoreSystem State Op) : StoreEvent Op → StoreSystem State Op
  | .mutate op io checkpointIo returns =>
    match sys.running with
    | none => sys
    | some store =>
      if M.addressable store.state op then
        let (result, store', disk) := store.recordMutation M format config sys.disk op io checkpointIo
        { disk := disk
          running := if returns then some store' else none
          history :=
            if store.reachesLog M format config op then
              sys.history ++ [⟨op, returns && result.isOk⟩]
            else sys.history }
      else sys
  | .checkpoint io returns =>
    match sys.running with
    | none => sys
    | some store =>
      let (_, store', disk) := store.checkpoint M format config sys.disk io
      { sys with disk := disk, running := if returns then some store' else none }
  | .die => { sys with running := none }
  | .crash snapshotChoice walChoice =>
    { sys with
      disk := ⟨sys.disk.snapshot.crash snapshotChoice, sys.disk.wal.crash walChoice⟩
      running := none }
  | .reopen =>
    match openWithAccess M format config sys.disk false with
    | .error _ => { sys with running := none }
    | .ok (store, disk) => ⟨disk, some store, sys.history.take store.lastSeq⟩
  | .reopenInterrupted =>
    match loadDurableState M format config sys.disk.snapshot.visible sys.disk.wal.visible
        false with
    | .ok (_, some length) => { sys with disk := sys.disk.truncateWal length, running := none }
    | _ => { sys with running := none }

/-- An empty directory and no process. -/
def StoreSystem.initial : StoreSystem State Op := ⟨⟨.synced none, .synced none⟩, none, []⟩

/-- A run of a store, from an empty directory on. -/
def StoreSystem.run (events : List (StoreEvent Op)) : StoreSystem State Op :=
  events.foldl (StoreSystem.step M format config) .initial

end Flywheel.Store
