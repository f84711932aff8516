import Flywheel.Store.CrashRecovery
import Flywheel.Store.Objects
import Flywheel.Store.Symbols
import Flywheel.Store.Tampering
import Mathlib.Data.Countable.Basic
import Mathlib.Logic.Equiv.List
import Mathlib.Tactic.DeriveCountable

/-!
# The two durable stores

Crash recovery and tamper evidence of `DurableObjectStore` and `DurableSymbolStore`. What
holds of every durable store that refines an abstract one is stated here for the two.
-/

namespace Flywheel.Store

open Flywheel.Core Flywheel.Data StoreSystem List

/-! ### Recovered states -/

/-- An object store with exactly the state after the first mutations of a history. The bytes
in use and the zones are the ones computed from its objects. -/
structure RecoveredObjects (codec : Codec) (serde : Serde ObjectHeader)
    (verifier : Option ObjectIdVerifier) (ops : List ObjectWalOp) (k : ℕ)
    (store : DurableStore DurableObjectState) : Prop where
  run_eq : (objectSpec codec serde verifier).run (ops.take k) = some store.state.objects
  lastSeq_eq : store.lastSeq = k
  usedBytes_eq : store.state.usedBytes = store.state.objects.totalSize codec serde
  listZone_perm : ∀ zone, (store.state.listZone zone).Perm (store.state.objects.zoneIds zone)
  mem_zoneIndex : ∀ zone, zone ∈ store.state.zoneIndex ↔ store.state.objects.zoneIds zone ≠ []

/-- A symbol store with exactly the state after the first mutations of a history. The bytes
in use are the ones computed from its symbols. -/
structure RecoveredSymbols (ops : List SymbolWalOp) (k : ℕ)
    (store : DurableStore DurableSymbolState) : Prop where
  run_eq : symbolSpec.run (ops.take k) = some store.state.objects
  lastSeq_eq : store.lastSeq = k
  usedBytes_eq : store.state.usedBytes = store.state.objects.totalSize

theorem recoveredObjects_of_reached {codec : Codec} {serde : Serde ObjectHeader}
    {verifier : Option ObjectIdVerifier} {ops : List ObjectWalOp} {k : ℕ}
    {store : DurableStore DurableObjectState}
    (h : (objectRefinement codec serde verifier).Reached ops k (store.state, store.lastSeq)) :
    RecoveredObjects codec serde verifier ops k store := by
  have hinv := h.inv
  exact ⟨h.run_eq, h.seq_eq, hinv.usedBytes_eq, fun zone => (hinv.zones_eq zone).1,
    fun zone => (hinv.zones_eq zone).2⟩

theorem recoveredSymbols_of_reached {ops : List SymbolWalOp} {k : ℕ}
    {store : DurableStore DurableSymbolState}
    (h : symbolRefinement.Reached ops k (store.state, store.lastSeq)) :
    RecoveredSymbols ops k store := by
  have hinv : store.state.Inv := h.inv
  exact ⟨h.run_eq, h.seq_eq, hinv.usedBytes_eq⟩

section Stores

variable {State Op Payload Error View : Type} (M : Machine State Op Payload Error)
  (format : EnvelopeFormat Op Payload) (config : DurableConfig)
  (Recovered : List Op → ℕ → DurableStore State → Prop)

/-! ### Crashes -/

/-- After every run, with any number of crashes, the store opens with the state after a part
of its history that has every acknowledged mutation. -/
def Recovers : Prop :=
  ∀ events : List (StoreEvent Op), ∃ store disk k,
    openWithAccess M format config (run M format config events).disk false =
      .ok (store, disk) ∧
    k ≤ (run M format config events).history.length ∧
    Unacknowledged ((run M format config events).history.drop k) ∧
    Recovered (opsOf (run M format config events).history) k store

/-- When an append to the log fails, in any run, nothing gets as far as the log after it
before the store is reopened. -/
def FencesFailedAppends : Prop :=
  ∀ (events later : List (StoreEvent Op)) (op : Op) (io : AppendIo) (checkpointIo : CheckpointIo)
    (returns : Bool), io ≠ .synced → (∀ event ∈ later, event ≠ .reopen) →
    (run M format config (events ++ [.mutate op io checkpointIo returns])).history ≠
      (run M format config events).history →
    (run M format config
        (events ++ [.mutate op io checkpointIo returns] ++ later)).history =
      (run M format config events).history ++ [⟨op, false⟩]

variable {M} (R : Refinement M View) {format Recovered}

theorem recovers_of_refinement (hformat : format.Lawful)
    (hreached : ∀ {ops k store}, R.Reached ops k (store.state, store.lastSeq) →
      Recovered ops k store) : Recovers M format config Recovered := by
  intro events
  obtain ⟨top, tail, hdisk⟩ := (systemInv_run R hformat events).exists_disk
  obtain ⟨store, disk, hopen, -, -, h, -⟩ := hdisk.reopen hformat
  exact ⟨store, disk, top, hopen, hdisk.top_le, hdisk.unacknowledged, hreached h⟩

theorem fencesFailedAppends : FencesFailedAppends M format config := by
  intro events later op io checkpointIo returns hio hlater hattempt
  simp only [run, foldl_append, foldl_cons] at hattempt ⊢
  set sys : StoreSystem State Op := foldl (step M format config) initial events
  rcases step_mutate_cases M format config sys op io checkpointIo returns with hstep |
    ⟨store, -, ⟨-, hstep⟩ | ⟨-, hreaches, hstep⟩⟩
  · exact absurd (congrArg history hstep) hattempt
  · exact absurd (congrArg history hstep) hattempt
  · obtain ⟨-, line, hchecked, hencode⟩ := exists_of_reachesLog hreaches
    obtain ⟨e, fence, disk', hfailed, -⟩ :=
      recordMutation_of_failed hchecked hencode sys.disk hio checkpointIo
    have hfalse : (returns && (Except.error e : Except Error Unit).isOk) = false :=
      Bool.and_false returns
    rw [hstep, hfailed, hfalse]
    exact (stopped_of_fenced (Option.some_ne_none fence) returns _ _).history_eq hlater

/-! ### Tampering -/

variable (M format Recovered) in
/-- Whatever is in the files, if the MACs in them were all computed for one history, opening
fails or yields the state at a place of the history that is not before the snapshot's. -/
def OpensGenuine (key : Bytes 32) (ops : List Op) : Prop :=
  ∀ (disk : Disk) (readOnly : Bool),
    Unforged R format key ops disk.snapshot.visible disk.wal.visible →
    ∀ store disk', openWithAccess M format config disk readOnly = .ok (store, disk') →
      ∃ k ≤ ops.length, Recovered ops k store ∧
        ∀ bytes envelope, disk.snapshot.visible = some bytes →
          format.readSnapshot bytes = some envelope → envelope.lastSeq ≤ k

/-- A store that refines an abstract one opens genuine files only. -/
theorem opensGenuine_of_refinement {key : Bytes 32} {ops : List Op} {v : View}
    (hformat : format.Separates) (hkey : config.macKey = some key)
    (hlegacy : config.allowLegacyUnauth = false) (hrun : R.spec.run ops = some v)
    (hreached : ∀ {ops k store}, R.Reached ops k (store.state, store.lastSeq) →
      Recovered ops k store) : OpensGenuine M format config Recovered R key ops := by
  intro disk readOnly hunforged store disk' hopen
  rw [openWithAccess] at hopen
  split at hopen
  · cases hopen
  rename_i state lastSeq cut hload
  obtain ⟨k, hk, h, hsnapshot⟩ :=
    reached_of_loadDurableState hformat hkey hlegacy hrun hunforged hload
  refine ⟨k, hk, hreached ?_, hsnapshot⟩
  cases cut <;> cases hopen <;> exact h

end Stores

/-! ### A format for one record -/

section Format

instance instCountableUInt8 : Countable UInt8 :=
  Function.Injective.countable fun _ _ => UInt8.toNat_inj.mp

instance instCountableUInt16 : Countable UInt16 :=
  Function.Injective.countable fun _ _ => UInt16.toNat_inj.mp

instance instCountableUInt32 : Countable UInt32 :=
  Function.Injective.countable fun _ _ => UInt32.toNat_inj.mp

instance instCountableUInt64 : Countable UInt64 :=
  Function.Injective.countable fun _ _ => UInt64.toNat_inj.mp

instance instCountableChar : Countable Char :=
  Function.Injective.countable fun _ _ => Char.toNat_inj.mp

instance instCountableString : Countable String :=
  Function.Injective.countable fun _ _ => String.toList_inj.mp

instance instCountableBytes (n : ℕ) : Countable (Bytes n) :=
  inferInstanceAs (Countable { bytes : List UInt8 // bytes.length = n })

deriving instance Countable for SchemaId, RetentionClass, StorageMeta, ObjectHeader, StoredObject,
  ObjectWalOp, ObjectTransmissionInfo, ObjectSymbolMeta, SymbolMeta, StoredSymbol,
  SymbolSnapshotEntry, SymbolWalOp, WalEnvelope, SnapshotEnvelope

variable {α Op Payload : Type}

def ones (n : ℕ) : List UInt8 := replicate n 0x31

/-- A row of ones for a value. -/
noncomputable def code [Countable α] (x : α) : ℕ := (exists_injective_nat α).choose x

theorem code_injective [Countable α] : Function.Injective (code (α := α)) :=
  (exists_injective_nat α).choose_spec

theorem ones_injective : Function.Injective ones := fun m n h => by
  simpa [ones] using congrArg length h

theorem ones_ne {text : List UInt8} {b : UInt8} (hhead : text.head? = some b) (hb : b ≠ 0x31)
    (n : ℕ) : ones n ≠ text := by
  rintro rfl
  exact hb (eq_of_mem_replicate (mem_of_mem_head? hhead))

open Classical in
/-- Write one value as a given text, and every other one as a row of ones. -/
noncomputable def writeOne [Countable α] (value : α) (text : List UInt8) (x : α) : List UInt8 :=
  if x = value then text else ones (code x)

theorem writeOne_injective [Countable α] {value : α} {text : List UInt8} {b : UInt8}
    (hhead : text.head? = some b) (hb : b ≠ 0x31) :
    Function.Injective (writeOne value text) := by
  intro x y h
  unfold writeOne at h
  split_ifs at h with hx hy hy
  · rw [hx, hy]
  · exact absurd h.symm (ones_ne hhead hb _)
  · exact absurd h (ones_ne hhead hb _)
  · exact code_injective (ones_injective h)

open Classical in
/-- A format with the JSON and the checksum of one record. Everything else is written as rows
of ones. -/
noncomputable def formatOf [Countable Op] [Countable Payload] (record : WalEnvelope Op)
    (line tuple : List UInt8) (key : Option (Bytes 32)) : EnvelopeFormat Op Payload where
  walTuple version seq op :=
    writeOne (record.version, record.seq, record.op) tuple (version, seq, op)
  snapshotTuple version seq payload := 0x32 :: ones (code (version, seq, payload))
  writeWal := writeOne record line
  readWal := Function.partialInv fun envelope => writeOne record line envelope ++ [newline]
  writeSnapshot envelope := ones (code envelope)
  readSnapshot := Function.partialInv fun envelope => ones (code envelope)
  blake3 key' bytes :=
    if key' = key ∧ bytes = tuple then record.checksum else arrayOf 32 []

variable [Countable Op] [Countable Payload] {record : WalEnvelope Op} {line tuple : List UInt8}
  {key : Option (Bytes 32)}

/-- The format reads back what it writes. -/
theorem formatOf_lawful (hline : newline ∉ line) (hhead : line.head? = some 0x7b) :
    (formatOf record line tuple key : EnvelopeFormat Op Payload).Lawful where
  newline_not_mem envelope := by
    rw [formatOf]
    simp only [writeOne]
    split_ifs with h
    · exact hline
    · intro hmem
      exact absurd (eq_of_mem_replicate hmem) (by decide)
  readWal_writeWal envelope _ := by
    refine Function.partialInv_left (fun x y h => ?_) envelope
    exact writeOne_injective hhead (by decide) (append_cancel_right h)
  readSnapshot_writeSnapshot envelope _ :=
    Function.partialInv_left (fun x y h => code_injective (ones_injective h)) envelope

/-- The format separates what it computes checksums for. -/
theorem formatOf_separates (hhead : tuple.head? = some 0x5b) :
    (formatOf record line tuple key : EnvelopeFormat Op Payload).Separates where
  walTuple_inj {version seq op version' seq' op'} h := by
    have heq := writeOne_injective hhead (by decide) h
    simp only [Prod.mk.injEq] at heq
    exact heq.2
  snapshotTuple_inj {version seq payload version' seq' payload'} h := by
    have heq := code_injective (ones_injective (cons.inj h).2)
    simp only [Prod.mk.injEq] at heq
    exact heq.2
  walTuple_ne {version seq op version' seq' payload} h := by
    rw [formatOf] at h
    simp only [writeOne] at h
    split_ifs at h with heq
    · rw [h] at hhead
      exact absurd (Option.some.inj hhead) (by decide)
    · exact ones_ne head?_cons (by decide) _ h

/-- The line of the record in a log. -/
theorem encodeRecord_formatOf {keying : Keying} (hkey : keying.macKey = key)
    (hversion : keying.version = record.version) {maxBytes : ℕ} (htuple : tuple.length ≤ maxBytes)
    (hline : line.length < maxBytes) :
    encodeRecord (formatOf record line tuple key : EnvelopeFormat Op Payload) keying record.seq
      record.op maxBytes = .ok (line ++ [newline]) := by
  set format : EnvelopeFormat Op Payload := formatOf record line tuple key
  have hjson : format.walTuple keying.version record.seq record.op = tuple := by
    rw [hversion]
    exact if_pos rfl
  have hhash : hashJsonBounded format keying.macKey tuple maxBytes = some record.checksum := by
    rw [hashJsonBounded, if_pos htuple, hkey]
    exact congrArg some (if_pos ⟨rfl, rfl⟩)
  have hwrite : format.writeWal ⟨keying.version, record.seq, record.checksum, record.op⟩ = line := by
    rw [hversion]
    exact if_pos rfl
  rw [encodeRecord, hjson, hhash]
  simp only [hwrite]
  rw [if_neg (by omega), if_neg (by omega)]

/-- The record alone in a log is not forged. -/
theorem unforged_formatOf {State Error View : Type} {M : Machine State Op Payload Error}
    {R : Refinement M View} {key : Bytes 32} (hline : newline ∉ line)
    (hhead : line.head? = some 0x7b) (hlen : line.length < maxWalRecordBytes)
    (hversion : record.version = versionV2) (hseq : record.seq = 1) :
    Unforged R (formatOf record line tuple (some key)) key [record.op] none
      (some (line ++ [newline])) where
  snapshot bytes envelope h := by cases h
  wal bytes raw envelope hbytes hraw hread _ := by
    cases hbytes
    rw [chunks_line hline hlen, chunks_tail not_mem_nil (Nat.zero_le _), if_pos rfl,
      mem_singleton] at hraw
    have hlawful : (formatOf record line tuple (some key) : EnvelopeFormat Op Payload).Lawful :=
      formatOf_lawful hline hhead
    have hrecord : (formatOf record line tuple (some key) : EnvelopeFormat Op Payload).readWal
        (line ++ [newline]) = some record := by
      have hback := hlawful.readWal_writeWal record (by rw [hseq]; decide)
      simpa only [formatOf, writeOne, if_true] using hback
    rw [Chunk.line.inj hraw, hrecord] at hread
    cases hread
    rw [hversion, hseq]
    have hop : [record.op][0]? = some record.op := rfl
    exact .record hop

end Format

/-! ### Two records -/

def demoObjectId : ObjectId := arrayOf 32 (replicate 32 7)

/-- Metadata of an object of four symbols. -/
def demoMeta : ObjectSymbolMeta where
  objectId := demoObjectId
  zoneId := "z:work"
  oti := ⟨1024, 256, 1, 1, 8, none⟩
  sourceSymbols := 4
  firstSymbolAt := 1000

/-- The JSON of the mutation that adds the metadata. -/
def demoMetaJson : String :=
  "\x7b\"PutObjectMeta\":\x7b\"object_id\":\"" ++ hexEncode demoObjectId.toList ++
  "\",\"zone_id\":\"z:work\",\"oti\":\x7b\"transfer_length\":1024,\"symbol_size\":256," ++
  "\"source_blocks\":1,\"sub_blocks\":1,\"alignment\":8\x7d,\"source_symbols\":4," ++
  "\"first_symbol_at\":1000\x7d\x7d"

/-- The JSON of the mutation that removes the object. -/
def demoDeleteJson : String :=
  "\x7b\"Delete\":\x7b\"object_id\":\"" ++ hexEncode demoObjectId.toList ++ "\"\x7d\x7d"

variable (version : ℕ)

/-- The JSON of the first record's version, sequence number and mutation. -/
def demoTuple (json : String) : List UInt8 :=
  utf8 ("[" ++ Nat.repr version ++ ",1," ++ json ++ "]")

variable (checksum : List ℕ)

def demoLine (json : String) : List UInt8 :=
  utf8 ("\x7b\"version\":" ++ Nat.repr version ++ ",\"seq\":1,\"checksum\":[" ++
    ",".intercalate (checksum.map Nat.repr) ++ "],\"op\":" ++ json ++ "\x7d")

def demoKey : Bytes 32 := arrayOf 32 (replicate 32 9)

/-- The BLAKE3 hash of the metadata's record. -/
def demoMetaHash : List ℕ :=
  [98,40,74,192,12,245,50,14,77,87,8,64,89,154,135,159,177,206,6,61,67,39,
    114,133,45,155,27,1,161,111,57,141]

/-- The keyed BLAKE3 hash of the metadata's record. -/
def demoMetaMac : List ℕ :=
  [239,211,35,34,13,143,183,83,61,67,211,223,148,86,132,32,240,75,101,27,250,
    22,156,32,207,29,0,64,107,211,216,229]

/-- The BLAKE3 hash of the removal's record. -/
def demoDeleteHash : List ℕ :=
  [59,146,192,103,250,68,205,164,204,87,58,119,170,152,210,121,220,237,122,121,
    158,197,192,178,71,252,23,15,55,94,42,131]

/-- The keyed BLAKE3 hash of the removal's record. -/
def demoDeleteMac : List ℕ :=
  [165,248,217,217,99,164,255,155,181,198,81,118,141,138,95,29,235,102,250,32,
    23,243,116,81,238,135,31,250,243,30,226,205]

def demoRecord {Op : Type} (version : ℕ) (checksum : List ℕ) (op : Op) : WalEnvelope Op :=
  ⟨version, 1, arrayOf 32 (checksum.map UInt8.ofNat), op⟩

/-- The format of a symbol store whose first record adds the metadata. -/
noncomputable def demoSymbolFormat (key : Option (Bytes 32)) :
    EnvelopeFormat SymbolWalOp (List SymbolSnapshotEntry) :=
  formatOf (demoRecord version checksum (.putObjectMeta demoMeta))
    (demoLine version checksum demoMetaJson) (demoTuple version demoMetaJson) key

/-- The format of an object store whose first record removes the object. -/
noncomputable def demoObjectFormat (key : Option (Bytes 32)) :
    EnvelopeFormat ObjectWalOp (List StoredObject) :=
  formatOf (demoRecord version checksum (.delete demoObjectId))
    (demoLine version checksum demoDeleteJson) (demoTuple version demoDeleteJson) key

def demoConfig : DurableConfig := ⟨⟨none, false⟩, 1024 * 1024, 0⟩

def demoKeyedConfig : DurableConfig := ⟨⟨some demoKey, false⟩, 1024 * 1024, 0⟩

/-- CBOR of the fields of a header that the stores look into. -/
def demoHeaderSerde : Serde ObjectHeader where
  serialized header := some (.map
    [(.text "zone_id", .text header.zoneId), (.text "refs", .array (header.refs.map
        fun id => .bytes id.toList))])
  read _ _ := .error .malformed

/-- A mutation that an empty store accepts is acknowledged and stays in the history. -/
theorem history_of_first {State Op Payload Error : Type} {M : Machine State Op Payload Error}
    {format : EnvelopeFormat Op Payload} {config : DurableConfig} {op : Op} {line : List UInt8}
    {state : State}
    (hchecked : (⟨M.initial, none, 0, 0, false⟩ : DurableStore State).admitMutation M config op =
      .ok 1)
    (hencode : encodeRecord format config.toKeying 1 op maxWalRecordBytes = .ok line)
    (haddressable : M.addressable M.initial op = true)
    (happly : M.applyLoadedMutation M.initial op = .ok state) :
    (run M format config
      [.reopen, .mutate op .synced .unrenamed true, .crash 0 0]).history = [⟨op, true⟩] := by
  have hopen : step M format config .initial .reopen =
      ⟨⟨.synced none, .synced none⟩, some ⟨M.initial, none, 0, 0, false⟩, []⟩ := rfl
  have hreaches : (⟨M.initial, none, 0, 0, false⟩ : DurableStore State).reachesLog M format config
      op = true := by
    rw [DurableStore.reachesLog, hchecked]
    simp only [hencode]
    rfl
  have hresult : (⟨M.initial, none, 0, 0, false⟩ : DurableStore State).recordMutation M format
      config ⟨.synced none, .synced none⟩ op .synced .unrenamed = _ :=
    recordMutation_of_synced hchecked hencode happly .unrenamed
  simp only [run, foldl_cons, hopen]
  simp only [step, haddressable, hreaches, hresult]
  rfl

/-! ### The stores -/

variable {codec : Codec} {serde : Serde ObjectHeader} {verifier : Option ObjectIdVerifier}
  {objectFormat : EnvelopeFormat ObjectWalOp (List StoredObject)}
  {symbolFormat : EnvelopeFormat SymbolWalOp (List SymbolSnapshotEntry)}

/-- Both durable stores recover from crashes, with every acknowledged mutation, and a failed
append keeps them from acknowledging anything before they are reopened. -/
theorem durable_stores_recover (hobjects : objectFormat.Lawful) (hsymbols : symbolFormat.Lawful)
    (objectConfig symbolConfig : DurableConfig) :
    Recovers (objectMachine codec serde verifier) objectFormat objectConfig
        (RecoveredObjects codec serde verifier) ∧
      FencesFailedAppends (objectMachine codec serde verifier) objectFormat objectConfig ∧
      Recovers symbolMachine symbolFormat symbolConfig RecoveredSymbols ∧
      FencesFailedAppends symbolMachine symbolFormat symbolConfig :=
  ⟨recovers_of_refinement objectConfig (objectRefinement codec serde verifier) hobjects
      recoveredObjects_of_reached,
    fencesFailedAppends objectConfig,
    recovers_of_refinement symbolConfig symbolRefinement hsymbols recoveredSymbols_of_reached,
    fencesFailedAppends symbolConfig⟩

/-- The metadata is added, the machine crashes, and the store recovers. -/
theorem added_metadata_recovers :
    (run symbolMachine (demoSymbolFormat 1 demoMetaHash none) demoConfig
        [.reopen, .mutate (.putObjectMeta demoMeta) .synced .unrenamed true, .crash 0 0]).history =
      [⟨.putObjectMeta demoMeta, true⟩] ∧
    Recovers (objectMachine cborCodec demoHeaderSerde none)
        (demoObjectFormat 1 demoDeleteHash none) demoConfig
        (RecoveredObjects cborCodec demoHeaderSerde none) ∧
      FencesFailedAppends (objectMachine cborCodec demoHeaderSerde none)
        (demoObjectFormat 1 demoDeleteHash none) demoConfig ∧
      Recovers symbolMachine (demoSymbolFormat 1 demoMetaHash none) demoConfig
        RecoveredSymbols ∧
      FencesFailedAppends symbolMachine (demoSymbolFormat 1 demoMetaHash none) demoConfig := by
  have hobjects : (demoObjectFormat 1 demoDeleteHash none).Lawful :=
    formatOf_lawful (by decide +kernel) (by decide +kernel)
  have hsymbols : (demoSymbolFormat 1 demoMetaHash none).Lawful :=
    formatOf_lawful (by decide +kernel) (by decide +kernel)
  refine ⟨?_, durable_stores_recover hobjects hsymbols demoConfig demoConfig⟩
  have hencode : encodeRecord (demoSymbolFormat 1 demoMetaHash none) demoConfig.toKeying 1
      (.putObjectMeta demoMeta) maxWalRecordBytes =
        .ok (demoLine 1 demoMetaHash demoMetaJson ++ [newline]) :=
    encodeRecord_formatOf rfl rfl (by decide +kernel) (by decide +kernel)
  exact history_of_first rfl hencode rfl rfl

/-- Both durable stores, with a key and without legacy envelopes, open files only with a state
of the one history that MACs were computed for. -/
theorem durable_stores_tamper_evident (hobjects : objectFormat.Separates)
    (hsymbols : symbolFormat.Separates) {objectConfig symbolConfig : DurableConfig}
    {objectKey symbolKey : Bytes 32} (hobjectKey : objectConfig.macKey = some objectKey)
    (hsymbolKey : symbolConfig.macKey = some symbolKey)
    (hobjectLegacy : objectConfig.allowLegacyUnauth = false)
    (hsymbolLegacy : symbolConfig.allowLegacyUnauth = false)
    {objectOps : List ObjectWalOp} {symbolOps : List SymbolWalOp} {objects : ObjectMap}
    {symbols : SymbolObjectMap}
    (hobjectOps : (objectSpec codec serde verifier).run objectOps = some objects)
    (hsymbolOps : symbolSpec.run symbolOps = some symbols) :
    OpensGenuine (objectMachine codec serde verifier) objectFormat objectConfig
        (RecoveredObjects codec serde verifier) (objectRefinement codec serde verifier)
        objectKey objectOps ∧
      OpensGenuine symbolMachine symbolFormat symbolConfig RecoveredSymbols symbolRefinement
        symbolKey symbolOps :=
  ⟨opensGenuine_of_refinement objectConfig _ hobjects hobjectKey hobjectLegacy hobjectOps
      recoveredObjects_of_reached,
    opensGenuine_of_refinement symbolConfig _ hsymbols hsymbolKey hsymbolLegacy hsymbolOps
      recoveredSymbols_of_reached⟩

/-- A log with the record of the added metadata is opened for its history only. -/
theorem added_metadata_tamper_evident :
    Unforged symbolRefinement (demoSymbolFormat 2 demoMetaMac (some demoKey)) demoKey
        [.putObjectMeta demoMeta] none
        (some (demoLine 2 demoMetaMac demoMetaJson ++ [newline])) ∧
      OpensGenuine (objectMachine cborCodec demoHeaderSerde none)
        (demoObjectFormat 2 demoDeleteMac (some demoKey)) demoKeyedConfig
        (RecoveredObjects cborCodec demoHeaderSerde none)
        (objectRefinement cborCodec demoHeaderSerde none) demoKey [] ∧
      OpensGenuine symbolMachine (demoSymbolFormat 2 demoMetaMac (some demoKey)) demoKeyedConfig
        RecoveredSymbols symbolRefinement demoKey [.putObjectMeta demoMeta] := by
  have hobjects : (demoObjectFormat 2 demoDeleteMac (some demoKey)).Separates :=
    formatOf_separates (by decide +kernel)
  have hsymbols : (demoSymbolFormat 2 demoMetaMac (some demoKey)).Separates :=
    formatOf_separates (by decide +kernel)
  refine ⟨?_, durable_stores_tamper_evident hobjects hsymbols rfl rfl rfl rfl rfl rfl⟩
  exact unforged_formatOf (by decide +kernel) (by decide +kernel) (by decide +kernel) rfl rfl

end Flywheel.Store
