import Flywheel.Data.Results
import Flywheel.Store.Refinement
import Mathlib.Data.List.Induction

/-!
# Recovery after crashes

In every run of a durable store, whatever the crashes and the failures of file operations,
each content that a crash may leave leads to a place in the history of attempted mutations,
and that place is behind every acknowledged one. So reopening succeeds and yields the state
at such a place. After a failed append nothing is acknowledged until the store is reopened.
-/

namespace Flywheel.Store

open Flywheel.Data StoreSystem CrashFile DurableStore List

variable {State Op Payload Error View : Type} {M : Machine State Op Payload Error}
  (history : List (Attempt Op))

def opsOf : List Op := history.map Attempt.op

@[simp] theorem length_opsOf :
    (opsOf history).length = history.length := length_map _

theorem opsOf_append_singleton (attempt : Attempt Op) :
    opsOf (history ++ [attempt]) = opsOf history ++ [attempt.op] := map_append

theorem opsOf_take (k : ℕ) :
    opsOf (history.take k) = (opsOf history).take k := map_take

/-- None of some attempts was acknowledged. -/
def Unacknowledged (attempts : List (Attempt Op)) : Prop :=
  ∀ attempt ∈ attempts, attempt.acknowledged = false

section Disk

variable (R : Refinement M View) (format : EnvelopeFormat Op Payload) (keying : Keying)

/-- The files of a store belong to a history. What readers see leads to the mutation `top`,
with an unfinished record behind it. -/
structure DiskInv (history : List (Attempt Op)) (disk : Disk) (top : ℕ) (tail : List UInt8) :
    Prop where
  length_le : history.length ≤ u64Max
  exists_run : ∃ v, R.spec.run (opsOf history) = some v
  /-- What readers see of the log leads from every snapshot to the same place. -/
  visible : ∃ entries, LogAt format keying disk.wal.visible entries tail ∧
    ∀ snapshot ∈ disk.snapshot.possible,
      LeadsTo R format keying (opsOf history) snapshot entries top
  /-- What a crash may leave leads to a place behind every acknowledged mutation. -/
  possible : ∀ wal ∈ disk.wal.possible, ∃ entries tail, LogAt format keying wal entries tail ∧
    ∀ snapshot ∈ disk.snapshot.possible, ∃ k ≤ top,
      LeadsTo R format keying (opsOf history) snapshot entries k ∧
        Unacknowledged (history.drop k)

variable {R format keying} {history : List (Attempt Op)} {disk : Disk} {top : ℕ}
  {tail : List UInt8}

theorem logAt_empty {file : Option (List UInt8)} (h : file.getD [] = []) :
    LogAt format keying file [] [] where
  isLog := ⟨forall_mem_nil _, pairwise_singleton _ 0⟩
  newline_not_mem := not_mem_nil
  length_le := Nat.zero_le _
  bytes_eq := h

namespace DiskInv

/-- The files of a new store belong to the empty history. -/
theorem initial : DiskInv R format keying [] ⟨.synced none, .synced none⟩ 0 [] := by
  have hleads : LeadsTo R format keying (opsOf []) none [] 0 := ⟨0, .missing, .nil 0⟩
  refine ⟨Nat.zero_le _, ⟨R.spec.initial, rfl⟩,
    ⟨[], logAt_empty rfl, forall_possible_synced.mpr hleads⟩, ?_⟩
  refine forall_possible_synced.mpr ⟨[], [], logAt_empty rfl, forall_possible_synced.mpr ?_⟩
  exact ⟨0, Nat.le_refl 0, hleads, forall_mem_nil _⟩

theorem top_le (h : DiskInv R format keying history disk top tail) : top ≤ history.length := by
  obtain ⟨entries, -, hleads⟩ := h.visible
  have hle := (hleads _ visible_mem_possible).le_length
  rwa [length_opsOf] at hle

/-- Files that a crash may leave with fewer contents. -/
theorem mono {disk' : Disk} (h : DiskInv R format keying history disk top tail)
    (hsnapshot : ∀ s ∈ disk'.snapshot.possible, s ∈ disk.snapshot.possible)
    (hwal : ∀ w ∈ disk'.wal.possible, w ∈ disk.wal.possible)
    (hvisible : disk'.wal.visible = disk.wal.visible) :
    DiskInv R format keying history disk' top tail := by
  obtain ⟨entries, hlog, hleads⟩ := h.visible
  refine ⟨h.length_le, h.exists_run, ⟨entries, by rwa [hvisible], ?_⟩, ?_⟩
  · exact fun s hs => hleads s (hsnapshot s hs)
  · intro wal hmem
    obtain ⟨entries, tail, hlog, hleads⟩ := h.possible wal (hwal wal hmem)
    exact ⟨entries, tail, hlog, fun s hs => hleads s (hsnapshot s hs)⟩

variable {entries : List (LogEntry Op)}

/-- A change of the log that keeps what readers see leading to a place. -/
theorem writeWal (h : DiskInv R format keying history disk top tail) {content : Option (List UInt8)}
    (hlog : LogAt format keying content entries []) (hleads : ∀ snapshot ∈ disk.snapshot.possible,
      LeadsTo R format keying (opsOf history) snapshot entries top)
    (hack : Unacknowledged (history.drop top)) :
    DiskInv R format keying history { disk with wal := disk.wal.write content } top [] := by
  refine ⟨h.length_le, h.exists_run, ⟨entries, hlog, hleads⟩, ?_⟩
  intro wal hwal
  rcases mem_possible_write.mp hwal with rfl | hwal
  · exact ⟨entries, [], hlog, fun snapshot hmem =>
      ⟨top, Nat.le_refl top, hleads snapshot hmem, hack⟩⟩
  · exact h.possible wal hwal

/-! ### Attempts -/

variable {snapshot : Option (List UInt8)}

theorem leadsTo_append_singleton
    {k : ℕ} (h : LeadsTo R format keying (opsOf history) snapshot entries k)
    (attempt : Attempt Op) :
    LeadsTo R format keying (opsOf (history ++ [attempt])) snapshot entries k := by
  have hle := h.le_length
  rw [opsOf_append_singleton]
  refine h.congr (take_append_of_le_length hle) ?_
  rw [length_append]
  omega

/-- A history with an attempt that did not get into the log. -/
theorem attempt (h : DiskInv R format keying history disk history.length tail)
    (hlen : history.length < u64Max) {op : Op} {v : View}
    (hrun : R.spec.run (opsOf history ++ [op]) = some v) :
    DiskInv R format keying (history ++ [⟨op, false⟩]) disk history.length tail := by
  obtain ⟨entries, hlog, hleads⟩ := h.visible
  refine ⟨?_, ⟨v, by rwa [opsOf_append_singleton]⟩, ⟨entries, hlog, ?_⟩, ?_⟩
  · rw [length_append, length_singleton]
    omega
  · exact fun snapshot hsnapshot => leadsTo_append_singleton (hleads snapshot hsnapshot) _
  · intro wal hwal
    obtain ⟨entries, tail, hlog, hleads⟩ := h.possible wal hwal
    refine ⟨entries, tail, hlog, fun snapshot hsnapshot => ?_⟩
    obtain ⟨k, hk, hleads, hack⟩ := hleads snapshot hsnapshot
    refine ⟨k, hk, leadsTo_append_singleton hleads _, ?_⟩
    rw [drop_append_of_le_length hk]
    intro attempt hmem
    rcases mem_append.mp hmem with hmem | hmem
    · exact hack attempt hmem
    · rw [mem_singleton.mp hmem]

/-- Where an append of the first bytes of a record leads to. -/
def appendedTop (n count : ℕ) (line : List UInt8) : ℕ := if line.length ≤ count then n + 1 else n

/-- What an append of the first bytes of a record leaves unfinished. -/
def appendedTail (count : ℕ) (line : List UInt8) : List UInt8 :=
  if line.length ≤ count then [] else line.take count

/-- The entries after an append of the first bytes of a record. -/
def appendedEntries (entries : List (LogEntry Op)) (count : ℕ) (entry : LogEntry Op) :
    List (LogEntry Op) :=
  if entry.line.length ≤ count then entries ++ [entry] else entries

/-- Appending the first bytes of a record to a log. -/
theorem logAt_append {file : Option (List UInt8)}
    (entry : LogEntry Op) (h : LogAt format keying file entries [])
    (hseq : ∀ other ∈ entries, other.seq < entry.seq) (hpos : 0 < entry.seq)
    (hrecord : IsRecord format keying maxWalRecordBytes entry.seq entry.op entry.line) (count : ℕ) :
    LogAt format keying (some (file.getD [] ++ entry.line.take count))
      (appendedEntries entries count entry) (appendedTail count entry.line) := by
  have hbytes := h.bytes_eq
  rw [append_nil] at hbytes
  rw [appendedEntries, appendedTail]
  split_ifs with hcount
  · refine ⟨⟨?_, ?_⟩, not_mem_nil, Nat.zero_le _, ?_⟩
    · intro other hother
      rcases mem_append.mp hother with hother | hother
      · exact h.isLog.isRecord other hother
      · rw [mem_singleton.mp hother]
        exact hrecord
    · rw [map_append, ← cons_append, pairwise_append]
      refine ⟨h.isLog.increasing, pairwise_singleton _ _, ?_⟩
      intro a ha b hb
      rw [map_cons, map_nil, mem_singleton] at hb
      rw [hb]
      rcases mem_cons.mp ha with rfl | ha
      · exact hpos
      · obtain ⟨other, hother, rfl⟩ := mem_map.mp ha
        exact hseq other hother
    · rw [take_of_length_le hcount]
      simpa [logBytes] using hbytes
  · obtain ⟨body, hline, hnewline, hlen⟩ := hrecord.exists_body
    have hshort : count ≤ body.length := by
      rw [hline, length_append, length_singleton] at hcount
      omega
    have htake : entry.line.take count = body.take count := by
      rw [hline, take_append_of_le_length hshort]
    refine ⟨h.isLog, ?_, ?_, ?_⟩
    · rw [htake]
      exact fun hmem => hnewline (mem_of_mem_take hmem)
    · rw [length_take]
      omega
    · exact congrArg (· ++ entry.line.take count) hbytes

/-- Appending the first bytes of the next record leads from every snapshot to the same
place. -/
theorem leadsTo_append (h : LeadsTo R format keying (opsOf history) snapshot entries history.length)
    (attempt : Attempt Op) (line : List UInt8) (count : ℕ) :
    LeadsTo R format keying (opsOf (history ++ [attempt])) snapshot
      (appendedEntries entries count ⟨history.length + 1, attempt.op, line⟩)
      (appendedTop history.length count line) := by
  rw [appendedEntries, appendedTop]
  split_ifs with hcount
  · rw [← length_opsOf] at h
    have happend := h.append attempt.op line
    rwa [length_opsOf, ← opsOf_append_singleton] at happend
  · exact leadsTo_append_singleton h attempt

section

variable (h : DiskInv R format keying history disk history.length [])
  (hlen : history.length < u64Max) {op : Op} {v : View}
  (hrun : R.spec.run (opsOf history ++ [op]) = some v) {line : List UInt8}
  (hrecord : IsRecord format keying maxWalRecordBytes (history.length + 1) op line)
include h hlen hrun hrecord

/-- A record is appended to the log, as far as some number of its bytes. -/
theorem appendWal (count : ℕ) : DiskInv R format keying (history ++ [⟨op, false⟩])
      { disk with wal := disk.wal.append line count } (appendedTop history.length count line)
      (appendedTail count line) := by
  have hattempt := h.attempt hlen hrun
  obtain ⟨entries, hlog, hleads⟩ := h.visible
  have hseq : ∀ entry ∈ entries, entry.seq < history.length + 1 := fun entry hentry =>
    Nat.lt_succ_of_le ((hleads _ visible_mem_possible).seq_le entry hentry)
  have hlog' := logAt_append ⟨history.length + 1, op, line⟩ hlog hseq (Nat.succ_pos _) hrecord
  refine ⟨hattempt.length_le, hattempt.exists_run, ⟨_, ?_, fun snapshot hsnapshot =>
    leadsTo_append (hleads snapshot hsnapshot) ⟨op, false⟩ line count⟩, ?_⟩
  · rw [visible_append]
    exact hlog' count
  · intro wal hwal
    rcases mem_possible_append hwal with hold | ⟨n, hn, rfl⟩
    · obtain ⟨entries, tail, hlog, hleads⟩ := hattempt.possible wal hold
      refine ⟨entries, tail, hlog, fun snapshot hsnapshot => ?_⟩
      obtain ⟨k, hk, hrest⟩ := hleads snapshot hsnapshot
      refine ⟨k, hk.trans ?_, hrest⟩
      rw [appendedTop]
      split_ifs
      · omega
      · exact Nat.le_refl _
    · refine ⟨_, _, hlog' n, fun snapshot hsnapshot => ⟨appendedTop history.length n line, ?_,
        leadsTo_append (hleads snapshot hsnapshot) ⟨op, false⟩ line n, ?_⟩⟩
      · rw [appendedTop, appendedTop]
        split_ifs <;> omega
      · intro attempt hmem
        have hle : history.length ≤ appendedTop history.length n line := by
          rw [appendedTop]
          split_ifs <;> omega
        have hmem' := drop_subset_drop_left (history ++ [⟨op, false⟩]) hle hmem
        rw [drop_left] at hmem'
        rw [mem_singleton.mp hmem']

/-- A record is appended to the log and synced. -/
theorem appendWal_synced (acknowledged : Bool) :
    DiskInv R format keying (history ++ [⟨op, acknowledged⟩])
      { disk with wal := (disk.wal.append line line.length).sync } (history.length + 1) [] := by
  have happend := h.appendWal hlen hrun hrecord line.length
  rw [appendedTop, appendedTail, if_pos (Nat.le_refl _), if_pos (Nat.le_refl _)] at happend
  obtain ⟨entries, hlog, hleads⟩ := happend.visible
  have hops : opsOf (history ++ [⟨op, acknowledged⟩]) = opsOf (history ++ [⟨op, false⟩]) := by
    rw [opsOf_append_singleton, opsOf_append_singleton]
  have hlength : (history ++ [(⟨op, acknowledged⟩ : Attempt Op)]).length = history.length + 1 := by
    rw [length_append, length_singleton]
  rw [← hops] at hleads
  refine ⟨by omega, by rw [hops]; exact happend.exists_run, ⟨entries, hlog, hleads⟩, ?_⟩
  refine forall_possible_synced.mpr ⟨entries, [], hlog, fun snapshot hsnapshot =>
    ⟨history.length + 1, Nat.le_refl _, hleads snapshot hsnapshot, ?_⟩⟩
  rw [drop_eq_nil_of_le (Nat.le_of_eq hlength)]
  exact forall_mem_nil _

end

/-! ### Checkpoints -/

variable {config : DurableConfig}

section

variable {state : State} (hinv : R.Inv state)
  (hrun : R.spec.run (opsOf history) = some (R.view state)) {bytes : List UInt8}
  (hbytes : encodeSnapshot format keying history.length (M.toSnapshot state) maxSnapshotBytes =
    .ok bytes)
include hinv hrun

include hbytes in
theorem snapshotAt_length :
    SnapshotAt R format keying (opsOf history) (some bytes) history.length := by
  refine .written hinv ?_ (Nat.le_of_eq (length_opsOf history).symm) hbytes
  rw [take_of_length_le (Nat.le_of_eq (length_opsOf history)), hrun]

include hbytes in
/-- A new snapshot of the whole history is renamed into its place. -/
theorem renameSnapshot (h : DiskInv R format keying history disk history.length tail) :
    DiskInv R format keying history
      { disk with snapshot := disk.snapshot.write (some bytes) } history.length tail := by
  have hsnapshot := snapshotAt_length hinv hrun hbytes
  -- every entry of the log is in the new snapshot, so all of them are skipped
  have hnew : ∀ {entries : List (LogEntry Op)}, (∀ entry ∈ entries, entry.seq ≤ history.length) →
      LeadsTo R format keying (opsOf history) (some bytes) entries history.length :=
    fun hseq => ⟨history.length, hsnapshot, .of_forall_le hseq⟩
  obtain ⟨entries, hlog, hleads⟩ := h.visible
  refine ⟨h.length_le, h.exists_run, ⟨entries, hlog, ?_⟩, ?_⟩
  · intro snapshot hmem
    rcases mem_possible_write.mp hmem with rfl | hmem
    · exact hnew (hleads _ visible_mem_possible).seq_le
    · exact hleads snapshot hmem
  · intro wal hwal
    obtain ⟨entries, tail, hlog, hleads⟩ := h.possible wal hwal
    refine ⟨entries, tail, hlog, fun snapshot hmem => ?_⟩
    rcases mem_possible_write.mp hmem with rfl | hmem
    · obtain ⟨k, hk, hold, -⟩ := hleads _ visible_mem_possible
      refine ⟨history.length, Nat.le_refl _,
        hnew fun entry hentry => (hold.seq_le entry hentry).trans hk, ?_⟩
      rw [drop_length]
      exact forall_mem_nil _
    · exact hleads snapshot hmem

/-- A checkpoint leaves files that belong to the history, however far it gets. -/
theorem checkpoint (h : DiskInv R format config.toKeying history disk history.length [])
    (io : CheckpointIo) :
    DiskInv R format config.toKeying history
      (checkpointState M format config state history.length disk io).2 history.length [] := by
  rw [checkpointState]
  cases hbytes : encodeSnapshot format config.toKeying history.length (M.toSnapshot state)
      maxSnapshotBytes with
  | error e => exact h
  | ok bytes =>
    have hrenamed := h.renameSnapshot hinv hrun hbytes
    have hsynced : DiskInv R format config.toKeying history
        { disk with snapshot := .synced (some bytes) } history.length [] :=
      hrenamed.mono (forall_possible_synced.mpr visible_mem_possible) (fun w hw => hw) rfl
    have hcleared : DiskInv R format config.toKeying history
        ⟨.synced (some bytes), disk.wal.write (some [])⟩ history.length [] := by
      refine hsynced.writeWal (logAt_empty rfl) (forall_possible_synced.mpr
        ⟨history.length, snapshotAt_length hinv hrun hbytes, .nil _⟩) ?_
      rw [drop_length]
      exact forall_mem_nil _
    cases io with
    | unrenamed => exact h
    | renamed => exact hrenamed
    | unopened => exact hsynced
    | cleared => exact hcleared
    | synced =>
      exact hcleared.mono (fun s hs => hs) (forall_possible_synced.mpr visible_mem_possible) rfl

end

/-! ### Crashes and reopening -/

section

variable (h : DiskInv R format keying history disk top tail)
include h

/-- After a crash the files still belong to the history. -/
theorem crash (i j : ℕ) :
    ∃ top tail, DiskInv R format keying history ⟨disk.snapshot.crash i, disk.wal.crash j⟩ top
      tail := by
  obtain ⟨snapshot, hsnapshot, hcrash⟩ := disk.snapshot.exists_crash_eq i
  obtain ⟨wal, hwal, hcrash'⟩ := disk.wal.exists_crash_eq j
  obtain ⟨entries, tail, hlog, hleads⟩ := h.possible wal hwal
  obtain ⟨k, -, hk, hack⟩ := hleads snapshot hsnapshot
  rw [hcrash, hcrash']
  exact ⟨k, tail, h.length_le, h.exists_run,
    ⟨entries, hlog, forall_possible_synced.mpr hk⟩, forall_possible_synced.mpr
      ⟨entries, tail, hlog, forall_possible_synced.mpr ⟨k, Nat.le_refl k, hk, hack⟩⟩⟩

theorem unacknowledged : Unacknowledged (history.drop top) := by
  obtain ⟨entries, tail', -, hleads⟩ := h.possible _ visible_mem_possible
  obtain ⟨k, hk, -, hack⟩ := hleads _ visible_mem_possible
  exact fun attempt hmem => hack attempt (drop_subset_drop_left history hk hmem)

/-- The mutations behind what readers see can be forgotten. -/
theorem take : DiskInv R format keying (history.take top) disk top tail := by
  have htop := h.top_le
  have hlength : (history.take top).length = top := by
    rw [length_take, Nat.min_eq_left htop]
  have hcongr : ∀ {snapshot entries k}, k ≤ top →
      LeadsTo R format keying (opsOf history) snapshot entries k →
      LeadsTo R format keying (opsOf (history.take top)) snapshot entries k := by
    intro snapshot entries k hk hleads
    refine hleads.congr ?_ ?_
    · rw [opsOf_take, take_take, Nat.min_eq_left hk]
    · rwa [length_opsOf, hlength]
  obtain ⟨v, hrun⟩ := h.exists_run
  obtain ⟨entries, hlog, hleads⟩ := h.visible
  refine ⟨?_, ?_, ⟨entries, hlog, fun s hs => hcongr (Nat.le_refl _) (hleads s hs)⟩, ?_⟩
  · rw [hlength]
    exact htop.trans h.length_le
  · rw [opsOf_take]
    exact StoreSpec.exists_run_take hrun top
  · intro wal hwal
    obtain ⟨entries, tail, hlog, hleads⟩ := h.possible wal hwal
    refine ⟨entries, tail, hlog, fun snapshot hsnapshot => ?_⟩
    obtain ⟨k, hk, hleads, hack⟩ := hleads snapshot hsnapshot
    refine ⟨k, hk, hcongr hk hleads, fun attempt hmem => hack attempt ?_⟩
    rw [drop_take] at hmem
    exact mem_of_mem_take hmem

end

/-- The files are loaded: the state stands for what readers see, and truncating the log as
told leaves files of the same history. -/
theorem load (hformat : format.Lawful)
    (h : DiskInv R format config.toKeying history disk top tail) :
    ∃ loaded cut, loadDurableState M format config disk.snapshot.visible disk.wal.visible false =
        .ok (loaded, cut) ∧ R.Reached (opsOf history) top loaded ∧
      (cut = none ∧ tail = [] ∨ ∃ length, cut = some length ∧
        DiskInv R format config.toKeying history (disk.truncateWal length) top []) := by
  obtain ⟨v, hrun⟩ := h.exists_run
  obtain ⟨entries, hlog, hleads⟩ := h.visible
  have hlen : (opsOf history).length ≤ u64Max := by
    rw [length_opsOf]
    exact h.length_le
  obtain ⟨base, hsnapshot, hcontinues⟩ := hleads _ visible_mem_possible
  obtain ⟨found, restored, hread, hrestore, hrestored⟩ := hsnapshot.restore hformat hlen
  obtain ⟨loaded, hreplay, hreached⟩ := replayWalRecords_log
    (fun j loaded record (hreached) hseq hop =>
      hreached.replay hrun hseq hop)
    hlog.isLog hcontinues hlog.newline_not_mem hlog.length_le hrestored
  have hload : loadDurableState M format config disk.snapshot.visible disk.wal.visible false =
      .ok (loaded, if tail = [] then none else some (logBytes entries).length) := by
    rw [loadDurableState, hread]
    simp only [hrestore]
    rw [replayWalRecords_getD, hlog.bytes_eq, hrestored.seq_eq, hreplay]
  refine ⟨loaded, _, hload, hreached, ?_⟩
  by_cases htail : tail = []
  · exact .inl ⟨if_pos htail, htail⟩
  · refine .inr ⟨(logBytes entries).length, if_neg htail, ?_⟩
    refine h.writeWal ⟨hlog.isLog, not_mem_nil, Nat.zero_le _, ?_⟩ hleads h.unacknowledged
    rw [hlog.bytes_eq, take_left, append_nil]
    rfl

/-- The store is opened again: it stands for what readers see of the files, which belong to
the history up to there. -/
theorem reopen (hformat : format.Lawful)
    (h : DiskInv R format config.toKeying history disk top tail) :
    ∃ store disk', openWithAccess M format config disk false = .ok (store, disk') ∧
      store.readOnly = false ∧ store.writeFence = none ∧
      R.Reached (opsOf history) top (store.state, store.lastSeq) ∧
      DiskInv R format config.toKeying (history.take top) disk' top [] := by
  obtain ⟨⟨state, lastSeq⟩, cut, hload, hreached, hcut⟩ := h.load hformat
  rw [openWithAccess, hload]
  rcases hcut with ⟨rfl, rfl⟩ | ⟨length, rfl, hdisk⟩
  · exact ⟨_, _, rfl, rfl, rfl, hreached, h.take⟩
  · exact ⟨_, _, rfl, rfl, rfl, hreached, hdisk.take.mono (fun s hs => hs)
      (forall_possible_synced.mpr visible_mem_possible) rfl⟩

end DiskInv

end Disk

/-! ### One call -/

section Calls

variable {format : EnvelopeFormat Op Payload} {config : DurableConfig}
  {store : DurableStore State} {disk : Disk} {op : Op}

/-- A store can be written to when it was opened for writing and has no fence. -/
theorem ensureWritable_eq_ok :
    store.ensureWritable M = .ok () ↔ store.readOnly = false ∧ store.writeFence = none := by
  rw [ensureWritable]
  cases store.readOnly <;> cases store.writeFence <;> simp

/-- A mutation that passed the checks before the append. -/
structure Admitted (M : Machine State Op Payload Error) (config : DurableConfig)
    (store : DurableStore State) (op : Op) : Prop where
  readOnly : store.readOnly = false
  writeFence : store.writeFence = none
  verify : M.verify op = .ok ()
  validate : M.validateMutation store.state op config.maxBytes = .ok ()
  lastSeq_lt : store.lastSeq < u64Max

/-- A mutation is admitted with the next sequence number. -/
theorem admitMutation_eq_ok {seq : ℕ} (h : store.admitMutation M config op = .ok seq) :
    Admitted M config store op ∧ seq = store.lastSeq + 1 := by
  obtain ⟨_, hwritable, h⟩ := bind_eq_ok h
  obtain ⟨_, hverify, h⟩ := bind_eq_ok h
  obtain ⟨_, hvalidate, h⟩ := bind_eq_ok h
  obtain ⟨hreadOnly, hfence⟩ := ensureWritable_eq_ok.mp hwritable
  split_ifs at h with hlt
  cases h
  exact ⟨⟨hreadOnly, hfence, hverify, hvalidate, hlt⟩, rfl⟩

/-- A record that is not encoded leaves no doubt about the log. -/
theorem encodeRecord_error {keying : Keying} {seq maxBytes : ℕ} {e : DurableIoError}
    (h : encodeRecord format keying seq op maxBytes = .error e) : e.needsRecovery = false := by
  rw [encodeRecord] at h
  split at h
  · cases h
    rfl
  · dsimp only at h
    split_ifs at h <;> cases h <;> rfl

/-- What it takes for a mutation to get as far as the log. -/
theorem exists_of_reachesLog (h : store.reachesLog M format config op = true) :
    Admitted M config store op ∧ ∃ line,
      store.admitMutation M config op = .ok (store.lastSeq + 1) ∧
      encodeRecord format config.toKeying (store.lastSeq + 1) op maxWalRecordBytes = .ok line := by
  rw [reachesLog] at h
  split at h
  · cases h
  rename_i seq hchecked
  obtain ⟨hadmitted, rfl⟩ := admitMutation_eq_ok hchecked
  cases hencode : encodeRecord format config.toKeying (store.lastSeq + 1) op maxWalRecordBytes with
  | error e =>
    rw [hencode] at h
    cases h
  | ok line => exact ⟨hadmitted, line, hchecked, rfl⟩

section

variable (hchecked : store.admitMutation M config op = .ok (store.lastSeq + 1))
include hchecked

/-- A failed append sets the fence, and the mutation is not acknowledged. The log got some
bytes of the record, or none. -/
theorem recordMutation_of_failed {line : List UInt8}
    (hencode : encodeRecord format config.toKeying (store.lastSeq + 1) op maxWalRecordBytes =
      .ok line) (disk : Disk) {io : AppendIo} (hio : io ≠ .synced)
    (checkpointIo : CheckpointIo) :
    ∃ e fence disk', store.recordMutation M format config disk op io checkpointIo =
        (.error e, { store with writeFence := some fence }, disk') ∧
      (disk' = disk ∨ ∃ count, disk' = { disk with wal := disk.wal.append line count }) := by
  rw [recordMutation, hchecked]
  cases io with
  | unopened =>
    simp only [appendWalRecord, hencode]
    exact ⟨_, _, _, rfl, .inl rfl⟩
  | written count =>
    simp only [appendWalRecord, hencode]
    exact ⟨_, _, _, rfl, .inr ⟨count, rfl⟩⟩
  | synced => exact absurd rfl hio

/-- A synced append: the mutation is carried out, and a checkpoint may follow. -/
theorem recordMutation_of_synced {state : State} {line : List UInt8}
    (hencode : encodeRecord format config.toKeying (store.lastSeq + 1) op maxWalRecordBytes =
      .ok line)
    (happly : M.applyLoadedMutation store.state op = .ok state) (checkpointIo : CheckpointIo) :
    store.recordMutation M format config disk op .synced checkpointIo =
      (.ok (), checkpointIfDue M format config
        { store with state := state, lastSeq := store.lastSeq + 1 }
        { disk with wal := (disk.wal.append line line.length).sync } checkpointIo) := by
  rw [recordMutation, hchecked]
  simp only [appendWalRecord, hencode, happly]

end

variable (M format config) in
/-- What a mutation can do: nothing, or a call that does not get as far as the log, or one that
does. -/
theorem step_mutate_cases (sys : StoreSystem State Op) (op : Op) (io : AppendIo)
    (checkpointIo : CheckpointIo) (returns : Bool) :
    let sys' := sys.step M format config (.mutate op io checkpointIo returns)
    sys' = sys ∨ ∃ store, sys.running = some store ∧
      (store.reachesLog M format config op = false ∧
          sys' = ⟨sys.disk, if returns then some store else none, sys.history⟩ ∨
        M.addressable store.state op = true ∧ store.reachesLog M format config op = true ∧
          let recorded := store.recordMutation M format config sys.disk op io checkpointIo
          sys' = ⟨recorded.2.2, if returns then some recorded.2.1 else none,
            sys.history ++ [⟨op, returns && recorded.1.isOk⟩]⟩) := by
  simp only [step]
  split
  · exact .inl rfl
  rename_i store hrunning
  by_cases haddressable : M.addressable store.state op = true
  · refine .inr ⟨store, hrunning, ?_⟩
    rw [if_pos haddressable]
    cases hreaches : store.reachesLog M format config op with
    | false =>
      rw [reachesLog] at hreaches
      rw [recordMutation]
      cases hchecked : store.admitMutation M config op with
      | error e => exact .inl ⟨by simp, rfl⟩
      | ok seq =>
        simp only [hchecked] at hreaches
        cases hencode : encodeRecord format config.toKeying seq op maxWalRecordBytes with
        | error e =>
          simp only [appendWalRecord, hencode, encodeRecord_error hencode, Bool.false_eq_true,
            if_false]
          exact .inl ⟨trivial, trivial⟩
        | ok line =>
          rw [hencode] at hreaches
          cases hreaches
    | true => exact .inr ⟨haddressable, rfl, rfl⟩
  · exact .inl (if_neg haddressable)

/-- Two stores that differ in nothing but when the next checkpoint is due. -/
structure SameStore (store store' : DurableStore State) : Prop where
  state : store'.state = store.state
  lastSeq : store'.lastSeq = store.lastSeq
  writeFence : store'.writeFence = store.writeFence
  readOnly : store'.readOnly = store.readOnly

variable (M format config) in
theorem checkpointIfDue_cases (store : DurableStore State) (disk : Disk) (io : CheckpointIo) :
    SameStore store (store.checkpointIfDue M format config disk io).1 ∧
      ((store.checkpointIfDue M format config disk io).2 = disk ∨
        (store.checkpointIfDue M format config disk io).2 =
          (checkpointState M format config store.state store.lastSeq disk io).2) := by
  simp only [checkpointIfDue]
  split_ifs with hpos hdue
  · rcases checkpointState M format config store.state store.lastSeq disk io with
      ⟨_ | _, disk'⟩ <;> exact ⟨⟨rfl, rfl, rfl, rfl⟩, .inr rfl⟩
  · exact ⟨⟨rfl, rfl, rfl, rfl⟩, .inl rfl⟩
  · exact ⟨⟨rfl, rfl, rfl, rfl⟩, .inl rfl⟩

variable (M format config) in
theorem checkpoint_cases (store : DurableStore State) (disk : Disk) (io : CheckpointIo) :
    SameStore store (store.checkpoint M format config disk io).2.1 ∧
      ((store.checkpoint M format config disk io).2.2 = disk ∨
        store.writeFence = none ∧ (store.checkpoint M format config disk io).2.2 =
          (checkpointState M format config store.state store.lastSeq disk io).2) := by
  rw [checkpoint]
  cases hwritable : store.ensureWritable M with
  | error e => exact ⟨⟨rfl, rfl, rfl, rfl⟩, .inl rfl⟩
  | ok u =>
    obtain ⟨-, hfence⟩ := ensureWritable_eq_ok.mp hwritable
    rcases checkpointState M format config store.state store.lastSeq disk io with
      ⟨_ | _, disk'⟩ <;> exact ⟨⟨rfl, rfl, rfl, rfl⟩, .inr ⟨hfence, rfl⟩⟩

end Calls

/-! ### Runs -/

section Runs

variable (R : Refinement M View) (format : EnvelopeFormat Op Payload) (config : DurableConfig)

/-- An open store and its files belong to a history. Unless the store has a fence, it stands
for the whole history, and so do the files. -/
structure StoreInv (history : List (Attempt Op)) (disk : Disk) (store : DurableStore State) :
    Prop where
  exists_disk : ∃ top tail, DiskInv R format config.toKeying history disk top tail
  readOnly : store.readOnly = false
  /-- The files of a store without a fence lead to the end of the history. -/
  unfenced : store.writeFence = none →
    DiskInv R format config.toKeying history disk history.length []
  reached : store.writeFence = none →
    R.Reached (opsOf history) history.length (store.state, store.lastSeq)

/-- A store with its files and its history. -/
structure SystemInv (sys : StoreSystem State Op) : Prop where
  exists_disk : ∃ top tail, DiskInv R format config.toKeying sys.history sys.disk top tail
  running : ∀ store, sys.running = some store →
    StoreInv R format config sys.history sys.disk store

variable {R format config} {history : List (Attempt Op)} {disk : Disk}
  {store : DurableStore State} {sys : StoreSystem State Op}

/-- A store and its files after a checkpoint. -/
theorem StoreInv.of_checkpoint {store' : DurableStore State} {disk' : Disk} {io : CheckpointIo}
    (h : StoreInv R format config history disk store) (hsame : SameStore store store')
    (hdisk : disk' = disk ∨ store.writeFence = none ∧
      disk' = (checkpointState M format config store.state store.lastSeq disk io).2) :
    StoreInv R format config history disk' store' := by
  have hdisk' : store.writeFence = none →
      DiskInv R format config.toKeying history disk' history.length [] := by
    intro hfence
    rcases hdisk with rfl | ⟨-, rfl⟩
    · exact h.unfenced hfence
    · have hreached := h.reached hfence
      have hrun := hreached.run_eq
      rw [take_of_length_le (Nat.le_of_eq (length_opsOf history))] at hrun
      have hseq : store.lastSeq = history.length := hreached.seq_eq
      rw [hseq]
      exact (h.unfenced hfence).checkpoint hreached.inv hrun io
  refine ⟨?_, by rw [hsame.readOnly, h.readOnly], fun hfence => ?_, fun hfence => ?_⟩
  · rcases hdisk with rfl | ⟨hfence, -⟩
    · exact h.exists_disk
    · exact ⟨_, _, hdisk' hfence⟩
  · rw [hsame.writeFence] at hfence
    exact hdisk' hfence
  · rw [hsame.writeFence] at hfence
    rw [hsame.state, hsame.lastSeq]
    exact h.reached hfence

/-- A mutation that gets as far as the log leaves a store and files of the longer history. -/
theorem StoreInv.recordMutation (hformat : format.Lawful)
    (h : StoreInv R format config history disk store) {op : Op}
    (haddressable : M.addressable store.state op = true)
    (hreaches : store.reachesLog M format config op = true) (io : AppendIo)
    (checkpointIo : CheckpointIo) (returns : Bool) :
    StoreInv R format config
      (history ++ [⟨op, returns &&
        (store.recordMutation M format config disk op io checkpointIo).1.isOk⟩])
      (store.recordMutation M format config disk op io checkpointIo).2.2
      (store.recordMutation M format config disk op io checkpointIo).2.1 := by
  obtain ⟨hadmitted, line, hchecked, hencode⟩ := exists_of_reachesLog hreaches
  have hdisk := h.unfenced hadmitted.writeFence
  have hreached := h.reached hadmitted.writeFence
  have hseq : store.lastSeq = history.length := hreached.seq_eq
  have hlen : history.length < u64Max := by
    rw [← hseq]
    exact hadmitted.lastSeq_lt
  have hrunAll : R.spec.run (opsOf history) = some (R.view store.state) := by
    have hrun := hreached.run_eq
    rwa [take_of_length_le (Nat.le_of_eq (length_opsOf history))] at hrun
  obtain ⟨v, htransition⟩ := R.accepted hreached.inv hadmitted.verify hadmitted.validate
    haddressable
  have hrun : R.spec.run (opsOf history ++ [op]) = some v := by
    rw [StoreSpec.run_append_singleton hrunAll, htransition]
  have hrecord : IsRecord format config.toKeying maxWalRecordBytes (history.length + 1) op line := by
    rw [hseq] at hencode
    exact isRecord_of_encodeRecord hformat hlen (by decide) hencode
  by_cases hio : io = .synced
  · subst hio
    obtain ⟨-, -, state, happly, hinv, hview⟩ := R.applied hreached.inv htransition
    rw [recordMutation_of_synced hchecked hencode happly]
    have happend := hdisk.appendWal_synced hlen hrun hrecord (returns && true)
    have hlength : (history ++ [(⟨op, returns && true⟩ : Attempt Op)]).length =
        history.length + 1 := by
      rw [length_append, length_singleton]
    have hstore : StoreInv R format config (history ++ [⟨op, returns && true⟩])
        { disk with wal := (disk.wal.append line line.length).sync }
        { store with state := state, lastSeq := store.lastSeq + 1 } := by
      refine ⟨⟨_, _, happend⟩, hadmitted.readOnly, fun _ => ?_, fun _ => ⟨hinv, ?_, ?_⟩⟩
      · rwa [hlength]
      · rw [opsOf_append_singleton, hview, take_of_length_le, hrun]
        rw [length_append, length_opsOf, hlength, length_singleton]
      · rw [hlength, ← hseq]
    obtain ⟨hsame, hcases⟩ := checkpointIfDue_cases M format config
      { store with state := state, lastSeq := store.lastSeq + 1 }
      { disk with wal := (disk.wal.append line line.length).sync } checkpointIo
    refine hstore.of_checkpoint hsame (hcases.imp_right fun hcheckpoint => ⟨?_, hcheckpoint⟩)
    exact hadmitted.writeFence
  · obtain ⟨e, fence, disk', hresult, hcases⟩ :=
      recordMutation_of_failed hchecked hencode disk hio checkpointIo
    rw [hresult]
    have hfalse : (returns && (Except.error e : Except Error Unit).isOk) = false :=
      Bool.and_false returns
    rw [hfalse]
    refine ⟨?_, hadmitted.readOnly, fun hnone => ?_, fun hnone => ?_⟩
    · rcases hcases with rfl | ⟨count, rfl⟩
      · exact ⟨_, _, hdisk.attempt hlen hrun⟩
      · exact ⟨_, _, hdisk.appendWal hlen hrun hrecord count⟩
    · cases hnone
    · cases hnone

theorem SystemInv.dead (h : ∃ top tail, DiskInv R format config.toKeying history disk top tail) :
    SystemInv R format config ⟨disk, none, history⟩ :=
  ⟨h, nofun⟩

/-- A call that leaves a store and files of a history, whether or not its process lives on. -/
theorem SystemInv.of_storeInv (h : StoreInv R format config history disk store) (returns : Bool) :
    SystemInv R format config ⟨disk, if returns then some store else none, history⟩ := by
  refine ⟨h.exists_disk, fun store' hrunning => ?_⟩
  cases returns with
  | false => cases hrunning
  | true =>
    cases hrunning
    exact h

/-- Every step leaves a store and files of its history. -/
theorem SystemInv.step (hformat : format.Lawful) (h : SystemInv R format config sys)
    (event : StoreEvent Op) : SystemInv R format config (sys.step M format config event) := by
  obtain ⟨top, tail, hdisk⟩ := h.exists_disk
  cases event with
  | mutate op io checkpointIo returns =>
    rcases step_mutate_cases M format config sys op io checkpointIo returns with hstep |
      ⟨store, hrunning, ⟨-, hstep⟩ | ⟨haddressable, hreaches, hstep⟩⟩
    · rwa [hstep]
    · rw [hstep]
      exact .of_storeInv (h.running store hrunning) returns
    · rw [hstep]
      exact .of_storeInv ((h.running store hrunning).recordMutation hformat haddressable hreaches
        io checkpointIo returns) returns
  | checkpoint io returns =>
    cases hrunning : sys.running with
    | none =>
      simp only [StoreSystem.step, hrunning]
      exact h
    | some store =>
      simp only [StoreSystem.step, hrunning]
      obtain ⟨hsame, hcases⟩ := checkpoint_cases M format config store sys.disk io
      exact .of_storeInv ((h.running store hrunning).of_checkpoint hsame hcases) returns
  | die => exact .dead h.exists_disk
  | crash i j => exact .dead (hdisk.crash i j)
  | reopen =>
    obtain ⟨store, disk', hopen, hreadOnly, hfence, hreached, hdisk'⟩ := hdisk.reopen hformat
    have hlastSeq : store.lastSeq = top := hreached.seq_eq
    have hlength : (sys.history.take top).length = top := by
      rw [length_take, Nat.min_eq_left hdisk.top_le]
    simp only [StoreSystem.step, hopen, hlastSeq]
    refine ⟨⟨top, [], hdisk'⟩, fun store' hrunning => ?_⟩
    cases hrunning
    refine ⟨⟨top, [], hdisk'⟩, hreadOnly, fun _ => ?_, fun _ => ⟨hreached.inv, ?_, ?_⟩⟩
    · rwa [hlength]
    · rw [hlength, opsOf_take, take_take, Nat.min_self, hreached.run_eq]
    · rw [hlength, hlastSeq]
  | reopenInterrupted =>
    obtain ⟨loaded, cut, hload, -, hcut⟩ := hdisk.load hformat
    simp only [StoreSystem.step, hload]
    rcases hcut with ⟨rfl, -⟩ | ⟨length, rfl, hdisk'⟩
    · exact .dead h.exists_disk
    · exact .dead ⟨top, [], hdisk'⟩

/-- Every run leaves a store and files of its history. -/
theorem systemInv_run (R : Refinement M View) (hformat : format.Lawful)
    (events : List (StoreEvent Op)) :
    SystemInv R format config (run M format config events) := by
  rw [run]
  have hinitial : SystemInv R format config .initial := .dead ⟨0, [], DiskInv.initial⟩
  induction events using reverseRecOn with
  | nil => exact hinitial
  | append_singleton events event ih =>
    rw [foldl_append]
    exact ih.step hformat event

end Runs

/-! ### The fence -/

variable {format : EnvelopeFormat Op Payload} {config : DurableConfig}
  {sys : StoreSystem State Op}

/-- No process has the store open without a fence. -/
def StoreSystem.Stopped (sys : StoreSystem State Op) : Prop :=
  ∀ store, sys.running = some store → store.writeFence ≠ none

theorem stopped_of_fenced {store : DurableStore State} (h : store.writeFence ≠ none)
    (returns : Bool) (disk : Disk) (history : List (Attempt Op)) :
    Stopped ⟨disk, if returns then some store else none, history⟩ := by
  intro store' hstore'
  cases returns with
  | false => cases hstore'
  | true =>
    cases hstore'
    exact h

/-- While no process has the store open without a fence, nothing is added to the history
before the store is reopened. -/
theorem StoreSystem.Stopped.step (M : Machine State Op Payload Error)
    (format : EnvelopeFormat Op Payload) (config : DurableConfig) (h : sys.Stopped)
    {event : StoreEvent Op} (hevent : event ≠ .reopen) :
    (sys.step M format config event).Stopped ∧
      (sys.step M format config event).history = sys.history := by
  have hdead : ∀ disk, Stopped (⟨disk, none, sys.history⟩ : StoreSystem State Op) :=
    nofun
  cases event with
  | mutate op io checkpointIo returns =>
    rcases step_mutate_cases M format config sys op io checkpointIo returns with hstep |
      ⟨store, hrunning, ⟨-, hstep⟩ | ⟨-, hreaches, -⟩⟩
    · rw [hstep]
      exact ⟨h, rfl⟩
    · rw [hstep]
      exact ⟨stopped_of_fenced (h store hrunning) returns _ _, rfl⟩
    · exact absurd (exists_of_reachesLog hreaches).1.writeFence (h store hrunning)
  | checkpoint io returns =>
    cases hrunning : sys.running with
    | none =>
      simp only [StoreSystem.step, hrunning]
      exact ⟨h, trivial⟩
    | some store =>
      obtain ⟨hsame, -⟩ := checkpoint_cases M format config store sys.disk io
      simp only [StoreSystem.step, hrunning]
      refine ⟨stopped_of_fenced ?_ returns _ _, trivial⟩
      rw [hsame.writeFence]
      exact h store hrunning
  | die | crash i j => exact ⟨hdead _, rfl⟩
  | reopen => exact absurd rfl hevent
  | reopenInterrupted =>
    rw [StoreSystem.step]
    split <;> exact ⟨hdead _, rfl⟩

/-- While no process has the store open without a fence, nothing is added to the history
in any run in which the store is not reopened. -/
theorem StoreSystem.Stopped.history_eq (h : sys.Stopped) {later : List (StoreEvent Op)}
    (hlater : ∀ event ∈ later, event ≠ .reopen) :
    (later.foldl (StoreSystem.step M format config) sys).history = sys.history := by
  induction later generalizing sys with
  | nil => rfl
  | cons event later ih =>
    obtain ⟨hevent, hrest⟩ := forall_mem_cons.mp hlater
    obtain ⟨hstopped, hhistory⟩ := h.step M format config hevent
    rw [foldl_cons, ih hstopped hrest, hhistory]

end Flywheel.Store
