import Flywheel.Store.Envelopes

/-!
# Replaying a log

What `replay_wal_records` does on a file of records that the store wrote, with an unfinished
one at the end, and what it can do on any file. In both cases the mutations that are applied
are consecutive ones of a single history.
-/

namespace Flywheel.Store

open Flywheel.Data List

variable {Op Payload : Type} {format : EnvelopeFormat Op Payload} {keying : Keying}

/-! ### Envelopes that were written -/
variable {maxBytes : ℕ}

theorem hashJsonBounded_eq_some {macKey : Option (Bytes 32)} {json : List UInt8}
    {hash : Bytes 32} (h : hashJsonBounded format macKey json maxBytes = some hash) :
    json.length ≤ maxBytes ∧ hash = format.blake3 macKey json := by
  rw [hashJsonBounded] at h
  split_ifs at h with hlen
  · exact ⟨hlen, (Option.some.inj h).symm⟩

/-- What reading needs to know about the line of a mutation. -/
structure IsRecord (format : EnvelopeFormat Op Payload) (keying : Keying) (maxBytes seq : ℕ)
    (op : Op) (line : List UInt8) : Prop where
  seq_le : seq ≤ u64Max
  /-- The line is within the bound and has one newline, at its end. -/
  exists_body : ∃ body, line = body ++ [newline] ∧ newline ∉ body ∧ body.length < maxBytes
  exists_read : ∃ envelope, format.readWal line = some envelope ∧ envelope.seq = seq ∧
    envelope.op = op ∧ authenticate format keying envelope = .ok true

/-- A line that the store writes is a record. -/
theorem isRecord_of_encodeRecord (hformat : format.Lawful) {seq : ℕ} {op : Op}
    {line : List UInt8} (hseq : seq ≤ u64Max) (hmax : maxBytes ≤ u64Max)
    (h : encodeRecord format keying seq op maxBytes = .ok line) :
    IsRecord format keying maxBytes seq op line := by
  rw [encodeRecord] at h
  split at h
  · cases h
  rename_i checksum hhash
  obtain ⟨hlen, rfl⟩ := hashJsonBounded_eq_some hhash
  have hlen' := hlen.trans hmax
  dsimp only at h
  split_ifs at h with htoo htoo'
  cases h
  refine ⟨hseq, ⟨_, rfl, hformat.newline_not_mem _, by omega⟩,
    ⟨_, hformat.readWal_writeWal _ hseq, rfl, rfl, ?_⟩⟩
  simp only [authenticate, hashJsonBounded, if_pos hlen']
  cases hkey : keying.macKey <;>
    simp [Keying.version, hkey, versionV1, versionV2, macsEqual_iff]

/-! ### Logs that were written -/

/-- A record in a log, with the line it is written on. -/
structure LogEntry (Op : Type) where
  seq : ℕ
  op : Op
  line : List UInt8

variable (entries : List (LogEntry Op))

def logBytes : List UInt8 :=
  (entries.map LogEntry.line).flatten

@[simp] theorem logBytes_cons (entry : LogEntry Op) (entries : List (LogEntry Op)) :
    logBytes (entry :: entries) = entry.line ++ logBytes entries := rfl

/-- From a snapshot with a sequence number, the entries of a log lead through a history from
one mutation to another: the entries that the snapshot contains are skipped, the others
follow each other. -/
inductive Continues (ops : List Op) (minSeq : ℕ) : List (LogEntry Op) → ℕ → ℕ → Prop
  | nil (j : ℕ) : Continues ops minSeq [] j j
  | skip {entry : LogEntry Op} {entries : List (LogEntry Op)} {j k : ℕ}
      (hseq : entry.seq ≤ minSeq) (hrest : Continues ops minSeq entries j k) :
      Continues ops minSeq (entry :: entries) j k
  | next {entry : LogEntry Op} {entries : List (LogEntry Op)} {j k : ℕ}
      (hmin : minSeq < entry.seq) (hseq : entry.seq = j + 1) (hop : ops[j]? = some entry.op)
      (hrest : Continues ops minSeq entries (j + 1) k) :
      Continues ops minSeq (entry :: entries) j k

namespace Continues

variable {ops : List Op} {minSeq j k : ℕ} {entries : List (LogEntry Op)}

section

variable (h : Continues ops minSeq entries j k)
include h

theorem le : j ≤ k := by
  induction h with
  | nil j => exact Nat.le_refl j
  | skip hseq hrest ih => exact ih
  | next hmin hseq hop hrest ih => omega

theorem le_length (hj : j ≤ ops.length) : k ≤ ops.length := by
  induction h with
  | nil j => exact hj
  | skip hseq hrest ih => exact ih hj
  | next hmin hseq hop hrest ih =>
    obtain ⟨hlt, -⟩ := List.getElem?_eq_some_iff.mp hop
    exact ih hlt

/-- Every entry is in the snapshot or before the place that the log leads to. -/
theorem seq_le (hj : minSeq ≤ j) : ∀ entry ∈ entries, entry.seq ≤ k := by
  induction h with
  | nil j => exact fun entry hmem => absurd hmem not_mem_nil
  | @skip entry entries j k hseq hrest ih =>
    have hle := hrest.le
    refine forall_mem_cons.mpr ⟨by omega, ih hj⟩
  | @next entry entries j k hmin hseq hop hrest ih =>
    have hle := hrest.le
    exact forall_mem_cons.mpr ⟨by omega, ih (by omega)⟩

/-- A log leads the same way through a history that agrees up to where it leads. -/
theorem congr {ops' : List Op}
    (hops : ∀ i < k, ops'[i]? = ops[i]?) : Continues ops' minSeq entries j k := by
  induction h with
  | nil j => exact .nil j
  | skip hseq hrest ih => exact .skip hseq (ih hops)
  | @next entry entries j k hmin hseq hop hrest ih =>
    have hle := hrest.le
    exact .next hmin hseq ((hops j (by omega)).trans hop) (ih hops)

theorem append_singleton {entry : LogEntry Op}
    (hj : minSeq ≤ j) (hseq : entry.seq = k + 1) (hop : ops[k]? = some entry.op) :
    Continues ops minSeq (entries ++ [entry]) j (k + 1) := by
  induction h with
  | nil j => exact .next (by omega) hseq hop (.nil (j + 1))
  | skip hskip hrest ih => exact .skip hskip (ih hj hseq hop)
  | next hmin hnext hget hrest ih => exact .next hmin hnext hget (ih (by omega) hseq hop)

end

theorem of_forall_le (h : ∀ entry ∈ entries, entry.seq ≤ minSeq) :
    Continues ops minSeq entries minSeq minSeq := by
  induction entries with
  | nil => exact .nil minSeq
  | cons entry entries ih =>
    obtain ⟨hentry, hrest⟩ := forall_mem_cons.mp h
    exact .skip hentry (ih hrest)

end Continues

/-- The entries of a log are records, in the order of their sequence numbers. -/
structure IsLog (format : EnvelopeFormat Op Payload) (keying : Keying) (maxBytes : ℕ)
    (entries : List (LogEntry Op)) : Prop where
  isRecord : ∀ entry ∈ entries, IsRecord format keying maxBytes entry.seq entry.op entry.line
  increasing : (0 :: entries.map LogEntry.seq).Pairwise (· < ·)

variable {S E : Type} {apply : S → WalEnvelope Op → Except E S} {ops : List Op} {minSeq : ℕ}
  {P : ℕ → S → Prop}

variable {maxBytes : ℕ} {cursor : Cursor} {s : S}
variable {entries : List (LogEntry Op)}

section

variable (hstep : ∀ j s (envelope : WalEnvelope Op), P j s → envelope.seq = j + 1 →
  ops[j]? = some envelope.op → ∃ s', apply s envelope = .ok s' ∧ P (j + 1) s')
include hstep

/-- Replaying a log that was written: the state goes through the history as far as the log
leads, and what follows the last record is left to be cut off. -/
theorem replayLoop_log {j k : ℕ} (tail : List UInt8) (hcontinues : Continues ops minSeq entries j k)
    (hrecords : ∀ entry ∈ entries, IsRecord format keying maxBytes entry.seq entry.op entry.line)
    (cursor : Cursor) (hP : P j s)
    (hincreasing : (cursor.lastSeqInFile :: entries.map LogEntry.seq).Pairwise (· < ·))
    (hnext : cursor.expectedNextSeq = saturatingAdd j 1) :
    ∃ s', replayLoop format keying apply minSeq maxBytes
        (entries.map (fun entry => Chunk.line entry.line) ++
          if tail = [] then [] else [Chunk.tail tail]) cursor s =
        .ok (s', cursor.validPrefixLen + (logBytes entries).length, decide (tail ≠ [])) ∧
      P k s' := by
  induction hcontinues generalizing cursor s with
  | nil j =>
    refine ⟨s, ?_, hP⟩
    by_cases htail : tail = [] <;> simp [htail, replayLoop, logBytes]
  | @skip entry entries j k hseq hrest ih =>
    obtain ⟨hrecord, hrecords⟩ := forall_mem_cons.mp hrecords
    rw [pairwise_cons] at hincreasing
    have hlast := hincreasing.1 entry.seq mem_cons_self
    have hline : replayLine format keying apply minSeq cursor s entry.line = .ok (some
        (⟨cursor.validPrefixLen + entry.line.length, entry.seq, cursor.expectedNextSeq⟩, s)) := by
      obtain ⟨envelope, hread, hseq', -, hauth⟩ := hrecord.exists_read
      rw [replayLine, hread]
      simp only [hauth, hseq']
      rw [if_neg (Nat.not_le.mpr hlast), if_neg (Nat.not_lt.mpr hseq)]
    obtain ⟨s', hloop, hPk⟩ := ih hrecords
      ⟨cursor.validPrefixLen + entry.line.length, entry.seq, cursor.expectedNextSeq⟩ hP
      hincreasing.2 hnext
    refine ⟨s', ?_, hPk⟩
    rw [map_cons, cons_append, replayLoop]
    simp only [hline]
    rw [hloop, logBytes_cons, length_append, Nat.add_assoc]
  | @next entry entries j k hmin hseq hop hrest ih =>
    obtain ⟨hrecord, hrecords⟩ := forall_mem_cons.mp hrecords
    rw [map_cons, pairwise_cons] at hincreasing
    have hlast := hincreasing.1 entry.seq mem_cons_self
    rw [hseq] at hrecord hlast hmin hincreasing
    obtain ⟨envelope, hread, hseq', hop', hauth⟩ := hrecord.exists_read
    obtain ⟨s₁, happly, hP₁⟩ := hstep j s envelope hP hseq' (by rw [hop, hop'])
    have hexpected : cursor.expectedNextSeq = j + 1 := by
      rw [hnext, saturatingAdd_of_le hrecord.seq_le]
    have hline : replayLine format keying apply minSeq cursor s entry.line = .ok (some
        (⟨cursor.validPrefixLen + entry.line.length, j + 1, saturatingAdd (j + 1) 1⟩, s₁)) := by
      rw [replayLine, hread]
      simp only [hauth]
      rw [if_neg (by omega), if_pos (by omega), if_neg (by omega), happly, hexpected, hseq']
    obtain ⟨s', hloop, hPk⟩ := ih hrecords
      ⟨cursor.validPrefixLen + entry.line.length, j + 1, saturatingAdd (j + 1) 1⟩ hP₁
      hincreasing.2 rfl
    refine ⟨s', ?_, hPk⟩
    rw [map_cons, cons_append, replayLoop]
    simp only [hline]
    rw [hloop, logBytes_cons, length_append, Nat.add_assoc]

/-- Replaying a file that the store wrote. -/
theorem replayWalRecords_log {base k : ℕ} {tail : List UInt8}
    (hlog : IsLog format keying maxBytes entries) (hcontinues : Continues ops base entries base k)
    (htail : newline ∉ tail) (hlen : tail.length ≤ maxBytes) (hP : P base s) :
    ∃ s', replayWalRecords format keying apply base (some (logBytes entries ++ tail)) false
        maxBytes s = .ok (s', if tail = [] then none else some (logBytes entries).length) ∧
      P k s' := by
  have hchunks : chunks maxBytes (logBytes entries ++ tail) =
      entries.map (fun entry => Chunk.line entry.line) ++
        if tail = [] then [] else [Chunk.tail tail] := by
    have hlines : ∀ line ∈ entries.map LogEntry.line, ∃ body, line = body ++ [newline] ∧
        newline ∉ body ∧ body.length < maxBytes := by
      intro line hline
      obtain ⟨entry, hentry, rfl⟩ := mem_map.mp hline
      exact (hlog.isRecord entry hentry).exists_body
    rw [logBytes, chunks_lines hlines, chunks_tail htail hlen, map_map]
    rfl
  obtain ⟨s', hloop, hPk⟩ := replayLoop_log hstep tail hcontinues hlog.isRecord
    ⟨0, 0, saturatingAdd base 1⟩ hP hlog.increasing rfl
  refine ⟨s', ?_, hPk⟩
  rw [replayWalRecords, hchunks, hloop]
  by_cases hnil : tail = [] <;> simp [hnil]

end

/-! ### Any log -/

variable (hstep : ∀ j s (envelope : WalEnvelope Op) s', P j s → envelope.seq = j + 1 →
  ops[j]? = some envelope.op → apply s envelope = .ok s' → P (j + 1) s')
include hstep

/-- If every record that is accepted has its mutation from one history, the loop goes through
that history, without leaving out a mutation. -/
theorem replayLoop_genuine {j validPrefixLen : ℕ} {file : List Chunk}
    (hgenuine : ∀ raw envelope, Chunk.line raw ∈ file → format.readWal raw = some envelope →
      authenticate format keying envelope = .ok true →
      ops[envelope.seq - 1]? = some envelope.op) {s' : S} {truncated : Bool} (hP : P j s)
    (hreached : j ≤ minSeq ∨ j ≤ cursor.lastSeqInFile)
    (hnext : cursor.expectedNextSeq = saturatingAdd j 1)
    (h : replayLoop format keying apply minSeq maxBytes file cursor s =
      .ok (s', validPrefixLen, truncated)) :
    ∃ k, j ≤ k ∧ P k s' := by
  induction file generalizing j cursor s with
  | nil =>
    cases h
    exact ⟨j, Nat.le_refl j, hP⟩
  | cons chunk rest ih =>
    have hgenuine' : ∀ raw envelope, Chunk.line raw ∈ rest → format.readWal raw = some envelope →
        authenticate format keying envelope = .ok true →
        ops[envelope.seq - 1]? = some envelope.op :=
      fun raw envelope hmem => hgenuine raw envelope (mem_cons_of_mem _ hmem)
    cases chunk with
    | tail bytes =>
      cases h
      exact ⟨j, Nat.le_refl j, hP⟩
    | capped =>
      rw [replayLoop] at h
      split_ifs at h
      cases h
      exact ⟨j, Nat.le_refl j, hP⟩
    | line raw =>
      rw [replayLoop] at h
      split at h
      · cases h
      · cases h
        exact ⟨j, Nat.le_refl j, hP⟩
      rename_i cursor' s₁ hline
      rw [replayLine] at hline
      split at hline
      · split_ifs at hline
        cases hline
      rename_i envelope hread
      split at hline
      · cases hline
      · cases hline
      rename_i hauth
      split_ifs at hline with hlast hkey hmin hgap
      · cases hline
      · split at hline
        · cases hline
        rename_i s₁ happly
        cases hline
        -- the number is above the ones reached and at most the next one
        have hle : saturatingAdd j 1 ≤ j + 1 := Nat.min_le_left _ _
        have hseq : envelope.seq = j + 1 := by omega
        have hop := hgenuine raw envelope mem_cons_self hread hauth
        rw [hseq] at hop
        have hP₁ := hstep j s envelope s₁ hP hseq hop happly
        have hnext' : saturatingAdd cursor.expectedNextSeq 1 = saturatingAdd (j + 1) 1 := by
          rw [← not_not.mp hgap, hseq]
        obtain ⟨k, hk, hPk⟩ := ih hgenuine' hP₁ (by dsimp only; omega) hnext' h
        exact ⟨k, by omega, hPk⟩
      · cases hline
        exact ih hgenuine' hP (by dsimp only; omega) (by exact hnext) h

/-- Replaying any file in which every accepted record has its mutation from one history. -/
theorem replayWalRecords_genuine {base : ℕ} {file : Option (List UInt8)}
    {readOnly : Bool} {cut : Option ℕ}
    (hgenuine : ∀ bytes raw envelope, file = some bytes →
      Chunk.line raw ∈ chunks maxBytes bytes → format.readWal raw = some envelope →
      authenticate format keying envelope = .ok true →
      ops[envelope.seq - 1]? = some envelope.op) {s' : S} (hP : P base s)
    (h : replayWalRecords format keying apply base file readOnly maxBytes s = .ok (s', cut)) :
    ∃ k, base ≤ k ∧ P k s' := by
  cases file with
  | none =>
    cases h
    exact ⟨base, Nat.le_refl base, hP⟩
  | some bytes =>
    rw [replayWalRecords] at h
    split at h
    · cases h
    rename_i s₁ validPrefixLen truncated hloop
    have hs : s₁ = s' := by
      split_ifs at h <;> cases h <;> rfl
    subst hs
    exact replayLoop_genuine hstep (hgenuine bytes · · rfl) hP (.inl (Nat.le_refl base)) rfl hloop

end Flywheel.Store
