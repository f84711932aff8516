import Flywheel.Store.Durable
import Flywheel.Store.Replay

/-!
# Durable stores and what they stand for

An abstract store is a state and what each mutation makes of it. A durable store refines it
when its state in memory has an abstract meaning that the checks, the mutations and the
snapshots respect. Opening a store on files that belong to one history yields the abstract
state at a place of that history.
-/

namespace Flywheel.Store

open Flywheel.Data

theorem isOk_iff {E : Type} {result : Except E Unit} : result.isOk = true ↔ result = .ok () := by
  cases result with
  | error e | ok u => simp [Except.toBool]

/-- An abstract store: mutations that are not possible have no result. -/
structure StoreSpec (View Op : Type) where
  initial : View
  transition : View → Op → Option View

namespace StoreSpec

variable {View Op : Type} (spec : StoreSpec View Op)

def run (ops : List Op) : Option View := ops.foldlM spec.transition spec.initial

variable {spec} {ops : List Op} {op : Op} {v : View}

theorem run_append_singleton (h : spec.run ops = some v) :
    spec.run (ops ++ [op]) = spec.transition v op := by
  rw [run, List.foldlM_append, ← run, h]
  simp

theorem exists_run_take (h : spec.run ops = some v) (j : ℕ) :
    ∃ w, spec.run (ops.take j) = some w := by
  rw [run, ← List.take_append_drop j ops, List.foldlM_append] at h
  cases hrun : (ops.take j).foldlM spec.transition spec.initial with
  | none =>
    rw [hrun] at h
    cases h
  | some w => exact ⟨w, hrun⟩

theorem exists_transition (h : spec.run ops = some v) {j : ℕ} (hop : ops[j]? = some op) {w : View}
    (hw : spec.run (ops.take j) = some w) :
    ∃ w', spec.transition w op = some w' ∧ spec.run (ops.take (j + 1)) = some w' := by
  have htake : ops.take (j + 1) = ops.take j ++ [op] := by
    rw [List.take_add_one, hop, Option.toList_some]
  obtain ⟨w', hw'⟩ := exists_run_take h (j + 1)
  refine ⟨w', ?_, hw'⟩
  rw [← run_append_singleton hw, ← htake, hw']

end StoreSpec

variable {State Op Payload Error : Type}

/-- A durable store that refines an abstract one. -/
structure Refinement (M : Machine State Op Payload Error) (View : Type) where
  spec : StoreSpec View Op
  view : State → View
  /-- What holds of a state in memory. -/
  Inv : State → Prop
  inv_initial : Inv M.initial
  view_initial : view M.initial = spec.initial
  accepted : ∀ {s op maxBytes}, Inv s → M.verify op = .ok () →
    M.validateMutation s op maxBytes = .ok () → M.addressable s op = true →
    ∃ v, spec.transition (view s) op = some v
  /-- A mutation that is possible passes the checks without a quota and is carried out. -/
  applied : ∀ {s op v}, Inv s → spec.transition (view s) op = some v →
    M.verify op = .ok () ∧ M.validateMutation s op u64Max = .ok () ∧
      ∃ s', M.applyLoadedMutation s op = .ok s' ∧ Inv s' ∧ view s' = v
  restored : ∀ {s}, Inv s →
    ∃ s', M.fromSnapshot (M.toSnapshot s) = .ok s' ∧ Inv s' ∧ view s' = view s

namespace Refinement

variable {M : Machine State Op Payload Error} {View : Type} (R : Refinement M View)

/-- A state in memory, with its sequence number, that stands for a place in a history. -/
structure Reached (ops : List Op) (j : ℕ) (loaded : State × ℕ) : Prop where
  inv : R.Inv loaded.1
  run_eq : R.spec.run (ops.take j) = some (R.view loaded.1)
  seq_eq : loaded.2 = j

variable {R} {ops : List Op} {v : View} {j : ℕ} {loaded : State × ℕ}

theorem reached_initial (ops : List Op) : R.Reached ops 0 (M.initial, 0) where
  inv := R.inv_initial
  run_eq := by
    rw [R.view_initial]
    rfl
  seq_eq := rfl

theorem Reached.replay (hrun : R.spec.run ops = some v) (h : R.Reached ops j loaded)
    {record : WalEnvelope Op} (hseq : record.seq = j + 1) (hop : ops[j]? = some record.op) :
    ∃ loaded', M.replay loaded record = .ok loaded' ∧ R.Reached ops (j + 1) loaded' := by
  obtain ⟨w, htransition, hw⟩ := StoreSpec.exists_transition hrun hop h.run_eq
  obtain ⟨hverify, hvalidate, s', happly, hinv, hview⟩ := R.applied h.inv htransition
  refine ⟨(s', record.seq), ?_, hinv, ?_, hseq⟩
  · rw [Machine.replay, hverify, hvalidate, happly]
    rfl
  · rw [hw, hview]

end Refinement

/-! ### Files that belong to a history -/

variable {M : Machine State Op Payload Error} {View : Type} (R : Refinement M View)
  (format : EnvelopeFormat Op Payload) (keying : Keying)

/-- A snapshot file that holds the state at a place in a history, or is missing at its
beginning. -/
inductive SnapshotAt (ops : List Op) : Option (List UInt8) → ℕ → Prop
  | missing : SnapshotAt ops none 0
  | written {state : State} {bytes : List UInt8} {base : ℕ} (hinv : R.Inv state)
      (hrun : R.spec.run (ops.take base) = some (R.view state)) (hlen : base ≤ ops.length)
      (hbytes : encodeSnapshot format keying base (M.toSnapshot state) maxSnapshotBytes =
        .ok bytes) : SnapshotAt ops (some bytes) base

/-- A log file that holds some entries and an unfinished record. -/
structure LogAt (file : Option (List UInt8)) (entries : List (LogEntry Op))
    (tail : List UInt8) : Prop where
  isLog : IsLog format keying maxWalRecordBytes entries
  newline_not_mem : newline ∉ tail
  length_le : tail.length ≤ maxWalRecordBytes
  bytes_eq : file.getD [] = logBytes entries ++ tail

/-- A snapshot file and the entries of a log that lead to a place in a history. -/
def LeadsTo (ops : List Op) (snapshot : Option (List UInt8)) (entries : List (LogEntry Op))
    (k : ℕ) : Prop :=
  ∃ base, SnapshotAt R format keying ops snapshot base ∧ Continues ops base entries base k

variable {R format keying} {ops : List Op} {snapshot : Option (List UInt8)}
  {entries : List (LogEntry Op)} {k : ℕ}

theorem SnapshotAt.le_length {base : ℕ} (h : SnapshotAt R format keying ops snapshot base) :
    base ≤ ops.length := by
  cases h with
  | missing => exact Nat.zero_le _
  | written hinv hrun hlen hbytes => exact hlen

theorem SnapshotAt.congr {ops' : List Op} {base : ℕ}
    (h : SnapshotAt R format keying ops snapshot base) (htake : ops'.take base = ops.take base)
    (hlen : base ≤ ops'.length) : SnapshotAt R format keying ops' snapshot base := by
  cases h with
  | missing => exact .missing
  | written hinv hrun hlen' hbytes => exact .written hinv (by rw [htake, hrun]) hlen hbytes

section

variable (h : LeadsTo R format keying ops snapshot entries k)
include h

theorem LeadsTo.le_length : k ≤ ops.length := by
  obtain ⟨base, hsnapshot, hcontinues⟩ := h
  exact hcontinues.le_length hsnapshot.le_length

theorem LeadsTo.seq_le : ∀ entry ∈ entries, entry.seq ≤ k := by
  obtain ⟨base, hsnapshot, hcontinues⟩ := h
  exact hcontinues.seq_le (Nat.le_refl base)

/-- Files lead to the same place in a history that agrees up to it. -/
theorem LeadsTo.congr {ops' : List Op} (hops : ops'.take k = ops.take k) (hlen : k ≤ ops'.length) :
    LeadsTo R format keying ops' snapshot entries k := by
  obtain ⟨base, hsnapshot, hcontinues⟩ := h
  have hle := hcontinues.le
  have htake : ops'.take base = ops.take base := by
    have hcut := congrArg (List.take base) hops
    rwa [List.take_take, List.take_take, Nat.min_eq_left hle] at hcut
  refine ⟨base, hsnapshot.congr htake (hle.trans hlen), hcontinues.congr fun i hi => ?_⟩
  rw [← List.getElem?_take_of_lt hi, hops, List.getElem?_take_of_lt hi]

end

theorem LeadsTo.append (h : LeadsTo R format keying ops snapshot entries ops.length) (op : Op)
    (line : List UInt8) :
    LeadsTo R format keying (ops ++ [op]) snapshot
      (entries ++ [⟨ops.length + 1, op, line⟩]) (ops.length + 1) := by
  have hcut : (ops ++ [op]).take ops.length = ops.take ops.length := by simp
  obtain ⟨base, hsnapshot, hcontinues⟩ := h.congr hcut (by simp)
  refine ⟨base, hsnapshot, hcontinues.append_singleton (Nat.le_refl base) rfl ?_⟩
  simp

/-- A log in a file is replayed the same whether the file is missing or empty. -/
theorem replayWalRecords_getD {S E : Type} (apply : S → WalEnvelope Op → Except E S) (minSeq : ℕ)
    (file : Option (List UInt8)) (readOnly : Bool) (maxBytes : ℕ) (s : S) :
    replayWalRecords format keying apply minSeq file readOnly maxBytes s =
      replayWalRecords format keying apply minSeq (some (file.getD [])) readOnly maxBytes s := by
  cases file with
  | none => rfl
  | some bytes => rfl

theorem SnapshotAt.restore (hformat : format.Lawful) (hlen : ops.length ≤ u64Max) {base : ℕ}
    (h : SnapshotAt R format keying ops snapshot base) :
    ∃ loaded restored, readSnapshot format keying snapshot maxSnapshotBytes = .ok loaded ∧
      M.restore loaded = .ok restored ∧ R.Reached ops base restored := by
  cases h with
  | missing => exact ⟨none, _, rfl, rfl, Refinement.reached_initial ops⟩
  | @written state bytes base hinv hrun hbase hbytes =>
    have hread : readSnapshot format keying (some bytes) maxSnapshotBytes =
        .ok (some (M.toSnapshot state, base)) := by
      rw [encodeSnapshot] at hbytes
      split at hbytes
      · cases hbytes
      rename_i checksum hhash
      obtain ⟨hlength, rfl⟩ := hashJsonBounded_eq_some hhash
      dsimp only at hbytes
      split_ifs at hbytes with hfits
      cases hbytes
      have hwritten := hformat.readSnapshot_writeSnapshot
        ⟨keying.version, base, format.blake3 keying.macKey
          (format.snapshotTuple keying.version base (M.toSnapshot state)), M.toSnapshot state⟩
        (hbase.trans hlen)
      have hmax := hlength.trans (show maxSnapshotBytes ≤ u64Max by decide)
      rw [readSnapshot, if_neg (Nat.not_lt.mpr hfits)]
      simp only [hwritten, hashJsonBounded, if_pos hmax]
      cases hkey : keying.macKey <;>
        simp [Keying.version, hkey, versionV1, versionV2, macsEqual_iff]
    obtain ⟨state', hfrom, hinv', hview⟩ := R.restored hinv
    refine ⟨_, (state', base), hread, ?_, hinv', ?_, rfl⟩
    · rw [Machine.restore, hfrom]
      rfl
    · rw [hrun, hview]

end Flywheel.Store
