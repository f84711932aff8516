import Mathlib.Data.List.Basic

/-!
# Files and crashes

A file whose last changes may not have reached the disk. Readers see the latest content. A
crash leaves that one or any of the contents that the file went through since it was last
synced.
-/

namespace Flywheel.Data

/-- A file with its content and the contents that a crash may leave instead. -/
structure CrashFile (α : Type*) where
  visible : α
  others : List α

namespace CrashFile

variable {α : Type*}

/-- A file whose content is on the disk. -/
def synced (content : α) : CrashFile α := ⟨content, []⟩

variable (file : CrashFile α)

/-- Every content that a crash may leave. -/
def possible : List α := file.visible :: file.others

/-- Replace the content, with a crash between the two left open. -/
def write (content : α) : CrashFile α := ⟨content, file.possible⟩

/-- Wait for the content to be on the disk. -/
def sync : CrashFile α := synced file.visible

/-- A crash: one of the contents is left. -/
def crash (choice : ℕ) : CrashFile α :=
  synced (file.possible.getD choice file.visible)

variable {file : CrashFile α} {content c : α}

theorem visible_mem_possible : file.visible ∈ file.possible := List.mem_cons_self

theorem forall_possible_synced {p : α → Prop} :
    (∀ c ∈ (synced content).possible, p c) ↔ p content :=
  List.forall_mem_singleton

@[simp] theorem mem_possible_write :
    c ∈ (file.write content).possible ↔ c = content ∨ c ∈ file.possible :=
  List.mem_cons

theorem exists_crash_eq (choice : ℕ) : ∃ c ∈ file.possible, file.crash choice = synced c := by
  refine ⟨file.possible.getD choice file.visible, ?_, rfl⟩
  rw [List.getD_eq_getElem?_getD]
  cases hget : file.possible[choice]? with
  | none => exact visible_mem_possible
  | some c => exact List.mem_of_getElem? hget

end CrashFile

/-- Append the first bytes of a record to a file, which is created if it is missing. A crash
may leave fewer of the bytes. -/
def CrashFile.append (file : CrashFile (Option (List UInt8))) (record : List UInt8) :
    ℕ → CrashFile (Option (List UInt8))
  | 0 => file.write (some (file.visible.getD []))
  | count + 1 =>
    (file.append record count).write (some (file.visible.getD [] ++ record.take (count + 1)))

namespace CrashFile

variable {file : CrashFile (Option (List UInt8))} {record : List UInt8} {count : ℕ}
  {c : Option (List UInt8)}

theorem visible_append (file : CrashFile (Option (List UInt8))) (record : List UInt8) (count : ℕ) :
    (file.append record count).visible = some (file.visible.getD [] ++ record.take count) := by
  cases count with
  | zero => rw [List.take_zero, List.append_nil]; rfl
  | succ count => rfl

/-- A crash during an append leaves an old content or some of the bytes. -/
theorem mem_possible_append (h : c ∈ (file.append record count).possible) :
    c ∈ file.possible ∨
      ∃ n ≤ count, c = some (file.visible.getD [] ++ record.take n) := by
  induction count with
  | zero =>
    rw [append, mem_possible_write] at h
    rcases h with rfl | h
    · exact .inr ⟨0, Nat.le_refl 0, by rw [List.take_zero, List.append_nil]⟩
    · exact .inl h
  | succ count ih =>
    rw [append, mem_possible_write] at h
    rcases h with rfl | h
    · exact .inr ⟨count + 1, Nat.le_refl _, rfl⟩
    · rcases ih h with hold | ⟨n, hn, rfl⟩
      · exact .inl hold
      · exact .inr ⟨n, by omega, rfl⟩

end CrashFile

end Flywheel.Data
