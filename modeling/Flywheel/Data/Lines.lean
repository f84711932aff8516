import Flywheel.Data.Bytes

/-!
# Bytes read line by line

A stream that is read up to its newlines, each line within a bound. What is read ends with
an unfinished line, if the last newline is missing, or with a line that is too long. Lines
that were written in a row are read back one by one.
-/

namespace Flywheel.Data

open List

def newline : UInt8 := 10

/-- One thing read off a stream of lines. -/
inductive Chunk
  | line (bytes : List UInt8)
  | tail (bytes : List UInt8)
  | capped
  deriving DecidableEq

/-- Read line by line, with the bytes of the line that were read so far. -/
def chunksFrom (bound : ℕ) : List UInt8 → List UInt8 → List Chunk
  | [], [] => []
  | pending, [] => [.tail pending]
  | pending, b :: bytes =>
    if pending.length = bound then [.capped]
    else if b = newline then .line (pending ++ [b]) :: chunksFrom bound [] bytes
    else chunksFrom bound (pending ++ [b]) bytes

def chunks (bound : ℕ) (bytes : List UInt8) : List Chunk := chunksFrom bound [] bytes

variable {bound : ℕ}

theorem chunksFrom_append {pending body rest : List UInt8} (hbody : newline ∉ body)
    (hlen : pending.length + body.length ≤ bound) :
    chunksFrom bound pending (body ++ rest) = chunksFrom bound (pending ++ body) rest := by
  induction body generalizing pending with
  | nil => rw [nil_append, append_nil]
  | cons b body ih =>
    rw [length_cons] at hlen
    rw [mem_cons, not_or] at hbody
    obtain ⟨hb, hrest⟩ := hbody
    have hcap : pending.length ≠ bound := by omega
    rw [cons_append, chunksFrom, if_neg hcap, if_neg (Ne.symm hb), ih hrest, append_assoc]
    · rfl
    · rw [length_append, length_singleton]
      omega

theorem chunks_line {body rest : List UInt8} (hbody : newline ∉ body) (hlen : body.length < bound) :
    chunks bound (body ++ newline :: rest) = .line (body ++ [newline]) :: chunks bound rest := by
  have hcap : body.length ≠ bound := by omega
  have hlen' : ([] : List UInt8).length + body.length ≤ bound := by
    rw [length_nil]
    omega
  rw [chunks, chunksFrom_append hbody hlen', nil_append]
  rw [chunksFrom, if_neg hcap]
  rfl

/-- Bytes without a newline are left over at the end. -/
theorem chunks_tail {body : List UInt8} (hbody : newline ∉ body) (hlen : body.length ≤ bound) :
    chunks bound body = if body = [] then [] else [.tail body] := by
  have hlen' : ([] : List UInt8).length + body.length ≤ bound := by
    rw [length_nil]
    omega
  have happend : chunksFrom bound [] (body ++ []) = chunksFrom bound ([] ++ body) [] :=
    chunksFrom_append hbody hlen'
  rw [append_nil] at happend
  rw [chunks, happend]
  cases body with
  | nil => rfl
  | cons b body => rfl

/-- Lines that were written in a row, and an unfinished one, are read back. -/
theorem chunks_lines {lines : List (List UInt8)} {rest : List UInt8}
    (hlines : ∀ line ∈ lines, ∃ body, line = body ++ [newline] ∧ newline ∉ body ∧
      body.length < bound) :
    chunks bound (lines.flatten ++ rest) = lines.map .line ++ chunks bound rest := by
  induction lines with
  | nil => rfl
  | cons line lines ih =>
    obtain ⟨body, rfl, hbody, hlen⟩ := hlines line mem_cons_self
    have hrest := ih fun line hline => hlines line (mem_cons_of_mem _ hline)
    rw [flatten_cons, append_assoc, append_assoc, singleton_append,
      chunks_line hbody hlen, hrest, map_cons, cons_append]

end Flywheel.Data
