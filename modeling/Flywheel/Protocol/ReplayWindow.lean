import Mathlib.Data.List.Induction
import Mathlib.Data.List.Nodup
import Mathlib.Data.Nat.Bitwise

/-!
# The session replay window

`ReplayWindow` of `fcp-protocol` keeps the highest sequence number it accepted
and a bitmap of 128 bits, whose bit `d` stands for the number `d` below the
highest. The abstract window remembers every accepted number. The bitmap
represents that memory along every run, so the two windows accept the same calls.
-/

namespace Flywheel.Protocol

open List UInt64

def checkedShl (bits : BitVec 128) (shift : ℕ) : Option (BitVec 128) :=
  if shift < 128 then some (bits <<< shift) else none

structure ReplayWindow where
  highestSeq : UInt64
  bitmap : BitVec 128
  windowSize : UInt64
  deriving DecidableEq

namespace ReplayWindow

variable (windowSize : UInt64)

/-- `ReplayWindow::new`, which raises a window of zero to one. -/
def new : ReplayWindow :=
  ⟨0, 0, if windowSize < 1 then 1 else windowSize⟩

variable (w : ReplayWindow)

def check (seq : UInt64) : Bool :=
  if seq = 0 then false
  else if w.highestSeq < seq then true
  else
    let diff := w.highestSeq - seq
    if w.windowSize ≤ diff ∨ 128 ≤ diff then false
    else w.bitmap &&& (1#128 <<< diff.toNat) == 0

/-- `ReplayWindow::check_and_update`. The Boolean is the verdict on the call. -/
def checkAndUpdate (seq : UInt64) : Bool × ReplayWindow :=
  if seq = 0 then (false, w)
  else if w.highestSeq < seq then
    let shift := min (seq - w.highestSeq).toNat 128
    let bitmap := (checkedShl w.bitmap shift).getD 0
    (true, { w with bitmap := bitmap ||| 1, highestSeq := seq })
  else
    let diff := w.highestSeq - seq
    if w.windowSize ≤ diff ∨ 128 ≤ diff then (false, w)
    else
      let bit := 1#128 <<< diff.toNat
      if w.bitmap &&& bit ≠ 0 then (false, w)
      else (true, { w with bitmap := w.bitmap ||| bit })

/-- A window together with the numbers it accepted so far, oldest first. -/
abbrev Trace := ReplayWindow × List UInt64

/-- One call of `check_and_update` in a run. -/
def step (t : Trace) (seq : UInt64) : Trace :=
  let (accepted, w) := t.1.checkAndUpdate seq
  (w, if accepted then t.2 ++ [seq] else t.2)

variable (seqs : List UInt64)

/-- The run of a fresh window over a finite sequence of calls. -/
def run : Trace :=
  seqs.foldl step (new windowSize, [])

variable (accepted : List UInt64)

/-- The highest accepted number, zero when nothing was accepted. -/
def highest : ℕ := accepted.foldr (fun a m => max a.toNat m) 0

/-- What the window is for: a number is accepted when it is not zero, was not
accepted before, and is above the highest accepted number or less than
`min(window, 128)` below it. -/
def Acceptable (seq : UInt64) : Prop :=
  seq ≠ 0 ∧ seq ∉ accepted ∧
    (highest accepted < seq.toNat ∨
      highest accepted - seq.toNat < min windowSize.toNat 128 ∧ seq.toNat ≤ highest accepted)

/-- The bitmap and the highest number represent a list of accepted numbers. -/
structure Represents (w : ReplayWindow) (accepted : List UInt64) : Prop where
  /-- The highest number is the highest accepted one. -/
  top : w.highestSeq.toNat = highest accepted
  zero : 0 ∉ accepted
  /-- Bit `d` is set for the numbers accepted at distance `d` below the highest. -/
  bits : ∀ d < 128, w.bitmap.getLsbD d = true ↔
    ∃ a ∈ accepted, a.toNat + d = highest accepted

variable {accepted : List UInt64}

theorem le_highest {a : UInt64} (h : a ∈ accepted) : a.toNat ≤ highest accepted := by
  induction accepted with
  | nil => cases h
  | cons b bs ih =>
    rcases mem_cons.mp h with rfl | h
    · exact Nat.le_max_left _ _
    · exact (ih h).trans (Nat.le_max_right _ _)

theorem highest_append (a : UInt64) :
    highest (accepted ++ [a]) = max (highest accepted) a.toNat := by
  induction accepted with
  | nil => simp [highest]
  | cons b bs ih =>
    simp only [highest, cons_append, foldr_cons] at ih ⊢
    rw [ih, Nat.max_assoc]

/-- Masking with one bit of the bitmap tests that bit. -/
theorem and_bit_eq_zero_iff (bits : BitVec 128) {d : ℕ} (hd : d < 128) :
    bits &&& (1#128 <<< d) = 0 ↔ bits.getLsbD d = false := by
  have hne : BitVec.twoPow 128 d ≠ 0 := by
    intro h
    simpa [hd] using congrArg (·.getLsbD d) h
  rw [← BitVec.twoPow_eq, BitVec.and_twoPow]
  cases bits.getLsbD d with
  | false => simp
  | true => simpa using hne

/-- Everything a call of `check_and_update` can do: refuse zero, advance to a
higher number, refuse a number outside the window, refuse a number whose bit is
set, or set the bit of a number that is new. -/
theorem checkAndUpdate_cases (seq : UInt64) :
    (seq = 0 ∧ w.checkAndUpdate seq = (false, w)) ∨
    (seq ≠ 0 ∧ w.highestSeq < seq ∧ w.checkAndUpdate seq =
      (true, ⟨seq, (checkedShl w.bitmap (min (seq - w.highestSeq).toNat 128)).getD 0 ||| 1,
        w.windowSize⟩)) ∨
    (seq ≠ 0 ∧ seq ≤ w.highestSeq ∧
      (w.windowSize ≤ w.highestSeq - seq ∨ 128 ≤ w.highestSeq - seq) ∧
      w.checkAndUpdate seq = (false, w)) ∨
    (seq ≠ 0 ∧ seq ≤ w.highestSeq ∧
      w.highestSeq - seq < w.windowSize ∧ w.highestSeq - seq < 128 ∧
      w.bitmap &&& (1#128 <<< (w.highestSeq - seq).toNat) ≠ 0 ∧
      w.checkAndUpdate seq = (false, w)) ∨
    (seq ≠ 0 ∧ seq ≤ w.highestSeq ∧
      w.highestSeq - seq < w.windowSize ∧ w.highestSeq - seq < 128 ∧
      w.bitmap &&& (1#128 <<< (w.highestSeq - seq).toNat) = 0 ∧
      w.checkAndUpdate seq =
        (true, { w with bitmap := w.bitmap ||| (1#128 <<< (w.highestSeq - seq).toNat) })) := by
  simp only [checkAndUpdate]
  split_ifs with hzero hgt hold hbit
  · exact .inl ⟨hzero, rfl⟩
  · exact .inr (.inl ⟨hzero, hgt, rfl⟩)
  · exact .inr (.inr (.inl ⟨hzero, UInt64.not_lt.mp hgt, hold, rfl⟩))
  all_goals
    rw [not_or, UInt64.not_le, UInt64.not_le] at hold
    refine .inr (.inr (.inr ?_))
  · exact .inl ⟨hzero, UInt64.not_lt.mp hgt, hold.1, hold.2, hbit, rfl⟩
  · exact .inr ⟨hzero, UInt64.not_lt.mp hgt, hold.1, hold.2, not_not.mp hbit, rfl⟩

/-- `check` predicts the verdict of `check_and_update` in every state. -/
theorem check_eq_checkAndUpdate (seq : UInt64) : w.check seq = (w.checkAndUpdate seq).1 := by
  simp only [check, checkAndUpdate]
  split_ifs with hzero hgt hold hbit
  · rfl
  · rfl
  · rfl
  · simpa using hbit
  · simpa using hbit

/-- `check_and_update` never lowers the highest sequence number. -/
theorem highestSeq_le_checkAndUpdate (seq : UInt64) :
    w.highestSeq ≤ (w.checkAndUpdate seq).2.highestSeq := by
  simp only [checkAndUpdate]
  split_ifs with hzero hgt
  · exact UInt64.le_refl _
  · exact UInt64.le_of_lt hgt
  all_goals exact UInt64.le_refl _

theorem toNat_sub {a b : UInt64} (h : b ≤ a) : (a - b).toNat = a.toNat - b.toNat :=
  UInt64.toNat_sub_of_le a b h

/-- After an advance, bit zero is set and bit `d` is the bit that stood `shift`
places lower. -/
theorem getLsbD_advance (bits : BitVec 128) {shift d : ℕ} (hd : d < 128) :
    (((checkedShl bits (min shift 128)).getD 0) ||| 1).getLsbD d = true ↔
      d = 0 ∨ shift ≤ d ∧ bits.getLsbD (d - shift) = true := by
  by_cases hwide : shift < 128
  · rw [checkedShl]
    by_cases hzero : d = 0
    · simp [hzero]
    · grind
  · have hmin : ¬ min shift 128 < 128 := by omega
    have hlow : ¬ shift ≤ d := by omega
    rw [checkedShl, if_neg hmin]
    simp [hlow]

theorem represents_new : Represents (new windowSize) [] := by
  refine ⟨rfl, not_mem_nil, ?_⟩
  simp [new]

variable {w : ReplayWindow} {seq : UInt64}

/-- Advancing to a higher number records it and moves the others down. -/
theorem Represents.advance (h : w.Represents accepted) (hgt : w.highestSeq < seq) :
    Represents ⟨seq, (checkedShl w.bitmap (min (seq - w.highestSeq).toNat 128)).getD 0 ||| 1,
      w.windowSize⟩ (accepted ++ [seq]) := by
  have htop := h.top
  have hlt := lt_iff_toNat_lt.mp hgt
  have hsub := toNat_sub (UInt64.le_of_lt hgt)
  have hhigh : highest (accepted ++ [seq]) = seq.toNat := by
    rw [highest_append]
    omega
  refine ⟨hhigh.symm, ?_, ?_⟩
  · intro hmem
    rcases mem_append.mp hmem with hmem | hmem
    · exact h.zero hmem
    · rw [← mem_singleton.mp hmem] at hlt
      exact absurd hlt (Nat.not_lt_zero _)
  · intro d hd
    rw [getLsbD_advance _ hd]
    constructor
    · rintro (hzero | ⟨hshift, hbit⟩)
      · exact ⟨seq, by simp, by omega⟩
      · obtain ⟨a, ha, heq⟩ := (h.bits _ (by omega)).mp hbit
        exact ⟨a, mem_append_left _ ha, by omega⟩
    · rintro ⟨a, ha, heq⟩
      rcases mem_append.mp ha with ha | ha
      · have hle := le_highest ha
        exact Or.inr ⟨by omega, (h.bits _ (by omega)).mpr ⟨a, ha, by omega⟩⟩
      · rw [mem_singleton.mp ha] at heq
        exact Or.inl (by omega)

/-- Setting the bit of a number inside the window records that number. -/
theorem Represents.record (h : w.Represents accepted) (hzero : seq ≠ 0)
    (hle : seq ≤ w.highestSeq) :
    Represents { w with bitmap := w.bitmap ||| (1#128 <<< (w.highestSeq - seq).toNat) }
      (accepted ++ [seq]) := by
  have htop := h.top
  have hsub := toNat_sub hle
  have hle' := le_iff_toNat_le.mp hle
  have hhigh : highest (accepted ++ [seq]) = highest accepted := by
    rw [highest_append]
    omega
  refine ⟨htop.trans hhigh.symm, ?_, ?_⟩
  · intro hmem
    rcases mem_append.mp hmem with hmem | hmem
    · exact h.zero hmem
    · exact hzero (mem_singleton.mp hmem).symm
  · intro d hd
    have hone : (1#128 <<< (w.highestSeq - seq).toNat).getLsbD d = true ↔
        d = (w.highestSeq - seq).toNat := by
      grind
    rw [BitVec.getLsbD_or, Bool.or_eq_true, h.bits d hd, hone, hhigh]
    constructor
    · rintro (⟨a, ha, heq⟩ | heq)
      · exact ⟨a, mem_append_left _ ha, heq⟩
      · exact ⟨seq, by simp, by omega⟩
    · rintro ⟨a, ha, heq⟩
      rcases mem_append.mp ha with ha | ha
      · exact Or.inl ⟨a, ha, heq⟩
      · rw [mem_singleton.mp ha] at heq
        exact Or.inr (by omega)

/-- On a represented memory, the bit of a number at most the highest is set
exactly when the number was accepted. -/
theorem Represents.bit_iff_mem
    (h : w.Represents accepted) (hle : seq ≤ w.highestSeq) (hwide : w.highestSeq - seq < 128) :
    w.bitmap.getLsbD (w.highestSeq - seq).toNat = true ↔ seq ∈ accepted := by
  have htop := h.top
  have hsub := toNat_sub hle
  have hle' := le_iff_toNat_le.mp hle
  rw [h.bits _ (lt_iff_toNat_lt.mp hwide)]
  constructor
  · rintro ⟨a, ha, heq⟩
    have hval : a.toNat = seq.toNat := by omega
    rwa [← UInt64.toNat_inj.mp hval]
  · intro hmem
    exact ⟨seq, hmem, by omega⟩

/-- The highest accepted number is itself accepted, unless nothing was. -/
theorem exists_eq_highest (h : highest accepted ≠ 0) :
    ∃ a ∈ accepted, a.toNat = highest accepted := by
  induction accepted with
  | nil => exact absurd rfl h
  | cons b bs ih =>
    have hmax : highest (b :: bs) = max b.toNat (highest bs) := rfl
    by_cases hb : highest bs ≤ b.toNat
    · exact ⟨b, mem_cons_self, by omega⟩
    · obtain ⟨a, ha, heq⟩ := ih (by omega)
      exact ⟨a, mem_cons_of_mem _ ha, by omega⟩

/-- The window size in use is the configured one, raised to one. -/
theorem toNat_new_windowSize : (new windowSize).windowSize.toNat = max windowSize.toNat 1 := by
  simp only [new]
  split_ifs with h <;> rw [lt_iff_toNat_lt] at h <;> simp at h ⊢ <;> omega

/-- On a represented memory the window's verdict is the abstract one. -/
theorem Represents.verdict_iff {windowSize : UInt64} (h : w.Represents accepted)
    (hsize : w.windowSize = (new windowSize).windowSize) (seq : UInt64) :
    (w.checkAndUpdate seq).1 = true ↔ Acceptable windowSize accepted seq := by
  have htop := h.top
  have hsize' := (congrArg toNat hsize).trans (toNat_new_windowSize windowSize)
  have h128 : (128 : UInt64).toNat = 128 := rfl
  rcases w.checkAndUpdate_cases seq with ⟨hzero, hcall⟩ | ⟨hzero, hgt, hcall⟩ |
    ⟨hzero, hle, hold, hcall⟩ | ⟨hzero, hle, hwin, hwide, hbit, hcall⟩ |
    ⟨hzero, hle, hwin, hwide, hbit, hcall⟩ <;> rw [hcall]
  · simp [Acceptable, hzero]
  · have hlt := lt_iff_toNat_lt.mp hgt
    refine iff_of_true rfl ⟨hzero, ?_, Or.inl (by omega)⟩
    intro hmem
    have hmax := le_highest hmem
    omega
  · refine iff_of_false Bool.false_ne_true ?_
    rintro ⟨-, -, hrange⟩
    have hsub := toNat_sub hle
    rcases hold with hold | hold <;>
      have hold' := le_iff_toNat_le.mp hold <;> omega
  · refine iff_of_false Bool.false_ne_true ?_
    rintro ⟨-, hnew, -⟩
    have hset : w.bitmap.getLsbD (w.highestSeq - seq).toNat = true := by
      by_contra hclear
      exact hbit ((and_bit_eq_zero_iff _ (lt_iff_toNat_lt.mp hwide)).mpr
        (by simpa using hclear))
    exact hnew ((h.bit_iff_mem hle hwide).mp hset)
  · have hclear := (and_bit_eq_zero_iff _ (lt_iff_toNat_lt.mp hwide)).mp hbit
    have hnew : seq ∉ accepted := by
      intro hmem
      rw [(h.bit_iff_mem hle hwide).mpr hmem] at hclear
      exact Bool.noConfusion hclear
    have hsub := toNat_sub hle
    have hle' := le_iff_toNat_le.mp hle
    have hwin' := lt_iff_toNat_lt.mp hwin
    have hwide' := lt_iff_toNat_lt.mp hwide
    have hpos : seq.toNat ≠ 0 := fun hz => hzero (UInt64.toNat_inj.mp hz)
    -- A window of zero keeps one bit, but that bit is the highest number's own.
    have hconf : windowSize.toNat ≠ 0 := by
      intro hz
      obtain ⟨a, ha, heq⟩ := @exists_eq_highest accepted (by omega)
      have hval : a.toNat = seq.toNat := by omega
      exact hnew (UInt64.toNat_inj.mp hval ▸ ha)
    exact iff_of_true rfl ⟨hzero, hnew, Or.inr ⟨by omega, by omega⟩⟩

/-- One call keeps the representation and the configured size. -/
theorem Represents.step {t : Trace} (h : t.1.Represents t.2) (seq : UInt64) :
    (ReplayWindow.step t seq).1.Represents (ReplayWindow.step t seq).2 ∧
      (ReplayWindow.step t seq).1.windowSize = t.1.windowSize := by
  rcases t.1.checkAndUpdate_cases seq with ⟨hzero, hcall⟩ | ⟨hzero, hgt, hcall⟩ |
    ⟨hzero, hle, hold, hcall⟩ | ⟨hzero, hle, hwin, hwide, hbit, hcall⟩ |
    ⟨hzero, hle, hwin, hwide, hbit, hcall⟩ <;> simp only [ReplayWindow.step, hcall]
  · exact ⟨h, trivial⟩
  · exact ⟨h.advance hgt, trivial⟩
  · exact ⟨h, trivial⟩
  · exact ⟨h, trivial⟩
  · exact ⟨h.record hzero hle, trivial⟩

theorem run_append (seq : UInt64) :
    run windowSize (seqs ++ [seq]) = step (run windowSize seqs) seq := by
  simp [run]

theorem run_represents :
    (run windowSize seqs).1.Represents (run windowSize seqs).2 ∧
      (run windowSize seqs).1.windowSize = (new windowSize).windowSize := by
  induction seqs using reverseRec with
  | nil => exact ⟨represents_new windowSize, rfl⟩
  | append_singleton seqs seq ih =>
    rw [run_append]
    have hstep := ih.1.step seq
    exact ⟨hstep.1, hstep.2.trans ih.2⟩

/-- No sequence number is accepted twice in a run. -/
theorem run_nodup : (run windowSize seqs).2.Nodup := by
  induction seqs using reverseRec with
  | nil => exact nodup_nil
  | append_singleton seqs seq ih =>
    obtain ⟨hrep, hsize⟩ := run_represents windowSize seqs
    rw [run_append]
    dsimp only [step]
    split_ifs with haccept
    · have hnew := ((hrep.verdict_iff hsize seq).mp haccept).2.1
      exact nodup_append.mpr ⟨ih, nodup_singleton seq, by
        rintro a ha b hb rfl
        exact hnew (mem_singleton.mp hb ▸ ha)⟩
    · exact ih

/-- After any run, the next call accepts its number exactly when it is nonzero,
new, and above the highest accepted number or less than `min(window, 128)` below
it. Nothing is accepted twice, `check` predicts the call, and the highest number
is that of the accepted ones and never decreases. -/
theorem run_exact (windowSize : UInt64) (seqs : List UInt64) (seq : UInt64) :
    (((run windowSize seqs).1.checkAndUpdate seq).1 = true ↔
      Acceptable windowSize (run windowSize seqs).2 seq) ∧
    (run windowSize (seqs ++ [seq])).2.Nodup ∧
    (run windowSize seqs).1.check seq = ((run windowSize seqs).1.checkAndUpdate seq).1 ∧
    (run windowSize seqs).1.highestSeq.toNat = highest (run windowSize seqs).2 ∧
    (run windowSize seqs).1.highestSeq ≤ (run windowSize (seqs ++ [seq])).1.highestSeq := by
  obtain ⟨hrep, hsize⟩ := run_represents windowSize seqs
  refine ⟨hrep.verdict_iff hsize seq, run_nodup windowSize _, check_eq_checkAndUpdate _ _,
    hrep.top, ?_⟩
  rw [run_append]
  exact highestSeq_le_checkAndUpdate _ _

end ReplayWindow

end Flywheel.Protocol
