import Flywheel.Data.Bytes
import Mathlib.Tactic.Ring

/-!
# Policy patterns

`pattern_matches` of `fcp-core`, which zone policies, execution approvals and the capability
verifier read their patterns with. The loop walks over the bytes of pattern and value and remembers
the last star, to go back to it with one more byte of the value. A byte that equals the byte of the
pattern is consumed before the pattern's byte is looked at as a wildcard, so a star of the value is
taken for a star of the pattern: matching is exact for the values without one.
-/

namespace Flywheel.Core

open Flywheel.Data

/-- The byte `*`. -/
def starByte : UInt8 := 42

/-- The byte `?`. -/
def questionByte : UInt8 := 63

/-- The byte of the pattern consumes a byte of the value: it is the same byte, or it is `?` and the
byte of the value is ASCII. -/
def consumes (p byte : UInt8) : Prop := p = byte ∨ p = questionByte ∧ byte < 128

/-- Whether a byte is consumed is decidable. -/
instance decidableConsumes (p byte : UInt8) : Decidable (consumes p byte) :=
  inferInstanceAs (Decidable (p = byte ∨ p = questionByte ∧ byte < 128))

/-- What the loop goes back to when it has `rest` and `left` before it: the pattern after the last
star, and the value from where that star is taken to end. -/
structure LastStar (rest left : List UInt8) where
  pattern : List UInt8
  value : List UInt8
  rest_le : rest.length ≤ pattern.length
  /-- The rest of the value is not before the match of the star. -/
  left_le : left.length ≤ value.length

namespace LastStar

variable {rest left : List UInt8} {p byte : UInt8}

/-- The last star after a byte of the pattern consumed a byte of the value. -/
def afterByte (star : LastStar (p :: rest) (byte :: left)) : LastStar rest left where
  pattern := star.pattern
  value := star.value
  rest_le := (Nat.le_succ _).trans star.rest_le
  left_le := (Nat.le_succ _).trans star.left_le

/-- A star that is taken to be empty. -/
def here (rest left : List UInt8) : LastStar rest left := ⟨rest, left, le_rfl, le_rfl⟩

/-- The last star with one more byte of the value. -/
def longer (star : LastStar rest left) : LastStar star.pattern star.value.tail :=
  here star.pattern star.value.tail

end LastStar

open LastStar

/-- A bound for the rounds of the loop. -/
def patternRank (rest left : List UInt8) : Option (LastStar rest left) → ℕ
  | none => (left.length + 1) * (left.length + rest.length + 1) + (left.length + rest.length)
  | some star =>
    star.value.length * (star.value.length + star.pattern.length + 1) +
      (left.length + rest.length)

variable {rest left : List UInt8}

theorem patternRank_afterByte {p byte : UInt8}
    (star : Option (LastStar (p :: rest) (byte :: left))) :
    patternRank rest left (star.map afterByte) <
      patternRank (p :: rest) (byte :: left) star := by
  cases star with
  | none =>
    simp only [patternRank, Option.map_none, List.length_cons]
    have hle := Nat.mul_le_mul (Nat.le_succ (left.length + 1))
      (by omega : left.length + rest.length + 1 ≤ left.length + 1 + (rest.length + 1) + 1)
    simp only [Nat.succ_eq_add_one] at hle
    omega
  | some star =>
    simp only [patternRank, Option.map_some, afterByte, List.length_cons]
    omega

theorem patternRank_here {p : UInt8} (star : Option (LastStar (p :: rest) left)) :
    patternRank rest left (some (here rest left)) < patternRank (p :: rest) left star := by
  cases star with
  | none =>
    simp only [patternRank, here, List.length_cons]
    have hle := Nat.mul_le_mul (Nat.le_succ left.length)
      (by omega : left.length + rest.length + 1 ≤ left.length + (rest.length + 1) + 1)
    simp only [Nat.succ_eq_add_one] at hle
    omega
  | some star =>
    have hrest := star.rest_le
    rw [List.length_cons] at hrest
    simp only [patternRank, here, List.length_cons]
    have hle := Nat.mul_le_mul star.left_le (by have := star.left_le; omega :
      left.length + rest.length + 1 ≤ star.value.length + star.pattern.length + 1)
    omega

/-- One more byte for the last star lowers the bound. -/
theorem patternRank_longer {byte : UInt8} (star : LastStar rest (byte :: left)) :
    patternRank star.pattern star.value.tail (some star.longer) <
      patternRank rest (byte :: left) (some star) := by
  obtain ⟨pattern, value, hrest, hleft⟩ := star
  obtain _ | ⟨first, value⟩ := value
  · simp at hleft
  · simp only [patternRank, longer, here, List.tail_cons, List.length_cons]
    have hexpand : (value.length + 1) * (value.length + 1 + pattern.length + 1) =
        value.length * (value.length + pattern.length + 1) + value.length +
          (value.length + 1 + pattern.length + 1) := by ring
    omega

/-- The loop of `pattern_matches`, with what is left of pattern and value. -/
def patternLoop : (rest left : List UInt8) → Option (LastStar rest left) → Bool
  | rest, [], _ => rest.all (· = starByte)
  | [], _ :: _, none => false
  | [], _ :: _, some star => patternLoop star.pattern star.value.tail (some star.longer)
  | p :: rest, byte :: left, star =>
    if consumes p byte then patternLoop rest left (star.map afterByte)
    else if p = starByte then
      patternLoop rest (byte :: left) (some (here rest (byte :: left)))
    else
      match star with
      | some star => patternLoop star.pattern star.value.tail (some star.longer)
      | none => false
termination_by rest left star => patternRank rest left star
decreasing_by
  · exact patternRank_longer _
  · exact patternRank_afterByte _
  · exact patternRank_here _
  · exact patternRank_longer _

def patternMatches (pattern value : String) : Bool := patternLoop (utf8 pattern) (utf8 value) none

theorem patternLoop_append (start rest left : List UInt8) :
    patternLoop (start ++ rest) (start ++ left) none = patternLoop rest left none := by
  induction start with
  | nil => rfl
  | cons byte start ih =>
    have hconsumes : consumes byte byte := .inl rfl
    rw [List.cons_append, List.cons_append, patternLoop, if_pos hconsumes, Option.map_none, ih]

theorem patternLoop_nil_here (left : List UInt8) :
    patternLoop [] left (some (here [] left)) = true := by
  induction left with
  | nil => rw [patternLoop, List.all_nil]
  | cons byte left ih =>
    rw [patternLoop]
    exact ih

/-- A final star matches everything but a value that starts with a star and goes on after it. -/
theorem patternLoop_star_iff (left : List UInt8) :
    patternLoop [starByte] left none = true ↔
      ¬ ∃ more, more ≠ [] ∧ left = starByte :: more := by
  cases left with
  | nil =>
    have hend : patternLoop [starByte] [] none = true := by
      rw [patternLoop]
      rfl
    exact iff_of_true hend fun ⟨_, _, hbad⟩ => by cases hbad
  | cons byte left =>
    by_cases hbyte : byte = starByte
    · subst hbyte
      have hconsumes : consumes starByte starByte := .inl rfl
      rw [patternLoop, if_pos hconsumes, Option.map_none]
      cases left with
      | nil =>
        have hend : patternLoop [] [] none = true := by
          rw [patternLoop]
          rfl
        refine iff_of_true hend ?_
        rintro ⟨more, hmore, hbad⟩
        exact hmore (List.cons.inj hbad).2.symm
      | cons next left =>
        rw [patternLoop]
        exact iff_of_false (by decide) fun hnot => hnot ⟨next :: left, by simp, rfl⟩
    · have hconsumes : ¬ consumes starByte byte := by
        rintro (heq | ⟨hquestion, -⟩)
        · exact hbyte heq.symm
        · exact absurd hquestion (by decide)
      rw [patternLoop, if_neg hconsumes]
      refine iff_of_true (patternLoop_nil_here _) ?_
      rintro ⟨more, -, hbad⟩
      exact hbyte (List.cons.inj hbad).1

theorem patternMatches_self (pattern : String) : patternMatches pattern pattern = true := by
  have hloop := patternLoop_append (utf8 pattern) [] []
  rw [List.append_nil] at hloop
  rw [patternMatches, hloop, patternLoop]
  rfl

/-! ### Exactness -/

/-- The value can be split according to the pattern: a star takes any bytes, `?` an ASCII byte and
every other byte itself. -/
def Splits : List UInt8 → List UInt8 → Prop
  | [], value => value = []
  | p :: pattern, value =>
    if p = starByte then ∃ n, Splits pattern (value.drop n)
    else ∃ byte left, value = byte :: left ∧ consumes p byte ∧ Splits pattern left

theorem splits_cons_of_ne {p byte : UInt8} (hp : p ≠ starByte) :
    Splits (p :: rest) (byte :: left) ↔ consumes p byte ∧ Splits rest left := by
  simp [Splits, hp]

/-- A star takes nothing, or a byte more than from there on. -/
theorem splits_star_iff :
    Splits (starByte :: rest) left ↔ Splits rest left ∨ Splits (starByte :: rest) left.tail := by
  simp only [Splits, ← List.drop_one, List.drop_drop]
  constructor
  · rintro ⟨_ | n, h⟩
    · exact .inl h
    · exact .inr ⟨n, by rwa [Nat.add_comm]⟩
  · rintro (h | ⟨n, h⟩)
    · exact ⟨0, h⟩
    · exact ⟨1 + n, h⟩

/-- A part of the pattern without stars takes as many bytes. -/
theorem Splits.drop {taken value : List UInt8} (hstar : starByte ∉ taken)
    (h : Splits (taken ++ rest) value) : Splits rest (value.drop taken.length) := by
  induction taken generalizing value with
  | nil => exact h
  | cons p taken ih =>
    rw [List.mem_cons, not_or] at hstar
    rw [List.cons_append, Splits, if_neg (Ne.symm hstar.1)] at h
    obtain ⟨byte, left, rfl, -, hleft⟩ := h
    exact ih hstar.2 hleft

theorem splits_append_self {taken : List UInt8} (hstar : starByte ∉ taken)
    (h : Splits rest left) : Splits (taken ++ rest) (taken ++ left) := by
  induction taken with
  | nil => exact h
  | cons p taken ih =>
    rw [List.mem_cons, not_or] at hstar
    exact (splits_cons_of_ne (Ne.symm hstar.1)).mpr ⟨.inl rfl, ih hstar.2⟩

/-- Since the last star the same number of bytes was consumed of pattern and value, none of them
a star. -/
def Since (rest left : List UInt8) (star : LastStar rest left) : Prop :=
  ∃ taken bytes, star.pattern = taken ++ rest ∧ star.value = bytes ++ left ∧
    taken.length = bytes.length ∧ starByte ∉ taken ++ bytes

/-- A split in which the last star takes more is one of what is left, if a star is next. -/
theorem Since.splits {star : LastStar rest left} (hsince : Since rest left star)
    (h : Splits (starByte :: star.pattern) star.value.tail) :
    ∃ n, Splits rest (left.drop n) := by
  obtain ⟨taken, bytes, hpattern, hvalue, hlength, hnot⟩ := hsince
  rw [Splits, hpattern, hvalue, ← List.drop_one] at h
  obtain ⟨n, h⟩ := h
  have hdrop := h.drop fun hmem => hnot (List.mem_append_left _ hmem)
  rw [List.drop_drop, List.drop_drop, List.drop_append, List.drop_of_length_le (by omega)] at hdrop
  exact ⟨_, hdrop⟩

theorem Since.longer {star : LastStar rest left} (hleft : starByte ∉ left)
    (h : Since rest left star) : starByte ∉ star.value.tail ∧
      ∀ s ∈ some star.longer, Since star.pattern star.value.tail s := by
  obtain ⟨taken, bytes, -, hvalue, -, hnot⟩ := h
  refine ⟨fun hmem => ?_, fun s hs => ?_⟩
  · have hmem := List.mem_of_mem_tail hmem
    simp_all
  · cases hs
    exact ⟨[], [], rfl, rfl, rfl, List.not_mem_nil⟩

/-- On a value without stars the loop finds the splits of what is left, and those in which the
last star takes more. -/
theorem patternLoop_iff (star : Option (LastStar rest left)) (hleft : starByte ∉ left)
    (hstar : ∀ s ∈ star, Since rest left s) :
    patternLoop rest left star = true ↔
      Splits rest left ∨ ∃ s ∈ star, Splits (starByte :: s.pattern) s.value.tail := by
  fun_induction patternLoop rest left star with
  | case1 rest star =>
    have hall : rest.all (· = starByte) = true ↔ Splits rest [] := by
      clear hstar
      induction rest with
      | nil => simp [Splits]
      | cons p rest ih =>
        by_cases hp : p = starByte <;> simp_all [Splits]
    rw [hall, iff_self_or]
    rintro ⟨s, hs, h⟩
    obtain ⟨n, hn⟩ := (hstar s hs).splits h
    rwa [List.drop_nil] at hn
  | case2 byte left => simp [Splits]
  | case3 byte left star ih =>
    obtain ⟨hvalue, hsince⟩ := (hstar star rfl).longer hleft
    have hnot : ¬ Splits [] (byte :: left) := List.cons_ne_nil byte left
    rw [ih hvalue hsince]
    simp [longer, here, ← splits_star_iff, hnot]
  | case4 p rest byte left hconsumes star ih =>
    have hp : p ≠ starByte := by
      rintro rfl
      rcases hconsumes with rfl | ⟨hquestion, -⟩
      · exact hleft List.mem_cons_self
      · exact absurd hquestion (by decide)
    rw [ih (fun hmem => hleft (List.mem_cons_of_mem _ hmem)) ?_, splits_cons_of_ne hp,
      and_iff_right hconsumes]
    · simp [afterByte]
    · intro s hs
      obtain ⟨old, hold, rfl⟩ := Option.mem_map.mp hs
      obtain ⟨taken, bytes, hpattern, hvalue, hlength, hnot⟩ := hstar old hold
      have hbyte : starByte ≠ byte := fun heq => hleft (List.mem_cons.mpr (.inl heq))
      refine ⟨taken ++ [p], bytes ++ [byte], ?_, ?_, ?_, ?_⟩
      · simpa [afterByte] using hpattern
      · simpa [afterByte] using hvalue
      · simp [hlength]
      · simpa [hbyte, hp.symm] using hnot
  | case5 rest byte left star hconsumes ih =>
    rw [ih hleft fun s hs => ?_]
    · simp only [Option.mem_def, Option.some.injEq, exists_eq_left', here, ← splits_star_iff]
      rw [iff_self_or]
      rintro ⟨s, hs, h⟩
      obtain ⟨n, m, h⟩ := (hstar s hs).splits h
      rw [List.drop_drop] at h
      exact ⟨_, h⟩
    · cases hs
      exact ⟨[], [], rfl, rfl, rfl, List.not_mem_nil⟩
  | case6 p rest byte left hconsumes hp star ih =>
    obtain ⟨hvalue, hsince⟩ := (hstar star rfl).longer hleft
    rw [ih hvalue hsince, splits_cons_of_ne hp]
    simp [longer, here, ← splits_star_iff, hconsumes]
  | case7 p rest byte left hconsumes hp => simp [splits_cons_of_ne hp, hconsumes]

/-- Matching is exact, whatever the pattern, exactly for the values without a star. -/
theorem patternLoop_exact_iff (value : List UInt8) :
    (∀ pattern, patternLoop pattern value none = true ↔ Splits pattern value) ↔
      starByte ∉ value := by
  refine ⟨fun hexact hmem => ?_, fun hnot pattern => by simpa using patternLoop_iff none hnot⟩
  obtain ⟨start, left, rfl, hstart⟩ := List.eq_append_cons_of_mem hmem
  cases left with
  | nil =>
    -- the loop takes the value's star for the pattern's, and is left with the `?`
    have h := (hexact (start ++ [starByte, questionByte])).mpr
      (splits_append_self hstart ⟨0, starByte, [], rfl, .inr ⟨rfl, by decide⟩, rfl⟩)
    rw [patternLoop_append, patternLoop, patternLoop] at h
    exact absurd h (by decide)
  | cons byte left =>
    have h := (hexact (start ++ [starByte])).mpr
      (splits_append_self hstart ⟨(starByte :: byte :: left).length, List.drop_length⟩)
    rw [patternLoop_append, patternLoop_star_iff] at h
    exact h ⟨_, List.cons_ne_nil byte left, rfl⟩

/-- A value that begins with a star escapes the pattern of a single star. -/
theorem star_escapes_star :
    patternLoop [starByte] [starByte, 97] none = false ∧ Splits [starByte] [starByte, 97] := by
  refine ⟨Bool.eq_false_iff.mpr fun h => ?_, 2, rfl⟩
  exact (patternLoop_star_iff _).mp h ⟨[97], by decide, rfl⟩

end Flywheel.Core
