import Mathlib.Data.Nat.ModEq

/-!
# Open addressing with linear probing

A table of slots is searched from a home position onwards, wrapping around at
the end, until the value or an empty slot is met. A value is reachable when the
probe path from its home meets it before an empty slot. Filling a free slot at
the end of such a path makes the new value reachable and loses no other.
-/

namespace Flywheel.Data.Probing

variable {σ : Type*}

/-- The position after `i` in a table of `n` slots, cyclically. -/
def next (n i : ℕ) : ℕ := if i + 1 = n then 0 else i + 1

/-- The `k`-th position probed from `home` in a table of `n` slots. -/
def probe (n home k : ℕ) : ℕ := (home + k) % n

variable (slots : List σ)

/-- No slot is empty on the first `k` probes from `home`. -/
def Clear (empty : σ) (home k : ℕ) : Prop :=
  ∀ j < k, slots.getD (probe slots.length home j) empty ≠ empty

/-- The probe path from `home` meets `v` before it meets an empty slot. -/
def Reaches (empty : σ) (home : ℕ) (v : σ) : Prop :=
  ∃ k < slots.length, slots.getD (probe slots.length home k) empty = v ∧
    Clear slots empty home k

variable {home k : ℕ}

/-- Probing steps from each position to the cyclically next one. -/
theorem next_probe {n : ℕ} (hn : 0 < n) : next n (probe n home k) = probe n home (k + 1) := by
  have hlt : (home + k) % n < n := Nat.mod_lt _ hn
  have hmod : (home + (k + 1)) % n = ((home + k) % n + 1) % n := by
    rw [← Nat.add_assoc, Nat.mod_add_mod]
  unfold next probe
  rw [hmod]
  split
  · rename_i heq
    rw [heq, Nat.mod_self]
  · exact (Nat.mod_eq_of_lt (by omega)).symm

variable {slots : List σ} {empty : σ}

/-- A path of one slot fewer is clear, and so is its last slot. -/
theorem clear_succ :
    Clear slots empty home (k + 1) ↔ Clear slots empty home k ∧
      slots.getD (probe slots.length home k) empty ≠ empty := by
  constructor
  · intro h
    exact ⟨fun j hj => h j (by omega), h k (by omega)⟩
  · rintro ⟨h, hk⟩ j hj
    by_cases heq : j = k
    · rw [heq]
      exact hk
    · exact h j (by omega)

theorem exists_probe_eq {n i : ℕ} (home : ℕ) (hi : i < n) : ∃ k < n, probe n home k = i := by
  have hn : 0 < n := by omega
  refine ⟨(i + (n - home % n)) % n, Nat.mod_lt _ hn, ?_⟩
  have hhome := Nat.mod_lt home hn
  have hsum : home % n + (i + (n - home % n)) = i + n := by omega
  rw [probe, Nat.add_mod_mod, ← Nat.mod_add_mod, hsum, Nat.add_mod_right, Nat.mod_eq_of_lt hi]

variable {v : σ}

/-- Filling a slot keeps the path to every slot clear that was clear before. -/
theorem Clear.set {t : ℕ}
    (h : Clear slots empty home k) (hv : v ≠ empty) : Clear (slots.set t v) empty home k := by
  intro j hj
  have hold := h j hj
  rw [List.length_set, List.getD_eq_getElem?_getD, List.getElem?_set]
  split
  · split
    · exact hv
    · rw [List.getD_eq_getElem?_getD, List.getElem?_eq_none (by omega)] at hold
      exact absurd rfl hold
  · rwa [← List.getD_eq_getElem?_getD]

theorem reaches_set_self (hk : k < slots.length)
    (hclear : Clear slots empty home k) (hv : v ≠ empty) :
    Reaches (slots.set (probe slots.length home k) v) empty home v := by
  have hlt : probe slots.length home k < slots.length := Nat.mod_lt _ (by omega)
  refine ⟨k, by simpa using hk, ?_, hclear.set hv⟩
  simp [hlt]

/-- Writing into a free slot keeps every stored value reachable. -/
theorem Reaches.set {w : σ} {t : ℕ}
    (h : Reaches slots empty home w) (hv : v ≠ empty) (hfree : slots.getD t empty ≠ w) :
    Reaches (slots.set t v) empty home w := by
  obtain ⟨k, hk, hkw, hclear⟩ := h
  refine ⟨k, by simpa using hk, ?_, hclear.set hv⟩
  have hne : t ≠ probe slots.length home k := by
    intro heq
    rw [heq] at hfree
    exact hfree hkw
  rw [List.length_set, List.getD_eq_getElem?_getD, List.getElem?_set_ne hne,
    ← List.getD_eq_getElem?_getD, hkw]

variable [DecidableEq σ]

/-- Search for a value in at most `fuel` probes, from position `i` on. -/
def search (slots : List σ) (empty v : σ) : ℕ → ℕ → Option ℕ
  | 0, _ => none
  | fuel + 1, i =>
    if slots.getD i empty = empty then none
    else if slots.getD i empty = v then some i
    else search slots empty v fuel (next slots.length i)

/-- Find the slot a new value goes to in at most `fuel` probes from position `i`
on: the first deleted slot met before an empty one, or else that empty slot.
There is none when the value is met first or every slot is taken. -/
def place (slots : List σ) (empty deleted v : σ) : ℕ → ℕ → Option ℕ → Option ℕ
  | 0, _, firstDeleted => firstDeleted
  | fuel + 1, i, firstDeleted =>
    if slots.getD i empty = empty then some (firstDeleted.getD i)
    else if slots.getD i empty = deleted then
      place slots empty deleted v fuel (next slots.length i) (firstDeleted.or (some i))
    else if slots.getD i empty = v then none
    else place slots empty deleted v fuel (next slots.length i) firstDeleted

variable {fuel : ℕ}

/-- The search from the `k`-th probe on, over a path that is clear so far, finds
the value exactly when the rest of the round does. -/
theorem search_isSome_iff_of_clear
    (hv : v ≠ empty) (hn : 0 < slots.length) (hclear : Clear slots empty home k) :
    (search slots empty v fuel (probe slots.length home k)).isSome ↔
      ∃ m, k ≤ m ∧ m < k + fuel ∧ slots.getD (probe slots.length home m) empty = v ∧
        Clear slots empty home m := by
  induction fuel generalizing k with
  | zero =>
    simp only [search, Option.isSome_none, Bool.false_eq_true, false_iff]
    omega
  | succ fuel ih =>
    simp only [search]
    by_cases hempty : slots.getD (probe slots.length home k) empty = empty
    · rw [if_pos hempty]
      simp only [Option.isSome_none, Bool.false_eq_true, false_iff, not_exists]
      rintro m ⟨hkm, _, hmv, hmclear⟩
      by_cases hmk : m = k
      · rw [hmk, hempty] at hmv
        exact hv hmv.symm
      · exact hmclear k (by omega) hempty
    · rw [if_neg hempty]
      by_cases hfound : slots.getD (probe slots.length home k) empty = v
      · rw [if_pos hfound]
        simp only [Option.isSome_some, true_iff]
        exact ⟨k, le_rfl, by omega, hfound, hclear⟩
      · rw [if_neg hfound, next_probe hn, ih (clear_succ.mpr ⟨hclear, hempty⟩)]
        constructor
        · rintro ⟨m, hkm, hm, hmv, hmclear⟩
          exact ⟨m, by omega, by omega, hmv, hmclear⟩
        · rintro ⟨m, hkm, hm, hmv, hmclear⟩
          have hne : m ≠ k := by
            intro heq
            rw [heq] at hmv
            exact hfound hmv
          exact ⟨m, by omega, by omega, hmv, hmclear⟩

theorem probe_zero {n : ℕ} (hhome : home < n) : probe n home 0 = home := by
  rw [probe, Nat.add_zero, Nat.mod_eq_of_lt hhome]

/-- A search over a whole round finds exactly the reachable values. -/
theorem search_isSome_iff (hv : v ≠ empty) (hhome : home < slots.length) :
    (search slots empty v slots.length home).isSome ↔ Reaches slots empty home v := by
  have hn : 0 < slots.length := by omega
  have hclear : Clear slots empty home 0 := fun j hj => absurd hj (Nat.not_lt_zero j)
  rw [← probe_zero hhome, search_isSome_iff_of_clear hv hn hclear, probe_zero hhome]
  constructor
  · rintro ⟨m, _, hm, hmv, hclear⟩
    exact ⟨m, by omega, hmv, hclear⟩
  · rintro ⟨m, hm, hmv, hclear⟩
    exact ⟨m, by omega, by omega, hmv, hclear⟩

/-- A position that a search returns holds the value. -/
theorem getD_of_search {i j : ℕ}
    (h : search slots empty v fuel i = some j) : slots.getD j empty = v := by
  induction fuel generalizing i with
  | zero => cases h
  | succ fuel ih =>
    simp only [search] at h
    split at h
    · cases h
    split at h
    · rename_i hfound
      cases h
      exact hfound
    · exact ih h

/-- The slot chosen for a new value is free and ends a clear path. The invariant
of the loop says the same of the first deleted slot met so far. -/
theorem place_spec {deleted : σ} {t : ℕ}
    {firstDeleted : Option ℕ} (hn : 0 < slots.length) (hround : k + fuel ≤ slots.length)
    (hclear : Clear slots empty home k)
    (hfirst : ∀ d, firstDeleted = some d → slots.getD d empty = deleted ∧
      ∃ m < slots.length, d = probe slots.length home m ∧ Clear slots empty home m)
    (h : place slots empty deleted v fuel (probe slots.length home k) firstDeleted = some t) :
    (slots.getD t empty = empty ∨ slots.getD t empty = deleted) ∧
      ∃ m < slots.length, t = probe slots.length home m ∧ Clear slots empty home m := by
  induction fuel generalizing k firstDeleted with
  | zero =>
    obtain ⟨hdeleted, hpath⟩ := hfirst t h
    exact ⟨Or.inr hdeleted, hpath⟩
  | succ fuel ih =>
    simp only [place, next_probe hn] at h
    split at h
    · rename_i hempty
      cases firstDeleted with
      | none =>
        cases h
        exact ⟨Or.inl hempty, k, by omega, rfl, hclear⟩
      | some d =>
        cases h
        obtain ⟨hdeleted, hpath⟩ := hfirst _ rfl
        exact ⟨Or.inr hdeleted, hpath⟩
    rename_i hempty
    have hclear' := clear_succ.mpr ⟨hclear, hempty⟩
    split at h
    · rename_i hdeleted
      refine ih (by omega) hclear' ?_ h
      intro d hd
      cases firstDeleted with
      | none =>
        cases hd
        exact ⟨hdeleted, k, by omega, rfl, hclear⟩
      | some d' => exact hfirst _ hd
    split at h
    · cases h
    · exact ih (by omega) hclear' hfirst h

/-- No slot is chosen only when the value is met, or the path of the remaining
probes has no empty slot. -/
theorem reaches_or_full_of_place {deleted : σ}
    {firstDeleted : Option ℕ} (hn : 0 < slots.length) (hround : k + fuel ≤ slots.length)
    (hclear : Clear slots empty home k)
    (h : place slots empty deleted v fuel (probe slots.length home k) firstDeleted = none) :
    Reaches slots empty home v ∨ Clear slots empty home (k + fuel) := by
  induction fuel generalizing k firstDeleted with
  | zero => exact Or.inr hclear
  | succ fuel ih =>
    simp only [place, next_probe hn] at h
    split at h
    · cases h
    rename_i hempty
    have hclear' := clear_succ.mpr ⟨hclear, hempty⟩
    have hsum : k + 1 + fuel = k + (fuel + 1) := by omega
    split at h
    · rw [← hsum]
      exact ih (by omega) hclear' h
    split at h
    · rename_i hfound
      exact Or.inl ⟨k, by omega, hfound, hclear⟩
    · rw [← hsum]
      exact ih (by omega) hclear' h

end Flywheel.Data.Probing
