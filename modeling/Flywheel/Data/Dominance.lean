import Mathlib.Order.Basic

/-!
# Keeping an element until it is dominated

A slot that holds one element and gives it up only to one with a strictly larger
key. The key of the slot never decreases, whatever is offered. When one of the
offered elements is at least as large as all of them, the slot ends with a key as
large as that, in whatever order the elements came.
-/

namespace Flywheel.Data

variable {α β : Type*} [Preorder β] [DecidableLT β] (key : α → β)

/-- The element kept when `a` is offered to a slot that holds `x`. -/
def survive (x a : α) : α := if key x < key a then a else x

/-- Offer one element to a slot. An empty slot takes it. -/
def offer : Option α → α → Option α
  | none, a => some a
  | some x, a => some (survive key x a)

/-- The content of a slot that was empty, after the elements of a list. -/
def survivor (l : List α) : Option α := l.foldl (offer key) none

variable {key}

theorem key_le_survive (x a : α) : key x ≤ key (survive key x a) := by
  unfold survive
  split
  · rename_i hlt
    exact hlt.le
  · exact le_rfl

/-- An element that is at least as large as the kept one is as large as what is
kept after it was offered. -/
theorem le_survive_of_le {x a : α} (h : key x ≤ key a) : key a ≤ key (survive key x a) := by
  unfold survive
  split
  · exact le_rfl
  · rename_i hlt
    exact not_lt_iff_le_imp_ge.mp hlt h

theorem offer_offer (x : Option α) (a : α) : offer key (offer key x a) a = offer key x a := by
  cases x with
  | none => simp only [offer, survive, lt_self_iff_false, if_false]
  | some x =>
    simp only [offer, survive]
    by_cases hlt : key x < key a
    · simp only [if_pos hlt, lt_self_iff_false, if_false]
    · simp only [if_neg hlt]

/-- What a filled slot holds after more offers is still filled, at a key as large. -/
theorem foldl_offer_some (l : List α) (x : α) :
    ∃ y, l.foldl (offer key) (some x) = some y ∧ key x ≤ key y := by
  induction l generalizing x with
  | nil => exact ⟨x, rfl, le_rfl⟩
  | cons a l ih =>
    obtain ⟨y, hy, hle⟩ := ih (survive key x a)
    exact ⟨y, hy, (key_le_survive x a).trans hle⟩

variable {l : List α}

/-- The kept element is the one held before or one of those offered. -/
theorem mem_of_foldl_offer {x : Option α} {y : α}
    (h : l.foldl (offer key) x = some y) : y ∈ l ∨ x = some y := by
  induction l generalizing x with
  | nil => exact Or.inr h
  | cons a l ih =>
    rcases ih h with hmem | hoffer
    · exact Or.inl (List.mem_cons_of_mem a hmem)
    · cases x with
      | none =>
        cases hoffer
        exact Or.inl List.mem_cons_self
      | some x =>
        simp only [offer, survive, Option.some.injEq] at hoffer
        split at hoffer
        · exact Or.inl (hoffer ▸ List.mem_cons_self)
        · exact Or.inr (hoffer ▸ rfl)

theorem mem_of_survivor {y : α} (h : survivor key l = some y) : y ∈ l := by
  rcases mem_of_foldl_offer h with hmem | hnone
  · exact hmem
  · cases hnone

theorem survivor_append {x : α} (h : survivor key l = some x) (l' : List α) :
    ∃ y, survivor key (l ++ l') = some y ∧ key x ≤ key y := by
  unfold survivor at h ⊢
  rw [List.foldl_append, h]
  exact foldl_offer_some l' x

/-- The survivor is as large as any element that is at least as large as all. -/
theorem le_survivor_of_greatest {m : α} (hm : m ∈ l)
    (hgreatest : ∀ a ∈ l, key a ≤ key m) : ∃ y, survivor key l = some y ∧ key m ≤ key y := by
  obtain ⟨before, after, rfl⟩ := List.append_of_mem hm
  have hhead : ∃ x, survivor key (before ++ [m]) = some x ∧ key m ≤ key x := by
    unfold survivor
    rw [List.foldl_append]
    cases hbefore : before.foldl (offer key) none with
    | none => exact ⟨m, rfl, le_rfl⟩
    | some x =>
      have hle : key x ≤ key m := by
        apply hgreatest
        exact List.mem_append_left _ (mem_of_survivor hbefore)
      exact ⟨survive key x m, rfl, le_survive_of_le hle⟩
  obtain ⟨x, hx, hmx⟩ := hhead
  obtain ⟨y, hy, hxy⟩ := survivor_append hx after
  refine ⟨y, ?_, hmx.trans hxy⟩
  rw [← hy, List.append_assoc, List.singleton_append]

end Flywheel.Data
