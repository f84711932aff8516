import Mathlib.Order.Basic

/-!
# The best entry of every slot

A list that keeps one entry for each slot. An entry that is entered replaces the one in
its slot when it beats it, and opens a slot at the end of the list when there was none.
Whatever the order of the entries, the list has distinct slots, invents nothing, and
keeps for every entry one of its slot that ranks as high. Of a whole list, the largest
element is found in the same way.
-/

namespace Flywheel.Data

open List

variable {α κ : Type*} [DecidableEq κ] (slot : α → κ) (beats : α → α → Bool)

/-- Enter `a` into the list. -/
def enter : List α → α → List α
  | [], a => [a]
  | b :: bs, a =>
    if slot b = slot a then (if beats a b then a else b) :: bs else b :: enter bs a

/-- The list after all entries were entered in turn. -/
def champions (entries : List α) : List α := entries.foldl (enter slot beats) []

variable (cmp : α → α → Ordering)

/-- The larger of two elements, the second one of equals. -/
def larger (a b : α) : α := if cmp a b = .gt then a else b

/-- The last of the largest elements of a list. -/
def maxBy : List α → Option α
  | [] => none
  | a :: l => some (l.foldl (larger cmp) a)

variable {slot beats}

/-- The slots after an entry are those from before and the one of the entry. -/
theorem slot_mem_enter {l : List α} {a x : α} (hx : x ∈ enter slot beats l a) :
    slot x = slot a ∨ ∃ b ∈ l, slot x = slot b := by
  induction l with
  | nil =>
    rw [enter, mem_singleton] at hx
    exact .inl (congrArg slot hx)
  | cons b bs ih =>
    rw [enter] at hx
    split_ifs at hx with hslot hbeats
    · rcases mem_cons.mp hx with rfl | hx
      · exact .inl rfl
      · exact .inr ⟨x, mem_cons_of_mem b hx, rfl⟩
    · exact .inr ⟨x, hx, rfl⟩
    · rcases mem_cons.mp hx with rfl | hx
      · exact .inr ⟨x, mem_cons_self, rfl⟩
      · rcases ih hx with heq | ⟨c, hc, heq⟩
        · exact .inl heq
        · exact .inr ⟨c, mem_cons_of_mem b hc, heq⟩

/-- Nothing is in the list that was not entered. -/
theorem mem_enter {l : List α} {a x : α} (hx : x ∈ enter slot beats l a) : x = a ∨ x ∈ l := by
  induction l with
  | nil =>
    rw [enter, mem_singleton] at hx
    exact .inl hx
  | cons b bs ih =>
    rw [enter] at hx
    split_ifs at hx with hslot hbeats
    · exact (mem_cons.mp hx).imp id (mem_cons_of_mem b)
    · exact .inr hx
    · rcases mem_cons.mp hx with rfl | hx
      · exact .inr mem_cons_self
      · exact (ih hx).imp id (mem_cons_of_mem b)

/-- An entry keeps the slots of the list distinct. -/
theorem pairwise_enter {l : List α} (hl : l.Pairwise (fun x y => slot x ≠ slot y)) (a : α) :
    (enter slot beats l a).Pairwise (fun x y => slot x ≠ slot y) := by
  induction l with
  | nil => exact pairwise_singleton _ _
  | cons b bs ih =>
    obtain ⟨hb, hbs⟩ := pairwise_cons.mp hl
    rw [enter]
    split_ifs with hslot hbeats
    · exact pairwise_cons.mpr ⟨fun y hy => hslot ▸ hb y hy, hbs⟩
    · exact hl
    · refine pairwise_cons.mpr ⟨fun y hy => ?_, ih hbs⟩
      rcases slot_mem_enter hy with heq | ⟨c, hc, heq⟩
      · exact heq ▸ hslot
      · exact heq ▸ hb c hc

section Rank

variable {β : Type*} [Preorder β] {rank : α → β}
  (hwin : ∀ a b, beats a b = true → rank b ≤ rank a)
  (hlose : ∀ a b, beats a b = false → rank a ≤ rank b)

include hwin hlose

/-- For the entry and everything in the list, the new list has one of the same slot that
ranks as high. -/
theorem exists_mem_enter {l : List α} {a x : α} (hx : x = a ∨ x ∈ l) :
    ∃ y ∈ enter slot beats l a, slot y = slot x ∧ rank x ≤ rank y := by
  induction l with
  | nil =>
    obtain rfl : x = a := hx.resolve_right not_mem_nil
    exact ⟨x, mem_singleton_self x, rfl, le_rfl⟩
  | cons b bs ih =>
    rw [enter]
    split_ifs with hslot hbeats
    · rcases hx with rfl | hx
      · exact ⟨x, mem_cons_self, rfl, le_rfl⟩
      · rcases mem_cons.mp hx with rfl | hx
        · exact ⟨a, mem_cons_self, hslot.symm, hwin a x hbeats⟩
        · exact ⟨x, mem_cons_of_mem a hx, rfl, le_rfl⟩
    · rcases hx with rfl | hx
      · exact ⟨b, mem_cons_self, hslot, hlose x b (Bool.eq_false_iff.mpr hbeats)⟩
      · exact ⟨x, hx, rfl, le_rfl⟩
    · by_cases hxb : x = b
      · exact ⟨b, mem_cons_self, congrArg slot hxb.symm, hxb ▸ le_rfl⟩
      · have hrest : x = a ∨ x ∈ bs :=
          hx.imp id fun hmem => (mem_cons.mp hmem).resolve_left hxb
        obtain ⟨y, hy, hyslot, hrank⟩ := ih hrest
        exact ⟨y, mem_cons_of_mem b hy, hyslot, hrank⟩

/-- What was entered or is in the list keeps a champion of its slot that ranks as high,
through all later entries. -/
theorem exists_mem_foldl_enter {entries l : List α} {x : α} (hx : x ∈ entries ∨ x ∈ l) :
    ∃ y ∈ entries.foldl (enter slot beats) l, slot y = slot x ∧ rank x ≤ rank y := by
  induction entries generalizing l x with
  | nil => exact ⟨x, hx.resolve_left not_mem_nil, rfl, le_rfl⟩
  | cons a entries ih =>
    by_cases hlater : x ∈ entries
    · exact ih (.inl hlater)
    · have hnow : x = a ∨ x ∈ l := by
        rcases hx with hx | hx
        · exact .inl ((mem_cons.mp hx).resolve_right hlater)
        · exact .inr hx
      obtain ⟨y, hy, hyslot, hyrank⟩ := @exists_mem_enter _ _ _ slot _ _ _ _ hwin hlose _ _ _ hnow
      obtain ⟨z, hz, hzslot, hzrank⟩ := ih (.inr hy)
      exact ⟨z, hz, hzslot.trans hyslot, hyrank.trans hzrank⟩

theorem exists_mem_champions {entries : List α} {x : α} (hx : x ∈ entries) :
    ∃ y ∈ champions slot beats entries, slot y = slot x ∧ rank x ≤ rank y :=
  exists_mem_foldl_enter hwin hlose (.inl hx)

end Rank

/-- Nothing is in the list after some entries that was neither entered nor there before. -/
theorem mem_foldl_enter {entries l : List α} {x : α}
    (hx : x ∈ entries.foldl (enter slot beats) l) : x ∈ entries ∨ x ∈ l := by
  induction entries generalizing l with
  | nil => exact .inr hx
  | cons a entries ih =>
    rcases ih hx with hmem | hmem
    · exact .inl (mem_cons_of_mem a hmem)
    · rcases mem_enter hmem with rfl | hmem
      · exact .inl mem_cons_self
      · exact .inr hmem

theorem mem_of_mem_champions {entries : List α} {x : α}
    (hx : x ∈ champions slot beats entries) : x ∈ entries :=
  (mem_foldl_enter hx).resolve_right not_mem_nil

theorem pairwise_champions (entries : List α) :
    (champions slot beats entries).Pairwise (fun x y => slot x ≠ slot y) := by
  have hfold : ∀ l, l.Pairwise (fun x y => slot x ≠ slot y) →
      (entries.foldl (enter slot beats) l).Pairwise (fun x y => slot x ≠ slot y) := by
    induction entries with
    | nil => exact fun l hl => hl
    | cons a entries ih => exact fun l hl => ih _ (pairwise_enter hl a)
  exact hfold [] Pairwise.nil

end Flywheel.Data
