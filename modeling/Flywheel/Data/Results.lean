import Mathlib.Data.List.Forall2

/-!
# Fallible computations

What it takes for a computation in `Except` to succeed or to fail, step by step, and what a loop
over a list relates and leaves alone.
-/

namespace Flywheel.Data

open List

variable {ε ε' α β : Type*} {x : Except ε α}

theorem map_eq_ok {f : α → β} {b : β} (h : x.map f = .ok b) : ∃ a, x = .ok a ∧ f a = b := by
  cases x with
  | error e => cases h
  | ok a => exact ⟨a, rfl, Except.ok.inj h⟩

theorem bind_eq_ok {f : α → Except ε β} {b : β} (h : x.bind f = .ok b) :
    ∃ a, x = .ok a ∧ f a = .ok b := by
  cases x with
  | error e => cases h
  | ok a => exact ⟨a, rfl, h⟩

theorem bind_eq_error {f : α → Except ε β} {e : ε} (h : x.bind f = .error e) :
    x = .error e ∨ ∃ a, x = .ok a ∧ f a = .error e := by
  cases x with
  | error e' => exact .inl (congrArg Except.error (Except.error.inj h))
  | ok a => exact .inr ⟨a, rfl, h⟩

theorem mapError_eq_ok {f : ε → ε'} {a : α} (h : x.mapError f = .ok a) : x = .ok a := by
  cases x with
  | ok _ => exact congrArg Except.ok (Except.ok.inj h)
  | error _ => cases h

theorem mapError_eq_error {f : ε → ε'} {e' : ε'} (h : x.mapError f = .error e') :
    ∃ e, x = .error e ∧ f e = e' := by
  cases x with
  | ok _ => cases h
  | error e => exact ⟨e, rfl, Except.error.inj h⟩

/-- A loop that treats the items of a list one after the other succeeds when it does for each. -/
theorem eq_ok_iff_forall₂ {f : α → Except ε β} {g : List α → Except ε (List β)}
    (hnil : g [] = .ok []) (hcons : ∀ a l, g (a :: l) = (f a).bind fun b => (g l).map (b :: ·))
    {l : List α} {l' : List β} : g l = .ok l' ↔ Forall₂ (fun a b => f a = .ok b) l l' := by
  induction l generalizing l' with
  | nil =>
    rw [hnil, forall₂_nil_left_iff, Except.ok.injEq]
    exact eq_comm
  | cons a l ih =>
    rw [hcons, forall₂_cons_left_iff]
    constructor
    · intro h
      obtain ⟨b, hb, h⟩ := bind_eq_ok h
      obtain ⟨l'', hl, rfl⟩ := map_eq_ok h
      exact ⟨b, l'', hb, ih.mp hl, rfl⟩
    · rintro ⟨b, l'', hb, hl, rfl⟩
      rw [hb, Except.bind, ih.mpr hl, Except.map]

/-- What stands on the right of a pointwise relation is related to something on the left. -/
theorem exists_of_mem_right {R : α → β → Prop} {l : List α} {l' : List β}
    (h : Forall₂ R l l') {b : β} (hb : b ∈ l') : ∃ a ∈ l, R a b := by
  obtain ⟨i, hi, rfl⟩ := getElem_of_mem hb
  have hi' : i < l.length := h.length_eq ▸ hi
  exact ⟨l[i], getElem_mem hi', h.get hi' hi⟩

theorem forall₂_imp_of_mem {R S : α → β → Prop} {l : List α} {l' : List β}
    (h : Forall₂ R l l') (himp : ∀ a b, a ∈ l → b ∈ l' → R a b → S a b) :
    Forall₂ S l l' := by
  refine forall₂_iff_zip.mpr ⟨h.length_eq, fun {a b} hmem => ?_⟩
  obtain ⟨ha, hb⟩ := of_mem_zip hmem
  exact himp a b ha hb (forall₂_zip h hmem)

theorem forall₂_congr_of_mem {R S : α → β → Prop} {l : List α} {l' : List β}
    (h : ∀ a ∈ l, ∀ b ∈ l', (R a b ↔ S a b)) : Forall₂ R l l' ↔ Forall₂ S l l' :=
  ⟨fun hr => forall₂_imp_of_mem hr fun a b ha hb => (h a ha b hb).mp,
    fun hs => forall₂_imp_of_mem hs fun a b ha hb => (h a ha b hb).mpr⟩

theorem foldl_of_fixed {f : β → α → β} {b : β} {l : List α} (h : ∀ a ∈ l, f b a = b) :
    l.foldl f b = b := by
  induction l with
  | nil => rfl
  | cons a l ih =>
    obtain ⟨ha, hl⟩ := forall_mem_cons.mp h
    rw [foldl_cons, ha, ih hl]

end Flywheel.Data
