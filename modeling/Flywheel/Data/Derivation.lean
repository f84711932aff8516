import Mathlib.Data.Set.Basic

/-!
# What can be derived from what is known

A symbolic view of secrecy. Terms are built from other terms by given rules, and
whoever knows some terms can derive all that the rules build from them. A set of
secrets stays secret if none of them is known and building any of them takes another.
-/

namespace Flywheel.Data

variable {τ : Type*} (rule : List τ → τ → Prop)

/-- The terms that can be derived from known ones by the rules. -/
inductive Derivable (known : Set τ) : τ → Prop
  | known {t : τ} (h : t ∈ known) : Derivable known t
  | build {premises : List τ} {t : τ} (hrule : rule premises t)
      (h : ∀ s ∈ premises, Derivable known s) : Derivable known t

variable {rule} {known : Set τ} {t : τ}

/-- Secrets that are not known and of which each takes another to build are not derived. -/
theorem not_derivable_of_guarded (secrets : Set τ) (hknown : ∀ s ∈ secrets, s ∉ known)
    (hguarded : ∀ s ∈ secrets, ∀ premises, rule premises s → ∃ p ∈ premises, p ∈ secrets)
    (ht : t ∈ secrets) : ¬ Derivable rule known t := by
  intro h
  induction h with
  | known h => exact hknown _ ht h
  | build hrule _ ih =>
    obtain ⟨p, hp, hsecret⟩ := hguarded _ ht _ hrule
    exact ih p hp hsecret

end Flywheel.Data
