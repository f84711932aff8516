import Mathlib.Data.Finset.Sort

/-!
# Replicas that act and merge

Replicas of a data type act locally and merge the states of other replicas into
their own. Next to its state each replica carries, as a ghost, the history of the
events behind it: a merge unites the histories. What holds initially, is kept by the
local actions and is kept by merges holds at every replica after every run. The
second part is about merges of maps that walk over the entries of one map and update
the other one entry at a time.
-/

namespace Flywheel.Data

section Replicas

variable {σ ε α : Type*}

/-- A state, with the events that went into it. -/
structure Replica (σ ε : Type*) where
  state : σ
  history : Set ε

/-- What one of the numbered replicas does. -/
inductive ReplicaOp (α : Type*)
  | act (i : ℕ) (action : α)
  | merge (i j : ℕ)

variable (act : α → Replica σ ε → Replica σ ε) (merge : σ → σ → σ)

def Replica.join (r r' : Replica σ ε) : Replica σ ε :=
  ⟨merge r.state r'.state, r.history ∪ r'.history⟩

def ReplicaOp.step (replicas : ℕ → Replica σ ε) : ReplicaOp α → ℕ → Replica σ ε
  | .act i action => Function.update replicas i (act action (replicas i))
  | .merge i j => Function.update replicas i ((replicas i).join merge (replicas j))

/-- The replicas after a run from a common initial replica. -/
def runReplicas (init : Replica σ ε) (ops : List (ReplicaOp α)) : ℕ → Replica σ ε :=
  ops.foldl (ReplicaOp.step act merge) fun _ => init

variable {act merge}

/-- An invariant of the initial replica, of the local actions of a run and of merges holds at every
replica after the run. -/
theorem runReplicas_invariant {P : Replica σ ε → Prop} {init : Replica σ ε} (hinit : P init)
    (hmerge : ∀ r r', P r → P r' → P (r.join merge r')) {ops : List (ReplicaOp α)}
    (hact : ∀ i action, .act i action ∈ ops → ∀ r, P r → P (act action r)) (i : ℕ) :
    P (runReplicas act merge init ops i) := by
  suffices h : ∀ (replicas), (∀ i, P (replicas i)) →
      ∀ i, P (ops.foldl (ReplicaOp.step act merge) replicas i) from h _ (fun _ => hinit) i
  induction ops with
  | nil => exact fun _ h => h
  | cons op ops ih =>
    intro replicas h
    refine ih (fun j action hmem => hact j action (List.mem_cons_of_mem op hmem)) _ fun j => ?_
    cases op with
    | act k action =>
      rw [ReplicaOp.step]
      rcases eq_or_ne j k with rfl | hne
      · rw [Function.update_self]
        exact hact j action List.mem_cons_self _ (h j)
      · rw [Function.update_of_ne hne]
        exact h j
    | merge k l =>
      rw [ReplicaOp.step]
      rcases eq_or_ne j k with rfl | hne
      · rw [Function.update_self]
        exact hmerge _ _ (h j) (h l)
      · rw [Function.update_of_ne hne]
        exact h j

end Replicas

open Std

variable {κ β γ : Type*} [LinearOrder κ]

/-- The comparison of a linear order is transitive, as lookups in a map need it. -/
instance transCmpCompare : TransCmp (compare : κ → κ → Ordering) := inferInstance

/-- What absorbing an optional entry leaves at a key. -/
def absorb (combine : Option γ → β → γ) (old : Option γ) : Option β → Option γ
  | some entry => some (combine old entry)
  | none => old

variable {combine : Option γ → β → γ} {step : ExtTreeMap κ γ → κ → β → ExtTreeMap κ γ}
  (hstep : ∀ m k entry j, (step m k entry)[j]? = if k = j then some (combine m[j]? entry) else m[j]?)
include hstep

/-- The loop over a list of entries with distinct keys, where `found` is the entry of `k` in it. -/
theorem getElem?_foldl_of_distinct {k : κ} {entries : List (κ × β)}
    (hdistinct : entries.Pairwise fun a b => a.1 ≠ b.1) {found : Option β}
    (hfound : ∀ entry, (k, entry) ∈ entries ↔ found = some entry) (m : ExtTreeMap κ γ) :
    (entries.foldl (fun m b => step m b.1 b.2) m)[k]? = absorb combine m[k]? found := by
  induction entries generalizing found m with
  | nil =>
    cases found with
    | none => rfl
    | some entry => exact absurd ((hfound entry).mpr rfl) List.not_mem_nil
  | cons head entries ih =>
    obtain ⟨key, entry⟩ := head
    obtain ⟨hne, hdistinct⟩ := List.pairwise_cons.mp hdistinct
    rw [List.foldl_cons]
    rcases eq_or_ne key k with rfl | hkey
    · have hnot : ∀ e, (key, e) ∈ entries ↔ (none) = some e :=
        fun e => ⟨fun hmem => absurd rfl (hne (key, e) hmem), fun h => nomatch h⟩
      rw [ih hdistinct hnot, hstep, if_pos rfl, (hfound entry).mp List.mem_cons_self]
      rfl
    · have htail : ∀ e, (k, e) ∈ entries ↔ found = some e := by
        intro e
        rw [← hfound, List.mem_cons, Prod.mk.injEq]
        exact ⟨Or.inr, fun h => h.resolve_left fun heq => hkey heq.1.symm⟩
      rw [ih hdistinct htail, hstep, if_neg hkey]

/-- A loop over the entries of a map that combines each with the entry of another map at the same
key absorbs the first map entry by entry. -/
theorem getElem?_foldl_entries (m : ExtTreeMap κ γ) (m' : ExtTreeMap κ β) (k : κ) :
    (m'.foldl step m)[k]? = absorb combine m[k]? m'[k]? := by
  have hdistinct : m'.toList.Pairwise fun a b => a.1 ≠ b.1 := by
    refine m'.distinct_keys_toList.imp fun hne heq => hne ?_
    rw [heq]
    exact ReflCmp.compare_self
  rw [ExtTreeMap.foldl_eq_foldl_toList]
  exact getElem?_foldl_of_distinct hstep hdistinct
    (fun _ => ExtTreeMap.mem_toList_iff_getElem?_eq_some) m

end Flywheel.Data
