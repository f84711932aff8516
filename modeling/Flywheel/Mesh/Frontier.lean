import Flywheel.Mesh.HierVvMerge

/-!
# The freshness frontier never rolls back

Over every run of `observe` and `reconcile` in which the reconciled frontiers list
scopes as `set` stores them, effective counters only grow, an observation that is ahead
of the frontier is taken over, and one that is refused changes nothing. The scope of an
observation must not be blank: `observe` files a blank scope under `z`, where
`counter_for` does not look for it.
-/

namespace Flywheel.Mesh

open Flywheel.Data
open Std (TreeMap)

/-- A scope in the form in which `set` stores it. -/
def NormalScope (k : Scope) : Prop := Addressable k ∧ trim k = k

/-- `normalize_scope` gives such a scope. -/
theorem normalScope_normalizeScope (s : Scope) : NormalScope (normalizeScope s) := by
  unfold normalizeScope
  split_ifs with hs
  · exact ⟨rfl, rfl⟩
  · exact ⟨addressable_trim hs, trim_trim s⟩

namespace HierarchicalVersionVector

variable {a b v : HierarchicalVersionVector}

/-- All scopes of the vector are in the form in which `set` stores them. -/
def Normalized (v : HierarchicalVersionVector) : Prop :=
  ∀ k, v.entries[k]? ≠ none → NormalScope k

theorem normalized_new : new.Normalized := fun _ hk => absurd TreeMap.getElem?_emptyc hk

/-- `set` keeps a vector normalized. -/
theorem Normalized.set (hv : v.Normalized) (scope : Scope) (counter : ℕ) :
    (v.set scope counter).Normalized := by
  intro k hk
  rw [HierarchicalVersionVector.set, TreeMap.getElem?_insert] at hk
  split_ifs at hk with heq
  · rw [← Std.LawfulEqCmp.eq_of_compare heq]
    exact normalScope_normalizeScope scope
  · exact hv k hk

theorem Normalized.merge (ha : a.Normalized) (hb : b.Normalized) : (a.merge b).Normalized := by
  intro k hk
  by_cases hak : a.entries[k]? = none
  · by_cases hbk : b.entries[k]? = none
    · exact absurd (merge_entries_of_none hak hbk) hk
    · exact hb k hbk
  · exact ha k hak

/-- A merge of normalized vectors is at least as fresh as both of them. -/
theorem Normalized.le_effective_merge (ha : a.Normalized) (hb : b.Normalized) (k : Scope) :
    a.effective k ≤ (a.merge b).effective k ∧ b.effective k ≤ (a.merge b).effective k := by
  by_cases hkeys : a.entries.keys = b.entries.keys
  · rw [effective_merge_of_keys_eq hkeys]
    exact ⟨le_max_left _ _, le_max_right _ _⟩
  induction hn : k.length using Nat.strong_induction_on generalizing k with
  | _ n ih =>
    have hinherited : a.inherited k.reverse ≤ (a.merge b).inherited k.reverse ∧
        b.inherited k.reverse ≤ (a.merge b).inherited k.reverse := by
      rcases inherited_cases k with hzero | ⟨p, -, -, hlen, heq⟩
      · simp only [hzero, le_refl, and_self]
      · simp only [heq]
        exact ih p.length (hn ▸ hlen) p rfl
    cases hak : a.entries[k]? with
    | some x =>
      obtain ⟨hk, htrim⟩ := ha k (by simp [hak])
      rw [effective_of_some (merge_entry_listed hkeys hk htrim hak), effective_of_some hak]
      exact ⟨le_max_left _ _, le_max_right _ _⟩
    | none =>
      by_cases hbk : b.entries[k]? = none
      · rw [effective_of_none hak, effective_of_none hbk,
          effective_of_none (merge_entries_of_none hak hbk)]
        exact hinherited
      · obtain ⟨hk, htrim⟩ := hb k hbk
        rw [effective_of_some (merge_entry_new hkeys hk htrim hak hbk), effective_of_none hak]
        exact ⟨hinherited.1.trans (le_max_left _ _), le_max_right _ _⟩

theorem Normalized.le_counterFor_merge (ha : a.Normalized) (hb : b.Normalized) (s : Scope) :
    a.counterFor s ≤ (a.merge b).counterFor s ∧ b.counterFor s ≤ (a.merge b).counterFor s := by
  unfold counterFor
  split_ifs
  · exact ⟨le_rfl, le_rfl⟩
  · exact ha.le_effective_merge hb (trim s)

/-- The loop of `compare` ends with `dominated_by` only if the first vector was not newer
anywhere. -/
theorem compareLoop_dominatedBy {scopes : List Scope} {selfNewer otherNewer : Bool}
    (h : compareLoop a b scopes selfNewer otherNewer = .dominatedBy) :
    selfNewer = false ∧ ∀ k ∈ scopes, a.counterFor k ≤ b.counterFor k := by
  induction scopes generalizing selfNewer otherNewer with
  | nil => cases selfNewer <;> cases otherNewer <;> simp_all [compareLoop]
  | cons k scopes ih =>
    rw [compareLoop] at h
    split_ifs at h
    obtain ⟨hflag, hrest⟩ := ih h
    rw [Bool.or_eq_false_iff, decide_eq_false_iff_not, not_lt] at hflag
    refine ⟨hflag.1, fun j hj => ?_⟩
    rcases List.mem_cons.mp hj with rfl | hj
    · exact hflag.2
    · exact hrest j hj

end HierarchicalVersionVector

namespace RevocationFreshnessFrontier

open HierarchicalVersionVector

variable {f g : RevocationFreshnessFrontier}

theorem normalized_incomingVector (scope : Scope) (counter : ℕ) :
    (incomingVector scope counter).Normalized :=
  normalized_new.set scope counter

theorem counterFor_incomingVector {k : Scope} (hk : NormalScope k) (counter : ℕ) :
    (incomingVector k counter).counterFor k = counter := by
  have hnorm : normalizeScope k = k := by
    rw [normalizeScope, if_neg (trim_ne_nil hk.1), hk.2]
  rw [counterFor_of_trim hk.1 hk.2]
  apply effective_of_some
  rw [incomingVector, HierarchicalVersionVector.set, hnorm, TreeMap.getElem?_insert_self]

/-- What `observe` does: it leaves the frontier as it is, with a counter that is not ahead
of it, or it merges the observation. -/
theorem observe_cases (f : RevocationFreshnessFrontier) (scope : Scope) (counter : ℕ) :
    ((f.observe scope counter).2.isAccepted = false ∧ (f.observe scope counter).1 = f ∧
        counter ≤ f.counterFor (normalizeScope scope)) ∨
      ((f.observe scope counter).2.isAccepted = true ∧ (f.observe scope counter).1 =
        ⟨f.vector.merge (incomingVector (normalizeScope scope) counter)⟩) := by
  have hnormal := normalScope_normalizeScope scope
  unfold observe
  dsimp only
  split_ifs with haccepted
  · exact Or.inr ⟨haccepted, rfl⟩
  · refine Or.inl ⟨by simpa using haccepted, rfl, ?_⟩
    have horder : (incomingVector (normalizeScope scope) counter).compare f.vector =
        .dominatedBy := by
      by_contra hne
      exact haccepted (by simp [evaluate, RevocationFreshnessDecision.isAccepted, hne])
    have hmem : normalizeScope scope ∈
        (incomingVector (normalizeScope scope) counter).comparisonScopes f.vector := by
      rw [mem_comparisonScopes]
      rw [incomingVector, HierarchicalVersionVector.set, normalizeScope,
        if_neg (trim_ne_nil hnormal.1), hnormal.2]
      simp
    have hle := (compareLoop_dominatedBy horder).2 _ hmem
    rwa [counterFor_incomingVector hnormal] at hle

inductive Op
  | observe (scope : Scope) (counter : ℕ)
  | reconcile (incoming : RevocationFreshnessFrontier)

def step (f : RevocationFreshnessFrontier) : Op → RevocationFreshnessFrontier
  | .observe scope counter => (f.observe scope counter).1
  | .reconcile incoming => (f.reconcile incoming).1

def run (f : RevocationFreshnessFrontier) (ops : List Op) : RevocationFreshnessFrontier :=
  ops.foldl step f

/-- A reconciled frontier lists its scopes as `set` stores them. -/
def Op.Normalized : Op → Prop
  | .observe _ _ => True
  | .reconcile incoming => incoming.vector.Normalized

/-- One call keeps the frontier normalized and its counters from falling. -/
theorem step_normalized_le (hf : f.vector.Normalized) {op : Op} (hop : op.Normalized) :
    (f.step op).vector.Normalized ∧ ∀ s, f.counterFor s ≤ (f.step op).counterFor s := by
  have hmerge : ∀ w, w.Normalized →
      (f.vector.merge w).Normalized ∧ ∀ s, f.counterFor s ≤ (f.vector.merge w).counterFor s :=
    fun w hw => ⟨hf.merge hw, fun s => (hf.le_counterFor_merge hw s).1⟩
  cases op with
  | observe scope counter =>
    rcases observe_cases f scope counter with ⟨-, heq, -⟩ | ⟨-, heq⟩
    · rw [step, heq]
      exact ⟨hf, fun _ => le_rfl⟩
    · rw [step, heq]
      exact hmerge _ (normalized_incomingVector _ _)
  | reconcile incoming =>
    unfold step reconcile
    dsimp only
    split_ifs
    · exact ⟨hf, fun _ => le_rfl⟩
    · exact hmerge _ hop

theorem run_normalized_le (hf : f.vector.Normalized) {ops : List Op}
    (hops : ∀ op ∈ ops, op.Normalized) :
    (f.run ops).vector.Normalized ∧ ∀ s, f.counterFor s ≤ (f.run ops).counterFor s := by
  induction ops generalizing f with
  | nil => exact ⟨hf, fun _ => le_rfl⟩
  | cons op ops ih =>
    obtain ⟨hstep, hle⟩ := step_normalized_le hf (hops op List.mem_cons_self)
    obtain ⟨hrun, hle'⟩ := ih hstep fun op' hop' => hops op' (List.mem_cons_of_mem op hop')
    exact ⟨hrun, fun s => (hle s).trans (hle' s)⟩

/-- An observation that is ahead of the frontier is taken over. -/
theorem observe_of_lt (hf : f.vector.Normalized) {scope : Scope} (hscope : trim scope ≠ [])
    {counter : ℕ} (hlt : f.counterFor scope < counter) :
    (f.observe scope counter).2.isAccepted = true ∧
      counter ≤ (f.observe scope counter).1.counterFor scope := by
  have hnorm : normalizeScope scope = trim scope := if_neg hscope
  have hcounter : ∀ v : HierarchicalVersionVector,
      v.counterFor (trim scope) = v.counterFor scope := by
    intro v
    rw [HierarchicalVersionVector.counterFor, trim_trim, ← HierarchicalVersionVector.counterFor]
  rcases observe_cases f scope counter with ⟨-, -, hle⟩ | ⟨haccepted, heq⟩
  · rw [hnorm, RevocationFreshnessFrontier.counterFor, hcounter] at hle
    exact absurd hlt (not_lt.mpr hle)
  · refine ⟨haccepted, ?_⟩
    have hincoming := normalized_incomingVector (normalizeScope scope) counter
    have hle := (hf.le_counterFor_merge hincoming scope).2
    rw [← hcounter (incomingVector _ _), ← hnorm,
      counterFor_incomingVector (normalScope_normalizeScope scope)] at hle
    rw [heq]
    exact hle

/-- In every run from a normalized frontier in which the reconciled frontiers are
normalized, no counter falls from any point to a later one; in the state reached, an
observation of a scope ahead of its counter is always accepted and taken over exactly
when the scope is not blank; and an observation that is refused changes no counter. -/
theorem run_no_rollback (hf : f.vector.Normalized) (before after : List Op)
    (hops : ∀ op ∈ before ++ after, op.Normalized) :
    (∀ s, (f.run before).counterFor s ≤ (f.run (before ++ after)).counterFor s) ∧
    (∀ s, (∀ counter, (f.run before).counterFor s < counter →
        ((f.run before).observe s counter).2.isAccepted = true ∧
          counter ≤ ((f.run before).observe s counter).1.counterFor s) ↔ trim s ≠ []) ∧
    (∀ scope counter, ((f.run before).observe scope counter).2.isAccepted = false →
      ∀ s, ((f.run before).observe scope counter).1.counterFor s =
        (f.run before).counterFor s) := by
  obtain ⟨hnormal, -⟩ := run_normalized_le hf fun op hop => hops op (List.mem_append_left _ hop)
  refine ⟨?_, fun s => ⟨fun hahead hblank => ?_, fun hs counter => ?_⟩, ?_⟩
  · rw [run, run, List.foldl_append]
    exact (run_normalized_le hnormal fun op hop => hops op (List.mem_append_right _ hop)).2
  · -- A blank scope has the counter 0 before and after.
    have hzero : ∀ v : HierarchicalVersionVector, v.counterFor s = 0 := fun v => if_pos hblank
    have hlt : (f.run before).counterFor s < 1 := by
      rw [RevocationFreshnessFrontier.counterFor, hzero]
      exact Nat.one_pos
    have hle := (hahead 1 hlt).2
    rw [RevocationFreshnessFrontier.counterFor, hzero] at hle
    exact absurd hle (by decide)
  · exact observe_of_lt hnormal hs
  · intro scope counter hrefused s
    rcases observe_cases (f.run before) scope counter with ⟨-, heq, -⟩ | ⟨haccepted, -⟩
    · rw [heq]
    · cases haccepted.symm.trans hrefused

/-- A run from the empty frontier with a reconciled frontier of one counter. -/
theorem reconciled_counter_no_rollback :
    (new.run [.reconcile (fromCounter ['z', ':', 'w'] 4)]).counterFor ['z', ':', 'w'] ≤
      (new.run [.reconcile (fromCounter ['z', ':', 'w'] 4),
        .observe ['z', ':', 'w', '/', 't'] 9]).counterFor ['z', ':', 'w'] := by
  refine (run_no_rollback normalized_new [.reconcile (fromCounter ['z', ':', 'w'] 4)]
    [.observe ['z', ':', 'w', '/', 't'] 9] ?_).1 _
  intro op hop
  rcases List.mem_pair.mp hop with rfl | rfl
  · exact normalized_incomingVector _ _
  · trivial

/-- A frontier as it can be read back from a file, with a trailing blank in a scope. -/
def paddedFrontier : RevocationFreshnessFrontier := ⟨⟨(∅ : TreeMap Scope ℕ).insert ['a', ' '] 7⟩⟩

/-- An observation of the blank scope that is ahead of its counter is refused. And after a
frontier with a trailing blank in a scope has been reconciled twice, an observation
elsewhere takes the counter of a scope under it from 7 back to 0. -/
theorem blank_observation_refused_and_padded_rollback :
    ((new.run [.observe ['z'] 10]).counterFor [] = 0 ∧
      ((new.run [.observe ['z'] 10]).observe [] 5).2.isAccepted = false) ∧
    (new.run [.reconcile paddedFrontier, .reconcile paddedFrontier]).counterFor
      ['a', ' ', ':', 'b'] = 7 ∧
    (new.run [.reconcile paddedFrontier, .reconcile paddedFrontier, .observe ['q'] 1]).counterFor
      ['a', ' ', ':', 'b'] = 0 := by
  decide +kernel

end RevocationFreshnessFrontier

end Flywheel.Mesh
