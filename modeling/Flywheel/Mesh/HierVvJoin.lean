import Flywheel.Mesh.HierVvMerge

/-!
# When a merge is the join of effective counters

Every addressable scope, also one with trailing white space, is the nearest listed
ancestor of some scope that no vector lists. So `counter_for` tells the effective
counters of all addressable scopes, and a merge that is right for every scope is right
for those. From this the exact condition is read off, scope by scope.
-/

namespace Flywheel.Mesh

open Flywheel.Data List

namespace HierarchicalVersionVector

variable {a b : HierarchicalVersionVector}

/-- A descendant of `k` with a last segment of `n` letters. -/
def descendant (k : Scope) (n : ℕ) : Scope := k ++ ':' :: replicate n 'x'

variable {k : Scope}

/-- A descendant inherits from `k`. -/
theorem inherited_descendant (hk : k ≠ []) (n : ℕ) (v : HierarchicalVersionVector) :
    v.inherited (descendant k n).reverse = v.effective k := by
  have hskip : ∀ (n) (before),
      v.inherited (replicate n 'x' ++ before) = v.inherited before := by
    intro n before
    induction n with
    | zero => rfl
    | succ n ih =>
      exact ih
  have hrev : (descendant k n).reverse = replicate n 'x' ++ ':' :: k.reverse := by
    simp [descendant]
  have hne : k.reverse ≠ [] := by simpa using hk
  rw [hrev, hskip, inherited, if_pos (Or.inl rfl), if_neg hne, reverse_reverse, effective]

/-- A descendant of an addressable scope has nothing to trim. -/
theorem trim_descendant (hk : Addressable k) (n : ℕ) :
    Addressable (descendant k n) ∧ trim (descendant k n) = descendant k n := by
  have haddr : Addressable (descendant k n) := by
    cases k with
    | nil => exact hk.elim
    | cons c k => exact hk
  refine ⟨haddr, ?_⟩
  rw [trim_of_addressable haddr, rdropWhile_eq_self_iff]
  intro hne
  have hlast : (descendant k n).getLast hne ∈ [':', 'x'] := by
    simp only [descendant]
    cases n with
    | zero => simp
    | succ n => simp
  rcases mem_pair.mp hlast with h | h <;> rw [h] <;> decide

/-- A merge is right about every scope when it is right about the effective counters of
the addressable ones. -/
theorem merge_counterFor_iff_effective :
    (∀ s, (a.merge b).counterFor s = max (a.counterFor s) (b.counterFor s)) ↔
      ∀ k, Addressable k →
        (a.merge b).effective k = max (a.effective k) (b.effective k) := by
  constructor
  · -- A descendant that neither vector has an entry for inherits the counters of the scope.
    intro h k hk
    obtain ⟨n, hn⟩ : ∃ n, ∀ j ∈ a.comparisonScopes b, j.length ≤ n :=
      ⟨((a.comparisonScopes b).map length).max?.getD 0, fun j hj =>
        le_max?_getD_of_mem (mem_map_of_mem hj)⟩
    obtain ⟨haddr, htrim⟩ := trim_descendant hk n
    have hlong : descendant k n ∉ a.comparisonScopes b := by
      intro hmem
      have hle := hn _ hmem
      rw [descendant, length_append, length_cons, length_replicate] at hle
      omega
    rw [mem_comparisonScopes, not_or, not_not, not_not] at hlong
    obtain ⟨ha, hb⟩ := hlong
    have hne : k ≠ [] := by
      rintro rfl
      exact hk
    have hlookup : ∀ v : HierarchicalVersionVector, v.entries[descendant k n]? = none →
        v.counterFor (descendant k n) = v.effective k := by
      intro v hv
      rw [counterFor_of_trim haddr htrim, effective_of_none hv, inherited_descendant hne]
    rw [← hlookup a ha, ← hlookup b hb, ← hlookup _ (merge_entries_of_none ha hb)]
    exact h _
  · intro h s
    by_cases hs : trim s = []
    · simp [counterFor, hs]
    · simp only [counterFor, if_neg hs]
      exact h _ (addressable_trim hs)

/-- What the merge asks of a scope that one of the vectors lists. A scope without
trailing white space that is new to the first vector must not inherit more in the second
one than the larger of the two effective counters. A scope with trailing white space must
have the same larger counter as its trimmed form. -/
def MergesAt (a b : HierarchicalVersionVector) (k : Scope) : Prop :=
  if trim k = k then
    a.entries[k]? ≠ none ∨ b.inherited k.reverse ≤ max (a.effective k) (b.effective k)
  else
    max (a.effective (trim k)) (b.effective (trim k)) = max (a.effective k) (b.effective k)

theorem inherited_merge (hk : Addressable k) (h : ∀ p, Addressable p → p.length < k.length →
      (a.merge b).effective p = max (a.effective p) (b.effective p)) :
    (a.merge b).inherited k.reverse = max (a.inherited k.reverse) (b.inherited k.reverse) := by
  rcases inherited_cases k with hzero | ⟨p, hp, hpre, hlen, heq⟩
  · simp only [hzero, Nat.max_self]
  · simp only [heq]
    exact h p (hk.of_isPrefix hp hpre) hlen

/-- If a merge joins the shorter scopes, it joins a listed scope exactly when the
condition holds there. -/
theorem effective_merge_iff (hkeys : a.entries.keys ≠ b.entries.keys)
    (hk : Addressable k) (hmem : k ∈ a.comparisonScopes b)
    (h : ∀ p, Addressable p → p.length < k.length →
      (a.merge b).effective p = max (a.effective p) (b.effective p)) :
    (a.merge b).effective k = max (a.effective k) (b.effective k) ↔ MergesAt a b k := by
  unfold MergesAt
  by_cases htrim : trim k = k
  · rw [if_pos htrim]
    cases ha : a.entries[k]? with
    | some n =>
      rw [effective_of_some (merge_entry_listed hkeys hk htrim ha), effective_of_some ha]
      simp
    | none =>
      have hb : b.entries[k]? ≠ none := by
        simpa [ha] using mem_comparisonScopes.mp hmem
      rw [effective_of_some (merge_entry_new hkeys hk htrim ha hb), inherited_merge hk h,
        effective_of_none ha]
      simp only [ne_eq, not_true_eq_false, false_or]
      omega
  · have hlen : (trim k).length < k.length := by
      refine lt_of_le_of_ne (trim_isPrefix hk).length_le fun heq => htrim ?_
      exact (trim_isPrefix hk).eq_of_length heq
    rw [if_neg htrim, effective_of_some (merge_entry_padded hkeys hk htrim hmem),
      h _ (addressable_trim (trim_ne_nil hk)) hlen]
    omega

/-- The effective counter of every scope in a merge is the larger of the two effective
counters exactly when the vectors list the same scopes or the condition holds at every
addressable scope that is listed. -/
theorem merge_counterFor_eq_max_iff (a b : HierarchicalVersionVector) :
    (∀ s, (a.merge b).counterFor s = max (a.counterFor s) (b.counterFor s)) ↔
      a.entries.keys = b.entries.keys ∨
        ∀ k ∈ a.comparisonScopes b, Addressable k → MergesAt a b k := by
  rw [merge_counterFor_iff_effective]
  constructor
  · intro hjoin
    by_cases hkeys : a.entries.keys = b.entries.keys
    · exact Or.inl hkeys
    · refine Or.inr fun k hmem hk => ?_
      exact (effective_merge_iff hkeys hk hmem fun p hp _ => hjoin p hp).mp (hjoin k hk)
  · intro hcond
    by_cases hkeys : a.entries.keys = b.entries.keys
    · exact fun k _ => effective_merge_of_keys_eq hkeys k
    · have hall := hcond.resolve_left hkeys
      intro k
      -- Ancestors and trimmed forms are shorter, so the induction is on the length.
      induction hn : k.length using Nat.strong_induction_on generalizing k with
      | _ n ih =>
        intro hk
        have hshorter : ∀ p, Addressable p → p.length < k.length →
            (a.merge b).effective p = max (a.effective p) (b.effective p) :=
          fun p hp hlen => ih p.length (hn ▸ hlen) p rfl hp
        by_cases hmem : k ∈ a.comparisonScopes b
        · exact (effective_merge_iff hkeys hk hmem hshorter).mpr (hall k hmem hk)
        · rw [mem_comparisonScopes, not_or, not_not, not_not] at hmem
          rw [effective_of_none hmem.1, effective_of_none hmem.2,
            effective_of_none (merge_entries_of_none hmem.1 hmem.2)]
          exact inherited_merge hk hshorter

/-- A vector that lists one scope with a counter of 3. -/
def parentVector : HierarchicalVersionVector := new.set ['A'] 3

/-- A vector with a newer counter for the scope, and an older one for a child. -/
def familyVector : HierarchicalVersionVector := (new.set ['A'] 5).set ['A', ':', 'x'] 4

/-- Merging `familyVector` into `parentVector` gives the child the counter its parent has
just got, which is more than either vector has for the child. The other direction gives
the child's own counter. -/
theorem merge_parentVector_familyVector :
    (parentVector.merge familyVector).counterFor ['A', ':', 'x'] = 5 ∧
      max (parentVector.counterFor ['A', ':', 'x']) (familyVector.counterFor ['A', ':', 'x']) = 4 ∧
      (familyVector.merge parentVector).counterFor ['A', ':', 'x'] = 4 := by
  decide +kernel

end HierarchicalVersionVector

end Flywheel.Mesh
