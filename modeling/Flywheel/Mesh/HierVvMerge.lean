import Flywheel.Mesh.HierVv

/-!
# What the merge of two version vectors computes

`merge` walks over the listed scopes in ascending order and reads the vector it is
changing, so a scope that is new to it inherits from ancestors that were raised
before. Effective counters of the merge are the larger ones of the two vectors exactly
under a condition on the scopes that are listed on one side only.
-/

namespace Flywheel.Mesh

open Flywheel.Data List
open Std (TreeMap ReflOrd)

/-- A scope that lookups can reach: it is not empty and does not start with white space. -/
def Addressable : Scope → Prop
  | [] => False
  | c :: _ => isWhitespace c = false

instance : DecidablePred Addressable
  | [] => inferInstanceAs (Decidable False)
  | c :: _ => inferInstanceAs (Decidable (isWhitespace c = false))

variable {k : Scope}

section

variable (hk : Addressable k)
include hk

theorem Addressable.of_isPrefix {p : Scope} (hp : p ≠ []) (h : p <+: k) : Addressable p := by
  obtain ⟨t, rfl⟩ := h
  cases p with
  | nil => exact absurd rfl hp
  | cons c p => exact hk

theorem trim_of_addressable : trim k = k.rdropWhile isWhitespace := by
  cases k with
  | nil => exact hk.elim
  | cons c k =>
    have hc : isWhitespace c = false := hk
    rw [trim, dropWhile_cons, hc]
    rfl

theorem trim_isPrefix : trim k <+: k := by
  rw [trim_of_addressable hk]
  exact rdropWhile_prefix isWhitespace k

theorem trim_ne_nil : trim k ≠ [] := by
  rw [trim_of_addressable hk, ne_eq, rdropWhile_eq_nil_iff]
  intro hall
  cases k with
  | nil => exact hk
  | cons c k =>
    have hc : isWhitespace c = false := hk
    rw [hall c mem_cons_self] at hc
    cases hc

end

theorem addressable_trim {s : Scope} (hs : trim s ≠ []) : Addressable (trim s) := by
  have hpre : trim s <+: s.dropWhile isWhitespace := rdropWhile_prefix _ _
  cases hdrop : s.dropWhile isWhitespace with
  | nil =>
    rw [hdrop] at hpre
    exact absurd (prefix_nil.mp hpre) hs
  | cons c t =>
    have hc : isWhitespace c = false := by
      have hne : s.dropWhile isWhitespace ≠ [] := by simp [hdrop]
      have hhead := head_dropWhile_not isWhitespace hne
      simpa only [hdrop, head_cons] using hhead
    rw [hdrop] at hpre
    exact Addressable.of_isPrefix (show Addressable (c :: t) from hc) hs hpre

theorem trim_trim (s : Scope) : trim (trim s) = trim s := by
  by_cases hs : trim s = []
  · rw [hs]
    rfl
  · rw [trim_of_addressable (addressable_trim hs)]
    exact rdropWhile_idempotent isWhitespace _

/-- A proper prefix comes before the scope. -/
theorem compare_of_isPrefix {p : Scope} (h : p <+: k) (hne : p ≠ k) : compare p k = .lt := by
  obtain ⟨t, rfl⟩ := h
  have ht : t ≠ [] := by
    rintro rfl
    exact hne (append_nil p).symm
  rw [List.compare_eq_compareLex]
  clear hne
  induction p with
  | nil =>
    cases t with
    | nil => exact absurd rfl ht
    | cons c t => exact List.compareLex_nil_cons
  | cons c p ih =>
    rw [List.cons_append, List.compareLex_cons_cons, ReflOrd.compare_self]
    exact ih

namespace HierarchicalVersionVector

variable {a b v w : HierarchicalVersionVector}

/-- A scope has a nearest ancestor, the same for all vectors, or no vector gives it a
counter by inheritance. -/
theorem inherited_cases (k : Scope) :
    (∀ v : HierarchicalVersionVector, v.inherited k.reverse = 0) ∨
      ∃ p, p ≠ [] ∧ p <+: k ∧ p.length < k.length ∧
        ∀ v : HierarchicalVersionVector, v.inherited k.reverse = v.effective p := by
  induction k using reverseRecOn with
  | nil => exact Or.inl fun _ => rfl
  | append_singleton k c ih =>
    rw [reverse_append, reverse_singleton, singleton_append]
    have hlen : k.length < (k ++ [c]).length := by simp
    by_cases hc : c = ':' ∨ c = '/'
    · by_cases hk : k = []
      · left
        intro v
        rw [inherited, if_pos hc, hk]
        rfl
      · refine Or.inr ⟨k, hk, prefix_append k [c], hlen, fun v => ?_⟩
        have hrev : k.reverse ≠ [] := by simpa using hk
        rw [inherited, if_pos hc, if_neg hrev, reverse_reverse, effective]
    · simp only [inherited, if_neg hc]
      rcases ih with hzero | ⟨p, hp, hpre, hplen, heq⟩
      · exact Or.inl hzero
      · exact Or.inr ⟨p, hp, hpre.trans (prefix_append k [c]), by omega, heq⟩

variable {k : Scope}

theorem effective_of_some {n : ℕ} (h : v.entries[k]? = some n) : v.effective k = n := by
  rw [effective, h]

theorem effective_of_none (h : v.entries[k]? = none) : v.effective k = v.inherited k.reverse := by
  rw [effective, h]

/-- The effective counter depends only on the entries of the scope and its prefixes. -/
theorem effective_congr (h : ∀ j, j <+: k → v.entries[j]? = w.entries[j]?) :
    v.effective k = w.effective k := by
  induction hn : k.length using Nat.strong_induction_on generalizing k with
  | _ n ih =>
    have hk := h k (prefix_refl k)
    cases hw : w.entries[k]? with
    | some c => rw [effective_of_some hw, effective_of_some (hk.trans hw)]
    | none =>
      rw [effective_of_none hw, effective_of_none (hk.trans hw)]
      rcases inherited_cases k with hzero | ⟨p, -, hpre, hlen, heq⟩
      · rw [hzero, hzero]
      · rw [heq, heq]
        exact ih p.length (hn ▸ hlen) (fun j hj => h j (hj.trans hpre)) rfl

theorem inherited_congr (h : ∀ j, j <+: k → j ≠ k → v.entries[j]? = w.entries[j]?) :
    v.inherited k.reverse = w.inherited k.reverse := by
  rcases inherited_cases k with hzero | ⟨p, -, hpre, hlen, heq⟩
  · rw [hzero, hzero]
  · rw [heq, heq]
    refine effective_congr fun j hj => h j (hj.trans hpre) ?_
    rintro rfl
    exact absurd hj.length_le (by omega)

theorem counterFor_of_trim (hk : Addressable k) (htrim : trim k = k) :
    v.counterFor k = v.effective k := by
  rw [counterFor, if_neg (trim_ne_nil hk), htrim]

theorem mem_comparisonScopes :
    k ∈ a.comparisonScopes b ↔ a.entries[k]? ≠ none ∨ b.entries[k]? ≠ none := by
  simp only [comparisonScopes, mem_unionKeys, TreeMap.mem_iff_isSome_getElem?,
    Option.isSome_iff_ne_none]

theorem merge_entries_of_none (ha : a.entries[k]? = none)
    (hb : b.entries[k]? = none) : (a.merge b).entries[k]? = none := by
  unfold merge
  split_ifs
  · rw [TreeMap.getElem?_map, ha]
    rfl
  · have hk : k ∉ a.comparisonScopes b := by
      rw [mem_comparisonScopes]
      simp [ha, hb]
    exact (getElem?_updateInPlace_of_notMem _ _ hk).trans ha

section SameKeys

variable (hkeys : a.entries.keys = b.entries.keys)

include hkeys

theorem entries_none_iff_of_keys_eq {k : Scope} : a.entries[k]? = none ↔ b.entries[k]? = none := by
  rw [← not_iff_not, ← ne_eq, ← ne_eq, ← Option.isSome_iff_ne_none, ← Option.isSome_iff_ne_none,
    ← TreeMap.mem_iff_isSome_getElem?, ← TreeMap.mem_iff_isSome_getElem?, ← TreeMap.mem_keys,
    ← TreeMap.mem_keys, hkeys]

/-- With the same keys, effective counters of the merge are the larger ones. -/
theorem effective_merge_of_keys_eq (k : Scope) :
    (a.merge b).effective k = max (a.effective k) (b.effective k) := by
  induction hn : k.length using Nat.strong_induction_on generalizing k with
  | _ n ih =>
    cases ha : a.entries[k]? with
    | none =>
      have hb := (entries_none_iff_of_keys_eq hkeys).mp ha
      rw [effective_of_none ha, effective_of_none hb,
        effective_of_none (merge_entries_of_none ha hb)]
      rcases inherited_cases k with hzero | ⟨p, -, -, hlen, heq⟩
      · simp only [hzero, Nat.max_self]
      · simp only [heq]
        exact ih p.length (hn ▸ hlen) p rfl
    | some x =>
      have hb : b.entries[k]? ≠ none := by
        rw [ne_eq, ← entries_none_iff_of_keys_eq hkeys, ha]
        simp
      obtain ⟨y, hy⟩ := Option.ne_none_iff_exists'.mp hb
      have hm : (a.merge b).entries[k]? = some (max x y) := by
        rw [merge, if_pos hkeys, TreeMap.getElem?_map, ha, TreeMap.getD_eq_getD_getElem?, hy]
        rfl
      rw [effective_of_some ha, effective_of_some hy, effective_of_some hm]

end SameKeys

variable (hkeys : a.entries.keys ≠ b.entries.keys)

include hkeys

variable {k : Scope}

/-- The entry of a scope is computed from the final entries of the scopes before it. -/
theorem exists_merge_entry (hk : k ∈ a.comparisonScopes b) :
    ∃ cur : HierarchicalVersionVector,
      (∀ j, j <+: k → j ≠ k → cur.entries[j]? = (a.merge b).entries[j]?) ∧
      cur.entries[k]? = a.entries[k]? ∧
      (a.merge b).entries[k]? = some (max (cur.counterFor k) (b.counterFor k)) := by
  rw [merge, if_neg hkeys]
  obtain ⟨cur, hbefore, hafter, hentry⟩ :=
    exists_getElem?_updateInPlace _ a.entries (pairwise_unionKeys a.entries b.entries) hk
  refine ⟨⟨cur⟩, fun j hj hne => hbefore j (compare_of_isPrefix hj hne), ?_, hentry⟩
  apply hafter
  rw [ReflOrd.compare_self]
  decide

theorem merge_entry_listed (hk : Addressable k) (htrim : trim k = k) {n : ℕ}
    (ha : a.entries[k]? = some n) :
    (a.merge b).entries[k]? = some (max n (b.effective k)) := by
  have hmem : k ∈ a.comparisonScopes b := by
    rw [mem_comparisonScopes, ha]
    simp
  obtain ⟨cur, -, hself, hentry⟩ := exists_merge_entry hkeys hmem
  rw [hentry, counterFor_of_trim hk htrim, counterFor_of_trim hk htrim,
    effective_of_some (hself.trans ha)]

/-- A scope that is new takes the larger of what it now inherits and its counter in the
other vector. -/
theorem merge_entry_new (hk : Addressable k) (htrim : trim k = k)
    (ha : a.entries[k]? = none) (hb : b.entries[k]? ≠ none) :
    (a.merge b).entries[k]? =
      some (max ((a.merge b).inherited k.reverse) (b.effective k)) := by
  obtain ⟨cur, hbefore, hself, hentry⟩ :=
    exists_merge_entry hkeys (mem_comparisonScopes.mpr (Or.inr hb))
  rw [hentry, counterFor_of_trim hk htrim, counterFor_of_trim hk htrim,
    effective_of_none (hself.trans ha), inherited_congr hbefore]

/-- A scope with trailing white space takes the counters of the trimmed scope. -/
theorem merge_entry_padded (hk : Addressable k) (htrim : trim k ≠ k)
    (hmem : k ∈ a.comparisonScopes b) :
    (a.merge b).entries[k]? =
      some (max ((a.merge b).effective (trim k)) (b.effective (trim k))) := by
  obtain ⟨cur, hbefore, -, hentry⟩ := exists_merge_entry hkeys hmem
  have hpre := trim_isPrefix hk
  have hcur : cur.effective (trim k) = (a.merge b).effective (trim k) := by
    refine effective_congr fun j hj => hbefore j (hj.trans hpre) ?_
    rintro rfl
    exact htrim (hpre.eq_of_length_le hj.length_le)
  rw [hentry, counterFor, counterFor, if_neg (trim_ne_nil hk), if_neg (trim_ne_nil hk), hcur]

end HierarchicalVersionVector

end Flywheel.Mesh
