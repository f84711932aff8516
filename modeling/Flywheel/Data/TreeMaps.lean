import Mathlib.Algebra.BigOperators.Group.List.Basic
import Mathlib.Algebra.Ring.Nat

/-!
# Tree maps as lists of entries

What an insertion or a removal does to the entries of a map up to their order, the sum of a
size over the entries, and a map filled from its own entries in any order.
-/

namespace Flywheel.Data

open List

open Std (ExtTreeMap LawfulEqCmp TransCmp)

variable {κ β : Type*} {cmp : κ → κ → Ordering} [TransCmp cmp] [LawfulEqCmp cmp]

/-- The sum of a size over the entries. -/
def entrySum (size : β → ℕ) (t : ExtTreeMap κ β cmp) : ℕ :=
  (t.toList.map fun entry => size entry.2).sum

variable {t : ExtTreeMap κ β cmp} {k : κ} {v w : β} {size : β → ℕ}

theorem getElem?_insert_eq [DecidableEq κ] (t : ExtTreeMap κ β cmp) (k a : κ) (v : β) :
    (t.insert k v)[a]? = if k = a then some v else t[a]? := by
  simp only [ExtTreeMap.getElem?_insert, LawfulEqCmp.compare_eq_iff_eq]

theorem getElem?_erase_eq [DecidableEq κ] (t : ExtTreeMap κ β cmp) (k a : κ) :
    (t.erase k)[a]? = if k = a then none else t[a]? := by
  simp only [ExtTreeMap.getElem?_erase, LawfulEqCmp.compare_eq_iff_eq]

theorem getElem?_insert_eq_some {a : κ} :
    (t.insert k v)[a]? = some w ↔ k = a ∧ v = w ∨ k ≠ a ∧ t[a]? = some w := by
  classical
  rw [getElem?_insert_eq]
  split_ifs with hka <;> simp [hka]

theorem getElem?_erase_eq_some {a : κ} : (t.erase k)[a]? = some w ↔ k ≠ a ∧ t[a]? = some w := by
  classical
  rw [getElem?_erase_eq]
  split_ifs with hka <;> simp [hka]

omit [LawfulEqCmp cmp] in
theorem not_mem_of_getElem?_eq_none (h : t[k]? = none) : k ∉ t := by
  rw [ExtTreeMap.mem_iff_isSome_getElem?, h]
  exact Bool.false_ne_true

theorem nodup_toList (t : ExtTreeMap κ β cmp) : t.toList.Nodup := by
  refine ExtTreeMap.distinct_keys_toList.imp ?_
  rintro a b hne rfl
  exact hne (LawfulEqCmp.compare_eq_iff_eq.mpr rfl)

theorem toList_insert_perm (h : k ∉ t) : (t.insert k v).toList.Perm ((k, v) :: t.toList) := by
  classical
  have hk : t[k]? = none := ExtTreeMap.getElem?_eq_none h
  have hnew : (k, v) ∉ t.toList := by
    rw [ExtTreeMap.mem_toList_iff_getElem?_eq_some, hk]
    nofun
  refine (perm_ext_iff_of_nodup (nodup_toList _) ?_).mpr ?_
  · exact nodup_cons.mpr ⟨hnew, nodup_toList t⟩
  · rintro ⟨a, b⟩
    rw [ExtTreeMap.mem_toList_iff_getElem?_eq_some, getElem?_insert_eq]
    split_ifs with hka
    · simp [← hka, hk, eq_comm]
    · simp [Ne.symm hka]

theorem not_mem_erase_self : k ∉ t.erase k := by
  rw [ExtTreeMap.mem_erase]
  exact fun hmem => hmem.1 (LawfulEqCmp.compare_eq_iff_eq.mpr rfl)

theorem toList_perm_erase (h : t[k]? = some v) : t.toList.Perm ((k, v) :: (t.erase k).toList) := by
  classical
  have hback : (t.erase k).insert k v = t := by
    refine ExtTreeMap.ext_getElem? fun a => ?_
    rw [getElem?_insert_eq, getElem?_erase_eq]
    split_ifs with hka
    · rw [← hka, h]
    · rfl
  have hperm : ((t.erase k).insert k v).toList.Perm ((k, v) :: (t.erase k).toList) :=
    toList_insert_perm not_mem_erase_self
  rwa [hback] at hperm

omit [LawfulEqCmp cmp] in
@[simp] theorem entrySum_empty : entrySum size (∅ : ExtTreeMap κ β cmp) = 0 := by
  have hnil : (∅ : ExtTreeMap κ β cmp).toList = [] := rfl
  rw [entrySum, hnil, map_nil, sum_nil]

theorem entrySum_insert (h : k ∉ t) : entrySum size (t.insert k v) = entrySum size t + size v := by
  rw [entrySum, ((toList_insert_perm h).map _).sum_eq, Nat.add_comm]
  rfl

theorem entrySum_erase (h : t[k]? = some v) :
    entrySum size t = entrySum size (t.erase k) + size v := by
  rw [entrySum, ((toList_perm_erase h).map _).sum_eq, Nat.add_comm]
  rfl

theorem toList_insert_perm_erase :
    (t.insert k v).toList.Perm ((k, v) :: (t.erase k).toList) := by
  classical
  have hsame : t.insert k v = (t.erase k).insert k v := by
    refine ExtTreeMap.ext_getElem? fun a => ?_
    rw [getElem?_insert_eq, getElem?_insert_eq, getElem?_erase_eq]
    split_ifs <;> rfl
  rw [hsame]
  exact toList_insert_perm not_mem_erase_self

/-- A replaced entry has its size replaced. -/
theorem entrySum_replace (h : t[k]? = some v) :
    entrySum size (t.insert k w) + size v = entrySum size t + size w := by
  rw [entrySum_erase h, entrySum, (toList_insert_perm_erase.map _).sum_eq]
  change size w + entrySum size (t.erase k) + size v = _
  omega

/-- What is in a map that was filled from a list without a key twice. -/
theorem getElem?_foldl_insert {entries : List (κ × β)} (hkeys : (entries.map Prod.fst).Nodup)
    (t : ExtTreeMap κ β cmp) (a : κ) (b : β) :
    (entries.foldl (fun t entry => t.insert entry.1 entry.2) t)[a]? = some b ↔
      (a, b) ∈ entries ∨ a ∉ entries.map Prod.fst ∧ t[a]? = some b := by
  induction entries generalizing t with
  | nil => simp
  | cons entry entries ih =>
    obtain ⟨k, v⟩ := entry
    rw [map_cons, nodup_cons] at hkeys
    rw [foldl_cons, ih hkeys.2, getElem?_insert_eq_some]
    by_cases hka : k = a
    · subst hka
      have hnot : (k, b) ∉ entries := fun hmem => hkeys.1 (mem_map.mpr ⟨_, hmem, rfl⟩)
      simp [hkeys.1, hnot, eq_comm]
    · simp [hka, Ne.symm hka]

/-- The images of some elements in another order are the images of these elements in another
order. -/
theorem exists_perm_of_perm_map {α γ : Type*} {f : α → γ} {l : List α} {l' : List γ}
    (h : l'.Perm (l.map f)) : ∃ k : List α, k.Perm l ∧ l' = k.map f := by
  have himages : Forall₂ (fun c a => c = f a) (l.map f) l := by
    rw [forall₂_map_left_iff]
    exact forall₂_same.mpr fun _ _ => rfl
  obtain ⟨k, hk, hperm⟩ := perm_comp_forall₂ h himages
  refine ⟨k, hperm, ?_⟩
  rw [← forall₂_eq_eq_eq, forall₂_map_right_iff]
  exact hk

theorem map_key_perm {key : β → κ} {values : List β}
    (hkey : ∀ k v, t[k]? = some v → key v = k) (hperm : values.Perm (t.toList.map Prod.snd)) :
    (values.map fun v => (key v, v)).Perm t.toList := by
  have hmap := hperm.map fun v => (key v, v)
  rw [map_map] at hmap
  refine hmap.trans (Perm.of_eq ?_)
  refine (map_congr_left ?_).trans (map_id _)
  rintro ⟨k, v⟩ hentry
  exact Prod.ext (hkey k v (ExtTreeMap.mem_toList_iff_getElem?_eq_some.mp hentry)) rfl

theorem nodup_map_fst_toList (t : ExtTreeMap κ β cmp) : (t.toList.map Prod.fst).Nodup := by
  rw [Nodup, pairwise_map]
  refine ExtTreeMap.distinct_keys_toList.imp fun {a b} hne heq => ?_
  exact hne (LawfulEqCmp.compare_eq_iff_eq.mpr heq)

/-- A map that is filled with the entries of another, in any order, is that map. -/
theorem foldl_insert_eq_of_perm {entries : List (κ × β)} (hperm : entries.Perm t.toList) :
    entries.foldl (fun t entry => t.insert entry.1 entry.2) (∅ : ExtTreeMap κ β cmp) = t := by
  have hkeys : (entries.map Prod.fst).Nodup :=
    (hperm.map Prod.fst).nodup_iff.mpr (nodup_map_fst_toList t)
  refine ExtTreeMap.ext_getElem? fun a => ?_
  refine Option.ext fun b => ?_
  rw [getElem?_foldl_insert hkeys, hperm.mem_iff]
  simp

/-- Steps that add the entries of a map one by one, in any order, end with that map. -/
theorem exists_foldlM_of_perm {α ε σ : Type*} {step : σ → α → Except ε σ} {P : σ → Prop}
    {view : σ → ExtTreeMap κ β cmp} (entry : α → κ × β) (size : β → ℕ)
    (hstep : ∀ s a, entry a ∈ t.toList → P s → (entry a).1 ∉ view s →
      entrySum size (view s) + size (entry a).2 ≤ entrySum size t →
      ∃ s', step s a = .ok s' ∧ P s' ∧ view s' = (view s).insert (entry a).1 (entry a).2)
    {l : List α} {s : σ} (hperm : (l.map entry ++ (view s).toList).Perm t.toList) (hs : P s) :
    ∃ s', l.foldlM step s = .ok s' ∧ P s' ∧ view s' = t := by
  -- What is left to add and what was added make up the map, before every step.
  induction l generalizing s with
  | nil =>
    refine ⟨s, rfl, hs, ExtTreeMap.ext_getElem? fun k => Option.ext fun v => ?_⟩
    rw [← ExtTreeMap.mem_toList_iff_getElem?_eq_some, ← ExtTreeMap.mem_toList_iff_getElem?_eq_some]
    exact hperm.mem_iff
  | cons a l ih =>
    rw [map_cons, cons_append] at hperm
    have hkeys := (hperm.map Prod.fst).nodup_iff.mpr (nodup_map_fst_toList t)
    rw [map_cons, nodup_cons, map_append, mem_append, not_or] at hkeys
    have hfresh : (entry a).1 ∉ view s := by
      rw [ExtTreeMap.mem_iff_isSome_getElem?, Option.isSome_iff_exists]
      rintro ⟨v, hv⟩
      exact hkeys.1.2 (mem_map.mpr ⟨_, ExtTreeMap.mem_toList_iff_getElem?_eq_some.mpr hv, rfl⟩)
    have hsum := (hperm.map fun entry => size entry.2).sum_eq
    rw [map_cons, sum_cons, map_append, sum_append] at hsum
    obtain ⟨s', hs', hP, hview⟩ := hstep s a (hperm.mem_iff.mp mem_cons_self) hs hfresh (by
      rw [entrySum, entrySum]
      omega)
    rw [foldlM_cons, hs']
    refine ih ?_ hP
    rw [hview]
    exact ((toList_insert_perm hfresh).append_left _).trans (perm_middle.trans hperm)

end Flywheel.Data
