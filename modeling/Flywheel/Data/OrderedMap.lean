import Mathlib.Data.List.Dedup
import Mathlib.Data.List.Sort

/-!
# Ordered maps updated in place

A loop that walks over keys in ascending order and replaces each entry by a value
computed from the map as it is at that moment. The value at a key is computed from
the final entries of the smaller keys and the initial entries of the others.
-/

namespace Flywheel.Data

open Std List

variable {κ β : Type*} {cmp : κ → κ → Ordering}

/-- The keys of two maps in ascending order, each once. -/
def unionKeys [DecidableEq κ] (m m' : TreeMap κ β cmp) : List κ :=
  ((m.keys ++ m'.keys).insertionSort (fun a b => (cmp a b).isLE)).dedup

/-- Replace the entries of the listed keys, one after the other. -/
def updateInPlace (value : TreeMap κ β cmp → κ → β) (m : TreeMap κ β cmp) (keys : List κ) :
    TreeMap κ β cmp :=
  keys.foldl (fun m k => m.insert k (value m k)) m

variable [TransCmp cmp] [LawfulEqCmp cmp]

theorem mem_unionKeys [DecidableEq κ] {m m' : TreeMap κ β cmp} {k : κ} :
    k ∈ unionKeys m m' ↔ k ∈ m ∨ k ∈ m' := by
  rw [unionKeys, mem_dedup, mem_insertionSort, mem_append, TreeMap.mem_keys, TreeMap.mem_keys]

theorem pairwise_unionKeys [DecidableEq κ] (m m' : TreeMap κ β cmp) :
    (unionKeys m m').Pairwise (fun a b => cmp a b = .lt) := by
  have htotal : Std.Total (fun a b => (cmp a b).isLE = true) := by
    refine ⟨fun a b => ?_⟩
    have hswap : cmp b a = (cmp a b).swap := OrientedCmp.eq_swap
    rw [hswap]
    cases cmp a b <;> simp
  have htrans : IsTrans κ (fun a b => (cmp a b).isLE = true) :=
    ⟨fun _ _ _ => TransCmp.isLE_trans⟩
  have hsorted : (unionKeys m m').Pairwise (fun a b => (cmp a b).isLE = true) :=
    (pairwise_insertionSort _ _).sublist (dedup_sublist _)
  have hnodup : (unionKeys m m').Pairwise (· ≠ ·) := nodup_dedup _
  refine (hsorted.and hnodup).imp ?_
  rintro a b ⟨hle, hne⟩
  cases hcmp : cmp a b with
  | lt => rfl
  | eq => exact absurd (LawfulEqCmp.eq_of_compare hcmp) hne
  | gt => simp [hcmp] at hle

variable (value : TreeMap κ β cmp → κ → β)

/-- Keys that are not listed keep their entries. -/
theorem getElem?_updateInPlace_of_notMem (m : TreeMap κ β cmp) {keys : List κ} {k : κ}
    (hk : k ∉ keys) : (updateInPlace value m keys)[k]? = m[k]? := by
  induction keys generalizing m with
  | nil => rfl
  | cons key keys ih =>
    have hne : cmp key k ≠ .eq := by
      intro heq
      exact hk (LawfulEqCmp.eq_of_compare heq ▸ mem_cons_self)
    rw [updateInPlace, foldl_cons]
    rw [← updateInPlace, ih _ (fun h => hk (mem_cons_of_mem key h)),
      TreeMap.getElem?_insert, if_neg hne]

/-- The entry of a listed key is computed from a map that agrees with the result on the
smaller keys and with the initial map on the others. -/
theorem exists_getElem?_updateInPlace (m : TreeMap κ β cmp) {keys : List κ}
    (hkeys : keys.Pairwise (fun a b => cmp a b = .lt)) {k : κ} (hk : k ∈ keys) :
    ∃ cur : TreeMap κ β cmp,
      (∀ j, cmp j k = .lt → cur[j]? = (updateInPlace value m keys)[j]?) ∧
      (∀ j, cmp j k ≠ .lt → cur[j]? = m[j]?) ∧
      (updateInPlace value m keys)[k]? = some (value cur k) := by
  obtain ⟨smaller, larger, rfl⟩ := append_of_mem hk
  obtain ⟨-, htail, hcross⟩ := pairwise_append.mp hkeys
  have hlarger : ∀ j ∈ larger, cmp k j = .lt := (pairwise_cons.mp htail).1
  have hresult : updateInPlace value m (smaller ++ k :: larger) =
      updateInPlace value ((updateInPlace value m smaller).insert k
        (value (updateInPlace value m smaller) k)) larger := by
    simp only [updateInPlace, foldl_append, foldl_cons]
  refine ⟨updateInPlace value m smaller, fun j hj => ?_, fun j hj => ?_, ?_⟩
  · have hnot : j ∉ larger := by
      intro hmem
      have hgt := OrientedCmp.gt_of_lt (hlarger j hmem)
      cases hj.symm.trans hgt
    have hne : cmp k j ≠ .eq := by
      rw [OrientedCmp.gt_of_lt hj]
      decide
    rw [hresult, getElem?_updateInPlace_of_notMem value _ hnot, TreeMap.getElem?_insert, if_neg hne]
  · apply getElem?_updateInPlace_of_notMem
    intro hmem
    exact hj (hcross j hmem k mem_cons_self)
  · have hnot : k ∉ larger := by
      intro hmem
      have hself : cmp k k = .eq := ReflCmp.compare_self
      rw [hlarger k hmem] at hself
      cases hself
    rw [hresult, getElem?_updateInPlace_of_notMem value _ hnot, TreeMap.getElem?_insert_self]

end Flywheel.Data
