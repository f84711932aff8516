import Mathlib.Data.List.Basic

/-!
# Binary hash trees

A level of a tree joins the items of the level below in twos, and an odd last item is joined with
itself. A path climbs from an item to the top by the items beside it. Whatever path ends in the top
of a tree either comes from an item of the bottom level or starts at a joined item.
-/

namespace Flywheel.Data

open List

variable {α : Type}

/-- The items in twos. An odd last item stands twice. -/
def pairs : List α → List (α × α)
  | a :: b :: rest => (a, b) :: pairs rest
  | [a] => [(a, a)]
  | [] => []

@[simp] theorem length_pairs (items : List α) : (pairs items).length = (items.length + 1) / 2 := by
  fun_induction pairs items with
  | case1 a b rest ih =>
    simp only [length_cons]
    omega
  | case2 a => simp
  | case3 => simp

variable {items : List α}

theorem mem_of_mem_pairs {p : α × α} (h : p ∈ pairs items) : p.1 ∈ items ∧ p.2 ∈ items := by
  fun_induction pairs items with
  | case1 a b rest ih =>
    rcases mem_cons.mp h with rfl | h
    · simp
    · exact ⟨by simp [(ih h).1], by simp [(ih h).2]⟩
  | case2 a => simp_all
  | case3 => simp at h

/-- The item beside another one: the last item of an odd level stands beside itself. -/
def sibling (d : α) (idx : ℕ) (level : List α) : α :=
  if idx % 2 = 0 then
    if idx + 1 < level.length then level.getD (idx + 1) d else level.getD idx d
  else level.getD (idx - 1) d

/-- An item and the one beside it, in the order of their positions. -/
def steer (idx : ℕ) (acc beside : α) : α × α :=
  if idx % 2 = 0 then (acc, beside) else (beside, acc)

variable {i : ℕ}

/-- The pair at half the position of an item is that item and the one beside it. -/
theorem getElem?_pairs (d : α) (hi : i < items.length) :
    (pairs items)[i / 2]? = some (steer i (items.getD i d) (sibling d i items)) := by
  fun_induction pairs items generalizing i with
  | case1 a b rest ih =>
    rcases i with _ | _ | i
    · rfl
    · rfl
    · have hrest : i < rest.length := by simpa using hi
      have hhalf : (i + 2) / 2 = i / 2 + 1 := by omega
      have hparity : (i + 2) % 2 = i % 2 := by omega
      rw [hhalf, getElem?_cons_succ, ih hrest]
      by_cases heven : i % 2 = 0
      · simp [steer, sibling, hparity, heven]
      · obtain ⟨j, rfl⟩ : ∃ j, i = j + 1 := Nat.exists_eq_add_one_of_ne_zero (by omega)
        simp [steer, sibling, hparity]
  | case2 a =>
    obtain rfl : i = 0 := by simpa using hi
    rfl
  | case3 => simp at hi

variable (node : α × α → α)

/-- All levels over the leaves, up to the first that has no two items. -/
def levels (leaves : List α) : List (List α) :=
  if 1 < leaves.length then leaves :: levels ((pairs leaves).map node) else [leaves]
termination_by leaves.length
decreasing_by
  rw [length_map, length_pairs]
  omega

/-- Join an item with those beside it, level by level. -/
def climb : ℕ → α → List α → α
  | _, acc, [] => acc
  | idx, acc, beside :: rest => climb (idx / 2) (node (steer idx acc beside)) rest

/-- The pairs that a climb joins. -/
def climbPairs : ℕ → α → List α → List (α × α)
  | _, _, [] => []
  | idx, acc, beside :: rest =>
    steer idx acc beside :: climbPairs (idx / 2) (node (steer idx acc beside)) rest

/-- The items beside a path through levels. -/
def siblings (d : α) : ℕ → List (List α) → List α
  | _, [] => []
  | idx, level :: rest => sibling d idx level :: siblings d (idx / 2) rest

theorem getD_map_pairs (d : α) (hi : i < items.length) :
    ((pairs items).map node).getD (i / 2) d =
      node (steer i (items.getD i d) (sibling d i items)) := by
  rw [getD_eq_getElem?_getD, getElem?_map, getElem?_pairs d hi]
  rfl

theorem levels_ne_nil (leaves : List α) : levels node leaves ≠ [] := by
  rw [levels]
  split <;> simp

@[simp] theorem head?_levels (leaves : List α) : (levels node leaves).head? = some leaves := by
  rw [levels]
  split <;> rfl

@[simp] theorem length_siblings (d : α) (idx : ℕ) (ls : List (List α)) :
    (siblings d idx ls).length = ls.length := by
  induction ls generalizing idx with
  | nil => rfl
  | cons level rest ih => simp [siblings, ih]

/-- The path beside an item ends in the top of the tree. -/
theorem getLast?_levels (d : α) (leaves : List α) (hi : i < leaves.length) :
    (levels node leaves).getLast? =
      some [climb node i (leaves.getD i d) (siblings d i (levels node leaves).dropLast)] := by
  fun_induction levels node leaves generalizing i with
  | case1 leaves hlong ih =>
    have hhalf : i / 2 < ((pairs leaves).map node).length := by
      rw [length_map, length_pairs]
      omega
    have hne := levels_ne_nil node ((pairs leaves).map node)
    rw [getLast?_cons_of_ne_nil hne, ih hhalf, getD_map_pairs node d hi,
      dropLast_cons_of_ne_nil hne, siblings, climb]
  | case2 leaves hshort =>
    obtain ⟨leaf, rfl⟩ : ∃ leaf, leaves = [leaf] := length_eq_one_iff.mp (by omega)
    obtain rfl : i = 0 := by simpa using hi
    rfl

/-- The path beside an item joins pairs of the tree. -/
theorem climbPairs_siblings (d : α) {leaves : List α} (hi : i < leaves.length)
    {p : α × α} (hp : p ∈ climbPairs node i (leaves.getD i d)
      (siblings d i (levels node leaves).dropLast)) :
    ∃ level ∈ (levels node leaves).dropLast, p ∈ pairs level := by
  fun_induction levels node leaves generalizing i with
  | case1 leaves hlong ih =>
    have hne := levels_ne_nil node ((pairs leaves).map node)
    have hpair := getElem?_pairs d hi
    rw [dropLast_cons_of_ne_nil hne] at hp ⊢
    rcases mem_cons.mp hp with rfl | hp
    · exact ⟨leaves, mem_cons_self, mem_of_getElem? hpair⟩
    · have hhalf : i / 2 < ((pairs leaves).map node).length := by
        rw [length_map, length_pairs]
        omega
      rw [← getD_map_pairs node d hi] at hp
      obtain ⟨level, hlevel, hmem⟩ := ih hhalf hp
      exact ⟨level, mem_cons_of_mem _ hlevel, hmem⟩
  | case2 leaves hshort => simp [siblings, climbPairs] at hp

/-- The last step of a climb joins what was reached before it. -/
theorem climb_concat (idx : ℕ) (acc beside : α) (path rest : List α) :
    ∃ q ∈ climbPairs node idx acc (path ++ beside :: rest),
      climb node idx acc (path ++ [beside]) = node q ∧
        (q.1 = climb node idx acc path ∨ q.2 = climb node idx acc path) := by
  induction path generalizing idx acc with
  | nil =>
    refine ⟨steer idx acc beside, by simp [climbPairs], rfl, ?_⟩
    unfold steer
    split
    · exact .inl rfl
    · exact .inr rfl
  | cons s path ih =>
    obtain ⟨q, hq, hclimb, hreached⟩ := ih (idx / 2) (node (steer idx acc s))
    exact ⟨q, mem_cons_of_mem _ hq, hclimb, hreached⟩

variable {node}

/-- A climb that ends in the top of a tree passed the bottom level, or began at a joined item. -/
theorem climb_mem_top {leaves top : List α} (htop : (levels node leaves).getLast? = some top)
    {idx : ℕ} {acc : α} {path : List α} (hmem : climb node idx acc path ∈ top)
    (hinj : ∀ q ∈ climbPairs node idx acc path, ∀ level ∈ (levels node leaves).dropLast,
      ∀ p ∈ pairs level, node q = node p → q = p) :
    (∃ below above, path = below ++ above ∧ climb node idx acc below ∈ leaves) ∨
      ∃ level ∈ (levels node leaves).dropLast, ∃ p ∈ pairs level, acc = node p := by
  fun_induction levels node leaves with
  | case1 leaves hlong ih =>
    have hne := levels_ne_nil node ((pairs leaves).map node)
    rw [getLast?_cons_of_ne_nil hne] at htop
    rw [dropLast_cons_of_ne_nil hne] at hinj ⊢
    rcases ih htop fun q hq level hlevel => hinj q hq level (mem_cons_of_mem _ hlevel) with
      ⟨below, above, rfl, hbelow⟩ | ⟨level, hlevel, hnode⟩
    · obtain ⟨p, hp, hjoined⟩ := mem_map.mp hbelow
      rcases eq_nil_or_concat' below with rfl | ⟨path, beside, rfl⟩
      · exact .inr ⟨leaves, mem_cons_self, p, hp, hjoined.symm⟩
      · obtain ⟨q, hq, hclimb, hreached⟩ := climb_concat node idx acc beside path above
        rw [append_assoc] at hinj
        obtain rfl := hinj q hq leaves mem_cons_self p hp (hclimb.symm.trans hjoined.symm)
        have hmem := mem_of_mem_pairs hp
        refine .inl ⟨path, beside :: above, by simp, ?_⟩
        rcases hreached with hleft | hright
        · exact hleft ▸ hmem.1
        · exact hright ▸ hmem.2
    · exact .inr ⟨level, mem_cons_of_mem _ hlevel, hnode⟩
  | case2 leaves hshort =>
    cases htop
    exact .inl ⟨path, [], by simp, hmem⟩

end Flywheel.Data
