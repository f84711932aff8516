import Mathlib.Algebra.Ring.Nat
import Mathlib.Data.List.Nodup

/-!
# Marking by a worklist

A search through a graph that keeps a queue of nodes and visits every node once. Visiting a
node can fail, can leave the node alone, or can follow its edges. The search visits exactly
the nodes that are touched from the roots, and marks the ones it follows. It fails only when
a touched node does.
-/

namespace Flywheel.Data

open List

variable {α ε : Type*}

/-- What a search has done so far. -/
structure Marks (α : Type*) where
  visited : List α
  live : List α

section Search

variable [DecidableEq α] (expand : α → Except ε (Option (List α)))

/-- Visit the nodes of a queue, with a bound on the number of steps. -/
def markLoop : ℕ → List α → Marks α → Except ε (Marks α)
  | 0, _, marks => .ok marks
  | _ + 1, [], marks => .ok marks
  | fuel + 1, x :: queue, marks =>
    if x ∈ marks.visited then markLoop fuel queue marks
    else
      match expand x with
      | .error e => .error e
      | .ok none => markLoop fuel queue { marks with visited := x :: marks.visited }
      | .ok (some next) => markLoop fuel (queue ++ next) ⟨x :: marks.visited, x :: marks.live⟩

def mark (fuel : ℕ) (roots : List α) : Except ε (Marks α) := markLoop expand fuel roots ⟨[], []⟩

end Search

variable (expand : α → Except ε (Option (List α)))

/-- The nodes that a search from some roots comes to. -/
inductive Touched (roots : List α) : α → Prop
  | root {x : α} (h : x ∈ roots) : Touched roots x
  | next {x y : α} {next : List α} (hy : Touched roots y) (hnext : expand y = .ok (some next))
      (hx : x ∈ next) : Touched roots x

/-- A node whose edges are followed. -/
def Followed (x : α) : Prop := ∃ next, expand x = .ok (some next)

variable {expand} {roots queue : List α} {marks : Marks α} {x : α}

/-! ### What a search has found -/

variable (expand) in
/-- What holds between the steps of a search. -/
structure MarkInv (roots queue : List α) (marks : Marks α) : Prop where
  visited_touched : ∀ x ∈ marks.visited, Touched expand roots x
  queue_touched : ∀ x ∈ queue, Touched expand roots x
  roots_seen : ∀ x ∈ roots, x ∈ marks.visited ∨ x ∈ queue
  next_seen : ∀ y ∈ marks.visited, ∀ next, expand y = .ok (some next) →
    ∀ x ∈ next, x ∈ marks.visited ∨ x ∈ queue
  ne_error : ∀ x ∈ marks.visited, ∀ e, expand x ≠ .error e
  mem_live : ∀ x, x ∈ marks.live ↔ x ∈ marks.visited ∧ Followed expand x
  nodup_live : marks.live.Nodup

namespace MarkInv

theorem initial (roots : List α) : MarkInv expand roots roots ⟨[], []⟩ where
  visited_touched x hx := by cases hx
  queue_touched x hx := .root hx
  roots_seen x hx := .inr hx
  next_seen y hy := by cases hy
  ne_error x hx := by cases hx
  mem_live x := by simp
  nodup_live := nodup_nil

/-- A node that was seen stays so when the head of the queue is visited. -/
theorem seen_of_cons {y : α} {visited visited' queue' : List α}
    (h : y ∈ visited ∨ y ∈ x :: queue) (hvisited : visited ⊆ visited') (hx : x ∈ visited')
    (hqueue : queue ⊆ queue') : y ∈ visited' ∨ y ∈ queue' := by
  rcases h with hseen | hseen
  · exact .inl (hvisited hseen)
  · rcases mem_cons.mp hseen with rfl | hseen
    · exact .inl hx
    · exact .inr (hqueue hseen)

/-- A visited node is taken from the queue. -/
theorem skip (h : MarkInv expand roots (x :: queue) marks) (hx : x ∈ marks.visited) :
    MarkInv expand roots queue marks where
  visited_touched := h.visited_touched
  queue_touched y hy := h.queue_touched y (mem_cons_of_mem x hy)
  roots_seen y hy := seen_of_cons (h.roots_seen y hy) (Subset.refl _) hx (Subset.refl _)
  next_seen y hy next hnext z hz :=
    seen_of_cons (h.next_seen y hy next hnext z hz) (Subset.refl _) hx (Subset.refl _)
  ne_error := h.ne_error
  mem_live := h.mem_live
  nodup_live := h.nodup_live

/-- A new node is visited, and its edges are followed when it has any. -/
theorem visit (h : MarkInv expand roots (x :: queue) marks) (hx : x ∉ marks.visited)
    {found : Option (List α)} (hfound : expand x = .ok found) (live : List α)
    (hlive : ∀ y, y ∈ live ↔ y ∈ marks.live ∨ y = x ∧ Followed expand x)
    (hnodup : live.Nodup) :
    MarkInv expand roots (queue ++ found.getD []) ⟨x :: marks.visited, live⟩ where
  visited_touched y hy := by
    rcases mem_cons.mp hy with rfl | hy
    · exact h.queue_touched y mem_cons_self
    · exact h.visited_touched y hy
  queue_touched y hy := by
    rcases mem_append.mp hy with hy | hy
    · exact h.queue_touched y (mem_cons_of_mem x hy)
    · cases found with
      | none => cases hy
      | some next => exact .next (h.queue_touched x mem_cons_self) hfound hy
  roots_seen y hy := seen_of_cons (h.roots_seen y hy) (subset_cons_self x _) mem_cons_self
    (subset_append_left _ _)
  next_seen y hy next hnext z hz := by
    rcases mem_cons.mp hy with rfl | hy
    · cases hfound.symm.trans hnext
      exact .inr (mem_append_right _ hz)
    · exact seen_of_cons (h.next_seen y hy next hnext z hz) (subset_cons_self x _) mem_cons_self
        (subset_append_left _ _)
  ne_error y hy e := by
    rcases mem_cons.mp hy with rfl | hy
    · rw [hfound]
      nofun
    · exact h.ne_error y hy e
  mem_live y := by
    rw [hlive, h.mem_live, mem_cons, or_and_right, or_comm]
    refine or_congr_left (and_congr_right fun heq => ?_)
    rw [heq]
  nodup_live := hnodup

theorem mem_visited_iff (h : MarkInv expand roots [] marks) :
    x ∈ marks.visited ↔ Touched expand roots x := by
  refine ⟨h.visited_touched x, fun htouched => ?_⟩
  induction htouched with
  | root hroot => exact (h.roots_seen _ hroot).resolve_right not_mem_nil
  | next hy hnext hx ih => exact (h.next_seen _ ih _ hnext _ hx).resolve_right not_mem_nil

end MarkInv

/-! ### How long a search takes -/

variable (expand) in
/-- How many nodes visiting a node adds to the queue. -/
def edgeCount (x : α) : ℕ :=
  match expand x with
  | .ok (some next) => next.length
  | _ => 0

variable [DecidableEq α]

variable (expand) in
/-- How many nodes the unvisited ones among some nodes add to the queue. -/
def pendingEdges (nodes visited : List α) : ℕ :=
  ((nodes.filter (· ∉ visited)).map (edgeCount expand)).sum

variable {nodes : List α}

theorem pendingEdges_cons (y : α) (nodes visited : List α) :
    pendingEdges expand (y :: nodes) visited =
      (if y ∈ visited then 0 else edgeCount expand y) + pendingEdges expand nodes visited := by
  by_cases hy : y ∈ visited <;> simp [pendingEdges, hy]

variable (expand) in
/-- Visiting a node adds no pending edges. -/
theorem pendingEdges_visit_le (nodes visited : List α) (x : α) :
    pendingEdges expand nodes (x :: visited) ≤ pendingEdges expand nodes visited := by
  induction nodes with
  | nil => exact Nat.le_refl _
  | cons y nodes ih =>
    rw [pendingEdges_cons, pendingEdges_cons]
    by_cases hy : y ∈ visited
    · rw [if_pos (mem_cons_of_mem x hy)]
      omega
    · split_ifs <;> omega

variable (expand) in
/-- Visiting a node takes its edges from the pending ones. -/
theorem edgeCount_add_pendingEdges_le (hmem : x ∈ nodes) {visited : List α} (hx : x ∉ visited) :
    edgeCount expand x + pendingEdges expand nodes (x :: visited) ≤
      pendingEdges expand nodes visited := by
  induction nodes with
  | nil => cases hmem
  | cons y nodes ih =>
    rw [pendingEdges_cons, pendingEdges_cons]
    by_cases hy : y = x
    · subst hy
      have hle := pendingEdges_visit_le expand nodes visited y
      rw [if_pos mem_cons_self, if_neg hx]
      omega
    · have hle := ih ((mem_cons.mp hmem).resolve_left (Ne.symm hy))
      by_cases hseen : y ∈ visited
      · rw [if_pos (mem_cons_of_mem x hseen)]
        omega
      · rw [if_neg hseen, if_neg (not_mem_cons_of_ne_of_not_mem hy hseen)]
        omega

/-! ### The outcome -/

/-- The outcome of a search: it has visited every touched node, or a touched node failed. -/
theorem markLoop_cases {fuel : ℕ} (hnodes : ∀ x, Followed expand x → x ∈ nodes)
    (h : MarkInv expand roots queue marks)
    (hfuel : queue.length + pendingEdges expand nodes marks.visited ≤ fuel) :
    (∃ marks', markLoop expand fuel queue marks = .ok marks' ∧ MarkInv expand roots [] marks') ∨
      ∃ x e, Touched expand roots x ∧ expand x = .error e ∧
        markLoop expand fuel queue marks = .error e := by
  induction fuel generalizing queue marks with
  | zero =>
    have hqueue : queue = [] := eq_nil_of_length_eq_zero (by omega)
    subst hqueue
    exact .inl ⟨marks, rfl, h⟩
  | succ fuel ih =>
    cases queue with
    | nil => exact .inl ⟨marks, rfl, h⟩
    | cons x queue =>
      rw [length_cons] at hfuel
      by_cases hx : x ∈ marks.visited
      · rw [markLoop, if_pos hx]
        exact ih (h.skip hx) (by omega)
      · rw [markLoop, if_neg hx]
        cases hfound : expand x with
        | error e => exact .inr ⟨x, e, h.queue_touched x mem_cons_self, hfound, rfl⟩
        | ok found =>
          cases found with
          | none =>
            have hnot : ¬ Followed expand x := by
              rintro ⟨next, hnext⟩
              cases hfound.symm.trans hnext
            have hinv := h.visit hx hfound marks.live (fun y => by simp [hnot]) h.nodup_live
            have hpending := pendingEdges_visit_le expand nodes marks.visited x
            rw [Option.getD_none, append_nil] at hinv
            exact ih hinv (by simp only; omega)
          | some next =>
            have hfollowed : Followed expand x := ⟨next, hfound⟩
            have hfresh : x ∉ marks.live := fun hlive => hx ((h.mem_live x).mp hlive).1
            have hinv := h.visit hx hfound (x :: marks.live)
              (fun y => by simp [hfollowed, or_comm]) (nodup_cons.mpr ⟨hfresh, h.nodup_live⟩)
            have hpending := edgeCount_add_pendingEdges_le expand (hnodes x hfollowed) hx
            have hcount : edgeCount expand x = next.length := by rw [edgeCount, hfound]
            exact ih hinv (by simp only [length_append]; omega)

/-- A search with enough steps visits exactly the touched nodes and marks the followed ones
among them. It fails only when a touched node does. -/
theorem mark_cases {fuel : ℕ} (hnodes : ∀ x, Followed expand x → x ∈ nodes)
    (hfuel : roots.length + (nodes.map (edgeCount expand)).sum ≤ fuel) :
    (∃ marks, mark expand fuel roots = .ok marks ∧
        (∀ x, x ∈ marks.visited ↔ Touched expand roots x) ∧
        (∀ x, x ∈ marks.live ↔ Touched expand roots x ∧ Followed expand x) ∧
        marks.live.Nodup ∧ ∀ x, Touched expand roots x → ∀ e, expand x ≠ .error e) ∨
      ∃ x e, Touched expand roots x ∧ expand x = .error e ∧
        mark expand fuel roots = .error e := by
  have hpending : roots.length + pendingEdges expand nodes [] ≤ fuel := by
    simpa [pendingEdges] using hfuel
  rcases markLoop_cases hnodes (MarkInv.initial roots) hpending with
    ⟨marks, hmark, hinv⟩ | hfailed
  · refine .inl ⟨marks, hmark, fun x => hinv.mem_visited_iff, fun x => ?_, hinv.nodup_live,
      fun x hx => hinv.ne_error x (hinv.mem_visited_iff.mpr hx)⟩
    rw [hinv.mem_live, hinv.mem_visited_iff]
  · exact .inr hfailed

end Flywheel.Data
