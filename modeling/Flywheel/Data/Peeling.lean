import Mathlib.Data.Finset.Powerset

/-!
# Peeling a hypergraph

Edges of a hypergraph are removed one by one: an edge can be removed when some cell
holds no other edge. What is left when nothing can be removed does not depend on the
order, it is the largest set of edges in which no cell holds exactly one: the 2-core.
A queue of cells that are to be looked at drives the removal. Each look uses up some
potential, so the queue runs empty, and if no cell that holds a single edge is ever
missing from the queue, what is left then is the core.
-/

namespace Flywheel.Data.Peeling

variable {α ι : Type*} [DecidableEq ι] (cells : α → Finset ι) (R : Finset α)

/-- The edges of a set that a cell holds. -/
def residents (i : ι) : Finset α := R.filter (i ∈ cells ·)

/-- The cell holds exactly one edge. -/
def Pure (i : ι) (x : α) : Prop := residents cells R i = {x}

/-- No cell holds exactly one edge. -/
def Stuck : Prop := ∀ i x, ¬ Pure cells R i x

open Classical in
/-- The 2-core: the edges that are in some stuck subset. -/
noncomputable def core : Finset α :=
  R.filter (fun x => ∃ C ⊆ R, Stuck cells C ∧ x ∈ C)

variable {cells} {R C : Finset α} {i j : ι} {x y : α}

theorem mem_residents : x ∈ residents cells R i ↔ x ∈ R ∧ i ∈ cells x := Finset.mem_filter

theorem Pure.mem (h : Pure cells R i x) : x ∈ R ∧ i ∈ cells x := by
  have hx : x ∈ residents cells R i := by
    rw [h]
    exact Finset.mem_singleton_self x
  exact mem_residents.mp hx

variable [DecidableEq α]

/-- Removing an edge does not change the cells it is not in. -/
theorem residents_erase_of_notMem (hi : i ∉ cells x) :
    residents cells (R.erase x) i = residents cells R i := by
  ext y
  rw [mem_residents, mem_residents, Finset.mem_erase]
  constructor
  · rintro ⟨⟨-, hy⟩, hyi⟩
    exact ⟨hy, hyi⟩
  · rintro ⟨hy, hyi⟩
    refine ⟨⟨?_, hy⟩, hyi⟩
    rintro rfl
    exact hi hyi

theorem residents_erase : residents cells (R.erase x) i = (residents cells R i).erase x := by
  ext y
  rw [mem_residents, Finset.mem_erase, Finset.mem_erase, mem_residents, and_assoc]

variable (cells) in
/-- One look at the first cell of the queue. If it holds a single edge, the edge is
removed, and cells of the edge are queued, at most `width` of them and with every one
that now holds a single edge. -/
inductive Step (width : ℕ) : Finset α × List ι → Finset α × List ι → Prop
  | skip {R : Finset α} {i : ι} {queue : List ι} (h : ∀ x, ¬ Pure cells R i x) :
      Step width (R, i :: queue) (R, queue)
  | peel {R : Finset α} {i : ι} {x : α} {queue pushed : List ι} (h : Pure cells R i x)
      (hwidth : pushed.length ≤ width)
      (hpushed : ∀ j ∈ cells x, ∀ y, Pure cells (R.erase x) j y → j ∈ pushed) :
      Step width (R, i :: queue) (R.erase x, queue ++ pushed)

variable (cells) in
/-- Every cell that holds a single edge is in the queue. -/
def Covered (s : Finset α × List ι) : Prop := ∀ i x, Pure cells s.1 i x → i ∈ s.2

section Steps

variable {width : ℕ} {s s' : Finset α × List ι}

/-- A look keeps the cells with a single edge in the queue. -/
theorem Step.covered (h : Step cells width s s') (hcovered : Covered cells s) :
    Covered cells s' := by
  cases h with
  | @skip R i queue hskip =>
    intro j y hj
    rcases List.mem_cons.mp (hcovered j y hj) with rfl | hmem
    · exact absurd hj (hskip y)
    · exact hmem
  | @peel R i x queue pushed hpure hwidth hpushed =>
    intro j y hj
    by_cases hjx : j ∈ cells x
    · exact List.mem_append_right queue (hpushed j hjx y hj)
    · have hbefore : Pure cells R j y := (residents_erase_of_notMem hjx).symm.trans hj
      rcases List.mem_cons.mp (hcovered j y hbefore) with rfl | hmem
      · exact absurd hpure.mem.2 hjx
      · exact List.mem_append_left pushed hmem

end Steps

end Flywheel.Data.Peeling
