import Flywheel.Core.LwwMap
import Flywheel.Data.TreeMaps
import Mathlib.Data.UInt
import Mathlib.Order.Lattice.Nat

/-!
# Counters

`GCounter` and `PnCounter` of `fcp-core`. A grow-only counter keeps a count for each actor, and a
merge keeps the larger of two counts. The value of a counter that goes both ways is the difference
of two sums, clamped to the words it is returned in.
-/

namespace Flywheel.Core

open Flywheel.Data
open Std (ExtTreeMap)

/-- Merging takes the larger of two counts everywhere, in any order and grouping. -/
structure MaxMerge {σ ι : Type} (merge : σ → σ → σ) (count : σ → ι → UInt64) : Prop where
  toNat_count : ∀ s t i, (count (merge s t) i).toNat = max (count s i).toNat (count t i).toNat
  comm : ∀ s t, merge s t = merge t s
  assoc : ∀ s t u, merge (merge s t) u = merge s (merge t u)
  self : ∀ s, merge s s = s

@[ext]
structure GCounter where
  counts : ExtTreeMap CrdtActorId UInt64

namespace GCounter

variable (g other : GCounter) (actor : CrdtActorId)

/-- The count of an actor, as `entry(actor).or_insert(0)` finds it. -/
def count : UInt64 := g.counts[actor]?.getD 0

def increment (delta : UInt64) : GCounter :=
  ⟨g.counts.insert actor
    (UInt64.ofNat (min ((g.count actor).toNat + delta.toNat) (2 ^ 64 - 1)))⟩

/-- `value`, with additions that saturate. -/
def value : ℕ :=
  g.counts.foldl (fun acc _ value => min (acc + value.toNat) (2 ^ 128 - 1)) 0

/-- The body of the loop in `merge`, on the count of one actor. -/
def mergeCount (old : Option UInt64) (value : UInt64) : UInt64 :=
  if old.getD 0 < value then value else old.getD 0

def merge : GCounter :=
  ⟨other.counts.foldl
    (fun counts actor value => counts.insert actor (mergeCount counts[actor]? value)) g.counts⟩

/-- The sum of the counts. -/
def total : ℕ := entrySum UInt64.toNat g.counts

/-- The count of an actor, and less than every count if there is none. -/
def rank : WithBot ℕ := g.counts[actor]?.elim ⊥ fun count => WithBot.some count.toNat

variable {g other}

theorem eq_of_rank (h : ∀ actor, g.rank actor = other.rank actor) : g = other := by
  refine GCounter.ext (ExtTreeMap.ext_getElem? fun actor => ?_)
  have hrank := h actor
  rw [rank, rank] at hrank
  cases hg : g.counts[actor]? <;> cases hother : other.counts[actor]? <;>
    simp_all [UInt64.toNat_inj]

theorem toNat_mergeCount (old : Option UInt64) (value : UInt64) :
    (mergeCount old value).toNat = max (old.getD 0).toNat value.toNat := by
  rw [mergeCount]
  split_ifs with hlt <;> rw [UInt64.lt_iff_toNat_lt] at hlt <;> omega

variable (g other)

theorem counts_merge : (g.merge other).counts[actor]? =
    absorb mergeCount g.counts[actor]? other.counts[actor]? := by
  refine getElem?_foldl_entries (fun counts key value actor => ?_) g.counts other.counts actor
  rw [getElem?_insert_eq]
  split_ifs with heq
  · rw [heq]
  · rfl

theorem rank_merge : (g.merge other).rank actor = max (g.rank actor) (other.rank actor) := by
  rw [rank, rank, rank, counts_merge]
  cases g.counts[actor]? <;> cases other.counts[actor]? <;> simp [absorb, toNat_mergeCount]

theorem maxMerge : MaxMerge merge count where
  toNat_count g other actor := by
    rw [count, count, count, counts_merge]
    cases g.counts[actor]? <;> cases other.counts[actor]? <;> simp [absorb, toNat_mergeCount]
  comm g other := eq_of_rank fun actor => by rw [rank_merge, rank_merge, max_comm]
  assoc g other third := eq_of_rank fun actor => by simp only [rank_merge, max_assoc]
  self g := eq_of_rank fun actor => by rw [rank_merge, max_self]

theorem foldl_saturating {limit acc : ℕ} {entries : List (CrdtActorId × UInt64)}
    (h : acc + entries.length * 2 ^ 64 ≤ limit) :
    entries.foldl (fun acc entry => min (acc + entry.2.toNat) limit) acc =
      acc + (entries.map fun entry => entry.2.toNat).sum := by
  induction entries generalizing acc with
  | nil => rfl
  | cons entry entries ih =>
    have hlt := entry.2.toNat_lt
    rw [List.length_cons] at h
    rw [List.foldl_cons, min_eq_left (by omega), ih (by omega), List.map_cons, List.sum_cons,
      Nat.add_assoc]

variable {g} in
/-- The sum of as many counts as a map can hold does not saturate. -/
theorem value_eq (hsize : g.counts.size < 2 ^ 64) : g.value = g.total := by
  rw [← ExtTreeMap.length_toList] at hsize
  rw [value, ExtTreeMap.foldl_eq_foldl_toList, foldl_saturating (by omega), Nat.zero_add]
  rfl

end GCounter

@[ext]
structure PnCounter where
  positive : GCounter
  negative : GCounter

def i64Max : ℕ := 2 ^ 63 - 1

def i64Min : ℤ := -2 ^ 63

/-- `i64::try_from` on a word without a sign. -/
def i64TryFrom (n : ℕ) : Option ℤ := if n ≤ i64Max then some n else none

namespace PnCounter

variable (p other : PnCounter) (actor : CrdtActorId) (delta : UInt64)

/-- `PnCounter::default`. -/
def empty : PnCounter := ⟨⟨∅⟩, ⟨∅⟩⟩

def increment : PnCounter := { p with positive := p.positive.increment actor delta }

def decrement : PnCounter := { p with negative := p.negative.increment actor delta }

def value : ℤ :=
  let pos := p.positive.value
  let neg := p.negative.value
  if neg ≤ pos then
    let diff := pos - neg
    if i64Max < diff then i64Max else (i64TryFrom diff).getD i64Max
  else
    let diff := neg - pos
    if i64Max < diff then i64Min else -(i64TryFrom diff).getD i64Max

def merge : PnCounter := ⟨p.positive.merge other.positive, p.negative.merge other.negative⟩

/-- The count of the increments or of the decrements of an actor. -/
def count : CrdtActorId ⊕ CrdtActorId → UInt64
  | .inl actor => p.positive.count actor
  | .inr actor => p.negative.count actor

/-- Merging keeps the larger counts, and so it lowers none. The value is the difference of the
sums, clamped to 64 bits. -/
theorem counters_exact :
    MaxMerge GCounter.merge GCounter.count ∧ MaxMerge merge count ∧
    (∀ (g other : GCounter) actor, g.count actor ≤ (g.merge other).count actor) ∧
    (∀ (p other : PnCounter) i, p.count i ≤ (p.merge other).count i) ∧
    ∀ p : PnCounter, p.positive.counts.size < 2 ^ 64 → p.negative.counts.size < 2 ^ 64 →
      p.value = max i64Min (min i64Max (p.positive.total - p.negative.total)) := by
  have hmerge := GCounter.maxMerge
  have hle (g other : GCounter) actor : g.count actor ≤ (g.merge other).count actor := by
    rw [UInt64.le_iff_toNat_le, hmerge.toNat_count]
    exact le_max_left ..
  refine ⟨hmerge, ⟨fun p other i => ?_, fun _ _ => ?_, fun _ _ _ => ?_, fun _ => ?_⟩, hle,
    fun p other i => ?_, fun p hpositive hnegative => ?_⟩
  · cases i <;> exact hmerge.toNat_count ..
  · exact PnCounter.ext (hmerge.comm ..) (hmerge.comm ..)
  · exact PnCounter.ext (hmerge.assoc ..) (hmerge.assoc ..)
  · exact PnCounter.ext (hmerge.self _) (hmerge.self _)
  · cases i <;> exact hle ..
  · simp only [value, GCounter.value_eq hpositive, GCounter.value_eq hnegative, i64TryFrom, i64Max,
      i64Min]
    split_ifs <;> simp <;> omega

/-- Two actors that count more than a word holds, against one that counts half of it. -/
def demoCounter : PnCounter :=
  ((empty.increment "a" (2 ^ 64 - 1)).increment "b" 1).decrement "c" (2 ^ 63)

/-- A difference of `2 ^ 63` is too large for the words and its negative is not. -/
theorem demoCounter_clamped :
    demoCounter.value = max i64Min (min i64Max
        (demoCounter.positive.total - demoCounter.negative.total)) ∧
      demoCounter.positive.total - demoCounter.negative.total = 2 ^ 63 ∧
      demoCounter.value = 2 ^ 63 - 1 ∧
      (⟨demoCounter.negative, demoCounter.positive⟩ : PnCounter).value = -2 ^ 63 :=
  ⟨counters_exact.2.2.2.2 demoCounter (by decide +kernel) (by decide +kernel), by decide +kernel,
    by decide +kernel, by decide +kernel⟩

end PnCounter

end Flywheel.Core
