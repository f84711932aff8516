import Flywheel.Core.QuotientFilter
import Mathlib.Data.List.GetD
import Mathlib.Data.List.Perm.Basic
import Mathlib.Order.BooleanAlgebra.Set

/-!
# What the quotient filter stores

A well-formed table reaches each of its fingerprints from the fingerprint's home
slot, holds none twice, and counts its live and deleted slots. The operations
keep tables well formed, and they add and remove exactly the fingerprint of
their argument. Growth and compaction do not change what is stored, so a filter
behaves as the set of the fingerprints inserted and not deleted since.
-/

namespace Flywheel.Core

open Data Probing List

theorem slot_cases (r : UInt64) : r = emptySlot ∨ r = tombstone ∨ tombstone < r := by
  simp only [emptySlot, tombstone, UInt64.lt_iff_toNat_lt, ← UInt64.toNat_inj,
    UInt64.toNat_zero, UInt64.toNat_one]
  omega

theorem ne_emptySlot_of_lt {r : UInt64} (h : tombstone < r) : r ≠ emptySlot := by
  rintro rfl
  exact absurd h (by decide)

theorem ne_tombstone_of_lt {r : UInt64} (h : tombstone < r) : r ≠ tombstone := by
  rintro rfl
  exact absurd h (by decide)

namespace QuotientFilter

structure WellFormed (q : QuotientFilter) : Prop where
  reaches : ∀ r ∈ q.slots, tombstone < r →
    Reaches q.slots emptySlot (indexFor r q.slots.length) r
  distinct : q.slots.Pairwise (fun a b => tombstone < a → a ≠ b)
  items_eq : q.items = q.slots.countP (fun r => decide (tombstone < r))
  tombstones_eq : q.tombstones = q.slots.count tombstone

/-- The table is well formed, and its live slots hold the fingerprints of a set. -/
structure Stores (q : QuotientFilter) (stored : Set UInt64) : Prop where
  wellFormed : q.WellFormed
  mem_iff : ∀ s, tombstone < s → (s ∈ q.slots ↔ s ∈ stored)

theorem WellFormed.stores {q : QuotientFilter} (hq : q.WellFormed) :
    q.Stores {s | s ∈ q.slots} :=
  ⟨hq, fun _ _ => Iff.rfl⟩

theorem wellFormed_replicate (n : ℕ) :
    WellFormed ⟨replicate n emptySlot, 0, 0⟩ where
  reaches := by
    intro r hr hlive
    rw [eq_of_mem_replicate hr] at hlive
    exact absurd hlive (by decide)
  distinct := pairwise_replicate.mpr (Or.inr (fun h => absurd h (by decide)))
  items_eq := by simp [countP_replicate, emptySlot]
  tombstones_eq := by simp [count_replicate, emptySlot, tombstone]

variable {q : QuotientFilter}

/-- A table that counts fewer taken slots than it has contains an empty one. -/
theorem WellFormed.emptySlot_mem (hq : q.WellFormed)
    (hroom : q.items + q.tombstones < q.slots.length) : emptySlot ∈ q.slots := by
  by_contra hfull
  have hrest : q.slots.countP (fun r => ¬ tombstone < r) = q.slots.count tombstone := by
    refine countP_congr fun r hr => ?_
    rcases slot_cases r with rfl | rfl | hlive
    · exact absurd hr hfull
    · decide
    · simp [hlive, ne_tombstone_of_lt hlive]
  have hlength := q.slots.length_eq_countP_add_countP fun r => decide (tombstone < r)
  simp only [decide_eq_true_eq, hrest, ← hq.items_eq, ← hq.tombstones_eq] at hlength
  omega

theorem indexFor_lt {n : ℕ} (hn : 0 < n) (r : UInt64) : indexFor r n < n := by
  rw [indexFor, if_neg (by omega)]
  exact Nat.mod_lt _ hn

section

variable (hq : q.WellFormed) {r : UInt64} (hr : tombstone < r)
include hq hr

/-- A lookup succeeds exactly on the stored fingerprints. -/
theorem WellFormed.findRemainder_isSome_iff : (q.findRemainder r).isSome ↔ r ∈ q.slots := by
  unfold findRemainder
  by_cases hempty : q.slots = []
  · simp [hempty]
  · have hn : 0 < q.slots.length := length_pos_of_ne_nil hempty
    rw [if_neg (by simpa using hempty),
      search_isSome_iff (ne_emptySlot_of_lt hr) (indexFor_lt hn r)]
    constructor
    · rintro ⟨k, hk, hkr, _⟩
      have hlt : probe q.slots.length (indexFor r q.slots.length) k < q.slots.length :=
        Nat.mod_lt _ hn
      rw [getD_eq_getElem _ _ hlt] at hkr
      rw [← hkr]
      exact getElem_mem hlt
    · intro hmem
      exact hq.reaches r hmem hr

/-- Where a new fingerprint goes in a table with an empty slot: a free slot that
ends a clear path from its home. -/
theorem WellFormed.exists_place (hnew : r ∉ q.slots) (hempty : emptySlot ∈ q.slots) :
    ∃ k < q.slots.length,
      place q.slots emptySlot tombstone r q.slots.length
          (indexFor r q.slots.length) none =
        some (probe q.slots.length (indexFor r q.slots.length) k) ∧
      Clear q.slots emptySlot (indexFor r q.slots.length) k ∧
      ¬ tombstone < q.slots.getD
        (probe q.slots.length (indexFor r q.slots.length) k) emptySlot := by
  have hn : 0 < q.slots.length := length_pos_of_mem hempty
  have hhome := indexFor_lt hn r
  have hstart := probe_zero hhome
  have hclear : Clear q.slots emptySlot (indexFor r q.slots.length) 0 :=
    fun j hj => absurd hj (Nat.not_lt_zero j)
  cases hplace : place q.slots emptySlot tombstone r q.slots.length
      (indexFor r q.slots.length) none with
  | none =>
    rw [← hstart] at hplace
    rcases reaches_or_full_of_place hn (by omega) hclear hplace with hreach | hfull
    · have hsome := (search_isSome_iff (ne_emptySlot_of_lt hr) hhome).mpr hreach
      have hfind : (q.findRemainder r).isSome := by
        rw [findRemainder, if_neg (by simpa using ne_nil_of_length_pos hn)]
        exact hsome
      exact absurd ((hq.findRemainder_isSome_iff hr).mp hfind) hnew
    · obtain ⟨i, hi, hslot⟩ := mem_iff_getElem.mp hempty
      obtain ⟨k, hk, hprobe⟩ := exists_probe_eq (indexFor r q.slots.length) hi
      have hne := hfull k (by omega)
      rw [hprobe, getD_eq_getElem _ _ hi, hslot] at hne
      exact absurd rfl hne
  | some t =>
    rw [← hstart] at hplace
    obtain ⟨hfree, k, hk, rfl, hpath⟩ := place_spec hn (by omega) hclear
      (fun d hd => absurd hd (by simp)) hplace
    refine ⟨k, hk, rfl, hpath, ?_⟩
    rcases hfree with hfree | hfree
    · rw [hfree]
      decide
    · rw [hfree]
      decide

end

/-- Writing a slot of a well-formed table replaces the fingerprint it held. -/
theorem WellFormed.set (hq : q.WellFormed) {t : ℕ} {old v : UInt64} (items tombstones : ℕ)
    (hold : q.slots[t]? = some old) (hv : v ≠ emptySlot) (hfresh : tombstone < v → v ∉ q.slots)
    (hreach : tombstone < v →
      Reaches (q.slots.set t v) emptySlot (indexFor v q.slots.length) v)
    (hitems : items = (q.slots.set t v).countP (fun r => decide (tombstone < r)))
    (htombstones : tombstones = (q.slots.set t v).count tombstone) :
    WellFormed ⟨q.slots.set t v, items, tombstones⟩ ∧ ∀ s, tombstone < s →
      (s ∈ q.slots.set t v ↔ s = v ∨ s ∈ q.slots ∧ s ≠ old) := by
  obtain ⟨hlt, hget⟩ := List.getElem?_eq_some_iff.mp hold
  have hperm := hget ▸ (getElem_cons_eraseIdx_perm hlt).symm
  have hperm' := set_perm_cons_eraseIdx hlt v
  have hsymm : ∀ {a b : UInt64}, (tombstone < a → a ≠ b) → tombstone < b → b ≠ a :=
    fun hab hb heq => hab (heq ▸ hb) heq.symm
  obtain ⟨holdNe, hrest⟩ := pairwise_cons.mp ((hperm.pairwise_iff hsymm).mp hq.distinct)
  have hmem : ∀ s, tombstone < s →
      (s ∈ q.slots.set t v ↔ s = v ∨ s ∈ q.slots ∧ s ≠ old) := by
    intro s hs
    have hne : s ∈ q.slots.eraseIdx t → s ≠ old :=
      fun hmem heq => holdNe s hmem (heq ▸ hs) heq.symm
    rw [hperm'.mem_iff, hperm.mem_iff, mem_cons, mem_cons, or_and_right, and_not_self_iff, false_or,
      and_iff_left_of_imp hne]
  refine ⟨⟨?_, ?_, hitems, htombstones⟩, hmem⟩
  · intro s hs hlive
    rw [length_set]
    rcases (hmem s hlive).mp hs with rfl | ⟨hstored, hne⟩
    · exact hreach hlive
    · refine (hq.reaches s hstored hlive).set hv ?_
      rw [getD_eq_getElem?_getD, hold]
      exact hne.symm
  · refine (hperm'.pairwise_iff hsymm).mpr (pairwise_cons.mpr ⟨?_, hrest⟩)
    intro s hs hlive heq
    exact hfresh hlive (mem_of_mem_eraseIdx (heq ▸ hs))

/-- The second table stores a set in as many slots as the first, with `n` more items and
no more deletion marks. -/
structure Filled (q q' : QuotientFilter) (stored : Set UInt64) (n : ℕ) : Prop where
  stores : q'.Stores stored
  length_eq : q'.slots.length = q.slots.length
  items_eq : q'.items = q.items + n
  tombstones_le : q'.tombstones ≤ q.tombstones

variable {stored : Set UInt64}

/-- A new fingerprint is stored, with nothing else changed in what is stored. -/
theorem Stores.insertRemainder (hq : q.Stores stored) {r : UInt64} (hr : tombstone < r)
    (hnew : r ∉ stored) (hempty : emptySlot ∈ q.slots) :
    (q.insertRemainder r).2 = true ∧ q.Filled (q.insertRemainder r).1 ({r} ∪ stored) 1 := by
  have hfresh : r ∉ q.slots := fun h => hnew ((hq.mem_iff r hr).mp h)
  obtain ⟨k, hk, hplace, hclear, hfree⟩ := hq.wellFormed.exists_place hr hfresh hempty
  have hlt : probe q.slots.length (indexFor r q.slots.length) k < q.slots.length :=
    Nat.mod_lt _ (by omega)
  have hreach := reaches_set_self hk hclear (ne_emptySlot_of_lt hr)
  simp only [QuotientFilter.insertRemainder, hplace]
  generalize probe q.slots.length (indexFor r q.slots.length) k = t at *
  rw [getD_eq_getElem _ _ hlt] at hfree ⊢
  obtain ⟨hwf, hmem⟩ := hq.wellFormed.set (q.items + 1)
    (if q.slots[t] = tombstone then q.tombstones - 1 else q.tombstones) (getElem?_eq_getElem hlt)
    (ne_emptySlot_of_lt hr) (fun _ => hfresh) (fun _ => hreach)
    (by
      simp only [countP_set hlt, hq.wellFormed.items_eq]
      rw [if_neg (by simpa using hfree), if_pos (by simpa using hr), Nat.sub_zero])
    (by
      simp only [count_set hlt, hq.wellFormed.tombstones_eq, beq_iff_eq]
      rw [if_neg (ne_tombstone_of_lt hr)]
      split <;> rfl)
  refine ⟨trivial, ⟨hwf, fun s hs => ?_⟩, length_set, rfl, ?_⟩
  · have hne : s ≠ q.slots[t] := fun heq => hfree (heq ▸ hs)
    rw [hmem s hs, Set.mem_union, ← hq.mem_iff s hs]
    tauto
  · simp only
    split <;> omega

/-- Re-inserting a list of distinct fingerprints into a table with room for all of
them stores them and keeps what the table held. -/
theorem Stores.foldl_insertRemainder {acc : QuotientFilter} {l : List UInt64}
    (hacc : acc.Stores stored) (hdistinct : l.Pairwise (fun a b => tombstone < a → a ≠ b))
    (hfresh : ∀ r ∈ l, tombstone < r → r ∉ stored)
    (hroom : acc.items + acc.tombstones + l.countP (fun r => decide (tombstone < r)) <
      acc.slots.length) :
    acc.Filled
      (l.foldl (fun acc r => if r > tombstone then (acc.insertRemainder r).1 else acc) acc)
      ({s | s ∈ l} ∪ stored) (l.countP (fun r => decide (tombstone < r))) := by
  induction l generalizing acc stored with
  | nil => exact ⟨⟨hacc.wellFormed, by simpa using hacc.mem_iff⟩, rfl, rfl, le_rfl⟩
  | cons r l ih =>
    obtain ⟨hhead, hdistinct'⟩ := pairwise_cons.mp hdistinct
    rw [foldl_cons]
    by_cases hr : tombstone < r
    · rw [countP_cons_of_pos (by simpa using hr)] at hroom ⊢
      have hempty := hacc.wellFormed.emptySlot_mem (by omega)
      obtain ⟨-, hone⟩ := hacc.insertRemainder hr (hfresh r mem_cons_self hr) hempty
      have hitems := hone.items_eq
      have htombs := hone.tombstones_le
      have hlen := hone.length_eq
      have hmore := ih hone.stores hdistinct' (fun s hs hlive hstored => by
        rcases hstored with rfl | hstored
        · exact hhead s hs hr rfl
        · exact hfresh s (mem_cons_of_mem r hs) hlive hstored) (by omega)
      rw [if_pos hr]
      refine ⟨⟨hmore.stores.wellFormed, fun s hs => ?_⟩, hmore.length_eq.trans hlen, ?_,
        hmore.tombstones_le.trans htombs⟩
      · rw [hmore.stores.mem_iff s hs]
        simp only [Set.mem_union, Set.mem_ofPred_eq, mem_cons]
        tauto
      · rw [hmore.items_eq]
        omega
    · rw [countP_cons_of_neg (by simpa using hr)] at hroom ⊢
      rw [if_neg hr]
      have hmore := ih hacc hdistinct' (fun s hs => hfresh s (mem_cons_of_mem r hs)) hroom
      refine ⟨⟨hmore.stores.wellFormed, fun s hs => ?_⟩, hmore.length_eq, hmore.items_eq,
        hmore.tombstones_le⟩
      have hne : s ≠ r := fun heq => hr (heq ▸ hs)
      rw [hmore.stores.mem_iff s hs]
      simp only [Set.mem_union, Set.mem_ofPred_eq, mem_cons, hne, false_or]

theorem stores_replicate (n : ℕ) : Stores ⟨replicate n emptySlot, 0, 0⟩ ∅ := by
  refine ⟨wellFormed_replicate n, fun s hs => ?_⟩
  exact iff_of_false (fun hmem => ne_emptySlot_of_lt hs (eq_of_mem_replicate hmem)) id

/-- Moving a table to one with more slots than it has items loses nothing. -/
theorem Stores.rehash (hq : q.Stores stored) {n : ℕ} (hn : q.items < n) :
    (q.rehash n).Stores stored ∧ (q.rehash n).slots.length = n ∧
      (q.rehash n).items = q.items ∧ (q.rehash n).tombstones = 0 := by
  have hfilled := (stores_replicate n).foldl_insertRemainder hq.wellFormed.distinct
    (fun _ _ _ => id) (by
      simpa only [← hq.wellFormed.items_eq, length_replicate, Nat.zero_add] using hn)
  rw [← hq.wellFormed.items_eq, Set.union_empty] at hfilled
  unfold QuotientFilter.rehash
  rw [if_neg (by omega)]
  refine ⟨⟨hfilled.stores.wellFormed, fun s hs => ?_⟩, ?_, ?_,
    Nat.le_zero.mp hfilled.tombstones_le⟩
  · rw [hfilled.stores.mem_iff s hs]
    exact hq.mem_iff s hs
  · rw [hfilled.length_eq, length_replicate]
  · rw [hfilled.items_eq, Nat.zero_add]

theorem lt_slotsForItems {items : ℕ} (h : 0 < items) : items < slotsForItems items := by
  rw [slotsForItems, if_neg (by omega)]
  omega

/-- The growth step keeps what is stored and leaves an empty slot. -/
theorem Stores.grow (hq : q.Stores stored) :
    q.grow.Stores stored ∧ emptySlot ∈ q.grow.slots := by
  unfold QuotientFilter.grow
  by_cases hgrow : q.needsGrowth = true
  · have hslots : q.items + 1 < slotsForItems (q.items + 1) := lt_slotsForItems (by omega)
    obtain ⟨hstores, hlen, hitems, htombs⟩ :=
      hq.rehash (n := slotsForItems (q.items + 1)) (by omega)
    rw [if_pos hgrow]
    exact ⟨hstores, hstores.wellFormed.emptySlot_mem (by omega)⟩
  · rw [if_neg hgrow]
    simp only [needsGrowth, Bool.or_eq_true, not_or] at hgrow
    have hroom : ¬ q.items + q.tombstones + 1 > q.slots.length * 7 / 8 :=
      fun h => hgrow.2 (decide_eq_true h)
    exact ⟨hq, hq.wellFormed.emptySlot_mem (by omega)⟩

theorem stores_clear (q : QuotientFilter) : q.clear.Stores ∅ := stores_replicate _

section Items

variable {α : Type*} (hash : α → UInt64)

/-- A fingerprint is never mistaken for an empty or a deleted slot. -/
theorem lt_fingerprint (item : α) : tombstone < fingerprint hash item := by
  unfold fingerprint
  split
  · rename_i hle
    rw [UInt64.le_iff_toNat_le] at hle
    simp only [tombstone, UInt64.toNat_one] at hle
    rw [UInt64.lt_iff_toNat_lt, UInt64.toNat_add]
    simp only [tombstone, UInt64.reduceToNat]
    omega
  · rename_i hlt
    exact UInt64.not_le.mp hlt

variable (hq : q.Stores stored) (item : α)
include hq

/-- A lookup of a fingerprint succeeds exactly if it is in the set. -/
theorem Stores.find_fingerprint :
    (q.findRemainder (fingerprint hash item)).isSome ↔ fingerprint hash item ∈ stored := by
  have hlive := lt_fingerprint hash item
  rw [hq.wellFormed.findRemainder_isSome_iff hlive, hq.mem_iff _ hlive]

/-- Insertion adds the fingerprint of the item, and tells whether it was new. -/
theorem Stores.insert :
    (q.insert hash item).1.Stores ({fingerprint hash item} ∪ stored) ∧
      ((q.insert hash item).2 = true ↔ fingerprint hash item ∉ stored) := by
  obtain ⟨hgrown, hempty⟩ := hq.grow
  have hfind := hgrown.find_fingerprint hash item
  unfold QuotientFilter.insert
  by_cases hstored : fingerprint hash item ∈ stored
  · rw [if_pos (hfind.mpr hstored), Set.union_eq_self_of_subset_left
      (Set.singleton_subset_iff.mpr hstored)]
    exact ⟨hgrown, by simp [hstored]⟩
  · rw [if_neg (fun h => hstored (hfind.mp h))]
    obtain ⟨hadded, hfilled⟩ :=
      hgrown.insertRemainder (lt_fingerprint hash item) hstored hempty
    exact ⟨hfilled.stores, by simp [hadded, hstored]⟩

/-- Deletion removes the fingerprint of the item, and tells whether it was there. -/
theorem Stores.delete :
    (q.delete hash item).1.Stores (stored \ {fingerprint hash item}) ∧
      ((q.delete hash item).2 = true ↔ fingerprint hash item ∈ stored) := by
  have hlive := lt_fingerprint hash item
  have hfind := hq.find_fingerprint hash item
  unfold QuotientFilter.delete
  cases hcase : q.findRemainder (fingerprint hash item) with
  | none =>
    have habsent : fingerprint hash item ∉ stored := by simpa [hcase] using hfind
    rw [Set.sdiff_singleton_eq_self habsent]
    exact ⟨hq, by simp [habsent]⟩
  | some index =>
    have hget : q.slots.getD index emptySlot = fingerprint hash item := by
      unfold findRemainder at hcase
      split at hcase
      · cases hcase
      · exact getD_of_search hcase
    have hlt : index < q.slots.length := by
      by_contra hge
      rw [getD_eq_getElem?_getD, getElem?_eq_none (by omega)] at hget
      exact ne_emptySlot_of_lt hlive hget.symm
    rw [getD_eq_getElem _ _ hlt] at hget
    obtain ⟨hwf, hmem⟩ := hq.wellFormed.set (q.items - 1) (q.tombstones + 1)
      (getElem?_eq_getElem hlt) (by decide : tombstone ≠ emptySlot)
      (fun h => absurd h (by decide)) (fun h => absurd h (by decide))
      (by
        simp only [countP_set hlt, hq.wellFormed.items_eq, hget]
        rw [if_pos (by simpa using hlive), if_neg (by decide), Nat.add_zero])
      (by
        simp only [count_set hlt, hq.wellFormed.tombstones_eq, hget, beq_iff_eq]
        rw [if_neg (ne_tombstone_of_lt hlive), if_pos trivial, Nat.sub_zero])
    have hmarked : Stores ⟨q.slots.set index tombstone, q.items - 1, q.tombstones + 1⟩
        (stored \ {fingerprint hash item}) := by
      refine ⟨hwf, fun s hs => ?_⟩
      rw [hmem s hs, hget, hq.mem_iff s hs]
      simp [ne_tombstone_of_lt hs]
    have hpresent : fingerprint hash item ∈ stored := by simpa [hcase] using hfind
    simp only
    split
    · rename_i hzero
      refine ⟨⟨(stores_clear _).wellFormed, fun s hs => ?_⟩, by simp [hpresent]⟩
      rw [← hmarked.mem_iff s hs, (stores_clear _).mem_iff s hs]
      refine iff_of_false id fun hslot => ?_
      have hcount := hwf.items_eq.symm.trans hzero
      exact countP_eq_zero.mp hcount s hslot (by simpa using hs)
    split
    · rename_i hzero _
      exact ⟨(hmarked.rehash (lt_slotsForItems (Nat.pos_of_ne_zero hzero))).1, by simp [hpresent]⟩
    · exact ⟨hmarked, by simp [hpresent]⟩

end Items

/-- The operations on a filter that change it. -/
inductive FilterOp (α : Type*)
  | insert (item : α)
  | delete (item : α)
  | clear

variable {α : Type*} (hash : α → UInt64)

def FilterOp.apply (q : QuotientFilter) : FilterOp α → QuotientFilter
  | .insert item => (q.insert hash item).1
  | .delete item => (q.delete hash item).1
  | .clear => q.clear

/-- What an operation does to a set of fingerprints. -/
def FilterOp.effect (stored : Set UInt64) : FilterOp α → Set UInt64
  | .insert item => {fingerprint hash item} ∪ stored
  | .delete item => stored \ {fingerprint hash item}
  | .clear => ∅

theorem Stores.apply (hq : q.Stores stored) (op : FilterOp α) :
    (op.apply hash q).Stores (op.effect hash stored) := by
  cases op with
  | insert item => exact (hq.insert hash item).1
  | delete item => exact (hq.delete hash item).1
  | clear => exact stores_clear q

theorem Stores.foldl_apply (hq : q.Stores stored) (ops : List (FilterOp α)) :
    (ops.foldl (FilterOp.apply hash) q).Stores (ops.foldl (FilterOp.effect hash) stored) := by
  induction ops generalizing q stored with
  | nil => exact hq
  | cons op ops ih => exact ih (hq.apply hash op)

/-- After any run the filter answers as the set of the fingerprints inserted and not deleted since:
lookups, and what the next insertion or deletion returns. Its counters count the live and the
deleted slots, and its live slots hold exactly the set. -/
theorem filter_refines_set (capacity : ℕ) (ops : List (FilterOp α)) :
    let q := ops.foldl (FilterOp.apply hash) (withCapacity capacity)
    let stored := ops.foldl (FilterOp.effect hash) ∅
    (∀ x, q.mayContain hash x = true ↔ fingerprint hash x ∈ stored) ∧
      (∀ x, (q.insert hash x).2 = true ↔ fingerprint hash x ∉ stored) ∧
      (∀ x, (q.delete hash x).2 = true ↔ fingerprint hash x ∈ stored) ∧
      q.items = q.slots.countP (fun r => decide (tombstone < r)) ∧
      q.tombstones = q.slots.count tombstone ∧
      ∀ s, tombstone < s → (s ∈ q.slots ↔ s ∈ stored) := by
  have hq := (stores_replicate (slotsForItems capacity)).foldl_apply hash ops
  exact ⟨hq.find_fingerprint hash, fun x => (hq.insert hash x).2,
    fun x => (hq.delete hash x).2, hq.wellFormed.items_eq, hq.wellFormed.tombstones_eq,
    hq.mem_iff⟩

end QuotientFilter

end Flywheel.Core
