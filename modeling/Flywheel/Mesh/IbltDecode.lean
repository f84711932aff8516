import Flywheel.Mesh.IbltCells

/-!
# Decoding the difference of two tables

The decoder peels the hypergraph whose edges are the objects of the difference and whose
vertices are the cells. Its state stands for the set of objects that are left: every cell
holds what is left of it. Each pass of the loop is one look of the general peeling
procedure, so the queue runs empty within the bound on the pops, and what is left then is
the 2-core.
-/

namespace Flywheel.Mesh

open Flywheel.Core Flywheel.Data Peeling Finset

variable {blake3 : List UInt8 → Bytes 32} {n : ℕ} {sgn : ObjectId → ℤ}
  {S R D : Finset ObjectId} {x : ObjectId}

/-- Changing cells at different indices changes each of them once. -/
theorem getElem?_foldl_modify {f : IbltCell → IbltCell} {indices : List ℕ}
    (hnodup : indices.Nodup) (cells : List IbltCell) (j : ℕ) :
    (indices.foldl (fun cells i => cells.modify i f) cells)[j]? =
      if j ∈ indices then cells[j]?.map f else cells[j]? := by
  induction indices generalizing cells with
  | nil => simp
  | cons i indices ih =>
    obtain ⟨hi, hrest⟩ := List.nodup_cons.mp hnodup
    rw [List.foldl_cons, ih hrest]
    by_cases hj : j = i
    · subst hj
      simp [hi]
    · simp [hj, Ne.symm hj]

theorem length_foldl_modify {f : IbltCell → IbltCell} (indices : List ℕ) (cells : List IbltCell) :
    (indices.foldl (fun cells i => cells.modify i f) cells).length = cells.length := by
  induction indices generalizing cells with
  | nil => rfl
  | cons i indices ih => rw [List.foldl_cons, ih, List.length_modify]

/-- A cell forgets an object that was entered and taken out, unless its count saturated. -/
theorem IbltCell.apply_apply_eq_iff {cell : IbltCell} :
    (cell.apply blake3 x 1).apply blake3 x (-1) = cell ↔
      -2 ^ 31 ≤ cell.count ∧ cell.count < 2 ^ 31 - 1 := by
  have hkeys : Bytes.xor (Bytes.xor cell.keySum x) x = cell.keySum :=
    (Std.Associative.assoc _ _ _).trans (by rw [Bytes.xor_self, Bytes.xor_zeros])
  have hchecks : cell.hashCheck ^^^ hashCheckFor blake3 x ^^^ hashCheckFor blake3 x =
      cell.hashCheck := by
    rw [UInt32.xor_assoc, UInt32.xor_self, UInt32.xor_zero]
  obtain ⟨count, keySum, hashCheck⟩ := cell
  simp only [IbltCell.apply, hkeys, hchecks, IbltCell.mk.injEq, and_true, saturateI32]
  omega

variable (blake3) in
/-- The three indices of a key are different and in range. Deleting the key after an insert restores
every cell exactly when no cell of the key has the largest count. -/
theorem Iblt.insert_delete_eq_iff (t : Iblt) (hcells : ibltHashCount ≤ t.cells.length)
    (x : ObjectId) :
    let indices := indicesFor blake3 x t.cells.length
    indices.length = 3 ∧ indices.Nodup ∧ (∀ i ∈ indices, i < t.cells.length) ∧
      ((t.insert blake3 x).delete blake3 x = t ↔ ∀ i ∈ indices, ∀ cell ∈ t.cells[i]?,
        -2 ^ 31 ≤ cell.count ∧ cell.count < 2 ^ 31 - 1) := by
  obtain ⟨hlt, hnodup, hlength⟩ := indicesFor_spec blake3 hcells x
  refine ⟨hlength, hnodup, hlt, ?_⟩
  have hcount : (t.insert blake3 x).cells.length = t.cells.length := length_foldl_modify _ _
  have hget : ∀ i, ((t.insert blake3 x).delete blake3 x).cells[i]? =
      if i ∈ indicesFor blake3 x t.cells.length then
        t.cells[i]?.map fun cell => (cell.apply blake3 x 1).apply blake3 x (-1)
      else t.cells[i]? := by
    intro i
    rw [Iblt.delete, Iblt.apply, hcount, getElem?_foldl_modify hnodup, Iblt.insert, Iblt.apply,
      getElem?_foldl_modify hnodup]
    split_ifs
    · rw [Option.map_map]
      rfl
    · rfl
  constructor
  · intro h i hi cell hcell
    have hi' := hget i
    rw [h, if_pos hi, hcell, Option.map_some, Option.some_inj] at hi'
    exact IbltCell.apply_apply_eq_iff.mp hi'.symm
  · intro h
    refine congrArg Iblt.mk (List.ext_getElem? fun i => (hget i).trans ?_)
    split_ifs with hi
    · cases hcell : t.cells[i]? with
      | none => rfl
      | some cell => rw [Option.map_some, IbltCell.apply_apply_eq_iff.mpr (h i hi cell hcell)]
    · rfl

theorem insert_delete_empty :
    ((Iblt.mk (List.replicate 3 .default)).insert (fun _ => Bytes.zeros 32) (Bytes.zeros 32)).delete
      (fun _ => Bytes.zeros 32) (Bytes.zeros 32) = ⟨List.replicate 3 .default⟩ :=
  (Iblt.insert_delete_eq_iff _ ⟨List.replicate 3 .default⟩ (by decide) _).2.2.2.mpr
    (by decide +kernel)

/-- A cell with the largest count loses an object that was never counted. -/
theorem insert_delete_saturated :
    let t : Iblt := ⟨List.replicate 3 ⟨2 ^ 31 - 1, Bytes.zeros 32, 0⟩⟩
    (t.insert (fun _ => Bytes.zeros 32) (Bytes.zeros 32)).delete (fun _ => Bytes.zeros 32)
      (Bytes.zeros 32) = ⟨List.replicate 3 ⟨2 ^ 31 - 2, Bytes.zeros 32, 0⟩⟩ := by
  decide +kernel

variable (blake3 n sgn) in
/-- The cells of a table that holds a set of objects with signs. -/
structure Holds (S : Finset ObjectId) (cells : List IbltCell) : Prop where
  length_eq : cells.length = n
  getElem?_eq : ∀ i < n, cells[i]? = some (contents blake3 sgn (keysAt blake3 n S i))

theorem holds_empty : Holds blake3 n sgn ∅ (List.replicate n .default) where
  length_eq := List.length_replicate
  getElem?_eq := by
    intro i hi
    rw [List.getElem?_replicate, if_pos hi]
    rfl

variable {cells : List IbltCell}

/-- Applying an object to its cells, if that changes what they hold as given and leaves
the other cells alone. -/
theorem Holds.apply (hn : ibltHashCount ≤ n) (h : Holds blake3 n sgn S cells) {delta : ℤ}
    (hin : ∀ i ∈ cellsOf blake3 n x, i < n →
      (contents blake3 sgn (keysAt blake3 n S i)).apply blake3 x delta =
        contents blake3 sgn (keysAt blake3 n R i))
    (hout : ∀ i, i ∉ cellsOf blake3 n x → keysAt blake3 n S i = keysAt blake3 n R i) :
    Holds blake3 n sgn R ((indicesFor blake3 x n).foldl
      (fun cells i => cells.modify i fun cell => cell.apply blake3 x delta) cells) where
  length_eq := (length_foldl_modify _ cells).trans h.length_eq
  getElem?_eq := by
    intro i hi
    obtain ⟨-, hnodup, -⟩ := indicesFor_spec blake3 hn x
    rw [getElem?_foldl_modify hnodup, h.getElem?_eq i hi]
    split_ifs with hmem
    · rw [Option.map_some, hin i (List.mem_toFinset.mpr hmem) hi]
    · rw [hout i fun hcell => hmem (List.mem_toFinset.mp hcell)]

/-- Entering an object that is not there. -/
theorem Holds.apply_insert (hn : ibltHashCount ≤ n) (h : Holds blake3 n sgn S cells) (hx : x ∉ S)
    (hrange : ∀ i, InRange (∑ y ∈ keysAt blake3 n (insert x S) i, sgn y)) :
    Holds blake3 n sgn (insert x S) ((indicesFor blake3 x n).foldl
      (fun cells i => cells.modify i fun cell => cell.apply blake3 x (sgn x)) cells) := by
  refine h.apply hn (fun i hi _ => ?_) fun i hi => ?_
  · have hinsert : keysAt blake3 n (insert x S) i = insert x (keysAt blake3 n S i) := by
      rw [keysAt, residents, filter_insert, if_pos hi]
      rfl
    have hnot : x ∉ keysAt blake3 n S i := fun hmem => hx (mem_residents.mp hmem).1
    have hrangeI := hrange i
    rw [hinsert] at hrangeI ⊢
    exact contents_apply_insert hnot hrangeI
  · rw [keysAt, residents, keysAt, residents, filter_insert, if_neg hi]

/-- Taking out an object that is there. -/
theorem Holds.apply_erase (hn : ibltHashCount ≤ n) (h : Holds blake3 n sgn R cells) (hx : x ∈ R)
    (hrange : ∀ i, InRange (∑ y ∈ keysAt blake3 n (R.erase x) i, sgn y)) :
    Holds blake3 n sgn (R.erase x) ((indicesFor blake3 x n).foldl
      (fun cells i => cells.modify i fun cell => cell.apply blake3 x (-sgn x)) cells) := by
  refine h.apply hn (fun i hi _ => ?_) fun i hi => ?_
  · have hmem : x ∈ keysAt blake3 n R i := mem_residents.mpr ⟨hx, hi⟩
    have herase : keysAt blake3 n (R.erase x) i = (keysAt blake3 n R i).erase x :=
      residents_erase
    have hrangeI := hrange i
    rw [herase] at hrangeI ⊢
    exact contents_apply_erase hmem hrangeI
  · exact (residents_erase_of_notMem hi).symm

theorem keysAt_mono (h : S ⊆ R) (i : ℕ) : keysAt blake3 n S i ⊆ keysAt blake3 n R i :=
  filter_subset_filter _ h

section Sketch

variable (blake3 n)

/-- A table of `n` cells with the given objects entered one after the other. -/
def Iblt.sketch (keys : List ObjectId) : Except IbltError Iblt :=
  (Iblt.withCellCount n).map fun t => keys.foldl (Iblt.insert blake3) t

/-- No cell has so many of the objects that a count of them saturates. -/
def Unsaturated (S : Finset ObjectId) : Prop := ∀ i, (keysAt blake3 n S i).card < 2 ^ 31

variable {blake3 n}

/-- The table of a list of different objects holds each of them once. -/
theorem holds_sketch (hn : ibltHashCount ≤ n) {keys : List ObjectId} (hkeys : keys.Nodup)
    (hsat : Unsaturated blake3 n keys.toFinset) :
    ∃ t, Iblt.sketch blake3 n keys = .ok t ∧
      Holds blake3 n (fun _ => 1) keys.toFinset t.cells := by
  have hloop : ∀ (rest : List ObjectId) (S) (t), rest.Nodup →
      (∀ x ∈ rest, x ∉ S) → Unsaturated blake3 n (S ∪ rest.toFinset) →
      Holds blake3 n (fun _ => 1) S t.cells →
      Holds blake3 n (fun _ => 1) (S ∪ rest.toFinset)
        (rest.foldl (Iblt.insert blake3) t).cells := by
    intro rest
    induction rest with
    | nil => exact fun S t _ _ _ ht => by simpa using ht
    | cons x rest ih =>
      intro S t hnodup hfresh hsat ht
      obtain ⟨hx, hrest⟩ := List.nodup_cons.mp hnodup
      have hunion : S ∪ (x :: rest).toFinset = insert x S ∪ rest.toFinset := by
        rw [List.toFinset_cons, union_insert, insert_union]
      rw [hunion] at hsat ⊢
      refine ih (insert x S) _ hrest (fun y hy => ?_) hsat ?_
      · rw [mem_insert, not_or]
        refine ⟨fun heq => hx (heq ▸ hy), hfresh y (List.mem_cons_of_mem x hy)⟩
      · rw [Iblt.insert, Iblt.apply, ht.length_eq]
        refine ht.apply_insert hn (hfresh x List.mem_cons_self) fun i => ?_
        have hcard : (keysAt blake3 n (insert x S) i).card < 2 ^ 31 :=
          lt_of_le_of_lt (card_le_card (keysAt_mono subset_union_left i)) (hsat i)
        rw [sum_const, nsmul_eq_mul, InRange]
        omega
  have hempty := hloop keys ∅ ⟨List.replicate n .default⟩ hkeys
    (fun x _ => notMem_empty x) (by rwa [empty_union]) holds_empty
  refine ⟨_, ?_, hempty⟩
  rw [Iblt.sketch, Iblt.withCellCount, if_neg (not_lt.mpr hn)]
  rfl

variable {A B : Finset ObjectId}

/-- Counts over parts of the difference of two sets do not saturate. -/
theorem inRange_sum_sideOf (hA : Unsaturated blake3 n A) (hB : Unsaturated blake3 n B)
    (hR : R ⊆ symmDiff A B) (i : ℕ) : InRange (∑ y ∈ keysAt blake3 n R i, sideOf A y) := by
  have hsum : ∑ y ∈ keysAt blake3 n R i, sideOf A y =
      (((keysAt blake3 n R i).filter (· ∈ A)).card) -
        ((keysAt blake3 n R i).filter (· ∉ A)).card := by
    rw [← sum_filter_add_sum_filter_not (keysAt blake3 n R i) (· ∈ A)]
    have hleft : ∀ y ∈ (keysAt blake3 n R i).filter (· ∈ A), sideOf A y = 1 :=
      fun y hy => if_pos (mem_filter.mp hy).2
    have hright : ∀ y ∈ (keysAt blake3 n R i).filter (· ∉ A), sideOf A y = -1 :=
      fun y hy => if_neg (mem_filter.mp hy).2
    rw [sum_congr rfl hleft, sum_congr rfl hright]
    simp [sub_eq_add_neg]
  have hleft : (keysAt blake3 n R i).filter (· ∈ A) ⊆ keysAt blake3 n A i := by
    intro y hy
    obtain ⟨hy, hyA⟩ := mem_filter.mp hy
    exact mem_residents.mpr ⟨hyA, (mem_residents.mp hy).2⟩
  have hright : (keysAt blake3 n R i).filter (· ∉ A) ⊆ keysAt blake3 n B i := by
    intro y hy
    obtain ⟨hy, hyA⟩ := mem_filter.mp hy
    obtain ⟨hyR, hyi⟩ := mem_residents.mp hy
    rcases mem_symmDiff.mp (hR hyR) with hyD | hyD
    · exact absurd hyD.1 hyA
    · exact mem_residents.mpr ⟨hyD.1, hyi⟩
  have hleftCard := lt_of_le_of_lt (card_le_card hleft) (hA i)
  have hrightCard := lt_of_le_of_lt (card_le_card hright) (hB i)
  rw [InRange]
  omega

end Sketch

variable {A : Finset ObjectId}

/-- Taking an object out of its cells queues those that then hold a single object. -/
theorem foldl_peelCell {sign : ℤ} {indices : List ℕ} (hnodup : indices.Nodup)
    (working : List IbltCell) (pending : List ℕ) :
    let final := indices.foldl
      (fun cells i => cells.modify i fun cell => cell.apply blake3 x (-sign)) working
    indices.foldl (peelCell blake3 x sign) (working, pending) =
      (final, pending ++ indices.filter fun j => (pureAt blake3 final j).isSome) := by
  induction indices generalizing working pending with
  | nil => simp
  | cons i indices ih =>
    obtain ⟨hi, hrest⟩ := List.nodup_cons.mp hnodup
    intro final
    have hlast : pureAt blake3 final i =
        pureAt blake3 (working.modify i fun cell => cell.apply blake3 x (-sign)) i := by
      unfold pureAt
      rw [show final[i]? = _ from getElem?_foldl_modify hrest _ i, if_neg hi]
    rw [List.foldl_cons, peelCell, ih hrest, List.filter_cons, hlast]
    split_ifs
    · rw [List.append_assoc]
      rfl
    · rfl

variable (blake3 n A D) in
/-- The state of the decoder when the objects of `R` are left of the difference `D`. -/
structure Decoding (R : Finset ObjectId) (state : DecodeState) : Prop where
  subset : R ⊆ D
  holds : Holds blake3 n (sideOf A) R state.working
  pending_lt : ∀ i ∈ state.pending, i < n
  onlyLeft_eq : state.onlyLeft = (D \ R).filter (· ∈ A)
  onlyRight_eq : state.onlyRight = (D \ R).filter (· ∉ A)

theorem sideOf_eq (y : ObjectId) : sideOf A y = 1 ∨ sideOf A y = -1 := by
  unfold sideOf
  split_ifs
  · exact Or.inl rfl
  · exact Or.inr rfl

theorem sideOf_pos_iff : sideOf A x > 0 ↔ x ∈ A := by
  unfold sideOf
  split_ifs with hx
  · exact iff_of_true Int.one_pos hx
  · exact iff_of_false (by decide) hx

/-- A cell passes as holding a single object exactly when one object is left in it. -/
theorem Holds.pureAt_iff (hsep : ∀ i, Separated blake3 (keysAt blake3 n D i)) (hR : R ⊆ D)
    {working : List IbltCell} (h : Holds blake3 n (sideOf A) R working) {i : ℕ} (hi : i < n)
    {s : ℤ} : pureAt blake3 working i = some (x, s) ↔
      Pure (cellsOf blake3 n) R i x ∧ s = sideOf A x := by
  rw [pureAt, h.getElem?_eq i hi]
  refine pureKey_contents_iff sideOf_eq fun S' hS' => ?_
  exact hsep i S' (hS'.trans (keysAt_mono hR i))

/-- The conditions under which the difference of two sets is decoded: the table has enough
cells, no count saturates, and no exclusive or of two or more objects of the difference
that share a cell passes the hash check. -/
structure Decodable (blake3 : List UInt8 → Bytes 32) (n : ℕ) (A B : Finset ObjectId) : Prop where
  cells : ibltHashCount ≤ n
  left : Unsaturated blake3 n A
  right : Unsaturated blake3 n B
  /-- Cells with two or more objects do not pass the hash check. -/
  separated : ∀ i, Separated blake3 (keysAt blake3 n (symmDiff A B) i)

variable {B : Finset ObjectId} {state : DecodeState}

/-- One pass of the decoder is one look of the peeling procedure. -/
theorem Decoding.step (hdec : Decodable blake3 n A B)
    (h : Decoding blake3 n (symmDiff A B) A R state) {i : ℕ} {queue : List ℕ}
    (hpending : state.pending = i :: queue) :
    ∃ R', Decoding blake3 n (symmDiff A B) A R' (decodeStep blake3 state i queue) ∧
      Step (cellsOf blake3 n) ibltHashCount (R, state.pending)
        (R', (decodeStep blake3 state i queue).pending) := by
  have hi : i < n := h.pending_lt i (hpending ▸ List.mem_cons_self)
  have hqueue : ∀ j ∈ queue, j < n :=
    fun j hj => h.pending_lt j (hpending ▸ List.mem_cons_of_mem i hj)
  unfold decodeStep
  rw [hpending]
  cases hpure : pureAt blake3 state.working i with
  | none =>
    refine ⟨R, ⟨h.subset, h.holds, hqueue, h.onlyLeft_eq, h.onlyRight_eq⟩, .skip fun x hx => ?_⟩
    have hsome := (h.holds.pureAt_iff hdec.separated h.subset hi).mpr ⟨hx, rfl⟩
    cases hpure.symm.trans hsome
  | some found =>
    obtain ⟨x, s⟩ := found
    obtain ⟨hx, rfl⟩ := (h.holds.pureAt_iff hdec.separated h.subset hi).mp hpure
    obtain ⟨hlt, hnodup, hlen⟩ := indicesFor_spec blake3 hdec.cells x
    have hsubset : R.erase x ⊆ symmDiff A B := (erase_subset x R).trans h.subset
    have hholds := h.holds.apply_erase hdec.cells hx.mem.1
      (inRange_sum_sideOf hdec.left hdec.right hsubset)
    have hD : symmDiff A B \ R.erase x = insert x (symmDiff A B \ R) :=
      sdiff_erase (h.subset hx.mem.1)
    dsimp only
    rw [h.holds.length_eq, foldl_peelCell hnodup]
    refine ⟨R.erase x, ⟨hsubset, hholds, fun j hj => ?_, ?_, ?_⟩, .peel hx ?_ ?_⟩
    · rcases List.mem_append.mp hj with hj | hj
      · exact hqueue j hj
      · exact hlt j (List.mem_of_mem_filter hj)
    · rw [hD, filter_insert, ← h.onlyLeft_eq]
      simp only [sideOf_pos_iff]
    · rw [hD, filter_insert, ← h.onlyRight_eq]
      simp only [sideOf_pos_iff, ite_not]
    · exact (List.length_filter_le _ _).trans hlen.le
    · intro j hj y hy
      have hmem := List.mem_toFinset.mp hj
      refine List.mem_filter.mpr ⟨hmem, ?_⟩
      rw [(hholds.pureAt_iff hdec.separated hsubset (hlt j hmem)).mpr ⟨hy, rfl⟩]
      rfl

end Flywheel.Mesh
