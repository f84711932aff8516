import Flywheel.Mesh.GossipRuns
import Mathlib.Data.Nat.Count
import Mathlib.Data.Vector.Mem

/-!
# The byte budget of a sketch

A cell takes between 62 and 102 bytes, depending on what it holds, and the budget of a
configuration grows by 128 bytes for every difference, which has one and a half cells. The
budget has a floor of 8 KiB and a cap of 16 MiB. Every sketch fits up to a batch size of
53. From 54 on a sketch can be too large, and from 180401 on even the empty one is.
-/

namespace Flywheel.Mesh

open Flywheel.Core Flywheel.Data Cbor Finset
open Cbor (headLength)

/-! ### Sizes -/

section Sizes

def countLength (count : ℤ) : ℕ :=
  headLength (if 0 ≤ saturateI32 count then (saturateI32 count).toNat
    else (-1 - saturateI32 count).toNat)

variable (cell : IbltCell)

def IbltCell.encodedLength : ℕ :=
  28 + countLength cell.count + (cell.keySum.toList.map fun b => headLength b.toNat).sum +
    headLength cell.hashCheck.toNat

theorem length_encode_natValue (n : ℕ) (h : n < 2 ^ 64) :
    (encode (natValue n h)).length = headLength n := by
  rw [natValue, encode]
  simp

theorem length_encode_i32Value (n : ℤ) : (encode (i32Value n)).length = countLength n := by
  rw [i32Value, encode, countLength]
  split_ifs <;> rw [length_head]

/-- The encoding of a cell is as long as said. -/
theorem length_encode_cell : (encode cell.value).length = cell.encodedLength := by
  have hcount : (utf8 "count").length = 5 := by decide +kernel
  have hkey : (utf8 "key_sum").length = 7 := by decide +kernel
  have hcheck : (utf8 "hash_check").length = 10 := by decide +kernel
  have hbytes : (encodeItems (cell.keySum.toList.map byteValue)).length =
      (cell.keySum.toList.map fun b => headLength b.toNat).sum := by
    rw [length_encodeItems, List.map_map]
    exact congrArg List.sum (List.map_congr_left fun b _ => length_encode_natValue _ _)
  simp only [IbltCell.value, encode, encodeEntries, List.length_append, length_head,
    hcount, hkey, hcheck, length_encode_natValue, length_encode_i32Value,
    List.length_map, List.Vector.toList_length, List.length_cons, List.length_nil,
    IbltCell.encodedLength]
  have hthree : headLength (0 + 1 + 1 + 1) = 1 := rfl
  have hfive : headLength 5 = 1 := rfl
  have hseven : headLength 7 = 1 := rfl
  have hten : headLength 10 = 1 := rfl
  have harray : headLength 32 = 2 := rfl
  omega

/-- The encoding of a table: its name, the number of cells, and the cells. -/
theorem length_encode_iblt (t : Iblt) :
    (encode t.value).length =
      7 + headLength t.cells.length + (t.cells.map IbltCell.encodedLength).sum := by
  have hname : (utf8 "cells").length = 5 := by decide +kernel
  have hcells : (encodeItems (t.cells.map IbltCell.value)).length =
      (t.cells.map IbltCell.encodedLength).sum := by
    rw [length_encodeItems, List.map_map]
    exact congrArg List.sum (List.map_congr_left fun cell _ => length_encode_cell cell)
  have hone : headLength (0 + 1) = 1 := rfl
  have hfive : headLength 5 = 1 := rfl
  simp only [Iblt.value, encode, encodeEntries, List.length_append, length_head,
    hname, List.length_map, List.length_cons, List.length_nil]
  omega

theorem one_le_headLength (arg : ℕ) : 1 ≤ headLength arg := by
  unfold headLength
  split_ifs <;> omega

theorem headLength_le_five {arg : ℕ} (h : arg < 2 ^ 32) : headLength arg ≤ 5 := by
  unfold headLength
  split_ifs <;> omega

theorem headLength_byte_le (b : UInt8) : headLength b.toNat ≤ 2 := by
  have hlt := b.toNat_lt
  unfold headLength
  split_ifs <;> omega

/-- A sum of bounded terms is bounded. -/
theorem sum_map_bounds {α : Type} {f : α → ℕ} {low high : ℕ} {l : List α}
    (h : ∀ a ∈ l, low ≤ f a ∧ f a ≤ high) :
    l.length * low ≤ (l.map f).sum ∧ (l.map f).sum ≤ l.length * high := by
  have hmap : ∀ v ∈ l.map f, low ≤ v ∧ v ≤ high := List.forall_mem_map.mpr h
  rw [← List.length_map f]
  exact ⟨List.card_nsmul_le_sum _ _ fun v hv => (hmap v hv).1,
    List.sum_le_card_nsmul _ _ fun v hv => (hmap v hv).2⟩

/-- A cell takes between 62 and 102 bytes. -/
theorem IbltCell.encodedLength_bounds : 62 ≤ cell.encodedLength ∧ cell.encodedLength ≤ 102 := by
  have hcount : 1 ≤ countLength cell.count ∧ countLength cell.count ≤ 5 := by
    refine ⟨one_le_headLength _, headLength_le_five ?_⟩
    unfold saturateI32
    split_ifs <;> omega
  have hkey := sum_map_bounds (l := cell.keySum.toList)
    fun b _ => ⟨one_le_headLength b.toNat, headLength_byte_le b⟩
  have hcheck : 1 ≤ headLength cell.hashCheck.toNat ∧ headLength cell.hashCheck.toNat ≤ 5 :=
    ⟨one_le_headLength _, headLength_le_five cell.hashCheck.toNat_lt⟩
  rw [List.Vector.toList_length] at hkey
  unfold IbltCell.encodedLength
  omega

theorem length_encode_iblt_bounds (t : Iblt) :
    7 + headLength t.cells.length + t.cells.length * 62 ≤ (encode t.value).length ∧
      (encode t.value).length ≤ 7 + headLength t.cells.length + t.cells.length * 102 := by
  have hsum := sum_map_bounds (l := t.cells) fun cell _ => cell.encodedLength_bounds
  rw [length_encode_iblt]
  omega

end Sizes

/-! ### The number of cells -/

namespace GossipState

variable {blake3 : List UInt8 → Bytes 32} {Xor8 : Type} {xorf : Xorf Xor8} {zoneId : ZoneId}
  {config : GossipConfig}

theorem length_cells_run (calls : List GossipCall) :
    (run blake3 xorf zoneId config calls).ibltState.iblt.cells.length = cellCount config := by
  induction calls using List.reverseRecOn with
  | nil => exact List.length_replicate
  | append_singleton calls c ih => rw [run_append_singleton, (size_call _ c).2, ih]

end GossipState

/-! ### Sketches whose cells are full

A hash that spreads numbered objects evenly over the cells, so that every cell holds the
same odd number of them. All bytes of the objects have their top bit set, and the bits of
the number below it. -/

section FullCells

/-- Bytes with the top bit set and the bits of a number below it. -/
def numberedBytes : ℕ → ℕ → List UInt8
  | 0, _ => []
  | width + 1, j => UInt8.ofNat (128 + j % 2) :: numberedBytes width (j / 2)

/-- The number that is written into the bytes. -/
def numberOf : List UInt8 → ℕ
  | [] => 0
  | b :: bytes => b.toNat % 2 + 2 * numberOf bytes

theorem length_numberedBytes (width j : ℕ) : (numberedBytes width j).length = width := by
  induction width generalizing j with
  | zero => rfl
  | succ width ih => rw [numberedBytes, List.length_cons, ih]

theorem numberOf_numberedBytes (width j : ℕ) :
    numberOf (numberedBytes width j) = j % 2 ^ width := by
  induction width generalizing j with
  | zero => rw [numberedBytes, numberOf, pow_zero, Nat.mod_one]
  | succ width ih =>
    have hbyte : (UInt8.ofNat (128 + j % 2)).toNat = 128 + j % 2 :=
      UInt8.toNat_ofNat_of_lt' (by change 128 + j % 2 < 256; omega)
    rw [numberedBytes, numberOf, ih, Nat.pow_succ', Nat.mod_mul]
    omega

/-- The top bit of every byte is set. -/
theorem testBit_of_mem_numberedBytes {width j : ℕ} {b : UInt8}
    (hb : b ∈ numberedBytes width j) : b.toNat.testBit 7 = true := by
  induction width generalizing j with
  | zero => exact absurd hb List.not_mem_nil
  | succ width ih =>
    rw [numberedBytes, List.mem_cons] at hb
    rcases hb with rfl | hb
    · rcases Nat.mod_two_eq_zero_or_one j with hj | hj
      · rw [hj]
        decide
      · rw [hj]
        decide
    · exact ih hb

def numberedId (j : ℕ) : ObjectId := ⟨numberedBytes 32 j, length_numberedBytes 32 j⟩

/-- Different numbers below `2 ^ 32` give different objects. -/
theorem numberedId_inj {i j : ℕ} (hi : i < 2 ^ 32) (hj : j < 2 ^ 32)
    (h : numberedId i = numberedId j) : i = j := by
  have hbytes : numberedBytes 32 i = numberedBytes 32 j := congrArg List.Vector.toList h
  have hnumber := congrArg numberOf hbytes
  rwa [numberOf_numberedBytes, numberOf_numberedBytes, Nat.mod_eq_of_lt hi,
    Nat.mod_eq_of_lt hj] at hnumber

/-- A hash that gives the number of an object as its index, and all ones as its check. -/
def fillingHash (input : List UInt8) : Bytes 32 :=
  if input.take 11 = hashCheckDomain then List.Vector.replicate 32 255
  else arrayOf 32 (leBytes 8 (numberOf (input.drop 11)) ++ List.replicate 24 0)

/-- The index of a numbered object is its number, in each of the three domains. -/
theorem hashIndex_fillingHash {domain : List UInt8} (hdomain : domain ∈ indexHashDomains)
    {j : ℕ} (hj : j < 2 ^ 32) (m : ℕ) :
    hashIndex fillingHash domain (numberedId j) m = j % m := by
  have hshape : ∀ d ∈ indexHashDomains, d.length = 11 ∧ d ≠ hashCheckDomain := by
    decide +kernel
  obtain ⟨hlength, hne⟩ := hshape domain hdomain
  have htake : (domain ++ (numberedId j).toList).take 11 = domain := by
    rw [List.take_append_of_le_length (by omega), List.take_of_length_le (by omega)]
  have hdrop : (domain ++ (numberedId j).toList).drop 11 = numberedBytes 32 j := by
    rw [← hlength, List.drop_left]
    rfl
  rw [hashIndex, fillingHash, htake, if_neg hne, hdrop, numberOf_numberedBytes,
    Nat.mod_eq_of_lt hj, toList_arrayOf (by simp), List.take_append_of_le_length (by simp),
    List.take_of_length_le (by simp), leNat_leBytes, Nat.mod_eq_of_lt (lt_trans hj (by decide))]

theorem hashCheckFor_fillingHash (x : ObjectId) : hashCheckFor fillingHash x = 4294967295 := by
  have hlength : hashCheckDomain.length = 11 := by decide +kernel
  have htake : (hashCheckDomain ++ x.toList).take 11 = hashCheckDomain := by
    rw [List.take_append_of_le_length (by omega), List.take_of_length_le (by omega)]
  rw [hashCheckFor, fillingHash, htake, if_pos rfl]
  decide

theorem succ_mod_eq {a m : ℕ} (ha : a < m) : (a + 1) % m = if a + 1 = m then 0 else a + 1 := by
  split_ifs with heq
  · rw [heq, Nat.mod_self]
  · exact Nat.mod_eq_of_lt (by omega)

/-- Three objects at home in one cell go to consecutive cells, going around. -/
theorem avoidIndices_consecutive {m a : ℕ} (hm : 3 ≤ m) (ha : a < m) :
    avoidIndices m [] m a = a ∧ avoidIndices m [a] m a = (a + 1) % m ∧
      avoidIndices m [a, (a + 1) % m] m a = ((a + 1) % m + 1) % m := by
  obtain ⟨k, rfl⟩ : ∃ k, m = k + 3 := ⟨m - 3, by omega⟩
  have hb := succ_mod_eq ha
  have hblt : (a + 1) % (k + 3) < k + 3 := Nat.mod_lt _ (by omega)
  have hc := succ_mod_eq hblt
  generalize hbdef : (a + 1) % (k + 3) = b at hb hblt hc ⊢
  generalize hcdef : (b + 1) % (k + 3) = c at hc ⊢
  have hba : b ≠ a := by split_ifs at hb <;> omega
  have hca : c ≠ a := by split_ifs at hb hc <;> omega
  have hcb : c ≠ b := by split_ifs at hc <;> omega
  refine ⟨?_, ?_, ?_⟩
  · simp [avoidIndices]
  · simp [avoidIndices, hbdef, hba]
  · simp [avoidIndices, hbdef, hcdef, hca, hcb]

/-- The loop over three domains in which an object has one home. -/
theorem foldl_consecutive {home : List UInt8 → ℕ} {d e f : List UInt8} {m a : ℕ} (hm : 3 ≤ m)
    (ha : a < m) (hhome : ∀ domain ∈ [d, e, f], home domain = a) :
    [d, e, f].foldl (fun indices domain =>
      indices ++ [avoidIndices m indices m (home domain)]) [] =
      [a, (a + 1) % m, ((a + 1) % m + 1) % m] := by
  obtain ⟨hfirst, hsecond, hthird⟩ := avoidIndices_consecutive hm ha
  have hd : home d = a := hhome d (by simp)
  have he : home e = a := hhome e (by simp)
  have hf : home f = a := hhome f (by simp)
  simp only [List.foldl_cons, List.foldl_nil, hd, he, hf, List.nil_append, hfirst,
    List.cons_append, hsecond, hthird]

theorem indicesFor_fillingHash {m j : ℕ} (hm : 3 ≤ m) (hj : j < 2 ^ 32) :
    indicesFor fillingHash (numberedId j) m =
      [j % m, (j % m + 1) % m, ((j % m + 1) % m + 1) % m] :=
  foldl_consecutive hm (Nat.mod_lt j (by omega)) fun _ hdomain =>
    hashIndex_fillingHash hdomain hj m

/-- The bytes of an exclusive or of objects whose bytes have the top bit set. -/
theorem testBit_keyXor {S : Finset ObjectId}
    (hS : ∀ x ∈ S, ∀ i : Fin 32, (x.get i).toNat.testBit 7 = true) (i : Fin 32) :
    ((keyXor S).get i).toNat.testBit 7 = decide (S.card % 2 = 1) := by
  induction S using Finset.induction_on with
  | empty =>
    rw [keyXor, fold_empty, Bytes.zeros, List.Vector.get_replicate]
    rfl
  | insert x S hx ih =>
    have hfold : keyXor (insert x S) = Bytes.xor x (keyXor S) := fold_insert hx
    have htop := hS x (mem_insert_self x S) i
    have hrest := ih fun y hy => hS y (mem_insert_of_mem hy)
    rw [hfold, Bytes.get_xor, UInt8.toNat_xor, Nat.testBit_xor, htop, hrest,
      card_insert_of_notMem hx, Bool.true_xor]
    simp only [← decide_not, decide_eq_decide]
    omega

/-- The exclusive or of checks that are all ones. -/
theorem checkXor_fillingHash (S : Finset ObjectId) :
    checkXor fillingHash S = if S.card % 2 = 1 then 4294967295 else 0 := by
  induction S using Finset.induction_on with
  | empty => rfl
  | insert x S hx ih =>
    have hfold : checkXor fillingHash (insert x S) =
        hashCheckFor fillingHash x ^^^ checkXor fillingHash S := fold_insert hx
    rw [hfold, hashCheckFor_fillingHash, ih, card_insert_of_notMem hx]
    rcases Nat.mod_two_eq_zero_or_one S.card with hcard | hcard
    · rw [if_neg (by omega), if_pos (by omega)]
      rfl
    · rw [if_pos hcard, if_neg (by omega)]
      rfl

def numberedSet (bound : ℕ) : Finset ObjectId := (range bound).image numberedId

/-- Whether a number leads to a cell. -/
def LeadsTo (m c j : ℕ) : Prop := c ∈ [j % m, (j % m + 1) % m, ((j % m + 1) % m + 1) % m]

instance decidableLeadsTo (m c : ℕ) : DecidablePred (LeadsTo m c) :=
  fun _ => inferInstanceAs (Decidable (c ∈ [_, _, _]))

/-- Three of the numbers below `m` lead to a cell. -/
theorem count_leadsTo {m c : ℕ} (hm : 3 ≤ m) (hc : c < m) : Nat.count (LeadsTo m c) m = 3 := by
  have hset : (range m).filter (LeadsTo m c) =
      {c, if c = 0 then m - 1 else c - 1, if c < 2 then c + m - 2 else c - 2} := by
    ext j
    rw [mem_filter, mem_range, mem_insert, mem_insert, mem_singleton]
    by_cases hj : j < m
    · have hb := succ_mod_eq hj
      have hc' := succ_mod_eq (Nat.mod_lt (j + 1) (by omega : m > 0))
      rw [LeadsTo, Nat.mod_eq_of_lt hj, hc', hb]
      simp only [List.mem_cons, List.not_mem_nil, or_false]
      split_ifs <;> omega
    · split_ifs <;> omega
  rw [Nat.count_eq_card_filter_range, hset, card_eq_three]
  refine ⟨_, _, _, ?_, ?_, ?_, rfl⟩ <;> split_ifs <;> omega

/-- The numbers below a multiple of `m` lead to every cell equally often. -/
theorem count_leadsTo_mul {m c : ℕ} (hm : 3 ≤ m) (hc : c < m) (k : ℕ) :
    Nat.count (LeadsTo m c) (m * k) = 3 * k := by
  induction k with
  | zero => rfl
  | succ k ih =>
    have hshift : (fun j => LeadsTo m c (m * k + j)) = LeadsTo m c := by
      funext j
      rw [LeadsTo, Nat.mul_add_mod]
      rfl
    rw [Nat.mul_succ, Nat.count_add]
    simp only [hshift, count_leadsTo hm hc]
    omega

/-- Every cell of the sketch of numbered objects holds three of each turn. -/
theorem card_keysAt_numberedSet {m k c : ℕ} (hm : 3 ≤ m) (hc : c < m) (hk : m * k ≤ 2 ^ 32) :
    (keysAt fillingHash m (numberedSet (m * k)) c).card = 3 * k := by
  have hfilter : keysAt fillingHash m (numberedSet (m * k)) c =
      ((range (m * k)).filter (LeadsTo m c)).image numberedId := by
    ext x
    rw [Peeling.mem_residents, numberedSet, mem_image, mem_image]
    constructor
    · rintro ⟨⟨j, hj, rfl⟩, hcell⟩
      have hlt : j < 2 ^ 32 := lt_of_lt_of_le (mem_range.mp hj) hk
      rw [cellsOf, List.mem_toFinset, indicesFor_fillingHash hm hlt] at hcell
      exact ⟨j, mem_filter.mpr ⟨hj, hcell⟩, rfl⟩
    · rintro ⟨j, hj, rfl⟩
      obtain ⟨hj, hleads⟩ := mem_filter.mp hj
      have hlt : j < 2 ^ 32 := lt_of_lt_of_le (mem_range.mp hj) hk
      refine ⟨⟨j, hj, rfl⟩, ?_⟩
      rw [cellsOf, List.mem_toFinset, indicesFor_fillingHash hm hlt]
      exact hleads
  rw [hfilter, card_image_of_injOn, ← Nat.count_eq_card_filter_range, count_leadsTo_mul hm hc]
  intro i hi j hj heq
  have hbound : ∀ j ∈ (range (m * k)).filter (LeadsTo m c), j < 2 ^ 32 := fun j hj =>
    lt_of_lt_of_le (mem_range.mp (mem_filter.mp hj).1) hk
  exact numberedId_inj (hbound i hi) (hbound j hj) heq

/-- A cell with an odd number of numbered objects takes 97 bytes and those of the count. -/
theorem encodedLength_contents {m k c : ℕ} (hm : 3 ≤ m) (hc : c < m) (hk : m * k ≤ 2 ^ 32)
    (hodd : k % 2 = 1) :
    (contents fillingHash (fun _ => 1) (keysAt fillingHash m (numberedSet (m * k)) c)).encodedLength
      = 97 + countLength (3 * k : ℕ) := by
  have hcard := card_keysAt_numberedSet hm hc hk
  have hparity : (keysAt fillingHash m (numberedSet (m * k)) c).card % 2 = 1 := by omega
  have htop : ∀ x ∈ keysAt fillingHash m (numberedSet (m * k)) c,
      ∀ i, (x.get i).toNat.testBit 7 = true := by
    intro x hx i
    obtain ⟨j, -, rfl⟩ := mem_image.mp (Peeling.mem_residents.mp hx).1
    exact testBit_of_mem_numberedBytes (List.Vector.get_mem i (numberedId j))
  have hkey : ∀ b ∈ (keyXor (keysAt fillingHash m (numberedSet (m * k)) c)).toList,
      2 ≤ headLength b.toNat ∧ headLength b.toNat ≤ 2 := by
    intro b hb
    obtain ⟨i, rfl⟩ := (List.Vector.mem_iff_get b _).mp hb
    have hbit := testBit_keyXor htop i
    rw [hparity] at hbit
    have hge := Nat.ge_two_pow_of_testBit hbit
    refine ⟨?_, headLength_byte_le _⟩
    unfold headLength
    split_ifs <;> omega
  have hsum := sum_map_bounds hkey
  have hcheck : headLength (checkXor fillingHash
      (keysAt fillingHash m (numberedSet (m * k)) c)).toNat = 5 := by
    rw [checkXor_fillingHash, if_pos hparity]
    rfl
  rw [List.Vector.toList_length] at hsum
  rw [IbltCell.encodedLength, contents]
  simp only [sum_const, nsmul_eq_mul, mul_one, hcard]
  omega

end FullCells

namespace GossipState

variable {Xor8 : Type} {xorf : Xorf Xor8} {zoneId : ZoneId} {config : GossipConfig}

/-- Announcements of objects, one after the other. -/
def announceAll (objects : List ObjectId) : List GossipCall :=
  objects.map fun objectId => .announceObject objectId 0

theorem sketched_run_announceAll (blake3 : List UInt8 → Bytes 32) (objects : List ObjectId) :
    (run blake3 xorf zoneId config (announceAll objects)).ibltMask =
        IbltMask.forZone blake3 zoneId ∧
      (run blake3 xorf zoneId config (announceAll objects)).sketched =
        objects.toFinset.image (IbltMask.forZone blake3 zoneId).apply := by
  induction objects using List.reverseRecOn with
  | nil => exact ⟨rfl, rfl⟩
  | append_singleton objects x ih =>
    obtain ⟨hmask, hsketched⟩ := ih
    have hcalls : announceAll (objects ++ [x]) = announceAll objects ++ [.announceObject x 0] :=
      List.map_append
    rw [hcalls, run_append_singleton]
    generalize run blake3 xorf zoneId config (announceAll objects) = s at hmask hsketched ⊢
    have hset : (objects ++ [x]).toFinset.image (IbltMask.forZone blake3 zoneId).apply =
        insert (s.ibltMask.apply x) s.sketched := by
      rw [hsketched, hmask]
      simp
    rw [hset]
    change (s.announceObject blake3 x 0).ibltMask = _ ∧ (s.announceObject blake3 x 0).sketched = _
    unfold announceObject
    split_ifs with hmem
    · exact ⟨hmask, (insert_eq_of_mem (mask_mem_maskedSet.mpr hmem)).symm⟩
    · exact ⟨hmask, maskedSet_insert s.ibltMask s.admittedObjects x⟩

/-- Announcing the numbered objects, masked, gives a sketch of them. -/
theorem exists_numberedSketch {m k : ℕ} (hm : cellCount config = m) (hk : m * k < 2 ^ 31)
    (hodd : k % 2 = 1) :
    ∃ calls, (run fillingHash xorf zoneId config calls).ibltState.encode.length =
      7 + headLength m + m * (97 + countLength (3 * k : ℕ)) := by
  have hcells : 3 ≤ m := hm ▸ ibltHashCount_le_recommendedCellCount _
  have hset : ((List.range (m * k)).map fun j =>
      (IbltMask.forZone fillingHash zoneId).apply (numberedId j)).toFinset.image
        (IbltMask.forZone fillingHash zoneId).apply = numberedSet (m * k) := by
    ext x
    simp [numberedSet, mask_mask]
  refine ⟨announceAll ((List.range (m * k)).map fun j =>
    (IbltMask.forZone fillingHash zoneId).apply (numberedId j)), ?_⟩
  have hsat : NeverSaturates fillingHash xorf zoneId config
      (announceAll ((List.range (m * k)).map fun j =>
        (IbltMask.forZone fillingHash zoneId).apply (numberedId j))) := by
    refine neverSaturates_of_length_lt ?_
    rw [announceAll, List.length_map, List.length_map, List.length_range]
    exact hk
  have hholds := (consistent_run hsat).sketch
  rw [(sketched_run_announceAll _ _).2, hset, hm] at hholds
  set t := (run fillingHash xorf zoneId config _).ibltState.iblt
  have hbounds : ∀ cell ∈ t.cells, 97 + countLength (3 * k : ℕ) ≤ cell.encodedLength ∧
      cell.encodedLength ≤ 97 + countLength (3 * k : ℕ) := by
    intro cell hcell
    obtain ⟨i, hi, hget⟩ := List.mem_iff_getElem.mp hcell
    have hlt : i < m := hholds.length_eq ▸ hi
    have hsome := hholds.getElem?_eq i hlt
    rw [List.getElem?_eq_getElem hi, hget] at hsome
    rw [Option.some.inj hsome, encodedLength_contents hcells hlt (by omega) hodd]
    exact ⟨le_refl _, le_refl _⟩
  have hsum := sum_map_bounds hbounds
  rw [hholds.length_eq] at hsum
  change (encode t.value).length = _
  rw [length_encode_iblt, hholds.length_eq]
  omega

variable (xorf config) in
/-- What a node expects of its own sketch. -/
structure OwnSketchFits (blake3 : List UInt8 → Bytes 32) (zoneId : ZoneId)
    (calls : List GossipCall) : Prop where
  length_le : (run blake3 xorf zoneId config calls).ibltState.encode.length ≤ config.maxIbltBytes
  kept : ∀ (g : MeshGossip Xor8) (epochId : String), g.config = config →
    g.zoneStates zoneId = some (run blake3 xorf zoneId config calls) →
    ∃ summary, g.createSummary blake3 zoneId epochId = some summary ∧
      summary.iblt = (run blake3 xorf zoneId config calls).ibltState.encode
  /-- A peer with the same configuration does not reject the sketch for its size. -/
  accepted : ∀ fromReader len limit,
    IbltPlaceholder.decodeWithLimits fromReader
      (run blake3 xorf zoneId config calls).ibltState.encode config.reconciliationBatchSize
      config.maxIbltBytes ≠ .error (.tooLarge len limit)

variable {blake3 : List UInt8 → Bytes 32}

theorem exists_createSummary {g : MeshGossip Xor8}
    {s : GossipState Xor8} (hstate : g.zoneStates zoneId = some s) (epochId : String) :
    ∃ summary, g.createSummary blake3 zoneId epochId = some summary ∧
      summary.iblt = if s.ibltState.encode.length > g.config.maxIbltBytes then []
        else s.ibltState.encode :=
  ⟨_, congrArg (Option.map _) hstate, rfl⟩

theorem cellCount_eq : cellCount config =
    max 64 (min (min (config.reconciliationBatchSize * 3) (2 ^ 64 - 1) + 1) (2 ^ 64 - 1) / 2) := by
  unfold cellCount Iblt.recommendedCellCount minRecommendedIbltCells
  dsimp only
  split_ifs <;> omega

theorem maxIbltBytes_eq :
    config.maxIbltBytes = max 8192 (min (config.reconciliationBatchSize * 128) 16777216) := by
  unfold GossipConfig.maxIbltBytes minIbltBytesBudget maxIbltBytesCap usizeMax
  dsimp only
  split_ifs <;> omega

/-- From a batch size of 180401 on even an empty sketch is beyond the budget. -/
theorem maxIbltBytes_lt_length_encode (hbatch : 180401 ≤ config.reconciliationBatchSize)
    (blake3 : List UInt8 → Bytes 32) (calls : List GossipCall) :
    config.maxIbltBytes < (run blake3 xorf zoneId config calls).ibltState.encode.length := by
  have hbound := (length_encode_iblt_bounds
    (run blake3 xorf zoneId config calls).ibltState.iblt).1
  have hcells : 270602 ≤ cellCount config := by
    rw [cellCount_eq]
    omega
  rw [length_cells_run] at hbound
  rw [IbltPlaceholder.encode, maxIbltBytes_eq]
  omega

/-- How many turns of numbered objects overflow the budget of a batch size. At 54 the counts
have to take five bytes, at 55 two. -/
theorem exists_overflowing_turns {batch : ℕ} (hlow : 54 ≤ batch) (hhigh : batch < 180401) :
    ∃ k, k % 2 = 1 ∧ (batch * 3 + 1) / 2 * k < 2 ^ 31 ∧
      max 8192 (batch * 128) < (batch * 3 + 1) / 2 * (97 + countLength (3 * k : ℕ)) := by
  have hfive : countLength (3 * 21847 : ℕ) = 5 := by decide
  have htwo : countLength (3 * 9 : ℕ) = 2 := by decide
  have hone : countLength (3 * 1 : ℕ) = 1 := by decide
  obtain rfl | rfl | hbatch : batch = 54 ∨ batch = 55 ∨ 56 ≤ batch := by omega
  · exact ⟨21847, by decide, by decide, by rw [hfive]; decide⟩
  · exact ⟨9, by decide, by decide, by rw [htwo]; decide⟩
  · exact ⟨1, by decide, by omega, by rw [hone]; omega⟩

/-- From a batch size of 54 on some sketch is beyond the budget. -/
theorem exists_maxIbltBytes_lt (hbatch : 54 ≤ config.reconciliationBatchSize) :
    ∃ blake3 calls,
      config.maxIbltBytes < (run blake3 xorf zoneId config calls).ibltState.encode.length := by
  by_cases hlarge : 180401 ≤ config.reconciliationBatchSize
  · exact ⟨fillingHash, [], maxIbltBytes_lt_length_encode hlarge _ _⟩
  · have hcells : cellCount config = (config.reconciliationBatchSize * 3 + 1) / 2 := by
      rw [cellCount_eq]
      omega
    obtain ⟨k, hodd, hk, hover⟩ := exists_overflowing_turns hbatch (by omega)
    obtain ⟨calls, hlength⟩ : ∃ calls,
        (run fillingHash xorf zoneId config calls).ibltState.encode.length = _ :=
      exists_numberedSketch hcells hk hodd
    refine ⟨fillingHash, calls, ?_⟩
    rw [maxIbltBytes_eq]
    omega

/-- A sketch fits whatever it holds exactly up to a batch size of 53. -/
theorem ownSketchFits_iff {Xor8 : Type} (xorf : Xorf Xor8) (config : GossipConfig)
    (zoneId : ZoneId) :
    (∀ blake3 calls, OwnSketchFits xorf config blake3 zoneId calls) ↔
      config.reconciliationBatchSize ≤ 53 := by
  constructor
  · intro hfits
    by_contra hbatch
    obtain ⟨blake3, calls, hlt⟩ : ∃ blake3 calls, config.maxIbltBytes <
        (run blake3 xorf zoneId config calls).ibltState.encode.length :=
      exists_maxIbltBytes_lt (by omega)
    exact absurd (hfits blake3 calls).length_le (not_le.mpr hlt)
  · intro hbatch blake3 calls
    have hle : (run blake3 xorf zoneId config calls).ibltState.encode.length ≤
        config.maxIbltBytes := by
      have hbound := (length_encode_iblt_bounds
        (run blake3 xorf zoneId config calls).ibltState.iblt).2
      have hcells : cellCount config ≤ 80 := by
        rw [cellCount_eq]
        omega
      have hhead : headLength (cellCount config) ≤ 2 := by
        unfold headLength
        split_ifs <;> omega
      rw [length_cells_run] at hbound
      rw [IbltPlaceholder.encode, maxIbltBytes_eq]
      omega
    refine ⟨hle, fun g epochId hconfig hstate => ?_, fun fromReader len limit => ?_⟩
    · obtain ⟨summary, hsummary, hiblt⟩ := exists_createSummary hstate epochId
      refine ⟨summary, hsummary, ?_⟩
      rw [hiblt, hconfig, if_neg (not_lt.mpr hle)]
    · unfold IbltPlaceholder.decodeWithLimits
      rw [if_neg (not_lt.mpr hle)]
      split_ifs
      · simp
      · split
        · simp
        · dsimp only
          split_ifs <;> simp

/-- With a batch size of 200000 a node drops its own sketch, whatever it has announced. -/
theorem dropped_own_sketch :
    ∃ config : GossipConfig, config.reconciliationBatchSize = 200000 ∧
      ∀ (blake3 : List UInt8 → Bytes 32) (xorf : Xorf Unit) (zoneId : ZoneId)
        (calls : List GossipCall) (localNode : NodeId) (epochId : String),
        config.maxIbltBytes < (run blake3 xorf zoneId config calls).ibltState.encode.length ∧
        ∃ summary, MeshGossip.createSummary blake3
            ⟨localNode, config, fun _ => some (run blake3 xorf zoneId config calls)⟩ zoneId
            epochId = some summary ∧ summary.iblt = [] := by
  obtain ⟨config, hbatch⟩ : ∃ config : GossipConfig, config.reconciliationBatchSize = 200000 :=
    ⟨⟨10000, 100000, 200000⟩, rfl⟩
  refine ⟨config, hbatch, fun blake3 xorf zoneId calls localNode epochId => ?_⟩
  have hlt : config.maxIbltBytes <
      (run blake3 xorf zoneId config calls).ibltState.encode.length :=
    maxIbltBytes_lt_length_encode (by omega) blake3 calls
  have hstate : (MeshGossip.mk localNode config fun _ =>
      some (run blake3 xorf zoneId config calls)).zoneStates zoneId =
        some (run blake3 xorf zoneId config calls) := rfl
  obtain ⟨summary, hsummary, hiblt⟩ := exists_createSummary hstate epochId
  refine ⟨hlt, summary, hsummary, ?_⟩
  rw [hiblt, if_pos hlt]

end GossipState

end Flywheel.Mesh
