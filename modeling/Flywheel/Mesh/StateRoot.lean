import Flywheel.Data.Bytes
import Flywheel.Data.MerkleTrees

/-!
# Merkle state roots

The `MerkleTree` of `fcp-mesh`, the fallback for state roots. A leaf binds its index and the number
of leaves, the direction of each step of a proof follows from the index, and an odd level duplicates
its last node. BLAKE3 is a parameter, and what is assumed of it is that the inputs that are hashed
do not collide.
-/

namespace Flywheel.Mesh

open Flywheel.Data List

abbrev SlotValue := Bytes 32

/-- The input of `hash_leaf`. Casts to `u64` keep eight bytes. -/
def leafInput (index count : ℕ) (slot : SlotValue) : List UInt8 :=
  0x00 :: (leBytes 8 index ++ leBytes 8 count ++ slot.toList)

/-- The input of `hash_node`. -/
def nodeInput (children : Bytes 32 × Bytes 32) : List UInt8 :=
  0x01 :: (children.1.toList ++ children.2.toList)

/-- `tree_height`: the bits of `count - 1`. -/
def treeHeight (count : ℕ) : ℕ := if count ≤ 1 then 0 else Nat.log2 (count - 1) + 1

def zeroDigest : Bytes 32 := List.Vector.replicate 32 0

structure MerkleProof where
  index : UInt64
  siblings : List (Bytes 32)

/-- `MerkleTree`, from the leaves to the root. -/
structure MerkleTree where
  levels : List (List (Bytes 32))

variable (tree : MerkleTree)

def MerkleTree.root : Bytes 32 :=
  (tree.levels.getLast?.bind getLast?).getD zeroDigest

def MerkleTree.leafCount : ℕ := tree.levels.head?.elim 0 length

def MerkleTree.prove (index : ℕ) : Option MerkleProof :=
  if tree.leafCount ≤ index then none
  else some ⟨UInt64.ofNat index, siblings zeroDigest index tree.levels.dropLast⟩

variable (blake3 : List UInt8 → Bytes 32)

def hashLeaf (index count : ℕ) (slot : SlotValue) : Bytes 32 := blake3 (leafInput index count slot)

def hashNode (children : Bytes 32 × Bytes 32) : Bytes 32 := blake3 (nodeInput children)

variable (slots : List SlotValue)

def leafInputs : List (List UInt8) :=
  slots.mapIdx fun i slot => leafInput i slots.length slot

def MerkleTree.new : MerkleTree :=
  if slots.isEmpty then ⟨[[zeroDigest]]⟩
  else ⟨Data.levels (hashNode blake3) ((leafInputs slots).map blake3)⟩

def MerkleTree.verify (root : Bytes 32) (count index : ℕ) (value : SlotValue)
    (proof : MerkleProof) : Bool :=
  if count ≤ index ∨ proof.index ≠ UInt64.ofNat index ∨
      proof.siblings.length ≠ treeHeight count then
    false
  else climb (hashNode blake3) index (hashLeaf blake3 index count value) proof.siblings = root

/-- Everything that is hashed to build a tree. -/
def treeInputs : List (List UInt8) :=
  leafInputs slots ++
    (MerkleTree.new blake3 slots).levels.dropLast.flatMap fun level => (pairs level).map nodeInput

/-- Everything that is hashed to verify a proof. -/
def pathInputs (count index : ℕ) (value : SlotValue) (proof : MerkleProof) : List (List UInt8) :=
  leafInput index count value ::
    (climbPairs (hashNode blake3) index (hashLeaf blake3 index count value) proof.siblings).map
      nodeInput

/-! ### Inputs -/

theorem nodeInput_injective : Function.Injective nodeInput := by
  intro p q h
  obtain ⟨hleft, hright⟩ := append_inj (cons.inj h).2 (by simp)
  exact Prod.ext (Vector.eq _ _ hleft) (Vector.eq _ _ hright)

theorem leafInput_inj {i j m n : ℕ} {v w : SlotValue} (hi : i < 2 ^ 64) (hj : j < 2 ^ 64)
    (hm : m < 2 ^ 64) (hn : n < 2 ^ 64) (h : leafInput i m v = leafInput j n w) :
    i = j ∧ m = n ∧ v = w := by
  obtain ⟨hwords, hslot⟩ := append_inj (cons.inj h).2 (by simp)
  obtain ⟨hindex, hcount⟩ := append_inj hwords (by simp)
  exact ⟨leBytes_inj (by omega) (by omega) hindex, leBytes_inj (by omega) (by omega) hcount,
    Vector.eq _ _ hslot⟩

theorem mem_leafInputs {slots : List SlotValue} {x : List UInt8} :
    x ∈ leafInputs slots ↔
      ∃ (i : ℕ) (hi : i < slots.length), x = leafInput i slots.length slots[i] := by
  simp only [leafInputs, mem_mapIdx, eq_comm]

/-! ### Trees -/

theorem treeHeight_half {n : ℕ} (hn : 1 < n) : treeHeight n = treeHeight ((n + 1) / 2) + 1 := by
  rcases eq_or_ne n 2 with rfl | htwo
  · decide
  · have hpred : (n - 1) / 2 = (n + 1) / 2 - 1 := by omega
    unfold treeHeight
    rw [if_neg (by omega), if_neg (by omega), Nat.log2_def, if_pos (by omega), hpred]

variable {blake3}

/-- A tree has as many levels as `tree_height` says, and the leaves. -/
theorem length_levels {α : Type} {node : α × α → α} {leaves : List α} (hne : leaves ≠ []) :
    (levels node leaves).length = treeHeight leaves.length + 1 := by
  fun_induction levels node leaves with
  | case1 leaves hlong ih =>
    have hpairs : (pairs leaves).map node ≠ [] := by
      rw [← length_pos_iff, length_map, length_pairs]
      omega
    rw [length_cons, ih hpairs, length_map, length_pairs, treeHeight_half hlong]
  | case2 leaves hshort =>
    rw [treeHeight, if_pos (by omega)]
    rfl

variable (blake3) {slots : List SlotValue}

theorem MerkleTree.new_of_ne_nil (hne : slots ≠ []) :
    (MerkleTree.new blake3 slots).levels =
      Data.levels (hashNode blake3) ((leafInputs slots).map blake3) := by
  rw [new, if_neg (by simpa using hne)]

variable {i : ℕ}

theorem getD_map_leafInputs (hi : i < slots.length) :
    ((leafInputs slots).map blake3).getD i zeroDigest =
      hashLeaf blake3 i slots.length slots[i] := by
  simp [leafInputs, hi, hashLeaf]

/-- The root is what the path beside any leaf climbs to. -/
theorem MerkleTree.root_new (hi : i < slots.length) :
    (MerkleTree.new blake3 slots).root =
      climb (hashNode blake3) i (hashLeaf blake3 i slots.length slots[i])
        (siblings zeroDigest i (MerkleTree.new blake3 slots).levels.dropLast) := by
  have hne : slots ≠ [] := ne_nil_of_length_pos (by omega)
  have hlast := getLast?_levels (hashNode blake3) zeroDigest ((leafInputs slots).map blake3)
    (by simpa [leafInputs] using hi)
  rw [getD_map_leafInputs blake3 hi] at hlast
  rw [root, new_of_ne_nil blake3 hne, hlast]
  rfl

/-- What an honest proof hashes was hashed to build the tree. -/
theorem pathInputs_subset (hi : i < slots.length) (index : UInt64) {x : List UInt8}
    (hx : x ∈ pathInputs blake3 slots.length i slots[i]
      ⟨index, siblings zeroDigest i (MerkleTree.new blake3 slots).levels.dropLast⟩) :
    x ∈ treeInputs blake3 slots := by
  have hne : slots ≠ [] := ne_nil_of_length_pos (by omega)
  rcases mem_cons.mp hx with rfl | hx
  · exact mem_append_left _ (mem_leafInputs.mpr ⟨i, hi, rfl⟩)
  · obtain ⟨p, hp, rfl⟩ := mem_map.mp hx
    rw [MerkleTree.new_of_ne_nil blake3 hne, ← getD_map_leafInputs blake3 hi] at hp
    obtain ⟨level, hlevel, hmem⟩ :=
      climbPairs_siblings _ zeroDigest (by simpa [leafInputs] using hi) hp
    refine mem_append_right _ (mem_flatMap.mpr ⟨level, ?_, mem_map_of_mem hmem⟩)
    rwa [MerkleTree.new_of_ne_nil blake3 hne]

/-- A leaf whose path ends in the root of a tree is a leaf of that tree. -/
theorem leafInput_mem_of_climb (hne : slots ≠ []) {count index : ℕ} {value : SlotValue}
    {proof : MerkleProof}
    (hfree : Set.InjOn blake3
      {x | x ∈ treeInputs blake3 slots ∨ x ∈ pathInputs blake3 count index value proof})
    (hroot : climb (hashNode blake3) index (hashLeaf blake3 index count value) proof.siblings =
      (MerkleTree.new blake3 slots).root) :
    leafInput index count value ∈ leafInputs slots := by
  have hleaf : leafInput index count value ∈ pathInputs blake3 count index value proof :=
    mem_cons_self
  have hjoined : ∀ level ∈ (MerkleTree.new blake3 slots).levels.dropLast, ∀ p ∈ pairs level,
      nodeInput p ∈ treeInputs blake3 slots := fun level hlevel p hp =>
    mem_append_right _ (mem_flatMap.mpr ⟨level, hlevel, mem_map_of_mem hp⟩)
  have htop : (levels (hashNode blake3) ((leafInputs slots).map blake3)).getLast? =
      some [(MerkleTree.new blake3 slots).root] := by
    have hpos : 0 < slots.length := length_pos_iff.mpr hne
    rw [MerkleTree.root_new blake3 hpos, MerkleTree.new_of_ne_nil blake3 hne,
      ← getD_map_leafInputs blake3 hpos]
    exact getLast?_levels _ _ _ (by simpa [leafInputs] using hpos)
  rw [MerkleTree.new_of_ne_nil blake3 hne] at hjoined
  rcases climb_mem_top htop (mem_singleton.mpr hroot) fun q hq level hlevel p hp hhash =>
      nodeInput_injective (hfree (.inr (mem_cons_of_mem _ (mem_map_of_mem hq)))
        (.inl (hjoined level hlevel p hp)) hhash) with
    ⟨below, above, hpath, hbelow⟩ | ⟨level, hlevel, p, hp, hnode⟩
  · obtain ⟨x, hx, hhash⟩ := mem_map.mp hbelow
    have hxtree : x ∈ treeInputs blake3 slots := mem_append_left _ hx
    rcases eq_nil_or_concat' below with rfl | ⟨path, beside, rfl⟩
    · rwa [hfree (.inl hxtree) (.inr hleaf) hhash] at hx
    · rw [append_assoc, singleton_append] at hpath
      obtain ⟨q, hq, hclimb, -⟩ := climb_concat (hashNode blake3) index
        (hashLeaf blake3 index count value) beside path above
      rw [← hpath] at hq
      obtain ⟨i, hi, rfl⟩ := mem_leafInputs.mp hx
      have heq := hfree (.inl hxtree) (.inr (mem_cons_of_mem _ (mem_map_of_mem hq)))
        (hhash.trans hclimb)
      exact absurd (cons.inj heq).1 (by decide)
  · have heq := hfree (.inr hleaf) (.inl (hjoined level hlevel p hp)) hnode
    exact absurd (cons.inj heq).1 (by decide)

/-! ### Completeness and soundness -/

theorem MerkleTree.verify_prove (hi : i < slots.length) :
    ∃ proof, (MerkleTree.new blake3 slots).prove i = some proof ∧
      proof.siblings = siblings zeroDigest i (MerkleTree.new blake3 slots).levels.dropLast ∧
      MerkleTree.verify blake3 (MerkleTree.new blake3 slots).root slots.length i slots[i]
        proof = true := by
  have hne : slots ≠ [] := ne_nil_of_length_pos (by omega)
  have hcount : (MerkleTree.new blake3 slots).leafCount = slots.length := by
    rw [leafCount, new_of_ne_nil blake3 hne]
    simp [leafInputs]
  refine ⟨_, if_neg (by omega), rfl, ?_⟩
  have hheight : (siblings zeroDigest i (MerkleTree.new blake3 slots).levels.dropLast).length =
      treeHeight slots.length := by
    rw [length_siblings, length_dropLast, new_of_ne_nil blake3 hne,
      length_levels (by simpa [leafInputs] using hne)]
    simp [leafInputs]
  rw [verify, if_neg (by simp only [hheight, ne_eq, not_true, or_false, not_le]; exact hi),
    decide_eq_true_eq]
  exact (root_new blake3 hi).symm

/-- A proof that verifies against a root is for a slot of its list. -/
theorem MerkleTree.sound (hlen : slots.length < 2 ^ 64) (hne : slots ≠ []) {count index : ℕ}
    {value : SlotValue} {proof : MerkleProof} (hcount : count < 2 ^ 64)
    (hfree : Set.InjOn blake3
      {x | x ∈ treeInputs blake3 slots ∨ x ∈ pathInputs blake3 count index value proof})
    (hverify : MerkleTree.verify blake3 (MerkleTree.new blake3 slots).root count index value
      proof = true) :
    count = slots.length ∧ ∃ hi : index < slots.length, value = slots[index] := by
  rw [verify] at hverify
  split at hverify
  · cases hverify
  obtain ⟨i, hi, hinput⟩ :=
    mem_leafInputs.mp (leafInput_mem_of_climb blake3 hne hfree (of_decide_eq_true hverify))
  obtain ⟨rfl, rfl, rfl⟩ := leafInput_inj (by omega) (by omega) hcount hlen hinput
  exact ⟨rfl, hi, rfl⟩

/-- The root of a list that is not empty is a digest of something that was hashed. -/
theorem MerkleTree.exists_root (hne : slots ≠ []) :
    ∃ x ∈ treeInputs blake3 slots, (MerkleTree.new blake3 slots).root = blake3 x := by
  have hpos : 0 < slots.length := length_pos_iff.mpr hne
  rw [root_new blake3 hpos]
  have hinputs := fun x => pathInputs_subset blake3 hpos 0 (x := x)
  rcases eq_nil_or_concat'
      (siblings zeroDigest 0 (MerkleTree.new blake3 slots).levels.dropLast) with
    hnil | ⟨path, beside, hpath⟩
  · rw [hnil]
    exact ⟨_, hinputs _ mem_cons_self, rfl⟩
  · obtain ⟨q, hq, hclimb, -⟩ := climb_concat (hashNode blake3) 0
      (hashLeaf blake3 0 slots.length slots[0]) beside path []
    rw [hpath, hclimb]
    refine ⟨_, hinputs _ (mem_cons_of_mem _ (mem_map_of_mem ?_)), rfl⟩
    rwa [hpath]

/-- `MerkleTree` proofs are complete and sound, and slot lists have different roots. The empty list
has the all-zero root, which is told from the others as long as nothing that was hashed gives it. -/
theorem MerkleTree.complete_and_sound (blake3 : List UInt8 → Bytes 32) (slots : List SlotValue)
    (hlen : slots.length < 2 ^ 64) (hne : slots ≠ []) :
    (∀ (i : ℕ) (hi : i < slots.length), ∃ proof,
      (MerkleTree.new blake3 slots).prove i = some proof ∧
        MerkleTree.verify blake3 (MerkleTree.new blake3 slots).root slots.length i slots[i]
          proof = true) ∧
    (∀ count index value proof, count < 2 ^ 64 →
      Set.InjOn blake3
        {x | x ∈ treeInputs blake3 slots ∨ x ∈ pathInputs blake3 count index value proof} →
      MerkleTree.verify blake3 (MerkleTree.new blake3 slots).root count index value proof = true →
      count = slots.length ∧ ∃ hi : index < slots.length, value = slots[index]) ∧
    ∀ slots' : List SlotValue, slots'.length < 2 ^ 64 →
      Set.InjOn blake3 {x | x ∈ treeInputs blake3 slots ∨ x ∈ treeInputs blake3 slots'} →
      (slots' = [] → ∀ x ∈ treeInputs blake3 slots, blake3 x ≠ zeroDigest) → slots ≠ slots' →
      (MerkleTree.new blake3 slots).root ≠ (MerkleTree.new blake3 slots').root := by
  refine ⟨fun i hi => ?_, fun count index value proof hcount hfree hverify =>
    sound blake3 hlen hne hcount hfree hverify, fun slots' hlen' hfree hzero hdistinct hroot => ?_⟩
  · obtain ⟨proof, hprove, -, hverify⟩ := verify_prove blake3 hi
    exact ⟨proof, hprove, hverify⟩
  rcases eq_or_ne slots' [] with rfl | hne'
  · obtain ⟨x, hx, hdigest⟩ := exists_root blake3 hne
    exact hzero rfl x hx (hdigest.symm.trans hroot)
  · -- Each slot of the other list has a proof against its root, which is this root.
    have hslot : ∀ (i) (hi),
        slots'.length = slots.length ∧ ∃ hi' : i < slots.length, slots'[i] = slots[i] := by
      intro i hi
      obtain ⟨⟨index, path⟩, -, hpath, hverify⟩ := verify_prove blake3 hi
      rw [← hroot] at hverify
      refine sound blake3 hlen hne hlen' (hfree.mono fun x hx => ?_) hverify
      subst hpath
      exact hx.imp id (pathInputs_subset blake3 hi index)
    refine hdistinct (ext_getElem ?_ fun i hi hi' => (hslot i hi').2.2.symm)
    exact (hslot 0 (length_pos_iff.mpr hne')).1.symm

def onesSlot : SlotValue := List.Vector.replicate 32 1

def twoSlots : List SlotValue := [zeroDigest, onesSlot]

/-- BLAKE3 on what is hashed for them. -/
def blake3OfTwoSlots (input : List UInt8) : Bytes 32 :=
  arrayOf 32 (beBytes 32 (
    if input = leafInput 0 2 zeroDigest then
      0x9e23323b7dc1a1c72608ecc1f38a373e54887cae34bbcd395a6c1666968b4289
    else if input = leafInput 1 2 onesSlot then
      0x9f524a7dabebe1a144000518deb51eaaf6ab8b50f0f11dc37178355380b166a6
    else 0xe78a7b9908b4544186a612d1ec589d21bc6f883b393222ee1774321ded165e70))

/-- The second slot has a proof, which verifies for nothing else. -/
theorem second_of_two_slots_proved : ∃ proof,
    (MerkleTree.new blake3OfTwoSlots twoSlots).prove 1 = some proof ∧
      MerkleTree.verify blake3OfTwoSlots (MerkleTree.new blake3OfTwoSlots twoSlots).root 2 1
        onesSlot proof = true ∧
      ∃ hi : 1 < twoSlots.length, onesSlot = twoSlots[1] := by
  obtain ⟨hcomplete, hsound, -⟩ := MerkleTree.complete_and_sound blake3OfTwoSlots twoSlots
    (by decide) (by decide)
  obtain ⟨proof, hprove, hverify⟩ := hcomplete 1 (by decide)
  refine ⟨proof, hprove, hverify, (hsound 2 1 _ proof (by decide) ?_ hverify).2⟩
  rw [MerkleTree.prove, if_neg (by decide +kernel)] at hprove
  cases hprove
  have hinj : ∀ x ∈ treeInputs blake3OfTwoSlots twoSlots,
      ∀ y ∈ treeInputs blake3OfTwoSlots twoSlots,
        blake3OfTwoSlots x = blake3OfTwoSlots y → x = y := by
    decide +kernel
  have hinputs := fun x => pathInputs_subset blake3OfTwoSlots
    (show 1 < twoSlots.length by decide) 1 (x := x)
  intro x hx y hy
  exact hinj x (hx.elim id (hinputs x)) y (hy.elim id (hinputs y))

end Flywheel.Mesh
