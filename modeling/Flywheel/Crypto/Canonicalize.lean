import Flywheel.Core.CanonicalCbor
import Mathlib.Data.List.GetD
import Mathlib.Data.List.Induction

/-!
# The bytes that are signed

`to_deterministic_cbor` of `fcp-crypto`: the second canonicalizer of the code base. It sorts the
positions of a map's entries by the encoded keys, which it keeps in one arena, and has no limit on
sizes. Within the size limit of the first canonicalizer both produce the same bytes.
-/

namespace Flywheel.Crypto

open Flywheel.Data Flywheel.Core List
open Flywheel.Data.Cbor (Value)

/-- Errors of the canonicalizer, with their text. -/
inductive CryptoError
  | serializationError (message : String)
  deriving DecidableEq

/-- `MAX_CANONICALIZATION_DEPTH` of `fcp-crypto`. -/
def maxCanonicalizationDepth : ℕ := 128

section Model

variable (encode : Value → List UInt8)

/-- All keys encoded one after the other, and for each where it starts and how long it is. -/
structure KeyArena where
  arena : List UInt8
  keyOffsets : List (ℕ × ℕ)

namespace KeyArena

variable (keys : KeyArena)

def push (key : Value) : KeyArena :=
  let start := keys.arena.length
  let arena := keys.arena ++ encode key
  let len := arena.length - start
  ⟨arena, keys.keyOffsets ++ [(start, len)]⟩

/-- The arena of the keys of a map. -/
def build (entries : List (Value × Value)) : KeyArena :=
  entries.foldl (fun keys entry => keys.push encode entry.1) ⟨[], []⟩

/-- The length of key `i`. -/
def len (i : ℕ) : ℕ := (keys.keyOffsets.getD i (0, 0)).2

/-- The bytes of key `i`. -/
def slice (i : ℕ) : List UInt8 :=
  (keys.arena.drop (keys.keyOffsets.getD i (0, 0)).1).take (keys.len i)

/-- The first of two adjacent positions with equal keys. -/
def duplicate (keys : KeyArena) : List ℕ → Option ℕ
  | a :: b :: positions =>
    if keys.len a = keys.len b ∧ keys.slice a = keys.slice b then some a
    else duplicate keys (b :: positions)
  | _ => none

end KeyArena

/-- The end of `canonicalize_map`: sort the positions of the entries by their keys, refuse equal
keys and apply the permutation. -/
def sortEntries (entries : List (Value × Value)) : Except CryptoError (List (Value × Value)) :=
  let keys := KeyArena.build encode entries
  let sortIdx := (range entries.length).insertionSort fun a b => keys.slice a ≤ keys.slice b
  match keys.duplicate sortIdx with
  | some a => .error (.serializationError s!"duplicate map key: {hexEncode (keys.slice a)}")
  | none => .ok (sortIdx.filterMap fun i => entries[i]?)

def canonicalizeFloat (bits : UInt64) : Except CryptoError Value :=
  if Value.nonFinite bits then
    .error (.serializationError "non-finite float not allowed in canonical CBOR")
  else .ok (.float (if bits = negativeZero then 0 else bits))

mutual

/-- `canonicalize_value_in_place` of `fcp-crypto`. -/
def canonicalizeValue (v : Value) (depth : ℕ) : Except CryptoError Value :=
  if maxCanonicalizationDepth < depth then
    .error (.serializationError
      s!"canonicalization depth {depth} exceeds limit {maxCanonicalizationDepth}")
  else
    match v with
    | .float bits => canonicalizeFloat bits
    | .array items => (canonicalizeItems items (depth + 1)).map .array
    | .map entries => do
      let entries ← canonicalizeEntries entries (depth + 1)
      (sortEntries encode entries).map .map
    | .tag tag _ =>
      .error (.serializationError s!"CBOR tag {tag} not allowed in deterministic CBOR")
    | .integer n => .ok (.integer n)
    | .bytes bytes => .ok (.bytes bytes)
    | .text text => .ok (.text text)
    | .bool b => .ok (.bool b)
    | .null => .ok .null

/-- The items of an array, one after the other. -/
def canonicalizeItems (items : List Value) (depth : ℕ) : Except CryptoError (List Value) :=
  match items with
  | [] => .ok []
  | item :: items => do
    let item ← canonicalizeValue item depth
    let items ← canonicalizeItems items depth
    return item :: items

/-- The first pass of `canonicalize_map`: keys and values, one entry after the other. -/
def canonicalizeEntries (entries : List (Value × Value)) (depth : ℕ) :
    Except CryptoError (List (Value × Value)) :=
  match entries with
  | [] => .ok []
  | (key, value) :: entries => do
    let key ← canonicalizeValue key depth
    let value ← canonicalizeValue value depth
    let entries ← canonicalizeEntries entries depth
    return (key, value) :: entries

end

/-- `to_deterministic_cbor`. The text of an error of `Value::serialized` is a parameter. -/
def toDeterministicCbor {T : Type} (valueError : T → String) (serde : Serde T) (value : T) :
    Except CryptoError (List UInt8) :=
  match serde.serialized value with
  | none => .error (.serializationError (valueError value))
  | some v => (canonicalizeValue encode v 0).map encode

end Model

section Sorting

variable {encode : Value → List UInt8}

/-- The keys of a map with their bytes. -/
def keyedEntries (encode : Value → List UInt8) (entries : List (Value × Value)) :
    List KeyedEntry := entries.map fun entry => (encode entry.1, entry)

/-- What the arena holds for a key. -/
structure KeyArena.Holds (keys : KeyArena) (i : ℕ) (bytes : List UInt8) : Prop where
  end_le : (keys.keyOffsets.getD i (0, 0)).1 + keys.len i ≤ keys.arena.length
  len_eq : keys.len i = bytes.length
  slice_eq : keys.slice i = bytes

/-- Another key leaves the earlier ones where they are. -/
theorem KeyArena.Holds.push {keys : KeyArena} {i : ℕ} {bytes : List UInt8} (h : keys.Holds i bytes)
    (hi : i < keys.keyOffsets.length) (key : Value) : (keys.push encode key).Holds i bytes := by
  have hoffset : (keys.push encode key).keyOffsets.getD i (0, 0) =
      keys.keyOffsets.getD i (0, 0) := getD_append _ _ _ _ hi
  have hlen : (keys.push encode key).len i = keys.len i := congrArg Prod.snd hoffset
  have hend := h.end_le
  refine ⟨?_, hlen.trans h.len_eq, ?_⟩
  · rw [hoffset, hlen]
    simp only [KeyArena.push, length_append]
    omega
  · rw [← h.slice_eq, slice, slice, hoffset, hlen]
    simp only [KeyArena.push]
    rw [drop_append_of_le_length (by omega), take_append_of_le_length]
    rw [length_drop]
    omega

/-- A new key is found at the end. -/
theorem KeyArena.holds_push (keys : KeyArena) (key : Value) :
    (keys.push encode key).Holds keys.keyOffsets.length (encode key) := by
  have hoffset : (keys.push encode key).keyOffsets.getD keys.keyOffsets.length (0, 0) =
      (keys.arena.length, (encode key).length) := by
    simp [KeyArena.push]
  have hlen : (keys.push encode key).len keys.keyOffsets.length = (encode key).length :=
    congrArg Prod.snd hoffset
  refine ⟨?_, hlen, ?_⟩
  · rw [hoffset, hlen]
    simp [KeyArena.push]
  · rw [slice, hlen]
    simp [KeyArena.push]

/-- The arena holds the keys of the map in their order. -/
theorem KeyArena.holds_build (encode : Value → List UInt8) (entries : List (Value × Value)) :
    (build encode entries).keyOffsets.length = entries.length ∧
      ∀ (i : ℕ) (hi : i < entries.length), (build encode entries).Holds i (encode entries[i].1) := by
  induction entries using reverseRecOn with
  | nil => exact ⟨rfl, fun i hi => absurd hi (Nat.not_lt_zero i)⟩
  | append_singleton entries entry ih =>
    obtain ⟨hlength, hholds⟩ := ih
    have hbuild : build encode (entries ++ [entry]) =
        (build encode entries).push encode entry.1 := by
      rw [build, foldl_append]
      rfl
    rw [hbuild]
    refine ⟨?_, fun i hi => ?_⟩
    · simp [KeyArena.push, hlength]
    · rcases Nat.lt_or_ge i entries.length with hlt | hge
      · rw [getElem_append_left hlt]
        exact (hholds i hlt).push (by omega) _
      · obtain rfl : i = entries.length := by
          rw [length_append, length_singleton] at hi
          omega
        rw [getElem_append_right (le_refl _)]
        simp only [Nat.sub_self, getElem_cons_zero]
        rw [← hlength]
        exact holds_push _ _

/-- The positions sorted by key are the entries sorted by key. -/
theorem map_sortIdx (entries : List (Value × Value)) :
    ((range entries.length).insertionSort fun a b =>
        (KeyArena.build encode entries).slice a ≤ (KeyArena.build encode entries).slice b).map
      (fun i => ((KeyArena.build encode entries).slice i, entries.getD i (.null, .null))) =
      sortByKey (keyedEntries encode entries) := by
  rw [map_insertionSort _ (s := fun a b : KeyedEntry => a.1 ≤ b.1) _ _ fun _ _ _ _ => Iff.rfl]
  congr 1
  refine ext_getElem (by simp [keyedEntries]) fun i hi hi' => ?_
  have hlt : i < entries.length := by simpa using hi
  simp [keyedEntries, ((KeyArena.holds_build encode entries).2 i hlt).slice_eq, hlt]

/-- Equal adjacent keys are found in the arena as among the entries. -/
theorem KeyArena.duplicate_eq_none_iff (keys : KeyArena) (entryAt : ℕ → Value × Value)
    {positions : List ℕ} (hlen : ∀ i ∈ positions, keys.len i = (keys.slice i).length) :
    keys.duplicate positions = none ↔
      duplicateKey (positions.map fun i => (keys.slice i, entryAt i)) = none := by
  induction positions with
  | nil => exact ⟨fun _ => rfl, fun _ => rfl⟩
  | cons a positions ih =>
    cases positions with
    | nil => exact ⟨fun _ => rfl, fun _ => rfl⟩
    | cons b positions =>
      have hrest := ih fun i hi => hlen i (mem_cons_of_mem a hi)
      have ha := hlen a mem_cons_self
      have hb := hlen b (mem_cons_of_mem a mem_cons_self)
      simp only [map_cons, duplicate, duplicateKey]
      by_cases heq : keys.slice a = keys.slice b
      · have hlens : keys.len a = keys.len b := by rw [ha, hb, heq]
        simp [heq, hlens]
      · rw [if_neg (fun h => heq h.2), if_neg heq]
        exact hrest

/-- A map's entries are accepted when no two keys are equal, and are then sorted by key. -/
theorem sortEntries_eq_ok_iff {entries sorted : List (Value × Value)} :
    sortEntries encode entries = .ok sorted ↔
      sortedMap (keyedEntries encode entries) = .ok (.map sorted) := by
  have hpositions : ∀ i ∈ (range entries.length).insertionSort fun a b =>
      (KeyArena.build encode entries).slice a ≤ (KeyArena.build encode entries).slice b,
      i < entries.length := fun i hi => mem_range.mp ((mem_insertionSort _).mp hi)
  have hduplicate := KeyArena.duplicate_eq_none_iff (KeyArena.build encode entries)
    (fun i => entries.getD i (.null, .null)) fun i hi => by
      have hholds := (KeyArena.holds_build encode entries).2 i (hpositions i hi)
      rw [hholds.len_eq, hholds.slice_eq]
  rw [map_sortIdx] at hduplicate
  have hsorted : (((range entries.length).insertionSort fun a b =>
        (KeyArena.build encode entries).slice a ≤ (KeyArena.build encode entries).slice b).filterMap
      fun i => entries[i]?) = (sortByKey (keyedEntries encode entries)).map (·.2) := by
    rw [← map_sortIdx, map_map, ← filterMap_eq_map]
    refine filterMap_congr fun i hi => ?_
    have hlt := hpositions i hi
    simp [hlt]
  rw [sortEntries, sortedMap]
  simp only [hsorted]
  cases hkey : duplicateKey (sortByKey (keyedEntries encode entries)) with
  | none =>
    rw [hduplicate.mpr hkey]
    simp
  | some key =>
    have hsome := mt hduplicate.mp (by rw [hkey]; exact Option.some_ne_none key)
    obtain ⟨a, ha⟩ := Option.ne_none_iff_exists'.mp hsome
    rw [ha]
    simp

end Sorting

section Agreement

variable {encode : Value → List UInt8} {depth : ℕ}

/-- The items of an array are brought into canonical form one by one. -/
theorem canonicalizeItems_eq_ok_iff {items items' : List Value} :
    canonicalizeItems encode items depth = .ok items' ↔
      Forall₂ (fun item item' => canonicalizeValue encode item depth = .ok item')
        items items' := by
  refine eq_ok_iff_forall₂ (g := (canonicalizeItems encode · depth)) ?_ fun item items => ?_
  · rw [canonicalizeItems]
  · rfl

/-- An entry of a map and its canonical form. -/
def EntryForm (encode : Value → List UInt8) (depth : ℕ) (entry entry' : Value × Value) : Prop :=
  canonicalizeValue encode entry.1 depth = .ok entry'.1 ∧
    canonicalizeValue encode entry.2 depth = .ok entry'.2

/-- The entries of a map are brought into canonical form one by one. -/
theorem canonicalizeEntries_eq_ok_iff {entries entries' : List (Value × Value)} :
    canonicalizeEntries encode entries depth = .ok entries' ↔
      Forall₂ (EntryForm encode depth) entries entries' := by
  have hform : EntryForm encode depth = fun entry entry' =>
      ((canonicalizeValue encode entry.1 depth).bind fun key =>
        (canonicalizeValue encode entry.2 depth).map (key, ·)) = .ok entry' := by
    ext entry entry'
    rw [EntryForm]
    cases canonicalizeValue encode entry.1 depth <;>
      cases canonicalizeValue encode entry.2 depth <;>
      simp [Except.bind, Except.map, Prod.ext_iff]
  rw [hform]
  refine eq_ok_iff_forall₂ (g := (canonicalizeEntries encode · depth)) ?_ fun entry entries => ?_
  · rw [canonicalizeEntries]
  · rw [canonicalizeEntries]
    cases canonicalizeValue encode entry.1 depth <;>
      cases canonicalizeValue encode entry.2 depth <;> rfl

/-- The bytes of all keys and values. -/
def entryBytes (encode : Value → List UInt8) (entries : List (Value × Value)) : ℕ :=
  (entries.map fun entry => (encode entry.1).length + (encode entry.2).length).sum

/-- What the CBOR format implies about lengths: every item takes at least a byte, and the bytes of a
container include those of its members. -/
structure EncodesMembers (encode : Value → List UInt8) : Prop where
  /-- No item is empty. -/
  pos : ∀ v, 1 ≤ (encode v).length
  array_le : ∀ items item, item ∈ items → (encode item).length ≤ (encode (.array items)).length
  map_le : ∀ entries, 1 + entryBytes encode entries ≤ (encode (.map entries)).length

/-- The number of entries and the bytes of single keys, of all keys and of single values are within
the bytes of all keys and values. -/
theorem EncodesMembers.le_entryBytes (hsizes : EncodesMembers encode)
    (entries : List (Value × Value)) :
    entries.length * 2 ≤ entryBytes encode entries ∧
      keyBytesLen (keyedEntries encode entries) ≤ entryBytes encode entries ∧
      ∀ entry ∈ entries, (encode entry.1).length ≤ entryBytes encode entries ∧
        (encode entry.2).length ≤ entryBytes encode entries := by
  induction entries with
  | nil => exact ⟨le_rfl, le_rfl, fun _ hmem => absurd hmem not_mem_nil⟩
  | cons entry entries ih =>
    obtain ⟨hcount, hkeys, hentries⟩ := ih
    have hkey := hsizes.pos entry.1
    have hvalue := hsizes.pos entry.2
    simp only [entryBytes, keyBytesLen, keyedEntries, map_cons, sum_cons,
      length_cons] at hcount hkeys hentries ⊢
    refine ⟨by omega, by omega, forall_mem_cons.mpr ⟨by omega, fun other hmem => ?_⟩⟩
    have := hentries other hmem
    omega

/-- Entries with the bytes of their keys are entries in canonical form. -/
theorem forall₂_keyedForm_iff {entries : List (Value × Value)} {keyed : List KeyedEntry} :
    Forall₂ (KeyedForm encode depth) entries keyed ↔
      ∃ entries', keyed = keyedEntries encode entries' ∧
        Forall₂ (fun entry entry' =>
          Core.canonicalizeValue encode entry.1 depth = .ok entry'.1 ∧
            Core.canonicalizeValue encode entry.2 depth = .ok entry'.2) entries entries' := by
  constructor
  · intro h
    refine ⟨keyed.map (·.2), ?_, ?_⟩
    · rw [keyedEntries, map_map]
      refine (map_id keyed).symm.trans (map_congr_left fun k hk => ?_)
      obtain ⟨_, -, hform⟩ := exists_of_mem_right h hk
      exact Prod.ext hform.bytes rfl
    · rw [forall₂_map_right_iff]
      exact h.imp fun _ _ hform => ⟨hform.key, hform.value⟩
  · rintro ⟨entries', rfl, h⟩
    rw [keyedEntries, forall₂_map_right_iff]
    exact h.imp fun _ _ hform => ⟨hform.1, hform.2, rfl⟩

section Inversion

variable {c : Value}

theorem canonicalizeValue_leaf_iff {v : Value} (hv : ∀ items, v ≠ .array items)
    (hv' : ∀ entries, v ≠ .map entries) :
    canonicalizeValue encode v depth = .ok c ↔
      depth ≤ maxCanonicalizationDepth ∧ canonicalLeaf v = some c := by
  rw [canonicalizeValue.eq_def, ← not_lt]
  split_ifs with hdepth
  · simp [hdepth]
  · cases v with
    | array items => exact absurd rfl (hv items)
    | map entries => exact absurd rfl (hv' entries)
    | float bits =>
      simp only [canonicalizeFloat, canonicalLeaf]
      split_ifs <;> simp [hdepth]
    | _ => simp [canonicalLeaf, hdepth]

theorem canonicalizeValue_array_iff {items : List Value} :
    canonicalizeValue encode (.array items) depth = .ok c ↔
      depth ≤ maxCanonicalizationDepth ∧ ∃ items', c = .array items' ∧
        Forall₂ (fun item item' => canonicalizeValue encode item (depth + 1) = .ok item')
          items items' := by
  rw [canonicalizeValue, ← not_lt]
  simp only [← canonicalizeItems_eq_ok_iff]
  split_ifs with hdepth
  · simp [hdepth]
  · cases canonicalizeItems encode items (depth + 1) <;> simp [Except.map, hdepth, eq_comm]

theorem canonicalizeValue_map_iff {entries : List (Value × Value)} :
    canonicalizeValue encode (.map entries) depth = .ok c ↔
      depth ≤ maxCanonicalizationDepth ∧
        ∃ entries', Forall₂ (EntryForm encode (depth + 1)) entries entries' ∧
          sortedMap (keyedEntries encode entries') = .ok c := by
  have hmap : ∀ entries', (sortEntries encode entries').map Value.map = .ok c ↔
      sortedMap (keyedEntries encode entries') = .ok c := by
    intro entries'
    constructor
    · intro h
      obtain ⟨sorted, hsorted, rfl⟩ := map_eq_ok h
      exact sortEntries_eq_ok_iff.mp hsorted
    · intro h
      obtain ⟨rfl, -⟩ := sortedMap_eq_ok h
      rw [sortEntries_eq_ok_iff.mpr h]
      rfl
  rw [canonicalizeValue, ← not_lt]
  simp only [← canonicalizeEntries_eq_ok_iff, ← hmap]
  split_ifs with hdepth
  · simp [hdepth]
  · cases canonicalizeEntries encode entries (depth + 1) <;> simp [bind, Except.bind, hdepth]

end Inversion

/-- Within the size limit both canonicalizers bring a value into the same form. -/
theorem canonicalizeValue_iff_core (hsizes : EncodesMembers encode) (v : Value) :
    ∀ {depth : ℕ} {c : Value}, (encode c).length ≤ maxCanonicalObjectBytes →
      (canonicalizeValue encode v depth = .ok c ↔
        Core.canonicalizeValue encode v depth = .ok c) := by
  induction v using Value.induct with
  | harray items ih =>
    intro depth c hlen
    rw [canonicalizeValue_array_iff, Core.canonicalizeValue_array_iff]
    refine and_congr_right fun _ => exists_congr fun items' => and_congr_right ?_
    rintro rfl
    exact forall₂_congr_of_mem fun item hmem item' hmem' =>
      ih item hmem ((hsizes.array_le items' item' hmem').trans hlen)
  | hmap entries ih =>
    intro depth c hlen
    -- The encoded map includes all keys and values, so the limits of the first one are kept.
    have hsum : ∀ {entries'}, sortedMap (keyedEntries encode entries') = .ok c →
        1 + entryBytes encode entries' ≤ maxCanonicalObjectBytes := by
      intro entries' hmap
      have hkeyed := (sortByKey_perm (keyedEntries encode entries')).map (·.2)
      rw [keyedEntries, map_map] at hkeyed
      have hperm := hkeyed.trans (Perm.of_eq (map_id entries'))
      rw [(sortedMap_eq_ok hmap).1] at hlen
      rw [entryBytes, ← (hperm.map _).sum_nat]
      exact (hsizes.map_le _).trans hlen
    have hforms : ∀ {entries'}, sortedMap (keyedEntries encode entries') = .ok c →
        (Forall₂ (EntryForm encode (depth + 1)) entries entries' ↔ _) := fun {entries'} hmap =>
      forall₂_congr_of_mem fun entry hmem entry' hmem' => by
        have := hsum hmap
        have := (hsizes.le_entryBytes entries').2.2 entry' hmem'
        exact and_congr ((ih entry hmem).1 (by omega)) ((ih entry hmem).2 (by omega))
    rw [canonicalizeValue_map_iff, Core.canonicalizeValue_map_iff]
    constructor
    · rintro ⟨hdepth, entries', hall, hmap⟩
      have := hsum hmap
      obtain ⟨hcount, hkeys, -⟩ := hsizes.le_entryBytes entries'
      refine ⟨hdepth, ?_, _, forall₂_keyedForm_iff.mpr ⟨entries', rfl, (hforms hmap).mp hall⟩,
        by omega, hmap⟩
      rw [hall.length_eq]
      exact if_neg (by omega)
    · rintro ⟨hdepth, -, keyed, hkeyed, -, hmap⟩
      obtain ⟨entries', rfl, hall⟩ := forall₂_keyedForm_iff.mp hkeyed
      exact ⟨hdepth, entries', (hforms hmap).mpr hall, hmap⟩
  | hinteger _ | hbytes _ | hfloat _ | htext _ | hbool _ | hnull | htag _ _ _ =>
    exact fun _ => (canonicalizeValue_leaf_iff (by simp) (by simp)).trans
      (Core.canonicalizeValue_leaf_iff (by simp) (by simp)).symm

/-- The two encoders agree: what the first one returns are the bytes of the second one that are
within its size limit. So for every value within the limit both fail or both return the same
bytes. -/
theorem encoders_agree (codec : Codec) (hsizes : EncodesMembers codec.encode) {T : Type}
    (serde : Serde T) (valueError : T → String) (t : T) :
    (∀ bytes, toCanonicalCbor codec serde t = .ok bytes ↔
      toDeterministicCbor codec.encode valueError serde t = .ok bytes ∧
        bytes.length ≤ maxCanonicalObjectBytes) ∧
    ((∀ bytes, toDeterministicCbor codec.encode valueError serde t = .ok bytes →
        bytes.length ≤ maxCanonicalObjectBytes) →
      (∃ bytes, toCanonicalCbor codec serde t = .ok bytes ∧
        toDeterministicCbor codec.encode valueError serde t = .ok bytes) ∨
      ∃ e e', toCanonicalCbor codec serde t = .error e ∧
        toDeterministicCbor codec.encode valueError serde t = .error e') := by
  have hiff : ∀ bytes, toCanonicalCbor codec serde t = .ok bytes ↔
      toDeterministicCbor codec.encode valueError serde t = .ok bytes ∧
        bytes.length ≤ maxCanonicalObjectBytes := by
    intro bytes
    rw [toCanonicalCbor_eq_ok_iff, toDeterministicCbor]
    cases serde.serialized t with
    | none => simp
    | some v =>
      constructor
      · rintro ⟨v', c, hv, hc, rfl, hlen⟩
        cases hv
        simp only [(canonicalizeValue_iff_core hsizes v hlen).mpr hc]
        exact ⟨rfl, hlen⟩
      · rintro ⟨h, hlen⟩
        obtain ⟨c, hc, rfl⟩ := map_eq_ok h
        exact ⟨v, c, rfl, (canonicalizeValue_iff_core hsizes v hlen).mp hc, rfl, hlen⟩
  refine ⟨hiff, fun hlimit => ?_⟩
  cases hcrypto : toDeterministicCbor codec.encode valueError serde t with
  | ok bytes => exact .inl ⟨bytes, (hiff bytes).mpr ⟨hcrypto, hlimit bytes hcrypto⟩, rfl⟩
  | error e' =>
    cases hcore : toCanonicalCbor codec serde t with
    | ok bytes =>
      have hok := ((hiff bytes).mp hcore).1
      cases hcrypto.symm.trans hok
    | error e => exact .inr ⟨e, e', rfl, rfl⟩

end Agreement

theorem length_encodeEntries (entries : List (Value × Value)) :
    (Cbor.encodeEntries entries).length = entryBytes Cbor.encode entries := by
  induction entries with
  | nil => rfl
  | cons entry entries ih =>
    rw [Cbor.encodeEntries, length_append, length_append, ih]
    simp only [entryBytes, map_cons, sum_cons]
    omega

/-- The codec of this development encodes members inside their containers. -/
theorem cborCodec_encodesMembers : EncodesMembers cborCodec.encode where
  pos := Cbor.encode_length_pos
  array_le items item hmem := by
    have hle := (Cbor.length_le_encodeItems items).2 item hmem
    change (Cbor.encode item).length ≤ (Cbor.encode (.array items)).length
    rw [Cbor.encode.eq_def (.array items), length_append]
    omega
  map_le entries := by
    have hhead := Cbor.head_length_pos 5 entries.length
    change 1 + entryBytes Cbor.encode entries ≤ (Cbor.encode (.map entries)).length
    rw [Cbor.encode.eq_def (.map entries), length_append, length_encodeEntries]
    omega

/-- A map that is not sorted and holds a negative zero. -/
def unsortedMap : Value := .map [(.text "b", .bool true), (.text "a", .float negativeZero)]

/-- Both encoders sort the map and drop the sign. -/
theorem unsortedMap_encoders_agree :
    toDeterministicCbor cborCodec.encode (fun _ => "") (valueSerde cborCodec) unsortedMap =
        .ok [0xa2,0x61,0x61,0xfb,0,0,0,0,0,0,0,0,0x61,0x62,0xf5] ∧
      toCanonicalCbor cborCodec (valueSerde cborCodec) unsortedMap =
        .ok [0xa2,0x61,0x61,0xfb,0,0,0,0,0,0,0,0,0x61,0x62,0xf5] := by
  refine ⟨by decide +kernel, ?_⟩
  exact ((encoders_agree cborCodec cborCodec_encodesMembers (valueSerde cborCodec)
    (fun _ => "") unsortedMap).1 _).mpr ⟨by decide +kernel, by decide⟩

end Flywheel.Crypto
