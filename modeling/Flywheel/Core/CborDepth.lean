import Flywheel.Core.CanonicalCbor

/-!
# The two limits on nesting

Canonicalization counts the containers around a value and the decoder counts the containers it
enters, both up to the same limit. The counts differ on empty containers: one that lies inside as
many containers as the limit allows is serialized, and refused when it is read back. All other
values that the serializer accepts are read back.
-/

namespace Flywheel.Core

open Flywheel.Data List
open Flywheel.Data.Cbor (Value Reader DecodeError)

section Depth

variable {encode : Value → List UInt8} {depth : ℕ}

/-- The values directly inside a value are brought into canonical form one level deeper, and are
inside its canonical form. -/
theorem exists_canonical_member {v c m : Value}
    (h : canonicalizeValue encode v depth = .ok c) (hm : m ∈ v.members) :
    ∃ m' ∈ c.members, canonicalizeValue encode m (depth + 1) = .ok m' := by
  cases v with
  | array items =>
    obtain ⟨-, items', rfl, hitems⟩ := canonicalizeValue_array_iff.mp h
    exact exists_of_mem_right hitems.flip hm
  | map entries =>
    obtain ⟨-, -, keyed, hforms, -, h⟩ := canonicalizeValue_map_iff.mp h
    obtain ⟨rfl, -⟩ := sortedMap_eq_ok h
    refine Value.forall_mem_members_map (P := fun m => ∃ m' ∈ Value.members _,
      canonicalizeValue encode m (depth + 1) = .ok m').mpr (fun entry hentry => ?_) m hm
    obtain ⟨k, hk, hform⟩ := exists_of_mem_right hforms.flip hentry
    have hmem : k.2 ∈ (sortByKey keyed).map (·.2) :=
      mem_map_of_mem ((sortByKey_perm keyed).mem_iff.mpr hk)
    exact ⟨⟨k.2.1, mem_append_left _ (mem_map_of_mem hmem), hform.key⟩,
      k.2.2, mem_append_right _ (mem_map_of_mem hmem), hform.value⟩
  | tag t v => cases ((canonicalizeValue_leaf_iff (by simp) (by simp)).mp h).2
  | integer _ | bytes _ | float _ | text _ | bool _ | null => cases hm

/-- Canonicalization keeps containers and other values apart. -/
theorem isContainer_of_canonicalizeValue {v c : Value}
    (h : canonicalizeValue encode v depth = .ok c) : c.isContainer = v.isContainer := by
  cases v with
  | array items =>
    obtain ⟨-, _, rfl, -⟩ := canonicalizeValue_array_iff.mp h
    rfl
  | map entries =>
    obtain ⟨-, -, _, -, -, h⟩ := canonicalizeValue_map_iff.mp h
    obtain ⟨rfl, -⟩ := sortedMap_eq_ok h
    rfl
  | integer _ | bytes _ | float _ | text _ | bool _ | null | tag _ _ =>
    obtain ⟨-, hleaf⟩ := (canonicalizeValue_leaf_iff (by simp) (by simp)).mp h
    obtain ⟨hv, hc, -⟩ := canonicalLeaf_spec hleaf
    rw [hv, hc]

/-- A canonical form nests as deeply as the value. -/
theorem nestedWithin_of_canonicalForm {v c : Value} {depth n : ℕ}
    (h : canonicalizeValue encode v depth = .ok c) (hc : c.NestedWithin n) : v.NestedWithin n := by
  induction n generalizing v c depth with
  | zero =>
    rw [Value.nestedWithin_zero_iff] at hc ⊢
    rw [← isContainer_of_canonicalizeValue h, hc]
  | succ n ih =>
    rw [Value.nestedWithin_succ_iff] at hc ⊢
    intro m hm
    obtain ⟨m', hm', hok⟩ := exists_canonical_member h hm
    exact ih hok (hc m' hm')

/-- In a value that is brought into canonical form, no value lies too deep. -/
theorem placedWithin_of_canonicalizeValue (v : Value) :
    ∀ {depth : ℕ} {c : Value}, canonicalizeValue encode v depth = .ok c →
      v.PlacedWithin (maxCanonicalizationDepth - depth) := by
  induction v using Value.induct_members with
  | h v ih =>
    intro depth c h
    rcases eq_nil_or_concat v.members with hnil | ⟨_, m, hmembers⟩
    · exact .here hnil
    · have hm : m ∈ v.members := by rw [hmembers]; simp
      obtain ⟨_, -, hok⟩ := exists_canonical_member h hm
      have hdepth := depth_le_of_canonicalizeValue hok
      have hsucc : maxCanonicalizationDepth - depth =
          maxCanonicalizationDepth - (depth + 1) + 1 := by omega
      rw [hsucc]
      refine .inside fun m hm => ?_
      obtain ⟨_, -, hok⟩ := exists_canonical_member h hm
      exact ih m hm hok

def SerializationError.IsDepth : SerializationError → Prop
  | .depthExceeded _ _ => True
  | _ => False

variable {e : SerializationError}

/-- An array is refused for its depth only if an item is. -/
theorem exists_item_of_error {items : List Value}
    (h : canonicalizeItems encode items depth = .error e) :
    ∃ item ∈ items, canonicalizeValue encode item depth = .error e := by
  induction items with
  | nil => rw [canonicalizeItems] at h; cases h
  | cons item items ih =>
    rcases bind_eq_error h with hitem | ⟨item', -, h⟩
    · exact ⟨item, mem_cons_self, hitem⟩
    rcases bind_eq_error h with hitems | ⟨items', -, h⟩
    · obtain ⟨other, hmem, hother⟩ := ih hitems
      exact ⟨other, mem_cons_of_mem _ hmem, hother⟩
    · cases h

theorem not_isDepth_of_mapKeyBytes {key : Value} {used : ℕ}
    (h : mapKeyBytes encode key used = .error e) : ¬ e.IsDepth := by
  rw [mapKeyBytes] at h
  split_ifs at h <;> cases h <;> exact id

/-- The entries of a map are refused for their depth only if a key or a value is. -/
theorem exists_entry_of_error {entries : List (Value × Value)} {depth used : ℕ} (hdepth : e.IsDepth)
    (h : canonicalizeEntries encode entries depth used = .error e) :
    ∃ entry ∈ entries, canonicalizeValue encode entry.1 depth = .error e ∨
      canonicalizeValue encode entry.2 depth = .error e := by
  induction entries generalizing used with
  | nil => rw [canonicalizeEntries] at h; cases h
  | cons entry entries ih =>
    obtain ⟨key, value⟩ := entry
    rcases bind_eq_error h with hkey | ⟨key', -, h⟩
    · exact ⟨(key, value), mem_cons_self, .inl hkey⟩
    rcases bind_eq_error h with hvalue | ⟨value', -, h⟩
    · exact ⟨(key, value), mem_cons_self, .inr hvalue⟩
    rcases bind_eq_error h with hbytes | ⟨bytes, -, h⟩
    · exact absurd hdepth (not_isDepth_of_mapKeyBytes hbytes)
    rcases bind_eq_error h with hentries | ⟨keyed, -, h⟩
    · obtain ⟨other, hmem, hother⟩ := ih hentries
      exact ⟨other, mem_cons_of_mem _ hmem, hother⟩
    · cases h

/-- A value within the limit is refused for its depth only if a value directly inside is. -/
theorem exists_member_of_error {v : Value}
    (hle : depth ≤ maxCanonicalizationDepth) (hdepth : e.IsDepth)
    (h : canonicalizeValue encode v depth = .error e) :
    ∃ m ∈ v.members, canonicalizeValue encode m (depth + 1) = .error e := by
  rw [← not_lt] at hle
  cases v with
  | array items =>
    rw [canonicalizeValue, if_neg hle] at h
    cases hitems : canonicalizeItems encode items (depth + 1) <;> rw [hitems] at h <;> cases h
    exact exists_item_of_error hitems
  | map entries =>
    rw [canonicalizeValue, if_neg hle] at h
    rcases bind_eq_error h with hlen | ⟨_, -, h⟩
    · rw [checkMapLen] at hlen
      split_ifs at hlen
      cases hlen
      cases hdepth
    rcases bind_eq_error h with hkeyed | ⟨keyed, -, h⟩
    · obtain ⟨entry, hmem, hentry | hentry⟩ := exists_entry_of_error hdepth hkeyed
      · exact ⟨entry.1, mem_append_left _ (mem_map_of_mem hmem), hentry⟩
      · exact ⟨entry.2, mem_append_right _ (mem_map_of_mem hmem), hentry⟩
    · rw [sortedMap] at h
      split at h <;> cases h
      cases hdepth
  | float bits =>
    rw [canonicalizeValue, if_neg hle, canonicalizeFloat] at h
    split_ifs at h
    cases h
    cases hdepth
  | tag t v =>
    rw [canonicalizeValue, if_neg hle] at h
    cases h
    cases hdepth
  | integer _ | bytes _ | text _ | bool _ | null =>
    rw [canonicalizeValue, if_neg hle] at h
    cases h

/-- A value in which nothing lies too deep is not refused for its depth. -/
theorem not_isDepth_of_placedWithin (v : Value) :
    ∀ {depth : ℕ} {e : SerializationError}, depth ≤ maxCanonicalizationDepth →
      v.PlacedWithin (maxCanonicalizationDepth - depth) →
      canonicalizeValue encode v depth = .error e → ¬ e.IsDepth := by
  induction v using Value.induct_members with
  | h v ih =>
    intro depth e hle hplaced h hdepth
    obtain ⟨m, hm, hmember⟩ := exists_member_of_error hle hdepth h
    obtain ⟨k, heq, hmplaced⟩ := hplaced.of_mem hm
    obtain rfl : maxCanonicalizationDepth - (depth + 1) = k := by omega
    exact ih m hm (by omega) hmplaced hmember hdepth

end Depth

section RoundTrip

variable {blake3 : List UInt8 → Bytes 32} {codec : Codec} {schema : SchemaId} {T : Type}
  {serde : Serde T}

/-- What a type's serde implementation documents: a value of the type is read back from the
canonical form of its CBOR representation, within the recursion limit. -/
def Serde.ReadsBack (codec : Codec) (serde : Serde T) : Prop :=
  ∀ t v c, serde.serialized t = some v → canonicalizeValue codec.encode v 0 = .ok c →
    ∀ limit, c.NestedWithin limit → (codec.encode c).length < 2 ^ 64 →
      serde.read limit (codec.encode c) = .ok (t, [])

/-- A serialized object is read exactly if no empty container lies at the limit, provided that the
type reads the canonical form of an object that nests within the limit. -/
theorem Codec.Correct.deserialize_iff (hcodec : codec.Correct) {data : List UInt8} {v c : Value}
    {t : T} (hc : canonicalizeValue codec.encode v 0 = .ok c)
    (hdata : data = (schema.hash blake3).toList ++ codec.encode c)
    (hlen : data.length ≤ maxCanonicalObjectBytes) (hread : v.NestedWithin maxCanonicalizationDepth →
      serde.read maxCanonicalizationDepth (codec.encode c) = .ok (t, [])) :
    deserialize blake3 codec serde data schema = .ok t ↔ ¬ v.EmptyAt maxCanonicalizationDepth := by
  have hform := canonicalForm_of_canonicalizeValue v hc
  have hbytes := encode_length_lt hdata hlen
  refine Iff.trans ?_ (placedWithin_of_canonicalizeValue v hc).nestedWithin_iff
  constructor
  · intro h
    obtain ⟨w, hbody, hw, hdata', hlen, -⟩ := hcodec.carried h
    have heq := append_cancel_left (hdata'.symm.trans hdata)
    obtain rfl : w = c := hcodec.encode_inj (canonicalForm_of_canonicalizeValue w hw).plain
      hform.plain (encode_length_lt hdata' hlen) heq
    exact nestedWithin_of_canonicalForm hc (hcodec.limited ((bodyValue_eq_ok_iff hdata').mp hbody))
  · intro hnested
    have hback := hcodec.decode_written hc hnested hbytes
    exact deserialize_eq_ok_iff.mpr ⟨c, c, (bodyValue_eq_ok_iff hdata).mpr hback, hform.again,
      hdata, hlen, hread hnested⟩

/-- A value that the serializer accepts is read back from its bytes with the same schema exactly if
no empty array or map lies inside as many containers as the limit; a dynamic value is read back in
canonical form. For a value that canonicalization refuses for no other reason than its depth,
canonicalizer and decoder agree about the depth exactly if it is not the case that an empty
container lies at the limit and nothing lies deeper. -/
theorem round_trip_iff (blake3 : List UInt8 → Bytes 32) (codec : Codec) (hcodec : codec.Correct)
    (schema : SchemaId) :
    (∀ (T : Type) (serde : Serde T), serde.ReadsBack codec → ∀ (t : T) (v : Value)
      (data : List UInt8), serde.serialized t = some v →
      serialize blake3 codec serde t schema = .ok data →
      (deserialize blake3 codec serde data schema = .ok t ↔
        ¬ v.EmptyAt maxCanonicalizationDepth)) ∧
    (∀ (v : Value) (data : List UInt8),
      serialize blake3 codec (valueSerde codec) v schema = .ok data →
      ∃ c, canonicalizeValue codec.encode v 0 = .ok c ∧
        (deserialize blake3 codec (valueSerde codec) data schema = .ok c ↔
          ¬ v.EmptyAt maxCanonicalizationDepth)) ∧
    (∀ v : Value, v.Plain → (codec.encode v).length < 2 ^ 64 →
      (∀ e, canonicalizeValue codec.encode v 0 = .error e → e.IsDepth) →
      (((∃ c, canonicalizeValue codec.encode v 0 = .ok c) ↔
          codec.decode maxCanonicalizationDepth (codec.encode v) = .ok (v, [])) ↔
        ¬ (v.PlacedWithin maxCanonicalizationDepth ∧ v.EmptyAt maxCanonicalizationDepth))) := by
  refine ⟨fun T serde hserde t v data hv h => ?_, fun v data h => ?_, fun v hplain hlen hother => ?_⟩
  · obtain ⟨v', c, hv', hc, hdata, hlen⟩ := serialize_eq_ok_iff.mp h
    cases hv.symm.trans hv'
    refine hcodec.deserialize_iff hc hdata hlen fun hnested => ?_
    exact hserde t v c hv hc _ ((canonicalForm_of_canonicalizeValue v hc).nested _ hnested)
      (encode_length_lt hdata hlen)
  · obtain ⟨v', c, hv', hc, hdata, hlen⟩ := serialize_eq_ok_iff.mp h
    cases hv'
    exact ⟨c, hc, hcodec.deserialize_iff hc hdata hlen fun hnested =>
      hcodec.decode_written hc hnested (encode_length_lt hdata hlen)⟩
  · have hdecode : codec.decode maxCanonicalizationDepth (codec.encode v) = .ok (v, []) ↔
        v.NestedWithin maxCanonicalizationDepth := by
      refine ⟨hcodec.limited, fun hnested => ?_⟩
      have hback := hcodec.reads_back hplain hnested hlen []
      rwa [append_nil] at hback
    have hcanonical : (∃ c, canonicalizeValue codec.encode v 0 = .ok c) ↔
        v.PlacedWithin maxCanonicalizationDepth := by
      constructor
      · rintro ⟨c, hc⟩
        exact placedWithin_of_canonicalizeValue v hc
      · intro hplaced
        cases hv : canonicalizeValue codec.encode v 0 with
        | ok c => exact ⟨c, rfl⟩
        | error e =>
          exact absurd (hother e hv) (not_isDepth_of_placedWithin v (Nat.zero_le _) hplaced hv)
    rw [hcanonical, hdecode]
    constructor
    · rintro hagree ⟨hplaced, hempty⟩
      exact hplaced.nestedWithin_iff.mp (hagree.mp hplaced) hempty
    · intro hnot
      refine ⟨fun hplaced => hplaced.nestedWithin_iff.mpr fun hempty => hnot ⟨hplaced, hempty⟩, ?_⟩
      exact Value.NestedWithin.placedWithin

end RoundTrip

/-- Arrays inside each other, the innermost one empty. -/
def nestedArrays : ℕ → Value
  | 0 => .array []
  | n + 1 => .array [nestedArrays n]

/-- The object with an empty array inside 128 others. -/
def nestedArraysData : List UInt8 := replicate 32 0 ++ replicate 128 0x81 ++ [0x80]

/-- An empty array inside 128 others is serialized, and refused when it is read back. -/
theorem nestedArrays_refused :
    serialize (fun _ => arrayOf 32 []) cborCodec (valueSerde cborCodec) (nestedArrays 128)
        demoSchema = .ok nestedArraysData ∧
      deserialize (fun _ => arrayOf 32 []) cborCodec (valueSerde cborCodec) nestedArraysData
        demoSchema = .error (.depthExceeded 129 128) := by
  refine ⟨by decide +kernel, ?_⟩
  have herror : (match deserialize (fun _ => arrayOf 32 []) cborCodec (valueSerde cborCodec)
      nestedArraysData demoSchema with
    | .error e => decide (e = .depthExceeded 129 128)
    | .ok _ => false) = true := by decide +kernel
  cases h : deserialize (fun _ => arrayOf 32 []) cborCodec (valueSerde cborCodec)
      nestedArraysData demoSchema with
  | error e =>
    rw [h] at herror
    rw [of_decide_eq_true herror]
  | ok v =>
    rw [h] at herror
    cases herror

/-- The representation of the demo structure is in canonical form. -/
theorem canonicalizeValue_demo (n : Cbor.Integer) :
    canonicalizeValue cborCodec.encode (.map [(.text "a", .integer n)]) 0 =
      .ok (.map [(.text "a", .integer n)]) := by
  have hdepth : ∀ depth ≤ 1, ¬ maxCanonicalizationDepth < depth := by decide
  have hkey : mapKeyBytes cborCodec.encode (.text "a") 0 = .ok [0x61, 0x61] := by decide +kernel
  simp only [length_singleton, canonicalizeEntries, canonicalizeValue,
    if_neg (hdepth 1 (by omega)), hkey, bind, Except.bind]
  rfl

/-- The demo structure is read back from its canonical form. -/
theorem demoSerde_readsBack : demoSerde.ReadsBack cborCodec := by
  intro a v c hv hc limit hnested hlen
  cases hv
  rw [canonicalizeValue_demo] at hc
  cases hc
  have hdecode := Cbor.decode_encode hnested hlen []
  rw [append_nil] at hdecode
  have hlt := a.toNat_lt
  simp only [demoSerde, cborCodec, hdecode, bind, Except.bind, findSome?_cons, demoField]
  rw [if_pos (by omega)]
  simp

/-- The demo structure makes the round trip. -/
theorem demoData_round_trip :
    serialize (fun _ => arrayOf 32 []) cborCodec demoSerde 1 demoSchema = .ok demoData ∧
      deserialize (fun _ => arrayOf 32 []) cborCodec demoSerde demoData demoSchema = .ok 1 := by
  have hserialize : serialize (fun _ => arrayOf 32 []) cborCodec demoSerde 1 demoSchema =
      .ok demoData := by decide +kernel
  refine ⟨hserialize, ?_⟩
  refine ((round_trip_iff (fun _ => arrayOf 32 []) cborCodec cborCodec_correct demoSchema).1 UInt8
    demoSerde demoSerde_readsBack 1 _ demoData rfl hserialize).mpr ?_
  have hnested : Value.NestedWithin 1
      (.map [(.text "a", .integer ⟨((1 : UInt8).toNat), by decide⟩)]) :=
    .map (forall_mem_singleton.mpr .text) (forall_mem_singleton.mpr .integer)
  exact (placedWithin_of_canonicalizeValue _ (canonicalizeValue_demo _)).nestedWithin_iff.mp
    (hnested.mono (by decide))

end Flywheel.Core
