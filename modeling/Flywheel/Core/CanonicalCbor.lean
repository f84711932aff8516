import Flywheel.Data.Cbor
import Mathlib.Data.List.Sort

/-!
# Canonical serialization

`CanonicalSerializer` of `fcp-cbor`: a schema hash followed by deterministic CBOR.
Deserialization decodes the body into a generic CBOR value, brings it into canonical
form, and accepts only bytes that the canonical value encodes to; the typed value is
then read from those bytes. The codec and the serde implementation of the type are
parameters.
-/

namespace Flywheel.Core

open Flywheel.Data List
open Flywheel.Data.Cbor (Value Reader DecodeError)

def maxCanonicalObjectBytes : ℕ := 64 * 1024 * 1024

/-- `MAX_CANONICALIZATION_DEPTH`, which is also `MAX_DESERIALIZATION_RECURSION_LIMIT`. -/
def maxCanonicalizationDepth : ℕ := 128

inductive SerializationError
  | missingSchemaHashPrefix
  | schemaMismatch (expected got : Bytes 32)
  | payloadTooLarge (len max : ℕ)
  | depthExceeded (depth max : ℕ)
  | trailingBytes
  | nonCanonicalEncoding
  | cborValue
  | nonFiniteFloat
  | duplicateMapKey (keyHex : String)
  | unsupportedTag (tag : UInt64)
  | cborDeserialize
  deriving DecidableEq

/-- The CBOR library: `into_writer` and `from_reader_with_recursion_limit` on generic values. -/
structure Codec where
  encode : Value → List UInt8
  decode : ℕ → Reader Value

structure Serde (T : Type) where
  serialized : T → Option Value
  read : ℕ → Reader T

def mapCborDeserializeError : DecodeError → SerializationError
  | .recursionLimitExceeded =>
    .depthExceeded (maxCanonicalizationDepth + 1) maxCanonicalizationDepth
  | .malformed => .cborDeserialize

/-- `decode_cbor_body_as_value` and `deserialize_cbor_body`: read one thing and nothing after it. -/
def readBody {T : Type} (read : Reader T) (body : List UInt8) : Except SerializationError T :=
  match read body with
  | .error e => .error (mapCborDeserializeError e)
  | .ok (value, rest) => if !rest.isEmpty then .error .trailingBytes else .ok value

/-- A map entry with the canonical bytes of its key. -/
abbrev KeyedEntry := List UInt8 × Value × Value

section Canonicalization

variable (encode : Value → List UInt8)

/-- `append_canonical_map_key_bytes`: the bytes of a key, when `used` bytes of the scratch buffer
are taken. -/
def mapKeyBytes (key : Value) (used : ℕ) : Except SerializationError (List UInt8) :=
  let available := maxCanonicalObjectBytes - used
  let bytes := encode key
  if available < bytes.length then
    .error (.payloadTooLarge (maxCanonicalObjectBytes + 1) maxCanonicalObjectBytes)
  else if maxCanonicalObjectBytes < used + bytes.length then
    .error (.payloadTooLarge (used + bytes.length) maxCanonicalObjectBytes)
  else .ok bytes

/-- The stable sort of the entries by the bytes of their keys. -/
def sortByKey (entries : List KeyedEntry) : List KeyedEntry :=
  entries.insertionSort fun a b => a.1 ≤ b.1

/-- The first key that equals the one before it. -/
def duplicateKey : List KeyedEntry → Option (List UInt8)
  | left :: right :: entries =>
    if left.1 = right.1 then some right.1 else duplicateKey (right :: entries)
  | _ => none

/-- The end of `canonicalize_map_with_limit`: sort the entries and refuse equal keys. -/
def sortedMap (entries : List KeyedEntry) : Except SerializationError Value :=
  let sorted := sortByKey entries
  match duplicateKey sorted with
  | some key => .error (.duplicateMapKey (hexEncode key))
  | none => .ok (.map (sorted.map (·.2)))

/-- The bits of the float `-0.0`. -/
def negativeZero : UInt64 := 0x8000000000000000

def canonicalizeFloat (bits : UInt64) : Except SerializationError Value :=
  if Value.nonFinite bits then .error .nonFiniteFloat
  else .ok (.float (if bits = negativeZero then 0 else bits))

/-- The check of a map's size before anything is allocated for it. -/
def checkMapLen (len : ℕ) : Except SerializationError Unit :=
  let minimumPossibleLen := min (1 + min (len * 2) (2 ^ 64 - 1)) (2 ^ 64 - 1)
  if maxCanonicalObjectBytes < minimumPossibleLen then
    .error (.payloadTooLarge minimumPossibleLen maxCanonicalObjectBytes)
  else .ok ()

mutual

/-- `canonicalize_value_in_place`. -/
def canonicalizeValue (v : Value) (depth : ℕ) : Except SerializationError Value :=
  if maxCanonicalizationDepth < depth then
    .error (.depthExceeded depth maxCanonicalizationDepth)
  else
    match v with
    | .float bits => canonicalizeFloat bits
    | .array items => (canonicalizeItems items (depth + 1)).map .array
    | .map entries => do
      checkMapLen entries.length
      let keyed ← canonicalizeEntries entries (depth + 1) 0
      sortedMap keyed
    | .tag tag _ => .error (.unsupportedTag tag)
    | .integer n => .ok (.integer n)
    | .bytes bytes => .ok (.bytes bytes)
    | .text text => .ok (.text text)
    | .bool b => .ok (.bool b)
    | .null => .ok .null

/-- The items of an array, one after the other. -/
def canonicalizeItems (items : List Value) (depth : ℕ) : Except SerializationError (List Value) :=
  match items with
  | [] => .ok []
  | item :: items => do
    let item ← canonicalizeValue item depth
    let items ← canonicalizeItems items depth
    return item :: items

/-- The loop of `canonicalize_map_with_limit` over the entries, with `used` bytes in the scratch
buffer. -/
def canonicalizeEntries (entries : List (Value × Value)) (depth used : ℕ) :
    Except SerializationError (List KeyedEntry) :=
  match entries with
  | [] => .ok []
  | (key, value) :: entries => do
    let key ← canonicalizeValue key depth
    let value ← canonicalizeValue value depth
    let bytes ← mapKeyBytes encode key used
    let keyed ← canonicalizeEntries entries depth (used + bytes.length)
    return (bytes, key, value) :: keyed

end

end Canonicalization

/-! ### The serializer -/

/-- `SchemaId`, with the version as it is displayed. -/
structure SchemaId where
  nameSpace : String
  name : String
  version : String

section Serializer

variable (blake3 : List UInt8 → Bytes 32) (codec : Codec)

/-- A component of a schema in the input of its hash. -/
def lengthPrefixed (bytes : List UInt8) : List UInt8 :=
  leBytes 8 (min bytes.length (2 ^ 64 - 1)) ++ bytes

def SchemaId.hash (schema : SchemaId) : Bytes 32 :=
  blake3 (utf8 "FCP2-SCHEMA-V1" ++ lengthPrefixed (utf8 schema.nameSpace) ++
    lengthPrefixed (utf8 schema.name) ++ lengthPrefixed (utf8 schema.version))

/-- `write_canonical_cbor`: the canonical bytes behind what is in the buffer. -/
def writeCanonicalCbor (v : Value) (out : List UInt8) : Except SerializationError (List UInt8) :=
  if maxCanonicalObjectBytes < out.length then
    .error (.payloadTooLarge out.length maxCanonicalObjectBytes)
  else do
    let v ← canonicalizeValue codec.encode v 0
    let bytes := codec.encode v
    if maxCanonicalObjectBytes < out.length + bytes.length then
      throw (.payloadTooLarge (maxCanonicalObjectBytes + 1) maxCanonicalObjectBytes)
    return out ++ bytes

/-- `to_canonical_cbor`: the canonical bytes without a schema hash. -/
def toCanonicalCbor {T : Type} (serde : Serde T) (value : T) :
    Except SerializationError (List UInt8) := do
  match serde.serialized value with
  | none => throw .cborValue
  | some v =>
    let out ← writeCanonicalCbor codec v []
    if maxCanonicalObjectBytes < out.length then
      throw (.payloadTooLarge out.length maxCanonicalObjectBytes)
    return out

def serialize {T : Type} (serde : Serde T) (value : T) (schema : SchemaId) :
    Except SerializationError (List UInt8) := do
  match serde.serialized value with
  | none => throw .cborValue
  | some v =>
    let buf ← writeCanonicalCbor codec v (schema.hash blake3).toList
    if maxCanonicalObjectBytes < buf.length then
      throw (.payloadTooLarge buf.length maxCanonicalObjectBytes)
    return buf

def splitSchemaPrefix (data : List UInt8) : Except SerializationError (Bytes 32 × List UInt8) :=
  if data.length < 32 then .error .missingSchemaHashPrefix
  else .ok (arrayOf 32 (data.take 32), data.drop 32)

/-- `canonicalize_decoded_body`: the CBOR value of a body in canonical form. -/
def canonicalizeDecodedBody (body : List UInt8) : Except SerializationError Value := do
  let v ← readBody (codec.decode maxCanonicalizationDepth) body
  canonicalizeValue codec.encode v 0

def deserialize {T : Type} (serde : Serde T) (data : List UInt8) (expectedSchema : SchemaId) :
    Except SerializationError T :=
  if maxCanonicalObjectBytes < data.length then
    .error (.payloadTooLarge data.length maxCanonicalObjectBytes)
  else do
    let (gotHash, body) ← splitSchemaPrefix data
    let expectedHash := expectedSchema.hash blake3
    if gotHash ≠ expectedHash then .error (.schemaMismatch expectedHash gotHash)
    else do
      let canonicalBody := codec.encode (← canonicalizeDecodedBody codec body)
      if expectedHash.toList ++ canonicalBody ≠ data then .error .nonCanonicalEncoding
      else readBody (serde.read maxCanonicalizationDepth) canonicalBody

end Serializer

/-! ### Canonical forms -/

section CanonicalForms

variable {encode : Value → List UInt8} {depth : ℕ}

/-- The items of an array are brought into canonical form one by one. -/
theorem canonicalizeItems_eq_ok_iff {items items' : List Value} :
    canonicalizeItems encode items depth = .ok items' ↔
      Forall₂ (fun item item' => canonicalizeValue encode item depth = .ok item')
        items items' := by
  refine eq_ok_iff_forall₂ (g := (canonicalizeItems encode · depth)) ?_ fun item items => ?_
  · rw [canonicalizeItems]
  · rfl

/-- The bytes of a key fit when the scratch buffer has room for them. -/
theorem mapKeyBytes_eq_ok_iff {key : Value} {used : ℕ} {bytes : List UInt8}
    (hused : used ≤ maxCanonicalObjectBytes) :
    mapKeyBytes encode key used = .ok bytes ↔
      bytes = encode key ∧ used + (encode key).length ≤ maxCanonicalObjectBytes := by
  rw [mapKeyBytes]
  by_cases hfits : used + (encode key).length ≤ maxCanonicalObjectBytes
  · have hroom : ¬ maxCanonicalObjectBytes - used < (encode key).length := by omega
    simp only [if_neg hroom, if_neg (not_lt.mpr hfits), Except.ok.injEq, hfits, and_true]
    exact eq_comm
  · have hfull : maxCanonicalObjectBytes - used < (encode key).length := by omega
    simp [if_pos hfull, hfits]

/-- A keyed entry is the canonical form of an entry. -/
structure KeyedForm (encode : Value → List UInt8) (depth : ℕ) (entry : Value × Value)
    (keyed : KeyedEntry) : Prop where
  key : canonicalizeValue encode entry.1 depth = .ok keyed.2.1
  value : canonicalizeValue encode entry.2 depth = .ok keyed.2.2
  bytes : keyed.1 = encode keyed.2.1

variable (keyed : List KeyedEntry)

def keyBytesLen : ℕ := (keyed.map (·.1.length)).sum

variable {entries : List (Value × Value)}

/-- The entries of a map are brought into canonical form one by one, and the bytes of their keys
have to fit the scratch buffer. -/
theorem canonicalizeEntries_eq_ok_iff {keyed : List KeyedEntry}
    {depth used : ℕ} (hused : used ≤ maxCanonicalObjectBytes) :
    canonicalizeEntries encode entries depth used = .ok keyed ↔
      Forall₂ (KeyedForm encode depth) entries keyed ∧
        used + keyBytesLen keyed ≤ maxCanonicalObjectBytes := by
  induction entries generalizing keyed used with
  | nil =>
    rw [canonicalizeEntries, forall₂_nil_left_iff, Except.ok.injEq]
    constructor
    · rintro rfl
      exact ⟨rfl, hused⟩
    · exact fun h => h.1.symm
  | cons entry entries ih =>
    rw [canonicalizeEntries, forall₂_cons_left_iff]
    constructor
    · intro h
      obtain ⟨key', hkey, h⟩ := bind_eq_ok h
      obtain ⟨value', hvalue, h⟩ := bind_eq_ok h
      obtain ⟨bytes, hbytes, h⟩ := bind_eq_ok h
      obtain ⟨keyed', hkeyed, h⟩ := bind_eq_ok h
      cases h
      obtain ⟨rfl, hfits⟩ := (mapKeyBytes_eq_ok_iff hused).mp hbytes
      obtain ⟨hforms, hlen⟩ := (ih hfits).mp hkeyed
      refine ⟨⟨_, _, ⟨hkey, hvalue, rfl⟩, hforms, rfl⟩, ?_⟩
      simp only [keyBytesLen, map_cons, sum_cons] at hlen ⊢
      omega
    · rintro ⟨⟨⟨bytes, key', value'⟩, keyed', ⟨hkey, hvalue, hbytes⟩, hforms, rfl⟩, hlen⟩
      simp only [keyBytesLen, map_cons, sum_cons] at hlen hkey hvalue hbytes
      subst hbytes
      have hfits : used + (encode key').length ≤ maxCanonicalObjectBytes := by omega
      have hkeyed := (ih hfits).mpr ⟨hforms, by simp only [keyBytesLen]; omega⟩
      have hmapKey : mapKeyBytes encode key' used = .ok (encode key') :=
        (mapKeyBytes_eq_ok_iff hused).mpr ⟨rfl, hfits⟩
      simp only [hkey, hvalue, hmapKey, hkeyed, bind, Except.bind, pure, Except.pure]

theorem sortByKey_perm : (sortByKey keyed).Perm keyed :=
  perm_insertionSort _ _

theorem sortByKey_sortByKey : sortByKey (sortByKey keyed) = sortByKey keyed := by
  exact (pairwise_insertionSort _ keyed).insertionSort_eq

theorem sortedMap_eq_ok {keyed : List KeyedEntry} {v : Value} (h : sortedMap keyed = .ok v) :
    v = .map ((sortByKey keyed).map (·.2)) ∧ sortedMap (sortByKey keyed) = .ok v := by
  have hagain : sortedMap (sortByKey keyed) = sortedMap keyed := by
    simp only [sortedMap, sortByKey_sortByKey]
  refine ⟨?_, hagain.trans h⟩
  simp only [sortedMap] at h
  split at h
  · cases h
  · exact (Except.ok.inj h).symm

/-- What a canonical form is: plain, nested as deeply as the value, and its own canonical form. -/
structure CanonicalForm (encode : Value → List UInt8) (depth : ℕ) (v c : Value) : Prop where
  plain : c.Plain
  nested : ∀ n, v.NestedWithin n → c.NestedWithin n
  again : canonicalizeValue encode c depth = .ok c

/-- The canonical form of a value that is neither an array nor a map. -/
def canonicalLeaf : Value → Option Value
  | .float bits =>
    if Value.nonFinite bits then none
    else some (.float (if bits = negativeZero then 0 else bits))
  | .array _ | .map _ | .tag _ _ => none
  | v => some v

theorem canonicalLeaf_spec {v c : Value} (h : canonicalLeaf v = some c) :
    v.isContainer = false ∧ c.isContainer = false ∧ c.Plain ∧ canonicalLeaf c = some c := by
  cases v with
  | array _ | map _ | tag _ _ => cases h
  | float bits =>
    simp only [canonicalLeaf] at h
    split_ifs at h with hfinite hzero
    · cases h
      exact ⟨rfl, rfl, .float (by decide), rfl⟩
    · cases h
      exact ⟨rfl, rfl, .float (Bool.eq_false_iff.mpr hfinite), by simp [canonicalLeaf, *]⟩
  | integer _ | bytes _ | text _ | bool _ | null =>
    cases h
    exact ⟨rfl, rfl, by constructor, rfl⟩

section Inversion

variable {c : Value}

theorem depth_le_of_canonicalizeValue {v : Value} (h : canonicalizeValue encode v depth = .ok c) :
    depth ≤ maxCanonicalizationDepth := by
  by_contra hdepth
  rw [canonicalizeValue.eq_def, if_pos (not_le.mp hdepth)] at h
  cases h

theorem canonicalizeValue_leaf_iff {v : Value} (hv : ∀ items, v ≠ .array items)
    (hv' : ∀ entries, v ≠ .map entries) :
    canonicalizeValue encode v depth = .ok c ↔
      depth ≤ maxCanonicalizationDepth ∧ canonicalLeaf v = some c := by
  rw [canonicalizeValue.eq_def, ← not_lt]
  split_ifs with hdepth
  · simp [hdepth]
  · cases v with
    | array items => exact absurd rfl (hv items)
    | map entries => exact absurd rfl (hv' entries)
    | float bits =>
      simp only [canonicalizeFloat, canonicalLeaf]
      split_ifs <;> simp [hdepth]
    | _ => simp [canonicalLeaf, hdepth]

/-- The canonical form of an array has the canonical forms of the items. -/
theorem canonicalizeValue_array_iff {items : List Value} :
    canonicalizeValue encode (.array items) depth = .ok c ↔
      depth ≤ maxCanonicalizationDepth ∧ ∃ items', c = .array items' ∧
        Forall₂ (fun item item' => canonicalizeValue encode item (depth + 1) = .ok item')
          items items' := by
  rw [canonicalizeValue, ← not_lt]
  simp only [← canonicalizeItems_eq_ok_iff]
  split_ifs with hdepth
  · simp [hdepth]
  · cases canonicalizeItems encode items (depth + 1) <;> simp [Except.map, hdepth, eq_comm]

/-- The canonical form of a map has the canonical forms of the entries, sorted by key. -/
theorem canonicalizeValue_map_iff :
    canonicalizeValue encode (.map entries) depth = .ok c ↔
      depth ≤ maxCanonicalizationDepth ∧ checkMapLen entries.length = .ok () ∧
        ∃ keyed, Forall₂ (KeyedForm encode (depth + 1)) entries keyed ∧
          keyBytesLen keyed ≤ maxCanonicalObjectBytes ∧ sortedMap keyed = .ok c := by
  have hentries : ∀ keyed, canonicalizeEntries encode entries (depth + 1) 0 = .ok keyed ↔ _ :=
    fun keyed => canonicalizeEntries_eq_ok_iff (Nat.zero_le _)
  simp only [Nat.zero_add] at hentries
  rw [canonicalizeValue, ← not_lt]
  simp only [← and_assoc, ← hentries]
  split_ifs with hdepth
  · simp [hdepth]
  · cases checkMapLen entries.length <;>
      cases canonicalizeEntries encode entries (depth + 1) 0 <;>
      simp [bind, Except.bind, hdepth]

end Inversion

theorem CanonicalForm.of_leaf {v c : Value} (hdepth : depth ≤ maxCanonicalizationDepth)
    (h : canonicalLeaf v = some c) : CanonicalForm encode depth v c := by
  obtain ⟨-, hleaf, hplain, hagain⟩ := canonicalLeaf_spec h
  refine ⟨hplain, fun n _ => (Value.nestedWithin_zero_iff.mpr hleaf).mono (Nat.zero_le n), ?_⟩
  refine (canonicalizeValue_leaf_iff ?_ ?_).mpr ⟨hdepth, hagain⟩ <;> rintro _ rfl <;> cases hleaf

theorem canonicalForm_array {items : List Value} {c : Value}
    (ih : ∀ item ∈ items, ∀ {item'}, canonicalizeValue encode item (depth + 1) = .ok item' →
      CanonicalForm encode (depth + 1) item item')
    (h : canonicalizeValue encode (.array items) depth = .ok c) :
    CanonicalForm encode depth (.array items) c := by
  obtain ⟨hdepth, items', rfl, hitems⟩ := canonicalizeValue_array_iff.mp h
  have hform {item' : Value} (hmem : item' ∈ items') :
      ∃ item ∈ items, CanonicalForm encode (depth + 1) item item' := by
    obtain ⟨item, hitem, hok⟩ := exists_of_mem_right hitems hmem
    exact ⟨item, hitem, ih item hitem hok⟩
  refine ⟨.array fun item' hmem => ?_, fun n hnested => ?_, ?_⟩
  · obtain ⟨item, -, hitem⟩ := hform hmem
    exact hitem.plain
  · cases hnested with
    | @array n _ hnested =>
      refine .array fun item' hmem => ?_
      obtain ⟨item, hmem, hitem⟩ := hform hmem
      exact hitem.nested n (hnested item hmem)
  · refine canonicalizeValue_array_iff.mpr
      ⟨hdepth, items', rfl, forall₂_same.mpr fun item' hmem => ?_⟩
    obtain ⟨item, -, hitem⟩ := hform hmem
    exact hitem.again

theorem canonicalForm_map {c : Value} (ih : ∀ entry ∈ entries,
      (∀ {key}, canonicalizeValue encode entry.1 (depth + 1) = .ok key →
        CanonicalForm encode (depth + 1) entry.1 key) ∧
      ∀ {value}, canonicalizeValue encode entry.2 (depth + 1) = .ok value →
        CanonicalForm encode (depth + 1) entry.2 value)
    (h : canonicalizeValue encode (.map entries) depth = .ok c) :
    CanonicalForm encode depth (.map entries) c := by
  obtain ⟨hdepth, hlen, keyed, hforms, hfits, h⟩ := canonicalizeValue_map_iff.mp h
  obtain ⟨rfl, hsorted⟩ := sortedMap_eq_ok h
  have hperm := sortByKey_perm keyed
  have hform {k : KeyedEntry} (hmem : k ∈ sortByKey keyed) :
      k.1 = encode k.2.1 ∧ ∃ entry ∈ entries, CanonicalForm encode (depth + 1) entry.1 k.2.1 ∧
        CanonicalForm encode (depth + 1) entry.2 k.2.2 := by
    obtain ⟨entry, hentry, hk⟩ := exists_of_mem_right hforms (hperm.mem_iff.mp hmem)
    exact ⟨hk.bytes, entry, hentry, (ih entry hentry).1 hk.key, (ih entry hentry).2 hk.value⟩
  refine ⟨.map ?_ ?_, fun n hnested => ?_, ?_⟩
  · intro entry hmem
    obtain ⟨k, hk, rfl⟩ := mem_map.mp hmem
    obtain ⟨-, _, -, hkey, -⟩ := hform hk
    exact hkey.plain
  · intro entry hmem
    obtain ⟨k, hk, rfl⟩ := mem_map.mp hmem
    obtain ⟨-, _, -, -, hvalue⟩ := hform hk
    exact hvalue.plain
  · cases hnested with
    | @map n _ hkeys hvalues =>
      refine .map (fun entry hmem => ?_) fun entry hmem => ?_
      · obtain ⟨k, hk, rfl⟩ := mem_map.mp hmem
        obtain ⟨-, entry, hentry, hkey, -⟩ := hform hk
        exact hkey.nested n (hkeys entry hentry)
      · obtain ⟨k, hk, rfl⟩ := mem_map.mp hmem
        obtain ⟨-, entry, hentry, -, hvalue⟩ := hform hk
        exact hvalue.nested n (hvalues entry hentry)
  · refine canonicalizeValue_map_iff.mpr ⟨hdepth, ?_, sortByKey keyed, ?_, ?_, hsorted⟩
    · rwa [length_map, hperm.length_eq, ← hforms.length_eq]
    · rw [forall₂_map_left_iff, forall₂_same]
      intro k hk
      obtain ⟨hbytes, _, -, hkey, hvalue⟩ := hform hk
      exact ⟨hkey.again, hvalue.again, hbytes⟩
    · rwa [keyBytesLen, (hperm.map _).sum_nat]

theorem canonicalForm_of_canonicalizeValue (v : Value) :
    ∀ {depth : ℕ} {c : Value}, canonicalizeValue encode v depth = .ok c →
      CanonicalForm encode depth v c := by
  induction v using Value.induct with
  | harray items ih => exact canonicalForm_array fun item hmem => ih item hmem
  | hmap entries ih =>
    exact canonicalForm_map fun entry hmem => ⟨(ih entry hmem).1, (ih entry hmem).2⟩
  | hinteger _ | hbytes _ | hfloat _ | htext _ | hbool _ | hnull | htag _ _ _ =>
    intro depth c h
    obtain ⟨hdepth, hleaf⟩ := (canonicalizeValue_leaf_iff (by simp) (by simp)).mp h
    exact .of_leaf hdepth hleaf

end CanonicalForms

/-! ### Accepted bytes -/

/-- What the CBOR library documents: a plain value that fits the recursion limit is read back from
its bytes, and nothing is read that nests more deeply. -/
structure Codec.Correct (codec : Codec) : Prop where
  reads_back : ∀ {limit : ℕ} {v : Value}, v.Plain → v.NestedWithin limit →
    (codec.encode v).length < 2 ^ 64 → ∀ rest,
    codec.decode limit (codec.encode v ++ rest) = .ok (v, rest)
  limited : ∀ {limit bytes v rest}, codec.decode limit bytes = .ok (v, rest) →
    v.NestedWithin limit

theorem Codec.Correct.encode_inj {codec : Codec} (hcodec : codec.Correct) {v w : Value}
    (hv : v.Plain) (hw : w.Plain) (hlen : (codec.encode v).length < 2 ^ 64)
    (heq : codec.encode v = codec.encode w) : v = w := by
  obtain ⟨n, hn⟩ := v.exists_nestedWithin
  obtain ⟨m, hm⟩ := w.exists_nestedWithin
  have hback := hcodec.reads_back hv (hn.mono (le_max_left n m)) hlen []
  have hback' := hcodec.reads_back hw (hm.mono (le_max_right n m)) (heq ▸ hlen) []
  rw [heq, hback'] at hback
  exact (congrArg Prod.fst (Except.ok.inj hback)).symm

/-- A canonical form is read back from its bytes. -/
theorem Codec.Correct.decode_written {codec : Codec} (hcodec : codec.Correct) {v c : Value}
    {limit : ℕ} (hc : canonicalizeValue codec.encode v 0 = .ok c) (hnested : v.NestedWithin limit)
    (hlen : (codec.encode c).length < 2 ^ 64) :
    codec.decode limit (codec.encode c) = .ok (c, []) := by
  have hform := canonicalForm_of_canonicalizeValue v hc
  have hback := hcodec.reads_back hform.plain (hform.nested _ hnested) hlen []
  rwa [append_nil] at hback

/-- Generic CBOR values as a serde type. -/
def valueSerde (codec : Codec) : Serde Value := ⟨some, codec.decode⟩

/-- The generic CBOR value behind the schema hash. -/
def bodyValue (codec : Codec) (data : List UInt8) : Except SerializationError Value :=
  readBody (codec.decode maxCanonicalizationDepth) (data.drop 32)

section Accepted

variable {blake3 : List UInt8 → Bytes 32} {codec : Codec} {schema : SchemaId} {T : Type}
  {serde : Serde T}

variable {t : T}

theorem readBody_eq_ok_iff {read : Reader T} {body : List UInt8} :
    readBody read body = .ok t ↔ read body = .ok (t, []) := by
  rw [readBody]
  cases read body with
  | error e => simp
  | ok result =>
    obtain ⟨value, rest⟩ := result
    cases rest <;> simp

/-- When a value is written behind a buffer that fits. -/
theorem writeCanonicalCbor_eq_ok_iff {v : Value} {out data : List UInt8}
    (hout : out.length ≤ maxCanonicalObjectBytes) :
    writeCanonicalCbor codec v out = .ok data ↔
      ∃ c, canonicalizeValue codec.encode v 0 = .ok c ∧ data = out ++ codec.encode c ∧
        data.length ≤ maxCanonicalObjectBytes := by
  rw [writeCanonicalCbor, if_neg (not_lt.mpr hout)]
  cases canonicalizeValue codec.encode v 0 with
  | error e => simp [bind, Except.bind]
  | ok c =>
    simp only [bind, Except.bind, pure, Except.pure, Except.ok.injEq, exists_eq_left']
    split_ifs with hlen
    · refine ⟨fun h => (nomatch h), ?_⟩
      rintro ⟨rfl, hle⟩
      rw [length_append] at hle
      omega
    · rw [Except.ok.injEq]
      constructor
      · rintro rfl
        exact ⟨rfl, by rw [length_append]; omega⟩
      · exact fun h => h.1.symm

/-- The length is checked once more when the value has been written. -/
theorem checked_write_eq_ok_iff {v : Value} {out data : List UInt8}
    (hout : out.length ≤ maxCanonicalObjectBytes) :
    (writeCanonicalCbor codec v out).bind (fun buf =>
      if maxCanonicalObjectBytes < buf.length then
        .error (.payloadTooLarge buf.length maxCanonicalObjectBytes)
      else .ok buf) = .ok data ↔
      ∃ c, canonicalizeValue codec.encode v 0 = .ok c ∧ data = out ++ codec.encode c ∧
        data.length ≤ maxCanonicalObjectBytes := by
  rw [← writeCanonicalCbor_eq_ok_iff hout]
  constructor
  · intro h
    obtain ⟨buf, hbuf, h⟩ := bind_eq_ok h
    split_ifs at h
    rwa [← Except.ok.inj h]
  · intro h
    obtain ⟨_, -, -, hlen⟩ := (writeCanonicalCbor_eq_ok_iff hout).mp h
    rw [h]
    exact if_neg (not_lt.mpr hlen)

/-- When a value is serialized to some bytes. -/
theorem serialize_eq_ok_iff {data : List UInt8} :
    serialize blake3 codec serde t schema = .ok data ↔
      ∃ v c, serde.serialized t = some v ∧ canonicalizeValue codec.encode v 0 = .ok c ∧
        data = (schema.hash blake3).toList ++ codec.encode c ∧
        data.length ≤ maxCanonicalObjectBytes := by
  have hhash : (schema.hash blake3).toList.length ≤ maxCanonicalObjectBytes := by
    rw [Vector.toList_length]
    decide
  rw [serialize]
  cases serde.serialized t with
  | none => exact ⟨fun h => (nomatch h), fun ⟨v, c, h, _⟩ => (nomatch h)⟩
  | some v =>
    simp only [Option.some.injEq, exists_and_left, exists_eq_left']
    exact checked_write_eq_ok_iff hhash

/-- When a value is encoded to some bytes. -/
theorem toCanonicalCbor_eq_ok_iff {bytes : List UInt8} :
    toCanonicalCbor codec serde t = .ok bytes ↔
      ∃ v c, serde.serialized t = some v ∧ canonicalizeValue codec.encode v 0 = .ok c ∧
        bytes = codec.encode c ∧ bytes.length ≤ maxCanonicalObjectBytes := by
  rw [toCanonicalCbor]
  cases serde.serialized t with
  | none => exact ⟨fun h => (nomatch h), fun ⟨v, c, h, _⟩ => (nomatch h)⟩
  | some v =>
    simp only [Option.some.injEq, exists_and_left, exists_eq_left']
    exact checked_write_eq_ok_iff (Nat.zero_le _)

variable {data : List UInt8}

/-- Bytes start with a hash when their first 32 bytes are the hash. -/
theorem arrayOf_take_eq_iff {hash : Bytes 32} (hlen : 32 ≤ data.length) :
    arrayOf 32 (data.take 32) = hash ↔ data = hash.toList ++ data.drop 32 := by
  have htake : (data.take 32).length = 32 := by
    rw [length_take]
    omega
  constructor
  · rintro rfl
    rw [toList_arrayOf htake, take_append_drop]
  · intro h
    have heq : data.take 32 = hash.toList := by
      rw [h, take_left' hash.toList_length]
    rw [heq, arrayOf_toList]

/-- When bytes are deserialized to some value. -/
theorem deserialize_eq_ok_iff :
    deserialize blake3 codec serde data schema = .ok t ↔
      ∃ v c, bodyValue codec data = .ok v ∧ canonicalizeValue codec.encode v 0 = .ok c ∧
        data = (schema.hash blake3).toList ++ codec.encode c ∧
        data.length ≤ maxCanonicalObjectBytes ∧
        serde.read maxCanonicalizationDepth (codec.encode c) = .ok (t, []) := by
  constructor
  · intro h
    rw [deserialize] at h
    split_ifs at h with hlen
    obtain ⟨⟨gotHash, body⟩, hsplit, h⟩ := bind_eq_ok h
    rw [splitSchemaPrefix] at hsplit
    split_ifs at hsplit with hshort
    cases hsplit
    simp only at h
    split_ifs at h
    obtain ⟨c, hbody, h⟩ := bind_eq_ok h
    split_ifs at h with hdata
    obtain ⟨v, hv, hcanonical⟩ := bind_eq_ok hbody
    exact ⟨v, c, hv, hcanonical, (not_not.mp hdata).symm, not_lt.mp hlen, readBody_eq_ok_iff.mp h⟩
  · rintro ⟨v, c, hbody, hcanonical, hdata, hlen, hread⟩
    have hshort : 32 ≤ data.length := by
      rw [hdata, length_append, Vector.toList_length]
      omega
    have hdrop : codec.encode c = data.drop 32 := by
      rw [hdata, drop_left' (Vector.toList_length _)]
    have hhash := (arrayOf_take_eq_iff hshort).mpr (hdrop ▸ hdata)
    have hbody : canonicalizeDecodedBody codec (data.drop 32) = .ok c := by
      have hv : readBody (codec.decode maxCanonicalizationDepth) (data.drop 32) = .ok v := hbody
      rw [canonicalizeDecodedBody, hv]
      exact hcanonical
    rw [deserialize, if_neg (not_lt.mpr hlen), splitSchemaPrefix, if_neg (not_lt.mpr hshort)]
    simp only [bind, Except.bind, hhash, ne_eq, hbody, ← hdata]
    exact readBody_eq_ok_iff.mpr hread

theorem encode_length_lt {c : Value} (hdata : data = (schema.hash blake3).toList ++ codec.encode c)
    (hlen : data.length ≤ maxCanonicalObjectBytes) : (codec.encode c).length < 2 ^ 64 := by
  rw [hdata, length_append] at hlen
  have hmax : maxCanonicalObjectBytes < 2 ^ 64 := by decide
  omega

theorem bodyValue_eq_ok_iff {data body : List UInt8} {v : Value}
    (hdata : data = (schema.hash blake3).toList ++ body) :
    bodyValue codec data = .ok v ↔ codec.decode maxCanonicalizationDepth body = .ok (v, []) := by
  rw [bodyValue, readBody_eq_ok_iff, hdata, drop_left' (Vector.toList_length _)]

/-- Bytes that are accepted at any type carry a CBOR value in canonical form and are its encoding,
from which the value of the type is read. -/
theorem Codec.Correct.carried (hcodec : codec.Correct) {data : List UInt8}
    (h : deserialize blake3 codec serde data schema = .ok t) :
    ∃ v, bodyValue codec data = .ok v ∧ canonicalizeValue codec.encode v 0 = .ok v ∧
      data = (schema.hash blake3).toList ++ codec.encode v ∧
      data.length ≤ maxCanonicalObjectBytes ∧
      serde.read maxCanonicalizationDepth (codec.encode v) = .ok (t, []) := by
  obtain ⟨v, c, hbody, hcanonical, hdata, hlen, hread⟩ := deserialize_eq_ok_iff.mp h
  have hdecode := (bodyValue_eq_ok_iff hdata).mp hbody
  -- The canonical value is read back from the bytes that the original value was read from.
  have hback := hcodec.decode_written hcanonical (hcodec.limited hdecode)
    (encode_length_lt hdata hlen)
  rw [hdecode] at hback
  obtain rfl : v = c := congrArg Prod.fst (Except.ok.inj hback)
  exact ⟨v, hbody, hcanonical, hdata, hlen, hread⟩

/-- Accepted bytes are the serialization of the CBOR value in them, and the value of the type is
serialized to them exactly when its own CBOR representation has that canonical form. Bytes with the
same CBOR value are equal. A CBOR value that the serializer takes, within the recursion limit, is
the value of exactly one accepted byte string. -/
theorem accepted_bytes_canonical (blake3 : List UInt8 → Bytes 32) (codec : Codec)
    (hcodec : codec.Correct) (schema : SchemaId) :
    (∀ (T : Type) (serde : Serde T) (data : List UInt8) (t : T),
      deserialize blake3 codec serde data schema = .ok t →
      ∃ v, bodyValue codec data = .ok v ∧
        serialize blake3 codec (valueSerde codec) v schema = .ok data ∧
        (serialize blake3 codec serde t schema = .ok data ↔
          ∃ v', serde.serialized t = some v' ∧ canonicalizeValue codec.encode v' 0 = .ok v)) ∧
    (∀ (T : Type) (serde : Serde T) (data data' : List UInt8) (t t' : T) (v : Value),
      deserialize blake3 codec serde data schema = .ok t →
      deserialize blake3 codec serde data' schema = .ok t' →
      bodyValue codec data = .ok v → bodyValue codec data' = .ok v → data = data') ∧
    (∀ (v : Value) (data : List UInt8), v.NestedWithin maxCanonicalizationDepth →
      serialize blake3 codec (valueSerde codec) v schema = .ok data →
      ∃ c, canonicalizeValue codec.encode v 0 = .ok c ∧
        ∀ data', deserialize blake3 codec (valueSerde codec) data' schema = .ok c ↔
          data' = data) := by
  refine ⟨fun T serde data t h => ?_, fun T serde data data' t t' v h h' hv hv' => ?_,
    fun v data hnested h => ?_⟩
  · obtain ⟨v, hbody, hcanonical, hdata, hlen, -⟩ := hcodec.carried h
    refine ⟨v, hbody, serialize_eq_ok_iff.mpr ⟨v, v, rfl, hcanonical, hdata, hlen⟩, ?_⟩
    rw [serialize_eq_ok_iff]
    constructor
    · rintro ⟨v', c, hv', hc, hdata', -⟩
      have heq := append_cancel_left (hdata.symm.trans hdata')
      have hv := (canonicalForm_of_canonicalizeValue v hcanonical).plain
      have hplain := (canonicalForm_of_canonicalizeValue v' hc).plain
      rw [hcodec.encode_inj hv hplain (encode_length_lt hdata hlen) heq]
      exact ⟨v', hv', hc⟩
    · rintro ⟨v', hv', hc⟩
      exact ⟨v', v, hv', hc, hdata, hlen⟩
  · obtain ⟨w, hbody, -, hdata, -, -⟩ := hcodec.carried h
    obtain ⟨w', hbody', -, hdata', -, -⟩ := hcodec.carried h'
    cases hv.symm.trans hbody
    cases hv'.symm.trans hbody'
    rw [hdata, hdata']
  · obtain ⟨v', c, hv', hcanonical, hdata, hlen⟩ := serialize_eq_ok_iff.mp h
    cases hv'
    have hback := hcodec.decode_written hcanonical hnested (encode_length_lt hdata hlen)
    have hagain := (canonicalForm_of_canonicalizeValue v hcanonical).again
    refine ⟨c, hcanonical, fun data' => ⟨fun h' => ?_, ?_⟩⟩
    · obtain ⟨w, hbody, -, hdata', -, hread⟩ := hcodec.carried h'
      have hdecode := (bodyValue_eq_ok_iff hdata').mp hbody
      obtain rfl : w = c := congrArg Prod.fst (Except.ok.inj (hdecode.symm.trans hread))
      rw [hdata', hdata]
    · rintro rfl
      have hbody := (bodyValue_eq_ok_iff hdata).mpr hback
      exact deserialize_eq_ok_iff.mpr ⟨c, c, hbody, hagain, hdata, hlen, hback⟩

end Accepted

/-! ### What serde derives -/

def wordValue (n : UInt64) : Value :=
  .integer ⟨n.toNat, by omega, by
    have hlt := n.toNat_lt
    omega⟩

/-- An object id is a byte string. -/
def objectIdValue (id : Bytes 32) : Value := .bytes id.toList

/-! ### A type that ignores what it does not know -/

/-- The codec of the CBOR library of this development. -/
def cborCodec : Codec := ⟨Cbor.encode, Cbor.decode⟩

theorem cborCodec_correct : cborCodec.Correct :=
  ⟨fun _ hnested hlen rest => Cbor.decode_encode hnested hlen rest, Cbor.nestedWithin_of_decode⟩

/-- The field `a` of the demo structure, if the entry is this field. -/
def demoField : Value × Value → Option UInt8
  | (.text "a", .integer n) =>
    if 0 ≤ n.val ∧ n.val < 256 then some (UInt8.ofNat n.val.toNat) else none
  | _ => none

/-- The derived implementation for a structure with one field `a` of type `u8`: other fields are
ignored. -/
def demoSerde : Serde UInt8 where
  serialized a := some (.map [(.text "a", .integer ⟨a.toNat, by have := a.toNat_lt; omega⟩)])
  read limit bytes := do
    let (v, rest) ← Cbor.decode limit bytes
    match v with
    | .map entries =>
      match entries.findSome? demoField with
      | some a => .ok (a, rest)
      | none => .error .malformed
    | _ => .error .malformed

def demoSchema : SchemaId := ⟨"fcp.test", "Demo", "1.0.0"⟩

/-- The object with the field `a` only. -/
def demoData : List UInt8 := replicate 32 0 ++ [0xa1, 0x61, 0x61, 0x01]

/-- The object with a field `b` after the field `a`. -/
def demoDataExtended : List UInt8 :=
  replicate 32 0 ++ [0xa2, 0x61, 0x61, 0x01, 0x61, 0x62, 0x02]

/-- The object with the field `a` only is the serialization of the CBOR value in it. -/
theorem demoData_carries_value :
    ∃ v, bodyValue cborCodec demoData = .ok v ∧
      serialize (fun _ => arrayOf 32 []) cborCodec (valueSerde cborCodec) v demoSchema =
        .ok demoData := by
  have haccepted : deserialize (fun _ => arrayOf 32 []) cborCodec demoSerde demoData demoSchema =
      .ok 1 := by decide +kernel
  obtain ⟨v, hbody, hserialize, -⟩ := (accepted_bytes_canonical (fun _ => arrayOf 32 []) cborCodec
    cborCodec_correct demoSchema).1 UInt8 demoSerde demoData 1 haccepted
  exact ⟨v, hbody, hserialize⟩

/-- Two accepted byte strings are deserialized to the same structure, which is serialized to only
one of them. -/
theorem demoDataExtended_reserializes_differently :
    deserialize (fun _ => arrayOf 32 []) cborCodec demoSerde demoDataExtended demoSchema = .ok 1 ∧
      deserialize (fun _ => arrayOf 32 []) cborCodec demoSerde demoData demoSchema = .ok 1 ∧
      serialize (fun _ => arrayOf 32 []) cborCodec demoSerde 1 demoSchema = .ok demoData ∧
      demoData ≠ demoDataExtended := by
  decide +kernel

end Flywheel.Core
