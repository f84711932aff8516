import Flywheel.Data.Bytes
import Flywheel.Data.Results

/-!
# CBOR values

The generic data model of CBOR and a codec for it. The decoder is bounded by the
number of containers that may be nested. A value without tags is read back from its
encoding, whatever follows it. Heads are written in their shortest form and are read
in any; floats are written with 64 bits.
-/

namespace Flywheel.Data.Cbor

open List

/-- Integers that fit a head: 64 bits and a sign. -/
abbrev Integer := {n : ℤ // -2 ^ 64 ≤ n ∧ n < 2 ^ 64}

inductive Value
  | integer (n : Integer)
  | bytes (bytes : List UInt8)
  | float (bits : UInt64)
  | text (text : String)
  | bool (b : Bool)
  | null
  | tag (tag : UInt64) (value : Value)
  | array (items : List Value)
  /-- A map, as a list of entries. -/
  | map (entries : List (Value × Value))

/-- Why bytes could not be decoded. -/
inductive DecodeError
  | recursionLimitExceeded
  | malformed
  deriving DecidableEq

/-! ### Shapes of values -/

namespace Value

/-- At most `n` containers are nested. -/
inductive NestedWithin : ℕ → Value → Prop
  | integer {n : ℕ} {i : Integer} : NestedWithin n (.integer i)
  | bytes {n : ℕ} {b : List UInt8} : NestedWithin n (.bytes b)
  | float {n : ℕ} {bits : UInt64} : NestedWithin n (.float bits)
  | text {n : ℕ} {s : String} : NestedWithin n (.text s)
  | bool {n : ℕ} {b : Bool} : NestedWithin n (.bool b)
  | null {n : ℕ} : NestedWithin n .null
  | tag {n : ℕ} {t : UInt64} {v : Value} : NestedWithin n v → NestedWithin (n + 1) (.tag t v)
  | array {n : ℕ} {items : List Value} :
    (∀ item ∈ items, NestedWithin n item) → NestedWithin (n + 1) (.array items)
  | map {n : ℕ} {entries : List (Value × Value)} :
    (∀ entry ∈ entries, NestedWithin n entry.1) → (∀ entry ∈ entries, NestedWithin n entry.2) →
    NestedWithin (n + 1) (.map entries)

/-- The float is infinite or not a number. -/
def nonFinite (bits : UInt64) : Bool := bits.toNat / 2 ^ 52 % 2 ^ 11 = 2 ^ 11 - 1

/-- All floats are finite and nothing is tagged. -/
inductive Plain : Value → Prop
  | integer {i : Integer} : Plain (.integer i)
  | bytes {b : List UInt8} : Plain (.bytes b)
  | float {bits : UInt64} : nonFinite bits = false → Plain (.float bits)
  | text {s : String} : Plain (.text s)
  | bool {b : Bool} : Plain (.bool b)
  | null : Plain .null
  | array {items : List Value} : (∀ item ∈ items, Plain item) → Plain (.array items)
  | map {entries : List (Value × Value)} :
    (∀ entry ∈ entries, Plain entry.1) → (∀ entry ∈ entries, Plain entry.2) → Plain (.map entries)

/-- Induction over values, with the hypothesis for all members of a container. -/
theorem induct {P : Value → Prop} (hinteger : ∀ n, P (.integer n)) (hbytes : ∀ b, P (.bytes b))
    (hfloat : ∀ bits, P (.float bits)) (htext : ∀ s, P (.text s)) (hbool : ∀ b, P (.bool b))
    (hnull : P .null) (htag : ∀ t v, P v → P (.tag t v))
    (harray : ∀ items, (∀ item ∈ items, P item) → P (.array items))
    (hmap : ∀ entries, (∀ entry ∈ entries, P entry.1 ∧ P entry.2) → P (.map entries))
    (v : Value) : P v := by
  induction hsize : sizeOf v using Nat.strong_induction_on generalizing v with
  | h size ih =>
    subst hsize
    cases v with
    | integer n => exact hinteger n
    | bytes b => exact hbytes b
    | float bits => exact hfloat bits
    | text s => exact htext s
    | bool b => exact hbool b
    | null => exact hnull
    | tag t v =>
      refine htag t v (ih _ ?_ v rfl)
      simp only [tag.sizeOf_spec]
      omega
    | array items =>
      refine harray items fun item hmem => ih _ ?_ item rfl
      have hlt := sizeOf_lt_of_mem hmem
      simp only [array.sizeOf_spec]
      omega
    | map entries =>
      refine hmap entries fun entry hmem => ?_
      have hlt := sizeOf_lt_of_mem hmem
      obtain ⟨key, value⟩ := entry
      simp only [Prod.mk.sizeOf_spec] at hlt
      refine ⟨ih _ ?_ key rfl, ih _ ?_ value rfl⟩ <;> simp only [map.sizeOf_spec] <;> omega

variable {n : ℕ} {v : Value}

/-- Arrays, maps and tagged values hold other values. -/
def isContainer : Value → Bool
  | .array _ | .map _ | .tag _ _ => true
  | _ => false

def members : Value → List Value
  | .array items => items
  | .map entries => entries.map (·.1) ++ entries.map (·.2)
  | .tag _ v => [v]
  | _ => []

/-- No value lies inside more than `n` containers. -/
inductive PlacedWithin : ℕ → Value → Prop
  | here {n : ℕ} {v : Value} : v.members = [] → PlacedWithin n v
  | inside {n : ℕ} {v : Value} : (∀ m ∈ v.members, PlacedWithin n m) → PlacedWithin (n + 1) v

/-- An empty container lies inside `n` others. -/
inductive EmptyAt : ℕ → Value → Prop
  | here {v : Value} : v.isContainer = true → v.members = [] → EmptyAt 0 v
  | inside {n : ℕ} {v m : Value} : m ∈ v.members → EmptyAt n m → EmptyAt (n + 1) v

theorem forall_mem_members_map {P : Value → Prop} {entries : List (Value × Value)} :
    (∀ m ∈ (map entries).members, P m) ↔ ∀ entry ∈ entries, P entry.1 ∧ P entry.2 := by
  rw [members, forall_mem_append, forall_mem_map, forall_mem_map]
  exact ⟨fun h entry hentry => ⟨h.1 entry hentry, h.2 entry hentry⟩,
    fun h => ⟨fun entry hentry => (h entry hentry).1, fun entry hentry => (h entry hentry).2⟩⟩

theorem members_eq_nil (h : v.isContainer = false) : v.members = [] := by
  cases v <;> first | rfl | cases h

/-- Induction over values, with the hypothesis for the values directly inside. -/
theorem induct_members {P : Value → Prop} (h : ∀ v, (∀ m ∈ v.members, P m) → P v) (v : Value) :
    P v := by
  induction v using induct with
  | hinteger _ | hbytes _ | hfloat _ | htext _ | hbool _ | hnull => exact h _ (forall_mem_nil _)
  | htag t v ih => exact h _ (forall_mem_singleton.mpr ih)
  | harray items ih => exact h _ ih
  | hmap entries ih => exact h _ (forall_mem_members_map.mpr ih)

/-- Nothing may be nested: the value is no container. -/
theorem nestedWithin_zero_iff : v.NestedWithin 0 ↔ v.isContainer = false := by
  constructor
  · intro h
    cases h <;> rfl
  · intro h
    cases v <;> first | constructor | cases h

/-- One more container may be nested than in the values directly inside. -/
theorem nestedWithin_succ_iff : v.NestedWithin (n + 1) ↔ ∀ m ∈ v.members, m.NestedWithin n := by
  cases v with
  | integer _ | bytes _ | float _ | text _ | bool _ | null =>
    exact iff_of_true (by constructor) (forall_mem_nil _)
  | tag t v =>
    refine ⟨?_, fun h => .tag (h v mem_cons_self)⟩
    rintro (_ | _ | _ | _ | _ | _ | hv)
    exact forall_mem_singleton.mpr hv
  | array items =>
    refine ⟨?_, .array⟩
    rintro (_ | _ | _ | _ | _ | _ | _ | hitems)
    exact hitems
  | map entries =>
    rw [forall_mem_members_map]
    constructor
    · rintro (_ | _ | _ | _ | _ | _ | _ | _ | ⟨hkeys, hvalues⟩)
      exact fun entry hentry => ⟨hkeys entry hentry, hvalues entry hentry⟩
    · exact fun h => .map (fun entry hentry => (h entry hentry).1)
        fun entry hentry => (h entry hentry).2

theorem NestedWithin.succ (h : v.NestedWithin n) : v.NestedWithin (n + 1) := by
  induction n generalizing v with
  | zero =>
    rw [nestedWithin_succ_iff, members_eq_nil (nestedWithin_zero_iff.mp h)]
    exact forall_mem_nil _
  | succ n ih =>
    exact nestedWithin_succ_iff.mpr fun m hm => ih (nestedWithin_succ_iff.mp h m hm)

/-- A larger bound on nesting holds as well. -/
theorem NestedWithin.mono {m : ℕ} (h : v.NestedWithin n) (hle : n ≤ m) : v.NestedWithin m := by
  induction hle with
  | refl => exact h
  | step _ ih => exact ih.succ

theorem exists_bound {l : List Value} (h : ∀ v ∈ l, ∃ n, v.NestedWithin n) :
    ∃ n, ∀ v ∈ l, v.NestedWithin n := by
  induction l with
  | nil => exact ⟨0, forall_mem_nil _⟩
  | cons a l ih =>
    obtain ⟨n, hn⟩ := h a mem_cons_self
    obtain ⟨m, hm⟩ := ih fun b hb => h b (mem_cons_of_mem a hb)
    exact ⟨max n m, forall_mem_cons.mpr ⟨hn.mono (le_max_left n m),
      fun b hb => (hm b hb).mono (le_max_right n m)⟩⟩

/-- Every value is nested within some bound. -/
theorem exists_nestedWithin (v : Value) : ∃ n, v.NestedWithin n := by
  induction v using induct_members with
  | h v ih =>
    obtain ⟨n, hn⟩ := exists_bound ih
    exact ⟨n + 1, nestedWithin_succ_iff.mpr hn⟩

theorem PlacedWithin.of_mem {m : Value} (h : v.PlacedWithin n) (hm : m ∈ v.members) :
    ∃ k, n = k + 1 ∧ m.PlacedWithin k := by
  cases h with
  | here hnil =>
    rw [hnil] at hm
    cases hm
  | inside hall => exact ⟨_, rfl, hall m hm⟩

theorem NestedWithin.placedWithin (h : v.NestedWithin n) : v.PlacedWithin n := by
  induction n generalizing v with
  | zero => exact .here (members_eq_nil (nestedWithin_zero_iff.mp h))
  | succ n ih => exact .inside fun m hm => ih (nestedWithin_succ_iff.mp h m hm)

/-- Of the values placed within a bound, those nest within it that have no empty container at the
bound. -/
theorem PlacedWithin.nestedWithin_iff (h : v.PlacedWithin n) :
    v.NestedWithin n ↔ ¬ v.EmptyAt n := by
  induction n generalizing v with
  | zero =>
    have hnil : v.members = [] := by
      cases h with
      | here hnil => exact hnil
    rw [nestedWithin_zero_iff]
    constructor
    · rintro hleaf ⟨hcontainer, -⟩
      cases hleaf.symm.trans hcontainer
    · intro hempty
      by_contra hcontainer
      exact hempty (.here (Bool.not_eq_false _ ▸ hcontainer) hnil)
  | succ n ih =>
    have hplaced : ∀ m ∈ v.members, m.PlacedWithin n := fun m hm => by
      obtain ⟨k, heq, hm⟩ := h.of_mem hm
      exact Nat.succ.inj heq ▸ hm
    rw [nestedWithin_succ_iff]
    constructor
    · rintro hall (_ | ⟨hm, hempty⟩)
      exact (ih (hplaced _ hm)).mp (hall _ hm) hempty
    · exact fun hempty m hm => (ih (hplaced m hm)).mpr fun hm' => hempty (.inside hm hm')

end Value

/-! ### Heads -/

/-- The first bytes of an item: its major type and an argument, in the shortest form. -/
def head (major arg : ℕ) : List UInt8 :=
  if arg < 24 then [UInt8.ofNat (32 * major + arg)]
  else if arg < 2 ^ 8 then UInt8.ofNat (32 * major + 24) :: beBytes 1 arg
  else if arg < 2 ^ 16 then UInt8.ofNat (32 * major + 25) :: beBytes 2 arg
  else if arg < 2 ^ 32 then UInt8.ofNat (32 * major + 26) :: beBytes 4 arg
  else UInt8.ofNat (32 * major + 27) :: beBytes 8 arg

/-- Read a big-endian number of the given width. -/
def readBe (width : ℕ) (bytes : List UInt8) : Except DecodeError (ℕ × List UInt8) :=
  if bytes.length < width then .error .malformed
  else .ok (leNat (bytes.take width).reverse, bytes.drop width)

/-- Read the argument that follows the first byte of a head. -/
def readArg (info : ℕ) (rest : List UInt8) : Except DecodeError (ℕ × List UInt8) :=
  if info < 24 then .ok (info, rest)
  else if info = 24 then readBe 1 rest
  else if info = 25 then readBe 2 rest
  else if info = 26 then readBe 4 rest
  else if info = 27 then readBe 8 rest
  else .error .malformed

theorem readBe_beBytes {width v : ℕ} (hv : v < 256 ^ width) (rest : List UInt8) :
    readBe width (beBytes width v ++ rest) = .ok (v, rest) := by
  have hlen : (beBytes width v).length = width := by
    rw [beBytes, length_reverse, leBytes_length]
  have hnot : ¬ (beBytes width v ++ rest).length < width := by
    rw [length_append]
    omega
  rw [readBe, if_neg hnot, take_left' hlen, drop_left' hlen, beBytes,
    reverse_reverse, leNat_leBytes, Nat.mod_eq_of_lt hv]

/-- A head starts with a byte that holds the major type, and its argument is read back. -/
theorem head_spec {major arg : ℕ} (hmajor : major < 8) (harg : arg < 2 ^ 64) :
    ∃ first tail, head major arg = first :: tail ∧ first.toNat / 32 = major ∧
      ∀ rest, readArg (first.toNat % 32) (tail ++ rest) = .ok (arg, rest) := by
  have hbyte {info : ℕ} (hinfo : info < 32) :
      (UInt8.ofNat (32 * major + info)).toNat = 32 * major + info :=
    UInt8.toNat_ofNat_of_lt' (show 32 * major + info < 256 by omega)
  have hwide {info width : ℕ} (hinfo : info < 32) (hread : readArg info = readBe width)
      (hfits : arg < 256 ^ width) :
      ∃ first tail, UInt8.ofNat (32 * major + info) :: beBytes width arg = first :: tail ∧
        first.toNat / 32 = major ∧
        ∀ rest, readArg (first.toNat % 32) (tail ++ rest) = .ok (arg, rest) := by
    have hmod : (32 * major + info) % 32 = info := by omega
    refine ⟨_, _, rfl, ?_, fun rest => ?_⟩
    · rw [hbyte hinfo]
      omega
    · rw [hbyte hinfo, hmod, hread, readBe_beBytes hfits]
  unfold head
  split_ifs with h5 h8 h16 h32
  · have hmod : (32 * major + arg) % 32 = arg := by omega
    refine ⟨_, _, rfl, ?_, fun rest => ?_⟩
    · rw [hbyte (by omega)]
      omega
    · rw [hbyte (by omega), hmod, readArg, if_pos h5, nil_append]
  · exact hwide (by omega) rfl h8
  · exact hwide (by omega) rfl h16
  · exact hwide (by omega) rfl h32
  · exact hwide (by omega) rfl harg

/-! ### The codec -/

mutual

def encode : Value → List UInt8
  | .integer n => if 0 ≤ n.val then head 0 n.val.toNat else head 1 (-1 - n.val).toNat
  | .bytes bytes => head 2 bytes.length ++ bytes
  | .text text => head 3 (utf8 text).length ++ utf8 text
  | .array items => head 4 items.length ++ encodeItems items
  | .map entries => head 5 entries.length ++ encodeEntries entries
  | .tag tag value => head 6 tag.toNat ++ encode value
  | .bool b => [if b then 0xf5 else 0xf4]
  | .null => [0xf6]
  | .float bits => 0xfb :: beBytes 8 bits.toNat

/-- The encodings of the items of an array. -/
def encodeItems : List Value → List UInt8
  | [] => []
  | item :: items => encode item ++ encodeItems items

/-- The encodings of the entries of a map. -/
def encodeEntries : List (Value × Value) → List UInt8
  | [] => []
  | (key, value) :: entries => encode key ++ (encode value ++ encodeEntries entries)

end

/-- What reads one thing off the front of the bytes. -/
abbrev Reader (α : Type) := List UInt8 → Except DecodeError (α × List UInt8)

/-- Read `count` things. -/
def readMany {α : Type} (read : Reader α) : ℕ → Reader (List α)
  | 0, bytes => .ok ([], bytes)
  | count + 1, bytes => do
    let (item, bytes) ← read bytes
    let (items, bytes) ← readMany read count bytes
    return (item :: items, bytes)

def readEntry (read : Reader Value) : Reader (Value × Value) := fun bytes => do
  let (key, bytes) ← read bytes
  let (value, bytes) ← read bytes
  return ((key, value), bytes)

/-- Read a string of `len` bytes. -/
def readBytes (len : ℕ) : Reader (List UInt8) := fun bytes =>
  if bytes.length < len then .error .malformed else .ok (bytes.take len, bytes.drop len)

/-- The integer with this sign and argument. -/
def integerOf (negative : Bool) (arg : ℕ) : Except DecodeError Value :=
  let n : ℤ := if negative then -1 - arg else arg
  if h : -2 ^ 64 ≤ n ∧ n < 2 ^ 64 then .ok (.integer ⟨n, h⟩) else .error .malformed

def textOf (bytes : List UInt8) : Except DecodeError Value :=
  match String.fromUTF8? ⟨bytes.toArray⟩ with
  | some text => .ok (.text text)
  | none => .error .malformed

variable (inner : Option (Reader Value))

/-- Read an item that starts with a head. The members of a container are read by `inner`, which is
missing when no container may be nested any more. -/
def readItem (major arg : ℕ) (rest : List UInt8) : Except DecodeError (Value × List UInt8) :=
  match major with
  | 0 => (integerOf false arg).map (·, rest)
  | 1 => (integerOf true arg).map (·, rest)
  | 2 => (readBytes arg rest).map fun (bytes, rest) => (.bytes bytes, rest)
  | 3 => do
    let (bytes, rest) ← readBytes arg rest
    (textOf bytes).map (·, rest)
  | 4 =>
    match inner with
    | none => .error .recursionLimitExceeded
    | some read => (readMany read arg rest).map fun (items, rest) => (.array items, rest)
  | 5 =>
    match inner with
    | none => .error .recursionLimitExceeded
    | some read =>
      (readMany (readEntry read) arg rest).map fun (entries, rest) => (.map entries, rest)
  | 6 =>
    match inner with
    | none => .error .recursionLimitExceeded
    | some read => (read rest).map fun (value, rest) => (.tag (UInt64.ofNat arg) value, rest)
  | _ => .error .malformed

/-- Read a value whose members are read by `inner`. -/
def readValue : Reader Value
  | [] => .error .malformed
  | first :: rest =>
    if first = 0xf4 then .ok (.bool false, rest)
    else if first = 0xf5 then .ok (.bool true, rest)
    else if first = 0xf6 then .ok (.null, rest)
    else if first = 0xfb then
      (readBe 8 rest).map fun (bits, rest) => (.float (UInt64.ofNat bits), rest)
    else do
      let (arg, rest) ← readArg (first.toNat % 32) rest
      readItem inner (first.toNat / 32) arg rest

/-- Decode a value in which at most `limit` containers are nested. -/
def decode : ℕ → Reader Value
  | 0 => readValue none
  | limit + 1 => readValue (some (decode limit))

/-! ### Reading back -/

/-- An item that starts with a head is read by its major type and argument. -/
theorem readValue_head {major arg : ℕ} (hmajor : major < 7) (harg : arg < 2 ^ 64)
    (inner : Option (Reader Value)) (rest : List UInt8) :
    readValue inner (head major arg ++ rest) = readItem inner major arg rest := by
  obtain ⟨first, tail, hhead, hdiv, hread⟩ := head_spec (show major < 8 by omega) harg
  have hne (byte) (hbyte : 224 ≤ byte.toNat) : first ≠ byte := by
    rintro rfl
    omega
  rw [hhead, cons_append, readValue, if_neg (hne 0xf4 (by decide)),
    if_neg (hne 0xf5 (by decide)), if_neg (hne 0xf6 (by decide)), if_neg (hne 0xfb (by decide)),
    hread, hdiv]
  rfl

theorem readBytes_append (bytes rest : List UInt8) :
    readBytes bytes.length (bytes ++ rest) = .ok (bytes, rest) := by
  have hnot : ¬ (bytes ++ rest).length < bytes.length := by
    rw [length_append]
    omega
  rw [readBytes, if_neg hnot, take_left' rfl, drop_left' rfl]

theorem textOf_utf8 (text : String) : textOf (utf8 text) = .ok (.text text) := by
  have hbytes : (⟨(utf8 text).toArray⟩) = text.toByteArray := by
    rw [utf8_eq]
  have hvalid : String.fromUTF8? text.toByteArray = some text := dif_pos text.isValidUTF8
  rw [textOf, hbytes, hvalid]

theorem encodeItems_eq (items : List Value) : encodeItems items = items.flatMap encode := by
  induction items with
  | nil => rfl
  | cons item items ih => rw [encodeItems, ih, flatMap_cons]

def encodeEntry (entry : Value × Value) : List UInt8 := encode entry.1 ++ encode entry.2

theorem encodeEntries_eq (entries : List (Value × Value)) :
    encodeEntries entries = entries.flatMap encodeEntry := by
  induction entries with
  | nil => rfl
  | cons entry entries ih => rw [encodeEntries, ih, flatMap_cons, encodeEntry, append_assoc]

section Many

variable {α : Type} {enc : α → List UInt8} {l : List α}

/-- What each reading gives back is read back from all of them. -/
theorem readMany_flatMap {read : Reader α}
    (h : ∀ a ∈ l, ∀ rest, read (enc a ++ rest) = .ok (a, rest)) (rest : List UInt8) :
    readMany read l.length (l.flatMap enc ++ rest) = .ok (l, rest) := by
  induction l with
  | nil => rfl
  | cons a l ih =>
    obtain ⟨hhead, htail⟩ := forall_mem_cons.mp h
    rw [length_cons, flatMap_cons, readMany, append_assoc, hhead]
    simp only [bind, Except.bind, ih htail]
    rfl

/-- Parts that take a byte each are no more than the bytes, and none is longer than all. -/
theorem length_le_flatMap (hpos : ∀ a ∈ l, 0 < (enc a).length) :
    l.length ≤ (l.flatMap enc).length ∧ ∀ a ∈ l, (enc a).length ≤ (l.flatMap enc).length := by
  induction l with
  | nil => exact ⟨le_rfl, forall_mem_nil _⟩
  | cons a l ih =>
    obtain ⟨hhead, htail⟩ := forall_mem_cons.mp hpos
    obtain ⟨hlen, hparts⟩ := ih htail
    rw [flatMap_cons, length_append, length_cons]
    refine ⟨by omega, forall_mem_cons.mpr ⟨by omega, fun b hb => ?_⟩⟩
    have := hparts b hb
    omega

end Many

/-- The number of bytes of a head. -/
def headLength (arg : ℕ) : ℕ :=
  if arg < 24 then 1
  else if arg < 2 ^ 8 then 2
  else if arg < 2 ^ 16 then 3
  else if arg < 2 ^ 32 then 5
  else 9

@[simp] theorem length_head (major arg : ℕ) : (head major arg).length = headLength arg := by
  unfold head headLength
  split_ifs <;> simp [beBytes]

theorem length_encodeItems (items : List Value) :
    (encodeItems items).length = (items.map fun item => (encode item).length).sum := by
  rw [encodeItems_eq, length_flatMap]

theorem head_length_pos (major arg : ℕ) : 0 < (head major arg).length := by
  unfold head
  split_ifs <;> exact Nat.succ_pos _

theorem encode_length_pos (v : Value) : 0 < (encode v).length := by
  cases v with
  | integer n =>
    rw [encode]
    split_ifs <;> exact head_length_pos _ _
  | bool _ | null | float _ => rw [encode]; exact Nat.succ_pos _
  | bytes _ | text _ | tag _ _ | array _ | map _ =>
    rw [encode, length_append]
    exact Nat.add_pos_left (head_length_pos _ _) _

/-- An array has no more items than bytes, and none of them is longer. -/
theorem length_le_encodeItems (items : List Value) :
    items.length ≤ (encodeItems items).length ∧
      ∀ item ∈ items, (encode item).length ≤ (encodeItems items).length := by
  rw [encodeItems_eq]
  exact length_le_flatMap fun item _ => encode_length_pos item

/-- An integer is read back, whatever the limit on nesting. -/
theorem readValue_integer (n : Integer) (inner : Option (Reader Value)) (rest : List UInt8) :
    readValue inner (encode (.integer n) ++ rest) = .ok (.integer n, rest) := by
  obtain ⟨n, hlow, hhigh⟩ := n
  change readValue inner ((if 0 ≤ n then head 0 n.toNat else head 1 (-1 - n).toNat) ++ rest) = _
  split_ifs with hsign
  · have heq : ((n.toNat)) = n := Int.toNat_of_nonneg hsign
    rw [readValue_head (by omega) (by omega), readItem, integerOf]
    simp only [Bool.false_eq_true, heq]
    rw [dif_pos ⟨hlow, hhigh⟩]
    rfl
  · have heq : -1 - (((-1 - n).toNat)) = n := by
      omega
    rw [readValue_head (by omega) (by omega), readItem, integerOf]
    simp only [heq]
    rw [dif_pos ⟨hlow, hhigh⟩]
    rfl

theorem readValue_float (bits : UInt64) (inner : Option (Reader Value)) (rest : List UInt8) :
    readValue inner (encode (.float bits) ++ rest) = .ok (.float bits, rest) := by
  have hread : readBe 8 (beBytes 8 bits.toNat ++ rest) = .ok (bits.toNat, rest) :=
    readBe_beBytes bits.toNat_lt rest
  rw [encode, cons_append, readValue, if_neg (by decide), if_neg (by decide),
    if_neg (by decide), if_pos rfl, hread]
  simp only [Except.map, UInt64.ofNat_toNat]

variable {limit : ℕ} {v : Value}

theorem exists_decode_eq (n : ℕ) : ∃ inner, decode n = readValue inner := by
  cases n <;> exact ⟨_, rfl⟩

/-- A value is read back from its encoding, whatever follows. -/
theorem decode_encode (hnested : v.NestedWithin limit)
    (hlen : (encode v).length < 2 ^ 64) (rest : List UInt8) :
    decode limit (encode v ++ rest) = .ok (v, rest) := by
  obtain ⟨inner, hdecode⟩ := exists_decode_eq limit
  induction hnested generalizing rest inner with
  | integer => rw [hdecode, readValue_integer]
  | float => rw [hdecode, readValue_float]
  | @bool n b =>
    rw [hdecode]
    cases b <;> rfl
  | null =>
    rw [hdecode]
    rfl
  | bytes =>
    rw [encode, length_append] at hlen
    rw [hdecode, encode, append_assoc, readValue_head (by omega) (by omega), readItem,
      readBytes_append]
    rfl
  | text =>
    rw [encode, length_append] at hlen
    rw [hdecode, encode, append_assoc, readValue_head (by omega) (by omega), readItem,
      readBytes_append]
    simp only [bind, Except.bind, textOf_utf8, Except.map]
  | @tag n t v _ ih =>
    obtain ⟨inner, hdecode⟩ := exists_decode_eq n
    rw [encode, length_append] at hlen
    rw [decode, encode, append_assoc, readValue_head (by omega) t.toNat_lt, readItem]
    simp only [ih (by omega) _ inner hdecode, Except.map, UInt64.ofNat_toNat]
  | @array n items _ ih =>
    obtain ⟨inner, hdecode⟩ := exists_decode_eq n
    obtain ⟨hitems, hitem⟩ := length_le_encodeItems items
    rw [encode, length_append] at hlen
    have hread := readMany_flatMap (fun item hmem rest =>
      ih item hmem ((hitem item hmem).trans_lt (by omega)) rest inner hdecode) rest
    rw [decode, encode, append_assoc, readValue_head (by omega) (by omega), readItem,
      encodeItems_eq]
    simp only [hread, Except.map]
  | @map n entries _ _ ihkey ihvalue =>
    obtain ⟨inner, hdecode⟩ := exists_decode_eq n
    have hpos : ∀ entry ∈ entries, 0 < (encodeEntry entry).length := fun entry _ => by
      rw [encodeEntry, length_append]
      exact Nat.add_pos_left (encode_length_pos entry.1) _
    obtain ⟨hentries, hentry⟩ := length_le_flatMap hpos
    rw [encode, encodeEntries_eq, length_append] at hlen
    have hread : readMany (readEntry (decode n)) entries.length
        (entries.flatMap encodeEntry ++ rest) = .ok (entries, rest) := by
      refine readMany_flatMap (fun entry hmem rest => ?_) rest
      have hle := hentry entry hmem
      rw [encodeEntry, length_append] at hle
      rw [readEntry, encodeEntry, append_assoc, ihkey entry hmem (by omega) _ inner hdecode]
      simp only [bind, Except.bind, ihvalue entry hmem (by omega) _ inner hdecode]
      rfl
    rw [decode, encode, append_assoc, readValue_head (by omega) (by omega), readItem,
      encodeEntries_eq]
    simp only [hread, Except.map]

/-! ### The limit on nesting -/

variable {bytes rest : List UInt8}

/-- What holds of everything a reader reads holds of all of many. -/
theorem readMany_forall {α : Type} {P : α → Prop} {read : Reader α}
    (h : ∀ bytes a rest, read bytes = .ok (a, rest) → P a) {count : ℕ}
    {items : List α} (hread : readMany read count bytes = .ok (items, rest)) :
    ∀ item ∈ items, P item := by
  induction count generalizing bytes items rest with
  | zero =>
    cases hread
    exact forall_mem_nil _
  | succ count ih =>
    obtain ⟨⟨item, bytes'⟩, hitem, hread⟩ := bind_eq_ok hread
    obtain ⟨⟨items', bytes''⟩, hitems, hread⟩ := bind_eq_ok hread
    cases hread
    exact forall_mem_cons.mpr ⟨h _ _ _ hitem, ih hitems⟩

theorem nestedWithin_of_integerOf {negative : Bool} {arg : ℕ}
    (h : integerOf negative arg = .ok v) : v.NestedWithin limit := by
  unfold integerOf at h
  simp only at h
  split_ifs at h <;> cases h <;> exact .integer

theorem nestedWithin_of_textOf (h : textOf bytes = .ok v) : v.NestedWithin limit := by
  unfold textOf at h
  split at h <;> cases h
  exact .text

section

variable {inner : Option (Reader Value)}
  (hinner : ∀ read, inner = some read → ∃ n, limit = n + 1 ∧
    ∀ bytes v rest, read bytes = .ok (v, rest) → v.NestedWithin n)
include hinner

/-- What a reader reads for the members of a container bounds the nesting of the container. -/
theorem nestedWithin_of_readItem {major arg : ℕ}
    (h : readItem inner major arg bytes = .ok (v, rest)) : v.NestedWithin limit := by
  unfold readItem at h
  split at h
  · obtain ⟨n, hread, heq⟩ := map_eq_ok h
    cases heq
    exact nestedWithin_of_integerOf hread
  · obtain ⟨n, hread, heq⟩ := map_eq_ok h
    cases heq
    exact nestedWithin_of_integerOf hread
  · obtain ⟨_, -, heq⟩ := map_eq_ok h
    cases heq
    exact .bytes
  · obtain ⟨_, -, h⟩ := bind_eq_ok h
    obtain ⟨_, hread, heq⟩ := map_eq_ok h
    cases heq
    exact nestedWithin_of_textOf hread
  · cases inner with
    | none => cases h
    | some read =>
      obtain ⟨n, rfl, hnested⟩ := hinner read rfl
      obtain ⟨_, hread, heq⟩ := map_eq_ok h
      cases heq
      exact .array (readMany_forall hnested hread)
  · cases inner with
    | none => cases h
    | some read =>
      obtain ⟨n, rfl, hnested⟩ := hinner read rfl
      obtain ⟨⟨entries, _⟩, hread, heq⟩ := map_eq_ok h
      cases heq
      have hentries : ∀ entry ∈ entries, entry.1.NestedWithin n ∧ entry.2.NestedWithin n := by
        refine readMany_forall (fun bytes entry rest hentry => ?_) hread
        obtain ⟨_, hkey, hentry⟩ := bind_eq_ok hentry
        obtain ⟨_, hvalue, hentry⟩ := bind_eq_ok hentry
        cases hentry
        exact ⟨hnested _ _ _ hkey, hnested _ _ _ hvalue⟩
      exact .map (fun entry hmem => (hentries entry hmem).1)
        fun entry hmem => (hentries entry hmem).2
  · cases inner with
    | none => cases h
    | some read =>
      obtain ⟨n, rfl, hnested⟩ := hinner read rfl
      obtain ⟨_, hread, heq⟩ := map_eq_ok h
      cases heq
      exact .tag (hnested _ _ _ hread)
  · cases h

/-- The value that is read first nests within the limit. -/
theorem nestedWithin_of_readValue (h : readValue inner bytes = .ok (v, rest)) :
    v.NestedWithin limit := by
  cases bytes with
  | nil => cases h
  | cons first bytes =>
    rw [readValue] at h
    split_ifs at h
    · cases h
      exact .bool
    · cases h
      exact .bool
    · cases h
      exact .null
    · obtain ⟨_, -, heq⟩ := map_eq_ok h
      cases heq
      exact .float
    · obtain ⟨_, -, hitem⟩ := bind_eq_ok h
      exact nestedWithin_of_readItem hinner hitem

end

theorem nestedWithin_of_decode (h : decode limit bytes = .ok (v, rest)) : v.NestedWithin limit := by
  induction limit generalizing bytes v rest with
  | zero => exact nestedWithin_of_readValue (fun _ hread => by cases hread) h
  | succ limit ih =>
    refine nestedWithin_of_readValue (fun read hread => ?_) h
    cases hread
    exact ⟨limit, rfl, fun _ _ _ => ih⟩

end Flywheel.Data.Cbor
