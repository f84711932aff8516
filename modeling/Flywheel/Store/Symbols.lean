import Flywheel.Core.Ids
import Flywheel.Data.Results
import Flywheel.Data.TreeMaps
import Flywheel.Store.Refinement

/-!
# The durable symbol store

`DurableSymbolState` of `fcp-store`: for every object its metadata and the symbols of its
encoding, with the bytes in use. The abstract store is the map from ids to objects. Symbols
that do not belong to the metadata of their object are scrubbed when a snapshot is loaded;
a store that was only used through its mutations has none.
-/

namespace Flywheel.Store

open Flywheel.Core Flywheel.Data List
open Std (ExtTreeMap LawfulEqCmp TransCmp)

/-! ### Symbols -/

def maxSourceSymbols : UInt32 := 56403

structure ObjectTransmissionInfo where
  transferLength : UInt64
  symbolSize : UInt16
  sourceBlocks : UInt8
  subBlocks : UInt16
  alignment : UInt8
  payloadHash : Option (Bytes 32)
  deriving DecidableEq

structure ObjectSymbolMeta where
  objectId : ObjectId
  zoneId : ZoneId
  /-- How the object is encoded. -/
  oti : ObjectTransmissionInfo
  sourceSymbols : UInt32
  firstSymbolAt : UInt64
  deriving DecidableEq

structure SymbolMeta where
  objectId : ObjectId
  esi : UInt32
  zoneId : ZoneId
  sourceNode : Option UInt64
  storedAt : UInt64
  deriving DecidableEq

/-- `StoredSymbol` and `PersistentStoredSymbol`. -/
structure StoredSymbol where
  metadata : SymbolMeta
  data : List UInt8
  deriving DecidableEq

structure DurableObjectSymbols where
  metadata : ObjectSymbolMeta
  symbols : ExtTreeMap UInt32 StoredSymbol

structure SymbolSnapshotEntry where
  metadata : ObjectSymbolMeta
  symbols : List StoredSymbol

abbrev SymbolObjectMap := ExtTreeMap ObjectId DurableObjectSymbols objectIdCmp

structure DurableSymbolState where
  objects : SymbolObjectMap
  usedBytes : ℕ

inductive SymbolWalOp
  | putObjectMeta (metadata : ObjectSymbolMeta)
  | putSymbol (symbol : StoredSymbol)
  | deleteObject (objectId : ObjectId)
  | deleteSymbol (objectId : ObjectId) (esi : UInt32)

inductive SymbolStoreError
  | notFound (objectId : ObjectId) (esi : UInt32)
  | objectNotFound (objectId : ObjectId)
  | quotaExceeded (used max : ℕ)
  | sourceSymbols (count : UInt32) (objectId : ObjectId)
  | metadataMismatch (objectId : ObjectId)
  | sizeMismatch (expected got : ℕ)
  | zoneMismatch (expected got : ZoneId)
  | conflict (objectId : ObjectId) (esi : UInt32)
  | replayConflict (objectId : ObjectId) (esi : UInt32)
  | store (failure : StoreFailure)

variable (metadata : ObjectSymbolMeta)

def validateSourceSymbols : Except SymbolStoreError Unit :=
  if metadata.sourceSymbols = 0 ∨ maxSourceSymbols < metadata.sourceSymbols then
    .error (.sourceSymbols metadata.sourceSymbols metadata.objectId)
  else .ok ()

def symbolSize (symbol : StoredSymbol) : ℕ := symbol.data.length + 64

def symbolMatchesMeta (symbol : StoredSymbol) : Bool :=
  symbol.metadata.objectId = metadata.objectId ∧ symbol.metadata.zoneId = metadata.zoneId ∧
    symbol.data.length = metadata.oti.symbolSize.toNat

variable (object : DurableObjectSymbols)

def DurableObjectSymbols.size : ℕ :=
  entrySum symbolSize object.symbols

/-- `scrub_corrupt_symbols_locked`: the object without corrupt symbols, and their size. -/
def scrubCorruptSymbolsLocked : DurableObjectSymbols × ℕ :=
  ({ object with
      symbols := object.symbols.filter fun _ symbol => symbolMatchesMeta object.metadata symbol },
    object.symbols.toList.foldl
      (fun removed entry =>
        if symbolMatchesMeta object.metadata entry.2 then removed
        else saturatingAdd removed (symbolSize entry.2)) 0)

namespace DurableSymbolState

def default : DurableSymbolState := ⟨∅, 0⟩

variable (s : DurableSymbolState)

def scrubCorruptSymbols : DurableSymbolState where
  objects := s.objects.map fun _ object => (scrubCorruptSymbolsLocked object).1
  usedBytes := s.usedBytes - s.objects.toList.foldl
    (fun removed entry => saturatingAdd removed (scrubCorruptSymbolsLocked entry.2).2) 0

variable (entry : SymbolSnapshotEntry)

def loadEntry : DurableSymbolState where
  usedBytes := entry.symbols.foldl (fun used symbol => saturatingAdd used (symbolSize symbol))
    s.usedBytes
  objects := s.objects.insert entry.metadata.objectId
    ⟨entry.metadata,
      entry.symbols.foldl (fun symbols symbol => symbols.insert symbol.metadata.esi symbol) ∅⟩

/-- One object of `from_snapshot`. -/
def loadObject :
    Except SymbolStoreError DurableSymbolState := do
  validateSourceSymbols entry.metadata
  return s.loadEntry entry

def fromSnapshot (snapshot : List SymbolSnapshotEntry) :
    Except SymbolStoreError DurableSymbolState := do
  let s ← snapshot.foldlM loadObject default
  return s.scrubCorruptSymbols

/-- An object as an entry of a snapshot. -/
def snapshotEntry (object : DurableObjectSymbols) : SymbolSnapshotEntry where
  metadata := object.metadata
  symbols := (object.symbols.toList.map Prod.snd).mergeSort
    fun a b => a.metadata.esi ≤ b.metadata.esi

def toSnapshot : List SymbolSnapshotEntry :=
  (s.objects.toList.map fun entry => snapshotEntry entry.2).mergeSort
    fun a b => (objectIdCmp a.metadata.objectId b.metadata.objectId).isLE

def validateMutation (op : SymbolWalOp) (maxBytes : ℕ) : Except SymbolStoreError Unit :=
  match op with
  | .putObjectMeta metadata =>
    match validateSourceSymbols metadata with
    | .error e => .error e
    | .ok () =>
      match s.objects[metadata.objectId]? with
      | none => .ok ()
      | some object =>
        if object.metadata ≠ metadata then .error (.metadataMismatch metadata.objectId)
        else .ok ()
  | .putSymbol symbol =>
    match s.objects[symbol.metadata.objectId]? with
    | none => .error (.objectNotFound symbol.metadata.objectId)
    | some object =>
      let expectedSize := object.metadata.oti.symbolSize.toNat
      if symbol.data.length ≠ expectedSize then
        .error (.sizeMismatch expectedSize symbol.data.length)
      else if symbol.metadata.zoneId ≠ object.metadata.zoneId then
        .error (.zoneMismatch object.metadata.zoneId symbol.metadata.zoneId)
      else
        match object.symbols[symbol.metadata.esi]? with
        | some existing =>
          if existing.data = symbol.data then .ok ()
          else .error (.conflict symbol.metadata.objectId symbol.metadata.esi)
        | none =>
          if maxBytes < saturatingAdd s.usedBytes (symbolSize symbol) then
            .error (.quotaExceeded s.usedBytes maxBytes)
          else .ok ()
  | .deleteObject id => if id ∈ s.objects then .ok () else .error (.objectNotFound id)
  | .deleteSymbol id esi =>
    match s.objects[id]? with
    | none => .error (.objectNotFound id)
    | some object => if esi ∈ object.symbols then .ok () else .error (.notFound id esi)

def applyPutObjectMeta (metadata : ObjectSymbolMeta) : Except SymbolStoreError DurableSymbolState :=
  match validateSourceSymbols metadata with
  | .error e => .error e
  | .ok () =>
    match s.objects[metadata.objectId]? with
    | some existing =>
      if existing.metadata ≠ metadata then .error (.metadataMismatch metadata.objectId)
      else .ok s
    | none => .ok { s with objects := s.objects.insert metadata.objectId ⟨metadata, ∅⟩ }

def applyPutSymbol (symbol : StoredSymbol) : Except SymbolStoreError DurableSymbolState :=
  match s.objects[symbol.metadata.objectId]? with
  | none => .error (.objectNotFound symbol.metadata.objectId)
  | some object =>
    match object.symbols[symbol.metadata.esi]? with
    | some existing =>
      if existing.data = symbol.data then .ok s
      else .error (.replayConflict symbol.metadata.objectId symbol.metadata.esi)
    | none =>
      .ok
        { usedBytes := saturatingAdd s.usedBytes (symbolSize symbol)
          objects := s.objects.insert symbol.metadata.objectId
            { object with symbols := object.symbols.insert symbol.metadata.esi symbol } }

def applyDeleteObject (id : ObjectId) : Except SymbolStoreError DurableSymbolState :=
  match s.objects[id]? with
  | none => .error (.objectNotFound id)
  | some object => .ok ⟨s.objects.erase id, s.usedBytes - object.size⟩

def applyDeleteSymbol (id : ObjectId) (esi : UInt32) : Except SymbolStoreError DurableSymbolState :=
  match s.objects[id]? with
  | none => .error (.objectNotFound id)
  | some object =>
    match object.symbols[esi]? with
    | none => .ok s
    | some symbol =>
      .ok
        { usedBytes := s.usedBytes - symbolSize symbol
          objects := s.objects.insert id { object with symbols := object.symbols.erase esi } }

def applyLoadedMutation :
    SymbolWalOp → Except SymbolStoreError DurableSymbolState
  | .putObjectMeta metadata => s.applyPutObjectMeta metadata
  | .putSymbol symbol => s.applyPutSymbol symbol
  | .deleteObject id => s.applyDeleteObject id
  | .deleteSymbol id esi => s.applyDeleteSymbol id esi

end DurableSymbolState

open DurableSymbolState

/-- The part of `DurableSymbolStore` that is about symbols. -/
def symbolMachine :
    Machine DurableSymbolState SymbolWalOp (List SymbolSnapshotEntry) SymbolStoreError where
  initial := .default
  verify _ := .ok ()
  validateMutation := validateMutation
  applyLoadedMutation := applyLoadedMutation
  toSnapshot := toSnapshot
  fromSnapshot := fromSnapshot
  failure := .store
  addressable s
    | .putSymbol symbol => s.usedBytes + symbolSize symbol ≤ u64Max
    | _ => true

/-! ### The abstract store -/

/-- The bytes in use, computed from the objects. -/
def SymbolObjectMap.totalSize (objects : SymbolObjectMap) : ℕ :=
  entrySum DurableObjectSymbols.size objects

/-- A map from ids to objects with their symbols. Metadata that is there already changes
nothing, and neither does a symbol with the data that is there already. -/
def symbolSpec : StoreSpec SymbolObjectMap SymbolWalOp where
  initial := ∅
  transition objects
    | .putObjectMeta metadata =>
      if (validateSourceSymbols metadata).isOk then
        match objects[metadata.objectId]? with
        | none => some (objects.insert metadata.objectId ⟨metadata, ∅⟩)
        | some object => if object.metadata = metadata then some objects else none
      else none
    | .putSymbol symbol =>
      objects[symbol.metadata.objectId]?.bind fun object =>
        if symbolMatchesMeta object.metadata symbol then
          match object.symbols[symbol.metadata.esi]? with
          | some existing => if existing.data = symbol.data then some objects else none
          | none =>
            if objects.totalSize + symbolSize symbol ≤ u64Max then
              some (objects.insert symbol.metadata.objectId
                { object with symbols := object.symbols.insert symbol.metadata.esi symbol })
            else none
        else none
    | .deleteObject id => if id ∈ objects then some (objects.erase id) else none
    | .deleteSymbol id esi =>
      objects[id]?.bind fun object =>
        if esi ∈ object.symbols then
          some (objects.insert id { object with symbols := object.symbols.erase esi })
        else none

/-! ### What holds of a state -/

/-- An object that is under its id, with symbols that are under theirs and belong to it. -/
structure DurableObjectSymbols.ValidAt (id : ObjectId) (object : DurableObjectSymbols) :
    Prop where
  objectId_eq : object.metadata.objectId = id
  sourceSymbols_ok : validateSourceSymbols object.metadata = .ok ()
  esi_eq : ∀ {esi : UInt32} {symbol : StoredSymbol}, object.symbols[esi]? = some symbol →
    symbol.metadata.esi = esi
  symbol_matches : ∀ {esi : UInt32} {symbol : StoredSymbol}, object.symbols[esi]? = some symbol →
    symbolMatchesMeta object.metadata symbol = true

namespace DurableSymbolState

/-- A state in memory is in order: its objects are, and the bytes in use are the sizes of the
symbols. -/
structure Inv (s : DurableSymbolState) : Prop where
  valid : ∀ {id : ObjectId} {object : DurableObjectSymbols}, s.objects[id]? = some object →
    object.ValidAt id
  usedBytes_eq : s.usedBytes = s.objects.totalSize
  usedBytes_le : s.usedBytes ≤ u64Max

variable {s : DurableSymbolState} {id : ObjectId} {object : DurableObjectSymbols}

theorem inv_default : Inv default where
  valid h := by cases h
  usedBytes_eq := entrySum_empty.symm
  usedBytes_le := Nat.zero_le _

theorem Inv.insert (h : Inv s) (hvalid : object.ValidAt id) {used : ℕ}
    (hused : used = SymbolObjectMap.totalSize (s.objects.insert id object)) (hle : used ≤ u64Max) :
    Inv ⟨s.objects.insert id object, used⟩ := by
  refine ⟨?_, hused, hle⟩
  intro other o ho
  rcases getElem?_insert_eq_some.mp ho with ⟨rfl, rfl⟩ | ⟨-, ho⟩
  · exact hvalid
  · exact h.valid ho

/-- Replacing an object by one of another size. -/
theorem Inv.replace (h : Inv s) (hobject : s.objects[id]? = some object)
    {object' : DurableObjectSymbols} (hvalid : object'.ValidAt id) {used : ℕ}
    (hused : used + object.size = s.usedBytes + object'.size) (hle : used ≤ u64Max) :
    Inv ⟨s.objects.insert id object', used⟩ := by
  refine h.insert hvalid ?_ hle
  have hreplace : entrySum DurableObjectSymbols.size (s.objects.insert id object') + object.size =
      s.objects.totalSize + object'.size := entrySum_replace hobject
  have hold := h.usedBytes_eq
  rw [SymbolObjectMap.totalSize]
  omega

variable {metadata : ObjectSymbolMeta}
theorem Inv.insert_empty (h : Inv s) (hsource : validateSourceSymbols metadata = .ok ())
    (hnew : s.objects[metadata.objectId]? = none) :
    Inv { s with objects := s.objects.insert metadata.objectId ⟨metadata, ∅⟩ } := by
  have hvalid : DurableObjectSymbols.ValidAt metadata.objectId ⟨metadata, ∅⟩ :=
    ⟨rfl, hsource, fun h => (by cases h), fun h => (by cases h)⟩
  refine h.insert hvalid ?_ h.usedBytes_le
  have hsum : entrySum DurableObjectSymbols.size
      (s.objects.insert metadata.objectId ⟨metadata, ∅⟩) =
        entrySum DurableObjectSymbols.size s.objects + DurableObjectSymbols.size ⟨metadata, ∅⟩ :=
    entrySum_insert (not_mem_of_getElem?_eq_none hnew)
  rw [SymbolObjectMap.totalSize, hsum]
  exact h.usedBytes_eq

/-- Adding a new symbol to an object. -/
theorem Inv.insert_symbol (h : Inv s) {symbol : StoredSymbol} (hobject : s.objects[id]? = some object)
    (hmatches : symbolMatchesMeta object.metadata symbol = true)
    (hnew : object.symbols[symbol.metadata.esi]? = none)
    (hsize : s.objects.totalSize + symbolSize symbol ≤ u64Max) :
    Inv ⟨s.objects.insert id
        { object with symbols := object.symbols.insert symbol.metadata.esi symbol },
      saturatingAdd s.usedBytes (symbolSize symbol)⟩ := by
  have hvalid := h.valid hobject
  have hused : saturatingAdd s.usedBytes (symbolSize symbol) = s.usedBytes + symbolSize symbol := by
    rw [← h.usedBytes_eq] at hsize
    exact saturatingAdd_of_le hsize
  have hvalid' : DurableObjectSymbols.ValidAt id
      { object with symbols := object.symbols.insert symbol.metadata.esi symbol } := by
    refine ⟨hvalid.objectId_eq, hvalid.sourceSymbols_ok, ?_, ?_⟩
    · intro esi other hother
      rcases getElem?_insert_eq_some.mp hother with ⟨rfl, rfl⟩ | ⟨-, hold⟩
      · rfl
      · exact hvalid.esi_eq hold
    · intro esi other hother
      rcases getElem?_insert_eq_some.mp hother with ⟨rfl, rfl⟩ | ⟨-, hold⟩
      · exact hmatches
      · exact hvalid.symbol_matches hold
  have hgrow : DurableObjectSymbols.size
      { object with symbols := object.symbols.insert symbol.metadata.esi symbol } =
      object.size + symbolSize symbol := entrySum_insert (not_mem_of_getElem?_eq_none hnew)
  refine h.replace hobject hvalid' (by omega) ?_
  rwa [hused, h.usedBytes_eq]

theorem Inv.erase (h : Inv s) (hobject : s.objects[id]? = some object) :
    Inv ⟨s.objects.erase id, s.usedBytes - object.size⟩ := by
  have hsum : entrySum DurableObjectSymbols.size s.objects =
      entrySum DurableObjectSymbols.size (s.objects.erase id) + object.size :=
    entrySum_erase hobject
  have hused := h.usedBytes_eq
  have hle := h.usedBytes_le
  rw [SymbolObjectMap.totalSize] at hused
  refine ⟨?_, ?_, ?_⟩
  · intro other o ho
    exact h.valid (getElem?_erase_eq_some.mp ho).2
  · change s.usedBytes - object.size = entrySum DurableObjectSymbols.size (s.objects.erase id)
    omega
  · exact (Nat.sub_le _ _).trans hle

theorem Inv.erase_symbol (h : Inv s) (hobject : s.objects[id]? = some object) {esi : UInt32}
    {symbol : StoredSymbol} (hsymbol : object.symbols[esi]? = some symbol) :
    Inv ⟨s.objects.insert id { object with symbols := object.symbols.erase esi },
      s.usedBytes - symbolSize symbol⟩ := by
  have hvalid := h.valid hobject
  have hshrink : object.size =
      DurableObjectSymbols.size { object with symbols := object.symbols.erase esi } +
        symbolSize symbol := entrySum_erase hsymbol
  have hsum : s.objects.totalSize = entrySum DurableObjectSymbols.size (s.objects.erase id) +
      object.size := entrySum_erase hobject
  have hused := h.usedBytes_eq
  have hvalid' : DurableObjectSymbols.ValidAt id
      { object with symbols := object.symbols.erase esi } :=
    ⟨hvalid.objectId_eq, hvalid.sourceSymbols_ok,
      fun ho => hvalid.esi_eq (getElem?_erase_eq_some.mp ho).2,
      fun ho => hvalid.symbol_matches (getElem?_erase_eq_some.mp ho).2⟩
  exact h.replace hobject hvalid' (by omega) ((Nat.sub_le _ _).trans h.usedBytes_le)

/-! ### Snapshots -/

theorem foldl_saturatingAdd {sizes : List ℕ} {used : ℕ} (h : used + sizes.sum ≤ u64Max) :
    sizes.foldl saturatingAdd used = used + sizes.sum := by
  induction sizes generalizing used with
  | nil => rfl
  | cons size sizes ih =>
    rw [sum_cons] at h ⊢
    rw [foldl_cons, saturatingAdd_of_le (by omega), ih (by omega), Nat.add_assoc]

theorem snapshotEntry_perm (object : DurableObjectSymbols) :
    (snapshotEntry object).symbols.Perm (object.symbols.toList.map Prod.snd) :=
  mergeSort_perm _ _

/-- Loading the snapshot of an object adds the object and its size. -/
theorem loadEntry_snapshotEntry (hvalid : object.ValidAt id)
    (hsize : s.usedBytes + object.size ≤ u64Max) :
    s.loadEntry (snapshotEntry object) =
      ⟨s.objects.insert id object, s.usedBytes + object.size⟩ := by
  have hperm := snapshotEntry_perm object
  have hsum : ((snapshotEntry object).symbols.map symbolSize).sum = object.size := by
    rw [(hperm.map _).sum_eq, map_map]
    rfl
  have hused : (snapshotEntry object).symbols.foldl
      (fun used symbol => saturatingAdd used (symbolSize symbol)) s.usedBytes =
      s.usedBytes + object.size := by
    have hfold : ((snapshotEntry object).symbols.map symbolSize).foldl saturatingAdd s.usedBytes =
        s.usedBytes + ((snapshotEntry object).symbols.map symbolSize).sum :=
      foldl_saturatingAdd (by rwa [hsum])
    rwa [hsum, foldl_map] at hfold
  have hentries : ((snapshotEntry object).symbols.map fun symbol =>
      (symbol.metadata.esi, symbol)).Perm object.symbols.toList :=
    map_key_perm (fun esi symbol hget => hvalid.esi_eq hget) hperm
  have hsymbols : (snapshotEntry object).symbols.foldl
      (fun symbols symbol => symbols.insert symbol.metadata.esi symbol) ∅ = object.symbols := by
    have hfill := foldl_insert_eq_of_perm hentries
    rwa [foldl_map] at hfill
  have hid : (snapshotEntry object).metadata.objectId = id := hvalid.objectId_eq
  rw [loadEntry, hused, hsymbols, hid]
  rfl

/-- Scrubbing removes nothing from an object in order. -/
theorem scrubCorruptSymbolsLocked_of_valid (hvalid : object.ValidAt id) :
    scrubCorruptSymbolsLocked object = (object, 0) := by
  have hmatches : ∀ entry ∈ object.symbols.toList,
      symbolMatchesMeta object.metadata entry.2 = true := by
    rintro ⟨esi, symbol⟩ hentry
    exact hvalid.symbol_matches (ExtTreeMap.mem_toList_iff_getElem?_eq_some.mp hentry)
  have hkept : object.symbols.filter
      (fun _ symbol => symbolMatchesMeta object.metadata symbol) = object.symbols := by
    refine ExtTreeMap.ext_getElem? fun esi => ?_
    rw [ExtTreeMap.getElem?_filter']
    cases hget : object.symbols[esi]? with
    | none => rfl
    | some symbol => rw [Option.filter_some, hvalid.symbol_matches hget, if_pos rfl]
  rw [scrubCorruptSymbolsLocked, hkept,
    foldl_of_fixed fun entry hentry => if_pos (hmatches entry hentry)]

/-- A state in order is not changed by scrubbing. -/
theorem Inv.scrubCorruptSymbols (h : Inv s) : s.scrubCorruptSymbols = s := by
  have hclean : ∀ entry ∈ s.objects.toList, scrubCorruptSymbolsLocked entry.2 = (entry.2, 0) := by
    rintro ⟨id, object⟩ hentry
    exact scrubCorruptSymbolsLocked_of_valid
      (h.valid (ExtTreeMap.mem_toList_iff_getElem?_eq_some.mp hentry))
  have hobjects : s.objects.map (fun _ object => (scrubCorruptSymbolsLocked object).1) =
      s.objects := by
    refine ExtTreeMap.ext_getElem? fun id => ?_
    rw [ExtTreeMap.getElem?_map]
    cases hget : s.objects[id]? with
    | none => rfl
    | some object => rw [Option.map_some, scrubCorruptSymbolsLocked_of_valid (h.valid hget)]
  have hremoved : s.objects.toList.foldl (fun removed entry =>
      saturatingAdd removed (scrubCorruptSymbolsLocked entry.2).2) 0 = 0 := by
    refine foldl_of_fixed fun entry hentry => ?_
    rw [hclean entry hentry]
    exact saturatingAdd_of_le (Nat.zero_le _)
  rw [DurableSymbolState.scrubCorruptSymbols, hobjects, hremoved, Nat.sub_zero]

theorem Inv.fromSnapshot_toSnapshot (h : Inv s) :
    ∃ s', fromSnapshot s.toSnapshot = .ok s' ∧ Inv s' ∧ s'.objects = s.objects := by
  have hperm : s.toSnapshot.Perm (s.objects.toList.map fun entry => snapshotEntry entry.2) :=
    mergeSort_perm _ _
  obtain ⟨entries, hentries, hsnapshot⟩ := exists_perm_of_perm_map hperm
  have hle := h.usedBytes_le
  rw [h.usedBytes_eq] at hle
  obtain ⟨s', hs', hinv, hobjects⟩ : ∃ s', entries.foldlM (fun s entry =>
      loadObject s (snapshotEntry entry.2)) default = .ok s' ∧ Inv s' ∧ s'.objects = s.objects := by
    refine exists_foldlM_of_perm (fun entry => entry) DurableObjectSymbols.size ?_ ?_ inv_default
    · rintro s' ⟨id, object⟩ hmem hinv hfresh hsize
      have hvalid := h.valid (ExtTreeMap.mem_toList_iff_getElem?_eq_some.mp hmem)
      have hused : s'.usedBytes + object.size ≤ u64Max := by
        rw [hinv.usedBytes_eq]
        exact hsize.trans hle
      refine ⟨⟨s'.objects.insert id object, s'.usedBytes + object.size⟩, ?_,
        hinv.insert hvalid ?_ hused, rfl⟩
      · have hsource : validateSourceSymbols (snapshotEntry object).metadata = .ok () :=
          hvalid.sourceSymbols_ok
        rw [loadObject, loadEntry_snapshotEntry hvalid hused, hsource]
        rfl
      · rw [hinv.usedBytes_eq]
        exact (entrySum_insert hfresh).symm
    · rw [map_id']
      exact (Perm.of_eq (append_nil _)).trans hentries
  refine ⟨s', ?_, hinv, hobjects⟩
  rw [fromSnapshot, hsnapshot, foldlM_map, hs']
  change Except.ok s'.scrubCorruptSymbols = _
  rw [hinv.scrubCorruptSymbols]

/-! ### The refinement -/

variable {op : SymbolWalOp}

/-- A mutation that passes the checks is possible. -/
theorem Inv.exists_transition (h : Inv s) {maxBytes : ℕ}
    (hvalidate : s.validateMutation op maxBytes = .ok ())
    (haddressable : symbolMachine.addressable s op = true) :
    ∃ v, symbolSpec.transition s.objects op = some v := by
  cases op with
  | putObjectMeta metadata =>
    cases hsource : validateSourceSymbols metadata with
    | error e => simp [validateMutation, hsource] at hvalidate
    | ok u =>
      have hok := isOk_iff.mpr hsource
      cases hget : s.objects[metadata.objectId]? with
      | none => simp [symbolSpec, hok, hget]
      | some object =>
        simp [validateMutation, hsource, hget] at hvalidate
        simp [symbolSpec, hok, hget, hvalidate]
  | putSymbol symbol =>
    cases hget : s.objects[symbol.metadata.objectId]? with
    | none => simp [validateMutation, hget] at hvalidate
    | some object =>
      have hid := (h.valid hget).objectId_eq.symm
      cases hsymbol : object.symbols[symbol.metadata.esi]? with
      | some existing =>
        simp only [validateMutation, hget, hsymbol] at hvalidate
        split_ifs at hvalidate with hlength hzone hdata
        simp_all [symbolSpec, symbolMatchesMeta]
      | none =>
        simp only [validateMutation, hget, hsymbol] at hvalidate
        split_ifs at hvalidate with hlength hzone hquota
        have hsize : s.objects.totalSize + symbolSize symbol ≤ u64Max := by
          rw [← h.usedBytes_eq]
          exact of_decide_eq_true haddressable
        simp_all [symbolSpec, symbolMatchesMeta]
  | deleteObject id =>
    rw [validateMutation] at hvalidate
    split_ifs at hvalidate with hmem
    exact ⟨_, if_pos hmem⟩
  | deleteSymbol id esi =>
    cases hget : s.objects[id]? with
    | none => simp [validateMutation, hget] at hvalidate
    | some object =>
      simp only [validateMutation, hget] at hvalidate
      split_ifs at hvalidate with hmem
      simp [symbolSpec, hget, hmem]

/-- A mutation that is possible passes the checks without a quota and is carried out. -/
theorem Inv.apply_transition (h : Inv s) {v : SymbolObjectMap}
    (hv : symbolSpec.transition s.objects op = some v) :
    s.validateMutation op u64Max = .ok () ∧
      ∃ s', s.applyLoadedMutation op = .ok s' ∧ Inv s' ∧ s'.objects = v := by
  cases op with
  | putObjectMeta metadata =>
    simp only [symbolSpec] at hv
    split_ifs at hv with hok
    have hsource := isOk_iff.mp hok
    rw [validateMutation, applyLoadedMutation, applyPutObjectMeta]
    simp only [hsource]
    cases hget : s.objects[metadata.objectId]? with
    | none =>
      simp only [hget] at hv
      cases hv
      exact ⟨rfl, _, rfl, h.insert_empty hsource hget, rfl⟩
    | some object =>
      simp only [hget] at hv
      split_ifs at hv with hsame
      cases hv
      simp only [if_neg (not_not.mpr hsame)]
      exact ⟨trivial, s, rfl, h, rfl⟩
  | putSymbol symbol =>
    obtain ⟨object, hget, hv⟩ := Option.bind_eq_some_iff.mp hv
    by_cases hmatches : symbolMatchesMeta object.metadata symbol = true
    swap
    · rw [if_neg hmatches] at hv
      cases hv
    obtain ⟨-, hzone, hlength⟩ := of_decide_eq_true hmatches
    rw [validateMutation, applyLoadedMutation, applyPutSymbol]
    simp only [hget, if_neg (not_not.mpr hlength), if_neg (not_not.mpr hzone)]
    cases hsymbol : object.symbols[symbol.metadata.esi]? with
    | some existing =>
      simp only [hsymbol] at hv
      split_ifs at hv with hdata
      cases hv
      simp only [if_pos hdata]
      exact ⟨trivial, s, rfl, h, rfl⟩
    | none =>
      simp only [hsymbol] at hv
      split_ifs at hv with hsize
      cases hv
      have hquota : saturatingAdd s.usedBytes (symbolSize symbol) ≤ u64Max := Nat.min_le_right _ _
      simp only [if_neg (Nat.not_lt.mpr hquota)]
      exact ⟨trivial, _, rfl, h.insert_symbol hget hmatches hsymbol hsize, rfl⟩
  | deleteObject id =>
    simp only [symbolSpec] at hv
    split_ifs at hv with hmem
    cases hv
    have hget := ExtTreeMap.getElem?_eq_some_getElem hmem
    refine ⟨if_pos hmem, _, ?_, h.erase hget, rfl⟩
    rw [applyLoadedMutation, applyDeleteObject, hget]
  | deleteSymbol id esi =>
    obtain ⟨object, hget, hv⟩ := Option.bind_eq_some_iff.mp hv
    split_ifs at hv with hmem
    cases hv
    have hsymbol := ExtTreeMap.getElem?_eq_some_getElem hmem
    refine ⟨?_, _, ?_, h.erase_symbol hget hsymbol, rfl⟩
    · rw [validateMutation, hget]
      exact if_pos hmem
    · rw [applyLoadedMutation, applyDeleteSymbol, hget]
      simp only [hsymbol]

end DurableSymbolState

/-- The durable symbol store refines the map from ids to objects with their symbols. -/
def symbolRefinement : Refinement symbolMachine SymbolObjectMap where
  spec := symbolSpec
  view := objects
  Inv := Inv
  inv_initial := inv_default
  view_initial := rfl
  accepted := fun hinv _ hvalidate haddressable => hinv.exists_transition hvalidate haddressable
  applied := fun hinv hv => ⟨rfl, hinv.apply_transition hv⟩
  restored := fun hinv => hinv.fromSnapshot_toSnapshot

end Flywheel.Store
