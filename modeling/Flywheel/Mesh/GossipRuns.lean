import Flywheel.Mesh.Gossip
import Flywheel.Mesh.IbltReconcile

/-!
# Incremental and rebuilt gossip state

Announcing and removing objects and symbols keeps the filters and the two sketches equal
to those built from scratch from the authoritative sets. One lemma says for each kind of
call that the relation is kept, and a history keeps it by induction. Two fields remember
the history on purpose: the timestamp of the last update and the counter of changes.
-/

namespace Flywheel.Mesh

open Flywheel.Core Flywheel.Data XorFilterPlaceholder Finset List
open Std (ExtTreeMap ExtTreeSet LawfulEqCmp)

/-- A call on the state of a zone. Queries are calls, since they fill the filters' caches. -/
inductive GossipCall
  | announceObject (objectId : ObjectId) (now : UInt64)
  | announceSymbol (objectId : ObjectId) (esi : UInt32) (now : UInt64)
  | removeObject (objectId : ObjectId) (now : UInt64)
  | rebuildFilters
  | mayHaveObject (objectId : ObjectId)
  | mayHaveSymbol (objectId : ObjectId) (esi : UInt32)

variable {blake3 : List UInt8 → Bytes 32} {Xor8 : Type} {xorf : Xorf Xor8}

def GossipSummary.undated (summary : GossipSummary) : GossipSummary :=
  { summary with timestamp := 0 }

/-- The masked ids of a set of objects. -/
def maskedSet (mask : IbltMask) (objects : ObjectSet) : Finset ObjectId :=
  objects.toList.toFinset.image mask.apply

namespace GossipState

/-- The objects of the sketches: the admitted ones, masked. -/
abbrev sketched (s : GossipState Xor8) : Finset ObjectId :=
  maskedSet s.ibltMask s.admittedObjects

variable (blake3 xorf)

def call (s : GossipState Xor8) : GossipCall → GossipState Xor8
  | .announceObject objectId now => s.announceObject blake3 objectId now
  | .announceSymbol objectId esi now => s.announceSymbol blake3 objectId esi now
  | .removeObject objectId now => s.removeObject blake3 objectId now
  | .rebuildFilters => s.rebuildFilters blake3
  | .mayHaveObject objectId => (s.mayHaveObject blake3 xorf objectId).2
  | .mayHaveSymbol objectId esi => (s.mayHaveSymbol blake3 xorf objectId esi).2

variable (zoneId : ZoneId) (config : GossipConfig)

/-- The state of a zone after a history of calls. -/
def run (calls : List GossipCall) : GossipState Xor8 :=
  calls.foldl (call blake3 xorf) (new blake3 zoneId config)

/-- No count of a cell saturates on the way. -/
def NeverSaturates (calls : List GossipCall) : Prop :=
  ∀ k, Unsaturated blake3 (Iblt.recommendedCellCount config.reconciliationBatchSize)
    (run blake3 xorf zoneId config (calls.take k)).sketched

/-- The state built from scratch from the authoritative sets. -/
def rebuilt (objects : ObjectSet) (symbols : SymbolMap) : GossipState Xor8 :=
  let fresh : GossipState Xor8 := new blake3 zoneId config
  rebuildFilters blake3
    { fresh with
      admittedObjects := objects
      symbolAvailability := symbols
      cachedIblt := objects.toList.foldl
        (fun iblt objectId => iblt.insert blake3 (fresh.ibltMask.apply objectId)) fresh.cachedIblt
      ibltState := objects.toList.foldl (IbltPlaceholder.noteLocalChange blake3) fresh.ibltState }

end GossipState

/-! ### Filters of a set of items -/

def objectItems (objects : ObjectSet) : Set (List UInt8) :=
  {item | ∃ objectId ∈ objects, objectId.toList = item}

def symbolItems (symbols : SymbolMap) : Set (List UInt8) :=
  {item | ∃ objectId esis esi, symbols[objectId]? = some esis ∧ esi ∈ esis ∧
    symbolKey objectId esi = item}

variable (blake3 xorf) in
/-- A filter that has the keys of a set of items. -/
structure FilterOf (items : Set (List UInt8)) (f : XorFilterPlaceholder Xor8) : Prop where
  seed_eq : f.seed = 0
  mem_keys : ∀ key, key ∈ f.keys ↔
    ∃ item ∈ items, hashItem blake3 0 item = key
  current : f.CachesCurrent blake3 xorf

variable (blake3 xorf) in
/-- Two filters that cannot be told apart. -/
structure SameFilter (f g : XorFilterPlaceholder Xor8) : Prop where
  keys_eq : f.keys = g.keys
  seed_eq : f.seed = g.seed
  mayContain_eq : ∀ item, (f.mayContain blake3 xorf item).1 = (g.mayContain blake3 xorf item).1

namespace FilterOf

variable {items : Set (List UInt8)} {f g : XorFilterPlaceholder Xor8}

theorem same (hf : FilterOf blake3 xorf items f) (hg : FilterOf blake3 xorf items g) :
    SameFilter blake3 xorf f g := by
  have hkeys : f.keys = g.keys :=
    ExtTreeSet.ext_mem fun key => (hf.mem_keys key).trans (hg.mem_keys key).symm
  have hseed : f.seed = g.seed := hf.seed_eq.trans hg.seed_eq.symm
  refine ⟨hkeys, hseed, fun item => ?_⟩
  unfold XorFilterPlaceholder.mayContain
  rw [hf.current.ensureBuilt_eq, hg.current.ensureBuilt_eq, hkeys, hseed]
  dsimp only
  split_ifs <;> rfl

section

variable (h : FilterOf blake3 xorf items f)
include h

theorem insert {items' : Set (List UInt8)} {item : List UInt8}
    (hitems : ∀ x, x ∈ items' ↔ x = item ∨ x ∈ items) :
    FilterOf blake3 xorf items' (f.insert blake3 item) where
  seed_eq := by rw [seed_insert, h.seed_eq]
  mem_keys key := by
    rw [mem_keys_insert, h.mem_keys, h.seed_eq]
    simp only [hitems, or_and_right, exists_or, exists_eq_left]
  current := h.current.insert item

theorem mayContain (item : List UInt8) :
    FilterOf blake3 xorf items (f.mayContain blake3 xorf item).2 := by
  obtain ⟨hkeys, hseed, hcurrent⟩ := h.current.mayContain item
  refine ⟨hseed.trans h.seed_eq, fun key => ?_, hcurrent⟩
  rw [hkeys]
  exact h.mem_keys key

theorem mayContain_of_mem {item : List UInt8}
    (hitem : item ∈ items) : (f.mayContain blake3 xorf item).1 = true := by
  refine XorFilterPlaceholder.mayContain_of_mem ((h.mem_keys _).mpr ⟨item, hitem, ?_⟩)
  rw [h.seed_eq]

end

/-- The filter that is made by inserting listed items. -/
theorem of_list {list : List (List UInt8)} (hlist : ∀ x, x ∈ items ↔ x ∈ list) :
    FilterOf blake3 xorf items
      (list.foldl (XorFilterPlaceholder.insert blake3) (.new : XorFilterPlaceholder Xor8)) where
  seed_eq := seed_foldl_insert _
  mem_keys key := by
    have hnone : key ∉ (new : XorFilterPlaceholder Xor8).keys :=
      ExtTreeSet.not_mem_empty
    have hseed : (new : XorFilterPlaceholder Xor8).seed = 0 := rfl
    rw [mem_keys_foldl_insert, hseed]
    simp only [hlist, hnone, or_false]
  current := (cachesCurrent_of_none rfl rfl).foldl_insert list

end FilterOf

namespace GossipState

/-- The filters after `rebuild_filters` are those of the authoritative sets. -/
theorem filterOf_rebuildFilters (s : GossipState Xor8) :
    FilterOf blake3 xorf (objectItems s.admittedObjects) (s.rebuildFilters blake3).objectFilter ∧
      FilterOf blake3 xorf (symbolItems s.symbolAvailability)
        (s.rebuildFilters blake3).symbolFilter := by
  constructor
  · have hlist : ∀ item, item ∈ objectItems s.admittedObjects ↔
        item ∈ s.admittedObjects.toList.map List.Vector.toList := by
      intro item
      rw [List.mem_map]
      simp only [ExtTreeSet.mem_toList]
      rfl
    have hfilter : FilterOf blake3 xorf (objectItems s.admittedObjects) _ := FilterOf.of_list hlist
    rwa [foldl_map] at hfilter
  · have hlist : ∀ item, item ∈ symbolItems s.symbolAvailability ↔
        item ∈ s.symbolAvailability.toList.flatMap
          fun entry => entry.2.toList.map (symbolKey entry.1) := by
      intro item
      simp only [symbolItems, Set.mem_ofPred_eq, mem_flatMap, List.mem_map, Prod.exists,
        ExtTreeMap.mem_toList_iff_getElem?_eq_some, ExtTreeSet.mem_toList, exists_and_left]
    have hfilter : FilterOf blake3 xorf (symbolItems s.symbolAvailability) _ :=
      FilterOf.of_list hlist
    simp only [foldl_flatMap, foldl_map] at hfilter
    exact hfilter

end GossipState

/-! ### Sketches of a set of objects -/

section Sketches

variable {n : ℕ} {S : Finset ObjectId} {x : ObjectId}

theorem Holds.iblt_eq {sgn : ObjectId → ℤ} {t t' : Iblt} (h : Holds blake3 n sgn S t.cells)
    (h' : Holds blake3 n sgn S t'.cells) : t = t' := by
  refine congrArg Iblt.mk (ext_getElem? fun i => ?_)
  by_cases hi : i < n
  · rw [h.getElem?_eq i hi, h'.getElem?_eq i hi]
  · rw [getElem?_eq_none (by rw [h.length_eq]; omega),
      getElem?_eq_none (by rw [h'.length_eq]; omega)]

theorem Unsaturated.inRange (h : Unsaturated blake3 n S) (i : ℕ) :
    InRange (∑ _y ∈ keysAt blake3 n S i, (1 : ℤ)) := by
  have hcard := h i
  rw [sum_const, nsmul_eq_mul, InRange]
  omega

theorem Unsaturated.mono {R : Finset ObjectId} (h : Unsaturated blake3 n S) (hR : R ⊆ S) :
    Unsaturated blake3 n R :=
  fun i => lt_of_le_of_lt (card_le_card (keysAt_mono hR i)) (h i)

theorem mask_mem_maskedSet {mask : IbltMask} {objects : ObjectSet} {x : ObjectId} :
    mask.apply x ∈ maskedSet mask objects ↔ x ∈ objects := by
  rw [maskedSet, (mask_injective mask).mem_finset_image, mem_toFinset, ExtTreeSet.mem_toList]

theorem maskedSet_insert (mask : IbltMask) (objects : ObjectSet) (x : ObjectId) :
    maskedSet mask (objects.insert x) = insert (mask.apply x) (maskedSet mask objects) := by
  rw [maskedSet, maskedSet, ← image_insert]
  congr 1
  ext y
  rw [mem_toFinset, ExtTreeSet.mem_toList, ExtTreeSet.mem_insert,
    LawfulEqCmp.compare_eq_iff_eq, mem_insert, mem_toFinset, ExtTreeSet.mem_toList,
    eq_comm]

theorem maskedSet_erase (mask : IbltMask) (objects : ObjectSet) (x : ObjectId) :
    maskedSet mask (objects.erase x) = (maskedSet mask objects).erase (mask.apply x) := by
  rw [maskedSet, maskedSet, ← image_erase (mask_injective mask)]
  congr 1
  ext y
  rw [mem_toFinset, ExtTreeSet.mem_toList, ExtTreeSet.mem_erase, Ne,
    LawfulEqCmp.compare_eq_iff_eq, mem_erase, mem_toFinset, ExtTreeSet.mem_toList, eq_comm]

/-- `Iblt::insert` of an object that is not there. -/
theorem Holds.insert (hn : ibltHashCount ≤ n) {t : Iblt}
    (h : Holds blake3 n (fun _ => 1) S t.cells) (hx : x ∉ S)
    (hsat : Unsaturated blake3 n (insert x S)) :
    Holds blake3 n (fun _ => 1) (insert x S) (t.insert blake3 x).cells := by
  rw [Iblt.insert, Iblt.apply, h.length_eq]
  exact h.apply_insert hn hx hsat.inRange

/-- `Iblt::delete` of an object that is there. -/
theorem Holds.delete (hn : ibltHashCount ≤ n) {t : Iblt}
    (h : Holds blake3 n (fun _ => 1) S t.cells) (hx : x ∈ S) (hsat : Unsaturated blake3 n S) :
    Holds blake3 n (fun _ => 1) (S.erase x) (t.delete blake3 x).cells := by
  rw [Iblt.delete, Iblt.apply, h.length_eq]
  exact h.apply_erase hn hx (hsat.mono (erase_subset x S)).inRange

theorem ibltHashCount_le_recommendedCellCount (expectedDifference : ℕ) :
    ibltHashCount ≤ Iblt.recommendedCellCount expectedDifference :=
  le_trans (by decide) (Iblt.le_recommendedCellCount expectedDifference)

end Sketches

/-! ### The relation that every call keeps -/

namespace GossipState

/-- The number of cells of a configuration's sketches. -/
abbrev cellCount (config : GossipConfig) : ℕ :=
  Iblt.recommendedCellCount config.reconciliationBatchSize

variable (blake3 xorf) in
/-- Everything that is kept incrementally stands for the authoritative sets. -/
structure Consistent (zoneId : ZoneId) (config : GossipConfig) (s : GossipState Xor8) : Prop where
  zone_eq : s.zoneId = zoneId
  mask_eq : s.ibltMask = IbltMask.forZone blake3 zoneId
  stateMask_eq : s.ibltState.mask = IbltMask.forZone blake3 zoneId
  /-- The size of the cached sketch is that of the configuration. -/
  cachedCells_eq : s.cachedIbltCellCount = cellCount config
  /-- The size of the summary sketch is that of the configuration. -/
  stateCells_eq : s.ibltState.cellCount = cellCount config
  cached : Holds blake3 (cellCount config) (fun _ => 1) s.sketched s.cachedIblt.cells
  sketch : Holds blake3 (cellCount config) (fun _ => 1) s.sketched s.ibltState.iblt.cells
  objects : FilterOf blake3 xorf (objectItems s.admittedObjects) s.objectFilter
  symbols : FilterOf blake3 xorf (symbolItems s.symbolAvailability) s.symbolFilter

variable {zoneId : ZoneId} {config : GossipConfig} {s : GossipState Xor8}

namespace Consistent

theorem announceObject (h : s.Consistent blake3 xorf zoneId config) (objectId : ObjectId)
    (now : UInt64)
    (hsat : Unsaturated blake3 (cellCount config)
      (s.announceObject blake3 objectId now).sketched) :
    (s.announceObject blake3 objectId now).Consistent blake3 xorf zoneId config := by
  have hn := ibltHashCount_le_recommendedCellCount config.reconciliationBatchSize
  unfold GossipState.announceObject at hsat ⊢
  split_ifs at hsat ⊢ with hmem
  · exact h
  · have hnew : s.ibltMask.apply objectId ∉ s.sketched := fun hin =>
      hmem (mask_mem_maskedSet.mp hin)
    have hmask : s.ibltState.mask = s.ibltMask := h.stateMask_eq.trans h.mask_eq.symm
    change Unsaturated _ _ (maskedSet s.ibltMask (s.admittedObjects.insert objectId)) at hsat
    rw [maskedSet_insert] at hsat
    refine { h with cached := ?_, sketch := ?_, objects := ?_ }
    · change Holds _ _ _ (maskedSet s.ibltMask (s.admittedObjects.insert objectId)) _
      rw [maskedSet_insert]
      exact h.cached.insert hn hnew hsat
    · change Holds _ _ _ (maskedSet s.ibltMask (s.admittedObjects.insert objectId))
        (s.ibltState.iblt.insert blake3 (s.ibltState.mask.apply objectId)).cells
      rw [maskedSet_insert, hmask]
      exact h.sketch.insert hn hnew hsat
    · refine h.objects.insert fun item => ?_
      simp only [objectItems, ExtTreeSet.mem_insert,
        LawfulEqCmp.compare_eq_iff_eq, or_and_right, exists_or, exists_eq_left']
      exact or_congr_left eq_comm

/-- Adding a symbol changes the symbols only. -/
theorem addSymbol (h : s.Consistent blake3 xorf zoneId config) (objectId : ObjectId)
    (esi : UInt32) (now : UInt64) :
    (s.addSymbol blake3 objectId esi now).Consistent blake3 xorf zoneId config := by
  unfold GossipState.addSymbol
  dsimp only
  split_ifs with hmem
  · exact h
  · refine { h with symbols := h.symbols.insert fun item => ?_ }
    simp only [symbolItems, ExtTreeMap.getElem?_insert,
      LawfulEqCmp.compare_eq_iff_eq]
    constructor
    · rintro ⟨x, esis, e, hget, he, rfl⟩
      split_ifs at hget with hx
      · rw [← Option.some.inj hget, ExtTreeSet.mem_insert, LawfulEqCmp.compare_eq_iff_eq] at he
        subst hx
        rcases he with rfl | he
        · exact .inl rfl
        · cases hold : s.symbolAvailability[objectId]? with
          | none => simp [hold] at he
          | some old => exact .inr ⟨objectId, old, e, hold, by simpa [hold] using he, rfl⟩
      · exact .inr ⟨x, esis, e, hget, he, rfl⟩
    · rintro (rfl | ⟨x, esis, e, hget, he, rfl⟩)
      · exact ⟨objectId, _, esi, if_pos rfl, ExtTreeSet.mem_insert_self, rfl⟩
      · by_cases hx : objectId = x
        · subst hx
          refine ⟨objectId, _, e, if_pos rfl, ?_, rfl⟩
          rw [hget]
          exact ExtTreeSet.mem_insert.mpr (.inr he)
        · exact ⟨x, esis, e, by rw [if_neg hx, hget], he, rfl⟩

theorem sketch_addSymbol (s : GossipState Xor8) (objectId : ObjectId) (esi : UInt32)
    (now : UInt64) : (s.addSymbol blake3 objectId esi now).sketched = s.sketched ∧
      (s.addSymbol blake3 objectId esi now).ibltState = s.ibltState := by
  unfold GossipState.addSymbol
  dsimp only
  split_ifs <;> exact ⟨rfl, rfl⟩

variable (h : s.Consistent blake3 xorf zoneId config)
include h

theorem announceSymbol (objectId : ObjectId) (esi : UInt32) (now : UInt64)
    (hsat : Unsaturated blake3 (cellCount config)
      (s.announceSymbol blake3 objectId esi now).sketched) :
    (s.announceSymbol blake3 objectId esi now).Consistent blake3 xorf zoneId config := by
  unfold GossipState.announceSymbol at hsat ⊢
  rw [(sketch_addSymbol _ _ _ _).1] at hsat
  refine addSymbol ?_ objectId esi now
  split_ifs at hsat ⊢ with hmem
  · exact h
  · exact h.announceObject objectId now hsat

theorem removeObject (objectId : ObjectId)
    (now : UInt64) (hsat : Unsaturated blake3 (cellCount config) s.sketched) :
    (s.removeObject blake3 objectId now).Consistent blake3 xorf zoneId config := by
  unfold GossipState.removeObject
  split_ifs with hmem
  · have hn := ibltHashCount_le_recommendedCellCount config.reconciliationBatchSize
    have hin : s.ibltMask.apply objectId ∈ s.sketched := mask_mem_maskedSet.mpr hmem
    have hmask : s.ibltState.mask = s.ibltMask := h.stateMask_eq.trans h.mask_eq.symm
    have hsketched : (s.dropObject blake3 objectId).sketched =
        s.sketched.erase (s.ibltMask.apply objectId) :=
      maskedSet_erase s.ibltMask s.admittedObjects objectId
    have hdeleted := h.sketch.delete hn hin hsat
    exact { h with
      cached := hsketched ▸ h.cached.delete hn hin hsat
      sketch := hsketched ▸ hmask ▸ hdeleted
      objects := (filterOf_rebuildFilters _).1
      symbols := (filterOf_rebuildFilters _).2 }
  · exact { h with
      objects := (filterOf_rebuildFilters _).1
      symbols := (filterOf_rebuildFilters _).2 }

/-- Every call keeps the relation, as long as no count saturates. -/
theorem call (c : GossipCall) (hbefore : Unsaturated blake3 (cellCount config) s.sketched)
    (hafter : Unsaturated blake3 (cellCount config) (s.call blake3 xorf c).sketched) :
    (s.call blake3 xorf c).Consistent blake3 xorf zoneId config := by
  cases c with
  | announceObject objectId now => exact h.announceObject objectId now hafter
  | announceSymbol objectId esi now => exact h.announceSymbol objectId esi now hafter
  | removeObject objectId now => exact h.removeObject objectId now hbefore
  | rebuildFilters =>
    exact { h with
      objects := (filterOf_rebuildFilters s).1
      symbols := (filterOf_rebuildFilters s).2 }
  | mayHaveObject objectId => exact { h with objects := h.objects.mayContain objectId.toList }
  | mayHaveSymbol objectId esi =>
    exact { h with symbols := h.symbols.mayContain (symbolKey objectId esi) }

end Consistent

theorem run_append_singleton (calls : List GossipCall) (c : GossipCall) :
    run blake3 xorf zoneId config (calls ++ [c]) =
      (run blake3 xorf zoneId config calls).call blake3 xorf c := by
  rw [run, foldl_append]
  rfl

/-- A history that never saturates a count is consistent at its end. -/
theorem consistent_run {calls : List GossipCall}
    (hsat : NeverSaturates blake3 xorf zoneId config calls) :
    (run blake3 xorf zoneId config calls).Consistent blake3 xorf zoneId config := by
  induction calls using reverseRecOn with
  | nil =>
    obtain ⟨hobjects, hsymbols⟩ := filterOf_rebuildFilters (new blake3 zoneId config)
    exact ⟨rfl, rfl, rfl, rfl, rfl, holds_empty, holds_empty, hobjects, hsymbols⟩
  | append_singleton calls c ih =>
    have hbefore : NeverSaturates blake3 xorf zoneId config calls := by
      intro k
      have hk := hsat (min k calls.length)
      rwa [take_append_of_le_length (min_le_right _ _), ← take_take, take_length] at hk
    have hlast := hbefore calls.length
    have hafter := hsat (calls.length + 1)
    rw [take_length] at hlast
    rw [take_of_length_le (by simp), run_append_singleton] at hafter
    rw [run_append_singleton]
    exact (ih hbefore).call c hlast hafter

/-! ### The state built from scratch -/

/-- Entering objects into the summary sketch one after the other. -/
theorem foldl_noteLocalChange (objects : List ObjectId) (p : IbltPlaceholder) :
    objects.foldl (IbltPlaceholder.noteLocalChange blake3) p =
      { p with
        iblt := (objects.map p.mask.apply).foldl (Iblt.insert blake3) p.iblt
        changeSeq := p.changeSeq + objects.length } := by
  induction objects generalizing p with
  | nil => rfl
  | cons x objects ih =>
    rw [foldl_cons, ih]
    simp [IbltPlaceholder.noteLocalChange, Nat.add_assoc, Nat.add_comm 1]

theorem nodup_map_mask (mask : IbltMask) (objects : ObjectSet) :
    (objects.toList.map mask.apply).Nodup := by
  refine Nodup.map (mask_injective mask) ?_
  have hdistinct := ExtTreeSet.distinct_toList (t := objects)
  refine hdistinct.imp fun hne heq => hne ?_
  rw [heq]
  exact Std.ReflCmp.compare_self

/-- The sketch of a set of objects from scratch. -/
theorem holds_scratch {mask : IbltMask} {objects : ObjectSet} {expectedDifference : ℕ}
    (hsat : Unsaturated blake3 (Iblt.recommendedCellCount expectedDifference)
      (maskedSet mask objects)) :
    Holds blake3 (Iblt.recommendedCellCount expectedDifference) (fun _ => 1)
      (maskedSet mask objects)
      ((objects.toList.map mask.apply).foldl (Iblt.insert blake3)
        (.withExpectedDifference expectedDifference)).cells := by
  have hset : (objects.toList.map mask.apply).toFinset = maskedSet mask objects :=
    toFinset_map_mask mask objects.toList
  rw [← hset] at hsat ⊢
  obtain ⟨t, ht, hholds⟩ := holds_sketch
    (ibltHashCount_le_recommendedCellCount expectedDifference) (nodup_map_mask mask objects) hsat
  rw [Iblt.sketch, Iblt.withCellCount_recommendedCellCount] at ht
  rwa [← Except.ok.inj ht] at hholds

variable (blake3 xorf) in
/-- Two states whose filters and sketches are the same, whatever the counter of changes says. -/
structure Matches (s s' : GossipState Xor8) : Prop where
  cachedIblt_eq : s.cachedIblt = s'.cachedIblt
  iblt_eq : s.ibltState.iblt = s'.ibltState.iblt
  mask_eq : s.ibltState.mask = s'.ibltState.mask
  cellCount_eq : s.ibltState.cellCount = s'.ibltState.cellCount
  objectFilter : SameFilter blake3 xorf s.objectFilter s'.objectFilter
  symbolFilter : SameFilter blake3 xorf s.symbolFilter s'.symbolFilter

namespace Consistent

variable {s' : GossipState Xor8}

variable (h : s.Consistent blake3 xorf zoneId config) (h' : s'.Consistent blake3 xorf zoneId config)
  (hobjects : s.admittedObjects = s'.admittedObjects)
  (hsymbols : s.symbolAvailability = s'.symbolAvailability)
include h h' hobjects hsymbols

/-- The authoritative sets determine everything that is kept incrementally. -/
theorem matches_of_eq : s.Matches blake3 xorf s' := by
  have hsketched : s.sketched = s'.sketched := by
    rw [sketched, sketched, h.mask_eq, h'.mask_eq, hobjects]
  have hcached := h.cached
  have hsketch := h.sketch
  have hobjectFilter := h.objects
  have hsymbolFilter := h.symbols
  rw [hsketched] at hcached hsketch
  rw [hobjects] at hobjectFilter
  rw [hsymbols] at hsymbolFilter
  exact ⟨hcached.iblt_eq h'.cached, hsketch.iblt_eq h'.sketch,
    h.stateMask_eq.trans h'.stateMask_eq.symm, h.stateCells_eq.trans h'.stateCells_eq.symm,
    hobjectFilter.same h'.objects, hsymbolFilter.same h'.symbols⟩

end Consistent

/-! ### Histories -/

/-- A call admits at most one object and keeps the number of cells of the summary sketch. -/
theorem size_call (s : GossipState Xor8) (c : GossipCall) :
    (s.call blake3 xorf c).sketched.card ≤ s.sketched.card + 1 ∧
      (s.call blake3 xorf c).ibltState.iblt.cells.length = s.ibltState.iblt.cells.length := by
  have hannounce : ∀ objectId now,
      (s.announceObject blake3 objectId now).sketched.card ≤ s.sketched.card + 1 ∧
        (s.announceObject blake3 objectId now).ibltState.iblt.cells.length =
          s.ibltState.iblt.cells.length := by
    intro objectId now
    unfold announceObject
    split_ifs
    · exact ⟨Nat.le_succ _, rfl⟩
    · refine ⟨?_, length_foldl_modify _ _⟩
      change (maskedSet s.ibltMask (s.admittedObjects.insert objectId)).card ≤ _
      rw [maskedSet_insert]
      exact card_insert_le _ _
  cases c with
  | announceObject objectId now => exact hannounce objectId now
  | announceSymbol objectId esi now =>
    change (s.announceSymbol blake3 objectId esi now).sketched.card ≤ _ ∧
      (s.announceSymbol blake3 objectId esi now).ibltState.iblt.cells.length = _
    unfold announceSymbol
    rw [(Consistent.sketch_addSymbol _ _ _ _).1, (Consistent.sketch_addSymbol _ _ _ _).2]
    split_ifs
    · exact ⟨Nat.le_succ _, rfl⟩
    · exact hannounce objectId now
  | removeObject objectId now =>
    change (s.removeObject blake3 objectId now).sketched.card ≤ _ ∧
      (s.removeObject blake3 objectId now).ibltState.iblt.cells.length = _
    unfold removeObject
    split_ifs
    · refine ⟨?_, length_foldl_modify _ _⟩
      change (maskedSet s.ibltMask (s.admittedObjects.erase objectId)).card ≤ _
      rw [maskedSet_erase]
      exact le_trans (card_le_card (erase_subset _ _)) (Nat.le_succ _)
    · exact ⟨Nat.le_succ _, rfl⟩
  | rebuildFilters | mayHaveObject objectId => exact ⟨Nat.le_succ _, rfl⟩
  | mayHaveSymbol objectId esi => exact ⟨Nat.le_succ _, rfl⟩

theorem card_sketched_run (calls : List GossipCall) :
    (run blake3 xorf zoneId config calls).sketched.card ≤ calls.length := by
  induction calls using reverseRecOn with
  | nil => exact le_of_eq (card_eq_zero.mpr rfl)
  | append_singleton calls c ih =>
    rw [run_append_singleton, length_append]
    exact le_trans (size_call _ c).1 (Nat.succ_le_succ ih)

/-- A history of fewer than `2 ^ 31` calls never saturates a count. -/
theorem neverSaturates_of_length_lt {calls : List GossipCall} (h : calls.length < 2 ^ 31) :
    NeverSaturates blake3 xorf zoneId config calls := by
  intro k i
  refine lt_of_le_of_lt (card_le_card (filter_subset _ _)) ?_
  exact lt_of_le_of_lt ((card_sketched_run _).trans (length_take_le' _ _)) h

/-- Every history that never saturates a count leaves the filters and the sketches as they
are built from scratch. Both paths of `build_iblt` agree, summaries depend on the final sets
only, up to the timestamp, and no query misses what is there. -/
theorem incremental_eq_rebuilt (blake3 : List UInt8 → Bytes 32) {Xor8 : Type} (xorf : Xorf Xor8)
    (zoneId : ZoneId) (config : GossipConfig) (calls : List GossipCall)
    (hsat : NeverSaturates blake3 xorf zoneId config calls) :
    (run blake3 xorf zoneId config calls).Matches blake3 xorf
        (rebuilt blake3 zoneId config (run blake3 xorf zoneId config calls).admittedObjects
          (run blake3 xorf zoneId config calls).symbolAvailability) ∧
      (∀ expectedDifference,
        (run blake3 xorf zoneId config calls).buildIblt blake3 expectedDifference =
          (run blake3 xorf zoneId config calls).rebuildIblt blake3 expectedDifference) ∧
      (∀ calls', NeverSaturates blake3 xorf zoneId config calls' →
        (run blake3 xorf zoneId config calls).admittedObjects =
          (run blake3 xorf zoneId config calls').admittedObjects →
        (run blake3 xorf zoneId config calls).symbolAvailability =
          (run blake3 xorf zoneId config calls').symbolAvailability →
        ∀ sender epochId,
          ((run blake3 xorf zoneId config calls).createSummary blake3 sender epochId).undated =
            ((run blake3 xorf zoneId config calls').createSummary blake3 sender
              epochId).undated) ∧
      ∀ objectId,
        ((run blake3 xorf zoneId config calls).hasObject objectId = true →
          ((run blake3 xorf zoneId config calls).mayHaveObject blake3 xorf objectId).1 = true) ∧
        ∀ esi, (run blake3 xorf zoneId config calls).hasSymbol objectId esi = true →
          ((run blake3 xorf zoneId config calls).mayHaveSymbol blake3 xorf objectId esi).1 =
            true := by
  have hrun := consistent_run hsat
  have hlast : Unsaturated blake3 (cellCount config) _ := hsat calls.length
  rw [take_length] at hlast
  have hmasked := hlast
  rw [sketched, hrun.mask_eq] at hmasked
  refine ⟨hrun.matches_of_eq ?_ rfl rfl, ?_, ?_,
    fun objectId => ⟨fun hhas => ?_, fun esi hhas => ?_⟩⟩
  · have hholds := holds_scratch hmasked
    have hstate : (rebuilt blake3 zoneId config (run blake3 xorf zoneId config calls).admittedObjects
        (run blake3 xorf zoneId config calls).symbolAvailability : GossipState Xor8).ibltState = _ :=
      foldl_noteLocalChange _ _
    refine ⟨rfl, rfl, by rw [hstate]; rfl, rfl, by rw [hstate]; rfl, ?_, ?_,
      (filterOf_rebuildFilters _).1, (filterOf_rebuildFilters _).2⟩
    · rw [foldl_map] at hholds
      exact hholds
    · rw [hstate]
      exact hholds
  · intro expectedDifference
    unfold buildIblt
    split_ifs with hcells
    · rw [hrun.cachedCells_eq] at hcells
      have hcached := hrun.cached
      rw [← hcells] at hlast hcached
      have hscratch := holds_scratch hlast
      rw [foldl_map] at hscratch
      exact hcached.iblt_eq hscratch
    · rfl
  · intro calls' hsat' hobjects hsymbols sender epochId
    have hrun' := consistent_run hsat'
    have hmatch := hrun.matches_of_eq hrun' hobjects hsymbols
    simp only [createSummary, symbolCount, GossipSummary.undated, IbltPlaceholder.encode,
      hrun.zone_eq, hrun'.zone_eq, hobjects, hsymbols, hmatch.iblt_eq,
      digest_congr hmatch.objectFilter.keys_eq hmatch.objectFilter.seed_eq,
      digest_congr hmatch.symbolFilter.keys_eq hmatch.symbolFilter.seed_eq]
  · exact hrun.objects.mayContain_of_mem ⟨objectId, of_decide_eq_true hhas, rfl⟩
  · rw [hasSymbol] at hhas
    cases hget : (run blake3 xorf zoneId config calls).symbolAvailability[objectId]? with
    | none => simp [hget] at hhas
    | some esis =>
      rw [hget] at hhas
      exact hrun.symbols.mayContain_of_mem ⟨objectId, esis, esi, hget, of_decide_eq_true hhas, rfl⟩

/-- A history with a removal, a repeated announcement and a query in between. -/
def demoCalls : List GossipCall :=
  [.announceObject (List.Vector.replicate 32 1) 1, .announceSymbol (List.Vector.replicate 32 2) 7 2,
    .mayHaveObject (List.Vector.replicate 32 3), .removeObject (List.Vector.replicate 32 1) 3,
    .announceObject (List.Vector.replicate 32 2) 4, .announceSymbol (List.Vector.replicate 32 2) 9 5]

/-- The demo history never saturates a count, and what is left of it is found by the filters. -/
theorem demoCalls_eq_rebuilt :
    (∀ (blake3 : List UInt8 → Bytes 32) (xorf : Xorf Unit) (config : GossipConfig),
      NeverSaturates blake3 xorf "z:demo" config demoCalls) ∧
    ∀ (blake3 : List UInt8 → Bytes 32) (xorf : Xorf Unit) (config : GossipConfig),
      (run blake3 xorf "z:demo" config demoCalls).hasObject (List.Vector.replicate 32 2) = true ∧
      ((run blake3 xorf "z:demo" config demoCalls).mayHaveObject blake3 xorf
        (List.Vector.replicate 32 2)).1 = true ∧
      (run blake3 xorf "z:demo" config demoCalls).Matches blake3 xorf
        (rebuilt blake3 "z:demo" config (run blake3 xorf "z:demo" config demoCalls).admittedObjects
          (run blake3 xorf "z:demo" config demoCalls).symbolAvailability) := by
  have hsat : ∀ (blake3) (xorf : Xorf Unit) (config),
      NeverSaturates blake3 xorf "z:demo" config demoCalls :=
    fun _ _ _ => neverSaturates_of_length_lt (by decide)
  refine ⟨hsat, fun blake3 xorf config => ?_⟩
  have hhas : (run blake3 xorf "z:demo" config demoCalls).hasObject
      (List.Vector.replicate 32 2) = true := rfl
  obtain ⟨hmatch, -, -, hfound⟩ :=
    incremental_eq_rebuilt blake3 xorf "z:demo" config demoCalls (hsat blake3 xorf config)
  exact ⟨hhas, (hfound _).1 hhas, hmatch⟩

/-- The timestamp of a summary and the counter of changes remember the history: an object
that was announced and removed again leaves both behind. -/
theorem summary_remembers_history :
    ∃ (calls : List GossipCall) (config : GossipConfig),
      ∀ (blake3 : List UInt8 → Bytes 32) (xorf : Xorf Unit),
        NeverSaturates blake3 xorf "z:demo" config calls ∧
        NeverSaturates blake3 xorf "z:demo" config [] ∧
        (run blake3 xorf "z:demo" config calls).admittedObjects =
          (run blake3 xorf "z:demo" config []).admittedObjects ∧
        (run blake3 xorf "z:demo" config calls).symbolAvailability =
          (run blake3 xorf "z:demo" config []).symbolAvailability ∧
        (∀ sender epochId,
          (run blake3 xorf "z:demo" config calls).createSummary blake3 sender epochId ≠
            (run blake3 xorf "z:demo" config []).createSummary blake3 sender epochId) ∧
        (run blake3 xorf "z:demo" config calls).ibltState ≠
          (rebuilt blake3 "z:demo" config (run blake3 xorf "z:demo" config calls).admittedObjects
            (run blake3 xorf "z:demo" config calls).symbolAvailability :
              GossipState Unit).ibltState := by
  refine ⟨[.announceObject (List.Vector.replicate 32 1) 1,
    .removeObject (List.Vector.replicate 32 1) 2], ⟨10000, 10000, 1000⟩, fun blake3 xorf => ?_⟩
  refine ⟨neverSaturates_of_length_lt (by decide), neverSaturates_of_length_lt (by decide), rfl,
    rfl, fun sender epochId heq => ?_, fun heq => ?_⟩
  · have hstamp : (2 : UInt64) = 0 := congrArg GossipSummary.timestamp heq
    exact absurd hstamp (by decide)
  · have hseq : 2 = 0 := congrArg IbltPlaceholder.changeSeq heq
    exact absurd hseq (by decide)

end GossipState

end Flywheel.Mesh
