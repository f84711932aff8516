import Flywheel.Mesh.KeyRotation
import Mathlib.Data.List.Induction

/-!
# Manifests built with the helpers

`migrated_to_v4` and `add_xwing_wrap` of `ZoneKeyManifest` change only the V4 list: the
first promotes the V3 wraps that it does not cover, the second replaces the wrap of a
recipient or adds one. Neither duplicates a recipient, so that `IndexedZoneKeyManifest`
accepts the result and answers as the scans do. A recipient of the V3 list that gets an
X-Wing wrap has a split view, though, which `validate_no_recipient_split_view` rejects.
-/

namespace Flywheel.Mesh

open Flywheel.Core List

/-- `UnsignedV4Manifest` passes both calls on to the manifest that it holds. -/
inductive ManifestCall where
  | migratedToV4 (manifestKem : ZoneKemAlgorithm)
  | addXwingWrap (recipient : NodeId) (issuedAt : UInt64) (sealed : SealedBox)

/-- The call adds no X-Wing wrap for a recipient of the V3 wraps. -/
def ManifestCall.Spares (wrappedKeys : List (Wrapped SealedBox)) : ManifestCall → Prop
  | .migratedToV4 _ => True
  | .addXwingWrap recipient _ _ => wrappedKeys.find? (·.recipient = recipient) = none

namespace ZoneKeyManifest

/-- The body of the loop of `migrated_to_v4`. -/
def promote (wrappedKeysV4 : List (Wrapped WrappedKey)) (v3 : Wrapped SealedBox) :
    List (Wrapped WrappedKey) :=
  if (wrappedKeysV4.find? (·.recipient = v3.recipient)).isNone then wrappedKeysV4 ++ [v3.toV4]
  else wrappedKeysV4

def migratedToV4 (manifest : ZoneKeyManifest) (manifestKem : ZoneKemAlgorithm) :
    ZoneKeyManifest :=
  { manifest with
    kem := manifestKem
    wrappedKeysV4 := manifest.wrappedKeys.foldl promote manifest.wrappedKeysV4 }

def addXwingWrap (manifest : ZoneKeyManifest) (recipient : NodeId) (issuedAt : UInt64)
    (sealed : SealedBox) : ZoneKeyManifest :=
  let entry : Wrapped WrappedKey := ⟨recipient, issuedAt, .xwing sealed⟩
  { manifest with
    wrappedKeysV4 :=
      match manifest.wrappedKeysV4.findIdx? (·.recipient = recipient) with
      | some index => manifest.wrappedKeysV4.set index entry
      | none => manifest.wrappedKeysV4 ++ [entry] }

def call (manifest : ZoneKeyManifest) : ManifestCall → ZoneKeyManifest
  | .migratedToV4 manifestKem => manifest.migratedToV4 manifestKem
  | .addXwingWrap recipient issuedAt sealed => manifest.addXwingWrap recipient issuedAt sealed

end ZoneKeyManifest

variable {Sealed : Type}

/-- `build_index`, with the hash map as the function that looks a recipient up. -/
def buildIndex (list : String) (entries : List (Wrapped Sealed)) :
    Except ZoneKeyError (NodeId → Option ℕ) :=
  entries.zipIdx.foldlM (fun index entry =>
    if (index entry.1.recipient).isSome then
      .error (.duplicateRecipientInManifest entry.1.recipient list)
    else .ok (Function.update index entry.1.recipient (some entry.2))) fun _ => none

structure IndexedZoneKeyManifest where
  inner : ZoneKeyManifest
  wrappedKeysIndex : NodeId → Option ℕ
  wrappedKeysV4Index : NodeId → Option ℕ
  wrappedObjectIdKeysIndex : NodeId → Option ℕ

namespace IndexedZoneKeyManifest

def new (manifest : ZoneKeyManifest) : Except ZoneKeyError IndexedZoneKeyManifest := do
  let wrappedKeysIndex ← buildIndex "wrapped_keys" manifest.wrappedKeys
  let wrappedKeysV4Index ← buildIndex "wrapped_keys_v4" manifest.wrappedKeysV4
  let wrappedObjectIdKeysIndex ←
    buildIndex "wrapped_object_id_keys" manifest.wrappedObjectIdKeys
  return ⟨manifest, wrappedKeysIndex, wrappedKeysV4Index, wrappedObjectIdKeysIndex⟩

variable (indexed : IndexedZoneKeyManifest) (nodeId : NodeId)

def wrappedKeyFor : Option (Wrapped SealedBox) :=
  (indexed.wrappedKeysIndex nodeId).bind (indexed.inner.wrappedKeys[·]?)

def wrappedObjectIdKeyFor : Option (Wrapped SealedBox) :=
  (indexed.wrappedObjectIdKeysIndex nodeId).bind (indexed.inner.wrappedObjectIdKeys[·]?)

def wrappedKeyV4For : Option (Wrapped WrappedKey) :=
  (indexed.wrappedKeysV4Index nodeId).bind (indexed.inner.wrappedKeysV4[·]?)

def resolvedWrappedKeyFor : Option WrappedKey :=
  match indexed.wrappedKeyV4For nodeId with
  | some v4 => some v4.sealed
  | none => (indexed.wrappedKeyFor nodeId).map (.hpkeX25519 ·.sealed)

/-- Every lookup answers as the scan of the manifest. -/
structure Agrees (manifest : ZoneKeyManifest) : Prop where
  wrappedKeyFor : indexed.wrappedKeyFor nodeId = manifest.wrappedKeyFor nodeId
  wrappedObjectIdKeyFor :
    indexed.wrappedObjectIdKeyFor nodeId = manifest.wrappedObjectIdKeyFor nodeId
  wrappedKeyV4For : indexed.wrappedKeyV4For nodeId = manifest.wrappedKeyV4For nodeId
  resolvedWrappedKeyFor :
    indexed.resolvedWrappedKeyFor nodeId = manifest.resolvedWrappedKeyFor nodeId

end IndexedZoneKeyManifest

/-- Without a recipient twice, the index holds the first position of every recipient. -/
theorem buildIndex_of_nodup (list : String) {entries : List (Wrapped Sealed)}
    (h : (entries.map (·.recipient)).Nodup) :
    buildIndex list entries = .ok fun node => entries.findIdx? (·.recipient = node) := by
  induction entries using reverseRecOn with
  | nil => rfl
  | append_singleton entries entry ih =>
    rw [map_append, nodup_append] at h
    have hfirst : entries.findIdx? (·.recipient = entry.recipient) = none := by
      simp only [findIdx?_eq_none_iff, decide_eq_false_iff_not]
      exact fun other hother heq => h.2.2 _ (mem_map_of_mem hother) _ (by simp) heq
    have hbuild := ih h.1
    rw [buildIndex] at hbuild ⊢
    rw [zipIdx_append, foldlM_append, hbuild]
    simp only [bind, Except.bind, zipIdx_cons, foldlM_cons, hfirst]
    refine congrArg Except.ok (funext fun node => ?_)
    rcases eq_or_ne node entry.recipient with rfl | hne
    · simp [hfirst]
    · simp [hne, hne.symm]

/-- The index accepts a manifest without a recipient twice in a list and answers as the scans. -/
theorem IndexedZoneKeyManifest.new_of_nodup {manifest : ZoneKeyManifest}
    (h₃ : (manifest.wrappedKeys.map (·.recipient)).Nodup)
    (h₄ : (manifest.wrappedKeysV4.map (·.recipient)).Nodup)
    (hids : (manifest.wrappedObjectIdKeys.map (·.recipient)).Nodup) :
    ∃ indexed, new manifest = .ok indexed ∧ ∀ nodeId, indexed.Agrees nodeId manifest := by
  rw [new, buildIndex_of_nodup _ h₃, buildIndex_of_nodup _ h₄, buildIndex_of_nodup _ hids]
  refine ⟨_, rfl, fun nodeId => ?_⟩
  have hscan {Sealed : Type} (entries : List (Wrapped Sealed)) :
      (entries.findIdx? (·.recipient = nodeId)).bind (entries[·]?) =
        entries.find? (·.recipient = nodeId) := find?_eq_bind_findIdx?_getElem?.symm
  refine ⟨hscan _, hscan _, hscan _, ?_⟩
  simp only [resolvedWrappedKeyFor, wrappedKeyV4For, wrappedKeyFor, hscan]
  rfl

namespace ZoneKeyManifest

variable {manifest : ZoneKeyManifest}

/-- There is no split view exactly if every V4 wrap of a V3 recipient is its V3 wrap. -/
theorem splitViewRecipients_eq_nil_iff : manifest.splitViewRecipients = [] ↔
    ∀ v4 ∈ manifest.wrappedKeysV4, ∀ v3, manifest.wrappedKeyFor v4.recipient = some v3 →
      isPromoted v4 v3 = true := by
  rw [splitViewRecipients, filterMap_eq_nil_iff]
  refine forall₂_congr fun v4 _ => ?_
  cases manifest.wrappedKeyFor v4.recipient with
  | none => simp
  | some v3 => simp

/-- Promoting wraps duplicates no recipient and changes no statement about all wraps that holds of
those promoted. -/
theorem foldl_promote {P : Wrapped WrappedKey → Prop} {v3s : List (Wrapped SealedBox)}
    (hP : ∀ v3 ∈ v3s, P v3.toV4) {v4s : List (Wrapped WrappedKey)}
    (hnodup : (v4s.map (·.recipient)).Nodup) :
    ((v3s.foldl promote v4s).map (·.recipient)).Nodup ∧
      ((∀ v4 ∈ v3s.foldl promote v4s, P v4) ↔ ∀ v4 ∈ v4s, P v4) := by
  induction v3s generalizing v4s with
  | nil => exact ⟨hnodup, Iff.rfl⟩
  | cons v3 v3s ih =>
    rw [forall_mem_cons] at hP
    rw [foldl_cons, promote]
    split_ifs with hnone
    · have hnew : v3.recipient ∉ v4s.map (·.recipient) := by
        simpa using hnone
      have hnodup' : ((v4s ++ [v3.toV4]).map (·.recipient)).Nodup := by
        rw [map_append, map_singleton, ← concat_eq_append]
        exact hnodup.concat hnew
      obtain ⟨hfold, hiff⟩ := ih hP.2 hnodup'
      rw [forall_mem_append, forall_mem_singleton, and_iff_left hP.1] at hiff
      exact ⟨hfold, hiff⟩
    · exact ih hP.2 hnodup

/-- A call duplicates no recipient, and leaves no split view exactly if there was none and it
upgrades no recipient with a V3 wrap. -/
theorem call_spec (c : ManifestCall) (h₃ : (manifest.wrappedKeys.map (·.recipient)).Nodup)
    (h₄ : (manifest.wrappedKeysV4.map (·.recipient)).Nodup) :
    ((manifest.call c).wrappedKeysV4.map (·.recipient)).Nodup ∧
      ((manifest.call c).splitViewRecipients = [] ↔
        manifest.splitViewRecipients = [] ∧ c.Spares manifest.wrappedKeys) := by
  rw [splitViewRecipients_eq_nil_iff, splitViewRecipients_eq_nil_iff]
  cases c with
  | migratedToV4 kem =>
    have hpromoted : ∀ v3 ∈ manifest.wrappedKeys, ∀ v3',
        manifest.wrappedKeyFor v3.recipient = some v3' → isPromoted v3.toV4 v3' = true := by
      intro v3 hv3 v3' hfound
      have hsame : v3'.recipient = v3.recipient := by simpa using find?_some hfound
      obtain rfl := inj_on_of_nodup_map h₃ (mem_of_find?_eq_some hfound) hv3 hsame
      simp [isPromoted, Wrapped.toV4]
    obtain ⟨hnodup, hsafe⟩ := foldl_promote (P := fun v4 => ∀ v3,
      manifest.wrappedKeyFor v4.recipient = some v3 → isPromoted v4 v3 = true) hpromoted h₄
    exact ⟨hnodup, hsafe.trans (and_true _).to_iff.symm⟩
  | addXwingWrap recipient issuedAt sealed =>
    have hentry : (∀ v3, manifest.wrappedKeyFor recipient = some v3 →
        isPromoted ⟨recipient, issuedAt, .xwing sealed⟩ v3 = true) ↔
          manifest.wrappedKeyFor recipient = none := by
      simp [isPromoted, Option.eq_none_iff_forall_ne_some]
    change _ ∧ (_ ↔ _ ∧ manifest.wrappedKeyFor recipient = none)
    rw [← hentry, call, addXwingWrap]
    cases hfind : manifest.wrappedKeysV4.findIdx? (·.recipient = recipient) with
    | none =>
      have hnew : recipient ∉ manifest.wrappedKeysV4.map (·.recipient) := by
        simpa using hfind
      rw [map_append, map_singleton, ← concat_eq_append, forall_mem_append, forall_mem_singleton]
      exact ⟨h₄.concat hnew, Iff.rfl⟩
    | some index =>
      -- The slot of the recipient gets the new wrap; the old one had the same recipient.
      obtain ⟨hlt, hslot, -⟩ := findIdx?_eq_some_iff_getElem.mp hfind
      obtain ⟨before, old, after, hsplit, hold, hset⟩ : ∃ before old after,
          manifest.wrappedKeysV4 = before ++ old :: after ∧ old.recipient = recipient ∧
            ∀ entry, manifest.wrappedKeysV4.set index entry = before ++ entry :: after :=
        ⟨_, manifest.wrappedKeysV4[index], _, by rw [getElem_cons_drop, take_append_drop],
          by simpa using hslot, fun entry => by rw [set_eq_take_append_cons_drop, if_pos hlt]⟩
      dsimp only
      rw [hset]
      rw [hsplit] at h₄ ⊢
      simp only [forall_mem_append, forall_mem_cons, hold]
      refine ⟨by simpa [hold] using h₄, ⟨?_, ?_⟩⟩
      · rintro ⟨hbefore, hnew, hafter⟩
        refine ⟨⟨hbefore, fun v3 hv3 => ?_, hafter⟩, hnew⟩
        cases (hentry.mp hnew).symm.trans hv3
      · rintro ⟨⟨hbefore, -, hafter⟩, hnew⟩
        exact ⟨hbefore, hnew, hafter⟩

/-- What a run of calls keeps, and when it leaves no split view. -/
theorem run_spec (calls : List ManifestCall) (h₃ : (manifest.wrappedKeys.map (·.recipient)).Nodup)
    (h₄ : (manifest.wrappedKeysV4.map (·.recipient)).Nodup) :
    (calls.foldl call manifest).wrappedKeys = manifest.wrappedKeys ∧
    (calls.foldl call manifest).wrappedObjectIdKeys = manifest.wrappedObjectIdKeys ∧
    ((calls.foldl call manifest).wrappedKeysV4.map (·.recipient)).Nodup ∧
    ((calls.foldl call manifest).splitViewRecipients = [] ↔
      manifest.splitViewRecipients = [] ∧ ∀ c ∈ calls, c.Spares manifest.wrappedKeys) := by
  induction calls generalizing manifest with
  | nil => exact ⟨rfl, rfl, h₄, by simp⟩
  | cons c calls ih =>
    have hkept : (manifest.call c).wrappedKeys = manifest.wrappedKeys ∧
        (manifest.call c).wrappedObjectIdKeys = manifest.wrappedObjectIdKeys := by
      cases c <;> exact ⟨rfl, rfl⟩
    obtain ⟨hnodup, hsafe⟩ := call_spec c h₃ h₄
    have hrest := ih (hkept.1 ▸ h₃) hnodup
    rwa [hkept.1, hkept.2, hsafe, and_assoc, ← forall_mem_cons] at hrest

/-- A manifest without duplicate recipients or split views stays valid in calls of the helpers
exactly if no X-Wing wrap is added for a recipient of the V3 list. It can always be indexed, and
every lookup in the index answers as the scan. -/
theorem helpers_keep_valid_iff (manifest : { manifest : ZoneKeyManifest // manifest.Unambiguous })
    (calls : List ManifestCall) :
    ((calls.foldl call manifest.1).validateNoRecipientSplitView = .ok () ↔
      ∀ c ∈ calls, c.Spares manifest.1.wrappedKeys) ∧
    ∃ indexed, IndexedZoneKeyManifest.new (calls.foldl call manifest.1) = .ok indexed ∧
      ∀ nodeId, indexed.Agrees nodeId (calls.foldl call manifest.1) := by
  obtain ⟨manifest, h⟩ := manifest
  obtain ⟨hkeys, hids, hnodup, hsplit⟩ := run_spec calls h.wrappedKeys h.wrappedKeysV4
  have h₃ := hkeys ▸ h.wrappedKeys
  have hids' := hids ▸ h.wrappedObjectIdKeys
  refine ⟨?_, IndexedZoneKeyManifest.new_of_nodup h₃ hnodup hids'⟩
  rw [validate_eq_ok_iff, ← (hsplit.trans (and_iff_right h.splitView))]
  exact ⟨(·.splitView), fun hnone => ⟨h₃, hnodup, hids', hnone⟩⟩

/-- A recipient with a V3 wrap gets an X-Wing wrap, which the validation then rejects. -/
theorem upgraded_recipient_is_rejected :
    ∃ manifest : ZoneKeyManifest, manifest.Unambiguous ∧
      (manifest.addXwingWrap "server" 1 demoBox).validateNoRecipientSplitView =
        .error (.inconsistentRecipientWraps "server") :=
  ⟨⟨"z:work", 1, [⟨"server", 0, demoBox⟩], [], .replicate 64 5, .hpkeX25519, []⟩,
    ⟨by decide, by decide, by decide, rfl⟩, rfl⟩

end ZoneKeyManifest

end Flywheel.Mesh
