import Flywheel.Core.Ids
import Flywheel.Data.Results

/-!
# Rotation of zone keys

`build_zone_key_rotation_cutover` of `fcp-mesh` issues a manifest in which the new
zone key is sealed for every recipient, with X-Wing where the recipient can read it
and with HPKE otherwise. Peers with an HPKE wrap are in both lists of the manifest,
and those with an X-Wing wrap in the V4 list only. The two ways to seal the key are
parameters.
-/

namespace Flywheel.Mesh

open Flywheel.Core Flywheel.Data List

/-- `HpkeSealedBox` and `XWingSealedBox`. -/
structure SealedBox where
  enc : List UInt8
  ciphertext : List UInt8

inductive ZoneKemAlgorithm where
  | hpkeX25519
  | xwing
deriving DecidableEq

inductive WrappedKey where
  | hpkeX25519 (sealed : SealedBox)
  | xwing (sealed : SealedBox)

def WrappedKey.kem : WrappedKey → ZoneKemAlgorithm
  | .hpkeX25519 _ => .hpkeX25519
  | .xwing _ => .xwing

/-- A key that is sealed for a recipient: `WrappedZoneKey` and `WrappedObjectIdKey` of a sealed
box, `WrappedZoneKeyV4` of a `WrappedKey`. -/
structure Wrapped (Sealed : Type) where
  recipient : NodeId
  issuedAt : UInt64
  sealed : Sealed

def Wrapped.toV4 (wrapped : Wrapped SealedBox) : Wrapped WrappedKey :=
  ⟨wrapped.recipient, wrapped.issuedAt, .hpkeX25519 wrapped.sealed⟩

/-- `ZoneKeyManifest`, as far as a rotation reads or changes it. -/
structure ZoneKeyManifest where
  zoneId : ZoneId
  validFrom : UInt64
  wrappedKeys : List (Wrapped SealedBox)
  wrappedObjectIdKeys : List (Wrapped SealedBox)
  signature : Bytes 64
  kem : ZoneKemAlgorithm
  wrappedKeysV4 : List (Wrapped WrappedKey)

/-- The errors of `validate_no_recipient_split_view`. -/
inductive ZoneKeyError where
  | inconsistentRecipientWraps (nodeId : NodeId)
  | duplicateRecipientInManifest (nodeId : NodeId) (list : String)

namespace ZoneKeyManifest

variable (manifest : ZoneKeyManifest) (nodeId : NodeId)

def wrappedKeyFor : Option (Wrapped SealedBox) :=
  manifest.wrappedKeys.find? (·.recipient = nodeId)

def wrappedObjectIdKeyFor : Option (Wrapped SealedBox) :=
  manifest.wrappedObjectIdKeys.find? (·.recipient = nodeId)

def wrappedKeyV4For : Option (Wrapped WrappedKey) :=
  manifest.wrappedKeysV4.find? (·.recipient = nodeId)

def resolvedWrappedKeyFor : Option WrappedKey :=
  match manifest.wrappedKeyV4For nodeId with
  | some v4 => some v4.sealed
  | none => (manifest.wrappedKeyFor nodeId).map (.hpkeX25519 ·.sealed)

/-- Whether a V4 wrap is the V3 wrap of the recipient. -/
def isPromoted (v4 : Wrapped WrappedKey) (v3 : Wrapped SealedBox) : Bool :=
  match v4.sealed with
  | .hpkeX25519 sealed => sealed.enc = v3.sealed.enc ∧ sealed.ciphertext = v3.sealed.ciphertext ∧
      v4.issuedAt = v3.issuedAt
  | .xwing _ => false

def splitViewRecipients : List NodeId :=
  manifest.wrappedKeysV4.filterMap fun v4 =>
    match manifest.wrappedKeyFor v4.recipient with
    | none => none
    | some v3 => if isPromoted v4 v3 then none else some v4.recipient

def firstDuplicate (seen : List NodeId) : List NodeId → Option NodeId
  | [] => none
  | node :: nodes => if node ∈ seen then some node else firstDuplicate (node :: seen) nodes

def validateNoRecipientSplitView : Except ZoneKeyError Unit :=
  match firstDuplicate [] (manifest.wrappedKeys.map (·.recipient)),
      firstDuplicate [] (manifest.wrappedKeysV4.map (·.recipient)),
      firstDuplicate [] (manifest.wrappedObjectIdKeys.map (·.recipient)),
      manifest.splitViewRecipients with
  | some dup, _, _, _ => .error (.duplicateRecipientInManifest dup "wrapped_keys")
  | none, some dup, _, _ => .error (.duplicateRecipientInManifest dup "wrapped_keys_v4")
  | none, none, some dup, _ => .error (.duplicateRecipientInManifest dup "wrapped_object_id_keys")
  | none, none, none, first :: _ => .error (.inconsistentRecipientWraps first)
  | none, none, none, [] => .ok ()

/-- No recipient is in a list twice or resolves to different keys in the two lists. -/
structure Unambiguous : Prop where
  wrappedKeys : (manifest.wrappedKeys.map (·.recipient)).Nodup
  wrappedKeysV4 : (manifest.wrappedKeysV4.map (·.recipient)).Nodup
  wrappedObjectIdKeys : (manifest.wrappedObjectIdKeys.map (·.recipient)).Nodup
  splitView : manifest.splitViewRecipients = []

/-- A node resolves to one wrap, whichever list it is looked up in. -/
structure OnlyWrap (wrapped : Wrapped WrappedKey) : Prop where
  unique : ∀ v4 ∈ manifest.wrappedKeysV4, v4.recipient = nodeId → v4 = wrapped
  promoted : ∀ v3 ∈ manifest.wrappedKeys, v3.recipient = nodeId → v3.toV4 = wrapped
  resolved : manifest.resolvedWrappedKeyFor nodeId = some wrapped.sealed

end ZoneKeyManifest

inductive PreferredKem where
  | auto
  | hpkeX25519
  | xwing
deriving DecidableEq

structure ProtocolVersionPolicy where
  preferredKem : PreferredKem
  requirePqKem : Bool

inductive MeshProtocolVersion where
  | v3
  | v4
deriving DecidableEq

structure ZoneKeyRecipient where
  nodeId : NodeId
  hpkePublicKey : Bytes 32
  xwingPublicKey : Option (List UInt8)
  protocols : List MeshProtocolVersion

variable (recipient : ZoneKeyRecipient)

def ZoneKeyRecipient.supportsV4 : Bool := .v4 ∈ recipient.protocols

inductive DeferredAckReason where
  | v3OnlyPeer
  | missingXWingPublicKey

inductive ZoneKeyRotationAckRequirement where
  | immediate (peer : NodeId) (kem : ZoneKemAlgorithm)
  | deferred (peer : NodeId) (reason : DeferredAckReason)

def ZoneKeyRotationAckRequirement.isDeferred : ZoneKeyRotationAckRequirement → Bool
  | .immediate _ _ => false
  | .deferred _ _ => true

inductive ZoneKeyRotationPhase where
  | complete
  | deferredAcknowledgement

structure ZoneKeyRotationCutover where
  manifest : ZoneKeyManifest
  phase : ZoneKeyRotationPhase
  acknowledgements : List ZoneKeyRotationAckRequirement

/-- `ZoneKeyRotationError`; those of the sealing by their text. -/
inductive ZoneKeyRotationError where
  | duplicateRecipient (peer : NodeId)
  | invalidManifest (e : ZoneKeyError)
  | postQuantumKemRequired (peer : NodeId) (reason : DeferredAckReason)
  | kemTooWeak (peer : NodeId) (kem : ZoneKemAlgorithm)
  | missingRecipientWrap (peer : NodeId)
  | hpkeWrap (peer : NodeId) (source : String)
  | xwingWrap (peer : NodeId) (source : String)

inductive ChosenKem where
  | xwing (publicKey : List UInt8)
  | hpke (deferredReason : Option DeferredAckReason)

def chooseKem (policy : ProtocolVersionPolicy) : Except ZoneKeyRotationError ChosenKem :=
  if policy.preferredKem = .hpkeX25519 then
    if policy.requirePqKem then
      .error (.postQuantumKemRequired recipient.nodeId .missingXWingPublicKey)
    else .ok (.hpke none)
  else
    match recipient.supportsV4, recipient.xwingPublicKey with
    | true, some publicKey => .ok (.xwing publicKey)
    | supportsV4, _ =>
      let reason := if supportsV4 then .missingXWingPublicKey else .v3OnlyPeer
      if policy.requirePqKem then .error (.postQuantumKemRequired recipient.nodeId reason)
      else .ok (.hpke (some reason))

/-- `enforce_incoming_zone_key_policy`. -/
def enforceIncoming (manifest : ZoneKeyManifest) (recipient : NodeId)
    (policy : ProtocolVersionPolicy) : Except ZoneKeyRotationError WrappedKey :=
  match manifest.validateNoRecipientSplitView, manifest.resolvedWrappedKeyFor recipient with
  | .error e, _ => .error (.invalidManifest e)
  | .ok (), none => .error (.missingRecipientWrap recipient)
  | .ok (), some wrapped =>
    if policy.requirePqKem ∧ wrapped.kem ≠ .xwing then .error (.kemTooWeak recipient wrapped.kem)
    else .ok wrapped

/-- The loop over the recipients before any key is sealed. -/
def checkRecipients (policy : ProtocolVersionPolicy) (seen : List NodeId) :
    List ZoneKeyRecipient → Except ZoneKeyRotationError Unit
  | [] => .ok ()
  | recipient :: recipients =>
    if recipient.nodeId ∈ seen then .error (.duplicateRecipient recipient.nodeId)
    else
      match chooseKem recipient policy with
      | .error e => .error e
      | .ok _ => checkRecipients policy (recipient.nodeId :: seen) recipients

/-- What is appended for a recipient to the V4 list, the V3 list and the acknowledgements. -/
structure Issued where
  v4 : Wrapped WrappedKey
  v3 : Option (Wrapped SealedBox)
  ack : ZoneKeyRotationAckRequirement

/-- A recipient gets an X-Wing wrap, or an HPKE wrap in both lists where the policy allows it.
The acknowledgement is deferred when HPKE was not asked for. -/
def Issued.Fits (policy : ProtocolVersionPolicy) (issued : Issued) : Prop :=
  (issued.v3 = none ∧ issued.v4.sealed.kem = .xwing ∧ issued.ack.isDeferred = false) ∨
    ∃ v3, issued.v3 = some v3 ∧ v3.toV4 = issued.v4 ∧ policy.requirePqKem = false ∧
      (issued.ack.isDeferred = true ↔ policy.preferredKem ≠ .hpkeX25519)

/-- The manifest holds what was issued to the recipients. -/
structure Carries (policy : ProtocolVersionPolicy) (recipients : List ZoneKeyRecipient)
    (manifest : ZoneKeyManifest) (all : List Issued) : Prop where
  nodes : all.map (·.v4.recipient) = recipients.map (·.nodeId)
  fits : ∀ issued ∈ all, issued.Fits policy
  v4 : manifest.wrappedKeysV4 = all.map (·.v4)
  v3 : manifest.wrappedKeys = all.filterMap (·.v3)
  ids : ∀ entry ∈ manifest.wrappedObjectIdKeys, entry.recipient ∈ recipients.map (·.nodeId)
  unambiguous : manifest.Unambiguous

section Issue

variable (hpkeSeal : Bytes 32 → ZoneId → NodeId → UInt64 → Except String SealedBox)
  (xwingSeal : List UInt8 → ZoneId → NodeId → UInt64 → Except String SealedBox)
  (template : ZoneKeyManifest) (policy : ProtocolVersionPolicy)

/-- The body of the loop that seals the key. -/
def issue (recipient : ZoneKeyRecipient) : Except ZoneKeyRotationError Issued :=
  let node := recipient.nodeId
  match chooseKem recipient policy with
  | .error e => .error e
  | .ok (.xwing publicKey) =>
    match xwingSeal publicKey template.zoneId node template.validFrom with
    | .error source => .error (.xwingWrap node source)
    | .ok sealed =>
      .ok ⟨⟨node, template.validFrom, .xwing sealed⟩, none, .immediate node .xwing⟩
  | .ok (.hpke reason) =>
    match hpkeSeal recipient.hpkePublicKey template.zoneId node template.validFrom with
    | .error source => .error (.hpkeWrap node source)
    | .ok sealed =>
      let wrapped : Wrapped SealedBox := ⟨node, template.validFrom, sealed⟩
      .ok ⟨wrapped.toV4, some wrapped,
        reason.elim (.immediate node .hpkeX25519) (.deferred node)⟩

def issueAll : List ZoneKeyRecipient → Except ZoneKeyRotationError (List Issued)
  | [] => .ok []
  | recipient :: recipients => do
    let issued ← issue hpkeSeal xwingSeal template policy recipient
    return issued :: (← issueAll recipients)

variable (recipients : List ZoneKeyRecipient)

/-- The manifest with the wraps that were issued. -/
def issuedManifest (issued : List Issued) : ZoneKeyManifest :=
  { template with
    wrappedKeys := issued.filterMap (·.v3)
    wrappedKeysV4 := issued.map (·.v4)
    wrappedObjectIdKeys := template.wrappedObjectIdKeys.filter fun entry =>
      entry.recipient ∈ recipients.map (·.nodeId)
    signature := List.Vector.replicate 64 0
    kem := if issued.any (·.v4.sealed.kem = .xwing) then .xwing else .hpkeX25519 }

def buildZoneKeyRotationCutover :
    Except ZoneKeyRotationError ZoneKeyRotationCutover := do
  template.validateNoRecipientSplitView.mapError .invalidManifest
  checkRecipients policy [] recipients
  let issued ← issueAll hpkeSeal xwingSeal template policy recipients
  let manifest := issuedManifest template recipients issued
  manifest.validateNoRecipientSplitView.mapError .invalidManifest
  return ⟨manifest, if issued.any (·.ack.isDeferred) then .deferredAcknowledgement else .complete,
    issued.map (·.ack)⟩

end Issue

variable {hpkeSeal : Bytes 32 → ZoneId → NodeId → UInt64 → Except String SealedBox}
  {xwingSeal : List UInt8 → ZoneId → NodeId → UInt64 → Except String SealedBox}
  {template manifest : ZoneKeyManifest} {policy : ProtocolVersionPolicy}
  {recipient : ZoneKeyRecipient} {recipients : List ZoneKeyRecipient} {issued : Issued}
  {all : List Issued} {cutover : ZoneKeyRotationCutover}

theorem firstDuplicate_eq_none_iff {seen nodes : List NodeId} :
    ZoneKeyManifest.firstDuplicate seen nodes = none ↔
      nodes.Nodup ∧ ∀ node ∈ nodes, node ∉ seen := by
  induction nodes generalizing seen with
  | nil => simp [ZoneKeyManifest.firstDuplicate]
  | cons node nodes ih =>
    rw [ZoneKeyManifest.firstDuplicate]
    split_ifs with hseen
    · simp [hseen]
    · rw [ih, nodup_cons, forall_mem_cons]
      constructor
      · rintro ⟨hnodup, hnew⟩
        exact ⟨⟨fun hmem => hnew node hmem mem_cons_self, hnodup⟩, hseen,
          fun other hmem hother => hnew other hmem (mem_cons_of_mem _ hother)⟩
      · rintro ⟨⟨hnot, hnodup⟩, -, hnew⟩
        refine ⟨hnodup, fun other hmem hother => ?_⟩
        rcases mem_cons.mp hother with rfl | hother
        · exact hnot hmem
        · exact hnew other hmem hother

theorem ZoneKeyManifest.validate_eq_ok_iff :
    manifest.validateNoRecipientSplitView = .ok () ↔ manifest.Unambiguous := by
  have hnodup (nodes) : firstDuplicate [] nodes = none ↔ nodes.Nodup := by
    simp [firstDuplicate_eq_none_iff]
  constructor
  · intro h
    unfold validateNoRecipientSplitView at h
    split at h
    case h_5 h₃ h₄ hids hsplit =>
      exact ⟨(hnodup _).mp h₃, (hnodup _).mp h₄, (hnodup _).mp hids, hsplit⟩
    all_goals cases h
  · rintro ⟨h₃, h₄, hids, hsplit⟩
    rw [validateNoRecipientSplitView, (hnodup _).mpr h₃, (hnodup _).mpr h₄, (hnodup _).mpr hids,
      hsplit]

theorem chooseKem_of_ok {chosen : ChosenKem} (h : chooseKem recipient policy = .ok chosen) :
    (∃ publicKey, chosen = .xwing publicKey) ∨ policy.requirePqKem = false ∧
      ∃ reason, chosen = .hpke reason ∧ (reason.isSome ↔ policy.preferredKem ≠ .hpkeX25519) := by
  unfold chooseKem at h
  split_ifs at h with hkem hpq hpq
  · cases h
    exact .inr ⟨by simpa using hpq, none, rfl, by simp [hkem]⟩
  · split at h
    · cases h
      exact .inl ⟨_, rfl⟩
    · cases h
  · split at h
    · cases h
      exact .inl ⟨_, rfl⟩
    · cases h
      exact .inr ⟨by simpa using hpq, _, rfl, by simp [hkem]⟩

theorem issue_of_ok (h : issue hpkeSeal xwingSeal template policy recipient = .ok issued) :
    issued.v4.recipient = recipient.nodeId ∧ issued.Fits policy := by
  unfold issue at h
  cases hchoose : chooseKem recipient policy with
  | error e =>
    rw [hchoose] at h
    cases h
  | ok chosen =>
    rw [hchoose] at h
    rcases chooseKem_of_ok hchoose with ⟨publicKey, rfl⟩ | ⟨hpq, reason, rfl, hreason⟩
    · dsimp only at h
      split at h <;> cases h
      exact ⟨rfl, .inl ⟨rfl, rfl, rfl⟩⟩
    · dsimp only at h
      split at h <;> cases h
      refine ⟨rfl, .inr ⟨_, rfl, rfl, hpq, ?_⟩⟩
      rw [← hreason]
      cases reason <;> simp [ZoneKeyRotationAckRequirement.isDeferred]

theorem issueAll_of_ok (h : issueAll hpkeSeal xwingSeal template policy recipients = .ok all) :
    all.map (·.v4.recipient) = recipients.map (·.nodeId) ∧
      ∀ issued ∈ all, issued.Fits policy := by
  induction recipients generalizing all with
  | nil =>
    cases h
    simp
  | cons recipient recipients ih =>
    obtain ⟨issued, hissue, h⟩ := bind_eq_ok h
    obtain ⟨rest, hrest, h⟩ := bind_eq_ok h
    cases h
    obtain ⟨hnode, hfits⟩ := issue_of_ok hissue
    obtain ⟨hnodes, hall⟩ := ih hrest
    rw [map_cons, hnode, hnodes]
    exact ⟨rfl, forall_mem_cons.mpr ⟨hfits, hall⟩⟩

namespace Carries

variable (h : Carries policy recipients manifest all)
include h

theorem exists_of_mem {v3 : Wrapped SealedBox} (hmem : v3 ∈ manifest.wrappedKeys) :
    ∃ issued ∈ all, v3.toV4 = issued.v4 := by
  rw [h.v3] at hmem
  obtain ⟨issued, hissued, hv3⟩ := mem_filterMap.mp hmem
  refine ⟨issued, hissued, ?_⟩
  rcases h.fits issued hissued with ⟨hnone, -⟩ | ⟨v3', hsome, hpromoted, -⟩
  · cases hnone.symm.trans hv3
  · cases hsome.symm.trans hv3
    exact hpromoted

theorem onlyWrap (hmem : issued ∈ all) : manifest.OnlyWrap issued.v4.recipient issued.v4 := by
  have hin : ∀ {issued}, issued ∈ all → issued.v4 ∈ manifest.wrappedKeysV4 := fun hmem => by
    rw [h.v4]
    exact mem_map_of_mem hmem
  have hunique : ∀ v4 ∈ manifest.wrappedKeysV4, v4.recipient = issued.v4.recipient →
      v4 = issued.v4 :=
    fun v4 hv4 => inj_on_of_nodup_map h.unambiguous.wrappedKeysV4 hv4 (hin hmem)
  refine ⟨hunique, fun v3 hv3 hnode => ?_, ?_⟩
  · obtain ⟨other, hother, hpromoted⟩ := h.exists_of_mem hv3
    rw [hpromoted]
    exact hunique _ (hin hother) (hpromoted ▸ hnode)
  · rw [ZoneKeyManifest.resolvedWrappedKeyFor]
    cases hfind : manifest.wrappedKeyV4For issued.v4.recipient with
    | none =>
      have hnot := find?_eq_none.mp hfind _ (hin hmem)
      simp at hnot
    | some v4 =>
      rw [hunique v4 (mem_of_find?_eq_some hfind) (by simpa using find?_some hfind)]

theorem exists_issued (hmem : recipient ∈ recipients) :
    ∃ issued ∈ all, manifest.OnlyWrap recipient.nodeId issued.v4 := by
  have hnode : recipient.nodeId ∈ all.map (·.v4.recipient) := by
    rw [h.nodes]
    exact mem_map_of_mem hmem
  obtain ⟨issued, hissued, heq⟩ := mem_map.mp hnode
  exact ⟨issued, hissued, heq ▸ h.onlyWrap hissued⟩

theorem mem_recipients (hmem : issued ∈ all) : issued.v4.recipient ∈ recipients.map (·.nodeId) := by
  rw [← h.nodes]
  exact mem_map_of_mem hmem

theorem unresolved {node : NodeId} (hnode : node ∉ recipients.map (·.nodeId)) :
    manifest.resolvedWrappedKeyFor node = none ∧ manifest.wrappedObjectIdKeyFor node = none := by
  have hv4 : manifest.wrappedKeyV4For node = none := by
    refine find?_eq_none.mpr fun v4 hmem heq => hnode ?_
    rw [h.v4] at hmem
    obtain ⟨issued, hissued, rfl⟩ := mem_map.mp hmem
    exact of_decide_eq_true heq ▸ h.mem_recipients hissued
  have hv3 : manifest.wrappedKeyFor node = none := by
    refine find?_eq_none.mpr fun v3 hmem heq => hnode ?_
    obtain ⟨issued, hissued, hpromoted⟩ := h.exists_of_mem hmem
    have hlisted := h.mem_recipients hissued
    rw [← hpromoted] at hlisted
    exact of_decide_eq_true heq ▸ hlisted
  constructor
  · rw [ZoneKeyManifest.resolvedWrappedKeyFor, hv4, hv3]
    rfl
  · exact find?_eq_none.mpr fun entry hmem heq =>
      hnode (of_decide_eq_true heq ▸ h.ids entry hmem)

end Carries

/-- After a cutover every recipient has one wrap of the zone key, which the same policy accepts,
and no other node has a wrap of a key; no recipient is ambiguous; the cutover is deferred
when X-Wing was preferred and some recipient got HPKE; and a policy that requires X-Wing
gets it. -/
theorem cutover_sound
    (h : buildZoneKeyRotationCutover hpkeSeal xwingSeal template policy recipients =
      .ok cutover) :
    (∀ recipient ∈ recipients, ∃ wrapped, cutover.manifest.OnlyWrap recipient.nodeId wrapped ∧
      enforceIncoming cutover.manifest recipient.nodeId policy = .ok wrapped.sealed) ∧
    (∀ node ∉ recipients.map (·.nodeId), cutover.manifest.resolvedWrappedKeyFor node = none ∧
      cutover.manifest.wrappedObjectIdKeyFor node = none) ∧
    cutover.manifest.Unambiguous ∧
    (cutover.phase = .deferredAcknowledgement ↔ policy.preferredKem ≠ .hpkeX25519 ∧
      ∃ recipient ∈ recipients, ∃ sealed,
        cutover.manifest.resolvedWrappedKeyFor recipient.nodeId = some (.hpkeX25519 sealed)) ∧
    (policy.requirePqKem = true → ∀ recipient ∈ recipients, ∃ sealed,
      cutover.manifest.resolvedWrappedKeyFor recipient.nodeId = some (.xwing sealed)) := by
  obtain ⟨_, -, h⟩ := bind_eq_ok h
  obtain ⟨_, -, h⟩ := bind_eq_ok h
  obtain ⟨all, hall, h⟩ := bind_eq_ok h
  obtain ⟨_, hchecked, h⟩ := bind_eq_ok h
  cases h
  have hvalid := mapError_eq_ok hchecked
  obtain ⟨hnodes, hfits⟩ := issueAll_of_ok hall
  have hcarries : Carries policy recipients _ all := ⟨hnodes, hfits, rfl, rfl,
    fun entry hentry => by simpa using (mem_filter.mp hentry).2,
    ZoneKeyManifest.validate_eq_ok_iff.mp hvalid⟩
  have hphase : (if all.any (·.ack.isDeferred) then ZoneKeyRotationPhase.deferredAcknowledgement
      else .complete) = .deferredAcknowledgement ↔ ∃ issued ∈ all, issued.ack.isDeferred = true := by
    split_ifs with hany <;> simpa using hany
  have hstrong : policy.requirePqKem = true → ∀ issued ∈ all, issued.v4.sealed.kem = .xwing := by
    intro hpq issued hissued
    rcases hcarries.fits issued hissued with ⟨-, hxwing, -⟩ | ⟨v3, -, -, hweak, -⟩
    · exact hxwing
    · cases hpq.symm.trans hweak
  refine ⟨fun recipient hmem => ?_, fun node => hcarries.unresolved, hcarries.unambiguous,
    hphase.trans ⟨?_, ?_⟩, fun hpq recipient hmem => ?_⟩
  · obtain ⟨issued, hissued, honly⟩ := hcarries.exists_issued hmem
    refine ⟨issued.v4, honly, ?_⟩
    simp only [enforceIncoming, hvalid, honly.resolved]
    exact if_neg fun hweak => hweak.2 (hstrong hweak.1 issued hissued)
  · rintro ⟨issued, hissued, hdeferred⟩
    rcases hcarries.fits issued hissued with ⟨-, -, hnot⟩ | ⟨v3, -, hpromoted, -, hiff⟩
    · cases hdeferred.symm.trans hnot
    · obtain ⟨recipient, hrecipient, heq⟩ := mem_map.mp (hcarries.mem_recipients hissued)
      refine ⟨hiff.mp hdeferred, recipient, hrecipient, v3.sealed, ?_⟩
      rw [heq, (hcarries.onlyWrap hissued).resolved, ← hpromoted]
      rfl
  · rintro ⟨hpreferred, recipient, hmem, sealed, hresolved⟩
    obtain ⟨issued, hissued, honly⟩ := hcarries.exists_issued hmem
    rw [honly.resolved] at hresolved
    refine ⟨issued, hissued, ?_⟩
    rcases hcarries.fits issued hissued with ⟨-, hxwing, -⟩ | ⟨v3, -, -, -, hiff⟩
    · rw [Option.some.inj hresolved] at hxwing
      cases hxwing
    · exact hiff.mpr hpreferred
  · obtain ⟨issued, hissued, honly⟩ := hcarries.exists_issued hmem
    have hxwing := hstrong hpq issued hissued
    rw [honly.resolved]
    cases hsealed : issued.v4.sealed with
    | hpkeX25519 sealed =>
      rw [hsealed] at hxwing
      cases hxwing
    | xwing sealed => exact ⟨sealed, rfl⟩

def demoBox : SealedBox := ⟨.replicate 32 1, .replicate 48 1⟩

/-- One of two peers cannot read X-Wing yet, and a third one is no longer listed. -/
def demoCutover : Except ZoneKeyRotationError ZoneKeyRotationCutover :=
  buildZoneKeyRotationCutover (fun _ _ _ _ => .ok demoBox)
    (fun _ _ _ _ => .ok ⟨.replicate 1120 1, .replicate 48 1⟩)
    ⟨"z:work", 1, [⟨"old", 0, demoBox⟩], [⟨"old", 0, demoBox⟩], .replicate 64 5, .hpkeX25519, []⟩
    ⟨.auto, false⟩ [⟨"server", .replicate 32 9, some (.replicate 1216 1), [.v3, .v4]⟩,
      ⟨"laptop", .replicate 32 9, none, [.v3]⟩]

theorem unlisted_peer_has_no_wrap :
    ∃ cutover, demoCutover = .ok cutover ∧ cutover.phase = .deferredAcknowledgement ∧
      cutover.manifest.wrappedObjectIdKeyFor "old" = none := by
  obtain ⟨cutover, h, hphase⟩ : ∃ cutover, demoCutover = .ok cutover ∧
      cutover.phase = .deferredAcknowledgement := ⟨_, rfl, rfl⟩
  exact ⟨cutover, h, hphase, ((cutover_sound h).2.1 "old" (by decide)).2⟩

end Flywheel.Mesh
