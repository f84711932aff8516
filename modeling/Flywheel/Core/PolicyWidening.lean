import Flywheel.Core.PolicyDiff

/-!
# Widening of zone policies

A zone policy lets a request through if it admits its principal, connector, capability and transport
and accepts the posture of its device. What follows, from receipts to the final check of provenance,
does not depend on the policy. The summary of risks does not look at the denied principals and
connectors, at lists and ceilings that become empty, and at posture. This file says what these may
let in when nothing is flagged.
-/

namespace Flywheel.Core

open Flywheel.Data

/-! ### What a policy lets through -/

/-- The lists admit a value: no pattern denies it, and one allows it unless there is none. -/
def Admits (allow deny : List PolicyPattern) (value : String) : Prop :=
  matchesAny deny value = false ∧ (allow = [] ∨ matchesAny allow value = true)

def AdmitsCapability (policy : ZonePolicyObject) (capability : CapabilityId) : Prop :=
  Admits policy.capabilityAllow policy.capabilityDeny capability ∧
    (policy.capabilityCeiling = [] ∨ capability ∈ policy.capabilityCeiling)

section Posture

variable {Instant : Type} (chrono : Chrono Instant)

/-- The requirements accept an attestation at a time. -/
def PostureRequirements.Accepts (requirements : PostureRequirements)
    (attestation : Option (PostureAttestation Instant)) (nowMs : UInt64) : Prop :=
  ∃ present, attestation = some present ∧ present.isExpiredAt chrono nowMs = false ∧
    present.schema = postureSchema ∧
    requirements.isSatisfiedByAt chrono present nowMs = .satisfied

/-- The policy accepts an attestation at a time. -/
def AcceptsPosture (policy : ZonePolicyObject) (attestation : Option (PostureAttestation Instant))
    (nowMs : UInt64) : Prop :=
  ∀ requirements, policy.requiresPosture = some requirements →
    requirements.Accepts chrono attestation nowMs

/-- The check of posture passes what the requirements accept. -/
theorem checkPosture_eq_none {requirements : PostureRequirements}
    {attestation : Option (PostureAttestation Instant)} {nowMs : UInt64} :
    checkPosture chrono requirements attestation nowMs = none ↔
      requirements.Accepts chrono attestation nowMs := by
  cases attestation with
  | none => simp [checkPosture, PostureRequirements.Accepts]
  | some present =>
    have hsome : requirements.Accepts chrono (some present) nowMs ↔
        present.isExpiredAt chrono nowMs = false ∧ present.schema = postureSchema ∧
          requirements.isSatisfiedByAt chrono present nowMs = .satisfied := by
      simp [PostureRequirements.Accepts]
    rw [hsome, checkPosture]
    by_cases hexpired : present.isExpiredAt chrono nowMs = true
    · simp [hexpired]
    by_cases hschema : present.schema = postureSchema
    · simp only [hexpired, hschema]
      cases requirements.isSatisfiedByAt chrono present nowMs with
      | _ => simp
    · simp [hexpired, hschema]

end Posture

/-- The policy lets something of each kind through. -/
structure AdmitsSome {Instant : Type} (chrono : Chrono Instant) (policy : ZonePolicyObject) :
    Prop where
  principal : ∃ principal : PrincipalId, Admits policy.principalAllow policy.principalDeny principal
  connector : ∃ connector : ConnectorId, Admits policy.connectorAllow policy.connectorDeny connector
  capability : ∃ capability, AdmitsCapability policy capability
  transport : ∃ mode, policy.transportPolicy.allows mode = true
  posture : ∃ attestation nowMs, AcceptsPosture chrono policy attestation nowMs

section Requests

variable {Json Instant : Type} (libs : EngineLibraries Json Instant)

/-- What a policy looks at in a request. -/
structure LetsThrough (chrono : Chrono Instant) (policy : ZonePolicyObject)
    (input : PolicyDecisionInput Json Instant) : Prop where
  revocationFresh : input.revocationFresh = true
  checkpointFresh : input.checkpointFresh = true
  transport : policy.transportPolicy.allows input.transport = true
  principal : Admits policy.principalAllow policy.principalDeny input.principal
  connector : Admits policy.connectorAllow policy.connectorDeny input.connectorId
  capability : AdmitsCapability policy input.capabilityId
  posture : AcceptsPosture chrono policy input.postureAttestation input.nowMs

theorem checkTransport_eq_none {policy : ZoneTransportPolicy} {mode : TransportMode} :
    checkTransport policy mode = none ↔ policy.allows mode = true := by
  by_cases hallows : policy.allows mode = true
  · simp [checkTransport, hallows]
  · cases mode with
    | _ => simp [checkTransport, hallows]

variable {policy : ZonePolicyObject} {input : PolicyDecisionInput Json Instant}

variable {attestation : Option (PostureAttestation Instant)}
/-- The checks of the policy pass what the policy lets through. -/
theorem checkPolicy_eq_none :
    checkPolicy libs policy input = none ↔ LetsThrough libs.chrono policy input := by
  have hthrough : LetsThrough libs.chrono policy input ↔
      input.revocationFresh = true ∧ input.checkpointFresh = true ∧
        checkTransport policy.transportPolicy input.transport = none ∧
        checkPatternLists policy input = none ∧
        (policy.requiresPosture.bind fun requirements =>
          checkPosture libs.chrono requirements input.postureAttestation input.nowMs) = none ∧
        ¬ (¬ policy.capabilityCeiling.isEmpty ∧
          input.capabilityId ∉ policy.capabilityCeiling) := by
    have hallow : ∀ (allow) (value),
        allow = [] ∨ matchesAny allow value = true ↔
          ¬ (¬ allow.isEmpty = true ∧ ¬ matchesAny allow value = true) := by
      intro allow value
      rw [List.isEmpty_iff]
      tauto
    have hlists : checkPatternLists policy input = none ↔
        Admits policy.principalAllow policy.principalDeny input.principal ∧
          Admits policy.connectorAllow policy.connectorDeny input.connectorId ∧
          Admits policy.capabilityAllow policy.capabilityDeny input.capabilityId := by
      simp only [checkPatternLists, Admits]
      split_ifs <;> simp_all
    rw [checkTransport_eq_none, hlists, Option.bind_eq_none_iff, not_and_or, not_not, not_not,
      List.isEmpty_iff]
    simp only [checkPosture_eq_none]
    exact ⟨fun ⟨hrevocation, hcheckpoint, htransport, hprincipal, hconnector, hcapability, hposture⟩ =>
        ⟨hrevocation, hcheckpoint, htransport, ⟨hprincipal, hconnector, hcapability.1⟩, hposture,
          hcapability.2⟩,
      fun ⟨hrevocation, hcheckpoint, htransport, hlists, hposture, hceiling⟩ =>
        ⟨hrevocation, hcheckpoint, htransport, hlists.1, hlists.2.1, ⟨hlists.2.2, hceiling⟩,
          hposture⟩⟩
  rw [hthrough, checkPolicy]
  rcases input.revocationFresh with _ | _
  · simp
  rcases input.checkpointFresh with _ | _
  · simp
  rcases checkTransport policy.transportPolicy input.transport with _ | _
  swap
  · simp
  rcases checkPatternLists policy input with _ | _
  swap
  · simp
  rcases policy.requiresPosture.bind _ with _ | _
  · simp
  · simp

/-! ### What slips in -/

theorem matchesAny_of_subset {some more : List PolicyPattern}
    (hsubset : patternTexts some ⊆ patternTexts more) {value : String}
    (hmatch : matchesAny some value = true) : matchesAny more value = true := by
  obtain ⟨pattern, hmem, hpattern⟩ := List.any_eq_true.mp hmatch
  obtain ⟨other, hother, htext⟩ := List.mem_map.mp (hsubset (List.mem_map_of_mem hmem))
  exact List.any_eq_true.mpr ⟨other, hother, by rw [htext]; exact hpattern⟩

/-- If the allow list is empty now, the value was allowed before. -/
def KeptByAllow (old new : List PolicyPattern) (value : String) : Prop :=
  new = [] → old = [] ∨ matchesAny old value = true

/-- Nothing that the new policy admits was kept out by what the risk summary does not look at. -/
structure NoneSlipsIn (chrono : Chrono Instant) (old new : ZonePolicyObject) : Prop where
  principalDeny : ∀ principal : PrincipalId,
    Admits new.principalAllow new.principalDeny principal →
      matchesAny old.principalDeny principal = false
  principalAllow : ∀ principal : PrincipalId,
    Admits new.principalAllow new.principalDeny principal →
      KeptByAllow old.principalAllow new.principalAllow principal
  connectorDeny : ∀ connector : ConnectorId,
    Admits new.connectorAllow new.connectorDeny connector →
      matchesAny old.connectorDeny connector = false
  connectorAllow : ∀ connector : ConnectorId,
    Admits new.connectorAllow new.connectorDeny connector →
      KeptByAllow old.connectorAllow new.connectorAllow connector
  capabilityAllow : ∀ capability, AdmitsCapability new capability →
    KeptByAllow old.capabilityAllow new.capabilityAllow capability
  /-- If there is no ceiling now, the capabilities were below the ceiling before. -/
  capabilityCeiling : ∀ capability, AdmitsCapability new capability → new.capabilityCeiling = [] →
    old.capabilityCeiling = [] ∨ capability ∈ old.capabilityCeiling
  posture : ∀ attestation nowMs, AcceptsPosture chrono new attestation nowMs →
    AcceptsPosture chrono old attestation nowMs

/-- What the new policy lets through, the old one let through if nothing slips in. -/
theorem LetsThrough.of_noneSlipsIn {chrono : Chrono Instant} {old new : ZonePolicyObject}
    (hunflagged : Unflagged old new)
    (hnone : NoneSlipsIn chrono old new) (hnew : LetsThrough chrono new input) :
    LetsThrough chrono old input := by
  have hallow : ∀ {oldAllow newAllow : List PolicyPattern} {value : String},
      patternTexts newAllow ⊆ patternTexts oldAllow → KeptByAllow oldAllow newAllow value →
        (newAllow = [] ∨ matchesAny newAllow value = true) →
        oldAllow = [] ∨ matchesAny oldAllow value = true := by
    intro oldAllow newAllow value hsubset hkept hnew
    rcases hnew with hempty | hmatch
    · exact hkept hempty
    · exact .inr (matchesAny_of_subset hsubset hmatch)
  have hdeny : matchesAny old.capabilityDeny input.capabilityId = false := by
    by_contra hdenied
    have hstill := matchesAny_of_subset hunflagged.capabilityDeny (Bool.not_eq_false _ ▸ hdenied)
    exact Bool.false_ne_true (hnew.capability.1.1.symm.trans hstill)
  have hceiling : old.capabilityCeiling = [] ∨ input.capabilityId ∈ old.capabilityCeiling := by
    rcases hnew.capability.2 with hempty | hmem
    · exact hnone.capabilityCeiling _ hnew.capability hempty
    · obtain ⟨other, hother, htext⟩ :=
        List.mem_map.mp (hunflagged.capabilityCeiling (List.mem_map_of_mem hmem))
      exact .inr (Subtype.ext htext ▸ hother)
  exact
    { revocationFresh := hnew.revocationFresh
      checkpointFresh := hnew.checkpointFresh
      transport := hunflagged.transport _ hnew.transport
      principal := ⟨hnone.principalDeny _ hnew.principal, hallow hunflagged.principalAllow
        (hnone.principalAllow _ hnew.principal) hnew.principal.2⟩
      connector := ⟨hnone.connectorDeny _ hnew.connector, hallow hunflagged.connectorAllow
        (hnone.connectorAllow _ hnew.connector) hnew.connector.2⟩
      capability := ⟨⟨hdeny, hallow hunflagged.capabilityAllow
        (hnone.capabilityAllow _ hnew.capability) hnew.capability.1.2⟩, hceiling⟩
      posture := hnone.posture _ _ hnew.posture }

/-! ### Requests that are allowed -/

/-- A request with nothing in it that the engine looks at after the policy: a safe operation on
input of the zone itself. -/
def plainRequest (principal : PrincipalId) (connector : ConnectorId) (capability : CapabilityId)
    (transport : TransportMode) (attestation : Option (PostureAttestation Instant))
    (nowMs : UInt64) : PolicyDecisionInput Json Instant where
  requestObjectId := sendRequestId
  zoneId := .work
  principal := principal
  connectorId := connector
  operationId := ⟨"op.read", by decide +kernel⟩
  capabilityId := capability
  safetyTier := .safe
  provenance := .new .work
  approvalTokens := []
  sanitizerReceipts := []
  requestInput := none
  requestInputHash := none
  relatedObjectIds := []
  transport := transport
  checkpointFresh := true
  revocationFresh := true
  executionApprovalRequired := false
  nowMs := nowMs
  postureAttestation := attestation

variable [DecidableEq Json]

/-- What the engine asks of a request after the checks of the policy. -/
def PassesRest (input : PolicyDecisionInput Json Instant) : Prop :=
  ∃ sanitized approved evidence,
    applySanitizerReceipts libs input.sanitizerReceipts ⟨input.provenance, []⟩ = .ok sanitized ∧
      checkTaint input.safetyTier sanitized.provenance.taintFlags = none ∧
      applyFlowApprovals libs input sanitized = .ok approved ∧
      executionEvidence libs input approved.evidence = .ok evidence ∧
      approved.provenance.canDriveOperation input.safetyTier = .ok ()

/-- A request is allowed if the policy lets it through and it passes the rest. -/
theorem allow_iff_letsThrough : (evaluateInvoke libs policy input).decision = .allow ↔
      LetsThrough libs.chrono policy input ∧ PassesRest libs input := by
  constructor
  · intro hallow
    obtain ⟨hpolicy, sanitized, approved, hrest⟩ :=
      (evaluation_eq_ok libs).mp ((evaluateInvoke_decision libs).mp hallow)
    exact ⟨(checkPolicy_eq_none libs).mp hpolicy, sanitized, approved, _, hrest⟩
  · rintro ⟨hpolicy, sanitized, approved, evidence, hrest⟩
    have hok : evaluation libs policy input = .ok evidence :=
      (evaluation_eq_ok libs).mpr
        ⟨(checkPolicy_eq_none libs).mpr hpolicy, sanitized, approved, hrest⟩
    rw [evaluateInvoke, hok]
    rfl

variable {libs} in
/-- Nothing slips into a policy that lets something through and allows no request that was denied
before. -/
theorem noneSlipsIn_of_allow {old new : ZonePolicyObject} (hsome : AdmitsSome libs.chrono new)
    (hallow : ∀ input : PolicyDecisionInput Json Instant,
      (evaluateInvoke libs new input).decision = .allow →
        (evaluateInvoke libs old input).decision = .allow) :
    NoneSlipsIn libs.chrono old new := by
  obtain ⟨⟨principal₀, hprincipal₀⟩, ⟨connector₀, hconnector₀⟩, ⟨capability₀, hcapability₀⟩,
    ⟨mode₀, hmode₀⟩, ⟨attestation₀, now₀, hposture₀⟩⟩ := hsome
  -- a plain request varies one part of an admitted request at a time
  have hplain : ∀ (principal : PrincipalId) (connector : ConnectorId) (capability)
      (attestation) (nowMs),
      Admits new.principalAllow new.principalDeny principal →
        Admits new.connectorAllow new.connectorDeny connector →
        AdmitsCapability new capability → AcceptsPosture libs.chrono new attestation nowMs →
        Admits old.principalAllow old.principalDeny principal ∧
          Admits old.connectorAllow old.connectorDeny connector ∧
          AdmitsCapability old capability ∧
          AcceptsPosture libs.chrono old attestation nowMs := by
    intro principal connector capability attestation nowMs hprincipal hconnector hcapability
      hposture
    have hflow : (ProvenanceRecord.new .work).canFlowTo .work = .allowed :=
      ProvenanceRecord.canFlowTo_eq_allowed.mpr ⟨le_rfl, le_rfl⟩
    have hrest : PassesRest libs
        (plainRequest principal connector capability mode₀ attestation nowMs) := by
      refine ⟨⟨.new .work, []⟩, ⟨.new .work, []⟩, [], rfl, rfl, ?_, rfl, rfl⟩
      simp only [applyFlowApprovals, plainRequest, hflow]
    have hbefore := hallow _ ((allow_iff_letsThrough libs).mpr
      ⟨⟨rfl, rfl, hmode₀, hprincipal, hconnector, hcapability, hposture⟩, hrest⟩)
    obtain ⟨⟨-, -, -, hprincipal', hconnector', hcapability', hposture'⟩, -⟩ :=
      (allow_iff_letsThrough libs).mp hbefore
    exact ⟨hprincipal', hconnector', hcapability', hposture'⟩
  have hprincipals := fun principal hprincipal =>
    (hplain principal _ _ _ _ hprincipal hconnector₀ hcapability₀ hposture₀).1
  have hconnectors := fun connector hconnector =>
    (hplain _ connector _ _ _ hprincipal₀ hconnector hcapability₀ hposture₀).2.1
  have hcapabilities := fun capability hcapability =>
    (hplain _ _ capability _ _ hprincipal₀ hconnector₀ hcapability hposture₀).2.2.1
  exact
    { principalDeny := fun principal hprincipal => (hprincipals principal hprincipal).1
      principalAllow := fun principal hprincipal _ => (hprincipals principal hprincipal).2
      connectorDeny := fun connector hconnector => (hconnectors connector hconnector).1
      connectorAllow := fun connector hconnector _ => (hconnectors connector hconnector).2
      capabilityAllow := fun capability hcapability _ => (hcapabilities capability hcapability).1.2
      capabilityCeiling := fun capability hcapability _ => (hcapabilities capability hcapability).2
      posture := fun attestation nowMs hposture =>
        (hplain _ _ _ attestation nowMs hprincipal₀ hconnector₀ hcapability₀ hposture).2.2.2 }

/-- Two bundles whose difference is not flagged: the new zone policy allows only what the old one
allowed exactly if nothing slips in, or if nothing gets through it at all. -/
theorem allowed_before_iff_noneSlipsIn (json : JsonSerialization Json)
    {before after : PolicyBundleResolved} {old new : ZonePolicyObject}
    {diff : PolicyBundleDiff Json} (hold : (resolveZonePolicy before).1 = some old)
    (hnew : (resolveZonePolicy after).1 = some new)
    (hdiff : diffPolicyBundles json before after = .ok diff) (hrisk : diff.risk = []) :
    (∀ input : PolicyDecisionInput Json Instant,
        (evaluateInvoke libs new input).decision = .allow →
          (evaluateInvoke libs old input).decision = .allow) ↔
      (AdmitsSome libs.chrono new → NoneSlipsIn libs.chrono old new) := by
  have hunflagged : Unflagged old new := by
    rw [diffPolicyBundles] at hdiff
    split_ifs at hdiff
    dsimp only at hdiff
    rw [hold, hnew] at hdiff
    obtain ⟨zonePolicy, hpolicy, hdiff⟩ := bind_eq_ok hdiff
    obtain ⟨zoneDefinition, -, hdiff⟩ := bind_eq_ok hdiff
    cases hdiff
    obtain ⟨diff, hzonePolicy, rfl⟩ := map_eq_ok hpolicy
    have hdefinitions := foldl_eq_nil (fun flags resource hnil => by simp_all) hrisk
    have hcapabilities := addZoneDefinitionRisks_eq_nil hdefinitions
    have hroles := foldl_eq_nil (fun flags capability hnil => by simp_all) hcapabilities
    exact unflagged_of_diffZonePolicy json hzonePolicy
      (foldl_eq_nil (fun flags role hnil => by simp_all) hroles)
  constructor
  · intro hallow hsome
    exact noneSlipsIn_of_allow hsome hallow
  · intro hnone input hallow
    obtain ⟨hthrough, hrest⟩ := (allow_iff_letsThrough libs).mp hallow
    have hsome : AdmitsSome libs.chrono new :=
      ⟨⟨_, hthrough.principal⟩, ⟨_, hthrough.connector⟩, ⟨_, hthrough.capability⟩,
        ⟨_, hthrough.transport⟩, ⟨_, _, hthrough.posture⟩⟩
    exact (allow_iff_letsThrough libs).mpr ⟨hthrough.of_noneSlipsIn hunflagged (hnone hsome), hrest⟩

end Requests

/-! ### Concrete bundles -/

/-- The JSON values of the fields of zone policies. -/
inductive PolicyJson
  | null
  | decisionReceipts (policy : DecisionReceiptPolicy)
  | requiresPosture (requirements : PostureRequirements)
  | usageBudget (budget : UsageBudgetPolicy)
  deriving DecidableEq

/-- JSON serialization for bundles without zone definitions. -/
def policyJson : JsonSerialization PolicyJson where
  decisionReceipts policy := .ok (.decisionReceipts policy)
  requiresPosture requirements := .ok (requirements.elim .null .requiresPosture)
  usageBudget budget := .ok (budget.elim .null .usageBudget)
  zoneDefinition _ := .ok .null
  asObject _ := none

/-- The libraries for requests without tokens and receipts. -/
def plainLibraries : EngineLibraries PolicyJson ℤ where
  chrono := millisecondChrono
  pointer _ _ := none
  blake3 := blake3OfEvidence
  codec := cborCodec
  tokenSerde := ⟨fun _ => none, fun _ _ => .error .malformed⟩
  receiptSerde := ⟨fun receipt => some (sanitizerReceiptValue receipt), fun _ _ =>
    .error .malformed⟩
  scopeJson _ := none
  flagsJson _ := none
  idsJson _ := none

/-- A bundle of the work zone with one zone policy. -/
def workBundle (objectHash : String) (policy : ZonePolicyObject) : PolicyBundleResolved where
  bundle := ⟨"bundle-1", .work, [⟨"policy-1", "fcp.core:ZonePolicy@1.0.0", objectHash⟩]⟩
  objects := [("policy-1", .zonePolicy policy)]

/-- A policy that denies one principal. -/
def denyMallory : ZonePolicyObject :=
  { openPolicy .work with principalDeny := [⟨"user:mallory"⟩] }

theorem canonical_mail : validateCanonicalId "mail" = .ok () := by decide +kernel

def readRequest (principal : PrincipalId) : PolicyDecisionInput PolicyJson ℤ :=
  plainRequest principal ⟨"mail", canonical_mail⟩ ⟨"mail.read", by decide +kernel⟩ .lan none 1500

/-- A principal that is no longer denied is not flagged, and its request is now allowed. -/
theorem reduced_principal_deny_unflagged :
    (resolveZonePolicy (workBundle "h1" denyMallory)).1 = some denyMallory ∧
      (resolveZonePolicy (workBundle "h2" (openPolicy .work))).1 = some (openPolicy .work) ∧
      (diffPolicyBundles policyJson (workBundle "h1" denyMallory)
        (workBundle "h2" (openPolicy .work))).map PolicyBundleDiff.risk = .ok [] ∧
      evaluateInvoke plainLibraries denyMallory
          (readRequest ⟨"user:mallory", by decide +kernel⟩) =
        .deny .zonePolicyPrincipalDenied [] ∧
      evaluateInvoke plainLibraries (openPolicy .work)
          (readRequest ⟨"user:mallory", by decide +kernel⟩) = .allow [] := by
  refine ⟨rfl, rfl, ?_, ?_, ?_⟩
  · decide +kernel
  · decide +kernel
  · decide +kernel

/-- A principal that is denied from now on: the difference is not flagged, and all that is allowed
was allowed before. -/
theorem added_principal_deny_narrows :
    (diffPolicyBundles policyJson (workBundle "h1" (openPolicy .work))
        (workBundle "h2" denyMallory)).map PolicyBundleDiff.risk = .ok [] ∧
      ∀ input : PolicyDecisionInput PolicyJson ℤ,
        (evaluateInvoke plainLibraries denyMallory input).decision = .allow →
          (evaluateInvoke plainLibraries (openPolicy .work) input).decision = .allow := by
  have hrisk : (diffPolicyBundles policyJson (workBundle "h1" (openPolicy .work))
      (workBundle "h2" denyMallory)).map PolicyBundleDiff.risk = .ok [] := by decide +kernel
  refine ⟨hrisk, ?_⟩
  obtain ⟨diff, hdiff, hempty⟩ := map_eq_ok hrisk
  refine (allowed_before_iff_noneSlipsIn plainLibraries policyJson rfl rfl hdiff hempty).mpr
    fun _ => ?_
  exact
    { principalDeny := fun _ _ => rfl
      principalAllow := fun _ _ _ => .inl rfl
      connectorDeny := fun _ _ => rfl
      connectorAllow := fun _ _ _ => .inl rfl
      capabilityAllow := fun _ _ _ => .inl rfl
      capabilityCeiling := fun _ _ _ => .inl rfl
      posture := fun _ _ h => h }

end Flywheel.Core
