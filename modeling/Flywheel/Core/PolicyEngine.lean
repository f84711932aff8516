import Flywheel.Core.CanonicalCbor
import Flywheel.Core.Posture
import Flywheel.Core.Provenance

/-!
# The policy engine

`PolicyEngine::evaluate_invoke` of `fcp-core`. A request first passes the checks of the zone policy.
Its provenance is then changed by sanitizer receipts and approval tokens, and what comes out has to
carry the operation. Receipts and tokens that were used are returned as evidence, under the hashes
of their contents. Hashing, serialization, JSON and time are parameters.
-/

namespace Flywheel.Core

open Flywheel.Data IntegrityLevel List

/-! ### Policies and requests -/

inductive TransportMode
  | lan
  | derp
  | funnel
  deriving DecidableEq

structure ZoneTransportPolicy where
  allowLan : Bool
  allowDerp : Bool
  allowFunnel : Bool
  deriving DecidableEq

def ZoneTransportPolicy.allows (policy : ZoneTransportPolicy) : TransportMode → Bool
  | .lan => policy.allowLan
  | .derp => policy.allowDerp
  | .funnel => policy.allowFunnel

structure DecisionReceiptPolicy where
  emitOnAllow : Bool
  emitOnDeny : Bool
  deriving DecidableEq

inductive BudgetEnforcement
  | warn
  | deny
  deriving DecidableEq

inductive UsageMetricKind
  | apiCredits
  | tokens
  | bytes
  | durationMs
  | requests
  | custom
  deriving DecidableEq

structure UsageBudgetLimit where
  metric : UsageMetricKind
  limit : UInt64
  windowSeconds : UInt64
  deriving DecidableEq

structure UsageBudgetPolicy where
  enforcement : BudgetEnforcement
  budgets : List UsageBudgetLimit
  deriving DecidableEq

structure PolicyPattern where
  pattern : String
  deriving DecidableEq

/-- `ZonePolicyObject`, without its header. -/
structure ZonePolicyObject where
  zoneId : CanonicalZoneId
  principalAllow : List PolicyPattern
  principalDeny : List PolicyPattern
  connectorAllow : List PolicyPattern
  connectorDeny : List PolicyPattern
  capabilityAllow : List PolicyPattern
  capabilityDeny : List PolicyPattern
  /-- Ceiling of capabilities; if there are none, there is no ceiling. -/
  capabilityCeiling : List CapabilityId
  transportPolicy : ZoneTransportPolicy
  decisionReceipts : DecisionReceiptPolicy
  usageBudget : Option UsageBudgetPolicy
  requiresPosture : Option PostureRequirements
  deriving DecidableEq

structure PolicyDecisionInput (Json Instant : Type) where
  requestObjectId : ObjectId
  zoneId : CanonicalZoneId
  principal : PrincipalId
  connectorId : ConnectorId
  operationId : OperationId
  capabilityId : CapabilityId
  safetyTier : SafetyTier
  provenance : ProvenanceRecord
  approvalTokens : List (ApprovalToken Json)
  sanitizerReceipts : List SanitizerReceipt
  requestInput : Option Json
  requestInputHash : Option (Bytes 32)
  relatedObjectIds : List ObjectId
  transport : TransportMode
  checkpointFresh : Bool
  revocationFresh : Bool
  executionApprovalRequired : Bool
  nowMs : UInt64
  postureAttestation : Option (PostureAttestation Instant)

/-- What the engine uses of other crates. -/
structure EngineLibraries (Json Instant : Type) where
  chrono : Chrono Instant
  pointer : Json → String → Option Json
  blake3 : List UInt8 → Bytes 32
  codec : Codec
  tokenSerde : Serde (ApprovalToken Json)
  receiptSerde : Serde SanitizerReceipt
  scopeJson : ApprovalScope Json → Option (List UInt8)
  flagsJson : List TaintFlag → Option (List UInt8)
  idsJson : List ObjectId → Option (List UInt8)

/-! ### Decisions -/

/-- `DecisionReasonCode`, as far as the engine gives it. -/
inductive DecisionReasonCode
  | allow
  | capabilityInsufficient
  | checkpointStaleFrontier
  | revocationStaleFrontier
  | taintPublicInputDangerous
  | taintUnverifiedLinkRisky
  | taintMaliciousInput
  | taintRiskyRequiresElevation
  | taintCrossZoneUnapproved
  | integrityInsufficient
  | zonePolicyPrincipalDenied
  | zonePolicyConnectorDenied
  | zonePolicyCapabilityDenied
  | zonePolicyPrincipalNotAllowed
  | zonePolicyConnectorNotAllowed
  | zonePolicyCapabilityNotAllowed
  | approvalMissingElevation
  | approvalMissingDeclassification
  | approvalMissingExecution
  | approvalElevationScopeMismatch
  | approvalExecutionScopeMismatch
  | transportDerpForbidden
  | transportFunnelForbidden
  | transportLanForbidden
  | sanitizerReceiptInvalid
  | sanitizerCoverageInsufficient
  | postureAttestationMissing
  | postureAttestationExpired
  | postureAttestationInvalid
  | postureRequirementNotMet
  | postureVerifierNotAllowed
  | operationForbidden
  deriving DecidableEq

def DecisionReasonCode.fromProvenanceViolation : ProvenanceViolation → DecisionReasonCode
  | .publicInputForDangerousOperation => taintPublicInputDangerous
  | .maliciousInputDetected => taintMaliciousInput
  | .taintedInputForRiskyOperation _ => taintRiskyRequiresElevation
  | .insufficientIntegrity _ _ => integrityInsufficient
  | .invalidElevation _ _ => approvalMissingElevation
  | .invalidDeclassification _ _ => approvalMissingDeclassification
  | .crossZoneUnapprovedForDangerousOperation => taintCrossZoneUnapproved
  | .forbiddenOperation => operationForbidden

inductive Decision
  | allow
  | deny
  deriving DecidableEq

structure PolicyDecision where
  decision : Decision
  reasonCode : DecisionReasonCode
  evidence : List ObjectId
  explanation : Option String
  deriving DecidableEq

def PolicyDecision.allow (evidence : List ObjectId) : PolicyDecision :=
  ⟨.allow, .allow, evidence, none⟩

def PolicyDecision.deny (reasonCode : DecisionReasonCode) (evidence : List ObjectId) :
    PolicyDecision :=
  ⟨.deny, reasonCode, evidence, none⟩

/-- A reason to deny, with the evidence so far. -/
structure Refusal where
  reasonCode : DecisionReasonCode
  evidence : List ObjectId
  deriving DecidableEq

/-- The provenance on its way through receipts and tokens, with the evidence so far. -/
structure Working where
  provenance : ProvenanceRecord
  evidence : List ObjectId
  deriving DecidableEq

/-- A higher integrity, with the token that gives it. -/
def Working.raise (working : Working) (nowMs : UInt64) (tokenId : ObjectId)
    (target : IntegrityLevel) : Working where
  provenance := { working.provenance with
    labelAdjustments := working.provenance.labelAdjustments ++
      [⟨nowMs, .elevation, tokenId, some working.provenance.integrityLabel, some target, none,
        none⟩]
    integrityLabel := target }
  evidence := working.evidence ++ [tokenId]

/-- A lower confidentiality, with the token that gives it. -/
def Working.lower (working : Working) (nowMs : UInt64) (tokenId : ObjectId)
    (target : ConfidentialityLevel) : Working where
  provenance := { working.provenance with
    labelAdjustments := working.provenance.labelAdjustments ++
      [⟨nowMs, .declassification, tokenId, none, none,
        some working.provenance.confidentialityLabel, some target⟩]
    confidentialityLabel := target }
  evidence := working.evidence ++ [tokenId]

/-- Go on unless there is a reason to deny. -/
def refuse (reason : Option DecisionReasonCode) (evidence : List ObjectId) : Except Refusal Unit :=
  match reason with
  | some reasonCode => .error ⟨reasonCode, evidence⟩
  | none => .ok ()

variable {Json Instant : Type} (libs : EngineLibraries Json Instant)

/-! ### Checks of the zone policy -/

def checkTransport (policy : ZoneTransportPolicy) (mode : TransportMode) :
    Option DecisionReasonCode :=
  if policy.allows mode then none
  else
    match mode with
    | .lan => some .transportLanForbidden
    | .derp => some .transportDerpForbidden
    | .funnel => some .transportFunnelForbidden

def matchesAny (patterns : List PolicyPattern) (value : String) : Bool :=
  patterns.any fun pattern => patternMatches pattern.pattern value

variable (policy : ZonePolicyObject) (input : PolicyDecisionInput Json Instant)

def checkPatternLists : Option DecisionReasonCode :=
  if matchesAny policy.principalDeny input.principal then some .zonePolicyPrincipalDenied
  else if matchesAny policy.connectorDeny input.connectorId then some .zonePolicyConnectorDenied
  else if matchesAny policy.capabilityDeny input.capabilityId then
    some .zonePolicyCapabilityDenied
  else if ¬ policy.principalAllow.isEmpty ∧ ¬ matchesAny policy.principalAllow input.principal then
    some .zonePolicyPrincipalNotAllowed
  else if ¬ policy.connectorAllow.isEmpty ∧
      ¬ matchesAny policy.connectorAllow input.connectorId then
    some .zonePolicyConnectorNotAllowed
  else if ¬ policy.capabilityAllow.isEmpty ∧
      ¬ matchesAny policy.capabilityAllow input.capabilityId then
    some .zonePolicyCapabilityNotAllowed
  else none

/-- `check_posture`, with what it reads of the request. -/
def checkPosture (chrono : Chrono Instant) (requirements : PostureRequirements)
    (postureAttestation : Option (PostureAttestation Instant)) (nowMs : UInt64) :
    Option DecisionReasonCode :=
  match postureAttestation with
  | none => some .postureAttestationMissing
  | some attestation =>
    if attestation.isExpiredAt chrono nowMs then some .postureAttestationExpired
    else if attestation.schema ≠ postureSchema then some .postureAttestationInvalid
    else
      match requirements.isSatisfiedByAt chrono attestation nowMs with
      | .satisfied => none
      | .attestationExpired | .attestationTooOld => some .postureAttestationExpired
      | .verifierNotAllowed => some .postureVerifierNotAllowed
      | .requirementNotMet _ => some .postureRequirementNotMet

/-- The checks of `evaluate_invoke` before receipts and tokens. -/
def checkPolicy : Option DecisionReasonCode :=
  if ¬ input.revocationFresh then some .revocationStaleFrontier
  else if ¬ input.checkpointFresh then some .checkpointStaleFrontier
  else
    match checkTransport policy.transportPolicy input.transport with
    | some reason => some reason
    | none =>
      match checkPatternLists policy input with
      | some reason => some reason
      | none =>
        match policy.requiresPosture.bind fun requirements =>
            checkPosture libs.chrono requirements input.postureAttestation input.nowMs with
        | some reason => some reason
        | none =>
          if ¬ policy.capabilityCeiling.isEmpty ∧
              input.capabilityId ∉ policy.capabilityCeiling then some .capabilityInsufficient
          else none

/-! ### Evidence -/

def framedField (field : List UInt8) : List UInt8 := leBytes 8 field.length ++ field

/-- `approval_token_object_id`: the hash of the canonical encoding, and of all fields if there is no
such encoding. -/
def approvalTokenObjectId (token : ApprovalToken Json) : ObjectId :=
  match toCanonicalCbor libs.codec libs.tokenSerde token with
  | .ok bytes => objectIdFromUnscopedBytes libs.blake3 bytes
  | .error _ =>
    let fields := [utf8 token.tokenId, leBytes 8 token.issuedAtMs.toNat,
      leBytes 8 token.expiresAtMs.toNat, utf8 token.issuer, utf8 token.zoneId,
      (libs.scopeJson token.scope).getD [], token.signature.getD []]
    objectIdFromUnscopedBytes libs.blake3 (utf8 "FCP/ApprovalToken/fallback/v1" ++
      fields.flatMap framedField ++ [if token.signature.isSome then 1 else 0])

def sanitizerReceiptObjectId (receipt : SanitizerReceipt) : ObjectId :=
  match toCanonicalCbor libs.codec libs.receiptSerde receipt with
  | .ok bytes => objectIdFromUnscopedBytes libs.blake3 bytes
  | .error _ =>
    let fields := [utf8 receipt.receiptId, leBytes 8 receipt.timestampMs.toNat,
      utf8 receipt.sanitizerId, utf8 receipt.sanitizerZone,
      (libs.flagsJson receipt.authorizedFlags).getD [],
      (libs.flagsJson receipt.clearedFlags).getD [],
      (libs.idsJson receipt.coveredInputs).getD [], receipt.signature.getD []]
    objectIdFromUnscopedBytes libs.blake3 (utf8 "FCP/SanitizerReceipt/fallback/v1" ++
      fields.flatMap framedField ++ [if receipt.signature.isSome then 1 else 0])

/-! ### Receipts -/

def applySanitizerReceipts : List SanitizerReceipt → Working → Except Refusal Working
  | [], working => .ok working
  | receipt :: receipts, working =>
    if ¬ receipt.isValid then .error ⟨.sanitizerReceiptInvalid, working.evidence⟩
    else if ¬ receipt.coversInputs working.provenance.inputSources then
      .error ⟨.sanitizerCoverageInsufficient, working.evidence⟩
    else
      let receiptId := sanitizerReceiptObjectId libs receipt
      applySanitizerReceipts receipts
        { provenance := working.provenance.applyTaintReduction receipt.clearedFlags receiptId
            receipt.coveredInputs receipt.timestampMs
          evidence := working.evidence ++ [receiptId] }

/-- What a list of receipts makes of the provenance when all of them are accepted. -/
structure Sanitizes (receipts : List SanitizerReceipt) (before after : Working) : Prop where
  valid : ∀ receipt ∈ receipts, receipt.isValid = true
  covers : ∀ receipt ∈ receipts, before.provenance.inputSources ⊆ receipt.coveredInputs
  taintFlags : after.provenance.taintFlags =
    before.provenance.taintFlags \ (receipts.flatMap SanitizerReceipt.clearedFlags).toFinset
  integrity : after.provenance.integrityLabel = before.provenance.integrityLabel
  confidentiality : after.provenance.confidentialityLabel = before.provenance.confidentialityLabel
  currentZone : after.provenance.currentZone = before.provenance.currentZone
  evidence : after.evidence = before.evidence ++ receipts.map (sanitizerReceiptObjectId libs)

variable {libs} in
/-- Receipts that are all accepted are applied one by one. -/
theorem sanitizes_of_ok {receipts : List SanitizerReceipt} {before after : Working}
    (hok : applySanitizerReceipts libs receipts before = .ok after) :
    Sanitizes libs receipts before after := by
  induction receipts generalizing before with
  | nil =>
    cases hok
    exact ⟨forall_mem_nil _, forall_mem_nil _, by simp, rfl, rfl, rfl, by simp⟩
  | cons receipt receipts ih =>
    rw [applySanitizerReceipts] at hok
    split_ifs at hok with hvalid hcovers
    have hrest := ih hok
    obtain ⟨hflags, hintegrity, hconfidentiality, hzone, hsources⟩ :=
      before.provenance.applyTaintReduction_spec receipt.clearedFlags
        (sanitizerReceiptObjectId libs receipt) receipt.coveredInputs receipt.timestampMs
    have hcovered := (receipt.coversInputs_iff _).mp hcovers
    refine ⟨forall_mem_cons.mpr ⟨hvalid, hrest.valid⟩,
      forall_mem_cons.mpr ⟨hcovered, hsources ▸ hrest.covers⟩, ?_,
      hrest.integrity.trans hintegrity, hrest.confidentiality.trans hconfidentiality,
      hrest.currentZone.trans hzone, ?_⟩
    · rw [hrest.taintFlags, hflags]
      ext flag
      simp only [Finset.mem_sdiff, mem_toFinset, flatMap_cons, mem_append]
      tauto
    · rw [hrest.evidence, map_cons, append_assoc, singleton_append]

/-- The taint that `evaluate_invoke` looks at between receipts and tokens. -/
def checkTaint (tier : SafetyTier) (flags : TaintFlags) : Option DecisionReasonCode :=
  if tier ≠ .safe ∧ .unverifiedLink ∈ flags then some .taintUnverifiedLinkRisky
  else if tier ≠ .safe ∧ tier ≠ .risky ∧ .publicInput ∈ flags then
    some .taintPublicInputDangerous
  else none

/-! ### Elevation -/

/-- The loop of `apply_elevation` over the tokens: the first one that fits, whether an elevation
token was seen, and whether one did not fit. -/
def scanElevation (input : PolicyDecisionInput Json Instant) (required : IntegrityLevel) :
    List (ApprovalToken Json) → (sawElevationScope hadMismatch : Bool) →
      Option (ApprovalToken Json) × Bool × Bool
  | [], saw, mismatch => (none, saw, mismatch)
  | token :: tokens, saw, mismatch =>
    if ¬ token.isValid input.nowMs ∨ token.zoneId ≠ input.zoneId then
      scanElevation input required tokens saw mismatch
    else
      match token.scope with
      | .elevation scope =>
        if scope.operationId ≠ input.operationId.1 then
          scanElevation input required tokens true true
        else if scope.targetIntegrity < required then
          scanElevation input required tokens true true
        else if scope.originalProvenanceId ≠ input.requestObjectId then
          scanElevation input required tokens true true
        else (some token, true, mismatch)
      | _ => scanElevation input required tokens saw mismatch

def applyElevation (working : Working) :
    Except Refusal Working :=
  let required := fromZone input.zoneId
  match scanElevation input required input.approvalTokens false false with
  | (none, saw, mismatch) =>
    .error ⟨if saw && mismatch then .approvalElevationScopeMismatch
      else .approvalMissingElevation, working.evidence⟩
  | (some token, _, _) =>
    let tokenId := approvalTokenObjectId libs token
    let target := match token.scope with
      | .elevation scope => scope.targetIntegrity
      | _ => required
    match working.provenance.applyElevation target tokenId input.nowMs with
    | .error _ => .error ⟨.approvalMissingElevation, working.evidence⟩
    | .ok provenance => .ok ⟨provenance, working.evidence ++ [tokenId]⟩

/-- The token elevates this request to the required level. -/
def elevates (token : ApprovalToken Json) : Bool :=
  match token.scope with
  | .elevation scope =>
    token.isValid input.nowMs ∧ token.zoneId = input.zoneId ∧
      scope.operationId = input.operationId.1 ∧
      fromZone input.zoneId ≤ scope.targetIntegrity ∧
      scope.originalProvenanceId = input.requestObjectId
  | _ => false

variable {input}

theorem elevates_iff {token : ApprovalToken Json} :
    elevates input token = true ↔
      ∃ scope, token.scope = .elevation scope ∧ token.isValid input.nowMs ∧
        token.zoneId = input.zoneId ∧ scope.operationId = input.operationId.1 ∧
        fromZone input.zoneId ≤ scope.targetIntegrity ∧
        scope.originalProvenanceId = input.requestObjectId := by
  rw [elevates]
  cases token.scope <;> simp

/-- The scan finds the first token that elevates. -/
theorem scanElevation_fst (input : PolicyDecisionInput Json Instant)
    (tokens : List (ApprovalToken Json)) (saw mismatch : Bool) :
    (scanElevation input (fromZone input.zoneId) tokens saw mismatch).1 =
      tokens.find? (elevates input) := by
  induction tokens generalizing saw mismatch with
  | nil => rfl
  | cons token tokens ih =>
    have hskip (hnot : ¬ elevates input token) (saw mismatch) :
        (scanElevation input (fromZone input.zoneId) tokens saw mismatch).1 =
          (token :: tokens).find? (elevates input) := by
      rw [find?_cons_of_neg hnot, ih]
    rw [scanElevation]
    cases hscope : token.scope with
    | elevation scope =>
      have htest : elevates input token = true ↔
          ¬ (¬ token.isValid input.nowMs ∨ token.zoneId ≠ input.zoneId) ∧
            ¬ scope.operationId ≠ input.operationId.1 ∧
            ¬ scope.targetIntegrity < fromZone input.zoneId ∧
            ¬ scope.originalProvenanceId ≠ input.requestObjectId := by
        simp [elevates, hscope, and_assoc]
      dsimp only
      split_ifs with hoff hoperation htarget hrequest
      · exact hskip (fun h => (htest.mp h).1 hoff) ..
      · exact hskip (fun h => (htest.mp h).2.1 hoperation) ..
      · exact hskip (fun h => (htest.mp h).2.2.1 htarget) ..
      · exact hskip (fun h => (htest.mp h).2.2.2 hrequest) ..
      · exact (find?_cons_of_pos (htest.mpr ⟨hoff, hoperation, htarget, hrequest⟩)).symm
    | declassification scope | execution scope =>
      split_ifs <;> exact hskip (by simp [elevates, hscope]) ..

variable {working : Working}

variable {libs} in
/-- An elevation that is needed takes the first token that elevates, and raises the integrity to its
target. -/
theorem applyElevation_eq_ok {elevated : Working}
    (hneeded : working.provenance.integrityLabel < fromZone input.zoneId) :
    applyElevation libs input working = .ok elevated ↔
      ∃ token scope, input.approvalTokens.find? (elevates input) = some token ∧
        token.scope = .elevation scope ∧
        elevated = working.raise input.nowMs (approvalTokenObjectId libs token)
          scope.targetIntegrity := by
  have hscan := scanElevation_fst input input.approvalTokens false false
  rw [applyElevation]
  rcases hresult : scanElevation input (fromZone input.zoneId)
    input.approvalTokens false false with ⟨_ | token, saw, mismatch⟩
  · rw [hresult] at hscan
    rw [← hscan]
    simp
  rw [hresult] at hscan
  obtain ⟨scope, hscope, -, -, -, htarget, -⟩ := elevates_iff.mp (find?_some hscan.symm)
  have hhigher := not_le.mpr (hneeded.trans_le htarget)
  simp only [← hscan, hscope, ProvenanceRecord.applyElevation, if_neg hhigher]
  constructor
  · rintro ⟨⟩
    exact ⟨token, scope, rfl, hscope, rfl⟩
  · rintro ⟨_, scope', ⟨⟩, hscope', rfl⟩
    cases hscope.symm.trans hscope'
    rfl

/-! ### Declassification -/

variable (input)

/-- The predicate of `apply_declassification` on a token. -/
def declassifies (provenance : ProvenanceRecord)
    (token : ApprovalToken Json) : Bool :=
  if ¬ token.isValid input.nowMs ∨ token.zoneId ≠ input.zoneId then false
  else
    match token.scope with
    | .declassification scope =>
      let objectsMatch : Bool :=
        if input.relatedObjectIds.isEmpty then input.requestObjectId ∈ scope.objectIds
        else input.relatedObjectIds.all fun id => id ∈ scope.objectIds
      scope.fromZone = provenance.currentZone ∧ scope.toZone = input.zoneId ∧
        scope.targetConfidentiality ≤ provenance.confidentialityLabel ∧
        scope.targetConfidentiality = ConfidentialityLevel.fromZone input.zoneId ∧ objectsMatch
    | _ => false

def applyDeclassification (working : Working) :
    Except Refusal Working :=
  match input.approvalTokens.find? (declassifies input working.provenance) with
  | none => .error ⟨.approvalMissingDeclassification, working.evidence⟩
  | some token =>
    let tokenId := approvalTokenObjectId libs token
    let newLevel := match token.scope with
      | .declassification scope => scope.targetConfidentiality
      | _ => ConfidentialityLevel.fromZone input.zoneId
    match working.provenance.applyDeclassification newLevel tokenId input.nowMs with
    | .error _ => .error ⟨.approvalMissingDeclassification, working.evidence⟩
    | .ok provenance => .ok ⟨provenance, working.evidence ++ [tokenId]⟩

variable {input}

theorem declassifies_iff {provenance : ProvenanceRecord} {token : ApprovalToken Json} :
    declassifies input provenance token = true ↔
      ∃ scope, token.scope = .declassification scope ∧ token.isValid input.nowMs ∧
        token.zoneId = input.zoneId ∧ scope.fromZone = provenance.currentZone ∧
        scope.toZone = input.zoneId ∧
        scope.targetConfidentiality ≤ provenance.confidentialityLabel ∧
        scope.targetConfidentiality = ConfidentialityLevel.fromZone input.zoneId ∧
        (input.relatedObjectIds = [] → input.requestObjectId ∈ scope.objectIds) ∧
        input.relatedObjectIds ⊆ scope.objectIds := by
  rw [declassifies]
  cases token.scope with
  | elevation scope | execution scope => simp
  | declassification scope =>
    cases input.relatedObjectIds <;> simp [and_assoc, subset_def]

variable {libs} in
/-! ### Flow approvals -/

variable (input)

def applyFlowApprovals (working : Working) :
    Except Refusal Working :=
  match working.provenance.canFlowTo input.zoneId with
  | .allowed => .ok working
  | .requiresElevation => applyElevation libs input working
  | .requiresDeclassification => applyDeclassification libs input working
  | .requiresBoth => do
    let elevated ← applyElevation libs input working
    applyDeclassification libs input elevated

/-- An elevation, if the flow needs one. -/
def elevateIfNeeded (working : Working) :
    Except Refusal Working :=
  if fromZone input.zoneId ≤ working.provenance.integrityLabel then .ok working
  else applyElevation libs input working

/-- A declassification, if the flow needs one. -/
def declassifyIfNeeded (working : Working) :
    Except Refusal Working :=
  if working.provenance.confidentialityLabel ≤ ConfidentialityLevel.fromZone input.zoneId then
    .ok working
  else applyDeclassification libs input working

variable {libs input} in
/-- The flow approvals are an elevation and then a declassification, each where it is needed. -/
theorem applyFlowApprovals_eq (working : Working) :
    applyFlowApprovals libs input working =
      (elevateIfNeeded libs input working).bind (declassifyIfNeeded libs input) := by
  rw [applyFlowApprovals, elevateIfNeeded]
  by_cases hi : IntegrityLevel.fromZone input.zoneId ≤ working.provenance.integrityLabel
  · by_cases hc : working.provenance.confidentialityLabel ≤ .fromZone input.zoneId <;>
      simp [ProvenanceRecord.canFlowTo, hi, hc, declassifyIfNeeded, Except.bind]
  cases helevation : applyElevation libs input working with
  | error refusal =>
    by_cases hc : working.provenance.confidentialityLabel ≤ .fromZone input.zoneId <;>
      simp [ProvenanceRecord.canFlowTo, hi, hc, bind, Except.bind]
  | ok elevated =>
    obtain ⟨token, scope, -, -, rfl⟩ := (applyElevation_eq_ok (not_le.mp hi)).mp helevation
    by_cases hc : working.provenance.confidentialityLabel ≤ .fromZone input.zoneId <;>
      simp [ProvenanceRecord.canFlowTo, hi, hc, declassifyIfNeeded, Working.raise, bind,
        Except.bind]

/-! ### Execution -/

variable [DecidableEq Json]

def inputConstraintsMatch (constraints : List (InputConstraint Json)) (input : Option Json) :
    Bool :=
  match input with
  | none => false
  | some value =>
    constraints.all fun constraint =>
      libs.pointer value constraint.pointer = some constraint.expected

/-- `find_execution_approval`, with whether an execution token was seen and whether one did not
fit. -/
def findExecutionApproval (input : PolicyDecisionInput Json Instant) :
    List (ApprovalToken Json) → (sawExecutionScope hadMismatch : Bool) →
      Except DecisionReasonCode (Option (ApprovalToken Json))
  | [], saw, mismatch =>
    if saw ∧ mismatch then .error .approvalExecutionScopeMismatch else .ok none
  | token :: tokens, saw, mismatch =>
    if ¬ token.isValid input.nowMs ∨ token.zoneId ≠ input.zoneId then
      findExecutionApproval input tokens saw mismatch
    else
      match token.scope with
      | .execution scope =>
        if scope.connectorId ≠ input.connectorId.1 then
          findExecutionApproval input tokens true mismatch
        else if ¬ patternMatches scope.methodPattern input.operationId then
          findExecutionApproval input tokens true mismatch
        else if scope.requestObjectId.any (· ≠ input.requestObjectId) then
          findExecutionApproval input tokens true true
        else if scope.inputHash.any (some · ≠ input.requestInputHash) then
          findExecutionApproval input tokens true true
        else if ¬ scope.inputConstraints.isEmpty ∧
            ¬ inputConstraintsMatch libs scope.inputConstraints input.requestInput then
          findExecutionApproval input tokens true true
        else .ok (some token)
      | _ => findExecutionApproval input tokens saw mismatch

/-- The token approves the execution of this request. -/
def approvesExecution (input : PolicyDecisionInput Json Instant) (token : ApprovalToken Json) :
    Bool :=
  match token.scope with
  | .execution scope =>
    token.isValid input.nowMs ∧ token.zoneId = input.zoneId ∧
      scope.connectorId = input.connectorId.1 ∧
      patternMatches scope.methodPattern input.operationId ∧
      scope.requestObjectId.all (· = input.requestObjectId) ∧
      scope.inputHash.all (some · = input.requestInputHash) ∧
      (scope.inputConstraints.isEmpty ∨
        inputConstraintsMatch libs scope.inputConstraints input.requestInput)
  | _ => false

/-- The search returns the first token that approves the execution, and no token if none does. -/
theorem findExecutionApproval_eq_some (input : PolicyDecisionInput Json Instant)
    (tokens : List (ApprovalToken Json)) (saw mismatch : Bool) (found : ApprovalToken Json) :
    findExecutionApproval libs input tokens saw mismatch = .ok (some found) ↔
      tokens.find? (approvesExecution libs input) = some found := by
  induction tokens generalizing saw mismatch with
  | nil =>
    rw [findExecutionApproval]
    split_ifs <;> simp
  | cons token tokens ih =>
    have hskip (hnot : ¬ approvesExecution libs input token) (saw mismatch) :
        findExecutionApproval libs input tokens saw mismatch = .ok (some found) ↔
          (token :: tokens).find? (approvesExecution libs input) = some found := by
      rw [find?_cons_of_neg hnot, ih]
    rw [findExecutionApproval]
    cases hscope : token.scope with
    | execution scope =>
      have htest : approvesExecution libs input token = true ↔
          ¬ (¬ token.isValid input.nowMs ∨ token.zoneId ≠ input.zoneId) ∧
            ¬ scope.connectorId ≠ input.connectorId.1 ∧
            patternMatches scope.methodPattern input.operationId ∧
            ¬ scope.requestObjectId.any (· ≠ input.requestObjectId) ∧
            ¬ scope.inputHash.any (some · ≠ input.requestInputHash) ∧
            ¬ (¬ scope.inputConstraints.isEmpty ∧
              ¬ inputConstraintsMatch libs scope.inputConstraints input.requestInput) := by
        simp only [approvesExecution, hscope]
        cases scope.requestObjectId <;> cases scope.inputHash <;>
          simp [and_assoc, or_iff_not_imp_left]
      dsimp only
      split_ifs with hoff hconnector hmethod hrequest hhash hinput
      · exact hskip (fun h => (htest.mp h).1 hoff) ..
      · exact hskip (fun h => (htest.mp h).2.1 hconnector) ..
      · exact hskip (fun h => (htest.mp h).2.2.2.1 hrequest) ..
      · exact hskip (fun h => (htest.mp h).2.2.2.2.1 hhash) ..
      · exact hskip (fun h => (htest.mp h).2.2.2.2.2 hinput) ..
      · rw [find?_cons_of_pos (htest.mpr ⟨hoff, hconnector, hmethod, hrequest, hhash, hinput⟩),
          Except.ok.injEq]
      · exact hskip (fun h => hmethod (htest.mp h).2.2.1) ..
    | elevation scope | declassification scope =>
      split_ifs <;> exact hskip (by simp [approvesExecution, hscope]) ..

/-- The execution approval of `evaluate_invoke`, as the evidence it adds. -/
def executionEvidence (input : PolicyDecisionInput Json Instant) (evidence : List ObjectId) :
    Except Refusal (List ObjectId) :=
  if input.executionApprovalRequired then
    match findExecutionApproval libs input input.approvalTokens false false with
    | .ok (some token) => .ok (evidence ++ [approvalTokenObjectId libs token])
    | .ok none => .error ⟨.approvalMissingExecution, evidence⟩
    | .error reasonCode => .error ⟨reasonCode, evidence⟩
  else .ok evidence

variable {input} {evidence : List ObjectId}

/-- The execution approval adds one token to the evidence if one is required. -/
theorem executionEvidence_eq_ok {evidence' : List ObjectId} :
    executionEvidence libs input evidence = .ok evidence' ↔
      (input.executionApprovalRequired = false ∧ evidence' = evidence) ∨
        ∃ token, input.executionApprovalRequired = true ∧
          input.approvalTokens.find? (approvesExecution libs input) = some token ∧
          evidence' = evidence ++ [approvalTokenObjectId libs token] := by
  rw [executionEvidence]
  cases hrequired : input.executionApprovalRequired with
  | false => simp [eq_comm]
  | true =>
    have hsome := findExecutionApproval_eq_some libs input input.approvalTokens false false
    simp only [← hsome]
    rcases findExecutionApproval libs input input.approvalTokens false false with
      reasonCode | _ | token <;> simp [eq_comm]

/-! ### The evaluation -/

/-- The body of `evaluate_invoke`: the evidence, or the first reason to deny. -/
def evaluation (policy : ZonePolicyObject) (input : PolicyDecisionInput Json Instant) :
    Except Refusal (List ObjectId) := do
  refuse (checkPolicy libs policy input) []
  let sanitized ← applySanitizerReceipts libs input.sanitizerReceipts ⟨input.provenance, []⟩
  refuse (checkTaint input.safetyTier sanitized.provenance.taintFlags) sanitized.evidence
  let approved ← applyFlowApprovals libs input sanitized
  let evidence ← executionEvidence libs input approved.evidence
  match approved.provenance.canDriveOperation input.safetyTier with
  | .error violation => .error ⟨.fromProvenanceViolation violation, evidence⟩
  | .ok () => .ok evidence

def evaluateInvoke (policy : ZonePolicyObject) (input : PolicyDecisionInput Json Instant) :
    PolicyDecision :=
  match evaluation libs policy input with
  | .ok evidence => .allow evidence
  | .error refusal => .deny refusal.reasonCode refusal.evidence

/-- `refuse` goes on if there is no reason to deny. -/
theorem refuse_eq_ok {reason : Option DecisionReasonCode} :
    refuse reason evidence = .ok () ↔ reason = none := by
  cases reason <;> simp [refuse]

/-- Every check that an evaluation with this evidence has passed. -/
theorem evaluation_eq_ok {policy : ZonePolicyObject} :
    evaluation libs policy input = .ok evidence ↔
      checkPolicy libs policy input = none ∧
        ∃ sanitized approved,
          applySanitizerReceipts libs input.sanitizerReceipts ⟨input.provenance, []⟩ =
              .ok sanitized ∧
            checkTaint input.safetyTier sanitized.provenance.taintFlags = none ∧
            applyFlowApprovals libs input sanitized = .ok approved ∧
            executionEvidence libs input approved.evidence = .ok evidence ∧
            approved.provenance.canDriveOperation input.safetyTier = .ok () := by
  constructor
  · intro hok
    obtain ⟨_, hpolicy, hok⟩ := bind_eq_ok hok
    obtain ⟨sanitized, hreceipts, hok⟩ := bind_eq_ok hok
    obtain ⟨_, htaint, hok⟩ := bind_eq_ok hok
    obtain ⟨approved, hflow, hok⟩ := bind_eq_ok hok
    obtain ⟨evidence', hexecution, hok⟩ := bind_eq_ok hok
    split at hok
    · cases hok
    rename_i hdrive
    cases hok
    exact ⟨refuse_eq_ok.mp hpolicy, sanitized, approved, hreceipts, refuse_eq_ok.mp htaint, hflow,
      hexecution, hdrive⟩
  · rintro ⟨hpolicy, sanitized, approved, hreceipts, htaint, hflow, hexecution, hdrive⟩
    simp only [evaluation, hpolicy, hreceipts, htaint, hflow, hexecution, hdrive, refuse, bind,
      Except.bind]

theorem evaluateInvoke_decision {policy : ZonePolicyObject}
    : (evaluateInvoke libs policy input).decision = .allow ↔
      evaluation libs policy input = .ok (evaluateInvoke libs policy input).evidence := by
  rw [evaluateInvoke]
  cases evaluation libs policy input <;> simp [PolicyDecision.allow, PolicyDecision.deny]

end Flywheel.Core
