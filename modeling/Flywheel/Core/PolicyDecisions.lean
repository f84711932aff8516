import Flywheel.Core.PolicyEngine

/-!
# What a decision of the policy engine rests on

An allowed request has passed every check, and its evidence lists what was used on the way. The
tokens of a request are scanned in their order, and the first one that elevates fixes the integrity
for the checks after it.
-/

namespace Flywheel.Core

open Flywheel.Data IntegrityLevel List
open Flywheel.Data.Cbor (Value)
open ProvenanceRecord (Unblocked NeedsWork canDriveOperation_eq_ok)

section Decisions

variable {Json Instant : Type} {libs : EngineLibraries Json Instant} {policy : ZonePolicyObject}

/-! ### One stage after the other -/

variable {input : PolicyDecisionInput Json Instant} {working : Working}

/-- The integrity label after the elevation stage: it is kept where it suffices, and else raised by
the first token that elevates. -/
theorem elevateIfNeeded_eq_ok {elevated : Working} :
    elevateIfNeeded libs input working = .ok elevated ↔
    (fromZone input.zoneId ≤ working.provenance.integrityLabel ∧
        elevated = working) ∨
      working.provenance.integrityLabel < fromZone input.zoneId ∧
        ∃ token scope, input.approvalTokens.find? (elevates input) = some token ∧
          token.scope = .elevation scope ∧
          elevated = working.raise input.nowMs (approvalTokenObjectId libs token)
            scope.targetIntegrity := by
  rw [elevateIfNeeded]
  rcases le_or_gt (fromZone input.zoneId) working.provenance.integrityLabel with
    henough | hneeded
  · simp [henough, not_lt.mpr henough, eq_comm]
  · simp [hneeded, not_le.mpr hneeded, applyElevation_eq_ok hneeded]

variable {declassified : Working}

/-- The confidentiality label after the declassification stage: it is kept where it is low enough,
and else lowered by the first token that declassifies. -/
theorem declassifyIfNeeded_eq_ok :
    declassifyIfNeeded libs input working = .ok declassified ↔
    (working.provenance.confidentialityLabel ≤ ConfidentialityLevel.fromZone input.zoneId ∧
        declassified = working) ∨
      ConfidentialityLevel.fromZone input.zoneId < working.provenance.confidentialityLabel ∧
        ∃ token, input.approvalTokens.find? (declassifies input working.provenance) = some token ∧
          declassified = working.lower input.nowMs (approvalTokenObjectId libs token)
            (ConfidentialityLevel.fromZone input.zoneId) := by
  rw [declassifyIfNeeded]
  rcases le_or_gt working.provenance.confidentialityLabel
    (ConfidentialityLevel.fromZone input.zoneId) with hlow | hneeded
  · simp [hlow, eq_comm]
  · simp only [hneeded, not_le.mpr hneeded, false_and, true_and, false_or,
      applyDeclassification]
    cases hfind : input.approvalTokens.find? (declassifies input working.provenance) with
    | none => simp
    | some token =>
      obtain ⟨scope, hscope, -, -, -, -, -, htarget, -⟩ := declassifies_iff.mp (find?_some hfind)
      simp only [hscope, htarget, ProvenanceRecord.applyDeclassification,
        if_neg (not_le.mpr hneeded)]
      constructor
      · rintro ⟨⟩
        exact ⟨token, rfl, rfl⟩
      · rintro ⟨_, ⟨⟩, rfl⟩
        rfl

theorem declassifyIfNeeded_keeps (hok : declassifyIfNeeded libs input working = .ok declassified) :
    declassified.provenance.integrityLabel = working.provenance.integrityLabel ∧
      declassified.provenance.taintFlags = working.provenance.taintFlags := by
  rcases declassifyIfNeeded_eq_ok.mp hok with ⟨-, rfl⟩ | ⟨-, token, -, rfl⟩ <;> exact ⟨rfl, rfl⟩

theorem declassifies_congr {provenance provenance' : ProvenanceRecord}
    (hzone : provenance.currentZone = provenance'.currentZone)
    (hlabel : provenance.confidentialityLabel = provenance'.confidentialityLabel) :
    declassifies input provenance = declassifies input provenance' := by
  funext token
  simp only [declassifies, hzone, hlabel]

/-! ### Tokens that were used -/

/-- How the integrity of a request came from one level to another: it is the same, or one token of
the request elevates to it that is valid now, for this zone, operation and request. -/
def ElevatedBy (input : PolicyDecisionInput Json Instant) (before after : IntegrityLevel) :
    Option (ApprovalToken Json) → Prop
  | none => after = before
  | some token => token ∈ input.approvalTokens ∧ token.isValid input.nowMs ∧
      token.zoneId = input.zoneId ∧
      ∃ scope, token.scope = .elevation scope ∧ scope.operationId = input.operationId.1 ∧
        scope.originalProvenanceId = input.requestObjectId ∧ after = scope.targetIntegrity

/-- How the confidentiality of a request came from one level to another: it is the same, or one
token of the request declassifies to it that is valid now and in this zone, leads from the current
zone to this one, and names every related object, and the request if there are none. -/
def DeclassifiedBy (input : PolicyDecisionInput Json Instant)
    (before after : ConfidentialityLevel) : Option (ApprovalToken Json) → Prop
  | none => after = before
  | some token => token ∈ input.approvalTokens ∧ token.isValid input.nowMs ∧
      token.zoneId = input.zoneId ∧
      ∃ scope, token.scope = .declassification scope ∧
        scope.fromZone = input.provenance.currentZone ∧ scope.toZone = input.zoneId ∧
        input.relatedObjectIds ⊆ scope.objectIds ∧
        (input.relatedObjectIds = [] → input.requestObjectId ∈ scope.objectIds) ∧
        after = scope.targetConfidentiality

/-- The elevation stage raises the integrity by one token or keeps it; the rest of the provenance
that later checks read is kept. -/
theorem exists_elevatedBy {elevated : Working}
    (hok : elevateIfNeeded libs input working = .ok elevated) :
    ∃ elevation : Option (ApprovalToken Json),
      ElevatedBy input working.provenance.integrityLabel elevated.provenance.integrityLabel
          elevation ∧
        fromZone input.zoneId ≤ elevated.provenance.integrityLabel ∧
        elevated.provenance.confidentialityLabel = working.provenance.confidentialityLabel ∧
        elevated.provenance.currentZone = working.provenance.currentZone ∧
        elevated.provenance.taintFlags = working.provenance.taintFlags ∧
        elevated.evidence =
          working.evidence ++ elevation.toList.map (approvalTokenObjectId libs) := by
  rcases elevateIfNeeded_eq_ok.mp hok with
    ⟨henough, rfl⟩ | ⟨-, token, scope, hfind, hscope, rfl⟩
  · exact ⟨none, rfl, henough, rfl, rfl, rfl, (append_nil _).symm⟩
  · obtain ⟨scope', hscope', hvalid, hzone, hoperation, htarget, hrequest⟩ :=
      elevates_iff.mp (find?_some hfind)
    cases hscope.symm.trans hscope'
    exact ⟨some token, ⟨mem_of_find?_eq_some hfind, hvalid, hzone, scope, hscope, hoperation,
      hrequest, rfl⟩, htarget, rfl, rfl, rfl, rfl⟩

/-- The declassification stage lowers the confidentiality by one token or keeps it; the rest of the
provenance that later checks read is kept. -/
theorem exists_declassifiedBy
    (hzone : working.provenance.currentZone = input.provenance.currentZone)
    (hok : declassifyIfNeeded libs input working = .ok declassified) :
    ∃ declassification : Option (ApprovalToken Json),
      DeclassifiedBy input working.provenance.confidentialityLabel
          declassified.provenance.confidentialityLabel declassification ∧
        declassified.provenance.confidentialityLabel ≤
          ConfidentialityLevel.fromZone input.zoneId ∧
        declassified.provenance.integrityLabel = working.provenance.integrityLabel ∧
        declassified.provenance.taintFlags = working.provenance.taintFlags ∧
        declassified.evidence =
          working.evidence ++ declassification.toList.map (approvalTokenObjectId libs) := by
  rcases declassifyIfNeeded_eq_ok.mp hok with
    ⟨hlow, rfl⟩ | ⟨-, token, hfind, rfl⟩
  · exact ⟨none, rfl, hlow, rfl, rfl, (append_nil _).symm⟩
  · obtain ⟨scope, hscope, hvalid, htoken, hfrom, hto, -, htarget, hrequest, hrelated⟩ :=
      declassifies_iff.mp (find?_some hfind)
    exact ⟨some token, ⟨mem_of_find?_eq_some hfind, hvalid, htoken, scope, hscope,
      hfrom.trans hzone, hto, hrelated, hrequest, htarget.symm⟩, le_rfl, rfl, rfl, rfl⟩

/-! ### Tokens that are there -/

/-- The integrity that the operation is run with: it is kept where it suffices for the zone, and
else that of the first token that elevates. -/
def FinalIntegrity (input : PolicyDecisionInput Json Instant) (sanitized : Working)
    (level : IntegrityLevel) : Prop :=
  (fromZone input.zoneId ≤ sanitized.provenance.integrityLabel ∧
      level = sanitized.provenance.integrityLabel) ∨
    sanitized.provenance.integrityLabel < fromZone input.zoneId ∧
      ∃ token scope, input.approvalTokens.find? (elevates input) = some token ∧
        token.scope = .elevation scope ∧ level = scope.targetIntegrity

variable {sanitized : Working}

section

variable (libs)

/-- The elevation stage ends with the final integrity. -/
theorem exists_elevated_iff {level : IntegrityLevel} :
    (∃ elevated, elevateIfNeeded libs input sanitized = .ok elevated ∧
        elevated.provenance.integrityLabel = level) ↔ FinalIntegrity input sanitized level := by
  simp only [elevateIfNeeded_eq_ok]
  constructor
  · rintro ⟨elevated, ⟨henough, rfl⟩ | ⟨hneeded, token, scope, hfind, hscope, rfl⟩, rfl⟩
    · exact .inl ⟨henough, rfl⟩
    · exact .inr ⟨hneeded, token, scope, hfind, hscope, rfl⟩
  · rintro (⟨henough, rfl⟩ | ⟨hneeded, token, scope, hfind, hscope, rfl⟩)
    · exact ⟨_, .inl ⟨henough, rfl⟩, rfl⟩
    · exact ⟨_, .inr ⟨hneeded, token, scope, hfind, hscope, rfl⟩, rfl⟩

/-- The declassification stage succeeds if a token declassifies where that is needed. -/
theorem exists_declassified_iff :
    (∃ declassified, declassifyIfNeeded libs input working = .ok declassified) ↔
      (ConfidentialityLevel.fromZone input.zoneId < working.provenance.confidentialityLabel →
        ∃ token ∈ input.approvalTokens, declassifies input working.provenance token = true) := by
  simp only [← find?_isSome, Option.isSome_iff_exists, declassifyIfNeeded_eq_ok]
  rcases le_or_gt working.provenance.confidentialityLabel
    (ConfidentialityLevel.fromZone input.zoneId) with hlow | hneeded
  · simp [hlow]
  · simp [hneeded, not_le.mpr hneeded]

end

variable {tokens : List (ApprovalToken Json)}
variable (libs policy input sanitized) in
/-- What is checked before the tokens are looked at, with the provenance after receipts. -/
structure PassesReceipts : Prop where
  policy : checkPolicy libs policy input = none
  receipts : applySanitizerReceipts libs input.sanitizerReceipts ⟨input.provenance, []⟩ =
    .ok sanitized
  /-- No flag that is left keeps the operation from being run. -/
  taint : checkTaint input.safetyTier sanitized.provenance.taintFlags = none

def PolicyDecisionInput.withTokens (input : PolicyDecisionInput Json Instant)
    (tokens : List (ApprovalToken Json)) : PolicyDecisionInput Json Instant :=
  { input with approvalTokens := tokens }

theorem PassesReceipts.withTokens
    (h : PassesReceipts libs policy input sanitized) (tokens : List (ApprovalToken Json)) :
    PassesReceipts libs policy (input.withTokens tokens) sanitized :=
  ⟨h.policy, h.receipts, h.taint⟩

/-! ### An allowed request is justified -/

variable [DecidableEq Json]

/-- The token of the request that approves the execution, if one is required. -/
def ExecutedBy (libs : EngineLibraries Json Instant) (input : PolicyDecisionInput Json Instant) :
    Option (ApprovalToken Json) → Prop
  | none => input.executionApprovalRequired = false
  | some token => input.executionApprovalRequired = true ∧ token ∈ input.approvalTokens ∧
      approvesExecution libs input token = true

theorem exists_executedBy {evidence evidence' : List ObjectId}
    (hok : executionEvidence libs input evidence = .ok evidence') :
    ∃ execution : Option (ApprovalToken Json), ExecutedBy libs input execution ∧
      evidence' = evidence ++ execution.toList.map (approvalTokenObjectId libs) := by
  rcases (executionEvidence_eq_ok libs).mp hok with
    ⟨hnot, hevidence⟩ | ⟨token, hrequired, hfind, hevidence⟩
  · exact ⟨none, hnot, hevidence.trans (append_nil _).symm⟩
  · exact ⟨some token, ⟨hrequired, mem_of_find?_eq_some hfind, find?_some hfind⟩,
      hevidence⟩

/-- The execution stage succeeds if a token approves the execution where that is required. -/
theorem exists_executionEvidence_iff (evidence : List ObjectId) :
    (∃ evidence', executionEvidence libs input evidence = .ok evidence') ↔
      (input.executionApprovalRequired = true →
        ∃ token ∈ input.approvalTokens, approvesExecution libs input token = true) := by
  simp only [← find?_isSome, Option.isSome_iff_exists, executionEvidence_eq_ok]
  cases input.executionApprovalRequired <;> simp

/-- What an allowed request rests on, with the provenance after receipts and after tokens, and the
tokens that were used. -/
structure Justified (libs : EngineLibraries Json Instant) (input : PolicyDecisionInput Json Instant)
    (sanitized approved : Working) (evidence : List ObjectId)
    (elevation declassification execution : Option (ApprovalToken Json)) : Prop where
  receipts : applySanitizerReceipts libs input.sanitizerReceipts ⟨input.provenance, []⟩ =
    .ok sanitized
  approvals : applyFlowApprovals libs input sanitized = .ok approved
  /-- The resulting provenance may flow to the zone of the request. -/
  flow : approved.provenance.canFlowTo input.zoneId = .allowed
  drive : approved.provenance.canDriveOperation input.safetyTier = .ok ()
  integrity : ElevatedBy input input.provenance.integrityLabel approved.provenance.integrityLabel
    elevation
  confidentiality : DeclassifiedBy input input.provenance.confidentialityLabel
    approved.provenance.confidentialityLabel declassification
  /-- Every cleared flag is authorized by a receipt that covers all input sources. -/
  cleared : ∀ flag ∈ input.provenance.taintFlags, flag ∉ approved.provenance.taintFlags →
    ∃ receipt ∈ input.sanitizerReceipts, flag ∈ receipt.authorizedFlags ∧
      input.provenance.inputSources ⊆ receipt.coveredInputs
  executed : ExecutedBy libs input execution
  /-- The evidence is the receipts and the tokens that were used, in this order. -/
  evidence_eq : evidence = input.sanitizerReceipts.map (sanitizerReceiptObjectId libs) ++
    elevation.toList.map (approvalTokenObjectId libs) ++
    declassification.toList.map (approvalTokenObjectId libs) ++
    execution.toList.map (approvalTokenObjectId libs)

/-- A request that is allowed is justified by its evidence. -/
theorem justified_of_allow (policy : ZonePolicyObject) (input : PolicyDecisionInput Json Instant)
    (hallow : (evaluateInvoke libs policy input).decision = .allow) :
    ∃ sanitized approved elevation declassification execution,
      Justified libs input sanitized approved (evaluateInvoke libs policy input).evidence
        elevation declassification execution := by
  obtain ⟨-, sanitized, approved, hreceipts, -, hflow, hexecution, hdrive⟩ :=
    (evaluation_eq_ok libs).mp ((evaluateInvoke_decision libs).mp hallow)
  have hsanitized := sanitizes_of_ok hreceipts
  rw [applyFlowApprovals_eq] at hflow
  obtain ⟨elevated, helevate, hdeclassify⟩ := bind_eq_ok hflow
  obtain ⟨elevation, hintegrity, hhigh, hkept, hzone, hflags, hevidence₁⟩ :=
    exists_elevatedBy helevate
  obtain ⟨declassification, hconfidentiality, hlow, hkept', hflags', hevidence₂⟩ :=
    exists_declassifiedBy (hzone.trans hsanitized.currentZone) hdeclassify
  obtain ⟨execution, hexecuted, hevidence₃⟩ := exists_executedBy hexecution
  refine ⟨sanitized, approved, elevation, declassification, execution, hreceipts, ?_, ?_, hdrive,
    ?_, ?_, ?_, hexecuted, ?_⟩
  · rw [applyFlowApprovals_eq, helevate]
    exact hdeclassify
  · exact ProvenanceRecord.canFlowTo_eq_allowed.mpr ⟨hkept' ▸ hhigh, hlow⟩
  · rw [hkept', ← hsanitized.integrity]
    exact hintegrity
  · rw [hkept, hsanitized.confidentiality] at hconfidentiality
    exact hconfidentiality
  · intro flag hflag hgone
    rw [hflags', hflags, hsanitized.taintFlags, Finset.mem_sdiff, not_and, not_not] at hgone
    obtain ⟨receipt, hmem, hclear⟩ := mem_flatMap.mp (mem_toFinset.mp (hgone hflag))
    have hvalid := all_eq_true.mp (hsanitized.valid receipt hmem) flag hclear
    exact ⟨receipt, hmem, of_decide_eq_true hvalid, hsanitized.covers receipt hmem⟩
  · rw [hevidence₃, hevidence₂, hevidence₁, hsanitized.evidence, nil_append]

/-! ### The order of the tokens -/

/-- The request has the declassification and the execution token it needs. -/
structure OtherTokens (libs : EngineLibraries Json Instant)
    (input : PolicyDecisionInput Json Instant) (sanitized : Working) : Prop where
  declassified : ConfidentialityLevel.fromZone input.zoneId <
      sanitized.provenance.confidentialityLabel →
    ∃ token ∈ input.approvalTokens, declassifies input sanitized.provenance token = true
  executed : input.executionApprovalRequired = true →
    ∃ token ∈ input.approvalTokens, approvesExecution libs input token = true

theorem OtherTokens.withTokens (h : OtherTokens libs input sanitized)
    (hsubset : input.approvalTokens ⊆ tokens) :
    OtherTokens libs (input.withTokens tokens) sanitized := by
  refine ⟨fun hneeded => ?_, fun hrequired => ?_⟩
  · obtain ⟨token, hmem, hdeclassifies⟩ := h.declassified hneeded
    exact ⟨token, hsubset hmem, hdeclassifies⟩
  · obtain ⟨token, hmem, hexecutes⟩ := h.executed hrequired
    exact ⟨token, hsubset hmem, hexecutes⟩

/-- When a request is allowed, in terms of the tokens it has. -/
theorem evaluateInvoke_eq_allow_iff : (evaluateInvoke libs policy input).decision = .allow ↔
      ∃ sanitized level, PassesReceipts libs policy input sanitized ∧
        OtherTokens libs input sanitized ∧ FinalIntegrity input sanitized level ∧
        Unblocked input.safetyTier sanitized.provenance.taintFlags ∧
        (NeedsWork input.safetyTier sanitized.provenance.taintFlags → .work ≤ level) := by
  constructor
  · intro hallow
    obtain ⟨hpolicy, sanitized, approved, hreceipts, htaint, hflow, hexecution, hdrive⟩ :=
      (evaluation_eq_ok libs).mp ((evaluateInvoke_decision libs).mp hallow)
    rw [applyFlowApprovals_eq] at hflow
    obtain ⟨elevated, helevate, hdeclassify⟩ := bind_eq_ok hflow
    obtain ⟨elevation, -, -, hlabel, hzone, hflags, -⟩ := exists_elevatedBy helevate
    have htokens := (exists_declassified_iff libs).mp ⟨approved, hdeclassify⟩
    rw [hlabel, declassifies_congr hzone hlabel] at htokens
    obtain ⟨hintegrity, hflags'⟩ := declassifyIfNeeded_keeps hdeclassify
    rw [canDriveOperation_eq_ok, hintegrity, hflags', hflags] at hdrive
    exact ⟨sanitized, elevated.provenance.integrityLabel, ⟨hpolicy, hreceipts, htaint⟩,
      ⟨htokens, (exists_executionEvidence_iff _).mp ⟨_, hexecution⟩⟩,
      (exists_elevated_iff libs).mp ⟨elevated, helevate, rfl⟩, hdrive⟩
  · rintro ⟨sanitized, level, ⟨hpolicy, hreceipts, htaint⟩, ⟨hdeclassified, hexecuted⟩, hlevel,
      hdrive⟩
    obtain ⟨elevated, helevate, rfl⟩ := (exists_elevated_iff libs).mpr hlevel
    obtain ⟨elevation, -, -, hlabel, hzone, hflags, -⟩ := exists_elevatedBy helevate
    rw [← hlabel, ← declassifies_congr hzone hlabel] at hdeclassified
    obtain ⟨approved, hdeclassify⟩ := (exists_declassified_iff libs).mpr hdeclassified
    obtain ⟨evidence, hexecution⟩ :=
      (exists_executionEvidence_iff approved.evidence).mpr hexecuted
    obtain ⟨hintegrity, hflags'⟩ := declassifyIfNeeded_keeps hdeclassify
    rw [← hflags, ← hflags', ← hintegrity, ← canDriveOperation_eq_ok] at hdrive
    have hflow : applyFlowApprovals libs input sanitized = .ok approved := by
      rw [applyFlowApprovals_eq, helevate]
      exact hdeclassify
    rw [evaluateInvoke, (evaluation_eq_ok libs).mpr ⟨hpolicy, sanitized, approved, hreceipts, htaint,
      hflow, hexecution, hdrive⟩]
    rfl

/-- The tokens of the request count as a set: their order does not matter, and more tokens do not
hurt. -/
structure TokensFormSet (libs : EngineLibraries Json Instant) (policy : ZonePolicyObject)
    (input : PolicyDecisionInput Json Instant) : Prop where
  perm : ∀ tokens : List (ApprovalToken Json), tokens.Perm input.approvalTokens →
    (evaluateInvoke libs policy (input.withTokens tokens)).decision =
      (evaluateInvoke libs policy input).decision
  added : ∀ tokens : List (ApprovalToken Json), input.approvalTokens.Sublist tokens →
    (evaluateInvoke libs policy input).decision = .allow →
      (evaluateInvoke libs policy (input.withTokens tokens)).decision = .allow

/-- The community zone asks for less integrity than the operation, so that it depends on the first
token that elevates whether the request is allowed. -/
structure OrderMatters (libs : EngineLibraries Json Instant) (policy : ZonePolicyObject)
    (input : PolicyDecisionInput Json Instant) (sanitized : Working) : Prop where
  passes : PassesReceipts libs policy input sanitized
  others : OtherTokens libs input sanitized
  zone : input.zoneId.1 = "z:community"
  untrusted : input.provenance.integrityLabel = .untrusted
  unblocked : Unblocked input.safetyTier sanitized.provenance.taintFlags
  needsWork : NeedsWork input.safetyTier sanitized.provenance.taintFlags
  elevation : ∃ token ∈ input.approvalTokens, ∃ scope, elevates input token = true ∧
    token.scope = .elevation scope ∧ .work ≤ scope.targetIntegrity

theorem OrderMatters.withTokens
    (h : OrderMatters libs policy input sanitized) (hsubset : input.approvalTokens ⊆ tokens) :
    OrderMatters libs policy (input.withTokens tokens) sanitized := by
  obtain ⟨token, hmem, scope, helevation⟩ := h.elevation
  exact ⟨h.passes.withTokens tokens, h.others.withTokens hsubset, h.zone, h.untrusted,
    h.unblocked, h.needsWork, token, hsubset hmem, scope, helevation⟩

/-- The first token decides where the order matters: the request is allowed if it gives the
integrity of a work zone, and only then. -/
theorem OrderMatters.allow_iff
    (h : OrderMatters libs policy input sanitized) {first : ApprovalToken Json}
    {scope : ElevationScope} (hsubset : input.approvalTokens ⊆ first :: tokens)
    (hfirst : elevates input first = true) (hscope : first.scope = .elevation scope) :
    (evaluateInvoke libs policy (input.withTokens (first :: tokens))).decision = .allow ↔
      .work ≤ scope.targetIntegrity := by
  have hfind : (first :: tokens).find? (elevates (input.withTokens (first :: tokens))) =
      some first := find?_cons_of_pos hfirst
  have hlow := (sanitizes_of_ok h.passes.receipts).integrity.trans h.untrusted
  have hneeded : sanitized.provenance.integrityLabel < fromZone input.zoneId := by
    rw [hlow, fromZone_eq_community.mpr h.zone]
    decide
  constructor
  · intro hallow
    obtain ⟨sanitized', level, hpasses, -, hlevel, -, hwork⟩ :=
      evaluateInvoke_eq_allow_iff.mp hallow
    cases h.passes.receipts.symm.trans hpasses.receipts
    rcases hlevel with ⟨henough, -⟩ | ⟨-, token, scope', hfind', hscope', rfl⟩
    · exact absurd hneeded (not_lt.mpr henough)
    · cases hfind.symm.trans hfind'
      cases hscope.symm.trans hscope'
      exact hwork h.needsWork
  · intro hwork
    exact evaluateInvoke_eq_allow_iff.mpr ⟨sanitized, scope.targetIntegrity,
      h.passes.withTokens _, h.others.withTokens hsubset,
      .inr ⟨hneeded, first, scope, hfind, hscope, rfl⟩, h.unblocked, fun _ => hwork⟩

/-- Where the order does not matter, more tokens keep an allowed request allowed, in whatever
order. -/
theorem allow_of_subset (hnot : ¬ ∃ sanitized, OrderMatters libs policy input sanitized)
    (hsubset : input.approvalTokens ⊆ tokens)
    (hallow : (evaluateInvoke libs policy input).decision = .allow) :
    (evaluateInvoke libs policy (input.withTokens tokens)).decision = .allow := by
  obtain ⟨sanitized, level, hpasses, hothers, hlevel, hunblocked, hwork⟩ :=
    evaluateInvoke_eq_allow_iff.mp hallow
  rcases hlevel with ⟨henough, rfl⟩ | ⟨hneeded, token, scope, hfind, hscope, rfl⟩
  · exact evaluateInvoke_eq_allow_iff.mpr ⟨sanitized, _, hpasses.withTokens tokens,
      hothers.withTokens hsubset, .inl ⟨henough, rfl⟩, hunblocked, hwork⟩
  have hmem := mem_of_find?_eq_some hfind
  have helevates := find?_some hfind
  obtain ⟨first, hfirst⟩ := Option.isSome_iff_exists.mp
    (find?_isSome.mpr ⟨token, hsubset hmem, helevates⟩)
  obtain ⟨scope', hscope', -, -, -, htarget, -⟩ := elevates_iff.mp (find?_some hfirst)
  refine evaluateInvoke_eq_allow_iff.mpr ⟨sanitized, scope'.targetIntegrity,
    hpasses.withTokens tokens, hothers.withTokens hsubset,
    .inr ⟨hneeded, first, scope', hfirst, hscope', rfl⟩, hunblocked, fun hneedsWork => ?_⟩
  -- A first token with less integrity than the operation takes is one for the community zone.
  by_contra hlow
  obtain ⟨huntrusted, hcommunity⟩ := eq_untrusted_of_lt_of_lt_work hneeded
    (htarget.trans_lt (not_le.mp hlow))
  refine hnot ⟨sanitized, hpasses, hothers, fromZone_eq_community.mp hcommunity, ?_,
    hunblocked, hneedsWork, token, hmem, scope, helevates, hscope, hwork hneedsWork⟩
  exact (sanitizes_of_ok hpasses.receipts).integrity.symm.trans huntrusted

theorem Decision.eq_of_allow_iff {a b : Decision} (h : a = .allow ↔ b = .allow) : a = b := by
  cases a <;> cases b <;> simp_all

/-- A token that elevates to the community's integrity only. -/
def ApprovalToken.forCommunity (token : ApprovalToken Json) (scope : ElevationScope) :
    ApprovalToken Json :=
  { token with scope := .elevation { scope with targetIntegrity := .community } }

/-- The tokens of a request count as a set, except where the order matters. -/
theorem tokensFormSet_iff (libs : EngineLibraries Json Instant) (policy : ZonePolicyObject)
    (input : PolicyDecisionInput Json Instant) :
    TokensFormSet libs policy input ↔ ¬ ∃ sanitized, OrderMatters libs policy input sanitized := by
  constructor
  · rintro hset ⟨sanitized, hmatters⟩
    obtain ⟨token, hmem, scope, helevates, hscope, hwork⟩ := hmatters.elevation
    by_cases hallow : (evaluateInvoke libs policy input).decision = .allow
    · -- A token for the community zone in front is found first.
      have hweak : elevates input (token.forCommunity scope) = true := by
        obtain ⟨scope', hscope', hvalid, hzone, hoperation, -, hrequest⟩ :=
          elevates_iff.mp helevates
        cases hscope.symm.trans hscope'
        exact elevates_iff.mpr ⟨_, rfl, hvalid, hzone, hoperation,
          (fromZone_eq_community.mpr hmatters.zone).le, hrequest⟩
      have hmore := hset.added (token.forCommunity scope :: input.approvalTokens)
        (sublist_cons_self _ _) hallow
      have hwork : work ≤ .community :=
        (hmatters.allow_iff (subset_cons_self _ _) hweak rfl).mp hmore
      exact absurd hwork (by decide)
    · -- The token that gives enough is moved to the front.
      obtain ⟨before, after, htokens⟩ := append_of_mem hmem
      have hperm : (token :: (before ++ after)).Perm input.approvalTokens := by
        rw [htokens]
        exact perm_middle.symm
      have hmoved := (hmatters.allow_iff hperm.symm.subset helevates hscope).mpr hwork
      exact hallow ((hset.perm _ hperm).symm.trans hmoved)
  · intro hnot
    refine ⟨fun tokens hperm => Decision.eq_of_allow_iff ⟨fun hallow => ?_, fun hallow => ?_⟩,
      fun tokens hsublist hallow => allow_of_subset hnot hsublist.subset hallow⟩
    · have hnot' : ¬ ∃ sanitized, OrderMatters libs policy (input.withTokens tokens) sanitized :=
        fun ⟨sanitized, hmatters⟩ => hnot ⟨sanitized, hmatters.withTokens hperm.subset⟩
      have hback := allow_of_subset hnot' hperm.subset hallow
      exact hback
    · exact allow_of_subset hnot hperm.symm.subset hallow

end Decisions

/-! ### Concrete requests -/

/-- What serde derives for a level of integrity. -/
def integrityValue : IntegrityLevel → Value
  | .untrusted => .text "Untrusted"
  | .community => .text "Community"
  | .work => .text "Work"
  | .private_ => .text "Private"
  | .owner => .text "Owner"

/-- What serde derives for a level of confidentiality. -/
def confidentialityValue : ConfidentialityLevel → Value
  | .public_ => .text "Public"
  | .community => .text "Community"
  | .work => .text "Work"
  | .private_ => .text "Private"
  | .owner => .text "Owner"

/-- What serde derives for a flag. -/
def taintFlagValue : TaintFlag → Value
  | .publicInput => .text "PUBLIC_INPUT"
  | .unverifiedLink => .text "UNVERIFIED_LINK"
  | .untrustedTransform => .text "UNTRUSTED_TRANSFORM"
  | .webhookInjected => .text "WEBHOOK_INJECTED"
  | .userGenerated => .text "USER_GENERATED"
  | .potentiallyMalicious => .text "POTENTIALLY_MALICIOUS"
  | .aiGenerated => .text "AI_GENERATED"
  | .crossZoneUnapproved => .text "CROSS_ZONE_UNAPPROVED"

/-- What serde derives for a vector of bytes. -/
def byteArrayValue (bytes : List UInt8) : Value := .array (bytes.map fun b => wordValue b.toUInt64)

/-- A field that is only written if there is a value. -/
def optionalField {α : Type} (name : String) (value : α → Value) (field : Option α) :
    List (Value × Value) :=
  (field.map fun a => (.text name, value a)).toList

/-- What serde derives for a constraint on the input. -/
def inputConstraintValue {Json : Type} (jsonValue : Json → Value)
    (constraint : InputConstraint Json) : Value :=
  .map [(.text "pointer", .text constraint.pointer),
    (.text "expected", jsonValue constraint.expected)]

/-- What serde derives for a scope, with its kind as the first field. -/
def approvalScopeValue {Json : Type} (jsonValue : Json → Value) : ApprovalScope Json → Value
  | .elevation scope =>
    .map [(.text "type", .text "elevation"), (.text "operation_id", .text scope.operationId),
      (.text "original_provenance_id", objectIdValue scope.originalProvenanceId),
      (.text "target_integrity", integrityValue scope.targetIntegrity)]
  | .declassification scope =>
    .map [(.text "type", .text "declassification"), (.text "from_zone", .text scope.fromZone),
      (.text "to_zone", .text scope.toZone),
      (.text "object_ids", .array (scope.objectIds.map objectIdValue)),
      (.text "target_confidentiality", confidentialityValue scope.targetConfidentiality)]
  | .execution scope =>
    .map ([(.text "type", .text "execution"), (.text "connector_id", .text scope.connectorId),
      (.text "method_pattern", .text scope.methodPattern)] ++
      optionalField "request_object_id" objectIdValue scope.requestObjectId ++
      optionalField "input_hash" (fun hash => byteArrayValue hash.toList) scope.inputHash ++
      if scope.inputConstraints.isEmpty then []
      else [(.text "input_constraints",
        .array (scope.inputConstraints.map (inputConstraintValue jsonValue)))])

/-- What serde derives for a token. -/
def approvalTokenValue {Json : Type} (jsonValue : Json → Value) (token : ApprovalToken Json) :
    Value :=
  .map ([(.text "token_id", .text token.tokenId), (.text "issued_at_ms", wordValue token.issuedAtMs),
    (.text "expires_at_ms", wordValue token.expiresAtMs), (.text "issuer", .text token.issuer),
    (.text "scope", approvalScopeValue jsonValue token.scope),
    (.text "zone_id", .text token.zoneId)] ++
    optionalField "signature" byteArrayValue token.signature)

/-- What serde derives for a receipt. -/
def sanitizerReceiptValue (receipt : SanitizerReceipt) : Value :=
  .map ([(.text "receipt_id", .text receipt.receiptId),
    (.text "timestamp_ms", wordValue receipt.timestampMs),
    (.text "sanitizer_id", .text receipt.sanitizerId),
    (.text "sanitizer_zone", .text receipt.sanitizerZone),
    (.text "authorized_flags", .array (receipt.authorizedFlags.map taintFlagValue)),
    (.text "covered_inputs", .array (receipt.coveredInputs.map objectIdValue)),
    (.text "cleared_flags", .array (receipt.clearedFlags.map taintFlagValue))] ++
    optionalField "signature" byteArrayValue receipt.signature)

def millisecondChrono : Chrono ℤ where
  timestampMillis ms := ms
  fromTimestampMillis ms := some ms
  numSecondsSince later earlier := (later - earlier).tdiv 1000
  now := 0

/-- The digest of the receipt below. -/
def receiptDigest : Bytes 32 :=
  ⟨[24,88,77,145,116,167,135,192,205,97,91,60,84,142,91,41,114,238,47,247,233,
    82,137,2,246,150,224,8,108,56,88,99], rfl⟩

/-- The digest of the elevation token below. -/
def elevationDigest : Bytes 32 :=
  ⟨[194,152,182,125,196,93,37,164,92,144,78,231,170,23,20,228,187,15,251,98,219,
    107,231,185,197,95,107,227,251,3,226,68], rfl⟩

/-- The digest of the declassification token below. -/
def declassificationDigest : Bytes 32 :=
  ⟨[161,63,12,236,180,45,60,221,198,213,189,191,231,189,252,247,98,179,225,61,40,
    55,192,142,236,78,90,27,4,188,33,188], rfl⟩

/-- The digest of the execution token below. -/
def executionDigest : Bytes 32 :=
  ⟨[152,119,51,211,81,155,112,30,52,236,237,214,247,12,123,84,108,102,234,176,
    138,125,230,35,92,38,191,82,92,54,140,83], rfl⟩

/-- The digest of the token for the community's integrity below. -/
def communityDigest : Bytes 32 :=
  ⟨[151,11,238,217,26,199,178,40,113,187,116,93,244,7,76,9,24,91,59,62,182,45,
    22,169,162,40,249,84,112,194,142,120], rfl⟩

/-- The digest of the token for the owner's integrity below. -/
def ownerDigest : Bytes 32 :=
  ⟨[112,11,73,234,186,156,90,73,104,145,89,117,242,249,18,157,53,150,72,99,202,
    69,44,222,250,199,55,52,77,34,97,168], rfl⟩

/-- BLAKE3 on the encodings of the receipt and the tokens below, which all differ in length. -/
def blake3OfEvidence (input : List UInt8) : Bytes 32 :=
  match input.length with
  | 218 => receiptDigest
  | 225 => elevationDigest
  | 248 => declassificationDigest
  | 163 => executionDigest
  | 235 => communityDigest
  | _ => ownerDigest

/-- The libraries for requests without JSON. -/
def evidenceLibraries : EngineLibraries Empty ℤ where
  chrono := millisecondChrono
  pointer json := json.elim
  blake3 := blake3OfEvidence
  codec := cborCodec
  tokenSerde := ⟨fun token => some (approvalTokenValue Empty.elim token), fun _ _ => .error .malformed⟩
  receiptSerde := ⟨fun receipt => some (sanitizerReceiptValue receipt), fun _ _ => .error .malformed⟩
  scopeJson _ := none
  flagsJson _ := none
  idsJson _ := none

/-- A policy for a zone without restrictions. -/
def openPolicy (zone : CanonicalZoneId) : ZonePolicyObject where
  zoneId := zone
  principalAllow := []
  principalDeny := []
  connectorAllow := []
  connectorDeny := []
  capabilityAllow := []
  capabilityDeny := []
  capabilityCeiling := []
  transportPolicy := ⟨true, false, false⟩
  decisionReceipts := ⟨false, true⟩
  usageBudget := none
  requiresPosture := none

/-- `ZoneId::private`. -/
def CanonicalZoneId.private_ : CanonicalZoneId := ⟨"z:private", by decide +kernel⟩

def CanonicalZoneId.community : CanonicalZoneId := ⟨"z:community", by decide +kernel⟩

/-- `ZoneId::public`. -/
def CanonicalZoneId.public_ : CanonicalZoneId := ⟨"z:public", by decide +kernel⟩

def sendRequestId : ObjectId := ⟨replicate 32 7, rfl⟩

def linkedInputId : ObjectId := ⟨replicate 32 8, rfl⟩

/-- A token of the owner with a scope. -/
def ownerToken (tokenId : String) (zone : CanonicalZoneId) (scope : ApprovalScope Empty) :
    ApprovalToken Empty where
  tokenId := tokenId
  issuedAtMs := 1000
  expiresAtMs := 2000
  issuer := "node:owner"
  scope := scope
  zoneId := zone
  signature := none

/-- A dangerous operation in a zone, with input of this provenance. -/
def sendRequest (zone : CanonicalZoneId) (provenance : ProvenanceRecord)
    (tokens : List (ApprovalToken Empty)) (receipts : List SanitizerReceipt)
    (executionApprovalRequired : Bool) : PolicyDecisionInput Empty ℤ where
  requestObjectId := sendRequestId
  zoneId := zone
  principal := ⟨"user:alice", by decide +kernel⟩
  connectorId := ⟨"mail", by decide +kernel⟩
  operationId := ⟨"op.send", by decide +kernel⟩
  capabilityId := ⟨"mail.send", by decide +kernel⟩
  safetyTier := .dangerous
  provenance := provenance
  approvalTokens := tokens
  sanitizerReceipts := receipts
  requestInput := none
  requestInputHash := none
  relatedObjectIds := []
  transport := .lan
  checkpointFresh := true
  revocationFresh := true
  executionApprovalRequired := executionApprovalRequired
  nowMs := 1500
  postureAttestation := none

/-- Private input that was merged with public input and holds an unverified link. -/
def mixedProvenance : ProvenanceRecord :=
  { ProvenanceRecord.new .private_ with
    integrityLabel := .untrusted
    taintFlags := {.unverifiedLink}
    inputSources := [linkedInputId] }

def linkReceipt : SanitizerReceipt where
  receiptId := "receipt-1"
  timestampMs := 1200
  sanitizerId := "url-scanner"
  sanitizerZone := .private_
  authorizedFlags := [.unverifiedLink]
  coveredInputs := [linkedInputId]
  clearedFlags := [.unverifiedLink]
  signature := none

/-- A request that uses a receipt and a token of each kind. -/
def approvedRequest : PolicyDecisionInput Empty ℤ :=
  sendRequest .work mixedProvenance
    [ownerToken "execution-1" .work (.execution ⟨"mail", "op.*", none, none, []⟩),
      ownerToken "declassification-1" .work
        (.declassification ⟨.private_, .work, [sendRequestId], .work⟩),
      ownerToken "elevation-1" .work (.elevation ⟨"op.send", sendRequestId, .work⟩)]
    [linkReceipt] true

/-- The request is allowed, and its evidence is the receipt and the tokens in the order of their
use. -/
theorem approvedRequest_justified :
    evaluateInvoke evidenceLibraries (openPolicy .work) approvedRequest =
        .allow [receiptDigest, elevationDigest, declassificationDigest, executionDigest] ∧
      ∃ sanitized approved elevation declassification execution,
        Justified evidenceLibraries approvedRequest sanitized approved
          (evaluateInvoke evidenceLibraries (openPolicy .work) approvedRequest).evidence
          elevation declassification execution := by
  exact ⟨by decide +kernel, justified_of_allow (openPolicy .work) approvedRequest (by decide +kernel)⟩

/-- A token that elevates to the community's integrity. -/
def communityElevation : ApprovalToken Empty :=
  ownerToken "community-1" .community (.elevation ⟨"op.send", sendRequestId, .community⟩)

/-- A token that elevates to the owner's integrity. -/
def ownerElevation : ApprovalToken Empty :=
  ownerToken "owner-1" .community (.elevation ⟨"op.send", sendRequestId, .owner⟩)

/-- Public input for a dangerous operation in the community zone. -/
def communityRequest (tokens : List (ApprovalToken Empty)) : PolicyDecisionInput Empty ℤ :=
  sendRequest .community (.new .public_) tokens [] false

/-- The request is allowed with the stronger token, alone or in front, and denied with the weaker
one in front. -/
theorem weaker_elevation_in_front_denies :
    evaluateInvoke evidenceLibraries (openPolicy .community) (communityRequest [ownerElevation]) =
        .allow [ownerDigest] ∧
      evaluateInvoke evidenceLibraries (openPolicy .community)
          (communityRequest [ownerElevation, communityElevation]) = .allow [ownerDigest] ∧
      evaluateInvoke evidenceLibraries (openPolicy .community)
          (communityRequest [communityElevation, ownerElevation]) =
        .deny .integrityInsufficient [communityDigest] ∧
      ¬ TokensFormSet evidenceLibraries (openPolicy .community) (communityRequest [ownerElevation]) ∧
      ¬ TokensFormSet evidenceLibraries (openPolicy .community)
        (communityRequest [communityElevation, ownerElevation]) := by
  refine ⟨by decide +kernel, by decide +kernel, by decide +kernel, fun hset => ?_, fun hset => ?_⟩
  · have hadded := hset.added [communityElevation, ownerElevation] (sublist_cons_self _ _)
      (by decide +kernel)
    exact absurd hadded (by decide +kernel)
  · have hperm := hset.perm [ownerElevation, communityElevation] (Perm.swap _ _ _)
    exact absurd hperm (by decide +kernel)

end Flywheel.Core
