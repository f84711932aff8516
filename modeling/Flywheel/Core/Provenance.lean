import Flywheel.Core.Capabilities
import Mathlib.Data.Finset.SDiff

/-!
# Provenance

`ProvenanceRecord` of `fcp-core`: integrity and confidentiality labels, taint flags, and the history
of their changes. Integrity flows down and confidentiality flows up; the other directions take an
approval token. Taint is removed by sanitizer receipts only.
-/

namespace Flywheel.Core

open Flywheel.Data

/-! ### Labels -/

inductive IntegrityLevel
  | untrusted
  | community
  | work
  | private_
  | owner
  deriving DecidableEq

namespace IntegrityLevel

def asU8 : IntegrityLevel → ℕ
  | untrusted => 0
  | community => 1
  | work => 2
  | private_ => 3
  | owner => 4

theorem asU8_injective : Function.Injective asU8 := by
  intro a b h
  cases a <;> cases b <;> first | rfl | cases h

/-- Levels are ordered by their numbers. -/
instance instLinearOrder : LinearOrder IntegrityLevel := LinearOrder.lift' asU8 asU8_injective

def fromZone (zone : CanonicalZoneId) : IntegrityLevel :=
  if zone.1 = "z:owner" then owner
  else if zone.1 = "z:private" then private_
  else if zone.1 = "z:work" then work
  else if zone.1 = "z:community" then community
  else untrusted

theorem fromZone_eq_community {zone : CanonicalZoneId} :
    fromZone zone = community ↔ zone.1 = "z:community" := by
  rw [fromZone]
  split_ifs with howner hprivate hwork hcommunity
  · simp [howner]
  · simp [hprivate]
  · simp [hwork]
  · simp [hcommunity]
  · simp [hcommunity]

theorem eq_untrusted_of_lt_of_lt_work {level required : IntegrityLevel} :
    level < required → required < work → level = untrusted ∧ required = community := by
  cases level <;> cases required <;> decide

end IntegrityLevel

inductive ConfidentialityLevel
  | public_
  | community
  | work
  | private_
  | owner
  deriving DecidableEq

namespace ConfidentialityLevel

def asU8 : ConfidentialityLevel → ℕ
  | public_ => 0
  | community => 1
  | work => 2
  | private_ => 3
  | owner => 4

theorem asU8_injective : Function.Injective asU8 := by
  intro a b h
  cases a <;> cases b <;> first | rfl | cases h

/-- Levels are ordered by their numbers. -/
instance instLinearOrder : LinearOrder ConfidentialityLevel :=
  LinearOrder.lift' asU8 asU8_injective

def fromZone (zone : CanonicalZoneId) : ConfidentialityLevel :=
  if zone.1 = "z:owner" then owner
  else if zone.1 = "z:private" then private_
  else if zone.1 = "z:work" then work
  else if zone.1 = "z:community" then community
  else public_

end ConfidentialityLevel

open ConfidentialityLevel

inductive TaintFlag
  | publicInput
  | unverifiedLink
  | untrustedTransform
  | webhookInjected
  | userGenerated
  | potentiallyMalicious
  | aiGenerated
  | crossZoneUnapproved
  deriving DecidableEq

def TaintFlag.isCritical : TaintFlag → Bool
  | .publicInput => true
  | .potentiallyMalicious => true
  | .crossZoneUnapproved => true
  | _ => false

def TaintFlag.all : List TaintFlag :=
  [.publicInput, .unverifiedLink, .untrustedTransform, .webhookInjected, .userGenerated,
    .potentiallyMalicious, .aiGenerated, .crossZoneUnapproved]

abbrev TaintFlags := Finset TaintFlag

def TaintFlags.hasCritical (flags : TaintFlags) : Bool :=
  TaintFlag.all.any fun flag => decide (flag ∈ flags) && flag.isCritical

/-- `TaintFlags::iter`, in ascending order. -/
def TaintFlags.iter (flags : TaintFlags) : List TaintFlag :=
  TaintFlag.all.filter fun flag => flag ∈ flags

inductive SafetyTier
  | safe
  | risky
  | dangerous
  | critical
  | forbidden
  deriving DecidableEq

/-! ### Records -/

inductive AdjustmentKind
  | elevation
  | declassification
  deriving DecidableEq

structure LabelAdjustment where
  timestampMs : UInt64
  kind : AdjustmentKind
  approvalTokenId : ObjectId
  prevIntegrity : Option IntegrityLevel
  newIntegrity : Option IntegrityLevel
  prevConfidentiality : Option ConfidentialityLevel
  newConfidentiality : Option ConfidentialityLevel
  deriving DecidableEq

structure TaintReduction where
  timestampMs : UInt64
  sanitizerReceiptId : ObjectId
  clearedFlags : List TaintFlag
  coveredInputs : List ObjectId
  deriving DecidableEq

structure ZoneCrossing where
  timestampMs : UInt64
  fromZone : CanonicalZoneId
  toZone : CanonicalZoneId
  approved : Bool
  approvalTokenId : Option ObjectId
  deriving DecidableEq

structure ProvenanceRecord where
  originZone : CanonicalZoneId
  currentZone : CanonicalZoneId
  integrityLabel : IntegrityLevel
  confidentialityLabel : ConfidentialityLevel
  taintFlags : TaintFlags
  labelAdjustments : List LabelAdjustment
  taintReductions : List TaintReduction
  zoneCrossings : List ZoneCrossing
  inputSources : List ObjectId
  deriving DecidableEq

inductive FlowCheckResult
  | allowed
  | requiresElevation
  | requiresDeclassification
  | requiresBoth
  deriving DecidableEq

/-- `ProvenanceViolation`, as far as a record raises it. -/
inductive ProvenanceViolation
  | publicInputForDangerousOperation
  | maliciousInputDetected
  | crossZoneUnapprovedForDangerousOperation
  | taintedInputForRiskyOperation (taintFlags : List TaintFlag)
  | insufficientIntegrity (required actual : IntegrityLevel)
  | invalidElevation (current requested : IntegrityLevel)
  | invalidDeclassification (current requested : ConfidentialityLevel)
  | forbiddenOperation
  deriving DecidableEq

namespace ProvenanceRecord

def new (originZone : CanonicalZoneId) : ProvenanceRecord where
  originZone := originZone
  currentZone := originZone
  integrityLabel := .fromZone originZone
  confidentialityLabel := .fromZone originZone
  taintFlags := ∅
  labelAdjustments := []
  taintReductions := []
  zoneCrossings := []
  inputSources := []

variable (record : ProvenanceRecord)

def canDriveOperation :
    SafetyTier → Except ProvenanceViolation Unit
  | .safe => .ok ()
  | .forbidden => .error .forbiddenOperation
  | .risky =>
    if .potentiallyMalicious ∈ record.taintFlags then .error .maliciousInputDetected
    else if record.taintFlags.hasCritical ∧ record.integrityLabel < .work then
      .error (.taintedInputForRiskyOperation record.taintFlags.iter)
    else .ok ()
  | .dangerous | .critical =>
    if .publicInput ∈ record.taintFlags then .error .publicInputForDangerousOperation
    else if .potentiallyMalicious ∈ record.taintFlags then .error .maliciousInputDetected
    else if .crossZoneUnapproved ∈ record.taintFlags then
      .error .crossZoneUnapprovedForDangerousOperation
    else if record.integrityLabel < .work then
      .error (.insufficientIntegrity .work record.integrityLabel)
    else .ok ()

def canFlowTo (targetZone : CanonicalZoneId) : FlowCheckResult :=
  let integrityOk := IntegrityLevel.fromZone targetZone ≤ record.integrityLabel
  let confidentialityOk :=
    fromZone targetZone ≥ record.confidentialityLabel
  if integrityOk ∧ confidentialityOk then .allowed
  else if ¬ integrityOk ∧ ¬ confidentialityOk then .requiresBoth
  else if ¬ integrityOk then .requiresElevation
  else .requiresDeclassification

def applyElevation (newIntegrity : IntegrityLevel)
    (approvalTokenId : ObjectId) (timestampMs : UInt64) :
    Except ProvenanceViolation ProvenanceRecord :=
  if newIntegrity ≤ record.integrityLabel then
    .error (.invalidElevation record.integrityLabel newIntegrity)
  else
    .ok { record with
      labelAdjustments := record.labelAdjustments ++
        [⟨timestampMs, .elevation, approvalTokenId, some record.integrityLabel,
          some newIntegrity, none, none⟩]
      integrityLabel := newIntegrity }

def applyDeclassification (newConfidentiality : ConfidentialityLevel) (approvalTokenId : ObjectId)
    (timestampMs : UInt64) : Except ProvenanceViolation ProvenanceRecord :=
  if newConfidentiality ≥ record.confidentialityLabel then
    .error (.invalidDeclassification record.confidentialityLabel newConfidentiality)
  else
    .ok { record with
      labelAdjustments := record.labelAdjustments ++
        [⟨timestampMs, .declassification, approvalTokenId, none, none,
          some record.confidentialityLabel, some newConfidentiality⟩]
      confidentialityLabel := newConfidentiality }

/-- `apply_taint_reduction`: flags that are not there are not recorded. -/
def applyTaintReduction (flagsToClear : List TaintFlag)
    (sanitizerReceiptId : ObjectId) (coveredInputs : List ObjectId) (timestampMs : UInt64) :
    ProvenanceRecord :=
  let presentFlags := flagsToClear.filter fun flag => flag ∈ record.taintFlags
  if presentFlags.isEmpty then record
  else
    { record with
      taintFlags := record.taintFlags \ presentFlags.toFinset
      taintReductions := record.taintReductions ++
        [⟨timestampMs, sanitizerReceiptId, presentFlags, coveredInputs⟩] }

/-- `merge`: the lowest integrity, the highest confidentiality and all flags, with new histories. -/
def merge (records : List ProvenanceRecord) (currentZone : CanonicalZoneId) : ProvenanceRecord :=
  if h : records = [] then new currentZone
  else
    { originZone := (records.head h).originZone
      currentZone
      integrityLabel := (records.map integrityLabel).min (by simpa)
      confidentialityLabel := (records.map confidentialityLabel).max (by simpa)
      taintFlags := (records.flatMap fun r => r.taintFlags.iter).toFinset
      labelAdjustments := []
      taintReductions := []
      zoneCrossings := []
      inputSources := records.flatMap inputSources }

def recordZoneCrossing (toZone : CanonicalZoneId) (approved : Bool)
    (approvalTokenId : Option ObjectId) (timestampMs : UInt64) : ProvenanceRecord :=
  { record with
    zoneCrossings := record.zoneCrossings ++
      [⟨timestampMs, record.currentZone, toZone, approved, approvalTokenId⟩]
    currentZone := toZone
    taintFlags := if approved then record.taintFlags
      else insert .crossZoneUnapproved record.taintFlags }

/-! ### What the operations do to a record -/

theorem canFlowTo_eq_allowed {record : ProvenanceRecord} {zone : CanonicalZoneId} :
    record.canFlowTo zone = .allowed ↔
      IntegrityLevel.fromZone zone ≤ record.integrityLabel ∧
        record.confidentialityLabel ≤ fromZone zone := by
  rw [canFlowTo]
  by_cases hi : IntegrityLevel.fromZone zone ≤ record.integrityLabel <;>
    by_cases hc : record.confidentialityLabel ≤ fromZone zone <;>
    simp [hi, hc]

/-- The flags do not keep a record from driving an operation of this tier. -/
structure Unblocked (tier : SafetyTier) (flags : TaintFlags) : Prop where
  not_forbidden : tier ≠ .forbidden
  not_malicious : tier ≠ .safe → .potentiallyMalicious ∉ flags
  not_public : tier = .dangerous ∨ tier = .critical → .publicInput ∉ flags
  not_unapproved : tier = .dangerous ∨ tier = .critical → .crossZoneUnapproved ∉ flags

/-- An operation of this tier takes the integrity of a work zone. -/
def NeedsWork (tier : SafetyTier) (flags : TaintFlags) : Prop :=
  tier = .dangerous ∨ tier = .critical ∨ tier = .risky ∧ flags.hasCritical = true

/-- What it takes to drive an operation. -/
theorem canDriveOperation_eq_ok {record : ProvenanceRecord} {tier : SafetyTier} :
    record.canDriveOperation tier = .ok () ↔
      Unblocked tier record.taintFlags ∧
        (NeedsWork tier record.taintFlags → .work ≤ record.integrityLabel) := by
  have hunblocked : Unblocked tier record.taintFlags ↔ tier ≠ .forbidden ∧
      (tier ≠ .safe → .potentiallyMalicious ∉ record.taintFlags) ∧
      (tier = .dangerous ∨ tier = .critical → .publicInput ∉ record.taintFlags) ∧
      (tier = .dangerous ∨ tier = .critical → .crossZoneUnapproved ∉ record.taintFlags) :=
    ⟨fun h => ⟨h.1, h.2, h.3, h.4⟩, fun h => ⟨h.1, h.2.1, h.2.2.1, h.2.2.2⟩⟩
  rw [hunblocked, NeedsWork]
  cases tier with
  | safe | forbidden => simp [canDriveOperation]
  | risky =>
    by_cases hmalicious : .potentiallyMalicious ∈ record.taintFlags <;>
      simp [canDriveOperation, hmalicious]
  | dangerous | critical =>
    by_cases hpublic : .publicInput ∈ record.taintFlags <;>
      by_cases hmalicious : .potentiallyMalicious ∈ record.taintFlags <;>
      by_cases hcross : .crossZoneUnapproved ∈ record.taintFlags <;>
      simp [canDriveOperation, hpublic, hmalicious, hcross]

/-- A reduction takes away exactly the flags to clear, and keeps the labels, the zones and the
input sources. -/
theorem applyTaintReduction_spec (flags : List TaintFlag)
    (receiptId : ObjectId) (covered : List ObjectId) (timestampMs : UInt64) :
    let reduced := record.applyTaintReduction flags receiptId covered timestampMs
    reduced.taintFlags = record.taintFlags \ flags.toFinset ∧
      reduced.integrityLabel = record.integrityLabel ∧
      reduced.confidentialityLabel = record.confidentialityLabel ∧
      reduced.currentZone = record.currentZone ∧ reduced.inputSources = record.inputSources := by
  rw [applyTaintReduction]
  split_ifs with hnone
  · refine ⟨?_, rfl, rfl, rfl, rfl⟩
    rw [List.isEmpty_iff, List.filter_eq_nil_iff] at hnone
    ext flag
    rw [Finset.mem_sdiff, List.mem_toFinset]
    exact ⟨fun hmem => ⟨hmem, fun hclear => hnone flag hclear (decide_eq_true hmem)⟩, And.left⟩
  · refine ⟨?_, rfl, rfl, rfl, rfl⟩
    ext flag
    simp only [Finset.mem_sdiff, List.mem_toFinset, List.mem_filter, decide_eq_true_eq]
    tauto

/-! ### Records derived from a source -/

/-- Merges and zone crossings lead from the source to a record. -/
inductive DerivedFrom (source : ProvenanceRecord) : ProvenanceRecord → Prop
  | refl : DerivedFrom source source
  | merge {r records} (zone) (h : DerivedFrom source r) (hmem : r ∈ records) :
      DerivedFrom source (merge records zone)
  | crossing {r} (zone approved tokenId timestampMs) (h : DerivedFrom source r) :
      DerivedFrom source (r.recordZoneCrossing zone approved tokenId timestampMs)

variable {source r : ProvenanceRecord}

theorem DerivedFrom.bounds (h : DerivedFrom source r) :
    r.integrityLabel ≤ source.integrityLabel ∧
      source.confidentialityLabel ≤ r.confidentialityLabel ∧ source.taintFlags ⊆ r.taintFlags := by
  induction h with
  | refl => exact ⟨le_rfl, le_rfl, subset_rfl⟩
  | @merge r records zone h hmem ih =>
    rw [ProvenanceRecord.merge, dif_neg (List.ne_nil_of_mem hmem)]
    refine ⟨(List.min_le_of_mem (List.mem_map_of_mem hmem)).trans ih.1,
      ih.2.1.trans (List.le_max_of_mem (List.mem_map_of_mem hmem)), fun flag hflag => ?_⟩
    refine List.mem_toFinset.mpr (List.mem_flatMap.mpr ⟨r, hmem, List.mem_filter.mpr ⟨?_, ?_⟩⟩)
    · cases flag <;> decide
    · exact decide_eq_true (ih.2.2 hflag)
  | crossing zone approved tokenId timestampMs h ih =>
    refine ⟨ih.1, ih.2.1, ih.2.2.trans ?_⟩
    cases approved
    · exact Finset.subset_insert ..
    · exact subset_rfl

/-- Nothing is laundered: after any merges and crossings, data may go and drive only what each of its
sources may. -/
theorem no_laundering (h : DerivedFrom source r) :
    (∀ zone, r.canFlowTo zone = .allowed → source.canFlowTo zone = .allowed) ∧
      ∀ tier, r.canDriveOperation tier = .ok () → source.canDriveOperation tier = .ok () := by
  obtain ⟨hi, hc, hflags⟩ := h.bounds
  refine ⟨fun zone hflow => ?_, fun tier hdrive => ?_⟩
  · rw [canFlowTo_eq_allowed] at hflow ⊢
    exact ⟨hflow.1.trans hi, hc.trans hflow.2⟩
  · rw [canDriveOperation_eq_ok] at hdrive ⊢
    obtain ⟨hopen, hwork⟩ := hdrive
    have hcritical : source.taintFlags.hasCritical = true → r.taintFlags.hasCritical = true := by
      simp only [TaintFlags.hasCritical, List.any_eq_true, Bool.and_eq_true, decide_eq_true_eq]
      exact Exists.imp fun flag => .imp_right (.imp_left (@hflags flag))
    exact ⟨⟨hopen.1, fun ht => mt (@hflags _) (hopen.2 ht), fun ht => mt (@hflags _) (hopen.3 ht),
      fun ht => mt (@hflags _) (hopen.4 ht)⟩,
      fun hneeds => (hwork (hneeds.imp_right (.imp_right (.imp_right hcritical)))).trans hi⟩

/-- Work data that crossed a boundary unapproved is not cleaned by a merge with clean data. -/
theorem crossed_not_laundered :
    (merge [new .work, (new .work).recordZoneCrossing .work false none 0] .work).canDriveOperation
      .dangerous ≠ .ok () :=
  mt ((no_laundering (.merge .work .refl (List.mem_of_getElem? (i := 1) rfl))).2 .dangerous)
    (by decide +kernel)

end ProvenanceRecord

/-! ### Approval tokens -/

structure ElevationScope where
  operationId : String
  originalProvenanceId : ObjectId
  targetIntegrity : IntegrityLevel
  deriving DecidableEq

structure DeclassificationScope where
  fromZone : CanonicalZoneId
  toZone : CanonicalZoneId
  objectIds : List ObjectId
  targetConfidentiality : ConfidentialityLevel
  deriving DecidableEq

/-- `InputConstraint`: a JSON pointer and the value it has to give. -/
structure InputConstraint (Json : Type) where
  pointer : String
  expected : Json

structure ExecutionScope (Json : Type) where
  connectorId : String
  methodPattern : String
  requestObjectId : Option ObjectId
  inputHash : Option (Bytes 32)
  inputConstraints : List (InputConstraint Json)

inductive ApprovalScope (Json : Type)
  | elevation (scope : ElevationScope)
  | declassification (scope : DeclassificationScope)
  | execution (scope : ExecutionScope Json)

structure ApprovalToken (Json : Type) where
  tokenId : String
  issuedAtMs : UInt64
  expiresAtMs : UInt64
  issuer : String
  scope : ApprovalScope Json
  zoneId : CanonicalZoneId
  signature : Option (List UInt8)

/-- `ApprovalToken::is_valid`: the time is in the half-open interval of the token. -/
def ApprovalToken.isValid {Json : Type} (token : ApprovalToken Json) (nowMs : UInt64) : Prop :=
  ¬ token.expiresAtMs ≤ nowMs ∧ ¬ nowMs < token.issuedAtMs

/-- Whether a token is valid is decidable. -/
instance decidableTokenIsValid {Json : Type} (token : ApprovalToken Json) (nowMs : UInt64) :
    Decidable (token.isValid nowMs) :=
  inferInstanceAs (Decidable (¬ token.expiresAtMs ≤ nowMs ∧ ¬ nowMs < token.issuedAtMs))

/-! ### Sanitizer receipts -/

structure SanitizerReceipt where
  receiptId : String
  timestampMs : UInt64
  sanitizerId : String
  sanitizerZone : CanonicalZoneId
  authorizedFlags : List TaintFlag
  coveredInputs : List ObjectId
  clearedFlags : List TaintFlag
  signature : Option (List UInt8)

namespace SanitizerReceipt

variable (receipt : SanitizerReceipt)

/-- `is_valid`: only authorized flags are cleared. -/
def isValid : Bool :=
  receipt.clearedFlags.all fun flag => flag ∈ receipt.authorizedFlags

/-- `receipt_covers_inputs`. -/
def coversInputs (inputs : List ObjectId) : Bool :=
  if inputs.isEmpty then true else inputs.all fun input => input ∈ receipt.coveredInputs

theorem coversInputs_iff (inputs : List ObjectId) :
    receipt.coversInputs inputs = true ↔ inputs ⊆ receipt.coveredInputs := by
  rw [coversInputs]
  cases inputs with
  | nil => simp
  | cons input inputs => simp [List.subset_def]

end SanitizerReceipt

end Flywheel.Core
