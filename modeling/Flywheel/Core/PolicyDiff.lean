import Flywheel.Core.PolicyDecisions

/-!
# Differences between policy bundles

`diff_policy_bundles` of `fcp-core` compares two resolved bundles of a zone and flags what may widen
the policy: patterns that are added to allow lists or to the ceiling, capability patterns that are
no longer denied, transports that are enabled, and the like. Ordered maps and sets are lists in the
order of their keys. JSON serialization is a parameter.
-/

namespace Flywheel.Core

open Flywheel.Data

/-! ### Ordered maps and sets -/

variable {α : Type}

/-- `BTreeMap::insert`. -/
def insertEntry (key : String) (value : α) : List (String × α) → List (String × α)
  | [] => [(key, value)]
  | entry :: entries =>
    if key = entry.1 then (key, value) :: entries
    else if key < entry.1 then (key, value) :: entry :: entries
    else entry :: insertEntry key value entries

/-- The ordered map of a list of entries, of which the last one for a key counts. -/
def orderedMap (entries : List (String × α)) : List (String × α) :=
  entries.foldl (fun map entry => insertEntry entry.1 entry.2 map) []

def orderedSet (items : List String) : List String :=
  (orderedMap (items.map fun item => (item, ()))).map Prod.fst

/-- `BTreeSet::difference`. -/
def setDifference (left right : List String) : List String :=
  (orderedSet left).filter fun item => item ∉ right

/-- An inserted key is there, with the others. -/
theorem mem_keys_insertEntry {key other : String} {value : α} {entries : List (String × α)} :
    other ∈ (insertEntry key value entries).map Prod.fst ↔
      other = key ∨ other ∈ entries.map Prod.fst := by
  induction entries with
  | nil => simp [insertEntry]
  | cons entry entries ih =>
    rw [insertEntry]
    split_ifs with hsame hbefore
    · simp [hsame]
    · simp
    · rw [List.map_cons, List.mem_cons, List.map_cons, List.mem_cons]
      tauto

/-- The ordered set has the items of the list. -/
theorem mem_orderedSet {items : List String} {item : String} :
    item ∈ orderedSet items ↔ item ∈ items := by
  have hfold : ∀ (entries map : List (String × Unit)),
      item ∈ (entries.foldl (fun map entry => insertEntry entry.1 entry.2 map) map).map Prod.fst ↔
        item ∈ entries.map Prod.fst ∨ item ∈ map.map Prod.fst := by
    intro entries
    induction entries with
    | nil => simp
    | cons entry entries ih =>
      intro map
      rw [List.foldl_cons, ih, mem_keys_insertEntry, List.map_cons, List.mem_cons]
      tauto
  rw [orderedSet, orderedMap, hfold]
  simp

theorem setDifference_eq_nil {left right : List String} :
    setDifference left right = [] ↔ left ⊆ right := by
  rw [setDifference, List.filter_eq_nil_iff, List.subset_def]
  simp only [mem_orderedSet, decide_eq_true_eq, not_not]

/-! ### Bundles -/

structure CapabilityGrant where
  capability : CapabilityId
  operation : Option OperationId

structure RoleObject where
  name : String
  caps : List CapabilityGrant
  includes : List ObjectId

/-- `ResourceObject`, as far as it is compared. -/
structure ResourceObject where
  resourceUri : String
  integrityLabel : IntegrityLevel
  confidentialityLabel : ConfidentialityLevel

/-- `CapabilityObject`, as far as it is compared. -/
structure CapabilityObject where
  caps : List CapabilityGrant
  constraints : CapabilityConstraints

/-- `ZoneDefinitionObject`, without what the comparison leaves out. -/
structure ZoneDefinitionObject where
  zoneId : CanonicalZoneId
  name : String
  integrityLevel : IntegrityLevel
  confidentialityLevel : ConfidentialityLevel
  symbolPort : UInt16
  controlPort : UInt16
  transportPolicy : ZoneTransportPolicy
  policyObjectId : ObjectId

inductive PolicyBundleObject
  | zonePolicy (policy : ZonePolicyObject)
  | zoneDefinition (definition : ZoneDefinitionObject)
  | role (role : RoleObject)
  | resource (resource : ResourceObject)
  | capability (capability : CapabilityObject)

structure PolicyBundlePolicyRef where
  objectId : String
  schemaId : String
  objectHash : String
  deriving DecidableEq

/-- `PolicyBundle`, as far as it is compared. -/
structure PolicyBundle where
  bundleId : String
  zoneId : CanonicalZoneId
  policies : List PolicyBundlePolicyRef

structure PolicyBundleResolved where
  bundle : PolicyBundle
  objects : List (String × PolicyBundleObject)

/-- The schema id is one of the named schema, in whatever version. -/
def ofSchema (schemaName : String) (policy : PolicyBundlePolicyRef) : Bool :=
  ("fcp.core:" ++ schemaName ++ "@").toList.isPrefixOf policy.schemaId.toList

variable (bundle : PolicyBundleResolved)

/-- `resolve_object_by_schema`: the object of the first policy of a schema, and its identifier if it
is missing. -/
def resolveObjectBySchema (schemaName : String) : Option PolicyBundleObject × List String :=
  match bundle.bundle.policies.find? (ofSchema schemaName) with
  | none => (none, [])
  | some policyRef =>
    match bundle.objects.lookup policyRef.objectId with
    | some object => (some object, [])
    | none => (none, [policyRef.objectId])

/-- The zone policy that an object is. -/
def PolicyBundleObject.asZonePolicy : PolicyBundleObject → Option ZonePolicyObject
  | zonePolicy policy => some policy
  | _ => none

/-- The zone definition that an object is. -/
def PolicyBundleObject.asZoneDefinition : PolicyBundleObject → Option ZoneDefinitionObject
  | zoneDefinition definition => some definition
  | _ => none

def PolicyBundleObject.asRole : PolicyBundleObject → Option RoleObject
  | role object => some object
  | _ => none

def PolicyBundleObject.asResource : PolicyBundleObject → Option ResourceObject
  | resource object => some object
  | _ => none

/-- The capability object that an object is. -/
def PolicyBundleObject.asCapability : PolicyBundleObject → Option CapabilityObject
  | capability object => some object
  | _ => none

def resolveZonePolicy : Option ZonePolicyObject × List String :=
  let (object, missing) := resolveObjectBySchema bundle "ZonePolicy"
  (object.bind PolicyBundleObject.asZonePolicy, missing)

def resolveZoneDefinition : Option ZoneDefinitionObject × List String :=
  let (object, missing) := resolveObjectBySchema bundle "ZoneDefinition"
  (object.bind PolicyBundleObject.asZoneDefinition, missing)

/-- All objects of a schema and a kind, by a key, and the identifiers of missing ones. -/
def collectObjects (bundle : PolicyBundleResolved) (schemaName : String)
    (select : PolicyBundleObject → Option α) (key : PolicyBundlePolicyRef → α → String) :
    List (String × α) × List String :=
  let policyRefs := bundle.bundle.policies.filter (ofSchema schemaName)
  (orderedMap (policyRefs.filterMap fun policyRef =>
      ((bundle.objects.lookup policyRef.objectId).bind select).map fun a => (key policyRef a, a)),
    (policyRefs.map PolicyBundlePolicyRef.objectId).filter fun objectId =>
      (bundle.objects.lookup objectId).isNone)

def collectRoles : List (String × RoleObject) × List String :=
  collectObjects bundle "RoleObject" PolicyBundleObject.asRole fun _ role => role.name

def collectResources : List (String × ResourceObject) × List String :=
  collectObjects bundle "ResourceObject" PolicyBundleObject.asResource fun _ resource =>
    resource.resourceUri

def collectCapabilities : List (String × CapabilityObject) × List String :=
  collectObjects bundle "CapabilityObject" PolicyBundleObject.asCapability fun policyRef _ =>
    policyRef.objectId

/-! ### Differences -/

structure PolicyBundlePolicyRefChange where
  objectId : String
  schemaIdBefore : String
  schemaIdAfter : String
  hashBefore : String
  hashAfter : String

def policyRefMap (bundle : PolicyBundle) : List (String × PolicyBundlePolicyRef) :=
  orderedMap (bundle.policies.map fun policy => (policy.objectId, policy))

/-- What `diff_policy_refs` finds out about a policy that is in both bundles. -/
def diffPolicyRef (before after : PolicyBundlePolicyRef) : Option PolicyBundlePolicyRefChange :=
  if before.schemaId ≠ after.schemaId ∨ before.objectHash ≠ after.objectHash then
    some ⟨before.objectId, before.schemaId, after.schemaId, before.objectHash, after.objectHash⟩
  else none

/-- `diff_policy_refs`: added, removed and changed policies. -/
def diffPolicyRefs (before after : PolicyBundle) :
    List PolicyBundlePolicyRef × List PolicyBundlePolicyRef × List PolicyBundlePolicyRefChange :=
  let beforeMap := policyRefMap before
  let afterMap := policyRefMap after
  ((afterMap.filter fun entry => (beforeMap.lookup entry.1).isNone).map Prod.snd,
    (beforeMap.filter fun entry => (afterMap.lookup entry.1).isNone).map Prod.snd,
    beforeMap.filterMap fun entry => (afterMap.lookup entry.1).bind (diffPolicyRef entry.2))

structure PolicyListDiff where
  principalAllow : List String
  principalDeny : List String
  connectorAllow : List String
  connectorDeny : List String
  capabilityAllow : List String
  capabilityDeny : List String
  capabilityCeiling : List String
  deriving DecidableEq

def patternTexts (patterns : List PolicyPattern) : List String :=
  patterns.map PolicyPattern.pattern

def capabilityTexts (capabilities : List CapabilityId) : List String :=
  capabilities.map Subtype.val

/-- One half of `diff_policy_lists`: what the first policy has and the second has not. -/
def policyListDiff (left right : ZonePolicyObject) : PolicyListDiff where
  principalAllow :=
    setDifference (patternTexts left.principalAllow) (patternTexts right.principalAllow)
  principalDeny :=
    setDifference (patternTexts left.principalDeny) (patternTexts right.principalDeny)
  connectorAllow :=
    setDifference (patternTexts left.connectorAllow) (patternTexts right.connectorAllow)
  connectorDeny :=
    setDifference (patternTexts left.connectorDeny) (patternTexts right.connectorDeny)
  capabilityAllow :=
    setDifference (patternTexts left.capabilityAllow) (patternTexts right.capabilityAllow)
  capabilityDeny :=
    setDifference (patternTexts left.capabilityDeny) (patternTexts right.capabilityDeny)
  capabilityCeiling :=
    setDifference (capabilityTexts left.capabilityCeiling) (capabilityTexts right.capabilityCeiling)

structure Change (α : Type) where
  before : α
  after : α
  deriving DecidableEq

/-- The change of a value, if it did change. -/
def changeOf [DecidableEq α] (before after : α) : Option (Change α) :=
  if before ≠ after then some ⟨before, after⟩ else none

structure PolicyChangedFields (Json : Type) where
  transportPolicy : Option (Change ZoneTransportPolicy)
  decisionReceipts : Option (Change Json)
  requiresPosture : Option (Change Json)
  usageBudget : Option (Change Json)
  deriving DecidableEq

structure ZonePolicyDiff (Json : Type) where
  added : PolicyListDiff
  removed : PolicyListDiff
  changed : PolicyChangedFields Json
  deriving DecidableEq

structure ZoneDefinitionDiff (Json : Type) where
  added : List (String × Json)
  removed : List (String × Json)
  changed : List (String × Change Json)

structure RoleDiff where
  name : String
  addedCaps : List String
  removedCaps : List String
  addedIncludes : List String
  removedIncludes : List String

structure ResourceDiff where
  resourceUri : String
  integrityBefore : IntegrityLevel
  integrityAfter : IntegrityLevel
  confidentialityBefore : ConfidentialityLevel
  confidentialityAfter : ConfidentialityLevel

structure CapabilityDiff where
  objectId : String
  addedCaps : List String
  removedCaps : List String
  resourceAllowAdded : List String
  resourceAllowRemoved : List String

inductive PolicyDiffError
  | zoneMismatch (before after : CanonicalZoneId)
  | serialization (text : String)
  deriving DecidableEq

/-- What is used of JSON serialization. -/
structure JsonSerialization (Json : Type) where
  decisionReceipts : DecisionReceiptPolicy → Except String Json
  requiresPosture : Option PostureRequirements → Except String Json
  usageBudget : Option UsageBudgetPolicy → Except String Json
  zoneDefinition : ZoneDefinitionObject → Except String Json
  asObject : Json → Option (List (String × Json))

variable {Json : Type} [DecidableEq Json] (json : JsonSerialization Json)

/-- The error of a field that cannot be serialized. -/
def serializeField (field : String) (result : Except String Json) : Except PolicyDiffError Json :=
  match result with
  | .error err => .error (.serialization s!"{field} serialize: {err}")
  | .ok value => .ok value

variable (before after : ZonePolicyObject)

def diffPolicyChanged :
    Except PolicyDiffError (PolicyChangedFields Json) := do
  let decisionBefore ←
    serializeField "decision_receipts" (json.decisionReceipts before.decisionReceipts)
  let decisionAfter ←
    serializeField "decision_receipts" (json.decisionReceipts after.decisionReceipts)
  let postureBefore ←
    serializeField "requires_posture" (json.requiresPosture before.requiresPosture)
  let postureAfter ←
    serializeField "requires_posture" (json.requiresPosture after.requiresPosture)
  let usageBefore ← serializeField "usage_budget" (json.usageBudget before.usageBudget)
  let usageAfter ← serializeField "usage_budget" (json.usageBudget after.usageBudget)
  return { transportPolicy := changeOf before.transportPolicy after.transportPolicy
           decisionReceipts := changeOf decisionBefore decisionAfter
           requiresPosture := changeOf postureBefore postureAfter
           usageBudget := changeOf usageBefore usageAfter }

def diffZonePolicy :
    Except PolicyDiffError (ZonePolicyDiff Json) := do
  let changed ← diffPolicyChanged json before after
  return ⟨policyListDiff after before, policyListDiff before after, changed⟩

/-- The fields that `diff_json_objects` leaves out. -/
def ignoreKeys : List String := ["signature", "header", "prev"]

def diffJsonObjects (before after : Json) : Except PolicyDiffError (ZoneDefinitionDiff Json) :=
  match json.asObject before, json.asObject after with
  | none, _ => .error (.serialization "before is not object")
  | some _, none => .error (.serialization "after is not object")
  | some beforeObj, some afterObj =>
    let beforeObj := beforeObj.filter fun entry => entry.1 ∉ ignoreKeys
    let afterObj := afterObj.filter fun entry => entry.1 ∉ ignoreKeys
    .ok { added := afterObj.filter fun entry => (beforeObj.lookup entry.1).isNone
          removed := beforeObj.filter fun entry => (afterObj.lookup entry.1).isNone
          changed := beforeObj.filterMap fun entry =>
            ((afterObj.lookup entry.1).bind (changeOf entry.2)).map fun change =>
              (entry.1, change) }

def diffZoneDefinition (before after : ZoneDefinitionObject) :
    Except PolicyDiffError (ZoneDefinitionDiff Json) := do
  let beforeJson ← serializeField "zone definition" (json.zoneDefinition before)
  let afterJson ← serializeField "zone definition" (json.zoneDefinition after)
  diffJsonObjects json beforeJson afterJson

def capabilityGrantKey (grant : CapabilityGrant) : String :=
  match grant.operation with
  | none => grant.capability
  | some operation => s!"{grant.capability.val}/{operation.val}"

/-- The keys of the grants of something that may be missing. -/
def grantKeys (caps : Option (List CapabilityGrant)) : List String :=
  (caps.getD []).map capabilityGrantKey

def allKeys {α : Type} (before after : List (String × α)) : List String :=
  orderedSet (before.map Prod.fst ++ after.map Prod.fst)

/-- `diff_role_fields` for a role that may be missing in one of the bundles. -/
def diffRoleFields (name : String) (before after : Option RoleObject) : RoleDiff :=
  let beforeCaps := grantKeys (before.map RoleObject.caps)
  let afterCaps := grantKeys (after.map RoleObject.caps)
  let beforeIncludes := ((before.map RoleObject.includes).getD []).map fun id => hexEncode id.toList
  let afterIncludes := ((after.map RoleObject.includes).getD []).map fun id => hexEncode id.toList
  { name := name
    addedCaps := setDifference afterCaps beforeCaps
    removedCaps := setDifference beforeCaps afterCaps
    addedIncludes := setDifference afterIncludes beforeIncludes
    removedIncludes := setDifference beforeIncludes afterIncludes }

def RoleDiff.isChange (diff : RoleDiff) : Bool :=
  ¬ (diff.addedCaps.isEmpty ∧ diff.removedCaps.isEmpty ∧ diff.addedIncludes.isEmpty ∧
    diff.removedIncludes.isEmpty)

/-- `diff_roles`, after the roles were collected. -/
def diffRoles (beforeRoles afterRoles : List (String × RoleObject)) : List RoleDiff :=
  ((allKeys beforeRoles afterRoles).map fun name =>
    diffRoleFields name (beforeRoles.lookup name) (afterRoles.lookup name)).filter RoleDiff.isChange

/-- The difference of a resource that is in at least one of the bundles. -/
def diffResource (key : String) (before after : Option ResourceObject) : Option ResourceDiff :=
  match before, after with
  | some before, some after =>
    if before.integrityLabel ≠ after.integrityLabel ∨
        before.confidentialityLabel ≠ after.confidentialityLabel then
      some ⟨key, before.integrityLabel, after.integrityLabel, before.confidentialityLabel,
        after.confidentialityLabel⟩
    else none
  | some only, none | none, some only =>
    some ⟨key, only.integrityLabel, only.integrityLabel, only.confidentialityLabel,
      only.confidentialityLabel⟩
  | none, none => none

/-- `diff_resources`, after the resources were collected. -/
def diffResources (beforeResources afterResources : List (String × ResourceObject)) :
    List ResourceDiff :=
  (allKeys beforeResources afterResources).filterMap fun key =>
    diffResource key (beforeResources.lookup key) (afterResources.lookup key)

/-- `diff_capability_grants` and `diff_resource_allow`. -/
def diffCapability (key : String) (before after : Option CapabilityObject) : CapabilityDiff :=
  let beforeCaps := grantKeys (before.map CapabilityObject.caps)
  let afterCaps := grantKeys (after.map CapabilityObject.caps)
  let beforeAllow := (before.map fun cap => cap.constraints.resourceAllow).getD []
  let afterAllow := (after.map fun cap => cap.constraints.resourceAllow).getD []
  { objectId := key
    addedCaps := setDifference afterCaps beforeCaps
    removedCaps := setDifference beforeCaps afterCaps
    resourceAllowAdded := setDifference afterAllow beforeAllow
    resourceAllowRemoved := setDifference beforeAllow afterAllow }

def CapabilityDiff.isChange (diff : CapabilityDiff) : Bool :=
  ¬ (diff.addedCaps.isEmpty ∧ diff.removedCaps.isEmpty ∧ diff.resourceAllowAdded.isEmpty ∧
    diff.resourceAllowRemoved.isEmpty)

/-- `diff_capabilities`, after the capability objects were collected. -/
def diffCapabilities (beforeCaps afterCaps : List (String × CapabilityObject)) :
    List CapabilityDiff :=
  ((allKeys beforeCaps afterCaps).map fun key =>
    diffCapability key (beforeCaps.lookup key) (afterCaps.lookup key)).filter
      CapabilityDiff.isChange

/-! ### Risks -/

inductive PolicyRiskCode
  | principalAllowExpanded
  | connectorAllowExpanded
  | capabilityAllowExpanded
  | capabilityCeilingExpanded
  | capabilityDenyReduced
  | roleExpanded
  | egressExpanded
  | transportDerpEnabled
  | transportFunnelEnabled
  | transportLanEnabled
  | integrityLowered
  | confidentialityLowered
  deriving DecidableEq

/-- The position of a code in their order. -/
def PolicyRiskCode.rank : PolicyRiskCode → ℕ
  | principalAllowExpanded => 0
  | connectorAllowExpanded => 1
  | capabilityAllowExpanded => 2
  | capabilityCeilingExpanded => 3
  | capabilityDenyReduced => 4
  | roleExpanded => 5
  | egressExpanded => 6
  | transportDerpEnabled => 7
  | transportFunnelEnabled => 8
  | transportLanEnabled => 9
  | integrityLowered => 10
  | confidentialityLowered => 11

inductive PolicyRiskSeverity
  | low
  | medium
  | high
  | critical
  deriving DecidableEq

/-- The position of a severity in their order. -/
def PolicyRiskSeverity.rank : PolicyRiskSeverity → ℕ
  | low => 0
  | medium => 1
  | high => 2
  | critical => 3

structure PolicyRiskFlag where
  code : PolicyRiskCode
  severity : PolicyRiskSeverity
  detail : Option String
  deriving DecidableEq

/-- `push_risk`: one flag per code, with the highest severity and the first detail. -/
def pushRisk (code : PolicyRiskCode) (severity : PolicyRiskSeverity) (detail : Option String) :
    List PolicyRiskFlag → List PolicyRiskFlag
  | [] => [⟨code, severity, detail⟩]
  | flag :: flags =>
    if code = flag.code then
      { flag with
        severity := if flag.severity.rank < severity.rank then severity else flag.severity
        detail := flag.detail.or detail } :: flags
    else if code.rank < flag.code.rank then ⟨code, severity, detail⟩ :: flag :: flags
    else flag :: pushRisk code severity detail flags

def pushRiskIf (condition : Bool) (code : PolicyRiskCode) (severity : PolicyRiskSeverity)
    (detail : Option String) (flags : List PolicyRiskFlag) : List PolicyRiskFlag :=
  if condition then pushRisk code severity detail flags else flags

/-- The risks of a change of transports. -/
def addTransportRisks (change : Change ZoneTransportPolicy) (flags : List PolicyRiskFlag) :
    List PolicyRiskFlag :=
  let flags := pushRiskIf (! change.before.allowDerp && change.after.allowDerp)
    .transportDerpEnabled .high none flags
  let flags := pushRiskIf (! change.before.allowFunnel && change.after.allowFunnel)
    .transportFunnelEnabled .high none flags
  pushRiskIf (! change.before.allowLan && change.after.allowLan)
    .transportLanEnabled .medium none flags

/-- The risks of added and removed entries of lists. -/
def addListRisks (added removed : PolicyListDiff) (flags : List PolicyRiskFlag) :
    List PolicyRiskFlag :=
  let flags := pushRiskIf (! added.principalAllow.isEmpty)
    .principalAllowExpanded .medium none flags
  let flags := pushRiskIf (! added.connectorAllow.isEmpty)
    .connectorAllowExpanded .medium none flags
  let flags := pushRiskIf (! added.capabilityAllow.isEmpty)
    .capabilityAllowExpanded .high none flags
  let flags := pushRiskIf (! added.capabilityCeiling.isEmpty)
    .capabilityCeilingExpanded .high none flags
  pushRiskIf (! removed.capabilityDeny.isEmpty) .capabilityDenyReduced .medium none flags

def addZonePolicyRisks (diff : ZonePolicyDiff Json) (flags : List PolicyRiskFlag) :
    List PolicyRiskFlag :=
  let flags := addListRisks diff.added diff.removed flags
  match diff.changed.transportPolicy with
  | none => flags
  | some change => addTransportRisks change flags

def addRoleRisks (roles : List RoleDiff) (flags : List PolicyRiskFlag) : List PolicyRiskFlag :=
  roles.foldl (fun flags role =>
    pushRiskIf (! role.addedCaps.isEmpty || ! role.addedIncludes.isEmpty) .roleExpanded .medium
      (some role.name) flags) flags

def addCapabilityRisks (capabilities : List CapabilityDiff) (flags : List PolicyRiskFlag) :
    List PolicyRiskFlag :=
  capabilities.foldl (fun flags capability =>
    let flags := pushRiskIf (! capability.addedCaps.isEmpty) .capabilityAllowExpanded .high
      (some capability.objectId) flags
    pushRiskIf (! capability.resourceAllowAdded.isEmpty) .egressExpanded .high
      (some capability.objectId) flags) flags

/-- The displayed name of a level of integrity. -/
def IntegrityLevel.display : IntegrityLevel → String
  | untrusted => "untrusted"
  | community => "community"
  | work => "work"
  | private_ => "private"
  | owner => "owner"

/-- The displayed name of a level of confidentiality. -/
def ConfidentialityLevel.display : ConfidentialityLevel → String
  | public_ => "public"
  | community => "community"
  | work => "work"
  | private_ => "private"
  | owner => "owner"

def addZoneDefinitionRisks (before after : Option ZoneDefinitionObject)
    (flags : List PolicyRiskFlag) : List PolicyRiskFlag :=
  match before, after with
  | some before, some after =>
    let flags := pushRiskIf (after.integrityLevel < before.integrityLevel) .integrityLowered .high
      (some (before.integrityLevel.display ++ " -> " ++ after.integrityLevel.display)) flags
    pushRiskIf (after.confidentialityLevel < before.confidentialityLevel) .confidentialityLowered
      .high (some (before.confidentialityLevel.display ++ " -> " ++
        after.confidentialityLevel.display)) flags
  | _, _ => flags

def addResourceRisks (resources : List ResourceDiff) (flags : List PolicyRiskFlag) :
    List PolicyRiskFlag :=
  resources.foldl (fun flags resource =>
    let flags := pushRiskIf (resource.integrityAfter < resource.integrityBefore)
      .integrityLowered .high (some resource.resourceUri) flags
    pushRiskIf (resource.confidentialityAfter < resource.confidentialityBefore)
      .confidentialityLowered .high (some resource.resourceUri) flags) flags

def computePolicyRiskSummary (zonePolicy : Option (ZonePolicyDiff Json))
    (zoneDefinitionBefore zoneDefinitionAfter : Option ZoneDefinitionObject)
    (roles : List RoleDiff) (resources : List ResourceDiff) (capabilities : List CapabilityDiff) :
    List PolicyRiskFlag :=
  let flags := match zonePolicy with
    | none => []
    | some diff => addZonePolicyRisks diff []
  let flags := addRoleRisks roles flags
  let flags := addCapabilityRisks capabilities flags
  let flags := addZoneDefinitionRisks zoneDefinitionBefore zoneDefinitionAfter flags
  addResourceRisks resources flags

structure PolicyBundleDiff (Json : Type) where
  zoneId : CanonicalZoneId
  beforeBundleId : String
  afterBundleId : String
  added : List PolicyBundlePolicyRef
  removed : List PolicyBundlePolicyRef
  changed : List PolicyBundlePolicyRefChange
  zonePolicy : Option (ZonePolicyDiff Json)
  zoneDefinition : Option (ZoneDefinitionDiff Json)
  roles : List RoleDiff
  resources : List ResourceDiff
  capabilities : List CapabilityDiff
  missingObjects : List String
  risk : List PolicyRiskFlag

/-- Compare two things if both are there. -/
def diffBoth {α β : Type} (diff : α → α → Except PolicyDiffError β) (before after : Option α) :
    Except PolicyDiffError (Option β) :=
  match before, after with
  | some before, some after => (diff before after).map some
  | _, _ => .ok none

def diffPolicyBundles (before after : PolicyBundleResolved) :
    Except PolicyDiffError (PolicyBundleDiff Json) :=
  if before.bundle.zoneId ≠ after.bundle.zoneId then
    .error (.zoneMismatch before.bundle.zoneId after.bundle.zoneId)
  else do
    let (added, removed, changed) := diffPolicyRefs before.bundle after.bundle
    let policyBefore := resolveZonePolicy before
    let policyAfter := resolveZonePolicy after
    let zonePolicy ← diffBoth (diffZonePolicy json) policyBefore.1 policyAfter.1
    let definitionBefore := resolveZoneDefinition before
    let definitionAfter := resolveZoneDefinition after
    let zoneDefinition ←
      diffBoth (diffZoneDefinition json) definitionBefore.1 definitionAfter.1
    let rolesBefore := collectRoles before
    let rolesAfter := collectRoles after
    let roles := diffRoles rolesBefore.1 rolesAfter.1
    let resourcesBefore := collectResources before
    let resourcesAfter := collectResources after
    let resources := diffResources resourcesBefore.1 resourcesAfter.1
    let capabilitiesBefore := collectCapabilities before
    let capabilitiesAfter := collectCapabilities after
    let capabilities := diffCapabilities capabilitiesBefore.1 capabilitiesAfter.1
    let missing := policyBefore.2 ++ policyAfter.2 ++ definitionBefore.2 ++ definitionAfter.2 ++
      rolesBefore.2 ++ rolesAfter.2 ++ resourcesBefore.2 ++ resourcesAfter.2 ++
      capabilitiesBefore.2 ++ capabilitiesAfter.2
    return { zoneId := before.bundle.zoneId
             beforeBundleId := before.bundle.bundleId
             afterBundleId := after.bundle.bundleId
             added := added
             removed := removed
             changed := changed
             zonePolicy := zonePolicy
             zoneDefinition := zoneDefinition
             roles := roles
             resources := resources
             capabilities := capabilities
             missingObjects := orderedSet missing
             risk := computePolicyRiskSummary zonePolicy definitionBefore.1 definitionAfter.1
               roles resources capabilities }

/-! ### What an empty summary says -/

theorem pushRisk_ne_nil (code : PolicyRiskCode) (severity : PolicyRiskSeverity)
    (detail : Option String) (flags : List PolicyRiskFlag) :
    pushRisk code severity detail flags ≠ [] := by
  cases flags with
  | nil => simp [pushRisk]
  | cons flag flags =>
    rw [pushRisk]
    split_ifs <;> simp

variable {flags : List PolicyRiskFlag}

@[simp] theorem pushRiskIf_eq_nil {condition : Bool} {code : PolicyRiskCode}
    {severity : PolicyRiskSeverity} {detail : Option String} :
    pushRiskIf condition code severity detail flags = [] ↔ condition = false ∧ flags = [] := by
  rw [pushRiskIf]
  cases condition with
  | false => simp
  | true => simp [pushRisk_ne_nil]

/-- A run over a list that never takes a flag away starts without flags if it ends so. -/
theorem foldl_eq_nil {α : Type} {step : List PolicyRiskFlag → α → List PolicyRiskFlag}
    (hstep : ∀ flags a, step flags a = [] → flags = []) {items : List α}
    (hnil : items.foldl step flags = []) : flags = [] := by
  induction items generalizing flags with
  | nil => exact hnil
  | cons item items ih => exact hstep flags item (ih hnil)

/-- Zone definitions take no flag away. -/
theorem addZoneDefinitionRisks_eq_nil {before after : Option ZoneDefinitionObject}
    (hnil : addZoneDefinitionRisks before after flags = []) :
    flags = [] := by
  cases before with
  | none => exact hnil
  | some before =>
    cases after with
    | none => exact hnil
    | some after =>
      simp only [addZoneDefinitionRisks, pushRiskIf_eq_nil] at hnil
      exact hnil.2.2

variable {diff : ZonePolicyDiff Json}

omit [DecidableEq Json] in
/-- What the risk summary looks at in two zone policies. -/
structure Unflagged (old new : ZonePolicyObject) : Prop where
  principalAllow : patternTexts new.principalAllow ⊆ patternTexts old.principalAllow
  connectorAllow : patternTexts new.connectorAllow ⊆ patternTexts old.connectorAllow
  capabilityAllow : patternTexts new.capabilityAllow ⊆ patternTexts old.capabilityAllow
  capabilityCeiling : capabilityTexts new.capabilityCeiling ⊆ capabilityTexts old.capabilityCeiling
  capabilityDeny : patternTexts old.capabilityDeny ⊆ patternTexts new.capabilityDeny
  transport : ∀ mode, new.transportPolicy.allows mode = true →
    old.transportPolicy.allows mode = true

variable {old new : ZonePolicyObject}

/-- What the difference of two zone policies is made of. -/
theorem diffZonePolicy_eq_ok (hdiff : diffZonePolicy json old new = .ok diff) :
    diff.added = policyListDiff new old ∧ diff.removed = policyListDiff old new ∧
      diff.changed.transportPolicy = changeOf old.transportPolicy new.transportPolicy := by
  obtain ⟨changed, hchanged, hdiff⟩ := bind_eq_ok hdiff
  cases hdiff
  obtain ⟨_, _, hchanged⟩ := bind_eq_ok hchanged
  obtain ⟨_, _, hchanged⟩ := bind_eq_ok hchanged
  obtain ⟨_, _, hchanged⟩ := bind_eq_ok hchanged
  obtain ⟨_, _, hchanged⟩ := bind_eq_ok hchanged
  obtain ⟨_, _, hchanged⟩ := bind_eq_ok hchanged
  obtain ⟨_, _, hchanged⟩ := bind_eq_ok hchanged
  cases hchanged
  exact ⟨rfl, rfl, rfl⟩

/-- The difference of two zone policies without flags. -/
theorem unflagged_of_diffZonePolicy
    (hdiff : diffZonePolicy json old new = .ok diff) (hnil : addZonePolicyRisks diff [] = []) :
    Unflagged old new := by
  obtain ⟨hadded, hremoved, hchanged⟩ := diffZonePolicy_eq_ok json hdiff
  rw [addZonePolicyRisks, hadded, hremoved, hchanged] at hnil
  have hflags : addListRisks (policyListDiff new old) (policyListDiff old new) [] = [] ∧
      ∀ mode, new.transportPolicy.allows mode = true →
        old.transportPolicy.allows mode = true := by
    by_cases hsame : old.transportPolicy = new.transportPolicy
    · rw [changeOf, if_neg (not_not_intro hsame)] at hnil
      exact ⟨hnil, fun mode hallows => hsame ▸ hallows⟩
    · rw [changeOf, if_pos hsame] at hnil
      simp only [addTransportRisks, pushRiskIf_eq_nil] at hnil
      refine ⟨hnil.2.2.2, fun mode hallows => ?_⟩
      cases mode <;> simp_all [ZoneTransportPolicy.allows]
  obtain ⟨hlists, htransport⟩ := hflags
  simp only [addListRisks, pushRiskIf_eq_nil, Bool.not_eq_false', List.isEmpty_iff] at hlists
  obtain ⟨hdeny, hceiling, hcapability, hconnector, hprincipal, -⟩ := hlists
  exact ⟨setDifference_eq_nil.mp hprincipal, setDifference_eq_nil.mp hconnector,
    setDifference_eq_nil.mp hcapability, setDifference_eq_nil.mp hceiling,
    setDifference_eq_nil.mp hdeny, htransport⟩

end Flywheel.Core
