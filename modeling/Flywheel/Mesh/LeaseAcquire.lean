import Flywheel.Mesh.Coordinator

/-!
# Acquiring and issuing leases

`acquire`, `issue_signed_lease` and `detect_conflicts` of the lease coordinator. A
subject without an active lease is granted under a new token. The only active holder is
renewed, and two active holders are a conflict. Another node is denied, unless the
holder is offline and rendezvous hashing selects the node, which takes the lease over
under a new token. Schema, provenance and references of an issued lease are copied
through and left out.
-/

namespace Flywheel.Mesh

open Flywheel.Core Flywheel.Data

variable (blake3 : List UInt8 → Bytes 32) (r : AcquireRequest)

/-- The coordinator that is selected for the subject of a request. -/
def AcquireRequest.selected : Option NodeId :=
  selectCoordinator blake3 r.zoneId r.subjectId r.eligibleNodes

def AcquireRequest.event (operation : String) (holder : Option NodeId)
    (reasonCode : AuthorityReasonCode) (fencingToken expiresAt : Option ℕ)
    (explanation : String) : AuthorityTimelineEvent :=
  ⟨r.nowSecs * 1000 % 2 ^ 64, operation, r.subjectId, r.purpose, holder, r.selected blake3,
    reasonCode, fencingToken, expiresAt, explanation⟩

/-- The active leases that a request competes with. -/
def AcquireRequest.active : List ObservedLeaseAuthority :=
  canonicalActiveLeasesForSubject r.existingLeases r.subjectId r.purpose r.nowSecs

/-- The renewal as which a request of the current holder is treated. -/
def AcquireRequest.renewal (heldFencingToken ttl : ℕ) : RenewRequest :=
  ⟨r.requester, r.subjectId, r.purpose, heldFencingToken, r.existingLeases, r.nowSecs, some ttl⟩

/-- The labels and texts in which the two admissions of `acquire` differ. -/
structure AdmissionTexts where
  refused : String
  refusedHolder : Option NodeId
  rejected : String
  capacity : String
  exhausted : String
  granted : String
  explanation : ℕ → String

/-- The texts for a subject without an active lease. -/
def AcquireRequest.openTexts : AdmissionTexts where
  refused := "lease.acquire_refused"
  refusedHolder := none
  rejected := "lease.acquire_rejected"
  capacity := "Lease rejected: "
  exhausted := "Fencing token space exhausted — refusing to grant lease"
  granted := "lease.acquired"
  explanation _ := "Lease granted to " ++ r.requester ++ " (no competing holders)"

/-- The texts for a takeover from an offline holder. -/
def AcquireRequest.handoffTexts (current : ObservedLeaseAuthority) :
    AdmissionTexts where
  refused := "lease.handoff_refused"
  refusedHolder := some r.requester
  rejected := "lease.handoff_rejected"
  capacity := "Lease handoff rejected: "
  exhausted := "Fencing token space exhausted — refusing handoff"
  granted := "lease.handed_off"
  explanation token := "Lease handed off from offline holder " ++ current.holder ++ " to " ++
    r.requester ++ " (old_fencing_token=" ++ toString current.lease.fencingToken ++
    ", new_fencing_token=" ++ toString token ++ ")"

namespace LeaseCoordinator

/-- What a call that may draw a token returns: the coordinator after the call, the outcome
and the timeline. -/
abbrev Result (Outcome : Type) := LeaseCoordinator × Outcome × List AuthorityTimelineEvent

variable (c : LeaseCoordinator) (status : FencingRebaseStatus)

/-- The admission of a request to a new token. -/
def grantFresh (r : AcquireRequest) (ttl : ℕ) (texts : AdmissionTexts) : Result AcquireOutcome :=
  match status.rejectionReason with
  | some reason => (c, .rejected reason, [r.event blake3 texts.refused texts.refusedHolder
      .leaseAcquisitionRejected none none reason])
  | none =>
    let held := canonicalActiveLeaseCountForHolder r.existingLeases r.requester r.nowSecs
    if c.config.maxLeasesPerNode ≤ held then
      let reason := texts.capacity ++ r.requester ++ " already holds " ++ toString held ++
        " active leases (limit=" ++ toString c.config.maxLeasesPerNode ++ ")"
      (c, .rejected reason, [r.event blake3 texts.rejected (some r.requester)
        .leaseAcquisitionRejected none none reason])
    else match c.nextFencingToken with
      | none => (c, .rejected "fencing token space exhausted", [r.event blake3 texts.refused
          texts.refusedHolder .leaseAcquisitionRejected none none texts.exhausted])
      | some (token, c') =>
        let expiresAt := (r.nowSecs + ttl) % 2 ^ 64
        (c', .granted token expiresAt, [r.event blake3 texts.granted (some r.requester)
          .activeAuthority (some token) (some expiresAt) (texts.explanation token)])

variable (current : ObservedLeaseAuthority)

/-- The answer to the only active holder, as which `acquire` hands on a renewal. -/
def renewedOutcome : RenewOutcome → AcquireOutcome
  | .renewed expiresAt => .granted current.lease.fencingToken expiresAt
  | .denied reason =>
    .denied current.holder current.lease.fencingToken current.lease.expiresAt reason

/-- The answer to a node other than the active holder. -/
def denyOutcome : AcquireOutcome :=
  .denied current.holder current.lease.fencingToken current.lease.expiresAt
    ("Active lease held by " ++ current.holder)

/-- The answer when several holders are active. -/
def conflictOutcome (active : List ObservedLeaseAuthority) : AcquireOutcome :=
  .conflict (active.map (·.holder)) (active.map (·.lease.fencingToken))
    "Multiple active leases detected for subject/purpose"

/-- `LeaseCoordinator::acquire` behind the rebase, for the active leases of the subject. -/
def acquireFrom (r : AcquireRequest)
    (ttl : ℕ) : List ObservedLeaseAuthority → Option (Result AcquireOutcome)
  | [] => some (c.grantFresh blake3 status r ttl r.openTexts)
  | [current] =>
    if current.holder = r.requester then
      (c.renew (r.renewal current.lease.fencingToken ttl)).map fun renewal =>
        (c, renewedOutcome current renewal.1, renewal.2)
    else if current.holder ∉ r.eligibleNodes ∧ r.selected blake3 = some r.requester then
      some (c.grantFresh blake3 status r ttl (r.handoffTexts current))
    else
      some (c, denyOutcome current, [r.event blake3 "lease.denied" (some current.holder)
        .supersededByPreferredLease (some current.lease.fencingToken)
        (some current.lease.expiresAt)
        ("Denied: " ++ current.holder ++ " holds active lease (fencing_token=" ++
          toString current.lease.fencingToken ++ ", expires=" ++
          toString current.lease.expiresAt ++ ")")])
  | first :: second :: rest =>
    let active := first :: second :: rest
    some (c, conflictOutcome active, [r.event blake3 "lease.conflict_detected" none
      .leaseConflictDetected none none ("Conflict: " ++ toString active.length ++
        " active leases for subject (severity: " ++ c.conflictSeverity.debug ++ ")")])

def acquire (r : AcquireRequest) : Option (Result AcquireOutcome) :=
  (c.clampTtl (r.requestedTtl.getD c.config.defaultTtlSecs)).bind fun ttl =>
    (c.rebaseNextSeq r.existingLeases).1.acquireFrom blake3
      (c.rebaseNextSeq r.existingLeases).2 r ttl r.active

end LeaseCoordinator

/-- `lease::LeasePurpose` of `fcp-core`. -/
inductive CoreLeasePurpose
  | operationExecution
  | connectorStateWrite
  | computationMigration
  | coordinatorElection
  | migration
  | resourceAccess
  deriving DecidableEq

def plannerPurposeForCore : CoreLeasePurpose → LeasePurpose
  | .connectorStateWrite => .singletonWriter
  | .operationExecution => .operationExecution
  | .coordinatorElection => .coordinatorElection
  | .computationMigration | .migration | .resourceAccess => .other

structure NodeSignature where
  nodeId : NodeId
  signature : Bytes 64
  signedAt : ℕ

/-- `SignatureSet::duplicate_node_id`, with the nodes seen so far. -/
def duplicateNodeId (seen : List NodeId) : List NodeSignature → Option NodeId
  | [] => none
  | sig :: signatures =>
    if sig.nodeId ∈ seen then some sig.nodeId
    else duplicateNodeId (sig.nodeId :: seen) signatures

/-- `LeaseParams` of `fcp-core`. -/
structure CoreLeaseParams where
  zoneId : ZoneId
  holder : NodeId
  leaseSeq : ℕ
  ttlSecs : ℕ
  subjectObjectId : ObjectId
  purpose : CoreLeasePurpose
  quorumSignatures : List NodeSignature

/-- `Lease` of `fcp-core` with the header fields that the coordinator computes. -/
structure CoreLease where
  zoneId : ZoneId
  createdAt : ℕ
  ttlSecs : Option ℕ
  holder : NodeId
  leaseSeq : ℕ
  exp : ℕ
  subjectObjectId : ObjectId
  purpose : CoreLeasePurpose
  quorumSignatures : List NodeSignature

def coreLeaseFromParams (params : CoreLeaseParams) (createdAt expiresAt : ℕ) : CoreLease where
  zoneId := params.zoneId
  createdAt := createdAt
  ttlSecs := some (expiresAt - createdAt)
  holder := params.holder
  leaseSeq := params.leaseSeq
  exp := expiresAt
  subjectObjectId := params.subjectObjectId
  purpose := params.purpose
  quorumSignatures := params.quorumSignatures

def heldLeaseFromSigned (lease : CoreLease) : HeldLease :=
  ⟨lease.subjectObjectId, plannerPurposeForCore lease.purpose, lease.exp, lease.leaseSeq⟩

structure SignedLeaseIssueRequest where
  params : CoreLeaseParams
  existingLeases : List ObservedLeaseAuthority
  eligibleNodes : List NodeId
  requiredSignatures : ℕ
  nowSecs : ℕ

inductive SignedLeaseIssueOutcome
  | granted (lease : CoreLease)
  | rejected (reason : String)
  | denied (currentHolder : NodeId) (currentFencingToken expiresAt : ℕ) (reason : String)
  | conflict (holders : List NodeId) (fencingTokens : List ℕ) (reason : String)

namespace SignedLeaseIssueRequest

variable (q : SignedLeaseIssueRequest)

/-- The acquisition that `issue_signed_lease` makes. -/
def acquisition : AcquireRequest where
  requester := q.params.holder
  zoneId := q.params.zoneId
  subjectId := q.params.subjectObjectId
  purpose := plannerPurposeForCore q.params.purpose
  existingLeases := q.existingLeases
  eligibleNodes := q.eligibleNodes
  nowSecs := q.nowSecs
  requestedTtl := some q.params.ttlSecs

/-- `signed_lease_issue_hrw_rejection`: the reason for it. -/
def hrwRejection : Option String :=
  match q.acquisition.selected blake3 with
  | some holder =>
    if holder = q.params.holder then none
    else some ("Lease issue rejected: " ++ q.params.holder ++
      " is not HRW-selected holder for subject " ++ hexEncode q.params.subjectObjectId.toList ++
      "; expected " ++ holder)
  | none => some "Lease issue rejected: no HRW-eligible holder for subject"

/-- `signed_lease_issue_quorum_rejection`: the reason for it. -/
def quorumRejection : Option String :=
  match duplicateNodeId [] q.params.quorumSignatures with
  | some nodeId =>
    some ("Lease issue rejected: duplicate quorum signer " ++ nodeId ++ " is not allowed")
  | none =>
    let got := q.params.quorumSignatures.length
    if got < q.requiredSignatures then
      some ("Lease issue rejected: insufficient quorum signatures (required=" ++
        toString q.requiredSignatures ++ ", got=" ++ toString got ++ ")")
    else match q.params.quorumSignatures.find? fun sig => sig.nodeId ∉ q.eligibleNodes with
      | some sig => some ("Lease issue rejected: quorum signer " ++ sig.nodeId ++
          " is not in the eligible signer set")
      | none => none

/-- The lease that is made of a grant. -/
def lease (fencingToken expiresAt : ℕ) : CoreLease :=
  coreLeaseFromParams { q.params with
    leaseSeq := fencingToken
    ttlSecs := min (expiresAt - q.nowSecs) (2 ^ 32 - 1) } q.nowSecs expiresAt

/-- The outcome that is made of the outcome of the acquisition. -/
def outcome : AcquireOutcome → SignedLeaseIssueOutcome
  | .granted fencingToken expiresAt => .granted (q.lease fencingToken expiresAt)
  | .rejected reason => .rejected reason
  | .denied holder token expiresAt reason => .denied holder token expiresAt reason
  | .conflict holders tokens reason => .conflict holders tokens reason

end SignedLeaseIssueRequest

namespace LeaseCoordinator

def issueSignedLease (c : LeaseCoordinator) (q : SignedLeaseIssueRequest) :
    Option (Result SignedLeaseIssueOutcome) :=
  match (q.hrwRejection blake3).or q.quorumRejection with
  | some reason => some (c, .rejected reason, [q.acquisition.event blake3 "lease.issue_rejected"
      (some q.params.holder) .leaseAcquisitionRejected none none reason])
  | none => (c.acquire blake3 q.acquisition).map fun result =>
      (result.1, q.outcome result.2.1, result.2.2)

end LeaseCoordinator

structure ConflictingHolder where
  nodeId : NodeId
  fencingToken : ℕ
  expiresAt : ℕ

structure LeaseConflict where
  zoneId : ZoneId
  subjectId : ObjectId
  purpose : LeasePurpose
  severity : ConflictSeverity
  holders : List ConflictingHolder
  detectedAtMs : ℕ
  resolution : String

def LeaseCoordinator.detectConflicts (c : LeaseCoordinator) (zoneId : ZoneId)
    (subjectId : ObjectId) (purpose : LeasePurpose) (observed : List ObservedLeaseAuthority)
    (nowSecs : ℕ) : Option LeaseConflict :=
  let active := canonicalActiveLeasesForSubject observed subjectId purpose nowSecs
  if active.length ≤ 1 then none
  else (maxBy compareConflictingLeases active).map fun winner =>
    { zoneId, subjectId, purpose
      severity := c.conflictSeverity
      holders := active.map fun obs => ⟨obs.holder, obs.lease.fencingToken, obs.lease.expiresAt⟩
      detectedAtMs := nowSecs * 1000 % 2 ^ 64
      resolution := "Highest fencing token wins: " ++ winner.holder ++ " (token=" ++
        toString winner.lease.fencingToken ++ ")" }

end Flywheel.Mesh
