import Flywheel.Mesh.Leases

/-!
# The lease coordinator

`LeaseCoordinator` of `fcp-mesh`. The coordinator stores no leases: every call brings
the leases that the caller observes, and the coordinator keeps a cursor for the next
fencing token that it rebases against these observations. Additions and products of
`u64` values wrap unless the source checks or saturates them. A call that panics,
because the configured minimal lifetime exceeds the maximal one, has no result. Metrics
are left out.
-/

namespace Flywheel.Mesh

open Flywheel.Core Flywheel.Data

structure LeaseCoordinatorConfig where
  defaultTtlSecs : ℕ
  minTtlSecs : ℕ
  maxTtlSecs : ℕ
  /-- Remaining share of the lifetime at which to renew, in basis points. -/
  renewThresholdBps : ℕ
  maxLeasesPerNode : ℕ
  escalateDangerousConflicts : Bool

def LeaseCoordinatorConfig.default : LeaseCoordinatorConfig := ⟨300, 10, 3600, 2000, 64, true⟩

/-- `u64::MAX`. -/
def u64Max : ℕ := 2 ^ 64 - 1

/-- `u64::checked_add` of one. -/
def checkedSucc (n : ℕ) : Option ℕ := if n < u64Max then some (n + 1) else none

def maxFencingTokenDrift : ℕ := 1000000

inductive FencingRebaseStatus
  | ready
  | exhausted
  | driftTooLarge
  deriving DecidableEq

def FencingRebaseStatus.rejectionReason : FencingRebaseStatus → Option String
  | ready => none
  | exhausted => some "fencing token space exhausted"
  | driftTooLarge => some "observed fencing token drift exceeds safety limit"

inductive AuthorityReasonCode
  | activeAuthority
  | supersededByPreferredLease
  | leaseExpired
  | leaseConflictDetected
  | leaseAcquisitionRejected
  | leaseReleased
  | leaseNotHeld
  | coordinatorSelected
  | noEligibleCoordinator
  deriving DecidableEq

structure AuthorityTimelineEvent where
  observedAtMs : ℕ
  operation : String
  subjectId : ObjectId
  purpose : LeasePurpose
  holder : Option NodeId
  coordinator : Option NodeId
  reasonCode : AuthorityReasonCode
  fencingToken : Option ℕ
  expiresAt : Option ℕ
  explanation : String
  deriving DecidableEq

inductive AcquireOutcome
  | granted (fencingToken expiresAt : ℕ)
  | rejected (reason : String)
  | denied (currentHolder : NodeId) (currentFencingToken expiresAt : ℕ) (reason : String)
  | conflict (holders : List NodeId) (fencingTokens : List ℕ) (reason : String)
  deriving DecidableEq

inductive RenewOutcome
  | renewed (expiresAt : ℕ)
  | denied (reason : String)
  deriving DecidableEq

inductive ReleaseOutcome
  | released
  | notHeld (reason : String)
  deriving DecidableEq

inductive ConflictSeverity
  | info
  | warning
  | critical
  deriving DecidableEq

/-- The derived `Debug` of `ConflictSeverity`. -/
def ConflictSeverity.debug : ConflictSeverity → String
  | info => "Info"
  | warning => "Warning"
  | critical => "Critical"

/-- The arguments of `LeaseCoordinator::acquire`. -/
structure AcquireRequest where
  requester : NodeId
  zoneId : ZoneId
  subjectId : ObjectId
  purpose : LeasePurpose
  existingLeases : List ObservedLeaseAuthority
  eligibleNodes : List NodeId
  nowSecs : ℕ
  requestedTtl : Option ℕ

/-- The arguments of `LeaseCoordinator::renew` and, but for the lifetime, of
`LeaseCoordinator::release`. -/
structure RenewRequest where
  requester : NodeId
  subjectId : ObjectId
  purpose : LeasePurpose
  heldFencingToken : ℕ
  existingLeases : List ObservedLeaseAuthority
  nowSecs : ℕ
  requestedTtl : Option ℕ

variable (r : RenewRequest)

/-- An event of a renewal or release. -/
def RenewRequest.event (operation : String) (reasonCode : AuthorityReasonCode)
    (expiresAt : Option ℕ) (explanation : String) : AuthorityTimelineEvent :=
  ⟨r.nowSecs * 1000 % 2 ^ 64, operation, r.subjectId, r.purpose, some r.requester, none,
    reasonCode, some r.heldFencingToken, expiresAt, explanation⟩

/-- The active lease that `renew` and `release` look for. -/
def RenewRequest.held : Option ObservedLeaseAuthority :=
  r.existingLeases.find? fun obs =>
    obs.holder = r.requester ∧ obs.lease.subjectId = r.subjectId ∧
      obs.lease.purpose = r.purpose ∧ obs.lease.fencingToken = r.heldFencingToken ∧
      obs.lease.isActive r.nowSecs

/-- The largest token among the active leases of the subject and purpose. -/
def RenewRequest.maxActiveToken : ℕ :=
  ((r.existingLeases.filter fun obs =>
      decide (obs.IsFor r.subjectId r.purpose) && obs.lease.isActive r.nowSecs).map
    fun obs => obs.lease.fencingToken).max?.getD r.heldFencingToken

structure LeaseCoordinator where
  config : LeaseCoordinatorConfig
  nextSeq : ℕ

namespace LeaseCoordinator

def new (config : LeaseCoordinatorConfig) : LeaseCoordinator := ⟨config, 1⟩

variable (c : LeaseCoordinator)

def nextFencingToken : Option (ℕ × LeaseCoordinator) :=
  (checkedSucc c.nextSeq).map fun next => (c.nextSeq, { c with nextSeq := next })

def rebaseNextSeq (existingLeases : List ObservedLeaseAuthority) :
    LeaseCoordinator × FencingRebaseStatus :=
  match (existingLeases.map fun observed => observed.lease.fencingToken).max? with
  | none => (c, .ready)
  | some maxObserved =>
    match checkedSucc maxObserved with
    | none => (c, .exhausted)
    | some nextCandidate =>
      if c.nextSeq < nextCandidate then
        if maxFencingTokenDrift < nextCandidate - c.nextSeq then (c, .driftTooLarge)
        else ({ c with nextSeq := nextCandidate }, .ready)
      else (c, .ready)

/-- `LeaseCoordinator::clamp_ttl`. `Ord::clamp` panics on an empty range. -/
def clampTtl (ttl : ℕ) : Option ℕ :=
  if c.config.minTtlSecs ≤ c.config.maxTtlSecs then
    some (min (max ttl c.config.minTtlSecs) c.config.maxTtlSecs)
  else none

/-- The severity at which `acquire` and `detect_conflicts` report a conflict. -/
def conflictSeverity : ConflictSeverity :=
  if c.config.escalateDangerousConflicts then .critical else .warning

variable (r : RenewRequest)

/-- `LeaseCoordinator::renew` with a lifetime that is clamped already. -/
def renewFor (ttl : ℕ) : RenewOutcome × List AuthorityTimelineEvent :=
  match r.held with
  | none =>
    let reason := "Renew denied: no active lease matches holder=" ++ r.requester ++ " token=" ++
      toString r.heldFencingToken
    (.denied reason, [r.event "lease.renew_denied" .leaseNotHeld none reason])
  | some held =>
    if r.heldFencingToken < r.maxActiveToken then
      let reason := "Renew denied: lease superseded (held_token=" ++ toString r.heldFencingToken ++
        ", max_active=" ++ toString r.maxActiveToken ++ ")"
      (.denied reason, [r.event "lease.renew_denied" .supersededByPreferredLease
        (some held.lease.expiresAt) reason])
    else
      -- the expiry never falls behind the observed one, even when the clock does
      let newExpires := max (min (r.nowSecs + ttl) u64Max) held.lease.expiresAt
      (.renewed newExpires, [r.event "lease.renewed" .activeAuthority (some newExpires)
        ("Lease renewed for " ++ r.requester ++ " (fencing_token=" ++
          toString r.heldFencingToken ++ ", new_expires=" ++ toString newExpires ++ ")")])

def renew : Option (RenewOutcome × List AuthorityTimelineEvent) :=
  (c.clampTtl (r.requestedTtl.getD c.config.defaultTtlSecs)).map (renewFor r)

def release : ReleaseOutcome × List AuthorityTimelineEvent :=
  match r.held with
  | some _ =>
    (.released, [r.event "lease.released" .leaseReleased none
      ("Lease released by " ++ r.requester ++ " (fencing_token=" ++
        toString r.heldFencingToken ++ ")")])
  | none =>
    (.notHeld "No matching active lease found",
      [r.event "lease.release_failed" .leaseNotHeld none
        ("Release failed: " ++ r.requester ++ " does not hold matching lease")])

def shouldRenew (lease : HeldLease) (nowSecs : ℕ) : Bool :=
  if lease.isActive nowSecs then
    if c.config.defaultTtlSecs = 0 then true
    else (lease.expiresAt - nowSecs) * 10000 / c.config.defaultTtlSecs ≤ c.config.renewThresholdBps
  else false

end LeaseCoordinator

end Flywheel.Mesh
