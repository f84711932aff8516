import Flywheel.Mesh.LeaseSpec

/-!
# Fencing tokens only grow

Runs of one coordinator, with whatever leases its callers claim to observe. Every lease
granted under a new token has a token above all tokens granted that way before and above
every observed one. A refused call draws no token, so that no later token falls behind
the cursor it leaves. A renewal keeps a token that was observed for the requester.
-/

namespace Flywheel.Mesh

open Flywheel.Core Flywheel.Data

variable {blake3 : List UInt8 → Bytes 32}

/-- A call that can give a node a lease. -/
inductive Call
  | acquire (r : AcquireRequest)
  | issueSignedLease (q : SignedLeaseIssueRequest)
  | renew (r : RenewRequest)

namespace Call

def observed : Call → List ObservedLeaseAuthority
  | acquire r => r.existingLeases
  | issueSignedLease q => q.existingLeases
  | renew r => r.existingLeases

def nowSecs : Call → ℕ
  | acquire r => r.nowSecs
  | issueSignedLease q => q.nowSecs
  | renew r => r.nowSecs

/-- The call is a renewal: it asks for one, or it asks for a lease that the requester is
the only active holder of. -/
def Renewal : Call → Prop
  | acquire r => r.HeldBy r.requester
  | issueSignedLease q => q.acquisition.HeldBy q.params.holder
  | renew _ => True

end Call

/-- The lease that an acquisition is granted. -/
def AcquireRequest.grantedLease (r : AcquireRequest) :
    AcquireOutcome → Option ObservedLeaseAuthority
  | .granted token expiresAt => some ⟨r.requester, r.subjectId, r.purpose, expiresAt, token⟩
  | _ => none

def SignedLeaseIssueOutcome.grantedLease : SignedLeaseIssueOutcome → Option ObservedLeaseAuthority
  | .granted lease => some ⟨lease.holder, heldLeaseFromSigned lease⟩
  | _ => none

def RenewRequest.renewedLease (r : RenewRequest) : RenewOutcome → Option ObservedLeaseAuthority
  | .renewed expiresAt =>
    some ⟨r.requester, r.subjectId, r.purpose, expiresAt, r.heldFencingToken⟩
  | .denied _ => none

namespace LeaseCoordinator

/-- The coordinator after a call and the lease that the call gave. A call that panics gives
none and has changed nothing. -/
def serve (blake3 : List UInt8 → Bytes 32) (c : LeaseCoordinator) :
    Call → LeaseCoordinator × Option ObservedLeaseAuthority
  | .acquire r => match c.acquire blake3 r with
    | some (c', outcome, _) => (c', r.grantedLease outcome)
    | none => (c, none)
  | .issueSignedLease q => match c.issueSignedLease blake3 q with
    | some (c', outcome, _) => (c', outcome.grantedLease)
    | none => (c, none)
  | .renew r => (c, (c.renew r).bind fun answer => r.renewedLease answer.1)

/-- What one call of a run did. -/
structure Served where
  call : Call
  before : LeaseCoordinator
  after : LeaseCoordinator
  lease : Option ObservedLeaseAuthority

/-- The call gave this lease under a new token. -/
def Served.Fresh (e : Served) (lease : ObservedLeaseAuthority) : Prop :=
  e.lease = some lease ∧ ¬ e.call.Renewal

/-- What the calls of a run did, in order. -/
def trace (blake3 : List UInt8 → Bytes 32) (c : LeaseCoordinator) : List Call → List Served
  | [] => []
  | call :: calls =>
    ⟨call, c, (c.serve blake3 call).1, (c.serve blake3 call).2⟩ ::
      trace blake3 (c.serve blake3 call).1 calls

inductive Served.Sound (e : Served) : Prop
  /-- No lease, and the cursor stays or comes right behind an observed token. -/
  | refused (hlease : e.lease = none)
      (hcursor : e.after.nextSeq = e.before.nextSeq ∨
        ∃ o ∈ e.call.observed, e.after.nextSeq = o.lease.fencingToken + 1)
  /-- A lease under the token at the cursor, which is past every observed token. -/
  | fresh (lease : ObservedLeaseAuthority) (hlease : e.lease = some lease)
      (hnew : ¬ e.call.Renewal) (hle : e.before.nextSeq ≤ lease.lease.fencingToken)
      (hcursor : e.after.nextSeq = lease.lease.fencingToken + 1)
      (hlt : ∀ o ∈ e.call.observed, o.lease.fencingToken < lease.lease.fencingToken)
  /-- A lease that is observed as active and leads its subject and purpose. -/
  | renewed (lease o : ObservedLeaseAuthority) (hlease : e.lease = some lease)
      (hrenewal : e.call.Renewal)
      (ho : ActiveFor e.call.observed lease.lease.subjectId lease.lease.purpose e.call.nowSecs o)
      (hholder : o.holder = lease.holder) (htoken : o.lease.fencingToken = lease.lease.fencingToken)
      (hleads : ∀ x, ActiveFor e.call.observed lease.lease.subjectId lease.lease.purpose
        e.call.nowSecs x → x.lease.fencingToken ≤ lease.lease.fencingToken)

/-- An answered acquisition is sound, as whichever call it was made. -/
theorem sound_of_answered {r : AcquireRequest} {c base c' : LeaseCoordinator}
    {status : FencingRebaseStatus} {outcome : AcquireOutcome} {call : Call}
    (hrebased : Rebased c r.existingLeases base status)
    (hanswered : r.Answered blake3 base status c' outcome)
    (hobserved : call.observed = r.existingLeases) (hnow : call.nowSecs = r.nowSecs)
    (hrenewal : call.Renewal ↔ r.HeldBy r.requester) :
    c.nextSeq ≤ c'.nextSeq ∧ Served.Sound ⟨call, c, c', r.grantedLease outcome⟩ := by
  have hrefused (outcome) (hnone) :
      c.nextSeq ≤ base.nextSeq ∧ Served.Sound ⟨call, c, base, r.grantedLease outcome⟩ :=
    ⟨hrebased.le_nextSeq, .refused hnone (hobserved ▸ hrebased.nextSeq_cases)⟩
  cases hanswered with
  | fresh expiresAt hready hopen =>
    have hnew : ¬ r.HeldBy r.requester := by
      rintro ⟨⟨o, ho⟩, hall⟩
      rcases hopen with hnone | ⟨holder, ⟨-, hheld⟩, hne, -⟩
      · exact hnone o ho
      · exact hne ((hheld o ho).symm.trans (hall o ho))
    exact ⟨hrebased.le_nextSeq.trans (Nat.le_succ _),
      .fresh _ rfl (mt hrenewal.mp hnew) hrebased.le_nextSeq rfl
        (hobserved ▸ hrebased.token_lt hready)⟩
  | renewed current expiresAt hactive hholder =>
    refine ⟨hrebased.le_nextSeq, .renewed _ current rfl ?_ ?_ hholder rfl ?_⟩
    · exact hrenewal.mpr (AcquireRequest.heldBy_iff.mpr ⟨current, hactive, hholder⟩)
    · rw [hobserved, hnow]
      exact AcquireRequest.competes_of_active_eq hactive
    · rw [hobserved, hnow]
      exact fun x hx => AcquireRequest.token_le_of_active_eq hactive hx
  | rejected reason hopen | denied current hactive hholder hkept => exact hrefused _ rfl
  | conflict hactive hsome => exact hrefused _ rfl

theorem grantedLease_outcome (q : SignedLeaseIssueRequest) (outcome : AcquireOutcome) :
    (q.outcome outcome).grantedLease = q.acquisition.grantedLease outcome := by
  cases outcome <;> rfl

/-- One call moves the cursor forward only and is sound. -/
theorem serve_sound (blake3 : List UInt8 → Bytes 32) (c : LeaseCoordinator) (call : Call) :
    c.nextSeq ≤ (c.serve blake3 call).1.nextSeq ∧
      Served.Sound ⟨call, c, (c.serve blake3 call).1, (c.serve blake3 call).2⟩ := by
  cases call with
  | acquire r =>
    rw [serve]
    cases hacquire : c.acquire blake3 r with
    | none => exact ⟨le_rfl, .refused rfl (.inl rfl)⟩
    | some result =>
      obtain ⟨base, status, hrebased, hanswered⟩ := AcquireRequest.acquire_answered hacquire
      exact sound_of_answered hrebased hanswered rfl rfl Iff.rfl
  | issueSignedLease q =>
    rw [serve, issueSignedLease]
    cases (q.hrwRejection blake3).or q.quorumRejection with
    | some reason => exact ⟨le_rfl, .refused rfl (.inl rfl)⟩
    | none =>
      cases hacquire : c.acquire blake3 q.acquisition with
      | none => exact ⟨le_rfl, .refused rfl (.inl rfl)⟩
      | some result =>
        obtain ⟨base, status, hrebased, hanswered⟩ := AcquireRequest.acquire_answered hacquire
        simp only [Option.map_some, grantedLease_outcome]
        exact sound_of_answered hrebased hanswered rfl rfl Iff.rfl
  | renew r =>
    refine ⟨le_rfl, ?_⟩
    rw [serve]
    cases hrenew : c.renew r with
    | none => exact .refused rfl (.inl rfl)
    | some answer =>
      obtain ⟨ttl, -, hfor⟩ := Option.map_eq_some_iff.mp hrenew
      cases houtcome : answer.1 with
      | denied reason => exact .refused (by simp [houtcome, RenewRequest.renewedLease]) (.inl rfl)
      | renewed expiresAt =>
        have hsucceeds : ∃ expiresAt, (renewFor r ttl).1 = .renewed expiresAt :=
          ⟨expiresAt, hfor ▸ houtcome⟩
        obtain ⟨⟨o, ho, hholder, htoken⟩, hleads⟩ := RenewRequest.renewed_iff.mp hsucceeds
        exact .renewed ⟨r.requester, r.subjectId, r.purpose, expiresAt, r.heldFencingToken⟩ o
          (by simp [houtcome, RenewRequest.renewedLease]) trivial ho hholder htoken hleads

theorem mem_trace {c : LeaseCoordinator} {calls : List Call} {e : Served}
    (he : e ∈ c.trace blake3 calls) : c.nextSeq ≤ e.before.nextSeq ∧ e.Sound := by
  induction calls generalizing c with
  | nil => exact absurd he List.not_mem_nil
  | cons call calls ih =>
    obtain ⟨hle, hsound⟩ := c.serve_sound blake3 call
    rcases List.mem_cons.mp he with rfl | he
    · exact ⟨le_rfl, hsound⟩
    · exact ⟨hle.trans (ih he).1, (ih he).2⟩

/-- Every call of a run starts at or behind the cursor that each earlier one left. -/
theorem pairwise_trace (c : LeaseCoordinator) (calls : List Call) :
    (c.trace blake3 calls).Pairwise (fun e e' => e.after.nextSeq ≤ e'.before.nextSeq) := by
  induction calls generalizing c with
  | nil => exact List.Pairwise.nil
  | cons call calls ih => exact List.pairwise_cons.mpr ⟨fun e he => (mem_trace he).1, ih _⟩

namespace Served

variable {e : Served} {lease : ObservedLeaseAuthority}

/-- A new token is the one at the cursor, past every observed token. -/
theorem Sound.of_fresh (h : e.Sound) (hfresh : e.Fresh lease) :
    e.before.nextSeq ≤ lease.lease.fencingToken ∧
      e.after.nextSeq = lease.lease.fencingToken + 1 ∧
      ∀ o ∈ e.call.observed, o.lease.fencingToken < lease.lease.fencingToken := by
  obtain ⟨hlease, hnew⟩ := hfresh
  cases h with
  | refused hnone _ => simp [hlease] at hnone
  | fresh lease' hlease' _ hle hcursor hlt =>
    cases hlease.symm.trans hlease'
    exact ⟨hle, hcursor, hlt⟩
  | renewed _ _ _ hrenewal => exact absurd hrenewal hnew

/-- A renewed lease is observed as active and leads its subject and purpose. -/
theorem Sound.of_renewal (h : e.Sound) (hlease : e.lease = some lease) (hrenewal : e.call.Renewal) :
    (∃ o, ActiveFor e.call.observed lease.lease.subjectId lease.lease.purpose e.call.nowSecs o ∧
      o.holder = lease.holder ∧ o.lease.fencingToken = lease.lease.fencingToken) ∧
    ∀ x, ActiveFor e.call.observed lease.lease.subjectId lease.lease.purpose e.call.nowSecs x →
      x.lease.fencingToken ≤ lease.lease.fencingToken := by
  cases h with
  | refused hnone _ => simp [hlease] at hnone
  | fresh _ _ hnew => exact absurd hrenewal hnew
  | renewed lease' o hlease' _ ho hholder htoken hleads =>
    cases hlease.symm.trans hlease'
    exact ⟨⟨o, ho, hholder, htoken⟩, hleads⟩

end Served

/-- New tokens lie at or above the cursor that any earlier call of the run left. -/
theorem pairwise_fresh (c : LeaseCoordinator) (calls : List Call) :
    (c.trace blake3 calls).Pairwise (fun e e' => ∀ lease', e'.Fresh lease' →
      e.after.nextSeq ≤ lease'.lease.fencingToken ∧
      ∀ lease, e.Fresh lease → lease.lease.fencingToken < lease'.lease.fencingToken) := by
  refine (pairwise_trace c calls).imp_of_mem fun {e e'} he he' hcursor lease' hfresh' => ?_
  obtain ⟨hle, -, -⟩ := (mem_trace he').2.of_fresh hfresh'
  refine ⟨hcursor.trans hle, fun lease hfresh => ?_⟩
  obtain ⟨-, hafter, -⟩ := (mem_trace he).2.of_fresh hfresh
  omega

end LeaseCoordinator

end Flywheel.Mesh
