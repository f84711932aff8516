import Flywheel.Mesh.Fencing
import Mathlib.Data.List.Pairwise

/-!
# One holder at a time

Runs of one coordinator whose callers observe every lease that was granted before. A
lease that is granted or renewed leads the unexpired leases of its subject and purpose.
Another node is turned away while the lease lasts, unless the holder is offline and the
node is selected to take over. A holder that is superseded cannot renew while the
superseding lease lasts, and of the holders of granted leases only one can renew.
-/

namespace Flywheel.Mesh

open Flywheel.Core Flywheel.Data

variable {blake3 : List UInt8 → Bytes 32} {observed : List ObservedLeaseAuthority}
  {g : ObservedLeaseAuthority}

/-- The observed leases include a granted one, at its expiry or a later one. -/
def Includes (observed : List ObservedLeaseAuthority) (g : ObservedLeaseAuthority) : Prop :=
  ∃ o ∈ observed, o.scope = g.scope ∧ o.lease.fencingToken = g.lease.fencingToken ∧
    g.lease.expiresAt ≤ o.lease.expiresAt

instance (observed : List ObservedLeaseAuthority) (g : ObservedLeaseAuthority) :
    Decidable (Includes observed g) :=
  inferInstanceAs (Decidable (∃ o ∈ observed, _ ∧ _ ∧ _))

/-- An included lease that is unexpired is observed as active, for the same holder and
under the same token. -/
theorem Includes.exists_activeFor (h : Includes observed g) {subjectId : ObjectId}
    {purpose : LeasePurpose} {nowSecs : ℕ} (hfor : g.IsFor subjectId purpose)
    (hactive : g.lease.isActive nowSecs = true) :
    ∃ o, ActiveFor observed subjectId purpose nowSecs o ∧ o.holder = g.holder ∧
      o.lease.fencingToken = g.lease.fencingToken := by
  obtain ⟨o, ho, hscope, htoken, hexpires⟩ := h
  simp only [ObservedLeaseAuthority.scope, Prod.mk.injEq] at hscope
  obtain ⟨hholder, hsubject, hpurpose⟩ := hscope
  have hlasts : nowSecs < g.lease.expiresAt := of_decide_eq_true hactive
  refine ⟨o, ⟨ho, decide_eq_true (hlasts.trans_le hexpires), ?_⟩, hholder, htoken⟩
  exact ⟨hsubject.trans hfor.1, hpurpose.trans hfor.2⟩

namespace LeaseCoordinator

/-- Every lease that a call gave is included in the observations of every later call. -/
def Observant (run : List Served) : Prop :=
  run.Pairwise (fun e e' => ∀ g ∈ e.lease, Includes e'.call.observed g)

instance (run : List Served) : Decidable (Observant run) :=
  inferInstanceAs (Decidable (run.Pairwise _))

/-- The leases that the calls of a run gave. -/
def leases (run : List Served) : List ObservedLeaseAuthority := run.filterMap (·.lease)

def final (blake3 : List UInt8 → Bytes 32) (c : LeaseCoordinator) (calls : List Call) :
    LeaseCoordinator :=
  calls.foldl (fun c call => (c.serve blake3 call).1) c

variable {c : LeaseCoordinator}

/-- Two calls of a run that draw the same token give the same lease. -/
theorem fresh_unique {calls : List Call} {e e' : Served}
    {g g' : ObservedLeaseAuthority} (he : e ∈ c.trace blake3 calls)
    (he' : e' ∈ c.trace blake3 calls) (hg : e.Fresh g) (hg' : e'.Fresh g')
    (htoken : g.lease.fencingToken = g'.lease.fencingToken) : g = g' := by
  let R (e e' : Served) : Prop := ∀ g g', e.Fresh g → e'.Fresh g' →
    g.lease.fencingToken = g'.lease.fencingToken → g = g'
  have hsymm : Std.Symm R := ⟨fun e e' h g g' hg hg' heq => (h g' g hg' hg heq.symm).symm⟩
  have hself : ∀ e ∈ c.trace blake3 calls, R e e :=
    fun e _ g g' hg hg' _ => Option.some.inj (hg.1.symm.trans hg'.1)
  have hrun : (c.trace blake3 calls).Pairwise R :=
    (pairwise_fresh c calls).imp fun {e e'} h g g' hg hg' heq =>
      absurd heq ((h g' hg').2 g hg).ne
  exact hrun.forall_of_forall hself he he' g g' hg hg' htoken

variable {events : List AuthorityTimelineEvent}

/-- While an included lease lasts, an acquisition by another node is denied or a conflict,
or it is a takeover from the holder. -/
theorem acquire_of_includes {c' : LeaseCoordinator} {r : AcquireRequest} {outcome : AcquireOutcome}
    (hincludes : Includes r.existingLeases g) (hfor : g.IsFor r.subjectId r.purpose)
    (hactive : g.lease.isActive r.nowSecs = true) (hother : g.holder ≠ r.requester)
    (h : c.acquire blake3 r = some (c', outcome, events)) :
    (∃ token expiresAt reason, outcome = .denied g.holder token expiresAt reason ∧
      g.lease.fencingToken ≤ token) ∨
    (∃ holders tokens reason, outcome = .conflict holders tokens reason ∧ g.holder ∈ holders) ∨
    (r.Takeover blake3 g.holder ∧ ((∃ reason, outcome = .rejected reason) ∨
      ∃ token expiresAt, outcome = .granted token expiresAt ∧
        ∀ o ∈ r.existingLeases, o.lease.fencingToken < token)) := by
  obtain ⟨o, ho, hholder, htoken⟩ := hincludes.exists_activeFor hfor hactive
  have htakeover (hopen : (∀ o, ¬ r.Competes o) ∨ ∃ holder, r.Takeover blake3 holder) :
      r.Takeover blake3 g.holder := by
    rcases hopen with hnone | ⟨holder, htake⟩
    · exact absurd ho (hnone o)
    · rwa [← hholder, htake.1.2 o ho]
  obtain ⟨base, status, hrebased, hanswered⟩ := AcquireRequest.acquire_answered h
  cases hanswered with
  | fresh expiresAt hready hopen =>
    exact .inr (.inr ⟨htakeover hopen, .inr ⟨_, _, rfl, hrebased.token_lt hready⟩⟩)
  | renewed current expiresAt hsingle hheld =>
    have honly := AcquireRequest.heldBy_iff.mpr ⟨current, hsingle, hheld⟩
    exact absurd (hholder.symm.trans (honly.2 o ho)) hother
  | rejected reason hopen => exact .inr (.inr ⟨htakeover hopen, .inl ⟨reason, rfl⟩⟩)
  | denied current hsingle hheld hkept =>
    have honly := AcquireRequest.heldBy_iff.mpr ⟨current, hsingle, rfl⟩
    have hsame : current.holder = g.holder := (honly.2 o ho).symm.trans hholder
    refine .inl ⟨_, _, _, by rw [denyOutcome, hsame], ?_⟩
    exact htoken ▸ AcquireRequest.token_le_of_active_eq hsingle ho
  | conflict hseveral hsome =>
    obtain ⟨current, hmem, hsame, -⟩ := ActiveFor.exists_canonical ho
    refine .inr (.inl ⟨_, _, _, rfl, List.mem_map.mpr ⟨current, hmem, hsame.trans hholder⟩⟩)

variable {r : RenewRequest}

theorem holds_and_leads_of_renew {expiresAt : ℕ}
    (h : c.renew r = some (.renewed expiresAt, events)) :
    r.Holds ∧ r.Leads := by
  obtain ⟨ttl, -, hfor⟩ := Option.map_eq_some_iff.mp h
  exact RenewRequest.renewed_iff.mp ⟨expiresAt, by rw [hfor]⟩

/-- In a run whose calls observe all leases given before, a new token exceeds all earlier
ones and a renewed one leads the unexpired leases of its subject and purpose. While a
lease lasts, other nodes are denied or meet a conflict, unless they take over from an
offline holder, and nobody with a smaller token can renew. Where only leases under tokens
of the run are observed, one holder at most can renew. -/
theorem run_exclusive (config : LeaseCoordinatorConfig) (calls : List Call)
    (hobservant : Observant ((new config).trace blake3 calls)) :
    ((new config).trace blake3 calls).Pairwise (fun e e' => ∀ g g', e.lease = some g →
      e'.lease = some g' →
      (e'.Fresh g' → g.lease.fencingToken < g'.lease.fencingToken) ∧
      (g.IsFor g'.lease.subjectId g'.lease.purpose →
        g.lease.isActive e'.call.nowSecs = true →
        g.lease.fencingToken ≤ g'.lease.fencingToken)) ∧
    (∀ r : AcquireRequest,
      (∀ g ∈ leases ((new config).trace blake3 calls), Includes r.existingLeases g) →
      ∀ g ∈ leases ((new config).trace blake3 calls), g.IsFor r.subjectId r.purpose →
      g.lease.isActive r.nowSecs = true → g.holder ≠ r.requester →
      ∀ c' outcome events, (final blake3 (new config) calls).acquire blake3 r =
        some (c', outcome, events) →
      (∃ token expiresAt reason, outcome = .denied g.holder token expiresAt reason ∧
        g.lease.fencingToken ≤ token) ∨
      (∃ holders tokens reason, outcome = .conflict holders tokens reason ∧
        g.holder ∈ holders) ∨
      (r.Takeover blake3 g.holder ∧ ((∃ reason, outcome = .rejected reason) ∨
        ∃ token expiresAt, outcome = .granted token expiresAt ∧
          ∀ g' ∈ leases ((new config).trace blake3 calls), g'.lease.fencingToken < token))) ∧
    (∀ r : RenewRequest,
      (∀ g ∈ leases ((new config).trace blake3 calls), Includes r.existingLeases g) →
      ∀ g ∈ leases ((new config).trace blake3 calls), g.IsFor r.subjectId r.purpose →
      g.lease.isActive r.nowSecs = true → r.heldFencingToken < g.lease.fencingToken →
      ∀ answer, (final blake3 (new config) calls).renew r = some answer →
        ∃ reason, answer.1 = .denied reason) ∧
    (∀ r r' : RenewRequest, (∀ o, r.Competes o ↔ r'.Competes o) →
      (∀ o ∈ r.existingLeases, ∃ e ∈ (new config).trace blake3 calls, ∃ g, e.Fresh g ∧
        g.scope = o.scope ∧ g.lease.fencingToken = o.lease.fencingToken) →
      ∀ expiresAt expiresAt' events events',
      (final blake3 (new config) calls).renew r = some (.renewed expiresAt, events) →
      (final blake3 (new config) calls).renew r' = some (.renewed expiresAt', events') →
      r.requester = r'.requester) := by
  refine ⟨hobservant.imp_of_mem fun {e e'} _ he' hincludes g g' hg hg' => ?_, ?_, ?_, ?_⟩
  · have hincluded : Includes e'.call.observed g := hincludes g hg
    obtain ⟨-, hsound⟩ := mem_trace he'
    have hfresh (hfresh : e'.Fresh g') : g.lease.fencingToken < g'.lease.fencingToken := by
      obtain ⟨o, ho, -, htoken, -⟩ := hincluded
      exact htoken ▸ (hsound.of_fresh hfresh).2.2 o ho
    refine ⟨hfresh, fun hfor hactive => ?_⟩
    by_cases hrenewal : e'.call.Renewal
    · obtain ⟨o, ho, -, htoken⟩ := hincluded.exists_activeFor hfor hactive
      exact htoken ▸ (hsound.of_renewal hg' hrenewal).2 o ho
    · exact (hfresh ⟨hg', hrenewal⟩).le
  · intro r hall g hg hfor hactive hother c' outcome events h
    have hanswer := acquire_of_includes (hall g hg) hfor hactive hother h
    refine hanswer.imp_right (Or.imp_right (And.imp_right (Or.imp_right ?_)))
    rintro ⟨token, expiresAt, hgranted, hlt⟩
    refine ⟨token, expiresAt, hgranted, fun g' hg' => ?_⟩
    obtain ⟨o, ho, -, htoken, -⟩ := hall g' hg'
    exact htoken ▸ hlt o ho
  · intro r hall g hg hfor hactive hlt answer h
    obtain ⟨ttl, -, rfl⟩ := Option.map_eq_some_iff.mp h
    obtain ⟨o, ho, -, htoken⟩ := (hall g hg).exists_activeFor hfor hactive
    cases houtcome : (renewFor r ttl).1 with
    | denied reason => exact ⟨reason, rfl⟩
    | renewed expiresAt =>
      have hle := (RenewRequest.renewed_iff.mp ⟨expiresAt, houtcome⟩).2 o ho
      omega
  · intro r r' hsame hgranted expiresAt expiresAt' events events' h h'
    obtain ⟨⟨o, ho, hholder, htoken⟩, hleads⟩ := holds_and_leads_of_renew h
    obtain ⟨⟨o', ho', hholder', htoken'⟩, hleads'⟩ := holds_and_leads_of_renew h'
    rw [← hsame] at ho'
    have hle := hleads o' ho'
    have hle' := hleads' o ((hsame o).mp ho)
    obtain ⟨e, he, g, hg, hscope, hgtoken⟩ := hgranted o ho.1
    obtain ⟨e', he', g', hg', hscope', hgtoken'⟩ := hgranted o' ho'.1
    -- both leases stem from the one grant that drew their token
    obtain rfl : g = g' := fresh_unique he he' hg hg' (by omega)
    have hholders : o.holder = o'.holder := congrArg Prod.fst (hscope.symm.trans hscope')
    rw [← hholder, ← hholder', hholders]

/-- A hash under which the last eligible node is selected. -/
def flatHash (_ : List UInt8) : Bytes 32 := List.Vector.replicate 32 0

def ledger : ObjectId := List.Vector.replicate 32 7

def ledgerLease (holder : NodeId) (expiresAt token : ℕ) : ObservedLeaseAuthority :=
  ⟨holder, ledger, .singletonWriter, expiresAt, token⟩

def ledgerRequest (requester : NodeId) (observed : List ObservedLeaseAuthority)
    (eligibleNodes : List NodeId) (nowSecs ttl : ℕ) : AcquireRequest :=
  ⟨requester, "z:work", ledger, .singletonWriter, observed, eligibleNodes, nowSecs, some ttl⟩

def ledgerRenewal (requester : NodeId) (token : ℕ) (observed : List ObservedLeaseAuthority)
    (nowSecs : ℕ) : RenewRequest :=
  ⟨requester, ledger, .singletonWriter, token, observed, nowSecs, some 100⟩

/-- Node `a` gets a long lease, goes offline, and `b` takes over with a short lease. -/
def handoffCalls : List Call :=
  [.acquire (ledgerRequest "a" [] ["a", "b"] 0 3600),
    .acquire (ledgerRequest "b" [ledgerLease "a" 3600 1] ["b"] 10 10)]

/-- The leases that the two calls give. -/
def handoffLeases : List ObservedLeaseAuthority := [ledgerLease "a" 3600 1, ledgerLease "b" 20 2]

/-- The run of the handoff observes what it grants, and while the lease of `b` lasts,
`a` cannot renew. -/
theorem handoff_exclusive :
    Observant ((new .default).trace flatHash handoffCalls) ∧
    ∀ answer, (final flatHash (new .default) handoffCalls).renew
        (ledgerRenewal "a" 1 handoffLeases 15) = some answer →
      ∃ reason, answer.1 = .denied reason := by
  have hobservant : Observant ((new .default).trace flatHash handoffCalls) := by decide +kernel
  have hleases : leases ((new .default).trace flatHash handoffCalls) = handoffLeases := by
    decide +kernel
  refine ⟨hobservant, ?_⟩
  apply (run_exclusive .default handoffCalls hobservant).2.2.1
    (ledgerRenewal "a" 1 handoffLeases 15)
    (by rw [hleases]; decide +kernel) (ledgerLease "b" 20 2) (by rw [hleases]; decide +kernel)
  · exact ⟨rfl, rfl⟩
  · rfl
  · decide

/-- In an observant run: `b` is granted a takeover while the lease of `a` lasts, and `a`
renews its superseded lease once that of `b` has expired. A request of `b` while `a` is
online is denied, which is not a conflict. And two holders that are observed under the
same token can both renew. -/
theorem handoff_and_superseded_renewal :
    Observant ((new .default).trace flatHash
      (handoffCalls ++ [.renew (ledgerRenewal "a" 1 handoffLeases 30)])) ∧
    leases ((new .default).trace flatHash
      (handoffCalls ++ [.renew (ledgerRenewal "a" 1 handoffLeases 30)])) =
      handoffLeases ++ [ledgerLease "a" 3600 1] ∧
    (((final flatHash (new .default) (handoffCalls.take 1)).acquire flatHash
      (ledgerRequest "b" [ledgerLease "a" 3600 1] ["a", "b"] 10 10)).map fun result =>
        match result.2.1 with
        | .denied holder token _ _ => (holder, token)
        | _ => ("", 0)) = some ("a", 1) ∧
    ∀ node ∈ ["a", "b"], ((final flatHash (new .default) (handoffCalls.take 1)).renew
      (ledgerRenewal node 1 [ledgerLease "a" 3600 1, ledgerLease "b" 3600 1] 10)).map
        (fun answer => answer.1) = some (.renewed 3600) := by
  decide +kernel

end LeaseCoordinator

end Flywheel.Mesh
