import Flywheel.Mesh.LeaseAcquire

/-!
# What the lease calls answer

One inversion lemma for each call of the coordinator. The rebase moves the cursor
forward only, and past every observed token when it is ready. A renewal succeeds exactly
for an active lease whose token leads the active leases of its subject and purpose. An
acquisition is answered in one of five ways, decided by the active holders.
-/

namespace Flywheel.Mesh

open Flywheel.Core Flywheel.Data LeaseCoordinator List

namespace LeaseCoordinator

variable {c : LeaseCoordinator} {observed : List ObservedLeaseAuthority}

/-- What a rebase does to the cursor. -/
structure Rebased (c : LeaseCoordinator) (observed : List ObservedLeaseAuthority)
    (base : LeaseCoordinator) (status : FencingRebaseStatus) : Prop where
  config_eq : base.config = c.config
  le_nextSeq : c.nextSeq ≤ base.nextSeq
  nextSeq_cases : base.nextSeq = c.nextSeq ∨
    ∃ o ∈ observed, base.nextSeq = o.lease.fencingToken + 1
  token_lt : status = .ready → ∀ o ∈ observed, o.lease.fencingToken < base.nextSeq

/-- `rebase_next_seq` does what a rebase may do. -/
theorem rebaseNextSeq_rebased (c : LeaseCoordinator) (observed : List ObservedLeaseAuthority) :
    Rebased c observed (c.rebaseNextSeq observed).1 (c.rebaseNextSeq observed).2 := by
  have hstay (status)
      (hready) :
      Rebased c observed c status := ⟨rfl, le_rfl, .inl rfl, hready⟩
  unfold rebaseNextSeq
  cases hmax : (observed.map fun o => o.lease.fencingToken).max? with
  | none =>
    have hnil : observed = [] := map_eq_nil_iff.mp (max?_eq_none_iff.mp hmax)
    apply hstay
    rintro - o ho
    exact absurd (hnil ▸ ho) not_mem_nil
  | some maxObserved =>
    obtain ⟨hmem, hmost⟩ := max?_eq_some_iff.mp hmax
    obtain ⟨witness, hwitness, htoken⟩ := mem_map.mp hmem
    have hle := fun o ho => hmost _ (mem_map_of_mem (a := o) ho)
    unfold checkedSucc
    by_cases hroom : maxObserved < u64Max
    · simp only [if_pos hroom]
      split_ifs with hahead hdrift
      · exact hstay _ nofun
      · refine ⟨rfl, hahead.le, .inr ⟨witness, hwitness, by rw [htoken]⟩, fun _ o ho => ?_⟩
        exact Nat.lt_succ_of_le (hle o ho)
      · apply hstay
        intro _ o ho
        have := hle o ho
        omega
    · simp only [if_neg hroom]
      exact hstay _ nofun

end LeaseCoordinator

namespace RenewRequest

variable {r : RenewRequest}

/-- A lease of the subject and purpose of the request that is active at its time. -/
def Competes (r : RenewRequest) (o : ObservedLeaseAuthority) : Prop :=
  ActiveFor r.existingLeases r.subjectId r.purpose r.nowSecs o

/-- The requester holds an active lease with the claimed token. -/
def Holds (r : RenewRequest) : Prop :=
  ∃ o, r.Competes o ∧ o.holder = r.requester ∧ o.lease.fencingToken = r.heldFencingToken

/-- No active lease has a larger token than the claimed one. -/
def Leads (r : RenewRequest) : Prop :=
  ∀ o, r.Competes o → o.lease.fencingToken ≤ r.heldFencingToken

theorem held_isSome_iff : r.held.isSome ↔ r.Holds := by
  unfold held
  rw [find?_isSome]
  constructor
  · rintro ⟨o, ho, hmatch⟩
    obtain ⟨hholder, hsubject, hpurpose, htoken, hactive⟩ := of_decide_eq_true hmatch
    exact ⟨o, ⟨ho, hactive, hsubject, hpurpose⟩, hholder, htoken⟩
  · rintro ⟨o, ⟨ho, hactive, hsubject, hpurpose⟩, hholder, htoken⟩
    exact ⟨o, ho, decide_eq_true ⟨hholder, hsubject, hpurpose, htoken, hactive⟩⟩

/-- The claimed token is below the largest active one exactly if the request does not lead. -/
theorem lt_maxActiveToken_iff : r.heldFencingToken < r.maxActiveToken ↔ ¬ r.Leads := by
  have hleads : r.Leads ↔ ∀ token ∈ (r.existingLeases.filter fun obs =>
      decide (obs.IsFor r.subjectId r.purpose) && obs.lease.isActive r.nowSecs).map
        (fun obs => obs.lease.fencingToken), token ≤ r.heldFencingToken := by
    simp only [forall_mem_map, mem_filter, Bool.and_eq_true, decide_eq_true_iff, Leads, Competes,
      ActiveFor, and_comm]
  rw [← not_le, not_iff_not, hleads, maxActiveToken]
  generalize map _ _ = tokens
  cases hmax : tokens.max? with
  | none => simp [max?_eq_none_iff.mp hmax]
  | some largest => exact max?_le_iff hmax

/-- A renewal succeeds exactly if the requester holds the lease and the lease leads. -/
theorem renewed_iff {ttl : ℕ} :
    (∃ expiresAt, (renewFor r ttl).1 = .renewed expiresAt) ↔
      r.Holds ∧ r.Leads := by
  unfold renewFor
  cases hheld : r.held with
  | none =>
    have hno : ¬ r.Holds := by simp [← held_isSome_iff, hheld]
    simp [hno]
  | some held =>
    have hholds : r.Holds := held_isSome_iff.mp (by rw [hheld]; rfl)
    by_cases hlt : r.heldFencingToken < r.maxActiveToken
    · simp [hlt, lt_maxActiveToken_iff.mp hlt]
    · have hleads : r.Leads := not_not.mp (mt lt_maxActiveToken_iff.mpr hlt)
      simp [hlt, hholds, hleads]

end RenewRequest

namespace AcquireRequest

variable {blake3 : List UInt8 → Bytes 32} {r : AcquireRequest} {holder : NodeId}

/-- A lease of the subject and purpose of the request that is active at its time. -/
def Competes (r : AcquireRequest) (o : ObservedLeaseAuthority) : Prop :=
  ActiveFor r.existingLeases r.subjectId r.purpose r.nowSecs o

/-- A node is the only active holder. -/
def HeldBy (r : AcquireRequest) (holder : NodeId) : Prop :=
  (∃ o, r.Competes o) ∧ ∀ o, r.Competes o → o.holder = holder

/-- The only active holder is another node and offline, and the requester is selected. -/
def Takeover (blake3 : List UInt8 → Bytes 32) (r : AcquireRequest) (holder : NodeId) : Prop :=
  r.HeldBy holder ∧ holder ≠ r.requester ∧ holder ∉ r.eligibleNodes ∧
    r.selected blake3 = some r.requester

theorem active_eq_nil_iff : r.active = [] ↔ ∀ o, ¬ r.Competes o := by
  rw [eq_nil_iff_forall_not_mem]
  constructor
  · intro hnil o ho
    obtain ⟨current, hcurrent, -⟩ := ActiveFor.exists_canonical ho
    exact hnil current hcurrent
  · exact fun hnone o ho => hnone o (activeFor_of_mem_canonical ho)

variable {current : ObservedLeaseAuthority}

theorem competes_of_active_eq (hactive : r.active = [current]) : r.Competes current := by
  apply activeFor_of_mem_canonical
  change current ∈ r.active
  rw [hactive]
  exact mem_singleton_self current

/-- A node is the only active holder exactly if the only canonical lease is its own. -/
theorem heldBy_iff :
    r.HeldBy holder ↔ ∃ current, r.active = [current] ∧ current.holder = holder := by
  constructor
  · rintro ⟨⟨o, ho⟩, hall⟩
    have hholder (x) (hx : x ∈ r.active) : x.holder = holder :=
      hall x (activeFor_of_mem_canonical hx)
    have hdistinct : r.active.Pairwise (fun x y => x.holder ≠ y.holder) := pairwise_holder_canonical
    match hactive : r.active with
    | [] => exact absurd ho (active_eq_nil_iff.mp hactive o)
    | [current] => exact ⟨current, rfl, hholder current (by simp [hactive])⟩
    | first :: second :: rest =>
      rw [hactive] at hdistinct hholder
      refine absurd ?_ ((pairwise_cons.mp hdistinct).1 second mem_cons_self)
      rw [hholder first mem_cons_self,
        hholder second (mem_cons_of_mem first mem_cons_self)]
  · rintro ⟨current, hactive, rfl⟩
    refine ⟨⟨current, competes_of_active_eq hactive⟩, fun o ho => ?_⟩
    obtain ⟨x, hx, hholder, -⟩ := ActiveFor.exists_canonical ho
    obtain rfl : x = current := mem_singleton.mp (hactive ▸ hx)
    exact hholder.symm

theorem token_le_of_active_eq (hactive : r.active = [current])
    {o : ObservedLeaseAuthority} (ho : r.Competes o) :
    o.lease.fencingToken ≤ current.lease.fencingToken := by
  obtain ⟨x, hx, -, hle⟩ := ActiveFor.exists_canonical ho
  obtain rfl : x = current := mem_singleton.mp (hactive ▸ hx)
  exact hle

/-- The ways in which an acquisition is answered, from the rebased coordinator. -/
inductive Answered (blake3 : List UInt8 → Bytes 32) (r : AcquireRequest) (base : LeaseCoordinator)
    (status : FencingRebaseStatus) : LeaseCoordinator → AcquireOutcome → Prop
  /-- A new token, for a subject without holder or in a takeover. -/
  | fresh (expiresAt : ℕ) (hready : status = .ready)
      (hopen : (∀ o, ¬ r.Competes o) ∨ ∃ holder, r.Takeover blake3 holder) :
      Answered blake3 r base status { base with nextSeq := base.nextSeq + 1 }
        (.granted base.nextSeq expiresAt)
  | renewed (current : ObservedLeaseAuthority) (expiresAt : ℕ) (hactive : r.active = [current])
      (hholder : current.holder = r.requester) :
      Answered blake3 r base status base (.granted current.lease.fencingToken expiresAt)
  | rejected (reason : String)
      (hopen : (∀ o, ¬ r.Competes o) ∨ ∃ holder, r.Takeover blake3 holder) :
      Answered blake3 r base status base (.rejected reason)
  | denied (current : ObservedLeaseAuthority) (hactive : r.active = [current])
      (hholder : current.holder ≠ r.requester) (hkept : ¬ r.Takeover blake3 current.holder) :
      Answered blake3 r base status base (denyOutcome current)
  | conflict (hactive : ∀ holder, ¬ r.HeldBy holder) (hsome : ∃ o, r.Competes o) :
      Answered blake3 r base status base (conflictOutcome r.active)

variable {events : List AuthorityTimelineEvent}

/-- Behind the rebase, an acquisition is answered in one of the five ways. -/
theorem acquireFrom_answered {base c' : LeaseCoordinator} {status : FencingRebaseStatus} {ttl : ℕ}
    {outcome : AcquireOutcome}
    (h : base.acquireFrom blake3 status r ttl r.active = some (c', outcome, events)) :
    r.Answered blake3 base status c' outcome := by
  have hgrant (texts)
      (hopen : (∀ o, ¬ r.Competes o) ∨ ∃ holder, r.Takeover blake3 holder)
      (h : base.grantFresh blake3 status r ttl texts = (c', outcome, events)) :
      r.Answered blake3 base status c' outcome := by
    unfold grantFresh at h
    cases hreason : status.rejectionReason with
    | some reason =>
      rw [hreason] at h
      cases h
      exact .rejected _ hopen
    | none =>
      have hready : status = .ready := by
        cases status <;> simp_all [FencingRebaseStatus.rejectionReason]
      rw [hreason] at h
      unfold nextFencingToken checkedSucc at h
      dsimp only at h
      split_ifs at h <;> cases h
      · exact .rejected _ hopen
      · exact .fresh _ hready hopen
      · exact .rejected _ hopen
  match hactive : r.active with
  | [] =>
    rw [hactive, acquireFrom, Option.some.injEq] at h
    exact hgrant _ (.inl (active_eq_nil_iff.mp hactive)) h
  | [current] =>
    rw [hactive, acquireFrom] at h
    split_ifs at h with hholder hoffline
    · obtain ⟨renewal, hrenewal, heq⟩ := Option.map_eq_some_iff.mp h
      obtain ⟨ttl', -, rfl⟩ := Option.map_eq_some_iff.mp hrenewal
      obtain ⟨expiresAt, hrenewed⟩ :=
        (RenewRequest.renewed_iff (r := r.renewal current.lease.fencingToken ttl)).mpr
          ⟨⟨current, competes_of_active_eq hactive, hholder, rfl⟩,
            fun o ho => token_le_of_active_eq hactive ho⟩
      rw [hrenewed] at heq
      cases heq
      exact .renewed current expiresAt hactive hholder
    · have hheld : r.HeldBy current.holder := heldBy_iff.mpr ⟨current, hactive, rfl⟩
      exact hgrant _ (.inr ⟨current.holder, hheld, hholder, hoffline⟩) (Option.some.inj h)
    · cases h
      exact .denied current hactive hholder fun htake => hoffline htake.2.2
  | first :: second :: rest =>
    rw [hactive] at h
    cases h
    rw [← hactive]
    refine .conflict (fun holder hheld => ?_) ⟨first, ?_⟩
    · obtain ⟨current, hsingle, -⟩ := heldBy_iff.mp hheld
      simp [hsingle] at hactive
    · exact activeFor_of_mem_canonical (show first ∈ r.active by simp [hactive])

/-- `acquire` answers in one of the five ways, from the rebased coordinator. -/
theorem acquire_answered {c c' : LeaseCoordinator} {outcome : AcquireOutcome}
    (h : c.acquire blake3 r = some (c', outcome, events)) :
    ∃ base status, Rebased c r.existingLeases base status ∧
      r.Answered blake3 base status c' outcome := by
  obtain ⟨ttl, -, hfrom⟩ := Option.bind_eq_some_iff.mp h
  exact ⟨_, _, c.rebaseNextSeq_rebased r.existingLeases, acquireFrom_answered hfrom⟩

end AcquireRequest

end Flywheel.Mesh
