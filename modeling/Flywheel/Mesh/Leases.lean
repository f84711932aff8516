import Flywheel.Core.Ids
import Flywheel.Data.Champions

/-!
# Observed leases

The lease observations that the coordinator of `fcp-mesh` decides on. Of the active
leases only the strongest of each holder, subject and purpose counts. The node that may
take over a subject is selected by rendezvous hashing, with BLAKE3 as a parameter.
Times, tokens and lengths are `u64` values, written as natural numbers.
-/

namespace Flywheel.Mesh

open Flywheel.Core Flywheel.Data

inductive LeasePurpose
  | singletonWriter
  | operationExecution
  | coordinatorElection
  | other
  deriving DecidableEq

structure HeldLease where
  subjectId : ObjectId
  purpose : LeasePurpose
  expiresAt : ℕ
  fencingToken : ℕ
  deriving DecidableEq

def HeldLease.isActive (lease : HeldLease) (nowSecs : ℕ) : Bool := nowSecs < lease.expiresAt

structure ObservedLeaseAuthority where
  holder : NodeId
  lease : HeldLease
  deriving DecidableEq

namespace ObservedLeaseAuthority

/-- The observed lease is for this subject and purpose. -/
def IsFor (o : ObservedLeaseAuthority) (subjectId : ObjectId) (purpose : LeasePurpose) : Prop :=
  o.lease.subjectId = subjectId ∧ o.lease.purpose = purpose

instance (o : ObservedLeaseAuthority) (subjectId : ObjectId) (purpose : LeasePurpose) :
    Decidable (o.IsFor subjectId purpose) :=
  inferInstanceAs (Decidable (_ ∧ _))

/-- What `same_lease_scope` compares: holder, subject and purpose. -/
def scope (o : ObservedLeaseAuthority) : NodeId × ObjectId × LeasePurpose :=
  (o.holder, o.lease.subjectId, o.lease.purpose)

end ObservedLeaseAuthority

open ObservedLeaseAuthority

variable (observed : List ObservedLeaseAuthority)

/-- The lease is observed, for this subject and purpose, and active at this time. -/
def ActiveFor (subjectId : ObjectId)
    (purpose : LeasePurpose) (nowSecs : ℕ) (o : ObservedLeaseAuthority) : Prop :=
  o ∈ observed ∧ o.lease.isActive nowSecs = true ∧ o.IsFor subjectId purpose

/-- `compare_conflicting_leases`: by token, then by expiry, then by holder in reverse. -/
def compareConflictingLeases (left right : ObservedLeaseAuthority) : Ordering :=
  (compare left.lease.fencingToken right.lease.fencingToken).then
    ((compare left.lease.expiresAt right.lease.expiresAt).then
      (compare right.holder left.holder))

/-- The test by which `push_canonical_active` replaces a lease. -/
def supersedes (candidate existing : ObservedLeaseAuthority) : Bool :=
  compareConflictingLeases candidate existing == .gt

def pushCanonicalActive (canonical : List ObservedLeaseAuthority)
    (candidate : ObservedLeaseAuthority) : List ObservedLeaseAuthority :=
  enter scope supersedes canonical candidate

def canonicalActiveLeases (nowSecs : ℕ) : List ObservedLeaseAuthority :=
  (observed.filter fun entry => entry.lease.isActive nowSecs).foldl pushCanonicalActive []

def canonicalActiveLeasesForSubject
    (subjectId : ObjectId) (purpose : LeasePurpose) (nowSecs : ℕ) : List ObservedLeaseAuthority :=
  (canonicalActiveLeases observed nowSecs).filter fun entry => entry.IsFor subjectId purpose

def canonicalActiveLeaseCountForHolder (holder : NodeId) (nowSecs : ℕ) : ℕ :=
  ((canonicalActiveLeases observed nowSecs).filter fun entry => entry.holder = holder).length

section Hrw

variable (blake3 : List UInt8 → Bytes 32)

/-- A byte string behind its length as a little-endian `u32`, which saturates. -/
def lengthFramed (bytes : List UInt8) : List UInt8 :=
  leBytes 4 (min bytes.length (2 ^ 32 - 1)) ++ bytes

/-- `hrw_hash`: the first eight bytes of the digest as a number. -/
def hrwHash (zoneId : ZoneId) (subjectId : ObjectId) (nodeId : NodeId) : ℕ :=
  leNat ((blake3 (utf8 "FCP2-HRW-V1" ++ lengthFramed (utf8 zoneId) ++
    lengthFramed subjectId.toList ++ lengthFramed (utf8 nodeId))).toList.take 8)

/-- `select_coordinator`. `Iterator::max_by_key` returns the last of equal elements. -/
def selectCoordinator (zoneId : ZoneId) (subjectId : ObjectId) (nodes : List NodeId) :
    Option NodeId :=
  maxBy (fun m n => compare (hrwHash blake3 zoneId subjectId m) (hrwHash blake3 zoneId subjectId n))
    nodes

end Hrw

variable {observed : List ObservedLeaseAuthority} {subjectId : ObjectId} {purpose : LeasePurpose}
  {nowSecs : ℕ} {o : ObservedLeaseAuthority}

variable (left right : ObservedLeaseAuthority)

theorem token_le_of_gt (h : compareConflictingLeases left right = .gt) :
    right.lease.fencingToken ≤ left.lease.fencingToken := by
  by_contra hlt
  have hcmp : compare left.lease.fencingToken right.lease.fencingToken = .lt :=
    Nat.compare_eq_lt.mpr (by omega)
  simp [compareConflictingLeases, hcmp] at h

theorem token_le_of_ne_gt (h : compareConflictingLeases left right ≠ .gt) :
    left.lease.fencingToken ≤ right.lease.fencingToken := by
  by_contra hlt
  have hcmp : compare left.lease.fencingToken right.lease.fencingToken = .gt :=
    Nat.compare_eq_gt.mpr (by omega)
  simp [compareConflictingLeases, hcmp] at h

theorem activeFor_of_mem_canonical
    (ho : o ∈ canonicalActiveLeasesForSubject observed subjectId purpose nowSecs) :
    ActiveFor observed subjectId purpose nowSecs o := by
  obtain ⟨hcanonical, hfor⟩ := List.mem_filter.mp ho
  obtain ⟨hmem, hactive⟩ := List.mem_filter.mp (mem_of_mem_champions hcanonical)
  exact ⟨hmem, hactive, of_decide_eq_true hfor⟩

/-- Every active lease of a subject is stood for by a canonical one of its holder, with a
token at least as large. -/
theorem ActiveFor.exists_canonical (h : ActiveFor observed subjectId purpose nowSecs o) :
    ∃ current ∈ canonicalActiveLeasesForSubject observed subjectId purpose nowSecs,
      current.holder = o.holder ∧ o.lease.fencingToken ≤ current.lease.fencingToken := by
  obtain ⟨ho, hactive, hfor⟩ := h
  have hentry : o ∈ observed.filter fun entry => entry.lease.isActive nowSecs :=
    List.mem_filter.mpr ⟨ho, hactive⟩
  have hchampion : ∃ current ∈ canonicalActiveLeases observed nowSecs,
      current.scope = o.scope ∧ o.lease.fencingToken ≤ current.lease.fencingToken :=
    exists_mem_champions (fun x y h => token_le_of_gt x y (beq_iff_eq.mp h))
      (fun x y h => token_le_of_ne_gt x y (ne_of_beq_false h)) hentry
  obtain ⟨current, hmem, hscope, htoken⟩ := hchampion
  simp only [scope, Prod.mk.injEq] at hscope
  obtain ⟨hholder, hsubject, hpurpose⟩ := hscope
  refine ⟨current, List.mem_filter.mpr ⟨hmem, decide_eq_true ?_⟩, hholder, htoken⟩
  exact ⟨hsubject.trans hfor.1, hpurpose.trans hfor.2⟩

theorem pairwise_holder_canonical :
    (canonicalActiveLeasesForSubject observed subjectId purpose nowSecs).Pairwise
      (fun x y => x.holder ≠ y.holder) := by
  have hscopes : (canonicalActiveLeases observed nowSecs).Pairwise
      (fun x y => x.scope ≠ y.scope) := pairwise_champions _
  refine (hscopes.filter _).imp_of_mem fun {x y} hx hy hne hholder => hne ?_
  have hx' : x.IsFor subjectId purpose := of_decide_eq_true (List.mem_filter.mp hx).2
  have hy' : y.IsFor subjectId purpose := of_decide_eq_true (List.mem_filter.mp hy).2
  simp only [scope, hholder, hx'.1, hx'.2, hy'.1, hy'.2]

end Flywheel.Mesh
