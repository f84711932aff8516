import Flywheel.Core.Ids
import Mathlib.Data.List.AList

/-!
# Post-compromise security groups

`PcsGroupState` of `fcp-core`: the members of a zone's group and the epoch secret that
every membership change and every epoch advance ratchets. The state is generic in the
32-byte values, with HKDF and BLAKE3 as operations on them, so that it can be read with
byte strings and with symbolic terms. Neither operation fails at the lengths in use.
-/

namespace Flywheel.Core

open Flywheel.Data

/-- The cryptographic operations on 32-byte values that the group uses. -/
structure PcsCrypto (σ : Type) where
  hkdf : σ → List UInt8 → σ
  hkdfSalted : σ → σ → List UInt8 → σ
  blake3 : List UInt8 → σ
  blake3With : List UInt8 → σ → σ

def pcsDomain : List UInt8 := utf8 "FCP2-PCS-"

def pcsMaxGroupSize : ℕ := 32

/-- `PcsError`, the errors of the group operations. -/
inductive PcsError
  | groupTooLarge (size max : ℕ)
  | memberNotFound (nodeId : NodeId)
  | emptyGroup
  | duplicateMember (nodeId : NodeId)
  deriving DecidableEq

structure GroupMember where
  nodeId : NodeId
  publicKey : Bytes 32
  leafIndex : UInt32
  deriving DecidableEq

structure PcsGroupState (σ : Type) where
  zoneId : ZoneId
  epoch : UInt64
  members : List GroupMember
  epochSecret : σ
  memberIndex : AList (fun _ : NodeId => ℕ)

structure EpochAdvanceResult (σ : Type) where
  previousEpoch : UInt64
  newEpoch : UInt64
  commitRef : σ

inductive MembershipChange
  | added (member : GroupMember)
  | removed (member : GroupMember)
  deriving DecidableEq

structure MembershipChangeResult (σ : Type) where
  previousEpoch : UInt64
  newEpoch : UInt64
  commitRef : σ
  change : MembershipChange

section Derivations

variable {σ : Type} (crypto : PcsCrypto σ)

/-- `u64::to_be_bytes`. -/
def epochBytes (epoch : UInt64) : List UInt8 := beBytes 8 epoch.toNat

def deriveEpochZoneKey (zoneId : ZoneId) (epochSecret : σ) (epoch : UInt64) : σ :=
  crypto.hkdf epochSecret
    (pcsDomain ++ utf8 "ZONE-KEY|" ++ utf8 zoneId ++ utf8 "|" ++ epochBytes epoch)

def deriveNextEpochSecret (currentSecret : σ) (nextEpoch : UInt64) : σ :=
  crypto.hkdf currentSecret (pcsDomain ++ utf8 "EPOCH-ADVANCE|" ++ epochBytes nextEpoch)

def derivePostRemovalSecret (currentSecret removalSalt : σ) (nextEpoch : UInt64) : σ :=
  crypto.hkdfSalted removalSalt currentSecret
    (pcsDomain ++ utf8 "REMOVAL-REKEY|" ++ epochBytes nextEpoch)

def computeRemovalSalt (nodeId : NodeId) (epoch : UInt64) : σ :=
  crypto.blake3 (pcsDomain ++ utf8 "REMOVAL-SALT|" ++ utf8 nodeId ++ utf8 "|" ++ epochBytes epoch)

def computeCommitRef (zoneId : ZoneId) (epoch : UInt64) (epochSecret : σ) : σ :=
  crypto.blake3With (pcsDomain ++ utf8 "COMMIT-REF|" ++ utf8 zoneId ++ utf8 "|" ++
    epochBytes epoch ++ utf8 "|") epochSecret

end Derivations

namespace PcsGroupState

variable {σ : Type} (crypto : PcsCrypto σ)

/-- The loop of `PcsGroupState::new` over the members from position `i` on. -/
def indexMembers : List GroupMember → ℕ → AList (fun _ : NodeId => ℕ) →
    Except PcsError (AList (fun _ : NodeId => ℕ))
  | [], _, index => .ok index
  | m :: members, i, index =>
    if (index.lookup m.nodeId).isSome then .error (.duplicateMember m.nodeId)
    else indexMembers members (i + 1) (index.insert m.nodeId i)

def new (zoneId : ZoneId) (members : List GroupMember) (initialSecret : σ) :
    Except PcsError (PcsGroupState σ) :=
  if members.isEmpty then .error .emptyGroup
  else if members.length > pcsMaxGroupSize then
    .error (.groupTooLarge members.length pcsMaxGroupSize)
  else do
    let memberIndex ← indexMembers members 0 ∅
    .ok ⟨zoneId, 0, members, initialSecret, memberIndex⟩

variable (s : PcsGroupState σ)

def isMember (nodeId : NodeId) : Bool :=
  (s.memberIndex.lookup nodeId).isSome

def deriveZoneKey : σ :=
  deriveEpochZoneKey crypto s.zoneId s.epochSecret s.epoch

/-- The commit reference of the current epoch. -/
def commitRef : σ :=
  computeCommitRef crypto s.zoneId s.epoch s.epochSecret

def advanceEpoch : PcsGroupState σ × EpochAdvanceResult σ :=
  let newEpoch := s.epoch + 1
  let newSecret := deriveNextEpochSecret crypto s.epochSecret newEpoch
  let commitRef := computeCommitRef crypto s.zoneId newEpoch newSecret
  ({ s with epoch := newEpoch, epochSecret := newSecret }, ⟨s.epoch, newEpoch, commitRef⟩)

/-- The loop of `remove_member` that moves the positions of the members from `i` on. -/
def shiftIndices : List GroupMember → ℕ → AList (fun _ : NodeId => ℕ) →
    AList (fun _ : NodeId => ℕ)
  | [], _, index => index
  | m :: members, i, index =>
    shiftIndices members (i + 1)
      (if (index.lookup m.nodeId).isSome then index.insert m.nodeId i else index)

/-- `PcsGroupState::remove_member`. The position in the index is one of the list. -/
def removeMember (nodeId : NodeId) : Except PcsError (PcsGroupState σ × MembershipChangeResult σ) :=
  match s.memberIndex.lookup nodeId with
  | none => .error (.memberNotFound nodeId)
  | some idx =>
    if s.members.length ≤ 1 then .error .emptyGroup
    else
      match s.members[idx]? with
      | none => .error (.memberNotFound nodeId)
      | some removed =>
        let members := s.members.eraseIdx idx
        let memberIndex :=
          shiftIndices (members.drop idx) idx (s.memberIndex.erase removed.nodeId)
        let removalSalt := computeRemovalSalt crypto nodeId s.epoch
        let newSecret := derivePostRemovalSecret crypto s.epochSecret removalSalt (s.epoch + 1)
        let next : PcsGroupState σ :=
          { s with members, memberIndex, epoch := s.epoch + 1, epochSecret := newSecret }
        .ok (next, ⟨s.epoch, next.epoch, next.commitRef crypto, .removed removed⟩)

def addMember (member : GroupMember) :
    Except PcsError (PcsGroupState σ × MembershipChangeResult σ) :=
  if s.members.length ≥ pcsMaxGroupSize then
    .error (.groupTooLarge (s.members.length + 1) pcsMaxGroupSize)
  else if s.isMember member.nodeId then .error (.duplicateMember member.nodeId)
  else
    let next : PcsGroupState σ :=
      { s with
        memberIndex := s.memberIndex.insert member.nodeId s.members.length
        members := s.members ++ [member]
        epoch := s.epoch + 1
        epochSecret := deriveNextEpochSecret crypto s.epochSecret (s.epoch + 1) }
    .ok (next, ⟨s.epoch, next.epoch, next.commitRef crypto, .added member⟩)

end PcsGroupState

end Flywheel.Core
