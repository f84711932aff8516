import Flywheel.Core.Ids
import Flywheel.Core.QuotientFilter
import Mathlib.Data.List.AList

/-!
# The revocation registry

`RevocationRegistry` of `fcp-core`: the exact table of revocations with one entry
for each object, the negative cache in front of it, the head pointer, and the
seals that bind the outcome of a check to the head sequence. Time stamps and
sequence numbers are only compared, so they are plain natural numbers.
-/

namespace Flywheel.Core

inductive RevocationScope
  | capability
  | issuerKey
  | nodeAttestation
  | zoneKey
  | connectorBinary
  deriving DecidableEq

/-- `RevocationObject`, without the object header and the owner signature, which
the registry does not read. -/
structure RevocationObject where
  revoked : List ObjectId
  scope : RevocationScope
  reason : String
  effectiveAt : ℕ
  expiresAt : Option ℕ
  deriving DecidableEq

def RevocationObject.isActive (r : RevocationObject) (now : ℕ) : Bool :=
  if now < r.effectiveAt then false
  else
    match r.expiresAt with
    | none => true
    | some exp => decide (now < exp)

def RevocationObject.revokes (r : RevocationObject) (objectId : ObjectId) : Bool :=
  r.revoked.contains objectId

/-- The replacement test of `add_revocation` against the entry that exists. -/
def RevocationObject.shouldReplace (revocation existing : RevocationObject) : Bool :=
  let startsNoLater := decide (revocation.effectiveAt ≤ existing.effectiveAt)
  let endsNoSooner := match revocation.expiresAt, existing.expiresAt with
    | none, _ => true
    | some _, none => false
    | some newExp, some oldExp => decide (newExp ≥ oldExp)
  let endsStrictlyLater := match revocation.expiresAt, existing.expiresAt with
    | none, some _ => true
    | some newExp, some oldExp => decide (newExp > oldExp)
    | _, _ => false
  let startsStrictlyEarlier := decide (revocation.effectiveAt < existing.effectiveAt)
  startsNoLater && endsNoSooner && (startsStrictlyEarlier || endsStrictlyLater)

structure RevocationRegistry where
  revocations : AList (fun _ : ObjectId => RevocationObject)
  quotientCache : QuotientFilter
  head : Option ObjectId
  headSeq : ℕ
  lastUpdated : ℕ

inductive RevocationDecision
  | notRevoked
  | revoked
  deriving DecidableEq

structure RevocationSeal where
  checkedAt : ℕ
  headSeq : ℕ
  tokenId : ObjectId
  decision : RevocationDecision
  deriving DecidableEq

inductive SealValidation
  | valid
  | stale (sealSeq currentSeq : ℕ)
  | tokenMismatch
  deriving DecidableEq

namespace RevocationRegistry

def withCapacity (expectedRevocations : ℕ) : RevocationRegistry :=
  ⟨∅, .withCapacity expectedRevocations, none, 0, 0⟩

def new : RevocationRegistry := ⟨∅, .new, none, 0, 0⟩

variable (reg : RevocationRegistry)

def isRevokedAt (objectId : ObjectId) (at_ : ℕ) : Bool :=
  match reg.revocations.lookup objectId with
  | none => false
  | some r => r.isActive at_

def getRevocation (objectId : ObjectId) : Option RevocationObject :=
  reg.revocations.lookup objectId

def updateHead (head : ObjectId) (seq updatedAt : ℕ) : RevocationRegistry :=
  if seq ≤ reg.headSeq ∧ reg.head.isSome then reg
  else { reg with head := some head, headSeq := seq, lastUpdated := updatedAt }

def clear : RevocationRegistry :=
  ⟨∅, reg.quotientCache.clear, none, 0, 0⟩

def validateSeal (issued : RevocationSeal) (expectedTokenId : ObjectId) : SealValidation :=
  if issued.tokenId ≠ expectedTokenId then .tokenMismatch
  else if issued.headSeq = reg.headSeq then .valid
  else .stale issued.headSeq reg.headSeq

-- The hasher of the negative cache, `DefaultHasher` over the id's bytes.
variable (hash : ObjectId → UInt64)

/-- One round of the loop of `add_revocation`. -/
def addRevocationFor (revocation : RevocationObject) (reg : RevocationRegistry)
    (objectId : ObjectId) : RevocationRegistry :=
  let shouldReplace := match reg.revocations.lookup objectId with
    | none => true
    | some existing => revocation.shouldReplace existing
  if shouldReplace then
    { reg with
      revocations := reg.revocations.insert objectId revocation
      quotientCache := (reg.quotientCache.insert hash objectId).1 }
  else reg

variable (reg : RevocationRegistry)

def addRevocation (revocation : RevocationObject) : RevocationRegistry :=
  revocation.revoked.foldl (addRevocationFor hash revocation) reg

def isRevoked (objectId : ObjectId) : Bool :=
  if !reg.quotientCache.mayContain hash objectId then false
  else (reg.revocations.lookup objectId).isSome

def checkWithSeal (tokenId : ObjectId) (now : ℕ) : RevocationSeal where
  checkedAt := now
  headSeq := reg.headSeq
  tokenId := tokenId
  decision := if reg.isRevoked hash tokenId then .revoked else .notRevoked

end RevocationRegistry

end Flywheel.Core
