import Flywheel.Core.Ids

/-!
# Device posture

Attestations of `fcp-core` about a device, and the requirements a zone policy puts on them. Points
in time come from a library; what is used of it is a parameter.
-/

namespace Flywheel.Core

open Flywheel.Data

/-- What is used of the library for points in time. -/
structure Chrono (Instant : Type) where
  timestampMillis : Instant → ℤ
  fromTimestampMillis : ℤ → Option Instant
  numSecondsSince : Instant → Instant → ℤ
  /-- `Utc::now`. -/
  now : Instant

inductive PostureAttributeKey
  | osType
  | osVersion
  | diskEncryption
  | firewallEnabled
  | screenLockEnabled
  | screenLockTimeout
  | antivirusActive
  | deviceManaged
  | secureBootEnabled
  | tpmPresent
  | custom (name : String)
  deriving DecidableEq

/-- `PostureAttributeValue`. Numbers are 64 bits wide. -/
inductive PostureAttributeValue
  | bool (b : Bool)
  | string (s : String)
  | number (n : Int64)
  deriving DecidableEq

namespace PostureAttributeValue

def asBool : PostureAttributeValue → Option Bool
  | bool b => some b
  | _ => none

def asStr : PostureAttributeValue → Option String
  | string s => some s
  | _ => none

def asNumber : PostureAttributeValue → Option Int64
  | number n => some n
  | _ => none

end PostureAttributeValue

open PostureAttributeValue

/-- `PostureAttestation`, as far as it is checked. -/
structure PostureAttestation (Instant : Type) where
  schema : String
  attributes : List (PostureAttributeKey × PostureAttributeValue)
  issuedAt : Instant
  expiresAt : Instant
  verifierId : String

/-- `PostureAttestation::SCHEMA`. -/
def postureSchema : String := "fcp.posture.v1"

/-- `i64::try_from(..).unwrap_or(i64::MAX)`. -/
def saturateI64 (n : UInt64) : ℤ := min n.toNat (2 ^ 63 - 1)

namespace PostureAttestation

variable {Instant : Type} (chrono : Chrono Instant) (attestation : PostureAttestation Instant)

def isExpiredAt (nowMs : UInt64) : Bool :=
  chrono.timestampMillis attestation.expiresAt ≤ saturateI64 nowMs

def getAttribute (key : PostureAttributeKey) : Option PostureAttributeValue :=
  attestation.attributes.lookup key

end PostureAttestation

/-! ### Versions -/

/-- The decimal number of a list of digits, with `value` in front. -/
def digitsValue : ℕ → List Char → Option ℕ
  | value, [] => some value
  | value, ch :: rest =>
    if ch.isDigit then digitsValue (10 * value + (ch.toNat - '0'.toNat)) rest else none

/-- `parse::<u64>`: an optional plus sign, at least one digit, and no overflow. -/
def parseU64 (text : List Char) : Option ℕ :=
  let digits := if text.head? = some '+' then text.tail else text
  if digits.isEmpty then none else (digitsValue 0 digits).filter (· < 2 ^ 64)

/-- The numbers between the dots of a version; other parts are skipped. -/
def versionParts (version : String) : List ℕ := (version.toList.splitOn '.').filterMap parseU64

/-- The loop of `version_gte`: missing parts count as zero. -/
def partsGte : List ℕ → List ℕ → Bool
  | [], [] => true
  | a :: actual, [] => if 0 < a then true else partsGte actual []
  | [], r :: required => if 0 < r then false else partsGte [] required
  | a :: actual, r :: required =>
    if r < a then true else if a < r then false else partsGte actual required

def versionGte (actual required : String) : Bool :=
  partsGte (versionParts actual) (versionParts required)

/-! ### Requirements -/

inductive PostureRequirement
  | requireTrue (attr : PostureAttributeKey)
  | requireFalse (attr : PostureAttributeKey)
  | requireEqual (attr : PostureAttributeKey) (value : String)
  | requireOneOf (attr : PostureAttributeKey) (values : List String)
  | requireMinVersion (attr : PostureAttributeKey) (minVersion : String)
  | requireMinValue (attr : PostureAttributeKey) (minValue : Int64)
  | requireMaxValue (attr : PostureAttributeKey) (maxValue : Int64)
  deriving DecidableEq

namespace PostureRequirement

/-- `attribute`. -/
def attr : PostureRequirement → PostureAttributeKey
  | requireTrue attr => attr
  | requireFalse attr => attr
  | requireEqual attr _ => attr
  | requireOneOf attr _ => attr
  | requireMinVersion attr _ => attr
  | requireMinValue attr _ => attr
  | requireMaxValue attr _ => attr

def isSatisfiedBy {Instant : Type} (requirement : PostureRequirement)
    (attestation : PostureAttestation Instant) : Bool :=
  let value := attestation.getAttribute requirement.attr
  match requirement with
  | requireTrue _ => (value.bind asBool).getD false
  | requireFalse _ => (value.bind asBool).all (! ·)
  | requireEqual _ expected => (value.bind asStr).any (· = expected)
  | requireOneOf _ values => (value.bind asStr).any (· ∈ values)
  | requireMinVersion _ minVersion =>
    (value.bind asStr).any (versionGte · minVersion)
  | requireMinValue _ minValue => (value.bind asNumber).any (minValue ≤ ·)
  | requireMaxValue _ maxValue => (value.bind asNumber).any (· ≤ maxValue)

end PostureRequirement

structure PostureRequirements where
  requirements : List PostureRequirement
  maxAttestationAgeSecs : UInt64
  allowedVerifiers : List String
  deriving DecidableEq

inductive PostureCheckResult
  | satisfied
  | attestationExpired
  | attestationTooOld
  | verifierNotAllowed
  | requirementNotMet (attr : PostureAttributeKey)
  deriving DecidableEq

def PostureRequirements.isSatisfiedByAt {Instant : Type} (chrono : Chrono Instant)
    (requirements : PostureRequirements) (attestation : PostureAttestation Instant)
    (nowMs : UInt64) : PostureCheckResult :=
  if attestation.isExpiredAt chrono nowMs then .attestationExpired
  else
    let nowDt := (chrono.fromTimestampMillis (saturateI64 nowMs)).getD chrono.now
    let ageSecs := chrono.numSecondsSince nowDt attestation.issuedAt
    if ageSecs < 0 ∨ saturateI64 requirements.maxAttestationAgeSecs < ageSecs then
      .attestationTooOld
    else if ¬ requirements.allowedVerifiers.isEmpty ∧
        attestation.verifierId ∉ requirements.allowedVerifiers then .verifierNotAllowed
    else
      match requirements.requirements.find? fun requirement =>
          ¬ requirement.isSatisfiedBy attestation with
      | some requirement => .requirementNotMet requirement.attr
      | none => .satisfied

end Flywheel.Core
