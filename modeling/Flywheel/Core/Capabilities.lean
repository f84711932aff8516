import Flywheel.Core.PolicyPatterns
import Flywheel.Core.ZoneIds

/-!
# Canonical identifiers and capability constraints

Principals, connectors, operations and capabilities are named by canonical identifiers, which are
checked wherever they are made. A capability token carries constraints; the verifier of `fcp-core`
compares the resources of a request with the patterns in them.
-/

namespace Flywheel.Core

open Flywheel.Data

/-! ### Identifiers -/

inductive IdValidationError
  | empty
  | tooLong (len max : ℕ)
  | nonAscii
  | uppercaseNotAllowed
  | invalidStartChar (ch : Char)
  | invalidChar (ch : Char) (index : ℕ)
  deriving DecidableEq

def validateCanonicalId (id : String) : Except IdValidationError Unit :=
  let chars := id.toList
  if id.isEmpty then .error .empty
  else if 128 < (utf8 id).length then .error (.tooLong (utf8 id).length 128)
  else if ¬ chars.all (fun ch => ch.toNat < 128) then .error .nonAscii
  else if chars.any Char.isUpper then .error .uppercaseNotAllowed
  else
    match chars with
    | [] => .error .empty
    | first :: rest =>
      if ¬ isLowerOrDigit first then .error (.invalidStartChar first)
      else
        match firstInvalidChar (fun ch => isLowerOrDigit ch || ch == '.' || ch == '_' ||
            ch == ':' || ch == '-') 1 rest with
        | some (ch, index) => .error (.invalidChar ch index)
        | none => .ok ()

/-- An identifier that passed validation, the only kind the code can hold. -/
abbrev CanonicalId := { id : String // validateCanonicalId id = .ok () }

theorem canonical_alice : validateCanonicalId "user:alice" = .ok () := by decide +kernel

abbrev PrincipalId := CanonicalId

abbrev ConnectorId := CanonicalId

abbrev OperationId := CanonicalId

abbrev CapabilityId := CanonicalId

/-- `CredentialId`, a UUID. -/
abbrev CredentialId := Bytes 16

/-! ### Constraints -/

structure CapabilityConstraints where
  resourceAllow : List String
  resourceDeny : List String
  maxCalls : Option UInt32
  maxBytes : Option UInt64
  idempotencyKey : Option String
  credentialAllow : List CredentialId

namespace CapabilityConstraints

/-- `CapabilityConstraints::is_empty`: there is no restriction at all, which means deny all. -/
def isEmpty (constraints : CapabilityConstraints) : Bool :=
  constraints.resourceAllow.isEmpty && constraints.resourceDeny.isEmpty &&
    constraints.maxCalls.isNone && constraints.maxBytes.isNone &&
    constraints.idempotencyKey.isNone && constraints.credentialAllow.isEmpty

end CapabilityConstraints

/-- `FcpError`, as far as the resource check raises it. -/
inductive FcpError
  | resourceNotAllowed (resource : String)
  deriving DecidableEq

namespace CapabilityVerifier

variable (constraints : CapabilityConstraints) (resourceUris : List String)

/-- The allow list of `enforce_resource_constraints`. -/
def enforceResourceAllow : Except FcpError Unit :=
  if constraints.resourceAllow.isEmpty then .ok ()
  else if constraints.resourceAllow.any (fun pattern => pattern ≠ "*") ∧ resourceUris.isEmpty then
    .error (.resourceNotAllowed
      "<none>: token declares non-wildcard resource_allow but caller provided no resource URIs")
  else
    match resourceUris.find? fun uri =>
        ¬ constraints.resourceAllow.any fun pattern => patternMatches pattern uri with
    | some uri => .error (.resourceNotAllowed uri)
    | none => .ok ()

/-- The deny list of `enforce_resource_constraints`. -/
def enforceResourceDeny : Except FcpError Unit :=
  if ¬ constraints.resourceDeny.isEmpty ∧ resourceUris.isEmpty then
    .error (.resourceNotAllowed
      "<none>: token declares resource_deny but caller provided no resource URIs")
  else
    match resourceUris.find? fun uri =>
        constraints.resourceDeny.any fun pattern => patternMatches pattern uri with
    | some uri => .error (.resourceNotAllowed uri)
    | none => .ok ()

def enforceResourceConstraints :
    Except FcpError Unit := do
  enforceResourceAllow constraints resourceUris
  enforceResourceDeny constraints resourceUris

variable (uri : String)

/-- The allow list accepts a single resource that it matches, and every resource if it is empty. -/
theorem enforceResourceAllow_singleton :
    enforceResourceAllow constraints [uri] = .ok () ↔
      constraints.resourceAllow = [] ∨
        ∃ pattern ∈ constraints.resourceAllow, patternMatches pattern uri = true := by
  rw [enforceResourceAllow]
  by_cases hempty : constraints.resourceAllow = []
  · rw [hempty]
    exact iff_of_true rfl (.inl rfl)
  rw [if_neg (by simpa using hempty), if_neg (by simp)]
  by_cases hany : constraints.resourceAllow.any fun pattern => patternMatches pattern uri
  · rw [List.find?_cons_of_neg (by simpa using hany)]
    exact iff_of_true rfl (.inr (List.any_eq_true.mp hany))
  · rw [List.find?_cons_of_pos (by simpa using hany)]
    refine iff_of_false nofun ?_
    rintro (hnil | hmatch)
    · exact hempty hnil
    · exact hany (List.any_eq_true.mpr hmatch)

/-- The deny list accepts a single resource that it does not match. -/
theorem enforceResourceDeny_singleton :
    enforceResourceDeny constraints [uri] = .ok () ↔
      ∀ pattern ∈ constraints.resourceDeny, patternMatches pattern uri = false := by
  rw [enforceResourceDeny, if_neg (by simp)]
  by_cases hany : constraints.resourceDeny.any fun pattern => patternMatches pattern uri
  · rw [List.find?_cons_of_pos (by simpa using hany)]
    refine iff_of_false nofun fun hnone => ?_
    obtain ⟨pattern, hmem, hmatch⟩ := List.any_eq_true.mp hany
    rw [hnone pattern hmem] at hmatch
    cases hmatch
  · rw [List.find?_cons_of_neg (by simpa using hany)]
    exact iff_of_true rfl (by simpa using hany)

/-- A single resource is accepted if no deny pattern matches it, and an allow pattern does unless
there is none. -/
theorem enforceResourceConstraints_singleton :
    enforceResourceConstraints constraints [uri] = .ok () ↔
      (constraints.resourceAllow = [] ∨
          ∃ pattern ∈ constraints.resourceAllow, patternMatches pattern uri = true) ∧
        ∀ pattern ∈ constraints.resourceDeny, patternMatches pattern uri = false := by
  rw [← enforceResourceAllow_singleton, ← enforceResourceDeny_singleton]
  cases hallow : enforceResourceAllow constraints [uri] with
  | error e =>
    simp only [enforceResourceConstraints, hallow, bind, Except.bind, reduceCtorEq, false_and]
  | ok u =>
    simp only [enforceResourceConstraints, hallow, bind, Except.bind, true_and]

end CapabilityVerifier

end Flywheel.Core
