import Flywheel.Core.Capabilities

/-!
# Enforcement of capability constraints

`DefaultConstraintEnforcer` of `fcp-policy` checks the constraints of a capability when a request is
executed: an empty set denies everything, deny patterns come before allow patterns, and ceilings
come last. Its patterns are exact texts or starts with a star behind them, while the verifier of
`fcp-core` reads the same patterns as globs.
-/

namespace Flywheel.Policy

open Flywheel.Core Flywheel.Data CapabilityVerifier List
open Relation (ReflTransGen)

/-! ### The enforcer -/

structure RequestDescriptor where
  objectId : ObjectId
  operation : OperationId
  principal : PrincipalId
  host : String
  resourceUri : String
  requestedAtUnixMs : UInt64
  observedCalls : UInt32
  observedBytes : UInt64

/-- `ConstraintDenialKind`, as far as the evaluation of a set raises it. -/
inductive ConstraintDenialKind
  | emptyConstraintSet
  | resourceUriNotInAllowlist (observed : String)
  | resourceUriDeniedByDenylist (observed matchedPattern : String)
  | scopeCeilingExceeded (observedCalls : UInt32) (observedBytes : UInt64)
      (maxCalls : Option UInt32) (maxBytes : Option UInt64)
  deriving DecidableEq

structure ConstraintDenialReason where
  kind : ConstraintDenialKind
  explanation : String
  deriving DecidableEq

inductive ConstraintEvaluation
  | allow
  | deny (reason : ConstraintDenialReason)
  deriving DecidableEq

def ConstraintEvaluation.isDeny : ConstraintEvaluation → Bool
  | .allow => false
  | .deny _ => true

/-- `strip_suffix('*')`. -/
def stripStar (pattern : List UInt8) : Option (List UInt8) :=
  if pattern.getLast? = some starByte then some pattern.dropLast else none

/-- `pattern_matches` of the enforcer: an exact text, or a start with a star behind it. -/
def patternMatches (pattern observed : String) : Bool :=
  match stripStar (utf8 pattern) with
  | none => pattern = observed
  | some start => start.isPrefixOf (utf8 observed)

namespace DefaultConstraintEnforcer

def enforceScopeCeiling (maxCalls : Option UInt32) (maxBytes : Option UInt64)
    (observedCalls : UInt32) (observedBytes : UInt64) : ConstraintEvaluation :=
  match maxCalls.filter (· < observedCalls) with
  | some calls =>
    .deny ⟨.scopeCeilingExceeded observedCalls observedBytes maxCalls maxBytes,
      s!"observed_calls {observedCalls} exceeds max_calls {calls}"⟩
  | none =>
    match maxBytes.filter (· < observedBytes) with
    | some bytes =>
      .deny ⟨.scopeCeilingExceeded observedCalls observedBytes maxCalls maxBytes,
        s!"observed_bytes {observedBytes} exceeds max_bytes {bytes}"⟩
    | none => .allow

variable (constraints : CapabilityConstraints) (request : RequestDescriptor)

def evaluate : ConstraintEvaluation :=
  if constraints.isEmpty then
    .deny ⟨.emptyConstraintSet,
      "capability has no constraints — default-deny per C3.4 applies"⟩
  else
    match constraints.resourceDeny.find? (patternMatches · request.resourceUri) with
    | some pattern =>
      .deny ⟨.resourceUriDeniedByDenylist request.resourceUri pattern,
        s!"resource_uri `{request.resourceUri}` matched resource_deny pattern `{pattern}`"⟩
    | none =>
      if ¬ constraints.resourceAllow.isEmpty ∧
          ¬ constraints.resourceAllow.any (patternMatches · request.resourceUri) then
        .deny ⟨.resourceUriNotInAllowlist request.resourceUri,
          s!"resource_uri `{request.resourceUri}` not in resource_allow ({constraints.resourceAllow.length} patterns)"⟩
      else
        enforceScopeCeiling constraints.maxCalls constraints.maxBytes request.observedCalls
          request.observedBytes

/-- The request exceeds no ceiling of the set. -/
def WithinCeilings : Prop :=
  (∀ calls, constraints.maxCalls = some calls → request.observedCalls ≤ calls) ∧
    ∀ bytes, constraints.maxBytes = some bytes → request.observedBytes ≤ bytes

/-- A pattern of the list matches the URI. -/
def AnyMatches (patterns : List String) (uri : String) : Prop :=
  ∃ pattern ∈ patterns, patternMatches pattern uri = true

theorem evaluate_eq_allow :
    evaluate constraints request = .allow ↔
      constraints.isEmpty = false ∧ ¬ AnyMatches constraints.resourceDeny request.resourceUri ∧
        (constraints.resourceAllow = [] ∨
          AnyMatches constraints.resourceAllow request.resourceUri) ∧
        WithinCeilings constraints request := by
  have hdeny : ¬ AnyMatches constraints.resourceDeny request.resourceUri ↔
      constraints.resourceDeny.find? (patternMatches · request.resourceUri) = none := by
    simp [AnyMatches]
  have hallow : (constraints.resourceAllow = [] ∨
        AnyMatches constraints.resourceAllow request.resourceUri) ↔
      ¬ (¬ constraints.resourceAllow.isEmpty ∧
        ¬ constraints.resourceAllow.any (patternMatches · request.resourceUri)) := by
    rw [not_and_or, not_not, not_not, List.isEmpty_iff, List.any_eq_true, AnyMatches]
  have hceilings : enforceScopeCeiling constraints.maxCalls constraints.maxBytes
      request.observedCalls request.observedBytes = .allow ↔ WithinCeilings constraints request := by
    have hcalls : constraints.maxCalls.filter (· < request.observedCalls) = none ↔
        ∀ calls, constraints.maxCalls = some calls → request.observedCalls ≤ calls := by
      simp
    have hbytes : constraints.maxBytes.filter (· < request.observedBytes) = none ↔
        ∀ bytes, constraints.maxBytes = some bytes → request.observedBytes ≤ bytes := by
      simp
    rw [WithinCeilings, ← hcalls, ← hbytes, enforceScopeCeiling]
    cases constraints.maxCalls.filter (· < request.observedCalls) with
    | some calls => simp
    | none => cases constraints.maxBytes.filter (· < request.observedBytes) <;> simp
  rw [hdeny, hallow, ← hceilings, evaluate]
  cases constraints.isEmpty with
  | true => simp
  | false =>
    cases constraints.resourceDeny.find? (patternMatches · request.resourceUri) with
    | some pattern => simp
    | none =>
      rw [if_neg Bool.false_ne_true]
      split_ifs with hmiss
      · exact iff_of_false (by simp) fun hall => hall.2.2.1 hmiss
      · exact ⟨fun hceilings => ⟨rfl, rfl, hmiss, hceilings⟩, fun hall => hall.2.2.2⟩

theorem isDeny_evaluate :
    (evaluate constraints request).isDeny = true ↔
      evaluate constraints request ≠ .allow := by
  cases evaluate constraints request with
  | allow | deny reason => simp [ConstraintEvaluation.isDeny]

end DefaultConstraintEnforcer

/-! ### Two readings of a pattern -/

theorem stripStar_eq_some {pattern start : List UInt8} :
    stripStar pattern = some start ↔ pattern = start ++ [starByte] := by
  rw [stripStar]
  split_ifs with hlast
  · obtain ⟨before, hbefore⟩ := getLast?_eq_some_iff.mp hlast
    rw [hbefore, dropLast_concat, Option.some_inj, append_left_inj]
  · refine iff_of_false nofun fun hstar => ?_
    rw [hstar, getLast?_concat] at hlast
    exact hlast rfl

/-- The enforcer matches the text of the pattern, and what starts like a pattern with a star behind
it. -/
theorem patternMatches_iff (pattern observed : String) :
    patternMatches pattern observed = true ↔
      pattern = observed ∨
        ∃ start, utf8 pattern = start ++ [starByte] ∧ start <+: utf8 observed := by
  rw [patternMatches]
  cases hstrip : stripStar (utf8 pattern) with
  | none =>
    have hnone : ∀ start, utf8 pattern ≠ start ++ [starByte] := fun start hstar => by
      rw [stripStar_eq_some.mpr hstar] at hstrip
      cases hstrip
    rw [decide_eq_true_iff]
    refine ⟨Or.inl, ?_⟩
    rintro (heq | ⟨start, hstar, -⟩)
    · exact heq
    · exact absurd hstar (hnone start)
  | some start =>
    have hstar := stripStar_eq_some.mp hstrip
    rw [List.isPrefixOf_iff_prefix]
    refine ⟨fun hstart => .inr ⟨start, hstar, hstart⟩, ?_⟩
    rintro (heq | ⟨other, hother, hstart⟩)
    · rw [← heq, hstar]
      exact prefix_append start [starByte]
    · rw [hstar, append_left_inj] at hother
      rw [hother]
      exact hstart

/-- The verifier and the enforcer read the pattern alike at a URI: the URI does not go on after the
text of a pattern that ends in a star, and where the glob matches, the pattern is the URI or has
only a star behind a start of it. -/
structure ReadAlike (pattern uri : String) : Prop where
  /-- The URI does not go on after the star of the pattern. -/
  not_beyond : ∀ start more, utf8 pattern = start ++ [starByte] → more ≠ [] →
    utf8 uri ≠ utf8 pattern ++ more
  /-- The glob uses no wildcard but a star at the end. -/
  final_star : Core.patternMatches pattern uri = true → pattern = uri ∨
    ∃ start, utf8 pattern = start ++ [starByte] ∧ start <+: utf8 uri

variable {uri : String}

/-- The verifier's reading of a pattern that ends in a star, at a URI that starts like it. -/
theorem core_patternMatches_star {pattern : String} {start left : List UInt8}
    (hstar : utf8 pattern = start ++ [starByte]) (huri : utf8 uri = start ++ left) :
    Core.patternMatches pattern uri = true ↔
      ¬ ∃ more, more ≠ [] ∧ utf8 uri = utf8 pattern ++ more := by
  have hloop := patternLoop_append start [starByte] left
  rw [← hstar, ← huri] at hloop
  rw [Core.patternMatches, hloop, patternLoop_star_iff, hstar, huri]
  simp only [append_assoc, cons_append, nil_append, append_cancel_left_eq]

/-- Where a pattern is read alike, and only there, both matchers give the same answer. -/
theorem readAlike_iff (pattern uri : String) :
    (Core.patternMatches pattern uri = true ↔ patternMatches pattern uri = true) ↔
      ReadAlike pattern uri := by
  constructor
  · intro hsame
    refine ⟨?_, fun hcore => (patternMatches_iff pattern uri).mp (hsame.mp hcore)⟩
    intro start more hstar hmore huri
    have hlong : utf8 uri = start ++ (starByte :: more) := by
      rw [huri, hstar, append_assoc, singleton_append]
    have hobserved : patternMatches pattern uri = true :=
      (patternMatches_iff pattern uri).mpr (.inr ⟨start, hstar, starByte :: more, hlong.symm⟩)
    exact (core_patternMatches_star hstar hlong).mp (hsame.mpr hobserved) ⟨more, hmore, huri⟩
  · rintro ⟨hnot, hfinal⟩
    refine ⟨fun hcore => (patternMatches_iff pattern uri).mpr (hfinal hcore), fun hobserved => ?_⟩
    rcases (patternMatches_iff pattern uri).mp hobserved with heq | ⟨start, hstar, left, huri⟩
    · rw [heq]
      exact patternMatches_self uri
    · refine (core_patternMatches_star hstar huri.symm).mpr ?_
      rintro ⟨more, hmore, hbeyond⟩
      exact hnot start more hstar hmore hbeyond

open DefaultConstraintEnforcer

variable (constraints : CapabilityConstraints)

/-- The verifier's resource check and the enforcer agree on a URI, for every request that names it
and exceeds no ceiling. -/
def Agree (uri : String) : Prop :=
  ∀ request : RequestDescriptor, request.resourceUri = uri → WithinCeilings constraints request →
    (enforceResourceConstraints constraints [uri] = .ok () ↔
      evaluate constraints request = .allow)

/-- The allow and deny patterns of the set are among the given ones. -/
def PatternsAmong (patterns : List String) (constraints : CapabilityConstraints) : Prop :=
  constraints.resourceAllow ⊆ patterns ∧ constraints.resourceDeny ⊆ patterns

/-- A set that only allows one pattern. -/
def allowOnly (pattern : String) : CapabilityConstraints where
  resourceAllow := [pattern]
  resourceDeny := []
  maxCalls := none
  maxBytes := none
  idempotencyKey := none
  credentialAllow := []

theorem canonical_read : validateCanonicalId "op.read" = .ok () := by decide +kernel

def firstRequest (uri : String) : RequestDescriptor where
  objectId := ⟨replicate 32 0, rfl⟩
  operation := ⟨"op.read", canonical_read⟩
  principal := ⟨"user:alice", canonical_alice⟩
  host := ""
  resourceUri := uri
  requestedAtUnixMs := 1700000000000
  observedCalls := 0
  observedBytes := 0

theorem withinCeilings_firstRequest (uri : String) :
    WithinCeilings constraints (firstRequest uri) :=
  ⟨fun calls _ => calls.zero_le, fun bytes _ => bytes.zero_le⟩

/-- If all patterns of a list are read alike at a URI, the list matches it in both readings. -/
theorem anyMatches_iff_of_readAlike {patterns : List String}
    (halike : ∀ pattern ∈ patterns, ReadAlike pattern uri) :
    (∃ pattern ∈ patterns, Core.patternMatches pattern uri = true) ↔ AnyMatches patterns uri := by
  constructor
  · rintro ⟨pattern, hmem, hmatch⟩
    exact ⟨pattern, hmem, ((readAlike_iff pattern uri).mpr (halike pattern hmem)).mp hmatch⟩
  · rintro ⟨pattern, hmem, hmatch⟩
    exact ⟨pattern, hmem, ((readAlike_iff pattern uri).mpr (halike pattern hmem)).mpr hmatch⟩

variable {constraints : CapabilityConstraints}

/-- Both checks of a set that only allows one pattern come down to that pattern. -/
theorem readAlike_of_agree_allowOnly {pattern : String} (hagree : Agree (allowOnly pattern) uri) :
    ReadAlike pattern uri := by
  have hchecks := hagree (firstRequest uri) rfl (withinCeilings_firstRequest _ uri)
  rw [enforceResourceConstraints_singleton, evaluate_eq_allow] at hchecks
  refine (readAlike_iff pattern uri).mp ⟨fun hcore => ?_, fun hobserved => ?_⟩
  · have hverified := hchecks.mp ⟨.inr ⟨pattern, mem_singleton_self pattern, hcore⟩,
      nofun⟩
    simpa [AnyMatches, allowOnly, firstRequest] using hverified.2.2.1
  · have hallowed : AnyMatches (allowOnly pattern).resourceAllow uri :=
      ⟨pattern, mem_singleton_self pattern, hobserved⟩
    have hverified := hchecks.mpr ⟨rfl, fun ⟨_, hmem, _⟩ => (by cases hmem), .inr hallowed,
      withinCeilings_firstRequest _ uri⟩
    simpa [allowOnly] using hverified.1

/-- The two enforcement points agree on all sets over a list of patterns exactly if every pattern
is read alike; on the empty set, which the verifier refuses earlier, they never do. -/
theorem agree_iff_readAlike (uri : String) :
    (∀ patterns : List String,
      (∀ constraints, constraints.isEmpty = false → PatternsAmong patterns constraints →
          Agree constraints uri) ↔
        ∀ pattern ∈ patterns, ReadAlike pattern uri) ∧
      ∀ constraints, constraints.isEmpty = true → ¬ Agree constraints uri := by
  refine ⟨fun patterns => ⟨fun hagree pattern hmem => ?_, fun halike constraints hsome hamong => ?_⟩,
    fun constraints hempty hagree => ?_⟩
  · exact readAlike_of_agree_allowOnly (hagree (allowOnly pattern) rfl
      ⟨cons_subset.mpr ⟨hmem, nil_subset patterns⟩, nil_subset patterns⟩)
  · intro request huri hceilings
    have hallow := anyMatches_iff_of_readAlike fun pattern hmem => halike pattern (hamong.1 hmem)
    have hdeny := anyMatches_iff_of_readAlike fun pattern hmem => halike pattern (hamong.2 hmem)
    have hnone : (∀ pattern ∈ constraints.resourceDeny, Core.patternMatches pattern uri = false) ↔
        ¬ AnyMatches constraints.resourceDeny uri := by
      rw [← hdeny]
      simp only [not_exists, not_and, Bool.not_eq_true]
    rw [enforceResourceConstraints_singleton, evaluate_eq_allow, huri, hallow, hnone]
    exact ⟨fun h => ⟨hsome, h.2, h.1, hceilings⟩, fun h => ⟨h.2.2.1, h.2.1⟩⟩
  · have hchecks := hagree (firstRequest uri) rfl (withinCeilings_firstRequest _ uri)
    rw [enforceResourceConstraints_singleton, evaluate_eq_allow] at hchecks
    simp only [CapabilityConstraints.isEmpty, Bool.and_eq_true, List.isEmpty_iff] at hempty
    have hallowed := hchecks.mp ⟨.inl hempty.1.1.1.1.1, by simp [hempty.1.1.1.1.2]⟩
    have hsome := hallowed.1
    simp [CapabilityConstraints.isEmpty, hempty] at hsome

/-- A token that denies every URI that ends in `/admin`. -/
def denyAdmin : CapabilityConstraints where
  resourceAllow := []
  resourceDeny := ["*/admin"]
  maxCalls := none
  maxBytes := none
  idempotencyKey := none
  credentialAllow := []

/-- The verifier refuses a URI that the signed deny list names by a star in front, and the enforcer
allows it. -/
theorem deny_star_in_front_disagrees :
    enforceResourceConstraints denyAdmin ["db/admin"] =
        .error (.resourceNotAllowed "db/admin") ∧
      evaluate denyAdmin (firstRequest "db/admin") = .allow ∧
      ¬ Agree denyAdmin "db/admin" := by
  refine ⟨by decide +kernel, by decide +kernel, fun hagree => ?_⟩
  have hchecks := hagree (firstRequest "db/admin") rfl (withinCeilings_firstRequest _ _)
  exact absurd (hchecks.mpr (by decide +kernel)) (by decide +kernel)

/-! ### Strengthening -/

inductive Strengthens : CapabilityConstraints → CapabilityConstraints → Prop
  | addDeny (constraints : CapabilityConstraints) (deny : List String)
      (hdeny : constraints.resourceDeny.Sublist deny) :
      Strengthens constraints { constraints with resourceDeny := deny }
  | removeAllow (constraints : CapabilityConstraints) (allow : List String)
      (hallow : allow.Sublist constraints.resourceAllow) :
      Strengthens constraints { constraints with resourceAllow := allow }
  | limitCalls (constraints : CapabilityConstraints) (calls : UInt32)
      (hcalls : ∀ old, constraints.maxCalls = some old → calls ≤ old) :
      Strengthens constraints { constraints with maxCalls := some calls }
  | limitBytes (constraints : CapabilityConstraints) (bytes : UInt64)
      (hbytes : ∀ old, constraints.maxBytes = some old → bytes ≤ old) :
      Strengthens constraints { constraints with maxBytes := some bytes }

/-- What any sequence of strengthenings keeps. -/
structure Stronger (constraints strengthened : CapabilityConstraints) : Prop where
  deny : constraints.resourceDeny ⊆ strengthened.resourceDeny
  allow : strengthened.resourceAllow ⊆ constraints.resourceAllow
  ceilings : ∀ request, WithinCeilings strengthened request → WithinCeilings constraints request

variable {strengthened : CapabilityConstraints}

theorem Strengthens.stronger
    (hstep : Strengthens constraints strengthened) : Stronger constraints strengthened := by
  cases hstep with
  | addDeny deny hdeny =>
    exact ⟨hdeny.subset, Subset.refl _, fun _ hwithin => hwithin⟩
  | removeAllow allow hallow =>
    exact ⟨Subset.refl _, hallow.subset, fun _ hwithin => hwithin⟩
  | limitCalls calls hcalls =>
    refine ⟨Subset.refl _, Subset.refl _, fun request hwithin => ⟨?_, hwithin.2⟩⟩
    intro old hold
    exact UInt32.le_trans (hwithin.1 calls rfl) (hcalls old hold)
  | limitBytes bytes hbytes =>
    refine ⟨Subset.refl _, Subset.refl _, fun request hwithin => ⟨hwithin.1, ?_⟩⟩
    intro old hold
    exact UInt64.le_trans (hwithin.2 bytes rfl) (hbytes old hold)

theorem stronger_of_reflTransGen (hsteps : ReflTransGen Strengthens constraints strengthened) :
    Stronger constraints strengthened := by
  induction hsteps with
  | refl => exact ⟨Subset.refl _, Subset.refl _, fun _ hwithin => hwithin⟩
  | tail _ hstep ih =>
    have hlast := hstep.stronger
    exact ⟨Subset.trans ih.deny hlast.deny, Subset.trans hlast.allow ih.allow,
      fun request hwithin => ih.ceilings request (hlast.ceilings request hwithin)⟩

/-- Neither the empty set nor a missed allow list can be what denied the request, unless the
strengthened set denies it for a reason of its own. -/
def EmptinessKept (constraints strengthened : CapabilityConstraints)
    (request : RequestDescriptor) : Prop :=
  strengthened.isEmpty = true ∨ strengthened.resourceAllow ≠ [] ∨
    (constraints.isEmpty = false ∧ constraints.resourceAllow = []) ∨
    AnyMatches constraints.resourceAllow request.resourceUri ∨
    AnyMatches strengthened.resourceDeny request.resourceUri ∨
    ¬ WithinCeilings strengthened request

theorem isEmpty_eq_false_of_allow
    (hallow : constraints.resourceAllow ≠ []) : constraints.isEmpty = false := by
  simp [CapabilityConstraints.isEmpty, hallow]

variable {request : RequestDescriptor}

/-- A denial survives any sequence of strengthenings exactly if it was not due to an emptiness that
the strengthenings turned into another. -/
theorem denied_after_strengthening_iff {constraints strengthened : CapabilityConstraints}
    (hsteps : ReflTransGen Strengthens constraints strengthened) (request : RequestDescriptor) :
    ((evaluate constraints request).isDeny = true →
        (evaluate strengthened request).isDeny = true) ↔
      EmptinessKept constraints strengthened request := by
  have hstronger := stronger_of_reflTransGen hsteps
  simp only [isDeny_evaluate]
  constructor
  · intro hmonotone
    by_contra hlost
    simp only [EmptinessKept, not_or, not_not, Bool.not_eq_true] at hlost
    obtain ⟨hsome, hnil, hbefore, hmiss, hdeny, hceilings⟩ := hlost
    refine hmonotone (fun hallow => ?_)
      ((evaluate_eq_allow strengthened request).mpr ⟨hsome, hdeny, .inl hnil, hceilings⟩)
    obtain ⟨hfull, -, hmatch, -⟩ := (evaluate_eq_allow constraints request).mp hallow
    exact hbefore ⟨hfull, hmatch.resolve_right hmiss⟩
  · intro hkept hdenied hallow
    have hallowed := (evaluate_eq_allow strengthened request).mp hallow
    -- without an allow list, only deny patterns and ceilings deny, which strengthening keeps
    have hbefore (hsome : constraints.isEmpty = false) (hmatch : constraints.resourceAllow = [] ∨
        AnyMatches constraints.resourceAllow request.resourceUri) : False := by
      refine hdenied ((evaluate_eq_allow constraints request).mpr
        ⟨hsome, ?_, hmatch, hstronger.ceilings request hallowed.2.2.2⟩)
      rintro ⟨pattern, hmem, hmatch⟩
      exact hallowed.2.1 ⟨pattern, hstronger.deny hmem, hmatch⟩
    rcases hkept with hempty | hallowNe | ⟨hsome, hnil⟩ | hmatch | hdeny | hceilings
    · rw [hallowed.1] at hempty
      cases hempty
    · obtain ⟨pattern, hmem, hmatch⟩ := hallowed.2.2.1.resolve_left hallowNe
      have hmem' := hstronger.allow hmem
      exact hbefore (isEmpty_eq_false_of_allow (ne_nil_of_mem hmem')) (.inr ⟨pattern, hmem', hmatch⟩)
    · exact hbefore hsome (.inl hnil)
    · obtain ⟨pattern, hmem, _⟩ := id hmatch
      exact hbefore (isEmpty_eq_false_of_allow (ne_nil_of_mem hmem)) (.inr hmatch)
    · exact hallowed.2.1 hdeny
    · exact hceilings hallowed.2.2.2

def noConstraints : CapabilityConstraints where
  resourceAllow := []
  resourceDeny := []
  maxCalls := none
  maxBytes := none
  idempotencyKey := none
  credentialAllow := []

/-- The empty set denies every request; with one deny pattern more it allows one. -/
theorem deny_pattern_turns_deny_into_allow :
    ReflTransGen Strengthens noConstraints denyAdmin ∧
      (evaluate noConstraints (firstRequest "db/users")).isDeny = true ∧
      ¬ (evaluate denyAdmin (firstRequest "db/users")).isDeny = true :=
  ⟨.single (.addDeny noConstraints ["*/admin"] (nil_sublist _)), by decide +kernel, by decide +kernel⟩

/-- Narrowing an allow list to one pattern keeps the denial of everything else. -/
theorem narrowed_allow_list_still_denies :
    EmptinessKept { allowOnly "db/*" with resourceAllow := ["db/*", "fs/*"] } (allowOnly "db/*")
        (firstRequest "net/x") ∧
      ((evaluate { allowOnly "db/*" with resourceAllow := ["db/*", "fs/*"] }
          (firstRequest "net/x")).isDeny = true →
        (evaluate (allowOnly "db/*") (firstRequest "net/x")).isDeny = true) := by
  have hkept : EmptinessKept { allowOnly "db/*" with resourceAllow := ["db/*", "fs/*"] }
      (allowOnly "db/*") (firstRequest "net/x") := .inr (.inl (by decide))
  have hstep : Strengthens { allowOnly "db/*" with resourceAllow := ["db/*", "fs/*"] }
      (allowOnly "db/*") := .removeAllow _ ["db/*"] (by simp)
  exact ⟨hkept, (denied_after_strengthening_iff (.single hstep) _).mpr hkept⟩

end Flywheel.Policy
