import Flywheel.Mesh.Admission

/-!
# Symbol requests under admission control

`validate_request` of `fcp-mesh`'s `SymbolRequestHandler` debits a peer's budget
only for requests it accepts. Its admission check, however, enters the peer into
the tracking table and advances the peer's window whatever comes of the request,
so a rejected request leaves the controller as it was exactly when it is turned
away before that check, or finds no room in the table, or finds the peer tracked
and its window current.
-/

namespace Flywheel.Mesh

open Flywheel.Core AdmissionController

/-- `SymbolRequestPolicy`, as far as `validate_request` reads it. -/
structure SymbolRequestPolicy where
  maxUnauthenticatedResponse : ℕ
  maxAuthenticatedResponse : ℕ
  requireProofOfNeedAbove : ℕ
  allowUnauthenticated : Bool

/-- `SymbolRequest`, as far as `validate_request` reads it. -/
structure SymbolRequest where
  headerZoneId : ZoneId
  zoneId : ZoneId
  maxSymbols : ℕ
  missingHint : Option (List ℕ)
deriving DecidableEq

/-- The arguments of a call of `validate_request`. -/
structure SymbolRequestCall where
  request : SymbolRequest
  isAuthenticated : Bool
  peer : NodeId
  nowMs : ℕ
  symbolSize : ℕ
deriving DecidableEq

inductive SymbolRequestError where
  | invalidRequest (reason : String)
  | boundsExceeded (requested maxAllowed : ℕ)
  | hintTooLarge (count max : ℕ)
  | admissionRejected (e : AdmissionError)
deriving DecidableEq

structure ValidatedRequest where
  request : SymbolRequest
  isAuthenticated : Bool
  maxResponseSymbols : ℕ
  hasProofOfNeed : Bool
deriving DecidableEq

def maxMissingHintEntries : ℕ := 100

def defaultMaxSymbolsUnauthenticated : ℕ := 32

variable (policy : AdmissionPolicy)

/-- `effective_byte_limit`, with the megabyte of `PeerBudget::restrictive`. -/
def effectiveByteLimit (isAuthenticated : Bool) : ℕ :=
  if !isAuthenticated && policy.strictUnauthenticatedLimits then
    min policy.maxBytesPerMin (1024 * 1024)
  else policy.maxBytesPerMin

/-- `effective_symbol_limit`, with the 10,000 symbols of `PeerBudget::restrictive`. -/
def effectiveSymbolLimit (isAuthenticated : Bool) : ℕ :=
  if !isAuthenticated && policy.strictUnauthenticatedLimits then
    min policy.maxSymbolsPerMin 10000
  else policy.maxSymbolsPerMin

def AdmissionController.checkAdmission (c : AdmissionController) (peer : NodeId)
    (bytes symbols : ℕ) (isAuthenticated : Bool) (nowMs : ℕ) :
    Except AdmissionError Unit × AdmissionController :=
  if c.policy.requireAuthenticatedRequests && !isAuthenticated then
    (.error .authenticationRequired, c)
  else
    match c.checkBytesWithLimit peer bytes nowMs (effectiveByteLimit c.policy isAuthenticated) with
    | (.error e, c) => (.error e, c)
    | (.ok (), c) =>
      c.checkSymbolsWithLimit peer symbols nowMs (effectiveSymbolLimit c.policy isAuthenticated)

def checkAmplification (requestSymbols responseSymbols : ℕ)
    (isAuthenticated hasProofOfNeed : Bool) : Except AdmissionError Unit :=
  if isAuthenticated && hasProofOfNeed then .ok ()
  else if satMul 32 requestSymbols policy.maxAmplificationFactor < responseSymbols then
    .error (.amplificationViolation requestSymbols responseSymbols policy.maxAmplificationFactor)
  else .ok ()

section Handler

variable (policy : SymbolRequestPolicy) (call : SymbolRequestCall)

def hintRejection (request : SymbolRequest) : Option SymbolRequestError :=
  match request.missingHint with
  | none => none
  | some hints =>
    if maxMissingHintEntries < hints.length then
      some (.hintTooLarge hints.length maxMissingHintEntries)
    else if request.maxSymbols < hints.length then
      some (.invalidRequest "missing hint exceeds max_symbols")
    else none

/-- The gates of `validate_request` before the admission check. -/
def earlyRejection : Option SymbolRequestError :=
  if !call.isAuthenticated && !policy.allowUnauthenticated then
    some (.admissionRejected .authenticationRequired)
  else if call.request.zoneId ≠ call.request.headerZoneId then
    some (.invalidRequest "request zone_id does not match header zone_id")
  else
    match hintRejection call.request with
    | some e => some e
    | none =>
      if !call.isAuthenticated && defaultMaxSymbolsUnauthenticated < call.request.maxSymbols then
        some (.boundsExceeded call.request.maxSymbols defaultMaxSymbolsUnauthenticated)
      else none

def maxResponseSymbols : ℕ :=
  min call.request.maxSymbols
    (if call.isAuthenticated then policy.maxAuthenticatedResponse
    else policy.maxUnauthenticatedResponse)

def amplificationRequestSymbols (maxFactor : ℕ) : ℕ :=
  match call.request.missingHint with
  | some hints => max (min hints.length (2 ^ 32 - 1)) 1
  | none => if maxFactor = 0 then 0
    else (policy.requireProofOfNeedAbove + (maxFactor - 1)) / maxFactor

/-- The gate after the admission check. -/
def amplificationRejection (admission : AdmissionPolicy) : Option AdmissionError :=
  match checkAmplification admission
      (amplificationRequestSymbols policy call admission.maxAmplificationFactor)
      (maxResponseSymbols policy call) call.isAuthenticated call.request.missingHint.isSome with
  | .ok () => none
  | .error (.amplificationViolation request response factor) =>
    if !call.request.missingHint.isSome &&
        policy.requireProofOfNeedAbove < maxResponseSymbols policy call then
      some .proofOfNeedRequired
    else some (.amplificationViolation request response factor)
  | .error e => some e

def validateRequest (c : AdmissionController) :
    Except SymbolRequestError ValidatedRequest × AdmissionController :=
  match earlyRejection policy call with
  | some e => (.error e, c)
  | none =>
    let symbols := maxResponseSymbols policy call
    match c.checkAdmission call.peer (symbols * call.symbolSize) symbols call.isAuthenticated
        call.nowMs with
    | (.error e, c) => (.error (.admissionRejected e), c)
    | (.ok (), c) =>
      match amplificationRejection policy call c.policy with
      | some e => (.error (.admissionRejected e), c)
      | none =>
        (.ok ⟨call.request, call.isAuthenticated, symbols, call.request.missingHint.isSome⟩,
          (c.recordBytes call.peer (symbols * call.symbolSize) call.nowMs).recordSymbols
            call.peer symbols call.nowMs)

/-- The call is turned away before the admission check looks the peer up, or the table has no
room for the peer, or the peer is tracked and its window is current. -/
def LeavesNoTrace (c : AdmissionController) : Prop :=
  (earlyRejection policy call).isSome = true ∨
    (c.policy.requireAuthenticatedRequests && !call.isAuthenticated) = true ∨
    c.Full call.peer ∨
    ∃ u, c.peerUsage[call.peer]? = some u ∧ call.nowMs - u.windowStartMs < windowMs

/-- The outcomes of a sequence of calls. -/
def outcomes : AdmissionController → List SymbolRequestCall →
    List (Except SymbolRequestError ValidatedRequest)
  | _, [] => []
  | c, call :: calls =>
    (validateRequest policy call c).1 :: outcomes (validateRequest policy call c).2 calls

/-- The calls of a sequence that are accepted. -/
def acceptedCalls : AdmissionController → List SymbolRequestCall → List SymbolRequestCall
  | _, [] => []
  | c, call :: calls =>
    let rest := acceptedCalls (validateRequest policy call c).2 calls
    if (validateRequest policy call c).1.isOk then call :: rest else rest

/-- Every rejected call of the sequence leaves no trace. -/
def TracelessRun : AdmissionController → List SymbolRequestCall → Prop
  | _, [] => True
  | c, call :: calls =>
    ((validateRequest policy call c).1.isOk = false → LeavesNoTrace policy call c) ∧
      TracelessRun (validateRequest policy call c).2 calls

end Handler

section Steps

variable {policy : SymbolRequestPolicy} {call : SymbolRequestCall} {c : AdmissionController}
  {peer : NodeId}

namespace AdmissionController

theorem snd_checkWithLimit (r : Resource) (amount nowMs limit : ℕ) :
    (c.checkWithLimit r peer amount nowMs limit).2 =
      if c.Full peer then c else c.set peer (c.usageAt peer nowMs) := by
  rw [checkWithLimit]
  split_ifs with hfull
  · obtain ⟨e, he⟩ := currentUsage_of_full nowMs hfull
    rw [he]
  · rw [currentUsage_of_not_full hfull]
    dsimp only
    split_ifs <;> rfl

/-- Where the check looks the peer up and finds room, it starts or advances the peer's window. -/
theorem snd_checkAdmission (bytes symbols nowMs : ℕ) (isAuthenticated : Bool) :
    (c.checkAdmission peer bytes symbols isAuthenticated nowMs).2 =
      if (c.policy.requireAuthenticatedRequests && !isAuthenticated) = true ∨ c.Full peer then c
      else c.set peer (c.usageAt peer nowMs) := by
  have hbytes : (c.checkWithLimit .bytes peer bytes nowMs
      (effectiveByteLimit c.policy isAuthenticated)).2 = _ := snd_checkWithLimit ..
  rw [checkAdmission, checkBytesWithLimit]
  by_cases hrequired : (c.policy.requireAuthenticatedRequests && !isAuthenticated) = true
  · rw [if_pos hrequired, if_pos (.inl hrequired)]
  rw [if_neg hrequired, if_congr (or_iff_right hrequired) rfl rfl]
  split <;> rename_i heq <;> rw [heq] at hbytes
  · exact hbytes
  · dsimp only at hbytes
    rw [hbytes, checkSymbolsWithLimit]
    split_ifs with hfull
    · rw [snd_checkWithLimit, if_pos hfull]
    · rw [checkWithLimit, currentUsage_set (c.elapsed_usageAt peer nowMs)]
      dsimp only
      split_ifs <;> rfl

end AdmissionController

/-- A rejected call leaves the controller as it is exactly when it leaves no trace. -/
theorem snd_validateRequest_eq_iff (hrejected : (validateRequest policy call c).1.isOk = false) :
    (validateRequest policy call c).2 = c ↔ LeavesNoTrace policy call c := by
  unfold LeavesNoTrace
  cases hearly : earlyRejection policy call with
  | some e => simp [validateRequest, hearly]
  | none =>
    have hsnd : (validateRequest policy call c).2 = (c.checkAdmission call.peer
        (maxResponseSymbols policy call * call.symbolSize) (maxResponseSymbols policy call)
        call.isAuthenticated call.nowMs).2 := by
      unfold validateRequest at hrejected ⊢
      rw [hearly] at hrejected ⊢
      dsimp only at hrejected ⊢
      rcases hcheck : c.checkAdmission call.peer (maxResponseSymbols policy call * call.symbolSize)
        (maxResponseSymbols policy call) call.isAuthenticated call.nowMs with ⟨_ | _, c'⟩
      · rfl
      · rw [hcheck] at hrejected
        dsimp only at hrejected ⊢
        cases hamp : amplificationRejection policy call c'.policy with
        | some e => rfl
        | none =>
          rw [hamp] at hrejected
          cases hrejected
    rw [hsnd, snd_checkAdmission, Option.isSome_none, or_iff_right Bool.false_ne_true, ← or_assoc]
    split_ifs with hkept
    · exact iff_of_true rfl (.inl hkept)
    · rw [set_eq_self_iff, usageAt, or_iff_right hkept]
      cases c.peerUsage[call.peer]? with
      | none => simp
      | some u =>
        rw [Option.getD_some, Option.some.injEq, eq_comm, PeerUsage.maybeResetWindow_eq_self_iff]
        simp

/-- A rejected request is free of side effects exactly when it leaves no trace; and where all
rejected requests of a run leave none, the accepted ones have the same outcomes without them. -/
theorem rejected_request_harmless_iff (policy : SymbolRequestPolicy) (c : AdmissionController) :
    (∀ call, (validateRequest policy call c).1.isOk = false →
      ((validateRequest policy call c).2 = c ↔ LeavesNoTrace policy call c)) ∧
    ∀ calls, TracelessRun policy c calls →
      outcomes policy c (acceptedCalls policy c calls) =
        (outcomes policy c calls).filter (·.isOk) := by
  refine ⟨fun call hrejected => snd_validateRequest_eq_iff hrejected, fun calls => ?_⟩
  induction calls generalizing c with
  | nil => exact fun _ => rfl
  | cons call calls ih =>
    rintro ⟨hcall, hrest⟩
    rw [acceptedCalls, outcomes]
    cases hok : (validateRequest policy call c).1.isOk with
    | true =>
      rw [if_pos rfl, outcomes, List.filter_cons_of_pos hok, ih _ hrest]
    | false =>
      have hsame := (snd_validateRequest_eq_iff hok).mpr (hcall hok)
      rw [List.filter_cons_of_neg (by simp [hok]), hsame]
      rw [hsame] at hrest
      exact ih c hrest

end Steps

def demoRequestPolicy : SymbolRequestPolicy := ⟨32, 1000, 100, true⟩

/-- A limit of 100 symbols a minute, and room for the given number of peers. -/
def demoController (maxTrackedPeers : ℕ) : AdmissionController :=
  .new ⟨1000000, 100, true, 10, true, maxTrackedPeers⟩

/-- An authenticated request for some symbols of one byte, without a hint. -/
def plainCall (peer : NodeId) (nowMs maxSymbols : ℕ) : SymbolRequestCall :=
  ⟨⟨"z:work", "z:work", maxSymbols, none⟩, true, peer, nowMs, 1⟩

/-- A rejected request starts its peer's window, which lets a later request through that is
rejected without it; and it takes the last place in the table, which another peer then misses. -/
theorem rejected_request_starts_window :
    acceptedCalls demoRequestPolicy (demoController 10)
        [plainCall "a" 0 500, plainCall "a" 59999 100, plainCall "a" 90000 50] =
      [plainCall "a" 59999 100, plainCall "a" 90000 50] ∧
    (outcomes demoRequestPolicy (demoController 10)
        [plainCall "a" 59999 100, plainCall "a" 90000 50]).map (·.isOk) = [true, false] ∧
    (outcomes demoRequestPolicy (demoController 1)
        [plainCall "a" 0 500, plainCall "b" 0 50]).map (·.isOk) = [false, false] ∧
    (outcomes demoRequestPolicy (demoController 1) [plainCall "b" 0 50]).map (·.isOk) =
      [true] := by
  decide +kernel

section Grants

variable {policy : SymbolRequestPolicy} {call : SymbolRequestCall} {c : AdmissionController}
  {admission : AdmissionPolicy} {v : ValidatedRequest}

theorem amplificationRejection_eq_none_iff :
    amplificationRejection policy call admission = none ↔
      (call.isAuthenticated && call.request.missingHint.isSome) = true ∨
        maxResponseSymbols policy call ≤ satMul 32
          (amplificationRequestSymbols policy call admission.maxAmplificationFactor)
          admission.maxAmplificationFactor := by
  unfold amplificationRejection checkAmplification
  by_cases hproof : (call.isAuthenticated && call.request.missingHint.isSome) = true
  · simp [hproof]
  rw [or_iff_right hproof, ← Nat.not_lt]
  split_ifs with hover hneed <;> simp [hover]

/-- A request is granted that passes every gate, the last one under the controller's policy. -/
theorem validateRequest_eq_ok_iff :
    (validateRequest policy call c).1 = .ok v ↔
      earlyRejection policy call = none ∧
      (c.checkAdmission call.peer (maxResponseSymbols policy call * call.symbolSize)
        (maxResponseSymbols policy call) call.isAuthenticated call.nowMs).1 = .ok () ∧
      amplificationRejection policy call c.policy = none ∧
      v = ⟨call.request, call.isAuthenticated, maxResponseSymbols policy call,
        call.request.missingHint.isSome⟩ := by
  unfold validateRequest
  rcases earlyRejection policy call with _ | e
  · rcases hcheck : c.checkAdmission call.peer (maxResponseSymbols policy call * call.symbolSize)
      (maxResponseSymbols policy call) call.isAuthenticated call.nowMs with ⟨_ | _, c'⟩
    · simp [hcheck]
    · have hpolicy : (c.checkAdmission call.peer (maxResponseSymbols policy call * call.symbolSize)
          (maxResponseSymbols policy call) call.isAuthenticated call.nowMs).2.policy = c.policy := by
        rw [snd_checkAdmission]
        split_ifs <;> rfl
      rw [hcheck] at hpolicy
      dsimp only at hpolicy
      rcases hamp : amplificationRejection policy call c.policy with _ | e <;>
        simp [hcheck, hpolicy, hamp, eq_comm]
  · simp

/-- The threshold survives its rounded division by the factor and the product that follows
exactly when there is no remainder, or the product saturates. -/
theorem satMul_ceil_le_iff (threshold factor : ℕ) :
    satMul 32 (if factor = 0 then 0 else (threshold + (factor - 1)) / factor) factor ≤ threshold ↔
      factor = 0 ∨ factor ∣ threshold ∨ 2 ^ 32 - 1 ≤ threshold := by
  rw [satMul, min_le_iff, ← or_assoc]
  refine or_congr_left ?_
  split_ifs with hzero
  · simp [hzero]
  rw [or_iff_right hzero]
  refine ⟨fun hle => ?_, ?_⟩
  · have hdiv := Nat.div_add_mod' (threshold + (factor - 1)) factor
    have hmod := Nat.mod_lt (threshold + (factor - 1)) (Nat.pos_of_ne_zero hzero)
    exact Dvd.intro_left _ (show (threshold + (factor - 1)) / factor * factor = threshold by omega)
  · rintro ⟨k, rfl⟩
    rw [Nat.mul_add_div (Nat.pos_of_ne_zero hzero), Nat.div_eq_of_lt (by omega), Nat.mul_comm]
    rfl

/-- An authenticated peer without usage is admitted up to the limits. -/
theorem AdmissionController.checkAdmission_set_new (c : AdmissionController) (peer : NodeId)
    {bytes symbols : ℕ} (hbytes : bytes ≤ c.policy.maxBytesPerMin)
    (hsymbols : symbols ≤ c.policy.maxSymbolsPerMin) :
    ((c.set peer (.new 0)).checkAdmission peer bytes symbols true 0).1 = .ok () := by
  have hcheck : ∀ (r) {amount limit : ℕ}, amount ≤ limit →
      (c.set peer (.new 0)).checkWithLimit r peer amount 0 limit =
        (.ok (), c.set peer (.new 0)) := by
    intro r amount limit hle
    rw [checkWithLimit, currentUsage_set (by decide)]
    refine if_neg (Nat.not_lt.mpr ((min_le_left ..).trans ?_))
    rwa [show r.effective (.new 0) 0 = 0 by cases r <;> rfl, Nat.zero_add]
  rw [checkAdmission, if_neg (by simp), checkBytesWithLimit,
    hcheck .bytes (show bytes ≤ effectiveByteLimit (c.set ..).policy true from hbytes)]
  exact congrArg Prod.fst (hcheck .symbols hsymbols)

/-- Without proof of need a request is granted no more than the threshold exactly when the
division that turns the threshold into a number of request symbols leaves no remainder, or the
product saturates. -/
theorem proof_of_need_threshold_iff (threshold factor : ℕ) :
    ((∀ (policy : SymbolRequestPolicy) (call : SymbolRequestCall) (c : AdmissionController)
        (v : ValidatedRequest), policy.requireProofOfNeedAbove = threshold →
        c.policy.maxAmplificationFactor = factor → (validateRequest policy call c).1 = .ok v →
        v.hasProofOfNeed = false → v.maxResponseSymbols ≤ threshold) ↔
      factor = 0 ∨ factor ∣ threshold ∨ 2 ^ 32 - 1 ≤ threshold) ∧
    ∀ (policy : SymbolRequestPolicy) (call : SymbolRequestCall) (c : AdmissionController)
      (v : ValidatedRequest), c.policy.maxAmplificationFactor = factor →
      (validateRequest policy call c).1 = .ok v → v.isAuthenticated = false →
      ∀ hints, v.request.missingHint = some hints →
        v.maxResponseSymbols ≤ factor * max hints.length 1 := by
  rw [← satMul_ceil_le_iff]
  refine ⟨⟨fun h => ?_, fun h policy call c v hthreshold hfactor hok hproof => ?_⟩,
    fun policy call c v hfactor hok hauth hints hhints => ?_⟩
  · by_contra hover
    -- A tracked peer without usage asks for one symbol more than the threshold.
    set policy : SymbolRequestPolicy := ⟨0, threshold + 1, threshold, true⟩
    set call := plainCall "a" 0 (threshold + 1)
    set c := AdmissionController.new ⟨threshold + 1, threshold + 1, true, factor, true, 1⟩
    have hsymbols : maxResponseSymbols policy call = threshold + 1 := min_self _
    have hamp : amplificationRejection policy call c.policy = none :=
      amplificationRejection_eq_none_iff.mpr (.inr (hsymbols.le.trans (Nat.lt_of_not_le hover)))
    have hadmission := c.checkAdmission_set_new "a"
      (show maxResponseSymbols policy call * 1 ≤ threshold + 1 by omega) hsymbols.le
    have hle := h policy call (c.set "a" (.new 0)) _ rfl rfl
      (validateRequest_eq_ok_iff.mpr ⟨rfl, hadmission, hamp, rfl⟩) rfl
    exact absurd (hsymbols.ge.trans hle) (Nat.not_succ_le_self _)
  · obtain ⟨-, -, hnone, rfl⟩ := validateRequest_eq_ok_iff.mp hok
    rw [amplificationRejection_eq_none_iff, amplificationRequestSymbols,
      Option.not_isSome_iff_eq_none.mp (ne_true_of_eq_false hproof), hthreshold, hfactor] at hnone
    exact (hnone.resolve_left (by simp)).trans h
  · obtain ⟨-, -, hnone, rfl⟩ := validateRequest_eq_ok_iff.mp hok
    have hauth : call.isAuthenticated = false := hauth
    have hle := (amplificationRejection_eq_none_iff.mp hnone).resolve_left (by simp [hauth])
    rw [amplificationRequestSymbols, show call.request.missingHint = some hints from hhints,
      hfactor] at hle
    calc maxResponseSymbols policy call ≤ max (min hints.length (2 ^ 32 - 1)) 1 * factor :=
          hle.trans (min_le_left ..)
      _ ≤ factor * max hints.length 1 := by
          rw [Nat.mul_comm]
          gcongr
          exact min_le_left ..

end Grants

/-- The threshold of 100 becomes 15 request symbols under a factor of 7, which allow 105. -/
theorem threshold_rounded_up :
    (validateRequest demoRequestPolicy (plainCall "a" 0 105)
        (.new ⟨1000000, 1000, true, 7, true, 10⟩)).1 =
      .ok ⟨(plainCall "a" 0 105).request, true, 105, false⟩ := by
  decide +kernel

end Flywheel.Mesh
