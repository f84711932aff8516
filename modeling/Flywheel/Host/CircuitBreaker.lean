import Mathlib.Algebra.Ring.Nat
import Mathlib.Data.List.Perm.Basic

/-!
# The circuit breaker of a connector

`CircuitBreaker` of `fcp-host` with the calls that `ResilienceLayer::execute` has admitted and that
are not finished. An admitted call is later rejected by the bulkhead, completes, or is dropped with
its future. The circuit learns only that a call ended, not which one: the discipline of the half-open
state therefore depends on the calls that were admitted before it opened, and a dropped probe keeps
its slot.
-/

namespace Flywheel.Host

inductive OutcomeKind
  | success | failure | timedOut
  deriving DecidableEq

inductive FailurePredicate
  | anyError
  | timeoutsOnly
  | slowResponses (threshold : ℕ)
  | errorOrSlowResponses (threshold : ℕ)

def FailurePredicate.matches : FailurePredicate → OutcomeKind → ℕ → Bool
  | .anyError, outcome, _ => outcome = .failure ∨ outcome = .timedOut
  | .timeoutsOnly, outcome, _ => outcome = .timedOut
  | .slowResponses threshold, outcome, latency => outcome = .success ∧ threshold < latency
  | .errorOrSlowResponses threshold, outcome, latency =>
    (outcome = .failure ∨ outcome = .timedOut) ∨ outcome = .success ∧ threshold < latency

/-- Durations and instants are numbers of one unit. -/
structure CircuitBreakerConfig where
  failureThreshold : UInt32
  successThreshold : UInt32
  openDuration : ℕ
  windowDuration : ℕ
  failurePredicate : FailurePredicate

inductive CircuitState
  | closed | opened | halfOpen
  deriving DecidableEq

inductive CircuitPermit
  | regular | probe
  deriving DecidableEq

inductive CircuitReject
  | opened (retryAfter : ℕ)
  | halfOpenLimited

structure CircuitInner where
  state : CircuitState
  failures : ℕ
  successes : ℕ
  windowStartedAt : ℕ
  openedUntil : Option ℕ
  probeInFlight : Bool
  deriving DecidableEq

/-- `saturating_add` of one to a `u32`. -/
def saturatingSucc (v : ℕ) : ℕ := min (v + 1) (2 ^ 32 - 1)

namespace CircuitInner

def new (now : ℕ) : CircuitInner := ⟨.closed, 0, 0, now, none, false⟩

variable (inner : CircuitInner) (config : CircuitBreakerConfig)

def beforeCall (now : ℕ) : Except CircuitReject (CircuitPermit × CircuitInner) :=
  let probe := { inner with state := .halfOpen, failures := 0, probeInFlight := true }
  match inner.state with
  | .closed => .ok (.regular, inner)
  | .opened =>
    match inner.openedUntil with
    | some till => if now < till then .error (.opened (till - now)) else .ok (.probe, probe)
    | none => .ok (.probe, probe)
  | .halfOpen =>
    if inner.probeInFlight then .error .halfOpenLimited
    else .ok (.probe, { inner with probeInFlight := true })

def cancelInflightProbe : CircuitInner :=
  if inner.state = .halfOpen then { inner with probeInFlight := false } else inner

def recordSuccess (now : ℕ) : CircuitInner :=
  match inner.state with
  | .closed => { inner with failures := 0, windowStartedAt := now }
  | .halfOpen =>
    let successes := saturatingSucc inner.successes
    if config.successThreshold.toNat ≤ successes then
      ⟨.closed, 0, 0, now, none, false⟩
    else { inner with probeInFlight := false, successes := successes }
  | .opened => inner

def openCircuit (now : ℕ) : CircuitInner :=
  { inner with
    state := .opened, failures := 0, successes := 0, openedUntil := some (now + config.openDuration) }

/-- The circuit after a failure, and whether it has opened; `open_circuit` reads the clock again. -/
def recordFailure (now openedAt : ℕ) : CircuitInner × Bool :=
  let inner :=
    if config.windowDuration < now - inner.windowStartedAt then
      { inner with failures := 0, windowStartedAt := now }
    else inner
  let inner := { inner with probeInFlight := false, successes := 0 }
  match inner.state with
  | .opened => (inner, false)
  | .halfOpen => (inner.openCircuit config openedAt, true)
  | .closed =>
    let inner := { inner with failures := saturatingSucc inner.failures }
    if config.failureThreshold.toNat ≤ inner.failures then (inner.openCircuit config openedAt, true)
    else (inner, false)

end CircuitInner

open CircuitInner

/-! ### The calls of a connector -/

/-- An admitted call, with the number of times the circuit had opened before. -/
structure Call where
  permit : CircuitPermit
  opens : ℕ

structure Connector where
  circuit : CircuitInner
  /-- The calls that are not finished. -/
  calls : List Call
  opens : ℕ
  /-- Successful completions of probes that were admitted since the circuit last opened. -/
  probeSuccesses : ℕ

/-- How an admitted call ends: the bulkhead rejects it, it completes, or its future is dropped. -/
inductive Ending
  | rejected
  | completed (outcome : OutcomeKind) (latency now openedAt : ℕ)
  | dropped

/-- What happens next at a connector; `i` is the place of a call among the unfinished ones. -/
inductive CallEvent
  | arrive (now : ℕ)
  | finish (i : ℕ) (ending : Ending)

namespace Connector

variable (config : CircuitBreakerConfig)

def new (now : ℕ) : Connector := ⟨.new now, [], 0, 0⟩

def conclude (c : Connector) (call : Call) : Ending → Connector
  | .rejected => { c with circuit := c.circuit.cancelInflightProbe }
  | .completed outcome latency now openedAt =>
    -- `apply_circuit_outcome`
    if config.failurePredicate.matches outcome latency then
      let (circuit, opened) := c.circuit.recordFailure config now openedAt
      if opened then ⟨circuit, c.calls, c.opens + 1, 0⟩ else { c with circuit := circuit }
    else
      { c with
        circuit := c.circuit.recordSuccess config now
        probeSuccesses := c.probeSuccesses +
          if call.permit = .probe ∧ call.opens = c.opens then 1 else 0 }
  -- nothing in `execute_inner` runs when its future is dropped
  | .dropped => c

def step (c : Connector) : CallEvent → Connector
  | .arrive now =>
    match c.circuit.beforeCall now with
    | .error _ => c
    | .ok (permit, circuit) =>
      { c with circuit := circuit, calls := c.calls ++ [⟨permit, c.opens⟩] }
  | .finish i ending =>
    match c.calls[i]? with
    | none => c
    | some call => { c with calls := c.calls.eraseIdx i }.conclude config call ending

/-- The connector after the first `n` events of a schedule. -/
def after (now : ℕ) (events : ℕ → CallEvent) : ℕ → Connector
  | 0 => new now
  | n + 1 => (after now events n).step config (events n)

def probes (c : Connector) : ℕ := c.calls.countP (·.permit = .probe)

/-! ### One probe at a time -/

/-- What a step may do: half open with at most one unfinished probe, closed again only after enough
successful probes, and not touched by the end of a call that was admitted before it opened. -/
structure Disciplined (c : Connector) (event : CallEvent) : Prop where
  one_probe : (c.step config event).circuit.state = .halfOpen → (c.step config event).probes ≤ 1
  closes : c.circuit.state = .halfOpen → (c.step config event).circuit.state = .closed →
    config.successThreshold.toNat ≤ (c.step config event).probeSuccesses
  stale : c.circuit.state = .halfOpen → ∀ i ending call, event = .finish i ending →
    c.calls[i]? = some call → call.opens < c.opens → (c.step config event).circuit = c.circuit

/-- No call that was admitted before the circuit opened ends while it is half open, unless it is
dropped or the bulkhead rejects it between two probes. -/
def Undisturbed (c : Connector) (event : CallEvent) : Prop :=
  c.circuit.state = .halfOpen → ∀ i ending call, event = .finish i ending →
    c.calls[i]? = some call → call.opens < c.opens →
      ending = .dropped ∨ ending = .rejected ∧ c.circuit.probeInFlight = false

/-- Probes are the calls admitted since the circuit opened, and their successes are counted. -/
structure Inv (c : Connector) : Prop where
  opens_le : ∀ call ∈ c.calls, call.opens ≤ c.opens
  probes_le : c.probes ≤ if c.circuit.state = .halfOpen ∧ c.circuit.probeInFlight then 1 else 0
  opened : c.circuit.state = .opened → (∀ call ∈ c.calls, call.opens < c.opens) ∧
    c.circuit.successes = 0 ∧ c.probeSuccesses = 0
  halfOpen : c.circuit.state = .halfOpen →
    (∀ call ∈ c.calls, call.opens = c.opens → call.permit = .probe) ∧
      c.circuit.successes = c.probeSuccesses

variable {config} {c : Connector} {i : ℕ} {call : Call} {event : CallEvent}

theorem countP_eraseIdx (h : c.calls[i]? = some call) (p : Call → Bool) :
    (c.calls.eraseIdx i).countP p + (if p call then 1 else 0) = c.calls.countP p := by
  obtain ⟨hi, rfl⟩ := List.getElem?_eq_some_iff.mp h
  rw [← (List.getElem_cons_eraseIdx_perm hi).countP_eq, List.countP_cons]

/-- An admitted call is a probe when the circuit is half open after it. -/
theorem Inv.arrive (h : c.Inv) (now : ℕ) : (c.step config (.arrive now)).Inv := by
  obtain ⟨hle, hprobes, hopened, hhalf⟩ := h
  simp only [step]
  cases hadmit : c.circuit.beforeCall now with
  | error => exact ⟨hle, hprobes, hopened, hhalf⟩
  | ok admitted =>
    constructor <;> grind [probes, beforeCall]

/-- While the circuit is half open the call that ends is its probe. -/
theorem Inv.step (config : CircuitBreakerConfig) (h : c.Inv) (hcalm : c.Undisturbed event) :
    (c.step config event).Inv ∧
      (c.circuit.state = .halfOpen → (c.step config event).circuit.state = .closed →
        config.successThreshold.toNat ≤ (c.step config event).probeSuccesses) := by
  cases event with
  | arrive now =>
    refine ⟨h.arrive now, fun hhalf hclosed => ?_⟩
    grind [Connector.step, beforeCall]
  | finish i ending =>
    simp only [Connector.step]
    cases hcall : c.calls[i]? with
    | none => exact ⟨h, by simp +contextual⟩
    | some call =>
      obtain ⟨hle, hprobes, hopened, hhalf⟩ := h
      have hsub := fun x => List.mem_of_mem_eraseIdx (l := c.calls) (i := i) (a := x)
      have hcount := countP_eraseIdx hcall (·.permit = .probe)
      have hstale := fun hhalf => hcalm hhalf i ending call rfl hcall
      cases ending with
      | rejected =>
        refine ⟨?_, ?_⟩
        · constructor <;> grind [conclude, probes, cancelInflightProbe]
        · grind [conclude, cancelInflightProbe]
      | dropped =>
        refine ⟨?_, ?_⟩
        · constructor <;> grind [conclude, probes]
        · grind [conclude]
      | completed outcome latency now openedAt =>
        have hthreshold := config.successThreshold.toNat_lt
        simp only [conclude]
        split
        · refine ⟨?_, ?_⟩
          · constructor <;> grind [probes, recordFailure, openCircuit]
          · grind [recordFailure, openCircuit]
        · refine ⟨?_, ?_⟩
          · constructor <;> grind [probes, recordSuccess, saturatingSucc]
          · grind [recordSuccess, saturatingSucc]

/-- The end of a call that was admitted before the circuit opened changes a half-open circuit, unless
it is dropped or rejected between two probes. -/
theorem Disciplined.undisturbed (h : c.Disciplined config event) : c.Undisturbed event := by
  intro hhalf i ending call hevent hcall hopens
  have hsame := h.stale hhalf i ending call hevent hcall hopens
  have hthreshold := config.successThreshold.toNat_lt
  simp only [Connector.step] at hsame
  cases ending with
  | dropped => exact .inl rfl
  | rejected => grind [conclude, cancelInflightProbe]
  | completed outcome latency now openedAt =>
    grind [conclude, recordFailure, openCircuit, recordSuccess, saturatingSucc]

theorem Inv.disciplined (h : c.Inv) (hcalm : c.Undisturbed event) : c.Disciplined config event := by
  obtain ⟨hinv, hcloses⟩ := h.step config hcalm
  refine ⟨fun _ => Nat.le_trans hinv.probes_le ?_, hcloses, ?_⟩
  · split_ifs <;> omega
  · intro hhalf i ending call hevent hcall hopens
    obtain rfl | ⟨rfl, hflight⟩ := hcalm hhalf i ending call hevent hcall hopens
    · simp [hevent, Connector.step, hcall, conclude]
    · simp only [hevent, Connector.step, hcall, conclude, cancelInflightProbe,
        if_pos hhalf, ← hflight]

variable (config) (now : ℕ) (events : ℕ → CallEvent) (n : ℕ)

theorem inv_after (h : ∀ m < n, (after config now events m).Undisturbed (events m)) :
    (after config now events n).Inv := by
  induction n with
  | zero => constructor <;> simp [after, new, CircuitInner.new, probes]
  | succ n ih => exact ((ih fun m hm => h m (by omega)).step config (h n (by omega))).1

/-- The half-open state is disciplined exactly when no call from before the opening ends in it. -/
theorem disciplined_iff_undisturbed :
    (∀ m < n, (after config now events m).Disciplined config (events m)) ↔
      ∀ m < n, (after config now events m).Undisturbed (events m) := by
  refine ⟨fun h m hm => (h m hm).undisturbed, fun h m hm => ?_⟩
  exact (inv_after config now events m fun k hk => h k (by omega)).disciplined (h m hm)

/-- Two calls are admitted and the first fails and opens the circuit; while the probe runs, the second
succeeds, and another probe is admitted beside the first. -/
theorem two_probes :
    let c := after ⟨1, 2, 30, 60, .anyError⟩ 0 ([.arrive 0, .arrive 0,
      .finish 0 (.completed .failure 5 5 5), .arrive 35,
      .finish 0 (.completed .success 40 40 40)].getD · (.arrive 41)) 6
    c.circuit.state = .halfOpen ∧ c.probes = 2 := by
  decide

/-! ### A dropped probe -/

def Locked (c : Connector) : Prop := c.circuit.state = .halfOpen ∧ c.circuit.probeInFlight = true

def TakesProbe (c : Connector) (event : CallEvent) : Prop :=
  ∃ now circuit, event = .arrive now ∧ c.circuit.beforeCall now = .ok (.probe, circuit)

/-- The bulkhead rejects a call or a call completes. -/
def Ends (c : Connector) (event : CallEvent) : Prop :=
  ∃ i ending call, event = .finish i ending ∧ c.calls[i]? = some call ∧ ending ≠ .dropped

theorem locked_step : (c.step config event).Locked ↔
    c.TakesProbe event ∨ c.Locked ∧ ¬ c.Ends event := by
  cases event with
  | arrive now => grind [Locked, TakesProbe, Ends, Connector.step, beforeCall]
  | finish i ending =>
    have htakes : ¬ c.TakesProbe (.finish i ending) := by simp [TakesProbe]
    simp only [Connector.step]
    cases hcall : c.calls[i]? with
    | none => simp [htakes, Ends, hcall]
    | some call =>
      cases ending with
      | dropped => simp [htakes, Ends, conclude, Locked]
      | rejected => grind [Locked, Ends, conclude, cancelInflightProbe]
      | completed outcome latency now openedAt =>
        grind [Locked, Ends, conclude, recordFailure, openCircuit, recordSuccess]

/-- Since the last probe was admitted no call was rejected and none completed. -/
def ProbeAbandoned : Prop :=
  ∃ k < n, (after config now events k).TakesProbe (events k) ∧
    ∀ m < n, k < m → ¬ (after config now events m).Ends (events m)

theorem locked_after : (after config now events n).Locked ↔ ProbeAbandoned config now events n := by
  induction n with
  | zero => simp [after, new, CircuitInner.new, Locked, ProbeAbandoned]
  | succ n ih =>
    rw [after, locked_step, ih]
    constructor
    · rintro (htakes | ⟨⟨k, hk, htakes, hquiet⟩, hends⟩)
      · exact ⟨n, by omega, htakes, by omega⟩
      · exact ⟨k, by omega, htakes, by grind⟩
    · rintro ⟨k, hk, htakes, hquiet⟩
      by_cases hkn : k = n
      · exact .inl (hkn ▸ htakes)
      · have hkn : k < n := by omega
        exact .inr ⟨⟨k, hkn, htakes, fun m hm => hquiet m (by omega)⟩, hquiet n (by omega) hkn⟩

/-- No call is unfinished and an open period has elapsed. -/
def Idle (c : Connector) (now : ℕ) : Prop :=
  c.calls = [] ∧ (c.circuit.state = .opened → ∀ till ∈ c.circuit.openedUntil, till ≤ now)

theorem Idle.admits_iff {later : ℕ} (h : c.Idle later) :
    (c.circuit.beforeCall later).isOk = true ↔ ¬ c.Locked := by
  unfold beforeCall Locked
  cases hstate : c.circuit.state with
  | closed => simp [Except.toBool]
  | halfOpen => cases c.circuit.probeInFlight <;> simp [Except.toBool]
  | opened =>
    cases htill : c.circuit.openedUntil with
    | none => simp [Except.toBool]
    | some till => simp [Except.toBool, Nat.not_lt.mpr (h.2 hstate till htill)]

/-- An idle circuit admits the next call exactly when its last probe was not dropped. -/
theorem idle_admits_iff (later : ℕ) :
    ((after config now events n).Idle later →
        ((after config now events n).circuit.beforeCall later).isOk = true) ↔
      ((after config now events n).Idle later → ¬ ProbeAbandoned config now events n) := by
  rw [← locked_after]
  exact forall_congr' Idle.admits_iff

/-- The circuit opens, its probe is dropped, and every later call is rejected. -/
theorem dropped_probe_rejects_all :
    let c n := after ⟨1, 2, 30, 60, .anyError⟩ 0 (fun n => [.arrive 0,
      .finish 0 (.completed .failure 5 5 5), .arrive 35, .finish 0 .dropped].getD n (.arrive (40 + n)))
        (n + 4)
    ∀ n, (c n).calls = [] ∧ (c n).circuit.state = .halfOpen ∧
      ∀ later, (c n).circuit.beforeCall later = .error .halfOpenLimited := by
  intro c n
  have hc : c n = ⟨⟨.halfOpen, 0, 0, 0, some 35, true⟩, [], 1, 0⟩ := by
    induction n with
    | zero => rfl
    | succ n ih =>
      change (c n).step _ (.arrive (40 + (n + 4))) = _
      rw [ih]
      rfl
  simp [hc, beforeCall]

end Connector

end Flywheel.Host
