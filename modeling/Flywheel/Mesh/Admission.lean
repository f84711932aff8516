import Flywheel.Core.Ids

/-!
# Admission control by weighted windows

`AdmissionController` of `fcp-mesh` keeps, per peer, what was received in the
current 60-second window and in the one before. A check weights the previous
total by the part of that window that still lies within a minute, as if it had
arrived evenly. What one peer gets admitted within `d` milliseconds is therefore
bounded by the limit plus that share of it, not by the limit alone.

Bytes and symbols are checked and recorded in the same way. The counters of
failed authentications and of decode work, which no function here reads, are
left out.
-/

namespace Flywheel.Mesh

open Flywheel.Core
open Std (ExtTreeMap)

def windowMs : ℕ := 60000

/-- A counter of the current window and of the one before. -/
structure WindowCount where
  current : ℕ
  prev : ℕ
deriving DecidableEq

structure PeerUsage where
  bytes : WindowCount
  symbols : WindowCount
  windowStartMs : ℕ
deriving DecidableEq

structure AdmissionPolicy where
  maxBytesPerMin : ℕ
  maxSymbolsPerMin : ℕ
  requireAuthenticatedRequests : Bool
  maxAmplificationFactor : ℕ
  strictUnauthenticatedLimits : Bool
  maxTrackedPeers : ℕ
deriving DecidableEq

/-- `AdmissionError`, as far as the functions here return it; durations in milliseconds. -/
inductive AdmissionError where
  | byteBudgetExceeded (current limit retryAfter : ℕ)
  | symbolBudgetExceeded (current limit retryAfter : ℕ)
  | amplificationViolation (requestSymbols responseSymbols maxFactor : ℕ)
  | proofOfNeedRequired
  | authenticationRequired
  | trackingTableFull (current limit : ℕ)
deriving DecidableEq

structure AdmissionController where
  policy : AdmissionPolicy
  peerUsage : ExtTreeMap NodeId PeerUsage

def satAdd (width a b : ℕ) : ℕ := min (a + b) (2 ^ width - 1)

def satMul (width a b : ℕ) : ℕ := min (a * b) (2 ^ width - 1)

namespace PeerUsage

def new (nowMs : ℕ) : PeerUsage := ⟨⟨0, 0⟩, ⟨0, 0⟩, nowMs⟩

variable (u : PeerUsage)

def maybeResetWindow (nowMs : ℕ) : PeerUsage :=
  if windowMs * 2 ≤ nowMs - u.windowStartMs then ⟨⟨0, 0⟩, ⟨0, 0⟩, nowMs⟩
  else if windowMs ≤ nowMs - u.windowStartMs then
    ⟨⟨0, u.bytes.current⟩, ⟨0, u.symbols.current⟩, u.windowStartMs + windowMs⟩
  else u

def prevWindowWeight (nowMs : ℕ) : ℕ :=
  windowMs - min (nowMs - u.windowStartMs) windowMs

def effectiveBytesInWindow (nowMs : ℕ) : ℕ :=
  satAdd 64 (satMul 64 u.bytes.prev (u.prevWindowWeight nowMs) / windowMs) u.bytes.current

/-- `effective_symbols_in_window`: weighted in 64 bits and clamped to 32. -/
def effectiveSymbolsInWindow (nowMs : ℕ) : ℕ :=
  satAdd 32 (min (satMul 64 u.symbols.prev (u.prevWindowWeight nowMs) / windowMs) (2 ^ 32 - 1))
    u.symbols.current

def timeUntilWindowReset (nowMs : ℕ) : ℕ := windowMs - (nowMs - u.windowStartMs)

end PeerUsage

open PeerUsage

inductive Resource where
  | bytes
  | symbols
deriving DecidableEq

namespace Resource

def width : Resource → ℕ
  | bytes => 64
  | symbols => 32

def count : Resource → PeerUsage → WindowCount
  | bytes => PeerUsage.bytes
  | symbols => PeerUsage.symbols

def effective : Resource → PeerUsage → ℕ → ℕ
  | bytes => effectiveBytesInWindow
  | symbols => effectiveSymbolsInWindow

def exceeded : Resource → ℕ → ℕ → ℕ → AdmissionError
  | bytes => .byteBudgetExceeded
  | symbols => .symbolBudgetExceeded

def add (amount : ℕ) : Resource → PeerUsage → PeerUsage
  | bytes, u => { u with bytes := { u.bytes with current := satAdd 64 u.bytes.current amount } }
  | symbols, u =>
    { u with symbols := { u.symbols with current := satAdd 32 u.symbols.current amount } }

/-- The limits at which no sum and no product saturates below the limit. -/
def Unsaturated (limit : ℕ) : Resource → Prop
  | bytes => limit * windowMs < 2 ^ 64
  | symbols => limit < 2 ^ 32 - 1

end Resource

open Resource

namespace AdmissionController

def new (policy : AdmissionPolicy) : AdmissionController := ⟨policy, ∅⟩

variable (c : AdmissionController) (peer : NodeId)

def set (u : PeerUsage) : AdmissionController :=
  { c with peerUsage := c.peerUsage.insert peer u }

def getOrCreateUsage (nowMs : ℕ) : Except AdmissionError PeerUsage × AdmissionController :=
  match c.peerUsage[peer]? with
  | some u => (.ok u, c)
  | none =>
    if c.policy.maxTrackedPeers ≤ c.peerUsage.size then
      (.error (.trackingTableFull (min c.peerUsage.size (2 ^ 32 - 1)) c.policy.maxTrackedPeers), c)
    else (.ok (.new nowMs), c.set peer (.new nowMs))

/-- How every check and every record begins: the peer's tracker, its window advanced. -/
def currentUsage (nowMs : ℕ) : Except AdmissionError PeerUsage × AdmissionController :=
  match c.getOrCreateUsage peer nowMs with
  | (.error e, c) => (.error e, c)
  | (.ok u, c) => (.ok (u.maybeResetWindow nowMs), c.set peer (u.maybeResetWindow nowMs))

variable (r : Resource)

def checkWithLimit (c : AdmissionController) (peer : NodeId)
    (amount nowMs limit : ℕ) : Except AdmissionError Unit × AdmissionController :=
  match c.currentUsage peer nowMs with
  | (.error e, c) => (.error e, c)
  | (.ok u, c) =>
    if limit < satAdd r.width (r.effective u nowMs) amount then
      (.error (r.exceeded (r.effective u nowMs) limit (u.timeUntilWindowReset nowMs)), c)
    else (.ok (), c)

def checkBytesWithLimit := checkWithLimit .bytes

def checkSymbolsWithLimit := checkWithLimit .symbols

def record (c : AdmissionController) (peer : NodeId) (amount nowMs : ℕ) : AdmissionController :=
  match c.currentUsage peer nowMs with
  | (.error _, c) => c
  | (.ok u, c) => c.set peer (r.add amount u)

def recordBytes := record .bytes

def recordSymbols := record .symbols

/-- The admitted ones of a peer's attempts (time and amount), each of which is recorded. -/
def admitted (r : Resource) (peer : NodeId) (limit : ℕ) :
    AdmissionController → List (ℕ × ℕ) → List (ℕ × ℕ)
  | _, [] => []
  | c, (nowMs, amount) :: attempts =>
    match c.checkWithLimit r peer amount nowMs limit with
    | (.error _, c) => c.admitted r peer limit attempts
    | (.ok (), c) =>
      (nowMs, amount) :: (c.record r peer amount nowMs).admitted r peer limit attempts

/-- The tracker that a check reads, where the table has room for the peer. -/
def usageAt (nowMs : ℕ) : PeerUsage :=
  ((c.peerUsage[peer]?).getD (.new nowMs)).maybeResetWindow nowMs

/-- The table has no room for the peer. -/
def Full : Prop :=
  c.peerUsage[peer]? = none ∧ c.policy.maxTrackedPeers ≤ c.peerUsage.size

instance (c : AdmissionController) (peer : NodeId) : Decidable (c.Full peer) :=
  inferInstanceAs (Decidable (_ ∧ _))

end AdmissionController

/-! ## What one call does -/

section Calls

variable {c : AdmissionController} {peer : NodeId} {u : PeerUsage} {nowMs : ℕ}

theorem PeerUsage.maybeResetWindow_of_lt (h : nowMs - u.windowStartMs < windowMs) :
    u.maybeResetWindow nowMs = u := by
  rw [maybeResetWindow, if_neg (by omega), if_neg (by omega)]

theorem PeerUsage.elapsed_maybeResetWindow (u : PeerUsage) (nowMs : ℕ) :
    nowMs - (u.maybeResetWindow nowMs).windowStartMs < windowMs := by
  unfold maybeResetWindow windowMs
  split_ifs
  · show nowMs - nowMs < 60000
    omega
  · show nowMs - (u.windowStartMs + 60000) < 60000
    omega
  · omega

theorem PeerUsage.maybeResetWindow_eq_self_iff :
    u.maybeResetWindow nowMs = u ↔ nowMs - u.windowStartMs < windowMs := by
  refine ⟨fun h => ?_, maybeResetWindow_of_lt⟩
  have helapsed := u.elapsed_maybeResetWindow nowMs
  rwa [h] at helapsed

namespace AdmissionController

theorem set_eq_self_iff : c.set peer u = c ↔ c.peerUsage[peer]? = some u := by
  obtain ⟨policy, table⟩ := c
  simp only [set, AdmissionController.mk.injEq, true_and]
  constructor
  · intro h
    rw [← h]
    simp
  · intro h
    refine ExtTreeMap.ext_getElem? fun k => ?_
    rw [ExtTreeMap.getElem?_insert]
    split_ifs with hk
    · rw [← Std.LawfulEqCmp.compare_eq_iff_eq.mp hk, h]
    · rfl

@[simp] theorem getElem?_set : (c.set peer u).peerUsage[peer]? = some u := by simp [set]

@[simp] theorem set_set (v : PeerUsage) : (c.set peer u).set peer v = c.set peer v := by
  simp only [set, AdmissionController.mk.injEq, true_and]
  refine ExtTreeMap.ext_getElem? fun k => ?_
  simp only [ExtTreeMap.getElem?_insert]
  split_ifs <;> rfl

theorem currentUsage_of_full (nowMs : ℕ) (h : c.Full peer) :
    ∃ e, c.currentUsage peer nowMs = (.error e, c) := by
  rw [currentUsage, getOrCreateUsage, h.1]
  rw [if_pos h.2]
  exact ⟨_, rfl⟩

theorem currentUsage_of_not_full (h : ¬ c.Full peer) :
    c.currentUsage peer nowMs =
      (.ok (c.usageAt peer nowMs), c.set peer (c.usageAt peer nowMs)) := by
  unfold currentUsage getOrCreateUsage usageAt
  cases hpeer : c.peerUsage[peer]? with
  | some u => rfl
  | none =>
    rw [if_neg fun hsize => h ⟨hpeer, hsize⟩]
    simp

theorem currentUsage_set (h : nowMs - u.windowStartMs < windowMs) :
    (c.set peer u).currentUsage peer nowMs = (.ok u, c.set peer u) := by
  have hfull : ¬ (c.set peer u).Full peer := fun hfull => by
    have hnone := hfull.1
    rw [getElem?_set] at hnone
    cases hnone
  have husage : (c.set peer u).usageAt peer nowMs = u := by
    rw [usageAt, getElem?_set, Option.getD_some, maybeResetWindow_of_lt h]
  rw [currentUsage_of_not_full hfull, husage, set_set]

theorem elapsed_usageAt (c : AdmissionController) (peer : NodeId) (nowMs : ℕ) :
    nowMs - (c.usageAt peer nowMs).windowStartMs < windowMs :=
  elapsed_maybeResetWindow _ _

end AdmissionController

end Calls

/-! ## What one peer gets admitted -/

/-- The amount of the admissions whose time satisfies `p`. -/
def amountWhere (p : ℕ → Bool) (h : List (ℕ × ℕ)) : ℕ :=
  (h.map fun a => if p a.1 then a.2 else 0).sum

/-- The amount admitted in the `d` milliseconds from `lo` on. -/
def amountWithin (lo d : ℕ) (h : List (ℕ × ℕ)) : ℕ :=
  amountWhere (fun t => lo ≤ t && t ≤ lo + d) h

/-- What may be admitted within `d` milliseconds under a limit. -/
def burst (limit d : ℕ) : ℕ := limit + (limit * d + (windowMs - 1)) / windowMs

/-- Every stretch of at most a minute keeps to its bound. -/
def Bounded (limit : ℕ) (h : List (ℕ × ℕ)) : Prop :=
  ∀ lo d, d ≤ windowMs → amountWithin lo d h ≤ burst limit d

/-- The counters cover the admissions of their windows, and later ones there are none. -/
structure Covers (limit : ℕ) (count : WindowCount) (start : ℕ) (h : List (ℕ × ℕ)) : Prop where
  recent : ∀ a ∈ h, a.1 < start + windowMs
  le_current : amountWhere (start ≤ ·) h ≤ count.current
  le_prev : amountWhere (fun t => start ≤ t + windowMs && t < start) h ≤ count.prev
  current_le : count.current ≤ limit
  prev_le : count.prev ≤ limit

section Windows

variable {r : Resource} {limit nowMs start amount : ℕ} {count : WindowCount} {u : PeerUsage}
  {p q s : ℕ → Bool} {h : List (ℕ × ℕ)}

theorem amountWhere_le_add (hp : ∀ a ∈ h, p a.1 = true → q a.1 = true ∨ s a.1 = true) :
    amountWhere p h ≤ amountWhere q h + amountWhere s h := by
  induction h with
  | nil => simp [amountWhere]
  | cons a h ih =>
    have hrest := ih fun b hb => hp b (List.mem_cons_of_mem _ hb)
    have ha := hp a List.mem_cons_self
    simp only [amountWhere, List.map_cons] at hrest ⊢
    split_ifs at ha ⊢ <;> simp_all <;> omega

theorem amountWhere_eq_zero (hp : ∀ a ∈ h, p a.1 = false) : amountWhere p h = 0 := by
  rw [amountWhere, List.sum_eq_zero]
  intro x hx
  obtain ⟨a, ha, rfl⟩ := List.mem_map.mp hx
  rw [hp a ha]
  rfl

theorem amountWhere_mono (hp : ∀ a ∈ h, p a.1 = true → q a.1 = true) :
    amountWhere p h ≤ amountWhere q h := by
  have hle := amountWhere_le_add (s := fun _ => false) fun a ha hpa => .inl (hp a ha hpa)
  rwa [amountWhere_eq_zero (p := fun _ => false) fun _ _ => rfl] at hle

/-- Advancing the window keeps the counters above what they count. -/
theorem Covers.maybeResetWindow (hc : Covers limit (r.count u) u.windowStartMs h)
    (hstart : u.windowStartMs ≤ nowMs) :
    Covers limit (r.count (u.maybeResetWindow nowMs))
      (u.maybeResetWindow nowMs).windowStartMs h ∧
    (u.maybeResetWindow nowMs).windowStartMs ≤ nowMs := by
  unfold PeerUsage.maybeResetWindow
  split_ifs with htwo hone
  · have hcount : r.count ⟨⟨0, 0⟩, ⟨0, 0⟩, nowMs⟩ = ⟨0, 0⟩ := by cases r <;> rfl
    have hold : ∀ a ∈ h, a.1 + windowMs < nowMs := fun a ha => by
      have := hc.recent a ha
      omega
    rw [hcount]
    refine ⟨⟨fun a ha => ?_, (amountWhere_eq_zero fun a ha => ?_).le,
      (amountWhere_eq_zero fun a ha => ?_).le, Nat.zero_le _, Nat.zero_le _⟩, le_rfl⟩
    · have := hold a ha
      exact (show a.1 < nowMs + windowMs by omega)
    · have := hold a ha
      exact decide_eq_false (show ¬ nowMs ≤ a.1 by omega)
    · rw [decide_eq_false (Nat.not_le.mpr (hold a ha))]
      rfl
  · have hcount : r.count ⟨⟨0, u.bytes.current⟩, ⟨0, u.symbols.current⟩,
        u.windowStartMs + windowMs⟩ = ⟨0, (r.count u).current⟩ := by cases r <;> rfl
    rw [hcount]
    refine ⟨⟨fun a ha => ?_, (amountWhere_eq_zero fun a ha => ?_).le,
      (amountWhere_mono fun a _ hp => ?_).trans hc.le_current, Nat.zero_le _, hc.current_le⟩,
      (show u.windowStartMs + windowMs ≤ nowMs by omega)⟩
    · exact (hc.recent a ha).trans_le (Nat.le_add_right _ _)
    · exact decide_eq_false (Nat.not_le.mpr (hc.recent a ha))
    · have hle := of_decide_eq_true (Bool.and_elim_left hp)
      exact decide_eq_true (Nat.le_of_add_le_add_right hle)
  · exact ⟨hc, hstart⟩

/-- The weighted total of the previous window falls short of it by at most the share of the
limit that belongs to the time elapsed. -/
theorem prev_le_share {prev d elapsed : ℕ} (hprev : prev ≤ limit) (hd : elapsed ≤ d)
    (helapsed : elapsed ≤ windowMs) :
    prev ≤ prev * (windowMs - elapsed) / windowMs + (limit * d + (windowMs - 1)) / windowMs := by
  have hsplit : prev * (windowMs - elapsed) + prev * elapsed = prev * windowMs := by
    rw [← Nat.mul_add, Nat.sub_add_cancel helapsed]
  have hshare : prev * elapsed ≤ limit * d := Nat.mul_le_mul hprev hd
  unfold windowMs at *
  omega

/-- An amount that passes the check keeps every stretch within its bound. -/
theorem Covers.admit (hc : Covers limit count start h) (hb : Bounded limit h)
    (hstart : start ≤ nowMs) (hnow : nowMs < start + windowMs)
    (hcheck : count.prev * (windowMs - (nowMs - start)) / windowMs + count.current + amount ≤
      limit) :
    Covers limit ⟨count.current + amount, count.prev⟩ start (h ++ [(nowMs, amount)]) ∧
      Bounded limit (h ++ [(nowMs, amount)]) := by
  have hnew : ∀ p, amountWhere p (h ++ [(nowMs, amount)]) =
      amountWhere p h + if p nowMs then amount else 0 := fun p => by
    simp [amountWhere]
  have hle : ∀ lo, amountWhere (lo ≤ ·) h ≤
      amountWhere (fun t => lo ≤ t && t < start) h + count.current := fun lo =>
    (amountWhere_le_add fun a _ ha => by
      simp only [Bool.and_eq_true, decide_eq_true_eq] at ha ⊢
      omega).trans (Nat.add_le_add_left hc.le_current _)
  have hcurrent : count.current + amount ≤ limit :=
    (Nat.add_le_add_right (Nat.le_add_left _ _) _).trans hcheck
  refine ⟨⟨?_, ?_, ?_, hcurrent, hc.prev_le⟩, fun lo d hd => ?_⟩
  · intro a ha
    rcases List.mem_append.mp ha with ha | ha
    · exact hc.recent a ha
    · rw [List.mem_singleton.mp ha]
      exact hnow
  · rw [hnew, if_pos (decide_eq_true hstart)]
    exact Nat.add_le_add_right hc.le_current _
  · rw [hnew, if_neg (by simp [hstart])]
    exact hc.le_prev
  · rw [amountWithin, hnew]
    split_ifs with hin
    · simp only [Bool.and_eq_true, decide_eq_true_eq] at hin
      have hfrom : amountWhere (fun t => lo ≤ t && t ≤ lo + d) h ≤ amountWhere (lo ≤ ·) h :=
        amountWhere_mono fun a _ ha => Bool.and_elim_left ha
      have hbefore := hle lo
      rcases Nat.lt_or_ge lo start with hlo | hlo
      · -- The stretch reaches into the previous window, by less than it lasts.
        have hprev : amountWhere (fun t => lo ≤ t && t < start) h ≤ count.prev :=
          (amountWhere_mono fun a _ ha => by
            simp only [Bool.and_eq_true, decide_eq_true_eq] at ha ⊢
            omega).trans hc.le_prev
        have hshare := prev_le_share hc.prev_le (show nowMs - start ≤ d by omega)
          (by omega)
        rw [burst]
        omega
      · have hnone : amountWhere (fun t => lo ≤ t && t < start) h = 0 :=
          amountWhere_eq_zero fun a _ => by
            simp only [Bool.and_eq_false_iff, decide_eq_false_iff_not]
            omega
        have hburst : limit ≤ burst limit d := Nat.le_add_right _ _
        omega
    · exact hb lo d hd

end Windows

namespace AdmissionController

variable {r : Resource} {limit nowMs amount : ℕ} {h : List (ℕ × ℕ)} {c : AdmissionController}
  {peer : NodeId}

/-- What holds between the attempts of a peer, where `h` was admitted up to the time `last`. -/
structure Admits (r : Resource) (limit : ℕ) (c : AdmissionController) (peer : NodeId)
    (last : ℕ) (h : List (ℕ × ℕ)) : Prop where
  bounded : Bounded limit h
  untracked : c.peerUsage[peer]? = none → h = []
  tracked : ∀ u, c.peerUsage[peer]? = some u →
    u.windowStartMs ≤ last ∧ Covers limit (r.count u) u.windowStartMs h

theorem Admits.usageAt {last : ℕ} (ha : c.Admits r limit peer last h) (hnow : last ≤ nowMs) :
    Covers limit (r.count (c.usageAt peer nowMs)) (c.usageAt peer nowMs).windowStartMs h ∧
      (c.usageAt peer nowMs).windowStartMs ≤ nowMs := by
  rw [AdmissionController.usageAt]
  cases hpeer : c.peerUsage[peer]? with
  | some u => exact (ha.tracked u hpeer).2.maybeResetWindow ((ha.tracked u hpeer).1.trans hnow)
  | none =>
    rw [ha.untracked hpeer]
    refine Covers.maybeResetWindow ⟨nofun, Nat.zero_le _, Nat.zero_le _, ?_, ?_⟩ le_rfl <;>
      cases r <;> exact Nat.zero_le _

theorem count_add {u : PeerUsage} (hlimit : r.Unsaturated limit)
    (hsum : (r.count u).current + amount ≤ limit) :
    r.count (r.add amount u) = ⟨(r.count u).current + amount, (r.count u).prev⟩ := by
  cases r <;>
    simp only [count, add, Unsaturated, satAdd, windowMs,
      WindowCount.mk.injEq, and_true] at * <;>
    omega

/-- One attempt: it is turned away, or admitted and recorded; either way the bounds stay. -/
theorem Admits.attempt {last : ℕ} (amount : ℕ) (hlimit : r.Unsaturated limit)
    (ha : c.Admits r limit peer last h) (hnow : last ≤ nowMs) :
    match c.checkWithLimit r peer amount nowMs limit with
    | (.error _, c) => c.Admits r limit peer nowMs h
    | (.ok (), c) =>
      (c.record r peer amount nowMs).Admits r limit peer nowMs (h ++ [(nowMs, amount)]) := by
  obtain ⟨hcovers, hstart⟩ := ha.usageAt hnow
  have helapsed := c.elapsed_usageAt peer nowMs
  by_cases hfull : c.Full peer
  · obtain ⟨e, he⟩ := currentUsage_of_full nowMs hfull
    rw [checkWithLimit, he]
    exact ⟨ha.bounded, ha.untracked, fun u hu => by rw [hfull.1] at hu; cases hu⟩
  rw [checkWithLimit, currentUsage_of_not_full hfull]
  dsimp only
  split_ifs with hcheck
  · refine ⟨ha.bounded, fun hnone => ?_, fun u hu => ?_⟩
    · rw [getElem?_set] at hnone
      cases hnone
    · rw [getElem?_set, Option.some.injEq] at hu
      subst hu
      exact ⟨hstart, hcovers⟩
  · dsimp only
    rw [record, currentUsage_set helapsed]
    have hsum : (r.count (c.usageAt peer nowMs)).prev *
        (c.usageAt peer nowMs).prevWindowWeight nowMs / windowMs +
          (r.count (c.usageAt peer nowMs)).current + amount ≤ limit := by
      have hle : (c.usageAt peer nowMs).prevWindowWeight nowMs ≤ windowMs := Nat.sub_le _ _
      have hproduct := Nat.mul_le_mul hcovers.prev_le hle
      cases r with
      | bytes =>
        simp only [effective, effectiveBytesInWindow, width,
          count, Unsaturated, satAdd, satMul, windowMs] at *
        omega
      | symbols =>
        simp only [effective, effectiveSymbolsInWindow, width,
          count, Unsaturated, satAdd, satMul, windowMs] at *
        omega
    have hweight : (c.usageAt peer nowMs).prevWindowWeight nowMs =
        windowMs - (nowMs - (c.usageAt peer nowMs).windowStartMs) := by
      rw [prevWindowWeight, Nat.min_eq_left helapsed.le]
    rw [hweight] at hsum
    obtain ⟨hcovers, hbounded⟩ := hcovers.admit ha.bounded hstart (by omega) hsum
    refine ⟨hbounded, fun hnone => ?_, fun u hu => ?_⟩
    · rw [getElem?_set] at hnone
      cases hnone
    · rw [getElem?_set, Option.some.injEq] at hu
      subst hu
      have hcount := count_add hlimit hcovers.current_le
      have hsame : (r.add amount (c.usageAt peer nowMs)).windowStartMs =
        (c.usageAt peer nowMs).windowStartMs := by cases r <;> rfl
      rw [hcount, hsame]
      exact ⟨hstart, hcovers⟩

/-- Within `d` milliseconds a peer gets admitted at most the limit and the share of the limit
that belongs to that time. -/
theorem admitted_within_le (r : Resource) (c : AdmissionController) (peer : NodeId) (limit : ℕ)
    (attempts : List (ℕ × ℕ)) (hnew : c.peerUsage[peer]? = none)
    (htimes : attempts.Pairwise fun a b => a.1 ≤ b.1) (hlimit : r.Unsaturated limit)
    (lo d : ℕ) (hd : d ≤ windowMs) :
    amountWithin lo d (c.admitted r peer limit attempts) ≤ burst limit d := by
  -- The induction is over the attempts left, with what was admitted before them.
  have hrun : ∀ (attempts) (c : AdmissionController) (last)
      (h), attempts.Pairwise (fun a b => a.1 ≤ b.1) →
      (∀ a ∈ attempts, last ≤ a.1) → c.Admits r limit peer last h →
      Bounded limit (h ++ c.admitted r peer limit attempts) := by
    intro attempts
    induction attempts with
    | nil =>
      intro c last h _ _ ha
      rw [admitted, List.append_nil]
      exact ha.bounded
    | cons a attempts ih =>
      obtain ⟨nowMs, amount⟩ := a
      intro c last h htimes hlast ha
      obtain ⟨hlater, htimes⟩ := List.pairwise_cons.mp htimes
      have hstep := ha.attempt amount hlimit (hlast _ List.mem_cons_self)
      rw [admitted]
      rcases hcheck : c.checkWithLimit r peer amount nowMs limit with ⟨_ | _, c'⟩
      · rw [hcheck] at hstep
        exact ih c' nowMs h htimes hlater hstep
      · rw [hcheck] at hstep
        have hrest := ih _ nowMs _ htimes hlater hstep
        rwa [List.append_assoc] at hrest
  refine hrun attempts c 0 [] htimes (fun _ _ => Nat.zero_le _) ⟨?_, fun _ => rfl, ?_⟩ lo d hd
  · exact fun _ _ _ => Nat.zero_le _
  · intro u hu
    cases hnew.symm.trans hu

/-- Attempts that use up two windows, late in the first and late in the second. -/
def lateAttempts : List (ℕ × ℕ) := [(0, 1), (59999, 99), (119998, 100)]

def demoPolicy : AdmissionPolicy := ⟨100, 100, true, 10, true, 10⟩

theorem late_attempts_within_two_limits : burst 100 59999 = 200 ∧
    amountWithin 59999 59999 ((new demoPolicy).admitted .bytes "peer" 100 lateAttempts) ≤
      burst 100 59999 :=
  ⟨by decide, admitted_within_le .bytes (new demoPolicy) "peer" 100 lateAttempts (by decide +kernel)
    (by decide) (by unfold Unsaturated; decide) 59999 59999 (by decide)⟩

/-- Almost twice the limit gets admitted within a minute. -/
theorem late_attempts_exceed_limit :
    amountWithin 59999 59999 ((new demoPolicy).admitted .bytes "peer" 100 lateAttempts) = 199 ∧
    amountWithin 59999 59999 ((new demoPolicy).admitted .symbols "peer" 100 lateAttempts) =
      199 := by
  decide +kernel

end AdmissionController

end Flywheel.Mesh
