import Mathlib.Algebra.Ring.Nat
import Mathlib.Data.List.Induction
import Mathlib.Order.Nat

/-!
# The sliding window of a rate limiter

`SlidingWindow` of `fcp-ratelimit` with the queue behind its lock, which holds the times of the
grants that are within the window. It is pruned at the front before each use, and a reset clears
it. Times and durations are numbers of nanoseconds.
-/

namespace Flywheel.Host

open List

def nonzeroWindow (window : ℕ) : ℕ := if window = 0 then 1 else window

/-- `Duration::MAX`. -/
def durationMax : ℕ := 2 ^ 64 * 10 ^ 9 - 1

structure SlidingWindow where
  limit : UInt32
  window : ℕ
  window_pos : 0 < window

namespace SlidingWindow

def new (limit : UInt32) (window : ℕ) : SlidingWindow where
  limit := limit
  window := nonzeroWindow window
  window_pos := by
    unfold nonzeroWindow
    split_ifs <;> omega

variable (w : SlidingWindow) (timestamps : List ℕ) (now : ℕ)

def cleanupLocked : List ℕ := timestamps.dropWhile fun front => w.window ≤ now - front

def tryAcquire : Bool × List ℕ :=
  let timestamps := w.cleanupLocked timestamps now
  if timestamps.length < w.limit.toNat then (true, timestamps ++ [now]) else (false, timestamps)

def waitTime : ℕ × List ℕ :=
  if w.limit = 0 then (durationMax, timestamps)
  else
    let timestamps := w.cleanupLocked timestamps now
    if timestamps.length < w.limit.toNat then (0, timestamps)
    else
      let wait := timestamps.head?.elim 0 fun oldest =>
        let elapsed := now - oldest
        if elapsed < w.window then w.window - elapsed else 0
      (wait, timestamps)

/-- The queue and the times of all grants after calls at the given times since the last reset. -/
def run (times : List ℕ) : List ℕ × List ℕ :=
  times.foldl (fun (timestamps, grants) t =>
    let (granted, timestamps) := w.tryAcquire timestamps t
    (timestamps, if granted then grants ++ [t] else grants)) ([], [])

variable {timestamps}

/-- In a queue in order, pruning the front removes everything outside the window. -/
theorem cleanupLocked_eq (hsorted : timestamps.Pairwise (· ≤ ·)) :
    w.cleanupLocked timestamps now = timestamps.filter (now < · + w.window) := by
  have hpos := w.window_pos
  induction timestamps with
  | nil => rfl
  | cons t timestamps ih =>
    obtain ⟨hle, hrest⟩ := pairwise_cons.mp hsorted
    unfold cleanupLocked at ih ⊢
    by_cases hold : w.window ≤ now - t
    · rw [dropWhile_cons_of_pos (by simpa using hold), ih hrest, filter_cons_of_neg (by simp; omega)]
    · rw [dropWhile_cons_of_neg (by simpa using hold), filter_eq_self.mpr]
      intro u hu
      have hge : t ≤ u := (mem_cons.mp hu).elim (fun heq => heq.ge) (hle u)
      exact decide_eq_true (by omega)

variable {w now} {times : List ℕ} {t : ℕ}

/-- After the wait for the oldest entry of a queue there is room for another one. -/
theorem tryAcquire_waitTime (hsorted : timestamps.Pairwise (· ≤ ·))
    (hle : ∀ g ∈ timestamps, g ≤ now) (hlength : timestamps.length ≤ w.limit.toNat)
    (hlimit : 0 < w.limit.toNat) :
    (w.tryAcquire (w.waitTime timestamps now).2 (now + (w.waitTime timestamps now).1)).1 =
      true := by
  have hclean : w.cleanupLocked timestamps now <+ timestamps := dropWhile_sublist _
  have hagain (now') := w.cleanupLocked_eq now' (hsorted.sublist hclean)
  have hne : w.limit ≠ 0 := fun hzero => absurd hlimit (by rw [hzero]; decide)
  rw [waitTime, if_neg hne]
  by_cases hroom : (w.cleanupLocked timestamps now).length < w.limit.toNat
  · simp only [if_pos hroom, tryAcquire, hagain]
    rw [if_pos ((length_filter_le ..).trans_lt hroom)]
  simp only [if_neg hroom, tryAcquire, hagain]
  have hlive := w.cleanupLocked_eq now hsorted
  cases hold : w.cleanupLocked timestamps now with
  | nil => exact absurd hlimit (by rwa [hold] at hroom)
  | cons oldest rest =>
    rw [hold] at hclean hlive
    obtain ⟨hmem, hin⟩ := mem_filter.mp (hlive ▸ mem_cons_self)
    have hbefore := hle oldest hmem
    rw [decide_eq_true_eq] at hin
    simp only [head?_cons, Option.elim_some, if_pos (show now - oldest < w.window by omega)]
    rw [filter_cons_of_neg (by simp; omega), if_pos]
    exact (length_filter_le ..).trans_lt (hclean.length_le.trans hlength)

/-- One more call prunes the queue and is granted if that leaves room. -/
theorem run_append : w.run (times ++ [t]) =
    if (w.cleanupLocked (w.run times).1 t).length < w.limit.toNat then
      (w.cleanupLocked (w.run times).1 t ++ [t], (w.run times).2 ++ [t])
    else (w.cleanupLocked (w.run times).1 t, (w.run times).2) := by
  rw [run, foldl_append, ← run, foldl_cons, foldl_nil]
  by_cases hroom : (w.cleanupLocked (w.run times).1 t).length < w.limit.toNat <;>
    simp [tryAcquire, hroom]

/-- Pruned at a call, the queue has the grants within the window before the call. No interval as
long as the window has more grants than the limit. -/
theorem run_spec (hsorted : (times ++ [t]).Pairwise (· ≤ ·)) :
    (w.run times).1 <+ times ∧ (w.run times).2 <+ times ∧
      (w.run times).1.length ≤ w.limit.toNat ∧
      w.cleanupLocked (w.run times).1 t = (w.run times).2.filter (t < · + w.window) ∧
      ∀ a, (w.run times).2.countP (fun g => a ≤ g ∧ g < a + w.window) ≤ w.limit.toNat := by
  induction times using reverseRecOn generalizing t with
  | nil => exact ⟨.refl _, .refl _, Nat.zero_le _, rfl, by simp [run]⟩
  | append_singleton times s ih =>
    obtain ⟨hbefore, -, hlast⟩ := pairwise_append.mp hsorted
    obtain ⟨hqueue, hgrants, hlength, hpruned, hbounded⟩ := ih hbefore
    have hst : s ≤ t := hlast s (by simp) t (by simp)
    have hclean : w.cleanupLocked (w.run times).1 s <+ (w.run times).1 := dropWhile_sublist _
    have hleft := sublist_append_left times [s]
    have hfilter : ((w.run times).2.filter (s < · + w.window)).filter (t < · + w.window) =
        (w.run times).2.filter (t < · + w.window) := by
      rw [filter_filter]
      refine filter_congr fun g _ => ?_
      simp only [Bool.and_eq_left_iff_imp, decide_eq_true_eq]
      omega
    rw [run_append]
    split_ifs with hroom
    · have hcalls := (hclean.trans hqueue).append (.refl [s])
      refine ⟨hcalls, hgrants.append (.refl _), by rwa [length_append], ?_, fun a => ?_⟩
      · rw [cleanupLocked_eq _ _ (hbefore.sublist hcalls), hpruned, filter_append, filter_append,
          hfilter]
      rw [countP_append, countP_singleton]
      split_ifs with hin
      · -- the grants that share an interval with the new one are within its window
        rw [hpruned, ← countP_eq_length_filter] at hroom
        have hle := countP_mono_left (l := (w.run times).2)
          (p := fun g => decide (a ≤ g ∧ g < a + w.window)) (q := (s < · + w.window))
          fun g _ hg => by simp only [decide_eq_true_eq] at hin hg ⊢; omega
        omega
      · exact hbounded a
    · have hcalls := (hclean.trans hqueue).trans hleft
      refine ⟨hcalls, hgrants.trans hleft, hclean.length_le.trans hlength, ?_, hbounded⟩
      rw [cleanupLocked_eq _ _ (hbefore.sublist hcalls), hpruned, hfilter]

/-- A call is granted exactly if fewer than `limit` grants since the last reset lie in the window
before it. No interval as long as the window has more than `limit` grants, and a call that waits
as long as `wait_time` says after a refusal is granted. A new limiter has a window of at least one
nanosecond. -/
theorem grants_exact (w : SlidingWindow) :
    (∀ times t, (times ++ [t]).Pairwise (· ≤ ·) →
      ((w.tryAcquire (w.run times).1 t).1 = true ↔
        (w.run times).2.countP (fun g => t < g + w.window ∧ g ≤ t) < w.limit.toNat) ∧
      (∀ a, (w.run times).2.countP (fun g => a ≤ g ∧ g < a + w.window) ≤ w.limit.toNat) ∧
      ((w.tryAcquire (w.run times).1 t).1 = false → 0 < w.limit.toNat → ∀ now, t ≤ now →
        let refused := (w.tryAcquire (w.run times).1 t).2
        let (wait, timestamps) := w.waitTime refused now
        (w.tryAcquire timestamps (now + wait)).1 = true)) ∧
    ∀ limit window, (new limit window).limit = limit ∧
      (new limit window).window = max window 1 := by
  refine ⟨fun times t hsorted => ?_, fun limit window => ⟨rfl, ?_⟩⟩
  · obtain ⟨hqueue, hgrants, hlength, hpruned, hbounded⟩ := run_spec hsorted
    obtain ⟨hbefore, -, hlast⟩ := pairwise_append.mp hsorted
    have hle : ∀ g ∈ times, g ≤ t := fun g hg => hlast g hg t (mem_singleton_self t)
    refine ⟨?_, hbounded, fun hrefused hlimit now hnow => ?_⟩
    · have hcount : (w.run times).2.countP (fun g => t < g + w.window ∧ g ≤ t) =
          (w.cleanupLocked (w.run times).1 t).length := by
        rw [hpruned, ← countP_eq_length_filter]
        exact countP_congr fun g hg => by simp [hle g (hgrants.subset hg)]
      rw [hcount, tryAcquire]
      split_ifs with hroom <;> simp [hroom]
    · have hclean : (w.tryAcquire (w.run times).1 t).2 <+ (w.run times).1 := by
        rw [tryAcquire] at hrefused ⊢
        split_ifs at hrefused ⊢
        exact dropWhile_sublist _
      have hcalls := hclean.trans hqueue
      exact tryAcquire_waitTime (hbefore.sublist hcalls)
        (fun g hg => (hle g (hcalls.subset hg)).trans hnow) (hclean.length_le.trans hlength) hlimit
  · change nonzeroWindow window = _
    unfold nonzeroWindow
    split_ifs <;> omega

/-- With a window of zero, two calls at one time are not both granted, though no interval that
ends there holds the first one. -/
theorem zero_window_refuses :
    ((new 1 0).tryAcquire ((new 1 0).run [0]).1 0).1 = false ∧
      ((new 1 0).run [0]).2.countP (fun g => 0 < g + 0 ∧ g ≤ 0) < (new 1 0).limit.toNat := by
  decide

end SlidingWindow

end Flywheel.Host
