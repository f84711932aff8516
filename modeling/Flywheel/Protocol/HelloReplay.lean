import Flywheel.Data.Bytes
import Mathlib.Data.Finset.Basic

/-!
# Replayed hellos

`HelloReplayWindow` of `fcp-protocol` and `verify_hello_attested_with_replay`. A responder keeps the
senders and nonces of the hellos it accepted last, in their order and as a set. Whether a hello is
verified is a parameter of each call.
-/

namespace Flywheel.Protocol

open Flywheel.Data List

structure HelloReplayKey where
  from_ : String
  nonce : Bytes 16
  deriving DecidableEq

structure HelloReplayWindow where
  capacity : ℕ
  order : List HelloReplayKey
  seen : Finset HelloReplayKey

/-- `SessionError`, as far as it tells a replay from a hello that is not verified. -/
inductive HelloError (ε : Type)
  | unverified (error : ε)
  | duplicateHelloNonce
  deriving DecidableEq

namespace HelloReplayWindow

def new (capacity : ℕ) : HelloReplayWindow := ⟨max capacity 1, [], ∅⟩

/-- The loop of `check_and_update`. -/
def evict (capacity : ℕ) : List HelloReplayKey → Finset HelloReplayKey → HelloReplayWindow
  | [], seen => ⟨capacity, [], seen⟩
  | key :: order, seen =>
    if capacity < order.length + 1 then evict capacity order (seen.erase key)
    else ⟨capacity, key :: order, seen⟩

variable {ε : Type} (window : HelloReplayWindow) (key : HelloReplayKey)

def checkAndUpdate : Bool × HelloReplayWindow :=
  if key ∈ window.seen then (false, window)
  else (true, evict window.capacity (window.order ++ [key]) (insert key window.seen))

def verifyHelloAttestedWithReplay (verified : Except ε Unit) :
    Except (HelloError ε) Unit × HelloReplayWindow :=
  match verified with
  | .error error => (.error (.unverified error), window)
  | .ok () =>
    match window.checkAndUpdate key with
    | (true, window) => (.ok (), window)
    | (false, window) => (.error .duplicateHelloNonce, window)

/-- The window after some hellos, and the keys of those that were accepted, the last one first. -/
def run (capacity : ℕ) :
    List (HelloReplayKey × Except ε Unit) → HelloReplayWindow × List HelloReplayKey :=
  foldl (fun state hello =>
    match state.1.verifyHelloAttestedWithReplay hello.1 hello.2 with
    | (.ok (), window) => (window, hello.1 :: state.2)
    | (.error _, window) => (window, state.2)) (new capacity, [])

/-- The window that holds the last of the accepted keys. -/
def holding (capacity : ℕ) (accepted : List HelloReplayKey) : HelloReplayWindow :=
  ⟨capacity, (accepted.take capacity).reverse, (accepted.take capacity).toFinset⟩

/-- The loop keeps the last keys. -/
theorem evict_reverse (capacity : ℕ) {keys : List HelloReplayKey} (hnodup : keys.Nodup) :
    evict capacity keys.reverse keys.toFinset = holding capacity keys := by
  induction keys using reverseRecOn with
  | nil => simp [evict, holding]
  | append_singleton keys key ih =>
    obtain ⟨hkeys, -, hnew⟩ := nodup_append.mp hnodup
    have hseen : (keys ++ [key]).toFinset.erase key = keys.toFinset := by
      ext other
      rw [Finset.mem_erase, mem_toFinset, mem_toFinset, mem_append, mem_singleton]
      exact ⟨fun h => h.2.resolve_right h.1, fun h => ⟨hnew other h key mem_cons_self, .inl h⟩⟩
    rw [reverse_append, reverse_singleton, singleton_append, evict, length_reverse, holding]
    split_ifs with hfull
    · rw [take_append_of_le_length (by omega), ← holding, ← ih hkeys, hseen]
    · rw [take_of_length_le (by simp; omega), reverse_append, reverse_singleton, singleton_append]

variable {capacity : ℕ} {accepted : List HelloReplayKey}

theorem take_cons_take (capacity : ℕ) (accepted : List HelloReplayKey) :
    (key :: accepted.take capacity).take capacity = (key :: accepted).take capacity := by
  cases capacity <;> simp [take_take]

/-- A new key comes in, and the oldest one goes when the window is full. -/
theorem checkAndUpdate_holding (hnodup : (accepted.take capacity).Nodup) :
    (holding capacity accepted).checkAndUpdate key =
      if key ∈ accepted.take capacity then (false, holding capacity accepted)
      else (true, holding capacity (key :: accepted)) := by
  simp only [checkAndUpdate, holding, mem_toFinset]
  split_ifs with hmem
  · rfl
  · rw [← reverse_cons, ← toFinset_cons, evict_reverse _ (nodup_cons.mpr ⟨hmem, hnodup⟩), holding,
      take_cons_take]

/-- After every run the window holds the last accepted keys. -/
theorem exists_run_eq (capacity : ℕ) (hellos : List (HelloReplayKey × Except ε Unit)) :
    ∃ accepted, run capacity hellos = (holding (max capacity 1) accepted, accepted) ∧
      (accepted.take (max capacity 1)).Nodup := by
  induction hellos using reverseRecOn with
  | nil => exact ⟨[], by simp [run, new, holding], by simp⟩
  | append_singleton hellos hello ih =>
    obtain ⟨accepted, hrun, hnodup⟩ := ih
    obtain ⟨key, error | ⟨⟩⟩ := hello <;>
      simp only [run, foldl_append, foldl_cons, foldl_nil, verifyHelloAttestedWithReplay] at hrun ⊢
    · exact ⟨accepted, by rw [hrun], hnodup⟩
    · rw [hrun, checkAndUpdate_holding key hnodup]
      split_ifs with hmem
      · exact ⟨accepted, rfl, hnodup⟩
      · refine ⟨key :: accepted, rfl, ?_⟩
        rw [← take_cons_take]
        exact (nodup_cons.mpr ⟨hmem, hnodup⟩).sublist (take_sublist ..)

/-- The queue and the set hold the same keys, each once. A verified hello is rejected as a replay
exactly if its key is among the last accepted ones, as many as the capacity or one. -/
theorem window_exact (capacity : ℕ) (hellos : List (HelloReplayKey × Except ε Unit)) :
    ∃ window accepted, run capacity hellos = (window, accepted) ∧ window.order.Nodup ∧
      window.seen = window.order.toFinset ∧ window.order.length ≤ max capacity 1 ∧
      ∀ key (verified : Except ε Unit),
        (window.verifyHelloAttestedWithReplay key verified).1 = .error .duplicateHelloNonce ↔
          verified = .ok () ∧ key ∈ accepted.take (max capacity 1) := by
  obtain ⟨accepted, hrun, hnodup⟩ := exists_run_eq capacity hellos
  refine ⟨_, accepted, hrun, nodup_reverse.mpr hnodup, toFinset_reverse.symm, ?_, ?_⟩
  · rw [holding, length_reverse]
    exact length_take_le ..
  · rintro key (error | ⟨⟩)
    · simp [verifyHelloAttestedWithReplay]
    · rw [verifyHelloAttestedWithReplay, checkAndUpdate_holding key hnodup]
      split_ifs with hmem <;> simp [hmem]

/-- A window of capacity zero keeps one key and rejects its replay. -/
theorem zero_capacity_keeps_one :
    ∃ (key : HelloReplayKey) (window : HelloReplayWindow) (accepted : List HelloReplayKey),
      run 0 [(key, (.ok () : Except Empty Unit))] = (window, accepted) ∧ window.order = [key] ∧
      (window.verifyHelloAttestedWithReplay key (.ok () : Except Empty Unit)).1 =
        .error .duplicateHelloNonce ∧ key ∉ accepted.take 0 :=
  ⟨⟨"a", List.Vector.replicate 16 0⟩, _, _, rfl, by decide, by decide, by decide⟩

end HelloReplayWindow

end Flywheel.Protocol
