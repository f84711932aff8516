import Mathlib.Algebra.Ring.Nat
import Mathlib.Order.MinMax

/-!
# Hybrid logical clocks

`HybridLogicalClock` of `fcp-audit`. A timestamp has a physical and a logical part, and a node
produces one with every tick and for every remote timestamp it merges. They grow along
happened-before as long as no call needs one behind the last that fits its two words: there the
physical part saturates and the logical part starts again from zero.
-/

namespace Flywheel.Core

structure HybridLogicalTimestamp where
  physicalMs : UInt64
  logical : UInt32
  nodeId : String
  deriving DecidableEq

namespace HybridLogicalTimestamp

def fromPhysical (physicalMs : UInt64) (nodeId : String) : HybridLogicalTimestamp :=
  ⟨physicalMs, 0, nodeId⟩

def cmp (a b : HybridLogicalTimestamp) : Ordering :=
  (compare a.physicalMs b.physicalMs).then
    ((compare a.logical b.logical).then (compare a.nodeId b.nodeId))

instance : LT HybridLogicalTimestamp := ⟨fun a b => a.cmp b = .lt⟩

/-- Both parts as one number, the logical part in the lower digits. -/
def time (t : HybridLogicalTimestamp) : ℕ := t.physicalMs.toNat * 2 ^ 32 + t.logical.toNat

theorem cmp_of_time_lt {a b : HybridLogicalTimestamp} (h : a.time < b.time) :
    a.cmp b = .lt ∧ b.cmp a = .gt := by
  have hb := b.logical.toNat_lt
  unfold time at h
  simp only [cmp, compare, compareOfLessAndEq, UInt64.lt_iff_toNat_lt, ← UInt64.toNat_inj,
    UInt32.lt_iff_toNat_lt, ← UInt32.toNat_inj]
  rcases Nat.lt_or_ge a.physicalMs.toNat b.physicalMs.toNat with hlt | hge
  · simp [hlt, hlt.ne', hlt.not_gt]
  · have heq : a.physicalMs.toNat = b.physicalMs.toNat := by omega
    have hlt : a.logical.toNat < b.logical.toNat := by omega
    simp [heq, hlt, hlt.ne', hlt.not_gt]

end HybridLogicalTimestamp

open HybridLogicalTimestamp

structure HybridLogicalClock where
  nodeId : String
  last : HybridLogicalTimestamp

/-- A tick, or a merge of a remote timestamp. -/
structure ClockCall where
  remote : Option HybridLogicalTimestamp
  physicalMs : UInt64

/-- A call and the timestamp it produced. -/
structure ClockEvent where
  call : ClockCall
  stamp : HybridLogicalTimestamp

/-- An event is earlier than another one, and so is what it merged. -/
def ClockEvent.Earlier (e f : ClockEvent) : Prop :=
  e.stamp < f.stamp ∧ ∀ remote ∈ e.call.remote, remote < f.stamp

/-- What an event merged is earlier than its timestamp. -/
def ClockEvent.AfterMerged (e : ClockEvent) : Prop := ∀ remote ∈ e.call.remote, remote < e.stamp

namespace HybridLogicalClock

def new (nodeId : String) : HybridLogicalClock := ⟨nodeId, .fromPhysical 0 nodeId⟩

/-- `saturating_add` of one to a word of the given width. -/
def saturatingSucc (width v : ℕ) : ℕ := min (v + 1) (2 ^ width - 1)

variable (c : HybridLogicalClock)

def incrementAt (physicalMs : UInt64) : HybridLogicalTimestamp :=
  if c.last.logical.toNat = 2 ^ 32 - 1 then
    .fromPhysical (.ofNat (saturatingSucc 64 physicalMs.toNat)) c.nodeId
  else ⟨physicalMs, .ofNat (saturatingSucc 32 c.last.logical.toNat), c.nodeId⟩

variable (call : ClockCall)

/-- The timestamp that a call produces, which the clock then keeps as its last one. -/
def produced : HybridLogicalTimestamp :=
  let last := c.last
  match call.remote with
  | none =>
    if last.physicalMs < call.physicalMs then .fromPhysical call.physicalMs c.nodeId
    else c.incrementAt last.physicalMs
  | some remote =>
    let maxPhysical :=
      max (max call.physicalMs.toNat last.physicalMs.toNat) remote.physicalMs.toNat
    let logical :=
      if maxPhysical = last.physicalMs.toNat ∧ maxPhysical = remote.physicalMs.toNat then
        saturatingSucc 32 (max last.logical.toNat remote.logical.toNat)
      else if maxPhysical = last.physicalMs.toNat then saturatingSucc 32 last.logical.toNat
      else if maxPhysical = remote.physicalMs.toNat then saturatingSucc 32 remote.logical.toNat
      else 0
    if logical = 2 ^ 32 - 1 then .fromPhysical (.ofNat (saturatingSucc 64 maxPhysical)) c.nodeId
    else ⟨.ofNat maxPhysical, .ofNat logical, c.nodeId⟩

/-- The latest time that a call starts from. -/
def startTime : ℕ := max c.last.time ((call.remote.map time).getD 0)

/-- A call needs a time behind the last one that fits. A merge does not use the last logical value
either. -/
def Exhausted : Prop :=
  (if call.remote.isNone then 2 ^ 96 - 1 else 2 ^ 96 - 2) ≤ c.startTime call

/-- A call goes on to a later time, and back when there is none. -/
theorem time_produced :
    (c.Exhausted call → (c.produced call).time < c.startTime call) ∧
      (¬ c.Exhausted call → c.startTime call < (c.produced call).time) := by
  have hphysical := c.last.physicalMs.toNat_lt
  have hlogical := c.last.logical.toNat_lt
  have hreading := call.physicalMs.toNat_lt
  cases hcall : call.remote with
  | none =>
    simp only [Exhausted, startTime, produced, hcall, incrementAt, UInt64.lt_iff_toNat_lt]
    split_ifs <;> simp [time, fromPhysical, saturatingSucc] at * <;> omega
  | some remote =>
    have hremote' := remote.logical.toNat_lt
    simp only [Exhausted, startTime, produced, hcall]
    split_ifs <;> simp [time, fromPhysical, saturatingSucc] at * <;> omega

/-- The events of a sequence of calls. -/
def run (c : HybridLogicalClock) : List ClockCall → List ClockEvent
  | [] => []
  | call :: calls =>
    let stamp := c.produced call
    ⟨call, stamp⟩ :: run { c with last := stamp } calls

/-- No call of a sequence is exhausted. -/
def NeverExhausted (c : HybridLogicalClock) : List ClockCall → Prop
  | [] => True
  | call :: calls =>
    ¬ c.Exhausted call ∧ NeverExhausted { c with last := c.produced call } calls

variable {c : HybridLogicalClock} {calls : List ClockCall}

/-- Without an exhausted call the times of a node grow. -/
theorem run_of_neverExhausted (h : c.NeverExhausted calls) :
    (∀ e ∈ c.run calls, c.last.time < e.stamp.time ∧
      ∀ remote ∈ e.call.remote, remote.time < e.stamp.time) ∧
    (c.run calls).Pairwise fun e f => e.stamp.time < f.stamp.time := by
  induction calls generalizing c with
  | nil => exact ⟨List.forall_mem_nil _, .nil⟩
  | cons call calls ih =>
    obtain ⟨hlast, hremote⟩ := max_lt_iff.mp ((c.time_produced call).2 h.1)
    obtain ⟨hevents, hpairs⟩ := ih h.2
    refine ⟨List.forall_mem_cons.mpr ⟨⟨hlast, fun remote hmem => ?_⟩, fun e he => ?_⟩,
      List.pairwise_cons.mpr ⟨fun e he => (hevents e he).1, hpairs⟩⟩
    · rwa [Option.mem_def.mp hmem] at hremote
    · exact ⟨hlast.trans (hevents e he).1, (hevents e he).2⟩

/-- An exhausted call produces a timestamp that is earlier than one it has to follow. -/
theorem neverExhausted_of_run (hlast : 0 < c.last.time → ∀ e ∈ c.run calls, c.last < e.stamp)
    (h : (c.run calls).Pairwise ClockEvent.Earlier) (hmerged : ∀ e ∈ c.run calls, e.AfterMerged) :
    c.NeverExhausted calls := by
  induction calls generalizing c with
  | nil => trivial
  | cons call calls ih =>
    obtain ⟨hcall, hmerged⟩ := List.forall_mem_cons.mp hmerged
    obtain ⟨hfirst, h⟩ := List.pairwise_cons.mp h
    refine ⟨fun hexhausted => ?_, ih (fun _ e he => (hfirst e he).1) h hmerged⟩
    rcases lt_max_iff.mp ((c.time_produced call).1 hexhausted) with hback | hback
    · have hlt := hlast (by omega) _ List.mem_cons_self
      cases (cmp_of_time_lt hback).2.symm.trans hlt
    · cases hremote : call.remote with
      | none => simp [hremote] at hback
      | some remote =>
        rw [hremote] at hback
        cases (cmp_of_time_lt hback).2.symm.trans (hcall remote hremote)

end HybridLogicalClock

open HybridLogicalClock

/-! ### Several nodes -/

variable (calls : String → List ClockCall)

/-- Event `place.2` of node `place.1`, where every node makes its own calls. -/
def eventAt (place : String × ℕ) : Option ClockEvent :=
  ((new place.1).run (calls place.1))[place.2]?

/-- An event is followed by the later ones of its node and by those that merge its timestamp. -/
def Precedes (a b : String × ℕ) : Prop :=
  ∃ e f, eventAt calls a = some e ∧ eventAt calls b = some f ∧
    (a.1 = b.1 ∧ a.2 < b.2 ∨ f.call.remote = some e.stamp)

/-- Timestamps are greater than the earlier ones of their node and than all that it has merged, and
they grow along happened-before. -/
structure RespectsCausality (calls : String → List ClockCall) : Prop where
  node : ∀ n, ((new n).run (calls n)).Pairwise ClockEvent.Earlier
  merged : ∀ n, ∀ e ∈ (new n).run (calls n), e.AfterMerged
  causal : ∀ {a b e f}, Relation.TransGen (Precedes calls) a b → eventAt calls a = some e →
    eventAt calls b = some f → e.stamp < f.stamp

/-- Clocks respect causality in exactly the runs without an exhausted call. -/
theorem respectsCausality_iff :
    RespectsCausality calls ↔ ∀ n, (new n).NeverExhausted (calls n) := by
  constructor
  · refine fun h n => neverExhausted_of_run (fun hpos => ?_) (h.node n) (h.merged n)
    simp [new, fromPhysical, time] at hpos
  · intro h
    have hrun := fun n => run_of_neverExhausted (h n)
    refine ⟨fun n => ?_, fun n e he remote hmem =>
      (cmp_of_time_lt (((hrun n).1 e he).2 remote hmem)).1, fun {a b e f} hbefore he hf => ?_⟩
    · refine (hrun n).2.imp_of_mem fun {e f} he _ hlt => ⟨(cmp_of_time_lt hlt).1, ?_⟩
      exact fun remote hmem => (cmp_of_time_lt ((((hrun n).1 e he).2 remote hmem).trans hlt)).1
    · refine (cmp_of_time_lt ?_).1
      -- each link of happened-before goes to a later time
      have hlink : ∀ {a b e f}, Precedes calls a b → eventAt calls a = some e →
          eventAt calls b = some f → e.stamp.time < f.stamp.time := by
        rintro ⟨n, i⟩ ⟨m, j⟩ e f ⟨e', f', he', hf', hor⟩ he hf
        cases he.symm.trans he'
        cases hf.symm.trans hf'
        rcases hor with ⟨rfl, hij⟩ | hmerged
        · obtain ⟨hi, rfl⟩ := List.getElem?_eq_some_iff.mp he
          obtain ⟨hj, rfl⟩ := List.getElem?_eq_some_iff.mp hf
          exact List.pairwise_iff_getElem.mp (hrun n).2 i j hi hj hij
        · exact ((hrun m).1 f (List.mem_of_getElem? hf)).2 _ hmerged
      induction hbefore generalizing f with
      | single hlast => exact hlink hlast he hf
      | tail _ hlast ih =>
        obtain ⟨g, _, hg, -⟩ := id hlast
        exact (ih hg).trans (hlink hlast hg hf)

/-- The calls of a node that only merges the last but one of all timestamps. -/
def mergesLate (n : String) : List ClockCall :=
  if n = "a" then [⟨some ⟨0xffffffffffffffff, 0xfffffffe, "b"⟩, 0⟩] else []

/-- Its timestamp is less than the merged one. -/
theorem merged_timestamp_not_followed :
    eventAt mergesLate ("a", 0) = some ⟨⟨some ⟨0xffffffffffffffff, 0xfffffffe, "b"⟩, 0⟩,
        ⟨0xffffffffffffffff, 0, "a"⟩⟩ ∧ ¬ RespectsCausality mergesLate := by
  refine ⟨rfl, fun h => ?_⟩
  have hcmp : HybridLogicalTimestamp.cmp ⟨0xffffffffffffffff, 0xfffffffe, "b"⟩
      ⟨0xffffffffffffffff, 0, "a"⟩ = .gt := by decide
  cases hcmp.symm.trans (h.merged "a" _ List.mem_cons_self _ rfl)

end Flywheel.Core
