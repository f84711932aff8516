import Flywheel.Core.Ids
import Mathlib.Data.Finset.Card

/-!
# Quorum policies

`QuorumPolicy` of `fcp-core`: the number of signatures each risk tier asks for,
from the number `n` of eligible nodes and the number `f` of tolerated faults. The
constructor only asks for `f < n`. Two critical-write quorums share a signer
outside every set of `f` faulty signers exactly when `3f < n`.
-/

namespace Flywheel.Core

open Finset

inductive RiskTier
  | safe
  | risky
  | dangerous
  | criticalWrite
  deriving DecidableEq

/-- `required_quorum`. A failed assertion is `none`. -/
def requiredQuorum (n f : UInt32) (riskTier : RiskTier) : Option UInt32 :=
  if ¬ 0 < n then none
  else if ¬ f < n then none
  else
    match riskTier with
    | .safe => some 1
    | .risky => some (f + 1)
    | .dangerous | .criticalWrite => some (n - f)

structure QuorumPolicy where
  zoneId : ZoneId
  eligibleNodes : UInt32
  maxFaults : UInt32
  allowDegradedMode : Bool
  degradedModeMinNodes : UInt32
  deriving DecidableEq

namespace QuorumPolicy

/-- `QuorumPolicy::new`. A failed assertion is `none`. -/
def new (zoneId : ZoneId) (eligibleNodes maxFaults : UInt32) : Option QuorumPolicy :=
  if ¬ 0 < eligibleNodes then none
  else if ¬ maxFaults < eligibleNodes then none
  else some
    { zoneId, eligibleNodes, maxFaults, allowDegradedMode := false, degradedModeMinNodes := 1 }

variable (p : QuorumPolicy)

def withDegradedMode (minNodes : UInt32) : QuorumPolicy :=
  { p with allowDegradedMode := true, degradedModeMinNodes := minNodes }

def requiredSignatures (riskTier : RiskTier) : Option UInt32 :=
  requiredQuorum p.eligibleNodes p.maxFaults riskTier

def isQuorumMet (signatureCount : UInt32) (riskTier : RiskTier) : Option Bool :=
  (p.requiredSignatures riskTier).map fun required => decide (required ≤ signatureCount)

def isDegraded (availableNodes : UInt32) : Bool :=
  availableNodes < p.eligibleNodes

def canProceedDegraded (availableNodes : UInt32) (riskTier : RiskTier) : Bool :=
  if !p.allowDegradedMode then false
  else if availableNodes < p.degradedModeMinNodes then false
  else riskTier == .safe

variable {p : QuorumPolicy}

/-- What the constructor checks, and the policy it builds. -/
theorem new_eq_some_iff {zoneId : ZoneId} {n f : UInt32} :
    new zoneId n f = some p ↔ f < n ∧ p = ⟨zoneId, n, f, false, 1⟩ := by
  by_cases hf : f < n
  · have hn : 0 < n := by
      exact Nat.zero_lt_of_lt hf
    rw [new, if_neg (not_not.mpr hn), if_neg (not_not.mpr hf), Option.some.injEq]
    exact ⟨fun h => ⟨hf, h.symm⟩, fun h => h.2.symm⟩
  · rw [new, if_pos hf, ite_self]
    exact ⟨fun h => (Option.some_ne_none p h.symm).elim, fun h => (hf h.1).elim⟩

/-- The signatures a tier requires under an accepted policy, as a number. -/
theorem requiredSignatures_of_lt (h : p.maxFaults < p.eligibleNodes) (riskTier : RiskTier) :
    ∃ required, p.requiredSignatures riskTier = some required ∧ required.toNat =
      match riskTier with
      | .safe => 1
      | .risky => p.maxFaults.toNat + 1
      | .dangerous | .criticalWrite => p.eligibleNodes.toNat - p.maxFaults.toNat := by
  have hlt := UInt32.lt_iff_toNat_lt.mp h
  have hn : 0 < p.eligibleNodes := by
    exact Nat.zero_lt_of_lt hlt
  have hbound := p.eligibleNodes.toNat_lt
  rw [requiredSignatures, requiredQuorum.eq_def, if_neg (not_not.mpr hn), if_neg (not_not.mpr h)]
  cases riskTier with
  | safe => exact ⟨1, rfl, rfl⟩
  | risky =>
    refine ⟨_, rfl, ?_⟩
    rw [UInt32.toNat_add, Nat.mod_eq_of_lt]
    · rfl
    · have hone : (1 : UInt32).toNat = 1 := rfl
      omega
  | dangerous | criticalWrite => exact ⟨_, rfl, UInt32.toNat_sub_of_le _ _ (UInt32.le_of_lt h)⟩

/-! ### Intersection of quorums -/

variable {α : Type}

/-- The signers reach the quorum of the tier. -/
def Certifies (p : QuorumPolicy) (riskTier : RiskTier) (signers : Finset α) : Prop :=
  p.isQuorumMet (UInt32.ofNat signers.card) riskTier = some true

instance (p : QuorumPolicy) (riskTier : RiskTier) (signers : Finset α) :
    Decidable (p.Certifies riskTier signers) :=
  inferInstanceAs (Decidable (_ = _))

variable [DecidableEq α]

/-- A set has two subsets that miss at most `f` members each and whose common members number at
most `f`, when it has at most `3f` members. -/
theorem exists_quorums_inter_subset {eligible : Finset α} {f : ℕ} (hf : f ≤ eligible.card)
    (hcard : eligible.card ≤ 3 * f) :
    ∃ q q' faulty : Finset α, q ⊆ eligible ∧ q' ⊆ eligible ∧ faulty ⊆ eligible ∧
      eligible.card ≤ q.card + f ∧ eligible.card ≤ q'.card + f ∧ faulty.card = f ∧
      q ∩ q' ⊆ faulty := by
  -- One quorum leaves out a set of `f`, the other leaves out `f` of the members of the first.
  obtain ⟨out, hout, houtCard⟩ := exists_subset_card_eq hf
  have hsplit := card_sdiff_add_card_eq_card hout
  obtain ⟨out', hout', hout'Card⟩ :=
    exists_subset_card_eq (Nat.min_le_left (eligible \ out).card f)
  have hsub : out' ⊆ eligible := hout'.trans sdiff_subset
  have hsplit' := card_sdiff_add_card_eq_card hsub
  have hinter : (eligible \ out) ∩ (eligible \ out') = (eligible \ out) \ out' := by
    ext s
    simp only [mem_inter, mem_sdiff]
    tauto
  have hinterCard := card_sdiff_add_card_eq_card hout'
  obtain ⟨faulty, hinterSub, hfaulty, hfaultyCard⟩ := exists_subsuperset_card_eq
    (show (eligible \ out) \ out' ⊆ eligible from
      sdiff_subset.trans sdiff_subset)
    (by omega) hf
  refine ⟨eligible \ out, eligible \ out', faulty, sdiff_subset, sdiff_subset,
    hfaulty, ?_, ?_, hfaultyCard, ?_⟩
  · omega
  · omega
  · rw [hinter]
    exact hinterSub

/-- Any two sets of eligible signers that certify a critical write share a signer outside every set
of `f` faulty ones. -/
def QuorumsIntersect (p : QuorumPolicy) (eligible : Finset α) : Prop :=
  ∀ q ⊆ eligible, ∀ q' ⊆ eligible, p.Certifies .criticalWrite q → p.Certifies .criticalWrite q' →
    ∀ faulty ⊆ eligible, faulty.card = p.maxFaults.toNat → ∃ s, s ∈ q ∧ s ∈ q' ∧ s ∉ faulty

/-- Critical-write quorums of an accepted policy share a signer outside any `f` faulty ones exactly
when `3f < n`. In that case two writes certified while every signer outside the faulty set signs at
most one write are the same write. -/
theorem criticalWrite_quorums_intersect (zoneId : ZoneId) (n f : UInt32) (p : QuorumPolicy)
    (hnew : new zoneId n f = some p) (eligible : Finset α) (hcard : eligible.card = n.toNat) :
    (p.QuorumsIntersect eligible ↔ 3 * f.toNat < n.toNat) ∧
      (3 * f.toNat < n.toNat → ∀ (Write : Type) (signed : α → Write → Prop)
        (q q' faulty : Finset α) (w w' : Write), q ⊆ eligible → q' ⊆ eligible →
        p.Certifies .criticalWrite q → p.Certifies .criticalWrite q' →
        faulty.card ≤ f.toNat → (∀ s ∈ q, signed s w) → (∀ s ∈ q', signed s w') →
        (∀ s, s ∉ faulty → ∀ v v', signed s v → signed s v' → v = v') → w = w') := by
  have hfaults : p.maxFaults = f := by rw [(new_eq_some_iff.mp hnew).2]
  have hlt : f.toNat < n.toNat := UInt32.lt_iff_toNat_lt.mp (new_eq_some_iff.mp hnew).1
  -- at most `f` of the eligible nodes are missing among the signers of a certified write
  have hcertifies {q : Finset α} (hq : q ⊆ eligible) :
      p.Certifies .criticalWrite q ↔ n.toNat ≤ q.card + f.toNat := by
    obtain ⟨hlt, rfl⟩ := new_eq_some_iff.mp hnew
    obtain ⟨required, hreq, hval⟩ :=
      requiredSignatures_of_lt (p := ⟨zoneId, n, f, false, 1⟩) hlt .criticalWrite
    have hle := card_le_card hq
    have hsize : q.card < 2 ^ 32 := by
      have := n.toNat_lt
      omega
    have hcount := UInt32.toNat_ofNat_of_lt' hsize
    rw [Certifies, isQuorumMet, hreq, Option.map_some, Option.some.injEq, decide_eq_true_eq,
      UInt32.le_iff_toNat_le, hcount, hval]
    exact Nat.sub_le_iff_le_add
  have hshare (hbft : 3 * f.toNat < n.toNat) {q q' faulty : Finset α} (hq : q ⊆ eligible)
      (hq' : q' ⊆ eligible) (hcert : p.Certifies .criticalWrite q)
      (hcert' : p.Certifies .criticalWrite q') (hfaulty : faulty.card ≤ f.toNat) :
      ∃ s, s ∈ q ∧ s ∈ q' ∧ s ∉ faulty := by
    have hsize := (hcertifies hq).mp hcert
    have hsize' := (hcertifies hq').mp hcert'
    have hunion : (q ∪ q').card ≤ eligible.card := card_le_card (union_subset hq hq')
    have hadd := card_union_add_card_inter q q'
    obtain ⟨s, hs, hnot⟩ := exists_mem_notMem_of_card_lt_card (show faulty.card < (q ∩ q').card by omega)
    exact ⟨s, mem_of_mem_inter_left hs, mem_of_mem_inter_right hs, hnot⟩
  refine ⟨⟨fun hintersect => ?_, fun hbft => ?_⟩, ?_⟩
  · by_contra hbft
    obtain ⟨q, q', faulty, hq, hq', hfaulty, hsize, hsize', hfaultyCard, hinter⟩ :=
      @exists_quorums_inter_subset α _ eligible f.toNat (by omega) (by omega)
    have hcert := (hcertifies hq).mpr (by omega)
    have hcert' := (hcertifies hq').mpr (by omega)
    obtain ⟨s, hs, hs', hnot⟩ :=
      hintersect q hq q' hq' hcert hcert' faulty hfaulty (by rw [hfaultyCard, hfaults])
    exact hnot (hinter (mem_inter.mpr ⟨hs, hs'⟩))
  · intro q hq q' hq' hcert hcert' faulty hfaulty hfaultyCard
    rw [hfaults] at hfaultyCard
    exact hshare hbft hq hq' hcert hcert' hfaultyCard.le
  · intro hbft Write signed q q' faulty w w' hq hq' hcert hcert' hfaulty hw hw' hhonest
    obtain ⟨s, hs, hs', hnot⟩ := hshare hbft hq hq' hcert hcert' hfaulty
    exact hhonest s hnot w w' (hw s hs) (hw' s hs')

/-- Four nodes, one fault: the quorums of three intersect outside any faulty node. -/
theorem four_nodes_quorums_intersect :
    ∃ p, new "z:work" 4 1 = some p ∧ p.QuorumsIntersect (range 4) := by
  have hnew : new "z:work" 4 1 = some ⟨"z:work", 4, 1, false, 1⟩ := by decide
  refine ⟨_, hnew, ?_⟩
  exact (criticalWrite_quorums_intersect "z:work" 4 1 _ hnew (range 4) rfl).1.mpr (by decide)

/-- Three nodes, one fault: the constructor accepts the policy, and two quorums of two share only
the faulty node. -/
theorem three_nodes_share_only_the_faulty :
    ∃ p, new "z:work" 3 1 = some p ∧
      p.Certifies .criticalWrite ({0, 1} : Finset ℕ) ∧
      p.Certifies .criticalWrite ({1, 2} : Finset ℕ) ∧
      ¬ ∃ s, s ∈ ({0, 1} : Finset ℕ) ∧ s ∈ ({1, 2} : Finset ℕ) ∧ s ∉ ({1} : Finset ℕ) := by
  refine ⟨⟨"z:work", 3, 1, false, 1⟩, by decide, by decide, by decide, ?_⟩
  rintro ⟨s, hs, hs', hnot⟩
  simp only [mem_insert, mem_singleton] at hs hs' hnot
  omega

end QuorumPolicy

end Flywheel.Core
