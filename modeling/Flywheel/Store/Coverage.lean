import Flywheel.Data.TreeMaps
import Mathlib.Data.List.Induction
import Mathlib.Data.List.Infix

/-!
# Coverage of an object by symbols

`CoverageEvaluation` of `fcp-store` measures in basis points how many symbols of an object are
stored and how large the share of a single node is. The repair controller asks for as many new
symbols as it takes to reach a target. It decides whether to repair from criteria of its own,
which leave out the number of nodes that the placement policy asks for.
-/

namespace Flywheel.Store

open Flywheel.Data

open Std (ExtTreeMap)

/-- The largest symbol count, a `u32`. -/
def countMax : ℕ := 2 ^ 32 - 1

/-- The symbols and bytes of every node, with the largest count of a node cached. -/
structure SymbolDistribution where
  nodes : ExtTreeMap UInt64 (ℕ × ℕ)
  sourceSymbols : ℕ
  totalSymbols : ℕ
  cachedMax : ℕ

structure CoverageEvaluation where
  distinctNodes : ℕ
  maxNodeFractionBps : ℕ
  coverageBps : ℕ
  isAvailable : Bool
  totalSymbols : ℕ
  sourceSymbols : ℕ

namespace SymbolDistribution

/-- `saturating_add(1)` on a count. -/
def increment (count : ℕ) : ℕ := if count < countMax then count + 1 else count

def symbolsOn (dist : SymbolDistribution) (node : UInt64) : ℕ × ℕ := dist.nodes.getD node (0, 0)

def addSymbol (dist : SymbolDistribution) (node : UInt64) (bytes : ℕ) : SymbolDistribution :=
  let count := increment (dist.symbolsOn node).1
  { dist with
    nodes := dist.nodes.insert node (count, min ((dist.symbolsOn node).2 + bytes) (2 ^ 64 - 1))
    totalSymbols := increment dist.totalSymbols
    cachedMax := max dist.cachedMax count }

/-- Symbols of some sizes are added on some nodes. -/
def addSymbols (dist : SymbolDistribution) (symbols : List (UInt64 × ℕ)) : SymbolDistribution :=
  symbols.foldl (fun dist symbol => dist.addSymbol symbol.1 symbol.2) dist

/-- The symbol counts of the nodes. -/
def counts (nodes : ExtTreeMap UInt64 (ℕ × ℕ)) : List ℕ := nodes.toList.map fun entry => entry.2.1

/-- A node without symbols is dropped, and the largest count is looked up again if it was the
node's. -/
def removeSymbol (dist : SymbolDistribution) (node : UInt64) (bytes : ℕ) : SymbolDistribution :=
  match dist.nodes[node]? with
  | none => dist
  | some (count, stored) =>
    let nodes := if count - 1 = 0 then dist.nodes.erase node
      else dist.nodes.insert node (count - 1, stored - bytes)
    { dist with
      nodes
      totalSymbols := dist.totalSymbols - 1
      cachedMax := if count = dist.cachedMax then (counts nodes).foldr max 0 else dist.cachedMax }

inductive Call
  | addSymbol (node : UInt64) (bytes : ℕ)
  | removeSymbol (node : UInt64) (bytes : ℕ)

def call (dist : SymbolDistribution) : Call → SymbolDistribution
  | .addSymbol node bytes => dist.addSymbol node bytes
  | .removeSymbol node bytes => dist.removeSymbol node bytes

/-- What calls make of `SymbolDistribution::new`. -/
def run (sourceSymbols : ℕ) (calls : List Call) : SymbolDistribution :=
  calls.foldl call ⟨∅, sourceSymbols, 0, 0⟩

/-- `CoverageEvaluation::from_distribution`. The share of a node is cast to `u16`. -/
def evaluation (dist : SymbolDistribution) : CoverageEvaluation where
  distinctNodes := dist.nodes.size
  maxNodeFractionBps :=
    if 0 < dist.totalSymbols then min (dist.cachedMax * 10000 / dist.totalSymbols % 2 ^ 16) 10000
    else 0
  coverageBps :=
    if 0 < dist.sourceSymbols then min (dist.totalSymbols * 10000 / dist.sourceSymbols) countMax
    else 10000
  isAvailable := dist.sourceSymbols ≤ dist.totalSymbols
  totalSymbols := dist.totalSymbols
  sourceSymbols := dist.sourceSymbols

end SymbolDistribution

namespace CoverageEvaluation

variable (coverage : CoverageEvaluation)

def symbolsNeeded (targetBps : ℕ) : ℕ :=
  if targetBps ≤ coverage.coverageBps then 0
  else
    min ((coverage.sourceSymbols * targetBps + 9999) / 10000 - coverage.totalSymbols) countMax

/-- The dominant count is recovered from the rounded share. No product is larger than a `u64`. -/
def concentrationRepairSymbolsNeeded (maxBps : ℕ) : ℕ :=
  if coverage.totalSymbols = 0 ∨ maxBps = 0 then 0
  else if coverage.maxNodeFractionBps ≤ maxBps then 0
  else
    let dominant := (coverage.maxNodeFractionBps * coverage.totalSymbols + 9999) / 10000
    let numerator := dominant * 10000 - maxBps * coverage.totalSymbols
    min ((numerator + (maxBps - 1)) / maxBps) countMax

end CoverageEvaluation

/-! ### Enough symbols -/

namespace SymbolDistribution

variable {dist : SymbolDistribution} {symbols : List (UInt64 × ℕ)}

theorem totals_addSymbols (h : dist.totalSymbols + symbols.length ≤ countMax) :
    (dist.addSymbols symbols).totalSymbols = dist.totalSymbols + symbols.length ∧
      (dist.addSymbols symbols).sourceSymbols = dist.sourceSymbols := by
  induction symbols generalizing dist with
  | nil => exact ⟨rfl, rfl⟩
  | cons symbol symbols ih =>
    rw [List.length_cons] at h ⊢
    have hstep : (dist.addSymbol symbol.1 symbol.2).totalSymbols = dist.totalSymbols + 1 :=
      if_pos (by omega)
    obtain ⟨htotal, hsource⟩ := @ih (dist.addSymbol symbol.1 symbol.2) (by omega)
    exact ⟨htotal.trans (by omega), hsource⟩

theorem le_increment (count : ℕ) : count ≤ increment count := by
  rw [increment]
  split_ifs <;> omega

theorem symbolsOn_le_addSymbol (node other : UInt64) (bytes : ℕ) :
    (dist.symbolsOn other).1 ≤ ((dist.addSymbol node bytes).symbolsOn other).1 := by
  simp only [symbolsOn, addSymbol, ExtTreeMap.getD_insert]
  split_ifs with hnode
  · rw [Std.LawfulEqCmp.compare_eq_iff_eq.mp hnode]
    exact le_increment _
  · exact Nat.le_refl _

theorem cachedMax_addSymbol (node : UInt64) (bytes : ℕ) :
    (dist.addSymbol node bytes).cachedMax =
      max dist.cachedMax ((dist.addSymbol node bytes).symbolsOn node).1 := by
  simp only [symbolsOn, addSymbol, ExtTreeMap.getD_insert_self]

/-- The largest count stays within a bound that every node with new symbols keeps. -/
theorem cachedMax_addSymbols {bound : ℕ} (hmax : dist.cachedMax ≤ bound)
    (h : ∀ symbol ∈ symbols, ((dist.addSymbols symbols).symbolsOn symbol.1).1 ≤ bound) :
    (dist.addSymbols symbols).cachedMax ≤ bound := by
  induction symbols using List.reverseRecOn with
  | nil => exact hmax
  | append_singleton symbols symbol ih =>
    rw [addSymbols, List.foldl_append] at h ⊢
    have hrest := ih fun other hother => Nat.le_trans
      (symbolsOn_le_addSymbol symbol.1 other.1 symbol.2) (h other (by simp [hother]))
    exact (cachedMax_addSymbol ..).trans_le (Nat.max_le.mpr ⟨hrest, h symbol (by simp)⟩)

variable (dist) in
/-- As many new symbols as `symbols_needed` says reach the target and one fewer does not, unless
the target takes more symbols than can be counted. As many as
`concentration_repair_symbols_needed` says bring the share of the dominant node within the bound,
if they can be counted and no node with new symbols gets past the dominant one. -/
theorem repair_sizes_suffice (hsource : 0 < dist.sourceSymbols)
    (htotal : dist.totalSymbols ≤ countMax) (hmax : dist.cachedMax ≤ dist.totalSymbols) :
    (∀ target ≤ countMax, dist.sourceSymbols * target ≤ 10000 * countMax →
      (∀ symbols, symbols.length = dist.evaluation.symbolsNeeded target →
        target ≤ (dist.addSymbols symbols).evaluation.coverageBps) ∧
      ∀ symbols, symbols.length + 1 = dist.evaluation.symbolsNeeded target →
        (dist.addSymbols symbols).evaluation.coverageBps < target) ∧
    ∀ maxBps > 0, ∀ symbols,
      symbols.length = dist.evaluation.concentrationRepairSymbolsNeeded maxBps →
      dist.totalSymbols + symbols.length ≤ countMax →
      (∀ symbol ∈ symbols,
        ((dist.addSymbols symbols).symbolsOn symbol.1).1 ≤ dist.cachedMax) →
      (dist.addSymbols symbols).evaluation.maxNodeFractionBps ≤ maxBps := by
  constructor
  · intro target htarget hfits
    have hcoverage : ∀ symbols, dist.totalSymbols + symbols.length ≤ countMax →
        (target ≤ (dist.addSymbols symbols).evaluation.coverageBps ↔
          dist.sourceSymbols * target ≤ (dist.totalSymbols + symbols.length) * 10000) := by
      intro symbols hcount
      obtain ⟨htotal', hsource'⟩ := totals_addSymbols hcount
      simp only [evaluation, htotal', hsource', if_pos hsource]
      rw [Nat.le_min, and_iff_left htarget, Nat.le_div_iff_mul_le hsource, Nat.mul_comm]
    have hnow : target ≤ dist.evaluation.coverageBps ↔
        dist.sourceSymbols * target ≤ dist.totalSymbols * 10000 := hcoverage [] htotal
    have hneeded : dist.evaluation.symbolsNeeded target =
        (dist.sourceSymbols * target + 9999) / 10000 - dist.totalSymbols := by
      simp only [CoverageEvaluation.symbolsNeeded, hnow]
      simp only [evaluation]
      split_ifs with hdone <;> omega
    constructor
    · intro symbols hlength
      exact (hcoverage symbols (by omega)).mpr (by omega)
    · intro symbols hlength
      exact Nat.lt_of_not_le fun hle => by
        have hcount := (hcoverage symbols (by omega)).mp hle
        omega
  · intro maxBps hpos symbols hlength hcount hbelow
    have hdominant := cachedMax_addSymbols (Nat.le_refl _) hbelow
    have htotal' := (totals_addSymbols hcount).1
    rcases Nat.eq_zero_or_pos dist.totalSymbols with hzero | hT
    · obtain rfl : symbols = [] := by
        simpa [CoverageEvaluation.concentrationRepairSymbolsNeeded, evaluation, hzero] using hlength
      simp [evaluation, addSymbols, hzero]
    have hfloor := Nat.lt_mul_div_succ (dist.cachedMax * 10000) hT
    have hshare : dist.cachedMax * 10000 / dist.totalSymbols ≤ 10000 :=
      Nat.div_le_of_le_mul (by omega)
    have hfraction : dist.evaluation.maxNodeFractionBps =
      min (dist.cachedMax * 10000 / dist.totalSymbols % 2 ^ 16) 10000 := if_pos hT
    generalize dist.cachedMax * 10000 / dist.totalSymbols = share at hfloor hshare hfraction
    rw [show min (share % 2 ^ 16) 10000 = share by omega] at hfraction
    suffices hlt : dist.cachedMax * 10000 <
        (maxBps + 1) * (dist.totalSymbols + symbols.length) by
      have hdiv := (Nat.div_lt_iff_lt_mul (Nat.add_pos_left hT symbols.length)).mpr
        (Nat.lt_of_le_of_lt (Nat.mul_le_mul_right 10000 hdominant) hlt)
      simp only [evaluation, htotal', if_pos (Nat.add_pos_left hT symbols.length)]
      exact Nat.le_trans (Nat.min_le_left _ _)
        (Nat.le_trans (Nat.mod_le _ _) (Nat.le_of_lt_succ hdiv))
    have hsame : dist.evaluation.totalSymbols = dist.totalSymbols := rfl
    simp only [CoverageEvaluation.concentrationRepairSymbolsNeeded, hfraction, hsame] at hlength
    split_ifs at hlength with hnone hle
    · omega
    · exact Nat.lt_of_lt_of_le hfloor (by
        rw [Nat.mul_comm]
        exact Nat.mul_le_mul (by omega) (by omega))
    · -- The recovered count is short of the true one by less than a basis point of all symbols.
      have hceil := Nat.lt_mul_div_succ ((share * dist.totalSymbols + 9999) / 10000 * 10000 -
        maxBps * dist.totalSymbols + (maxBps - 1)) hpos
      generalize ((share * dist.totalSymbols + 9999) / 10000 * 10000 -
        maxBps * dist.totalSymbols + (maxBps - 1)) / maxBps = needed at hlength hceil
      obtain rfl : symbols.length = needed := by omega
      rw [Nat.mul_succ dist.totalSymbols, Nat.mul_comm dist.totalSymbols] at hfloor
      rw [Nat.mul_succ maxBps] at hceil
      rw [Nat.add_mul, Nat.mul_add]
      omega

/-- Ten symbols of a node and an object of twenty source symbols. -/
def demoDistribution : SymbolDistribution := ⟨ExtTreeMap.empty.insert 1 (10, 640), 20, 10, 10⟩

theorem demoDistribution_repaired :
    (demoDistribution.addSymbols (List.replicate 10 (2, 64))).evaluation.maxNodeFractionBps ≤
      5000 :=
  (demoDistribution.repair_sizes_suffice (by decide) (by decide) (by decide)).2 5000 (by decide) _
    (by decide) (by decide) (by decide +kernel)

/-- No number of symbols is twice the largest number of source symbols. -/
theorem target_out_of_reach :
    (⟨∅, countMax, 0, 0⟩ : SymbolDistribution).evaluation.symbolsNeeded 20000 = countMax ∧
      ∀ symbols : List (UInt64 × ℕ), symbols.length = countMax →
        ((⟨∅, countMax, 0, 0⟩ : SymbolDistribution).addSymbols symbols).evaluation.coverageBps =
          10000 := by
  refine ⟨by decide, fun symbols hlength => ?_⟩
  obtain ⟨htotal, hsource⟩ := @totals_addSymbols ⟨∅, countMax, 0, 0⟩ symbols (by simp [hlength])
  simp only [evaluation, htotal, hsource, hlength]
  decide

/-! ### Removed symbols -/

/-- A largest count and a total are those of the counts, of which none is zero. -/
def Exact (cachedMax total : ℕ) (counts : List ℕ) : Prop :=
  cachedMax = counts.foldr max 0 ∧ total = counts.sum ∧ 0 ∉ counts

theorem exact_congr {cachedMax total : ℕ} {counts counts' : List ℕ} (h : counts.Perm counts') :
    Exact cachedMax total counts ↔ Exact cachedMax total counts' := by
  rw [Exact, Exact, h.foldr_eq, h.sum_eq, h.mem_iff]

theorem exact_cons_iff {cachedMax total count : ℕ} {counts : List ℕ} :
    Exact cachedMax total (count :: counts) ↔ cachedMax = max count (counts.foldr max 0) ∧
      total = count + counts.sum ∧ 0 < count ∧ 0 ∉ counts := by
  simp [Exact, eq_comm]

theorem exact_addSymbol (h : Exact dist.cachedMax dist.totalSymbols (counts dist.nodes))
    (node : UInt64) (bytes : ℕ)
    (hfew : (counts (dist.addSymbol node bytes).nodes).sum < 2 ^ 32) :
    Exact (dist.addSymbol node bytes).cachedMax (dist.addSymbol node bytes).totalSymbols
      (counts (dist.addSymbol node bytes).nodes) := by
  have hnew : (counts (dist.addSymbol node bytes).nodes).Perm
      (increment (dist.symbolsOn node).1 :: counts (dist.nodes.erase node)) :=
    toList_insert_perm_erase.map _
  have hcountMax : countMax = 2 ^ 32 - 1 := rfl
  rw [hnew.sum_eq, List.sum_cons] at hfew
  rw [exact_congr hnew, exact_cons_iff]
  simp only [addSymbol, increment, symbolsOn, ExtTreeMap.getD_eq_getD_getElem?] at hfew ⊢
  cases hnode : dist.nodes[node]? with
  | none =>
    have hold : dist.nodes.erase node = dist.nodes := by
      refine ExtTreeMap.ext_getElem? fun other => ?_
      rw [getElem?_erase_eq]
      split_ifs with hother
      · rw [← hother, hnode]
      · rfl
    obtain ⟨hmax, htotal, hpos⟩ := h
    simp only [hnode, hold, Option.getD_none] at hfew ⊢
    split_ifs at hfew ⊢ <;> refine ⟨?_, ?_, ?_, hpos⟩ <;> omega
  | some entry =>
    have hold : (counts dist.nodes).Perm (entry.1 :: counts (dist.nodes.erase node)) :=
      (toList_perm_erase hnode).map _
    obtain ⟨hmax, htotal, hpos, hrest⟩ := exact_cons_iff.mp ((exact_congr hold).mp h)
    simp only [hnode, Option.getD_some] at hfew ⊢
    split_ifs at hfew ⊢ <;> refine ⟨?_, ?_, ?_, hrest⟩ <;> omega

theorem exact_removeSymbol (h : Exact dist.cachedMax dist.totalSymbols (counts dist.nodes))
    (node : UInt64) (bytes : ℕ) :
    Exact (dist.removeSymbol node bytes).cachedMax (dist.removeSymbol node bytes).totalSymbols
      (counts (dist.removeSymbol node bytes).nodes) := by
  unfold removeSymbol
  split
  · exact h
  next count stored hnode =>
    have hold : (counts dist.nodes).Perm (count :: counts (dist.nodes.erase node)) :=
      (toList_perm_erase hnode).map _
    obtain ⟨hmax, htotal, hpos, hrest⟩ := exact_cons_iff.mp ((exact_congr hold).mp h)
    dsimp only
    by_cases hlast : count - 1 = 0
    · rw [if_pos hlast]
      refine ⟨?_, by omega, hrest⟩
      split_ifs <;> omega
    · have hnew : (counts (dist.nodes.insert node (count - 1, stored - bytes))).Perm
          ((count - 1) :: counts (dist.nodes.erase node)) := toList_insert_perm_erase.map _
      rw [if_neg hlast, exact_congr hnew, exact_cons_iff, hnew.foldr_eq, List.foldr_cons]
      refine ⟨?_, by omega, by omega, hrest⟩
      split_ifs <;> omega

/-- After any calls, the cached maximum is the largest count of a node, the total is the sum of the
counts, and no node is without symbols, if fewer than `2 ^ 32` symbols are stored at any time. -/
theorem cache_exact (sourceSymbols : ℕ) (calls : List Call)
    (hfew : ∀ served ∈ calls.inits, (counts (run sourceSymbols served).nodes).sum < 2 ^ 32) :
    let dist := run sourceSymbols calls
    dist.cachedMax = (counts dist.nodes).foldr max 0 ∧
      dist.totalSymbols = (counts dist.nodes).sum ∧ 0 ∉ counts dist.nodes := by
  induction calls using List.reverseRecOn with
  | nil => exact ⟨rfl, rfl, List.not_mem_nil⟩
  | append_singleton calls call ih =>
    have hrun : run sourceSymbols (calls ++ [call]) = (run sourceSymbols calls).call call := by
      simp [run]
    have hbefore := ih fun served hserved => hfew served (by
      rw [List.mem_inits] at hserved ⊢
      exact hserved.trans (List.prefix_append _ _))
    have hnow := hfew (calls ++ [call]) (by simp)
    rw [hrun] at hnow ⊢
    cases call with
    | addSymbol node bytes => exact exact_addSymbol hbefore node bytes hnow
    | removeSymbol node bytes => exact exact_removeSymbol hbefore node bytes

theorem cache_exact_after_tie :
    (run 4 [.addSymbol 1 64, .addSymbol 2 64, .removeSymbol 1 64]).cachedMax = 1 :=
  (cache_exact 4 _ (by decide +kernel)).1.trans (by decide +kernel)

end SymbolDistribution

/-! ### Whether to repair -/

structure ObjectPlacementPolicy where
  minNodes : ℕ
  maxNodeFractionBps : ℕ
  targetCoverageBps : ℕ
  minSourceDiversity : ℕ

inductive CoverageHealth
  | healthy
  | degraded
  | unavailable
  deriving DecidableEq

inductive RepairEvaluationReasonCode
  | policySloDeficit
  | diversityDeficit
  | healthy
  deriving DecidableEq

namespace CoverageEvaluation

variable (coverage : CoverageEvaluation) (policy : ObjectPlacementPolicy)

def meetsPolicy : Bool :=
  if coverage.distinctNodes < policy.minNodes then false
  else if policy.maxNodeFractionBps < coverage.maxNodeFractionBps then false
  else if coverage.coverageBps < policy.targetCoverageBps then false
  else if 0 < policy.minSourceDiversity ∧ coverage.distinctNodes < policy.minSourceDiversity then
    false
  else true

def health : CoverageHealth :=
  if !coverage.isAvailable then .unavailable
  else if coverage.meetsPolicy policy then .healthy
  else .degraded

def diversityDeficit (minDiversity : ℕ) : ℕ :=
  if minDiversity = 0 ∨ minDiversity ≤ coverage.distinctNodes then 0
  else minDiversity - coverage.distinctNodes

def concentrationDeficitBps (maxBps : ℕ) : ℕ := coverage.maxNodeFractionBps - maxBps

def coverageDeficitBps (targetBps : ℕ) : ℕ := targetBps - coverage.coverageBps

variable (minDeficitBps : ℕ)

def evaluateReasonCode : Option RepairEvaluationReasonCode :=
  if !coverage.isAvailable then some .policySloDeficit
  else if 0 < coverage.diversityDeficit policy.minSourceDiversity ∨
      0 < coverage.concentrationDeficitBps policy.maxNodeFractionBps then some .diversityDeficit
  else if minDeficitBps ≤ coverage.coverageDeficitBps policy.targetCoverageBps then
    some .policySloDeficit
  else none

/-- What `evaluate_zone` reports about an object, and whether a repair of it is queued then. -/
def evaluateObject : RepairEvaluationReasonCode × Bool :=
  match coverage.evaluateReasonCode policy minDeficitBps with
  | some code => (code, true)
  | none => (.healthy, false)

/-- Everything the policy asks for holds, but for a deficit of coverage that is too small. -/
def MeetsPolicyUpToDeficit : Prop :=
  coverage.meetsPolicy { policy with targetCoverageBps := coverage.coverageBps } = true ∧
    (policy.targetCoverageBps ≤ coverage.coverageBps ∨
      coverage.coverageDeficitBps policy.targetCoverageBps < minDeficitBps)

/-- Every object that is reported healthy meets the policy, up to a small deficit, exactly when no
object is reported so or the policy asks for at least as many sources as nodes. -/
theorem healthy_meets_policy_iff (policy : ObjectPlacementPolicy) (minDeficitBps : ℕ) :
    (∀ coverage : CoverageEvaluation,
      coverage.evaluateObject policy minDeficitBps = (.healthy, false) →
        coverage.MeetsPolicyUpToDeficit policy minDeficitBps) ↔
      minDeficitBps = 0 ∨ policy.minNodes ≤ policy.minSourceDiversity := by
  constructor
  · intro h
    by_contra hnot
    rw [not_or] at hnot
    have hmeets := (h ⟨policy.minSourceDiversity, 0, policy.targetCoverageBps, true, 0, 0⟩ (by
      simp [evaluateObject, evaluateReasonCode, diversityDeficit, concentrationDeficitBps,
        coverageDeficitBps, hnot.1])).1
    simp [meetsPolicy, hnot.2] at hmeets
  · intro h coverage hhealthy
    simp only [evaluateObject, evaluateReasonCode, diversityDeficit, concentrationDeficitBps,
      coverageDeficitBps] at hhealthy
    simp only [MeetsPolicyUpToDeficit, meetsPolicy, coverageDeficitBps]
    split_ifs at hhealthy <;> simp_all <;> omega

/-- An object on one node, of which three are asked for, is degraded and not repaired. -/
theorem too_few_nodes_not_repaired :
    ∃ coverage : CoverageEvaluation,
      coverage = (SymbolDistribution.addSymbol ⟨∅, 1, 0, 0⟩ 1 64).evaluation ∧
      coverage.evaluateObject ⟨3, 10000, 10000, 0⟩ 500 = (.healthy, false) ∧
      coverage.health ⟨3, 10000, 10000, 0⟩ = .degraded :=
  ⟨_, rfl, by decide +kernel⟩

end CoverageEvaluation

end Flywheel.Store
