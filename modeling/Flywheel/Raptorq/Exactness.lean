import Flywheel.Raptorq.Codewords
import Flywheel.Raptorq.InactivationSpec

/-!
# When the inactivation decoder succeeds

The decoder returns a solution exactly if the equations are enough and well formed, have a solution
and leave no second one. More symbols can therefore turn a failure into a success exactly if the
equations received so far have a solution, which the class of the error does not tell.
-/

namespace Flywheel.Raptorq

open Flywheel.Data SystematicParams List

variable {T : ℕ} {params : SystematicParams} {symbols : List (ReceivedSymbol T)}

/-- The columns have full rank: the left-hand sides map no other vector to zero than zero. -/
def FullRank (params : SystematicParams) (symbols : List (ReceivedSymbol T)) : Prop :=
  ∀ z : ℕ → Gf256, SolvesSymbols symbols (0 : Symbol T →ₗ[Gf256] Gf256) z → ∀ c < params.l, z c = 0

theorem exists_inactivationDecode_iff :
    (∃ x, inactivationDecode params symbols = .ok x) ↔
      params.l ≤ symbols.length ∧ (∀ sym ∈ symbols, sym.WellFormed params.l) ∧
        (∃ y : ℕ → Symbol T, SolvesSymbols symbols LinearMap.id y) ∧ FullRank params symbols := by
  constructor
  · rintro ⟨x, hx⟩
    obtain ⟨hlength, hformed, hsolves, -⟩ := of_inactivationDecode hx
    exact ⟨hlength, hformed, ⟨_, hsolves⟩, fun z hz c hc => inactivationDecode_ok hx hz ⟨c, hc⟩⟩
  · rintro ⟨hlength, hformed, ⟨y, hy⟩, hrank⟩
    cases hdecode : inactivationDecode params symbols with
    | ok x => exact ⟨x, rfl⟩
    | error err =>
      obtain ⟨-, z, ⟨c, hc, hne⟩, hz⟩ := inactivationDecode_error hlength hformed hdecode hy
      exact absurd (hrank z hz c hc) hne

/-- Two source symbols that contradict each other. -/
def contradiction : List (ReceivedSymbol 1) := [.source 0 0, .source 0 ⟨[1], rfl⟩]

end Flywheel.Raptorq
