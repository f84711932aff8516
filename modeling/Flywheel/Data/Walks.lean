import Mathlib.Data.Fintype.EquivFin
import Mathlib.Data.Nat.ModEq
import Mathlib.Data.Nat.Prime.Basic

/-!
# Walks around a circle of prime length

Steps of one length around a circle with a prime number of places visit every place once before the
walk returns. A walk that only stops at the places below a bound therefore stops at different
places for as long as there are places below the bound left.
-/

namespace Flywheel.Data

/-- The place after `j` steps of length `a` from `x` around a circle of `q` places. -/
def walk (q a x j : ℕ) : ℕ := (x + j * a) % q

variable {q a x : ℕ}

theorem walk_lt (hq : 0 < q) (j : ℕ) : walk q a x j < q := Nat.mod_lt _ hq

theorem walk_zero (hx : x < q) : walk q a x 0 = x := by
  rw [walk, Nat.zero_mul, Nat.add_zero, Nat.mod_eq_of_lt hx]

/-- Walking on from the place reached after `i` steps. -/
theorem walk_walk (i j : ℕ) : walk q a (walk q a x i) j = walk q a x (i + j) := by
  rw [walk, walk, walk, Nat.mod_add_mod, Nat.add_mul, Nat.add_assoc]

theorem walk_step (j : ℕ) : (walk q a x j + a) % q = walk q a x (j + 1) := by
  rw [← walk_walk j 1, walk, walk, Nat.one_mul]

theorem walk_inj (hq : q.Prime) (ha : 0 < a) (haq : a < q) {i j : ℕ} (hi : i < q) (hj : j < q)
    (h : walk q a x i = walk q a x j) : i = j := by
  have hmod : x + i * a ≡ x + j * a [MOD q] := h
  have hcoprime : Nat.gcd q a = 1 :=
    (Nat.Prime.coprime_iff_not_dvd hq).mpr (Nat.not_dvd_of_pos_of_lt ha haq)
  have hcancel := (Nat.ModEq.add_left_cancel' x hmod).cancel_right_of_coprime hcoprime
  exact Nat.ModEq.eq_of_lt_of_lt hcancel hi hj

theorem exists_walk_eq (hq : q.Prime) (ha : 0 < a) (haq : a < q) {r : ℕ} (hr : r < q) :
    ∃ j < q, walk q a x j = r := by
  let f : Fin q → Fin q := fun j => ⟨walk q a x j, walk_lt hq.pos j⟩
  have hinj : Function.Injective f := fun i j hij =>
    Fin.ext (walk_inj hq ha haq i.isLt j.isLt (congrArg Fin.val hij))
  obtain ⟨j, hj⟩ := Finite.surjective_of_injective hinj ⟨r, hr⟩
  exact ⟨j, j.isLt, congrArg Fin.val hj⟩

/-- The third place below `p` that a walk starting below `p` stops at comes before the walk
returns, if there are three places below `p`. -/
theorem third_stop_lt (hq : q.Prime) (ha : 0 < a) (haq : a < q) {p : ℕ} (hp : 3 ≤ p) (hpq : p ≤ q)
    {m n : ℕ} (hmiss : ∀ j, 0 < j → j < n → j ≠ m → p ≤ walk q a x j) : n < q := by
  by_contra hn
  -- The places 0, 1 and 2 lie below `p`, so each of them is stopped at: at the start or at `m`.
  have hstop : ∀ r < 3, ∃ j < q, (j = 0 ∨ j = m) ∧ walk q a x j = r := by
    intro r hr
    obtain ⟨j, hj, hjr⟩ := exists_walk_eq hq ha haq (show r < q by omega)
    refine ⟨j, hj, ?_, hjr⟩
    by_contra hne
    have hlate := hmiss j (by omega) (by omega) (by omega)
    omega
  obtain ⟨i, -, hi, hi'⟩ := hstop 0 (by omega)
  obtain ⟨j, -, hj, hj'⟩ := hstop 1 (by omega)
  obtain ⟨k, -, hk, hk'⟩ := hstop 2 (by omega)
  have hij : i ≠ j := fun h => by rw [h] at hi'; omega
  have hjk : j ≠ k := fun h => by rw [h] at hj'; omega
  have hik : i ≠ k := fun h => by rw [h] at hi'; omega
  omega

end Flywheel.Data
