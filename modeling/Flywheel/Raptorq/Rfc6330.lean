import Flywheel.Data.Walks
import Flywheel.Raptorq.Tables
import Mathlib.Data.List.Iterate
import Mathlib.NumberTheory.Bertrand

/-!
# Repair equations of RFC 6330

The pseudo-random generator, the degree distribution and the tuple of an encoding symbol, and the
walk over intermediate symbols the tuple describes. The indices of a walk lie in range; they are
distinct exactly if the degree does not exceed the number of LT symbols.
-/

namespace Flywheel.Raptorq

open Flywheel.Data List

/-- The pseudo-random generator `Rand[y, i, m]`. -/
def rand (y : UInt32) (i : UInt8) (m : UInt32) : UInt32 :=
  let x0 := ((y + i.toUInt32) &&& 0xFF).toNat
  let x1 := (((y >>> 8) + i.toUInt32) &&& 0xFF).toNat
  let x2 := (((y >>> 16) + i.toUInt32) &&& 0xFF).toNat
  let x3 := (((y >>> 24) + i.toUInt32) &&& 0xFF).toNat
  (v0.getD x0 0 ^^^ v1.getD x1 0 ^^^ v2.getD x2 0 ^^^ v3.getD x3 0) % m

/-- The degree of an LT symbol: the first threshold above `v` decides. -/
def deg (v : UInt32) : ℕ :=
  match degreeTable.find? (fun entry => v < entry.1) with
  | some entry => entry.2
  | none => 30

/-- Trial division by odd numbers from `d` on, for at most `fuel` of them. -/
def isPrimeLoop : ℕ → ℕ → ℕ → Bool
  | 0, _, _ => true
  | fuel + 1, n, d =>
    if d * d ≤ n then if n % d = 0 then false else isPrimeLoop fuel n (d + 2)
    else true

def isPrime (n : ℕ) : Bool :=
  if n < 2 then false
  else if n % 2 = 0 then n == 2
  else isPrimeLoop n n 3

/-- The first prime among `c`, `c + 2`, ..., for at most `fuel` steps. -/
def nextPrimeLoop : ℕ → ℕ → ℕ
  | 0, c => c
  | fuel + 1, c => if isPrime c then c else nextPrimeLoop fuel (c + 2)

/-- The smallest prime at or above `n`. -/
def nextPrimeGe (n : ℕ) : ℕ :=
  if n ≤ 2 then 2 else nextPrimeLoop n (if n % 2 = 0 then n + 1 else n)

/-- The parameters of the LT and PI walks of an encoding symbol. -/
structure LtTuple where
  /-- LT degree. -/
  d : ℕ
  /-- LT step. -/
  a : ℕ
  /-- LT start index. -/
  b : ℕ
  /-- PI degree. -/
  d1 : ℕ
  /-- PI step. -/
  a1 : ℕ
  /-- PI start index. -/
  b1 : ℕ
  deriving DecidableEq

/-- The tuple of an encoding symbol for `(J, W, P1, X)`. -/
def tuple (systematicIndex ltWidth piModulus : ℕ) (encodingSymbolId : UInt32) : LtTuple :=
  let linearFactor : UInt32 := 53591 + 997 * UInt32.ofNat systematicIndex
  let linearFactor := if linearFactor % 2 = 0 then linearFactor + 1 else linearFactor
  let constantOffset : UInt32 := 10267 * (UInt32.ofNat systematicIndex + 1)
  let randomInput := constantOffset + encodingSymbolId * linearFactor
  let ltDegree := deg (rand randomInput 0 1048576)
  { d := ltDegree
    a := 1 + (rand randomInput 1 (UInt32.ofNat ltWidth - 1)).toNat
    b := (rand randomInput 2 (UInt32.ofNat ltWidth)).toNat
    d1 := if ltDegree < 4 then 2 + (rand encodingSymbolId 3 2).toNat else 2
    a1 := 1 + (rand encodingSymbolId 4 (UInt32.ofNat piModulus - 1)).toNat
    b1 := (rand encodingSymbolId 5 (UInt32.ofNat piModulus)).toNat }

/-- Walk on in steps of `a1` while the place is not below `p`, for at most `fuel` steps. -/
def skipPi (p p1 a1 : ℕ) : ℕ → ℕ → ℕ
  | 0, x => x
  | fuel + 1, x => if p ≤ x then skipPi p p1 a1 fuel ((x + a1) % p1) else x

/-- The LT side of a tuple's walk. -/
def ltIndices (t : LtTuple) (w : ℕ) : List ℕ :=
  iterate (fun x => (x + t.a) % w) (t.b % w) (1 + (t.d - 1))

/-- The PI side of a tuple's walk, before the shift by the number of LT symbols. -/
def piIndices (t : LtTuple) (p p1 : ℕ) : List ℕ :=
  iterate (fun x => skipPi p p1 t.a1 p1 ((x + t.a1) % p1)) (skipPi p p1 t.a1 p1 (t.b1 % p1))
    (1 + (t.d1 - 1))

/-- The intermediate symbols a tuple selects: LT symbols below `w`, then PI symbols. -/
def tupleIndices (t : LtTuple) (w p p1 : ℕ) : List ℕ :=
  ltIndices t w ++ (piIndices t p p1).map (w + ·)

/-- The intermediate symbols of a repair symbol. -/
def repairIndicesForEsi (systematicIndex ltWidth piCount : ℕ) (encodingSymbolId : UInt32) :
    List ℕ :=
  let piModulus := nextPrimeGe piCount
  tupleIndices (tuple systematicIndex ltWidth piModulus encodingSymbolId) ltWidth piCount piModulus

section Primes

/-- Trial division that finds no divisor leaves no divisor up to the square root. -/
theorem not_dvd_of_isPrimeLoop {fuel n d m : ℕ} (hodd : n % 2 = 1) (hd : d % 2 = 1)
    (hbelow : ∀ m, 2 ≤ m → m < d → ¬ m ∣ n) (hfuel : n < (d + 2 * fuel) * (d + 2 * fuel))
    (h : isPrimeLoop fuel n d = true) (hm : 2 ≤ m) (hmn : m * m ≤ n) : ¬ m ∣ n := by
  induction fuel generalizing d with
  | zero => exact hbelow m hm (Nat.mul_self_lt_mul_self_iff.mp (lt_of_le_of_lt hmn hfuel))
  | succ fuel ih =>
    rw [isPrimeLoop] at h
    by_cases hsq : d * d ≤ n
    · rw [if_pos hsq] at h
      by_cases hdvd : n % d = 0
      · simp [hdvd] at h
      · rw [if_neg hdvd] at h
        refine ih (by omega) (fun k hk hkd => ?_) ?_ h
        · rcases Nat.lt_or_ge k d with hlt | hge
          · exact hbelow k hk hlt
          · rcases Nat.eq_or_lt_of_le hge with heq | hgt
            · exact fun hdiv => hdvd (Nat.mod_eq_zero_of_dvd (heq ▸ hdiv))
            · have heven : 2 ∣ k := by omega
              exact fun hdiv => by
                have := heven.trans hdiv
                omega
        · rw [show d + 2 + 2 * fuel = d + 2 * (fuel + 1) by omega]
          exact hfuel
    · exact hbelow m hm (Nat.mul_self_lt_mul_self_iff.mp (by omega))

/-- Trial division of a prime finds no divisor. -/
theorem isPrimeLoop_of_prime {n : ℕ} (hn : n.Prime) (fuel : ℕ) {d : ℕ} (hd : 2 ≤ d) :
    isPrimeLoop fuel n d = true := by
  induction fuel generalizing d with
  | zero => rfl
  | succ fuel ih =>
    rw [isPrimeLoop]
    by_cases hsq : d * d ≤ n
    · have hlt : d < n := lt_of_lt_of_le (by nlinarith) hsq
      have hmod : n % d ≠ 0 := fun h =>
        (Nat.prime_def_lt.mp hn).2 d hlt (Nat.dvd_of_mod_eq_zero h) |>.not_gt (by omega)
      rw [if_pos hsq, if_neg hmod]
      exact ih (by omega)
    · rw [if_neg hsq]

theorem isPrime_iff (n : ℕ) : isPrime n = true ↔ n.Prime := by
  unfold isPrime
  split_ifs with hsmall heven
  · exact ⟨nofun, fun h => absurd h.two_le (by omega)⟩
  · rw [beq_iff_eq]
    constructor
    · rintro rfl
      exact Nat.prime_two
    · intro h
      rcases h.eq_two_or_odd with h | h <;> omega
  · constructor
    · intro h
      refine Nat.prime_def_le_sqrt.mpr ⟨by omega, fun m hm hsqrt => ?_⟩
      refine not_dvd_of_isPrimeLoop (by omega) (by omega) (fun k hk hk3 => ?_) ?_ h hm
        (Nat.le_sqrt.mp hsqrt)
      · obtain rfl : k = 2 := by omega
        omega
      · nlinarith
    · exact fun h => isPrimeLoop_of_prime h n (by omega)

/-- The search ends at a prime when there is one within its reach. -/
theorem nextPrimeLoop_spec {fuel c k : ℕ} (hk : k ≤ fuel) (hprime : (c + 2 * k).Prime) :
    (nextPrimeLoop fuel c).Prime ∧ c ≤ nextPrimeLoop fuel c := by
  induction fuel generalizing c k with
  | zero =>
    obtain rfl : k = 0 := by omega
    exact ⟨hprime, le_rfl⟩
  | succ fuel ih =>
    rw [nextPrimeLoop]
    by_cases hc : isPrime c = true
    · rw [if_pos hc]
      exact ⟨(isPrime_iff c).mp hc, le_rfl⟩
    · have hk0 : k ≠ 0 := fun h => hc ((isPrime_iff c).mpr (by simpa [h] using hprime))
      rw [if_neg hc]
      have hnext := ih (k := k - 1) (by omega)
        (by rw [show c + 2 + 2 * (k - 1) = c + 2 * k by omega]; exact hprime)
      exact ⟨hnext.1, by omega⟩

theorem nextPrimeLoop_le (fuel c : ℕ) : nextPrimeLoop fuel c ≤ c + 2 * fuel := by
  induction fuel generalizing c with
  | zero => exact le_rfl
  | succ fuel ih =>
    rw [nextPrimeLoop]
    split_ifs
    · omega
    · have := ih (c + 2)
      omega

theorem nextPrimeGe_le (n : ℕ) : nextPrimeGe n ≤ 3 * n + 2 := by
  unfold nextPrimeGe
  split_ifs with hsmall heven
  · omega
  · have := nextPrimeLoop_le n (n + 1)
    omega
  · have := nextPrimeLoop_le n n
    omega

/-- The search finds a prime at or above its argument. -/
theorem nextPrimeGe_spec (n : ℕ) : (nextPrimeGe n).Prime ∧ n ≤ nextPrimeGe n := by
  unfold nextPrimeGe
  split_ifs with hsmall heven
  · exact ⟨Nat.prime_two, hsmall⟩
  all_goals
    obtain ⟨p, hp, hlt, hle⟩ := Nat.exists_prime_lt_and_le_two_mul n (by omega)
    have hodd := hp.eq_two_or_odd
  · have hspec := nextPrimeLoop_spec (show (p - (n + 1)) / 2 ≤ n by omega)
      (by rw [show n + 1 + 2 * ((p - (n + 1)) / 2) = p by omega]; exact hp)
    exact ⟨hspec.1, by omega⟩
  · have hspec := nextPrimeLoop_spec (show (p - n) / 2 ≤ n by omega)
      (by rw [show n + 2 * ((p - n) / 2) = p by omega]; exact hp)
    exact hspec

end Primes

theorem rand_lt {y : UInt32} {i : UInt8} {m : UInt32} (hm : 0 < m.toNat) :
    (rand y i m).toNat < m.toNat := by
  exact Nat.mod_lt _ hm

theorem deg_bounds (v : UInt32) : 1 ≤ deg v ∧ deg v ≤ 30 := by
  have htable : ∀ entry ∈ degreeTable, 1 ≤ entry.2 ∧ entry.2 ≤ 30 := by decide
  unfold deg
  cases hfind : degreeTable.find? (fun entry => v < entry.1) with
  | none => exact (by decide)
  | some entry => exact htable entry (mem_of_find?_eq_some hfind)

/-- What every tuple for `w` LT symbols and a PI modulus `p1` satisfies. -/
structure LtTuple.Valid (t : LtTuple) (w p1 : ℕ) : Prop where
  d_pos : 1 ≤ t.d
  d_le : t.d ≤ 30
  a_pos : 0 < t.a
  a_lt : t.a < w
  d1_eq : t.d1 = 2 ∨ t.d1 = 3
  a1_pos : 0 < t.a1
  a1_lt : t.a1 < p1

/-- A step drawn from a modulus reduced by one lies between one and the modulus. The modulus is cast
to 32 bits. -/
theorem step_bounds {y : UInt32} {i : UInt8} {m : ℕ} (hm : 1 < m % 2 ^ 32) :
    1 + (rand y i (UInt32.ofNat m - 1)).toNat < m := by
  have hmod : (UInt32.ofNat m - 1).toNat = m % 2 ^ 32 - 1 := by
    rw [UInt32.toNat_sub_of_le]
    · rfl
    · exact hm.le
  have hlt := rand_lt (y := y) (i := i) (m := UInt32.ofNat m - 1) (by omega)
  omega

/-- The tuples the code computes are valid. -/
theorem tuple_valid {j w p1 : ℕ} (x : UInt32) (hw : 1 < w % 2 ^ 32) (hp1 : 1 < p1 % 2 ^ 32) :
    (tuple j w p1 x).Valid w p1 where
  d_pos := (deg_bounds _).1
  d_le := (deg_bounds _).2
  a_pos := by simp only [tuple]; omega
  a_lt := step_bounds hw
  d1_eq := by
    have hlt : (rand x 3 2).toNat < 2 := rand_lt (by decide)
    simp only [tuple]
    split_ifs <;> omega
  a1_pos := by simp only [tuple]; omega
  a1_lt := step_bounds hp1

variable {t : LtTuple}

theorem iterate_ltStep (t : LtTuple) (w k : ℕ) :
    (fun x => (x + t.a) % w)^[k] (t.b % w) = walk w t.a t.b k := by
  induction k with
  | zero => rw [walk, Nat.zero_mul]; rfl
  | succ k ih => rw [Function.iterate_succ_apply', ih, walk_step]

theorem ltIndices_getElem {w k : ℕ} (hk : k < (ltIndices t w).length) :
    (ltIndices t w)[k] = walk w t.a t.b k := by
  rw [← iterate_ltStep t w k]
  exact getElem_iterate _ _ _ _ _

theorem ltIndices_lt {w c : ℕ} (hw : 0 < w) (hc : c ∈ ltIndices t w) : c < w := by
  obtain ⟨k, hk, rfl⟩ := getElem_of_mem hc
  rw [ltIndices_getElem]
  exact walk_lt hw k

/-- LT indices are distinct when the degree does not exceed the number of LT symbols. -/
theorem ltIndices_nodup {w : ℕ} (hw : w.Prime) (ha : 0 < t.a) (haw : t.a < w)
    (hd : 1 ≤ t.d) (hdw : t.d ≤ w) : (ltIndices t w).Nodup := by
  have hlength : (ltIndices t w).length = t.d := by
    rw [ltIndices, length_iterate]
    omega
  refine nodup_iff_injective_get.mpr fun i j hij => Fin.ext ?_
  have hi := i.isLt
  have hj := j.isLt
  refine walk_inj hw ha haw (x := t.b) (by omega) (by omega) ?_
  rw [← ltIndices_getElem hi, ← ltIndices_getElem hj]
  exact hij

/-- A walk over more than all LT symbols starts again after one round. -/
theorem ltIndices_of_lt {w : ℕ} (hw : 0 < w) (h : w < t.d) :
    ltIndices t w = ltIndices { t with d := w } w ++ ltIndices { t with d := t.d - w } w := by
  have hround : (fun x => (x + t.a) % w)^[w] (t.b % w) = t.b % w := by
    rw [iterate_ltStep, walk, Nat.add_mul_mod_self_left]
  simp only [ltIndices]
  rw [show 1 + (t.d - 1) = (1 + (w - 1)) + (1 + (t.d - w - 1)) by omega, iterate_add,
    show 1 + (w - 1) = w by omega, hround]

theorem start_mem_ltIndices (t : LtTuple) (w : ℕ) : t.b % w ∈ ltIndices t w := by
  rw [ltIndices, Nat.add_comm]
  exact mem_cons_self

/-- LT indices are distinct exactly if the degree does not exceed the number of LT symbols. -/
theorem ltIndices_nodup_iff {w : ℕ} (hw : w.Prime) (ha : 0 < t.a) (haw : t.a < w)
    (hd : 1 ≤ t.d) : (ltIndices t w).Nodup ↔ t.d ≤ w := by
  refine ⟨fun hnodup => Nat.le_of_not_lt fun hlt => ?_, ltIndices_nodup hw ha haw hd⟩
  rw [ltIndices_of_lt hw.pos hlt] at hnodup
  exact (nodup_append.mp hnodup).2.2 _ (start_mem_ltIndices { t with d := w } w) _
    (start_mem_ltIndices { t with d := t.d - w } w) rfl

/-- Skipping stops at the first place below `p`, if that is within reach. -/
theorem skipPi_spec {p p1 a1 fuel x m : ℕ} (hx : x < p1) (hm : m ≤ fuel)
    (hstop : walk p1 a1 x m < p) :
    ∃ k, skipPi p p1 a1 fuel x = walk p1 a1 x k ∧ walk p1 a1 x k < p ∧
      ∀ j < k, p ≤ walk p1 a1 x j := by
  induction fuel generalizing x m with
  | zero =>
    obtain rfl : m = 0 := by omega
    exact ⟨0, (walk_zero hx).symm, hstop, fun j hj => absurd hj (Nat.not_lt_zero j)⟩
  | succ fuel ih =>
    rw [skipPi]
    by_cases hp : p ≤ x
    · have hm0 : m ≠ 0 := by
        rintro rfl
        rw [walk_zero hx] at hstop
        omega
      have hstep : (x + a1) % p1 = walk p1 a1 x 1 := by rw [walk, Nat.one_mul]
      obtain ⟨k, hk, hkp, hmiss⟩ := ih (m := m - 1) (walk_lt (by omega) 1)
        (by omega) (by rw [walk_walk, show 1 + (m - 1) = m by omega]; exact hstop)
      rw [walk_walk] at hk hkp
      refine ⟨1 + k, by rw [if_pos hp, hstep, hk], hkp, fun j hj => ?_⟩
      cases j with
      | zero => rw [walk_zero hx]; exact hp
      | succ j =>
        rw [Nat.add_comm j 1, ← walk_walk]
        exact hmiss j (by omega)
    · rw [if_neg hp]
      refine ⟨0, (walk_zero hx).symm, ?_, fun j hj => absurd hj (Nat.not_lt_zero j)⟩
      rw [walk_zero hx]
      omega

variable {p p1 a1 : ℕ}

/-- On a prime circle skipping reaches a place below `p`. -/
theorem skipPi_stops (hp1 : p1.Prime) (ha1 : 0 < a1) (ha1p : a1 < p1) (hp : 0 < p) {x : ℕ}
    (hx : x < p1) :
    ∃ k, skipPi p p1 a1 p1 x = walk p1 a1 x k ∧ walk p1 a1 x k < p ∧
      ∀ j < k, p ≤ walk p1 a1 x j := by
  obtain ⟨m, hm, hzero⟩ := exists_walk_eq (x := x) hp1 ha1 ha1p hp1.pos
  exact skipPi_spec hx hm.le (by omega)

/-- From a place below `p`, the next place below `p` lies some steps ahead, past misses. -/
theorem skipPi_next (hp1 : p1.Prime) (ha1 : 0 < a1) (ha1p : a1 < p1) (hp : 0 < p) {x i : ℕ} :
    ∃ k, skipPi p p1 a1 p1 ((walk p1 a1 x i + a1) % p1) = walk p1 a1 x (i + 1 + k) ∧
      walk p1 a1 x (i + 1 + k) < p ∧ ∀ j, i < j → j < i + 1 + k → p ≤ walk p1 a1 x j := by
  rw [walk_step]
  obtain ⟨k, hk, hkp, hmiss⟩ := skipPi_stops hp1 ha1 ha1p hp
    (x := walk p1 a1 x (i + 1)) (walk_lt hp1.pos _)
  rw [walk_walk] at hk hkp
  refine ⟨k, hk, hkp, fun j hij hj => ?_⟩
  have hlate := hmiss (j - (i + 1)) (by omega)
  rwa [walk_walk, show i + 1 + (j - (i + 1)) = j by omega] at hlate

/-- The PI indices are in range and distinct. -/
theorem piIndices_spec (hp1 : p1.Prime) (hp : 3 ≤ p) (hpp1 : p ≤ p1)
    (ha1 : 0 < t.a1) (ha1p : t.a1 < p1) (hd1 : t.d1 = 2 ∨ t.d1 = 3) :
    (∀ c ∈ piIndices t p p1, c < p) ∧ (piIndices t p p1).Nodup := by
  obtain ⟨k0, hk0, hk0p, -⟩ := skipPi_stops (p := p) hp1 ha1 ha1p (by omega)
    (Nat.mod_lt _ hp1.pos)
  set x := walk p1 t.a1 (t.b1 % p1) k0
  have hx : walk p1 t.a1 x 0 = x := walk_zero (lt_of_lt_of_le hk0p hpp1)
  obtain ⟨k1, hk1, hk1p, hmiss1⟩ := skipPi_next (p := p) hp1 ha1 ha1p (by omega)
  obtain ⟨k2, hk2, hk2p, hmiss2⟩ := skipPi_next (p := p) hp1 ha1 ha1p (by omega)
   
  rw [hx] at hk1
  -- Between the three stops there are only misses, so the third comes before the walk returns.
  have hlt : 0 + 1 + k1 + 1 + k2 < p1 := third_stop_lt hp1 ha1 ha1p hp hpp1
    (m := 0 + 1 + k1) fun j hj hjn hjm => by
      rcases Nat.lt_or_ge j (0 + 1 + k1) with hj1 | hj1
      · exact hmiss1 j hj hj1
      · exact hmiss2 j (by omega) hjn
  have hne : ∀ {i j : ℕ}, i < j → j < p1 → walk p1 t.a1 x i ≠ walk p1 t.a1 x j :=
    fun hij hj heq => absurd (walk_inj hp1 ha1 ha1p (by omega) hj heq) (by omega)
  have h01 := hne (i := 0) (j := 0 + 1 + k1) (by omega) (by omega)
  have h02 := hne (i := 0) (by omega) hlt
  have h12 := hne (i := 0 + 1 + k1) (by omega) hlt
  rw [hx] at h01 h02
  rcases hd1 with hd1 | hd1 <;>
    simp only [piIndices, hd1, iterate, hk0, hk1, hk2,
      mem_cons, not_mem_nil, or_false, forall_eq_or_imp, forall_eq, nodup_cons,
      not_or, not_false_eq_true, nodup_nil, and_true]
  · exact ⟨⟨hk0p, hk1p⟩, h01⟩
  · exact ⟨⟨hk0p, hk1p, hk2p⟩, ⟨h01, h02⟩, h12⟩

variable {j w : ℕ} {x : UInt32}

section

variable (hw : 1 < w % 2 ^ 32) (hp1 : 1 < nextPrimeGe p % 2 ^ 32) (hp : 3 ≤ p)
include hw hp1 hp

/-- The LT and the PI indices of a repair symbol are in range, and the PI indices are distinct. -/
theorem repairIndices_spec (j : ℕ) (x : UInt32) :
    (∀ c ∈ ltIndices (tuple j w (nextPrimeGe p) x) w, c < w) ∧
      (∀ c ∈ piIndices (tuple j w (nextPrimeGe p) x) p (nextPrimeGe p), c < p) ∧
      (piIndices (tuple j w (nextPrimeGe p) x) p (nextPrimeGe p)).Nodup := by
  have hvalid := tuple_valid (j := j) x hw hp1
  obtain ⟨hprime, hle⟩ := nextPrimeGe_spec p
  have hpos : 0 < w := hvalid.a_pos.trans hvalid.a_lt
  exact ⟨fun c hc => ltIndices_lt hpos hc,
    piIndices_spec hprime hp hle hvalid.a1_pos hvalid.a1_lt hvalid.d1_eq⟩

/-- The indices of a repair symbol are intermediate symbols. -/
theorem repairIndicesForEsi_lt {c : ℕ} (hc : c ∈ repairIndicesForEsi j w p x) : c < w + p := by
  obtain ⟨hlt, hpi, -⟩ := repairIndices_spec hw hp1 hp j x
  rw [repairIndicesForEsi, tupleIndices, mem_append, mem_map] at hc
  rcases hc with hc | ⟨c, hc, rfl⟩
  · have := hlt c hc
    omega
  · have := hpi c hc
    omega

/-- The indices of a repair symbol are distinct exactly if its degree does not exceed the number of
LT symbols. -/
theorem repairIndicesForEsi_nodup_iff (hprime : w.Prime) :
    (repairIndicesForEsi j w p x).Nodup ↔ (tuple j w (nextPrimeGe p) x).d ≤ w := by
  have hvalid := tuple_valid (j := j) x hw hp1
  obtain ⟨hlt, -, hnodup⟩ := repairIndices_spec hw hp1 hp j x
  rw [← ltIndices_nodup_iff hprime hvalid.a_pos hvalid.a_lt hvalid.d_pos]
  refine ⟨fun h => (nodup_append.mp h).1, fun h => nodup_append.mpr ⟨h, ?_, fun c hc d hd => ?_⟩⟩
  · exact hnodup.map fun a b hab => Nat.add_left_cancel hab
  · obtain ⟨e, -, rfl⟩ := mem_map.mp hd
    have := hlt c hc
    omega

end

/-- The indices of a repair symbol are computed and are distinct, the LT indices and the PI indices
each in their range. A rejection loop that did not end would leave an index outside. -/
structure ProperNeighbours (j w p : ℕ) (x : UInt32) : Prop where
  /-- No draw has a zero modulus after the cast to 32 bits, on which the source panics. -/
  draws : 1 < w % 2 ^ 32 ∧ 1 < nextPrimeGe p % 2 ^ 32
  lt_range : ∀ c ∈ ltIndices (tuple j w (nextPrimeGe p) x) w, c < w
  pi_range : ∀ c ∈ piIndices (tuple j w (nextPrimeGe p) x) p (nextPrimeGe p), c < p
  nodup : (repairIndicesForEsi j w p x).Nodup

/-- The neighbours of a repair symbol are proper exactly if its degree does not exceed the number of
LT symbols, which nothing ensures, and the moduli survive the cast. -/
theorem properNeighbours_iff (j : ℕ) {w p : ℕ} (hw : w.Prime) (hp : 3 ≤ p) (x : UInt32) :
    ProperNeighbours j w p x ↔ (1 < w % 2 ^ 32 ∧ 1 < nextPrimeGe p % 2 ^ 32) ∧
      (tuple j w (nextPrimeGe p) x).d ≤ w := by
  refine ⟨fun h => ⟨h.draws, ?_⟩, fun ⟨hdraws, hd⟩ => ?_⟩
  · exact (repairIndicesForEsi_nodup_iff h.draws.1 h.draws.2 hp hw).mp h.nodup
  · obtain ⟨hlt, hpi, -⟩ := repairIndices_spec hdraws.1 hdraws.2 hp j x
    exact ⟨hdraws, hlt, hpi, (repairIndicesForEsi_nodup_iff hdraws.1 hdraws.2 hp hw).mpr hd⟩

/-- In a block of ten source symbols, the first repair symbol has proper neighbours. -/
theorem first_repair_proper : Nat.Prime 17 ∧ 3 ≤ 10 ∧ ProperNeighbours 254 17 10 10 :=
  ⟨by decide, by decide, (properNeighbours_iff 254 (by decide) (by decide) 10).mpr (by decide)⟩

/-- In a block of ten source symbols, the repair symbol 30 has degree 30 over 17 LT symbols. -/
theorem repair_thirty_revisits : ¬ (repairIndicesForEsi 254 17 10 30).Nodup := by decide

end Flywheel.Raptorq
