import Flywheel.Crypto.Shamir

/-!
# One share fewer tells nothing

For fewer indices than the threshold by one and any data at them, every secret of one length has
exactly one vector of coefficients that yields the data. With uniform coefficients the shares are
therefore distributed in the same way for all secrets.
-/

namespace Flywheel.Crypto

open Flywheel.Data List

section Stream

variable {degree : ℕ} {indices : Finset UInt8}

/-- Drawing from a long enough list takes its first bytes. -/
theorem randomCoefficients_streamGen {degree : ℕ} {stream : List UInt8}
    (h : degree ≤ stream.length) :
    randomCoefficients streamGen degree stream =
      ((stream.take degree).map Gf256.mk, stream.drop degree) := by
  induction degree generalizing stream with
  | zero => rfl
  | succ degree ih =>
    cases stream with
    | nil => exact absurd h (Nat.not_succ_le_zero degree)
    | cons byte stream =>
      rw [length_cons] at h
      simp only [randomCoefficients, streamGen]
      rw [ih (by omega)]
      rfl

/-- The values at an index of a secret shared with a list of random bytes, the first byte apart. -/
theorem valuesAt_streamGen {secretByte : UInt8} {secret stream : List UInt8} (index : UInt8)
    (h : degree ≤ stream.length) :
    valuesAt (randomPolys streamGen degree (secretByte :: secret) stream).1 index =
      (horner (⟨secretByte⟩ :: (stream.take degree).map Gf256.mk) ⟨index⟩).value ::
        valuesAt (randomPolys streamGen degree secret (stream.drop degree)).1 index := by
  rw [randomPolys, randomPoly, randomCoefficients_streamGen h]
  rfl

/-- Exactly one list of coefficients extends a constant term to given values at as many indices. -/
theorem existsUnique_coefficients (hzero : 0 ∉ indices) (hcard : indices.card = degree)
    (secretByte : UInt8) (values : UInt8 → UInt8) :
    ∃! coeffs : List UInt8, coeffs.length = degree ∧
      ∀ index ∈ indices,
        (horner (⟨secretByte⟩ :: coeffs.map Gf256.mk) ⟨index⟩).value = values index := by
  have hinjective : Function.Injective Gf256.mk := fun _ _ => Gf256.mk.inj
  obtain ⟨full, ⟨hlength, hvalues⟩, hunique⟩ :=
    existsUnique_horner hinjective.injOn
      fun index => if index = 0 then ⟨secretByte⟩ else ⟨values index⟩
  rw [Finset.card_insert_of_notMem hzero, hcard] at hlength
  have hindex : ∀ index ∈ indices, index ≠ 0 := fun index hmem heq => hzero (heq ▸ hmem)
  cases full with
  | nil => exact absurd hlength (Nat.succ_ne_zero degree).symm
  | cons c coeffs =>
    have hconstant : c = ⟨secretByte⟩ :=
      (horner_zero c coeffs).symm.trans (hvalues 0 (Finset.mem_insert_self 0 indices))
    have hback : (coeffs.map Gf256.value).map Gf256.mk = coeffs := by
      rw [map_map]
      exact map_id _
    refine ⟨coeffs.map Gf256.value, ⟨?_, fun index hmem => ?_⟩, fun coeffs' h => ?_⟩
    · rw [length_map]
      exact Nat.succ_inj.mp hlength
    · rw [hback, ← hconstant, hvalues index (Finset.mem_insert_of_mem hmem),
        if_neg (hindex index hmem)]
    · -- The constant term is the value at zero, so the list with it in front is the unique one.
      have hfull := hunique (⟨secretByte⟩ :: coeffs'.map Gf256.mk) ⟨?_, fun index hmem => ?_⟩
      · rw [← (cons.inj hfull).2, map_map]
        exact (map_id _).symm
      · rw [length_cons, length_map, h.1, Finset.card_insert_of_notMem hzero, hcard]
      · rcases Finset.mem_insert.mp hmem with rfl | hmem
        · exact horner_zero _ _
        · rw [if_neg (hindex index hmem), ← h.2 index hmem]

/-- Exactly one list of random bytes yields given data at as many indices. -/
theorem existsUnique_stream (hzero : 0 ∉ indices) (hcard : indices.card = degree)
    (secret : List UInt8) (data : UInt8 → List UInt8)
    (hdata : ∀ index ∈ indices, (data index).length = secret.length) :
    ∃! stream : List UInt8, stream.length = secret.length * degree ∧
      ∀ index ∈ indices,
        valuesAt (randomPolys streamGen degree secret stream).1 index = data index := by
  induction secret generalizing data with
  | nil =>
    refine ⟨[], ⟨by simp, fun index hmem => ?_⟩, fun stream h => ?_⟩
    · exact (eq_nil_of_length_eq_zero (hdata index hmem)).symm
    · exact eq_nil_of_length_eq_zero (by simpa using h.1)
  | cons secretByte secret ih =>
    -- The first bytes of the stream share the first byte of the secret, the rest the others.
    obtain ⟨coeffs, ⟨hlength, hvalues⟩, hunique⟩ :=
      existsUnique_coefficients hzero hcard secretByte fun index => (data index).headD 0
    obtain ⟨rest, ⟨hrestLength, hrest⟩, hrestUnique⟩ :=
      ih (fun index => (data index).tail) fun index hmem => by
        rw [length_tail, hdata index hmem, length_cons, Nat.add_sub_cancel]
    have hsplit : ∀ index ∈ indices, data index = (data index).headD 0 :: (data index).tail :=
      fun index hmem => by
        have hne : data index ≠ [] := ne_nil_of_length_pos (by rw [hdata index hmem]; simp)
        obtain ⟨head, tail, heq⟩ := exists_cons_of_ne_nil hne
        rw [heq]
        rfl
    refine ⟨coeffs ++ rest, ⟨?_, fun index hmem => ?_⟩, fun stream h => ?_⟩
    · rw [length_append, hlength, hrestLength, length_cons, Nat.succ_mul, Nat.add_comm]
    · rw [valuesAt_streamGen index (by rw [length_append]; omega), hsplit index hmem,
        take_left' hlength, drop_left' hlength, hvalues index hmem, hrest index hmem]
    · have hle : degree ≤ stream.length := by
        rw [h.1, length_cons, Nat.succ_mul]
        omega
      have heach : ∀ index ∈ indices,
          (horner (⟨secretByte⟩ :: (stream.take degree).map Gf256.mk) ⟨index⟩).value =
              (data index).headD 0 ∧
            valuesAt (randomPolys streamGen degree secret (stream.drop degree)).1 index =
              (data index).tail := fun index hmem => by
        have heq := h.2 index hmem
        rw [valuesAt_streamGen index hle, hsplit index hmem] at heq
        exact cons.inj heq
      rw [← take_append_drop degree stream,
        hunique (stream.take degree) ⟨by simpa using hle, fun index hmem => (heach index hmem).1⟩,
        hrestUnique (stream.drop degree) ⟨?_, fun index hmem => (heach index hmem).2⟩]
      rw [length_drop, h.1, length_cons, Nat.succ_mul, Nat.add_sub_cancel]

end Stream

variable {len : ℕ}

/-- The vectors of random coefficients with which splitting a secret yields given data at given
indices. -/
def coefficientVectors (secret : List.Vector UInt8 len) (k n : UInt8) (indices : Finset UInt8)
    (data : UInt8 → List UInt8) : Set (List.Vector UInt8 (len * (k.toNat - 1))) :=
  {coeffs | ∃ shares rest,
    splitSecretWithRng streamGen coeffs.toList secret.toList k n = .ok (shares, rest) ∧
      ∀ index ∈ indices, ∃ share ∈ shares, share.index = index ∧ share.data = data index}

/-- The parameters and data for which there are shares at the indices. -/
structure Sharable (len : ℕ) (k n : UInt8) (indices : Finset UInt8) (data : UInt8 → List UInt8) :
    Prop where
  threshold_pos : 0 < k.toNat
  threshold_le : k.toNat ≤ n.toNat
  len_pos : 0 < len
  zero_notMem : 0 ∉ indices
  index_le : ∀ index ∈ indices, index.toNat ≤ n.toNat
  length_eq : ∀ index ∈ indices, (data index).length = len

variable {secret : List.Vector UInt8 len} {k n : UInt8} {indices : Finset UInt8}
  {data : UInt8 → List UInt8}

/-- The coefficients that yield the data are those for which the polynomials have these values. -/
theorem mem_coefficientVectors {coeffs : List.Vector UInt8 (len * (k.toNat - 1))} :
    coeffs ∈ coefficientVectors secret k n indices data ↔
      Sharable len k n indices data ∧ ∀ index ∈ indices,
        valuesAt (randomPolys streamGen (k.toNat - 1) secret.toList coeffs.toList).1 index =
          data index := by
  constructor
  · rintro ⟨shares, rest, hsplit, hshares⟩
    have hof := splitOf_of_ok hsplit
    have hpolys := hof.polys_share.length_eq
    rw [secret.toList_length] at hpolys
    have heach : ∀ index ∈ indices, index ≠ 0 ∧ index.toNat ≤ n.toNat ∧
        valuesAt (randomPolys streamGen (k.toNat - 1) secret.toList coeffs.toList).1 index =
          data index := fun index hmem => by
      obtain ⟨share, hshare, rfl, hdata⟩ := hshares index hmem
      obtain ⟨hle, hvalues⟩ := hof.mem_iff.mp hshare
      exact ⟨share.index_ne, hle, hvalues.symm.trans hdata⟩
    refine ⟨⟨hof.threshold_pos, hof.threshold_le, ?_, fun hmem => (heach 0 hmem).1 rfl,
      fun index hmem => (heach index hmem).2.1, fun index hmem => ?_⟩,
      fun index hmem => (heach index hmem).2.2⟩
    · have hpos := length_pos_of_ne_nil hof.secret_ne
      rwa [secret.toList_length] at hpos
    · rw [← (heach index hmem).2.2, valuesAt, length_map]
      exact hpolys.symm
  · rintro ⟨h, hvalues⟩
    have hsecret : secret.toList ≠ [] :=
      ne_nil_of_length_pos (by rw [secret.toList_length]; exact h.len_pos)
    have hsplit := splitSecretWithRng_eq_ok streamGen coeffs.toList h.threshold_pos
      h.threshold_le hsecret
    refine ⟨_, _, hsplit, fun index hmem => ?_⟩
    have hne : index ≠ 0 := fun heq => h.zero_notMem (heq ▸ hmem)
    exact ⟨⟨index, data index, hne⟩, (splitOf_of_ok hsplit).mem_iff.mpr
      ⟨h.index_le index hmem, (hvalues index hmem).symm⟩, rfl, rfl⟩

/-- Where there are shares at one index fewer than the threshold, exactly one vector of coefficients
yields given data. -/
theorem ncard_coefficientVectors_of_sharable (hcard : indices.card + 1 = k.toNat)
    (h : Sharable len k n indices data) :
    (coefficientVectors secret k n indices data).ncard = 1 := by
  obtain ⟨stream, ⟨hlength, hvalues⟩, hunique⟩ :=
    existsUnique_stream h.zero_notMem (Nat.eq_sub_of_add_eq hcard) secret.toList data
      fun index hmem => by rw [h.length_eq index hmem, secret.toList_length]
  rw [secret.toList_length] at hlength
  obtain ⟨unique, rfl⟩ : ∃ unique : List.Vector UInt8 (len * (k.toNat - 1)),
      unique.toList = stream := ⟨⟨stream, hlength⟩, rfl⟩
  refine Set.ncard_eq_one.mpr ⟨unique, Set.ext fun coeffs => ?_⟩
  rw [mem_coefficientVectors]
  constructor
  · rintro ⟨-, hcoeffs⟩
    refine Vector.eq _ _ (hunique coeffs.toList ⟨?_, hcoeffs⟩)
    rw [coeffs.toList_length, secret.toList_length]
  · rintro rfl
    exact ⟨h, hvalues⟩

theorem ncard_coefficientVectors_of_not_sharable (h : ¬ Sharable len k n indices data) :
    (coefficientVectors secret k n indices data).ncard = 0 := by
  have hempty : coefficientVectors secret k n indices data = ∅ :=
    Set.eq_empty_of_forall_notMem fun coeffs hmem => h (mem_coefficientVectors.mp hmem).1
  rw [hempty, Set.ncard_empty]

/-- For one index fewer than the threshold and any data at the indices, as many vectors of
coefficients yield the data from one secret as from any other of its length: exactly one, if the
parameters are valid and the indices and data are those of shares. -/
theorem shares_reveal_nothing (secret secret' : List.Vector UInt8 len) (n : UInt8)
    (data : UInt8 → List UInt8) (hcard : indices.card + 1 = k.toNat) :
    (coefficientVectors secret k n indices data).ncard =
        (coefficientVectors secret' k n indices data).ncard ∧
      (k ≤ n → 0 < len → (∀ index ∈ indices, index ≠ 0 ∧ index ≤ n ∧ (data index).length = len) →
        (coefficientVectors secret k n indices data).ncard = 1) := by
  refine ⟨?_, fun hle hlen hindices => ?_⟩
  · by_cases h : Sharable len k n indices data
    · rw [ncard_coefficientVectors_of_sharable hcard h,
        ncard_coefficientVectors_of_sharable hcard h]
    · rw [ncard_coefficientVectors_of_not_sharable h, ncard_coefficientVectors_of_not_sharable h]
  · exact ncard_coefficientVectors_of_sharable hcard
      ⟨by omega, UInt8.le_iff_toNat_le.mp hle, hlen, fun hmem => (hindices 0 hmem).1 rfl,
        fun index hmem => UInt8.le_iff_toNat_le.mp (hindices index hmem).2.1,
        fun index hmem => (hindices index hmem).2.2⟩

/-- Two shares of a threshold of three: every secret byte has one pair of coefficients. -/
theorem two_shares_reveal_nothing :
    ({1, 4} : Finset UInt8).card + 1 = (3 : UInt8).toNat ∧
      (coefficientVectors (⟨[17], rfl⟩ : List.Vector UInt8 1) 3 5 {1, 4} fun _ => [200]).ncard = 1 :=
  ⟨by decide, (shares_reveal_nothing ⟨[17], rfl⟩ ⟨[18], rfl⟩ 5 (fun _ => [200]) (by decide)).2
    (by decide) (by decide) (by simp)⟩

end Flywheel.Crypto
