import Flywheel.Crypto.Gf256
import Flywheel.Data.Interpolation

/-!
# Secret sharing

Shamir's scheme over the AES field, byte by byte: a random polynomial with the secret byte as its
constant term, evaluated at the share indices, and interpolation at zero from any shares. The source
of randomness is a parameter. Enough shares give the secret back whatever the coefficients were.
-/

namespace Flywheel.Crypto

open Flywheel.Data List

inductive ShamirError
  | thresholdTooSmall
  | thresholdExceedsTotal (threshold total : UInt8)
  | tooFewShares
  | tooManyShares
  | emptySecret
  | duplicateIndex (index : UInt8)
  | reservedIndex
  | mismatchedLengths
  deriving DecidableEq

/-- A share: the point of evaluation and the value for each byte of the secret. -/
structure ShamirShare where
  index : UInt8
  data : List UInt8
  index_ne : index ≠ 0
  deriving DecidableEq

namespace ShamirShare

/-- The bytes of a share: its index, then its data. -/
def toBytes (share : ShamirShare) : List UInt8 := share.index :: share.data

def fromBytes : List UInt8 → Except ShamirError ShamirShare
  | [] => .error .emptySecret
  | index :: data =>
    if data = [] then .error .emptySecret
    else if h : index = 0 then .error .reservedIndex
    else .ok ⟨index, data, h⟩

def extend (share : ShamirShare) (ys : List UInt8) : ShamirShare :=
  { share with data := share.data ++ ys }

theorem fromBytes_toBytes {share : ShamirShare} (h : share.data ≠ []) :
    fromBytes share.toBytes = .ok share := by
  rw [toBytes, fromBytes, if_neg h, dif_neg share.index_ne]

end ShamirShare

/-- Evaluate a polynomial by Horner's method. -/
def polyEval (coefficients : List Gf256) (x : Gf256) : Gf256 :=
  if coefficients = [] then 0
  else coefficients.reverse.foldl (fun result coeff => result * x + coeff) 0

variable (points : List (Gf256 × Gf256))

/-- The numerator and denominator of the basis polynomial of point `i` at zero. -/
def basisParts (xi : Gf256) (i : ℕ) : Gf256 × Gf256 :=
  points.zipIdx.foldl (fun parts point =>
    if i = point.2 then parts
    else (parts.1 * point.1.1, parts.2 * (xi - point.1.1))) (1, 1)

def lagrangeInterpolateAtZero : Gf256 :=
  points.zipIdx.foldl (fun result point =>
    let parts := basisParts points point.1.1 point.2
    result + point.1.2 * (parts.1 / parts.2)) 0

section Split

variable {R : Type*} (gen : R → UInt8 × R)

def randomCoefficients : ℕ → R → List Gf256 × R
  | 0, rng => ([], rng)
  | degree + 1, rng =>
    let (coef, rng) := gen rng
    let (coefficients, rng) := randomCoefficients degree rng
    (⟨coef⟩ :: coefficients, rng)

/-- A random polynomial with a given constant term. -/
def randomPoly (rng : R) (constant : UInt8) (degree : ℕ) : List Gf256 × R :=
  let (coefficients, rng) := randomCoefficients gen degree rng
  (⟨constant⟩ :: coefficients, rng)

/-- The values of one secret byte, appended to the shares. -/
def shareByte (degree : ℕ) (state : List ShamirShare × R) (secretByte : UInt8) :
    List ShamirShare × R :=
  let (poly, rng) := randomPoly gen state.2 secretByte degree
  (state.1.map fun share => share.extend [(polyEval poly ⟨share.index⟩).value], rng)

/-- The indices from one to `n` are bytes and not zero. -/
theorem toNat_shareIndex {n : UInt8} (i : Fin n.toNat) :
    (UInt8.ofNat (i.val + 1)).toNat = i.val + 1 := by
  have hn := n.toNat_lt
  exact UInt8.toNat_ofNat_of_lt' (by change i.val + 1 < 256; omega)

/-- Shares of the indices from one to `n`, without values. -/
def emptyShares (n : UInt8) : List ShamirShare :=
  (finRange n.toNat).map fun i => ⟨UInt8.ofNat (i.val + 1), [], fun h => by
    have hzero := (toNat_shareIndex i).symm.trans (congrArg UInt8.toNat h)
    exact absurd hzero (Nat.succ_ne_zero _)⟩

/-- Split a secret into `n` shares of which `k` are needed. -/
def splitSecretWithRng (rng : R) (secret : List UInt8) (k n : UInt8) :
    Except ShamirError (List ShamirShare × R) :=
  if k = 0 then .error .thresholdTooSmall
  else if n < k then .error (.thresholdExceedsTotal k n)
  else if n = 0 then .error .tooFewShares
  else if secret = [] then .error .emptySecret
  else .ok (secret.foldl (shareByte gen (k.toNat - 1)) (emptyShares n, rng))

end Split

/-- The check of the indices, with those seen so far. -/
def checkIndices : (UInt8 → Bool) → List ShamirShare → Except ShamirError Unit
  | _, [] => .ok ()
  | seen, share :: shares =>
    if share.index = 0 then .error .reservedIndex
    else if seen share.index then .error (.duplicateIndex share.index)
    else checkIndices (Function.update seen share.index true) shares

def reconstructSecret (shares : List ShamirShare) : Except ShamirError (List UInt8) :=
  match shares with
  | [] => .error .emptySecret
  | first :: rest =>
    if 255 < (first :: rest).length then .error .tooManyShares
    else
      match checkIndices (fun _ => false) (first :: rest) with
      | .error e => .error e
      | .ok () =>
        let secretLen := first.data.length
        if (first :: rest).any fun s => s.data.length != secretLen then .error .mismatchedLengths
        else .ok ((range secretLen).map fun byteIdx =>
          (lagrangeInterpolateAtZero ((first :: rest).map fun s =>
            (⟨s.index⟩, ⟨s.data.getD byteIdx 0⟩))).value)

section Interpolation

theorem polyEval_eq_horner (coefficients : List Gf256) (x : Gf256) :
    polyEval coefficients x = horner coefficients x := by
  unfold polyEval horner
  split_ifs with hnil
  · rw [hnil]
    rfl
  · rw [foldl_reverse]

/-- The parts of a basis polynomial are products over the other points. -/
theorem foldl_basisParts (xi : Gf256) (i : ℕ) (points : List ((Gf256 × Gf256) × ℕ))
    (parts : Gf256 × Gf256) :
    points.foldl (fun parts point =>
        if i = point.2 then parts
        else (parts.1 * point.1.1, parts.2 * (xi - point.1.1))) parts =
      (parts.1 * (points.map fun point => if i = point.2 then 1 else point.1.1).prod,
        parts.2 * (points.map fun point => if i = point.2 then 1 else xi - point.1.1).prod) := by
  induction points generalizing parts with
  | nil => simp
  | cons point points ih =>
    rw [foldl_cons, ih]
    by_cases hi : i = point.2
    · simp [hi]
    · simp [hi, mul_assoc]

variable (points : List (Gf256 × Gf256))

theorem basisParts_eq (xi : Gf256) (i : Fin points.length) :
    basisParts points xi i =
      (∏ j ∈ Finset.univ.erase i, points[j].1, ∏ j ∈ Finset.univ.erase i, (xi - points[j].1)) := by
  rw [basisParts, foldl_basisParts, zipIdx_eq_ofFn, map_ofFn, map_ofFn, prod_ofFn,
    prod_ofFn, one_mul, one_mul]
  exact Prod.ext (prod_skip i fun j => points[j].1) (prod_skip i fun j => xi - points[j].1)

/-- The interpolation loop is the Lagrange sum at zero. -/
theorem lagrangeInterpolateAtZero_eq :
    lagrangeInterpolateAtZero points = ∑ i : Fin points.length, points[i].2 *
      ((∏ j ∈ Finset.univ.erase i, (0 - points[j].1)) /
        ∏ j ∈ Finset.univ.erase i, (points[i].1 - points[j].1)) := by
  have hsum : lagrangeInterpolateAtZero points = (points.zipIdx.map fun point => point.1.2 *
      ((basisParts points point.1.1 point.2).1 / (basisParts points point.1.1 point.2).2)).sum := by
    rw [sum_eq_foldl, foldl_map]
    rfl
  rw [hsum, zipIdx_eq_ofFn, map_ofFn, sum_ofFn]
  simp only [Function.comp_apply, basisParts_eq, zero_sub, Gf256.neg_eq]

/-- Interpolation at zero gives the constant term back. -/
theorem lagrangeInterpolateAtZero_of_horner {points : List (Gf256 × Gf256)} {c : Gf256}
    {coeffs : List Gf256} (hdistinct : (points.map Prod.fst).Nodup)
    (hvalues : ∀ point ∈ points, point.2 = horner (c :: coeffs) point.1)
    (hlength : coeffs.length < points.length) : lagrangeInterpolateAtZero points = c := by
  have hinjective : Function.Injective fun i : Fin points.length => points[i].1 := by
    intro i j hij
    have heq := inj_on_of_nodup_map hdistinct (getElem_mem i.isLt)
      (getElem_mem j.isLt) hij
    exact Fin.ext ((hdistinct.of_map _).getElem_inj_iff.mp heq)
  have hdegree : (polynomialOf (c :: coeffs)).degree <
      (Finset.univ : Finset (Fin points.length)).card := by
    rw [Finset.card_fin]
    refine lt_of_lt_of_le (degree_polynomialOf_lt (c :: coeffs)) ?_
    exact_mod_cast hlength
  have hsum := eval_eq_sum_of_degree_lt hinjective.injOn hdegree 0
  rw [eval_polynomialOf, horner_zero] at hsum
  rw [lagrangeInterpolateAtZero_eq]
  refine Eq.trans (Finset.sum_congr rfl fun i _ => ?_) hsum.symm
  rw [eval_polynomialOf, hvalues points[i] (getElem_mem i.isLt)]

end Interpolation

section Sharing

variable {R : Type*} {gen : R → UInt8 × R} {rng rng' : R} {secret : List UInt8} {k n : UInt8}
  {shares : List ShamirShare}

/-- The random polynomials of a secret, one for each byte. -/
def randomPolys (gen : R → UInt8 × R) (degree : ℕ) : List UInt8 → R → List (List Gf256) × R
  | [], rng => ([], rng)
  | secretByte :: secret, rng =>
    let (poly, rng) := randomPoly gen rng secretByte degree
    let (polys, rng) := randomPolys gen degree secret rng
    (poly :: polys, rng)

/-- The values of polynomials at an index. -/
def valuesAt (polys : List (List Gf256)) (index : UInt8) : List UInt8 :=
  polys.map fun poly => (horner poly ⟨index⟩).value

variable (degree : ℕ)

/-- A polynomial with a byte as its constant term and so many further coefficients. -/
def SharesByte (secretByte : UInt8) (poly : List Gf256) : Prop :=
  ∃ coeffs : List Gf256, coeffs.length = degree ∧ poly = ⟨secretByte⟩ :: coeffs

theorem length_randomCoefficients (rng : R) :
    (randomCoefficients gen degree rng).1.length = degree := by
  induction degree generalizing rng with
  | zero => rfl
  | succ degree ih =>
    simp only [randomCoefficients, length_cons]
    rw [ih]

theorem sharesByte_randomPolys (secret : List UInt8) (rng : R) :
    Forall₂ (SharesByte degree) secret (randomPolys gen degree secret rng).1 := by
  induction secret generalizing rng with
  | nil => exact .nil
  | cons secretByte secret ih =>
    exact .cons ⟨_, length_randomCoefficients degree rng, rfl⟩ (ih _)

/-- The loop over the secret appends to each share the values at its index. -/
theorem foldl_shareByte (secret : List UInt8) (shares : List ShamirShare) (rng : R) :
    secret.foldl (shareByte gen degree) (shares, rng) =
      (shares.map fun share =>
          share.extend (valuesAt (randomPolys gen degree secret rng).1 share.index),
        (randomPolys gen degree secret rng).2) := by
  induction secret generalizing shares rng with
  | nil =>
    simp [valuesAt, randomPolys, ShamirShare.extend]
  | cons secretByte secret ih =>
    rw [foldl_cons, shareByte, ih]
    simp [valuesAt, randomPolys, ShamirShare.extend, polyEval_eq_horner]

structure SplitOf (secret : List UInt8) (k n : UInt8) (polys : List (List Gf256))
    (shares : List ShamirShare) : Prop where
  threshold_pos : 0 < k.toNat
  threshold_le : k.toNat ≤ n.toNat
  secret_ne : secret ≠ []
  polys_share : Forall₂ (SharesByte (k.toNat - 1)) secret polys
  /-- The shares are those of the indices from one to the number of shares. -/
  shares_eq : shares = (emptyShares n).map fun share => share.extend (valuesAt polys share.index)

theorem splitSecretWithRng_eq_ok (gen : R → UInt8 × R) (rng : R) (hpos : 0 < k.toNat)
    (hle : k.toNat ≤ n.toNat) (hsecret : secret ≠ []) :
    splitSecretWithRng gen rng secret k n =
      .ok ((emptyShares n).map fun share => share.extend
          (valuesAt (randomPolys gen (k.toNat - 1) secret rng).1 share.index),
        (randomPolys gen (k.toNat - 1) secret rng).2) := by
  have hk : k ≠ 0 := fun h => by rw [h] at hpos; exact absurd hpos (by decide)
  have hn : n ≠ 0 := fun h => by
    rw [h] at hle
    exact absurd (lt_of_lt_of_le hpos hle) (by decide)
  have hlt : ¬ n < k := by rw [UInt8.lt_iff_toNat_lt]; omega
  rw [splitSecretWithRng, if_neg hk, if_neg hlt, if_neg hn, if_neg hsecret, foldl_shareByte]

theorem splitOf_of_ok (h : splitSecretWithRng gen rng secret k n = .ok (shares, rng')) :
    SplitOf secret k n (randomPolys gen (k.toNat - 1) secret rng).1 shares := by
  have hcases := h
  unfold splitSecretWithRng at hcases
  split_ifs at hcases with hk hlt hn hsecret
  have hpos : 0 < k.toNat := Nat.pos_of_ne_zero fun hzero => hk (UInt8.toNat_inj.mp hzero)
  have hle : k.toNat ≤ n.toNat := by rw [UInt8.lt_iff_toNat_lt] at hlt; omega
  rw [splitSecretWithRng_eq_ok gen rng hpos hle hsecret] at h
  have hshares := congrArg Prod.fst (Except.ok.inj h)
  exact ⟨hpos, hle, hsecret, sharesByte_randomPolys _ _ _, hshares.symm⟩

/-- The shares before any values: one for each index up to the number of shares. -/
theorem mem_emptyShares {share : ShamirShare} :
    share ∈ emptyShares n ↔ share.index.toNat ≤ n.toNat ∧ share.data = [] := by
  simp only [emptyShares, mem_map, mem_finRange, true_and]
  constructor
  · rintro ⟨i, rfl⟩
    refine ⟨?_, rfl⟩
    rw [toNat_shareIndex]
    omega
  · rintro ⟨hle, hdata⟩
    have hpos : share.index.toNat ≠ 0 := fun h => share.index_ne (UInt8.toNat_inj.mp h)
    refine ⟨⟨share.index.toNat - 1, by omega⟩, ?_⟩
    obtain ⟨index, data, hne⟩ := share
    simp only [ShamirShare.mk.injEq]
    refine ⟨?_, hdata.symm⟩
    rw [Nat.sub_add_cancel (Nat.one_le_iff_ne_zero.mpr hpos), UInt8.ofNat_toNat]

/-- The shares: one for each index up to the number of shares, with the values at it. -/
theorem SplitOf.mem_iff {polys : List (List Gf256)} (h : SplitOf secret k n polys shares)
    {share : ShamirShare} :
    share ∈ shares ↔ share.index.toNat ≤ n.toNat ∧ share.data = valuesAt polys share.index := by
  rw [h.shares_eq, mem_map]
  constructor
  · rintro ⟨empty, hmem, rfl⟩
    obtain ⟨hle, hdata⟩ := mem_emptyShares.mp hmem
    exact ⟨hle, by simp [ShamirShare.extend, hdata]⟩
  · rintro ⟨hle, hdata⟩
    refine ⟨⟨share.index, [], share.index_ne⟩, mem_emptyShares.mpr ⟨hle, rfl⟩, ?_⟩
    rw [ShamirShare.mk.injEq]
    exact ⟨rfl, hdata.symm⟩

theorem checkIndices_of_nodup {seen : UInt8 → Bool} (hnodup : (shares.map (·.index)).Nodup)
    (hseen : ∀ share ∈ shares, seen share.index = false) : checkIndices seen shares = .ok () := by
  induction shares generalizing seen with
  | nil => rfl
  | cons share shares ih =>
    obtain ⟨hhead, htail⟩ := nodup_cons.mp hnodup
    rw [checkIndices, if_neg share.index_ne,
      if_neg (by rw [hseen share mem_cons_self]; exact Bool.false_ne_true)]
    refine ih htail fun other hother => ?_
    have hne : other.index ≠ share.index := fun heq =>
      hhead (mem_map.mpr ⟨other, hother, heq⟩)
    rw [Function.update_of_ne hne]
    exact hseen other (mem_cons_of_mem _ hother)

/-- Distinct indices of bytes other than zero are at most 255. -/
theorem length_le_of_nodup (hnodup : (shares.map (·.index)).Nodup) : shares.length ≤ 255 := by
  have hzero : 0 ∉ shares.map (·.index) := by
    intro hmem
    obtain ⟨share, -, hindex⟩ := mem_map.mp hmem
    exact share.index_ne hindex
  have hle := ((nodup_cons.mpr ⟨hzero, hnodup⟩).map
    fun _ _ => UInt8.toFin_inj.mp).length_le_card
  rw [length_map, length_cons, length_map, Fintype.card_fin] at hle
  exact Nat.le_of_succ_le_succ hle

/-- Enough shares of a split secret, in any order, give the secret back. -/
theorem SplitOf.reconstructSecret_eq {polys : List (List Gf256)}
    (h : SplitOf secret k n polys shares) {chosen : List ShamirShare} (hsub : chosen ⊆ shares)
    (hnodup : (chosen.map (·.index)).Nodup) (hlength : k.toNat ≤ chosen.length) :
    reconstructSecret chosen = .ok secret := by
  have hpos := h.threshold_pos
  have hdata : ∀ share ∈ chosen, share.data = valuesAt polys share.index := fun share hmem =>
    (h.mem_iff.mp (hsub hmem)).2
  have hpolys := h.polys_share.length_eq
  have hlen : ∀ share ∈ chosen, share.data.length = secret.length := fun share hmem => by
    rw [hdata share hmem, valuesAt, length_map, hpolys]
  have haccepted : reconstructSecret chosen = .ok ((range secret.length).map fun byteIdx =>
      (lagrangeInterpolateAtZero (chosen.map fun s =>
        (⟨s.index⟩, ⟨s.data.getD byteIdx 0⟩))).value) := by
    cases chosen with
    | nil => exact absurd hlength (by simpa using hpos.ne')
    | cons first rest =>
      have hcheck : checkIndices (fun _ => false) (first :: rest) = .ok () :=
        checkIndices_of_nodup hnodup fun _ _ => rfl
      have hsame : ¬ ((first :: rest).any fun s => s.data.length != secret.length) = true := by
        simpa using hlen
      have hle := length_le_of_nodup hnodup
      rw [reconstructSecret, if_neg (by omega), hcheck]
      simp only [hlen first mem_cons_self]
      exact if_neg hsame
  rw [haccepted]
  congr 1
  refine ext_getElem (by simp) fun byteIdx hbyte hsecret => ?_
  rw [getElem_map, getElem_range]
  obtain ⟨coeffs, hcoeffs, hpoly⟩ := h.polys_share.get hsecret (hpolys ▸ hsecret)
  simp only [get_eq_getElem] at hpoly
  have hinterpolate : lagrangeInterpolateAtZero (chosen.map fun s =>
      ((⟨s.index⟩), (⟨s.data.getD byteIdx 0⟩))) = ⟨secret[byteIdx]⟩ := by
    refine lagrangeInterpolateAtZero_of_horner ?_ (fun point hpoint => ?_)
      (show coeffs.length < _ by rw [length_map]; omega)
    · have hinjective : Function.Injective Gf256.mk := fun _ _ => Gf256.mk.inj
      have hmap := hnodup.map hinjective
      rwa [map_map] at hmap ⊢
    · obtain ⟨share, hmem, rfl⟩ := mem_map.mp hpoint
      have hlt : byteIdx < polys.length := by omega
      simp only [hdata share hmem, valuesAt]
      rw [getD_eq_getElem _ _ (by simpa using hlt), getElem_map, ← hpoly]
  exact congrArg Gf256.value hinterpolate

/-- Whatever coefficients are drawn, a secret with a threshold of at least one and at most the number
of shares is split unless it is empty, and any shares with distinct indices, at least as many as the
threshold and in any order, give it back. -/
theorem reconstruct_split (gen : R → UInt8 × R) (rng : R) (secret : List UInt8) (hk : 1 ≤ k)
    (hn : k ≤ n) :
    (secret ≠ [] → ∃ shares rng', splitSecretWithRng gen rng secret k n = .ok (shares, rng')) ∧
      ∀ shares rng', splitSecretWithRng gen rng secret k n = .ok (shares, rng') →
        ∀ chosen : List ShamirShare, chosen ⊆ shares → (chosen.map (·.index)).Nodup →
          k.toNat ≤ chosen.length → reconstructSecret chosen = .ok secret := by
  refine ⟨fun hsecret => ?_, fun shares rng' hsplit chosen hsub hnodup hlength => ?_⟩
  · exact ⟨_, _, splitSecretWithRng_eq_ok gen rng (UInt8.le_iff_toNat_le.mp hk)
      (UInt8.le_iff_toNat_le.mp hn) hsecret⟩
  · exact (splitOf_of_ok hsplit).reconstructSecret_eq hsub hnodup hlength

end Sharing

/-- Random bytes from a list, zeros after its end. -/
def streamGen : List UInt8 → UInt8 × List UInt8
  | [] => (0, [])
  | byte :: stream => (byte, stream)

/-- Two of three shares of a secret of two bytes. -/
theorem reconstruct_split_two_of_three :
    splitSecretWithRng streamGen [5, 200] [7, 9] 2 3 =
        .ok ([⟨1, [2, 193], by decide⟩, ⟨2, [13, 130], by decide⟩, ⟨3, [8, 74], by decide⟩], []) ∧
      reconstructSecret [⟨3, [8, 74], by decide⟩, ⟨1, [2, 193], by decide⟩] = .ok [7, 9] := by
  have hsplit : splitSecretWithRng streamGen [5, 200] [7, 9] 2 3 =
      .ok ([⟨1, [2, 193], by decide⟩, ⟨2, [13, 130], by decide⟩, ⟨3, [8, 74], by decide⟩], []) := by
    decide +kernel
  refine ⟨hsplit, ?_⟩
  exact (reconstruct_split streamGen [5, 200] [7, 9] (by decide) (by decide)).2 _ _ hsplit _
    (by decide) (by decide) (by decide)

end Flywheel.Crypto
