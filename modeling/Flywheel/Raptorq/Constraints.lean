import Flywheel.Data.SparseEquations
import Flywheel.Raptorq.Solve

/-!
# The constraint matrix

The loops that fill the constraint matrix are read off entry by entry. Every constraint row has a
one in the column of its own check symbol and otherwise only entries to the left of the check
symbols of its kind, so the source symbols determine the other intermediate symbols.
-/

namespace Flywheel.Raptorq

open Flywheel.Data Finset

namespace SystematicParams

set_option maxRecDepth 10000 in
theorem systematicIndexTable_spec : ∀ row ∈ systematicIndexTable,
    0 < row.s ∧ row.w + 3 ≤ row.kPrime + row.s + row.h ∧
      row.kPrime + row.s + row.h < row.w + 2 ^ 30 ∧ 1 < row.w % 2 ^ 32 ∧ isPrime row.w ∧
      15 ≤ row.w ∧ (18 < row.kPrime → 30 ≤ row.w) ∧ row.kPrime ≤ 56403 := by
  decide +kernel

variable (params : SystematicParams)

theorem s_pos : 0 < params.s := (systematicIndexTable_spec _ params.mem_table).1

theorem p_ge : 3 ≤ params.p := by
  have := (systematicIndexTable_spec _ params.mem_table).2.1
  simp only [p, l] at this ⊢
  omega

theorem w_add_p : params.w + params.p = params.l := by
  have := (systematicIndexTable_spec _ params.mem_table).2.1
  simp only [p, l] at this ⊢
  omega

theorem p1_mod : 1 < nextPrimeGe params.p % 2 ^ 32 := by
  have hp : params.p < 2 ^ 30 := by
    have := (systematicIndexTable_spec _ params.mem_table).2.2.1
    simp only [p, l] at this ⊢
    omega
  have hle := nextPrimeGe_le params.p
  rw [Nat.mod_eq_of_lt (by omega)]
  exact (nextPrimeGe_spec params.p).1.one_lt

theorem w_ge_half : 15 ≤ params.w := (systematicIndexTable_spec _ params.mem_table).2.2.2.2.2.1

theorem w_mod : 1 < params.w % 2 ^ 32 := (systematicIndexTable_spec _ params.mem_table).2.2.2.1

theorem w_prime : params.w.Prime :=
  (isPrime_iff _).mp (systematicIndexTable_spec _ params.mem_table).2.2.2.2.1

/-- Beyond the three smallest blocks there are at least as many LT symbols as the largest
degree. -/
theorem w_ge (h : 18 < params.kPrime) : 30 ≤ params.w :=
  (systematicIndexTable_spec _ params.mem_table).2.2.2.2.2.2.1 h

theorem kPrime_le : params.kPrime ≤ 56403 :=
  (systematicIndexTable_spec _ params.mem_table).2.2.2.2.2.2.2

theorem kPrime_le_l : params.kPrime ≤ params.l := by
  rw [l]
  omega

/-- The index of an intermediate source symbol fits a word. -/
theorem toNat_ofNat {c : ℕ} (hc : c < params.kPrime) : (UInt32.ofNat c).toNat = c :=
  UInt32.toNat_ofNat_of_lt' (lt_of_lt_of_le (hc.trans_le params.kPrime_le) (by decide))

theorem repair_columns_lt {esi : UInt32} {c : ℕ} (hc : c ∈ (params.rfcRepairEquation esi).1) :
    c < params.l := by
  rw [← params.w_add_p]
  exact repairIndicesForEsi_lt params.w_mod params.p1_mod params.p_ge hc

/-- The tuple of a repair symbol. -/
def repairTuple (esi : UInt32) : LtTuple := tuple params.j params.w (nextPrimeGe params.p) esi

theorem repairTuple_valid (esi : UInt32) :
    (params.repairTuple esi).Valid params.w (nextPrimeGe params.p) :=
  tuple_valid esi params.w_mod params.p1_mod

theorem repair_columns_nodup_iff (esi : UInt32) :
    (params.rfcRepairEquation esi).1.Nodup ↔ (params.repairTuple esi).d ≤ params.w :=
  repairIndicesForEsi_nodup_iff params.w_mod params.p1_mod params.p_ge params.w_prime

theorem repair_columns_nodup (h : 18 < params.kPrime) (esi : UInt32) :
    (params.rfcRepairEquation esi).1.Nodup :=
  (params.repair_columns_nodup_iff esi).mpr ((params.repairTuple_valid esi).d_le.trans (params.w_ge h))

end SystematicParams

namespace ConstraintMatrix

variable {rows cols : ℕ}

section Entries

theorem get_zeros (r c : ℕ) : (zeros rows cols).get r c = 0 := by
  unfold get zeros
  split_ifs with h
  · rw [List.Vector.get_replicate, List.Vector.get_replicate]
  · rfl

variable (m : ConstraintMatrix rows cols)

theorem get_set {a b r c : ℕ} (v : Gf256) (hr : r < rows)
    (hc : c < cols) : (m.set a b v).get r c = if a = r ∧ b = c then v else m.get r c := by
  by_cases hpos : a = r ∧ b = c
  · obtain ⟨rfl, rfl⟩ := hpos
    simp [set, get, hr, hc]
  · unfold set
    split_ifs with hin
    · rw [get, get, dif_pos ⟨hr, hc⟩, dif_pos ⟨hr, hc⟩]
      by_cases har : a = r
      · subst har
        have hbc : (⟨b, hin.2⟩ : Fin cols) ≠ ⟨c, hc⟩ := fun h => hpos ⟨rfl, congrArg Fin.val h⟩
        rw [List.Vector.get_set_same, List.Vector.get_set_of_ne hbc]
      · have hne : (⟨a, hin.1⟩ : Fin rows) ≠ ⟨r, hr⟩ := fun h => har (congrArg Fin.val h)
        rw [List.Vector.get_set_of_ne hne]
    · rfl

theorem get_addAssign {a b r c : ℕ} (v : Gf256) (hr : r < rows) (hc : c < cols) :
    (m.addAssign a b v).get r c = m.get r c + if a = r ∧ b = c then v else 0 := by
  rw [addAssign, get_set m _ hr hc]
  split_ifs with hpos
  · rw [hpos.1, hpos.2]
  · rw [add_zero]

/-- A loop over the matrix in which only turn `j` touches the entry, which it maps by `f`. -/
theorem get_foldl_range {step : ConstraintMatrix rows cols → ℕ → ConstraintMatrix rows cols}
    {r c j : ℕ} (f : Gf256 → Gf256)
    (hstep : ∀ m i, (step m i).get r c = if i = j then f (m.get r c) else m.get r c) (n : ℕ)
    (m : ConstraintMatrix rows cols) :
    ((List.range n).foldl step m).get r c = if j < n then f (m.get r c) else m.get r c := by
  induction n with
  | zero => rfl
  | succ n ih =>
    rw [List.range_succ, List.foldl_append, List.foldl_cons, List.foldl_nil, hstep, ih]
    split_ifs <;> first | rfl | omega

/-- A loop that writes to some entries, each turn to one, and to this entry in turn `j` only. -/
theorem get_foldl_set {f g : ℕ → ℕ} {v : ℕ → Gf256} {P : Prop} [Decidable P] {r c j : ℕ}
    (hr : r < rows) (hc : c < cols) (hpos : ∀ i, f i = r ∧ g i = c ↔ i = j ∧ P) (n : ℕ)
    (m : ConstraintMatrix rows cols) :
    ((List.range n).foldl (fun m i => m.set (f i) (g i) (v i)) m).get r c =
      if j < n ∧ P then v j else m.get r c := by
  rw [get_foldl_range (fun x => if P then v j else x), ite_and]
  intro m i
  rw [get_set _ _ hr hc]
  by_cases hi : i = j
  · subst hi
    simp [hpos]
  · simp [hpos, hi]

end Entries

/-- The entry of an LDPC row in a source column. -/
def ldpcCoef (s r c : ℕ) : Gf256 :=
  let a := 1 + c / max s 1
  let row0 := c % s
  let row1 := (row0 + a) % s
  let row2 := (row1 + a) % s
  (if row0 = r then 1 else 0) + (if row1 = r then 1 else 0) + (if row2 = r then 1 else 0)

def mtCoef (h ks t c : ℕ) : Gf256 :=
  if c + 1 < ks then
    (if (mtRows h c).1 = t then 1 else 0) +
      (if (mtRows h c).2 ≠ (mtRows h c).1 ∧ (mtRows h c).2 = t then 1 else 0)
  else Gf256.alpha.pow (UInt8.ofNat (t % 255))

/-- The entry of an HDPC row in a column of the other symbols. -/
def hdpcCoef (h ks r c : ℕ) : Gf256 :=
  (List.range (r + 1)).foldl (fun val t =>
    if mtCoef h ks t c ≠ 0 then
      val + Gf256.alpha.pow (UInt8.ofNat ((r - t) % 255)) * mtCoef h ks t c
    else val) 0

variable (m : ConstraintMatrix rows cols) (params : SystematicParams) {r c : ℕ}

theorem get_buildLdpcRows (hr : r < rows) (hc : c < cols) :
    (m.buildLdpcRows params).get r c =
      if r < params.s ∧ c = params.kPrime + r then 1
      else if c < params.kPrime then m.get r c + ldpcCoef params.s r c else m.get r c := by
  have hloop : ∀ m : ConstraintMatrix rows cols, ∀ i,
      (((m.addAssign (i % params.s) i 1).addAssign
        ((i % params.s + (1 + i / max params.s 1)) % params.s) i 1).addAssign
        (((i % params.s + (1 + i / max params.s 1)) % params.s + (1 + i / max params.s 1)) %
          params.s) i 1).get r c =
      if i = c then m.get r c + ldpcCoef params.s r c else m.get r c := fun m i => by
    rw [get_addAssign _ _ hr hc, get_addAssign _ _ hr hc, get_addAssign _ _ hr hc]
    by_cases hi : i = c
    · subst hi
      simp only [and_true, if_true, ldpcCoef]
      rw [add_assoc, add_assoc, add_assoc]
    · simp [hi]
  simp only [buildLdpcRows]
  rw [get_foldl_set (P := c = params.kPrime + r) (j := r) hr hc (fun i => by omega),
    get_foldl_range (fun v => v + ldpcCoef params.s r c) hloop]

theorem get_buildMt {h ks r c : ℕ} (hr : r < h) (hc : c < ks) :
    (buildMt h ks).get r c = mtCoef h ks r c := by
  have hloop : ∀ m : ConstraintMatrix h ks, ∀ j,
      (if (mtRows h j).2 ≠ (mtRows h j).1 then
        (m.addAssign (mtRows h j).1 j 1).addAssign (mtRows h j).2 j 1
        else m.addAssign (mtRows h j).1 j 1).get r c =
      if j = c then m.get r c + ((if (mtRows h c).1 = r then 1 else 0) +
        (if (mtRows h c).2 ≠ (mtRows h c).1 ∧ (mtRows h c).2 = r then 1 else 0))
      else m.get r c := fun m j => by
    by_cases hne : (mtRows h j).2 ≠ (mtRows h j).1
    · rw [if_pos hne, get_addAssign _ _ hr hc, get_addAssign _ _ hr hc]
      by_cases hj : j = c
      · subst hj
        simp [hne, add_assoc]
      · simp [hj]
    · rw [if_neg hne, get_addAssign _ _ hr hc]
      by_cases hj : j = c
      · subst hj
        simp [hne]
      · simp [hj]
  simp only [buildMt, if_pos (show 0 < ks by omega)]
  rw [get_foldl_set (P := c = ks - 1) (j := r) hr hc (fun i => by omega),
    get_foldl_range (fun v => v + _) hloop, get_zeros, mtCoef]
  split_ifs <;> first | rfl | omega

theorem gammaMt_buildMt {h ks r c : ℕ} (hr : r < h) (hc : c < ks) :
    gammaMt (buildMt h ks) r c = hdpcCoef h ks r c := by
  have hentry : ∀ t ∈ List.range (r + 1), (buildMt h ks).get t c = mtCoef h ks t c := fun t ht =>
    get_buildMt (by have := List.mem_range.mp ht; omega) hc
  refine List.foldl_ext _ _ _ fun val t ht => ?_
  rw [hentry t ht]

/-- The HDPC loops, entry by entry, on a matrix that is zero in the HDPC rows. -/
theorem get_buildHdpcRows (hr : r < rows) (hc : c < cols)
    (hzero : params.s ≤ r → r < params.s + params.h → m.get r c = 0) :
    (m.buildHdpcRows params).get r c =
      if params.s ≤ r ∧ r < params.s + params.h then
        if c = params.kPrime + r then 1
        else if c < params.kPrime + params.s then
          hdpcCoef params.h (params.kPrime + params.s) (r - params.s) c
        else 0
      else m.get r c := by
  set s := params.s
  set h := params.h
  set ks := params.kPrime + s with hks
  set g := gammaMt (buildMt h ks) with hg
  have hinner : ∀ r', ∀ m : ConstraintMatrix rows cols, ∀ c',
      (if g r' c' ≠ 0 then m.set (s + r') c' (g r' c') else m).get r c =
      if c' = c then (if s + r' = r ∧ g r' c ≠ 0 then g r' c else m.get r c)
      else m.get r c := fun r' m c' => by
    rw [apply_ite (get · r c), get_set _ _ hr hc]
    by_cases hc' : c' = c
    · subst hc'
      by_cases hval : g r' c' ≠ 0 <;> simp [hval]
    · simp [hc']
  have houter : ∀ m : ConstraintMatrix rows cols, ∀ r',
      ((List.range ks).foldl (fun m c' =>
        if g r' c' ≠ 0 then m.set (s + r') c' (g r' c') else m) m).get r c =
      if r' = r - s then (if s ≤ r ∧ c < ks ∧ g (r - s) c ≠ 0 then g (r - s) c else m.get r c)
      else m.get r c := fun m r' => by
    rw [get_foldl_range (fun v => if s + r' = r ∧ g r' c ≠ 0 then g r' c else v) (hinner r')]
    by_cases hr' : r' = r - s
    · subst hr'
      have hrow : s + (r - s) = r ↔ s ≤ r := by omega
      by_cases hcks : c < ks <;> simp [hcks, hrow]
    · simp [hr', show ¬ s + r' = r by omega]
  simp only [buildHdpcRows]
  by_cases hh : params.h = 0
  · rw [if_pos hh, if_neg (by omega)]
  rw [if_neg hh, get_foldl_set (P := s ≤ r ∧ c = params.kPrime + r) (j := r - s) hr hc
      (fun i => by omega),
    get_foldl_range (fun v => if s ≤ r ∧ c < ks ∧ g (r - s) c ≠ 0 then g (r - s) c else v) houter]
  by_cases hrange : s ≤ r ∧ r < s + h
  · have hlt : r - s < h := by omega
    rw [if_pos hlt, if_pos hrange, hzero hrange.1 hrange.2]
    by_cases hcol : c = params.kPrime + r
    · rw [if_pos ⟨hlt, hrange.1, hcol⟩, if_pos hcol]
    · rw [if_neg (fun h => hcol h.2.2), if_neg hcol]
      by_cases hcks : c < ks
      · rw [← gammaMt_buildMt hlt hcks, ← hg]
        by_cases hval : g (r - s) c = 0 <;> simp [hval, hcks, hrange.1]
      · simp [hcks]
  · split_ifs <;> first | rfl | omega

theorem get_buildLtRows (hr : r < rows) (hc : c < cols) :
    (m.buildLtRows params).get r c =
      if c < params.kPrime ∧ r = params.s + params.h + c then 1 else m.get r c := by
  rw [buildLtRows, get_foldl_set (P := r = params.s + params.h + c) (j := c) hr hc
    (fun i => by omega)]

theorem ldpcCoef_of_le {s r c : ℕ} (hs : 0 < s) (hr : s ≤ r) : ldpcCoef s r c = 0 := by
  have hne : ∀ x, ¬ x % s = r := fun x => by
    have := Nat.mod_lt x hs
    omega
  simp only [ldpcCoef, if_neg (hne _), add_zero]

/-- The entry of an LDPC or HDPC row: a one in the column of the row's own check symbol, and the
circulant or the GAMMA–MT pattern to the left of the check symbols of its kind. -/
def constraintCoef (r c : ℕ) : Gf256 :=
  if c = params.kPrime + r then 1
  else if r < params.s then
    if c < params.kPrime then ldpcCoef params.s r c else 0
  else if c < params.kPrime + params.s then
    hdpcCoef params.h (params.kPrime + params.s) (r - params.s) c
  else 0

/-- The constraint rows of the built matrix. -/
theorem get_build {params : SystematicParams} (hr : r < params.s + params.h)
    (hc : c < params.l) : (build params).get r c = constraintCoef params r c := by
  have hrow : r < params.s + params.h + params.kPrime := by omega
  have hldpc := get_buildLdpcRows (zeros _ _) params hrow hc
  rw [get_zeros, zero_add] at hldpc
  rw [build, get_buildLtRows _ _ hrow hc, if_neg (by omega), get_buildHdpcRows _ _ hrow hc, hldpc,
    constraintCoef]
  · split_ifs <;> first | rfl | omega
  · intro hs _
    rw [hldpc, if_neg (by omega), ldpcCoef_of_le params.s_pos hs, ite_self]

/-- The systematic rows of the built matrix. -/
theorem get_build_source {params : SystematicParams} {i c : ℕ} (hi : i < params.kPrime)
    (hc : c < params.l) :
    (build params).get (params.s + params.h + i) c = if c = i then 1 else 0 := by
  have hrow : params.s + params.h + i < params.s + params.h + params.kPrime := by omega
  have hldpc := get_buildLdpcRows (zeros _ _) params hrow hc
  rw [get_zeros, zero_add, if_neg (by omega), ldpcCoef_of_le params.s_pos (by omega), ite_self]
    at hldpc
  have hhdpc := get_buildHdpcRows ((zeros _ _).buildLdpcRows params) params hrow hc (by omega)
  rw [if_neg (by omega), hldpc] at hhdpc
  rw [build, get_buildLtRows _ _ hrow hc, hhdpc]
  by_cases hci : c = i
  · rw [if_pos (by omega), if_pos hci]
  · rw [if_neg (by omega), if_neg hci]

end ConstraintMatrix

section Solutions

open ConstraintMatrix

variable {W : Type*} [AddCommGroup W] [Module Gf256 W] {params : SystematicParams}

/-- A vector of intermediate symbols meets the LDPC and HDPC relations. -/
def ConstraintsHold (params : SystematicParams) (y : ℕ → W) : Prop :=
  ∀ r < params.s + params.h, ∑ c ∈ range params.l, constraintCoef params r c • y c = 0

/-- The number of symbols to the left of the check symbols of a row's kind. -/
def checkStart (params : SystematicParams) (r : ℕ) : ℕ :=
  if r < params.s then params.kPrime else params.kPrime + params.s

/-- The sum over the symbols to the left of the check symbols of a row's kind. -/
def checkSum (params : SystematicParams) (y : ℕ → W) (r : ℕ) : W :=
  ∑ c ∈ range (checkStart params r), constraintCoef params r c • y c

theorem checkStart_le (params : SystematicParams) (r : ℕ) : checkStart params r ≤ params.kPrime + r := by
  unfold checkStart
  split_ifs <;> omega

/-- A constraint row is the sum to the left of the check symbols plus the row's own. -/
theorem sum_constraintCoef (y : ℕ → W) {r : ℕ} (hr : r < params.s + params.h) :
    ∑ c ∈ range params.l, constraintCoef params r c • y c =
      y (params.kPrime + r) + checkSum params y r := by
  have hstart := checkStart_le params r
  have hl : params.kPrime + r < params.l := by
    rw [SystematicParams.l]
    omega
  have hself : constraintCoef params r (params.kPrime + r) = 1 := if_pos rfl
  have hzero : ∀ c, checkStart params r ≤ c → c ≠ params.kPrime + r →
      constraintCoef params r c = 0 := by
    intro c hc hne
    rw [constraintCoef, if_neg hne]
    unfold checkStart at hc
    split_ifs at hc ⊢ <;> first | rfl | omega
  rw [checkSum, ← one_smul Gf256 (y (params.kPrime + r)), ← hself,
    ← sum_insert (f := fun c => constraintCoef params r c • y c) (by
      rw [mem_range]
      omega)]
  refine (sum_subset ?_ ?_).symm
  · intro c hc
    rw [mem_insert, mem_range] at hc
    rw [mem_range]
    omega
  · intro c _ hc
    rw [mem_insert, mem_range, not_or, not_lt] at hc
    rw [hzero c hc.2 hc.1, zero_smul]

theorem checkSum_congr {y z : ℕ → W} {r : ℕ} (h : ∀ c < checkStart params r, y c = z c) :
    checkSum params y r = checkSum params z r :=
  sum_congr rfl fun c hc => by rw [h c (mem_range.mp hc)]

theorem constraintsHold_iff {y : ℕ → W} :
    ConstraintsHold params y ↔
      ∀ r < params.s + params.h, y (params.kPrime + r) = -checkSum params y r := by
  refine forall₂_congr fun r hr => ?_
  rw [sum_constraintCoef y hr, add_eq_zero_iff_eq_neg]

/-- The source symbols determine the intermediate symbols. -/
theorem ConstraintsHold.ext {y z : ℕ → W} (hy : ConstraintsHold params y)
    (hz : ConstraintsHold params z) (heq : ∀ c < params.kPrime, y c = z c) :
    ∀ c < params.l, y c = z c := by
  rw [constraintsHold_iff] at hy hz
  have hcheck : ∀ r < params.s + params.h, (∀ c < checkStart params r, y c = z c) →
      y (params.kPrime + r) = z (params.kPrime + r) := fun r hr h => by
    rw [hy r hr, hz r hr, checkSum_congr h]
  have hldpc : ∀ c < params.kPrime + params.s, y c = z c := by
    intro c hc
    by_cases hck : c < params.kPrime
    · exact heq c hck
    · obtain ⟨r, rfl⟩ := Nat.exists_eq_add_of_le (not_lt.mp hck)
      refine hcheck r (by omega) fun c hc' => heq c ?_
      rwa [checkStart, if_pos (by omega)] at hc'
  intro c hc
  rw [SystematicParams.l] at hc
  by_cases hck : c < params.kPrime + params.s
  · exact hldpc c hck
  · obtain ⟨r, rfl⟩ := Nat.exists_eq_add_of_le (show params.kPrime ≤ c by omega)
    refine hcheck r (by omega) fun c hc' => hldpc c ?_
    rwa [checkStart, if_neg (by omega)] at hc'

/-- The source symbols together with the LDPC symbols. -/
def withLdpc (params : SystematicParams) (x : ℕ → W) (c : ℕ) : W :=
  if c < params.kPrime then x c else -checkSum params x (c - params.kPrime)

/-- The intermediate symbols of a source block. -/
def intermediateOf (params : SystematicParams) (x : ℕ → W) (c : ℕ) : W :=
  if c < params.kPrime + params.s then withLdpc params x c
  else -checkSum params (withLdpc params x) (c - params.kPrime)

theorem intermediateOf_of_lt (x : ℕ → W) {c : ℕ} (hc : c < params.kPrime) :
    intermediateOf params x c = x c := by
  rw [intermediateOf, if_pos (by omega), withLdpc, if_pos hc]

theorem constraintsHold_intermediateOf (x : ℕ → W) :
    ConstraintsHold params (intermediateOf params x) := by
  rw [constraintsHold_iff]
  intro r hr
  by_cases hs : r < params.s
  · rw [intermediateOf, if_pos (by omega), withLdpc, if_neg (by omega), Nat.add_sub_cancel_left]
    refine congrArg _ (checkSum_congr fun c hc => ?_)
    rw [checkStart, if_pos hs] at hc
    rw [intermediateOf_of_lt x hc]
  · rw [intermediateOf, if_neg (by omega), Nat.add_sub_cancel_left]
    refine congrArg _ (checkSum_congr fun c hc => ?_)
    rw [checkStart, if_neg hs] at hc
    rw [intermediateOf, if_pos hc]

end Solutions

section Symbols

variable {T : ℕ}

/-- Adding up the symbols an equation names is the value of its terms. -/
theorem combine_eq_dot (symbol : ℕ → Symbol T) (terms : List (ℕ × Gf256)) :
    combine symbol terms = dot symbol terms := by
  rw [combine, dot, List.sum_eq_foldl, List.foldl_map]
  congr 1
  funext acc term
  split_ifs with hzero
  · rw [hzero, zero_smul, add_zero]
  · rw [gf256AddmulSlice_eq]

theorem symbolAt_of_lt {n : ℕ} (symbols : List.Vector (Symbol T) n) {i : ℕ} (hi : i < n) :
    symbolAt symbols i = symbols.get ⟨i, hi⟩ := by
  rw [symbolAt, List.getD_eq_getElem _ _ (by rw [List.Vector.toList_length]; exact hi)]
  rfl

end Symbols

open ConstraintMatrix

variable {W : Type*} [AddCommGroup W] [Module Gf256 W] {T : ℕ} {params : SystematicParams}

/-- What the rows of the built matrix say about a vector. -/
theorem build_rows_iff {y : ℕ → W} {b : ℕ → W} :
    (∀ i : Fin (params.s + params.h + params.kPrime),
      ∑ c ∈ range params.l, (build params).get i c • y c =
        if (i : ℕ) < params.s + params.h then 0 else b (i - (params.s + params.h))) ↔
    ConstraintsHold params y ∧ ∀ c < params.kPrime, y c = b c := by
  have hcheck : ∀ r < params.s + params.h,
      ∑ c ∈ range params.l, (build params).get r c • y c =
        ∑ c ∈ range params.l, constraintCoef params r c • y c := fun r hr =>
    sum_congr rfl fun c hc => by rw [get_build hr (mem_range.mp hc)]
  have hsource : ∀ i < params.kPrime,
      ∑ c ∈ range params.l, (build params).get (params.s + params.h + i) c • y c = y i := by
    intro i hi
    have hl : i < params.l := hi.trans_le params.kPrime_le_l
    rw [sum_eq_single i]
    · rw [get_build_source hi hl, if_pos rfl, one_smul]
    · intro c hc hne
      rw [get_build_source hi (mem_range.mp hc), if_neg hne, zero_smul]
    · exact fun h => absurd (mem_range.mpr hl) h
  constructor
  · intro h
    refine ⟨fun r hr => ?_, fun c hc => ?_⟩
    · rw [← hcheck r hr, h ⟨r, by omega⟩, if_pos hr]
    · have := h ⟨params.s + params.h + c, by omega⟩
      rwa [hsource c hc, if_neg (by simp), Nat.add_sub_cancel_left] at this
  · rintro ⟨hy, hb⟩ ⟨i, hi⟩
    by_cases hir : i < params.s + params.h
    · rw [hcheck i hir, if_pos hir]
      exact hy i hir
    · obtain ⟨c, rfl⟩ := Nat.exists_eq_add_of_le (not_lt.mp hir)
      rw [hsource c (by omega), if_neg hir, Nat.add_sub_cancel_left]
      exact hb c (by omega)

end Flywheel.Raptorq
