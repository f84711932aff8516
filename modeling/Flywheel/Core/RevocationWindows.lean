import Flywheel.Core.Revocation
import Flywheel.Data.Dominance
import Mathlib.Order.WithBot

/-!
# Which revocation windows survive

The registry keeps one revocation for each object and gives it up only to one whose
window is strictly wider. Windows are ordered by inclusion of their end points, so
what the registry holds for an object is the survivor of the revocations that name
it. The answer of `is_revoked_at` is complete in every order of the calls exactly
when one of the windows reaches over all of them, or none is ever active.
-/

namespace Flywheel.Core

open Flywheel.Data OrderDual RevocationObject

instance decidableLTWindow : DecidableLT (ℕᵒᵈ × WithTop ℕ) :=
  fun _ _ => decidable_of_iff _ lt_iff_le_not_ge.symm

/-- The time at which a revocation ends. A missing expiry is later than any time. -/
def RevocationObject.endsAt (r : RevocationObject) : WithTop ℕ := r.expiresAt.elim ⊤ WithTop.some

/-- The window of a revocation. A larger window starts no later and ends no sooner. -/
def RevocationObject.window (r : RevocationObject) : ℕᵒᵈ × WithTop ℕ :=
  (toDual r.effectiveAt, r.endsAt)

namespace RevocationObject

theorem isActive_iff (r : RevocationObject) (now : ℕ) :
    r.isActive now = true ↔ r.effectiveAt ≤ now ∧ WithTop.some now < r.endsAt := by
  unfold isActive endsAt
  by_cases hstart : now < r.effectiveAt
  · simp [hstart]
  · cases r.expiresAt with
    | none => simp
    | some exp => simp

theorem window_le_iff (r s : RevocationObject) :
    r.window ≤ s.window ↔ s.effectiveAt ≤ r.effectiveAt ∧ r.endsAt ≤ s.endsAt := Iff.rfl

theorem isActive_of_window_le {r s : RevocationObject} (h : r.window ≤ s.window) {now : ℕ}
    (hactive : r.isActive now = true) : s.isActive now = true := by
  rw [isActive_iff] at hactive ⊢
  obtain ⟨hstart, hend⟩ := (window_le_iff r s).mp h
  exact ⟨hstart.trans hactive.1, hactive.2.trans_le hend⟩

/-- The replacement test asks for a strictly larger window. -/
theorem shouldReplace_iff (r existing : RevocationObject) :
    r.shouldReplace existing = true ↔ existing.window < r.window := by
  rw [lt_iff_le_not_ge, window_le_iff, window_le_iff]
  unfold shouldReplace endsAt
  cases r.expiresAt with
  | none =>
    cases existing.expiresAt with
    | none => simp
    | some oldExp => simp
  | some newExp =>
    cases existing.expiresAt with
    | none => simp
    | some oldExp => simp; omega

/-- A revocation that is active at all times at which another one is, and the other
one is active at some time, has a window as large. -/
theorem window_le_of_isActive_imp {r s : RevocationObject} {now : ℕ}
    (hnow : r.isActive now = true) (h : ∀ t, r.isActive t = true → s.isActive t = true) :
    r.window ≤ s.window := by
  simp only [isActive_iff] at hnow h
  rw [window_le_iff]
  have hopen := lt_of_le_of_lt (WithTop.coe_le_coe.mpr hnow.1) hnow.2
  refine ⟨(h r.effectiveAt ⟨le_rfl, hopen⟩).1, ?_⟩
  by_contra hlt
  rw [not_le] at hlt
  obtain ⟨last, hlast⟩ := WithTop.ne_top_iff_exists.mp hlt.ne_top
  have hlater : WithTop.some (max r.effectiveAt last) < r.endsAt := by
    rw [WithTop.coe_max, max_lt_iff]
    exact ⟨hopen, hlast ▸ hlt⟩
  have hs := (h (max r.effectiveAt last) ⟨le_max_left _ _, hlater⟩).2
  rw [← hlast, WithTop.coe_lt_coe] at hs
  exact absurd (le_max_right _ _) (not_le.mpr hs)

end RevocationObject

namespace RevocationRegistry

variable (hash : ObjectId → UInt64)

/-- A registry as it is created, by `new` or by `with_capacity`. -/
def Fresh (reg : RevocationRegistry) : Prop := reg = new ∨ ∃ n, reg = withCapacity n

variable {reg : RevocationRegistry}

theorem Fresh.lookup (h : reg.Fresh) (o : ObjectId) : reg.revocations.lookup o = none := by
  rcases h with rfl | ⟨n, rfl⟩ <;> rfl

/-- One round of `add_revocation` offers the revocation to the entry of its object. -/
theorem lookup_addRevocationFor (r : RevocationObject) (reg : RevocationRegistry)
    (id o : ObjectId) :
    (addRevocationFor hash r reg id).revocations.lookup o =
      if id = o then offer window (reg.revocations.lookup o) r
      else reg.revocations.lookup o := by
  unfold addRevocationFor
  by_cases ho : id = o
  · subst ho
    cases hentry : reg.revocations.lookup id with
    | none => simp [offer]
    | some existing =>
      by_cases hreplace : r.shouldReplace existing = true
      · simp [hreplace, offer, survive, ← shouldReplace_iff]
      · simp [hreplace, hentry, offer, survive, ← shouldReplace_iff]
  · have hne : o ≠ id := fun h => ho h.symm
    dsimp only
    split_ifs
    · exact AList.lookup_insert_ne hne
    · rfl

/-- `add_revocation` offers the revocation to the entry of every object it names, and
leaves the other entries alone. -/
theorem lookup_addRevocation (reg : RevocationRegistry) (r : RevocationObject) (o : ObjectId) :
    (reg.addRevocation hash r).revocations.lookup o =
      if r.revokes o then offer window (reg.revocations.lookup o) r
      else reg.revocations.lookup o := by
  unfold addRevocation revokes
  induction r.revoked generalizing reg with
  | nil => rfl
  | cons id ids ih =>
    rw [List.foldl_cons, ih, lookup_addRevocationFor]
    by_cases ho : id = o
    · subst ho
      -- A second mention of the object offers the same revocation again.
      by_cases hmem : ids.contains id = true
      · simp [offer_offer]
      · rw [if_neg hmem]
        simp
    · have hcontains : (id :: ids).contains o = ids.contains o := by
        simp [Ne.symm ho]
      rw [if_neg ho, hcontains]

/-- The registry after a sequence of `add_revocation` calls. -/
def addRevocations (reg : RevocationRegistry) (rs : List RevocationObject) : RevocationRegistry :=
  rs.foldl (addRevocation hash) reg

/-- The entry of an object is the survivor of the revocations that name it. -/
theorem lookup_addRevocations (hreg : reg.Fresh) (rs : List RevocationObject) (o : ObjectId) :
    (reg.addRevocations hash rs).revocations.lookup o =
      survivor window (rs.filter (·.revokes o)) := by
  unfold addRevocations survivor
  rw [← hreg.lookup o, List.foldl_filter]
  exact Eq.symm (List.foldl_hom (fun reg : RevocationRegistry => reg.revocations.lookup o)
    fun reg r => (lookup_addRevocation hash reg r o).symm)

/-- An object is revoked at a time when the survivor of the revocations that name it is
active then. -/
theorem isRevokedAt_addRevocations (hreg : reg.Fresh)
    (rs : List RevocationObject) (o : ObjectId) (t : ℕ) :
    (reg.addRevocations hash rs).isRevokedAt o t = true ↔
      ∃ r, survivor window (rs.filter (·.revokes o)) = some r ∧
        r.isActive t = true := by
  unfold isRevokedAt
  rw [lookup_addRevocations hash hreg]
  cases survivor window (rs.filter (·.revokes o)) with
  | none => simp
  | some r => simp

variable {rs : List RevocationObject} {o : ObjectId} {t : ℕ}

theorem isRevokedAt_of_survivor (hreg : reg.Fresh) {r : RevocationObject}
    (hr : survivor window (rs.filter (·.revokes o)) = some r) :
    (reg.addRevocations hash rs).isRevokedAt o t = true ↔ r.isActive t = true := by
  rw [isRevokedAt_addRevocations hash hreg, hr]
  simp

/-- Some revocation of the list names the object and is active at the time. -/
def ActivelyRevoked (rs : List RevocationObject) (o : ObjectId) (t : ℕ) : Prop :=
  ∃ r ∈ rs, r.revokes o = true ∧ r.isActive t = true

/-- One revocation that names the object starts no later and ends no sooner than every
other that does. -/
def HasWidest (rs : List RevocationObject) (o : ObjectId) : Prop :=
  ∃ m ∈ rs, m.revokes o = true ∧ ∀ r ∈ rs, r.revokes o = true → r.window ≤ m.window

theorem activelyRevoked_perm {rs' : List RevocationObject} (h : rs.Perm rs') (o : ObjectId)
    (t : ℕ) : ActivelyRevoked rs o t ↔ ActivelyRevoked rs' o t := by
  simp only [ActivelyRevoked, h.mem_iff]

/-- The registry answers "revoked" only when a revocation that names the object is
active. -/
theorem activelyRevoked_of_isRevokedAt (hreg : reg.Fresh)
    (h : (reg.addRevocations hash rs).isRevokedAt o t = true) : ActivelyRevoked rs o t := by
  obtain ⟨r, hr, hactive⟩ := (isRevokedAt_addRevocations hash hreg rs o t).mp h
  obtain ⟨hmem, hrevokes⟩ := List.mem_filter.mp (mem_of_survivor hr)
  exact ⟨r, hmem, hrevokes, hactive⟩

/-- If the registry misses nothing in any order, and something is to be found, then one
window is widest. -/
theorem hasWidest_of_complete (hreg : reg.Fresh) (hsome : ActivelyRevoked rs o t)
    (hcomplete : ∀ rs', rs.Perm rs' → ∀ t, ActivelyRevoked rs' o t →
      (reg.addRevocations hash rs').isRevokedAt o t = true) : HasWidest rs o := by
  -- The survivor of the given order is widest: put any `r` first, then the survivor of
  -- that order is as wide as `r`, and both survivors are active at the same times.
  have hfind := hcomplete rs (List.Perm.refl rs) t hsome
  obtain ⟨m, hm, hmactive⟩ := (isRevokedAt_addRevocations hash hreg rs o t).mp hfind
  obtain ⟨hmmem, hmrevokes⟩ := List.mem_filter.mp (mem_of_survivor hm)
  refine ⟨m, hmmem, hmrevokes, fun r hr hrevokes => ?_⟩
  have hperm : rs.Perm (r :: rs.erase r) := List.perm_cons_erase hr
  have hfirst : ∃ y, survivor window
      ((r :: rs.erase r).filter (·.revokes o)) = some y ∧ r.window ≤ y.window := by
    rw [List.filter_cons, if_pos hrevokes]
    exact foldl_offer_some _ r
  obtain ⟨y, hy, hle⟩ := hfirst
  have hfound : ∀ t, ActivelyRevoked rs o t → y.isActive t = true := by
    intro t' ht'
    rw [← isRevokedAt_of_survivor hash hreg hy]
    exact hcomplete _ hperm t' ((activelyRevoked_perm hperm o t').mp ht')
  have himp : ∀ t, y.isActive t = true → m.isActive t = true := by
    intro t' ht'
    have hymem := mem_of_survivor hy
    rw [List.mem_filter, ← hperm.mem_iff] at hymem
    rw [← isRevokedAt_of_survivor hash hreg hm]
    exact hcomplete rs (List.Perm.refl rs) t' ⟨y, hymem.1, hymem.2, ht'⟩
  exact hle.trans (window_le_of_isActive_imp (hfound t hsome) himp)

/-- What `is_revoked_at` says after any sequence of `add_revocation` calls on a fresh
registry. It never says "revoked" without an active revocation that names the object,
and further calls never take it back. It says so for every active revocation, and in
every order of the calls, exactly when one of the windows that name the object reaches
over all of them or none of them is ever active. -/
theorem isRevokedAt_sound_and_complete_iff {reg : RevocationRegistry} (hreg : reg.Fresh)
    (rs : List RevocationObject) (o : ObjectId) :
    (∀ t, (reg.addRevocations hash rs).isRevokedAt o t = true → ActivelyRevoked rs o t) ∧
    (∀ t, (reg.addRevocations hash rs).isRevokedAt o t = true →
      ∀ rs', (reg.addRevocations hash (rs ++ rs')).isRevokedAt o t = true) ∧
    ((∀ rs', rs.Perm rs' → ∀ t,
        ((reg.addRevocations hash rs').isRevokedAt o t = true ↔ ActivelyRevoked rs o t)) ↔
      HasWidest rs o ∨ ∀ t, ¬ ActivelyRevoked rs o t) := by
  refine ⟨fun t => activelyRevoked_of_isRevokedAt hash hreg, fun t h rs' => ?_, ?_⟩
  · rw [isRevokedAt_addRevocations hash hreg] at h ⊢
    obtain ⟨r, hr, hactive⟩ := h
    rw [List.filter_append]
    obtain ⟨y, hy, hle⟩ := survivor_append hr (rs'.filter (·.revokes o))
    exact ⟨y, hy, isActive_of_window_le hle hactive⟩
  constructor
  · intro hcomplete
    by_cases hsome : ∃ t, ActivelyRevoked rs o t
    · obtain ⟨t, ht⟩ := hsome
      refine Or.inl (hasWidest_of_complete hash hreg ht fun rs' hperm t' ht' => ?_)
      exact (hcomplete rs' hperm t').mpr ((activelyRevoked_perm hperm o t').mpr ht')
    · exact Or.inr (not_exists.mp hsome)
  · intro hcases rs' hperm t
    rw [activelyRevoked_perm hperm o t]
    refine ⟨activelyRevoked_of_isRevokedAt hash hreg, fun hactive => ?_⟩
    rcases hcases with ⟨m, hmem, hm, hgreatest⟩ | hnever
    · -- the widest window is within the one that survives
      obtain ⟨r, hr, hrevokes, hactive⟩ := hactive
      obtain ⟨y, hy, hle⟩ := le_survivor_of_greatest
        (List.mem_filter.mpr ⟨hperm.mem_iff.mp hmem, hm⟩) fun a ha =>
          hgreatest a (hperm.mem_iff.mpr (List.mem_filter.mp ha).1) (List.mem_filter.mp ha).2
      rw [isRevokedAt_addRevocations hash hreg]
      have hwindow := hgreatest r (hperm.mem_iff.mpr hr) hrevokes
      exact ⟨y, hy, isActive_of_window_le (hwindow.trans hle) hactive⟩
    · exact absurd ((activelyRevoked_perm hperm o t).mpr hactive) (hnever t)

def zeroId : ObjectId := List.Vector.replicate 32 0

/-- A revocation of `zeroId` with the given window. -/
def zeroRevocation (effectiveAt : ℕ) (expiresAt : Option ℕ) : RevocationObject :=
  ⟨[zeroId], .capability, "compromised", effectiveAt, expiresAt⟩

/-- Overlapping windows of which neither reaches over the other: the one that came first
stays, at time 15 the second is active and the registry answers "not revoked", and in
the other order of the same two calls it answers "revoked". -/
theorem overlapping_windows_isRevokedAt :
    (zeroRevocation 5 (some 20)).isActive 15 = true ∧
    (new.addRevocations (fun _ => 0)
      [zeroRevocation 0 (some 10), zeroRevocation 5 (some 20)]).isRevokedAt zeroId 15 = false ∧
    (new.addRevocations (fun _ => 0)
      [zeroRevocation 5 (some 20), zeroRevocation 0 (some 10)]).isRevokedAt zeroId 15 = true := by
  decide +kernel

/-- A bounded window and then an unbounded one from the same start: the answer is
complete in both orders. -/
theorem widened_window_isRevokedAt :
    new.Fresh ∧ ∀ rs', [zeroRevocation 5 (some 20), zeroRevocation 5 none].Perm rs' → ∀ t,
      ((new.addRevocations (fun _ => 0) rs').isRevokedAt zeroId t = true ↔
        ActivelyRevoked [zeroRevocation 5 (some 20), zeroRevocation 5 none] zeroId t) := by
  have hfresh : new.Fresh := Or.inl rfl
  refine ⟨hfresh, (isRevokedAt_sound_and_complete_iff (fun _ => 0) hfresh _ zeroId).2.2.mpr ?_⟩
  refine Or.inl ⟨zeroRevocation 5 none, by simp, by decide, ?_⟩
  intro r hr _
  rcases List.mem_pair.mp hr with rfl | rfl
  · exact ⟨le_rfl, le_top⟩
  · exact ⟨le_rfl, le_rfl⟩

end RevocationRegistry

end Flywheel.Core
