import Flywheel.Core.QuotientFilterSpec
import Flywheel.Core.RevocationWindows

/-!
# Seals over runs of the registry

A seal remembers the head sequence at which a token was checked and is valid while
the head sequence is the same. `add_revocation` does not move the head: that is left
to the caller, who advances it with `update_head`. Over every interleaving of the
registry's operations, a valid seal is right about its token when each later
revocation of the token was followed by such an advance, or by a `clear`.
-/

namespace Flywheel.Core

open Flywheel.Data

/-- The operations on a registry. The two queries leave it as it is. -/
inductive RegistryOp
  | addRevocation (revocation : RevocationObject)
  | updateHead (head : ObjectId) (seq updatedAt : ℕ)
  | clear
  | checkWithSeal (tokenId : ObjectId) (now : ℕ)
  | validateSeal (issued : RevocationSeal) (expectedTokenId : ObjectId)

namespace RevocationRegistry

variable (hash : ObjectId → UInt64)

def step (reg : RevocationRegistry) : RegistryOp → RevocationRegistry
  | .addRevocation r => reg.addRevocation hash r
  | .updateHead head seq updatedAt => reg.updateHead head seq updatedAt
  | .clear => reg.clear
  | .checkWithSeal _ _ => reg
  | .validateSeal _ _ => reg

def run (reg : RevocationRegistry) (ops : List RegistryOp) : RevocationRegistry :=
  ops.foldl (step hash) reg

/-- What holds of a registry in every run: the cache answers for every stored
revocation, and the head sequence is zero until a head is set. -/
structure Consistent (reg : RevocationRegistry) : Prop where
  cache : reg.quotientCache.WellFormed
  cached : ∀ o, reg.revocations.lookup o ≠ none →
    QuotientFilter.fingerprint hash o ∈ reg.quotientCache.slots
  headSeq_eq : reg.head = none → reg.headSeq = 0

variable {hash} {reg : RevocationRegistry}

theorem Fresh.consistent (h : reg.Fresh) : reg.Consistent hash where
  cache := by
    rcases h with rfl | ⟨n, rfl⟩
    · exact QuotientFilter.wellFormed_replicate 0
    · exact QuotientFilter.wellFormed_replicate _
  cached := fun o ho => absurd (h.lookup o) ho
  headSeq_eq := by
    rcases h with rfl | ⟨n, rfl⟩ <;> exact fun _ => rfl

/-- One round of `add_revocation` keeps the registry consistent. -/
theorem Consistent.addRevocationFor (h : reg.Consistent hash)
    (r : RevocationObject) (id : ObjectId) : (addRevocationFor hash r reg id).Consistent hash := by
  unfold RevocationRegistry.addRevocationFor
  dsimp only
  split_ifs
  · obtain ⟨hstores, -⟩ := h.cache.stores.insert hash id
    refine ⟨hstores.wellFormed, fun o ho => ?_, h.headSeq_eq⟩
    apply (hstores.mem_iff _ (QuotientFilter.lt_fingerprint hash o)).mpr
    by_cases heq : o = id
    · exact Or.inl (heq ▸ rfl)
    · right
      apply h.cached
      rwa [AList.lookup_insert_ne heq] at ho
  · exact h

/-- `add_revocation` does not move the head. -/
theorem addRevocation_head (reg : RevocationRegistry) (r : RevocationObject) :
    (reg.addRevocation hash r).head = reg.head ∧
      (reg.addRevocation hash r).headSeq = reg.headSeq := by
  unfold addRevocation
  induction r.revoked generalizing reg with
  | nil => exact ⟨rfl, rfl⟩
  | cons id ids ih =>
    obtain ⟨hhead, hseq⟩ := ih (addRevocationFor hash r reg id)
    refine ⟨hhead.trans ?_, hseq.trans ?_⟩ <;> unfold addRevocationFor <;> dsimp only <;>
      split_ifs <;> rfl

section

variable (h : reg.Consistent hash)
include h

/-- `add_revocation` keeps the registry consistent. -/
theorem Consistent.addRevocation
    (r : RevocationObject) : (reg.addRevocation hash r).Consistent hash := by
  unfold RevocationRegistry.addRevocation
  induction r.revoked generalizing reg with
  | nil => exact h
  | cons id ids ih => exact ih (h.addRevocationFor r id)

theorem Consistent.step (op : RegistryOp) : (reg.step hash op).Consistent hash := by
  cases op with
  | addRevocation r => exact h.addRevocation r
  | updateHead head seq updatedAt =>
    unfold RevocationRegistry.step updateHead
    dsimp only
    split_ifs
    · exact h
    · exact ⟨h.cache, h.cached, fun hnone => nomatch hnone⟩
  | clear =>
    exact ⟨(QuotientFilter.stores_clear _).wellFormed, fun o ho => absurd rfl ho, fun _ => rfl⟩
  | checkWithSeal tokenId now | validateSeal issued expectedTokenId => exact h

theorem Consistent.run (ops : List RegistryOp) : (reg.run hash ops).Consistent hash := by
  induction ops generalizing reg with
  | nil => exact h
  | cons op ops ih => exact ih (h.step op)

/-- The cache has no false negative, so `is_revoked` is membership in the table. -/
theorem Consistent.isRevoked_iff
    (o : ObjectId) : reg.isRevoked hash o = true ↔ reg.revocations.lookup o ≠ none := by
  unfold isRevoked
  rw [← Option.isSome_iff_ne_none]
  by_cases hcache : reg.quotientCache.mayContain hash o = true
  · simp [hcache]
  · have hnone : reg.revocations.lookup o = none := by
      by_contra hsome
      exact hcache ((h.cache.stores.find_fingerprint hash o).mpr (h.cached o hsome))
    simp [hnone]

end

/-- Some revocation of `o` in a list of operations has no `clear` after it. -/
def RevokedSinceClear (o : ObjectId) (ops : List RegistryOp) : Prop :=
  ∃ before r after, ops = before ++ .addRevocation r :: after ∧ .clear ∉ after ∧
    r.revokes o = true

theorem revokedSinceClear_cons {o : ObjectId} {op : RegistryOp} {ops : List RegistryOp} :
    RevokedSinceClear o (op :: ops) ↔ RevokedSinceClear o ops ∨
      (∃ r, op = .addRevocation r ∧ r.revokes o = true) ∧ .clear ∉ ops := by
  constructor
  · rintro ⟨before, r, after, heq, hclear, hr⟩
    cases before with
    | nil =>
      cases heq
      exact .inr ⟨⟨r, rfl, hr⟩, hclear⟩
    | cons first before => exact .inl ⟨before, r, after, (List.cons.inj heq).2, hclear, hr⟩
  · rintro (⟨before, r, after, rfl, hclear, hr⟩ | ⟨⟨r, rfl, hr⟩, hclear⟩)
    · exact ⟨op :: before, r, after, rfl, hclear, hr⟩
    · exact ⟨[], r, ops, rfl, hclear, hr⟩

/-- After a run the table has an entry for an object exactly if the object was revoked since the
last `clear`, or had an entry before a run without one. -/
theorem lookup_run_ne_none_iff {o : ObjectId} {ops : List RegistryOp} :
    (reg.run hash ops).revocations.lookup o ≠ none ↔ RevokedSinceClear o ops ∨
      reg.revocations.lookup o ≠ none ∧ .clear ∉ ops := by
  induction ops generalizing reg with
  | nil => simp [run, RevokedSinceClear]
  | cons op ops ih =>
    refine ih.trans ?_
    rw [revokedSinceClear_cons, or_assoc]
    cases op with
    | addRevocation r =>
      have hentry : (reg.addRevocation hash r).revocations.lookup o ≠ none ↔
          r.revokes o = true ∨ reg.revocations.lookup o ≠ none := by
        rw [lookup_addRevocation]
        cases reg.revocations.lookup o with
        | none | some stored => split_ifs with hr <;> simp [offer, hr]
      simp only [step, hentry]
      simp [or_and_right]
    | updateHead head seq updatedAt =>
      have htable : (reg.updateHead head seq updatedAt).revocations = reg.revocations := by
        unfold updateHead
        split_ifs <;> rfl
      simp [step, htable]
    | clear => simp [step, RevocationRegistry.clear]
    | checkWithSeal tokenId now | validateSeal issued expectedTokenId => simp [step]

/-- In every run from a new registry, `is_revoked` holds exactly of the objects that some
revocation since the last `clear` names, and the cache answers for each of them. -/
theorem isRevoked_run_iff {start : RevocationRegistry} (hstart : start.Fresh)
    (ops : List RegistryOp) (o : ObjectId) :
    ((start.run hash ops).isRevoked hash o = true ↔ RevokedSinceClear o ops) ∧
      (RevokedSinceClear o ops → (start.run hash ops).quotientCache.mayContain hash o = true) := by
  have hc : (start.run hash ops).Consistent hash := hstart.consistent.run ops
  have hentry : (start.run hash ops).revocations.lookup o ≠ none ↔ RevokedSinceClear o ops := by
    rw [lookup_run_ne_none_iff, hstart.lookup o]
    simp
  refine ⟨(hc.isRevoked_iff o).trans hentry, fun hrevoked => ?_⟩
  exact (hc.cache.stores.find_fingerprint hash o).mpr (hc.cached o (hentry.mpr hrevoked))

/-- A revocation, a `clear` and the same revocation again: the object is revoked. -/
theorem revoked_again_after_clear :
    (new.run (fun _ => 0) [.addRevocation (zeroRevocation 0 none), .clear,
      .addRevocation (zeroRevocation 0 none)]).isRevoked (fun _ => 0) zeroId = true :=
  (isRevoked_run_iff (.inl rfl) _ _).1.mpr
    ⟨[.addRevocation (zeroRevocation 0 none), .clear], _, [], rfl, by simp, by decide⟩

/-- The operation puts a valid seal of sequence `s` right about any token: it moves the
head past `s`, or it empties the registry. -/
def Settles (s : ℕ) : RegistryOp → Prop
  | .updateHead _ seq _ => s < seq
  | .clear => True
  | _ => False

/-- Every revocation of `t` in a run is followed by an operation that settles `s`. -/
def Announced (t : ObjectId) (s : ℕ) : List RegistryOp → Prop
  | [] => True
  | .addRevocation r :: ops =>
    (r.revokes t = true → ∃ op ∈ ops, Settles s op) ∧ Announced t s ops
  | _ :: ops => Announced t s ops

/-- The registry has no revocation of `t`, or its head is past `s`. -/
def Settled (t : ObjectId) (s : ℕ) (reg : RevocationRegistry) : Prop :=
  reg.revocations.lookup t = none ∨ s < reg.headSeq

variable {t : ObjectId}

theorem settled_of_settles {s : ℕ} {op : RegistryOp} (hop : Settles s op)
    (reg : RevocationRegistry) : Settled t s (reg.step hash op) := by
  cases op with
  | updateHead head seq updatedAt =>
    right
    unfold step updateHead
    dsimp only
    split_ifs with hstale
    · exact lt_of_lt_of_le hop hstale.1
    · exact hop
  | clear => exact Or.inl rfl
  | addRevocation r | checkWithSeal tokenId now => exact hop.elim
  | validateSeal issued expectedTokenId => exact hop.elim

/-- No operation but a revocation of `t` unsettles a registry. -/
theorem Settled.step {s : ℕ} (hc : reg.Consistent hash) (h : Settled t s reg) {op : RegistryOp}
    (hop : ∀ r, op = .addRevocation r → r.revokes t = false) :
    Settled t s (reg.step hash op) := by
  cases op with
  | addRevocation r =>
    have hentry := lookup_addRevocation hash reg r t
    rw [hop r rfl] at hentry
    rcases h with hnone | hseq
    · exact Or.inl (hentry.trans hnone)
    · exact Or.inr (hseq.trans_eq (addRevocation_head reg r).2.symm)
  | updateHead head seq updatedAt =>
    unfold RevocationRegistry.step updateHead
    dsimp only
    split_ifs with hstale
    · exact h
    · rcases h with hnone | hseq
      · exact Or.inl hnone
      · right
        -- The head is set, for its sequence is past `s`, so the new one is larger.
        have hhead : reg.head.isSome = true := by
          rw [Option.isSome_iff_ne_none]
          intro hnone
          exact absurd (hc.headSeq_eq hnone) (by omega)
        have hlarger : ¬ seq ≤ reg.headSeq := fun hle => hstale ⟨hle, hhead⟩
        show s < seq
        omega
  | clear => exact Or.inl rfl
  | checkWithSeal tokenId now | validateSeal issued expectedTokenId => exact h

/-- A run in which every revocation of `t` is announced ends settled, if it began so or
has an operation that settles. -/
theorem settled_run {s : ℕ} {ops : List RegistryOp} (hannounced : Announced t s ops)
    (hc : reg.Consistent hash)
    (h : Settled t s reg ∨ ∃ op ∈ ops, Settles s op) : Settled t s (reg.run hash ops) := by
  induction ops generalizing reg with
  | nil =>
    rcases h with h | ⟨op, hop, -⟩
    · exact h
    · cases hop
  | cons op ops ih =>
    have hrest : Announced t s ops := by
      cases op with
      | addRevocation r => exact hannounced.2
      | _ => exact hannounced
    refine ih hrest (hc.step op) ?_
    rcases h with h | ⟨op', hmem, hsettles⟩
    · by_cases hop : ∃ r, op = .addRevocation r ∧ r.revokes t = true
      · obtain ⟨r, rfl, hr⟩ := hop
        exact Or.inr (hannounced.1 hr)
      · refine Or.inl (h.step hc fun r hr => ?_)
        rw [← Bool.not_eq_true]
        exact fun hrevokes => hop ⟨r, hr, hrevokes⟩
    · rcases List.mem_cons.mp hmem with rfl | hmem
      · exact Or.inl (settled_of_settles hsettles reg)
      · exact Or.inr ⟨op', hmem, hsettles⟩

/-- In every run, a seal with the outcome "not revoked" that is later found valid is
right about its token, if each revocation of the token since then was followed by a head
past the seal's sequence or by a `clear`. -/
theorem not_revoked_of_valid_seal {start : RevocationRegistry} (hstart : start.Fresh)
    (before after : List RegistryOp) (t : ObjectId) (now : ℕ)
    (hclean : ((start.run hash before).checkWithSeal hash t now).decision = .notRevoked)
    (hannounced : Announced t (start.run hash before).headSeq after)
    (hvalid : (start.run hash (before ++ after)).validateSeal
      ((start.run hash before).checkWithSeal hash t now) t = .valid) :
    (start.run hash (before ++ after)).isRevoked hash t = false ∧
      ∀ at_, (start.run hash (before ++ after)).isRevokedAt t at_ = false := by
  have hrun : start.run hash (before ++ after) = (start.run hash before).run hash after :=
    List.foldl_append
  have hc : (start.run hash before).Consistent hash := hstart.consistent.run before
  have hnone : (start.run hash before).revocations.lookup t = none := by
    by_contra hsome
    rw [checkWithSeal, if_pos ((hc.isRevoked_iff t).mpr hsome)] at hclean
    cases hclean
  have hsettled := settled_run hannounced hc (Or.inl (Or.inl hnone))
  rw [hrun] at hvalid ⊢
  have hentry : ((start.run hash before).run hash after).revocations.lookup t = none := by
    rcases hsettled with hnone | hpast
    · exact hnone
    · unfold validateSeal checkWithSeal at hvalid
      rw [if_neg (not_not_intro rfl), if_neg hpast.ne] at hvalid
      cases hvalid
  constructor
  · rw [← Bool.not_eq_true, (hc.run after).isRevoked_iff, not_not]
    exact hentry
  · intro at_
    rw [isRevokedAt, hentry]

/-- A check, a revocation with an advance of the head, a `clear`, and the old sequence
again: the seal is valid and the token is not revoked. -/
theorem cleared_registry_not_revoked :
    (new.run (fun _ => 0) [.updateHead zeroId 3 0, .addRevocation (zeroRevocation 0 none),
      .updateHead zeroId 4 1, .clear, .updateHead zeroId 3 2]).isRevoked (fun _ => 0) zeroId =
        false :=
  (not_revoked_of_valid_seal (Or.inl rfl) [.updateHead zeroId 3 0]
    [.addRevocation (zeroRevocation 0 none), .updateHead zeroId 4 1, .clear,
      .updateHead zeroId 3 2] zeroId 0 (by decide +kernel)
    ⟨fun _ => ⟨.clear, by simp, trivial⟩, trivial⟩ (by decide +kernel)).1

/-- A revocation added without an advance of the head leaves an older "not revoked" seal
valid, with the token revoked. -/
theorem unannounced_revocation_keeps_seal_valid :
    (new.checkWithSeal (fun _ => 0) zeroId 0).decision = .notRevoked ∧
    (new.run (fun _ => 0) [.addRevocation (zeroRevocation 0 none)]).validateSeal
      (new.checkWithSeal (fun _ => 0) zeroId 0) zeroId = .valid ∧
    (new.run (fun _ => 0) [.addRevocation (zeroRevocation 0 none)]).isRevoked
      (fun _ => 0) zeroId = true := by
  decide +kernel

end RevocationRegistry

end Flywheel.Core
