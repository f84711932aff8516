import Flywheel.Core.Quorum
import Flywheel.Mesh.LeaseAcquire

/-!
# Quorum signature sets

`SignatureSet` of `fcp-core`, the signatures under a quorum object. `add` refuses a
second signature of a node and keeps the vector sorted by node. Deserialization takes
the vector as it is on the wire, so the count of a quorum, the order and the bytes to
hash are right exactly when every vector read is strictly ascending by node.
-/

namespace Flywheel.Mesh

open Flywheel.Core Flywheel.Data List UInt32

deriving instance DecidableEq for NodeSignature

structure SignatureSet where
  signatures : List NodeSignature
  nodeIds : Finset NodeId

namespace SignatureSet

def new : SignatureSet := ⟨[], ∅⟩

variable (signatures : List NodeSignature)

/-- `From<SignatureSetRaw>`, which is all that deserialization does with a vector. -/
def fromRaw : SignatureSet :=
  ⟨signatures, (signatures.map (·.nodeId)).toFinset⟩

/-- `Vec::sort` under the order of `NodeSignature`, which compares the nodes only. -/
def sortByNode : List NodeSignature :=
  signatures.mergeSort fun a b => decide (a.nodeId ≤ b.nodeId)

variable (s : SignatureSet)

/-- `SignatureSet::add`: whether the signature was added, and the set after the call. -/
def add (sig : NodeSignature) : Bool × SignatureSet :=
  if sig.nodeId ∈ s.nodeIds then (false, s)
  else (true, ⟨sortByNode (s.signatures ++ [sig]), insert sig.nodeId s.nodeIds⟩)

def len : ℕ := s.signatures.length

def asSlice : List NodeSignature := s.signatures

/-- `SignatureSet::satisfies_quorum`, with the count cut to 32 bits. -/
def satisfiesQuorum (policy : QuorumPolicy) (riskTier : RiskTier) : Option Bool :=
  policy.isQuorumMet (ofNat s.len) riskTier

/-- The bytes of one signature in `canonical_bytes`. -/
def signatureBytes (sig : NodeSignature) : List UInt8 :=
  let nodeBytes := utf8 sig.nodeId
  leBytes 4 (if nodeBytes.length < 2 ^ 32 then nodeBytes.length else 2 ^ 32 - 1) ++ nodeBytes ++
    sig.signature.toList

def canonicalBytes : List UInt8 := s.signatures.flatMap signatureBytes

def signers : Finset NodeId := (s.signatures.map (·.nodeId)).toFinset

/-- The vector lists its signatures by node, each node once. -/
def StrictlyAscending : Prop :=
  signatures.Pairwise fun a b => a.nodeId < b.nodeId

instance (signatures : List NodeSignature) : Decidable (StrictlyAscending signatures) :=
  inferInstanceAs (Decidable (Pairwise _ _))

/-- The sets that `new`, `add` and the deserialization of the vectors in `wire` build. -/
inductive Obtained (wire : List NodeSignature → Prop) : SignatureSet → Prop
  | new : Obtained wire new
  /-- A signature is offered to a set. -/
  | add {s : SignatureSet} (sig : NodeSignature) : Obtained wire s → Obtained wire (s.add sig).2
  | fromRaw {signatures : List NodeSignature} :
    wire signatures → Obtained wire (fromRaw signatures)

/-- The set is in canonical order, and its cache holds its signers. -/
structure Canonical (s : SignatureSet) : Prop where
  ascending : StrictlyAscending s.signatures
  cached : s.nodeIds = s.signers

theorem sortByNode_perm : (sortByNode signatures).Perm signatures :=
  mergeSort_perm _ _

variable {signatures : List NodeSignature}

theorem strictlyAscending_sortByNode
    (hnodup : (signatures.map (·.nodeId)).Nodup) : StrictlyAscending (sortByNode signatures) := by
  have hsorted : (sortByNode signatures).Pairwise fun a b => a.nodeId ≤ b.nodeId := by
    have h := @pairwise_mergeSort NodeSignature (fun a b => decide (a.nodeId ≤ b.nodeId))
      (by grind) (by grind) signatures
    exact h.imp fun hle => of_decide_eq_true hle
  have hdistinct := pairwise_map.mp (((sortByNode_perm signatures).map _).nodup_iff.mpr hnodup)
  exact (hsorted.and hdistinct).imp fun h => lt_of_le_of_ne h.1 h.2

theorem StrictlyAscending.nodup
    (h : StrictlyAscending signatures) : (signatures.map (·.nodeId)).Nodup :=
  pairwise_map.mpr (h.imp fun hlt => hlt.ne)

theorem StrictlyAscending.ext {l l' : List NodeSignature} (h : StrictlyAscending l)
    (h' : StrictlyAscending l') (hmem : ∀ sig, sig ∈ l ↔ sig ∈ l') : l = l' := by
  have hperm : l.Perm l' :=
    (perm_ext_iff_of_nodup h.nodup.of_map h'.nodup.of_map).mpr hmem
  exact hperm.eq_of_pairwise (fun a b _ _ hab hba => (lt_asymm hab hba).elim) h h'

variable {s : SignatureSet}

/-- A set whose cache is its signers and whose vector is ascending stays so under `add`. -/
theorem Canonical.add (h : s.Canonical) (sig : NodeSignature) : (s.add sig).2.Canonical := by
  unfold SignatureSet.add
  split_ifs with hmem
  · exact h
  · have hnew : sig.nodeId ∉ s.signatures.map (·.nodeId) := by
      rwa [h.cached, signers, mem_toFinset] at hmem
    have hperm := sortByNode_perm (s.signatures ++ [sig])
    refine ⟨strictlyAscending_sortByNode ?_, ?_⟩
    · rw [map_append, map_singleton, ← concat_eq_append]
      exact h.ascending.nodup.concat hnew
    · rw [signers, toFinset_eq_of_perm _ _ (hperm.map _), map_append,
        toFinset_append, h.cached, Finset.union_comm]
      rfl

theorem Obtained.canonical {wire : List NodeSignature → Prop}
    (hwire : ∀ signatures, wire signatures → StrictlyAscending signatures)
    (h : Obtained wire s) : s.Canonical := by
  induction h with
  | new => exact ⟨Pairwise.nil, rfl⟩
  | add sig _ ih => exact ih.add sig
  | fromRaw hread => exact ⟨hwire _ hread, rfl⟩

/-- A satisfied quorum counts distinct signers. -/
def CountsSigners : Prop :=
  ∀ policy riskTier, s.satisfiesQuorum policy riskTier = some true →
    ∃ required, policy.requiredSignatures riskTier = some required ∧
      required.toNat ≤ s.signers.card

/-- The slice is sorted by signer. -/
def SortedBySigner : Prop := s.asSlice.Pairwise fun a b => a.nodeId ≤ b.nodeId

theorem Canonical.countsSigners (h : s.Canonical) : s.CountsSigners := by
  intro policy riskTier hmet
  rw [signers, toFinset_card_of_nodup h.ascending.nodup, length_map]
  obtain ⟨required, hreq, hmet⟩ := Option.map_eq_some_iff.mp hmet
  -- cutting the count to 32 bits never raises it
  have hle := le_iff_toNat_le.mp (of_decide_eq_true hmet)
  exact ⟨required, hreq, hle.trans (Nat.mod_le _ _)⟩

/-- A set whose count is right for every policy lists no node twice. The policy to look at is the
one that requires as many signatures as the set has. -/
theorem CountsSigners.nodup (h : s.CountsSigners) (hlen : s.len < 2 ^ 32) :
    (s.signatures.map (·.nodeId)).Nodup := by
  rcases Nat.eq_zero_or_pos s.len with hzero | hpos
  · rw [eq_nil_of_length_eq_zero hzero]
    exact nodup_nil
  have hcount : (ofNat s.len).toNat = s.len := toNat_ofNat_of_lt' hlen
  have hfaults : (ofNat (s.len - 1)).toNat = s.len - 1 :=
    toNat_ofNat_of_lt' (show s.len - 1 < 2 ^ 32 by omega)
  have hlt : ofNat (s.len - 1) < ofNat s.len := by
    rw [lt_iff_toNat_lt]
    omega
  obtain ⟨required, hreq, hval⟩ := QuorumPolicy.requiredSignatures_of_lt
    (p := ⟨"", ofNat s.len, ofNat (s.len - 1), false, 1⟩) hlt .risky
  have hval : required.toNat = s.len := by
    simp only [hfaults] at hval
    omega
  have hmet : s.satisfiesQuorum ⟨"", ofNat s.len, ofNat (s.len - 1), false, 1⟩ .risky
      = some true := by
    rw [satisfiesQuorum, QuorumPolicy.isQuorumMet, hreq, Option.map_some, Option.some.injEq,
      decide_eq_true_eq, le_iff_toNat_le, hcount, hval]
  obtain ⟨required', hreq', hle⟩ := h _ _ hmet
  cases hreq.symm.trans hreq'
  -- As many distinct nodes as there are signatures: no node is repeated.
  have hcard : (s.signatures.map (·.nodeId)).toFinset.card = (s.signatures.map (·.nodeId)).length :=
    le_antisymm (toFinset_card_le _) (by rwa [length_map, ← len, ← hval])
  exact Multiset.toFinset_card_eq_card_iff_nodup.mp hcard

/-- What the documentation of the type promises of the sets that are built with the vectors in
`wire`: a quorum counts distinct signers, the slice is sorted, and the bytes to hash depend on the
signatures only. -/
def KeepsPromises (wire : List NodeSignature → Prop) : Prop :=
  (∀ s, Obtained wire s → s.CountsSigners ∧ s.SortedBySigner) ∧
    ∀ s s', Obtained wire s → Obtained wire s' → (∀ sig, sig ∈ s.asSlice ↔ sig ∈ s'.asSlice) →
      s.canonicalBytes = s'.canonicalBytes

/-- Sets built from the empty set by `add` keep the promises, and so do sets built with
deserialization when every vector read is strictly ascending by node. Among vectors short enough
for the 32-bit count this is needed of every single vector. -/
theorem keepsPromises_iff_strictlyAscending (wire : List NodeSignature → Prop) :
    ((∀ signatures, wire signatures → StrictlyAscending signatures) → KeepsPromises wire) ∧
      (KeepsPromises wire → ∀ signatures, wire signatures → signatures.length < 2 ^ 32 →
        StrictlyAscending signatures) := by
  constructor
  · intro hwire
    refine ⟨fun s hs => ?_, fun s s' hs hs' hmem => ?_⟩
    · have hcanonical := hs.canonical hwire
      exact ⟨hcanonical.countsSigners, hcanonical.ascending.imp le_of_lt⟩
    · have heq := (hs.canonical hwire).ascending.ext (hs'.canonical hwire).ascending hmem
      rw [canonicalBytes, heq, canonicalBytes]
  · intro hkeeps signatures hread hlen
    obtain ⟨hcounts, hsorted⟩ := hkeeps.1 _ (Obtained.fromRaw hread)
    have hdistinct := pairwise_map.mp (hcounts.nodup hlen)
    exact (Pairwise.and hsorted hdistinct).imp fun h => lt_of_le_of_ne h.1 h.2

/-- A vector that holds one signature twice satisfies a quorum of two with one signer. -/
theorem fromRaw_twice_satisfies_quorum :
    ∃ policy, QuorumPolicy.new "z:work" 3 1 = some policy ∧
      policy.requiredSignatures .criticalWrite = some 2 ∧
      let sig : NodeSignature := ⟨"node-a", arrayOf 64 (replicate 64 1), 1⟩
      (fromRaw [sig, sig]).satisfiesQuorum policy .criticalWrite = some true ∧
        (fromRaw [sig, sig]).signers.card = 1 := by
  refine ⟨⟨"z:work", 3, 1, false, 1⟩, by decide, by decide, by decide, ?_⟩
  rfl

/-! ### Callers that look for duplicates -/

end SignatureSet

end Flywheel.Mesh
