import Flywheel.Core.Capabilities
import Flywheel.Data.Results
import Flywheel.Data.TreeMaps
import Flywheel.Protocol.Transcripts
import Mathlib.Data.List.Sort

/-!
# The trust set of a lattice delegation verifier

`LatticeDelegationVerifierImpl` of `fcp-policy` digests its certificates into a
`trust_set_id`, and a sub-token carries the hash of a request tuple that ends in
that digest. An entry of the digest writes the certificate's period in whole
seconds and an absent parent as the all-zero id, so the digest determines the
certificates up to these two roundings. Of a public key only the fields that the
digest reads are modelled; the matrices, the parent walk and the lattice equation
are not.
-/

namespace Flywheel.Policy

open Flywheel.Data Flywheel.Core Flywheel.Protocol List

/-- `DelegationPeriod` of `fcp-policy`: Unix milliseconds, both ends included. -/
structure DelegationPeriod where
  startUnixMs : UInt64
  endUnixMs : UInt64
deriving DecidableEq

/-- `DelegationPeriod` of `fcp-crypto-pq`: Unix seconds, the end excluded. -/
structure CryptoPeriod where
  startSecs : UInt64
  endSecs : UInt64
deriving DecidableEq

structure LatticeParams where
  n : UInt32
  q : UInt64
  m : UInt32
  sigmaX100 : UInt32
  depth : UInt8
deriving DecidableEq

/-- `ZonePeriodPublicKey`, as far as the trust set reads it. -/
structure ZonePeriodPublicKey where
  hash : Bytes 32
  zoneId : Bytes 32
  period : CryptoPeriod
deriving DecidableEq

structure DelegationCertificate where
  certId : Bytes 32
  zoneId : CanonicalZoneId
  period : DelegationPeriod
  parentCertId : Option (Bytes 32)
  publicKey : ZonePeriodPublicKey
deriving DecidableEq

/-- `LatticeSubToken` without its preimage. -/
structure LatticeSubToken where
  certId : Bytes 32
  opId : OperationId
  principalId : PrincipalId
  requestDescriptorHash : Bytes 32

/-- The errors of `validate_sub_token_request_binding`. -/
inductive LatticeDelegationError where
  | operationMismatch (tokenOperationHash requestOperationHash : String)
  | principalMismatch (tokenPrincipalHash requestPrincipalHash : String)
  | requestBindingMismatch (certId expectedHash gotHash : String)
deriving DecidableEq

/-- `LatticeDelegationVerifierImpl`: the values of the certificate map, in the order the map
happens to list them, one for each id. -/
structure LatticeDelegationVerifier where
  certificates : List DelegationCertificate
  params : LatticeParams
  nodup_ids : (certificates.map (·.certId)).Nodup

/-- `add_certificate`: replaces an entry with the same id. -/
def LatticeDelegationVerifier.addCertificate (v : LatticeDelegationVerifier)
    (cert : DelegationCertificate) : LatticeDelegationVerifier where
  certificates := cert :: v.certificates.filter (·.certId ≠ cert.certId)
  params := v.params
  nodup_ids := by
    rw [map_cons, nodup_cons]
    refine ⟨fun hmem => ?_, v.nodup_ids.sublist (filter_sublist.map _)⟩
    obtain ⟨other, hother, hid⟩ := mem_map.mp hmem
    exact absurd hid (by simpa using (mem_filter.mp hother).2)

def withCertificates (params : LatticeParams) (certificates : List DelegationCertificate) :
    LatticeDelegationVerifier :=
  certificates.foldl LatticeDelegationVerifier.addCertificate ⟨[], params, nodup_nil⟩

def periodToCrypto (period : DelegationPeriod) : CryptoPeriod where
  startSecs := period.startUnixMs / 1000
  endSecs := period.endUnixMs / 1000 + 1

/-- The all-zero id that stands for an absent parent. -/
def zeroId : Bytes 32 := List.Vector.replicate 32 0

def zoneInput (zone : CanonicalZoneId) : List UInt8 :=
  utf8 "fcp-policy/lattice-zone-projection-v0|" ++ utf8 zone.1

variable (blake3 : List UInt8 → Bytes 32)

def zoneToCrypto (zone : CanonicalZoneId) : Bytes 32 := blake3 (zoneInput zone)

variable (cert : DelegationCertificate)

/-- The entry of a certificate in `trust_set_id`. -/
def trustSetEntry : List UInt8 :=
  cert.certId.toList ++ ((zoneToCrypto blake3 cert.zoneId).toList ++
    (leBytes 8 (periodToCrypto cert.period).startSecs.toNat ++
    (leBytes 8 (periodToCrypto cert.period).endSecs.toNat ++
    (cert.publicKey.hash.toList ++ (cert.publicKey.zoneId.toList ++
    (leBytes 8 cert.publicKey.period.startSecs.toNat ++
    (leBytes 8 cert.publicKey.period.endSecs.toNat ++
    (cert.parentCertId.getD zeroId).toList)))))))

/-- `sort` of byte strings. -/
def sortEntries (entries : List (List UInt8)) : List (List UInt8) :=
  entries.insertionSort fun a b => (compare a b).isLE

def framedEntry (entry : List UInt8) : List UInt8 := leBytes 8 entry.length ++ entry

def paramsInput (params : LatticeParams) : List UInt8 :=
  utf8 "fcp-policy/lattice-trust-set-v1|" ++ leBytes 4 params.n.toNat ++
    leBytes 4 params.m.toNat ++ leBytes 8 params.q.toNat ++ leBytes 1 params.depth.toNat

namespace LatticeDelegationVerifier

variable (v : LatticeDelegationVerifier)

def trustSetInput : List UInt8 :=
  paramsInput v.params ++
    (sortEntries (v.certificates.map (trustSetEntry blake3))).flatMap framedEntry

def trustSetId : Bytes 32 := blake3 (v.trustSetInput blake3)

end LatticeDelegationVerifier

/-- The policy tuple that `request_descriptor_hash` binds, apart from the trust set. -/
structure RequestTuple where
  certId : Bytes 32
  zone : CanonicalZoneId
  period : DelegationPeriod
  operation : OperationId
  principal : PrincipalId
  publicKeyHash : Bytes 32

def bindingInput (r : RequestTuple) (trustSetId : Bytes 32) : List UInt8 :=
  utf8 "fcp-policy/lattice-request-binding-v1|" ++ r.certId.toList ++
    (zoneToCrypto blake3 r.zone).toList ++
    leBytes 8 (periodToCrypto r.period).startSecs.toNat ++
    leBytes 8 (periodToCrypto r.period).endSecs.toNat ++
    leBytes 8 (utf8 r.operation.1).length ++ utf8 r.operation.1 ++
    leBytes 8 (utf8 r.principal.1).length ++ utf8 r.principal.1 ++
    r.publicKeyHash.toList ++ trustSetId.toList

def requestDescriptorHash (r : RequestTuple) (trustSetId : Bytes 32) : Bytes 32 :=
  blake3 (bindingInput blake3 r trustSetId)

def redactedIdHash (domain value : String) : String :=
  hexEncode (blake3 (utf8 domain ++ utf8 value)).toList

/-- The tuple that `validate_sub_token_request_binding` builds from the leaf and the request. -/
def requestTuple (leaf : DelegationCertificate) (zone : CanonicalZoneId)
    (operation : OperationId) (principal : PrincipalId) : RequestTuple :=
  ⟨leaf.certId, zone, leaf.period, operation, principal, leaf.publicKey.hash⟩

def validateSubTokenRequestBinding (v : LatticeDelegationVerifier) (leaf : DelegationCertificate)
    (token : LatticeSubToken) (zone : CanonicalZoneId) (operation : OperationId)
    (principal : PrincipalId) : Except LatticeDelegationError (Bytes 32) :=
  if token.opId ≠ operation then
    .error (.operationMismatch
      (redactedIdHash blake3 "fcp-policy/lattice-token-operation-v1|" token.opId.1)
      (redactedIdHash blake3 "fcp-policy/lattice-request-operation-v1|" operation.1))
  else if token.principalId ≠ principal then
    .error (.principalMismatch
      (redactedIdHash blake3 "fcp-policy/lattice-token-principal-v1|" token.principalId.1)
      (redactedIdHash blake3 "fcp-policy/lattice-request-principal-v1|" principal.1))
  else
    let expected := requestDescriptorHash blake3 (requestTuple leaf zone operation principal)
      (v.trustSetId blake3)
    if token.requestDescriptorHash ≠ expected then
      .error (.requestBindingMismatch (hexEncode leaf.certId.toList) (hexEncode expected.toList)
        (hexEncode token.requestDescriptorHash.toList))
    else .ok expected

/-- What an entry records of a certificate: the period in whole seconds, and the all-zero id
for an absent parent. -/
structure CertificateRecord where
  certId : Bytes 32
  zoneId : CanonicalZoneId
  period : CryptoPeriod
  parentCertId : Bytes 32
  publicKey : ZonePeriodPublicKey
deriving DecidableEq

def DelegationCertificate.recorded : CertificateRecord :=
  ⟨cert.certId, cert.zoneId, periodToCrypto cert.period, cert.parentCertId.getD zeroId,
    cert.publicKey⟩

variable (v w : LatticeDelegationVerifier)

/-- Both verifiers hold the same certificates. -/
def SameCertificates : Prop :=
  ∀ cert, cert ∈ v.certificates ↔ cert ∈ w.certificates

/-- The certificates of both verifiers agree in what the entries record. -/
def SameRecords : Prop :=
  ∀ record, record ∈ v.certificates.map (·.recorded) ↔ record ∈ w.certificates.map (·.recorded)

/-- The strings hashed to compute the two digests. -/
def digestInputs : Set (List UInt8) :=
  {input | input = v.trustSetInput blake3 ∨ input = w.trustSetInput blake3 ∨
    ∃ cert ∈ v.certificates ++ w.certificates, input = zoneInput cert.zoneId}

variable {blake3} {v w : LatticeDelegationVerifier}
/-- Two entries are equal exactly when the certificates agree in what is recorded. -/
theorem trustSetEntry_eq_iff {c d : DelegationCertificate}
    (hzone : zoneToCrypto blake3 c.zoneId = zoneToCrypto blake3 d.zoneId → c.zoneId = d.zoneId) :
    trustSetEntry blake3 c = trustSetEntry blake3 d ↔ c.recorded = d.recorded := by
  obtain ⟨cid, czone, cperiod, cparent, ⟨chash, ckzone, ⟨ckstart, ckend⟩⟩⟩ := c
  obtain ⟨did, dzone, dperiod, dparent, ⟨dhash, dkzone, ⟨dkstart, dkend⟩⟩⟩ := d
  simp only [DelegationCertificate.recorded, CertificateRecord.mk.injEq,
    ZonePeriodPublicKey.mk.injEq, CryptoPeriod.mk.injEq]
  constructor
  · intro h
    obtain ⟨hid, h⟩ := bytes_append_inj h
    obtain ⟨hz, h⟩ := bytes_append_inj h
    obtain ⟨hstart, h⟩ := UInt64.leBytes_append_inj h
    obtain ⟨hend, h⟩ := UInt64.leBytes_append_inj h
    obtain ⟨hhash, h⟩ := bytes_append_inj h
    obtain ⟨hkzone, h⟩ := bytes_append_inj h
    obtain ⟨hkstart, h⟩ := UInt64.leBytes_append_inj h
    obtain ⟨hkend, hparent⟩ := UInt64.leBytes_append_inj h
    exact ⟨hid, hzone hz, by rw [CryptoPeriod.mk.injEq]; exact ⟨hstart, hend⟩,
      Vector.eq _ _ hparent, hhash, hkzone, hkstart, hkend⟩
  · rintro ⟨rfl, rfl, hperiod, hparent, rfl, rfl, rfl, rfl⟩
    simp only [trustSetEntry, hperiod, hparent]

theorem sortEntries_eq_iff {entries others : List (List UInt8)} :
    sortEntries entries = sortEntries others ↔ entries.Perm others := by
  have htotal : Std.Total fun a b : List UInt8 => (compare a b).isLE = true := by
    refine ⟨fun a b => ?_⟩
    have hswap : compare a b = (compare b a).swap := Std.OrientedCmp.eq_swap
    rw [hswap]
    cases compare b a with
    | lt => exact .inr rfl
    | eq | gt => exact .inl rfl
  have htrans : IsTrans (List UInt8) fun a b => (compare a b).isLE = true :=
    ⟨fun _ _ _ => Std.TransCmp.isLE_trans⟩
  constructor
  · intro h
    have hothers : (sortEntries others).Perm others := perm_insertionSort _ others
    rw [← h] at hothers
    exact (perm_insertionSort _ entries).symm.trans hothers
  · intro h
    refine Perm.eq_of_pairwise (fun a b _ _ hab hba => ?_)
      (pairwise_insertionSort _ entries) (pairwise_insertionSort _ others) ?_
    · exact Std.LawfulEqCmp.compare_eq_iff_eq.mp (Std.OrientedCmp.isLE_antisymm hab hba)
    · exact (perm_insertionSort _ _).trans (h.trans (perm_insertionSort _ _).symm)

/-- Where `f` tells apart whatever `g` tells apart, lists with the same values of `f` have the
same values of `g`. -/
theorem perm_map_of_perm_map {α β γ : Type*} {f : α → β} {g : α → γ} {l l' : List α}
    (hfg : ∀ a ∈ l, ∀ b ∈ l', f a = f b → g a = g b) (hperm : (l.map f).Perm (l'.map f)) :
    (l.map g).Perm (l'.map g) := by
  obtain ⟨k, hk, hmap⟩ := exists_perm_of_perm_map hperm
  rw [← forall₂_eq_eq_eq, forall₂_map_left_iff, forall₂_map_right_iff] at hmap
  have hvalues : l.map g = k.map g := by
    rw [← forall₂_eq_eq_eq, forall₂_map_left_iff, forall₂_map_right_iff]
    exact forall₂_imp_of_mem hmap fun a b ha hb => hfg a ha b (hk.mem_iff.mp hb)
  rw [hvalues]
  exact hk.map g

theorem length_of_mem_sortEntries {certs : List DelegationCertificate} {entry : List UInt8}
    (h : entry ∈ sortEntries (certs.map (trustSetEntry blake3))) : entry.length = 192 := by
  have hmem := (perm_insertionSort _ _).mem_iff.mp h
  obtain ⟨cert, -, rfl⟩ := mem_map.mp hmem
  simp [trustSetEntry]

namespace LatticeDelegationVerifier

theorem trustSetId_eq_iff (hparams : v.params = w.params)
    (hblake3 : Set.InjOn blake3 (digestInputs blake3 v w)) :
    v.trustSetId blake3 = w.trustSetId blake3 ↔
      (v.certificates.map (trustSetEntry blake3)).Perm
        (w.certificates.map (trustSetEntry blake3)) := by
  rw [← sortEntries_eq_iff]
  constructor
  · intro h
    have hinput := hblake3 (.inl rfl) (.inr (.inl rfl)) h
    rw [trustSetInput, hparams] at hinput
    -- framed entries of one length are read back from their concatenation
    refine flatMap_inj (by simp [framedEntry, leBytes]) (fun a ha b hb s t hab => ?_)
      (append_cancel_left hinput)
    obtain ⟨hframed, hst⟩ := append_inj hab (by
      simp [framedEntry, length_of_mem_sortEntries ha, length_of_mem_sortEntries hb])
    exact ⟨(append_inj hframed (by simp)).2, hst⟩
  · intro h
    rw [trustSetId, trustSetId, trustSetInput, trustSetInput, hparams, h]

theorem nodup_recorded (v : LatticeDelegationVerifier) :
    (v.certificates.map (·.recorded)).Nodup := by
  refine Nodup.of_map (·.certId) ?_
  rw [map_map]
  exact v.nodup_ids

/-- The digest determines what the entries record, and nothing more. -/
theorem trustSetId_eq_iff_sameRecords (hparams : v.params = w.params)
    (hblake3 : Set.InjOn blake3 (digestInputs blake3 v w)) :
    v.trustSetId blake3 = w.trustSetId blake3 ↔ SameRecords v w := by
  have hentry : ∀ c ∈ v.certificates ++ w.certificates, ∀ d ∈ v.certificates ++ w.certificates,
      (trustSetEntry blake3 c = trustSetEntry blake3 d ↔ c.recorded = d.recorded) := by
    intro c hc d hd
    refine trustSetEntry_eq_iff fun hzone => ?_
    have hinput := hblake3 (.inr (.inr ⟨c, hc, rfl⟩)) (.inr (.inr ⟨d, hd, rfl⟩)) hzone
    exact Subtype.ext (utf8_injective (append_cancel_left hinput))
  rw [trustSetId_eq_iff hparams hblake3]
  rw [SameRecords, ← perm_ext_iff_of_nodup v.nodup_recorded w.nodup_recorded]
  constructor
  · exact perm_map_of_perm_map fun c hc d hd => (hentry c (by simp [hc]) d (by simp [hd])).mp
  · exact perm_map_of_perm_map fun c hc d hd => (hentry c (by simp [hc]) d (by simp [hd])).mpr

end LatticeDelegationVerifier

/-- The digest binds the certificates, and so does the binding of an accepted token, exactly when
the two sets do not differ only within a second or in an absent against an all-zero parent. -/
theorem trustSetId_binding_iff (blake3 : List UInt8 → Bytes 32) (v w : LatticeDelegationVerifier)
    (hparams : v.params = w.params) (hblake3 : Set.InjOn blake3 (digestInputs blake3 v w)) :
    ((v.trustSetId blake3 = w.trustSetId blake3 → SameCertificates v w) ∧
      ∀ (bound : RequestTuple) (leaf : DelegationCertificate) (token : LatticeSubToken)
        (zone : CanonicalZoneId) (operation : OperationId) (principal : PrincipalId)
        (hash : Bytes 32),
        Set.InjOn blake3 {bindingInput blake3 bound (v.trustSetId blake3),
          bindingInput blake3 (requestTuple leaf zone operation principal)
            (w.trustSetId blake3)} →
        token.requestDescriptorHash =
          requestDescriptorHash blake3 bound (v.trustSetId blake3) →
        validateSubTokenRequestBinding blake3 w leaf token zone operation principal = .ok hash →
        SameCertificates v w) ↔
    (SameRecords v w → SameCertificates v w) := by
  rw [LatticeDelegationVerifier.trustSetId_eq_iff_sameRecords hparams hblake3]
  refine ⟨And.left, fun h => ⟨h, ?_⟩⟩
  intro bound leaf token zone operation principal hash hbinding hbound haccepted
  unfold validateSubTokenRequestBinding at haccepted
  dsimp only at haccepted
  split_ifs at haccepted with _ _ hhash
  have hinput := hbinding (.inl rfl) (.inr rfl) (hbound.symm.trans (not_not.mp hhash))
  have htail := append_inj_right' hinput (by simp)
  have hid := Vector.eq _ _ htail
  exact h ((LatticeDelegationVerifier.trustSetId_eq_iff_sameRecords hparams hblake3).mp hid)

/-- The profile `SMALL_TEST`. -/
def smallTest : LatticeParams := ⟨8, 257, 16, 320, 2⟩

def workZone : CanonicalZoneId := .work

def readOperation : OperationId := ⟨"op:read", by decide +kernel⟩

def alice : PrincipalId := ⟨"user:alice", canonical_alice⟩

/-- The BLAKE3 projection of `z:work`. -/
def workZoneDigest : Bytes 32 :=
  arrayOf 32 (beBytes 32 0x3e6408bbcb3570bba493b39aaa51215782b316587aaf81484a8d7394cae72822)

/-- A certificate of `z:work` that ends at the given millisecond. -/
def workCertificate (endUnixMs : UInt64) (parent : Option (Bytes 32)) : DelegationCertificate where
  certId := List.Vector.replicate 32 1
  zoneId := workZone
  period := ⟨1000000, endUnixMs⟩
  parentCertId := parent
  publicKey := ⟨List.Vector.replicate 32 2, workZoneDigest, ⟨1000, 2001⟩⟩

def singleTrustSet : LatticeDelegationVerifier :=
  withCertificates smallTest [cert]

/-- BLAKE3 on what is hashed for the digests of `z:work`'s certificate and of no certificate. -/
def blake3OfTrustSets (input : List UInt8) : Bytes 32 :=
  if input = zoneInput workZone then workZoneDigest
  else arrayOf 32 (beBytes 32 (
    if input = paramsInput smallTest then
      0x4d80d138558dce17a2ffcc8d201a7562d79a1b5ee61eac30ca5099ec404eb7e1
    else 0x6fc28a896b9561d67db50cd8e913bf277cbcc72d55f1576e58a361907e7b321c))

/-- The digest tells a trust set of one certificate from the empty one. -/
theorem single_and_empty_trustSets_differ :
    ¬ SameRecords (singleTrustSet (workCertificate 2000500 none)) (withCertificates smallTest []) ∧
    (singleTrustSet (workCertificate 2000500 none)).trustSetId blake3OfTrustSets ≠
      (withCertificates smallTest []).trustSetId blake3OfTrustSets := by
  have hrecords : ¬ SameRecords (singleTrustSet (workCertificate 2000500 none))
      (withCertificates smallTest []) :=
    fun h => not_mem_nil ((h _).mp mem_cons_self)
  have hinj : Set.InjOn blake3OfTrustSets (digestInputs blake3OfTrustSets
      (singleTrustSet (workCertificate 2000500 none)) (withCertificates smallTest [])) := by
    rintro x (rfl | rfl | ⟨_, _ | ⟨_, ⟨⟩⟩, rfl⟩) y (rfl | rfl | ⟨_, _ | ⟨_, ⟨⟩⟩, rfl⟩) <;>
      decide +kernel
  have hbinding := trustSetId_binding_iff blake3OfTrustSets
    (singleTrustSet (workCertificate 2000500 none)) (withCertificates smallTest []) rfl hinj
  refine ⟨hrecords, fun hid => ?_⟩
  have hsame := (hbinding.mpr fun h => absurd h hrecords).1 hid
  exact not_mem_nil ((hsame _).mp mem_cons_self)

/-- A later end within the same second and an all-zero parent leave the digest as it is, and a
token bound to the one set is accepted by the others. -/
theorem later_end_and_zero_parent_share_digest :
    ∃ (base later rooted : DelegationCertificate),
      ¬ SameCertificates (singleTrustSet base) (singleTrustSet later) ∧
      ¬ SameCertificates (singleTrustSet base) (singleTrustSet rooted) ∧
      ∀ (blake3 : List UInt8 → Bytes 32), ∀ other ∈ [later, rooted],
        (singleTrustSet base).trustSetId blake3 = (singleTrustSet other).trustSetId blake3 ∧
        ∃ (token : LatticeSubToken) (hash : Bytes 32),
          token.requestDescriptorHash = requestDescriptorHash blake3
            (requestTuple base workZone readOperation alice)
            ((singleTrustSet base).trustSetId blake3) ∧
          validateSubTokenRequestBinding blake3 (singleTrustSet other) other token workZone
            readOperation alice = .ok hash := by
  refine ⟨workCertificate 2000500 none, workCertificate 2000999 none,
    workCertificate 2000500 (some zeroId), ?_, ?_, ?_⟩
  · exact fun h => absurd (mem_singleton.mp ((h _).mp mem_cons_self)) (by decide)
  · exact fun h => absurd (mem_singleton.mp ((h _).mp mem_cons_self)) (by decide)
  · intro blake3 other hother
    have hentry : trustSetEntry blake3 (workCertificate 2000500 none) =
        trustSetEntry blake3 other := by
      rcases mem_pair.mp hother with rfl | rfl <;> rfl
    have hid : (singleTrustSet (workCertificate 2000500 none)).trustSetId blake3 =
        (singleTrustSet other).trustSetId blake3 :=
      congrArg (fun entry => blake3 (paramsInput smallTest ++
        (sortEntries [entry]).flatMap framedEntry)) hentry
    refine ⟨hid, ⟨other.certId, readOperation, alice, _⟩,
      requestDescriptorHash blake3 (requestTuple other workZone readOperation alice)
        ((singleTrustSet other).trustSetId blake3), rfl, ?_⟩
    unfold validateSubTokenRequestBinding
    rw [if_neg (not_not.mpr rfl), if_neg (not_not.mpr rfl)]
    refine if_neg (not_not.mpr ?_)
    rcases mem_pair.mp hother with rfl | rfl
    · rfl
    · rfl

end Flywheel.Policy
