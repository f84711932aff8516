import Flywheel.Data.Bytes
import Mathlib.Data.List.Chain

/-!
# The audit chain

`verify_chain` of `fcp-audit`: every entry carries the hash of its own content and
of its predecessor's id, and a chain head names the last one. The content is what
`compute_audit_entry_id` hashes; the fields of it that the checks do not read are
one value here, and its canonical encoding is a parameter, as is BLAKE3. Issuers
and signatures are not part of these checks.
-/

namespace Flywheel.Core

open Flywheel.Data List

/-- `AuditEntryIdMaterial`; `content` holds the hashed fields that no check reads. -/
structure AuditEntryIdMaterial (Content : Type) where
  zoneId : String
  seq : ℕ
  occurredAt : ℕ
  prev : Option String
  content : Content
deriving DecidableEq

structure AuditEntry (Content : Type) where
  id : String
  material : AuditEntryIdMaterial Content

/-- `ChainHead`, as far as `verify_chain` reads it. -/
structure ChainHead where
  zoneId : String
  headEntry : String
  headSeq : ℕ
  signatureCount : ℕ
  signatures : List (List UInt8)

/-- The codes of the issues, such as `audit.fork_detected`. -/
inductive IssueCode where
  | forkDetected | objectIdMismatch | objectIdUnverifiable | chainEmpty | prevMismatch | seqGap
  | genesisInvalid | headMismatch | headSeqMismatch | headSignatureCountInconsistent
  | zoneMismatch | seqOverflow | timestampRegression | headZoneMismatch
deriving DecidableEq

structure VerifyIssue where
  code : IssueCode
  message : String
  seq : Option ℕ
  entryId : Option String

def VerifyIssue.isCritical (issue : VerifyIssue) : Bool :=
  match issue.code with
  | .zoneMismatch | .seqOverflow | .timestampRegression | .headZoneMismatch => false
  | _ => true

inductive VerifyStatus where
  | ok
  | warn
  | fail
deriving DecidableEq

structure VerifyReport where
  status : VerifyStatus
  zoneId : Option String
  chainLen : ℕ
  headSeq : Option ℕ
  headEntry : Option String
  issues : List VerifyIssue

/-- The canonical encoding of the hashed fields, and BLAKE3. -/
structure AuditLibraries (Content : Type) where
  toCanonicalCbor : AuditEntryIdMaterial Content → Except String (List UInt8)
  blake3 : List UInt8 → Bytes 32

theorem hexEncode_inj {bytes other : List UInt8} (h : hexEncode bytes = hexEncode other) :
    bytes = other := by
  have hdigit : ∀ m < 16, ∀ n < 16, Nat.digitChar m = Nat.digitChar n → m = n := by decide
  refine flatMap_inj (by simp) (fun a _ b _ s t hab => ?_) (String.ofList_injective h)
  obtain ⟨hhigh, hab⟩ := cons.inj hab
  obtain ⟨hlow, hst⟩ := cons.inj hab
  have ha := a.toNat_lt
  have hb := b.toNat_lt
  have hhigh := hdigit _ (by omega) _ (by omega) hhigh
  have hlow := hdigit _ (by omega) _ (by omega) hlow
  exact ⟨UInt8.toNat_inj.mp (by omega), hst⟩

section Verify

variable {Content : Type} (libs : AuditLibraries Content)

def idInput (canonical : List UInt8) : List UInt8 := utf8 "FCP2-AUDIT-ENTRY-V1" ++ canonical

variable (entry : AuditEntry Content)

/-- `computed_id`, an error by its text. -/
def computedId : Except String String :=
  match libs.toCanonicalCbor entry.material with
  | .ok canonical => .ok (hexEncode (libs.blake3 (idInput canonical)).toList)
  | .error err => .error s!"serialization error: failed to canonicalize audit entry: {err}"

/-- The computed id, or the stated one where there is none. -/
def effectiveId : String :=
  match computedId libs entry with
  | .ok id => id
  | .error _ => entry.id

/-- An issue about an entry, if the condition holds. -/
def issueIf (condition : Bool) (code : IssueCode) (message : String)
    (entry : AuditEntry Content) : List VerifyIssue :=
  if condition then [⟨code, message, some entry.material.seq, some entry.id⟩] else []

def idIssues : List VerifyIssue :=
  match computedId libs entry with
  | .ok id => issueIf (entry.id != id) .objectIdMismatch
    s!"entry id does not match canonical payload hash; expected {id}" entry
  | .error err => issueIf true .objectIdUnverifiable
    s!"entry id could not be recomputed: {err}" entry

def zoneIssues (zone : String) (entry : AuditEntry Content) : List VerifyIssue :=
  issueIf (entry.material.zoneId != zone) .zoneMismatch
    s!"entry zone {entry.material.zoneId} does not match expected zone {zone}" entry

/-- The search for different entries of one sequence number; `seen` has the latest in front. -/
def forkIssues (seen : List (ℕ × String)) : List (AuditEntry Content) → List VerifyIssue
  | [] => []
  | entry :: entries =>
    issueIf (match seen.lookup entry.material.seq with
        | some id => id != effectiveId libs entry
        | none => false)
      .forkDetected "multiple entries share the same seq with different ids" entry ++
    forkIssues ((entry.material.seq, effectiveId libs entry) :: seen) entries

def genesisIssues (first : AuditEntry Content) : List VerifyIssue :=
  issueIf (first.material.seq != 0 || first.material.prev.isSome) .genesisInvalid
    "genesis entry must have seq 0 and no prev" first

/-- The loop over the links, which stops behind the last sequence number there is. -/
def linkIssues (prev : AuditEntry Content) : List (AuditEntry Content) → List VerifyIssue
  | [] => []
  | entry :: entries =>
    if 2 ^ 64 ≤ prev.material.seq + 1 then
      issueIf true .seqOverflow
        s!"sequence number overflow: previous seq {prev.material.seq} cannot be incremented" prev
    else
      issueIf (entry.material.seq != prev.material.seq + 1) .seqGap
        s!"expected seq {prev.material.seq + 1}, found {entry.material.seq}" entry ++
      (issueIf (entry.material.prev != some (effectiveId libs prev)) .prevMismatch
        "prev pointer does not match previous entry id" entry ++
      (issueIf (entry.material.occurredAt < prev.material.occurredAt) .timestampRegression
        s!"timestamp {entry.material.occurredAt} is earlier than previous entry timestamp {prev.material.occurredAt}"
        entry ++
      linkIssues entry entries))

def headIssues (head : ChainHead) (zone : String) (last : AuditEntry Content) : List VerifyIssue :=
  issueIf (head.headEntry != effectiveId libs last) .headMismatch
    "chain head does not reference chain tip" last ++
  (issueIf (head.headSeq != last.material.seq) .headSeqMismatch
    "head seq does not match chain tip seq" last ++
  ((if head.zoneId != zone then
    [⟨.headZoneMismatch, s!"head zone {head.zoneId} does not match {zone}", none, none⟩]
    else []) ++
  (if head.signatureCount != head.signatures.length then
    [⟨.headSignatureCountInconsistent,
      s!"head declares signature_count={head.signatureCount} but {head.signatures.length} signatures are attached",
      none, none⟩]
    else [])))

def statusOf (issues : List VerifyIssue) : VerifyStatus :=
  if issues.isEmpty then .ok else if issues.any (·.isCritical) then .fail else .warn

/-- The issues of a chain that is not empty. -/
def chainIssues (first : AuditEntry Content) (rest : List (AuditEntry Content))
    (head : Option ChainHead) (zoneId : Option String) : List VerifyIssue :=
  let entries := first :: rest
  let zone := zoneId.getD first.material.zoneId
  entries.flatMap (idIssues libs) ++ (entries.flatMap (zoneIssues zone) ++
    (forkIssues libs [] entries ++ (genesisIssues first ++ (linkIssues libs first rest ++
      head.toList.flatMap fun head => headIssues libs head zone
        (entries.getLast (cons_ne_nil _ _))))))

variable (entries : List (AuditEntry Content))

def verifyChain (head : Option ChainHead) (zoneId : Option String) : VerifyReport :=
  match entries with
  | [] =>
    match head with
    | none => ⟨.ok, zoneId, 0, none, none, []⟩
    | some _ => ⟨.fail, zoneId, 0, none, none,
        [⟨.chainEmpty, "head provided but chain is empty", none, none⟩]⟩
  | first :: rest =>
    let issues := chainIssues libs first rest head zoneId
    ⟨statusOf issues, zoneId, rest.length + 1, head.map (·.headSeq), head.map (·.headEntry),
      issues⟩

/-! ## What a chain that does not fail looks like -/

def Follows (prev entry : AuditEntry Content) : Prop :=
  entry.material.seq = prev.material.seq + 1 ∧ entry.material.prev = some prev.id

/-- The entries carry their own hashes and are linked from the genesis entry on. -/
structure Linked (entries : List (AuditEntry Content)) : Prop where
  ids : ∀ entry ∈ entries, computedId libs entry = .ok entry.id
  genesis : ∀ first ∈ entries.head?, first.material.seq = 0 ∧ first.material.prev = none
  links : entries.IsChain Follows

/-- The inputs hashed for the ids of entries. -/
def idInputs : Set (List UInt8) :=
  {input | ∃ entry ∈ entries, ∃ canonical,
    libs.toCanonicalCbor entry.material = .ok canonical ∧ input = idInput canonical}

/-- A chain as it is built: computed ids, one zone, timestamps that do not decrease. -/
structure Honest (zone : String) (entries : List (AuditEntry Content)) : Prop
    extends Linked libs entries where
  zones : ∀ entry ∈ entries, entry.material.zoneId = zone
  times : entries.IsChain fun prev entry =>
    prev.material.occurredAt ≤ entry.material.occurredAt

/-- A head that names the last entry. -/
structure ChainHead.Tip (head : ChainHead) (zone : String) (last : AuditEntry Content) :
    Prop where
  entry : head.headEntry = last.id
  seq : head.headSeq = last.material.seq
  zone : head.zoneId = zone
  signatures : head.signatureCount = head.signatures.length

end Verify

section Soundness

variable {Content : Type} {libs : AuditLibraries Content} {entries : List (AuditEntry Content)}
  {entry prev first : AuditEntry Content} {rest : List (AuditEntry Content)}
  {head : Option ChainHead} {zoneId : Option String}

/-- No issue of the list is critical. -/
def Uncritical (issues : List VerifyIssue) : Prop := ∀ issue ∈ issues, issue.isCritical = false

theorem uncritical_of_ne_fail {issues : List VerifyIssue} (h : statusOf issues ≠ .fail) :
    Uncritical issues := by
  intro issue hissue
  by_contra hcritical
  refine h ?_
  have hany : issues.any (·.isCritical) = true :=
    any_eq_true.mpr ⟨issue, hissue, eq_true_of_ne_false hcritical⟩
  rw [statusOf, if_neg (by simp [ne_nil_of_mem hissue]), if_pos hany]

theorem uncritical_append {issues others : List VerifyIssue} :
    Uncritical (issues ++ others) ↔ Uncritical issues ∧ Uncritical others :=
  forall_mem_append

theorem uncritical_issueIf {condition : Bool} {code : IssueCode} {message : String}
    (h : Uncritical (issueIf condition code message entry))
    (hcode : ∀ seq id, VerifyIssue.isCritical ⟨code, message, seq, id⟩ = true) :
    condition = false := by
  cases condition with
  | false => rfl
  | true =>
    have hcritical := h _ mem_cons_self
    rw [hcode] at hcritical
    cases hcritical

theorem computedId_of_uncritical (h : Uncritical (idIssues libs entry)) :
    computedId libs entry = .ok entry.id := by
  unfold idIssues at h
  cases hid : computedId libs entry with
  | ok id =>
    rw [hid] at h
    have hsame := uncritical_issueIf h fun _ _ => rfl
    rw [bne_eq_false_iff_eq.mp hsame]
  | error err =>
    rw [hid] at h
    cases uncritical_issueIf h fun _ _ => rfl

theorem effectiveId_of_computedId (h : computedId libs entry = .ok entry.id) :
    effectiveId libs entry = entry.id := by
  rw [effectiveId, h]

theorem isChain_of_uncritical (h : Uncritical (linkIssues libs prev rest))
    (hlen : prev.material.seq + rest.length < 2 ^ 64)
    (hids : ∀ entry ∈ prev :: rest, computedId libs entry = .ok entry.id) :
    (prev :: rest).IsChain Follows := by
  induction rest generalizing prev with
  | nil => exact List.IsChain.singleton _
  | cons entry rest ih =>
    rw [length_cons] at hlen
    rw [linkIssues, if_neg (by omega)] at h
    obtain ⟨hgap, h⟩ := uncritical_append.mp h
    obtain ⟨hprev, h⟩ := uncritical_append.mp h
    have hseq := bne_eq_false_iff_eq.mp (uncritical_issueIf hgap fun _ _ => rfl)
    have hlink := bne_eq_false_iff_eq.mp (uncritical_issueIf hprev fun _ _ => rfl)
    rw [effectiveId_of_computedId (hids prev mem_cons_self)] at hlink
    refine isChain_cons_cons.mpr ⟨⟨hseq, hlink⟩, ih (uncritical_append.mp h).2 ?_ ?_⟩
    · omega
    · exact fun e he => hids e (mem_cons_of_mem _ he)

theorem linked_of_ne_fail (hlen : entries.length < 2 ^ 64)
    (h : (verifyChain libs entries head zoneId).status ≠ .fail) : Linked libs entries := by
  cases entries with
  | nil => exact ⟨fun _ he => (not_mem_nil he).elim, by simp, IsChain.nil⟩
  | cons first rest =>
    obtain ⟨hids, h⟩ := uncritical_append.mp (uncritical_of_ne_fail h)
    obtain ⟨-, h⟩ := uncritical_append.mp h
    obtain ⟨-, h⟩ := uncritical_append.mp h
    obtain ⟨hgenesis, h⟩ := uncritical_append.mp h
    have hids : ∀ entry ∈ first :: rest, computedId libs entry = .ok entry.id :=
      fun entry he => computedId_of_uncritical fun issue hissue =>
        hids issue (mem_flatMap_of_mem he hissue)
    have hfirst := uncritical_issueIf hgenesis fun _ _ => rfl
    rw [Bool.or_eq_false_iff, bne_eq_false_iff_eq] at hfirst
    refine ⟨hids, by simpa using hfirst, isChain_of_uncritical (uncritical_append.mp h).1 ?_ hids⟩
    rw [hfirst.1, Nat.zero_add]
    exact (Nat.lt_succ_self _).trans hlen

/-- A head that lets a chain pass names its last entry. -/
theorem last_of_ne_fail {head : ChainHead} (hlinked : Linked libs entries)
    (h : (verifyChain libs entries (some head) zoneId).status ≠ .fail) :
    ∃ hne : entries ≠ [], head.headEntry = (entries.getLast hne).id ∧
      head.headSeq = (entries.getLast hne).material.seq := by
  cases entries with
  | nil => exact absurd rfl h
  | cons first rest =>
    have hall := uncritical_of_ne_fail h
    have hhead : Uncritical (headIssues libs head (zoneId.getD first.material.zoneId)
        ((first :: rest).getLast (cons_ne_nil _ _))) := fun issue hissue =>
      hall issue (by simp [chainIssues, hissue])
    obtain ⟨hentry, h⟩ := uncritical_append.mp hhead
    have hseq := uncritical_issueIf (uncritical_append.mp h).1 fun _ _ => rfl
    have hid := bne_eq_false_iff_eq.mp (uncritical_issueIf hentry fun _ _ => rfl)
    rw [effectiveId_of_computedId (hlinked.ids _ (getLast_mem _))] at hid
    exact ⟨cons_ne_nil _ _, hid, bne_eq_false_iff_eq.mp hseq⟩

theorem Linked.seq_eq (h : Linked libs entries) {i : ℕ} (hi : i < entries.length) :
    entries[i].material.seq = i := by
  induction i with
  | zero => exact (h.genesis _ (by simp [head?_eq_getElem?])).1
  | succ i ih =>
    rw [(isChain_iff_getElem.mp h.links i hi).1, ih (Nat.lt_of_succ_lt hi)]

theorem Linked.prev_eq (h : Linked libs entries) {i : ℕ} (hi : i < entries.length) :
    entries[i].material.prev = if i = 0 then none else (entries[i - 1]?).map (·.id) := by
  cases i with
  | zero => exact (h.genesis _ (by simp [head?_eq_getElem?])).2
  | succ i =>
    rw [(isChain_iff_getElem.mp h.links i hi).2, if_neg (Nat.succ_ne_zero i),
      Nat.add_sub_cancel, getElem?_eq_getElem (Nat.lt_of_succ_lt hi), Option.map_some]

theorem exists_canonical (h : computedId libs entry = .ok entry.id) :
    ∃ bytes, libs.toCanonicalCbor entry.material = .ok bytes ∧
      hexEncode (libs.blake3 (idInput bytes)).toList = entry.id := by
  unfold computedId at h
  split at h
  case h_1 bytes hbytes => exact ⟨bytes, hbytes, Except.ok.inj h⟩
  case h_2 => cases h

variable {others : List (AuditEntry Content)}

/-- Two linked chains with the same last entry have the same content. -/
theorem Linked.materials_eq (h : Linked libs entries) (h' : Linked libs others)
    (hcontent : ∀ entry ∈ entries, ∀ other ∈ others, entry.id = other.id →
      entry.material = other.material)
    (hlen : entries.length = others.length) (hne : entries ≠ []) (hne' : others ≠ [])
    (hlast : (entries.getLast hne).id = (others.getLast hne').id) :
    entries.map (·.material) = others.map (·.material) := by
  -- The ids agree at the last entry and, through the links, at every one before.
  have hids : ∀ k i (hi) (hi' : i < others.length),
      i + k + 1 = entries.length → entries[i].id = others[i].id := by
    intro k
    induction k with
    | zero =>
      intro i hi hi' hk
      obtain rfl : i = entries.length - 1 := by omega
      rw [getLast_eq_getElem, getLast_eq_getElem] at hlast
      simpa only [hlen] using hlast
    | succ k ih =>
      intro i hi hi' hk
      have hnext := ih (i + 1) (by omega) (by omega) (by omega)
      have hprev := congrArg AuditEntryIdMaterial.prev
        (hcontent _ (getElem_mem _) _ (getElem_mem _) hnext)
      rw [(isChain_iff_getElem.mp h.links i (by omega)).2,
        (isChain_iff_getElem.mp h'.links i (by omega)).2] at hprev
      exact Option.some.inj hprev
  refine ext_getElem (by simp [hlen]) fun i hi hi' => ?_
  rw [length_map] at hi hi'
  rw [getElem_map, getElem_map]
  exact hcontent _ (getElem_mem _) _ (getElem_mem _)
    (hids (entries.length - 1 - i) i hi hi' (by omega))

end Soundness

section Honesty

variable {Content : Type} {libs : AuditLibraries Content} {entries : List (AuditEntry Content)}
  {prev : AuditEntry Content} {rest : List (AuditEntry Content)} {zone : String}

theorem forkIssues_eq_nil {seen : List (ℕ × String)} (hlinks : entries.IsChain Follows)
    (hseen : ∀ first ∈ entries.head?, ∀ pair ∈ seen, pair.1 < first.material.seq) :
    forkIssues libs seen entries = [] := by
  induction entries generalizing seen with
  | nil => rfl
  | cons entry entries ih =>
    have hnew : seen.lookup entry.material.seq = none :=
      lookup_eq_none_iff.mpr fun pair hpair => by
        have hlt := hseen entry rfl pair hpair
        simp only [bne_iff_ne]
        omega
    rw [forkIssues, hnew, ih (hlinks.tail) fun next hnext pair hpair => ?_]
    · rfl
    · obtain ⟨rest, rfl⟩ : ∃ rest, entries = next :: rest := head?_eq_some_iff.mp hnext
      have hseq := (isChain_cons_cons.mp hlinks).1.1
      rcases mem_cons.mp hpair with rfl | hpair
      · exact hseq ▸ Nat.lt_succ_self _
      · have hlt := hseen entry rfl pair hpair
        omega

theorem linkIssues_eq_nil (hlen : prev.material.seq + rest.length < 2 ^ 64)
    (hids : ∀ entry ∈ prev :: rest, computedId libs entry = .ok entry.id)
    (hlinks : (prev :: rest).IsChain Follows)
    (htimes : (prev :: rest).IsChain fun prev entry =>
      prev.material.occurredAt ≤ entry.material.occurredAt) :
    linkIssues libs prev rest = [] := by
  induction rest generalizing prev with
  | nil => rfl
  | cons entry rest ih =>
    obtain ⟨⟨hseq, hprev⟩, hlinks⟩ := isChain_cons_cons.mp hlinks
    obtain ⟨htime, htimes⟩ := isChain_cons_cons.mp htimes
    rw [length_cons] at hlen
    rw [linkIssues, if_neg (by omega), ih (by omega)
      (fun e he => hids e (mem_cons_of_mem _ he)) hlinks htimes, hseq, hprev,
      effectiveId_of_computedId (hids prev mem_cons_self)]
    simp [issueIf, htime]

theorem Honest.status_eq_ok (h : Honest libs zone entries) (hlen : entries.length < 2 ^ 64)
    {head : Option ChainHead} {zoneId : Option String} (hzone : ∀ z ∈ zoneId, z = zone)
    (hhead : ∀ tip ∈ head, ∃ hne : entries ≠ [], tip.Tip zone (entries.getLast hne)) :
    (verifyChain libs entries head zoneId).status = .ok := by
  cases entries with
  | nil =>
    cases head with
    | none => rfl
    | some tip => exact absurd rfl (hhead tip rfl).1
  | cons first rest =>
    have hsame : zoneId.getD first.material.zoneId = zone := by
      cases zoneId with
      | none => exact h.zones first mem_cons_self
      | some z => exact hzone z rfl
    have hgenesis := h.genesis first rfl
    have hid : ∀ entry ∈ first :: rest, idIssues libs entry = [] := fun entry he => by
      simp [idIssues, h.ids entry he, issueIf]
    have hzones : ∀ entry ∈ first :: rest, zoneIssues zone entry = [] := fun entry he => by
      simp [zoneIssues, h.zones entry he, issueIf]
    have htip : (head.toList.flatMap fun head => headIssues libs head zone
        ((first :: rest).getLast (cons_ne_nil _ _))) = [] := by
      refine flatMap_eq_nil_iff.mpr fun tip htip => ?_
      obtain ⟨hne, hentry, hseq, hz, hsignatures⟩ := hhead tip (Option.mem_toList.mp htip)
      simp [headIssues, issueIf, hentry, hseq, hz, hsignatures,
        effectiveId_of_computedId (h.ids _ (getLast_mem hne))]
    have hforks : forkIssues libs [] (first :: rest) = [] := forkIssues_eq_nil h.links (by simp)
    have hlinks : linkIssues libs first rest = [] :=
      linkIssues_eq_nil (by rw [hgenesis.1]; simpa using Nat.lt_of_succ_lt hlen) h.ids h.links
        h.times
    have hissues : chainIssues libs first rest head zoneId = [] := by
      simp only [chainIssues, hsame, htip, flatMap_eq_nil_iff.mpr hid,
        flatMap_eq_nil_iff.mpr hzones, hforks, hlinks, genesisIssues, hgenesis]
      rfl
    rw [verifyChain, hissues]
    rfl

end Honesty

/-- A head determines the content of every chain it lets pass; a chain that does not fail is
numbered, linked and hashed as it should be; and a chain built so is reported sound. -/
theorem chain_tamper_evident {Content : Type} (libs : AuditLibraries Content)
    (entries others : List (AuditEntry Content)) (hlen : entries.length < 2 ^ 64)
    (hlen' : others.length < 2 ^ 64)
    (hencode : ∀ m m' bytes, libs.toCanonicalCbor m = .ok bytes →
      libs.toCanonicalCbor m' = .ok bytes → m = m')
    (hblake3 : Set.InjOn libs.blake3 (idInputs libs entries ∪ idInputs libs others)) :
    (∀ head zoneId zoneId', (verifyChain libs entries (some head) zoneId).status ≠ .fail →
      (verifyChain libs others (some head) zoneId').status ≠ .fail →
      entries.length = others.length ∧ entries.map (·.material) = others.map (·.material)) ∧
    (∀ head zoneId, (verifyChain libs entries head zoneId).status ≠ .fail →
      ∀ i (hi : i < entries.length), entries[i].material.seq = i ∧
        entries[i].material.prev = (if i = 0 then none else (entries[i - 1]?).map (·.id)) ∧
        computedId libs entries[i] = .ok entries[i].id) ∧
    ∀ zone head zoneId, Honest libs zone entries → (∀ z ∈ zoneId, z = zone) →
      (∀ tip ∈ head, ∃ hne : entries ≠ [], tip.Tip zone (entries.getLast hne)) →
      (verifyChain libs entries head zoneId).status = .ok := by
  refine ⟨fun head zoneId zoneId' h h' => ?_, fun head zoneId h i hi => ?_,
    fun zone head zoneId h hzone hhead => h.status_eq_ok hlen hzone hhead⟩
  · have hlinked := linked_of_ne_fail hlen h
    have hlinked' := linked_of_ne_fail hlen' h'
    obtain ⟨hne, hid, hseq⟩ := last_of_ne_fail hlinked h
    obtain ⟨hne', hid', hseq'⟩ := last_of_ne_fail hlinked' h'
    have hpos := length_pos_iff.mpr hne
    have hpos' := length_pos_iff.mpr hne'
    rw [getLast_eq_getElem, hlinked.seq_eq] at hseq
    rw [getLast_eq_getElem, hlinked'.seq_eq] at hseq'
    have hsame : entries.length = others.length := by omega
    refine ⟨hsame, hlinked.materials_eq hlinked' (fun e he o ho heq => ?_) hsame hne hne'
      (hid.symm.trans hid')⟩
    -- entries with the same id have the same content
    obtain ⟨bytes, hbytes, hhex⟩ := exists_canonical (hlinked.ids e he)
    obtain ⟨bytes', hbytes', hhex'⟩ := exists_canonical (hlinked'.ids o ho)
    have hinput := hblake3 (.inl ⟨e, he, bytes, hbytes, rfl⟩) (.inr ⟨o, ho, bytes', hbytes', rfl⟩)
      (Vector.eq _ _ (hexEncode_inj (hhex.trans (heq.trans hhex'.symm))))
    rw [append_cancel_left hinput] at hbytes
    exact hencode _ _ _ hbytes hbytes'
  · have hlinked := linked_of_ne_fail hlen h
    exact ⟨hlinked.seq_eq hi, hlinked.prev_eq hi, hlinked.ids _ (getElem_mem hi)⟩

/-- The hashed fields of the entry that creates `z:work`. -/
def createdMaterial : AuditEntryIdMaterial Unit := ⟨"z:work", 0, 1000, none, ()⟩

/-- Its canonical encoding, and BLAKE3 of it. -/
def createdLibraries : AuditLibraries Unit where
  toCanonicalCbor material :=
    if material = createdMaterial then
      .ok (beBytes 209 0xad63686c63a3676c6f676963616c00676e6f64655f6964666e6f64653a616b706879736963616c5f6d731a000f424063736571006470726576f6656163746f72666e6f64653a61677a6f6e655f6964667a3a776f726b686d65746164617461a068736576657269747964696e666f6a6576656e745f747970656c7a6f6e652e637265617465646b6f636375727265645f61741903e86c636f6e6e6563746f725f6964f66c6f7065726174696f6e5f6964f66d74726163655f636f6e74657874f66e636f7272656c6174696f6e5f69646163)
    else .error "unsupported"
  blake3 _ :=
    arrayOf 32 (beBytes 32 0xc09ea96d1073228f4abc4ab9454507df46371fa9e15ba4376d947f8d1eed948d)

def createdEntry : AuditEntry Unit where
  id := "c09ea96d1073228f4abc4ab9454507df46371fa9e15ba4376d947f8d1eed948d"
  material := createdMaterial

/-- The chain of that entry, with its head, is reported sound. -/
theorem created_chain_sound : (verifyChain createdLibraries [createdEntry]
    (some ⟨"z:work", createdEntry.id, 0, 0, []⟩) none).status = .ok := by
  refine (chain_tamper_evident createdLibraries [createdEntry] [createdEntry] (by simp) (by simp)
    (fun m m' bytes h h' => ?_) ?_).2.2 "z:work" _ _
    ⟨⟨?_, ?_, List.IsChain.singleton _⟩, ?_, List.IsChain.singleton _⟩ (by simp) ?_
  · unfold createdLibraries at h h'
    dsimp only at h h'
    split_ifs at h h' with hm hm'
    exact hm.trans hm'.symm
  · rw [Set.union_self]
    rintro _ ⟨e, he, bytes, hbytes, rfl⟩ _ ⟨o, ho, bytes', hbytes', rfl⟩ -
    rw [mem_singleton.mp he] at hbytes
    rw [mem_singleton.mp ho, hbytes] at hbytes'
    rw [Except.ok.inj hbytes']
  · intro entry he
    rw [mem_singleton.mp he]
    decide +kernel
  · simp [createdEntry, createdMaterial]
  · simp [createdEntry, createdMaterial]
  · intro tip htip
    obtain rfl := Option.mem_some_iff.mp htip
    exact ⟨cons_ne_nil _ _, rfl, rfl, rfl, rfl⟩

end Flywheel.Core
