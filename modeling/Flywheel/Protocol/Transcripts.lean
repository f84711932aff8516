import Flywheel.Core.ZoneIds

/-!
# Signing transcripts of the symbol control plane

`SymbolRequest`, `DecodeStatus` and `SymbolAck` of `fcp-protocol` are signed over
a byte string built from their fields. A message is modelled by the fields its
transcript reads; the object header and the signature are not among them. An
absent hint and an empty one are written the same way, so the transcript binds
the fields of a message exactly when its hint is present and not empty.
-/

namespace Flywheel.Protocol

open Flywheel.Data Flywheel.Core List

/-- `u32::try_from(len).unwrap_or(u32::MAX)` as four little-endian bytes. -/
def lenBytes (len : ℕ) : List UInt8 := leBytes 4 (min len (2 ^ 32 - 1))

/-- The hint part of a transcript: count and entries, or a count of zero. -/
def hintBytes : Option (List UInt32) → List UInt8
  | some hints => lenBytes hints.length ++ hints.flatMap fun esi => leBytes 4 esi.toNat
  | none => leBytes 4 0

/-- `SymbolRequest`, as far as its transcript reads it. -/
@[ext] structure SymbolRequest where
  objectId : ObjectId
  zoneId : CanonicalZoneId
  zoneKeyId : Bytes 8
  epochId : UInt64
  maxSymbols : UInt32
  missingHint : Option (List UInt32)
  currentSymbols : UInt32
  deriving DecidableEq

/-- `DecodeStatus`, as far as its transcript reads it. -/
@[ext] structure DecodeStatus where
  objectId : ObjectId
  zoneId : CanonicalZoneId
  zoneKeyId : Bytes 8
  epochId : UInt64
  recipientNodeId : NodeId
  requestNonce : UInt64
  receivedUnique : UInt32
  needed : UInt32
  complete : Bool
  missingHint : Option (List UInt32)
  deriving DecidableEq

inductive SymbolAckReason
  | complete
  | cancelled
  | duplicate
  | budgetExceeded
  deriving DecidableEq

/-- `reason as u8`. -/
def SymbolAckReason.asU8 : SymbolAckReason → UInt8
  | .complete => 0
  | .cancelled => 1
  | .duplicate => 2
  | .budgetExceeded => 3

/-- `SymbolAck`, as far as its transcript reads it. -/
@[ext] structure SymbolAck where
  objectId : ObjectId
  zoneId : CanonicalZoneId
  zoneKeyId : Bytes 8
  epochId : UInt64
  recipientNodeId : NodeId
  requestNonce : UInt64
  reason : SymbolAckReason
  finalSymbolCount : UInt32
  deriving DecidableEq

def lenPrefixed (text : String) : List UInt8 := lenBytes (utf8 text).length ++ utf8 text

/-- The part every transcript starts with after its domain tag. -/
def contextBytes (objectId : ObjectId) (zoneId : CanonicalZoneId) (zoneKeyId : Bytes 8)
    (epochId : UInt64) : List UInt8 :=
  objectId.toList ++ (lenPrefixed zoneId.1 ++ (zoneKeyId.toList ++ leBytes 8 epochId.toNat))

variable (m : SymbolRequest)

def SymbolRequest.transcriptBytes : List UInt8 :=
  utf8 "FCP2-SYMBOL-REQ-V1" ++ (contextBytes m.objectId m.zoneId m.zoneKeyId m.epochId ++
    (leBytes 4 m.maxSymbols.toNat ++ (leBytes 4 m.currentSymbols.toNat ++
    hintBytes m.missingHint)))

def SymbolRequest.hasProofOfNeed : Bool := m.missingHint.isSome

def DecodeStatus.transcriptBytes (m : DecodeStatus) : List UInt8 :=
  utf8 "FCP2-DECODE-STATUS-V2" ++ (contextBytes m.objectId m.zoneId m.zoneKeyId m.epochId ++
    (lenPrefixed m.recipientNodeId ++ (leBytes 8 m.requestNonce.toNat ++
    (leBytes 4 m.receivedUnique.toNat ++ (leBytes 4 m.needed.toNat ++
    ([m.complete.toUInt8] ++ hintBytes m.missingHint))))))

def SymbolAck.transcriptBytes (m : SymbolAck) : List UInt8 :=
  utf8 "FCP2-SYMBOL-ACK-V2" ++ (contextBytes m.objectId m.zoneId m.zoneKeyId m.epochId ++
    (lenPrefixed m.recipientNodeId ++ (leBytes 8 m.requestNonce.toNat ++
    ([m.reason.asU8] ++ leBytes 4 m.finalSymbolCount.toNat))))

@[simp] theorem lenBytes_length (len : ℕ) : (lenBytes len).length = 4 := leBytes_length 4 _
variable {s t : List UInt8}

theorem leBytes_append_inj {width v w : ℕ} (hv : v < 256 ^ width)
    (hw : w < 256 ^ width) (h : leBytes width v ++ s = leBytes width w ++ t) : v = w ∧ s = t := by
  obtain ⟨hword, hrest⟩ := append_inj h (by simp)
  exact ⟨leBytes_inj hv hw hword, hrest⟩

theorem UInt32.leBytes_append_inj {v w : UInt32}
    (h : leBytes 4 v.toNat ++ s = leBytes 4 w.toNat ++ t) : v = w ∧ s = t := by
  obtain ⟨hval, hrest⟩ := Protocol.leBytes_append_inj v.toNat_lt w.toNat_lt h
  exact ⟨UInt32.toNat_inj.mp hval, hrest⟩

theorem UInt64.leBytes_append_inj {v w : UInt64}
    (h : leBytes 8 v.toNat ++ s = leBytes 8 w.toNat ++ t) : v = w ∧ s = t := by
  obtain ⟨hval, hrest⟩ := Protocol.leBytes_append_inj v.toNat_lt w.toNat_lt h
  exact ⟨UInt64.toNat_inj.mp hval, hrest⟩

theorem bytes_append_inj {n : ℕ} {a b : Bytes n}
    (h : a.toList ++ s = b.toList ++ t) : a = b ∧ s = t := by
  obtain ⟨harray, hrest⟩ := append_inj h (by simp)
  exact ⟨Vector.eq _ _ harray, hrest⟩

theorem lenPrefixed_append_inj {x y : String}
    (hlen : (utf8 x).length = (utf8 y).length) (h : lenPrefixed x ++ s = lenPrefixed y ++ t) :
    x = y ∧ s = t := by
  rw [lenPrefixed, lenPrefixed, append_assoc, append_assoc] at h
  obtain ⟨-, hrest⟩ := append_inj h (by simp)
  obtain ⟨htext, hrest⟩ := append_inj hrest hlen
  exact ⟨utf8_injective htext, hrest⟩

theorem lenPrefixed_append_min {x y : String} (h : lenPrefixed x ++ s = lenPrefixed y ++ t) :
    min (utf8 x).length (2 ^ 32 - 1) = min (utf8 y).length (2 ^ 32 - 1) := by
  rw [lenPrefixed, lenPrefixed, append_assoc, append_assoc] at h
  exact leBytes_inj (by omega) (by omega) (append_inj h (by simp)).1

/-- The context fields are read back from the front of a string: a canonical
zone id is too short for its length to saturate. -/
theorem contextBytes_append_inj {o o' : ObjectId} {z z' : CanonicalZoneId} {k k' : Bytes 8}
    {e e' : UInt64} (h : contextBytes o z k e ++ s = contextBytes o' z' k' e' ++ t) :
    o = o' ∧ z = z' ∧ k = k' ∧ e = e' ∧ s = t := by
  simp only [contextBytes, append_assoc] at h
  obtain ⟨hobject, h⟩ := bytes_append_inj h
  have hmin := lenPrefixed_append_min h
  have hz := z.length_le
  obtain ⟨hzone, h⟩ := lenPrefixed_append_inj (by omega) h
  obtain ⟨hkey, h⟩ := bytes_append_inj h
  obtain ⟨hepoch, h⟩ := UInt64.leBytes_append_inj h
  exact ⟨hobject, Subtype.ext hzone, hkey, hepoch, h⟩

theorem toUInt8_inj : ∀ {a b : Bool}, a.toUInt8 = b.toUInt8 → a = b := by decide

theorem SymbolAckReason.asU8_inj {r r' : SymbolAckReason} (h : r.asU8 = r'.asU8) : r = r' := by
  cases r <;> cases r' <;> first | rfl | exact absurd h (by decide)

theorem append_ne_append {a b : List UInt8} {i : ℕ} {x y : UInt8} (ha : a[i]? = some x)
    (hb : b[i]? = some y) (hxy : x ≠ y) : a ++ s ≠ b ++ t := by
  intro h
  have hget := congrArg (fun l => l[i]?) h
  simp only [List.getElem?_append_left (List.getElem?_eq_some_iff.mp ha).1,
    List.getElem?_append_left (List.getElem?_eq_some_iff.mp hb).1, ha, hb] at hget
  exact hxy (Option.some.inj hget)

/-- A hint is written by the count and the entries of the list it stands for. -/
theorem hintBytes_eq (hint : Option (List UInt32)) :
    hintBytes hint = lenBytes (hint.getD []).length ++
      (hint.getD []).flatMap fun esi => leBytes 4 esi.toNat := by
  cases hint with
  | none => rfl
  | some hints => rfl

/-- Two hints are written the same way exactly when they list the same entries:
an absent hint and an empty one do. -/
theorem hintBytes_inj_iff {hint hint' : Option (List UInt32)} :
    hintBytes hint = hintBytes hint' ↔ hint.getD [] = hint'.getD [] := by
  rw [hintBytes_eq, hintBytes_eq]
  constructor
  · intro h
    exact flatMap_inj (by simp [leBytes]) (fun _ _ _ _ _ _ => UInt32.leBytes_append_inj)
      (append_inj h (by simp)).2
  · intro h
    rw [h]

/-- A hint that is present and not empty. -/
def HintPresent (hint : Option (List UInt32)) : Prop := ∃ hints, hints ≠ [] ∧ hint = some hints

/-- A hint is determined by the entries it lists exactly when it lists some. -/
theorem hint_determined_iff {hint : Option (List UInt32)} :
    (∀ hint' : Option (List UInt32), hint.getD [] = hint'.getD [] → hint = hint') ↔
      HintPresent hint := by
  constructor
  · intro h
    match hint with
    | none => exact absurd (h (some []) rfl) (by simp)
    | some [] => exact absurd (h none rfl) (by simp)
    | some (e :: es) => exact ⟨e :: es, cons_ne_nil e es, rfl⟩
  · rintro ⟨hints, hne, rfl⟩ hint' h
    cases hint' with
    | none => exact absurd h hne
    | some hints' => exact congrArg some h

/-- Two requests have the same transcript exactly when they differ at most in how
an empty hint is represented. -/
theorem SymbolRequest.transcriptBytes_eq_iff (m m' : SymbolRequest) :
    m.transcriptBytes = m'.transcriptBytes ↔
      m'.missingHint.getD [] = m.missingHint.getD [] ∧
      m' = { m with missingHint := m'.missingHint } := by
  constructor
  · intro h
    obtain ⟨-, h⟩ := append_inj h rfl
    obtain ⟨hobject, hzone, hkey, hepoch, h⟩ := contextBytes_append_inj h
    obtain ⟨hmax, h⟩ := UInt32.leBytes_append_inj h
    obtain ⟨hcurrent, h⟩ := UInt32.leBytes_append_inj h
    refine ⟨(hintBytes_inj_iff.mp h).symm, ?_⟩
    ext1
    exacts [hobject.symm, hzone.symm, hkey.symm, hepoch.symm, hmax.symm, rfl, hcurrent.symm]
  · rintro ⟨hhint, hm⟩
    rw [hm]
    simp only [transcriptBytes, hintBytes_inj_iff.mpr hhint]

/-- The transcript of an acknowledgment determines it. The recipient's length may
saturate, but every other field has a known length. -/
theorem SymbolAck.transcriptBytes_injective {m m' : SymbolAck}
    (h : m.transcriptBytes = m'.transcriptBytes) : m = m' := by
  have hlen := congrArg length h
  obtain ⟨-, h⟩ := append_inj h rfl
  obtain ⟨hobject, hzone, hkey, hepoch, h⟩ := contextBytes_append_inj h
  have hrecipient : (utf8 m.recipientNodeId).length = (utf8 m'.recipientNodeId).length := by
    simp only [transcriptBytes, contextBytes, lenPrefixed, hobject, hzone, hkey,
      length_append, lenBytes_length, leBytes_length, length_singleton] at hlen
    omega
  obtain ⟨hrecipient, h⟩ := lenPrefixed_append_inj hrecipient h
  obtain ⟨hnonce, h⟩ := UInt64.leBytes_append_inj h
  obtain ⟨hreason, h⟩ := append_inj h rfl
  have hcount : m.finalSymbolCount = m'.finalSymbolCount :=
    UInt32.toNat_inj.mp (leBytes_inj m.finalSymbolCount.toNat_lt m'.finalSymbolCount.toNat_lt h)
  have hreason := SymbolAckReason.asU8_inj (singleton_inj.mp hreason)
  ext1
  exacts [hobject, hzone, hkey, hepoch, hrecipient, hnonce, hreason, hcount]

/-- Two statuses whose recipient's length does not saturate have the same
transcript exactly when they differ at most in how an empty hint is represented. -/
theorem DecodeStatus.transcriptBytes_eq_iff {m : DecodeStatus} (m' : DecodeStatus)
    (hshort : (utf8 m.recipientNodeId).length < 2 ^ 32 - 1) :
    m.transcriptBytes = m'.transcriptBytes ↔
      m'.missingHint.getD [] = m.missingHint.getD [] ∧
      m' = { m with missingHint := m'.missingHint } := by
  constructor
  · intro h
    obtain ⟨-, h⟩ := append_inj h rfl
    obtain ⟨hobject, hzone, hkey, hepoch, h⟩ := contextBytes_append_inj h
    have hmin := lenPrefixed_append_min h
    obtain ⟨hrecipient, h⟩ := lenPrefixed_append_inj (by omega) h
    obtain ⟨hnonce, h⟩ := UInt64.leBytes_append_inj h
    obtain ⟨hreceived, h⟩ := UInt32.leBytes_append_inj h
    obtain ⟨hneeded, h⟩ := UInt32.leBytes_append_inj h
    obtain ⟨hcomplete, h⟩ := append_inj h rfl
    have hcomplete := toUInt8_inj (singleton_inj.mp hcomplete)
    refine ⟨(hintBytes_inj_iff.mp h).symm, ?_⟩
    ext1
    exacts [hobject.symm, hzone.symm, hkey.symm, hepoch.symm, hrecipient.symm, hnonce.symm,
      hreceived.symm, hneeded.symm, hcomplete.symm, rfl]
  · rintro ⟨hhint, hm⟩
    rw [hm]
    simp only [transcriptBytes, hintBytes_inj_iff.mpr hhint]

/-- A request is determined by its transcript exactly when it carries a hint. -/
theorem SymbolRequest.determined_iff :
    (∀ m' : SymbolRequest, m.transcriptBytes = m'.transcriptBytes → m = m') ↔
      HintPresent m.missingHint := by
  rw [← hint_determined_iff]
  constructor
  · intro h hint' hsame
    have hm := h { m with missingHint := hint' }
      ((transcriptBytes_eq_iff _ _).mpr ⟨hsame.symm, rfl⟩)
    exact congrArg missingHint hm
  · intro h m' hsame
    obtain ⟨hhint, hm⟩ := (transcriptBytes_eq_iff m m').mp hsame
    rw [hm, ← h m'.missingHint hhint.symm]

/-- The proof of need of a request is determined by its transcript exactly when
the request carries a hint. -/
theorem SymbolRequest.proofOfNeed_determined_iff :
    (∀ m' : SymbolRequest, m.transcriptBytes = m'.transcriptBytes →
      m.hasProofOfNeed = m'.hasProofOfNeed) ↔ HintPresent m.missingHint := by
  constructor
  · intro h
    -- With no entries to write, the other representation flips the verdict.
    match hhint : m.missingHint with
    | none =>
      have hsame := h { m with missingHint := some [] }
        ((transcriptBytes_eq_iff _ _).mpr ⟨by simp [hhint], rfl⟩)
      simp [hasProofOfNeed, hhint] at hsame
    | some [] =>
      have hsame := h { m with missingHint := none }
        ((transcriptBytes_eq_iff _ _).mpr ⟨by simp [hhint], rfl⟩)
      simp [hasProofOfNeed, hhint] at hsame
    | some (e :: es) => exact ⟨e :: es, cons_ne_nil e es, rfl⟩
  · intro h m' hsame
    rw [m.determined_iff.mpr h m' hsame]

/-- A status whose recipient's length does not saturate is determined by its
transcript exactly when it carries a hint. -/
theorem DecodeStatus.determined_iff {m : DecodeStatus}
    (hshort : (utf8 m.recipientNodeId).length < 2 ^ 32 - 1) :
    (∀ m' : DecodeStatus, m.transcriptBytes = m'.transcriptBytes → m = m') ↔
      HintPresent m.missingHint := by
  rw [← hint_determined_iff]
  constructor
  · intro h hint' hsame
    have hm := h { m with missingHint := hint' }
      ((transcriptBytes_eq_iff _ hshort).mpr ⟨hsame.symm, rfl⟩)
    exact congrArg missingHint hm
  · intro h m' hsame
    obtain ⟨hhint, hm⟩ := (transcriptBytes_eq_iff m' hshort).mp hsame
    rw [hm, ← h m'.missingHint hhint.symm]

theorem exists_utf8_length (n : ℕ) : ∃ text : String, (utf8 text).length = n := by
  induction n with
  | zero => exact ⟨"", by decide +kernel⟩
  | succ n ih =>
    obtain ⟨text, htext⟩ := ih
    have hone : (utf8 "a").length = 1 := by decide +kernel
    exact ⟨text ++ "a", by rw [utf8_append, length_append, htext, hone]⟩

/-- A status whose nonce begins with the bytes of `aaaa` and whose one hint entry is zero. -/
def inlinedStatus (recipient : NodeId) : DecodeStatus :=
  { objectId := arrayOf 32 [], zoneId := .work, zoneKeyId := arrayOf 8 [], epochId := 0
    recipientNodeId := recipient, requestNonce := 0x61616161, receivedUnique := 0, needed := 0
    complete := false, missingHint := some [0] }

/-- The status that reads four bytes of that nonce as part of the recipient. -/
def extendedStatus (recipient : NodeId) : DecodeStatus :=
  { objectId := arrayOf 32 [], zoneId := .work, zoneKeyId := arrayOf 8 [], epochId := 0
    recipientNodeId := recipient ++ "aaaa", requestNonce := 0, receivedUnique := 0, needed := 256
    complete := false, missingHint := none }

/-- Transcripts bind exactly the messages with a hint. An acknowledgment is
determined by its transcript, and transcripts of different message types never
agree. A request, or a status whose recipient has fewer than `2^32 - 1` bytes, is
determined by its transcript exactly when its hint is present and not empty, and
so is the proof of need of a request. For every longer recipient some status with
a hint shares its transcript with another one. -/
theorem transcripts_bind (r : SymbolRequest) (d : DecodeStatus) (a : SymbolAck) :
    (∀ a' : SymbolAck, a.transcriptBytes = a'.transcriptBytes → a = a') ∧
    (r.transcriptBytes ≠ d.transcriptBytes ∧ r.transcriptBytes ≠ a.transcriptBytes ∧
      d.transcriptBytes ≠ a.transcriptBytes) ∧
    ((∀ r' : SymbolRequest, r.transcriptBytes = r'.transcriptBytes → r = r') ↔
      HintPresent r.missingHint) ∧
    ((∀ r' : SymbolRequest, r.transcriptBytes = r'.transcriptBytes →
      r.hasProofOfNeed = r'.hasProofOfNeed) ↔ HintPresent r.missingHint) ∧
    ((utf8 d.recipientNodeId).length < 2 ^ 32 - 1 →
      ((∀ d' : DecodeStatus, d.transcriptBytes = d'.transcriptBytes → d = d') ↔
        HintPresent d.missingHint)) ∧
    (∀ n, 2 ^ 32 - 1 ≤ n → ∃ m m' : DecodeStatus, (utf8 m.recipientNodeId).length = n ∧
      HintPresent m.missingHint ∧ m.transcriptBytes = m'.transcriptBytes ∧ m ≠ m') := by
  refine ⟨fun a' h => SymbolAck.transcriptBytes_injective h, ⟨?_, ?_, ?_⟩,
    SymbolRequest.determined_iff r, SymbolRequest.proofOfNeed_determined_iff r,
    fun hshort => DecodeStatus.determined_iff hshort, ?_⟩
  · exact @append_ne_append _ _ _ _ 5 83 68 (by decide +kernel) (by decide +kernel) (by decide)
  · exact @append_ne_append _ _ _ _ 12 82 65 (by decide +kernel) (by decide +kernel) (by decide)
  · exact @append_ne_append _ _ _ _ 5 68 83 (by decide +kernel) (by decide +kernel) (by decide)
  intro n hn
  obtain ⟨recipient, hlen⟩ := exists_utf8_length n
  refine ⟨inlinedStatus recipient, extendedStatus recipient, hlen,
    ⟨[0], cons_ne_nil 0 [], rfl⟩, ?_, fun heq => ?_⟩
  · -- The length saturates: bytes move between the recipient and the fields behind it.
    have hsame : lenBytes (utf8 recipient ++ utf8 "aaaa").length =
        lenBytes (utf8 recipient).length := by
      rw [length_append, lenBytes]
      congr 1
      omega
    have htail : leBytes 8 (0x61616161 : UInt64).toNat ++ (leBytes 4 (0 : UInt32).toNat ++
        (leBytes 4 (0 : UInt32).toNat ++ ([false.toUInt8] ++ hintBytes (some [0])))) =
        utf8 "aaaa" ++ (leBytes 8 (0 : UInt64).toNat ++ (leBytes 4 (0 : UInt32).toNat ++
        (leBytes 4 (256 : UInt32).toNat ++ ([false.toUInt8] ++ hintBytes none)))) := by
      decide +kernel
    simp only [DecodeStatus.transcriptBytes, inlinedStatus, extendedStatus, lenPrefixed, hsame,
      htail, utf8_append, append_assoc]
  · have hneeded : (0 : UInt32) = 256 := congrArg DecodeStatus.needed heq
    exact absurd hneeded (by decide)

/-- A request of a work zone, without or with a hint list. -/
def workRequest (hint : Option (List UInt32)) : SymbolRequest :=
  { objectId := arrayOf 32 [], zoneId := .work, zoneKeyId := arrayOf 8 [], epochId := 1
    maxSymbols := 32, missingHint := hint, currentSymbols := 0 }

/-- A request without a hint and one with an empty hint list are signed over the
same bytes, and only one of them claims a proof of need. -/
theorem workRequest_empty_hint_collides :
    (workRequest none).transcriptBytes = (workRequest (some [])).transcriptBytes ∧
      workRequest none ≠ workRequest (some []) ∧
      (workRequest none).hasProofOfNeed = false ∧
      (workRequest (some [])).hasProofOfNeed = true := by
  decide +kernel

end Flywheel.Protocol
