import Flywheel.Raptorq.Reconstruct

/-!
# Runs of the decoder

A run hands arrivals to a decoder one by one. A call either accepts a symbol, which is then buffered
and followed by an attempt if one is due, or it leaves the decoder as it was. On what one encoder
emits the buffer stays honest, and it fills up with the symbols that arrive in time.
-/

namespace Flywheel.Raptorq

open Flywheel.Data RaptorQDecoder ObjectTransmissionInformation Symbol List

/-- A symbol that arrives at a decoder. -/
structure Arrival where
  elapsed : ℕ
  esi : UInt32
  data : List UInt8

section Bounds

/-- The bytes a decoder may use for an object of the largest configured size. -/
def RaptorQConfig.byteAllowance (config : RaptorQConfig) : ℕ :=
  maxSymbolsWithHeadroom config.maxObjectSize.toNat config.symbolSize.toNat config.repairRatioBps *
    max config.symbolSize.toNat 1

namespace ObjectTransmissionInformation

variable {oti : ObjectTransmissionInformation} {config : RaptorQConfig}

/-- The object is within the bounds of a configuration. -/
structure WithinBounds (oti : ObjectTransmissionInformation) (config : RaptorQConfig) : Prop where
  length_le : oti.transferLength.toNat ≤ config.maxObjectSize.toNat
  /-- The object does not have more source symbols than the largest one. -/
  k_le : oti.k ≤ config.sourceSymbols config.maxObjectSize.toNat
  /-- The object's symbols do not need more bytes than those of the largest one. -/
  bytes_le : oti.byteLimit config ≤ config.byteAllowance

/-- The bounds check passes exactly within the bounds. -/
theorem validateDecodeBounds_iff (h : oti.validateTransmissionInfo = .ok ()) :
    oti.validateDecodeBounds config = .ok () ↔ oti.WithinBounds config := by
  simp only [validateDecodeBounds, h, maxBufferBytesForBudget_eq]
  change (if config.maxObjectSize.toNat < oti.transferLength.toNat then _ else
    if config.sourceSymbols config.maxObjectSize.toNat < oti.k then _ else
    if config.byteAllowance < oti.byteLimit config then _ else _) = _ ↔ _
  split_ifs with hlength hk hbytes
  · exact ⟨nofun, fun h => absurd h.length_le (by omega)⟩
  · exact ⟨nofun, fun h => absurd h.k_le (by omega)⟩
  · exact ⟨nofun, fun h => absurd h.bytes_le (by omega)⟩
  · exact ⟨fun _ => ⟨by omega, by omega, by omega⟩, fun _ => rfl⟩

end ObjectTransmissionInformation

end Bounds

namespace RaptorQDecoder

variable {oti : ObjectTransmissionInformation} {config : RaptorQConfig}

section Calls

variable (dec : RaptorQDecoder oti config) (blake3 : List UInt8 → Bytes 32)

def esis : List UInt32 := dec.received.map Prod.fst

def receive (a : Arrival) : Except DecodeError (Option (List UInt8)) × RaptorQDecoder oti config :=
  dec.addSymbol blake3 a.elapsed a.esi a.data

def feed (arrivals : List Arrival) : RaptorQDecoder oti config :=
  arrivals.foldl (fun dec a => (dec.receive blake3 a).2) dec

/-- What the calls for some arrivals return. -/
def responses (dec : RaptorQDecoder oti config) :
    List Arrival → List (Except DecodeError (Option (List UInt8)))
  | [] => []
  | a :: rest => (dec.receive blake3 a).1 :: (dec.receive blake3 a).2.responses rest

/-- A response is that of a call somewhere in the run. -/
theorem mem_responses {arrivals : List Arrival} {r : Except DecodeError (Option (List UInt8))}
    {dec : RaptorQDecoder oti config} :
    r ∈ dec.responses blake3 arrivals ↔ ∃ before a after, arrivals = before ++ a :: after ∧
      ((dec.feed blake3 before).receive blake3 a).1 = r := by
  induction arrivals generalizing dec with
  | nil => simp [responses]
  | cons head rest ih =>
    rw [responses, mem_cons, ih]
    constructor
    · rintro (rfl | ⟨before, a, after, rfl, hr⟩)
      · exact ⟨[], head, rest, rfl, rfl⟩
      · exact ⟨head :: before, a, after, rfl, hr⟩
    · rintro ⟨before, a, after, heq, hr⟩
      cases before with
      | nil =>
        cases heq
        exact .inl hr.symm
      | cons head' before =>
        cases heq
        exact .inr ⟨before, a, after, rfl, hr⟩

theorem feed_append_singleton (arrivals : List Arrival) (a : Arrival) :
    dec.feed blake3 (arrivals ++ [a]) = ((dec.feed blake3 arrivals).receive blake3 a).2 := by
  rw [feed, foldl_append]
  rfl

variable {dec} {blake3} {a : Arrival}

structure Accepts (dec : RaptorQDecoder oti config) (a : Arrival) : Prop where
  in_time : a.elapsed ≤ config.decodeTimeout
  bounds : oti.validateDecodeBounds config = .ok ()
  nonempty : ¬ (oti.transferLength = 0 ∨ oti.k = 0)
  size : a.data.length = oti.symbolSize.toNat
  fresh : a.esi ∉ dec.esis
  room : dec.received.length < oti.symbolLimit config

variable {esi : UInt32}

theorem lookup_eq_none_iff : dec.received.lookup esi = none ↔ esi ∉ dec.esis := by
  rw [List.lookup_eq_none_iff, esis, List.mem_map]
  constructor
  · rintro h ⟨p, hp, rfl⟩
    simpa using h p hp
  · intro h p hp
    simpa using fun heq => h ⟨p, hp, heq.symm⟩

theorem receive_of_accepts (h : dec.Accepts a) :
    dec.receive blake3 a = dec.bufferSymbol blake3 a.esi (ofBytes a.data h.size) := by
  have hingress : oti.validateSymbolIngress a.data = .ok (ofBytes a.data h.size) := by
    simp only [validateSymbolIngress]
    rw [if_neg h.nonempty, dif_pos h.size]
  have hroom : oti.validateDirectBufferCapacity config dec.received.length = .ok () := by
    rw [validateDirectBufferCapacity_eq,
      if_neg (Nat.not_le.mpr h.room)]
  rw [receive, addSymbol, if_neg (Nat.not_lt.mpr h.in_time)]
  simp only [h.bounds, hingress, lookup_eq_none_iff.mpr h.fresh, hroom]

/-- A call that does not buffer its symbol leaves the decoder as it was. It returns an error unless
the index is buffered already. -/
theorem receive_of_not_accepts (blake3 : List UInt8 → Bytes 32) (h : ¬ dec.Accepts a) :
    (dec.receive blake3 a).2 = dec ∧
      ((∃ err, (dec.receive blake3 a).1 = .error err) ∨
        ((dec.receive blake3 a).1 = .ok none ∧ a.esi ∈ dec.esis)) := by
  rw [receive, addSymbol]
  split_ifs with htime
  · exact ⟨rfl, .inl ⟨_, rfl⟩⟩
  split
  · exact ⟨rfl, .inl ⟨_, rfl⟩⟩
  rename_i hbounds
  split
  · exact ⟨rfl, .inl ⟨_, rfl⟩⟩
  rename_i sym hingress
  split
  · rename_i existing hlookup
    have hmem : a.esi ∈ dec.esis := by
      by_contra hnot
      cases (lookup_eq_none_iff.mpr hnot).symm.trans hlookup
    split_ifs
    · exact ⟨rfl, .inl ⟨_, rfl⟩⟩
    · exact ⟨rfl, .inr ⟨rfl, hmem⟩⟩
  rename_i hlookup
  split
  · exact ⟨rfl, .inl ⟨_, rfl⟩⟩
  rename_i hroom
  rw [validateDirectBufferCapacity_eq] at hroom
  split_ifs at hroom with hfull
  simp only [validateSymbolIngress] at hingress
  split_ifs at hingress with hempty hsize
  exact absurd ⟨by omega, hbounds, hempty, hsize, lookup_eq_none_iff.mp hlookup, by omega⟩ h

/-- Buffering a symbol and attempting a reconstruction if one is due. -/
theorem bufferSymbol_eq {sym : Symbol oti.symbolSize.toNat} :
    dec.bufferSymbol blake3 esi sym =
      if (dec.insert esi sym).shouldAttemptDecode esi then
        (dec.insert esi sym).attemptReconstruct blake3
      else (.ok none, dec.insert esi sym) := by
  simp only [bufferSymbol]
  by_cases hcount : (dec.insert esi sym).receivedCount < oti.k
  · have hnot : (dec.insert esi sym).shouldAttemptDecode esi = false := by
      rw [shouldAttemptDecode, if_pos hcount]
    rw [if_pos hcount, hnot]
    rfl
  · rw [if_neg hcount]

theorem k_le_of_shouldAttemptDecode (h : dec.shouldAttemptDecode esi = true) :
    oti.k ≤ dec.received.length := by
  have hcount : ¬ dec.receivedCount < oti.k := fun hcount => by
    rw [shouldAttemptDecode, if_pos hcount] at h
    cases h
  rw [receivedCount] at hcount
  omega

theorem received_receive (blake3 : List UInt8 → Bytes 32) (h : dec.Accepts a) :
    (dec.receive blake3 a).2.received =
      insertSymbol a.esi (ofBytes a.data h.size) dec.received := by
  rw [receive_of_accepts h, bufferSymbol_eq]
  split_ifs
  · simp only [attemptReconstruct]
    split <;> rfl
  · rfl

theorem fst_attemptReconstruct :
    (dec.attemptReconstruct blake3).1 =
      match dec.tryReconstruct blake3 with
      | .ok payload => .ok (some payload)
      | .error (.insufficientSymbols _ _) => .ok none
      | .error err => .error err := by
  simp only [attemptReconstruct]
  cases dec.tryReconstruct blake3 with
  | ok payload => rfl
  | error err => cases err <;> rfl

/-- A payload is only returned by an attempt after its call's symbol was buffered. -/
theorem exists_attempt_of_response {payload : List UInt8}
    (h : (dec.receive blake3 a).1 = .ok (some payload)) :
    ∃ haccepts : dec.Accepts a,
      (dec.insert a.esi (ofBytes a.data haccepts.size)).shouldAttemptDecode a.esi = true ∧
      (dec.insert a.esi (ofBytes a.data haccepts.size)).tryReconstruct blake3 =
        .ok payload := by
  by_cases haccepts : dec.Accepts a
  · rw [receive_of_accepts haccepts, bufferSymbol_eq] at h
    split_ifs at h with hdue
    · rw [fst_attemptReconstruct] at h
      split at h <;> cases h
      rename_i hattempt
      exact ⟨haccepts, hdue, hattempt⟩
    · cases h
  · rcases (receive_of_not_accepts blake3 haccepts).2 with ⟨err, herr⟩ | ⟨hnone, -⟩
    · cases herr.symm.trans h
    · cases hnone.symm.trans h

end Calls

variable {esi : UInt32}

/-- A fresh symbol is added to the buffer. -/
theorem insertSymbol_perm {α : Type*} {data : α} {received : List (UInt32 × α)}
    (hfresh : esi ∉ received.map Prod.fst) :
    (insertSymbol esi data received).Perm ((esi, data) :: received) := by
  induction received with
  | nil => exact Perm.refl _
  | cons head rest ih =>
    obtain ⟨esi', data'⟩ := head
    obtain ⟨hne, hrest⟩ : esi ≠ esi' ∧ esi ∉ rest.map Prod.fst := by
      rwa [map_cons, mem_cons, not_or] at hfresh
    rw [insertSymbol]
    split_ifs
    · exact Perm.refl _
    · exact ((ih hrest).cons _).trans (Perm.swap ..)

variable {dec : RaptorQDecoder oti config} {blake3 : List UInt8 → Bytes 32} {a : Arrival}
  (sym : Symbol oti.symbolSize.toNat)

theorem esis_insert (hfresh : esi ∉ dec.esis) : (dec.insert esi sym).esis.Perm (esi :: dec.esis) :=
  (insertSymbol_perm hfresh).map Prod.fst

theorem length_received_insert (hfresh : esi ∉ dec.esis) :
    (dec.insert esi sym).received.length = dec.received.length + 1 :=
  (insertSymbol_perm hfresh).length_eq

theorem esis_receive (blake3 : List UInt8 → Bytes 32) (h : dec.Accepts a) :
    (dec.receive blake3 a).2.esis.Perm (a.esi :: dec.esis) := by
  rw [esis, received_receive blake3 h]
  exact (insertSymbol_perm h.fresh).map Prod.fst

theorem length_esis (dec : RaptorQDecoder oti config) : dec.esis.length = dec.received.length :=
  length_map ..

variable {arrivals : List Arrival}

/-- As long as fewer symbols arrived than there are source symbols, no attempt was made. -/
theorem lastAttemptedAtCount_feed (h : arrivals.length < oti.k) :
    ((new oti config).feed blake3 arrivals).lastAttemptedAtCount = 0 ∧
      ((new oti config).feed blake3 arrivals).received.length ≤ arrivals.length := by
  induction arrivals using reverseRecOn with
  | nil => exact ⟨rfl, Nat.le_refl _⟩
  | append_singleton arrivals a ih =>
    rw [length_append, length_singleton] at h ⊢
    obtain ⟨hlast, hlength⟩ := ih (by omega)
    rw [feed_append_singleton]
    set dec := (new oti config).feed blake3 arrivals
    by_cases haccepts : dec.Accepts a
    · have hinsert := length_received_insert (ofBytes a.data haccepts.size) haccepts.fresh
      have hearly : ¬ (dec.insert a.esi
          (ofBytes a.data haccepts.size)).shouldAttemptDecode a.esi = true := fun hdue => by
        have hcount := k_le_of_shouldAttemptDecode hdue
        omega
      rw [receive_of_accepts haccepts, bufferSymbol_eq, if_neg hearly]
      exact ⟨hlast, hinsert.trans_le (by omega)⟩
    · rw [(receive_of_not_accepts _ haccepts).1]
      exact ⟨hlast, by omega⟩

theorem shouldAttemptDecode_of_first (hlast : dec.lastAttemptedAtCount = 0)
    (hcount : oti.k ≤ dec.received.length) : dec.shouldAttemptDecode esi = true := by
  have hk : oti.k ≤ u32Max := Nat.min_le_right ..
  rw [shouldAttemptDecode, if_neg (by rw [receivedCount]; omega), if_pos hlast]

/-- The indices of the arrivals in time. -/
def onTime (config : RaptorQConfig) (arrivals : List Arrival) : List UInt32 :=
  (arrivals.filter fun a => a.elapsed ≤ config.decodeTimeout).map Arrival.esi

theorem onTime_append (config : RaptorQConfig) (arrivals : List Arrival) (a : Arrival) :
    onTime config (arrivals ++ [a]) =
      onTime config arrivals ++ if a.elapsed ≤ config.decodeTimeout then [a.esi] else [] := by
  rw [onTime, filter_append, map_append]
  congr 1
  by_cases htime : a.elapsed ≤ config.decodeTimeout
  · simp [htime]
  · simp [htime]

theorem esis_feed_subset (arrivals : List Arrival) :
    ((new oti config).feed blake3 arrivals).esis ⊆ onTime config arrivals := by
  induction arrivals using reverseRecOn with
  | nil => exact nil_subset _
  | append_singleton arrivals a ih =>
    rw [feed_append_singleton, onTime_append]
    by_cases haccepts : ((new oti config).feed blake3 arrivals).Accepts a
    · intro e he
      rw [if_pos haccepts.in_time]
      rcases mem_cons.mp ((esis_receive _ haccepts).mem_iff.mp he) with rfl | he
      · exact mem_append_right _ (mem_singleton.mpr rfl)
      · exact mem_append_left _ (ih he)
    · rw [(receive_of_not_accepts _ haccepts).1]
      exact subset_append_of_subset_left _ ih

/-- The buffer holds every arrival in time, or it is full. -/
theorem onTime_subset_feed (blake3 : List UInt8 → Bytes 32)
    (hbounds : oti.validateDecodeBounds config = .ok ())
    (hnonempty : ¬ (oti.transferLength = 0 ∨ oti.k = 0))
    (hsize : ∀ a ∈ arrivals, a.data.length = oti.symbolSize.toNat) :
    oti.symbolLimit config ≤ ((new oti config).feed blake3 arrivals).received.length ∨
      onTime config arrivals ⊆ ((new oti config).feed blake3 arrivals).esis := by
  induction arrivals using reverseRecOn with
  | nil => exact .inr (nil_subset _)
  | append_singleton arrivals a ih =>
    have hprev := ih fun b hb => hsize b (mem_append_left _ hb)
    rw [feed_append_singleton, onTime_append]
    set dec := (new oti config).feed blake3 arrivals
    by_cases haccepts : dec.Accepts a
    · have hperm := esis_receive blake3 haccepts
      have hroom := haccepts.room
      refine .inr fun e he => hperm.mem_iff.mpr ?_
      rw [if_pos haccepts.in_time] at he
      rcases mem_append.mp he with he | he
      · exact mem_cons_of_mem _ (hprev.resolve_left (by omega) he)
      · exact mem_cons.mpr (.inl (mem_singleton.mp he))
    · rw [(receive_of_not_accepts _ haccepts).1]
      rcases hprev with hfull | hprev
      · exact .inl hfull
      -- A symbol in time that is not accepted is a duplicate, or the buffer is full.
      by_cases hroom : dec.received.length < oti.symbolLimit config
      swap
      · exact .inl (by omega)
      refine .inr (append_subset.mpr ⟨hprev, ?_⟩)
      split_ifs with htime
      · rw [cons_subset]
        refine ⟨?_, nil_subset _⟩
        by_contra hfresh
        exact haccepts ⟨htime, hbounds, hnonempty, hsize a (by simp), hfresh, hroom⟩
      · exact nil_subset _

/-- The buffer is full exactly after as many different arrivals in time as it holds. -/
theorem symbolLimit_le_length_feed_iff (hbounds : oti.validateDecodeBounds config = .ok ())
    (hnonempty : ¬ (oti.transferLength = 0 ∨ oti.k = 0))
    (hsize : ∀ a ∈ arrivals, a.data.length = oti.symbolSize.toNat) :
    oti.symbolLimit config ≤ ((new oti config).feed blake3 arrivals).received.length ↔
      oti.symbolLimit config ≤ (onTime config arrivals).toFinset.card := by
  set dec := (new oti config).feed blake3 arrivals with hdec
  have hcard : dec.esis.toFinset.card = dec.received.length := by
    rw [esis, toFinset_card_of_nodup (pairwise_map.mpr (dec.sorted.imp UInt32.ne_of_lt)),
      length_map]
  have hmono : ∀ {es es' : List UInt32}, es ⊆ es' → es.toFinset.card ≤ es'.toFinset.card :=
    fun hsubset => Finset.card_le_card fun e he =>
      mem_toFinset.mpr (hsubset (mem_toFinset.mp he))
  constructor
  · intro hfull
    rw [← hcard] at hfull
    exact hfull.trans (hmono (esis_feed_subset arrivals))
  · intro hmany
    rcases onTime_subset_feed blake3 hbounds hnonempty hsize with hfull | hsubset
    · exact hfull
    · rw [← hcard]
      exact hmany.trans (hmono hsubset)

end RaptorQDecoder

namespace RaptorQEncoder

variable {blake3 : List UInt8 → Bytes 32} {config dconfig : RaptorQConfig} {payload : List UInt8}
  {enc : RaptorQEncoder config} {withHash : Bool}

/-- What a decoder is told about the encoding, with or without the payload's hash. -/
def announce (enc : RaptorQEncoder config) (withHash : Bool) : ObjectTransmissionInformation :=
  { enc.transmissionInfo with payloadHash := if withHash then some enc.payloadHash else none }

/-- The arrival is a symbol the encoder can emit. -/
def Emits (enc : RaptorQEncoder config) (a : Arrival) : Prop := enc.emitted a.esi = some a.data

/-- Whether an encoder can emit a symbol is decidable. -/
instance decidableEmits (enc : RaptorQEncoder config) : DecidablePred enc.Emits :=
  fun a => inferInstanceAs (Decidable (enc.emitted a.esi = some a.data))

namespace EncoderOf

section Announced

variable (h : enc.EncoderOf blake3 payload)
include h

theorem transferLength_announce :
    (enc.announce withHash).transferLength.toNat = payload.length := by
  have hmax := config.maxObjectSize.toNat_lt
  have hlength := h.length_le
  change (UInt64.ofNat enc.payloadLen).toNat = _
  rw [h.len_eq, UInt64.toNat_ofNat_of_lt']
  exact lt_of_le_of_lt hlength (hmax.trans (by decide))

theorem k_announce : (enc.announce withHash).k = enc.inner.params.k := by
  have hblock := h.block_le
  have hsize := Nat.max_eq_left h.size_pos
  rw [k, h.transferLength_announce, h.k_eq]
  change min (divCeil payload.length (max config.symbolSize.toNat 1)) u32Max = _
  rw [hsize]
  exact Nat.min_eq_left (hblock.trans (by decide))

theorem params_announce :
    SystematicParams.tryForSourceBlock (enc.announce withHash).k = .ok enc.inner.params := by
  rw [h.k_announce, h.k_eq, ← length_sourceChunks]
  exact h.inner.params_eq

theorem symbolSize_announce_ne : (enc.announce withHash).symbolSize ≠ 0 := by
  intro hzero
  have hpos := h.size_pos
  change config.symbolSize = 0 at hzero
  rw [hzero] at hpos
  exact absurd hpos (by decide)

theorem nonempty_announce :
    ¬ ((enc.announce withHash).transferLength = 0 ∨ (enc.announce withHash).k = 0) := by
  have hlength := length_pos_iff.mpr h.payload_ne
  have hk := enc.inner.params.k_pos
  rw [not_or, h.k_announce]
  refine ⟨fun hzero => ?_, by omega⟩
  have hannounce : (enc.announce withHash).transferLength.toNat = payload.length :=
    h.transferLength_announce
  rw [hzero] at hannounce
  exact absurd hannounce.symm (by change ¬ payload.length = 0; omega)

theorem validateTransmissionInfo_announce :
    (enc.announce withHash).validateTransmissionInfo = .ok () := by
  simp only [validateTransmissionInfo]
  rw [if_neg h.symbolSize_announce_ne]
  rfl

theorem hashMatches_announce : hashMatches blake3 (enc.announce withHash) payload = true := by
  cases withHash with
  | false => rfl
  | true => simp [hashMatches, announce, h.hash_eq]

theorem validateDecodeBounds_announce :
    (enc.announce withHash).validateDecodeBounds dconfig = .ok () ↔
      (enc.announce withHash).WithinBounds dconfig :=
  validateDecodeBounds_iff h.validateTransmissionInfo_announce

theorem withinBounds_announce : (enc.announce withHash).WithinBounds config := by
  have hlength : (enc.announce withHash).transferLength.toNat ≤ config.maxObjectSize.toNat := by
    rw [h.transferLength_announce]
    exact h.length_le
  refine ⟨hlength, ?_, ?_⟩
  · exact min_le_min_right _ (divCeil_mono hlength)
  · exact Nat.mul_le_mul_right _ (maxSymbolsWithHeadroom_mono hlength ..)

end Announced

section Honest

variable {dec : RaptorQDecoder (enc.announce withHash) dconfig} {a : Arrival}

section

variable (h : enc.EncoderOf blake3 payload)
include h

theorem emits_iff :
    enc.Emits a ↔ (a.esi.toNat < enc.inner.params.k ∨ enc.inner.params.kPrime ≤ a.esi.toNat) ∧
      bytes (symbolValue enc.inner.params enc.symbols a.esi) = a.data := by
  rw [Emits, h.emitted_eq]
  split_ifs with hrange
  · exact ⟨fun heq => ⟨hrange, Option.some.inj heq⟩, fun heq => congrArg some heq.2⟩
  · exact ⟨nofun, fun heq => absurd heq.1 hrange⟩

theorem length_of_emits (ha : enc.Emits a) :
    a.data.length = (enc.announce withHash).symbolSize.toNat := by
  rw [← (h.emits_iff.mp ha).2]
  exact length_bytes _

/-- Buffering an emitted symbol keeps the buffer honest. -/
theorem honestBuffer_insert
    (hbuffer : dec.HonestBuffer enc.inner.params enc.symbols) (ha : enc.Emits a)
    (hsize : a.data.length = (enc.announce withHash).symbolSize.toNat) :
    (dec.insert a.esi (ofBytes a.data hsize)).HonestBuffer enc.inner.params enc.symbols where
  values p hp := by
    rcases mem_insertSymbol hp with rfl | hp
    · exact bytes_injective ((h.emits_iff.mp ha).2.trans (bytes_ofBytes a.data hsize).symm)
    · exact hbuffer.values p hp
  emitted p hp := by
    rcases mem_insertSymbol hp with rfl | hp
    · exact (h.emits_iff.mp ha).1
    · exact hbuffer.emitted p hp

/-- A call for an emitted symbol keeps the buffer honest. -/
theorem honestBuffer_receive
    (hbuffer : dec.HonestBuffer enc.inner.params enc.symbols) (ha : enc.Emits a) :
    (dec.receive blake3 a).2.HonestBuffer enc.inner.params enc.symbols := by
  by_cases haccepts : dec.Accepts a
  · have hinsert := h.honestBuffer_insert hbuffer ha haccepts.size
    have hreceived := received_receive blake3 haccepts
    refine ⟨fun p hp => hinsert.values p ?_, fun p hp => hinsert.emitted p ?_⟩ <;>
      · rw [hreceived] at hp
        exact hp
  · rw [(receive_of_not_accepts _ haccepts).1]
    exact hbuffer

end

theorem honestBuffer_new (enc : RaptorQEncoder config) (withHash : Bool) (dconfig : RaptorQConfig) :
    (RaptorQDecoder.new (enc.announce withHash) dconfig).HonestBuffer enc.inner.params enc.symbols :=
  ⟨nofun, nofun⟩

/-- A run over emitted symbols keeps the buffer honest. -/
theorem honestBuffer_feed (h : enc.EncoderOf blake3 payload)
    (hbuffer : dec.HonestBuffer enc.inner.params enc.symbols) {arrivals : List Arrival}
    (harrivals : ∀ a ∈ arrivals, enc.Emits a) :
    (dec.feed blake3 arrivals).HonestBuffer enc.inner.params enc.symbols := by
  induction arrivals using reverseRecOn with
  | nil => exact hbuffer
  | append_singleton arrivals a ih =>
    rw [feed_append_singleton]
    exact h.honestBuffer_receive (ih fun b hb => harrivals b (mem_append_left _ hb))
      (harrivals a (by simp))

end Honest

variable {dec : RaptorQDecoder (enc.announce withHash) dconfig}

variable (h : enc.EncoderOf blake3 payload) (hbounds : (enc.announce withHash).WithinBounds dconfig)
include h hbounds

theorem tryReconstruct_announce :
    dec.tryReconstruct blake3 = dec.reconstructBlock enc.inner.params blake3 := by
  have hk : (enc.announce withHash).k = enc.inner.params.k := h.k_announce
  have hpos := enc.inner.params.k_pos
  have hlength := hbounds.length_le
  rw [tryReconstruct, if_neg (by omega), if_neg (by
    rw [not_or]
    exact ⟨by omega, h.symbolSize_announce_ne⟩)]
  simp only [h.params_announce]

variable (hbuffer : dec.HonestBuffer enc.inner.params enc.symbols)
include hbuffer

section

variable (hcount : (enc.announce withHash).k ≤ dec.received.length)
include hcount

/-- Symbols that determine the codeword give the payload back. -/
theorem tryReconstruct_of_determines
    (hdetermines : Determines enc.inner.params dec.esis) :
    dec.tryReconstruct blake3 = .ok payload := by
  have hk : (enc.announce withHash).k = enc.inner.params.k := h.k_announce
  obtain ⟨x, hdecode, hx⟩ :=
    inactivationDecode_of_determines hk hcount h.codeword hbuffer.values hdetermines
  have hresult : payloadOf _ x = payload := by
    rw [payloadOf_eq hk hx, h.transferLength_announce]
    exact h.payload_eq
  rw [h.tryReconstruct_announce hbounds]
  simp only [reconstructBlock, hbuffer.find?_padding hk, hdecode, hresult]
  exact if_pos h.hashMatches_announce

theorem tryReconstruct_of_not_determines
    (hdetermines : ¬ Determines enc.inner.params dec.esis) :
    dec.tryReconstruct blake3 = dec.denseFallback enc.inner.params blake3 := by
  rw [h.tryReconstruct_announce hbounds]
  exact reconstructBlock_of_not_determines h.k_announce hcount h.codeword hbuffer
    hdetermines

/-- What an attempt on an honest buffer comes to. On symbols that determine the codeword it returns
the payload. Otherwise it is refused for the budget of the dense fallback, or it returns what the
fallback found, or it lacks symbols. -/
theorem tryReconstruct_cases :
    Determines enc.inner.params dec.esis ∧ dec.tryReconstruct blake3 = .ok payload ∨
      ¬ Determines enc.inner.params dec.esis ∧
        ((enc.announce withHash).byteLimit dconfig < dec.fallbackBytes enc.inner.params ∧
            dec.tryReconstruct blake3 = .error (.memoryLimitExceeded
              (min (dec.fallbackBytes enc.inner.params) Protocol.usizeMax)
              ((enc.announce withHash).byteLimit dconfig)) ∨
          dec.fallbackBytes enc.inner.params ≤ (enc.announce withHash).byteLimit dconfig ∧
            ((∃ x, dec.tryReconstruct blake3 = .ok (payloadOf (enc.announce withHash) x) ∧
                hashMatches blake3 (enc.announce withHash) (payloadOf _ x) = true ∧
                (dec.denseMatrix enc.inner.params).solve (dec.denseRhs enc.inner.params) =
                  some x) ∨
              dec.tryReconstruct blake3 = .error (.insufficientSymbols dec.receivedCount
                (needed (enc.announce withHash))))) := by
  by_cases hdetermines : Determines enc.inner.params dec.esis
  · exact .inl ⟨hdetermines, h.tryReconstruct_of_determines hbounds hbuffer hcount hdetermines⟩
  refine .inr ⟨hdetermines, ?_⟩
  rw [h.tryReconstruct_of_not_determines hbounds hbuffer hcount hdetermines]
  rcases Nat.lt_or_ge ((enc.announce withHash).byteLimit dconfig)
    (dec.fallbackBytes enc.inner.params) with hover | hwithin
  · exact .inl ⟨hover, denseFallback_of_over h.k_announce hcount hover⟩
  · exact .inr ⟨hwithin, denseFallback_cases h.k_announce hcount hwithin⟩

end

/-- An attempt on an honest buffer never finds an invalid symbol. -/
theorem tryReconstruct_ne_invalidSymbol (reason : String) :
    dec.tryReconstruct blake3 ≠ .error (.invalidSymbol reason) := by
  by_cases hcount : (enc.announce withHash).k ≤ dec.received.length
  · rcases h.tryReconstruct_cases hbounds hbuffer hcount with
      ⟨-, heq⟩ | ⟨-, ⟨-, heq⟩ | ⟨-, ⟨x, heq, -⟩ | heq⟩⟩ <;> rw [heq] <;> nofun
  · rw [h.tryReconstruct_announce hbounds,
      reconstructBlock_of_lt h.k_announce (by omega) hbuffer]
    nofun

end EncoderOf

/-- Different symbols the encoder can emit, in time and not more than the buffer holds. -/
structure HonestStream (enc : RaptorQEncoder config) (withHash : Bool) (dconfig : RaptorQConfig)
    (arrivals : List Arrival) : Prop where
  emits : ∀ a ∈ arrivals, enc.Emits a
  distinct : (arrivals.map Arrival.esi).Nodup
  in_time : ∀ a ∈ arrivals, a.elapsed ≤ dconfig.decodeTimeout
  fits : arrivals.length ≤ (enc.announce withHash).symbolLimit dconfig

/-- The arrivals before another one are a stream. -/
theorem HonestStream.of_append {arrivals further : List Arrival}
    (hs : enc.HonestStream withHash dconfig (arrivals ++ further)) :
    enc.HonestStream withHash dconfig arrivals where
  emits a ha := hs.emits a (mem_append_left _ ha)
  distinct := by
    have hdistinct := hs.distinct
    rw [map_append] at hdistinct
    exact hdistinct.of_append_left
  in_time a ha := hs.in_time a (mem_append_left _ ha)
  fits := by
    have hfits := hs.fits
    rw [length_append] at hfits
    omega

namespace EncoderOf

variable {arrivals : List Arrival} {a : Arrival}

variable (h : enc.EncoderOf blake3 payload) (hbounds : (enc.announce withHash).WithinBounds dconfig)
include h hbounds

/-- After a stream that is buffered whole, its next symbol is accepted. -/
theorem accepts_of_esis (hs : enc.HonestStream withHash dconfig (arrivals ++ [a]))
    {dec : RaptorQDecoder (enc.announce withHash) dconfig}
    (hesis : dec.esis.Perm (arrivals.map Arrival.esi)) : dec.Accepts a where
  in_time := hs.in_time a (by simp)
  bounds := h.validateDecodeBounds_announce.mpr hbounds
  nonempty := h.nonempty_announce
  size := h.length_of_emits (hs.emits a (by simp))
  fresh hmem := by
    have hdistinct := hs.distinct
    rw [map_append] at hdistinct
    exact disjoint_of_nodup_append hdistinct (hesis.mem_iff.mp hmem) (by simp)
  room := by
    have hfits := hs.fits
    have hlength := hesis.length_eq
    rw [length_esis, length_map] at hlength
    rw [length_append, length_singleton] at hfits
    omega

theorem esis_feed (hs : enc.HonestStream withHash dconfig arrivals) :
    ((RaptorQDecoder.new (enc.announce withHash) dconfig).feed blake3 arrivals).esis.Perm
      (arrivals.map Arrival.esi) := by
  induction arrivals using reverseRecOn with
  | nil => exact Perm.refl _
  | append_singleton arrivals a ih =>
    have hprev := ih hs.of_append
    have haccepts := h.accepts_of_esis hbounds hs hprev
    rw [feed_append_singleton, map_append]
    exact ((esis_receive blake3 haccepts).trans (hprev.cons _)).trans
      (perm_append_singleton ..).symm

variable (hs : enc.HonestStream withHash dconfig (arrivals ++ [a]))
include hs

theorem accepts_of_stream :
    ((RaptorQDecoder.new (enc.announce withHash) dconfig).feed blake3 arrivals).Accepts a :=
  h.accepts_of_esis hbounds hs (h.esis_feed hbounds hs.of_append)

/-- The buffer with the next symbol of a stream holds the stream. -/
theorem esis_insert_of_stream (sym : Symbol (enc.announce withHash).symbolSize.toNat) :
    (((RaptorQDecoder.new (enc.announce withHash) dconfig).feed blake3 arrivals).insert a.esi
      sym).esis.Perm ((arrivals ++ [a]).map Arrival.esi) := by
  have haccepts := h.accepts_of_stream hbounds hs
  rw [map_append]
  exact ((esis_insert sym haccepts.fresh).trans
    ((h.esis_feed hbounds hs.of_append).cons _)).trans (perm_append_singleton ..).symm

/-- With the last of as many symbols as source symbols the first attempt is made. -/
theorem receive_of_first_attempt (hlength : arrivals.length + 1 = enc.inner.params.k)
    (hsize : a.data.length = (enc.announce withHash).symbolSize.toNat) :
    ((RaptorQDecoder.new (enc.announce withHash) dconfig).feed blake3 arrivals).receive blake3 a =
      (((RaptorQDecoder.new (enc.announce withHash) dconfig).feed blake3 arrivals).insert a.esi
        (ofBytes a.data hsize)).attemptReconstruct blake3 := by
  have haccepts := h.accepts_of_stream hbounds hs
  have hlast : ((RaptorQDecoder.new (enc.announce withHash) dconfig).feed blake3
      arrivals).lastAttemptedAtCount = 0 :=
    (lastAttemptedAtCount_feed (by rw [h.k_announce]; omega)).1
  have hcount := (h.esis_insert_of_stream hbounds hs (ofBytes a.data hsize)).length_eq
  rw [length_esis, length_map, length_append, length_singleton, hlength] at hcount
  rw [receive_of_accepts haccepts, bufferSymbol_eq, if_pos]
  exact shouldAttemptDecode_of_first hlast (by rw [h.k_announce, hcount])

end EncoderOf

end RaptorQEncoder

end Flywheel.Raptorq
