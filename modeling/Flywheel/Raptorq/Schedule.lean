import Flywheel.Raptorq.Soundness

/-!
# When the decoder attempts a reconstruction

A decoder attempts a reconstruction with the first K symbols, with the next repair symbol, and then
at growing distances. As long as attempts fail, the numbers of symbols at which they are made
depend on K and on the symbol after the first K only. A list of symbols that is handed over until a
payload is returned is therefore read up to the first of these numbers at which the symbols
determine the payload, if the list is that long.
-/

namespace Flywheel.Raptorq

open Flywheel.Data Flywheel.Protocol RaptorQDecoder Arrival Symbol List

/-- The number of symbols at which an attempt is made after some failed ones. The second one is made
for the symbol after the first K if that is a repair symbol. -/
def attemptCount (k : ℕ) (repairNext : Bool) : ℕ → ℕ
  | 0 => k
  | 1 => if repairNext then k + 1 else k + 2
  | i + 2 => attemptCount k repairNext (i + 1) + min (2 ^ (i + 2)) 32

section Counts

variable {k : ℕ} {repairNext : Bool}

/-- Attempts are made at growing numbers of symbols. -/
theorem attemptCount_lt_succ (k : ℕ) (repairNext : Bool) (i : ℕ) :
    attemptCount k repairNext i < attemptCount k repairNext (i + 1) := by
  cases i with
  | zero =>
    rw [attemptCount, attemptCount]
    split_ifs <;> omega
  | succ i =>
    have hpow := Nat.two_pow_pos (i + 2)
    rw [attemptCount]
    omega

theorem strictMono_attemptCount (k : ℕ) (repairNext : Bool) :
    StrictMono (attemptCount k repairNext) :=
  strictMono_nat_of_lt_succ (attemptCount_lt_succ k repairNext)

theorem le_attemptCount (k : ℕ) (repairNext : Bool) (i : ℕ) : k ≤ attemptCount k repairNext i :=
  (strictMono_attemptCount k repairNext).monotone (Nat.zero_le i)

end Counts

namespace RaptorQDecoder

variable {oti : ObjectTransmissionInformation} {config : RaptorQConfig}
  {dec : RaptorQDecoder oti config} {blake3 : List UInt8 → Bytes 32} {a : Arrival}
  {repairNext : Bool} {i : ℕ}

/-- Hand over arrivals until a payload or an error is returned. -/
def drain (blake3 : List UInt8 → Bytes 32) (dec : RaptorQDecoder oti config) :
    List Arrival → Except DecodeError (Option (List UInt8))
  | [] => .ok none
  | a :: rest =>
    match dec.receive blake3 a with
    | (.error e, _) => .error e
    | (.ok (some payload), _) => .ok (some payload)
    | (.ok none, dec) => dec.drain blake3 rest

/-- So many attempts have failed, and the next one has not been made yet. -/
structure Waiting (dec : RaptorQDecoder oti config) (repairNext : Bool) (i : ℕ) : Prop where
  last : dec.lastAttemptedAtCount = if i = 0 then 0 else attemptCount oti.k repairNext (i - 1)
  step : dec.postKRetryStep = min (2 ^ i) 32
  /-- The last attempt was made with no more symbols than there are. -/
  lower : i = 0 ∨ attemptCount oti.k repairNext (i - 1) ≤ dec.received.length
  upper : dec.received.length < attemptCount oti.k repairNext i

/-- The next attempt is due with the symbol that completes its number. -/
theorem Waiting.shouldAttemptDecode_iff (h : dec.Waiting repairNext i) (hk : 0 < oti.k)
    {esi : UInt32} (sym : Symbol oti.symbolSize.toNat) (hfresh : esi ∉ dec.esis)
    (hlimit : dec.received.length + 1 < u32Max)
    (hnext : dec.received.length = oti.k → (repairNext = true ↔ oti.k ≤ esi.toNat)) :
    (dec.insert esi sym).shouldAttemptDecode esi = true ↔
      dec.received.length + 1 = attemptCount oti.k repairNext i := by
  have hcount : (dec.insert esi sym).receivedCount = dec.received.length + 1 := by
    rw [receivedCount, length_received_insert sym hfresh]
    omega
  have hlast : (dec.insert esi sym).lastAttemptedAtCount = _ := h.last
  have hstep : (dec.insert esi sym).postKRetryStep = _ := h.step
  have hlower := h.lower
  have hupper := h.upper
  rw [shouldAttemptDecode, hlast]
  rcases i with _ | _ | i
  · simp [attemptCount] at hupper ⊢
    omega
  · cases repairNext <;> simp [attemptCount, saturatingAdd] at hlower hupper hnext ⊢ <;> omega
  · have hpow : 2 ^ (i + 2) = 2 ^ (i + 1 + 1) := rfl
    have hgt := attemptCount_lt_succ oti.k repairNext i
    have hge := le_attemptCount oti.k repairNext i
    simp [attemptCount, saturatingAdd] at hlower hupper ⊢
    omega

variable (blake3) in
/-- A symbol before the next attempt is due is only buffered. -/
theorem Waiting.receive_of_lt (h : dec.Waiting repairNext i) (hk : 0 < oti.k)
    (haccepts : dec.Accepts a) (hlimit : dec.received.length + 1 < u32Max)
    (hnext : dec.received.length = oti.k → (repairNext = true ↔ oti.k ≤ a.esi.toNat))
    (hlt : dec.received.length + 1 < attemptCount oti.k repairNext i) :
    ∃ dec', dec.receive blake3 a = (.ok none, dec') ∧ dec'.Waiting repairNext i := by
  have hquiet : ¬ (dec.insert a.esi (ofBytes a.data haccepts.size)).shouldAttemptDecode
      a.esi = true := by
    rw [h.shouldAttemptDecode_iff hk _ haccepts.fresh hlimit hnext]
    omega
  have hlength := length_received_insert (ofBytes a.data haccepts.size) haccepts.fresh
  refine ⟨dec.insert a.esi (ofBytes a.data haccepts.size), ?_, h.last, h.step, ?_, ?_⟩
  · rw [receive_of_accepts haccepts, bufferSymbol_eq, if_neg hquiet]
  · rw [hlength]
    exact h.lower.imp_right fun hle => hle.trans (Nat.le_succ _)
  · rw [hlength]
    exact hlt

/-- After a failed attempt the decoder waits for the next one. -/
theorem Waiting.attemptReconstruct_of_insufficient (h : dec.Waiting repairNext i)
    (haccepts : dec.Accepts a) (hlimit : dec.received.length + 1 < u32Max)
    (heq : dec.received.length + 1 = attemptCount oti.k repairNext i) {received needed : ℕ}
    (hattempt : (dec.insert a.esi (ofBytes a.data haccepts.size)).tryReconstruct blake3 =
      .error (.insufficientSymbols received needed)) :
    ∃ dec', (dec.insert a.esi (ofBytes a.data haccepts.size)).attemptReconstruct blake3 =
      (.ok none, dec') ∧ dec'.Waiting repairNext (i + 1) := by
  have hlength := length_received_insert (ofBytes a.data haccepts.size) haccepts.fresh
  simp only [attemptReconstruct, hattempt]
  refine ⟨_, rfl, ?_, ?_, ?_, ?_⟩
  · change (dec.insert a.esi (ofBytes a.data haccepts.size)).receivedCount = _
    rw [receivedCount, if_neg (Nat.succ_ne_zero i), Nat.add_sub_cancel]
    omega
  · change min (saturatingMul u32Max dec.postKRetryStep 2) 32 = _
    have hmax : 64 ≤ u32Max := by decide
    rw [h.step, saturatingMul]
    omega
  · refine .inr ?_
    change attemptCount oti.k repairNext i ≤ (dec.insert a.esi _).received.length
    rw [hlength, heq]
  · rw [hlength, heq]
    exact attemptCount_lt_succ ..

/-- A reconstructed payload has the announced length. -/
theorem length_payloadOf {params : SystematicParams}
    (hlength : oti.transferLength.toNat ≤ oti.k * oti.symbolSize.toNat)
    (x : List.Vector (Symbol oti.symbolSize.toNat) params.l) :
    (payloadOf oti x).length = oti.transferLength.toNat := by
  have hall : ((range oti.k).flatMap fun c => (symbolAt x c).bytes).length =
      oti.k * oti.symbolSize.toNat := by
    rw [length_flatMap]
    simp only [length_bytes, map_const', length_range, sum_replicate, smul_eq_mul]
  rw [payloadOf, length_take]
  omega

end RaptorQDecoder

/-- The bytes of the dense fallback of a block with some number of symbols. -/
def SystematicParams.denseBytes (params : SystematicParams) (size len count : ℕ) : ℕ :=
  denseFallbackBytes (params.s + params.h + count + (params.kPrime - params.k)) params.l size len

/-- Whether the symbol after the first K is a repair symbol. -/
def repairNext (k : ℕ) (esis : List UInt32) : Bool :=
  match esis[k]? with
  | some esi => k ≤ esi.toNat
  | none => false

/-- The number of symbols at which an attempt is made for a list of symbols. -/
def attemptAt (k : ℕ) (esis : List UInt32) (i : ℕ) : ℕ := attemptCount k (repairNext k esis) i

/-- An attempt on the symbols of an object is reached if all attempts before it lack symbols: the
list is long enough, the symbols up to there are buffered in time, and the dense fallback stays
within its budget at the attempts before. Symbols are given by the time of their call and their
index. -/
structure Reaches (params : SystematicParams) (config dconfig : RaptorQConfig) (len : ℕ)
    (calls : List (ℕ × UInt32)) (i : ℕ) : Prop where
  enough : attemptAt params.k (calls.map Prod.snd) i ≤ calls.length
  room : attemptAt params.k (calls.map Prod.snd) i ≤ (config.objectInfo len).symbolLimit dconfig
  in_time : ∀ call ∈ calls.take (attemptAt params.k (calls.map Prod.snd) i),
    call.1 ≤ dconfig.decodeTimeout
  budget : ∀ j < i, params.denseBytes config.symbolSize.toNat len
    (attemptAt params.k (calls.map Prod.snd) j) ≤ (config.objectInfo len).byteLimit dconfig

/-- The time and the index of an arrival. -/
def Arrival.call (a : Arrival) : ℕ × UInt32 := (a.elapsed, a.esi)

namespace RaptorQEncoder

variable {blake3 : List UInt8 → Bytes 32} {config dconfig : RaptorQConfig} {payload : List UInt8}
  {enc : RaptorQEncoder config} {a : Arrival} {before rest : List Arrival} {r : Bool} {i : ℕ}

/-- A decoder has buffered some arrivals, and so many attempts on them have failed. -/
structure Progress (enc : RaptorQEncoder config) (r : Bool)
    (dec : RaptorQDecoder (enc.announce true) dconfig) (before : List Arrival) (i : ℕ) : Prop where
  waiting : dec.Waiting r i
  honest : dec.HonestBuffer enc.inner.params enc.symbols
  esis : dec.esis.Perm (before.map esi)

namespace EncoderOf

variable (h : enc.EncoderOf blake3 payload)
include h

/-- The buffer holds fewer symbols than a word counts. -/
theorem symbolLimit_lt : (config.objectInfo payload.length).symbolLimit dconfig < u32Max := by
  have hblock := h.block_le
  have hpos := h.size_pos
  have hword : payload.length < 2 ^ 64 :=
    lt_of_le_of_lt h.length_le (config.maxObjectSize.toNat_lt.trans (by decide))
  have hbps := dconfig.repairRatioBps.toNat_lt
  have hlen : (config.objectInfo payload.length).transferLength.toNat = payload.length :=
    UInt64.toNat_ofNat_of_lt' hword
  rw [ObjectTransmissionInformation.symbolLimit, hlen]
  change maxSymbolsWithHeadroom payload.length config.symbolSize.toNat dconfig.repairRatioBps < _
  have hsize := Nat.max_eq_left hpos
  simp only [maxSymbolsWithHeadroom, saturatingAdd, u32Max, hsize]
  have hmul : min (divCeil payload.length config.symbolSize.toNat) (2 ^ 32 - 1) *
      dconfig.repairRatioBps.toNat ≤ 56403 * 65536 := Nat.mul_le_mul (by omega) (by omega)
  omega

theorem transferLength_le : (enc.announce true).transferLength.toNat ≤
      (enc.announce true).k * (enc.announce true).symbolSize.toNat := by
  rw [h.transferLength_announce, h.k_announce, h.k_eq]
  exact le_divCeil_mul h.size_pos

theorem symbolLimit_announce : (enc.announce true).symbolLimit dconfig =
      (config.objectInfo payload.length).symbolLimit dconfig := by
  rw [← h.len_eq]
  rfl

end EncoderOf

/-- Symbols of an encoder with different indices. The flag tells whether the one after the first K
is a repair symbol. -/
structure Offered (enc : RaptorQEncoder config) (r : Bool) (arrivals : List Arrival) : Prop where
  emits : ∀ a ∈ arrivals, enc.Emits a
  distinct : (arrivals.map esi).Nodup
  next : r = repairNext enc.inner.params.k (arrivals.map esi)

theorem Offered.attemptAt_eq {arrivals : List Arrival} (ho : enc.Offered r arrivals) (i : ℕ) :
    attemptAt enc.inner.params.k ((arrivals.map call).map Prod.snd) i =
      attemptCount enc.inner.params.k r i := by
  rw [ho.next, map_map]
  rfl

namespace Progress

variable {dec : RaptorQDecoder (enc.announce true) dconfig}

theorem new (h : enc.EncoderOf blake3 payload) (r : Bool) :
    enc.Progress r (RaptorQDecoder.new (enc.announce true) dconfig) [] 0 where
  waiting := ⟨rfl, rfl, .inl rfl, by
    rw [h.k_announce]
    exact enc.inner.params.k_pos⟩
  honest := EncoderOf.honestBuffer_new enc true dconfig
  esis := Perm.refl _

variable (hp : enc.Progress r dec before i)
include hp

theorem length_eq : dec.received.length = before.length := by
  rw [← length_esis, hp.esis.length_eq, length_map]

variable (h : enc.EncoderOf blake3 payload)
include h

/-- What the next accepted symbol does: it is only buffered, or an attempt is made. An attempt on
symbols that determine the codeword returns the payload. Another one is refused for the budget of
the dense fallback, or it returns what the fallback found, or it lacks symbols. -/
theorem step (haccepts : dec.Accepts a) (ho : enc.Offered r (before ++ a :: rest)) :
    (before.length + 1 < attemptCount enc.inner.params.k r i ∧
        ∃ dec', dec.receive blake3 a = (.ok none, dec') ∧
          enc.Progress r dec' (before ++ [a]) i) ∨
      before.length + 1 = attemptCount enc.inner.params.k r i ∧
        (Determines enc.inner.params ((before ++ [a]).map esi) ∧
            (dec.receive blake3 a).1 = .ok (some payload) ∨
          ¬ Determines enc.inner.params ((before ++ [a]).map esi) ∧
            ((config.objectInfo payload.length).byteLimit dconfig <
                enc.inner.params.denseBytes config.symbolSize.toNat payload.length
                  (before.length + 1) ∧
              ∃ e, (dec.receive blake3 a).1 = .error e) ∨
          ¬ Determines enc.inner.params ((before ++ [a]).map esi) ∧
            enc.inner.params.denseBytes config.symbolSize.toNat payload.length
                (before.length + 1) ≤ (config.objectInfo payload.length).byteLimit dconfig ∧
            ((∃ p, (dec.receive blake3 a).1 = .ok (some p) ∧ blake3 p = blake3 payload ∧
                p.length = payload.length ∧
                ((∀ b ∈ before ++ [a], symbolValue enc.inner.params enc.symbols b.esi = 0) →
                  p = replicate payload.length 0)) ∨
              ∃ dec', dec.receive blake3 a = (.ok none, dec') ∧
                enc.Progress r dec' (before ++ [a]) (i + 1))) := by
  have hk : (enc.announce true).k = enc.inner.params.k := h.k_announce
  have hkpos : 0 < (enc.announce true).k := by
    rw [hk]
    exact enc.inner.params.k_pos
  have hlength := hp.length_eq
  have hemits := ho.emits a (by simp)
  have hlimit : dec.received.length + 1 < u32Max := by
    have hroom := haccepts.room
    have hlt : (config.objectInfo payload.length).symbolLimit dconfig < u32Max := h.symbolLimit_lt
    rw [h.symbolLimit_announce] at hroom
    omega
  have hnext : dec.received.length = (enc.announce true).k →
      (r = true ↔ (enc.announce true).k ≤ a.esi.toNat) := by
    rw [hlength, hk]
    intro hbefore
    have hget : ((before ++ a :: rest).map esi)[enc.inner.params.k]? = some a.esi := by
      simp [← hbefore]
    rw [ho.next, repairNext, hget, decide_eq_true_iff]
  have hprogress : ∀ {dec'} {j}, dec.receive blake3 a = (.ok none, dec') → dec'.Waiting r j →
      enc.Progress r dec' (before ++ [a]) j := by
    intro dec' j heq hwaiting
    have hsnd : (dec.receive blake3 a).2 = dec' := by rw [heq]
    refine ⟨hwaiting, ?_, ?_⟩
    · rw [← hsnd]
      exact h.honestBuffer_receive hp.honest hemits
    · rw [← hsnd, map_append]
      exact ((esis_receive blake3 haccepts).trans (hp.esis.cons _)).trans
        (perm_append_singleton ..).symm
  have hupper := hp.waiting.upper
  rw [hk] at hupper
  rcases Nat.lt_or_ge (before.length + 1) (attemptCount enc.inner.params.k r i) with hlt | hge
  · obtain ⟨dec', heq, hwaiting⟩ := hp.waiting.receive_of_lt blake3 hkpos haccepts
      hlimit hnext (by rw [hlength, hk]; exact hlt)
    exact .inl ⟨hlt, dec', heq, hprogress heq hwaiting⟩
  have hdue : before.length + 1 = attemptCount enc.inner.params.k r i := by omega
  have hdue' : dec.received.length + 1 = attemptCount (enc.announce true).k r i := by
    rw [hlength, hk]
    exact hdue
  have hreceive : dec.receive blake3 a =
      (dec.insert a.esi (ofBytes a.data haccepts.size)).attemptReconstruct blake3 := by
    rw [receive_of_accepts haccepts, bufferSymbol_eq, if_pos]
    exact (hp.waiting.shouldAttemptDecode_iff hkpos _ haccepts.fresh hlimit hnext).mpr hdue'
  refine .inr ⟨hdue, ?_⟩
  -- the attempt is made on the buffer with the new symbol
  have hinsert := h.honestBuffer_insert hp.honest hemits haccepts.size
  have hperm : (dec.insert a.esi (ofBytes a.data haccepts.size)).esis.Perm
      ((before ++ [a]).map esi) := by
    rw [map_append]
    exact ((esis_insert _ haccepts.fresh).trans (hp.esis.cons _)).trans
      (perm_append_singleton ..).symm
  have hbytes : (dec.insert a.esi (ofBytes a.data haccepts.size)).fallbackBytes
      enc.inner.params =
        enc.inner.params.denseBytes config.symbolSize.toNat payload.length
          (before.length + 1) := by
    rw [RaptorQDecoder.fallbackBytes, length_received_insert _ haccepts.fresh, hlength,
      h.transferLength_announce]
    rfl
  have hvanish : (∀ b ∈ before ++ [a], symbolValue enc.inner.params enc.symbols b.esi = 0) →
      ∀ q ∈ (dec.insert a.esi (ofBytes a.data haccepts.size)).received, q.2 = 0 := by
    intro hzero q hq
    obtain ⟨b, hb, hbq⟩ := mem_map.mp (hperm.mem_iff.mp (mem_map_of_mem hq))
    rw [← hinsert.values q hq, ← hbq]
    exact hzero b hb
  have hcount : (enc.announce true).k ≤
      (dec.insert a.esi (ofBytes a.data haccepts.size)).received.length := by
    rw [length_received_insert _ haccepts.fresh, hdue']
    exact le_attemptCount ..
  have hcases := h.tryReconstruct_cases (h.validateDecodeBounds_announce.mp haccepts.bounds) hinsert
    hcount
  have hmono : Determines enc.inner.params
      (dec.insert a.esi (ofBytes a.data haccepts.size)).esis ↔
        Determines enc.inner.params ((before ++ [a]).map esi) :=
    ⟨fun hdet => hdet.mono hperm.subset, fun hdet => hdet.mono hperm.symm.subset⟩
  rw [hmono, hbytes, h.byteLimit_announce] at hcases
  rw [hreceive, fst_attemptReconstruct]
  rcases hcases with ⟨hdetermines, hattempt⟩ | ⟨hdetermines, ⟨hover, hattempt⟩ |
    ⟨hwithin, ⟨x, hattempt, hhash, hsolve⟩ | hattempt⟩⟩
  · rw [hattempt]
    exact .inl ⟨hdetermines, rfl⟩
  · rw [hattempt]
    exact .inr (.inl ⟨hdetermines, hover, _, rfl⟩)
  · rw [hattempt]
    refine .inr (.inr ⟨hdetermines, hwithin, .inl ⟨_, rfl, ?_, ?_, fun hall => ?_⟩⟩)
    · have hmatch := of_decide_eq_true hhash
      rw [hmatch, h.hash_eq]
    · rw [length_payloadOf h.transferLength_le, h.transferLength_announce]
    · have hx := symbolAt_of_solve_dense_zero hk (hvanish hall) hsolve
      have hfits := h.transferLength_le
      rw [hk] at hfits
      rw [payloadOf_of_zero hk hfits hx, h.transferLength_announce]
  · obtain ⟨dec', heq, hwaiting⟩ := hp.waiting.attemptReconstruct_of_insufficient haccepts
      hlimit hdue' hattempt
    exact .inr (.inr ⟨hdetermines, hwithin,
      .inr ⟨dec', heq, hprogress (hreceive.trans heq) hwaiting⟩⟩)

end Progress

theorem take_map_append {β : Type*} (f : Arrival → β) (before rest : List Arrival) (a : Arrival) :
    ((before ++ a :: rest).map f).take (before.length + 1) = (before ++ [a]).map f := by
  rw [append_cons, map_append, take_left']
  simp

theorem call_mem_take {n : ℕ} (hn : before.length < n) :
    a.call ∈ ((before ++ a :: rest).map call).take n := by
  rw [append_cons, map_append, take_append,
    take_of_length_le (by simpa using hn)]
  simp

theorem drain_cons {oti : ObjectTransmissionInformation} (dec : RaptorQDecoder oti dconfig)
    (a : Arrival) (rest : List Arrival) :
    dec.drain blake3 (a :: rest) =
      match (dec.receive blake3 a).1 with
      | .ok none => (dec.receive blake3 a).2.drain blake3 rest
      | result => result := by
  rw [drain]
  rcases dec.receive blake3 a with ⟨_ | _ | _, _⟩ <;> rfl

/-- Nothing stands in the way of an attempt on arrivals. -/
structure Unhindered (enc : RaptorQEncoder config) (dconfig : RaptorQConfig) (len : ℕ) (r : Bool)
    (arrivals : List Arrival) : Prop where
  bounds : (enc.announce true).WithinBounds dconfig
  room : arrivals.length ≤ (config.objectInfo len).symbolLimit dconfig
  in_time : ∀ a ∈ arrivals, a.elapsed ≤ dconfig.decodeTimeout
  budget : ∀ j, attemptCount enc.inner.params.k r j ≤ arrivals.length →
    enc.inner.params.denseBytes config.symbolSize.toNat len
      (attemptCount enc.inner.params.k r j) ≤ (config.objectInfo len).byteLimit dconfig

namespace Progress

variable {dec : RaptorQDecoder (enc.announce true) dconfig}

variable (hp : enc.Progress r dec before i)
include hp

theorem fresh (ho : enc.Offered r (before ++ a :: rest)) : a.esi ∉ dec.esis := by
  intro hmem
  have hdistinct := ho.distinct
  rw [map_append] at hdistinct
  exact disjoint_of_nodup_append hdistinct (hp.esis.mem_iff.mp hmem) (by simp)

variable (h : enc.EncoderOf blake3 payload)
include h

/-- The next symbol is accepted up to an attempt that is reached. -/
theorem accepts (hbounds : (enc.announce true).WithinBounds dconfig)
    (ho : enc.Offered r (before ++ a :: rest)) {n : ℕ} (hn : before.length < n)
    (hroom : n ≤ (config.objectInfo payload.length).symbolLimit dconfig)
    (htime : ∀ call ∈ ((before ++ a :: rest).map Arrival.call).take n,
      call.1 ≤ dconfig.decodeTimeout) : dec.Accepts a where
  in_time := htime a.call (call_mem_take hn)
  bounds := h.validateDecodeBounds_announce.mpr hbounds
  nonempty := h.nonempty_announce
  size := h.length_of_emits (ho.emits a (by simp))
  fresh := hp.fresh ho
  room := by
    rw [hp.length_eq, h.symbolLimit_announce]
    omega

/-- If an attempt is reached whose symbols determine the codeword, the payload is returned. -/
theorem drain_of_reaches (hbounds : (enc.announce true).WithinBounds dconfig)
    (hcollision : ∀ p, p.length = payload.length → blake3 p = blake3 payload → p = payload)
    (ho : enc.Offered r (before ++ rest)) {j : ℕ} (hij : i ≤ j)
    (hreach : Reaches enc.inner.params config dconfig payload.length
      ((before ++ rest).map call) j)
    (hdetermines : Determines enc.inner.params
      (((before ++ rest).map esi).take (attemptCount enc.inner.params.k r j))) :
    dec.drain blake3 rest = .ok (some payload) := by
  have hupper : before.length < attemptCount enc.inner.params.k r i := by
    have hupper := hp.waiting.upper
    rwa [h.k_announce, hp.length_eq] at hupper
  have hmono := (strictMono_attemptCount enc.inner.params.k r).monotone hij
  induction rest generalizing before dec i with
  | nil =>
    have henough := hreach.enough
    rw [ho.attemptAt_eq, length_map, append_nil] at henough
    omega
  | cons a rest ih =>
    have haccepts : dec.Accepts a := hp.accepts h hbounds ho (lt_of_lt_of_le hupper hmono)
      (by rw [← ho.attemptAt_eq]; exact hreach.room)
      (by rw [← ho.attemptAt_eq]; exact hreach.in_time)
    have hassoc : before ++ a :: rest = before ++ [a] ++ rest := append_cons ..
    -- a due attempt whose symbols leave the codeword open is an earlier one
    have hearlier : before.length + 1 = attemptCount enc.inner.params.k r i →
        ¬ Determines enc.inner.params ((before ++ [a]).map esi) → i < j := by
      intro hdue hnot
      refine lt_of_le_of_ne hij ?_
      rintro rfl
      rw [← hdue, take_map_append] at hdetermines
      exact hnot hdetermines
    rcases hp.step h haccepts ho with ⟨hlt, dec', heq, hp'⟩ | ⟨hdue, ⟨-, hreturn⟩ |
      ⟨hnot, hover, -⟩ | ⟨hnot, -, ⟨p, hreturn, hhash, hlen, -⟩ | ⟨dec', heq, hp'⟩⟩⟩
    · rw [drain_cons, heq]
      rw [hassoc] at ho hreach hdetermines
      exact ih hp' ho hij hreach hdetermines (by simpa using hlt) hmono
    · rw [drain_cons, hreturn]
    · -- the budget was exceeded before the attempt
      have hbudget := hreach.budget i (hearlier hdue hnot)
      rw [ho.attemptAt_eq, ← hdue] at hbudget
      omega
    · rw [drain_cons, hreturn, hcollision p hlen hhash]
    · have hlt := attemptCount_lt_succ enc.inner.params.k r i
      have hij' := hearlier hdue hnot
      rw [drain_cons, heq]
      rw [hassoc] at ho hreach hdetermines
      exact ih hp' ho hij' hreach hdetermines
        (by rw [length_append, length_singleton, hdue]; exact hlt)
        ((strictMono_attemptCount enc.inner.params.k r).monotone hij')

/-- If the symbols of all attempts that are reached are zero and leave the codeword open, nothing is
returned for a payload that is not zero, and an error only if something stands in the way. -/
theorem drain_of_open (hzeros : blake3 (replicate payload.length 0) ≠ blake3 payload)
    (ho : enc.Offered r (before ++ rest))
    (htime : ∀ a ∈ before, a.elapsed ≤ dconfig.decodeTimeout)
    (hbudget : ∀ j < i, enc.inner.params.denseBytes config.symbolSize.toNat payload.length
      (attemptCount enc.inner.params.k r j) ≤ (config.objectInfo payload.length).byteLimit dconfig)
    (hopen : ∀ j, i ≤ j → Reaches enc.inner.params config dconfig payload.length
        ((before ++ rest).map call) j →
      ¬ Determines enc.inner.params
          (((before ++ rest).map esi).take (attemptCount enc.inner.params.k r j)) ∧
        ∀ e ∈ ((before ++ rest).map esi).take (attemptCount enc.inner.params.k r j),
          symbolValue enc.inner.params enc.symbols e = 0) :
    dec.drain blake3 rest = .ok none ∨ (∃ e, dec.drain blake3 rest = .error e) ∧
      ¬ enc.Unhindered dconfig payload.length r (before ++ rest) := by
  induction rest generalizing before dec i with
  | nil => exact .inl rfl
  | cons a rest ih =>
    have hassoc : before ++ a :: rest = before ++ [a] ++ rest := append_cons ..
    have hlength : before.length < (before ++ a :: rest).length := by simp
    by_cases haccepts : dec.Accepts a
    swap
    · -- a refused symbol is answered with an error
      rcases (receive_of_not_accepts blake3 haccepts).2 with ⟨e, he⟩ | ⟨-, hmem⟩
      · refine .inr ⟨⟨e, by rw [drain_cons, he]⟩, fun hfree => haccepts ?_⟩
        refine hp.accepts h hfree.bounds ho hlength hfree.room fun call hcall => ?_
        obtain ⟨b, hb, rfl⟩ := mem_map.mp (mem_of_mem_take hcall)
        exact hfree.in_time b hb
      · exact absurd hmem (hp.fresh ho)
    have htime' : ∀ b ∈ before ++ [a], b.elapsed ≤ dconfig.decodeTimeout := by
      intro b hb
      rcases mem_append.mp hb with hb | hb
      · exact htime b hb
      · rw [mem_singleton.mp hb]
        exact haccepts.in_time
    rcases hp.step h haccepts ho with ⟨-, dec', heq, hp'⟩ | ⟨hdue, hcase⟩
    · rw [drain_cons, heq]
      rw [hassoc] at ho hopen ⊢
      exact ih hp' ho htime' hbudget hopen
    -- the attempt is reached
    have hreach : Reaches enc.inner.params config dconfig payload.length
        ((before ++ a :: rest).map call) i := by
      refine ⟨?_, ?_, ?_, fun j hj => ?_⟩ <;> rw [ho.attemptAt_eq]
      · rw [← hdue, length_map]
        exact hlength
      · have hroom := haccepts.room
        rw [hp.length_eq, h.symbolLimit_announce] at hroom
        rw [← hdue]
        exact hroom
      · rw [← hdue, take_map_append]
        intro call hcall
        obtain ⟨b, hb, rfl⟩ := mem_map.mp hcall
        exact htime' b hb
      · exact hbudget j hj
    obtain ⟨hnot, hvanish⟩ := hopen i le_rfl hreach
    rw [← hdue, take_map_append] at hnot hvanish
    rcases hcase with ⟨hdetermines, -⟩ | ⟨-, hover, e, he⟩ |
      ⟨-, hwithin, ⟨p, hreturn, hhash, hlen, hzero⟩ | ⟨dec', heq, hp'⟩⟩
    · exact absurd hdetermines hnot
    · refine .inr ⟨⟨e, by rw [drain_cons, he]⟩, fun hfree => ?_⟩
      have hle := hfree.budget i (by rw [← hdue]; exact hlength)
      rw [← hdue] at hle
      omega
    · have hp0 := hzero fun b hb => hvanish b.esi (mem_map_of_mem hb)
      rw [hp0] at hhash
      exact absurd hhash hzeros
    · rw [drain_cons, heq]
      rw [hassoc] at ho hopen ⊢
      refine ih hp' ho htime' (fun j hj => ?_) fun j hj => hopen j (by omega)
      rcases Nat.lt_succ_iff_lt_or_eq.mp hj with hj | rfl
      · exact hbudget j hj
      · rw [← hdue]
        exact hwithin

end Progress

variable {params : SystematicParams} {len : ℕ}

theorem not_determines_nil : ¬ Determines params [] := by
  intro hdetermines
  have hone := hdetermines _ (codeword_codewordOf fun _ => (1))
    (fun e he => absurd he not_mem_nil) 0 params.k_pos
  rw [codewordOf_of_lt _ params.k_pos] at hone
  exact one_ne_zero hone

/-- In a small block, all source symbols but the second one and a repair symbol that reads it
determine the codeword. -/
theorem determines_of_second (hrow : params.row = smallRow params.k) (hk : 2 ≤ params.k)
    {esis : List UInt32} (hsource : ∀ c < params.k, c ≠ 1 → UInt32.ofNat c ∈ esis) {e : UInt32}
    (he : e ∈ esis) (hrepair : params.k ≤ e.toNat)
    (hreads : dot (response (collisionOf params.k).unit1) (rowTerms params.row e) ≠ 0) :
    Determines params esis := by
  intro z hz hzero
  have hvalue : ∀ c < params.k, c ≠ 1 → z c = 0 := by
    intro c hc hne
    have hsymbol := hzero _ (hsource c hc hne)
    rwa [symbolValue, params.toNat_ofNat (hc.trans_le params.k_le), if_pos hc] at hsymbol
  have hcombination : ∀ c < params.l, z c = z 1 • response (collisionOf params.k).unit1 c := by
    intro c hc
    rw [eq_combination hrow hk hz (fun c hge hlt => hvalue c hlt (by omega)) hc,
      hvalue 0 params.k_pos (by omega), zero_smul, zero_add]
  have hsecond : z 1 = 0 := by
    have hsymbol := hzero e he
    rw [symbolValue_congr hcombination, symbolValue_smul, symbolValue_eq_row _ hrepair] at hsymbol
    exact (mul_eq_zero.mp hsymbol).resolve_right hreads
  intro c hc
  by_cases hne : c = 1
  · rw [hne, hsecond]
  · exact hvalue c hc hne

theorem EncoderOf.params_eq (h : enc.EncoderOf blake3 payload)
    (hparams : SystematicParams.tryForSourceBlock (divCeil payload.length config.symbolSize.toNat) =
      .ok params) : enc.inner.params = params := by
  have hannounced : SystematicParams.tryForSourceBlock (enc.announce true).k =
    .ok enc.inner.params := h.params_announce
  rw [h.k_announce, h.k_eq, hparams] at hannounced
  exact (Except.ok.inj hannounced).symm

/-- The hash function only decides about the hash of an encoder. -/
theorem new_of_new (blake3' : List UInt8 → Bytes 32)
    (hnew : RaptorQEncoder.new blake3 payload config = .ok enc) :
    RaptorQEncoder.new blake3' payload config =
      .ok { enc with payloadHash := blake3' payload } := by
  rw [RaptorQEncoder.new] at hnew ⊢
  split_ifs at hnew ⊢
  dsimp only at hnew ⊢
  split at hnew
  · cases hnew
  · cases hnew
    rfl

/-- If no reached attempt has symbols that determine the codeword, there is a payload whose symbols
at all of these attempts are zero although it is not zero. -/
theorem exists_open_payload (dconfig : RaptorQConfig) (hpos : 0 < len)
    (hmax : len ≤ config.maxObjectSize.toNat) (hsize : 0 < config.symbolSize.toNat)
    (hblock : divCeil len config.symbolSize.toNat ≤ 56403)
    (hparams : SystematicParams.tryForSourceBlock (divCeil len config.symbolSize.toNat) =
      .ok params) {calls : List (ℕ × UInt32)}
    (hopen : ∀ i, Reaches params config dconfig len calls i →
      ¬ Determines params
        ((calls.map Prod.snd).take (attemptAt params.k (calls.map Prod.snd) i))) :
    ∃ blake3 payload, ∃ enc : RaptorQEncoder config,
      RaptorQEncoder.new blake3 payload config = .ok enc ∧ payload.length = len ∧
      (∀ p, blake3 p = blake3 payload → p = payload) ∧
      replicate len 0 ≠ payload ∧
      ∀ i, Reaches params config dconfig len calls i →
        ∀ e ∈ (calls.map Prod.snd).take (attemptAt params.k (calls.map Prod.snd) i),
          symbolValue enc.inner.params enc.symbols e = 0 := by
  obtain ⟨esis, hesis, hsubset⟩ : ∃ esis, ¬ Determines params esis ∧
      ∀ i, Reaches params config dconfig len calls i →
        (calls.map Prod.snd).take (attemptAt params.k (calls.map Prod.snd) i) ⊆ esis := by
    classical
    by_cases hsome : ∃ i, Reaches params config dconfig len calls i
    · obtain ⟨i, hi⟩ := hsome
      have hmono := strictMono_attemptCount params.k (repairNext params.k (calls.map Prod.snd))
      have hbound : ∀ j, Reaches params config dconfig len calls j → j ≤ calls.length :=
        fun j hj => hmono.le_apply.trans hj.enough
      -- the longest of the reached attempts
      refine ⟨_, hopen _ (Nat.findGreatest_spec (hbound i hi) hi), fun j hj => ?_⟩
      exact take_subset_take_left _ (hmono.monotone (Nat.le_findGreatest (hbound j hj) hj))
    · exact ⟨[], not_determines_nil, fun i hi => absurd ⟨i, hi⟩ hsome⟩
  obtain ⟨zeros, h⟩ := EncoderOf.exists_zeros (fun _ => List.Vector.replicate 32 0) hpos hmax hsize
    hblock
  have hzeros : zeros.inner.params = params := by
    refine h.params_eq ?_
    rw [length_replicate]
    exact hparams
  rw [← hzeros] at hesis
  obtain ⟨payload, enc, hnew, h', hlength, hne, hvalues⟩ := h.exists_other_payload hesis
  rw [length_replicate] at hlength
  refine ⟨fun p => if p = payload then List.Vector.replicate 32 1 else List.Vector.replicate 32 0,
    payload, _, new_of_new _ hnew, hlength, ?_, hne.symm, ?_⟩
  · intro p hp
    by_contra hother
    dsimp only at hp
    rw [if_pos rfl, if_neg hother] at hp
    exact absurd hp (by decide)
  · intro i hi e he
    change symbolValue enc.inner.params enc.symbols e = 0
    have hsame := h.params_eq_of_length h' (by rw [hlength, length_replicate])
    rw [hsame, hvalues e (hsubset i hi he), h.symbolValue_zeros]

end RaptorQEncoder

end Flywheel.Raptorq
