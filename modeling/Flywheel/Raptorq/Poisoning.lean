import Flywheel.Raptorq.Runs

/-!
# Symbols in the padding

No encoder emits a symbol with an index from K up to K'. The decoder checks for such an index only
when it attempts a reconstruction, after the symbol was buffered, so that from then on every attempt
fails. A run with such symbols in it behaves like the run without them exactly if none of them is
buffered: each comes too late, or after the buffer was filled.
-/

namespace Flywheel.Raptorq

open Flywheel.Data RaptorQDecoder List

section Splits

variable {α : Type*} {P Q : List α → α → Prop} {l : List α} {x : α}

theorem forall_split_append_singleton :
    (∀ before a after, l ++ [x] = before ++ a :: after → P before a) ↔
      (∀ before a after, l = before ++ a :: after → P before a) ∧ P l x := by
  constructor
  · intro h
    exact ⟨fun before a after heq => h before a (after ++ [x]) (by rw [heq]; simp), h l x [] rfl⟩
  · rintro ⟨h, hx⟩ before a after heq
    rcases eq_nil_or_concat after with rfl | ⟨after, y, rfl⟩
    · obtain ⟨rfl, hlast⟩ := append_inj' heq rfl
      cases hlast
      exact hx
    · rw [concat_eq_append, ← cons_append, ← append_assoc] at heq
      exact h before a after (append_inj_left' heq rfl)

/-- Two properties of the elements of a list and those before them that agree as long as the first
one held so far. -/
theorem forall_split_congr (h : ∀ before a after, l = before ++ a :: after →
      (∀ before' b after', before = before' ++ b :: after' → P before' b) →
        (P before a ↔ Q before a)) :
    (∀ before a after, l = before ++ a :: after → P before a) ↔
      ∀ before a after, l = before ++ a :: after → Q before a := by
  induction l using reverseRecOn with
  | nil => simp
  | append_singleton l x ih =>
    have hprev := ih fun before a after heq => h before a (after ++ [x]) (by rw [heq]; simp)
    rw [forall_split_append_singleton, forall_split_append_singleton, ← hprev]
    exact and_congr_right fun hl => h l x [] rfl hl

end Splits

namespace RaptorQEncoder

variable {blake3 : List UInt8 → Bytes 32} {config dconfig : RaptorQConfig} {payload : List UInt8}
  {enc : RaptorQEncoder config} {withHash : Bool}

/-- A symbol of the right size in the padding. -/
structure InPadding (enc : RaptorQEncoder config) (a : Arrival) : Prop where
  k_le : enc.inner.params.k ≤ a.esi.toNat
  lt_kPrime : a.esi.toNat < enc.inner.params.kPrime
  size : a.data.length = config.symbolSize.toNat

theorem InPadding.not_range {a : Arrival} (ha : enc.InPadding a) :
    ¬ (a.esi.toNat < enc.inner.params.k ∨ enc.inner.params.kPrime ≤ a.esi.toNat) := by
  have hk := ha.k_le
  have hlt := ha.lt_kPrime
  omega

/-- A symbol is refused without being buffered, or it has no effect on later attempts: whatever
emitted symbols follow, an attempt gives what it would give without the symbol. -/
def Harmless (blake3 : List UInt8 → Bytes 32) (enc : RaptorQEncoder config)
    (dec : RaptorQDecoder (enc.announce withHash) dconfig) (a : Arrival) : Prop :=
  ((∃ err, (dec.receive blake3 a).1 = .error err) ∧
      (dec.receive blake3 a).2.received = dec.received) ∨
    ∀ further, (∀ b ∈ further, enc.Emits b) →
      ((dec.receive blake3 a).2.feed blake3 further).tryReconstruct blake3 =
        (dec.feed blake3 further).tryReconstruct blake3

namespace EncoderOf

section Poisoned

variable {dec : RaptorQDecoder (enc.announce withHash) dconfig} {a b : Arrival}

theorem mem_esis_receive {esi : UInt32} (hesi : esi ∈ dec.esis) :
    esi ∈ (dec.receive blake3 b).2.esis := by
  by_cases haccepts : dec.Accepts b
  · exact (esis_receive blake3 haccepts).mem_iff.mpr (mem_cons_of_mem _ hesi)
  · rw [(receive_of_not_accepts blake3 haccepts).1]
    exact hesi

variable (h : enc.EncoderOf blake3 payload) (ha : enc.InPadding a)
include h ha

/-- A symbol in the padding makes every attempt fail. -/
theorem tryReconstruct_of_padding (hbounds : (enc.announce withHash).WithinBounds dconfig)
    (hesi : a.esi ∈ dec.esis) :
    ∃ reason, dec.tryReconstruct blake3 = .error (.invalidSymbol reason) := by
  obtain ⟨p, hp, heq⟩ := mem_map.mp hesi
  rw [h.tryReconstruct_announce hbounds]
  simp only [reconstructBlock]
  cases hfind : dec.received.find? fun p =>
      (enc.announce withHash).k ≤ p.1.toNat ∧ p.1.toNat < enc.inner.params.kPrime with
  | some q => exact ⟨_, rfl⟩
  | none =>
    have hnot := find?_eq_none.mp hfind p hp
    rw [decide_eq_true_eq, h.k_announce, heq] at hnot
    exact absurd ⟨ha.k_le, ha.lt_kPrime⟩ hnot

/-- A call after which a symbol in the padding is buffered returns no payload. -/
theorem receive_ne_of_padding (hesi : a.esi ∈ (dec.receive blake3 b).2.esis) (p : List UInt8) :
    (dec.receive blake3 b).1 ≠ .ok (some p) := by
  intro hresponse
  obtain ⟨haccepts, -, hattempt⟩ := exists_attempt_of_response hresponse
  have hinsert : a.esi ∈ (dec.insert b.esi (Symbol.ofBytes b.data haccepts.size)).esis :=
    (esis_insert _ haccepts.fresh).mem_iff.mpr ((esis_receive blake3 haccepts).mem_iff.mp hesi)
  obtain ⟨reason, hreason⟩ := h.tryReconstruct_of_padding ha
    (h.validateDecodeBounds_announce.mp haccepts.bounds) hinsert
  cases hreason.symm.trans hattempt

/-- Once a symbol in the padding is buffered, no call returns a payload any more. -/
theorem not_mem_responses_of_padding (hesi : a.esi ∈ dec.esis) (arrivals : List Arrival)
    (p : List UInt8) : .ok (some p) ∉ dec.responses blake3 arrivals := by
  induction arrivals generalizing dec with
  | nil => exact not_mem_nil
  | cons b rest ih =>
    have hnext : a.esi ∈ (dec.receive blake3 b).2.esis := mem_esis_receive hesi
    rw [responses, mem_cons, not_or]
    exact ⟨(h.receive_ne_of_padding ha hnext p).symm, ih hnext⟩

end Poisoned

variable {dec : RaptorQDecoder (enc.announce withHash) dconfig} {a : Arrival}

theorem not_emits_of_inPadding (h : enc.EncoderOf blake3 payload) (ha : enc.InPadding a) :
    ¬ enc.Emits a :=
  fun hemits => ha.not_range (h.emits_iff.mp hemits).1

theorem not_mem_esis_of_inPadding (hbuffer : dec.HonestBuffer enc.inner.params enc.symbols)
    (ha : enc.InPadding a) : a.esi ∉ dec.esis := by
  intro hmem
  obtain ⟨p, hp, heq⟩ := mem_map.mp hmem
  exact ha.not_range (heq ▸ hbuffer.emitted p hp)

variable (h : enc.EncoderOf blake3 payload)
include h

/-- A symbol in the padding is buffered if it comes in time and there is room. -/
theorem accepts_of_inPadding (hbounds : (enc.announce withHash).WithinBounds dconfig)
    (hbuffer : dec.HonestBuffer enc.inner.params enc.symbols) (ha : enc.InPadding a)
    (htime : a.elapsed ≤ dconfig.decodeTimeout)
    (hroom : dec.received.length < (enc.announce withHash).symbolLimit dconfig) : dec.Accepts a :=
  ⟨htime, h.validateDecodeBounds_announce.mpr hbounds, h.nonempty_announce, ha.size,
    not_mem_esis_of_inPadding hbuffer ha, hroom⟩

/-- On an honest buffer, a symbol in the padding is harmless exactly if it is not buffered. -/
theorem harmless_iff
    (hbuffer : dec.HonestBuffer enc.inner.params enc.symbols) (ha : enc.InPadding a) :
    enc.Harmless blake3 dec a ↔ ¬ dec.Accepts a := by
  constructor
  · intro hharmless haccepts
    have hbounds := h.validateDecodeBounds_announce.mp haccepts.bounds
    have hperm := esis_receive blake3 haccepts
    rcases hharmless with ⟨-, hreceived⟩ | hsame
    · have hlength := hperm.length_eq
      rw [esis, hreceived, length_cons, esis] at hlength
      omega
    · -- The next attempt would already tell the two buffers apart.
      have hesi := hperm.mem_iff.mpr (mem_cons_self ..)
      obtain ⟨reason, hreason⟩ := h.tryReconstruct_of_padding ha hbounds hesi
      refine h.tryReconstruct_ne_invalidSymbol hbounds hbuffer reason ?_
      rw [← hreason]
      exact (hsame [] (by simp)).symm
  · intro haccepts
    obtain ⟨hsame, hresponse⟩ := receive_of_not_accepts blake3 haccepts
    refine .inl ⟨?_, congrArg received hsame⟩
    exact hresponse.resolve_right fun hduplicate =>
      not_mem_esis_of_inPadding hbuffer ha hduplicate.2

variable {arrivals : List Arrival}

variable (hmixed : ∀ a ∈ arrivals, enc.Emits a ∨ enc.InPadding a)
  (hrefused : ∀ before a after, arrivals = before ++ a :: after → enc.InPadding a →
    ¬ (dec.feed blake3 before).Accepts a)
include hmixed hrefused

/-- If no symbol in the padding is buffered, the run leads where the emitted symbols alone lead. -/
theorem feed_filter_emits :
    dec.feed blake3 (arrivals.filter fun a => enc.Emits a) = dec.feed blake3 arrivals := by
  induction arrivals using reverseRecOn with
  | nil => rfl
  | append_singleton arrivals a ih =>
    obtain ⟨hrefused, hlast⟩ := forall_split_append_singleton.mp hrefused
    have hprev := ih (fun b hb => hmixed b (mem_append_left _ hb)) hrefused
    rw [filter_append, feed_append_singleton]
    rcases hmixed a (by simp) with hemits | hpadding
    · rw [filter_cons_of_pos (by exact decide_eq_true hemits), filter_nil,
        feed_append_singleton, hprev]
    · rw [filter_cons_of_neg (by simpa using h.not_emits_of_inPadding hpadding),
        filter_nil, append_nil, hprev]
      exact (receive_of_not_accepts blake3 (hlast hpadding)).1.symm

/-- If no symbol in the padding is buffered, the run returns what the emitted symbols alone
return. -/
theorem mem_responses_of_filter_emits {r : Except DecodeError (Option (List UInt8))}
    (hr : r ∈ dec.responses blake3 (arrivals.filter fun a => enc.Emits a)) :
    r ∈ dec.responses blake3 arrivals := by
  rw [mem_responses] at hr ⊢
  obtain ⟨before', a, after', hfilter, hresponse⟩ := hr
  obtain ⟨before, rest, rfl, rfl, hrest⟩ := filter_eq_append_iff.mp hfilter
  obtain ⟨skipped, after, rfl, hskipped, -, -⟩ := filter_eq_cons_iff.mp hrest
  refine ⟨before ++ skipped, a, after, by simp, ?_⟩
  have hfeed : dec.feed blake3 ((before ++ skipped).filter fun a => enc.Emits a) =
      dec.feed blake3 (before ++ skipped) := by
    refine h.feed_filter_emits (fun b hb => hmixed b ?_) fun before' b after' heq =>
      hrefused before' b (after' ++ a :: after) ?_
    · rw [← append_assoc]
      exact mem_append_left _ hb
    · rw [← append_assoc, heq]
      simp
  rw [filter_append, filter_eq_nil_iff.mpr hskipped, append_nil] at hfeed
  rw [← hfeed]
  exact hresponse

end EncoderOf

/-- Symbols in the padding, inserted into a run of emitted symbols that returns the payload, leave
it returned and are all harmless exactly if each of them comes after the timeout or after the buffer
was filled with emitted symbols. -/
theorem padding_harmless_iff (hnew : RaptorQEncoder.new blake3 payload config = .ok enc)
    {arrivals : List Arrival} (hmixed : ∀ a ∈ arrivals, enc.Emits a ∨ enc.InPadding a)
    (hplain : .ok (some payload) ∈ (RaptorQDecoder.new (enc.announce withHash) dconfig).responses
      blake3 (arrivals.filter fun a => enc.Emits a)) :
    (.ok (some payload) ∈
        (RaptorQDecoder.new (enc.announce withHash) dconfig).responses blake3 arrivals ∧
      ∀ before a after, arrivals = before ++ a :: after → enc.InPadding a →
        enc.Harmless blake3
          ((RaptorQDecoder.new (enc.announce withHash) dconfig).feed blake3 before) a) ↔
    ∀ before a after, arrivals = before ++ a :: after → enc.InPadding a →
      dconfig.decodeTimeout < a.elapsed ∨
        (enc.announce withHash).symbolLimit dconfig ≤
          (onTime dconfig (before.filter fun b => enc.Emits b)).toFinset.card := by
  have h := encoderOf_of_new hnew
  have hfresh := EncoderOf.honestBuffer_new enc withHash dconfig
  set dec := RaptorQDecoder.new (enc.announce withHash) dconfig
  obtain ⟨first, b, rest, -, hresponse⟩ := (mem_responses blake3).mp hplain
  obtain ⟨haccepted, -⟩ := exists_attempt_of_response hresponse
  have hbounds := h.validateDecodeBounds_announce.mp haccepted.bounds
  have hemitted : ∀ before : List Arrival, ∀ b ∈ before.filter fun b => enc.Emits b, enc.Emits b :=
    fun before b hb => of_decide_eq_true (mem_filter.mp hb).2
  have hfeed : ∀ before a after, arrivals = before ++ a :: after →
      (∀ before' b after', before = before' ++ b :: after' → enc.InPadding b →
        ¬ (dec.feed blake3 before').Accepts b) →
      dec.feed blake3 (before.filter fun b => enc.Emits b) = dec.feed blake3 before :=
    fun before a after heq => h.feed_filter_emits fun b hb =>
      hmixed b (by rw [heq]; exact mem_append_left _ hb)
  -- As long as none was buffered, a symbol is harmless, or late, exactly if it is not buffered.
  have hharmless := forall_split_congr
    (Q := fun before a => enc.InPadding a → enc.Harmless blake3 (dec.feed blake3 before) a)
    fun before a after heq hearlier => forall_congr' fun ha => by
      rw [← hfeed before a after heq hearlier]
      exact (h.harmless_iff (h.honestBuffer_feed hfresh (hemitted before)) ha).symm
  rw [← hharmless, and_iff_right_of_imp fun hrefused =>
    h.mem_responses_of_filter_emits hmixed hrefused hplain]
  exact forall_split_congr fun before a after heq hearlier => forall_congr' fun ha => by
    rw [← hfeed before a after heq hearlier, ← symbolLimit_le_length_feed_iff haccepted.bounds
      h.nonempty_announce fun b hb => h.length_of_emits (hemitted before b hb)]
    constructor
    · intro hrefused
      by_contra hnot
      rw [not_or, Nat.not_lt, Nat.not_le] at hnot
      exact hrefused (h.accepts_of_inPadding hbounds (h.honestBuffer_feed hfresh (hemitted before))
        ha hnot.1 hnot.2)
    · rintro (hlate | hfull) haccepts
      · exact Nat.not_le.mpr hlate haccepts.in_time
      · exact Nat.not_le.mpr haccepts.room hfull

/-- A configuration with symbols of eight bytes. -/
def eightByteConfig : RaptorQConfig := ⟨8, 500, 64, 30000000000⟩

/-- BLAKE3 on the payload of one byte below. -/
def blake3OfSeven (_ : List UInt8) : Bytes 32 :=
  ⟨[68,139,216,221,150,36,21,74,105,15,142,132,220,82,214,246,51,186,124,213,69,
    196,211,201,180,224,246,162,246,250,113,244], rfl⟩

/-- The source symbol of the payload `[7]`. -/
def sevenSymbol : Arrival := ⟨0, 0, [7, 0, 0, 0, 0, 0, 0, 0]⟩

/-- A symbol of zeros in the padding. -/
def paddingSymbol (elapsed : ℕ) : Arrival := ⟨elapsed, 1, [0, 0, 0, 0, 0, 0, 0, 0]⟩

/-- The encoder of the payload `[7]`, its symbols, and the run over its source symbol. -/
theorem exists_single_symbol : ∃ enc, RaptorQEncoder.new blake3OfSeven [7] eightByteConfig = .ok enc ∧
    enc.EncoderOf blake3OfSeven [7] ∧ enc.HonestStream false eightByteConfig [sevenSymbol] ∧
    (∀ elapsed, enc.InPadding (paddingSymbol elapsed)) ∧
    .ok (some [7]) ∈ (RaptorQDecoder.new (enc.announce false) eightByteConfig).responses
      blake3OfSeven [sevenSymbol] := by
  obtain ⟨enc, hnew, h⟩ : ∃ enc, RaptorQEncoder.new blake3OfSeven [7] eightByteConfig = .ok enc ∧
      enc.EncoderOf blake3OfSeven [7] :=
    exists_new (by decide) (by decide) (by decide) (by decide)
  have hk : enc.inner.params.k = 1 := h.k_eq
  have hrow := SystematicParams.row_of_le h.inner.params_eq (by decide)
  have hkPrime : enc.inner.params.kPrime = 10 := congrArg IndexRow.kPrime hrow
  have hemits : enc.Emits sevenSymbol := by
    refine h.emits_iff.mpr ⟨.inl (by rw [hk]; decide), ?_⟩
    rw [symbolValue, if_pos (by rw [hk]; decide), h.symbols_of_lt (by rw [hk]; decide)]
    decide
  have hstream : enc.HonestStream false eightByteConfig [sevenSymbol] := by
    refine ⟨?_, nodup_singleton _, ?_, ?_⟩
    · exact fun a ha => mem_singleton.mp ha ▸ hemits
    · exact fun a ha => mem_singleton.mp ha ▸ Nat.zero_le _
    · exact le_maxSymbolsWithHeadroom (by simp) (by decide)
  have hdetermines : Determines enc.inner.params [0] :=
    determines_of_source fun c hc => by
      obtain rfl : c = 0 := by omega
      exact mem_singleton.mpr rfl
  have hreturn : (((RaptorQDecoder.new (enc.announce false) eightByteConfig).feed blake3OfSeven
      []).receive blake3OfSeven sevenSymbol).1 = .ok (some [7]) := by
    have hstream' : enc.HonestStream false eightByteConfig ([] ++ [sevenSymbol]) := hstream
    have hesis := h.esis_insert_of_stream h.withinBounds_announce hstream'
      (Symbol.ofBytes sevenSymbol.data (h.length_of_emits hemits))
    rw [h.receive_of_first_attempt h.withinBounds_announce hstream' (by rw [hk]; rfl)
        (h.length_of_emits hemits), fst_attemptReconstruct,
      h.tryReconstruct_of_determines h.withinBounds_announce
        (h.honestBuffer_insert (h.honestBuffer_feed (EncoderOf.honestBuffer_new ..)
          hstream'.of_append.emits) hemits _)
        (by rw [h.k_announce, hk]; rfl) (hdetermines.mono hesis.symm.subset)]
  refine ⟨enc, hnew, h, hstream, fun elapsed => ⟨hk.le, ?_, rfl⟩,
    mem_singleton.mpr hreturn.symm⟩
  rw [hkPrime]
  exact (by decide : (1 : UInt32).toNat < 10)

/-- A symbol in the padding that comes too late is harmless. -/
theorem late_padding_harmless : ∃ enc,
    RaptorQEncoder.new blake3OfSeven [7] eightByteConfig = .ok enc ∧
    .ok (some [7]) ∈ (RaptorQDecoder.new (enc.announce false) eightByteConfig).responses
      blake3OfSeven [paddingSymbol 30000000001, sevenSymbol] ∧
    enc.Harmless blake3OfSeven (RaptorQDecoder.new (enc.announce false) eightByteConfig)
      (paddingSymbol 30000000001) := by
  obtain ⟨enc, hnew, h, hstream, hpadding, hplain⟩ := exists_single_symbol
  have hemits : enc.Emits sevenSymbol := hstream.emits _ (mem_singleton.mpr rfl)
  have hfilter : ([paddingSymbol 30000000001, sevenSymbol].filter fun a => enc.Emits a) =
      [sevenSymbol] := by
    rw [filter_cons_of_neg (by simpa using h.not_emits_of_inPadding (hpadding _)),
      filter_cons_of_pos (by simpa using hemits), filter_nil]
  have hmixed : ∀ a ∈ [paddingSymbol 30000000001, sevenSymbol],
      enc.Emits a ∨ enc.InPadding a := by
    intro a ha
    rcases mem_cons.mp ha with rfl | ha
    · exact .inr (hpadding _)
    · exact .inl (mem_singleton.mp ha ▸ hemits)
  rw [← hfilter] at hplain
  obtain ⟨hreturns, hharmless⟩ := (padding_harmless_iff hnew hmixed hplain).mpr
    fun before a after heq ha => by
      have hmem : a ∈ [paddingSymbol 30000000001, sevenSymbol] := by
        rw [heq]
        exact mem_append_right _ (mem_cons_self ..)
      rcases mem_cons.mp hmem with rfl | hmem
      · exact .inl (by decide)
      · exact absurd (mem_singleton.mp hmem ▸ hemits) (h.not_emits_of_inPadding ha)
  exact ⟨enc, hnew, hreturns, hharmless [] _ [sevenSymbol] rfl (hpadding _)⟩

/-- A symbol in the padding that comes first keeps the payload from being returned. -/
theorem padding_poisons : ∃ enc,
    RaptorQEncoder.new blake3OfSeven [7] eightByteConfig = .ok enc ∧
    enc.Emits sevenSymbol ∧ enc.InPadding (paddingSymbol 0) ∧
    .ok (some [7]) ∈ (RaptorQDecoder.new (enc.announce false) eightByteConfig).responses
      blake3OfSeven [sevenSymbol] ∧
    ∀ p, .ok (some p) ∉ (RaptorQDecoder.new (enc.announce false) eightByteConfig).responses
      blake3OfSeven [paddingSymbol 0, sevenSymbol] := by
  obtain ⟨enc, hnew, h, hstream, hpadding, hplain⟩ := exists_single_symbol
  refine ⟨enc, hnew, hstream.emits _ (mem_singleton.mpr rfl), hpadding 0, hplain, fun p => ?_⟩
  have haccepts : (RaptorQDecoder.new (enc.announce false) eightByteConfig).Accepts
      (paddingSymbol 0) :=
    h.accepts_of_inPadding h.withinBounds_announce (EncoderOf.honestBuffer_new ..) (hpadding 0)
      (Nat.zero_le _) (le_maxSymbolsWithHeadroom (by simp [RaptorQDecoder.new]) (by decide : 1 ≤ u32Max))
  have hesi := (esis_receive blake3OfSeven haccepts).mem_iff.mpr
    (mem_cons_self ..)
  rw [responses, mem_cons, not_or]
  exact ⟨(h.receive_ne_of_padding (hpadding 0) hesi p).symm,
    h.not_mem_responses_of_padding (hpadding 0) hesi _ p⟩

/-! ### Streams without loss -/

/-- In time and in whatever order, the source symbols give the payload back with the last of them. -/
theorem source_symbols_decode (hnew : RaptorQEncoder.new blake3 payload config = .ok enc)
    {before : List Arrival} {a : Arrival}
    (hsource : ((before ++ [a]).map fun b => (b.esi, b.data)).Perm
      (enc.encodeAll.take enc.inner.params.k))
    (htime : ∀ b ∈ before ++ [a], b.elapsed ≤ config.decodeTimeout) :
    (((RaptorQDecoder.new (enc.announce withHash) config).feed blake3 before).receive blake3 a).1 =
      .ok (some payload) := by
  have h := encoderOf_of_new hnew
  have hk := h.length_sourceData
  have hannounced : (enc.announce withHash).k = enc.inner.params.k := h.k_announce
  have htoNat {i : ℕ} (hi : i < enc.inner.params.k) : (UInt32.ofNat i).toNat = i :=
    enc.inner.params.toNat_ofNat (hi.trans_le enc.inner.params.k_le)
  rw [encodeAll, take_left' (by rw [length_map, length_zipIdx, hk])] at hsource
  have hesis : ((before ++ [a]).map Arrival.esi).Perm
      ((range enc.inner.params.k).map UInt32.ofNat) := by
    have hfst := hsource.map Prod.fst
    rw [map_map, map_map] at hfst
    rw [← hk, range_eq_range', ← zipIdx_map_snd 0 enc.sourceData, map_map]
    exact hfst
  have hlength := hesis.length_eq
  rw [length_map, length_map, length_range] at hlength
  have hs : enc.HonestStream withHash config (before ++ [a]) := by
    refine ⟨fun b hb => ?_, hesis.nodup_iff.mpr (nodup_range.map_on fun i hi j hj heq => ?_),
      htime, ?_⟩
    · obtain ⟨p, hp, heq⟩ := mem_map.mp (hsource.mem_iff.mp (mem_map.mpr ⟨b, hb, rfl⟩))
      obtain ⟨hesi, hdata⟩ := Prod.mk.inj heq
      obtain ⟨hi, hget⟩ := List.getElem?_eq_some_iff.mp (mem_zipIdx_iff_getElem?.mp hp)
      have hindex := htoNat (hk ▸ hi)
      rw [hesi] at hindex
      rw [Emits, emitted, dif_pos (by rwa [hindex]), ← hdata, ← hget]
      simp only [hindex]
    · rw [← htoNat (mem_range.mp hi), ← htoNat (mem_range.mp hj), heq]
    · rw [hlength, ← hannounced]
      exact ObjectTransmissionInformation.k_le_symbolLimit ..
  have hbounds : (enc.announce withHash).WithinBounds config := h.withinBounds_announce
  have hemits := hs.emits a (by simp)
  have hinsert := h.esis_insert_of_stream hbounds hs
    (Symbol.ofBytes a.data (h.length_of_emits hemits))
  rw [h.receive_of_first_attempt hbounds hs (by simpa using hlength) (h.length_of_emits hemits),
    fst_attemptReconstruct, h.tryReconstruct_of_determines hbounds
      (h.honestBuffer_insert (h.honestBuffer_feed (EncoderOf.honestBuffer_new ..)
        hs.of_append.emits) hemits _) ?_ (determines_of_source fun c hc => ?_)]
  · rw [hannounced, ← length_esis, hinsert.length_eq, length_map, hlength]
  · exact (hinsert.trans hesis).mem_iff.mpr (mem_map_of_mem (mem_range.mpr hc))

/-- The payload `[7]` from its one source symbol. -/
theorem seven_decodes : ∃ enc, RaptorQEncoder.new blake3OfSeven [7] eightByteConfig = .ok enc ∧
    (((RaptorQDecoder.new (enc.announce true) eightByteConfig).feed blake3OfSeven []).receive
      blake3OfSeven sevenSymbol).1 = .ok (some [7]) := by
  obtain ⟨enc, hnew, h, -⟩ := exists_single_symbol
  refine ⟨enc, hnew, source_symbols_decode hnew (.of_eq ?_) (by decide)⟩
  rw [encodeAll, h.source_eq, h.k_eq]
  rfl

end RaptorQEncoder

end Flywheel.Raptorq
