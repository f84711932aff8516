import Flywheel.Protocol.Fcps

/-!
# Round trips of the FCPS frame codec

The header decoder accepts exactly the strings that begin with the encoding of
an admissible header, and the frame decoder accepts exactly the encodings of
well-formed frames that fit the datagram limit. Canonical decoding and the exact
scope of the encode-decode law are consequences of the latter equivalence.
-/

namespace Flywheel.Protocol

open Data SymbolRecord FcpsFrame List

/-- The header checks of the decoder, on a header value: current version, known
and consistent flags, positive symbol size. -/
structure FcpsFrameHeader.Admissible (h : FcpsFrameHeader) : Prop where
  version_eq : h.version = fcpsVersion
  flags_known : FrameFlags.fromBits h.flags.bits = some h.flags
  flags_exclusive : (h.flags.contains .error && h.flags.contains .response) = false
  flags_stream : (h.flags.contains .streamEnd && !h.flags.contains .streaming) = false
  symbolSize_ne : h.symbolSize ≠ 0

@[simp] theorem FcpsFrameHeader.encode_length (h : FcpsFrameHeader) :
    h.encode.length = fcpsHeaderLen := by
  simp [FcpsFrameHeader.encode, fcpsHeaderLen]

variable {h : FcpsFrameHeader}

/-- A header that passes the decoder's checks is decoded from its encoding,
whatever follows it. -/
theorem FcpsFrameHeader.decode_encode_append (hadm : h.Admissible)
    (rest : List UInt8) : FcpsFrameHeader.decode (h.encode ++ rest) = .ok h := by
  have hlen : ¬ (h.encode ++ rest).length < fcpsHeaderLen := by
    simp only [length_append, FcpsFrameHeader.encode_length]
    omega
  -- every field is read back from its own range
  rw [FcpsFrameHeader.decode, if_neg hlen, FcpsFrameHeader.encode]
  simp [slice_append_right, slice_append_left, hadm.flags_known,
    hadm.flags_exclusive, hadm.flags_stream, hadm.symbolSize_ne]
  rw [← hadm.version_eq]

variable {bytes : List UInt8}

/-- A decoded header passes the decoder's checks, and the string begins with its
encoding. -/
theorem FcpsFrameHeader.encode_of_decode (hok : FcpsFrameHeader.decode bytes = .ok h) :
    h.Admissible ∧ fcpsHeaderLen ≤ bytes.length ∧ slice bytes 0 fcpsHeaderLen = h.encode := by
  simp only [FcpsFrameHeader.decode] at hok
  split_ifs at hok with hlen hmagic hversion hsize
  · split at hok
    · cases hok
    · split_ifs at hok
  split at hok
  · cases hok
  rename_i flags hflags
  split_ifs at hok with hexclusive hstream
  have hbits : flags.bits = UInt16.ofNat (leNat (slice bytes 6 2)) := by
    unfold FrameFlags.fromBits at hflags
    split at hflags <;> cases hflags
    rfl
  have hle : 114 ≤ bytes.length := by
    simpa [fcpsHeaderLen] using hlen
  simp only [not_not] at hmagic hversion
  injection hok with hh
  subst hh
  refine ⟨⟨hversion, ?_, ?_, ?_, hsize⟩, hle, ?_⟩
  · rw [← hbits] at hflags
    exact hflags
  · simpa using hexclusive
  · simpa using hstream
  · have hm : slice bytes 0 4 = fcpsMagic.toList := by
      rw [← hmagic, toList_arrayOf (slice_length (by omega))]
    simp only [FcpsFrameHeader.encode, hbits, ← hm]
    simp (disch := exact slice_length (by omega)) only [leBytes_ofNat_leNat_two,
      leBytes_ofNat_leNat_four, leBytes_ofNat_leNat_eight, toList_arrayOf]
    simp only [slice_append_slice bytes 98 8 8, slice_append_slice bytes 90 8,
      slice_append_slice bytes 58 32, slice_append_slice bytes 50 8,
      slice_append_slice bytes 48 2, slice_append_slice bytes 16 32,
      slice_append_slice bytes 12 4, slice_append_slice bytes 8 4,
      slice_append_slice bytes 6 2, slice_append_slice bytes 4 2,
      slice_append_slice bytes 0 4, fcpsHeaderLen]

@[simp] theorem SymbolRecord.encode_length (r : SymbolRecord) : r.encode.length = r.wireSize := by
  simp only [encode, wireSize, symbolRecordOverhead,
    length_append, leBytes_length, Vector.toList_length]
  omega

variable {symbolSize : UInt16}

/-- A record whose data has the symbol size is decoded from its encoding,
whatever follows it. -/
theorem SymbolRecord.decode_encode_append {r : SymbolRecord}
    (hsize : r.data.length = symbolSize.toNat) (rest : List UInt8) :
    decode (r.encode ++ rest) symbolSize = .ok r := by
  have hlen : ¬ (r.encode ++ rest).length < symbolRecordOverhead + symbolSize.toNat := by
    simp only [length_append, encode_length, wireSize]
    omega
  have hesi : slice (r.encode ++ rest) 0 4 = leBytes 4 r.esi.toNat := by
    simp [encode, slice_append_left]
  have hk : slice (r.encode ++ rest) 4 2 = leBytes 2 r.k.toNat := by
    simp [encode, slice_append_right, slice_append_left]
  have hdata : slice (r.encode ++ rest) 6 symbolSize.toNat = r.data := by
    simp [encode, slice_append_right, slice_append_left, hsize]
  have htag : slice (r.encode ++ rest) (6 + symbolSize.toNat) 16 = r.authTag.toList := by
    have hdrop : 6 + symbolSize.toNat - 4 - 2 = r.data.length := by omega
    simp only [encode, append_assoc]
    rw [slice_append_right (by simp; omega), slice_append_right (by simp; omega),
      leBytes_length, leBytes_length, hdrop, slice_append_right le_rfl, Nat.sub_self,
      slice_append_left (by simp)]
  simp only [decode, if_neg hlen, hesi, hk, Nat.add_sub_cancel_left, hdata, htag,
    UInt32.ofNat_leNat_leBytes, UInt16.ofNat_leNat_leBytes, arrayOf_toList]

/-- A decoded record has data of the symbol size, and the string begins with its
encoding. -/
theorem SymbolRecord.encode_of_decode {r : SymbolRecord} (hok : decode bytes symbolSize = .ok r) :
    r.data.length = symbolSize.toNat ∧
      slice bytes 0 (symbolRecordOverhead + symbolSize.toNat) = r.encode := by
  simp only [decode] at hok
  split_ifs at hok with hlen
  have hle : 22 + symbolSize.toNat ≤ bytes.length := by
    simpa [symbolRecordOverhead] using hlen
  injection hok with hr
  subst hr
  simp only [Nat.add_sub_cancel_left]
  refine ⟨slice_length (by omega), ?_⟩
  simp only [encode]
  rw [leBytes_ofNat_leNat_four (slice_length (by omega)),
    leBytes_ofNat_leNat_two (slice_length (by omega)),
    toList_arrayOf (slice_length (by omega)), slice_append_slice bytes 6,
    slice_append_slice bytes 4 2, slice_append_slice bytes 0 4]
  congr 1
  simp only [symbolRecordOverhead]
  omega

variable {records : List SymbolRecord}

/-- The record loop returns the records written at its offset. -/
theorem FcpsFrame.decodeSymbols_complete {rest : List UInt8} {offset : ℕ}
    (hsize : ∀ r ∈ records, r.data.length = symbolSize.toNat)
    (hbytes : bytes.drop offset = records.flatMap SymbolRecord.encode ++ rest) :
    decodeSymbols bytes symbolSize (symbolRecordOverhead + symbolSize.toNat)
      records.length offset = .ok records := by
  induction records generalizing offset with
  | nil => rfl
  | cons r records ih =>
    have hr : r.data.length = symbolSize.toNat := hsize r (by simp)
    have hhead : bytes.drop offset =
        r.encode ++ (records.flatMap SymbolRecord.encode ++ rest) := by
      simpa only [flatMap_cons, append_assoc] using hbytes
    have htail : bytes.drop (offset + (symbolRecordOverhead + symbolSize.toNat)) =
        records.flatMap SymbolRecord.encode ++ rest := by
      have hlen : r.encode.length = symbolRecordOverhead + symbolSize.toNat := by
        rw [encode_length, wireSize, hr]
      rw [← drop_drop, hhead, drop_left' hlen]
    have hrest := ih (fun r' hr' => hsize r' (by simp [hr'])) htail
    simp only [length_cons, decodeSymbols, hhead, decode_encode_append hr, hrest]

/-- What the record loop returns has the number of records asked for, each with
data of the symbol size, and is what the string holds from the offset on. -/
theorem FcpsFrame.decodeSymbols_sound {count offset : ℕ} (hok : decodeSymbols bytes symbolSize
      (symbolRecordOverhead + symbolSize.toNat) count offset = .ok records) :
    records.length = count ∧ (∀ r ∈ records, r.data.length = symbolSize.toNat) ∧
      slice bytes offset (count * (symbolRecordOverhead + symbolSize.toNat)) =
        records.flatMap SymbolRecord.encode := by
  induction count generalizing offset records with
  | zero =>
    cases hok
    simp [slice]
  | succ count ih =>
    simp only [decodeSymbols] at hok
    split at hok
    · cases hok
    rename_i r hr
    split at hok
    · cases hok
    rename_i records' hrecords'
    cases hok
    obtain ⟨hdata, hencode⟩ := encode_of_decode hr
    obtain ⟨hlen, hsizes, hslice⟩ := ih hrecords'
    refine ⟨by simp [hlen], forall_mem_cons.mpr ⟨hdata, hsizes⟩, ?_⟩
    have hfirst : slice bytes offset (symbolRecordOverhead + symbolSize.toNat) = r.encode := by
      simpa only [slice, drop_zero] using hencode
    rw [flatMap_cons, ← hslice, ← hfirst, slice_append_slice, Nat.succ_mul, Nat.add_comm]

/-- The zero-copy record loop is the owning one with the data not yet copied. -/
theorem FcpsFrameRefs.decodeSymbols_toOwned (bytes : List UInt8) (symbolSize : UInt16)
    (recordSize count offset : ℕ) :
    (FcpsFrameRefs.decodeSymbols bytes symbolSize recordSize count offset).map
        (map SymbolRecordRef.toOwned) =
      FcpsFrame.decodeSymbols bytes symbolSize recordSize count offset := by
  induction count generalizing offset with
  | zero => rfl
  | succ count ih =>
    have hrecord (buffer) : SymbolRecord.decode buffer symbolSize =
        (SymbolRecordRef.decode buffer symbolSize).map SymbolRecordRef.toOwned := by
      unfold SymbolRecord.decode SymbolRecordRef.decode
      simp only
      split <;> rfl
    simp only [FcpsFrameRefs.decodeSymbols, FcpsFrame.decodeSymbols, hrecord, ← ih]
    cases SymbolRecordRef.decode (bytes.drop offset) symbolSize <;>
      cases FcpsFrameRefs.decodeSymbols bytes symbolSize recordSize count (offset + recordSize) <;>
      rfl

/-- The length checks succeed exactly when the declared payload is that of the
declared records and the string ends with it. No machine word overflows. -/
theorem validateFrameLengths_ok_iff :
    validateFrameLengths bytes h = .ok () ↔
      h.totalPayloadLen.toNat =
          h.symbolCount.toNat * (symbolRecordOverhead + h.symbolSize.toNat) ∧
        bytes.length = fcpsHeaderLen + h.totalPayloadLen.toNat := by
  have hsize := h.symbolSize.toNat_lt
  have hcount := h.symbolCount.toNat_lt
  have hrecord : symbolRecordOverhead + h.symbolSize.toNat ≤ 2 ^ 17 := by
    simp only [symbolRecordOverhead]
    omega
  have hpayload := Nat.mul_le_mul hcount.le hrecord
  have hadd : checkedAdd symbolRecordOverhead h.symbolSize.toNat =
      some (symbolRecordOverhead + h.symbolSize.toNat) := by
    rw [checkedAdd, if_pos (by simp only [usizeMax]; omega)]
  have hmul : checkedMul h.symbolCount.toNat (symbolRecordOverhead + h.symbolSize.toNat) =
      some (h.symbolCount.toNat * (symbolRecordOverhead + h.symbolSize.toNat)) := by
    rw [checkedMul, if_pos (by simp only [usizeMax]; omega)]
  have htotal : checkedAdd fcpsHeaderLen
      (h.symbolCount.toNat * (symbolRecordOverhead + h.symbolSize.toNat)) =
      some (fcpsHeaderLen +
        h.symbolCount.toNat * (symbolRecordOverhead + h.symbolSize.toNat)) := by
    rw [checkedAdd, if_pos (by simp only [usizeMax, fcpsHeaderLen]; omega)]
  simp only [validateFrameLengths, hadd, hmul, htotal]
  by_cases hclaimed : h.totalPayloadLen.toNat =
      h.symbolCount.toNat * (symbolRecordOverhead + h.symbolSize.toNat)
  · by_cases hlen : bytes.length = fcpsHeaderLen + h.totalPayloadLen.toNat
    · simp [hclaimed]
    · simp [hclaimed]
  · simp [hclaimed]

/-- A frame the decoder can return: an admissible header that counts its records,
each of them with data of the declared symbol size. -/
structure FcpsFrame.WellFormed (f : FcpsFrame) : Prop where
  header : f.header.Admissible
  count : f.symbols.length = f.header.symbolCount.toNat
  size : ∀ r ∈ f.symbols, r.data.length = f.header.symbolSize.toNat

variable {f : FcpsFrame}

/-- Encoding writes the header and then the records one after the other, under
the condition that the header declares their total size. -/
theorem FcpsFrame.encode_ok_iff :
    f.encode = .ok bytes ↔
      f.header.totalPayloadLen.toNat = (f.symbols.map wireSize).sum ∧
        bytes = f.header.encode ++ f.symbols.flatMap SymbolRecord.encode := by
  simp only [encode, foldl_append_eq_append, ← flatMap_def]
  by_cases hclaimed : f.header.totalPayloadLen.toNat =
      (f.symbols.map wireSize).sum
  · simp [hclaimed, eq_comm]
  · simp [hclaimed]

/-- The records of a well-formed frame take the payload the decoder expects. -/
theorem FcpsFrame.WellFormed.payload_eq (hf : f.WellFormed) :
    (f.symbols.map wireSize).sum =
      f.header.symbolCount.toNat * (symbolRecordOverhead + f.header.symbolSize.toNat) := by
  have hconst : f.symbols.map wireSize =
      replicate f.symbols.length (symbolRecordOverhead + f.header.symbolSize.toNat) := by
    refine eq_replicate_iff.mpr ⟨by simp, ?_⟩
    intro size hsize
    obtain ⟨r, hr, rfl⟩ := mem_map.mp hsize
    rw [wireSize, hf.size r hr]
  rw [hconst, sum_replicate_nat, hf.count]

/-- The frame decoder returns a frame exactly on the encoding of that frame, when
the frame is well formed and the encoding fits the datagram limit. -/
theorem FcpsFrame.decode_ok_iff {maxDatagramBytes : ℕ} :
    decode bytes maxDatagramBytes = .ok f ↔
      bytes.length ≤ maxDatagramBytes ∧ f.WellFormed ∧ f.encode = .ok bytes := by
  constructor
  · intro hok
    unfold decode at hok
    split_ifs at hok with hmtu
    split at hok
    · cases hok
    rename_i header hheader
    split at hok
    · cases hok
    rename_i hlengths
    split at hok
    · cases hok
    rename_i symbols hsymbols
    cases hok
    obtain ⟨hadm, hle, hprefix⟩ := FcpsFrameHeader.encode_of_decode hheader
    obtain ⟨hcount, hsize, hrecords⟩ := decodeSymbols_sound hsymbols
    obtain ⟨hpayload, htotal⟩ := validateFrameLengths_ok_iff.mp hlengths
    have hwf : WellFormed ⟨header, symbols⟩ := ⟨hadm, hcount, hsize⟩
    refine ⟨by omega, hwf, encode_ok_iff.mpr ⟨?_, ?_⟩⟩
    · rw [hwf.payload_eq]
      exact hpayload
    · have hjoin := slice_append_slice bytes 0 fcpsHeaderLen
        (header.symbolCount.toNat * (symbolRecordOverhead + header.symbolSize.toNat))
      rw [Nat.zero_add, ← hpayload, ← htotal, slice_self rfl] at hjoin
      rw [← hjoin, hprefix, hpayload, hrecords]
  · rintro ⟨hmtu, hwf, hok⟩
    obtain ⟨hclaimed, rfl⟩ := encode_ok_iff.mp hok
    have hpayload := hclaimed.trans hwf.payload_eq
    have hlen : (f.header.encode ++ f.symbols.flatMap SymbolRecord.encode).length =
        fcpsHeaderLen + f.header.totalPayloadLen.toNat := by
      simp only [length_append, FcpsFrameHeader.encode_length, length_flatMap,
        encode_length, hclaimed]
    have hlengths := validateFrameLengths_ok_iff.mpr ⟨hpayload, hlen⟩
    have hrest : (f.header.encode ++ f.symbols.flatMap SymbolRecord.encode).drop fcpsHeaderLen =
        f.symbols.flatMap SymbolRecord.encode ++ [] := by
      rw [drop_left' f.header.encode_length, append_nil]
    have hsymbols := decodeSymbols_complete hwf.size hrest
    rw [hwf.count] at hsymbols
    simp only [decode, if_neg (by omega : ¬ (f.header.encode ++
      f.symbols.flatMap SymbolRecord.encode).length > maxDatagramBytes),
      if_neg (by omega : ¬ (f.header.encode ++
      f.symbols.flatMap SymbolRecord.encode).length < fcpsHeaderLen),
      FcpsFrameHeader.decode_encode_append hwf.header, hlengths, hsymbols]

/-- Decoding is canonical, and the zero-copy decoder is the owning decoder: it
accepts the same strings with the same header and records and rejects the others
with the same error. -/
theorem FcpsFrame.decode_canonical (bytes : List UInt8) (maxDatagramBytes : ℕ) :
    (∀ f, decode bytes maxDatagramBytes = .ok f →
      f.encode = .ok bytes ∧ f.symbols.length = f.header.symbolCount.toNat ∧
        ∀ r ∈ f.symbols, r.data.length = f.header.symbolSize.toNat) ∧
      (FcpsFrameRefs.decode bytes maxDatagramBytes).map FcpsFrameRefs.toOwned =
        decode bytes maxDatagramBytes := by
  constructor
  · intro f hok
    obtain ⟨_, hwf, hencode⟩ := decode_ok_iff.mp hok
    exact ⟨hencode, hwf.count, hwf.size⟩
  · unfold FcpsFrameRefs.decode decode
    split
    · rfl
    split
    · rfl
    cases FcpsFrameHeader.decode bytes with
    | error e => rfl
    | ok header =>
      simp only [← FcpsFrameRefs.decodeSymbols_toOwned]
      cases validateFrameLengths bytes header <;>
        cases FcpsFrameRefs.decodeSymbols bytes _ _ _ fcpsHeaderLen <;> rfl

/-- A header for two records of two data bytes each. -/
def pairHeader : FcpsFrameHeader where
  version := 1
  flags := ⟨0b0100_0000_0100⟩
  symbolCount := 2
  totalPayloadLen := 48
  objectId := List.Vector.replicate 32 0
  symbolSize := 2
  zoneKeyId := List.Vector.replicate 8 0
  zoneIdHash := List.Vector.replicate 32 0
  epochId := 1
  senderInstanceId := 2
  frameSeq := 3

/-- A record with the given data and a zero tag. -/
def zeroTagRecord (esi : UInt32) (data : List UInt8) : SymbolRecord where
  esi
  k := 2
  data
  authTag := List.Vector.replicate 16 0

/-- Two records that carry one symbol each. -/
def pairFrame : FcpsFrame := ⟨pairHeader, [zeroTagRecord 0 [7, 8], zeroTagRecord 1 [9, 10]]⟩

/-- The encoding of `pairFrame` is accepted, and is its own re-encoding. -/
theorem pairFrame_decode_canonical : ∃ bytes, FcpsFrame.decode bytes 1200 = .ok pairFrame ∧
    pairFrame.encode = .ok bytes := by
  have hdecode : FcpsFrame.decode (pairHeader.encode ++ (zeroTagRecord 0 [7, 8]).encode ++
      (zeroTagRecord 1 [9, 10]).encode) 1200 = .ok pairFrame := by decide +kernel
  exact ⟨_, hdecode, ((decode_canonical _ 1200).1 pairFrame hdecode).1⟩

/-- A frame that was encoded within the datagram limit is decoded to itself
exactly when it is well formed: `encode` checks the total payload length only. -/
theorem FcpsFrame.decode_encode_iff {f : FcpsFrame} {bytes : List UInt8} {maxDatagramBytes : ℕ}
    (hok : f.encode = .ok bytes) (hmtu : bytes.length ≤ maxDatagramBytes) :
    decode bytes maxDatagramBytes = .ok f ↔
      f.header.version = fcpsVersion ∧
        FrameFlags.fromBits f.header.flags.bits = some f.header.flags ∧
        (f.header.flags.contains .error && f.header.flags.contains .response) = false ∧
        (f.header.flags.contains .streamEnd && !f.header.flags.contains .streaming) = false ∧
        f.header.symbolSize ≠ 0 ∧ f.symbols.length = f.header.symbolCount.toNat ∧
        ∀ r ∈ f.symbols, r.data.length = f.header.symbolSize.toNat := by
  rw [decode_ok_iff]
  constructor
  · rintro ⟨_, ⟨⟨hversion, hknown, hexclusive, hstream, hsize⟩, hcount, hdata⟩, _⟩
    exact ⟨hversion, hknown, hexclusive, hstream, hsize, hcount, hdata⟩
  · rintro ⟨hversion, hknown, hexclusive, hstream, hsize, hcount, hdata⟩
    exact ⟨hmtu, ⟨⟨hversion, hknown, hexclusive, hstream, hsize⟩, hcount, hdata⟩, hok⟩

/-- `pairFrame` survives the round trip. -/
theorem pairFrame_decode_encode : ∃ bytes, pairFrame.encode = .ok bytes ∧
    FcpsFrame.decode bytes 1200 = .ok pairFrame := by
  have hencode : pairFrame.encode = .ok (pairHeader.encode ++ (zeroTagRecord 0 [7, 8]).encode ++
      (zeroTagRecord 1 [9, 10]).encode) := by decide +kernel
  exact ⟨_, hencode, (decode_encode_iff hencode (by decide +kernel)).mpr
    (by decide +kernel)⟩

/-- Two records of one and three data bytes under a header that declares two
bytes each. The total payload length is right. -/
def skewedFrame : FcpsFrame := ⟨pairHeader, [zeroTagRecord 0 [7], zeroTagRecord 1 [8, 9, 10]]⟩

/-- `skewedFrame` is encoded, and its encoding is decoded to another frame. -/
theorem skewedFrame_decode_encode_ne : ∃ bytes f, skewedFrame.encode = .ok bytes ∧
    bytes.length ≤ 1200 ∧ FcpsFrame.decode bytes 1200 = .ok f ∧ f ≠ skewedFrame := by
  refine ⟨pairHeader.encode ++ (zeroTagRecord 0 [7]).encode ++
      (zeroTagRecord 1 [8, 9, 10]).encode,
    ⟨pairHeader, [⟨0, 2, [7, 0], ⟨replicate 15 0 ++ [1], rfl⟩⟩,
      ⟨0x02000000, 0x0800, [9, 10], List.Vector.replicate 16 0⟩]⟩, ?_, ?_, ?_, ?_⟩
  all_goals decide +kernel

end Flywheel.Protocol
