import Ocudu.Ofh.UplaneDecoderWire

/-! The sections that the decoder finds in a message. -/

namespace Ocudu.Ofh

namespace Deserializer

variable {d : Deserializer} {n k : Nat}

/-- The bytes up to the end of the message, which has no more than the memory. -/
structure Left (d : Deserializer) (n : Nat) : Prop where
  size : d.offset + n = d.size
  lt : d.size < 2 ^ 32
  le : n ≤ d.ptr.length

theorem Left.remainingBytes (h : d.Left n) : d.remainingBytes = n := by
  have hsize := h.size
  have hlt := h.lt
  rw [Deserializer.remainingBytes]
  omega

theorem Left.advance (h : d.Left n) (hk : k ≤ n) : (d.advance k).Left (n - k) where
  size := by
    have hsize := h.size
    show d.offset + k + (n - k) = d.size
    omega
  lt := h.lt
  le := by
    have hle := h.le
    show n - k ≤ (d.ptr.drop k).length
    rw [List.length_drop]
    omega

theorem Left.ofMessage (message : List UInt8) : (ofMessage message).Left (message.length % 2 ^ 32) where
  size := Nat.zero_add _
  lt := Nat.mod_lt _ (by decide)
  le := Nat.mod_le _ _

@[simp] theorem advance_ptr (d : Deserializer) (k : Nat) : (d.advance k).ptr = d.ptr.drop k := rfl

@[simp] theorem advance_advance (d : Deserializer) (j k : Nat) : (d.advance j).advance k = d.advance (j + k) := by
  simp only [advance, List.drop_drop, Nat.add_assoc]

theorem readByte_eq {b : UInt8} {rest : List UInt8} (h : d.ptr = b :: rest) :
    d.readByte = .ok (b.toNat, d.advance 1) := by
  rw [readByte, h]

theorem readByte_advance {b : UInt8} {rest : List UInt8} (h : d.ptr.drop k = b :: rest) :
    (d.advance k).readByte = .ok (b.toNat, d.advance (k + 1)) := by
  rw [readByte_eq h, advance_advance]

theorem readTwoBytes_eq {high low : UInt8} {rest : List UInt8} (h : d.ptr = high :: low :: rest) :
    d.readTwoBytes = .ok (high.toNat * 256 + low.toNat, d.advance 2) := by
  rw [readTwoBytes, readByte_eq h]
  simp only [ok_bind]
  rw [readByte_advance (show d.ptr.drop 1 = low :: rest by rw [h]; rfl)]
  rfl

end Deserializer

section Bits

theorem toNat_ofNat_lt {n : Nat} (h : n < 256) : (UInt8.ofNat n).toNat = n := UInt8.toNat_ofNat_of_lt' h

theorem or_low {k y : Nat} (x : Nat) (h : y < 2 ^ k) : x <<< k ||| y = x * 2 ^ k + y := by
  rw [← Nat.shiftLeft_add_eq_or_of_lt h, Nat.shiftLeft_eq]

theorem and_mask (x k : Nat) : x &&& (2 ^ k - 1) = x % 2 ^ k := Nat.and_two_pow_sub_one_eq_mod x k

end Bits

namespace Decoder

variable {Sample : Type} {dec : Decoder Sample} {d : Deserializer} {n : Nat}

theorem decodeSectionHeader_eq (hleft : d.Left n) (hn : 4 ≤ n) {s : WireSection} {rest : List UInt8}
    (hptr : d.ptr = s.headerBytes ++ rest) :
    dec.decodeSectionHeader d = .ok ({ (s.result dec).params with udCompHdr := ⟨.none, 0⟩, udCompLen := none },
      d.advance 4) := by
  have hid := s.sectionId.isLt
  have hstart := s.startPrb.isLt
  have hrb : s.rb.toNat < 2 := s.rb.toNat_lt
  have hsym : s.symInc.toNat < 2 := s.symInc.toNat_lt
  obtain ⟨second, hsecond⟩ : ∃ second, (s.sectionId : Nat) % 16 * 16 + s.rb.toNat * 8 + s.symInc.toNat * 4 +
      s.startPrb / 256 = second := ⟨_, rfl⟩
  have hbytes : d.ptr = UInt8.ofNat (s.sectionId / 16) :: UInt8.ofNat second :: UInt8.ofNat (s.startPrb % 256) ::
      s.numPrb :: rest := by
    rw [hptr, WireSection.headerBytes, hsecond]
    rfl
  rw [decodeSectionHeader, hleft.remainingBytes, if_neg (by omega), Deserializer.readByte_eq hbytes]
  simp only [ok_bind]
  rw [Deserializer.readByte_advance (show d.ptr.drop 1 = UInt8.ofNat second :: UInt8.ofNat (s.startPrb % 256) ::
    s.numPrb :: rest by rw [hbytes]; rfl)]
  simp only [ok_bind]
  rw [Deserializer.readByte_advance (show d.ptr.drop 2 = UInt8.ofNat (s.startPrb % 256) :: s.numPrb :: rest by
    rw [hbytes]; rfl)]
  simp only [ok_bind]
  rw [Deserializer.readByte_advance (show d.ptr.drop 3 = s.numPrb :: rest by rw [hbytes]; rfl)]
  simp only [ok_bind, pure_eq_ok]
  rw [toNat_ofNat_lt (show (s.sectionId : Nat) / 16 < 256 by omega), toNat_ofNat_lt (show second < 256 by lia),
    toNat_ofNat_lt (show (s.startPrb : Nat) % 256 < 256 by lia)]
  have hzero : s.numPrb.toNat = 0 ↔ s.numPrb = 0 := by
    rw [← UInt8.toNat_inj]
    rfl
  have hidBits : ((s.sectionId : Nat) / 16) <<< 4 ||| second >>> 4 = s.sectionId := by
    rw [Nat.shiftRight_eq_div_pow, or_low _ (by lia)]
    lia
  have hrbBits : (second >>> 3 &&& 1 == 0) = !s.rb := by
    have hbit : second >>> 3 &&& 1 = s.rb.toNat := by
      rw [show second >>> 3 &&& 1 = (second >>> 3) % 2 from and_mask _ 1, Nat.shiftRight_eq_div_pow]
      lia
    rw [hbit]
    cases s.rb <;> rfl
  have hsymBits : (second >>> 2 &&& 1 == 0) = !s.symInc := by
    have hbit : second >>> 2 &&& 1 = s.symInc.toNat := by
      rw [show second >>> 2 &&& 1 = (second >>> 2) % 2 from and_mask _ 1, Nat.shiftRight_eq_div_pow]
      lia
    rw [hbit]
    cases s.symInc <;> rfl
  have hstartBits : (second &&& 0x03) <<< 8 ||| (s.startPrb : Nat) % 256 = s.startPrb := by
    rw [show second &&& 3 = second % 4 from and_mask _ 2, or_low _ (by lia)]
    lia
  rw [hidBits, hrbBits, hsymBits, hstartBits]
  simp only [WireSection.result, WireSection.firstPrb, WireSection.nofPrbs, hzero]

theorem toCompressionType_reserved (meth : Fin 16) : toCompressionType meth = .reserved ↔ 7 ≤ (meth : Nat) := by
  revert meth
  decide

theorem decodeCompressionHeader_eq (hleft : d.Left n) (params : SectionParams) {s : WireSection} {rest : List UInt8}
    (hptr : d.ptr = s.compressionBytes dec ++ rest) (hn : (s.compressionBytes dec).length ≤ n) :
    dec.decodeCompressionHeader params d = if dec.compression = .dynamic ∧ 7 ≤ (s.compMeth : Nat) then .error .malformed
      else .ok ({ params with udCompHdr := s.compression dec }, d.advance (s.compressionBytes dec).length) := by
  rw [decodeCompressionHeader, WireSection.compression]
  rw [WireSection.compressionBytes] at hptr hn ⊢
  cases hmode : dec.compression with
  | static params' =>
    have hstatic : ¬ (CompressionHeader.static params' = .dynamic ∧ 7 ≤ (s.compMeth : Nat)) := fun h => by cases h.1
    rw [if_neg hstatic]
    rfl
  | dynamic =>
    have hwidth := s.iqWidth.isLt
    have hmeth := s.compMeth.isLt
    rw [hmode] at hptr hn
    dsimp only at hptr hn ⊢
    have hfirst : d.ptr = UInt8.ofNat (s.iqWidth * 16 + s.compMeth) :: s.reserved :: rest := hptr
    have hroom : ¬ n < 2 := Nat.not_lt.mpr hn
    rw [hleft.remainingBytes, if_neg hroom, Deserializer.readByte_eq hfirst]
    simp only [ok_bind]
    rw [toNat_ofNat_lt (by omega)]
    have htype : ((s.iqWidth : Nat) * 16 + s.compMeth) &&& 0x0f = s.compMeth := by
      rw [show ((s.iqWidth : Nat) * 16 + s.compMeth) &&& 15 = ((s.iqWidth : Nat) * 16 + s.compMeth) % 16 from and_mask _ 4]
      lia
    have hwidthBits : ((s.iqWidth : Nat) * 16 + s.compMeth) >>> 4 = s.iqWidth := by
      rw [Nat.shiftRight_eq_div_pow]
      lia
    have hzero : (s.iqWidth : Nat) = 0 ↔ s.iqWidth = 0 := Fin.val_eq_zero_iff
    rw [htype, hwidthBits, Deserializer.advance_advance]
    by_cases hmalformed : 7 ≤ (s.compMeth : Nat)
    · have hreserved := (toCompressionType_reserved s.compMeth).mpr hmalformed
      rw [if_pos hreserved]
      exact (if_pos ⟨trivial, hmalformed⟩).symm
    · have hknown := mt (toCompressionType_reserved s.compMeth).mp hmalformed
      have hdynamic : ¬ (True ∧ 7 ≤ (s.compMeth : Nat)) := fun h => hmalformed h.2
      rw [if_neg hknown, if_neg hdynamic]
      simp only [pure_eq_ok, hzero]
      rfl

theorem decodeCompressionLength_eq (hleft : d.Left n) (params : SectionParams) {s : WireSection} {rest : List UInt8}
    (hparams : params.udCompHdr = s.compression dec) (hnone : params.udCompLen = none)
    (hptr : d.ptr = s.lengthBytes dec ++ rest) (hn : (s.lengthBytes dec).length ≤ n) :
    decodeCompressionLength params d =
      .ok ({ params with udCompLen := if s.hasLength dec then some s.udCompLen.toNat else none },
        d.advance (s.lengthBytes dec).length) := by
  have hcases : s.hasLength dec = (params.udCompHdr.type == .bfpSelective || params.udCompHdr.type == .modSelective ||
      params.udCompHdr.type == .reserved) := by
    rw [hparams]
    rfl
  rw [decodeCompressionLength]
  rw [WireSection.lengthBytes] at hptr hn ⊢
  cases htype : params.udCompHdr.type with
  | none | bfp | blockScaling | muLaw | modulation =>
    have hlength : s.hasLength dec = false := by
      rw [hcases, htype]
      rfl
    rw [hlength, ← hnone]
    rfl
  | bfpSelective | modSelective | reserved =>
    have hlength : s.hasLength dec = true := by
      rw [hcases, htype]
      rfl
    have hlt := s.udCompLen.toNat_lt
    rw [hlength] at hptr hn ⊢
    have hroom : ¬ n < 2 := Nat.not_lt.mpr hn
    dsimp only
    rw [hleft.remainingBytes, if_neg hroom, Deserializer.readTwoBytes_eq hptr, toNat_ofNat_lt (by omega),
      toNat_ofNat_lt (by omega), Nat.div_add_mod']
    rfl

theorem prbIqDataSize_eq (params : RuCompressionParams) : prbIqDataSize params = WireSection.prbSize params := by
  rw [prbIqDataSize, WireSection.prbSize, bytesOfBits, nofSubcarriersPerRb]
  lia

theorem nofPrbs_le (s : WireSection) : s.nofPrbs dec ≤ maxNofPrbs := by
  rw [WireSection.nofPrbs]
  split_ifs
  · exact dec.ruNofPrbs_le
  · have hlt := s.numPrb.toNat_lt
    rw [maxNofPrbs]
    omega

theorem decodeIqData_eq {params : SectionParams} {s : WireSection} {rest : List UInt8}
    (hparams : params.udCompHdr = s.compression dec) (hprbs : params.nofPrbs = s.nofPrbs dec)
    (hptr : d.ptr = s.iqData ++ rest) (hlen : s.iqData.length = s.nofPrbs dec * WireSection.prbSize (s.compression dec)) :
    dec.decodeIqData params d = if s.Decompressed dec then
      .ok (⟨params, dec.decompress (s.nofPrbs dec * 12) s.iqData (s.compression dec)⟩, d.advance s.iqData.length)
      else .error .decompression := by
  have hsize : bytesOfBits (nofSubcarriersPerRb * 2 * (s.compression dec).dataWidth +
      if (s.compression dec).type.hasParam then 8 else 0) = WireSection.prbSize (s.compression dec) := by
    rw [WireSection.prbSize, bytesOfBits, nofSubcarriersPerRb]
    split_ifs <;> lia
  have hle := @nofPrbs_le _ dec s
  have hcapacity : ¬ maxNofPrbs * nofSubcarriersPerRb < s.nofPrbs dec * nofSubcarriersPerRb :=
    Nat.not_lt.mpr (Nat.mul_le_mul_right _ hle)
  rw [decodeIqData]
  simp only [hparams, hprbs, hsize, ← hlen]
  rw [Deserializer.getViewAndAdvance, if_pos (by rw [hptr, List.length_append]; omega), hptr, List.take_left]
  simp only [ok_bind]
  rw [if_neg hcapacity]
  rfl

theorem decodeSection_of_headers (hleft : d.Left n) {s : WireSection} {rest : List UInt8}
    (hptr : d.ptr = s.headerBytes ++ (s.compressionBytes dec ++ (s.lengthBytes dec ++ rest)))
    (hknown : dec.compression = .dynamic → (s.compMeth : Nat) < 7)
    (hn : 4 + (s.compressionBytes dec).length + (s.lengthBytes dec).length ≤ n) :
    dec.decodeSection d =
      if n - (4 + (s.compressionBytes dec).length + (s.lengthBytes dec).length) <
          WireSection.prbSize (s.compression dec) * s.nofPrbs dec then .error .incomplete
      else dec.decodeIqData (s.result dec).params
        (d.advance (4 + (s.compressionBytes dec).length + (s.lengthBytes dec).length)) := by
  have hheader : (d.advance 4).ptr = s.compressionBytes dec ++ (s.lengthBytes dec ++ rest) := by
    rw [Deserializer.advance_ptr, hptr]
    rfl
  have hcompression : (d.advance (4 + (s.compressionBytes dec).length)).ptr = s.lengthBytes dec ++ rest := by
    rw [← Deserializer.advance_advance, Deserializer.advance_ptr, hheader, List.drop_left]
  have hnotReserved : ¬ (dec.compression = .dynamic ∧ 7 ≤ (s.compMeth : Nat)) :=
    fun h => Nat.not_le.mpr (hknown h.1) h.2
  have hleft4 := hleft.advance (show 4 ≤ n by omega)
  have hleftCompression := hleft.advance (show 4 + (s.compressionBytes dec).length ≤ n by omega)
  have hleftAll := hleft.advance hn
  rw [decodeSection, decodeSectionHeader_eq hleft (by omega) hptr, ok_bind]
  dsimp only
  rw [decodeCompressionHeader_eq hleft4 _ hheader (by omega), if_neg hnotReserved, ok_bind]
  dsimp only
  rw [Deserializer.advance_advance, decodeCompressionLength_eq hleftCompression _ rfl rfl hcompression (by omega), ok_bind]
  dsimp only
  rw [Deserializer.advance_advance, hleftAll.remainingBytes, prbIqDataSize_eq]
  by_cases hshort : n - (4 + (s.compressionBytes dec).length + (s.lengthBytes dec).length) <
      WireSection.prbSize (s.compression dec) * s.nofPrbs dec
  · rw [if_pos hshort]
    exact if_pos hshort
  · rw [if_neg hshort]
    exact if_neg hshort

@[simp] theorem bytes_length (s : WireSection) : (s.bytes dec).length =
    4 + (s.compressionBytes dec).length + (s.lengthBytes dec).length + s.iqData.length := by
  have hheader : s.headerBytes.length = 4 := rfl
  simp only [WireSection.bytes, List.length_append, hheader, Nat.add_assoc]

theorem decodeSection_eq (hleft : d.Left n) {s : WireSection} {rest : List UInt8} (hs : s.Complete dec)
    (hptr : d.ptr = s.bytes dec ++ rest) (hn : (s.bytes dec).length ≤ n) :
    dec.decodeSection d = if s.Decompressed dec then .ok (s.result dec, d.advance (s.bytes dec).length)
      else .error .decompression := by
  have hbytes : d.ptr = s.headerBytes ++ (s.compressionBytes dec ++ (s.lengthBytes dec ++ (s.iqData ++ rest))) := by
    rw [hptr, WireSection.bytes]
    simp only [List.append_assoc]
  have hlength := @bytes_length _ dec s
  have hiq := hs.iqData
  have henough : ¬ n - (4 + (s.compressionBytes dec).length + (s.lengthBytes dec).length) <
      WireSection.prbSize (s.compression dec) * s.nofPrbs dec := by
    rw [Nat.mul_comm, ← hiq]
    omega
  have hdata : (d.advance (4 + (s.compressionBytes dec).length + (s.lengthBytes dec).length)).ptr = s.iqData ++ rest := by
    rw [Deserializer.advance_ptr, hbytes, ← List.drop_drop, ← List.drop_drop]
    rw [show (s.headerBytes ++ (s.compressionBytes dec ++ (s.lengthBytes dec ++ (s.iqData ++ rest)))).drop 4 =
      s.compressionBytes dec ++ (s.lengthBytes dec ++ (s.iqData ++ rest)) from rfl, List.drop_left, List.drop_left]
  rw [decodeSection_of_headers hleft hbytes hs.known (by omega), if_neg henough, decodeIqData_eq rfl rfl hdata hiq,
    Deserializer.advance_advance, hlength]
  split_ifs
  · rfl
  · rfl

theorem exists_cons_cons {bytes : List UInt8} (h : 2 ≤ bytes.length) : ∃ b0 b1 rest, bytes = b0 :: b1 :: rest := by
  rcases bytes with _ | ⟨b0, _ | ⟨b1, rest⟩⟩
  case cons.cons => exact ⟨b0, b1, rest, rfl⟩
  all_goals simp at h

theorem exists_headerBytes {bytes : List UInt8} (h : 4 ≤ bytes.length) :
    ∃ (s : WireSection) (rest : List UInt8), bytes = s.headerBytes ++ rest := by
  obtain ⟨b0, b1, tail, rfl⟩ := exists_cons_cons (show 2 ≤ bytes.length by omega)
  obtain ⟨b2, b3, rest, rfl⟩ := exists_cons_cons (show 2 ≤ tail.length from Nat.le_of_add_le_add_right (b := 2) h)
  have h0 := b0.toNat_lt
  have h1 := b1.toNat_lt
  have h2 := b2.toNat_lt
  have hbit (n k : Nat) : (n / k % 2 == 1).toNat = n / k % 2 := by
    rcases Nat.mod_two_eq_zero_or_one (n / k) with h | h <;> rw [h] <;> rfl
  refine ⟨{
    sectionId := ⟨b0.toNat * 16 + b1.toNat / 16, by omega⟩
    rb := b1.toNat / 8 % 2 == 1
    symInc := b1.toNat / 4 % 2 == 1
    startPrb := ⟨b1.toNat % 4 * 256 + b2.toNat, by omega⟩
    numPrb := b3
    iqWidth := 0
    compMeth := 0
    reserved := 0
    udCompLen := 0
    iqData := [] }, rest, ?_⟩
  rw [WireSection.headerBytes]
  dsimp only
  rw [hbit, hbit, show (b0.toNat * 16 + b1.toNat / 16) / 16 = b0.toNat by lia,
    show (b0.toNat * 16 + b1.toNat / 16) % 16 * 16 + b1.toNat / 8 % 2 * 8 + b1.toNat / 4 % 2 * 4 +
      (b1.toNat % 4 * 256 + b2.toNat) / 256 = b1.toNat by omega,
    show (b1.toNat % 4 * 256 + b2.toNat) % 256 = b2.toNat by omega]
  simp only [UInt8.ofNat_toNat]
  rfl

theorem exists_compressionBytes (dec : Decoder Sample) (s : WireSection) {bytes : List UInt8}
    (h : (s.compressionBytes dec).length ≤ bytes.length) :
    ∃ (s' : WireSection) (rest : List UInt8), bytes = s'.compressionBytes dec ++ rest ∧
      s'.headerBytes = s.headerBytes ∧ (s'.compressionBytes dec).length = (s.compressionBytes dec).length := by
  simp only [WireSection.compressionBytes] at h ⊢
  cases hmode : dec.compression with
  | static params => exact ⟨s, bytes, rfl, rfl, rfl⟩
  | dynamic =>
    rw [hmode] at h
    obtain ⟨b0, b1, rest, rfl⟩ := exists_cons_cons h
    have h0 := b0.toNat_lt
    refine ⟨{ s with iqWidth := ⟨b0.toNat / 16, by omega⟩, compMeth := ⟨b0.toNat % 16, by omega⟩, reserved := b1 },
      rest, ?_, rfl, by simp only [List.length_cons, List.length_nil]⟩
    dsimp only
    rw [Nat.div_add_mod', UInt8.ofNat_toNat]
    rfl

theorem exists_lengthBytes (dec : Decoder Sample) (s : WireSection) {bytes : List UInt8}
    (h : (s.lengthBytes dec).length ≤ bytes.length) :
    ∃ (s' : WireSection) (rest : List UInt8), bytes = s'.lengthBytes dec ++ rest ∧
      s'.headerBytes = s.headerBytes ∧ s'.compressionBytes dec = s.compressionBytes dec ∧
        (s'.lengthBytes dec).length = (s.lengthBytes dec).length ∧ s'.compMeth = s.compMeth := by
  simp only [WireSection.lengthBytes] at h ⊢
  cases hlength : s.hasLength dec with
  | false =>
    refine ⟨s, bytes, ?_, rfl, rfl, by rw [hlength], rfl⟩
    rw [hlength]
    rfl
  | true =>
    rw [hlength] at h
    obtain ⟨b0, b1, rest, rfl⟩ := exists_cons_cons h
    have h0 := b0.toNat_lt
    have h1 := b1.toNat_lt
    have hvalue : (UInt16.ofNat (b0.toNat * 256 + b1.toNat)).toNat = b0.toNat * 256 + b1.toNat :=
      UInt16.toNat_ofNat_of_lt' (show _ < 65536 by omega)
    have hlength' : ({ s with udCompLen := UInt16.ofNat (b0.toNat * 256 + b1.toNat) } : WireSection).hasLength dec = true :=
      hlength
    refine ⟨{ s with udCompLen := UInt16.ofNat (b0.toNat * 256 + b1.toNat) }, rest, ?_, rfl, rfl, by rw [hlength']; rfl, rfl⟩
    rw [hlength']
    dsimp only
    rw [hvalue, show (b0.toNat * 256 + b1.toNat) / 256 = b0.toNat by lia,
      show (b0.toNat * 256 + b1.toNat) % 256 = b1.toNat by lia, UInt8.ofNat_toNat, UInt8.ofNat_toNat]
    rfl

theorem decodeCompressionHeader_short (hleft : d.Left n) (params : SectionParams) {s : WireSection}
    (hn : n < (s.compressionBytes dec).length) : dec.decodeCompressionHeader params d = .error .incomplete := by
  rw [WireSection.compressionBytes] at hn
  rw [decodeCompressionHeader]
  cases hmode : dec.compression with
  | static params' =>
    rw [hmode] at hn
    exact absurd hn (Nat.not_lt_zero n)
  | dynamic =>
    rw [hmode] at hn
    dsimp only
    rw [hleft.remainingBytes]
    exact if_pos hn

theorem decodeCompressionLength_short (hleft : d.Left n) {params : SectionParams} {s : WireSection}
    (hparams : params.udCompHdr = s.compression dec) (hn : n < (s.lengthBytes dec).length) :
    decodeCompressionLength params d = .error .incomplete := by
  have hcases : s.hasLength dec = (params.udCompHdr.type == .bfpSelective || params.udCompHdr.type == .modSelective ||
      params.udCompHdr.type == .reserved) := by
    rw [hparams]
    rfl
  rw [decodeCompressionLength]
  rw [WireSection.lengthBytes] at hn
  cases htype : params.udCompHdr.type with
  | none | bfp | blockScaling | muLaw | modulation =>
    rw [hcases, htype] at hn
    exact absurd hn (Nat.not_lt_zero n)
  | bfpSelective | modSelective | reserved =>
    rw [hcases, htype] at hn
    dsimp only
    rw [hleft.remainingBytes]
    exact if_pos hn

theorem decodeSection_cases (hleft : d.Left n) :
    dec.decodeSection d = .error .incomplete ∨ dec.decodeSection d = .error .malformed ∨
      ∃ (s : WireSection) (rest : List UInt8), s.Complete dec ∧ d.ptr = s.bytes dec ++ rest ∧
        (s.bytes dec).length ≤ n := by
  have hle := hleft.le
  by_cases h4 : n < 4
  · refine Or.inl ?_
    rw [decodeSection, decodeSectionHeader, hleft.remainingBytes, if_pos h4]
    rfl
  obtain ⟨s₁, rest₁, hptr₁⟩ := exists_headerBytes (show 4 ≤ d.ptr.length by omega)
  have hleft4 := hleft.advance (Nat.le_of_not_lt h4)
  have hlen₁ : d.ptr.length = 4 + rest₁.length := by
    rw [hptr₁, List.length_append]
    rfl
  by_cases hcompression : n - 4 < (s₁.compressionBytes dec).length
  · refine Or.inl ?_
    rw [decodeSection, decodeSectionHeader_eq hleft (Nat.le_of_not_lt h4) hptr₁, ok_bind]
    dsimp only
    rw [decodeCompressionHeader_short hleft4 _ hcompression]
    rfl
  obtain ⟨s₂, rest₂, hptr₂, hheader₂, hsize₂⟩ := exists_compressionBytes dec s₁
    (show (s₁.compressionBytes dec).length ≤ rest₁.length by omega)
  rw [hptr₂, ← hheader₂] at hptr₁
  have hptr4 : (d.advance 4).ptr = s₂.compressionBytes dec ++ rest₂ := by
    rw [Deserializer.advance_ptr, hptr₁]
    rfl
  have hlen₂ : rest₁.length = (s₂.compressionBytes dec).length + rest₂.length := by
    rw [hptr₂, List.length_append]
  by_cases hreserved : dec.compression = .dynamic ∧ 7 ≤ (s₂.compMeth : Nat)
  · refine Or.inr (Or.inl ?_)
    rw [decodeSection, decodeSectionHeader_eq hleft (Nat.le_of_not_lt h4) hptr₁, ok_bind]
    dsimp only
    rw [decodeCompressionHeader_eq hleft4 _ hptr4 (by omega), if_pos hreserved]
    rfl
  have hleftCompression := hleft.advance (show 4 + (s₂.compressionBytes dec).length ≤ n by omega)
  by_cases hlength : n - (4 + (s₂.compressionBytes dec).length) < (s₂.lengthBytes dec).length
  · refine Or.inl ?_
    rw [decodeSection, decodeSectionHeader_eq hleft (Nat.le_of_not_lt h4) hptr₁, ok_bind]
    dsimp only
    rw [decodeCompressionHeader_eq hleft4 _ hptr4 (by omega), if_neg hreserved, ok_bind]
    dsimp only
    rw [Deserializer.advance_advance, decodeCompressionLength_short hleftCompression rfl hlength]
    rfl
  obtain ⟨s₃, rest₃, hptr₃, hheader₃, hcompression₃, hsize₃, hmeth₃⟩ := exists_lengthBytes dec s₂
    (show (s₂.lengthBytes dec).length ≤ rest₂.length by omega)
  rw [hptr₃, ← hheader₃, ← hcompression₃] at hptr₁
  have hlen₃ : rest₂.length = (s₃.lengthBytes dec).length + rest₃.length := by
    rw [hptr₃, List.length_append]
  have hknown : dec.compression = .dynamic → (s₃.compMeth : Nat) < 7 := by
    rw [hmeth₃]
    exact fun h => Nat.lt_of_not_le fun h7 => hreserved ⟨h, h7⟩
  have hheaders : 4 + (s₃.compressionBytes dec).length + (s₃.lengthBytes dec).length ≤ n := by
    rw [hcompression₃, hsize₃]
    omega
  by_cases hshort : n - (4 + (s₃.compressionBytes dec).length + (s₃.lengthBytes dec).length) <
      WireSection.prbSize (s₃.compression dec) * s₃.nofPrbs dec
  · refine Or.inl ?_
    rw [decodeSection_of_headers hleft hptr₁ hknown hheaders, if_pos hshort]
  -- The samples are the bytes after the headers.
  have hiq : (rest₃.take (s₃.nofPrbs dec * WireSection.prbSize (s₃.compression dec))).length =
      s₃.nofPrbs dec * WireSection.prbSize (s₃.compression dec) := by
    rw [List.length_take_of_le]
    rw [Nat.mul_comm] at hshort
    rw [hcompression₃] at hshort hheaders
    omega
  refine Or.inr (Or.inr ⟨{ s₃ with iqData := rest₃.take (s₃.nofPrbs dec * WireSection.prbSize (s₃.compression dec)) },
    rest₃.drop (s₃.nofPrbs dec * WireSection.prbSize (s₃.compression dec)), ⟨hknown, hiq⟩, ?_, ?_⟩)
  · rw [hptr₁, WireSection.bytes]
    simp only [List.append_assoc]
    show _ = s₃.headerBytes ++ (s₃.compressionBytes dec ++ (s₃.lengthBytes dec ++
      (rest₃.take (s₃.nofPrbs dec * WireSection.prbSize (s₃.compression dec)) ++
        rest₃.drop (s₃.nofPrbs dec * WireSection.prbSize (s₃.compression dec)))))
    rw [List.take_append_drop]
  · have hbytes := @bytes_length _ dec
      { s₃ with iqData := rest₃.take (s₃.nofPrbs dec * WireSection.prbSize (s₃.compression dec)) }
    rw [hbytes]
    show 4 + (s₃.compressionBytes dec).length + (s₃.lengthBytes dec).length +
      (rest₃.take (s₃.nofPrbs dec * WireSection.prbSize (s₃.compression dec))).length ≤ n
    rw [hiq, Nat.mul_comm]
    omega

end Decoder

end Ocudu.Ofh
