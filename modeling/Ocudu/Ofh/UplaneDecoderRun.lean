import Ocudu.Ofh.UplaneDecoderSections

/-! Runs of the decoder: on a message with nothing but complete sections, and on every message. -/

namespace Ocudu.Ofh

namespace Decoder

variable {Sample : Type} {dec : Decoder Sample} {d : Deserializer} {n : Nat}

section Header

theorem toFilterIndexType_reserved (filter : Fin 16) : toFilterIndexType filter = .reserved ↔ 8 ≤ (filter : Nat) := by
  revert filter
  decide

theorem valid_iff (h : WireHeader) : h.Valid dec ↔ (h.dataDirection : Nat) = 0 ∧ (h.payloadVersion : Nat) = 1 ∧
    (h.filterIndex : Nat) < 8 ∧ (h.subframeId : Nat) < 10 ∧ (h.slotId : Nat) < dec.nofSlotsPerSubframe ∧
      (h.symbolId : Nat) < dec.nofSymbols := by
  rw [WireHeader.Valid, Fin.ext_iff, Fin.ext_iff]
  rfl

theorem direction_eq (bit : Nat) :
    (if bit = 0 then DataDirection.uplink else .downlink) ≠ .uplink ↔ bit ≠ 0 := by
  split_ifs with hbit <;> simp [hbit]

theorem refused_iff (bit : Nat) (filter : Fin 16) (version symbol nofSymbols : Nat) :
    (decide ((if bit = 0 then DataDirection.uplink else .downlink) ≠ .uplink) || decide (version ≠ ofhPayloadVersion) ||
      toFilterIndexType filter == .reserved || decide (nofSymbols ≤ symbol)) = true ↔
      bit ≠ 0 ∨ version ≠ 1 ∨ 8 ≤ (filter : Nat) ∨ nofSymbols ≤ symbol := by
  rw [← toFilterIndexType_reserved, ← direction_eq bit]
  simp only [Bool.or_eq_true, decide_eq_true_eq, beq_iff_eq, or_assoc]
  rfl

theorem decodeHeader_eq (hleft : d.Left n) (hn : 4 ≤ n) {h : WireHeader} {rest : List UInt8}
    (hptr : d.ptr = h.bytes ++ rest) :
    dec.decodeHeader d = .ok (if h.Valid dec then some (h.params dec, d.advance 4) else none) := by
  have hdirection := h.dataDirection.isLt
  have hversion := h.payloadVersion.isLt
  have hfilter := h.filterIndex.isLt
  have hsubframe := h.subframeId.isLt
  have hslot := h.slotId.isLt
  have hsymbol := h.symbolId.isLt
  obtain ⟨first, hfirst⟩ : ∃ first, (h.dataDirection : Nat) * 128 + h.payloadVersion * 16 + h.filterIndex = first := ⟨_, rfl⟩
  obtain ⟨third, hthird⟩ : ∃ third, (h.subframeId : Nat) * 16 + h.slotId / 4 = third := ⟨_, rfl⟩
  obtain ⟨fourth, hfourth⟩ : ∃ fourth, (h.slotId : Nat) % 4 * 64 + h.symbolId = fourth := ⟨_, rfl⟩
  have hbytes : d.ptr = UInt8.ofNat first :: h.frameId :: UInt8.ofNat third :: UInt8.ofNat fourth :: rest := by
    rw [hptr, WireHeader.bytes, hfirst, hthird, hfourth]
    rfl
  have hroom : ¬ n < 4 := Nat.not_lt.mpr hn
  rw [decodeHeader, hleft.remainingBytes, if_neg hroom, Deserializer.readByte_eq hbytes]
  simp only [ok_bind]
  rw [Deserializer.readByte_advance (show d.ptr.drop 1 = h.frameId :: UInt8.ofNat third :: UInt8.ofNat fourth :: rest by
    rw [hbytes]; rfl)]
  simp only [ok_bind]
  rw [Deserializer.readByte_advance (show d.ptr.drop 2 = UInt8.ofNat third :: UInt8.ofNat fourth :: rest by
    rw [hbytes]; rfl)]
  simp only [ok_bind]
  rw [Deserializer.readByte_advance (show d.ptr.drop 3 = UInt8.ofNat fourth :: rest by rw [hbytes]; rfl)]
  simp only [ok_bind]
  rw [toNat_ofNat_lt (show first < 256 by omega), toNat_ofNat_lt (show third < 256 by omega),
    toNat_ofNat_lt (show fourth < 256 by omega)]
  have hdirectionBit : first >>> 7 = h.dataDirection := by
    rw [Nat.shiftRight_eq_div_pow]
    omega
  have hversionBits : first >>> 4 &&& 7 = h.payloadVersion := by
    rw [show first >>> 4 &&& 7 = (first >>> 4) % 8 from and_mask _ 3, Nat.shiftRight_eq_div_pow]
    lia
  have hfilterBits : first &&& 0xf = h.filterIndex := by
    rw [show first &&& 15 = first % 16 from and_mask _ 4]
    omega
  have hsubframeBits : third >>> 4 = h.subframeId := by
    rw [Nat.shiftRight_eq_div_pow]
    omega
  have hsymbolBits : fourth &&& 0x3f = h.symbolId := by
    rw [show fourth &&& 63 = fourth % 64 from and_mask _ 6]
    lia
  have hslotBits : (third &&& 0x0f) <<< 2 ||| fourth >>> 6 = h.slotId := by
    rw [show third &&& 15 = third % 16 from and_mask _ 4, Nat.shiftRight_eq_div_pow, or_low _ (by lia)]
    lia
  rw [hdirectionBit, hversionBits, hfilterBits, hsubframeBits, hsymbolBits, hslotBits]
  have hvalid := @valid_iff _ dec h
  by_cases hslotOut : 10 ≤ (h.subframeId : Nat) ∨ dec.nofSlotsPerSubframe ≤ h.slotId
  · rw [if_pos (by simpa only [Bool.or_eq_true, decide_eq_true_eq] using hslotOut), if_neg (by rw [hvalid]; omega)]
    rfl
  rw [if_neg (by simpa only [Bool.or_eq_true, decide_eq_true_eq] using hslotOut)]
  have hrefusedIff := refused_iff h.dataDirection h.filterIndex h.payloadVersion h.symbolId dec.nofSymbols
  by_cases hrefused : (h.dataDirection : Nat) ≠ 0 ∨ (h.payloadVersion : Nat) ≠ 1 ∨ 8 ≤ (h.filterIndex : Nat) ∨
      dec.nofSymbols ≤ h.symbolId
  · rw [if_pos (hrefusedIff.mpr hrefused), if_neg (by rw [hvalid]; lia)]
    rfl
  · have hzero : (h.dataDirection : Nat) = 0 := by omega
    rw [if_neg (mt hrefusedIff.mp hrefused), if_pos (show h.Valid dec by rw [hvalid]; lia), if_pos hzero]
    rfl

theorem exists_header {bytes : List UInt8} (h : 4 ≤ bytes.length) :
    ∃ (header : WireHeader) (rest : List UInt8), bytes = header.bytes ++ rest := by
  obtain ⟨b0, b1, tail, rfl⟩ := exists_cons_cons (show 2 ≤ bytes.length by omega)
  obtain ⟨b2, b3, rest, rfl⟩ := exists_cons_cons (show 2 ≤ tail.length from Nat.le_of_add_le_add_right (b := 2) h)
  have h0 := b0.toNat_lt
  have h2 := b2.toNat_lt
  have h3 := b3.toNat_lt
  refine ⟨{
    dataDirection := ⟨b0.toNat / 128, by omega⟩
    payloadVersion := ⟨b0.toNat / 16 % 8, by omega⟩
    filterIndex := ⟨b0.toNat % 16, by omega⟩
    frameId := b1
    subframeId := ⟨b2.toNat / 16, by omega⟩
    slotId := ⟨b2.toNat % 16 * 4 + b3.toNat / 64, by lia⟩
    symbolId := ⟨b3.toNat % 64, by lia⟩ }, rest, ?_⟩
  rw [WireHeader.bytes]
  dsimp only
  rw [show b0.toNat / 128 * 128 + b0.toNat / 16 % 8 * 16 + b0.toNat % 16 = b0.toNat by lia,
    show b2.toNat / 16 * 16 + (b2.toNat % 16 * 4 + b3.toNat / 64) / 4 = b2.toNat by lia,
    show (b2.toNat % 16 * 4 + b3.toNat / 64) % 4 * 64 + b3.toNat % 64 = b3.toNat by lia]
  simp only [UInt8.ofNat_toNat]
  rfl

end Header

section Sections

theorem four_le_bytes (s : WireSection) : 4 ≤ (s.bytes dec).length := by
  rw [bytes_length, Nat.add_assoc, Nat.add_assoc]
  exact Nat.le_add_right 4 _

theorem decodeAllSections_of_complete {turns : Nat} {ws : List WireSection} {sections : List (UplaneSection Sample)}
    (hleft : d.Left n) (hcomplete : ∀ s ∈ ws, s.Complete dec) (hknown : ∀ s ∈ ws, s.Decompressed dec)
    (hptr : d.ptr = ws.flatMap (·.bytes dec))
    (hn : n = (ws.flatMap (·.bytes dec)).length) (hturns : ws.length < turns)
    (hcount : sections.length + ws.length < resultsMaxNofSupportedSections) :
    dec.decodeAllSections turns sections d = .ok (finish (sections ++ ws.map (·.result dec))) := by
  induction turns generalizing ws sections d n with
  | zero => exact absurd hturns (Nat.not_lt_zero _)
  | succ turns ih =>
    rw [decodeAllSections, hleft.remainingBytes]
    cases ws with
    | nil =>
      have hzero : n = 0 := hn
      rw [if_pos hzero, List.map_nil, List.append_nil]
    | cons s ws =>
      rw [List.flatMap_cons] at hptr hn
      rw [List.length_append] at hn
      rw [List.length_cons] at hturns hcount
      have hfour := @four_le_bytes _ dec s
      have hle : (s.bytes dec).length ≤ n := by
        rw [hn]
        exact Nat.le_add_right _ _
      have hsection := decodeSection_eq hleft (hcomplete s List.mem_cons_self) hptr hle
      have hnext : (d.advance (s.bytes dec).length).ptr = ws.flatMap (·.bytes dec) := by
        rw [Deserializer.advance_ptr, hptr, List.drop_left]
      -- The arithmetic is about two sizes, not about the bytes.
      generalize (s.bytes dec).length = size at hn hle hfour hsection hnext
      obtain ⟨last, hlast⟩ : ∃ last, last = (ws.flatMap (·.bytes dec)).length := ⟨_, rfl⟩
      rw [← hlast] at hn
      have hne : ¬ n = 0 := by omega
      have hroom : ¬ resultsMaxNofSupportedSections ≤ sections.length := Nat.not_le.mpr
        (Nat.lt_of_le_of_lt (Nat.le_add_right _ _) hcount)
      have hnotFull : ¬ sections.length + 1 = resultsMaxNofSupportedSections := Nat.ne_of_lt
        (Nat.lt_of_le_of_lt (Nat.add_le_add_left (Nat.le_add_left 1 _) _) hcount)
      rw [if_neg hne, hsection, if_pos (hknown s List.mem_cons_self)]
      dsimp only
      rw [if_neg hroom, if_neg hnotFull, List.map_cons, List.append_cons sections (s.result dec) (ws.map (·.result dec))]
      have hsize : n - size = last := by omega
      rw [hlast] at hsize
      clear hlast
      apply ih (hleft.advance hle) (fun s' hs' => hcomplete s' (List.mem_cons_of_mem s hs'))
        (fun s' hs' => hknown s' (List.mem_cons_of_mem s hs')) hnext
      · exact hsize
      · exact Nat.lt_of_succ_lt_succ hturns
      · rw [List.length_append, List.length_singleton, Nat.add_assoc, Nat.add_comm 1]
        exact hcount

/-- A section without a decompressor ends the decoding, if the sections before it leave room for it. -/
theorem decodeAllSections_of_unknown {turns : Nat} {ws : List WireSection} {rest : List UInt8}
    {sections : List (UplaneSection Sample)} (hleft : d.Left n) (hcomplete : ∀ s ∈ ws, s.Complete dec)
    (hunknown : ¬ ∀ s ∈ ws, s.Decompressed dec) (hptr : d.ptr = ws.flatMap (·.bytes dec) ++ rest)
    (hn : (ws.flatMap (·.bytes dec)).length ≤ n) (hturns : ws.length < turns)
    (hcount : sections.length + ws.length ≤ resultsMaxNofSupportedSections) :
    dec.decodeAllSections turns sections d = .error .decompression := by
  induction turns generalizing ws sections d n with
  | zero => exact absurd hturns (Nat.not_lt_zero _)
  | succ turns ih =>
    rw [decodeAllSections, hleft.remainingBytes]
    cases ws with
    | nil => exact absurd (fun s hs => absurd hs List.not_mem_nil) hunknown
    | cons s ws =>
      rw [List.flatMap_cons, List.append_assoc] at hptr
      rw [List.flatMap_cons, List.length_append] at hn
      rw [List.length_cons] at hturns hcount
      have hfour := @four_le_bytes _ dec s
      have hle : (s.bytes dec).length ≤ n := (Nat.le_add_right _ _).trans hn
      have hne : ¬ n = 0 := Nat.ne_of_gt ((show 0 < 4 from Nat.succ_pos 3).trans_le (hfour.trans hle))
      have hsection := decodeSection_eq hleft (hcomplete s List.mem_cons_self) hptr hle
      rw [if_neg hne, hsection]
      by_cases hs : s.Decompressed dec
      · have htail : ¬ ∀ s' ∈ ws, s'.Decompressed dec := fun h => hunknown (List.forall_mem_cons.mpr ⟨hs, h⟩)
        have hlen : 0 < ws.length := List.length_pos_of_ne_nil fun hnil => htail (by simp [hnil])
        have hnext : (d.advance (s.bytes dec).length).ptr = ws.flatMap (·.bytes dec) ++ rest := by
          rw [Deserializer.advance_ptr, hptr, List.drop_left]
        have hroom : ¬ resultsMaxNofSupportedSections ≤ sections.length := by omega
        have hnotFull : ¬ sections.length + 1 = resultsMaxNofSupportedSections := by omega
        rw [if_pos hs]
        dsimp only
        rw [if_neg hroom, if_neg hnotFull]
        refine ih (hleft.advance hle) (fun s' hs' => hcomplete s' (List.mem_cons_of_mem s hs')) htail hnext ?_ ?_ ?_
        · exact Nat.le_sub_of_add_le (by rw [Nat.add_comm]; exact hn)
        · exact Nat.lt_of_succ_lt_succ hturns
        · rw [List.length_append, List.length_singleton, Nat.add_assoc, Nat.add_comm 1]
          exact hcount
      · rw [if_neg hs]

theorem decodeAllSections_sound {turns : Nat} {sections : List (UplaneSection Sample)} (hleft : d.Left n)
    (hturns : n < turns) (hcount : sections.length < resultsMaxNofSupportedSections) :
    ∃ (ws : List WireSection) (rest : List UInt8), (∀ s ∈ ws, s.Complete dec) ∧
      d.ptr = ws.flatMap (·.bytes dec) ++ rest ∧ (ws.flatMap (·.bytes dec)).length ≤ n ∧
      sections.length + ws.length ≤ resultsMaxNofSupportedSections ∧
      (¬ (∀ s ∈ ws, s.Decompressed dec) ∨ dec.decodeAllSections turns sections d = .ok none ∨
        dec.decodeAllSections turns sections d = .ok (finish (sections ++ ws.map (·.result dec)))) := by
  induction turns generalizing sections d n with
  | zero => exact absurd hturns (Nat.not_lt_zero n)
  | succ turns ih =>
    rw [decodeAllSections, hleft.remainingBytes]
    by_cases hzero : n = 0
    · refine ⟨[], d.ptr, by simp, rfl, Nat.zero_le n, hcount.le, Or.inr (Or.inr ?_)⟩
      rw [if_pos hzero, List.map_nil, List.append_nil]
    rw [if_neg hzero]
    obtain hincomplete | hmalformed | ⟨s, rest, hs, hptr, hsize⟩ := @decodeSection_cases _ dec _ _ hleft
    · refine ⟨[], d.ptr, by simp, rfl, Nat.zero_le n, hcount.le, Or.inr (Or.inr ?_)⟩
      rw [hincomplete, List.map_nil, List.append_nil]
    · refine ⟨[], d.ptr, by simp, rfl, Nat.zero_le n, hcount.le, Or.inr (Or.inl ?_)⟩
      rw [hmalformed]
    · rw [decodeSection_eq hleft hs hptr hsize]
      have hone : ([s].flatMap (·.bytes dec)).length ≤ n := by
        rw [List.flatMap_singleton]
        exact hsize
      have hptr' : d.ptr = [s].flatMap (·.bytes dec) ++ rest := by
        rw [List.flatMap_singleton]
        exact hptr
      by_cases hknown : s.Decompressed dec
      · rw [if_pos hknown]
        dsimp only
        have hroom : ¬ resultsMaxNofSupportedSections ≤ sections.length := Nat.not_le.mpr hcount
        rw [if_neg hroom]
        by_cases hfull : sections.length + 1 = resultsMaxNofSupportedSections
        · refine ⟨[s], rest, List.forall_mem_singleton.mpr hs, hptr', hone, hfull.le, Or.inr (Or.inl ?_)⟩
          rw [if_pos hfull]
        · rw [if_neg hfull]
          have hfour := @four_le_bytes _ dec s
          have hless : n - (s.bytes dec).length < turns := by
            generalize (s.bytes dec).length = size at hfour hsize
            omega
          have hcount' : (sections ++ [s.result dec]).length < resultsMaxNofSupportedSections := by
            rw [List.length_append, List.length_singleton]
            exact Nat.lt_of_le_of_ne hcount hfull
          obtain ⟨ws, rest', hws, hptr', hlen, hmax, hresult⟩ := ih (hleft.advance hsize) hless hcount'
          rw [Deserializer.advance_ptr, hptr, List.drop_left] at hptr'
          rw [List.length_append, List.length_singleton] at hmax
          refine ⟨s :: ws, rest', List.forall_mem_cons.mpr ⟨hs, hws⟩, ?_, ?_, ?_, ?_⟩
          · rw [hptr, hptr', List.flatMap_cons, List.append_assoc]
          · rw [List.flatMap_cons, List.length_append]
            omega
          · rw [List.length_cons]
            omega
          · rw [List.append_assoc] at hresult
            exact hresult.imp_left (mt fun h => (List.forall_mem_cons.mp h).2)
      · refine ⟨[s], rest, List.forall_mem_singleton.mpr hs, hptr', hone, hcount, Or.inl ?_⟩
        exact mt List.forall_mem_singleton.mp hknown

end Sections

theorem finish_eq_some {sections result : List (UplaneSection Sample)} (h : finish sections = some result) :
    sections = result ∧ result ≠ [] := by
  cases sections with
  | nil => cases h
  | cons section_ sections =>
    cases h
    exact ⟨rfl, List.cons_ne_nil _ _⟩

@[simp] theorem ofMessage_ptr (message : List UInt8) : (Deserializer.ofMessage message).ptr = message := rfl

/-- Every message is decoded without reading past its end, to no result or to a valid header and its sections, of which
every byte is in the message, unless the decoding ends with the process. -/
structure Exact (dec : Decoder Sample) (message : List UInt8) : Prop where
  sound : dec.decode message = .ok none ∨
    ∃ (h : WireHeader) (ws : List WireSection) (rest : List UInt8), h.Valid dec ∧ ws ≠ [] ∧ (∀ s ∈ ws, s.Complete dec) ∧
      message = h.bytes ++ (ws.flatMap (·.bytes dec) ++ rest) ∧
      dec.decode message = .ok (some ⟨h.params dec, ws.map (·.result dec)⟩)
  complete : ∀ (h : WireHeader) (ws : List WireSection), h.Valid dec → 1 ≤ ws.length →
    ws.length ≤ maxNofSupportedSections → (∀ s ∈ ws, s.Complete dec) → message = h.bytes ++ ws.flatMap (·.bytes dec) →
    dec.decode message = .ok (some ⟨h.params dec, ws.map (·.result dec)⟩)

/-- The complete sections that the decoder comes to have a decompressor. The size of a message is a number of 32 bits. -/
def Decompressible (dec : Decoder Sample) (message : List UInt8) : Prop :=
  ∀ (h : WireHeader) (ws : List WireSection) (rest : List UInt8), h.Valid dec →
    ws.length ≤ resultsMaxNofSupportedSections → (∀ s ∈ ws, s.Complete dec) →
    message = h.bytes ++ (ws.flatMap (·.bytes dec) ++ rest) →
    h.bytes.length + (ws.flatMap (·.bytes dec)).length ≤ message.length % 2 ^ 32 → ∀ s ∈ ws, s.Decompressed dec

theorem decode_sound {message : List UInt8} (hknown : dec.Decompressible message) :
    dec.decode message = .ok none ∨
      ∃ (h : WireHeader) (ws : List WireSection) (rest : List UInt8), h.Valid dec ∧ ws ≠ [] ∧ (∀ s ∈ ws, s.Complete dec) ∧
        message = h.bytes ++ (ws.flatMap (·.bytes dec) ++ rest) ∧
        dec.decode message = .ok (some ⟨h.params dec, ws.map (·.result dec)⟩) := by
  obtain ⟨n, hn, hleft, hlen⟩ : ∃ n, n = message.length % 2 ^ 32 ∧ (Deserializer.ofMessage message).Left n ∧
      n ≤ message.length := ⟨_, rfl, Deserializer.Left.ofMessage message, Nat.mod_le _ _⟩
  have hptr := ofMessage_ptr message
  rw [decode]
  generalize Deserializer.ofMessage message = d at hleft hptr ⊢
  by_cases hfour : 4 ≤ n
  · obtain ⟨h, rest, hmessage⟩ := exists_header (Nat.le_trans hfour hlen)
    rw [decodeHeader_eq hleft hfour (hptr.trans hmessage), ok_bind]
    by_cases hvalid : h.Valid dec
    · rw [if_pos hvalid]
      dsimp only
      have hrest : (d.advance 4).ptr = rest := by
        rw [Deserializer.advance_ptr, hptr, hmessage]
        rfl
      obtain ⟨ws, rest', hws, hbytes, hsize, hmax, hresult⟩ := @decodeAllSections_sound _ dec _ _ _ _ (hleft.advance hfour)
        (show n - 4 < message.length + 1 by omega) (show ([] : List (UplaneSection Sample)).length < _ from Nat.two_pos)
      rw [hrest] at hbytes
      have hparts : message = h.bytes ++ (ws.flatMap (·.bytes dec) ++ rest') := by rw [hmessage, hbytes]
      have hheader : h.bytes.length = 4 := rfl
      have hall := hknown h ws rest' hvalid (by simpa using hmax) hws hparts (by omega)
      rcases hresult with hunknown | hresult | hresult
      · exact absurd hall hunknown
      · rw [hresult]
        exact Or.inl rfl
      · rw [hresult]
        cases hfinish : finish ([] ++ ws.map (·.result dec)) with
        | none => exact Or.inl rfl
        | some sections =>
          obtain ⟨hsections, hne⟩ := finish_eq_some hfinish
          refine Or.inr ⟨h, ws, rest', hvalid, ?_, hws, hparts, ?_⟩
          · rintro rfl
            exact hne hsections.symm
          · rw [ok_bind, ← hsections]
            rfl
    · rw [if_neg hvalid]
      exact Or.inl rfl
  · rw [decodeHeader, hleft.remainingBytes, if_pos (Nat.lt_of_not_le hfour)]
    exact Or.inl rfl

theorem prbSize_le (s : WireSection) : WireSection.prbSize (s.compression dec) ≤ 49 := by
  have hwidth : (s.compression dec).dataWidth ≤ 16 := by
    rw [WireSection.compression]
    cases hmode : dec.compression with
    | static params => exact dec.dataWidth_le params hmode
    | dynamic =>
      dsimp only
      split_ifs
      · exact Nat.le_refl 16
      · exact Nat.le_of_lt s.iqWidth.isLt
  rw [WireSection.prbSize]
  split_ifs <;> omega

theorem bytes_le {s : WireSection} (hs : s.Complete dec) : (s.bytes dec).length ≤ 13483 := by
  have hiq : s.iqData.length ≤ 275 * 49 := hs.iqData.trans_le (Nat.mul_le_mul (nofPrbs_le s) (prbSize_le s))
  have hcompression : (s.compressionBytes dec).length ≤ 2 := by
    rw [WireSection.compressionBytes]
    cases dec.compression with
    | static params => exact Nat.zero_le 2
    | dynamic => exact Nat.le_refl 2
  have hlength : (s.lengthBytes dec).length ≤ 2 := by
    rw [WireSection.lengthBytes]
    split_ifs
    · exact Nat.le_refl 2
    · exact Nat.zero_le 2
  rw [bytes_length]
  generalize (s.compressionBytes dec).length = c at hcompression ⊢
  generalize (s.lengthBytes dec).length = l at hlength ⊢
  omega

theorem length_of_complete (h : WireHeader) {s : WireSection} (hs : s.Complete dec) :
    (h.bytes ++ [s].flatMap (·.bytes dec)).length < 2 ^ 32 := by
  have hle := bytes_le hs
  have hheader : h.bytes.length = 4 := rfl
  rw [List.length_append, hheader, List.flatMap_singleton]
  omega

theorem decode_of_complete {h : WireHeader} {s : WireSection} (hvalid : h.Valid dec) (hs : s.Complete dec)
    (hknown : s.Decompressed dec) :
    dec.decode (h.bytes ++ [s].flatMap (·.bytes dec)) = .ok (some ⟨h.params dec, [s].map (·.result dec)⟩) := by
  have hleft := Deserializer.Left.ofMessage (h.bytes ++ [s].flatMap (·.bytes dec))
  rw [Nat.mod_eq_of_lt (length_of_complete h hs), List.length_append] at hleft
  have hptr := ofMessage_ptr (h.bytes ++ [s].flatMap (·.bytes dec))
  have hturns : 1 < (h.bytes ++ [s].flatMap (·.bytes dec)).length + 1 := by
    rw [List.length_append]
    exact Nat.lt_add_of_pos_left (Nat.add_pos_left (show 0 < h.bytes.length from Nat.succ_pos 3) _)
  have hsections := (hleft.advance (Nat.le_add_right 4 _))
  rw [decode]
  generalize Deserializer.ofMessage (h.bytes ++ [s].flatMap (·.bytes dec)) = d at hleft hptr hsections ⊢
  have hrest : (d.advance 4).ptr = [s].flatMap (·.bytes dec) := by
    rw [Deserializer.advance_ptr, hptr]
    rfl
  have hresult := @decodeAllSections_of_complete _ _ _ _ _ _ [] hsections (List.forall_mem_singleton.mpr hs)
    (List.forall_mem_singleton.mpr hknown) hrest (Nat.add_sub_cancel_left 4 _) hturns
    (show 0 + 1 < 2 from Nat.lt_add_one 1)
  rw [decodeHeader_eq hleft (Nat.le_add_right 4 _) hptr, if_pos hvalid, ok_bind]
  dsimp only
  rw [hresult]
  rfl

theorem decode_of_unknown {message : List UInt8} {h : WireHeader} {ws : List WireSection} {rest : List UInt8}
    (hvalid : h.Valid dec) (hmax : ws.length ≤ resultsMaxNofSupportedSections) (hcomplete : ∀ s ∈ ws, s.Complete dec)
    (hmessage : message = h.bytes ++ (ws.flatMap (·.bytes dec) ++ rest))
    (hsize : h.bytes.length + (ws.flatMap (·.bytes dec)).length ≤ message.length % 2 ^ 32)
    (hunknown : ¬ ∀ s ∈ ws, s.Decompressed dec) : dec.decode message = .error .decompression := by
  have hheader : h.bytes.length = 4 := rfl
  have hleft := Deserializer.Left.ofMessage message
  have hle : message.length % 2 ^ 32 ≤ message.length := Nat.mod_le _ _
  have hmax' : ws.length ≤ 2 := hmax
  have hptr := ofMessage_ptr message
  rw [decode]
  generalize Deserializer.ofMessage message = d at hleft hptr ⊢
  have hrest : (d.advance 4).ptr = ws.flatMap (·.bytes dec) ++ rest := by
    rw [Deserializer.advance_ptr, hptr, hmessage]
    rfl
  have hresult := @decodeAllSections_of_unknown _ dec _ _ _ _ _ [] (hleft.advance (show 4 ≤ _ by omega)) hcomplete hunknown
    hrest (by omega) (show ws.length < message.length + 1 by omega) (by simpa using hmax)
  rw [decodeHeader_eq hleft (by omega) (hptr.trans hmessage), if_pos hvalid, ok_bind]
  dsimp only
  rw [hresult]
  rfl

/-- Each message is decoded within its bytes, to a valid header and sections that are all in the message, and to all
sections if there are no more than the decoder supports, just if there is a decompressor for those it comes to. -/
theorem decode_exact_iff (dec : Decoder Sample) (message : List UInt8) :
    dec.Exact message ↔ dec.Decompressible message := by
  constructor
  · intro hexact h ws rest hvalid hmax hcomplete hmessage hsize
    by_contra hunknown
    have hdies := decode_of_unknown hvalid hmax hcomplete hmessage hsize hunknown
    rcases hexact.sound with hnone | ⟨_, _, _, _, _, _, _, hsome⟩
    · cases hdies.symm.trans hnone
    · cases hdies.symm.trans hsome
  · intro hknown
    refine ⟨decode_sound hknown, ?_⟩
    intro h ws hvalid hsome hmax hcomplete hmessage
    obtain ⟨s, rfl⟩ : ∃ s, ws = [s] := List.length_eq_one_iff.mp (Nat.le_antisymm hmax hsome)
    have hs := hcomplete s List.mem_cons_self
    have hall := hknown h [s] [] hvalid (Nat.le_succ 1) hcomplete (by rw [List.append_nil]; exact hmessage) (by
      rw [hmessage, Nat.mod_eq_of_lt (length_of_complete h hs), List.length_append])
    rw [hmessage]
    exact decode_of_complete hvalid hs (hall s List.mem_cons_self)

def dynamicDecoder : Decoder (UInt8 × UInt8) where
  numerology := 1
  nofSymbols := 14
  ruNofPrbs := 51
  compression := .dynamic
  decompress nofSamples bytes _ := (List.range nofSamples).map fun i => (bytes.getD (2 * i) 0, bytes.getD (2 * i + 1) 0)
  ruNofPrbs_le := by decide
  dataWidth_le params h := by cases h

def blockScaled : WireSection :=
  ⟨⟨1, by decide⟩, false, false, ⟨5, by decide⟩, 1, ⟨8, by decide⟩, ⟨2, by decide⟩, 0, 0, List.replicate 24 9⟩

theorem blockScaled_ends_process :
    let header : WireHeader := ⟨0, 1, 0, 7, 2, 1, 3⟩
    header.Valid dynamicDecoder ∧ blockScaled.Complete dynamicDecoder ∧
      dynamicDecoder.decode (header.bytes ++ [blockScaled].flatMap (·.bytes dynamicDecoder)) = .error .decompression ∧
      ¬dynamicDecoder.Exact (header.bytes ++ [blockScaled].flatMap (·.bytes dynamicDecoder)) := by
  have hdies : dynamicDecoder.decode (WireHeader.bytes ⟨0, 1, 0, 7, 2, 1, 3⟩ ++
      [blockScaled].flatMap (·.bytes dynamicDecoder)) = .error .decompression := rfl
  refine ⟨by decide, ⟨fun _ => by decide, by decide⟩, hdies, fun h => ?_⟩
  rcases h.sound with hnone | ⟨_, _, _, _, _, _, _, hsome⟩
  · cases hdies.symm.trans hnone
  · cases hdies.symm.trans hsome

end Decoder

end Ocudu.Ofh
