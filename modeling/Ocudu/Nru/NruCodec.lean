import Ocudu.Nru.NruPacking

/-! The NR-U messages that are packed come back, and every container is unpacked within its bounds. -/

namespace Ocudu.Nru

open BitCodec BitReader BitParser Support

section Pack

variable {α : Type} {parser : BitParser α} {fields : List (Nat × Nat)} {a : α}

theorem padding_length (n : Nat) : (n + (padding n).length + 2) % 4 = 0 := by
  rw [padding, List.length_replicate]
  lia

theorem pack_unpack (hfields : ∀ field ∈ fields, field.2 ≤ 64) (hpos : 0 < (fieldBits fields).length)
    (hparser : Accepts parser (fieldBits fields) a) (outBuf : List UInt8) :
    ∃ octets, pack outBuf fields = .ok (outBuf ++ octets) ∧ octets.length % 4 = 2 ∧ unpack parser octets = .ok (some a) := by
  obtain ⟨e, hpack, hbytes⟩ := BitEncoder.packFields_bytes outBuf fields hfields
  have hlen : e.bytes.length - outBuf.length = (encode (fieldBits fields)).length := by
    rw [hbytes, List.length_append, Nat.add_sub_cancel_left]
  refine ⟨encode (fieldBits fields) ++ padding (encode (fieldBits fields)).length, ?_, ?_, ?_⟩
  · rw [pack, hpack]
    simp only [ok_bind]
    rw [hlen, hbytes, List.append_assoc]
    rfl
  · have := padding_length (encode (fieldBits fields)).length
    rw [List.length_append]
    omega
  · have hne : 0 < (encode (fieldBits fields)).length := by
      rw [length_encode]
      omega
    have hmod := padding_length (encode (fieldBits fields)).length
    have hrest : rest (encode (fieldBits fields) ++ padding (encode (fieldBits fields)).length) 0 =
        fieldBits fields ++ (List.replicate (8 * (((fieldBits fields).length + 7) / 8) - (fieldBits fields).length) false ++
          bitsOf (padding (encode (fieldBits fields)).length)) := by
      rw [rest, List.drop_zero, bitsOf_append, bitsOf_encode, padTo, List.append_assoc]
    have hread := hparser _ 0 _ (Nat.zero_le _) hrest
    rw [unpack, if_neg (by rw [List.isEmpty_iff_length_eq_zero, List.length_append]; omega),
      if_neg (by rw [List.length_append, not_not]; exact hmod)]
    have hstart : (⟨encode (fieldBits fields) ++ padding (encode (fieldBits fields)).length, 0, 0⟩ : BitReader) =
        at' (encode (fieldBits fields) ++ padding (encode (fieldBits fields)).length) 0 := rfl
    rw [hstart, hread]
    rfl

theorem accepts_readFlag (b : Bool) : Accepts readFlag (toBits 1 b.toNat) b := by
  have h := (Accepts.read (show 1 ≤ 8 by decide) (show b.toNat < 2 ^ 1 by cases b <;> decide)).map (fun v => v != 0)
  have hb : (b.toNat != 0) = b := by cases b <;> rfl
  rwa [hb] at h

theorem accepts_readFlagUnchecked (b : Bool) : Accepts readFlagUnchecked (toBits 1 b.toNat) b := by
  have h := (Accepts.readUnchecked (show 1 ≤ 8 by decide) (show b.toNat < 2 ^ 1 by cases b <;> decide)).map
    (fun v => v != 0)
  have hb : (b.toNat != 0) = b := by cases b <;> rfl
  rwa [hb] at h

theorem accepts_readUInt8 {tBits : Nat} (h : 8 ≤ tBits) (v : UInt8) : Accepts (readUInt8 tBits) (toBits 8 v.toNat) v := by
  have hmap := (Accepts.read h v.toNat_lt).map UInt8.ofNat
  rwa [UInt8.ofNat_toNat] at hmap

theorem accepts_readUInt32 (v : UInt32) : Accepts readUInt32 (toBits 32 v.toNat) v := by
  have hmap := (Accepts.read (Nat.le_refl 32) v.toNat_lt).map UInt32.ofNat
  rwa [UInt32.ofNat_toNat] at hmap

theorem accepts_optional {x : BitParser α} {nBits : Nat} (f : α → Nat) (v : Option α)
    (h : ∀ a ∈ v, Accepts x (toBits nBits (f a)) a) :
    Accepts (optional v.isSome x) (fieldBits (optionalField nBits (v.map f))) v := by
  cases v with
  | none => exact Accepts.optional_none x
  | some a =>
    have hfield : fieldBits (optionalField nBits ((some a).map f)) = toBits nBits (f a) := List.append_nil _
    rw [hfield]
    exact Accepts.optional_some (h a rfl)

theorem accepts_optionalSn (v : Option Nat) (h : ∀ sn ∈ v, sn < 2 ^ 24) :
    Accepts (optional v.isSome (read 32 24)) (fieldBits (optionalField 24 v)) v := by
  have hopt := accepts_optional id v fun sn hsn => Accepts.read (show 24 ≤ 32 by decide) (h sn hsn)
  rwa [Option.map_id] at hopt

theorem accepts_counted {x : BitParser α} (item : α → List (Nat × Nat)) (as : List α) {cap : Nat} (hcap : cap < 2 ^ 8)
    (hlen : as.length ≤ cap) (h : ∀ a ∈ as, Accepts x (fieldBits (item a)) a) :
    Accepts (do
      let n ← read 8 8
      require (n ≤ cap)
      times n x) (fieldBits ((as.length, 8) :: as.flatMap item)) as := by
  have hitems : fieldBits (as.flatMap item) = as.flatMap fun a => fieldBits (item a) := by
    rw [fieldBits, List.flatMap_assoc]
    rfl
  rw [fieldBits_cons, hitems]
  exact (Accepts.read (Nat.le_refl 8) (by omega)).bind ((Accepts.require hlen).bind (Accepts.times as h))

end Pack

/-- The message that is received for one that is sent: no blocks are the same as none, and what is not reported is
left out. -/
def received (d : DlUserData) : DlUserData :=
  { d with
    discardBlocks := d.discardBlocks.filter fun blocks => !blocks.isEmpty
    dlReportPdcpSn := if d.reportDelivered then d.dlReportPdcpSn else 0 }

/-- The numbers fit into their fields, and the blocks into their list. -/
structure DlUserDataInRange (d : DlUserData) : Prop where
  nruSn : d.nruSn < 2 ^ 24
  dlDiscardPdcpSn : ∀ sn ∈ d.dlDiscardPdcpSn, sn < 2 ^ 24
  nofBlocks : ∀ blocks ∈ d.discardBlocks, blocks.length ≤ nruMaxNofPdcpSnDiscardBlocks
  blocks : ∀ blocks ∈ d.discardBlocks, ∀ block ∈ blocks, block.pdcpSnStart < 2 ^ 24
  dlReportPdcpSn : d.reportDelivered = true → d.dlReportPdcpSn < 2 ^ 24

structure StatusInRange (s : DlDataDeliveryStatus) : Prop where
  nofRanges : ∀ ranges ∈ s.lostNruSnRanges, ranges.length ≤ nruMaxNofLostNruSnRanges
  ranges : ∀ ranges ∈ s.lostNruSnRanges, ∀ range ∈ ranges, range.nruSnStart < 2 ^ 24 ∧ range.nruSnEnd < 2 ^ 24
  highestDeliveredPdcpSn : ∀ sn ∈ s.highestDeliveredPdcpSn, sn < 2 ^ 24
  highestTransmittedPdcpSn : ∀ sn ∈ s.highestTransmittedPdcpSn, sn < 2 ^ 24
  highestDeliveredRetransmittedPdcpSn : ∀ sn ∈ s.highestDeliveredRetransmittedPdcpSn, sn < 2 ^ 24
  highestRetransmittedPdcpSn : ∀ sn ∈ s.highestRetransmittedPdcpSn, sn < 2 ^ 24

section RoundTrip

variable {d : DlUserData} {s : DlDataDeliveryStatus}

theorem accepts_readDiscardBlock {block : DiscardBlock} (h : block.pdcpSnStart < 2 ^ 24) :
    Accepts readDiscardBlock (fieldBits [(block.pdcpSnStart, 24), (block.blockSize.toNat, 8)]) block := by
  have hbits : fieldBits [(block.pdcpSnStart, 24), (block.blockSize.toNat, 8)] =
      toBits 24 block.pdcpSnStart ++ toBits 8 block.blockSize.toNat := by
    simp [fieldBits]
  rw [hbits]
  apply (Accepts.read (by decide) h).bind
  exact (accepts_readUInt8 (Nat.le_refl 8) block.blockSize).map fun size => (⟨block.pdcpSnStart, size⟩ : DiscardBlock)

theorem accepts_discardBlocks (h : DlUserDataInRange d) :
    Accepts (optional (d.discardBlocks.any fun blocks => !blocks.isEmpty) readDiscardBlocks)
      (fieldBits (if d.discardBlocks.any fun blocks => !blocks.isEmpty then ((d.discardBlocks.getD []).length, 8) ::
        (d.discardBlocks.getD []).flatMap fun block => [(block.pdcpSnStart, 24), (block.blockSize.toNat, 8)] else []))
      (d.discardBlocks.filter fun blocks => !blocks.isEmpty) := by
  have hnof := h.nofBlocks
  have hstart := h.blocks
  cases hd : d.discardBlocks with
  | none => exact Accepts.optional_none _
  | some blocks =>
    rw [hd] at hnof hstart
    cases hempty : blocks.isEmpty with
    | true =>
      simp only [Option.any_some, Option.filter_some, hempty, Bool.not_true, Bool.false_eq_true, if_false]
      exact Accepts.optional_none _
    | false =>
      simp only [Option.any_some, Option.filter_some, hempty, Bool.not_false, if_true, Option.getD_some]
      exact Accepts.optional_some (accepts_counted _ blocks (by decide) (hnof blocks rfl) fun block hb =>
        accepts_readDiscardBlock (hstart blocks rfl block hb))

theorem accepts_dlReportPdcpSn (h : DlUserDataInRange d) :
    Accepts (optional d.reportDelivered (read 32 24))
      (fieldBits (if d.reportDelivered then [(d.dlReportPdcpSn, 24)] else []))
      (if d.reportDelivered then some d.dlReportPdcpSn else none) := by
  have hsn := h.dlReportPdcpSn
  cases hd : d.reportDelivered with
  | false => exact Accepts.optional_none _
  | true =>
    have hbits : fieldBits [(d.dlReportPdcpSn, 24)] = toBits 24 d.dlReportPdcpSn := List.append_nil _
    rw [if_pos rfl, if_pos rfl, hbits]
    exact Accepts.optional_some (Accepts.read (by decide) (hsn hd))

theorem accepts_readDlUserData (h : DlUserDataInRange d) :
    Accepts readDlUserData (fieldBits (dlUserDataFields d)) (received d) := by
  have hreport : received d = ⟨d.reportPolling, d.requestOutOfSeqReport, d.reportDelivered, d.userDataExistenceFlag,
      d.assistInfoReportPollingFlag, d.retransmissionFlag, d.nruSn, d.dlDiscardPdcpSn,
      d.discardBlocks.filter fun blocks => !blocks.isEmpty,
      (if d.reportDelivered then some d.dlReportPdcpSn else none).getD 0⟩ := by
    rw [received]
    cases d.reportDelivered <;> rfl
  rw [hreport]
  refine Accepts.of_eq ?_ <| .bind (.read (by decide) (show 0 < 2 ^ 4 by decide)) <| .bind (.require rfl) <|
    .bind (.read (by decide) (show 0 < 2 ^ 1 by decide)) <| .bind (.require rfl) <|
    .bind (accepts_readFlag (d.discardBlocks.any fun blocks => !blocks.isEmpty)) <|
    .bind (accepts_readFlag d.dlDiscardPdcpSn.isSome) <| .bind (accepts_readFlag d.reportPolling) <|
    .bind (.read (by decide) (show 0 < 2 ^ 3 by decide)) <| .bind (.require rfl) <|
    .bind (accepts_readFlagUnchecked d.requestOutOfSeqReport) <| .bind (accepts_readFlagUnchecked d.reportDelivered) <|
    .bind (accepts_readFlagUnchecked d.userDataExistenceFlag) <|
    .bind (accepts_readFlagUnchecked d.assistInfoReportPollingFlag) <| .bind (accepts_readFlag d.retransmissionFlag) <|
    .bind (.read (by decide) h.nruSn) <| .bind (accepts_optionalSn d.dlDiscardPdcpSn h.dlDiscardPdcpSn) <|
    .bind (accepts_discardBlocks h) <| .bind (accepts_dlReportPdcpSn h) <| .pure _
  simp only [dlUserDataFields, fieldBits_append, fieldBits_cons, fieldBits_nil, List.append_assoc, List.nil_append,
    List.append_nil, PduType.toUint]

theorem accepts_readLostNruSnRange {range : LostNruSnRange} (hstart : range.nruSnStart < 2 ^ 24)
    (hend : range.nruSnEnd < 2 ^ 24) :
    Accepts readLostNruSnRange (fieldBits [(range.nruSnStart, 24), (range.nruSnEnd, 24)]) range := by
  have hbits : fieldBits [(range.nruSnStart, 24), (range.nruSnEnd, 24)] =
      toBits 24 range.nruSnStart ++ toBits 24 range.nruSnEnd := by
    simp [fieldBits]
  rw [hbits]
  apply (Accepts.read (by decide) hstart).bind
  exact (Accepts.read (by decide) hend).map fun e => (⟨range.nruSnStart, e⟩ : LostNruSnRange)

theorem accepts_lostNruSnRanges (h : StatusInRange s) :
    Accepts (optional s.lostNruSnRanges.isSome readLostNruSnRanges)
      (fieldBits (s.lostNruSnRanges.elim [] fun ranges => (ranges.length, 8) ::
        ranges.flatMap fun range => [(range.nruSnStart, 24), (range.nruSnEnd, 24)])) s.lostNruSnRanges := by
  have hnof := h.nofRanges
  have hranges := h.ranges
  cases hs : s.lostNruSnRanges with
  | none => exact Accepts.optional_none _
  | some ranges =>
    rw [hs] at hnof hranges
    exact Accepts.optional_some (accepts_counted _ ranges (by decide) (hnof ranges rfl) fun range hr =>
      accepts_readLostNruSnRange (hranges ranges rfl range hr).1 (hranges ranges rfl range hr).2)

theorem accepts_optionalUInt32 (v : Option UInt32) :
    Accepts (optional v.isSome readUInt32) (fieldBits (optionalField 32 (v.map (·.toNat)))) v :=
  accepts_optional _ v fun v _ => accepts_readUInt32 v

theorem accepts_optionalUInt8 (v : Option UInt8) :
    Accepts (optional v.isSome (readUInt8 32)) (fieldBits (optionalField 8 (v.map (·.toNat)))) v :=
  accepts_optional _ v fun v _ => accepts_readUInt8 (by decide) v

theorem accepts_readDlDataDeliveryStatus (h : StatusInRange s) :
    Accepts readDlDataDeliveryStatus (fieldBits (dlDataDeliveryStatusFields s)) s := by
  refine Accepts.of_eq ?_ <| .bind (.read (by decide) (show 1 < 2 ^ 4 by decide)) <| .bind (.require rfl) <|
    .bind (accepts_readFlag s.highestTransmittedPdcpSn.isSome) <|
    .bind (accepts_readFlag s.highestDeliveredPdcpSn.isSome) <| .bind (accepts_readFlag s.finalFrameInd) <|
    .bind (accepts_readFlag s.lostNruSnRanges.isSome) <|
    .bind (.read (by decide) (show 0 < 2 ^ 4 by decide)) <| .bind (.require rfl) <|
    .bind (accepts_readFlag s.desiredDataRate.isSome) <|
    .bind (accepts_readFlag s.highestRetransmittedPdcpSn.isSome) <|
    .bind (accepts_readFlag s.highestDeliveredRetransmittedPdcpSn.isSome) <|
    .bind (accepts_readFlag s.causeValue.isSome) <| .bind (accepts_readUInt32 s.desiredBufferSizeForDrb) <|
    .bind (accepts_optionalUInt32 s.desiredDataRate) <| .bind (accepts_lostNruSnRanges h) <|
    .bind (accepts_optionalSn _ h.highestDeliveredPdcpSn) <| .bind (accepts_optionalSn _ h.highestTransmittedPdcpSn) <|
    .bind (accepts_optionalUInt8 s.causeValue) <|
    .bind (accepts_optionalSn _ h.highestDeliveredRetransmittedPdcpSn) <|
    .bind (accepts_optionalSn _ h.highestRetransmittedPdcpSn) <| .pure s
  simp only [dlDataDeliveryStatusFields, fieldBits_append, fieldBits_cons, fieldBits_nil, List.append_assoc,
    List.nil_append, List.append_nil, PduType.toUint]

end RoundTrip

def countedSize (container : List UInt8) (pos itemSize : Nat) : Nat := 8 + fieldAt container pos 8 * itemSize

def announcedDlUserData (container : List UInt8) : Nat :=
  let blocksPos := 40 + if flagAt container 6 then 24 else 0
  blocksPos + (if flagAt container 5 then countedSize container blocksPos 32 else 0) +
    if flagAt container 12 then 24 else 0

def announcedDlDataDeliveryStatus (container : List UInt8) : Nat :=
  let rangesPos := 48 + if flagAt container 12 then 32 else 0
  rangesPos + (if flagAt container 7 then countedSize container rangesPos 48 else 0) +
    (if flagAt container 5 then 24 else 0) + (if flagAt container 4 then 24 else 0) +
    (if flagAt container 15 then 8 else 0) + (if flagAt container 14 then 24 else 0) +
    if flagAt container 13 then 24 else 0

section Bounds

variable {α : Type} {container : List UInt8} {pos : Nat}

theorem meets_readFlag {post : Bool → Nat → Prop} (hpos : pos ≤ 8 * container.length)
    (h : pos + 1 ≤ 8 * container.length → post (flagAt container pos) (pos + 1)) :
    Meets readFlag container pos post :=
  .bind (.read hpos (by decide) fun hfits _ => .pure hfits (h hfits))

theorem meets_readFlagUnchecked {post : Bool → Nat → Prop} (hfits : pos + 1 ≤ 8 * container.length)
    (h : post (flagAt container pos) (pos + 1)) : Meets readFlagUnchecked container pos post := by
  have hpos : pos ≤ 8 * container.length := Nat.le_of_succ_le hfits
  refine .bind (.readUnchecked hpos (by decide) (fun _ _ => .pure hfits h) fun hshort => ?_)
  lia

theorem meets_read (tBits n : Nat) (hn : n ≤ tBits) (hpos : pos ≤ 8 * container.length) :
    Meets (read tBits n) container pos fun _ pos' => pos' = pos + n :=
  .read hpos hn fun _ => rfl

theorem meets_readUInt8 {tBits : Nat} (hn : 8 ≤ tBits) (hpos : pos ≤ 8 * container.length) :
    Meets (readUInt8 tBits) container pos fun _ pos' => pos' = pos + 8 :=
  .bind (.read hpos hn fun hfits _ => .pure hfits rfl)

section

variable (hpos : pos ≤ 8 * container.length)
include hpos

theorem meets_readUInt32 :
    Meets readUInt32 container pos fun _ pos' => pos' = pos + 32 :=
  .bind (.read hpos (by decide) fun hfits _ => .pure hfits rfl)

theorem meets_counted {x : BitParser α} {itemSize cap : Nat} (hx : ∀ pos, pos ≤ 8 * container.length → Meets x container pos fun _ pos' => pos' = pos + itemSize) :
    Meets (do
      let n ← read 8 8
      require (n ≤ cap)
      times n x) container pos fun _ pos' => pos' = pos + countedSize container pos itemSize := by
  refine .bind (.read hpos (by decide) fun hfits _ => .bind (.require hfits fun _ _ => ?_))
  apply (Meets.times _ hfits hx).mono
  rintro _ _ ⟨-, rfl⟩
  exact Nat.add_assoc pos 8 _

theorem meets_readDiscardBlock :
    Meets readDiscardBlock container pos fun _ pos' => pos' = pos + 32 :=
  .bind (.read hpos (by decide) fun hfits _ => .bind ((meets_readUInt8 (by decide) hfits).mono fun _ _ h hpos' =>
    .pure hpos' h))

theorem meets_readLostNruSnRange :
    Meets readLostNruSnRange container pos fun _ pos' => pos' = pos + 48 :=
  .bind (.read hpos (by decide) fun hfits _ => .bind (.read hfits (by decide) fun hfits' _ => .pure hfits' rfl))

end

theorem meets_readDlUserData (hlen : 2 ≤ container.length) :
    Meets readDlUserData container 0 fun _ pos' => pos' = announcedDlUserData container := by
  refine .bind (.read (by omega) (by decide) fun h₁ _ => .bind (.require h₁ fun _ _ => ?_))
  refine .bind (.read h₁ (by decide) fun h₂ _ => .bind (.require h₂ fun _ _ => ?_))
  refine .bind (meets_readFlag h₂ fun h₃ _ => .bind (meets_readFlag h₃ fun h₄ _ => .bind (meets_readFlag h₄ fun h₅ _ => ?_)))
  refine .bind (.read h₅ (by decide) fun h₆ _ => .bind (.require h₆ fun _ _ => ?_))
  refine .bind (meets_readFlagUnchecked (by omega) fun _ => .bind (meets_readFlagUnchecked (by omega) fun _ => ?_))
  refine .bind (meets_readFlagUnchecked (by omega) fun _ => .bind (meets_readFlagUnchecked (by omega) fun h₇ => ?_))
  refine .bind (meets_readFlag h₇ fun h₈ _ => .bind (.read h₈ (by decide) fun h₉ _ => ?_))
  refine .bind ((Meets.optional_size h₉ (meets_read 32 24 (by decide) h₉)).mono ?_)
  rintro _ _ rfl h₁₀
  refine .bind ((Meets.optional_size h₁₀ (meets_counted h₁₀ fun _ => meets_readDiscardBlock)).mono ?_)
  rintro _ _ rfl h₁₁
  refine .bind ((Meets.optional_size h₁₁ (meets_read 32 24 (by decide) h₁₁)).mono ?_)
  rintro _ _ rfl h₁₂
  exact .pure h₁₂ rfl

theorem meets_readDlDataDeliveryStatus :
    Meets readDlDataDeliveryStatus container 0 fun _ pos' => pos' = announcedDlDataDeliveryStatus container := by
  refine .bind (.read (Nat.zero_le _) (by decide) fun h₁ _ => .bind (.require h₁ fun _ _ => ?_))
  refine .bind (meets_readFlag h₁ fun h₂ _ => .bind (meets_readFlag h₂ fun h₃ _ => ?_))
  refine .bind (meets_readFlag h₃ fun h₄ _ => .bind (meets_readFlag h₄ fun h₅ _ => ?_))
  refine .bind (.read h₅ (by decide) fun h₆ _ => .bind (.require h₆ fun _ _ => ?_))
  refine .bind (meets_readFlag h₆ fun h₇ _ => .bind (meets_readFlag h₇ fun h₈ _ => ?_))
  refine .bind (meets_readFlag h₈ fun h₉ _ => .bind (meets_readFlag h₉ fun h₁₀ _ => ?_))
  refine .bind ((meets_readUInt32 h₁₀).mono ?_)
  rintro _ _ rfl h₁₁
  refine .bind ((Meets.optional_size h₁₁ (meets_readUInt32 h₁₁)).mono ?_)
  rintro _ _ rfl h₁₂
  refine .bind ((Meets.optional_size h₁₂ (meets_counted h₁₂ fun _ => meets_readLostNruSnRange)).mono ?_)
  rintro _ _ rfl h₁₃
  refine .bind ((Meets.optional_size h₁₃ (meets_read 32 24 (by decide) h₁₃)).mono ?_)
  rintro _ _ rfl h₁₄
  refine .bind ((Meets.optional_size h₁₄ (meets_read 32 24 (by decide) h₁₄)).mono ?_)
  rintro _ _ rfl h₁₅
  refine .bind ((Meets.optional_size h₁₅ (meets_readUInt8 (by decide) h₁₅)).mono ?_)
  rintro _ _ rfl h₁₆
  refine .bind ((Meets.optional_size h₁₆ (meets_read 32 24 (by decide) h₁₆)).mono ?_)
  rintro _ _ rfl h₁₇
  refine .bind ((Meets.optional_size h₁₇ (meets_read 32 24 (by decide) h₁₇)).mono ?_)
  rintro _ _ rfl h₁₈
  exact .pure h₁₈ rfl

theorem unpack_total {parser : BitParser α} {announced : Nat}
    (h : 2 ≤ container.length → Meets parser container 0 fun _ pos' => pos' = announced) :
    ∃ res, unpack parser container = .ok res ∧ (8 * container.length < announced → res = none) := by
  by_cases hempty : container.isEmpty
  · exact ⟨none, if_pos hempty, fun _ => rfl⟩
  · by_cases hmod : (container.length + 2) % 4 ≠ 0
    · exact ⟨none, by rw [unpack, if_neg hempty, if_pos hmod], fun _ => rfl⟩
    · have hne : container.length ≠ 0 := fun h => hempty (List.isEmpty_iff_length_eq_zero.mpr h)
      obtain ⟨res, hres, hpost⟩ := h (by omega)
      refine ⟨res.map (·.1), ?_, ?_⟩
      · have hstart : (⟨container, 0, 0⟩ : BitReader) = at' container 0 := rfl
        rw [unpack, if_neg hempty, if_neg hmod, hstart, hres]
        rfl
      · intro hshort
        cases res with
        | none => rfl
        | some p =>
          obtain ⟨pos', _, hle, heq⟩ := hpost p.1 p.2 rfl
          omega

end Bounds

theorem fieldBits_pos (nBits val : Nat) (fields : List (Nat × Nat)) (h : 0 < nBits) :
    0 < (fieldBits ((val, nBits) :: fields)).length := by
  rw [fieldBits_cons, List.length_append, length_toBits]
  omega

theorem optionalField_width {nBits : Nat} (h : nBits ≤ 64) (v : Option Nat) :
    ∀ field ∈ optionalField nBits v, field.2 ≤ 64 := by
  cases v with
  | none => exact List.forall_mem_nil _
  | some v => exact List.forall_mem_singleton.mpr h

theorem counted_width {α : Type} {item : α → List (Nat × Nat)} (as : List α)
    (h : ∀ a, ∀ field ∈ item a, field.2 ≤ 64) : ∀ field ∈ (as.length, 8) :: as.flatMap item, field.2 ≤ 64 := by
  rw [List.forall_mem_cons]
  refine ⟨show 8 ≤ 64 by decide, fun field hfield => ?_⟩
  obtain ⟨a, _, ha⟩ := List.mem_flatMap.mp hfield
  exact h a field ha

theorem dlUserDataFields_width (d : DlUserData) : ∀ field ∈ dlUserDataFields d, field.2 ≤ 64 := by
  rw [dlUserDataFields]
  refine List.forall_mem_append.mpr ⟨by simp, List.forall_mem_append.mpr ⟨optionalField_width (by decide) _,
    List.forall_mem_append.mpr ⟨?_, ?_⟩⟩⟩
  · split
    · exact counted_width _ fun _ => by simp
    · exact List.forall_mem_nil _
  · split
    · exact List.forall_mem_singleton.mpr (show 24 ≤ 64 by decide)
    · exact List.forall_mem_nil _

theorem dlDataDeliveryStatusFields_width (s : DlDataDeliveryStatus) :
    ∀ field ∈ dlDataDeliveryStatusFields s, field.2 ≤ 64 := by
  have hranges : ∀ field ∈ s.lostNruSnRanges.elim [] (fun ranges => (ranges.length, 8) ::
      ranges.flatMap fun range => [(range.nruSnStart, 24), (range.nruSnEnd, 24)]), field.2 ≤ 64 := by
    cases s.lostNruSnRanges with
    | none => exact List.forall_mem_nil _
    | some ranges => exact counted_width ranges fun _ => by simp
  rw [dlDataDeliveryStatusFields]
  refine List.forall_mem_append.mpr ⟨by simp, ?_⟩
  refine List.forall_mem_append.mpr ⟨optionalField_width (by decide) _, List.forall_mem_append.mpr ⟨hranges, ?_⟩⟩
  refine List.forall_mem_append.mpr ⟨optionalField_width (by decide) _, ?_⟩
  refine List.forall_mem_append.mpr ⟨optionalField_width (by decide) _, ?_⟩
  refine List.forall_mem_append.mpr ⟨optionalField_width (by decide) _, ?_⟩
  exact List.forall_mem_append.mpr ⟨optionalField_width (by decide) _, optionalField_width (by decide) _⟩

theorem packDlUserData_unpack {d : DlUserData} (h : DlUserDataInRange d) (outBuf : List UInt8) :
    ∃ octets, packDlUserData outBuf d = .ok (outBuf ++ octets) ∧ octets.length % 4 = 2 ∧
      unpackDlUserData octets = .ok (some (received d)) :=
  pack_unpack (dlUserDataFields_width d) (fieldBits_pos 4 _ _ (by decide)) (accepts_readDlUserData h) outBuf

/-- Messages are packed into `4 * n - 2` octets and come back from them, and no container is read past its end or
accepted with less than its flags announce. -/
theorem nru_codec (d : DlUserData) (s : DlDataDeliveryStatus) (outBuf container : List UInt8)
    (hd : DlUserDataInRange d) (hs : StatusInRange s) :
    (∃ octets, packDlUserData outBuf d = .ok (outBuf ++ octets) ∧ octets.length % 4 = 2 ∧
      unpackDlUserData octets = .ok (some (received d))) ∧
    (∃ octets, packDlDataDeliveryStatus outBuf s = .ok (outBuf ++ octets) ∧ octets.length % 4 = 2 ∧
      unpackDlDataDeliveryStatus octets = .ok (some s)) ∧
    (∃ res, unpackDlUserData container = .ok res ∧
      (8 * container.length < announcedDlUserData container → res = none)) ∧
    ∃ res, unpackDlDataDeliveryStatus container = .ok res ∧
      (8 * container.length < announcedDlDataDeliveryStatus container → res = none) :=
  ⟨packDlUserData_unpack hd outBuf,
    pack_unpack (dlDataDeliveryStatusFields_width s) (fieldBits_pos 4 _ _ (by decide))
      (accepts_readDlDataDeliveryStatus hs) outBuf,
    unpack_total meets_readDlUserData, unpack_total fun _ => meets_readDlDataDeliveryStatus⟩

def sampleDlUserData : DlUserData :=
  ⟨true, false, true, true, false, false, 0xabcdef, some 7, some [], 0x123456⟩

def sampleStatus : DlDataDeliveryStatus :=
  { finalFrameInd := true, lostNruSnRanges := some [⟨3, 5⟩], causeValue := some 4, highestDeliveredPdcpSn := some 9 }

theorem nru_codec_sample :
    (∃ octets, packDlUserData [0xff] sampleDlUserData = .ok ([0xff] ++ octets) ∧ octets.length % 4 = 2 ∧
      unpackDlUserData octets = .ok (some (received sampleDlUserData))) ∧
    (∃ octets, packDlDataDeliveryStatus [0xff] sampleStatus = .ok ([0xff] ++ octets) ∧ octets.length % 4 = 2 ∧
      unpackDlDataDeliveryStatus octets = .ok (some sampleStatus)) ∧
    (∃ res, unpackDlUserData [0x02, 0x00] = .ok res ∧ (8 * 2 < announcedDlUserData [0x02, 0x00] → res = none)) ∧
    ∃ res, unpackDlDataDeliveryStatus [0x02, 0x00] = .ok res ∧
      (8 * 2 < announcedDlDataDeliveryStatus [0x02, 0x00] → res = none) :=
  nru_codec sampleDlUserData sampleStatus [0xff] [0x02, 0x00]
    ⟨by decide, by simp [sampleDlUserData], by simp [sampleDlUserData], by simp [sampleDlUserData], by decide⟩
    ⟨by simp [sampleStatus, nruMaxNofLostNruSnRanges], by simp [sampleStatus], by simp [sampleStatus],
      by simp [sampleStatus], by simp [sampleStatus], by simp [sampleStatus]⟩

end Ocudu.Nru
