import Ocudu.Gtpu.GtpuPdu

/-! A GTP-U header that is written is dissected from the PDU, and no PDU is read past its end. -/

namespace Ocudu.Gtpu

open BitCodec BitReader BitWriter BitParser Support GtpuExtensionHeaderType

/-- Extension headers on the wire, each complete and none of length zero, and what follows the last one. -/
inductive ExtensionChain : GtpuExtensionHeaderType → List UInt8 → List GtpuExtensionHeader → List UInt8 → Prop
  | last {type : GtpuExtensionHeaderType} {length : UInt8} {container payload : List UInt8}
    (hlen : container.length + 2 = 4 * length.toNat) :
    ExtensionChain type (length :: (container ++ noMoreExtensionHeaders :: payload)) [⟨type, container⟩] payload
  | next {type next : GtpuExtensionHeaderType} {length : UInt8} {container tail payload : List UInt8}
    {extList : List GtpuExtensionHeader} (hlen : container.length + 2 = 4 * length.toNat)
    (hnext : next ≠ noMoreExtensionHeaders) (chain : ExtensionChain next tail extList payload) :
    ExtensionChain type (length :: (container ++ next :: tail)) (⟨type, container⟩ :: extList) payload

theorem ExtensionChain.suffix {type : GtpuExtensionHeaderType} {wire payload : List UInt8}
    {extList : List GtpuExtensionHeader} (chain : ExtensionChain type wire extList payload) : payload <:+ wire := by
  induction chain with
  | @last _ length container payload _ =>
    exact (List.suffix_cons _ payload).trans ((List.suffix_append container _).trans (List.suffix_cons length _))
  | @next _ next length container tail _ _ _ _ _ ih =>
    exact ih.trans ((List.suffix_cons next tail).trans ((List.suffix_append container _).trans (List.suffix_cons length _)))

section Read

variable {bytes : List UInt8} {i : Nat} {type next : GtpuExtensionHeaderType} {length : UInt8}
  {container tail payload : List UInt8}

section

variable (h : bytes.drop i = length :: (container ++ next :: tail))
include h

theorem drop_extHeader :
    bytes.drop (i + 1 + container.length) = next :: tail ∧ bytes.drop (i + 1 + container.length + 1) = tail := by
  have hcontainer : bytes.drop (i + 1) = container ++ next :: tail := by
    rw [← List.drop_drop, h]
    rfl
  have hnext : bytes.drop (i + 1 + container.length) = next :: tail := by
    rw [← List.drop_drop, hcontainer, List.drop_left]
  refine ⟨hnext, ?_⟩
  rw [← List.drop_drop, hnext]
  rfl

theorem readExtHeader_complete (hlen : container.length + 2 = 4 * length.toNat) :
    gtpuReadExtHeader type (at' bytes (8 * i)) =
      .ok (some ((⟨type, container⟩, next), at' bytes (8 * (i + 1 + container.length + 1)))) := by
  have hcontainer : bytes.drop (i + 1) = container ++ next :: tail := by
    rw [← List.drop_drop, h]
    rfl
  have hpayload : (length.toNat * 4 + 2 ^ 16 - 2) % 2 ^ 16 = container.length := by
    have := length.toNat_lt
    lia
  have hfits : container.length ≤ bytes.length - (i + 1) := by
    rw [← List.length_drop, hcontainer, List.length_append]
    omega
  have hbytes : BitDecoder.unpackAlignedBytes container.length (at' bytes (8 * (i + 1))) =
      .ok (some (container, at' bytes (8 * (i + 1 + container.length)))) := by
    rw [BitDecoder.unpackAlignedBytes_at, if_pos hfits, hcontainer, List.take_left]
  rw [gtpuReadExtHeader, bind_ok (BitDecoder.unpack_byte h), hpayload, bind_ok hbytes,
    bind_ok (BitDecoder.unpack_byte (drop_extHeader h).1)]
  rfl

theorem pos_extHeader :
    bytes.length - tail.length = i + 1 + container.length + 1 := by
  have hlen := congrArg List.length h
  rw [List.length_drop, List.length_cons, List.length_append, List.length_cons] at hlen
  omega

end

theorem readExtHeaders_chain {extList : List GtpuExtensionHeader} {wire : List UInt8}
    (chain : ExtensionChain type wire extList payload) : ∀ {i : Nat}, bytes.drop i = wire → ∀ room : Nat,
    gtpuReadExtHeaders room type (at' bytes (8 * i)) = .ok (if extList.length ≤ room ∧
      ∀ ext ∈ extList, gtpuExtensionHeaderComprehensionCheck ext.extensionHeaderType = true then
      some (extList, at' bytes (8 * (bytes.length - payload.length))) else none) := by
  induction chain with
  | @last type length container payload hlen =>
    intro i h room
    by_cases hcheck : gtpuExtensionHeaderComprehensionCheck type = true
    · cases room with
      | zero =>
        rw [gtpuReadExtHeaders, require_ok hcheck, bind_ok (readExtHeader_complete h hlen), require_fail not_false,
          if_neg fun hroom => absurd hroom.1 (by simp)]
      | succ room =>
        rw [gtpuReadExtHeaders, require_ok hcheck, bind_ok (readExtHeader_complete h hlen),
          if_pos ⟨Nat.le_add_left 1 room, List.forall_mem_singleton.mpr hcheck⟩, pos_extHeader h]
        rfl
    · rw [if_neg fun hall => hcheck (hall.2 _ List.mem_cons_self)]
      cases room <;> exact require_fail hcheck _ _
  | @next type next length container tail payload extList hlen hnext chain ih =>
    intro i h room
    by_cases hcheck : gtpuExtensionHeaderComprehensionCheck type = true
    · cases room with
      | zero =>
        rw [gtpuReadExtHeaders, require_ok hcheck, bind_ok (readExtHeader_complete h hlen), require_fail not_false,
          if_neg fun hroom => absurd hroom.1 (by simp)]
      | succ room =>
        have htail := ih (drop_extHeader h).2 room
        rw [gtpuReadExtHeaders, require_ok hcheck, bind_ok (readExtHeader_complete h hlen)]
        show (if next = noMoreExtensionHeaders then _ else _ : BitParser _) _ = _
        rw [if_neg hnext]
        by_cases hall : extList.length ≤ room ∧
            ∀ ext ∈ extList, gtpuExtensionHeaderComprehensionCheck ext.extensionHeaderType = true
        · rw [if_pos hall] at htail
          rw [bind_ok htail, if_pos ⟨Nat.succ_le_succ hall.1, List.forall_mem_cons.mpr ⟨hcheck, hall.2⟩⟩]
          rfl
        · rw [if_neg hall] at htail
          rw [bind_fail htail, if_neg fun hcons => hall ⟨Nat.le_of_succ_le_succ hcons.1,
            (List.forall_mem_cons.mp hcons.2).2⟩]
    · rw [if_neg fun hall => hcheck (hall.2 _ List.mem_cons_self)]
      cases room <;> exact require_fail hcheck _ _

end Read

section Bounds

variable {bytes : List UInt8} {i : Nat} {type : GtpuExtensionHeaderType}

theorem meets_unpackByte (hi : i ≤ bytes.length) :
    Meets (BitDecoder.unpack UInt8.ofNat 8 8) bytes (8 * i) fun _ pos' => ∃ j, pos' = 8 * j ∧ i ≤ j := by
  refine .bind (.readUnchecked (by omega) (by decide) ?_ ?_)
  · intro hfits _
    exact .pure hfits ⟨i + 1, rfl, by omega⟩
  · intro _ hpos
    exact .pure hpos ⟨bytes.length, rfl, hi⟩

theorem meets_unpackAlignedBytes (hi : i ≤ bytes.length) (n : Nat) :
    Meets (BitDecoder.unpackAlignedBytes n) bytes (8 * i) fun container pos' =>
      ∃ j, pos' = 8 * j ∧ i ≤ j ∧ container <:+: bytes.take j := by
  refine ⟨_, BitDecoder.unpackAlignedBytes_at bytes i n, ?_⟩
  rintro container r hres
  by_cases hn : n ≤ bytes.length - i
  · rw [if_pos hn] at hres
    cases hres
    refine ⟨_, rfl, by omega, i + n, rfl, by omega, ?_⟩
    rw [List.take_add]
    exact (List.suffix_append _ _).isInfix
  · rw [if_neg hn] at hres
    cases hres
    exact ⟨_, rfl, by omega, i, rfl, Nat.le_refl i, List.nil_infix⟩

theorem infix_take {container : List UInt8} {j k : Nat} (h : container <:+: bytes.take j) (hjk : j ≤ k) :
    container <:+: bytes.take k :=
  h.trans (List.take_prefix_take_left hjk).isInfix

theorem meets_readExtHeader (hi : i ≤ bytes.length) :
    Meets (gtpuReadExtHeader type) bytes (8 * i) fun res pos' =>
      ∃ j, pos' = 8 * j ∧ i ≤ j ∧ res.1.container <:+: bytes.take j := by
  refine .bind ((meets_unpackByte hi).mono ?_)
  rintro length _ ⟨j, rfl, hij⟩ hj
  refine .bind ((meets_unpackAlignedBytes (by omega) _).mono ?_)
  rintro container _ ⟨k, rfl, hjk, hcontainer⟩ hk
  refine .bind ((meets_unpackByte (by omega)).mono ?_)
  rintro next _ ⟨l, rfl, hkl⟩ hl
  exact .pure hl ⟨l, rfl, by omega, infix_take hcontainer hkl⟩

theorem meets_readExtHeaders (type : GtpuExtensionHeaderType) (room : Nat) (hi : i ≤ bytes.length) :
    Meets (gtpuReadExtHeaders room type) bytes (8 * i) fun extList pos' =>
      ∃ j, pos' = 8 * j ∧ i ≤ j ∧ ∀ ext ∈ extList, ext.container <:+: bytes.take j := by
  induction room generalizing i type with
  | zero =>
    refine .bind (.require (by omega) fun _ _ => .bind ((meets_readExtHeader hi).mono ?_))
    rintro _ _ ⟨j, rfl, -⟩ hj
    exact .bind (.require hj fun hfalse => hfalse.elim)
  | succ room ih =>
    refine .bind (.require (by lia) fun _ _ => .bind ((meets_readExtHeader hi).mono ?_))
    rintro ⟨ext, next⟩ _ ⟨j, rfl, hij, hext⟩ hj
    dsimp only
    split
    · exact .pure hj ⟨j, rfl, hij, List.forall_mem_singleton.mpr hext⟩
    · refine .bind ((ih _ (by lia)).mono ?_)
      rintro extList _ ⟨k, rfl, hjk, hall⟩ hk
      exact .pure hk ⟨k, rfl, by omega, List.forall_mem_cons.mpr ⟨infix_take hext hjk, hall⟩⟩

theorem meets_readExtHeaders_chain (room : Nat) (hi : i ≤ bytes.length) :
    Meets (gtpuReadExtHeaders room type) bytes (8 * i) fun extList pos' => ∃ j, pos' = 8 * j ∧
      (∀ ext ∈ extList, ext.container <:+: bytes.take j) ∧
      ∀ wired payload, ExtensionChain type (bytes.drop i) wired payload → extList = wired ∧ bytes.drop j = payload := by
  obtain ⟨res, hres, hpost⟩ := meets_readExtHeaders type room hi
  refine ⟨res, hres, fun extList r heq => ?_⟩
  obtain ⟨_, rfl, hj, j, rfl, -, hall⟩ := hpost extList r heq
  refine ⟨_, rfl, hj, j, rfl, hall, ?_⟩
  intro wired payload chain
  have hchain := Except.ok.inj (hres.symm.trans (readExtHeaders_chain chain rfl room))
  rw [heq] at hchain
  split_ifs at hchain
  have hpair := Prod.mk.inj (Option.some.inj hchain)
  have hend := congrArg BitReader.it hpair.2
  rw [BitDecoder.at'_byte, BitDecoder.at'_byte] at hend
  dsimp only at hend
  exact ⟨hpair.1, by rw [hend, ← List.suffix_iff_eq_drop.mp (chain.suffix.trans (List.drop_suffix i bytes))]⟩

def FixedPart (bytes : List UInt8) (hdr : GtpuHeader) (pos : Nat) : Prop :=
  hdr.extList = [] ∧ hdr.flags.extHdr = flagAt bytes 5 ∧ (∃ i, pos = 8 * i) ∧
    (flagAt bytes 5 = true → pos = 8 * gtpuExtendedHeaderLen ∧ hdr.nextExtHdrType = UInt8.ofNat (fieldAt bytes 88 8))

theorem meets_readFixedPart (hlen : gtpuBaseHeaderLen ≤ bytes.length) :
    Meets (gtpuReadFixedPart bytes.length) bytes 0 (FixedPart bytes) := by
  have h8 : 8 ≤ bytes.length := hlen
  refine .bind (BitDecoder.meets_unpack (by decide) (by omega) fun _ => ?_)
  refine .bind (BitDecoder.meets_unpack (by decide) (by omega) fun _ => ?_)
  refine .bind (BitDecoder.meets_unpack (by decide) (by omega) fun _ => ?_)
  refine .bind (BitDecoder.meets_unpack (by decide) (by omega) fun _ => ?_)
  refine .bind (BitDecoder.meets_unpack (by decide) (by omega) fun _ => ?_)
  refine .bind (BitDecoder.meets_unpack (by decide) (by omega) fun h₁ => ?_)
  refine .bind (.require h₁ fun _ _ => ?_)
  refine .bind (BitDecoder.meets_unpack (by decide) (by omega) fun _ => ?_)
  refine .bind (BitDecoder.meets_unpack (by decide) (by omega) fun _ => ?_)
  refine .bind (BitDecoder.meets_unpack (by decide) (by omega) fun h₂ => ?_)
  refine .bind (.require h₂ fun _ _ => ?_)
  dsimp only
  split
  · refine .bind (.require h₂ fun (h12 : 12 ≤ bytes.length) _ => ?_)
    refine .bind (BitDecoder.meets_unpack (by decide) (by omega) fun _ => ?_)
    refine .bind (BitDecoder.meets_unpack (by decide) (by omega) fun _ => ?_)
    refine .bind (BitDecoder.meets_unpack (by decide) (by omega) fun h₃ => ?_)
    exact .bind (.require h₃ fun _ _ => .pure h₃ ⟨rfl, rfl, ⟨12, rfl⟩, fun _ => ⟨rfl, rfl⟩⟩)
  · next hflags =>
    refine .pure h₂ ⟨rfl, rfl, ⟨8, rfl⟩, fun hext => absurd ?_ hflags⟩
    have hext' : (fieldAt bytes (0 + 3 + 1 + 1) 1 != 0) = true := hext
    rw [hext', Bool.true_or, Bool.true_or]

/-- The extension headers lie inside the header, and are those of the chain on the wire, when there is one. -/
def WellDissected (bytes : List UInt8) (hdr : GtpuHeader) (hdrLen : Nat) : Prop :=
  hdrLen ≤ bytes.length ∧ (∀ ext ∈ hdr.extList, ext.container <:+: bytes.take hdrLen) ∧
    (flagAt bytes 5 = false → hdr.extList = []) ∧
    (flagAt bytes 5 = true → ∀ extList payload,
      ExtensionChain (UInt8.ofNat (fieldAt bytes 88 8)) (bytes.drop gtpuExtendedHeaderLen) extList payload →
      hdr.extList = extList ∧ bytes.drop hdrLen = payload)

theorem meets_readHeader (hlen : gtpuBaseHeaderLen ≤ bytes.length) :
    Meets (gtpuReadHeader bytes.length) bytes 0 fun hdr pos' => ∃ j, pos' = 8 * j ∧ WellDissected bytes hdr j := by
  refine .bind ((meets_readFixedPart hlen).mono ?_)
  rintro hdr _ ⟨hnil, hext, ⟨i, rfl⟩, hfixed⟩ hi
  split
  · next hflag =>
    obtain ⟨hpos, htype⟩ := hfixed (hext ▸ hflag)
    obtain rfl : i = gtpuExtendedHeaderLen := by omega
    refine .bind (.require hi fun _ _ => .bind ((meets_readExtHeaders_chain _ (by omega)).mono ?_))
    rintro extList _ ⟨j, rfl, hinfix, hchain⟩ hj
    refine .pure hj ⟨j, rfl, by omega, hinfix, fun hno => ?_, fun _ wired payload chain => ?_⟩
    · rw [← hext, hflag] at hno
      cases hno
    · rw [← htype] at chain
      exact hchain wired payload chain
  · next hflag =>
    refine .pure hi ⟨i, rfl, by omega, ?_, fun _ => hnil, fun hyes => absurd (hext ▸ hyes) hflag⟩
    rw [hnil]
    exact List.forall_mem_nil _

theorem dissectPdu_total (rawPdu : List UInt8) : ∃ res, gtpuDissectPdu rawPdu = .ok res ∧
    ∀ d, res = some d → d.buf = rawPdu ∧ WellDissected rawPdu d.hdr d.hdrLen := by
  by_cases hlen : rawPdu.length < gtpuBaseHeaderLen
  · exact ⟨none, if_pos hlen, fun _ h => by cases h⟩
  · obtain ⟨res, hres, hpost⟩ := meets_readHeader (Nat.le_of_not_lt hlen)
    have hstart : (⟨rawPdu, 0, 0⟩ : BitReader) = at' rawPdu 0 := rfl
    rw [gtpuDissectPdu, if_neg hlen, hstart, hres]
    refine ⟨_, rfl, ?_⟩
    rintro d hd
    obtain ⟨⟨hdr, decoder⟩, rfl, rfl⟩ := Option.map_eq_some_iff.mp hd
    obtain ⟨_, rfl, _, j, rfl, hj⟩ := hpost hdr decoder rfl
    refine ⟨rfl, ?_⟩
    dsimp only
    rwa [BitDecoder.nofBytes_at']

end Bounds

/-- A header that is written and comes back: what `gtpu_write_header` supports, and extension types that are
comprehended. -/
structure Dissectable (hdr : GtpuHeader) : Prop where
  flags : gtpuSupportedFlagsCheck hdr.flags = true
  messageType : gtpuSupportedMsgTypeCheck hdr.messageType = true
  seqNumber : hdr.flags.seqNumber = true ∨ hdr.extList ≠ [] ∨ hdr.seqNumber = 0
  nofExtensions : hdr.extList.length ≤ gtpuMaxNumHeaderExtensions
  containers : ∀ ext ∈ hdr.extList, ∃ n, 1 ≤ n ∧ n ≤ 63 ∧ ext.container.length + 2 = 4 * n
  types : ∀ ext ∈ hdr.extList, ext.extensionHeaderType ≠ noMoreExtensionHeaders ∧
    gtpuExtensionHeaderComprehensionCheck ext.extensionHeaderType = true

def firstType (extList : List GtpuExtensionHeader) : GtpuExtensionHeaderType :=
  extList.head?.elim noMoreExtensionHeaders (·.extensionHeaderType)

def extensionOctets : List GtpuExtensionHeader → List UInt8
  | [] => []
  | ext :: extList => UInt8.ofNat ((ext.container.length + 2) / 4) :: (ext.container ++ firstType extList :: extensionOctets extList)

section Write

variable {extList : List GtpuExtensionHeader} {hdr : GtpuHeader} {payload : List UInt8}

@[simp] theorem length_extensionOctets (extList : List GtpuExtensionHeader) :
    (extensionOctets extList).length = (extList.map fun ext => ext.container.length + 2).sum := by
  induction extList with
  | nil => rfl
  | cons ext extList ih =>
    rw [extensionOctets, List.length_cons, List.length_append, List.length_cons, ih, List.map_cons, List.sum_cons]
    omega

theorem lengthOctet {len n : Nat} (hn : n ≤ 63) (h : len + 2 = 4 * n) :
    UInt8.ofNat (1 + len + 1) % 4 = 0 ∧ (UInt8.ofNat (1 + len + 1) / 4).toNat = n := by
  have hpayload : (1 + len + 1) % 2 ^ 8 = 4 * n := by lia
  rw [← UInt8.toNat_inj, UInt8.toNat_mod, UInt8.toNat_div, UInt8.toNat_ofNat', hpayload]
  exact ⟨Nat.mul_mod_right 4 n, Nat.mul_div_cancel_left n (show 0 < 4 by decide)⟩

theorem writeExtHeader_ok (bytes : List UInt8) {ext : GtpuExtensionHeader} {n : Nat} (hn : n ≤ 63)
    (h : ext.container.length + 2 = 4 * n) (next : GtpuExtensionHeaderType) :
    gtpuWriteExtHeader ⟨bytes, 0⟩ ext next =
      .ok ⟨bytes ++ UInt8.ofNat ((ext.container.length + 2) / 4) :: (ext.container ++ [next]), 0⟩ := by
  obtain ⟨hmod, hdiv⟩ := lengthOctet hn h
  have hlen : (ext.container.length + 2) / 4 = n := by lia
  rw [gtpuWriteExtHeader, if_neg (not_not.mpr hmod), hdiv, BitEncoder.pack_byte bytes (by omega), ok_bind,
    BitEncoder.packBytes_aligned, ok_bind,
    BitEncoder.pack_byte _ next.toNat_lt, UInt8.ofNat_toNat, hlen, List.append_assoc, List.append_assoc]
  rfl

theorem writeExtHeaders_ok (bytes : List UInt8)
    (h : ∀ ext ∈ extList, ∃ n, 1 ≤ n ∧ n ≤ 63 ∧ ext.container.length + 2 = 4 * n) :
    gtpuWriteExtHeaders ⟨bytes, 0⟩ extList = .ok ⟨bytes ++ extensionOctets extList, 0⟩ := by
  induction extList generalizing bytes with
  | nil =>
    rw [extensionOctets, List.append_nil]
    rfl
  | cons ext extList ih =>
    obtain ⟨n, -, hle, hlen⟩ := h ext List.mem_cons_self
    rw [gtpuWriteExtHeaders, writeExtHeader_ok bytes hle hlen, ok_bind, ih _ fun e he => h e (List.mem_cons_of_mem _ he),
      List.append_assoc, extensionOctets, List.cons_append, List.append_assoc]
    rfl

theorem chain_extensionOctets (payload : List UInt8) (hne : extList ≠ [])
    (h : ∀ ext ∈ extList, ∃ n, 1 ≤ n ∧ n ≤ 63 ∧ ext.container.length + 2 = 4 * n)
    (htypes : ∀ ext ∈ extList, ext.extensionHeaderType ≠ noMoreExtensionHeaders) :
    ExtensionChain (firstType extList) (extensionOctets extList ++ payload) extList payload := by
  induction extList with
  | nil => exact absurd rfl hne
  | cons ext extList ih =>
    obtain ⟨n, -, hle, hlen⟩ := h ext List.mem_cons_self
    have hlen' : ext.container.length + 2 = 4 * (UInt8.ofNat ((ext.container.length + 2) / 4)).toNat := by
      rw [UInt8.toNat_ofNat']
      lia
    rw [extensionOctets, List.cons_append, List.append_assoc, List.cons_append]
    cases extList with
    | nil => exact .last hlen'
    | cons next extList =>
      have htail := ih (by simp) (fun e he => h e (List.mem_cons_of_mem _ he))
        (fun e he => htypes e (List.mem_cons_of_mem _ he))
      exact .next hlen' (htypes next (by simp)) htail

theorem getLength_eq (hdr : GtpuHeader) (sdu : List UInt8) : gtpuGetLength hdr sdu =
    UInt16.ofNat (sdu.length + (if hasOptionalPart hdr then 4 else 0) +
      (hdr.extList.map fun ext => ext.container.length + 2).sum) := by
  have hfold : ∀ (extList : List GtpuExtensionHeader) (len : Nat),
      extList.foldl (fun len ext => len + 2 + UInt16.ofNat ext.container.length) (UInt16.ofNat len) =
        UInt16.ofNat (len + (extList.map fun ext => ext.container.length + 2).sum) := by
    intro extList
    induction extList with
    | nil => exact fun _ => rfl
    | cons ext extList ih =>
      intro len
      have hstep : UInt16.ofNat len + 2 + UInt16.ofNat ext.container.length =
          UInt16.ofNat (len + (ext.container.length + 2)) := by
        rw [UInt16.ofNat_add, UInt16.ofNat_add, UInt16.add_assoc, UInt16.add_comm 2]
        rfl
      rw [List.foldl_cons, hstep, ih, List.map_cons, List.sum_cons, Nat.add_assoc]
  rw [← hfold, gtpuGetLength]
  cases hasOptionalPart hdr
  · rfl
  · rw [if_pos rfl, if_pos rfl, UInt16.ofNat_add]
    rfl

theorem accepts_flag (b : Bool) : Accepts (BitDecoder.unpack (· != 0) 8 1) (toBits 1 b.toNat) b := by
  have h := BitDecoder.accepts_unpack (· != 0) (show 1 ≤ 8 by decide) (show b.toNat < 2 ^ 1 by cases b <;> decide)
  have hb : (b.toNat != 0) = b := by cases b <;> rfl
  rwa [hb] at h

theorem accepts_uint8 {n : Nat} (hn : n ≤ 8) {v : UInt8} (hv : v.toNat < 2 ^ n) :
    Accepts (BitDecoder.unpack UInt8.ofNat 8 n) (toBits n v.toNat) v := by
  have h := BitDecoder.accepts_unpack UInt8.ofNat hn hv
  rwa [UInt8.ofNat_toNat] at h

theorem accepts_uint16 (v : UInt16) : Accepts (BitDecoder.unpack UInt16.ofNat 16 16) (toBits 16 v.toNat) v := by
  have h := BitDecoder.accepts_unpack UInt16.ofNat (Nat.le_refl 16) v.toNat_lt
  rwa [UInt16.ofNat_toNat] at h

theorem accepts_uint32 (v : UInt32) : Accepts (BitDecoder.unpack UInt32.ofNat 32 32) (toBits 32 v.toNat) v := by
  have h := BitDecoder.accepts_unpack UInt32.ofNat (Nat.le_refl 32) v.toNat_lt
  rwa [UInt32.ofNat_toNat] at h

def mandatoryPart (hdr : GtpuHeader) (length : UInt16) : GtpuHeader where
  flags := ⟨hdr.flags.version, hdr.flags.protocolType, !hdr.extList.isEmpty, hdr.flags.seqNumber, hdr.flags.nPdu⟩
  messageType := hdr.messageType
  length := length
  teid := hdr.teid

def fixedHeader (hdr : GtpuHeader) (length : UInt16) : GtpuHeader :=
  if hasOptionalPart hdr then
    { mandatoryPart hdr length with
      seqNumber := hdr.seqNumber, nPdu := hdr.nPdu, nextExtHdrType := firstType hdr.extList }
  else mandatoryPart hdr length

theorem supportedFlags {flags : GtpuFlags} (h : gtpuSupportedFlagsCheck flags = true) :
    flags.version = 1 ∧ flags.protocolType = 1 ∧ flags.nPdu = false := by
  rw [gtpuSupportedFlagsCheck] at h
  split_ifs at h with hversion hprotocol hpdu
  exact ⟨not_not.mp hversion, not_not.mp hprotocol, Bool.eq_false_iff.mpr hpdu⟩

theorem accepts_optionalPart {length : UInt16} {pduLen : Nat}
    (hlen : hasOptionalPart hdr = true → gtpuExtendedHeaderLen ≤ pduLen)
    (hfirst : gtpuExtensionHeaderComprehensionCheck (firstType hdr.extList) = true) :
    Accepts (if hasOptionalPart hdr then gtpuReadOptionalPart pduLen (mandatoryPart hdr length)
      else pure (mandatoryPart hdr length))
      (fieldBits (if hasOptionalPart hdr then [(hdr.seqNumber.toNat, 16), (hdr.nPdu.toNat, 8),
        ((firstType hdr.extList).toNat, 8)] else [])) (fixedHeader hdr length) := by
  rw [fixedHeader]
  cases hopt : hasOptionalPart hdr with
  | false => exact .pure _
  | true =>
    rw [if_pos rfl, if_pos rfl, if_pos rfl]
    refine Accepts.of_eq ?_ <| .bind (.require (hlen hopt)) <| .bind (accepts_uint16 hdr.seqNumber) <|
      .bind (accepts_uint8 (by decide) hdr.nPdu.toNat_lt) <|
      .bind (accepts_uint8 (by decide) (firstType hdr.extList).toNat_lt) <| .bind (.require hfirst) <| .pure _
    simp only [fieldBits_cons, fieldBits_nil, List.nil_append]

theorem accepts_readFixedPart {length : UInt16} {pduLen : Nat} (hflags : gtpuSupportedFlagsCheck hdr.flags = true)
    (hlength : length = UInt16.ofNat (pduLen - gtpuBaseHeaderLen))
    (hlen : hasOptionalPart hdr = true → gtpuExtendedHeaderLen ≤ pduLen)
    (hfirst : gtpuExtensionHeaderComprehensionCheck (firstType hdr.extList) = true) :
    Accepts (gtpuReadFixedPart pduLen) (fieldBits (headerFields hdr length)) (fixedHeader hdr length) := by
  obtain ⟨hversion, hprotocol, hpdu⟩ := supportedFlags hflags
  have hversion' : hdr.flags.version.toNat < 2 ^ 3 := by
    rw [hversion]
    decide
  have hprotocol' : hdr.flags.protocolType.toNat < 2 ^ 1 := by
    rw [hprotocol]
    decide
  have hcheck : gtpuSupportedFlagsCheck ⟨hdr.flags.version, hdr.flags.protocolType, !hdr.extList.isEmpty,
      hdr.flags.seqNumber, hdr.flags.nPdu⟩ = true := by
    rw [hversion, hprotocol, hpdu]
    rfl
  refine Accepts.of_eq ?_ <| .bind (accepts_uint8 (by decide) hversion') <| .bind (accepts_uint8 (by decide) hprotocol') <|
    .bind (accepts_uint8 (v := 0) (by decide) (by decide)) <| .bind (accepts_flag (!hdr.extList.isEmpty)) <|
    .bind (accepts_flag hdr.flags.seqNumber) <| .bind (accepts_flag hdr.flags.nPdu) <| .bind (.require hcheck) <|
    .bind (accepts_uint8 (by decide) hdr.messageType.toNat_lt) <| .bind (accepts_uint16 length) <|
    .bind (accepts_uint32 hdr.teid) <| .bind (.require hlength) (accepts_optionalPart hlen hfirst)
  simp only [headerFields, fieldBits_append, fieldBits_cons, fieldBits_nil, List.append_assoc, List.nil_append]
  rfl

def headerLen (hdr : GtpuHeader) : Nat := if hasOptionalPart hdr then gtpuExtendedHeaderLen else gtpuBaseHeaderLen

theorem length_headerBits (hdr : GtpuHeader) (length : UInt16) :
    (fieldBits (headerFields hdr length)).length = 8 * headerLen hdr := by
  rw [length_fieldBits, headerFields, headerLen]
  cases hasOptionalPart hdr <;> rfl

theorem headerFields_width (hdr : GtpuHeader) (length : UInt16) : ∀ field ∈ headerFields hdr length, field.2 ≤ 64 := by
  rw [headerFields]
  cases hasOptionalPart hdr <;> simp

def wirePdu (hdr : GtpuHeader) (payload : List UInt8) : List UInt8 :=
  encode (fieldBits (headerFields hdr (gtpuGetLength hdr payload))) ++ (extensionOctets hdr.extList ++ payload)

theorem writeHeader_ok (h : Dissectable hdr) : gtpuWriteHeader payload hdr = .ok (some (wirePdu hdr payload)) := by
  obtain ⟨e, hpack, he⟩ := BitEncoder.packFields_ok (Holds.start []) (headerFields hdr (gtpuGetLength hdr payload))
    (headerFields_width hdr _)
  have hencoder : e = ⟨encode (fieldBits (headerFields hdr (gtpuGetLength hdr payload))), 0⟩ := by
    have hbytes := he.bytes
    have hoffset := he.offset
    obtain ⟨bytes, offset⟩ := e
    rw [List.length_append, length_headerBits, length_bitsOf, List.length_nil, Nat.mul_zero, Nat.zero_add,
      Nat.mul_mod_right] at hoffset
    dsimp only at hbytes hoffset
    rw [hbytes, hoffset]
    rfl
  rw [gtpuWriteHeader, h.flags, h.messageType, hpack, hencoder]
  show (gtpuWriteExtHeaders ⟨_, 0⟩ hdr.extList >>= _) = _
  rw [writeExtHeaders_ok _ h.containers, ok_bind, wirePdu, ← List.append_assoc]
  rfl

theorem length_headerOctets (hdr : GtpuHeader) (length : UInt16) :
    (encode (fieldBits (headerFields hdr length))).length = headerLen hdr := by
  rw [length_encode, length_headerBits]
  omega

theorem drop_wirePdu (hdr : GtpuHeader) (payload : List UInt8) :
    (wirePdu hdr payload).drop (headerLen hdr) = extensionOctets hdr.extList ++ payload :=
  List.drop_left' (length_headerOctets hdr _)

theorem length_wirePdu (hdr : GtpuHeader) (payload : List UInt8) : (wirePdu hdr payload).length =
    headerLen hdr + ((hdr.extList.map fun ext => ext.container.length + 2).sum + payload.length) := by
  rw [wirePdu, List.length_append, List.length_append, length_headerOctets, length_extensionOctets]

theorem getLength_wirePdu (hdr : GtpuHeader) (payload : List UInt8) :
    gtpuGetLength hdr payload = UInt16.ofNat ((wirePdu hdr payload).length - gtpuBaseHeaderLen) := by
  rw [getLength_eq, length_wirePdu, headerLen, gtpuBaseHeaderLen, gtpuExtendedHeaderLen]
  apply congrArg UInt16.ofNat
  split <;> omega

theorem rest_wirePdu (hdr : GtpuHeader) (payload : List UInt8) : rest (wirePdu hdr payload) 0 =
    fieldBits (headerFields hdr (gtpuGetLength hdr payload)) ++ bitsOf (extensionOctets hdr.extList ++ payload) := by
  have hpad : padTo (8 * ((8 * headerLen hdr + 7) / 8)) (fieldBits (headerFields hdr (gtpuGetLength hdr payload))) =
      fieldBits (headerFields hdr (gtpuGetLength hdr payload)) := by
    have hzero : 8 * ((8 * headerLen hdr + 7) / 8) - 8 * headerLen hdr = 0 := by omega
    rw [padTo, length_headerBits, hzero, List.replicate_zero, List.append_nil]
  rw [rest, List.drop_zero, wirePdu, bitsOf_append, bitsOf_encode, length_headerBits, hpad]

theorem comprehends_firstType (h : Dissectable hdr) :
    gtpuExtensionHeaderComprehensionCheck (firstType hdr.extList) = true := by
  have htypes := h.types
  cases hext : hdr.extList with
  | nil => rfl
  | cons ext extList => exact (htypes ext (hext ▸ List.mem_cons_self)).2

theorem firstType_ne (h : Dissectable hdr) (hne : hdr.extList ≠ []) :
    firstType hdr.extList ≠ noMoreExtensionHeaders := by
  have htypes := h.types
  cases hext : hdr.extList with
  | nil => exact absurd hext hne
  | cons ext extList => exact (htypes ext (hext ▸ List.mem_cons_self)).1

theorem fixedHeader_extHdr (hdr : GtpuHeader) (length : UInt16) :
    (fixedHeader hdr length).flags.extHdr = !hdr.extList.isEmpty := by
  rw [fixedHeader]
  split <;> rfl

theorem readFixedPart_wirePdu (h : Dissectable hdr) :
    gtpuReadFixedPart (wirePdu hdr payload).length (at' (wirePdu hdr payload) 0) =
      .ok (some (fixedHeader hdr (gtpuGetLength hdr payload), at' (wirePdu hdr payload) (8 * headerLen hdr))) := by
  have hlen : hasOptionalPart hdr = true → gtpuExtendedHeaderLen ≤ (wirePdu hdr payload).length := by
    intro hopt
    rw [length_wirePdu, headerLen, if_pos hopt]
    exact Nat.le_add_right _ _
  have hread := accepts_readFixedPart h.flags (getLength_wirePdu hdr payload) hlen (comprehends_firstType h)
    (wirePdu hdr payload) 0 _ (Nat.zero_le _) (rest_wirePdu hdr payload)
  rwa [length_headerBits, Nat.zero_add] at hread

theorem readHeader_wirePdu (h : Dissectable hdr) :
    gtpuReadHeader (wirePdu hdr payload).length (at' (wirePdu hdr payload) 0) =
      .ok (some ({ fixedHeader hdr (gtpuGetLength hdr payload) with extList := hdr.extList },
        at' (wirePdu hdr payload) (8 * ((wirePdu hdr payload).length - payload.length)))) := by
  rw [gtpuReadHeader, bind_ok (readFixedPart_wirePdu h), fixedHeader_extHdr]
  by_cases hext : hdr.extList = []
  · -- nothing follows the fixed part but the payload
    have hend : (wirePdu hdr payload).length - payload.length = headerLen hdr := by
      rw [length_wirePdu, hext, List.map_nil, List.sum_nil, Nat.zero_add, Nat.add_sub_cancel]
    have hfixed : { fixedHeader hdr (gtpuGetLength hdr payload) with extList := [] } =
        fixedHeader hdr (gtpuGetLength hdr payload) := by
      rw [fixedHeader]
      split <;> rfl
    rw [hend, hext, hfixed]
    rfl
  · have hopt : hasOptionalPart hdr = true := by
      rw [hasOptionalPart, List.isEmpty_eq_false_iff.mpr hext]
      rfl
    have hfixed : (fixedHeader hdr (gtpuGetLength hdr payload)).nextExtHdrType = firstType hdr.extList := by
      rw [fixedHeader, if_pos hopt]
    have hdrop := drop_wirePdu hdr payload
    have hchain := readExtHeaders_chain (chain_extensionOctets payload hext h.containers fun e he => (h.types e he).1) hdrop
      gtpuMaxNumHeaderExtensions
    have hne := firstType_ne h hext
    rw [if_pos ⟨h.nofExtensions, fun e he => (h.types e he).2⟩, ← hfixed] at hchain
    rw [← hfixed] at hne
    rw [List.isEmpty_eq_false_iff.mpr hext, Bool.not_false, if_pos rfl, require_ok hne, bind_ok hchain]
    rfl

theorem dissect_wirePdu (h : Dissectable hdr) : ∃ d, gtpuDissectPdu (wirePdu hdr payload) = .ok (some d) ∧
    d.hdr = { fixedHeader hdr (gtpuGetLength hdr payload) with extList := hdr.extList } ∧
    gtpuExtractMsg d = payload := by
  have hlen : ¬(wirePdu hdr payload).length < gtpuBaseHeaderLen := by
    rw [length_wirePdu, headerLen, gtpuExtendedHeaderLen, gtpuBaseHeaderLen]
    split <;> omega
  have hstart : (⟨wirePdu hdr payload, 0, 0⟩ : BitReader) = at' (wirePdu hdr payload) 0 := rfl
  rw [gtpuDissectPdu, if_neg hlen, hstart, readHeader_wirePdu h]
  refine ⟨_, rfl, rfl, ?_⟩
  show (wirePdu hdr payload).drop (BitDecoder.nofBytes _) = payload
  rw [BitDecoder.nofBytes_at']
  have hsuffix : payload <:+ wirePdu hdr payload := by
    rw [wirePdu, ← List.append_assoc]
    exact List.suffix_append _ payload
  exact (List.suffix_iff_eq_drop.mp hsuffix).symm

end Write

/-- Dissecting ends for every PDU and stays within it, what it finds is the chain on the wire, and a header that is
written comes back. -/
theorem gtpu_codec (rawPdu payload : List UInt8) (hdr : GtpuHeader) (h : Dissectable hdr) :
    (∃ res, gtpuDissectPdu rawPdu = .ok res ∧ ∀ d, res = some d → d.buf = rawPdu ∧ WellDissected rawPdu d.hdr d.hdrLen) ∧
    ∃ pdu d, gtpuWriteHeader payload hdr = .ok (some pdu) ∧ gtpuDissectPdu pdu = .ok (some d) ∧
      d.hdr.teid = hdr.teid ∧ d.hdr.messageType = hdr.messageType ∧ d.hdr.seqNumber = hdr.seqNumber ∧
      d.hdr.extList = hdr.extList ∧ gtpuExtractMsg d = payload := by
  refine ⟨dissectPdu_total rawPdu, ?_⟩
  obtain ⟨d, hdissect, hhdr, hpayload⟩ := dissect_wirePdu h
  refine ⟨_, d, writeHeader_ok h, hdissect, ?_⟩
  rw [hhdr]
  refine ⟨?_, ?_, ?_, rfl, hpayload⟩
  · show (fixedHeader hdr _).teid = hdr.teid
    rw [fixedHeader]
    split <;> rfl
  · show (fixedHeader hdr _).messageType = hdr.messageType
    rw [fixedHeader]
    split <;> rfl
  · show (fixedHeader hdr _).seqNumber = hdr.seqNumber
    rw [fixedHeader]
    split
    · rfl
    · next hopt =>
      -- the number is not written, and is read as zero
      rw [hasOptionalPart, Bool.not_eq_true, Bool.or_eq_false_iff, Bool.or_eq_false_iff, Bool.not_eq_false'] at hopt
      rcases h.seqNumber with hflag | hne | hzero
      · rw [hflag] at hopt
        cases hopt.1.2
      · exact absurd (List.isEmpty_iff.mp hopt.1.1) hne
      · exact hzero.symm

def sampleHeader : GtpuHeader where
  flags := { protocolType := 1, extHdr := true }
  messageType := gtpuMsgDataPdu
  length := 13
  teid := 0xdeadbeef
  nextExtHdrType := pduSessionContainer
  extList := [⟨pduSessionContainer, [1, 2]⟩, ⟨nrRanContainer, [3, 4]⟩]

theorem gtpu_codec_sample :
    (∃ res, gtpuDissectPdu [0x30, 0xff, 0, 0, 0, 0, 0, 1] = .ok res ∧ ∀ d, res = some d →
      d.buf = [0x30, 0xff, 0, 0, 0, 0, 0, 1] ∧ WellDissected [0x30, 0xff, 0, 0, 0, 0, 0, 1] d.hdr d.hdrLen) ∧
    ∃ pdu d, gtpuWriteHeader [7] sampleHeader = .ok (some pdu) ∧ gtpuDissectPdu pdu = .ok (some d) ∧
      d.hdr.teid = sampleHeader.teid ∧ d.hdr.messageType = sampleHeader.messageType ∧
      d.hdr.seqNumber = sampleHeader.seqNumber ∧ d.hdr.extList = sampleHeader.extList ∧ gtpuExtractMsg d = [7] :=
  gtpu_codec _ [7] sampleHeader ⟨by decide, by decide, by decide, by decide, by simp [sampleHeader], by decide⟩

def oneExtensionHeader (type : GtpuExtensionHeaderType) (container : List UInt8) : GtpuHeader where
  flags := { protocolType := 1, extHdr := true }
  messageType := gtpuMsgDataPdu
  length := UInt16.ofNat (container.length + 6)
  teid := 1
  nextExtHdrType := type
  extList := [⟨type, container⟩]

/-- A type whose comprehension is required is written and refused; besides, a header of 256 octets is written with
length zero, and a header that is cut off is accepted. -/
theorem extension_refused :
    (∃ pdu, gtpuWriteHeader [] (oneExtensionHeader 0b10000001 [1, 2]) = .ok (some pdu) ∧
      gtpuDissectPdu pdu = .ok none) ∧
    (gtpuWriteHeader [] (oneExtensionHeader nrRanContainer (List.replicate 254 1))).map
      (fun pdu => pdu.map fun pdu => pdu[12]?) = .ok (some (some 0)) ∧
    (gtpuDissectPdu [0x34, 0xff, 0, 4, 0, 0, 0, 1, 0, 0, 0, 0x84]).map (fun res => res.map fun d => d.hdr.extList) =
      .ok (some [⟨nrRanContainer, []⟩]) :=
  ⟨⟨[0x34, 0xff, 0, 8, 0, 0, 0, 1, 0, 0, 0, 0x81, 1, 1, 2, 0], by decide +kernel, by decide +kernel⟩,
    by decide +kernel, by decide +kernel⟩

end Ocudu.Gtpu
