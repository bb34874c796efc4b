import Ocudu.Rlc.TxInv
import Ocudu.Rlc.UmSender

/-! Where the header of a data PDU ends: for the reader, for the writer and for the functions that
compute its length. -/

namespace Ocudu.Rlc

/-- The header of a last or a middle segment that starts at the first byte of its SDU. -/
abbrev SegmentAtZero (si : RlcSiField) (so : Nat) : Prop :=
  (si = .lastSegment ∨ si = .middleSegment) ∧ so = 0

/-- The fields of a header fit, and only a segment behind the first one has an SO. -/
structure HeaderFits (mod : Nat) (si : RlcSiField) (sn so : Nat) : Prop where
  sn_lt : sn < mod
  so_lt : so < 2 ^ 16
  segment : so ≠ 0 → si = .lastSegment ∨ si = .middleSegment

/-- The bytes that a reader steps over, by the SI alone. -/
def RlcUmPduHeader.readSize (header : RlcUmPduHeader) : Nat :=
  if header.si = .fullSdu then rlcUmPduHeaderSizeCompleteSdu
  else if header.si = .firstSegment then rlcUmPduHeaderSizeNoSo header.snSize
  else rlcUmPduHeaderSizeWithSo header.snSize

structure UmRead (sz : RlcUmSnSize) (buf : List UInt8) (header : RlcUmPduHeader) (rest : List UInt8) :
    Prop where
  size : header.snSize = sz
  behind : buf.drop header.readSize = rest
  fits : header.readSize ≤ buf.length
  so : header.so ≠ 0 → header.si = .lastSegment ∨ header.si = .middleSegment

theorem umReadSo_some {si : RlcSiField} {pdu : List UInt8} {so : Nat} {rest : List UInt8}
    (h : umReadSo si pdu = some (so, rest)) :
    (si = .lastSegment ∨ si = .middleSegment) ∧ pdu.drop 2 = rest ∧ 2 ≤ pdu.length ∨
      ¬(si = .lastSegment ∨ si = .middleSegment) ∧ pdu = rest ∧ so = 0 := by
  unfold umReadSo at h
  split_ifs at h with hsi
  · rcases pdu with _ | ⟨high, _ | ⟨low, tail⟩⟩
    · cases h
    · cases h
    · cases h
      exact .inl ⟨hsi, rfl, by simp⟩
  · cases h
    exact .inr ⟨hsi, rfl, rfl⟩

theorem readSize_eq {si : RlcSiField} (sz : RlcUmSnSize) (sn so : Nat) (hfull : si ≠ .fullSdu) :
    (RlcUmPduHeader.mk si sz sn so).readSize =
      rlcUmPduHeaderSizeNoSo sz + if si = .lastSegment ∨ si = .middleSegment then 2 else 0 := by
  cases si with
  | fullSdu => exact absurd rfl hfull
  | firstSegment => cases sz <;> rfl
  | lastSegment => cases sz <;> rfl
  | middleSegment => cases sz <;> rfl

theorem UmRead.ofSegment {sz : RlcUmSnSize} {buf pdu rest : List UInt8} {si : RlcSiField} {so : Nat}
    (sn : Nat) (hfull : si ≠ .fullSdu) (hpdu : buf.drop (rlcUmPduHeaderSizeNoSo sz) = pdu)
    (hlen : rlcUmPduHeaderSizeNoSo sz ≤ buf.length) (h : umReadSo si pdu = some (so, rest)) :
    UmRead sz buf ⟨si, sz, sn, so⟩ rest := by
  have hsize := readSize_eq sz sn so hfull
  have hpdulen : pdu.length = buf.length - rlcUmPduHeaderSizeNoSo sz := by rw [← hpdu, List.length_drop]
  rcases umReadSo_some h with ⟨hsi, hrest, hlong⟩ | ⟨hsi, hrest, hso⟩
  · rw [if_pos hsi] at hsize
    refine ⟨rfl, ?_, by omega, fun _ => hsi⟩
    rw [hsize, ← List.drop_drop, hpdu, hrest]
  · rw [if_neg hsi, Nat.add_zero] at hsize
    exact ⟨rfl, by rw [hsize, hpdu, hrest], by omega, fun hne => absurd hso hne⟩

theorem umRead_of_some {sz : RlcUmSnSize} {buf rest : List UInt8} {header : RlcUmPduHeader}
    (h : rlcUmReadDataPduHeader sz buf = some (header, rest)) : UmRead sz buf header rest := by
  cases buf with
  | nil => cases h
  | cons octet pdu =>
    cases sz with
    | size6bits =>
      simp only [rlcUmReadDataPduHeader] at h
      split_ifs at h with hzero
      obtain ⟨⟨so, tail⟩, hso, heq⟩ := Option.map_eq_some_iff.mp h
      cases heq
      by_cases hfull : RlcSiField.ofNumber ((octet.toNat >>> 6) &&& 0x03) = .fullSdu
      · rw [hfull] at hso ⊢
        cases hso
        exact ⟨rfl, rfl, by simp [RlcUmPduHeader.readSize, rlcUmPduHeaderSizeCompleteSdu],
          fun hne => absurd rfl hne⟩
      · exact .ofSegment _ hfull rfl (by simp [rlcUmPduHeaderSizeNoSo]) hso
    | size12bits =>
      simp only [rlcUmReadDataPduHeader] at h
      split_ifs at h with hzero hreserved hfull
      · cases h
        rw [hfull]
        exact ⟨rfl, rfl, by simp [RlcUmPduHeader.readSize, rlcUmPduHeaderSizeCompleteSdu],
          fun hne => absurd rfl hne⟩
      · cases pdu with
        | nil => cases h
        | cons low pdu =>
          obtain ⟨⟨so, tail⟩, hso, heq⟩ := Option.map_eq_some_iff.mp h
          cases heq
          exact .ofSegment _ hfull rfl (by simp [rlcUmPduHeaderSizeNoSo]) hso

theorem packedLength_eq_readSize_iff {header : RlcUmPduHeader}
    (hso : header.so ≠ 0 → header.si = .lastSegment ∨ header.si = .middleSegment) :
    rlcUmNrPackedLength header = header.readSize ↔ ¬SegmentAtZero header.si header.so := by
  obtain ⟨si, sz, sn, so⟩ := header
  by_cases hfull : si = .fullSdu
  · simp [rlcUmNrPackedLength, RlcUmPduHeader.readSize, rlcUmPduHeaderSizeCompleteSdu, hfull]
  · rw [readSize_eq sz sn so hfull, rlcUmNrPackedLength, if_neg hfull]
    by_cases hz : so = 0
    · by_cases hsi : si = .lastSegment ∨ si = .middleSegment <;> simp [hz, hsi]
    · have hsi := hso hz
      simp only at hsi
      simp [hz, hsi]

theorem packedLength_le_readSize {header : RlcUmPduHeader}
    (hso : header.so ≠ 0 → header.si = .lastSegment ∨ header.si = .middleSegment) :
    rlcUmNrPackedLength header ≤ header.readSize := by
  obtain ⟨si, sz, sn, so⟩ := header
  by_cases hfull : si = .fullSdu
  · simp [rlcUmNrPackedLength, RlcUmPduHeader.readSize, rlcUmPduHeaderSizeCompleteSdu, hfull]
  · rw [readSize_eq sz sn so hfull, rlcUmNrPackedLength, if_neg hfull]
    by_cases hz : so = 0
    · simp [hz]
    · have hsi := hso hz
      simp only at hsi
      simp [hz, hsi]

def RlcUmPduHeader.carried (header : RlcUmPduHeader) : RlcUmPduHeader :=
  if header.si = .fullSdu then { header with sn := 0, so := 0 } else header

def RlcUmPduHeader.RoundTrips (header : RlcUmPduHeader) : Prop :=
  ∀ payload, payload ≠ [] → rlcUmReadDataPduHeader header.snSize (rlcUmWriteDataPduHeader header ++ payload) =
    some (header.carried, payload)

abbrev RlcUmPduHeader.Fits (header : RlcUmPduHeader) : Prop :=
  HeaderFits header.snSize.mod header.si header.sn header.so

theorem umReadDataPdu_of_parse {sz : RlcUmSnSize} {header carried : RlcUmPduHeader}
    {payload : List UInt8}
    (hparse : umParsePdu sz (rlcUmWriteDataPduHeader header ++ payload) = some (carried, payload))
    (hlen : (rlcUmWriteDataPduHeader header).length = carried.readSize) :
    rlcUmReadDataPduHeader sz (rlcUmWriteDataPduHeader header ++ payload) = some (carried, payload) := by
  unfold umParsePdu at hparse
  cases hread : rlcUmReadDataPduHeader sz (rlcUmWriteDataPduHeader header ++ payload) with
  | none =>
    rw [hread] at hparse
    cases hparse
  | some res =>
    obtain ⟨h, rest⟩ := res
    rw [hread] at hparse
    simp only at hparse
    split_ifs at hparse
    obtain ⟨rfl, -⟩ := Prod.mk.inj (Option.some.inj hparse)
    have hbehind := (umRead_of_some hread).behind
    rw [← hlen, List.drop_left] at hbehind
    rw [hbehind]

theorem RlcUmPduHeader.Fits.roundTrips_iff {header : RlcUmPduHeader} (h : header.Fits) :
    header.RoundTrips ↔ ¬SegmentAtZero header.si header.so := by
  have hlen := rlcUmWriteDataPduHeader_length header
  constructor
  · intro hround hzero
    -- two bytes of the payload would be read as the SO
    have hread := (umRead_of_some (hround [0] (by simp))).fits
    have hbehind := (umRead_of_some (hround [0] (by simp))).behind
    have hfull : header.si ≠ .fullSdu := by
      rcases hzero.1 with hsi | hsi <;> rw [hsi] <;> decide
    have hne := mt (packedLength_eq_readSize_iff h.segment).mp (not_not_intro hzero)
    rw [carried, if_neg hfull] at hread hbehind
    have hcount := congrArg List.length hbehind
    rw [List.length_drop, List.length_append, hlen, List.length_singleton] at hcount
    rw [List.length_append, hlen, List.length_singleton] at hread
    omega
  · intro hzero payload hpay
    have hsize := (packedLength_eq_readSize_iff h.segment).mpr hzero
    by_cases hfull : header.si = .fullSdu
    · obtain ⟨si, sz, sn, so⟩ := header
      simp only at hfull
      subst hfull
      exact umReadDataPdu_of_parse (umParsePdu_write_full sz sn so hpay) (hlen.trans hsize)
    · have hso : header.so ≠ 0 ↔ header.si = .lastSegment ∨ header.si = .middleSegment :=
        ⟨h.segment, fun hsi hz => hzero ⟨hsi, hz⟩⟩
      rw [carried, if_neg hfull]
      exact umReadDataPdu_of_parse (umParsePdu_write h.sn_lt h.so_lt hfull hso hpay) (hlen.trans hsize)

theorem readSn_behind {sz : RlcAmSnSize} {octet : Nat} {pdu rest : List UInt8} {sn : Nat}
    (h : readSn sz octet pdu = .ok (some sn, rest)) :
    pdu.drop (rlcAmPduHeaderMinSize sz - 1) = rest ∧ rlcAmPduHeaderMinSize sz - 1 ≤ pdu.length := by
  cases sz with
  | size12bits =>
    cases pdu with
    | nil => cases h
    | cons low pdu =>
      cases h
      exact ⟨rfl, by simp [rlcAmPduHeaderMinSize]⟩
  | size18bits =>
    unfold readSn at h
    by_cases hres : octet &&& 0x0c ≠ 0
    · rw [if_pos hres] at h
      cases h
    · simp only [hres, if_false] at h
      rcases pdu with _ | ⟨center, _ | ⟨low, pdu⟩⟩
      · cases h
      · cases h
      · cases h
        exact ⟨rfl, by simp [rlcAmPduHeaderMinSize]⟩

theorem getPackedSize_eq (header : RlcAmPduHeader) :
    header.getPackedSize = rlcAmPduHeaderMinSize header.snSize +
      if header.si = .lastSegment ∨ header.si = .middleSegment then 2 else 0 := by
  obtain ⟨p, si, sz, sn, so⟩ := header
  cases si <;> rfl

theorem amRead_behind {sz : RlcAmSnSize} {buf rest : List UInt8} {header : RlcAmPduHeader}
    (h : rlcAmReadDataPduHeader sz buf = .ok (some (header, rest))) :
    buf.drop header.getPackedSize = rest ∧ header.getPackedSize ≤ buf.length := by
  have hmin : 1 ≤ rlcAmPduHeaderMinSize sz := by cases sz <;> decide
  unfold rlcAmReadDataPduHeader at h
  by_cases hshort : buf.length ≤ rlcAmPduHeaderMinSize sz
  · rw [if_pos hshort] at h
    cases h
  · rw [if_neg hshort] at h
    cases buf with
    | nil => exact absurd (Nat.zero_le _) hshort
    | cons octet pdu =>
      simp only [readByte_cons, ok_bind] at h
      obtain ⟨⟨sn, tail⟩, hsn, h⟩ := bind_eq_ok.mp h
      cases sn with
      | none => cases h
      | some sn =>
        obtain ⟨hdrop, hlen⟩ := readSn_behind hsn
        have htail : (octet :: pdu).drop (rlcAmPduHeaderMinSize sz) = tail := by
          rw [← hdrop, ← Nat.sub_add_cancel hmin, List.drop_succ_cons, Nat.add_sub_cancel]
        rw [List.length_cons] at hshort ⊢
        simp only at h
        by_cases hsi : RlcSiField.ofNumber ((octet.toNat >>> 4) &&& 0x03) = .lastSegment ∨
            RlcSiField.ofNumber ((octet.toNat >>> 4) &&& 0x03) = .middleSegment
        · rw [if_pos hsi] at h
          have htaillen := congrArg List.length htail
          rw [List.length_drop, List.length_cons] at htaillen
          rcases tail with _ | ⟨high, _ | ⟨low, tail⟩⟩
          · cases h
          · cases h
          · cases h
            rw [getPackedSize_eq, if_pos hsi]
            refine ⟨?_, ?_⟩
            · rw [← List.drop_drop, htail]
              rfl
            · simp only [List.length_cons] at htaillen ⊢
              omega
        · rw [if_neg hsi] at h
          cases h
          rw [getPackedSize_eq, if_neg hsi]
          exact ⟨htail, by dsimp only; omega⟩

def RlcAmPduHeader.RoundTrips (header : RlcAmPduHeader) : Prop :=
  ∀ payload, payload ≠ [] → rlcAmReadDataPduHeader header.snSize
    (rlcAmWriteDataPduHeader header ++ payload) = .ok (some (header, payload))

abbrev RlcAmPduHeader.Fits (header : RlcAmPduHeader) : Prop :=
  HeaderFits header.snSize.mod header.si header.sn header.so

theorem RlcAmPduHeader.Fits.length_iff {header : RlcAmPduHeader} (h : header.Fits) :
    (rlcAmWriteDataPduHeader header).length = header.getPackedSize ↔
      ¬SegmentAtZero header.si header.so := by
  rw [header_length, getPackedSize_eq, rlcAmPduHeaderMaxSize, rlcAmPduHeaderSoSize]
  by_cases hz : header.so = 0
  · by_cases hsi : header.si = .lastSegment ∨ header.si = .middleSegment <;> simp [hz, hsi]
  · simp [hz, h.segment hz]

theorem RlcAmPduHeader.Fits.roundTrips_iff {header : RlcAmPduHeader} (h : header.Fits) :
    header.RoundTrips ↔ ¬SegmentAtZero header.si header.so := by
  constructor
  · intro hround
    rw [← h.length_iff]
    obtain ⟨hbehind, hfits⟩ := amRead_behind (hround [0] (by simp))
    have hcount := congrArg List.length hbehind
    rw [List.length_drop, List.length_append, List.length_singleton] at hcount
    rw [List.length_append, List.length_singleton] at hfits
    omega
  · intro hzero payload hpay
    exact read_write_header h.sn_lt h.so_lt ⟨h.segment, fun hsi hz => hzero ⟨hsi, hz⟩⟩ hpay

end Ocudu.Rlc
