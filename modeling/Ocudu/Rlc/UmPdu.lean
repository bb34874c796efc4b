import Ocudu.Rlc.AmPdu

/-! The UMD PDU header of `rlc_um_pdu.h`. -/

namespace Ocudu.Rlc

inductive RlcUmSnSize
  | size6bits
  | size12bits
  deriving DecidableEq

def RlcUmSnSize.toNumber : RlcUmSnSize → Nat
  | .size6bits => 6
  | .size12bits => 12

namespace RlcUmSnSize

variable {sz : RlcUmSnSize}

def mod (sz : RlcUmSnSize) : Nat := cardinality sz.toNumber

def window (sz : RlcUmSnSize) : Nat := windowSize sz.toNumber

@[simp] theorem mod_size6bits : mod .size6bits = 64 := rfl

@[simp] theorem mod_size12bits : mod .size12bits = 4096 := rfl

theorem mod_eq_two_mul_window : sz.mod = 2 * sz.window := by
  cases sz <;> rfl

theorem window_pos : 0 < sz.window := by
  cases sz <;> decide

theorem one_lt_window : 1 < sz.window := by
  cases sz <;> decide

theorem mod_pos : 0 < sz.mod := by
  cases sz <;> decide

theorem mod_dvd : sz.mod ∣ 2 ^ 32 := by
  cases sz <;> decide

theorem window_eq_two_pow : sz.window = 2 ^ (sz.toNumber - 1) := by
  cases sz <;> rfl

theorem window_dvd_mod : sz.window ∣ sz.mod := ⟨2, by rw [mod_eq_two_mul_window, Nat.mul_comm]⟩

end RlcUmSnSize

def rlcUmPduHeaderSizeCompleteSdu : Nat := 1

def rlcUmPduHeaderSizeNoSo : RlcUmSnSize → Nat
  | .size6bits => 1
  | .size12bits => 2

def rlcUmPduHeaderSizeWithSo : RlcUmSnSize → Nat
  | .size6bits => 3
  | .size12bits => 4

structure RlcUmPduHeader where
  si : RlcSiField
  snSize : RlcUmSnSize
  sn : Nat
  so : Nat
  deriving DecidableEq

def umReadSo (si : RlcSiField) (pdu : List UInt8) : Option (Nat × List UInt8) :=
  if si = .lastSegment ∨ si = .middleSegment then
    match pdu with
    | high :: low :: rest => some (((high.toNat &&& 0xff) <<< 8) ||| (low.toNat &&& 0xff), rest)
    | _ => none
  else some (0, pdu)

/-- The header, and what the reader has not stepped over. -/
def rlcUmReadDataPduHeader (snSize : RlcUmSnSize) : List UInt8 → Option (RlcUmPduHeader × List UInt8)
  | [] => none
  | octet :: pdu =>
    let si := RlcSiField.ofNumber ((octet.toNat >>> 6) &&& 0x03)
    match snSize with
    | .size6bits =>
      let sn := octet.toNat &&& 0x3f
      if si = .fullSdu ∧ sn ≠ 0 then none
      else (umReadSo si pdu).map fun (so, rest) => ({ si, snSize, sn, so }, rest)
    | .size12bits =>
      let sn := (octet.toNat &&& 0x0f) <<< 8
      if si = .fullSdu ∧ sn ≠ 0 then none
      -- only a first segment is checked for its two reserved bits
      else if si = .firstSegment ∧ (octet.toNat >>> 4) &&& 0x03 ≠ 0 then none
      else if si = .fullSdu then some ({ si, snSize, sn, so := 0 }, pdu)
      else
        match pdu with
        | [] => none
        | low :: pdu =>
          (umReadSo si pdu).map fun (so, rest) =>
            ({ si, snSize, sn := sn ||| (low.toNat &&& 0xff), so }, rest)

/-- The SO counts if it is not zero, whatever SI says. -/
def rlcUmNrPackedLength (header : RlcUmPduHeader) : Nat :=
  if header.si = .fullSdu then 1
  else rlcUmPduHeaderSizeNoSo header.snSize + if header.so ≠ 0 then 2 else 0

def rlcUmWriteDataPduHeader (header : RlcUmPduHeader) : List UInt8 :=
  let octet := (header.si.toNumber &&& 0x03) <<< 6
  if header.si = .fullSdu then [UInt8.ofNat octet]
  else
    (match header.snSize with
      | .size6bits => [UInt8.ofNat (octet ||| (header.sn &&& 0x3f))]
      | .size12bits => [UInt8.ofNat (octet ||| ((header.sn >>> 8) &&& 0xf)), UInt8.ofNat (header.sn &&& 0xff)]) ++
    if header.so ≠ 0 then [UInt8.ofNat (header.so >>> 8), UInt8.ofNat (header.so &&& 0xff)] else []

/-- The header and the payload of a PDU that is not discarded at once: there is at least one
byte behind the header. -/
def umParsePdu (snSize : RlcUmSnSize) (buf : List UInt8) : Option (RlcUmPduHeader × List UInt8) :=
  match rlcUmReadDataPduHeader snSize buf with
  | none => none
  | some (header, _) =>
    if buf.length ≤ rlcUmNrPackedLength header then none
    else some (header, buf.drop (rlcUmNrPackedLength header))

theorem and_3f (x : Nat) : x &&& 0x3f = x % 64 := Nat.and_two_pow_sub_one_eq_mod x 6

theorem umReadSn_lt {sz : RlcUmSnSize} {buf rest : List UInt8} {header : RlcUmPduHeader}
    (h : rlcUmReadDataPduHeader sz buf = some (header, rest)) :
    header.snSize = sz ∧ header.sn < sz.mod := by
  cases buf with
  | nil => cases h
  | cons octet pdu =>
    cases sz with
    | size6bits =>
      simp only [rlcUmReadDataPduHeader] at h
      split_ifs at h
      obtain ⟨so, -, heq⟩ := Option.map_eq_some_iff.mp h
      cases heq
      refine ⟨rfl, ?_⟩
      simp only [and_3f, RlcUmSnSize.mod_size6bits]
      omega
    | size12bits =>
      simp only [rlcUmReadDataPduHeader] at h
      split_ifs at h with h1 h2 h3
      · cases h
        simp only [h3, true_and, ne_eq, not_not] at h1
        refine ⟨rfl, ?_⟩
        simp only [h1, RlcUmSnSize.mod_size12bits]
        omega
      · cases pdu with
        | nil => cases h
        | cons low pdu =>
          obtain ⟨so, -, heq⟩ := Option.map_eq_some_iff.mp h
          cases heq
          refine ⟨rfl, ?_⟩
          simp only
          rw [and_0f, and_ff, shiftLeft_or_of_lt _ (by omega), RlcUmSnSize.mod_size12bits]
          lia

theorem umOctet_fields : ∀ (si : RlcSiField) (bits : Fin 64),
    let octet := (UInt8.ofNat (((si.toNumber &&& 0x03) <<< 6) ||| bits.val)).toNat
    RlcSiField.ofNumber ((octet >>> 6) &&& 0x03) = si ∧ octet &&& 0x3f = bits.val ∧
      octet &&& 0x0f = bits.val % 16 ∧ (bits.val < 16 → (octet >>> 4) &&& 0x03 = 0) := by
  intro si bits
  cases si <;> revert bits <;> decide

theorem umReadSo_write {header : RlcUmPduHeader} (hso : header.so < 2 ^ 16)
    (hsi : header.so ≠ 0 ↔ header.si = .lastSegment ∨ header.si = .middleSegment)
    (payload : List UInt8) :
    umReadSo header.si ((if header.so ≠ 0 then
      [UInt8.ofNat (header.so >>> 8), UInt8.ofNat (header.so &&& 0xff)] else []) ++ payload) =
        some (header.so, payload) := by
  by_cases h : header.so = 0
  · have hno : ¬(header.si = .lastSegment ∨ header.si = .middleSegment) := by
      rw [← hsi]
      simpa using h
    simp only [umReadSo, hno, if_false, h, ne_eq, not_true_eq_false, List.nil_append]
  · have hoct := so_octets hso
    simp only [umReadSo, hsi.mp h, h, ne_eq, not_false_eq_true, if_true, List.cons_append,
      List.nil_append, hoct]

theorem rlcUmWriteDataPduHeader_length (header : RlcUmPduHeader) :
    (rlcUmWriteDataPduHeader header).length = rlcUmNrPackedLength header := by
  obtain ⟨si, sz, sn, so⟩ := header
  by_cases hfull : si = .fullSdu
  · simp only [rlcUmWriteDataPduHeader, rlcUmNrPackedLength, if_pos hfull]
    rfl
  · cases sz <;>
      simp only [rlcUmWriteDataPduHeader, rlcUmNrPackedLength, if_neg hfull, rlcUmPduHeaderSizeNoSo] <;>
      split_ifs <;> rfl

theorem umParsePdu_write {header : RlcUmPduHeader} {payload : List UInt8}
    (hsn : header.sn < header.snSize.mod) (hso : header.so < 2 ^ 16)
    (hfull : header.si ≠ .fullSdu)
    (hsi : header.so ≠ 0 ↔ header.si = .lastSegment ∨ header.si = .middleSegment)
    (hpay : payload ≠ []) :
    umParsePdu header.snSize (rlcUmWriteDataPduHeader header ++ payload) = some (header, payload) := by
  have hread : rlcUmReadDataPduHeader header.snSize (rlcUmWriteDataPduHeader header ++ payload) =
      some (header, payload) := by
    have hrso := umReadSo_write hso hsi payload
    obtain ⟨si, sz, sn, so⟩ := header
    simp only at hsn hso hfull hsi hrso
    cases sz with
    | size6bits =>
      simp only [RlcUmSnSize.mod_size6bits] at hsn
      obtain ⟨h1, h2, -, -⟩ := umOctet_fields si ⟨sn, hsn⟩
      have hsn' : sn &&& 0x3f = sn := by
        rw [and_3f]
        omega
      simp only [rlcUmWriteDataPduHeader, hsn', List.cons_append, List.nil_append,
        rlcUmReadDataPduHeader, h1, h2, hfull, false_and, if_false, hrso, Option.map_some]
    | size12bits =>
      simp only [RlcUmSnSize.mod_size12bits] at hsn
      have htop : (sn >>> 8) &&& 0xf = sn / 256 := by
        rw [and_0f, Nat.shiftRight_eq_div_pow]
        lia
      obtain ⟨h1, -, h3, h4⟩ := umOctet_fields si ⟨sn / 256, by omega⟩
      have h4' := h4 (by simp only; omega)
      have hsn' : (sn / 256 % 16) <<< 8 ||| sn % 256 % 256 % 256 = sn := by
        rw [shiftLeft_or_of_lt _ (by omega)]
        lia
      simp only [rlcUmWriteDataPduHeader, if_neg hfull, htop, List.cons_append, List.nil_append]
      generalize UInt8.ofNat ((si.toNumber &&& 0x03) <<< 6 ||| sn / 256) = octet at h1 h3 h4' ⊢
      simp only [rlcUmReadDataPduHeader, h1, h3, h4', hfull, false_and, if_false, ne_eq,
        not_true_eq_false, and_false, toNat_ofNat_uint8, and_ff, hsn']
      simp only [ne_eq, and_ff] at hrso
      rw [hrso]
      rfl
  have hlen := rlcUmWriteDataPduHeader_length header
  have hpos : 0 < payload.length := List.length_pos_of_ne_nil hpay
  simp only [umParsePdu, hread]
  rw [if_neg (by rw [List.length_append, hlen]; omega), ← hlen, List.drop_left]

theorem umParsePdu_write_full (sz : RlcUmSnSize) (sn so : Nat) {payload : List UInt8}
    (hpay : payload ≠ []) :
    umParsePdu sz (rlcUmWriteDataPduHeader ⟨.fullSdu, sz, sn, so⟩ ++ payload) =
      some (⟨.fullSdu, sz, 0, 0⟩, payload) := by
  have hpos : 0 < payload.length := List.length_pos_of_ne_nil hpay
  have hwrite : rlcUmWriteDataPduHeader ⟨.fullSdu, sz, sn, so⟩ = [0] := by
    simp [rlcUmWriteDataPduHeader, RlcSiField.toNumber]
  have hread : rlcUmReadDataPduHeader sz (0 :: payload) = some (⟨.fullSdu, sz, 0, 0⟩, payload) := by
    cases sz <;> rfl
  rw [hwrite, List.cons_append, List.nil_append, umParsePdu, hread]
  simp only [rlcUmNrPackedLength, if_true, List.length_cons]
  rw [if_neg (by omega)]
  rfl

end Ocudu.Rlc
