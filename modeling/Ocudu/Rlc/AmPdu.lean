import Ocudu.Basic.Machine

/-! `rlc_config.h` and the AMD PDU header of `rlc_am_pdu.h`. -/

namespace Ocudu.Rlc

inductive RlcAmSnSize
  | size12bits
  | size18bits
  deriving DecidableEq

def RlcAmSnSize.toNumber : RlcAmSnSize → Nat
  | .size12bits => 12
  | .size18bits => 18

def cardinality (snSize : Nat) : Nat := 1 <<< snSize

def windowSize (snSize : Nat) : Nat := cardinality (snSize - 1)

inductive RlcSiField
  | fullSdu
  | firstSegment
  | lastSegment
  | middleSegment
  deriving DecidableEq

def RlcSiField.toNumber : RlcSiField → Nat
  | .fullSdu => 0b00
  | .firstSegment => 0b01
  | .lastSegment => 0b10
  | .middleSegment => 0b11

def RlcSiField.ofNumber : Nat → RlcSiField
  | 0b00 => .fullSdu
  | 0b01 => .firstSegment
  | 0b10 => .lastSegment
  | _ => .middleSegment

/-- What a run must never do: read past a buffer, fail an assertion of the code, or stay in
a loop beyond the bound that the model gives it. -/
inductive Fault
  | readPastEnd
  | absentSn
  | addSn
  | retxHeaderLen
  | ackSnOutsideWindow
  | soOrder
  | sduVariant
  | nextSo
  | loopBound
  deriving DecidableEq

def readByte : List UInt8 → Except Fault (Nat × List UInt8)
  | [] => .error .readPastEnd
  | b :: rest => .ok (b.toNat, rest)

@[simp] theorem readByte_cons (b : UInt8) (rest : List UInt8) :
    readByte (b :: rest) = .ok (b.toNat, rest) := rfl

namespace RlcAmSnSize

variable {sz : RlcAmSnSize}

def mod (sz : RlcAmSnSize) : Nat := cardinality sz.toNumber

def window (sz : RlcAmSnSize) : Nat := windowSize sz.toNumber

@[simp] theorem mod_size12bits : mod .size12bits = 4096 := rfl

@[simp] theorem mod_size18bits : mod .size18bits = 262144 := rfl

theorem mod_eq_two_mul_window : sz.mod = 2 * sz.window := by
  cases sz <;> rfl

theorem window_pos : 0 < sz.window := by
  cases sz <;> decide

theorem mod_pos : 0 < sz.mod := by
  cases sz <;> decide

theorem range_lt_window : 255 < sz.window := by
  cases sz <;> decide

theorem mod_le : sz.mod ≤ 262144 := by
  cases sz <;> decide

theorem mod_dvd : sz.mod ∣ 2 ^ 32 := by
  cases sz <;> decide

theorem window_dvd_mod : sz.window ∣ sz.mod := ⟨2, by rw [mod_eq_two_mul_window, Nat.mul_comm]⟩

end RlcAmSnSize

def rlcAmPduHeaderSoSize : Nat := 2

def rlcAmPduHeaderMinSize : RlcAmSnSize → Nat
  | .size12bits => 2
  | .size18bits => 3

def rlcAmPduHeaderMaxSize (snSize : RlcAmSnSize) : Nat :=
  rlcAmPduHeaderMinSize snSize + rlcAmPduHeaderSoSize

structure RlcAmPduHeader where
  p : Bool
  si : RlcSiField
  snSize : RlcAmSnSize
  sn : Nat
  so : Nat

def RlcAmPduHeader.getPackedSize (hdr : RlcAmPduHeader) : Nat :=
  match hdr.si with
  | .lastSegment | .middleSegment => rlcAmPduHeaderMaxSize hdr.snSize
  | .fullSdu | .firstSegment => rlcAmPduHeaderMinSize hdr.snSize

def firstOctet (hdr : RlcAmPduHeader) (snBits : Nat) : Nat :=
  (1 <<< 7) ||| (hdr.p.toNat <<< 6) ||| (hdr.si.toNumber <<< 4) ||| snBits

def rlcAmWriteDataPduHeader (hdr : RlcAmPduHeader) : List UInt8 :=
  let fixed :=
    match hdr.snSize with
    | .size12bits =>
      [UInt8.ofNat (firstOctet hdr ((hdr.sn >>> 8) &&& 0x0f)), UInt8.ofNat (hdr.sn &&& 0xff)]
    | .size18bits =>
      [UInt8.ofNat (firstOctet hdr ((hdr.sn >>> 16) &&& 0x3)), UInt8.ofNat (hdr.sn >>> 8),
        UInt8.ofNat (hdr.sn &&& 0xff)]
  -- the SO is written whenever it is non-zero, whatever SI says
  if hdr.so ≠ 0 then fixed ++ [UInt8.ofNat (hdr.so >>> 8), UInt8.ofNat (hdr.so &&& 0xff)]
  else fixed

/-- The SN field, or nothing if reserved bits are set. -/
def readSn (snSize : RlcAmSnSize) (octet : Nat) (pdu : List UInt8) :
    Except Fault (Option Nat × List UInt8) :=
  match snSize with
  | .size12bits => do
    if pdu.isEmpty then return (none, pdu)
    let (low, pdu) ← readByte pdu
    return (some (((octet &&& 0x0f) <<< 8) ||| (low &&& 0xff)), pdu)
  | .size18bits => do
    if octet &&& 0x0c ≠ 0 then return (none, pdu)
    if pdu.isEmpty then return (none, pdu)
    let (center, pdu) ← readByte pdu
    if pdu.isEmpty then return (none, pdu)
    let (low, pdu) ← readByte pdu
    return (some (((octet &&& 0x03) <<< 16) ||| ((center &&& 0xff) <<< 8) ||| (low &&& 0xff)), pdu)

/-- The header and the payload behind it, or nothing if the PDU is malformed. -/
def rlcAmReadDataPduHeader (snSize : RlcAmSnSize) (pdu : List UInt8) :
    Except Fault (Option (RlcAmPduHeader × List UInt8)) := do
  if pdu.length ≤ rlcAmPduHeaderMinSize snSize then return none
  let (octet, pdu) ← readByte pdu
  let p := ((octet >>> 6) &&& 0x01) == 1
  let si := RlcSiField.ofNumber ((octet >>> 4) &&& 0x03)
  match ← readSn snSize octet pdu with
  | (none, _) => return none
  | (some sn, pdu) =>
    if si = .lastSegment ∨ si = .middleSegment then
      if pdu.isEmpty then return none
      let (high, pdu) ← readByte pdu
      if pdu.isEmpty then return none
      let (low, pdu) ← readByte pdu
      return some ({ p, si, snSize, sn, so := ((high &&& 0xff) <<< 8) ||| (low &&& 0xff) }, pdu)
    else return some ({ p, si, snSize, sn, so := 0 }, pdu)

theorem and_ff (x : Nat) : x &&& 0xff = x % 256 := Nat.and_two_pow_sub_one_eq_mod x 8

theorem and_0f (x : Nat) : x &&& 0x0f = x % 16 := Nat.and_two_pow_sub_one_eq_mod x 4

theorem and_3 (x : Nat) : x &&& 0x3 = x % 4 := Nat.and_two_pow_sub_one_eq_mod x 2

theorem shiftLeft_or_of_lt {i b : Nat} (a : Nat) (hb : b < 2 ^ i) :
    (a <<< i) ||| b = a * 2 ^ i + b := by
  rw [← Nat.shiftLeft_add_eq_or_of_lt hb, Nat.shiftLeft_eq]

theorem toNat_ofNat_uint8 (n : Nat) : (UInt8.ofNat n).toNat = n % 256 := by
  simp

theorem firstOctet_fields : ∀ (p : Bool) (si : RlcSiField) (bits : Fin 16),
    let octet := (UInt8.ofNat ((1 <<< 7) ||| (p.toNat <<< 6) ||| (si.toNumber <<< 4) |||
      bits.val)).toNat
    (((octet >>> 6) &&& 0x01) == 1) = p ∧ RlcSiField.ofNumber ((octet >>> 4) &&& 0x03) = si ∧
      octet &&& 0x0f = bits.val ∧ octet &&& 0x03 = bits.val % 4 ∧
      (bits.val < 4 → octet &&& 0x0c = 0) ∧ octet >>> 7 = 1 := by
  intro p si bits
  cases p <;> cases si <;> revert bits <;> decide

theorem so_octets {so : Nat} (h : so < 2 ^ 16) :
    (((UInt8.ofNat (so >>> 8)).toNat &&& 0xff) <<< 8) |||
      ((UInt8.ofNat (so &&& 0xff)).toNat &&& 0xff) = so := by
  simp only [toNat_ofNat_uint8, and_ff, Nat.shiftRight_eq_div_pow]
  rw [shiftLeft_or_of_lt _ (by lia)]
  lia

def fixedHeader (hdr : RlcAmPduHeader) : List UInt8 :=
  rlcAmWriteDataPduHeader { hdr with so := 0 }

theorem write_eq_fixed (hdr : RlcAmPduHeader) :
    rlcAmWriteDataPduHeader hdr = fixedHeader hdr ++
      if hdr.so ≠ 0 then [UInt8.ofNat (hdr.so >>> 8), UInt8.ofNat (hdr.so &&& 0xff)] else [] := by
  obtain ⟨p, si, sz, sn, so⟩ := hdr
  by_cases h : so = 0
  · simp [rlcAmWriteDataPduHeader, fixedHeader, h]
  · cases sz <;> simp [rlcAmWriteDataPduHeader, fixedHeader, firstOctet, h]

theorem fixedHeader_length (hdr : RlcAmPduHeader) :
    (fixedHeader hdr).length = rlcAmPduHeaderMinSize hdr.snSize := by
  obtain ⟨p, si, sz, sn, so⟩ := hdr
  cases sz <;> simp [rlcAmWriteDataPduHeader, fixedHeader, rlcAmPduHeaderMinSize]

theorem header_length (hdr : RlcAmPduHeader) :
    (rlcAmWriteDataPduHeader hdr).length =
      if hdr.so ≠ 0 then rlcAmPduHeaderMaxSize hdr.snSize else rlcAmPduHeaderMinSize hdr.snSize := by
  rw [write_eq_fixed, List.length_append, fixedHeader_length]
  split <;> simp [rlcAmPduHeaderMaxSize, rlcAmPduHeaderSoSize]

theorem fixedHeader_read (hdr : RlcAmPduHeader) (hsn : hdr.sn < hdr.snSize.mod)
    (rest : List UInt8) :
    ∃ octet tail, fixedHeader hdr ++ rest = octet :: tail ∧
      (((octet.toNat >>> 6) &&& 0x01) == 1) = hdr.p ∧
      RlcSiField.ofNumber ((octet.toNat >>> 4) &&& 0x03) = hdr.si ∧
      octet.toNat >>> 7 = 1 ∧
      readSn hdr.snSize octet.toNat tail = .ok (some hdr.sn, rest) := by
  obtain ⟨p, si, sz, sn, so⟩ := hdr
  cases sz with
  | size12bits =>
    simp only [RlcAmSnSize.mod_size12bits] at hsn
    have htop : (sn >>> 8) &&& 0x0f = sn / 256 := by
      rw [and_0f, Nat.shiftRight_eq_div_pow]
      lia
    have hfix : fixedHeader ⟨p, si, .size12bits, sn, so⟩ =
        [UInt8.ofNat (firstOctet ⟨p, si, .size12bits, sn, 0⟩ (sn / 256)),
          UInt8.ofNat (sn % 256)] := by
      simp [fixedHeader, rlcAmWriteDataPduHeader, htop, and_ff]
    obtain ⟨h1, h2, h3, -, -, h6⟩ := firstOctet_fields p si ⟨sn / 256, by omega⟩
    rw [hfix]
    refine ⟨_, _, rfl, h1, h2, h6, ?_⟩
    simp only [firstOctet] at h3 ⊢
    generalize (UInt8.ofNat (1 <<< 7 ||| p.toNat <<< 6 ||| si.toNumber <<< 4 ||| sn / 256)).toNat
      = octet at h3 ⊢
    simp only [readSn, List.append_eq, List.cons_append, List.nil_append, List.isEmpty_cons,
      Bool.false_eq_true, if_false, readByte_cons, ok_bind, pure_eq_ok, h3, toNat_ofNat_uint8,
      and_ff]
    rw [shiftLeft_or_of_lt _ (by omega)]
    congr 3
    lia
  | size18bits =>
    simp only [RlcAmSnSize.mod_size18bits] at hsn
    have htop : (sn >>> 16) &&& 0x3 = sn / 65536 := by
      rw [and_3, Nat.shiftRight_eq_div_pow]
      lia
    have hfix : fixedHeader ⟨p, si, .size18bits, sn, so⟩ =
        [UInt8.ofNat (firstOctet ⟨p, si, .size18bits, sn, 0⟩ (sn / 65536)),
          UInt8.ofNat (sn / 256), UInt8.ofNat (sn % 256)] := by
      have hcenter : sn >>> 8 = sn / 256 := Nat.shiftRight_eq_div_pow sn 8
      simp [fixedHeader, rlcAmWriteDataPduHeader, htop, and_ff, hcenter]
    obtain ⟨h1, h2, -, h4, h5, h6⟩ := firstOctet_fields p si ⟨sn / 65536, by omega⟩
    have h5' := h5 (by show sn / 65536 < 4; omega)
    rw [hfix]
    refine ⟨_, _, rfl, h1, h2, h6, ?_⟩
    simp only [firstOctet] at h4 h5' ⊢
    generalize (UInt8.ofNat (1 <<< 7 ||| p.toNat <<< 6 ||| si.toNumber <<< 4 ||| sn / 65536)).toNat
      = octet at h4 h5' ⊢
    simp only [readSn, List.append_eq, List.cons_append, List.nil_append, List.isEmpty_cons,
      Bool.false_eq_true, if_false, readByte_cons, ok_bind, pure_eq_ok, h4, h5',
      toNat_ofNat_uint8, and_ff, ne_eq, not_true_eq_false]
    rw [Nat.or_assoc, shiftLeft_or_of_lt (i := 8) _ (by omega), shiftLeft_or_of_lt _ (by lia)]
    congr 3
    lia

theorem read_write_header {hdr : RlcAmPduHeader} {payload : List UInt8}
    (hsn : hdr.sn < hdr.snSize.mod) (hso : hdr.so < 2 ^ 16)
    (hsi : hdr.so ≠ 0 ↔ hdr.si = .lastSegment ∨ hdr.si = .middleSegment)
    (hpay : payload ≠ []) :
    rlcAmReadDataPduHeader hdr.snSize (rlcAmWriteDataPduHeader hdr ++ payload) =
      .ok (some (hdr, payload)) := by
  have hlen := header_length hdr
  have hpos : 0 < payload.length := List.length_pos_of_ne_nil hpay
  have hlong : ¬ (rlcAmWriteDataPduHeader hdr ++ payload).length ≤
      rlcAmPduHeaderMinSize hdr.snSize := by
    rw [List.length_append, hlen]
    simp only [rlcAmPduHeaderMaxSize]
    split <;> omega
  rw [rlcAmReadDataPduHeader, if_neg hlong, write_eq_fixed, List.append_assoc]
  obtain ⟨octet, tail, hcons, hp, hfield, -, hread⟩ := fixedHeader_read hdr hsn
    ((if hdr.so ≠ 0 then [UInt8.ofNat (hdr.so >>> 8), UInt8.ofNat (hdr.so &&& 0xff)] else []) ++
      payload)
  rw [hcons]
  simp only [readByte_cons, ok_bind, hread, hp, hfield]
  by_cases h : hdr.so = 0
  · have hno : ¬ (hdr.si = .lastSegment ∨ hdr.si = .middleSegment) := by
      rw [← hsi]
      simpa using h
    obtain ⟨p, si, sz, sn, so⟩ := hdr
    simp only at h hno
    subst h
    simp only [hno, if_false, ne_eq, not_true_eq_false, List.nil_append, pure_eq_ok]
  · have hseg := hsi.mp h
    have hoct := so_octets hso
    simp only [hseg, h, ne_eq, not_false_eq_true, if_true, List.cons_append, List.nil_append,
      List.isEmpty_cons, Bool.false_eq_true, if_false, readByte_cons, ok_bind, pure_eq_ok, hoct]

theorem readSn_total {pdu : List UInt8} (sz : RlcAmSnSize) (octet : Nat) :
    ∃ res rest, readSn sz octet pdu = .ok (res, rest) ∧ ∀ sn, res = some sn → sn < sz.mod := by
  cases sz with
  | size12bits =>
    cases pdu with
    | nil => exact ⟨none, [], rfl, by simp⟩
    | cons low rest =>
      refine ⟨_, rest, rfl, ?_⟩
      intro sn hsn
      cases hsn
      rw [and_0f, and_ff, shiftLeft_or_of_lt _ (by omega), RlcAmSnSize.mod_size12bits]
      lia
  | size18bits =>
    unfold readSn
    by_cases h : octet &&& 0x0c ≠ 0
    · exact ⟨none, pdu, by simp [h], by simp⟩
    · match pdu with
      | [] => exact ⟨none, [], by simp [h], by simp⟩
      | [center] => exact ⟨none, [], by simp [h], by simp⟩
      | center :: low :: rest =>
        simp only [h, if_false, List.isEmpty_cons, Bool.false_eq_true, readByte_cons, ok_bind,
          pure_eq_ok]
        refine ⟨_, rest, rfl, ?_⟩
        intro sn hsn
        cases hsn
        rw [and_3, and_ff, and_ff, Nat.or_assoc, shiftLeft_or_of_lt (i := 8) _ (by omega),
          shiftLeft_or_of_lt _ (by lia), RlcAmSnSize.mod_size18bits]
        lia

theorem read_header_total (sz : RlcAmSnSize) (pdu : List UInt8) :
    ∃ res, rlcAmReadDataPduHeader sz pdu = .ok res ∧
      ∀ hdr payload, res = some (hdr, payload) → hdr.sn < sz.mod := by
  unfold rlcAmReadDataPduHeader
  by_cases hlen : pdu.length ≤ rlcAmPduHeaderMinSize sz
  · exact ⟨none, by simp [hlen], by simp⟩
  · cases pdu with
    | nil => simp at hlen
    | cons b pdu =>
      simp only [hlen, if_false, readByte_cons, ok_bind]
      obtain ⟨res, rest, hsn, hlt⟩ := readSn_total sz b.toNat
      rw [hsn, ok_bind]
      cases res with
      | none => exact ⟨none, rfl, by simp⟩
      | some sn =>
        have hlt := hlt sn rfl
        dsimp only
        split
        · match rest with
          | [] => exact ⟨none, rfl, by simp⟩
          | [high] => exact ⟨none, rfl, by simp⟩
          | high :: low :: payload =>
            refine ⟨_, rfl, ?_⟩
            intro hdr payload' he
            cases he
            exact hlt
        · refine ⟨_, rfl, ?_⟩
          intro hdr payload he
          cases he
          exact hlt

end Ocudu.Rlc
