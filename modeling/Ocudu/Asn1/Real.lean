import Ocudu.Asn1.PerLength

/-! `pack_unconstrained_real` and `unpack_unconstrained_real`: a 32-bit float as an ASN.1 REAL. -/

namespace Ocudu.Asn1

open BitCodec BitReader BitWriter BitParser

/-! The bit pattern of a float -/

namespace FloatBits

def sign (n : UInt32) : Nat := n.toNat / 2 ^ 31

def exponent (n : UInt32) : Nat := n.toNat / 2 ^ 23 % 2 ^ 8

def fraction (n : UInt32) : Nat := n.toNat % 2 ^ 23

/-- The number that a pattern denotes, unless it is an infinity or not a number. -/
def value (n : UInt32) : Option ℚ :=
  if exponent n = 255 then none
  else if exponent n = 0 then some ((-1) ^ sign n * (fraction n * 2 ^ (-149 : ℤ)))
  else some ((-1) ^ sign n * ((2 ^ 23 + fraction n : ℕ) * 2 ^ ((exponent n : ℤ) - 150)))

abbrev IsZero (n : UInt32) : Prop := exponent n = 0 ∧ fraction n = 0

abbrev IsNormal (n : UInt32) : Prop := 1 ≤ exponent n ∧ exponent n ≤ 254

abbrev IsInf (n : UInt32) : Prop := exponent n = 255 ∧ fraction n = 0

abbrev IsNan (n : UInt32) : Prop := exponent n = 255 ∧ fraction n ≠ 0

end FloatBits

open FloatBits

def zeroLsbCount : Nat → Nat → Nat
  | 0, _ => 0
  | width + 1, value => if value % 2 = 1 then 0 else zeroLsbCount width (value / 2) + 1

def zeroMsbCount (value : Nat) : Nat := if value = 0 then 32 else 31 - Nat.log2 value

def mantissaOctets : Nat → Nat → List UInt8
  | 0, _ => []
  | i + 1, mantissa => UInt8.ofNat (mantissa / 2 ^ (8 * i)) :: mantissaOctets i mantissa

/-- The exponent that goes out with a mantissa, in the arithmetic of `int8_t`. -/
def packedExponent (n : UInt32) (trailingZeros : Nat) : Int :=
  IntType.int8.wrap (IntType.int8.wrap (exponent n) - (127 + (23 - trailingZeros : Nat)))

def realOctets (n : UInt32) : List UInt8 :=
  if IsInf n then [if sign n = 0 then 0x40 else 0x41]
  else if IsNan n then [0x42]
  else if IsZero n then []
  else
    let mantissa := fraction n + 2 ^ 23
    let trailingZeros := zeroLsbCount 32 mantissa
    (if sign n = 0 then 0x80 else 0xC0) :: UInt8.ofNat (packedExponent n trailingZeros % 2 ^ 8).toNat ::
      mantissaOctets ((24 - trailingZeros + 7) / 8) (mantissa / 2 ^ trailingZeros)

def packUnconstrainedReal (w : BitRef) (n : UInt32) (aligned : Bool) : Except BitFault (Option BitRef) :=
  let w := if aligned then BitRef.alignBytesZero w else w
  handleCode (packLength w (realOctets n).length aligned) fun w =>
    ((realOctets n).foldlM (fun w b => BitRef.pack w b.toNat 8) w).map some

def buildFloat (sign : Nat) (asn1Exponent : Int) (mantissa : Nat) : UInt32 :=
  let leadingZeros := zeroMsbCount mantissa - 8
  let ieeeMantissa := mantissa * 2 ^ leadingZeros % 2 ^ 32 % 2 ^ 23
  let ieeeExponent := ((asn1Exponent + 127) % 2 ^ 32).toNat
  -- A mantissa that is a power of two leaves the exponent as it is.
  let ieeeExponent := if ieeeMantissa = 0 then ieeeExponent else (ieeeExponent + (23 - leadingZeros)) % 2 ^ 32
  UInt32.ofNat (sign * 2 ^ 31 ||| ieeeExponent * 2 ^ 23 % 2 ^ 32 ||| ieeeMantissa)

def mantissaOf (octets : List UInt8) : Nat := octets.foldl (fun mantissa b => mantissa * 2 ^ 8 + b.toNat) 0

def ofRealOctets (buf : List UInt8) : Option UInt32 :=
  let infoOctet := (buf.getD 0 0).toNat
  if infoOctet = 0x40 then some 0x7f800000
  else if infoOctet = 0x41 then some 0xff800000
  else if infoOctet = 0x42 then some 0x7fc00000
  else
    let exponentLength := infoOctet % 4 + 1
    if exponentLength ≠ 1 then none
    else if 3 < IntType.uint8.wrap ((buf.length : Int) - exponentLength - 1) then none
    else some (buildFloat (infoOctet / 2 ^ 6 % 2) (IntType.int8.wrap (buf.getD 1 0).toNat) (mantissaOf (buf.drop 2)))

def unpackUnconstrainedReal (r : CbitRef) (aligned : Bool) : Except BitFault (Option (UInt32 × CbitRef)) :=
  handleCode (if aligned then CbitRef.alignValue r else .ok (some r)) fun r =>
    handleCode (unpackLength r aligned) fun len =>
      if len.1 = 0 then .ok (some (0, len.2))
      else if len.1 = 2 ∨ 10 < len.1 then .ok none
      else handleCode (times len.1 readByte len.2) fun buf =>
        .ok ((ofRealOctets buf.1).map fun n => (n, buf.2))

def realField (aligned : Bool) (pos : Nat) (octets : List UInt8) : List Bool :=
  UnboundedOctstring.field aligned pos octets

section Codec

variable {w : BitRef} {bits : List Bool} (aligned : Bool)

theorem lengthField_aligned {pos : Nat} (h : pos % 8 = 0) (n : Nat) : lengthField true pos n = lengthOctets n := by
  rw [lengthField, if_pos rfl, alignment, h]
  rfl

@[simp] theorem length_mantissaOctets (i mantissa : Nat) : (mantissaOctets i mantissa).length = i := by
  induction i with
  | zero => rfl
  | succ i ih => rw [mantissaOctets, List.length_cons, ih]

theorem length_realOctets (n : UInt32) : (realOctets n).length ≤ 5 := by
  unfold realOctets
  split
  · exact (by decide : 1 ≤ 5)
  split
  · exact (by decide : 1 ≤ 5)
  split
  · exact (by decide : 0 ≤ 5)
  · rw [List.length_cons, List.length_cons, length_mantissaOctets]
    omega

theorem packUnconstrainedReal_field (n : UInt32) (hw : w.Holds bits) : ∃ w',
    packUnconstrainedReal w n aligned = .ok (some w') ∧
      w'.Holds (bits ++ realField aligned bits.length (realOctets n)) := by
  have hlen := length_realOctets n
  have hshort : (realOctets n).length < 16384 := by omega
  cases aligned with
  | false =>
    obtain ⟨w', hpack, hw'⟩ := @UnboundedOctstring.pack_field _ _ false _ hshort hw
    rw [UnboundedOctstring.pack, Nat.mod_eq_of_lt (by omega)] at hpack
    exact ⟨w', hpack, hw'⟩
  | true =>
    have halign := BitRef.alignBytesZero_field hw
    obtain ⟨w', hpack, hw'⟩ := @UnboundedOctstring.pack_field _ _ true _ hshort halign
    rw [UnboundedOctstring.pack, Nat.mod_eq_of_lt (by omega)] at hpack
    refine ⟨w', hpack, ?_⟩
    have hbound : (bits ++ alignment bits.length).length % 8 = 0 := by
      rw [List.length_append, length_alignment]
      lia
    rw [UnboundedOctstring.field, lengthField_aligned hbound, List.append_assoc] at hw'
    rw [realField, UnboundedOctstring.field, lengthField, if_pos rfl, List.append_assoc]
    exact hw'

end Codec

end Ocudu.Asn1
