import Ocudu.Asn1.PerInteger

/-! The integers that the constrained encoding brings back, and the bounds for which it does so with all of them. -/

namespace Ocudu.Asn1

open BitCodec BitReader BitWriter

section Fields

variable {bytes : List UInt8} {pos : Nat} {w : BitRef} {bits : List Bool}

theorem CbitRef.unpackValue_at (hpos : pos ≤ 8 * bytes.length) {tBits n : Nat} (hn : n ≤ tBits) :
    unpackValue (at' bytes pos) tBits n = .ok (if pos + n ≤ 8 * bytes.length then
      some (ofBits ((rest bytes pos).take n), at' bytes (pos + n)) else none) := by
  rw [unpackValue, unpack_at hpos hn]
  split_ifs <;> rfl

theorem CbitRef.unpackValue_field {pre tail : List Bool} {n v tBits : Nat}
    (h : bitsOf bytes = pre ++ (toBits n v ++ tail)) (hn : n ≤ tBits) :
    unpackValue (at' bytes pre.length) tBits n = .ok (some (v % 2 ^ n, at' bytes (pre.length + n))) := by
  have hlen := congrArg List.length h
  rw [length_bitsOf, List.length_append, List.length_append, length_toBits] at hlen
  have hrest : (rest bytes pre.length).take n = toBits n v := by
    rw [rest, h, List.drop_left, List.take_left' (length_toBits n v)]
  rw [unpackValue_at (by omega) hn, if_pos (by omega), hrest, ofBits_toBits]

theorem CbitRef.alignValue_at (hpos : pos ≤ 8 * bytes.length) :
    alignValue (at' bytes pos) = .ok (some (at' bytes (pos + (8 - pos % 8) % 8))) := by
  have henough : ReadOp.alignBytes.Enough bytes pos := by
    show pos + (8 - pos % 8) % 8 ≤ 8 * bytes.length
    omega
  have halign : alignBytes (at' bytes pos) = (true, at' bytes (pos + (8 - pos % 8) % 8)) :=
    (ReadOp.correct_of_enough henough).mp (correct_alignBytes hpos)
  rw [alignValue, halign]
  rfl

def alignment (pos : Nat) : List Bool := List.replicate ((8 - pos % 8) % 8) false

@[simp] theorem length_alignment (pos : Nat) : (alignment pos).length = (8 - pos % 8) % 8 :=
  List.length_replicate

theorem BitRef.alignBytesZero_field (h : Holds w bits) :
    Holds (alignBytesZero w) (bits ++ alignment bits.length) := by
  have hpad : padTo (8 * ((bits.length + 7) / 8)) bits = bits ++ alignment bits.length := by
    rw [padTo, alignment]
    congr 2
    lia
  exact hpad ▸ alignBytesZero_holds h

end Fields

section Values

variable {t : IntType}

theorem toBits_toUint64_wrap (t : IntType) {v : Int} (hv : 0 ≤ v) {k : Nat} (hk : k ≤ t.nofBits) :
    toBits k (toUint64 (t.wrap v)) = toBits k v.toNat := by
  have hmod : (toUint64 (t.wrap v)) % 2 ^ k = v.toNat % 2 ^ k := by
    have hdvd : (2 ^ k : Int) ∣ 2 ^ 64 := pow_dvd_pow 2 (hk.trans (by cases t <;> decide))
    apply Int.natCast_inj.mp
    rw [toUint64, Int.natCast_mod, Int.natCast_mod, Int.toNat_of_nonneg (Int.emod_nonneg _ (by decide)),
      Int.toNat_of_nonneg hv, Nat.cast_pow, Nat.cast_ofNat, Int.emod_emod_of_dvd _ hdvd, t.wrap_emod_pow v hk]
  rw [← toBits_mod (Nat.le_refl k), hmod, toBits_mod (Nat.le_refl k)]

variable {lb ub : Int}

theorem addLowerBound_eq (val : Nat × CbitRef) :
    addLowerBound t lb ub val =
      .ok (if ub < t.wrap (lb + val.1) then none else some (t.wrap (lb + val.1), val.2)) := by
  rw [addLowerBound, IntType.wrap_wrap_add, Int.add_comm]

theorem addLowerBound_ok (hlb : t.Has lb) (hub : t.Has ub) {v : Nat} (hv : lb + v ≤ ub) (r : CbitRef) :
    addLowerBound t lb ub (v, r) = .ok (some (lb + v, r)) := by
  have hhas : t.Has (lb + v) := ⟨by have := hlb.1; omega, by have := hub.2; omega⟩
  rw [addLowerBound_eq, IntType.wrap_of_has hhas, if_neg (by simpa using hv)]

/-- `int32_t` bounds so far apart that their difference wraps around. -/
def RangeOverflows (t : IntType) (lb ub : Int) : Prop := t = .int32 ∧ 2 ^ 31 ≤ ub - lb

instance (t : IntType) (lb ub : Int) : Decidable (RangeOverflows t lb ub) := inferInstanceAs (Decidable (_ ∧ _))

theorem rangeOf_eq (hlb : t.Has lb) (hub : t.Has ub) (h : lb ≤ ub) (hover : ¬ RangeOverflows t lb ub) :
    rangeOf t lb ub = ((ub - lb).toNat + 1) % 2 ^ 64 := by
  have hmod : t.promote.wrap (ub - lb) % 2 ^ 64 = (ub - lb) % 2 ^ 64 := by
    by_cases h64 : t.nofBits = 64
    · have hpromote : t.promote = t := by
        cases t <;> first | rfl | exact absurd h64 (by decide)
      rw [hpromote, t.wrap_emod_pow _ h64.ge]
    · rw [IntType.wrap_of_has]
      obtain ⟨hlow, -⟩ := hlb
      obtain ⟨-, hhigh⟩ := hub
      cases t <;> simp [IntType.Has, IntType.promote, IntType.min, IntType.max, IntType.isSigned, IntType.nofBits,
        RangeOverflows] at * <;> omega
  rw [rangeOf, hmod]
  lia

theorem rangeOf_overflow (hlb : t.Has lb) (hub : t.Has ub) (hover : RangeOverflows t lb ub) :
    (ub - lb).toNat + 1 = 2 ^ 32 ∧ rangeOf t lb ub = 0 ∨
      (ub - lb).toNat + 1 < 2 ^ 32 ∧ 2 ^ 64 - 2 ^ 31 < rangeOf t lb ub ∧ rangeOf t lb ub < 2 ^ 64 := by
  obtain ⟨rfl, hge⟩ := hover
  have hwrap : IntType.int32.wrap (ub - lb) = ub - lb - 2 ^ 32 := by
    apply IntType.wrap_eq_sub
    · show 2 ^ 31 - 1 < ub - lb
      omega
    · have h1 : ub ≤ 2 ^ 31 - 1 := hub.2
      have h2 : - 2 ^ 31 ≤ lb := hlb.1
      show ub - lb ≤ 2 ^ 31 - 1 + 2 ^ 32
      omega
  have h1 : ub ≤ 2 ^ 31 - 1 := hub.2
  have h2 : - 2 ^ 31 ≤ lb := hlb.1
  have hrange : rangeOf .int32 lb ub = ((IntType.int32.wrap (ub - lb) % 2 ^ 64).toNat + 1) % 2 ^ 64 := rfl
  rw [hrange, hwrap]
  lia

end Values

def ReadBack (unpack : CbitRef → Except BitFault (Option (Int × CbitRef))) (n : Int) (bits : List Bool)
    (w : BitRef) : Prop :=
  ∃ field, w.Holds (bits ++ field) ∧ ∀ bytes tail, bitsOf bytes = bits ++ (field ++ tail) →
    unpack (at' bytes bits.length) = .ok (some (n, at' bytes (bits.length + field.length)))

theorem ReadBack.of_bytes {unpack : CbitRef → Except BitFault (Option (Int × CbitRef))} {n : Int} {bits : List Bool}
    {w : BitRef} (h : ReadBack unpack n bits w) : ∃ r, unpack (at' w.bytes bits.length) = .ok (some (n, r)) := by
  obtain ⟨field, hw, hread⟩ := h
  obtain ⟨zeros, hzeros⟩ := hw.bitsOf_bytes
  rw [List.append_assoc] at hzeros
  exact ⟨_, hread w.bytes zeros hzeros⟩

section Encodings

variable (logs : LogWidths) (t : IntType) (lb ub : Int) (aligned : Bool) (n : Int)

def RoundTripsFrom (w : BitRef) (bits : List Bool) : Prop :=
  ∃ w', packConstrainedWholeNumber logs t w n lb ub aligned = .ok (some w') ∧
    ReadBack (fun r => unpackConstrainedWholeNumber logs t r lb ub aligned) n bits w'

/-- The integer is brought back from wherever it is packed. -/
def RoundTripsAt : Prop :=
  ∀ w bits, w.Holds bits → RoundTripsFrom logs t lb ub aligned n w bits

def CodedAs (w : BitRef) (bits field : List Bool) (val len : Nat) : Prop :=
  ∃ w', packConstrainedWholeNumber logs t w n lb ub aligned = .ok (some w') ∧ w'.Holds (bits ++ field) ∧
    ∀ bytes tail, bitsOf bytes = bits ++ (field ++ tail) → unpackConstrainedWholeNumber logs t (at' bytes bits.length) lb ub aligned =
      addLowerBound t lb ub (val, at' bytes (bits.length + len))

variable {logs t lb ub aligned n} {w : BitRef} {bits field : List Bool}

theorem CodedAs.roundTrips (hlb : t.Has lb) (hub : t.Has ub) (hlow : lb ≤ n) (hhigh : n ≤ ub)
    (h : CodedAs logs t lb ub aligned n w bits field (n - lb).toNat field.length) :
    RoundTripsFrom logs t lb ub aligned n w bits := by
  obtain ⟨w', hpack, hw', hread⟩ := h
  have hsum : lb + (n - lb).toNat = n := by omega
  refine ⟨w', hpack, field, hw', fun bytes tail hbytes => ?_⟩
  refine (hread bytes tail hbytes).trans ?_
  rw [addLowerBound_ok hlb hub (by omega), hsum]

theorem CodedAs.not_roundTrips {val len : Nat} (h : CodedAs logs t lb ub aligned n w bits field val len)
    (hne : t.wrap (lb + val) ≠ n) : ¬ RoundTripsFrom logs t lb ub aligned n w bits := by
  intro hround
  obtain ⟨w', hpack, hw', hread⟩ := h
  obtain ⟨w₂, hpack₂, hback⟩ := hround
  obtain rfl : w' = w₂ := by
    rw [hpack] at hpack₂
    injection hpack₂ with hpack₂
    injection hpack₂
  -- both readings are of the bytes that the writer has
  obtain ⟨zeros, hzeros⟩ := hw'.bitsOf_bytes
  rw [List.append_assoc] at hzeros
  obtain ⟨r, hr⟩ := hback.of_bytes
  rw [hread w'.bytes zeros hzeros, addLowerBound_eq] at hr
  injection hr with hr
  split_ifs at hr
  injection hr with hr
  exact hne (congrArg Prod.fst hr)

theorem not_roundTrips_of_fault {e : BitFault} (h : packConstrainedWholeNumber logs t w n lb ub aligned = .error e) :
    ¬ RoundTripsFrom logs t lb ub aligned n w bits := by
  rintro ⟨w', hpack, -⟩
  rw [h] at hpack
  cases hpack

theorem packConstrainedWholeNumber_eq (hlow : lb ≤ n) (hhigh : n ≤ ub) (hone : rangeOf t lb ub ≠ 1) {width : Nat}
    (hwidth : fieldBits logs (rangeOf t lb ub) = .ok width) :
    packConstrainedWholeNumber logs t w n lb ub aligned =
      if !aligned || rangeOf t lb ub < 256 then (BitRef.pack w (toUint64 (t.wrap (n - lb))) width).map some
      else if rangeOf t lb ub ≤ 65536 then do
        let w ← BitRef.pack (BitRef.alignBytesZero w) 0 (ceilFrac width 8 * 8 - width)
        let w ← BitRef.pack w (toUint64 (t.wrap (n - lb))) width
        return some (BitRef.alignBytesZero w)
      else do
        let w ← BitRef.pack w (ceilFrac (valueBits logs (t.wrap (n - lb))) 8 - 1) (lengthBits logs width)
        let w ← BitRef.pack (BitRef.alignBytesZero w) (toUint64 (t.wrap (n - lb)))
          (ceilFrac (valueBits logs (t.wrap (n - lb))) 8 * 8)
        return some w := by
  rw [packConstrainedWholeNumber, if_neg (by omega), if_neg hone, hwidth]
  simp only [ok_bind]
  split_ifs
  · cases BitRef.pack w (toUint64 (t.wrap (n - lb))) width <;> rfl
  · rfl
  · rfl

theorem unpackConstrainedWholeNumber_eq {r : CbitRef} (hle : lb ≤ ub) (hone : rangeOf t lb ub ≠ 1) {width : Nat}
    (hwidth : fieldBits logs (rangeOf t lb ub) = .ok width) :
    unpackConstrainedWholeNumber logs t r lb ub aligned =
      if !aligned || rangeOf t lb ub < 256 then
        handleCode (CbitRef.unpackValue r t.nofBits width) (addLowerBound t lb ub)
      else if rangeOf t lb ub ≤ 65536 then
        handleCode (CbitRef.alignValue r) fun r =>
          handleCode (CbitRef.unpackValue r t.nofBits (ceilFrac width 8 * 8)) fun val =>
            handleCode (CbitRef.alignValue val.2) fun r => addLowerBound t lb ub (val.1, r)
      else
        handleCode (CbitRef.unpackValue r 32 (lengthBits logs width)) fun len =>
          handleCode (CbitRef.alignValue len.2) fun r =>
            handleCode (CbitRef.unpackValue r t.nofBits ((len.1 + 1) * 8)) (addLowerBound t lb ub) := by
  rw [unpackConstrainedWholeNumber, if_neg (by omega), if_neg hone, hwidth]
  rfl

theorem codedAs_bits (hlow : lb ≤ n) (hhigh : n ≤ ub) (hone : rangeOf t lb ub ≠ 1) {width : Nat}
    (hwidth : fieldBits logs (rangeOf t lb ub) = .ok width) (hbits : aligned = false ∨ rangeOf t lb ub < 256)
    (h64 : width < 64) (hle : width ≤ t.nofBits) (hw : w.Holds bits) :
    CodedAs logs t lb ub aligned n w bits (toBits width (n - lb).toNat) ((n - lb).toNat % 2 ^ width) width := by
  have hcond : (!aligned || decide (rangeOf t lb ub < 256)) = true := by simpa using hbits
  obtain ⟨w', hpack, hw'⟩ := BitRef.pack_ok hw (toUint64 (t.wrap (n - lb))) h64
  rw [toBits_toUint64_wrap t (by omega) hle] at hw'
  refine ⟨w', ?_, hw', fun bytes tail hbytes => ?_⟩
  · rw [packConstrainedWholeNumber_eq hlow hhigh hone hwidth, if_pos hcond, hpack]
    rfl
  · rw [unpackConstrainedWholeNumber_eq (hlow.trans hhigh) hone hwidth, if_pos hcond,
      CbitRef.unpackValue_field hbytes hle]
    rfl

theorem length_add_alignment (bits : List Bool) : (bits ++ alignment bits.length).length % 8 = 0 := by
  rw [List.length_append, length_alignment]
  lia

theorem alignment_of_aligned {pos : Nat} (h : pos % 8 = 0) : alignment pos = [] := by
  rw [alignment, h]
  rfl

theorem ceilFrac_eq {width : Nat} (h : width < 2 ^ 31) : ceilFrac width 8 = (width + 7) / 8 := by
  rw [ceilFrac]
  lia

theorem codedAs_octets (hlow : lb ≤ n) (hhigh : n ≤ ub) (hone : rangeOf t lb ub ≠ 1) {width octets : Nat}
    (hwidth : fieldBits logs (rangeOf t lb ub) = .ok width) (haligned : aligned = true) (hge : 256 ≤ rangeOf t lb ub)
    (hrange : rangeOf t lb ub ≤ 65536) (hoctets : ceilFrac width 8 = octets) (hfits : width ≤ octets * 8)
    (h64 : octets * 8 < 64) (hle : octets * 8 ≤ t.nofBits) (hv : (n - lb).toNat < 2 ^ width) (hw : w.Holds bits) :
    CodedAs logs t lb ub aligned n w bits (alignment bits.length ++ toBits (octets * 8) (n - lb).toNat) (n - lb).toNat
      (alignment bits.length ++ toBits (octets * 8) (n - lb).toNat).length := by
  subst haligned
  obtain ⟨v, hv'⟩ : ∃ v, (n - lb).toNat = v := ⟨_, rfl⟩
  rw [hv'] at hv ⊢
  have hcond : ¬ (!true || decide (rangeOf t lb ub < 256)) = true := by simpa using hge
  have hfield : toBits (octets * 8) v = toBits (octets * 8 - width) 0 ++ toBits width v := by
    obtain ⟨k, hk⟩ : ∃ k, octets * 8 = k + width := ⟨octets * 8 - width, by omega⟩
    rw [hk, toBits_add, Nat.shiftRight_eq_div_pow, Nat.div_eq_of_lt hv, Nat.add_sub_cancel]
  have hvlt : v < 2 ^ (octets * 8) := hv.trans_le (Nat.pow_le_pow_right (by decide) hfits)
  have h₀ := BitRef.alignBytesZero_field hw
  have hlen := length_add_alignment bits
  obtain ⟨w₁, hpack₁, h₁⟩ := BitRef.pack_ok h₀ 0 (show octets * 8 - width < 64 by omega)
  obtain ⟨w₂, hpack₂, h₂⟩ := BitRef.pack_ok h₁ (toUint64 (t.wrap (n - lb))) (show width < 64 by omega)
  rw [toBits_toUint64_wrap t (by omega) (by omega), hv', List.append_assoc, ← hfield] at h₂
  have h₃ := BitRef.alignBytesZero_field h₂
  have hnil : alignment (bits ++ alignment bits.length ++ toBits (octets * 8) v).length = [] :=
    alignment_of_aligned (by rw [List.length_append, length_toBits]; omega)
  rw [hnil, List.append_nil, List.append_assoc] at h₃
  refine ⟨_, ?_, h₃, fun bytes tail hbytes => ?_⟩
  · rw [packConstrainedWholeNumber_eq hlow hhigh hone hwidth, if_neg hcond, if_pos hrange, hoctets, hpack₁]
    simp only [ok_bind]
    rw [hpack₂]
    rfl
  · have hsize := congrArg List.length hbytes
    simp only [length_bitsOf, List.length_append, length_alignment, length_toBits] at hsize
    rw [List.append_assoc, ← List.append_assoc bits] at hbytes
    have hstart : bits.length + (8 - bits.length % 8) % 8 = (bits ++ alignment bits.length).length := by
      rw [List.length_append, length_alignment]
    rw [unpackConstrainedWholeNumber_eq (hlow.trans hhigh) hone hwidth, if_neg hcond, if_pos hrange, hoctets,
      CbitRef.alignValue_at (by omega), hstart]
    simp only [handleCode]
    rw [CbitRef.unpackValue_field hbytes hle]
    simp only
    rw [CbitRef.alignValue_at (by rw [List.length_append, length_alignment]; omega), Nat.mod_eq_of_lt hvlt]
    simp only
    congr 3
    simp only [List.length_append, length_alignment, length_toBits]
    omega

/-- A number of octets in front of an aligned field of them. When the number does not fit into its bits, fewer octets
are read. -/
theorem codedAs_length (hlow : lb ≤ n) (hhigh : n ≤ ub) (hone : rangeOf t lb ub ≠ 1) {width lenBits octets : Nat}
    (hwidth : fieldBits logs (rangeOf t lb ub) = .ok width) (haligned : aligned = true) (hrange : 65536 < rangeOf t lb ub)
    (hlenBits : lengthBits logs width = lenBits) (hoctets : ceilFrac (valueBits logs (t.wrap (n - lb))) 8 = octets)
    (hpos : 0 < octets) (h64 : octets * 8 < 64) (hle : octets * 8 ≤ t.nofBits) (hlen32 : lenBits ≤ 32)
    (hw : w.Holds bits) :
    let read := (octets - 1) % 2 ^ lenBits + 1
    let field := toBits lenBits (octets - 1) ++ (alignment (bits.length + lenBits) ++ toBits (octets * 8) (n - lb).toNat)
    CodedAs logs t lb ub aligned n w bits field ((n - lb).toNat >>> (octets * 8 - read * 8) % 2 ^ (read * 8))
      (lenBits + (alignment (bits.length + lenBits)).length + read * 8) := by
  subst haligned
  dsimp only
  obtain ⟨v, hv'⟩ : ∃ v, (n - lb).toNat = v := ⟨_, rfl⟩
  obtain ⟨read, hread⟩ : ∃ read, (octets - 1) % 2 ^ lenBits + 1 = read := ⟨_, rfl⟩
  have hreadle : read ≤ octets := by
    have := Nat.mod_le (octets - 1) (2 ^ lenBits)
    omega
  rw [hv', hread]
  have hcond : ¬ (!true || decide (rangeOf t lb ub < 256)) = true := by
    simp only [Bool.not_true, Bool.false_or, decide_eq_true_eq]
    omega
  obtain ⟨w₁, hpack₁, h₁⟩ := BitRef.pack_ok hw (octets - 1) (show lenBits < 64 by omega)
  have h₂ := BitRef.alignBytesZero_field h₁
  obtain ⟨w₃, hpack₃, h₃⟩ := BitRef.pack_ok h₂ (toUint64 (t.wrap (n - lb))) h64
  have hlen₁ : (bits ++ toBits lenBits (octets - 1)).length = bits.length + lenBits := by
    rw [List.length_append, length_toBits]
  rw [toBits_toUint64_wrap t (by omega) hle, hv', hlen₁, List.append_assoc, List.append_assoc] at h₃
  refine ⟨w₃, ?_, h₃, fun bytes tail hbytes => ?_⟩
  · rw [packConstrainedWholeNumber_eq hlow hhigh hone hwidth, if_neg hcond, if_neg (by omega), hoctets, hlenBits, hpack₁]
    simp only [ok_bind]
    rw [hpack₃]
    rfl
  · have hsize := congrArg List.length hbytes
    simp only [length_bitsOf, List.length_append, length_alignment, length_toBits] at hsize
    -- the octets that are read, and those that are left behind them
    obtain ⟨left, hleft⟩ : ∃ left, octets * 8 = read * 8 + left := ⟨octets * 8 - read * 8, by omega⟩
    have hshift : octets * 8 - read * 8 = left := by omega
    rw [hleft, toBits_add] at hbytes
    have hbytes₁ : bitsOf bytes = bits ++ (toBits lenBits (octets - 1) ++
        (alignment (bits.length + lenBits) ++ (toBits (read * 8) (v >>> left) ++ (toBits left v ++ tail)))) := by
      rw [hbytes]
      simp only [List.append_assoc]
    have hbytes₂ : bitsOf bytes = bits ++ (toBits lenBits (octets - 1) ++ alignment (bits.length + lenBits)) ++
        (toBits (read * 8) (v >>> left) ++ (toBits left v ++ tail)) := by
      rw [hbytes]
      simp only [List.append_assoc]
    have hfirst := CbitRef.unpackValue_field hbytes₁ hlen32
    have hsecond := CbitRef.unpackValue_field hbytes₂ (show read * 8 ≤ t.nofBits by omega)
    have hstart : bits.length + lenBits + (8 - (bits.length + lenBits) % 8) % 8 =
        (bits ++ (toBits lenBits (octets - 1) ++ alignment (bits.length + lenBits))).length := by
      simp only [List.length_append, length_alignment, length_toBits]
      omega
    rw [unpackConstrainedWholeNumber_eq (hlow.trans hhigh) hone hwidth, if_neg hcond, if_neg (by omega), hlenBits, hfirst]
    simp only [handleCode]
    rw [CbitRef.alignValue_at (by omega), hstart]
    simp only [hread]
    rw [hsecond, hshift]
    simp only
    congr 3
    simp only [List.length_append, length_alignment, length_toBits]
    omega

end Encodings

section Widths

variable {logs : LogWidths} {top32 top63 margin ra : Nat} (h : logs.Near top32 top63 margin)

theorem fieldBits_eq (hra : ra ≠ 0) : fieldBits logs ra = .ok (logs.fieldBits ra) := if_neg hra

include h

theorem valueBits_of_neg {v : Int} (hv : v < 0) : valueBits logs v = 1 := by
  have hmax : (max v 1).toNat = 1 := by omega
  rw [valueBits, hmax, h.valueBits_one]

theorem valueBits_pos {v : Int} (hv : v < 2 ^ 64) : 0 < valueBits logs v :=
  (Nat.zero_le _).trans_lt (h.valueBits _ (by omega) (by omega)).1

theorem valueBits_le_65 {v : Nat} (hv : v < 2 ^ 64) : valueBits logs v ≤ 65 := by
  have hmax : (max (v : Int) 1).toNat = max v 1 := by omega
  have hlog := Nat.log_lt_of_lt_pow (b := 2) (show max v 1 ≠ 0 by omega) (show max v 1 < 2 ^ 64 by omega)
  have hle := (h.valueBits (max v 1) (by omega) (by omega)).2
  rw [valueBits, hmax]
  omega

theorem lt_pow_valueBits {v : Nat} (hv : v < 2 ^ 64) : v < 2 ^ valueBits logs v := by
  obtain ⟨hlow, -⟩ := h.valueBits (max v 1) (by omega) (by omega)
  have hmax : (max (v : Int) 1).toNat = max v 1 := by omega
  have hlt := Nat.lt_pow_succ_log_self (show 1 < 2 by decide) (max v 1)
  rw [valueBits, hmax]
  exact ((Nat.le_max_left v 1).trans_lt hlt).trans_le (Nat.pow_le_pow_right (by decide) hlow)

theorem valueBits_le_32_iff {v : Nat} (hv : v < 2 ^ 64) : valueBits logs v ≤ 32 ↔ v < 2 ^ 32 := by
  constructor
  · intro hle
    exact (lt_pow_valueBits h hv).trans_le (Nat.pow_le_pow_right (by decide) hle)
  · intro hlt
    exact h.valueBits_32 _ (by omega) (by omega)

theorem valueBits_le_56_iff {v : Nat} (hv : v < 2 ^ 64) :
    valueBits logs v ≤ 56 ↔ v + margin < 2 ^ 56 := by
  have hmargin := h.top.2.2.2
  rw [valueBits, h.valueBits_56 _ (by omega) (by omega)]
  omega

theorem lengthBits_eq (hlow : 65536 < ra) (hhigh : ra < 2 ^ 64) :
    lengthBits logs (logs.fieldBits ra) = if logs.fieldBits ra ≤ 32 then 2 else 3 := by
  have hle := h.fieldBits_le (by omega) hhigh hhigh.le
  have hge : 17 ≤ logs.fieldBits ra := by
    rcases Nat.lt_or_ge ra (2 ^ 17) with hlt | hge
    · have hclog : 16 < Nat.clog 2 ra := (Nat.lt_clog_iff_pow_lt (by decide)).mpr hlow
      have hdown := h.small ra hlt
      rw [LogWidths.Down] at hdown
      omega
    · exact (Nat.le_log_of_pow_le (by decide) hge).trans (h.fieldBits ra (by omega) hhigh).1
  rw [lengthBits, ceilFrac_eq (by omega), h.lengthBits _ (by omega) (by omega)]
  split_ifs <;> omega

end Widths

section Exact

variable {logs : LogWidths} {top32 top63 margin : Nat} {t : IntType} {lb ub n : Int} {aligned : Bool} {w : BitRef}
  {bits : List Bool}

theorem wrap_lt_ne (hlb : t.Has lb) (hub : t.Has ub) (hhigh : n ≤ ub) {val : Nat} (h : lb + val < n) :
    t.wrap (lb + val) ≠ n := by
  have hhas : t.Has (lb + val) := ⟨by have := hlb.1; omega, by have := hub.2; omega⟩
  rw [IntType.wrap_of_has hhas]
  omega

theorem roundTrips_bits_iff (hlb : t.Has lb) (hub : t.Has ub) (hlow : lb ≤ n) (hhigh : n ≤ ub)
    (hone : rangeOf t lb ub ≠ 1) {width : Nat} (hwidth : fieldBits logs (rangeOf t lb ub) = .ok width)
    (hbits : aligned = false ∨ rangeOf t lb ub < 256) (hle : width < 64 → width ≤ t.nofBits) (hw : w.Holds bits) :
    RoundTripsFrom logs t lb ub aligned n w bits ↔ width < 64 ∧ (n - lb).toNat < 2 ^ width := by
  by_cases h64 : width < 64
  · by_cases hv : (n - lb).toNat < 2 ^ width
    · have hcoded := codedAs_bits hlow hhigh hone hwidth hbits h64 (hle h64) hw
      rw [Nat.mod_eq_of_lt hv] at hcoded
      exact iff_of_true (CodedAs.roundTrips hlb hub hlow hhigh (by rw [length_toBits]; exact hcoded)) ⟨h64, hv⟩
    · refine iff_of_false ?_ fun h => hv h.2
      refine (codedAs_bits hlow hhigh hone hwidth hbits h64 (hle h64) hw).not_roundTrips ?_
      have hlt := Nat.mod_lt (n - lb).toNat (Nat.two_pow_pos width)
      exact wrap_lt_ne hlb hub hhigh (by omega)
  · refine iff_of_false ?_ fun h => h64 h.1
    refine not_roundTrips_of_fault (e := .nofBits) ?_
    rw [packConstrainedWholeNumber_eq hlow hhigh hone hwidth, if_pos (by simpa using hbits), BitRef.pack, if_neg h64]
    rfl

theorem roundTrips_length_iff (hnear : logs.Near top32 top63 margin) (hlb : t.Has lb) (hub : t.Has ub) (hlow : lb ≤ n)
    (hhigh : n ≤ ub)
    (hone : rangeOf t lb ub ≠ 1) {width lenBits : Nat} (hwidth : fieldBits logs (rangeOf t lb ub) = .ok width)
    (haligned : aligned = true) (hrange : 65536 < rangeOf t lb ub) (hlenBits : lengthBits logs width = lenBits)
    (hlen : 2 ≤ lenBits ∧ lenBits ≤ 32) (hsize : t.nofBits = 32 ∨ t.nofBits = 64) (hbig : t.max < n - lb → 256 ≤ n - lb)
    (hw : w.Holds bits) : RoundTripsFrom logs t lb ub aligned n w bits ↔ n - lb ≤ t.max ∧ valueBits logs (n - lb).toNat ≤ 56 ∧
      (valueBits logs (n - lb).toNat ≤ 32 ∨ 3 ≤ lenBits) := by
  obtain ⟨v, hv⟩ : ∃ v, (n - lb).toNat = v := ⟨_, rfl⟩
  have hnv : n - lb = v := by omega
  have hmaxeq := t.max_add_one
  have hmin := t.min_nonpos
  have hv64 : v < 2 ^ 64 := by
    have hlow' := hlb.1
    have hhigh' := hub.2
    rcases hsize with h | h <;> rw [h] at hmaxeq <;> omega
  by_cases hmax : n - lb ≤ t.max
  · have hwrap : t.wrap (n - lb) = v := by
      rw [IntType.wrap_of_has ⟨by have := t.min_nonpos; omega, hmax⟩, hnv]
    have hpos := valueBits_pos hnear (show (v : Int) < 2 ^ 64 by exact_mod_cast hv64)
    rw [hv]
    by_cases h56 : valueBits logs v ≤ 56
    · have hoctets := ceilFrac_eq (show valueBits logs v < 2 ^ 31 by omega)
      have hoctets' : ceilFrac (valueBits logs (t.wrap (n - lb))) 8 = ceilFrac (valueBits logs v) 8 := by rw [hwrap]
      have hpos' : 0 < ceilFrac (valueBits logs v) 8 := by omega
      have h64 : ceilFrac (valueBits logs v) 8 * 8 < 64 := by omega
      have hle : ceilFrac (valueBits logs v) 8 * 8 ≤ t.nofBits := by
        rcases hsize with h32 | h64'
        · have hlt : v < 2 ^ 32 := by
            rw [h32] at hmaxeq
            omega
          have := (valueBits_le_32_iff hnear hv64).mpr hlt
          omega
        · omega
      have hvlt : v < 2 ^ (ceilFrac (valueBits logs v) 8 * 8) :=
        (lt_pow_valueBits hnear hv64).trans_le (Nat.pow_le_pow_right (by decide) (by omega))
      by_cases hfits : valueBits logs v ≤ 32 ∨ 3 ≤ lenBits
      · refine iff_of_true ?_ ⟨hmax, h56, hfits⟩
        have hread : (ceilFrac (valueBits logs v) 8 - 1) % 2 ^ lenBits + 1 = ceilFrac (valueBits logs v) 8 := by
          rw [Nat.mod_eq_of_lt, Nat.sub_add_cancel hpos']
          rcases hfits with hfits | hfits
          · exact (show ceilFrac (valueBits logs v) 8 - 1 < 2 ^ 2 by omega).trans_le (Nat.pow_le_pow_right (by decide) hlen.1)
          · exact (show ceilFrac (valueBits logs v) 8 - 1 < 2 ^ 3 by omega).trans_le (Nat.pow_le_pow_right (by decide) hfits)
        have hcoded := codedAs_length hlow hhigh hone hwidth haligned hrange hlenBits hoctets' hpos' h64 hle hlen.2 hw
        dsimp only at hcoded
        rw [hread, Nat.sub_self, Nat.shiftRight_zero, hv, Nat.mod_eq_of_lt hvlt] at hcoded
        have hlength : (toBits lenBits (ceilFrac (valueBits logs v) 8 - 1) ++ (alignment (bits.length + lenBits) ++
            toBits (ceilFrac (valueBits logs v) 8 * 8) v)).length =
            lenBits + (alignment (bits.length + lenBits)).length + ceilFrac (valueBits logs v) 8 * 8 := by
          simp only [List.length_append, length_toBits]
          omega
        rw [← hlength] at hcoded
        exact CodedAs.roundTrips hlb hub hlow hhigh (hv.symm ▸ hcoded)
      · refine iff_of_false ?_ fun h => hfits h.2.2
        -- the number of octets does not fit into two bits, and the last octets are not read
        refine (codedAs_length hlow hhigh hone hwidth haligned hrange hlenBits hoctets' hpos' h64 hle hlen.2
          hw).not_roundTrips (wrap_lt_ne hlb hub hhigh ?_)
        have htwo : lenBits = 2 := by omega
        rw [htwo, hv]
        have hleft : 8 ≤ ceilFrac (valueBits logs v) 8 * 8 - ((ceilFrac (valueBits logs v) 8 - 1) % 2 ^ 2 + 1) * 8 := by omega
        have hvpos : 0 < v := by
          by_contra h0
          have := (valueBits_le_32_iff hnear hv64).mpr (by omega)
          omega
        have hshift : v >>> (ceilFrac (valueBits logs v) 8 * 8 - ((ceilFrac (valueBits logs v) 8 - 1) % 2 ^ 2 + 1) * 8) < v := by
          rw [Nat.shiftRight_eq_div_pow]
          exact Nat.div_lt_self hvpos (Nat.one_lt_two_pow (by omega))
        have hmod := Nat.mod_le (v >>> (ceilFrac (valueBits logs v) 8 * 8 - ((ceilFrac (valueBits logs v) 8 - 1) % 2 ^ 2 + 1) * 8))
          (2 ^ (((ceilFrac (valueBits logs v) 8 - 1) % 2 ^ 2 + 1) * 8))
        omega
    · refine iff_of_false ?_ fun h => h56 h.2.1
      refine not_roundTrips_of_fault (e := .nofBits) ?_
      have hcond : ¬ (!aligned || decide (rangeOf t lb ub < 256)) = true := by
        rw [haligned]
        simp only [Bool.not_true, Bool.false_or, decide_eq_true_eq]
        omega
      have hlarge : ¬ ceilFrac (valueBits logs v) 8 * 8 < 64 := by
        have hup := valueBits_le_65 hnear hv64
        rw [ceilFrac_eq (by omega)]
        omega
      rw [packConstrainedWholeNumber_eq hlow hhigh hone hwidth, if_neg hcond, if_neg (by omega), hwrap, hlenBits,
        BitRef.pack, if_pos (by omega)]
      simp only [ok_bind]
      rw [BitRef.pack, if_neg hlarge]
      rfl
  · -- the difference comes out negative, and gets one octet
    have hneg : valueBits logs (t.wrap (n - lb)) = 1 := by
      have hmax' := t.max_pos
      have hlb' := hlb.1
      have hub' := hub.2
      rw [IntType.wrap_eq_sub (by omega) (by omega)]
      exact valueBits_of_neg hnear (by omega)
    refine iff_of_false ?_ fun h => hmax h.1
    have hoctets : ceilFrac (valueBits logs (t.wrap (n - lb))) 8 = 1 := by rw [hneg]; rfl
    refine (codedAs_length hlow hhigh hone hwidth haligned hrange hlenBits hoctets (by decide) (by decide)
      (by rcases hsize with h | h <;> omega) hlen.2 hw).not_roundTrips (wrap_lt_ne hlb hub hhigh ?_)
    have hmod : (n - lb).toNat >>> (1 * 8 - ((1 - 1) % 2 ^ lenBits + 1) * 8) % 2 ^ (((1 - 1) % 2 ^ lenBits + 1) * 8) < 256 := by
      rw [Nat.sub_self, Nat.zero_mod]
      exact Nat.mod_lt _ (by decide)
    have := hbig (by omega)
    omega

end Exact

end Ocudu.Asn1
