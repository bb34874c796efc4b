import Ocudu.Asn1.PerBounds

/-! `pack_integer` and `unpack_integer`: the integers of every kind that come back, and when the decoder is safe. -/

namespace Ocudu.Asn1

open BitCodec BitReader BitWriter

variable (t : IntType) (lb ub : Int) (hasExt aligned : Bool) (n : Int)

def within : Bool := decide (lb ≤ n) && decide (n ≤ ub)

def RoundTrips : Prop :=
  ∀ w bits, w.Holds bits → ∃ res, packInteger .rounded t w n lb ub hasExt aligned = .ok res ∧ ∀ w', res = some w' →
    ∀ n₀, ReadBack (fun r => unpackInteger .rounded t r n₀ lb ub hasExt aligned) n bits w'

def DecoderSafe : Prop :=
  ∀ bytes pos n₀, pos ≤ 8 * bytes.length → ∃ res, unpackInteger .rounded t (at' bytes pos) n₀ lb ub hasExt aligned = .ok res

/-- The integer keeps within the width or the number of octets that is computed for the range. -/
def ConstrainedFits : Prop :=
  if aligned then
    if RangeOverflows t lb ub then ub - lb + 1 < 2 ^ 32 ∧ n - lb < 2 ^ 31
    else if ub - lb + 1 ≤ 2 ^ 32 then True
    else if ub - lb + 1 < 2 ^ 32 + 23 * 2 ^ 8 then n - lb < 2 ^ 32
    else n - lb + 180 < 2 ^ 56
  else ¬ RangeOverflows t lb ub ∧ ub - lb + 1 < 2 ^ 63 + 23 * 2 ^ 39 ∧
    (LogWidths.RoundsDown (ub - lb + 1).toNat → n - lb < 2 ^ Nat.log 2 (ub - lb + 1).toNat)

def LengthFits : Prop := 0 < n ∧ if t.nofBits = 64 then n ≤ 2 ^ 55 + 91 else n ≤ 2 ^ (t.nofBits - 1)

def IntegerFits : Prop :=
  if within lb ub n then
    if lowerBounded t lb && upperBounded t ub then lb ≠ ub ∧ ConstrainedFits t lb ub aligned n
    else lowerBounded t lb = false ∧ upperBounded t ub = false ∧ LengthFits t n
  else hasExt = true → LengthFits t n

/-- No length is read, and the difference of the bounds does not wrap around. -/
def DecodeFits : Prop :=
  hasExt = false ∧ (lowerBounded t lb || upperBounded t ub) = true ∧
    ((lowerBounded t lb && upperBounded t ub) = true → ¬ RangeOverflows t lb ub)

section Length

variable {t lb ub hasExt aligned n} {w : BitRef} {bits : List Bool}

theorem roundTripsFrom_iff (hlb : t.Has lb) (hub : t.Has ub) (hlt : lb < ub) (hfull : ub - lb + 1 < 2 ^ 64)
    (hlow : lb ≤ n) (hhigh : n ≤ ub) (hw : w.Holds bits) :
    RoundTripsFrom .rounded t lb ub aligned n w bits ↔ ConstrainedFits t lb ub aligned n := by
  by_cases hover : RangeOverflows t lb ub
  · rw [roundTripsFrom_overflow LogWidths.rounded_near hlb hub hlow hhigh hover hw, ConstrainedFits]
    cases aligned <;> simp [hover]
  · rw [ConstrainedFits]
    cases aligned with
    | false =>
      rw [roundTripsFrom_unaligned LogWidths.rounded_near hlb hub hlt hfull hlow hhigh hover hw,
        LogWidths.rounded_down_iff (by omega) (by omega), if_neg (by decide)]
      refine ⟨fun h => ⟨hover, by omega, h.2⟩, fun h => ⟨by omega, h.2.2⟩⟩
    | true =>
      rw [roundTripsFrom_aligned LogWidths.rounded_near hlb hub hlt hfull hlow hhigh hover hw, if_pos rfl, if_neg hover]
      split_ifs <;> first | rfl | omega

theorem unconstrainedWholeNumberLength_eq {v : Nat} (h : 0 < v) :
    unconstrainedWholeNumberLength .rounded v = .ok (LogWidths.rounded.octets v) := by
  rw [unconstrainedWholeNumberLength, if_neg (by omega), Int.toNat_natCast]

theorem octets_lt {v : Nat} (hv : 0 < v) (h : v < 2 ^ 64) : LogWidths.rounded.octets v < 128 :=
  (LogWidths.octets_le_of_le_pow (j := 9) hv.ne' (by decide) (by decide) h.le le_rfl).trans_lt (by decide)

theorem lengthFits_iff (hn : t.Has n) : LengthFits t n ↔
    0 < n ∧ LogWidths.rounded.octets n.toNat * 8 < 64 ∧ LogWidths.rounded.octets n.toNat * 8 ≤ t.nofBits := by
  rw [LengthFits]
  refine and_congr_right fun hpos => ?_
  obtain ⟨v, rfl⟩ : ∃ v : Nat, n = v := ⟨n.toNat, by omega⟩
  rw [Int.toNat_natCast]
  have hv : v ≠ 0 := by omega
  have hshort (j e : Nat) (he : e < 5) (hj : 8 * j = 2 ^ (e + 1)) (ht : t.nofBits = 8 * j) (hne : ¬ t.nofBits = 64) :
      (if t.nofBits = 64 then (v : Int) ≤ 2 ^ 55 + 91 else (v : Int) ≤ 2 ^ (t.nofBits - 1)) ↔
        LogWidths.rounded.octets v * 8 < 64 ∧ LogWidths.rounded.octets v * 8 ≤ t.nofBits := by
    have hiff := LogWidths.octets_le_iff he hj hv
    have hcast : (v : Int) ≤ 2 ^ (8 * j - 1) ↔ v ≤ 2 ^ (8 * j - 1) := by exact_mod_cast Iff.rfl
    have hpow : 2 ^ (e + 1) ≤ 2 ^ 5 := Nat.pow_le_pow_right (by decide) (by omega)
    rw [if_neg hne, ht, hcast, ← hiff]
    omega
  cases t with
  | int8 | uint8 => exact hshort 1 2 (by decide) rfl rfl (by decide)
  | int16 | uint16 => exact hshort 2 3 (by decide) rfl rfl (by decide)
  | int32 | uint32 => exact hshort 4 4 (by decide) rfl rfl (by decide)
  | int64 | uint64 =>
    have h7 := LogWidths.octets_le_7_iff hv
    simp only [IntType.nofBits, ↓reduceIte]
    omega

theorem packLength_ok (aligned : Bool) {len : Nat} (hlen : len < 128) (hw : w.Holds bits) : ∃ w',
    packLength w len aligned = .ok (some w') ∧
      w'.Holds (bits ++ ((if aligned then alignment bits.length else []) ++ toBits 8 len)) := by
  cases aligned with
  | false =>
    obtain ⟨w', hpack, hw'⟩ := BitRef.pack_ok hw len (show 8 < 64 by decide)
    refine ⟨w', ?_, hw'⟩
    rw [packLength, if_pos (by decide), if_pos hlen, hpack]
    rfl
  | true =>
    obtain ⟨w', hpack, hw'⟩ := BitRef.pack_ok (BitRef.alignBytesZero_field hw) len (show 8 < 64 by decide)
    rw [List.append_assoc] at hw'
    refine ⟨w', ?_, hw'⟩
    rw [packLength, if_neg (by decide), if_neg (by omega)]
    dsimp only
    rw [if_pos hlen, hpack]
    rfl

theorem unpackLength_ok (aligned : Bool) {len : Nat} (hlen : len < 128) {bytes : List UInt8} {tail : List Bool}
    (hbytes : bitsOf bytes = bits ++ ((if aligned then alignment bits.length else []) ++ toBits 8 len) ++ tail) :
    unpackLength (at' bytes bits.length) aligned = .ok (some (len,
      at' bytes (bits ++ ((if aligned then alignment bits.length else []) ++ toBits 8 len)).length)) := by
  cases aligned with
  | false =>
    have hsplit : toBits 8 len = toBits 1 0 ++ toBits 7 len := by
      rw [show 8 = 1 + 7 from rfl, toBits_add, Nat.shiftRight_eq_div_pow, Nat.div_eq_of_lt hlen]
    have hfirst : bitsOf bytes = bits ++ (toBits 1 0 ++ (toBits 7 len ++ tail)) := by
      rw [hbytes, hsplit]
      simp
    have hsecond : bitsOf bytes = bits ++ toBits 1 0 ++ (toBits 7 len ++ tail) := by
      rw [hfirst, List.append_assoc]
    have hread := CbitRef.unpackValue_field hsecond (show 7 ≤ 32 by decide)
    rw [List.length_append, length_toBits, Nat.mod_eq_of_lt (show len < 2 ^ 7 from hlen)] at hread
    rw [unpackLength, if_pos (by decide), CbitRef.unpackValue_field hfirst (show 1 ≤ 8 by decide)]
    dsimp only [handleCode]
    rw [if_pos (by decide), hread]
    simp
  | true =>
    have hsize := congrArg List.length hbytes
    simp only [length_bitsOf, List.length_append, length_toBits, if_true, length_alignment] at hsize
    have hfirst : bitsOf bytes = bits ++ alignment bits.length ++ (toBits 8 len ++ tail) := by
      rw [hbytes]
      simp
    have hread := CbitRef.unpackValue_field hfirst (show 8 ≤ 32 by decide)
    rw [List.length_append, length_alignment, Nat.mod_eq_of_lt (show len < 2 ^ 8 by omega)] at hread
    rw [unpackLength, if_neg (by decide), CbitRef.alignValue_at (by omega)]
    dsimp only [handleCode]
    rw [hread]
    dsimp only
    rw [if_pos hlen]
    simp [Nat.add_assoc]

theorem alignValue_of_aligned {bytes : List UInt8} {pos : Nat} (hpos : pos ≤ 8 * bytes.length) (h : pos % 8 = 0) :
    CbitRef.alignValue (at' bytes pos) = .ok (some (at' bytes pos)) := by
  have hzero : pos + (8 - pos % 8) % 8 = pos := by lia
  rw [CbitRef.alignValue_at hpos, hzero]

theorem packUnconstrained_eq {v : Nat} (hv : 0 < v) (hlt : v < 2 ^ 64) (w : BitRef) :
    packUnconstrainedWholeNumber .rounded w v aligned =
      BitRef.pack (if aligned then BitRef.alignBytesZero w else w) v (LogWidths.rounded.octets v * 8) := by
  have hval : toUint64 v = v := by
    rw [toUint64]
    lia
  rw [packUnconstrainedWholeNumber, unconstrainedWholeNumberLength_eq hv, hval]
  rfl

end Length

section Root

variable {t lb ub hasExt aligned n} {w : BitRef} {bits : List Bool} {withinBounds : Bool}

variable (t lb ub aligned n) in
def RootBack (withinBounds : Bool) (w : BitRef) (bits : List Bool) : Prop :=
  ∃ w', packRoot .rounded t w n lb ub withinBounds aligned = .ok (some w') ∧
    ∀ n₀, ReadBack (fun r => unpackRoot .rounded t r n₀ lb ub withinBounds aligned) n bits w'

theorem lt_pow_64 (hn : t.Has n) : n < 2 ^ 64 := by
  have hmax : t.max < 2 ^ 64 := by cases t <;> decide
  exact hn.2.trans_lt hmax

theorem rootBack_length_iff (hn : t.Has n) (hw : w.Holds bits)
    (hcond : (withinBounds && lowerBounded t lb && upperBounded t ub) = false)
    (hcond' : (!withinBounds || (!lowerBounded t lb && !upperBounded t ub)) = true) :
    RootBack t lb ub aligned n withinBounds w bits ↔ LengthFits t n := by
  rw [lengthFits_iff hn]
  have hpackRoot : packRoot .rounded t w n lb ub withinBounds aligned = (do
      let len ← unconstrainedWholeNumberLength .rounded n
      handleCode (packLength w len aligned) fun w => (packUnconstrainedWholeNumber .rounded w n aligned).map some) := by
    rw [packRoot, hcond, hcond']
    rfl
  have hunpackRoot : ∀ n₀ r, unpackRoot .rounded t r n₀ lb ub withinBounds aligned =
      handleCode (unpackLength r aligned) fun len => unpackUnconstrainedWholeNumber t len.2 len.1 aligned := by
    intro n₀ r
    rw [unpackRoot, hcond, hcond']
    rfl
  by_cases hpos : 0 < n
  · have hlt := lt_pow_64 hn
    obtain ⟨v, rfl⟩ : ∃ v : Nat, n = v := ⟨n.toNat, by omega⟩
    have hv : 0 < v := by omega
    have hvlt : v < 2 ^ 64 := by exact_mod_cast hlt
    obtain ⟨len, hlen⟩ : ∃ len, LogWidths.rounded.octets v = len := ⟨_, rfl⟩
    have hsmall : len < 128 := hlen ▸ octets_lt (by omega) hvlt
    have hvpow : v < 2 ^ (len * 8) := hlen ▸ LogWidths.lt_pow_octets hv.ne' hvlt
    obtain ⟨w₁, hpack₁, h₁⟩ := packLength_ok aligned hsmall hw
    obtain ⟨pre, hpre⟩ : ∃ pre, (if aligned then alignment bits.length else []) ++ toBits 8 len = pre := ⟨_, rfl⟩
    rw [hpre] at h₁
    have hmod : aligned = true → (bits ++ pre).length % 8 = 0 := by
      rintro rfl
      rw [← hpre]
      simp only [List.length_append, if_true, length_alignment, length_toBits]
      omega
    have h₂ : (if aligned then BitRef.alignBytesZero w₁ else w₁).Holds (bits ++ pre) := by
      cases aligned with
      | false => exact h₁
      | true =>
        have halign := BitRef.alignBytesZero_field h₁
        rwa [alignment_of_aligned (hmod rfl), List.append_nil] at halign
    rw [unconstrainedWholeNumberLength_eq hv, hlen] at hpackRoot
    simp only [ok_bind] at hpackRoot
    rw [hpack₁] at hpackRoot
    dsimp only [handleCode] at hpackRoot
    rw [packUnconstrained_eq hv hvlt, hlen] at hpackRoot
    rw [Int.toNat_natCast, hlen]
    by_cases h64 : len * 8 < 64
    · obtain ⟨w', hpack, hw'⟩ := BitRef.pack_ok h₂ v h64
      rw [hpack] at hpackRoot
      rw [List.append_assoc] at hw'
      have hread : ∀ bytes tail, bitsOf bytes = bits ++ (pre ++ toBits (len * 8) v ++ tail) →
          unpackLength (at' bytes bits.length) aligned = .ok (some (len, at' bytes (bits ++ pre).length)) ∧
          (if aligned then CbitRef.alignValue (at' bytes (bits ++ pre).length)
            else .ok (some (at' bytes (bits ++ pre).length))) = .ok (some (at' bytes (bits ++ pre).length)) := by
        intro bytes tail hbytes
        have hsize := congrArg List.length hbytes
        simp only [length_bitsOf, List.length_append, length_toBits] at hsize
        have hsplit : bitsOf bytes = bits ++ ((if aligned then alignment bits.length else []) ++ toBits 8 len) ++
            (toBits (len * 8) v ++ tail) := by
          rw [hpre, hbytes]
          simp only [List.append_assoc]
        have hlength := unpackLength_ok aligned hsmall hsplit
        rw [hpre] at hlength
        refine ⟨hlength, ?_⟩
        cases aligned with
        | false => rfl
        | true => exact alignValue_of_aligned (by rw [List.length_append]; omega) (hmod rfl)
      by_cases hle : len * 8 ≤ t.nofBits
      · refine iff_of_true ⟨w', hpackRoot, fun n₀ => ⟨pre ++ toBits (len * 8) v, hw', fun bytes tail hbytes => ?_⟩⟩
          ⟨hpos, h64, hle⟩
        obtain ⟨hlength, halign⟩ := hread bytes tail hbytes
        have hfield : bitsOf bytes = bits ++ pre ++ (toBits (len * 8) v ++ tail) := by
          rw [hbytes]
          simp only [List.append_assoc]
        dsimp only
        rw [hunpackRoot, hlength]
        dsimp only [handleCode]
        rw [unpackUnconstrainedWholeNumber, halign]
        dsimp only [handleCode]
        rw [CbitRef.unpackValue_field hfield hle, Nat.mod_eq_of_lt hvpow]
        dsimp only [handleCode]
        rw [IntType.wrap_of_has hn]
        simp only [List.length_append, length_toBits, Nat.add_assoc]
      · -- the decoder asserts the number of bits
        refine iff_of_false ?_ fun h => hle h.2.2
        rintro ⟨w₂, hpack₂, hback⟩
        rw [hpackRoot] at hpack₂
        cases hpack₂
        obtain ⟨zeros, hzeros⟩ := hw'.bitsOf_bytes
        rw [List.append_assoc] at hzeros
        obtain ⟨hlength, halign⟩ := hread w'.bytes zeros hzeros
        obtain ⟨r, hr⟩ := (hback 0).of_bytes
        rw [hunpackRoot, hlength] at hr
        dsimp only [handleCode] at hr
        rw [unpackUnconstrainedWholeNumber, halign] at hr
        dsimp only [handleCode] at hr
        rw [CbitRef.unpackValue, CbitRef.unpack, if_neg hle] at hr
        cases hr
    · refine iff_of_false ?_ fun h => h64 h.2.1
      rintro ⟨w₂, hpack₂, -⟩
      rw [hpackRoot, BitRef.pack, if_neg h64] at hpack₂
      cases hpack₂
  · refine iff_of_false ?_ fun h => hpos h.1
    rintro ⟨w₂, hpack₂, -⟩
    rw [hpackRoot, unconstrainedWholeNumberLength, if_pos (by omega)] at hpack₂
    cases hpack₂

theorem packConstrained_appends (hlow : lb ≤ n) (hhigh : n ≤ ub) (hw : w.Holds bits) {res : Option BitRef}
    (h : packConstrainedWholeNumber .rounded t w n lb ub aligned = .ok res) :
    ∃ w' field, res = some w' ∧ w'.Holds (bits ++ field) := by
  rw [packConstrainedWholeNumber, if_neg (by omega)] at h
  dsimp only at h
  split_ifs at h with hone hbits hoctets
  · cases h
    exact ⟨w, [], rfl, by rwa [List.append_nil]⟩
  all_goals obtain ⟨width, -, h⟩ := bind_eq_ok.mp h
  · obtain ⟨w₁, hpack, h⟩ := bind_eq_ok.mp h
    cases h
    exact ⟨w₁, _, rfl, BitRef.pack_holds hw hpack⟩
  · obtain ⟨w₁, hpack₁, h⟩ := bind_eq_ok.mp h
    obtain ⟨w₂, hpack₂, h⟩ := bind_eq_ok.mp h
    cases h
    have h₂ := BitRef.alignBytesZero_field
      (BitRef.pack_holds (BitRef.pack_holds (BitRef.alignBytesZero_field hw) hpack₁) hpack₂)
    rw [List.append_assoc, List.append_assoc, List.append_assoc] at h₂
    exact ⟨_, _, rfl, h₂⟩
  · obtain ⟨w₁, hpack₁, h⟩ := bind_eq_ok.mp h
    obtain ⟨w₂, hpack₂, h⟩ := bind_eq_ok.mp h
    cases h
    have h₂ := BitRef.pack_holds (BitRef.alignBytesZero_field (BitRef.pack_holds hw hpack₁)) hpack₂
    rw [List.append_assoc, List.append_assoc] at h₂
    exact ⟨_, _, rfl, h₂⟩

theorem packRoot_appends (hn : t.Has n) (hin : withinBounds = true → lb ≤ n ∧ n ≤ ub) (hw : w.Holds bits)
    {res : Option BitRef} (h : packRoot .rounded t w n lb ub withinBounds aligned = .ok res) :
    ∃ w' field, res = some w' ∧ w'.Holds (bits ++ field) := by
  rw [packRoot] at h
  split_ifs at h with hcond heq hcond'
  · cases h
    exact ⟨w, [], rfl, by rwa [List.append_nil]⟩
  · obtain ⟨hlow, hhigh⟩ := hin (by simp only [Bool.and_eq_true] at hcond; exact hcond.1.1)
    exact packConstrained_appends hlow hhigh hw h
  · obtain ⟨len, hlen, h⟩ := bind_eq_ok.mp h
    have hpos : 0 < n := by
      by_contra hneg
      rw [unconstrainedWholeNumberLength, if_pos (by omega)] at hlen
      cases hlen
    have hlt := lt_pow_64 hn
    obtain ⟨v, rfl⟩ : ∃ v : Nat, n = v := ⟨n.toNat, by omega⟩
    have hvlt : v < 2 ^ 64 := by exact_mod_cast hlt
    rw [unconstrainedWholeNumberLength_eq (by omega)] at hlen
    cases hlen
    obtain ⟨w₁, hpack₁, h₁⟩ := packLength_ok aligned (octets_lt (by omega) hvlt) hw
    rw [hpack₁] at h
    dsimp only [handleCode] at h
    rw [packUnconstrained_eq (by omega) hvlt] at h
    obtain ⟨w₂, hpack₂, rfl⟩ := map_eq_ok.mp h
    cases aligned with
    | false =>
      have h₂ := BitRef.pack_holds h₁ hpack₂
      rw [List.append_assoc] at h₂
      exact ⟨w₂, _, rfl, h₂⟩
    | true =>
      have h₂ := BitRef.pack_holds (BitRef.alignBytesZero_field h₁) hpack₂
      rw [List.append_assoc, List.append_assoc] at h₂
      exact ⟨w₂, _, rfl, h₂⟩
  · cases h
    exact ⟨w, [], rfl, by rwa [List.append_nil]⟩

theorem range_lt_of_bounded (hlb : t.Has lb) (hub : t.Has ub)
    (hcond : (lowerBounded t lb && upperBounded t ub) = true) : ub - lb + 1 < 2 ^ 64 := by
  obtain ⟨hlow, -⟩ := hlb
  obtain ⟨-, hhigh⟩ := hub
  cases t <;> simp [lowerBounded, upperBounded, IntType.min, IntType.max, IntType.isSigned, IntType.nofBits] at * <;> omega

variable (t lb ub aligned n) in
/-- Whether what follows the extension marker comes back. -/
def RootFits (withinBounds : Bool) : Prop :=
  if withinBounds then
    if lowerBounded t lb && upperBounded t ub then lb ≠ ub ∧ ConstrainedFits t lb ub aligned n
    else lowerBounded t lb = false ∧ upperBounded t ub = false ∧ LengthFits t n
  else LengthFits t n

theorem not_readBack_of_unset {unpack : Int → CbitRef → Except BitFault (Option (Int × CbitRef))}
    (hunset : ∀ n₀ r, unpack n₀ r = .ok (some (n₀, r))) : ¬ ∀ n₀, ReadBack (unpack n₀) n bits w := by
  intro hback
  obtain ⟨r, hr⟩ := (hback (n + 1)).of_bytes
  rw [hunset] at hr
  injection hr with hr
  injection hr with hr
  have := congrArg Prod.fst hr
  dsimp only at this
  omega

theorem rootBack_iff (hlb : t.Has lb) (hub : t.Has ub) (hle : lb ≤ ub) (hn : t.Has n)
    (hin : withinBounds = true → lb ≤ n ∧ n ≤ ub) (hw : w.Holds bits) :
    RootBack t lb ub aligned n withinBounds w bits ↔ RootFits t lb ub aligned n withinBounds := by
  rw [RootFits]
  cases withinBounds with
  | false =>
    rw [if_neg (by decide)]
    exact rootBack_length_iff hn hw rfl rfl
  | true =>
    obtain ⟨hlow, hhigh⟩ := hin rfl
    rw [if_pos rfl]
    by_cases hbounded : (lowerBounded t lb && upperBounded t ub) = true
    · have hfull := range_lt_of_bounded hlb hub hbounded
      have hcond : (true && lowerBounded t lb && upperBounded t ub) = true := hbounded
      rw [if_pos hbounded, RootBack]
      simp only [packRoot, unpackRoot, if_pos hcond]
      by_cases heq : lb = ub
      · simp only [if_pos heq]
        refine iff_of_false ?_ fun h => h.1 heq
        rintro ⟨w', -, hback⟩
        exact not_readBack_of_unset (fun _ _ => rfl) hback
      · simp only [if_neg heq]
        rw [← roundTripsFrom_iff hlb hub (lt_of_le_of_ne hle heq) hfull hlow hhigh hw]
        constructor
        · rintro ⟨w', hpack, hback⟩
          exact ⟨heq, w', hpack, hback 0⟩
        · rintro ⟨-, w', hpack, hback⟩
          exact ⟨w', hpack, fun _ => hback⟩
    · have hcond : (true && lowerBounded t lb && upperBounded t ub) = false := by simpa using hbounded
      rw [if_neg hbounded]
      by_cases hneither : (!lowerBounded t lb && !upperBounded t ub) = true
      · have hboth : lowerBounded t lb = false ∧ upperBounded t ub = false := by simpa using hneither
        rw [rootBack_length_iff hn hw hcond (by simpa using hboth)]
        exact ⟨fun h => ⟨hboth.1, hboth.2, h⟩, fun h => h.2.2⟩
      · -- the semi-constrained case writes and reads nothing
        have hcond' : ¬ (!true || (!lowerBounded t lb && !upperBounded t ub)) = true := by simpa using hneither
        refine iff_of_false ?_ fun h => hneither (by rw [h.1, h.2.1]; rfl)
        rintro ⟨w', -, hback⟩
        refine not_readBack_of_unset (fun n₀ r => ?_) hback
        rw [unpackRoot, hcond, if_neg (by decide), if_neg hcond']

theorem readBack_marker_iff (unpack : Bool → CbitRef → Except BitFault (Option (Int × CbitRef))) {b : Bool} {w' : BitRef}
    (happend : ∃ field, w'.Holds (bits ++ toBits 1 (!b).toNat ++ field)) :
    ReadBack (fun r => handleCode (CbitRef.unpackValue r 8 1) fun ext => unpack (ext.1 == 0) ext.2) n bits w' ↔
      ReadBack (unpack b) n (bits ++ toBits 1 (!b).toNat) w' := by
  have hmarker : ((!b).toNat % 2 ^ 1 == 0) = b := by cases b <;> rfl
  have hread : ∀ bytes tail, bitsOf bytes = bits ++ (toBits 1 (!b).toNat ++ tail) →
      (handleCode (CbitRef.unpackValue (at' bytes bits.length) 8 1) fun ext => unpack (ext.1 == 0) ext.2) =
        unpack b (at' bytes (bits ++ toBits 1 (!b).toNat).length) := by
    intro bytes tail hbytes
    rw [CbitRef.unpackValue_field hbytes (by decide), List.length_append, length_toBits]
    dsimp only [handleCode]
    rw [hmarker]
  constructor
  · rintro ⟨field₀, hw₀, hback⟩
    obtain ⟨field, hw'⟩ := happend
    have hfield : field₀ = toBits 1 (!b).toNat ++ field := by
      have := hw₀.unique hw'
      rwa [List.append_assoc, List.append_cancel_left_eq] at this
    refine ⟨field, hw', fun bytes tail hbytes => ?_⟩
    have hbytes' : bitsOf bytes = bits ++ (toBits 1 (!b).toNat ++ field ++ tail) := by
      rw [hbytes]
      simp only [List.append_assoc]
    have hres := hback bytes tail (by rw [hfield, hbytes'])
    rw [List.append_assoc] at hbytes'
    rw [(hread bytes _ hbytes').symm.trans hres, hfield]
    simp only [List.length_append, Nat.add_assoc]
  · rintro ⟨field, hw', hback⟩
    rw [List.append_assoc] at hw'
    refine ⟨_, hw', fun bytes tail hbytes => ?_⟩
    have hbytes' : bitsOf bytes = bits ++ (toBits 1 (!b).toNat ++ (field ++ tail)) := by
      rw [hbytes]
      simp only [List.append_assoc]
    refine (hread bytes _ hbytes').trans ?_
    rw [hback bytes tail (by rw [hbytes']; simp only [List.append_assoc])]
    simp only [List.length_append, Nat.add_assoc]

theorem within_iff : within lb ub n = true ↔ lb ≤ n ∧ n ≤ ub := by
  rw [within, Bool.and_eq_true, decide_eq_true_eq, decide_eq_true_eq]

theorem roundTrips_iff (hlb : t.Has lb) (hub : t.Has ub) (hle : lb ≤ ub) (hn : t.Has n) :
    RoundTrips t lb ub hasExt aligned n ↔ IntegerFits t lb ub hasExt aligned n := by
  have hroot : ∀ w bits, w.Holds bits → (RootBack t lb ub aligned n (within lb ub n) w bits ↔
      RootFits t lb ub aligned n (within lb ub n)) :=
    fun w bits hw => rootBack_iff hlb hub hle hn within_iff.mp hw
  have happends : ∀ w bits, BitWriter.Holds w bits → ∀ res,
      packRoot .rounded t w n lb ub (within lb ub n) aligned = .ok res →
        ∃ w' field, res = some w' ∧ w'.Holds (bits ++ field) :=
    fun w bits hw res h => packRoot_appends hn within_iff.mp hw h
  cases hasExt with
  | false =>
    have hunpack : ∀ n₀ r, unpackInteger .rounded t r n₀ lb ub false aligned = unpackRoot .rounded t r n₀ lb ub true aligned :=
      fun _ _ => rfl
    by_cases hin : within lb ub n = true
    · have hpack : ∀ w, packInteger .rounded t w n lb ub false aligned = packRoot .rounded t w n lb ub true aligned := by
        intro w
        rw [packInteger, ← within, hin]
        rfl
      rw [hin] at hroot happends
      have hfits : IntegerFits t lb ub false aligned n ↔ RootFits t lb ub aligned n true := by
        rw [IntegerFits, RootFits, hin]
        rfl
      rw [hfits]
      constructor
      · intro h
        obtain ⟨res, hres, hback⟩ := h _ _ (Holds.start [])
        rw [hpack] at hres
        obtain ⟨w', -, rfl, -⟩ := happends _ _ (Holds.start []) res hres
        exact (hroot _ _ (Holds.start [])).mp ⟨w', hres, hback w' rfl⟩
      · intro h w bits hw
        obtain ⟨w', hres, hback⟩ := (hroot w bits hw).mpr h
        refine ⟨some w', (hpack w).trans hres, ?_⟩
        rintro _ ⟨⟩
        exact hback
    · have hout : within lb ub n = false := by simpa using hin
      refine iff_of_true (fun w bits hw => ⟨none, ?_, fun w' h => by cases h⟩) ?_
      · rw [packInteger, ← within, hout]
        rfl
      · rw [IntegerFits, hout]
        intro h
        cases h
  | true =>
    have hpack : ∀ w, packInteger .rounded t w n lb ub true aligned = (BitRef.pack w (!within lb ub n).toNat 1 >>= fun w =>
        packRoot .rounded t w n lb ub (within lb ub n) aligned) := fun _ => rfl
    have hunpack : ∀ n₀ r, unpackInteger .rounded t r n₀ lb ub true aligned =
        handleCode (CbitRef.unpackValue r 8 1) fun ext => unpackRoot .rounded t ext.2 n₀ lb ub (ext.1 == 0) aligned :=
      fun _ _ => rfl
    have hfits : IntegerFits t lb ub true aligned n ↔ RootFits t lb ub aligned n (within lb ub n) := by
      rw [IntegerFits, RootFits]
      cases within lb ub n <;> simp
    rw [hfits]
    constructor
    · intro h
      obtain ⟨res, hres, hback⟩ := h _ _ (Holds.start [])
      obtain ⟨w₁, hpack₁, h₁⟩ := BitRef.pack_ok (Holds.start []) (!within lb ub n).toNat (show 1 < 64 by decide)
      rw [hpack, hpack₁] at hres
      obtain ⟨w', field, rfl, hw'⟩ := happends _ _ h₁ res hres
      refine (hroot _ _ h₁).mp ⟨w', hres, fun n₀ => ?_⟩
      exact (readBack_marker_iff (fun b r => unpackRoot .rounded t r n₀ lb ub b aligned) ⟨field, hw'⟩).mp
        (hback w' rfl n₀)
    · intro h w bits hw
      obtain ⟨w₁, hpack₁, h₁⟩ := BitRef.pack_ok hw (!within lb ub n).toNat (show 1 < 64 by decide)
      obtain ⟨w', hres, hback⟩ := (hroot _ _ h₁).mpr h
      obtain ⟨w'', field, hw', hholds⟩ := happends _ _ h₁ _ hres
      cases hw'
      refine ⟨some w', ?_, ?_⟩
      · rw [hpack, hpack₁]
        exact hres
      · rintro _ ⟨⟩ n₀
        exact (readBack_marker_iff (fun b r => unpackRoot .rounded t r n₀ lb ub b aligned) ⟨field, hholds⟩).mpr
          (hback n₀)

end Root

section Safety

variable {t lb ub hasExt aligned} {bytes : List UInt8} {pos : Nat}

theorem handleCode_returns {α β : Type} {x : Except BitFault (Option α)} {f : α → Except BitFault (Option β)}
    (hx : ∃ o, x = .ok o) (hf : ∀ a, x = .ok (some a) → ∃ res, f a = .ok res) : ∃ res, handleCode x f = .ok res := by
  obtain ⟨o, rfl⟩ := hx
  cases o with
  | none => exact ⟨none, rfl⟩
  | some a => exact hf a rfl

theorem unpackValue_returns (hpos : pos ≤ 8 * bytes.length) {tBits k : Nat} (hk : k ≤ tBits) :
    ∃ o, CbitRef.unpackValue (at' bytes pos) tBits k = .ok o :=
  ⟨_, CbitRef.unpackValue_at hpos hk⟩

theorem unpackConstrained_returns (hlb : t.Has lb) (hub : t.Has ub) (hlt : lb < ub) (hfull : ub - lb + 1 < 2 ^ 64)
    (hover : ¬ RangeOverflows t lb ub) (hpos : pos ≤ 8 * bytes.length) :
    ∃ res, unpackConstrainedWholeNumber .rounded t (at' bytes pos) lb ub aligned = .ok res := by
  have ⟨hrange, (hwidth : fieldBits .rounded _ = _)⟩ := fieldBits_rangeOf hlb hub hlt hfull hover
  have hle := width_le LogWidths.rounded_near hlb hub hlt hfull
  have hle' := range_le hlb hub
  rw [unpackConstrainedWholeNumber_eq hlt.le (by omega) hwidth, hrange]
  split_ifs with hbits hoctets
  · exact handleCode_returns (unpackValue_returns hpos hle) fun _ _ => ⟨_, rfl⟩
  · have hmod : t.nofBits % 8 = 0 := by cases t <;> rfl
    have h64 := nofBits_le t
    have hceil := ceilFrac_eq (show LogWidths.rounded.fieldBits (ub - lb + 1).toNat < 2 ^ 31 by omega)
    refine handleCode_returns ⟨_, CbitRef.alignValue_at hpos⟩ fun r halign => ?_
    obtain ⟨pos₁, rfl, hpos₁⟩ := CbitRef.alignValue_some hpos halign
    refine handleCode_returns (unpackValue_returns hpos₁ (by omega)) fun val hval => ?_
    obtain ⟨-, hnext, hpos₂⟩ := CbitRef.unpackValue_some hpos₁ hval
    rw [hnext]
    exact handleCode_returns ⟨_, CbitRef.alignValue_at hpos₂⟩ fun _ _ => ⟨_, rfl⟩
  · have hlen := lengthBits_eq LogWidths.rounded_near (show 65536 < (ub - lb + 1).toNat by omega) (by omega)
    refine handleCode_returns (unpackValue_returns hpos (by rw [hlen]; split_ifs <;> decide)) fun len hval => ?_
    obtain ⟨hlenlt, hnext, hpos₁⟩ := CbitRef.unpackValue_some hpos hval
    rw [hnext]
    refine handleCode_returns ⟨_, CbitRef.alignValue_at hpos₁⟩ fun r halign => ?_
    obtain ⟨pos₂, rfl, hpos₂⟩ := CbitRef.alignValue_some hpos₁ halign
    refine handleCode_returns (unpackValue_returns hpos₂ ?_) fun _ _ => ⟨_, rfl⟩
    rw [hlen] at hlenlt
    cases t with
    | int8 | uint8 | int16 | uint16 =>
      simp only [IntType.nofBits] at hle'
      omega
    | int32 | uint32 =>
      simp only [IntType.nofBits] at hle' ⊢
      rw [if_pos (LogWidths.rounded_near.fieldBits_le (by omega) (by omega) (show (ub - lb + 1).toNat ≤ 2 ^ 32 by omega))]
        at hlenlt
      omega
    | int64 | uint64 =>
      have h8 : len.1 < 8 := hlenlt.trans_le (by split_ifs <;> decide)
      simp only [IntType.nofBits]
      omega

theorem unpackConstrained_faults (hlb : t.Has lb) (hub : t.Has ub) (hover : RangeOverflows t lb ub) :
    ∃ e, unpackConstrainedWholeNumber .rounded t (at' ones 0) lb ub aligned = .error e := by
  have hge := hover.2
  rcases rangeOf_overflow hlb hub hover with ⟨-, hzero⟩ | ⟨-, hhuge, hlt⟩
  · refine ⟨.conversion, ?_⟩
    rw [unpackConstrainedWholeNumber, if_neg (by omega), hzero]
    rfl
  · obtain ⟨rfl, -⟩ := hover
    refine ⟨.nofBits, ?_⟩
    rw [unpackConstrainedWholeNumber_eq (by omega) (by omega) (fieldBits_overflow LogWidths.rounded_near hhuge hlt)]
    have hlarge : ¬ rangeOf .int32 lb ub < 256 := by omega
    have h64 : ¬ 64 ≤ IntType.int32.nofBits := by decide
    cases aligned with
    | false =>
      rw [if_pos (by rfl), CbitRef.unpackValue, CbitRef.unpack, if_neg h64]
      rfl
    | true =>
      have hlen := lengthBits_64 LogWidths.rounded_near
      have hoct : (2 ^ 3 - 1 + 1) * 8 = 64 := rfl
      rw [if_neg (by simpa using hlarge), if_neg (by omega), hlen, unpackValue_ones (by decide) (by decide)]
      dsimp only [handleCode]
      rw [alignValue_ones (by decide)]
      dsimp only [handleCode]
      rw [hoct, CbitRef.unpackValue, CbitRef.unpack, if_neg h64]
      rfl

theorem unpackRoot_faults (bytes : List UInt8) (pos pos' : Nat) {withinBounds : Bool} (n₀ : Int)
    (hcond : (withinBounds && lowerBounded t lb && upperBounded t ub) = false)
    (hcond' : (!withinBounds || (!lowerBounded t lb && !upperBounded t ub)) = true)
    (hlen : unpackLength (at' bytes pos) aligned = .ok (some (10, at' bytes pos')))
    (halign : aligned = true → CbitRef.alignValue (at' bytes pos') = .ok (some (at' bytes pos'))) :
    unpackRoot .rounded t (at' bytes pos) n₀ lb ub withinBounds aligned = .error .nofBits := by
  have h80 : ¬ 10 * 8 ≤ t.nofBits := by
    have := nofBits_le t
    omega
  have hstart : (if aligned then CbitRef.alignValue (at' bytes pos') else .ok (some (at' bytes pos'))) =
      .ok (some (at' bytes pos')) := by
    cases aligned with
    | false => rfl
    | true => exact halign rfl
  rw [unpackRoot, hcond, hcond', if_neg (by decide), if_pos rfl, hlen]
  dsimp only [handleCode]
  rw [unpackUnconstrainedWholeNumber, hstart]
  dsimp only [handleCode]
  rw [CbitRef.unpackValue, CbitRef.unpack, if_neg h80]
  rfl

theorem decoderSafe_iff (hlb : t.Has lb) (hub : t.Has ub) (hle : lb ≤ ub) :
    DecoderSafe t lb ub hasExt aligned ↔ DecodeFits t lb ub hasExt := by
  constructor
  · intro hsafe
    have hext : hasExt = false := by
      by_contra hext
      rw [Bool.not_eq_false] at hext
      subst hext
      -- after the marker a length of ten is read, aligned or not
      obtain ⟨res, hres⟩ := hsafe [0x85, 0x0a] 0 0 (by decide)
      have hmark : CbitRef.unpackValue (at' [0x85, 0x0a] 0) 8 1 = .ok (some (1, at' [0x85, 0x0a] 1)) := by decide +kernel
      have hfault : unpackRoot .rounded t (at' [0x85, 0x0a] 1) 0 lb ub false aligned = .error .nofBits := by
        cases aligned with
        | false => exact unpackRoot_faults [0x85, 0x0a] 1 9 0 rfl rfl (by decide +kernel) (fun h => by cases h)
        | true => exact unpackRoot_faults [0x85, 0x0a] 1 16 0 rfl rfl (by decide +kernel) (fun _ => by decide +kernel)
      rw [unpackInteger, if_pos rfl, hmark] at hres
      exact absurd (hfault.symm.trans hres) (by simp)
    subst hext
    refine ⟨rfl, ?_, fun hbounded hover => ?_⟩
    · by_contra hneither
      rw [Bool.not_eq_true, Bool.or_eq_false_iff] at hneither
      obtain ⟨res, hres⟩ := hsafe [0x0a] 0 0 (by decide)
      have hfault : unpackRoot .rounded t (at' [0x0a] 0) 0 lb ub true aligned = .error .nofBits := by
        have hcond : (true && lowerBounded t lb && upperBounded t ub) = false := by rw [hneither.1]; rfl
        have hcond' : (!true || (!lowerBounded t lb && !upperBounded t ub)) = true := by rw [hneither.1, hneither.2]; rfl
        cases aligned with
        | false => exact unpackRoot_faults [0x0a] 0 8 0 hcond hcond' (by decide +kernel) (fun h => by cases h)
        | true => exact unpackRoot_faults [0x0a] 0 8 0 hcond hcond' (by decide +kernel) (fun _ => by decide +kernel)
      exact absurd (hfault.symm.trans hres) (by simp)
    · obtain ⟨res, hres⟩ := hsafe ones 0 0 (by decide)
      obtain ⟨e, hfault⟩ : ∃ e, unpackConstrainedWholeNumber .rounded t (at' ones 0) lb ub aligned = .error e :=
        unpackConstrained_faults hlb hub hover
      have hne : lb ≠ ub := by
        have := hover.2
        omega
      have hcond : (true && lowerBounded t lb && upperBounded t ub) = true := hbounded
      rw [unpackInteger, if_neg (by decide), unpackRoot, if_pos hcond, if_neg hne, hfault] at hres
      cases hres
  · rintro ⟨rfl, hor, hover⟩ bytes pos n₀ hpos
    rw [unpackInteger, if_neg (by decide), unpackRoot]
    by_cases hbounded : (lowerBounded t lb && upperBounded t ub) = true
    · have hcond : (true && lowerBounded t lb && upperBounded t ub) = true := hbounded
      rw [if_pos hcond]
      by_cases heq : lb = ub
      · rw [if_pos heq]
        exact ⟨_, rfl⟩
      · rw [if_neg heq]
        exact unpackConstrained_returns hlb hub (lt_of_le_of_ne hle heq) (range_lt_of_bounded hlb hub hbounded)
          (hover hbounded) hpos
    · have hcond : ¬ (true && lowerBounded t lb && upperBounded t ub) = true := hbounded
      have hcond' : ¬ (!true || (!lowerBounded t lb && !upperBounded t ub)) = true := by
        cases hl : lowerBounded t lb <;> cases hu : upperBounded t ub <;> simp_all
      rw [if_neg hcond, if_neg hcond']
      exact ⟨_, rfl⟩

end Safety

/-- Exactly these integers come back whenever they are packed, and the decoder is safe exactly for these types. -/
theorem integer_correct_iff (hlb : t.Has lb) (hub : t.Has ub) (hle : lb ≤ ub) (hn : t.Has n) :
    (RoundTrips t lb ub hasExt aligned n ↔ IntegerFits t lb ub hasExt aligned n) ∧
      (DecoderSafe t lb ub hasExt aligned ↔ DecodeFits t lb ub hasExt) :=
  ⟨roundTrips_iff hlb hub hle hn, decoderSafe_iff hlb hub hle⟩

theorem integer_correct_iff_small :
    (RoundTrips .uint8 0 100 true true 7 ↔ IntegerFits .uint8 0 100 true true 7) ∧
      (DecoderSafe .uint8 0 100 true true ↔ DecodeFits .uint8 0 100 true) :=
  integer_correct_iff .uint8 0 100 true true 7 (by decide) (by decide) (by decide) (by decide)

/-- The bounds of all values of an octet make it semi-constrained: nothing is written, and nothing is read. -/
theorem semiConstrained_lost : ¬ ∀ (t : IntType) (lb ub : Int) (hasExt aligned : Bool) (n : Int), t.Has lb → t.Has ub →
    lb ≤ ub → t.Has n → RoundTrips t lb ub hasExt aligned n ∧ DecoderSafe t lb ub hasExt aligned := by
  intro h
  have hround := (h .uint8 0 255 false false 5 (by decide) (by decide) (by decide) (by decide)).1
  have hfits := (roundTrips_iff (by decide) (by decide) (by decide) (by decide)).mp hround
  rw [IntegerFits, if_pos (by decide), if_neg (by decide)] at hfits
  exact absurd hfits.1 (by decide)

end Ocudu.Asn1
