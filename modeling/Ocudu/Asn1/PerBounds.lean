import Ocudu.Asn1.PerConstrained

/-! The bounds for which the constrained encoding brings back every integer, decodes nothing out of range and uses the
least width. -/

namespace Ocudu.Asn1

open BitCodec BitReader BitWriter

variable (logs : LogWidths) (t : IntType) (lb ub : Int) (aligned : Bool) (n : Int)

section Exact

variable {logs t lb ub aligned n} {top32 top63 margin : Nat} {w : BitRef} {bits : List Bool}

theorem rangeOf_of_eq (t : IntType) (h : lb = ub) : rangeOf t lb ub = 1 := by
  rw [rangeOf, h, Int.sub_self, IntType.wrap_of_has]
  · rfl
  · cases t <;> decide

theorem roundTripsAt_of_eq (t : IntType) (aligned : Bool) (hn : lb = ub) (hlow : lb ≤ n) (hhigh : n ≤ ub) :
    RoundTripsAt logs t lb ub aligned n := by
  have hrange := rangeOf_of_eq t hn
  obtain rfl : lb = n := by omega
  intro w bits hw
  refine ⟨w, ?_, [], by rwa [List.append_nil], fun bytes tail _ => ?_⟩
  · rw [packConstrainedWholeNumber, if_neg (by omega), if_pos hrange]
  · show unpackConstrainedWholeNumber logs t (at' bytes bits.length) lb ub aligned = _
    rw [unpackConstrainedWholeNumber, if_neg (by omega), if_pos hrange]
    rfl

theorem nofBits_le (t : IntType) : t.nofBits ≤ 64 := by
  cases t <;> decide

theorem range_le (hlb : t.Has lb) (hub : t.Has ub) : ub - lb + 1 ≤ 2 ^ t.nofBits := by
  have hmax := t.max_add_one
  have hlow := hlb.1
  have hhigh := hub.2
  omega

theorem fieldBits_rangeOf (hlb : t.Has lb) (hub : t.Has ub) (hlt : lb < ub) (hfull : ub - lb + 1 < 2 ^ 64)
    (hover : ¬ RangeOverflows t lb ub) : rangeOf t lb ub = (ub - lb + 1).toNat ∧
    fieldBits logs (rangeOf t lb ub) = .ok (logs.fieldBits (ub - lb + 1).toNat) := by
  have hrange : rangeOf t lb ub = (ub - lb + 1).toNat := by
    rw [rangeOf_eq hlb hub hlt.le hover]
    lia
  exact ⟨hrange, by rw [hrange, fieldBits_eq (by omega)]⟩

variable (hnear : logs.Near top32 top63 margin)

include hnear

theorem width_le (hlb : t.Has lb) (hub : t.Has ub) (hlt : lb < ub) (hfull : ub - lb + 1 < 2 ^ 64) :
    logs.fieldBits (ub - lb + 1).toNat ≤ t.nofBits := by
  have hrange := range_le hlb hub
  exact hnear.fieldBits_le (by omega) (by omega) (Int.toNat_le.mpr (by exact_mod_cast hrange))

theorem fieldBits_lt_64_iff {ra : Nat} (hra : ra ≠ 0) (hlt : ra < 2 ^ 64) : logs.fieldBits ra < 64 ↔ ra ≤ top63 := by
  rcases Nat.lt_or_ge (2 ^ 63) ra with hgt | hle
  · exact Nat.lt_succ_iff.trans (hnear.fieldBits_63 ra hgt hlt)
  · exact iff_of_true (Nat.lt_succ_of_le (hnear.fieldBits_le hra hlt hle)) (hle.trans hnear.top.2.1)

theorem fieldBits_le_32_iff {ra : Nat} (hra : ra ≠ 0) (hlt : ra < 2 ^ 64) :
    logs.fieldBits ra ≤ 32 ↔ ra ≤ top32 := by
  rcases Nat.lt_or_ge (2 ^ 32) ra with hgt | hle
  · exact hnear.fieldBits_32 ra hgt hlt
  · exact iff_of_true (hnear.fieldBits_le hra hlt hle) (hle.trans hnear.top.1)

theorem range_le_of_not_down (hlt : lb < ub) (hfull : ub - lb + 1 < 2 ^ 64) (hle : (ub - lb + 1).toNat ≤ top63)
    (hdown : ¬ logs.Down (ub - lb + 1).toNat) : ub - lb + 1 ≤ 2 ^ 63 := by
  have hra : (ub - lb + 1).toNat ≠ 0 := by omega
  have h64 := (fieldBits_lt_64_iff hnear hra (by omega)).mpr hle
  have hclog := (not_lt.mp hdown).trans (Nat.lt_succ_iff.mp h64)
  have := (Nat.clog_le_iff_le_pow (show 1 < 2 by decide)).mp hclog
  omega

theorem roundTripsFrom_unaligned (hlb : t.Has lb) (hub : t.Has ub) (hlt : lb < ub) (hfull : ub - lb + 1 < 2 ^ 64)
    (hlow : lb ≤ n) (hhigh : n ≤ ub) (hover : ¬ RangeOverflows t lb ub) (hw : w.Holds bits) :
    RoundTripsFrom logs t lb ub false n w bits ↔ (ub - lb + 1).toNat ≤ top63 ∧
      (logs.Down (ub - lb + 1).toNat → n - lb < 2 ^ Nat.log 2 (ub - lb + 1).toNat) := by
  obtain ⟨ra, hra⟩ : ∃ ra, (ub - lb + 1).toNat = ra := ⟨_, rfl⟩
  have ⟨hrange, (hwidth : fieldBits logs _ = _)⟩ := fieldBits_rangeOf hlb hub hlt hfull hover
  have hle := width_le hnear hlb hub hlt hfull
  rw [hra] at hrange hwidth hle ⊢
  rw [roundTrips_bits_iff hlb hub hlow hhigh (by omega) hwidth (.inl rfl) (fun _ => hle) hw,
    fieldBits_lt_64_iff hnear (by omega) (by omega)]
  refine and_congr_right fun _ => ?_
  rcases hnear.fieldBits_cases (show ra ≠ 0 by omega) (by omega) with ⟨hdown, hw, -⟩ | ⟨hdown, -⟩
  · have hcast : ((2 ^ Nat.log 2 ra : Nat) : Int) = 2 ^ Nat.log 2 ra := by norm_num
    rw [hw]
    exact ⟨fun hv _ => by omega, fun hv => by have := hv hdown; omega⟩
  · exact iff_of_true (LogWidths.lt_pow_fieldBits (by omega) hdown) fun h => absurd h hdown

theorem roundTripsFrom_aligned (hlb : t.Has lb) (hub : t.Has ub) (hlt : lb < ub) (hfull : ub - lb + 1 < 2 ^ 64)
    (hlow : lb ≤ n) (hhigh : n ≤ ub) (hover : ¬ RangeOverflows t lb ub)
    (hw : w.Holds bits) : RoundTripsFrom logs t lb ub true n w bits ↔ if ub - lb + 1 ≤ 2 ^ 32 then True
      else if (ub - lb + 1).toNat ≤ top32 then n - lb < 2 ^ 32 else n - lb + margin < 2 ^ 56 := by
  obtain ⟨ra, hra⟩ : ∃ ra, (ub - lb + 1).toNat = ra := ⟨_, rfl⟩
  have ⟨hrange, (hwidth : fieldBits logs _ = _)⟩ := fieldBits_rangeOf hlb hub hlt hfull hover
  have hle := width_le hnear hlb hub hlt hfull
  rw [hra] at hrange hwidth hle ⊢
  by_cases h64k : ra ≤ 65536
  · have hv : (n - lb).toNat < 2 ^ logs.fieldBits ra := LogWidths.lt_pow_fieldBits (by omega) (hnear.small ra (by omega))
    have h16 := hnear.fieldBits_le (k := 16) (show ra ≠ 0 by omega) (by omega) h64k
    rw [if_pos (by omega)]
    refine iff_of_true ?_ trivial
    by_cases h256 : ra < 256
    · exact (roundTrips_bits_iff hlb hub hlow hhigh (by omega) hwidth (.inr (by omega)) (fun _ => hle) hw).mpr
        ⟨by omega, hv⟩
    have hoctets : (logs.fieldBits ra + 7) / 8 * 8 ≤ t.nofBits := by
      have hmod : t.nofBits % 8 = 0 := by cases t <;> rfl
      omega
    exact CodedAs.roundTrips hlb hub hlow hhigh (codedAs_octets hlow hhigh (by omega) hwidth rfl (by omega)
      (by omega) (ceilFrac_eq (by omega)) (by omega) (by omega) hoctets hv hw)
  · have hsize : t.nofBits = 32 ∨ t.nofBits = 64 := by
      have hle' := range_le hlb hub
      cases t with
      | int8 | uint8 | int16 | uint16 =>
        simp only [IntType.nofBits] at hle'
        lia
      | int32 | uint32 => exact .inl rfl
      | int64 | uint64 => exact .inr rfl
    have hlen := lengthBits_eq hnear (show 65536 < ra by omega) (show ra < 2 ^ 64 by omega)
    have h32 := fieldBits_le_32_iff hnear (show ra ≠ 0 by omega) (by omega)
    have hmin := t.min_nonpos
    have hmargin := hnear.top.2.2.2
    have hbig : t.max < n - lb → 256 ≤ n - lb := by
      have hmaxeq := t.max_add_one
      have hhalf : 256 ≤ t.max := by
        revert hsize
        cases t <;> decide
      omega
    rw [roundTrips_length_iff hnear hlb hub hlow hhigh (by omega) hwidth rfl (by omega) hlen (by split_ifs <;> omega) hsize
      hbig hw, valueBits_le_56_iff hnear (by omega), valueBits_le_32_iff hnear (by omega)]
    have hmax : n - lb < 2 ^ 32 → n - lb ≤ t.max := by
      intro h32
      obtain ⟨hlow', -⟩ := hlb
      obtain ⟨-, hhigh'⟩ := hub
      cases t <;> simp [IntType.min, IntType.max, IntType.isSigned, IntType.nofBits, RangeOverflows] at * <;> omega
    have hmax64 : n - lb + margin < 2 ^ 56 → t.nofBits = 64 → n - lb ≤ t.max := by
      intro h56 h64
      cases t <;> simp [IntType.max, IntType.isSigned, IntType.nofBits] at * <;> omega
    have h64 : 2 ^ 32 < ub - lb + 1 → t.nofBits = 64 := by
      intro hgt
      have hle' := range_le hlb hub
      rcases hsize with h | h
      · rw [h] at hle'
        omega
      · exact h
    by_cases h1 : ub - lb + 1 ≤ 2 ^ 32
    · rw [if_pos h1]
      exact iff_of_true ⟨hmax (by omega), by omega, .inl (by omega)⟩ trivial
    rw [if_neg h1]
    by_cases h2 : ra ≤ top32
    · rw [if_pos h2, if_pos (h32.mpr h2)]
      exact ⟨fun h => by omega, fun h => ⟨hmax h, by omega, .inl (by omega)⟩⟩
    · rw [if_neg h2, if_neg (mt h32.mp h2)]
      exact ⟨fun h => by omega, fun h => ⟨hmax64 h (h64 (by omega)), by omega, .inr (Nat.le_refl 3)⟩⟩

theorem fieldBits_overflow (hhuge : 2 ^ 64 - 2 ^ 31 < rangeOf t lb ub) (hlt : rangeOf t lb ub < 2 ^ 64) :
    fieldBits logs (rangeOf t lb ub) = .ok 64 := by
  have hra : rangeOf t lb ub ≠ 0 := by omega
  have hle := hnear.fieldBits_le hra hlt hlt.le
  have hgt := mt (fieldBits_lt_64_iff hnear hra hlt).mp (by have := hnear.top.2.2.1; omega)
  have h64 : logs.fieldBits (rangeOf t lb ub) = 64 := by omega
  rw [fieldBits_eq hra, h64]

theorem lengthBits_64 : lengthBits logs 64 = 3 := hnear.lengthBits 8 (by decide) (by decide)

theorem roundTripsFrom_overflow (hlb : t.Has lb) (hub : t.Has ub) (hlow : lb ≤ n) (hhigh : n ≤ ub)
    (hover : RangeOverflows t lb ub) (hw : w.Holds bits) :
    RoundTripsFrom logs t lb ub aligned n w bits ↔ aligned = true ∧ ub - lb + 1 < 2 ^ 32 ∧ n - lb < 2 ^ 31 := by
  have hover' := hover
  obtain ⟨rfl, hge⟩ := hover'
  rcases rangeOf_overflow hlb hub hover with ⟨hfull, hzero⟩ | ⟨hfull, hhuge, hlt⟩
  · refine iff_of_false (not_roundTrips_of_fault (e := .conversion) ?_) (by omega)
    rw [packConstrainedWholeNumber, if_neg (by omega), hzero]
    rfl
  · have hwidth := fieldBits_overflow hnear hhuge hlt
    cases aligned with
    | false =>
      rw [roundTrips_bits_iff hlb hub hlow hhigh (by omega) hwidth (.inl rfl) (fun h => absurd h (by decide)) hw]
      simp
    | true =>
      have hmax : n - lb ≤ IntType.int32.max ↔ n - lb < 2 ^ 31 := by
        show n - lb ≤ 2 ^ 31 - 1 ↔ _
        omega
      have hbig : IntType.int32.max < n - lb → 256 ≤ n - lb := by
        show 2 ^ 31 - 1 < n - lb → _
        omega
      rw [roundTrips_length_iff hnear hlb hub hlow hhigh (by omega) hwidth rfl (by omega) (lengthBits_64 hnear) (by decide)
        (.inl rfl) hbig hw, hmax, valueBits_le_56_iff hnear (by omega)]
      have hmargin := hnear.top.2.2.2
      constructor
      · rintro ⟨hv, -⟩
        exact ⟨rfl, by omega, hv⟩
      · rintro ⟨-, -, hv⟩
        exact ⟨hv, by omega, .inr (by decide)⟩

end Exact

def DecodesInRange : Prop :=
  ∀ bytes pos n r, pos ≤ 8 * bytes.length →
    unpackConstrainedWholeNumber logs t (at' bytes pos) lb ub aligned = .ok (some (n, r)) → lb ≤ n ∧ n ≤ ub

def topValue (ra : Nat) : Nat :=
  if aligned = false ∨ ra ≤ 256 then 2 ^ Nat.clog 2 ra - 1
  else if ra ≤ 65536 then 2 ^ 16 - 1
  else if ra ≤ 2 ^ 32 then 2 ^ 32 - 1 else 2 ^ 64 - 1

section Decode

variable {logs t lb ub aligned} {top32 top63 margin ra : Nat}

theorem topValue_bits (h : aligned = false ∨ ra < 256) : topValue aligned ra = 2 ^ Nat.clog 2 ra - 1 :=
  if_pos (h.imp_right Nat.le_of_lt)

theorem topValue_256 (aligned : Bool) : topValue aligned 256 = 2 ^ 8 - 1 := by
  rw [topValue, if_pos (.inr (Nat.le_refl 256))]
  rfl

theorem topValue_octets (h : ¬ (aligned = false ∨ ra < 256)) (hne : ra ≠ 256) (hle : ra ≤ 65536) :
    topValue aligned ra = 2 ^ 16 - 1 := by
  rw [not_or] at h
  rw [topValue, if_neg (not_or.mpr ⟨h.1, by have := h.2; omega⟩), if_pos hle]

theorem topValue_length (h : ¬ (aligned = false ∨ ra < 256)) (hgt : ¬ ra ≤ 65536) :
    topValue aligned ra = if ra ≤ 2 ^ 32 then 2 ^ 32 - 1 else 2 ^ 64 - 1 := by
  rw [not_or] at h
  rw [topValue, if_neg (not_or.mpr ⟨h.1, by omega⟩), if_neg hgt]

theorem handleCode_eq_some {α β : Type} {x : Except BitFault (Option α)} {f : α → Except BitFault (Option β)} {b : β} :
    handleCode x f = .ok (some b) ↔ ∃ a, x = .ok (some a) ∧ f a = .ok (some b) := by
  cases x with
  | error e => simp [handleCode]
  | ok o => cases o <;> simp [handleCode]

theorem CbitRef.unpackValue_some {bytes : List UInt8} {pos tBits n : Nat} (hpos : pos ≤ 8 * bytes.length)
    {val : Nat × CbitRef} (h : unpackValue (at' bytes pos) tBits n = .ok (some val)) :
    val.1 < 2 ^ n ∧ val.2 = at' bytes (pos + n) ∧ pos + n ≤ 8 * bytes.length := by
  by_cases hn : n ≤ tBits
  · rw [unpackValue_at hpos hn] at h
    by_cases hfits : pos + n ≤ 8 * bytes.length
    · rw [if_pos hfits] at h
      cases h
      refine ⟨?_, rfl, hfits⟩
      have hlt := ofBits_lt ((rest bytes pos).take n)
      rwa [List.length_take, length_rest, Nat.min_eq_left (by omega)] at hlt
    · rw [if_neg hfits] at h
      cases h
  · rw [unpackValue, unpack, if_neg hn] at h
    cases h

theorem CbitRef.alignValue_some {bytes : List UInt8} {pos : Nat} (hpos : pos ≤ 8 * bytes.length) {r : CbitRef}
    (h : alignValue (at' bytes pos) = .ok (some r)) : ∃ pos', r = at' bytes pos' ∧ pos' ≤ 8 * bytes.length := by
  rw [alignValue_at hpos] at h
  injection h with h
  injection h with h
  exact ⟨_, h.symm, by lia⟩

theorem addLowerBound_inRange (hlb : t.Has lb) {val : Nat × CbitRef} (hval : lb + val.1 ≤ t.max) {n : Int} {r : CbitRef}
    (h : addLowerBound t lb ub val = .ok (some (n, r))) : lb ≤ n ∧ n ≤ ub := by
  rw [addLowerBound_eq, IntType.wrap_of_has ⟨by have := hlb.1; omega, hval⟩] at h
  by_cases hub : ub < lb + val.1
  · rw [if_pos hub] at h
    cases h
  · rw [if_neg hub] at h
    cases h
    omega

variable (hlb : t.Has lb) (hub : t.Has ub) (hlt : lb < ub) (hfull : ub - lb + 1 < 2 ^ 64)
  (hover : ¬ RangeOverflows t lb ub) (hnear : logs.Near top32 top63 margin)

include hlb hub hlt hfull hover hnear

theorem decodesInRange_of_top (hround : aligned = false → ¬ logs.Down (ub - lb + 1).toNat)
    (htop : lb + topValue aligned (ub - lb + 1).toNat ≤ t.max) : DecodesInRange logs t lb ub aligned := by
  obtain ⟨hrange, hwidth⟩ := fieldBits_rangeOf hlb hub hlt hfull hover
  intro bytes pos n r hpos hread
  rw [unpackConstrainedWholeNumber_eq hlt.le (by omega) hwidth, hrange] at hread
  obtain ⟨ra, hra⟩ : ∃ ra, (ub - lb + 1).toNat = ra := ⟨_, rfl⟩
  rw [hra] at hround htop hread
  split_ifs at hread with hbits hoctets
  · have hbits' : aligned = false ∨ ra < 256 := by simpa using hbits
    have hdown : ¬ logs.Down ra := hbits'.elim hround fun hsmall => hnear.small ra (by omega)
    obtain ⟨val, hval, hadd⟩ := handleCode_eq_some.mp hread
    obtain ⟨hvlt, -, -⟩ := CbitRef.unpackValue_some hpos hval
    rw [hnear.fieldBits_eq_clog (by omega) (by omega) hdown] at hvlt
    rw [topValue_bits hbits'] at htop
    exact addLowerBound_inRange hlb (by omega) hadd
  · have hge : ¬ (aligned = false ∨ ra < 256) := by simpa using hbits
    obtain ⟨r₁, halign, hread⟩ := handleCode_eq_some.mp hread
    obtain ⟨pos₁, rfl, hpos₁⟩ := CbitRef.alignValue_some hpos halign
    obtain ⟨val, hval, hread⟩ := handleCode_eq_some.mp hread
    obtain ⟨hvlt, -, -⟩ := CbitRef.unpackValue_some hpos₁ hval
    obtain ⟨r₂, -, hadd⟩ := handleCode_eq_some.mp hread
    refine addLowerBound_inRange hlb ?_ hadd
    rw [hnear.fieldBits_eq_clog (by omega) (by omega) (hnear.small ra (by omega))] at hvlt
    by_cases heq : ra = 256
    · have h8 : Nat.clog 2 256 = 8 := Nat.clog_pow 2 8 (by decide)
      rw [heq, topValue_256] at htop
      rw [heq, h8] at hvlt
      have hsmall : val.1 < 2 ^ 8 := hvlt
      dsimp only
      omega
    · have h16 : Nat.clog 2 ra ≤ 16 := Nat.clog_le_of_le_pow hoctets
      have hoct : ceilFrac (Nat.clog 2 ra) 8 * 8 ≤ 16 := by
        rw [ceilFrac_eq (by omega)]
        omega
      have hsmall := hvlt.trans_le (Nat.pow_le_pow_right (show 0 < 2 by decide) hoct)
      rw [topValue_octets hge heq hoctets] at htop
      dsimp only
      omega
  · have hge : ¬ (aligned = false ∨ ra < 256) := by simpa using hbits
    rw [topValue_length hge hoctets] at htop
    obtain ⟨len, hlen, hread⟩ := handleCode_eq_some.mp hread
    obtain ⟨hlenlt, hnext, hpos₁⟩ := CbitRef.unpackValue_some hpos hlen
    rw [hnext] at hread
    obtain ⟨r₁, halign, hread⟩ := handleCode_eq_some.mp hread
    obtain ⟨pos₁, rfl, hpos₂⟩ := CbitRef.alignValue_some hpos₁ halign
    obtain ⟨val, hval, hadd⟩ := handleCode_eq_some.mp hread
    obtain ⟨hvlt, -, -⟩ := CbitRef.unpackValue_some hpos₂ hval
    refine addLowerBound_inRange hlb ?_ hadd
    rw [lengthBits_eq hnear (by omega) (by omega)] at hlenlt
    by_cases h32 : ra ≤ 2 ^ 32
    · rw [if_pos h32] at htop
      rw [if_pos (hnear.fieldBits_le (by omega) (by omega) h32)] at hlenlt
      have hle : (len.1 + 1) * 8 ≤ 32 := by omega
      have hsmall := hvlt.trans_le (Nat.pow_le_pow_right (show 0 < 2 by decide) hle)
      omega
    · rw [if_neg h32] at htop
      have h8 : len.1 < 8 := hlenlt.trans_le (by split_ifs <;> decide)
      have hle : (len.1 + 1) * 8 ≤ 64 := by omega
      have hsmall := hvlt.trans_le (Nat.pow_le_pow_right (show 0 < 2 by decide) hle)
      omega

def ones : List UInt8 := List.replicate 9 255

omit hlb hub hlt hfull hover hnear

theorem ones_shift {k n : Nat} (h : k + n ≤ 72) : (2 ^ 72 - 1) >>> k % 2 ^ n = 2 ^ n - 1 := by
  apply Nat.eq_of_testBit_eq
  intro i
  rw [Nat.testBit_mod_two_pow, Nat.testBit_shiftRight, Nat.testBit_two_pow_sub_one, Nat.testBit_two_pow_sub_one]
  by_cases hi : i < n
  · simp only [hi, decide_true, Bool.true_and, decide_eq_true_eq]
    omega
  · simp [hi]

theorem unpackValue_ones {pos n tBits : Nat} (hfits : pos + n ≤ 72) (hn : n ≤ tBits) :
    CbitRef.unpackValue (at' ones pos) tBits n = .ok (some (2 ^ n - 1, at' ones (pos + n))) := by
  obtain ⟨k, hk⟩ : ∃ k, 72 = pos + (n + k) := ⟨72 - pos - n, by omega⟩
  have hbits : bitsOf ones = toBits pos ((2 ^ 72 - 1) >>> (n + k)) ++ (toBits n ((2 ^ 72 - 1) >>> k) ++ toBits k (2 ^ 72 - 1)) := by
    have hones : bitsOf ones = toBits 72 (2 ^ 72 - 1) := by decide +kernel
    rw [hones, ← toBits_add, ← toBits_add, ← hk]
  have hread := CbitRef.unpackValue_field hbits hn
  rwa [length_toBits, ones_shift (by omega)] at hread

theorem alignValue_ones {pos : Nat} (h : pos ≤ 72) :
    CbitRef.alignValue (at' ones pos) = .ok (some (at' ones (pos + (8 - pos % 8) % 8))) :=
  CbitRef.alignValue_at h

include hlb hub hlt hfull hover hnear

theorem unpack_ones (hround : aligned = false → ¬ logs.Down (ub - lb + 1).toNat)
    (hlen : aligned = true → ¬ (2 ^ 32 < ub - lb + 1 ∧ (ub - lb + 1).toNat ≤ top32)) :
    ∃ r, unpackConstrainedWholeNumber logs t (at' ones 0) lb ub aligned =
      addLowerBound t lb ub (topValue aligned (ub - lb + 1).toNat, r) := by
  obtain ⟨hrange, hwidth⟩ := fieldBits_rangeOf hlb hub hlt hfull hover
  have hle := width_le hnear hlb hub hlt hfull
  have hle' := range_le hlb hub
  rw [unpackConstrainedWholeNumber_eq hlt.le (by omega) hwidth, hrange]
  obtain ⟨ra, hra⟩ : ∃ ra, (ub - lb + 1).toNat = ra := ⟨_, rfl⟩
  rw [hra] at hround hlen hle ⊢
  split_ifs with hbits hoctets
  · have hbits' : aligned = false ∨ ra < 256 := by simpa using hbits
    have hdown : ¬ logs.Down ra := hbits'.elim hround fun hsmall => hnear.small ra (by omega)
    have h64 := nofBits_le t
    rw [unpackValue_ones (by omega) hle, topValue_bits hbits', hnear.fieldBits_eq_clog (by omega) (by omega) hdown]
    exact ⟨_, rfl⟩
  · have hge : ¬ (aligned = false ∨ ra < 256) := by simpa using hbits
    have hge' : 256 ≤ ra := by
      rw [not_or] at hge
      omega
    have h16 : Nat.clog 2 ra ≤ 16 := Nat.clog_le_of_le_pow hoctets
    have h8 : 8 ≤ Nat.clog 2 ra := (Nat.lt_clog_iff_pow_lt (by decide)).mpr (show 2 ^ 7 < ra by omega)
    rw [hnear.fieldBits_eq_clog (by omega) (by omega) (hnear.small ra (by omega))] at hle ⊢
    have hmod : t.nofBits % 8 = 0 := by cases t <;> rfl
    rw [ceilFrac_eq (by omega), alignValue_ones (by decide)]
    dsimp only [handleCode]
    rw [unpackValue_ones (by omega) (by omega)]
    dsimp only [handleCode]
    rw [alignValue_ones (by omega)]
    by_cases heq : ra = 256
    · have hclog : Nat.clog 2 256 = 8 := Nat.clog_pow 2 8 (by decide)
      rw [heq, topValue_256, hclog]
      exact ⟨_, rfl⟩
    · have h9 : 8 < Nat.clog 2 ra := (Nat.lt_clog_iff_pow_lt (by decide)).mpr (by omega)
      have hoct : (Nat.clog 2 ra + 7) / 8 * 8 = 16 := by omega
      rw [topValue_octets hge heq hoctets, hoct]
      exact ⟨_, rfl⟩
  · have hge : ¬ (aligned = false ∨ ra < 256) := by simpa using hbits
    rw [not_or, Bool.not_eq_false] at hge
    have hlen' := hlen hge.1
    rw [topValue_length (by rw [not_or, Bool.not_eq_false]; exact hge) hoctets, lengthBits_eq hnear (by omega) (by omega)]
    by_cases h32 : ra ≤ 2 ^ 32
    · have hsize : 32 ≤ t.nofBits := by
        cases t with
        | int8 | uint8 | int16 | uint16 =>
          simp only [IntType.nofBits] at hle'
          omega
        | int32 | uint32 | int64 | uint64 => decide
      have hoct : (2 ^ 2 - 1 + 1) * 8 = 32 := rfl
      rw [if_pos (hnear.fieldBits_le (by omega) (by omega) h32), if_pos h32, unpackValue_ones (by decide) (by decide)]
      dsimp only [handleCode]
      rw [alignValue_ones (by decide)]
      dsimp only [handleCode]
      rw [hoct, unpackValue_ones (show 0 + 2 + (8 - (0 + 2) % 8) % 8 + 32 ≤ 72 by decide) hsize]
      exact ⟨_, rfl⟩
    · have hsize : 64 ≤ t.nofBits := by
        cases t with
        | int8 | uint8 | int16 | uint16 | int32 | uint32 =>
          simp only [IntType.nofBits] at hle'
          omega
        | int64 | uint64 => decide
      have hoct : (2 ^ 3 - 1 + 1) * 8 = 64 := rfl
      have h33 := mt (fieldBits_le_32_iff hnear (show ra ≠ 0 by omega) (by omega)).mp (by omega)
      rw [if_neg h33, if_neg h32, unpackValue_ones (by decide) (by decide)]
      dsimp only [handleCode]
      rw [alignValue_ones (by decide)]
      dsimp only [handleCode]
      rw [hoct, unpackValue_ones (show 0 + 3 + (8 - (0 + 3) % 8) % 8 + 64 ≤ 72 by decide) hsize]
      exact ⟨_, rfl⟩

theorem not_decodesInRange (hround : aligned = false → ¬ logs.Down (ub - lb + 1).toNat)
    (hlen : aligned = true → ¬ (2 ^ 32 < ub - lb + 1 ∧ (ub - lb + 1).toNat ≤ top32))
    (htop : t.max < lb + topValue aligned (ub - lb + 1).toNat)
    (hlt' : (topValue aligned (ub - lb + 1).toNat : Int) < 2 ^ t.nofBits) : ¬ DecodesInRange logs t lb ub aligned := by
  intro hdecode
  obtain ⟨r, hread⟩ := unpack_ones hlb hub hlt hfull hover hnear hround hlen
  have hmax := t.max_add_one
  have hlow := hlb.1
  have hhigh := hub.2
  rw [addLowerBound_eq, IntType.wrap_eq_sub htop (by omega), if_neg (by omega)] at hread
  have := (hdecode ones 0 _ _ (Nat.zero_le _) hread).1
  omega

end Decode

def LeastWidth : Prop :=
  ∃ width, fieldBits logs (rangeOf t lb ub) = .ok width ∧ ∀ k, ub - lb + 1 ≤ 2 ^ k ↔ width ≤ k

/-- The difference of the bounds does not wrap around, the range is not rounded down where this takes a bit or an
octet of the length, no field has 64 bits, and the type holds the largest number of the encoding. -/
def BoundsFit : Prop :=
  lb = ub ∨ ¬ RangeOverflows t lb ub ∧
    (if aligned then (ub - lb + 1 ≤ 2 ^ 32 ∨ 2 ^ 32 + 2 ^ 8 < ub - lb + 1) ∧ ub - lb + 5 ≤ 2 ^ 56
      else ¬ RoundsToPow 24 (ub - lb + 1).toNat ∧ ub - lb + 1 ≤ 2 ^ 63) ∧
    lb + topValue aligned (ub - lb + 1).toNat ≤ t.max

section Main

variable {logs t lb ub aligned} {top32 top63 margin : Nat}

theorem leastWidth_iff (hnear : logs.Near top32 top63 margin) (hlb : t.Has lb) (hub : t.Has ub) (hlt : lb < ub)
    (hfull : ub - lb + 1 < 2 ^ 64)
    (hover : ¬ RangeOverflows t lb ub) : LeastWidth logs t lb ub ↔ ¬ logs.Down (ub - lb + 1).toNat := by
  obtain ⟨-, hwidth⟩ := fieldBits_rangeOf hlb hub hlt hfull hover
  obtain ⟨ra, hra⟩ : ∃ ra : Nat, ub - lb + 1 = ra := ⟨(ub - lb + 1).toNat, by omega⟩
  rw [hra, Int.toNat_natCast] at hwidth
  rw [LeastWidth, hwidth, hra, Int.toNat_natCast]
  constructor
  · rintro ⟨width, hok, hleast⟩ hdown
    cases hok
    have hle := (hleast (logs.fieldBits ra)).mpr le_rfl
    exact absurd (Nat.clog_le_of_le_pow (by exact_mod_cast hle)) (not_le.mpr hdown)
  · refine fun hdown => ⟨_, rfl, fun k => ?_⟩
    rw [hnear.fieldBits_eq_clog (by omega) (by omega) hdown, Nat.clog_le_iff_le_pow (by decide)]
    exact_mod_cast Iff.rfl

theorem exact_leastWidth_iff (hlb : t.Has lb) (hub : t.Has ub) (hlt : lb < ub) (hfull : ub - lb + 1 < 2 ^ 64)
    (hover : ¬ RangeOverflows t lb ub) : LeastWidth .exact t lb ub ↔ ¬ RoundsToPow 24 (ub - lb + 1).toNat :=
  (leastWidth_iff LogWidths.exact_near hlb hub hlt hfull hover).trans (not_congr (LogWidths.exact_down_iff _))

theorem topValue_lt (hlb : t.Has lb) (hub : t.Has ub) (hlt : lb < ub) :
    (topValue aligned (ub - lb + 1).toNat : Int) < 2 ^ t.nofBits := by
  have hle := range_le hlb hub
  obtain ⟨ra, hra⟩ : ∃ ra : Nat, ub - lb + 1 = ra := ⟨(ub - lb + 1).toNat, by omega⟩
  rw [hra] at hle
  have hle' : ra ≤ 2 ^ t.nofBits := by exact_mod_cast hle
  rw [hra, Int.toNat_natCast]
  have hkey : topValue aligned ra < 2 ^ t.nofBits := by
    rw [topValue]
    split_ifs with hbits hoctets h32
    · have hpow : 2 ^ Nat.clog 2 ra ≤ 2 ^ t.nofBits :=
        Nat.pow_le_pow_right (by decide) (Nat.clog_le_of_le_pow hle')
      have := Nat.two_pow_pos (Nat.clog 2 ra)
      omega
    · cases t <;> simp only [IntType.nofBits] at * <;> omega
    · cases t <;> simp only [IntType.nofBits] at * <;> omega
    · cases t <;> simp only [IntType.nofBits] at * <;> omega
  exact_mod_cast hkey

end Main

/-- Every integer comes back, nothing out of range is decoded and the width is the least exactly for these bounds. -/
theorem constrained_correct_iff (hlb : t.Has lb) (hub : t.Has ub) (hle : lb ≤ ub) (hfull : ub - lb + 1 < 2 ^ 64) :
    (∀ n, lb ≤ n → n ≤ ub → RoundTripsAt .exact t lb ub aligned n) ∧ DecodesInRange .exact t lb ub aligned ∧
      (aligned = false → LeastWidth .exact t lb ub) ↔ BoundsFit t lb ub aligned := by
  rcases Int.lt_or_eq_of_le hle with hlt | heq
  · constructor
    · rintro ⟨hround, hdecode, hwidth⟩
      have hstart := Holds.start []
      have hub' := hround ub hle le_rfl _ _ hstart
      have hover : ¬ RangeOverflows t lb ub := by
        intro hover
        have hsmall := (roundTripsFrom_overflow LogWidths.exact_near hlb hub hle le_rfl hover hstart).mp hub'
        have hlarge := hover.2
        omega
      have hleast : aligned = false → ¬ RoundsToPow 24 (ub - lb + 1).toNat := fun hal =>
        (exact_leastWidth_iff hlb hub hlt hfull hover).mp (hwidth hal)
      have hrange : if aligned then (ub - lb + 1 ≤ 2 ^ 32 ∨ 2 ^ 32 + 2 ^ 8 < ub - lb + 1) ∧ ub - lb + 5 ≤ 2 ^ 56
          else ¬ RoundsToPow 24 (ub - lb + 1).toNat ∧ ub - lb + 1 ≤ 2 ^ 63 := by
        cases aligned with
        | true =>
          have hfits := (roundTripsFrom_aligned LogWidths.exact_near hlb hub hlt hfull hle le_rfl hover hstart).mp hub'
          rw [if_pos rfl]
          split_ifs at hfits <;> omega
        | false =>
          have hfits := (roundTripsFrom_unaligned LogWidths.exact_near hlb hub hlt hfull hle le_rfl hover hstart).mp hub'
          exact ⟨hleast rfl, range_le_of_not_down LogWidths.exact_near hlt hfull hfits.1
            (mt (LogWidths.exact_down_iff _).mp (hleast rfl))⟩
      refine .inr ⟨hover, hrange, ?_⟩
      by_contra htop
      refine not_decodesInRange hlb hub hlt hfull hover LogWidths.exact_near
        (fun hal => mt (LogWidths.exact_down_iff _).mp (hleast hal)) (fun hal => ?_) (not_le.mp htop)
        (topValue_lt hlb hub hlt) hdecode
      rw [if_pos hal] at hrange
      omega
    · rintro (heq | ⟨hover, hrange, htop⟩)
      · omega
      have hleast : aligned = false → ¬ RoundsToPow 24 (ub - lb + 1).toNat := by
        rintro rfl
        exact hrange.1
      refine ⟨fun n hlow hhigh w bits hw => ?_, decodesInRange_of_top hlb hub hlt hfull hover LogWidths.exact_near
        (fun hal => mt (LogWidths.exact_down_iff _).mp (hleast hal)) htop, fun hal =>
        (exact_leastWidth_iff hlb hub hlt hfull hover).mpr (hleast hal)⟩
      cases aligned with
      | true =>
        rw [roundTripsFrom_aligned LogWidths.exact_near hlb hub hlt hfull hlow hhigh hover hw]
        rw [if_pos rfl] at hrange
        split_ifs <;> omega
      | false =>
        have h63 : ub - lb + 1 ≤ 2 ^ 63 := hrange.2
        exact (roundTripsFrom_unaligned LogWidths.exact_near hlb hub hlt hfull hlow hhigh hover hw).mpr
          ⟨by omega, fun hdown => absurd ((LogWidths.exact_down_iff _).mp hdown) (hleast rfl)⟩
  · refine iff_of_true ⟨fun n hlow hhigh => roundTripsAt_of_eq t aligned heq hlow hhigh, ?_, fun _ => ?_⟩ (.inl heq)
    · intro bytes pos n r _ hread
      rw [unpackConstrainedWholeNumber, if_neg (by omega), if_pos (rangeOf_of_eq t heq)] at hread
      cases hread
      exact ⟨le_rfl, hle⟩
    · refine ⟨0, by rw [rangeOf_of_eq t heq]; rfl, fun k => ?_⟩
      have hpos : (1 : Int) ≤ 2 ^ k := by exact_mod_cast Nat.one_le_two_pow
      omega

theorem constrained_correct_iff_octet :
    (∀ n, 0 ≤ n → n ≤ 255 → RoundTripsAt .exact .uint8 0 255 false n) ∧ DecodesInRange .exact .uint8 0 255 false ∧
      (false = false → LeastWidth .exact .uint8 0 255) ↔ BoundsFit .uint8 0 255 false :=
  constrained_correct_iff .uint8 0 255 false (by decide) (by decide) (by decide) (by decide)

/-- A byte of ones is decoded as the value below the lower bound. -/
theorem decoded_below_lowerBound : ¬ ∀ (t : IntType) (lb ub : Int) (aligned : Bool), t.Has lb → t.Has ub → lb ≤ ub →
    ub - lb + 1 < 2 ^ 64 →
    (∀ n, lb ≤ n → n ≤ ub → RoundTripsAt .exact t lb ub aligned n) ∧ DecodesInRange .exact t lb ub aligned ∧
      (aligned = false → LeastWidth .exact t lb ub) := by
  intro h
  have hdecode := (h .uint8 1 255 false (by decide) (by decide) (by decide) (by decide)).2.1
  have hread : unpackConstrainedWholeNumber .exact .uint8 (at' [255] 0) 1 255 false = .ok (some (0, at' [255] 8)) := by
    decide +kernel
  exact absurd (hdecode [255] 0 0 _ (Nat.zero_le _) hread).1 (by decide)

end Ocudu.Asn1
