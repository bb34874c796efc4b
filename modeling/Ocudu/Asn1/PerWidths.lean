import Ocudu.Basic.FloatLog
import Ocudu.Basic.FloatRound

/-! The numbers of bits and of octets that `asn1_utils.cpp` computes with `std::log2`, once with the logarithm taken as
exact on its argument and once with the logarithm as the float that it is. -/

namespace Ocudu.Asn1

structure LogWidths where
  /-- `(uint32_t)std::ceil(std::log2((float)ra))` -/
  fieldBits : Nat → Nat
  /-- `(uint32_t)std::ceil(std::log2(n_octets))` -/
  lengthBits : Nat → Nat
  /-- `(uint32_t)std::floor(std::log2(toencode) + 1)` -/
  valueBits : Nat → Nat
  /-- `(IntType)std::ceil((std::log2(n) + 1) / 8.0f)` -/
  octets : Nat → Nat

namespace LogWidths

def exact : LogWidths where
  fieldBits ra := Nat.clog 2 (roundTo 24 ra)
  lengthBits n := Nat.clog 2 n
  valueBits v := Nat.log 2 (roundTo 53 v) + 1
  octets v := (Nat.clog 2 (roundTo 53 v) + 8) / 8

/-- The sum is rounded as well; the quotient by a power of two is a float. -/
noncomputable def rounded : LogWidths where
  fieldBits ra := ⌈floatLog 24 ra⌉₊
  lengthBits n := ⌈floatLog 53 n⌉₊
  valueBits v := ⌊roundFloat 53 (floatLog 53 v + 1)⌋₊
  octets v := ⌈roundFloat 53 (floatLog 53 v + 1) / 8⌉₊

/-- The field is a bit short of the range. -/
def Down (logs : LogWidths) (ra : Nat) : Prop := logs.fieldBits ra < Nat.clog 2 ra

/-- How far the widths are from those of the numbers themselves: fields of 32 and 63 bits are used up to these ranges,
and 56 bits for the numbers that are `margin` below. -/
structure Near (logs : LogWidths) (top32 top63 margin : Nat) : Prop where
  fieldBits : ∀ ra, ra ≠ 0 → ra < 2 ^ 64 → Nat.log 2 ra ≤ logs.fieldBits ra ∧ logs.fieldBits ra ≤ Nat.clog 2 ra
  small : ∀ ra, ra < 2 ^ 17 → ¬ logs.Down ra
  fieldBits_32 : ∀ ra, 2 ^ 32 < ra → ra < 2 ^ 64 → (logs.fieldBits ra ≤ 32 ↔ ra ≤ top32)
  fieldBits_63 : ∀ ra, 2 ^ 63 < ra → ra < 2 ^ 64 → (logs.fieldBits ra ≤ 63 ↔ ra ≤ top63)
  top : 2 ^ 32 ≤ top32 ∧ 2 ^ 63 ≤ top63 ∧ top63 ≤ 2 ^ 64 - 2 ^ 31 ∧ margin < 2 ^ 32
  lengthBits : ∀ n, 3 ≤ n → n ≤ 8 → logs.lengthBits n = if n ≤ 4 then 2 else 3
  valueBits_one : logs.valueBits 1 = 1
  valueBits : ∀ v, v ≠ 0 → v < 2 ^ 64 → Nat.log 2 v < logs.valueBits v ∧ logs.valueBits v ≤ Nat.log 2 v + 2
  valueBits_32 : ∀ v, v ≠ 0 → v < 2 ^ 32 → logs.valueBits v ≤ 32
  valueBits_56 : ∀ v, v ≠ 0 → v < 2 ^ 64 → (logs.valueBits v ≤ 56 ↔ v + margin < 2 ^ 56)

section Near

variable {logs : LogWidths} {top32 top63 margin ra : Nat}

theorem Near.fieldBits_cases (h : logs.Near top32 top63 margin) (hra : ra ≠ 0) (hlt : ra < 2 ^ 64) :
    logs.Down ra ∧ logs.fieldBits ra = Nat.log 2 ra ∧ Nat.clog 2 ra = Nat.log 2 ra + 1 ∨
      ¬ logs.Down ra ∧ logs.fieldBits ra = Nat.clog 2 ra := by
  obtain ⟨hlow, hhigh⟩ := h.fieldBits ra hra hlt
  have hclog : Nat.clog 2 ra ≤ Nat.log 2 ra + 1 :=
    Nat.clog_le_of_le_pow (Nat.lt_pow_succ_log_self (by decide) ra).le
  rw [Down]
  omega

theorem Near.fieldBits_le (h : logs.Near top32 top63 margin) (hra : ra ≠ 0) (hlt : ra < 2 ^ 64) {k : Nat}
    (hk : ra ≤ 2 ^ k) : logs.fieldBits ra ≤ k :=
  (h.fieldBits ra hra hlt).2.trans (Nat.clog_le_of_le_pow hk)

theorem Near.fieldBits_eq_clog (h : logs.Near top32 top63 margin) (hra : ra ≠ 0) (hlt : ra < 2 ^ 64)
    (hdown : ¬ logs.Down ra) : logs.fieldBits ra = Nat.clog 2 ra :=
  Nat.le_antisymm (h.fieldBits ra hra hlt).2 (not_lt.mp hdown)

theorem lt_pow_fieldBits {v : Nat} (hv : v < ra) (hdown : ¬ logs.Down ra) : v < 2 ^ logs.fieldBits ra :=
  (hv.trans_le (Nat.le_pow_clog (by decide) ra)).trans_le (Nat.pow_le_pow_right (by decide) (not_lt.mp hdown))

theorem fieldBits_le_iff {k : Nat} (hfb : Nat.log 2 ra ≤ logs.fieldBits ra ∧ logs.fieldBits ra ≤ Nat.clog 2 ra)
    (h : 2 ^ k < ra) : logs.fieldBits ra ≤ k ↔ Nat.log 2 ra = k ∧ logs.Down ra := by
  have hlog : k ≤ Nat.log 2 ra := Nat.le_log_of_pow_le (by decide) h.le
  have hclog : k < Nat.clog 2 ra := (Nat.lt_clog_iff_pow_lt (by decide)).mpr h
  have hclog' : Nat.clog 2 ra ≤ Nat.log 2 ra + 1 :=
    Nat.clog_le_of_le_pow (Nat.lt_pow_succ_log_self (by decide) ra).le
  rw [Down]
  omega

theorem exact_fieldBits (ra : Nat) : Nat.log 2 ra ≤ exact.fieldBits ra ∧ exact.fieldBits ra ≤ Nat.clog 2 ra := by
  refine ⟨?_, Nat.clog_le_of_le_pow (roundTo_le_pow (by decide) (Nat.le_pow_clog (by decide) ra))⟩
  by_cases hra : ra = 0
  · rw [hra, Nat.log_zero_right]
    exact Nat.zero_le _
  · refine le_trans ?_ (Nat.clog_mono_right 2 (pow_le_roundTo (p := 24) (by decide) (Nat.pow_log_le_self 2 hra)))
    rw [Nat.clog_pow _ _ (by decide)]

theorem exact_fieldBits_le_iff {k : Nat} (hk : 24 ≤ k) : exact.fieldBits ra ≤ k ↔ ra ≤ 2 ^ k + 2 ^ (k - 24) :=
  (Nat.clog_le_iff_le_pow (by decide)).trans (roundTo_le_pow_iff (by decide) hk)

theorem exact_fieldBits_of_lt (h : ra < 2 ^ 24) : exact.fieldBits ra = Nat.clog 2 ra :=
  congrArg (Nat.clog 2) (roundTo_of_lt h)

theorem exact_down_iff (ra : Nat) : exact.Down ra ↔ RoundsToPow 24 ra := by
  rcases Nat.lt_or_ge ra (2 ^ 24) with hlt | hge
  · refine iff_of_false (by rw [Down, exact_fieldBits_of_lt hlt]; exact lt_irrefl _) fun h => ?_
    have := (Nat.pow_le_pow_right (show 0 < 2 by decide) h.1).trans_lt h.2.1
    omega
  · have hlog : 24 ≤ Nat.log 2 ra := Nat.le_log_of_pow_le (by decide) hge
    rw [RoundsToPow, ← exact_fieldBits_le_iff hlog]
    rcases (Nat.pow_log_le_self 2 (show ra ≠ 0 by omega)).eq_or_lt with heq | hgt
    · have hclog := Nat.clog_pow 2 (Nat.log 2 ra) (by decide)
      rw [heq] at hclog
      have hfb := (exact_fieldBits ra).1
      exact iff_of_false (by rw [Down]; omega) fun h => absurd heq h.2.1.ne
    · rw [fieldBits_le_iff (exact_fieldBits ra) hgt]
      exact ⟨fun h => ⟨hlog, hgt, rfl, h⟩, fun h => h.2.2.2⟩

theorem lengthBits_of_pow {clog : Nat → Nat}
    (h : ∀ n k, k = 1 ∨ k = 2 → 2 ^ k < n → n ≤ 2 ^ (k + 1) → clog n = k + 1) (n : Nat) (hlow : 3 ≤ n) (hhigh : n ≤ 8) :
    clog n = if n ≤ 4 then 2 else 3 := by
  split_ifs with h4
  · exact h n 1 (.inl rfl) (by omega) (by omega)
  · exact h n 2 (.inr rfl) (by omega) (by omega)

theorem exact_near : exact.Near (2 ^ 32 + 2 ^ 8) (2 ^ 63 + 2 ^ 39) 4 where
  fieldBits ra _ _ := exact_fieldBits ra
  small ra hsmall := by
    rw [Down, exact_fieldBits_of_lt (by omega)]
    exact lt_irrefl _
  fieldBits_32 ra _ _ := exact_fieldBits_le_iff (by decide)
  fieldBits_63 ra _ _ := exact_fieldBits_le_iff (by decide)
  top := by decide
  lengthBits := lengthBits_of_pow fun n k _ => clog_eq_of_between
  valueBits_one := by decide +kernel
  valueBits v hv _ := by
    have hlow := Nat.log_mono_right (b := 2) (pow_le_roundTo (p := 53) (by decide) (Nat.pow_log_le_self 2 hv))
    have hup := Nat.log_mono_right (b := 2)
      (roundTo_le_pow (p := 53) (by decide) (Nat.lt_pow_succ_log_self (b := 2) (by decide) v).le)
    rw [Nat.log_pow (by decide)] at hlow hup
    exact ⟨Nat.lt_succ_of_le hlow, Nat.succ_le_succ hup⟩
  valueBits_32 v hv hlt := by
    show Nat.log 2 (roundTo 53 v) + 1 ≤ 32
    rw [roundTo_of_lt (by omega)]
    exact Nat.log_lt_of_lt_pow hv hlt
  valueBits_56 v hv _ := by
    have hround := (Nat.two_pow_pos _).trans_le (pow_le_roundTo (p := 53) (by decide) (Nat.pow_log_le_self 2 hv))
    exact (Nat.log_lt_iff_lt_pow (by decide) hround.ne').trans (roundTo_lt_pow_iff (by decide) (by decide))

/-- The range is so close above a power of two that its logarithm is rounded to that of the power. -/
def RoundsDown (ra : Nat) : Prop :=
  2 ^ Nat.log 2 ra < ra ∧ ra * 2 ^ 24 < 2 ^ Nat.log 2 ra * (2 ^ 24 + if Nat.log 2 ra < 32 then 11 else 23)

instance (ra : Nat) : Decidable (RoundsDown ra) := inferInstanceAs (Decidable (_ ∧ _))

theorem log_two_near : (0.6931471803 : ℝ) < Real.log 2 ∧ Real.log 2 < 0.6931471808 :=
  ⟨Real.log_two_gt_d9, Real.log_two_lt_d9⟩

theorem rounded_fieldBits (hra : ra ≠ 0) (hlt : ra < 2 ^ 64) :
    Nat.log 2 ra ≤ rounded.fieldBits ra ∧ rounded.fieldBits ra ≤ Nat.clog 2 ra := by
  have hlog := Nat.log_lt_of_lt_pow hra hlt
  have hclog := Nat.clog_le_of_le_pow hlt.le
  have hlow := le_floatLog (show 8 ≤ 24 by decide) hlog.le (Nat.pow_log_le_self 2 hra)
  have hhigh := floatLog_le (show 8 ≤ 24 by decide) hra hclog (Nat.le_pow_clog (by decide) ra)
  exact ⟨by exact_mod_cast hlow.trans (Nat.le_ceil _), Nat.ceil_le.mpr hhigh⟩

theorem logb_24_le_iff (hra : ra ≠ 0) (k : Nat) :
    (Real.logb 2 (roundFloat 24 (ra : ℝ)) ≤ k + 2 ^ ((4 : Int) - (24 : Nat)) ↔ ra * 2 ^ 24 < 2 ^ k * (2 ^ 24 + 11)) ∧
      (Real.logb 2 (roundFloat 24 (ra : ℝ)) ≤ k + 2 ^ ((5 : Int) - (24 : Nat)) ↔ ra * 2 ^ 24 < 2 ^ k * (2 ^ 24 + 23)) := by
  obtain ⟨hlow, hhigh⟩ := log_two_near
  have hpos : (0 : ℝ) < ra := by exact_mod_cast Nat.pos_of_ne_zero hra
  have hscale : (2 : ℝ) ^ ((k : Int) + 1 - (24 : Nat)) * 2 ^ 23 = 2 ^ k := by
    rw [← zpow_natCast, ← zpow_natCast, ← zpow_add₀ two_ne_zero]
    congr 1
    omega
  have hcast (c : Nat) (j : ℝ) (hj : 2 * j + 1 = c) :
      (ra : ℝ) < (2 ^ 23 + j + 1 / 2) * 2 ^ ((k : Int) + 1 - (24 : Nat)) ↔ ra * 2 ^ 24 < 2 ^ k * (2 ^ 24 + c) := by
    have hnat : ra * 2 ^ 24 < 2 ^ k * (2 ^ 24 + c) ↔ (ra : ℝ) * 2 ^ 24 < 2 ^ k * (2 ^ 24 + c) := by exact_mod_cast Iff.rfl
    obtain ⟨u, hu⟩ : ∃ u : ℝ, 2 ^ ((k : Int) + 1 - (24 : Nat)) = u := ⟨_, rfl⟩
    rw [hnat, ← hscale, ← hj, hu]
    constructor <;> intro h <;> linarith
  refine ⟨?_, ?_⟩
  · rw [logb_roundFloat_le_iff (j := 5) (by decide) hpos (by decide) (by decide) (by decide) (by norm_num; linarith)
      (by norm_num; linarith)]
    exact hcast 11 _ (by norm_num)
  · rw [logb_roundFloat_le_iff (j := 11) (by decide) hpos (by decide) (by decide) (by decide) (by norm_num; linarith)
      (by norm_num; linarith)]
    exact hcast 23 _ (by norm_num)

theorem rounded_fieldBits_le_iff {k : Nat} : rounded.fieldBits ra ≤ k ↔ floatLog 24 ra ≤ k := Nat.ceil_le

theorem rounded_down_iff (hra : ra ≠ 0) (hlt : ra < 2 ^ 64) : rounded.Down ra ↔ RoundsDown ra := by
  obtain ⟨k, hk⟩ : ∃ k, Nat.log 2 ra = k := ⟨_, rfl⟩
  have hself := Nat.pow_log_le_self 2 hra
  have hk64 := Nat.log_lt_of_lt_pow hra hlt
  rw [RoundsDown, hk]
  rw [hk] at hself hk64
  rcases hself.eq_or_lt with heq | hgt
  · have hfb := (rounded_fieldBits hra hlt).1
    have hclog : Nat.clog 2 ra = k := by rw [← heq, Nat.clog_pow 2 k (by decide)]
    refine iff_of_false ?_ (by omega)
    rw [Down]
    omega
  have hdown : rounded.Down ra ↔ floatLog 24 ra ≤ k := by
    have hiff := fieldBits_le_iff (rounded_fieldBits hra hlt) hgt
    rw [← rounded_fieldBits_le_iff, hiff]
    exact ⟨fun h => ⟨hk, h⟩, And.right⟩
  have hkpos : k ≠ 0 := by
    rintro rfl
    have := Nat.lt_pow_of_log_lt (b := 2) (by decide) (show Nat.log 2 ra < 1 by omega)
    omega
  obtain ⟨h4, h5⟩ := logb_24_le_iff hra k
  rw [hdown]
  have hround : floatLog 24 ra ≤ k ↔ Real.logb 2 (roundFloat 24 (ra : ℝ)) ≤ k + 2 ^ ((Nat.log 2 k : Int) - (24 : Nat)) :=
    roundFloat_le_natCast_iff (by have := Nat.log_lt_of_lt_pow hkpos (show k < 2 ^ 6 by omega); omega)
      (Nat.pow_log_le_self 2 hkpos) (Nat.lt_pow_succ_log_self (by decide) k)
  rcases Nat.lt_or_ge k 16 with hsmall | hlarge
  · -- such a range has no number so close above the power of two
    have hno : ¬ ra * 2 ^ 24 < 2 ^ k * (2 ^ 24 + 11) := by
      have hpow : 2 ^ k ≤ 2 ^ 15 := Nat.pow_le_pow_right (by decide) (by omega)
      omega
    rw [if_pos (by omega)]
    refine iff_of_false (fun hle => hno (h4.mp ((hround.mp hle).trans ?_))) fun h => hno h.2
    have hlog := Nat.log_lt_of_lt_pow hkpos (show k < 2 ^ 4 by omega)
    have hpow : (2 : ℝ) ^ ((Nat.log 2 k : Int) - (24 : Nat)) ≤ 2 ^ ((4 : Int) - (24 : Nat)) :=
      zpow_le_zpow_right₀ one_le_two (by omega)
    linarith
  rcases Nat.lt_or_ge k 32 with h32 | h32
  · have hlog : Nat.log 2 k = 4 := Nat.log_eq_of_pow_le_of_lt_pow (by omega) (by omega)
    rw [hlog] at hround
    rw [if_pos h32, hround]
    exact h4.trans ⟨fun h => ⟨hgt, h⟩, And.right⟩
  · have hlog : Nat.log 2 k = 5 := Nat.log_eq_of_pow_le_of_lt_pow (by omega) (by omega)
    rw [hlog] at hround
    rw [if_neg (by omega), hround]
    exact h5.trans ⟨fun h => ⟨hgt, h⟩, And.right⟩

theorem rounded_fieldBits_32_63 {k : Nat} (hk : k = 32 ∨ k = 63) (h : 2 ^ k < ra) (hlt : ra < 2 ^ 64) :
    rounded.fieldBits ra ≤ k ↔ ra < 2 ^ k + 23 * 2 ^ (k - 24) := by
  have hra := Nat.ne_zero_of_lt h
  rw [fieldBits_le_iff (rounded_fieldBits hra hlt) h, rounded_down_iff hra hlt, RoundsDown]
  constructor
  · rintro ⟨rfl, -, hup⟩
    rw [if_neg (by omega)] at hup
    rcases hk with hk | hk <;> rw [hk] at hup ⊢ <;> omega
  · intro hup
    have hlog : Nat.log 2 ra = k :=
      Nat.log_eq_of_pow_le_of_lt_pow h.le (by rcases hk with rfl | rfl <;> omega)
    rw [hlog, if_neg (by omega)]
    refine ⟨rfl, h, ?_⟩
    rcases hk with rfl | rfl <;> omega

theorem lt_floatLog_of_pow_lt {n k : Nat} (hk : k = 1 ∨ k = 2) (h : 2 ^ k < n) : k < floatLog 53 n := by
  obtain ⟨-, hhigh⟩ := log_two_near
  have hX : ((2 ^ k + 1 : Nat) : ℝ) ≤ roundFloat 53 (n : ℝ) := by
    refine natCast_le_roundFloat ?_ (by exact_mod_cast h)
    rcases hk with rfl | rfl <;> decide
  have hlog : (k : ℝ) + 1 / 4 < Real.logb 2 (roundFloat 53 (n : ℝ)) := by
    rcases hk with rfl | rfl
    · exact lt_logb (s := 1 / 2) (by norm_num) (by norm_num at hX ⊢; linarith) (by norm_num; linarith)
    · exact lt_logb (s := 1 / 4) (by norm_num) (by norm_num at hX ⊢; linarith) (by norm_num; linarith)
  rw [← not_le, floatLog, roundFloat_le_natCast_iff (e := Nat.log 2 k) (by rcases hk with rfl | rfl <;> decide)
    (by rcases hk with rfl | rfl <;> decide) (by rcases hk with rfl | rfl <;> decide), not_le]
  refine lt_of_le_of_lt ?_ hlog
  rcases hk with rfl | rfl <;> norm_num

theorem rounded_valueBits (hv : ra ≠ 0) (hlt : ra < 2 ^ 64) :
    Nat.log 2 ra < rounded.valueBits ra ∧ rounded.valueBits ra ≤ Nat.log 2 ra + 2 := by
  have hlog := Nat.log_lt_of_lt_pow hv hlt
  have hlow := le_floatLog (show 8 ≤ 53 by decide) hlog.le (Nat.pow_log_le_self 2 hv)
  have hhigh := floatLog_le (show 8 ≤ 53 by decide) hv hlog (Nat.lt_pow_succ_log_self (by decide) ra).le
  push_cast at hhigh
  constructor
  · refine Nat.le_floor (natCast_le_roundFloat (by omega) ?_)
    push_cast
    linarith
  · refine Nat.floor_le_of_le (roundFloat_le_natCast (by omega) ?_)
    push_cast
    linarith

theorem rounded_valueBits_le_iff {k e : Nat} (he : e < 6) (hlow : 2 ^ e < k + 1) (hhigh : k + 1 ≤ 2 ^ (e + 1)) :
    rounded.valueBits ra ≤ k ↔ floatLog 53 ra < k - 2 ^ ((e : Int) - (53 : Nat)) := by
  have hiff := natCast_le_roundFloat_iff (x := floatLog 53 ra + 1) (show e + 1 < 53 by omega) hlow hhigh
  rw [← Nat.lt_add_one_iff]
  refine (Nat.floor_lt' (Nat.succ_ne_zero k)).trans ?_
  rw [← not_le, hiff, not_le]
  push_cast
  constructor <;> intro h <;> linarith

theorem rounded_valueBits_32 (hv : ra ≠ 0) (hlt : ra < 2 ^ 32) : rounded.valueBits ra ≤ 32 := by
  obtain ⟨-, hhigh⟩ := log_two_near
  rw [rounded_valueBits_le_iff (e := 5) (by decide) (by decide) (by decide)]
  have hX : roundFloat 53 (ra : ℝ) ≤ ((2 ^ 32 - 1 : Nat) : ℝ) :=
    roundFloat_le_natCast (by decide) (by exact_mod_cast Nat.le_pred_of_lt hlt)
  have hlog := logb_lt (k := 32) (s := -1 / 2 ^ 32) (t := -1 / 2 ^ 32) (roundFloat_natCast_pos (p := 53) (by decide) hv)
    (by norm_num at hX ⊢; linarith) (by norm_num; linarith)
  have hround := roundFloat_le_of_le (x := Real.logb 2 (roundFloat 53 (ra : ℝ))) (p := 53) (by decide)
    (m := (2 ^ 37 - 1) * 2 ^ 16) (by decide) (by decide) (-48) (by norm_num at hlog ⊢; linarith)
  refine lt_of_le_of_lt hround ?_
  norm_num

theorem rounded_valueBits_56 (hv : ra ≠ 0) : rounded.valueBits ra ≤ 56 ↔ ra + 180 < 2 ^ 56 := by
  obtain ⟨hlow, hhigh⟩ := log_two_near
  rw [rounded_valueBits_le_iff (e := 5) (by decide) (by decide) (by decide)]
  have hX := roundFloat_le_iff_of_odd (x := (ra : ℝ)) (show 0 < 53 by decide) (m := 2 ^ 53 - 23) (by decide) (by decide)
    (by decide) 3
  by_cases h : ra + 180 < 2 ^ 56
  · have hcast : (ra : ℝ) + 180 < 2 ^ 56 := by exact_mod_cast h
    have hlog := logb_lt (k := 56) (s := -23 / 2 ^ 53) (t := -1 / 2 ^ 48) (roundFloat_natCast_pos (p := 53) (by decide) hv)
      ((hX.mpr (by norm_num at hcast ⊢; linarith)).trans_eq (by norm_num)) (by norm_num; linarith)
    have hround := (roundFloat_le_iff_of_odd (x := Real.logb 2 (roundFloat 53 (ra : ℝ))) (show 0 < 53 by decide)
      (m := 56 * 2 ^ 47 - 1) (by decide) (by decide) (by decide) (-47)).mpr (by norm_num at hlog ⊢; linarith)
    refine iff_of_true (lt_of_le_of_lt hround ?_) h
    norm_num
  · have hcast : (2 : ℝ) ^ 56 ≤ ra + 180 := by exact_mod_cast not_lt.mp h
    have hnext := add_one_le_roundFloat (x := (ra : ℝ)) (show 0 < 53 by decide) (m := 2 ^ 53 - 23) (by decide) (by decide)
      (e := 3) (mt hX.mp (by norm_num at hcast ⊢; linarith))
    have hlog := lt_logb (k := 56) (s := -22 / 2 ^ 53) (t := -1 / 2 ^ 48) (by norm_num)
      (le_trans (le_of_eq (by norm_num)) hnext) (by norm_num; linarith)
    have hround := (natCast_le_roundFloat_iff (x := Real.logb 2 (roundFloat 53 (ra : ℝ))) (p := 53) (k := 56)
      (show 5 + 1 < 53 by decide) (by decide) (by decide)).mpr (by norm_num at hlog ⊢; linarith)
    refine iff_of_false (not_lt.mpr (le_trans ?_ hround)) h
    norm_num

theorem rounded_near : rounded.Near (2 ^ 32 + 23 * 2 ^ 8 - 1) (2 ^ 63 + 23 * 2 ^ 39 - 1) 180 where
  fieldBits _ := rounded_fieldBits
  small ra hsmall := by
    by_cases hra : ra = 0
    · rw [hra, Down, Nat.clog_zero_right]
      exact Nat.not_lt_zero _
    rw [rounded_down_iff hra (by omega)]
    rintro ⟨hgt, hround⟩
    have hpow : 2 ^ Nat.log 2 ra < 2 ^ 17 := hgt.trans hsmall
    split_ifs at hround <;> omega
  fieldBits_32 ra h hlt := (rounded_fieldBits_32_63 (.inl rfl) h hlt).trans Nat.lt_succ_iff
  fieldBits_63 ra h hlt := (rounded_fieldBits_32_63 (.inr rfl) h hlt).trans Nat.lt_succ_iff
  top := by decide
  lengthBits := lengthBits_of_pow fun n k hk hlow hhigh => by
    have hup := floatLog_le (p := 53) (by decide) (Nat.ne_zero_of_lt hlow) (show k + 1 ≤ 64 by omega) hhigh
    exact Nat.le_antisymm (Nat.ceil_le.mpr hup) (Nat.lt_ceil.mpr (lt_floatLog_of_pow_lt hk hlow))
  valueBits_one := by
    have hzero := floatLog_le (p := 53) (by decide) one_ne_zero (show 0 ≤ 64 by decide) le_rfl
    have hsum : floatLog 53 1 + 1 ≤ ((1 : Nat) : ℝ) := by
      push_cast at hzero ⊢
      linarith
    exact Nat.le_antisymm (Nat.floor_le_of_le (roundFloat_le_natCast (by decide) hsum))
      (rounded_valueBits one_ne_zero (by decide)).1
  valueBits _ := rounded_valueBits
  valueBits_32 _ := rounded_valueBits_32
  valueBits_56 _ hv _ := rounded_valueBits_56 hv

theorem rounded_octets_le_iff {v j : Nat} :
    rounded.octets v ≤ j ↔ roundFloat 53 (floatLog 53 v + 1) ≤ ((8 * j : Nat) : ℝ) := by
  refine Nat.ceil_le.trans ?_
  rw [div_le_iff₀ (by norm_num), Nat.cast_mul, mul_comm]
  norm_cast

theorem lt_pow_octets {v : Nat} (hv : v ≠ 0) (hlt : v < 2 ^ 64) : v < 2 ^ (rounded.octets v * 8) := by
  have hlog := Nat.log_lt_of_lt_pow hv hlt
  have hlow := le_floatLog (show 8 ≤ 53 by decide) hlog.le (Nat.pow_log_le_self 2 hv)
  have hsum : ((Nat.log 2 v + 1 : Nat) : ℝ) ≤ roundFloat 53 (floatLog 53 v + 1) :=
    natCast_le_roundFloat (by omega) (by push_cast; linarith)
  have hle : Nat.log 2 v + 1 ≤ 8 * rounded.octets v := by
    exact_mod_cast hsum.trans (rounded_octets_le_iff.mp le_rfl)
  exact (Nat.lt_pow_succ_log_self (by decide) v).trans_le (Nat.pow_le_pow_right (by decide) (by omega))

theorem octets_le_of_le_pow {v k j : Nat} (hv : v ≠ 0) (hk : k + 1 ≤ 8 * j) (hj : 8 * j ≤ 72) (h : v ≤ 2 ^ k)
    (hk64 : k ≤ 64) : rounded.octets v ≤ j := by
  have hlog := floatLog_le (show 8 ≤ 53 by decide) hv hk64 h
  have hcast : (k : ℝ) + 1 ≤ ((8 * j : Nat) : ℝ) := by exact_mod_cast hk
  exact rounded_octets_le_iff.mpr (roundFloat_le_natCast (by omega) (by linarith))

theorem octets_le_7_iff {v : Nat} (hv : v ≠ 0) : rounded.octets v ≤ 7 ↔ v ≤ 2 ^ 55 + 91 := by
  obtain ⟨hlow, hhigh⟩ := log_two_near
  have hlog := logb_roundFloat_le_iff (p := 53) (x := (v : ℝ)) (k := 55) (j := 11) (t := 2 ^ (((5 : Nat) : Int) - (53 : Nat)))
    (by decide) (by exact_mod_cast Nat.pos_of_ne_zero hv) (by decide) (by decide) (by decide)
    (by norm_num; linarith) (by norm_num; linarith)
  have hnat : v ≤ 2 ^ 55 + 91 ↔ (v : ℝ) < (2 ^ (53 - 1) + (11 : Int) + 1 / 2) * 2 ^ (((55 : Nat) : Int) + 1 - (53 : Nat)) := by
    rw [← Nat.lt_add_one_iff]
    norm_num
  have hround := roundFloat_le_natCast_iff (x := Real.logb 2 (roundFloat 53 (v : ℝ))) (p := 53) (e := 5) (k := 55)
    (by decide) (by decide) (by decide)
  rw [rounded_octets_le_iff, hnat, ← hlog, ← hround,
    roundFloat_le_natCast_iff (p := 53) (e := 5) (by decide) (by decide) (by decide)]
  show floatLog 53 v + 1 ≤ _ ↔ floatLog 53 v ≤ _
  constructor
  · intro hle
    by_contra hgt
    have hnext := add_one_le_roundFloat (x := Real.logb 2 (roundFloat 53 (v : ℝ))) (show 0 < 53 by decide) (m := 55 * 2 ^ 47)
      (by decide) (by decide) (e := -47) (fun h => hgt (h.trans_eq (by norm_num)))
    have hnext' : ((55 * 2 ^ 47 + 1 : Int) : ℝ) * 2 ^ (-47 : Int) ≤ floatLog 53 v := hnext
    norm_num at hle hnext'
    linarith
  · intro hle
    norm_num at hle ⊢
    linarith

/-- Where the numbers are short, the logarithm of the next number is already far from that of the power. -/
theorem lt_floatLog_add_one {v k e : Nat} (he : e < 5) (hk : k + 1 = 2 ^ (e + 1)) (hgt : 2 ^ k < v) :
    ¬ roundFloat 53 (floatLog 53 v + 1) ≤ ((k + 1 : Nat) : ℝ) := by
  obtain ⟨-, hhigh⟩ := log_two_near
  have hpow : 2 ^ (e + 1) ≤ 2 ^ 5 := Nat.pow_le_pow_right (by decide) (by omega)
  have hpow' : (2 : ℝ) ^ k ≤ 2 ^ 31 := pow_le_pow_right₀ one_le_two (by omega)
  have hX : ((2 ^ k + 1 : Nat) : ℝ) ≤ roundFloat 53 (v : ℝ) := by
    refine natCast_le_roundFloat ?_ (by exact_mod_cast hgt)
    have : 2 ^ k ≤ 2 ^ 31 := Nat.pow_le_pow_right (by decide) (by omega)
    omega
  push_cast at hX
  have hpos : (0 : ℝ) < 2 ^ k := by positivity
  have hlog : k + (1 : ℝ) / 2 ^ 32 < Real.logb 2 (roundFloat 53 (v : ℝ)) := by
    refine lt_logb (s := 1 / 2 ^ k) (by positivity) (le_trans (le_of_eq ?_) hX) ?_
    · field_simp
    · have hfrac : (1 / 2 ^ k : ℝ) / (1 + 1 / 2 ^ k) = 1 / (2 ^ k + 1) := by field_simp
      rw [hfrac, lt_div_iff₀ (by positivity)]
      nlinarith
  obtain ⟨d, hd⟩ : ∃ d, 20 - e = d := ⟨_, rfl⟩
  have hscale : (((k * 2 ^ 32 + 1) * 2 ^ d : Int) : ℝ) * 2 ^ ((e : Int) - 52) = k + 1 / 2 ^ 32 := by
    have hunit : (2 : ℝ) ^ d * 2 ^ ((e : Int) - 52) = 1 / 2 ^ 32 := by
      rw [one_div, ← zpow_natCast, ← zpow_natCast, ← zpow_neg, ← zpow_add₀ two_ne_zero]
      congr 1
      omega
    push_cast
    rw [mul_assoc, hunit]
    ring
  have hsize : 2 ^ 52 < (k * 2 ^ 32 + 1) * 2 ^ d ∧ (k * 2 ^ 32 + 1) * 2 ^ d ≤ 2 ^ 53 := by
    obtain rfl : k = 2 ^ (e + 1) - 1 := by omega
    subst hd
    interval_cases e <;> decide
  have hround := le_roundFloat_of_le (p := 53) (by decide) (m := (k * 2 ^ 32 + 1) * 2 ^ d) (by exact_mod_cast hsize.1)
    (by exact_mod_cast hsize.2) (e - 52) (hscale.trans_le hlog.le)
  have hlast : (2 : ℝ) ^ (((e + 1 : Nat) : Int) - (53 : Nat)) ≤ 2 ^ (-48 : Int) :=
    zpow_le_zpow_right₀ one_le_two (by omega)
  rw [hscale] at hround
  rw [roundFloat_le_natCast_iff (e := e + 1) (by omega) (by omega) (by rw [hk]; exact Nat.pow_lt_pow_right (by decide) (by omega)),
    not_le]
  have hlow : k + 1 / 2 ^ 32 ≤ floatLog 53 v := hround
  norm_num at hlast hlow ⊢
  linarith

theorem octets_le_iff {v j e : Nat} (he : e < 5) (hj : 8 * j = 2 ^ (e + 1)) (hv : v ≠ 0) :
    rounded.octets v ≤ j ↔ v ≤ 2 ^ (8 * j - 1) := by
  have hpow : 2 ^ (e + 1) ≤ 2 ^ 5 := Nat.pow_le_pow_right (by decide) (by omega)
  have hpos := Nat.two_pow_pos (e + 1)
  refine ⟨fun hle => ?_, fun hle => octets_le_of_le_pow hv (by omega) (by omega) hle (by omega)⟩
  by_contra hgt
  refine lt_floatLog_add_one he (k := 8 * j - 1) (by omega) (not_le.mp hgt) ?_
  rw [Nat.sub_add_cancel (by omega)]
  exact rounded_octets_le_iff.mp hle

end Near

end LogWidths

end Ocudu.Asn1
