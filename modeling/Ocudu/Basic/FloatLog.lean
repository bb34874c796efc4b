import Mathlib.Analysis.Complex.ExponentialBounds
import Ocudu.Basic.FloatValue

/-! The binary logarithm of a float, rounded to a float again: how close to a whole number the exact logarithm has to
be for that number to come out. -/

namespace Ocudu

section Rounding

variable {K : Type*} [Field K] [LinearOrder K] [IsStrictOrderedRing K] [FloorRing K] {x : K}

theorem roundEven_le_iff_of_odd {n : Int} (hn : n % 2 = 1) : roundEven x ≤ n ↔ x < n + 1 / 2 := by
  have h := le_roundEven_iff (x := x) (show (n + 1) % 2 = 0 by omega)
  rw [← Int.lt_add_one_iff, ← not_le, h, not_le]
  push_cast
  constructor <;> intro h' <;> linarith

theorem roundFloat_le_iff_of_odd {p : Nat} (hp : 0 < p) {m : Int} (hodd : m % 2 = 1) (hm : 2 ^ (p - 1) ≤ m)
    (hm' : m < 2 ^ p) (e : Int) : roundFloat p x ≤ m * 2 ^ e ↔ x < (m + 1 / 2) * 2 ^ e := by
  rw [roundFloat_le_iff hp hm hm', roundEven_le_iff_of_odd hodd, div_lt_iff₀ (by positivity)]

/-- What is not rounded to a float or below it is rounded to the next one or above. -/
theorem add_one_le_roundFloat {p : Nat} (hp : 0 < p) {m : Int} (hm : 2 ^ (p - 1) ≤ m) (hm' : m < 2 ^ p) {e : Int}
    (h : ¬ roundFloat p x ≤ m * 2 ^ e) : ((m + 1 : Int) : K) * 2 ^ e ≤ roundFloat p x := by
  rw [roundFloat_le_iff hp hm hm'] at h
  rw [le_roundFloat_iff hp (by omega) (by omega)]
  omega

variable {p e k : Nat}

omit [FloorRing K] in
theorem natCast_eq_scaled (hp : e + 1 < p) (k : Nat) :
    (((k * 2 ^ (p - 1 - e) : Nat) : Int) : K) * 2 ^ ((e : Int) + 1 - p) = k := by
  obtain ⟨d, rfl⟩ : ∃ d, p = d + 1 + e := ⟨p - 1 - e, by omega⟩
  have hd : d + 1 + e - 1 - e = d := by omega
  have he : (e : Int) + 1 - ((d + 1 + e : Nat) : Int) = -d := by omega
  rw [hd, he, zpow_neg, zpow_natCast]
  push_cast
  rw [mul_assoc, mul_inv_cancel₀ (by positivity), mul_one]

omit [FloorRing K] in
theorem scaled_half (p e : Nat) : (1 / 2 : K) * 2 ^ ((e : Int) + 1 - p) = 2 ^ ((e : Int) - p) := by
  have he : (e : Int) + 1 - p = e - p + 1 := by omega
  rw [he, zpow_add_one₀ two_ne_zero]
  ring

theorem pow_scaled (hp : e + 1 < p) : 2 ^ e * 2 ^ (p - 1 - e) = 2 ^ (p - 1) ∧ 2 ^ (e + 1) * 2 ^ (p - 1 - e) = 2 ^ p := by
  rw [← pow_add, ← pow_add]
  constructor <;> congr 1 <;> omega

theorem scaled_even (hp : e + 1 < p) (k : Nat) : ((k * 2 ^ (p - 1 - e) : Nat) : Int) % 2 = 0 := by
  obtain ⟨d, hd⟩ : ∃ d, p - 1 - e = d + 1 := ⟨p - 2 - e, by omega⟩
  rw [hd, pow_succ, ← mul_assoc]
  exact_mod_cast Nat.mul_mod_left (k * 2 ^ d) 2

theorem roundFloat_le_natCast_iff (hp : e + 1 < p) (hlow : 2 ^ e ≤ k) (hhigh : k < 2 ^ (e + 1)) :
    roundFloat p x ≤ k ↔ x ≤ k + 2 ^ ((e : Int) - p) := by
  obtain ⟨hpow, hpow'⟩ := pow_scaled hp
  have hm := Nat.mul_le_mul_right (2 ^ (p - 1 - e)) hlow
  have hm' := Nat.mul_lt_mul_of_pos_right hhigh (Nat.two_pow_pos (p - 1 - e))
  rw [hpow] at hm
  rw [hpow'] at hm'
  have h := roundFloat_le_iff_of_even (x := x) (show 0 < p by omega) (scaled_even hp k) (by exact_mod_cast hm)
    (by exact_mod_cast hm') ((e : Int) + 1 - p)
  rwa [add_mul, natCast_eq_scaled hp, scaled_half] at h

theorem natCast_le_roundFloat_iff (hp : e + 1 < p) (hlow : 2 ^ e < k) (hhigh : k ≤ 2 ^ (e + 1)) :
    k ≤ roundFloat p x ↔ k - 2 ^ ((e : Int) - p) ≤ x := by
  obtain ⟨hpow, hpow'⟩ := pow_scaled hp
  have hm := Nat.mul_lt_mul_of_pos_right hlow (Nat.two_pow_pos (p - 1 - e))
  have hm' := Nat.mul_le_mul_right (2 ^ (p - 1 - e)) hhigh
  rw [hpow] at hm
  rw [hpow'] at hm'
  have h := le_roundFloat_iff_of_even (x := x) (show 0 < p by omega) (scaled_even hp k) (by exact_mod_cast hm)
    (by exact_mod_cast hm') ((e : Int) + 1 - p)
  rwa [sub_mul, natCast_eq_scaled hp, scaled_half] at h

theorem roundFloat_le_natCast (hk : k < 2 ^ (p - 1)) (h : x ≤ k) : roundFloat p x ≤ k := by
  rcases Nat.eq_zero_or_pos k with rfl | hpos
  · rw [Nat.cast_zero] at h ⊢
    exact roundFloat_nonpos p h
  · have hlog := Nat.log_lt_of_lt_pow hpos.ne' hk
    have hpow : (0 : K) < 2 ^ ((Nat.log 2 k : Int) - p) := by positivity
    exact (roundFloat_le_natCast_iff (by omega) (Nat.pow_log_le_self 2 hpos.ne')
      (Nat.lt_pow_succ_log_self (by decide) k)).mpr (by linarith)

theorem natCast_le_roundFloat (hk : k < 2 ^ (p - 1)) (h : k ≤ x) : k ≤ roundFloat p x := by
  rcases Nat.lt_trichotomy k 1 with hzero | rfl | hpos
  · have hx := roundFloat_nonpos p (show -x ≤ 0 by rw [Nat.lt_one_iff.mp hzero] at h; simpa using h)
    rw [roundFloat_neg] at hx
    rw [Nat.lt_one_iff.mp hzero, Nat.cast_zero]
    linarith
  · have hp : 0 < p := Nat.pos_of_ne_zero fun hp => by simp [hp] at hk
    have hround := two_pow_le_roundFloat (k := 0) hp (by simpa using h)
    simpa using hround
  · obtain ⟨c, hc⟩ : ∃ c, Nat.clog 2 k = c + 1 := ⟨_, (Nat.succ_pred_eq_of_pos (Nat.clog_pos (by decide) hpos)).symm⟩
    have hlow := (Nat.lt_clog_iff_pow_lt (b := 2) (by decide)).mp (show c < Nat.clog 2 k by omega)
    have hhigh := Nat.le_pow_clog (b := 2) (by decide) k
    rw [hc] at hhigh
    have hlt := (Nat.pow_lt_pow_iff_right (a := 2) (by decide)).mp (hlow.trans hk)
    have hpow : (0 : K) < 2 ^ ((c : Int) - p) := by positivity
    exact (natCast_le_roundFloat_iff (by omega) hlow hhigh).mpr (by linarith)

end Rounding

section Log

variable {X s t : ℝ} {k : Nat}

theorem log_div_pow (hX : 0 < X) (k : Nat) : Real.log (X / 2 ^ k) = (Real.logb 2 X - k) * Real.log 2 := by
  have hne : Real.log 2 ≠ 0 := (Real.log_pos one_lt_two).ne'
  rw [Real.log_div hX.ne' (by positivity), Real.log_pow, sub_mul, Real.logb, div_mul_cancel₀ _ hne]

theorem logb_lt (hX : 0 < X) (h : X ≤ 2 ^ k * (1 + s)) (ht : s < t * Real.log 2) : Real.logb 2 X < k + t := by
  have hle : X / 2 ^ k ≤ 1 + s := (div_le_iff₀' (by positivity)).mpr h
  have hlog := Real.log_le_sub_one_of_pos (show 0 < X / 2 ^ k by positivity)
  rw [log_div_pow hX] at hlog
  have hlt := lt_of_mul_lt_mul_right (show (Real.logb 2 X - k) * Real.log 2 < t * Real.log 2 by linarith)
    (Real.log_pos one_lt_two).le
  linarith

theorem lt_logb (hs : 0 < 1 + s) (h : 2 ^ k * (1 + s) ≤ X) (ht : t * Real.log 2 < s / (1 + s)) :
    k + t < Real.logb 2 X := by
  have hX : 0 < X := (mul_pos (by positivity) hs).trans_le h
  have hle : 1 + s ≤ X / 2 ^ k := (le_div_iff₀' (by positivity)).mpr h
  have hlog := Real.one_sub_inv_le_log_of_pos (show 0 < X / 2 ^ k by positivity)
  have hinv : (X / 2 ^ k)⁻¹ ≤ (1 + s)⁻¹ := inv_anti₀ hs hle
  have hfrac : s / (1 + s) = 1 - (1 + s)⁻¹ := by
    field_simp
    ring
  rw [log_div_pow hX] at hlog
  have hlt := lt_of_mul_lt_mul_right (show t * Real.log 2 < (Real.logb 2 X - k) * Real.log 2 by linarith)
    (Real.log_pos one_lt_two).le
  linarith

/-- An argument is rounded to a float whose logarithm is not much above `k`: `j` units in the last place are still
little enough. -/
theorem logb_roundFloat_le_iff {p : Nat} (hp : 0 < p) {x : ℝ} (hx : 0 < x) {j : Int} (hj : 0 ≤ j)
    (hodd : (2 ^ (p - 1) + j) % 2 = 1) (hjp : j < 2 ^ (p - 1) - 1) (hlow : j / 2 ^ (p - 1) < t * Real.log 2)
    (hhigh : t * Real.log 2 < (j + 1) / (2 ^ (p - 1) + (j + 1))) :
    Real.logb 2 (roundFloat p x) ≤ k + t ↔ x < (2 ^ (p - 1) + j + 1 / 2) * 2 ^ ((k : Int) + 1 - p) := by
  obtain ⟨e, he⟩ : ∃ e, (k : Int) + 1 - p = e := ⟨_, rfl⟩
  have hunit : (2 : ℝ) ^ (p - 1) * 2 ^ e = 2 ^ k := by
    rw [← zpow_natCast, ← zpow_add₀ two_ne_zero, ← zpow_natCast]
    congr 1
    omega
  have hm : (2 : Int) ^ (p - 1) ≤ 2 ^ (p - 1) + j := by omega
  have hm' : 2 ^ (p - 1) + j < 2 ^ p := by
    obtain ⟨q, rfl⟩ : ∃ q, p = q + 1 := ⟨p - 1, by omega⟩
    rw [Nat.add_sub_cancel] at hjp ⊢
    rw [pow_succ]
    omega
  have hpow : (0 : ℝ) < 2 ^ (p - 1) := by positivity
  have hj' : (0 : ℝ) ≤ j := by exact_mod_cast hj
  have hround := roundFloat_le_iff_of_odd (x := x) hp hodd hm hm' e
  have hX := (show (0 : ℝ) < 2 ^ Int.log 2 x by positivity).trans_le (roundFloat_between hp hx).1
  push_cast at hround
  rw [he, ← hround]
  constructor
  · intro hle
    by_contra hgt
    have hnext := add_one_le_roundFloat (x := x) hp hm hm' (e := e) (by push_cast; exact hgt)
    push_cast at hnext
    refine absurd hle (not_le.mpr (lt_logb (s := (j + 1) / 2 ^ (p - 1)) (by positivity) ?_ ?_))
    · refine le_trans (le_of_eq ?_) hnext
      rw [← hunit]
      field_simp
      ring
    · refine hhigh.trans_eq ?_
      field_simp
  · intro hle
    refine (logb_lt hX ?_ hlow).le
    refine hle.trans_eq ?_
    rw [← hunit]
    field_simp

end Log

/-! The rounded logarithm beside the powers of two. -/

section FloatLog

variable {p n k : Nat}

theorem logb_two_pow (k : Nat) : Real.logb 2 (2 ^ k) = k := by
  rw [Real.logb_pow, Real.logb_self_eq_one one_lt_two, mul_one]

theorem roundFloat_natCast_pos (hp : 0 < p) (hn : n ≠ 0) : 0 < roundFloat p (n : ℝ) :=
  (show (0 : ℝ) < 2 ^ Int.log 2 (n : ℝ) by positivity).trans_le
    (roundFloat_between hp (by exact_mod_cast Nat.pos_of_ne_zero hn)).1

theorem floatLog_le (hp : 8 ≤ p) (hn : n ≠ 0) (hk : k ≤ 64) (h : n ≤ 2 ^ k) : floatLog p n ≤ k := by
  have hX := roundFloat_le_two_pow (x := (n : ℝ)) (show 0 < p by omega) (by exact_mod_cast h)
  have hlog := Real.logb_le_logb_of_le one_lt_two (roundFloat_natCast_pos (by omega) hn) hX
  rw [logb_two_pow] at hlog
  exact roundFloat_le_natCast ((show k < 2 ^ 7 by omega).trans_le (Nat.pow_le_pow_right (by decide) (by omega))) hlog

theorem le_floatLog (hp : 8 ≤ p) (hk : k ≤ 64) (h : 2 ^ k ≤ n) : k ≤ floatLog p n := by
  have hX := two_pow_le_roundFloat (x := (n : ℝ)) (show 0 < p by omega) (by exact_mod_cast h)
  have hlog := Real.logb_le_logb_of_le one_lt_two (by positivity) hX
  rw [logb_two_pow] at hlog
  exact natCast_le_roundFloat ((show k < 2 ^ 7 by omega).trans_le (Nat.pow_le_pow_right (by decide) (by omega))) hlog

end FloatLog

end Ocudu
