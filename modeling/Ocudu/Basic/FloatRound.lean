import Ocudu.Basic.FloatValue

/-! Natural numbers rounded to a number of significant bits, the way they are converted to a binary float. -/

namespace Ocudu

/-- The nearest number of `p` significant bits, the even one of two. -/
def roundTo (p n : Nat) : Nat :=
  let e := Nat.log 2 n + 1 - p
  let q := n / 2 ^ e
  let r := n % 2 ^ e
  if 2 ^ e < 2 * r ∨ 2 * r = 2 ^ e ∧ q % 2 = 1 then (q + 1) * 2 ^ e else q * 2 ^ e

/-- The number is so close above a power of two that it is rounded to it. -/
def RoundsToPow (p n : Nat) : Prop :=
  p ≤ Nat.log 2 n ∧ 2 ^ Nat.log 2 n < n ∧ n ≤ 2 ^ Nat.log 2 n + 2 ^ (Nat.log 2 n - p)

instance (p n : Nat) : Decidable (RoundsToPow p n) := inferInstanceAs (Decidable (_ ∧ _))

variable {p n k : Nat}

theorem roundTo_of_lt (h : n < 2 ^ p) : roundTo p n = n := by
  cases n with
  | zero => simp [roundTo]
  | succ n =>
    have hlog := (Nat.log_lt_iff_lt_pow (by decide) (Nat.add_one_ne_zero n)).mpr h
    have he : Nat.log 2 (n + 1) + 1 - p = 0 := by omega
    rw [roundTo, he]
    simp [Nat.mod_one]

theorem roundEven_natCast_div (a : Nat) {b : Nat} (hb : 0 < b) :
    roundEven ((a : ℚ) / b) = if b < 2 * (a % b) ∨ 2 * (a % b) = b ∧ a / b % 2 = 1 then (a / b : Int) + 1 else a / b := by
  have hpos : (0 : ℚ) < b := by exact_mod_cast hb
  have hlt : Int.fract ((a : ℚ) / b) < 1 / 2 ↔ 2 * (a % b) < b := by
    rw [Int.fract_div_natCast_eq_div_natCast_mod, div_lt_div_iff₀ hpos two_pos, one_mul, mul_comm]
    exact_mod_cast Iff.rfl
  have heq : Int.fract ((a : ℚ) / b) = 1 / 2 ↔ 2 * (a % b) = b := by
    rw [Int.fract_div_natCast_eq_div_natCast_mod, div_eq_div_iff hpos.ne' two_ne_zero, one_mul, mul_comm]
    exact_mod_cast Iff.rfl
  rw [roundEven, Rat.floor_natCast_div_natCast]
  simp only [hlt, heq]
  split_ifs <;> omega

/-- From `2 ^ (p - 1)` on the two roundings are one. -/
theorem roundTo_eq (hp : 0 < p) (h : 2 ^ (p - 1) ≤ n) : ((roundTo p n : Nat) : ℚ) = roundFloat p (n : ℚ) := by
  have hlog : p - 1 ≤ Nat.log 2 n := Nat.le_log_of_pow_le (by decide) h
  have hlast : lastExponent p (n : ℚ) = ((Nat.log 2 n + 1 - p : Nat) : Int) := by
    rw [lastExponent, Nat.abs_cast, Int.log_natCast]
    omega
  rw [roundFloat, hlast, zpow_natCast]
  have hround := roundEven_natCast_div n (Nat.two_pow_pos (Nat.log 2 n + 1 - p))
  push_cast at hround
  rw [hround, roundTo]
  split_ifs <;> push_cast <;> rfl

theorem roundTo_le_pow (hp : 0 < p) (h : n ≤ 2 ^ k) : roundTo p n ≤ 2 ^ k := by
  rcases Nat.lt_or_ge n (2 ^ (p - 1)) with hlt | hge
  · rwa [roundTo_of_lt (hlt.trans_le (Nat.pow_le_pow_right (by decide) (Nat.sub_le p 1)))]
  · have hround : roundFloat p (n : ℚ) ≤ 2 ^ k := roundFloat_le_two_pow hp (by exact_mod_cast h)
    rw [← roundTo_eq hp hge] at hround
    exact_mod_cast hround

theorem pow_le_roundTo (hp : 0 < p) (h : 2 ^ k ≤ n) : 2 ^ k ≤ roundTo p n := by
  rcases Nat.lt_or_ge n (2 ^ (p - 1)) with hlt | hge
  · rwa [roundTo_of_lt (hlt.trans_le (Nat.pow_le_pow_right (by decide) (Nat.sub_le p 1)))]
  · have hround : 2 ^ k ≤ roundFloat p (n : ℚ) := two_pow_le_roundFloat hp (by exact_mod_cast h)
    rw [← roundTo_eq hp hge] at hround
    exact_mod_cast hround

theorem roundTo_le_pow_iff (hp : 1 < p) (hk : p ≤ k) : roundTo p n ≤ 2 ^ k ↔ n ≤ 2 ^ k + 2 ^ (k - p) := by
  rcases Nat.le_total n (2 ^ k) with hle | hge
  · exact iff_of_true (roundTo_le_pow (by omega) hle) (hle.trans (Nat.le_add_right _ _))
  obtain ⟨q, rfl⟩ : ∃ q, p = q + 1 := ⟨p - 1, by omega⟩
  have heven : (2 ^ q : Int) % 2 = 0 := Int.emod_eq_zero_of_dvd (dvd_pow_self 2 (by omega))
  have hround := roundFloat_le_iff_of_even (x := (n : ℚ)) (Nat.succ_pos q) heven le_rfl
    (pow_lt_pow_right₀ (by decide) (Nat.lt_succ_self q)) (k - q)
  have hhalf : (1 / 2 : ℚ) * 2 ^ ((k : Int) - q) = 2 ^ (k - (q + 1)) := by
    have hexp : (k : Int) - q = (k - (q + 1) : Nat) + 1 := by omega
    rw [hexp, zpow_add_one₀ two_ne_zero, zpow_natCast]
    ring
  rw [add_mul, two_pow_scaled, hhalf, ← roundTo_eq (Nat.succ_pos q) ((Nat.pow_le_pow_right (by decide) (by omega)).trans hge)]
    at hround
  exact_mod_cast hround

theorem roundTo_lt_pow_iff (hp : 1 < p) (hk : p < k) : roundTo p n < 2 ^ k ↔ n + 2 ^ (k - 1 - p) < 2 ^ k := by
  rcases Nat.lt_or_ge n (2 ^ (p - 1)) with hlt | hge
  · have hpow : 2 ^ (p - 1) ≤ 2 ^ (k - 2) := Nat.pow_le_pow_right (by decide) (by omega)
    have hpow' : 2 ^ (k - 1 - p) ≤ 2 ^ (k - 2) := Nat.pow_le_pow_right (by decide) (by omega)
    have hsum : 2 ^ k = 2 ^ (k - 2) * 4 := by
      obtain ⟨d, rfl⟩ : ∃ d, k = d + 2 := ⟨k - 2, by omega⟩
      exact pow_add 2 d 2
    have hself := roundTo_of_lt (hlt.trans_le (Nat.pow_le_pow_right (show 0 < 2 by decide) (Nat.sub_le p 1)))
    rw [hself]
    exact iff_of_true (by omega) (by omega)
  have heven : (2 ^ p : Int) % 2 = 0 := Int.emod_eq_zero_of_dvd (dvd_pow_self 2 (by omega))
  have hround := le_roundFloat_iff_of_even (x := (n : ℚ)) (show 0 < p by omega) heven
    (pow_lt_pow_right₀ (by decide) (by omega)) le_rfl (k - p)
  have hhalf : (1 / 2 : ℚ) * 2 ^ ((k : Int) - p) = 2 ^ (k - 1 - p) := by
    have hexp : (k : Int) - p = (k - 1 - p : Nat) + 1 := by omega
    rw [hexp, zpow_add_one₀ two_ne_zero, zpow_natCast]
    ring
  rw [sub_mul, two_pow_scaled, hhalf, ← roundTo_eq (by omega) hge, sub_le_iff_le_add] at hround
  rw [← not_le, ← not_le, not_iff_not]
  exact_mod_cast hround

theorem clog_eq_of_between {m k : Nat} (h : 2 ^ k < m) (h' : m ≤ 2 ^ (k + 1)) : Nat.clog 2 m = k + 1 :=
  Nat.le_antisymm (Nat.clog_le_of_le_pow h') ((Nat.lt_clog_iff_pow_lt (by decide)).mpr h)

end Ocudu
