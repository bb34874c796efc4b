import Mathlib.Analysis.SpecialFunctions.Log.Base
import Mathlib.Tactic
import Mathlib.Data.Int.Log

/-! Numbers of an ordered field rounded to a number of significant bits, as binary floats are that neither
underflow nor overflow, and the conversions of a float to an integer. -/

namespace Ocudu

variable {K : Type*} [Field K] [LinearOrder K] [IsStrictOrderedRing K] [FloorRing K]

/-- The nearest integer, the even one of two. -/
def roundEven (x : K) : Int :=
  if Int.fract x < 1 / 2 ∨ Int.fract x = 1 / 2 ∧ ⌊x⌋ % 2 = 0 then ⌊x⌋ else ⌊x⌋ + 1

def roundAway (x : K) : Int := if 0 ≤ x then ⌊x + 1 / 2⌋ else -⌊-x + 1 / 2⌋

def lastExponent (p : Nat) (x : K) : Int := Int.log 2 |x| + 1 - p

def roundFloat (p : Nat) (x : K) : K := roundEven (x / 2 ^ lastExponent p x) * 2 ^ lastExponent p x

/-- The logarithm of an integer that is converted to a float of `p` bits. -/
noncomputable def floatLog (p n : Nat) : ℝ := roundFloat p (Real.logb 2 (roundFloat p (n : ℝ)))

variable {x : K} {n : Int}

theorem roundEven_cases (x : K) : roundEven x = ⌊x⌋ ∧ x ≤ ⌊x⌋ + 1 / 2 ∨ roundEven x = ⌊x⌋ + 1 ∧ ⌊x⌋ + 1 / 2 ≤ x := by
  have hsum := Int.floor_add_fract x
  unfold roundEven
  split_ifs with h
  · exact .inl ⟨rfl, by rcases h with h | ⟨h, -⟩ <;> linarith⟩
  · push Not at h
    exact .inr ⟨rfl, by linarith [h.1]⟩

theorem roundEven_le_iff (hn : n % 2 = 0) : roundEven x ≤ n ↔ x ≤ n + 1 / 2 := by
  have hsum := Int.floor_add_fract x
  have hlt := Int.fract_lt_one x
  have hnonneg := Int.fract_nonneg x
  rcases lt_trichotomy ⌊x⌋ n with hfloor | hfloor | hfloor
  · have hle : (⌊x⌋ : K) + 1 ≤ n := by exact_mod_cast hfloor
    refine iff_of_true ?_ (by linarith)
    rcases roundEven_cases x with ⟨h, -⟩ | ⟨h, -⟩ <;> omega
  · have heq : (⌊x⌋ : K) = n := by exact_mod_cast hfloor
    unfold roundEven
    split_ifs with h
    · exact iff_of_true hfloor.le (by rcases h with h | ⟨h, -⟩ <;> linarith)
    · push Not at h
      have hne : Int.fract x ≠ 1 / 2 := fun hhalf => h.2 hhalf (hfloor ▸ hn)
      have hhalf : 1 / 2 < Int.fract x := lt_of_le_of_ne h.1 hne.symm
      exact iff_of_false (by omega) (by linarith)
  · have hle : (n : K) + 1 ≤ ⌊x⌋ := by exact_mod_cast hfloor
    refine iff_of_false ?_ (by linarith)
    rcases roundEven_cases x with ⟨h, -⟩ | ⟨h, -⟩ <;> omega

@[simp] theorem roundEven_neg (x : K) : roundEven (-x) = -roundEven x := by
  by_cases hint : Int.fract x = 0
  · obtain ⟨k, rfl⟩ : ∃ k : Int, (k : K) = x := ⟨⌊x⌋, by linarith [Int.floor_add_fract x]⟩
    simp [roundEven, ← Int.cast_neg]
  · have hfract : Int.fract (-x) = 1 - Int.fract x := Int.fract_neg hint
    have hfloor : ⌊-x⌋ = -⌊x⌋ - 1 := by
      have hsum := Int.floor_add_fract x
      have hsum' := Int.floor_add_fract (-x)
      have hcast : ((⌊-x⌋ : Int) : K) = ((-⌊x⌋ - 1 : Int) : K) := by
        push_cast
        linarith
      exact_mod_cast hcast
    unfold roundEven
    rw [hfract, hfloor]
    rcases lt_trichotomy (Int.fract x) (1 / 2) with h | h | h
    · rw [if_neg (by push Not; exact ⟨by linarith, fun h' => by linarith⟩), if_pos (.inl h)]
      omega
    · rw [h]
      rcases Int.emod_two_eq_zero_or_one ⌊x⌋ with heven | hodd
      · rw [if_neg (by push Not; exact ⟨by linarith, fun _ => by omega⟩), if_pos (.inr ⟨rfl, heven⟩)]
        omega
      · rw [if_pos (.inr ⟨by linarith, by omega⟩), if_neg (by push Not; exact ⟨le_rfl, fun _ => by omega⟩)]
        omega
    · rw [if_pos (.inl (by linarith)), if_neg (by push Not; exact ⟨h.le, fun h' => by linarith⟩)]
      omega

theorem le_roundEven_iff (hn : n % 2 = 0) : n ≤ roundEven x ↔ n - 1 / 2 ≤ x := by
  have h : -roundEven x ≤ -n ↔ -x ≤ ((-n : Int) : K) + 1 / 2 := by
    rw [← roundEven_neg]
    exact roundEven_le_iff (by omega)
  push_cast at h
  constructor
  · intro hle
    linarith [h.mp (by omega)]
  · intro hle
    have := h.mpr (by linarith)
    omega

theorem roundEven_le_of_le (h : x ≤ n) : roundEven x ≤ n := by
  rcases roundEven_cases x with ⟨hr, -⟩ | ⟨hr, hx⟩
  · rw [hr]
    exact_mod_cast (Int.floor_le x).trans h
  · have hlt : ((⌊x⌋ : Int) : K) < n := by linarith
    have : ⌊x⌋ < n := by exact_mod_cast hlt
    omega

theorem le_roundEven_of_le (h : n ≤ x) : n ≤ roundEven x := by
  have hfloor : n ≤ ⌊x⌋ := Int.le_floor.mpr h
  rcases roundEven_cases x with ⟨hr, -⟩ | ⟨hr, -⟩ <;> omega

@[simp] theorem roundAway_neg (x : K) : roundAway (-x) = -roundAway x := by
  unfold roundAway
  rcases lt_trichotomy x 0 with h | rfl | h
  · rw [if_pos (by linarith), if_neg (by linarith), neg_neg]
  · have hhalf : ⌊(0 : K) + 1 / 2⌋ = 0 := Int.floor_eq_iff.mpr ⟨by norm_num, by norm_num⟩
    simp only [neg_zero, le_refl, ↓reduceIte, hhalf]
  · rw [if_neg (by linarith), if_pos h.le, neg_neg]

theorem roundAway_le_iff (hn : 0 ≤ n) : roundAway x ≤ n ↔ x < n + 1 / 2 := by
  have hcast : (0 : K) ≤ n := by exact_mod_cast hn
  unfold roundAway
  split_ifs with h
  · rw [← Int.lt_add_one_iff, Int.floor_lt]
    push_cast
    constructor <;> intro h' <;> linarith
  · have hfloor : 0 ≤ ⌊-x + 1 / 2⌋ := Int.floor_nonneg.mpr (by linarith)
    exact iff_of_true (by omega) (by linarith)

@[simp] theorem roundFloat_neg (p : Nat) (x : K) : roundFloat p (-x) = -roundFloat p x := by
  have hlast : lastExponent p (-x) = lastExponent p x := by rw [lastExponent, lastExponent, abs_neg]
  rw [roundFloat, roundFloat, hlast, neg_div, roundEven_neg, Int.cast_neg, neg_mul]

/-- A float keeps its place between the powers of two. -/
theorem roundFloat_between {p : Nat} (hp : 0 < p) (hx : 0 < x) :
    2 ^ Int.log 2 x ≤ roundFloat p x ∧ roundFloat p x ≤ 2 ^ (Int.log 2 x + 1) := by
  have hlow : (2 : K) ^ Int.log 2 x ≤ x := by exact_mod_cast Int.zpow_log_le_self (b := 2) (by decide) hx
  have hhigh : x < (2 : K) ^ (Int.log 2 x + 1) := by
    exact_mod_cast Int.lt_zpow_succ_log_self (b := 2) (by decide) x
  have hunit : (0 : K) < 2 ^ lastExponent p x := by positivity
  have habs : lastExponent p x = Int.log 2 x + 1 - p := by rw [lastExponent, abs_of_pos hx]
  have hsplit : (2 : K) ^ (Int.log 2 x + 1) = ((2 ^ p : Int) : K) * 2 ^ lastExponent p x := by
    push_cast
    rw [← zpow_natCast, ← zpow_add₀ (by norm_num), habs]
    congr 1
    omega
  have hsplit' : (2 : K) ^ Int.log 2 x = ((2 ^ (p - 1) : Int) : K) * 2 ^ lastExponent p x := by
    push_cast
    rw [← zpow_natCast, ← zpow_add₀ (by norm_num), habs]
    congr 1
    omega
  unfold roundFloat
  constructor
  · rw [hsplit']
    refine mul_le_mul_of_nonneg_right ?_ hunit.le
    have hle := le_roundEven_of_le (n := 2 ^ (p - 1)) ((le_div_iff₀ hunit).mpr (hsplit' ▸ hlow))
    exact_mod_cast hle
  · rw [hsplit]
    refine mul_le_mul_of_nonneg_right ?_ hunit.le
    have hle := roundEven_le_of_le (n := 2 ^ p) ((div_le_iff₀ hunit).mpr (hsplit ▸ hhigh.le))
    exact_mod_cast hle

theorem roundFloat_nonpos (p : Nat) (hx : x ≤ 0) : roundFloat p x ≤ 0 := by
  have hunit : (0 : K) < 2 ^ lastExponent p x := by positivity
  have hle : roundEven (x / 2 ^ lastExponent p x) ≤ 0 :=
    roundEven_le_of_le (by simpa using div_nonpos_of_nonpos_of_nonneg hx hunit.le)
  exact mul_nonpos_of_nonpos_of_nonneg (by exact_mod_cast hle) hunit.le

theorem roundFloat_cases {p : Nat} (hp : 0 < p) (hx : 0 < x) (e : Int) :
    x < 2 ^ (e + p - 1) ∧ roundFloat p x ≤ 2 ^ (e + p - 1) ∨
      roundFloat p x = roundEven (x / 2 ^ e) * 2 ^ e ∨
      2 ^ (e + p) ≤ x ∧ 2 ^ (e + p) ≤ roundFloat p x := by
  obtain ⟨hlow, hhigh⟩ := roundFloat_between hp hx
  have hself : (2 : K) ^ Int.log 2 x ≤ x := by exact_mod_cast Int.zpow_log_le_self (b := 2) (by decide) hx
  have hsucc : x < (2 : K) ^ (Int.log 2 x + 1) := by
    exact_mod_cast Int.lt_zpow_succ_log_self (b := 2) (by decide) x
  rcases lt_trichotomy (Int.log 2 x + 1) (e + p) with h | h | h
  · have hpow : (2 : K) ^ (Int.log 2 x + 1) ≤ 2 ^ (e + p - 1) := zpow_le_zpow_right₀ (by norm_num) (by omega)
    exact .inl ⟨hsucc.trans_le hpow, hhigh.trans hpow⟩
  · have hlast : lastExponent p x = e := by rw [lastExponent, abs_of_pos hx]; omega
    exact .inr (.inl (by rw [roundFloat, hlast]))
  · have hpow : (2 : K) ^ (e + p) ≤ 2 ^ Int.log 2 x := zpow_le_zpow_right₀ (by norm_num) (by omega)
    exact .inr (.inr ⟨hpow.trans hself, hpow.trans hlow⟩)

theorem roundFloat_le_iff {p : Nat} (hp : 0 < p) {m : Int} (hm : 2 ^ (p - 1) ≤ m) (hm' : m < 2 ^ p) (e : Int) :
    roundFloat p x ≤ m * 2 ^ e ↔ roundEven (x / 2 ^ e) ≤ m := by
  have hunit : (0 : K) < 2 ^ e := by positivity
  have hlow : (2 : K) ^ (e + p - 1) ≤ m * 2 ^ e := by
    have hsplit : (2 : K) ^ (e + p - 1) = ((2 ^ (p - 1) : Int) : K) * 2 ^ e := by
      push_cast
      rw [← zpow_natCast, ← zpow_add₀ (by norm_num)]
      congr 1
      omega
    rw [hsplit]
    exact mul_le_mul_of_nonneg_right (by exact_mod_cast hm) hunit.le
  have hhigh : (2 : K) ^ (e + p) = ((2 ^ p : Int) : K) * 2 ^ e := by
    rw [zpow_add₀ (by norm_num), mul_comm, zpow_natCast]
    push_cast
    rfl
  have hbelow : x ≤ m * 2 ^ e → roundEven (x / 2 ^ e) ≤ m := fun h =>
    roundEven_le_of_le ((div_le_iff₀ hunit).mpr h)
  have hpos : (0 : K) < 2 ^ (e + p - 1) := by positivity
  rcases le_or_gt x 0 with hx | hx
  · exact iff_of_true ((roundFloat_nonpos p hx).trans (by linarith)) (hbelow (by linarith))
  rcases roundFloat_cases hp hx e with ⟨hlt, hle⟩ | heq | ⟨hle, hle'⟩
  · exact iff_of_true (hle.trans hlow) (hbelow (by linarith))
  · rw [heq, mul_le_mul_iff_left₀ hunit, Int.cast_le]
  · have hlt : (m : K) * 2 ^ e < 2 ^ (e + p) := hhigh ▸ mul_lt_mul_of_pos_right (by exact_mod_cast hm') hunit
    have habove := le_roundEven_of_le (n := 2 ^ p) ((le_div_iff₀ hunit).mpr (hhigh ▸ hle))
    exact iff_of_false (not_le.mpr (hlt.trans_le hle')) (not_le.mpr (hm'.trans_le habove))

theorem le_roundFloat_iff {p : Nat} (hp : 0 < p) {m : Int} (hm : 2 ^ (p - 1) < m) (hm' : m ≤ 2 ^ p) (e : Int) :
    m * 2 ^ e ≤ roundFloat p x ↔ m ≤ roundEven (x / 2 ^ e) := by
  have hunit : (0 : K) < 2 ^ e := by positivity
  have hlow : (2 : K) ^ (e + p - 1) = ((2 ^ (p - 1) : Int) : K) * 2 ^ e := by
    push_cast
    rw [← zpow_natCast, ← zpow_add₀ (by norm_num)]
    congr 1
    omega
  have hhigh : (m : K) * 2 ^ e ≤ 2 ^ (e + p) := by
    rw [zpow_add₀ (by norm_num), mul_comm, zpow_natCast]
    exact mul_le_mul_of_nonneg_left (by exact_mod_cast hm') hunit.le
  have hpow : (2 : K) ^ (e + p - 1) < m * 2 ^ e := hlow ▸ mul_lt_mul_of_pos_right (by exact_mod_cast hm) hunit
  have hpos : (0 : K) < 2 ^ (e + p - 1) := by positivity
  have hbelow : x ≤ 2 ^ (e + p - 1) → roundEven (x / 2 ^ e) < m := fun h =>
    (roundEven_le_of_le (n := 2 ^ (p - 1)) ((div_le_iff₀ hunit).mpr (hlow ▸ h))).trans_lt hm
  rcases le_or_gt x 0 with hx | hx
  · exact iff_of_false (by linarith [roundFloat_nonpos p hx]) (not_le.mpr (hbelow (by linarith)))
  rcases roundFloat_cases hp hx e with ⟨hlt, hle⟩ | heq | ⟨hle, hle'⟩
  · exact iff_of_false (not_le.mpr (hle.trans_lt hpow)) (not_le.mpr (hbelow hlt.le))
  · rw [heq, mul_le_mul_iff_left₀ hunit, Int.cast_le]
  · exact iff_of_true (hhigh.trans hle') (le_roundEven_of_le ((le_div_iff₀ hunit).mpr (hhigh.trans hle)))

/-- What is rounded to a float with an even last bit, or below it. -/
theorem roundFloat_le_iff_of_even {p : Nat} (hp : 0 < p) {m : Int} (heven : m % 2 = 0) (hm : 2 ^ (p - 1) ≤ m)
    (hm' : m < 2 ^ p) (e : Int) : roundFloat p x ≤ m * 2 ^ e ↔ x ≤ (m + 1 / 2) * 2 ^ e := by
  rw [roundFloat_le_iff hp hm hm', roundEven_le_iff heven, div_le_iff₀ (by positivity)]

/-- What is rounded to a float with an even last bit, or above it. -/
theorem le_roundFloat_iff_of_even {p : Nat} (hp : 0 < p) {m : Int} (heven : m % 2 = 0) (hm : 2 ^ (p - 1) < m)
    (hm' : m ≤ 2 ^ p) (e : Int) : m * 2 ^ e ≤ roundFloat p x ↔ (m - 1 / 2) * 2 ^ e ≤ x := by
  rw [le_roundFloat_iff hp hm hm', le_roundEven_iff heven, le_div_iff₀ (by positivity)]

theorem roundFloat_le_of_le {p : Nat} (hp : 0 < p) {m : Int} (hm : 2 ^ (p - 1) ≤ m) (hm' : m < 2 ^ p) (e : Int)
    (h : x ≤ m * 2 ^ e) : roundFloat p x ≤ m * 2 ^ e :=
  (roundFloat_le_iff hp hm hm' e).mpr (roundEven_le_of_le ((div_le_iff₀ (by positivity)).mpr h))

theorem le_roundFloat_of_le {p : Nat} (hp : 0 < p) {m : Int} (hm : 2 ^ (p - 1) < m) (hm' : m ≤ 2 ^ p) (e : Int)
    (h : m * 2 ^ e ≤ x) : m * 2 ^ e ≤ roundFloat p x :=
  (le_roundFloat_iff hp hm hm' e).mpr (le_roundEven_of_le ((le_div_iff₀ (by positivity)).mpr h))

omit [FloorRing K] in
theorem two_pow_scaled (p k : Nat) : ((2 ^ p : Int) : K) * 2 ^ ((k : Int) - p) = 2 ^ k := by
  push_cast
  rw [← zpow_natCast, ← zpow_natCast, ← zpow_add₀ two_ne_zero]
  congr 1
  omega

theorem roundFloat_le_two_pow {p k : Nat} (hp : 0 < p) (h : x ≤ 2 ^ k) : roundFloat p x ≤ 2 ^ k := by
  obtain ⟨q, rfl⟩ : ∃ q, p = q + 1 := ⟨p - 1, by omega⟩
  rw [← two_pow_scaled q k] at h ⊢
  exact roundFloat_le_of_le hp le_rfl (pow_lt_pow_right₀ (by decide) (Nat.lt_succ_self q)) _ h

theorem two_pow_le_roundFloat {p k : Nat} (hp : 0 < p) (h : 2 ^ k ≤ x) : 2 ^ k ≤ roundFloat p x := by
  rw [← two_pow_scaled p k] at h ⊢
  exact le_roundFloat_of_le hp (pow_lt_pow_right₀ (by decide) (by omega)) le_rfl _ h

end Ocudu
