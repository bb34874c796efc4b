import Mathlib.Tactic

/-! Sequence numbers modulo `m`.  A window of a protocol is a range of absolute
positions; the wire and the state variables only carry them modulo `m`. -/

namespace Ocudu.SeqNum

variable {m a j k x y : Nat}

/-- How far `x` lies ahead of `a`, going round modulo `m`. -/
def dist (m a x : Nat) : Nat := (x + (m - a % m)) % m

def subU32 (x a : Nat) : Nat := dist (2 ^ 32) a x

theorem dist_lt (hm : 0 < m) (a x : Nat) : dist m a x < m := Nat.mod_lt _ hm

@[simp] theorem dist_mod_left (m a x : Nat) : dist m (a % m) x = dist m a x := by
  simp [dist]

@[simp] theorem dist_mod_right (m a x : Nat) : dist m a (x % m) = dist m a x := by
  simp [dist, Nat.add_mod]

theorem dist_of_le (h : a ≤ k) (hk : k < a + m) : dist m a k = k - a := by
  have ha : a % m < m := Nat.mod_lt _ (by omega)
  have hdecomp := Nat.div_add_mod a m
  have hsum : k + (m - a % m) = (k - a) + m * (a / m + 1) := by
    rw [Nat.mul_add]
    omega
  rw [dist, hsum, Nat.add_mul_mod_self_left, Nat.mod_eq_of_lt (by omega)]

theorem dist_abs (h : a ≤ k) (hk : k < a + m) : dist m (a % m) (k % m) = k - a := by
  rw [dist_mod_left, dist_mod_right, dist_of_le h hk]

theorem dist_self (hm : 0 < m) (a : Nat) : dist m a a = 0 := by
  rw [dist_of_le (Nat.le_refl a) (by omega)]
  omega

theorem add_dist_mod (hm : 0 < m) (a x : Nat) : (a + dist m a x) % m = x % m := by
  have ha : a % m < m := Nat.mod_lt _ hm
  have hdecomp := Nat.div_add_mod a m
  have hsum : a + (x + (m - a % m)) = x + m * (a / m + 1) := by
    rw [Nat.mul_add]
    omega
  rw [dist, Nat.add_mod, Nat.mod_mod, ← Nat.add_mod, hsum, Nat.add_mul_mod_self_left]

theorem dist_unique (hy : y < m) (h : (a + y) % m = x % m) : dist m a x = y := by
  rw [← dist_mod_right, ← h, dist_mod_right, dist_of_le (by omega) (by omega)]
  omega

theorem exists_abs (hm : 0 < m) (a : Nat) (hx : x < m) :
    ∃ k, a ≤ k ∧ k < a + m ∧ k % m = x := by
  have hlt := dist_lt hm a x
  refine ⟨a + dist m a x, by omega, by omega, ?_⟩
  rw [add_dist_mod hm, Nat.mod_eq_of_lt hx]

theorem mod_inj_of_window (hj : a ≤ j) (hj' : j < a + m) (hk : a ≤ k) (hk' : k < a + m)
    (h : j % m = k % m) : j = k := by
  have h1 := dist_abs hj hj'
  have h2 := dist_abs hk hk'
  rw [h, h2] at h1
  omega

theorem dist_of_behind (h : k < a) (hk : a ≤ k + m) : dist m a k = k + m - a := by
  have h1 : dist m a (k + m) = k + m - a := dist_of_le (by omega) (by omega)
  rw [← h1, ← dist_mod_right m a (k + m), Nat.add_mod_right, dist_mod_right]

theorem subU32_mod (hdvd : m ∣ 2 ^ 32) (x a : Nat) : subU32 x a % m = dist m a x := by
  have hm : 0 < m := Nat.pos_of_dvd_of_pos hdvd (by decide)
  symm
  apply dist_unique (Nat.mod_lt _ hm)
  have h : (a + subU32 x a) % 2 ^ 32 % m = x % 2 ^ 32 % m := by
    rw [subU32, add_dist_mod (by decide)]
  rw [Nat.mod_mod_of_dvd _ hdvd, Nat.mod_mod_of_dvd _ hdvd] at h
  rw [Nat.add_mod, Nat.mod_mod, ← Nat.add_mod, h]

/-- Positions of one window fall into distinct residues modulo any divisor at least as
long as the window. -/
theorem mod_mod_ne_of_window {w : Nat} (hdvd : w ∣ m) (hj : a ≤ j) (hjk : j < k)
    (hk : k < a + w) : j % m % w ≠ k % m % w := by
  rw [Nat.mod_mod_of_dvd _ hdvd, Nat.mod_mod_of_dvd _ hdvd]
  intro h
  have := mod_inj_of_window (a := a) hj (by omega) (by omega) hk h
  omega

end Ocudu.SeqNum
