import Mathlib.Tactic

/-! Integer types of a fixed width, whose arithmetic wraps around. -/

namespace Ocudu

inductive IntType
  | int8
  | int16
  | int32
  | int64
  | uint8
  | uint16
  | uint32
  | uint64
  deriving DecidableEq

namespace IntType

def isSigned : IntType → Bool
  | .int8 | .int16 | .int32 | .int64 => true
  | .uint8 | .uint16 | .uint32 | .uint64 => false

def nofBits : IntType → Nat
  | .int8 | .uint8 => 8
  | .int16 | .uint16 => 16
  | .int32 | .uint32 => 32
  | .int64 | .uint64 => 64

def min (t : IntType) : Int := if t.isSigned then -2 ^ (t.nofBits - 1) else 0

def max (t : IntType) : Int := if t.isSigned then 2 ^ (t.nofBits - 1) - 1 else 2 ^ t.nofBits - 1

def wrap (t : IntType) (v : Int) : Int := (v - t.min) % 2 ^ t.nofBits + t.min

def promote : IntType → IntType
  | .int8 | .int16 | .uint8 | .uint16 => .int32
  | t => t

def Has (t : IntType) (v : Int) : Prop := t.min ≤ v ∧ v ≤ t.max

instance (t : IntType) (v : Int) : Decidable (t.Has v) := inferInstanceAs (Decidable (_ ∧ _))

variable {t : IntType} {v : Int}

theorem max_add_one (t : IntType) : t.max + 1 = t.min + 2 ^ t.nofBits := by
  cases t <;> rfl

theorem min_nonpos (t : IntType) : t.min ≤ 0 := by
  cases t <;> decide

theorem max_pos (t : IntType) : 0 < t.max := by
  cases t <;> decide

theorem wrap_of_has (h : t.Has v) : t.wrap v = v := by
  have hmax := t.max_add_one
  rw [wrap, Int.emod_eq_of_lt (by have := h.1; omega) (by have := h.2; omega)]
  omega

@[simp] theorem wrap_add_pow (t : IntType) (v : Int) : t.wrap (v + 2 ^ t.nofBits) = t.wrap v := by
  have hsub : v + 2 ^ t.nofBits - t.min = v - t.min + 2 ^ t.nofBits := by omega
  rw [wrap, wrap, hsub, Int.add_emod_right]

theorem wrap_wrap_add (t : IntType) (u v : Int) : t.wrap (t.wrap u + v) = t.wrap (u + v) := by
  have hsub : t.wrap u + v - t.min = (u - t.min) % 2 ^ t.nofBits + v := by
    rw [wrap]
    omega
  rw [wrap, hsub, Int.emod_add_emod, wrap]
  congr 2
  omega

theorem wrap_emod_pow (t : IntType) (v : Int) {k : Nat} (hk : k ≤ t.nofBits) : t.wrap v % 2 ^ k = v % 2 ^ k := by
  have hdvd : (2 ^ k : Int) ∣ 2 ^ t.nofBits := pow_dvd_pow 2 hk
  rw [wrap, ← Int.emod_add_emod, Int.emod_emod_of_dvd _ hdvd, Int.emod_add_emod, Int.sub_add_cancel]

theorem wrap_eq_sub (h : t.max < v) (h' : v ≤ t.max + 2 ^ t.nofBits) : t.wrap v = v - 2 ^ t.nofBits := by
  have hmax := t.max_add_one
  have hsplit : v = v - 2 ^ t.nofBits + 2 ^ t.nofBits := by omega
  rw [hsplit, wrap_add_pow, wrap_of_has ⟨by omega, by omega⟩]
  omega

end IntType

end Ocudu
