import Mathlib.Tactic

/-! `log_likelihood_ratio`: soft bits and their saturated sum. -/

namespace Ocudu.Phy

structure LogLikelihoodRatio where
  value : Int
  valid : (-120 ≤ value ∧ value ≤ 120) ∨ value = 127 ∨ value = -127
  deriving DecidableEq

namespace LogLikelihoodRatio

def llrMax : Int := 120

instance : Zero LogLikelihoodRatio := ⟨⟨0, by decide⟩⟩

def infinity : LogLikelihoodRatio := ⟨127, by decide⟩

instance : Neg LogLikelihoodRatio := ⟨fun x => ⟨-x.value, by have := x.valid; omega⟩⟩

variable (x : LogLikelihoodRatio)

def isfinite : Bool := -llrMax ≤ x.value && x.value ≤ llrMax

def isinf : Bool := !isfinite x

/-- The sum if a summand is infinite, or the summands cancel each other. -/
def tackleSpecialSums (a b : LogLikelihoodRatio) : Option LogLikelihoodRatio :=
  if a = -b then some 0
  else if a.isinf then some a
  else if b.isinf then some b
  else none

def saturate (tmp : Int) : LogLikelihoodRatio :=
  if h : 120 < tmp then ⟨120, by decide⟩
  else if h' : tmp < -120 then ⟨-120, by decide⟩
  else ⟨tmp, by omega⟩

def addAssign (x rhs : LogLikelihoodRatio) : LogLikelihoodRatio :=
  match tackleSpecialSums x rhs with
  | some special => special
  | none => saturate (x.value + rhs.value)

/-- The left summand is added to the right one. -/
instance : Add LogLikelihoodRatio := ⟨fun x rhs => rhs.addAssign x⟩

theorem add_def (x y : LogLikelihoodRatio) : x + y = y.addAssign x := rfl

@[simp] theorem value_zero : (0 : LogLikelihoodRatio).value = 0 := rfl

@[simp] theorem value_neg : (-x).value = -x.value := rfl

theorem ext_iff {x y : LogLikelihoodRatio} : x = y ↔ x.value = y.value := by
  cases x
  cases y
  simp

theorem isinf_iff : x.isinf = true ↔ x.value = 127 ∨ x.value = -127 := by
  have h := x.valid
  rw [isinf, isfinite, llrMax, Bool.not_eq_true', ← Bool.not_eq_true, Bool.and_eq_true, decide_eq_true_eq,
    decide_eq_true_eq]
  lia

theorem saturate_value {x : LogLikelihoodRatio} (h : ¬x.isinf = true) : saturate x.value = x := by
  have hv := x.valid
  rw [isinf_iff] at h
  rw [saturate, dif_neg (by omega), dif_neg (by omega)]

@[simp] theorem not_isinf_zero : ¬(0 : LogLikelihoodRatio).isinf = true := by decide

theorem eq_zero_of_eq_neg_zero {x : LogLikelihoodRatio} (h : x = -0) : x = 0 := by
  rw [h, ext_iff, value_neg, value_zero]
  rfl

@[simp] theorem zero_add : 0 + x = x := by
  rw [add_def, addAssign, tackleSpecialSums]
  by_cases hzero : x = -0
  · rw [if_pos hzero]
    exact (eq_zero_of_eq_neg_zero hzero).symm
  rw [if_neg hzero]
  by_cases hinf : x.isinf = true
  · rw [if_pos hinf]
  rw [if_neg hinf, if_neg not_isinf_zero, value_zero, Int.add_zero, saturate_value hinf]

@[simp] theorem add_zero : x + 0 = x := by
  rw [add_def, addAssign, tackleSpecialSums]
  by_cases hzero : (0 : LogLikelihoodRatio) = -x
  · have hx : x = 0 := by
      rw [ext_iff, value_neg, value_zero] at hzero
      rw [ext_iff, value_zero]
      omega
    rw [if_pos hzero, hx]
  rw [if_neg hzero, if_neg not_isinf_zero]
  by_cases hinf : x.isinf = true
  · rw [if_pos hinf]
  rw [if_neg hinf, value_zero, Int.zero_add, saturate_value hinf]

end LogLikelihoodRatio

end Ocudu.Phy
