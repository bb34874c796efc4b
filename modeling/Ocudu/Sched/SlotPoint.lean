import Mathlib.Tactic

/-! `ran/slot_point.h` and `scheduler/resource_grid_util.h`: slots that wrap around with the
hyper frame, and the size of the rings that are indexed by them. -/

namespace Ocudu.Sched

structure SlotPoint where
  numerology : Nat
  count : Nat
  deriving DecidableEq

namespace SlotPoint

def nofNumerologies : Nat := 5

def invalid : SlotPoint := ⟨nofNumerologies, 0⟩

def valid (sl : SlotPoint) : Bool := sl.numerology < nofNumerologies

def nofSlotsPerFrame (sl : SlotPoint) : Nat := 2 ^ sl.numerology * 10

def nofSlotsPerHyperSystemFrame (sl : SlotPoint) : Nat := sl.nofSlotsPerFrame * 1024

/-- The comparison goes round the hyper frame; both slots are of one numerology. -/
def lt (sl other : SlotPoint) : Bool :=
  let v : Int := other.count - sl.count
  if 0 < v then v < (sl.nofSlotsPerHyperSystemFrame / 2 : Nat)
  else v < -((sl.nofSlotsPerHyperSystemFrame / 2 : Nat) : Int)

def max (a b : SlotPoint) : SlotPoint := if a.lt b then b else a

def add (sl : SlotPoint) (jump : Nat) : SlotPoint :=
  { sl with count := (sl.count + jump) % 2 ^ 32 % sl.nofSlotsPerHyperSystemFrame }

def sub (sl : SlotPoint) (jump : Nat) : SlotPoint :=
  { sl with count := (((sl.count : Int) - jump) % (sl.nofSlotsPerHyperSystemFrame : Nat)).toNat }

def diff (sl other : SlotPoint) : Int :=
  let a : Int := sl.count - other.count
  if ((sl.nofSlotsPerHyperSystemFrame / 2 : Nat) : Int) ≤ a then a - (sl.nofSlotsPerHyperSystemFrame : Nat)
  else if a < -((sl.nofSlotsPerHyperSystemFrame / 2 : Nat) : Int) then a + (sl.nofSlotsPerHyperSystemFrame : Nat)
  else a

end SlotPoint

def divideCeil (num den : Nat) : Nat := (num + (den - 1)) % 2 ^ 32 / den

/-- The loop of `power2_ceil`; a 32-bit word is shifted at most 32 times. -/
def power2Loop : Nat → Nat → Nat → Nat
  | 0, _, power => power
  | fuel + 1, x, power => if x / 2 = 0 then power else power2Loop fuel (x / 2) (power * 2)

def power2Ceil (x : Nat) : Nat := if x ≤ 1 then 1 else power2Loop 32 (x - 1) 2

theorem power2Loop_eq {fuel x : Nat} (power : Nat) (hx : x ≠ 0) (hfuel : x < 2 ^ (fuel + 1)) :
    power2Loop fuel x power = power * 2 ^ Nat.log 2 x := by
  induction fuel generalizing x power with
  | zero =>
    have hlog : Nat.log 2 x = 0 := Nat.log_of_lt (by simpa using hfuel)
    simp [power2Loop, hlog]
  | succ fuel ih =>
    rw [power2Loop]
    split_ifs with hhalf
    · have hlog : Nat.log 2 x = 0 := Nat.log_of_lt (by omega)
      simp [hlog]
    · have hlt : x / 2 < 2 ^ (fuel + 1) := by
        rw [Nat.pow_succ] at hfuel
        omega
      rw [ih (power * 2) hhalf hlt, Nat.log_div_base]
      have hlog : 0 < Nat.log 2 x := Nat.log_pos (by decide) (by omega)
      rw [Nat.mul_assoc, ← Nat.pow_succ', Nat.succ_eq_add_one, Nat.sub_add_cancel hlog]

theorem power2Ceil_spec {x : Nat} (hx : x ≤ 2 ^ 32) :
    ∃ k, power2Ceil x = 2 ^ k ∧ x ≤ 2 ^ k ∧ ∀ m, x ≤ 2 ^ m → k ≤ m := by
  unfold power2Ceil
  split_ifs with h1
  · exact ⟨0, rfl, h1, fun m _ => Nat.zero_le m⟩
  · refine ⟨Nat.log 2 (x - 1) + 1, ?_, ?_, ?_⟩
    · rw [power2Loop_eq 2 (by omega) (by omega), Nat.pow_succ']
    · have hlt := Nat.lt_pow_succ_log_self (b := 2) (by decide) (x - 1)
      rw [Nat.succ_eq_add_one] at hlt
      omega
    · intro m hm
      exact Nat.log_lt_of_lt_pow (by omega) (by omega)

def getAllocatorRingSizeGtMin (minimumValue : Nat) : Nat :=
  power2Ceil (divideCeil minimumValue 10) * 10 % 2 ^ 32

theorem getAllocatorRingSizeGtMin_spec (n : Nat) :
    ∃ k, getAllocatorRingSizeGtMin n = 10 * 2 ^ k ∨ getAllocatorRingSizeGtMin n = 2 ^ 30 := by
  have hlt : divideCeil n 10 ≤ 2 ^ 29 := by
    unfold divideCeil
    lia
  obtain ⟨k, hk, -, hmin⟩ := power2Ceil_spec (x := divideCeil n 10) (by omega)
  have hk29 : k ≤ 29 := hmin 29 hlt
  refine ⟨k, ?_⟩
  rw [getAllocatorRingSizeGtMin, hk]
  rcases Nat.lt_or_eq_of_le hk29 with hk28 | rfl
  · left
    have hpow : 2 ^ k ≤ 2 ^ 28 := Nat.pow_le_pow_right (by decide) (by omega)
    rw [Nat.mod_eq_of_lt (by omega), Nat.mul_comm]
  · right
    rfl

theorem le_getAllocatorRingSizeGtMin {n : Nat} (hn : n ≤ 2 ^ 31) :
    n ≤ getAllocatorRingSizeGtMin n := by
  have hdiv : divideCeil n 10 = (n + 9) / 10 := by
    unfold divideCeil
    rw [Nat.mod_eq_of_lt (by omega)]
  obtain ⟨k, hk, hle, hmin⟩ := power2Ceil_spec (x := divideCeil n 10) (by omega)
  have hk28 : 2 ^ k ≤ 2 ^ 28 := Nat.pow_le_pow_right (by decide) (hmin 28 (by omega))
  rw [getAllocatorRingSizeGtMin, hk, Nat.mod_eq_of_lt (by omega)]
  omega

def schedulerMaxK0 : Nat := 15
def schedulerMaxK1 : Nat := 15
def schedulerMaxK2 : Nat := 11
def maxMsg3Delta : Nat := 6
def maxSrsSlotOffset : Nat := 32

def getMaxSlotUlAllocDelay (ntnCsKoffset : Nat) : Nat :=
  (Nat.max (schedulerMaxK0 + Nat.max schedulerMaxK1 (schedulerMaxK2 + maxMsg3Delta))
    maxSrsSlotOffset + ntnCsKoffset) % 2 ^ 32

end Ocudu.Sched
