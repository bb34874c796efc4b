import Ocudu.Basic.CircularMap
import Ocudu.Basic.Machine

/-! `pdcp_sn_size.h`, `pdcp_sn.h`, `pdcp_entity_tx_rx_base.h` and `sdu_window.h`: what the
two sides of a PDCP entity share. -/

namespace Ocudu.Pdcp

inductive PdcpSnSize
  | size12bits
  | size18bits

def PdcpSnSize.toUint : PdcpSnSize → Nat
  | .size12bits => 12
  | .size18bits => 18

inductive PdcpRbType
  | srb
  | drb
  deriving DecidableEq

inductive PdcpRlcMode
  | um
  | am
  deriving DecidableEq

namespace PdcpSnSize

variable (sz : PdcpSnSize)

def windowSize : Nat := 2 ^ (sz.toUint - 1)

def cardinality : Nat := 2 ^ sz.toUint

def headerSize : Nat :=
  match sz with
  | .size12bits => 2
  | .size18bits => 3

def snOf (count : Nat) : Nat := count % 2 ^ sz.toUint

def hfnOf (count : Nat) : Nat := count / 2 ^ sz.toUint

def countOf (hfn sn : Nat) : Nat := (hfn * 2 ^ sz.toUint) % 2 ^ 32 ||| sn

def inferCount (lower sn : Nat) : Nat :=
  if sn + sz.windowSize < sz.snOf lower then sz.countOf ((sz.hfnOf lower + 1) % 2 ^ 32) sn
  else if sn ≥ sz.snOf lower + sz.windowSize then
    sz.countOf ((sz.hfnOf lower + (2 ^ 32 - 1)) % 2 ^ 32) sn
  else sz.countOf (sz.hfnOf lower) sn

theorem cardinality_eq : sz.cardinality = 2 * sz.windowSize := by
  cases sz <;> rfl

theorem windowSize_dvd : sz.windowSize ∣ 2 ^ 32 := by
  cases sz <;> decide

theorem windowSize_pos : 0 < sz.windowSize := by
  cases sz <;> decide

theorem snOf_lt (count : Nat) : sz.snOf count < sz.cardinality := Nat.mod_lt _ (by simp)

@[simp] theorem hfnOf_mul_add_snOf (count : Nat) :
    sz.hfnOf count * sz.cardinality + sz.snOf count = count := Nat.div_add_mod' _ _

theorem countOf_eq {hfn sn : Nat} (hhfn : hfn * sz.cardinality < 2 ^ 32)
    (hsn : sn < sz.cardinality) : sz.countOf hfn sn = hfn * sz.cardinality + sn := by
  unfold countOf
  unfold cardinality at hhfn hsn ⊢
  rw [Nat.mod_eq_of_lt hhfn, Nat.mul_comm, Nat.two_pow_add_eq_or_of_lt hsn]

theorem inferCount_snOf {lower count : Nat} (hlo : lower ≤ count)
    (hhi : count < lower + sz.windowSize) (hlt : count < 2 ^ 32) :
    sz.inferCount lower (sz.snOf count) = count := by
  have hl := sz.hfnOf_mul_add_snOf lower
  have hc := sz.hfnOf_mul_add_snOf count
  have hcard := sz.cardinality_eq
  have hsl := sz.snOf_lt lower
  have hsc := sz.snOf_lt count
  have hwin := sz.windowSize_pos
  have hle : sz.hfnOf lower ≤ sz.hfnOf count := Nat.div_le_div_right hlo
  have hstep : (sz.hfnOf lower + 1) * sz.cardinality = sz.hfnOf lower * sz.cardinality +
      sz.cardinality := Nat.succ_mul _ _
  rcases Nat.lt_or_eq_of_le hle with hnext | hsame
  · have hq : sz.hfnOf count = sz.hfnOf lower + 1 := by
      by_contra hne
      have hmul := Nat.mul_le_mul_right sz.cardinality
        (show sz.hfnOf lower + 2 ≤ sz.hfnOf count by omega)
      have htwo : (sz.hfnOf lower + 2) * sz.cardinality = sz.hfnOf lower * sz.cardinality +
        2 * sz.cardinality := Nat.add_mul _ _ _
      lia
    rw [hq] at hc
    have hmod : (sz.hfnOf lower + 1) % 2 ^ 32 = sz.hfnOf lower + 1 := by
      apply Nat.mod_eq_of_lt
      have hpos : 1 ≤ sz.cardinality := by omega
      have := Nat.mul_le_mul_left (sz.hfnOf lower + 1) hpos
      omega
    rw [inferCount, if_pos (by omega), hmod, sz.countOf_eq (by omega) hsc]
    omega
  · rw [← hsame] at hc
    rw [inferCount, if_neg (by omega), if_neg (by omega), sz.countOf_eq (by omega) hsc]
    omega

end PdcpSnSize

/-- What a run must never do: touch a COUNT that its window does not hold, fail an assertion
of the code, or stay in a loop beyond the bound that the model gives it. -/
inductive Fault
  | absentSn
  | addSn
  | arrivalTime
  | bearerType
  | loopBound
  deriving DecidableEq

/-! `sdu_window`: a circular map whose misuse is an assertion failure. -/

namespace SduWindow

variable {V : Type}

def addSn (w : CircularMap V) (sn : Nat) (v : V) : Except Fault (CircularMap V) :=
  if w.contains sn then .error .addSn else .ok (w.overwrite sn v)

def removeSn (w : CircularMap V) (sn : Nat) : Except Fault (CircularMap V) :=
  if w.contains sn then .ok (w.erase sn) else .error .absentSn

def get (w : CircularMap V) (sn : Nat) : Except Fault V :=
  match w.lookup sn with
  | some v => .ok v
  | none => .error .absentSn

end SduWindow

end Ocudu.Pdcp
