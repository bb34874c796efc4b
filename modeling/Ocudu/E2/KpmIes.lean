import Mathlib.Tactic

/-! What the KPM service model reads of the E2SM-KPM messages. -/

namespace Ocudu.E2

/-- Why a function ends the process. -/
inductive Abort
  /-- Access to an alternative of a CHOICE that is not the one present. -/
  | wrongChoice
  | wrongVariant
  | outOfRange

inductive MeasType
  | measName (name : String)
  | measId (id : Nat)

namespace MeasType

def name : MeasType → Except Abort String
  | measName name => .ok name
  | measId _ => .error .wrongChoice

end MeasType

inductive UeId
  | gnbUeId
  | gnbDuUeId (gnbCuUeF1apId : Nat)
  | gnbCuUpUeId
  | ngEnbUeId
  | ngEnbDuUeId
  | enGnbUeId
  | enbUeId

namespace UeId

def gnbCuUeF1apId : UeId → Except Abort Nat
  | gnbDuUeId id => .ok id
  | _ => .error .wrongChoice

end UeId

inductive MeasRecordItem
  | integer (value : Nat)
  | real (value : Float32)
  | noValue
  | notSatisfied

end Ocudu.E2
