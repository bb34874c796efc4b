import Ocudu.Basic.Machine
import Ocudu.Basic.OrderedMap
import Ocudu.E2.KpmIes

/-! `e2sm_kpm_du_meas_provider_impl`: the measurements of the DU. -/

namespace Ocudu.E2

structure SchedulerUeMetrics where
  ueIndex : Nat
  totPdschPrbsUsed : Nat
  totPuschPrbsUsed : Nat
  puschSnrDb : Float32
  avgCrcDelayMs : Option Float32
  cqiMean : Option Float32

structure SchedulerCellMetrics where
  nofPrbs : Nat
  nofDlSlots : Nat
  nofUlSlots : Nat
  nofPrachPreambles : Nat
  ueMetrics : List SchedulerUeMetrics

inductive RlcTxModeMetrics
  | tm
  | um (numPduBytesWithSegmentation : Nat)
  | am (numPduBytesWithSegmentation : Nat)

structure RlcTxHighMetrics where
  numSdus : Nat
  numSduBytes : Nat
  numDroppedSdus : Nat
  numDiscardedSdus : Nat

structure RlcTxLowMetrics where
  numPduBytesNoSegmentation : Nat
  numOfPulledSdus : Nat
  sumSduLatencyUs : Nat
  modeSpecific : RlcTxModeMetrics

structure RlcRxMetrics where
  numPduBytes : Nat
  numSdus : Nat
  numSduBytes : Nat
  sduLatencyUs : Nat

structure RlcMetrics where
  ueIndex : Nat
  txHigh : RlcTxHighMetrics
  txLow : RlcTxLowMetrics
  rx : RlcRxMetrics
  metricsPeriod : Nat

structure KpmDuMeasProvider where
  nofCellPrbs : Nat
  nofDlSlots : Nat
  nofUlSlots : Nat
  nofDedCellPreambles : Nat
  lastUeMetrics : List SchedulerUeMetrics
  ueAggrRlcMetrics : OrderedMap Nat (List RlcMetrics)
  lastRlcMetricsClearTime : Nat
  maxRlcMetrics : Nat

namespace KpmDuMeasProvider

def init (now maxRlcMetrics : Nat) : KpmDuMeasProvider := ⟨0, 0, 0, 0, [], .empty, now, maxRlcMetrics⟩

section Reports

variable (p : KpmDuMeasProvider)

/-- The UEs that the F1AP does not know are forgotten, at most once in a second. -/
def clearRlcMetrics (now : Nat) (known : Nat → Bool) : KpmDuMeasProvider :=
  if now - p.lastRlcMetricsClearTime ≤ 1000 then p
  else { p with
    lastRlcMetricsClearTime := now
    ueAggrRlcMetrics := p.ueAggrRlcMetrics.keys.foldl (fun m ue => if known ue then m else m.erase ue) p.ueAggrRlcMetrics }

def reportCellMetrics (m : SchedulerCellMetrics) (now : Nat) (known : Nat → Bool) : KpmDuMeasProvider :=
  clearRlcMetrics { p with
    lastUeMetrics := m.ueMetrics
    nofCellPrbs := m.nofPrbs
    nofDlSlots := m.nofDlSlots
    nofUlSlots := m.nofUlSlots
    nofDedCellPreambles := m.nofPrachPreambles } now known

def pushMetrics (maxRlcMetrics : Nat) (m : RlcMetrics) (queue : List RlcMetrics) : List RlcMetrics :=
  if maxRlcMetrics < (queue ++ [m]).length then (queue ++ [m]).tail else queue ++ [m]

def reportRlcMetrics (m : RlcMetrics) : KpmDuMeasProvider :=
  let push (queue : Option (List RlcMetrics)) := some (pushMetrics p.maxRlcMetrics m (queue.getD []))
  { p with ueAggrRlcMetrics := p.ueAggrRlcMetrics.alter m.ueIndex push }

end Reports

section Arithmetic

def toUnsigned (n : Int) : Nat := (n % 2 ^ 32).toNat

end Arithmetic

section Getters

variable (p : KpmDuMeasProvider) (ueIndexOf : Nat → Nat)

def ueIndex (ue : UeId) : Except Abort Nat := return ueIndexOf (← ue.gnbCuUeF1apId)

def collect (ues : List UeId) (node : MeasRecordItem) (ofUe : Nat → MeasRecordItem) :
    Except Abort (Bool × List MeasRecordItem) := do
  if ues.isEmpty then return (true, [node])
  else return (true, ← ues.mapM fun ue => return ofUe (← ueIndex ueIndexOf ue))

section Scheduler

variable (labels : List LabelInfo)

end Scheduler

section Rlc

variable (labels : List LabelInfo)

end Rlc

end Getters

end KpmDuMeasProvider

end Ocudu.E2
