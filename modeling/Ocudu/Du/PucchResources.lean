import Ocudu.Basic.SlotCounters

/-! The PUCCH resources a DU cell gives to its UEs for SR and for periodic CSI. -/

namespace Ocudu.Du

inductive PucchFault
  | cell
  /-- A slot offset past the counters, or a counter that is already zero -/
  | counter
  /-- The cell and the UE disagree on whether CSI is reported. -/
  | csiMismatch

structure PeriodicPucchConfig where
  res : Nat
  offset : Nat
  deriving DecidableEq

structure TddUlDlConfig where
  slotsPerFrame : Nat
  activeUlSymbols : Nat → Nat

structure OfdmSymbolRange where
  start : Nat
  stop : Nat

def OfdmSymbolRange.overlaps (a b : OfdmSymbolRange) : Bool := decide (a.start < b.stop ∧ b.start < a.stop)

structure CsiReportConfig where
  periodSlots : Nat
  reportSize : Nat
  measCsiSlotOffsets : List Nat
  nofCellCsiResources : Nat
  periodSlots_pos : 0 < periodSlots
  periodSlots_le : periodSlots ≤ 640
  measCsiSlotOffsets_ne_nil : measCsiSlotOffsets ≠ []

abbrev minimumCsiRsReportDistance : Nat := 4

namespace CsiReportConfig

def csiRsOffset (csi : CsiReportConfig) : Nat := csi.measCsiSlotOffsets.foldl max 0

def distance (csi : CsiReportConfig) (offset : Nat) : Nat :=
  (csi.periodSlots + offset + (2 ^ 32 - (csi.csiRsOffset + minimumCsiRsReportDistance) % 2 ^ 32)) % 2 ^ 32 %
    csi.periodSlots

end CsiReportConfig

structure PucchCellConfig where
  srPeriodSlots : Nat
  nofCellSrResources : Nat
  nofCellResSetConfigs : Nat
  tdd : Option TddUlDlConfig
  csi : Option CsiReportConfig
  srSymbols : Nat → OfdmSymbolRange
  csiSymbols : Nat → OfdmSymbolRange
  maxPayload234 : Nat
  srPeriodSlots_pos : 0 < srPeriodSlots
  nofCellResSetConfigs_pos : 0 < nofCellResSetConfigs

namespace PucchCellConfig

variable (cell : PucchCellConfig)

def isFullUlSlot (offset : Nat) : Bool :=
  match cell.tdd with
  | none => true
  | some tdd => tdd.activeUlSymbols (offset % tdd.slotsPerFrame) = 14

def periodicConfigs (nofResources periodSlots : Nat) : List PeriodicPucchConfig :=
  (List.range nofResources).flatMap fun res =>
    ((List.range periodSlots).filter cell.isFullUlSlot).map fun offset => ⟨res, offset⟩

def srConfigs : List PeriodicPucchConfig := cell.periodicConfigs cell.nofCellSrResources cell.srPeriodSlots

def csiConfigs : List PeriodicPucchConfig :=
  match cell.csi with
  | none => []
  | some csi => cell.periodicConfigs csi.nofCellCsiResources csi.periodSlots

def lcmCsiSrPeriod : Nat :=
  match cell.csi with
  | none => cell.srPeriodSlots
  | some csi => Nat.lcm cell.srPeriodSlots csi.periodSlots

end PucchCellConfig

structure PucchCellContext where
  cellParams : PucchCellConfig
  freeSrConfigs : List PeriodicPucchConfig
  freeCsiConfigs : List PeriodicPucchConfig
  ueIdx : Nat
  periodicPucchsPerSlot : List Nat

def PucchCellContext.ofConfig (cell : PucchCellConfig) : PucchCellContext where
  cellParams := cell
  freeSrConfigs := cell.srConfigs
  freeCsiConfigs := cell.csiConfigs
  ueIdx := 0
  periodicPucchsPerSlot := List.replicate cell.lcmCsiSrPeriod 0

/-- What the manager reads and writes of the PCell configuration of a UE -/
structure UePucchConfig where
  pucchCfg : Bool
  resSetCfgId : Nat
  srResId : Nat
  srOffset : Nat
  periodicCsiReport : Option PeriodicPucchConfig

namespace UePucchConfig

def reset : UePucchConfig := ⟨false, 0, 0, 0, none⟩

def disablePucchCfg (ue : UePucchConfig) : UePucchConfig := { ue with pucchCfg := false }

def srConfig (ue : UePucchConfig) : PeriodicPucchConfig := ⟨ue.srResId, ue.srOffset⟩

end UePucchConfig

def areSrAndCsiPucchsScheduledTogether (srPeriod srOffset csiPeriod csiOffset : Nat) : Bool :=
  let g := Nat.gcd srPeriod csiPeriod
  if g = 1 then true else srOffset % g = csiOffset % g

namespace PucchCellContext

variable (ctx : PucchCellContext)

def exceedsLimitAt (limit : Nat) (exceeds : Bool) (slot : Nat) : Except PucchFault Bool :=
  if exceeds then .ok true
  else if slot < ctx.periodicPucchsPerSlot.length then
    .ok (decide (SlotCounters.get ctx.periodicPucchsPerSlot slot ≥ limit))
  else .error .counter

def offsetExceedsLimit (limit offset period : Nat) : Except PucchFault Bool :=
  (SlotCounters.occasions period ctx.cellParams.lcmCsiSrPeriod ctx.cellParams.lcmCsiSrPeriod offset).foldlM
    (ctx.exceedsLimitAt limit) false

def isCompatible (limit : Nat) (csi : CsiReportConfig) (sr csiCfg : PeriodicPucchConfig) :
    Except PucchFault Bool := do
  if ← ctx.offsetExceedsLimit limit csiCfg.offset csi.periodSlots then return false
  if !(ctx.cellParams.csiSymbols csiCfg.res).overlaps (ctx.cellParams.srSymbols sr.res) then return false
  let nofSrBits := if areSrAndCsiPucchsScheduledTogether ctx.cellParams.srPeriodSlots sr.offset csi.periodSlots
    csiCfg.offset then 1 else 0
  return decide (nofSrBits + csi.reportSize ≤ ctx.cellParams.maxPayload234)

def weight (csi : CsiReportConfig) (sr csiCfg : PeriodicPucchConfig) : Nat :=
  csi.distance csiCfg.offset +
    if areSrAndCsiPucchsScheduledTogether ctx.cellParams.srPeriodSlots sr.offset csi.periodSlots csiCfg.offset then
      csi.periodSlots
    else 0

def pickCsiCfg (limit : Nat) (csi : CsiReportConfig) (sr : PeriodicPucchConfig)
    (best : Option PeriodicPucchConfig × Nat) (csiCfg : PeriodicPucchConfig) :
    Except PucchFault (Option PeriodicPucchConfig × Nat) := do
  if !(← ctx.isCompatible limit csi sr csiCfg) then return best
  return if ctx.weight csi sr csiCfg < best.2 then (some csiCfg, ctx.weight csi sr csiCfg) else best

def getCompatibleCsiCfg (limit : Nat) (csi : CsiReportConfig) (sr : PeriodicPucchConfig) :
    Except PucchFault (Option PeriodicPucchConfig) :=
  (ctx.freeCsiConfigs.foldlM (ctx.pickCsiCfg limit csi sr) (none, 2 ^ 32 - 1)).map Prod.fst

def findConfigs (limit : Nat) :
    List PeriodicPucchConfig → Except PucchFault (Option (PeriodicPucchConfig × Option PeriodicPucchConfig))
  | [] => .ok none
  | sr :: srs => do
    if ← ctx.offsetExceedsLimit limit sr.offset ctx.cellParams.srPeriodSlots then findConfigs limit srs
    else
      match ctx.cellParams.csi with
      | none => .ok (some (sr, none))
      | some csi =>
        match ← ctx.getCompatibleCsiCfg limit csi sr with
        | some csiCfg => .ok (some (sr, some csiCfg))
        | none => findConfigs limit srs

def computePeriodicUciSlotOffsets (srOffset csiOffset : Nat) : List Nat :=
  let cell := ctx.cellParams
  let srSlots := SlotCounters.occasions cell.srPeriodSlots cell.lcmCsiSrPeriod cell.lcmCsiSrPeriod srOffset
  match cell.csi with
  | none => srSlots
  | some csi => srSlots ++
      (SlotCounters.occasions csi.periodSlots cell.lcmCsiSrPeriod cell.lcmCsiSrPeriod csiOffset).filter (· ∉ srSlots)

def csiOffsetOf (csi : Option PeriodicPucchConfig) : Nat :=
  match csi with
  | none => 0
  | some csi => csi.offset

def allocResources (limit : Nat) (ue : UePucchConfig) : Except PucchFault (PucchCellContext × UePucchConfig × Bool) :=
  if ctx.freeSrConfigs.isEmpty || (ctx.cellParams.csi.isSome && ctx.freeCsiConfigs.isEmpty) then
    .ok (ctx, ue.disablePucchCfg, false)
  else do
    match ← ctx.findConfigs limit ctx.freeSrConfigs with
    | none => .ok (ctx, ue.disablePucchCfg, false)
    | some (sr, csi) =>
      let counters ← (ctx.computePeriodicUciSlotOffsets sr.offset (csiOffsetOf csi)).foldlM
        (SlotCounters.increment .counter) ctx.periodicPucchsPerSlot
      .ok ({ ctx with
          freeSrConfigs := ctx.freeSrConfigs.erase sr
          freeCsiConfigs := (csi.map ctx.freeCsiConfigs.erase).getD ctx.freeCsiConfigs
          ueIdx := ctx.ueIdx + 1
          periodicPucchsPerSlot := counters },
        { pucchCfg := true
          resSetCfgId := ctx.ueIdx % ctx.cellParams.nofCellResSetConfigs
          srResId := sr.res
          srOffset := sr.offset
          periodicCsiReport := csi }, true)

def deallocResources (ue : UePucchConfig) : Except PucchFault (PucchCellContext × UePucchConfig) :=
  if !ue.pucchCfg then .ok (ctx, ue)
  else if ctx.cellParams.csi.isSome ≠ ue.periodicCsiReport.isSome then .error .csiMismatch
  else do
    let counters ← (ctx.computePeriodicUciSlotOffsets ue.srOffset (csiOffsetOf ue.periodicCsiReport)).foldlM
      (SlotCounters.decrement .counter) ctx.periodicPucchsPerSlot
    .ok ({ ctx with
        freeSrConfigs := ctx.freeSrConfigs ++ [ue.srConfig]
        freeCsiConfigs := ctx.freeCsiConfigs ++ ue.periodicCsiReport.toList
        periodicPucchsPerSlot := counters },
      ue.disablePucchCfg)

end PucchCellContext

end Ocudu.Du
