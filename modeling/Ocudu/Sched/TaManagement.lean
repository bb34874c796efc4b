import Ocudu.Basic.FloatValue
import Ocudu.Basic.IntType
import Ocudu.Basic.LinkedList
import Ocudu.Basic.Machine

/-! `ta_management_system.cpp`: the N_TA measurements of the UEs, the time wheel in which a UE waits
for the end of its measurement window, and the timing advance commands. -/

namespace Ocudu.Sched

open Ocudu.LinkedList

structure TaConfig where
  measurementPeriod : Nat
  measurementProhibitPeriod : Nat
  taCmdOffsetThreshold : Int
  target : ℚ
  period_pos : 0 ≤ taCmdOffsetThreshold → 0 < measurementPeriod

def taCmdOffsetZero : Int := 31

def nofSlotsPerSubframe (ulScs : Nat) : Int := 2 ^ ulScs

namespace TaConfig

variable (cfg : TaConfig)

def disabled : Bool := cfg.taCmdOffsetThreshold < 0

def wheelSize : Nat := if cfg.disabled then 0 else (cfg.measurementPeriod + 4) % 2 ^ 32

def taOffset : ℚ := roundFloat 24 (taCmdOffsetZero - cfg.target)

def offsetSum (nTaDiff : Int) (ulScs : Nat) : ℚ :=
  roundFloat 24 ((nTaDiff * nofSlotsPerSubframe ulScs : Int) : ℚ) / (16 * 64) + cfg.taOffset

/-- The result is an `unsigned`, and is stored in an `int`; a negative number is converted modulo `2 ^ 32`. -/
def computeNewTA (nTaDiff : Int) (ulScs : Nat) : Int :=
  IntType.int32.wrap (IntType.uint32.wrap (roundAway (roundFloat 24 (cfg.offsetSum nTaDiff ulScs))))

/-- The averages whose timing advance is rounded to at most 63 and whose offset to 31 is an `int`. -/
def InRange (nTaDiff : Int) (ulScs : Nat) : Prop :=
  -2 ^ 31 + 2 ^ 6 < cfg.offsetSum nTaDiff ulScs ∧ cfg.offsetSum nTaDiff ulScs < 127 / 2 - 1 / 2 ^ 19

instance (nTaDiff : Int) (ulScs : Nat) : Decidable (cfg.InRange nTaDiff ulScs) :=
  inferInstanceAs (Decidable (_ ∧ _))

theorem inRange_iff (nTaDiff : Int) (ulScs : Nat) : cfg.InRange nTaDiff ulScs ↔
    -2 ^ 31 + 31 < roundAway (roundFloat 24 (cfg.offsetSum nTaDiff ulScs)) ∧
      roundAway (roundFloat 24 (cfg.offsetSum nTaDiff ulScs)) ≤ 63 := by
  unfold InRange
  generalize cfg.offsetSum nTaDiff ulScs = x
  have hhigh : 127 / 2 ≤ roundFloat 24 x ↔ 127 / 2 - 1 / 2 ^ 19 ≤ x := by
    have h := le_roundFloat_iff_of_even (x := x) (p := 24) (by decide) (m := 127 * 2 ^ 17) (by decide) (by decide)
      (by decide) (-18)
    norm_num at h ⊢
    exact h
  have hlow : 2 ^ 31 ≤ -roundFloat 24 x ↔ 2 ^ 31 - 2 ^ 6 ≤ -x := by
    have h := le_roundFloat_iff_of_even (x := -x) (p := 24) (by decide) (m := 2 ^ 24) (by decide) (by decide) le_rfl 7
    rw [roundFloat_neg] at h
    norm_num at h ⊢
    exact h
  -- the floats below `2 ^ 31` are multiples of 128
  have hgrid : -roundFloat 24 x < 2 ^ 31 → -roundFloat 24 x ≤ 2 ^ 31 - 2 ^ 7 := by
    have h := roundFloat_le_iff (x := -x) (p := 24) (by decide) (m := 2 ^ 24 - 1) (by decide) (by decide) 7
    have h' := le_roundFloat_iff (x := -x) (p := 24) (by decide) (m := 2 ^ 24) (by decide) le_rfl 7
    rw [roundFloat_neg] at h h'
    intro hlt
    have hle := h.mpr (Int.le_sub_one_of_lt (not_le.mp fun hge => absurd (h'.mpr hge) (by norm_num; linarith)))
    norm_num at hle ⊢
    exact hle
  have hpos := roundAway_le_iff (x := roundFloat 24 x) (n := 63) (by decide)
  have hneg := roundAway_le_iff (x := -roundFloat 24 x) (n := 2 ^ 31 - 32) (by decide)
  rw [roundAway_neg] at hneg
  constructor
  · rintro ⟨hx, hx'⟩
    have hlt : -roundFloat 24 x < 2 ^ 31 := not_le.mp fun h => by linarith [hlow.mp h]
    have hfloat : roundFloat 24 x < 127 / 2 := not_le.mp fun h => by linarith [hhigh.mp h]
    have hle := hneg.mpr (by push_cast; linarith [hgrid hlt])
    have hle' := hpos.mpr (by push_cast; linarith)
    omega
  · rintro ⟨hr, hr'⟩
    have hlt := hneg.mp (by omega)
    have hlt' := hpos.mp hr'
    push_cast at hlt hlt'
    constructor
    · exact not_le.mp fun h => by linarith [hlow.mpr (by linarith)]
    · exact not_le.mp fun h => by linarith [hhigh.mpr h]

theorem computeNewTA_le {nTaDiff : Int} {ulScs : Nat} (h : cfg.InRange nTaDiff ulScs) :
    cfg.computeNewTA nTaDiff ulScs ≤ 63 := by
  obtain ⟨hlow, hhigh⟩ := (cfg.inRange_iff nTaDiff ulScs).mp h
  rw [computeNewTA, IntType.wrap, IntType.wrap]
  simp only [IntType.min, IntType.isSigned, IntType.nofBits, ↓reduceIte]
  omega

end TaConfig

def maxNofTagMeasurements : Nat := 4

structure TagMeasurement where
  tagId : Nat
  forbidPeriodStart : Option Nat
  windowCountSamples : Nat
  windowSumSamples : Int
  lastTA : Int

structure WheelListNode where
  wheelMeasPos : Option Nat := none
  measStartTime : Option Nat := none
  next : Option Nat := none

structure TaSample where
  tagId : Nat
  nTaDiff : Int
  slot : Nat
  deriving DecidableEq

/-- `windowSlot` is the number of slot indications before the first sample of the window that is
open, and `accepted` are the samples that the UE had, the last one first. -/
structure UeTaRow where
  ulScs : Nat
  nTaReports : List TagMeasurement
  node : WheelListNode
  windowSlot : Option Nat
  accepted : List TaSample

structure TaCommand where
  ueId : Nat
  ulScs : Nat
  tagId : Nat
  taCmd : Nat
  slot : Nat
  windowSlot : Option Nat
  accepted : List TaSample
  deriving DecidableEq

/-- `slots` is the number of slot indications, `commands` what was issued, the last one first. -/
structure TaManagementSystem where
  cfg : TaConfig
  active : List Nat
  rows : Nat → UeTaRow
  timeWheel : Nat → Option Nat
  nextWheelIndex : Nat
  slots : Nat
  commands : List TaCommand

inductive TaFault
  /-- The UE is not found in the time wheel, or a list of the wheel has no end. -/
  | assertion
  | tags
  | row
  deriving DecidableEq

inductive TaEvent
  | addUe (ueId pcellTagId ulScs : Nat)
  | remUe (ueId : Nat)
  | updateTags (ueId : Nat) (tagIds : List Nat)
  /-- A measurement, whether its SINR is above the threshold, and whether it is an outlier. -/
  | nTaUpdate (ueId tagId : Nat) (nTaDiff : Int) (sinrOk outlier : Bool)
  | slotIndication

namespace TagMeasurement

def fresh (tagId : Nat) (forbidPeriodStart : Option Nat) : TagMeasurement :=
  ⟨tagId, forbidPeriodStart, 0, 0, taCmdOffsetZero⟩

def avgNTaDifference (m : TagMeasurement) : Int :=
  if 0 < m.windowCountSamples then m.windowSumSamples.tdiv m.windowCountSamples else taCmdOffsetZero

/-- The sample in the window, before the new timing advance is computed from it. -/
def addSample (m : TagMeasurement) (nTaDiff : Int) : TagMeasurement :=
  { m with
    forbidPeriodStart := none
    windowSumSamples := m.windowSumSamples + nTaDiff
    windowCountSamples := m.windowCountSamples + 1 }

def handleSample (cfg : TaConfig) (ulScs : Nat) (nTaDiff : Int) (m : TagMeasurement) : TagMeasurement :=
  let m := m.addSample nTaDiff
  { m with lastTA := cfg.computeNewTA m.avgNTaDifference ulScs }

def passesThreshold (cfg : TaConfig) (m : TagMeasurement) : Bool :=
  cfg.taCmdOffsetThreshold ≤ |m.lastTA - taCmdOffsetZero|

def commandDue (cfg : TaConfig) (m : TagMeasurement) : Bool :=
  m.windowCountSamples != 0 && m.passesThreshold cfg

def close (cfg : TaConfig) (nextWheelIndex : Nat) (m : TagMeasurement) : TagMeasurement :=
  if m.windowCountSamples = 0 then m
  else fresh m.tagId (if m.passesThreshold cfg then some nextWheelIndex else none)

def forbidden (cfg : TaConfig) (nextWheelIndex : Nat) (m : TagMeasurement) : Bool :=
  m.forbidPeriodStart.any fun start =>
    (nextWheelIndex + 2 ^ 32 - start) % 2 ^ 32 < cfg.measurementProhibitPeriod

def updateFirst (tagId : Nat) (f : TagMeasurement → TagMeasurement) : List TagMeasurement → List TagMeasurement
  | [] => []
  | m :: ms => if m.tagId = tagId then f m :: ms else m :: updateFirst tagId f ms

/-- `update_tags`: the counters are reset, the prohibit period of a position is not. -/
def resetTags : List TagMeasurement → List Nat → List TagMeasurement
  | _, [] => []
  | [], tagId :: tagIds => fresh tagId none :: resetTags [] tagIds
  | m :: ms, tagId :: tagIds => fresh tagId m.forbidPeriodStart :: resetTags ms tagIds

end TagMeasurement

namespace TaManagementSystem

def new (cfg : TaConfig) : TaManagementSystem where
  cfg := cfg
  active := []
  rows _ := ⟨0, [], {}, none, []⟩
  timeWheel _ := none
  nextWheelIndex := 0
  slots := 0
  commands := []

variable (s : TaManagementSystem)

def wheelPos (index : Nat) : Nat := index % s.cfg.wheelSize

def next (ueId : Nat) : Option Nat := (s.rows ueId).node.next

def setRow (ueId : Nat) (row : UeTaRow) : TaManagementSystem :=
  { s with rows := Function.update s.rows ueId row }

def setNext (ueId : Nat) (next : Option Nat) : TaManagementSystem :=
  s.setRow ueId { s.rows ueId with node := { (s.rows ueId).node with next := next } }

def updateTags (ueId : Nat) (tagIds : List Nat) : Except TaFault TaManagementSystem :=
  if maxNofTagMeasurements < tagIds.length then .error .tags
  else .ok (s.setRow ueId { s.rows ueId with
    nTaReports := TagMeasurement.resetTags (s.rows ueId).nTaReports tagIds })

def addUe (ueId pcellTagId ulScs : Nat) : Except TaFault TaManagementSystem :=
  if s.cfg.disabled then .ok s
  else if ueId ∈ s.active then .error .row
  else { s.setRow ueId ⟨ulScs, [], {}, none, []⟩ with active := ueId :: s.active }.updateTags ueId [pcellTagId]

/-- The links after the UE, which comes after `prev` in the list at `pos`, is taken out. -/
def unlinkUe (ueId pos : Nat) : Option Nat → TaManagementSystem
  | none => { s with timeWheel := Function.update s.timeWheel pos (s.next ueId) }
  | some prev => s.setNext prev (s.next ueId)

def remUe (ueId : Nat) : Except TaFault TaManagementSystem :=
  match (s.rows ueId).node.wheelMeasPos with
  | none => .ok { s with active := s.active.erase ueId }
  | some wheelMeasPos =>
    match findPrev s.next ueId s.active.length none (s.timeWheel (s.wheelPos wheelMeasPos)) with
    | none => .error .assertion
    | some prev =>
      .ok { s.unlinkUe ueId (s.wheelPos wheelMeasPos) prev with active := s.active.erase ueId }

def ueTaCmds (ueId : Nat) (row : UeTaRow) : List TaCommand :=
  (row.nTaReports.filter (·.commandDue s.cfg)).map fun m =>
    ⟨ueId, row.ulScs, m.tagId, (max 0 m.lastTA).toNat, s.slots, row.windowSlot, row.accepted⟩

def closeWindow (row : UeTaRow) : UeTaRow :=
  { row with
    nTaReports := row.nTaReports.map (·.close s.cfg ((s.nextWheelIndex + 1) % 2 ^ 32))
    node := {}
    windowSlot := none }

def handleUeTaCmds (ueId : Nat) : TaManagementSystem :=
  { s.setRow ueId (s.closeWindow (s.rows ueId)) with
    commands := (s.ueTaCmds ueId (s.rows ueId)).reverse ++ s.commands }

/-- The loop of the slot indication over a list of the wheel. -/
def expire (s : TaManagementSystem) : Nat → Option Nat → Except TaFault TaManagementSystem
  | _, none => .ok s
  | 0, some _ => .error .assertion
  | fuel + 1, some ueId => expire (s.handleUeTaCmds ueId) fuel (s.next ueId)

def slotIndication : Except TaFault TaManagementSystem :=
  if s.cfg.disabled then .ok s
  else do
    let pos := s.wheelPos s.nextWheelIndex
    let t ← s.expire s.active.length (s.timeWheel pos)
    return { t with
      timeWheel := Function.update t.timeWheel pos none
      nextWheelIndex := (s.nextWheelIndex + 1) % 2 ^ 32
      slots := s.slots + 1 }

def measStartTime (ueId : Nat) : Nat :=
  (s.rows ueId).node.measStartTime.getD ((s.nextWheelIndex + 2 ^ 32 - 1) % 2 ^ 32)

def windowEnd (ueId : Nat) : Nat := (s.measStartTime ueId + s.cfg.measurementPeriod) % 2 ^ 32

def sampledRow (ueId tagId : Nat) (nTaDiff : Int) : UeTaRow :=
  { s.rows ueId with
    nTaReports := TagMeasurement.updateFirst tagId
      (TagMeasurement.handleSample s.cfg (s.rows ueId).ulScs nTaDiff) (s.rows ueId).nTaReports
    node := { (s.rows ueId).node with measStartTime := some (s.measStartTime ueId) }
    windowSlot := some ((s.rows ueId).windowSlot.getD s.slots)
    accepted := ⟨tagId, nTaDiff, s.slots⟩ :: (s.rows ueId).accepted }

def joinWheel (ueId : Nat) (row : UeTaRow) : TaManagementSystem :=
  { s.setRow ueId { row with node := { row.node with
      wheelMeasPos := some (s.windowEnd ueId)
      next := s.timeWheel (s.wheelPos (s.windowEnd ueId)) } }
    with timeWheel := Function.update s.timeWheel (s.wheelPos (s.windowEnd ueId)) (some ueId) }

def acceptSample (ueId tagId : Nat) (nTaDiff : Int) (m : TagMeasurement) : TaManagementSystem :=
  let row := s.sampledRow ueId tagId nTaDiff
  if row.node.wheelMeasPos.isSome then s.setRow ueId row
  else if (m.handleSample s.cfg row.ulScs nTaDiff).passesThreshold s.cfg then s.joinWheel ueId row
  else s.setRow ueId row

def nTaUpdate (ueId tagId : Nat) (nTaDiff : Int) (sinrOk outlier : Bool) : TaManagementSystem :=
  if sinrOk = false then s
  else match (s.rows ueId).nTaReports.find? (·.tagId == tagId) with
    | none => s
    | some m =>
      if m.forbidden s.cfg s.nextWheelIndex then s
      else if outlier then s.setRow ueId { s.rows ueId with
        nTaReports := TagMeasurement.updateFirst tagId (fun m => { m with forbidPeriodStart := none })
          (s.rows ueId).nTaReports }
      else s.acceptSample ueId tagId nTaDiff m

def step : TaEvent → Except TaFault TaManagementSystem
  | .addUe ueId pcellTagId ulScs => s.addUe ueId pcellTagId ulScs
  | .remUe ueId => if ueId ∈ s.active then s.remUe ueId else .ok s
  | .updateTags ueId tagIds => if ueId ∈ s.active then s.updateTags ueId tagIds else .ok s
  | .nTaUpdate ueId tagId nTaDiff sinrOk outlier =>
    if ueId ∈ s.active then .ok (s.nTaUpdate ueId tagId nTaDiff sinrOk outlier) else .ok s
  | .slotIndication => s.slotIndication

end TaManagementSystem

end Ocudu.Sched
