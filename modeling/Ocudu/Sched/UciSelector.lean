import Ocudu.Basic.Machine
import Ocudu.Basic.StableIdMap
import Ocudu.Sched.SlotPoint

/-! `uci_indication_selector.cpp`: the UCI grants with HARQ-ACK bits that wait for their indications, in a
wheel of the slots of the grants and in a wheel of short timeouts. -/

namespace Ocudu.Sched

inductive HarqAckReportStatus
  | nack
  | ack
  | dtx
  deriving DecidableEq

inductive UciPduType
  | pucchF0F1
  | pucchF2F3F4
  | pusch
  deriving DecidableEq

/-- Without the time advance offset; of the CSI only whether it is valid. An SINR is in steps of what a
float can tell apart. -/
structure UciAction where
  type : UciPduType := .pucchF0F1
  uciValid : Bool := false
  srDetected : Bool := false
  harqAckBits : List Bool := []
  ulSinrDb : Option Int := none
  csi : Option Bool := none
  deriving DecidableEq

inductive UciPdu
  | pucchF0F1 (ulSinrDb : Option Int) (srDetected : Bool) (harqs : List HarqAckReportStatus)
  | pucchF2F3F4 (ulSinrDb : Option Int) (srInfo : List Bool) (harqs : List HarqAckReportStatus) (csi : Option Bool)
  | pusch (harqs : List HarqAckReportStatus) (csi : Option Bool)

namespace UciPdu

def harqs : UciPdu → List HarqAckReportStatus
  | .pucchF0F1 _ _ harqs | .pucchF2F3F4 _ _ harqs _ | .pusch harqs _ => harqs

def hasHarqAckBits (pdu : UciPdu) : Bool := !pdu.harqs.isEmpty

def fields : UciPdu → UciAction
  | .pucchF0F1 ulSinrDb srDetected _ => { type := .pucchF0F1, ulSinrDb := ulSinrDb, srDetected := srDetected }
  | .pucchF2F3F4 ulSinrDb srInfo _ csi =>
    { type := .pucchF2F3F4, ulSinrDb := ulSinrDb, srDetected := srInfo.any id, csi := csi }
  | .pusch _ csi => { type := .pusch, csi := csi }

def createAction (pdu : UciPdu) : UciAction :=
  { pdu.fields with
    harqAckBits := pdu.harqs.map (· == .ack)
    uciValid := pdu.fields.srDetected || (pdu.hasHarqAckBits && !pdu.harqs.contains .dtx) ||
      pdu.fields.csi == some true }

end UciPdu

def shortPucchTimeoutSlots : Nat := 8

structure UciSelectorConfig where
  numerology : Nat
  ackTimeoutSlots : Nat
  numerology_lt : numerology < SlotPoint.nofNumerologies
  ackTimeout_gt : shortPucchTimeoutSlots < ackTimeoutSlots

namespace UciSelectorConfig

variable (cfg : UciSelectorConfig)

def slot (count : Nat) : SlotPoint := ⟨cfg.numerology, count⟩

def period : Nat := (cfg.slot 0).nofSlotsPerHyperSystemFrame

def wheelPos (count : Nat) : Nat := count % cfg.ackTimeoutSlots

end UciSelectorConfig

def shortPos (count : Nat) : Nat := count % shortPucchTimeoutSlots

/-- `time` is the time at which the grant was registered, `arrived` the number of its PDUs that arrived. -/
structure UciEntry where
  crnti : Nat
  uciPdusToRx : Nat
  chosenAction : UciAction
  uciSlot : Nat
  shortTimeoutSlot : Option Nat
  time : Nat
  arrived : Nat
  deriving DecidableEq

inductive UciCause
  | action
  | ackTimeout
  | shortTimeout
  | slotJump
  | discarded
  deriving DecidableEq

/-- An action or a timeout of the grant of `entry` at the time `resolvedAt`; `slot` is the slot that is reported. -/
structure UciOutcome where
  entry : UciEntry
  cause : UciCause
  slot : Nat
  resolvedAt : Nat

/-- `now` counts the slots, `registered` are the grants with the time of their slot and their RNTI, and
`outcomes` what came of them, the last one first. -/
structure UciSelector where
  cfg : UciSelectorConfig
  lastSlTx : Option Nat
  uciPool : StableIdMap UciEntry
  uciWheel : Nat → List Nat
  shortTimeoutWheel : Nat → List Nat
  now : Nat
  registered : List (Nat × Nat)
  outcomes : List UciOutcome

inductive UciFault
  | invalidId
  deriving DecidableEq

structure HarqGrant where
  crnti : Nat
  harqAckNofBits : Nat

/-- A slot is one of any number of slots, of which the code has the count. -/
inductive UciEvent
  | result (slTx : Nat) (pucchs puschs : List HarqGrant)
  | indication (slRx crnti : Nat) (pdu : UciPdu)
  | discarded (slTx : Nat)

namespace UciSelector

def new (cfg : UciSelectorConfig) : UciSelector where
  cfg := cfg
  lastSlTx := none
  uciPool := .empty
  uciWheel _ := []
  shortTimeoutWheel _ := []
  now := 0
  registered := []
  outcomes := []

variable (s : UciSelector)

def entry (id : Nat) : Except UciFault UciEntry :=
  match s.uciPool.find? id with
  | none => .error .invalidId
  | some entry => .ok entry

def resolve (id : Nat) (entry : UciEntry) (cause : UciCause) (slot : Nat) : UciSelector :=
  { s with
    uciPool := s.uciPool.erase id
    outcomes := ⟨entry, cause, slot, s.now⟩ :: s.outcomes }

def setWheel (pos : Nat) (ids : List Nat) : UciSelector :=
  { s with uciWheel := Function.update s.uciWheel pos ids }

def setShortWheel (pos : Nat) (ids : List Nat) : UciSelector :=
  { s with shortTimeoutWheel := Function.update s.shortTimeoutWheel pos ids }

def eraseShort (id : Nat) (entry : UciEntry) : UciSelector :=
  match entry.shortTimeoutSlot with
  | none => s
  | some slot => s.setShortWheel (shortPos slot)
      ((s.shortTimeoutWheel (shortPos slot)).erase id)

def eraseWheel (id : Nat) (entry : UciEntry) : UciSelector :=
  s.setWheel (s.cfg.wheelPos entry.uciSlot) ((s.uciWheel (s.cfg.wheelPos entry.uciSlot)).erase id)

def handleTimeoutPendingUciEntry (id : Nat) (entry : UciEntry) (cause : UciCause) (slot : Nat) : UciSelector :=
  (s.eraseShort id entry).resolve id entry cause slot

def popWheel (cause : UciCause) (slot : UciEntry → Nat) (pos : Nat) (s : UciSelector) :
    List Nat → Except UciFault UciSelector
  | [] => .ok s
  | id :: ids => do
    let entry ← s.entry id
    popWheel cause slot pos
      ((s.setWheel pos ids).handleTimeoutPendingUciEntry id entry cause (slot entry)) ids

def popShort (pos : Nat) (s : UciSelector) : List Nat → Except UciFault UciSelector
  | [] => .ok s
  | id :: ids => do
    let entry ← s.entry id
    popShort pos (((s.setShortWheel pos ids).eraseWheel id entry).resolve id entry .shortTimeout entry.uciSlot) ids

def reportedSlot (slRx : Nat) (entry : UciEntry) : Nat := if entry.uciSlot = slRx then slRx else entry.uciSlot

def handleTimeouts (slTx : Nat) : Except UciFault UciSelector := do
  let s := { s with now := s.now + 1 }
  let slRx := ((s.cfg.slot slTx).sub s.cfg.ackTimeoutSlots).count
  let pos := s.cfg.wheelPos slRx
  let s ← popWheel .ackTimeout (reportedSlot slRx) pos s (s.uciWheel pos)
  popShort (shortPos slTx) s (s.shortTimeoutWheel (shortPos slTx))

def handleLargeSlotJump (skipped : Nat) : UciSelector :=
  { s with
    uciPool := .empty
    uciWheel := fun _ => []
    shortTimeoutWheel := fun _ => []
    now := s.now + skipped
    outcomes := s.uciPool.values.map (fun entry => ⟨entry, .slotJump, entry.uciSlot, s.now + skipped + 1⟩) ++
      s.outcomes }

def skipSlots (slTx : Nat) (s : UciSelector) : Nat → Except UciFault UciSelector
  | 0 => .ok s
  | n + 1 => do
    let s ← s.handleTimeouts (((s.cfg.slot slTx).add 1).sub (n + 1)).count
    skipSlots slTx s n

def findEntry (p : UciEntry → Bool) : List Nat → Except UciFault (Option Nat)
  | [] => .ok none
  | id :: ids => do
    let entry ← s.entry id
    if p entry then .ok (some id) else findEntry p ids

def insertEntry (slTx : Nat) (grant : HarqGrant) : UciSelector :=
  let pos := s.cfg.wheelPos slTx
  { s with
    uciPool := s.uciPool.insert
      ⟨grant.crnti, 1, { harqAckBits := List.replicate grant.harqAckNofBits false }, slTx, none, s.now, 0⟩
    uciWheel := Function.update s.uciWheel pos (s.uciPool.nextId :: s.uciWheel pos) }

/-- A PUCCH of a RNTI that has one in the slot belongs to the same grant. -/
def registerPucch (slTx : Nat) (grant : HarqGrant) : Except UciFault UciSelector :=
  if grant.harqAckNofBits = 0 then .ok s
  else do
    let found ← s.findEntry (·.crnti == grant.crnti) (s.uciWheel (s.cfg.wheelPos slTx))
    let registered :=
      if (s.now, grant.crnti) ∈ s.registered then s.registered else (s.now, grant.crnti) :: s.registered
    return match found with
      | some id => { s with
          uciPool := s.uciPool.modify id fun entry => { entry with uciPdusToRx := entry.uciPdusToRx + 1 }
          registered := registered }
      | none => { s.insertEntry slTx grant with registered := registered }

def registerPusch (slTx : Nat) (grant : HarqGrant) : UciSelector :=
  if grant.harqAckNofBits = 0 then s
  else { s.insertEntry slTx grant with registered := (s.now, grant.crnti) :: s.registered }

def registerPucchs (slTx : Nat) (s : UciSelector) : List HarqGrant → Except UciFault UciSelector
  | [] => .ok s
  | grant :: grants => do
    let s ← s.registerPucch slTx grant
    registerPucchs slTx s grants

def slotJump (slTx last : Nat) : Nat := (((s.cfg.slot slTx).diff (s.cfg.slot last)) % 2 ^ 32).toNat

def advance (slTx : Nat) : Except UciFault UciSelector :=
  match s.lastSlTx with
  | none => skipSlots slTx { s with lastSlTx := some slTx } 1
  | some last =>
    if s.cfg.ackTimeoutSlots < s.slotJump slTx last then
      skipSlots slTx { s.handleLargeSlotJump ((slTx + s.cfg.period - last - 1) % s.cfg.period) with
        lastSlTx := some slTx } 1
    else skipSlots slTx { s with lastSlTx := some slTx } (s.slotJump slTx last)

def handleResult (slTx : Nat) (pucchs puschs : List HarqGrant) : Except UciFault UciSelector := do
  let s ← s.advance slTx
  let s ← registerPucchs slTx s pucchs
  return puschs.foldl (registerPusch · slTx) s

def handleUciPdu (pdu : UciPdu) (entry : UciEntry) : UciEntry × Option UciAction :=
  let ret := pdu.createAction
  let better := match entry.chosenAction.ulSinrDb, ret.ulSinrDb with
    | none, _ => true
    | some _, none => false
    | some chosen, some new => chosen < new
  let chosen := if ret.uciValid && better then ret else entry.chosenAction
  if entry.uciPdusToRx ≤ 1 then
    ({ entry with chosenAction := chosen, uciPdusToRx := 0, arrived := entry.arrived + 1 }, some chosen)
  else
    ({ entry with chosenAction := chosen, uciPdusToRx := entry.uciPdusToRx - 1, arrived := entry.arrived + 1 }, none)

/-- The entry waits for more PDUs, and not for long. -/
def startShortTimeout (id : Nat) (entry : UciEntry) : UciSelector :=
  match entry.shortTimeoutSlot, s.lastSlTx with
  | none, some last =>
    let slot := ((s.cfg.slot last).add shortPucchTimeoutSlots).count
    let pos := shortPos slot
    { s.setShortWheel pos (id :: s.shortTimeoutWheel pos) with
      uciPool := s.uciPool.modify id fun _ => { entry with shortTimeoutSlot := some slot } }
  | _, _ => { s with uciPool := s.uciPool.modify id fun _ => entry }

def handleUciIndPdu (slRx crnti : Nat) (pdu : UciPdu) : Except UciFault (UciSelector × Option UciAction) :=
  if pdu.hasHarqAckBits = false then .ok (s, some pdu.createAction)
  else do
    let found ← s.findEntry (fun entry => entry.crnti == crnti && entry.uciSlot == slRx)
      (s.uciWheel (s.cfg.wheelPos slRx))
    match found with
    | none => return (s, none)
    | some id =>
      let entry ← s.entry id
      match handleUciPdu pdu entry with
      | (entry, some action) =>
        return (((s.eraseWheel id entry).eraseShort id entry).resolve id entry .action slRx, some action)
      | (entry, none) => return (s.startShortTimeout id entry, none)

def handleDiscardedUcis (slTx : Nat) : Except UciFault UciSelector :=
  popWheel .discarded (fun _ => slTx) (s.cfg.wheelPos slTx) s (s.uciWheel (s.cfg.wheelPos slTx))

def step : UciEvent → Except UciFault UciSelector
  | .result slTx pucchs puschs => s.handleResult (slTx % s.cfg.period) pucchs puschs
  | .indication slRx crnti pdu => (s.handleUciIndPdu (slRx % s.cfg.period) crnti pdu).map Prod.fst
  | .discarded slTx => s.handleDiscardedUcis (slTx % s.cfg.period)

end UciSelector

end Ocudu.Sched
