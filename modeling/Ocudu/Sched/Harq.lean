import Ocudu.Basic.Machine
import Ocudu.Sched.SlotPoint

/-! `cell_harq_repository` of `cell_harq_manager.cpp`: the HARQ processes of the UEs of a cell,
for one direction. -/

namespace Ocudu.Sched

inductive HarqState
  | empty
  | pendingRetx
  | waitingAck
  deriving DecidableEq

inductive HarqMode
  | normal
  | feedbackDisabledOrModeB
  deriving DecidableEq

/-- A process by its UE and its number; the intrusive lists hold these. -/
structure HarqRef where
  ueIdx : Nat
  hId : Nat
  deriving DecidableEq

/-- The last three fields are no data of the source: the number of new transmissions, the
number of slot indications there had been when `status` was set, and how many slots ahead
`slotAck` was then. -/
structure HarqProcess where
  ueIdx : Nat
  hId : Nat
  status : HarqState
  mode : HarqMode
  slotTx : SlotPoint
  slotAck : SlotPoint
  slotTimeout : SlotPoint
  ndi : Bool
  retxsCancelled : Bool
  nofRetxs : Nat
  maxNofHarqRetxs : Nat
  newTxs : Nat
  enteredAt : Nat
  ackIn : Nat

structure UeHarqEntity where
  harqs : List HarqProcess
  freeHarqIds : List Nat
  lastSlotTx : SlotPoint
  lastSlotAck : SlotPoint
  feedbackDisabledOrModeBHarqPresent : Bool

/-- A process that `handle_harq_ack_timeout` discarded, and the number of slot indications
since its status was set. -/
structure HarqDiscard where
  ref : HarqRef
  status : HarqState
  slot : SlotPoint
  slotTimeout : SlotPoint
  slotAck : SlotPoint
  elapsed : Nat
  ackIn : Nat
  deriving DecidableEq

structure CellHarqConfig where
  maxUes : Nat
  maxAckWaitTimeout : Nat
  harqRetxTimeoutArg : Nat
  maxHarqsPerUe : Nat
  ntnCsKoffset : Nat

def ntnAckWaitTimeout : Nat := 1

def maxRetxTimeout : Nat := 1024 / 2

namespace CellHarqConfig

def harqRetxTimeout (cfg : CellHarqConfig) : Nat := min cfg.harqRetxTimeoutArg maxRetxTimeout

def wheelSize (cfg : CellHarqConfig) : Nat :=
  getAllocatorRingSizeGtMin
    ((cfg.maxAckWaitTimeout + getMaxSlotUlAllocDelay cfg.ntnCsKoffset) % 2 ^ 32)

def bucket (cfg : CellHarqConfig) (sl : SlotPoint) : Nat := sl.count % cfg.wheelSize

end CellHarqConfig

inductive HarqFault
  | absent
  | assertion
  | sanityCheck
  /-- A process in mode B is not one of the allocation history. -/
  | modeB
  /-- A process is taken out of a list that it is not linked in. -/
  | notLinked
  | loopBound
  deriving DecidableEq

/-- The last two fields are no data of the source: the number of slot indications, and the
processes that timed out. -/
structure CellHarqRepository where
  lastSlInd : SlotPoint
  ues : Nat → UeHarqEntity
  harqPendingRetxList : List HarqRef
  harqTimeoutWheel : Nat → List HarqRef
  indications : Nat
  discards : List HarqDiscard

def defaultHarq : HarqProcess where
  ueIdx := 0
  hId := 0
  status := .empty
  mode := .normal
  slotTx := .invalid
  slotAck := .invalid
  slotTimeout := .invalid
  ndi := false
  retxsCancelled := false
  nofRetxs := 0
  maxNofHarqRetxs := 0
  newTxs := 0
  enteredAt := 0
  ackIn := 0

namespace CellHarqRepository

variable (cfg : CellHarqConfig)

def new : CellHarqRepository where
  lastSlInd := .invalid
  ues := fun _ => ⟨[], [], .invalid, .invalid, false⟩
  harqPendingRetxList := []
  harqTimeoutWheel := fun _ => []
  indications := 0
  discards := []

variable (s : CellHarqRepository)

def find (r : HarqRef) : Option HarqProcess :=
  (s.ues r.ueIdx).harqs[r.hId]?

def get (r : HarqRef) : Except HarqFault HarqProcess :=
  match s.find r with
  | some h => .ok h
  | none => .error .absent

def updateUe (ueIdx : Nat) (f : UeHarqEntity → UeHarqEntity) :
    CellHarqRepository :=
  { s with ues := fun u => if u = ueIdx then f (s.ues u) else s.ues u }

def setHarq (r : HarqRef) (h : HarqProcess) : CellHarqRepository :=
  s.updateUe r.ueIdx fun ue => { ue with harqs := ue.harqs.set r.hId h }

def pushTimeout (r : HarqRef) (sl : SlotPoint) : CellHarqRepository :=
  { s with harqTimeoutWheel := fun b =>
      if b = cfg.bucket sl then r :: s.harqTimeoutWheel b else s.harqTimeoutWheel b }

def popTimeout (r : HarqRef) (sl : SlotPoint) :
    Except HarqFault CellHarqRepository :=
  if r ∈ s.harqTimeoutWheel (cfg.bucket sl) then
    .ok { s with harqTimeoutWheel := fun b =>
      if b = cfg.bucket sl then (s.harqTimeoutWheel b).erase r else s.harqTimeoutWheel b }
  else .error .notLinked

def pushPendingRetx (r : HarqRef) : CellHarqRepository :=
  { s with harqPendingRetxList := s.harqPendingRetxList ++ [r] }

def popPendingRetx (r : HarqRef) : Except HarqFault CellHarqRepository :=
  if r ∈ s.harqPendingRetxList then
    .ok { s with harqPendingRetxList := s.harqPendingRetxList.erase r }
  else .error .notLinked

def slotsAhead (sl : SlotPoint) : Nat :=
  (sl.count + (sl.nofSlotsPerHyperSystemFrame - s.lastSlInd.count)) % sl.nofSlotsPerHyperSystemFrame

def laterSlot (last sl : SlotPoint) : SlotPoint := if last.valid then last.max sl else sl

def recordTx (slTx slAck : SlotPoint) (ue : UeHarqEntity) : UeHarqEntity :=
  { ue with lastSlotTx := laterSlot ue.lastSlotTx slTx
            lastSlotAck := laterSlot ue.lastSlotAck slAck }

def selectHarqId (ue : UeHarqEntity) (selectNormalMode : Bool) : Option (List Nat) :=
  if 0 < cfg.ntnCsKoffset ∧ ue.feedbackDisabledOrModeBHarqPresent = true then
    let ids := ue.freeHarqIds.reverse
    match ids.findIdx? fun hId => match ue.harqs[hId]? with
      | some h => selectNormalMode == (h.mode == .normal)
      | none => false with
    | some j => some ((ids.set 0 (ids.getD j 0)).set j (ids.getD 0 0)).reverse
    | none => none
  else some ue.freeHarqIds

def ackTimeout (h : HarqProcess) (slAck : SlotPoint) : SlotPoint :=
  match h.mode with
  | .normal => slAck.add cfg.maxAckWaitTimeout
  | .feedbackDisabledOrModeB => (slAck.sub cfg.ntnCsKoffset).add ntnAckWaitTimeout

def allocHarq (ueIdx : Nat) (slTx slAck : SlotPoint)
    (maxNofHarqRetxs : Nat) (selectNormalMode : Bool) :
    Except HarqFault (Option HarqRef × CellHarqRepository) :=
  if cfg.maxUes ≤ ueIdx then .error .absent
  else
    match (selectHarqId cfg (s.ues ueIdx) selectNormalMode).bind List.getLast? with
    | none => .ok (none, s)
    | some hId => do
      let ids := (selectHarqId cfg (s.ues ueIdx) selectNormalMode).getD []
      let r : HarqRef := ⟨ueIdx, hId⟩
      let h ← s.get r
      if h.ueIdx ≠ ueIdx ∨ h.hId ≠ hId then .error .sanityCheck
      else
        let h := { h with
          status := .waitingAck
          slotTx := slTx
          slotAck := slAck
          nofRetxs := 0
          ndi := !h.ndi
          maxNofHarqRetxs := maxNofHarqRetxs % 2 ^ 8
          retxsCancelled := false
          slotTimeout := ackTimeout cfg h slAck
          newTxs := h.newTxs + 1
          enteredAt := s.indications
          ackIn := s.slotsAhead slAck }
        let s := s.updateUe ueIdx fun ue =>
          recordTx slTx slAck { ue with freeHarqIds := ids.dropLast }
        pure (some r, (s.setHarq r h).pushTimeout cfg r h.slotTimeout)

def forgetSlot (last sl : SlotPoint) : SlotPoint :=
  if last.valid ∧ ¬sl.lt last then .invalid else last

def deallocHarq (r : HarqRef) : Except HarqFault CellHarqRepository := do
  let h ← s.get r
  if h.status = .empty then pure s
  else do
    let s ← if h.status = .pendingRetx then s.popPendingRetx r else .ok s
    let s ← s.popTimeout cfg r h.slotTimeout
    let s := s.setHarq r { h with slotTimeout := .invalid, status := .empty }
    pure (s.updateUe h.ueIdx fun ue => { ue with
      lastSlotTx := forgetSlot ue.lastSlotTx h.slotTx
      lastSlotAck := forgetSlot ue.lastSlotAck h.slotAck
      freeHarqIds := ue.freeHarqIds ++ [h.hId] })

def setPendingRetx (r : HarqRef) : Except HarqFault CellHarqRepository := do
  let h ← s.get r
  match h.status with
  | .empty => .error .sanityCheck
  | .pendingRetx => .ok s
  | .waitingAck => do
    let s ← s.popTimeout cfg r h.slotTimeout
    let h := { h with
      slotTimeout := s.lastSlInd.add cfg.harqRetxTimeout
      status := .pendingRetx
      enteredAt := s.indications }
    pure (((s.setHarq r h).pushTimeout cfg r h.slotTimeout).pushPendingRetx r)

def handleAck (r : HarqRef) (ack : Bool) :
    Except HarqFault CellHarqRepository := do
  let h ← s.get r
  if h.mode = .feedbackDisabledOrModeB then .error .modeB
  else if ack ∨ h.maxNofHarqRetxs ≤ h.nofRetxs then s.deallocHarq cfg r
  else s.setPendingRetx cfg r

def handleNewRetx (r : HarqRef) (slTx slAck : SlotPoint) :
    Except HarqFault (Bool × CellHarqRepository) := do
  let h ← s.get r
  if h.status ≠ .pendingRetx then pure (false, s)
  else do
    let s ← s.popPendingRetx r
    let s ← s.popTimeout cfg r h.slotTimeout
    let h := { h with
      status := .waitingAck
      slotTx := slTx
      slotAck := slAck
      nofRetxs := (h.nofRetxs + 1) % 2 ^ 8
      slotTimeout := slAck.add cfg.maxAckWaitTimeout
      enteredAt := s.indications
      ackIn := s.slotsAhead slAck }
    let s := s.updateUe h.ueIdx (recordTx slTx slAck)
    pure (true, (s.setHarq r h).pushTimeout cfg r h.slotTimeout)

def cancelRetxs (r : HarqRef) : Except HarqFault CellHarqRepository := do
  let h ← s.get r
  match h.status with
  | .empty => .ok s
  | .pendingRetx => s.deallocHarq cfg r
  | .waitingAck => .ok (s.setHarq r { h with maxNofHarqRetxs := h.nofRetxs, retxsCancelled := true })

def handleHarqAckTimeout (r : HarqRef) (slTx : SlotPoint) :
    Except HarqFault CellHarqRepository := do
  let h ← s.get r
  if h.status = .empty then .error .sanityCheck
  else
    let discard : HarqDiscard := ⟨r, h.status, slTx, h.slotTimeout, h.slotAck,
      s.indications - h.enteredAt, h.ackIn⟩
    let s := { s with discards := s.discards ++ [discard] }
    s.deallocHarq cfg r

def expireBucket (slTx : SlotPoint) : Nat → CellHarqRepository → Except HarqFault CellHarqRepository
  | 0, s => if s.harqTimeoutWheel (cfg.bucket slTx) = [] then .ok s else .error .loopBound
  | n + 1, s =>
    match s.harqTimeoutWheel (cfg.bucket slTx) with
    | [] => .ok s
    | r :: _ => do
      let s ← s.handleHarqAckTimeout cfg r slTx
      expireBucket slTx n s

def slotIndication (slTx : SlotPoint) :
    Except HarqFault CellHarqRepository :=
  expireBucket cfg slTx (s.harqTimeoutWheel (cfg.bucket slTx)).length
    { s with lastSlInd := slTx, indications := s.indications + 1 }

def resizeHarqs (harqs : List HarqProcess) (n : Nat) : List HarqProcess :=
  harqs.take n ++ List.replicate (n - harqs.length) defaultHarq

def initHarq (ueIdx hId : Nat) (h : HarqProcess) : HarqProcess :=
  { h with ueIdx, hId, ndi := false, mode := .normal, newTxs := 0 }

def reserveUeHarqs (ueIdx nofHarqs : Nat) :
    Except HarqFault CellHarqRepository :=
  if nofHarqs = 0 ∨ cfg.maxHarqsPerUe < nofHarqs then .error .assertion
  else if cfg.maxUes ≤ ueIdx then .error .assertion
  else if (s.ues ueIdx).harqs ≠ [] then .error .assertion
  else .ok (s.updateUe ueIdx fun ue => { ue with
    harqs := (resizeHarqs ue.harqs nofHarqs).mapIdx fun hId h => initHarq ueIdx hId h
    freeHarqIds := (List.range nofHarqs).reverse })

def extendUeHarqs (ueIdx newNofHarqs : Nat) :
    Except HarqFault CellHarqRepository :=
  let n := (s.ues ueIdx).harqs.length
  if cfg.maxUes ≤ ueIdx then .error .absent
  else if newNofHarqs < n then .error .assertion
  else if cfg.maxHarqsPerUe < newNofHarqs then .error .assertion
  else .ok (s.updateUe ueIdx fun ue => { ue with
    harqs := (resizeHarqs ue.harqs newNofHarqs).mapIdx fun hId h =>
      if n ≤ hId then initHarq ueIdx hId h else h
    freeHarqIds := ue.freeHarqIds ++ (List.range' n (newNofHarqs - n)).reverse })

def deallocAll (ueIdx : Nat) : List Nat → CellHarqRepository → Except HarqFault CellHarqRepository
  | [], s => .ok s
  | hId :: hIds, s => do
    let s ← s.deallocHarq cfg ⟨ueIdx, hId⟩
    deallocAll ueIdx hIds s

def destroyUe (ueIdx : Nat) : Except HarqFault CellHarqRepository :=
  if cfg.maxUes ≤ ueIdx then .error .absent
  else do
    let s ← s.deallocAll cfg ueIdx (List.range (s.ues ueIdx).harqs.length)
    pure (s.updateUe ueIdx fun ue => { ue with harqs := [], freeHarqIds := [] })

def stopUes : List Nat → CellHarqRepository → Except HarqFault CellHarqRepository
  | [], s => .ok s
  | ueIdx :: ueIdxs, s => do
    let s ← s.deallocAll cfg ueIdx (List.range (s.ues ueIdx).harqs.length)
    stopUes ueIdxs s

def stop : Except HarqFault CellHarqRepository := do
  let s ← s.stopUes cfg (List.range cfg.maxUes)
  pure { s with lastSlInd := .invalid }

end CellHarqRepository

inductive HarqEvent
  | slotIndication (slTx : SlotPoint)
  | stop
  | allocHarq (ueIdx : Nat) (slTx slAck : SlotPoint) (maxNofHarqRetxs : Nat) (selectNormalMode : Bool)
  | newRetx (r : HarqRef) (slTx slAck : SlotPoint)
  | ack (r : HarqRef) (ack : Bool)
  | cancelRetxs (r : HarqRef)
  | deallocHarq (r : HarqRef)
  | reserveUeHarqs (ueIdx nofHarqs : Nat)
  | extendUeHarqs (ueIdx newNofHarqs : Nat)
  | destroyUe (ueIdx : Nat)

namespace CellHarqRepository

variable (cfg : CellHarqConfig)

def step (s : CellHarqRepository) : HarqEvent → Except HarqFault CellHarqRepository
  | .slotIndication slTx => s.slotIndication cfg slTx
  | .stop => s.stop cfg
  | .allocHarq ueIdx slTx slAck maxNofHarqRetxs selectNormalMode =>
    (s.allocHarq cfg ueIdx slTx slAck maxNofHarqRetxs selectNormalMode).map Prod.snd
  | .newRetx r slTx slAck => (s.handleNewRetx cfg r slTx slAck).map Prod.snd
  | .ack r ack => s.handleAck cfg r ack
  | .cancelRetxs r => s.cancelRetxs cfg r
  | .deallocHarq r => s.deallocHarq cfg r
  | .reserveUeHarqs ueIdx nofHarqs => s.reserveUeHarqs cfg ueIdx nofHarqs
  | .extendUeHarqs ueIdx newNofHarqs => s.extendUeHarqs cfg ueIdx newNofHarqs
  | .destroyUe ueIdx => s.destroyUe cfg ueIdx

end CellHarqRepository

end Ocudu.Sched
