import Ocudu.Basic.CircularMap
import Ocudu.Basic.Machine
import Ocudu.Rlc.StatusPdu

/-! `rlc_rx_am_entity`: the receiving side of an AM RLC entity. -/

namespace Ocudu.Rlc

open SeqNum

structure RlcRxAmSduSegment where
  si : RlcSiField
  so : Nat
  payload : List UInt8

/-- The variant of a full SDU and a set of segments; the set is the list of its elements in the
order of their SO. -/
inductive SduData
  | full (payload : List UInt8)
  | segments (segs : List RlcRxAmSduSegment)

structure RlcRxAmSduInfo where
  fullyReceived : Bool := false
  hasGap : Bool := false
  sduData : SduData := .full []

/-- `std::set::insert` with the SO as the key: an equal key is left as it is. -/
def setInsert (seg : RlcRxAmSduSegment) : List RlcRxAmSduSegment → List RlcRxAmSduSegment
  | [] => [seg]
  | cur :: rest =>
    if seg.so < cur.so then seg :: cur :: rest
    else if cur.so < seg.so then cur :: setInsert seg rest
    else cur :: rest

namespace RlcRxAmSduSegment

def lastByte (seg : RlcRxAmSduSegment) : Nat := seg.so + seg.payload.length - 1

def cutFront (seg : RlcRxAmSduSegment) (so : Nat) : RlcRxAmSduSegment :=
  { seg with so := so % 2 ^ 16, payload := seg.payload.drop (so - seg.so) }

end RlcRxAmSduSegment

/-- The loop of `store_segment`: the segments that are left, the rest of a segment whose front
is overwritten, and the part of the new segment to insert.  Nothing if the new segment is
discarded. -/
def storeLoop : List RlcRxAmSduSegment → RlcRxAmSduSegment →
    Option (List RlcRxAmSduSegment × Option RlcRxAmSduSegment × RlcRxAmSduSegment)
  | [], new => some ([], none, new)
  | cur :: rest, new =>
    let keep := fun (left, cut, new) => (cur :: left, cut, new)
    if new.so > cur.lastByte then (storeLoop rest new).map keep
    else if new.so ≥ cur.so then
      if new.lastByte ≤ cur.lastByte then none
      else (storeLoop rest (new.cutFront (cur.lastByte + 1))).map keep
    else if new.lastByte < cur.so then some (cur :: rest, none, new)
    else if new.lastByte < cur.lastByte then
      some (rest, some (cur.cutFront (new.lastByte + 1)), new)
    else storeLoop rest new

def storedSegments (segs : List RlcRxAmSduSegment) (new : RlcRxAmSduSegment) :
    Option (List RlcRxAmSduSegment) :=
  (storeLoop segs new).map fun (left, cut, new) => setInsert new (cut.elim left (setInsert · left))

namespace RlcRxAmSduInfo

/-- The segment set, which is put in place if the variant holds a buffer. -/
def segmentSet (info : RlcRxAmSduInfo) : List RlcRxAmSduSegment :=
  match info.sduData with
  | .full _ => []
  | .segments segs => segs

def storeSegment (info : RlcRxAmSduInfo) (new : RlcRxAmSduSegment) : Bool × RlcRxAmSduInfo :=
  match storedSegments info.segmentSet new with
  | some segs => (true, { info with sduData := .segments segs })
  | none => (false, { info with sduData := .segments info.segmentSet })

def inventory : List RlcRxAmSduSegment → Nat → Bool × Bool
  | [], _ => (false, false)
  | segm :: rest, nextByte =>
    if segm.so ≠ nextByte then (false, true)
    else if segm.si = .lastSegment then (true, false)
    else inventory rest (nextByte + segm.payload.length)

def updateSegmentInventory (info : RlcRxAmSduInfo) : RlcRxAmSduInfo :=
  let (fullyReceived, hasGap) := inventory info.segmentSet 0
  { info with fullyReceived, hasGap }

def chainAppend (maxSlices : Nat) (chain : List (List UInt8)) (slice : List UInt8) :
    Option (List (List UInt8)) :=
  if slice.isEmpty then some chain
  else if chain.length = maxSlices then none
  else some (chain ++ [slice])

def slices (info : RlcRxAmSduInfo) : List (List UInt8) :=
  match info.sduData with
  | .full payload => [payload]
  | .segments segs => segs.map (·.payload)

/-- The bytes of the chain; nothing if the slices do not fit. -/
def reassembleSdu (maxSlices : Nat) (info : RlcRxAmSduInfo) : Option (List UInt8) :=
  (info.slices.foldlM (chainAppend maxSlices) []).map List.flatten

end RlcRxAmSduInfo

structure RlcRxAmState where
  rxNext : Nat := 0
  rxNextStatusTrigger : Nat := 0
  rxHighestStatus : Nat := 0
  rxNextHighest : Nat := 0

structure RlcRxAmConfig where
  snFieldLength : RlcAmSnSize
  tStatusProhibit : Nat
  maxSnPerStatus : Option Nat
  /-- The slices that one memory block of the byte buffer pool has room for. -/
  maxSlices : Nat
  maxSnPerStatus_ok : ∀ n ∈ maxSnPerStatus, 0 < n ∧ n ≤ snFieldLength.window

/-- The upper layer's share of a PDU. -/
inductive RxOutcome
  | nothing
  | delivered (sdu : List UInt8)
  /-- The SDU was fully received, but not reassembled from so many slices. -/
  | dropped (nofSlices : Nat)

structure RlcRxAmEntity where
  cfg : RlcRxAmConfig
  st : RlcRxAmState
  rxWindow : CircularMap RlcRxAmSduInfo
  reassemblyTimerRunning : Bool
  doStatus : Bool
  statusProhibitTimerIsRunning : Bool
  statusOwnedByWriter : RlcAmStatusPdu
  statusForExchange : RlcAmStatusPdu
  statusOwnedByReader : RlcAmStatusPdu
  statusReportSize : Nat

namespace RlcRxAmEntity

def new (cfg : RlcRxAmConfig) : RlcRxAmEntity where
  cfg := cfg
  st := {}
  rxWindow := CircularMap.empty cfg.snFieldLength.window
  reassemblyTimerRunning := false
  doStatus := false
  statusProhibitTimerIsRunning := false
  statusOwnedByWriter := RlcAmStatusPdu.new cfg.snFieldLength
  statusForExchange := { RlcAmStatusPdu.new cfg.snFieldLength with ackSn := 0 }
  statusOwnedByReader := RlcAmStatusPdu.new cfg.snFieldLength
  statusReportSize := (RlcAmStatusPdu.new cfg.snFieldLength).getPackedSize

variable (s : RlcRxAmEntity)

def mod : Nat := s.cfg.snFieldLength.mod

def amWindowSize : Nat := s.cfg.snFieldLength.window

def maxNofSnPerStatusReport : Nat := s.cfg.maxSnPerStatus.getD s.amWindowSize

def rxModBase (sn : Nat) : Nat := subU32 sn s.st.rxNext % s.mod

def insideRxWindow (sn : Nat) : Bool := s.rxModBase sn < s.amWindowSize

def validAckSn (sn : Nat) : Bool := 0 < s.rxModBase sn && s.rxModBase sn ≤ s.amWindowSize

def nextSn (sn : Nat) : Nat := (sn + 1) % s.mod

def fullyReceived (sn : Nat) : Bool := (s.rxWindow.lookup sn).any (·.fullyReceived)

def hasGap (sn : Nat) : Bool := (s.rxWindow.lookup sn).any (·.hasGap)

def stopSn : Nat :=
  let limit := (s.st.rxNext + s.maxNofSnPerStatusReport) % s.mod
  if s.rxModBase s.st.rxHighestStatus > s.rxModBase limit then limit else s.st.rxHighestStatus

/-- Pushes a NACK for a part of an SDU; the offsets of a NACK have 16 bits. -/
def pushSoNack (status : RlcAmStatusPdu) (sn soStart soEnd : Nat) : Except Fault RlcAmStatusPdu :=
  let so : SoRange := { soStart := soStart % 2 ^ 16, soEnd := soEnd % 2 ^ 16 }
  if so.soStart > so.soEnd then .error .soOrder
  else .ok (status.pushNack { nackSn := sn, so := some so })

def reportGap (status : RlcAmStatusPdu) (sn lastSo : Nat) (segm : RlcRxAmSduSegment) :
    Except Fault RlcAmStatusPdu :=
  if segm.so ≠ lastSo then pushSoNack status sn lastSo (subU32 segm.so 1) else .ok status

/-- The loop over the segments of an SDU that is not fully received. -/
def reportSegments (sn : Nat) : List RlcRxAmSduSegment → Nat → Bool → RlcAmStatusPdu →
    Except Fault RlcAmStatusPdu
  | [], lastSo, haveLastSegment, status =>
    if haveLastSegment then .ok status
    else pushSoNack status sn lastSo RlcAmStatusNack.soEndOfSdu
  | segm :: rest, lastSo, haveLastSegment, status => do
    let status ← reportGap status sn lastSo segm
    reportSegments sn rest (segm.so + segm.payload.length)
      (haveLastSegment || segm.si == .lastSegment) status

def reportSn (sn : Nat) (status : RlcAmStatusPdu) : Except Fault RlcAmStatusPdu :=
  match s.rxWindow.lookup sn with
  | none => .ok (status.pushNack { nackSn := sn })
  | some info =>
    if info.fullyReceived then .ok status
    else
      match info.sduData with
      | .full _ => .error .sduVariant
      | .segments segs => reportSegments sn segs 0 false status

def reportLoop (stopSn : Nat) : Nat → Nat → RlcAmStatusPdu → Except Fault RlcAmStatusPdu
  | fuel, sn, status =>
    if s.rxModBase sn < s.rxModBase stopSn then
      match fuel with
      | 0 => .error .loopBound
      | fuel + 1 => do
        let status ← s.reportSn sn status
        reportLoop stopSn fuel (s.nextSn sn) status
    else .ok status

def storeStatusReport : RlcRxAmEntity :=
  { s with
    statusOwnedByWriter := s.statusForExchange
    statusForExchange := s.statusOwnedByWriter
    statusReportSize := s.statusOwnedByWriter.getPackedSize }

def refreshStatusReport : Except Fault RlcRxAmEntity := do
  let status ← s.reportLoop s.stopSn s.mod s.st.rxNext s.statusOwnedByWriter.reset
  return { s with statusOwnedByWriter := { status with ackSn := s.stopSn } }.storeStatusReport

def getStatusPdu : RlcAmStatusPdu × RlcRxAmEntity :=
  (s.statusForExchange,
    { s with
      doStatus := false
      statusProhibitTimerIsRunning :=
        s.statusProhibitTimerIsRunning || decide (0 < s.cfg.tStatusProhibit)
      statusForExchange := s.statusOwnedByReader
      statusOwnedByReader := s.statusForExchange })

def getStatusPduLength : Nat := s.statusReportSize

def statusReportRequired : Bool := s.doStatus && !s.statusProhibitTimerIsRunning

def sduInfo (sn : Nat) : RlcRxAmSduInfo := (s.rxWindow.lookup sn).getD {}

def writeSn (sn : Nat) (info : RlcRxAmSduInfo) : RlcRxAmEntity :=
  { s with
    rxWindow :=
      if s.rxWindow.contains sn then s.rxWindow.modify sn (fun _ => info)
      else s.rxWindow.overwrite sn info }

def handleFullDataSdu (sn : Nat) (payload : List UInt8) : Bool × RlcRxAmEntity :=
  (true, s.writeSn sn
    { s.sduInfo sn with sduData := .full payload, fullyReceived := true, hasGap := false })

def handleSegmentDataSdu (header : RlcAmPduHeader) (payload : List UInt8) : Bool × RlcRxAmEntity :=
  let (stored, info) := (s.sduInfo header.sn).storeSegment
    { si := header.si, so := header.so, payload }
  (stored, s.writeSn header.sn info.updateSegmentInventory)

def firstMissing : Nat → Nat → Except Fault Nat
  | fuel, sn =>
    if s.rxModBase sn < s.rxModBase s.st.rxNextHighest && s.fullyReceived sn then
      match fuel with
      | 0 => .error .loopBound
      | fuel + 1 => firstMissing fuel (s.nextSn sn)
    else .ok sn

def removeReceived : Nat → Nat → RlcRxAmEntity → Except Fault (Nat × RlcRxAmEntity)
  | fuel, sn, s =>
    if s.rxModBase sn < s.rxModBase s.st.rxNextHighest && s.fullyReceived sn then
      match fuel with
      | 0 => .error .loopBound
      | fuel + 1 => removeReceived fuel (s.nextSn sn) { s with rxWindow := s.rxWindow.erase sn }
    else .ok (sn, s)

def updateRxHighestStatus (sn : Nat) : Except Fault RlcRxAmEntity :=
  if s.rxModBase sn = s.rxModBase s.st.rxHighestStatus then do
    let snUpd ← s.firstMissing s.mod (s.nextSn s.st.rxHighestStatus)
    return { s with st := { s.st with rxHighestStatus := snUpd } }
  else .ok s

def updateRxNext (sn : Nat) : Except Fault RlcRxAmEntity :=
  if s.rxModBase sn = s.rxModBase s.st.rxNext then do
    let (snUpd, s) ← removeReceived s.mod (s.st.rxNext % s.mod) s
    return { s with st := { s.st with rxNext := snUpd } }
  else .ok s

def updateRxNextHighest (sn : Nat) : RlcRxAmEntity :=
  if s.rxModBase sn ≥ s.rxModBase s.st.rxNextHighest then
    { s with st := { s.st with rxNextHighest := s.nextSn sn } }
  else s

def deliver (info : RlcRxAmSduInfo) : RxOutcome :=
  match info.reassembleSdu s.cfg.maxSlices with
  | some sdu => .delivered sdu
  | none => .dropped info.slices.length

def completeSdu (sn : Nat) (info : RlcRxAmSduInfo) : Except Fault (RxOutcome × RlcRxAmEntity) := do
  -- the buffers are released, `fully_received` is kept for the status report
  let t := { s with rxWindow := s.rxWindow.modify sn (fun i => { i with sduData := .full [] }) }
  let t ← t.updateRxHighestStatus sn
  let t ← t.updateRxNext sn
  return (s.deliver info, t)

def stopsReassembly : Except Fault Bool := do
  let noGap ←
    if s.rxModBase s.st.rxNextStatusTrigger = s.rxModBase (s.st.rxNext + 1) then
      match s.rxWindow.lookup s.st.rxNext with
      | some info => Except.ok !info.hasGap
      | none => Except.error Fault.absentSn
    else Except.ok false
  return s.st.rxNextStatusTrigger == s.st.rxNext || noGap ||
    !s.insideRxWindow s.st.rxNextStatusTrigger

def missingFrom (sn : Nat) : Bool :=
  decide (s.rxModBase s.st.rxNextHighest > s.rxModBase (sn + 1)) ||
    (s.rxModBase s.st.rxNextHighest == s.rxModBase (sn + 1) && s.hasGap sn)

def startReassembly (sn : Nat) : RlcRxAmEntity :=
  if s.missingFrom sn then
    { s with
      reassemblyTimerRunning := true
      st := { s.st with rxNextStatusTrigger := s.st.rxNextHighest } }
  else s

def updateReassemblyTimer : Except Fault RlcRxAmEntity := do
  let stop ← if s.reassemblyTimerRunning then s.stopsReassembly else Except.ok false
  let s := if stop then { s with reassemblyTimerRunning := false } else s
  return if s.reassemblyTimerRunning then s else s.startReassembly s.st.rxNext

/-- The part of `handle_data_pdu` on a new PDU of the window, but for the last update of t-Reassembly. -/
def receiveUpdates (header : RlcAmPduHeader) (payload : List UInt8) :
    Except Fault (RxOutcome × Bool × RlcRxAmEntity) := do
  let (statusChanged, s) :=
    if header.si = .fullSdu then s.handleFullDataSdu header.sn payload
    else s.handleSegmentDataSdu header payload
  let s := s.updateRxNextHighest header.sn
  let (outcome, s) ←
    match s.rxWindow.lookup header.sn with
    | some info => if info.fullyReceived then s.completeSdu header.sn info else .ok (.nothing, s)
    | none => Except.ok (.nothing, s)
  return (outcome, statusChanged, s)

/-- The part of `handle_data_pdu` that follows the poll bit: the fate of the SDU and whether the
status report changes. -/
def receive (header : RlcAmPduHeader) (payload : List UInt8) :
    Except Fault (RxOutcome × Bool × RlcRxAmEntity) :=
  if !s.insideRxWindow header.sn then .ok (.nothing, false, s)
  else if s.fullyReceived header.sn then .ok (.nothing, false, s)
  else do
    let (outcome, statusChanged, s) ← s.receiveUpdates header payload
    return (outcome, statusChanged, ← s.updateReassemblyTimer)

def onFunctionExit (statusChanged statusRequested : Bool) : Except Fault RlcRxAmEntity := do
  let s ← if statusChanged || statusRequested then s.refreshStatusReport else Except.ok s
  return { s with doStatus := s.doStatus || statusRequested }

def handleDataPdu (buf : List UInt8) : Except Fault (RxOutcome × RlcRxAmEntity) := do
  match ← rlcAmReadDataPduHeader s.cfg.snFieldLength buf with
  | none => return (.nothing, s)
  | some (header, _) =>
    let headerLen := header.getPackedSize
    if buf.length ≤ headerLen then return (.nothing, s)
    let (outcome, statusChanged, s) ← s.receive header (buf.drop headerLen)
    return (outcome, ← s.onFunctionExit statusChanged header.p)

def handlePdu (buf : List UInt8) : Except Fault (RxOutcome × RlcRxAmEntity) := do
  if buf.isEmpty then return (.nothing, s)
  if ← RlcAmStatusPdu.isControlPdu buf then return (.nothing, s)
  s.handleDataPdu buf

def onExpiredStatusProhibitTimer : RlcRxAmEntity := { s with statusProhibitTimerIsRunning := false }

def onExpiredReassemblyTimer : Except Fault RlcRxAmEntity := do
  if s.reassemblyTimerRunning then return s
  if !s.validAckSn s.st.rxNextStatusTrigger then return s
  let snUpd ← s.firstMissing s.mod s.st.rxNextStatusTrigger
  if !s.validAckSn snUpd then throw .ackSnOutsideWindow
  let s := { s with st := { s.st with rxHighestStatus := snUpd } }
  let s ← (s.startReassembly snUpd).refreshStatusReport
  return { s with doStatus := true }

end RlcRxAmEntity

inductive RxEvent
  | pdu (buf : List UInt8)
  | reassemblyExpired
  | statusProhibitExpired
  | getStatusPdu

namespace RlcRxAmEntity

def react (s : RlcRxAmEntity) : RxEvent → Except Fault (RxOutcome × RlcRxAmEntity)
  | .pdu buf => s.handlePdu buf
  | .reassemblyExpired =>
    -- the timer calls its handler only if it was not stopped or restarted in the meantime, and
    -- does not run any more when it does
    if s.reassemblyTimerRunning then do
      return (.nothing, ← { s with reassemblyTimerRunning := false }.onExpiredReassemblyTimer)
    else .ok (.nothing, s)
  | .statusProhibitExpired => .ok (.nothing, s.onExpiredStatusProhibitTimer)
  | .getStatusPdu =>
    .ok (.nothing, if s.statusReportRequired then s.getStatusPdu.2 else s)

def step (s : RlcRxAmEntity) (e : RxEvent) : Except Fault RlcRxAmEntity := do
  return (← s.react e).2

end RlcRxAmEntity

end Ocudu.Rlc
