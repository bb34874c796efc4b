import Ocudu.Basic.CircularMap
import Ocudu.Basic.Machine
import Ocudu.Rlc.SduQueue
import Ocudu.Rlc.StatusPdu

/-! `rlc_tx_am_entity`: the transmitting side of an AM RLC entity. -/

namespace Ocudu.Rlc

open SeqNum

/-! `rlc_retx_queue.h` -/

structure RlcTxAmdRetx where
  sn : Nat
  so : Nat
  length : Nat
  deriving DecidableEq

structure RlcRetxQueueState where
  retxBytes : Nat := 0
  nRetxSoZero : Nat := 0
  nRetxSoNonzero : Nat := 0
  deriving DecidableEq

namespace RlcRetxQueueState

def add (st : RlcRetxQueueState) (elem : RlcTxAmdRetx) : RlcRetxQueueState :=
  let st := { st with retxBytes := (st.retxBytes + elem.length) % 2 ^ 32 }
  if elem.so = 0 then { st with nRetxSoZero := st.nRetxSoZero + 1 }
  else { st with nRetxSoNonzero := st.nRetxSoNonzero + 1 }

/-- Each counter stops at zero, as truncated subtraction does. -/
def subtract (st : RlcRetxQueueState) (elem : RlcTxAmdRetx) : RlcRetxQueueState :=
  let st := { st with retxBytes := st.retxBytes - elem.length }
  if elem.so = 0 then { st with nRetxSoZero := st.nRetxSoZero - 1 }
  else { st with nRetxSoNonzero := st.nRetxSoNonzero - 1 }

end RlcRetxQueueState

/-- The entity never calls `remove_sn`, so no item is ever marked invalid. -/
structure RlcRetxQueue where
  capacity : Nat
  queue : List RlcTxAmdRetx
  st : RlcRetxQueueState
  deriving DecidableEq

namespace RlcRetxQueue

def new (capacity : Nat) : RlcRetxQueue := { capacity, queue := [], st := {} }

def tryPush (q : RlcRetxQueue) (retx : RlcTxAmdRetx) : Option RlcRetxQueue :=
  if q.queue.length < q.capacity then
    some { q with queue := q.queue ++ [retx], st := q.st.add retx }
  else none

def pop (q : RlcRetxQueue) : RlcRetxQueue :=
  match q.queue with
  | [] => q
  | front :: rest => { q with queue := rest, st := q.st.subtract front }

def replaceFront (q : RlcRetxQueue) (retx : RlcTxAmdRetx) : RlcRetxQueue :=
  match q.queue with
  | [] => q
  | front :: rest => { q with queue := retx :: rest, st := (q.st.subtract front).add retx }

def empty (q : RlcRetxQueue) : Bool := q.queue.isEmpty

end RlcRetxQueue

/-! `pdcp_sn_util.h` -/

inductive PdcpSnSize
  | size12bits
  | size18bits
  deriving DecidableEq

def getPdcpSn (pdcpPdu : List UInt8) (pdcpSnLen : PdcpSnSize) (isSrb : Bool) : Option Nat :=
  match pdcpPdu with
  | [] => none
  | b0 :: rest =>
    let octet := b0.toNat
    let dcField := octet >>> 7
    if isSrb ∧ pdcpSnLen ≠ .size12bits then none
    else if !isSrb ∧ dcField = 0 then none
    else if isSrb ∧ dcField = 1 then none
    else
      match pdcpSnLen, rest with
      | .size12bits, b1 :: _ =>
        if (octet >>> 4) &&& 0x07 ≠ 0 then none else some (((octet &&& 0x0f) <<< 8) + b1.toNat)
      | .size18bits, b1 :: b2 :: _ =>
        if (octet >>> 2) &&& 0x1f ≠ 0 then none
        else some (((octet &&& 0x03) <<< 16) + (b1.toNat <<< 8) + b2.toNat)
      | _, _ => none

structure RlcTxAmConfig where
  snFieldLength : RlcAmSnSize
  pdcpSnLen : PdcpSnSize
  isSrb : Bool
  tPollRetx : Int
  maxRetxThresh : Nat
  pollPdu : Int
  pollByte : Int
  queueSize : Nat
  queueSizeBytes : Nat
  maxWindow : Nat
  deriving DecidableEq

def retxCountNotStarted : Nat := 0xffffffff

structure RlcTxAmSduInfo where
  sdu : List UInt8
  isRetx : Bool
  pdcpSn : Option Nat
  timeOfArrival : Nat
  nextSo : Nat
  retxCount : Nat

def RlcTxAmSduInfo.ofSdu (sdu : RlcSdu) : RlcTxAmSduInfo :=
  { sdu := sdu.buf, isRetx := sdu.isRetx, pdcpSn := sdu.pdcpSn, timeOfArrival := sdu.timeOfArrival
    nextSo := 0, retxCount := retxCountNotStarted }

structure RlcTxAmState where
  txNextAck : Nat := 0
  txNext : Nat := 0
  pollSn : Nat := 0
  pduWithoutPoll : Nat := 0
  byteWithoutPoll : Nat := 0

structure RlcBufferState where
  pendingBytes : Nat := 0
  holToa : Option Nat := none

structure RlcTxAmEntity where
  cfg : RlcTxAmConfig
  st : RlcTxAmState
  sduQueue : SduQueue
  snUnderSegmentation : Option Nat
  retxQueue : RlcRetxQueue
  retxSn : Option Nat
  txWindow : CircularMap RlcTxAmSduInfo
  pollRetransmitTimerRunning : Bool
  prevBufferState : RlcBufferState
  suspendBsNotifBarring : Bool
  pendingBufferState : Bool
  stoppedLower : Bool
  maxRetxReached : Bool

namespace RlcTxAmEntity

def new (cfg : RlcTxAmConfig) : RlcTxAmEntity where
  cfg := cfg
  st := {}
  sduQueue := SduQueue.new cfg.queueSize cfg.queueSizeBytes
  snUnderSegmentation := none
  retxQueue := RlcRetxQueue.new cfg.snFieldLength.window
  retxSn := none
  txWindow := CircularMap.empty cfg.snFieldLength.window
  pollRetransmitTimerRunning := false
  prevBufferState := {}
  suspendBsNotifBarring := true
  pendingBufferState := false
  stoppedLower := false
  maxRetxReached := false

variable (s : RlcTxAmEntity)

def mod : Nat := s.cfg.snFieldLength.mod

def amWindowSize : Nat := s.cfg.snFieldLength.window

def headMinSize : Nat := rlcAmPduHeaderMinSize s.cfg.snFieldLength

def headMaxSize : Nat := rlcAmPduHeaderMaxSize s.cfg.snFieldLength

def txModBase (x : Nat) : Nat := subU32 x s.st.txNextAck % s.mod

def insideTxWindow (sn : Nat) : Bool := s.txModBase sn < s.amWindowSize

def isTxWindowFull : Bool :=
  s.txWindow.full || (s.cfg.maxWindow != 0 && decide (s.txModBase s.st.txNext > s.cfg.maxWindow))

def validAckSn (sn : Nat) : Bool := 0 < s.txModBase sn && s.txModBase sn ≤ s.amWindowSize

variable (nack : RlcAmStatusNack)

def lastNackSn (range : Nat) : Nat := subU32 (nack.nackSn + range) 1

def validNack (ackSn : Nat) (nack : RlcAmStatusNack) : Bool :=
  let inRange (p : Nat → Bool) : Bool :=
    match nack.nackRange with
    | some range => p (lastNackSn nack range)
    | none => true
  decide (s.txModBase nack.nackSn < s.txModBase ackSn) &&
    inRange (fun sn => s.txModBase sn < s.txModBase ackSn) &&
    s.insideTxWindow nack.nackSn &&
    inRange s.insideTxWindow &&
    decide (s.txModBase nack.nackSn ≤ s.txModBase s.st.txNext) &&
    inRange (fun sn => s.txModBase sn ≤ s.txModBase s.st.txNext)

/-- Marks that a buffer state update is due; the update itself runs later. -/
def handleChangedBufferState : RlcTxAmEntity := { s with pendingBufferState := true }

def newSdu (buf : List UInt8) (isRetx : Bool) (now : Nat) : RlcSdu :=
  { buf
    isRetx := isRetx && !s.cfg.isSrb
    pdcpSn := getPdcpSn buf s.cfg.pdcpSnLen s.cfg.isSrb
    timeOfArrival := now }

def handleSdu (buf : List UInt8) (isRetx : Bool) (now : Nat) : RlcTxAmEntity :=
  match s.sduQueue.write (s.newSdu buf isRetx now) with
  | (true, q) => { s with sduQueue := q }.handleChangedBufferState
  | (false, q) => { s with sduQueue := q }

def discardSdu (pdcpSn : Nat) : RlcTxAmEntity :=
  match s.sduQueue.tryDiscard pdcpSn with
  | (true, q) => { s with sduQueue := q }.handleChangedBufferState
  | (false, q) => { s with sduQueue := q }

def maxDlPduLength : Nat := 156 * 275 * 4 * 8 / 8

def dropStaleRetx (w : CircularMap RlcTxAmSduInfo) : List RlcTxAmdRetx → RlcRetxQueue → RlcRetxQueue
  | [], q => q
  | front :: rest, q => if w.contains front.sn then q else dropStaleRetx w rest q.pop

/-- The bytes of an SDU under segmentation, the time of arrival of the SDU at the head, and the
queue, from which discarded SDUs at the head have been popped. -/
def segmentState : Nat × Option Nat × SduQueue :=
  match s.snUnderSegmentation with
  | some sn =>
    match s.txWindow.lookup sn with
    | some info =>
      (subU32 info.sdu.length info.nextSo + s.headMaxSize, some info.timeOfArrival, s.sduQueue)
    | none => (0, none, s.sduQueue)
  | none => (0, s.sduQueue.front.1.map (·.timeOfArrival), s.sduQueue.front.2)

def getBufferState (statusBytes : Option Nat) : RlcBufferState × RlcTxAmEntity :=
  let queueState := s.sduQueue.getState
  let queueBytes := queueState.nBytes + queueState.nSdus * s.headMinSize
  let (segmentBytes, holToa, sduQueue) := s.segmentState
  -- the RETX bytes are taken before the stale RETX are dropped
  let retxState := s.retxQueue.st
  let retxBytes := retxState.retxBytes + retxState.nRetxSoZero * s.headMinSize +
    retxState.nRetxSoNonzero * s.headMaxSize
  let retxQueue := dropStaleRetx s.txWindow s.retxQueue.queue s.retxQueue
  let holToa :=
    match retxQueue.queue with
    | front :: _ => (s.txWindow.lookup front.sn).map (·.timeOfArrival)
    | [] => holToa
  let pendingBytes := (queueBytes + segmentBytes + retxBytes + statusBytes.getD 0) % 2 ^ 32
  ({ pendingBytes, holToa },
    { s with
      sduQueue
      retxQueue
      suspendBsNotifBarring := s.suspendBsNotifBarring || decide (pendingBytes ≤ maxDlPduLength) })

def holToaLt : Option Nat → Option Nat → Bool
  | none, some _ => true
  | some a, some b => a < b
  | _, none => false

def updateMacBufferState (forceNotify : Bool) (statusBytes : Option Nat) :
    Option RlcBufferState × RlcTxAmEntity :=
  let (bs, s) := { s with pendingBufferState := false }.getBufferState statusBytes
  if forceNotify || decide (bs.pendingBytes ≤ maxDlPduLength) ||
      decide (s.prevBufferState.pendingBytes ≤ maxDlPduLength) || s.suspendBsNotifBarring ||
      holToaLt bs.holToa s.prevBufferState.holToa then
    (some bs, { s with suspendBsNotifBarring := false, prevBufferState := bs })
  else (none, { s with prevBufferState := bs })

def getPollingBit (sn : Nat) (isRetx : Bool) (payloadSize : Nat) : Bool × RlcTxAmEntity :=
  let (counted, s) :=
    if isRetx then (false, s)
    else
      let pduWithoutPoll : Nat := (s.st.pduWithoutPoll + 1) % 2 ^ 32
      let byteWithoutPoll : Nat := (s.st.byteWithoutPoll + payloadSize) % 2 ^ 32
      (decide (s.cfg.pollPdu > 0 ∧ s.cfg.pollPdu ≤ pduWithoutPoll) ||
          decide (s.cfg.pollByte > 0 ∧ s.cfg.pollByte ≤ byteWithoutPoll),
        { s with st := { s.st with pduWithoutPoll, byteWithoutPoll } })
  let poll := counted || (s.sduQueue.isEmpty && s.retxQueue.empty && s.snUnderSegmentation.isNone) ||
    s.isTxWindowFull
  if poll then
    let pollSn := if isRetx then s.st.pollSn else sn
    let running := s.pollRetransmitTimerRunning || (decide (s.cfg.tPollRetx > 0) && !s.stoppedLower)
    (true, { s with
      st := { s.st with pduWithoutPoll := 0, byteWithoutPoll := 0, pollSn }
      pollRetransmitTimerRunning := running })
  else (false, s)

def segment (sdu : List UInt8) (so length : Nat) : List UInt8 := (sdu.drop so).take length

def writePdu (hdr : RlcAmPduHeader) (payload : List UInt8) : List UInt8 :=
  if payload.isEmpty then [] else rlcAmWriteDataPduHeader hdr ++ payload

def nextSn (sn : Nat) : Nat := (sn + 1) % s.mod

def buildFirstSduSegment (grantLen : Nat) (info : RlcTxAmSduInfo) : List UInt8 × RlcTxAmEntity :=
  if info.sdu.length + s.headMinSize ≤ grantLen then ([], s)
  else if grantLen ≤ s.headMinSize then ([], s)
  else
    let segmentPayloadLen := grantLen - s.headMinSize
    -- the SN under segmentation is set before the polling bit is computed
    let (p, s) := { s with snUnderSegmentation := some s.st.txNext }.getPollingBit
      s.st.txNext false segmentPayloadLen
    let hdr : RlcAmPduHeader :=
      { p, si := .firstSegment, snSize := s.cfg.snFieldLength, sn := s.st.txNext
        so := info.nextSo % 2 ^ 16 }
    let payload := segment info.sdu hdr.so segmentPayloadLen
    if payload.length = 0 ∨ payload.length ≠ segmentPayloadLen then ([], s)
    else
      (writePdu hdr payload,
        { s with
          txWindow := s.txWindow.modify s.st.txNext
            (fun i => { i with nextSo := i.nextSo + segmentPayloadLen }) })

def buildNewPdu (grantLen : Nat) : Except Fault (List UInt8 × RlcTxAmEntity) :=
  if grantLen ≤ s.headMinSize then .ok ([], s)
  else if s.isTxWindowFull then .ok ([], s)
  else
    match s.sduQueue.read with
    | (none, q) => .ok ([], { s with sduQueue := q })
    | (some sdu, q) =>
      if s.txWindow.contains s.st.txNext then .error .addSn
      else
        let info := RlcTxAmSduInfo.ofSdu sdu
        let s := { s with sduQueue := q, txWindow := s.txWindow.overwrite s.st.txNext info }
        if info.sdu.length + s.headMinSize > grantLen then .ok (s.buildFirstSduSegment grantLen info)
        else
          -- `sdu.buf` has been moved from, its length is zero
          let (p, s) := s.getPollingBit s.st.txNext false 0
          let hdr : RlcAmPduHeader :=
            { p, si := .fullSdu, snSize := s.cfg.snFieldLength, sn := s.st.txNext, so := 0 }
          if info.sdu.length = 0 then .ok ([], s)
          else
            .ok (writePdu hdr info.sdu, { s with st := { s.st with txNext := s.nextSn s.st.txNext } })

def buildContinuedSduSegment (grantLen sn : Nat) (info : RlcTxAmSduInfo) :
    List UInt8 × RlcTxAmEntity :=
  if info.nextSo = 0 then ([], { s with snUnderSegmentation := none })
  else if info.nextSo ≥ info.sdu.length then ([], { s with snUnderSegmentation := none })
  else if grantLen ≤ s.headMaxSize then ([], s)
  else
    let rest := info.sdu.length - info.nextSo
    let (si, segmentPayloadLen) :=
      if rest + s.headMaxSize > grantLen then (RlcSiField.middleSegment, grantLen - s.headMaxSize)
      else (RlcSiField.lastSegment, rest)
    let s := if si = .lastSegment then { s with snUnderSegmentation := none } else s
    let (p, s) := s.getPollingBit s.st.txNext false segmentPayloadLen
    let hdr : RlcAmPduHeader :=
      { p, si, snSize := s.cfg.snFieldLength, sn := s.st.txNext, so := info.nextSo % 2 ^ 16 }
    let payload := segment info.sdu hdr.so segmentPayloadLen
    if payload.length = 0 ∨ payload.length ≠ segmentPayloadLen then ([], s)
    else
      let s := { s with
        txWindow := s.txWindow.modify sn
          (fun i => { i with nextSo := i.nextSo + segmentPayloadLen }) }
      let s :=
        if si = .lastSegment then { s with st := { s.st with txNext := s.nextSn s.st.txNext } } else s
      (writePdu hdr payload, s)

def getRetxExpectedHdrLen (retx : RlcTxAmdRetx) : Nat :=
  if retx.so = 0 then s.headMinSize else s.headMaxSize

def retxSi (so : Nat) (sduComplete : Bool) : RlcSiField :=
  if so = 0 then if sduComplete then .fullSdu else .firstSegment
  else if sduComplete then .lastSegment else .middleSegment

/-- The RETX queue is updated before the polling bit is computed. -/
def advanceRetx (retx : RlcTxAmdRetx) (info : RlcTxAmSduInfo) (retxPayloadLen : Nat) : RlcTxAmEntity :=
  if retxPayloadLen = retx.length then
    { s with
      maxRetxReached := s.maxRetxReached || info.retxCount == s.cfg.maxRetxThresh
      retxQueue := s.retxQueue.pop }
  else
    { s with
      retxQueue := s.retxQueue.replaceFront
        { retx with so := retx.so + retxPayloadLen, length := retx.length - retxPayloadLen } }

def writeRetxPdu (retx : RlcTxAmdRetx) (info : RlcTxAmSduInfo) (retxPayloadLen : Nat) :
    Except Fault (List UInt8 × RlcTxAmEntity) :=
  let sduComplete := decide (retx.so + retxPayloadLen ≥ info.sdu.length)
  let (p, s) := s.getPollingBit retx.sn true 0
  let hdr : RlcAmPduHeader :=
    { p, si := retxSi retx.so sduComplete, snSize := s.cfg.snFieldLength, sn := retx.sn
      so := retx.so % 2 ^ 16 }
  if (rlcAmWriteDataPduHeader hdr).length ≠ s.getRetxExpectedHdrLen retx then .error .retxHeaderLen
  else
    let payload := segment info.sdu hdr.so retxPayloadLen
    if payload.length = 0 ∨ payload.length ≠ retxPayloadLen then .ok ([], s)
    else .ok (writePdu hdr payload, s)

def buildRetxFront (grantLen : Nat) (retx : RlcTxAmdRetx) :
    Except Fault (List UInt8 × RlcTxAmEntity) :=
  let s := { s with retxSn := some retx.sn }
  match s.txWindow.lookup retx.sn with
  | none => .error .absentSn
  | some info =>
    if retx.so + retx.length > info.sdu.length then
      .ok ([], { s with retxQueue := s.retxQueue.pop })
    else if grantLen ≤ s.getRetxExpectedHdrLen retx then .ok ([], s)
    else
      let retxPayloadLen := min retx.length (grantLen - s.getRetxExpectedHdrLen retx)
      (s.advanceRetx retx info retxPayloadLen).writeRetxPdu retx info retxPayloadLen

def buildRetxPdu (grantLen : Nat) : Except Fault (List UInt8 × RlcTxAmEntity) :=
  let q := dropStaleRetx s.txWindow s.retxQueue.queue s.retxQueue
  match q.queue with
  | [] => .ok ([], { s with retxQueue := q })
  | retx :: _ => { s with retxQueue := q }.buildRetxFront grantLen retx

def pullStatus (grantLen : Nat) (status : RlcAmStatusPdu) : List UInt8 :=
  if grantLen < sizeofHeaderAckSn then []
  else if status.getPackedSize > grantLen then
    match status.trim grantLen with
    | (true, trimmed) => trimmed.pack
    | (false, _) => []
  else status.pack

def pullPdu (grantLen : Nat) (status : Option RlcAmStatusPdu) :
    Except Fault (List UInt8 × RlcTxAmEntity) :=
  if s.maxRetxReached then .ok ([], s)
  else
    match status with
    | some report => .ok (pullStatus grantLen report, s)
    | none =>
      if !s.retxQueue.empty then s.buildRetxPdu grantLen
      else
        match s.snUnderSegmentation with
        | some sn =>
          match s.txWindow.lookup sn with
          | some info => .ok (s.buildContinuedSduSegment grantLen sn info)
          | none =>
            let s := { s with snUnderSegmentation := none }
            if s.sduQueue.isEmpty then .ok ([], s) else s.buildNewPdu grantLen
        | none => if s.sduQueue.isEmpty then .ok ([], s) else s.buildNewPdu grantLen

/-- The loop over the acknowledged SNs; it moves `tx_next_ack`, its own modulus base. -/
def ackLoop (stopSn : Nat) : Nat → Nat → RlcTxAmEntity → Except Fault RlcTxAmEntity
  | fuel, sn, s =>
    if s.txModBase sn < s.txModBase stopSn then
      match fuel with
      | 0 => .error .loopBound
      | fuel + 1 =>
        if s.txWindow.contains sn then
          ackLoop stopSn fuel (s.nextSn sn)
            { s with
              txWindow := s.txWindow.erase sn
              st := { s.st with txNextAck := s.nextSn sn } }
        else .ok s
    else .ok s

def setRetxCount (sn : Nat) (f : Nat → Nat) : Except Fault RlcTxAmEntity :=
  match s.txWindow.lookup sn with
  | none => .error .absentSn
  | some _ =>
    .ok { s with txWindow := s.txWindow.modify sn (fun i => { i with retxCount := f i.retxCount }) }

def incrementRetxCount (sn : Nat) : Except Fault RlcTxAmEntity :=
  s.setRetxCount sn (fun n => if n = retxCountNotStarted then 0 else (n + 1) % 2 ^ 32)

def decrementRetxCount (sn : Nat) : Except Fault RlcTxAmEntity :=
  s.setRetxCount sn (fun n =>
    if n = retxCountNotStarted then n else if n = 0 then retxCountNotStarted else n - 1)

def rewindRetx (retx : RlcTxAmdRetx) : Except Fault RlcTxAmEntity :=
  if s.retxSn = some retx.sn then .ok s
  else if s.txWindow.contains retx.sn then do
    let s ← s.decrementRetxCount retx.sn
    return { s with retxSn := some retx.sn }
  else .ok { s with retxSn := some retx.sn }

def clearRetxQueue : List RlcTxAmdRetx → RlcTxAmEntity → Except Fault RlcTxAmEntity
  | [], s => .ok { s with retxSn := none }
  | front :: rest, s => do
    let s ← s.rewindRetx front
    clearRetxQueue rest { s with retxQueue := s.retxQueue.pop }

def lastByte (info : RlcTxAmSduInfo) : Nat := subU32 info.sdu.length 1 % 2 ^ 16

def nackSoEnd (info : RlcTxAmSduInfo) : Option Nat :=
  let soEnd := if nack.so.isSome then nack.soEnd else lastByte info
  if soEnd = RlcAmStatusNack.soEndOfSdu then
    if some nack.nackSn ≠ s.snUnderSegmentation then some (lastByte info)
    -- only the part already sent may be retransmitted
    else if info.nextSo = 0 then none
    else if nack.soStart > info.nextSo then none
    else if nack.soStart = info.nextSo then none
    else some (subU32 info.nextSo 1 % 2 ^ 16)
  else some soEnd

def checkedRetx (info : RlcTxAmSduInfo) (soEnd : Nat) : RlcTxAmdRetx :=
  let soStart := if nack.soStart > soEnd then 0 else nack.soStart
  let soStart := if soStart ≥ info.sdu.length then 0 else soStart
  let soEnd := if soEnd ≥ info.sdu.length then lastByte info else soEnd
  { sn := nack.nackSn, so := soStart, length := subU32 (soEnd + 1) soStart }

/-- The part of an SDU to retransmit for a NACK of one SN; nothing if the NACK is ignored. -/
def nackRetx (info : RlcTxAmSduInfo) : Option RlcTxAmdRetx :=
  (s.nackSoEnd nack info).map (checkedRetx nack info)

def handleNack : Except Fault (Bool × RlcTxAmEntity) :=
  if nack.nackRange.isSome then .ok (false, s)
  else if ¬ (s.txModBase s.st.txNextAck ≤ s.txModBase nack.nackSn ∧
      s.txModBase nack.nackSn ≤ s.txModBase s.st.txNext) then .ok (false, s)
  else
    match s.txWindow.lookup nack.nackSn with
    | none => .error .absentSn
    | some info =>
      match s.nackRetx nack info with
      | none => .ok (false, s)
      | some retx =>
        match s.retxQueue.tryPush retx with
        | none => .ok (false, s)
        | some q => .ok (true, { s with retxQueue := q })

def nackItem (s : RlcTxAmEntity) (prevRetxSn : Option Nat) (nack : RlcAmStatusNack) :
    Except Fault (Option Nat × RlcTxAmEntity) := do
  let (scheduled, s) ← s.handleNack nack
  if scheduled ∧ prevRetxSn ≠ some nack.nackSn then
    let s ← s.incrementRetxCount nack.nackSn
    return (some nack.nackSn, s)
  else return (prevRetxSn, s)

def nackRangeLoop (ackSn : Nat) (nack : RlcAmStatusNack) :
    Nat → Nat → Option Nat → RlcTxAmEntity → Except Fault (Option Nat × RlcTxAmEntity)
  | 0, _, prevRetxSn, s => .ok (prevRetxSn, s)
  | left + 1, rangeSn, prevRetxSn, s =>
    if rangeSn = ackSn then .ok (prevRetxSn, s)
    else do
      let (prevRetxSn, s) ← nackItem s prevRetxSn (nack.rangeItem s.mod rangeSn)
      nackRangeLoop ackSn nack left (s.nextSn rangeSn) prevRetxSn s

def nackEntry (ackSn : Nat) (s : RlcTxAmEntity) (prevRetxSn : Option Nat) (nack : RlcAmStatusNack) :
    Except Fault (Option Nat × RlcTxAmEntity) :=
  match nack.nackRange with
  | some range => nackRangeLoop ackSn nack range nack.nackSn prevRetxSn s
  | none => nackItem s prevRetxSn nack

def nackLoop (ackSn : Nat) : List RlcAmStatusNack → Option Nat → RlcTxAmEntity →
    Except Fault (Option Nat × RlcTxAmEntity)
  | [], prevRetxSn, s => .ok (prevRetxSn, s)
  | nack :: rest, prevRetxSn, s => do
    let (prevRetxSn, s) ← nackEntry ackSn s prevRetxSn nack
    nackLoop ackSn rest prevRetxSn s

/-- The sanity checks on a received status report. -/
def acceptsStatus (status : RlcAmStatusPdu) : Bool :=
  s.validAckSn status.ackSn &&
    decide (s.txModBase status.ackSn ≤ s.txModBase (s.st.txNext + 1)) &&
    status.nacks.all (s.validNack status.ackSn)

def stopSn (status : RlcAmStatusPdu) : Nat :=
  match status.nacks with
  | [] => status.ackSn
  | nack :: _ => nack.nackSn

def handleStatusPdu (status : RlcAmStatusPdu) (statusBytes : Option Nat) :
    Except Fault RlcTxAmEntity := do
  if !s.acceptsStatus status then return s
  let s :=
    if s.txModBase s.st.pollSn < s.txModBase status.ackSn then
      { s with pollRetransmitTimerRunning := false }
    else s
  let s ← ackLoop (stopSn status) s.mod s.st.txNextAck s
  let s ← clearRetxQueue s.retxQueue.queue s
  let (_, s) ← nackLoop status.ackSn status.nacks none s
  return (s.updateMacBufferState true statusBytes).2

def handleControlPdu (pdu : List UInt8) (statusBytes : Option Nat) : Except Fault RlcTxAmEntity := do
  match ← RlcAmStatusPdu.unpack s.cfg.snFieldLength pdu with
  | some status => s.handleStatusPdu status statusBytes
  | none => return s

/-- The timer has expired, so it does not run any more when the handler is called. -/
def onExpiredPollRetransmitTimer (statusBytes : Option Nat) : Except Fault RlcTxAmEntity := do
  let s := { s with pollRetransmitTimerRunning := false }
  if (s.sduQueue.isEmpty && s.retxQueue.empty && s.snUnderSegmentation.isNone) || s.isTxWindowFull then
    if s.txWindow.isEmpty then return s
    match s.txWindow.lookup s.st.txNextAck with
    | none => return s
    | some info =>
      let retx : RlcTxAmdRetx := { sn := s.st.txNextAck, so := 0, length := info.sdu.length }
      let s ←
        match s.retxQueue.tryPush retx with
        | some q => ({ s with retxQueue := q } : RlcTxAmEntity).incrementRetxCount s.st.txNextAck
        | none => Except.ok s
      return (s.updateMacBufferState true statusBytes).2
  else return s

end RlcTxAmEntity

inductive TxEvent
  | handleSdu (buf : List UInt8) (isRetx : Bool) (now : Nat)
  | discardSdu (pdcpSn : Nat)
  | pullPdu (grantLen : Nat) (status : Option RlcAmStatusPdu)
  | controlPdu (pdu : List UInt8) (statusBytes : Option Nat)
  | pollRetransmitExpired (statusBytes : Option Nat)
  /-- The deferred task of `handle_changed_buffer_state`. -/
  | updateMacBufferState (statusBytes : Option Nat)
  | getBufferState (statusBytes : Option Nat)
  | stop

namespace RlcTxAmEntity

def react (s : RlcTxAmEntity) : TxEvent → Except Fault (List UInt8 × RlcTxAmEntity)
  | .handleSdu buf isRetx now => .ok ([], s.handleSdu buf isRetx now)
  | .discardSdu pdcpSn => .ok ([], s.discardSdu pdcpSn)
  | .pullPdu grantLen status => s.pullPdu grantLen status
  | .controlPdu pdu statusBytes => do return ([], ← s.handleControlPdu pdu statusBytes)
  | .pollRetransmitExpired statusBytes =>
    -- the handler only runs for a timer that was running
    if s.pollRetransmitTimerRunning then do
      return ([], ← s.onExpiredPollRetransmitTimer statusBytes)
    else .ok ([], s)
  | .updateMacBufferState statusBytes => .ok ([], (s.updateMacBufferState false statusBytes).2)
  | .getBufferState statusBytes => .ok ([], (s.getBufferState statusBytes).2)
  | .stop => .ok ([], { s with stoppedLower := true, pollRetransmitTimerRunning := false })

def step (s : RlcTxAmEntity) (e : TxEvent) : Except Fault RlcTxAmEntity := do
  return (← s.react e).2

end RlcTxAmEntity

end Ocudu.Rlc
