import Ocudu.Rlc.TxAm
import Ocudu.Rlc.UmPdu

/-! `rlc_tx_um_entity`: the transmitting side of a UM RLC entity. -/

namespace Ocudu.Rlc

structure RlcTxUmConfig where
  snFieldLength : RlcUmSnSize
  pdcpSnLen : PdcpSnSize
  queueSize : Nat
  queueSizeBytes : Nat

structure RlcTxUmEntity where
  cfg : RlcTxUmConfig
  txNext : Nat
  sduQueue : SduQueue
  sdu : RlcSdu
  nextSo : Nat
  prevBufferState : RlcBufferState
  suspendBsNotifBarring : Bool
  pendingBufferState : Bool

namespace RlcTxUmEntity

def new (cfg : RlcTxUmConfig) : RlcTxUmEntity where
  cfg := cfg
  txNext := 0
  sduQueue := SduQueue.new cfg.queueSize cfg.queueSizeBytes
  sdu := { buf := [], isRetx := false, pdcpSn := none, timeOfArrival := 0 }
  nextSo := 0
  prevBufferState := {}
  suspendBsNotifBarring := true
  pendingBufferState := false

variable (s : RlcTxUmEntity)

def mod : Nat := s.cfg.snFieldLength.mod

def headLenFull : Nat := rlcUmPduHeaderSizeCompleteSdu

def headLenFirst : Nat := rlcUmPduHeaderSizeNoSo s.cfg.snFieldLength

def headLenNotFirst : Nat := rlcUmPduHeaderSizeWithSo s.cfg.snFieldLength

/-- The queue entry of an SDU that is handed in; the flag of a PDCP retransmission is ignored. -/
def newSdu (buf : List UInt8) (now : Nat) : RlcSdu :=
  { buf, isRetx := false, pdcpSn := getPdcpSn buf s.cfg.pdcpSnLen false, timeOfArrival := now }

def handleSdu (buf : List UInt8) (now : Nat) : RlcTxUmEntity :=
  match s.sduQueue.write (s.newSdu buf now) with
  | (true, q) => { s with sduQueue := q, pendingBufferState := true }
  | (false, q) => { s with sduQueue := q }

def discardSdu (pdcpSn : Nat) : RlcTxUmEntity :=
  match s.sduQueue.tryDiscard pdcpSn with
  | (true, q) => { s with sduQueue := q, pendingBufferState := true }
  | (false, q) => { s with sduQueue := q }

/-- The bytes of the SDU under transmission, the time of arrival of the SDU at the head, and the
queue, from which discarded SDUs at the head have been popped. -/
def segmentState : Nat × Option Nat × SduQueue :=
  if s.sdu.buf.isEmpty then (0, s.sduQueue.front.1.map (·.timeOfArrival), s.sduQueue.front.2)
  else ((s.sdu.buf.length - s.nextSo) + s.headLenNotFirst, some s.sdu.timeOfArrival, s.sduQueue)

def getBufferState : RlcBufferState × RlcTxUmEntity :=
  let queueState := s.sduQueue.getState
  let queueBytes := queueState.nBytes + queueState.nSdus * headLenFull
  let (segmentBytes, holToa, sduQueue) := s.segmentState
  let pendingBytes := (queueBytes + segmentBytes) % 2 ^ 32
  ({ pendingBytes, holToa },
    { s with
      sduQueue
      suspendBsNotifBarring :=
        s.suspendBsNotifBarring || decide (pendingBytes ≤ RlcTxAmEntity.maxDlPduLength) })

def updateMacBufferState : Option RlcBufferState × RlcTxUmEntity :=
  let (bs, s) := { s with pendingBufferState := false }.getBufferState
  if decide (bs.pendingBytes ≤ RlcTxAmEntity.maxDlPduLength) ||
      decide (s.prevBufferState.pendingBytes ≤ RlcTxAmEntity.maxDlPduLength) ||
      s.suspendBsNotifBarring then
    (some bs, { s with suspendBsNotifBarring := false, prevBufferState := bs })
  else (none, { s with prevBufferState := bs })

def readSdu : Except Fault (Bool × RlcTxUmEntity) :=
  if s.sdu.buf.isEmpty then
    if s.nextSo ≠ 0 then .error .nextSo
    else
      match s.sduQueue.read with
      | (some sdu, q) => .ok (true, { s with sduQueue := q, sdu })
      | (none, q) => .ok (false, { s with sduQueue := q })
  else .ok (true, s)

def getSiAndExpectedHeaderSize (so sduLen grantLen : Nat) : Option (RlcSiField × Nat) :=
  if so = 0 then
    if sduLen ≤ grantLen - headLenFull then some (.fullSdu, headLenFull)
    else if grantLen ≤ s.headLenFirst then none
    else some (.firstSegment, s.headLenFirst)
  else if grantLen ≤ s.headLenNotFirst then none
  else if sduLen - s.nextSo ≤ grantLen - s.headLenNotFirst then some (.lastSegment, s.headLenNotFirst)
  else some (.middleSegment, s.headLenNotFirst)

def advance (si : RlcSiField) (payloadLen : Nat) : RlcTxUmEntity :=
  let s := if si = .fullSdu ∨ si = .lastSegment then { s with sdu := { s.sdu with buf := [] }, nextSo := 0 }
    else { s with nextSo := s.nextSo + payloadLen }
  if si = .lastSegment then { s with txNext := (s.txNext + 1) % s.mod } else s

/-- The PDU for the SDU under transmission, empty if there is none, and the new state. -/
def buildPdu (grantLen : Nat) : List UInt8 × RlcTxUmEntity :=
  match s.getSiAndExpectedHeaderSize s.nextSo s.sdu.buf.length grantLen with
  | none => ([], s)
  | some (si, _) =>
    -- the SO field has 16 bits
    let header := rlcUmWriteDataPduHeader
      { si, snSize := s.cfg.snFieldLength, sn := s.txNext, so := s.nextSo % 2 ^ 16 }
    let space := grantLen - header.length
    let left := s.sdu.buf.length - s.nextSo
    let payloadLen := if space ≥ left then left else space
    let payload := (s.sdu.buf.drop s.nextSo).take payloadLen
    if payload.isEmpty ∨ payload.length ≠ payloadLen then ([], s)
    else (header ++ payload, s.advance si payloadLen)

def pullPdu (grantLen : Nat) : Except Fault (List UInt8 × RlcTxUmEntity) :=
  if grantLen ≤ headLenFull then .ok ([], s)
  else
    match s.readSdu with
    | .error f => .error f
    | .ok (false, s) => .ok ([], s)
    | .ok (true, s) => .ok (s.buildPdu grantLen)

end RlcTxUmEntity

inductive TxUmEvent
  | handleSdu (buf : List UInt8) (now : Nat)
  | discardSdu (pdcpSn : Nat)
  | pullPdu (grantLen : Nat)
  /-- The deferred task of `handle_changed_buffer_state`. -/
  | updateMacBufferState
  | getBufferState

namespace RlcTxUmEntity

def react (s : RlcTxUmEntity) : TxUmEvent → Except Fault (List UInt8 × RlcTxUmEntity)
  | .handleSdu buf now => .ok ([], s.handleSdu buf now)
  | .discardSdu pdcpSn => .ok ([], s.discardSdu pdcpSn)
  | .pullPdu grantLen => s.pullPdu grantLen
  | .updateMacBufferState => .ok ([], s.updateMacBufferState.2)
  | .getBufferState => .ok ([], s.getBufferState.2)

end RlcTxUmEntity

end Ocudu.Rlc
