import Ocudu.Rlc.RxAm
import Ocudu.Rlc.UmPdu

/-! `rlc_rx_um_entity`: the receiving side of a UM RLC entity. -/

namespace Ocudu.Rlc

open SeqNum

/-- The segments of a UM SDU have the fields of those of an AM SDU, and `store_segment` and
`update_segment_inventory` are the same code. -/
structure RlcRxUmSduInfo where
  fullyReceived : Bool := false
  hasGap : Bool := false
  segments : List RlcRxAmSduSegment := []

namespace RlcRxUmSduInfo

def storeSegment (info : RlcRxUmSduInfo) (new : RlcRxAmSduSegment) : RlcRxUmSduInfo :=
  { info with segments := (storedSegments info.segments new).getD info.segments }

def updateSegmentInventory (info : RlcRxUmSduInfo) : RlcRxUmSduInfo :=
  let (fullyReceived, hasGap) := RlcRxAmSduInfo.inventory info.segments 0
  { info with fullyReceived, hasGap }

/-- The bytes of the chain; nothing if the slices do not fit. -/
def reassembleSdu (maxSlices : Nat) (info : RlcRxUmSduInfo) : Option (List UInt8) :=
  ((info.segments.map (·.payload)).foldlM (RlcRxAmSduInfo.chainAppend maxSlices) []).map List.flatten

end RlcRxUmSduInfo

structure RlcRxUmState where
  rxNextReassembly : Nat := 0
  rxTimerTrigger : Nat := 0
  rxNextHighest : Nat := 0

structure RlcRxUmConfig where
  snFieldLength : RlcUmSnSize
  /-- The slices that one memory block of the byte buffer pool has room for. -/
  maxSlices : Nat

/-- `sdus` are the SDUs that the upper layer has got, `lostPdus` is the counter of the metrics. -/
structure RlcRxUmEntity where
  cfg : RlcRxUmConfig
  st : RlcRxUmState
  rxWindow : CircularMap RlcRxUmSduInfo
  reassemblyTimerRunning : Bool
  sdus : List (List UInt8)
  lostPdus : Nat

namespace RlcRxUmEntity

def new (cfg : RlcRxUmConfig) : RlcRxUmEntity where
  cfg := cfg
  st := {}
  rxWindow := CircularMap.empty cfg.snFieldLength.window
  reassemblyTimerRunning := false
  sdus := []
  lostPdus := 0

variable (s : RlcRxUmEntity)

def mod : Nat := s.cfg.snFieldLength.mod

def umWindowSize : Nat := s.cfg.snFieldLength.window

def rxModBase (x : Nat) : Nat := subU32 (subU32 x s.st.rxNextHighest) s.umWindowSize % s.mod

def snInReassemblyWindow (sn : Nat) : Bool :=
  s.rxModBase (subU32 s.st.rxNextHighest s.umWindowSize) ≤ s.rxModBase sn &&
    s.rxModBase sn < s.rxModBase s.st.rxNextHighest

def snInvalidForRxBuffer (sn : Nat) : Bool :=
  s.rxModBase (subU32 s.st.rxNextHighest s.umWindowSize) ≤ s.rxModBase sn &&
    s.rxModBase sn < s.rxModBase s.st.rxNextReassembly

def nextSn (sn : Nat) : Nat := (sn + 1) % s.mod

def fullyReceived (sn : Nat) : Bool := (s.rxWindow.lookup sn).any (·.fullyReceived)

def hasGap (sn : Nat) : Bool := (s.rxWindow.lookup sn).any (·.hasGap)

def hasNoGap (sn : Nat) : Bool := (s.rxWindow.lookup sn).any (!·.hasGap)

def sduInfo (sn : Nat) : RlcRxUmSduInfo := (s.rxWindow.lookup sn).getD {}

def writeSn (sn : Nat) (info : RlcRxUmSduInfo) : RlcRxUmEntity :=
  { s with
    rxWindow :=
      if s.rxWindow.contains sn then s.rxWindow.modify sn (fun _ => info)
      else s.rxWindow.overwrite sn info }

def handleSegmentDataSdu (header : RlcUmPduHeader) (payload : List UInt8) : RlcRxUmEntity :=
  s.writeSn header.sn
    ((s.sduInfo header.sn).storeSegment { si := header.si, so := header.so, payload }).updateSegmentInventory

def discardSn (sn : Nat) : RlcRxUmEntity :=
  match s.rxWindow.lookup sn with
  | some info =>
    { s with rxWindow := s.rxWindow.erase sn
             lostPdus := if info.fullyReceived then s.lostPdus else s.lostPdus + 1 }
  | none => { s with lostPdus := s.lostPdus + 1 }

/-- The shape of the loops: as long as `cond` holds, the SN is removed and the next one is looked
at. -/
def walk (cond : RlcRxUmEntity → Nat → Bool) : Nat → Nat → RlcRxUmEntity →
    Except Fault (Nat × RlcRxUmEntity)
  | fuel, sn, s =>
    if cond s sn then
      match fuel with
      | 0 => .error .loopBound
      | fuel + 1 => walk cond fuel (s.nextSn sn) (s.discardSn sn)
    else .ok (sn, s)

def removeReceived (sn : Nat) : Except Fault (Nat × RlcRxUmEntity) :=
  walk (fun s sn => decide (s.rxModBase sn < s.rxModBase s.st.rxNextHighest) && s.fullyReceived sn)
    s.mod sn s

def discardOutside (sn : Nat) : Except Fault (Nat × RlcRxUmEntity) :=
  walk (fun s sn => !s.snInReassemblyWindow sn) s.mod sn s

def discardExpired (sn : Nat) : Except Fault (Nat × RlcRxUmEntity) :=
  walk (fun s sn => decide (s.rxModBase sn < s.rxModBase s.st.rxNextHighest) &&
    (decide (s.rxModBase sn < s.rxModBase s.st.rxTimerTrigger) || s.fullyReceived sn)) s.mod sn s

def setRxNextReassembly (sn : Nat) : RlcRxUmEntity := { s with st := { s.st with rxNextReassembly := sn } }

/-- Delivers a fully received SDU, unless it cannot be put together, and releases its segments. -/
def deliverSn (sn : Nat) (info : RlcRxUmSduInfo) : RlcRxUmEntity :=
  let s := match info.reassembleSdu s.cfg.maxSlices with
    | some sdu => { s with sdus := s.sdus ++ [sdu] }
    | none => { s with lostPdus := s.lostPdus + 1 }
  { s with rxWindow := s.rxWindow.modify sn fun i => { i with segments := [] } }

def completeSdu (sn : Nat) (info : RlcRxUmSduInfo) : Except Fault RlcRxUmEntity := do
  let s := s.deliverSn sn info
  if sn = s.st.rxNextReassembly then do
    let (snUpd, s) ← s.removeReceived (s.st.rxNextReassembly % s.mod)
    pure (s.setRxNextReassembly snUpd)
  else pure s

def slideWindow (sn : Nat) : Except Fault RlcRxUmEntity := do
  let s := { s with st := { s.st with rxNextHighest := s.nextSn sn } }
  let (snUpd, s) ← s.discardOutside (s.st.rxNextReassembly % s.mod)
  let (snUpd, s) ← s.removeReceived snUpd
  pure (s.setRxNextReassembly snUpd)

/-- The comparison of RX_Timer_Trigger with RX_Next_Reassembly and the sum are those of plain
integers. -/
def stopsReassembly : Bool :=
  decide (s.st.rxTimerTrigger ≤ s.st.rxNextReassembly) ||
    (!s.snInReassemblyWindow s.st.rxTimerTrigger &&
      decide (s.st.rxTimerTrigger ≠ s.st.rxNextHighest)) ||
    (decide (s.st.rxNextHighest = s.st.rxNextReassembly + 1) && s.hasNoGap s.st.rxNextHighest)

def startReassembly : RlcRxUmEntity :=
  if s.rxModBase s.st.rxNextHighest > s.rxModBase (s.st.rxNextReassembly + 1) ∨
      s.rxModBase s.st.rxNextHighest = s.rxModBase (s.st.rxNextReassembly + 1) ∧
        s.hasGap s.st.rxNextHighest = true then
    { s with
      reassemblyTimerRunning := true
      st := { s.st with rxTimerTrigger := s.st.rxNextHighest } }
  else s

def updateReassemblyTimer : RlcRxUmEntity :=
  let s := if s.reassemblyTimerRunning && s.stopsReassembly then
    { s with reassemblyTimerRunning := false } else s
  if s.reassemblyTimerRunning then s else s.startReassembly

/-- The actions when a UMD PDU is placed in the reception buffer. -/
def afterStore (sn : Nat) : Except Fault RlcRxUmEntity :=
  match s.rxWindow.lookup sn with
  | some info =>
    if info.fullyReceived then s.completeSdu sn info
    else if s.snInReassemblyWindow sn then .ok s
    else s.slideWindow sn
  | none => if s.snInReassemblyWindow sn then .ok s else s.slideWindow sn

def handleSegment (header : RlcUmPduHeader) (payload : List UInt8) : Except Fault RlcRxUmEntity :=
  if s.snInvalidForRxBuffer header.sn then .ok s
  else do
    let s ← (s.handleSegmentDataSdu header payload).afterStore header.sn
    pure s.updateReassemblyTimer

def handlePdu (buf : List UInt8) : Except Fault RlcRxUmEntity :=
  match umParsePdu s.cfg.snFieldLength buf with
  | none => .ok s
  | some (header, payload) =>
    if header.si = .fullSdu then .ok { s with sdus := s.sdus ++ [payload] }
    else s.handleSegment header payload

def onExpiredReassemblyTimer : Except Fault RlcRxUmEntity := do
  let (snUpd, s) ← s.discardExpired s.st.rxNextReassembly
  pure (s.setRxNextReassembly snUpd).startReassembly

end RlcRxUmEntity

inductive RxUmEvent
  | handlePdu (buf : List UInt8)
  | expire

namespace RlcRxUmEntity

def step (s : RlcRxUmEntity) : RxUmEvent → Except Fault RlcRxUmEntity
  | .handlePdu buf => s.handlePdu buf
  | .expire =>
    if s.reassemblyTimerRunning then
      { s with reassemblyTimerRunning := false }.onExpiredReassemblyTimer
    else .ok s

end RlcRxUmEntity

end Ocudu.Rlc
