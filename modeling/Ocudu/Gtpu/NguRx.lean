import Ocudu.Basic.Machine
import Ocudu.Basic.SeqNum
import Ocudu.Pdcp.Base

/-! `gtpu_tunnel_ngu_rx_impl.h`: reordering of the PDUs of an NG-U tunnel. -/

namespace Ocudu.Gtpu

open Pdcp (Fault SduWindow.addSn SduWindow.removeSn SduWindow.get)

def gtpuSnMod : Nat := 65536

def gtpuRxWindowSize : Nat := 32768

structure GtpuRxState where
  rxNext : Nat
  rxDeliv : Nat
  rxReord : Nat

structure GtpuRxSduInfo where
  sdu : List UInt8
  qosFlowId : Nat
  sn : Option Nat := none

structure GtpuRxConfig where
  /-- t-Reordering in milliseconds, which are the ticks of its timer. -/
  tReordering : Nat

/-- A dissected PDU, and what its checks before the reordering find. -/
structure GtpuRxPdu where
  overAmbr : Bool := false
  testMode : Bool := false
  /-- The QoS flow of the first PDU session container that could be unpacked. -/
  pduSessionInfo : Option Nat
  seqNumber : Option UInt16
  sdu : List UInt8

/-- A PDU that was stored: its SN counted without wrap-around, and the tick it came in. -/
structure Arrival where
  position : Nat
  info : GtpuRxSduInfo
  time : Nat

structure Delivery where
  info : GtpuRxSduInfo
  position : Option Nat
  time : Nat

structure GtpuTunnelNguRx where
  rxStateHasValue : Bool
  st : GtpuRxState
  rxWindow : CircularMap GtpuRxSduInfo
  /-- The ticks that are left, while the timer is running. -/
  reorderingTimer : Option Nat
  deliveries : List Delivery
  /-- The history that is not in the source: the ticks so far, RX_DELIV counted without wrap-around, and what was
  stored. -/
  now : Nat
  passed : Nat
  arrivals : List Arrival

namespace GtpuTunnelNguRx

variable (cfg : GtpuRxConfig)

def new : GtpuTunnelNguRx where
  rxStateHasValue := false
  st := ⟨0, 0, 0⟩
  rxWindow := .empty gtpuRxWindowSize
  reorderingTimer := none
  deliveries := []
  now := 0
  passed := 0
  arrivals := []

variable (s : GtpuTunnelNguRx)

def rxModBase (sn : Nat) : Nat := SeqNum.dist gtpuSnMod s.st.rxDeliv sn

def insideRxWindow (sn : Nat) : Bool := decide (s.rxModBase sn < gtpuRxWindowSize)

def isRunning : Bool := s.reorderingTimer.isSome

def deliverSdu (sduInfo : GtpuRxSduInfo) (position : Option Nat) : GtpuTunnelNguRx :=
  { s with deliveries := s.deliveries ++ [⟨sduInfo, position, s.now⟩] }

def deliverAndRemove : Except Fault GtpuTunnelNguRx := do
  let sduInfo ← SduWindow.get s.rxWindow s.st.rxDeliv
  let s := s.deliverSdu sduInfo (some s.passed)
  let rxWindow ← SduWindow.removeSn s.rxWindow s.st.rxDeliv
  pure { s with rxWindow }

def advanceDeliv : GtpuTunnelNguRx :=
  { s with st := { s.st with rxDeliv := (s.st.rxDeliv + 1) % gtpuSnMod }, passed := s.passed + 1 }

def consecutiveLoop : Nat → GtpuTunnelNguRx → Except Fault GtpuTunnelNguRx
  | 0, _ => .error .loopBound
  | fuel + 1, s =>
    if s.st.rxDeliv ≠ s.st.rxNext ∧ s.rxWindow.contains s.st.rxDeliv then do
      let s ← s.deliverAndRemove
      consecutiveLoop fuel s.advanceDeliv
    else .ok s

def deliverAllConsecutiveSdus : Except Fault GtpuTunnelNguRx :=
  consecutiveLoop (gtpuRxWindowSize + 1) s

def deliverIfHeld : Except Fault GtpuTunnelNguRx :=
  if s.rxWindow.contains s.st.rxDeliv then s.deliverAndRemove else .ok s

def expireLoop : Nat → GtpuTunnelNguRx → Except Fault GtpuTunnelNguRx
  | 0, _ => .error .loopBound
  | fuel + 1, s =>
    if s.st.rxDeliv ≠ s.st.rxReord then do
      let s ← s.deliverIfHeld
      expireLoop fuel s.advanceDeliv
    else .ok s

def startReordering : GtpuTunnelNguRx :=
  { s with st := { s.st with rxReord := s.st.rxNext }, reorderingTimer := some cfg.tReordering }

def handleTReorderingExpire : Except Fault GtpuTunnelNguRx :=
  if !s.rxStateHasValue then .ok s
  else if s.isRunning then .ok s
  else if !s.insideRxWindow s.st.rxReord then .ok s
  else do
    let s ← s.expireLoop (gtpuRxWindowSize + 1)
    let s ← s.deliverAllConsecutiveSdus
    if s.rxModBase s.st.rxDeliv < s.rxModBase s.st.rxNext then
      if cfg.tReordering = 0 then pure s else pure (s.startReordering cfg)
    else pure s

def initRxState (sn : Nat) : GtpuTunnelNguRx :=
  if s.rxStateHasValue then s else { s with rxStateHasValue := true, st := ⟨sn, sn, sn⟩, passed := sn }

def storeSdu (sn : Nat) (sduInfo : GtpuRxSduInfo) : Except Fault GtpuTunnelNguRx := do
  let rxWindow ← SduWindow.addSn s.rxWindow sn sduInfo
  let rxNext := if s.rxModBase s.st.rxNext ≤ s.rxModBase sn then (sn + 1) % gtpuSnMod else s.st.rxNext
  pure { s with
    rxWindow
    st := { s.st with rxNext }
    arrivals := s.arrivals ++ [⟨s.passed + s.rxModBase sn, sduInfo, s.now⟩] }

def deliverFrom (sn : Nat) : Except Fault GtpuTunnelNguRx :=
  if s.rxModBase sn = s.rxModBase s.st.rxDeliv then s.deliverAllConsecutiveSdus else .ok s

def stopReordering : GtpuTunnelNguRx :=
  if s.isRunning && !s.insideRxWindow s.st.rxReord then { s with reorderingTimer := none } else s

def updateReorderingTimer : Except Fault GtpuTunnelNguRx :=
  let s := s.stopReordering
  if cfg.tReordering = 0 then handleTReorderingExpire cfg { s with st := { s.st with rxReord := s.st.rxNext } }
  else if !s.isRunning ∧ s.rxModBase s.st.rxDeliv < s.rxModBase s.st.rxNext then .ok (s.startReordering cfg)
  else .ok s

def handleSn (sn : Nat) (sduInfo : GtpuRxSduInfo) : Except Fault GtpuTunnelNguRx :=
  let s := s.initRxState sn
  if !s.insideRxWindow sn then .ok (s.deliverSdu sduInfo none)
  else if s.rxModBase sn < s.rxModBase s.st.rxDeliv then .ok (s.deliverSdu sduInfo none)
  else if s.rxWindow.contains sn then .ok s
  else do
    let s ← s.storeSdu sn sduInfo
    let s ← s.deliverFrom sn
    s.updateReorderingTimer cfg

def handlePdu (pdu : GtpuRxPdu) : Except Fault GtpuTunnelNguRx :=
  if pdu.overAmbr then .ok s
  else if pdu.testMode then .ok (s.deliverSdu ⟨pdu.sdu, 1, none⟩ none)
  else
    match pdu.pduSessionInfo with
    | none => .ok s
    | some qosFlowId =>
      match pdu.seqNumber with
      | none => .ok (s.deliverSdu ⟨pdu.sdu, qosFlowId, none⟩ none)
      | some sn =>
        if cfg.tReordering = 0 then .ok (s.deliverSdu ⟨pdu.sdu, qosFlowId, none⟩ none)
        else s.handleSn cfg sn.toNat ⟨pdu.sdu, qosFlowId, some sn.toNat⟩

def tick : GtpuTunnelNguRx :=
  if s.reorderingTimer = some 0 then s
  else { s with now := s.now + 1, reorderingTimer := s.reorderingTimer.map (· - 1) }

def expire : Except Fault GtpuTunnelNguRx :=
  if s.reorderingTimer = some 0 then { s with reorderingTimer := none }.handleTReorderingExpire cfg else .ok s

end GtpuTunnelNguRx

inductive NguRxEvent
  | pdu (pdu : GtpuRxPdu)
  | tick
  | expire

def GtpuTunnelNguRx.step (cfg : GtpuRxConfig) (s : GtpuTunnelNguRx) : NguRxEvent → Except Fault GtpuTunnelNguRx
  | .pdu pdu => s.handlePdu cfg pdu
  | .tick => .ok s.tick
  | .expire => s.expire cfg

end Ocudu.Gtpu
