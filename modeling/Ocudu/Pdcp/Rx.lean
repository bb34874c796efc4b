import Ocudu.Basic.BitCodec
import Ocudu.Basic.Machine
import Ocudu.Pdcp.Base

/-! `pdcp_entity_rx.cpp`: reception, reordering and delivery. -/

namespace Ocudu.Pdcp

structure PdcpRxState where
  rxNext : Nat
  rxDeliv : Nat
  rxReord : Nat

inductive PdcpTReordering
  | ms (duration : Nat)
  | infinity
  deriving DecidableEq

structure PdcpRxPduInfo where
  buf : List UInt8
  count : Nat
  integrityVerified : Bool

structure PdcpRxSduInfo where
  buf : List UInt8
  count : Nat
  integrityVerified : Bool

def PdcpRxPduInfo.sduInfo (pdu : PdcpRxPduInfo) : PdcpRxSduInfo := ⟨pdu.buf, pdu.count, pdu.integrityVerified⟩

structure PdcpRxConfig where
  snSize : PdcpSnSize
  tReordering : PdcpTReordering
  maxCountHard : Nat
  maxCountHard_lt : maxCountHard < 2 ^ 32

/-- The header decompressor: from a state and a packet it makes the next state, the
decompressed packet and a feedback packet, either of them empty if there is none. -/
structure RohcDecompressor where
  State : Type
  decompress : State → List UInt8 → State × List UInt8 × List UInt8

def noDecompressor : RohcDecompressor := ⟨Unit, fun s buf => (s, buf, [])⟩

structure Delivery where
  count : Nat
  sdu : Option (List UInt8 × Bool)

structure PdcpEntityRx (D : RohcDecompressor) where
  st : PdcpRxState
  rxWindow : CircularMap PdcpRxSduInfo
  reorderingTimer : Bool
  /-- No decompressor is the null pointer of the source. -/
  rohcDecomp : Option D.State
  deliveries : List Delivery
  feedback : List (List UInt8)

namespace PdcpEntityRx

variable {D : RohcDecompressor} (cfg : PdcpRxConfig)

def new (cfg : PdcpRxConfig) (rohcDecomp : Option D.State) (count : Nat) : PdcpEntityRx D where
  st := ⟨count, count, count⟩
  rxWindow := .empty cfg.snSize.windowSize
  reorderingTimer := false
  rohcDecomp := rohcDecomp
  deliveries := []
  feedback := []

/-- The buffer to pass on, if the packet held one, and the entity with the decompressor's
next state. -/
def applyHeaderDecompression (s : PdcpEntityRx D) (buf : List UInt8) :
    Option (List UInt8) × PdcpEntityRx D :=
  match s.rohcDecomp with
  | none => (some buf, s)
  | some d =>
    let r := D.decompress d buf
    let s := { s with rohcDecomp := some r.1 }
    if r.2.1 = [] ∧ r.2.2 = [] then (none, s)
    else
      let s := if r.2.2 = [] then s else { s with feedback := s.feedback ++ [r.2.2] }
      if r.2.1 = [] then (none, s) else (some r.2.1, s)

def deliverSdu (s : PdcpEntityRx D) (sduInfo : PdcpRxSduInfo) : PdcpEntityRx D :=
  let r := s.applyHeaderDecompression sduInfo.buf
  let sdu := r.1.map fun buf => (buf, sduInfo.integrityVerified)
  { r.2 with deliveries := r.2.deliveries ++ [⟨sduInfo.count, sdu⟩] }

def deliverAndRemove (s : PdcpEntityRx D) (count : Nat) : Except Fault (PdcpEntityRx D) := do
  let sduInfo ← SduWindow.get s.rxWindow count
  let s := s.deliverSdu sduInfo
  let rxWindow ← SduWindow.removeSn s.rxWindow count
  pure { s with rxWindow }

def advanceDeliv (s : PdcpEntityRx D) : PdcpEntityRx D :=
  { s with st := { s.st with rxDeliv := (s.st.rxDeliv + 1) % 2 ^ 32 } }

def consecutiveLoop : Nat → PdcpEntityRx D → Except Fault (PdcpEntityRx D)
  | 0, _ => .error .loopBound
  | fuel + 1, s =>
    if s.st.rxDeliv ≠ s.st.rxNext ∧ s.rxWindow.contains s.st.rxDeliv then do
      let s ← s.deliverAndRemove s.st.rxDeliv
      consecutiveLoop fuel s.advanceDeliv
    else .ok s

def deliverAllConsecutiveCounts (s : PdcpEntityRx D) : Except Fault (PdcpEntityRx D) :=
  consecutiveLoop (cfg.snSize.windowSize + 1) s

def deliverIfHeld (s : PdcpEntityRx D) (count : Nat) : Except Fault (PdcpEntityRx D) :=
  if s.rxWindow.contains count then s.deliverAndRemove count else .ok s

def expireLoop : Nat → PdcpEntityRx D → Except Fault (PdcpEntityRx D)
  | 0, _ => .error .loopBound
  | fuel + 1, s =>
    if s.st.rxDeliv ≠ s.st.rxReord then do
      let s ← s.deliverIfHeld s.st.rxDeliv
      expireLoop fuel s.advanceDeliv
    else .ok s

def restartReordering (s : PdcpEntityRx D) : PdcpEntityRx D :=
  { s with st := { s.st with rxReord := s.st.rxNext }, reorderingTimer := true }

def handleTReorderingExpire (s : PdcpEntityRx D) : Except Fault (PdcpEntityRx D) := do
  let s ← expireLoop (cfg.snSize.windowSize + 1) s
  let s ← s.deliverAllConsecutiveCounts cfg
  if s.st.rxDeliv < s.st.rxNext then
    if cfg.tReordering = .ms 0 then pure s else pure s.restartReordering
  else pure s

/-- The window without an older PDU that has the cell of `count`. -/
def removeOld (s : PdcpEntityRx D) (count : Nat) : Except Fault (CircularMap PdcpRxSduInfo) :=
  if s.rxWindow.contains count then SduWindow.removeSn s.rxWindow count else .ok s.rxWindow

def isDuplicate (s : PdcpEntityRx D) (count : Nat) : Bool :=
  match s.rxWindow.lookup count with
  | some sduInfo => sduInfo.count == count
  | none => false

def stopReordering (s : PdcpEntityRx D) : PdcpEntityRx D :=
  if s.reorderingTimer ∧ s.st.rxReord ≤ s.st.rxDeliv then { s with reorderingTimer := false }
  else s

def handleReorderingTimers (s : PdcpEntityRx D) : Except Fault (PdcpEntityRx D) :=
  let s := s.stopReordering
  match cfg.tReordering with
  | .infinity => .ok s
  | .ms 0 => handleTReorderingExpire cfg { s with st := { s.st with rxReord := s.st.rxNext } }
  | .ms (_ + 1) =>
    if ¬s.reorderingTimer ∧ s.st.rxDeliv < s.st.rxNext then .ok s.restartReordering else .ok s

def storePdu (s : PdcpEntityRx D) (pdu : PdcpRxPduInfo) : Except Fault (PdcpEntityRx D) := do
  let rxWindow ← s.removeOld pdu.count
  let rxWindow ← SduWindow.addSn rxWindow pdu.count pdu.sduInfo
  let rxNext := if s.st.rxNext ≤ pdu.count then (pdu.count + 1) % 2 ^ 32 else s.st.rxNext
  pure { s with rxWindow, st := { s.st with rxNext } }

def deliverFrom (s : PdcpEntityRx D) (count : Nat) : Except Fault (PdcpEntityRx D) :=
  if count = s.st.rxDeliv then s.deliverAllConsecutiveCounts cfg else .ok s

def applyReordering (s : PdcpEntityRx D) (pdu : PdcpRxPduInfo) :
    Except Fault (PdcpEntityRx D) :=
  if pdu.count < s.st.rxDeliv then .ok s
  else if s.isDuplicate pdu.count then .ok s
  else do
    let s ← s.storePdu pdu
    let s ← s.deliverFrom cfg pdu.count
    s.handleReorderingTimers cfg

/-- `deliver_all_sdus`, the flush of a suspension and of a UM re-establishment. -/
def deliverAllSdus (s : PdcpEntityRx D) : Except Fault (PdcpEntityRx D) :=
  (List.range' s.st.rxDeliv (s.st.rxNext - s.st.rxDeliv)).foldlM deliverIfHeld s

/-- What the control PDU may hold of the bitmap. -/
def maxBitmapBits : Nat := (9000 - 5) * 8

def bitmapLength (st : PdcpRxState) : Nat :=
  let first := (st.rxDeliv + 1) % 2 ^ 32
  if first < st.rxNext ∧ maxBitmapBits < st.rxNext - first then maxBitmapBits else st.rxNext - first

def compileStatusReport (s : PdcpEntityRx D) : List UInt8 :=
  BitCodec.encode (BitCodec.toBits 1 0 ++ BitCodec.toBits 3 0 ++ BitCodec.toBits 4 0 ++
    BitCodec.toBits 32 s.st.rxDeliv ++
    (List.range' ((s.st.rxDeliv + 1) % 2 ^ 32) (bitmapLength s.st)).map s.rxWindow.contains)

end PdcpEntityRx

/-- The entity with the PDUs that are in the crypto executor, and those that reordering has
accepted, the last one first. -/
structure RxSystem (D : RohcDecompressor) where
  entity : PdcpEntityRx D
  pending : List PdcpRxPduInfo
  received : List PdcpRxPduInfo

inductive RxEvent
  | receive (pdu : PdcpRxPduInfo)
  /-- The crypto job of the `i`-th pending PDU is done. -/
  | apply (i : Nat)
  /-- The `i`-th pending PDU fails its integrity check, or a queue is full. -/
  | drop (i : Nat)
  | expire

namespace RxSystem

variable {D : RohcDecompressor} (cfg : PdcpRxConfig)

def new (cfg : PdcpRxConfig) (rohcDecomp : Option D.State) (count : Nat) : RxSystem D :=
  ⟨.new cfg rohcDecomp count, [], []⟩

/-- The end of `handle_data_pdu`: beyond the hard limit a PDU is refused. -/
def receive (s : RxSystem D) (pdu : PdcpRxPduInfo) : RxSystem D :=
  if cfg.maxCountHard ≤ pdu.count then s else { s with pending := s.pending ++ [pdu] }

def apply (s : RxSystem D) (i : Nat) : Except Fault (RxSystem D) :=
  match s.pending[i]? with
  | none => .ok s
  | some pdu => do
    let received := if pdu.count < s.entity.st.rxDeliv ∨ s.entity.isDuplicate pdu.count then s.received
      else pdu :: s.received
    let entity ← s.entity.applyReordering cfg pdu
    pure { entity, received, pending := s.pending.eraseIdx i }

def expire (s : RxSystem D) : Except Fault (RxSystem D) :=
  if s.entity.reorderingTimer then do
    let entity ← { s.entity with reorderingTimer := false }.handleTReorderingExpire cfg
    pure { s with entity }
  else .ok s

def step (s : RxSystem D) : RxEvent → Except Fault (RxSystem D)
  | .receive pdu => .ok (s.receive cfg pdu)
  | .apply i => s.apply cfg i
  | .drop i => .ok { s with pending := s.pending.eraseIdx i }
  | .expire => s.expire cfg

end RxSystem

theorem hardCount_lt : 0xd0000000 < 2 ^ 32 := by decide

end Ocudu.Pdcp
