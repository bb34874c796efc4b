import Ocudu.Basic.BitCodec
import Ocudu.Basic.Machine
import Ocudu.Basic.SeqNum
import Ocudu.Pdcp.Base

/-! `pdcp_entity_tx.cpp` and `pdcp_tx_window.cpp`: the transmitting side of a PDCP entity. -/

namespace Ocudu.Pdcp

structure PdcpTxState where
  txNext : Nat
  txTransCrypto : Nat
  txReordCrypto : Nat
  txTrans : Nat
  txNextAck : Nat

inductive PdcpDiscardTimer
  | ms (duration : Nat)
  | infinity
  deriving DecidableEq

structure PdcpTxConfig where
  rbType : PdcpRbType
  rlcMode : PdcpRlcMode
  snSize : PdcpSnSize
  discardTimer : Option PdcpDiscardTimer
  headerCompression : Bool
  maxCountHard : Nat
  testMode : Bool
  maxCountHard_lt : maxCountHard < 2 ^ 32
  srb_ok : rbType = .srb → snSize = .size12bits ∧ rlcMode = .am ∧ headerCompression = false

/-- The header compressor; an empty packet is a failure, and creation may fail. -/
structure RohcCompressor where
  State : Type
  create : Option State
  compress : State → List UInt8 → State × List UInt8
  handleFeedback : State → List UInt8 → State

structure Sec128AsConfig where
  key : Nat
  hasIntegrity : Bool

/-- `encrypt_and_protect_integrity`, which may fail. -/
structure SecurityEngine where
  protect : Sec128AsConfig → Bool → Nat → List UInt8 → Option (List UInt8)

structure PdcpTxBufferInfo where
  isRetx : Bool
  retransmits : Nat
  count : Nat
  buf : List UInt8

/-- The two last fields are no data of the source: the crypto job that made `pdu`, and the
number of rewinds there had been when it was parked. -/
structure PdcpTxWindowElement where
  sdu : List UInt8
  count : Nat
  tickPointOfArrival : Option Nat
  sduLength : Nat
  pdu : List UInt8
  job : PdcpTxBufferInfo
  parkedAt : Nat

/-- A data PDU handed to the lower layer with its flag. The last four fields are no data of
the source: the COUNT, the job that made the PDU, the number of rewinds when it was parked,
and the numbers of retransmissions and of rewinds when it was handed over. -/
structure HandedPdu where
  pdu : List UInt8
  isRetx : Bool
  count : Nat
  job : PdcpTxBufferInfo
  parkedAt : Nat
  retransmits : Nat
  rewinds : Nat

structure PdcpEntityTx (C : RohcCompressor) where
  st : PdcpTxState
  txWindow : CircularMap PdcpTxWindowElement
  sduBytes : Nat
  nofSdus : Nat
  discardTimer : Bool
  cryptoReorderingTimer : Bool
  desiredBufferSize : Nat
  retransmits : Nat
  rewinds : Nat
  rohcComp : Option C.State
  /-- No configuration stands for the null engines of the constructor. -/
  secConfig : Option Sec128AsConfig
  integrityEnabled : Bool
  maxCountOverflow : Bool
  buffering : Bool
  suspended : Bool
  sduBuffer : List (List UInt8)
  jobs : List PdcpTxBufferInfo
  handed : List HandedPdu
  discarded : List Nat
  protocolFailures : Nat

inductive EarlyDropReason
  | zeroDbs
  | fullRlcQueue
  | fullWindow
  | noDrop
  deriving DecidableEq

def sduBufferSize : Nat := 2048

namespace PdcpEntityTx

variable {C : RohcCompressor} (cfg : PdcpTxConfig)

/-- A new entity, or one whose state was set by a status transfer. -/
def new (C : RohcCompressor) (cfg : PdcpTxConfig) (count : Nat) : PdcpEntityTx C where
  st := ⟨count, count, count, count, count⟩
  txWindow := .empty cfg.snSize.windowSize
  sduBytes := 0
  nofSdus := 0
  discardTimer := false
  cryptoReorderingTimer := false
  desiredBufferSize := 0
  retransmits := 0
  rewinds := 0
  rohcComp := if cfg.headerCompression then C.create else none
  secConfig := none
  integrityEnabled := false
  maxCountOverflow := false
  buffering := false
  suspended := false
  sduBuffer := []
  jobs := []
  handed := []
  discarded := []
  protocolFailures := 0

variable (s : PdcpEntityTx C)

def protocolFailure : PdcpEntityTx C :=
  { s with protocolFailures := s.protocolFailures + 1 }

/-! `pdcp_tx_window` -/

def addSdu (elem : PdcpTxWindowElement) : PdcpEntityTx C :=
  { s with txWindow := s.txWindow.overwrite elem.count elem
           sduBytes := (s.sduBytes + elem.sduLength) % 2 ^ 32
           nofSdus := (s.nofSdus + 1) % 2 ^ 32 }

def removeSdu (count : Nat) : PdcpEntityTx C :=
  match s.txWindow.lookup count with
  | none => s
  | some elem => { s with txWindow := s.txWindow.erase count
                          sduBytes := SeqNum.subU32 s.sduBytes elem.sduLength
                          nofSdus := SeqNum.subU32 s.nofSdus 1 }

def clearWindow : PdcpEntityTx C :=
  { s with txWindow := .empty cfg.snSize.windowSize, sduBytes := 0, nofSdus := 0 }

def trailerSize (integrity : Bool) : Nat :=
  match cfg.rbType with
  | .srb => 4
  | .drb => if integrity then 4 else 0

def getPduBytes : Nat :=
  (s.sduBytes + s.nofSdus * (cfg.snSize.headerSize + trailerSize cfg s.integrityEnabled)) % 2 ^ 32

def getPduSize (sdu : List UInt8) : Nat :=
  (cfg.snSize.headerSize + sdu.length + if s.integrityEnabled then 4 else 0) % 2 ^ 32

def checkEarlyDrop (buf : List UInt8) : EarlyDropReason :=
  if s.desiredBufferSize = 0 then .zeroDbs
  else if s.desiredBufferSize < (s.getPduBytes cfg + s.getPduSize cfg buf) % 2 ^ 32 then
    .fullRlcQueue
  else if cfg.snSize.windowSize - 1 ≤ SeqNum.subU32 s.st.txNext s.st.txNextAck then .fullWindow
  else .noDrop

def applyHeaderCompression (buf : List UInt8) :
    Option (List UInt8) × PdcpEntityTx C :=
  match s.rohcComp with
  | none => (some buf, s)
  | some c =>
    let r := C.compress c buf
    let s := { s with rohcComp := some r.1 }
    if r.2 = [] then (none, s.protocolFailure) else (some r.2, s)

def dataPdu (sn : Nat) (buf : List UInt8) : List UInt8 :=
  let dc := match cfg.rbType with
    | .srb => 0x00
    | .drb => 0x80
  match cfg.snSize with
  | .size12bits => UInt8.ofNat (dc ||| (sn &&& 0xf00) >>> 8) :: UInt8.ofNat (sn &&& 0xff) :: buf
  | .size18bits =>
    UInt8.ofNat (dc ||| (sn &&& 0x30000) >>> 16) :: UInt8.ofNat ((sn &&& 0xff00) >>> 8) ::
      UInt8.ofNat (sn &&& 0xff) :: buf

/-- `crypto_executor.execute`; a job that does not fit in its queue is one that gets lost. -/
def pushJob (isRetx : Bool) (count : Nat) (buf : List UInt8) :
    PdcpEntityTx C :=
  { s with jobs := s.jobs ++
      [⟨isRetx, s.retransmits, count, dataPdu cfg (cfg.snSize.snOf count) buf⟩] }

def finiteDiscardTimer : Bool :=
  match cfg.discardTimer with
  | some (.ms _) => true
  | _ => false

def emptyJob : PdcpTxBufferInfo := ⟨false, 0, 0, []⟩

def newElement (buf : List UInt8) (now : Nat) : PdcpTxWindowElement where
  sdu := if cfg.discardTimer.isSome ∧ cfg.rlcMode = .am then buf else []
  count := s.st.txNext
  tickPointOfArrival := if finiteDiscardTimer cfg then some now else none
  sduLength := buf.length
  pdu := []
  job := emptyJob
  parkedAt := 0

def reachMaxCount : PdcpEntityTx C :=
  if s.maxCountOverflow then s else { s.protocolFailure with maxCountOverflow := true }

def transmitSdu (buf : List UInt8) (now : Nat) : PdcpEntityTx C :=
  let s := { s.addSdu (s.newElement cfg buf now) with
    discardTimer := s.discardTimer || finiteDiscardTimer cfg }
  match s.applyHeaderCompression buf with
  | (none, s) => s
  | (some buf, s) =>
    { s.pushJob cfg false s.st.txNext buf with
      st := { s.st with txNext := (s.st.txNext + 1) % 2 ^ 32 } }

def handleSdu (buf : List UInt8) (now : Nat) : PdcpEntityTx C :=
  if s.buffering then
    if s.sduBuffer.length < sduBufferSize then { s with sduBuffer := s.sduBuffer ++ [buf] } else s
  else if cfg.rbType ≠ .srb ∧ s.checkEarlyDrop cfg buf ≠ .noDrop then s
  else if cfg.maxCountHard ≤ s.st.txNext then s.reachMaxCount
  else s.transmitSdu cfg buf now

def beginBuffering : PdcpEntityTx C := { s with buffering := true }

def endBuffering (now : Nat) : PdcpEntityTx C :=
  s.sduBuffer.foldl (fun s buf => s.handleSdu cfg buf now)
    { s with buffering := false, sduBuffer := [] }

def suspend : PdcpEntityTx C :=
  if s.suspended ∨ ¬s.buffering then s
  else { s.clearWindow cfg with
    st := ⟨0, 0, 0, 0, 0⟩
    discardTimer := s.discardTimer && cfg.discardTimer.isNone
    suspended := true }

def resume : PdcpEntityTx C :=
  if ¬s.suspended ∨ ¬s.buffering then s else { s with suspended := false }

def advanceAck : Nat → PdcpEntityTx C → PdcpEntityTx C
  | 0, s => s
  | n + 1, s =>
    if s.txWindow.contains s.st.txNextAck then s
    else advanceAck n { s with st := { s.st with txNextAck := s.st.txNextAck + 1 } }

def raiseTrans : PdcpEntityTx C :=
  { s with st := { s.st with txTrans := max s.st.txTrans s.st.txNextAck } }

def discardPdu (count : Nat) : PdcpEntityTx C :=
  if cfg.discardTimer.isNone then s
  else if count < s.st.txNextAck ∨ s.st.txNext ≤ count then s
  else if ¬s.txWindow.contains count then s
  else
    let s := { s.removeSdu count with discarded := s.discarded ++ [cfg.snSize.snOf count] }
    (advanceAck (s.st.txNext - s.st.txNextAck) s).raiseTrans

/-- The loop of `stop_discard_timer`, with `n` COUNTs to go. -/
def removeUpTo : Nat → PdcpEntityTx C → PdcpEntityTx C
  | 0, s => s
  | n + 1, s =>
    let t := s.removeSdu s.st.txNextAck
    removeUpTo n { t with st := { s.st with txNextAck := s.st.txNextAck + 1 } }

def arrivalOf (count : Nat) : Except Fault Nat := do
  let elem ← SduWindow.get s.txWindow count
  match elem.tickPointOfArrival with
  | some t => .ok t
  | none => .error .arrivalTime

def restartDiscardTimer : Except Fault (PdcpEntityTx C) :=
  if cfg.discardTimer = some .infinity then .ok s
  else if s.st.txNextAck ≠ s.st.txNext then do
    let _ ← s.arrivalOf s.st.txNextAck
    pure { s with discardTimer := true }
  else .ok s

def stopDiscardTimer (highestCount : Nat) : Except Fault (PdcpEntityTx C) :=
  if cfg.discardTimer.isNone then .ok s
  else if highestCount < s.st.txNextAck ∨ s.st.txNext ≤ highestCount then .ok s
  else if ¬s.txWindow.contains s.st.txNextAck then .ok s
  else
    let s := { s with discardTimer := false }
    (removeUpTo (highestCount + 1 - s.st.txNextAck) s).raiseTrans.restartDiscardTimer cfg

def notificationCount (sn : Nat) : Nat :=
  cfg.snSize.inferCount (if cfg.discardTimer.isSome then s.st.txNextAck else s.st.txTrans) sn

def transmitNotification (sn : Nat) : Except Fault (PdcpEntityTx C) :=
  let count := s.notificationCount cfg sn
  if cfg.snSize.cardinality ≤ sn then .ok s
  else if s.st.txTransCrypto ≤ count then .ok s
  else if count < s.st.txTrans then .ok s
  else if s.st.txNext ≤ count then .ok s
  else
    let s := { s with st := { s.st with txTrans := (count + 1) % 2 ^ 32 } }
    if cfg.rlcMode = .um then s.stopDiscardTimer cfg count else .ok s

def deliveryNotification (sn : Nat) : Except Fault (PdcpEntityTx C) :=
  let count := s.notificationCount cfg sn
  if cfg.snSize.cardinality ≤ sn then .ok s
  else if s.st.txNext ≤ count then .ok s
  else if cfg.rlcMode = .am then s.stopDiscardTimer cfg count else .ok s

def ofRetransmitted (notification : PdcpEntityTx C → Nat → Except Fault (PdcpEntityTx C))
    (s : PdcpEntityTx C) (sn : Nat) : Except Fault (PdcpEntityTx C) :=
  if cfg.rbType = .srb ∨ cfg.rlcMode = .um then .ok s else notification s sn

def discardLoop (oldest : Nat) : Nat → PdcpEntityTx C → Except Fault (PdcpEntityTx C)
  | 0, _ => .error .loopBound
  | fuel + 1, s =>
    let s := s.discardPdu cfg s.st.txNextAck
    if ¬s.txWindow.contains s.st.txNextAck then .ok s
    else do
      let arrival ← s.arrivalOf s.st.txNextAck
      if arrival ≠ oldest then pure { s with discardTimer := true }
      else if s.st.txNextAck = s.st.txNext then pure s
      else discardLoop oldest fuel s

def discardCallback : Except Fault (PdcpEntityTx C) :=
  if ¬s.txWindow.contains s.st.txNextAck then .ok s
  else do
    let oldest ← s.arrivalOf s.st.txNextAck
    discardLoop cfg oldest (s.st.txNext - s.st.txNextAck + 1) s

/-- `write_data_pdu_to_lower_layers`, which takes the PDU out of its slot. -/
def handOver (count : Nat) (elem : PdcpTxWindowElement) (isRetx : Bool) :
    PdcpEntityTx C :=
  { s with
    txWindow := s.txWindow.modify count fun elem => { elem with pdu := [] }
    handed := s.handed ++
      [⟨elem.pdu, isRetx, count, elem.job, elem.parkedAt, s.retransmits, s.rewinds⟩]
    st := { s.st with txTransCrypto := (count + 1) % 2 ^ 32 } }

def notifyInTestMode (count : Nat) : Except Fault (PdcpEntityTx C) :=
  if cfg.testMode then s.transmitNotification cfg (cfg.snSize.snOf count) else .ok s

/-- The PDUs from `TX_TRANS_CRYPTO` on are handed over up to the first that is missing; `n`
COUNTs are left below `TX_NEXT`. -/
def flushLoop (isRetx : Bool) : Nat → PdcpEntityTx C → Except Fault (PdcpEntityTx C)
  | 0, s => .ok s
  | n + 1, s => do
    let count := s.st.txTransCrypto
    let elem ← SduWindow.get s.txWindow count
    if elem.pdu = [] then pure s
    else do
      let s ← (s.handOver count elem isRetx).notifyInTestMode cfg count
      flushLoop isRetx n s

def flushInOrder (isRetx : Bool) : Except Fault (PdcpEntityTx C) :=
  flushLoop cfg isRetx (s.st.txNext - s.st.txTransCrypto) s

def stopCryptoReordering : PdcpEntityTx C :=
  if s.cryptoReorderingTimer ∧ s.st.txReordCrypto ≤ s.st.txTransCrypto then
    { s with cryptoReorderingTimer := false }
  else s

def startCryptoReordering : PdcpEntityTx C :=
  if s.st.txTransCrypto < s.st.txNext then
    { s with st := { s.st with txReordCrypto := s.st.txNext }, cryptoReorderingTimer := true }
  else s

def handleCryptoTimers : PdcpEntityTx C :=
  let s := s.stopCryptoReordering
  if s.cryptoReorderingTimer then s else s.startCryptoReordering

def parkPdu (info : PdcpTxBufferInfo) : PdcpEntityTx C :=
  { s with txWindow := s.txWindow.modify info.count fun elem =>
      { elem with pdu := info.buf, job := info, parkedAt := s.rewinds } }

def applyReordering (info : PdcpTxBufferInfo) :
    Except Fault (PdcpEntityTx C) :=
  if info.retransmits % 2 ^ 16 ≠ s.retransmits % 2 ^ 16 then .ok s
  else if info.count < s.st.txNextAck then .ok s
  else if info.count < s.st.txTrans then .ok s
  else if ¬s.txWindow.contains info.count then .ok s
  else do
    let s ← (s.parkPdu info).flushInOrder cfg info.isRetx
    pure s.handleCryptoTimers

def passReordering : PdcpEntityTx C :=
  let count := s.st.txTransCrypto
  match s.txWindow.lookup count with
  | some elem =>
    if elem.pdu = [] then { s with st := { s.st with txTransCrypto := (count + 1) % 2 ^ 32 } }
    else s.handOver count elem false
  | none => { s with st := { s.st with txTransCrypto := (count + 1) % 2 ^ 32 } }

/-- A loop on `!=` runs for the distance of the two counters as 32-bit words. -/
def passUpToReord : PdcpEntityTx C :=
  passReordering^[SeqNum.subU32 s.st.txReordCrypto s.st.txTransCrypto] s

def cryptoReorderingTimeout : Except Fault (PdcpEntityTx C) := do
  let s ← s.passUpToReord.flushInOrder cfg false
  pure s.startCryptoReordering

/-- What `handle_status_report` makes of the bytes before it acts on them. -/
inductive StatusReport
  | ignored
  /-- With the number of failures reported to the RRC. -/
  | failed (n : Nat)
  | accepted (fmc : Nat) (bitmap : List Bool)

def statusReportHeader : Nat := 5

/-- The first three fields of a control PDU, read in order. -/
def readControlHeader (bits : List Bool) : Nat × Nat × Nat × List Bool :=
  let dc := BitCodec.unpack 1 bits
  let cpt := BitCodec.unpack 3 dc.2
  let reserved := BitCodec.unpack 4 cpt.2
  (dc.1, cpt.1, reserved.1, reserved.2)

def readStatusReport (txNext : Nat) (bytes : List UInt8) : StatusReport :=
  let (dc, cpt, reserved, bits) := readControlHeader (BitCodec.bitsOf bytes)
  if dc ≠ 0 then .ignored
  else if cpt ≠ 0 then .ignored
  else if reserved ≠ 0 then .ignored
  else
    let (fmc, bitmap) := BitCodec.unpack 32 bits
    let bitmapLength := SeqNum.subU32 bytes.length statusReportHeader
    let delta := SeqNum.subU32 (SeqNum.subU32 txNext fmc) 1
    if txNext < fmc then .failed 1
    else
      -- a bitmap although FMC = TX_NEXT is reported, and the check goes on
      let failures := if fmc = txNext ∧ bitmapLength ≠ 0 then 1 else 0
      if (delta + 7) % 2 ^ 32 / 8 < bitmapLength then .failed (failures + 1)
      else if bitmapLength ≠ 0 ∧
          (bytes.getLastD 0).toNat <<< (delta % 8) % 2 ^ 8 ≠ 0 then .failed (failures + 1)
      else .accepted fmc bitmap

def discardReported (fmc : Nat) : List Bool → PdcpEntityTx C → PdcpEntityTx C
  | [], s => s
  | bit :: bitmap, s =>
    let fmc := (fmc + 1) % 2 ^ 32
    discardReported fmc bitmap (if bit then s.discardPdu cfg fmc else s)

def handleStatusReport (bytes : List UInt8) : PdcpEntityTx C :=
  match readStatusReport s.st.txNext bytes with
  | .ignored => s
  | .failed n => { s with protocolFailures := s.protocolFailures + n }
  | .accepted fmc bitmap =>
    let s := (List.range' s.st.txNextAck (fmc - s.st.txNextAck)).foldl (discardPdu cfg) s
    s.discardReported cfg fmc bitmap

def consumeRohcFeedback (bytes : List UInt8) : PdcpEntityTx C :=
  match s.rohcComp with
  | none => s
  | some c =>
    let (dc, cpt, reserved, _) := readControlHeader (BitCodec.bitsOf bytes)
    if dc ≠ 0 ∨ cpt ≠ 1 ∨ reserved ≠ 0 then s
    else { s with rohcComp := some (C.handleFeedback c (bytes.drop 1)) }

def initHeaderCompression : PdcpEntityTx C :=
  if cfg.headerCompression then { s with rohcComp := C.create } else s

def configureSecurity (secCfg : Sec128AsConfig) (integrity : Bool) :
    PdcpEntityTx C :=
  if integrity ∧ ¬secCfg.hasIntegrity then s
  else { s with integrityEnabled := integrity, secConfig := some secCfg }

def retransmitLoop : List Nat → PdcpEntityTx C → PdcpEntityTx C
  | [], s => s
  | count :: counts, s =>
    match s.txWindow.lookup count with
    | none => retransmitLoop counts s
    | some elem =>
      match s.applyHeaderCompression elem.sdu with
      | (none, s) => s
      | (some buf, s) => retransmitLoop counts (s.pushJob cfg true count buf)

def retransmitAllPdus : PdcpEntityTx C :=
  let s := { s with rewinds := s.rewinds + 1 }
  if cfg.discardTimer.isNone then s
  else if cfg.rlcMode ≠ .am then s
  else
    let s := { s with
      st := { s.st with txTrans := s.st.txNextAck, txTransCrypto := s.st.txNextAck }
      retransmits := s.retransmits + 1 }
    s.retransmitLoop cfg (List.range' s.st.txNextAck (s.st.txNext - s.st.txNextAck))

def dataRecovery : Except Fault (PdcpEntityTx C) :=
  if cfg.rbType = .srb ∨ cfg.rlcMode ≠ .am then .error .bearerType else .ok (s.retransmitAllPdus cfg)

def reset : PdcpEntityTx C :=
  { s.clearWindow cfg with st := ⟨0, 0, 0, 0, 0⟩ }

def resets : Bool := cfg.rbType == .srb || cfg.rlcMode == .um

def reestablish (secCfg : Sec128AsConfig) : PdcpEntityTx C :=
  let s := s.initHeaderCompression cfg
  let s := if resets cfg then s.reset cfg else s
  let s := s.configureSecurity secCfg s.integrityEnabled
  if cfg.rlcMode = .am then s.retransmitAllPdus cfg else s

end PdcpEntityTx

/-- A call of `encrypt_and_protect_integrity`; `period` counts the calls that configure
security before it. -/
structure Encryption where
  period : Nat
  count : Nat
  plain : List UInt8

structure TxSystem (C : RohcCompressor) where
  entity : PdcpEntityTx C
  protectedPdus : List PdcpTxBufferInfo
  encryptions : List Encryption
  period : Nat

inductive TxEvent
  | sdu (buf : List UInt8) (now : Nat)
  | applySecurity (i : Nat)
  | loseJob (i : Nat)
  /-- The `i`-th protected PDU reaches the UE executor. -/
  | applyReordering (i : Nat)
  | losePdu (i : Nat)
  | transmitNotification (sn : Nat)
  | retransmitNotification (sn : Nat)
  | deliveryNotification (sn : Nat)
  | deliveryRetransmittedNotification (sn : Nat)
  | desiredBufferSize (n : Nat)
  | statusReport (bytes : List UInt8)
  | rohcFeedback (bytes : List UInt8)
  | discardTimer
  | cryptoReorderingTimer
  | dataRecovery
  | configureSecurity (secCfg : Sec128AsConfig) (integrity : Bool)
  | reestablish (secCfg : Sec128AsConfig)
  | beginBuffering
  | endBuffering (now : Nat)
  | suspend
  | resume

namespace TxSystem

open PdcpEntityTx

variable {C : RohcCompressor} (E : SecurityEngine) (cfg : PdcpTxConfig)

def new (C : RohcCompressor) (cfg : PdcpTxConfig) (count : Nat) : TxSystem C :=
  ⟨.new C cfg count, [], [], 0⟩

def zeroMac : List UInt8 := [0, 0, 0, 0]

def applySecurity (s : TxSystem C) (i : Nat) : TxSystem C :=
  match s.entity.jobs[i]? with
  | none => s
  | some info =>
    let entity := { s.entity with jobs := s.entity.jobs.eraseIdx i }
    match s.entity.secConfig with
    | none =>
      match cfg.rbType with
      | .srb => { s with
        entity
        protectedPdus := s.protectedPdus ++ [{ info with buf := info.buf ++ zeroMac }] }
      | .drb => { s with entity := entity.protocolFailure }
    | some secCfg =>
      let s : TxSystem C := { s with encryptions := s.encryptions ++ [⟨s.period, info.count, info.buf⟩] }
      match E.protect secCfg s.entity.integrityEnabled info.count info.buf with
      | none => { s with entity := entity.protocolFailure }
      | some buf => { s with entity, protectedPdus := s.protectedPdus ++ [{ info with buf }] }

def applyReordering (s : TxSystem C) (i : Nat) : Except Fault (TxSystem C) :=
  match s.protectedPdus[i]? with
  | none => .ok s
  | some info => do
    let entity ← s.entity.applyReordering cfg info
    pure { s with entity, protectedPdus := s.protectedPdus.eraseIdx i }

def discardTimer (s : TxSystem C) : Except Fault (TxSystem C) :=
  if s.entity.discardTimer then do
    let entity ← { s.entity with discardTimer := false }.discardCallback cfg
    pure { s with entity }
  else .ok s

def cryptoReorderingTimer (s : TxSystem C) : Except Fault (TxSystem C) :=
  if s.entity.cryptoReorderingTimer then do
    let entity ← { s.entity with cryptoReorderingTimer := false }.cryptoReorderingTimeout cfg
    pure { s with entity }
  else .ok s

def withEntity (s : TxSystem C) (r : Except Fault (PdcpEntityTx C)) : Except Fault (TxSystem C) :=
  r.map fun entity => { s with entity }

def step (s : TxSystem C) : TxEvent → Except Fault (TxSystem C)
  | .sdu buf now => .ok { s with entity := s.entity.handleSdu cfg buf now }
  | .applySecurity i => .ok (s.applySecurity E cfg i)
  | .loseJob i => .ok { s with entity := { s.entity with jobs := s.entity.jobs.eraseIdx i } }
  | .applyReordering i => s.applyReordering cfg i
  | .losePdu i => .ok { s with protectedPdus := s.protectedPdus.eraseIdx i }
  | .transmitNotification sn => s.withEntity (s.entity.transmitNotification cfg sn)
  | .retransmitNotification sn =>
    s.withEntity (ofRetransmitted cfg (transmitNotification cfg) s.entity sn)
  | .deliveryNotification sn => s.withEntity (s.entity.deliveryNotification cfg sn)
  | .deliveryRetransmittedNotification sn =>
    s.withEntity (ofRetransmitted cfg (deliveryNotification cfg) s.entity sn)
  | .desiredBufferSize n => .ok { s with entity := { s.entity with desiredBufferSize := n } }
  | .statusReport bytes => .ok { s with entity := s.entity.handleStatusReport cfg bytes }
  | .rohcFeedback bytes => .ok { s with entity := s.entity.consumeRohcFeedback bytes }
  | .discardTimer => s.discardTimer cfg
  | .cryptoReorderingTimer => s.cryptoReorderingTimer cfg
  | .dataRecovery => s.withEntity (s.entity.dataRecovery cfg)
  | .configureSecurity secCfg integrity =>
    .ok { s with entity := s.entity.configureSecurity secCfg integrity, period := s.period + 1 }
  | .reestablish secCfg =>
    .ok { s with entity := s.entity.reestablish cfg secCfg, period := s.period + 1 }
  | .beginBuffering => .ok { s with entity := s.entity.beginBuffering }
  | .endBuffering now => .ok { s with entity := s.entity.endBuffering cfg now }
  | .suspend => .ok { s with entity := s.entity.suspend cfg }
  | .resume => .ok { s with entity := s.entity.resume }

end TxSystem

def noCompressor : RohcCompressor := ⟨Unit, none, fun s buf => (s, buf), fun s _ => s⟩

def nullEngine : SecurityEngine := ⟨fun _ _ _ buf => some buf⟩

def drbTxConfig : PdcpTxConfig where
  rbType := .drb
  rlcMode := .am
  snSize := .size12bits
  discardTimer := some (.ms 10)
  headerCompression := false
  maxCountHard := 0xfffffffe
  testMode := false
  maxCountHard_lt := by decide
  srb_ok := by simp

end Ocudu.Pdcp
