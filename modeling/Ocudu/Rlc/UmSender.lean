import Ocudu.Rlc.TxPoll
import Ocudu.Rlc.TxUm
import Ocudu.Rlc.UmSegments

/-! What a UM transmitter has sent: each SDU whose transmission is complete, and how each PDU
belongs to one of them. -/

namespace Ocudu.Rlc

/-- A PDU as it leaves the transmitter. `sn` counts the SDUs that were segmented before, without
the SN space wrapping around; an SDU that is sent in one piece has no SN. -/
structure UmPdu where
  sn : Option Nat
  buf : List UInt8
  deriving DecidableEq

structure UmSent where
  sdu : List UInt8
  pdus : Nat
  deriving DecidableEq

/-- A transmitter, the PDUs it has handed to the lower layer, the SDUs it has finished with, and
the number of PDUs of the SDU under transmission. -/
structure UmSender where
  tx : RlcTxUmEntity
  pdus : List UmPdu
  sent : List UmSent
  count : Nat

namespace UmSender

def new (cfg : RlcTxUmConfig) : UmSender :=
  { tx := RlcTxUmEntity.new cfg, pdus := [], sent := [], count := 0 }

def nofSegmented (s : UmSender) : Nat := s.sent.countP (1 < ·.pdus)

def currentSdu (s : UmSender) : List UInt8 :=
  if s.tx.sdu.buf.isEmpty then (s.tx.sduQueue.read.1.map (·.buf)).getD [] else s.tx.sdu.buf

/-- The log after a PDU, which is the last one of its SDU if the transmitter has let go of that. -/
def record (s : UmSender) (tx : RlcTxUmEntity) (buf : List UInt8) : UmSender :=
  if tx.sdu.buf.isEmpty then
    { tx
      pdus := s.pdus ++ [{ sn := if s.count = 0 then none else some s.nofSegmented, buf }]
      sent := s.sent ++ [{ sdu := s.currentSdu, pdus := s.count + 1 }]
      count := 0 }
  else
    { tx, pdus := s.pdus ++ [{ sn := some s.nofSegmented, buf }], sent := s.sent, count := s.count + 1 }

def step (s : UmSender) (e : TxUmEvent) : Except Fault UmSender :=
  match s.tx.react e with
  | .error f => .error f
  | .ok (buf, tx) => if buf.isEmpty then .ok { s with tx } else .ok (s.record tx buf)

end UmSender

def TxUmEvent.sdu? : TxUmEvent → Option (List UInt8)
  | .handleSdu buf _ => some buf
  | _ => none

inductive UmEntry
  | whole (sdu : List UInt8)
  | cut (sdu : List UInt8) (segs : List RlcRxAmSduSegment)

namespace UmEntry

def sdu : UmEntry → List UInt8
  | whole sdu => sdu
  | cut sdu _ => sdu

def sent : UmEntry → UmSent
  | whole sdu => { sdu, pdus := 1 }
  | cut sdu segs => { sdu, pdus := segs.length }

def isCut : UmEntry → Bool
  | whole _ => false
  | cut _ _ => true

def Ok : UmEntry → Prop
  | whole sdu => sdu ≠ []
  | cut sdu segs => Cut 0 sdu segs [] ∧ sdu.length < 2 ^ 16

end UmEntry

def segmentPdu (sz : RlcUmSnSize) (n : Nat) (seg : RlcRxAmSduSegment) : UmPdu :=
  { sn := some n
    buf := rlcUmWriteDataPduHeader { si := seg.si, snSize := sz, sn := n % sz.mod, so := seg.so } ++
      seg.payload }

def wholePdu (sz : RlcUmSnSize) (sdu : List UInt8) : UmPdu :=
  { sn := none
    buf := rlcUmWriteDataPduHeader { si := .fullSdu, snSize := sz, sn := 0, so := 0 } ++ sdu }

def logPdus (sz : RlcUmSnSize) : Nat → List UmEntry → List UmPdu
  | _, [] => []
  | n, .whole sdu :: log => wholePdu sz sdu :: logPdus sz n log
  | n, .cut _ segs :: log => segs.map (segmentPdu sz n) ++ logPdus sz (n + 1) log

theorem logPdus_append (sz : RlcUmSnSize) (n : Nat) (log log' : List UmEntry) :
    logPdus sz n (log ++ log') = logPdus sz n log ++ logPdus sz (n + log.countP (·.isCut)) log' := by
  induction log generalizing n with
  | nil => rfl
  | cons entry log ih =>
    cases entry with
    | whole sdu => simp [logPdus, ih, UmEntry.isCut]
    | cut sdu segs =>
      simp only [List.cons_append, logPdus, ih, List.append_assoc]
      rw [List.countP_cons_of_pos (by rfl)]
      congr 3
      omega

namespace RlcTxUmEntity

variable {s t : RlcTxUmEntity}

theorem readSdu_of_busy (h : s.sdu.buf ≠ []) : s.readSdu = .ok (true, s) := by
  simp [readSdu, h]

def left (s : RlcTxUmEntity) : List UInt8 := s.sdu.buf.drop s.nextSo

theorem headLenNotFirst_eq (s : RlcTxUmEntity) : s.headLenNotFirst = s.headLenFirst + 2 := by
  unfold headLenNotFirst headLenFirst
  cases s.cfg.snFieldLength <;> rfl

theorem headLenFirst_pos (s : RlcTxUmEntity) : 0 < s.headLenFirst := by
  unfold headLenFirst
  cases s.cfg.snFieldLength <;> decide

def segmentHeader (s : RlcTxUmEntity) (si : RlcSiField) : List UInt8 :=
  rlcUmWriteDataPduHeader { si, snSize := s.cfg.snFieldLength, sn := s.txNext, so := s.nextSo }

theorem segmentHeader_length (s : RlcTxUmEntity) {si : RlcSiField} (hsi : si ≠ .fullSdu) :
    (s.segmentHeader si).length = if s.nextSo = 0 then s.headLenFirst else s.headLenNotFirst := by
  rw [segmentHeader, rlcUmWriteDataPduHeader_length, rlcUmNrPackedLength, if_neg hsi, headLenNotFirst_eq,
    headLenFirst]
  by_cases hso : s.nextSo = 0
  · simp [hso]
  · simp [hso]

inductive Built (s : RlcTxUmEntity) : List UInt8 × RlcTxUmEntity → Prop
  | none : Built s ([], s)
  | whole (hso : s.nextSo = 0) :
    Built s ((wholePdu s.cfg.snFieldLength s.sdu.buf).buf, s.advance .fullSdu s.sdu.buf.length)
  | last (hso : 0 < s.nextSo) :
    Built s (s.segmentHeader .lastSegment ++ s.left, s.advance .lastSegment s.left.length)
  | part {payload rest : List UInt8} (hpay : payload ≠ []) (hrest : rest ≠ [])
    (heq : s.left = payload ++ rest) :
    Built s (s.segmentHeader (if s.nextSo = 0 then .firstSegment else .middleSegment) ++ payload,
      s.advance (if s.nextSo = 0 then .firstSegment else .middleSegment) payload.length)

theorem segmentHeader_eq {si : RlcSiField} (h : s.nextSo < 2 ^ 16) :
    rlcUmWriteDataPduHeader { si, snSize := s.cfg.snFieldLength, sn := s.txNext
                              so := s.nextSo % 2 ^ 16 } = s.segmentHeader si := by
  rw [segmentHeader, Nat.mod_eq_of_lt h]

theorem buildPdu_of_all {grantLen headLen : Nat} {si : RlcSiField}
    (hbuf : s.nextSo < s.sdu.buf.length) (hlen : s.sdu.buf.length < 2 ^ 16)
    (hsi : s.getSiAndExpectedHeaderSize s.nextSo s.sdu.buf.length grantLen = some (si, headLen))
    (hspace : s.left.length ≤ grantLen - (s.segmentHeader si).length) :
    s.buildPdu grantLen = (s.segmentHeader si ++ s.left, s.advance si s.left.length) := by
  have hlength : s.left.length = s.sdu.buf.length - s.nextSo := List.length_drop
  have hpay : ((s.sdu.buf.drop s.nextSo).take (s.sdu.buf.length - s.nextSo)) = s.left := by
    rw [← hlength]
    exact List.take_length
  have hne : ¬(s.left.isEmpty = true ∨ s.left.length ≠ s.sdu.buf.length - s.nextSo) := by
    rw [List.isEmpty_iff_length_eq_zero]
    omega
  have hall : (if grantLen - (s.segmentHeader si).length ≥ s.sdu.buf.length - s.nextSo then
      s.sdu.buf.length - s.nextSo else grantLen - (s.segmentHeader si).length) =
        s.sdu.buf.length - s.nextSo := if_pos (by omega)
  simp only [buildPdu, hsi, segmentHeader_eq (hbuf.trans hlen), hall, hpay]
  rw [if_neg hne, hlength]

theorem buildPdu_of_part {grantLen headLen : Nat} {si : RlcSiField}
    (hbuf : s.nextSo < s.sdu.buf.length) (hlen : s.sdu.buf.length < 2 ^ 16)
    (hsi : s.getSiAndExpectedHeaderSize s.nextSo s.sdu.buf.length grantLen = some (si, headLen))
    (hpos : (s.segmentHeader si).length < grantLen)
    (hspace : grantLen - (s.segmentHeader si).length < s.left.length) :
    s.buildPdu grantLen =
      (s.segmentHeader si ++ s.left.take (grantLen - (s.segmentHeader si).length),
        s.advance si (s.left.take (grantLen - (s.segmentHeader si).length)).length) := by
  have hlength : s.left.length = s.sdu.buf.length - s.nextSo := List.length_drop
  have htake : (s.left.take (grantLen - (s.segmentHeader si).length)).length =
      grantLen - (s.segmentHeader si).length := by
    rw [List.length_take]
    omega
  have hne : ¬((s.left.take (grantLen - (s.segmentHeader si).length)).isEmpty = true ∨
      (s.left.take (grantLen - (s.segmentHeader si).length)).length ≠
        grantLen - (s.segmentHeader si).length) := by
    rw [List.isEmpty_iff_length_eq_zero]
    omega
  have hall : (if grantLen - (s.segmentHeader si).length ≥ s.sdu.buf.length - s.nextSo then
      s.sdu.buf.length - s.nextSo else grantLen - (s.segmentHeader si).length) =
        grantLen - (s.segmentHeader si).length := if_neg (by omega)
  rw [htake]
  simp only [buildPdu, hsi, segmentHeader_eq (hbuf.trans hlen), hall]
  exact if_neg hne

theorem buildPdu_built {grantLen : Nat} (hbuf : s.nextSo < s.sdu.buf.length)
    (hlen : s.sdu.buf.length < 2 ^ 16) (hgrant : headLenFull < grantLen) :
    Built s (s.buildPdu grantLen) := by
  have hfirst := s.headLenFirst_pos
  have hnot := s.headLenNotFirst_eq
  have hlength : s.left.length = s.sdu.buf.length - s.nextSo := List.length_drop
  have hpart : ∀ si headLen, s.getSiAndExpectedHeaderSize s.nextSo s.sdu.buf.length grantLen =
      some (si, headLen) → si = (if s.nextSo = 0 then .firstSegment else .middleSegment) →
      (s.segmentHeader si).length < grantLen →
      grantLen - (s.segmentHeader si).length < s.left.length → Built s (s.buildPdu grantLen) := by
    intro si headLen hsi heq hpos hspace
    rw [buildPdu_of_part hbuf hlen hsi hpos hspace, heq]
    rw [heq] at hpos hspace
    refine .part ?_ ?_ (List.take_append_drop _ _).symm
    · rw [← List.length_pos_iff_ne_nil, List.length_take]
      omega
    · rw [← List.length_pos_iff_ne_nil, List.length_drop]
      omega
  cases hsi : s.getSiAndExpectedHeaderSize s.nextSo s.sdu.buf.length grantLen with
  | none =>
    have hnone : s.buildPdu grantLen = ([], s) := by simp only [buildPdu, hsi]
    rw [hnone]
    exact .none
  | some res =>
    obtain ⟨si, headLen⟩ := res
    have hsi' := hsi
    unfold getSiAndExpectedHeaderSize headLenFull rlcUmPduHeaderSizeCompleteSdu at hsi'
    unfold headLenFull rlcUmPduHeaderSizeCompleteSdu at hgrant
    split_ifs at hsi' with h1 h2 h3 h4 h5
    · cases hsi'
      have hhead : (s.segmentHeader .fullSdu).length = 1 := by
        rw [segmentHeader, rlcUmWriteDataPduHeader_length, rlcUmNrPackedLength, if_pos rfl]
      have hleft : s.left = s.sdu.buf := by rw [left, h1, List.drop_zero]
      rw [buildPdu_of_all hbuf hlen hsi (by omega), hleft]
      exact .whole h1
    · cases hsi'
      have hhead := @segmentHeader_length s .firstSegment (by decide)
      rw [if_pos h1] at hhead
      exact hpart _ _ hsi (by rw [if_pos h1]) (by omega) (by omega)
    · cases hsi'
      have hhead := @segmentHeader_length s .lastSegment (by decide)
      rw [if_neg h1] at hhead
      rw [buildPdu_of_all hbuf hlen hsi (by omega)]
      exact .last (by omega)
    · cases hsi'
      have hhead := @segmentHeader_length s .middleSegment (by decide)
      rw [if_neg h1] at hhead
      exact hpart _ _ hsi (by rw [if_neg h1]) (by omega) (by omega)

theorem Built.eq_of_nil (h : Built s ([], t)) : t = s := by
  generalize hres : (([] : List UInt8), t) = res at h
  cases h with
  | none => exact (Prod.mk.inj hres).2
  | whole => simp [wholePdu, rlcUmWriteDataPduHeader] at hres
  | last =>
    have hne := congrArg (List.length ∘ Prod.fst) hres
    have hhead := @segmentHeader_length s .lastSegment (by decide)
    simp only [Function.comp, List.length_nil, List.length_append, hhead] at hne
    have hfirst := s.headLenFirst_pos
    have hnot := s.headLenNotFirst_eq
    split_ifs at hne <;> omega
  | part hpay _ _ =>
    have hne := (Prod.mk.inj hres).1
    exact absurd (List.append_eq_nil_iff.mp hne.symm).2 hpay

end RlcTxUmEntity

theorem Cut.one_lt_length {sdu : List UInt8} {segs : List RlcRxAmSduSegment} (h : Cut 0 sdu segs []) :
    1 < segs.length := by
  cases h with
  | nil hleft => exact absurd rfl hleft
  | last hso => exact absurd hso (Nat.lt_irrefl 0)
  | cons _ hcut =>
    cases hcut with
    | nil hleft => exact absurd rfl hleft
    | last => simp
    | cons => simp

namespace UmSender

variable {s t : UmSender} {sz : RlcUmSnSize} {handed : List (List UInt8)} {log : List UmEntry}
  {cur : List RlcRxAmSduSegment}

def pending (s : UmSender) : List (List UInt8) :=
  s.tx.sdu.buf :: s.tx.sduQueue.queue.map (·.buf)

structure Logged (sz : RlcUmSnSize) (handed : List (List UInt8)) (s : UmSender) (log : List UmEntry)
    (cur : List RlcRxAmSduSegment) : Prop where
  size : s.tx.cfg.snFieldLength = sz
  sent : s.sent = log.map UmEntry.sent
  entries : ∀ entry ∈ log, entry.Ok
  pdus : s.pdus = logPdus sz 0 log ++ cur.map (segmentPdu sz (log.countP (·.isCut)))
  txNext : s.tx.txNext = log.countP (·.isCut) % sz.mod
  count : s.count = cur.length
  idle : s.tx.sdu.buf = [] → cur = [] ∧ s.tx.nextSo = 0
  busy : s.tx.sdu.buf ≠ [] → Cut 0 s.tx.sdu.buf cur s.tx.left ∧ s.tx.nextSo < s.tx.sdu.buf.length
  handed : (log.map UmEntry.sdu ++ s.pending.filter (· ≠ [])).Sublist handed

theorem logged_new (cfg : RlcTxUmConfig) : Logged cfg.snFieldLength [] (new cfg) [] [] where
  size := rfl
  sent := rfl
  entries := by simp
  pdus := rfl
  txNext := by simp [new, RlcTxUmEntity.new]
  count := rfl
  idle _ := ⟨rfl, rfl⟩
  busy h := absurd rfl h
  handed := by simp [pending, new, RlcTxUmEntity.new, SduQueue.new]

theorem Logged.nofSegmented (h : Logged sz handed s log cur) :
    s.nofSegmented = log.countP (·.isCut) := by
  rw [UmSender.nofSegmented, h.sent, List.countP_map]
  refine List.countP_congr fun entry hentry => ?_
  have hok := h.entries entry hentry
  cases entry with
  | whole sdu => simp [UmEntry.sent, UmEntry.isCut]
  | cut sdu segs =>
    have hlen := hok.1.one_lt_length
    simp [UmEntry.sent, UmEntry.isCut, hlen]

theorem Logged.ofQueue {tx : RlcTxUmEntity} {handed' : List (List UInt8)}
    (h : Logged sz handed s log cur) (hcfg : tx.cfg = s.tx.cfg) (hnext : tx.txNext = s.tx.txNext)
    (hsdu : tx.sdu = s.tx.sdu) (hso : tx.nextSo = s.tx.nextSo)
    (hhanded : (log.map UmEntry.sdu ++ (UmSender.pending { s with tx }).filter (· ≠ [])).Sublist
      handed') : Logged sz handed' { s with tx } log cur where
  size := by rw [← h.size, ← hcfg]
  sent := h.sent
  entries := h.entries
  pdus := h.pdus
  txNext := hnext.trans h.txNext
  count := h.count
  idle := by
    simp only [hsdu, hso]
    exact h.idle
  busy := by
    simp only [RlcTxUmEntity.left, hsdu, hso]
    exact h.busy
  handed := hhanded

theorem Logged.suffix {tx : RlcTxUmEntity} (h : Logged sz handed s log cur) (hcfg : tx.cfg = s.tx.cfg)
    (hnext : tx.txNext = s.tx.txNext) (hsdu : tx.sdu = s.tx.sdu) (hso : tx.nextSo = s.tx.nextSo)
    (hqueue : tx.sduQueue.queue <:+ s.tx.sduQueue.queue) : Logged sz handed { s with tx } log cur := by
  refine h.ofQueue hcfg hnext hsdu hso (List.Sublist.trans ?_ h.handed)
  simp only [pending, hsdu]
  exact ((((hqueue.sublist).map _).cons_cons _).filter _).append_left _

theorem Logged.handleSdu (h : Logged sz handed s log cur) (buf : List UInt8) (now : Nat) :
    Logged sz (handed ++ [buf]) { s with tx := s.tx.handleSdu buf now } log cur := by
  have hqueue := s.tx.sduQueue.write_queue (s.tx.newSdu buf now)
  have hframe : (s.tx.handleSdu buf now).sduQueue = (s.tx.sduQueue.write (s.tx.newSdu buf now)).2 ∧
      (s.tx.handleSdu buf now).cfg = s.tx.cfg ∧ (s.tx.handleSdu buf now).txNext = s.tx.txNext ∧
      (s.tx.handleSdu buf now).sdu = s.tx.sdu ∧ (s.tx.handleSdu buf now).nextSo = s.tx.nextSo := by
    unfold RlcTxUmEntity.handleSdu
    rcases s.tx.sduQueue.write (s.tx.newSdu buf now) with ⟨ok, q⟩
    cases ok <;> exact ⟨rfl, rfl, rfl, rfl, rfl⟩
  obtain ⟨hq, hcfg, hnext, hsdu, hso⟩ := hframe
  refine h.ofQueue hcfg hnext hsdu hso ?_
  simp only [pending, hsdu, hq]
  rcases hqueue with hsame | hpush
  · rw [hsame]
    exact h.handed.trans (List.sublist_append_left _ _)
  · rw [hpush, List.map_append, ← List.cons_append, List.filter_append, ← List.append_assoc]
    exact h.handed.append List.filter_sublist

theorem getBufferState_frame (s : RlcTxUmEntity) :
    s.getBufferState.2.cfg = s.cfg ∧ s.getBufferState.2.txNext = s.txNext ∧
      s.getBufferState.2.sdu = s.sdu ∧ s.getBufferState.2.nextSo = s.nextSo ∧
      s.getBufferState.2.sduQueue.queue <:+ s.sduQueue.queue := by
  refine ⟨rfl, rfl, rfl, rfl, ?_⟩
  simp only [RlcTxUmEntity.getBufferState, RlcTxUmEntity.segmentState]
  split_ifs
  · exact SduQueue.frontLoop_queue _ _
  · exact List.suffix_rfl

theorem updateMacBufferState_frame (s : RlcTxUmEntity) :
    s.updateMacBufferState.2.cfg = s.cfg ∧ s.updateMacBufferState.2.txNext = s.txNext ∧
      s.updateMacBufferState.2.sdu = s.sdu ∧ s.updateMacBufferState.2.nextSo = s.nextSo ∧
      s.updateMacBufferState.2.sduQueue.queue <:+ s.sduQueue.queue := by
  have h := getBufferState_frame { s with pendingBufferState := false }
  simp only [RlcTxUmEntity.updateMacBufferState]
  split_ifs <;> exact h

theorem discardSdu_frame (s : RlcTxUmEntity) (pdcpSn : Nat) :
    (s.discardSdu pdcpSn).cfg = s.cfg ∧ (s.discardSdu pdcpSn).txNext = s.txNext ∧
      (s.discardSdu pdcpSn).sdu = s.sdu ∧ (s.discardSdu pdcpSn).nextSo = s.nextSo ∧
      (s.discardSdu pdcpSn).sduQueue.queue <:+ s.sduQueue.queue := by
  have hqueue := s.sduQueue.tryDiscard_queue pdcpSn
  unfold RlcTxUmEntity.discardSdu
  rcases hd : s.sduQueue.tryDiscard pdcpSn with ⟨ok, q⟩
  rw [hd] at hqueue
  cases ok <;> exact ⟨rfl, rfl, rfl, rfl, by rw [← hqueue]⟩

theorem buildPdu_of_empty {tx : RlcTxUmEntity} (h : tx.sdu.buf = []) (grantLen : Nat) :
    tx.buildPdu grantLen = ([], tx) := by
  unfold RlcTxUmEntity.buildPdu
  cases tx.getSiAndExpectedHeaderSize tx.nextSo tx.sdu.buf.length grantLen with
  | none => rfl
  | some res => simp [h]

theorem Logged.readSdu (h : Logged sz handed s log cur) :
    ∃ ok tx, s.tx.readSdu = .ok (ok, tx) ∧ Logged sz handed { s with tx } log cur ∧
      (ok = true → s.currentSdu = tx.sdu.buf) := by
  by_cases hbuf : s.tx.sdu.buf = []
  · obtain ⟨hcur, hso⟩ := h.idle hbuf
    simp only [RlcTxUmEntity.readSdu, currentSdu, hbuf, hso, List.isEmpty_nil, if_true, ne_eq,
      not_true_eq_false, if_false]
    rcases hread : s.tx.sduQueue.read with ⟨sdu, q⟩
    cases sdu with
    | none =>
      have hqueue := (SduQueue.readLoop_queue s.tx.sduQueue.queue s.tx.sduQueue).1
      rw [show s.tx.sduQueue.readLoop s.tx.sduQueue.queue = _ from hread] at hqueue
      exact ⟨false, _, rfl, h.suffix rfl rfl rfl hso.symm hqueue, fun hc => by cases hc⟩
    | some sdu =>
      obtain ⟨pre, hpre⟩ := SduQueue.readLoop_split hread
      refine ⟨true, _, rfl, ?_, fun _ => rfl⟩
      refine { h with
        idle := fun _ => ⟨hcur, rfl⟩
        busy := fun hne => ⟨?_, ?_⟩
        handed := List.Sublist.trans ?_ h.handed }
      · simp only [RlcTxUmEntity.left, hcur, List.drop_zero]
        exact .nil hne
      · exact List.length_pos_of_ne_nil hne
      · simp only [pending, hpre, hbuf, List.map_append, List.map_cons]
        exact ((((List.sublist_append_right _ _).cons _).filter _).append_left _)
  · exact ⟨true, s.tx, RlcTxUmEntity.readSdu_of_busy hbuf, h, fun _ => by simp [currentSdu, hbuf]⟩

theorem segmentPdu_buf (h : Logged sz handed s log cur) (si : RlcSiField) (payload : List UInt8) :
    segmentPdu sz (log.countP (·.isCut)) { si, so := s.tx.nextSo, payload } =
      { sn := some s.nofSegmented, buf := s.tx.segmentHeader si ++ payload } := by
  rw [segmentPdu, RlcTxUmEntity.segmentHeader, h.size, h.txNext, h.nofSegmented]

theorem Logged.record (h : Logged sz handed s log cur) (hbuf : s.tx.sdu.buf ≠ [])
    (hshort : s.tx.sdu.buf.length < 2 ^ 16) {buf : List UInt8} {tx : RlcTxUmEntity} (hpdu : buf ≠ [])
    (hbuilt : s.tx.Built (buf, tx)) : ∃ log' cur', Logged sz handed (s.record tx buf) log' cur' := by
  obtain ⟨hcut, hso⟩ := h.busy hbuf
  have hcurrent : s.currentSdu = s.tx.sdu.buf := by simp [currentSdu, hbuf]
  have hleft : s.tx.left ≠ [] := by
    rw [← List.length_pos_iff_ne_nil, RlcTxUmEntity.left, List.length_drop]
    omega
  have hpos : s.tx.nextSo + s.tx.left.length = 0 + s.tx.sdu.buf.length := by
    rw [RlcTxUmEntity.left, List.length_drop]
    omega
  have hdone : (log.map UmEntry.sdu ++ s.tx.sdu.buf ::
      (s.tx.sduQueue.queue.map (·.buf)).filter (· ≠ [])).Sublist handed := by
    have hh := h.handed
    rwa [pending, List.filter_cons_of_pos (by simpa using hbuf)] at hh
  cases hbuilt with
  | none => exact absurd rfl hpdu
  | whole hzero =>
    have hcur : cur = [] := by
      have hbytes := congrArg List.length hcut.bytes_eq
      rw [List.length_append] at hbytes
      have hflat : ((cur.map (·.payload)).flatten).length = 0 := by omega
      cases cur with
      | nil => rfl
      | cons seg rest =>
        have hpay := (hcut.sendable List.mem_cons_self).payload_ne
        simp [hpay] at hflat
    have hcount : s.count = 0 := by rw [h.count, hcur, List.length_nil]
    refine ⟨log ++ [.whole s.tx.sdu.buf], [], ?_⟩
    simp only [UmSender.record, RlcTxUmEntity.advance, true_or, if_true, List.isEmpty_nil, hcount,
      reduceCtorEq, if_false, hcurrent, h.size]
    exact
      { size := h.size
        sent := by simp [h.sent, UmEntry.sent]
        entries := by simpa [or_imp, forall_and, UmEntry.Ok, hbuf] using h.entries
        pdus := by
          rw [h.pdus, hcur, logPdus_append]
          simp [logPdus, wholePdu]
        txNext := by simpa [UmEntry.isCut] using h.txNext
        count := rfl
        idle := fun _ => ⟨rfl, rfl⟩
        busy := fun hc => absurd rfl hc
        handed := by simpa [pending, UmEntry.sdu] using hdone }
  | last hzero =>
    have hcut' := hcut.snoc_last hleft hzero hpos
    have hcount : s.count ≠ 0 := by
      rw [h.count]
      have hone := hcut'.one_lt_length
      rw [List.length_append, List.length_singleton] at hone
      omega
    refine ⟨log ++ [.cut s.tx.sdu.buf (cur ++ [{ si := .lastSegment, so := s.tx.nextSo, payload := s.tx.left }])],
      [], ?_⟩
    have hpdus := segmentPdu_buf h .lastSegment s.tx.left
    simp only [UmSender.record, RlcTxUmEntity.advance, or_true, if_true, List.isEmpty_nil, hcount,
      if_false, hcurrent, ← hpdus]
    exact
      { size := h.size
        sent := by simp [h.sent, UmEntry.sent, h.count]
        entries := by
          exact List.forall_mem_append.mpr ⟨h.entries, List.forall_mem_singleton.mpr ⟨hcut', hshort⟩⟩
        pdus := by
          rw [h.pdus, logPdus_append]
          simp [logPdus]
        txNext := by
          simp only [h.txNext, RlcTxUmEntity.mod, h.size, Nat.mod_add_mod, List.countP_append]
          rfl
        count := rfl
        idle := fun _ => ⟨rfl, rfl⟩
        busy := fun hc => absurd rfl hc
        handed := by simpa [pending, UmEntry.sdu] using hdone }
  | @part payload rest hpay hrest heq =>
    have hlength : s.tx.left.length = payload.length + rest.length := by
      rw [heq, List.length_append]
    rw [heq] at hcut hpos
    have hcut' := hcut.snoc hpay hrest hpos
    refine ⟨log, cur ++ [{ si := if s.tx.nextSo = 0 then .firstSegment else .middleSegment
                           so := s.tx.nextSo, payload }], ?_⟩
    have hpdus := segmentPdu_buf h (if s.tx.nextSo = 0 then .firstSegment else .middleSegment) payload
    generalize hsi : (if s.tx.nextSo = 0 then RlcSiField.firstSegment else .middleSegment) = si at *
    have hadv : s.tx.advance si payload.length = { s.tx with nextSo := s.tx.nextSo + payload.length } := by
      rw [← hsi]
      unfold RlcTxUmEntity.advance
      split_ifs <;> simp_all
    have hdrop : s.tx.sdu.buf.drop (s.tx.nextSo + payload.length) = rest := by
      rw [← List.drop_drop]
      change s.tx.left.drop payload.length = rest
      rw [heq, List.drop_left]
    have hrestlen : 0 < rest.length := List.length_pos_of_ne_nil hrest
    have hempty : s.tx.sdu.buf.isEmpty = false := by simpa using hbuf
    rw [hadv]
    simp only [UmSender.record, hempty, Bool.false_eq_true, if_false, ← hpdus]
    exact
      { size := h.size
        sent := h.sent
        entries := h.entries
        pdus := by
          rw [h.pdus]
          simp
        txNext := h.txNext
        count := by simp [h.count]
        idle := fun hc => absurd hc hbuf
        busy := fun _ => by
          refine ⟨?_, ?_⟩
          · simp only [RlcTxUmEntity.left, hdrop]
            exact hcut'
          · rw [List.length_append] at hpos
            simp only
            omega
        handed := h.handed }

theorem Logged.short (h : Logged sz handed s log cur) (hshort : ∀ sdu ∈ handed, sdu.length < 2 ^ 16) :
    s.tx.sdu.buf.length < 2 ^ 16 := by
  by_cases hbuf : s.tx.sdu.buf = []
  · rw [hbuf]
    decide
  · refine hshort _ (h.handed.subset (List.mem_append_right _ ?_))
    exact List.mem_filter.mpr ⟨List.mem_cons_self, by simpa using hbuf⟩

theorem record_congr (tx : RlcTxUmEntity) {tx' : RlcTxUmEntity} {buf : List UInt8}
    (h : s.currentSdu = UmSender.currentSdu { s with tx }) :
    s.record tx' buf = UmSender.record { s with tx } tx' buf := by
  unfold UmSender.record
  rw [h]
  rfl

theorem Logged.pullPdu (h : Logged sz handed s log cur) (hshort : ∀ sdu ∈ handed, sdu.length < 2 ^ 16)
    (grantLen : Nat) :
    ∃ t log' cur', s.step (.pullPdu grantLen) = .ok t ∧ Logged sz handed t log' cur' := by
  simp only [UmSender.step, RlcTxUmEntity.react, RlcTxUmEntity.pullPdu]
  by_cases hgrant : grantLen ≤ RlcTxUmEntity.headLenFull
  · simp only [if_pos hgrant]
    exact ⟨s, log, cur, rfl, h⟩
  · obtain ⟨ok, tx, hread, hlog, hcurrent⟩ := h.readSdu
    simp only [if_neg hgrant, hread]
    cases ok with
    | false => exact ⟨_, log, cur, rfl, hlog⟩
    | true =>
      simp only
      by_cases hbuf : tx.sdu.buf = []
      · rw [buildPdu_of_empty hbuf]
        exact ⟨_, log, cur, rfl, hlog⟩
      · have hbuilt := RlcTxUmEntity.buildPdu_built (hlog.busy hbuf).2 (hlog.short hshort)
          (Nat.not_le.mp hgrant)
        rcases hpdu : tx.buildPdu grantLen with ⟨buf, tx'⟩
        rw [hpdu] at hbuilt
        cases buf with
        | nil =>
          refine ⟨{ s with tx := tx' }, log, cur, rfl, ?_⟩
          rw [hbuilt.eq_of_nil]
          exact hlog
        | cons octet buf =>
          obtain ⟨log', cur', hrec⟩ := hlog.record hbuf (hlog.short hshort) (List.cons_ne_nil _ _) hbuilt
          refine ⟨s.record tx' (octet :: buf), log', cur', rfl, ?_⟩
          rw [record_congr tx]
          · exact hrec
          · rw [hcurrent rfl]
            simp [currentSdu, hbuf]

theorem Logged.step (h : Logged sz handed s log cur) (hshort : ∀ sdu ∈ handed, sdu.length < 2 ^ 16)
    (e : TxUmEvent) :
    ∃ t log' cur', s.step e = .ok t ∧ Logged sz (handed ++ e.sdu?.toList) t log' cur' := by
  cases e with
  | handleSdu buf now => exact ⟨_, log, cur, rfl, h.handleSdu buf now⟩
  | discardSdu pdcpSn =>
    obtain ⟨hcfg, hnext, hsdu, hso, hqueue⟩ := discardSdu_frame s.tx pdcpSn
    simp only [TxUmEvent.sdu?, Option.toList_none, List.append_nil]
    exact ⟨_, log, cur, rfl, h.suffix hcfg hnext hsdu hso hqueue⟩
  | pullPdu grantLen =>
    simp only [TxUmEvent.sdu?, Option.toList_none, List.append_nil]
    exact h.pullPdu hshort grantLen
  | updateMacBufferState =>
    obtain ⟨hcfg, hnext, hsdu, hso, hqueue⟩ := updateMacBufferState_frame s.tx
    simp only [TxUmEvent.sdu?, Option.toList_none, List.append_nil]
    exact ⟨_, log, cur, rfl, h.suffix hcfg hnext hsdu hso hqueue⟩
  | getBufferState =>
    obtain ⟨hcfg, hnext, hsdu, hso, hqueue⟩ := getBufferState_frame s.tx
    simp only [TxUmEvent.sdu?, Option.toList_none, List.append_nil]
    exact ⟨_, log, cur, rfl, h.suffix hcfg hnext hsdu hso hqueue⟩

theorem Logged.run (h : Logged sz handed s log cur) (hshort : ∀ sdu ∈ handed, sdu.length < 2 ^ 16)
    {es : List TxUmEvent} (hes : ∀ sdu ∈ es.filterMap TxUmEvent.sdu?, sdu.length < 2 ^ 16) :
    ∃ t log' cur', Machine.run UmSender.step s es = .ok t ∧
      Logged sz (handed ++ es.filterMap TxUmEvent.sdu?) t log' cur' := by
  induction es generalizing s handed log cur with
  | nil => exact ⟨s, log, cur, rfl, by simpa using h⟩
  | cons e es ih =>
    obtain ⟨t, log', cur', ht, hlog⟩ := h.step hshort e
    have hsplit : (e :: es).filterMap TxUmEvent.sdu? = e.sdu?.toList ++ es.filterMap TxUmEvent.sdu? := by
      cases he : e.sdu? <;> simp [he]
    rw [hsplit] at hes ⊢
    obtain ⟨u, log'', cur'', hu, hlog'⟩ := ih hlog
      (by
        intro sdu hsdu
        rcases List.mem_append.mp hsdu with hold | hnew
        · exact hshort sdu hold
        · exact hes sdu (List.mem_append_left _ hnew))
      (fun sdu hsdu => hes sdu (List.mem_append_right _ hsdu))
    rw [List.append_assoc] at hlog'
    exact ⟨u, log'', cur'', by rw [Machine.run_cons_ok ht, hu], hlog'⟩

end UmSender

/-! Nothing is lost in the transmitter -/

namespace UmSender

variable {s t : UmSender} {sz : RlcUmSnSize} {handed : List (List UInt8)} {log : List UmEntry}
  {cur : List RlcRxAmSduSegment}

def toSend (s : UmSender) : List (List UInt8) :=
  (s.tx.sdu.buf :: s.tx.sduQueue.live.map (·.buf)).filter (· ≠ [])

def kept (s : UmSender) : List (List UInt8) := s.sent.map (·.sdu) ++ s.toSend

theorem readSdu_toSend (hq : s.tx.sduQueue.Inv) {ok : Bool} {tx : RlcTxUmEntity}
    (h : s.tx.readSdu = .ok (ok, tx)) :
    toSend { s with tx } = s.toSend ∧ tx.sduQueue.Inv := by
  obtain ⟨hhead, htail, hinv⟩ := SduQueue.read_spec hq
  unfold RlcTxUmEntity.readSdu at h
  by_cases hbuf : s.tx.sdu.buf = []
  · simp only [hbuf, List.isEmpty_nil, if_true] at h
    split_ifs at h
    rcases hread : s.tx.sduQueue.read with ⟨sdu, q⟩
    rw [hread] at h hhead htail hinv
    cases sdu with
    | none =>
      cases h
      have hlive : s.tx.sduQueue.live = [] := List.head?_eq_none_iff.mp hhead.symm
      refine ⟨?_, hinv⟩
      simp only [toSend, hbuf, htail, hlive, List.tail_nil]
    | some sdu =>
      cases h
      obtain ⟨rest, hlive⟩ := List.head?_eq_some_iff.mp hhead.symm
      refine ⟨?_, hinv⟩
      simp only [toSend, hbuf, htail, hlive, List.tail_cons, List.map_cons]
      exact (List.filter_cons_of_neg (by simp)).symm
  · have hne : s.tx.sdu.buf.isEmpty = false := by simpa using hbuf
    rw [hne, if_neg (by decide)] at h
    cases h
    exact ⟨rfl, hq⟩

theorem record_kept (hbuf : s.tx.sdu.buf ≠ []) {buf : List UInt8} {tx : RlcTxUmEntity} (hpdu : buf ≠ [])
    (hbuilt : s.tx.Built (buf, tx)) : (s.record tx buf).kept = s.kept ∧ tx.sduQueue = s.tx.sduQueue := by
  have hcurrent : s.currentSdu = s.tx.sdu.buf := by simp [currentSdu, hbuf]
  have hdone : s.toSend = s.tx.sdu.buf :: (s.tx.sduQueue.live.map (·.buf)).filter (· ≠ []) :=
    List.filter_cons_of_pos (by simpa using hbuf)
  cases hbuilt with
  | none => exact absurd rfl hpdu
  | whole =>
    refine ⟨?_, rfl⟩
    rw [kept, kept, hdone]
    simp [record, RlcTxUmEntity.advance, hcurrent, toSend]
  | last =>
    refine ⟨?_, rfl⟩
    rw [kept, kept, hdone]
    simp [record, RlcTxUmEntity.advance, hcurrent, toSend]
  | @part payload =>
    generalize hsi : (if s.tx.nextSo = 0 then RlcSiField.firstSegment else .middleSegment) = si
    have hadv : s.tx.advance si payload.length = { s.tx with nextSo := s.tx.nextSo + payload.length } := by
      rw [← hsi]
      unfold RlcTxUmEntity.advance
      split_ifs <;> simp_all
    rw [hadv]
    refine ⟨?_, rfl⟩
    have hempty : s.tx.sdu.buf.isEmpty = false := by simpa using hbuf
    simp only [record, hempty, Bool.false_eq_true, if_false, kept, toSend]

theorem Logged.pullPdu_kept (h : Logged sz handed s log cur) (hshort : ∀ sdu ∈ handed, sdu.length < 2 ^ 16)
    (hq : s.tx.sduQueue.Inv) {grantLen : Nat} (ht : s.step (.pullPdu grantLen) = .ok t) :
    t.kept = s.kept ∧ t.tx.sduQueue.Inv := by
  simp only [UmSender.step, RlcTxUmEntity.react, RlcTxUmEntity.pullPdu] at ht
  by_cases hgrant : grantLen ≤ RlcTxUmEntity.headLenFull
  · simp only [if_pos hgrant] at ht
    cases ht
    exact ⟨rfl, hq⟩
  · obtain ⟨ok, tx, hread, hlog, hcurrent⟩ := h.readSdu
    obtain ⟨hsend, hq'⟩ := readSdu_toSend hq hread
    have hkept : kept { s with tx } = s.kept := by simp only [kept, hsend]
    simp only [if_neg hgrant, hread] at ht
    cases ok with
    | false =>
      cases ht
      exact ⟨hkept, hq'⟩
    | true =>
      simp only at ht
      by_cases hbuf : tx.sdu.buf = []
      · rw [buildPdu_of_empty hbuf] at ht
        cases ht
        exact ⟨hkept, hq'⟩
      · have hbuilt := RlcTxUmEntity.buildPdu_built (hlog.busy hbuf).2 (hlog.short hshort)
          (Nat.not_le.mp hgrant)
        rcases hpdu : tx.buildPdu grantLen with ⟨buf, tx'⟩
        rw [hpdu] at hbuilt ht
        cases buf with
        | nil =>
          cases ht
          rw [hbuilt.eq_of_nil]
          exact ⟨hkept, hq'⟩
        | cons octet buf =>
          cases ht
          obtain ⟨hrec, hqueue⟩ := record_kept (s := { s with tx }) hbuf (List.cons_ne_nil octet buf) hbuilt
          rw [record_congr tx (by rw [hcurrent rfl]; simp [currentSdu, hbuf]), hrec]
          refine ⟨hkept, ?_⟩
          have hframe : (UmSender.record { s with tx } tx' (octet :: buf)).tx = tx' := by
            unfold UmSender.record
            split_ifs <;> rfl
          rw [hframe, hqueue]
          exact hq'

theorem getBufferState_queue {s : RlcTxUmEntity} (hq : s.sduQueue.Inv) :
    s.getBufferState.2.sduQueue.Inv := by
  simp only [RlcTxUmEntity.getBufferState, RlcTxUmEntity.segmentState]
  split_ifs
  · exact (SduQueue.front_spec hq).2.2
  · exact hq

theorem Logged.step_queue (h : Logged sz handed s log cur) (hshort : ∀ sdu ∈ handed, sdu.length < 2 ^ 16)
    (hq : s.tx.sduQueue.Inv) {e : TxUmEvent}
    (he : ∀ sn, e = .discardSdu sn → sn < SduQueue.stateDiscarded) (ht : s.step e = .ok t) :
    t.tx.sduQueue.Inv := by
  cases e with
  | handleSdu buf now =>
    cases ht
    have hinv := (@SduQueue.write_spec _ hq (s.tx.newSdu buf now) fun _ => RlcTxAmEntity.getPdcpSn_lt).1
    change (s.tx.handleSdu buf now).sduQueue.Inv
    unfold RlcTxUmEntity.handleSdu
    rcases hw : s.tx.sduQueue.write (s.tx.newSdu buf now) with ⟨ok, q⟩
    rw [hw] at hinv
    cases ok <;> exact hinv
  | discardSdu pdcpSn =>
    cases ht
    have hinv := (SduQueue.tryDiscard_spec hq (he pdcpSn rfl)).2.2
    change (s.tx.discardSdu pdcpSn).sduQueue.Inv
    unfold RlcTxUmEntity.discardSdu
    rcases hd : s.tx.sduQueue.tryDiscard pdcpSn with ⟨ok, q⟩
    rw [hd] at hinv
    cases ok <;> exact hinv
  | pullPdu grantLen => exact (h.pullPdu_kept hshort hq ht).2
  | updateMacBufferState =>
    cases ht
    change s.tx.updateMacBufferState.2.sduQueue.Inv
    have hinv := getBufferState_queue (s := { s.tx with pendingBufferState := false }) hq
    simp only [RlcTxUmEntity.updateMacBufferState]
    split_ifs <;> exact hinv
  | getBufferState =>
    cases ht
    exact getBufferState_queue hq

theorem Logged.run_queue (h : Logged sz handed s log cur) (hshort : ∀ sdu ∈ handed, sdu.length < 2 ^ 16)
    (hq : s.tx.sduQueue.Inv) {es : List TxUmEvent}
    (hes : ∀ sdu ∈ es.filterMap TxUmEvent.sdu?, sdu.length < 2 ^ 16)
    (hdiscard : ∀ sn, .discardSdu sn ∈ es → sn < SduQueue.stateDiscarded)
    (ht : Machine.run UmSender.step s es = .ok t) : t.tx.sduQueue.Inv := by
  induction es generalizing s handed log cur with
  | nil =>
    cases ht
    exact hq
  | cons e es ih =>
    obtain ⟨u, log', cur', hu, hlog⟩ := h.step hshort e
    rw [Machine.run_cons_ok hu] at ht
    have hmem : ∀ sdu ∈ e.sdu?.toList, sdu ∈ (e :: es).filterMap TxUmEvent.sdu? := by
      cases he : e.sdu? <;> simp [he]
    refine ih hlog ?_ (h.step_queue hshort hq (fun sn he => hdiscard sn (he ▸ List.mem_cons_self)) hu) ?_
      (fun sn hsn => hdiscard sn (List.mem_cons_of_mem _ hsn)) ht
    · intro sdu hsdu
      rcases List.mem_append.mp hsdu with hold | hnew
      · exact hshort sdu hold
      · exact hes sdu (hmem sdu hnew)
    · intro sdu hsdu
      exact hes sdu (((List.sublist_cons_self e es).filterMap _).subset hsdu)

theorem Logged.pulls_kept (h : Logged sz handed s log cur) (hshort : ∀ sdu ∈ handed, sdu.length < 2 ^ 16)
    (hq : s.tx.sduQueue.Inv) (grants : List Nat) :
    ∃ t log' cur', Machine.run UmSender.step s (grants.map .pullPdu) = .ok t ∧
      Logged sz handed t log' cur' ∧ t.kept = s.kept := by
  induction grants generalizing s log cur with
  | nil => exact ⟨s, log, cur, rfl, h, rfl⟩
  | cons grantLen grants ih =>
    obtain ⟨u, log', cur', hu, hlog⟩ := h.pullPdu hshort grantLen
    obtain ⟨hkept, hq'⟩ := h.pullPdu_kept hshort hq hu
    obtain ⟨t, log'', cur'', ht, hlog', hkept'⟩ := ih hlog hq'
    exact ⟨t, log'', cur'', by rw [List.map_cons, Machine.run_cons_ok hu, ht], hlog', hkept'.trans hkept⟩

end UmSender

end Ocudu.Rlc
