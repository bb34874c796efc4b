import Ocudu.Rlc.TxInv

/-! The buffer state of the transmitting entity: what it reports is what the pulls will take. -/

namespace Ocudu.Rlc

open SeqNum

namespace RlcRetxQueue

variable {q q' : RlcRetxQueue} {retx : RlcTxAmdRetx}

def totalBytes (l : List RlcTxAmdRetx) : Nat := (l.map (·.length)).sum

def Exact (q : RlcRetxQueue) : Prop :=
  q.st = { retxBytes := totalBytes q.queue
           nRetxSoZero := q.queue.countP (·.so == 0)
           nRetxSoNonzero := q.queue.countP (·.so != 0) }

def CounterOk (q : RlcRetxQueue) : Prop := totalBytes q.queue < 2 ^ 32 → q.Exact

@[simp] theorem totalBytes_cons (r : RlcTxAmdRetx) (l : List RlcTxAmdRetx) :
    totalBytes (r :: l) = r.length + totalBytes l := by
  simp [totalBytes]

@[simp] theorem totalBytes_append (l l' : List RlcTxAmdRetx) :
    totalBytes (l ++ l') = totalBytes l + totalBytes l' := by
  simp [totalBytes]

theorem CounterOk.tryPush (h : q.CounterOk) (hp : q.tryPush retx = some q') : q'.CounterOk := by
  unfold RlcRetxQueue.tryPush at hp
  split at hp <;> cases hp
  intro hlt
  have htotal : totalBytes (q.queue ++ [retx]) = totalBytes q.queue + retx.length := by
    simp [totalBytes]
  simp only [htotal] at hlt
  have hex := h (by omega)
  unfold Exact at hex
  simp only [Exact, RlcRetxQueueState.add, hex, htotal, Nat.mod_eq_of_lt hlt]
  by_cases hso : retx.so = 0 <;> simp [hso, List.countP_append]

theorem Exact.pop (h : q.Exact) : q.pop.Exact := by
  cases hq : q.queue with
  | nil =>
    have : q.pop = q := by simp [RlcRetxQueue.pop, hq]
    rw [this]
    exact h
  | cons front rest =>
    have hpop : q.pop = { q with queue := rest, st := q.st.subtract front } := by
      simp [RlcRetxQueue.pop, hq]
    rw [hpop]
    simp only [Exact, hq] at h ⊢
    by_cases hso : front.so = 0 <;>
      simp [RlcRetxQueueState.subtract, h, hso]

theorem Exact.pop_iterate (h : q.Exact) (i : Nat) : (RlcRetxQueue.pop^[i] q).Exact := by
  induction i generalizing q with
  | zero => exact h
  | succ i ih =>
    rw [Function.iterate_succ_apply]
    exact ih h.pop

theorem Exact.replaceFront (h : q.Exact) {front : RlcTxAmdRetx} {rest : List RlcTxAmdRetx}
    (hq : q.queue = front :: rest) (hle : retx.length ≤ front.length)
    (hlt : totalBytes q.queue < 2 ^ 32) : (q.replaceFront retx).Exact := by
  have hpop := h.pop
  have heq : q.replaceFront retx =
      { q with queue := retx :: rest, st := q.pop.st.add retx } := by
    simp [RlcRetxQueue.replaceFront, RlcRetxQueue.pop, hq]
  have hpq : q.pop.queue = rest := by simp [RlcRetxQueue.pop, hq]
  rw [heq]
  simp only [hq, totalBytes_cons] at hlt
  simp only [Exact, hpq] at hpop
  have hsum : (totalBytes rest + retx.length) % 2 ^ 32 = retx.length + totalBytes rest := by
    rw [Nat.mod_eq_of_lt (by omega), Nat.add_comm]
  simp only [Exact, RlcRetxQueueState.add, hpop, hsum, totalBytes_cons]
  by_cases hso : retx.so = 0 <;> simp [hso]

theorem CounterOk.scheduled {P : RlcTxAmdRetx → Prop} (hs : RlcTxAmEntity.Scheduled P q q')
    (h : q.CounterOk) : q'.CounterOk := by
  induction hs with
  | refl => exact h
  | push _ _ hpush ih => exact ih.tryPush hpush

theorem new_exact (capacity : Nat) : (RlcRetxQueue.new capacity).Exact := rfl

end RlcRetxQueue

namespace RlcTxAmEntity

variable {s s' t : RlcTxAmEntity} {a n k : Nat} {hist : List (List UInt8)}

/-- The bytes of all PDUs that the RETX in the queue take. -/
def retxCost (s : RlcTxAmEntity) : List RlcTxAmdRetx → Nat
  | [] => 0
  | r :: rest => s.getRetxExpectedHdrLen r + r.length + s.retxCost rest

/-- The bytes of all PDUs that the SDUs in the queue take. -/
def queueCost (s : RlcTxAmEntity) : List RlcSdu → Nat
  | [] => 0
  | sdu :: rest => sdu.buf.length + s.headMinSize + s.queueCost rest

def pendingTotal (s : RlcTxAmEntity) : Nat :=
  s.queueCost s.sduQueue.live + s.segmentState.1 + s.retxCost s.retxQueue.queue

def nextUnit (s : RlcTxAmEntity) : Nat :=
  match s.retxQueue.queue with
  | r :: _ => s.getRetxExpectedHdrLen r + r.length
  | [] =>
    match s.snUnderSegmentation with
    | some _ => s.segmentState.1
    | none => (s.sduQueue.live.head?.map (fun sdu => sdu.buf.length + s.headMinSize)).getD 0

theorem nextUnit_le (s : RlcTxAmEntity) : s.nextUnit ≤ s.pendingTotal := by
  unfold nextUnit pendingTotal
  split
  · rename_i r rest hq
    rw [hq, retxCost]
    omega
  · split
    · omega
    · cases hl : s.sduQueue.live with
      | nil => simp
      | cons sdu rest =>
        simp only [List.head?_cons, Option.map_some, Option.getD_some, queueCost]
        omega

theorem queueCost_eq (s : RlcTxAmEntity) (l : List RlcSdu) :
    s.queueCost l = SduQueue.totalBytes l + l.length * s.headMinSize := by
  induction l with
  | nil => simp [queueCost, SduQueue.totalBytes]
  | cons sdu rest ih =>
    rw [queueCost, ih, SduQueue.totalBytes_cons, List.length_cons, Nat.add_mul]
    omega

theorem retxCost_eq (s : RlcTxAmEntity) (l : List RlcTxAmdRetx) :
    s.retxCost l = RlcRetxQueue.totalBytes l + l.countP (·.so == 0) * s.headMinSize +
      l.countP (·.so != 0) * s.headMaxSize := by
  induction l with
  | nil => simp [retxCost, RlcRetxQueue.totalBytes]
  | cons r rest ih =>
    rw [retxCost, ih, RlcRetxQueue.totalBytes_cons, getRetxExpectedHdrLen]
    by_cases hso : r.so = 0 <;> simp [hso, Nat.add_mul] <;> omega

theorem totalBytes_le_retxCost (s : RlcTxAmEntity) (l : List RlcTxAmdRetx) :
    RlcRetxQueue.totalBytes l ≤ s.retxCost l := by
  rw [retxCost_eq]
  omega

theorem pendingBytes_eq (hq : s.sduQueue.Inv) (hc : s.retxQueue.CounterOk)
    (hfit : s.pendingTotal < 2 ^ 32) : (s.getBufferState none).1.pendingBytes = s.pendingTotal := by
  have hst := hq.getState_eq
  have hle := totalBytes_le_retxCost s s.retxQueue.queue
  have hex := hc (by unfold pendingTotal at hfit; omega)
  unfold RlcRetxQueue.Exact at hex
  unfold getBufferState
  simp only [hst, hex]
  rw [← queueCost_eq, ← retxCost_eq, Option.getD_none, Nat.add_zero]
  exact Nat.mod_eq_of_lt hfit

theorem headMinSize_congr (h : s'.cfg = s.cfg) : s'.headMinSize = s.headMinSize := by
  rw [headMinSize, headMinSize, h]

theorem headMaxSize_congr (h : s'.cfg = s.cfg) : s'.headMaxSize = s.headMaxSize := by
  rw [headMaxSize, headMaxSize, h]

theorem retxCost_congr (h : s'.cfg = s.cfg) (l : List RlcTxAmdRetx) : s'.retxCost l = s.retxCost l := by
  rw [retxCost_eq, retxCost_eq, headMinSize_congr h, headMaxSize_congr h]

theorem queueCost_congr (h : s'.cfg = s.cfg) (l : List RlcSdu) : s'.queueCost l = s.queueCost l := by
  rw [queueCost_eq, queueCost_eq, headMinSize_congr h]

theorem segmentState_none (h : s.snUnderSegmentation = none) : s.segmentState.1 = 0 := by
  simp [segmentState, h]

theorem segmentState_some {sn : Nat} {info : RlcTxAmSduInfo} (h : s.snUnderSegmentation = some sn)
    (hinfo : s.txWindow.lookup sn = some info) (hle : info.nextSo ≤ info.sdu.length)
    (hshort : info.sdu.length ≤ 2 ^ 16) :
    s.segmentState.1 = info.sdu.length - info.nextSo + s.headMaxSize := by
  simp only [segmentState, h, hinfo]
  rw [subU32, dist_of_le hle (by omega)]

theorem segmentState_congr (hcfg : s'.cfg = s.cfg)
    (hseg : s'.snUnderSegmentation = s.snUnderSegmentation) (hwin : s'.txWindow = s.txWindow) :
    s'.segmentState.1 = s.segmentState.1 := by
  unfold segmentState
  rw [hseg, hwin, headMaxSize_congr hcfg]
  split
  · split <;> rfl
  · rfl

theorem pendingTotal_of_none (hcfg : s'.cfg = s.cfg) (hseg : s'.snUnderSegmentation = none)
    (hretx : s'.retxQueue.queue = []) : s'.pendingTotal = s.queueCost s'.sduQueue.live := by
  rw [pendingTotal, segmentState_none hseg, queueCost_congr hcfg, hretx]
  rfl

theorem writePdu_length {hdr : RlcAmPduHeader} {payload : List UInt8} (h : payload ≠ []) :
    (writePdu hdr payload).length = (if hdr.so ≠ 0 then rlcAmPduHeaderMaxSize hdr.snSize
      else rlcAmPduHeaderMinSize hdr.snSize) + payload.length := by
  rw [writePdu_eq h, List.length_append, header_length]

theorem RetxPdu.pending (hq : s.retxQueue.queue = retx :: rest)
    (hpos : 0 < retx.length) (hin : retx.so + retx.length ≤ info.sdu.length) {grantLen : Nat}
    (hg : s.nextUnit ≤ grantLen) (hp : RetxPdu s grantLen retx info pdu s') :
    pdu.length + s'.pendingTotal = s.pendingTotal ∧ pdu ≠ [] := by
  have hunit : s.nextUnit = s.getRetxExpectedHdrLen retx + retx.length := by simp [nextUnit, hq]
  rw [hunit] at hg
  have hframe := hp.frame
  have hseg := segmentState_congr hframe.cfg hframe.seg hframe.txWindow
  cases hp with
  | blocked hb => omega
  | @sent len p t hlen0 hlen hpoll =>
    have hall : len = retx.length := by omega
    have hretx : s'.retxQueue.queue = rest := by
      rw [(polled hpoll).retxQueue]
      rcases advanceRetx_retx (s := { s with retxSn := some retx.sn }) hq info
        (Nat.le_of_eq hall) with ⟨heq, -⟩ | ⟨-, hlt⟩
      · exact heq
      · omega
    have hpart : (segment info.sdu retx.so len).length = retx.length := by
      rw [segment_length (by omega), hall]
    have hhdr : (rlcAmWriteDataPduHeader (s.retxHdr p retx info len)).length =
        s.getRetxExpectedHdrLen retx := by
      rw [header_length, getRetxExpectedHdrLen]
      by_cases hso : retx.so = 0 <;> simp [retxHdr, hso, headMinSize, headMaxSize]
    constructor
    · rw [List.length_append, hhdr, hpart, pendingTotal, pendingTotal, hseg, hframe.sduQueue,
        queueCost_congr hframe.cfg, retxCost_congr hframe.cfg, hretx, hq, retxCost]
      omega
    · intro hnil
      rw [(List.append_eq_nil_iff.mp hnil).2, List.length_nil] at hpart
      omega

structure SentUnit (s : RlcTxAmEntity) (pdu : List UInt8) (s' : RlcTxAmEntity) : Prop where
  cfg : s'.cfg = s.cfg
  seg : s'.snUnderSegmentation = none
  retx : s'.retxQueue.queue = []
  pending : pdu.length + s.queueCost s'.sduQueue.live = s.pendingTotal

theorem SentUnit.total (h : SentUnit s pdu s') : pdu.length + s'.pendingTotal = s.pendingTotal := by
  rw [pendingTotal_of_none h.cfg h.seg h.retx]
  exact h.pending

theorem ContinuedPdu.pending (hq : s.retxQueue.queue = [])
    (hseg : s.snUnderSegmentation = some (n % s.mod)) {info : RlcTxAmSduInfo}
    (hinfo : s.txWindow.lookup (n % s.mod) = some info) (hok : EntryOk n hist n info)
    (hshort : info.sdu.length ≤ 2 ^ 16) {grantLen : Nat} (hg : s.nextUnit ≤ grantLen)
    {pdu : List UInt8} (hp : ContinuedPdu s grantLen (n % s.mod) info pdu s') :
    SentUnit s pdu s' ∧ pdu ≠ [] := by
  have hpos := hok.progress rfl
  have hstate := segmentState_some hseg hinfo (by omega) hshort
  have hunit : s.nextUnit = s.segmentState.1 := by simp [nextUnit, hq, hseg]
  rw [hunit, hstate] at hg
  cases hp with
  | blocked hb => omega
  | middle _ hlong _ => omega
  | @last p t hfit hpoll =>
    have hpolled := polled hpoll
    have hso : info.nextSo % 2 ^ 16 = info.nextSo := Nat.mod_eq_of_lt (by omega)
    have hnz : info.nextSo ≠ 0 := by omega
    have hin : info.nextSo + (info.sdu.length - info.nextSo) ≤ info.sdu.length := by omega
    have hne := segment_ne_nil hin (by omega)
    rw [hso]
    refine ⟨⟨hpolled.cfg, hpolled.seg, ?_, ?_⟩, writePdu_ne_nil hne⟩
    · rw [hpolled.retxQueue]
      exact hq
    · rw [hpolled.sduQueue, writePdu_length hne, segment_length hin, pendingTotal, hstate, hq]
      simp only [newHdr, hnz, ne_eq, not_false_eq_true, if_true, headMaxSize, retxCost]
      omega

theorem NewPdu.pending (h : TxInv s a n hist) (hq : s.retxQueue.queue = [])
    (hseg : s.snUnderSegmentation = none) {grantLen : Nat} (hg : s.nextUnit ≤ grantLen)
    (hfull : s.isTxWindowFull = false) {pdu : List UInt8} (hp : NewPdu s grantLen pdu s') :
    SentUnit s pdu s' ∧ (0 < s.pendingTotal → pdu ≠ []) := by
  have htotal := pendingTotal_of_none rfl hseg hq
  obtain ⟨hhead, htail, -⟩ := SduQueue.read_spec h.queue
  have hunit : s.nextUnit =
      (s.sduQueue.live.head?.map (fun sdu => sdu.buf.length + s.headMinSize)).getD 0 := by
    simp [nextUnit, hq, hseg]
  have hidle : s.sduQueue.live = [] → ¬ 0 < s.pendingTotal := by
    intro hl
    rw [htotal, hl]
    exact Nat.lt_irrefl 0
  -- a PDU is only held back if there is nothing to send
  have hsome : ∀ sdu rest, s.sduQueue.live = sdu :: rest →
      sdu.buf.length + s.headMinSize ≤ grantLen ∧ 0 < sdu.buf.length := by
    intro sdu rest hl
    have hm : sdu ∈ s.sduQueue.live := by rw [hl]; exact List.mem_cons_self
    have hok := h.queued sdu (List.mem_filter.mp hm).1
    rw [hunit, hl] at hg
    exact ⟨by simpa using hg, List.length_pos_of_ne_nil hok.1⟩
  have hlive : ∀ sdu q, s.sduQueue.read = (some sdu, q) → s.sduQueue.live = sdu :: q.live := by
    intro sdu q hread
    rw [hread] at hhead htail
    rw [htail]
    exact List.eq_cons_of_mem_head? hhead.symm
  cases hp with
  | blocked hb =>
    refine ⟨⟨rfl, hseg, hq, ?_⟩, fun hpos => absurd hpos (hidle ?_)⟩
    · rw [htotal, List.length_nil, Nat.zero_add]
    · cases hl : SduQueue.live _ with
      | nil => rfl
      | cons sdu rest =>
        have := hsome sdu rest hl
        rcases hb with hb | hb
        · omega
        · rw [hfull] at hb
          cases hb
  | @drained q hread =>
    rw [hread] at hhead htail
    have hnil : s.sduQueue.live = [] := List.head?_eq_none_iff.mp hhead.symm
    refine ⟨⟨rfl, hseg, hq, ?_⟩, fun hpos => absurd hpos (hidle hnil)⟩
    change 0 + s.queueCost q.live = _
    rw [htail, hnil, htotal, hnil]
    rfl
  | @full sdu q p t _ hread hfit hpoll =>
    have hpolled := polled hpoll
    have hl := hlive sdu q hread
    have hne : sdu.buf ≠ [] := List.ne_nil_of_length_pos (hsome sdu _ hl).2
    have hqueue : t.sduQueue = q := hpolled.sduQueue
    refine ⟨⟨hpolled.cfg, hpolled.seg.trans hseg, ?_, ?_⟩, fun _ => writePdu_ne_nil hne⟩
    · rw [hpolled.retxQueue]
      exact hq
    · rw [writePdu_length hne, htotal, hl, queueCost]
      simp only [newHdr, ne_eq, not_true_eq_false, if_false, hqueue, headMinSize]
      omega
  | @first sdu q p t _ hread _ hlong _ =>
    have := hsome sdu _ (hlive sdu q hread)
    omega

/-- A pull that need not segment and is not stalled sends the next unit, which is then no longer
pending. -/
theorem Pulled.pending (h : TxInv s a n hist) (hmax : s.maxRetxReached = false)
    (hfull : s.isTxWindowFull = false) {grantLen : Nat} (hg : s.nextUnit ≤ grantLen)
    {pdu : List UInt8} (hp : Pulled s a n hist grantLen none pdu s') :
    pdu.length + s'.pendingTotal = s.pendingTotal ∧ (0 < s.pendingTotal → pdu ≠ []) := by
  cases hp with
  | idle hidle =>
    refine ⟨Nat.zero_add _, fun hpos => ?_⟩
    rcases hidle with hm | ⟨hq, hseg, hempty⟩
    · rw [hmax] at hm
      cases hm
    · rw [pendingTotal_of_none rfl hseg hq, SduQueue.live, List.isEmpty_iff.mp hempty] at hpos
      exact absurd hpos (by simp [queueCost])
  | report hst => cases hst
  | retx hq hat hinfo hp =>
    obtain ⟨info', hinfo', hin, -⟩ := h.retx_entry hat
    rw [hinfo] at hinfo'
    cases hinfo'
    obtain ⟨_, _, _, _, _, _, hpos, _⟩ := hat
    obtain ⟨h1, h2⟩ := hp.pending hq hpos hin hg
    exact ⟨h1, fun _ => h2⟩
  | continued hq hseg hinfo hok hp =>
    obtain ⟨h1, h2⟩ := hp.pending hq hseg hinfo hok (h.entry_short hok) hg
    exact ⟨h1.total, fun _ => h2⟩
  | new hq hseg hp =>
    obtain ⟨h1, h2⟩ := hp.pending h hq hseg hg hfull
    exact ⟨h1.total, h2⟩

structure BufferInv (s : RlcTxAmEntity) : Prop where
  tx : ∃ a n hist, TxInv s a n hist
  counters : s.retxQueue.CounterOk

/-- SDUs can be addressed by 16-bit offsets, PDCP SNs are none of the marks of the queue, reports
are about SNs that SDUs have, and the pending bytes fit into 32 bits. -/
def wellFed (s : RlcTxAmEntity) (e : TxEvent) : Bool :=
  decide (s.pendingTotal < 2 ^ 32) && s.nacksAssigned e &&
    match e with
    | .handleSdu buf _ _ => decide (buf.length ≤ 2 ^ 16)
    | .discardSdu pdcpSn => decide (pdcpSn < SduQueue.stateDiscarded)
    | _ => true

theorem counterOk_pop (h : s.retxQueue.CounterOk) (hfit : s.pendingTotal < 2 ^ 32) :
    s.retxQueue.Exact ∧ RlcRetxQueue.totalBytes s.retxQueue.queue < 2 ^ 32 := by
  have hle := totalBytes_le_retxCost s s.retxQueue.queue
  unfold pendingTotal at hfit
  exact ⟨h (by omega), by omega⟩

theorem Pulled.counters {grantLen : Nat} {status : Option RlcAmStatusPdu} {pdu : List UInt8}
    (hc : s.retxQueue.CounterOk) (hfit : s.pendingTotal < 2 ^ 32)
    (hp : Pulled s a n hist grantLen status pdu s') : s'.retxQueue.CounterOk := by
  obtain ⟨hex, hlt⟩ := counterOk_pop hc hfit
  cases hp with
  | idle _ => exact hc
  | report _ => exact hc
  | @retx r rest info _ _ hq _ _ hp =>
    cases hp with
    | blocked _ => exact hc
    | @sent len p t _ hlen hpoll =>
      rw [(polled hpoll).retxQueue]
      intro _
      unfold advanceRetx
      split
      · exact hex.pop
      · exact hex.replaceFront hq (Nat.sub_le _ _) hlt
  | continued _ _ _ _ hp =>
    cases hp with
    | blocked _ => exact hc
    | middle _ _ hpoll => rw [(polled hpoll).retxQueue]; exact hc
    | last _ hpoll => rw [(polled hpoll).retxQueue]; exact hc
  | new _ _ hp =>
    cases hp with
    | blocked _ => exact hc
    | drained _ => exact hc
    | full _ _ _ hpoll => rw [(polled hpoll).retxQueue]; exact hc
    | first _ _ _ _ hpoll => rw [(polled hpoll).retxQueue]; exact hc

theorem BufferInv.handleControlPdu (h : BufferInv s) {pdu : List UInt8} {statusBytes : Option Nat}
    (hfit : s.pendingTotal < 2 ^ 32) (hadm : s.nacksAssigned (.controlPdu pdu statusBytes) = true)
    (hs : s.handleControlPdu pdu statusBytes = .ok s') : BufferInv s' := by
  obtain ⟨a, n, hist, htx⟩ := h.tx
  obtain ⟨res, hu, hs⟩ := bind_eq_ok.mp hs
  cases res with
  | none =>
    cases hs
    exact h
  | some status =>
    cases hacc : s.acceptsStatus status with
    | false =>
      simp only [handleStatusPdu, hacc, Bool.not_false, if_true] at hs
      cases hs
      exact h
    | true =>
      have hrec := receivedStatus_of_unpack hu hacc
      simp only [nacksAssigned, acksAssigned, hrec, Option.all_some, Bool.and_eq_true,
        Bool.not_eq_true'] at hadm
      obtain ⟨a', t, ht, -, hinv, hsched, -⟩ := htx.handleStatusPdu (RlcAmStatusPdu.unpack_wf hu) hacc
        hadm.1 hadm.2 statusBytes (fun _ => True) (fun _ _ _ _ _ _ _ _ _ _ _ _ => trivial)
      simp only at hs
      rw [ht] at hs
      cases hs
      exact ⟨⟨a', n, hist, hinv⟩,
        .scheduled hsched (fun _ => (counterOk_pop h.counters hfit).1.pop_iterate _)⟩

theorem BufferInv.buffer (h : BufferInv s) (hk : BufferKeeps s s') : BufferInv s' := by
  obtain ⟨a, n, hist, htx⟩ := h.tx
  obtain ⟨b, p, bs, heq⟩ := htx.buffer_eq hk
  refine ⟨⟨a, n, hist, htx.buffer hk⟩, ?_⟩
  rw [heq]
  exact h.counters

theorem BufferInv.step (h : BufferInv s) {e : TxEvent} (hadm : s.wellFed e = true)
    (hs : s.step e = .ok s') : BufferInv s' := by
  obtain ⟨a, n, hist, htx⟩ := h.tx
  simp only [wellFed, Bool.and_eq_true, decide_eq_true_eq] at hadm
  obtain ⟨⟨hfit, hnacks⟩, hev⟩ := hadm
  obtain ⟨pdu, hr⟩ := step_cases hs
  cases hr with
  | handleSdu buf isRetx now p =>
    have hne : buf ≠ [] := by
      simpa [acksAssigned] using acksAssigned_of_nacksAssigned hnacks
    exact ⟨⟨a, n, hist, htx.handleSdu ⟨hne, by simpa using hev⟩ isRetx now p⟩, h.counters⟩
  | discardSdu pdcpSn p => exact ⟨⟨a, n, hist, htx.discardSdu (by simpa using hev) p⟩, h.counters⟩
  | @pullPdu grantLen status pdu t hp =>
    obtain ⟨pdu', s', hs', hpulled⟩ := htx.pulled grantLen status
    rw [hs'] at hp
    cases hp
    obtain ⟨n', hist', hinv, -⟩ := htx.of_pulled hpulled
    exact ⟨⟨a, n', hist', hinv⟩, hpulled.counters h.counters hfit⟩
  | controlPdu hc => exact h.handleControlPdu hfit hnacks hc
  | @pollRetransmit statusBytes t hp =>
    obtain ⟨t', ht, hinv, hsched, -⟩ := htx.onExpiredPollRetransmitTimer statusBytes
    rw [ht] at hp
    cases hp
    exact ⟨⟨a, n, hist, hinv⟩, .scheduled hsched h.counters⟩
  | notRunning => exact h
  | updateMac hb | getBuffer hb => exact h.buffer hb
  | stop =>
    exact ⟨⟨a, n, hist, htx.withQueue (htx.window.congr rfl rfl rfl rfl rfl) rfl rfl rfl htx.queue
      htx.queued⟩, h.counters⟩

def pullAll : RlcTxAmEntity → List Nat → Except Fault (Nat × RlcTxAmEntity)
  | s, [] => .ok (0, s)
  | s, grantLen :: rest => do
    let (pdu, s) ← s.pullPdu grantLen none
    let (bytes, s) ← pullAll s rest
    return (pdu.length + bytes, s)

def pullStep (s : RlcTxAmEntity) (grantLen : Nat) : Except Fault RlcTxAmEntity := do
  return (← s.pullPdu grantLen none).2

def unsegmented (s : RlcTxAmEntity) (grantLen : Nat) : Bool := decide (s.nextUnit ≤ grantLen)

/-- As long as something is pending, the grant takes the next unit whole and the entity is not
stalled: the window is not full and no SDU has used up its retransmissions. -/
def unstalled (s : RlcTxAmEntity) (grantLen : Nat) : Bool :=
  decide (s.pendingTotal = 0) ||
    (!s.maxRetxReached && !s.isTxWindowFull && s.unsegmented grantLen)

theorem Pulled.of_idle (h : TxInv s a n hist) (hzero : s.pendingTotal = 0) {grantLen : Nat}
    {pdu : List UInt8} (hp : Pulled s a n hist grantLen none pdu s') :
    pdu = [] ∧ s'.pendingTotal = 0 := by
  have hcost : s.queueCost s.sduQueue.live = 0 ∧ s.segmentState.1 = 0 ∧
      s.retxCost s.retxQueue.queue = 0 := by
    unfold pendingTotal at hzero
    omega
  have hmin : 0 < s.headMinSize := by
    unfold headMinSize
    cases s.cfg.snFieldLength <;> decide
  have hlive : s.sduQueue.live = [] := by
    cases hl : s.sduQueue.live with
    | nil => rfl
    | cons sdu rest =>
      rw [hl, queueCost] at hcost
      omega
  cases hp with
  | idle _ => exact ⟨rfl, hzero⟩
  | report hst => cases hst
  | @retx r rest _ _ _ hq hat _ _ =>
    obtain ⟨_, _, _, _, _, _, hpos, _⟩ := hat
    rw [hq, retxCost] at hcost
    omega
  | continued _ hseg hinfo hok _ =>
    have hpos := hok.progress rfl
    have hst := segmentState_some hseg hinfo (by omega) (h.entry_short hok)
    omega
  | new hq hseg hp =>
    have hread := SduQueue.read_spec h.queue
    cases hp with
    | blocked _ => exact ⟨rfl, hzero⟩
    | @drained q hr =>
      rw [hr] at hread
      refine ⟨rfl, ?_⟩
      have hcfg : ({ s with sduQueue := q } : RlcTxAmEntity).cfg = s.cfg := rfl
      rw [pendingTotal_of_none hcfg hseg hq]
      change s.queueCost q.live = 0
      rw [hread.2.1, hlive]
      rfl
    | full _ hr _ _ =>
      rw [hr, hlive] at hread
      cases hread.1
    | first _ hr _ _ _ =>
      rw [hr, hlive] at hread
      cases hread.1

/-- Unstalled pulls send exactly what they take off the pending bytes, and each sends something
until nothing is pending. -/
theorem pullAll_drains (h : BufferInv s) (hfit : s.pendingTotal < 2 ^ 32) {grants : List Nat}
    (hadm : Machine.Admits pullStep (fun s g => s.unstalled g = true) s grants) :
    ∃ bytes s', s.pullAll grants = .ok (bytes, s') ∧ bytes + s'.pendingTotal = s.pendingTotal ∧
      BufferInv s' ∧ (s.pendingTotal ≤ grants.length → s'.pendingTotal = 0) := by
  induction grants generalizing s with
  | nil => exact ⟨0, s, rfl, Nat.zero_add _, h, fun hle => by simpa using hle⟩
  | cons g rest ih =>
    obtain ⟨a, n, hist, htx⟩ := h.tx
    obtain ⟨pdu, s1, hs1, hp⟩ := htx.pulled g none
    obtain ⟨n1, hist1, htx1, -⟩ := htx.of_pulled hp
    have hsend : pdu.length + s1.pendingTotal = s.pendingTotal ∧ (0 < s.pendingTotal → pdu ≠ []) := by
      have hok := hadm.1
      simp only [unstalled, unsegmented, Bool.or_eq_true, Bool.and_eq_true, Bool.not_eq_true',
        decide_eq_true_eq] at hok
      rcases hok with hzero | ⟨⟨hmax, hfull⟩, hg⟩
      · obtain ⟨rfl, h0⟩ := hp.of_idle htx hzero
        exact ⟨by rw [h0, hzero]; rfl, fun hpos => by omega⟩
      · exact hp.pending htx hmax hfull hg
    have hstep : s.pullStep g = .ok s1 := by rw [pullStep, hs1]; rfl
    obtain ⟨bytes, s', hs', hsum, hinv, hdone⟩ := ih ⟨⟨a, n1, hist1, htx1⟩,
      hp.counters h.counters hfit⟩ (by omega) (hadm.2 s1 hstep)
    refine ⟨pdu.length + bytes, s', by rw [pullAll, hs1]; simp [hs'], by omega, hinv, ?_⟩
    intro hle
    rw [List.length_cons] at hle
    by_cases hpos : 0 < s.pendingTotal
    · have := List.length_pos_of_ne_nil (hsend.2 hpos)
      exact hdone (by omega)
    · exact hdone (by omega)

theorem BufferInv.new {cfg : RlcTxAmConfig} (hc : 0 < cfg.queueSize) (hc' : cfg.queueSize < 2 ^ 32)
    (hl : cfg.queueSizeBytes < 2 ^ 32) : BufferInv (RlcTxAmEntity.new cfg) :=
  ⟨⟨0, 0, [], .new hc hc' hl⟩, fun _ => RlcRetxQueue.new_exact _⟩

/-- As long as no SDU has used up its retransmissions and the window is not full: nothing is pending
exactly if no pull sends anything; a grant of the pending bytes makes it send something that fits;
and pulls that need not segment drain the entity with them, unless it stalls on the way. -/
theorem buffer_state_exact (cfg : RlcTxAmConfig) (hc : 0 < cfg.queueSize)
    (hc' : cfg.queueSize < 2 ^ 32) (hl : cfg.queueSizeBytes < 2 ^ 32) (events : List TxEvent)
    (hadm : Machine.Admits step (fun s e => s.wellFed e = true) (RlcTxAmEntity.new cfg) events)
    {s : RlcTxAmEntity} (hrun : Machine.run step (RlcTxAmEntity.new cfg) events = .ok s)
    (hfit : s.pendingTotal < 2 ^ 32) (hmax : s.maxRetxReached = false)
    (hfull : s.isTxWindowFull = false) :
    ((s.getBufferState none).1.pendingBytes = 0 ↔
      ∀ grantLen, ∃ s', s.pullPdu grantLen none = .ok ([], s')) ∧
    (0 < (s.getBufferState none).1.pendingBytes →
      ∃ pdu s', s.pullPdu (s.getBufferState none).1.pendingBytes none = .ok (pdu, s') ∧ pdu ≠ [] ∧
        pdu.length ≤ (s.getBufferState none).1.pendingBytes) ∧
    ∀ grants, Machine.Admits pullStep (fun s g => s.unstalled g = true) s grants →
      ∃ bytes s', s.pullAll grants = .ok (bytes, s') ∧
        bytes ≤ (s.getBufferState none).1.pendingBytes ∧
        ((s.getBufferState none).1.pendingBytes ≤ grants.length →
          (s'.getBufferState none).1.pendingBytes = 0) := by
  have hinv := Machine.run_invariant BufferInv (fun s e s' hi ha hs => hi.step ha hs)
    (BufferInv.new hc hc' hl) hadm hrun
  obtain ⟨a, n, hist, htx⟩ := hinv.tx
  have heq := pendingBytes_eq htx.queue hinv.counters hfit
  have hsend : 0 < s.pendingTotal → ∃ pdu s', s.pullPdu s.pendingTotal none = .ok (pdu, s') ∧
      pdu ≠ [] ∧ pdu.length ≤ s.pendingTotal := by
    intro hpos
    obtain ⟨pdu, s', hs', hp⟩ := htx.pulled s.pendingTotal none
    obtain ⟨hsum, hne⟩ := hp.pending htx hmax hfull (nextUnit_le s)
    exact ⟨pdu, s', hs', hne hpos, by omega⟩
  rw [heq]
  refine ⟨⟨?_, ?_⟩, hsend, ?_⟩
  · intro hzero grantLen
    obtain ⟨pdu, s', hs', hp⟩ := htx.pulled grantLen none
    exact ⟨s', by rw [hs', (hp.of_idle htx hzero).1]⟩
  · intro hnone
    by_contra hpos
    obtain ⟨pdu, s', hs', hne, -⟩ := hsend (Nat.pos_of_ne_zero hpos)
    obtain ⟨s'', hs''⟩ := hnone s.pendingTotal
    rw [hs'] at hs''
    cases hs''
    exact hne rfl
  · intro grants hgrants
    obtain ⟨bytes, s', hs', hsum, hinv', hdone⟩ := pullAll_drains hinv hfit hgrants
    obtain ⟨_, _, _, htx'⟩ := hinv'.tx
    refine ⟨bytes, s', hs', by omega, fun hle => ?_⟩
    rw [pendingBytes_eq htx'.queue hinv'.counters (by omega)]
    exact hdone hle

theorem buffer_state_exact_segmented :
    ∃ s, Machine.run step (RlcTxAmEntity.new drbConfig)
        [.handleSdu (List.replicate 10 7) false 0, .handleSdu [0, 1, 2] false 0, .pullPdu 5 none] =
          .ok s ∧ (s.getBufferState none).1.pendingBytes = 16 ∧
      ∃ bytes s', s.pullAll (List.replicate 16 16) = .ok (bytes, s') ∧ bytes ≤ 16 ∧
        (s'.getBufferState none).1.pendingBytes = 0 := by
  refine ⟨_, rfl, by decide, ?_⟩
  obtain ⟨-, -, hdrain⟩ := buffer_state_exact drbConfig (by decide) (by decide) (by decide)
    [.handleSdu (List.replicate 10 7) false 0, .handleSdu [0, 1, 2] false 0, .pullPdu 5 none]
    (by decide) rfl (by decide) (by decide) (by decide)
  obtain ⟨bytes, s', hs', hle, hzero⟩ := hdrain (List.replicate 16 16) (by decide)
  exact ⟨bytes, s', hs', hle, hzero (by decide)⟩

/-- The third of three SDUs stays in the queue once the window is full with the first two. -/
theorem full_window_stops_drain :
    ¬ ∀ (cfg : RlcTxAmConfig) (events : List TxEvent) (s : RlcTxAmEntity) (grants : List Nat),
      Machine.run step (RlcTxAmEntity.new cfg) events = .ok s → s.maxRetxReached = false →
      s.isTxWindowFull = false →
      Machine.Admits pullStep (fun s g => s.unsegmented g = true) s grants →
      (s.getBufferState none).1.pendingBytes ≤ grants.length →
      ∃ bytes s', s.pullAll grants = .ok (bytes, s') ∧
        (s'.getBufferState none).1.pendingBytes = 0 := by
  intro h
  obtain ⟨bytes, s', hs', hzero⟩ := h { drbConfig with maxWindow := 1 }
    [.handleSdu [7] false 0, .handleSdu [7] false 0, .handleSdu [7] false 0] _
    (List.replicate 9 100) rfl (by decide) (by decide) (by decide) (by decide)
  have hleft : (Except.ok 3 : Except Fault Nat) = .ok (s'.getBufferState none).1.pendingBytes :=
    congrArg (Except.map fun r : Nat × RlcTxAmEntity => (r.2.getBufferState none).1.pendingBytes) hs'
  have hthree := Except.ok.inj hleft
  omega

end RlcTxAmEntity

end Ocudu.Rlc
