import Ocudu.Rlc.TxRun

/-! The polling bit of the last PDU: when the entity has nothing left to send. -/

namespace Ocudu.Rlc

def pollBit : List UInt8 → Bool
  | octet :: _ => ((octet.toNat >>> 6) &&& 0x01) == 1
  | [] => false

theorem pollBit_write (hdr : RlcAmPduHeader) (payload : List UInt8) :
    pollBit (rlcAmWriteDataPduHeader hdr ++ payload) = hdr.p := by
  have hfirst : ∃ bits : Fin 16, ∃ rest,
      rlcAmWriteDataPduHeader hdr ++ payload = UInt8.ofNat (firstOctet hdr bits.val) :: rest := by
    rw [rlcAmWriteDataPduHeader]
    cases hdr.snSize with
    | size12bits =>
      have hlt : (hdr.sn >>> 8) &&& 0x0f < 16 := by
        rw [and_0f]
        exact Nat.mod_lt _ (by decide)
      refine ⟨⟨_, hlt⟩, ?_⟩
      simp only
      split <;> exact ⟨_, rfl⟩
    | size18bits =>
      have hlt : (hdr.sn >>> 16) &&& 0x3 < 16 := by
        rw [and_3]
        exact Nat.lt_trans (Nat.mod_lt _ (by decide)) (by decide)
      refine ⟨⟨_, hlt⟩, ?_⟩
      simp only
      split <;> exact ⟨_, rfl⟩
  obtain ⟨bits, rest, heq⟩ := hfirst
  rw [heq, pollBit]
  exact (firstOctet_fields hdr.p hdr.si bits).1

namespace RlcTxAmEntity

variable {s s' : RlcTxAmEntity} {a n k : Nat} {hist : List (List UInt8)}

def pollCounted (s : RlcTxAmEntity) (payloadSize : Nat) : Bool :=
  decide (s.cfg.pollPdu > 0 ∧ s.cfg.pollPdu ≤ ((s.st.pduWithoutPoll + 1) % 2 ^ 32 : Nat)) ||
    decide (s.cfg.pollByte > 0 ∧ s.cfg.pollByte ≤ ((s.st.byteWithoutPoll + payloadSize) % 2 ^ 32 : Nat))

theorem getPollingBit_new {sn payloadSize : Nat} {p : Bool}
    (h : s.getPollingBit sn false payloadSize = (p, s')) :
    p = (s.pollCounted payloadSize ||
      (s.sduQueue.isEmpty && s.retxQueue.empty && s.snUnderSegmentation.isNone) ||
      s.isTxWindowFull) := by
  have hfst := congrArg Prod.fst h
  simp only at hfst
  rw [← hfst]
  simp only [getPollingBit, Bool.false_eq_true, if_false]
  split
  · rename_i hp
    exact hp.symm
  · rename_i hp
    rw [Bool.not_eq_true] at hp
    exact hp.symm

/-- The pull sends the last bytes of the last SDU that there is to send: the rest of the SDU under
segmentation, or else the only SDU in the queue that has not been discarded. -/
def sendsLast (s : RlcTxAmEntity) (grantLen : Nat) : Bool :=
  match s.snUnderSegmentation with
  | some sn =>
    s.sduQueue.live.isEmpty &&
      (s.txWindow.lookup sn).any (fun info =>
        decide (info.sdu.length - info.nextSo + s.headMaxSize ≤ grantLen))
  | none =>
    match s.sduQueue.live with
    | [sdu] =>
      !sdu.buf.isEmpty && decide (sdu.buf.length + s.headMinSize ≤ grantLen) &&
        !s.isTxWindowFull && !s.txWindow.contains s.st.txNext
    | _ => false

def lastDiscarded (s : RlcTxAmEntity) : Bool :=
  s.sduQueue.queue.getLast?.any (fun sdu => !s.sduQueue.valid sdu)

def pollDue (s : RlcTxAmEntity) : Bool :=
  match s.snUnderSegmentation with
  | some sn =>
    (s.txWindow.lookup sn).any (fun info => s.pollCounted (info.sdu.length - info.nextSo)) ||
      s.isTxWindowFull
  | none => s.pollCounted 0 || s.txWindow.count + 1 == s.txWindow.capacity

/-- The last PDU is not sent while a discarded SDU is the youngest in the queue, unless a poll is
due anyway. -/
def lastPduCounts (s : RlcTxAmEntity) : TxEvent → Bool
  | .pullPdu grantLen none => !(s.sendsLast grantLen && s.lastDiscarded) || s.pollDue
  | _ => true

/-- A data PDU after which nothing is left to send is polled, and the poll timer runs. -/
def LastPduPolled (s : RlcTxAmEntity) : TxEvent → Prop
  | .pullPdu grantLen none => ∀ pdu s', s.pullPdu grantLen none = .ok (pdu, s') → pdu ≠ [] →
      s'.sduQueue.live = [] → s'.snUnderSegmentation = none → s'.retxQueue.queue = [] →
      pollBit pdu = true ∧ s'.pollRetransmitTimerRunning = true
  | _ => True

/-- What the upper layer and the scheduler do: no PDU is received and no timer expires. -/
def SendEvent : TxEvent → Prop
  | .handleSdu _ _ _ => True
  | .discardSdu pdcpSn => pdcpSn < SduQueue.stateDiscarded
  | .pullPdu _ _ => True
  | .updateMacBufferState _ => True
  | .getBufferState _ => True
  | _ => False

/-- An empty SDU has been given TX_Next: from then on no new PDU can be built. -/
def Stuck (s : RlcTxAmEntity) : Prop :=
  s.snUnderSegmentation = none ∧ s.txWindow.contains s.st.txNext = true

structure SendInv (s : RlcTxAmEntity) : Prop where
  queue : s.sduQueue.Inv
  retx : s.retxQueue.queue = []
  maxRetx : s.maxRetxReached = false
  lower : s.stoppedLower = false
  tPoll : s.cfg.tPollRetx > 0
  window : (∃ a n hist, WindowInv s a n hist) ∨ Stuck s

/-! Whether the inner queue is empty once the last SDU has been taken from it. -/

theorem lastDiscarded_of_live_nil (h : s.sduQueue.live = []) :
    s.lastDiscarded = !s.sduQueue.isEmpty := by
  unfold lastDiscarded SduQueue.isEmpty
  cases hl : s.sduQueue.queue.getLast? with
  | none =>
    rw [List.getLast?_eq_none_iff] at hl
    simp [hl]
  | some sdu =>
    have hm := List.mem_of_getLast? hl
    have hv : s.sduQueue.valid sdu = false := by
      have := List.filter_eq_nil_iff.mp h sdu hm
      simpa using this
    have hne : s.sduQueue.queue.isEmpty = false := List.isEmpty_eq_false_iff.mpr (List.ne_nil_of_mem hm)
    simp [hv, hne]

theorem lastDiscarded_of_read {sdu : RlcSdu} {q : SduQueue} (hread : s.sduQueue.read = (some sdu, q))
    (hlive : s.sduQueue.live = [sdu]) : s.lastDiscarded = !q.isEmpty := by
  obtain ⟨pre, hpre⟩ := SduQueue.readLoop_split hread
  have hvalid : s.sduQueue.valid sdu = true := by
    have hm : sdu ∈ s.sduQueue.live := by rw [hlive]; exact List.mem_cons_self
    exact (List.mem_filter.mp hm).2
  -- `sdu` is the only valid SDU, so those behind it are not
  have hrest : q.queue.filter s.sduQueue.valid = [] := by
    have hlen := congrArg List.length hlive
    rw [SduQueue.live, hpre, List.filter_append, List.filter_cons_of_pos hvalid,
      List.length_append, List.length_cons, List.length_singleton] at hlen
    exact List.eq_nil_of_length_eq_zero (by omega)
  unfold lastDiscarded SduQueue.isEmpty
  rw [hpre]
  cases hq : q.queue.getLast? with
  | none =>
    rw [List.getLast?_eq_none_iff] at hq
    simp [hq, hvalid]
  | some last =>
    have hm := List.mem_of_getLast? hq
    have hv : s.sduQueue.valid last = false := by
      have := List.filter_eq_nil_iff.mp hrest last hm
      simpa using this
    have hne : q.queue.isEmpty = false := List.isEmpty_eq_false_iff.mpr (List.ne_nil_of_mem hm)
    rw [List.getLast?_append, List.getLast?_cons, hq]
    simp [hv, hne]

namespace SendInv

theorem pull_continued (h : SendInv s) {sn : Nat} {info : RlcTxAmSduInfo}
    (hseg : s.snUnderSegmentation = some sn) (hinfo : s.txWindow.lookup sn = some info)
    (grantLen : Nat) :
    s.pullPdu grantLen none = .ok (s.buildContinuedSduSegment grantLen sn info) := by
  simp [pullPdu, h.maxRetx, RlcRetxQueue.empty, h.retx, hseg, hinfo]

theorem pull_new (h : SendInv s) (hseg : s.snUnderSegmentation = none) (grantLen : Nat) :
    s.pullPdu grantLen none =
      if s.sduQueue.isEmpty then .ok ([], s) else s.buildNewPdu grantLen := by
  simp [pullPdu, h.maxRetx, RlcRetxQueue.empty, h.retx, hseg]

end SendInv

theorem Stuck.buildNewPdu (h : Stuck s) {grantLen : Nat} {pdu : List UInt8}
    (hs : s.buildNewPdu grantLen = .ok (pdu, s')) :
    pdu = [] ∧ ∃ q, s' = { s with sduQueue := q } ∧ (q = s.sduQueue ∨ q = s.sduQueue.read.2) := by
  unfold RlcTxAmEntity.buildNewPdu at hs
  split at hs
  · cases hs
    exact ⟨rfl, _, rfl, .inl rfl⟩
  · split at hs
    · cases hs
      exact ⟨rfl, _, rfl, .inl rfl⟩
    · split at hs
      · rename_i q hq
        cases hs
        exact ⟨rfl, q, rfl, .inr (by rw [hq])⟩
      · simp only [h.2, if_true] at hs
        cases hs

theorem buildNewPdu_empty (h : WindowInv s a n hist) (hseg : s.snUnderSegmentation = none)
    {sdu : RlcSdu} {q : SduQueue} (hread : s.sduQueue.read = (some sdu, q)) (hnil : sdu.buf = [])
    {grantLen : Nat} {pdu : List UInt8} (hs : s.buildNewPdu grantLen = .ok (pdu, s')) :
    pdu = [] ∧ (s' = s ∨ ∃ p, Polled (s.stored sdu q) p s' ∧ Stuck s') := by
  have hlen : (RlcTxAmSduInfo.ofSdu sdu).sdu.length = 0 := by simp [RlcTxAmSduInfo.ofSdu, hnil]
  unfold RlcTxAmEntity.buildNewPdu at hs
  by_cases hg : grantLen ≤ s.headMinSize
  · rw [if_pos hg] at hs
    cases hs
    exact ⟨rfl, .inl rfl⟩
  · rw [if_neg hg] at hs
    cases hfull : s.isTxWindowFull with
    | true =>
      simp only [hfull, if_true] at hs
      cases hs
      exact ⟨rfl, .inl rfl⟩
    | false =>
      have hlt := h.lt_of_not_full hseg (isTxWindowFull_false hfull)
      have hcont : s.txWindow.contains s.st.txNext = false := by
        simp [CircularMap.contains, h.next_absent hseg hlt]
      have hstored := CircularMap.lookup_overwrite_of_free (h.next_free hseg hlt) s.st.txNext
        (RlcTxAmSduInfo.ofSdu sdu)
      rw [if_pos rfl] at hstored
      obtain ⟨p, t, hpoll, hpolled⟩ := exists_polled (s.stored sdu q) s.st.txNext false 0
      have hshort : ¬ (RlcTxAmSduInfo.ofSdu sdu).sdu.length + (s.stored sdu q).headMinSize >
          grantLen := by
        rw [hlen]
        change ¬ 0 + s.headMinSize > grantLen
        omega
      simp only [hfull, Bool.false_eq_true, if_false, hread, hcont] at hs
      simp only [stored] at hshort hpoll
      rw [if_neg hshort] at hs
      simp only [hpoll, if_pos hlen] at hs
      cases hs
      refine ⟨rfl, .inr ⟨p, hpolled, hpolled.seg.trans hseg, ?_⟩⟩
      rw [hpolled.txWindow, hpolled.next]
      change (s.txWindow.overwrite s.st.txNext _).contains s.st.txNext = true
      rw [CircularMap.contains, hstored]
      rfl

theorem polled_iff_of_not_last {grantLen : Nat} (hlast : s.sendsLast grantLen = false)
    (h : ∀ pdu s', s.pullPdu grantLen none = .ok (pdu, s') → pdu ≠ [] → s'.sduQueue.live = [] →
      s'.snUnderSegmentation = none → False) :
    LastPduPolled s (.pullPdu grantLen none) ↔ s.lastPduCounts (.pullPdu grantLen none) = true := by
  simp only [lastPduCounts, hlast, Bool.false_and, Bool.not_false, Bool.true_or, iff_true]
  intro pdu s' hs hne hlive hseg _
  exact (h pdu s' hs hne hlive hseg).elim

theorem writePdu_ne_nil {hdr : RlcAmPduHeader} {payload : List UInt8} (h : payload ≠ []) :
    writePdu hdr payload ≠ [] := by
  rw [writePdu_eq h]
  exact fun he => h (List.append_eq_nil_iff.mp he).2

theorem segment_ne_nil {sdu : List UInt8} {so length : Nat} (h : so + length ≤ sdu.length)
    (hpos : 0 < length) : segment sdu so length ≠ [] := by
  intro hnil
  have := segment_length h
  rw [hnil, List.length_nil] at this
  omega

theorem polled_iff_of_pull {grantLen : Nat} {hdr : RlcAmPduHeader} {payload : List UInt8}
    {s0 : RlcTxAmEntity} (hpull : s.pullPdu grantLen none = .ok (writePdu hdr payload, s0))
    (hne : payload ≠ []) (hseg : s0.snUnderSegmentation = none) (hretx : s0.retxQueue.queue = [])
    (htimer : hdr.p = true → s0.pollRetransmitTimerRunning = true) :
    LastPduPolled s (.pullPdu grantLen none) ↔ (s0.sduQueue.live = [] → hdr.p = true) := by
  have hbit : pollBit (writePdu hdr payload) = hdr.p := by rw [writePdu_eq hne, pollBit_write]
  constructor
  · intro hl hlive
    rw [← hbit]
    exact (hl _ _ hpull (writePdu_ne_nil hne) hlive hseg hretx).1
  · intro hl pdu s' hs _ hlive _ _
    rw [hpull] at hs
    obtain ⟨rfl, rfl⟩ := Prod.mk.inj (Except.ok.inj hs)
    rw [hbit]
    exact ⟨hl hlive, htimer (hl hlive)⟩

theorem continued_polled_iff (h : SendInv s) (hw : WindowInv s a n hist)
    (hseg : s.snUnderSegmentation = some (n % s.mod)) (grantLen : Nat) :
    LastPduPolled s (.pullPdu grantLen none) ↔ s.lastPduCounts (.pullPdu grantLen none) = true := by
  obtain ⟨info, hinfo, hok⟩ := hw.entry n hw.le (by rw [top_of_some hseg]; omega)
  have hpos := hok.progress rfl
  have hpull := h.pull_continued hseg hinfo grantLen
  have hspec := buildContinuedSduSegment_spec s grantLen (n % s.mod) hpos.1 hpos.2
  have hsends : s.sendsLast grantLen = (s.sduQueue.live.isEmpty &&
      decide (info.sdu.length - info.nextSo + s.headMaxSize ≤ grantLen)) := by
    simp [sendsLast, hseg, hinfo]
  generalize hres : s.buildContinuedSduSegment grantLen (n % s.mod) info = res at hspec hpull
  obtain ⟨pdu0, s0⟩ := res
  cases hspec with
  | blocked hg =>
    refine polled_iff_of_not_last ?_ ?_
    · rw [hsends, Bool.and_eq_false_iff]
      exact .inr (decide_eq_false (by omega))
    · intro pdu s' hs hne
      rw [hpull] at hs
      cases hs
      exact absurd rfl hne
  | @middle p t hg hlong hpoll =>
    refine polled_iff_of_not_last ?_ ?_
    · rw [hsends, Bool.and_eq_false_iff]
      exact .inr (decide_eq_false (by omega))
    · intro pdu s' hs _ _ hseg'
      rw [hpull] at hs
      cases hs
      have := (polled hpoll).seg
      rw [hseg] at this
      rw [this] at hseg'
      cases hseg'
  | @last p t hfit hpoll =>
    have hpolled := polled hpoll
    have hp := getPollingBit_new hpoll
    have hsegment : segment info.sdu (info.nextSo % 2 ^ 16) (info.sdu.length - info.nextSo) ≠ [] := by
      have := Nat.mod_le info.nextSo (2 ^ 16)
      exact segment_ne_nil (by omega) (by omega)
    have hqueue : t.sduQueue = s.sduQueue := hpolled.sduQueue
    have hempty : s.retxQueue.empty = true := by simp [RlcRetxQueue.empty, h.retx]
    have hfull : ({ s with snUnderSegmentation := none } : RlcTxAmEntity).isTxWindowFull =
        s.isTxWindowFull := rfl
    have hcount : ({ s with snUnderSegmentation := none } : RlcTxAmEntity).pollCounted
        (info.sdu.length - info.nextSo) = s.pollCounted (info.sdu.length - info.nextSo) := rfl
    have hdue : s.pollDue = (s.pollCounted (info.sdu.length - info.nextSo) || s.isTxWindowFull) := by
      simp [pollDue, hseg, hinfo]
    simp only [hempty, Bool.and_true, Option.isNone_none, hfull, hcount] at hp
    have hbit := polled_iff_of_pull hpull hsegment hpolled.seg
      (by rw [hpolled.retxQueue]; exact h.retx) (fun hp1 => hpolled.timer hp1 h.tPoll h.lower)
    have hlive' : t.sduQueue.live = s.sduQueue.live := by rw [hqueue]
    simp only [newHdr, hlive'] at hbit
    rw [hbit, lastPduCounts, hsends, hdue]
    by_cases hlive : s.sduQueue.live = []
    · rw [lastDiscarded_of_live_nil hlive, hp]
      cases s.sduQueue.isEmpty <;> simp [hlive, hfit, Bool.or_comm]
    · simp [hlive]

theorem new_polled_iff (h : SendInv s) (hw : WindowInv s a n hist)
    (hseg : s.snUnderSegmentation = none) (grantLen : Nat) :
    LastPduPolled s (.pullPdu grantLen none) ↔ s.lastPduCounts (.pullPdu grantLen none) = true := by
  have hpull := h.pull_new hseg grantLen
  obtain ⟨hhead, htail, -⟩ := SduQueue.read_spec h.queue
  cases hread : s.sduQueue.read with
  | mk res q =>
  rw [hread] at hhead htail
  cases res with
  | none =>
    have hlive : s.sduQueue.live = [] := List.head?_eq_none_iff.mp hhead.symm
    refine polled_iff_of_not_last (by simp [sendsLast, hseg, hlive]) ?_
    intro pdu s' hs hne
    rw [hpull] at hs
    split at hs
    · cases hs
      exact absurd rfl hne
    · unfold buildNewPdu at hs
      rw [hread] at hs
      split at hs
      · cases hs
        exact absurd rfl hne
      · split at hs <;> cases hs <;> exact absurd rfl hne
  | some sdu =>
    have hlive : s.sduQueue.live = sdu :: q.live := by
      rw [htail]
      exact List.eq_cons_of_mem_head? hhead.symm
    have hsome : s.sduQueue.isEmpty = false := by
      have hm : sdu ∈ s.sduQueue.live := by rw [hlive]; exact List.mem_cons_self
      exact List.isEmpty_eq_false_iff.mpr (List.ne_nil_of_mem (List.mem_filter.mp hm).1)
    rw [hsome] at hpull
    simp only [Bool.false_eq_true, if_false] at hpull
    by_cases hnil : sdu.buf = []
    · refine polled_iff_of_not_last ?_ ?_
      · rw [sendsLast, hseg, hlive]
        cases q.live <;> simp [hnil]
      · intro pdu s' hs hne
        rw [hpull] at hs
        exact absurd (buildNewPdu_empty hw hseg hread hnil hs).1 hne
    · obtain ⟨pdu0, s0, hs0, hspec⟩ := buildNewPdu_spec hw hseg (by
        intro sdu' q' hr
        rw [hread] at hr
        cases hr
        exact hnil) grantLen
      rw [hs0] at hpull
      have hlen := List.length_pos_of_ne_nil hnil
      cases hspec with
      | blocked hblocked =>
        refine polled_iff_of_not_last ?_ ?_
        · rw [sendsLast, hseg, hlive]
          cases q.live with
          | cons _ _ => rfl
          | nil =>
            rcases hblocked with hg | hfull
            · have : ¬ sdu.buf.length + s.headMinSize ≤ grantLen := by omega
              simp [this]
            · simp [hfull]
        · intro pdu s' hs hne
          rw [hpull] at hs
          cases hs
          exact absurd rfl hne
      | drained hr =>
        rw [hread] at hr
        cases hr
      | @first sdu' q' p t hfull hr hg hlong hpoll =>
        rw [hread] at hr
        cases hr
        refine polled_iff_of_not_last ?_ ?_
        · rw [sendsLast, hseg, hlive]
          have : ¬ sdu.buf.length + s.headMinSize ≤ grantLen := by omega
          cases q.live <;> simp [this]
        · intro pdu s' hs _ _ hseg'
          rw [hpull] at hs
          cases hs
          have := (polled hpoll).seg
          rw [this] at hseg'
          cases hseg'
      | @full sdu' q' p t hfull hr hfit hpoll =>
        rw [hread] at hr
        cases hr
        have hpolled := polled hpoll
        have hp := getPollingBit_new hpoll
        have hlt := hw.lt_of_not_full hseg (isTxWindowFull_false hfull)
        have habsent : s.txWindow.contains s.st.txNext = false := by
          simp [CircularMap.contains, hw.next_absent hseg hlt]
        have hempty : s.retxQueue.empty = true := by simp [RlcRetxQueue.empty, h.retx]
        have hqueue : t.sduQueue = q := hpolled.sduQueue
        have hstored : (s.stored sdu q).isTxWindowFull =
            (s.txWindow.count + 1 == s.txWindow.capacity) := by
          have hmax : (s.cfg.maxWindow != 0 && decide (s.txModBase s.st.txNext > s.cfg.maxWindow)) =
              false := by
            simp only [isTxWindowFull, Bool.or_eq_false_iff] at hfull
            exact hfull.2
          change ((s.txWindow.overwrite s.st.txNext _).full || _) = _
          rw [CircularMap.full, CircularMap.count_overwrite_of_free (hw.next_free hseg hlt),
            CircularMap.capacity_overwrite]
          change (_ || (s.cfg.maxWindow != 0 && decide (s.txModBase s.st.txNext > s.cfg.maxWindow))) = _
          rw [hmax, Bool.or_false]
        have hcount : (s.stored sdu q).pollCounted 0 = s.pollCounted 0 := rfl
        have hidle : ((s.stored sdu q).sduQueue.isEmpty && (s.stored sdu q).retxQueue.empty &&
            (s.stored sdu q).snUnderSegmentation.isNone) = q.isEmpty := by
          change (q.isEmpty && s.retxQueue.empty && s.snUnderSegmentation.isNone) = _
          rw [hempty, hseg]
          simp
        rw [hidle, hstored, hcount] at hp
        have hdue : s.pollDue = (s.pollCounted 0 || s.txWindow.count + 1 == s.txWindow.capacity) := by
          simp [pollDue, hseg]
        have hbit := polled_iff_of_pull hpull hnil (hpolled.seg.trans hseg)
          (by rw [hpolled.retxQueue]; exact h.retx) (fun hp1 => hpolled.timer hp1 h.tPoll h.lower)
        have hlive' : t.sduQueue.live = q.live := by rw [hqueue]
        simp only [newHdr, hlive'] at hbit
        rw [hbit, lastPduCounts, hdue, sendsLast, hseg]
        by_cases hql : q.live = []
        · rw [hql] at hlive
          rw [lastDiscarded_of_read hread hlive, hlive, hp]
          cases q.isEmpty <;> simp [hql, hnil, hfit, hfull, habsent, Bool.or_comm]
        · rw [hlive]
          cases hq : q.live with
          | nil => exact absurd hq hql
          | cons _ _ => simp

theorem getPdcpSn_lt {buf : List UInt8} {len : PdcpSnSize} {isSrb : Bool} {sn : Nat}
    (h : getPdcpSn buf len isSrb = some sn) : sn < SduQueue.stateDiscarded := by
  have hoctet : ∀ (x mask i : Nat), mask < 16 → (x &&& mask) <<< i ≤ 15 * 2 ^ i := by
    intro x mask i hm
    rw [Nat.shiftLeft_eq]
    have : x &&& mask ≤ mask := Nat.and_le_right
    exact Nat.mul_le_mul_right _ (by omega)
  unfold getPdcpSn at h
  split at h
  · cases h
  · rename_i b0 rest
    simp only at h
    repeat' split at h
    all_goals try cases h
    · rename_i b1 _ _ _
      have h0 := hoctet b0.toNat 15 8 (by decide)
      have h1 := b1.toNat_lt
      unfold SduQueue.stateDiscarded
      omega
    · rename_i b1 b2 _ _ _
      have h0 := hoctet b0.toNat 3 16 (by decide)
      have h1 := b1.toNat_lt
      have h2 := b2.toNat_lt
      rw [Nat.shiftLeft_eq b1.toNat]
      unfold SduQueue.stateDiscarded
      omega

theorem Stuck.congr (h : Stuck s) (hseg : s'.snUnderSegmentation = s.snUnderSegmentation)
    (hwin : s'.txWindow = s.txWindow) (hnext : s'.st.txNext = s.st.txNext) : Stuck s' :=
  ⟨hseg.trans h.1, by rw [hwin, hnext]; exact h.2⟩

namespace SendInv

theorem withQueue (h : SendInv s) {q : SduQueue} (hq : q.Inv) :
    SendInv { s with sduQueue := q } where
  queue := hq
  retx := h.retx
  maxRetx := h.maxRetx
  lower := h.lower
  tPoll := h.tPoll
  window := by
    rcases h.window with ⟨a, n, hist, hw⟩ | hstuck
    · exact .inl ⟨a, n, hist, hw.congr rfl rfl rfl rfl rfl⟩
    · exact .inr (hstuck.congr rfl rfl rfl)

theorem buffer (h : SendInv s) (hk : BufferKeeps s s') : SendInv s' := by
  have hq : s'.sduQueue.Inv := by
    rcases hk.sduQueue with hq | hq
    · rw [hq]
      exact h.queue
    · rw [hq]
      exact (SduQueue.front_spec h.queue).2.2
  obtain ⟨b, p, bs, heq⟩ := hk.eq
  have hretx : dropStaleRetx s.txWindow s.retxQueue.queue s.retxQueue = s.retxQueue := by
    rw [h.retx]
    rfl
  rw [hretx] at heq
  rw [heq]
  refine ⟨hq, h.retx, h.maxRetx, h.lower, h.tPoll, ?_⟩
  rcases h.window with ⟨a, n, hist, hw⟩ | hstuck
  · exact .inl ⟨a, n, hist, hw.congr rfl rfl rfl rfl rfl⟩
  · exact .inr (hstuck.congr rfl rfl rfl)

theorem ofPolled (h : SendInv s) {t : RlcTxAmEntity} {p : Bool} (hpolled : Polled t p s')
    (hq : t.sduQueue.Inv) (hcfg : t.cfg = s.cfg) (hretx : t.retxQueue = s.retxQueue)
    (hmax : t.maxRetxReached = s.maxRetxReached) (hlower : t.stoppedLower = s.stoppedLower)
    {w : CircularMap RlcTxAmSduInfo} {st : RlcTxAmState}
    (hwin : (∃ a n hist, WindowInv { s' with txWindow := w, st := st } a n hist) ∨
      Stuck { s' with txWindow := w, st := st }) :
    SendInv { s' with txWindow := w, st := st } where
  queue := by rw [hpolled.sduQueue]; exact hq
  retx := by rw [hpolled.retxQueue, hretx]; exact h.retx
  maxRetx := by rw [hpolled.maxRetxReached, hmax]; exact h.maxRetx
  lower := by rw [hpolled.stoppedLower, hlower]; exact h.lower
  tPoll := by rw [hpolled.cfg, hcfg]; exact h.tPoll
  window := hwin

theorem pull_continued_inv (h : SendInv s) (hw : WindowInv s a n hist)
    (hseg : s.snUnderSegmentation = some (n % s.mod)) {grantLen : Nat} {pdu : List UInt8}
    (hs : s.pullPdu grantLen none = .ok (pdu, s')) : SendInv s' := by
  obtain ⟨info, hinfo, hok⟩ := hw.entry n hw.le (by rw [top_of_some hseg]; omega)
  have hpos := hok.progress rfl
  rw [h.pull_continued hseg hinfo grantLen] at hs
  have hspec := buildContinuedSduSegment_spec s grantLen (n % s.mod) hpos.1 hpos.2
  rw [Except.ok.inj hs] at hspec
  obtain ⟨n', hw', -⟩ := hspec.window hw hseg hinfo
  cases hspec with
  | blocked _ => exact h
  | middle _ _ hpoll =>
    exact h.ofPolled (polled hpoll) h.queue rfl rfl rfl rfl (.inl ⟨a, n', hist, hw'⟩)
  | last _ hpoll =>
    exact h.ofPolled (polled hpoll) h.queue rfl rfl rfl rfl (.inl ⟨a, n', hist, hw'⟩)

theorem pull_new_inv (h : SendInv s) (hw : WindowInv s a n hist)
    (hseg : s.snUnderSegmentation = none) {grantLen : Nat} {pdu : List UInt8}
    (hs : s.pullPdu grantLen none = .ok (pdu, s')) : SendInv s' := by
  rw [h.pull_new hseg grantLen] at hs
  split at hs
  · cases hs
    exact h
  · have hq := (SduQueue.read_spec h.queue).2.2
    by_cases hnil : ∀ sdu q, s.sduQueue.read = (some sdu, q) → sdu.buf ≠ []
    · obtain ⟨pdu0, s0, hs0, hspec⟩ := buildNewPdu_spec hw hseg hnil grantLen
      rw [hs0] at hs
      cases hs
      obtain ⟨n', hist', hw', -⟩ := hspec.window hw hseg hnil
      cases hspec with
      | blocked _ => exact h
      | drained hread =>
        rw [hread] at hq
        exact h.withQueue hq
      | full _ hread _ hpoll =>
        rw [hread] at hq
        exact h.ofPolled (polled hpoll) hq rfl rfl rfl rfl (.inl ⟨a, n', hist', hw'⟩)
      | first _ hread _ _ hpoll =>
        rw [hread] at hq
        exact h.ofPolled (polled hpoll) hq rfl rfl rfl rfl (.inl ⟨a, n', hist', hw'⟩)
    · simp only [not_forall, not_not] at hnil
      obtain ⟨sdu, q, hread, hempty⟩ := hnil
      rw [hread] at hq
      rcases (buildNewPdu_empty hw hseg hread hempty hs).2 with rfl | ⟨p, hpolled, hstuck⟩
      · exact h
      · exact h.ofPolled hpolled hq rfl rfl rfl rfl (.inr hstuck)

theorem pull (h : SendInv s) {grantLen : Nat} {status : Option RlcAmStatusPdu} {pdu : List UInt8}
    (hs : s.pullPdu grantLen status = .ok (pdu, s')) : SendInv s' := by
  cases status with
  | some report =>
    simp only [pullPdu, h.maxRetx, Bool.false_eq_true, if_false] at hs
    cases hs
    exact h
  | none =>
    rcases h.window with ⟨a, n, hist, hw⟩ | hstuck
    · rcases hw.seg with hseg | hseg
      · exact h.pull_new_inv hw hseg hs
      · exact h.pull_continued_inv hw hseg hs
    · rw [h.pull_new hstuck.1 grantLen] at hs
      split at hs
      · cases hs
        exact h
      · obtain ⟨-, q, rfl, hq⟩ := hstuck.buildNewPdu hs
        rcases hq with rfl | rfl
        · exact h.withQueue h.queue
        · exact h.withQueue (SduQueue.read_spec h.queue).2.2

theorem step (h : SendInv s) {e : TxEvent} (he : SendEvent e) (hs : s.step e = .ok s') :
    SendInv s' := by
  obtain ⟨pdu, hr⟩ := step_cases hs
  cases hr with
  | handleSdu buf isRetx now p =>
    have hsn : ∀ sn, (s.newSdu buf isRetx now).pdcpSn = some sn → sn < SduQueue.stateDiscarded :=
      fun _ => getPdcpSn_lt
    have hq := SduQueue.write_spec h.queue hsn
    have h1 := h.withQueue hq.1
    exact ⟨h1.queue, h1.retx, h1.maxRetx, h1.lower, h1.tPoll, by
      rcases h1.window with ⟨a, n, hist, hw⟩ | hstuck
      · exact .inl ⟨a, n, hist, hw.congr rfl rfl rfl rfl rfl⟩
      · exact .inr (hstuck.congr rfl rfl rfl)⟩
  | discardSdu pdcpSn p =>
    have hq := SduQueue.tryDiscard_spec h.queue he
    have h1 := h.withQueue hq.2.2
    exact ⟨h1.queue, h1.retx, h1.maxRetx, h1.lower, h1.tPoll, by
      rcases h1.window with ⟨a, n, hist, hw⟩ | hstuck
      · exact .inl ⟨a, n, hist, hw.congr rfl rfl rfl rfl rfl⟩
      · exact .inr (hstuck.congr rfl rfl rfl)⟩
  | pullPdu hp => exact h.pull hp
  | controlPdu | pollRetransmit | notRunning | stop => cases he
  | updateMac hb | getBuffer hb => exact h.buffer hb

theorem new {cfg : RlcTxAmConfig} (hpoll : cfg.tPollRetx > 0) (hc : 0 < cfg.queueSize)
    (hc' : cfg.queueSize < 2 ^ 32) (hl : cfg.queueSizeBytes < 2 ^ 32) :
    SendInv (RlcTxAmEntity.new cfg) where
  queue := SduQueue.new_inv hc hc' hl
  retx := rfl
  maxRetx := rfl
  lower := rfl
  tPoll := hpoll
  window := .inl ⟨0, 0, [], .new cfg⟩

theorem lastPduPolled_iff (h : SendInv s) (e : TxEvent) :
    LastPduPolled s e ↔ s.lastPduCounts e = true := by
  cases e with
  | pullPdu grantLen status =>
    cases status with
    | some report => simp [LastPduPolled, lastPduCounts]
    | none =>
      rcases h.window with ⟨a, n, hist, hw⟩ | hstuck
      · rcases hw.seg with hseg | hseg
        · exact new_polled_iff h hw hseg grantLen
        · exact continued_polled_iff h hw hseg grantLen
      · refine polled_iff_of_not_last ?_ ?_
        · rw [sendsLast, hstuck.1]
          simp only [hstuck.2]
          split <;> simp
        · intro pdu s' hs hne
          rw [h.pull_new hstuck.1 grantLen] at hs
          split at hs
          · cases hs
            exact absurd rfl hne
          · exact absurd (hstuck.buildNewPdu hs).1 hne
  | _ => simp [LastPduPolled, lastPduCounts]

end SendInv

/-- A run of the upper layer and the scheduler polls every last PDU if and only if no pull sends
the last PDU while a discarded SDU is the youngest in the queue, unless a poll is due anyway. -/
theorem last_pdu_polled (cfg : RlcTxAmConfig) (hpoll : cfg.tPollRetx > 0) (hc : 0 < cfg.queueSize)
    (hc' : cfg.queueSize < 2 ^ 32) (hl : cfg.queueSizeBytes < 2 ^ 32) (events : List TxEvent)
    (hev : ∀ e ∈ events, SendEvent e) :
    Machine.Admits step LastPduPolled (RlcTxAmEntity.new cfg) events ↔
      Machine.Admits step (fun s e => s.lastPduCounts e = true) (RlcTxAmEntity.new cfg) events :=
  Machine.admits_congr SendInv (fun _ _ _ hi he hs => hi.step he hs)
    (fun _ e hi _ => hi.lastPduPolled_iff e) (SendInv.new hpoll hc hc' hl) hev

theorem last_pdu_polled_discard_ahead :
    Machine.Admits step LastPduPolled (RlcTxAmEntity.new drbConfig)
      [.handleSdu [0x80, 1, 7] false 0, .handleSdu [0x80, 2, 7] false 0, .discardSdu 1,
        .pullPdu 100 none] :=
  (last_pdu_polled drbConfig (by decide) (by decide) (by decide) (by decide) _
    (by simp [SendEvent, SduQueue.stateDiscarded])).mpr (by decide)

/-- Two SDUs are handed in and the second one is discarded: the first one is sent without a
poll. -/
theorem discard_behind_last_pdu_unpolled :
    ¬ ∀ (cfg : RlcTxAmConfig) (events : List TxEvent), cfg.tPollRetx > 0 →
      (∀ e ∈ events, SendEvent e) →
      Machine.Admits step LastPduPolled (RlcTxAmEntity.new cfg) events := by
  intro h
  have hrun := h drbConfig [.handleSdu [0x80, 1, 7] false 0, .handleSdu [0x80, 2, 7] false 0,
    .discardSdu 2, .pullPdu 100 none] (by decide) (by simp [SendEvent, SduQueue.stateDiscarded])
  have hpull := (((hrun.2 _ rfl).2 _ rfl).2 _ rfl).1 _ _ rfl (by decide) (by decide) (by decide)
    (by decide)
  exact absurd hpull.1 (by decide)

end RlcTxAmEntity

end Ocudu.Rlc
