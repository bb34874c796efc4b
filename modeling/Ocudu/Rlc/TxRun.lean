import Ocudu.Rlc.TxStatus

/-! Runs of the transmitting entity against an arbitrary peer: the TX window holds the SNs it
should, and no absent SN is read. -/

namespace Ocudu.Rlc.RlcTxAmEntity

open SeqNum

variable {s s' t : RlcTxAmEntity} {a n k : Nat} {hist : List (List UInt8)}

structure BufferKeeps (s s' : RlcTxAmEntity) : Prop where
  eq : ∃ b p bs, s' = { s with
    sduQueue := s'.sduQueue
    retxQueue := dropStaleRetx s.txWindow s.retxQueue.queue s.retxQueue
    suspendBsNotifBarring := b, pendingBufferState := p, prevBufferState := bs }
  sduQueue : s'.sduQueue = s.sduQueue ∨ s'.sduQueue = s.sduQueue.front.2

theorem getBufferState_keeps (s : RlcTxAmEntity) (statusBytes : Option Nat) :
    BufferKeeps s (s.getBufferState statusBytes).2 := by
  refine ⟨⟨_, _, _, rfl⟩, ?_⟩
  change s.segmentState.2.2 = _ ∨ s.segmentState.2.2 = _
  unfold segmentState
  split
  · split <;> exact .inl rfl
  · exact .inr rfl

theorem updateMacBufferState_keeps (s : RlcTxAmEntity) (forceNotify : Bool)
    (statusBytes : Option Nat) :
    BufferKeeps s (s.updateMacBufferState forceNotify statusBytes).2 := by
  obtain ⟨⟨b, p, bs, heq⟩, hq⟩ :=
    getBufferState_keeps { s with pendingBufferState := false } statusBytes
  unfold updateMacBufferState
  simp only
  split
  · exact ⟨⟨_, _, _, by rw [heq]⟩, hq⟩
  · exact ⟨⟨_, _, _, by rw [heq]⟩, hq⟩

theorem WindowInv.buffer (h : WindowInv s a n hist) (hk : BufferKeeps s s') :
    WindowInv s' a n hist := by
  obtain ⟨b, p, bs, heq⟩ := hk.eq
  rw [heq]
  exact h.congr rfl rfl rfl rfl rfl

theorem BufferKeeps.queue_suffix (hk : BufferKeeps s s') :
    s'.sduQueue.queue <:+ s.sduQueue.queue := by
  rcases hk.sduQueue with hq | hq
  · rw [hq]
  · rw [hq]
    exact SduQueue.frontLoop_queue _ _

theorem read_ne_nil (hne : ∀ sdu ∈ s.sduQueue.queue, sdu.buf ≠ []) {sdu : RlcSdu} {q : SduQueue}
    (hread : s.sduQueue.read = (some sdu, q)) : sdu.buf ≠ [] :=
  hne sdu ((SduQueue.readLoop_queue s.sduQueue.queue s.sduQueue).2 sdu (by
    rw [← SduQueue.read, hread]))

section

variable (h : WindowInv s a n hist)
include h

theorem WindowInv.sentFull (hseg : s.snUnderSegmentation = none)
    {sdu : RlcSdu} {q : SduQueue} {p : Bool} (hfull : s.isTxWindowFull = false) (hne : sdu.buf ≠ [])
    (hpolled : Polled (s.stored sdu q) p t) :
    WindowInv { t with st := { t.st with txNext := s.nextSn s.st.txNext } } a (n + 1)
      (hist ++ [sdu.buf]) := by
  have hlen : hist.length = n := by rw [h.hist_length, top_of_none hseg]
  have hlt := h.lt_of_not_full hseg (isTxWindowFull_false hfull)
  have hseg' : t.snUnderSegmentation = none := hpolled.seg.trans hseg
  refine h.addSn hseg hlt (.ofSdu sdu) hpolled.cfg hpolled.ack hpolled.txWindow ?_
    (.inl hseg') (by omega) (top_of_none hseg') ⟨?_, hne, by omega⟩
  · rw [nextSn, h.next, Nat.mod_add_mod]
  · rw [← hlen, List.getElem?_concat_length]

theorem WindowInv.sentFirst (hseg : s.snUnderSegmentation = none)
    {sdu : RlcSdu} {q : SduQueue} {p : Bool} {len : Nat} (hfull : s.isTxWindowFull = false)
    (hpos : 0 < len) (hlt : len < sdu.buf.length)
    (hpolled : Polled { s.stored sdu q with snUnderSegmentation := some s.st.txNext } p t) :
    WindowInv { t with
      txWindow := s.txWindow.overwrite s.st.txNext
        { RlcTxAmSduInfo.ofSdu sdu with nextSo := len } } a n (hist ++ [sdu.buf]) := by
  have hlen : hist.length = n := by rw [h.hist_length, top_of_none hseg]
  have hw := h.lt_of_not_full hseg (isTxWindowFull_false hfull)
  have hne : sdu.buf ≠ [] := List.ne_nil_of_length_pos (by omega)
  have hseg' : t.snUnderSegmentation = some (n % s.mod) := by
    rw [hpolled.seg]
    exact congrArg some h.next
  refine h.addSn hseg hw { RlcTxAmSduInfo.ofSdu sdu with nextSo := len }
    hpolled.cfg hpolled.ack rfl (hpolled.next.trans h.next) (.inr hseg') (by omega)
    (top_of_some hseg') ⟨?_, hne, fun _ => ⟨hpos, hlt⟩⟩
  rw [← hlen, List.getElem?_concat_length]

theorem WindowInv.eq_next (hseg : s.snUnderSegmentation = some (n % s.mod))
    (hk : a ≤ k) (hkt : k < s.top n) (he : k % s.mod = n % s.mod) : k = n := by
  have htop : s.top n = n + 1 := top_of_some hseg
  have htw := h.top_le_window
  have hle := h.le
  rw [← h.capacity] at htw
  exact h.window.inj hk (by omega) hle (by omega) he

theorem WindowInv.sentMiddle (hseg : s.snUnderSegmentation = some (n % s.mod)) {info : RlcTxAmSduInfo}
    (hinfo : s.txWindow.lookup (n % s.mod) = some info) {p : Bool} {len : Nat}
    (hlt : len < info.sdu.length - info.nextSo) (hpolled : Polled s p t) :
    WindowInv { t with
      txWindow := s.txWindow.modify (n % s.mod) (fun i => { i with nextSo := i.nextSo + len }) }
      a n hist := by
  have hseg' : t.snUnderSegmentation = some (n % s.mod) := hpolled.seg.trans hseg
  refine h.update (n % s.mod) (fun i => { i with nextSo := i.nextSo + len }) hpolled.cfg
    hpolled.ack rfl (hpolled.next.trans h.next) (.inr hseg') (Nat.le_refl n) ?_ ?_
  · rw [top_of_some hseg]
    exact top_of_some hseg'
  · intro k i hk hkt hi hki
    refine ⟨fun he => ?_, fun _ => hki⟩
    obtain rfl := h.eq_next hseg hk hkt he
    rw [hinfo] at hi
    cases hi
    have hpos := hki.progress rfl
    refine ⟨hki.assigned, hki.ne_nil, fun _ => ⟨?_, ?_⟩⟩
    · change 0 < info.nextSo + len
      omega
    · change info.nextSo + len < info.sdu.length
      omega

theorem WindowInv.sentLast (hseg : s.snUnderSegmentation = some (n % s.mod)) {p : Bool} {len : Nat}
    (hpolled : Polled { s with snUnderSegmentation := none } p t) :
    WindowInv { t with
      txWindow := s.txWindow.modify (n % s.mod) (fun i => { i with nextSo := i.nextSo + len })
      st := { t.st with txNext := s.nextSn s.st.txNext } } a (n + 1) hist := by
  have hseg' : t.snUnderSegmentation = none := hpolled.seg
  have htop : s.top n = n + 1 := top_of_some hseg
  refine h.update (n % s.mod) (fun i => { i with nextSo := i.nextSo + len }) hpolled.cfg
    hpolled.ack rfl ?_ (.inl hseg') (Nat.le_succ n) ?_ ?_
  · rw [nextSn, h.next, Nat.mod_add_mod]
  · rw [htop]
    exact top_of_none hseg'
  · intro k i hk hkt hi hki
    exact ⟨fun _ => ⟨hki.assigned, hki.ne_nil, by omega⟩,
      fun _ => ⟨hki.assigned, hki.ne_nil, by omega⟩⟩

theorem NewPdu.window (hseg : s.snUnderSegmentation = none)
    (hne : ∀ sdu q, s.sduQueue.read = (some sdu, q) → sdu.buf ≠ []) {grantLen : Nat} {pdu : List UInt8}
    (hp : NewPdu s grantLen pdu s') :
    ∃ n' hist', WindowInv s' a n' hist' ∧ s'.sduQueue.queue <:+ s.sduQueue.queue := by
  have hread := SduQueue.readLoop_queue s.sduQueue.queue s.sduQueue
  rw [← SduQueue.read] at hread
  cases hp with
  | blocked _ => exact ⟨n, hist, h, List.suffix_refl _⟩
  | drained hq =>
    rw [hq] at hread
    exact ⟨n, hist, h.congr rfl rfl rfl rfl rfl, hread.1⟩
  | full hfull hq _ hpoll =>
    rw [hq] at hread
    have hpolled := polled hpoll
    exact ⟨n + 1, _, h.sentFull hseg hfull (hne _ _ hq) hpolled, by
      rw [hpolled.sduQueue]
      exact hread.1⟩
  | first hfull hq hg hlong hpoll =>
    rw [hq] at hread
    have hpolled := polled hpoll
    exact ⟨n, _, h.sentFirst hseg hfull (Nat.sub_pos_of_lt hg) (by omega) hpolled, by
      rw [hpolled.sduQueue]
      exact hread.1⟩

theorem ContinuedPdu.window (hseg : s.snUnderSegmentation = some (n % s.mod)) {info : RlcTxAmSduInfo}
    (hinfo : s.txWindow.lookup (n % s.mod) = some info)
    {grantLen : Nat} {pdu : List UInt8} (hp : ContinuedPdu s grantLen (n % s.mod) info pdu s') :
    ∃ n', WindowInv s' a n' hist ∧ s'.sduQueue = s.sduQueue := by
  cases hp with
  | blocked _ => exact ⟨n, h, rfl⟩
  | middle hg hlong hpoll =>
    have hpolled := polled hpoll
    exact ⟨n, h.sentMiddle hseg hinfo (by omega) hpolled, hpolled.sduQueue⟩
  | last hfit hpoll =>
    have hpolled := polled hpoll
    exact ⟨n + 1, h.sentLast hseg hpolled, hpolled.sduQueue⟩

theorem RetxFrame.window (hf : RetxFrame s s') : WindowInv s' a n hist :=
  h.congr hf.cfg hf.ack hf.next hf.seg hf.txWindow

theorem pullPdu_window (hne : ∀ sdu ∈ s.sduQueue.queue, sdu.buf ≠ [])
    {grantLen : Nat} {status : Option RlcAmStatusPdu} {pdu : List UInt8}
    (hs : s.pullPdu grantLen status = .ok (pdu, s')) :
    ∃ n' hist', WindowInv s' a n' hist' ∧ s'.sduQueue.queue <:+ s.sduQueue.queue := by
  rcases pullPdu_cases h grantLen status with ⟨-, h1⟩ | ⟨report, -, h1⟩ | ⟨-, h1⟩ |
    ⟨info, -, hseg, hinfo, hok, h1⟩ | ⟨-, hseg, h1⟩
  · rw [h1] at hs
    cases hs
    exact ⟨n, hist, h, List.suffix_refl _⟩
  · rw [h1] at hs
    cases hs
    exact ⟨n, hist, h, List.suffix_refl _⟩
  · rw [h1] at hs
    have hf := buildRetxPdu_frame hs
    exact ⟨n, hist, hf.window h, by rw [hf.sduQueue]⟩
  · rw [h1] at hs
    have hpos := hok.progress rfl
    have hspec := buildContinuedSduSegment_spec s grantLen (n % s.mod) hpos.1 hpos.2
    rw [Except.ok.inj hs] at hspec
    obtain ⟨n', hw, hq⟩ := hspec.window h hseg hinfo
    exact ⟨n', hist, hw, by rw [hq]⟩
  · obtain ⟨pdu', t, ht, hspec⟩ := buildNewPdu_spec h hseg (fun _ _ => read_ne_nil hne) grantLen
    rw [h1, ht] at hs
    cases hs
    exact hspec.window h hseg (fun _ _ => read_ne_nil hne)

theorem pullPdu_fault (hne : ∀ sdu ∈ s.sduQueue.queue, sdu.buf ≠ [])
    {grantLen : Nat} {status : Option RlcAmStatusPdu} {f : Fault}
    (hs : s.pullPdu grantLen status = .error f) : f = .retxHeaderLen := by
  rcases pullPdu_cases h grantLen status with ⟨-, h1⟩ | ⟨report, -, h1⟩ | ⟨-, h1⟩ |
    ⟨info, -, hseg, hinfo, hok, h1⟩ | ⟨-, hseg, h1⟩
  · rw [h1] at hs
    cases hs
  · rw [h1] at hs
    cases hs
  · rw [h1] at hs
    exact buildRetxPdu_fault hs
  · rw [h1] at hs
    cases hs
  · obtain ⟨pdu', t, ht, -⟩ := buildNewPdu_spec h hseg (fun _ _ => read_ne_nil hne) grantLen
    rw [h1, ht] at hs
    cases hs

end

/-- The report in a control PDU that passes the sanity checks of the entity. -/
def receivedStatus (s : RlcTxAmEntity) (pdu : List UInt8) : Option RlcAmStatusPdu :=
  match RlcAmStatusPdu.unpack s.cfg.snFieldLength pdu with
  | .ok (some status) => if s.acceptsStatus status then some status else none
  | _ => none

def acksUnfinished (s : RlcTxAmEntity) (status : RlcAmStatusPdu) : Bool :=
  status.nacks.isEmpty && s.txModBase status.ackSn == s.txModBase (s.st.txNext + 1) &&
    s.snUnderSegmentation == some s.st.txNext

def nacksUnassigned (s : RlcTxAmEntity) (status : RlcAmStatusPdu) : Bool :=
  s.snUnderSegmentation.isNone &&
    status.nacks.any (fun nack => (nack.expand s.mod).any (·.nackSn == s.st.txNext))

theorem stopSn_bound (h : WindowInv s a n hist) {status : RlcAmStatusPdu}
    (hacc : s.acceptsStatus status = true) (hack : s.acksUnfinished status = false) :
    s.txModBase (stopSn status) ≤ s.amWindowSize ∧
      (a + s.txModBase (stopSn status) ≤ n ∨ s.snUnderSegmentation = none) := by
  simp only [acceptsStatus, Bool.and_eq_true, validAckSn, decide_eq_true_eq, List.all_eq_true,
    h.base_next_succ] at hacc
  obtain ⟨⟨⟨-, hw⟩, hnext⟩, hnacks⟩ := hacc
  have hle := h.le
  cases hn : status.nacks with
  | nil =>
    simp only [stopSn, hn]
    refine ⟨hw, ?_⟩
    rcases h.seg with hseg | hseg
    · exact .inr hseg
    · refine .inl (Nat.le_of_not_lt fun hgt => ?_)
      have hb : s.txModBase status.ackSn = s.txModBase (s.st.txNext + 1) := by
        rw [h.base_next_succ]
        omega
      have hseg' : s.snUnderSegmentation = some s.st.txNext := by rw [hseg, h.next]
      simp [acksUnfinished, hn, hb, hseg'] at hack
  | cons nack rest =>
    simp only [stopSn, hn]
    have hv := hnacks nack (by rw [hn]; exact List.mem_cons_self)
    simp only [validNack, Bool.and_eq_true, decide_eq_true_eq, insideTxWindow, h.base_next] at hv
    exact ⟨by omega, .inl (by omega)⟩

theorem handleStatusPdu_spec (h : WindowInv s a n hist) {status : RlcAmStatusPdu}
    (hacc : s.acceptsStatus status = true) (hack : s.acksUnfinished status = false)
    (statusBytes : Option Nat) :
    ∃ r s1 s2, Acked { s with pollRetransmitTimerRunning := r }
        (min (a + s.txModBase (stopSn status)) n) n hist s1 ∧
      RetxKeeps s1 s2 ∧
      s2.retxQueue = RlcRetxQueue.pop^[s.retxQueue.queue.length] s.retxQueue ∧
      s.handleStatusPdu status statusBytes = (do
        let (_, s3) ← nackLoop status.ackSn status.nacks none s2
        return (s3.updateMacBufferState true statusBytes).2) := by
  obtain ⟨hw, hstop⟩ := stopSn_bound h hacc hack
  obtain ⟨hlt, habs⟩ := exists_abs_txModBase h.ack (stopSn status)
  have hpoll : ∃ r, (if s.txModBase s.st.pollSn < s.txModBase status.ackSn then
      { s with pollRetransmitTimerRunning := false } else s) =
      { s with pollRetransmitTimerRunning := r } := by
    split
    · exact ⟨_, rfl⟩
    · exact ⟨s.pollRetransmitTimerRunning, rfl⟩
  obtain ⟨r, hr⟩ := hpoll
  have hinv : WindowInv { s with pollRetransmitTimerRunning := r } a n hist :=
    h.congr rfl rfl rfl rfl rfl
  obtain ⟨s1, hs1, hacked⟩ := ackLoop_spec hinv (stopSn status) s.mod
    (Nat.le_add_right a (s.txModBase (stopSn status))) (Nat.add_le_add_left hw a) habs hstop
    (by omega)
  obtain ⟨s2, hs2, hkeeps, hq⟩ := clearRetxQueue_spec s1.retxQueue.queue s1
  have hq1 : s1.retxQueue = s.retxQueue := by
    obtain ⟨w, rfl⟩ := hacked.eq
    rfl
  refine ⟨r, s1, s2, hacked, hkeeps, by rw [hq, hq1], ?_⟩
  have hmod : ({ s with pollRetransmitTimerRunning := r } : RlcTxAmEntity).mod = s.mod := rfl
  unfold handleStatusPdu
  simp only [hacc, Bool.not_true, Bool.false_eq_true, if_false, hr, hmod, hs1, ok_bind, hs2]

theorem handleStatusPdu_window (h : WindowInv s a n hist) {status : RlcAmStatusPdu}
    (hwf : ∀ nack ∈ status.nacks, nack.nackSn < s.mod)
    (hack : s.acceptsStatus status = true → s.acksUnfinished status = false)
    {statusBytes : Option Nat} (hs : s.handleStatusPdu status statusBytes = .ok s') :
    ∃ a', WindowInv s' a' n hist ∧ s'.sduQueue.queue <:+ s.sduQueue.queue := by
  cases hacc : s.acceptsStatus status with
  | false =>
    simp only [handleStatusPdu, hacc, Bool.not_false, if_true] at hs
    cases hs
    exact ⟨a, h, List.suffix_refl _⟩
  | true =>
    obtain ⟨r, s1, s2, hacked, hk, -, heq⟩ := handleStatusPdu_spec h hacc (hack hacc) statusBytes
    rw [heq] at hs
    obtain ⟨⟨res, s3⟩, h3, hs⟩ := bind_eq_ok.mp hs
    cases hs
    obtain ⟨w, hw⟩ := hacked.eq
    have hmod1 : s1.mod = s.mod := by rw [hw]; rfl
    have hq1 : s1.sduQueue = s.sduQueue := by rw [hw]
    obtain ⟨hk3, -⟩ := nackLoop_keeps (P := fun _ => True)
      (by rw [hk.mod, hmod1]; exact hwf) (fun _ _ _ _ _ _ _ _ => trivial) h3
    have hb := updateMacBufferState_keeps s3 true statusBytes
    refine ⟨_, ((hacked.inv.keeps hk).keeps hk3).buffer hb, ?_⟩
    have hsuffix := hb.queue_suffix
    rwa [hk3.sduQueue, hk.sduQueue, hq1] at hsuffix

theorem handleStatusPdu_ok (h : WindowInv s a n hist) {status : RlcAmStatusPdu}
    (hwf : ∀ nack ∈ status.nacks, nack.nackSn < s.mod)
    (hack : s.acceptsStatus status = true → s.acksUnfinished status = false)
    (hnack : s.acceptsStatus status = true → s.nacksUnassigned status = false)
    (statusBytes : Option Nat) : ∃ s', s.handleStatusPdu status statusBytes = .ok s' := by
  cases hacc : s.acceptsStatus status with
  | false => exact ⟨s, by simp [handleStatusPdu, hacc]⟩
  | true =>
    obtain ⟨r, s1, s2, hacked, hk, -, heq⟩ := handleStatusPdu_spec h hacc (hack hacc) statusBytes
    obtain ⟨w, hw⟩ := hacked.eq
    have hmod1 : s2.mod = s.mod := by rw [hk.mod, hw]; rfl
    have hnext1 : s2.st.txNext = s.st.txNext := by rw [hk.st, hw]
    have hseg1 : s2.snUnderSegmentation = s.snUnderSegmentation := by rw [hk.seg, hw]
    obtain ⟨⟨res, s3⟩, h3⟩ := nackLoop_ok (hacked.inv.keeps hk) status.ackSn none
      (by rw [hmod1]; exact hwf) (by
        intro nack hn item hitem hsn hseg
        rw [hmod1] at hitem
        rw [hnext1] at hsn
        rw [hseg1] at hseg
        have hno := hnack hacc
        simp only [nacksUnassigned, hseg, Option.isNone_none, Bool.true_and, List.any_eq_false,
          List.any_eq_true, not_exists, not_and] at hno
        exact hno nack hn item hitem (by simpa using hsn))
    exact ⟨_, by rw [heq, h3]; rfl⟩

theorem onExpiredPollRetransmitTimer_spec (s : RlcTxAmEntity) (statusBytes : Option Nat) :
    ∃ s', s.onExpiredPollRetransmitTimer statusBytes = .ok s' ∧
      (s' = { s with pollRetransmitTimerRunning := false } ∨
        ∃ s1 info, s.txWindow.lookup s.st.txNextAck = some info ∧
          ((s.sduQueue.isEmpty = true ∧ s.retxQueue.empty = true ∧ s.snUnderSegmentation = none) ∨
            s.isTxWindowFull = true) ∧
          RetxKeeps { s with pollRetransmitTimerRunning := false } s1 ∧
          (s1.retxQueue = s.retxQueue ∨
            s.retxQueue.tryPush { sn := s.st.txNextAck, so := 0, length := info.sdu.length } =
              some s1.retxQueue) ∧
          s' = (s1.updateMacBufferState true statusBytes).2) := by
  unfold onExpiredPollRetransmitTimer
  simp only
  split
  · rename_i hcond
    split
    · exact ⟨_, rfl, .inl rfl⟩
    · split
      · exact ⟨_, rfl, .inl rfl⟩
      · rename_i info hinfo
        have hidle : (s.sduQueue.isEmpty = true ∧ s.retxQueue.empty = true ∧
            s.snUnderSegmentation = none) ∨ s.isTxWindowFull = true := by
          rw [Bool.or_eq_true, Bool.and_eq_true, Bool.and_eq_true, Option.isNone_iff_eq_none] at hcond
          rcases hcond with ⟨⟨h1, h2⟩, h3⟩ | hfull
          · exact .inl ⟨h1, h2, h3⟩
          · exact .inr hfull
        split
        · rename_i q hq
          have hcont : ({ s with pollRetransmitTimerRunning := false, retxQueue := q } :
              RlcTxAmEntity).txWindow.contains s.st.txNextAck = true := by
            simp [CircularMap.contains, hinfo]
          obtain ⟨s1, hs1⟩ := setRetxCount_ok hcont
            (fun n => if n = retxCountNotStarted then 0 else (n + 1) % 2 ^ 32)
          obtain ⟨hk, hq1⟩ := RetxKeeps.setRetxCount hs1
          refine ⟨_, by rw [incrementRetxCount, hs1]; rfl, .inr ⟨s1, info, hinfo, hidle, ?_, ?_, rfl⟩⟩
          · exact (RetxKeeps.of_retx _ q s.retxSn).trans hk
          · exact .inr (by rw [hq1]; exact hq)
        · exact ⟨_, rfl, .inr ⟨_, info, hinfo, hidle, .refl _, .inl rfl, rfl⟩⟩
  · exact ⟨_, rfl, .inl rfl⟩

/-- The window is tracked by absolute positions, and every queued SDU has a byte to send. -/
def Tracked (s : RlcTxAmEntity) : Prop :=
  (∃ a n hist, WindowInv s a n hist) ∧ ∀ sdu ∈ s.sduQueue.queue, sdu.buf ≠ []

/-- SDUs are not empty, and no report acknowledges the SDU that is still being segmented. -/
def acksAssigned (s : RlcTxAmEntity) : TxEvent → Bool
  | .handleSdu buf _ _ => !buf.isEmpty
  | .controlPdu pdu _ => (s.receivedStatus pdu).all (fun status => !s.acksUnfinished status)
  | _ => true

/-- In addition no report NACKs TX_Next before it has been given to an SDU. -/
def nacksAssigned (s : RlcTxAmEntity) (e : TxEvent) : Bool :=
  s.acksAssigned e &&
    match e with
    | .controlPdu pdu _ => (s.receivedStatus pdu).all (fun status => !s.nacksUnassigned status)
    | _ => true

theorem Tracked.of_suffix (h : Tracked s) (hw : ∃ a n hist, WindowInv s' a n hist)
    (hq : s'.sduQueue.queue <:+ s.sduQueue.queue) : Tracked s' :=
  ⟨hw, fun sdu hm => h.2 sdu (hq.mem hm)⟩

theorem Tracked.buffer (h : Tracked s) (hk : BufferKeeps s s') : Tracked s' := by
  obtain ⟨a, n, hist, hinv⟩ := h.1
  exact h.of_suffix ⟨a, n, hist, hinv.buffer hk⟩ hk.queue_suffix

theorem Tracked.keeps (h : Tracked s) (hk : RetxKeeps s s') : Tracked s' := by
  obtain ⟨a, n, hist, hinv⟩ := h.1
  exact h.of_suffix ⟨a, n, hist, hinv.keeps hk⟩ (by rw [hk.sduQueue])

theorem receivedStatus_of_unpack {pdu : List UInt8} {status : RlcAmStatusPdu}
    (hu : RlcAmStatusPdu.unpack s.cfg.snFieldLength pdu = .ok (some status))
    (hacc : s.acceptsStatus status = true) : s.receivedStatus pdu = some status := by
  simp [receivedStatus, hu, hacc]

/-- What the entity does in reaction to an event, with the PDU that it hands over. -/
inductive Reacts (s : RlcTxAmEntity) : TxEvent → List UInt8 → RlcTxAmEntity → Prop
  | handleSdu (buf : List UInt8) (isRetx : Bool) (now : Nat) (p : Bool) : Reacts s (.handleSdu buf isRetx now) []
      { s with sduQueue := (s.sduQueue.write (s.newSdu buf isRetx now)).2, pendingBufferState := p }
  | discardSdu (pdcpSn : Nat) (p : Bool) : Reacts s (.discardSdu pdcpSn) []
      { s with sduQueue := (s.sduQueue.tryDiscard pdcpSn).2, pendingBufferState := p }
  | pullPdu {grantLen status pdu t} (h : s.pullPdu grantLen status = .ok (pdu, t)) :
      Reacts s (.pullPdu grantLen status) pdu t
  | controlPdu {pdu statusBytes t} (h : s.handleControlPdu pdu statusBytes = .ok t) :
      Reacts s (.controlPdu pdu statusBytes) [] t
  | pollRetransmit {statusBytes t} (h : s.onExpiredPollRetransmitTimer statusBytes = .ok t) :
      Reacts s (.pollRetransmitExpired statusBytes) [] t
  | notRunning (statusBytes : Option Nat) : Reacts s (.pollRetransmitExpired statusBytes) [] s
  | updateMac {statusBytes t} (h : BufferKeeps s t) : Reacts s (.updateMacBufferState statusBytes) [] t
  | getBuffer {statusBytes t} (h : BufferKeeps s t) : Reacts s (.getBufferState statusBytes) [] t
  | stop : Reacts s .stop [] { s with stoppedLower := true, pollRetransmitTimerRunning := false }

theorem react_cases {e : TxEvent} {pdu : List UInt8} (hr : s.react e = .ok (pdu, s')) : Reacts s e pdu s' := by
  cases e with
  | handleSdu buf isRetx now =>
    cases hr
    unfold RlcTxAmEntity.handleSdu
    split <;> rename_i hres
    · have h := Reacts.handleSdu (s := s) buf isRetx now true
      rwa [hres] at h
    · have h := Reacts.handleSdu (s := s) buf isRetx now s.pendingBufferState
      rwa [hres] at h
  | discardSdu pdcpSn =>
    cases hr
    unfold RlcTxAmEntity.discardSdu
    split <;> rename_i hres
    · have h := Reacts.discardSdu (s := s) pdcpSn true
      rwa [hres] at h
    · have h := Reacts.discardSdu (s := s) pdcpSn s.pendingBufferState
      rwa [hres] at h
  | pullPdu grantLen status => exact .pullPdu hr
  | controlPdu pdu statusBytes =>
    obtain ⟨t, ht, hr⟩ := bind_eq_ok.mp hr
    cases hr
    exact .controlPdu ht
  | pollRetransmitExpired statusBytes =>
    rw [react] at hr
    split at hr
    · obtain ⟨t, ht, hr⟩ := bind_eq_ok.mp hr
      cases hr
      exact .pollRetransmit ht
    · cases hr
      exact .notRunning statusBytes
  | updateMacBufferState statusBytes =>
    cases hr
    exact .updateMac (updateMacBufferState_keeps _ _ _)
  | getBufferState statusBytes =>
    cases hr
    exact .getBuffer (getBufferState_keeps _ _)
  | stop =>
    cases hr
    exact .stop

theorem step_cases {e : TxEvent} (hs : s.step e = .ok s') : ∃ pdu, Reacts s e pdu s' := by
  obtain ⟨⟨pdu, t⟩, hr, hs⟩ := bind_eq_ok.mp hs
  cases hs
  exact ⟨pdu, react_cases hr⟩

theorem Tracked.handleSdu (h : Tracked s) {buf : List UInt8} (hne : buf ≠ []) (isRetx : Bool) (now : Nat) (p : Bool) :
    Tracked { s with
      sduQueue := (s.sduQueue.write (s.newSdu buf isRetx now)).2, pendingBufferState := p } := by
  obtain ⟨⟨a, n, hist, hinv⟩, hq⟩ := h
  refine ⟨⟨a, n, hist, hinv.congr rfl rfl rfl rfl rfl⟩, ?_⟩
  intro sdu hm
  rcases s.sduQueue.write_queue (s.newSdu buf isRetx now) with hw | hw
  · exact hq sdu (by rw [← hw]; exact hm)
  · simp only [hw, List.mem_append, List.mem_singleton] at hm
    rcases hm with hm | rfl
    · exact hq sdu hm
    · exact hne

theorem Tracked.discardSdu (h : Tracked s) (pdcpSn : Nat) (p : Bool) :
    Tracked { s with sduQueue := (s.sduQueue.tryDiscard pdcpSn).2, pendingBufferState := p } := by
  obtain ⟨a, n, hist, hinv⟩ := h.1
  refine h.of_suffix ⟨a, n, hist, hinv.congr rfl rfl rfl rfl rfl⟩ ?_
  simp only [SduQueue.tryDiscard_queue, List.suffix_refl]

theorem Tracked.handleControlPdu (h : Tracked s) {pdu : List UInt8} {statusBytes : Option Nat}
    (hadm : s.acksAssigned (.controlPdu pdu statusBytes) = true)
    (hs : s.handleControlPdu pdu statusBytes = .ok s') : Tracked s' := by
  obtain ⟨a, n, hist, hinv⟩ := h.1
  obtain ⟨res, hu, hs⟩ := bind_eq_ok.mp hs
  cases res with
  | none =>
    cases hs
    exact h
  | some status =>
    have hwf := RlcAmStatusPdu.unpack_wf hu
    have hack : s.acceptsStatus status = true → s.acksUnfinished status = false := by
      intro hacc
      simpa [acksAssigned, receivedStatus_of_unpack hu hacc] using hadm
    obtain ⟨a', hw, hq⟩ := handleStatusPdu_window hinv (fun nack hn => (hwf nack hn).nackSn_lt) hack hs
    exact h.of_suffix ⟨a', n, hist, hw⟩ hq

theorem Tracked.onExpiredPollRetransmitTimer (h : Tracked s) {statusBytes : Option Nat}
    (hs : s.onExpiredPollRetransmitTimer statusBytes = .ok s') : Tracked s' := by
  have h0 : Tracked { s with pollRetransmitTimerRunning := false } := by
    obtain ⟨⟨a, n, hist, hinv⟩, hq⟩ := h
    exact ⟨⟨a, n, hist, hinv.congr rfl rfl rfl rfl rfl⟩, hq⟩
  obtain ⟨t, ht, hcase⟩ := onExpiredPollRetransmitTimer_spec s statusBytes
  rw [ht] at hs
  cases hs
  rcases hcase with rfl | ⟨s1, info, -, -, hk, -, rfl⟩
  · exact h0
  · exact (h0.keeps hk).buffer (updateMacBufferState_keeps _ _ _)

theorem Tracked.step (h : Tracked s) {e : TxEvent} (hadm : s.acksAssigned e = true)
    (hs : s.step e = .ok s') : Tracked s' := by
  obtain ⟨pdu, hr⟩ := step_cases hs
  cases hr with
  | handleSdu buf isRetx now p => exact h.handleSdu (by simpa [acksAssigned] using hadm) isRetx now p
  | discardSdu pdcpSn p => exact h.discardSdu pdcpSn p
  | pullPdu hp =>
    obtain ⟨⟨a, n, hist, hinv⟩, hne⟩ := h
    obtain ⟨n', hist', hw, hq⟩ := pullPdu_window hinv hne hp
    exact Tracked.of_suffix ⟨⟨a, n, hist, hinv⟩, hne⟩ ⟨a, n', hist', hw⟩ hq
  | controlPdu hc => exact h.handleControlPdu hadm hc
  | pollRetransmit hp => exact h.onExpiredPollRetransmitTimer hp
  | notRunning => exact h
  | updateMac hb | getBuffer hb => exact h.buffer hb
  | stop =>
    obtain ⟨⟨a, n, hist, hinv⟩, hq⟩ := h
    exact ⟨⟨a, n, hist, hinv.congr rfl rfl rfl rfl rfl⟩, hq⟩

theorem acksAssigned_of_nacksAssigned {e : TxEvent} (h : s.nacksAssigned e = true) :
    s.acksAssigned e = true := by
  unfold nacksAssigned at h
  rw [Bool.and_eq_true] at h
  exact h.1

theorem Tracked.step_fault (h : Tracked s) {e : TxEvent} (hadm : s.nacksAssigned e = true)
    {f : Fault} (hs : s.step e = .error f) : f = .retxHeaderLen := by
  obtain ⟨⟨a, n, hist, hinv⟩, hne⟩ := h
  rcases bind_eq_error.mp hs with hr | ⟨_, -, hs⟩
  · cases e with
    | handleSdu buf isRetx now => cases hr
    | discardSdu pdcpSn => cases hr
    | pullPdu grantLen status => exact pullPdu_fault hinv hne hr
    | controlPdu pdu statusBytes =>
      rw [nacksAssigned, Bool.and_eq_true] at hadm
      obtain ⟨res, hu, -⟩ := RlcAmStatusPdu.unpackAs_total s.cfg.snFieldLength pdu
      rw [← RlcAmStatusPdu.unpack_eq_unpackAs] at hu
      have hok : ∃ s', s.handleControlPdu pdu statusBytes = .ok s' := by
        rw [RlcTxAmEntity.handleControlPdu, hu]
        cases res with
        | none => exact ⟨s, rfl⟩
        | some status =>
          have hwf := RlcAmStatusPdu.unpack_wf hu
          refine handleStatusPdu_ok hinv (fun nack hn => (hwf nack hn).nackSn_lt) ?_ ?_ statusBytes
          · intro hacc
            simpa [acksAssigned, receivedStatus_of_unpack hu hacc] using hadm.1
          · intro hacc
            simpa [receivedStatus_of_unpack hu hacc] using hadm.2
      obtain ⟨s', hs'⟩ := hok
      rw [react, hs'] at hr
      cases hr
    | pollRetransmitExpired statusBytes =>
      rw [react] at hr
      obtain ⟨t, ht, -⟩ := onExpiredPollRetransmitTimer_spec s statusBytes
      rw [ht] at hr
      split at hr <;> cases hr
    | updateMacBufferState statusBytes => cases hr
    | getBufferState statusBytes => cases hr
    | stop => cases hr
  · cases hs

theorem Tracked.new (cfg : RlcTxAmConfig) : Tracked (RlcTxAmEntity.new cfg) :=
  ⟨⟨0, 0, [], .new cfg⟩, by simp [RlcTxAmEntity.new, SduQueue.new]⟩

/-- In every run without empty SDUs, and without a report that acknowledges the SDU under
segmentation, the TX window is exact in every state reached. -/
theorem tx_window_exact (cfg : RlcTxAmConfig) (events : List TxEvent)
    (hadm : Machine.Admits step (fun s e => s.acksAssigned e = true) (new cfg) events)
    {s : RlcTxAmEntity} (hrun : Machine.run step (new cfg) events = .ok s) : s.WindowExact := by
  have hinv := Machine.run_invariant Tracked (fun s e s' hi ha hs => hi.step ha hs)
    (Tracked.new cfg) hadm hrun
  obtain ⟨⟨a, n, hist, hw⟩, -⟩ := hinv
  exact hw.exact

def drbConfig : RlcTxAmConfig where
  snFieldLength := .size12bits
  pdcpSnLen := .size12bits
  isSrb := false
  tPollRetx := 45
  maxRetxThresh := 4
  pollPdu := 4
  pollByte := -1
  queueSize := 16
  queueSizeBytes := 1000
  maxWindow := 0

theorem tx_window_exact_segmented :
    ∃ s, Machine.run step (new drbConfig)
        [.handleSdu (List.replicate 10 7) false 0, .pullPdu 5 none, .pullPdu 100 none,
          .controlPdu [0, 1, 0] none] = .ok s ∧ s.st.txNextAck = 1 ∧ s.WindowExact := by
  refine ⟨_, rfl, by decide, ?_⟩
  exact tx_window_exact drbConfig
    [.handleSdu (List.replicate 10 7) false 0, .pullPdu 5 none, .pullPdu 100 none,
      .controlPdu [0, 1, 0] none] (by decide) rfl

/-- The first segment of an SDU is sent and ACK_SN = 1 acknowledges it: TX_Next_Ack overtakes
TX_Next. -/
theorem ack_of_segmented_sdu_overtakes :
    ¬ ∀ (cfg : RlcTxAmConfig) (events : List TxEvent) (s : RlcTxAmEntity),
      Machine.run step (new cfg) events = .ok s → s.WindowExact := by
  intro h
  have hexact := h drbConfig [.handleSdu (List.replicate 10 7) false 0, .pullPdu 5 none,
    .controlPdu [0, 1, 0] none] _ rfl
  exact absurd hexact.1 (by decide)

/-- In every run as above, in which no report NACKs TX_Next before an SDU has it either, no
absent SN is read from the TX window. -/
theorem tx_window_never_absent (cfg : RlcTxAmConfig) (events : List TxEvent)
    (hadm : Machine.Admits step (fun s e => s.nacksAssigned e = true) (new cfg) events) :
    Machine.run step (new cfg) events ≠ .error .absentSn := by
  intro hrun
  have hf := Machine.run_fault Tracked (fun f => f = .retxHeaderLen)
    (fun s e s' hi ha hs => hi.step (acksAssigned_of_nacksAssigned ha) hs)
    (fun s e f hi ha hs => hi.step_fault ha hs) (Tracked.new cfg) hadm hrun
  cases hf

/-- The SDU under segmentation is NACKed, and retransmitted after its last segment. -/
theorem tx_window_never_absent_nacked :
    Machine.run step (new drbConfig)
        [.handleSdu (List.replicate 10 7) false 0, .pullPdu 5 none, .controlPdu [0, 1, 0x80, 0, 0] none,
          .pullPdu 5 none, .pullPdu 100 none] ≠ .error .absentSn :=
  tx_window_never_absent drbConfig _ (by decide)

/-- A report with ACK_SN = 1 and a NACK for SN 0 reaches an entity that has sent nothing. -/
theorem nack_of_unassigned_sn_is_read :
    ¬ ∀ (cfg : RlcTxAmConfig) (events : List TxEvent),
      Machine.run step (new cfg) events ≠ .error .absentSn := by
  intro h
  exact h drbConfig [.controlPdu [0, 1, 0x80, 0, 0] none] rfl

end Ocudu.Rlc.RlcTxAmEntity
