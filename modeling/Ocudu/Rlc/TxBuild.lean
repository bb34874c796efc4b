import Ocudu.Rlc.TxWindow

/-! What one call of `pull_pdu` can do: one inversion lemma for each of the PDU builders. -/

namespace Ocudu.Rlc.RlcTxAmEntity

variable {s s' : RlcTxAmEntity} {a n k : Nat} {hist : List (List UInt8)}

/-- `s'` is `s` after the polling bit `p` of a PDU has been decided. -/
structure Polled (s : RlcTxAmEntity) (p : Bool) (s' : RlcTxAmEntity) : Prop where
  eq : ∃ st running, s' = { s with st := st, pollRetransmitTimerRunning := running }
  ack : s'.st.txNextAck = s.st.txNextAck
  next : s'.st.txNext = s.st.txNext
  last : s.sduQueue.isEmpty = true → s.retxQueue.empty = true → s.snUnderSegmentation = none → p = true
  timer : p = true → s.cfg.tPollRetx > 0 → s.stoppedLower = false →
    s'.pollRetransmitTimerRunning = true

theorem getPollingBit_polled (s : RlcTxAmEntity) (sn : Nat) (isRetx : Bool) (payloadSize : Nat) :
    Polled s (s.getPollingBit sn isRetx payloadSize).1 (s.getPollingBit sn isRetx payloadSize).2 := by
  cases isRetx with
  | true =>
    simp only [getPollingBit, if_true, Bool.false_or]
    split
    · rename_i hp
      exact ⟨⟨_, _, rfl⟩, rfl, rfl, fun _ _ _ => rfl, fun _ ht hs => by simp [ht, hs]⟩
    · rename_i hp
      refine ⟨⟨_, _, rfl⟩, rfl, rfl, fun h1 h2 h3 => ?_, fun h => by cases h⟩
      simp [h1, h2, h3] at hp
  | false =>
    simp only [getPollingBit, Bool.false_eq_true, if_false]
    split
    · rename_i hp
      exact ⟨⟨_, _, rfl⟩, rfl, rfl, fun _ _ _ => rfl, fun _ ht hs => by simp [ht, hs]⟩
    · rename_i hp
      refine ⟨⟨_, _, rfl⟩, rfl, rfl, fun h1 h2 h3 => ?_, fun h => by cases h⟩
      simp [h1, h2, h3] at hp

theorem polled {sn : Nat} {isRetx : Bool} {payloadSize : Nat} {p : Bool}
    (h : s.getPollingBit sn isRetx payloadSize = (p, s')) : Polled s p s' := by
  have := getPollingBit_polled s sn isRetx payloadSize
  rwa [h] at this

theorem exists_polled (s : RlcTxAmEntity) (sn : Nat) (isRetx : Bool) (payloadSize : Nat) :
    ∃ p t, s.getPollingBit sn isRetx payloadSize = (p, t) ∧ Polled s p t :=
  ⟨_, _, rfl, getPollingBit_polled s sn isRetx payloadSize⟩

namespace Polled

theorem cfg {p : Bool} (h : Polled s p s') : s'.cfg = s.cfg := by
  obtain ⟨st, running, rfl⟩ := h.eq
  rfl

theorem txWindow {p : Bool} (h : Polled s p s') : s'.txWindow = s.txWindow := by
  obtain ⟨st, running, rfl⟩ := h.eq
  rfl

theorem seg {p : Bool} (h : Polled s p s') : s'.snUnderSegmentation = s.snUnderSegmentation := by
  obtain ⟨st, running, rfl⟩ := h.eq
  rfl

theorem retxQueue {p : Bool} (h : Polled s p s') : s'.retxQueue = s.retxQueue := by
  obtain ⟨st, running, rfl⟩ := h.eq
  rfl

theorem sduQueue {p : Bool} (h : Polled s p s') : s'.sduQueue = s.sduQueue := by
  obtain ⟨st, running, rfl⟩ := h.eq
  rfl

theorem maxRetxReached {p : Bool} (h : Polled s p s') : s'.maxRetxReached = s.maxRetxReached := by
  obtain ⟨st, running, rfl⟩ := h.eq
  rfl

theorem stoppedLower {p : Bool} (h : Polled s p s') : s'.stoppedLower = s.stoppedLower := by
  obtain ⟨st, running, rfl⟩ := h.eq
  rfl

end Polled

theorem segment_length {sdu : List UInt8} {so length : Nat} (h : so + length ≤ sdu.length) :
    (segment sdu so length).length = length := by
  simp only [segment, List.length_take, List.length_drop]
  omega

theorem writePdu_eq {hdr : RlcAmPduHeader} {payload : List UInt8} (h : payload ≠ []) :
    writePdu hdr payload = rlcAmWriteDataPduHeader hdr ++ payload := by
  simp [writePdu, h]

def newHdr (s : RlcTxAmEntity) (p : Bool) (si : RlcSiField) (so : Nat) : RlcAmPduHeader :=
  { p, si, snSize := s.cfg.snFieldLength, sn := s.st.txNext, so }

def stored (s : RlcTxAmEntity) (sdu : RlcSdu) (q : SduQueue) : RlcTxAmEntity :=
  { s with
    sduQueue := q
    txWindow := s.txWindow.overwrite s.st.txNext (RlcTxAmSduInfo.ofSdu sdu) }

/-- The ways in which `build_new_pdu` can end for non-empty SDUs. -/
inductive NewPdu (s : RlcTxAmEntity) (grantLen : Nat) : List UInt8 → RlcTxAmEntity → Prop
  | blocked : grantLen ≤ s.headMinSize ∨ s.isTxWindowFull = true → NewPdu s grantLen [] s
  | drained : s.sduQueue.read = (none, q) → NewPdu s grantLen [] { s with sduQueue := q }
  | full : s.isTxWindowFull = false → s.sduQueue.read = (some sdu, q) →
      sdu.buf.length + s.headMinSize ≤ grantLen →
      (s.stored sdu q).getPollingBit s.st.txNext false 0 = (p, t) →
      NewPdu s grantLen (writePdu (s.newHdr p .fullSdu 0) sdu.buf)
        { t with st := { t.st with txNext := s.nextSn s.st.txNext } }
  | first : s.isTxWindowFull = false → s.sduQueue.read = (some sdu, q) →
      s.headMinSize < grantLen → grantLen < sdu.buf.length + s.headMinSize →
      ({ s.stored sdu q with snUnderSegmentation := some s.st.txNext } : RlcTxAmEntity).getPollingBit
        s.st.txNext false (grantLen - s.headMinSize) = (p, t) →
      NewPdu s grantLen
        (writePdu (s.newHdr p .firstSegment 0) (segment sdu.buf 0 (grantLen - s.headMinSize)))
        { t with
          txWindow := s.txWindow.overwrite s.st.txNext
            { RlcTxAmSduInfo.ofSdu sdu with nextSo := grantLen - s.headMinSize } }

theorem isTxWindowFull_false (h : s.isTxWindowFull = false) : s.txWindow.full = false := by
  simp only [isTxWindowFull, Bool.or_eq_false_iff] at h
  exact h.1

theorem buildFirstSduSegment_new (h : WindowInv s a n hist) (hseg : s.snUnderSegmentation = none)
    {grantLen : Nat} {sdu : RlcSdu} {q : SduQueue} (hfull : s.isTxWindowFull = false)
    (hread : s.sduQueue.read = (some sdu, q)) (hg : s.headMinSize < grantLen)
    (hlong : grantLen < sdu.buf.length + s.headMinSize) :
    NewPdu s grantLen ((s.stored sdu q).buildFirstSduSegment grantLen (.ofSdu sdu)).1
      ((s.stored sdu q).buildFirstSduSegment grantLen (.ofSdu sdu)).2 := by
  have hfree := h.next_free hseg (h.lt_of_not_full hseg (isTxWindowFull_false hfull))
  have hhead : (s.stored sdu q).headMinSize = s.headMinSize := rfl
  have hnext : (s.stored sdu q).st.txNext = s.st.txNext := rfl
  have hsdu : (RlcTxAmSduInfo.ofSdu sdu).sdu = sdu.buf := rfl
  have hlen : (segment sdu.buf 0 (grantLen - s.headMinSize)).length = grantLen - s.headMinSize :=
    segment_length (by omega)
  obtain ⟨p, t, hpoll, hpolled⟩ := exists_polled
    { s.stored sdu q with snUnderSegmentation := some s.st.txNext } s.st.txNext false
    (grantLen - s.headMinSize)
  have hmodify := CircularMap.modify_overwrite_of_free hfree (RlcTxAmSduInfo.ofSdu sdu)
    (fun i => { i with nextSo := i.nextSo + (grantLen - s.headMinSize) })
  have hres := NewPdu.first hfull hread hg hlong hpoll
  have hwin : t.txWindow = s.txWindow.overwrite s.st.txNext (.ofSdu sdu) := hpolled.txWindow
  have hcfg : t.cfg = s.cfg := hpolled.cfg
  have htn : t.st.txNext = s.st.txNext := hpolled.next
  have hso : (RlcTxAmSduInfo.ofSdu sdu).nextSo = 0 := rfl
  rw [buildFirstSduSegment, hhead, hsdu, if_neg (by omega), if_neg (by omega)]
  simp only [hnext, hpoll, hso, Nat.zero_mod]
  rw [if_neg (by rw [hlen]; omega), hwin, htn, hmodify]
  simp only [hcfg, hso, Nat.zero_add] at hres ⊢
  exact hres

theorem buildNewPdu_spec (h : WindowInv s a n hist) (hseg : s.snUnderSegmentation = none)
    (hne : ∀ sdu q, s.sduQueue.read = (some sdu, q) → sdu.buf ≠ []) (grantLen : Nat) :
    ∃ pdu s', s.buildNewPdu grantLen = .ok (pdu, s') ∧ NewPdu s grantLen pdu s' := by
  unfold buildNewPdu
  by_cases hg : grantLen ≤ s.headMinSize
  · exact ⟨[], s, by rw [if_pos hg], .blocked (.inl hg)⟩
  rw [if_neg hg]
  cases hfull : s.isTxWindowFull with
  | true => exact ⟨[], s, by simp, .blocked (.inr hfull)⟩
  | false =>
    simp only [Bool.false_eq_true, if_false]
    cases hread : s.sduQueue.read with
    | mk res q =>
      cases res with
      | none => exact ⟨[], _, rfl, .drained hread⟩
      | some sdu =>
        have hnil := hne sdu q hread
        have habs := h.next_absent hseg (h.lt_of_not_full hseg (isTxWindowFull_false hfull))
        have hcont : s.txWindow.contains s.st.txNext = false := by
          simp [CircularMap.contains, habs]
        simp only [hcont, Bool.false_eq_true, if_false]
        by_cases hlong : (RlcTxAmSduInfo.ofSdu sdu).sdu.length + s.headMinSize > grantLen
        · refine ⟨_, _, ?_, buildFirstSduSegment_new h hseg hfull hread (by omega) hlong⟩
          have hlong' : (RlcTxAmSduInfo.ofSdu sdu).sdu.length + (s.stored sdu q).headMinSize >
              grantLen := hlong
          simp only [stored] at hlong' ⊢
          rw [if_pos hlong']
        · obtain ⟨p, t, hpoll, hpolled⟩ := exists_polled (s.stored sdu q) s.st.txNext false 0
          have hfit : sdu.buf.length + s.headMinSize ≤ grantLen := Nat.le_of_not_lt hlong
          have hpos : (RlcTxAmSduInfo.ofSdu sdu).sdu.length ≠ 0 := by
            have := List.length_pos_of_ne_nil hnil
            simp only [RlcTxAmSduInfo.ofSdu]
            omega
          refine ⟨_, _, ?_, NewPdu.full hfull hread hfit hpoll⟩
          have hlong' : ¬ (RlcTxAmSduInfo.ofSdu sdu).sdu.length + (s.stored sdu q).headMinSize >
              grantLen := hlong
          have hnext : t.st.txNext = s.st.txNext := hpolled.next
          have hcfg : t.cfg = s.cfg := hpolled.cfg
          simp only [stored] at hlong' hpoll ⊢
          rw [if_neg hlong']
          simp only [hpoll, if_neg hpos, nextSn, mod, newHdr, hnext, hcfg]
          rfl

/-- The ways in which `build_continued_sdu_segment` can end for the SDU under segmentation. -/
inductive ContinuedPdu (s : RlcTxAmEntity) (grantLen sn : Nat) (info : RlcTxAmSduInfo) :
    List UInt8 → RlcTxAmEntity → Prop
  | blocked : grantLen ≤ s.headMaxSize → ContinuedPdu s grantLen sn info [] s
  | middle : s.headMaxSize < grantLen →
      grantLen < info.sdu.length - info.nextSo + s.headMaxSize →
      s.getPollingBit s.st.txNext false (grantLen - s.headMaxSize) = (p, t) →
      ContinuedPdu s grantLen sn info
        (writePdu (s.newHdr p .middleSegment (info.nextSo % 2 ^ 16))
          (segment info.sdu (info.nextSo % 2 ^ 16) (grantLen - s.headMaxSize)))
        { t with
          txWindow := s.txWindow.modify sn
            (fun i => { i with nextSo := i.nextSo + (grantLen - s.headMaxSize) }) }
  | last : info.sdu.length - info.nextSo + s.headMaxSize ≤ grantLen →
      ({ s with snUnderSegmentation := none } : RlcTxAmEntity).getPollingBit s.st.txNext false
        (info.sdu.length - info.nextSo) = (p, t) →
      ContinuedPdu s grantLen sn info
        (writePdu (s.newHdr p .lastSegment (info.nextSo % 2 ^ 16))
          (segment info.sdu (info.nextSo % 2 ^ 16) (info.sdu.length - info.nextSo)))
        { t with
          txWindow := s.txWindow.modify sn
            (fun i => { i with nextSo := i.nextSo + (info.sdu.length - info.nextSo) })
          st := { t.st with txNext := s.nextSn s.st.txNext } }

theorem buildContinuedSduSegment_spec (s : RlcTxAmEntity) (grantLen sn : Nat) {info : RlcTxAmSduInfo}
    (hpos : 0 < info.nextSo) (hlt : info.nextSo < info.sdu.length) :
    ContinuedPdu s grantLen sn info (s.buildContinuedSduSegment grantLen sn info).1
      (s.buildContinuedSduSegment grantLen sn info).2 := by
  have hso : info.nextSo % 2 ^ 16 ≤ info.nextSo := Nat.mod_le _ _
  unfold buildContinuedSduSegment
  rw [if_neg (by omega), if_neg (by omega)]
  by_cases hg : grantLen ≤ s.headMaxSize
  · rw [if_pos hg]
    exact .blocked hg
  · rw [if_neg hg]
    by_cases hlong : info.sdu.length - info.nextSo + s.headMaxSize > grantLen
    · obtain ⟨p, t, hpoll, hpolled⟩ := exists_polled s s.st.txNext false (grantLen - s.headMaxSize)
      have hlen : (segment info.sdu (info.nextSo % 2 ^ 16) (grantLen - s.headMaxSize)).length =
          grantLen - s.headMaxSize := segment_length (by omega)
      have hres : ContinuedPdu s grantLen sn info _ _ :=
        .middle (Nat.lt_of_not_le hg) hlong hpoll
      have hcfg := hpolled.cfg
      have hnext := hpolled.next
      have hwin := hpolled.txWindow
      simp only [if_pos hlong, reduceCtorEq, if_false, hpoll]
      rw [if_neg (by rw [hlen]; omega)]
      simp only [hcfg, hnext, hwin] at hres ⊢
      exact hres
    · obtain ⟨p, t, hpoll, hpolled⟩ := exists_polled { s with snUnderSegmentation := none }
        s.st.txNext false (info.sdu.length - info.nextSo)
      have hlen : (segment info.sdu (info.nextSo % 2 ^ 16) (info.sdu.length - info.nextSo)).length =
          info.sdu.length - info.nextSo := segment_length (by omega)
      have hres : ContinuedPdu s grantLen sn info _ _ := .last (Nat.le_of_not_lt hlong) hpoll
      have hcfg : t.cfg = s.cfg := hpolled.cfg
      have hnext : t.st.txNext = s.st.txNext := hpolled.next
      have hwin : t.txWindow = s.txWindow := hpolled.txWindow
      simp only [if_neg hlong, if_true, hpoll]
      rw [if_neg (by rw [hlen]; omega)]
      simp only [nextSn, mod, hcfg, hnext, hwin] at hres ⊢
      exact hres

/-- Only the RETX bookkeeping and the poll state differ. -/
structure RetxFrame (s s' : RlcTxAmEntity) : Prop where
  cfg : s'.cfg = s.cfg
  ack : s'.st.txNextAck = s.st.txNextAck
  next : s'.st.txNext = s.st.txNext
  seg : s'.snUnderSegmentation = s.snUnderSegmentation
  txWindow : s'.txWindow = s.txWindow
  sduQueue : s'.sduQueue = s.sduQueue

theorem advanceRetx_frame (s : RlcTxAmEntity) (retx : RlcTxAmdRetx) (info : RlcTxAmSduInfo)
    (len : Nat) : RetxFrame s (s.advanceRetx retx info len) := by
  unfold advanceRetx
  split <;> exact ⟨rfl, rfl, rfl, rfl, rfl, rfl⟩

theorem RetxFrame.polled {t : RlcTxAmEntity} {p : Bool} (h : RetxFrame s s') (hp : Polled s' p t) :
    RetxFrame s t :=
  ⟨hp.cfg.trans h.cfg, hp.ack.trans h.ack, hp.next.trans h.next, hp.seg.trans h.seg,
    hp.txWindow.trans h.txWindow, hp.sduQueue.trans h.sduQueue⟩

theorem writeRetxPdu_frame {retx : RlcTxAmdRetx} {info : RlcTxAmSduInfo} {len : Nat}
    {pdu : List UInt8} (hs : s.writeRetxPdu retx info len = .ok (pdu, s')) : RetxFrame s s' := by
  obtain ⟨p, t, hpoll, hpolled⟩ := exists_polled s retx.sn true 0
  have hframe : RetxFrame s t := RetxFrame.polled ⟨rfl, rfl, rfl, rfl, rfl, rfl⟩ hpolled
  simp only [writeRetxPdu, hpoll] at hs
  split at hs
  · cases hs
  · split at hs <;> cases hs <;> exact hframe

theorem RetxFrame.trans {t : RlcTxAmEntity} (h : RetxFrame s s') (h' : RetxFrame s' t) :
    RetxFrame s t :=
  ⟨h'.cfg.trans h.cfg, h'.ack.trans h.ack, h'.next.trans h.next, h'.seg.trans h.seg,
    h'.txWindow.trans h.txWindow, h'.sduQueue.trans h.sduQueue⟩

theorem buildRetxFront_frame {grantLen : Nat} {retx : RlcTxAmdRetx} {pdu : List UInt8}
    (hs : s.buildRetxFront grantLen retx = .ok (pdu, s')) : RetxFrame s s' := by
  have htouch : ∀ q sn, RetxFrame s { s with retxSn := sn, retxQueue := q } :=
    fun q sn => ⟨rfl, rfl, rfl, rfl, rfl, rfl⟩
  simp only [buildRetxFront] at hs
  split at hs
  · cases hs
  · split at hs
    · cases hs
      exact htouch _ _
    · split at hs
      · cases hs
        exact htouch _ _
      · exact (htouch s.retxQueue (some retx.sn)).trans
          ((advanceRetx_frame _ _ _ _).trans (writeRetxPdu_frame hs))

theorem buildRetxPdu_frame {grantLen : Nat} {pdu : List UInt8}
    (hs : s.buildRetxPdu grantLen = .ok (pdu, s')) : RetxFrame s s' := by
  unfold buildRetxPdu at hs
  simp only at hs
  split at hs
  · cases hs
    exact ⟨rfl, rfl, rfl, rfl, rfl, rfl⟩
  · have := buildRetxFront_frame hs
    exact ⟨this.cfg, this.ack, this.next, this.seg, this.txWindow, this.sduQueue⟩

theorem dropStaleRetx_spec (w : CircularMap RlcTxAmSduInfo) {l : List RlcTxAmdRetx}
    {q : RlcRetxQueue} (hq : q.queue = l) :
    (dropStaleRetx w l q).queue <:+ l ∧
      ∀ retx rest, (dropStaleRetx w l q).queue = retx :: rest → w.contains retx.sn = true := by
  induction l generalizing q with
  | nil => simp [dropStaleRetx, hq]
  | cons front rest ih =>
    rw [dropStaleRetx]
    split
    · rename_i hc
      refine ⟨by rw [hq], ?_⟩
      intro retx tail heq
      rw [hq] at heq
      cases heq
      exact hc
    · obtain ⟨h1, h2⟩ := ih (q := q.pop) (by simp [RlcRetxQueue.pop, hq])
      exact ⟨h1.trans (List.suffix_cons _ _), h2⟩

theorem buildRetxPdu_fault {grantLen : Nat} {f : Fault}
    (hs : s.buildRetxPdu grantLen = .error f) : f = .retxHeaderLen := by
  unfold buildRetxPdu at hs
  simp only at hs
  split at hs
  · cases hs
  · rename_i retx rest hq
    have hc := (dropStaleRetx_spec s.txWindow rfl).2 retx rest hq
    obtain ⟨info, hinfo⟩ := Option.isSome_iff_exists.mp hc
    simp only [buildRetxFront, hinfo] at hs
    split at hs
    · cases hs
    · split at hs
      · cases hs
      · simp only [writeRetxPdu] at hs
        split at hs
        · cases hs
          rfl
        · split at hs <;> cases hs

def retxHdr (s : RlcTxAmEntity) (p : Bool) (retx : RlcTxAmdRetx) (info : RlcTxAmSduInfo) (len : Nat) :
    RlcAmPduHeader :=
  { p, si := retxSi retx.so (decide (retx.so + len ≥ info.sdu.length)), snSize := s.cfg.snFieldLength
    sn := retx.sn, so := retx.so }

/-- The ways in which `build_retx_pdu` can end for a RETX that lies inside its SDU. -/
inductive RetxPdu (s : RlcTxAmEntity) (grantLen : Nat) (retx : RlcTxAmdRetx) (info : RlcTxAmSduInfo) :
    List UInt8 → RlcTxAmEntity → Prop
  | blocked : grantLen ≤ s.getRetxExpectedHdrLen retx →
      RetxPdu s grantLen retx info [] { s with retxSn := some retx.sn }
  | sent : 0 < len → len = min retx.length (grantLen - s.getRetxExpectedHdrLen retx) →
      (({ s with retxSn := some retx.sn } : RlcTxAmEntity).advanceRetx retx info len).getPollingBit
        retx.sn true 0 = (p, t) →
      RetxPdu s grantLen retx info
        (rlcAmWriteDataPduHeader (s.retxHdr p retx info len) ++ segment info.sdu retx.so len) t

theorem dropStaleRetx_of_contains {w : CircularMap RlcTxAmSduInfo} {retx : RlcTxAmdRetx}
    {rest : List RlcTxAmdRetx} (h : w.contains retx.sn = true) (q : RlcRetxQueue) :
    dropStaleRetx w (retx :: rest) q = q := by
  rw [dropStaleRetx, if_pos h]

theorem buildRetxPdu_spec {retx : RlcTxAmdRetx} {rest : List RlcTxAmdRetx} {info : RlcTxAmSduInfo}
    (hq : s.retxQueue.queue = retx :: rest) (hinfo : s.txWindow.lookup retx.sn = some info)
    (hpos : 0 < retx.length) (hin : retx.so + retx.length ≤ info.sdu.length)
    (hshort : retx.so < 2 ^ 16) (grantLen : Nat) :
    ∃ pdu s', s.buildRetxPdu grantLen = .ok (pdu, s') ∧ RetxPdu s grantLen retx info pdu s' := by
  have hcont : s.txWindow.contains retx.sn = true := by simp [CircularMap.contains, hinfo]
  have hso : retx.so % 2 ^ 16 = retx.so := Nat.mod_eq_of_lt hshort
  have hbuild : s.buildRetxPdu grantLen = s.buildRetxFront grantLen retx := by
    simp only [buildRetxPdu, hq, dropStaleRetx_of_contains hcont]
  rw [hbuild]
  simp only [buildRetxFront, hinfo]
  rw [if_neg (by omega)]
  have hhdr : ({ s with retxSn := some retx.sn } : RlcTxAmEntity).getRetxExpectedHdrLen retx =
      s.getRetxExpectedHdrLen retx := rfl
  rw [hhdr]
  by_cases hg : grantLen ≤ s.getRetxExpectedHdrLen retx
  · exact ⟨[], _, by rw [if_pos hg], .blocked hg⟩
  · rw [if_neg hg]
    generalize hlen : min retx.length (grantLen - s.getRetxExpectedHdrLen retx) = len
    have hlen0 : 0 < len := by omega
    have hseg : (segment info.sdu retx.so len).length = len := segment_length (by omega)
    obtain ⟨p, t, hpoll, hpolled⟩ := exists_polled
      (({ s with retxSn := some retx.sn } : RlcTxAmEntity).advanceRetx retx info len) retx.sn true 0
    have hcfg : t.cfg = s.cfg := hpolled.cfg.trans (advanceRetx_frame _ retx info len).cfg
    refine ⟨_, t, ?_, .sent hlen0 hlen.symm hpoll⟩
    have hheader : (rlcAmWriteDataPduHeader (s.retxHdr p retx info len)).length =
        t.getRetxExpectedHdrLen retx := by
      rw [header_length, getRetxExpectedHdrLen, headMinSize, headMaxSize, hcfg]
      simp only [retxHdr]
      by_cases hz : retx.so = 0 <;> simp [hz]
    simp only [writeRetxPdu, hpoll, hso]
    have hhdr' : ({ p, si := retxSi retx.so (decide (retx.so + len ≥ info.sdu.length))
                    snSize := t.cfg.snFieldLength, sn := retx.sn, so := retx.so } : RlcAmPduHeader) =
        s.retxHdr p retx info len := by
      rw [retxHdr, hcfg]
    rw [hhdr', if_neg (by rw [hheader]; omega), if_neg (by rw [hseg]; omega)]
    rw [writePdu_eq (fun hnil => by rw [hnil, List.length_nil] at hseg; omega)]

theorem pullPdu_cases (h : WindowInv s a n hist) (grantLen : Nat) (status : Option RlcAmStatusPdu) :
    ((s.maxRetxReached = true ∨ s.retxQueue.queue = [] ∧ s.snUnderSegmentation = none ∧
      s.sduQueue.isEmpty = true) ∧ s.pullPdu grantLen status = .ok ([], s)) ∨
    (∃ report, status = some report ∧ s.pullPdu grantLen status = .ok (pullStatus grantLen report, s)) ∨
    (s.retxQueue.queue ≠ [] ∧ s.pullPdu grantLen status = s.buildRetxPdu grantLen) ∨
    (∃ info, s.retxQueue.queue = [] ∧ s.snUnderSegmentation = some (n % s.mod) ∧
      s.txWindow.lookup (n % s.mod) = some info ∧ EntryOk n hist n info ∧
      s.pullPdu grantLen status = .ok (s.buildContinuedSduSegment grantLen (n % s.mod) info)) ∨
    (s.retxQueue.queue = [] ∧ s.snUnderSegmentation = none ∧
      s.pullPdu grantLen status = s.buildNewPdu grantLen) := by
  unfold pullPdu
  cases hmax : s.maxRetxReached with
  | true => exact .inl ⟨.inl rfl, by simp⟩
  | false =>
    simp only [Bool.false_eq_true, if_false]
    cases status with
    | some report => exact .inr (.inl ⟨report, rfl, rfl⟩)
    | none =>
      cases hretx : s.retxQueue.queue with
      | cons front rest =>
        exact .inr (.inr (.inl ⟨by simp, by simp [RlcRetxQueue.empty, hretx]⟩))
      | nil =>
        have hempty : s.retxQueue.empty = true := by simp [RlcRetxQueue.empty, hretx]
        simp only [hempty, Bool.not_true, Bool.false_eq_true, if_false]
        rcases h.seg with hseg | hseg
        · rw [hseg]
          simp only
          cases hq : s.sduQueue.isEmpty with
          | true => exact .inl ⟨.inr (by simp), by simp⟩
          | false => exact .inr (.inr (.inr (.inr ⟨by simp, by simp, by simp⟩)))
        · obtain ⟨info, hinfo, hok⟩ := h.entry n h.le (by rw [top_of_some hseg]; omega)
          rw [hseg]
          simp only [hinfo]
          exact .inr (.inr (.inr (.inl ⟨info, by simp, by simp, by simp, hok, by simp⟩)))

end Ocudu.Rlc.RlcTxAmEntity
