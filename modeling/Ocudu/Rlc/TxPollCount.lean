import Ocudu.Rlc.TxHeaders

/-! PDU_WITHOUT_POLL and BYTE_WITHOUT_POLL against what has been sent since the last poll. -/

namespace Ocudu.Rlc

namespace RlcTxAmEntity

variable {s s' t : RlcTxAmEntity}

/-- The length of the header of the next new PDU: its SO is written unless it is zero. -/
def newHeaderLen (s : RlcTxAmEntity) : Nat :=
  match s.snUnderSegmentation.bind s.txWindow.lookup with
  | some info => if info.nextSo % 2 ^ 16 = 0 then s.headMinSize else s.headMaxSize
  | none => s.headMinSize

def sendsWhole (s : RlcTxAmEntity) (grantLen : Nat) : Bool :=
  !s.maxRetxReached && s.retxQueue.empty && (s.snUnderSegmentation.bind s.txWindow.lookup).isNone &&
    !s.isTxWindowFull &&
    s.sduQueue.read.1.any (fun sdu => decide (sdu.buf.length + s.headMinSize ≤ grantLen))

def wholePolled (s : RlcTxAmEntity) : Bool :=
  s.pollCounted 0 || s.sduQueue.read.2.isEmpty ||
    s.sduQueue.read.1.any (fun sdu => (s.stored sdu s.sduQueue.read.2).isTxWindowFull)

def countsPdus (s : RlcTxAmEntity) : TxEvent → Bool
  | .handleSdu buf _ _ => !buf.isEmpty
  | .pullPdu _ _ => decide (s.st.pduWithoutPoll + 1 < 2 ^ 32)
  | _ => true

/-- A whole SDU is sent only with the polling bit, and BYTE_WITHOUT_POLL does not wrap around. -/
def countsBytes (s : RlcTxAmEntity) : TxEvent → Bool
  | .pullPdu grantLen none =>
    decide (s.st.byteWithoutPoll + grantLen < 2 ^ 32) && (!s.sendsWhole grantLen || s.wholePolled)
  | _ => true

structure SameCounts (s s' : RlcTxAmEntity) : Prop where
  cfg : s'.cfg = s.cfg
  pdus : s'.st.pduWithoutPoll = s.st.pduWithoutPoll
  bytes : s'.st.byteWithoutPoll = s.st.byteWithoutPoll

theorem SameCounts.refl (s : RlcTxAmEntity) : SameCounts s s := ⟨rfl, rfl, rfl⟩

theorem SameCounts.trans (h : SameCounts s s') (h' : SameCounts s' t) : SameCounts s t :=
  ⟨h'.cfg.trans h.cfg, h'.pdus.trans h.pdus, h'.bytes.trans h.bytes⟩

structure ZeroCounts (s s' : RlcTxAmEntity) : Prop where
  cfg : s'.cfg = s.cfg
  pdus : s'.st.pduWithoutPoll = 0
  bytes : s'.st.byteWithoutPoll = 0

structure MoreCounts (s : RlcTxAmEntity) (n : Nat) (s' : RlcTxAmEntity) : Prop where
  cfg : s'.cfg = s.cfg
  pdus : s'.st.pduWithoutPoll = (s.st.pduWithoutPoll + 1) % 2 ^ 32
  bytes : s'.st.byteWithoutPoll = (s.st.byteWithoutPoll + n) % 2 ^ 32
  below : s.pollCounted n = false

theorem getPollingBit_counts {sn n : Nat} {p : Bool} (h : s.getPollingBit sn false n = (p, t)) :
    p = true ∧ ZeroCounts s t ∨ p = false ∧ MoreCounts s n t := by
  have hp := getPollingBit_new h
  simp only [getPollingBit, Bool.false_eq_true, if_false] at h
  split at h
  · cases h
    exact .inl ⟨rfl, rfl, rfl, rfl⟩
  · cases h
    simp only [Bool.false_eq, Bool.or_eq_false_iff] at hp
    exact .inr ⟨rfl, rfl, rfl, rfl, hp.1.1⟩

theorem getPollingBit_retx_counts {sn n : Nat} {p : Bool} (h : s.getPollingBit sn true n = (p, t)) :
    p = true ∧ ZeroCounts s t ∨ p = false ∧ SameCounts s t := by
  simp only [getPollingBit, if_true] at h
  split at h
  · cases h
    exact .inl ⟨rfl, rfl, rfl, rfl⟩
  · cases h
    exact .inr ⟨rfl, rfl, rfl, rfl⟩

/-! What a pull does to the counters. -/

inductive PollMoves (s : RlcTxAmEntity) (grantLen : Nat) : List UInt8 → RlcTxAmEntity → Prop
  | silent (hcounts : SameCounts s u) : PollMoves s grantLen [] u
  | polled (hne : pdu ≠ []) (hp : pollBit pdu = true) (hcounts : ZeroCounts s u) :
      PollMoves s grantLen pdu u
  | repeated (hne : pdu ≠ []) (hp : pollBit pdu = false) (hretx : s.retxQueue.empty = false)
      (hcounts : SameCounts s u) : PollMoves s grantLen pdu u
  | new (hne : pdu ≠ []) (hp : pollBit pdu = false) (hretx : s.retxQueue.empty = true)
      (hcounts : MoreCounts s n u) (hlen : pdu.length ≤ grantLen) (hle : n ≤ pdu.length)
      (hn : n = pdu.length - s.newHeaderLen ∨ s.sendsWhole grantLen = true ∧ s.wholePolled = false) :
      PollMoves s grantLen pdu u

structure Fed (s : RlcTxAmEntity) : Prop where
  queue : ∀ sdu ∈ s.sduQueue.queue, sdu.buf ≠ []
  window : ∀ sn info, s.txWindow.lookup sn = some info → info.sdu ≠ []
  retx : ∀ r ∈ s.retxQueue.queue, 0 < r.length

theorem Fed.new (cfg : RlcTxAmConfig) : Fed (RlcTxAmEntity.new cfg) where
  queue := by simp [RlcTxAmEntity.new, SduQueue.new]
  window := by simp [RlcTxAmEntity.new]
  retx := by simp [RlcTxAmEntity.new, RlcRetxQueue.new]

theorem Fed.polled (h : Fed s) {p : Bool} (hp : Polled s p t) : Fed t := by
  refine ⟨?_, ?_, ?_⟩
  · rw [hp.sduQueue]
    exact h.queue
  · rw [hp.txWindow]
    exact h.window
  · rw [hp.retxQueue]
    exact h.retx

theorem Fed.modify (h : Fed s) (sn : Nat) (f : RlcTxAmSduInfo → Nat) :
    Fed { s with txWindow := s.txWindow.modify sn (fun i => { i with nextSo := f i }) } := by
  refine ⟨h.queue, fun key info hl => ?_, h.retx⟩
  rw [CircularMap.lookup_modify] at hl
  split at hl
  · obtain ⟨old, hold, rfl⟩ := Option.map_eq_some_iff.mp hl
    exact h.window _ old hold
  · exact h.window key info hl

theorem Fed.read (h : Fed s) {res : Option RlcSdu} {q : SduQueue} (hread : s.sduQueue.read = (res, q)) :
    Fed { s with sduQueue := q } ∧ ∀ sdu, res = some sdu → sdu.buf ≠ [] := by
  have hq := SduQueue.readLoop_queue s.sduQueue.queue s.sduQueue
  rw [← SduQueue.read, hread] at hq
  exact ⟨⟨fun sdu hm => h.queue sdu (hq.1.mem hm), h.window, h.retx⟩,
    fun sdu hs => h.queue sdu (hq.2 sdu hs)⟩

theorem Fed.stored (h : Fed s) {sdu : RlcSdu} {q : SduQueue} (hread : s.sduQueue.read = (some sdu, q)) :
    Fed (s.stored sdu q) := by
  obtain ⟨hq, hne⟩ := h.read hread
  refine ⟨hq.queue, fun key info hl => ?_, h.retx⟩
  rcases CircularMap.lookup_overwrite_cases hl with ⟨-, rfl⟩ | ⟨-, hold⟩
  · exact hne sdu rfl
  · exact h.window key info hold

theorem PollMoves.congr (hcounts : SameCounts s' t) {grantLen : Nat} {pdu : List UInt8}
    (h : PollMoves s grantLen pdu s') : PollMoves s grantLen pdu t := by
  obtain ⟨hcfg, hpdus, hbytes⟩ := hcounts
  cases h with
  | silent hc => exact .silent ⟨hcfg.trans hc.cfg, hpdus.trans hc.pdus, hbytes.trans hc.bytes⟩
  | polled hne hp hc =>
    exact .polled hne hp ⟨hcfg.trans hc.cfg, hpdus.trans hc.pdus, hbytes.trans hc.bytes⟩
  | repeated hne hp hretx hc =>
    exact .repeated hne hp hretx ⟨hcfg.trans hc.cfg, hpdus.trans hc.pdus, hbytes.trans hc.bytes⟩
  | new hne hp hretx hc hlen hle hn =>
    exact .new hne hp hretx ⟨hcfg.trans hc.cfg, hpdus.trans hc.pdus, hbytes.trans hc.bytes, hc.below⟩ hlen
      hle hn

/-- A new PDU with the polling bit that `get_polling_bit` gave in a state `u` with the counters of
`s`. -/
theorem PollMoves.ofPoll {u : RlcTxAmEntity} {grantLen sn n : Nat} {p : Bool} {hdr : RlcAmPduHeader}
    {payload : List UInt8} (hpoll : u.getPollingBit sn false n = (p, t)) (hcfg : u.cfg = s.cfg)
    (hst : u.st = s.st) (hretx : s.retxQueue.empty = true) (hhdr : hdr.p = p) (hpay : payload ≠ [])
    (hlen : (rlcAmWriteDataPduHeader hdr ++ payload).length ≤ grantLen)
    (hle : n ≤ (rlcAmWriteDataPduHeader hdr ++ payload).length)
    (hn : p = false → n = (rlcAmWriteDataPduHeader hdr ++ payload).length - s.newHeaderLen ∨
      s.sendsWhole grantLen = true ∧ s.wholePolled = false) :
    PollMoves s grantLen (rlcAmWriteDataPduHeader hdr ++ payload) t := by
  have hne : rlcAmWriteDataPduHeader hdr ++ payload ≠ [] := by simp [hpay]
  have hbit := (pollBit_write hdr payload).trans hhdr
  rcases getPollingBit_counts hpoll with ⟨rfl, hzero⟩ | ⟨rfl, hmore⟩
  · exact .polled hne hbit ⟨hzero.cfg.trans hcfg, hzero.pdus, hzero.bytes⟩
  · refine .new hne hbit hretx ⟨hmore.cfg.trans hcfg, ?_, ?_, ?_⟩ hlen hle (hn rfl)
    · rw [← hst]
      exact hmore.pdus
    · rw [← hst]
      exact hmore.bytes
    · have hbelow := hmore.below
      unfold pollCounted at hbelow ⊢
      rw [← hcfg, ← hst]
      exact hbelow

theorem fixedHeader_min {hdr : RlcAmPduHeader} (hsz : hdr.snSize = s.cfg.snFieldLength) (hso : hdr.so = 0) :
    (rlcAmWriteDataPduHeader hdr).length = s.headMinSize := by
  rw [header_length, hso, hsz, headMinSize]
  rfl

theorem buildFirstSduSegment_moves {u : RlcTxAmEntity} {grantLen : Nat} {info : RlcTxAmSduInfo}
    (hso : info.nextSo = 0) (hg : u.headMinSize < grantLen)
    (hlong : grantLen < info.sdu.length + u.headMinSize) (hfed : Fed u) (hcfg : u.cfg = s.cfg)
    (hst : u.st = s.st) (hretx : s.retxQueue.empty = true) (hhead : s.newHeaderLen = s.headMinSize) :
    PollMoves s grantLen (u.buildFirstSduSegment grantLen info).1 (u.buildFirstSduSegment grantLen info).2 ∧
      Fed (u.buildFirstSduSegment grantLen info).2 := by
  obtain ⟨p, t, hpoll, hp⟩ := exists_polled { u with snUnderSegmentation := some u.st.txNext }
    u.st.txNext false (grantLen - u.headMinSize)
  have hseg : Fed { u with snUnderSegmentation := some u.st.txNext } := ⟨hfed.queue, hfed.window, hfed.retx⟩
  have hmin : s.headMinSize = u.headMinSize := by rw [headMinSize, headMinSize, hcfg]
  have hlen : (segment info.sdu 0 (grantLen - u.headMinSize)).length = grantLen - u.headMinSize :=
    segment_length (by omega)
  have hpay : segment info.sdu 0 (grantLen - u.headMinSize) ≠ [] := by
    intro hnil
    rw [hnil, List.length_nil] at hlen
    omega
  unfold buildFirstSduSegment
  rw [if_neg (by omega), if_neg (by omega)]
  simp only [hpoll, hso, Nat.zero_mod]
  rw [if_neg (by rw [hlen]; omega), writePdu_eq hpay]
  have hpdu : ∀ hdr : RlcAmPduHeader, hdr.snSize = t.cfg.snFieldLength → hdr.so = 0 →
      (rlcAmWriteDataPduHeader hdr ++ segment info.sdu 0 (grantLen - u.headMinSize)).length =
        grantLen := by
    intro hdr hsz hzero
    have hcfg' : t.cfg = s.cfg := hp.cfg.trans hcfg
    rw [List.length_append, hlen, @fixedHeader_min s hdr (hsz.trans (by rw [hcfg'])) hzero, hmin]
    omega
  have hmoves := @PollMoves.ofPoll s t _ grantLen _ _ p
    { p, si := .firstSegment, snSize := t.cfg.snFieldLength, sn := t.st.txNext, so := 0 } _ hpoll hcfg hst
    hretx rfl hpay (by rw [hpdu _ rfl rfl]) (by rw [hpdu _ rfl rfl]; omega)
    (fun _ => .inl (by rw [hpdu _ rfl rfl, hhead, hmin]))
  refine ⟨hmoves.congr ?_, (hseg.polled hp).modify _ _⟩
  exact ⟨rfl, rfl, rfl⟩

theorem buildNewPdu_moves {grantLen : Nat} {pdu : List UInt8} (h : Fed s)
    (hmax : s.maxRetxReached = false) (hretx : s.retxQueue.empty = true)
    (hseg : s.snUnderSegmentation.bind s.txWindow.lookup = none)
    (hs : ({ s with snUnderSegmentation := none } : RlcTxAmEntity).buildNewPdu grantLen = .ok (pdu, s')) :
    PollMoves s grantLen pdu s' ∧ Fed s' := by
  have hhead : s.newHeaderLen = s.headMinSize := by rw [newHeaderLen, hseg]
  generalize hu : ({ s with snUnderSegmentation := none } : RlcTxAmEntity) = u at hs
  have hfed : Fed u := by
    rw [← hu]
    exact ⟨h.queue, h.window, h.retx⟩
  have hcfg : u.cfg = s.cfg := by rw [← hu]
  have hst : u.st = s.st := by rw [← hu]
  have hq : u.sduQueue = s.sduQueue := by rw [← hu]
  have hnone : u.snUnderSegmentation = none := by rw [← hu]
  have hretx' : u.retxQueue.empty = true := by rw [← hu]; exact hretx
  have hfull' : u.isTxWindowFull = s.isTxWindowFull := by rw [← hu]; rfl
  have hmin : u.headMinSize = s.headMinSize := by rw [← hu]; rfl
  have hsame : SameCounts s u := by rw [← hu]; exact ⟨rfl, rfl, rfl⟩
  unfold buildNewPdu at hs
  by_cases hg : grantLen ≤ u.headMinSize
  · rw [if_pos hg] at hs
    cases hs
    exact ⟨.silent hsame, hfed⟩
  by_cases hfull : u.isTxWindowFull = true
  · rw [if_neg hg, if_pos hfull] at hs
    cases hs
    exact ⟨.silent hsame, hfed⟩
  rw [if_neg hg, if_neg hfull] at hs
  rcases hread : u.sduQueue.read with ⟨_ | sdu, q⟩
  · rw [hread] at hs
    cases hs
    exact ⟨.silent ⟨hsame.cfg, hsame.pdus, hsame.bytes⟩, (hfed.read hread).1⟩
  · rw [hread] at hs
    have hstored := hfed.stored hread
    have hpos := List.length_pos_of_ne_nil ((hfed.read hread).2 sdu rfl)
    simp only at hs
    split at hs
    · cases hs
    split at hs
    · rename_i hlong
      have hfirst := @buildFirstSduSegment_moves s (u.stored sdu q) grantLen (.ofSdu sdu) rfl
        (Nat.not_le.mp hg) hlong hstored hcfg hst hretx hhead
      have hres := Except.ok.inj hs
      simp only [stored] at hfirst
      rw [hres] at hfirst
      exact hfirst
    · rename_i hlong
      obtain ⟨p, t, hpoll, hp⟩ := exists_polled (u.stored sdu q) u.st.txNext false 0
      have hfit : sdu.buf.length + s.headMinSize ≤ grantLen := by
        rw [← hmin]
        exact Nat.not_lt.mp hlong
      have hpdu : ∀ hdr : RlcAmPduHeader, hdr.snSize = t.cfg.snFieldLength → hdr.so = 0 →
          (rlcAmWriteDataPduHeader hdr ++ sdu.buf).length = s.headMinSize + sdu.buf.length := by
        intro hdr hsz hzero
        have hcfg' : t.cfg = s.cfg := hp.cfg.trans hcfg
        rw [List.length_append, @fixedHeader_min s hdr (hsz.trans (by rw [hcfg'])) hzero]
      have hunpolled : p = false → s.sendsWhole grantLen = true ∧ s.wholePolled = false := by
        intro hp0
        have hbit := getPollingBit_new hpoll
        rw [hp0] at hbit
        simp only [Bool.false_eq, Bool.or_eq_false_iff] at hbit
        obtain ⟨⟨hcounted, hlast⟩, hwindow⟩ := hbit
        have hqempty : q.isEmpty = false := by
          have hlast' : (q.isEmpty && u.retxQueue.empty && u.snUnderSegmentation.isNone) = false := hlast
          rwa [hretx', hnone, Bool.and_true, Option.isNone_none, Bool.and_true] at hlast'
        have hcounted' : s.pollCounted 0 = false := by
          rw [← hcounted]
          unfold pollCounted
          rw [← hcfg, ← hst]
          rfl
        have hwindow' : (s.stored sdu q).isTxWindowFull = false := by
          rw [← hwindow, ← hu]
          rfl
        rw [hq] at hread
        rw [hfull', Bool.not_eq_true] at hfull
        refine ⟨?_, ?_⟩
        · simp [sendsWhole, hmax, hretx, hseg, hfull, hread, hfit]
        · simp [wholePolled, hcounted', hread, hqempty, hwindow']
      simp only [stored] at hpoll
      simp only [hpoll] at hs
      have hne : ¬(RlcTxAmSduInfo.ofSdu sdu).sdu.length = 0 := Nat.ne_of_gt hpos
      rw [if_neg hne] at hs
      cases hs
      have hbuf : (RlcTxAmSduInfo.ofSdu sdu).sdu ≠ [] := (hfed.read hread).2 sdu rfl
      have hmoves := @PollMoves.ofPoll s t _ grantLen _ _ p
        { p, si := .fullSdu, snSize := t.cfg.snFieldLength, sn := t.st.txNext, so := 0 } sdu.buf hpoll hcfg hst
        hretx rfl hbuf (by rw [hpdu _ rfl rfl]; omega) (Nat.zero_le _) (fun hp0 => .inr (hunpolled hp0))
      rw [writePdu_eq hbuf]
      have hfed' := hstored.polled hp
      refine ⟨hmoves.congr ?_, hfed'.queue, hfed'.window, hfed'.retx⟩
      exact ⟨rfl, rfl, rfl⟩

theorem buildContinuedSduSegment_moves (grantLen : Nat) {sn : Nat} {info : RlcTxAmSduInfo} (h : Fed s)
    (hretx : s.retxQueue.empty = true) (hseg : s.snUnderSegmentation = some sn)
    (hinfo : s.txWindow.lookup sn = some info) :
    PollMoves s grantLen (s.buildContinuedSduSegment grantLen sn info).1
        (s.buildContinuedSduSegment grantLen sn info).2 ∧
      Fed (s.buildContinuedSduSegment grantLen sn info).2 := by
  have hhead : s.newHeaderLen = if info.nextSo % 2 ^ 16 = 0 then s.headMinSize else s.headMaxSize := by
    rw [newHeaderLen, hseg, Option.bind_some, hinfo]
  have hmax : s.headMaxSize = s.headMinSize + 2 := rfl
  have hclear : Fed { s with snUnderSegmentation := none } := ⟨h.queue, h.window, h.retx⟩
  by_cases hzero : info.nextSo = 0
  · rw [buildContinuedSduSegment, if_pos hzero]
    exact ⟨.silent ⟨rfl, rfl, rfl⟩, hclear⟩
  by_cases hend : info.nextSo ≥ info.sdu.length
  · rw [buildContinuedSduSegment, if_neg hzero, if_pos hend]
    exact ⟨.silent ⟨rfl, rfl, rfl⟩, hclear⟩
  -- what the entry of an SDU under segmentation says is enough, whatever else the window holds
  have hcont := buildContinuedSduSegment_spec s grantLen sn (Nat.pos_of_ne_zero hzero) (Nat.not_le.mp hend)
  have hmod : info.nextSo % 2 ^ 16 ≤ info.nextSo := Nat.mod_le _ _
  have hpdu : ∀ (p : Bool) (si : RlcSiField) (n : Nat), info.nextSo + n ≤ info.sdu.length →
      (rlcAmWriteDataPduHeader (s.newHdr p si (info.nextSo % 2 ^ 16)) ++
        segment info.sdu (info.nextSo % 2 ^ 16) n).length = s.newHeaderLen + n := by
    intro p si n hn
    rw [List.length_append, segment_length (by omega), header_length, hhead]
    by_cases hz : info.nextSo % 2 ^ 16 = 0
    · simp only [newHdr, hz, ne_eq, not_true_eq_false, if_false, if_true, headMinSize]
    · simp only [newHdr, hz, ne_eq, not_false_eq_true, if_true, if_false, headMaxSize]
  have hne : ∀ n, 0 < n → info.nextSo + n ≤ info.sdu.length →
      segment info.sdu (info.nextSo % 2 ^ 16) n ≠ [] := fun n hpos hn => segment_ne_nil (by omega) hpos
  have hle : s.newHeaderLen ≤ s.headMaxSize := by
    rw [hhead]
    split <;> omega
  generalize hpdu' : (s.buildContinuedSduSegment grantLen sn info).1 = pdu at hcont ⊢
  generalize hs' : (s.buildContinuedSduSegment grantLen sn info).2 = s' at hcont ⊢
  cases hcont with
  | blocked hg => exact ⟨.silent (.refl s), h⟩
  | @middle p t hg hlong hpoll =>
    have hin : info.nextSo + (grantLen - s.headMaxSize) ≤ info.sdu.length := by omega
    have hpay := hne _ (by omega) hin
    rw [writePdu_eq hpay]
    have hmoves := @PollMoves.ofPoll s t s grantLen _ _ p (s.newHdr p .middleSegment (info.nextSo % 2 ^ 16)) _
      hpoll rfl rfl hretx rfl hpay (by rw [hpdu _ _ _ hin]; omega) (by rw [hpdu _ _ _ hin]; omega)
      (fun _ => .inl (by rw [hpdu _ _ _ hin, Nat.add_sub_cancel_left]))
    have hfed := (h.polled (polled hpoll)).modify sn (fun i => i.nextSo + (grantLen - s.headMaxSize))
    rw [(polled hpoll).txWindow] at hfed
    refine ⟨hmoves.congr ?_, hfed⟩
    exact ⟨rfl, rfl, rfl⟩
  | @last p t hfit hpoll =>
    have hin : info.nextSo + (info.sdu.length - info.nextSo) ≤ info.sdu.length := by omega
    have hpay := hne _ (by omega) hin
    rw [writePdu_eq hpay]
    have hmoves := @PollMoves.ofPoll s t { s with snUnderSegmentation := none } grantLen _ _ p
      (s.newHdr p .lastSegment (info.nextSo % 2 ^ 16)) _ hpoll rfl rfl hretx rfl hpay
      (by rw [hpdu _ _ _ hin]; omega) (by rw [hpdu _ _ _ hin]; omega)
      (fun _ => .inl (by rw [hpdu _ _ _ hin, Nat.add_sub_cancel_left]))
    have hfed := (hclear.polled (polled hpoll)).modify sn (fun i => i.nextSo + (info.sdu.length - info.nextSo))
    rw [(polled hpoll).txWindow] at hfed
    refine ⟨hmoves.congr ?_, hfed.queue, hfed.window, hfed.retx⟩
    exact ⟨rfl, rfl, rfl⟩

theorem Fed.advanceRetx (h : Fed s) (retx : RlcTxAmdRetx) (info : RlcTxAmSduInfo) {len : Nat}
    (hle : len ≤ retx.length) : Fed (s.advanceRetx retx info len) := by
  unfold RlcTxAmEntity.advanceRetx
  split_ifs with hall
  · exact ⟨h.queue, h.window, fun r hr => h.retx r (pop_mem hr)⟩
  · refine ⟨h.queue, h.window, fun r hr => ?_⟩
    rcases replaceFront_mem hr with rfl | hold
    · exact Nat.sub_pos_of_lt (Nat.lt_of_le_of_ne hle hall)
    · exact h.retx r hold

theorem buildRetxFront_moves {grantLen : Nat} {retx : RlcTxAmdRetx} {pdu : List UInt8} (h : Fed s)
    (hretx : retx ∈ s.retxQueue.queue) (hs : s.buildRetxFront grantLen retx = .ok (pdu, s')) :
    Fed s' ∧ (pdu = [] ∧ SameCounts s s' ∨ pdu ≠ [] ∧ (pollBit pdu = true ∧ ZeroCounts s s' ∨
      pollBit pdu = false ∧ SameCounts s s')) := by
  have hpos := h.retx retx hretx
  have htouch : Fed { s with retxSn := some retx.sn } := ⟨h.queue, h.window, h.retx⟩
  simp only [buildRetxFront] at hs
  rcases hinfo : s.txWindow.lookup retx.sn with _ | info
  · rw [hinfo] at hs
    cases hs
  · simp only [hinfo] at hs
    split_ifs at hs with hout hg
    · cases hs
      exact ⟨⟨h.queue, h.window, fun r hr => h.retx r (pop_mem hr)⟩, .inl ⟨rfl, rfl, rfl, rfl⟩⟩
    · cases hs
      exact ⟨htouch, .inl ⟨rfl, rfl, rfl, rfl⟩⟩
    · generalize hlen : min retx.length (grantLen - _) = len at hs
      have hle : len ≤ retx.length := by omega
      have hlen0 : 0 < len := by
        rw [← hlen]
        exact lt_min hpos (Nat.sub_pos_of_lt (Nat.not_le.mp hg))
      have hframe : SameCounts s
          (({ s with retxSn := some retx.sn } : RlcTxAmEntity).advanceRetx retx info len) := by
        unfold RlcTxAmEntity.advanceRetx
        split_ifs <;> exact ⟨rfl, rfl, rfl⟩
      have hadvance := htouch.advanceRetx retx info hle
      generalize ({ s with retxSn := some retx.sn } : RlcTxAmEntity).advanceRetx retx info len = u
        at hs hframe hadvance
      obtain ⟨p, t, hpoll, hp⟩ := exists_polled u retx.sn true 0
      have hmod : retx.so % 2 ^ 16 ≤ retx.so := Nat.mod_le _ _
      have hseg : (segment info.sdu (retx.so % 2 ^ 16) len).length = len := segment_length (by omega)
      have hne : segment info.sdu (retx.so % 2 ^ 16) len ≠ [] := segment_ne_nil (by omega) hlen0
      simp only [writeRetxPdu, hpoll] at hs
      split at hs
      · cases hs
      rw [if_neg (by rw [hseg]; omega), writePdu_eq hne] at hs
      cases hs
      refine ⟨hadvance.polled hp, .inr ⟨fun hnil => hne (List.append_eq_nil_iff.mp hnil).2, ?_⟩⟩
      rw [pollBit_write]
      rcases getPollingBit_retx_counts hpoll with ⟨hp1, hzero⟩ | ⟨hp0, hsame⟩
      · exact .inl ⟨hp1, hzero.cfg.trans hframe.cfg, hzero.pdus, hzero.bytes⟩
      · exact .inr ⟨hp0, hframe.trans hsame⟩

theorem buildRetxPdu_moves {grantLen : Nat} {pdu : List UInt8} (h : Fed s)
    (hretx : s.retxQueue.empty = false) (hs : s.buildRetxPdu grantLen = .ok (pdu, s')) :
    PollMoves s grantLen pdu s' ∧ Fed s' := by
  have hq := (dropStaleRetx_spec s.txWindow (q := s.retxQueue) rfl).1
  have hdrop : Fed { s with retxQueue := dropStaleRetx s.txWindow s.retxQueue.queue s.retxQueue } :=
    ⟨h.queue, h.window, fun r hr => h.retx r (hq.subset hr)⟩
  unfold buildRetxPdu at hs
  simp only at hs
  split at hs
  · cases hs
    exact ⟨.silent ⟨rfl, rfl, rfl⟩, hdrop⟩
  · rename_i retx rest hfront
    obtain ⟨hfed, hmoves⟩ := buildRetxFront_moves hdrop (by rw [hfront]; exact List.mem_cons_self) hs
    refine ⟨?_, hfed⟩
    rcases hmoves with ⟨rfl, hsame⟩ | ⟨hne, ⟨hp, hzero⟩ | ⟨hp, hsame⟩⟩
    · exact .silent ⟨hsame.cfg, hsame.pdus, hsame.bytes⟩
    · exact .polled hne hp ⟨hzero.cfg, hzero.pdus, hzero.bytes⟩
    · exact .repeated hne hp hretx ⟨hsame.cfg, hsame.pdus, hsame.bytes⟩

theorem pullPdu_moves {grantLen : Nat} {pdu : List UInt8} (h : Fed s)
    (hs : s.pullPdu grantLen none = .ok (pdu, s')) : PollMoves s grantLen pdu s' ∧ Fed s' := by
  unfold pullPdu at hs
  cases hmax : s.maxRetxReached with
  | true =>
    rw [hmax] at hs
    cases hs
    exact ⟨.silent (.refl s), h⟩
  | false =>
    simp only [hmax, Bool.false_eq_true, if_false] at hs
    cases hretx : s.retxQueue.empty with
    | false =>
      simp only [hretx, Bool.not_false, if_true] at hs
      exact buildRetxPdu_moves h hretx hs
    | true =>
      simp only [hretx, Bool.not_true, Bool.false_eq_true, if_false] at hs
      cases hseg : s.snUnderSegmentation with
      | none =>
        simp only [hseg] at hs
        have hclear : ({ s with snUnderSegmentation := none } : RlcTxAmEntity) = s := by rw [← hseg]
        split at hs
        · cases hs
          exact ⟨.silent (.refl s), h⟩
        · rw [← hclear] at hs
          exact buildNewPdu_moves h hmax hretx (by rw [hseg]; rfl) hs
      | some sn =>
        simp only [hseg] at hs
        cases hinfo : s.txWindow.lookup sn with
        | some info =>
          simp only [hinfo] at hs
          have hmoves := buildContinuedSduSegment_moves grantLen h hretx hseg hinfo
          rw [Except.ok.inj hs] at hmoves
          exact hmoves
        | none =>
          simp only [hinfo] at hs
          split at hs
          · cases hs
            exact ⟨.silent ⟨rfl, rfl, rfl⟩, h.queue, h.window, h.retx⟩
          · exact buildNewPdu_moves h hmax hretx (by rw [hseg, Option.bind_some, hinfo])
              (by rw [hmax]; exact hs)

theorem Fed.buffer (h : Fed s) (hk : BufferKeeps s s') : Fed s' := by
  have hq := (dropStaleRetx_spec s.txWindow (q := s.retxQueue) rfl).1
  have hsuffix := hk.queue_suffix
  obtain ⟨b, p, bs, heq⟩ := hk.eq
  rw [heq]
  exact ⟨fun sdu hm => h.queue sdu (hsuffix.mem hm), h.window, fun r hr => h.retx r (hq.subset hr)⟩

theorem BufferKeeps.counts (hk : BufferKeeps s s') : SameCounts s s' := by
  obtain ⟨b, p, bs, heq⟩ := hk.eq
  rw [heq]
  exact ⟨rfl, rfl, rfl⟩

theorem RetxKeeps.counts (hk : RetxKeeps s s') : SameCounts s s' := by
  refine ⟨hk.cfg, ?_, ?_⟩ <;> rw [hk.st]

theorem Fed.keeps (h : Fed s) (hk : RetxKeeps s s') (hretx : ∀ r ∈ s'.retxQueue.queue, 0 < r.length) :
    Fed s' := by
  refine ⟨?_, fun sn info hl => ?_, hretx⟩
  · rw [hk.sduQueue]
    exact h.queue
  · obtain ⟨old, hold, heq⟩ := hk.sdus.present_inv hl
    rw [heq]
    exact h.window sn old hold

theorem Fed.nackGives (h : Fed s) {nack item : RlcAmStatusNack} (hwf : nack.Wf s.cfg.snFieldLength)
    (hitem : item ∈ nack.expand s.mod) : NackGives s (0 < ·.length) item :=
  fun info _ hl hr => (nackRetx_inside (h.window _ info hl) (expand_soEnd_lt hwf hitem) hr).2.1

theorem Fed.handleStatusPdu (h : Fed s) {status : RlcAmStatusPdu}
    (hwf : ∀ nack ∈ status.nacks, nack.Wf s.cfg.snFieldLength) {statusBytes : Option Nat}
    (hs : s.handleStatusPdu status statusBytes = .ok s') : Fed s' ∧ SameCounts s s' := by
  rcases handleStatusPdu_cases hs with rfl | ⟨running, s₁, s₂, s₃, prev, hm, hk, hempty, hnack, hb⟩
  · exact ⟨h, .refl _⟩
  · have hleft := hm.left
    obtain ⟨w, a, rfl⟩ := hm.eq
    have h₁ : Fed { s with pollRetransmitTimerRunning := running, txWindow := w
                           st := { s.st with txNextAck := a } } :=
      ⟨h.queue, fun sn info hl => h.window sn info (hleft sn info hl), h.retx⟩
    have h₂ := h₁.keeps hk (by rw [hempty]; simp)
    have hcfg : s₂.cfg = s.cfg := hk.cfg
    have hsz : ∀ nack ∈ status.nacks, nack.Wf s₂.cfg.snFieldLength := by
      rw [hcfg]
      exact hwf
    obtain ⟨hk', hsched⟩ := @nackLoop_keeps s₂ s₃ (0 < ·.length) _ _ _ _
      (fun nack hn => (hsz nack hn).nackSn_lt) (fun nack hn item hitem => h₂.nackGives (hsz nack hn) hitem)
      hnack
    have h₃ := h₂.keeps hk' (hsched.mem (by rw [hempty]; simp) fun _ hr => hr)
    have hcounts : SameCounts s s₂ := ⟨hk.counts.cfg, hk.counts.pdus, hk.counts.bytes⟩
    exact ⟨h₃.buffer hb, (hcounts.trans hk'.counts).trans hb.counts⟩

theorem Fed.onExpiredPollRetransmitTimer (h : Fed s) {statusBytes : Option Nat}
    (hs : s.onExpiredPollRetransmitTimer statusBytes = .ok s') : Fed s' ∧ SameCounts s s' := by
  have hstop : Fed { s with pollRetransmitTimerRunning := false } := ⟨h.queue, h.window, h.retx⟩
  obtain ⟨t, ht, hcase⟩ := onExpiredPollRetransmitTimer_spec s statusBytes
  rw [hs] at ht
  cases ht
  rcases hcase with rfl | ⟨s₁, info, hinfo, -, hk, hq, rfl⟩
  · exact ⟨hstop, rfl, rfl, rfl⟩
  · have hb := updateMacBufferState_keeps s₁ true statusBytes
    have hcounts : SameCounts s s₁ := ⟨hk.counts.cfg, hk.counts.pdus, hk.counts.bytes⟩
    refine ⟨(hstop.keeps hk fun r hr => ?_).buffer hb, hcounts.trans hb.counts⟩
    rcases hq with hq | hq
    · rw [hq] at hr
      exact h.retx r hr
    · unfold RlcRetxQueue.tryPush at hq
      split at hq
      · rw [← Option.some.inj hq] at hr
        rcases List.mem_append.mp hr with hr | hr
        · exact h.retx r hr
        · rw [List.mem_singleton.mp hr]
          exact List.length_pos_of_ne_nil (h.window _ info hinfo)
      · cases hq

end RlcTxAmEntity

/-- A pull for which the receiving side has a status report due. -/
def TxEvent.sendsStatus : TxEvent → Bool
  | .pullPdu _ (some _) => true
  | _ => false

/-- A transmitter, with the number of new PDUs and of the SDU bytes in them that it has sent since
its last PDU with the polling bit. -/
structure PollLog where
  tx : RlcTxAmEntity
  pdus : Nat
  bytes : Nat

namespace PollLog

open RlcTxAmEntity

variable {c c' : PollLog}

def new (cfg : RlcTxAmConfig) : PollLog := { tx := RlcTxAmEntity.new cfg, pdus := 0, bytes := 0 }

def record (c : PollLog) (e : TxEvent) (pdu : List UInt8) (tx : RlcTxAmEntity) : PollLog :=
  if pdu.isEmpty || e.sendsStatus then { c with tx }
  else if pollBit pdu then { tx, pdus := 0, bytes := 0 }
  else if c.tx.retxQueue.empty then
    { tx, pdus := c.pdus + 1, bytes := c.bytes + (pdu.length - c.tx.newHeaderLen) }
  else { c with tx }

def step (c : PollLog) (e : TxEvent) : Except Fault PollLog :=
  match c.tx.react e with
  | .ok (pdu, tx) => .ok (c.record e pdu tx)
  | .error f => .error f

structure PdusExact (c : PollLog) : Prop where
  fed : Fed c.tx
  eq : c.tx.st.pduWithoutPoll = c.pdus
  below : c.tx.cfg.pollPdu > 0 → (c.pdus : Int) < c.tx.cfg.pollPdu

structure BytesExact (c : PollLog) : Prop where
  eq : c.tx.st.byteWithoutPoll = c.bytes
  below : c.tx.cfg.pollByte > 0 → (c.bytes : Int) < c.tx.cfg.pollByte

theorem pdusExact_new (cfg : RlcTxAmConfig) : PdusExact (new cfg) := ⟨.new cfg, rfl, fun h => h⟩

theorem bytesExact_new (cfg : RlcTxAmConfig) : BytesExact (new cfg) := ⟨rfl, fun h => h⟩

theorem below_of_pollCounted {s : RlcTxAmEntity} {n : Nat} (h : s.pollCounted n = false) :
    (s.st.pduWithoutPoll + 1 < 2 ^ 32 → s.cfg.pollPdu > 0 →
      ((s.st.pduWithoutPoll + 1 : Nat) : Int) < s.cfg.pollPdu) ∧
    (s.st.byteWithoutPoll + n < 2 ^ 32 → s.cfg.pollByte > 0 →
      ((s.st.byteWithoutPoll + n : Nat) : Int) < s.cfg.pollByte) := by
  simp only [pollCounted, Bool.or_eq_false_iff, decide_eq_false_iff_not, not_and, not_le] at h
  refine ⟨fun hlt hpos => ?_, fun hlt hpos => ?_⟩
  · have hbelow := h.1 hpos
    rwa [Nat.mod_eq_of_lt hlt] at hbelow
  · have hbelow := h.2 hpos
    rwa [Nat.mod_eq_of_lt hlt] at hbelow

theorem record_of_silent (c : PollLog) {e : TxEvent} {pdu : List UInt8} (tx : RlcTxAmEntity)
    (h : pdu = [] ∨ e.sendsStatus = true) : c.record e pdu tx = { c with tx } := by
  have hif : (pdu.isEmpty || e.sendsStatus) = true := by
    rcases h with rfl | h
    · rfl
    · rw [h, Bool.or_true]
  rw [record, if_pos hif]

theorem PdusExact.same (h : PdusExact c) {tx : RlcTxAmEntity} (hfed : Fed tx)
    (hsame : SameCounts c.tx tx) : PdusExact { c with tx } := by
  refine ⟨hfed, hsame.pdus.trans h.eq, ?_⟩
  rw [hsame.cfg]
  exact h.below

theorem BytesExact.same (h : BytesExact c) {tx : RlcTxAmEntity} (hsame : SameCounts c.tx tx) :
    BytesExact { c with tx } := by
  refine ⟨hsame.bytes.trans h.eq, ?_⟩
  rw [hsame.cfg]
  exact h.below

theorem PdusExact.pull (h : PdusExact c) {grantLen : Nat} {pdu : List UInt8} {tx : RlcTxAmEntity}
    (hfit : c.tx.st.pduWithoutPoll + 1 < 2 ^ 32) (hmoves : PollMoves c.tx grantLen pdu tx)
    (hfed : Fed tx) : PdusExact (c.record (.pullPdu grantLen none) pdu tx) := by
  cases hmoves with
  | silent hcounts =>
    rw [record_of_silent c tx (.inl rfl)]
    exact h.same hfed hcounts
  | polled hne hp hcounts =>
    have hrec : c.record (.pullPdu grantLen none) pdu tx = { tx, pdus := 0, bytes := 0 } := by
      simp [record, hne, hp, TxEvent.sendsStatus]
    rw [hrec]
    exact ⟨hfed, hcounts.pdus, fun hpos => hpos⟩
  | repeated hne hp hretx hcounts =>
    have hrec : c.record (.pullPdu grantLen none) pdu tx = { c with tx } := by
      simp [record, hne, hp, hretx, TxEvent.sendsStatus]
    rw [hrec]
    exact h.same hfed hcounts
  | new hne hp hretx hcounts hlen hle hn =>
    have hrec : c.record (.pullPdu grantLen none) pdu tx =
        { tx, pdus := c.pdus + 1, bytes := c.bytes + (pdu.length - c.tx.newHeaderLen) } := by
      simp [record, hne, hp, hretx, TxEvent.sendsStatus]
    rw [hrec]
    refine ⟨hfed, ?_, ?_⟩
    · rw [← h.eq, hcounts.pdus, Nat.mod_eq_of_lt hfit]
    · have hbelow := (below_of_pollCounted hcounts.below).1 hfit
      rw [hcounts.cfg, ← h.eq]
      exact hbelow

theorem BytesExact.pull (h : BytesExact c) {grantLen : Nat} {pdu : List UInt8} {tx : RlcTxAmEntity}
    (hadm : c.tx.countsBytes (.pullPdu grantLen none) = true) (hmoves : PollMoves c.tx grantLen pdu tx) :
    BytesExact (c.record (.pullPdu grantLen none) pdu tx) := by
  simp only [countsBytes, Bool.and_eq_true, decide_eq_true_eq, Bool.or_eq_true, Bool.not_eq_true'] at hadm
  obtain ⟨hfit, hwhole⟩ := hadm
  cases hmoves with
  | silent hcounts =>
    rw [record_of_silent c tx (.inl rfl)]
    exact h.same hcounts
  | polled hne hp hcounts =>
    have hrec : c.record (.pullPdu grantLen none) pdu tx = { tx, pdus := 0, bytes := 0 } := by
      simp [record, hne, hp, TxEvent.sendsStatus]
    rw [hrec]
    exact ⟨hcounts.bytes, fun hpos => hpos⟩
  | repeated hne hp hretx hcounts =>
    have hrec : c.record (.pullPdu grantLen none) pdu tx = { c with tx } := by
      simp [record, hne, hp, hretx, TxEvent.sendsStatus]
    rw [hrec]
    exact h.same hcounts
  | @new _ n _ hne hp hretx hcounts hlen hle hn =>
    have hrec : c.record (.pullPdu grantLen none) pdu tx =
        { tx, pdus := c.pdus + 1, bytes := c.bytes + (pdu.length - c.tx.newHeaderLen) } := by
      simp [record, hne, hp, hretx, TxEvent.sendsStatus]
    have hlt : c.tx.st.byteWithoutPoll + n < 2 ^ 32 := by omega
    have hsize : n = pdu.length - c.tx.newHeaderLen := by
      rcases hn with hn | ⟨hsends, hunpolled⟩
      · exact hn
      · rcases hwhole with hw | hw
        · rw [hsends] at hw
          cases hw
        · rw [hunpolled] at hw
          cases hw
    rw [hrec, ← hsize]
    refine ⟨?_, ?_⟩
    · rw [← h.eq, hcounts.bytes, Nat.mod_eq_of_lt hlt]
    · have hbelow := (below_of_pollCounted hcounts.below).2 hlt
      rw [hcounts.cfg, ← h.eq]
      exact hbelow

theorem react_silent {s t : RlcTxAmEntity} {e : TxEvent} {pdu : List UInt8} (h : Fed s)
    (hadm : s.countsPdus e = true) (he : ∀ grantLen, e ≠ .pullPdu grantLen none)
    (hs : s.react e = .ok (pdu, t)) : Fed t ∧ SameCounts s t ∧ (pdu = [] ∨ e.sendsStatus = true) := by
  cases react_cases hs with
  | handleSdu buf isRetx now p =>
    have hne : buf ≠ [] := by simpa [countsPdus] using hadm
    refine ⟨⟨fun sdu hm => ?_, h.window, h.retx⟩, ⟨rfl, rfl, rfl⟩, .inl rfl⟩
    rcases s.sduQueue.write_queue (s.newSdu buf isRetx now) with hw | hw
    · exact h.queue sdu (by rw [← hw]; exact hm)
    · simp only [hw, List.mem_append, List.mem_singleton] at hm
      rcases hm with hm | rfl
      · exact h.queue sdu hm
      · exact hne
  | discardSdu pdcpSn p =>
    refine ⟨⟨fun sdu hm => h.queue sdu ?_, h.window, h.retx⟩, ⟨rfl, rfl, rfl⟩, .inl rfl⟩
    simpa only [SduQueue.tryDiscard_queue] using hm
  | @pullPdu grantLen status pdu t hp =>
    cases status with
    | none => exact absurd rfl (he grantLen)
    | some report =>
      simp only [pullPdu] at hp
      split at hp <;> cases hp <;> exact ⟨h, .refl _, .inr rfl⟩
  | controlPdu hc =>
    obtain ⟨res, hu, hc⟩ := bind_eq_ok.mp hc
    cases res with
    | none =>
      cases hc
      exact ⟨h, .refl _, .inl rfl⟩
    | some status =>
      obtain ⟨hfed, hsame⟩ := h.handleStatusPdu (RlcAmStatusPdu.unpack_wf hu) hc
      exact ⟨hfed, hsame, .inl rfl⟩
  | pollRetransmit hp =>
    obtain ⟨hfed, hsame⟩ := h.onExpiredPollRetransmitTimer hp
    exact ⟨hfed, hsame, .inl rfl⟩
  | notRunning => exact ⟨h, .refl _, .inl rfl⟩
  | updateMac hb | getBuffer hb => exact ⟨h.buffer hb, hb.counts, .inl rfl⟩
  | stop => exact ⟨⟨h.queue, h.window, h.retx⟩, ⟨rfl, rfl, rfl⟩, .inl rfl⟩

theorem step_eq_ok {e : TxEvent} (hs : c.step e = .ok c') :
    ∃ pdu tx, c.tx.react e = .ok (pdu, tx) ∧ c' = c.record e pdu tx := by
  unfold step at hs
  split at hs
  · rename_i pdu tx hr
    cases hs
    exact ⟨pdu, tx, hr, rfl⟩
  · cases hs

theorem PdusExact.step (h : PdusExact c) {e : TxEvent} (hadm : c.tx.countsPdus e = true)
    (hs : c.step e = .ok c') : PdusExact c' := by
  obtain ⟨pdu, tx, hr, rfl⟩ := step_eq_ok hs
  by_cases he : ∃ grantLen, e = .pullPdu grantLen none
  · obtain ⟨grantLen, rfl⟩ := he
    obtain ⟨hmoves, hfed⟩ := pullPdu_moves h.fed hr
    exact h.pull (by simpa [countsPdus] using hadm) hmoves hfed
  · obtain ⟨hfed, hsame, hsilent⟩ := react_silent h.fed hadm (fun g heq => he ⟨g, heq⟩) hr
    rw [record_of_silent c tx hsilent]
    exact h.same hfed hsame

theorem BytesExact.step (h : BytesExact c) (hfed : Fed c.tx) {e : TxEvent}
    (hadm : c.tx.countsPdus e = true) (hbytes : c.tx.countsBytes e = true) (hs : c.step e = .ok c') :
    BytesExact c' := by
  obtain ⟨pdu, tx, hr, rfl⟩ := step_eq_ok hs
  by_cases he : ∃ grantLen, e = .pullPdu grantLen none
  · obtain ⟨grantLen, rfl⟩ := he
    exact h.pull hbytes (pullPdu_moves hfed hr).1
  · obtain ⟨-, hsame, hsilent⟩ := react_silent hfed hadm (fun g heq => he ⟨g, heq⟩) hr
    rw [record_of_silent c tx hsilent]
    exact h.same hsame

/-- PDU_WITHOUT_POLL is the number of new PDUs sent since the last poll, and is below pollPDU; and as
long as no whole SDU is sent without the polling bit, BYTE_WITHOUT_POLL is the number of SDU bytes
in them, and is below pollByte. -/
theorem poll_counters_exact (cfg : RlcTxAmConfig) (events : List TxEvent)
    (hpdus : Machine.Admits step (fun c e => c.tx.countsPdus e = true) (new cfg) events)
    (hrun : Machine.run step (new cfg) events = .ok c) :
    c.tx.st.pduWithoutPoll = c.pdus ∧ (c.tx.cfg.pollPdu > 0 → (c.pdus : Int) < c.tx.cfg.pollPdu) ∧
      (Machine.Admits step (fun c e => c.tx.countsBytes e = true) (new cfg) events →
        c.tx.st.byteWithoutPoll = c.bytes ∧
          (c.tx.cfg.pollByte > 0 → (c.bytes : Int) < c.tx.cfg.pollByte)) := by
  have hp := Machine.run_invariant PdusExact (fun _ _ _ h hadm hs => h.step hadm hs) (pdusExact_new cfg)
    hpdus hrun
  refine ⟨hp.eq, hp.below, fun hbytes => ?_⟩
  have hb := Machine.run_invariant (fun c => PdusExact c ∧ BytesExact c)
    (fun _ _ _ h hadm hs => ⟨h.1.step hadm.1 hs, h.2.step h.1.fed hadm.1 hadm.2 hs⟩)
    ⟨pdusExact_new cfg, bytesExact_new cfg⟩ (hpdus.and hbytes) hrun
  exact ⟨hb.2.eq, hb.2.below⟩

theorem poll_counters_exact_segmented :
    ∃ c, Machine.run step (new drbConfig)
        [.handleSdu (List.replicate 10 7) false 0, .handleSdu [0, 1, 2] false 0, .pullPdu 9 none] = .ok c ∧
      c.pdus = 1 ∧ c.bytes = 7 ∧ c.tx.st.pduWithoutPoll = 1 ∧ c.tx.st.byteWithoutPoll = 7 := by
  have hrun : ∃ c, Machine.run step (new drbConfig)
      [.handleSdu (List.replicate 10 7) false 0, .handleSdu [0, 1, 2] false 0, .pullPdu 9 none] = .ok c ∧
      c.pdus = 1 ∧ c.bytes = 7 := ⟨_, rfl, by decide, by decide⟩
  obtain ⟨c, hc, hpdus, hbytes⟩ := hrun
  obtain ⟨heq, -, hcount⟩ := poll_counters_exact drbConfig _ (by decide) hc
  have hbeq := (hcount (by decide)).1
  exact ⟨c, hc, hpdus, hbytes, by rw [heq, hpdus], by rw [hbeq, hbytes]⟩

/-- With a limit of 25 bytes, 100 bytes are sent in five whole SDUs and none of them is polled. -/
theorem whole_sdus_not_counted :
    ∃ c, Machine.run step (new { drbConfig with pollPdu := -1, pollByte := 25 })
        (List.replicate 6 (.handleSdu (List.replicate 20 7) false 0) ++ List.replicate 5 (.pullPdu 30 none)) =
          .ok c ∧
      c.pdus = 5 ∧ c.bytes = 100 ∧ c.tx.st.byteWithoutPoll = 0 :=
  ⟨_, rfl, by decide, by decide, by decide⟩

end PollLog

end Ocudu.Rlc
