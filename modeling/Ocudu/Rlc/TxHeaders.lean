import Ocudu.Rlc.DataHeaders

/-! The headers that the transmitting entities build, in any state they get into. -/

namespace Ocudu.Rlc

namespace RlcTxAmEntity

variable {s s' t : RlcTxAmEntity}

inductive BuiltHeader (s : RlcTxAmEntity) : RlcAmPduHeader → Prop
  | whole (p : Bool) : BuiltHeader s (s.newHdr p .fullSdu 0)
  | first (p : Bool) : BuiltHeader s (s.newHdr p .firstSegment 0)
  | continued (p : Bool) {si : RlcSiField} {sn : Nat} {info : RlcTxAmSduInfo}
      (hsi : si = .lastSegment ∨ si = .middleSegment) (hseg : s.snUnderSegmentation = some sn)
      (hinfo : s.txWindow.lookup sn = some info) :
      BuiltHeader s (s.newHdr p si (info.nextSo % 2 ^ 16))
  | retx (p complete : Bool) {retx : RlcTxAmdRetx} (hretx : retx ∈ s.retxQueue.queue) :
      BuiltHeader s { p, si := retxSi retx.so complete, snSize := s.cfg.snFieldLength, sn := retx.sn
                      so := retx.so % 2 ^ 16 }

def Emits (s : RlcTxAmEntity) (pdu : List UInt8) : Prop :=
  pdu = [] ∨ ∃ hdr payload, s.BuiltHeader hdr ∧ payload ≠ [] ∧
    pdu = rlcAmWriteDataPduHeader hdr ++ payload

theorem BuiltHeader.emits {hdr : RlcAmPduHeader} (h : s.BuiltHeader hdr) (payload : List UInt8) :
    s.Emits (writePdu hdr payload) := by
  by_cases hpay : payload = []
  · exact .inl (by rw [hpay]; rfl)
  · exact .inr ⟨hdr, payload, h, hpay, writePdu_eq hpay⟩

structure SnsFit (s : RlcTxAmEntity) : Prop where
  ack : s.st.txNextAck < s.mod
  next : s.st.txNext < s.mod
  retx : ∀ r ∈ s.retxQueue.queue, r.sn < s.mod

theorem SnsFit.new (cfg : RlcTxAmConfig) : SnsFit (RlcTxAmEntity.new cfg) where
  ack := mod_pos
  next := mod_pos
  retx := by simp [RlcTxAmEntity.new, RlcRetxQueue.new]

theorem SnsFit.congr (h : SnsFit s) (hcfg : s'.cfg = s.cfg) (hack : s'.st.txNextAck = s.st.txNextAck)
    (hnext : s'.st.txNext = s.st.txNext)
    (hretx : ∀ r ∈ s'.retxQueue.queue, r ∈ s.retxQueue.queue) : SnsFit s' := by
  have hmod : s'.mod = s.mod := by rw [mod, mod, hcfg]
  refine ⟨?_, ?_, fun r hr => ?_⟩
  · rw [hmod, hack]
    exact h.ack
  · rw [hmod, hnext]
    exact h.next
  · rw [hmod]
    exact h.retx r (hretx r hr)

theorem BuiltHeader.fits (h : SnsFit s) {hdr : RlcAmPduHeader} (hb : s.BuiltHeader hdr) : hdr.Fits := by
  cases hb with
  | whole p => exact ⟨h.next, Nat.two_pow_pos 16, fun hne => absurd rfl hne⟩
  | first p => exact ⟨h.next, Nat.two_pow_pos 16, fun hne => absurd rfl hne⟩
  | continued p hsi hseg hinfo => exact ⟨h.next, Nat.mod_lt _ (Nat.two_pow_pos 16), fun _ => hsi⟩
  | @retx p complete retx hretx =>
    refine ⟨h.retx retx hretx, Nat.mod_lt _ (Nat.two_pow_pos 16), fun hne => ?_⟩
    have hso : retx.so ≠ 0 := fun hz => hne (by simp only [hz, Nat.zero_mod])
    cases complete <;> simp [retxSi, hso]

theorem SnsFit.polled (h : SnsFit s) {p : Bool} (hp : Polled s p s') : SnsFit s' :=
  h.congr hp.cfg hp.ack hp.next (by rw [hp.retxQueue]; exact fun _ hr => hr)

theorem SnsFit.sent (h : SnsFit s) (sn : Nat) :
    SnsFit { s with st := { s.st with txNext := s.nextSn sn } } :=
  ⟨h.ack, Nat.mod_lt _ mod_pos, h.retx⟩

theorem buildFirstSduSegment_emits (grantLen : Nat) (info : RlcTxAmSduInfo) (hso : info.nextSo = 0)
    (h : SnsFit s) :
    ((s.buildFirstSduSegment grantLen info).1 = [] ∨ ∃ p payload,
      (s.buildFirstSduSegment grantLen info).1 = writePdu (s.newHdr p .firstSegment 0) payload) ∧
      SnsFit (s.buildFirstSduSegment grantLen info).2 := by
  unfold buildFirstSduSegment
  split_ifs
  · exact ⟨.inl rfl, h⟩
  · exact ⟨.inl rfl, h⟩
  · obtain ⟨p, t, hpoll, hp⟩ := exists_polled { s with snUnderSegmentation := some s.st.txNext }
      s.st.txNext false (grantLen - s.headMinSize)
    have hseg : SnsFit { s with snUnderSegmentation := some s.st.txNext } := ⟨h.ack, h.next, h.retx⟩
    have ht := hseg.polled hp
    have hhdr : s.newHdr p .firstSegment 0 =
        { p, si := .firstSegment, snSize := t.cfg.snFieldLength, sn := t.st.txNext
          so := info.nextSo % 2 ^ 16 } := by
      rw [newHdr, hp.cfg, hp.next, hso, Nat.zero_mod]
    simp only [hpoll]
    rw [← hhdr]
    split_ifs
    · exact ⟨.inl rfl, ht⟩
    · exact ⟨.inr ⟨p, _, rfl⟩, ht.ack, ht.next, ht.retx⟩

theorem buildNewPdu_emits {grantLen : Nat} {pdu : List UInt8} (h : SnsFit s)
    (hs : s.buildNewPdu grantLen = .ok (pdu, s')) : s.Emits pdu ∧ SnsFit s' := by
  unfold buildNewPdu at hs
  by_cases hg : grantLen ≤ s.headMinSize
  · rw [if_pos hg] at hs
    cases hs
    exact ⟨.inl rfl, h⟩
  by_cases hfull : s.isTxWindowFull = true
  · rw [if_neg hg, if_pos hfull] at hs
    cases hs
    exact ⟨.inl rfl, h⟩
  rw [if_neg hg, if_neg hfull] at hs
  rcases hread : s.sduQueue.read with ⟨_ | sdu, q⟩
  · rw [hread] at hs
    cases hs
    exact ⟨.inl rfl, h.ack, h.next, h.retx⟩
  · rw [hread] at hs
    simp only at hs
    have hstored : SnsFit (s.stored sdu q) := ⟨h.ack, h.next, h.retx⟩
    split at hs
    · cases hs
    split at hs
    · obtain ⟨hpdu, hfit⟩ := buildFirstSduSegment_emits grantLen (.ofSdu sdu) rfl hstored
      have hres := Except.ok.inj hs
      simp only [stored] at hpdu hfit
      rw [hres] at hpdu hfit
      dsimp only at hpdu hfit
      refine ⟨?_, hfit⟩
      rcases hpdu with hnil | ⟨p, payload, hpdu⟩
      · exact .inl hnil
      · rw [hpdu]
        exact (BuiltHeader.first p).emits payload
    · obtain ⟨p, t, hpoll, hp⟩ := exists_polled (s.stored sdu q) s.st.txNext false 0
      have ht := hstored.polled hp
      have hhdr : s.newHdr p .fullSdu 0 =
          { p, si := .fullSdu, snSize := t.cfg.snFieldLength, sn := t.st.txNext, so := 0 } := by
        rw [newHdr, hp.cfg, hp.next]
        rfl
      simp only [stored] at hpoll
      simp only [hpoll] at hs
      split at hs
      · cases hs
        exact ⟨.inl rfl, ht⟩
      · cases hs
        rw [← hhdr]
        exact ⟨(BuiltHeader.whole p).emits _, ht.sent _⟩

theorem buildContinuedSduSegment_emits (grantLen : Nat) {sn : Nat} {info : RlcTxAmSduInfo}
    (hseg : s.snUnderSegmentation = some sn) (hinfo : s.txWindow.lookup sn = some info) (h : SnsFit s) :
    s.Emits (s.buildContinuedSduSegment grantLen sn info).1 ∧
      SnsFit (s.buildContinuedSduSegment grantLen sn info).2 := by
  have hclear : SnsFit { s with snUnderSegmentation := none } := ⟨h.ack, h.next, h.retx⟩
  unfold buildContinuedSduSegment
  by_cases hzero : info.nextSo = 0
  · rw [if_pos hzero]
    exact ⟨.inl rfl, hclear⟩
  by_cases hend : info.nextSo ≥ info.sdu.length
  · rw [if_neg hzero, if_pos hend]
    exact ⟨.inl rfl, hclear⟩
  by_cases hg : grantLen ≤ s.headMaxSize
  · rw [if_neg hzero, if_neg hend, if_pos hg]
    exact ⟨.inl rfl, h⟩
  rw [if_neg hzero, if_neg hend, if_neg hg]
  by_cases hlong : info.sdu.length - info.nextSo + s.headMaxSize > grantLen
  · obtain ⟨p, t, hpoll, hp⟩ := exists_polled s s.st.txNext false (grantLen - s.headMaxSize)
    have ht := h.polled hp
    have hhdr : s.newHdr p .middleSegment (info.nextSo % 2 ^ 16) =
        { p, si := .middleSegment, snSize := t.cfg.snFieldLength, sn := t.st.txNext
          so := info.nextSo % 2 ^ 16 } := by
      rw [newHdr, hp.cfg, hp.next]
    simp only [if_pos hlong, reduceCtorEq, if_false, hpoll, ← hhdr]
    split_ifs
    · exact ⟨.inl rfl, ht⟩
    · exact ⟨(BuiltHeader.continued p (.inr rfl) hseg hinfo).emits _, ht.ack, ht.next, ht.retx⟩
  · obtain ⟨p, t, hpoll, hp⟩ := exists_polled { s with snUnderSegmentation := none } s.st.txNext false
      (info.sdu.length - info.nextSo)
    have ht := hclear.polled hp
    have hhdr : s.newHdr p .lastSegment (info.nextSo % 2 ^ 16) =
        { p, si := .lastSegment, snSize := t.cfg.snFieldLength, sn := t.st.txNext
          so := info.nextSo % 2 ^ 16 } := by
      rw [newHdr, hp.cfg, hp.next]
    simp only [if_neg hlong, if_true, hpoll, ← hhdr]
    split_ifs
    · exact ⟨.inl rfl, ht⟩
    · exact ⟨(BuiltHeader.continued p (.inl rfl) hseg hinfo).emits _, ht.ack, Nat.mod_lt _ mod_pos, ht.retx⟩

theorem pop_mem {q : RlcRetxQueue} {r : RlcTxAmdRetx} (hr : r ∈ q.pop.queue) : r ∈ q.queue := by
  unfold RlcRetxQueue.pop at hr
  split at hr
  · exact hr
  · rename_i hq
    rw [hq]
    exact List.mem_cons_of_mem _ hr

theorem replaceFront_mem {q : RlcRetxQueue} {retx r : RlcTxAmdRetx} (hr : r ∈ (q.replaceFront retx).queue) :
    r = retx ∨ r ∈ q.queue := by
  unfold RlcRetxQueue.replaceFront at hr
  split at hr
  · exact .inr hr
  · rename_i hq
    rw [hq]
    exact (List.mem_cons.mp hr).imp_right (List.mem_cons_of_mem _)

theorem SnsFit.advanceRetx (h : SnsFit s) {retx : RlcTxAmdRetx} (hretx : retx.sn < s.mod)
    (info : RlcTxAmSduInfo) (len : Nat) : SnsFit (s.advanceRetx retx info len) := by
  unfold RlcTxAmEntity.advanceRetx
  split_ifs
  · exact ⟨h.ack, h.next, fun r hr => h.retx r (pop_mem hr)⟩
  · refine ⟨h.ack, h.next, fun r hr => ?_⟩
    rcases replaceFront_mem hr with rfl | hold
    · exact hretx
    · exact h.retx r hold

theorem writeRetxPdu_emits {retx : RlcTxAmdRetx} {info : RlcTxAmSduInfo} {len : Nat} {pdu : List UInt8}
    (h : SnsFit s) (hs : s.writeRetxPdu retx info len = .ok (pdu, s')) :
    (pdu = [] ∨ ∃ p complete payload, pdu = writePdu
      { p, si := retxSi retx.so complete, snSize := s.cfg.snFieldLength, sn := retx.sn
        so := retx.so % 2 ^ 16 } payload) ∧ SnsFit s' := by
  obtain ⟨p, t, hpoll, hp⟩ := exists_polled s retx.sn true 0
  have ht := h.polled hp
  simp only [writeRetxPdu, hpoll, hp.cfg] at hs
  split_ifs at hs
  · cases hs
    exact ⟨.inl rfl, ht⟩
  · cases hs
    exact ⟨.inr ⟨p, _, _, rfl⟩, ht⟩

theorem buildRetxFront_emits {grantLen : Nat} {retx : RlcTxAmdRetx} {pdu : List UInt8} (h : SnsFit s)
    (hretx : retx ∈ s.retxQueue.queue) (hs : s.buildRetxFront grantLen retx = .ok (pdu, s')) :
    s.Emits pdu ∧ SnsFit s' := by
  have htouch : SnsFit { s with retxSn := some retx.sn } := ⟨h.ack, h.next, h.retx⟩
  simp only [buildRetxFront] at hs
  rcases hinfo : s.txWindow.lookup retx.sn with _ | info
  · rw [hinfo] at hs
    cases hs
  · simp only [hinfo] at hs
    split_ifs at hs
    · cases hs
      exact ⟨.inl rfl, h.ack, h.next, fun r hr => h.retx r (pop_mem hr)⟩
    · cases hs
      exact ⟨.inl rfl, htouch⟩
    · obtain ⟨hpdu, hfit⟩ := writeRetxPdu_emits (htouch.advanceRetx (h.retx retx hretx) info _) hs
      refine ⟨?_, hfit⟩
      rcases hpdu with hnil | ⟨p, complete, payload, hpdu⟩
      · exact .inl hnil
      · rw [hpdu, (advanceRetx_frame _ retx info _).cfg]
        exact (BuiltHeader.retx p complete hretx).emits payload

theorem BuiltHeader.of_suffix {hdr : RlcAmPduHeader} {q : RlcRetxQueue}
    (h : BuiltHeader { s with retxQueue := q } hdr) (hq : q.queue <:+ s.retxQueue.queue) :
    s.BuiltHeader hdr := by
  cases h with
  | whole p => exact .whole p
  | first p => exact .first p
  | continued p hsi hseg hinfo => exact .continued p hsi hseg hinfo
  | retx p complete hretx => exact .retx p complete (hq.subset hretx)

theorem buildRetxPdu_emits {grantLen : Nat} {pdu : List UInt8} (h : SnsFit s)
    (hs : s.buildRetxPdu grantLen = .ok (pdu, s')) : s.Emits pdu ∧ SnsFit s' := by
  have hq := (dropStaleRetx_spec s.txWindow (q := s.retxQueue) rfl).1
  have hdrop : SnsFit { s with retxQueue := dropStaleRetx s.txWindow s.retxQueue.queue s.retxQueue } :=
    ⟨h.ack, h.next, fun r hr => h.retx r (hq.subset hr)⟩
  unfold buildRetxPdu at hs
  simp only at hs
  split at hs
  · cases hs
    exact ⟨.inl rfl, hdrop⟩
  · rename_i retx rest hfront
    obtain ⟨hpdu, hfit⟩ := buildRetxFront_emits hdrop (by rw [hfront]; exact List.mem_cons_self) hs
    refine ⟨?_, hfit⟩
    rcases hpdu with hnil | ⟨hdr, payload, hb, hpay, heq⟩
    · exact .inl hnil
    · exact .inr ⟨hdr, payload, hb.of_suffix hq, hpay, heq⟩

theorem pullPdu_emits {grantLen : Nat} {status : Option RlcAmStatusPdu} {pdu : List UInt8} (h : SnsFit s)
    (hs : s.pullPdu grantLen status = .ok (pdu, s')) : (status = none → s.Emits pdu) ∧ SnsFit s' := by
  unfold pullPdu at hs
  split at hs
  · cases hs
    exact ⟨fun _ => .inl rfl, h⟩
  cases status with
  | some report =>
    cases hs
    exact ⟨nofun, h⟩
  | none =>
    have hclear : SnsFit { s with snUnderSegmentation := none } := ⟨h.ack, h.next, h.retx⟩
    simp only at hs
    split at hs
    · obtain ⟨hpdu, hfit⟩ := buildRetxPdu_emits h hs
      exact ⟨fun _ => hpdu, hfit⟩
    · cases hseg : s.snUnderSegmentation with
      | none =>
        simp only [hseg] at hs
        split at hs
        · cases hs
          exact ⟨fun _ => .inl rfl, h⟩
        · obtain ⟨hpdu, hfit⟩ := buildNewPdu_emits h hs
          exact ⟨fun _ => hpdu, hfit⟩
      | some sn =>
        simp only [hseg] at hs
        cases hinfo : s.txWindow.lookup sn with
        | some info =>
          simp only [hinfo] at hs
          obtain ⟨hpdu, hfit⟩ := buildContinuedSduSegment_emits grantLen hseg hinfo h
          rw [Except.ok.inj hs] at hpdu hfit
          exact ⟨fun _ => hpdu, hfit⟩
        | none =>
          simp only [hinfo] at hs
          split at hs
          · cases hs
            exact ⟨fun _ => .inl rfl, hclear⟩
          · obtain ⟨hpdu, hfit⟩ := buildNewPdu_emits hclear hs
            refine ⟨fun _ => hpdu.imp_right ?_, hfit⟩
            rintro ⟨hdr, payload, hb, hpay, heq⟩
            refine ⟨hdr, payload, ?_, hpay, heq⟩
            cases hb with
            | whole p => exact .whole p
            | first p => exact .first p
            | continued p hsi hnone hinfo' => cases hnone
            | retx p complete hretx => exact .retx p complete hretx

theorem SnsFit.buffer (h : SnsFit s) (hk : BufferKeeps s s') : SnsFit s' := by
  have hq := (dropStaleRetx_spec s.txWindow (q := s.retxQueue) rfl).1
  obtain ⟨b, p, bs, heq⟩ := hk.eq
  rw [heq]
  exact ⟨h.ack, h.next, fun r hr => h.retx r (hq.subset hr)⟩

theorem SnsFit.ackMoves (h : SnsFit s) (hm : AckMoves s s') : SnsFit s' := by
  have hack := hm.ack
  obtain ⟨w, a, rfl⟩ := hm.eq
  refine ⟨hack.elim (fun heq => ?_) id, h.next, h.retx⟩
  rw [heq]
  exact h.ack

theorem SnsFit.keeps (h : SnsFit s) (hk : RetxKeeps s s')
    (hretx : ∀ r ∈ s'.retxQueue.queue, r.sn < s.mod) : SnsFit s' := by
  refine ⟨?_, ?_, ?_⟩
  · rw [hk.mod, hk.st]
    exact h.ack
  · rw [hk.mod, hk.st]
    exact h.next
  · rw [hk.mod]
    exact hretx

theorem nackGives_sn {nack item : RlcAmStatusNack} (hsn : nack.nackSn < s.mod)
    (hitem : item ∈ nack.expand s.mod) : NackGives s (·.sn < s.mod) item := by
  intro info retx _ hr
  obtain ⟨soEnd, -, rfl⟩ := Option.map_eq_some_iff.mp hr
  change item.nackSn < s.mod
  unfold RlcAmStatusNack.expand at hitem
  split at hitem
  · obtain ⟨i, -, rfl⟩ := List.mem_map.mp hitem
    exact Nat.mod_lt _ mod_pos
  · rw [List.mem_singleton.mp hitem]
    exact hsn

theorem SnsFit.handleStatusPdu (h : SnsFit s) {status : RlcAmStatusPdu}
    (hwf : ∀ nack ∈ status.nacks, nack.nackSn < s.mod) {statusBytes : Option Nat}
    (hs : s.handleStatusPdu status statusBytes = .ok s') : SnsFit s' := by
  rcases handleStatusPdu_cases hs with rfl | ⟨running, s₁, s₂, s₃, prev, hm, hk, hempty, hnack, hb⟩
  · exact h
  · have hstart : SnsFit { s with pollRetransmitTimerRunning := running } := ⟨h.ack, h.next, h.retx⟩
    have hcfg : s₁.cfg = s.cfg := by
      obtain ⟨w, a, rfl⟩ := hm.eq
      rfl
    have hmod : s₂.mod = s.mod := by rw [hk.mod, mod, mod, hcfg]
    have h₂ : SnsFit s₂ := (hstart.ackMoves hm).keeps hk (by rw [hempty]; simp)
    obtain ⟨hk', hsched⟩ := @nackLoop_keeps s₂ s₃ (·.sn < s₂.mod) _ _ _ _
      (fun nack hn => by rw [hmod]; exact hwf nack hn)
      (fun nack hn item hitem => nackGives_sn (by rw [hmod]; exact hwf nack hn) hitem) hnack
    exact (h₂.keeps hk' (hsched.mem (by rw [hempty]; simp) fun _ hr => hr)).buffer hb

theorem SnsFit.handleControlPdu (h : SnsFit s) {pdu : List UInt8} {statusBytes : Option Nat}
    (hs : s.handleControlPdu pdu statusBytes = .ok s') : SnsFit s' := by
  obtain ⟨res, hu, hs⟩ := bind_eq_ok.mp hs
  cases res with
  | none =>
    cases hs
    exact h
  | some status =>
    have hwf := RlcAmStatusPdu.unpack_wf hu
    exact h.handleStatusPdu (fun nack hn => (hwf nack hn).nackSn_lt) hs

theorem SnsFit.onExpiredPollRetransmitTimer (h : SnsFit s) {statusBytes : Option Nat}
    (hs : s.onExpiredPollRetransmitTimer statusBytes = .ok s') : SnsFit s' := by
  have hstop : SnsFit { s with pollRetransmitTimerRunning := false } := ⟨h.ack, h.next, h.retx⟩
  obtain ⟨t, ht, hcase⟩ := onExpiredPollRetransmitTimer_spec s statusBytes
  rw [hs] at ht
  cases ht
  rcases hcase with rfl | ⟨s₁, info, -, -, hk, hq, rfl⟩
  · exact hstop
  · refine (hstop.keeps hk fun r hr => ?_).buffer (updateMacBufferState_keeps _ _ _)
    rcases hq with hq | hq
    · rw [hq] at hr
      exact h.retx r hr
    · unfold RlcRetxQueue.tryPush at hq
      split at hq
      · rw [← Option.some.inj hq] at hr
        rcases List.mem_append.mp hr with hr | hr
        · exact h.retx r hr
        · rw [List.mem_singleton.mp hr]
          exact h.ack
      · cases hq

theorem SnsFit.step (h : SnsFit s) {e : TxEvent} (hs : s.step e = .ok s') : SnsFit s' := by
  obtain ⟨pdu, hr⟩ := step_cases hs
  cases hr with
  | handleSdu | discardSdu | stop => exact ⟨h.ack, h.next, h.retx⟩
  | pullPdu hp => exact (pullPdu_emits h hp).2
  | controlPdu hc => exact h.handleControlPdu hc
  | pollRetransmit hp => exact h.onExpiredPollRetransmitTimer hp
  | notRunning => exact h
  | updateMac hb | getBuffer hb => exact h.buffer hb

theorem run_snsFit {cfg : RlcTxAmConfig} {events : List TxEvent}
    (hs : Machine.run step (RlcTxAmEntity.new cfg) events = .ok s) : SnsFit s :=
  Machine.run_invariant SnsFit (fun _ _ _ h _ hs => h.step hs) (.new cfg)
    (Machine.admits_of_forall (fun _ _ => trivial) _ _) hs

end RlcTxAmEntity

namespace RlcTxUmEntity

variable {s t : RlcTxUmEntity}

def pduHeader (s : RlcTxUmEntity) (si : RlcSiField) : RlcUmPduHeader :=
  { si, snSize := s.cfg.snFieldLength, sn := s.txNext, so := s.nextSo % 2 ^ 16 }

def BuiltHeader (s : RlcTxUmEntity) (header : RlcUmPduHeader) : Prop :=
  ∃ grantLen si headLen, s.getSiAndExpectedHeaderSize s.nextSo s.sdu.buf.length grantLen =
    some (si, headLen) ∧ header = s.pduHeader si

def SnFits (s : RlcTxUmEntity) : Prop := s.txNext < s.mod

theorem BuiltHeader.fits (h : s.SnFits) {header : RlcUmPduHeader} (hb : s.BuiltHeader header) :
    header.Fits := by
  obtain ⟨grantLen, si, headLen, hsi, rfl⟩ := hb
  refine ⟨h, Nat.mod_lt _ (Nat.two_pow_pos 16), fun hne => ?_⟩
  have hso : s.nextSo ≠ 0 := fun hz => hne (by simp only [pduHeader, hz, Nat.zero_mod])
  unfold getSiAndExpectedHeaderSize at hsi
  rw [if_neg hso] at hsi
  split_ifs at hsi
  · cases hsi
    exact .inl rfl
  · cases hsi
    exact .inr rfl

theorem readSdu_frame {ok : Bool} (hs : s.readSdu = .ok (ok, t)) : t.cfg = s.cfg ∧ t.txNext = s.txNext := by
  unfold readSdu at hs
  split_ifs at hs
  · rcases hread : s.sduQueue.read with ⟨_ | sdu, q⟩ <;>
      · rw [hread] at hs
        cases hs
        exact ⟨rfl, rfl⟩
  · cases hs
    exact ⟨rfl, rfl⟩

theorem SnFits.congr (h : s.SnFits) (hcfg : t.cfg = s.cfg) (hnext : t.txNext = s.txNext) : t.SnFits := by
  unfold SnFits mod at h ⊢
  rw [hcfg, hnext]
  exact h

theorem SnFits.advance (h : s.SnFits) (si : RlcSiField) (len : Nat) : (s.advance si len).SnFits := by
  unfold RlcTxUmEntity.advance
  split_ifs <;> first | exact Nat.mod_lt _ RlcUmSnSize.mod_pos | exact h

theorem pullPdu_emits {grantLen : Nat} {pdu : List UInt8} (h : s.SnFits)
    (hs : s.pullPdu grantLen = .ok (pdu, t)) :
    (pdu = [] ∨ ∃ u header payload, s.readSdu = .ok (true, u) ∧ u.SnFits ∧ u.BuiltHeader header ∧
      payload ≠ [] ∧ pdu = rlcUmWriteDataPduHeader header ++ payload) ∧ t.SnFits := by
  unfold pullPdu at hs
  split_ifs at hs
  · cases hs
    exact ⟨.inl rfl, h⟩
  · rcases hread : s.readSdu with _ | ⟨ok, u⟩
    · rw [hread] at hs
      cases hs
    · obtain ⟨hcfg, hnext⟩ := readSdu_frame hread
      have hu := h.congr hcfg hnext
      rw [hread] at hs
      cases ok with
      | false =>
        cases hs
        exact ⟨.inl rfl, hu⟩
      | true =>
        replace hs := Except.ok.inj hs
        unfold buildPdu at hs
        cases hsi : u.getSiAndExpectedHeaderSize u.nextSo u.sdu.buf.length grantLen with
        | none =>
          rw [hsi] at hs
          cases hs
          exact ⟨.inl rfl, hu⟩
        | some res =>
          obtain ⟨si, headLen⟩ := res
          simp only [hsi] at hs
          change (if _ ∨ _ then _ else (rlcUmWriteDataPduHeader (u.pduHeader si) ++ _, u.advance si _)) = _ at hs
          generalize (if grantLen - _ ≥ _ then u.sdu.buf.length - u.nextSo else grantLen - _) = payloadLen at hs
          split at hs
          · cases hs
            exact ⟨.inl rfl, hu⟩
          · rename_i hpay
            cases hs
            refine ⟨.inr ⟨u, u.pduHeader si, _, rfl, hu, ⟨grantLen, si, headLen, hsi, rfl⟩, ?_, rfl⟩,
              hu.advance _ _⟩
            exact fun hnil => hpay (.inl (by rw [hnil]; rfl))

theorem SnFits.react (h : s.SnFits) {e : TxUmEvent} {pdu : List UInt8} (hs : s.react e = .ok (pdu, t)) :
    t.SnFits := by
  cases e with
  | handleSdu buf now =>
    cases hs
    unfold RlcTxUmEntity.handleSdu
    rcases s.sduQueue.write (s.newSdu buf now) with ⟨ok, q⟩
    cases ok <;> exact h
  | discardSdu pdcpSn =>
    cases hs
    unfold RlcTxUmEntity.discardSdu
    rcases s.sduQueue.tryDiscard pdcpSn with ⟨ok, q⟩
    cases ok <;> exact h
  | pullPdu grantLen => exact (pullPdu_emits h hs).2
  | updateMacBufferState =>
    cases hs
    simp only [RlcTxUmEntity.updateMacBufferState]
    split_ifs <;> exact h
  | getBufferState =>
    cases hs
    exact h

end RlcTxUmEntity

theorem UmSender.step_snFits {s t : UmSender} {e : TxUmEvent} (h : s.tx.SnFits) (ht : s.step e = .ok t) :
    t.tx.SnFits := by
  unfold UmSender.step at ht
  rcases hr : s.tx.react e with _ | ⟨buf, tx⟩
  · rw [hr] at ht
    cases ht
  · have htx := h.react hr
    rw [hr] at ht
    simp only at ht
    split_ifs at ht
    · cases ht
      exact htx
    · cases ht
      unfold UmSender.record
      split_ifs <;> exact htx

theorem UmSender.run_snFits {cfg : RlcTxUmConfig} {events : List TxUmEvent} {s : UmSender}
    (hs : Machine.run UmSender.step (UmSender.new cfg) events = .ok s) : s.tx.SnFits :=
  Machine.run_invariant (·.tx.SnFits) (fun _ _ _ h _ hs => UmSender.step_snFits h hs)
    RlcUmSnSize.mod_pos (Machine.admits_of_forall (fun _ _ => trivial) _ _) hs

/-- The length of a UMD header is what its reader has stepped over except for a segment at SO 0, that of
an AMD header always is; and a header that a transmitter has built is read back as it was except for
a segment at SO 0. -/
theorem header_end_iff (umSize : RlcUmSnSize) (amSize : RlcAmSnSize) (buf : List UInt8)
    (umCfg : RlcTxUmConfig) (umEvents : List TxUmEvent) (amCfg : RlcTxAmConfig)
    (amEvents : List TxEvent) :
    (∀ header rest, rlcUmReadDataPduHeader umSize buf = some (header, rest) →
      (rlcUmNrPackedLength header + rest.length = buf.length ↔ ¬SegmentAtZero header.si header.so) ∧
      (buf.drop (rlcUmNrPackedLength header) = rest ↔ ¬SegmentAtZero header.si header.so)) ∧
    (∀ header rest, rlcAmReadDataPduHeader amSize buf = .ok (some (header, rest)) →
      header.getPackedSize + rest.length = buf.length ∧ buf.drop header.getPackedSize = rest) ∧
    (∀ s grantLen pdu t, Machine.run UmSender.step (UmSender.new umCfg) umEvents = .ok s →
      s.tx.pullPdu grantLen = .ok (pdu, t) → pdu = [] ∨ ∃ u header payload,
        s.tx.readSdu = .ok (true, u) ∧ u.BuiltHeader header ∧ payload ≠ [] ∧
        pdu = rlcUmWriteDataPduHeader header ++ payload ∧
        (header.RoundTrips ∧ (rlcUmWriteDataPduHeader header).length = rlcUmNrPackedLength header ↔
          ¬SegmentAtZero header.si header.so)) ∧
    ∀ s grantLen pdu t, Machine.run RlcTxAmEntity.step (RlcTxAmEntity.new amCfg) amEvents = .ok s →
      s.pullPdu grantLen none = .ok (pdu, t) → pdu = [] ∨ ∃ header payload,
        s.BuiltHeader header ∧ payload ≠ [] ∧ pdu = rlcAmWriteDataPduHeader header ++ payload ∧
        (header.RoundTrips ∧ (rlcAmWriteDataPduHeader header).length = header.getPackedSize ↔
          ¬SegmentAtZero header.si header.so) := by
  refine ⟨fun header rest hread => ?_, fun header rest hread => ?_, fun s grantLen pdu t hs hpull => ?_,
    fun s grantLen pdu t hs hpull => ?_⟩
  · have hr := umRead_of_some hread
    have hiff := packedLength_eq_readSize_iff hr.so
    have hlen := congrArg List.length hr.behind
    have hfits := hr.fits
    have hle := packedLength_le_readSize hr.so
    rw [List.length_drop] at hlen
    constructor
    · rw [← hiff]
      omega
    · rw [← hiff]
      constructor
      · intro hdrop
        have hcount := congrArg List.length hdrop
        rw [List.length_drop] at hcount
        omega
      · intro heq
        rw [heq]
        exact hr.behind
  · obtain ⟨hbehind, hfits⟩ := amRead_behind hread
    have hlen := congrArg List.length hbehind
    rw [List.length_drop] at hlen
    exact ⟨by omega, hbehind⟩
  · refine (RlcTxUmEntity.pullPdu_emits (UmSender.run_snFits hs) hpull).1.imp_right ?_
    rintro ⟨u, header, payload, hu, hsn, hb, hpay, heq⟩
    refine ⟨u, header, payload, hu, hb, hpay, heq, ?_⟩
    rw [(hb.fits hsn).roundTrips_iff, and_iff_left (rlcUmWriteDataPduHeader_length header)]
  · have hfit := RlcTxAmEntity.run_snsFit hs
    refine ((RlcTxAmEntity.pullPdu_emits hfit hpull).1 rfl).imp_right ?_
    rintro ⟨header, payload, hb, hpay, heq⟩
    refine ⟨header, payload, hb, hpay, heq, ?_⟩
    rw [(hb.fits hfit).roundTrips_iff, (hb.fits hfit).length_iff, and_self]

/-- A middle segment with SN 5 at SO 0: the reader steps over four bytes, the length is two. -/
theorem segment_at_zero_read_too_short :
    ∃ header rest, rlcUmReadDataPduHeader .size12bits [0xc0, 0x05, 0x00, 0x00, 0xaa] = some (header, rest) ∧
      rest = [0xaa] ∧ rlcUmNrPackedLength header = 2 ∧
      umParsePdu .size12bits [0xc0, 0x05, 0x00, 0x00, 0xaa] = some (header, [0x00, 0x00, 0xaa]) :=
  ⟨⟨.middleSegment, .size12bits, 5, 0⟩, [0xaa], by decide⟩

end Ocudu.Rlc
