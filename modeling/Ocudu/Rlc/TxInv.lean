import Ocudu.Rlc.TxPoll

/-! The invariant of a transmitting entity with its queues: every RETX lies inside an SDU of the
window, and a pull never fails. -/

namespace Ocudu.Rlc.RlcTxAmEntity

open SeqNum

variable {s s' t : RlcTxAmEntity} {a n k : Nat} {hist : List (List UInt8)}

/-- An SDU whose bytes a 16-bit segment offset can address. -/
def SduOk (buf : List UInt8) : Prop := buf ≠ [] ∧ buf.length ≤ 2 ^ 16

def RetxAt (m a b : Nat) (hist : List (List UInt8)) (retx : RlcTxAmdRetx) : Prop :=
  ∃ k sdu, a ≤ k ∧ k < b ∧ retx.sn = k % m ∧ hist[k]? = some sdu ∧ 0 < retx.length ∧
    retx.so + retx.length ≤ sdu.length

structure TxInv (s : RlcTxAmEntity) (a n : Nat) (hist : List (List UInt8)) : Prop where
  window : WindowInv s a n hist
  short : ∀ sdu ∈ hist, sdu.length ≤ 2 ^ 16
  queue : s.sduQueue.Inv
  queued : ∀ sdu ∈ s.sduQueue.queue, SduOk sdu.buf
  retx : ∀ r ∈ s.retxQueue.queue, RetxAt s.mod a (s.top n) hist r

theorem RetxAt.advance {m a b : Nat} {retx : RlcTxAmdRetx} (h : RetxAt m a b hist retx) {len : Nat}
    (hlt : len < retx.length) :
    RetxAt m a b hist { retx with so := retx.so + len, length := retx.length - len } := by
  obtain ⟨k, sdu, hk, hkb, hsn, hget, hpos, hin⟩ := h
  exact ⟨k, sdu, hk, hkb, hsn, hget, Nat.sub_pos_of_lt hlt, by simp only; omega⟩

namespace TxInv

theorem new {cfg : RlcTxAmConfig} (hc : 0 < cfg.queueSize) (hc' : cfg.queueSize < 2 ^ 32)
    (hl : cfg.queueSizeBytes < 2 ^ 32) : TxInv (RlcTxAmEntity.new cfg) 0 0 [] where
  window := .new cfg
  short := by simp
  queue := SduQueue.new_inv hc hc' hl
  queued := by simp [RlcTxAmEntity.new, SduQueue.new]
  retx := by simp [RlcTxAmEntity.new, RlcRetxQueue.new]

theorem retx_entry (h : TxInv s a n hist) {retx : RlcTxAmdRetx}
    (hr : RetxAt s.mod a (s.top n) hist retx) :
    ∃ info, s.txWindow.lookup retx.sn = some info ∧ retx.so + retx.length ≤ info.sdu.length ∧
      info.sdu.length ≤ 2 ^ 16 := by
  obtain ⟨k, sdu, hk, hkb, hsn, hget, hpos, hin⟩ := hr
  obtain ⟨info, hinfo, hok⟩ := h.window.entry k hk hkb
  have hsdu := hok.assigned
  rw [hget] at hsdu
  cases hsdu
  exact ⟨info, by rw [hsn]; exact hinfo, hin, h.short _ (List.mem_of_getElem? hget)⟩

theorem entry_short (h : TxInv s a n hist) {info : RlcTxAmSduInfo} (hok : EntryOk n hist k info) :
    info.sdu.length ≤ 2 ^ 16 := h.short _ (List.mem_of_getElem? hok.assigned)

end TxInv

inductive Pulled (s : RlcTxAmEntity) (a n : Nat) (hist : List (List UInt8)) (grantLen : Nat)
    (status : Option RlcAmStatusPdu) : List UInt8 → RlcTxAmEntity → Prop
  | idle : s.maxRetxReached = true ∨ s.retxQueue.queue = [] ∧ s.snUnderSegmentation = none ∧
      s.sduQueue.isEmpty = true → Pulled s a n hist grantLen status [] s
  | report : status = some report →
      Pulled s a n hist grantLen status (pullStatus grantLen report) s
  | retx : s.retxQueue.queue = retx :: rest → RetxAt s.mod a (s.top n) hist retx →
      s.txWindow.lookup retx.sn = some info → RetxPdu s grantLen retx info pdu u →
      Pulled s a n hist grantLen status pdu u
  | continued : s.retxQueue.queue = [] → s.snUnderSegmentation = some (n % s.mod) →
      s.txWindow.lookup (n % s.mod) = some info → EntryOk n hist n info →
      ContinuedPdu s grantLen (n % s.mod) info pdu u → Pulled s a n hist grantLen status pdu u
  | new : s.retxQueue.queue = [] → s.snUnderSegmentation = none → NewPdu s grantLen pdu u →
      Pulled s a n hist grantLen status pdu u

theorem TxInv.pulled (h : TxInv s a n hist) (grantLen : Nat) (status : Option RlcAmStatusPdu) :
    ∃ pdu s', s.pullPdu grantLen status = .ok (pdu, s') ∧
      Pulled s a n hist grantLen status pdu s' := by
  rcases pullPdu_cases h.window grantLen status with ⟨hidle, h1⟩ | ⟨report, hst, h1⟩ | ⟨hq, h1⟩ |
    ⟨info, hq, hseg, hinfo, hok, h1⟩ | ⟨hq, hseg, h1⟩
  · exact ⟨[], s, h1, .idle hidle⟩
  · exact ⟨_, s, h1, .report hst⟩
  · obtain ⟨retx, rest, hcons⟩ := List.exists_cons_of_ne_nil hq
    have hr := h.retx retx (by rw [hcons]; exact List.mem_cons_self)
    obtain ⟨info, hinfo, hin, hshort⟩ := h.retx_entry hr
    have hpos : 0 < retx.length := by
      obtain ⟨_, _, _, _, _, _, hpos, _⟩ := hr
      exact hpos
    obtain ⟨pdu, s', hs, hspec⟩ := buildRetxPdu_spec hcons hinfo hpos hin (by omega) grantLen
    exact ⟨pdu, s', h1.trans hs, .retx hcons hr hinfo hspec⟩
  · have hpos := hok.progress rfl
    have hspec := buildContinuedSduSegment_spec s grantLen (n % s.mod) hpos.1 hpos.2
    exact ⟨_, _, h1, .continued hq hseg hinfo hok hspec⟩
  · obtain ⟨pdu, s', hs, hspec⟩ := buildNewPdu_spec h.window hseg
      (fun _ _ => read_ne_nil (fun sdu hm => (h.queued sdu hm).1)) grantLen
    exact ⟨pdu, s', h1.trans hs, .new hq hseg hspec⟩

theorem advanceRetx_retx (hq : s.retxQueue.queue = retx :: rest) (info : RlcTxAmSduInfo) {len : Nat}
    (hle : len ≤ retx.length) :
    (s.advanceRetx retx info len).retxQueue.queue = rest ∧ len = retx.length ∨
      (s.advanceRetx retx info len).retxQueue.queue =
        { retx with so := retx.so + len, length := retx.length - len } :: rest ∧ len < retx.length := by
  unfold advanceRetx
  split
  · rename_i heq
    exact .inl ⟨by simp [RlcRetxQueue.pop, hq], heq⟩
  · rename_i hne
    exact .inr ⟨by simp [RlcRetxQueue.replaceFront, hq], by omega⟩

theorem RetxPdu.frame {grantLen : Nat} {retx : RlcTxAmdRetx} {info : RlcTxAmSduInfo} {pdu : List UInt8}
    (hp : RetxPdu s grantLen retx info pdu s') : RetxFrame s s' := by
  cases hp with
  | blocked _ => exact ⟨rfl, rfl, rfl, rfl, rfl, rfl⟩
  | sent _ _ hpoll =>
    have hf := (advanceRetx_frame { s with retxSn := some retx.sn } retx info _).polled (polled hpoll)
    exact ⟨hf.cfg, hf.ack, hf.next, hf.seg, hf.txWindow, hf.sduQueue⟩

theorem RetxPdu.retx_at {grantLen m b : Nat} {retx : RlcTxAmdRetx} {rest : List RlcTxAmdRetx}
    {info : RlcTxAmSduInfo} {pdu : List UInt8} (hp : RetxPdu s grantLen retx info pdu s')
    (hq : s.retxQueue.queue = retx :: rest)
    (hat : ∀ r ∈ s.retxQueue.queue, RetxAt m a b hist r) :
    ∀ r ∈ s'.retxQueue.queue, RetxAt m a b hist r := by
  cases hp with
  | blocked _ => exact hat
  | @sent len p t hpos hlen hpoll =>
    rw [(polled hpoll).retxQueue]
    have hle : len ≤ retx.length := by omega
    have hrest : ∀ r ∈ rest, RetxAt m a b hist r := fun r hr =>
      hat r (by rw [hq]; exact List.mem_cons_of_mem _ hr)
    have hfront := hat retx (by rw [hq]; exact List.mem_cons_self)
    rcases advanceRetx_retx (s := { s with retxSn := some retx.sn }) hq info hle with
      ⟨heq, -⟩ | ⟨heq, hlt⟩
    · rw [heq]
      exact hrest
    · rw [heq]
      intro r hr
      rcases List.mem_cons.mp hr with rfl | hr
      · exact hfront.advance hlt
      · exact hrest r hr

/-! What each event does to the invariant. -/

namespace TxInv

section

variable (h : TxInv s a n hist)
include h

theorem frame (hf : RetxFrame s s')
    (hr : ∀ r ∈ s'.retxQueue.queue, RetxAt s.mod a (s.top n) hist r) : TxInv s' a n hist where
  window := hf.window h.window
  short := h.short
  queue := by rw [hf.sduQueue]; exact h.queue
  queued := by rw [hf.sduQueue]; exact h.queued
  retx := by
    have hmod : s'.mod = s.mod := by rw [mod, mod, hf.cfg]
    have htop : s'.top n = s.top n := by rw [top, top, hf.seg]
    rw [hmod, htop]
    exact hr

theorem queue_of_read {res : Option RlcSdu} {q : SduQueue}
    (hread : s.sduQueue.read = (res, q)) :
    q.Inv ∧ (∀ sdu ∈ q.queue, SduOk sdu.buf) ∧ ∀ sdu, res = some sdu → SduOk sdu.buf := by
  have hinv := (SduQueue.read_spec h.queue).2.2
  have hq := SduQueue.readLoop_queue s.sduQueue.queue s.sduQueue
  rw [← SduQueue.read, hread] at hq
  rw [hread] at hinv
  exact ⟨hinv, fun sdu hm => h.queued sdu (hq.1.mem hm), fun sdu hs => h.queued sdu (hq.2 sdu hs)⟩

theorem of_pulled {grantLen : Nat} {status : Option RlcAmStatusPdu}
    {pdu : List UInt8} (hp : Pulled s a n hist grantLen status pdu s') :
    ∃ n' hist', TxInv s' a n' hist' ∧ n ≤ n' ∧
      (hist' = hist ∨ ∃ sdu, SduOk sdu ∧ hist' = hist ++ [sdu]) := by
  cases hp with
  | idle _ => exact ⟨n, hist, h, Nat.le_refl n, .inl rfl⟩
  | report _ => exact ⟨n, hist, h, Nat.le_refl n, .inl rfl⟩
  | retx hq _ _ hp => exact ⟨n, hist, h.frame hp.frame (hp.retx_at hq h.retx), Nat.le_refl n, .inl rfl⟩
  | continued hq hseg hinfo hok hp =>
    cases hp with
    | blocked _ => exact ⟨n, hist, h, Nat.le_refl n, .inl rfl⟩
    | middle hg hlong hpoll =>
      have hpolled := polled hpoll
      refine ⟨n, hist, ⟨h.window.sentMiddle hseg hinfo (by omega) hpolled, h.short, ?_, ?_, ?_⟩,
        Nat.le_refl n, .inl rfl⟩
      · rw [hpolled.sduQueue]; exact h.queue
      · rw [hpolled.sduQueue]; exact h.queued
      · rw [hpolled.retxQueue, hq]; simp
    | last hfit hpoll =>
      have hpolled := polled hpoll
      refine ⟨n + 1, hist, ⟨h.window.sentLast hseg hpolled, h.short, ?_, ?_, ?_⟩,
        Nat.le_succ n, .inl rfl⟩
      · rw [hpolled.sduQueue]; exact h.queue
      · rw [hpolled.sduQueue]; exact h.queued
      · rw [hpolled.retxQueue]
        change ∀ r ∈ s.retxQueue.queue, _
        rw [hq]
        simp
  | new hq hseg hp =>
    cases hp with
    | blocked _ => exact ⟨n, hist, h, Nat.le_refl n, .inl rfl⟩
    | drained hread =>
      obtain ⟨hinv, hqueued, -⟩ := h.queue_of_read hread
      exact ⟨n, hist, ⟨h.window.congr rfl rfl rfl rfl rfl, h.short, hinv, hqueued, h.retx⟩,
        Nat.le_refl n, .inl rfl⟩
    | @full sdu q p t hfull hread hfit hpoll =>
      have hpolled := polled hpoll
      obtain ⟨hinv, hqueued, hsdu⟩ := h.queue_of_read hread
      have hok := hsdu sdu rfl
      refine ⟨n + 1, hist ++ [sdu.buf], ⟨h.window.sentFull hseg hfull hok.1 hpolled, ?_, ?_, ?_, ?_⟩,
        Nat.le_succ n, .inr ⟨sdu.buf, hok, rfl⟩⟩
      · exact List.forall_mem_append.mpr ⟨h.short, List.forall_mem_singleton.mpr hok.2⟩
      · rw [hpolled.sduQueue]; exact hinv
      · rw [hpolled.sduQueue]; exact hqueued
      · rw [hpolled.retxQueue]
        change ∀ r ∈ s.retxQueue.queue, _
        rw [hq]
        simp
    | @first sdu q p t hfull hread hg hlong hpoll =>
      have hpolled := polled hpoll
      obtain ⟨hinv, hqueued, hsdu⟩ := h.queue_of_read hread
      have hok := hsdu sdu rfl
      refine ⟨n, hist ++ [sdu.buf],
        ⟨h.window.sentFirst hseg hfull (Nat.sub_pos_of_lt hg) (by omega) hpolled, ?_, ?_, ?_, ?_⟩,
        Nat.le_refl n, .inr ⟨sdu.buf, hok, rfl⟩⟩
      · exact List.forall_mem_append.mpr ⟨h.short, List.forall_mem_singleton.mpr hok.2⟩
      · rw [hpolled.sduQueue]; exact hinv
      · rw [hpolled.sduQueue]; exact hqueued
      · rw [hpolled.retxQueue]
        change ∀ r ∈ s.retxQueue.queue, _
        rw [hq]
        simp

theorem dropStale_eq :
    dropStaleRetx s.txWindow s.retxQueue.queue s.retxQueue = s.retxQueue := by
  cases hq : s.retxQueue.queue with
  | nil => rfl
  | cons r rest =>
    obtain ⟨info, hinfo, -⟩ := h.retx_entry (h.retx r (by rw [hq]; exact List.mem_cons_self))
    exact dropStaleRetx_of_contains (by simp [CircularMap.contains, hinfo]) _

theorem buffer_eq (hk : BufferKeeps s s') :
    ∃ b p bs, s' = { s with
      sduQueue := s'.sduQueue, suspendBsNotifBarring := b, pendingBufferState := p
      prevBufferState := bs } := by
  obtain ⟨b, p, bs, heq⟩ := hk.eq
  rw [h.dropStale_eq] at heq
  exact ⟨b, p, bs, heq⟩

theorem withQueue (hw : WindowInv s' a n hist) (hcfg : s'.cfg = s.cfg)
    (hseg : s'.snUnderSegmentation = s.snUnderSegmentation) (hretx : s'.retxQueue = s.retxQueue)
    (hq : s'.sduQueue.Inv) (hqueued : ∀ sdu ∈ s'.sduQueue.queue, SduOk sdu.buf) :
    TxInv s' a n hist where
  window := hw
  short := h.short
  queue := hq
  queued := hqueued
  retx := by
    have hmod : s'.mod = s.mod := by rw [mod, mod, hcfg]
    have htop : s'.top n = s.top n := by rw [top, top, hseg]
    rw [hmod, htop, hretx]
    exact h.retx

theorem buffer (hk : BufferKeeps s s') : TxInv s' a n hist := by
  have hqueue : s'.sduQueue.Inv := by
    rcases hk.sduQueue with hq | hq
    · rw [hq]
      exact h.queue
    · rw [hq]
      exact (SduQueue.front_spec h.queue).2.2
  obtain ⟨b, p, bs, heq⟩ := h.buffer_eq hk
  exact h.withQueue (h.window.buffer hk) (by rw [heq]) (by rw [heq]) (by rw [heq]) hqueue
    (fun sdu hm => h.queued sdu (hk.queue_suffix.mem hm))

theorem handleSdu {buf : List UInt8} (hbuf : SduOk buf) (isRetx : Bool) (now : Nat) (p : Bool) :
    TxInv { s with
      sduQueue := (s.sduQueue.write (s.newSdu buf isRetx now)).2, pendingBufferState := p } a n hist := by
  have hsn : ∀ sn, (s.newSdu buf isRetx now).pdcpSn = some sn → sn < SduQueue.stateDiscarded :=
    fun _ => getPdcpSn_lt
  refine h.withQueue (h.window.congr rfl rfl rfl rfl rfl) rfl rfl rfl
    (SduQueue.write_spec h.queue hsn).1 ?_
  intro sdu hm
  rcases s.sduQueue.write_queue (s.newSdu buf isRetx now) with hw | hw
  · exact h.queued sdu (by rw [← hw]; exact hm)
  · simp only [hw, List.mem_append, List.mem_singleton] at hm
    rcases hm with hm | rfl
    · exact h.queued sdu hm
    · exact hbuf

theorem discardSdu {pdcpSn : Nat} (hsn : pdcpSn < SduQueue.stateDiscarded) (p : Bool) :
    TxInv { s with sduQueue := (s.sduQueue.tryDiscard pdcpSn).2, pendingBufferState := p } a n hist := by
  refine h.withQueue (h.window.congr rfl rfl rfl rfl rfl) rfl rfl rfl
    (SduQueue.tryDiscard_spec h.queue hsn).2.2 ?_
  rw [SduQueue.tryDiscard_queue]
  exact h.queued

theorem keeps (hk : RetxKeeps s s')
    (hr : ∀ r ∈ s'.retxQueue.queue, RetxAt s.mod a (s.top n) hist r) : TxInv s' a n hist where
  window := h.window.keeps hk
  short := h.short
  queue := by rw [hk.sduQueue]; exact h.queue
  queued := by rw [hk.sduQueue]; exact h.queued
  retx := by
    have htop : s'.top n = s.top n := by rw [top, top, hk.seg]
    rw [hk.mod, htop]
    exact hr

end

end TxInv

theorem Scheduled.mem {P Q : RlcTxAmdRetx → Prop} {q q' : RlcRetxQueue} (h : Scheduled P q q')
    (hq : ∀ r ∈ q.queue, Q r) (hP : ∀ r, P r → Q r) : ∀ r ∈ q'.queue, Q r := by
  induction h with
  | refl => exact hq
  | push _ hp hpush ih =>
    unfold RlcRetxQueue.tryPush at hpush
    split at hpush <;> cases hpush
    exact List.forall_mem_append.mpr ⟨ih, List.forall_mem_singleton.mpr (hP _ hp)⟩

theorem Scheduled.imp {P Q : RlcTxAmdRetx → Prop} {q q' : RlcRetxQueue} (h : Scheduled P q q')
    (hP : ∀ r, P r → Q r) : Scheduled Q q q' := by
  induction h with
  | refl => exact .refl
  | push _ hp hpush ih => exact .push ih (hP _ hp) hpush

theorem pop_iterate_queue (q : RlcRetxQueue) : (RlcRetxQueue.pop^[q.queue.length] q).queue = [] := by
  generalize hl : q.queue = l
  induction l generalizing q with
  | nil => exact hl
  | cons r rest ih =>
    rw [List.length_cons, Function.iterate_succ_apply]
    exact ih q.pop (by simp [RlcRetxQueue.pop, hl])

theorem handleStatusPdu_cases {status : RlcAmStatusPdu} {statusBytes : Option Nat}
    (hs : s.handleStatusPdu status statusBytes = .ok s') :
    s' = s ∨ ∃ running s₁ s₂ s₃ prev, AckMoves { s with pollRetransmitTimerRunning := running } s₁ ∧
      RetxKeeps s₁ s₂ ∧ s₂.retxQueue.queue = [] ∧
      nackLoop status.ackSn status.nacks none s₂ = .ok (prev, s₃) ∧ BufferKeeps s₃ s' := by
  unfold RlcTxAmEntity.handleStatusPdu at hs
  split at hs
  · cases hs
    exact .inl rfl
  · simp only at hs
    obtain ⟨s₁, hack, hs⟩ := bind_eq_ok.mp hs
    obtain ⟨s₂, hclear, hs⟩ := bind_eq_ok.mp hs
    obtain ⟨⟨prev, s₃⟩, hnack, hs⟩ := bind_eq_ok.mp hs
    cases hs
    obtain ⟨s', hs', hk, hq⟩ := clearRetxQueue_spec s₁.retxQueue.queue s₁
    rw [hclear] at hs'
    cases hs'
    have hempty : s₂.retxQueue.queue = [] := by rw [hq, pop_iterate_queue]
    have hmoves : ∃ running, AckMoves { s with pollRetransmitTimerRunning := running } s₁ := by
      split at hack
      · exact ⟨false, ackLoop_moves hack⟩
      · exact ⟨s.pollRetransmitTimerRunning, ackLoop_moves hack⟩
    obtain ⟨running, hmoves⟩ := hmoves
    exact .inr ⟨running, s₁, s₂, s₃, prev, hmoves, hk, hempty, hnack, updateMacBufferState_keeps _ _ _⟩

theorem lastByte_eq {info : RlcTxAmSduInfo} (h : info.sdu ≠ []) :
    lastByte info = (info.sdu.length - 1) % 2 ^ 16 := by
  have hpos := List.length_pos_of_ne_nil h
  rw [lastByte, subU32_mod (by decide)]
  refine dist_unique (Nat.mod_lt _ (by decide)) ?_
  lia

theorem nackSoEnd_lt {nack : RlcAmStatusNack} {info : RlcTxAmSduInfo} {e : Nat}
    (hend : nack.soEnd < 2 ^ 16) (h : s.nackSoEnd nack info = some e) : e < 2 ^ 16 := by
  have hlast : lastByte info < 2 ^ 16 := Nat.mod_lt _ (by decide)
  have hnext : subU32 info.nextSo 1 % 2 ^ 16 < 2 ^ 16 := Nat.mod_lt _ (by decide)
  unfold nackSoEnd at h
  generalize hsoEnd : (if nack.so.isSome then nack.soEnd else lastByte info) = soEnd at h
  have hsoEnd' : soEnd < 2 ^ 16 := by
    rw [← hsoEnd]
    split
    · exact hend
    · exact hlast
  simp only at h
  split at h
  · split at h
    · rw [← Option.some.inj h]
      exact hlast
    · split at h
      · cases h
      · split at h
        · cases h
        · split at h
          · cases h
          · rw [← Option.some.inj h]
            exact hnext
  · rw [← Option.some.inj h]
    exact hsoEnd'

theorem checkedRetx_inside {nack : RlcAmStatusNack} {info : RlcTxAmSduInfo} {e : Nat}
    (hne : info.sdu ≠ []) (he : e < 2 ^ 16) :
    ∃ first last, checkedRetx nack info e = { sn := nack.nackSn, so := first, length := last + 1 - first } ∧
      first ≤ last ∧ last ≤ e ∧ last < info.sdu.length ∧ (last = e ∨ last + 1 = info.sdu.length) := by
  have hpos := List.length_pos_of_ne_nil hne
  have hlast := lastByte_eq hne
  refine ⟨if (if nack.soStart > e then 0 else nack.soStart) ≥ info.sdu.length then 0
      else if nack.soStart > e then 0 else nack.soStart,
    if e ≥ info.sdu.length then lastByte info else e, ?_⟩
  generalize hs1 : (if nack.soStart > e then 0 else nack.soStart) = s1
  generalize hs2 : (if s1 ≥ info.sdu.length then 0 else s1) = s2
  generalize he2 : (if e ≥ info.sdu.length then lastByte info else e) = e2
  have h1 : s1 ≤ e := by split at hs1 <;> omega
  have h2 : s2 ≤ s1 ∧ s2 < info.sdu.length := by split at hs2 <;> omega
  have h3 : s2 ≤ e2 ∧ e2 ≤ e ∧ e2 < info.sdu.length ∧ (e2 = e ∨ e2 + 1 = info.sdu.length) := by
    split at he2 <;> lia
  have hx : subU32 (e2 + 1) s2 = e2 + 1 - s2 := dist_of_le (by omega) (by omega)
  refine ⟨?_, h3⟩
  simp only [checkedRetx, hs1, hs2, he2, hx]

theorem nackRetx_inside {nack : RlcAmStatusNack} {info : RlcTxAmSduInfo} {retx : RlcTxAmdRetx}
    (hne : info.sdu ≠ []) (hend : nack.soEnd < 2 ^ 16) (h : s.nackRetx nack info = some retx) :
    retx.sn = nack.nackSn ∧ 0 < retx.length ∧ retx.so + retx.length ≤ info.sdu.length := by
  obtain ⟨e, he, rfl⟩ := Option.map_eq_some_iff.mp h
  obtain ⟨first, last, heq, hle, -, hlt, -⟩ := checkedRetx_inside hne (nackSoEnd_lt hend he)
  rw [heq]
  refine ⟨rfl, ?_, ?_⟩
  · change 0 < last + 1 - first
    omega
  · change first + (last + 1 - first) ≤ info.sdu.length
    omega

theorem expand_soEnd_lt {m : Nat} {sz : RlcAmSnSize} {nack item : RlcAmStatusNack} (hwf : nack.Wf sz)
    (hitem : item ∈ nack.expand m) : item.soEnd < 2 ^ 16 := by
  have hend := hwf.soEnd_lt
  unfold RlcAmStatusNack.expand at hitem
  split at hitem
  · obtain ⟨i, -, rfl⟩ := List.mem_map.mp hitem
    have hspan := congrArg Span.last
      (RlcAmStatusNack.rangeItem_span (m := m) nack ((nack.nackSn + i) % m))
    simp only [RlcAmStatusNack.span] at hspan
    rw [hspan]
    split
    · exact hend
    · decide
  · rw [List.mem_singleton.mp hitem]
    exact hend

/-- What a status PDU leaves in place, once TX_Next_Ack stands at `a'`. -/
structure StatusKeeps (s : RlcTxAmEntity) (a' n : Nat) (s' : RlcTxAmEntity) : Prop where
  cfg : s'.cfg = s.cfg
  next : s'.st.txNext = s.st.txNext
  seg : s'.snUnderSegmentation = s.snUnderSegmentation
  entry : ∀ j info, a' ≤ j → j < s.top n → s.txWindow.lookup (j % s.mod) = some info →
    ∃ c, s'.txWindow.lookup (j % s.mod) = some { info with retxCount := c }

/-- An accepted report acknowledges the SNs before its first NACK, and schedules RETX for its
NACKs alone. -/
theorem TxInv.handleStatusPdu (h : TxInv s a n hist) {status : RlcAmStatusPdu}
    (hwf : ∀ nack ∈ status.nacks, nack.Wf s.cfg.snFieldLength)
    (hacc : s.acceptsStatus status = true) (hack : s.acksUnfinished status = false)
    (hnack : s.nacksUnassigned status = false) (statusBytes : Option Nat)
    (P : RlcTxAmdRetx → Prop)
    (hP : ∀ nack ∈ status.nacks, ∀ item ∈ nack.expand s.mod, ∀ k info retx, a ≤ k → k < s.top n →
      item.nackSn = k % s.mod → s.txWindow.lookup (k % s.mod) = some info →
      s.nackRetx item info = some retx → P retx) :
    ∃ a' s', s.handleStatusPdu status statusBytes = .ok s' ∧
      a' = min (a + s.txModBase (stopSn status)) n ∧ TxInv s' a' n hist ∧
      Scheduled P (RlcRetxQueue.pop^[s.retxQueue.queue.length] s.retxQueue) s'.retxQueue ∧
      StatusKeeps s a' n s' := by
  obtain ⟨r, s1, s2, hacked, hk, hq2, heq⟩ := handleStatusPdu_spec h.window hacc hack statusBytes
  generalize ha' : min (a + s.txModBase (stopSn status)) n = a' at hacked
  have haa : a ≤ a' := by have := h.window.le; omega
  obtain ⟨w, hw⟩ := hacked.eq
  have hmod1 : s1.mod = s.mod := by rw [hw]; rfl
  have hmod2 : s2.mod = s.mod := by rw [hk.mod, hmod1]
  have hseg1 : s1.snUnderSegmentation = s.snUnderSegmentation := by rw [hw]
  have hseg2 : s2.snUnderSegmentation = s.snUnderSegmentation := by rw [hk.seg, hseg1]
  have htop2 : s2.top n = s.top n := by rw [top, top, hseg2]
  have hinv2 := hacked.inv.keeps hk
  -- an SN that is still in the window stands for a position from `a'` on, and for the same SDU
  have hold : ∀ sn info, s2.txWindow.lookup sn = some info → ∃ k info0, a' ≤ k ∧ k < s.top n ∧
      sn = k % s.mod ∧ s.txWindow.lookup (k % s.mod) = some info0 ∧
      info = { info0 with retxCount := info.retxCount } := by
    intro sn info hl
    obtain ⟨k, hka, hkt, hsn⟩ := hinv2.window.only sn info hl
    rw [hmod2] at hsn
    rw [htop2] at hkt
    obtain ⟨info0, h0, hi0⟩ := hk.sdus.present_inv hl
    rw [hsn] at h0
    exact ⟨k, info0, hka, hkt, hsn, (hacked.lookup k hka hkt).symm.trans h0, hi0⟩
  have hretx2 : ∀ item info, s2.nackRetx item info = s.nackRetx item info := by
    intro item info
    rw [nackRetx, nackRetx, nackSoEnd, nackSoEnd, hseg2]
  have hsn : ∀ nack ∈ status.nacks, nack.nackSn < s2.mod := by
    rw [hmod2]
    exact fun nack hn => (hwf nack hn).nackSn_lt
  obtain ⟨⟨res, s3⟩, h3⟩ := nackLoop_ok hinv2 status.ackSn none hsn (by
    intro nack hn item hitem hnext hseg
    rw [hmod2] at hitem
    have hnext1 : s2.st.txNext = s.st.txNext := by rw [hk.st, hw]
    rw [hnext1] at hnext
    rw [hseg2] at hseg
    simp only [nacksUnassigned, hseg, Option.isNone_none, Bool.true_and, List.any_eq_false,
      List.any_eq_true, not_exists, not_and] at hnack
    exact hnack nack hn item hitem (by simpa using hnext))
  have hgives : ∀ nack ∈ status.nacks, ∀ item ∈ nack.expand s2.mod,
      NackGives s2 (fun retx => P retx ∧ RetxAt s.mod a' (s.top n) hist retx) item := by
    intro nack hn item hitem info retx hl hr
    rw [hmod2] at hitem
    obtain ⟨k, info0, hka, hkt, hsnk, h0, hinfo⟩ := hold _ info hl
    rw [hretx2, hinfo] at hr
    have hr0 : s.nackRetx item info0 = some retx := hr
    have hPr := hP nack hn item hitem k info0 retx (by omega) hkt hsnk h0 hr0
    obtain ⟨infok, hk0, hok⟩ := h.window.entry k (by omega) hkt
    rw [h0] at hk0
    cases hk0
    obtain ⟨hrsn, hpos, hin⟩ := nackRetx_inside hok.ne_nil (expand_soEnd_lt (hwf nack hn) hitem) hr0
    exact ⟨hPr, k, info0.sdu, hka, hkt, hrsn.trans hsnk, hok.assigned, hpos, hin⟩
  obtain ⟨hk3, hsched⟩ := nackLoop_keeps hsn hgives h3
  have hsdu2 : s2.sduQueue = s.sduQueue := by rw [hk.sduQueue, hw]
  have h2 : TxInv s2 a' n hist := by
    refine ⟨hinv2, h.short, by rw [hsdu2]; exact h.queue, by rw [hsdu2]; exact h.queued, ?_⟩
    rw [hq2, pop_iterate_queue]
    simp
  have hb := updateMacBufferState_keeps s3 true statusBytes
  have h3inv : TxInv s3 a' n hist := h2.keeps hk3 (by
    rw [hmod2, htop2]
    refine hsched.mem ?_ (fun r hr => hr.2)
    rw [hq2, pop_iterate_queue]
    simp)
  obtain ⟨b, p, bs, hbuf⟩ := h3inv.buffer_eq hb
  refine ⟨a', _, by rw [heq, h3]; rfl, rfl, h3inv.buffer hb, ?_, ?_⟩
  · rw [hbuf, ← hq2]
    exact hsched.imp (fun r hr => hr.1)
  · refine ⟨?_, ?_, ?_, ?_⟩
    · rw [hbuf]; exact hk3.cfg.trans (hk.cfg.trans (by rw [hw]))
    · rw [hbuf]
      change s3.st.txNext = _
      rw [hk3.st, hk.st, hw]
    · rw [hbuf]; exact hk3.seg.trans hseg2
    · intro j info hj hjt hl
      rw [hbuf]
      have hl1 : s1.txWindow.lookup (j % s.mod) = some info := (hacked.lookup j hj hjt).trans hl
      obtain ⟨c, hc⟩ := (hk.sdus.trans hk3.sdus).present _ info hl1
      exact ⟨c, hc⟩

theorem TxInv.onExpiredPollRetransmitTimer (h : TxInv s a n hist) (statusBytes : Option Nat) :
    ∃ s', s.onExpiredPollRetransmitTimer statusBytes = .ok s' ∧ TxInv s' a n hist ∧
      Scheduled (fun r => a < s.top n ∧ r.sn = a % s.mod ∧
        (s.snUnderSegmentation = none ∨ s.isTxWindowFull = true)) s.retxQueue s'.retxQueue ∧
      StatusKeeps s a n s' := by
  obtain ⟨s', hs', hcase⟩ := onExpiredPollRetransmitTimer_spec s statusBytes
  have h0 : TxInv { s with pollRetransmitTimerRunning := false } a n hist :=
    h.withQueue (h.window.congr rfl rfl rfl rfl rfl) rfl rfl rfl h.queue h.queued
  refine ⟨s', hs', ?_⟩
  rcases hcase with rfl | ⟨s1, info, hinfo, hidle, hk, hpush, rfl⟩
  · exact ⟨h0, .refl, rfl, rfl, rfl, fun j info _ _ hl => ⟨info.retxCount, hl⟩⟩
  · -- TX_Next_Ack is in the window, so it is the position `a` of an SDU
    have hle := h.window.le
    have ha : a < s.top n := by
      rw [h.window.ack] at hinfo
      have hpos := amWindowSize_pos (s := s)
      exact (h.window.contains_iff (Nat.le_refl a) (by omega)).mp
        (by simp [CircularMap.contains, hinfo])
    obtain ⟨infoa, ha0, hok⟩ := h.window.entry a (Nat.le_refl a) ha
    rw [← h.window.ack, hinfo] at ha0
    cases ha0
    have hseg : s.snUnderSegmentation = none ∨ s.isTxWindowFull = true := by
      rcases hidle with ⟨-, -, hnone⟩ | hfull
      · exact .inl hnone
      · exact .inr hfull
    have hsched : Scheduled (fun r => (a < s.top n ∧ r.sn = a % s.mod ∧
        (s.snUnderSegmentation = none ∨ s.isTxWindowFull = true)) ∧
        RetxAt s.mod a (s.top n) hist r) s.retxQueue s1.retxQueue := by
      rcases hpush with hq | hq
      · rw [hq]
        exact .refl
      · refine .push .refl ⟨⟨ha, h.window.ack, hseg⟩, ?_⟩ hq
        exact ⟨a, info.sdu, Nat.le_refl a, ha, h.window.ack, hok.assigned,
          List.length_pos_of_ne_nil hok.ne_nil, by simp⟩
    have h1 : TxInv s1 a n hist := h0.keeps hk (hsched.mem h.retx (fun r hr => hr.2))
    have hb := updateMacBufferState_keeps s1 true statusBytes
    obtain ⟨b, p, bs, hbuf⟩ := h1.buffer_eq hb
    refine ⟨h1.buffer hb, ?_, ?_, ?_, ?_, ?_⟩
    · rw [hbuf]
      exact hsched.imp (fun r hr => hr.1)
    · rw [hbuf]; exact hk.cfg
    · rw [hbuf]
      change s1.st.txNext = _
      rw [hk.st]
    · rw [hbuf]; exact hk.seg
    · intro j info hj hjt hl
      rw [hbuf]
      obtain ⟨c, hc⟩ := hk.sdus.present _ info hl
      exact ⟨c, hc⟩

end Ocudu.Rlc.RlcTxAmEntity
