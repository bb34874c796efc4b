import Ocudu.Rlc.RetxSchedule

/-! A report that is handled again and again, with nothing sent in between: the second time the
RETX queue and the counts are rewound to where the first time found them. -/

namespace Ocudu.Rlc.RlcTxAmEntity

open RlcRetxQueue

variable {s s' t u : RlcTxAmEntity} {w w' : CircularMap RlcTxAmSduInfo}
variable {status : RlcAmStatusPdu} {statusBytes : Option Nat}

/-- An accepted report: the acknowledgements, the clearing of the RETX queue, the NACKs and the
buffer state. -/
theorem handleStatusPdu_eq (hacc : s.acceptsStatus status = true) (statusBytes : Option Nat) :
    ∃ running, s.handleStatusPdu status statusBytes = (do
      let s ← ackLoop (stopSn status) s.mod s.st.txNextAck { s with pollRetransmitTimerRunning := running }
      let s ← clearRetxQueue s.retxQueue.queue s
      let (_, s) ← nackLoop status.ackSn status.nacks none s
      return (s.updateMacBufferState true statusBytes).2) := by
  unfold handleStatusPdu
  simp only [hacc, Bool.not_true, Bool.false_eq_true, if_false]
  split
  · exact ⟨false, rfl⟩
  · exact ⟨s.pollRetransmitTimerRunning, rfl⟩

theorem handleStatusPdu_stages (hacc : s.acceptsStatus status = true)
    (hs : s.handleStatusPdu status statusBytes = .ok t) :
    ∃ running s₁ s₂ s₃ prev,
      ackLoop (stopSn status) s.mod s.st.txNextAck { s with pollRetransmitTimerRunning := running } = .ok s₁ ∧
      clearRetxQueue s₁.retxQueue.queue s₁ = .ok s₂ ∧
      nackLoop status.ackSn status.nacks none s₂ = .ok (prev, s₃) ∧
      t = (s₃.updateMacBufferState true statusBytes).2 := by
  obtain ⟨running, heq⟩ := handleStatusPdu_eq hacc statusBytes
  rw [heq] at hs
  obtain ⟨s₁, hack, hs⟩ := bind_eq_ok.mp hs
  obtain ⟨s₂, hclear, hs⟩ := bind_eq_ok.mp hs
  obtain ⟨⟨prev, s₃⟩, hnack, hs⟩ := bind_eq_ok.mp hs
  cases hs
  exact ⟨running, s₁, s₂, s₃, prev, hack, hclear, hnack, rfl⟩

theorem handleStatusPdu_of_rejected (hacc : s.acceptsStatus status = false) (statusBytes : Option Nat) :
    s.handleStatusPdu status statusBytes = .ok s := by
  unfold handleStatusPdu
  rw [hacc]
  rfl

/-! The RETX queue and the counts in every state reached. -/

theorem Recounted.fit {f : Nat → Nat → Nat} (h : Recounted w w' f)
    (hf : ∀ sn n, n < 2 ^ 32 → f sn n < 2 ^ 32) (hw : CountsFit w) : CountsFit w' := by
  intro sn info hl
  rw [h sn] at hl
  obtain ⟨info', hinfo', rfl⟩ := Option.map_eq_some_iff.mp hl
  exact hf sn _ (hw sn info' hinfo')

theorem Schedules.moves {prev prev' : Option Nat} {l : List RlcTxAmdRetx} (h : Schedules s prev s' prev' l) :
    RetxMoves s s' :=
  ⟨h.steps, h.counts.fit (fun _ _ hn => (retxTimes_ups hn _).1)⟩

theorem AckMoves.moves (h : AckMoves s s') : RetxMoves s s' := by
  obtain ⟨w, a, heq⟩ := h.eq
  have hq : s'.retxQueue = s.retxQueue := by rw [heq]
  refine ⟨?_, fun hc sn info hl => hc sn info (h.left sn info hl)⟩
  rw [hq]
  exact .refl

theorem clearRetxQueue_moves (hs : clearRetxQueue s.retxQueue.queue s = .ok s') : RetxMoves s s' := by
  obtain ⟨s'', hs'', -, hq⟩ := clearRetxQueue_spec s.retxQueue.queue s
  rw [hs] at hs''
  cases hs''
  refine ⟨?_, (clearRetxQueue_recounted hs).1.fit (fun _ _ hn => (retxTimes_downs hn _).1)⟩
  rw [hq]
  exact Steps.pops _ _

theorem handleStatusPdu_retxMoves (hs : s.handleStatusPdu status statusBytes = .ok t) : RetxMoves s t := by
  cases hacc : s.acceptsStatus status with
  | false =>
    rw [handleStatusPdu_of_rejected hacc] at hs
    cases hs
    exact .refl s
  | true =>
    obtain ⟨running, s₁, s₂, s₃, prev, hack, hclear, hnack, rfl⟩ := handleStatusPdu_stages hacc hs
    obtain ⟨l, hl⟩ := nackLoop_schedules hnack
    have h₀ : RetxMoves s { s with pollRetransmitTimerRunning := running } := .of_eq rfl rfl
    have h₁ := h₀.trans (ackLoop_moves hack).moves
    have h₂ := h₁.trans (clearRetxQueue_moves hclear)
    exact (h₂.trans hl.moves).trans (updateMacBufferState_keeps s₃ true statusBytes).moves

theorem onExpiredPollRetransmitTimer_retxMoves (hs : s.onExpiredPollRetransmitTimer statusBytes = .ok t) :
    RetxMoves s t := by
  have hoff : RetxMoves s { s with pollRetransmitTimerRunning := false } := .of_eq rfl rfl
  unfold onExpiredPollRetransmitTimer at hs
  dsimp only at hs
  split at hs
  · split at hs
    · cases hs
      exact hoff
    · split at hs
      · cases hs
        exact hoff
      · rename_i info hinfo
        split at hs
        · rename_i q hq
          obtain ⟨s₁, h₁, hs⟩ := bind_eq_ok.mp hs
          cases hs
          obtain ⟨-, hq₁⟩ := RetxKeeps.setRetxCount h₁
          obtain ⟨hc, -⟩ := setRetxCount_recounted h₁
          have hmoves : RetxMoves s s₁ := by
            refine ⟨?_, hc.fit ?_⟩
            · rw [hq₁]
              exact .push .refl hq
            · intro sn n hn
              split
              · exact countUp_lt n
              · exact hn
          exact hmoves.trans (updateMacBufferState_keeps s₁ true statusBytes).moves
        · cases hs
          exact hoff.trans (updateMacBufferState_keeps _ true statusBytes).moves
  · cases hs
    exact hoff

theorem step_retxMoves {e : TxEvent} (hs : s.step e = .ok t) : RetxMoves s t := by
  obtain ⟨pdu, hr⟩ := step_cases hs
  cases hr with
  | handleSdu | discardSdu | stop => exact .of_eq rfl rfl
  | pullPdu hp => exact pullPdu_retxMoves hp
  | controlPdu hc =>
    obtain ⟨res, -, hc⟩ := bind_eq_ok.mp hc
    cases res with
    | none =>
      cases hc
      exact .refl s
    | some status => exact handleStatusPdu_retxMoves hc
  | pollRetransmit hp => exact onExpiredPollRetransmitTimer_retxMoves hp
  | notRunning => exact .refl s
  | updateMac hb | getBuffer hb => exact hb.moves

structure RetxOk (s : RlcTxAmEntity) : Prop where
  queue : s.retxQueue.Bounded
  counts : CountsFit s.txWindow

theorem RetxOk.new (cfg : RlcTxAmConfig) : RetxOk (RlcTxAmEntity.new cfg) :=
  ⟨new_bounded _, by simp [CountsFit, RlcTxAmEntity.new]⟩

theorem RetxOk.moves (h : RetxOk s) (hm : RetxMoves s s') : RetxOk s' :=
  ⟨h.queue.steps hm.queue, hm.counts h.counts⟩

theorem RetxOk.run {cfg : RlcTxAmConfig} {events : List TxEvent}
    (hrun : Machine.run step (RlcTxAmEntity.new cfg) events = .ok s) : RetxOk s :=
  Machine.run_invariant RetxOk (fun _ _ _ hi _ hs => hi.moves (step_retxMoves hs)) (RetxOk.new cfg)
    (Machine.admits_of_forall (fun _ _ => trivial) _ _) hrun

def AckDone (stop : Nat) (s : RlcTxAmEntity) : Prop :=
  s.txModBase s.st.txNextAck < s.txModBase stop → s.txWindow.contains s.st.txNextAck = false

theorem ackLoop_done {stop fuel : Nat} (hs : ackLoop stop fuel s.st.txNextAck s = .ok s') : AckDone stop s' := by
  induction fuel generalizing s with
  | zero =>
    rw [ackLoop] at hs
    split at hs
    · cases hs
    · rename_i hstop
      cases hs
      exact fun hlt => absurd hlt hstop
  | succ fuel ih =>
    rw [ackLoop] at hs
    split at hs
    · dsimp only at hs
      split at hs
      · exact ih (s := { s with
          txWindow := s.txWindow.erase s.st.txNextAck
          st := { s.st with txNextAck := s.nextSn s.st.txNextAck } }) hs
      · rename_i habs
        cases hs
        exact fun _ => Bool.eq_false_iff.mpr habs
    · rename_i hstop
      cases hs
      exact fun hlt => absurd hlt hstop

theorem AckDone.again {stop fuel : Nat} (h : AckDone stop s) (hfuel : 0 < fuel) :
    ackLoop stop fuel s.st.txNextAck s = .ok s := by
  obtain ⟨n, rfl⟩ := Nat.exists_eq_succ_of_ne_zero (Nat.ne_of_gt hfuel)
  rw [ackLoop]
  split
  · rename_i hlt
    rw [h hlt]
    rfl
  · rfl

/-! The NACKs look at nothing but the configuration, the state variables, the SN under
segmentation, the window and the RETX queue. -/

structure Matches (s u : RlcTxAmEntity) : Prop where
  cfg : u.cfg = s.cfg
  st : u.st = s.st
  seg : u.snUnderSegmentation = s.snUnderSegmentation
  txWindow : u.txWindow = s.txWindow
  retxQueue : u.retxQueue = s.retxQueue

namespace Matches

section

variable (h : Matches s u)
include h

theorem mod : u.mod = s.mod := by rw [RlcTxAmEntity.mod, RlcTxAmEntity.mod, h.cfg]

theorem txModBase (x : Nat) : u.txModBase x = s.txModBase x := by
  rw [RlcTxAmEntity.txModBase, RlcTxAmEntity.txModBase, h.st, h.mod]

theorem nextSn (sn : Nat) : u.nextSn sn = s.nextSn sn := by
  rw [RlcTxAmEntity.nextSn, RlcTxAmEntity.nextSn, h.mod]

theorem nackRetx (nack : RlcAmStatusNack) (info : RlcTxAmSduInfo) :
    u.nackRetx nack info = s.nackRetx nack info := by
  rw [RlcTxAmEntity.nackRetx, RlcTxAmEntity.nackRetx, nackSoEnd, nackSoEnd, h.seg]

theorem handleNack {nack : RlcAmStatusNack} {b : Bool}
    (hs : s.handleNack nack = .ok (b, s')) : ∃ u', u.handleNack nack = .ok (b, u') ∧ Matches s' u' := by
  unfold RlcTxAmEntity.handleNack at hs ⊢
  simp only [h.txModBase, h.st, h.txWindow, h.retxQueue, h.nackRetx]
  split at hs
  · rename_i hrange
    cases hs
    exact ⟨u, by rw [if_pos hrange], h⟩
  · rename_i hrange
    rw [if_neg hrange]
    split at hs
    · rename_i hout
      cases hs
      exact ⟨u, by rw [if_pos hout], h⟩
    · rename_i hout
      rw [if_neg hout]
      cases hl : s.txWindow.lookup nack.nackSn with
      | none =>
        rw [hl] at hs
        cases hs
      | some info =>
        rw [hl] at hs
        dsimp only at hs ⊢
        cases hr : s.nackRetx nack info with
        | none =>
          rw [hr] at hs
          cases hs
          exact ⟨u, rfl, h⟩
        | some retx =>
          rw [hr] at hs
          dsimp only at hs ⊢
          cases hp : s.retxQueue.tryPush retx with
          | none =>
            rw [hp] at hs
            cases hs
            exact ⟨u, rfl, h⟩
          | some q =>
            rw [hp] at hs
            cases hs
            exact ⟨_, rfl, h.cfg, rfl, h.seg, rfl, rfl⟩

theorem setRetxCount {sn : Nat} {f : Nat → Nat} (hs : s.setRetxCount sn f = .ok s') :
    ∃ u', u.setRetxCount sn f = .ok u' ∧ Matches s' u' := by
  unfold RlcTxAmEntity.setRetxCount at hs ⊢
  rw [h.txWindow]
  cases hl : s.txWindow.lookup sn with
  | none =>
    rw [hl] at hs
    cases hs
  | some info =>
    rw [hl] at hs
    cases hs
    exact ⟨_, rfl, h.cfg, h.st, h.seg, rfl, h.retxQueue⟩

theorem nackItem {nack : RlcAmStatusNack} {prev prev' : Option Nat}
    (hs : RlcTxAmEntity.nackItem s prev nack = .ok (prev', s')) :
    ∃ u', RlcTxAmEntity.nackItem u prev nack = .ok (prev', u') ∧ Matches s' u' := by
  obtain ⟨⟨b, s₁⟩, h₁, hs⟩ := bind_eq_ok.mp hs
  obtain ⟨u₁, hu₁, hm₁⟩ := h.handleNack h₁
  unfold RlcTxAmEntity.nackItem
  rw [hu₁, ok_bind]
  dsimp only at hs ⊢
  split at hs
  · rename_i hnew
    rw [if_pos hnew]
    obtain ⟨s₂, h₂, hs⟩ := bind_eq_ok.mp hs
    cases hs
    obtain ⟨u₂, hu₂, hm₂⟩ := hm₁.setRetxCount h₂
    exact ⟨u₂, by rw [incrementRetxCount, hu₂]; rfl, hm₂⟩
  · rename_i hold
    rw [if_neg hold]
    cases hs
    exact ⟨u₁, rfl, hm₁⟩

theorem nackRangeLoop {ackSn left rangeSn : Nat} {nack : RlcAmStatusNack}
    {prev prev' : Option Nat} (hs : RlcTxAmEntity.nackRangeLoop ackSn nack left rangeSn prev s = .ok (prev', s')) :
    ∃ u', RlcTxAmEntity.nackRangeLoop ackSn nack left rangeSn prev u = .ok (prev', u') ∧ Matches s' u' := by
  induction left generalizing s u rangeSn prev with
  | zero =>
    cases hs
    exact ⟨u, rfl, h⟩
  | succ left ih =>
    rw [RlcTxAmEntity.nackRangeLoop] at hs ⊢
    split at hs
    · rename_i hend
      cases hs
      exact ⟨u, by rw [if_pos hend], h⟩
    · rename_i hend
      obtain ⟨⟨prev₁, s₁⟩, h₁, hs⟩ := bind_eq_ok.mp hs
      obtain ⟨u₁, hu₁, hm₁⟩ := h.nackItem h₁
      obtain ⟨u₂, hu₂, hm₂⟩ := ih hm₁ hs
      refine ⟨u₂, ?_, hm₂⟩
      rw [if_neg hend, h.mod, hu₁, ok_bind, ← hu₂, ← hm₁.nextSn]

theorem nackEntry {ackSn : Nat} {nack : RlcAmStatusNack} {prev prev' : Option Nat}
    (hs : RlcTxAmEntity.nackEntry ackSn s prev nack = .ok (prev', s')) :
    ∃ u', RlcTxAmEntity.nackEntry ackSn u prev nack = .ok (prev', u') ∧ Matches s' u' := by
  unfold RlcTxAmEntity.nackEntry at hs ⊢
  split at hs
  · exact h.nackRangeLoop hs
  · exact h.nackItem hs

theorem nackLoop {ackSn : Nat} {nacks : List RlcAmStatusNack} {prev prev' : Option Nat}
    (hs : RlcTxAmEntity.nackLoop ackSn nacks prev s = .ok (prev', s')) :
    ∃ u', RlcTxAmEntity.nackLoop ackSn nacks prev u = .ok (prev', u') ∧ Matches s' u' := by
  induction nacks generalizing s u prev with
  | nil =>
    cases hs
    exact ⟨u, rfl, h⟩
  | cons nack rest ih =>
    obtain ⟨⟨prev₁, s₁⟩, h₁, hs⟩ := bind_eq_ok.mp hs
    obtain ⟨u₁, hu₁, hm₁⟩ := h.nackEntry h₁
    obtain ⟨u₂, hu₂, hm₂⟩ := ih hm₁ hs
    refine ⟨u₂, ?_, hm₂⟩
    rw [RlcTxAmEntity.nackLoop, hu₁, ok_bind]
    exact hu₂

end

end Matches

structure SameRetx (t u : RlcTxAmEntity) : Prop where
  st : u.st = t.st
  txWindow : u.txWindow = t.txWindow
  retxQueue : u.retxQueue = t.retxQueue
  retxSn : u.retxSn = t.retxSn

theorem SameRetx.refl (t : RlcTxAmEntity) : SameRetx t t := ⟨rfl, rfl, rfl, rfl⟩

theorem SameRetx.trans (h : SameRetx s t) (h' : SameRetx t u) : SameRetx s u :=
  ⟨h'.st.trans h.st, h'.txWindow.trans h.txWindow, h'.retxQueue.trans h.retxQueue, h'.retxSn.trans h.retxSn⟩

/-- Each count accounts for the runs of its SN in the RETX queue, so none of them has been driven
past the mark of a count that has not been started. -/
abbrev CountsHold (t : RlcTxAmEntity) : Prop :=
  ∀ retx ∈ t.retxQueue.queue, ∀ info ∈ t.txWindow.lookup retx.sn,
    runs retx.sn none t.retxQueue.queue ≤ retxTimes info.retxCount

theorem runs_eq_zero {sn : Nat} {l : List RlcTxAmdRetx} (h : ∀ retx ∈ l, retx.sn ≠ sn) (prev : Option Nat) :
    runs sn prev l = 0 := by
  induction l generalizing prev with
  | nil => rfl
  | cons retx rest ih =>
    rw [runs, if_neg (fun hr => h retx List.mem_cons_self hr.1),
      ih (fun r hr => h r (List.mem_cons_of_mem _ hr))]

theorem CountsHold.runs_le (h : CountsHold t) {sn : Nat} {info : RlcTxAmSduInfo}
    (hl : t.txWindow.lookup sn = some info) : runs sn none t.retxQueue.queue ≤ retxTimes info.retxCount := by
  by_cases hmem : ∃ retx ∈ t.retxQueue.queue, retx.sn = sn
  · obtain ⟨retx, hr, rfl⟩ := hmem
    exact h retx hr info hl
  · rw [runs_eq_zero (fun retx hr hsn => hmem ⟨retx, hr, hsn⟩)]
    exact Nat.zero_le _

theorem CountsHold.same (h : CountsHold t) (hsame : SameRetx t u) : CountsHold u := by
  unfold CountsHold
  rw [hsame.txWindow, hsame.retxQueue]
  exact h

theorem BufferKeeps.same (hk : BufferKeeps s s')
    (hstored : ∀ retx ∈ s.retxQueue.queue, s.txWindow.contains retx.sn = true) :
    Matches s s' ∧ s'.retxSn = s.retxSn := by
  obtain ⟨b, p, bs, heq⟩ := hk.eq
  have hdrop : dropStaleRetx s.txWindow s.retxQueue.queue s.retxQueue = s.retxQueue := by
    cases hq : s.retxQueue.queue with
    | nil => rfl
    | cons front rest =>
      exact dropStaleRetx_of_contains (hstored front (by rw [hq]; exact List.mem_cons_self)) _
  rw [hdrop] at heq
  rw [heq]
  exact ⟨⟨rfl, rfl, rfl, rfl, rfl⟩, rfl⟩

theorem AckDone.congr {stop : Nat} (h : AckDone stop s) (hcfg : u.cfg = s.cfg) (hst : u.st = s.st)
    (hw : SameSdus s.txWindow u.txWindow) : AckDone stop u := by
  have hbase : ∀ x, u.txModBase x = s.txModBase x := by
    intro x
    rw [txModBase, txModBase, mod, mod, hst, hcfg]
  unfold AckDone
  rw [hbase, hbase, hst, hw.contains]
  exact h

/-- `t` is what the NACKs of a report make of `c`, whose RETX queue is empty. -/
structure Rescheduled (status : RlcAmStatusPdu) (c t : RlcTxAmEntity) : Prop where
  done : AckDone (stopSn status) t
  cleared : c.retxQueue = RlcRetxQueue.new c.retxQueue.capacity
  nacks : ∃ prev r, nackLoop status.ackSn status.nacks none c = .ok (prev, r) ∧
    Schedules c none r prev t.retxQueue.queue ∧ Matches r t
  retxSn : t.retxSn = none

theorem Schedules.update {c r : RlcTxAmEntity} {prev : Option Nat} {l : List RlcTxAmdRetx}
    (h : Schedules c none r prev l) (hempty : c.retxQueue.queue = []) (statusBytes : Option Nat) :
    Matches r (r.updateMacBufferState true statusBytes).2 ∧
      (r.updateMacBufferState true statusBytes).2.retxSn = c.retxSn ∧ r.retxQueue.queue = l := by
  have hl : r.retxQueue.queue = l := by
    rw [h.queue, hempty]
    rfl
  have hstored : ∀ retx ∈ r.retxQueue.queue, r.txWindow.contains retx.sn = true := by
    intro retx hr
    rw [h.keeps.sdus.contains]
    exact h.stored retx (hl ▸ hr)
  obtain ⟨hm, hsn⟩ := (updateMacBufferState_keeps r true statusBytes).same hstored
  exact ⟨hm, hsn.trans h.retxSn, hl⟩

theorem handleStatusPdu_rescheduled (h : RetxOk s) (hacc : s.acceptsStatus status = true)
    (hs : s.handleStatusPdu status statusBytes = .ok t) : ∃ c, Rescheduled status c t ∧ RetxOk c := by
  obtain ⟨running, s₁, c, r, prev, hack, hclear, hnack, rfl⟩ := handleStatusPdu_stages hacc hs
  have hpoll : RetxMoves s { s with pollRetransmitTimerRunning := running } := .of_eq rfl rfl
  have hok₁ := (h.moves hpoll).moves (ackLoop_moves hack).moves
  have hokc := hok₁.moves (clearRetxQueue_moves hclear)
  obtain ⟨c', hc', hkeep, hq⟩ := clearRetxQueue_spec s₁.retxQueue.queue s₁
  rw [hclear] at hc'
  cases hc'
  rw [hok₁.queue.emptied] at hq
  have hempty : c.retxQueue.queue = [] := by rw [hq]; rfl
  obtain ⟨l, hl⟩ := nackLoop_schedules hnack
  obtain ⟨hm, hsn, hrl⟩ := hl.update hempty statusBytes
  refine ⟨c, ⟨?_, ?_, ⟨prev, r, hnack, ?_, hm⟩, ?_⟩, hokc⟩
  · have hdone := ackLoop_done (s := { s with pollRetransmitTimerRunning := running }) hack
    refine hdone.congr ?_ ?_ ?_
    · rw [hm.cfg, hl.keeps.cfg, hkeep.cfg]
    · rw [hm.st, hl.keeps.st, hkeep.st]
    · rw [hm.txWindow]
      exact hkeep.sdus.trans hl.keeps.sdus
  · rw [hq]
    rfl
  · rw [hm.retxQueue, hrl]
    exact hl
  · rw [hsn, (clearRetxQueue_recounted hclear).2]

theorem Rescheduled.clear {c : RlcTxAmEntity} (h : Rescheduled status c t) (hc : RetxOk c) (ht : RetxOk t)
    (hcounts : CountsHold t) (running : Bool) :
    ∃ u, clearRetxQueue t.retxQueue.queue { t with pollRetransmitTimerRunning := running } = .ok u ∧
      Matches c u ∧ u.retxSn = none := by
  obtain ⟨prev, r, -, hl, hm⟩ := h.nacks
  obtain ⟨u, hclear, hkeep, hq⟩ :=
    clearRetxQueue_spec t.retxQueue.queue { t with pollRetransmitTimerRunning := running }
  obtain ⟨hrec, hsn⟩ := clearRetxQueue_recounted hclear
  have hsdus : SameSdus c.txWindow u.txWindow := by
    refine SameSdus.trans ?_ hkeep.sdus
    show SameSdus c.txWindow t.txWindow
    rw [hm.txWindow]
    exact hl.keeps.sdus
  have hcountsc : Recounted c.txWindow t.txWindow (fun sn => countUp^[runs sn none t.retxQueue.queue]) := by
    rw [hm.txWindow]
    exact hl.counts
  have hback : Recounted c.txWindow u.txWindow (fun _ n => n) := by
    refine (hcountsc.trans hrec).of_eq ?_
    intro sn info hinfo
    show countDown^[runs sn t.retxSn t.retxQueue.queue] (countUp^[runs sn none t.retxQueue.queue] info.retxCount) = _
    rw [h.retxSn]
    have ht : t.txWindow.lookup sn =
        some { info with retxCount := countUp^[runs sn none t.retxQueue.queue] info.retxCount } := by
      rw [hcountsc sn, hinfo]
      rfl
    exact countDown_countUp (hc.counts sn info hinfo) (hcounts.runs_le ht)
  refine ⟨u, hclear, ⟨?_, ?_, ?_, ?_, ?_⟩, hsn⟩
  · exact hkeep.cfg.trans (hm.cfg.trans hl.keeps.cfg)
  · exact hkeep.st.trans (hm.st.trans hl.keeps.st)
  · exact hkeep.seg.trans (hm.seg.trans hl.keeps.seg)
  · refine CircularMap.eq_of_lookup hsdus.capacity hsdus.count ?_
    intro sn
    rw [hback sn]
    simp
  · have hcap : t.retxQueue.capacity = c.retxQueue.capacity := by
      rw [hm.retxQueue]
      exact hl.steps.capacity
    rw [hq, h.cleared, ← hcap]
    exact ht.queue.emptied

theorem handleStatusPdu_again (h : RetxOk s) (hs : s.handleStatusPdu status statusBytes = .ok t)
    (hcounts : CountsHold t) (statusBytes' : Option Nat) :
    ∃ u, t.handleStatusPdu status statusBytes' = .ok u ∧ SameRetx t u := by
  cases hacc' : t.acceptsStatus status with
  | false => exact ⟨t, handleStatusPdu_of_rejected hacc' statusBytes', .refl t⟩
  | true =>
    have hacc : s.acceptsStatus status = true := by
      cases hacc : s.acceptsStatus status with
      | true => rfl
      | false =>
        rw [handleStatusPdu_of_rejected hacc] at hs
        cases hs
        exact hacc.symm.trans hacc'
    obtain ⟨c, hre, hc⟩ := handleStatusPdu_rescheduled h hacc hs
    have ht : RetxOk t := h.moves (handleStatusPdu_retxMoves hs)
    obtain ⟨running, heq⟩ := handleStatusPdu_eq hacc' statusBytes'
    have hack : ackLoop (stopSn status) t.mod t.st.txNextAck { t with pollRetransmitTimerRunning := running } =
        .ok { t with pollRetransmitTimerRunning := running } :=
      AckDone.again (s := { t with pollRetransmitTimerRunning := running }) hre.done mod_pos
    obtain ⟨u₂, hclear, hmatch, hsn⟩ := hre.clear hc ht hcounts running
    obtain ⟨prev, r, hnack, -, hm⟩ := hre.nacks
    obtain ⟨u₃, hnack', hm₃⟩ := hmatch.nackLoop hnack
    obtain ⟨l, hl⟩ := nackLoop_schedules hnack'
    have hempty : u₂.retxQueue.queue = [] := by
      rw [hmatch.retxQueue, hre.cleared]
      rfl
    obtain ⟨hu, hsnu, -⟩ := hl.update hempty statusBytes'
    refine ⟨(u₃.updateMacBufferState true statusBytes').2, ?_, ?_, ?_, ?_, ?_⟩
    · rw [heq, hack, ok_bind, hclear, ok_bind, hnack']
      rfl
    · rw [hu.st, hm₃.st, hm.st]
    · rw [hu.txWindow, hm₃.txWindow, hm.txWindow]
    · rw [hu.retxQueue, hm₃.retxQueue, hm.retxQueue]
    · rw [hsnu, hsn, hre.retxSn]

/-- Handles a report once for each entry of a list, which says what the buffer state update reads
from the RX entity. -/
def handleStatusPdus (status : RlcAmStatusPdu) : RlcTxAmEntity → List (Option Nat) → Except Fault RlcTxAmEntity :=
  Machine.run (fun s statusBytes => s.handleStatusPdu status statusBytes)

theorem handleStatusPdus_again (h : RetxOk s) (hs : s.handleStatusPdu status statusBytes = .ok t)
    (hcounts : CountsHold t) (again : List (Option Nat)) :
    ∃ u, handleStatusPdus status t again = .ok u ∧ SameRetx t u := by
  induction again generalizing s t statusBytes with
  | nil => exact ⟨t, rfl, .refl t⟩
  | cons statusBytes' again ih =>
    obtain ⟨u, hu, hsame⟩ := handleStatusPdu_again h hs hcounts statusBytes'
    obtain ⟨v, hv, hsame'⟩ := ih (h.moves (handleStatusPdu_retxMoves hs)) hu (hcounts.same hsame)
    exact ⟨v, (Machine.run_cons_ok hu).trans hv, hsame.trans hsame'⟩

/-- A report that is handled any number of times leaves the state variables, the window, the RETX queue
and the SN last considered for RETX as it does when handled once, provided that this one time drives
no count past the mark. -/
theorem status_pdu_idempotent (cfg : RlcTxAmConfig) (events : List TxEvent)
    (hrun : Machine.run step (RlcTxAmEntity.new cfg) events = .ok s)
    (hs : s.handleStatusPdu status statusBytes = .ok t) (hcounts : CountsHold t) (again : List (Option Nat)) :
    ∃ u, handleStatusPdus status t again = .ok u ∧ SameRetx t u :=
  handleStatusPdus_again (RetxOk.run hrun) hs hcounts again

def partsReport : RlcAmStatusPdu where
  snSize := .size12bits
  packedSize := 15
  ackSn := 2
  nacks := [{ nackSn := 0, so := some ⟨0, 3⟩ }, { nackSn := 0, so := some ⟨6, 8⟩ }, { nackSn := 1 }]

theorem status_pdu_idempotent_parts :
    ∃ s t u, Machine.run step (RlcTxAmEntity.new drbConfig)
        [.handleSdu (List.replicate 10 7) false 0, .handleSdu [8] false 0, .pullPdu 100 none, .pullPdu 100 none] =
          .ok s ∧
      s.handleStatusPdu partsReport none = .ok t ∧ handleStatusPdus partsReport t [none, some 3] = .ok u ∧
      t.retxQueue.st.nRetxSoZero = 2 ∧ SameRetx t u := by
  have hobs : (Machine.run step (RlcTxAmEntity.new drbConfig)
      [.handleSdu (List.replicate 10 7) false 0, .handleSdu [8] false 0, .pullPdu 100 none, .pullPdu 100 none] >>=
        fun s => s.handleStatusPdu partsReport none).map
          (fun t => (decide (CountsHold t), t.retxQueue.st.nRetxSoZero)) = .ok (true, 2) := by decide +kernel
  obtain ⟨t, ht, hval⟩ := map_eq_ok.mp hobs
  obtain ⟨s, hrun, hs⟩ := bind_eq_ok.mp ht
  have hcounts : CountsHold t := of_decide_eq_true (congrArg Prod.fst hval)
  obtain ⟨u, hu, hsame⟩ := status_pdu_idempotent drbConfig _ hrun hs hcounts [none, some 3]
  exact ⟨s, t, u, hrun, hs, hu, congrArg Prod.snd hval, hsame⟩

/-! A RETX count that has gone up to the mark of a count that has not been started: the mark is not
rewound, so the same report starts the count anew. -/

section

variable {c : Nat} {q : RlcRetxQueue}

theorem acceptsStatus_congr (hcfg : u.cfg = s.cfg) (hack : u.st.txNextAck = s.st.txNextAck)
    (hnext : u.st.txNext = s.st.txNext) (status : RlcAmStatusPdu) : u.acceptsStatus status = s.acceptsStatus status := by
  have hbase : ∀ x, u.txModBase x = s.txModBase x := by
    intro x
    rw [txModBase, txModBase, mod, mod, hack, hcfg]
  have hws : u.amWindowSize = s.amWindowSize := by rw [amWindowSize, amWindowSize, hcfg]
  have hin : u.insideTxWindow = s.insideTxWindow := by
    funext x
    rw [insideTxWindow, insideTxWindow, hbase, hws]
  have hnack : u.validNack status.ackSn = s.validNack status.ackSn := by
    funext nack
    simp only [validNack, hbase, hin, hnext]
  rw [acceptsStatus, acceptsStatus, validAckSn, validAckSn, hbase, hbase, hws, hnext, hnack]

theorem handleNack_pushes {nack : RlcAmStatusNack} {info : RlcTxAmSduInfo} {retx : RlcTxAmdRetx}
    (hrange : nack.nackRange = none)
    (hbase : s.txModBase s.st.txNextAck ≤ s.txModBase nack.nackSn ∧
      s.txModBase nack.nackSn ≤ s.txModBase s.st.txNext)
    (hinfo : s.txWindow.lookup nack.nackSn = some info) (hretx : s.nackRetx nack info = some retx)
    (hpush : s.retxQueue.tryPush retx = some q) :
    s.handleNack nack = .ok (true, { s with retxQueue := q }) := by
  unfold handleNack
  rw [hrange, if_neg (by simp), if_neg (not_not.mpr hbase), hinfo]
  dsimp only
  rw [hretx]
  dsimp only
  rw [hpush]

def hastyConfig : RlcTxAmConfig := { drbConfig with maxRetxThresh := 1 }

def zeroNack : RlcAmStatusNack := { nackSn := 0 }

def zeroReport : RlcAmStatusPdu := { snSize := .size12bits, packedSize := 5, ackSn := 2, nacks := [zeroNack] }

def zeroRetx : RlcTxAmdRetx := { sn := 0, so := 0, length := 1 }

def zeroQueue : RlcRetxQueue :=
  { capacity := 2048, queue := [zeroRetx], st := { retxBytes := 1, nRetxSoZero := 1 } }

structure Counting (c : Nat) (q : RlcRetxQueue) (s : RlcTxAmEntity) : Prop where
  cfg : s.cfg = hastyConfig
  ack : s.st.txNextAck = 0
  next : s.st.txNext = 2
  seg : s.snUnderSegmentation = none
  queue : s.retxQueue = q
  entry : ∃ info, s.txWindow.lookup 0 = some info ∧ info.sdu.length = 1 ∧ info.retxCount = c
  going : s.maxRetxReached = false

namespace Counting

theorem accepts (h : Counting c q s) : s.acceptsStatus zeroReport = true := by
  rw [acceptsStatus_congr (s := { RlcTxAmEntity.new hastyConfig with st := { txNext := 2 } }) h.cfg h.ack h.next]
  decide

theorem txModBase (h : Counting c q s) (x : Nat) : s.txModBase x = SeqNum.subU32 x 0 % 4096 := by
  rw [RlcTxAmEntity.txModBase, RlcTxAmEntity.mod, h.ack, h.cfg]
  rfl

section

variable (h : Counting c (RlcRetxQueue.new 2048) s)
include h

theorem handleNack :
    s.handleNack zeroNack = .ok (true, { s with retxQueue := zeroQueue }) := by
  obtain ⟨info, hinfo, hlen, -⟩ := h.entry
  have hretx : s.nackRetx zeroNack info = some zeroRetx := by
    have hlast : lastByte info = 0 := by rw [lastByte, hlen]; rfl
    have hend : s.nackSoEnd zeroNack info = some 0 := by
      simp [nackSoEnd, zeroNack, hlast, RlcAmStatusNack.soEndOfSdu]
    have hsub : SeqNum.subU32 1 0 = 1 := by decide
    rw [nackRetx, hend, Option.map_some]
    simp [checkedRetx, zeroNack, RlcAmStatusNack.soStart, hlen, hsub, zeroRetx]
  have hbase : s.txModBase s.st.txNextAck ≤ s.txModBase 0 ∧ s.txModBase 0 ≤ s.txModBase s.st.txNext := by
    rw [h.ack, h.next, h.txModBase, h.txModBase]
    decide
  have hpush : s.retxQueue.tryPush zeroRetx = some zeroQueue := by
    rw [h.queue]
    decide
  exact handleNack_pushes rfl hbase hinfo hretx hpush

theorem nackLoop :
    RlcTxAmEntity.nackLoop 2 [zeroNack] none s = .ok (some 0, { s with
      retxQueue := zeroQueue
      txWindow := s.txWindow.modify 0 (fun i => { i with retxCount := countUp i.retxCount }) }) := by
  obtain ⟨info, hinfo, -, -⟩ := h.entry
  have hitem : RlcTxAmEntity.nackItem s none zeroNack = .ok (some 0, { s with
      retxQueue := zeroQueue
      txWindow := s.txWindow.modify 0 (fun i => { i with retxCount := countUp i.retxCount }) }) := by
    have hsn : zeroNack.nackSn = 0 := rfl
    rw [nackItem, h.handleNack, ok_bind]
    dsimp only
    rw [if_pos (by simp), incrementRetxCount, setRetxCount, hsn, hinfo]
    rfl
  have hentry : nackEntry 2 s none zeroNack = RlcTxAmEntity.nackItem s none zeroNack := rfl
  rw [RlcTxAmEntity.nackLoop, hentry, hitem]
  rfl

theorem counted : Counting (countUp c) zeroQueue { s with
    retxQueue := zeroQueue
    txWindow := s.txWindow.modify 0 (fun i => { i with retxCount := countUp i.retxCount }) } := by
  refine ⟨h.cfg, h.ack, h.next, h.seg, rfl, ?_, h.going⟩
  obtain ⟨info, hinfo, hlen, hcount⟩ := h.entry
  refine ⟨{ info with retxCount := countUp info.retxCount }, ?_, hlen, by rw [← hcount]⟩
  show (s.txWindow.modify 0 _).lookup 0 = _
  rw [CircularMap.lookup_modify, if_pos rfl, hinfo]
  rfl

theorem reported (statusBytes : Option Nat) :
    ∃ t, s.handleStatusPdu zeroReport statusBytes = .ok t ∧ Counting (countUp c) zeroQueue t := by
  obtain ⟨running, heq⟩ := handleStatusPdu_eq h.accepts statusBytes
  have hdone : AckDone (stopSn zeroReport) { s with pollRetransmitTimerRunning := running } := by
    intro hlt
    have hlt' : s.txModBase s.st.txNextAck < s.txModBase 0 := hlt
    rw [h.ack] at hlt'
    exact absurd hlt' (Nat.lt_irrefl _)
  have hack : ackLoop (stopSn zeroReport) s.mod s.st.txNextAck { s with pollRetransmitTimerRunning := running } =
      .ok { s with pollRetransmitTimerRunning := running } := by
    refine AckDone.again (s := { s with pollRetransmitTimerRunning := running }) hdone ?_
    rw [RlcTxAmEntity.mod, h.cfg]
    decide
  have hclear : clearRetxQueue s.retxQueue.queue { s with pollRetransmitTimerRunning := running } =
      .ok { s with pollRetransmitTimerRunning := running, retxSn := none } := by
    rw [h.queue]
    rfl
  have h₂ : Counting c (RlcRetxQueue.new 2048)
      { s with pollRetransmitTimerRunning := running, retxSn := none } :=
    ⟨h.cfg, h.ack, h.next, h.seg, h.queue, h.entry, h.going⟩
  have hnack := h₂.nackLoop
  have h₃ := h₂.counted
  generalize ({ s with pollRetransmitTimerRunning := running, retxSn := none } : RlcTxAmEntity) = s₂ at hclear hnack h₃
  generalize ({ s₂ with
    retxQueue := zeroQueue
    txWindow := s₂.txWindow.modify 0 (fun i => { i with retxCount := countUp i.retxCount }) } :
      RlcTxAmEntity) = s₃ at hnack h₃
  refine ⟨(s₃.updateMacBufferState true statusBytes).2, ?_, ?_⟩
  · rw [heq, hack, ok_bind]
    dsimp only
    rw [hclear, ok_bind]
    change (RlcTxAmEntity.nackLoop 2 [zeroNack] none s₂ >>= _) = _
    rw [hnack]
    rfl
  · have hstored : ∀ retx ∈ s₃.retxQueue.queue, s₃.txWindow.contains retx.sn = true := by
      intro retx hr
      rw [h₃.queue] at hr
      rw [List.mem_singleton.mp hr]
      obtain ⟨info, hinfo, -⟩ := h₃.entry
      exact CircularMap.contains_of_lookup hinfo
    have hk := updateMacBufferState_keeps s₃ true statusBytes
    obtain ⟨hm, -⟩ := hk.same hstored
    have hmax : (s₃.updateMacBufferState true statusBytes).2.maxRetxReached = s₃.maxRetxReached := by
      obtain ⟨b, p, bs, hb⟩ := hk.eq
      rw [hb]
    refine ⟨hm.cfg.trans h₃.cfg, ?_, ?_, hm.seg.trans h₃.seg, hm.retxQueue.trans h₃.queue, ?_, hmax.trans h₃.going⟩
    · rw [hm.st, h₃.ack]
    · rw [hm.st, h₃.next]
    · rw [hm.txWindow]
      exact h₃.entry

end

theorem pulled (h : Counting c zeroQueue s) (hc : c ≠ 1) :
    ∃ pdu t, s.pullPdu 100 none = .ok (pdu, t) ∧ Counting c (RlcRetxQueue.new 2048) t := by
  obtain ⟨info, hinfo, hlen, hcount⟩ := h.entry
  have hq : s.retxQueue.queue = [zeroRetx] := by rw [h.queue]; rfl
  obtain ⟨pdu, t, ht, hspec⟩ := buildRetxPdu_spec hq hinfo (by decide) (by rw [hlen]; decide) (by decide) 100
  have hhead : s.getRetxExpectedHdrLen zeroRetx = 2 := by
    rw [getRetxExpectedHdrLen, headMinSize, h.cfg]
    rfl
  refine ⟨pdu, t, ?_, ?_⟩
  · have hne : s.retxQueue.empty = false := by rw [h.queue]; rfl
    rw [pullPdu, h.going]
    simp only [Bool.false_eq_true, if_false, hne, Bool.not_false, if_true]
    exact ht
  · cases hspec with
    | blocked hg =>
      rw [hhead] at hg
      omega
    | @sent len p _ _ hmin hpoll =>
      rw [hhead] at hmin
      have hlen1 : len = zeroRetx.length := hmin
      rw [advanceRetx, if_pos hlen1] at hpoll
      have hp := polled hpoll
      have hcount' : (info.retxCount == s.cfg.maxRetxThresh) = false := by
        have hthresh : s.cfg.maxRetxThresh = 1 := by rw [h.cfg]; rfl
        rw [hcount, hthresh]
        simpa using hc
      refine ⟨hp.cfg.trans h.cfg, hp.ack.trans h.ack, hp.next.trans h.next, hp.seg.trans h.seg, ?_, ?_, ?_⟩
      · rw [hp.retxQueue]
        show s.retxQueue.pop = _
        rw [h.queue]
        rfl
      · rw [hp.txWindow]
        exact ⟨info, hinfo, hlen, hcount⟩
      · rw [hp.maxRetxReached]
        show (s.maxRetxReached || info.retxCount == s.cfg.maxRetxThresh) = false
        rw [hcount', h.going]
        rfl

def zeroPdu : List UInt8 := [0, 2, 0x80, 0, 0]

theorem unpack_zeroPdu : RlcAmStatusPdu.unpack .size12bits zeroPdu = .ok (some zeroReport) := by decide

theorem round (h : Counting c (RlcRetxQueue.new 2048) s) (hc : countUp c ≠ 1) :
    ∃ t, Machine.run step s [.controlPdu zeroPdu none, .pullPdu 100 none] = .ok t ∧
      Counting (countUp c) (RlcRetxQueue.new 2048) t := by
  obtain ⟨s₁, h₁, hs₁⟩ := h.reported none
  obtain ⟨pdu, t, ht, hst⟩ := hs₁.pulled hc
  refine ⟨t, ?_, hst⟩
  have hstep₁ : s.step (.controlPdu zeroPdu none) = .ok s₁ := by
    rw [step, react, handleControlPdu, h.cfg]
    change ((do return ([], ← (RlcAmStatusPdu.unpack .size12bits zeroPdu >>= _)) : Except Fault _) >>= _) = _
    rw [unpack_zeroPdu, ok_bind]
    dsimp only
    rw [h₁]
    rfl
  have hstep₂ : s₁.step (.pullPdu 100 none) = .ok t := by
    rw [step, react, ht]
    rfl
  rw [Machine.run_cons_ok hstep₁, Machine.run_cons_ok hstep₂]
  rfl

theorem rounds (h : Counting c (RlcRetxQueue.new 2048) s) (hc : 1 ≤ c) (n : Nat) (hn : c + n < retxCountNotStarted) :
    ∃ events t, Machine.run step s events = .ok t ∧ Counting (c + n) (RlcRetxQueue.new 2048) t := by
  induction n with
  | zero => exact ⟨[], s, rfl, h⟩
  | succ n ih =>
    obtain ⟨events, t, hrun, ht⟩ := ih (by omega)
    have hup : countUp (c + n) = c + (n + 1) := by
      unfold countUp retxCountNotStarted
      unfold retxCountNotStarted at hn
      rw [if_neg (by omega), Nat.mod_eq_of_lt (by omega)]
      omega
    obtain ⟨u, hu, hcu⟩ := ht.round (by omega)
    refine ⟨events ++ [.controlPdu zeroPdu none, .pullPdu 100 none], u, ?_, hup ▸ hcu⟩
    rw [Machine.run_append, hrun]
    exact hu

theorem anew (h : Counting retxCountNotStarted zeroQueue t) {statusBytes : Option Nat}
    (hu : t.handleStatusPdu zeroReport statusBytes = .ok u) : ¬SameRetx t u := by
  intro hsame
  obtain ⟨info, hinfo, -, hcount⟩ := h.entry
  obtain ⟨running, s₁, c, r, prev, hack, hclear, hnack, rfl⟩ := handleStatusPdu_stages h.accepts hu
  obtain ⟨c', hc', -, hq⟩ := clearRetxQueue_spec s₁.retxQueue.queue s₁
  rw [hclear] at hc'
  cases hc'
  obtain ⟨l, hl⟩ := nackLoop_schedules hnack
  obtain ⟨hm, -, hrl⟩ := hl.update (by rw [hq, pop_iterate_queue]) statusBytes
  have hone : l = [zeroRetx] := by
    rw [← hrl, ← hm.retxQueue, hsame.retxQueue, h.queue]
    rfl
  have hr : r.txWindow.lookup 0 = some info := by
    rw [← hm.txWindow, hsame.txWindow]
    exact hinfo
  rw [hl.counts 0, (clearRetxQueue_recounted hclear).1 0, Option.map_map, hone] at hr
  obtain ⟨info₁, h₁, heq⟩ := Option.map_eq_some_iff.mp hr
  have hsame₁ : info₁ = info := by
    have h₁' : t.txWindow.lookup 0 = some info₁ := (ackLoop_moves hack).left 0 info₁ h₁
    rw [hinfo] at h₁'
    exact (Option.some.inj h₁').symm
  have hmark : countDown retxCountNotStarted = retxCountNotStarted := if_pos rfl
  have hstart : countUp retxCountNotStarted = 0 := if_pos rfl
  have hbad := congrArg RlcTxAmSduInfo.retxCount heq
  rw [hsame₁, hcount] at hbad
  change countUp (countDown^[_] info.retxCount) = retxCountNotStarted at hbad
  rw [hcount, Function.iterate_fixed hmark, hstart] at hbad
  simp [retxCountNotStarted] at hbad

end Counting

/-- SNs 0 and 1 are NACKed three times over in one report, and all of the RETX are sent. -/
def pastThreshold : List TxEvent :=
  [.handleSdu [7] false 0, .handleSdu [8] false 0, .pullPdu 100 none, .pullPdu 100 none,
    .controlPdu [0, 2, 0x80, 0, 0x08, 0, 0x18, 0, 0x08, 0, 0x18, 0, 0x08, 0, 0x10] none,
    .pullPdu 100 none, .pullPdu 100 none, .pullPdu 100 none, .pullPdu 100 none, .pullPdu 100 none,
    .pullPdu 100 none]

theorem counting_pastThreshold :
    ∃ s, Machine.run step (RlcTxAmEntity.new hastyConfig) pastThreshold = .ok s ∧
      Counting 2 (RlcRetxQueue.new 2048) s := by
  have hrun : (Machine.run step (RlcTxAmEntity.new hastyConfig) pastThreshold).map (fun s =>
      decide (s.cfg = hastyConfig ∧ s.st.txNextAck = 0 ∧ s.st.txNext = 2 ∧ s.snUnderSegmentation = none ∧
        s.retxQueue = RlcRetxQueue.new 2048 ∧ s.maxRetxReached = false ∧
        (s.txWindow.lookup 0).map (fun info => (info.sdu.length, info.retxCount)) = some (1, 2))) =
      .ok true := by decide +kernel
  obtain ⟨s, hs, heq⟩ := map_eq_ok.mp hrun
  obtain ⟨hcfg, hack, hnext, hseg, hq, hmax, hentry⟩ := of_decide_eq_true heq
  obtain ⟨info, hinfo, hvals⟩ := Option.map_eq_some_iff.mp hentry
  exact ⟨s, hs, hcfg, hack, hnext, hseg, hq, ⟨info, hinfo, congrArg Prod.fst hvals, congrArg Prod.snd hvals⟩, hmax⟩

/-- The count of SN 0 passes the threshold without ever being equal to it when a RETX is sent, and
goes up with every further NACK. The report that brings it to the mark starts it anew when repeated. -/
theorem status_pdu_count_starts_anew :
    ¬ ∀ (cfg : RlcTxAmConfig) (events : List TxEvent) (s t : RlcTxAmEntity) (status : RlcAmStatusPdu)
        (again : List (Option Nat)), Machine.run step (RlcTxAmEntity.new cfg) events = .ok s →
      s.handleStatusPdu status none = .ok t → ∃ u, handleStatusPdus status t again = .ok u ∧ SameRetx t u := by
  intro h
  obtain ⟨s₀, hrun₀, h₀⟩ := counting_pastThreshold
  have hlast : 2 + (retxCountNotStarted - 3) < retxCountNotStarted := by
    unfold retxCountNotStarted
    omega
  have hmark : countUp (2 + (retxCountNotStarted - 3)) = retxCountNotStarted := by
    norm_num [countUp, retxCountNotStarted]
  obtain ⟨events, s, hrun, hs⟩ := h₀.rounds (by omega) (retxCountNotStarted - 3) hlast
  obtain ⟨t, ht, hct⟩ := hs.reported none
  rw [hmark] at hct
  have hall : Machine.run step (RlcTxAmEntity.new hastyConfig) (pastThreshold ++ events) = .ok s := by
    rw [Machine.run_append, hrun₀]
    exact hrun
  obtain ⟨u, hu, hsame⟩ := h hastyConfig _ s t zeroReport [none] hall ht
  cases hv : t.handleStatusPdu zeroReport none with
  | error f =>
    rw [handleStatusPdus, Machine.run_cons_error hv] at hu
    cases hu
  | ok v =>
    rw [handleStatusPdus, Machine.run_cons_ok hv] at hu
    cases hu
    exact hct.anew hv hsame

end

end Ocudu.Rlc.RlcTxAmEntity
