import Ocudu.Rlc.TxBuffer

/-! The counters of the RETX queue never exceed what is queued, whatever the run, so a queue that
is emptied has its counters at zero. -/

namespace Ocudu.Rlc

namespace RlcRetxQueue

inductive Steps (q : RlcRetxQueue) : RlcRetxQueue → Prop
  | refl : Steps q q
  | pop : Steps q r → Steps q r.pop
  | push : Steps q r → r.tryPush retx = some p → Steps q p
  | replaceFront : Steps q r → Steps q (r.replaceFront retx)

variable {q q' q'' : RlcRetxQueue} {retx : RlcTxAmdRetx}

theorem Steps.trans (h : Steps q q') (h' : Steps q' q'') : Steps q q'' := by
  induction h' with
  | refl => exact h
  | pop _ ih => exact ih.pop
  | push _ hp ih => exact ih.push hp
  | replaceFront _ ih => exact ih.replaceFront

theorem Steps.pops (q : RlcRetxQueue) (n : Nat) : Steps q (RlcRetxQueue.pop^[n] q) := by
  induction n with
  | zero => exact .refl
  | succ n ih =>
    rw [Function.iterate_succ_apply']
    exact ih.pop

/-- Each counter is at most what is queued. The bytes may be fewer, once they have wrapped. -/
structure Bounded (q : RlcRetxQueue) : Prop where
  bytes : q.st.retxBytes ≤ totalBytes q.queue
  soZero : q.st.nRetxSoZero ≤ q.queue.countP (·.so == 0)
  soNonzero : q.st.nRetxSoNonzero ≤ q.queue.countP (·.so != 0)

theorem new_bounded (capacity : Nat) : (RlcRetxQueue.new capacity).Bounded :=
  ⟨Nat.le_refl _, Nat.le_refl _, Nat.le_refl _⟩

theorem Bounded.tryPush (h : q.Bounded) (hp : q.tryPush retx = some q') : q'.Bounded := by
  obtain ⟨hb, hz, hn⟩ := h
  unfold RlcRetxQueue.tryPush at hp
  split at hp <;> cases hp
  have hmod := Nat.mod_le (q.st.retxBytes + retx.length) (2 ^ 32)
  by_cases hso : retx.so = 0
  · constructor
    · simp only [RlcRetxQueueState.add, hso, if_true, totalBytes_append, totalBytes_cons]
      omega
    · simp [RlcRetxQueueState.add, hso, List.countP_append, hz]
    · simpa [RlcRetxQueueState.add, hso, List.countP_append] using hn
  · constructor
    · simp only [RlcRetxQueueState.add, hso, if_false, totalBytes_append, totalBytes_cons]
      omega
    · simpa [RlcRetxQueueState.add, hso, List.countP_append] using hz
    · simp [RlcRetxQueueState.add, hso, List.countP_append, hn]

theorem Bounded.pop (h : q.Bounded) : q.pop.Bounded := by
  obtain ⟨hb, hz, hn⟩ := h
  unfold RlcRetxQueue.pop
  split
  · exact ⟨hb, hz, hn⟩
  · rename_i front rest hq
    rw [hq, totalBytes_cons] at hb
    rw [hq, List.countP_cons] at hz hn
    by_cases hso : front.so = 0
    · simp only [hso, beq_self_eq_true, if_true, bne_self_eq_false, Bool.false_eq_true, if_false] at hz hn
      constructor
      · simp only [RlcRetxQueueState.subtract, hso, if_true]
        omega
      · simp only [RlcRetxQueueState.subtract, hso, if_true]
        omega
      · simp only [RlcRetxQueueState.subtract, hso, if_true]
        omega
    · have hne : (front.so == 0) = false := by simpa using hso
      simp only [bne, hne, Bool.false_eq_true, if_false, Bool.not_false, if_true] at hz hn
      constructor
      · simp only [RlcRetxQueueState.subtract, hso, if_false]
        omega
      · simp only [RlcRetxQueueState.subtract, hso, if_false]
        omega
      · simp only [RlcRetxQueueState.subtract, hso, if_false, bne]
        omega

theorem Bounded.replaceFront (h : q.Bounded) : (q.replaceFront retx).Bounded := by
  cases hq : q.queue with
  | nil =>
    have heq : q.replaceFront retx = q := by simp [RlcRetxQueue.replaceFront, hq]
    rw [heq]
    exact h
  | cons front rest =>
    obtain ⟨hb, hz, hn⟩ := h.pop
    have hpop : q.pop = { q with queue := rest, st := q.st.subtract front } := by
      simp [RlcRetxQueue.pop, hq]
    have heq : q.replaceFront retx = { q with queue := retx :: rest, st := (q.st.subtract front).add retx } := by
      simp [RlcRetxQueue.replaceFront, hq]
    rw [hpop] at hb hz hn
    rw [heq]
    dsimp only at hb hz hn
    generalize q.st.subtract front = st at hb hz hn
    have hmod := Nat.mod_le (st.retxBytes + retx.length) (2 ^ 32)
    by_cases hso : retx.so = 0
    · constructor
      · simp only [RlcRetxQueueState.add, hso, if_true, totalBytes_cons]
        omega
      · simpa [RlcRetxQueueState.add, hso] using hz
      · simpa [RlcRetxQueueState.add, hso] using hn
    · constructor
      · simp only [RlcRetxQueueState.add, hso, if_false, totalBytes_cons]
        omega
      · simpa [RlcRetxQueueState.add, hso] using hz
      · simpa [RlcRetxQueueState.add, hso] using hn

theorem Bounded.steps (h : q.Bounded) (hs : Steps q q') : q'.Bounded := by
  induction hs with
  | refl => exact h
  | pop _ ih => exact ih.pop
  | push _ hp ih => exact ih.tryPush hp
  | replaceFront _ ih => exact ih.replaceFront

@[simp] theorem capacity_pops (n : Nat) (q : RlcRetxQueue) : (RlcRetxQueue.pop^[n] q).capacity = q.capacity := by
  induction n generalizing q with
  | zero => rfl
  | succ n ih =>
    rw [Function.iterate_succ_apply, ih]
    unfold RlcRetxQueue.pop
    split <;> rfl

theorem Steps.capacity (h : Steps q q') : q'.capacity = q.capacity := by
  induction h with
  | refl => rfl
  | @pop r _ ih =>
    rw [← ih]
    exact capacity_pops 1 r
  | push _ hp ih =>
    unfold RlcRetxQueue.tryPush at hp
    split at hp <;> cases hp
    exact ih
  | replaceFront _ ih =>
    rw [← ih]
    unfold RlcRetxQueue.replaceFront
    split <;> rfl

theorem Bounded.emptied (h : q.Bounded) :
    RlcRetxQueue.pop^[q.queue.length] q = RlcRetxQueue.new q.capacity := by
  have hempty := RlcTxAmEntity.pop_iterate_queue q
  have hcap := capacity_pops q.queue.length q
  obtain ⟨hb, hz, hn⟩ := h.steps (Steps.pops q q.queue.length)
  generalize RlcRetxQueue.pop^[q.queue.length] q = p at hempty hcap hb hz hn
  obtain ⟨capacity, queue, bytes, soZero, soNonzero⟩ := p
  dsimp only at hempty hcap hb hz hn
  subst hempty hcap
  have h1 : bytes = 0 := Nat.le_zero.mp hb
  have h2 : soZero = 0 := Nat.le_zero.mp hz
  have h3 : soNonzero = 0 := Nat.le_zero.mp hn
  rw [h1, h2, h3]
  rfl

end RlcRetxQueue

namespace RlcTxAmEntity

open RlcRetxQueue

variable {s s' t : RlcTxAmEntity} {w : CircularMap RlcTxAmSduInfo}

theorem dropStaleRetx_steps (w : CircularMap RlcTxAmSduInfo) (l : List RlcTxAmdRetx) (q : RlcRetxQueue) :
    Steps q (dropStaleRetx w l q) := by
  induction l generalizing q with
  | nil => exact .refl
  | cons front rest ih =>
    rw [dropStaleRetx]
    split
    · exact .refl
    · exact (Steps.refl.pop).trans (ih q.pop)

theorem BufferKeeps.steps (hk : BufferKeeps s s') : Steps s.retxQueue s'.retxQueue := by
  obtain ⟨b, p, bs, heq⟩ := hk.eq
  rw [heq]
  exact dropStaleRetx_steps _ _ _

theorem buildRetxFront_steps {grantLen : Nat} {retx : RlcTxAmdRetx} {pdu : List UInt8}
    (hs : s.buildRetxFront grantLen retx = .ok (pdu, s')) : Steps s.retxQueue s'.retxQueue := by
  unfold buildRetxFront at hs
  dsimp only at hs
  split at hs
  · cases hs
  · rename_i info hinfo
    split_ifs at hs with h1 h2
    · cases hs
      exact .pop .refl
    · cases hs
      exact .refl
    · generalize min retx.length _ = len at hs
      have hadvance : Steps s.retxQueue
          (({ s with retxSn := some retx.sn } : RlcTxAmEntity).advanceRetx retx info len).retxQueue := by
        unfold advanceRetx
        split_ifs
        · exact .pop .refl
        · exact .replaceFront .refl
      obtain ⟨p, t, hpoll, hp⟩ := exists_polled
        (({ s with retxSn := some retx.sn } : RlcTxAmEntity).advanceRetx retx info len) retx.sn true 0
      have ht : Steps s.retxQueue t.retxQueue := by
        rw [hp.retxQueue]
        exact hadvance
      simp only [writeRetxPdu, hpoll] at hs
      split_ifs at hs
      · cases hs
        exact ht
      · cases hs
        exact ht

theorem buildRetxPdu_steps {grantLen : Nat} {pdu : List UInt8}
    (hs : s.buildRetxPdu grantLen = .ok (pdu, s')) : Steps s.retxQueue s'.retxQueue := by
  have hdrop := dropStaleRetx_steps s.txWindow s.retxQueue.queue s.retxQueue
  unfold buildRetxPdu at hs
  dsimp only at hs
  split at hs
  · cases hs
    exact hdrop
  · exact hdrop.trans (buildRetxFront_steps hs)

def CountsFit (w : CircularMap RlcTxAmSduInfo) : Prop :=
  ∀ sn info, w.lookup sn = some info → info.retxCount < 2 ^ 32

theorem CountsFit.modify (h : CountsFit w) {f : RlcTxAmSduInfo → RlcTxAmSduInfo}
    (hf : ∀ info, info.retxCount < 2 ^ 32 → (f info).retxCount < 2 ^ 32) (sn : Nat) :
    CountsFit (w.modify sn f) := by
  intro sn' info hl
  rw [CircularMap.lookup_modify] at hl
  split at hl
  · obtain ⟨info', hinfo', rfl⟩ := Option.map_eq_some_iff.mp hl
    exact hf info' (h sn info' hinfo')
  · exact h sn' info hl

theorem CountsFit.overwrite (h : CountsFit w) (sn : Nat) (sdu : RlcSdu) :
    CountsFit (w.overwrite sn (RlcTxAmSduInfo.ofSdu sdu)) := by
  intro sn' info hl
  rcases CircularMap.lookup_overwrite_cases hl with ⟨-, rfl⟩ | ⟨-, hl⟩
  · show retxCountNotStarted < 2 ^ 32
    decide
  · exact h sn' info hl

structure RetxMoves (s s' : RlcTxAmEntity) : Prop where
  queue : Steps s.retxQueue s'.retxQueue
  counts : CountsFit s.txWindow → CountsFit s'.txWindow

namespace RetxMoves

theorem of_eq (hq : s'.retxQueue = s.retxQueue) (hw : s'.txWindow = s.txWindow) : RetxMoves s s' := by
  constructor
  · rw [hq]
    exact .refl
  · rw [hw]
    exact id

theorem refl (s : RlcTxAmEntity) : RetxMoves s s := of_eq rfl rfl

theorem trans (h : RetxMoves s s') (h' : RetxMoves s' t) : RetxMoves s t :=
  ⟨h.queue.trans h'.queue, fun hc => h'.counts (h.counts hc)⟩

theorem polled {p : Bool} (h : RetxMoves s s') (hp : Polled s' p t) : RetxMoves s t :=
  h.trans (of_eq hp.retxQueue hp.txWindow)

theorem nextSo (h : RetxMoves s s') (sn n : Nat) :
    RetxMoves s { s' with txWindow := s'.txWindow.modify sn (fun i => { i with nextSo := i.nextSo + n }) } :=
  ⟨h.queue, fun hc => (h.counts hc).modify (f := fun i => { i with nextSo := i.nextSo + n }) (fun _ hi => hi) sn⟩

end RetxMoves

theorem BufferKeeps.moves (hk : BufferKeeps s s') : RetxMoves s s' := by
  refine ⟨hk.steps, ?_⟩
  obtain ⟨b, p, bs, heq⟩ := hk.eq
  rw [heq]
  exact id

theorem buildRetxPdu_retxMoves {grantLen : Nat} {pdu : List UInt8}
    (hs : s.buildRetxPdu grantLen = .ok (pdu, s')) : RetxMoves s s' := by
  refine ⟨buildRetxPdu_steps hs, ?_⟩
  rw [(buildRetxPdu_frame hs).txWindow]
  exact id

theorem buildFirstSduSegment_retxMoves (s : RlcTxAmEntity) (grantLen : Nat) (info : RlcTxAmSduInfo) :
    RetxMoves s (s.buildFirstSduSegment grantLen info).2 := by
  unfold buildFirstSduSegment
  split
  · exact .refl s
  · split
    · exact .refl s
    · obtain ⟨p, t, hpoll, hp⟩ := exists_polled { s with snUnderSegmentation := some s.st.txNext }
        s.st.txNext false (grantLen - s.headMinSize)
      have hseg : RetxMoves s { s with snUnderSegmentation := some s.st.txNext } := .of_eq rfl rfl
      have ht := hseg.polled hp
      dsimp only
      rw [hpoll]
      dsimp only
      split
      · exact ht
      · exact ht.nextSo _ _

theorem buildNewPdu_retxMoves {grantLen : Nat} {pdu : List UInt8}
    (hs : s.buildNewPdu grantLen = .ok (pdu, s')) : RetxMoves s s' := by
  unfold buildNewPdu at hs
  split at hs
  · cases hs
    exact .refl s
  · split at hs
    · cases hs
      exact .refl s
    · split at hs
      · cases hs
        exact .of_eq rfl rfl
      · rename_i sdu q hread
        split at hs
        · cases hs
        · dsimp only at hs
          have hu : RetxMoves s { s with
              sduQueue := q, txWindow := s.txWindow.overwrite s.st.txNext (RlcTxAmSduInfo.ofSdu sdu) } :=
            ⟨.refl, fun hc => hc.overwrite _ _⟩
          generalize ({ s with
            sduQueue := q, txWindow := s.txWindow.overwrite s.st.txNext (RlcTxAmSduInfo.ofSdu sdu) } :
              RlcTxAmEntity) = u at hs hu
          split at hs
          · have hfirst := buildFirstSduSegment_retxMoves u grantLen (RlcTxAmSduInfo.ofSdu sdu)
            rw [Except.ok.inj hs] at hfirst
            exact hu.trans hfirst
          · obtain ⟨p, t, hpoll, hp⟩ := exists_polled u s.st.txNext false 0
            rw [hpoll] at hs
            dsimp only at hs
            split at hs
            · cases hs
              exact hu.polled hp
            · cases hs
              exact (hu.polled hp).trans (.of_eq rfl rfl)

theorem buildContinuedSduSegment_retxMoves (s : RlcTxAmEntity) (grantLen sn : Nat) (info : RlcTxAmSduInfo) :
    RetxMoves s (s.buildContinuedSduSegment grantLen sn info).2 := by
  unfold buildContinuedSduSegment
  split
  · exact .of_eq rfl rfl
  · split
    · exact .of_eq rfl rfl
    · split
      · exact .refl s
      · dsimp only
        generalize (if _ > grantLen then _ else _ : RlcSiField × Nat) = x
        obtain ⟨si, len⟩ := x
        dsimp only
        have hu : RetxMoves s (if si = .lastSegment then { s with snUnderSegmentation := none } else s) := by
          split
          · exact .of_eq rfl rfl
          · exact .refl s
        generalize (if si = .lastSegment then { s with snUnderSegmentation := none } else s : RlcTxAmEntity) = u
          at hu ⊢
        obtain ⟨p, t, hpoll, hp⟩ := exists_polled u u.st.txNext false len
        have ht := hu.polled hp
        rw [hpoll]
        dsimp only
        split
        · exact ht
        · dsimp only
          split
          · exact (ht.nextSo sn len).trans (.of_eq rfl rfl)
          · exact ht.nextSo sn len

theorem pullPdu_retxMoves {grantLen : Nat} {status : Option RlcAmStatusPdu} {pdu : List UInt8}
    (hs : s.pullPdu grantLen status = .ok (pdu, s')) : RetxMoves s s' := by
  unfold pullPdu at hs
  split at hs
  · cases hs
    exact .refl s
  · split at hs
    · cases hs
      exact .refl s
    · split at hs
      · exact buildRetxPdu_retxMoves hs
      · split at hs
        · rename_i sn hsn
          split at hs
          · rename_i info hinfo
            have hcont := buildContinuedSduSegment_retxMoves s grantLen sn info
            rw [Except.ok.inj hs] at hcont
            exact hcont
          · have hclear : RetxMoves s { s with snUnderSegmentation := none } := .of_eq rfl rfl
            dsimp only at hs
            split at hs
            · cases hs
              exact hclear
            · exact hclear.trans (buildNewPdu_retxMoves hs)
        · split at hs
          · cases hs
            exact .refl s
          · exact buildNewPdu_retxMoves hs

end RlcTxAmEntity

end Ocudu.Rlc
