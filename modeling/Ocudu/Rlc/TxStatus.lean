import Ocudu.Rlc.TxBuild

/-! What a status PDU does to the transmitting entity: the acknowledgement loop, the clearing of
the RETX queue and the loops over the NACKs. -/

namespace Ocudu.Rlc.RlcTxAmEntity

open SeqNum

variable {s s' t : RlcTxAmEntity} {a n k : Nat} {hist : List (List UInt8)}
variable {w w' w'' : CircularMap RlcTxAmSduInfo}

structure SameSdus (w w' : CircularMap RlcTxAmSduInfo) : Prop where
  capacity : w'.capacity = w.capacity
  count : w'.count = w.count
  present : ∀ sn info, w.lookup sn = some info → ∃ c, w'.lookup sn = some { info with retxCount := c }
  absent : ∀ sn, w.lookup sn = none → w'.lookup sn = none

namespace SameSdus

theorem refl (w : CircularMap RlcTxAmSduInfo) : SameSdus w w :=
  ⟨rfl, rfl, fun _ info h => ⟨info.retxCount, h⟩, fun _ h => h⟩

theorem trans (h : SameSdus w w') (h' : SameSdus w' w'') : SameSdus w w'' where
  capacity := h'.capacity.trans h.capacity
  count := h'.count.trans h.count
  present := by
    intro sn info hl
    obtain ⟨c, hc⟩ := h.present sn info hl
    obtain ⟨c', hc'⟩ := h'.present sn _ hc
    exact ⟨c', hc'⟩
  absent := fun sn hl => h'.absent sn (h.absent sn hl)

theorem present_inv (h : SameSdus w w') {sn : Nat} {info' : RlcTxAmSduInfo}
    (hl : w'.lookup sn = some info') :
    ∃ info, w.lookup sn = some info ∧ info' = { info with retxCount := info'.retxCount } := by
  cases hw : w.lookup sn with
  | none =>
    rw [h.absent sn hw] at hl
    cases hl
  | some info =>
    obtain ⟨c, hc⟩ := h.present sn info hw
    rw [hc] at hl
    cases hl
    exact ⟨info, rfl, rfl⟩

theorem contains (h : SameSdus w w') (sn : Nat) : w'.contains sn = w.contains sn := by
  unfold CircularMap.contains
  cases hw : w.lookup sn with
  | none => rw [h.absent sn hw]
  | some info =>
    obtain ⟨c, hc⟩ := h.present sn info hw
    rw [hc]
    rfl

theorem modify (w : CircularMap RlcTxAmSduInfo) (sn : Nat) (f : Nat → Nat) :
    SameSdus w (w.modify sn (fun i => { i with retxCount := f i.retxCount })) where
  capacity := by simp
  count := by simp
  present := by
    intro key info hl
    rw [CircularMap.lookup_modify]
    by_cases hk : key = sn
    · rw [if_pos hk, ← hk, hl]
      exact ⟨f info.retxCount, rfl⟩
    · rw [if_neg hk]
      exact ⟨info.retxCount, hl⟩
  absent := by
    intro key hl
    rw [CircularMap.lookup_modify]
    by_cases hk : key = sn
    · rw [if_pos hk, ← hk, hl]
      rfl
    · rw [if_neg hk]
      exact hl

end SameSdus

structure RetxKeeps (s s' : RlcTxAmEntity) : Prop where
  eq : ∃ w q sn, s' = { s with txWindow := w, retxQueue := q, retxSn := sn }
  sdus : SameSdus s.txWindow s'.txWindow

namespace RetxKeeps

theorem refl (s : RlcTxAmEntity) : RetxKeeps s s := ⟨⟨_, _, _, rfl⟩, .refl _⟩

theorem of_retx (s : RlcTxAmEntity) (q : RlcRetxQueue) (sn : Option Nat) :
    RetxKeeps s { s with retxQueue := q, retxSn := sn } := ⟨⟨_, _, _, rfl⟩, .refl _⟩

section

variable (h : RetxKeeps s s')
include h

theorem trans (h' : RetxKeeps s' t) : RetxKeeps s t := by
  obtain ⟨w, q, sn, rfl⟩ := h.eq
  obtain ⟨w', q', sn', rfl⟩ := h'.eq
  exact ⟨⟨w', q', sn', rfl⟩, h.sdus.trans h'.sdus⟩

theorem cfg : s'.cfg = s.cfg := by
  obtain ⟨w, q, sn, rfl⟩ := h.eq
  rfl

theorem st : s'.st = s.st := by
  obtain ⟨w, q, sn, rfl⟩ := h.eq
  rfl

theorem seg : s'.snUnderSegmentation = s.snUnderSegmentation := by
  obtain ⟨w, q, sn, rfl⟩ := h.eq
  rfl

theorem sduQueue : s'.sduQueue = s.sduQueue := by
  obtain ⟨w, q, sn, rfl⟩ := h.eq
  rfl

theorem mod : s'.mod = s.mod := by
  rw [RlcTxAmEntity.mod, RlcTxAmEntity.mod, h.cfg]

theorem nackRetx (nack : RlcAmStatusNack) (info : RlcTxAmSduInfo) :
    s'.nackRetx nack info = s.nackRetx nack info := by
  rw [RlcTxAmEntity.nackRetx, RlcTxAmEntity.nackRetx, nackSoEnd, nackSoEnd, h.seg]

end

theorem setRetxCount {sn : Nat} {f : Nat → Nat} (hs : s.setRetxCount sn f = .ok s') :
    RetxKeeps s s' ∧ s'.retxQueue = s.retxQueue := by
  unfold RlcTxAmEntity.setRetxCount at hs
  split at hs <;> cases hs
  exact ⟨⟨⟨_, _, _, rfl⟩, .modify _ _ _⟩, rfl⟩

end RetxKeeps

theorem WindowInv.keeps (h : WindowInv s a n hist) (hk : RetxKeeps s s') : WindowInv s' a n hist := by
  have hmod := hk.mod
  have hws : s'.amWindowSize = s.amWindowSize := by rw [amWindowSize, amWindowSize, hk.cfg]
  have htop : s'.top n = s.top n := by rw [top, top, hk.seg]
  have hcap := hk.sdus.capacity
  constructor
  · rw [hk.st, hmod]; exact h.ack
  · rw [hk.st, hmod]; exact h.next
  · exact h.le
  · rw [hk.seg, hmod]; exact h.seg
  · rw [hmod, htop]
    refine ⟨by rw [hcap]; exact h.window.pow, by rw [hcap]; exact h.window.dvd, h.window.mod_pos,
      by rw [hcap]; exact h.window.le, ?_⟩
    intro sn v hv
    obtain ⟨info, hinfo, -⟩ := hk.sdus.present_inv hv
    exact h.window.only sn info hinfo
  · rw [hcap, hws]; exact h.capacity
  · rw [hk.sdus.count, htop]; exact h.count
  · rw [htop]; exact h.hist_length
  · intro k hka hkt
    rw [htop] at hkt
    obtain ⟨info, hinfo, hok⟩ := h.entry k hka hkt
    obtain ⟨c, hc⟩ := hk.sdus.present _ info hinfo
    refine ⟨{ info with retxCount := c }, by rw [hmod]; exact hc, ?_⟩
    exact ⟨hok.assigned, hok.ne_nil, hok.progress⟩

theorem setRetxCount_ok {sn : Nat} (hc : s.txWindow.contains sn = true) (f : Nat → Nat) :
    ∃ s', s.setRetxCount sn f = .ok s' := by
  obtain ⟨info, hinfo⟩ := Option.isSome_iff_exists.mp hc
  exact ⟨_, by rw [RlcTxAmEntity.setRetxCount, hinfo]⟩

structure AckMoves (s s' : RlcTxAmEntity) : Prop where
  eq : ∃ w a, s' = { s with txWindow := w, st := { s.st with txNextAck := a } }
  ack : s'.st.txNextAck = s.st.txNextAck ∨ s'.st.txNextAck < s.mod
  left : ∀ sn info, s'.txWindow.lookup sn = some info → s.txWindow.lookup sn = some info

theorem AckMoves.refl (s : RlcTxAmEntity) : AckMoves s s :=
  ⟨⟨s.txWindow, s.st.txNextAck, rfl⟩, .inl rfl, fun _ _ h => h⟩

theorem ackLoop_moves {stop fuel sn : Nat} (hs : ackLoop stop fuel sn s = .ok s') : AckMoves s s' := by
  induction fuel generalizing s sn with
  | zero =>
    rw [ackLoop] at hs
    split at hs <;> cases hs
    exact .refl _
  | succ fuel ih =>
    rw [ackLoop] at hs
    split at hs
    · simp only at hs
      split at hs
      · obtain ⟨⟨w, a, rfl⟩, hack, hleft⟩ := ih hs
        refine ⟨⟨w, a, rfl⟩, .inr (hack.elim (fun h => ?_) id), fun key info hl => ?_⟩
        · rw [h]
          exact Nat.mod_lt _ RlcAmSnSize.mod_pos
        · have hl' := hleft key info hl
          rw [CircularMap.lookup_erase] at hl'
          split at hl'
          · cases hl'
          · exact hl'
      · cases hs
        exact .refl _
    · cases hs
      exact .refl _

theorem rewindRetx_spec (s : RlcTxAmEntity) (retx : RlcTxAmdRetx) :
    ∃ s', s.rewindRetx retx = .ok s' ∧ RetxKeeps s s' ∧ s'.retxQueue = s.retxQueue := by
  unfold rewindRetx
  by_cases hsn : s.retxSn = some retx.sn
  · exact ⟨s, by rw [if_pos hsn], .refl s, rfl⟩
  · rw [if_neg hsn]
    by_cases hc : s.txWindow.contains retx.sn = true
    · obtain ⟨s1, hs1⟩ := setRetxCount_ok hc (fun n =>
        if n = retxCountNotStarted then n else if n = 0 then retxCountNotStarted else n - 1)
      obtain ⟨hk, hq⟩ := RetxKeeps.setRetxCount hs1
      refine ⟨{ s1 with retxSn := some retx.sn }, ?_, hk.trans (.of_retx s1 s1.retxQueue _), hq⟩
      rw [if_pos hc, decrementRetxCount, hs1]
      rfl
    · exact ⟨{ s with retxSn := some retx.sn }, by rw [if_neg hc], .of_retx s s.retxQueue _, rfl⟩

theorem clearRetxQueue_spec (l : List RlcTxAmdRetx) (s : RlcTxAmEntity) :
    ∃ s', clearRetxQueue l s = .ok s' ∧ RetxKeeps s s' ∧
      s'.retxQueue = RlcRetxQueue.pop^[l.length] s.retxQueue := by
  induction l generalizing s with
  | nil => exact ⟨_, rfl, .of_retx s s.retxQueue none, rfl⟩
  | cons front rest ih =>
    obtain ⟨s1, hs1, hk1, hq1⟩ := rewindRetx_spec s front
    obtain ⟨s2, hs2, hk2, hq2⟩ := ih { s1 with retxQueue := s1.retxQueue.pop }
    refine ⟨s2, ?_, hk1.trans ((RetxKeeps.of_retx s1 _ s1.retxSn).trans hk2), ?_⟩
    · rw [clearRetxQueue, hs1]
      exact hs2
    · rw [hq2, hq1, List.length_cons, Function.iterate_succ_apply]

inductive Scheduled (P : RlcTxAmdRetx → Prop) : RlcRetxQueue → RlcRetxQueue → Prop
  | refl : Scheduled P q q
  | push : Scheduled P q q' → P retx → q'.tryPush retx = some q'' → Scheduled P q q''

variable {P : RlcTxAmdRetx → Prop}

theorem Scheduled.trans {q q' q'' : RlcRetxQueue} (h : Scheduled P q q')
    (h' : Scheduled P q' q'') : Scheduled P q q'' := by
  induction h' with
  | refl => exact h
  | push _ hp hpush ih => exact .push ih hp hpush

def NackGives (s : RlcTxAmEntity) (P : RlcTxAmdRetx → Prop) (item : RlcAmStatusNack) : Prop :=
  ∀ info retx, s.txWindow.lookup item.nackSn = some info → s.nackRetx item info = some retx → P retx

theorem NackGives.keeps {item : RlcAmStatusNack} (h : NackGives s P item)
    (hk : RetxKeeps s s') : NackGives s' P item := by
  intro info' retx hl hr
  obtain ⟨info, hinfo, heq⟩ := hk.sdus.present_inv hl
  rw [hk.nackRetx, heq] at hr
  exact h info retx hinfo hr

theorem handleNack_keeps {nack : RlcAmStatusNack} {b : Bool}
    (hP : NackGives s P nack) (hs : s.handleNack nack = .ok (b, s')) :
    RetxKeeps s s' ∧ Scheduled P s.retxQueue s'.retxQueue := by
  unfold handleNack at hs
  split at hs
  · cases hs
    exact ⟨.refl _, .refl⟩
  · split at hs
    · cases hs
      exact ⟨.refl _, .refl⟩
    · split at hs
      · cases hs
      · rename_i info hinfo
        split at hs
        · cases hs
          exact ⟨.refl _, .refl⟩
        · rename_i retx hretx
          split at hs <;> cases hs
          · exact ⟨.refl _, .refl⟩
          · rename_i q hq
            exact ⟨.of_retx s q s.retxSn, .push .refl (hP info retx hinfo hretx) hq⟩

theorem nackItem_keeps {nack : RlcAmStatusNack} {prev res : Option Nat}
    (hP : NackGives s P nack) (hs : nackItem s prev nack = .ok (res, s')) :
    RetxKeeps s s' ∧ Scheduled P s.retxQueue s'.retxQueue := by
  unfold nackItem at hs
  obtain ⟨⟨b, s1⟩, h1, hs⟩ := bind_eq_ok.mp hs
  obtain ⟨hk1, hq1⟩ := handleNack_keeps hP h1
  simp only at hs
  split at hs
  · obtain ⟨s2, h2, hs⟩ := bind_eq_ok.mp hs
    cases hs
    obtain ⟨hk2, hq2⟩ := RetxKeeps.setRetxCount h2
    exact ⟨hk1.trans hk2, by rw [hq2]; exact hq1⟩
  · cases hs
    exact ⟨hk1, hq1⟩

theorem nackRangeLoop_keeps {ackSn : Nat} {nack : RlcAmStatusNack}
    {left rangeSn : Nat} {prev res : Option Nat} (hsn : rangeSn < s.mod)
    (hP : ∀ i < left, NackGives s P (nack.rangeItem s.mod ((rangeSn + i) % s.mod)))
    (hs : nackRangeLoop ackSn nack left rangeSn prev s = .ok (res, s')) :
    RetxKeeps s s' ∧ Scheduled P s.retxQueue s'.retxQueue := by
  induction left generalizing s rangeSn prev with
  | zero =>
    cases hs
    exact ⟨.refl _, .refl⟩
  | succ left ih =>
    rw [nackRangeLoop] at hs
    split at hs
    · cases hs
      exact ⟨.refl _, .refl⟩
    · obtain ⟨⟨prev1, s1⟩, h1, hs⟩ := bind_eq_ok.mp hs
      have hfirst := hP 0 (by omega)
      rw [Nat.add_zero, Nat.mod_eq_of_lt hsn] at hfirst
      obtain ⟨hk1, hq1⟩ := nackItem_keeps hfirst h1
      have hmod := hk1.mod
      have hlt : s1.nextSn rangeSn < s1.mod := Nat.mod_lt _ mod_pos
      obtain ⟨hk2, hq2⟩ := ih hlt (by
        intro i hi
        rw [hmod, nextSn, hmod, Nat.mod_add_mod, Nat.add_assoc, Nat.add_comm 1 i]
        exact (hP (i + 1) (by omega)).keeps hk1) hs
      exact ⟨hk1.trans hk2, hq1.trans hq2⟩

theorem nackEntry_keeps {ackSn : Nat} {nack : RlcAmStatusNack}
    {prev res : Option Nat} (hsn : nack.nackSn < s.mod)
    (hP : ∀ item ∈ nack.expand s.mod, NackGives s P item)
    (hs : nackEntry ackSn s prev nack = .ok (res, s')) :
    RetxKeeps s s' ∧ Scheduled P s.retxQueue s'.retxQueue := by
  unfold RlcAmStatusNack.expand at hP
  unfold nackEntry at hs
  cases hr : nack.nackRange with
  | none =>
    rw [hr] at hs hP
    exact nackItem_keeps (hP nack List.mem_cons_self) hs
  | some range =>
    rw [hr] at hs hP
    refine nackRangeLoop_keeps hsn ?_ hs
    intro i hi
    exact hP _ (List.mem_map.mpr ⟨i, List.mem_range.mpr hi, rfl⟩)

theorem nackLoop_keeps {ackSn : Nat} {nacks : List RlcAmStatusNack}
    {prev res : Option Nat} (hsn : ∀ nack ∈ nacks, nack.nackSn < s.mod)
    (hP : ∀ nack ∈ nacks, ∀ item ∈ nack.expand s.mod, NackGives s P item)
    (hs : nackLoop ackSn nacks prev s = .ok (res, s')) :
    RetxKeeps s s' ∧ Scheduled P s.retxQueue s'.retxQueue := by
  induction nacks generalizing s prev with
  | nil =>
    cases hs
    exact ⟨.refl _, .refl⟩
  | cons nack rest ih =>
    rw [nackLoop] at hs
    obtain ⟨⟨prev1, s1⟩, h1, hs⟩ := bind_eq_ok.mp hs
    obtain ⟨hk1, hq1⟩ := nackEntry_keeps (hsn nack List.mem_cons_self)
      (hP nack List.mem_cons_self) h1
    have hmod := hk1.mod
    obtain ⟨hk2, hq2⟩ := ih
      (by
        intro nack' hn
        rw [hmod]
        exact hsn nack' (List.mem_cons_of_mem _ hn))
      (by
        intro nack' hn item hitem
        rw [hmod] at hitem
        exact (hP nack' (List.mem_cons_of_mem _ hn) item hitem).keeps hk1) hs
    exact ⟨hk1.trans hk2, hq1.trans hq2⟩

/-- A NACK reads the window for an SN up to TX_Next; TX_Next itself is only there while its SDU
is under segmentation. -/
theorem handleNack_ok (h : WindowInv s a n hist) {nack : RlcAmStatusNack}
    (hsn : nack.nackSn < s.mod)
    (hnext : nack.nackSn = s.st.txNext → s.snUnderSegmentation ≠ none) :
    ∃ res, s.handleNack nack = .ok res := by
  unfold handleNack
  split
  · exact ⟨_, rfl⟩
  · split
    · exact ⟨_, rfl⟩
    · rename_i hbase
      rw [not_not, h.base_next] at hbase
      obtain ⟨-, habs⟩ := exists_abs_txModBase h.ack nack.nackSn
      rw [Nat.mod_eq_of_lt hsn] at habs
      have hle := h.le
      have htop : a + s.txModBase nack.nackSn < s.top n := by
        by_cases heq : a + s.txModBase nack.nackSn = n
        · rcases h.seg with hseg | hseg
          · exact absurd hseg (hnext (by rw [habs, heq, h.next]))
          · rw [top_of_some hseg]
            omega
        · have := le_top (s := s) (n := n)
          omega
      obtain ⟨info, hinfo, -⟩ := h.entry _ (by omega) htop
      rw [← habs] at hinfo
      rw [hinfo]
      simp only
      split
      · exact ⟨_, rfl⟩
      · split <;> exact ⟨_, rfl⟩

theorem handleNack_contains {nack : RlcAmStatusNack} (hs : s.handleNack nack = .ok (true, s')) :
    s'.txWindow.contains nack.nackSn = true := by
  unfold handleNack at hs
  split at hs
  · cases hs
  · split at hs
    · cases hs
    · split at hs
      · cases hs
      · rename_i info hinfo
        split at hs
        · cases hs
        · split at hs <;> cases hs
          simp [CircularMap.contains, hinfo]

theorem nackItem_ok (h : WindowInv s a n hist) (nack : RlcAmStatusNack) (prev : Option Nat)
    (hsn : nack.nackSn < s.mod)
    (hnext : nack.nackSn = s.st.txNext → s.snUnderSegmentation ≠ none) :
    ∃ res, nackItem s prev nack = .ok res := by
  obtain ⟨⟨b, s1⟩, h1⟩ := handleNack_ok h hsn hnext
  rw [nackItem, h1]
  simp only [ok_bind]
  by_cases hb : b = true ∧ prev ≠ some nack.nackSn
  · obtain ⟨rfl, hp⟩ := hb
    obtain ⟨s2, h2⟩ := setRetxCount_ok (handleNack_contains h1)
      (fun n => if n = retxCountNotStarted then 0 else (n + 1) % 2 ^ 32)
    refine ⟨(some nack.nackSn, s2), ?_⟩
    rw [if_pos ⟨rfl, hp⟩, incrementRetxCount, h2]
    rfl
  · exact ⟨_, by rw [if_neg hb]; rfl⟩

theorem nackRangeLoop_ok (h : WindowInv s a n hist) {ackSn : Nat} {nack : RlcAmStatusNack}
    {left rangeSn : Nat} {prev : Option Nat} (hsn : rangeSn < s.mod)
    (hnext : ∀ i < left, (rangeSn + i) % s.mod = s.st.txNext → s.snUnderSegmentation ≠ none) :
    ∃ res, nackRangeLoop ackSn nack left rangeSn prev s = .ok res := by
  induction left generalizing s rangeSn prev with
  | zero => exact ⟨_, rfl⟩
  | succ left ih =>
    rw [nackRangeLoop]
    split
    · exact ⟨_, rfl⟩
    · have hfirst := hnext 0 (by omega)
      rw [Nat.add_zero, Nat.mod_eq_of_lt hsn] at hfirst
      obtain ⟨⟨prev1, s1⟩, h1⟩ := nackItem_ok h (nack.rangeItem s.mod rangeSn) prev hsn hfirst
      obtain ⟨hk, -⟩ := nackItem_keeps (P := fun _ => True) (fun _ _ _ _ => trivial) h1
      have hmod := hk.mod
      rw [h1]
      refine ih (h.keeps hk) (Nat.mod_lt _ mod_pos) ?_
      intro i hi
      rw [hmod, nextSn, hmod, Nat.mod_add_mod, Nat.add_assoc, Nat.add_comm 1 i, hk.st, hk.seg]
      exact hnext (i + 1) (by omega)

theorem nackLoop_ok (h : WindowInv s a n hist) (ackSn : Nat) {nacks : List RlcAmStatusNack}
    (prev : Option Nat) (hsn : ∀ nack ∈ nacks, nack.nackSn < s.mod)
    (hnext : ∀ nack ∈ nacks, ∀ item ∈ nack.expand s.mod, item.nackSn = s.st.txNext →
      s.snUnderSegmentation ≠ none) :
    ∃ res, nackLoop ackSn nacks prev s = .ok res := by
  induction nacks generalizing s prev with
  | nil => exact ⟨_, rfl⟩
  | cons nack rest ih =>
    have hfirst : ∃ res, nackEntry ackSn s prev nack = .ok res := by
      have hitems := hnext nack List.mem_cons_self
      unfold RlcAmStatusNack.expand at hitems
      unfold nackEntry
      cases hr : nack.nackRange with
      | none =>
        rw [hr] at hitems
        exact nackItem_ok h nack prev (hsn nack List.mem_cons_self) (hitems nack List.mem_cons_self)
      | some range =>
        rw [hr] at hitems
        refine nackRangeLoop_ok h (hsn nack List.mem_cons_self) ?_
        intro i hi
        exact hitems _ (List.mem_map.mpr ⟨i, List.mem_range.mpr hi, rfl⟩)
    obtain ⟨⟨prev1, s1⟩, h1⟩ := hfirst
    have hk := nackEntry_keeps (P := fun _ => True) (hsn nack List.mem_cons_self)
      (fun _ _ _ _ _ _ => trivial) h1
    have hmod := hk.1.mod
    rw [nackLoop, h1]
    refine ih (h.keeps hk.1) prev1 ?_ ?_
    · intro nack' hn
      rw [hmod]
      exact hsn nack' (List.mem_cons_of_mem _ hn)
    · intro nack' hn item hitem
      rw [hmod] at hitem
      rw [hk.1.st, hk.1.seg]
      exact hnext nack' (List.mem_cons_of_mem _ hn) item hitem

structure Acked (s : RlcTxAmEntity) (a' n : Nat) (hist : List (List UInt8)) (s' : RlcTxAmEntity) :
    Prop where
  eq : ∃ w, s' = { s with txWindow := w, st := { s.st with txNextAck := a' % s.mod } }
  inv : WindowInv s' a' n hist
  lookup : ∀ j, a' ≤ j → j < s.top n →
    s'.txWindow.lookup (j % s.mod) = s.txWindow.lookup (j % s.mod)

theorem WindowInv.acked (h : WindowInv s a n hist) : Acked s a n hist s where
  eq := ⟨s.txWindow, by rw [← h.ack]⟩
  inv := h
  lookup := fun _ _ _ => rfl

theorem Acked.first (h : WindowInv s a n hist) {a' : Nat} (haa : a < a')
    (hs : Acked { s with
      txWindow := s.txWindow.erase s.st.txNextAck
      st := { s.st with txNextAck := s.nextSn s.st.txNextAck } } a' n hist s') :
    Acked s a' n hist s' := by
  obtain ⟨w, hw⟩ := hs.eq
  refine ⟨⟨w, hw⟩, hs.inv, ?_⟩
  intro j hj hjt
  refine (hs.lookup j hj hjt).trans ?_
  change (s.txWindow.erase s.st.txNextAck).lookup (j % s.mod) = _
  have htw := h.top_le_window
  rw [← h.capacity] at htw
  have hne : j % s.mod ≠ s.st.txNextAck := by
    intro he
    rw [h.ack] at he
    have := h.window.inj (by omega) (by omega) (Nat.le_refl a) (by omega) he
    omega
  rw [CircularMap.lookup_erase, if_neg hne]

theorem ackLoop_spec (h : WindowInv s a n hist) (stop fuel : Nat) (hak : a ≤ k)
    (hkw : k ≤ a + s.amWindowSize) (hstop : stop % s.mod = k % s.mod)
    (hk : k ≤ n ∨ s.snUnderSegmentation = none) (hfuel : k ≤ a + fuel) :
    ∃ s', ackLoop stop fuel s.st.txNextAck s = .ok s' ∧ Acked s (min k n) n hist s' := by
  have hstay : min k n = a → ∃ s', Except.ok s = (.ok s' : Except Fault RlcTxAmEntity) ∧
      Acked s (min k n) n hist s' := by
    intro hmin
    rw [hmin]
    exact ⟨s, rfl, h.acked⟩
  have hbase := h.mod_window hak hkw hstop
  have hle := h.le
  have hpos := amWindowSize_pos (s := s)
  induction fuel generalizing s a with
  | zero =>
    rw [ackLoop, if_neg (by rw [h.base_ack, hbase]; omega)]
    exact hstay (by omega)
  | succ fuel ih =>
    rw [ackLoop]
    by_cases hlt : a < k
    · rw [if_pos (by rw [h.base_ack, hbase]; omega)]
      have hcont := h.contains_iff (Nat.le_refl a) (by omega)
      rw [← h.ack] at hcont
      by_cases han : a < n
      · have hnt := le_top (s := s) (n := n)
        simp only [hcont.mpr (by omega), if_true]
        have h1 : WindowInv { s with
            txWindow := s.txWindow.erase s.st.txNextAck
            st := { s.st with txNextAck := s.nextSn s.st.txNextAck } } (a + 1) n hist :=
          h.ackFirst han rfl rfl rfl rfl rfl
        have hkw1 : k ≤ a + 1 + s.amWindowSize := by omega
        obtain ⟨s', hs', hacked⟩ := ih h1 hlt hkw1 hstop hk (by omega)
          (by
            intro hmin
            rw [hmin]
            exact ⟨_, rfl, h1.acked⟩)
          (h1.mod_window hlt hkw1 hstop) h1.le hpos
        exact ⟨s', hs', hacked.first h (by omega)⟩
      · have hseg : s.snUnderSegmentation = none := by
          rcases hk with hk | hk
          · omega
          · exact hk
        rw [top_of_none hseg] at hcont
        have hout : s.txWindow.contains s.st.txNextAck = false := by
          rw [← Bool.not_eq_true, hcont]
          omega
        simp only [hout, Bool.false_eq_true, if_false]
        exact hstay (by omega)
    · rw [if_neg (by rw [h.base_ack, hbase]; omega)]
      exact hstay (by omega)

end Ocudu.Rlc.RlcTxAmEntity
