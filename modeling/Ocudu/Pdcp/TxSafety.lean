import Ocudu.Pdcp.TxWindow

/-! No operation of the transmitter touches a COUNT that its window does not hold, in every
run that only removes PDUs which the crypto executor is done with. -/

namespace Ocudu.Pdcp

open CircularMap

namespace PdcpEntityTx

variable {C : RohcCompressor} {cfg : PdcpTxConfig} {s t : PdcpEntityTx C} {c : Nat}

/-- The part of the invariant that also holds between two turns of the loops. -/
structure Core (cfg : PdcpTxConfig) (s : PdcpEntityTx C) : Prop where
  window : SnWindow s.txWindow (2 ^ 32) s.st.txNextAck (s.st.txNext + 1)
  capacity : s.txWindow.capacity = cfg.snSize.windowSize
  next_lt : s.st.txNext < 2 ^ 32
  arrival : ∀ c elem, s.txWindow.lookup c = some elem → elem.tickPointOfArrival.isSome = true
  ack_le : s.st.txNextAck ≤ s.st.txNext
  trans_le : s.st.txTransCrypto ≤ s.st.txNext
  first : s.st.txNextAck < s.st.txNext → s.txWindow.contains s.st.txNextAck = true
  inFlight : ∀ c, s.st.txTransCrypto ≤ c → c < s.st.txNext → s.txWindow.contains c = true

structure Inv (cfg : PdcpTxConfig) (s : PdcpEntityTx C) : Prop extends Core cfg s where
  reord : s.cryptoReorderingTimer = true →
    s.st.txTransCrypto ≤ s.st.txReordCrypto ∧ s.st.txReordCrypto ≤ s.st.txNext

/-- `t` has the window and the state variables of `s` that the invariant is about. -/
structure SameWindow (s t : PdcpEntityTx C) : Prop where
  window : t.txWindow = s.txWindow
  next : t.st.txNext = s.st.txNext
  ack : t.st.txNextAck = s.st.txNextAck
  trans : t.st.txTransCrypto = s.st.txTransCrypto

theorem Core.congr (h : Core cfg s) (hsame : SameWindow s t) : Core cfg t where
  window := by rw [hsame.window, hsame.next, hsame.ack]; exact h.window
  capacity := by rw [hsame.window]; exact h.capacity
  next_lt := by rw [hsame.next]; exact h.next_lt
  arrival := by rw [hsame.window]; exact h.arrival
  ack_le := by rw [hsame.next, hsame.ack]; exact h.ack_le
  trans_le := by rw [hsame.next, hsame.trans]; exact h.trans_le
  first := by rw [hsame.window, hsame.next, hsame.ack]; exact h.first
  inFlight := by rw [hsame.window, hsame.next, hsame.trans]; exact h.inFlight

structure SameReordering (s t : PdcpEntityTx C) : Prop where
  next : t.st.txNext = s.st.txNext
  trans : t.st.txTransCrypto = s.st.txTransCrypto
  reord : t.st.txReordCrypto = s.st.txReordCrypto
  timer : t.cryptoReorderingTimer = s.cryptoReorderingTimer

theorem SameReordering.refl (s : PdcpEntityTx C) : SameReordering s s := ⟨rfl, rfl, rfl, rfl⟩

theorem SameReordering.comp {u : PdcpEntityTx C} (h : SameReordering s t)
    (h' : SameReordering t u) : SameReordering s u :=
  ⟨h'.next.trans h.next, h'.trans.trans h.trans, h'.reord.trans h.reord, h'.timer.trans h.timer⟩

theorem Trimmed.sameReordering (h : Trimmed s t) : SameReordering s t := by
  constructor
  all_goals rw [h.frame]

theorem Inv.of_core (h : Inv cfg s) (hcore : Core cfg t) (hsame : SameReordering s t) : Inv cfg t :=
  ⟨hcore, by rw [hsame.timer, hsame.trans, hsame.reord, hsame.next]; exact h.reord⟩

theorem Core.key (h : Core cfg s) (hc : s.txWindow.contains c = true) :
    s.st.txNextAck ≤ c ∧ c ≤ s.st.txNext := by
  obtain ⟨v, hv⟩ := lookup_of_contains hc
  obtain ⟨k, hk, hkn, he⟩ := h.window.only c v hv
  have := h.next_lt
  rw [Nat.mod_eq_of_lt (by omega)] at he
  omega

theorem Core.ack_le_trans (h : Core cfg s) : s.st.txNextAck ≤ s.st.txTransCrypto := by
  rcases Nat.lt_or_eq_of_le h.trans_le with hlt | heq
  · exact (h.key (h.inFlight _ (le_refl _) hlt)).1
  · rw [heq]
    exact h.ack_le

theorem Core.next_le (h : Core cfg s) : s.st.txNext + 1 ≤ s.st.txNextAck + cfg.snSize.windowSize := by
  rw [← h.capacity]
  exact h.window.le

theorem Core.arrivalOf (h : Core cfg s) (hc : s.txWindow.contains c = true) :
    ∃ elem now, s.txWindow.lookup c = some elem ∧ elem.tickPointOfArrival = some now ∧
      s.arrivalOf c = .ok now := by
  obtain ⟨elem, he⟩ := lookup_of_contains hc
  obtain ⟨now, hnow⟩ := Option.isSome_iff_exists.mp (h.arrival c elem he)
  refine ⟨elem, now, he, hnow, ?_⟩
  unfold PdcpEntityTx.arrivalOf SduWindow.get
  rw [he]
  simp only [ok_bind, hnow]

theorem Core.discardPdu (h : Core cfg s) (hc : Discardable cfg s c → c < s.st.txTransCrypto) :
    Core cfg (s.discardPdu cfg c) := by
  by_cases hd : Discardable cfg s c
  · obtain ⟨sb, ns, ds, b, he, hfirst⟩ := discardPdu_of hd
    have hctrans := hc hd
    have hnext := h.next_lt
    have hgone : ∀ x, s.st.txNextAck ≤ x → x < b → (s.txWindow.erase c).lookup (x % 2 ^ 32) = none := by
      intro x hx hxb
      have := hfirst.le_top
      rw [Nat.mod_eq_of_lt (by omega)]
      exact CircularMap.lookup_eq_none (hfirst.gone x hx hxb)
    rw [he]
    constructor
    case window => exact (h.window.erase c).raise hfirst.le hgone
    case capacity => simpa using h.capacity
    case next_lt => exact hnext
    case arrival =>
      intro x elem hx
      rw [lookup_erase] at hx
      split at hx
      · cases hx
      · exact h.arrival x elem hx
    case ack_le => exact hfirst.le_top
    case trans_le => exact h.trans_le
    case first =>
      intro hlt
      rcases hfirst.first with hb | hb
      · dsimp only at hlt
        omega
      · exact hb
    case inFlight =>
      intro x hx hxn
      dsimp only at hx hxn ⊢
      rw [contains_erase]
      exact ⟨by omega, h.inFlight x hx hxn⟩
  · rw [discardPdu_of_not hd]
    exact h

theorem contains_of_discardPdu {x : Nat} (hx : (s.discardPdu cfg c).txWindow.contains x = true) :
    s.txWindow.contains x = true := by
  by_cases hd : Discardable cfg s c
  · obtain ⟨sb, ns, ds, b, he, -⟩ := discardPdu_of hd
    rw [he] at hx
    exact ((contains_erase _ _ _).mp hx).2
  · rwa [discardPdu_of_not hd] at hx

def HandedOver (s : PdcpEntityTx C) (cs : List Nat) : Prop :=
  ∀ c ∈ cs, s.txWindow.contains c = true → c < s.st.txNext → c < s.st.txTransCrypto

instance (s : PdcpEntityTx C) (cs : List Nat) : Decidable (HandedOver s cs) := by
  unfold HandedOver
  infer_instance

theorem Core.foldl_discardPdu (cs : List Nat) (h : Core cfg s) (hcs : HandedOver s cs) :
    Core cfg (cs.foldl (PdcpEntityTx.discardPdu cfg) s) ∧
      Trimmed s (cs.foldl (PdcpEntityTx.discardPdu cfg) s) := by
  induction cs generalizing s with
  | nil => exact ⟨h, Trimmed.refl s⟩
  | cons c cs ih =>
    have htrim := @discardPdu_trimmed C cfg s c
    have hsame := htrim.sameReordering
    have hcore := h.discardPdu (c := c) fun hd => hcs c List.mem_cons_self hd.2.2.2 hd.2.2.1
    obtain ⟨hcore', htrim'⟩ := ih hcore (by
      intro x hx hcont hlt
      rw [hsame.next] at hlt
      rw [hsame.trans]
      exact hcs x (List.mem_cons_of_mem _ hx) (contains_of_discardPdu hcont) hlt)
    exact ⟨hcore', htrim.trans htrim'⟩

def reportOf (s : PdcpEntityTx C) (bytes : List UInt8) : List Nat :=
  match readStatusReport s.st.txNext bytes with
  | .accepted fmc bitmap => acknowledged fmc bitmap s
  | _ => []

theorem Inv.handleStatusReport (h : Inv cfg s) {bytes : List UInt8}
    (hcs : HandedOver s (reportOf s bytes)) : Inv cfg (s.handleStatusReport cfg bytes) := by
  unfold reportOf at hcs
  cases hr : readStatusReport s.st.txNext bytes with
  | ignored =>
    unfold PdcpEntityTx.handleStatusReport
    rw [hr]
    exact h
  | failed n =>
    unfold PdcpEntityTx.handleStatusReport
    rw [hr]
    exact h.of_core (h.toCore.congr ⟨rfl, rfl, rfl, rfl⟩) ⟨rfl, rfl, rfl, rfl⟩
  | accepted fmc bitmap =>
    rw [hr] at hcs
    rw [handleStatusReport_of_accepted hr]
    obtain ⟨hcore, htrim⟩ := h.toCore.foldl_discardPdu _ hcs
    exact h.of_core hcore htrim.sameReordering

theorem removeSdu_eq_erase (s : PdcpEntityTx C) (c : Nat) :
    ∃ sb ns, s.removeSdu c = { s with
      txWindow := s.txWindow.erase c, sduBytes := sb, nofSdus := ns } := by
  cases h : s.txWindow.contains c with
  | true => exact removeSdu_eq h
  | false =>
    refine ⟨s.sduBytes, s.nofSdus, ?_⟩
    rw [erase_of_not_contains h]
    unfold removeSdu
    rw [CircularMap.lookup_eq_none h]

theorem removeUpTo_eq (n : Nat) (s : PdcpEntityTx C) :
    ∃ w sb ns, removeUpTo n s = { s with
        txWindow := w, sduBytes := sb, nofSdus := ns
        st := { s.st with txNextAck := s.st.txNextAck + n } } ∧
      (∀ x, w.lookup x =
        if s.st.txNextAck ≤ x ∧ x < s.st.txNextAck + n then none else s.txWindow.lookup x) ∧
      (∀ m a b, SnWindow s.txWindow m a b → SnWindow w m a b) ∧
      w.capacity = s.txWindow.capacity := by
  induction n generalizing s with
  | zero =>
    refine ⟨s.txWindow, s.sduBytes, s.nofSdus, rfl, ?_, fun _ _ _ h => h, rfl⟩
    intro x
    rw [if_neg (by omega)]
  | succ n ih =>
    obtain ⟨sb, ns, hr⟩ := s.removeSdu_eq_erase s.st.txNextAck
    unfold removeUpTo
    rw [hr]
    dsimp only
    obtain ⟨w, sb', ns', he, hl, hw, hcap⟩ := ih { s with
      txWindow := s.txWindow.erase s.st.txNextAck, sduBytes := sb, nofSdus := ns
      st := { s.st with txNextAck := s.st.txNextAck + 1 } }
    refine ⟨w, sb', ns', ?_, ?_, fun m a b h => hw m a b (h.erase _), by rw [hcap]; simp⟩
    · have hsum : s.st.txNextAck + 1 + n = s.st.txNextAck + (n + 1) := by omega
      rw [he]
      dsimp only
      rw [hsum]
    · intro x
      rw [hl, lookup_erase]
      dsimp only
      split_ifs
      all_goals first | rfl | omega

/-- The COUNT after the last one that is stopped is stored, if it is below `TX_NEXT`. -/
def NextStored (s : PdcpEntityTx C) (n : Nat) : Prop :=
  s.st.txNextAck ≤ n → n < s.st.txNext → n + 1 = s.st.txNext ∨ s.txWindow.contains (n + 1) = true

instance (s : PdcpEntityTx C) (n : Nat) : Decidable (NextStored s n) := by
  unfold NextStored
  infer_instance

/-- Stopping the timers up to `n` leaves PDUs in flight alone, and the next COUNT is stored. -/
def EdgeKept (s : PdcpEntityTx C) (n : Nat) : Prop :=
  (s.st.txNextAck ≤ n → n < s.st.txNext → n < s.st.txTransCrypto) ∧ NextStored s n

instance (s : PdcpEntityTx C) (n : Nat) : Decidable (EdgeKept s n) := by
  unfold EdgeKept
  infer_instance

theorem Core.restartDiscardTimer (h : Core cfg s) :
    ∃ t, s.restartDiscardTimer cfg = .ok t ∧ Core cfg t ∧ SameReordering s t := by
  unfold PdcpEntityTx.restartDiscardTimer
  split_ifs with h1 h2
  · exact ⟨s, rfl, h, SameReordering.refl s⟩
  · have := h.ack_le
    obtain ⟨elem, now, -, -, ha⟩ := h.arrivalOf (h.first (by omega))
    exact ⟨{ s with discardTimer := true }, by simp only [ha, ok_bind, pure_eq_ok],
      h.congr ⟨rfl, rfl, rfl, rfl⟩, ⟨rfl, rfl, rfl, rfl⟩⟩
  · exact ⟨s, rfl, h, SameReordering.refl s⟩

theorem Core.stopDiscardTimer (h : Core cfg s) {n : Nat} (hn : EdgeKept s n) :
    ∃ t, s.stopDiscardTimer cfg n = .ok t ∧ Core cfg t ∧ SameReordering s t := by
  unfold PdcpEntityTx.stopDiscardTimer
  split_ifs with h1 h2 h3
  · exact ⟨s, rfl, h, SameReordering.refl s⟩
  · exact ⟨s, rfl, h, SameReordering.refl s⟩
  · have hlt := hn.1 (by omega) (by omega)
    have hnext := hn.2 (by omega) (by omega)
    have hle := h.next_lt
    obtain ⟨w, sb, ns, he, hl, hw, hcap⟩ := removeUpTo_eq (n + 1 - s.st.txNextAck)
      { s with discardTimer := false }
    have hsum : s.st.txNextAck + (n + 1 - s.st.txNextAck) = n + 1 := by omega
    dsimp only at he hl hw hcap
    rw [hsum] at he hl
    have hcont : ∀ x, n + 1 ≤ x → w.contains x = s.txWindow.contains x := by
      intro x hx
      rw [contains, contains, hl, if_neg (by omega)]
    have hgone : ∀ x, s.st.txNextAck ≤ x → x < n + 1 → w.lookup (x % 2 ^ 32) = none := by
      intro x hx hxn
      rw [Nat.mod_eq_of_lt (by omega), hl, if_pos ⟨hx, hxn⟩]
    have hcore : Core cfg (removeUpTo (n + 1 - s.st.txNextAck)
        { s with discardTimer := false }).raiseTrans := by
      rw [he]
      constructor
      case window => exact (hw _ _ _ h.window).raise (by dsimp only [raiseTrans]; omega) hgone
      case capacity => exact hcap.trans h.capacity
      case next_lt => exact hle
      case arrival =>
        intro x elem hx
        simp only [raiseTrans] at hx
        rw [hl] at hx
        split at hx
        · cases hx
        · exact h.arrival x elem hx
      case ack_le =>
        dsimp only [raiseTrans]
        omega
      case trans_le => exact h.trans_le
      case first =>
        intro hlt'
        dsimp only [raiseTrans] at hlt' ⊢
        rw [hcont _ (le_refl _)]
        rcases hnext with hnext | hnext
        · omega
        · exact hnext
      case inFlight =>
        intro x hx hxn
        dsimp only [raiseTrans] at hx hxn ⊢
        rw [hcont x (by omega)]
        exact h.inFlight x hx hxn
    have hsame : SameReordering s (removeUpTo (n + 1 - s.st.txNextAck)
        { s with discardTimer := false }).raiseTrans := by
      rw [he]
      exact ⟨rfl, rfl, rfl, rfl⟩
    obtain ⟨u, hu, hcu, hsu⟩ := hcore.restartDiscardTimer
    exact ⟨u, hu, hcu, hsame.comp hsu⟩
  · exact ⟨s, rfl, h, SameReordering.refl s⟩

theorem Core.transmitNotification (h : Core cfg s) {sn : Nat}
    (hn : cfg.rlcMode = .um → s.notificationCount cfg sn < s.st.txTransCrypto →
      EdgeKept s (s.notificationCount cfg sn)) :
    ∃ t, s.transmitNotification cfg sn = .ok t ∧ Core cfg t ∧ SameReordering s t := by
  unfold PdcpEntityTx.transmitNotification
  dsimp only
  split_ifs with h1 h2 h3 h4 h5
  · exact ⟨s, rfl, h, SameReordering.refl s⟩
  · exact ⟨s, rfl, h, SameReordering.refl s⟩
  · exact ⟨s, rfl, h, SameReordering.refl s⟩
  · exact ⟨s, rfl, h, SameReordering.refl s⟩
  · have hcore : Core cfg { s with st := { s.st with
        txTrans := (s.notificationCount cfg sn + 1) % 2 ^ 32 } } := h.congr ⟨rfl, rfl, rfl, rfl⟩
    obtain ⟨t, ht, hct, hsame⟩ := hcore.stopDiscardTimer (hn h5 (by omega))
    have hset : SameReordering s { s with st := { s.st with
        txTrans := (s.notificationCount cfg sn + 1) % 2 ^ 32 } } := ⟨rfl, rfl, rfl, rfl⟩
    exact ⟨t, ht, hct, hset.comp hsame⟩
  · exact ⟨_, rfl, h.congr ⟨rfl, rfl, rfl, rfl⟩, ⟨rfl, rfl, rfl, rfl⟩⟩

theorem Core.deliveryNotification (h : Core cfg s) {sn : Nat}
    (hn : cfg.rlcMode = .am → sn < cfg.snSize.cardinality →
      EdgeKept s (s.notificationCount cfg sn)) :
    ∃ t, s.deliveryNotification cfg sn = .ok t ∧ Core cfg t ∧ SameReordering s t := by
  unfold PdcpEntityTx.deliveryNotification
  dsimp only
  split_ifs with h1 h2 h3
  · exact ⟨s, rfl, h, SameReordering.refl s⟩
  · exact ⟨s, rfl, h, SameReordering.refl s⟩
  · exact h.stopDiscardTimer (hn h3 (by omega))
  · exact ⟨s, rfl, h, SameReordering.refl s⟩

/-- The PDUs as old as the oldest one are those that the discard timer expires for. -/
def expiring (s : PdcpEntityTx C) : List Nat :=
  (List.range' s.st.txNextAck (s.st.txNext - s.st.txNextAck)).filter fun c =>
    ((s.txWindow.lookup c).map (·.tickPointOfArrival)) =
      ((s.txWindow.lookup s.st.txNextAck).map (·.tickPointOfArrival))

def OldHandedOver (oldest : Nat) (s : PdcpEntityTx C) : Prop :=
  ∀ c elem, s.txWindow.lookup c = some elem → elem.tickPointOfArrival = some oldest →
    c < s.st.txNext → c < s.st.txTransCrypto

theorem OldHandedOver.discardPdu {oldest : Nat} (h : OldHandedOver oldest s) :
    OldHandedOver oldest (s.discardPdu cfg c) := by
  by_cases hd : Discardable cfg s c
  · obtain ⟨sb, ns, ds, b, he, -⟩ := discardPdu_of hd
    rw [he]
    intro x elem hx
    rw [lookup_erase] at hx
    split at hx
    · cases hx
    · exact h x elem hx
  · rw [discardPdu_of_not hd]
    exact h

theorem txNextAck_lt_discardPdu (hd : Discardable cfg s s.st.txNextAck) :
    s.st.txNextAck < (s.discardPdu cfg s.st.txNextAck).st.txNextAck := by
  obtain ⟨sb, ns, ds, b, he, hfirst⟩ := discardPdu_of hd
  rw [he]
  dsimp only
  by_contra hle
  have heq : b = s.st.txNextAck := by
    have := hfirst.le
    omega
  rcases hfirst.first with hb | hb
  · have := hd.2.2.1
    omega
  · rw [heq, contains_erase] at hb
    exact hb.1 rfl

theorem txNextAck_le_discardPdu (s : PdcpEntityTx C) (c : Nat) :
    s.st.txNextAck ≤ (s.discardPdu cfg c).st.txNextAck := by
  by_cases hd : Discardable cfg s c
  · obtain ⟨sb, ns, ds, b, he, hfirst⟩ := discardPdu_of hd
    rw [he]
    exact hfirst.le
  · rw [discardPdu_of_not hd]

theorem Core.discardLoop {oldest : Nat} (fuel : Nat) (h : Core cfg s)
    (hd : cfg.discardTimer.isSome = true) (hold : OldHandedOver oldest s)
    (hfirst : ∃ elem, s.txWindow.lookup s.st.txNextAck = some elem ∧
      elem.tickPointOfArrival = some oldest)
    (hf : s.st.txNext - s.st.txNextAck < fuel) :
    ∃ t, PdcpEntityTx.discardLoop cfg oldest fuel s = .ok t ∧ Core cfg t ∧ SameReordering s t := by
  induction fuel generalizing s with
  | zero => omega
  | succ fuel ih =>
    obtain ⟨elem, hl, htick⟩ := hfirst
    have hcore : Core cfg (s.discardPdu cfg s.st.txNextAck) :=
      h.discardPdu fun hdis => hold _ elem hl htick hdis.2.2.1
    have hold' : OldHandedOver _ (s.discardPdu cfg s.st.txNextAck) := hold.discardPdu
    have hsame := (@discardPdu_trimmed C cfg s s.st.txNextAck).sameReordering
    have hmove : s.st.txNextAck < s.st.txNext →
        s.st.txNextAck < (s.discardPdu cfg s.st.txNextAck).st.txNextAck := fun hlt =>
      txNextAck_lt_discardPdu ⟨hd, le_refl _, hlt, contains_of_lookup hl⟩
    unfold PdcpEntityTx.discardLoop
    dsimp only
    have hmono := @txNextAck_le_discardPdu C cfg s s.st.txNextAck
    generalize s.discardPdu cfg s.st.txNextAck = u at hcore hold' hsame hmove hmono
    by_cases h1 : u.txWindow.contains u.st.txNextAck = true
    · obtain ⟨elem', now, hl', htick', ha⟩ := hcore.arrivalOf h1
      rw [if_neg (not_not.mpr h1)]
      simp only [ha, ok_bind]
      split_ifs with h2 h3
      · exact ⟨{ u with discardTimer := true }, rfl, hcore.congr ⟨rfl, rfl, rfl, rfl⟩,
          hsame.comp ⟨rfl, rfl, rfl, rfl⟩⟩
      · exact ⟨u, rfl, hcore, hsame⟩
      · -- the loop only goes on from a COUNT below `TX_NEXT`
        have hle := h.ack_le
        have hule := hcore.ack_le
        have hn := hsame.next
        have hlt := hmove (by omega)
        rw [not_not.mp h2] at htick'
        obtain ⟨v, hv, hcv, hsv⟩ := ih hcore hold' ⟨elem', hl', htick'⟩ (by omega)
        exact ⟨v, hv, hcv, hsame.comp hsv⟩
    · rw [if_pos h1]
      exact ⟨u, rfl, hcore, hsame⟩

theorem mem_expiring {x : Nat} (hx : s.st.txNextAck ≤ x) (hxn : x < s.st.txNext)
    {elem oldest : PdcpTxWindowElement} (hl : s.txWindow.lookup x = some elem)
    (ho : s.txWindow.lookup s.st.txNextAck = some oldest)
    (heq : elem.tickPointOfArrival = oldest.tickPointOfArrival) : x ∈ expiring s := by
  unfold expiring
  rw [List.mem_filter, List.mem_range'_1]
  refine ⟨by omega, ?_⟩
  rw [hl, ho]
  simp [heq]

theorem Core.discardCallback (h : Core cfg s) (hd : cfg.discardTimer.isSome = true)
    (hold : HandedOver s (expiring s)) :
    ∃ t, s.discardCallback cfg = .ok t ∧ Core cfg t ∧ SameReordering s t := by
  unfold PdcpEntityTx.discardCallback
  split_ifs with h1
  · obtain ⟨elem, oldest, hl, htick, ha⟩ := h.arrivalOf h1
    simp only [ha, ok_bind]
    refine h.discardLoop _ hd ?_ ⟨elem, hl, htick⟩ (Nat.lt_succ_self _)
    intro x elem' hx htick' hxn
    have hcont := contains_of_lookup hx
    exact hold x (mem_expiring (h.key hcont).1 hxn hx hl (htick'.trans htick.symm)) hcont hxn
  · exact ⟨s, rfl, h, SameReordering.refl s⟩

structure MovedOn (s t : PdcpEntityTx C) : Prop where
  next : t.st.txNext = s.st.txNext
  reord : t.st.txReordCrypto = s.st.txReordCrypto
  timer : t.cryptoReorderingTimer = s.cryptoReorderingTimer

theorem MovedOn.refl (s : PdcpEntityTx C) : MovedOn s s := ⟨rfl, rfl, rfl⟩

theorem MovedOn.comp {u : PdcpEntityTx C} (h : MovedOn s t) (h' : MovedOn t u) : MovedOn s u :=
  ⟨h'.next.trans h.next, h'.reord.trans h.reord, h'.timer.trans h.timer⟩

theorem SameReordering.movedOn (h : SameReordering s t) : MovedOn s t :=
  ⟨h.next, h.reord, h.timer⟩

theorem Core.modify (h : Core cfg s) (c : Nat) (f : PdcpTxWindowElement → PdcpTxWindowElement)
    (hf : ∀ elem, (f elem).tickPointOfArrival = elem.tickPointOfArrival)
    (hw : t.txWindow = s.txWindow.modify c f) (hst : t.st = s.st) : Core cfg t where
  window := by rw [hw, hst]; exact h.window.modify c f
  capacity := by rw [hw, capacity_modify]; exact h.capacity
  next_lt := by rw [hst]; exact h.next_lt
  arrival := by
    intro x elem hx
    rw [hw, lookup_modify] at hx
    split at hx
    · cases hl : s.txWindow.lookup c with
      | none => simp [hl] at hx
      | some elem' =>
        rw [hl] at hx
        cases hx
        rw [hf]
        exact h.arrival c elem' hl
    · exact h.arrival x elem hx
  ack_le := by rw [hst]; exact h.ack_le
  trans_le := by rw [hst]; exact h.trans_le
  first := by rw [hst, hw, contains_modify]; exact h.first
  inFlight := by
    intro x
    rw [hst, hw, contains_modify]
    exact h.inFlight x

theorem Core.moveTrans (h : Core cfg s) {b : Nat} (hb : s.st.txTransCrypto ≤ b)
    (hbn : b ≤ s.st.txNext) : Core cfg { s with st := { s.st with txTransCrypto := b } } where
  window := h.window
  capacity := h.capacity
  next_lt := h.next_lt
  arrival := h.arrival
  ack_le := h.ack_le
  trans_le := hbn
  first := h.first
  inFlight := fun x hx hxn => h.inFlight x (Nat.le_trans hb hx) hxn

theorem Core.handOver (h : Core cfg s) (hlt : s.st.txTransCrypto < s.st.txNext)
    (elem : PdcpTxWindowElement) (isRetx : Bool) :
    Core cfg (s.handOver s.st.txTransCrypto elem isRetx) ∧
      MovedOn s (s.handOver s.st.txTransCrypto elem isRetx) ∧
      (s.handOver s.st.txTransCrypto elem isRetx).st.txTransCrypto = s.st.txTransCrypto + 1 := by
  have hn := h.next_lt
  have hmod : (s.st.txTransCrypto + 1) % 2 ^ 32 = s.st.txTransCrypto + 1 :=
    Nat.mod_eq_of_lt (by omega)
  refine ⟨?_, ⟨rfl, rfl, rfl⟩, hmod⟩
  have hmove := h.moveTrans (b := s.st.txTransCrypto + 1) (by omega) hlt
  refine hmove.modify s.st.txTransCrypto (fun elem => { elem with pdu := [] }) (fun _ => rfl) rfl ?_
  simp only [PdcpEntityTx.handOver, hmod]

theorem Core.notifyInTestMode (h : Core cfg s) (hd : cfg.discardTimer.isSome = true)
    (hc : s.st.txTransCrypto = c + 1) (hcn : s.st.txNextAck ≤ c) :
    ∃ t, s.notifyInTestMode cfg c = .ok t ∧ Core cfg t ∧ SameReordering s t := by
  unfold PdcpEntityTx.notifyInTestMode
  split_ifs with h1
  · refine h.transmitNotification fun _ _ => ?_
    have hle := h.trans_le
    have hwin := h.next_le
    have hcount : s.notificationCount cfg (cfg.snSize.snOf c) = c := by
      unfold notificationCount
      rw [if_pos hd]
      have := h.next_lt
      exact cfg.snSize.inferCount_snOf hcn (by omega) (by omega)
    rw [hcount]
    refine ⟨fun _ _ => by omega, fun _ hlt => ?_⟩
    by_cases heq : c + 1 = s.st.txNext
    · exact .inl heq
    · exact .inr (h.inFlight (c + 1) (by omega) (by omega))
  · exact ⟨s, rfl, h, SameReordering.refl s⟩

theorem Core.flushLoop (isRetx : Bool) (n : Nat) (h : Core cfg s)
    (hd : cfg.discardTimer.isSome = true) (hn : s.st.txTransCrypto + n = s.st.txNext) :
    ∃ t, PdcpEntityTx.flushLoop cfg isRetx n s = .ok t ∧ Core cfg t ∧ MovedOn s t ∧
      s.st.txTransCrypto ≤ t.st.txTransCrypto := by
  induction n generalizing s with
  | zero => exact ⟨s, rfl, h, MovedOn.refl s, le_refl _⟩
  | succ n ih =>
    obtain ⟨elem, hl⟩ := lookup_of_contains (h.inFlight _ (le_refl _) (by omega))
    have hack := h.ack_le_trans
    unfold PdcpEntityTx.flushLoop
    simp only [SduWindow.get, hl, ok_bind]
    split_ifs with hpdu
    · exact ⟨s, rfl, h, MovedOn.refl s, le_refl _⟩
    · obtain ⟨hcore, hmove, htrans⟩ := h.handOver (by omega) elem isRetx
      obtain ⟨t, ht, hct, hst⟩ := hcore.notifyInTestMode hd htrans hack
      have htn := hst.next.trans hmove.next
      have htt := hst.trans.trans htrans
      obtain ⟨u, hu, hcu, hmu, hle⟩ := ih hct (by omega)
      exact ⟨u, by simp only [ht, ok_bind, hu], hcu, (hmove.comp hst.movedOn).comp hmu, by omega⟩

theorem Core.flushInOrder (h : Core cfg s) (hd : cfg.discardTimer.isSome = true) (isRetx : Bool) :
    ∃ t, s.flushInOrder cfg isRetx = .ok t ∧ Core cfg t ∧ MovedOn s t ∧
      s.st.txTransCrypto ≤ t.st.txTransCrypto :=
  h.flushLoop isRetx _ hd (by have := h.trans_le; omega)

theorem Core.handleCryptoTimers (h : Core cfg s)
    (hreord : s.cryptoReorderingTimer = true → s.st.txReordCrypto ≤ s.st.txNext) :
    Inv cfg s.handleCryptoTimers := by
  have hstart : ∀ u, SameWindow s u → u.cryptoReorderingTimer = false →
      Inv cfg u.startCryptoReordering := by
    intro u hu htimer
    have hcu := h.congr hu
    unfold startCryptoReordering
    split_ifs with hlt
    · exact ⟨hcu.congr ⟨rfl, rfl, rfl, rfl⟩, fun _ => ⟨le_of_lt hlt, le_refl _⟩⟩
    · refine ⟨hcu, fun hr => ?_⟩
      rw [htimer] at hr
      cases hr
  unfold PdcpEntityTx.handleCryptoTimers stopCryptoReordering
  by_cases hstop : s.cryptoReorderingTimer = true ∧ s.st.txReordCrypto ≤ s.st.txTransCrypto
  · rw [if_pos hstop]
    exact hstart _ ⟨rfl, rfl, rfl, rfl⟩ rfl
  · rw [if_neg hstop]
    by_cases hrun : s.cryptoReorderingTimer = true
    · have hlt : ¬s.st.txReordCrypto ≤ s.st.txTransCrypto := fun hle => hstop ⟨hrun, hle⟩
      simp only [hrun, if_true]
      exact ⟨h, fun _ => ⟨by omega, hreord hrun⟩⟩
    · simp only [hrun, Bool.false_eq_true, if_false]
      exact hstart s ⟨rfl, rfl, rfl, rfl⟩ (by simpa using hrun)

theorem Inv.applyReordering (h : Inv cfg s) (hd : cfg.discardTimer.isSome = true)
    (info : PdcpTxBufferInfo) :
    ∃ t, s.applyReordering cfg info = .ok t ∧ Inv cfg t := by
  unfold PdcpEntityTx.applyReordering
  split_ifs with h1 h2 h3 h4
  · exact ⟨s, rfl, h⟩
  · exact ⟨s, rfl, h⟩
  · exact ⟨s, rfl, h⟩
  · have hpark : Core cfg (s.parkPdu info) :=
      h.toCore.modify info.count
        (fun elem => { elem with pdu := info.buf, job := info, parkedAt := s.rewinds })
        (fun _ => rfl) rfl rfl
    obtain ⟨t, ht, hct, hmt, -⟩ := hpark.flushInOrder hd info.isRetx
    refine ⟨t.handleCryptoTimers, by simp only [ht, ok_bind, pure_eq_ok], hct.handleCryptoTimers ?_⟩
    intro hr
    rw [hmt.timer] at hr
    rw [hmt.reord, hmt.next]
    exact (h.reord hr).2
  · exact ⟨s, rfl, h⟩

theorem Core.passReordering (h : Core cfg s) (hlt : s.st.txTransCrypto < s.st.txNext) :
    Core cfg s.passReordering ∧ MovedOn s s.passReordering ∧
      s.passReordering.st.txTransCrypto = s.st.txTransCrypto + 1 := by
  have hn := h.next_lt
  have hmod : (s.st.txTransCrypto + 1) % 2 ^ 32 = s.st.txTransCrypto + 1 :=
    Nat.mod_eq_of_lt (by omega)
  have hskip : Core cfg { s with st := { s.st with
      txTransCrypto := (s.st.txTransCrypto + 1) % 2 ^ 32 } } :=
    h.moveTrans (by omega) (by omega)
  unfold PdcpEntityTx.passReordering
  dsimp only
  split
  · split_ifs with hpdu
    · exact ⟨hskip, ⟨rfl, rfl, rfl⟩, hmod⟩
    · exact h.handOver hlt _ false
  · exact ⟨hskip, ⟨rfl, rfl, rfl⟩, hmod⟩

theorem Core.iterate_passReordering (n : Nat) (h : Core cfg s)
    (hn : s.st.txTransCrypto + n ≤ s.st.txNext) :
    Core cfg (PdcpEntityTx.passReordering^[n] s) ∧ MovedOn s (PdcpEntityTx.passReordering^[n] s) := by
  induction n generalizing s with
  | zero => exact ⟨h, MovedOn.refl s⟩
  | succ n ih =>
    obtain ⟨hcore, hmove, htrans⟩ := h.passReordering (by omega)
    have hnext := hmove.next
    obtain ⟨hc, hm⟩ := ih hcore (by omega)
    exact ⟨hc, hmove.comp hm⟩

theorem Inv.cryptoReorderingTimeout (h : Inv cfg s) (hd : cfg.discardTimer.isSome = true)
    (hrun : s.cryptoReorderingTimer = true) :
    ∃ t, { s with cryptoReorderingTimer := false }.cryptoReorderingTimeout cfg = .ok t ∧
      Inv cfg t := by
  obtain ⟨hle, hre⟩ := h.reord hrun
  have hn := h.next_lt
  have hdist : SeqNum.subU32 s.st.txReordCrypto s.st.txTransCrypto =
      s.st.txReordCrypto - s.st.txTransCrypto := SeqNum.dist_of_le hle (by omega)
  have hoff : Core cfg { s with cryptoReorderingTimer := false } :=
    h.toCore.congr ⟨rfl, rfl, rfl, rfl⟩
  obtain ⟨hcu, hmu⟩ := hoff.iterate_passReordering
    (SeqNum.subU32 s.st.txReordCrypto s.st.txTransCrypto) (by dsimp only; omega)
  obtain ⟨t, ht, hct, hmt, -⟩ := hcu.flushInOrder hd false
  have htimer : t.cryptoReorderingTimer = false := by rw [hmt.timer, hmu.timer]
  refine ⟨t.startCryptoReordering, ?_, ?_⟩
  · unfold PdcpEntityTx.cryptoReorderingTimeout passUpToReord
    simp only [ht, ok_bind, pure_eq_ok]
  · unfold startCryptoReordering
    split_ifs with hlt
    · exact ⟨hct.congr ⟨rfl, rfl, rfl, rfl⟩, fun _ => ⟨le_of_lt hlt, le_refl _⟩⟩
    · refine ⟨hct, fun hr => ?_⟩
      rw [htimer] at hr
      cases hr

theorem applyHeaderCompression_frame (s : PdcpEntityTx C) (buf : List UInt8) :
    ∃ r n, (s.applyHeaderCompression buf).2 = { s with rohcComp := r, protocolFailures := n } := by
  unfold applyHeaderCompression
  split
  · exact ⟨_, _, rfl⟩
  · dsimp only
    split_ifs
    · exact ⟨_, _, rfl⟩
    · exact ⟨_, _, rfl⟩

theorem Core.addSdu (h : Core cfg s) {elem : PdcpTxWindowElement} (hcount : elem.count = s.st.txNext)
    (htick : elem.tickPointOfArrival.isSome = true)
    (hroom : s.st.txNext < s.st.txNextAck + cfg.snSize.windowSize) :
    Core cfg (s.addSdu elem) ∧ (s.addSdu elem).txWindow.contains s.st.txNext = true := by
  have hn := h.next_lt
  have hack := h.ack_le
  have hself : s.st.txNext % 2 ^ 32 = s.st.txNext := Nat.mod_eq_of_lt hn
  have hcap : s.st.txNext < s.st.txNextAck + s.txWindow.capacity := by
    rw [h.capacity]
    exact hroom
  have hlook := h.window.lookup_put hack hcap elem
  have hput := h.window.put hack hcap elem
  rw [hself] at hlook hput
  rw [max_self] at hput
  have hcont : ∀ x, (s.txWindow.overwrite s.st.txNext elem).contains x = true ↔
      x = s.st.txNext ∨ s.txWindow.contains x = true := by
    intro x
    unfold contains
    rw [hlook]
    by_cases hx : x = s.st.txNext
    · simp [hx]
    · simp [hx]
  unfold PdcpEntityTx.addSdu
  rw [hcount]
  refine ⟨?_, (hcont _).mpr (.inl rfl)⟩
  constructor
  case window => exact hput
  case capacity => simpa using h.capacity
  case next_lt => exact hn
  case arrival =>
    intro x e hx
    rw [hlook] at hx
    split at hx
    · cases hx
      exact htick
    · exact h.arrival x e hx
  case ack_le => exact hack
  case trans_le => exact h.trans_le
  case first => exact fun hlt => (hcont _).mpr (.inr (h.first hlt))
  case inFlight => exact fun x hx hxn => (hcont _).mpr (.inr (h.inFlight x hx hxn))

theorem Core.advanceNext (h : Core cfg s) (hcont : s.txWindow.contains s.st.txNext = true)
    (hlt : s.st.txNext + 1 < 2 ^ 32)
    (hroom : s.st.txNext + 2 ≤ s.st.txNextAck + cfg.snSize.windowSize)
    (hw : t.txWindow = s.txWindow)
    (hst : t.st = { s.st with txNext := (s.st.txNext + 1) % 2 ^ 32 }) : Core cfg t := by
  rw [Nat.mod_eq_of_lt hlt] at hst
  have hack := h.ack_le
  have htrans := h.trans_le
  constructor
  case window =>
    rw [hw, hst]
    exact h.window.widen (Nat.le_succ _) (by rw [h.capacity]; exact hroom)
  case capacity => rw [hw]; exact h.capacity
  case next_lt => rw [hst]; exact hlt
  case arrival => rw [hw]; exact h.arrival
  case ack_le => rw [hst]; dsimp only; omega
  case trans_le => rw [hst]; dsimp only; omega
  case first =>
    rw [hw, hst]
    intro hlt'
    dsimp only at hlt' ⊢
    rcases Nat.lt_or_eq_of_le hack with hlo | heq
    · exact h.first hlo
    · rw [heq]
      exact hcont
  case inFlight =>
    rw [hw, hst]
    intro x hx hxn
    dsimp only at hx hxn
    rcases Nat.lt_or_eq_of_le (Nat.le_of_lt_succ hxn) with hlo | heq
    · exact h.inFlight x hx hlo
    · rw [heq]
      exact hcont

theorem windowSize_gt_one (sz : PdcpSnSize) : 1 < sz.windowSize := by
  cases sz <;> decide

theorem Inv.transmitSdu (h : Inv cfg s) (hfin : finiteDiscardTimer cfg = true)
    (hmax : s.st.txNext < cfg.maxCountHard)
    (hroom : s.st.txNext + 2 ≤ s.st.txNextAck + cfg.snSize.windowSize)
    (buf : List UInt8) (now : Nat) : Inv cfg (s.transmitSdu cfg buf now) := by
  have hlimit := cfg.maxCountHard_lt
  obtain ⟨hadd, hcont⟩ := @Core.addSdu C cfg s h.toCore (s.newElement cfg buf now) rfl
    (by simp [newElement, hfin]) (by omega)
  unfold PdcpEntityTx.transmitSdu
  dsimp only
  obtain ⟨r, n, hr⟩ := applyHeaderCompression_frame { s.addSdu (s.newElement cfg buf now) with
    discardTimer := s.discardTimer || finiteDiscardTimer cfg } buf
  split
  · rename_i u heq
    rw [heq] at hr
    dsimp only at hr
    rw [hr]
    exact h.of_core (hadd.congr ⟨rfl, rfl, rfl, rfl⟩) ⟨rfl, rfl, rfl, rfl⟩
  · rename_i b u heq
    rw [heq] at hr
    dsimp only at hr
    have hmod : (s.st.txNext + 1) % 2 ^ 32 = s.st.txNext + 1 := Nat.mod_eq_of_lt (by omega)
    have hst : u.st = s.st := by rw [hr]; rfl
    have htimer : u.cryptoReorderingTimer = s.cryptoReorderingTimer := by rw [hr]; rfl
    refine ⟨hadd.advanceNext hcont (by change s.st.txNext + 1 < _; omega) hroom (by rw [hr]; rfl)
      (by rw [hst]; rfl), ?_⟩
    intro htrue
    have hreord := h.reord (htimer.symm.trans htrue)
    simp only [hst, hmod]
    exact ⟨hreord.1, by omega⟩

theorem room_of_noDrop {buf : List UInt8} (hdrop : s.checkEarlyDrop cfg buf = .noDrop)
    (hack : s.st.txNextAck ≤ s.st.txNext) (hn : s.st.txNext < 2 ^ 32) :
    s.st.txNext - s.st.txNextAck < cfg.snSize.windowSize - 1 := by
  unfold checkEarlyDrop at hdrop
  split_ifs at hdrop with g1 g2 g3
  have hdist : SeqNum.subU32 s.st.txNext s.st.txNextAck = s.st.txNext - s.st.txNextAck :=
    SeqNum.dist_of_le hack (by omega)
  omega

theorem Inv.handleSdu (h : Inv cfg s) (hdrb : cfg.rbType = .drb)
    (hfin : finiteDiscardTimer cfg = true) (buf : List UInt8) (now : Nat) :
    Inv cfg (s.handleSdu cfg buf now) := by
  unfold PdcpEntityTx.handleSdu
  split_ifs with h1 h2 h3 h4
  · exact h.of_core (h.toCore.congr ⟨rfl, rfl, rfl, rfl⟩) ⟨rfl, rfl, rfl, rfl⟩
  · exact h
  · exact h
  · unfold reachMaxCount
    split_ifs
    · exact h
    · exact h.of_core (h.toCore.congr ⟨rfl, rfl, rfl, rfl⟩) ⟨rfl, rfl, rfl, rfl⟩
  · have hdrop : s.checkEarlyDrop cfg buf = .noDrop := by
      by_contra hne
      exact h3 ⟨by rw [hdrb]; decide, hne⟩
    have hn := h.next_lt
    have hack := h.ack_le
    have hroom := room_of_noDrop hdrop hack hn
    have hwin := windowSize_gt_one cfg.snSize
    exact h.transmitSdu hfin (by omega) (by omega) buf now

/-- What each SDU keeps is kept by all that were buffered. -/
theorem endBuffering_rule (P : PdcpEntityTx C → Prop) {now : Nat} (hP : ∀ u buf, P u → P (u.handleSdu cfg buf now))
    (h : P { s with buffering := false, sduBuffer := [] }) : P (s.endBuffering cfg now) :=
  List.foldlRecOn _ _ h fun u hu buf _ => hP u buf hu

theorem Inv.endBuffering (h : Inv cfg s) (hdrb : cfg.rbType = .drb)
    (hfin : finiteDiscardTimer cfg = true) (now : Nat) : Inv cfg (s.endBuffering cfg now) :=
  endBuffering_rule (Inv cfg) (fun _ buf hu => hu.handleSdu hdrb hfin buf now)
    (h.of_core (h.toCore.congr ⟨rfl, rfl, rfl, rfl⟩) ⟨rfl, rfl, rfl, rfl⟩)

theorem retransmitLoop_frame (cs : List Nat) (s : PdcpEntityTx C) :
    ∃ r n j, s.retransmitLoop cfg cs = { s with rohcComp := r, protocolFailures := n, jobs := j } := by
  induction cs generalizing s with
  | nil => exact ⟨_, _, _, rfl⟩
  | cons c cs ih =>
    unfold retransmitLoop
    split
    · exact ih s
    · rename_i elem he
      obtain ⟨r, n, hr⟩ := s.applyHeaderCompression_frame elem.sdu
      split
      · rename_i u heq
        rw [heq] at hr
        exact ⟨r, n, s.jobs, hr⟩
      · rename_i buf u heq
        rw [heq] at hr
        dsimp only at hr
        obtain ⟨r', n', j', hl⟩ := ih (u.pushJob cfg true c buf)
        rw [hl, hr]
        exact ⟨r', n', j', rfl⟩

def NoHoles (s : PdcpEntityTx C) : Prop :=
  ∀ c ∈ List.range' s.st.txNextAck (s.st.txNext - s.st.txNextAck), s.txWindow.contains c = true

instance (s : PdcpEntityTx C) : Decidable (NoHoles s) := by
  unfold NoHoles
  infer_instance

theorem Inv.retransmitAllPdus (h : Inv cfg s) (hno : cfg.rlcMode = .am → NoHoles s) :
    Inv cfg (s.retransmitAllPdus cfg) := by
  have hack := h.ack_le_trans
  have hlow := h.ack_le
  unfold PdcpEntityTx.retransmitAllPdus
  dsimp only
  split_ifs with h1 h2
  · exact h.of_core (h.toCore.congr ⟨rfl, rfl, rfl, rfl⟩) ⟨rfl, rfl, rfl, rfl⟩
  · exact h.of_core (h.toCore.congr ⟨rfl, rfl, rfl, rfl⟩) ⟨rfl, rfl, rfl, rfl⟩
  · have ham : cfg.rlcMode = .am := not_not.mp h2
    obtain ⟨r, n, j, hr⟩ := @retransmitLoop_frame C cfg
      (List.range' s.st.txNextAck (s.st.txNext - s.st.txNextAck))
      { s with
        rewinds := s.rewinds + 1
        st := { s.st with txTrans := s.st.txNextAck, txTransCrypto := s.st.txNextAck }
        retransmits := s.retransmits + 1 }
    rw [hr]
    refine ⟨⟨h.window, h.capacity, h.next_lt, h.arrival, h.ack_le, h.ack_le, h.first, ?_⟩, ?_⟩
    · intro x hx hxn
      dsimp only at hx hxn
      exact hno ham x (List.mem_range'_1.mpr (by omega))
    · intro hrun
      obtain ⟨hle, hre⟩ := h.reord hrun
      exact ⟨Nat.le_trans hack hle, hre⟩

theorem Inv.cleared {count : Nat} (hw : t.txWindow = .empty cfg.snSize.windowSize)
    (hst : t.st = ⟨count, count, count, count, count⟩) (hcount : count < 2 ^ 32) : Inv cfg t := by
  have hpos := cfg.snSize.windowSize_pos
  refine ⟨⟨?_, ?_, ?_, ?_, ?_, ?_, ?_, ?_⟩, ?_⟩
  · rw [hw, hst]
    exact (SnWindow.empty ⟨_, rfl⟩ cfg.snSize.windowSize_dvd (by omega) count).widen
      (Nat.le_succ _) (Nat.add_le_add_left hpos count)
  · rw [hw]
    rfl
  · rw [hst]
    exact hcount
  · rw [hw]
    simp
  · rw [hst]
  · rw [hst]
  · rw [hst]
    exact fun hlt => absurd hlt (lt_irrefl _)
  · rw [hst]
    intro x hx hxn
    dsimp only at hx hxn
    omega
  · rw [hst]
    exact fun _ => ⟨le_refl _, le_refl _⟩

theorem Inv.suspend (h : Inv cfg s) : Inv cfg (s.suspend cfg) := by
  unfold PdcpEntityTx.suspend
  split_ifs
  · exact h
  · exact Inv.cleared rfl rfl (by omega)

theorem Inv.configureSecurity (h : Inv cfg s) (secCfg : Sec128AsConfig) (integrity : Bool) :
    Inv cfg (s.configureSecurity secCfg integrity) := by
  unfold PdcpEntityTx.configureSecurity
  split_ifs
  · exact h
  · exact h.of_core (h.toCore.congr ⟨rfl, rfl, rfl, rfl⟩) ⟨rfl, rfl, rfl, rfl⟩

theorem configureSecurity_noHoles {secCfg : Sec128AsConfig} {integrity : Bool} (h : NoHoles s) :
    NoHoles (s.configureSecurity secCfg integrity) := by
  unfold configureSecurity
  split_ifs
  · exact h
  · exact h

theorem initHeaderCompression_frame (s : PdcpEntityTx C) :
    ∃ r, s.initHeaderCompression cfg = { s with rohcComp := r } := by
  unfold initHeaderCompression
  split_ifs
  · exact ⟨_, rfl⟩
  · exact ⟨_, rfl⟩

theorem Inv.reestablish (h : Inv cfg s) (hno : cfg.rlcMode = .am → NoHoles s)
    (secCfg : Sec128AsConfig) : Inv cfg (s.reestablish cfg secCfg) := by
  obtain ⟨r, hr⟩ := @initHeaderCompression_frame C cfg s
  unfold PdcpEntityTx.reestablish
  rw [hr]
  dsimp only
  by_cases hres : resets cfg = true
  · simp only [hres, if_true]
    have hinv : Inv cfg (PdcpEntityTx.reset cfg { s with rohcComp := r }) :=
      Inv.cleared rfl rfl (by omega)
    have hempty : NoHoles (PdcpEntityTx.reset cfg { s with rohcComp := r }) := by
      intro c hc
      exact absurd hc (by simp [PdcpEntityTx.reset])
    split_ifs
    · exact (hinv.configureSecurity secCfg _).retransmitAllPdus
        fun _ => configureSecurity_noHoles hempty
    · exact hinv.configureSecurity secCfg _
  · simp only [hres, Bool.false_eq_true, if_false]
    have hinv : Inv cfg { s with rohcComp := r } :=
      h.of_core (h.toCore.congr ⟨rfl, rfl, rfl, rfl⟩) ⟨rfl, rfl, rfl, rfl⟩
    split_ifs with ham
    · exact (hinv.configureSecurity secCfg _).retransmitAllPdus
        fun _ => configureSecurity_noHoles (hno ham)
    · exact hinv.configureSecurity secCfg _

end PdcpEntityTx

namespace TxSystem

open PdcpEntityTx

variable {C : RohcCompressor} {E : SecurityEngine} {cfg : PdcpTxConfig} {s : TxSystem C}

/-- Nothing is removed from the window that the crypto executor still works on, a stopped
discard timer finds its next COUNT, and a rewind finds no hole. -/
def Guarded (cfg : PdcpTxConfig) (s : TxSystem C) : TxEvent → Prop
  | .statusReport bytes => HandedOver s.entity (reportOf s.entity bytes)
  | .discardTimer => HandedOver s.entity (expiring s.entity)
  | .transmitNotification sn => cfg.rlcMode = .um →
      s.entity.notificationCount cfg sn < s.entity.st.txTransCrypto →
      EdgeKept s.entity (s.entity.notificationCount cfg sn)
  | .deliveryNotification sn | .deliveryRetransmittedNotification sn => cfg.rlcMode = .am →
      sn < cfg.snSize.cardinality → EdgeKept s.entity (s.entity.notificationCount cfg sn)
  | .dataRecovery => cfg.rlcMode = .am ∧ NoHoles s.entity
  | .reestablish _ => cfg.rlcMode = .am → NoHoles s.entity
  | _ => True

instance (s : TxSystem C) (e : TxEvent) : Decidable (Guarded cfg s e) := by
  cases e <;> unfold Guarded <;> infer_instance

theorem applySecurity_frame (s : TxSystem C) (i : Nat) :
    (s.applySecurity E cfg i).entity = { s.entity with
      jobs := (s.applySecurity E cfg i).entity.jobs
      protocolFailures := (s.applySecurity E cfg i).entity.protocolFailures } := by
  unfold applySecurity
  cases s.entity.jobs[i]? with
  | none => rfl
  | some info =>
    dsimp only
    cases s.entity.secConfig with
    | none =>
      dsimp only
      cases cfg.rbType <;> rfl
    | some secCfg =>
      dsimp only
      cases E.protect secCfg s.entity.integrityEnabled info.count info.buf <;> rfl

theorem withEntity_ok {r : Except Fault (PdcpEntityTx C)} {P : PdcpEntityTx C → Prop}
    (h : ∃ t, r = .ok t ∧ P t) : ∃ t, s.withEntity r = .ok t ∧ P t.entity := by
  obtain ⟨t, rfl, ht⟩ := h
  exact ⟨{ s with entity := t }, rfl, ht⟩

theorem Inv.withEntity (h : PdcpEntityTx.Inv cfg s.entity) {r : Except Fault (PdcpEntityTx C)}
    (hr : ∃ t, r = .ok t ∧ Core cfg t ∧ SameReordering s.entity t) :
    ∃ t, s.withEntity r = .ok t ∧ PdcpEntityTx.Inv cfg t.entity := by
  obtain ⟨t, ht, hcore, hsame⟩ := hr
  exact withEntity_ok ⟨t, ht, h.of_core hcore hsame⟩

theorem Inv.step (h : PdcpEntityTx.Inv cfg s.entity) (hdrb : cfg.rbType = .drb)
    (hfin : finiteDiscardTimer cfg = true) (e : TxEvent) (hadm : Guarded cfg s e) :
    ∃ t, s.step E cfg e = .ok t ∧ PdcpEntityTx.Inv cfg t.entity := by
  have hd : cfg.discardTimer.isSome = true := by
    unfold finiteDiscardTimer at hfin
    cases hc : cfg.discardTimer with
    | none => simp [hc] at hfin
    | some d => rfl
  have hkeep : ∀ u : PdcpEntityTx C, SameWindow s.entity u → SameReordering s.entity u →
      PdcpEntityTx.Inv cfg u := fun u hw hr => h.of_core (h.toCore.congr hw) hr
  cases e with
  | sdu buf now => exact ⟨_, rfl, h.handleSdu hdrb hfin buf now⟩
  | applySecurity i =>
    refine ⟨_, rfl, ?_⟩
    rw [applySecurity_frame]
    exact hkeep _ ⟨rfl, rfl, rfl, rfl⟩ ⟨rfl, rfl, rfl, rfl⟩
  | loseJob i => exact ⟨_, rfl, hkeep _ ⟨rfl, rfl, rfl, rfl⟩ ⟨rfl, rfl, rfl, rfl⟩⟩
  | applyReordering i =>
    simp only [TxSystem.step, TxSystem.applyReordering]
    cases s.protectedPdus[i]? with
    | none => exact ⟨s, rfl, h⟩
    | some info =>
      obtain ⟨t, ht, hi⟩ := h.applyReordering hd info
      exact ⟨{ s with entity := t, protectedPdus := s.protectedPdus.eraseIdx i },
        by simp only [ht, ok_bind, pure_eq_ok], hi⟩
  | losePdu i => exact ⟨_, rfl, h⟩
  | transmitNotification sn => exact Inv.withEntity h (h.toCore.transmitNotification hadm)
  | retransmitNotification sn =>
    refine Inv.withEntity h ?_
    unfold ofRetransmitted
    split_ifs with hum
    · exact ⟨s.entity, rfl, h.toCore, SameReordering.refl _⟩
    · exact h.toCore.transmitNotification fun hm => absurd (.inr hm) hum
  | deliveryNotification sn => exact Inv.withEntity h (h.toCore.deliveryNotification hadm)
  | deliveryRetransmittedNotification sn =>
    refine Inv.withEntity h ?_
    unfold ofRetransmitted
    split_ifs with hum
    · exact ⟨s.entity, rfl, h.toCore, SameReordering.refl _⟩
    · exact h.toCore.deliveryNotification hadm
  | desiredBufferSize n => exact ⟨_, rfl, hkeep _ ⟨rfl, rfl, rfl, rfl⟩ ⟨rfl, rfl, rfl, rfl⟩⟩
  | statusReport bytes => exact ⟨_, rfl, h.handleStatusReport hadm⟩
  | rohcFeedback bytes =>
    refine ⟨_, rfl, ?_⟩
    unfold consumeRohcFeedback
    split
    · exact h
    · dsimp only
      split_ifs
      · exact h
      · exact hkeep _ ⟨rfl, rfl, rfl, rfl⟩ ⟨rfl, rfl, rfl, rfl⟩
  | discardTimer =>
    simp only [TxSystem.step, TxSystem.discardTimer]
    split_ifs with hrun
    · have hoff : PdcpEntityTx.Inv cfg { s.entity with discardTimer := false } :=
        hkeep _ ⟨rfl, rfl, rfl, rfl⟩ ⟨rfl, rfl, rfl, rfl⟩
      obtain ⟨t, ht, hcore, hsame⟩ := hoff.toCore.discardCallback hd hadm
      exact ⟨{ s with entity := t }, by simp only [ht, ok_bind, pure_eq_ok],
        hoff.of_core hcore hsame⟩
    · exact ⟨s, rfl, h⟩
  | cryptoReorderingTimer =>
    simp only [TxSystem.step, TxSystem.cryptoReorderingTimer]
    split_ifs with hrun
    · obtain ⟨t, ht, hi⟩ := h.cryptoReorderingTimeout hd hrun
      exact ⟨{ s with entity := t }, by simp only [ht, ok_bind, pure_eq_ok], hi⟩
    · exact ⟨s, rfl, h⟩
  | dataRecovery =>
    refine withEntity_ok ⟨_, ?_, h.retransmitAllPdus fun _ => hadm.2⟩
    unfold PdcpEntityTx.dataRecovery
    rw [if_neg]
    rintro (hsrb | hmode)
    · rw [hdrb] at hsrb
      cases hsrb
    · exact hmode hadm.1
  | configureSecurity secCfg integrity => exact ⟨_, rfl, h.configureSecurity secCfg integrity⟩
  | reestablish secCfg => exact ⟨_, rfl, h.reestablish hadm secCfg⟩
  | beginBuffering => exact ⟨_, rfl, hkeep _ ⟨rfl, rfl, rfl, rfl⟩ ⟨rfl, rfl, rfl, rfl⟩⟩
  | endBuffering now => exact ⟨_, rfl, h.endBuffering hdrb hfin now⟩
  | suspend => exact ⟨_, rfl, h.suspend⟩
  | resume =>
    refine ⟨_, rfl, ?_⟩
    unfold PdcpEntityTx.resume
    split_ifs
    · exact h
    · exact hkeep _ ⟨rfl, rfl, rfl, rfl⟩ ⟨rfl, rfl, rfl, rfl⟩

/-- In a guarded run of a DRB with a finite discard timer every access to the window finds its
COUNT, and the lower edge is the COUNT of a stored SDU. -/
theorem tx_window_safe (E : SecurityEngine) (cfg : PdcpTxConfig) (hdrb : cfg.rbType = .drb)
    (hfin : finiteDiscardTimer cfg = true) (count : Nat) (hcount : count < 2 ^ 32)
    (es : List TxEvent)
    (hadm : Machine.Admits (TxSystem.step E cfg) (Guarded cfg) (new C cfg count) es) :
    ∃ s, Machine.run (TxSystem.step E cfg) (new C cfg count) es = .ok s ∧
      (s.entity.st.txNextAck < s.entity.st.txNext →
        s.entity.txWindow.contains s.entity.st.txNextAck = true) := by
  obtain ⟨s, hs, hi⟩ := Machine.run_total (fun s : TxSystem C => PdcpEntityTx.Inv cfg s.entity)
    (fun _ e hs he => Inv.step hs hdrb hfin e he)
    (PdcpEntityTx.Inv.cleared (t := (new C cfg count).entity) rfl rfl hcount) hadm
  exact ⟨s, hs, hi.first⟩

def setUp : List TxEvent := [.configureSecurity ⟨1, false⟩ false, .desiredBufferSize 1000]

theorem tx_window_safe_swapped :
    ∃ s, Machine.run (TxSystem.step nullEngine drbTxConfig) (new noCompressor drbTxConfig 0)
      (setUp ++ [.sdu [1] 0, .sdu [2] 5, .applySecurity 1, .applyReordering 0, .applySecurity 0,
        .applyReordering 0, .discardTimer, .deliveryNotification 1]) = .ok s ∧
      (s.entity.st.txNextAck < s.entity.st.txNext →
        s.entity.txWindow.contains s.entity.st.txNextAck = true) :=
  tx_window_safe nullEngine drbTxConfig rfl rfl 0 (by decide) _ (by decide +kernel)

/-- The discard timer removes the first of two PDUs while both are in the crypto executor;
when the second one is done, reordering looks for the first. -/
theorem discarded_in_crypto_executor :
    (match Machine.run (TxSystem.step nullEngine drbTxConfig) (new noCompressor drbTxConfig 0)
      (setUp ++ [.sdu [1] 0, .sdu [2] 5, .applySecurity 1, .discardTimer, .applyReordering 0]) with
    | .ok _ => none
    | .error f => some f) = some .absentSn := by
  decide +kernel

end TxSystem

end Ocudu.Pdcp
