import Ocudu.Pdcp.TxSafety

/-! What the operations of the transmitter leave as it was, whatever state they start from. -/

namespace Ocudu.Pdcp

open CircularMap

namespace PdcpEntityTx

variable {C : RohcCompressor} {cfg : PdcpTxConfig} {s t : PdcpEntityTx C} {c : Nat}

/-- `t` may have lost SDUs and jobs of `s`, but nothing was handed over or given a COUNT. -/
structure Quiet (s t : PdcpEntityTx C) : Prop where
  next : t.st.txNext = s.st.txNext
  trans : t.st.txTransCrypto = s.st.txTransCrypto
  reord : t.st.txReordCrypto = s.st.txReordCrypto
  timer : t.cryptoReorderingTimer = true → s.cryptoReorderingTimer = true
  retransmits : t.retransmits = s.retransmits
  rewinds : t.rewinds = s.rewinds
  handed : t.handed = s.handed
  jobs : ∀ j ∈ t.jobs, j ∈ s.jobs
  compressor : t.rohcComp.isSome = s.rohcComp.isSome
  stored : ∀ c elem, t.txWindow.lookup c = some elem → s.txWindow.lookup c = some elem
  ack : s.st.txNextAck ≤ t.st.txNextAck
  edge : LowEdge s → s.st.txNextAck ≤ s.st.txNext → LowEdge t ∧ t.st.txNextAck ≤ t.st.txNext

theorem Quiet.refl (s : PdcpEntityTx C) : Quiet s s where
  next := rfl
  trans := rfl
  reord := rfl
  timer := id
  retransmits := rfl
  rewinds := rfl
  handed := rfl
  jobs := fun _ h => h
  compressor := rfl
  stored := fun _ _ h => h
  ack := le_refl _
  edge := fun h h' => ⟨h, h'⟩

theorem Quiet.comp {u : PdcpEntityTx C} (h : Quiet s t) (h' : Quiet t u) : Quiet s u where
  next := h'.next.trans h.next
  trans := h'.trans.trans h.trans
  reord := h'.reord.trans h.reord
  timer := fun ht => h.timer (h'.timer ht)
  retransmits := h'.retransmits.trans h.retransmits
  rewinds := h'.rewinds.trans h.rewinds
  handed := h'.handed.trans h.handed
  jobs := fun j hj => h.jobs j (h'.jobs j hj)
  compressor := h'.compressor.trans h.compressor
  stored := fun c elem hc => h.stored c elem (h'.stored c elem hc)
  ack := h.ack.trans h'.ack
  edge := fun hl ha => (h.edge hl ha).elim h'.edge

theorem Quiet.set (s : PdcpEntityTx C) (trans : Nat) (discard buffering suspended : Bool)
    (dbs failures : Nat) (buf : List (List UInt8)) (sec : Option Sec128AsConfig) (integrity : Bool) :
    Quiet s { s with
      st := { s.st with txTrans := trans }
      discardTimer := discard
      buffering
      suspended
      desiredBufferSize := dbs
      protocolFailures := failures
      sduBuffer := buf
      secConfig := sec
      integrityEnabled := integrity } where
  next := rfl
  trans := rfl
  reord := rfl
  timer := id
  retransmits := rfl
  rewinds := rfl
  handed := rfl
  jobs := fun _ h => h
  compressor := rfl
  stored := fun _ _ h => h
  ack := le_refl _
  edge := fun h h' => ⟨h, h'⟩

theorem quiet_discardPdu (s : PdcpEntityTx C) (c : Nat) : Quiet s (s.discardPdu cfg c) := by
  by_cases hd : Discardable cfg s c
  · have hlow := fun h : LowEdge s => @discardPdu_lowEdge C cfg s h c
    obtain ⟨sb, ns, ds, b, he, hfirst⟩ := discardPdu_of hd
    rw [he] at hlow ⊢
    constructor
    case stored =>
      intro x elem hx
      rw [lookup_erase] at hx
      split at hx
      · cases hx
      · exact hx
    case ack => exact hfirst.le
    case edge => exact fun hl _ => ⟨hlow hl, hfirst.le_top⟩
    case timer => exact id
    case jobs => exact fun _ h => h
    all_goals rfl
  · rw [discardPdu_of_not hd]
    exact Quiet.refl s

theorem quiet_foldl_discardPdu (cs : List Nat) (s : PdcpEntityTx C) :
    Quiet s (cs.foldl (discardPdu cfg) s) := by
  induction cs generalizing s with
  | nil => exact Quiet.refl s
  | cons c cs ih => exact (quiet_discardPdu s c).comp (ih _)

theorem quiet_handleStatusReport (s : PdcpEntityTx C) (bytes : List UInt8) :
    Quiet s (s.handleStatusReport cfg bytes) := by
  cases hr : readStatusReport s.st.txNext bytes with
  | ignored =>
    unfold handleStatusReport
    rw [hr]
    exact Quiet.refl s
  | failed n =>
    unfold handleStatusReport
    rw [hr]
    exact Quiet.set s _ _ _ _ _ _ _ _ _
  | accepted fmc bitmap =>
    rw [handleStatusReport_of_accepted hr]
    exact quiet_foldl_discardPdu _ s

theorem quiet_restartDiscardTimer (h : s.restartDiscardTimer cfg = .ok t) : Quiet s t := by
  unfold restartDiscardTimer at h
  split_ifs at h with h1 h2
  · cases h
    exact Quiet.refl s
  · cases ha : s.arrivalOf s.st.txNextAck with
    | error f => simp only [ha, error_bind, reduceCtorEq] at h
    | ok now =>
      simp only [ha, ok_bind, pure_eq_ok, Except.ok.injEq] at h
      rw [← h]
      exact Quiet.set s _ _ _ _ _ _ _ _ _
  · cases h
    exact Quiet.refl s

theorem quiet_stopDiscardTimer {n : Nat} (h : s.stopDiscardTimer cfg n = .ok t) : Quiet s t := by
  unfold stopDiscardTimer at h
  split_ifs at h with h1 h2 h3
  · cases h
    exact Quiet.refl s
  · cases h
    exact Quiet.refl s
  · obtain ⟨w, sb, ns, he, hl, -, -⟩ := removeUpTo_eq (n + 1 - s.st.txNextAck)
      { s with discardTimer := false }
    have hsum : s.st.txNextAck + (n + 1 - s.st.txNextAck) = n + 1 := by omega
    dsimp only at h he hl
    rw [hsum] at he hl
    refine Quiet.comp ?_ (quiet_restartDiscardTimer h)
    rw [he]
    constructor
    case stored =>
      intro x elem hx
      simp only [raiseTrans] at hx
      rw [hl] at hx
      split at hx
      · cases hx
      · exact hx
    case ack =>
      dsimp only [raiseTrans]
      omega
    case edge =>
      intro hlow _
      refine ⟨?_, by dsimp only [raiseTrans]; omega⟩
      intro x hx
      obtain ⟨elem, hx⟩ := lookup_of_contains hx
      simp only [raiseTrans] at hx ⊢
      rw [hl] at hx
      split at hx
      · cases hx
      · have := hlow x (contains_of_lookup hx)
        omega
    case timer => exact id
    case jobs => exact fun _ h => h
    all_goals rfl
  · cases h
    exact Quiet.refl s

theorem quiet_transmitNotification {sn : Nat} (h : s.transmitNotification cfg sn = .ok t) :
    Quiet s t := by
  unfold transmitNotification at h
  dsimp only at h
  split_ifs at h with h1 h2 h3 h4 h5
  · cases h
    exact Quiet.refl s
  · cases h
    exact Quiet.refl s
  · cases h
    exact Quiet.refl s
  · cases h
    exact Quiet.refl s
  · exact (Quiet.set s _ _ _ _ _ _ _ _ _).comp (quiet_stopDiscardTimer h)
  · cases h
    exact Quiet.set s _ _ _ _ _ _ _ _ _

theorem quiet_deliveryNotification {sn : Nat} (h : s.deliveryNotification cfg sn = .ok t) :
    Quiet s t := by
  unfold deliveryNotification at h
  dsimp only at h
  split_ifs at h with h1 h2 h3
  · cases h
    exact Quiet.refl s
  · cases h
    exact Quiet.refl s
  · exact quiet_stopDiscardTimer h
  · cases h
    exact Quiet.refl s

theorem quiet_ofRetransmitted {f : PdcpEntityTx C → Nat → Except Fault (PdcpEntityTx C)}
    (hf : ∀ sn t, f s sn = .ok t → Quiet s t) {sn : Nat} (h : ofRetransmitted cfg f s sn = .ok t) :
    Quiet s t := by
  unfold ofRetransmitted at h
  split_ifs at h
  · cases h
    exact Quiet.refl s
  · exact hf sn t h

theorem quiet_discardLoop {oldest : Nat} (fuel : Nat) (h : discardLoop cfg oldest fuel s = .ok t) :
    Quiet s t := by
  induction fuel generalizing s with
  | zero => cases h
  | succ fuel ih =>
    have hq := @quiet_discardPdu C cfg s s.st.txNextAck
    unfold discardLoop at h
    dsimp only at h
    generalize s.discardPdu cfg s.st.txNextAck = u at h hq
    by_cases h1 : u.txWindow.contains u.st.txNextAck = true
    · rw [if_neg (not_not.mpr h1)] at h
      cases ha : u.arrivalOf u.st.txNextAck with
      | error f => simp only [ha, error_bind, reduceCtorEq] at h
      | ok now =>
        simp only [ha, ok_bind, pure_eq_ok] at h
        split_ifs at h with h2 h3
        · cases h
          exact hq.comp (Quiet.set u _ _ _ _ _ _ _ _ _)
        · cases h
          exact hq
        · exact hq.comp (ih h)
    · rw [if_pos h1] at h
      cases h
      exact hq

theorem quiet_discardCallback (h : s.discardCallback cfg = .ok t) : Quiet s t := by
  unfold discardCallback at h
  split_ifs at h with h1
  · cases ha : s.arrivalOf s.st.txNextAck with
    | error f => simp only [ha, error_bind, reduceCtorEq] at h
    | ok now =>
      simp only [ha, ok_bind] at h
      exact quiet_discardLoop _ h
  · cases h
    exact Quiet.refl s

theorem quiet_notifyInTestMode (h : s.notifyInTestMode cfg c = .ok t) : Quiet s t := by
  unfold notifyInTestMode at h
  split_ifs at h
  · exact quiet_transmitNotification h
  · cases h
    exact Quiet.refl s

theorem quiet_consumeRohcFeedback (s : PdcpEntityTx C) (bytes : List UInt8) :
    Quiet s (s.consumeRohcFeedback bytes) := by
  unfold consumeRohcFeedback
  cases hc : s.rohcComp with
  | none => exact Quiet.refl s
  | some comp =>
    dsimp only
    split_ifs
    · exact Quiet.refl s
    · constructor
      case timer => exact id
      case jobs => exact fun _ h => h
      case compressor => rw [hc]; rfl
      case stored => exact fun _ _ h => h
      case ack => exact le_refl _
      case edge => exact fun h h' => ⟨h, h'⟩
      all_goals rfl

theorem quiet_configureSecurity (s : PdcpEntityTx C) (secCfg : Sec128AsConfig) (integrity : Bool) :
    Quiet s (s.configureSecurity secCfg integrity) := by
  unfold configureSecurity
  split_ifs
  · exact Quiet.refl s
  · exact Quiet.set s _ _ _ _ _ _ _ _ _

theorem Quiet.dropJobs (s : PdcpEntityTx C) {jobs : List PdcpTxBufferInfo}
    (h : ∀ j ∈ jobs, j ∈ s.jobs) (failures : Nat) :
    Quiet s { s with jobs, protocolFailures := failures } := by
  constructor
  case timer => exact id
  case jobs => exact h
  case stored => exact fun _ _ h => h
  case ack => exact le_refl _
  case edge => exact fun h h' => ⟨h, h'⟩
  all_goals rfl

def TakesCount (cfg : PdcpTxConfig) (s : PdcpEntityTx C) (buf : List UInt8) : Prop :=
  s.buffering = false ∧ ¬(cfg.rbType ≠ .srb ∧ s.checkEarlyDrop cfg buf ≠ .noDrop) ∧
    s.st.txNext < cfg.maxCountHard

instance (s : PdcpEntityTx C) (buf : List UInt8) : Decidable (TakesCount cfg s buf) := by
  unfold TakesCount
  infer_instance

theorem handleSdu_of_takesCount {buf : List UInt8} (h : TakesCount cfg s buf) (now : Nat) :
    s.handleSdu cfg buf now = s.transmitSdu cfg buf now := by
  unfold handleSdu
  rw [if_neg (by simp [h.1]), if_neg h.2.1, if_neg (by have := h.2.2; omega)]

theorem quiet_handleSdu {buf : List UInt8} (h : ¬TakesCount cfg s buf) (now : Nat) :
    Quiet s (s.handleSdu cfg buf now) := by
  unfold handleSdu
  split_ifs with h1 h2 h3 h4
  · exact Quiet.set s _ _ _ _ _ _ _ _ _
  · exact Quiet.refl s
  · exact Quiet.refl s
  · unfold reachMaxCount
    split_ifs
    · exact Quiet.refl s
    · constructor
      case timer => exact id
      case jobs => exact fun _ h => h
      case stored => exact fun _ _ h => h
      case ack => exact le_refl _
      case edge => exact fun h h' => ⟨h, h'⟩
      all_goals rfl
  · exact absurd ⟨by simpa using h1, h3, by omega⟩ h

/-- `t` stores the SDU `elem` under the `TX_NEXT` of `s`, and has a job for it unless its
compression failed. -/
structure Accepts (cfg : PdcpTxConfig) (s t : PdcpEntityTx C) (elem : PdcpTxWindowElement)
    (buf : List UInt8) : Prop where
  timer : t.cryptoReorderingTimer = s.cryptoReorderingTimer
  retransmits : t.retransmits = s.retransmits
  rewinds : t.rewinds = s.rewinds
  handed : t.handed = s.handed
  compressor : t.rohcComp.isSome = s.rohcComp.isSome
  stored : ∀ c e, t.txWindow.lookup c = some e →
    (c = s.st.txNext ∧ e = elem) ∨ (c ≠ s.st.txNext ∧ s.txWindow.lookup c = some e)
  job : (t.st = s.st ∧ t.jobs = s.jobs) ∨
    (t.st = { s.st with txNext := s.st.txNext + 1 } ∧ s.st.txNext + 1 < 2 ^ 32 ∧
      ∃ b, (s.rohcComp = none → b = buf) ∧ t.jobs = s.jobs ++
        [⟨false, s.retransmits, s.st.txNext, dataPdu cfg (cfg.snSize.snOf s.st.txNext) b⟩])

theorem applyHeaderCompression_spec (s : PdcpEntityTx C) (buf : List UInt8) :
    (s.applyHeaderCompression buf).2.rohcComp.isSome = s.rohcComp.isSome ∧
      (s.rohcComp = none → s.applyHeaderCompression buf = (some buf, s)) := by
  unfold applyHeaderCompression
  cases hc : s.rohcComp with
  | none =>
    dsimp only
    exact ⟨by rw [hc], fun _ => rfl⟩
  | some comp =>
    dsimp only
    refine ⟨?_, fun h => nomatch h⟩
    split_ifs
    · rfl
    · rfl

theorem transmitSdu_accepts {buf : List UInt8} (h : TakesCount cfg s buf) (now : Nat) :
    Accepts cfg s (s.transmitSdu cfg buf now) (s.newElement cfg buf now) buf := by
  have hmax := cfg.maxCountHard_lt
  have hlt := h.2.2
  have hmod : (s.st.txNext + 1) % 2 ^ 32 = s.st.txNext + 1 := Nat.mod_eq_of_lt (by omega)
  have hstored : ∀ c e, (s.txWindow.overwrite s.st.txNext (s.newElement cfg buf now)).lookup c = some e →
      (c = s.st.txNext ∧ e = s.newElement cfg buf now) ∨
        (c ≠ s.st.txNext ∧ s.txWindow.lookup c = some e) :=
    fun c e he => lookup_overwrite_cases he
  have hadd : { s.addSdu (s.newElement cfg buf now) with
      discardTimer := s.discardTimer || finiteDiscardTimer cfg }.rohcComp = s.rohcComp := rfl
  obtain ⟨hcomp, hnone⟩ := applyHeaderCompression_spec { s.addSdu (s.newElement cfg buf now) with
    discardTimer := s.discardTimer || finiteDiscardTimer cfg } buf
  obtain ⟨r, n, hr⟩ := applyHeaderCompression_frame { s.addSdu (s.newElement cfg buf now) with
    discardTimer := s.discardTimer || finiteDiscardTimer cfg } buf
  rw [hadd] at hcomp hnone
  unfold transmitSdu
  dsimp only
  split
  · rename_i u heq
    rw [heq] at hr hcomp
    dsimp only at hr hcomp
    rw [hr] at hcomp ⊢
    exact ⟨rfl, rfl, rfl, rfl, hcomp, hstored, .inl ⟨rfl, rfl⟩⟩
  · rename_i b u heq
    rw [heq] at hr hcomp hnone
    dsimp only at hr hcomp
    rw [hr] at hcomp ⊢
    refine ⟨rfl, rfl, rfl, rfl, hcomp, hstored, .inr ⟨?_, by omega, b, ?_, rfl⟩⟩
    · simp only [addSdu, hmod]
    · intro hc
      have hb := congrArg Prod.fst (hnone hc)
      exact Option.some.inj hb

/-! The loops that hand PDUs over -/

def parked (s : PdcpEntityTx C) (c : Nat) : Prop :=
  ∃ elem, s.txWindow.lookup c = some elem ∧ elem.pdu ≠ []

theorem flushLoop_rule {P : PdcpEntityTx C → Prop} {isRetx : Bool}
    (hand : ∀ s elem u, P s → s.st.txNext < 2 ^ 32 → s.st.txTransCrypto < s.st.txNext →
      s.txWindow.lookup s.st.txTransCrypto = some elem → elem.pdu ≠ [] →
      Quiet (s.handOver s.st.txTransCrypto elem isRetx) u → P u)
    (n : Nat) (hs : P s) (hlt : s.st.txNext < 2 ^ 32) (hn : s.st.txTransCrypto + n ≤ s.st.txNext)
    (h : flushLoop cfg isRetx n s = .ok t) : P t := by
  induction n generalizing s with
  | zero =>
    cases h
    exact hs
  | succ n ih =>
    unfold flushLoop SduWindow.get at h
    cases hl : s.txWindow.lookup s.st.txTransCrypto with
    | none => simp only [hl, error_bind, reduceCtorEq] at h
    | some elem =>
      simp only [hl, ok_bind] at h
      split_ifs at h with hpdu
      · cases h
        exact hs
      · cases hnt : (s.handOver s.st.txTransCrypto elem isRetx).notifyInTestMode cfg
          s.st.txTransCrypto with
        | error f => simp only [hnt, error_bind, reduceCtorEq] at h
        | ok u =>
          simp only [hnt, ok_bind] at h
          have hq := quiet_notifyInTestMode hnt
          have hu := hand s elem u hs hlt (by omega) hl hpdu hq
          have hnext := hq.next
          have htrans := hq.trans
          simp only [handOver] at hnext htrans
          rw [Nat.mod_eq_of_lt (by omega)] at htrans
          exact ih hu (by omega) (by omega) h

theorem flushInOrder_rule {P : PdcpEntityTx C → Prop} {isRetx : Bool}
    (hand : ∀ s elem u, P s → s.st.txNext < 2 ^ 32 → s.st.txTransCrypto < s.st.txNext →
      s.txWindow.lookup s.st.txTransCrypto = some elem → elem.pdu ≠ [] →
      Quiet (s.handOver s.st.txTransCrypto elem isRetx) u → P u)
    (hs : P s) (hlt : s.st.txNext < 2 ^ 32) (h : s.flushInOrder cfg isRetx = .ok t) : P t := by
  unfold flushInOrder at h
  by_cases htrans : s.st.txTransCrypto ≤ s.st.txNext
  · exact flushLoop_rule hand _ hs hlt (by omega) h
  · rw [Nat.sub_eq_zero_of_le (by omega)] at h
    cases h
    exact hs

def skipCount (s : PdcpEntityTx C) : PdcpEntityTx C :=
  { s with st := { s.st with txTransCrypto := (s.st.txTransCrypto + 1) % 2 ^ 32 } }

theorem passReordering_cases (s : PdcpEntityTx C) :
    (∃ elem, s.txWindow.lookup s.st.txTransCrypto = some elem ∧ elem.pdu ≠ [] ∧
      s.passReordering = s.handOver s.st.txTransCrypto elem false) ∨
    s.passReordering = s.skipCount := by
  unfold passReordering
  dsimp only
  cases hl : s.txWindow.lookup s.st.txTransCrypto with
  | none => exact .inr rfl
  | some elem =>
    dsimp only
    split_ifs with hpdu
    · exact .inr rfl
    · exact .inl ⟨elem, rfl, hpdu, rfl⟩

theorem passReordering_frame (s : PdcpEntityTx C) :
    s.passReordering.st = s.skipCount.st ∧
      s.passReordering.cryptoReorderingTimer = s.cryptoReorderingTimer ∧
      ∀ c, s.passReordering.txWindow.contains c = s.txWindow.contains c := by
  rcases s.passReordering_cases with ⟨elem, -, -, h⟩ | h
  · rw [h]
    exact ⟨rfl, rfl, fun c => contains_modify _ _ _ _⟩
  · rw [h]
    exact ⟨rfl, rfl, fun c => rfl⟩

theorem iterate_passReordering_frame (n : Nat) (s : PdcpEntityTx C) (hs : s.st.txTransCrypto < 2 ^ 32) :
    (passReordering^[n] s).st = { s.st with txTransCrypto := (s.st.txTransCrypto + n) % 2 ^ 32 } ∧
      (passReordering^[n] s).cryptoReorderingTimer = s.cryptoReorderingTimer ∧
      ∀ c, (passReordering^[n] s).txWindow.contains c = s.txWindow.contains c := by
  induction n generalizing s with
  | zero =>
    refine ⟨?_, rfl, fun _ => rfl⟩
    rw [Nat.add_zero, Nat.mod_eq_of_lt hs]
    rfl
  | succ n ih =>
    obtain ⟨hst, htimer, hcont⟩ := s.passReordering_frame
    obtain ⟨ihst, ihtimer, ihcont⟩ := ih s.passReordering (by
      rw [hst]
      exact Nat.mod_lt _ (by decide))
    rw [Function.iterate_succ_apply]
    refine ⟨?_, ihtimer.trans htimer, fun c => (ihcont c).trans (hcont c)⟩
    rw [ihst, hst]
    simp only [skipCount, PdcpTxState.mk.injEq, true_and, and_true]
    omega

/-- `apply_reordering` does not drop the PDU. -/
def Accepted (s : PdcpEntityTx C) (info : PdcpTxBufferInfo) : Prop :=
  info.retransmits % 2 ^ 16 = s.retransmits % 2 ^ 16 ∧ s.st.txNextAck ≤ info.count ∧
    s.st.txTrans ≤ info.count ∧ s.txWindow.contains info.count = true

instance (s : PdcpEntityTx C) (info : PdcpTxBufferInfo) : Decidable (Accepted s info) := by
  unfold Accepted
  infer_instance

theorem applyReordering_cases {info : PdcpTxBufferInfo} (h : s.applyReordering cfg info = .ok t) :
    t = s ∨ Accepted s info ∧ ∃ u, (s.parkPdu info).flushInOrder cfg info.isRetx = .ok u ∧
      t = u.handleCryptoTimers := by
  unfold applyReordering at h
  split_ifs at h with h1 h2 h3 h4
  · cases h
    exact .inl rfl
  · cases h
    exact .inl rfl
  · cases h
    exact .inl rfl
  · cases hf : (s.parkPdu info).flushInOrder cfg info.isRetx with
    | error f => simp only [hf, error_bind, reduceCtorEq] at h
    | ok u =>
      simp only [hf, ok_bind, pure_eq_ok, Except.ok.injEq] at h
      exact .inr ⟨⟨not_not.mp h1, by omega, by omega, h4⟩, u, rfl, h.symm⟩
  · cases h
    exact .inl rfl

theorem cryptoReorderingTimeout_cases (h : s.cryptoReorderingTimeout cfg = .ok t) :
    ∃ u, s.passUpToReord.flushInOrder cfg false = .ok u ∧ t = u.startCryptoReordering := by
  unfold cryptoReorderingTimeout at h
  cases hf : s.passUpToReord.flushInOrder cfg false with
  | error f => simp only [hf, error_bind, reduceCtorEq] at h
  | ok u =>
    simp only [hf, ok_bind, pure_eq_ok, Except.ok.injEq] at h
    exact ⟨u, rfl, h.symm⟩

def setTimer (s : PdcpEntityTx C) (reord : Nat) (timer : Bool) : PdcpEntityTx C :=
  { s with st := { s.st with txReordCrypto := reord }, cryptoReorderingTimer := timer }

theorem startCryptoReordering_eq (s : PdcpEntityTx C) :
    ∃ r b, s.startCryptoReordering = s.setTimer r b := by
  unfold startCryptoReordering
  split_ifs
  · exact ⟨_, _, rfl⟩
  · exact ⟨s.st.txReordCrypto, s.cryptoReorderingTimer, rfl⟩

theorem handleCryptoTimers_eq (s : PdcpEntityTx C) :
    ∃ r b, s.handleCryptoTimers = s.setTimer r b := by
  have hstop : ∃ b, s.stopCryptoReordering = s.setTimer s.st.txReordCrypto b := by
    unfold stopCryptoReordering
    split_ifs
    · exact ⟨false, rfl⟩
    · exact ⟨s.cryptoReorderingTimer, rfl⟩
  obtain ⟨b, hb⟩ := hstop
  obtain ⟨r, b', hr⟩ := (s.setTimer s.st.txReordCrypto b).startCryptoReordering_eq
  unfold handleCryptoTimers
  rw [hb]
  dsimp only
  rw [hr]
  split_ifs
  · exact ⟨s.st.txReordCrypto, b, rfl⟩
  · exact ⟨r, b', rfl⟩

theorem lookup_parkPdu {info : PdcpTxBufferInfo} {elem : PdcpTxWindowElement}
    (h : (s.parkPdu info).txWindow.lookup c = some elem) :
    ∃ e, s.txWindow.lookup c = some e ∧ (elem = e ∨
      c = info.count ∧ elem = { e with pdu := info.buf, job := info, parkedAt := s.rewinds }) := by
  simp only [parkPdu] at h
  rw [lookup_modify] at h
  split at h
  · rename_i hc
    cases hl : s.txWindow.lookup info.count with
    | none => simp [hl] at h
    | some e =>
      rw [hl] at h
      cases h
      exact ⟨e, by rw [hc, hl], .inr ⟨hc, rfl⟩⟩
  · exact ⟨elem, h, .inl rfl⟩

theorem lookup_handOver {a : Nat} {e elem : PdcpTxWindowElement} {isRetx : Bool}
    (h : (s.handOver a e isRetx).txWindow.lookup c = some elem) :
    ∃ e', s.txWindow.lookup c = some e' ∧ (elem = e' ∨ elem = { e' with pdu := [] }) := by
  simp only [handOver] at h
  rw [lookup_modify] at h
  split at h
  · rename_i hc
    cases hl : s.txWindow.lookup a with
    | none => simp [hl] at h
    | some e' =>
      rw [hl] at h
      cases h
      exact ⟨e', by rw [hc, hl], .inr rfl⟩
  · exact ⟨elem, h, .inl rfl⟩

end PdcpEntityTx

namespace TxSystem

open PdcpEntityTx

variable {C : RohcCompressor} {E : SecurityEngine} {cfg : PdcpTxConfig} {s t : TxSystem C}

/-- The events that neither hand PDUs over nor give COUNTs to SDUs nor rewind. -/
def isQuiet : TxEvent → Bool
  | .sdu _ _ | .applyReordering _ | .cryptoReorderingTimer | .dataRecovery | .reestablish _
  | .endBuffering _ | .suspend => false
  | _ => true

theorem quiet_withEntity {r : Except Fault (PdcpEntityTx C)} (h : s.withEntity r = .ok t)
    (hr : ∀ u, r = .ok u → Quiet s.entity u) : Quiet s.entity t.entity := by
  cases r with
  | error f => cases h
  | ok u =>
    cases h
    exact hr u rfl

theorem quiet_applySecurity (s : TxSystem C) (i : Nat) :
    Quiet s.entity (s.applySecurity E cfg i).entity := by
  have hjobs : ∀ j ∈ (s.applySecurity E cfg i).entity.jobs, j ∈ s.entity.jobs := by
    unfold applySecurity
    cases s.entity.jobs[i]? with
    | none => exact fun j hj => hj
    | some info =>
      dsimp only
      have hsub : ∀ j ∈ s.entity.jobs.eraseIdx i, j ∈ s.entity.jobs :=
        fun j hj => List.mem_of_mem_eraseIdx hj
      cases s.entity.secConfig with
      | none =>
        dsimp only
        cases cfg.rbType <;> exact hsub
      | some secCfg =>
        dsimp only
        cases E.protect secCfg s.entity.integrityEnabled info.count info.buf <;> exact hsub
  rw [applySecurity_frame]
  exact Quiet.dropJobs s.entity hjobs _

theorem quiet_of_step {e : TxEvent} (he : isQuiet e = true) (h : s.step E cfg e = .ok t) :
    Quiet s.entity t.entity := by
  cases e with
  | sdu | applyReordering | cryptoReorderingTimer | dataRecovery | reestablish | endBuffering
  | suspend => cases he
  | applySecurity i =>
    cases h
    exact quiet_applySecurity s i
  | loseJob i =>
    cases h
    exact Quiet.dropJobs s.entity (fun j hj => List.mem_of_mem_eraseIdx hj) _
  | losePdu i =>
    cases h
    exact Quiet.refl _
  | transmitNotification sn => exact quiet_withEntity h fun _ => quiet_transmitNotification
  | retransmitNotification sn =>
    exact quiet_withEntity h fun _ => quiet_ofRetransmitted fun _ _ => quiet_transmitNotification
  | deliveryNotification sn => exact quiet_withEntity h fun _ => quiet_deliveryNotification
  | deliveryRetransmittedNotification sn =>
    exact quiet_withEntity h fun _ => quiet_ofRetransmitted fun _ _ => quiet_deliveryNotification
  | desiredBufferSize n =>
    cases h
    exact Quiet.set s.entity _ _ _ _ _ _ _ _ _
  | statusReport bytes =>
    cases h
    exact quiet_handleStatusReport _ _
  | rohcFeedback bytes =>
    cases h
    exact quiet_consumeRohcFeedback _ _
  | discardTimer =>
    simp only [step, TxSystem.discardTimer] at h
    split_ifs at h
    · have hoff : Quiet s.entity { s.entity with discardTimer := false } :=
        Quiet.set s.entity _ _ _ _ _ _ _ _ _
      cases hc : { s.entity with discardTimer := false }.discardCallback cfg with
      | error f => simp only [hc, error_bind, reduceCtorEq] at h
      | ok u =>
        simp only [hc, ok_bind, pure_eq_ok, Except.ok.injEq] at h
        rw [← h]
        exact hoff.comp (quiet_discardCallback hc)
    · cases h
      exact Quiet.refl _
  | configureSecurity secCfg integrity =>
    cases h
    exact quiet_configureSecurity _ _ _
  | beginBuffering =>
    cases h
    exact Quiet.set s.entity _ _ _ _ _ _ _ _ _
  | resume =>
    cases h
    dsimp only
    unfold PdcpEntityTx.resume
    split_ifs
    · exact Quiet.refl _
    · exact Quiet.set s.entity _ _ _ _ _ _ _ _ _

theorem applyReordering_step {i : Nat} (h : s.step E cfg (.applyReordering i) = .ok t) :
    (t.encryptions = s.encryptions ∧ t.period = s.period) ∧
      (t.entity = s.entity ∨
        ∃ info ∈ s.protectedPdus[i]?, s.entity.applyReordering cfg info = .ok t.entity) := by
  simp only [TxSystem.step, TxSystem.applyReordering] at h
  cases hi : s.protectedPdus[i]? with
  | none =>
    rw [hi] at h
    cases h
    exact ⟨⟨rfl, rfl⟩, .inl rfl⟩
  | some info =>
    rw [hi] at h
    cases ha : s.entity.applyReordering cfg info with
    | error f => simp only [ha, error_bind, reduceCtorEq] at h
    | ok u =>
      simp only [ha, ok_bind, pure_eq_ok, Except.ok.injEq] at h
      rw [← h]
      exact ⟨⟨rfl, rfl⟩, .inr ⟨info, rfl, ha⟩⟩

theorem cryptoReorderingTimer_step (h : s.step E cfg .cryptoReorderingTimer = .ok t) :
    (t.encryptions = s.encryptions ∧ t.period = s.period) ∧
      (t.entity = s.entity ∨ s.entity.cryptoReorderingTimer = true ∧
        { s.entity with cryptoReorderingTimer := false }.cryptoReorderingTimeout cfg =
          .ok t.entity) := by
  simp only [TxSystem.step, TxSystem.cryptoReorderingTimer] at h
  split_ifs at h with hrun
  · cases hc : { s.entity with cryptoReorderingTimer := false }.cryptoReorderingTimeout cfg with
    | error f => simp only [hc, error_bind, reduceCtorEq] at h
    | ok u =>
      simp only [hc, ok_bind, pure_eq_ok, Except.ok.injEq] at h
      rw [← h]
      exact ⟨⟨rfl, rfl⟩, .inr ⟨hrun, rfl⟩⟩
  · cases h
    exact ⟨⟨rfl, rfl⟩, .inl rfl⟩

theorem dataRecovery_step (h : s.step E cfg .dataRecovery = .ok t) :
    t = { s with entity := s.entity.retransmitAllPdus cfg } ∧ cfg.rlcMode = .am := by
  simp only [TxSystem.step, PdcpEntityTx.dataRecovery] at h
  split_ifs at h with hb
  · cases h
  · cases h
    rw [not_or, not_not] at hb
    exact ⟨rfl, hb.2⟩

end TxSystem

end Ocudu.Pdcp
