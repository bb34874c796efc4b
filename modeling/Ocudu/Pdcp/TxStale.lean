import Ocudu.Pdcp.TxOrder

/-! A PDU that was parked before a rewind is handed over after it, unless the rewind finds no
parked PDU. -/

namespace Ocudu.Pdcp

open CircularMap

def HandedPdu.Current (h : HandedPdu) : Prop :=
  h.parkedAt = h.rewinds ∧ h.job.retransmits % 2 ^ 16 = h.retransmits % 2 ^ 16

namespace PdcpEntityTx

variable {C : RohcCompressor} {cfg : PdcpTxConfig} {s t : PdcpEntityTx C} {c : Nat}

/-- The PDU of a slot, if there is one, was made and parked since the last rewind. -/
def UpToDate (s : PdcpEntityTx C) (elem : PdcpTxWindowElement) : Prop :=
  elem.pdu ≠ [] → elem.parkedAt = s.rewinds ∧
    elem.job.retransmits % 2 ^ 16 = s.retransmits % 2 ^ 16

structure Fresh (s : PdcpEntityTx C) : Prop where
  low : LowEdge s
  high : ∀ c, s.txWindow.contains c = true → c ≤ s.st.txNext
  ack_le : s.st.txNextAck ≤ s.st.txNext
  next_lt : s.st.txNext < 2 ^ 32
  slots : ∀ c elem, s.txWindow.lookup c = some elem → UpToDate s elem
  log : ∀ h ∈ s.handed, HandedPdu.Current h

section

variable (h : Fresh s)
include h

theorem Fresh.quiet (hq : Quiet s t) : Fresh t where
  low := (hq.edge h.low h.ack_le).1
  high := by
    intro c hc
    obtain ⟨elem, hl⟩ := lookup_of_contains hc
    rw [hq.next]
    exact h.high c (contains_of_lookup (hq.stored c elem hl))
  ack_le := (hq.edge h.low h.ack_le).2
  next_lt := by rw [hq.next]; exact h.next_lt
  slots := by
    intro c elem hl
    unfold UpToDate
    rw [hq.rewinds, hq.retransmits]
    exact h.slots c elem (hq.stored c elem hl)
  log := by rw [hq.handed]; exact h.log

theorem Fresh.setTimer (reord : Nat) (timer : Bool) : Fresh (s.setTimer reord timer) :=
  ⟨h.low, h.high, h.ack_le, h.next_lt, h.slots, h.log⟩

theorem Fresh.skipCount : Fresh s.skipCount :=
  ⟨h.low, h.high, h.ack_le, h.next_lt, h.slots, h.log⟩

theorem Fresh.parkPdu {info : PdcpTxBufferInfo} (hacc : Accepted s info) :
    Fresh (s.parkPdu info) := by
  refine ⟨?_, ?_, h.ack_le, h.next_lt, ?_, h.log⟩
  · intro x hx
    simp only [PdcpEntityTx.parkPdu, contains_modify] at hx
    exact h.low x hx
  · intro x hx
    simp only [PdcpEntityTx.parkPdu, contains_modify] at hx
    exact h.high x hx
  · intro x elem hl
    obtain ⟨e, he, rfl | ⟨-, rfl⟩⟩ := lookup_parkPdu hl
    · exact h.slots x elem he
    · exact fun _ => ⟨rfl, hacc.1⟩

theorem Fresh.handOver {a : Nat} {elem : PdcpTxWindowElement} (isRetx : Bool)
    (hl : s.txWindow.lookup a = some elem) (hpdu : elem.pdu ≠ []) :
    Fresh (s.handOver a elem isRetx) := by
  refine ⟨?_, ?_, h.ack_le, h.next_lt, ?_, ?_⟩
  · intro x hx
    simp only [PdcpEntityTx.handOver, contains_modify] at hx
    exact h.low x hx
  · intro x hx
    simp only [PdcpEntityTx.handOver, contains_modify] at hx
    exact h.high x hx
  · intro x e hx
    obtain ⟨e', he', rfl | rfl⟩ := lookup_handOver hx
    · exact h.slots x e he'
    · exact fun hne => absurd rfl hne
  · intro a' ha'
    simp only [PdcpEntityTx.handOver, List.mem_append, List.mem_singleton] at ha'
    rcases ha' with ha' | rfl
    · exact h.log a' ha'
    · exact h.slots a elem hl hpdu

theorem Fresh.flushInOrder {isRetx : Bool} (ht : s.flushInOrder cfg isRetx = .ok t) : Fresh t := by
  refine flushInOrder_rule ?_ h h.next_lt ht
  intro u elem v hu _ _ hl hpdu hq
  exact (hu.handOver isRetx hl hpdu).quiet hq

theorem Fresh.passUpToReord : Fresh s.passUpToReord := by
  have hiter : ∀ (n : Nat) (u : PdcpEntityTx C), Fresh u → Fresh (passReordering^[n] u) := by
    intro n
    induction n with
    | zero => exact fun _ hu => hu
    | succ n ih =>
      intro u hu
      rw [Function.iterate_succ_apply]
      apply ih
      rcases u.passReordering_cases with ⟨elem, hl, hpdu, he⟩ | he
      · rw [he]
        exact hu.handOver false hl hpdu
      · rw [he]
        exact hu.skipCount
  exact hiter _ s h

theorem Fresh.applyReordering {info : PdcpTxBufferInfo} (ht : s.applyReordering cfg info = .ok t) : Fresh t := by
  rcases applyReordering_cases ht with rfl | ⟨hacc, u, hf, rfl⟩
  · exact h
  · obtain ⟨r, b, hrb⟩ := u.handleCryptoTimers_eq
    rw [hrb]
    exact ((h.parkPdu hacc).flushInOrder hf).setTimer r b

theorem Fresh.cryptoReorderingTimeout (ht : s.cryptoReorderingTimeout cfg = .ok t) :
    Fresh t := by
  obtain ⟨u, hf, rfl⟩ := cryptoReorderingTimeout_cases ht
  obtain ⟨r, b, hrb⟩ := u.startCryptoReordering_eq
  rw [hrb]
  exact (h.passUpToReord.flushInOrder hf).setTimer r b

theorem Fresh.accepts {buf b : List UInt8} {now : Nat} (ha : Accepts cfg s t (s.newElement cfg buf now) b) : Fresh t := by
  obtain ⟨n, hst, hle, hlt⟩ : ∃ n, t.st = { s.st with txNext := n } ∧ s.st.txNext ≤ n ∧
      n < 2 ^ 32 := by
    rcases ha.job with ⟨hst, -⟩ | ⟨hst, hlt, -⟩
    · exact ⟨s.st.txNext, hst, le_refl _, h.next_lt⟩
    · exact ⟨_, hst, by omega, hlt⟩
  have hcase : ∀ c elem, t.txWindow.lookup c = some elem →
      (c = s.st.txNext ∧ elem.pdu = []) ∨ s.txWindow.lookup c = some elem := by
    intro c elem hl
    rcases ha.stored c elem hl with ⟨hc, rfl⟩ | ⟨-, hold⟩
    · exact .inl ⟨hc, rfl⟩
    · exact .inr hold
  constructor
  case low =>
    intro x hx
    obtain ⟨e, he⟩ := lookup_of_contains hx
    rw [hst]
    rcases hcase x e he with ⟨rfl, -⟩ | hold
    · exact h.ack_le
    · exact h.low x (contains_of_lookup hold)
  case high =>
    intro x hx
    obtain ⟨e, he⟩ := lookup_of_contains hx
    rw [hst]
    rcases hcase x e he with ⟨rfl, -⟩ | hold
    · exact hle
    · exact (h.high x (contains_of_lookup hold)).trans hle
  case ack_le =>
    rw [hst]
    exact h.ack_le.trans hle
  case next_lt =>
    rw [hst]
    exact hlt
  case slots =>
    intro c elem hl
    unfold UpToDate
    rw [ha.rewinds, ha.retransmits]
    rcases hcase c elem hl with ⟨-, hnil⟩ | hold
    · exact fun hne => absurd hnil hne
    · exact h.slots c elem hold
  case log =>
    rw [ha.handed]
    exact h.log

theorem Fresh.handleSdu (buf : List UInt8) (now : Nat) :
    Fresh (s.handleSdu cfg buf now) := by
  by_cases htake : TakesCount cfg s buf
  · rw [handleSdu_of_takesCount htake]
    exact h.accepts (transmitSdu_accepts htake now)
  · exact h.quiet (quiet_handleSdu htake now)

theorem Fresh.endBuffering (now : Nat) : Fresh (s.endBuffering cfg now) :=
  endBuffering_rule Fresh (fun _ buf hu => hu.handleSdu buf now) (h.quiet (Quiet.set s _ _ _ _ _ _ _ _ _))

end

/-- No PDU waits in the window for one before it. -/
def NoneParked (s : PdcpEntityTx C) : Prop :=
  ∀ c ∈ List.range' s.st.txNextAck (s.st.txNext + 1 - s.st.txNextAck), s.isParked c = false

instance (s : PdcpEntityTx C) : Decidable (NoneParked s) := by
  unfold NoneParked
  infer_instance

theorem NoneParked.quiet (h : NoneParked s) (hq : Quiet s t) : NoneParked t := by
  intro c hc
  rw [List.mem_range'_1, hq.next] at hc
  have hack := hq.ack
  have hs := h c (List.mem_range'_1.mpr (by omega))
  by_contra hp
  obtain ⟨elem, hl, hpdu⟩ := isParked_iff.mp (by simpa using hp)
  rw [isParked_iff.mpr ⟨elem, hq.stored c elem hl, hpdu⟩] at hs
  cases hs

theorem Fresh.retransmitAllPdus (h : Fresh s) (hnone : NoneParked s) :
    Fresh (s.retransmitAllPdus cfg) := by
  have hnil : ∀ c elem, s.txWindow.lookup c = some elem → elem.pdu = [] := by
    intro c elem hl
    have hcont := contains_of_lookup hl
    have hlow := h.low c hcont
    have hhigh := h.high c hcont
    by_contra hne
    have hs := hnone c (List.mem_range'_1.mpr (by omega))
    rw [isParked_iff.mpr ⟨elem, hl, hne⟩] at hs
    cases hs
  have hslots : ∀ u : PdcpEntityTx C, ∀ c elem, s.txWindow.lookup c = some elem → UpToDate u elem :=
    fun u c elem hl hne => absurd (hnil c elem hl) hne
  unfold PdcpEntityTx.retransmitAllPdus
  dsimp only
  split_ifs with h1 h2
  · exact ⟨h.low, h.high, h.ack_le, h.next_lt, hslots _, h.log⟩
  · exact ⟨h.low, h.high, h.ack_le, h.next_lt, hslots _, h.log⟩
  · obtain ⟨r, n, j, hr⟩ := @retransmitLoop_frame C cfg
      (List.range' s.st.txNextAck (s.st.txNext - s.st.txNextAck))
      { s with
        rewinds := s.rewinds + 1
        st := { s.st with txTrans := s.st.txNextAck, txTransCrypto := s.st.txNextAck }
        retransmits := s.retransmits + 1 }
    rw [hr]
    exact ⟨h.low, h.high, h.ack_le, h.next_lt, hslots _, h.log⟩

theorem Fresh.cleared (h : Fresh s) (hst : t.st = ⟨0, 0, 0, 0, 0⟩)
    (hw : t.txWindow = .empty cfg.snSize.windowSize) (hh : t.handed = s.handed) : Fresh t := by
  refine ⟨?_, ?_, ?_, ?_, ?_, ?_⟩
  · intro x hx
    rw [hw] at hx
    simp [contains] at hx
  · intro x hx
    rw [hw] at hx
    simp [contains] at hx
  · rw [hst]
  · rw [hst]
    decide
  · intro x elem hl
    rw [hw] at hl
    simp at hl
  · rw [hh]
    exact h.log

theorem Fresh.suspend (h : Fresh s) : Fresh (s.suspend cfg) := by
  unfold PdcpEntityTx.suspend
  split_ifs
  · exact h
  · exact h.cleared rfl rfl rfl

theorem Fresh.reestablish (h : Fresh s) (hnone : resets cfg = false → NoneParked s)
    (secCfg : Sec128AsConfig) : Fresh (s.reestablish cfg secCfg) := by
  obtain ⟨r, hr⟩ := @initHeaderCompression_frame C cfg s
  unfold PdcpEntityTx.reestablish
  rw [hr]
  dsimp only
  cases hres : resets cfg with
  | true =>
    simp only [if_true]
    have hclear : Fresh (PdcpEntityTx.reset cfg { s with rohcComp := r }) := h.cleared rfl rfl rfl
    have hempty : NoneParked (PdcpEntityTx.reset cfg { s with rohcComp := r }) := fun _ _ => rfl
    have hq := quiet_configureSecurity (PdcpEntityTx.reset cfg { s with rohcComp := r }) secCfg
      s.integrityEnabled
    split_ifs
    · exact (hclear.quiet hq).retransmitAllPdus (hempty.quiet hq)
    · exact hclear.quiet hq
  | false =>
    simp only [Bool.false_eq_true, if_false]
    have hinit : Fresh { s with rohcComp := r } :=
      ⟨h.low, h.high, h.ack_le, h.next_lt, h.slots, h.log⟩
    have hnp : NoneParked { s with rohcComp := r } := hnone hres
    have hq := quiet_configureSecurity { s with rohcComp := r } secCfg s.integrityEnabled
    split_ifs
    · exact (hinit.quiet hq).retransmitAllPdus (hnp.quiet hq)
    · exact hinit.quiet hq

end PdcpEntityTx

namespace TxSystem

open PdcpEntityTx

variable {C : RohcCompressor} {E : SecurityEngine} {cfg : PdcpTxConfig} {s t : TxSystem C}

/-- A data recovery or a re-establishment that keeps the window finds no parked PDU in it. -/
def NothingParked (cfg : PdcpTxConfig) (s : TxSystem C) : TxEvent → Prop
  | .dataRecovery => NoneParked s.entity
  | .reestablish _ => resets cfg = false → NoneParked s.entity
  | _ => True

instance (s : TxSystem C) : (e : TxEvent) → Decidable (NothingParked cfg s e)
  | .dataRecovery => inferInstanceAs (Decidable (NoneParked s.entity))
  | .reestablish _ => inferInstanceAs (Decidable (_ → NoneParked s.entity))
  | .sdu .. | .applySecurity _ | .loseJob _ | .applyReordering _ | .losePdu _
  | .transmitNotification _ | .retransmitNotification _ | .deliveryNotification _
  | .deliveryRetransmittedNotification _ | .desiredBufferSize _ | .statusReport _
  | .rohcFeedback _ | .discardTimer | .cryptoReorderingTimer | .configureSecurity ..
  | .beginBuffering | .endBuffering _ | .suspend | .resume => .isTrue trivial

theorem Fresh.step (h : PdcpEntityTx.Fresh s.entity) {e : TxEvent}
    (hadm : NothingParked cfg s e) (ht : s.step E cfg e = .ok t) :
    PdcpEntityTx.Fresh t.entity := by
  cases hq : isQuiet e with
  | true => exact h.quiet (quiet_of_step hq ht)
  | false =>
    cases e with
    | sdu buf now =>
      cases ht
      exact h.handleSdu buf now
    | applyReordering i =>
      rcases (applyReordering_step ht).2 with heq | ⟨info, -, ha⟩
      · rw [heq]
        exact h
      · exact h.applyReordering ha
    | cryptoReorderingTimer =>
      rcases (cryptoReorderingTimer_step ht).2 with heq | ⟨-, hc⟩
      · rw [heq]
        exact h
      · have hoff : PdcpEntityTx.Fresh { s.entity with cryptoReorderingTimer := false } :=
          h.setTimer s.entity.st.txReordCrypto false
        exact hoff.cryptoReorderingTimeout hc
    | dataRecovery =>
      rw [(dataRecovery_step ht).1]
      exact h.retransmitAllPdus hadm
    | reestablish secCfg =>
      cases ht
      exact h.reestablish hadm secCfg
    | endBuffering now =>
      cases ht
      exact h.endBuffering now
    | suspend =>
      cases ht
      exact h.suspend
    | _ => cases hq

/-- Every PDU handed over was made by a job of the current retransmission counter and parked
since the last rewind. -/
theorem handed_current (E : SecurityEngine) (cfg : PdcpTxConfig) (count : Nat)
    (hcount : count < 2 ^ 32) (es : List TxEvent)
    (hadm : Machine.Admits (TxSystem.step E cfg) (NothingParked cfg) (new C cfg count) es)
    {s : TxSystem C} (hrun : Machine.run (TxSystem.step E cfg) (new C cfg count) es = .ok s) :
    ∀ h ∈ s.entity.handed, h.parkedAt = h.rewinds ∧
      h.job.retransmits % 2 ^ 16 = h.retransmits % 2 ^ 16 := by
  have hinit : PdcpEntityTx.Fresh (new C cfg count).entity := by
    refine ⟨?_, ?_, le_refl _, hcount, ?_, ?_⟩
    · intro x hx
      simp [new, PdcpEntityTx.new, CircularMap.contains] at hx
    · intro x hx
      simp [new, PdcpEntityTx.new, CircularMap.contains] at hx
    · intro x elem hl
      simp [new, PdcpEntityTx.new] at hl
    · simp [new, PdcpEntityTx.new]
  exact (Machine.run_invariant (fun s : TxSystem C => PdcpEntityTx.Fresh s.entity)
    (fun _ _ _ hs he ht => Fresh.step hs he ht) hinit hadm hrun).log

def keyEngine : SecurityEngine := ⟨fun secCfg _ _ buf => some (UInt8.ofNat secCfg.key :: buf)⟩

theorem handed_current_recovered :
    ∃ s, Machine.run (TxSystem.step keyEngine drbTxConfig) (new noCompressor drbTxConfig 0)
      recovery = .ok s ∧
      ∀ h ∈ s.entity.handed, h.parkedAt = h.rewinds ∧
        h.job.retransmits % 2 ^ 16 = h.retransmits % 2 ^ 16 := by
  obtain ⟨s, hs⟩ : ∃ s, Machine.run (TxSystem.step keyEngine drbTxConfig)
      (new noCompressor drbTxConfig 0) recovery = .ok s :=
    Machine.exists_of_isOk (by decide +kernel)
  exact ⟨s, hs, handed_current keyEngine drbTxConfig 0 (by decide) _ (by decide +kernel) hs⟩

/-- The first of two jobs is lost and the second PDU is parked; after a re-establishment with
another key the retransmission of the first SDU hands over the PDU under the old key. -/
theorem stale_key_after_reestablishment :
    (match Machine.run (TxSystem.step keyEngine drbTxConfig) (new noCompressor drbTxConfig 0)
      (setUp ++ [.sdu [1] 0, .sdu [2] 0, .applySecurity 1, .applyReordering 0, .loseJob 0,
        .reestablish ⟨2, false⟩, .applySecurity 0, .applyReordering 0]) with
    | .ok s => s.entity.handed.map fun h => (h.count, h.pdu.head?, h.job.retransmits, h.retransmits)
    | .error _ => []) = [(0, some 2, 1, 1), (1, some 1, 0, 1)] := by
  decide +kernel

end TxSystem

end Ocudu.Pdcp
