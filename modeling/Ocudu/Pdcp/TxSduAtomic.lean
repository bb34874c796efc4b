import Ocudu.Pdcp.TxCountReuse

/-! `handle_sdu` with the steps that can fail after the SDU was added to the transmit window:
the copy of the SDU, header compression and the header in front of it. -/

namespace Ocudu.Pdcp

open CircularMap

/-- Whether the buffers that one call of `handle_sdu` asks for are there: the copy of the SDU
and the room for the header. -/
structure SduAllocs where
  deepCopy : Bool
  prepend : Bool

def SduAllocs.granted : SduAllocs := ⟨true, true⟩

namespace PdcpEntityTx

section

variable {C : RohcCompressor} (cfg : PdcpTxConfig)

def copiesSdu : Bool := cfg.discardTimer.isSome && cfg.rlcMode == .am

def addAndTransmit (allocs : SduAllocs) (s : PdcpEntityTx C) (buf : List UInt8) (now : Nat) :
    Except Fault (PdcpEntityTx C) :=
  let s := { s with discardTimer := s.discardTimer || finiteDiscardTimer cfg }
  if copiesSdu cfg ∧ allocs.deepCopy = false then .ok s.protocolFailure
  else if s.txWindow.contains s.st.txNext then .error .addSn
  else
    match (s.addSdu (s.newElement cfg buf now)).applyHeaderCompression buf with
    | (none, s) => .ok s
    | (some buf, s) =>
      if allocs.prepend then
        .ok { s.pushJob cfg false s.st.txNext buf with
          st := { s.st with txNext := (s.st.txNext + 1) % 2 ^ 32 } }
      else .ok s.protocolFailure

def handleSduWith (allocs : SduAllocs) (s : PdcpEntityTx C) (buf : List UInt8) (now : Nat) :
    Except Fault (PdcpEntityTx C) :=
  if s.buffering then
    if s.sduBuffer.length < sduBufferSize then .ok { s with sduBuffer := s.sduBuffer ++ [buf] }
    else .ok s
  else if cfg.rbType ≠ .srb ∧ s.checkEarlyDrop cfg buf ≠ .noDrop then .ok s
  else if cfg.maxCountHard ≤ s.st.txNext then .ok s.reachMaxCount
  else s.addAndTransmit cfg allocs buf now

/-- The loop of `end_buffering`; the `i`-th call of `handle_sdu` has the `i`-th outcome. -/
def transmitBuffered (now : Nat) : List SduAllocs → List (List UInt8) → PdcpEntityTx C →
    Except Fault (PdcpEntityTx C)
  | _, [], s => .ok s
  | allocs, buf :: bufs, s => do
    let s ← s.handleSduWith cfg (allocs.headD .granted) buf now
    transmitBuffered now allocs.tail bufs s

def endBufferingWith (allocs : List SduAllocs) (s : PdcpEntityTx C) (now : Nat) :
    Except Fault (PdcpEntityTx C) :=
  transmitBuffered cfg now allocs s.sduBuffer { s with buffering := false, sduBuffer := [] }

abbrev SduFails (allocs : SduAllocs) (s : PdcpEntityTx C) (buf : List UInt8) : Prop :=
  TakesCount cfg s buf ∧ ¬(copiesSdu cfg = true ∧ allocs.deepCopy = false) ∧
    ((s.applyHeaderCompression buf).1 = none ∨ allocs.prepend = false)

/-- None of the buffered SDUs fails when its turn comes. -/
def NoneFails (now : Nat) : List SduAllocs → List (List UInt8) → PdcpEntityTx C → Prop
  | _, [], _ => True
  | allocs, buf :: bufs, s =>
    ¬SduFails cfg (allocs.headD .granted) s buf ∧
      ∀ t, s.handleSduWith cfg (allocs.headD .granted) buf now = .ok t →
        NoneFails now allocs.tail bufs t

theorem noneFails_cons_iff {now : Nat} {allocs : List SduAllocs} {buf : List UInt8}
    {bufs : List (List UInt8)} {s : PdcpEntityTx C} :
    NoneFails cfg now allocs (buf :: bufs) s ↔
      ¬SduFails cfg (allocs.headD .granted) s buf ∧
        ∀ t ∈ (s.handleSduWith cfg (allocs.headD .granted) buf now).toOption,
          NoneFails cfg now allocs.tail bufs t := by
  rw [NoneFails]
  cases s.handleSduWith cfg (allocs.headD .granted) buf now with
  | ok t => simp [Except.toOption]
  | error f => simp [Except.toOption]

instance NoneFails.decidable (now : Nat) : (allocs : List SduAllocs) →
    (bufs : List (List UInt8)) → (s : PdcpEntityTx C) → Decidable (NoneFails cfg now allocs bufs s)
  | _, [], _ => .isTrue trivial
  | allocs, _ :: bufs, _ =>
    have (t : PdcpEntityTx C) : Decidable (NoneFails cfg now allocs.tail bufs t) :=
      NoneFails.decidable now allocs.tail bufs t
    decidable_of_iff _ (noneFails_cons_iff cfg).symm

structure SameSdus (s t : PdcpEntityTx C) : Prop where
  next : t.st.txNext = s.st.txNext
  stored : ∀ c, t.txWindow.lookup c = s.txWindow.lookup c
  bytes : t.sduBytes = s.sduBytes
  sdus : t.nofSdus = s.nofSdus

def AllOrNothing (allocs : SduAllocs) (s : PdcpEntityTx C) (buf : List UInt8) (now : Nat) : Prop :=
  SduFails cfg allocs s buf → ∀ t, s.handleSduWith cfg allocs buf now = .ok t → SameSdus s t

end

variable {C : RohcCompressor} {cfg : PdcpTxConfig} {s t : PdcpEntityTx C}

structure BelowNext (s : PdcpEntityTx C) : Prop where
  next_lt : s.st.txNext < 2 ^ 32
  below : ∀ c, s.txWindow.contains c = true → c < s.st.txNext

theorem BelowNext.free (h : BelowNext s) : s.txWindow.contains s.st.txNext = false := by
  cases hc : s.txWindow.contains s.st.txNext with
  | false => rfl
  | true => exact absurd (h.below _ hc) (lt_irrefl _)

theorem BelowNext.congr (h : BelowNext s) (hnext : t.st.txNext = s.st.txNext)
    (hw : t.txWindow = s.txWindow) : BelowNext t :=
  ⟨by rw [hnext]; exact h.next_lt, by rw [hnext, hw]; exact h.below⟩

theorem BelowNext.harmless (h : BelowNext s) (hq : Harmless s t) : BelowNext t where
  next_lt := by rw [hq.next]; exact h.next_lt
  below := by
    intro c hc
    obtain ⟨elem, hl⟩ := Option.isSome_iff_exists.mp hc
    obtain ⟨e, he, -⟩ := hq.stored c elem hl
    rw [hq.next]
    exact h.below c (Option.isSome_iff_exists.mpr ⟨e, he⟩)

theorem BelowNext.cleared (hw : t.txWindow = .empty cfg.snSize.windowSize)
    (hnext : t.st.txNext < 2 ^ 32) : BelowNext t := by
  refine ⟨hnext, fun c hc => ?_⟩
  rw [hw] at hc
  cases hc

theorem applyHeaderCompression_fst (h : t.rohcComp = s.rohcComp) (buf : List UInt8) :
    (t.applyHeaderCompression buf).1 = (s.applyHeaderCompression buf).1 := by
  unfold applyHeaderCompression
  rw [h]
  cases s.rohcComp with
  | none => rfl
  | some c =>
    dsimp only
    split_ifs <;> rfl

theorem addAndTransmit_spec (allocs : SduAllocs) (buf : List UInt8) (now : Nat)
    (htake : TakesCount cfg s buf) (hfree : s.txWindow.contains s.st.txNext = false) :
    ∃ t, s.addAndTransmit cfg allocs buf now = .ok t ∧
      (SduFails cfg allocs s buf → t.nofSdus = (s.nofSdus + 1) % 2 ^ 32) ∧
      (¬SduFails cfg allocs s buf →
        t.st.txNext = s.st.txNext ∧ t.txWindow = s.txWindow ∨
          t.st.txNext = (s.st.txNext + 1) % 2 ^ 32 ∧
            t.txWindow = s.txWindow.overwrite s.st.txNext (s.newElement cfg buf now)) := by
  obtain ⟨u, hu⟩ : ∃ u : PdcpEntityTx C, u =
    { s with discardTimer := s.discardTimer || finiteDiscardTimer cfg } := ⟨_, rfl⟩
  obtain ⟨r, n, hr⟩ := (u.addSdu (u.newElement cfg buf now)).applyHeaderCompression_frame buf
  have hfst : ((u.addSdu (u.newElement cfg buf now)).applyHeaderCompression buf).1 =
      (s.applyHeaderCompression buf).1 := applyHeaderCompression_fst (by rw [hu]; rfl) buf
  have hcont : u.txWindow.contains u.st.txNext = false := by rw [hu]; exact hfree
  unfold addAndTransmit
  rw [← hu]
  dsimp only
  by_cases hcopy : copiesSdu cfg = true ∧ allocs.deepCopy = false
  · rw [if_pos hcopy]
    exact ⟨_, rfl, fun hf => absurd hcopy hf.2.1, fun _ => .inl (by rw [hu]; exact ⟨rfl, rfl⟩)⟩
  rw [if_neg hcopy, hcont, if_neg (by simp)]
  generalize (u.addSdu (u.newElement cfg buf now)).applyHeaderCompression buf = p at hr hfst
  obtain ⟨o, v⟩ := p
  dsimp only at hr hfst
  cases o with
  | none =>
    refine ⟨v, rfl, fun _ => ?_, fun hno => absurd ⟨htake, hcopy, .inl hfst.symm⟩ hno⟩
    rw [hr, hu]
    rfl
  | some b =>
    dsimp only
    cases hp : allocs.prepend with
    | false =>
      refine ⟨_, rfl, fun _ => ?_, fun hno => absurd ⟨htake, hcopy, .inr hp⟩ hno⟩
      rw [hr, hu]
      rfl
    | true =>
      refine ⟨_, rfl, fun hf => ?_, fun _ => .inr ?_⟩
      · rcases hf.2.2 with hnone | hno
        · rw [hnone] at hfst
          cases hfst
        · rw [hp] at hno
          cases hno
      · rw [hr, hu]
        exact ⟨rfl, rfl⟩

theorem handleSduWith_of_takesCount {buf : List UInt8} (h : TakesCount cfg s buf)
    (allocs : SduAllocs) (now : Nat) :
    s.handleSduWith cfg allocs buf now = s.addAndTransmit cfg allocs buf now := by
  unfold handleSduWith
  rw [if_neg (by simp [h.1]), if_neg h.2.1, if_neg (by have := h.2.2; omega)]

theorem handleSduWith_of_not {buf : List UInt8} (h : ¬TakesCount cfg s buf)
    (allocs : SduAllocs) (now : Nat) :
    s.handleSduWith cfg allocs buf now = .ok (s.handleSdu cfg buf now) := by
  unfold handleSduWith handleSdu
  split_ifs with h1 h2 h3 h4
  · rfl
  · rfl
  · rfl
  · rfl
  · exact absurd ⟨by simpa using h1, h3, by omega⟩ h

theorem BelowNext.handleSduWith (h : BelowNext s) (allocs : SduAllocs) (buf : List UInt8)
    (now : Nat) :
    ∃ t, s.handleSduWith cfg allocs buf now = .ok t ∧
      (SduFails cfg allocs s buf → t.nofSdus = (s.nofSdus + 1) % 2 ^ 32) ∧
      (¬SduFails cfg allocs s buf → BelowNext t) := by
  by_cases htake : TakesCount cfg s buf
  · obtain ⟨t, ht, hfails, hok⟩ := addAndTransmit_spec allocs buf now htake h.free
    rw [handleSduWith_of_takesCount htake]
    refine ⟨t, ht, hfails, fun hno => ?_⟩
    rcases hok hno with ⟨hnext, hw⟩ | ⟨hnext, hw⟩
    · exact h.congr hnext hw
    · have hmax := cfg.maxCountHard_lt
      have hlt := htake.2.2
      rw [Nat.mod_eq_of_lt (by omega)] at hnext
      refine ⟨by omega, fun c hc => ?_⟩
      rw [hw] at hc
      obtain ⟨elem, hl⟩ := Option.isSome_iff_exists.mp hc
      rw [hnext]
      rcases lookup_overwrite_cases hl with ⟨rfl, -⟩ | ⟨-, hold⟩
      · omega
      · have := h.below c (Option.isSome_iff_exists.mpr ⟨elem, hold⟩)
        omega
  · refine ⟨_, handleSduWith_of_not htake allocs now, fun hf => absurd hf.1 htake, fun _ => ?_⟩
    exact h.harmless (quiet_handleSdu htake now).harmless

theorem BelowNext.transmitBuffered (now : Nat) {allocs : List SduAllocs}
    {bufs : List (List UInt8)} (h : BelowNext s) (hno : NoneFails cfg now allocs bufs s) :
    ∃ t, transmitBuffered cfg now allocs bufs s = .ok t ∧ BelowNext t := by
  induction bufs generalizing allocs s with
  | nil => exact ⟨s, rfl, h⟩
  | cons buf bufs ih =>
    obtain ⟨u, hu, -, hok⟩ := h.handleSduWith (allocs.headD .granted) buf now
    obtain ⟨t, ht, hbelow⟩ := ih (hok hno.1) (hno.2 u hu)
    refine ⟨t, ?_, hbelow⟩
    rw [PdcpEntityTx.transmitBuffered, hu, ok_bind]
    exact ht

theorem BelowNext.endBufferingWith (h : BelowNext s) {allocs : List SduAllocs} {now : Nat}
    (hno : NoneFails cfg now allocs s.sduBuffer { s with buffering := false, sduBuffer := [] }) :
    ∃ t, s.endBufferingWith cfg allocs now = .ok t ∧ BelowNext t :=
  BelowNext.transmitBuffered now (h.congr rfl rfl) hno

theorem BelowNext.retransmitAllPdus (h : BelowNext s) : BelowNext (s.retransmitAllPdus cfg) := by
  unfold PdcpEntityTx.retransmitAllPdus
  dsimp only
  split_ifs
  · exact h.congr rfl rfl
  · exact h.congr rfl rfl
  · obtain ⟨r, n, j, hl⟩ := @retransmitLoop_frame C cfg
      (List.range' s.st.txNextAck (s.st.txNext - s.st.txNextAck)) { s with
        rewinds := s.rewinds + 1
        st := { s.st with txTrans := s.st.txNextAck, txTransCrypto := s.st.txNextAck }
        retransmits := s.retransmits + 1 }
    rw [hl]
    exact h.congr rfl rfl

theorem BelowNext.suspend (h : BelowNext s) : BelowNext (s.suspend cfg) := by
  unfold PdcpEntityTx.suspend
  split_ifs
  · exact h
  · exact BelowNext.cleared rfl (Nat.two_pow_pos 32)

theorem BelowNext.configureSecurity (h : BelowNext s) (secCfg : Sec128AsConfig)
    (integrity : Bool) : BelowNext (s.configureSecurity secCfg integrity) :=
  h.harmless (quiet_configureSecurity s secCfg integrity).harmless

theorem BelowNext.reestablish (h : BelowNext s) (secCfg : Sec128AsConfig) :
    BelowNext (s.reestablish cfg secCfg) := by
  obtain ⟨r, hr⟩ := @initHeaderCompression_frame C cfg s
  have hreset : BelowNext (if resets cfg then
      PdcpEntityTx.reset cfg { s with rohcComp := r } else { s with rohcComp := r }) := by
    split_ifs
    · exact BelowNext.cleared rfl (Nat.two_pow_pos 32)
    · exact h.congr rfl rfl
  unfold PdcpEntityTx.reestablish
  rw [hr]
  dsimp only
  generalize (if resets cfg then PdcpEntityTx.reset cfg { s with rohcComp := r }
    else { s with rohcComp := r }) = u at hreset ⊢
  split_ifs
  · exact (hreset.configureSecurity secCfg _).retransmitAllPdus
  · exact hreset.configureSecurity secCfg _

theorem BelowNext.allOrNothing_iff (h : BelowNext s) (allocs : SduAllocs) (buf : List UInt8)
    (now : Nat) : AllOrNothing cfg allocs s buf now ↔ ¬SduFails cfg allocs s buf := by
  obtain ⟨t, ht, hfails, -⟩ := h.handleSduWith allocs buf now
  constructor
  · intro hall hf
    have hsame := (hall hf t ht).sdus
    rw [hfails hf] at hsame
    omega
  · exact fun hno hf => absurd hf hno

end PdcpEntityTx

namespace TxSystem

open PdcpEntityTx

/-- An event, and what becomes of the buffers that its calls of `handle_sdu` ask for. -/
abbrev AllocEvent := TxEvent × List SduAllocs

variable {C : RohcCompressor} (E : SecurityEngine) (cfg : PdcpTxConfig)

def stepWith (s : TxSystem C) : AllocEvent → Except Fault (TxSystem C)
  | (.sdu buf now, allocs) =>
    s.withEntity (s.entity.handleSduWith cfg (allocs.headD .granted) buf now)
  | (.endBuffering now, allocs) => s.withEntity (s.entity.endBufferingWith cfg allocs now)
  | (e, _) => s.step E cfg e

def SdusSucceed (s : TxSystem C) : AllocEvent → Prop
  | (.sdu buf _, allocs) => ¬SduFails cfg (allocs.headD .granted) s.entity buf
  | (.endBuffering now, allocs) => NoneFails cfg now allocs s.entity.sduBuffer
      { s.entity with buffering := false, sduBuffer := [] }
  | _ => True

instance (s : TxSystem C) : (e : AllocEvent) → Decidable (SdusSucceed cfg s e)
  | (.sdu buf _, allocs) =>
    inferInstanceAs (Decidable (¬SduFails cfg (allocs.headD .granted) s.entity buf))
  | (.endBuffering now, allocs) =>
    inferInstanceAs (Decidable (NoneFails cfg now allocs s.entity.sduBuffer _))
  | (.applySecurity _, _) | (.loseJob _, _) | (.losePdu _, _) | (.applyReordering _, _)
  | (.transmitNotification _, _) | (.retransmitNotification _, _) | (.deliveryNotification _, _)
  | (.deliveryRetransmittedNotification _, _) | (.desiredBufferSize _, _) | (.statusReport _, _)
  | (.rohcFeedback _, _) | (.discardTimer, _) | (.cryptoReorderingTimer, _) | (.dataRecovery, _)
  | (.configureSecurity .., _) | (.reestablish _, _) | (.beginBuffering, _) | (.suspend, _)
  | (.resume, _) => .isTrue trivial

variable {E : SecurityEngine} {cfg : PdcpTxConfig} {s t : TxSystem C}

theorem withEntity_eq_ok {r : Except Fault (PdcpEntityTx C)} (h : s.withEntity r = .ok t) :
    r = .ok t.entity := by
  obtain ⟨u, hu, rfl⟩ := map_eq_ok.mp h
  exact hu

theorem BelowNext.step (h : BelowNext s.entity) {e : TxEvent} (hsdu : ∀ buf now, e ≠ .sdu buf now)
    (hend : ∀ now, e ≠ .endBuffering now) (ht : s.step E cfg e = .ok t) :
    BelowNext t.entity := by
  cases hq : isQuiet e with
  | true => exact h.harmless (quiet_of_step hq ht).harmless
  | false =>
    cases e with
    | sdu buf now => exact absurd rfl (hsdu buf now)
    | endBuffering now => exact absurd rfl (hend now)
    | applyReordering i =>
      rcases (applyReordering_step ht).2 with heq | ⟨info, -, ha⟩
      · rw [heq]
        exact h
      · exact h.harmless (harmless_applyReordering h.next_lt ha)
    | cryptoReorderingTimer =>
      rcases (cryptoReorderingTimer_step ht).2 with heq | ⟨-, hc⟩
      · rw [heq]
        exact h
      · have hoff : Harmless s.entity { s.entity with cryptoReorderingTimer := false } :=
          harmless_setTimer s.entity s.entity.st.txReordCrypto false
        exact h.harmless (hoff.comp (harmless_cryptoReorderingTimeout h.next_lt hc))
    | dataRecovery =>
      rw [(dataRecovery_step ht).1]
      exact h.retransmitAllPdus
    | reestablish secCfg =>
      cases ht
      exact h.reestablish secCfg
    | suspend =>
      cases ht
      exact h.suspend
    | _ => cases hq

theorem stepWith_other {e : TxEvent} (hsdu : ∀ buf now, e ≠ .sdu buf now)
    (hend : ∀ now, e ≠ .endBuffering now) (allocs : List SduAllocs) :
    s.stepWith E cfg (e, allocs) = s.step E cfg e := by
  cases e with
  | sdu buf now => exact absurd rfl (hsdu buf now)
  | endBuffering now => exact absurd rfl (hend now)
  | _ => rfl

theorem BelowNext.stepWith (h : BelowNext s.entity) {e : AllocEvent} (hadm : SdusSucceed cfg s e)
    (ht : s.stepWith E cfg e = .ok t) : BelowNext t.entity := by
  obtain ⟨e, allocs⟩ := e
  cases e with
  | sdu buf now =>
    obtain ⟨u, hu, -, hok⟩ := h.handleSduWith (allocs.headD .granted) buf now
    rw [withEntity_eq_ok ht, Except.ok.injEq] at hu
    rw [hu]
    exact hok hadm
  | endBuffering now =>
    obtain ⟨u, hu, hok⟩ := h.endBufferingWith hadm
    rw [withEntity_eq_ok ht, Except.ok.injEq] at hu
    rw [hu]
    exact hok
  | _ =>
    rw [stepWith_other (by simp) (by simp)] at ht
    exact BelowNext.step h (by simp) (by simp) ht

/-- As long as no SDU fails once it has a COUNT, `handle_sdu` never meets a COUNT that is
stored already, and in the states of such a run it is all or nothing exactly for the SDUs
that do not fail. -/
theorem handleSdu_all_or_nothing (E : SecurityEngine) (cfg : PdcpTxConfig) (count : Nat)
    (hcount : count < 2 ^ 32) (es : List AllocEvent)
    (hadm : Machine.Admits (TxSystem.stepWith E cfg) (SdusSucceed cfg) (new C cfg count) es)
    {s : TxSystem C} (hrun : Machine.run (TxSystem.stepWith E cfg) (new C cfg count) es = .ok s) :
    (∀ allocs buf now, (∃ t, s.entity.handleSduWith cfg allocs buf now = .ok t) ∧
      (AllOrNothing cfg allocs s.entity buf now ↔ ¬SduFails cfg allocs s.entity buf)) ∧
    ∀ allocs now, SdusSucceed cfg s (.endBuffering now, allocs) →
      ∃ t, s.entity.endBufferingWith cfg allocs now = .ok t := by
  have hnew : BelowNext (new C cfg count).entity := BelowNext.cleared rfl hcount
  have h := Machine.run_invariant (fun s : TxSystem C => BelowNext s.entity)
    (fun _ _ _ hs he ht => BelowNext.stepWith hs he ht) hnew hadm hrun
  refine ⟨fun allocs buf now => ⟨?_, h.allOrNothing_iff allocs buf now⟩, fun allocs now hno => ?_⟩
  · obtain ⟨t, ht, -⟩ := h.handleSduWith allocs buf now
    exact ⟨t, ht⟩
  · obtain ⟨t, ht, -⟩ := h.endBufferingWith hno
    exact ⟨t, ht⟩

def withBuffers (es : List TxEvent) : List AllocEvent := es.map fun e => (e, [])

theorem handleSdu_all_or_nothing_granted :
    ∃ s, Machine.run (TxSystem.stepWith nullEngine drbTxConfig) (new noCompressor drbTxConfig 0)
      (withBuffers (setUp ++ [.sdu [1] 0, .beginBuffering, .sdu [2] 5, .endBuffering 6])) = .ok s ∧
      (∀ allocs buf now, (∃ t, s.entity.handleSduWith drbTxConfig allocs buf now = .ok t) ∧
        (AllOrNothing drbTxConfig allocs s.entity buf now ↔
          ¬SduFails drbTxConfig allocs s.entity buf)) ∧
      ∀ allocs now, SdusSucceed drbTxConfig s (.endBuffering now, allocs) →
        ∃ t, s.entity.endBufferingWith drbTxConfig allocs now = .ok t := by
  have hok : (Machine.run (TxSystem.stepWith nullEngine drbTxConfig) (new noCompressor drbTxConfig 0)
    (withBuffers (setUp ++ [.sdu [1] 0, .beginBuffering, .sdu [2] 5, .endBuffering 6]))).isOk =
      true := by decide +kernel
  obtain ⟨s, hs⟩ := Machine.exists_of_isOk hok
  exact ⟨s, hs, handleSdu_all_or_nothing nullEngine drbTxConfig 0 (by decide) _
    (by decide +kernel) hs⟩

def readyEntity : PdcpEntityTx noCompressor :=
  { PdcpEntityTx.new noCompressor drbTxConfig 0 with
    secConfig := some ⟨1, false⟩, desiredBufferSize := 1000 }

/-- The SDU whose header finds no room stays in the window, and the next one runs into it. -/
theorem headerless_sdu_stays :
    Machine.run (TxSystem.stepWith nullEngine drbTxConfig) (new noCompressor drbTxConfig 0)
        (withBuffers setUp) = .ok ⟨readyEntity, [], [], 1⟩ ∧
      ¬AllOrNothing drbTxConfig ⟨true, false⟩ readyEntity [1] 0 ∧
      Machine.run (TxSystem.stepWith nullEngine drbTxConfig) ⟨readyEntity, [], [], 1⟩
        [(.sdu [1] 0, [⟨true, false⟩]), (.sdu [2] 1, [])] = .error .addSn := by
  refine ⟨rfl, fun h => ?_, rfl⟩
  have hsame := h (by decide +kernel) _ rfl
  exact absurd hsame.sdus (by decide +kernel)

end TxSystem

end Ocudu.Pdcp
