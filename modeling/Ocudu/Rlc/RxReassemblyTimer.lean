import Ocudu.Rlc.RxRun

/-! When a data PDU stops t-Reassembly. -/

namespace Ocudu.Rlc.RlcRxAmEntity

open SeqNum Machine

variable {s t u : RlcRxAmEntity} {r hs nh k : Nat}

def StopRule (s : RlcRxAmEntity) : Prop :=
  s.st.rxNextStatusTrigger = s.st.rxNext ∨
    s.st.rxNextStatusTrigger = s.nextSn s.st.rxNext ∧ s.hasGap s.st.rxNext = false ∨
    s.insideRxWindow s.st.rxNextStatusTrigger = false ∧
      s.st.rxNextStatusTrigger ≠ (s.st.rxNext + s.amWindowSize) % s.mod

def CompletesNext (s : RlcRxAmEntity) (header : RlcAmPduHeader) (payload : List UInt8) : Prop :=
  header.sn = s.st.rxNext ∧ (s.placedInfo header payload).2.fullyReceived = true

instance (s : RlcRxAmEntity) : Decidable (StopRule s) := inferInstanceAs (Decidable (_ ∨ _ ∧ _ ∨ _ ∧ _))

theorem receive_eq (header : RlcAmPduHeader) (payload : List UInt8)
    (hin : s.insideRxWindow header.sn = true) (hnew : s.fullyReceived header.sn = false) :
    s.receive header payload = (do
      let (outcome, statusChanged, u) ← s.receiveUpdates header payload
      return (outcome, statusChanged, ← u.updateReassemblyTimer)) := by
  rw [receive, hin, hnew]
  rfl

namespace Updated

variable {info : RlcRxAmSduInfo} {r' hs' : Nat}

theorem next_moves_iff (h : Updated s u k info r hs nh r' hs') (hinv : Inv s r hs nh)
    (hk : r ≤ k) (hk' : k < r + s.amWindowSize) : r < r' ↔ k = r ∧ info.fullyReceived = true := by
  constructor
  · intro hlt
    have hpassed := h.passed r (Nat.le_refl r) hlt
    by_cases hrk : r = k
    · rw [if_pos hrk] at hpassed
      exact ⟨hrk.symm, hpassed⟩
    · rw [if_neg hrk, hinv.next_missing] at hpassed
      cases hpassed
  · rintro ⟨rfl, hfull⟩
    by_contra hle
    obtain rfl : r' = k := Nat.le_antisymm (Nat.not_lt.mp hle) h.next_le
    have hmissing := h.next_missing
    rw [fullyReceived, h.lookup r' (Nat.le_refl _) (by omega), if_pos rfl, Option.any_some,
      released_fullyReceived, hfull] at hmissing
    cases hmissing

theorem stop_iff (h : Updated s u k info r hs nh r' hs') (hinv : Inv s r hs nh)
    (hk' : k < r + s.amWindowSize) (hrun : s.reassemblyTimerRunning = true) :
    ∃ stop, u.stopsReassembly = .ok stop ∧
      ((stop = true ↔ StopRule u) ↔
        ¬(s.st.rxNextStatusTrigger = (r + s.amWindowSize) % s.mod ∧ r' = r)) := by
  have hm := mod_eq (s := s)
  have hw := range_lt_amWindowSize (s := s)
  have hum : u.mod = s.mod := by rw [h.frame]; rfl
  have huw : u.amWindowSize = s.amWindowSize := by rw [h.frame]; rfl
  have htrigger : u.st.rxNextStatusTrigger = s.st.rxNextStatusTrigger := by rw [h.frame]
  have hhigh := hinv.highest_le
  have hlow := h.window.next_le
  have hmid := h.window.status_le
  have hr := h.next_le
  obtain ⟨trigger, he, hlt, hle, hin, -⟩ := h.triggered (by rw [h.frame]; exact hrun)
  have hnext := h.window.next
  rw [hum] at he hin hnext
  -- positions are told apart by their residues, as they are all in one cycle
  have hinj : ∀ a b, r ≤ a → a < r + s.mod → r ≤ b → b < r + s.mod →
      (a % s.mod = b % s.mod ↔ a = b) := fun a b ha ha' hb hb' =>
    ⟨fun hab => mod_inj_of_window (a := r) ha ha' hb hb' hab, fun hab => by rw [hab]⟩
  have hedge : s.st.rxNextStatusTrigger = (r + s.amWindowSize) % s.mod ↔ trigger = r + s.amWindowSize := by
    rw [← htrigger, he]
    exact hinj _ _ (by omega) (by omega) (by omega) (by omega)
  rw [hedge, RlcRxAmEntity.stopsReassembly, StopRule, nextSn, hum, huw, he, hnext, Nat.mod_add_mod,
    Nat.mod_add_mod]
  clear hedge he
  have hsucc : u.rxModBase (r' % s.mod + 1) = 1 := by
    have := h.window.base_next_succ
    rwa [hnext] at this
  rw [hsucc, insideRxWindow, huw]
  have hbehind : trigger < r' → u.rxModBase (trigger % s.mod) = trigger + s.mod - r' := by
    intro hlt'
    have := h.window.base_behind hlt' (by rw [hum]; omega)
    rwa [hum] at this
  have hahead : r' ≤ trigger → u.rxModBase (trigger % s.mod) = trigger - r' := by
    intro hle'
    have := h.window.base_window (k := trigger) (x := trigger % u.mod) (Nat.mod_mod _ _) hle' (by lia)
    rwa [hum] at this
  rcases Nat.lt_trichotomy trigger r' with hpast | rfl | hfuture
  · have hne : trigger % s.mod ≠ (r' + s.amWindowSize) % s.mod := by
      intro heq
      have := mod_inj_of_window (a := trigger) (j := trigger) (k := r' + s.amWindowSize) (by omega)
        (by omega) (by omega) (by lia) heq
      omega
    rw [if_neg (by rw [hbehind hpast]; lia), ok_bind, hbehind hpast]
    refine ⟨true, ?_, ?_⟩
    · dsimp only
      rw [decide_eq_false (by lia), Bool.not_false, Bool.or_true]
      rfl
    · refine iff_of_true (iff_of_true rfl (Or.inr (Or.inr ⟨decide_eq_false (by lia), hne⟩))) ?_
      omega
  · rw [if_neg (by rw [hahead (Nat.le_refl _)]; omega), ok_bind]
    refine ⟨true, ?_, iff_of_true (iff_of_true rfl (Or.inl rfl)) (by omega)⟩
    dsimp only
    rw [beq_self_eq_true, Bool.true_or, Bool.true_or]
    rfl
  · have hneq : trigger % s.mod ≠ r' % s.mod := fun heq => by
      have := (hinj trigger r' (by omega) (by omega) (by omega) (by omega)).mp heq
      omega
    rw [hahead (by omega), beq_false_of_ne hneq]
    by_cases hone : trigger = r' + 1
    · obtain ⟨info', hinfo⟩ := Option.isSome_iff_exists.mp (hin hfuture)
      rw [hone, Nat.add_sub_cancel] at hinfo
      have hgap : u.hasGap (r' % s.mod) = info'.hasGap := by rw [hasGap, hinfo, Option.any_some]
      rw [if_pos (by omega), hinfo]
      dsimp only
      rw [ok_bind, decide_eq_true (by omega), Bool.false_or, Bool.not_true, Bool.or_false, hgap]
      refine ⟨_, rfl, iff_of_true ?_ (by omega)⟩
      constructor
      · intro hstop
        exact Or.inr (Or.inl ⟨by rw [hone], Bool.not_eq_true' _ |>.mp hstop⟩)
      · rintro (heq | ⟨-, hno⟩ | ⟨hout, -⟩)
        · exact absurd heq hneq
        · rw [hno]
          rfl
        · cases hout
    · rw [if_neg (by omega), ok_bind]
      dsimp only
      rw [Bool.false_or, Bool.false_or]
      refine ⟨_, rfl, ?_⟩
      rw [Bool.not_eq_true', decide_eq_false_iff_not]
      have hneq' : trigger % s.mod ≠ (r' + 1) % s.mod := fun heq =>
        hone ((hinj trigger (r' + 1) (by omega) (by omega) (by omega) (by omega)).mp heq)
      by_cases hfar : trigger = r' + s.amWindowSize
      · refine iff_of_false (fun hiff => ?_) (by lia)
        rcases hiff.mp (by omega) with heq | ⟨heq, -⟩ | ⟨-, hne⟩
        · exact hneq heq
        · exact hneq' heq
        · exact hne (by rw [hfar])
      · refine iff_of_true (iff_of_false (by lia) ?_) (by omega)
        rintro (heq | ⟨heq, -⟩ | ⟨hout, -⟩)
        · exact hneq heq
        · exact hneq' heq
        · lia

end Updated

/-- In every state that a run reaches with t-Reassembly running, a PDU of an SN in the window that
is not fully received stops it as the rule says, unless the trigger is a window ahead of RX_Next and
the PDU does not complete the SDU at RX_Next. -/
theorem reassembly_stopped_iff (cfg : RlcRxAmConfig) (es : List RxEvent) (s : RlcRxAmEntity)
    (header : RlcAmPduHeader) (payload buf : List UInt8) (hs : run step (new cfg) es = .ok s)
    (hrun : s.reassemblyTimerRunning = true) (hpdu : s.dataPdu buf = some (header, payload))
    (hin : s.insideRxWindow header.sn = true) (hnew : s.fullyReceived header.sn = false) :
    ∃ outcome changed u stop, s.receiveUpdates header payload = .ok (outcome, changed, u) ∧
      s.receive header payload = u.updateReassemblyTimer.map (fun t => (outcome, changed, t)) ∧
      u.reassemblyTimerRunning = true ∧ u.stopsReassembly = .ok stop ∧
      ((stop = true ↔ StopRule u) ↔
        ¬(s.st.rxNextStatusTrigger = (s.st.rxNext + s.amWindowSize) % s.mod ∧
          ¬CompletesNext s header payload)) := by
  obtain ⟨⟨r, hst, nh, hinv⟩, hseg⟩ := run_held hs
  obtain ⟨k, hrk, hsn, hbase⟩ := hinv.exists_abs (dataPdu_sn_lt hpdu)
  have hk' : k < r + s.amWindowSize := by
    rw [insideRxWindow, hbase, decide_eq_true_eq] at hin
    omega
  have hm := mod_eq (s := s)
  have hno : s.fullyReceived (k % s.mod) = false := hsn ▸ hnew
  obtain ⟨u, r', hst', hupd, h⟩ := hinv.receiveUpdates payload hsn hrk hk' hno
  obtain ⟨stop, hstop, hiff⟩ := h.stop_iff hinv hk' hrun
  have hmoves : r' = r ↔ ¬CompletesNext s header payload := by
    rw [CompletesNext, hsn, hinv.next]
    have hle := h.next_le
    have heq : k % s.mod = r % s.mod ↔ k = r :=
      ⟨fun he => hinv.inj hrk (by omega) (Nat.le_refl r) (by omega) he, fun he => by rw [he]⟩
    rw [heq, ← h.next_moves_iff hinv hrk hk']
    omega
  refine ⟨_, _, u, stop, hupd, ?_, ?_, hstop, ?_⟩
  · rw [receive_eq header payload hin hnew, hupd, ok_bind]
    dsimp only
    cases u.updateReassemblyTimer <;> rfl
  · rw [h.frame]
    exact hrun
  · rw [hiff, hmoves, hinv.next, Nat.mod_add_mod]

/-- For a PDU that arrives after others: whether the timer runs and the PDU is in the window and new, and
whether the code and the rule stop the timer -/
def stopOf (es : List RxEvent) (buf : List UInt8) : Option (Bool × Bool × Bool) :=
  match run step (new drbConfig) es with
  | .error _ => none
  | .ok s =>
    match s.dataPdu buf with
    | none => none
    | some (header, payload) =>
      match s.receiveUpdates header payload with
      | .error _ => none
      | .ok (_, _, u) =>
        match u.stopsReassembly with
        | .error _ => none
        | .ok stop => some (s.reassemblyTimerRunning && s.insideRxWindow header.sn && !s.fullyReceived header.sn,
            stop, decide (StopRule u))

theorem of_stopOf {es : List RxEvent} {buf : List UInt8} {stop rule : Bool}
    (h : stopOf es buf = some (true, stop, rule)) :
    ∃ s header payload outcome changed u, run step (new drbConfig) es = .ok s ∧
      s.dataPdu buf = some (header, payload) ∧ s.reassemblyTimerRunning = true ∧
      s.insideRxWindow header.sn = true ∧ s.fullyReceived header.sn = false ∧
      s.receiveUpdates header payload = .ok (outcome, changed, u) ∧ u.stopsReassembly = .ok stop ∧
      decide (StopRule u) = rule := by
  unfold stopOf at h
  split at h
  · cases h
  rename_i s hs
  split at h
  · cases h
  rename_i header payload hd
  split at h
  · cases h
  rename_i outcome changed u hu
  split at h
  · cases h
  rename_i stop' hstop
  simp only [Option.some.injEq, Prod.mk.injEq, Bool.and_eq_true, Bool.not_eq_true'] at h
  obtain ⟨⟨⟨hrun, hin⟩, hnew⟩, rfl, hrule⟩ := h
  exact ⟨s, header, payload, outcome, changed, u, hs, hd, hrun, hin, hnew, hu, hstop, hrule⟩

theorem reassembly_stopped_iff_sn0 :
    ∃ s header payload, run step (new drbConfig) [.pdu [0x80, 1, 7]] = .ok s ∧
      s.dataPdu [0x80, 0, 7] = some (header, payload) ∧
      ∃ outcome changed u stop, s.receiveUpdates header payload = .ok (outcome, changed, u) ∧
        s.receive header payload = u.updateReassemblyTimer.map (fun t => (outcome, changed, t)) ∧
        u.reassemblyTimerRunning = true ∧ u.stopsReassembly = .ok stop ∧
        ((stop = true ↔ StopRule u) ↔
          ¬(s.st.rxNextStatusTrigger = (s.st.rxNext + s.amWindowSize) % s.mod ∧
            ¬CompletesNext s header payload)) := by
  obtain ⟨s, header, payload, -, -, -, hs, hpdu, hrun, hin, hnew, -, -, -⟩ :=
    @of_stopOf [.pdu [0x80, 1, 7]] [0x80, 0, 7] true true (by decide +kernel)
  exact ⟨s, header, payload, hs, hpdu,
    reassembly_stopped_iff drbConfig [.pdu [0x80, 1, 7]] s header payload [0x80, 0, 7] hs hrun hpdu hin hnew⟩

/-- Only the last SN of the window has arrived, and then SN 1 does: the timer stops, though the rule
excepts the edge of the window. -/
theorem stopped_at_window_edge :
    ¬ ∀ (cfg : RlcRxAmConfig) (es : List RxEvent) (s u : RlcRxAmEntity) (header : RlcAmPduHeader)
      (payload buf : List UInt8) (outcome : RxOutcome) (changed stop : Bool), run step (new cfg) es = .ok s →
      s.reassemblyTimerRunning = true → s.dataPdu buf = some (header, payload) →
      s.insideRxWindow header.sn = true → s.fullyReceived header.sn = false →
      s.receiveUpdates header payload = .ok (outcome, changed, u) → u.stopsReassembly = .ok stop →
      (stop = true ↔ StopRule u) := by
  intro h
  obtain ⟨s, header, payload, outcome, changed, u, hs, hpdu, hrun, hin, hnew, hupd, hstop, hrule⟩ :=
    @of_stopOf [.pdu [0x87, 0xff, 7]] [0x80, 1, 7] true false (by decide +kernel)
  have hiff := h _ _ s u header payload _ outcome changed true hs hrun hpdu hin hnew hupd hstop
  exact of_decide_eq_false hrule (hiff.mp rfl)

end Ocudu.Rlc.RlcRxAmEntity
