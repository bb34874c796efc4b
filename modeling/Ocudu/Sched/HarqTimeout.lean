import Ocudu.Sched.HarqRun

/-! A bucket of the timeout wheel is emptied without a look at the slots in it. A process is
discarded in the slot that was set for it as long as each timeout is set at most one turn of the
wheel ahead. -/

namespace Ocudu.Sched

def hyperFrame (mu : Nat) : Nat := 2 ^ mu * 10 * 1024

def SlotPoint.IsOf (mu : Nat) (sl : SlotPoint) : Prop :=
  sl.valid = true ∧ sl.numerology = mu ∧ sl.count < hyperFrame mu

instance (mu : Nat) (sl : SlotPoint) : Decidable (sl.IsOf mu) :=
  inferInstanceAs (Decidable (_ ∧ _))

theorem hyperFrame_pos (mu : Nat) : 0 < hyperFrame mu := by
  unfold hyperFrame
  positivity

namespace SlotPoint.IsOf

variable {mu : Nat} {sl : SlotPoint}

theorem slots_eq (h : sl.IsOf mu) : sl.nofSlotsPerHyperSystemFrame = hyperFrame mu := by
  rw [nofSlotsPerHyperSystemFrame, nofSlotsPerFrame, h.2.1, hyperFrame]

theorem hyperFrame_le (h : sl.IsOf mu) : hyperFrame mu ≤ 2 ^ 18 := by
  have hmu : mu ≤ 4 := by
    have hvalid := h.1
    rw [valid, decide_eq_true_eq, nofNumerologies, h.2.1] at hvalid
    omega
  have hpow : 2 ^ mu ≤ 2 ^ 4 := Nat.pow_le_pow_right (by decide) hmu
  unfold hyperFrame
  lia

theorem add_eq (h : sl.IsOf mu) {k : Nat} (hk : k ≤ hyperFrame mu) :
    sl.add k = ⟨mu, (sl.count + k) % hyperFrame mu⟩ := by
  have hle := h.hyperFrame_le
  have hlt := h.2.2
  have hsum : (sl.count + k) % 2 ^ 32 = sl.count + k := Nat.mod_eq_of_lt (by omega)
  rw [SlotPoint.add, h.slots_eq, hsum, h.2.1]

end SlotPoint.IsOf

namespace CellHarqConfig

variable (cfg : CellHarqConfig)

/-- How many slots it takes until a bucket of the wheel comes up again. -/
def turn (mu : Nat) : Nat := min cfg.wheelSize (hyperFrame mu)

variable {cfg}

theorem turn_dvd {mu : Nat} (hmu : hyperFrame mu ≤ 2 ^ 18) : cfg.turn mu ∣ hyperFrame mu := by
  unfold turn
  rcases Nat.le_total (hyperFrame mu) cfg.wheelSize with hle | hle
  · rw [min_eq_right hle]
  · rw [min_eq_left hle]
    obtain ⟨k, hk | hk⟩ := getAllocatorRingSizeGtMin_spec
      ((cfg.maxAckWaitTimeout + getMaxSlotUlAllocDelay cfg.ntnCsKoffset) % 2 ^ 32)
    · have hframe : hyperFrame mu = 10 * 2 ^ (mu + 10) := by
        rw [hyperFrame, Nat.pow_add]
        lia
      rw [wheelSize, hk, hframe] at hle ⊢
      have hexp : k ≤ mu + 10 := (Nat.pow_le_pow_iff_right (by decide)).mp
        (Nat.le_of_mul_le_mul_left hle (by decide))
      exact Nat.mul_dvd_mul_left 10 (Nat.pow_dvd_pow 2 hexp)
    · rw [wheelSize, hk] at hle
      omega

theorem bucket_eq_iff {mu : Nat} {sl sl' : SlotPoint} (hsl : sl.count < hyperFrame mu)
    (hsl' : sl'.count < hyperFrame mu) :
    cfg.bucket sl = cfg.bucket sl' ↔ sl.count % cfg.turn mu = sl'.count % cfg.turn mu := by
  unfold bucket turn
  rcases Nat.le_total (hyperFrame mu) cfg.wheelSize with hle | hle
  · rw [min_eq_right hle, Nat.mod_eq_of_lt hsl, Nat.mod_eq_of_lt hsl', Nat.mod_eq_of_lt (by omega),
      Nat.mod_eq_of_lt (by omega)]
  · rw [min_eq_left hle]

theorem eq_zero_of_bucket_eq {mu k : Nat} {sl : SlotPoint} (hsl : sl.IsOf mu) (hk : k < cfg.turn mu)
    (hb : cfg.bucket sl = cfg.bucket ⟨mu, (sl.count + k) % hyperFrame mu⟩) : k = 0 := by
  rw [bucket_eq_iff hsl.2.2 (Nat.mod_lt _ (hyperFrame_pos mu)),
    Nat.mod_mod_of_dvd _ (cfg.turn_dvd hsl.hyperFrame_le)] at hb
  have hmod : 0 ≡ k [MOD cfg.turn mu] := Nat.ModEq.add_left_cancel' sl.count hb
  exact (hmod.symm.eq_of_lt_of_lt hk (by omega))

end CellHarqConfig

def HarqProcess.timeoutIn (cfg : CellHarqConfig) (h : HarqProcess) : Nat :=
  match h.status with
  | .pendingRetx => cfg.harqRetxTimeout
  | .waitingAck | .empty => h.ackIn + cfg.maxAckWaitTimeout

def HarqDiscard.OnTime (cfg : CellHarqConfig) (d : HarqDiscard) : Prop :=
  d.slot = d.slotTimeout ∧
  match d.status with
  | .waitingAck => d.slotTimeout = d.slotAck.add cfg.maxAckWaitTimeout ∧
      d.elapsed = d.ackIn + cfg.maxAckWaitTimeout
  | .pendingRetx => d.elapsed = cfg.harqRetxTimeout
  | .empty => False

namespace CellHarqRepository

variable {cfg : CellHarqConfig} {mu : Nat} {s t : CellHarqRepository} {r : HarqRef}
  {h p : HarqProcess} {k : Nat}

def InOrder (mu : Nat) (s : CellHarqRepository) : HarqEvent → Prop
  | .slotIndication slTx => slTx.IsOf mu ∧ (s.lastSlInd.valid = true → slTx = s.lastSlInd.add 1)
  | .allocHarq _ _ slAck _ _ | .newRetx _ _ slAck => slAck.IsOf mu ∧ s.lastSlInd.valid = true
  | _ => True

instance (e : HarqEvent) : Decidable (InOrder mu s e) :=
  match e with
  | .slotIndication _ | .allocHarq .. | .newRetx .. => inferInstanceAs (Decidable (_ ∧ _))
  | .stop | .ack .. | .cancelRetxs _ | .deallocHarq _ | .reserveUeHarqs .. | .extendUeHarqs .. |
    .destroyUe _ => .isTrue trivial

def WithinTurn (cfg : CellHarqConfig) (mu : Nat) (s : CellHarqRepository) : HarqEvent → Prop
  | .allocHarq _ _ slAck _ _ | .newRetx _ _ slAck =>
      0 < s.slotsAhead slAck + cfg.maxAckWaitTimeout ∧
      s.slotsAhead slAck + cfg.maxAckWaitTimeout ≤ cfg.turn mu
  | .ack r false => ∀ h ∈ s.find r, h.status = .waitingAck → h.nofRetxs < h.maxNofHarqRetxs →
      0 < cfg.harqRetxTimeout ∧ cfg.harqRetxTimeout ≤ cfg.turn mu
  | _ => True

instance (e : HarqEvent) : Decidable (WithinTurn cfg mu s e) :=
  match e with
  | .allocHarq .. | .newRetx .. => inferInstanceAs (Decidable (_ ∧ _))
  | .ack r false => inferInstanceAs (Decidable (∀ h ∈ s.find r, _))
  | .slotIndication _ | .stop | .ack _ true | .cancelRetxs _ | .deallocHarq _ |
    .reserveUeHarqs .. | .extendUeHarqs .. | .destroyUe _ => .isTrue trivial

structure Due (cfg : CellHarqConfig) (mu : Nat) (s : CellHarqRepository) (h : HarqProcess)
    (k : Nat) : Prop where
  deadline : h.enteredAt + h.timeoutIn cfg = s.indications + k
  slotTimeout : h.slotTimeout = ⟨mu, (s.lastSlInd.count + k) % hyperFrame mu⟩
  slotAck : h.status = .waitingAck → h.slotTimeout = h.slotAck.add cfg.maxAckWaitTimeout

structure Timed (cfg : CellHarqConfig) (mu : Nat) (s : CellHarqRepository) : Prop where
  inv : Inv cfg s
  current : s.lastSlInd.valid = true → s.lastSlInd.IsOf mu
  due : ∀ r h, s.find r = some h → h.status ≠ .empty →
    s.lastSlInd.valid = true ∧ ∃ k, 0 < k ∧ k ≤ cfg.turn mu ∧ Due cfg mu s h k
  discards : ∀ d ∈ s.discards, d.OnTime cfg

theorem timed_new : Timed cfg mu new :=
  ⟨inv_new, by simp [new, SlotPoint.invalid, SlotPoint.valid, SlotPoint.nofNumerologies],
    by simp [find, new], by simp [new]⟩

theorem Due.congr (hd : Due cfg mu s h k) (hl : t.lastSlInd = s.lastSlInd)
    (hn : t.indications = s.indications) : Due cfg mu t h k :=
  ⟨by rw [hn]; exact hd.deadline, by rw [hl]; exact hd.slotTimeout, hd.slotAck⟩

theorem Timed.clears (hs : Timed cfg mu s) (hi : Inv cfg t) (hc : Clears s t) : Timed cfg mu t where
  inv := hi
  current := by
    rw [hc.lastSlInd]
    exact hs.current
  due r h hf hne := by
    obtain ⟨hv, k, h0, hk, hd⟩ := hs.due r h (hc.find r h hf hne) hne
    exact ⟨by rwa [hc.lastSlInd], k, h0, hk, hd.congr hc.lastSlInd hc.indications⟩
  discards := by
    rw [hc.discards]
    exact hs.discards

theorem Timed.puts (hs : Timed cfg mu s) (hi : Inv cfg t) (hp : Puts cfg s t r p)
    (hv : s.lastSlInd.valid = true) (h0 : 0 < k) (hk : k ≤ cfg.turn mu) (hd : Due cfg mu s p k) :
    Timed cfg mu t where
  inv := hi
  current := by
    rw [hp.lastSlInd]
    exact hs.current
  due r' h hf hne := by
    rw [hp.lastSlInd]
    by_cases hr : r' = r
    · subst hr
      rw [hp.find_self] at hf
      cases hf
      exact ⟨hv, k, h0, hk, hd.congr hp.lastSlInd hp.indications⟩
    · rw [hp.find_other hr] at hf
      obtain ⟨hv', k', h0', hk', hd'⟩ := hs.due r' h hf hne
      exact ⟨hv', k', h0', hk', hd'.congr hp.lastSlInd hp.indications⟩
  discards := by
    rw [hp.discards]
    exact hs.discards

theorem count_eq_slotsAhead {slAck : SlotPoint} (hcur : s.lastSlInd.IsOf mu) (hack : slAck.IsOf mu) :
    slAck.count = (s.lastSlInd.count + s.slotsAhead slAck) % hyperFrame mu := by
  have hc := hcur.2.2
  have ha := hack.2.2
  rw [slotsAhead, hack.slots_eq, Nat.add_mod_mod]
  have hsum : s.lastSlInd.count + (slAck.count + (hyperFrame mu - s.lastSlInd.count)) =
      slAck.count + hyperFrame mu := by omega
  rw [hsum, Nat.add_mod_right, Nat.mod_eq_of_lt ha]

theorem due_transmit {slAck : SlotPoint} (hcur : s.lastSlInd.IsOf mu) (hack : slAck.IsOf mu)
    (hturn : s.slotsAhead slAck + cfg.maxAckWaitTimeout ≤ cfg.turn mu) (slTx : SlotPoint) (n : Nat) :
    Due cfg mu s (h.transmit slTx slAck (slAck.add cfg.maxAckWaitTimeout) n s.indications
      (s.slotsAhead slAck)) (s.slotsAhead slAck + cfg.maxAckWaitTimeout) where
  deadline := rfl
  slotTimeout := by
    have hle : cfg.turn mu ≤ hyperFrame mu := min_le_right _ _
    have hadd := hack.add_eq (k := cfg.maxAckWaitTimeout) (by omega)
    have hcount := count_eq_slotsAhead hcur hack
    rw [hcount, Nat.mod_add_mod, Nat.add_assoc] at hadd
    exact hadd
  slotAck := fun _ => rfl

theorem due_setPending (hcur : s.lastSlInd.IsOf mu) (hturn : cfg.harqRetxTimeout ≤ cfg.turn mu) :
    Due cfg mu s (h.setPending (s.lastSlInd.add cfg.harqRetxTimeout) s.indications)
      cfg.harqRetxTimeout where
  deadline := rfl
  slotTimeout := hcur.add_eq (hturn.trans (min_le_right _ _))
  slotAck := by simp [HarqProcess.setPending]

theorem Due.cancel (hd : Due cfg mu s h k) (hw : h.status = .waitingAck) : Due cfg mu s h.cancel k where
  deadline := by
    rw [← hd.deadline]
    simp [HarqProcess.timeoutIn, HarqProcess.cancel, hw]
  slotTimeout := hd.slotTimeout
  slotAck := hd.slotAck

theorem Timed.moves (hs : Timed cfg mu s) (hi : Inv cfg t) {e : HarqEvent} (hm : Moves cfg s t e)
    (hord : InOrder mu s e) (hfit : WithinTurn cfg mu s e) : Timed cfg mu t := by
  cases hm with
  | clears hc => exact hs.clears hi hc
  | alloc hf hp =>
    obtain ⟨hack, hv⟩ := hord
    obtain ⟨h0, hturn⟩ := hfit
    exact hs.puts hi hp hv h0 hturn (due_transmit (hs.current hv) hack hturn _ _)
  | newRetx hf hst hp =>
    obtain ⟨hack, hv⟩ := hord
    obtain ⟨h0, hturn⟩ := hfit
    exact hs.puts hi hp hv h0 hturn (due_transmit (hs.current hv) hack hturn _ _)
  | nack hf hst hlt hp =>
    obtain ⟨h0, hturn⟩ := hfit _ hf hst hlt
    obtain ⟨hv, -⟩ := hs.due _ _ hf (by rw [hst]; decide)
    exact hs.puts hi hp hv h0 hturn (due_setPending (hs.current hv) hturn)
  | cancel hf hst hp =>
    obtain ⟨hv, k, h0, hk, hd⟩ := hs.due _ _ hf (by rw [hst]; decide)
    exact hs.puts hi hp hv h0 hk (hd.cancel hst)

structure Expiring (cfg : CellHarqConfig) (mu : Nat) (slTx : SlotPoint) (n : Nat)
    (s : CellHarqRepository) : Prop where
  lastSlInd : s.lastSlInd = slTx
  indications : s.indications = n
  due : ∀ r h, s.find r = some h → h.status ≠ .empty → ∃ k, k < cfg.turn mu ∧ Due cfg mu s h k
  discards : ∀ d ∈ s.discards, d.OnTime cfg

theorem Timed.expiring (hs : Timed cfg mu s) {slTx : SlotPoint}
    (hnext : s.lastSlInd.valid = true → slTx = s.lastSlInd.add 1) :
    Expiring cfg mu slTx (s.indications + 1) (s.indicated slTx) where
  lastSlInd := rfl
  indications := rfl
  due r h hf hne := by
    obtain ⟨hv, k, h0, hk, hd⟩ := hs.due r h hf hne
    have hcur := hs.current hv
    refine ⟨k - 1, by omega, ?_, ?_, hd.slotAck⟩
    · have hdl := hd.deadline
      simp only [indicated]
      omega
    · have hadd := hcur.add_eq (k := 1) (hyperFrame_pos mu)
      simp only [indicated, hnext hv, hadd, Nat.mod_add_mod]
      rw [hd.slotTimeout, Nat.add_assoc, Nat.add_sub_cancel' h0]
  discards := hs.discards

theorem Expiring.step {slTx : SlotPoint} {n : Nat} (hsl : slTx.IsOf mu)
    (hs : Expiring cfg mu slTx n s) (hf : s.find r = some h) (hne : h.status ≠ .empty)
    (hb : cfg.bucket slTx = cfg.bucket h.slotTimeout)
    (hp : Puts cfg (s.discarding (s.discardOf r h slTx)) t r h.dealloc) :
    Expiring cfg mu slTx n t where
  lastSlInd := hp.lastSlInd.trans hs.lastSlInd
  indications := hp.indications.trans hs.indications
  due r' h' hf' hne' := by
    obtain ⟨k, hk, hd⟩ := hs.due r' h' ((hp.clears rfl).find r' h' hf' hne') hne'
    exact ⟨k, hk, hd.congr hp.lastSlInd hp.indications⟩
  discards d hd := by
    rw [hp.discards] at hd
    rcases List.mem_append.mp hd with hold | hnew
    · exact hs.discards d hold
    · rw [List.mem_singleton] at hnew
      subst hnew
      obtain ⟨k, hk, hdue⟩ := hs.due r h hf hne
      have hslot := hdue.slotTimeout
      have hdl := hdue.deadline
      rw [hs.lastSlInd] at hslot
      rw [hslot] at hb
      cases cfg.eq_zero_of_bucket_eq hsl hk hb
      refine ⟨?_, ?_⟩
      · rw [Nat.add_zero, Nat.mod_eq_of_lt hsl.2.2, ← hsl.2.1] at hslot
        exact hslot.symm
      · cases hst : h.status with
        | empty => exact absurd hst hne
        | waitingAck =>
          simp only [HarqProcess.timeoutIn, hst] at hdl
          simp only [discardOf, hst]
          exact ⟨hdue.slotAck hst, by omega⟩
        | pendingRetx =>
          simp only [HarqProcess.timeoutIn, hst] at hdl
          simp only [discardOf, hst]
          omega

theorem Expiring.timed {slTx : SlotPoint} {n : Nat} (hsl : slTx.IsOf mu)
    (hs : Expiring cfg mu slTx n s) (hi : Inv cfg s)
    (hnil : s.harqTimeoutWheel (cfg.bucket slTx) = []) : Timed cfg mu s where
  inv := hi
  current := fun _ => by rwa [hs.lastSlInd]
  due r h hf hne := by
    obtain ⟨k, hk, hd⟩ := hs.due r h hf hne
    refine ⟨by rw [hs.lastSlInd]; exact hsl.1, k, ?_, hk.le, hd⟩
    by_contra hzero
    cases Nat.eq_zero_of_not_pos hzero
    have hslot := hd.slotTimeout
    rw [hs.lastSlInd, Nat.add_zero, Nat.mod_eq_of_lt hsl.2.2, ← hsl.2.1] at hslot
    have hlinked := hi.linked.wheel_pos hf hne
    simp [view, hslot, hnil] at hlinked
  discards := hs.discards

theorem Timed.slotIndication (hs : Timed cfg mu s) {slTx : SlotPoint}
    (hord : InOrder mu s (.slotIndication slTx)) :
    ∃ t, s.slotIndication cfg slTx = .ok t ∧ Timed cfg mu t := by
  obtain ⟨hsl, hnext⟩ := hord
  obtain ⟨t, ht, hi, hexp, hnil⟩ := slotIndication_rule (P := Expiring cfg mu slTx (s.indications + 1))
    (fun _ _ _ _ _ hP hf hne hb hp => hP.step hsl hf hne hb hp) hs.inv (hs.expiring hnext)
  exact ⟨t, ht, hexp.timed hsl hi hnil⟩

theorem Timed.stop (hs : Timed cfg mu s) (ht : s.stop cfg = .ok t) : Timed cfg mu t := by
  have hy := stop_yields hs.inv
  rw [ht] at hy
  obtain ⟨hi, hempty, hcur, hdisc⟩ := hy
  refine ⟨hi, ?_, fun r h hf hne => absurd (hempty r h hf) hne, ?_⟩
  · rw [hcur]
    intro hv
    cases hv
  · rw [hdisc]
    exact hs.discards

theorem Timed.step (hs : Timed cfg mu s) {e : HarqEvent} (hord : InOrder mu s e)
    (hfit : WithinTurn cfg mu s e) (ht : s.step cfg e = .ok t) : Timed cfg mu t := by
  cases he : e.isMove with
  | true =>
    rcases step_moves hs.inv he with hy | ⟨-, hf⟩
    · rw [ht] at hy
      exact hs.moves hy.1 hy.2 hord hfit
    · rw [ht] at hf
      cases hf
  | false =>
    cases e with
    | slotIndication slTx =>
      obtain ⟨t', ht', hst⟩ := hs.slotIndication hord
      cases ht'.symm.trans ht
      exact hst
    | stop => exact hs.stop ht
    | _ => cases he

/-- In every run whose slots come one after the other and whose timeouts are set within a turn of
the wheel, each process that times out is discarded in its slot. -/
theorem discarded_on_time {es : List HarqEvent}
    (hadm : Machine.Admits (CellHarqRepository.step cfg)
      (fun s e => InOrder mu s e ∧ WithinTurn cfg mu s e) new es)
    (hrun : Machine.run (CellHarqRepository.step cfg) new es = .ok s) :
    ∀ d ∈ s.discards, d.OnTime cfg :=
  (Machine.run_invariant (Timed cfg mu) (fun _ _ _ hs hadm ht => hs.step hadm.1 hadm.2 ht) timed_new
    hadm hrun).discards

def nackRun (n : Nat) : List HarqEvent :=
  [.reserveUeHarqs 0 1, .slotIndication ⟨1, 0⟩, .allocHarq 0 ⟨1, 0⟩ ⟨1, 4⟩ 4 true] ++
    (List.range' 1 5).map (fun c => .slotIndication ⟨1, c⟩) ++ [.ack ⟨0, 0⟩ false] ++
    (List.range' 6 (n - 5)).map (fun c => .slotIndication ⟨1, c⟩)

/-- With a retransmission timeout of 8 slots the process is discarded in slot 13. -/
theorem discarded_on_time_nack :
    ∃ s, Machine.run (CellHarqRepository.step ⟨1, 256, 8, 16, 0⟩) new (nackRun 20) = .ok s ∧
      s.discards ≠ [] ∧ ∀ d ∈ s.discards, d.OnTime ⟨1, 256, 8, 16, 0⟩ := by
  obtain ⟨s, hs⟩ := Machine.exists_of_isOk (r := Machine.run (CellHarqRepository.step
    ⟨1, 256, 8, 16, 0⟩) new (nackRun 20)) (by decide +kernel)
  refine ⟨s, hs, ?_, @discarded_on_time ⟨1, 256, 8, 16, 0⟩ 1 s _ (by decide +kernel) hs⟩
  have hne : (Machine.run (CellHarqRepository.step ⟨1, 256, 8, 16, 0⟩) new (nackRun 20)).map
      (·.discards.isEmpty) = .ok false := by decide +kernel
  rw [hs] at hne
  simpa [Except.map] using hne

/-- A retransmission timeout of 500 ms is cut to 512 slots, and the wheel has 320 buckets: the
process is discarded 192 slots after the NACK, in slot 197 and not in slot 517. -/
theorem discarded_early :
    ∃ s, Machine.run (CellHarqRepository.step ⟨1, 256, 1000, 16, 0⟩) new (nackRun 200) = .ok s ∧
      Machine.Admits (CellHarqRepository.step ⟨1, 256, 1000, 16, 0⟩) (InOrder 1) new (nackRun 200) ∧
      s.discards = [⟨⟨0, 0⟩, .pendingRetx, ⟨1, 197⟩, ⟨1, 517⟩, ⟨1, 4⟩, 192, 4⟩] ∧
      ¬∀ d ∈ s.discards, d.OnTime ⟨1, 256, 1000, 16, 0⟩ := by
  obtain ⟨s, hs⟩ := Machine.exists_of_isOk (r := Machine.run (CellHarqRepository.step
    ⟨1, 256, 1000, 16, 0⟩) new (nackRun 200)) (by decide +kernel)
  have hdisc : (Machine.run (CellHarqRepository.step ⟨1, 256, 1000, 16, 0⟩) new (nackRun 200)).map
      (·.discards) = .ok [⟨⟨0, 0⟩, .pendingRetx, ⟨1, 197⟩, ⟨1, 517⟩, ⟨1, 4⟩, 192, 4⟩] := by
    decide +kernel
  rw [hs] at hdisc
  simp only [Except.map, Except.ok.injEq] at hdisc
  refine ⟨s, hs, by decide +kernel, hdisc, fun hall => ?_⟩
  have hslot := (hall _ (by rw [show s.discards = _ from hdisc]; exact List.mem_cons_self)).1
  cases hslot

end CellHarqRepository

end Ocudu.Sched
