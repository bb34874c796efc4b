import Ocudu.Rlc.RxWindow

/-! Runs of the receiving entity: the order of the state variables, the safety of the window
accesses and assertions, and t-Reassembly. -/

namespace Ocudu.Rlc.RlcRxAmEntity

open SeqNum Machine

variable {s t : RlcRxAmEntity} {r hs nh k : Nat}

def stopPos (s : RlcRxAmEntity) (r hs : Nat) : Nat := min hs (r + s.maxNofSnPerStatusReport)

theorem maxNofSnPerStatusReport_pos : 0 < s.maxNofSnPerStatusReport := by
  unfold maxNofSnPerStatusReport
  cases h : s.cfg.maxSnPerStatus with
  | none => exact RlcAmSnSize.window_pos
  | some n => exact (s.cfg.maxSnPerStatus_ok n (by rw [h]; rfl)).1

theorem maxNofSnPerStatusReport_le : s.maxNofSnPerStatusReport ≤ s.amWindowSize := by
  unfold maxNofSnPerStatusReport
  cases h : s.cfg.maxSnPerStatus with
  | none => exact Nat.le_refl _
  | some n => exact (s.cfg.maxSnPerStatus_ok n (by rw [h]; rfl)).2

namespace WindowAt

theorem stopSn_eq (h : WindowAt s r hs nh) : s.stopSn = s.stopPos r hs % s.mod := by
  have hmax := maxNofSnPerStatusReport_le (s := s)
  have hbase : s.rxModBase ((s.st.rxNext + s.maxNofSnPerStatusReport) % s.mod) =
      s.maxNofSnPerStatusReport := by
    rw [h.base_window (k := r + s.maxNofSnPerStatusReport) _ (by omega) (by omega)]
    · omega
    · rw [Nat.mod_mod, h.next, Nat.mod_add_mod]
  have hle := h.next_le
  rw [stopSn, hbase, h.base_status, stopPos]
  by_cases hgt : s.maxNofSnPerStatusReport < hs - r
  · rw [if_pos hgt, Nat.min_eq_right (by omega), h.next, Nat.mod_add_mod]
  · rw [if_neg hgt, Nat.min_eq_left (by omega), h.status]

theorem reportLoop_eq (h : WindowAt s r hs nh) {stop fuel i : Nat} (hi : r ≤ i) (his : i ≤ stop)
    (hstop : stop ≤ r + s.amWindowSize) (hfuel : stop - i ≤ fuel) (status : RlcAmStatusPdu) :
    s.reportLoop (stop % s.mod) fuel (i % s.mod) status =
      (List.range' i (stop - i)).foldlM (fun status j => s.reportSn (j % s.mod) status) status := by
  have hbase := fun j (hj : r ≤ j) (hj' : j ≤ stop) =>
    h.base_window (k := j) (Nat.mod_mod j s.mod) hj (by omega)
  induction fuel generalizing i status with
  | zero =>
    obtain rfl : i = stop := by omega
    rw [RlcRxAmEntity.reportLoop, if_neg (by omega), Nat.sub_self]
    rfl
  | succ fuel ih =>
    rw [RlcRxAmEntity.reportLoop, hbase i hi his, hbase stop (by omega) (Nat.le_refl _)]
    rcases Nat.lt_or_eq_of_le his with hlt | rfl
    · rw [if_pos (by omega), show stop - i = (stop - (i + 1)) + 1 by omega, List.range'_succ,
        List.foldlM_cons]
      refine bind_congr fun status' => ?_
      rw [nextSn_abs]
      exact ih (by omega) hlt (by omega) status'
    · rw [if_neg (by omega), Nat.sub_self]
      rfl

theorem refreshStatusReport_eq (h : WindowAt s r hs nh) :
    s.refreshStatusReport =
      ((List.range' r (s.stopPos r hs - r)).foldlM (fun status j => s.reportSn (j % s.mod) status)
        s.statusOwnedByWriter.reset).map (fun status =>
          { s with
            statusOwnedByWriter := { status with ackSn := s.stopPos r hs % s.mod } }.storeStatusReport) := by
  have hnext := h.next_le
  have hstat := h.status_le
  have hhigh := h.highest_le
  have hm := mod_eq (s := s)
  have hpos := maxNofSnPerStatusReport_pos (s := s)
  rw [RlcRxAmEntity.refreshStatusReport, h.stopSn_eq]
  nth_rewrite 1 [h.next]
  rw [h.reportLoop_eq (Nat.le_refl r) (by unfold stopPos; omega) (by unfold stopPos; omega)
    (by unfold stopPos; lia)]
  rfl

end WindowAt

def GapsKnown (s : RlcRxAmEntity) : Prop :=
  ∀ sn info, s.rxWindow.lookup sn = some info → info.fullyReceived = false →
    ∃ segs, info.sduData = .segments segs ∧ (RlcRxAmSduInfo.inventory segs 0).1 = false

theorem pushSoNack_error {status : RlcAmStatusPdu} {sn a b : Nat} {f : Fault}
    (h : pushSoNack status sn a b = .error f) : f = .soOrder := by
  unfold pushSoNack at h
  dsimp only at h
  split at h
  · cases h
    rfl
  · cases h

theorem reportSegments_error {sn lastSo : Nat} {segs : List RlcRxAmSduSegment} {haveLast : Bool}
    {status : RlcAmStatusPdu} {f : Fault}
    (h : reportSegments sn segs lastSo haveLast status = .error f) : f = .soOrder := by
  induction segs generalizing lastSo haveLast status with
  | nil =>
    rw [reportSegments] at h
    split at h
    · cases h
    · exact pushSoNack_error h
  | cons segm rest ih =>
    rw [reportSegments] at h
    rcases bind_eq_error.mp h with hpush | ⟨status', -, hrest⟩
    · unfold reportGap at hpush
      split at hpush
      · exact pushSoNack_error hpush
      · cases hpush
    · exact ih hrest

theorem reportSn_error (hgaps : GapsKnown s) {sn : Nat} {status : RlcAmStatusPdu} {f : Fault}
    (h : s.reportSn sn status = .error f) : f = .soOrder := by
  rw [reportSn] at h
  cases hl : s.rxWindow.lookup sn with
  | none => rw [hl] at h; cases h
  | some info =>
    rw [hl] at h
    dsimp only at h
    cases hfull : info.fullyReceived with
    | true => rw [if_pos hfull] at h; cases h
    | false =>
      obtain ⟨segs, hsegs, -⟩ := hgaps sn info hl hfull
      rw [if_neg (by simp [hfull]), hsegs] at h
      exact reportSegments_error h

theorem foldlM_report_error (hgaps : GapsKnown s) {l : List Nat} {status : RlcAmStatusPdu}
    {f : Fault}
    (h : l.foldlM (fun status j => s.reportSn (j % s.mod) status) status = .error f) :
    f = .soOrder := by
  induction l generalizing status with
  | nil => cases h
  | cons j l ih =>
    rw [List.foldlM_cons] at h
    rcases bind_eq_error.mp h with hj | ⟨status', -, hrest⟩
    · exact reportSn_error hgaps hj
    · exact ih hrest

structure SameWindow (s t : RlcRxAmEntity) : Prop where
  cfg : t.cfg = s.cfg
  st : t.st = s.st
  rxWindow : t.rxWindow = s.rxWindow
  timer : t.reassemblyTimerRunning = s.reassemblyTimerRunning

namespace SameWindow

theorem refl (s : RlcRxAmEntity) : SameWindow s s := ⟨rfl, rfl, rfl, rfl⟩

theorem inv (h : SameWindow s t) (hinv : Inv s r hs nh) : Inv t r hs nh := by
  obtain ⟨cfg, st, w, running⟩ := t
  obtain ⟨hcfg, hst, hw, hrun⟩ := h
  dsimp only at hcfg hst hw hrun
  subst hcfg hst hw hrun
  exact { hinv with }

theorem gapsKnown (h : SameWindow s t) (hgaps : GapsKnown s) : GapsKnown t := by
  intro sn info hl
  rw [h.rxWindow] at hl
  exact hgaps sn info hl

end SameWindow

theorem WindowAt.refreshStatusReport_cases (h : WindowAt s r hs nh) (hgaps : GapsKnown s) :
    s.refreshStatusReport = .error .soOrder ∨
      ∃ t, s.refreshStatusReport = .ok t ∧ SameWindow s t := by
  rw [h.refreshStatusReport_eq]
  cases hf : (List.range' r (s.stopPos r hs - r)).foldlM
      (fun status j => s.reportSn (j % s.mod) status) s.statusOwnedByWriter.reset with
  | error f =>
    left
    rw [foldlM_report_error hgaps hf]
    rfl
  | ok status => exact Or.inr ⟨_, rfl, ⟨rfl, rfl, rfl, rfl⟩⟩

theorem WindowAt.onFunctionExit_cases (h : WindowAt s r hs nh) (hgaps : GapsKnown s)
    (changed requested : Bool) :
    s.onFunctionExit changed requested = .error .soOrder ∨
      ∃ t, s.onFunctionExit changed requested = .ok t ∧ SameWindow s t := by
  rw [onFunctionExit]
  split
  · rcases h.refreshStatusReport_cases hgaps with herr | ⟨t, hok, hsame⟩
    · exact Or.inl (by rw [herr]; rfl)
    · refine Or.inr ⟨{ t with doStatus := t.doStatus || requested }, by rw [hok]; rfl, ?_⟩
      exact ⟨hsame.cfg, hsame.st, hsame.rxWindow, hsame.timer⟩
  · exact Or.inr ⟨_, rfl, ⟨rfl, rfl, rfl, rfl⟩⟩

theorem placedInfo_gaps (header : RlcAmPduHeader) (payload : List UInt8)
    (hinc : (s.placedInfo header payload).2.fullyReceived = false) :
    ∃ segs, (s.placedInfo header payload).2.sduData = .segments segs ∧ (RlcRxAmSduInfo.inventory segs 0).1 = false := by
  unfold placedInfo at hinc ⊢
  split at hinc
  · cases hinc
  · rw [if_neg ‹_›]
    dsimp only [RlcRxAmSduInfo.updateSegmentInventory] at hinc ⊢
    revert hinc
    unfold RlcRxAmSduInfo.storeSegment
    split
    · exact fun hinc => ⟨_, rfl, hinc⟩
    · exact fun hinc => ⟨_, rfl, hinc⟩

theorem Placed.entry {info : RlcRxAmSduInfo} {r' hs' : Nat} (h : Placed s t k info r hs nh r' hs')
    {sn : Nat} {entry : RlcRxAmSduInfo} (hl : t.rxWindow.lookup sn = some entry) :
    sn = k % s.mod ∧ entry = released info ∨ s.rxWindow.lookup sn = some entry := by
  have hm : t.mod = s.mod := by rw [h.frame]; rfl
  obtain ⟨i, hri, hi, rfl⟩ := h.inv.window.only sn entry hl
  rw [hm, h.lookup i hri (by omega)] at hl
  split at hl
  · rename_i hik
    cases hl
    exact Or.inl ⟨by rw [hm, hik], rfl⟩
  · rw [hm]
    exact Or.inr hl

theorem Placed.gapsKnown {header : RlcAmPduHeader} {payload : List UInt8} {r' hs' : Nat}
    (h : Placed s t k (s.placedInfo header payload).2 r hs nh r' hs') (hgaps : GapsKnown s) :
    GapsKnown t := by
  intro sn entry hl hno
  rcases h.entry hl with ⟨-, rfl⟩ | hold
  · rw [released_fullyReceived] at hno
    obtain ⟨segs, hsegs, hopen⟩ := placedInfo_gaps header payload hno
    exact ⟨segs, by simp [released, hno, hsegs], hopen⟩
  · exact hgaps sn entry hold hno

def dataPdu (s : RlcRxAmEntity) (buf : List UInt8) : Option (RlcAmPduHeader × List UInt8) :=
  if buf.isEmpty then none
  else
    match RlcAmStatusPdu.isControlPdu buf, rlcAmReadDataPduHeader s.cfg.snFieldLength buf with
    | .ok false, .ok (some (header, _)) =>
      if buf.length ≤ header.getPackedSize then none
      else some (header, buf.drop header.getPackedSize)
    | _, _ => none

theorem handlePdu_eq (buf : List UInt8) :
    s.handlePdu buf =
      match s.dataPdu buf with
      | none => .ok (.nothing, s)
      | some (header, payload) => do
        let (outcome, statusChanged, s) ← s.receive header payload
        return (outcome, ← s.onFunctionExit statusChanged header.p) := by
  rw [handlePdu, dataPdu]
  cases buf with
  | nil => rfl
  | cons b rest =>
    obtain ⟨res, hread, -⟩ := read_header_total s.cfg.snFieldLength (b :: rest)
    simp only [List.isEmpty_cons, Bool.false_eq_true, if_false, RlcAmStatusPdu.isControlPdu,
      readByte_cons, ok_bind, pure_eq_ok, handleDataPdu, hread]
    cases hctl : (b.toNat >>> 7 &&& 1 == 0) with
    | true => simp
    | false =>
      cases res with
      | none => simp
      | some hp =>
        obtain ⟨header, payload⟩ := hp
        simp only [Bool.false_eq_true, if_false]
        split <;> rfl

theorem dataPdu_sn_lt {buf payload : List UInt8} {header : RlcAmPduHeader}
    (h : s.dataPdu buf = some (header, payload)) : header.sn < s.mod := by
  unfold dataPdu at h
  obtain ⟨res, hread, hlt⟩ := read_header_total s.cfg.snFieldLength buf
  rw [hread] at h
  split at h
  · cases h
  · split at h
    · rename_i hres
      cases hres
      split at h
      · cases h
      · cases h
        exact hlt _ _ rfl
    · cases h

theorem Inv.handlePdu_cases (hinv : Inv s r hs nh) (buf : List UInt8) :
    s.handlePdu buf = .ok (.nothing, s) ∧ s.dataPdu buf = none ∨
      ∃ header payload, s.dataPdu buf = some (header, payload) ∧
        ((s.insideRxWindow header.sn = false ∨ s.fullyReceived header.sn = true) ∧
          s.handlePdu buf = (s.onFunctionExit false header.p).map (fun t => (.nothing, t)) ∨
        ∃ k t r' hs', header.sn = k % s.mod ∧ r ≤ k ∧ k < r + s.amWindowSize ∧
          s.fullyReceived (k % s.mod) = false ∧
          Placed s t k (s.placedInfo header payload).2 r hs nh r' hs' ∧
          s.handlePdu buf = (t.onFunctionExit (s.placedInfo header payload).1 header.p).map
            (fun t => (s.outcome (s.placedInfo header payload).2, t))) := by
  rw [handlePdu_eq]
  cases hd : s.dataPdu buf with
  | none => exact Or.inl ⟨rfl, rfl⟩
  | some hp =>
    obtain ⟨header, payload⟩ := hp
    refine Or.inr ⟨header, payload, rfl, ?_⟩
    obtain ⟨k, hrk, hsn, hbase⟩ := hinv.exists_abs (dataPdu_sn_lt hd)
    cases hin : s.insideRxWindow header.sn with
    | false =>
      refine Or.inl ⟨Or.inl rfl, ?_⟩
      simp only [RlcRxAmEntity.receive, hin, Bool.not_false, if_true, ok_bind]
      cases s.onFunctionExit false header.p <;> rfl
    | true =>
      cases hfull : s.fullyReceived header.sn with
      | true =>
        refine Or.inl ⟨Or.inr rfl, ?_⟩
        simp only [RlcRxAmEntity.receive, hin, hfull, Bool.not_true, Bool.false_eq_true, if_false,
          if_true, ok_bind]
        cases s.onFunctionExit false header.p <;> rfl
      | false =>
        have hk' : k < r + s.amWindowSize := by
          rw [insideRxWindow, hbase, decide_eq_true_eq] at hin
          omega
        rw [hsn] at hfull
        obtain ⟨t, r', hs', hrun, hp⟩ := hinv.receive payload hsn hrk hk' hfull
        refine Or.inr ⟨k, t, r', hs', hsn, hrk, hk', hfull, hp, ?_⟩
        simp only [hrun, ok_bind]
        cases t.onFunctionExit (s.placedInfo header payload).1 header.p <;> rfl

theorem startReassembly_frame (s : RlcRxAmEntity) (sn : Nat) :
    s.startReassembly sn = { s with
      st := (s.startReassembly sn).st
      reassemblyTimerRunning := (s.startReassembly sn).reassemblyTimerRunning } := by
  unfold startReassembly
  split <;> rfl

theorem Inv.onExpiredReassemblyTimer (hinv : Inv s r hs nh)
    (hrun : s.reassemblyTimerRunning = true) {u : RlcRxAmEntity}
    (hu : u = { s with reassemblyTimerRunning := false }) :
    ∃ v hs', Inv v r hs' nh ∧ hs ≤ hs' ∧ hs' ≤ nh ∧
      v = { s with st := v.st, reassemblyTimerRunning := v.reassemblyTimerRunning } ∧
      u.onExpiredReassemblyTimer =
        v.refreshStatusReport.map (fun t => { t with doStatus := true }) := by
  obtain ⟨trigger, he, hlt, hle, -, hall⟩ := hinv.triggered hrun
  have hw : WindowAt u r hs nh := by rw [hu]; exact { hinv.toWindowAt with }
  have hoff : u.reassemblyTimerRunning = false := by rw [hu]
  have hfr : u.fullyReceived = s.fullyReceived := by rw [hu]; rfl
  have hum : u.mod = s.mod := by rw [hu]; rfl
  have htr : u.st.rxNextStatusTrigger = trigger % u.mod := by rw [hum, hu]; exact he
  have hlast : r < nh → u.rxWindow.contains ((nh - 1) % u.mod) = true := by
    rw [hum, hu]
    exact hinv.last
  have hnext := hw.next_le
  have hhigh := hw.highest_le
  have hm := mod_eq (s := u)
  obtain ⟨hs', hfirst, h1, h2, -, hend⟩ :=
    hw.firstMissing u.mod (j := trigger) (by omega) hle (by omega)
  have hmono : hs ≤ hs' := by
    by_contra hgt
    rw [hum, hfr, hall hs' h1 (by omega) (by omega)] at hend
    cases hend
  have hvalid : ∀ i, r < i → i ≤ nh → u.validAckSn (i % u.mod) = true := by
    intro i hi hi'
    rw [validAckSn, hw.base_window (k := i) (Nat.mod_mod _ _) (by omega) (by omega)]
    simp only [Bool.and_eq_true, decide_eq_true_eq]
    omega
  have hw' : WindowAt { u with st := { u.st with rxHighestStatus := hs' % u.mod } } r hs' nh :=
    { hw with status := rfl, next_le := by omega, status_le := h2 }
  obtain ⟨running, trigger', heq, ht, -⟩ := hw'.startReassembly (k := hs') (by omega) h2 hlast hoff
  refine ⟨RlcRxAmEntity.startReassembly
    { u with st := { u.st with rxHighestStatus := hs' % u.mod } } (hs' % u.mod), hs', ?_, hmono, h2,
    (startReassembly_frame _ _).trans (by rw [hu]), ?_⟩
  · rw [show RlcRxAmEntity.startReassembly _ (hs' % u.mod) = _ from heq]
    exact
      { hw' with
        next_missing := by
          change u.fullyReceived (r % u.mod) = false
          rw [hum, hfr]
          exact hinv.next_missing
        status_missing := hend
        last := hlast
        triggered := ht }
  · rw [RlcRxAmEntity.onExpiredReassemblyTimer, if_neg (by rw [hoff]; simp),
      if_neg (by rw [htr, hvalid trigger hlt hle]; simp)]
    nth_rewrite 1 [htr]
    rw [hfirst, ok_bind, if_neg (by rw [hvalid hs' (by omega) h2]; simp)]
    change (RlcRxAmEntity.startReassembly _ _).refreshStatusReport >>= _ = _
    cases RlcRxAmEntity.refreshStatusReport _ <;> rfl

structure Follows (s t : RlcRxAmEntity) (r hs nh r' hs' nh' : Nat) : Prop where
  inv : Inv t r' hs' nh'
  gapsKnown : GapsKnown t
  cfg : t.cfg = s.cfg
  next_le : r ≤ r'
  status_le : hs ≤ hs'
  highest_le : nh ≤ nh'
  inside : nh' ≤ r + s.amWindowSize

namespace SameWindow

theorem follows (h : SameWindow s t) (hinv : Inv s r hs nh) (hgaps : GapsKnown s) :
    Follows s t r hs nh r hs nh :=
  ⟨h.inv hinv, h.gapsKnown hgaps, h.cfg, Nat.le_refl _, Nat.le_refl _, Nat.le_refl _,
    hinv.highest_le⟩

theorem after {u : RlcRxAmEntity} {r' hs' nh' : Nat} (h : SameWindow t u)
    (ht : Follows s t r hs nh r' hs' nh') : Follows s u r hs nh r' hs' nh' :=
  { ht with
    inv := h.inv ht.inv
    gapsKnown := h.gapsKnown ht.gapsKnown
    cfg := h.cfg.trans ht.cfg }

theorem missingFrom (h : SameWindow s t) (sn : Nat) : t.missingFrom sn = s.missingFrom sn := by
  obtain ⟨cfg, st, w, running⟩ := t
  obtain ⟨hcfg, hst, hw, -⟩ := h
  dsimp only at hcfg hst hw
  subst hcfg hst hw
  rfl

end SameWindow

theorem Placed.follows {header : RlcAmPduHeader} {payload : List UInt8} {r' hs' : Nat}
    (h : Placed s t k (s.placedInfo header payload).2 r hs nh r' hs') (hinv : Inv s r hs nh)
    (hgaps : GapsKnown s) (hk : k < r + s.amWindowSize) :
    Follows s t r hs nh r' hs' (max nh (k + 1)) where
  inv := h.inv
  gapsKnown := h.gapsKnown hgaps
  cfg := by rw [h.frame]
  next_le := h.next_le
  status_le := h.status_le
  highest_le := Nat.le_max_left _ _
  inside := by
    have := hinv.highest_le
    omega

/-- The same for an SN that is not fully received: anything else is discarded as a duplicate. -/
def Handled (s : RlcRxAmEntity) (buf : List UInt8) : Prop :=
  ∃ header payload, s.dataPdu buf = some (header, payload) ∧ s.insideRxWindow header.sn = true ∧
    s.fullyReceived header.sn = false

theorem Inv.handlePdu (hinv : Inv s r hs nh) (hgaps : GapsKnown s) (buf : List UInt8) :
    s.handlePdu buf = .error .soOrder ∨
      ∃ outcome t r' hs' nh', s.handlePdu buf = .ok (outcome, t) ∧
        Follows s t r hs nh r' hs' nh' ∧
        (Handled s buf → t.missingFrom t.st.rxNext = true → t.reassemblyTimerRunning = true) ∧
        (¬ Handled s buf → SameWindow s t) := by
  have hsame := SameWindow.refl s
  rcases hinv.handlePdu_cases buf with ⟨hrun, hno⟩ | ⟨header, payload, hd, hcases⟩
  · refine Or.inr ⟨.nothing, s, r, hs, nh, hrun, hsame.follows hinv hgaps, ?_, fun _ => hsame⟩
    rintro ⟨header, payload, hd, -⟩
    rw [hno] at hd
    cases hd
  rcases hcases with ⟨hdisc, hrun⟩ | ⟨k, u, r', hs', hsn, hk, hk', hnf, hp, hrun⟩
  · rcases hinv.onFunctionExit_cases hgaps false header.p with herr | ⟨t, hok, ht⟩
    · exact Or.inl (by rw [hrun, herr]; rfl)
    · refine Or.inr ⟨.nothing, t, r, hs, nh, by rw [hrun, hok]; rfl, ht.follows hinv hgaps, ?_,
        fun _ => ht⟩
      rintro ⟨header', payload', hd', hin, hnf⟩
      rw [hd] at hd'
      cases hd'
      rcases hdisc with hout | hdup
      · rw [hin] at hout
        cases hout
      · rw [hnf] at hdup
        cases hdup
  · have hf := hp.follows hinv hgaps hk'
    rcases hf.inv.onFunctionExit_cases hf.gapsKnown (s.placedInfo header payload).1 header.p with
      herr | ⟨t, hok, ht⟩
    · exact Or.inl (by rw [hrun, herr]; rfl)
    · refine Or.inr ⟨_, t, r', hs', _, by rw [hrun, hok]; rfl, ht.after hf, ?_, ?_⟩
      · intro _ hmiss
        rw [ht.timer]
        rw [ht.missingFrom, ht.st] at hmiss
        exact hp.timer hmiss
      · intro hnot
        have hm := mod_eq (s := s)
        refine absurd ⟨header, payload, hd, ?_, by rw [hsn]; exact hnf⟩ hnot
        rw [hsn]
        exact (insideRxWindow_iff hinv.toWindowAt hk (by omega)).mpr hk'

theorem Inv.step (hinv : Inv s r hs nh) (hgaps : GapsKnown s) (e : RxEvent) :
    s.step e = .error .soOrder ∨
      ∃ t r' hs' nh', s.step e = .ok t ∧ Follows s t r hs nh r' hs' nh' ∧
        ∀ buf, e = .pdu buf →
          (Handled s buf → t.missingFrom t.st.rxNext = true → t.reassemblyTimerRunning = true) ∧
          (¬ Handled s buf → SameWindow s t) := by
  have hsame := SameWindow.refl s
  have hfollows := hsame.follows hinv hgaps
  cases e with
  | pdu buf =>
    rcases hinv.handlePdu hgaps buf with herr | ⟨outcome, t, r', hs', nh', hok, hf, hpdu⟩
    · exact Or.inl (by rw [RlcRxAmEntity.step, react, herr]; rfl)
    · refine Or.inr ⟨t, r', hs', nh', by rw [RlcRxAmEntity.step, react, hok]; rfl, hf, ?_⟩
      intro buf' he
      cases he
      exact hpdu
  | reassemblyExpired =>
    rw [RlcRxAmEntity.step, react]
    cases hrun : s.reassemblyTimerRunning with
    | false => exact Or.inr ⟨s, r, hs, nh, rfl, hfollows, by simp⟩
    | true =>
      obtain ⟨v, hs', hi, hle, hle', hv, heq⟩ := hinv.onExpiredReassemblyTimer hrun rfl
      have hcfg : v.cfg = s.cfg := by rw [hv]
      have hwin : v.rxWindow = s.rxWindow := by rw [hv]
      have hgaps' : GapsKnown v := by
        intro sn info hl
        rw [hwin] at hl
        exact hgaps sn info hl
      have hf : Follows s v r hs nh r hs' nh :=
        ⟨hi, hgaps', hcfg, Nat.le_refl _, hle, Nat.le_refl _, hinv.highest_le⟩
      rw [if_pos rfl, heq]
      rcases hi.refreshStatusReport_cases hgaps' with herr | ⟨t, hok, ht⟩
      · exact Or.inl (by rw [herr]; rfl)
      · refine Or.inr ⟨{ t with doStatus := true }, r, hs', nh, by rw [hok]; rfl, ?_, by simp⟩
        exact SameWindow.after ⟨ht.cfg, ht.st, ht.rxWindow, ht.timer⟩ hf
  | statusProhibitExpired =>
    exact Or.inr ⟨_, r, hs, nh, rfl, SameWindow.follows ⟨rfl, rfl, rfl, rfl⟩ hinv hgaps, by simp⟩
  | getStatusPdu =>
    refine Or.inr ⟨_, r, hs, nh, rfl, ?_, by simp⟩
    split
    · exact SameWindow.follows ⟨rfl, rfl, rfl, rfl⟩ hinv hgaps
    · exact hfollows

theorem inv_new (cfg : RlcRxAmConfig) : Inv (new cfg) 0 0 0 where
  next := (Nat.zero_mod _).symm
  status := (Nat.zero_mod _).symm
  highest := (Nat.zero_mod _).symm
  next_le := Nat.le_refl _
  status_le := Nat.le_refl _
  highest_le := Nat.zero_le _
  window := SnWindow.empty (by cases cfg.snFieldLength <;> [exact ⟨11, rfl⟩; exact ⟨17, rfl⟩])
    RlcAmSnSize.window_dvd_mod RlcAmSnSize.mod_pos 0
  capacity := rfl
  next_missing := rfl
  status_missing := rfl
  last := fun h => absurd h (Nat.lt_irrefl 0)
  triggered := fun h => by cases h

theorem gapsKnown_new (cfg : RlcRxAmConfig) : GapsKnown (new cfg) := by
  intro sn info hl
  cases hl

/-- What holds of every state that a run reaches -/
def Held (s : RlcRxAmEntity) : Prop := (∃ r hs nh, Inv s r hs nh) ∧ GapsKnown s

theorem held_new (cfg : RlcRxAmConfig) : Held (new cfg) := ⟨⟨0, 0, 0, inv_new cfg⟩, gapsKnown_new cfg⟩

theorem Held.step (h : Held s) {e : RxEvent} (hok : s.step e = .ok t) : Held t := by
  obtain ⟨⟨r, hs, nh, hinv⟩, hgaps⟩ := h
  rcases hinv.step hgaps e with herr | ⟨t', r', hs', nh', hok', hf, -⟩
  · rw [herr] at hok
    cases hok
  · rw [hok'] at hok
    cases hok
    exact ⟨⟨r', hs', nh', hf.inv⟩, hf.gapsKnown⟩

theorem run_held {cfg : RlcRxAmConfig} {es : List RxEvent} (hrun : run step (new cfg) es = .ok s) : Held s := by
  have hadm : Admits step (fun _ _ => True) (new cfg) es := admits_of_forall (fun _ _ => trivial) _ _
  exact run_invariant Held (fun _ _ _ hi _ hok => hi.step hok) (held_new cfg) hadm hrun

structure Ordered (s : RlcRxAmEntity) : Prop where
  next_le : s.rxModBase s.st.rxNext ≤ s.rxModBase s.st.rxHighestStatus
  status_le : s.rxModBase s.st.rxHighestStatus ≤ s.rxModBase s.st.rxNextHighest
  highest_le : s.rxModBase s.st.rxNextHighest ≤ s.amWindowSize
  next_missing : s.fullyReceived s.st.rxNext = false
  status_missing : s.fullyReceived s.st.rxHighestStatus = false
  window : ∀ sn, s.rxWindow.contains sn = true →
    sn < s.mod ∧ s.rxModBase sn < s.rxModBase s.st.rxNextHighest

/-- No state variable moves backwards: seen from the old RX_Next, each is at least where it was
and at most a window ahead. -/
structure Forward (s t : RlcRxAmEntity) : Prop where
  next : s.rxModBase t.st.rxNext ≤ s.amWindowSize
  status : s.rxModBase s.st.rxHighestStatus ≤ s.rxModBase t.st.rxHighestStatus ∧
    s.rxModBase t.st.rxHighestStatus ≤ s.amWindowSize
  highest : s.rxModBase s.st.rxNextHighest ≤ s.rxModBase t.st.rxNextHighest ∧
    s.rxModBase t.st.rxNextHighest ≤ s.amWindowSize

theorem Inv.ordered (hinv : Inv s r hs nh) : Ordered s where
  next_le := by rw [hinv.base_next]; omega
  status_le := by
    have := hinv.status_le
    rw [hinv.base_status, hinv.base_highest]
    omega
  highest_le := by
    have := hinv.highest_le
    rw [hinv.base_highest]
    omega
  next_missing := by rw [hinv.next]; exact hinv.next_missing
  status_missing := by rw [hinv.status]; exact hinv.status_missing
  window := by
    intro sn hc
    obtain ⟨info, hl⟩ := Option.isSome_iff_exists.mp hc
    obtain ⟨k, hrk, hk, rfl⟩ := hinv.window.only sn info hl
    have := hinv.highest_le
    refine ⟨Nat.mod_lt _ mod_pos, ?_⟩
    rw [hinv.base_highest, hinv.base_window (k := k) (Nat.mod_mod _ _) hrk (by omega)]
    omega

def drbConfig : RlcRxAmConfig where
  snFieldLength := .size12bits
  tStatusProhibit := 10
  maxSnPerStatus := none
  maxSlices := 51
  maxSnPerStatus_ok := by simp

end Ocudu.Rlc.RlcRxAmEntity
