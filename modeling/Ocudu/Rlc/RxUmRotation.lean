import Ocudu.Rlc.RxUmWindow

/-! The UM receiver and rotations of the SN space. All its comparisons are made relative to
RX_Next_Highest, but for one of plain integers, which is right as long as the SNs it may compare
do not wrap around. -/

namespace Ocudu.SeqNum

variable {m : Nat}

theorem dist_add_add (hm : 0 < m) (a x k : Nat) : dist m (a + k) (x + k) = dist m a x := by
  apply dist_unique (dist_lt hm a x)
  rw [show a + k + dist m a x = a + dist m a x + k by omega, Nat.add_mod, add_dist_mod hm,
    ← Nat.add_mod]

theorem add_mod_inj {x y : Nat} (k : Nat) (hx : x < m) (hy : y < m) :
    (x + k) % m = (y + k) % m ↔ x = y := by
  constructor
  · intro h
    have hmod : x ≡ y [MOD m] := Nat.ModEq.add_right_cancel' k h
    exact hmod.eq_of_lt_of_lt hx hy
  · intro h
    rw [h]

end Ocudu.SeqNum

namespace Ocudu.Rlc

open SeqNum

namespace RlcRxUmEntity

variable {k : Nat} {s t : RlcRxUmEntity} {sn x : Nat}

/-- `t` is `s` with all SNs moved on by `k`. -/
structure Rotated (k : Nat) (s t : RlcRxUmEntity) : Prop where
  cfg : t.cfg = s.cfg
  rxNextReassembly : t.st.rxNextReassembly = (s.st.rxNextReassembly + k) % s.mod
  rxTimerTrigger : t.st.rxTimerTrigger = (s.st.rxTimerTrigger + k) % s.mod
  rxNextHighest : t.st.rxNextHighest = (s.st.rxNextHighest + k) % s.mod
  window : ∀ x < s.mod, t.rxWindow.lookup ((x + k) % s.mod) = s.rxWindow.lookup x
  running : t.reassemblyTimerRunning = s.reassemblyTimerRunning
  sdus : t.sdus = s.sdus
  lostPdus : t.lostPdus = s.lostPdus

namespace Rotated

section

variable (h : Rotated k s t)
include h

theorem mod_eq : t.mod = s.mod := by simp only [mod, h.cfg]

theorem umWindowSize_eq : t.umWindowSize = s.umWindowSize := by
  simp only [umWindowSize, h.cfg]

theorem rxModBase_add (x : Nat) : t.rxModBase (x + k) = s.rxModBase x := by
  rw [rxModBase_eq, rxModBase_eq, h.mod_eq, h.umWindowSize_eq, h.rxNextHighest, ← dist_mod_left,
    Nat.mod_add_mod, dist_mod_left, Nat.add_right_comm, dist_add_add s.mod_pos]

theorem rxModBase (x : Nat) : t.rxModBase ((x + k) % s.mod) = s.rxModBase x := by
  rw [← h.mod_eq, rxModBase_mod, h.rxModBase_add]

theorem rxModBase_reassembly (j : Nat) :
    t.rxModBase (t.st.rxNextReassembly + j) = s.rxModBase (s.st.rxNextReassembly + j) := by
  rw [h.rxNextReassembly, RlcRxUmEntity.rxModBase_add, h.rxModBase, RlcRxUmEntity.rxModBase_add, h.mod_eq]

theorem rxModBase_edge :
    t.rxModBase t.st.rxNextReassembly = s.rxModBase s.st.rxNextReassembly := h.rxModBase_reassembly 0

theorem snInReassemblyWindow (x : Nat) :
    t.snInReassemblyWindow ((x + k) % s.mod) = s.snInReassemblyWindow x := by
  rw [snInReassemblyWindow_eq, snInReassemblyWindow_eq, h.rxModBase, h.umWindowSize_eq]

theorem fullyReceived (hx : x < s.mod) :
    t.fullyReceived ((x + k) % s.mod) = s.fullyReceived x := by
  rw [RlcRxUmEntity.fullyReceived, RlcRxUmEntity.fullyReceived, h.window x hx]

theorem nextSn (x : Nat) : t.nextSn ((x + k) % s.mod) = (s.nextSn x + k) % s.mod := by
  rw [RlcRxUmEntity.nextSn, RlcRxUmEntity.nextSn, h.mod_eq, Nat.mod_add_mod, Nat.mod_add_mod,
    Nat.add_right_comm]

end

theorem discardSn (h : Rotated k s t) (hx : x < s.mod) :
    Rotated k (s.discardSn x) (t.discardSn ((x + k) % s.mod)) := by
  unfold RlcRxUmEntity.discardSn
  rw [h.window x hx]
  cases s.rxWindow.lookup x with
  | none => exact ⟨h.cfg, h.rxNextReassembly, h.rxTimerTrigger, h.rxNextHighest, h.window, h.running,
      h.sdus, congrArg (· + 1) h.lostPdus⟩
  | some info =>
    refine ⟨h.cfg, h.rxNextReassembly, h.rxTimerTrigger, h.rxNextHighest, ?_, h.running, h.sdus, ?_⟩
    · intro y hy
      have hiff : (y + k) % s.mod = (x + k) % s.mod ↔ y = x := add_mod_inj k hy hx
      have hwin := h.window y hy
      simp only [RlcRxUmEntity.mod] at hiff hwin ⊢
      simp only [CircularMap.lookup_erase, hiff, hwin]
    · simp only [h.lostPdus]

theorem walk {cond : RlcRxUmEntity → Nat → Bool} {fuel a : Nat} {s' : RlcRxUmEntity}
    (hcond : ∀ s t x, Rotated k s t → x < s.mod → cond t ((x + k) % s.mod) = cond s x)
    (h : Rotated k s t) (hsn : sn < s.mod) (hw : RlcRxUmEntity.walk cond fuel sn s = .ok (a, s')) :
    ∃ t', RlcRxUmEntity.walk cond fuel ((sn + k) % s.mod) t = .ok ((a + k) % s.mod, t') ∧
      Rotated k s' t' := by
  induction fuel generalizing s t sn with
  | zero =>
    cases hc : cond s sn with
    | true =>
      rw [walk.eq_def] at hw
      simp [hc] at hw
    | false =>
      rw [walk_stop hc, Except.ok.injEq, Prod.mk.injEq] at hw
      rw [← hw.1, ← hw.2]
      exact ⟨t, walk_stop ((hcond s t sn h hsn).trans hc), h⟩
  | succ fuel ih =>
    cases hc : cond s sn with
    | true =>
      rw [walk_next hc] at hw
      have hone := discarded_discardSn s hsn
      have hmod : (s.discardSn sn).mod = s.mod := by simp only [RlcRxUmEntity.mod, hone.cfg]
      obtain ⟨t', ht', hr⟩ := ih (h.discardSn hsn) (by rw [hmod]; exact Nat.mod_lt _ s.mod_pos) hw
      rw [hmod] at ht'
      exact ⟨t', by rw [walk_next ((hcond s t sn h hsn).trans hc), h.nextSn, ht'], hr⟩
    | false =>
      rw [walk_stop hc, Except.ok.injEq, Prod.mk.injEq] at hw
      rw [← hw.1, ← hw.2]
      exact ⟨t, walk_stop ((hcond s t sn h hsn).trans hc), h⟩

theorem removeReceived {a : Nat} {s' : RlcRxUmEntity} (h : Rotated k s t) (hsn : sn < s.mod)
    (hw : s.removeReceived sn = .ok (a, s')) :
    ∃ t', t.removeReceived ((sn + k) % s.mod) = .ok ((a + k) % s.mod, t') ∧ Rotated k s' t' := by
  unfold RlcRxUmEntity.removeReceived at hw ⊢
  rw [h.mod_eq]
  refine h.walk (fun s t x h hx => ?_) hsn hw
  rw [rxModBase_highest, rxModBase_highest, h.rxModBase, h.umWindowSize_eq, h.fullyReceived hx]

theorem discardOutside {a : Nat} {s' : RlcRxUmEntity} (h : Rotated k s t) (hsn : sn < s.mod)
    (hw : s.discardOutside sn = .ok (a, s')) :
    ∃ t', t.discardOutside ((sn + k) % s.mod) = .ok ((a + k) % s.mod, t') ∧ Rotated k s' t' := by
  unfold RlcRxUmEntity.discardOutside at hw ⊢
  rw [h.mod_eq]
  refine h.walk (fun s t x h _ => ?_) hsn hw
  rw [h.snInReassemblyWindow]

theorem discardExpired {a : Nat} {s' : RlcRxUmEntity} (h : Rotated k s t) (hsn : sn < s.mod)
    (hw : s.discardExpired sn = .ok (a, s')) :
    ∃ t', t.discardExpired ((sn + k) % s.mod) = .ok ((a + k) % s.mod, t') ∧ Rotated k s' t' := by
  unfold RlcRxUmEntity.discardExpired at hw ⊢
  rw [h.mod_eq]
  refine h.walk (fun s t x h hx => ?_) hsn hw
  rw [rxModBase_highest, rxModBase_highest, h.rxTimerTrigger, h.rxModBase, h.rxModBase,
    h.umWindowSize_eq, h.fullyReceived hx]

theorem setRxNextReassembly {m : Nat} (h : Rotated k s t) (hm : s.mod = m) (a : Nat) :
    Rotated k (s.setRxNextReassembly a) (t.setRxNextReassembly ((a + k) % m)) :=
  ⟨h.cfg, by rw [← hm]; rfl, h.rxTimerTrigger, h.rxNextHighest, h.window, h.running, h.sdus, h.lostPdus⟩

section

variable (h : Rotated k s t)
include h

theorem writeSn (hs : s.Inv) (ht : t.Inv) (hsn : sn < s.mod) (info : RlcRxUmSduInfo) :
    Rotated k (s.writeSn sn info) (t.writeSn ((sn + k) % s.mod) info) where
  cfg := h.cfg
  rxNextReassembly := h.rxNextReassembly
  rxTimerTrigger := h.rxTimerTrigger
  rxNextHighest := h.rxNextHighest
  window x hx := by
    have hx' : x < s.mod := hx
    have hdvd : s.umWindowSize ∣ s.mod := RlcUmSnSize.window_dvd_mod
    have hcell : (x + k) % s.mod % s.umWindowSize = (sn + k) % s.mod % s.umWindowSize ↔
        x % s.umWindowSize = sn % s.umWindowSize := by
      rw [Nat.mod_mod_of_dvd _ hdvd, Nat.mod_mod_of_dvd _ hdvd]
      exact ⟨fun hmod => Nat.ModEq.add_right_cancel' k hmod, fun hmod => Nat.ModEq.add_right k hmod⟩
    rw [show (s.writeSn sn info).mod = s.mod from rfl, lookup_writeSn ht.capacity,
      lookup_writeSn hs.capacity, h.umWindowSize_eq]
    simp only [add_mod_inj k hx' hsn, hcell, h.window x hx']
  running := h.running
  sdus := h.sdus
  lostPdus := h.lostPdus

theorem sduInfo (hsn : sn < s.mod) : t.sduInfo ((sn + k) % s.mod) = s.sduInfo sn := by
  rw [RlcRxUmEntity.sduInfo, RlcRxUmEntity.sduInfo, h.window sn hsn]

theorem deliverSn (hsn : sn < s.mod) (info : RlcRxUmSduInfo) :
    Rotated k (s.deliverSn sn info) (t.deliverSn ((sn + k) % s.mod) info) := by
  obtain ⟨hcfg, hst, hrun, -⟩ := deliverSn_frame s sn info
  obtain ⟨hcfg', hst', hrun', -⟩ := deliverSn_frame t ((sn + k) % s.mod) info
  have hmod : (s.deliverSn sn info).mod = s.mod := by simp only [RlcRxUmEntity.mod, hcfg]
  refine ⟨?_, ?_, ?_, ?_, ?_, ?_, ?_, ?_⟩
  · rw [hcfg, hcfg', h.cfg]
  · rw [hst, hst', hmod, h.rxNextReassembly]
  · rw [hst, hst', hmod, h.rxTimerTrigger]
  · rw [hst, hst', hmod, h.rxNextHighest]
  · intro x hx
    rw [hmod] at hx ⊢
    rw [lookup_deliverSn, lookup_deliverSn, h.window x hx, h.window sn hsn]
    simp only [add_mod_inj k hx hsn]
  · rw [hrun, hrun', h.running]
  · unfold RlcRxUmEntity.deliverSn
    rw [h.cfg]
    cases info.reassembleSdu s.cfg.maxSlices <;> simp [h.sdus]
  · unfold RlcRxUmEntity.deliverSn
    rw [h.cfg]
    cases info.reassembleSdu s.cfg.maxSlices <;> simp [h.lostPdus]

theorem completeSdu {s' : RlcRxUmEntity} (hs : s.Inv) (ht : t.Inv)
    (hsn : sn < s.mod) (info : RlcRxUmSduInfo) (hw : s.completeSdu sn info = .ok s') :
    ∃ t', t.completeSdu ((sn + k) % s.mod) info = .ok t' ∧ Rotated k s' t' := by
  have hd := h.deliverSn hsn info
  have hid := hs.deliverSn sn info
  have hmod : (s.deliverSn sn info).mod = s.mod := by
    simp only [RlcRxUmEntity.mod, (deliverSn_frame s sn info).1]
  have hedge : (sn + k) % s.mod = (t.deliverSn ((sn + k) % s.mod) info).st.rxNextReassembly ↔
      sn = (s.deliverSn sn info).st.rxNextReassembly := by
    rw [hd.rxNextReassembly, hmod]
    exact add_mod_inj k hsn (by rw [← hmod]; exact hid.sn_lt)
  rw [completeSdu_eq] at hw ⊢
  by_cases heq : sn = (s.deliverSn sn info).st.rxNextReassembly
  · rw [if_pos heq] at hw
    rw [if_pos (hedge.mpr heq)]
    obtain ⟨⟨a, u⟩, hu, hw⟩ := bind_eq_ok.mp hw
    cases hw
    rw [Nat.mod_eq_of_lt hid.sn_lt] at hu
    obtain ⟨u', hu', hr⟩ := hd.removeReceived hid.sn_lt hu
    rw [← hd.rxNextReassembly] at hu'
    rw [Nat.mod_eq_of_lt (ht.deliverSn ((sn + k) % s.mod) info).sn_lt, hu']
    have hcfg := (walk_frame hid.sn_lt hu).1
    exact ⟨_, rfl, hr.setRxNextReassembly (congrArg (·.snFieldLength.mod) hcfg) a⟩
  · rw [if_neg heq] at hw
    rw [if_neg fun hc => heq (hedge.mp hc)]
    cases hw
    exact ⟨_, rfl, hd⟩

theorem withHighest (sn : Nat) :
    Rotated k (s.withHighest sn) (t.withHighest ((sn + k) % s.mod)) :=
  ⟨h.cfg, h.rxNextReassembly, h.rxTimerTrigger, h.nextSn sn, h.window, h.running, h.sdus, h.lostPdus⟩

theorem slideWindow {s' : RlcRxUmEntity} (hs : s.Inv) (ht : t.Inv)
    (hw : s.slideWindow sn = .ok s') :
    ∃ t', t.slideWindow ((sn + k) % s.mod) = .ok t' ∧ Rotated k s' t' := by
  rw [slideWindow_eq] at hw ⊢
  obtain ⟨⟨a, u⟩, hu, hw⟩ := bind_eq_ok.mp hw
  obtain ⟨⟨b, v⟩, hv, hw⟩ := bind_eq_ok.mp hw
  cases hw
  rw [Nat.mod_eq_of_lt hs.sn_lt] at hu
  obtain ⟨hucfg, ha⟩ := walk_frame (s := s.withHighest sn) hs.sn_lt hu
  have humod : u.mod = s.mod := congrArg (·.snFieldLength.mod) hucfg
  have ha' : a < u.mod := by rwa [humod]
  have hvmod : v.mod = s.mod := (congrArg (·.snFieldLength.mod) (walk_frame ha' hv).1).trans humod
  obtain ⟨u', hu', hru⟩ := (h.withHighest sn).discardOutside hs.sn_lt hu
  have hedge : (s.st.rxNextReassembly + k) % s.mod = t.st.rxNextReassembly % t.mod := by
    rw [Nat.mod_eq_of_lt ht.sn_lt, h.rxNextReassembly]
  rw [show (s.withHighest sn).mod = s.mod from rfl] at hu'
  obtain ⟨v', hv', hrv⟩ := hru.removeReceived ha' hv
  rw [humod] at hv'
  refine ⟨v'.setRxNextReassembly ((b + k) % s.mod), ?_, hrv.setRxNextReassembly hvmod b⟩
  rw [← hedge]
  rw [hu', ok_bind]
  simp only [hv', ok_bind, pure_eq_ok]

theorem afterStore {s' : RlcRxUmEntity} (hs : s.Inv) (ht : t.Inv)
    (hsn : sn < s.mod) (hw : s.afterStore sn = .ok s') :
    ∃ t', t.afterStore ((sn + k) % s.mod) = .ok t' ∧ Rotated k s' t' := by
  have hslide : ∀ s', (if s.snInReassemblyWindow sn then .ok s else s.slideWindow sn) = .ok s' →
      ∃ t', (if s.snInReassemblyWindow sn then .ok t else t.slideWindow ((sn + k) % s.mod)) = .ok t' ∧
        Rotated k s' t' := by
    intro s' hw
    cases hin : s.snInReassemblyWindow sn with
    | true =>
      rw [hin] at hw
      cases hw
      exact ⟨t, rfl, h⟩
    | false =>
      rw [hin] at hw
      exact h.slideWindow hs ht hw
  unfold RlcRxUmEntity.afterStore at hw ⊢
  rw [h.window sn hsn, h.snInReassemblyWindow]
  cases hl : s.rxWindow.lookup sn with
  | none =>
    rw [hl] at hw
    exact hslide s' hw
  | some info =>
    rw [hl] at hw
    cases hfull : info.fullyReceived with
    | true =>
      simp only [hfull, if_true] at hw ⊢
      exact h.completeSdu hs ht hsn info hw
    | false =>
      simp only [hfull, Bool.false_eq_true, if_false] at hw ⊢
      exact hslide s' hw

end

theorem startReassembly (h : Rotated k s t) (hs : s.Inv) :
    Rotated k s.startReassembly t.startReassembly := by
  unfold RlcRxUmEntity.startReassembly
  have hgap : t.hasGap t.st.rxNextHighest = s.hasGap s.st.rxNextHighest := by
    rw [RlcRxUmEntity.hasGap, RlcRxUmEntity.hasGap, h.rxNextHighest, h.window _ hs.highest_lt]
  rw [rxModBase_highest, rxModBase_highest, h.umWindowSize_eq, h.rxModBase_reassembly, hgap]
  split_ifs
  · exact ⟨h.cfg, h.rxNextReassembly, h.rxNextHighest, h.rxNextHighest, h.window, rfl, h.sdus,
      h.lostPdus⟩
  · exact h

theorem withRunning (h : Rotated k s t) (b : Bool) : Rotated k
    { s with reassemblyTimerRunning := b } { t with reassemblyTimerRunning := b } :=
  ⟨h.cfg, h.rxNextReassembly, h.rxTimerTrigger, h.rxNextHighest, h.window, rfl, h.sdus, h.lostPdus⟩

theorem updateReassemblyTimer (h : Rotated k s t) (hs : s.Inv)
    (hstop : s.reassemblyTimerRunning = true → t.stopsReassembly = s.stopsReassembly) :
    Rotated k s.updateReassemblyTimer t.updateReassemblyTimer := by
  unfold RlcRxUmEntity.updateReassemblyTimer
  cases hrun : s.reassemblyTimerRunning with
  | false =>
    have hrun' : t.reassemblyTimerRunning = false := h.running.trans hrun
    simp only [hrun, hrun', Bool.false_and, Bool.false_eq_true, if_false]
    exact h.startReassembly hs
  | true =>
    have hrun' : t.reassemblyTimerRunning = true := h.running.trans hrun
    simp only [hrun', hstop hrun, Bool.true_and]
    cases s.stopsReassembly with
    | true =>
      simp only [if_true, Bool.false_eq_true, if_false]
      exact (h.withRunning false).startReassembly (hs.running false)
    | false =>
      simp only [Bool.false_eq_true, if_false, hrun, hrun', if_true]
      exact h

end Rotated

/-- How far RX_Next_Highest is ahead of RX_Next_Reassembly once `sn` has been received. -/
def spanAfter (s : RlcRxUmEntity) (sn : Nat) : Nat :=
  max s.umWindowSize (s.rxModBase sn + 1) - s.rxModBase s.st.rxNextReassembly

/-- The state variables after a step, seen from RX_Next_Reassembly before it. -/
structure Edges (s t : RlcRxUmEntity) (i h : Nat) : Prop where
  cfg : t.cfg = s.cfg
  rxNextReassembly : t.st.rxNextReassembly = (s.st.rxNextReassembly + i) % s.mod
  rxNextHighest : t.st.rxNextHighest = (s.st.rxNextReassembly + h) % s.mod
  rxTimerTrigger : t.st.rxTimerTrigger = s.st.rxTimerTrigger
  running : t.reassemblyTimerRunning = s.reassemblyTimerRunning
  le : i ≤ h
  ahead : s.umWindowSize - s.rxModBase s.st.rxNextReassembly ≤ h

theorem Inv.highest_eq (hi : s.Inv) : s.st.rxNextHighest =
    (s.st.rxNextReassembly + (s.umWindowSize - s.rxModBase s.st.rxNextReassembly)) % s.mod := by
  have hle := hi.le_highest
  rw [← s.rxModBase_highest] at hle ⊢
  exact eq_reassembly_add hi.highest_lt hle

theorem Inv.edges_refl (hi : s.Inv) :
    Edges s s 0 (s.umWindowSize - s.rxModBase s.st.rxNextReassembly) where
  cfg := rfl
  rxNextReassembly := by rw [Nat.add_zero, Nat.mod_eq_of_lt hi.sn_lt]
  rxNextHighest := hi.highest_eq
  rxTimerTrigger := rfl
  running := rfl
  le := Nat.zero_le _
  ahead := le_rfl

theorem Inv.edges_completeSdu (hi : s.Inv) {info : RlcRxUmSduInfo} (ht : s.completeSdu sn info = .ok t) :
    ∃ i, Edges s t i (s.umWindowSize - s.rxModBase s.st.rxNextReassembly) := by
  obtain ⟨hcfg, hst, hrun, -⟩ := deliverSn_frame s sn info
  have hid := hi.deliverSn sn info
  have hmod : (s.deliverSn sn info).mod = s.mod := by simp only [mod, hcfg]
  have hwin : (s.deliverSn sn info).umWindowSize = s.umWindowSize := by simp only [umWindowSize, hcfg]
  rw [completeSdu_eq] at ht
  split_ifs at ht with heq
  · obtain ⟨j, u, hu, hd, hj, -⟩ := hid.removeReceived
    rw [Nat.mod_eq_of_lt hid.sn_lt, hu] at ht
    cases ht
    rw [hst, rxModBase_congr hcfg hst, hwin] at hj
    refine ⟨j, hd.cfg.trans hcfg, ?_, ?_, ?_, hd.running.trans hrun, by omega, le_rfl⟩
    · simp only [setRxNextReassembly, hst, hmod]
    · simp only [setRxNextReassembly, hd.st, hst]
      exact hi.highest_eq
    · simp only [setRxNextReassembly, hd.st, hst]
  · cases ht
    refine ⟨0, hcfg, ?_, ?_, ?_, hrun, Nat.zero_le _, le_rfl⟩
    · rw [hst, Nat.add_zero, Nat.mod_eq_of_lt hi.sn_lt]
    · rw [hst]
      exact hi.highest_eq
    · rw [hst]

theorem Inv.edges_slideWindow (hi : s.Inv) (hsn : sn < s.mod) (hge : s.umWindowSize ≤ s.rxModBase sn)
    (ht : s.slideWindow sn = .ok t) : ∃ i, Edges s t i (s.spanAfter sn) := by
  have hle := hi.le_highest
  have hlt := s.rxModBase_lt sn
  have hspan : s.spanAfter sn = s.rxModBase sn + 1 - s.rxModBase s.st.rxNextReassembly := by
    rw [spanAfter, max_eq_right (by omega)]
  have hslide : s.slideBy sn = s.rxModBase sn + 1 - s.umWindowSize := rfl
  obtain ⟨j, u, hu, hd, hj, hiu⟩ := hi.discardOutside hge
  obtain ⟨l, v, hv, hdv, hl, -⟩ := hiu.removeReceived
  rw [slideWindow_eq, hu, ok_bind] at ht
  simp only [hv, ok_bind, pure_eq_ok, Except.ok.injEq] at ht
  subst ht
  have hmod : u.mod = s.mod := congrArg (·.snFieldLength.mod) hd.cfg
  have hwin : u.umWindowSize = s.umWindowSize := congrArg (·.snFieldLength.window) hd.cfg
  have hlow := hi.rxModBase_lowEdge hge
  rw [rxModBase_congr hd.cfg hd.st, hwin, hj, hlow] at hl
  refine ⟨j + l, hdv.cfg.trans hd.cfg, ?_, ?_, ?_, hdv.running.trans hd.running, by omega, by lia⟩
  · simp only [setRxNextReassembly, hmod]
    rw [Nat.mod_add_mod, Nat.add_assoc]
  · have hsn' := eq_reassembly_add hsn (hle.trans hge)
    simp only [setRxNextReassembly, hdv.st, hd.st, withHighest, nextSn]
    nth_rewrite 1 [hsn']
    rw [Nat.mod_add_mod, hspan]
    congr 1
    lia
  · simp only [setRxNextReassembly, hdv.st, hd.st, withHighest]

theorem Inv.edges_afterStore (hi : s.Inv) (hsn : sn < s.mod) (ht : s.afterStore sn = .ok t) :
    ∃ i h, h ≤ s.spanAfter sn ∧ Edges s t i h := by
  have hstay : s.umWindowSize - s.rxModBase s.st.rxNextReassembly ≤ s.spanAfter sn :=
    Nat.sub_le_sub_right (le_max_left _ _) _
  have hslide : (if s.snInReassemblyWindow sn then .ok s else s.slideWindow sn) = .ok t →
      ∃ i h, h ≤ s.spanAfter sn ∧ Edges s t i h := by
    rw [snInReassemblyWindow_eq]
    intro ht
    split_ifs at ht with hin
    · cases ht
      exact ⟨0, _, hstay, hi.edges_refl⟩
    · obtain ⟨i, he⟩ := hi.edges_slideWindow hsn (by simpa using hin) ht
      exact ⟨i, _, le_rfl, he⟩
  unfold RlcRxUmEntity.afterStore at ht
  cases hl : s.rxWindow.lookup sn with
  | none =>
    rw [hl] at ht
    exact hslide ht
  | some info =>
    rw [hl] at ht
    cases hfull : info.fullyReceived with
    | true =>
      simp only [hfull, if_true] at ht
      obtain ⟨i, he⟩ := hi.edges_completeSdu ht
      exact ⟨i, _, hstay, he⟩
    | false =>
      simp only [hfull, Bool.false_eq_true, if_false] at ht
      exact hslide ht

def TriggerAhead (s : RlcRxUmEntity) : Prop :=
  s.reassemblyTimerRunning = true →
    s.rxModBase s.st.rxNextReassembly ≤ s.rxModBase s.st.rxTimerTrigger ∧
      s.rxModBase s.st.rxTimerTrigger ≤ s.umWindowSize

theorem triggerAhead_startReassembly (hi : s.Inv) (hrun : s.reassemblyTimerRunning = false) :
    s.startReassembly.TriggerAhead := by
  unfold startReassembly
  split_ifs
  · intro _
    have hhigh := s.rxModBase_highest
    exact ⟨hi.le_highest.trans hhigh.ge, hhigh.le⟩
  · intro hr
    rw [hrun] at hr
    cases hr

theorem Edges.stopsReassembly_eq {s' t' : RlcRxUmEntity} {i h τ n : Nat} (hr : Rotated k s t)
    (hr' : Rotated k s' t') (he : Edges s s' i h) (hi : s'.Inv)
    (hτ : s.st.rxTimerTrigger = (s.st.rxNextReassembly + τ) % s.mod) (hτn : τ ≤ n) (hn : h ≤ n)
    (hs : s.st.rxNextReassembly + n < s.mod) (ht : t.st.rxNextReassembly + n < s.mod) :
    t'.stopsReassembly = s'.stopsReassembly := by
  have hmod : s'.mod = s.mod := congrArg (·.snFieldLength.mod) he.cfg
  have hle := he.le
  -- neither run wraps around between the SNs that are compared
  have hplain : ∀ j ≤ n, (s.st.rxNextReassembly + j) % s.mod = s.st.rxNextReassembly + j ∧
      ((s.st.rxNextReassembly + j) % s.mod + k) % s.mod = t.st.rxNextReassembly + j := by
    intro j hj
    refine ⟨Nat.mod_eq_of_lt (by omega), ?_⟩
    rw [Nat.mod_add_mod, Nat.add_right_comm, ← Nat.mod_add_mod, ← hr.rxNextReassembly,
      Nat.mod_eq_of_lt (by omega)]
  obtain ⟨hR, hR'⟩ := hplain i (hle.trans hn)
  obtain ⟨hH, hH'⟩ := hplain h hn
  obtain ⟨hT, hT'⟩ := hplain τ hτn
  have htR : t'.st.rxNextReassembly = t.st.rxNextReassembly + i := by
    rw [hr'.rxNextReassembly, hmod, he.rxNextReassembly, hR']
  have htH : t'.st.rxNextHighest = t.st.rxNextReassembly + h := by
    rw [hr'.rxNextHighest, hmod, he.rxNextHighest, hH']
  have htT : t'.st.rxTimerTrigger = t.st.rxNextReassembly + τ := by
    rw [hr'.rxTimerTrigger, hmod, he.rxTimerTrigger, hτ, hT']
  have hsR : s'.st.rxNextReassembly = s.st.rxNextReassembly + i := he.rxNextReassembly.trans hR
  have hsH : s'.st.rxNextHighest = s.st.rxNextReassembly + h := he.rxNextHighest.trans hH
  have hsT : s'.st.rxTimerTrigger = s.st.rxNextReassembly + τ := by rw [he.rxTimerTrigger, hτ, hT]
  have hwin : t'.snInReassemblyWindow t'.st.rxTimerTrigger =
      s'.snInReassemblyWindow s'.st.rxTimerTrigger := by
    rw [hr'.rxTimerTrigger, hr'.snInReassemblyWindow]
  have hgap : t'.hasNoGap t'.st.rxNextHighest = s'.hasNoGap s'.st.rxNextHighest := by
    rw [RlcRxUmEntity.hasNoGap, RlcRxUmEntity.hasNoGap, hr'.rxNextHighest, hr'.window _ hi.highest_lt]
  unfold RlcRxUmEntity.stopsReassembly
  rw [hwin, hgap, htR, htH, htT, hsR, hsH, hsT]
  simp only [Nat.add_le_add_iff_left, ne_eq, Nat.add_left_cancel_iff, Nat.add_assoc]

theorem Edges.triggerAhead {s' : RlcRxUmEntity} {i h τ n : Nat} (he : Edges s s' i h) (hi : s'.Inv)
    (hτ : s.st.rxTimerTrigger = (s.st.rxNextReassembly + τ) % s.mod) (hτh : τ ≤ h) (hn : h ≤ n)
    (hs : s.st.rxNextReassembly + n < s.mod) (hstop : s'.stopsReassembly = false) :
    s'.TriggerAhead := by
  intro _
  have hmod : s'.mod = s.mod := congrArg (·.snFieldLength.mod) he.cfg
  have hle := he.le
  have hedge := hi.le_highest
  have hw := s'.mod_eq
  have hpos := s'.window_pos
  -- the plain comparison did not find the trigger behind RX_Next_Reassembly
  have hlt : i < τ := by
    have hcmp : ¬s'.st.rxTimerTrigger ≤ s'.st.rxNextReassembly := by
      intro hc
      simp [RlcRxUmEntity.stopsReassembly, hc] at hstop
    rw [he.rxTimerTrigger, he.rxNextReassembly, hτ, Nat.mod_eq_of_lt (by omega),
      Nat.mod_eq_of_lt (by omega)] at hcmp
    omega
  have hbase : ∀ j, i ≤ j → s'.rxModBase ((s.st.rxNextReassembly + j) % s.mod) =
      (s'.rxModBase s'.st.rxNextReassembly + (j - i)) % s'.mod := by
    intro j hj
    rw [← rxModBase_add, ← hmod, rxModBase_mod, he.rxNextReassembly, ← hmod, ← rxModBase_mod _ (_ + (j - i)),
      Nat.mod_add_mod, rxModBase_mod]
    congr 1
    omega
  have hspan := hbase h hle
  rw [← he.rxNextHighest, rxModBase_highest] at hspan
  have hsum : s'.rxModBase s'.st.rxNextReassembly + (h - i) = s'.umWindowSize := by
    by_cases hsmall : s'.rxModBase s'.st.rxNextReassembly + (h - i) < s'.mod
    · rw [hspan, Nat.mod_eq_of_lt hsmall]
    · rw [Nat.mod_eq_sub_mod (by omega), Nat.mod_eq_of_lt (by omega)] at hspan
      omega
  rw [he.rxTimerTrigger, hτ, hbase τ hlt.le, Nat.mod_eq_of_lt (by omega)]
  omega

/-- While t-Reassembly runs, the SNs from RX_Next_Reassembly to RX_Next_Highest and to the one
behind `sn` do not wrap around. -/
def NoWrapAt (s : RlcRxUmEntity) (sn : Nat) : Prop :=
  s.reassemblyTimerRunning = true → s.st.rxNextReassembly + s.spanAfter sn < s.mod

theorem Rotated.spanAfter (h : Rotated k s t) (sn : Nat) :
    t.spanAfter ((sn + k) % s.mod) = s.spanAfter sn := by
  rw [RlcRxUmEntity.spanAfter, RlcRxUmEntity.spanAfter, h.rxModBase, h.umWindowSize_eq, h.rxModBase_edge]

theorem Rotated.timerAfterStore {s' t' : RlcRxUmEntity} (hr : Rotated k s t) (hs : s.Inv)
    (hta : s.TriggerAhead) (hsn : sn < s.mod) (hs' : s.afterStore sn = .ok s') (hi' : s'.Inv)
    (hr' : Rotated k s' t') (hws : s.NoWrapAt sn) (hwt : t.NoWrapAt ((sn + k) % s.mod)) :
    Rotated k s'.updateReassemblyTimer t'.updateReassemblyTimer ∧
      s'.updateReassemblyTimer.TriggerAhead := by
  obtain ⟨i, h, hspan, he⟩ := hs.edges_afterStore hsn hs'
  cases hrun : s.reassemblyTimerRunning with
  | false =>
    have hrun' : s'.reassemblyTimerRunning = false := he.running.trans hrun
    refine ⟨hr'.updateReassemblyTimer hi' (by simp [hrun']), ?_⟩
    simp only [RlcRxUmEntity.updateReassemblyTimer, hrun', Bool.false_and, Bool.false_eq_true, if_false]
    exact triggerAhead_startReassembly hi' hrun'
  | true =>
    have hrun' : s'.reassemblyTimerRunning = true := he.running.trans hrun
    obtain ⟨hge, hle⟩ := hta hrun
    have hτ := eq_reassembly_add hs.trigger_lt hge
    have hτh : s.rxModBase s.st.rxTimerTrigger - s.rxModBase s.st.rxNextReassembly ≤ h :=
      (Nat.sub_le_sub_right hle _).trans he.ahead
    have hns := hws hrun
    have hnt := hwt (hr.running.trans hrun)
    rw [hr.spanAfter, hr.mod_eq] at hnt
    have hstop := he.stopsReassembly_eq hr hr' hi' hτ (hτh.trans hspan) hspan hns hnt
    refine ⟨hr'.updateReassemblyTimer hi' (fun _ => hstop), ?_⟩
    cases hst : s'.stopsReassembly with
    | true =>
      simp only [RlcRxUmEntity.updateReassemblyTimer, hrun', hst, Bool.and_self, if_true,
        Bool.false_eq_true, if_false]
      exact triggerAhead_startReassembly (hi'.running false) rfl
    | false =>
      simp only [RlcRxUmEntity.updateReassemblyTimer, hrun', hst, Bool.and_false, Bool.false_eq_true,
        if_false, if_true]
      exact he.triggerAhead hi' hτ hτh hspan hns hst

end RlcRxUmEntity

def putSn : RlcUmSnSize → Nat → List UInt8 → List UInt8
  | .size6bits, sn, octet :: pdu => UInt8.ofNat (octet.toNat / 64 * 64 + sn) :: pdu
  | .size12bits, sn, octet :: _ :: pdu =>
    UInt8.ofNat (octet.toNat / 16 * 16 + sn / 256) :: UInt8.ofNat (sn % 256) :: pdu
  | _, _, buf => buf

def rotatePdu (sz : RlcUmSnSize) (k : Nat) (buf : List UInt8) : List UInt8 :=
  match rlcUmReadDataPduHeader sz buf with
  | none => buf
  | some (header, _) => if header.si = .fullSdu then buf else putSn sz ((header.sn + k) % sz.mod) buf

def RlcUmPduHeader.rotate (k : Nat) (header : RlcUmPduHeader) : RlcUmPduHeader :=
  if header.si = .fullSdu then header else { header with sn := (header.sn + k) % header.snSize.mod }

variable {sz : RlcUmSnSize} {buf rest : List UInt8} {header : RlcUmPduHeader} {k sn : Nat}

theorem umRead_putSn (h : rlcUmReadDataPduHeader sz buf = some (header, rest))
    (hfull : header.si ≠ .fullSdu) (hsn : sn < sz.mod) :
    rlcUmReadDataPduHeader sz (putSn sz sn buf) = some ({ header with sn }, rest) ∧
      (putSn sz sn buf).length = buf.length ∧
      (putSn sz sn buf).drop (rlcUmNrPackedLength header) = buf.drop (rlcUmNrPackedLength header) := by
  cases buf with
  | nil => cases h
  | cons octet pdu =>
    have hlt : octet.toNat < 256 := octet.toNat_lt
    cases sz with
    | size6bits =>
      simp only [RlcUmSnSize.mod_size6bits] at hsn
      have hput : (UInt8.ofNat (octet.toNat / 64 * 64 + sn)).toNat = octet.toNat / 64 * 64 + sn := by
        rw [toNat_ofNat_uint8, Nat.mod_eq_of_lt (by omega)]
      have htop : (octet.toNat / 64 * 64 + sn) >>> 6 = octet.toNat >>> 6 := by
        rw [Nat.shiftRight_eq_div_pow, Nat.shiftRight_eq_div_pow]
        lia
      have hlow : (octet.toNat / 64 * 64 + sn) &&& 0x3f = sn := by
        rw [and_3f]
        omega
      simp only [rlcUmReadDataPduHeader] at h
      split_ifs at h with h1
      obtain ⟨so, hso, heq⟩ := Option.map_eq_some_iff.mp h
      cases heq
      simp only at hfull
      refine ⟨?_, rfl, ?_⟩
      · simp only [putSn, rlcUmReadDataPduHeader, hput, htop, hlow, hfull, false_and, if_false, hso,
          Option.map_some]
      · simp only [rlcUmNrPackedLength, if_neg hfull, rlcUmPduHeaderSizeNoSo, putSn]
        rw [Nat.add_comm, List.drop_succ_cons, List.drop_succ_cons]
    | size12bits =>
      simp only [RlcUmSnSize.mod_size12bits] at hsn
      have hput : (UInt8.ofNat (octet.toNat / 16 * 16 + sn / 256)).toNat =
          octet.toNat / 16 * 16 + sn / 256 := by
        rw [toNat_ofNat_uint8, Nat.mod_eq_of_lt (by lia)]
      have htop : (octet.toNat / 16 * 16 + sn / 256) >>> 6 = octet.toNat >>> 6 := by
        rw [Nat.shiftRight_eq_div_pow, Nat.shiftRight_eq_div_pow]
        lia
      have hres : (octet.toNat / 16 * 16 + sn / 256) >>> 4 = octet.toNat >>> 4 := by
        rw [Nat.shiftRight_eq_div_pow, Nat.shiftRight_eq_div_pow]
        lia
      have hsn' : ((octet.toNat / 16 * 16 + sn / 256) &&& 0x0f) <<< 8 |||
          ((UInt8.ofNat (sn % 256)).toNat &&& 0xff) = sn := by
        rw [and_0f, and_ff, toNat_ofNat_uint8, shiftLeft_or_of_lt _ (by omega)]
        omega
      simp only [rlcUmReadDataPduHeader] at h
      split_ifs at h with h1 h2 h3
      · cases h
        exact absurd h3 hfull
      · cases pdu with
        | nil => cases h
        | cons low pdu =>
          obtain ⟨so, hso, heq⟩ := Option.map_eq_some_iff.mp h
          cases heq
          simp only at hfull
          refine ⟨?_, rfl, ?_⟩
          · simp only [putSn, rlcUmReadDataPduHeader, hput, htop, hres, hfull, false_and, if_false, if_neg h2,
              hsn', hso, Option.map_some]
          · simp only [rlcUmNrPackedLength, if_neg hfull, rlcUmPduHeaderSizeNoSo, putSn]
            rw [Nat.add_comm, List.drop_succ_cons, List.drop_succ_cons, List.drop_succ_cons,
              List.drop_succ_cons]

theorem umParsePdu_rotatePdu (sz : RlcUmSnSize) (k : Nat) (buf : List UInt8) :
    umParsePdu sz (rotatePdu sz k buf) =
      (umParsePdu sz buf).map fun (header, payload) => (header.rotate k, payload) := by
  unfold rotatePdu
  cases hread : rlcUmReadDataPduHeader sz buf with
  | none => simp [umParsePdu, hread]
  | some res =>
    obtain ⟨header, rest⟩ := res
    have hsz := (umReadSn_lt hread).1
    by_cases hfull : header.si = .fullSdu
    · simp only [if_pos hfull, umParsePdu, hread]
      split_ifs with hlen
      · rfl
      · simp [RlcUmPduHeader.rotate, hfull]
    · obtain ⟨hread', hlen', hdrop⟩ := umRead_putSn hread hfull (Nat.mod_lt (header.sn + k) sz.mod_pos)
      have hpacked : rlcUmNrPackedLength { header with sn := (header.sn + k) % sz.mod } =
          rlcUmNrPackedLength header := rfl
      simp only [if_neg hfull, umParsePdu, hread, hread', hlen', hpacked, hdrop]
      split_ifs with hlen
      · rfl
      · simp [RlcUmPduHeader.rotate, hfull, hsz]

namespace RlcRxUmEntity

variable {s t : RlcRxUmEntity}

theorem Rotated.handleSegment (hr : Rotated k s t) (hs : s.Inv) (ht : t.Inv) (hta : s.TriggerAhead)
    (hsn : header.sn < s.mod) (payload : List UInt8)
    (hws : s.snInvalidForRxBuffer header.sn = false → s.NoWrapAt header.sn)
    (hwt : t.snInvalidForRxBuffer ((header.sn + k) % s.mod) = false →
      t.NoWrapAt ((header.sn + k) % s.mod)) :
    ∃ s' t', s.handleSegment header payload = .ok s' ∧
      t.handleSegment { header with sn := (header.sn + k) % s.mod } payload = .ok t' ∧
      Rotated k s' t' ∧ s'.TriggerAhead := by
  have hinv : t.snInvalidForRxBuffer ((header.sn + k) % s.mod) = s.snInvalidForRxBuffer header.sn := by
    rw [snInvalidForRxBuffer_eq, snInvalidForRxBuffer_eq, hr.rxModBase, hr.rxModBase_edge]
  rw [hinv] at hwt
  unfold RlcRxUmEntity.handleSegment
  simp only [hinv]
  cases hold : s.snInvalidForRxBuffer header.sn with
  | true => exact ⟨s, t, rfl, rfl, hr, hta⟩
  | false =>
    have hge : s.rxModBase s.st.rxNextReassembly ≤ s.rxModBase header.sn := by
      rw [snInvalidForRxBuffer_eq] at hold
      simpa using hold
    have hlt : (header.sn + k) % s.mod < t.mod := by
      rw [hr.mod_eq]
      exact Nat.mod_lt _ s.mod_pos
    have hge' : t.rxModBase t.st.rxNextReassembly ≤ t.rxModBase ((header.sn + k) % s.mod) := by
      rw [hr.rxModBase, hr.rxModBase_edge]
      exact hge
    have hstored : (s.handleSegmentDataSdu header payload).Inv := hs.writeSn hsn hge _
    have hstored' : (t.handleSegmentDataSdu { header with sn := (header.sn + k) % s.mod } payload).Inv :=
      ht.writeSn hlt hge' _
    have hrs : Rotated k (s.handleSegmentDataSdu header payload)
        (t.handleSegmentDataSdu { header with sn := (header.sn + k) % s.mod } payload) := by
      simp only [handleSegmentDataSdu, hr.sduInfo hsn]
      exact hr.writeSn hs ht hsn _
    obtain ⟨s', hs', hi'⟩ := hstored.afterStore header.sn
    obtain ⟨t', ht', hr'⟩ := hrs.afterStore hstored hstored' hsn hs'
    obtain ⟨hrt, hta'⟩ := hrs.timerAfterStore hstored hta hsn hs' hi' hr' (hws hold) (hwt hold)
    refine ⟨s'.updateReassemblyTimer, t'.updateReassemblyTimer, ?_, ?_, hrt, hta'⟩
    · simp only [Bool.false_eq_true, if_false, hs', ok_bind, pure_eq_ok]
    · have ht'' : (t.handleSegmentDataSdu { header with sn := (header.sn + k) % s.mod }
          payload).afterStore ((header.sn + k) % s.mod) = .ok t' := ht'
      simp only [Bool.false_eq_true, if_false, ht'', ok_bind, pure_eq_ok]

theorem Rotated.onExpiredReassemblyTimer (hr : Rotated k s t) (hs : s.Inv)
    (hrun : s.reassemblyTimerRunning = false) :
    ∃ s' t', s.onExpiredReassemblyTimer = .ok s' ∧ t.onExpiredReassemblyTimer = .ok t' ∧
      Rotated k s' t' ∧ s'.TriggerAhead := by
  obtain ⟨j, u, hu, hd, -, hiu⟩ := hs.discardExpired
  obtain ⟨u', hu', hru⟩ := hr.discardExpired hs.sn_lt hu
  rw [← hr.rxNextReassembly] at hu'
  have hset := hru.setRxNextReassembly (congrArg (·.snFieldLength.mod) hd.cfg)
    ((s.st.rxNextReassembly + j) % s.mod)
  refine ⟨_, _, ?_, ?_, hset.startReassembly hiu.setRxNextReassembly,
    triggerAhead_startReassembly hiu.setRxNextReassembly (hd.running.trans hrun)⟩
  · simp only [RlcRxUmEntity.onExpiredReassemblyTimer, hu, ok_bind, pure_eq_ok]
  · simp only [RlcRxUmEntity.onExpiredReassemblyTimer, hu', ok_bind, pure_eq_ok]
    rfl

end RlcRxUmEntity

def RxUmEvent.rotate (sz : RlcUmSnSize) (k : Nat) : RxUmEvent → RxUmEvent
  | .handlePdu buf => .handlePdu (rotatePdu sz k buf)
  | .expire => .expire

namespace RlcRxUmEntity

variable {s t : RlcRxUmEntity}

/-- A segment that is stored while t-Reassembly runs does not make the SNs in use wrap around. -/
def NoWrap (s : RlcRxUmEntity) : RxUmEvent → Prop
  | .handlePdu buf => ∀ header ∈ (umParsePdu s.cfg.snFieldLength buf).map Prod.fst,
    header.si ≠ .fullSdu → s.snInvalidForRxBuffer header.sn = false → s.NoWrapAt header.sn
  | .expire => True

def newAt (cfg : RlcRxUmConfig) (k : Nat) : RlcRxUmEntity :=
  { new cfg with
    st := { rxNextReassembly := k % cfg.snFieldLength.mod
            rxTimerTrigger := k % cfg.snFieldLength.mod
            rxNextHighest := k % cfg.snFieldLength.mod } }

/-- What two runs that are rotated against each other keep. -/
structure Twin (k : Nat) (s t : RlcRxUmEntity) : Prop where
  rotated : Rotated k s t
  inv : s.Inv
  inv_rotated : t.Inv
  triggerAhead : s.TriggerAhead

theorem Twin.step (h : Twin k s t) (e : RxUmEvent) (hs : s.NoWrap e)
    (ht : t.NoWrap (e.rotate s.cfg.snFieldLength k)) :
    ∃ s' t', s.step e = .ok s' ∧ t.step (e.rotate s.cfg.snFieldLength k) = .ok t' ∧ Twin k s' t' := by
  obtain ⟨hr, hi, hi', hta⟩ := h
  have hpair : (∃ s' t', s.step e = .ok s' ∧ t.step (e.rotate s.cfg.snFieldLength k) = .ok t' ∧
      Rotated k s' t' ∧ s'.TriggerAhead) →
      ∃ s' t', s.step e = .ok s' ∧ t.step (e.rotate s.cfg.snFieldLength k) = .ok t' ∧ Twin k s' t' := by
    rintro ⟨s', t', hs', ht', hr', hta'⟩
    obtain ⟨u, hu, hiu⟩ := hi.step e
    obtain ⟨v, hv, hiv⟩ := hi'.step (e.rotate s.cfg.snFieldLength k)
    cases hs'.symm.trans hu
    cases ht'.symm.trans hv
    exact ⟨s', t', hs', ht', hr', hiu, hiv, hta'⟩
  apply hpair
  cases e with
  | expire =>
    simp only [RxUmEvent.rotate, RlcRxUmEntity.step, hr.running]
    cases hrun : s.reassemblyTimerRunning with
    | false => exact ⟨s, t, rfl, rfl, hr, hta⟩
    | true =>
      exact (hr.withRunning false).onExpiredReassemblyTimer (hi.running false) rfl
  | handlePdu buf =>
    simp only [NoWrap, RxUmEvent.rotate, hr.cfg, umParsePdu_rotatePdu] at hs ht
    simp only [RxUmEvent.rotate, RlcRxUmEntity.step, handlePdu, hr.cfg, umParsePdu_rotatePdu]
    cases hparse : umParsePdu s.cfg.snFieldLength buf with
    | none => exact ⟨s, t, rfl, rfl, hr, hta⟩
    | some res =>
      obtain ⟨header, payload⟩ := res
      by_cases hfull : header.si = .fullSdu
      · simp only [Option.map_some, RlcUmPduHeader.rotate, hfull, if_true]
        exact ⟨_, _, rfl, rfl, ⟨rfl, hr.rxNextReassembly, hr.rxTimerTrigger, hr.rxNextHighest, hr.window,
          hr.running, congrArg (· ++ [payload]) hr.sdus, hr.lostPdus⟩, hta⟩
      · obtain ⟨hsz, hsn⟩ := umParsePdu_lt hparse
        have hmod : header.snSize.mod = s.mod := by rw [hsz, mod]
        simp only [hparse, Option.map_some, Option.mem_def, Option.some.injEq, forall_eq',
          RlcUmPduHeader.rotate, hfull, if_false, hmod] at hs ht ⊢
        exact hr.handleSegment hi hi' hta hsn payload (hs hfull) (ht hfull)

theorem twin_new (cfg : RlcRxUmConfig) (k : Nat) : Twin k (new cfg) (newAt cfg k) where
  rotated := by
    have hstart : k % cfg.snFieldLength.mod = (0 + k) % (new cfg).mod := by
      rw [Nat.zero_add]
      rfl
    refine ⟨rfl, hstart, hstart, hstart, ?_, rfl, rfl, rfl⟩
    intro x _
    simp [newAt, new]
  inv := inv_new cfg
  inv_rotated := by
    have hlt : k % cfg.snFieldLength.mod < cfg.snFieldLength.mod := Nat.mod_lt _ RlcUmSnSize.mod_pos
    refine ⟨hlt, hlt, hlt, rfl, (rxModBase_highest (newAt cfg k)).le, ?_⟩
    simp [newAt, new]
  triggerAhead := by
    intro hrun
    cases hrun

instance (s : RlcRxUmEntity) (sn : Nat) : Decidable (s.NoWrapAt sn) := inferInstanceAs (Decidable (_ → _))

instance (s : RlcRxUmEntity) : (e : RxUmEvent) → Decidable (s.NoWrap e)
  | .handlePdu _ => inferInstanceAs (Decidable (∀ header ∈ Option.map _ _, _))
  | .expire => .isTrue trivial

/-- At each moment of two runs that are rotated against each other and do not wrap around while
t-Reassembly runs, the states are rotated against each other, with the same SDUs delivered, the
same losses and t-Reassembly running in both or in neither. -/
theorem run_rotate (cfg : RlcRxUmConfig) (k : Nat) (es : List RxUmEvent)
    (hes : Machine.Admits step NoWrap (new cfg) es)
    (hes' : Machine.Admits step NoWrap (newAt cfg k) (es.map (RxUmEvent.rotate cfg.snFieldLength k)))
    (n : Nat) :
    ∃ s t, Machine.run step (new cfg) (es.take n) = .ok s ∧
      Machine.run step (newAt cfg k) ((es.map (RxUmEvent.rotate cfg.snFieldLength k)).take n) = .ok t ∧
      Rotated k s t := by
  have hlock : List.Forall₂ (fun e e' => e' = RxUmEvent.rotate cfg.snFieldLength k e) (es.take n)
      ((es.map (RxUmEvent.rotate cfg.snFieldLength k)).take n) := by
    rw [← List.map_take, List.forall₂_map_right_iff]
    exact List.forall₂_same.mpr fun _ _ => rfl
  obtain ⟨s, t, hs, ht, hst⟩ := Machine.run_lockstep (fun s t => Twin k s t ∧ s.cfg = cfg) _
    (by
      rintro s t e e' ⟨h, hcfg⟩ rfl he he'
      rw [← hcfg] at he' ⊢
      obtain ⟨s', t', hs', ht', h'⟩ := h.step e he he'
      exact ⟨s', t', hs', ht', h', h.inv.step_cfg hs'⟩)
    ⟨twin_new cfg k, rfl⟩ hlock (hes.take n) (hes'.take n)
  exact ⟨s, t, hs, ht, hst.1.rotated⟩

def twoSdus : List RxUmEvent :=
  [.handlePdu (rlcUmWriteDataPduHeader ⟨.firstSegment, .size6bits, 0, 0⟩ ++ [1]),
   .handlePdu (rlcUmWriteDataPduHeader ⟨.firstSegment, .size6bits, 1, 0⟩ ++ [2]),
   .handlePdu (rlcUmWriteDataPduHeader ⟨.lastSegment, .size6bits, 0, 1⟩ ++ [3])]

theorem run_rotate_twoSdus : ∃ s t, Machine.run step (new ⟨.size6bits, 51⟩) twoSdus = .ok s ∧
    Machine.run step (newAt ⟨.size6bits, 51⟩ 61) (twoSdus.map (RxUmEvent.rotate .size6bits 61)) = .ok t ∧
    Rotated 61 s t := by
  exact run_rotate ⟨.size6bits, 51⟩ 61 twoSdus (by decide +kernel) (by decide +kernel) 3

/-- With the SNs 62, 63 and 0, RX_Timer_Trigger is 0 and taken to be behind RX_Next_Reassembly, so
that t-Reassembly is stopped though the second SDU has still to be completed. -/
theorem run_rotate_wrapped : ¬∀ (cfg : RlcRxUmConfig) (k : Nat) (es : List RxUmEvent),
    ∃ s t, Machine.run step (new cfg) es = .ok s ∧
      Machine.run step (newAt cfg k) (es.map (RxUmEvent.rotate cfg.snFieldLength k)) = .ok t ∧
      t.reassemblyTimerRunning = s.reassemblyTimerRunning := by
  intro h
  obtain ⟨s, t, hs, ht, hrun⟩ := h ⟨.size6bits, 51⟩ 62 twoSdus
  have hs' : (Machine.run step (new ⟨.size6bits, 51⟩) twoSdus).map (·.reassemblyTimerRunning) = .ok true := by
    decide +kernel
  have ht' : (Machine.run step (newAt ⟨.size6bits, 51⟩ 62)
      (twoSdus.map (RxUmEvent.rotate .size6bits 62))).map (·.reassemblyTimerRunning) = .ok false := by
    decide +kernel
  simp only [hs, ht, Except.map, Except.ok.injEq] at hs' ht'
  simp [hs', ht'] at hrun

end RlcRxUmEntity

end Ocudu.Rlc
