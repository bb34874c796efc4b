import Ocudu.Rlc.RxUmWindow
import Ocudu.Rlc.UmSender

/-! A UM receiver that gets all PDUs in the order in which they were sent. -/

namespace Ocudu.Rlc

open SeqNum

variable {sz : RlcUmSnSize} {n : Nat} {seg : RlcRxAmSduSegment}

theorem umParsePdu_segmentPdu (hseg : seg.Sendable) (hso : seg.so < 2 ^ 16) :
    umParsePdu sz (segmentPdu sz n seg).buf =
      some ({ si := seg.si, snSize := sz, sn := n % sz.mod, so := seg.so }, seg.payload) :=
  umParsePdu_write (Nat.mod_lt _ RlcUmSnSize.mod_pos) hso hseg.si_ne hseg.so_iff hseg.payload_ne

theorem umParsePdu_wholePdu {sdu : List UInt8} (h : sdu ≠ []) :
    umParsePdu sz (wholePdu sz sdu).buf = some ({ si := .fullSdu, snSize := sz, sn := 0, so := 0 }, sdu) :=
  umParsePdu_write_full sz 0 0 h

namespace RlcRxUmEntity

variable {s t : RlcRxUmEntity} {held segs : List RlcRxAmSduSegment} {sdu left : List UInt8}

theorem rxModBase_before {x : Nat} (h : s.st.rxNextHighest = (x + 1) % s.mod) :
    s.rxModBase x = s.umWindowSize - 1 := by
  have hm := s.mod_eq
  have hw := s.window_pos
  have hlt := s.rxModBase_lt x
  have hnext := s.rxModBase_add x 1
  rw [← rxModBase_mod, ← h, rxModBase_highest] at hnext
  by_cases hlast : s.rxModBase x + 1 < s.mod
  · rw [Nat.mod_eq_of_lt hlast] at hnext
    omega
  · have hfull : s.rxModBase x + 1 = s.mod := by omega
    rw [hfull, Nat.mod_self] at hnext
    omega

/-- All SDUs before the `n`-th segmented one are passed, and of that one `held` is there. -/
structure InOrder (s : RlcRxUmEntity) (n : Nat) (held : List RlcRxAmSduSegment) : Prop where
  capacity : s.rxWindow.capacity = s.umWindowSize
  reassembly : s.st.rxNextReassembly = n % s.mod
  highest : s.st.rxNextHighest = (if held = [] then n else n + 1) % s.mod
  running : s.reassemblyTimerRunning = false
  window : ∀ x, s.rxWindow.lookup x =
    if held ≠ [] ∧ x = n % s.mod then some { segments := held } else none

theorem inOrder_new (cfg : RlcRxUmConfig) : (new cfg).InOrder 0 [] where
  capacity := rfl
  reassembly := by simp [new]
  highest := by simp [new]
  running := rfl
  window := by simp [new]

namespace InOrder

theorem sduInfo (h : s.InOrder n held) : s.sduInfo (n % s.mod) = { segments := held } := by
  rw [RlcRxUmEntity.sduInfo, h.window]
  by_cases hheld : held = []
  · simp [hheld]
  · simp [hheld]

theorem startReassembly_of_part (hhigh : s.st.rxNextHighest = (n + 1) % s.mod)
    (hnext : s.st.rxNextReassembly = n % s.mod)
    (hnone : s.rxWindow.lookup ((n + 1) % s.mod) = none) : s.startReassembly = s := by
  have hw := s.window_pos
  have hm := s.mod_eq
  have hbase : s.rxModBase (s.st.rxNextReassembly + 1) = s.umWindowSize := by
    rw [hnext, ← rxModBase_mod, Nat.mod_add_mod, ← hhigh, rxModBase_highest]
  have hgap : s.hasGap s.st.rxNextHighest = false := by simp [RlcRxUmEntity.hasGap, hhigh, hnone]
  rw [RlcRxUmEntity.startReassembly, rxModBase_highest, hbase, hgap]
  simp

theorem startReassembly_of_whole (hnext : s.st.rxNextReassembly = s.st.rxNextHighest) :
    s.startReassembly = s := by
  have hw := s.one_lt_window
  have hm := s.mod_eq
  have hbase : s.rxModBase (s.st.rxNextReassembly + 1) = s.umWindowSize + 1 := by
    rw [hnext, rxModBase_add, rxModBase_highest, Nat.mod_eq_of_lt (by omega)]
  rw [RlcRxUmEntity.startReassembly, rxModBase_highest, hbase]
  simp

theorem updateReassemblyTimer (hrun : s.reassemblyTimerRunning = false)
    (hstart : s.startReassembly = s) : s.updateReassemblyTimer = s := by
  simp [RlcRxUmEntity.updateReassemblyTimer, hrun, hstart]

theorem succ_mod_ne (s : RlcRxUmEntity) (n : Nat) : (n + 1) % s.mod ≠ n % s.mod := by
  intro heq
  have hm := s.mod_eq
  have hw := s.window_pos
  have hone : s.mod ∣ 1 := (Nat.modEq_iff_dvd' (Nat.le_add_right n 1)).mp (Eq.symm heq) |>.trans
    (by rw [Nat.add_sub_cancel_left])
  have := Nat.le_of_dvd Nat.one_pos hone
  omega

theorem lookup_writeSn (h : s.InOrder n held) (info : RlcRxUmSduInfo) (x : Nat) :
    (s.writeSn (n % s.mod) info).rxWindow.lookup x = if x = n % s.mod then some info else none := by
  rw [RlcRxUmEntity.lookup_writeSn h.capacity, h.window]
  split_ifs <;> simp_all

theorem handleSegmentDataSdu (h : s.InOrder n held) (hcut : Cut 0 sdu (held ++ [seg]) left)
    (hsz : s.cfg.snFieldLength = sz) :
    s.handleSegmentDataSdu { si := seg.si, snSize := sz, sn := n % sz.mod, so := seg.so } seg.payload =
      s.writeSn (n % s.mod) { fullyReceived := decide (left = []), segments := held ++ [seg] } := by
  have hmod : s.mod = sz.mod := by rw [mod, hsz]
  rw [RlcRxUmEntity.handleSegmentDataSdu, ← hmod, h.sduInfo]
  simp only [RlcRxUmSduInfo.storeSegment, hcut.storedSegments_snoc, Option.getD_some,
    RlcRxUmSduInfo.updateSegmentInventory, hcut.inventory_eq]

theorem afterStore_first (h : s.InOrder n []) {info : RlcRxUmSduInfo}
    (hinfo : info.fullyReceived = false) :
    (s.writeSn (n % s.mod) info).afterStore (n % s.mod) =
      .ok ((s.writeSn (n % s.mod) info).withHighest (n % s.mod)) := by
  have hw := s.window_pos
  have hlookup := h.lookup_writeSn info
  have hhigh : s.st.rxNextHighest = n % s.mod := h.highest
  have hin : (s.writeSn (n % s.mod) info).snInReassemblyWindow (n % s.mod) = false := by
    rw [snInReassemblyWindow_eq]
    change decide (s.rxModBase (n % s.mod) < s.umWindowSize) = false
    rw [← hhigh, rxModBase_highest]
    simp
  have hbase : ((s.writeSn (n % s.mod) info).withHighest (n % s.mod)).rxModBase (n % s.mod) =
      s.umWindowSize - 1 := rxModBase_before rfl
  have hnext : (s.writeSn (n % s.mod) info).st.rxNextReassembly % (s.writeSn (n % s.mod) info).mod =
      n % s.mod := by
    change s.st.rxNextReassembly % s.mod = n % s.mod
    rw [h.reassembly, Nat.mod_mod]
  have houtside : ((s.writeSn (n % s.mod) info).withHighest (n % s.mod)).discardOutside (n % s.mod) =
      .ok (n % s.mod, (s.writeSn (n % s.mod) info).withHighest (n % s.mod)) := by
    refine walk_stop ?_
    rw [snInReassemblyWindow_eq, hbase]
    change (!decide (s.umWindowSize - 1 < s.umWindowSize)) = false
    simp [hw]
  have hreceived : ((s.writeSn (n % s.mod) info).withHighest (n % s.mod)).removeReceived (n % s.mod) =
      .ok (n % s.mod, (s.writeSn (n % s.mod) info).withHighest (n % s.mod)) := by
    refine walk_stop ?_
    have hnot : ((s.writeSn (n % s.mod) info).withHighest (n % s.mod)).fullyReceived (n % s.mod) = false := by
      change ((s.writeSn (n % s.mod) info).rxWindow.lookup (n % s.mod)).any _ = false
      rw [hlookup, if_pos rfl]
      simpa using hinfo
    rw [hnot, Bool.and_false]
  have hset : ((s.writeSn (n % s.mod) info).withHighest (n % s.mod)).setRxNextReassembly (n % s.mod) =
      (s.writeSn (n % s.mod) info).withHighest (n % s.mod) := by
    unfold setRxNextReassembly
    have hst : (s.writeSn (n % s.mod) info).st.rxNextReassembly = n % s.mod := h.reassembly
    simp only [withHighest, hst]
  unfold RlcRxUmEntity.afterStore
  rw [hlookup, if_pos rfl]
  simp only [hinfo, Bool.false_eq_true, if_false, hin]
  rw [slideWindow_eq, hnext, houtside, ok_bind]
  simp only [hreceived, ok_bind, pure_eq_ok, hset]

theorem afterStore_next (h : s.InOrder n held) (hheld : held ≠ []) {info : RlcRxUmSduInfo}
    (hinfo : info.fullyReceived = false) :
    (s.writeSn (n % s.mod) info).afterStore (n % s.mod) = .ok (s.writeSn (n % s.mod) info) := by
  have hw := s.window_pos
  have hhigh : s.st.rxNextHighest = (n % s.mod + 1) % s.mod := by
    rw [h.highest, if_neg hheld, Nat.mod_add_mod]
  have hin : (s.writeSn (n % s.mod) info).snInReassemblyWindow (n % s.mod) = true := by
    rw [snInReassemblyWindow_eq]
    change decide (s.rxModBase (n % s.mod) < s.umWindowSize) = true
    rw [rxModBase_before hhigh]
    simp [hw]
  unfold RlcRxUmEntity.afterStore
  rw [h.lookup_writeSn info, if_pos rfl]
  simp only [hinfo, Bool.false_eq_true, if_false, hin, if_true]

theorem afterStore_last (h : s.InOrder n held) (hheld : held ≠ []) {info : RlcRxUmSduInfo}
    (hinfo : info.fullyReceived = true) :
    ∃ t, (s.writeSn (n % s.mod) info).afterStore (n % s.mod) = .ok t ∧ t.cfg = s.cfg ∧
      t.st = { s.st with rxNextReassembly := (n + 1) % s.mod } ∧ t.reassemblyTimerRunning = false ∧
      t.rxWindow.capacity = s.umWindowSize ∧ (∀ x, t.rxWindow.lookup x = none) ∧
      t.sdus = s.sdus ++ (info.reassembleSdu s.cfg.maxSlices).toList := by
  have hw := s.window_pos
  have hm := s.mod_pos
  have hlookup := h.lookup_writeSn info
  have hhigh : s.st.rxNextHighest = (n % s.mod + 1) % s.mod := by
    rw [h.highest, if_neg hheld, Nat.mod_add_mod]
  obtain ⟨hcfg, hst, hrun, hcap⟩ := deliverSn_frame (s.writeSn (n % s.mod) info) (n % s.mod) info
  have hcap' : ((s.writeSn (n % s.mod) info).deliverSn (n % s.mod) info).rxWindow.capacity =
      s.umWindowSize := by rw [hcap, capacity_writeSn, h.capacity]
  have hdeliver := lookup_deliverSn (s.writeSn (n % s.mod) info) (n % s.mod) info
  have hsdus : ((s.writeSn (n % s.mod) info).deliverSn (n % s.mod) info).sdus =
      s.sdus ++ (info.reassembleSdu s.cfg.maxSlices).toList := by
    have hmax : (s.writeSn (n % s.mod) info).cfg.maxSlices = s.cfg.maxSlices := rfl
    rw [RlcRxUmEntity.deliverSn, hmax]
    cases info.reassembleSdu s.cfg.maxSlices with
    | none => simp [RlcRxUmEntity.writeSn]
    | some sdu => rfl
  unfold RlcRxUmEntity.afterStore
  rw [hlookup, if_pos rfl]
  simp only [hinfo, if_true]
  rw [completeSdu_eq]
  generalize (s.writeSn (n % s.mod) info).deliverSn (n % s.mod) info = u at hcfg hst hrun hcap' hdeliver hsdus
  have hcfg' : u.cfg = s.cfg := hcfg
  have hst' : u.st = s.st := hst
  have humod : u.mod = s.mod := by rw [mod, hcfg', mod]
  have hnext : u.st.rxNextReassembly = n % s.mod := by rw [hst', h.reassembly]
  have hdone : u.rxWindow.lookup (n % s.mod) = some { info with segments := [] } := by
    rw [hdeliver, if_pos rfl, hlookup, if_pos rfl]
    rfl
  have hbelow : u.rxModBase (n % s.mod) = u.umWindowSize - 1 := by
    apply rxModBase_before
    rw [hst', humod, hhigh]
  have hfull : (decide (u.rxModBase (n % s.mod) < u.rxModBase u.st.rxNextHighest) &&
      u.fullyReceived (n % s.mod)) = true := by
    have hpos := u.window_pos
    rw [hbelow, rxModBase_highest, RlcRxUmEntity.fullyReceived, hdone]
    simp [hinfo, hpos]
  have hone : Discarded u (u.discardSn (n % s.mod)) (n % s.mod) 1 :=
    discarded_discardSn u (by rw [humod]; exact Nat.mod_lt _ hm)
  have hedge : u.nextSn (n % s.mod) = (u.discardSn (n % s.mod)).st.rxNextHighest := by
    rw [nextSn, humod, hone.st, hst', hhigh]
  have hstop : (decide ((u.discardSn (n % s.mod)).rxModBase (u.nextSn (n % s.mod)) <
      (u.discardSn (n % s.mod)).rxModBase (u.discardSn (n % s.mod)).st.rxNextHighest) &&
      (u.discardSn (n % s.mod)).fullyReceived (u.nextSn (n % s.mod))) = false := by
    rw [hedge]
    simp
  have hwalk : u.removeReceived (n % s.mod) = .ok ((n + 1) % s.mod, u.discardSn (n % s.mod)) := by
    obtain ⟨fuel, hfuel⟩ := Nat.exists_eq_succ_of_ne_zero (Nat.ne_of_gt u.mod_pos)
    rw [RlcRxUmEntity.removeReceived, hfuel, walk_next hfull, walk_stop hstop, nextSn, humod, Nat.mod_add_mod]
  rw [if_pos hnext.symm, hnext, humod, Nat.mod_mod, hwalk]
  refine ⟨(u.discardSn (n % s.mod)).setRxNextReassembly ((n + 1) % s.mod), rfl, hone.cfg.trans hcfg', ?_,
    (hone.running.trans hrun).trans h.running, hone.capacity.trans hcap', ?_, hone.sdus.trans hsdus⟩
  · simp only [setRxNextReassembly, hone.st, hst']
  · intro x
    simp only [setRxNextReassembly, hone.lookup, hdeliver, hlookup]
    split_ifs with h1 h2
    · rfl
    · exact absurd ⟨0, Nat.one_pos, by rw [Nat.add_zero, humod, Nat.mod_mod, h2]⟩ h1
    · rfl

theorem handleSegment_part (h : s.InOrder n held) (hsz : s.cfg.snFieldLength = sz)
    (hcut : Cut 0 sdu (held ++ [seg]) left) (hleft : left ≠ []) :
    ∃ t, s.handleSegment { si := seg.si, snSize := sz, sn := n % sz.mod, so := seg.so } seg.payload = .ok t ∧
      t.InOrder n (held ++ [seg]) ∧ t.cfg = s.cfg ∧ t.sdus = s.sdus := by
  have hmod : sz.mod = s.mod := by rw [mod, hsz]
  have hvalid : s.snInvalidForRxBuffer (n % s.mod) = false := by
    rw [snInvalidForRxBuffer_eq, h.reassembly]
    simp
  have hne : held ++ [seg] ≠ [] := by simp
  rw [RlcRxUmEntity.handleSegment]
  simp only [hmod, hvalid, Bool.false_eq_true, if_false]
  rw [← hmod, h.handleSegmentDataSdu hcut hsz, hmod]
  simp only [hleft, decide_false]
  have hlookup := h.lookup_writeSn { segments := held ++ [seg] }
  have hwindow : ∀ x, (s.writeSn (n % s.mod) { segments := held ++ [seg] }).rxWindow.lookup x =
      if held ++ [seg] ≠ [] ∧ x = n % s.mod then some { segments := held ++ [seg] } else none := by
    simpa [hne] using hlookup
  have hnone : (s.writeSn (n % s.mod) { segments := held ++ [seg] }).rxWindow.lookup ((n + 1) % s.mod) =
      none := by rw [hlookup, if_neg (succ_mod_ne s n)]
  by_cases hheld : held = []
  · subst hheld
    rw [h.afterStore_first rfl, ok_bind]
    have hhigh : ((s.writeSn (n % s.mod) { segments := [] ++ [seg] }).withHighest (n % s.mod)).st.rxNextHighest =
        (n + 1) % s.mod := Nat.mod_add_mod n s.mod 1
    have hstay := updateReassemblyTimer
      (s := (s.writeSn (n % s.mod) { segments := [] ++ [seg] }).withHighest (n % s.mod)) h.running
      (startReassembly_of_part hhigh h.reassembly hnone)
    rw [hstay]
    exact ⟨_, rfl, ⟨(capacity_writeSn _).trans h.capacity, h.reassembly, by rw [if_neg hne]; exact hhigh,
      h.running, hwindow⟩, rfl, rfl⟩
  · rw [h.afterStore_next hheld rfl, ok_bind]
    have hhigh : (s.writeSn (n % s.mod) { segments := held ++ [seg] }).st.rxNextHighest = (n + 1) % s.mod := by
      have := h.highest
      rwa [if_neg hheld] at this
    have hstay := updateReassemblyTimer (s := s.writeSn (n % s.mod) { segments := held ++ [seg] })
      h.running (startReassembly_of_part hhigh h.reassembly hnone)
    rw [hstay]
    exact ⟨_, rfl, ⟨(capacity_writeSn _).trans h.capacity, h.reassembly, by rw [if_neg hne]; exact hhigh,
      h.running, hwindow⟩, rfl, rfl⟩

theorem handleSegment_last (h : s.InOrder n held) (hsz : s.cfg.snFieldLength = sz)
    (hcut : Cut 0 sdu (held ++ [seg]) []) :
    ∃ t, s.handleSegment { si := seg.si, snSize := sz, sn := n % sz.mod, so := seg.so } seg.payload = .ok t ∧
      t.InOrder (n + 1) [] ∧ t.cfg = s.cfg ∧
      t.sdus = s.sdus ++ if (held ++ [seg]).length ≤ s.cfg.maxSlices then [sdu] else [] := by
  have hmod : sz.mod = s.mod := by rw [mod, hsz]
  have hvalid : s.snInvalidForRxBuffer (n % s.mod) = false := by
    rw [snInvalidForRxBuffer_eq, h.reassembly]
    simp
  have hheld : held ≠ [] := by
    rintro rfl
    exact absurd hcut.one_lt_length (by simp)
  rw [RlcRxUmEntity.handleSegment]
  simp only [hmod, hvalid, Bool.false_eq_true, if_false]
  rw [← hmod, h.handleSegmentDataSdu hcut hsz, hmod]
  simp only [decide_true]
  obtain ⟨t, ht, hcfg, hst, hrun, hcap, hlookup, hsdus⟩ :=
    @afterStore_last n s held h hheld { fullyReceived := true, segments := held ++ [seg] } rfl
  have htmod : t.mod = s.mod := by rw [mod, hcfg, mod]
  have hwhole : t.st.rxNextReassembly = t.st.rxNextHighest := by
    rw [hst, h.highest, if_neg hheld]
  rw [ht, ok_bind, updateReassemblyTimer hrun (startReassembly_of_whole hwhole)]
  refine ⟨t, rfl, ⟨by rw [hcap, umWindowSize, umWindowSize, hcfg], by rw [hst, htmod], ?_, hrun,
    fun x => by simpa using hlookup x⟩, hcfg, ?_⟩
  · rw [← hwhole, hst, htmod]
    rfl
  · rw [hsdus, hcut.reassembleSdu_eq]
    split_ifs <;> rfl

theorem segments (h : s.InOrder n held) (hsz : s.cfg.snFieldLength = sz)
    (hcut : Cut 0 sdu (held ++ segs) left) (hshort : sdu.length < 2 ^ 16)
    (hmore : segs ≠ [] ∨ left ≠ []) :
    ∃ t, Machine.run RlcRxUmEntity.step s (segs.map fun seg => .handlePdu (segmentPdu sz n seg).buf) = .ok t ∧
      t.cfg = s.cfg ∧
      (left = [] → t.InOrder (n + 1) [] ∧
        t.sdus = s.sdus ++ if (held ++ segs).length ≤ s.cfg.maxSlices then [sdu] else []) ∧
      (left ≠ [] → t.InOrder n (held ++ segs) ∧ t.sdus = s.sdus) := by
  induction segs generalizing s held with
  | nil =>
    have hleft := hmore.resolve_left (by simp)
    exact ⟨s, rfl, rfl, fun hc => absurd hc hleft, fun _ => ⟨by simpa using h, rfl⟩⟩
  | cons seg segs ih =>
    have happ : held ++ seg :: segs = (held ++ [seg]) ++ segs := by simp
    rw [happ] at hcut ⊢
    have hmem : seg ∈ held ++ [seg] ++ segs := by simp
    obtain ⟨left', hcut', hiff⟩ := hcut.take
    have hbounds := (hcut.mem_bounds hmem).2
    have hsend := hcut.sendable hmem
    have hlen : 0 < seg.payload.length := List.length_pos_of_ne_nil hsend.payload_ne
    have hparse := @umParsePdu_segmentPdu sz n seg hsend (by omega)
    have hstep : s.step (.handlePdu (segmentPdu sz n seg).buf) =
        s.handleSegment { si := seg.si, snSize := sz, sn := n % sz.mod, so := seg.so } seg.payload := by
      simp only [RlcRxUmEntity.step, handlePdu, hsz, hparse, hsend.si_ne, if_false]
    rw [List.map_cons]
    by_cases hdone : left' = []
    · obtain ⟨rfl, rfl⟩ := hiff.mp hdone
      rw [hdone] at hcut'
      obtain ⟨t, ht, hord, hcfg, hsdus⟩ := h.handleSegment_last hsz hcut'
      refine ⟨t, ?_, hcfg, fun _ => ⟨hord, by simpa using hsdus⟩, fun hc => absurd rfl hc⟩
      rw [Machine.run_cons_ok (hstep.trans ht)]
      rfl
    · obtain ⟨t, ht, hord, hcfg, hsdus⟩ := h.handleSegment_part hsz hcut' hdone
      obtain ⟨u, hu, hucfg, hall, hpart⟩ := ih hord (by rw [hcfg]; exact hsz) hcut
        (by
          by_contra hc
          push Not at hc
          exact hdone (hiff.mpr hc))
      refine ⟨u, ?_, hucfg.trans hcfg, ?_, ?_⟩
      · rw [Machine.run_cons_ok (hstep.trans ht), hu]
      · rw [hsdus, hcfg] at hall
        exact hall
      · rw [hsdus] at hpart
        exact hpart

theorem whole (h : s.InOrder n []) (hsz : s.cfg.snFieldLength = sz) (hsdu : sdu ≠ []) :
    ∃ t, s.step (.handlePdu (wholePdu sz sdu).buf) = .ok t ∧ t.InOrder n [] ∧ t.cfg = s.cfg ∧
      t.sdus = s.sdus ++ [sdu] := by
  refine ⟨{ s with sdus := s.sdus ++ [sdu] }, ?_, ⟨h.capacity, h.reassembly, h.highest, h.running, h.window⟩,
    rfl, rfl⟩
  simp only [RlcRxUmEntity.step, handlePdu, hsz, umParsePdu_wholePdu hsdu, if_true]

end InOrder

/-- The SDUs of a log that a receiver can put together. -/
def delivered (maxSlices : Nat) (sent : List UmSent) : List (List UInt8) :=
  (sent.filter (·.pdus ≤ max 1 maxSlices)).map (·.sdu)

theorem delivered_cons (maxSlices : Nat) (entry : UmSent) (sent : List UmSent) :
    delivered maxSlices (entry :: sent) =
      (if entry.pdus ≤ max 1 maxSlices then [entry.sdu] else []) ++ delivered maxSlices sent := by
  unfold delivered
  split_ifs with h
  · rw [List.filter_cons_of_pos (by simpa using h)]
    rfl
  · rw [List.filter_cons_of_neg (by simpa using h)]
    rfl

theorem InOrder.log (h : s.InOrder n []) (hsz : s.cfg.snFieldLength = sz) {log : List UmEntry}
    (hlog : ∀ entry ∈ log, entry.Ok) :
    ∃ t, Machine.run RlcRxUmEntity.step s ((logPdus sz n log).map fun pdu => .handlePdu pdu.buf) = .ok t ∧
      t.InOrder (n + log.countP (·.isCut)) [] ∧ t.cfg = s.cfg ∧
      t.sdus = s.sdus ++ delivered s.cfg.maxSlices (log.map UmEntry.sent) := by
  induction log generalizing s n with
  | nil => exact ⟨s, rfl, h, rfl, by simp [delivered]⟩
  | cons entry log ih =>
    have hok := hlog entry List.mem_cons_self
    have hrest : ∀ entry ∈ log, entry.Ok := fun e he => hlog e (List.mem_cons_of_mem _ he)
    cases entry with
    | whole sdu =>
      obtain ⟨t, ht, hord, hcfg, hsdus⟩ := h.whole hsz hok
      obtain ⟨u, hu, hord', hcfg', hsdus'⟩ := ih hord (by rw [hcfg]; exact hsz) hrest
      refine ⟨u, ?_, ?_, hcfg'.trans hcfg, ?_⟩
      · rw [logPdus, List.map_cons, Machine.run_cons_ok ht, hu]
      · simpa [UmEntry.isCut] using hord'
      · rw [hsdus', hsdus, hcfg, List.append_assoc]
        simp [delivered_cons, UmEntry.sent]
    | cut sdu segs =>
      have hsegs : segs ≠ [] := List.ne_nil_of_length_pos (Nat.zero_lt_of_lt hok.1.one_lt_length)
      have hcut : Cut 0 sdu ([] ++ segs) [] := hok.1
      obtain ⟨t, ht, hcfg, hall, -⟩ := h.segments hsz hcut hok.2 (.inl hsegs)
      obtain ⟨hord, hsdus⟩ := hall rfl
      obtain ⟨u, hu, hord', hcfg', hsdus'⟩ := ih hord (by rw [hcfg]; exact hsz) hrest
      refine ⟨u, ?_, ?_, hcfg'.trans hcfg, ?_⟩
      · rw [logPdus, List.map_append, List.map_map, Machine.run_append]
        have ht' : Machine.run step s (segs.map ((fun pdu => .handlePdu pdu.buf) ∘ segmentPdu sz n)) = .ok t := ht
        rw [ht']
        exact hu
      · rw [List.countP_cons_of_pos (by rfl), Nat.add_comm _ 1, ← Nat.add_assoc]
        exact hord'
      · have hone := hok.1.one_lt_length
        have hiff : segs.length ≤ s.cfg.maxSlices ↔ segs.length ≤ max 1 s.cfg.maxSlices := by omega
        rw [hsdus', hsdus, hcfg, List.append_assoc, List.map_cons, delivered_cons]
        by_cases hmax : segs.length ≤ s.cfg.maxSlices
        · simp [UmEntry.sent, hmax, hiff.mp hmax]
        · simp [UmEntry.sent, hmax, mt hiff.mpr hmax]

end RlcRxUmEntity

open RlcRxUmEntity in
/-- All PDUs in order: the receiver has delivered the SDUs that were sent, in order, but for those
with more segments than it can put together, and t-Reassembly is not running. -/
theorem UmSender.Logged.inOrder {s : UmSender} {handed : List (List UInt8)} {log : List UmEntry}
    {cur : List RlcRxAmSduSegment} (h : s.Logged sz handed log cur)
    (hshort : ∀ sdu ∈ handed, sdu.length < 2 ^ 16) (cfg : RlcRxUmConfig)
    (hcfg : cfg.snFieldLength = sz) :
    ∃ t, Machine.run RlcRxUmEntity.step (RlcRxUmEntity.new cfg)
        (s.pdus.map fun pdu => .handlePdu pdu.buf) = .ok t ∧
      t.sdus = delivered cfg.maxSlices s.sent ∧ t.reassemblyTimerRunning = false := by
  obtain ⟨t, ht, hord, htcfg, hsdus⟩ := (inOrder_new cfg).log hcfg h.entries
  have hsdus' : t.sdus = delivered cfg.maxSlices s.sent := by
    rw [hsdus, ← h.sent]
    rfl
  rw [h.pdus, List.map_append, Machine.run_append, ht]
  by_cases hbuf : s.tx.sdu.buf = []
  · rw [(h.idle hbuf).1]
    exact ⟨t, rfl, hsdus', hord.running⟩
  · have hleft : s.tx.left ≠ [] := by
      rw [← List.length_pos_iff_ne_nil, RlcTxUmEntity.left, List.length_drop]
      have := (h.busy hbuf).2
      omega
    rw [Nat.zero_add] at hord
    have hcut : Cut 0 s.tx.sdu.buf ([] ++ cur) s.tx.left := (h.busy hbuf).1
    have hsz : t.cfg.snFieldLength = sz := by
      rw [htcfg]
      exact hcfg
    obtain ⟨u, hu, -, -, hpart⟩ := hord.segments hsz hcut (h.short hshort) (.inr hleft)
    obtain ⟨hord', hsdus''⟩ := hpart hleft
    rw [List.map_map]
    exact ⟨u, hu, hsdus''.trans hsdus', hord'.running⟩

end Ocudu.Rlc
