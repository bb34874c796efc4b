import Ocudu.Basic.SnWindow
import Ocudu.Gtpu.NguRx

/-! Order, completeness and delay of the reordering at an NG-U tunnel, over every sequence of PDUs, ticks and
expiries of t-Reordering. -/

namespace Ocudu.Gtpu

namespace GtpuTunnelNguRx

open CircularMap SeqNum
open Pdcp (SduWindow.addSn SduWindow.removeSn SduWindow.get)

variable {cfg : GtpuRxConfig} {N R : Nat} {s t : GtpuTunnelNguRx}

/-- The window and the history fit the state variables; this also holds between two turns of the delivery loops.
`N` is RX_NEXT without wrap-around. -/
structure Ordered (cfg : GtpuRxConfig) (N : Nat) (s : GtpuTunnelNguRx) : Prop where
  window : SnWindow s.rxWindow gtpuSnMod s.passed N
  capacity : s.rxWindow.capacity = gtpuRxWindowSize
  deliv : s.st.rxDeliv = s.passed % gtpuSnMod
  next : s.st.rxNext = N % gtpuSnMod
  le : s.passed ≤ N
  known : ∀ sn info, s.rxWindow.lookup sn = some info →
    ∃ a ∈ s.arrivals, s.passed ≤ a.position ∧ sn = a.position % gtpuSnMod ∧ a.info = info
  held : ∀ a ∈ s.arrivals, s.passed ≤ a.position →
    a.position < N ∧ s.rxWindow.lookup (a.position % gtpuSnMod) = some a.info ∧ s.now ≤ a.time + 2 * cfg.tReordering
  once : s.arrivals.Pairwise (·.position ≠ ·.position)
  gone : ∀ a ∈ s.arrivals, a.position < s.passed → ∃ d ∈ s.deliveries, d.position = some a.position
  released : ∀ d ∈ s.deliveries, ∀ p, d.position = some p → p < s.passed ∧
    ∃ a ∈ s.arrivals, a.position = p ∧ a.info = d.info ∧ d.time ≤ a.time + 2 * cfg.tReordering
  increasing : (s.deliveries.filterMap (·.position)).Pairwise (· < ·)

/-- What holds between two events. `R` is RX_REORD without wrap-around. -/
structure Inv (cfg : GtpuRxConfig) (N R : Nat) (s : GtpuTunnelNguRx) : Prop extends Ordered cfg N s where
  first : s.rxWindow.contains s.st.rxDeliv = false
  timer : s.isRunning = true ↔ s.passed < N
  reord : s.isRunning = true → s.st.rxReord = R % gtpuSnMod ∧ s.passed ≤ R ∧ R ≤ N
  /-- What was stored after the timer started waits for the next run of the timer. -/
  waits : ∀ left, s.reorderingTimer = some left → left ≤ cfg.tReordering ∧
    ∀ a ∈ s.arrivals, s.passed ≤ a.position → s.now + left ≤
      a.time + (if a.position < R then 2 * cfg.tReordering else cfg.tReordering)

structure MovedTo (c : Nat) (s t : GtpuTunnelNguRx) : Prop where
  st : t.st = { s.st with rxDeliv := c % gtpuSnMod }
  passed : t.passed = c
  timer : t.reorderingTimer = s.reorderingTimer
  now : t.now = s.now
  arrivals : t.arrivals = s.arrivals
  hasValue : t.rxStateHasValue = s.rxStateHasValue
  window : ∀ sn, t.rxWindow.contains sn = true → s.rxWindow.contains sn = true

theorem Ordered.movedTo (h : Ordered cfg N s) : MovedTo s.passed s s :=
  ⟨by rw [← h.deliv], rfl, rfl, rfl, rfl, rfl, fun _ hc => hc⟩

theorem MovedTo.trans {b c : Nat} {u : GtpuTunnelNguRx} (h : MovedTo b s t) (h' : MovedTo c t u) : MovedTo c s u :=
  ⟨by rw [h'.st, h.st], h'.passed, h'.timer.trans h.timer, h'.now.trans h.now, h'.arrivals.trans h.arrivals,
    h'.hasValue.trans h.hasValue, fun sn hc => h.window sn (h'.window sn hc)⟩

theorem Ordered.next_le (h : Ordered cfg N s) : N ≤ s.passed + gtpuRxWindowSize := by
  rw [← h.capacity]
  exact h.window.le

theorem Ordered.lt_cycle (h : Ordered cfg N s) {k : Nat} (hk : k ≤ N) : k < s.passed + gtpuSnMod := by
  have hN := h.next_le
  have hw : gtpuRxWindowSize < gtpuSnMod := by decide
  omega

theorem Ordered.rxModBase_abs (h : Ordered cfg N s) {k : Nat} (hle : s.passed ≤ k) (hlt : k < s.passed + gtpuSnMod) :
    s.rxModBase (k % gtpuSnMod) = k - s.passed := by
  rw [rxModBase, h.deliv, dist_abs hle hlt]

theorem Ordered.deliv_eq_iff (h : Ordered cfg N s) {k : Nat} (hle : s.passed ≤ k) (hlt : k < s.passed + gtpuSnMod) :
    s.st.rxDeliv = k % gtpuSnMod ↔ s.passed = k := by
  rw [h.deliv]
  constructor
  · exact mod_inj_of_window (Nat.le_refl _) (by omega) hle hlt
  · intro heq
    rw [heq]

theorem deliverIfHeld_eq (s : GtpuTunnelNguRx) : ∃ ds, s.deliverIfHeld =
      .ok { s with rxWindow := s.rxWindow.erase s.st.rxDeliv, deliveries := s.deliveries ++ ds } ∧
    ((∃ info, s.rxWindow.lookup s.st.rxDeliv = some info ∧ ds = [⟨info, some s.passed, s.now⟩]) ∨
      (s.rxWindow.lookup s.st.rxDeliv = none ∧ ds = [])) := by
  cases hl : s.rxWindow.lookup s.st.rxDeliv with
  | none =>
    have hc : s.rxWindow.contains s.st.rxDeliv = false := by rw [CircularMap.contains, hl]; rfl
    refine ⟨[], ?_, .inr ⟨rfl, rfl⟩⟩
    rw [deliverIfHeld, if_neg (Bool.eq_false_iff.mp hc), erase_of_not_contains hc, List.append_nil]
  | some info =>
    have hc := contains_of_lookup hl
    refine ⟨_, ?_, .inl ⟨info, rfl, rfl⟩⟩
    rw [deliverIfHeld, if_pos hc]
    simp [deliverAndRemove, deliverSdu, SduWindow.get, SduWindow.removeSn, hl, hc]

theorem Ordered.lookup_deliv (h : Ordered cfg N s) {info : GtpuRxSduInfo}
    (hl : s.rxWindow.lookup s.st.rxDeliv = some info) : ∃ a ∈ s.arrivals, a.position = s.passed ∧ a.info = info := by
  obtain ⟨a, ha, hle, hsn, hinfo⟩ := h.known _ _ hl
  have hlt := (h.held a ha hle).1
  have hpos := (h.deliv_eq_iff hle (h.lt_cycle (Nat.le_of_lt hlt))).mp hsn
  exact ⟨a, ha, hpos.symm, hinfo⟩

theorem Ordered.pass (h : Ordered cfg N s) (hlt : s.passed < N) : ∃ t, s.deliverIfHeld = .ok t ∧
    Ordered cfg N t.advanceDeliv ∧ MovedTo (s.passed + 1) s t.advanceDeliv := by
  obtain ⟨ds, ht, hds⟩ := s.deliverIfHeld_eq
  have hmod : (s.st.rxDeliv + 1) % gtpuSnMod = (s.passed + 1) % gtpuSnMod := by
    rw [h.deliv, Nat.mod_add_mod]
  have hds' : ∀ d ∈ ds, ∃ a ∈ s.arrivals, a.position = s.passed ∧ d = ⟨a.info, some s.passed, s.now⟩ := by
    intro d hd
    rcases hds with ⟨info, hl, rfl⟩ | ⟨-, rfl⟩
    · obtain ⟨a, ha, hpos, rfl⟩ := h.lookup_deliv hl
      exact ⟨a, ha, hpos, List.mem_singleton.mp hd⟩
    · cases hd
  refine ⟨_, ht, ?_, ⟨by simp only [advanceDeliv, hmod], rfl, rfl, rfl, rfl, rfl, ?_⟩⟩
  rotate_left
  · intro sn hc
    simp only [advanceDeliv, contains_erase] at hc
    exact hc.2
  constructor
  case window =>
    have herase := h.window.erase_first
    rwa [← h.deliv] at herase
  case capacity => simpa only [advanceDeliv, capacity_erase] using h.capacity
  case deliv => exact hmod
  case next => exact h.next
  case le => exact hlt
  case known =>
    intro sn info hl
    simp only [advanceDeliv, lookup_erase] at hl
    split at hl
    · cases hl
    · next hne =>
      obtain ⟨a, ha, hle, hsn, hinfo⟩ := h.known sn info hl
      refine ⟨a, ha, Nat.lt_of_le_of_ne hle fun heq => hne ?_, hsn, hinfo⟩
      rw [hsn, h.deliv, heq]
  case held =>
    intro a ha hle
    have hle' : s.passed + 1 ≤ a.position := hle
    obtain ⟨hN', hl, htime⟩ := h.held a ha (by omega)
    refine ⟨hN', ?_, htime⟩
    simp only [advanceDeliv, lookup_erase]
    rw [if_neg, hl]
    intro heq
    have := (h.deliv_eq_iff (Nat.le_of_succ_le hle') (h.lt_cycle (Nat.le_of_lt hN'))).mp heq.symm
    omega
  case once => exact h.once
  case gone =>
    intro a ha hlt'
    rcases Nat.lt_succ_iff_lt_or_eq.mp hlt' with hlt' | heq
    · obtain ⟨d, hd, hd'⟩ := h.gone a ha hlt'
      exact ⟨d, List.mem_append_left _ hd, hd'⟩
    · have hl := (h.held a ha (Nat.le_of_eq heq.symm)).2.1
      rw [heq, ← h.deliv] at hl
      rcases hds with ⟨info, -, rfl⟩ | ⟨hno, -⟩
      · exact ⟨_, List.mem_append_right _ List.mem_cons_self, by rw [heq]⟩
      · rw [hno] at hl
        cases hl
  case released =>
    intro d hd p hp
    rcases List.mem_append.mp hd with hd | hd
    · obtain ⟨hlt', ha⟩ := h.released d hd p hp
      exact ⟨Nat.lt_succ_of_lt hlt', ha⟩
    · obtain ⟨a, ha, hpos, rfl⟩ := hds' d hd
      obtain rfl : s.passed = p := Option.some.inj hp
      exact ⟨Nat.lt_succ_self _, a, ha, hpos, rfl, (h.held a ha (Nat.le_of_eq hpos.symm)).2.2⟩
  case increasing =>
    simp only [advanceDeliv, List.filterMap_append]
    refine List.pairwise_append.mpr ⟨h.increasing, ?_, ?_⟩
    · rcases hds with ⟨info, -, rfl⟩ | ⟨-, rfl⟩
      · exact List.pairwise_singleton _ _
      · exact List.Pairwise.nil
    · intro p hp q hq
      obtain ⟨d, hd, hdp⟩ := List.mem_filterMap.mp hp
      obtain ⟨e, he, heq⟩ := List.mem_filterMap.mp hq
      obtain ⟨a, -, -, rfl⟩ := hds' e he
      obtain rfl : s.passed = q := Option.some.inj heq
      exact (h.released d hd p hdp).1

theorem Ordered.not_contains_next (h : Ordered cfg N s) (heq : s.passed = N) :
    s.rxWindow.contains s.st.rxDeliv = false := by
  by_contra hc
  rw [Bool.not_eq_false] at hc
  obtain ⟨info, hl⟩ := lookup_of_contains hc
  obtain ⟨a, ha, hpos, -⟩ := h.lookup_deliv hl
  have := (h.held a ha (Nat.le_of_eq hpos.symm)).1
  omega

theorem Ordered.expireLoop (fuel : Nat) (h : Ordered cfg N s) (hreord : s.st.rxReord = R % gtpuSnMod)
    (hle : s.passed ≤ R) (hR : R ≤ N) (hf : R < s.passed + fuel) :
    ∃ t, GtpuTunnelNguRx.expireLoop fuel s = .ok t ∧ Ordered cfg N t ∧ MovedTo R s t := by
  induction fuel generalizing s with
  | zero => omega
  | succ fuel ih =>
    have hiff := h.deliv_eq_iff hle (h.lt_cycle hR)
    rw [GtpuTunnelNguRx.expireLoop, hreord]
    by_cases heq : s.passed = R
    · rw [if_neg (not_not.mpr (hiff.mpr heq))]
      refine ⟨s, rfl, h, ?_⟩
      rw [← heq]
      exact h.movedTo
    · rw [if_pos (mt hiff.mp heq)]
      obtain ⟨t, ht, hot, hm⟩ := h.pass (by omega)
      obtain ⟨u, hu, hou, hmu⟩ := ih hot (by rw [hm.st]; exact hreord) (by rw [hm.passed]; omega)
        (by rw [hm.passed]; omega)
      exact ⟨u, by rw [ht, ok_bind, hu], hou, hm.trans hmu⟩

theorem Ordered.consecutiveLoop (fuel : Nat) (h : Ordered cfg N s) (hf : N < s.passed + fuel) :
    ∃ t c, GtpuTunnelNguRx.consecutiveLoop fuel s = .ok t ∧ Ordered cfg N t ∧ MovedTo c s t ∧ s.passed ≤ c ∧
      t.rxWindow.contains t.st.rxDeliv = false ∧
      ∀ k, s.passed ≤ k → k < c → s.rxWindow.contains (k % gtpuSnMod) = true := by
  induction fuel generalizing s with
  | zero =>
    have := h.le
    omega
  | succ fuel ih =>
    have hiff := h.deliv_eq_iff h.le (h.lt_cycle (Nat.le_refl N))
    rw [GtpuTunnelNguRx.consecutiveLoop, h.next]
    by_cases hgo : s.st.rxDeliv ≠ N % gtpuSnMod ∧ s.rxWindow.contains s.st.rxDeliv = true
    · rw [if_pos hgo]
      have hlt : s.passed < N := Nat.lt_of_le_of_ne h.le (mt hiff.mpr hgo.1)
      obtain ⟨t, ht, hot, hm⟩ := h.pass hlt
      rw [deliverIfHeld, if_pos hgo.2] at ht
      obtain ⟨u, c, hu, hou, hmu, hc, hno, hall⟩ := ih hot (by rw [hm.passed]; omega)
      rw [hm.passed] at hc hall
      refine ⟨u, c, by rw [ht, ok_bind, hu], hou, hm.trans hmu, by omega, hno, fun k hk hkc => ?_⟩
      rcases Nat.lt_or_eq_of_le hk with hk | rfl
      · exact hm.window _ (hall k hk hkc)
      · rw [← h.deliv]
        exact hgo.2
    · rw [if_neg hgo]
      refine ⟨s, s.passed, rfl, h, h.movedTo, Nat.le_refl _, ?_, fun k hk hkc => by omega⟩
      by_cases heq : s.passed = N
      · exact h.not_contains_next heq
      · exact Bool.eq_false_iff.mpr fun hc => hgo ⟨mt hiff.mp heq, hc⟩

section

variable (h : Ordered cfg N s)
include h

theorem Ordered.deliverAllConsecutiveSdus :
    ∃ t c, s.deliverAllConsecutiveSdus = .ok t ∧ Ordered cfg N t ∧ MovedTo c s t ∧ s.passed ≤ c ∧
      t.rxWindow.contains t.st.rxDeliv = false ∧
      ∀ k, s.passed ≤ k → k < c → s.rxWindow.contains (k % gtpuSnMod) = true := by
  have hN := h.next_le
  exact h.consecutiveLoop _ (by omega)

theorem Ordered.rxModBase_deliv : s.rxModBase s.st.rxDeliv = 0 := by
  rw [h.deliv, h.rxModBase_abs (Nat.le_refl _) (h.lt_cycle h.le), Nat.sub_self]

theorem Ordered.rxModBase_next : s.rxModBase s.st.rxNext = N - s.passed := by
  rw [h.next, h.rxModBase_abs h.le (h.lt_cycle (Nat.le_refl N))]

theorem Ordered.gap_iff :
    s.rxModBase s.st.rxDeliv < s.rxModBase s.st.rxNext ↔ s.passed < N := by
  rw [h.rxModBase_deliv, h.rxModBase_next]
  omega

theorem Ordered.setTimer (rxReord : Nat) (timer : Option Nat) :
    Ordered cfg N { s with st := { s.st with rxReord := rxReord }, reorderingTimer := timer } :=
  ⟨h.window, h.capacity, h.deliv, h.next, h.le, h.known, h.held, h.once, h.gone, h.released, h.increasing⟩

theorem Ordered.start (hfirst : s.rxWindow.contains s.st.rxDeliv = false) (hlt : s.passed < N)
    (hwaits : ∀ a ∈ s.arrivals, s.passed ≤ a.position → s.now ≤ a.time + cfg.tReordering) :
    Inv cfg N N (s.startReordering cfg) where
  toOrdered := h.setTimer s.st.rxNext (some cfg.tReordering)
  first := hfirst
  timer := ⟨fun _ => hlt, fun _ => rfl⟩
  reord := fun _ => ⟨h.next, h.le, Nat.le_refl N⟩
  waits := by
    intro left hleft
    obtain rfl : cfg.tReordering = left := Option.some.inj hleft
    refine ⟨Nat.le_refl _, fun a ha hle => ?_⟩
    have hN := (h.held a ha hle).1
    have hnow := hwaits a ha hle
    rw [if_pos hN]
    show s.now + cfg.tReordering ≤ _
    omega

theorem Ordered.idle (hfirst : s.rxWindow.contains s.st.rxDeliv = false)
    (htimer : s.reorderingTimer = none) (heq : ¬s.passed < N) : Inv cfg N R s where
  toOrdered := h
  first := hfirst
  timer := by
    rw [isRunning, htimer]
    exact ⟨fun hr => absurd hr Bool.false_ne_true, fun hlt => absurd hlt heq⟩
  reord := by
    intro hr
    rw [isRunning, htimer] at hr
    cases hr
  waits := by
    intro left hleft
    rw [htimer] at hleft
    cases hleft

theorem Ordered.handleTReorderingExpire (hcfg : 0 < cfg.tReordering)
    (hvalue : s.rxStateHasValue = true) (htimer : s.reorderingTimer = none) (hreord : s.st.rxReord = R % gtpuSnMod)
    (hle : s.passed ≤ R) (hR : R ≤ N) (hin : s.insideRxWindow s.st.rxReord = true)
    (hwaits : ∀ a ∈ s.arrivals, R ≤ a.position → s.now ≤ a.time + cfg.tReordering) :
    ∃ t, s.handleTReorderingExpire cfg = .ok t ∧ Inv cfg N N t ∧ R ≤ t.passed ∧ t.rxStateHasValue = true := by
  have hN := h.next_le
  have hidle : s.isRunning = false := by rw [isRunning, htimer]; rfl
  obtain ⟨t, ht, hot, hmt⟩ := h.expireLoop (gtpuRxWindowSize + 1) hreord hle hR (by omega)
  obtain ⟨u, c, hu, hou, hmu, hc, hno, -⟩ := hot.deliverAllConsecutiveSdus
  have hm := hmt.trans hmu
  rw [hmt.passed] at hc
  rw [GtpuTunnelNguRx.handleTReorderingExpire, hvalue, hidle, hin, Bool.not_true, if_neg Bool.false_ne_true,
    if_neg Bool.false_ne_true, if_neg Bool.false_ne_true, ht, ok_bind, hu, ok_bind]
  have hpassed := hm.passed
  by_cases hlt : u.passed < N
  · rw [if_pos (hou.gap_iff.mpr hlt), if_neg (Nat.ne_of_gt hcfg)]
    refine ⟨_, rfl, hou.start hno hlt fun a ha hle' => ?_, by rw [← hpassed] at hc; exact hc, hm.hasValue.trans hvalue⟩
    rw [hm.arrivals] at ha
    rw [hm.now]
    exact hwaits a ha (by omega)
  · rw [if_neg (mt hou.gap_iff.mp hlt)]
    exact ⟨u, rfl, hou.idle hno (hm.timer.trans htimer) hlt, by omega, hm.hasValue.trans hvalue⟩

theorem Ordered.storeSdu {k : Nat} (hle : s.passed ≤ k) (hlt : k < s.passed + gtpuRxWindowSize)
    (hnew : s.rxWindow.contains (k % gtpuSnMod) = false) (info : GtpuRxSduInfo) :
    ∃ w, s.storeSdu (k % gtpuSnMod) info = .ok { s with
        rxWindow := w
        st := { s.st with rxNext := max N (k + 1) % gtpuSnMod }
        arrivals := s.arrivals ++ [⟨k, info, s.now⟩] } ∧
      (∀ sn, w.lookup sn = if sn = k % gtpuSnMod then some info else s.rxWindow.lookup sn) ∧
      Ordered cfg (max N (k + 1)) { s with
        rxWindow := w
        st := { s.st with rxNext := max N (k + 1) % gtpuSnMod }
        arrivals := s.arrivals ++ [⟨k, info, s.now⟩] } := by
  have hcap : k < s.passed + s.rxWindow.capacity := by rw [h.capacity]; exact hlt
  have hcycle : k < s.passed + gtpuSnMod := by
    have hw : gtpuRxWindowSize < gtpuSnMod := by decide
    omega
  have hbase := h.rxModBase_abs hle hcycle
  have hlook := h.window.lookup_put hle hcap info
  have hput := h.window.put hle hcap info
  have hnone : s.rxWindow.lookup (k % gtpuSnMod) = none := lookup_eq_none hnew
  have hne : ∀ a ∈ s.arrivals, s.passed ≤ a.position → a.position ≠ k := by
    intro a ha hpos heq
    have hl := (h.held a ha hpos).2.1
    rw [heq, hnone] at hl
    cases hl
  refine ⟨s.rxWindow.overwrite (k % gtpuSnMod) info, ?_, hlook, ?_⟩
  · have hnext : (if s.rxModBase s.st.rxNext ≤ s.rxModBase (k % gtpuSnMod) then (k % gtpuSnMod + 1) % gtpuSnMod
        else s.st.rxNext) = max N (k + 1) % gtpuSnMod := by
      rw [h.rxModBase_next, hbase]
      split
      · next hge => rw [Nat.mod_add_mod, max_eq_right (by have := h.le; omega)]
      · next hge => rw [h.next, max_eq_left (by omega)]
    have hpos : s.passed + s.rxModBase (k % gtpuSnMod) = k := by omega
    rw [GtpuTunnelNguRx.storeSdu, SduWindow.addSn, hnew, if_neg Bool.false_ne_true, ok_bind, hnext, hpos]
    rfl
  · constructor
    case window => exact hput
    case capacity => rw [capacity_overwrite]; exact h.capacity
    case deliv => exact h.deliv
    case next => rfl
    case le => exact Nat.le_trans h.le (Nat.le_max_left _ _)
    case known =>
      intro sn i hl
      rw [hlook] at hl
      split at hl
      · next hsn =>
        exact ⟨_, List.mem_append_right _ List.mem_cons_self, hle, hsn, Option.some.inj hl⟩
      · obtain ⟨a, ha, ha'⟩ := h.known sn i hl
        exact ⟨a, List.mem_append_left _ ha, ha'⟩
    case held =>
      intro a ha hpos
      rcases List.mem_append.mp ha with ha | ha
      · obtain ⟨hN, hl, htime⟩ := h.held a ha hpos
        refine ⟨Nat.lt_of_lt_of_le hN (Nat.le_max_left _ _), ?_, htime⟩
        rw [hlook, if_neg, hl]
        intro heq
        rw [heq, hnone] at hl
        cases hl
      · obtain rfl := List.mem_singleton.mp ha
        refine ⟨Nat.le_max_right _ _, ?_, Nat.le_add_right _ _⟩
        rw [hlook, if_pos rfl]
    case once =>
      refine List.pairwise_append.mpr ⟨h.once, List.pairwise_singleton _ _, ?_⟩
      intro a ha b hb
      obtain rfl := List.mem_singleton.mp hb
      by_cases hpos : s.passed ≤ a.position
      · exact hne a ha hpos
      · dsimp only
        omega
    case gone =>
      intro a ha hpos
      rcases List.mem_append.mp ha with ha | ha
      · exact h.gone a ha hpos
      · obtain rfl := List.mem_singleton.mp ha
        exact absurd hle (Nat.not_le.mpr hpos)
    case released =>
      intro d hd p hp
      obtain ⟨hp', a, ha, ha'⟩ := h.released d hd p hp
      exact ⟨hp', a, List.mem_append_left _ ha, ha'⟩
    case increasing => exact h.increasing

end

/-- A timer that runs while a PDU is handled: RX_DELIV may have come past RX_REORD, but there is a gap where it
stopped at it. -/
structure Watched (cfg : GtpuRxConfig) (N R left : Nat) (s : GtpuTunnelNguRx) : Prop where
  reord : s.st.rxReord = R % gtpuSnMod
  le : R ≤ N
  behind : N ≤ R + gtpuRxWindowSize
  inside : s.passed ≤ R → R < s.passed + gtpuRxWindowSize
  gap : ¬(s.passed = R ∧ R = N)
  left_le : left ≤ cfg.tReordering
  waits : ∀ a ∈ s.arrivals, s.passed ≤ a.position → s.now + left ≤
    a.time + (if a.position < R then 2 * cfg.tReordering else cfg.tReordering)

theorem Watched.insideRxWindow_iff {left : Nat} (hw : Watched cfg N R left s) (h : Ordered cfg N s) :
    s.insideRxWindow s.st.rxReord = true ↔ s.passed ≤ R := by
  have hN := h.le
  have hcycle := h.lt_cycle (k := R) hw.le
  rw [insideRxWindow, decide_eq_true_iff, hw.reord]
  by_cases hle : s.passed ≤ R
  · have hin := hw.inside hle
    rw [h.rxModBase_abs hle hcycle]
    exact ⟨fun _ => hle, fun _ => by omega⟩
  · have hbehind := hw.behind
    have hmod : gtpuSnMod = 2 * gtpuRxWindowSize := rfl
    rw [rxModBase, h.deliv, dist_mod_left, dist_mod_right, dist_of_behind (by omega) (by omega)]
    refine ⟨fun hlt => ?_, fun h => absurd h hle⟩
    omega

theorem Ordered.updateReorderingTimer (h : Ordered cfg N s) (hcfg : 0 < cfg.tReordering)
    (hfirst : s.rxWindow.contains s.st.rxDeliv = false)
    (hrun : ∀ left, s.reorderingTimer = some left → Watched cfg N R left s)
    (hidle : s.reorderingTimer = none → ∀ a ∈ s.arrivals, s.passed ≤ a.position → s.now ≤ a.time + cfg.tReordering) :
    ∃ t R', s.updateReorderingTimer cfg = .ok t ∧ Inv cfg N R' t ∧ t.rxStateHasValue = s.rxStateHasValue ∧
      t.arrivals = s.arrivals := by
  -- without a timer, one is started if there is a gap
  have hstart : ∀ u : GtpuTunnelNguRx, Ordered cfg N u → u.rxWindow.contains u.st.rxDeliv = false →
      u.reorderingTimer = none →
      (∀ a ∈ u.arrivals, u.passed ≤ a.position → u.now ≤ a.time + cfg.tReordering) →
      ∃ t R', (if !u.isRunning ∧ u.rxModBase u.st.rxDeliv < u.rxModBase u.st.rxNext then
        (.ok (u.startReordering cfg) : Except Pdcp.Fault GtpuTunnelNguRx) else .ok u) = .ok t ∧ Inv cfg N R' t ∧
        t.rxStateHasValue = u.rxStateHasValue ∧ t.arrivals = u.arrivals := by
    intro u hu hfirst htimer hwaits
    have hno : u.isRunning = false := by rw [isRunning, htimer]; rfl
    by_cases hlt : u.passed < N
    · rw [if_pos ⟨by rw [hno]; rfl, hu.gap_iff.mpr hlt⟩]
      exact ⟨_, N, rfl, hu.start hfirst hlt hwaits, rfl, rfl⟩
    · rw [if_neg fun hc => hlt (hu.gap_iff.mp hc.2)]
      exact ⟨u, N, rfl, hu.idle hfirst htimer hlt, rfl, rfl⟩
  rw [GtpuTunnelNguRx.updateReorderingTimer, if_neg (Nat.ne_of_gt hcfg)]
  cases htimer : s.reorderingTimer with
  | none =>
    have hstop : s.stopReordering = s := by rw [stopReordering, isRunning, htimer]; rfl
    rw [hstop]
    exact hstart s h hfirst htimer (hidle htimer)
  | some left =>
    have hw := hrun left htimer
    have hyes : s.isRunning = true := by rw [isRunning, htimer]; rfl
    by_cases hin : s.passed ≤ R
    · have hstop : s.stopReordering = s := by
        rw [stopReordering, (hw.insideRxWindow_iff h).mpr hin, Bool.not_true, Bool.and_false, if_neg Bool.false_ne_true]
      have hle := h.le
      have hgap := hw.gap
      have hR := hw.le
      have hlt : s.passed < N := by omega
      rw [hstop, if_neg fun hc => by rw [hyes] at hc; cases hc.1]
      refine ⟨s, R, rfl, ⟨h, hfirst, ⟨fun _ => hlt, fun _ => hyes⟩, fun _ => ⟨hw.reord, hin, hw.le⟩, ?_⟩, rfl, rfl⟩
      intro l hl
      obtain rfl : left = l := Option.some.inj (htimer.symm.trans hl)
      exact ⟨hw.left_le, hw.waits⟩
    · have hout : s.insideRxWindow s.st.rxReord = false :=
        Bool.eq_false_iff.mpr (mt (hw.insideRxWindow_iff h).mp hin)
      have hstop : s.stopReordering = { s with reorderingTimer := none } := by
        rw [stopReordering, hyes, hout]
        rfl
      rw [hstop]
      refine hstart { s with reorderingTimer := none } (h.setTimer s.st.rxReord none) hfirst rfl ?_
      intro a ha hpos
      have hpos' : s.passed ≤ a.position := hpos
      have hwait := hw.waits a ha hpos'
      rw [if_neg (by omega)] at hwait
      show s.now ≤ _
      omega

/-- The steps on which reordering works: a PDU that closes all gaps does not end at the RX_REORD of a running timer,
and no expiry or PDU finds RX_REORD at the upper edge of the window. -/
abbrev RegularSn (s : GtpuTunnelNguRx) (sn : Nat) : Prop :=
  s.isRunning = true → s.insideRxWindow sn = true → s.rxWindow.contains sn = false →
    if sn = s.st.rxDeliv then
      ¬(s.st.rxReord = s.st.rxNext ∧ ∀ i < s.rxModBase s.st.rxNext, 0 < i →
        s.rxWindow.contains ((s.st.rxDeliv + i) % gtpuSnMod) = true)
    else s.insideRxWindow s.st.rxReord = true

theorem Ordered.deliverFrom (h : Ordered cfg N s) {k : Nat} (hle : s.passed ≤ k) (hN : k < N)
    (hk : ∃ a ∈ s.arrivals, a.position = k)
    (hother : k ≠ s.passed → s.rxWindow.contains s.st.rxDeliv = false) :
    ∃ t c, s.deliverFrom (k % gtpuSnMod) = .ok t ∧ Ordered cfg N t ∧ MovedTo c s t ∧
      t.rxWindow.contains t.st.rxDeliv = false ∧
      ((k = s.passed ∧ s.passed < c ∧
        ∀ j, s.passed ≤ j → j < c → s.rxWindow.contains (j % gtpuSnMod) = true) ∨ (k ≠ s.passed ∧ c = s.passed)) := by
  have hbase := h.rxModBase_abs hle (h.lt_cycle (Nat.le_of_lt hN))
  rw [GtpuTunnelNguRx.deliverFrom, hbase, h.rxModBase_deliv]
  by_cases heq : k = s.passed
  · obtain ⟨t, c, ht, hot, hm, hc, hno, hall⟩ := h.deliverAllConsecutiveSdus
    rw [if_pos (by omega), ht]
    refine ⟨t, c, rfl, hot, hm, hno, .inl ⟨heq, ?_, hall⟩⟩
    -- the SDU itself is held until RX_DELIV is past it
    apply Nat.lt_of_le_of_ne hc
    rintro rfl
    obtain ⟨a, ha, rfl⟩ := hk
    have hpassed := hm.passed
    have hl := (hot.held a (by rw [hm.arrivals]; exact ha) (by omega)).2.1
    rw [heq, ← hpassed, ← hot.deliv] at hl
    rw [contains_of_lookup hl] at hno
    cases hno
  · rw [if_neg (by omega)]
    exact ⟨s, s.passed, rfl, h, h.movedTo, hother heq, .inr ⟨heq, rfl⟩⟩

theorem Inv.handleNew (h : Inv cfg N R s) (hcfg : 0 < cfg.tReordering) {k : Nat} (hle : s.passed ≤ k)
    (hlt : k < s.passed + gtpuRxWindowSize) (hnew : s.rxWindow.contains (k % gtpuSnMod) = false)
    (hin : s.insideRxWindow (k % gtpuSnMod) = true) (hreg : RegularSn s (k % gtpuSnMod)) (info : GtpuRxSduInfo) :
    ∃ t N' R', (do
      let s ← s.storeSdu (k % gtpuSnMod) info
      let s ← s.deliverFrom (k % gtpuSnMod)
      s.updateReorderingTimer cfg) = .ok t ∧ Inv cfg N' R' t ∧ t.rxStateHasValue = s.rxStateHasValue ∧
      t.arrivals = s.arrivals ++ [⟨k, info, s.now⟩] := by
  obtain ⟨w, hstore, hlook, hu⟩ := h.toOrdered.storeSdu hle hlt hnew info
  have hsn : s.st.rxDeliv = k % gtpuSnMod ↔ s.passed = k :=
    h.deliv_eq_iff hle (hu.lt_cycle (Nat.le_of_lt (Nat.le_max_right N (k + 1))))
  have hother : k ≠ s.passed → w.contains s.st.rxDeliv = false := by
    intro hne
    rw [CircularMap.contains, hlook, if_neg fun heq => hne (hsn.mp heq).symm]
    exact h.first
  obtain ⟨t, c, hdeliver, hot, hm, hfirst, hcases⟩ := hu.deliverFrom (k := k) hle (Nat.le_max_right _ _)
    ⟨_, List.mem_append_right _ List.mem_cons_self, rfl⟩ hother
  have hnow : t.now = s.now := hm.now
  have harrivals : t.arrivals = s.arrivals ++ [⟨k, info, s.now⟩] := hm.arrivals
  have htimer : t.reorderingTimer = s.reorderingTimer := hm.timer
  have hpassed := hm.passed
  have hge : s.passed ≤ t.passed := by
    rcases hcases with ⟨-, hlt', -⟩ | ⟨-, heq⟩
    · dsimp only at hlt'
      omega
    · dsimp only at heq
      omega
  have hwatched : ∀ left, t.reorderingTimer = some left → Watched cfg (max N (k + 1)) R left t := by
    intro left hleft
    rw [htimer] at hleft
    have hrun : s.isRunning = true := by rw [isRunning, hleft]; rfl
    obtain ⟨hreord, hRle, hRN⟩ := h.reord hrun
    obtain ⟨hleft', hwaits⟩ := h.waits left hleft
    have hgap := h.timer.mp hrun
    have hNle := h.next_le
    have hN'le := hu.next_le
    dsimp only at hN'le
    have hregular := hreg hrun hin hnew
    constructor
    case reord => rw [hm.st]; exact hreord
    case le => omega
    case behind => omega
    case inside =>
      intro _
      rcases hcases with ⟨-, hlt', -⟩ | ⟨hne, -⟩
      · dsimp only at hlt'
        omega
      · rw [if_neg fun heq => hne (hsn.mp heq.symm).symm, insideRxWindow, decide_eq_true_iff, hreord,
          h.rxModBase_abs hRle (h.lt_cycle hRN)] at hregular
        dsimp only at hne
        omega
    case gap =>
      rintro ⟨hDR, hRN'⟩
      rcases hcases with ⟨heq, -, hall⟩ | ⟨hne, hc⟩
      · have hNmax : max N (k + 1) = N := by
          dsimp only at heq
          omega
        rw [if_pos (hsn.mpr heq.symm).symm] at hregular
        refine hregular ⟨by rw [hreord, hRN', hNmax, h.next], fun i hi hpos => ?_⟩
        rw [h.rxModBase_next] at hi
        have hcontains := hall (s.passed + i) (Nat.le_add_right _ _) (by omega)
        have hne : (s.passed + i) % gtpuSnMod ≠ k % gtpuSnMod := by
          intro hmod
          rw [← hsn.mpr heq.symm] at hmod
          have := (h.deliv_eq_iff (Nat.le_add_right s.passed i) (h.lt_cycle (by omega))).mp hmod.symm
          omega
        rw [h.deliv, Nat.mod_add_mod]
        rw [CircularMap.contains, hlook, if_neg hne] at hcontains
        exact hcontains
      · dsimp only at hc
        omega
    case left_le => exact hleft'
    case waits =>
      intro a ha hpos
      rw [harrivals] at ha
      rw [hnow]
      rcases List.mem_append.mp ha with ha | ha
      · exact hwaits a ha (by omega)
      · obtain rfl := List.mem_singleton.mp ha
        dsimp only
        split <;> omega
  have hidle : t.reorderingTimer = none →
      ∀ a ∈ t.arrivals, t.passed ≤ a.position → t.now ≤ a.time + cfg.tReordering := by
    intro hnone a ha hpos
    rw [htimer] at hnone
    rw [harrivals] at ha
    rw [hnow]
    rcases List.mem_append.mp ha with ha | ha
    · -- nothing was held
      have hNone : ¬s.passed < N := by
        rw [← h.timer, isRunning, hnone]
        exact Bool.false_ne_true
      have hheld := (h.held a ha (by omega)).1
      omega
    · obtain rfl := List.mem_singleton.mp ha
      exact Nat.le_add_right _ _
  obtain ⟨v, R', hv, hi, hvalue, harr⟩ := hot.updateReorderingTimer hcfg hfirst hwatched hidle
  refine ⟨v, _, R', ?_, hi, hvalue.trans hm.hasValue, harr.trans harrivals⟩
  rw [hstore, ok_bind, hdeliver, ok_bind, hv]

theorem Inv.deliverSdu (h : Inv cfg N R s) (info : GtpuRxSduInfo) : Inv cfg N R (s.deliverSdu info none) where
  window := h.window
  capacity := h.capacity
  deliv := h.deliv
  next := h.next
  le := h.le
  known := h.known
  held := h.held
  once := h.once
  gone := by
    intro a ha hlt
    obtain ⟨d, hd, hd'⟩ := h.gone a ha hlt
    exact ⟨d, List.mem_append_left _ hd, hd'⟩
  released := by
    intro d hd p hp
    rcases List.mem_append.mp hd with hd | hd
    · exact h.released d hd p hp
    · obtain rfl := List.mem_singleton.mp hd
      cases hp
  increasing := by
    rw [GtpuTunnelNguRx.deliverSdu, List.filterMap_append]
    exact (List.append_nil _).symm ▸ h.increasing
  first := h.first
  timer := h.timer
  reord := h.reord
  waits := h.waits

/-- A PDU inside the window whose SN is not held is an arrival. -/
def Arrives (s : GtpuTunnelNguRx) (sn : Nat) (info : GtpuRxSduInfo) (t : GtpuTunnelNguRx) : Prop :=
  s.insideRxWindow sn = true → s.rxWindow.contains sn = false →
    t.arrivals = s.arrivals ++ [⟨s.passed + s.rxModBase sn, info, s.now⟩]

theorem Inv.handleSn (h : Inv cfg N R s) (hcfg : 0 < cfg.tReordering) (hvalue : s.rxStateHasValue = true) {sn : Nat}
    (hsn : sn < gtpuSnMod) (hreg : RegularSn s sn) (info : GtpuRxSduInfo) :
    ∃ t N' R', s.handleSn cfg sn info = .ok t ∧ Inv cfg N' R' t ∧ t.rxStateHasValue = true ∧ Arrives s sn info t := by
  have hinit : s.initRxState sn = s := by rw [initRxState, if_pos hvalue]
  rw [GtpuTunnelNguRx.handleSn, hinit, h.rxModBase_deliv, if_neg (Nat.not_lt_zero _)]
  cases hin : s.insideRxWindow sn with
  | false => exact ⟨_, N, R, rfl, h.deliverSdu info, hvalue, fun hyes => by cases hin.symm.trans hyes⟩
  | true =>
    rw [Bool.not_true, if_neg Bool.false_ne_true]
    cases hnew : s.rxWindow.contains sn with
    | true => exact ⟨s, N, R, rfl, h, hvalue, fun _ hno => by cases hnew.symm.trans hno⟩
    | false =>
      have hmod : (s.passed + s.rxModBase sn) % gtpuSnMod = sn := by
        rw [rxModBase, h.deliv, dist_mod_left, add_dist_mod (by decide), Nat.mod_eq_of_lt hsn]
      have hlt : s.rxModBase sn < gtpuRxWindowSize := of_decide_eq_true hin
      obtain ⟨t, N', R', ht, hi, hv, harr⟩ := h.handleNew hcfg (Nat.le_add_right s.passed (s.rxModBase sn)) (by omega)
        (by rw [hmod]; exact hnew) (by rw [hmod]; exact hin) (by rw [hmod]; exact hreg) info
      rw [hmod] at ht
      rw [if_neg Bool.false_ne_true]
      exact ⟨t, N', R', ht, hi, hv.trans hvalue, fun _ _ => harr⟩

structure Fresh (s : GtpuTunnelNguRx) : Prop where
  arrivals : s.arrivals = []
  timer : s.reorderingTimer = none
  window : ∀ sn, s.rxWindow.lookup sn = none
  deliveries : ∀ d ∈ s.deliveries, d.position = none

theorem Fresh.init (hf : Fresh s) (h : Inv cfg N R s) {sn : Nat} (hsn : sn < gtpuSnMod) :
    Inv cfg sn sn { s with rxStateHasValue := true, st := ⟨sn, sn, sn⟩, passed := sn } where
  window := ⟨h.window.pow, h.window.dvd, h.window.mod_pos, Nat.le_add_right _ _, fun k v hl => by
    rw [hf.window] at hl
    cases hl⟩
  capacity := h.capacity
  deliv := (Nat.mod_eq_of_lt hsn).symm
  next := (Nat.mod_eq_of_lt hsn).symm
  le := Nat.le_refl sn
  known := fun k v hl => by
    rw [hf.window] at hl
    cases hl
  held := by
    rw [hf.arrivals]
    exact fun a ha => absurd ha List.not_mem_nil
  once := h.once
  gone := by
    rw [hf.arrivals]
    exact fun a ha => absurd ha List.not_mem_nil
  released := fun d hd p hp => by
    rw [hf.deliveries d hd] at hp
    cases hp
  increasing := h.increasing
  first := by
    rw [CircularMap.contains, hf.window]
    rfl
  timer := by
    rw [isRunning, hf.timer]
    exact ⟨fun hr => absurd hr Bool.false_ne_true, fun hlt => absurd hlt (Nat.lt_irrefl sn)⟩
  reord := fun hr => by
    rw [isRunning, hf.timer] at hr
    cases hr
  waits := fun left hl => by
    rw [hf.timer] at hl
    cases hl

/-- What holds in every state of a regular run. -/
def Sound (cfg : GtpuRxConfig) (s : GtpuTunnelNguRx) : Prop :=
  (∃ N R, Inv cfg N R s) ∧ (s.rxStateHasValue = false → Fresh s)

theorem Sound.handleSn (h : Sound cfg s) (hcfg : 0 < cfg.tReordering) {sn : Nat} (hsn : sn < gtpuSnMod)
    (hreg : RegularSn s sn) (info : GtpuRxSduInfo) :
    ∃ t, s.handleSn cfg sn info = .ok t ∧ Sound cfg t ∧ Arrives (s.initRxState sn) sn info t := by
  obtain ⟨⟨N, R, hi⟩, hfresh⟩ := h
  cases hvalue : s.rxStateHasValue with
  | true =>
    obtain ⟨t, N', R', ht, hi', hv, harr⟩ := hi.handleSn hcfg hvalue hsn hreg info
    rw [initRxState, if_pos hvalue]
    exact ⟨t, ht, ⟨⟨N', R', hi'⟩, fun hno => by rw [hv] at hno; cases hno⟩, harr⟩
  | false =>
    have hf := hfresh hvalue
    have hinit : s.initRxState sn = { s with rxStateHasValue := true, st := ⟨sn, sn, sn⟩, passed := sn } := by
      rw [initRxState, if_neg (Bool.eq_false_iff.mp hvalue)]
    have hreg' : RegularSn { s with rxStateHasValue := true, st := ⟨sn, sn, sn⟩, passed := sn } sn := by
      intro hr
      rw [isRunning, hf.timer] at hr
      cases hr
    obtain ⟨t, N', R', ht, hi', hv, harr⟩ := (hf.init hi hsn).handleSn hcfg rfl hsn hreg' info
    rw [hinit]
    refine ⟨t, ?_, ⟨⟨N', R', hi'⟩, fun hno => by rw [hv] at hno; cases hno⟩, harr⟩
    rw [← ht, GtpuTunnelNguRx.handleSn, hinit]
    rfl

theorem Sound.deliverSdu (h : Sound cfg s) (info : GtpuRxSduInfo) : Sound cfg (s.deliverSdu info none) := by
  obtain ⟨⟨N, R, hi⟩, hfresh⟩ := h
  refine ⟨⟨N, R, hi.deliverSdu info⟩, fun hno => ?_⟩
  have hf := hfresh hno
  refine ⟨hf.arrivals, hf.timer, hf.window, fun d hd => ?_⟩
  rcases List.mem_append.mp hd with hd | hd
  · exact hf.deliveries d hd
  · rw [List.mem_singleton.mp hd]

end GtpuTunnelNguRx

def GtpuRxPdu.reorderedSn (pdu : GtpuRxPdu) : Option Nat :=
  if pdu.overAmbr || pdu.testMode || pdu.pduSessionInfo.isNone then none else pdu.seqNumber.map (·.toNat)

namespace GtpuTunnelNguRx

open CircularMap SeqNum

variable {cfg : GtpuRxConfig} {N R : Nat} {s t : GtpuTunnelNguRx}

def Regular (s : GtpuTunnelNguRx) : NguRxEvent → Prop
  | .pdu pdu => ∀ sn ∈ pdu.reorderedSn, RegularSn s sn
  | .tick => True
  | .expire => s.reorderingTimer = some 0 → s.insideRxWindow s.st.rxReord = true

instance (s : GtpuTunnelNguRx) : (e : NguRxEvent) → Decidable (Regular s e)
  | .pdu pdu => inferInstanceAs (Decidable (∀ sn ∈ pdu.reorderedSn, RegularSn s sn))
  | .tick => instDecidableTrue
  | .expire => inferInstanceAs (Decidable (s.reorderingTimer = some 0 → s.insideRxWindow s.st.rxReord = true))

theorem Sound.handlePdu (h : Sound cfg s) (hcfg : 0 < cfg.tReordering) (pdu : GtpuRxPdu)
    (hreg : ∀ sn ∈ pdu.reorderedSn, RegularSn s sn) : ∃ t, s.handlePdu cfg pdu = .ok t ∧ Sound cfg t := by
  rw [GtpuTunnelNguRx.handlePdu]
  cases hover : pdu.overAmbr with
  | true => exact ⟨s, rfl, h⟩
  | false =>
    cases htest : pdu.testMode with
    | true => exact ⟨_, rfl, h.deliverSdu _⟩
    | false =>
      cases hinfo : pdu.pduSessionInfo with
      | none => exact ⟨s, rfl, h⟩
      | some qosFlowId =>
        cases hseq : pdu.seqNumber with
        | none => exact ⟨_, rfl, h.deliverSdu _⟩
        | some sn =>
          have hmem : sn.toNat ∈ pdu.reorderedSn := by
            rw [GtpuRxPdu.reorderedSn, hover, htest, hinfo, hseq]
            rfl
          dsimp only
          rw [if_neg Bool.false_ne_true, if_neg Bool.false_ne_true, if_neg (Nat.ne_of_gt hcfg)]
          obtain ⟨t, ht, hs, -⟩ := h.handleSn hcfg sn.toNat_lt (hreg _ hmem) _
          exact ⟨t, ht, hs⟩

theorem Inv.tick (h : Inv cfg N R s) : Inv cfg N R s.tick := by
  rw [GtpuTunnelNguRx.tick]
  by_cases hdue : s.reorderingTimer = some 0
  · rw [if_pos hdue]
    exact h
  · rw [if_neg hdue]
    have hrunning : (s.reorderingTimer.map (· - 1)).isSome = s.isRunning := Option.isSome_map
    have hwait : ∀ a ∈ s.arrivals, s.passed ≤ a.position → ∃ left, s.reorderingTimer = some (left + 1) := by
      intro a ha hpos
      have hlt : s.passed < N := Nat.lt_of_le_of_lt hpos (h.held a ha hpos).1
      obtain ⟨left, hleft⟩ := Option.isSome_iff_exists.mp (h.timer.mpr hlt)
      cases left with
      | zero => exact absurd hleft hdue
      | succ left => exact ⟨left, hleft⟩
    refine { h with held := ?_, timer := ?_, reord := ?_, waits := ?_ }
    · intro a ha hpos
      obtain ⟨hN, hl, -⟩ := h.held a ha hpos
      obtain ⟨left, hleft⟩ := hwait a ha hpos
      have hnow := (h.waits _ hleft).2 a ha hpos
      refine ⟨hN, hl, ?_⟩
      dsimp only
      split at hnow <;> omega
    · show (s.reorderingTimer.map (· - 1)).isSome = true ↔ _
      rw [hrunning]
      exact h.timer
    · intro hr
      exact h.reord (hrunning ▸ hr)
    · intro left hleft
      obtain ⟨left', hleft', rfl⟩ := Option.map_eq_some_iff.mp hleft
      obtain ⟨hle, hall⟩ := h.waits left' hleft'
      refine ⟨Nat.le_trans (Nat.sub_le left' 1) hle, fun a ha hpos => ?_⟩
      have hnow := hall a ha hpos
      have hne : left' ≠ 0 := fun hzero => hdue (hzero ▸ hleft')
      dsimp only
      omega

theorem Sound.tick (h : Sound cfg s) : Sound cfg s.tick := by
  obtain ⟨⟨N, R, hi⟩, hfresh⟩ := h
  refine ⟨⟨N, R, hi.tick⟩, fun hno => ?_⟩
  rw [GtpuTunnelNguRx.tick] at hno ⊢
  split at hno
  · next hdue =>
    rw [(hfresh hno).timer] at hdue
    cases hdue
  · next hdue =>
    have hf := hfresh hno
    rw [if_neg hdue]
    exact ⟨hf.arrivals, by rw [hf.timer]; rfl, hf.window, hf.deliveries⟩

theorem Sound.expire_due (h : Sound cfg s) (hcfg : 0 < cfg.tReordering) (hdue : s.reorderingTimer = some 0)
    (hin : s.insideRxWindow s.st.rxReord = true) : ∃ t, s.expire cfg = .ok t ∧ Sound cfg t ∧
      s.passed + s.rxModBase s.st.rxReord ≤ t.passed := by
  obtain ⟨⟨N, R, hi⟩, hfresh⟩ := h
  have hrun : s.isRunning = true := by rw [isRunning, hdue]; rfl
  have hvalue : s.rxStateHasValue = true := by
    by_contra hno
    have htimer := (hfresh (Bool.eq_false_iff.mpr hno)).timer
    rw [hdue] at htimer
    cases htimer
  obtain ⟨hreord, hle, hR⟩ := hi.reord hrun
  obtain ⟨t, ht, hi', hRt, hv⟩ := (hi.setTimer s.st.rxReord none).handleTReorderingExpire hcfg hvalue rfl hreord hle hR hin
    (by
      intro a ha hpos
      have hnow := (hi.waits 0 hdue).2 a ha (Nat.le_trans hle hpos)
      rwa [if_neg (Nat.not_lt.mpr hpos)] at hnow)
  refine ⟨t, ?_, ⟨⟨N, N, hi'⟩, fun hno => by rw [hv] at hno; cases hno⟩, ?_⟩
  · rw [GtpuTunnelNguRx.expire, if_pos hdue]
    exact ht
  · rw [hreord, hi.rxModBase_abs hle (hi.lt_cycle hR)]
    omega

theorem Sound.expire (h : Sound cfg s) (hcfg : 0 < cfg.tReordering)
    (hreg : s.reorderingTimer = some 0 → s.insideRxWindow s.st.rxReord = true) :
    ∃ t, s.expire cfg = .ok t ∧ Sound cfg t := by
  by_cases hdue : s.reorderingTimer = some 0
  · obtain ⟨t, ht, hs, -⟩ := h.expire_due hcfg hdue (hreg hdue)
    exact ⟨t, ht, hs⟩
  · exact ⟨s, by rw [GtpuTunnelNguRx.expire, if_neg hdue], h⟩

theorem Sound.step (h : Sound cfg s) (hcfg : 0 < cfg.tReordering) (e : NguRxEvent) (hreg : Regular s e) :
    ∃ t, s.step cfg e = .ok t ∧ Sound cfg t := by
  cases e with
  | pdu pdu => exact h.handlePdu hcfg pdu hreg
  | tick => exact ⟨_, rfl, h.tick⟩
  | expire => exact h.expire hcfg hreg

theorem sound_new (cfg : GtpuRxConfig) : Sound cfg new := by
  refine ⟨⟨0, 0, ⟨⟨.empty ⟨15, rfl⟩ (by decide) (by decide) 0, rfl, rfl, rfl, Nat.le_refl 0, ?_, ?_, .nil, ?_, ?_, .nil⟩,
    rfl, ?_, ?_, ?_⟩⟩, fun _ => ⟨rfl, rfl, fun _ => lookup_empty _ _, ?_⟩⟩
  · intro sn info hl
    cases hl
  · exact fun a ha => absurd ha List.not_mem_nil
  · exact fun a ha => absurd ha List.not_mem_nil
  · exact fun d hd => absurd hd List.not_mem_nil
  · exact ⟨fun hr => absurd hr Bool.false_ne_true, fun hlt => absurd hlt (Nat.lt_irrefl 0)⟩
  · exact fun hr => absurd hr Bool.false_ne_true
  · exact fun left hl => by cases hl
  · exact fun d hd => absurd hd List.not_mem_nil

def Released (s : GtpuTunnelNguRx) (a : Arrival) : Prop := ∃ d ∈ s.deliveries, d.position = some a.position

structure Reordering (cfg : GtpuRxConfig) (s : GtpuTunnelNguRx) : Prop where
  deliv : s.st.rxDeliv = s.passed % gtpuSnMod
  next : s.rxModBase s.st.rxNext ≤ gtpuRxWindowSize
  holds : ∀ sn info, s.rxWindow.lookup sn = some info ↔
    ∃ a ∈ s.arrivals, a.position % gtpuSnMod = sn ∧ a.info = info ∧ ¬Released s a
  inside : ∀ sn, s.rxWindow.contains sn = true → 0 < s.rxModBase sn ∧ s.rxModBase sn < s.rxModBase s.st.rxNext
  /-- SDUs of the window come in the order of their SNs, each once and within two periods of the timer. -/
  increasing : (s.deliveries.filterMap (·.position)).Pairwise (· < ·)
  once : s.arrivals.Pairwise (·.position ≠ ·.position)
  stored : ∀ d ∈ s.deliveries, ∀ p, d.position = some p →
    ∃ a ∈ s.arrivals, a.position = p ∧ a.info = d.info ∧ d.time ≤ a.time + 2 * cfg.tReordering
  delay : ∀ a ∈ s.arrivals, ¬Released s a → s.now ≤ a.time + 2 * cfg.tReordering
  arrives : ∀ sn < gtpuSnMod, RegularSn s sn → ∀ info,
    ∃ t, s.handleSn cfg sn info = .ok t ∧ Arrives (s.initRxState sn) sn info t
  timer : s.isRunning = true ↔ s.st.rxDeliv ≠ s.st.rxNext
  /-- An expiry that is not outdated delivers up to RX_REORD, which only changes when the timer is started. -/
  expiry : s.reorderingTimer = some 0 → s.insideRxWindow s.st.rxReord = true →
    ∃ t, s.expire cfg = .ok t ∧ s.passed + s.rxModBase s.st.rxReord ≤ t.passed

theorem Ordered.released_iff (h : Ordered cfg N s) {a : Arrival} (ha : a ∈ s.arrivals) :
    Released s a ↔ a.position < s.passed := by
  constructor
  · rintro ⟨d, hd, hp⟩
    exact (h.released d hd _ hp).1
  · intro hlt
    exact h.gone a ha hlt

theorem Sound.reordering (h : Sound cfg s) (hcfg : 0 < cfg.tReordering) : Reordering cfg s := by
  obtain ⟨N, R, hi⟩ := h.1
  have hN := hi.next_le
  constructor
  case deliv => exact hi.deliv
  case next =>
    rw [hi.rxModBase_next]
    omega
  case holds =>
    intro sn info
    constructor
    · intro hl
      obtain ⟨a, ha, hle, hsn, hinfo⟩ := hi.known sn info hl
      exact ⟨a, ha, hsn.symm, hinfo, by rw [hi.released_iff ha]; omega⟩
    · rintro ⟨a, ha, rfl, rfl, hno⟩
      rw [hi.released_iff ha, Nat.not_lt] at hno
      exact (hi.held a ha hno).2.1
  case inside =>
    intro sn hc
    obtain ⟨info, hl⟩ := lookup_of_contains hc
    obtain ⟨a, ha, hle, rfl, -⟩ := hi.known sn info hl
    have hlt := (hi.held a ha hle).1
    have hne : s.passed ≠ a.position := by
      intro heq
      rw [← heq, ← hi.deliv, hi.first] at hc
      cases hc
    rw [hi.rxModBase_abs hle (hi.lt_cycle (Nat.le_of_lt hlt)), hi.rxModBase_next]
    omega
  case increasing => exact hi.increasing
  case once => exact hi.once
  case stored => exact fun d hd p hp => (hi.released d hd p hp).2
  case delay =>
    intro a ha hno
    rw [hi.released_iff ha, Nat.not_lt] at hno
    exact (hi.held a ha hno).2.2
  case arrives =>
    intro sn hsn hreg info
    obtain ⟨t, ht, -, harr⟩ := h.handleSn hcfg hsn hreg info
    exact ⟨t, ht, harr⟩
  case timer =>
    rw [hi.timer, hi.next, ne_eq, hi.deliv_eq_iff hi.le (hi.lt_cycle (Nat.le_refl N))]
    have := hi.le
    omega
  case expiry =>
    intro hdue hin
    obtain ⟨t, ht, -, hle⟩ := h.expire_due hcfg hdue hin
    exact ⟨t, ht, hle⟩

/-- Reordering works in every run of regular steps. -/
theorem reordering_holds (cfg : GtpuRxConfig) (hcfg : 0 < cfg.tReordering) (es : List NguRxEvent)
    (hadm : Machine.Admits (step cfg) Regular new es) :
    ∃ s, Machine.run (step cfg) new es = .ok s ∧ Reordering cfg s := by
  obtain ⟨s, hs, hi⟩ := Machine.run_total (Sound cfg) (fun s e hs he => hs.step hcfg e he) (sound_new cfg) hadm
  exact ⟨s, hs, hi.reordering hcfg⟩

def sampleConfig : GtpuRxConfig := ⟨2⟩

def pduOf (sn : UInt16) : NguRxEvent := .pdu { pduSessionInfo := some 1, seqNumber := some sn, sdu := [] }

theorem reordering_holds_sample : ∃ s, Machine.run (step sampleConfig) new
    [pduOf 65535, pduOf 1, pduOf 3, pduOf 0, pduOf 2, pduOf 5, .tick, .tick, .expire] = .ok s ∧
    Reordering sampleConfig s :=
  reordering_holds sampleConfig (by decide) _ (by decide +kernel)

/-- The timer goes on without a gap when SNs 0, 2, 1 come in, and stops with one when SN 32768 comes after SN 0. -/
theorem timer_without_gap :
    (∃ s, Machine.run (step sampleConfig) new [pduOf 0, pduOf 2, pduOf 1] = .ok s ∧
      s.isRunning = true ∧ s.st.rxDeliv = s.st.rxNext) ∧
    ∃ s, Machine.run (step sampleConfig) new [pduOf 0, pduOf 32768, .tick, .tick, .expire] = .ok s ∧
      s.isRunning = false ∧ s.st.rxDeliv ≠ s.st.rxNext := by
  constructor
  · have hok : (Machine.run (step sampleConfig) new [pduOf 0, pduOf 2, pduOf 1]).map
        (fun s => (s.isRunning, s.st.rxDeliv, s.st.rxNext)) = .ok (true, 3, 3) := by decide +kernel
    obtain ⟨s, hs, hv⟩ := map_eq_ok.mp hok
    obtain ⟨hrun, hst⟩ := Prod.mk.inj hv
    obtain ⟨hdeliv, hnext⟩ := Prod.mk.inj hst
    exact ⟨s, hs, hrun, hdeliv.trans hnext.symm⟩
  · have hok : (Machine.run (step sampleConfig) new [pduOf 0, pduOf 32768, .tick, .tick, .expire]).map
        (fun s => (s.isRunning, s.st.rxDeliv, s.st.rxNext)) = .ok (false, 1, 32769) := by decide +kernel
    obtain ⟨s, hs, hv⟩ := map_eq_ok.mp hok
    obtain ⟨hrun, hst⟩ := Prod.mk.inj hv
    obtain ⟨hdeliv, hnext⟩ := Prod.mk.inj hst
    exact ⟨s, hs, hrun, by rw [hdeliv, hnext]; decide⟩

end GtpuTunnelNguRx

end Ocudu.Gtpu
