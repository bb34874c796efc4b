import Ocudu.Rlc.UmInOrder

/-! A UM receiver that gets some of the PDUs, in an order that is less than half the SN space away
from the one in which they were sent. -/

namespace Ocudu.Rlc

open SeqNum

namespace RlcRxUmEntity

variable {s t : RlcRxUmEntity} {top r a : Nat}

/-- The state variables as SNs that do not wrap around. -/
structure At (s : RlcRxUmEntity) (top r : Nat) : Prop where
  inv : s.Inv
  highest : s.st.rxNextHighest = top % s.mod
  reassembly : s.st.rxNextReassembly = r % s.mod
  le : r ≤ top
  window : top ≤ r + s.umWindowSize
  below : ∀ x info, s.rxWindow.lookup x = some info → s.rxModBase x < s.umWindowSize

theorem at_new (cfg : RlcRxUmConfig) : (new cfg).At 0 0 where
  inv := inv_new cfg
  highest := by simp [new]
  reassembly := by simp [new]
  le := le_rfl
  window := Nat.zero_le _
  below := by simp [new]

namespace At

theorem base (h : s.At top r) (hlo : top ≤ a + s.umWindowSize) (hhi : a < top + s.umWindowSize) :
    s.rxModBase a = a + s.umWindowSize - top := by
  have hm := s.mod_eq
  rw [rxModBase_eq, h.highest]
  apply dist_unique (by omega)
  rw [Nat.add_assoc, Nat.mod_add_mod, show top + (s.umWindowSize + (a + s.umWindowSize - top)) = a + s.mod by
    omega, Nat.add_mod_right]

theorem base_mod (h : s.At top r) (hlo : top ≤ a + s.umWindowSize) (hhi : a < top + s.umWindowSize) :
    s.rxModBase (a % s.mod) = a + s.umWindowSize - top := by
  rw [rxModBase_mod, h.base hlo hhi]

theorem base_reassembly (h : s.At top r) :
    s.rxModBase s.st.rxNextReassembly = r + s.umWindowSize - top := by
  have hle := h.le
  have hw := s.window_pos
  rw [h.reassembly, h.base_mod h.window (by omega)]

theorem discarded (h : s.At top r) {j : Nat} (hd : Discarded s t s.st.rxNextReassembly j)
    (hj : s.rxModBase s.st.rxNextReassembly + j ≤ s.umWindowSize)
    (hi : t.InvFrom ((s.st.rxNextReassembly + j) % s.mod)) :
    (t.setRxNextReassembly ((s.st.rxNextReassembly + j) % s.mod)).At top (r + j) := by
  have hbase := h.base_reassembly
  have hwin : t.umWindowSize = s.umWindowSize := congrArg (·.snFieldLength.window) hd.cfg
  have hmod : t.mod = s.mod := congrArg (·.snFieldLength.mod) hd.cfg
  have hle := h.le
  have hlow := h.window
  refine ⟨hi.setRxNextReassembly, ?_, ?_, by omega, ?_, ?_⟩
  · change t.st.rxNextHighest = top % t.mod
    rw [hd.st, hmod, h.highest]
  · change (s.st.rxNextReassembly + j) % s.mod = (r + j) % t.mod
    rw [hmod, h.reassembly, Nat.mod_add_mod]
  · change top ≤ r + j + t.umWindowSize
    omega
  · intro x info hx
    change t.rxModBase x < t.umWindowSize
    change t.rxWindow.lookup x = some info at hx
    rw [hd.lookup] at hx
    split_ifs at hx
    rw [rxModBase_congr hd.cfg hd.st, hwin]
    exact h.below x info hx

theorem withRunning (h : s.At top r) (b : Bool) : At { s with reassemblyTimerRunning := b } top r :=
  ⟨h.inv.running b, h.highest, h.reassembly, h.le, h.window, h.below⟩

theorem startReassembly (h : s.At top r) : s.startReassembly.At top r := by
  have hi := h.inv.startReassembly
  unfold RlcRxUmEntity.startReassembly at hi ⊢
  split_ifs at hi ⊢
  · exact ⟨hi, h.highest, h.reassembly, h.le, h.window, h.below⟩
  · exact h

theorem updateReassemblyTimer (h : s.At top r) : s.updateReassemblyTimer.At top r := by
  unfold RlcRxUmEntity.updateReassemblyTimer
  dsimp only
  split_ifs
  · exact h.withRunning false
  · exact (h.withRunning false).startReassembly
  · exact h
  · exact h.startReassembly

end At

structure Shrinks (s t : RlcRxUmEntity) : Prop where
  cfg : t.cfg = s.cfg
  sdus : t.sdus = s.sdus
  lookup : ∀ x info, t.rxWindow.lookup x = some info → s.rxWindow.lookup x = some info

theorem Discarded.shrinks {sn j : Nat} (h : Discarded s t sn j) : Shrinks s t := by
  refine ⟨h.cfg, h.sdus, fun x info hx => ?_⟩
  rw [h.lookup] at hx
  split_ifs at hx
  exact hx

theorem Shrinks.trans {u : RlcRxUmEntity} (h₁ : Shrinks s t) (h₂ : Shrinks t u) : Shrinks s u :=
  ⟨h₂.cfg.trans h₁.cfg, h₂.sdus.trans h₁.sdus, fun x info hx => h₁.lookup x info (h₂.lookup x info hx)⟩

theorem shrinks_startReassembly (s : RlcRxUmEntity) : Shrinks s s.startReassembly := by
  unfold startReassembly
  split_ifs <;> exact ⟨rfl, rfl, fun _ _ hx => hx⟩

theorem shrinks_updateReassemblyTimer (s : RlcRxUmEntity) : Shrinks s s.updateReassemblyTimer := by
  have hoff : Shrinks s { s with reassemblyTimerRunning := false } := ⟨rfl, rfl, fun _ _ hx => hx⟩
  unfold updateReassemblyTimer
  dsimp only
  split_ifs
  · exact hoff
  · exact hoff.trans (shrinks_startReassembly _)
  · exact ⟨rfl, rfl, fun _ _ hx => hx⟩
  · exact shrinks_startReassembly s

theorem At.expire (h : s.At top r) :
    ∃ t r', s.step .expire = .ok t ∧ t.At top r' ∧ r ≤ r' ∧ Shrinks s t := by
  unfold step
  dsimp only
  split_ifs
  · have hoff := h.withRunning false
    obtain ⟨j, t, ht, hd, hj, hi⟩ := hoff.inv.discardExpired
    refine ⟨(t.setRxNextReassembly _).startReassembly, r + j, ?_,
      (hoff.discarded hd hj hi).startReassembly, Nat.le_add_right r j, ?_⟩
    · simp only [RlcRxUmEntity.onExpiredReassemblyTimer, ht, ok_bind, pure_eq_ok]
    · have hshr := hd.shrinks
      have hset : Shrinks s (t.setRxNextReassembly ((s.st.rxNextReassembly + j) % s.mod)) :=
        ⟨hshr.cfg, hshr.sdus, hshr.lookup⟩
      exact hset.trans (shrinks_startReassembly _)
  · exact ⟨s, r, rfl, h, le_rfl, rfl, rfl, fun _ _ hx => hx⟩

/-- `t` is `s` after a segment of SN `a`, whose info object was written as `info`. -/
structure Stores (s t : RlcRxUmEntity) (a : Nat) (info : RlcRxUmSduInfo) : Prop where
  cfg : t.cfg = s.cfg
  sdus : t.sdus = s.sdus ++
    if info.fullyReceived then (info.reassembleSdu s.cfg.maxSlices).toList else []
  lookup_self : ∀ v, t.rxWindow.lookup (a % s.mod) = some v → v = info ∨ v.segments = []
  lookup_other : ∀ x v, x ≠ a % s.mod → t.rxWindow.lookup x = some v → s.rxWindow.lookup x = some v

theorem Stores.shrinks {u : RlcRxUmEntity} {info : RlcRxUmSduInfo} (h : Stores s t a info)
    (hs : Shrinks t u) : Stores s u a info :=
  ⟨hs.cfg.trans h.cfg, hs.sdus.trans h.sdus, fun v hv => h.lookup_self v (hs.lookup _ v hv),
    fun x v hx hv => h.lookup_other x v hx (hs.lookup x v hv)⟩

theorem lookup_of_writeSn (hcap : s.rxWindow.capacity = s.umWindowSize) {info : RlcRxUmSduInfo} {sn : Nat} :
    (∀ v, (s.writeSn sn info).rxWindow.lookup sn = some v → v = info) ∧
      ∀ x v, x ≠ sn → (s.writeSn sn info).rxWindow.lookup x = some v → s.rxWindow.lookup x = some v := by
  constructor
  · intro v hv
    rw [lookup_writeSn hcap, if_pos rfl] at hv
    exact (Option.some.inj hv).symm
  · intro x v hx hv
    rw [lookup_writeSn hcap, if_neg hx] at hv
    split_ifs at hv
    exact hv

theorem stores_writeSn (hcap : s.rxWindow.capacity = s.umWindowSize) {info : RlcRxUmSduInfo}
    (hinfo : info.fullyReceived = false) : Stores s (s.writeSn (a % s.mod) info) a info := by
  obtain ⟨hself, hother⟩ := @lookup_of_writeSn s hcap info (a % s.mod)
  refine ⟨rfl, ?_, fun v hv => .inl (hself v hv), hother⟩
  rw [hinfo]
  exact (List.append_nil _).symm

namespace At

theorem writeSn (h : s.At top r) (hlo : r ≤ a) (hhi : a < top) (info : RlcRxUmSduInfo) :
    (s.writeSn (a % s.mod) info).At top r := by
  have hlow := h.window
  have hbase := h.base_mod (a := a) (by omega) (by omega)
  have hi : (s.writeSn (a % s.mod) info).Inv := h.inv.writeSn (Nat.mod_lt _ s.mod_pos)
    (by rw [hbase, h.base_reassembly]; omega) info
  refine ⟨hi, h.highest, h.reassembly, h.le, h.window, fun x v hx => ?_⟩
  change s.rxModBase x < s.umWindowSize
  rw [lookup_writeSn h.inv.capacity] at hx
  split_ifs at hx with h1
  · rw [h1, hbase]
    omega
  · exact h.below x v hx

theorem deliverSn (h : s.At top r) (sn : Nat) (info : RlcRxUmSduInfo) : (s.deliverSn sn info).At top r := by
  obtain ⟨hcfg, hst, -, -⟩ := deliverSn_frame s sn info
  have hmod : (s.deliverSn sn info).mod = s.mod := by rw [mod, hcfg, mod]
  have hwin : (s.deliverSn sn info).umWindowSize = s.umWindowSize := by rw [umWindowSize, hcfg, umWindowSize]
  refine ⟨h.inv.deliverSn sn info, ?_, ?_, h.le, ?_, fun x v hx => ?_⟩
  · rw [hst, hmod, h.highest]
  · rw [hst, hmod, h.reassembly]
  · rw [hwin]
    exact h.window
  · rw [rxModBase_congr hcfg hst, hwin]
    rw [lookup_deliverSn] at hx
    split_ifs at hx with h1
    · obtain ⟨w, hw, -⟩ := Option.map_eq_some_iff.mp hx
      rw [h1]
      exact h.below sn w hw
    · exact h.below x v hx

theorem stores_deliverSn (h : s.At top r) {info : RlcRxUmSduInfo} (hinfo : info.fullyReceived = true) :
    Stores s ((s.writeSn (a % s.mod) info).deliverSn (a % s.mod) info) a info := by
  obtain ⟨hcfg, -, -, -⟩ := deliverSn_frame (s.writeSn (a % s.mod) info) (a % s.mod) info
  have hlookup := lookup_deliverSn (s.writeSn (a % s.mod) info) (a % s.mod) info
  obtain ⟨-, hother⟩ := @lookup_of_writeSn s h.inv.capacity info (a % s.mod)
  refine ⟨hcfg, ?_, fun v hv => .inr ?_, fun x v hx hv => ?_⟩
  · rw [hinfo, if_pos rfl, RlcRxUmEntity.deliverSn]
    change _ = s.sdus ++ (info.reassembleSdu (s.writeSn (a % s.mod) info).cfg.maxSlices).toList
    cases info.reassembleSdu (s.writeSn (a % s.mod) info).cfg.maxSlices with
    | none => exact (List.append_nil _).symm
    | some sdu => rfl
  · rw [hlookup, if_pos rfl] at hv
    obtain ⟨w, -, rfl⟩ := Option.map_eq_some_iff.mp hv
    rfl
  · rw [hlookup, if_neg hx] at hv
    exact hother x v hx hv

theorem completeSdu (h : s.At top r) (hlo : r ≤ a) (hhi : a < top) {info : RlcRxUmSduInfo}
    (hinfo : info.fullyReceived = true) :
    ∃ t r', (s.writeSn (a % s.mod) info).completeSdu (a % s.mod) info = .ok t ∧ t.At top r' ∧ r ≤ r' ∧
      Stores s t a info := by
  have hstores : Stores s ((s.writeSn (a % s.mod) info).deliverSn (a % s.mod) info) a info :=
    h.stores_deliverSn hinfo
  have hat := (h.writeSn hlo hhi info).deliverSn (a % s.mod) info
  rw [completeSdu_eq]
  split_ifs
  · obtain ⟨j, t, ht, hd, hj, hi⟩ := hat.inv.removeReceived
    rw [Nat.mod_eq_of_lt hat.inv.sn_lt, ht]
    have hshr := hd.shrinks
    exact ⟨_, r + j, rfl, hat.discarded hd hj hi, Nat.le_add_right r j,
      hstores.shrinks ⟨hshr.cfg, hshr.sdus, hshr.lookup⟩⟩
  · exact ⟨_, r, rfl, hat, le_rfl, hstores⟩

theorem slideWindow (h : s.At top r) (hlo : top ≤ a) (hhi : a < top + s.umWindowSize)
    {info : RlcRxUmSduInfo} (hinfo : info.fullyReceived = false) :
    ∃ t r', (s.writeSn (a % s.mod) info).slideWindow (a % s.mod) = .ok t ∧ t.At (a + 1) r' ∧ r ≤ r' ∧
      Stores s t a info := by
  have hle := h.le
  have hlow := h.window
  have hbase := h.base_mod (a := a) (by omega) hhi
  have hedge := h.base_reassembly
  have hstores : Stores s (s.writeSn (a % s.mod) info) a info := stores_writeSn h.inv.capacity hinfo
  have hi : (s.writeSn (a % s.mod) info).Inv := h.inv.writeSn (Nat.mod_lt _ s.mod_pos)
    (by rw [hbase, hedge]; omega) info
  have hold : ∀ x v, (s.writeSn (a % s.mod) info).rxWindow.lookup x = some v → x ≠ a % s.mod →
      s.rxModBase x < s.umWindowSize := fun x v hx hne => h.below x v (hstores.lookup_other x v hne hx)
  have hmod : (s.writeSn (a % s.mod) info).mod = s.mod := rfl
  have hwin : (s.writeSn (a % s.mod) info).umWindowSize = s.umWindowSize := rfl
  have hst : (s.writeSn (a % s.mod) info).st = s.st := rfl
  have hcongr : ∀ x, (s.writeSn (a % s.mod) info).rxModBase x = s.rxModBase x := fun _ => rfl
  generalize s.writeSn (a % s.mod) info = u at hstores hi hold hmod hwin hst hcongr
  have hge : u.umWindowSize ≤ u.rxModBase (a % s.mod) := by
    rw [hwin, hcongr, hbase]
    omega
  have hslide : u.slideBy (a % s.mod) = a + 1 - top := by
    rw [slideBy, hwin, hcongr, hbase]
    omega
  have hlowEdge := hi.rxModBase_lowEdge hge
  have hafter := rxModBase_withHighest hge
  obtain ⟨j, v, hv, hd, hj, hiv⟩ := hi.discardOutside hge
  obtain ⟨l, w, hw, hdw, hl, hiw⟩ := hiv.removeReceived
  have hvwin : v.umWindowSize = u.umWindowSize := congrArg (·.snFieldLength.window) hd.cfg
  have hvmod : v.mod = u.mod := congrArg (·.snFieldLength.mod) hd.cfg
  have hwmod : w.mod = s.mod := (congrArg (·.snFieldLength.mod) hdw.cfg).trans (hvmod.trans hmod)
  have hwwin : w.umWindowSize = s.umWindowSize :=
    (congrArg (·.snFieldLength.window) hdw.cfg).trans (hvwin.trans hwin)
  have hwst : w.st = (u.withHighest (a % s.mod)).st := hdw.st.trans hd.st
  have hwbase : ∀ x, w.rxModBase x = (u.withHighest (a % s.mod)).rxModBase x :=
    rxModBase_congr (hdw.cfg.trans hd.cfg) hwst
  simp only [hcongr, hst, hslide, hedge] at hj hlowEdge hafter
  rw [rxModBase_congr hd.cfg hd.st, hvwin, hwin, hst, hj, hlowEdge] at hl
  refine ⟨w.setRxNextReassembly _, r + j + l, ?_, ⟨hiw.setRxNextReassembly, ?_, ?_, ?_, ?_, ?_⟩, by omega, ?_⟩
  · rw [slideWindow_eq, hv, ok_bind]
    simp only [hw, ok_bind, pure_eq_ok]
  · change w.st.rxNextHighest = (a + 1) % w.mod
    rw [hwst, hwmod]
    simp only [withHighest, nextSn, hmod, Nat.mod_add_mod]
  · change ((u.st.rxNextReassembly + j) % u.mod + l) % v.mod = (r + j + l) % w.mod
    rw [hwmod, hvmod, hmod, hst, h.reassembly, Nat.mod_add_mod, Nat.add_assoc, Nat.mod_add_mod, Nat.add_assoc]
  · omega
  · change a + 1 ≤ r + j + l + w.umWindowSize
    omega
  · intro x info' hx
    change w.rxModBase x < w.umWindowSize
    rw [hwbase, hwwin, hafter]
    obtain hx' := hdw.shrinks.lookup x info' hx
    rw [hd.lookup] at hx'
    split_ifs at hx' with hgone
    change u.rxWindow.lookup x = some info' at hx'
    by_cases hself : x = a % s.mod
    · rw [hself, hbase, if_pos (by lia)]
      omega
    · have hbelow := hold x info' hx' hself
      have hmin := (hi.held x info' hx').2
      rw [hst, hcongr, hcongr] at hmin
      split_ifs with hin
      · omega
      · -- what is below the new window has been removed
        refine absurd ⟨s.rxModBase x - s.rxModBase s.st.rxNextReassembly, by omega, ?_⟩ hgone
        have hx := eq_reassembly_add (hi.held x info' hx').1 (hi.held x info' hx').2
        rw [hst, hcongr, hcongr] at hx
        rw [hst]
        exact hx
  · refine hstores.shrinks ?_
    have hshr := hdw.shrinks
    have hshr' := hd.shrinks
    exact ⟨hshr.cfg.trans hshr'.cfg, hshr.sdus.trans hshr'.sdus,
      fun x info' hx => hshr'.lookup x info' (hshr.lookup x info' hx)⟩

theorem afterStore (h : s.At top r) (hlo : r ≤ a) (hhi : a < top + s.umWindowSize) {info : RlcRxUmSduInfo}
    (hfull : info.fullyReceived = true → a < top) :
    ∃ t r', (s.writeSn (a % s.mod) info).afterStore (a % s.mod) = .ok t ∧ t.At (max top (a + 1)) r' ∧
      r ≤ r' ∧ Stores s t a info := by
  have hlow := h.window
  have hbase : (s.writeSn (a % s.mod) info).rxModBase (a % s.mod) = a + s.umWindowSize - top :=
    h.base_mod (by omega) hhi
  have hwin : (s.writeSn (a % s.mod) info).umWindowSize = s.umWindowSize := rfl
  unfold RlcRxUmEntity.afterStore
  rw [lookup_writeSn h.inv.capacity, if_pos rfl, snInReassemblyWindow_eq, hbase, hwin]
  dsimp only
  cases hinfo : info.fullyReceived with
  | true =>
    have htop : max top (a + 1) = top := max_eq_left (hfull hinfo)
    rw [htop, if_pos rfl]
    exact h.completeSdu hlo (hfull hinfo) hinfo
  | false =>
    simp only [Bool.false_eq_true, if_false]
    by_cases hin : a < top
    · have htop : max top (a + 1) = top := max_eq_left hin
      rw [htop, if_pos (by simp only [decide_eq_true_eq]; omega)]
      exact ⟨_, r, rfl, h.writeSn hlo hin info, le_rfl, stores_writeSn h.inv.capacity hinfo⟩
    · have htop : max top (a + 1) = a + 1 := max_eq_right (by omega)
      rw [htop, if_neg (by simp only [decide_eq_true_eq]; omega)]
      exact h.slideWindow (by omega) hhi hinfo

end At

end RlcRxUmEntity

end Ocudu.Rlc
