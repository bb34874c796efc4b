import Ocudu.Basic.SnWindow
import Ocudu.Rlc.RxAm

/-! The RX window: which SNs it holds, and what each operation of the receiving entity does to it
and to the state variables. -/

namespace Ocudu.Rlc.RlcRxAmEntity

open SeqNum

variable {s t : RlcRxAmEntity} {r hs nh k : Nat}

structure WindowAt (s : RlcRxAmEntity) (r hs nh : Nat) : Prop where
  next : s.st.rxNext = r % s.mod
  status : s.st.rxHighestStatus = hs % s.mod
  highest : s.st.rxNextHighest = nh % s.mod
  next_le : r ≤ hs
  status_le : hs ≤ nh
  highest_le : nh ≤ r + s.amWindowSize
  window : SnWindow s.rxWindow s.mod r nh
  capacity : s.rxWindow.capacity = s.amWindowSize

/-- Where t-Reassembly was started, if it runs: at a trigger above `lo` right behind an SN that
was in the window.  From the trigger up to RX_Highest_Status everything is fully received. -/
def Triggered (s : RlcRxAmEntity) (lo r hs nh : Nat) : Prop :=
  s.reassemblyTimerRunning = true → ∃ trigger, s.st.rxNextStatusTrigger = trigger % s.mod ∧
    lo < trigger ∧ trigger ≤ nh ∧
    (r < trigger → s.rxWindow.contains ((trigger - 1) % s.mod) = true) ∧
    ∀ i, trigger ≤ i → r ≤ i → i < hs → s.fullyReceived (i % s.mod) = true

theorem mod_eq : s.mod = 2 * s.amWindowSize := RlcAmSnSize.mod_eq_two_mul_window

theorem mod_pos : 0 < s.mod := RlcAmSnSize.mod_pos

theorem mod_dvd : s.mod ∣ 2 ^ 32 := RlcAmSnSize.mod_dvd

theorem range_lt_amWindowSize : 255 < s.amWindowSize := RlcAmSnSize.range_lt_window

theorem fullyReceived_congr {sn : Nat} (h : t.rxWindow.lookup sn = s.rxWindow.lookup sn) :
    t.fullyReceived sn = s.fullyReceived sn := by
  rw [fullyReceived, fullyReceived, h]

theorem contains_congr {w w' : CircularMap RlcRxAmSduInfo} {sn : Nat}
    (h : w'.lookup sn = w.lookup sn) : w'.contains sn = w.contains sn := by
  rw [CircularMap.contains, CircularMap.contains, h]

namespace WindowAt

section

variable (h : WindowAt s r hs nh)
include h

theorem base_abs {x : Nat} (hx : x % s.mod = k % s.mod) (hrk : r ≤ k)
    (hkr : k < r + s.mod) : s.rxModBase x = k - r := by
  rw [rxModBase, h.next, subU32_mod mod_dvd, ← dist_mod_right, hx, dist_abs hrk hkr]

theorem base_window {x : Nat} (hx : x % s.mod = k % s.mod) (hrk : r ≤ k)
    (hkr : k ≤ r + s.amWindowSize) : s.rxModBase x = k - r := by
  have := mod_eq (s := s)
  have := range_lt_amWindowSize (s := s)
  exact h.base_abs hx hrk (by omega)

theorem base_next : s.rxModBase s.st.rxNext = 0 := by
  rw [h.base_window (k := r) (by rw [h.next, Nat.mod_mod]) (Nat.le_refl r) (by omega)]
  omega

theorem base_next_succ : s.rxModBase (s.st.rxNext + 1) = 1 := by
  have := range_lt_amWindowSize (s := s)
  rw [h.base_window (k := r + 1) (by rw [h.next, Nat.mod_add_mod]) (by omega) (by omega)]
  omega

theorem base_status : s.rxModBase s.st.rxHighestStatus = hs - r := by
  have := h.status_le
  have := h.highest_le
  exact h.base_window (by rw [h.status, Nat.mod_mod]) h.next_le (by omega)

theorem base_highest : s.rxModBase s.st.rxNextHighest = nh - r := by
  have := h.next_le
  have := h.status_le
  exact h.base_window (by rw [h.highest, Nat.mod_mod]) (by omega) h.highest_le

theorem exists_abs {sn : Nat} (hsn : sn < s.mod) :
    ∃ k, r ≤ k ∧ sn = k % s.mod ∧ s.rxModBase sn = k - r := by
  obtain ⟨k, hrk, hkr, hk⟩ := SeqNum.exists_abs (mod_pos (s := s)) r hsn
  exact ⟨k, hrk, hk.symm, h.base_abs (by rw [← hk, Nat.mod_mod]) hrk hkr⟩

theorem lookup_none (hk : nh ≤ k) (hk' : k < r + s.mod) :
    s.rxWindow.lookup (k % s.mod) = none := by
  cases hl : s.rxWindow.lookup (k % s.mod) with
  | none => rfl
  | some info =>
    obtain ⟨j, hrj, hj, he⟩ := h.window.only _ info hl
    have hnh := h.highest_le
    have := mod_eq (s := s)
    have := mod_inj_of_window (a := r) (j := k) (k := j) (by omega) hk' hrj (by omega) he
    omega

theorem not_fullyReceived (hk : nh ≤ k) (hk' : k < r + s.mod) :
    s.fullyReceived (k % s.mod) = false := by
  rw [fullyReceived, h.lookup_none hk hk']
  rfl

theorem loop_iff (hk : r ≤ k) (hk' : k ≤ nh) :
    (decide (s.rxModBase (k % s.mod) < s.rxModBase s.st.rxNextHighest) &&
      s.fullyReceived (k % s.mod)) = s.fullyReceived (k % s.mod) := by
  have hle := h.highest_le
  rw [h.base_highest, h.base_window (k := k) (Nat.mod_mod _ _) hk (by omega)]
  rcases Nat.lt_or_eq_of_le hk' with hlt | rfl
  · rw [decide_eq_true (by omega), Bool.true_and]
  · have := mod_eq (s := s)
    have := range_lt_amWindowSize (s := s)
    rw [h.not_fullyReceived (Nat.le_refl k) (by omega), Bool.and_false]

end

theorem nextSn_abs (s : RlcRxAmEntity) (k : Nat) : s.nextSn (k % s.mod) = (k + 1) % s.mod := by
  rw [nextSn, Nat.mod_add_mod]

section

variable (h : WindowAt s r hs nh)
include h

theorem firstMissing (fuel : Nat) {j : Nat} (hj : r ≤ j) (hj' : j ≤ nh)
    (hfuel : nh - j ≤ fuel) :
    ∃ j', s.firstMissing fuel (j % s.mod) = .ok (j' % s.mod) ∧ j ≤ j' ∧ j' ≤ nh ∧
      (∀ i, j ≤ i → i < j' → s.fullyReceived (i % s.mod) = true) ∧
      s.fullyReceived (j' % s.mod) = false := by
  have hle := h.highest_le
  have := mod_eq (s := s)
  have := range_lt_amWindowSize (s := s)
  induction fuel generalizing j with
  | zero =>
    obtain rfl : j = nh := by omega
    have hnone := h.not_fullyReceived (Nat.le_refl j) (by omega)
    refine ⟨j, ?_, Nat.le_refl j, Nat.le_refl j, fun i _ _ => by omega, hnone⟩
    rw [RlcRxAmEntity.firstMissing, h.loop_iff hj hj', hnone]
    rfl
  | succ fuel ih =>
    rw [RlcRxAmEntity.firstMissing, h.loop_iff hj hj']
    cases hfull : s.fullyReceived (j % s.mod) with
    | false => exact ⟨j, rfl, Nat.le_refl j, hj', fun i _ _ => by omega, hfull⟩
    | true =>
      have hlt : j < nh := by
        by_contra hge
        rw [h.not_fullyReceived (k := j) (by omega) (by omega)] at hfull
        cases hfull
      obtain ⟨j', hrun, hjj, hj'n, hall, hend⟩ := ih (j := j + 1) (by omega) (by omega) (by omega)
      refine ⟨j', ?_, by omega, hj'n, ?_, hend⟩
      · simpa only [nextSn_abs, if_true] using hrun
      · intro i hi hi'
        rcases Nat.eq_or_lt_of_le hi with rfl | hgt
        · exact hfull
        · exact hall i hgt hi'

theorem removeReceived (fuel : Nat) {j : Nat} (hj : r ≤ j) (hj' : j ≤ nh)
    (hfuel : nh - j ≤ fuel) (hw : SnWindow s.rxWindow s.mod j nh) :
    ∃ j' w, RlcRxAmEntity.removeReceived fuel (j % s.mod) s =
        .ok (j' % s.mod, { s with rxWindow := w }) ∧
      j ≤ j' ∧ j' ≤ nh ∧ w.capacity = s.rxWindow.capacity ∧ SnWindow w s.mod j' nh ∧
      (∀ i, j ≤ i → i < j' → s.fullyReceived (i % s.mod) = true) ∧
      (∀ i, j' ≤ i → i ≤ nh → w.lookup (i % s.mod) = s.rxWindow.lookup (i % s.mod)) ∧
      s.fullyReceived (j' % s.mod) = false := by
  have hle := h.highest_le
  have hm := mod_eq (s := s)
  have hw255 := range_lt_amWindowSize (s := s)
  induction fuel generalizing j s with
  | zero =>
    obtain rfl : j = nh := by omega
    have hnone := h.not_fullyReceived (Nat.le_refl j) (by omega)
    refine ⟨j, s.rxWindow, ?_, Nat.le_refl j, Nat.le_refl j, rfl, hw, fun i _ _ => by omega,
      fun i _ _ => rfl, hnone⟩
    rw [RlcRxAmEntity.removeReceived, h.loop_iff hj hj', hnone]
    rfl
  | succ fuel ih =>
    rw [RlcRxAmEntity.removeReceived, h.loop_iff hj hj']
    cases hfull : s.fullyReceived (j % s.mod) with
    | false =>
      exact ⟨j, s.rxWindow, rfl, Nat.le_refl j, hj', rfl, hw, fun i _ _ => by omega,
        fun i _ _ => rfl, hfull⟩
    | true =>
      have hlt : j < nh := by
        by_contra hge
        rw [h.not_fullyReceived (k := j) (by omega) (by omega)] at hfull
        cases hfull
      have herase := hw.erase_first
      have hcap : (s.rxWindow.erase (j % s.mod)).capacity = s.rxWindow.capacity := by simp
      have hlook : ∀ i, j < i → i ≤ nh →
          (s.rxWindow.erase (j % s.mod)).lookup (i % s.mod) = s.rxWindow.lookup (i % s.mod) := by
        intro i hi hi'
        rw [CircularMap.lookup_erase, if_neg]
        intro he
        have := mod_inj_of_window (a := r) (j := i) (k := j) (by omega) (by omega) hj (by omega) he
        omega
      have hs1 : WindowAt { s with rxWindow := s.rxWindow.erase (j % s.mod) } r hs nh :=
        { h with
          window := herase.weaken (by omega) (by rw [hcap, h.capacity]; exact hle)
          capacity := by rw [hcap]; exact h.capacity }
      obtain ⟨j', w, hrun, hjj, hj'n, hc, hsn, hall, hsame, hend⟩ :=
        ih hs1 (j := j + 1) (by omega) (by omega) (by omega) herase hle hm hw255
      have hfr : ∀ i, j < i → i ≤ nh →
          ({ s with rxWindow := s.rxWindow.erase (j % s.mod) } : RlcRxAmEntity).fullyReceived
            (i % s.mod) = s.fullyReceived (i % s.mod) :=
        fun i hi hi' => fullyReceived_congr (hlook i hi hi')
      refine ⟨j', w, ?_, by omega, hj'n, by rw [hc]; exact hcap, hsn, ?_, ?_, ?_⟩
      · simp only [nextSn_abs, if_true]
        exact hrun
      · intro i hi hi'
        rcases Nat.eq_or_lt_of_le hi with rfl | hgt
        · exact hfull
        · rw [← hfr i hgt (by omega)]
          exact hall i hgt hi'
      · intro i hi hi'
        rw [← hlook i (by omega) hi']
        exact hsame i hi hi'
      · rw [← hfr j' (by omega) hj'n]
        exact hend

theorem inj {j : Nat} (hj : r ≤ j) (hj' : j ≤ r + s.amWindowSize)
    (hk : r ≤ k) (hk' : k ≤ r + s.amWindowSize) (he : j % s.mod = k % s.mod) : j = k := by
  have := h.base_window (x := j) he hk hk'
  have := h.base_window (x := j) rfl hj hj'
  omega

theorem lookup_writeSn (hk : r ≤ k) (hk' : k < r + s.amWindowSize)
    (info : RlcRxAmSduInfo) (sn : Nat) :
    (s.writeSn (k % s.mod) info).rxWindow.lookup sn =
      if sn = k % s.mod then some info else s.rxWindow.lookup sn := by
  unfold writeSn
  by_cases hc : s.rxWindow.contains (k % s.mod) = true
  · obtain ⟨old, hold⟩ := Option.isSome_iff_exists.mp hc
    simp only [hc, if_true, CircularMap.lookup_modify, hold, Option.map_some]
  · have hnone : s.rxWindow.lookup (k % s.mod) = none := by
      simpa [CircularMap.contains] using hc
    simp only [hc]
    exact h.window.lookup_put hk (by rw [h.capacity]; exact hk') info sn

theorem window_writeSn (hk : r ≤ k) (hk' : k < r + s.amWindowSize)
    (info : RlcRxAmSduInfo) :
    SnWindow (s.writeSn (k % s.mod) info).rxWindow s.mod r (max nh (k + 1)) := by
  have hle := h.highest_le
  unfold writeSn
  by_cases hc : s.rxWindow.contains (k % s.mod) = true
  · obtain ⟨old, hold⟩ := Option.isSome_iff_exists.mp hc
    have hlt : k < nh := by
      by_contra hge
      have := mod_eq (s := s)
      rw [h.lookup_none (k := k) (by omega) (by omega)] at hold
      cases hold
    rw [Nat.max_eq_left (by omega)]
    simp only [hc, if_true]
    exact h.window.modify _ _
  · have hnone : s.rxWindow.lookup (k % s.mod) = none := by
      simpa [CircularMap.contains] using hc
    simp only [hc]
    exact h.window.put hk (by rw [h.capacity]; exact hk') info

theorem place (hk : r ≤ k) (hk' : k < r + s.amWindowSize)
    (info : RlcRxAmSduInfo) :
    WindowAt ((s.writeSn (k % s.mod) info).updateRxNextHighest (k % s.mod)) r hs (max nh (k + 1)) ∧
      (s.writeSn (k % s.mod) info).updateRxNextHighest (k % s.mod) =
        { s with
          rxWindow := (s.writeSn (k % s.mod) info).rxWindow
          st := { s.st with rxNextHighest := max nh (k + 1) % s.mod } } := by
  have hle := h.highest_le
  have hs1 : (s.writeSn (k % s.mod) info).updateRxNextHighest (k % s.mod) =
      { s with
        rxWindow := (s.writeSn (k % s.mod) info).rxWindow
        st := { s.st with rxNextHighest := max nh (k + 1) % s.mod } } := by
    have hbase : s.rxModBase (k % s.mod) = k - r := h.base_window (Nat.mod_mod _ _) hk (by omega)
    have hnext := h.next_le
    have hstat := h.status_le
    rw [updateRxNextHighest]
    change (if s.rxModBase (k % s.mod) ≥ s.rxModBase s.st.rxNextHighest then _ else _) = _
    rw [hbase, h.base_highest]
    by_cases hge : nh ≤ k
    · rw [if_pos (by omega), Nat.max_eq_right (by omega)]
      change { s.writeSn (k % s.mod) info with
        st := { s.st with rxNextHighest := s.nextSn (k % s.mod) } } = _
      rw [nextSn_abs]
      rfl
    · rw [if_neg (by omega), Nat.max_eq_left (by omega), ← h.highest]
      rfl
  refine ⟨?_, hs1⟩
  rw [hs1]
  exact
    { next := h.next
      status := h.status
      highest := rfl
      next_le := h.next_le
      status_le := by have := h.status_le; omega
      highest_le := by change max nh (k + 1) ≤ r + s.amWindowSize; omega
      window := h.window_writeSn hk hk' info
      capacity := by
        change (s.writeSn (k % s.mod) info).rxWindow.capacity = s.amWindowSize
        unfold writeSn
        split <;> simp [h.capacity] }

theorem updateRxHighestStatus (hk : r ≤ k) (hkn : k < nh)
    (hfull : s.fullyReceived (k % s.mod) = true)
    (hmiss : s.fullyReceived (hs % s.mod) = true → hs = k) :
    ∃ hs', s.updateRxHighestStatus (k % s.mod) =
        .ok { s with st := { s.st with rxHighestStatus := hs' % s.mod } } ∧
      WindowAt { s with st := { s.st with rxHighestStatus := hs' % s.mod } } r hs' nh ∧
      hs ≤ hs' ∧ s.fullyReceived (hs' % s.mod) = false ∧
      ∀ i, hs ≤ i → i < hs' → s.fullyReceived (i % s.mod) = true := by
  have hle := h.highest_le
  have hnext := h.next_le
  have hstat := h.status_le
  have hbase : s.rxModBase (k % s.mod) = k - r := h.base_window (Nat.mod_mod _ _) hk (by omega)
  rw [RlcRxAmEntity.updateRxHighestStatus, hbase, h.base_status]
  by_cases he : hs = k
  · subst he
    have := mod_eq (s := s)
    obtain ⟨hs', hrun, h1, h2, hall, hend⟩ :=
      h.firstMissing s.mod (j := hs + 1) (by omega) (by omega) (by omega)
    refine ⟨hs', ?_, { h with status := rfl, next_le := by omega, status_le := h2 }, by omega, hend,
      ?_⟩
    · rw [if_pos rfl, h.status, nextSn_abs, hrun]
      rfl
    · intro i hi hi'
      rcases Nat.eq_or_lt_of_le hi with rfl | hgt
      · exact hfull
      · exact hall i hgt hi'
  · have hno : s.fullyReceived (hs % s.mod) = false := by
      cases hf : s.fullyReceived (hs % s.mod) with
      | false => rfl
      | true => exact absurd (hmiss hf) he
    refine ⟨hs, ?_, { h with status := rfl }, Nat.le_refl hs, hno, fun i _ _ => by omega⟩
    rw [if_neg (by omega), ← h.status]

theorem updateRxNext (hk : r ≤ k) (hkn : k < nh)
    (hmiss : s.fullyReceived (r % s.mod) = true → r = k)
    (hstatus : s.fullyReceived (hs % s.mod) = false) :
    ∃ r' w, s.updateRxNext (k % s.mod) =
        .ok { s with rxWindow := w, st := { s.st with rxNext := r' % s.mod } } ∧
      WindowAt { s with rxWindow := w, st := { s.st with rxNext := r' % s.mod } } r' hs nh ∧
      r ≤ r' ∧ s.fullyReceived (r' % s.mod) = false ∧
      (∀ i, r ≤ i → i < r' → s.fullyReceived (i % s.mod) = true) ∧
      ∀ i, r' ≤ i → i ≤ nh → w.lookup (i % s.mod) = s.rxWindow.lookup (i % s.mod) := by
  have hle := h.highest_le
  have hbase : s.rxModBase (k % s.mod) = k - r := h.base_window (Nat.mod_mod _ _) hk (by omega)
  rw [RlcRxAmEntity.updateRxNext, hbase, h.base_next]
  by_cases he : r = k
  · subst he
    have := mod_eq (s := s)
    obtain ⟨r', w, hrun, h1, h2, hcap, hsn, hall, hsame, hend⟩ :=
      h.removeReceived s.mod (Nat.le_refl r) (by omega) (by omega) h.window
    have hr' : r' ≤ hs := by
      by_contra hgt
      rw [hall hs h.next_le (by omega)] at hstatus
      cases hstatus
    refine ⟨r', w, ?_, ?_, h1, hend, hall, hsame⟩
    · rw [if_pos (by omega), h.next, Nat.mod_mod, hrun]
      rfl
    · exact
        { next := rfl
          status := h.status
          highest := h.highest
          next_le := hr'
          status_le := h.status_le
          highest_le := by change nh ≤ r' + s.amWindowSize; omega
          window := hsn
          capacity := hcap.trans h.capacity }
  · have hno : s.fullyReceived (r % s.mod) = false := by
      cases hf : s.fullyReceived (r % s.mod) with
      | false => rfl
      | true => exact absurd (hmiss hf) he
    refine ⟨r, s.rxWindow, ?_, { h with next := rfl }, Nat.le_refl r, hno, fun i _ _ => by omega,
      fun i _ _ => rfl⟩
    rw [if_neg (by omega), ← h.next]

theorem base_behind (hk : k < r) (hk' : r ≤ k + s.mod) :
    s.rxModBase (k % s.mod) = k + s.mod - r := by
  rw [rxModBase, h.next, subU32_mod mod_dvd, dist_mod_left, dist_mod_right, dist_of_behind hk hk']

end

theorem stopsReassembly (h : WindowAt s r hs nh) {lo trigger : Nat}
    (htr : s.st.rxNextStatusTrigger = trigger % s.mod) (hlo : lo < trigger)
    (hlo' : r ≤ lo + s.amWindowSize) (hnh : trigger ≤ nh)
    (hin : r < trigger → s.rxWindow.contains ((trigger - 1) % s.mod) = true) :
    ∃ stop, s.stopsReassembly = .ok stop ∧ (stop = false → r < trigger) := by
  have hm := mod_eq (s := s)
  have hw := range_lt_amWindowSize (s := s)
  have hle := h.highest_le
  rw [RlcRxAmEntity.stopsReassembly, htr, h.base_next_succ]
  rcases Nat.lt_trichotomy trigger r with hlt | rfl | hgt
  · have hbase := h.base_behind hlt (by omega)
    rw [if_neg (by omega), insideRxWindow, hbase, decide_eq_false (by omega)]
    exact ⟨_, rfl, by simp⟩
  · rw [if_neg, h.next]
    · exact ⟨_, rfl, by simp⟩
    · rw [h.base_window (k := trigger) (Nat.mod_mod _ _) (Nat.le_refl _) (by omega)]
      omega
  · have hbase := h.base_window (k := trigger) (Nat.mod_mod _ _) (by omega) (by omega)
    by_cases he : trigger = r + 1
    · obtain ⟨info, hinfo⟩ := Option.isSome_iff_exists.mp (hin hgt)
      rw [he, Nat.add_sub_cancel, ← h.next] at hinfo
      rw [if_pos (by omega), hinfo]
      exact ⟨_, rfl, fun _ => hgt⟩
    · rw [if_neg (by omega)]
      exact ⟨_, rfl, fun _ => hgt⟩

theorem missingFrom_iff (h : WindowAt s r hs nh) (hk : r ≤ k) (hk' : k ≤ nh) :
    s.missingFrom (k % s.mod) = true ↔
      k + 1 < nh ∨ nh = k + 1 ∧ s.hasGap (k % s.mod) = true := by
  have hm := mod_eq (s := s)
  have hw := range_lt_amWindowSize (s := s)
  have hle := h.highest_le
  have hbase : s.rxModBase (k % s.mod + 1) = k + 1 - r :=
    h.base_abs (Nat.mod_add_mod _ _ _) (by omega) (by omega)
  rw [missingFrom, hbase, h.base_highest]
  simp only [gt_iff_lt, Bool.or_eq_true, decide_eq_true_eq, Bool.and_eq_true, beq_iff_eq]
  refine or_congr ?_ (and_congr ?_ Iff.rfl) <;> omega

theorem startReassembly (h : WindowAt s r hs nh) (hk : r ≤ k) (hk' : k ≤ nh)
    (hlast : r < nh → s.rxWindow.contains ((nh - 1) % s.mod) = true)
    (hoff : s.reassemblyTimerRunning = false) :
    ∃ running trigger, s.startReassembly (k % s.mod) =
        { s with
          reassemblyTimerRunning := running
          st := { s.st with rxNextStatusTrigger := trigger } } ∧
      Triggered
        { s with
          reassemblyTimerRunning := running
          st := { s.st with rxNextStatusTrigger := trigger } } r r hs nh ∧
      (s.missingFrom (k % s.mod) = true → running = true) := by
  rw [RlcRxAmEntity.startReassembly]
  by_cases hmiss : s.missingFrom (k % s.mod) = true
  · have hlt : r < nh := by
      rcases (h.missingFrom_iff hk hk').mp hmiss with h1 | h1 <;> omega
    refine ⟨true, s.st.rxNextHighest, if_pos hmiss, ?_, fun _ => rfl⟩
    intro _
    refine ⟨nh, h.highest, hlt, Nat.le_refl nh, fun _ => hlast hlt, ?_⟩
    intro i hi _ hi'
    have := h.status_le
    omega
  · refine ⟨false, s.st.rxNextStatusTrigger, ?_, fun hrun => ?_, fun hc => absurd hc hmiss⟩
    · rw [if_neg hmiss, ← hoff]
    · cases hrun

theorem updateReassemblyTimer (h : WindowAt s r hs nh) {lo : Nat}
    (hlo' : r ≤ lo + s.amWindowSize) (htr : Triggered s lo r hs nh)
    (hlast : r < nh → s.rxWindow.contains ((nh - 1) % s.mod) = true) :
    ∃ running trigger, s.updateReassemblyTimer =
        .ok { s with
          reassemblyTimerRunning := running
          st := { s.st with rxNextStatusTrigger := trigger } } ∧
      Triggered
        { s with
          reassemblyTimerRunning := running
          st := { s.st with rxNextStatusTrigger := trigger } } r r hs nh ∧
      (s.missingFrom (r % s.mod) = true → running = true) := by
  have hnh := Nat.le_trans h.next_le h.status_le
  rw [RlcRxAmEntity.updateReassemblyTimer]
  cases hrun : s.reassemblyTimerRunning with
  | false =>
    obtain ⟨running, trigger, heq, ht, hmiss⟩ := h.startReassembly (Nat.le_refl r) hnh hlast hrun
    refine ⟨running, trigger, ?_, ht, hmiss⟩
    simp only [Bool.false_eq_true, if_false, ok_bind, hrun, pure_eq_ok]
    exact congrArg Except.ok ((congrArg _ h.next).trans heq)
  | true =>
    obtain ⟨trigger, he, hlt, hle, hin, hall⟩ := htr hrun
    obtain ⟨stop, hstop, hahead⟩ := h.stopsReassembly he hlt hlo' hle hin
    simp only [if_true, hstop, ok_bind]
    cases stop with
    | false =>
      refine ⟨true, s.st.rxNextStatusTrigger, ?_, ?_, fun _ => rfl⟩
      · simp only [Bool.false_eq_true, if_false, hrun, if_true, pure_eq_ok]
        rw [← hrun]
      · intro _
        exact ⟨trigger, he, hahead rfl, hle, hin, hall⟩
    | true =>
      obtain ⟨running, trigger', heq, ht, hmiss⟩ := WindowAt.startReassembly
        (s := { s with reassemblyTimerRunning := false }) { h with } (Nat.le_refl r) hnh hlast rfl
      refine ⟨running, trigger', ?_, ht, hmiss⟩
      simp only [if_true, Bool.false_eq_true, if_false, pure_eq_ok]
      exact congrArg Except.ok ((congrArg _ h.next).trans heq)

end WindowAt

/-- The invariant of a receiving entity between two events. -/
structure Inv (s : RlcRxAmEntity) (r hs nh : Nat) : Prop extends WindowAt s r hs nh where
  next_missing : s.fullyReceived (r % s.mod) = false
  status_missing : s.fullyReceived (hs % s.mod) = false
  last : r < nh → s.rxWindow.contains ((nh - 1) % s.mod) = true
  triggered : Triggered s r r hs nh

/-- The info object that a PDU writes, and whether the status report changes. -/
def placedInfo (s : RlcRxAmEntity) (header : RlcAmPduHeader) (payload : List UInt8) :
    Bool × RlcRxAmSduInfo :=
  if header.si = .fullSdu then
    (true,
      { s.sduInfo header.sn with sduData := .full payload, fullyReceived := true, hasGap := false })
  else
    let (stored, info) := (s.sduInfo header.sn).storeSegment
      { si := header.si, so := header.so, payload }
    (stored, info.updateSegmentInventory)

theorem handleSdu_eq (header : RlcAmPduHeader) (payload : List UInt8) :
    (if header.si = .fullSdu then s.handleFullDataSdu header.sn payload
      else s.handleSegmentDataSdu header payload) =
      ((s.placedInfo header payload).1, s.writeSn header.sn (s.placedInfo header payload).2) := by
  unfold placedInfo
  split <;> rfl

def released (info : RlcRxAmSduInfo) : RlcRxAmSduInfo :=
  if info.fullyReceived then { info with sduData := .full [] } else info

@[simp] theorem released_fullyReceived (info : RlcRxAmSduInfo) :
    (released info).fullyReceived = info.fullyReceived := by
  unfold released
  split <;> rfl

/-- `v` is `s` after `info` has been written at position `k`. -/
structure Stored (s v : RlcRxAmEntity) (k : Nat) (info : RlcRxAmSduInfo) (r hs nh : Nat) : Prop where
  window : WindowAt v r hs (max nh (k + 1))
  frame : v = { s with
    rxWindow := v.rxWindow
    st := { s.st with rxNextHighest := max nh (k + 1) % s.mod } }
  lookup : ∀ sn, v.rxWindow.lookup sn =
    if sn = k % s.mod then some (released info) else s.rxWindow.lookup sn

namespace Stored

variable {v : RlcRxAmEntity} {info : RlcRxAmSduInfo}

theorem mod_eq (h : Stored s v k info r hs nh) : v.mod = s.mod := by rw [h.frame]; rfl

theorem amWindowSize_eq (h : Stored s v k info r hs nh) : v.amWindowSize = s.amWindowSize := by
  rw [h.frame]; rfl

theorem of_incomplete (h : WindowAt s r hs nh) (hk : r ≤ k) (hk' : k < r + s.amWindowSize)
    (hno : info.fullyReceived = false) :
    Stored s ((s.writeSn (k % s.mod) info).updateRxNextHighest (k % s.mod)) k info r hs nh := by
  obtain ⟨hwin, heq⟩ := h.place hk hk' info
  have hrel : released info = info := by simp [released, hno]
  refine ⟨hwin, by rw [heq], fun sn => ?_⟩
  rw [heq, hrel]
  exact h.lookup_writeSn hk hk' info sn

theorem of_complete (h : WindowAt s r hs nh) (hk : r ≤ k) (hk' : k < r + s.amWindowSize)
    (hfull : info.fullyReceived = true) {u : RlcRxAmEntity}
    (hu : u = (s.writeSn (k % s.mod) info).updateRxNextHighest (k % s.mod)) :
    Stored s
      { u with
        rxWindow := u.rxWindow.modify (k % s.mod) (fun i => { i with sduData := .full [] }) }
      k info r hs nh := by
  obtain ⟨hwin, heq⟩ := h.place hk hk' info
  rw [← hu] at hwin heq
  have hlook : ∀ sn, u.rxWindow.lookup sn =
      if sn = k % s.mod then some info else s.rxWindow.lookup sn := by
    intro sn
    rw [heq]
    exact h.lookup_writeSn hk hk' info sn
  refine ⟨{ hwin with window := hwin.window.modify _ _, capacity := ?_ }, ?_, ?_⟩
  · rw [CircularMap.capacity_modify]
    exact hwin.capacity
  · rw [heq]
  · intro sn
    simp only [CircularMap.lookup_modify, hlook, if_true, Option.map_some, released, hfull]
    by_cases hsn : sn = k % s.mod
    · simp [hsn]
    · simp [hsn]

section

variable (h : Stored s v k info r hs nh)
include h

theorem lookup_abs (hk : r ≤ k) (hk' : k < r + s.amWindowSize)
    {i : Nat} (hi : r ≤ i) (hi' : i ≤ r + s.amWindowSize) :
    v.rxWindow.lookup (i % s.mod) =
      if i = k then some (released info) else s.rxWindow.lookup (i % s.mod) := by
  rw [h.lookup]
  by_cases he : i = k
  · rw [if_pos (by rw [he]), if_pos he]
  · rw [if_neg, if_neg he]
    intro hmod
    rw [← h.mod_eq] at hmod
    rw [← h.amWindowSize_eq] at hk' hi'
    exact he (h.window.inj hi hi' hk (by omega) hmod)

theorem fullyReceived_abs (hk : r ≤ k)
    (hk' : k < r + s.amWindowSize) {i : Nat} (hi : r ≤ i) (hi' : i ≤ r + s.amWindowSize) :
    v.fullyReceived (i % s.mod) =
      if i = k then info.fullyReceived else s.fullyReceived (i % s.mod) := by
  rw [fullyReceived, h.lookup_abs hk hk' hi hi']
  split
  · simp
  · rfl

theorem contains_of {sn : Nat}
    (hc : s.rxWindow.contains sn = true) : v.rxWindow.contains sn = true := by
  rw [CircularMap.contains, h.lookup]
  split
  · rfl
  · exact hc

theorem last (hinv : Inv s r hs nh) (hk : r ≤ k) :
    v.rxWindow.contains ((max nh (k + 1) - 1) % s.mod) = true := by
  by_cases hge : nh ≤ k
  · rw [Nat.max_eq_right (by omega), Nat.add_sub_cancel, CircularMap.contains, h.lookup, if_pos rfl]
    rfl
  · rw [Nat.max_eq_left (by omega)]
    exact h.contains_of (hinv.last (by omega))

theorem triggered (hinv : Inv s r hs nh) (hk : r ≤ k)
    (hk' : k < r + s.amWindowSize) (hno : s.fullyReceived (k % s.mod) = false) :
    Triggered v r r hs (max nh (k + 1)) := by
  intro hrun
  have hm := h.mod_eq
  obtain ⟨trigger, he, hlt, hle, hin, hall⟩ := hinv.triggered (by rw [h.frame] at hrun; exact hrun)
  refine ⟨trigger, by rw [h.frame]; exact he, hlt, by omega, ?_, ?_⟩
  · intro hr
    rw [hm]
    exact h.contains_of (hin hr)
  · intro i hi hri his
    have hsw := hinv.status_le
    have hnw := hinv.highest_le
    have hfull := hall i hi hri his
    rw [hm, h.fullyReceived_abs hk hk' hri (by omega), if_neg]
    · exact hfull
    · intro hik
      rw [hik, hno] at hfull
      cases hfull

end

end Stored

/-- `t` is `s` after `info` has been written at position `k` and the state variables and the timer
have followed: all the effects of a PDU that is not discarded. -/
structure Placed (s t : RlcRxAmEntity) (k : Nat) (info : RlcRxAmSduInfo) (r hs nh r' hs' : Nat) :
    Prop where
  inv : Inv t r' hs' (max nh (k + 1))
  next_le : r ≤ r'
  status_le : hs ≤ hs'
  frame : t = { s with
    rxWindow := t.rxWindow, st := t.st, reassemblyTimerRunning := t.reassemblyTimerRunning }
  lookup : ∀ i, r' ≤ i → i ≤ max nh (k + 1) → t.rxWindow.lookup (i % s.mod) =
    if i = k then some (released info) else s.rxWindow.lookup (i % s.mod)
  passed : ∀ i, r ≤ i → i < r' →
    (if i = k then info.fullyReceived else s.fullyReceived (i % s.mod)) = true
  incomplete : info.fullyReceived = false → r' = r ∧ hs' = hs
  timer : t.missingFrom t.st.rxNext = true → t.reassemblyTimerRunning = true

/-- `u` is `s` after `info` has been written at position `k` and the state variables have followed;
the timer is still that of `s`. -/
structure Updated (s u : RlcRxAmEntity) (k : Nat) (info : RlcRxAmSduInfo) (r hs nh r' hs' : Nat) :
    Prop where
  window : WindowAt u r' hs' (max nh (k + 1))
  frame : u = { s with
    rxWindow := u.rxWindow
    st := { u.st with rxNextStatusTrigger := s.st.rxNextStatusTrigger } }
  next_le : r ≤ r'
  status_le : hs ≤ hs'
  next_missing : u.fullyReceived (r' % s.mod) = false
  status_missing : u.fullyReceived (hs' % s.mod) = false
  last : r' < max nh (k + 1) → u.rxWindow.contains ((max nh (k + 1) - 1) % s.mod) = true
  triggered : Triggered u r r' hs' (max nh (k + 1))
  lookup : ∀ i, r' ≤ i → i ≤ max nh (k + 1) → u.rxWindow.lookup (i % s.mod) =
    if i = k then some (released info) else s.rxWindow.lookup (i % s.mod)
  passed : ∀ i, r ≤ i → i < r' →
    (if i = k then info.fullyReceived else s.fullyReceived (i % s.mod)) = true
  incomplete : info.fullyReceived = false → r' = r ∧ hs' = hs

theorem Stored.updated {v u : RlcRxAmEntity} {info : RlcRxAmSduInfo} {r' hs' : Nat}
    {w : CircularMap RlcRxAmSduInfo} (hv : Stored s v k info r hs nh) (hinv : Inv s r hs nh)
    (hk : r ≤ k) (hk' : k < r + s.amWindowSize) (hno : s.fullyReceived (k % s.mod) = false)
    (hu : u = { v with
      rxWindow := w
      st := { v.st with rxHighestStatus := hs' % s.mod, rxNext := r' % s.mod } })
    (hwin : WindowAt u r' hs' (max nh (k + 1))) (hr : r ≤ r') (hh : hs ≤ hs')
    (hpassed : ∀ i, r ≤ i → i < r' → v.fullyReceived (i % s.mod) = true)
    (hstatus : ∀ i, hs ≤ i → i < hs' → v.fullyReceived (i % s.mod) = true)
    (hlook : ∀ i, r' ≤ i → i ≤ max nh (k + 1) →
      w.lookup (i % s.mod) = v.rxWindow.lookup (i % s.mod))
    (hnext : v.fullyReceived (r' % s.mod) = false) (hst : v.fullyReceived (hs' % s.mod) = false)
    (hinc : info.fullyReceived = false → r' = r ∧ hs' = hs) :
    Updated s u k info r hs nh r' hs' := by
  have hm := hv.mod_eq
  have hum : u.mod = s.mod := by rw [hu]; exact hm
  have hwu : u.rxWindow = w := by rw [hu]
  have hle := hinv.highest_le
  have h1 := hwin.next_le
  have h2 := hwin.status_le
  have hur : ∀ i, r' ≤ i → i ≤ max nh (k + 1) →
      u.fullyReceived (i % s.mod) = v.fullyReceived (i % s.mod) := by
    intro i hi hi'
    exact fullyReceived_congr (by rw [hwu]; exact hlook i hi hi')
  constructor
  · exact hwin
  · rw [hu, hv.frame]
  · exact hr
  · exact hh
  · rw [hur r' (Nat.le_refl _) (by omega)]
    exact hnext
  · rw [hur hs' h1 h2]
    exact hst
  · intro hlt
    rw [hwu, contains_congr (hlook _ (by omega) (by omega))]
    exact hv.last hinv hk
  · intro hrun
    have htv := hv.triggered hinv hk hk' hno
    obtain ⟨trigger, he, hlt, htle, hin, hall⟩ := htv (by rw [hu] at hrun; exact hrun)
    rw [hm] at he hin hall
    refine ⟨trigger, by rw [hu]; exact he.trans (by rw [← hm]; rfl), hlt, htle, ?_, ?_⟩
    · intro hgt
      rw [hum, hwu, contains_congr (hlook _ (by omega) (by omega))]
      exact hin (by omega)
    · intro i hi hri his
      rw [hum, hur i hri (by omega)]
      by_cases hold : i < hs
      · exact hall i hi (by omega) hold
      · exact hstatus i (by omega) his
  · intro i hi hi'
    rw [hwu, hlook i hi hi', hv.lookup_abs hk hk' (by omega) (by omega)]
  · intro i hi hi'
    rw [← hv.fullyReceived_abs hk hk' hi (by omega)]
    exact hpassed i hi hi'
  · exact hinc

theorem Updated.timer {u : RlcRxAmEntity} {info : RlcRxAmSduInfo} {r' hs' : Nat}
    (h : Updated s u k info r hs nh r' hs') (hinv : Inv s r hs nh) (hk' : k < r + s.amWindowSize) :
    ∃ t, u.updateReassemblyTimer = .ok t ∧ Placed s t k info r hs nh r' hs' := by
  have hum : u.mod = s.mod := by rw [h.frame]; rfl
  have huw : u.amWindowSize = s.amWindowSize := by rw [h.frame]; rfl
  have hle := hinv.highest_le
  have h1 := h.window.next_le
  have h2 := h.window.status_le
  have hlast := h.last
  rw [← hum] at hlast
  obtain ⟨running, trigger, heq, ht, hmiss⟩ := h.window.updateReassemblyTimer (by omega) h.triggered hlast
  refine ⟨_, heq, ?_⟩
  constructor
  · exact
      { h.window with
        next_missing := by
          change u.fullyReceived (r' % u.mod) = false
          rw [hum]
          exact h.next_missing
        status_missing := by
          change u.fullyReceived (hs' % u.mod) = false
          rw [hum]
          exact h.status_missing
        last := hlast
        triggered := ht }
  · exact h.next_le
  · exact h.status_le
  · rw [h.frame]
  · exact h.lookup
  · exact h.passed
  · exact h.incomplete
  · intro hmissing
    apply hmiss
    change u.missingFrom u.st.rxNext = true at hmissing
    rwa [h.window.next] at hmissing

def outcome (s : RlcRxAmEntity) (info : RlcRxAmSduInfo) : RxOutcome :=
  if info.fullyReceived then s.deliver info else .nothing

theorem insideRxWindow_iff (h : WindowAt s r hs nh) (hk : r ≤ k) (hk' : k < r + s.mod) :
    s.insideRxWindow (k % s.mod) = true ↔ k < r + s.amWindowSize := by
  rw [insideRxWindow, h.base_abs (Nat.mod_mod _ _) hk hk', decide_eq_true_eq]
  omega

namespace Inv

theorem completeSdu (hinv : Inv s r hs nh) {info : RlcRxAmSduInfo} {u : RlcRxAmEntity} (hk : r ≤ k)
    (hk' : k < r + s.amWindowSize) (hno : s.fullyReceived (k % s.mod) = false)
    (hfull : info.fullyReceived = true)
    (hu : u = (s.writeSn (k % s.mod) info).updateRxNextHighest (k % s.mod)) :
    ∃ v r' hs', u.completeSdu (k % s.mod) info = .ok (s.deliver info, v) ∧
      Updated s v k info r hs nh r' hs' := by
  have hw := hinv.toWindowAt
  have hnext := hinv.next_le
  have hstat := hinv.status_le
  have hhigh := hinv.highest_le
  obtain ⟨-, heq⟩ := hw.place hk hk' info
  have hdel : u.deliver info = s.deliver info := by
    rw [hu, heq]
    rfl
  have hst := Stored.of_complete hw hk hk' hfull hu
  rw [RlcRxAmEntity.completeSdu, hdel]
  generalize ({ u with rxWindow := _ } : RlcRxAmEntity) = v at hst
  have hm := hst.mod_eq
  have hfr := fun i (hi : r ≤ i) (hi' : i ≤ r + s.amWindowSize) =>
    hst.fullyReceived_abs hk hk' hi hi'
  have hmissing : ∀ i, r ≤ i → i ≤ r + s.amWindowSize → s.fullyReceived (i % s.mod) = false →
      v.fullyReceived (i % v.mod) = true → i = k := by
    intro i hi hi' hno' hv
    rw [hm, hfr i hi hi'] at hv
    by_contra hne
    rw [if_neg hne, hno'] at hv
    cases hv
  obtain ⟨hs', hrun1, hwin1, hh, hst1, hall1⟩ := hst.window.updateRxHighestStatus (k := k) hk
    (by omega) (by rw [hm, hfr k hk (by omega), if_pos rfl]; exact hfull)
    (hmissing hs hnext (by omega) hinv.status_missing)
  obtain ⟨r', w, hrun2, hwin2, hr, hnext2, hall2, hlook2⟩ := hwin1.updateRxNext (k := k) hk
    (by omega) (hmissing r (Nat.le_refl _) (by omega) hinv.next_missing) hst1
  have hp := @Stored.updated s r hs nh k _ _ _ r' hs' w hst hinv hk hk' hno rfl
    (by rw [← hm]; exact hwin2) hr hh (by rw [← hm]; exact hall2) (by rw [← hm]; exact hall1)
    (by rw [← hm]; exact hlook2) (by rw [← hm]; exact hnext2) (by rw [← hm]; exact hst1)
    (fun hc => by rw [hfull] at hc; cases hc)
  refine ⟨_, r', hs', ?_, hp⟩
  rw [← hm, hrun1, ok_bind]
  exact bind_eq_ok.mpr ⟨_, hrun2, rfl⟩

theorem keepSdu (hinv : Inv s r hs nh) {info : RlcRxAmSduInfo} {v : RlcRxAmEntity} (hk : r ≤ k)
    (hk' : k < r + s.amWindowSize) (hno : s.fullyReceived (k % s.mod) = false)
    (hinc : info.fullyReceived = false)
    (hv : v = (s.writeSn (k % s.mod) info).updateRxNextHighest (k % s.mod)) :
    Updated s v k info r hs nh r hs := by
  have hw := hinv.toWindowAt
  have hnext := hinv.next_le
  have hstat := hinv.status_le
  have hhigh := hinv.highest_le
  have hst := Stored.of_incomplete hw hk hk' hinc
  rw [← hv] at hst
  have hmissing : ∀ i, r ≤ i → i ≤ r + s.amWindowSize → s.fullyReceived (i % s.mod) = false →
      v.fullyReceived (i % s.mod) = false := by
    intro i hi hi' hno'
    rw [hst.fullyReceived_abs hk hk' hi hi']
    split <;> assumption
  refine hst.updated hinv hk hk' hno (w := v.rxWindow) ?_ hst.window (Nat.le_refl _) (Nat.le_refl _)
    (fun i _ _ => by omega) (fun i _ _ => by omega) (fun i _ _ => rfl)
    (hmissing r (Nat.le_refl _) (by omega) hinv.next_missing)
    (hmissing hs hnext (by omega) hinv.status_missing) (fun _ => ⟨rfl, rfl⟩)
  rw [hst.frame]
  simp only [← hw.next, ← hw.status]

theorem receiveUpdates (hinv : Inv s r hs nh) {header : RlcAmPduHeader} (payload : List UInt8)
    (hsn : header.sn = k % s.mod) (hk : r ≤ k) (hk' : k < r + s.amWindowSize)
    (hno : s.fullyReceived (k % s.mod) = false) :
    ∃ u r' hs', s.receiveUpdates header payload =
        .ok (s.outcome (s.placedInfo header payload).2, (s.placedInfo header payload).1, u) ∧
      Updated s u k (s.placedInfo header payload).2 r hs nh r' hs' := by
  have hw := hinv.toWindowAt
  rw [RlcRxAmEntity.receiveUpdates, handleSdu_eq, hsn]
  generalize s.placedInfo header payload = placed
  obtain ⟨changed, info⟩ := placed
  obtain ⟨-, heq⟩ := hw.place hk hk' info
  have hlook : ((s.writeSn (k % s.mod) info).updateRxNextHighest (k % s.mod)).rxWindow.lookup
      (k % s.mod) = some info := by
    rw [heq]
    exact (hw.lookup_writeSn hk hk' info _).trans (if_pos rfl)
  simp only [hlook]
  cases hfull : info.fullyReceived with
  | false =>
    refine ⟨_, r, hs, ?_, hinv.keepSdu hk hk' hno hfull rfl⟩
    simp only [outcome, hfull, Bool.false_eq_true, if_false, ok_bind, pure_eq_ok]
  | true =>
    obtain ⟨v, r', hs', hrun, hupd⟩ := hinv.completeSdu hk hk' hno hfull rfl
    refine ⟨v, r', hs', ?_, hupd⟩
    simp only [outcome, hfull, if_true, hrun, ok_bind, pure_eq_ok]

theorem receive (hinv : Inv s r hs nh) {header : RlcAmPduHeader} (payload : List UInt8)
    (hsn : header.sn = k % s.mod) (hk : r ≤ k) (hk' : k < r + s.amWindowSize)
    (hno : s.fullyReceived (k % s.mod) = false) :
    ∃ t r' hs', s.receive header payload =
        .ok (s.outcome (s.placedInfo header payload).2, (s.placedInfo header payload).1, t) ∧
      Placed s t k (s.placedInfo header payload).2 r hs nh r' hs' := by
  have hm := mod_eq (s := s)
  have hin := (insideRxWindow_iff hinv.toWindowAt hk (by omega)).mpr hk'
  obtain ⟨u, r', hs', hupd, hu⟩ := hinv.receiveUpdates payload hsn hk hk' hno
  obtain ⟨t, ht, hp⟩ := hu.timer hinv hk'
  refine ⟨t, r', hs', ?_, hp⟩
  rw [RlcRxAmEntity.receive, hsn, hin, hno]
  simp only [Bool.not_true, Bool.false_eq_true, if_false, hupd, ok_bind, ht, pure_eq_ok]

end Inv

end Ocudu.Rlc.RlcRxAmEntity
