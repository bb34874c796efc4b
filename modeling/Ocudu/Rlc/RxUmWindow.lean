import Ocudu.Rlc.RxUm

/-! The reassembly window of the UM receiver: what is below RX_Next_Reassembly has left the
window, and RX_Next_Reassembly is never more than UM_Window_Size behind RX_Next_Highest. -/

namespace Ocudu.SeqNum

variable {m a b x : Nat}

theorem dist_dist (hm : 0 < m) (a b x : Nat) : dist m a (dist m b x) = dist m (b + a) x := by
  symm
  apply dist_unique (dist_lt hm _ _)
  rw [Nat.add_assoc, Nat.add_mod, add_dist_mod hm a, ← Nat.add_mod, Nat.add_mod,
    Nat.mod_eq_of_lt (dist_lt hm b x), ← Nat.add_mod_mod, Nat.mod_eq_of_lt (dist_lt hm b x),
    Nat.mod_add_mod, add_dist_mod hm]

theorem dist_add (hm : 0 < m) (a x j : Nat) : dist m a (x + j) = (dist m a x + j) % m := by
  apply dist_unique (Nat.mod_lt _ hm)
  rw [Nat.add_mod_mod, ← Nat.add_assoc, Nat.add_mod, add_dist_mod hm, ← Nat.add_mod]

theorem dist_inj (hm : 0 < m) {a x y : Nat} (hx : x < m) (hy : y < m)
    (h : dist m a x = dist m a y) : x = y := by
  have hx' := add_dist_mod hm a x
  have hy' := add_dist_mod hm a y
  rw [h, hy', Nat.mod_eq_of_lt hx, Nat.mod_eq_of_lt hy] at hx'
  exact hx'.symm

theorem dist_advance (hm : 0 < m) {d : Nat} (hd : d ≤ m) (a x : Nat) :
    dist m (a + d) x = if d ≤ dist m a x then dist m a x - d else dist m a x + m - d := by
  have hlt := dist_lt hm a x
  have hadd := add_dist_mod hm a x
  split_ifs with h
  · apply dist_unique (by omega)
    rw [← hadd]
    congr 1
    omega
  · apply dist_unique (by omega)
    rw [← hadd]
    have hsum : a + d + (dist m a x + m - d) = a + dist m a x + m := by omega
    rw [hsum, Nat.add_mod_right]

end Ocudu.SeqNum

namespace Ocudu.Rlc

open SeqNum

namespace RlcRxUmEntity

variable {s t : RlcRxUmEntity} {sn x : Nat}

theorem mod_pos (s : RlcRxUmEntity) : 0 < s.mod := RlcUmSnSize.mod_pos

theorem mod_eq (s : RlcRxUmEntity) : s.mod = 2 * s.umWindowSize := RlcUmSnSize.mod_eq_two_mul_window

theorem window_pos (s : RlcRxUmEntity) : 0 < s.umWindowSize := RlcUmSnSize.window_pos

theorem one_lt_window (s : RlcRxUmEntity) : 1 < s.umWindowSize := RlcUmSnSize.one_lt_window

theorem rxModBase_eq (s : RlcRxUmEntity) (x : Nat) :
    s.rxModBase x = dist s.mod (s.st.rxNextHighest + s.umWindowSize) x := by
  have hdvd : s.mod ∣ 2 ^ 32 := RlcUmSnSize.mod_dvd
  rw [rxModBase, subU32_mod hdvd, ← dist_mod_right, subU32_mod hdvd, dist_dist s.mod_pos]

theorem rxModBase_lt (s : RlcRxUmEntity) (x : Nat) : s.rxModBase x < s.mod := by
  rw [rxModBase_eq]
  exact dist_lt s.mod_pos _ _

theorem rxModBase_highest (s : RlcRxUmEntity) : s.rxModBase s.st.rxNextHighest = s.umWindowSize := by
  have hm := s.mod_eq
  have hw := s.window_pos
  rw [rxModBase_eq, dist_of_behind (by omega) (by omega)]
  omega

theorem rxModBase_lowest (s : RlcRxUmEntity) :
    s.rxModBase (subU32 s.st.rxNextHighest s.umWindowSize) = 0 := by
  have hm := s.mod_eq
  have hw := s.window_pos
  have hdvd : s.mod ∣ 2 ^ 32 := RlcUmSnSize.mod_dvd
  have hlow : SeqNum.dist s.mod s.umWindowSize s.st.rxNextHighest =
      (s.st.rxNextHighest + s.umWindowSize) % s.mod := by
    apply dist_unique (Nat.mod_lt _ s.mod_pos)
    rw [Nat.add_mod_mod, show s.umWindowSize + (s.st.rxNextHighest + s.umWindowSize) =
      s.st.rxNextHighest + s.mod by omega, Nat.add_mod_right]
  rw [rxModBase_eq]
  apply dist_unique s.mod_pos
  rw [subU32_mod hdvd, hlow, Nat.add_zero]

theorem snInReassemblyWindow_eq (s : RlcRxUmEntity) (sn : Nat) :
    s.snInReassemblyWindow sn = decide (s.rxModBase sn < s.umWindowSize) := by
  simp [snInReassemblyWindow, rxModBase_lowest, rxModBase_highest]

theorem snInvalidForRxBuffer_eq (s : RlcRxUmEntity) (sn : Nat) :
    s.snInvalidForRxBuffer sn = decide (s.rxModBase sn < s.rxModBase s.st.rxNextReassembly) := by
  simp [snInvalidForRxBuffer, rxModBase_lowest]

@[simp] theorem rxModBase_mod (s : RlcRxUmEntity) (x : Nat) : s.rxModBase (x % s.mod) = s.rxModBase x := by
  rw [rxModBase_eq, rxModBase_eq, dist_mod_right]

theorem rxModBase_add (s : RlcRxUmEntity) (x j : Nat) :
    s.rxModBase (x + j) = (s.rxModBase x + j) % s.mod := by
  rw [rxModBase_eq, rxModBase_eq, dist_add s.mod_pos]

theorem rxModBase_inj {y : Nat} (hx : x < s.mod) (hy : y < s.mod)
    (h : s.rxModBase x = s.rxModBase y) : x = y := by
  rw [rxModBase_eq, rxModBase_eq] at h
  exact dist_inj s.mod_pos hx hy h

theorem eq_reassembly_add (hx : x < s.mod)
    (hge : s.rxModBase s.st.rxNextReassembly ≤ s.rxModBase x) :
    x = (s.st.rxNextReassembly + (s.rxModBase x - s.rxModBase s.st.rxNextReassembly)) % s.mod := by
  apply rxModBase_inj hx (Nat.mod_lt _ s.mod_pos)
  rw [rxModBase_mod, rxModBase_add, Nat.add_sub_cancel' hge, Nat.mod_eq_of_lt (s.rxModBase_lt x)]

theorem rxModBase_congr (hcfg : t.cfg = s.cfg) (hst : t.st = s.st) (x : Nat) :
    t.rxModBase x = s.rxModBase x := by
  simp only [rxModBase, mod, umWindowSize, hcfg, hst]

structure Discarded (s t : RlcRxUmEntity) (sn j : Nat) : Prop where
  cfg : t.cfg = s.cfg
  st : t.st = s.st
  running : t.reassemblyTimerRunning = s.reassemblyTimerRunning
  sdus : t.sdus = s.sdus
  capacity : t.rxWindow.capacity = s.rxWindow.capacity
  lookup : ∀ x, t.rxWindow.lookup x =
    if ∃ i < j, x = (sn + i) % s.mod then none else s.rxWindow.lookup x

theorem discarded_zero (s : RlcRxUmEntity) (sn : Nat) : Discarded s s sn 0 :=
  ⟨rfl, rfl, rfl, rfl, rfl, by simp⟩

theorem discarded_discardSn (s : RlcRxUmEntity) (hsn : sn < s.mod) : Discarded s (s.discardSn sn) sn 1 := by
  have hone : ∀ x, (∃ i < 1, x = (sn + i) % s.mod) ↔ x = sn := by
    intro x
    simp [Nat.mod_eq_of_lt hsn]
  simp only [discardSn]
  cases hl : s.rxWindow.lookup sn with
  | none =>
    refine ⟨rfl, rfl, rfl, rfl, rfl, fun x => ?_⟩
    simp only [hone]
    split_ifs with hx
    · rw [hx, hl]
    · rfl
  | some info =>
    refine ⟨rfl, rfl, rfl, rfl, by simp, fun x => ?_⟩
    simp only [hone, CircularMap.lookup_erase]

theorem Discarded.trans {u : RlcRxUmEntity} {j : Nat} (h₁ : Discarded s t sn 1)
    (h₂ : Discarded t u (s.nextSn sn) j) : Discarded s u sn (j + 1) where
  cfg := h₂.cfg.trans h₁.cfg
  st := h₂.st.trans h₁.st
  running := h₂.running.trans h₁.running
  sdus := h₂.sdus.trans h₁.sdus
  capacity := h₂.capacity.trans h₁.capacity
  lookup x := by
    have hmod : t.mod = s.mod := by simp only [mod, h₁.cfg]
    have hnext : ∀ i, (s.nextSn sn + i) % s.mod = (sn + (i + 1)) % s.mod := by
      intro i
      rw [nextSn, Nat.mod_add_mod]
      congr 1
      omega
    rw [h₂.lookup, h₁.lookup, hmod]
    simp only [hnext]
    have hiff : (∃ i < j + 1, x = (sn + i) % s.mod) ↔
        (∃ i < j, x = (sn + (i + 1)) % s.mod) ∨ ∃ i < 1, x = (sn + i) % s.mod := by
      constructor
      · rintro ⟨i, hi, hx⟩
        cases i with
        | zero => exact .inr ⟨0, by omega, hx⟩
        | succ i => exact .inl ⟨i, by omega, hx⟩
      · rintro (⟨i, hi, hx⟩ | ⟨i, hi, hx⟩)
        · exact ⟨i + 1, by omega, hx⟩
        · exact ⟨i, by omega, hx⟩
    by_cases hin : ∃ i < j, x = (sn + (i + 1)) % s.mod
    · rw [if_pos hin, if_pos (hiff.mpr (.inl hin))]
    · rw [if_neg hin]
      by_cases hfirst : ∃ i < 1, x = (sn + i) % s.mod
      · rw [if_pos hfirst, if_pos (hiff.mpr (.inr hfirst))]
      · rw [if_neg hfirst, if_neg fun h => (hiff.mp h).elim hin hfirst]

theorem walk_stop {cond : RlcRxUmEntity → Nat → Bool} {fuel : Nat} (h : cond s sn = false) :
    walk cond fuel sn s = .ok (sn, s) := by
  rw [walk.eq_def]
  simp [h]

theorem walk_next {cond : RlcRxUmEntity → Nat → Bool} {fuel : Nat} (h : cond s sn = true) :
    walk cond (fuel + 1) sn s = walk cond fuel (s.nextSn sn) (s.discardSn sn) := by
  rw [walk.eq_def]
  simp [h]

@[simp] theorem discardSn_cfg (s : RlcRxUmEntity) (sn : Nat) : (s.discardSn sn).cfg = s.cfg := by
  unfold discardSn
  cases s.rxWindow.lookup sn <;> rfl

theorem walk_frame {cond : RlcRxUmEntity → Nat → Bool} {fuel a : Nat} (hsn : sn < s.mod)
    (hw : walk cond fuel sn s = .ok (a, t)) : t.cfg = s.cfg ∧ a < s.mod := by
  induction fuel generalizing s sn with
  | zero =>
    rw [walk.eq_def] at hw
    dsimp only at hw
    split_ifs at hw
    cases hw
    exact ⟨rfl, hsn⟩
  | succ fuel ih =>
    have hcfg := discardSn_cfg s sn
    have hmod : (s.discardSn sn).mod = s.mod := by simp only [mod, hcfg]
    rw [walk.eq_def] at hw
    dsimp only at hw
    split_ifs at hw
    · obtain ⟨h1, h2⟩ := ih (by rw [hmod]; exact Nat.mod_lt _ s.mod_pos) hw
      exact ⟨h1.trans hcfg, by rwa [hmod] at h2⟩
    · cases hw
      exact ⟨rfl, hsn⟩

theorem walk_ok (cond : RlcRxUmEntity → Nat → Bool) (n fuel : Nat) (hn : n ≤ fuel) (hsn : sn < s.mod)
    (hstop : ∀ t : RlcRxUmEntity, t.cfg = s.cfg → t.st = s.st → cond t ((sn + n) % s.mod) = false) :
    ∃ j t, j ≤ n ∧ walk cond fuel sn s = .ok ((sn + j) % s.mod, t) ∧ Discarded s t sn j ∧
      cond t ((sn + j) % s.mod) = false ∧
      ∀ i < j, ∃ r, Discarded s r sn i ∧ cond r ((sn + i) % s.mod) = true := by
  induction n generalizing fuel sn s with
  | zero =>
    have hfalse := hstop s rfl rfl
    rw [Nat.add_zero, Nat.mod_eq_of_lt hsn] at hfalse
    refine ⟨0, s, Nat.le_refl 0, ?_, discarded_zero s sn, ?_, fun i hi => absurd hi (Nat.not_lt_zero i)⟩
    · rw [walk_stop hfalse, Nat.add_zero, Nat.mod_eq_of_lt hsn]
    · rwa [Nat.add_zero, Nat.mod_eq_of_lt hsn]
  | succ n ih =>
    cases hc : cond s sn with
    | true =>
      cases fuel with
      | zero => omega
      | succ fuel =>
        have hone := discarded_discardSn s hsn
        have hmod : (s.discardSn sn).mod = s.mod := by simp only [mod, hone.cfg]
        have hnext : ∀ i, (s.nextSn sn + i) % s.mod = (sn + (i + 1)) % s.mod := by
          intro i
          rw [nextSn, Nat.mod_add_mod]
          congr 1
          omega
        obtain ⟨j, t, hj, hw, hd, hfalse, hpassed⟩ := @ih (s.discardSn sn) (s.nextSn sn) fuel
          (by omega) (by rw [hmod]; exact Nat.mod_lt _ s.mod_pos) (by
            intro t hcfg hst
            rw [hmod, hnext]
            exact hstop t (hcfg.trans hone.cfg) (hst.trans hone.st))
        rw [hmod, hnext] at hw hfalse
        refine ⟨j + 1, t, by omega, by rw [walk_next hc]; exact hw, hone.trans hd, hfalse, fun i hi => ?_⟩
        cases i with
        | zero => exact ⟨s, discarded_zero s sn, by rwa [Nat.add_zero, Nat.mod_eq_of_lt hsn]⟩
        | succ i =>
          obtain ⟨r, hr, htrue⟩ := hpassed i (by omega)
          rw [hmod, hnext] at htrue
          exact ⟨r, hone.trans hr, htrue⟩
    | false =>
      refine ⟨0, s, Nat.zero_le _, ?_, discarded_zero s sn, ?_, fun i hi => absurd hi (Nat.not_lt_zero i)⟩
      · rw [walk_stop hc, Nat.add_zero, Nat.mod_eq_of_lt hsn]
      · rwa [Nat.add_zero, Nat.mod_eq_of_lt hsn]

structure InvFrom (s : RlcRxUmEntity) (sn : Nat) : Prop where
  sn_lt : sn < s.mod
  trigger_lt : s.st.rxTimerTrigger < s.mod
  highest_lt : s.st.rxNextHighest < s.mod
  capacity : s.rxWindow.capacity = s.umWindowSize
  le_highest : s.rxModBase sn ≤ s.umWindowSize
  held : ∀ x info, s.rxWindow.lookup x = some info → x < s.mod ∧ s.rxModBase sn ≤ s.rxModBase x

def Inv (s : RlcRxUmEntity) : Prop := s.InvFrom s.st.rxNextReassembly

theorem inv_new (cfg : RlcRxUmConfig) : (new cfg).Inv where
  sn_lt := mod_pos _
  trigger_lt := mod_pos _
  highest_lt := mod_pos _
  capacity := rfl
  le_highest := (rxModBase_highest (new cfg)).le
  held := by simp [new]

theorem InvFrom.discarded (hi : s.InvFrom sn) {j : Nat} (hd : Discarded s t sn j)
    (hj : s.rxModBase sn + j ≤ s.umWindowSize) : t.InvFrom ((sn + j) % s.mod) := by
  have hmod : t.mod = s.mod := by simp only [mod, hd.cfg]
  have hwin : t.umWindowSize = s.umWindowSize := by simp only [umWindowSize, hd.cfg]
  have hm := s.mod_eq
  have hw := s.window_pos
  have hbase : ∀ i, s.rxModBase sn + i < s.mod → s.rxModBase ((sn + i) % s.mod) = s.rxModBase sn + i := by
    intro i hlt
    rw [rxModBase_mod, rxModBase_add, Nat.mod_eq_of_lt hlt]
  have hcongr := rxModBase_congr hd.cfg hd.st
  refine ⟨?_, ?_, ?_, ?_, ?_, ?_⟩
  · rw [hmod]
    exact Nat.mod_lt _ s.mod_pos
  · rw [hd.st, hmod]
    exact hi.trigger_lt
  · rw [hd.st, hmod]
    exact hi.highest_lt
  · rw [hd.capacity, hi.capacity, hwin]
  · rw [hcongr, hwin, hbase j (by omega)]
    exact hj
  · intro x info hx
    rw [hd.lookup] at hx
    split_ifs at hx with hout
    obtain ⟨hlt, hge⟩ := hi.held x info hx
    rw [hmod, hcongr, hcongr, hbase j (by omega)]
    refine ⟨hlt, ?_⟩
    -- what lies between is one of the SNs that are gone
    by_contra hcon
    refine hout ⟨s.rxModBase x - s.rxModBase sn, by omega, ?_⟩
    apply rxModBase_inj hlt (Nat.mod_lt _ s.mod_pos)
    rw [hbase _ (by omega)]
    omega

theorem InvFrom.walk_passed (hi : s.InvFrom sn) {cond : RlcRxUmEntity → Nat → Bool}
    (hcond : ∀ t x, cond t x = true → t.rxModBase x < t.umWindowSize) :
    ∃ j t, RlcRxUmEntity.walk cond s.mod sn s = .ok ((sn + j) % s.mod, t) ∧ Discarded s t sn j ∧
      s.rxModBase sn + j ≤ s.umWindowSize ∧ t.InvFrom ((sn + j) % s.mod) ∧ cond t ((sn + j) % s.mod) = false ∧
      ∀ i < j, ∃ r, Discarded s r sn i ∧ cond r ((sn + i) % s.mod) = true := by
  have hle := hi.le_highest
  have hm := s.mod_eq
  obtain ⟨j, t, hj, hw, hd, hfalse, hpassed⟩ := walk_ok cond (s.umWindowSize - s.rxModBase sn) s.mod
    (by omega) hi.sn_lt (by
      intro t hcfg hst
      by_contra htrue
      have hlt := hcond t _ (Bool.eq_true_of_not_eq_false htrue)
      have hwin : t.umWindowSize = s.umWindowSize := by simp only [umWindowSize, hcfg]
      have hpos := s.window_pos
      rw [rxModBase_congr hcfg hst, hwin, rxModBase_mod, rxModBase_add, Nat.mod_eq_of_lt (by omega)] at hlt
      omega)
  have hsum : s.rxModBase sn + j ≤ s.umWindowSize := by omega
  exact ⟨j, t, hw, hd, hsum, hi.discarded hd hsum, hfalse, hpassed⟩

theorem InvFrom.walk (hi : s.InvFrom sn) {cond : RlcRxUmEntity → Nat → Bool}
    (hcond : ∀ t x, cond t x = true → t.rxModBase x < t.umWindowSize) :
    ∃ j t, RlcRxUmEntity.walk cond s.mod sn s = .ok ((sn + j) % s.mod, t) ∧ Discarded s t sn j ∧
      s.rxModBase sn + j ≤ s.umWindowSize ∧ t.InvFrom ((sn + j) % s.mod) := by
  obtain ⟨j, t, hw, hd, hsum, hit, -⟩ := hi.walk_passed hcond
  exact ⟨j, t, hw, hd, hsum, hit⟩

theorem InvFrom.removeReceived (hi : s.InvFrom sn) :
    ∃ j t, s.removeReceived sn = .ok ((sn + j) % s.mod, t) ∧ Discarded s t sn j ∧
      s.rxModBase sn + j ≤ s.umWindowSize ∧ t.InvFrom ((sn + j) % s.mod) :=
  hi.walk fun t x hx => by
    rw [rxModBase_highest] at hx
    simp only [Bool.and_eq_true, decide_eq_true_eq] at hx
    exact hx.1

theorem InvFrom.discardExpired (hi : s.InvFrom sn) :
    ∃ j t, s.discardExpired sn = .ok ((sn + j) % s.mod, t) ∧ Discarded s t sn j ∧
      s.rxModBase sn + j ≤ s.umWindowSize ∧ t.InvFrom ((sn + j) % s.mod) :=
  hi.walk fun t x hx => by
    rw [rxModBase_highest] at hx
    simp only [Bool.and_eq_true, decide_eq_true_eq] at hx
    exact hx.1

theorem InvFrom.setRxNextReassembly (hi : s.InvFrom sn) : (s.setRxNextReassembly sn).Inv :=
  ⟨hi.sn_lt, hi.trigger_lt, hi.highest_lt, hi.capacity, hi.le_highest, hi.held⟩

def withHighest (s : RlcRxUmEntity) (sn : Nat) : RlcRxUmEntity :=
  { s with st := { s.st with rxNextHighest := s.nextSn sn } }

/-- How far the window moves for an SN that is outside of it. -/
def slideBy (s : RlcRxUmEntity) (sn : Nat) : Nat := s.rxModBase sn + 1 - s.umWindowSize

theorem rxModBase_withHighest (hge : s.umWindowSize ≤ s.rxModBase sn) (x : Nat) :
    (s.withHighest sn).rxModBase x =
      if s.slideBy sn ≤ s.rxModBase x then s.rxModBase x - s.slideBy sn
      else s.rxModBase x + s.mod - s.slideBy sn := by
  have hm := s.mod_eq
  have hlt := s.rxModBase_lt sn
  have hbase := s.rxModBase_eq sn
  have hadd := add_dist_mod s.mod_pos (s.st.rxNextHighest + s.umWindowSize) sn
  rw [← hbase] at hadd
  have hcongr : ∀ a b, a % s.mod = b % s.mod → SeqNum.dist s.mod a x = SeqNum.dist s.mod b x := by
    intro a b hab
    rw [← dist_mod_left, hab, dist_mod_left]
  have hnew : (s.withHighest sn).rxModBase x =
      SeqNum.dist s.mod (s.st.rxNextHighest + s.umWindowSize + s.slideBy sn) x := by
    rw [rxModBase_eq]
    apply hcongr
    have hsum : s.st.rxNextHighest + s.umWindowSize + s.slideBy sn + s.mod =
        (s.st.rxNextHighest + s.umWindowSize + s.rxModBase sn) + (1 + s.umWindowSize) := by
      unfold slideBy
      omega
    rw [← Nat.add_mod_right (s.st.rxNextHighest + s.umWindowSize + s.slideBy sn), hsum,
      Nat.add_mod (_ + s.rxModBase sn), hadd, ← Nat.add_mod]
    simp only [withHighest, nextSn]
    rw [Nat.mod_add_mod, Nat.add_assoc]
    rfl
  rw [hnew, dist_advance s.mod_pos (by unfold slideBy; omega), ← rxModBase_eq]

theorem Inv.rxModBase_lowEdge (hi : s.Inv) (hge : s.umWindowSize ≤ s.rxModBase sn) :
    (s.withHighest sn).rxModBase ((s.st.rxNextReassembly +
      (s.slideBy sn - s.rxModBase s.st.rxNextReassembly)) % s.mod) =
        s.rxModBase s.st.rxNextReassembly - s.slideBy sn := by
  have hm := s.mod_eq
  have hlt := s.rxModBase_lt sn
  have hle := hi.le_highest
  have hslide : s.slideBy sn = s.rxModBase sn + 1 - s.umWindowSize := rfl
  rw [show s.mod = (s.withHighest sn).mod from rfl, rxModBase_mod, rxModBase_add,
    rxModBase_withHighest hge, show (s.withHighest sn).mod = s.mod from rfl]
  split_ifs with hin
  · rw [Nat.sub_eq_zero_of_le hin, Nat.add_zero, Nat.mod_eq_of_lt (by omega)]
  · rw [show s.rxModBase s.st.rxNextReassembly + s.mod - s.slideBy sn +
      (s.slideBy sn - s.rxModBase s.st.rxNextReassembly) = s.mod by omega, Nat.mod_self]
    omega

theorem Inv.discardOutside (hi : s.Inv) (hge : s.umWindowSize ≤ s.rxModBase sn) :
    ∃ j t, (s.withHighest sn).discardOutside (s.st.rxNextReassembly % s.mod) =
        .ok ((s.st.rxNextReassembly + j) % s.mod, t) ∧
      Discarded (s.withHighest sn) t s.st.rxNextReassembly j ∧
      j = s.slideBy sn - s.rxModBase s.st.rxNextReassembly ∧
      t.InvFrom ((s.st.rxNextReassembly + j) % s.mod) := by
  have hm := s.mod_eq
  have hlt := s.rxModBase_lt sn
  have hle := hi.le_highest
  have hslide : s.slideBy sn = s.rxModBase sn + 1 - s.umWindowSize := rfl
  have hbase := rxModBase_withHighest (x := s.st.rxNextReassembly) hge
  have hedge : ∀ j, (s.withHighest sn).rxModBase ((s.st.rxNextReassembly + j) % s.mod) =
      ((s.withHighest sn).rxModBase s.st.rxNextReassembly + j) % s.mod :=
    fun j => ((s.withHighest sn).rxModBase_mod _).trans ((s.withHighest sn).rxModBase_add _ j)
  have hlow := hi.rxModBase_lowEdge hge
  obtain ⟨j, t, hj, hw, hd, hfalse, -⟩ := walk_ok (s := s.withHighest sn)
    (fun s sn => !s.snInReassemblyWindow sn) (s.slideBy sn - s.rxModBase s.st.rxNextReassembly) s.mod
    (by omega) hi.sn_lt (by
      intro t hcfg hst
      have hwin : t.umWindowSize = s.umWindowSize := by
        simp only [umWindowSize, hcfg]
        rfl
      rw [snInReassemblyWindow_eq, rxModBase_congr hcfg hst, hwin]
      rw [show (s.withHighest sn).mod = s.mod from rfl, hlow]
      simp only [Bool.not_eq_false', decide_eq_true_eq]
      omega)
  rw [show (s.withHighest sn).mod = s.mod from rfl] at hw hfalse
  have hwin : t.umWindowSize = s.umWindowSize := by
    simp only [umWindowSize, hd.cfg]
    rfl
  have hcongr := rxModBase_congr hd.cfg hd.st
  have hall : j = s.slideBy sn - s.rxModBase s.st.rxNextReassembly := by
    rw [snInReassemblyWindow_eq, hcongr, hwin, hedge, hbase] at hfalse
    simp only [Bool.not_eq_false', decide_eq_true_eq] at hfalse
    by_contra hne
    rw [if_neg (by omega), Nat.mod_eq_of_lt (by omega)] at hfalse
    omega
  refine ⟨j, t, ?_, hd, hall, ?_⟩
  · rw [Nat.mod_eq_of_lt hi.sn_lt]
    exact hw
  · subst hall
    have hmod : t.mod = s.mod := by
      simp only [mod, hd.cfg]
      rfl
    refine ⟨?_, ?_, ?_, ?_, ?_, ?_⟩
    · rw [hmod]
      exact Nat.mod_lt _ s.mod_pos
    · rw [hd.st, hmod]
      exact hi.trigger_lt
    · rw [hd.st, hmod]
      exact Nat.mod_lt _ s.mod_pos
    · rw [hd.capacity, hwin]
      exact hi.capacity
    · rw [hcongr, hwin, hlow]
      omega
    · intro x info hx
      rw [hd.lookup] at hx
      split_ifs at hx
      obtain ⟨hxlt, hxge⟩ := hi.held x info hx
      rw [hmod, hcongr, hcongr, hlow, rxModBase_withHighest hge]
      refine ⟨hxlt, ?_⟩
      split_ifs <;> omega

theorem slideWindow_eq (s : RlcRxUmEntity) (sn : Nat) : s.slideWindow sn = (do
    let (snUpd, t) ← (s.withHighest sn).discardOutside (s.st.rxNextReassembly % s.mod)
    let (snUpd, u) ← t.removeReceived snUpd
    pure (u.setRxNextReassembly snUpd)) := rfl

theorem Inv.slideWindow (hi : s.Inv) (hge : s.umWindowSize ≤ s.rxModBase sn) :
    ∃ t, s.slideWindow sn = .ok t ∧ t.Inv := by
  obtain ⟨j, t, hw, -, -, hit⟩ := hi.discardOutside hge
  obtain ⟨k, u, hu, -, -, hiu⟩ := hit.removeReceived
  refine ⟨u.setRxNextReassembly _, ?_, hiu.setRxNextReassembly⟩
  rw [slideWindow_eq, hw, ok_bind]
  simp only [hu, ok_bind, pure_eq_ok]

theorem idx_eq_iff (hcap : s.rxWindow.capacity = s.umWindowSize) (x y : Nat) :
    s.rxWindow.getCircularIdx x = s.rxWindow.getCircularIdx y ↔
      x % s.umWindowSize = y % s.umWindowSize := by
  have hpow : s.umWindowSize = 2 ^ (s.cfg.snFieldLength.toNumber - 1) := RlcUmSnSize.window_eq_two_pow
  rw [CircularMap.getCircularIdx_eq_mod (hcap.trans hpow), CircularMap.getCircularIdx_eq_mod
    (hcap.trans hpow), hpow]

theorem lookup_writeSn (hcap : s.rxWindow.capacity = s.umWindowSize) (info : RlcRxUmSduInfo) (x : Nat) :
    (s.writeSn sn info).rxWindow.lookup x =
      if x = sn then some info
      else if x % s.umWindowSize = sn % s.umWindowSize then none
      else s.rxWindow.lookup x := by
  unfold writeSn
  dsimp only
  split_ifs with hc hx hidx hx hidx
  · obtain ⟨v, hv⟩ := CircularMap.lookup_of_contains hc
    rw [CircularMap.lookup_modify, if_pos hx, hv]
    rfl
  · obtain ⟨v, hv⟩ := CircularMap.lookup_of_contains hc
    rw [CircularMap.lookup_modify, if_neg hx]
    exact CircularMap.lookup_eq_none_of_idx hv ((idx_eq_iff hcap x sn).mpr hidx) hx
  · rw [CircularMap.lookup_modify, if_neg hx]
  · rw [CircularMap.lookup_overwrite, if_pos hx]
  · rw [CircularMap.lookup_overwrite, if_neg hx, if_pos ((idx_eq_iff hcap x sn).mpr hidx)]
  · rw [CircularMap.lookup_overwrite, if_neg hx, if_neg fun h => hidx ((idx_eq_iff hcap x sn).mp h)]

@[simp] theorem capacity_writeSn (info : RlcRxUmSduInfo) :
    (s.writeSn sn info).rxWindow.capacity = s.rxWindow.capacity := by
  unfold writeSn
  dsimp only
  split_ifs <;> simp

theorem Inv.writeSn (hi : s.Inv) (hsn : sn < s.mod)
    (hge : s.rxModBase s.st.rxNextReassembly ≤ s.rxModBase sn) (info : RlcRxUmSduInfo) :
    (s.writeSn sn info).Inv where
  sn_lt := hi.sn_lt
  trigger_lt := hi.trigger_lt
  highest_lt := hi.highest_lt
  capacity := (capacity_writeSn info).trans hi.capacity
  le_highest := hi.le_highest
  held x v hx := by
    rw [lookup_writeSn hi.capacity] at hx
    split_ifs at hx with h1 h2
    · cases hx
      rw [h1]
      exact ⟨hsn, hge⟩
    · exact hi.held x v hx

theorem lookup_deliverSn (s : RlcRxUmEntity) (sn : Nat) (info : RlcRxUmSduInfo) (x : Nat) :
    (s.deliverSn sn info).rxWindow.lookup x =
      if x = sn then (s.rxWindow.lookup sn).map (fun i => { i with segments := [] })
      else s.rxWindow.lookup x := by
  unfold deliverSn
  cases info.reassembleSdu s.cfg.maxSlices <;> exact CircularMap.lookup_modify _ _ _ _

theorem deliverSn_frame (s : RlcRxUmEntity) (sn : Nat) (info : RlcRxUmSduInfo) :
    (s.deliverSn sn info).cfg = s.cfg ∧ (s.deliverSn sn info).st = s.st ∧
      (s.deliverSn sn info).reassemblyTimerRunning = s.reassemblyTimerRunning ∧
      (s.deliverSn sn info).rxWindow.capacity = s.rxWindow.capacity := by
  unfold deliverSn
  cases info.reassembleSdu s.cfg.maxSlices <;> simp

theorem Inv.deliverSn (hi : s.Inv) (sn : Nat) (info : RlcRxUmSduInfo) : (s.deliverSn sn info).Inv := by
  obtain ⟨hcfg, hst, -, hcap⟩ := deliverSn_frame s sn info
  have hmod : (s.deliverSn sn info).mod = s.mod := by simp only [mod, hcfg]
  have hwin : (s.deliverSn sn info).umWindowSize = s.umWindowSize := by simp only [umWindowSize, hcfg]
  have hcongr := rxModBase_congr hcfg hst
  refine ⟨?_, ?_, ?_, ?_, ?_, ?_⟩
  · rw [hst, hmod]
    exact hi.sn_lt
  · rw [hst, hmod]
    exact hi.trigger_lt
  · rw [hst, hmod]
    exact hi.highest_lt
  · rw [hcap, hwin]
    exact hi.capacity
  · rw [hst, hcongr, hwin]
    exact hi.le_highest
  · intro x v hx
    rw [hst, hmod, hcongr, hcongr]
    rw [lookup_deliverSn] at hx
    split_ifs at hx with h1
    · obtain ⟨w, hw, -⟩ := Option.map_eq_some_iff.mp hx
      rw [h1]
      exact hi.held sn w hw
    · exact hi.held x v hx

theorem completeSdu_eq (s : RlcRxUmEntity) (sn : Nat) (info : RlcRxUmSduInfo) :
    s.completeSdu sn info =
      if sn = (s.deliverSn sn info).st.rxNextReassembly then do
        let (snUpd, t) ← (s.deliverSn sn info).removeReceived
          ((s.deliverSn sn info).st.rxNextReassembly % (s.deliverSn sn info).mod)
        pure (t.setRxNextReassembly snUpd)
      else pure (s.deliverSn sn info) := rfl

theorem Inv.completeSdu (hi : s.Inv) (sn : Nat) (info : RlcRxUmSduInfo) :
    ∃ t, s.completeSdu sn info = .ok t ∧ t.Inv := by
  have hid := hi.deliverSn sn info
  rw [completeSdu_eq]
  split_ifs with hsn
  · obtain ⟨j, t, ht, -, -, hit⟩ := hid.removeReceived
    refine ⟨t.setRxNextReassembly _, ?_, hit.setRxNextReassembly⟩
    rw [Nat.mod_eq_of_lt hid.sn_lt, ht]
    rfl
  · exact ⟨_, rfl, hid⟩

theorem Inv.startReassembly (hi : s.Inv) : s.startReassembly.Inv := by
  unfold RlcRxUmEntity.startReassembly
  split_ifs
  · exact ⟨hi.sn_lt, hi.highest_lt, hi.highest_lt, hi.capacity, hi.le_highest, hi.held⟩
  · exact hi

theorem Inv.running (hi : s.Inv) (b : Bool) : Inv { s with reassemblyTimerRunning := b } :=
  ⟨hi.sn_lt, hi.trigger_lt, hi.highest_lt, hi.capacity, hi.le_highest, hi.held⟩

theorem Inv.updateReassemblyTimer (hi : s.Inv) : s.updateReassemblyTimer.Inv := by
  unfold RlcRxUmEntity.updateReassemblyTimer
  dsimp only
  split_ifs
  · exact hi.running false
  · exact (hi.running false).startReassembly
  · exact hi
  · exact hi.startReassembly

theorem Inv.afterStore (hi : s.Inv) (sn : Nat) : ∃ t, s.afterStore sn = .ok t ∧ t.Inv := by
  have hslide : ∃ t, (if s.snInReassemblyWindow sn then .ok s else s.slideWindow sn) = .ok t ∧ t.Inv := by
    rw [snInReassemblyWindow_eq]
    split_ifs with hin
    · exact ⟨s, rfl, hi⟩
    · exact hi.slideWindow (by simpa using hin)
  unfold RlcRxUmEntity.afterStore
  cases s.rxWindow.lookup sn with
  | none => exact hslide
  | some info =>
    dsimp only
    by_cases hfull : info.fullyReceived = true
    · rw [if_pos hfull]
      exact hi.completeSdu sn info
    · rw [if_neg hfull]
      exact hslide

theorem Inv.handleSegment (hi : s.Inv) {header : RlcUmPduHeader} (hsn : header.sn < s.mod)
    (payload : List UInt8) : ∃ t, s.handleSegment header payload = .ok t ∧ t.Inv := by
  rw [RlcRxUmEntity.handleSegment, snInvalidForRxBuffer_eq]
  by_cases hinv : s.rxModBase header.sn < s.rxModBase s.st.rxNextReassembly
  · exact ⟨s, if_pos (decide_eq_true hinv), hi⟩
  · rw [if_neg (by simpa using hinv)]
    have hstored : (s.handleSegmentDataSdu header payload).Inv :=
      hi.writeSn hsn (Nat.not_lt.mp hinv) _
    obtain ⟨t, ht, hit⟩ := hstored.afterStore header.sn
    refine ⟨t.updateReassemblyTimer, ?_, hit.updateReassemblyTimer⟩
    simp only [ht, ok_bind, pure_eq_ok]

theorem umParsePdu_lt {sz : RlcUmSnSize} {buf : List UInt8} {header : RlcUmPduHeader}
    {payload : List UInt8} (h : umParsePdu sz buf = some (header, payload)) :
    header.snSize = sz ∧ header.sn < sz.mod := by
  unfold umParsePdu at h
  cases hread : rlcUmReadDataPduHeader sz buf with
  | none => simp [hread] at h
  | some res =>
    simp only [hread] at h
    split_ifs at h
    cases h
    exact umReadSn_lt hread

theorem Inv.handlePdu (hi : s.Inv) (buf : List UInt8) : ∃ t, s.handlePdu buf = .ok t ∧ t.Inv := by
  unfold RlcRxUmEntity.handlePdu
  cases hparse : umParsePdu s.cfg.snFieldLength buf with
  | none => exact ⟨s, rfl, hi⟩
  | some res =>
    obtain ⟨header, payload⟩ := res
    dsimp only
    split_ifs with hfull
    · exact ⟨_, rfl, hi.sn_lt, hi.trigger_lt, hi.highest_lt, hi.capacity, hi.le_highest, hi.held⟩
    · exact hi.handleSegment (umParsePdu_lt hparse).2 payload

theorem Inv.onExpiredReassemblyTimer (hi : s.Inv) :
    ∃ t, s.onExpiredReassemblyTimer = .ok t ∧ t.Inv := by
  obtain ⟨j, t, ht, -, -, hit⟩ := hi.discardExpired
  refine ⟨(t.setRxNextReassembly _).startReassembly, ?_, hit.setRxNextReassembly.startReassembly⟩
  simp only [RlcRxUmEntity.onExpiredReassemblyTimer, ht, ok_bind, pure_eq_ok]

theorem Inv.step (hi : s.Inv) (e : RxUmEvent) : ∃ t, s.step e = .ok t ∧ t.Inv := by
  cases e with
  | handlePdu buf => exact hi.handlePdu buf
  | expire =>
    unfold RlcRxUmEntity.step
    dsimp only
    split_ifs
    · exact (hi.running false).onExpiredReassemblyTimer
    · exact ⟨s, rfl, hi⟩

@[simp] theorem startReassembly_cfg (s : RlcRxUmEntity) : s.startReassembly.cfg = s.cfg := by
  unfold startReassembly
  split_ifs <;> rfl

@[simp] theorem updateReassemblyTimer_cfg (s : RlcRxUmEntity) : s.updateReassemblyTimer.cfg = s.cfg := by
  unfold updateReassemblyTimer
  dsimp only
  split_ifs <;> simp

theorem Inv.slideWindow_cfg (hi : s.Inv) (h : s.slideWindow sn = .ok t) : t.cfg = s.cfg := by
  rw [slideWindow_eq] at h
  obtain ⟨⟨a, u⟩, hu, h⟩ := bind_eq_ok.mp h
  obtain ⟨⟨b, v⟩, hv, h⟩ := bind_eq_ok.mp h
  cases h
  rw [Nat.mod_eq_of_lt hi.sn_lt] at hu
  obtain ⟨hcfg, ha⟩ := walk_frame (s := s.withHighest sn) hi.sn_lt hu
  have ha' : a < u.mod := by rwa [mod, hcfg]
  exact (walk_frame ha' hv).1.trans hcfg

theorem Inv.completeSdu_cfg (hi : s.Inv) {info : RlcRxUmSduInfo} (h : s.completeSdu sn info = .ok t) :
    t.cfg = s.cfg := by
  have hid := hi.deliverSn sn info
  rw [completeSdu_eq] at h
  split_ifs at h
  · obtain ⟨⟨a, u⟩, hu, h⟩ := bind_eq_ok.mp h
    cases h
    rw [Nat.mod_eq_of_lt hid.sn_lt] at hu
    exact (walk_frame hid.sn_lt hu).1.trans (deliverSn_frame s sn info).1
  · cases h
    exact (deliverSn_frame s sn info).1

theorem Inv.afterStore_cfg (hi : s.Inv) (h : s.afterStore sn = .ok t) : t.cfg = s.cfg := by
  unfold RlcRxUmEntity.afterStore at h
  split at h
  · split_ifs at h
    · exact hi.completeSdu_cfg h
    · cases h
      rfl
    · exact hi.slideWindow_cfg h
  · split_ifs at h
    · cases h
      rfl
    · exact hi.slideWindow_cfg h

theorem Inv.handleSegment_cfg (hi : s.Inv) {header : RlcUmPduHeader} {payload : List UInt8}
    (hsn : header.sn < s.mod) (h : s.handleSegment header payload = .ok t) : t.cfg = s.cfg := by
  rw [RlcRxUmEntity.handleSegment, snInvalidForRxBuffer_eq] at h
  split_ifs at h with hold
  · cases h
    rfl
  · have hge : s.rxModBase s.st.rxNextReassembly ≤ s.rxModBase header.sn := by simpa using hold
    obtain ⟨u, hu, h⟩ := bind_eq_ok.mp h
    cases h
    rw [updateReassemblyTimer_cfg]
    exact (hi.writeSn hsn hge _).afterStore_cfg hu

theorem Inv.step_cfg (hi : s.Inv) {e : RxUmEvent} (h : s.step e = .ok t) : t.cfg = s.cfg := by
  cases e with
  | handlePdu buf =>
    simp only [RlcRxUmEntity.step, RlcRxUmEntity.handlePdu] at h
    split at h
    · cases h
      rfl
    · rename_i header payload hparse
      split_ifs at h
      · cases h
        rfl
      · exact hi.handleSegment_cfg (umParsePdu_lt hparse).2 h
  | expire =>
    simp only [RlcRxUmEntity.step] at h
    split_ifs at h
    · obtain ⟨⟨a, u⟩, hu, h⟩ := bind_eq_ok.mp h
      cases h
      rw [startReassembly_cfg]
      exact (walk_frame (hi.running false).sn_lt hu).1
    · cases h
      rfl

end RlcRxUmEntity

end Ocudu.Rlc
