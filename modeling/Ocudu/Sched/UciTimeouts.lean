import Ocudu.Sched.UciLinks

/-! When the entries time out: if the sizes of the wheels divide the period of the slot counter, the entries
at one position are of one slot. -/

namespace Ocudu.Sched

namespace UciSelectorConfig

variable (cfg : UciSelectorConfig)

theorem period_eq : cfg.period = 2 ^ cfg.numerology * 10 * 1024 := rfl

theorem period_pos : 0 < cfg.period := by
  rw [period_eq]
  positivity

theorem period_lt : cfg.period < 2 ^ 20 := by
  have hlt : 2 ^ cfg.numerology < 2 ^ SlotPoint.nofNumerologies :=
    Nat.pow_lt_pow_right (by decide) cfg.numerology_lt
  rw [period_eq]
  simp only [SlotPoint.nofNumerologies] at hlt
  lia

variable {cfg}

theorem slot_add {count jump : Nat} (hcount : count < cfg.period) (hjump : jump ≤ 2 ^ 20) :
    (cfg.slot count).add jump = cfg.slot ((count + jump) % cfg.period) := by
  have hlt := cfg.period_lt
  have hsmall : (count + jump) % 2 ^ 32 = count + jump := Nat.mod_eq_of_lt (by omega)
  change SlotPoint.mk cfg.numerology ((count + jump) % 2 ^ 32 % cfg.period) = _
  rw [hsmall]
  rfl

theorem sub_count {count jump before : Nat} (hbefore : before < cfg.period)
    (h : (before + jump) % cfg.period = count % cfg.period) : ((cfg.slot count).sub jump).count = before := by
  change (((count : Int) - jump) % (cfg.period : Nat)).toNat = before
  have hmod : ((count : Int) - jump) % (cfg.period : Nat) = (before : Int) % (cfg.period : Nat) := by
    have hint : ((before + jump : Nat) : Int) ≡ (count : Nat) [ZMOD (cfg.period : Nat)] :=
      (Int.natCast_modEq_iff).mpr h
    have hsub := hint.sub_right (jump : Int)
    push_cast at hsub
    rw [add_sub_cancel_right] at hsub
    exact hsub.symm
  rw [hmod, ← Int.natCast_mod, Int.toNat_natCast, Nat.mod_eq_of_lt hbefore]

theorem dvd_age {size slot age cur : Nat} (hdvd : size ∣ cfg.period) (hage : (slot + age) % cfg.period = cur)
    (hpos : slot % size = cur % size) : size ∣ age := by
  have hmod : slot + age ≡ slot [MOD size] := by
    unfold Nat.ModEq
    rw [hpos, ← hage, Nat.mod_mod_of_dvd _ hdvd]
  have hzero : slot + age ≡ slot + 0 [MOD size] := hmod
  exact Nat.modEq_zero_iff_dvd.mp (Nat.ModEq.add_left_cancel' slot hzero)

theorem pos_of_dvd {size slot age cur : Nat} (hdvd : size ∣ cfg.period) (hage : (slot + age) % cfg.period = cur)
    (hsize : size ∣ age) : slot % size = cur % size := by
  rw [← hage, Nat.mod_mod_of_dvd _ hdvd, Nat.add_mod, Nat.mod_eq_zero_of_dvd hsize, Nat.add_zero, Nat.mod_mod]

theorem lt_period (cfg : UciSelectorConfig) : 3 < cfg.period := by
  have hpow := Nat.one_le_two_pow (n := cfg.numerology)
  have hperiod := cfg.period_eq
  omega

theorem slotJump_formula (s : UciSelector) (slTx last : Nat) : s.slotJump slTx last =
    ((if ((s.cfg.period / 2 : Nat) : Int) ≤ (slTx : Int) - last then (slTx : Int) - last - s.cfg.period
      else if (slTx : Int) - last < -((s.cfg.period / 2 : Nat) : Int) then (slTx : Int) - last + s.cfg.period
      else (slTx : Int) - last) % 2 ^ 32).toNat := rfl

theorem slotJump_eq {s : UciSelector} {slTx last : Nat} (hslTx : slTx < s.cfg.period) (hlast : last < s.cfg.period)
    (hne : slTx ≠ last) (hjump : s.slotJump slTx last ≤ 2 ^ 20) :
    0 < s.slotJump slTx last ∧ (last + s.slotJump slTx last) % s.cfg.period = slTx := by
  have hlt := s.cfg.period_lt
  have hdef := slotJump_formula s slTx last
  have hsum : 0 < s.slotJump slTx last ∧
      (last + s.slotJump slTx last = slTx ∨ last + s.slotJump slTx last = slTx + s.cfg.period) := by
    generalize s.slotJump slTx last = jump at hdef hjump ⊢
    generalize s.cfg.period = period at hdef hslTx hlast hlt ⊢
    split_ifs at hdef <;> lia
  refine ⟨hsum.1, ?_⟩
  rcases hsum.2 with heq | heq
  · rw [heq, Nat.mod_eq_of_lt hslTx]
  · rw [heq, Nat.add_mod_right, Nat.mod_eq_of_lt hslTx]

theorem slotJump_self (s : UciSelector) (slTx : Nat) : s.slotJump slTx slTx = 0 := by
  have hlarge := s.cfg.lt_period
  rw [slotJump_formula, sub_self, if_neg (by omega), if_neg (by omega)]
  rfl

theorem slotJump_succ {s : UciSelector} {last : Nat} (hlast : last < s.cfg.period) :
    s.slotJump ((last + 1) % s.cfg.period) last = 1 := by
  have hlt := s.cfg.period_lt
  have hlarge := s.cfg.lt_period
  rw [slotJump_formula]
  generalize s.cfg.period = period at hlast hlt hlarge ⊢
  rcases Nat.lt_or_ge (last + 1) period with hnext | hnext
  · rw [Nat.mod_eq_of_lt hnext]
    split_ifs <;> lia
  · obtain rfl : period = last + 1 := by omega
    rw [Nat.mod_self]
    split_ifs <;> lia

end UciSelectorConfig

/-- A timeout is not before its time unless a PDU arrived, slots were skipped or the UCI was discarded, and
the slot that is reported is the one of the grant. -/
def UciOutcome.Sound (cfg : UciSelectorConfig) (o : UciOutcome) : Prop :=
  o.slot = o.entry.uciSlot ∧
  (o.cause = .ackTimeout → o.entry.time + cfg.ackTimeoutSlots ≤ o.resolvedAt) ∧
  (o.cause = .shortTimeout → 0 < o.entry.arrived)

def UciEntry.key (e : UciEntry) : Nat × Nat := (e.time, e.crnti)

namespace UciSelector

variable {s s' : UciSelector} {cur lo hi blo bound : Nat}

structure Aged (s : UciSelector) (cur lo hi blo : Nat) : Prop where
  cur_lt : cur < s.cfg.period
  slot : ∀ id e, (id, e) ∈ s.uciPool.objs → e.uciSlot < s.cfg.period ∧
    ∃ age, lo ≤ age ∧ age ≤ hi ∧ e.time + age = s.now ∧ (e.uciSlot + age) % s.cfg.period = cur
  short : ∀ id e, (id, e) ∈ s.uciPool.objs → ∀ st ∈ e.shortTimeoutSlot, 0 < e.arrived ∧
    ∃ ahead, blo ≤ ahead ∧ ahead ≤ shortPucchTimeoutSlots ∧ (cur + ahead) % s.cfg.period = st

structure Accounted (s : UciSelector) (bound : Nat) : Prop where
  count : (s.outcomes.map (·.entry.key) ++ s.uciPool.objs.map (·.2.key)).Perm s.registered
  sound : ∀ o ∈ s.outcomes, o.Sound s.cfg
  past : ∀ o ∈ s.outcomes, o.entry.time < bound

theorem Aged.drop (h : s.Aged cur lo hi blo) (id : Nat) (e : UciEntry) (cause : UciCause) (slot : Nat) :
    (s.drop id e cause slot).Aged cur lo hi blo where
  cur_lt := by
    rw [drop_cfg]
    exact h.cur_lt
  slot id' e' he' := by
    rw [drop_uciPool, StableIdMap.mem_erase] at he'
    rw [drop_cfg, drop_now]
    exact h.slot id' e' he'.2
  short id' e' he' := by
    rw [drop_uciPool, StableIdMap.mem_erase] at he'
    rw [drop_cfg]
    exact h.short id' e' he'.2

theorem Accounted.drop (h : s.Accounted bound) {id : Nat} {e e₀ : UciEntry} {cause : UciCause} {slot : Nat}
    (he : (id, e₀) ∈ s.uciPool.objs) (hkey : e.key = e₀.key) (hbound : e.time < bound)
    (hsound : UciOutcome.Sound s.cfg ⟨e, cause, slot, s.now⟩) : (s.drop id e cause slot).Accounted bound where
  count := by
    rw [drop_outcomes, drop_uciPool, drop_registered]
    have hperm := (StableIdMap.perm_erase he).map (·.2.key)
    rw [List.map_cons] at hperm ⊢
    refine List.Perm.trans ?_ h.count
    refine List.Perm.trans ?_ (hperm.symm.append_left _)
    rw [hkey, List.cons_append]
    exact List.perm_middle.symm
  sound o ho := by
    rw [drop_cfg]
    rw [drop_outcomes] at ho
    rcases List.mem_cons.mp ho with rfl | ho
    · exact hsound
    · exact h.sound o ho
  past o ho := by
    rw [drop_outcomes] at ho
    rcases List.mem_cons.mp ho with rfl | ho
    · exact hbound
    · exact h.past o ho

theorem Aged.weaken {lo' hi' blo' : Nat} (h : s.Aged cur lo hi blo) (hlo : lo' ≤ lo) (hhi : hi ≤ hi')
    (hblo : blo' ≤ blo) : s.Aged cur lo' hi' blo' where
  cur_lt := h.cur_lt
  slot id e he := by
    obtain ⟨hlt, age, hage, hage', hrest⟩ := h.slot id e he
    exact ⟨hlt, age, hlo.trans hage, hage'.trans hhi, hrest⟩
  short id e he st hst := by
    obtain ⟨harrived, ahead, hahead, hrest⟩ := h.short id e he st hst
    exact ⟨harrived, ahead, hblo.trans hahead, hrest⟩

theorem Accounted.weaken {bound' : Nat} (h : s.Accounted bound) (hbound : bound ≤ bound') : s.Accounted bound' :=
  ⟨h.count, h.sound, fun o ho => (h.past o ho).trans_le hbound⟩

theorem Aged.tick (h : s.Aged cur lo hi 1) :
    Aged { s with now := s.now + 1 } ((cur + 1) % s.cfg.period) (lo + 1) (hi + 1) 0 where
  cur_lt := Nat.mod_lt _ s.cfg.period_pos
  slot id e he := by
    obtain ⟨hlt, age, hlo, hhi, htime, hslot⟩ := h.slot id e he
    refine ⟨hlt, age + 1, by omega, by omega, by dsimp only; omega, ?_⟩
    rw [← hslot, Nat.mod_add_mod]
    rfl
  short id e he st hst := by
    obtain ⟨harrived, ahead, hblo, hle, hslot⟩ := h.short id e he st hst
    refine ⟨harrived, ahead - 1, by omega, by omega, ?_⟩
    dsimp only
    rw [Nat.mod_add_mod, ← hslot]
    congr 1
    omega

/-- The fields that the loops of the timeouts leave as they are. -/
structure SameClock (s s' : UciSelector) : Prop where
  cfg : s'.cfg = s.cfg
  lastSlTx : s'.lastSlTx = s.lastSlTx
  now : s'.now = s.now
  registered : s'.registered = s.registered

theorem SameClock.refl (s : UciSelector) : SameClock s s := ⟨rfl, rfl, rfl, rfl⟩

theorem SameClock.drop (h : SameClock s s') (id : Nat) (e : UciEntry) (cause : UciCause) (slot : Nat) :
    SameClock s (s'.drop id e cause slot) :=
  ⟨by rw [drop_cfg, h.cfg], by rw [drop_lastSlTx, h.lastSlTx], by rw [drop_now, h.now],
    by rw [drop_registered, h.registered]⟩

theorem wheelPos_sub {cfg : UciSelectorConfig} (hdvd : cfg.ackTimeoutSlots ∣ cfg.period) (cur : Nat) :
    cfg.wheelPos ((cfg.slot cur).sub cfg.ackTimeoutSlots).count = cfg.wheelPos cur := by
  have hpos := cfg.period_pos
  have hle := Nat.le_of_dvd hpos hdvd
  have hsub : ((cfg.slot cur).sub cfg.ackTimeoutSlots).count =
      (cur + (cfg.period - cfg.ackTimeoutSlots)) % cfg.period := by
    refine UciSelectorConfig.sub_count (Nat.mod_lt _ hpos) ?_
    rw [Nat.mod_add_mod, Nat.add_assoc, Nat.sub_add_cancel hle, Nat.add_mod_right]
  unfold UciSelectorConfig.wheelPos
  rw [hsub, Nat.mod_mod_of_dvd _ hdvd, Nat.add_mod, Nat.mod_eq_zero_of_dvd (Nat.dvd_sub hdvd (dvd_refl _)),
    Nat.add_zero, Nat.mod_mod]

@[simp] theorem reportedSlot_eq (slRx : Nat) (e : UciEntry) : reportedSlot slRx e = e.uciSlot := by
  unfold reportedSlot
  split
  · rename_i heq
    exact heq.symm
  · rfl

/-- What the loops of the timeouts keep at the slot `cur` of the state `t`. -/
structure TimingOut (t : UciSelector) (cur hi : Nat) (s : UciSelector) : Prop where
  aged : s.Aged cur 1 hi 0
  accounted : s.Accounted t.now
  clock : SameClock t s

theorem TimingOut.time_lt {t : UciSelector} (h : TimingOut t cur hi s) {id : Nat} {e : UciEntry}
    (he : (id, e) ∈ s.uciPool.objs) : e.time < t.now := by
  obtain ⟨-, age, hlo, -, htime, -⟩ := h.aged.slot id e he
  have hnow := h.clock.now
  omega

theorem TimingOut.drop {t : UciSelector} (h : TimingOut t cur hi s) {id : Nat} {e : UciEntry} {cause : UciCause}
    {slot : Nat} (he : (id, e) ∈ s.uciPool.objs) (hsound : UciOutcome.Sound s.cfg ⟨e, cause, slot, s.now⟩) :
    TimingOut t cur hi (s.drop id e cause slot) :=
  ⟨h.aged.drop id e cause slot, h.accounted.drop he rfl (h.time_lt he) hsound, h.clock.drop id e cause slot⟩

theorem TimingOut.dropWheel {t : UciSelector} (hdvd : t.cfg.ackTimeoutSlots ∣ t.cfg.period)
    (h : TimingOut t cur t.cfg.ackTimeoutSlots s) {id slRx : Nat} {e : UciEntry} (he : (id, e) ∈ s.uciPool.objs)
    (hpos : s.cfg.wheelPos e.uciSlot = t.cfg.wheelPos cur) :
    TimingOut t cur t.cfg.ackTimeoutSlots (s.drop id e .ackTimeout (reportedSlot slRx e)) := by
  obtain ⟨-, age, hlo, hhi, htime, hslot⟩ := h.aged.slot id e he
  rw [h.clock.cfg] at hpos hslot
  have hage : t.cfg.ackTimeoutSlots ∣ age := UciSelectorConfig.dvd_age hdvd hslot hpos
  have hle := Nat.le_of_dvd (by omega) hage
  refine h.drop he ⟨reportedSlot_eq slRx e, fun _ => ?_, fun hcause => by cases hcause⟩
  rw [h.clock.cfg]
  dsimp only
  omega

theorem TimingOut.wheelDone {t : UciSelector} (hdvd : t.cfg.ackTimeoutSlots ∣ t.cfg.period) (hlinked : s.Linked)
    (h : TimingOut t cur t.cfg.ackTimeoutSlots s) (hempty : s.uciWheel (t.cfg.wheelPos cur) = []) :
    TimingOut t cur (t.cfg.ackTimeoutSlots - 1) s := by
  refine ⟨⟨h.aged.cur_lt, fun id e he => ?_, h.aged.short⟩, h.accounted, h.clock⟩
  obtain ⟨hlt, age, hlo, hhi, htime, hslot⟩ := h.aged.slot id e he
  refine ⟨hlt, age, hlo, ?_, htime, hslot⟩
  have hne : age ≠ t.cfg.ackTimeoutSlots := by
    rintro rfl
    rw [h.clock.cfg] at hslot
    have hpos : s.cfg.wheelPos e.uciSlot = t.cfg.wheelPos cur := by
      rw [h.clock.cfg]
      exact UciSelectorConfig.pos_of_dvd hdvd hslot (dvd_refl _)
    have hmem := (hlinked.wheel _ id).mpr ⟨e, he, hpos⟩
    rw [hempty] at hmem
    cases hmem
  omega

theorem TimingOut.shortDone {t : UciSelector} (hlinked : s.Linked) (h : TimingOut t cur hi s)
    (hempty : s.shortTimeoutWheel (shortPos cur) = []) : s.Aged cur 1 hi 1 := by
  refine ⟨h.aged.cur_lt, h.aged.slot, fun id e he st hst => ?_⟩
  obtain ⟨harrived, ahead, -, hle, hslot⟩ := h.aged.short id e he st hst
  refine ⟨harrived, ahead, Nat.pos_of_ne_zero ?_, hle, hslot⟩
  rintro rfl
  rw [Nat.add_zero, Nat.mod_eq_of_lt h.aged.cur_lt] at hslot
  subst hslot
  have hmem := (hlinked.short (shortPos cur) id).mpr ⟨e, he, by rw [Option.mem_def.mp hst]; rfl⟩
  rw [hempty] at hmem
  cases hmem

theorem TimingOut.pop (hdvd : s.cfg.ackTimeoutSlots ∣ s.cfg.period) (hlinked : s.Linked)
    (h : TimingOut s cur s.cfg.ackTimeoutSlots s) (slRx : Nat) :
    ∃ s₁ s₂, popWheel .ackTimeout (reportedSlot slRx) (s.cfg.wheelPos cur) s
        (s.uciWheel (s.cfg.wheelPos cur)) = .ok s₁ ∧
      popShort (shortPos cur) s₁ (s₁.shortTimeoutWheel (shortPos cur)) = .ok s₂ ∧ s₂.Linked ∧
      TimingOut s cur (s.cfg.ackTimeoutSlots - 1) s₂ ∧ s₂.Aged cur 1 (s.cfg.ackTimeoutSlots - 1) 1 := by
  obtain ⟨s₁, hs₁, hlinked₁, h₁, hempty₁⟩ := popWheel_rule (TimingOut s cur s.cfg.ackTimeoutSlots) .ackTimeout
    (reportedSlot slRx) (s.cfg.wheelPos cur) (fun u id e _ hu he hpos => hu.dropWheel hdvd he hpos) hlinked h rfl
  have h₁' := h₁.wheelDone hdvd hlinked₁ hempty₁
  obtain ⟨s₂, hs₂, hlinked₂, h₂, hempty₂⟩ := popShort_rule (TimingOut s cur (s.cfg.ackTimeoutSlots - 1))
    (fun u id e _ hu he hpos => by
      obtain ⟨st, hst, -⟩ := Option.map_eq_some_iff.mp hpos
      exact hu.drop he ⟨rfl, (fun hcause => by cases hcause), fun _ => (hu.aged.short id e he st hst).1⟩)
    hlinked₁ h₁' rfl
  exact ⟨s₁, s₂, hs₁, hs₂, hlinked₂, h₂, h₂.shortDone hlinked₂ hempty₂⟩

theorem handleTimeouts_timed (hdvd : s.cfg.ackTimeoutSlots ∣ s.cfg.period) (h : s.Linked)
    (haged : s.Aged cur lo (s.cfg.ackTimeoutSlots - 1) 1) (haccounted : s.Accounted bound)
    (hbound : bound ≤ s.now + 1) : ∃ s', s.handleTimeouts ((cur + 1) % s.cfg.period) = .ok s' ∧ s'.Linked ∧
      s'.Aged ((cur + 1) % s.cfg.period) 1 (s.cfg.ackTimeoutSlots - 1) 1 ∧ s'.Accounted s'.now ∧
      s'.cfg = s.cfg ∧ s'.lastSlTx = s.lastSlTx := by
  have hgt := s.cfg.ackTimeout_gt
  have htick := haged.tick
  have ht : Linked { s with now := s.now + 1 } := h.congr rfl rfl rfl rfl
  have h0 : TimingOut { s with now := s.now + 1 } ((cur + 1) % s.cfg.period) s.cfg.ackTimeoutSlots
      { s with now := s.now + 1 } := by
    refine ⟨⟨htick.cur_lt, fun id e he => ?_, htick.short⟩, ?_, .refl _⟩
    · obtain ⟨hlt, age, hlo, hhi, hrest⟩ := htick.slot id e he
      exact ⟨hlt, age, by omega, by omega, hrest⟩
    · exact ⟨haccounted.count, haccounted.sound, fun o ho => (haccounted.past o ho).trans_le hbound⟩
  obtain ⟨s₁, s₂, hs₁, hs₂, hlinked₂, h₂, haged₂⟩ := TimingOut.pop (s := { s with now := s.now + 1 }) hdvd ht h0
    ((s.cfg.slot ((cur + 1) % s.cfg.period)).sub s.cfg.ackTimeoutSlots).count
  refine ⟨s₂, ?_, hlinked₂, haged₂, ?_, h₂.clock.cfg, h₂.clock.lastSlTx⟩
  · simp only [handleTimeouts]
    rw [wheelPos_sub hdvd, hs₁, ok_bind, hs₂]
  · rw [h₂.clock.now]
    exact h₂.accounted

theorem skippedSlot_eq {cfg : UciSelectorConfig} {slTx cur n : Nat} (hslTx : slTx < cfg.period)
    (hcur : (cur + (n + 1)) % cfg.period = slTx) :
    (((cfg.slot slTx).add 1).sub (n + 1)).count = (cur + 1) % cfg.period := by
  rw [UciSelectorConfig.slot_add hslTx (by norm_num)]
  refine UciSelectorConfig.sub_count (Nat.mod_lt _ cfg.period_pos) ?_
  rw [Nat.mod_add_mod, Nat.mod_mod, ← hcur, Nat.mod_add_mod]
  congr 1
  omega

theorem skipSlots_timed {slTx n : Nat} (hdvd : s.cfg.ackTimeoutSlots ∣ s.cfg.period) (hslTx : slTx < s.cfg.period)
    (hcur : (cur + (n + 1)) % s.cfg.period = slTx) (h : s.Linked)
    (haged : s.Aged cur lo (s.cfg.ackTimeoutSlots - 1) 1) (haccounted : s.Accounted bound)
    (hbound : bound ≤ s.now + 1) : ∃ s', skipSlots slTx s (n + 1) = .ok s' ∧ s'.Linked ∧
      s'.Aged slTx 1 (s.cfg.ackTimeoutSlots - 1) 1 ∧ s'.Accounted s'.now ∧
      s'.cfg = s.cfg ∧ s'.lastSlTx = s.lastSlTx := by
  induction n generalizing s cur lo bound with
  | zero =>
    obtain ⟨s₁, hs₁, h₁, haged₁, hrest⟩ := handleTimeouts_timed hdvd h haged haccounted hbound
    rw [hcur] at haged₁
    refine ⟨s₁, ?_, h₁, haged₁, hrest⟩
    rw [skipSlots, skippedSlot_eq hslTx hcur, hs₁]
    rfl
  | succ n ih =>
    obtain ⟨s₁, hs₁, h₁, haged₁, haccounted₁, hcfg, hlast⟩ := handleTimeouts_timed hdvd h haged haccounted hbound
    have hcur₁ : ((cur + 1) % s.cfg.period + (n + 1)) % s.cfg.period = slTx := by
      rw [Nat.mod_add_mod, ← hcur]
      congr 1
      omega
    have hdvd₁ : s₁.cfg.ackTimeoutSlots ∣ s₁.cfg.period := by rwa [hcfg]
    have hslTx₁ : slTx < s₁.cfg.period := by rwa [hcfg]
    rw [← hcfg] at haged₁ hcur₁
    obtain ⟨s₂, hs₂, h₂, haged₂, haccounted₂, hcfg₂, hlast₂⟩ :=
      ih hdvd₁ hslTx₁ hcur₁ h₁ haged₁ haccounted₁ (Nat.le_succ _)
    rw [hcfg] at haged₂
    refine ⟨s₂, ?_, h₂, haged₂, haccounted₂, hcfg₂.trans hcfg, hlast₂.trans hlast⟩
    rw [skipSlots, skippedSlot_eq hslTx hcur, hs₁, ok_bind, hs₂]

/-- The invariant between the events, at the slot `cur` of the last result. -/
structure Timed (s : UciSelector) (cur : Nat) : Prop where
  linked : s.Linked
  aged : s.Aged cur 0 (s.cfg.ackTimeoutSlots - 1) 1
  accounted : s.Accounted (s.now + 1)
  last : s.lastSlTx = some cur ∨ s.lastSlTx = none ∧ s.uciPool.objs = []

structure Registering (s : UciSelector) (cur : Nat) : Prop where
  linked : s.Linked
  aged : s.Aged cur 0 (s.cfg.ackTimeoutSlots - 1) 1
  accounted : s.Accounted s.now
  last : s.lastSlTx = some cur

theorem aged_of_empty (lo : Nat) (hcur : cur < s.cfg.period) (hempty : s.uciPool.objs = []) : s.Aged cur lo hi blo where
  cur_lt := hcur
  slot id e he := by
    rw [hempty] at he
    cases he
  short id e he := by
    rw [hempty] at he
    cases he

theorem advance_empty {slTx : Nat} (hdvd : s.cfg.ackTimeoutSlots ∣ s.cfg.period) (hslTx : slTx < s.cfg.period)
    (h : s.Linked) (hempty : s.uciPool.objs = []) (haccounted : s.Accounted bound) (hbound : bound ≤ s.now + 1)
    (hlast : s.lastSlTx = some slTx) :
    ∃ s', skipSlots slTx s 1 = .ok s' ∧ s'.Registering slTx ∧ s'.cfg = s.cfg := by
  have hpos := s.cfg.period_pos
  have hcur : ((slTx + (s.cfg.period - 1)) % s.cfg.period + (0 + 1)) % s.cfg.period = slTx := by
    have hadd : slTx + (s.cfg.period - 1) + (0 + 1) = slTx + s.cfg.period := by omega
    rw [Nat.mod_add_mod, hadd, Nat.add_mod_right, Nat.mod_eq_of_lt hslTx]
  obtain ⟨s', hs', hlinked, haged, hacc, hcfg, hlast'⟩ := skipSlots_timed hdvd hslTx hcur h
    (aged_of_empty 0 (Nat.mod_lt _ hpos) hempty) haccounted hbound
  refine ⟨s', hs', ⟨hlinked, ?_, hacc, hlast'.trans hlast⟩, hcfg⟩
  rw [hcfg]
  exact haged.weaken (Nat.zero_le _) le_rfl le_rfl

theorem Timed.time_le (h : s.Timed cur) {id : Nat} {e : UciEntry} (he : (id, e) ∈ s.uciPool.objs) :
    e.time ≤ s.now := by
  obtain ⟨-, age, -, -, htime, -⟩ := h.aged.slot id e he
  omega

theorem Timed.slotJump (h : s.Timed cur) (skipped : Nat) :
    (s.handleLargeSlotJump skipped).Accounted ((s.handleLargeSlotJump skipped).now + 1) where
  count := by
    refine List.Perm.trans ?_ h.accounted.count
    simp only [handleLargeSlotJump, StableIdMap.empty, StableIdMap.values, List.map_append, List.map_map,
      List.map_nil, List.append_nil]
    exact List.perm_append_comm
  sound o ho := by
    rcases List.mem_append.mp ho with ho | ho
    · obtain ⟨e, -, rfl⟩ := List.mem_map.mp ho
      exact ⟨rfl, (fun hcause => by cases hcause), fun hcause => by cases hcause⟩
    · exact h.accounted.sound o ho
  past o ho := by
    simp only [handleLargeSlotJump] at ho ⊢
    rcases List.mem_append.mp ho with ho | ho
    · obtain ⟨e, he, rfl⟩ := List.mem_map.mp ho
      obtain ⟨⟨id, e'⟩, he', rfl⟩ := List.mem_map.mp he
      have hle := h.time_le he'
      dsimp only
      omega
    · have hlt := h.accounted.past o ho
      omega

theorem linked_largeSlotJump (s : UciSelector) (skipped : Nat) : (s.handleLargeSlotJump skipped).Linked where
  wheel _ _ := by simp [handleLargeSlotJump, StableIdMap.empty]
  nodup _ := List.nodup_nil
  short _ _ := by simp [handleLargeSlotJump, StableIdMap.empty]
  shortNodup _ := List.nodup_nil

theorem Timed.advance (h : s.Timed cur) {slTx : Nat} (hdvd : s.cfg.ackTimeoutSlots ∣ s.cfg.period)
    (hslTx : slTx < s.cfg.period) (hne : ∀ last ∈ s.lastSlTx, slTx ≠ last) :
    ∃ s', s.advance slTx = .ok s' ∧ s'.Registering slTx ∧ s'.cfg = s.cfg := by
  unfold UciSelector.advance
  rcases h.last with hlast | ⟨hlast, hempty⟩
  · rw [hlast]
    dsimp only
    split
    · generalize (slTx + s.cfg.period - cur - 1) % s.cfg.period = skipped
      have hacc := h.slotJump skipped
      exact advance_empty (s := { s.handleLargeSlotJump skipped with lastSlTx := some slTx }) hdvd hslTx
        ((linked_largeSlotJump s skipped).congr rfl rfl rfl rfl) rfl ⟨hacc.count, hacc.sound, hacc.past⟩ le_rfl rfl
    · rename_i hjump
      have hle : s.slotJump slTx cur ≤ 2 ^ 20 := by
        have hsize := Nat.le_of_dvd s.cfg.period_pos hdvd
        have hlt := s.cfg.period_lt
        omega
      obtain ⟨hpos, hcur⟩ := UciSelectorConfig.slotJump_eq hslTx h.aged.cur_lt (hne cur hlast) hle
      obtain ⟨n, hn⟩ : ∃ n, s.slotJump slTx cur = n + 1 := ⟨s.slotJump slTx cur - 1, by omega⟩
      rw [hn] at hcur ⊢
      obtain ⟨s', hs', hlinked, haged, hacc, hcfg, hlast'⟩ := skipSlots_timed
        (s := { s with lastSlTx := some slTx }) hdvd hslTx hcur (h.linked.congr rfl rfl rfl rfl)
        ⟨h.aged.cur_lt, h.aged.slot, h.aged.short⟩
        ⟨h.accounted.count, h.accounted.sound, h.accounted.past⟩ le_rfl
      have hcfg' : s'.cfg = s.cfg := hcfg
      refine ⟨s', hs', ⟨hlinked, ?_, hacc, hlast'⟩, hcfg'⟩
      rw [hcfg']
      exact haged.weaken (Nat.zero_le _) le_rfl le_rfl
  · rw [hlast]
    exact advance_empty (s := { s with lastSlTx := some slTx }) hdvd hslTx (h.linked.congr rfl rfl rfl rfl) hempty
      ⟨h.accounted.count, h.accounted.sound, h.accounted.past⟩ le_rfl rfl

end UciSelector

end Ocudu.Sched
