import Ocudu.Sched.UciTimeouts

/-! The grants that are registered, the UCI indications and the UCIs that are discarded: each grant has one
action or timeout. -/

namespace Ocudu.Sched.UciSelector

variable {s s' : UciSelector} {cur : Nat}

section

variable (h : s.Registering cur)
include h

theorem Registering.time_eq (hdvd : s.cfg.ackTimeoutSlots ∣ s.cfg.period) {id : Nat}
    {e : UciEntry} (he : (id, e) ∈ s.uciPool.objs) (hpos : s.cfg.wheelPos e.uciSlot = s.cfg.wheelPos cur) :
    e.time = s.now := by
  have hgt := s.cfg.ackTimeout_gt
  obtain ⟨-, age, -, hhi, htime, hslot⟩ := h.aged.slot id e he
  have hage : s.cfg.ackTimeoutSlots ∣ age := UciSelectorConfig.dvd_age hdvd hslot hpos
  have hzero : age = 0 := Nat.eq_zero_of_dvd_of_lt hage (by omega)
  omega

theorem Registering.exists_of_registered {crnti : Nat}
    (hreg : (s.now, crnti) ∈ s.registered) :
    ∃ id e, id ∈ s.uciWheel (s.cfg.wheelPos cur) ∧ (id, e) ∈ s.uciPool.objs ∧ e.crnti = crnti := by
  rcases List.mem_append.mp (h.accounted.count.symm.subset hreg) with hmem | hmem
  · obtain ⟨o, ho, hkey⟩ := List.mem_map.mp hmem
    have hlt := h.accounted.past o ho
    have htime : o.entry.time = s.now := congrArg Prod.fst hkey
    omega
  · obtain ⟨⟨id, e⟩, he, hkey⟩ := List.mem_map.mp hmem
    have htime : e.time = s.now := congrArg Prod.fst hkey
    obtain ⟨hlt, age, -, -, hage, hslot⟩ := h.aged.slot id e he
    obtain rfl : age = 0 := by omega
    rw [Nat.add_zero, Nat.mod_eq_of_lt hlt] at hslot
    exact ⟨id, e, (h.linked.wheel _ id).mpr ⟨e, he, by rw [hslot]⟩, he, congrArg Prod.snd hkey⟩

theorem Registering.insertEntry (grant : HarqGrant) :
    Registering { s.insertEntry cur grant with registered := (s.now, grant.crnti) :: s.registered } cur where
  linked := (h.linked.insertEntry cur grant).congr rfl rfl rfl rfl
  aged := by
    refine ⟨h.aged.cur_lt, fun id e he => ?_, fun id e he => ?_⟩
    · rcases StableIdMap.mem_insert.mp he with ⟨rfl, rfl⟩ | he
      · refine ⟨h.aged.cur_lt, 0, le_rfl, Nat.zero_le _, rfl, ?_⟩
        exact Nat.mod_eq_of_lt h.aged.cur_lt
      · exact h.aged.slot id e he
    · rcases StableIdMap.mem_insert.mp he with ⟨rfl, rfl⟩ | he
      · intro st hst
        cases hst
      · exact h.aged.short id e he
  accounted := ⟨List.perm_middle.trans (h.accounted.count.cons _), h.accounted.sound, h.accounted.past⟩
  last := h.last

theorem Registering.registerPucch (hdvd : s.cfg.ackTimeoutSlots ∣ s.cfg.period)
    (grant : HarqGrant) : ∃ s', s.registerPucch cur grant = .ok s' ∧ s'.Registering cur ∧ s'.cfg = s.cfg := by
  unfold UciSelector.registerPucch
  split
  · exact ⟨s, rfl, h, rfl⟩
  obtain ⟨found, hfound, hsome, hnone⟩ := findEntry_spec (p := (·.crnti == grant.crnti))
    (h.linked.exists_entry (s.cfg.wheelPos cur))
  rw [hfound, ok_bind]
  cases found with
  | some id =>
    obtain ⟨hmem, e, he, hcrnti⟩ := hsome id rfl
    obtain ⟨e', he', hpos⟩ := (h.linked.wheel _ id).mp hmem
    obtain rfl := StableIdMap.eq_of_mem he he'
    have hreg : (s.now, grant.crnti) ∈ s.registered := by
      refine h.accounted.count.subset (List.mem_append_right _ (List.mem_map.mpr ⟨_, he, ?_⟩))
      rw [UciEntry.key, h.time_eq hdvd he hpos, beq_iff_eq.mp hcrnti]
    rw [if_pos hreg]
    have hlinked : Linked { s with
        uciPool := s.uciPool.modify id fun entry => { entry with uciPdusToRx := entry.uciPdusToRx + 1 } } :=
      h.linked.modify fun _ _ => ⟨rfl, rfl⟩
    refine ⟨_, rfl, ⟨hlinked, ?_, ?_, h.last⟩, rfl⟩
    · refine ⟨h.aged.cur_lt, fun id' e' he' => ?_, fun id' e' he' => ?_⟩
      · obtain ⟨b, hb, rfl⟩ := StableIdMap.mem_modify.mp he'
        have hslot := h.aged.slot id' b hb
        split <;> exact hslot
      · obtain ⟨b, hb, rfl⟩ := StableIdMap.mem_modify.mp he'
        have hshort := h.aged.short id' b hb
        split <;> exact hshort
    · refine ⟨?_, h.accounted.sound, h.accounted.past⟩
      dsimp only
      rw [StableIdMap.map_modify UciEntry.key]
      · exact h.accounted.count
      · exact fun _ _ => rfl
  | none =>
    have hreg : (s.now, grant.crnti) ∉ s.registered := by
      intro hreg
      obtain ⟨id, e, hid, he, hcrnti⟩ := h.exists_of_registered hreg
      have hfalse := hnone rfl id hid e he
      simp [hcrnti] at hfalse
    rw [if_neg hreg]
    exact ⟨_, rfl, h.insertEntry grant, rfl⟩

theorem Registering.registerPucchs (hdvd : s.cfg.ackTimeoutSlots ∣ s.cfg.period)
    (grants : List HarqGrant) :
    ∃ s', UciSelector.registerPucchs cur s grants = .ok s' ∧ s'.Registering cur ∧ s'.cfg = s.cfg := by
  induction grants generalizing s with
  | nil => exact ⟨s, rfl, h, rfl⟩
  | cons grant grants ih =>
    obtain ⟨s₁, hs₁, h₁, hcfg⟩ := h.registerPucch hdvd grant
    obtain ⟨s₂, hs₂, h₂, hcfg₂⟩ := ih h₁ (by rwa [hcfg])
    refine ⟨s₂, ?_, h₂, hcfg₂.trans hcfg⟩
    rw [UciSelector.registerPucchs, hs₁, ok_bind, hs₂]

theorem Registering.registerPusch (grant : HarqGrant) :
    (s.registerPusch cur grant).Registering cur ∧ (s.registerPusch cur grant).cfg = s.cfg := by
  unfold UciSelector.registerPusch
  split
  · exact ⟨h, rfl⟩
  · exact ⟨h.insertEntry grant, rfl⟩

theorem Registering.registerPuschs (grants : List HarqGrant) :
    (grants.foldl (UciSelector.registerPusch · cur) s).Registering cur ∧
      (grants.foldl (UciSelector.registerPusch · cur) s).cfg = s.cfg := by
  induction grants generalizing s with
  | nil => exact ⟨h, rfl⟩
  | cons grant grants ih =>
    obtain ⟨h₁, hcfg⟩ := h.registerPusch grant
    obtain ⟨h₂, hcfg₂⟩ := ih h₁
    exact ⟨h₂, hcfg₂.trans hcfg⟩

end

theorem Timed.handleResult (h : s.Timed cur) {slTx : Nat} (hdvd : s.cfg.ackTimeoutSlots ∣ s.cfg.period)
    (hslTx : slTx < s.cfg.period) (hne : ∀ last ∈ s.lastSlTx, slTx ≠ last) (pucchs puschs : List HarqGrant) :
    ∃ s', s.handleResult slTx pucchs puschs = .ok s' ∧ s'.Timed slTx ∧ s'.cfg = s.cfg := by
  obtain ⟨s₁, hs₁, h₁, hcfg₁⟩ := h.advance hdvd hslTx hne
  obtain ⟨s₂, hs₂, h₂, hcfg₂⟩ := h₁.registerPucchs (by rwa [hcfg₁]) pucchs
  obtain ⟨h₃, hcfg₃⟩ := h₂.registerPuschs puschs
  refine ⟨_, ?_, ⟨h₃.linked, h₃.aged, h₃.accounted.weaken (Nat.le_succ _), .inl h₃.last⟩,
    hcfg₃.trans (hcfg₂.trans hcfg₁)⟩
  rw [UciSelector.handleResult, hs₁, ok_bind, hs₂]
  rfl

theorem handleUciPdu_same (pdu : UciPdu) (e : UciEntry) : (handleUciPdu pdu e).1.uciSlot = e.uciSlot ∧
    (handleUciPdu pdu e).1.shortTimeoutSlot = e.shortTimeoutSlot ∧ (handleUciPdu pdu e).1.key = e.key ∧
    0 < (handleUciPdu pdu e).1.arrived := by
  unfold handleUciPdu
  split
  · exact ⟨rfl, rfl, rfl, Nat.succ_pos _⟩
  · exact ⟨rfl, rfl, rfl, Nat.succ_pos _⟩

theorem Timed.modify (h : s.Timed cur) {id : Nat} {e e' : UciEntry} (he : (id, e) ∈ s.uciPool.objs)
    (hslot : e'.uciSlot = e.uciSlot) (hshort : e'.shortTimeoutSlot = e.shortTimeoutSlot) (hkey : e'.key = e.key)
    (harrived : 0 < e'.arrived) : Timed { s with uciPool := s.uciPool.modify id fun _ => e' } cur := by
  refine ⟨h.linked.modify fun b hb => ?_, ⟨h.aged.cur_lt, fun id' b' hb' => ?_, fun id' b' hb' => ?_⟩,
    ⟨?_, h.accounted.sound, h.accounted.past⟩, ?_⟩
  · obtain rfl := StableIdMap.eq_of_mem hb he
    exact ⟨hslot, hshort⟩
  · obtain ⟨b, hb, rfl⟩ := StableIdMap.mem_modify.mp hb'
    split
    · rename_i hid
      subst hid
      rw [hslot, show e'.time = e.time from congrArg Prod.fst hkey]
      exact h.aged.slot id' e he
    · exact h.aged.slot id' b hb
  · obtain ⟨b, hb, rfl⟩ := StableIdMap.mem_modify.mp hb'
    split
    · rename_i hid
      subst hid
      rw [hshort]
      intro st hst
      exact ⟨harrived, (h.aged.short id' e he st hst).2⟩
    · exact h.aged.short id' b hb
  · dsimp only
    rw [StableIdMap.map_modify UciEntry.key]
    · exact h.accounted.count
    · intro b hb
      rw [hkey, StableIdMap.eq_of_mem hb he]
  · rcases h.last with hlast | ⟨hlast, hempty⟩
    · exact .inl hlast
    · rw [hempty] at he
      cases he

theorem Timed.lastSlTx_eq (h : s.Timed cur) {id : Nat} {e : UciEntry} (he : (id, e) ∈ s.uciPool.objs) :
    s.lastSlTx = some cur := by
  rcases h.last with hlast | ⟨-, hempty⟩
  · exact hlast
  · rw [hempty] at he
    cases he

theorem Timed.startShortTimeout (h : s.Timed cur) {id : Nat} {e e' : UciEntry} (he : (id, e) ∈ s.uciPool.objs)
    (hslot : e'.uciSlot = e.uciSlot) (hshort : e'.shortTimeoutSlot = e.shortTimeoutSlot) (hkey : e'.key = e.key)
    (harrived : 0 < e'.arrived) : (s.startShortTimeout id e').Timed cur ∧ (s.startShortTimeout id e').cfg = s.cfg := by
  have hlast := h.lastSlTx_eq he
  unfold UciSelector.startShortTimeout
  rw [hlast]
  cases hnone : e'.shortTimeoutSlot with
  | some st =>
    refine ⟨?_, rfl⟩
    simpa [hlast] using h.modify he hslot hshort hkey harrived
  | none =>
    dsimp only
    rw [UciSelectorConfig.slot_add h.aged.cur_lt (by decide)]
    refine ⟨⟨h.linked.pushShort he hslot (hshort ▸ hnone) rfl, ⟨h.aged.cur_lt, fun id' b' hb' => ?_,
      fun id' b' hb' => ?_⟩, ⟨?_, h.accounted.sound, h.accounted.past⟩, .inl hlast⟩, rfl⟩
    · obtain ⟨b, hb, rfl⟩ := StableIdMap.mem_modify.mp hb'
      split
      · rename_i hid
        subst hid
        dsimp only
        rw [hslot, show e'.time = e.time from congrArg Prod.fst hkey]
        exact h.aged.slot id' e he
      · exact h.aged.slot id' b hb
    · obtain ⟨b, hb, rfl⟩ := StableIdMap.mem_modify.mp hb'
      split
      · intro st hst
        cases hst
        exact ⟨harrived, shortPucchTimeoutSlots, by decide, le_rfl, rfl⟩
      · exact h.aged.short id' b hb
    · dsimp only [setShortWheel]
      rw [StableIdMap.map_modify UciEntry.key]
      · exact h.accounted.count
      · intro b hb
        rw [StableIdMap.eq_of_mem hb he]
        exact hkey

theorem Timed.drop (h : s.Timed cur) {id : Nat} {e e' : UciEntry} {cause : UciCause} {slot : Nat}
    (he : (id, e) ∈ s.uciPool.objs) (hslot : e'.uciSlot = e.uciSlot)
    (hshort : e'.shortTimeoutSlot = e.shortTimeoutSlot) (hkey : e'.key = e.key)
    (hsound : UciOutcome.Sound s.cfg ⟨e', cause, slot, s.now⟩) : (s.drop id e' cause slot).Timed cur := by
  have htime : e'.time < s.now + 1 := by
    have hle := h.time_le he
    rw [show e'.time = e.time from congrArg Prod.fst hkey]
    omega
  refine ⟨h.linked.drop he hslot hshort cause slot, ?_, ?_, ?_⟩
  · rw [drop_cfg]
    exact h.aged.drop id e' cause slot
  · rw [drop_now]
    exact h.accounted.drop he hkey htime hsound
  · rw [drop_lastSlTx]
    exact .inl (h.lastSlTx_eq he)

theorem Timed.handleUciIndPdu (h : s.Timed cur) (slRx crnti : Nat) (pdu : UciPdu) :
    ∃ s' action, s.handleUciIndPdu slRx crnti pdu = .ok (s', action) ∧ s'.Timed cur ∧ s'.cfg = s.cfg := by
  unfold UciSelector.handleUciIndPdu
  split
  · exact ⟨s, _, rfl, h, rfl⟩
  obtain ⟨found, hfound, hsome, -⟩ := findEntry_spec (p := fun e => e.crnti == crnti && e.uciSlot == slRx)
    (h.linked.exists_entry (s.cfg.wheelPos slRx))
  rw [hfound, ok_bind]
  cases found with
  | none => exact ⟨s, none, rfl, h, rfl⟩
  | some id =>
    obtain ⟨-, e, he, hp⟩ := hsome id rfl
    obtain ⟨-, hslRx⟩ := Bool.and_eq_true_iff.mp hp
    obtain ⟨hslot, hshort, hkey, harrived⟩ := handleUciPdu_same pdu e
    dsimp only
    rw [entry_eq he, ok_bind]
    obtain ⟨⟨e', action⟩, heq⟩ : ∃ r, handleUciPdu pdu e = r := ⟨_, rfl⟩
    rw [heq] at hslot hshort hkey harrived ⊢
    cases action with
    | some action =>
      refine ⟨s.drop id e' .action slRx, some action, rfl, ?_, by simp⟩
      refine h.drop he hslot hshort hkey ⟨?_, (fun hcause => by cases hcause), fun hcause => by cases hcause⟩
      exact (hslot.trans (beq_iff_eq.mp hslRx)).symm
    | none =>
      obtain ⟨htimed, hcfg⟩ := h.startShortTimeout he hslot hshort hkey harrived
      exact ⟨_, none, rfl, htimed, hcfg⟩

theorem Timed.handleDiscardedUcis (h : s.Timed cur) {slTx : Nat}
    (hslot : ∀ id ∈ s.uciWheel (s.cfg.wheelPos slTx), ∀ e ∈ s.uciPool.find? id, e.uciSlot = slTx) :
    ∃ s', s.handleDiscardedUcis slTx = .ok s' ∧ s'.Timed cur ∧ s'.cfg = s.cfg := by
  obtain ⟨s', hs', -, ⟨htimed, hcfg, -⟩, -⟩ := popWheel_rule (fun t => t.Timed cur ∧ t.cfg = s.cfg ∧
      ∀ id e, (id, e) ∈ t.uciPool.objs → (id, e) ∈ s.uciPool.objs) .discarded (fun _ => slTx)
    (s.cfg.wheelPos slTx) (fun t id e _ ⟨ht, hcfg, hsub⟩ he hpos => by
      have hmem : id ∈ s.uciWheel (s.cfg.wheelPos slTx) := (h.linked.wheel _ id).mpr ⟨e, hsub id e he, by rw [← hcfg, hpos, hcfg]⟩
      have heq := hslot id hmem e (StableIdMap.find?_eq_some.mpr (hsub id e he))
      refine ⟨ht.drop he rfl rfl rfl ⟨heq.symm, (fun hcause => by cases hcause), fun hcause => by cases hcause⟩,
        by rw [drop_cfg, hcfg], fun id' e' he' => ?_⟩
      rw [drop_uciPool, StableIdMap.mem_erase] at he'
      exact hsub id' e' he'.2)
    h.linked ⟨h, rfl, fun _ _ he => he⟩ rfl
  exact ⟨s', hs', htimed, hcfg⟩

/-- The slots of two results that follow each other are not a multiple of the period apart, and what is
discarded is all there is at the position of its slot. -/
def Regular (s : UciSelector) : UciEvent → Prop
  | .result slTx _ _ => ∀ last ∈ s.lastSlTx, slTx % s.cfg.period ≠ last
  | .discarded slTx => ∀ id ∈ s.uciWheel (s.cfg.wheelPos (slTx % s.cfg.period)), ∀ e ∈ s.uciPool.find? id,
    e.uciSlot = slTx % s.cfg.period
  | .indication _ _ _ => True

instance (s : UciSelector) (e : UciEvent) : Decidable (s.Regular e) :=
  match e with
  | .result _ _ _ => inferInstanceAs (Decidable (∀ last ∈ s.lastSlTx, _))
  | .discarded _ => inferInstanceAs (Decidable (∀ id ∈ s.uciWheel _, ∀ e ∈ s.uciPool.find? id, _))
  | .indication _ _ _ => inferInstanceAs (Decidable True)

theorem Timed.step (h : s.Timed cur) {e : UciEvent} (hdvd : s.cfg.ackTimeoutSlots ∣ s.cfg.period)
    (hreg : s.Regular e) : ∃ s' cur', s.step e = .ok s' ∧ s'.Timed cur' ∧ s'.cfg = s.cfg := by
  cases e with
  | result slTx pucchs puschs =>
    obtain ⟨s', hs', htimed, hcfg⟩ :=
      h.handleResult hdvd (Nat.mod_lt _ s.cfg.period_pos) hreg pucchs puschs
    exact ⟨s', _, hs', htimed, hcfg⟩
  | indication slRx crnti pdu =>
    obtain ⟨s', action, hs', htimed, hcfg⟩ := h.handleUciIndPdu (slRx % s.cfg.period) crnti pdu
    exact ⟨s', cur, by simp [UciSelector.step, hs', Except.map], htimed, hcfg⟩
  | discarded slTx =>
    obtain ⟨s', hs', htimed, hcfg⟩ := h.handleDiscardedUcis hreg
    exact ⟨s', cur, hs', htimed, hcfg⟩

theorem timed_new (cfg : UciSelectorConfig) : (new cfg).Timed 0 where
  linked := linked_new cfg
  aged := aged_of_empty _ cfg.period_pos rfl
  accounted := ⟨.nil, by simp [new], by simp [new]⟩
  last := .inr ⟨rfl, rfl⟩

/-- What is known in a state of a run: no step fails, each grant has one outcome or waits for it no longer
than the timeout, the timeouts are not before their time, and the lists hold the entries of the pool. -/
structure ResolvedOnce (s : UciSelector) : Prop where
  count : ∀ slot crnti, s.registered.count (slot, crnti) =
    (s.outcomes.map (·.entry.key)).count (slot, crnti) + (s.uciPool.values.map UciEntry.key).count (slot, crnti)
  waiting : ∀ e ∈ s.uciPool.values, s.now < e.time + s.cfg.ackTimeoutSlots
  sound : ∀ o ∈ s.outcomes, o.Sound s.cfg
  linked : s.Linked

theorem Timed.resolvedOnce (h : s.Timed cur) : s.ResolvedOnce where
  count slot crnti := by
    rw [← h.accounted.count.count_eq, List.count_append, StableIdMap.values, List.map_map]
    rfl
  waiting e he := by
    have hgt := s.cfg.ackTimeout_gt
    obtain ⟨⟨id, e'⟩, he', rfl⟩ := List.mem_map.mp he
    obtain ⟨-, age, -, hhi, htime, -⟩ := h.aged.slot id e' he'
    dsimp only
    omega
  sound := h.accounted.sound
  linked := h.linked

/-! With a timeout that does not divide the period, a grant of the slot 0 times out before its time. -/

def loneGrant : UciEntry := ⟨1, 1, { harqAckBits := [false] }, 0, none, 1, 0⟩

def slotsOf : Nat → Nat → List UciEvent
  | _, 0 => []
  | cur, n + 1 => .result (cur + 1) [] [] :: slotsOf (cur + 1) n

def timeoutPos (cfg : UciSelectorConfig) (slTx : Nat) : Nat :=
  cfg.wheelPos ((cfg.slot slTx).sub cfg.ackTimeoutSlots).count

structure Silent (s : UciSelector) : Prop where
  entry : ∀ id e, (id, e) ∈ s.uciPool.objs → e = loneGrant
  outcome : ∀ o ∈ s.outcomes, o.entry = loneGrant ∧ o.cause = .ackTimeout ∧ o.resolvedAt ≤ s.now

structure Idle (s : UciSelector) (cur : Nat) : Prop where
  linked : s.Linked
  silent : s.Silent
  now : s.now = cur + 1
  registered : s.registered = [(1, 1)]
  last : s.lastSlTx = some (cur % s.cfg.period)
  popped : 0 < cur → s.uciWheel (timeoutPos s.cfg (cur % s.cfg.period)) = []

theorem Silent.drop (h : s.Silent) {id : Nat} {e : UciEntry} (slot : Nat) (he : (id, e) ∈ s.uciPool.objs) :
    (s.drop id e .ackTimeout slot).Silent where
  entry id' e' he' := by
    rw [drop_uciPool, StableIdMap.mem_erase] at he'
    exact h.entry id' e' he'.2
  outcome o ho := by
    rw [drop_now]
    rw [drop_outcomes] at ho
    rcases List.mem_cons.mp ho with rfl | ho
    · exact ⟨h.entry id e he, rfl, le_rfl⟩
    · exact h.outcome o ho

theorem Silent.handleTimeouts (h : s.Silent) (hlinked : s.Linked) (slTx : Nat) : ∃ s', s.handleTimeouts slTx = .ok s' ∧
    SameClock { s with now := s.now + 1 } s' ∧ s'.Silent ∧ s'.Linked ∧ s'.uciWheel (timeoutPos s.cfg slTx) = [] := by
  obtain ⟨s₁, hs₁, hlinked₁, ⟨hclock, h₁⟩, hempty⟩ := popWheel_rule (s := { s with now := s.now + 1 })
    (fun u => SameClock { s with now := s.now + 1 } u ∧ u.Silent) .ackTimeout
    (reportedSlot ((s.cfg.slot slTx).sub s.cfg.ackTimeoutSlots).count) (timeoutPos s.cfg slTx)
    (fun u id e _ hu he _ => ⟨hu.1.drop id e _ _, hu.2.drop _ he⟩) (hlinked.congr rfl rfl rfl rfl)
    ⟨.refl _, h.entry, fun o ho => (h.outcome o ho).imp_right (.imp_right Nat.le_succ_of_le)⟩ rfl
  have hshort : s₁.shortTimeoutWheel (shortPos slTx) = [] := by
    refine List.eq_nil_iff_forall_not_mem.mpr fun id hid => ?_
    obtain ⟨e, he, hpos⟩ := (hlinked₁.short _ id).mp hid
    rw [h₁.entry id e he] at hpos
    cases hpos
  refine ⟨s₁, ?_, hclock, h₁, hlinked₁, hempty⟩
  simp only [UciSelector.handleTimeouts]
  rw [timeoutPos] at hs₁
  rw [hs₁, ok_bind, hshort]
  rfl

theorem Idle.step (h : s.Idle cur) : s.Regular (.result (cur + 1) [] []) ∧
    ∃ s', s.step (.result (cur + 1) [] []) = .ok s' ∧ s'.cfg = s.cfg ∧ s'.Idle (cur + 1) := by
  have hpos := s.cfg.period_pos
  have hgt := s.cfg.ackTimeout_gt
  have hmod : (cur + 1) % s.cfg.period = (cur % s.cfg.period + 1) % s.cfg.period := (Nat.mod_add_mod ..).symm
  have hjump := UciSelectorConfig.slotJump_succ (Nat.mod_lt cur hpos)
  have hskipped := skippedSlot_eq (n := 0) (Nat.mod_lt (cur + 1) hpos) hmod.symm
  rw [← hmod] at hjump hskipped
  obtain ⟨s₁, hs₁, hclock, h₁, hlinked, hempty⟩ := Silent.handleTimeouts
    (s := { s with lastSlTx := some ((cur + 1) % s.cfg.period) }) ⟨h.silent.entry, h.silent.outcome⟩
    (h.linked.congr rfl rfl rfl rfl) ((cur + 1) % s.cfg.period)
  refine ⟨fun last hlast heq => ?_, s₁, ?_, hclock.cfg, hlinked, h₁, ?_, hclock.registered.trans h.registered, ?_,
    fun _ => ?_⟩
  · rw [h.last] at hlast
    cases hlast
    rw [heq, UciSelectorConfig.slotJump_self] at hjump
    cases hjump
  · have hadvance : s.advance ((cur + 1) % s.cfg.period) = .ok s₁ := by
      unfold UciSelector.advance
      rw [h.last]
      dsimp only
      rw [hjump, if_neg (by omega)]
      simp only [skipSlots]
      rw [hskipped, hs₁]
      rfl
    simp only [UciSelector.step, UciSelector.handleResult]
    rw [hadvance]
    rfl
  · rw [hclock.now, h.now]
  · rw [hclock.lastSlTx, hclock.cfg]
  · rw [hclock.cfg]
    exact hempty

theorem Idle.run (n : Nat) (h : s.Idle cur) : Machine.Admits UciSelector.step Regular s (slotsOf cur n) ∧
    ∃ s', Machine.run UciSelector.step s (slotsOf cur n) = .ok s' ∧ s'.cfg = s.cfg ∧ s'.Idle (cur + n) := by
  induction n generalizing s cur with
  | zero => exact ⟨trivial, s, rfl, rfl, h⟩
  | succ n ih =>
    obtain ⟨hreg, s₁, hs₁, hcfg₁, h₁⟩ := h.step
    obtain ⟨hadm, s₂, hs₂, hcfg₂, h₂⟩ := ih h₁
    refine ⟨⟨hreg, fun t ht => ?_⟩, s₂, ?_, hcfg₂.trans hcfg₁, ?_⟩
    · obtain rfl : s₁ = t := Except.ok.inj (hs₁.symm.trans ht)
      exact hadm
    · rw [slotsOf, Machine.run_cons_ok hs₁, hs₂]
    · rwa [Nat.add_right_comm, Nat.add_assoc] at h₂

theorem exists_timeoutPos {cfg : UciSelectorConfig} (h : ¬ cfg.ackTimeoutSlots ∣ cfg.period) :
    ∃ k, 0 < k ∧ k < cfg.ackTimeoutSlots ∧ timeoutPos cfg (k % cfg.period) = 0 := by
  have hpos := cfg.period_pos
  have hgt := cfg.ackTimeout_gt
  rcases Nat.lt_or_ge cfg.ackTimeoutSlots cfg.period with hlt | hge
  · have hmod := Nat.mod_lt cfg.period (show 0 < cfg.ackTimeoutSlots by omega)
    have hne : cfg.period % cfg.ackTimeoutSlots ≠ 0 := fun h0 => h (Nat.dvd_of_mod_eq_zero h0)
    refine ⟨cfg.ackTimeoutSlots - cfg.period % cfg.ackTimeoutSlots, by omega, by omega, ?_⟩
    rw [timeoutPos, UciSelectorConfig.sub_count
      (show cfg.period - cfg.period % cfg.ackTimeoutSlots < cfg.period by omega)]
    · exact Nat.mod_eq_zero_of_dvd (Nat.dvd_sub_mod cfg.period)
    · have hle := Nat.mod_le cfg.period cfg.ackTimeoutSlots
      have hsum : cfg.period - cfg.period % cfg.ackTimeoutSlots + cfg.ackTimeoutSlots =
          cfg.period + (cfg.ackTimeoutSlots - cfg.period % cfg.ackTimeoutSlots) := by omega
      rw [hsum, Nat.add_mod_left, Nat.mod_mod]
  · have hne : cfg.ackTimeoutSlots ≠ cfg.period := fun heq => h (heq ▸ dvd_refl _)
    have hmod := Nat.mod_lt cfg.ackTimeoutSlots hpos
    have hzero : ∀ k, k % cfg.period = cfg.ackTimeoutSlots % cfg.period → timeoutPos cfg (k % cfg.period) = 0 := by
      intro k hk
      rw [timeoutPos, UciSelectorConfig.sub_count hpos]
      · exact Nat.zero_mod _
      · rw [Nat.zero_add, Nat.mod_mod, hk]
    by_cases h0 : cfg.ackTimeoutSlots % cfg.period = 0
    · exact ⟨cfg.period, hpos, by omega, hzero _ (by rw [h0, Nat.mod_self])⟩
    · exact ⟨_, by omega, by omega, hzero _ (Nat.mod_mod ..)⟩

theorem step_lone (cfg : UciSelectorConfig) :
    ∃ s, (new cfg).step (.result 0 [⟨1, 1⟩] []) = .ok s ∧ s.cfg = cfg ∧ s.Idle 0 := by
  refine ⟨{ insertEntry { new cfg with lastSlTx := some 0, now := 1 } 0 ⟨1, 1⟩ with registered := [(1, 1)] }, rfl, rfl,
    ⟨?_, ⟨fun id e he => ?_, fun o ho => ?_⟩, rfl, rfl, ?_, fun h => ?_⟩⟩
  · have hnew : Linked { new cfg with lastSlTx := some 0, now := 1 } := (linked_new cfg).congr rfl rfl rfl rfl
    exact (hnew.insertEntry 0 ⟨1, 1⟩).congr rfl rfl rfl rfl
  · cases List.mem_singleton.mp he
    rfl
  · cases ho
  · rw [Nat.zero_mod]
    rfl
  · cases h

theorem exists_unresolved (cfg : UciSelectorConfig) (h : ¬ cfg.ackTimeoutSlots ∣ cfg.period) :
    ∃ es s, Machine.Admits step Regular (new cfg) es ∧ Machine.run step (new cfg) es = .ok s ∧ ¬ s.ResolvedOnce := by
  obtain ⟨k, hk, hlt, hzero⟩ := exists_timeoutPos h
  obtain ⟨s₀, hs₀, rfl, h₀⟩ := step_lone cfg
  obtain ⟨hadm, s, hs, hcfg, hidle⟩ := h₀.run k
  rw [Nat.zero_add] at hidle
  refine ⟨.result 0 [⟨1, 1⟩] [] :: slotsOf 0 k, s, ⟨(fun last hlast => by cases hlast), fun t ht => ?_⟩,
    (Machine.run_cons_ok hs₀).trans hs, fun hres => ?_⟩
  · obtain rfl : s₀ = t := Except.ok.inj (hs₀.symm.trans ht)
    exact hadm
  have hempty : s.uciPool.objs = [] := by
    refine List.eq_nil_iff_forall_not_mem.mpr fun ⟨id, e⟩ he => ?_
    have hmem := (hidle.linked.wheel 0 id).mpr ⟨e, he, by rw [hidle.silent.entry id e he]; exact Nat.zero_mod _⟩
    have hpopped := hidle.popped hk
    rw [hcfg, hzero] at hpopped
    rw [hpopped] at hmem
    cases hmem
  have hcount := hres.count 1 1
  rw [hidle.registered, StableIdMap.values, hempty] at hcount
  rw [List.map_nil, List.map_nil, List.count_nil, Nat.add_zero] at hcount
  have hone : 0 < [((1 : Nat), (1 : Nat))].count (1, 1) := by decide
  rw [hcount] at hone
  obtain ⟨o, ho, -⟩ := List.mem_map.mp (List.count_pos_iff.mp hone)
  obtain ⟨hentry, hcause, hat⟩ := hidle.silent.outcome o ho
  have hsound := (hres.sound o ho).2.1 hcause
  rw [hentry, hcfg] at hsound
  have hnow := hidle.now
  simp only [loneGrant] at hsound
  omega

/-- Each UCI grant of each run is resolved once if and only if the timeout divides the period of the slot counter. -/
theorem uciGrants_resolvedOnce (cfg : UciSelectorConfig) : cfg.ackTimeoutSlots ∣ cfg.period ↔
    ∀ es, Machine.Admits step Regular (new cfg) es →
      ∃ s, Machine.run step (new cfg) es = .ok s ∧ s.cfg = cfg ∧ s.ResolvedOnce := by
  constructor
  · intro hdvd es hreg
    obtain ⟨s, hs, ⟨cur, htimed⟩, hcfg⟩ := Machine.run_total (fun s => (∃ cur, s.Timed cur) ∧ s.cfg = cfg)
      (fun s e ⟨⟨cur, htimed⟩, hcfg⟩ hreg => by
        obtain ⟨s', cur', hs', htimed', hcfg'⟩ := htimed.step (hcfg ▸ hdvd) hreg
        exact ⟨s', hs', ⟨cur', htimed'⟩, hcfg'.trans hcfg⟩)
      ⟨⟨0, timed_new cfg⟩, rfl⟩ hreg
    exact ⟨s, hs, hcfg, htimed.resolvedOnce⟩
  · intro hruns
    by_contra hdvd
    obtain ⟨es, s, hreg, hs, hno⟩ := exists_unresolved cfg hdvd
    obtain ⟨s', hs', -, hres⟩ := hruns es hreg
    obtain rfl : s' = s := Except.ok.inj (hs'.symm.trans hs)
    exact hno hres

def wheel256 : UciSelectorConfig := ⟨0, 256, by decide, by decide⟩

/-- Grants on both sides of a wrap-around, of which the first one has two PUCCHs. -/
def mixedUcis : List UciEvent :=
  [.result 10239 [⟨1, 1⟩, ⟨1, 1⟩] [⟨2, 1⟩], .indication 10239 1 (.pucchF0F1 none false [.ack]),
    .result 10240 [⟨1, 1⟩, ⟨3, 2⟩] [], .indication 10240 1 (.pucchF0F1 none false [.ack]),
    .discarded 10240, .result 10248 [] [], .result (10239 + 256) [] []]

theorem uciGrants_resolvedOnce_mixed : ∃ s, Machine.run step (new wheel256) mixedUcis = .ok s ∧ s.ResolvedOnce ∧
    s.outcomes.map (fun o => (o.entry.key, o.cause)) =
      [((1, 2), .ackTimeout), ((1, 1), .shortTimeout), ((2, 3), .discarded), ((2, 1), .action)] := by
  obtain ⟨s, hs, -, hresolved⟩ := (uciGrants_resolvedOnce wheel256).mp (by decide) mixedUcis (by decide +kernel)
  have hok : (Machine.run step (new wheel256) mixedUcis).map
      (fun s => s.outcomes.map fun o => (o.entry.key, o.cause)) =
      .ok [((1, 2), .ackTimeout), ((1, 1), .shortTimeout), ((2, 3), .discarded), ((2, 1), .action)] := by
    decide +kernel
  rw [hs] at hok
  exact ⟨s, hs, hresolved, Except.ok.inj hok⟩

def wheel100 : UciSelectorConfig := ⟨0, 100, by decide, by decide⟩

/-- The slots 10239 and 39 are at the same position of the wheel. -/
def aliasedSlots : List UciEvent :=
  [.result 10239 [⟨1, 1⟩] [], .result (10239 + 40) [⟨1, 1⟩] [], .result (10239 + 40 + 101) [] []]

/-- The second grant is taken for a PUCCH of the first one, and has no action and no timeout. -/
theorem uciGrant_lost : ¬ ∀ (cfg : UciSelectorConfig) (es : List UciEvent) (s : UciSelector),
    Machine.run step (new cfg) es = .ok s → s.ResolvedOnce := by
  intro h
  have hok : (Machine.run step (new wheel100) aliasedSlots).map
      (fun s => (s.registered, s.outcomes.map (·.entry.key), s.uciPool.values)) =
      .ok ([(41, 1), (1, 1)], [(1, 1)], []) := by
    decide +kernel
  obtain ⟨s, hs, hfields⟩ := map_eq_ok.mp hok
  obtain ⟨hreg, hout, hpool⟩ : s.registered = [(41, 1), (1, 1)] ∧ s.outcomes.map (·.entry.key) = [(1, 1)] ∧
      s.uciPool.values = [] := by simpa using hfields
  have hcount := (h wheel100 aliasedSlots s hs).count 41 1
  rw [hreg, hout, hpool] at hcount
  exact absurd hcount (by decide)

end Ocudu.Sched.UciSelector
