import Ocudu.Sched.UciSelector

/-! The lists of the two wheels: every entry of the pool is in one list of the main wheel, and in one of the
wheel of short timeouts if it has a short timeout. No id of a list is invalid, whatever the size of the wheel. -/

namespace Ocudu.Sched.UciSelector

variable {s s' : UciSelector}

structure Linked (s : UciSelector) : Prop where
  wheel : ∀ pos id, id ∈ s.uciWheel pos ↔
    ∃ e, (id, e) ∈ s.uciPool.objs ∧ s.cfg.wheelPos e.uciSlot = pos
  nodup : ∀ pos, (s.uciWheel pos).Nodup
  short : ∀ pos id, id ∈ s.shortTimeoutWheel pos ↔
    ∃ e, (id, e) ∈ s.uciPool.objs ∧ e.shortTimeoutSlot.map shortPos = some pos
  shortNodup : ∀ pos, (s.shortTimeoutWheel pos).Nodup

theorem linked_new (cfg : UciSelectorConfig) : (new cfg).Linked where
  wheel _ _ := by simp [new, StableIdMap.empty]
  nodup _ := List.nodup_nil
  short _ _ := by simp [new, StableIdMap.empty]
  shortNodup _ := List.nodup_nil

theorem entry_eq {id : Nat} {e : UciEntry} (h : (id, e) ∈ s.uciPool.objs) : s.entry id = .ok e := by
  unfold entry
  rw [StableIdMap.find?_eq_some.mpr h]

def drop (s : UciSelector) (id : Nat) (e : UciEntry) (cause : UciCause) (slot : Nat) : UciSelector :=
  ((s.eraseWheel id e).eraseShort id e).resolve id e cause slot

@[simp] theorem eraseShort_cfg (s : UciSelector) (id : Nat) (e : UciEntry) : (s.eraseShort id e).cfg = s.cfg := by
  unfold eraseShort
  split <;> rfl

@[simp] theorem eraseShort_uciPool (s : UciSelector) (id : Nat) (e : UciEntry) :
    (s.eraseShort id e).uciPool = s.uciPool := by
  unfold eraseShort
  split <;> rfl

@[simp] theorem eraseShort_uciWheel (s : UciSelector) (id : Nat) (e : UciEntry) :
    (s.eraseShort id e).uciWheel = s.uciWheel := by
  unfold eraseShort
  split <;> rfl

@[simp] theorem eraseShort_lastSlTx (s : UciSelector) (id : Nat) (e : UciEntry) :
    (s.eraseShort id e).lastSlTx = s.lastSlTx := by
  unfold eraseShort
  split <;> rfl

@[simp] theorem eraseShort_now (s : UciSelector) (id : Nat) (e : UciEntry) : (s.eraseShort id e).now = s.now := by
  unfold eraseShort
  split <;> rfl

@[simp] theorem eraseShort_registered (s : UciSelector) (id : Nat) (e : UciEntry) :
    (s.eraseShort id e).registered = s.registered := by
  unfold eraseShort
  split <;> rfl

@[simp] theorem eraseShort_outcomes (s : UciSelector) (id : Nat) (e : UciEntry) :
    (s.eraseShort id e).outcomes = s.outcomes := by
  unfold eraseShort
  split <;> rfl

@[simp] theorem drop_cfg (s : UciSelector) (id : Nat) (e : UciEntry) (cause : UciCause) (slot : Nat) :
    (s.drop id e cause slot).cfg = s.cfg := by
  simp [drop, resolve, eraseWheel, setWheel]

@[simp] theorem drop_lastSlTx (s : UciSelector) (id : Nat) (e : UciEntry) (cause : UciCause) (slot : Nat) :
    (s.drop id e cause slot).lastSlTx = s.lastSlTx := by
  simp [drop, resolve, eraseWheel, setWheel]

@[simp] theorem drop_now (s : UciSelector) (id : Nat) (e : UciEntry) (cause : UciCause) (slot : Nat) :
    (s.drop id e cause slot).now = s.now := by
  simp [drop, resolve, eraseWheel, setWheel]

@[simp] theorem drop_registered (s : UciSelector) (id : Nat) (e : UciEntry) (cause : UciCause) (slot : Nat) :
    (s.drop id e cause slot).registered = s.registered := by
  simp [drop, resolve, eraseWheel, setWheel]

@[simp] theorem drop_uciPool (s : UciSelector) (id : Nat) (e : UciEntry) (cause : UciCause) (slot : Nat) :
    (s.drop id e cause slot).uciPool = s.uciPool.erase id := by
  simp [drop, resolve, eraseWheel, setWheel]

@[simp] theorem drop_outcomes (s : UciSelector) (id : Nat) (e : UciEntry) (cause : UciCause) (slot : Nat) :
    (s.drop id e cause slot).outcomes = ⟨e, cause, slot, s.now⟩ :: s.outcomes := by
  simp [drop, resolve, eraseWheel, setWheel]

theorem drop_uciWheel (s : UciSelector) (id : Nat) (e : UciEntry) (cause : UciCause) (slot : Nat) :
    (s.drop id e cause slot).uciWheel = Function.update s.uciWheel (s.cfg.wheelPos e.uciSlot)
      ((s.uciWheel (s.cfg.wheelPos e.uciSlot)).erase id) := by
  simp [drop, resolve, eraseWheel, setWheel]

theorem drop_shortTimeoutWheel (s : UciSelector) (id pos : Nat) (e : UciEntry) (cause : UciCause) (slot : Nat) :
    (s.drop id e cause slot).shortTimeoutWheel pos =
      if e.shortTimeoutSlot.map shortPos = some pos then (s.shortTimeoutWheel pos).erase id
      else s.shortTimeoutWheel pos := by
  unfold drop resolve eraseShort
  cases he : e.shortTimeoutSlot with
  | none => simp [eraseWheel, setWheel]
  | some sl =>
    by_cases hpos : shortPos sl = pos
    · subst hpos
      simp [eraseWheel, setWheel, setShortWheel]
    · simp [eraseWheel, setWheel, setShortWheel, hpos, Function.update_of_ne (Ne.symm hpos)]

theorem mem_erase_iff {m : StableIdMap UciEntry} (key : UciEntry → Option Nat) {lists : Nat → List Nat}
    (hmem : ∀ pos id, id ∈ lists pos ↔ ∃ e, (id, e) ∈ m.objs ∧ key e = some pos) (hnodup : ∀ pos, (lists pos).Nodup)
    {id : Nat} {e : UciEntry} (he : (id, e) ∈ m.objs) (pos id' : Nat) :
    (id' ∈ if key e = some pos then (lists pos).erase id else lists pos) ↔
      ∃ e', (id', e') ∈ (m.erase id).objs ∧ key e' = some pos := by
  simp only [StableIdMap.mem_erase, and_assoc, exists_and_left]
  split
  · rw [(hnodup pos).mem_erase_iff, hmem]
  · rename_i hkey
    rw [hmem]
    constructor
    · rintro ⟨e', he', hpos⟩
      refine ⟨?_, e', he', hpos⟩
      rintro rfl
      exact hkey (StableIdMap.eq_of_mem he he' ▸ hpos)
    · rintro ⟨-, e', he', hpos⟩
      exact ⟨e', he', hpos⟩

theorem Linked.drop (h : s.Linked) {id : Nat} {e e₀ : UciEntry} (he : (id, e₀) ∈ s.uciPool.objs)
    (hslot : e.uciSlot = e₀.uciSlot) (hshort : e.shortTimeoutSlot = e₀.shortTimeoutSlot) (cause : UciCause)
    (slot : Nat) : (s.drop id e cause slot).Linked where
  wheel pos id' := by
    have hmem := mem_erase_iff (fun e => some (s.cfg.wheelPos e.uciSlot)) (by simpa using h.wheel)
      h.nodup he pos id'
    simp only [Option.some.injEq] at hmem
    rw [drop_uciPool, drop_cfg, ← hmem, drop_uciWheel, hslot]
    by_cases hpos : s.cfg.wheelPos e₀.uciSlot = pos
    · subst hpos
      rw [Function.update_self, if_pos rfl]
    · rw [Function.update_of_ne (Ne.symm hpos), if_neg hpos]
  nodup pos := by
    rw [drop_uciWheel]
    by_cases hpos : s.cfg.wheelPos e.uciSlot = pos
    · subst hpos
      rw [Function.update_self]
      exact (h.nodup _).erase id
    · rw [Function.update_of_ne (Ne.symm hpos)]
      exact h.nodup pos
  short pos id' := by
    have hmem := mem_erase_iff (fun e => e.shortTimeoutSlot.map shortPos) h.short h.shortNodup he pos id'
    rw [drop_uciPool, ← hmem, drop_shortTimeoutWheel, hshort]
  shortNodup pos := by
    rw [drop_shortTimeoutWheel]
    split
    · exact (h.shortNodup pos).erase id
    · exact h.shortNodup pos

theorem pop_eq_drop {id pos : Nat} {ids : List Nat} {e : UciEntry} (hids : s.uciWheel pos = id :: ids)
    (hpos : s.cfg.wheelPos e.uciSlot = pos) (cause : UciCause) (slot : Nat) :
    (s.setWheel pos ids).handleTimeoutPendingUciEntry id e cause slot = s.drop id e cause slot := by
  subst hpos
  rw [handleTimeoutPendingUciEntry, UciSelector.drop, eraseWheel, hids, List.erase_cons_head]

theorem popShort_eq_drop {id pos : Nat} {ids : List Nat} {e : UciEntry} (hids : s.shortTimeoutWheel pos = id :: ids)
    (hpos : e.shortTimeoutSlot.map shortPos = some pos) (cause : UciCause) (slot : Nat) :
    ((s.setShortWheel pos ids).eraseWheel id e).resolve id e cause slot = s.drop id e cause slot := by
  obtain ⟨sl, hsl, rfl⟩ := Option.map_eq_some_iff.mp hpos
  have hshort : (s.eraseWheel id e).eraseShort id e = (s.setShortWheel (shortPos sl) ids).eraseWheel id e := by
    unfold eraseShort
    rw [hsl]
    dsimp only
    have hlist : (s.eraseWheel id e).shortTimeoutWheel (shortPos sl) = id :: ids := hids
    rw [hlist, List.erase_cons_head]
    rfl
  rw [UciSelector.drop, hshort]

theorem popWheel_rule (I : UciSelector → Prop) (cause : UciCause) (slot : UciEntry → Nat) (pos : Nat)
    (hI : ∀ s id e, s.Linked → I s → (id, e) ∈ s.uciPool.objs → s.cfg.wheelPos e.uciSlot = pos →
      I (s.drop id e cause (slot e))) {ids : List Nat} (h : s.Linked) (h0 : I s) (hids : s.uciWheel pos = ids) :
    ∃ s', popWheel cause slot pos s ids = .ok s' ∧ s'.Linked ∧ I s' ∧ s'.uciWheel pos = [] := by
  induction ids generalizing s with
  | nil => exact ⟨s, rfl, h, h0, hids⟩
  | cons id ids ih =>
    obtain ⟨e, he, hpos⟩ := (h.wheel pos id).mp (hids ▸ List.mem_cons_self)
    rw [popWheel, entry_eq he, ok_bind, pop_eq_drop hids hpos]
    refine ih (h.drop he rfl rfl cause _) (hI s id e h h0 he hpos) ?_
    rw [drop_uciWheel, hpos, Function.update_self, hids, List.erase_cons_head]

theorem popShort_rule (I : UciSelector → Prop) {pos : Nat}
    (hI : ∀ s id e, s.Linked → I s → (id, e) ∈ s.uciPool.objs → e.shortTimeoutSlot.map shortPos = some pos →
      I (s.drop id e .shortTimeout e.uciSlot)) {ids : List Nat} (h : s.Linked) (h0 : I s)
    (hids : s.shortTimeoutWheel pos = ids) :
    ∃ s', popShort pos s ids = .ok s' ∧ s'.Linked ∧ I s' ∧ s'.shortTimeoutWheel pos = [] := by
  induction ids generalizing s with
  | nil => exact ⟨s, rfl, h, h0, hids⟩
  | cons id ids ih =>
    obtain ⟨e, he, hpos⟩ := (h.short pos id).mp (hids ▸ List.mem_cons_self)
    rw [popShort, entry_eq he, ok_bind, popShort_eq_drop hids hpos]
    refine ih (h.drop he rfl rfl _ _) (hI s id e h h0 he hpos) ?_
    rw [drop_shortTimeoutWheel, if_pos hpos, hids, List.erase_cons_head]

theorem findEntry_spec {p : UciEntry → Bool} {ids : List Nat}
    (hids : ∀ id ∈ ids, ∃ e, (id, e) ∈ s.uciPool.objs) :
    ∃ found, s.findEntry p ids = .ok found ∧
      (∀ id ∈ found, id ∈ ids ∧ ∃ e, (id, e) ∈ s.uciPool.objs ∧ p e = true) ∧
      (found = none → ∀ id ∈ ids, ∀ e, (id, e) ∈ s.uciPool.objs → p e = false) := by
  induction ids with
  | nil => exact ⟨none, rfl, by simp, by simp⟩
  | cons id ids ih =>
    obtain ⟨e, he⟩ := hids id List.mem_cons_self
    obtain ⟨found, hfound, hsome, hnone⟩ := ih fun id' hid' => hids id' (List.mem_cons_of_mem _ hid')
    rw [findEntry, entry_eq he, ok_bind]
    cases hp : p e with
    | true =>
      refine ⟨some id, rfl, fun id' hid' => ?_, by simp⟩
      cases hid'
      exact ⟨List.mem_cons_self, e, he, hp⟩
    | false =>
      refine ⟨found, by simpa using hfound, fun id' hid' => ?_, fun hn id' hid' e' he' => ?_⟩
      · obtain ⟨hmem, hrest⟩ := hsome id' hid'
        exact ⟨List.mem_cons_of_mem _ hmem, hrest⟩
      · rcases List.mem_cons.mp hid' with rfl | hid'
        · rw [StableIdMap.eq_of_mem he' he, hp]
        · exact hnone hn id' hid' e' he'

theorem Linked.exists_entry (h : s.Linked) (pos : Nat) :
    ∀ id ∈ s.uciWheel pos, ∃ e, (id, e) ∈ s.uciPool.objs := fun id hid => by
  obtain ⟨e, he, -⟩ := (h.wheel pos id).mp hid
  exact ⟨e, he⟩

theorem Linked.congr (h : s.Linked) (hcfg : s'.cfg = s.cfg) (hpool : s'.uciPool = s.uciPool)
    (hwheel : s'.uciWheel = s.uciWheel) (hshort : s'.shortTimeoutWheel = s.shortTimeoutWheel) : s'.Linked := by
  obtain ⟨h₁, h₂, h₃, h₄⟩ := h
  refine ⟨?_, ?_, ?_, ?_⟩
  · rw [hcfg, hpool, hwheel]
    exact h₁
  · rw [hwheel]
    exact h₂
  · rw [hpool, hshort]
    exact h₃
  · rw [hshort]
    exact h₄

theorem Linked.modify (h : s.Linked) {id : Nat} {f : UciEntry → UciEntry} (hslot : ∀ e, (id, e) ∈ s.uciPool.objs →
      (f e).uciSlot = e.uciSlot ∧ (f e).shortTimeoutSlot = e.shortTimeoutSlot) :
    Linked { s with uciPool := s.uciPool.modify id f } where
  wheel pos id' := by
    rw [h.wheel]
    simp only [StableIdMap.mem_modify]
    constructor
    · rintro ⟨e, he, hpos⟩
      refine ⟨_, ⟨e, he, rfl⟩, ?_⟩
      split
      · rename_i hid
        rw [(hslot e (hid ▸ he)).1]
        exact hpos
      · exact hpos
    · rintro ⟨_, ⟨e, he, rfl⟩, hpos⟩
      refine ⟨e, he, ?_⟩
      split at hpos
      · rename_i hid
        rw [(hslot e (hid ▸ he)).1] at hpos
        exact hpos
      · exact hpos
  nodup := h.nodup
  short pos id' := by
    rw [h.short]
    simp only [StableIdMap.mem_modify]
    constructor
    · rintro ⟨e, he, hpos⟩
      refine ⟨_, ⟨e, he, rfl⟩, ?_⟩
      split
      · rename_i hid
        rw [(hslot e (hid ▸ he)).2]
        exact hpos
      · exact hpos
    · rintro ⟨_, ⟨e, he, rfl⟩, hpos⟩
      refine ⟨e, he, ?_⟩
      split at hpos
      · rename_i hid
        rw [(hslot e (hid ▸ he)).2] at hpos
        exact hpos
      · exact hpos
  shortNodup := h.shortNodup

theorem Linked.insertEntry (h : s.Linked) (slTx : Nat) (grant : HarqGrant) : (s.insertEntry slTx grant).Linked where
  wheel pos id := by
    simp only [UciSelector.insertEntry, StableIdMap.mem_insert]
    by_cases hpos : s.cfg.wheelPos slTx = pos
    · subst hpos
      rw [Function.update_self, List.mem_cons, h.wheel]
      constructor
      · rintro (rfl | ⟨e, he, hpos⟩)
        · exact ⟨_, .inl ⟨rfl, rfl⟩, rfl⟩
        · exact ⟨e, .inr he, hpos⟩
      · rintro ⟨e, ⟨rfl, rfl⟩ | he, hpos⟩
        · exact .inl rfl
        · exact .inr ⟨e, he, hpos⟩
    · rw [Function.update_of_ne (Ne.symm hpos), h.wheel]
      constructor
      · rintro ⟨e, he, hpos⟩
        exact ⟨e, .inr he, hpos⟩
      · rintro ⟨e, ⟨rfl, rfl⟩ | he, hpos'⟩
        · exact absurd hpos' hpos
        · exact ⟨e, he, hpos'⟩
  nodup pos := by
    simp only [UciSelector.insertEntry]
    by_cases hpos : s.cfg.wheelPos slTx = pos
    · subst hpos
      rw [Function.update_self]
      refine List.nodup_cons.mpr ⟨fun hmem => ?_, h.nodup _⟩
      obtain ⟨e, he⟩ := h.exists_entry _ _ hmem
      exact s.uciPool.nextId_not_mem (List.mem_map.mpr ⟨_, he, rfl⟩)
    · rw [Function.update_of_ne (Ne.symm hpos)]
      exact h.nodup pos
  short pos id := by
    simp only [UciSelector.insertEntry, StableIdMap.mem_insert]
    rw [h.short]
    constructor
    · rintro ⟨e, he, hpos⟩
      exact ⟨e, .inr he, hpos⟩
    · rintro ⟨e, ⟨rfl, rfl⟩ | he, hpos⟩
      · cases hpos
      · exact ⟨e, he, hpos⟩
  shortNodup := h.shortNodup

theorem Linked.pushShort (h : s.Linked) {id slot : Nat} {e e' : UciEntry} (he : (id, e) ∈ s.uciPool.objs)
    (hslot : e'.uciSlot = e.uciSlot) (hnone : e.shortTimeoutSlot = none) (hsome : e'.shortTimeoutSlot = some slot) :
    Linked { s.setShortWheel (shortPos slot) (id :: s.shortTimeoutWheel (shortPos slot)) with
      uciPool := s.uciPool.modify id fun _ => e' } where
  wheel pos id' := by
    refine Iff.trans (h.wheel pos id') ?_
    simp only [StableIdMap.mem_modify]
    constructor
    · rintro ⟨b, hb, hpos⟩
      refine ⟨_, ⟨b, hb, rfl⟩, ?_⟩
      split
      · rename_i hid
        subst hid
        rw [hslot, StableIdMap.eq_of_mem he hb]
        exact hpos
      · exact hpos
    · rintro ⟨_, ⟨b, hb, rfl⟩, hpos⟩
      refine ⟨b, hb, ?_⟩
      split at hpos
      · rename_i hid
        subst hid
        rw [hslot, StableIdMap.eq_of_mem he hb] at hpos
        exact hpos
      · exact hpos
  nodup := h.nodup
  short pos id' := by
    have hnot : ∀ pos, id ∉ s.shortTimeoutWheel pos := by
      intro pos hmem
      obtain ⟨b, hb, hpos⟩ := (h.short pos id).mp hmem
      rw [StableIdMap.eq_of_mem hb he, hnone] at hpos
      cases hpos
    simp only [setShortWheel, StableIdMap.mem_modify]
    by_cases hid : id' = id
    · subst hid
      have hiff : (∃ e₁, (∃ b, (id', b) ∈ s.uciPool.objs ∧ e₁ = if id' = id' then e' else b) ∧
          e₁.shortTimeoutSlot.map shortPos = some pos) ↔ shortPos slot = pos := by
        constructor
        · rintro ⟨_, ⟨b, hb, rfl⟩, hpos⟩
          rw [if_pos rfl, hsome] at hpos
          exact Option.some.inj hpos
        · rintro rfl
          exact ⟨e', ⟨e, he, (if_pos rfl).symm⟩, by rw [hsome]; rfl⟩
      rw [hiff]
      by_cases hpos : shortPos slot = pos
      · subst hpos
        simp
      · rw [Function.update_of_ne (Ne.symm hpos)]
        exact iff_of_false (hnot pos) hpos
    · have hlist : (id' ∈ Function.update s.shortTimeoutWheel (shortPos slot)
          (id :: s.shortTimeoutWheel (shortPos slot)) pos) ↔ id' ∈ s.shortTimeoutWheel pos := by
        by_cases hpos : shortPos slot = pos
        · subst hpos
          simp [hid]
        · rw [Function.update_of_ne (Ne.symm hpos)]
      rw [hlist, h.short]
      simp only [hid, ↓reduceIte]
      exact ⟨fun ⟨b, hb, hpos⟩ => ⟨b, ⟨b, hb, rfl⟩, hpos⟩, fun ⟨_, ⟨b, hb, hb'⟩, hpos⟩ => ⟨b, hb, hb' ▸ hpos⟩⟩
  shortNodup pos := by
    simp only [setShortWheel]
    by_cases hpos : shortPos slot = pos
    · subst hpos
      rw [Function.update_self]
      refine List.nodup_cons.mpr ⟨fun hmem => ?_, h.shortNodup _⟩
      obtain ⟨b, hb, hpos⟩ := (h.short _ id).mp hmem
      rw [StableIdMap.eq_of_mem hb he, hnone] at hpos
      cases hpos
    · rw [Function.update_of_ne (Ne.symm hpos)]
      exact h.shortNodup pos

end Ocudu.Sched.UciSelector
