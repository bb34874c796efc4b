import Ocudu.Basic.Machine

/-! Vectors of counters, one per slot of a period, counted up and down over sets of slots. -/

namespace Ocudu.SlotCounters

variable {φ : Type} (fault : φ)

def get (counters : List Nat) (slot : Nat) : Nat := counters.getD slot 0

def increment (counters : List Nat) (slot : Nat) : Except φ (List Nat) :=
  if slot < counters.length then .ok (counters.modify slot (· + 1)) else .error fault

def decrement (counters : List Nat) (slot : Nat) : Except φ (List Nat) :=
  if slot < counters.length ∧ get counters slot ≠ 0 then .ok (counters.modify slot (· - 1)) else .error fault

theorem get_of_le {counters : List Nat} {slot : Nat} (h : counters.length ≤ slot) : get counters slot = 0 := by
  rw [get, List.getD_eq_getElem?_getD, List.getElem?_eq_none h]
  rfl

@[simp] theorem get_replicate (n slot : Nat) : get (List.replicate n 0) slot = 0 := by
  rw [get, List.getD_eq_getElem?_getD, List.getElem?_replicate]
  by_cases h : slot < n
  · rw [if_pos h]
    rfl
  · rw [if_neg h]
    rfl

theorem get_modify {counters : List Nat} {slot : Nat} (h : slot < counters.length) (f : Nat → Nat) (other : Nat) :
    get (counters.modify slot f) other = if other = slot then f (get counters slot) else get counters other := by
  rw [get, get, get, List.getD_eq_getElem?_getD, List.getD_eq_getElem?_getD, List.getD_eq_getElem?_getD,
    List.getElem?_modify]
  by_cases hother : other = slot
  · rw [if_pos hother, hother, List.getElem?_eq_getElem h]
    simp
  · rw [if_neg hother]
    cases counters[other]? with
    | none => rfl
    | some n => simp [Ne.symm hother]

theorem incrementAll_ok {counters : List Nat} {slots : List Nat} (hnodup : slots.Nodup)
    (hlt : ∀ slot ∈ slots, slot < counters.length) :
    ∃ counters', slots.foldlM (increment fault) counters = .ok counters' ∧
      counters'.length = counters.length ∧
      ∀ slot, get counters' slot = get counters slot + if slot ∈ slots then 1 else 0 := by
  induction slots generalizing counters with
  | nil => exact ⟨counters, rfl, rfl, fun slot => by simp⟩
  | cons first slots ih =>
    obtain ⟨hfirst, hnodup⟩ := List.nodup_cons.mp hnodup
    have hin : first < counters.length := hlt first List.mem_cons_self
    have hstep : increment fault counters first = .ok (counters.modify first (· + 1)) := if_pos hin
    obtain ⟨counters', hrun, hlength, hget⟩ := @ih (counters.modify first (· + 1)) hnodup fun slot hmem => by
      rw [List.length_modify]
      exact hlt slot (List.mem_cons_of_mem _ hmem)
    rw [List.length_modify] at hlength
    refine ⟨counters', by rw [List.foldlM_cons, hstep, ok_bind, hrun], hlength, fun slot => ?_⟩
    rw [hget, get_modify hin]
    by_cases hslot : slot = first
    · rw [hslot, if_pos rfl, if_neg hfirst, if_pos List.mem_cons_self, Nat.add_zero]
    · rw [if_neg hslot]
      by_cases hmem : slot ∈ slots
      · rw [if_pos hmem, if_pos (List.mem_cons_of_mem _ hmem)]
      · rw [if_neg hmem, if_neg fun h => (List.mem_cons.mp h).elim hslot hmem]

theorem decrementAll_ok {counters : List Nat} {slots : List Nat} (hnodup : slots.Nodup)
    (hpos : ∀ slot ∈ slots, 0 < get counters slot) :
    ∃ counters', slots.foldlM (decrement fault) counters = .ok counters' ∧
      counters'.length = counters.length ∧
      ∀ slot, get counters slot = get counters' slot + if slot ∈ slots then 1 else 0 := by
  induction slots generalizing counters with
  | nil => exact ⟨counters, rfl, rfl, fun slot => by simp⟩
  | cons first slots ih =>
    obtain ⟨hfirst, hnodup⟩ := List.nodup_cons.mp hnodup
    have hfirstPos : 0 < get counters first := hpos first List.mem_cons_self
    have hin : first < counters.length := by
      by_contra hout
      rw [get_of_le (Nat.not_lt.mp hout)] at hfirstPos
      exact absurd hfirstPos (Nat.lt_irrefl 0)
    have hstep : decrement fault counters first = .ok (counters.modify first (· - 1)) :=
      if_pos ⟨hin, Nat.ne_of_gt hfirstPos⟩
    obtain ⟨counters', hrun, hlength, hget⟩ := @ih (counters.modify first (· - 1)) hnodup fun slot hmem => by
      rw [get_modify hin, if_neg fun heq : slot = first => hfirst (heq ▸ hmem)]
      exact hpos slot (List.mem_cons_of_mem _ hmem)
    rw [List.length_modify] at hlength
    refine ⟨counters', by rw [List.foldlM_cons, hstep, ok_bind, hrun], hlength, fun slot => ?_⟩
    have hslot := hget slot
    rw [get_modify hin] at hslot
    by_cases heq : slot = first
    · rw [heq, if_pos rfl, if_neg hfirst] at hslot
      rw [heq, if_pos List.mem_cons_self]
      omega
    · rw [if_neg heq] at hslot
      rw [hslot]
      by_cases hmem : slot ∈ slots
      · rw [if_pos hmem, if_pos (List.mem_cons_of_mem _ hmem)]
      · rw [if_neg hmem, if_neg fun h => (List.mem_cons.mp h).elim heq hmem]

/-- The slots of a period that start at an offset, up to the end of the vector; the fuel is the end. -/
def occasions (period stop : Nat) : Nat → Nat → List Nat
  | 0, _ => []
  | fuel + 1, slot => if slot < stop then slot :: occasions period stop fuel (slot + period) else []

theorem mem_occasions {period stop : Nat} (hperiod : 0 < period) {fuel start : Nat} (hfuel : stop ≤ start + fuel)
    (slot : Nat) : slot ∈ occasions period stop fuel start ↔ start ≤ slot ∧ slot < stop ∧ (slot - start) % period = 0 := by
  induction fuel generalizing start with
  | zero =>
    rw [occasions]
    exact ⟨fun h => absurd h List.not_mem_nil, fun h => by omega⟩
  | succ fuel ih =>
    rw [occasions]
    by_cases hstart : start < stop
    · rw [if_pos hstart, List.mem_cons, ih (by omega)]
      constructor
      · rintro (rfl | ⟨hle, hlt, hmod⟩)
        · exact ⟨Nat.le_refl _, hstart, by rw [Nat.sub_self, Nat.zero_mod]⟩
        · refine ⟨by omega, hlt, ?_⟩
          rw [show slot - start = slot - (start + period) + period by omega, Nat.add_mod_right]
          exact hmod
      · rintro ⟨hle, hlt, hmod⟩
        by_cases heq : slot = start
        · exact Or.inl heq
        · have hge : period ≤ slot - start := Nat.le_of_dvd (by omega) (Nat.dvd_of_mod_eq_zero hmod)
          refine Or.inr ⟨by omega, hlt, ?_⟩
          rw [show slot - start = slot - (start + period) + period by omega, Nat.add_mod_right] at hmod
          exact hmod
    · rw [if_neg hstart]
      exact ⟨fun h => absurd h List.not_mem_nil, fun h => by omega⟩

theorem mem_occasions_iff {period stop offset : Nat} (hoffset : offset < period) (slot : Nat) :
    slot ∈ occasions period stop stop offset ↔ slot < stop ∧ slot % period = offset := by
  rw [mem_occasions (Nat.lt_of_le_of_lt (Nat.zero_le _) hoffset) (Nat.le_add_left _ _)]
  constructor
  · rintro ⟨hle, hlt, hmod⟩
    refine ⟨hlt, ?_⟩
    rw [show slot = offset + (slot - offset) by omega, Nat.add_mod, hmod, Nat.add_zero, Nat.mod_mod,
      Nat.mod_eq_of_lt hoffset]
  · rintro ⟨hlt, hmod⟩
    refine ⟨hmod ▸ Nat.mod_le _ _, hlt, ?_⟩
    rw [← hmod]
    exact Nat.sub_mod_eq_zero_of_mod_eq (Nat.mod_mod _ _).symm

theorem occasions_nodup {period stop : Nat} (hperiod : 0 < period) (fuel start : Nat) :
    (occasions period stop fuel start).Nodup := by
  have hge : ∀ fuel start slot, slot ∈ occasions period stop fuel start → start ≤ slot := by
    intro fuel
    induction fuel with
    | zero => exact fun start slot h => absurd h List.not_mem_nil
    | succ fuel ih =>
      intro start slot h
      rw [occasions] at h
      by_cases hstart : start < stop
      · rw [if_pos hstart] at h
        rcases List.mem_cons.mp h with rfl | h
        · exact Nat.le_refl _
        · exact Nat.le_trans (Nat.le_add_right _ _) (ih _ slot h)
      · rw [if_neg hstart] at h
        exact absurd h List.not_mem_nil
  induction fuel generalizing start with
  | zero => exact List.nodup_nil
  | succ fuel ih =>
    rw [occasions]
    by_cases hstart : start < stop
    · rw [if_pos hstart]
      refine List.nodup_cons.mpr ⟨fun h => ?_, ih _⟩
      have := hge _ _ _ h
      omega
    · rw [if_neg hstart]
      exact List.nodup_nil

end Ocudu.SlotCounters
