import Ocudu.Adt.StableIdRun
import Mathlib.Data.List.DropRight

/-! `adt/slotted_vector.h`: a vector of optional objects, as a map from indexes to objects. -/

namespace Ocudu.Adt

open Machine

structure SlottedVector (α : Type) where
  objects : List α
  indexMapper : List (Option Nat)

namespace SlottedVector

variable {α : Type} (v : SlottedVector α)

def empty : SlottedVector α := ⟨[], []⟩

def entry (l : List (Option Nat)) (idx : Nat) : Option Nat := l[idx]?.join

def size : Nat := v.objects.length

def contains (idx : Nat) : Bool := (entry v.indexMapper idx).isSome

def at? (idx : Nat) : Option α := (entry v.indexMapper idx).bind fun offset => v.objects[offset]?

def emplace (idx : Nat) (a : α) : SlottedVector α :=
  match entry v.indexMapper idx with
  | some offset => { v with objects := v.objects.set offset a }
  | none =>
    let grown := v.indexMapper ++ List.replicate (idx + 1 - v.indexMapper.length) none
    ⟨v.objects ++ [a], grown.set idx (some v.objects.length)⟩

def insert (idx : Nat) (a : α) : SlottedVector α × Bool :=
  if v.contains idx then (v, false) else (v.emplace idx a, true)

def erase (idx : Nat) : SlottedVector α × Bool :=
  match entry v.indexMapper idx with
  | none => (v, false)
  | some offset =>
    let indexMapper :=
      if offset < v.objects.length - 1 then
        v.indexMapper.set (v.indexMapper.idxOf (some (v.objects.length - 1))) (some offset)
      else v.indexMapper
    let indexMapper := indexMapper.set idx none
    let indexMapper := if idx = indexMapper.length - 1 then indexMapper.rdropWhile (·.isNone) else indexMapper
    (⟨swapRemove v.objects offset, indexMapper⟩, true)

def clear (_ : SlottedVector α) : SlottedVector α := empty

def findFirstEmpty (startGuess : Nat) : Nat :=
  if v.objects.length = v.indexMapper.length then v.indexMapper.length
  else
    match (List.range' startGuess (v.indexMapper.length - startGuess)).find? fun i => v.indexMapper[i]? = some none with
    | some i => i
    | none => v.objects.length

/-- The objects that the iterator stops at, with their indexes, from `idx` on; it skips the absent entries. -/
def iterateFrom (objects : List α) : Nat → List (Option Nat) → List (Nat × α)
  | _, [] => []
  | idx, slot :: rest =>
    match slot.bind fun offset => objects[offset]? with
    | none => iterateFrom objects (idx + 1) rest
    | some a => (idx, a) :: iterateFrom objects (idx + 1) rest

def iterate : List (Nat × α) := iterateFrom v.objects 0 v.indexMapper

theorem entry_set {l : List (Option Nat)} {i : Nat} (hi : i < l.length) (x : Option Nat) (j : Nat) :
    entry (l.set i x) j = if j = i then x else entry l j := by
  rw [entry, List.getElem?_set]
  by_cases h : i = j
  · rw [if_pos h, if_pos (h ▸ hi), if_pos h.symm, Option.join_some]
  · rw [if_neg h, if_neg (Ne.symm h), entry]

@[simp] theorem entry_append_none (l : List (Option Nat)) (n j : Nat) : entry (l ++ List.replicate n none) j = entry l j := by
  rw [entry, entry]
  rcases Nat.lt_or_ge j l.length with h | h
  · rw [List.getElem?_append_left h]
  · rw [List.getElem?_append_right h, List.getElem?_replicate, List.getElem?_eq_none h]
    split_ifs <;> rfl

@[simp] theorem entry_rdropWhile (l : List (Option Nat)) (j : Nat) : entry (l.rdropWhile (·.isNone)) j = entry l j := by
  induction l using List.reverseRecOn with
  | nil => rfl
  | append_singleton l x ih =>
    rw [List.rdropWhile_concat]
    split_ifs with hx
    · rw [ih, Option.isNone_iff_eq_none.mp hx]
      exact (entry_append_none l 1 j).symm
    · rfl

theorem lt_of_entry {l : List (Option Nat)} {j o : Nat} (h : entry l j = some o) : l[j]? = some (some o) :=
  Option.join_eq_some_iff.mp h

structure Inv : Prop where
  lt : ∀ idx offset, entry v.indexMapper idx = some offset → offset < v.objects.length
  inj : ∀ idx idx' offset, entry v.indexMapper idx = some offset → entry v.indexMapper idx' = some offset → idx = idx'
  surj : ∀ offset < v.objects.length, ∃ idx, entry v.indexMapper idx = some offset

variable {v}

theorem Inv.empty : (SlottedVector.empty : SlottedVector α).Inv where
  lt := fun _ offset h => absurd h.symm (Option.some_ne_none offset)
  inj := fun _ _ offset h => absurd h.symm (Option.some_ne_none offset)
  surj := fun _ h => absurd h (Nat.not_lt_zero _)

theorem Inv.contains_eq (h : v.Inv) (idx : Nat) : v.contains idx = (v.at? idx).isSome := by
  rw [contains, at?]
  cases hentry : entry v.indexMapper idx with
  | none => rfl
  | some offset => rw [Option.bind_some, List.getElem?_eq_getElem (h.lt idx offset hentry)]; rfl

theorem Inv.size_eq (h : v.Inv) : v.size = Set.ncard {idx | (v.at? idx).isSome = true} := by
  refine (Set.ncard_eq_of_bijective (fun offset hlt => (h.surj offset hlt).choose) (fun idx hidx => ?_)
    (fun offset hlt => ?_) fun i j hi hj heq => ?_).symm
  · replace hidx : (v.at? idx).isSome = true := hidx
    rw [← h.contains_eq] at hidx
    obtain ⟨offset, hoffset⟩ := Option.isSome_iff_exists.mp hidx
    have hlt := h.lt idx offset hoffset
    exact ⟨offset, hlt, h.inj _ _ offset (h.surj offset hlt).choose_spec hoffset⟩
  · show (v.at? _).isSome = true
    rw [← h.contains_eq, contains, (h.surj offset hlt).choose_spec]
    rfl
  · have hi' := (h.surj i hi).choose_spec
    rw [heq, (h.surj j hj).choose_spec] at hi'
    exact (Option.some.inj hi').symm

theorem Inv.emplace (h : v.Inv) (idx : Nat) (a : α) :
    (v.emplace idx a).Inv ∧ (v.emplace idx a).at? = Function.update v.at? idx (some a) := by
  rw [SlottedVector.emplace]
  cases hentry : entry v.indexMapper idx with
  | some offset =>
    have hlt := h.lt idx offset hentry
    refine ⟨⟨fun i o ho => ?_, h.inj, fun o ho => ?_⟩, ?_⟩
    · rw [List.length_set]
      exact h.lt i o ho
    · rw [List.length_set] at ho
      exact h.surj o ho
    · funext i
      by_cases hi : i = idx
      · subst hi
        rw [Function.update_self, at?, hentry, Option.bind_some, List.getElem?_set_self hlt]
      · rw [Function.update_of_ne hi, at?, at?]
        cases hother : entry v.indexMapper i with
        | none => rfl
        | some o =>
          have hne : offset ≠ o := fun heq => hi (h.inj i idx o hother (heq ▸ hentry))
          rw [Option.bind_some, Option.bind_some, List.getElem?_set_ne hne]
  | none =>
    have hlong : idx <
        (v.indexMapper ++ List.replicate (idx + 1 - v.indexMapper.length) (none : Option Nat)).length := by
      rw [List.length_append, List.length_replicate]
      omega
    have hnew (j : Nat) : entry ((v.indexMapper ++ List.replicate (idx + 1 - v.indexMapper.length) none).set idx
        (some v.objects.length)) j = if j = idx then some v.objects.length else entry v.indexMapper j := by
      rw [entry_set hlong, entry_append_none]
    refine ⟨⟨fun i o ho => ?_, fun i j o hi hj => ?_, fun o ho => ?_⟩, ?_⟩
    · rw [hnew] at ho
      rw [List.length_append, List.length_singleton]
      split_ifs at ho
      · cases ho
        exact Nat.lt_succ_self _
      · exact (h.lt i o ho).trans (Nat.lt_succ_self _)
    · rw [hnew] at hi hj
      split_ifs at hi hj with hi' hj' hj'
      · rw [hi', hj']
      · cases hi
        exact absurd (h.lt j _ hj) (Nat.lt_irrefl _)
      · cases hj
        exact absurd (h.lt i _ hi) (Nat.lt_irrefl _)
      · exact h.inj i j o hi hj
    · rw [List.length_append, List.length_singleton] at ho
      rcases Nat.lt_succ_iff_lt_or_eq.mp ho with hlt | rfl
      · obtain ⟨i, hi⟩ := h.surj o hlt
        refine ⟨i, ?_⟩
        rw [hnew, if_neg fun heq => ?_, hi]
        rw [heq, hentry] at hi
        cases hi
      · exact ⟨idx, by rw [hnew, if_pos rfl]⟩
    · funext i
      rw [at?, hnew]
      by_cases hi : i = idx
      · subst hi
        rw [if_pos rfl, Function.update_self, Option.bind_some, List.getElem?_concat_length]
      · rw [if_neg hi, Function.update_of_ne hi, at?]
        cases hother : entry v.indexMapper i with
        | none => rfl
        | some o => rw [Option.bind_some, Option.bind_some, List.getElem?_append_left (h.lt i o hother)]

theorem entry_trimmed (b : Prop) [Decidable b] (l : List (Option Nat)) (j : Nat) :
    entry (if b then l.rdropWhile (·.isNone) else l) j = entry l j := by
  split_ifs
  · exact entry_rdropWhile l j
  · rfl

/-- The last object takes the offset of the one that is erased. -/
theorem Inv.erase_live (h : v.Inv) {idx offset : Nat} (hentry : entry v.indexMapper idx = some offset) :
    (v.erase idx).2 = true ∧ (v.erase idx).1.objects = swapRemove v.objects offset ∧
      ∀ j, entry (v.erase idx).1.indexMapper j =
        if j = idx then none
        else if entry v.indexMapper j = some (v.objects.length - 1) then some offset else entry v.indexMapper j := by
  have hlt := h.lt idx offset hentry
  have hidx := (List.getElem?_eq_some_iff.mp (lt_of_entry hentry)).1
  obtain ⟨it, hit⟩ := h.surj (v.objects.length - 1) (by omega)
  have hitlt := (List.getElem?_eq_some_iff.mp (lt_of_entry hit)).1
  have hfound : v.indexMapper.idxOf (some (v.objects.length - 1)) = it := by
    have hpos := List.idxOf_lt_length_of_mem (List.mem_of_getElem? (lt_of_entry hit))
    refine h.inj _ _ _ ?_ hit
    rw [entry, List.getElem?_eq_getElem hpos, List.getElem_idxOf, Option.join_some]
  rw [SlottedVector.erase, hentry]
  refine ⟨rfl, rfl, fun j => ?_⟩
  dsimp only
  rw [entry_trimmed, hfound]
  split_ifs with hlast hj hend hj hend
  · rw [entry_set (by rw [List.length_set]; exact hidx), if_pos hj]
  · rw [entry_set (by rw [List.length_set]; exact hidx), if_neg hj, entry_set hitlt, if_pos (h.inj _ _ _ hend hit)]
  · rw [entry_set (by rw [List.length_set]; exact hidx), if_neg hj, entry_set hitlt, if_neg fun heq => ?_]
    exact hend (heq ▸ hit)
  · rw [entry_set hidx, if_pos hj]
  · have hsame : offset = v.objects.length - 1 := by omega
    exact absurd (h.inj _ _ _ hend (hsame ▸ hentry)) hj
  · rw [entry_set hidx, if_neg hj]

theorem Inv.of_erase_live (h : v.Inv) {idx offset : Nat} (hentry : entry v.indexMapper idx = some offset) :
    (v.erase idx).1.Inv := by
  obtain ⟨-, hobjects, hafter⟩ := h.erase_live hentry
  have hlt := h.lt idx offset hentry
  have hlen : (v.erase idx).1.objects.length = v.objects.length - 1 := by rw [hobjects, length_swapRemove hlt]
  refine ⟨fun i o ho => ?_, fun i j o hi hj => ?_, fun o ho => ?_⟩
  · rw [hafter] at ho
    rw [hlen]
    split_ifs at ho with hi hlast
    · cases ho
      have hne : offset ≠ v.objects.length - 1 := fun heq => hi (h.inj _ _ _ hlast (heq ▸ hentry))
      omega
    · have hbound := h.lt i o ho
      have hne : o ≠ v.objects.length - 1 := fun heq => hlast (heq ▸ ho)
      omega
  · rw [hafter] at hi hj
    split_ifs at hi hj with hi₁ hi₂ hj₁ hj₂ hj₁ hj₂
    · exact h.inj _ _ _ hi₂ hj₂
    · cases hi
      exact absurd (h.inj _ _ _ hj hentry) hj₁
    · cases hj
      exact absurd (h.inj _ _ _ hi hentry) hi₁
    · exact h.inj _ _ _ hi hj
  · rw [hlen] at ho
    by_cases heq : o = offset
    · obtain ⟨it, hit⟩ := h.surj (v.objects.length - 1) (by omega)
      refine ⟨it, ?_⟩
      rw [hafter, if_neg fun hsame => ?_, if_pos hit, heq]
      rw [hsame, hentry] at hit
      have hoff := Option.some.inj hit
      omega
    · obtain ⟨i, hi⟩ := h.surj o (by omega)
      refine ⟨i, ?_⟩
      rw [hafter, if_neg fun hsame => ?_, if_neg fun hsame => ?_, hi]
      · rw [hi] at hsame
        have hoff := Option.some.inj hsame
        omega
      · rw [hsame, hentry] at hi
        exact heq (Option.some.inj hi).symm

theorem Inv.erase (h : v.Inv) (idx : Nat) : (v.erase idx).2 = (v.at? idx).isSome ∧ (v.erase idx).1.Inv ∧
    (v.erase idx).1.at? = Function.update v.at? idx none := by
  rw [← h.contains_eq, contains]
  cases hentry : entry v.indexMapper idx with
  | none =>
    have hsame : v.erase idx = (v, false) := by rw [SlottedVector.erase, hentry]
    have hnone : v.at? idx = none := by rw [at?, hentry, Option.bind_none]
    rw [hsame]
    exact ⟨rfl, h, (Function.update_eq_self_iff.mpr hnone.symm).symm⟩
  | some offset =>
    obtain ⟨hflag, hobjects, hafter⟩ := h.erase_live hentry
    have hlt := h.lt idx offset hentry
    refine ⟨hflag, h.of_erase_live hentry, ?_⟩
    funext i
    rw [at?, hafter, hobjects]
    by_cases hi : i = idx
    · subst hi
      rw [if_pos rfl, Function.update_self, Option.bind_none]
    rw [if_neg hi, Function.update_of_ne hi, at?]
    cases hother : entry v.indexMapper i with
    | none => rfl
    | some o =>
      have hbound := h.lt i o hother
      have hne : o ≠ offset := fun heq => hi (h.inj _ _ _ hother (heq ▸ hentry))
      split_ifs with hlast
      · have hoff := Option.some.inj hlast
        rw [Option.bind_some, Option.bind_some, hoff, getElem?_swapRemove hlt (by omega), if_pos rfl,
          List.getLast?_eq_getElem?]
      · have hoff : o ≠ v.objects.length - 1 := fun heq => hlast (congrArg some heq)
        rw [Option.bind_some, Option.bind_some, getElem?_swapRemove hlt (by omega), if_neg hne]

/-! The iterator and the first empty index -/

@[simp] theorem entry_cons_zero (slot : Option Nat) (l : List (Option Nat)) : entry (slot :: l) 0 = slot := by
  rw [entry, List.getElem?_cons_zero, Option.join_some]

@[simp] theorem entry_cons_succ (slot : Option Nat) (l : List (Option Nat)) (j : Nat) :
    entry (slot :: l) (j + 1) = entry l j := by
  rw [entry, List.getElem?_cons_succ, entry]

theorem mem_iterateFrom (objects : List α) (l : List (Option Nat)) (n idx : Nat) (a : α) :
    (idx, a) ∈ iterateFrom objects n l ↔ n ≤ idx ∧ ((entry l (idx - n)).bind fun o => objects[o]?) = some a := by
  induction l generalizing n with
  | nil =>
    refine ⟨fun h => absurd h List.not_mem_nil, fun h => ?_⟩
    cases h.2
  | cons slot rest ih =>
    have hcons : (idx, a) ∈ iterateFrom objects n (slot :: rest) ↔
        (slot.bind fun o => objects[o]?) = some a ∧ idx = n ∨ (idx, a) ∈ iterateFrom objects (n + 1) rest := by
      rw [iterateFrom]
      cases hslot : slot.bind fun o => objects[o]? with
      | none => exact (or_iff_right fun h => Option.some_ne_none a h.1.symm).symm
      | some b =>
        rw [List.mem_cons, Prod.mk.injEq, Option.some.injEq]
        exact or_congr_left (and_comm.trans (and_congr_left' eq_comm))
    rw [hcons, ih]
    constructor
    · rintro (⟨ha, rfl⟩ | ⟨hle, ha⟩)
      · rw [Nat.sub_self, entry_cons_zero]
        exact ⟨le_rfl, ha⟩
      · refine ⟨by omega, ?_⟩
        rw [show idx - n = idx - (n + 1) + 1 by omega, entry_cons_succ]
        exact ha
    · rintro ⟨hle, ha⟩
      rcases Nat.eq_or_lt_of_le hle with rfl | hlt
      · rw [Nat.sub_self, entry_cons_zero] at ha
        exact .inl ⟨ha, rfl⟩
      · rw [show idx - n = idx - (n + 1) + 1 by omega, entry_cons_succ] at ha
        exact .inr ⟨hlt, ha⟩

theorem iterateFrom_increasing (objects : List α) (l : List (Option Nat)) (n : Nat) :
    ((iterateFrom objects n l).map Prod.fst).Pairwise (· < ·) := by
  induction l generalizing n with
  | nil => exact .nil
  | cons slot rest ih =>
    rw [iterateFrom]
    cases slot.bind fun o => objects[o]? with
    | none => exact ih (n + 1)
    | some a =>
      refine List.Pairwise.cons (fun idx hidx => ?_) (ih (n + 1))
      obtain ⟨⟨idx', b⟩, hmem, rfl⟩ := List.mem_map.mp hidx
      exact ((mem_iterateFrom objects rest (n + 1) idx' b).mp hmem).1

@[simp] theorem mem_iterate (v : SlottedVector α) (idx : Nat) (a : α) : (idx, a) ∈ v.iterate ↔ v.at? idx = some a := by
  rw [iterate, mem_iterateFrom, Nat.sub_zero, at?]
  exact and_iff_right (Nat.zero_le idx)

/-- The objects fill the index mapper, or it has an absent entry from the start on, or the number of objects is itself an
index without an object. -/
def HasFirstEmpty (v : SlottedVector α) (startGuess : Nat) : Prop :=
  v.objects.length = v.indexMapper.length ∨ (∃ i, startGuess ≤ i ∧ v.indexMapper[i]? = some none) ∨
    v.contains v.objects.length = false

theorem contains_eq_false_of_absent {v : SlottedVector α} {i : Nat} (h : v.indexMapper[i]? = some none) :
    v.contains i = false := by
  rw [contains, entry, h]
  rfl

theorem findFirstEmpty_free {v : SlottedVector α} {startGuess : Nat} (h : v.HasFirstEmpty startGuess) :
    v.contains (v.findFirstEmpty startGuess) = false := by
  rw [findFirstEmpty]
  split_ifs with hfull
  · rw [contains, entry, List.getElem?_eq_none le_rfl]
    rfl
  · cases hfind : (List.range' startGuess (v.indexMapper.length - startGuess)).find?
        fun i => v.indexMapper[i]? = some none with
    | some i =>
      have habsent := List.find?_some hfind
      exact contains_eq_false_of_absent (of_decide_eq_true habsent)
    | none =>
      rcases h with hfull' | ⟨i, hle, habsent⟩ | hfree
      · exact absurd hfull' hfull
      · have hlt := (List.getElem?_eq_some_iff.mp habsent).1
        refine absurd (decide_eq_true habsent) (List.find?_eq_none.mp hfind i ?_)
        exact List.mem_range'_1.mpr ⟨hle, by omega⟩
      · exact hfree

theorem findFirstEmpty_occupied : ((.empty : SlottedVector Nat).emplace 1 7).findFirstEmpty 1 = 1 ∧
    ((.empty : SlottedVector Nat).emplace 1 7).contains 1 = true := by
  decide

end SlottedVector

end Ocudu.Adt
