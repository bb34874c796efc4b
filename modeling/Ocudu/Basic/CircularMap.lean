import Mathlib.Tactic

/-! `adt/circular_map.h` with a power-of-two capacity: an array of optional key/value
cells, indexed by the low bits of the key. -/

namespace Ocudu

structure CircularMap (V : Type) where
  capacity : Nat
  data : Nat → Option (Nat × V)
  count : Nat
  cell_key : ∀ i k v, data i = some (k, v) → k &&& (capacity - 1) = i

namespace CircularMap

variable {V : Type} {m : CircularMap V} {key key' : Nat}

def empty (capacity : Nat) : CircularMap V :=
  { capacity, data := fun _ => none, count := 0, cell_key := by simp }

def getCircularIdx (m : CircularMap V) (key : Nat) : Nat := key &&& (m.capacity - 1)

/-- The value stored under `key`, as `find` sees it. -/
def lookup (m : CircularMap V) (key : Nat) : Option V :=
  match m.data (m.getCircularIdx key) with
  | some (k, v) => if k = key then some v else none
  | none => none

def contains (m : CircularMap V) (key : Nat) : Bool := (m.lookup key).isSome

def full (m : CircularMap V) : Bool := m.count == m.capacity

def isEmpty (m : CircularMap V) : Bool := m.count == 0

def setCell (m : CircularMap V) (key : Nat) (obj : V) (count : Nat) : CircularMap V where
  capacity := m.capacity
  data := fun i => if i = m.getCircularIdx key then some (key, obj) else m.data i
  count := count
  cell_key := by
    intro i k v h
    split at h
    · rename_i hi
      cases h
      exact hi.symm
    · exact m.cell_key i k v h

def resetCell (m : CircularMap V) (key : Nat) (count : Nat) : CircularMap V where
  capacity := m.capacity
  data := fun i => if i = m.getCircularIdx key then none else m.data i
  count := count
  cell_key := by
    intro i k v h
    split at h
    · cases h
    · exact m.cell_key i k v h

def erase (m : CircularMap V) (key : Nat) : CircularMap V :=
  if m.contains key then m.resetCell key (m.count - 1) else m

def insert (m : CircularMap V) (key : Nat) (obj : V) : CircularMap V :=
  match m.data (m.getCircularIdx key) with
  | some _ => m
  | none => m.setCell key obj (m.count + 1)

def overwrite (m : CircularMap V) (key : Nat) (obj : V) : CircularMap V :=
  match m.data (m.getCircularIdx key) with
  | some (k, _) => (m.erase k).insert key obj
  | none => m.insert key obj

def modify (m : CircularMap V) (key : Nat) (f : V → V) : CircularMap V :=
  match m.lookup key with
  | some v => m.setCell key (f v) m.count
  | none => m

theorem eq_of_lookup {m m' : CircularMap V} (hcap : m'.capacity = m.capacity) (hcount : m'.count = m.count)
    (hl : ∀ key, m'.lookup key = m.lookup key) : m' = m := by
  have hcell : ∀ {m m' : CircularMap V}, m'.capacity = m.capacity → (∀ key, m'.lookup key = m.lookup key) →
      ∀ i k v, m.data i = some (k, v) → m'.data i = some (k, v) := by
    intro m m' hcap hl i k v h
    have hi := m.cell_key i k v h
    have hfound : m'.lookup k = some v := by
      rw [hl, lookup, getCircularIdx, hi, h]
      simp
    rw [lookup, getCircularIdx, hcap, hi] at hfound
    split at hfound
    · split at hfound
      · rename_i k' v' hdata hk
        rw [hdata, hk, Option.some.inj hfound]
      · cases hfound
    · cases hfound
  have hdata : m'.data = m.data := by
    funext i
    cases h : m.data i with
    | some cell => exact hcell hcap hl i cell.1 cell.2 h
    | none =>
      cases h' : m'.data i with
      | none => rfl
      | some cell =>
        have := hcell hcap.symm (fun key => (hl key).symm) i cell.1 cell.2 h'
        rw [h] at this
        cases this
  cases m
  cases m'
  cases hcap
  cases hcount
  cases hdata
  rfl

@[simp] theorem lookup_empty (c key : Nat) : (empty c : CircularMap V).lookup key = none := rfl

theorem lookup_eq_none_of_idx {v : V} (hv : m.lookup key = some v)
    (hi : m.getCircularIdx key' = m.getCircularIdx key) (hk : key' ≠ key) :
    m.lookup key' = none := by
  unfold lookup at hv ⊢
  rw [hi]
  cases hc : m.data (m.getCircularIdx key) with
  | none => rfl
  | some cell =>
    obtain ⟨k, w⟩ := cell
    rw [hc] at hv
    by_cases hkk : k = key
    · simp [hkk, hk.symm]
    · simp [hkk] at hv

theorem free_of_lookup (h : ∀ k, m.getCircularIdx k = m.getCircularIdx key → m.lookup k = none) :
    m.data (m.getCircularIdx key) = none := by
  cases hc : m.data (m.getCircularIdx key) with
  | none => rfl
  | some cell =>
    obtain ⟨k, v⟩ := cell
    have hk : m.getCircularIdx k = m.getCircularIdx key := m.cell_key _ k v hc
    have hl := h k hk
    rw [lookup, hk, hc] at hl
    simp at hl

theorem lookup_setCell (m : CircularMap V) (key key' : Nat) (v : V) (n : Nat) :
    (m.setCell key v n).lookup key' =
      if key' = key then some v
      else if m.getCircularIdx key' = m.getCircularIdx key then none
      else m.lookup key' := by
  by_cases hk : key' = key
  · subst hk
    simp [lookup, setCell, getCircularIdx]
  · by_cases hi : m.getCircularIdx key' = m.getCircularIdx key
    · simp only [getCircularIdx] at hi
      simp [lookup, setCell, getCircularIdx, hi, hk, Ne.symm hk]
    · simp only [getCircularIdx] at hi
      simp [lookup, setCell, getCircularIdx, hi, hk]

theorem overwrite_of_free (hfree : m.data (m.getCircularIdx key) = none) (v : V) :
    m.overwrite key v = m.setCell key v (m.count + 1) := by
  simp [overwrite, insert, hfree]

theorem lookup_overwrite_of_free (hfree : m.data (m.getCircularIdx key) = none) (key' : Nat)
    (v : V) :
    (m.overwrite key v).lookup key' = if key' = key then some v else m.lookup key' := by
  rw [overwrite_of_free hfree, lookup_setCell]
  split
  · rfl
  · split
    · rename_i hi
      simp [lookup, hi, hfree]
    · rfl

theorem count_overwrite_of_free (hfree : m.data (m.getCircularIdx key) = none) (v : V) :
    (m.overwrite key v).count = m.count + 1 := by
  rw [overwrite_of_free hfree]
  rfl

@[simp] theorem setCell_setCell (m : CircularMap V) (key : Nat) (u v : V) (i j : Nat) :
    (m.setCell key u i).setCell key v j = m.setCell key v j := by
  simp only [setCell, mk.injEq, true_and, and_true]
  funext c
  by_cases hc : c = key &&& (m.capacity - 1)
  · simp [getCircularIdx, hc]
  · simp [getCircularIdx, hc]

theorem modify_overwrite_of_free (hfree : m.data (m.getCircularIdx key) = none) (v : V)
    (f : V → V) : (m.overwrite key v).modify key f = m.overwrite key (f v) := by
  have hl := lookup_overwrite_of_free hfree key v
  rw [if_pos rfl] at hl
  rw [modify, hl]
  simp only [overwrite_of_free hfree, setCell_setCell]
  rfl

@[simp] theorem lookup_erase (m : CircularMap V) (key key' : Nat) :
    (m.erase key).lookup key' = if key' = key then none else m.lookup key' := by
  unfold erase
  split
  · rename_i hc
    obtain ⟨v, hv⟩ := Option.isSome_iff_exists.mp hc
    by_cases hi : m.getCircularIdx key' = m.getCircularIdx key
    · have hnone : (m.resetCell key (m.count - 1)).lookup key' = none := by
        simp only [getCircularIdx] at hi
        simp [lookup, resetCell, getCircularIdx, hi]
      rw [hnone]
      split
      · rfl
      · rename_i hk
        exact (lookup_eq_none_of_idx hv hi hk).symm
    · have hk : key' ≠ key := fun h => hi (by rw [h])
      simp only [getCircularIdx] at hi
      simp [lookup, resetCell, getCircularIdx, hi, hk]
  · rename_i hc
    by_cases hk : key' = key
    · subst hk
      simpa [contains] using hc
    · simp [hk]

theorem lookup_overwrite_of_held {u : V} (hu : m.lookup key = some u) (key' : Nat) (v : V) :
    (m.overwrite key v).lookup key' = if key' = key then some v else m.lookup key' := by
  have hdata : ∃ w, m.data (m.getCircularIdx key) = some (key, w) := by
    unfold lookup at hu
    cases hc : m.data (m.getCircularIdx key) with
    | none => rw [hc] at hu; cases hu
    | some cell =>
      obtain ⟨k, w⟩ := cell
      rw [hc] at hu
      dsimp only at hu
      split at hu
      · rename_i hk
        exact ⟨w, by rw [hk]⟩
      · cases hu
  obtain ⟨w, hw⟩ := hdata
  have hidx : (m.erase key).getCircularIdx key = m.getCircularIdx key := by
    unfold getCircularIdx erase
    split <;> rfl
  have hfree : (m.erase key).data ((m.erase key).getCircularIdx key) = none := by
    rw [hidx]
    simp [erase, contains, hu, resetCell]
  have hover : m.overwrite key v = (m.erase key).overwrite key v := by
    rw [overwrite, hw, overwrite, hfree]
  rw [hover, lookup_overwrite_of_free hfree, lookup_erase]
  split <;> rfl

theorem lookup_overwrite (m : CircularMap V) (key key' : Nat) (v : V) :
    (m.overwrite key v).lookup key' =
      if key' = key then some v
      else if m.getCircularIdx key' = m.getCircularIdx key then none
      else m.lookup key' := by
  cases hc : m.data (m.getCircularIdx key) with
  | none => rw [overwrite_of_free hc, lookup_setCell]
  | some cell =>
    obtain ⟨k, u⟩ := cell
    have hidx : m.getCircularIdx k = m.getCircularIdx key := m.cell_key _ k u hc
    have hheld : m.contains k = true := by
      simp [contains, lookup, hidx, hc]
    have hsame : ∀ x, (m.erase k).getCircularIdx x = m.getCircularIdx x := by
      intro x
      unfold getCircularIdx
      rw [erase, if_pos hheld]
      rfl
    have hfree : (m.erase k).data ((m.erase k).getCircularIdx key) = none := by
      rw [hsame, erase, if_pos hheld]
      simp [resetCell, hidx]
    have hover : m.overwrite key v = (m.erase k).setCell key v ((m.erase k).count + 1) := by
      simp only [overwrite, hc, insert, hfree]
    rw [hover, lookup_setCell, hsame, hsame]
    split
    · rfl
    · split
      · rfl
      · rename_i hne
        have hk : key' ≠ k := fun h => hne (by rw [h, hidx])
        rw [lookup_erase, if_neg hk]

theorem lookup_overwrite_cases {v w : V} (h : (m.overwrite key v).lookup key' = some w) :
    (key' = key ∧ w = v) ∨ (key' ≠ key ∧ m.lookup key' = some w) := by
  rw [lookup_overwrite] at h
  split at h
  · rename_i hk
    cases h
    exact .inl ⟨hk, rfl⟩
  · rename_i hk
    split at h
    · cases h
    · exact .inr ⟨hk, h⟩

theorem count_erase (h : m.contains key = true) : (m.erase key).count = m.count - 1 := by
  simp [erase, h, resetCell]

theorem lookup_modify (m : CircularMap V) (key key' : Nat) (f : V → V) :
    (m.modify key f).lookup key' =
      if key' = key then (m.lookup key).map f else m.lookup key' := by
  unfold modify
  cases hv : m.lookup key with
  | none =>
    by_cases hk : key' = key
    · simp [hk, hv]
    · simp [hk]
  | some v =>
    simp only [lookup_setCell]
    by_cases hk : key' = key
    · simp [hk]
    · simp only [hk, if_false]
      split
      · rename_i hi
        exact (lookup_eq_none_of_idx hv hi hk).symm
      · rfl

@[simp] theorem count_modify (m : CircularMap V) (key : Nat) (f : V → V) :
    (m.modify key f).count = m.count := by
  unfold modify
  split <;> rfl

@[simp] theorem capacity_erase (m : CircularMap V) (key : Nat) :
    (m.erase key).capacity = m.capacity := by
  unfold erase
  split <;> rfl

@[simp] theorem capacity_insert (m : CircularMap V) (key : Nat) (v : V) :
    (m.insert key v).capacity = m.capacity := by
  unfold insert
  split <;> rfl

@[simp] theorem capacity_overwrite (m : CircularMap V) (key : Nat) (v : V) :
    (m.overwrite key v).capacity = m.capacity := by
  unfold overwrite
  split <;> simp

@[simp] theorem capacity_modify (m : CircularMap V) (key : Nat) (f : V → V) :
    (m.modify key f).capacity = m.capacity := by
  unfold modify
  split <;> rfl

theorem getCircularIdx_eq_mod {w : Nat} (hcap : m.capacity = 2 ^ w) (key : Nat) :
    m.getCircularIdx key = key % 2 ^ w := by
  rw [getCircularIdx, hcap, Nat.and_two_pow_sub_one_eq_mod]

theorem lookup_of_contains (h : m.contains key = true) : ∃ v, m.lookup key = some v :=
  Option.isSome_iff_exists.mp h

theorem contains_of_lookup {v : V} (h : m.lookup key = some v) : m.contains key = true := by
  simp [contains, h]

theorem lookup_eq_none (h : m.contains key = false) : m.lookup key = none := by
  simpa [contains] using h

theorem contains_erase (m : CircularMap V) (key key' : Nat) :
    (m.erase key).contains key' = true ↔ key' ≠ key ∧ m.contains key' = true := by
  unfold contains
  rw [lookup_erase]
  split <;> simp_all

@[simp] theorem contains_modify (m : CircularMap V) (key key' : Nat) (f : V → V) :
    (m.modify key f).contains key' = m.contains key' := by
  unfold contains
  rw [lookup_modify]
  split
  · rename_i h
    rw [h]
    simp
  · rfl

theorem erase_of_not_contains (h : m.contains key = false) : m.erase key = m := by
  simp [erase, h]

end CircularMap

end Ocudu
