import Ocudu.Basic.CircularMap
import Ocudu.Basic.SeqNum

/-! A circular map that holds the sequence numbers of a window: the stored keys are the
residues of absolute positions from `a` up to `b`, and no two positions share a cell. -/

namespace Ocudu

open SeqNum

variable {V : Type} {w : CircularMap V} {m a b k : Nat}

structure SnWindow (w : CircularMap V) (m a b : Nat) : Prop where
  pow : ∃ e, w.capacity = 2 ^ e
  dvd : w.capacity ∣ m
  mod_pos : 0 < m
  le : b ≤ a + w.capacity
  only : ∀ sn v, w.lookup sn = some v → ∃ k, a ≤ k ∧ k < b ∧ sn = k % m

namespace SnWindow

theorem capacity_le (h : SnWindow w m a b) : w.capacity ≤ m := Nat.le_of_dvd h.mod_pos h.dvd

theorem getCircularIdx_eq (h : SnWindow w m a b) (sn : Nat) :
    w.getCircularIdx sn = sn % w.capacity := by
  obtain ⟨e, he⟩ := h.pow
  rw [CircularMap.getCircularIdx_eq_mod he, he]

theorem empty {c : Nat} (hpow : ∃ e, c = 2 ^ e) (hdvd : c ∣ m) (hm : 0 < m) (a : Nat) :
    SnWindow (CircularMap.empty c : CircularMap V) m a a where
  pow := hpow
  dvd := hdvd
  mod_pos := hm
  le := Nat.le_add_right _ _
  only := by simp

section

variable (h : SnWindow w m a b)
include h

theorem inj {j k : Nat} (hj : a ≤ j) (hj' : j < a + w.capacity)
    (hk : a ≤ k) (hk' : k < a + w.capacity) (he : j % m = k % m) : j = k := by
  have hc := h.capacity_le
  exact mod_inj_of_window hj (by omega) hk (by omega) he

theorem lookup_eq_none_of_outside (hk : a ≤ k) (hk' : k < a + w.capacity)
    (hb : b ≤ k) : w.lookup (k % m) = none := by
  cases hl : w.lookup (k % m) with
  | none => rfl
  | some v =>
    obtain ⟨j, hj, hjb, he⟩ := h.only _ v hl
    have hle := h.le
    have := h.inj hk hk' hj (by omega) he
    omega

theorem free (hk : a ≤ k) (hk' : k < a + w.capacity)
    (hnone : w.lookup (k % m) = none) : w.data (w.getCircularIdx (k % m)) = none := by
  apply CircularMap.free_of_lookup
  intro sn hidx
  cases hl : w.lookup sn with
  | none => rfl
  | some v =>
    obtain ⟨j, hj, hjb, rfl⟩ := h.only sn v hl
    have hle := h.le
    rw [h.getCircularIdx_eq, h.getCircularIdx_eq] at hidx
    rcases Nat.lt_trichotomy j k with hlt | heq | hgt
    · exact absurd hidx (mod_mod_ne_of_window h.dvd hj hlt hk')
    · rw [heq, hnone] at hl
      cases hl
    · exact absurd hidx.symm (mod_mod_ne_of_window h.dvd hk hgt (by omega))

theorem count_add (hk : a ≤ k) (hk' : k < a + w.capacity)
    (hnone : w.lookup (k % m) = none) (v : V) : (w.overwrite (k % m) v).count = w.count + 1 :=
  CircularMap.count_overwrite_of_free (h.free hk hk' hnone) v

theorem lookup_put (hk : a ≤ k) (hk' : k < a + w.capacity) (v : V)
    (sn : Nat) :
    (w.overwrite (k % m) v).lookup sn = if sn = k % m then some v else w.lookup sn := by
  cases hl : w.lookup (k % m) with
  | none => exact CircularMap.lookup_overwrite_of_free (h.free hk hk' hl) sn v
  | some u => exact CircularMap.lookup_overwrite_of_held hl sn v

theorem put (hk : a ≤ k) (hk' : k < a + w.capacity) (v : V) :
    SnWindow (w.overwrite (k % m) v) m a (max b (k + 1)) where
  pow := by simpa using h.pow
  dvd := by simpa using h.dvd
  mod_pos := h.mod_pos
  le := by
    have := h.le
    simp only [CircularMap.capacity_overwrite]
    omega
  only := by
    intro sn u hu
    rw [h.lookup_put hk hk'] at hu
    split at hu
    · rename_i hsn
      exact ⟨k, hk, by omega, hsn⟩
    · obtain ⟨j, hj, hjb, hsn⟩ := h.only sn u hu
      exact ⟨j, hj, by omega, hsn⟩

theorem erase_first :
    SnWindow (w.erase (a % m)) m (a + 1) b where
  pow := by simpa using h.pow
  dvd := by simpa using h.dvd
  mod_pos := h.mod_pos
  le := by
    have := h.le
    simp only [CircularMap.capacity_erase]
    omega
  only := by
    intro sn u hu
    rw [CircularMap.lookup_erase] at hu
    split at hu
    · cases hu
    · rename_i hne
      obtain ⟨j, hj, hjb, rfl⟩ := h.only sn u hu
      have hja : j ≠ a := fun e => hne (by rw [e])
      exact ⟨j, by omega, hjb, rfl⟩

theorem weaken {a' : Nat} (ha : a' ≤ a) (hle : b ≤ a' + w.capacity) :
    SnWindow w m a' b where
  pow := h.pow
  dvd := h.dvd
  mod_pos := h.mod_pos
  le := hle
  only := by
    intro sn u hu
    obtain ⟨j, hj, hjb, hsn⟩ := h.only sn u hu
    exact ⟨j, by omega, hjb, hsn⟩

theorem widen {b' : Nat} (hb : b ≤ b') (hle : b' ≤ a + w.capacity) :
    SnWindow w m a b' where
  pow := h.pow
  dvd := h.dvd
  mod_pos := h.mod_pos
  le := hle
  only := by
    intro sn u hu
    obtain ⟨j, hj, hjb, hsn⟩ := h.only sn u hu
    exact ⟨j, hj, by omega, hsn⟩

theorem raise {a' : Nat} (ha : a ≤ a')
    (hgone : ∀ k, a ≤ k → k < a' → w.lookup (k % m) = none) : SnWindow w m a' b where
  pow := h.pow
  dvd := h.dvd
  mod_pos := h.mod_pos
  le := Nat.le_trans h.le (by omega)
  only := by
    intro sn u hu
    obtain ⟨j, hj, hjb, rfl⟩ := h.only sn u hu
    refine ⟨j, ?_, hjb, rfl⟩
    by_contra hlt
    rw [hgone j hj (by omega)] at hu
    cases hu

theorem erase (key : Nat) : SnWindow (w.erase key) m a b where
  pow := by simpa using h.pow
  dvd := by simpa using h.dvd
  mod_pos := h.mod_pos
  le := by simpa using h.le
  only := by
    intro sn u hu
    rw [CircularMap.lookup_erase] at hu
    split at hu
    · cases hu
    · exact h.only sn u hu

theorem modify (key : Nat) (f : V → V) : SnWindow (w.modify key f) m a b where
  pow := by simpa using h.pow
  dvd := by simpa using h.dvd
  mod_pos := h.mod_pos
  le := by simpa using h.le
  only := by
    intro sn u hu
    rw [CircularMap.lookup_modify] at hu
    split at hu
    · rename_i hsn
      cases hl : w.lookup key with
      | none => simp [hl] at hu
      | some v =>
        rw [hsn]
        exact h.only key v hl
    · exact h.only sn u hu

end

end SnWindow

end Ocudu
