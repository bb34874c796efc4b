import Mathlib.Tactic

/-! Walks round a ring of `n` positions that leave out a gap, position by position and in chunks, and values
that are added to a buffer at the positions of a walk. -/

namespace Ocudu.RingWalk

/-- The positions `a`, ..., `b - 1` of a ring of `n` are left out; the first position is not among them. -/
structure Gap where
  n : Nat
  a : Nat
  b : Nat
  pos : 0 < a
  le : a ≤ b
  le_ring : b ≤ n

namespace Gap

variable (g : Gap) {i j c m : Nat}

def Mem (i : Nat) : Prop := g.a ≤ i ∧ i < g.b

instance (i : Nat) : Decidable (g.Mem i) := inferInstanceAs (Decidable (_ ∧ _))

def skip (i : Nat) : Nat := if g.Mem i then g.b % g.n else i

def walk : Nat → Nat → List Nat
  | 0, _ => []
  | m + 1, i => g.skip i :: walk m ((g.skip i + 1) % g.n)

variable {g}

theorem n_pos (g : Gap) : 0 < g.n := g.pos.trans_le (g.le.trans g.le_ring)

theorem skip_of_mem (h : g.Mem i) : g.skip i = g.b % g.n := if_pos h

theorem skip_of_not_mem (h : ¬g.Mem i) : g.skip i = i := if_neg h

theorem not_mem_end (g : Gap) : ¬g.Mem (g.b % g.n) := by
  rintro ⟨ha, hb⟩
  rcases g.le_ring.lt_or_eq with hlt | heq
  · rw [Nat.mod_eq_of_lt hlt] at hb
    exact lt_irrefl _ hb
  · rw [heq, Nat.mod_self] at ha
    exact absurd ha (not_le.mpr g.pos)

@[simp] theorem walk_zero (i : Nat) : g.walk 0 i = [] := rfl

theorem walk_succ (m i : Nat) : g.walk (m + 1) i = g.skip i :: g.walk m ((g.skip i + 1) % g.n) := rfl

@[simp] theorem length_walk (m i : Nat) : (g.walk m i).length = m := by
  induction m generalizing i with
  | zero => rfl
  | succ m ih => rw [walk_succ, List.length_cons, ih]

theorem walk_congr (h : g.skip i = g.skip j) (m : Nat) : g.walk m i = g.walk m j := by
  cases m with
  | zero => rfl
  | succ m => rw [walk_succ, walk_succ, h]

theorem walk_of_mem (h : g.Mem i) (m : Nat) : g.walk m i = g.walk m (g.b % g.n) :=
  walk_congr (by rw [skip_of_mem h, skip_of_not_mem g.not_mem_end]) m

theorem walk_chunk (hi : i < g.n) (hc : i + c ≤ g.n) (hgap : ∀ k, i ≤ k → k < i + c → ¬g.Mem k) (m : Nat) :
    g.walk (c + m) i = List.range' i c ++ g.walk m ((i + c) % g.n) := by
  induction c generalizing i with
  | zero => rw [Nat.zero_add, Nat.add_zero, Nat.mod_eq_of_lt hi, List.range'_zero, List.nil_append]
  | succ c ih =>
    have hskip : g.skip i = i := skip_of_not_mem (hgap i le_rfl (by omega))
    rw [Nat.succ_add, walk_succ, hskip, List.range'_succ, List.cons_append]
    congr 1
    rcases Nat.eq_zero_or_pos c with rfl | hpos
    · rw [Nat.zero_add, List.range'_zero, List.nil_append]
    · have hrest := ih (i := i + 1) (by omega) (by omega) fun k hk hk' => hgap k (by omega) (by omega)
      rw [Nat.mod_eq_of_lt (by omega : i + 1 < g.n), hrest, show i + 1 + c = i + (c + 1) by omega]

end Gap

section Values

variable {α β : Type} {i a : Nat}

def valuesAt (i : Nat) (ps : List (Nat × β)) : List β := ps.filterMap fun p => if p.1 = i then some p.2 else none

@[simp] theorem valuesAt_nil (i : Nat) : valuesAt i ([] : List (Nat × β)) = [] := rfl

@[simp] theorem valuesAt_append (i : Nat) (ps qs : List (Nat × β)) :
    valuesAt i (ps ++ qs) = valuesAt i ps ++ valuesAt i qs := List.filterMap_append

theorem valuesAt_eq_nil {ps : List Nat} (h : i ∉ ps) (vs : List β) : valuesAt i (ps.zip vs) = [] := by
  rw [valuesAt, List.filterMap_eq_nil_iff]
  rintro ⟨p, v⟩ hp
  refine if_neg ?_
  rintro rfl
  exact h (List.of_mem_zip hp).1

theorem valuesAt_range' (i a : Nat) (vs : List β) :
    valuesAt i ((List.range' a vs.length).zip vs) = if a ≤ i then vs[i - a]?.toList else [] := by
  induction vs generalizing a with
  | nil => simp
  | cons v vs ih =>
    rw [List.length_cons, List.range'_succ, List.zip_cons_cons, valuesAt, List.filterMap_cons]
    simp only [valuesAt] at ih
    rcases lt_trichotomy a i with hlt | rfl | hgt
    · simp only [if_neg hlt.ne]
      rw [ih, if_pos (by omega), if_pos hlt.le, show i - a = i - (a + 1) + 1 by omega, List.getElem?_cons_succ]
    · simp [ih]
    · simp only [if_neg hgt.ne']
      rw [ih, if_neg (by omega), if_neg (by omega)]

def updateRange (f : α → β → α) (out : List α) (a : Nat) (vs : List β) : List α :=
  out.mapIdx fun i x => if a ≤ i then (vs[i - a]?).elim x (f x) else x

@[simp] theorem length_updateRange (f : α → β → α) (out : List α) (a : Nat) (vs : List β) :
    (updateRange f out a vs).length = out.length := List.length_mapIdx

theorem getElem?_updateRange (f : α → β → α) (out : List α) (a : Nat) (vs : List β) (i : Nat) :
    (updateRange f out a vs)[i]? = out[i]?.map fun x => if a ≤ i then (vs[i - a]?).elim x (f x) else x :=
  List.getElem?_mapIdx

theorem getElem?_updateRange_eq (f : α → β → α) (out : List α) (a : Nat) (vs : List β) (i : Nat) :
    (updateRange f out a vs)[i]? = out[i]?.map fun x => (valuesAt i ((List.range' a vs.length).zip vs)).foldl f x := by
  rw [getElem?_updateRange, valuesAt_range']
  congr 1
  funext x
  split
  · cases vs[i - a]? <;> rfl
  · rfl

end Values

end Ocudu.RingWalk
