import Ocudu.Basic.Machine
import Mathlib.Data.Set.Card

/-! `adt/stable_id_map.h` and `adt/soa_table.h`: objects in contiguous vectors, and an index that maps their stable ids
to offsets and keeps the free ids in a list. -/

namespace Ocudu.Adt

structure IdIndex where
  indexMap : List Nat
  indexReverseMap : List Nat
  freeListHead : Nat

namespace IdIndex

def empty : IdIndex := ⟨[], [], 0⟩

def offset? (x : IdIndex) (id : Nat) : Option Nat :=
  match x.indexMap[id]? with
  | none => none
  | some offset => if offset < x.indexReverseMap.length then some offset else none

def contains (x : IdIndex) (id : Nat) : Bool :=
  match x.offset? id with
  | none => false
  | some offset => x.indexReverseMap[offset]? = some id

def emplace (x : IdIndex) : IdIndex × Nat :=
  let offset := x.indexReverseMap.length % 2 ^ 32
  let chosen := x.freeListHead
  match x.indexMap[chosen]? with
  | some next => (⟨x.indexMap.set chosen offset, x.indexReverseMap ++ [chosen], next⟩, chosen)
  | none => (⟨x.indexMap ++ [offset], x.indexReverseMap ++ [chosen], (chosen + 1) % 2 ^ 32⟩, chosen)

end IdIndex

def swapRemove {α : Type} (l : List α) (offset : Nat) : List α :=
  match l.getLast? with
  | none => []
  | some last => (l.set offset last).dropLast

namespace IdIndex

/-- `erase`, once the id has an offset. That the id is the one at this offset is only a sanity check. -/
def release (x : IdIndex) (id offset : Nat) : IdIndex :=
  let indexMap :=
    if offset = x.indexReverseMap.length - 1 then x.indexMap
    else x.indexMap.set (x.indexReverseMap.getLast?.getD 0) offset
  ⟨indexMap.set id x.freeListHead, swapRemove x.indexReverseMap offset, id⟩

end IdIndex

structure StableIdMap (α : Type) where
  index : IdIndex
  objs : List α

namespace StableIdMap

variable {α : Type} (m : StableIdMap α)

def empty : StableIdMap α := ⟨.empty, []⟩

def size : Nat := m.index.indexReverseMap.length

/-- The object of an id; none stands for the failed assertion. -/
def at? (id : Nat) : Option α :=
  if m.index.contains id then m.index.indexMap[id]?.bind fun offset => m.objs[offset]? else none

def emplace (a : α) : StableIdMap α × Nat := (⟨m.index.emplace.1, m.objs ++ [a]⟩, m.index.emplace.2)

def erase (id : Nat) : StableIdMap α × Bool :=
  match m.index.offset? id with
  | none => (m, false)
  | some offset => (⟨m.index.release id offset, swapRemove m.objs offset⟩, true)

def clear (_ : StableIdMap α) : StableIdMap α := empty

end StableIdMap

structure SoaTable {ι : Type} (β : ι → Type) where
  index : IdIndex
  columns : (i : ι) → List (β i)

namespace SoaTable

variable {ι : Type} {β : ι → Type} (t : SoaTable β)

def empty : SoaTable β := ⟨.empty, fun _ => []⟩

def size : Nat := t.index.indexReverseMap.length

def hasRowId (id : Nat) : Bool := t.index.contains id

def at? (i : ι) (id : Nat) : Option (β i) :=
  if t.index.contains id then t.index.indexMap[id]?.bind fun offset => (t.columns i)[offset]? else none

def insert (row : (i : ι) → β i) : SoaTable β × Nat :=
  (⟨t.index.emplace.1, fun i => t.columns i ++ [row i]⟩, t.index.emplace.2)

def erase (id : Nat) : SoaTable β × Bool :=
  match t.index.offset? id with
  | none => (t, false)
  | some offset => (⟨t.index.release id offset, fun i => swapRemove (t.columns i) offset⟩, true)

def clear (_ : SoaTable β) : SoaTable β := empty

end SoaTable

/-! Removing by a swap with the last element -/

section SwapRemove

variable {α β : Type}

@[simp] theorem swapRemove_last (l : List α) (a : α) : swapRemove (l ++ [a]) l.length = l := by
  rw [swapRemove, List.getLast?_append, List.getLast?_singleton, Option.some_or]
  simp

theorem swapRemove_inner (l : List α) (a : α) (rest : List α) (last : α) :
    swapRemove (l ++ a :: (rest ++ [last])) l.length = l ++ last :: rest := by
  have hlast : (l ++ a :: (rest ++ [last])).getLast? = some last := by
    rw [List.getLast?_append, List.getLast?_cons, List.getLast?_append]
    simp
  rw [swapRemove, hlast]
  simp
  rw [← List.cons_append]
  exact List.dropLast_concat

theorem swapRemove_perm {l : List α} {offset : Nat} {a : α} (h : l[offset]? = some a) :
    (a :: swapRemove l offset).Perm l := by
  obtain ⟨hlt, rfl⟩ := List.getElem?_eq_some_iff.mp h
  have hsplit : l = l.take offset ++ l[offset] :: l.drop (offset + 1) := by
    rw [← List.drop_eq_getElem_cons, List.take_append_drop]
  have hlen : (l.take offset).length = offset := by
    rw [List.length_take]
    omega
  generalize l[offset] = a at *
  generalize l.take offset = front at *
  subst hlen
  rcases List.eq_nil_or_concat (l.drop (front.length + 1)) with hnil | ⟨init, last, hinit⟩
  · rw [hnil] at hsplit
    rw [hsplit, swapRemove_last]
    exact (List.perm_append_singleton _ _).symm
  · rw [hinit, List.concat_eq_append] at hsplit
    rw [hsplit, swapRemove_inner]
    refine (List.Perm.cons _ List.perm_middle).trans ?_
    refine List.Perm.trans ?_ List.perm_middle.symm
    refine List.Perm.cons _ ?_
    exact (List.perm_append_singleton _ _).symm.trans (by rw [List.append_assoc])

theorem length_swapRemove {l : List α} {offset : Nat} (h : offset < l.length) :
    (swapRemove l offset).length = l.length - 1 := by
  have hperm := (swapRemove_perm (List.getElem?_eq_getElem h)).length_eq
  rw [List.length_cons] at hperm
  omega

theorem getElem?_swapRemove {l : List α} {offset o : Nat} (h : offset < l.length) (ho : o < l.length - 1) :
    (swapRemove l offset)[o]? = if o = offset then l.getLast? else l[o]? := by
  cases hlast : l.getLast? with
  | none =>
    rw [List.getLast?_eq_none_iff] at hlast
    rw [hlast] at h
    exact absurd h (Nat.not_lt_zero _)
  | some last =>
    rw [swapRemove, hlast]
    dsimp only
    rw [List.getElem?_dropLast, List.length_set, if_pos ho, List.getElem?_set]
    by_cases heq : offset = o
    · rw [if_pos heq, if_pos heq.symm, if_pos (heq ▸ h)]
    · rw [if_neg heq, if_neg (Ne.symm heq)]

theorem swapRemove_map (f : α → β) (l : List α) (offset : Nat) :
    swapRemove (l.map f) offset = (swapRemove l offset).map f := by
  rw [swapRemove, swapRemove, List.getLast?_map]
  cases l.getLast? with
  | none => rfl
  | some last =>
    dsimp only [Option.map_some]
    rw [← List.map_set, List.map_dropLast]

theorem swapRemove_zip {l : List α} {l' : List β} (h : l.length = l'.length) (offset : Nat) :
    swapRemove (l.zip l') offset = (swapRemove l offset).zip (swapRemove l' offset) := by
  have hfst : (l.zip l').map Prod.fst = l := List.map_fst_zip h.le
  have hsnd : (l.zip l').map Prod.snd = l' := List.map_snd_zip h.ge
  have hleft : swapRemove l offset = (swapRemove (l.zip l') offset).map Prod.fst := by rw [← swapRemove_map, hfst]
  have hright : swapRemove l' offset = (swapRemove (l.zip l') offset).map Prod.snd := by rw [← swapRemove_map, hsnd]
  rw [hleft, hright]
  exact List.zip_of_prod rfl rfl

end SwapRemove

end Ocudu.Adt
