import Mathlib.Tactic

/-! Maps that give an id to what is inserted. The ids that are free again are taken first, the last
one before the others. -/

namespace Ocudu

structure StableIdMap (α : Type*) where
  objs : List (Nat × α)
  free : List Nat
  size : Nat
  ids_perm : (objs.map Prod.fst ++ free).Perm (List.range size)

namespace StableIdMap

variable {α : Type*}

variable (m : StableIdMap α)

def ids : List Nat := m.objs.map Prod.fst

def values : List α := m.objs.map Prod.snd

def empty : StableIdMap α := ⟨[], [], 0, .nil⟩

def find? (id : Nat) : Option α := m.objs.lookup id

def nextId : Nat := m.free.headD m.size

theorem insert_ids_perm {objs : List (Nat × α)} {free : List Nat} {size : Nat}
    (h : (objs.map Prod.fst ++ free).Perm (List.range size)) (a : α) :
    (((free.headD size, a) :: objs).map Prod.fst ++ free.tail).Perm
      (List.range (if free.isEmpty then size + 1 else size)) := by
  cases free with
  | nil =>
    rw [List.append_nil] at h
    simp only [List.headD_nil, List.map_cons, List.tail_nil, List.append_nil, List.isEmpty_nil, ↓reduceIte]
    rw [List.range_succ]
    exact (h.cons size).trans (List.perm_append_singleton size _).symm
  | cons id free => exact List.perm_middle.symm.trans h

def insert (a : α) : StableIdMap α where
  objs := (m.nextId, a) :: m.objs
  free := m.free.tail
  size := if m.free.isEmpty then m.size + 1 else m.size
  ids_perm := insert_ids_perm m.ids_perm a

theorem nodup : (m.ids ++ m.free).Nodup := m.ids_perm.nodup_iff.mpr List.nodup_range

theorem nodup_ids : m.ids.Nodup := (List.nodup_append.mp m.nodup).1

theorem eq_of_mem {m : StableIdMap α} {id : Nat} {a b : α} (ha : (id, a) ∈ m.objs) (hb : (id, b) ∈ m.objs) :
    a = b :=
  congrArg Prod.snd (List.inj_on_of_nodup_map m.nodup_ids ha hb rfl)

theorem nextId_not_mem : m.nextId ∉ m.ids := by
  unfold nextId
  cases hfree : m.free with
  | nil =>
    intro hmem
    have hrange := m.ids_perm.subset (List.mem_append_left _ hmem)
    simp at hrange
  | cons id free =>
    intro hmem
    have hnodup := m.nodup
    rw [hfree] at hnodup
    exact (List.nodup_append.mp hnodup).2.2 _ hmem _ List.mem_cons_self rfl

theorem filter_ne_self {objs : List (Nat × α)} {id : Nat} (hid : id ∉ objs.map Prod.fst) :
    objs.filter (·.1 != id) = objs := by
  refine List.filter_eq_self.mpr fun q hq => ?_
  have hne : q.1 ≠ id := by
    rintro rfl
    exact hid (List.mem_map.mpr ⟨q, hq, rfl⟩)
  simpa using hne

theorem perm_filter {objs : List (Nat × α)} {id : Nat} (hnodup : (objs.map Prod.fst).Nodup) {a : α}
    (hmem : (id, a) ∈ objs) : objs.Perm ((id, a) :: objs.filter (·.1 != id)) := by
  induction objs with
  | nil => cases hmem
  | cons p objs ih =>
    obtain ⟨hnew, hnodup⟩ := List.nodup_cons.mp hnodup
    rcases List.mem_cons.mp hmem with rfl | hmem
    · simp [filter_ne_self hnew]
    · have hne : p.1 ≠ id := by
        rintro rfl
        exact hnew (List.mem_map.mpr ⟨_, hmem, rfl⟩)
      rw [List.filter_cons_of_pos (by simpa using hne)]
      exact ((ih hnodup hmem).cons p).trans (.swap _ _ _)

theorem erase_ids_perm {objs : List (Nat × α)} {free : List Nat} {size : Nat}
    (h : (objs.map Prod.fst ++ free).Perm (List.range size)) (id : Nat) :
    ((objs.filter (·.1 != id)).map Prod.fst ++ if id ∈ objs.map Prod.fst then id :: free else free).Perm
      (List.range size) := by
  have hnodup : (objs.map Prod.fst).Nodup :=
    (List.nodup_append.mp (h.nodup_iff.mpr List.nodup_range)).1
  by_cases hid : id ∈ objs.map Prod.fst
  · rw [if_pos hid]
    obtain ⟨⟨_, a⟩, hmem, rfl⟩ := List.mem_map.mp hid
    have hperm := (perm_filter hnodup hmem).map Prod.fst
    exact List.perm_middle.trans ((hperm.symm.append_right free).trans h)
  · rwa [if_neg hid, filter_ne_self hid]

def erase (id : Nat) : StableIdMap α where
  objs := m.objs.filter (·.1 != id)
  free := if id ∈ m.objs.map Prod.fst then id :: m.free else m.free
  size := m.size
  ids_perm := erase_ids_perm m.ids_perm id

theorem modify_ids_perm {objs : List (Nat × α)} {free : List Nat} {size : Nat}
    (h : (objs.map Prod.fst ++ free).Perm (List.range size)) (id : Nat) (f : α → α) :
    ((objs.map fun p => (p.1, if p.1 = id then f p.2 else p.2)).map Prod.fst ++ free).Perm
      (List.range size) := by
  rw [List.map_map]
  exact h

def modify (id : Nat) (f : α → α) : StableIdMap α where
  objs := m.objs.map fun p => (p.1, if p.1 = id then f p.2 else p.2)
  free := m.free
  size := m.size
  ids_perm := modify_ids_perm m.ids_perm id f

theorem find?_eq_some {m : StableIdMap α} {id : Nat} {a : α} : m.find? id = some a ↔ (id, a) ∈ m.objs := by
  have hnodup : (m.objs.map Prod.fst).Nodup := m.nodup_ids
  unfold find?
  revert hnodup
  induction m.objs with
  | nil => simp
  | cons p objs ih =>
    obtain ⟨id', b⟩ := p
    intro hnodup
    obtain ⟨hnew, hobjs⟩ := List.nodup_cons.mp hnodup
    by_cases hid : id = id'
    · subst hid
      rw [List.lookup_cons_self]
      constructor
      · rintro ⟨⟩
        exact List.mem_cons_self
      · intro hmem
        rcases List.mem_cons.mp hmem with heq | hmem
        · rw [Prod.mk.injEq] at heq
          rw [heq.2]
        · exact absurd (List.mem_map.mpr ⟨_, hmem, rfl⟩) hnew
    · have hbeq : (id == id') = false := beq_eq_false_iff_ne.mpr hid
      have htail := ih hobjs
      simpa only [List.lookup_cons, hbeq, List.mem_cons, Prod.mk.injEq, hid, false_and, false_or] using htail

@[simp] theorem mem_erase {m : StableIdMap α} {id id' : Nat} {a : α} :
    (id', a) ∈ (m.erase id).objs ↔ id' ≠ id ∧ (id', a) ∈ m.objs := by
  simp [erase, and_comm]

theorem perm_erase {m : StableIdMap α} {id : Nat} {a : α} (h : (id, a) ∈ m.objs) :
    m.objs.Perm ((id, a) :: (m.erase id).objs) :=
  perm_filter m.nodup_ids h

@[simp] theorem mem_insert {m : StableIdMap α} {id : Nat} {a b : α} :
    (id, b) ∈ (m.insert a).objs ↔ id = m.nextId ∧ b = a ∨ (id, b) ∈ m.objs := by
  simp [insert]

theorem mem_modify {m : StableIdMap α} {id id' : Nat} {f : α → α} {a : α} :
    (id', a) ∈ (m.modify id f).objs ↔ ∃ b, (id', b) ∈ m.objs ∧ a = if id' = id then f b else b := by
  simp only [modify, List.mem_map, Prod.mk.injEq, Prod.exists]
  constructor
  · rintro ⟨id₁, b, hmem, rfl, rfl⟩
    exact ⟨b, hmem, rfl⟩
  · rintro ⟨b, hmem, rfl⟩
    exact ⟨id', b, hmem, rfl, rfl⟩

@[simp] theorem find?_nextId : m.find? m.nextId = none := by
  by_contra hne
  obtain ⟨a, ha⟩ := Option.ne_none_iff_exists'.mp hne
  exact m.nextId_not_mem (List.mem_map.mpr ⟨_, find?_eq_some.mp ha, rfl⟩)

@[simp] theorem find?_insert (a : α) (id : Nat) :
    (m.insert a).find? id = if id = m.nextId then some a else m.find? id := by
  unfold find?
  rw [insert, List.lookup_cons]
  by_cases hid : id = m.nextId
  · rw [if_pos hid, beq_iff_eq.mpr hid]
  · rw [if_neg hid, beq_eq_false_iff_ne.mpr hid]

@[simp] theorem find?_erase (id id' : Nat) :
    (m.erase id).find? id' = if id' = id then none else m.find? id' := by
  by_cases hid : id' = id
  · rw [if_pos hid]
    by_contra hne
    obtain ⟨a, ha⟩ := Option.ne_none_iff_exists'.mp hne
    exact (mem_erase.mp (find?_eq_some.mp ha)).1 hid
  · rw [if_neg hid]
    refine Option.ext fun a => ?_
    rw [find?_eq_some, find?_eq_some, mem_erase]
    exact and_iff_right hid

theorem find?_modify (id : Nat) (f : α → α) (id' : Nat) :
    (m.modify id f).find? id' = if id' = id then (m.find? id).map f else m.find? id' := by
  refine Option.ext fun a => ?_
  rw [find?_eq_some, mem_modify]
  by_cases hid : id' = id
  · subst hid
    rw [if_pos rfl, Option.map_eq_some_iff]
    simp only [if_true, find?_eq_some]
    exact exists_congr fun b => and_congr_right fun _ => eq_comm
  · simp only [if_neg hid, find?_eq_some]
    exact ⟨fun ⟨b, hb, hab⟩ => hab ▸ hb, fun h => ⟨a, h, rfl⟩⟩

theorem length_add : m.objs.length + m.free.length = m.size := by
  simpa using m.ids_perm.length_eq

theorem lt_size {m : StableIdMap α} {id : Nat} (h : (m.find? id).isSome = true) : id < m.size := by
  obtain ⟨a, ha⟩ := Option.isSome_iff_exists.mp h
  have hmem : id ∈ m.ids := List.mem_map.mpr ⟨_, find?_eq_some.mp ha, rfl⟩
  exact List.mem_range.mp (m.ids_perm.subset (List.mem_append_left _ hmem))

@[simp] theorem length_modify (id : Nat) (f : α → α) :
    (m.modify id f).objs.length = m.objs.length :=
  List.length_map _

@[simp] theorem size_erase (id : Nat) : (m.erase id).size = m.size := rfl

/-- Only an object that finds no free id makes the map larger. -/
theorem size_insert_le (a : α) : (m.insert a).size ≤ max m.size (m.insert a).objs.length := by
  have hlength := m.length_add
  change (if m.free.isEmpty then m.size + 1 else m.size) ≤ max m.size (m.objs.length + 1)
  split
  · rename_i hfree
    rw [List.isEmpty_iff.mp hfree, List.length_nil] at hlength
    omega
  · exact le_max_left _ _

theorem map_modify {β : Type*} (g : α → β) {m : StableIdMap α} {id : Nat} {f : α → α}
    (hg : ∀ a, (id, a) ∈ m.objs → g (f a) = g a) : (m.modify id f).objs.map (g ·.2) = m.objs.map (g ·.2) := by
  rw [modify, List.map_map]
  refine List.map_congr_left fun p hp => ?_
  by_cases hid : p.1 = id
  · subst hid
    simpa using hg p.2 hp
  · simp [hid]

end StableIdMap

end Ocudu
