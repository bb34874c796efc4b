import Mathlib.Tactic

/-! Maps whose entries are in the order of their keys, each key once. -/

namespace Ocudu

structure OrderedMap (κ α : Type*) [LinearOrder κ] where
  entries : List (κ × α)
  sorted : (entries.map Prod.fst).Pairwise (· < ·)

namespace OrderedMap

variable {κ α β : Type*} [LinearOrder κ]

variable (m : OrderedMap κ α)

def keys : List κ := m.entries.map Prod.fst

def values : List α := m.entries.map Prod.snd

def size : Nat := m.entries.length

def empty : OrderedMap κ α := ⟨[], .nil⟩

def find? (k : κ) : Option α := m.entries.lookup k

def contains (k : κ) : Bool := (m.find? k).isSome

/-- Replaces what the key is mapped to. -/
def alterEntries (k : κ) (f : Option α → Option α) : List (κ × α) → List (κ × α)
  | [] => (f none).toList.map (k, ·)
  | e :: entries =>
    if k < e.1 then (f none).toList.map (k, ·) ++ e :: entries
    else if k = e.1 then (f (some e.2)).toList.map (k, ·) ++ entries
    else e :: alterEntries k f entries

theorem mem_keys_alterEntries {k k' : κ} {f : Option α → Option α} {entries : List (κ × α)}
    (h : k' ∈ (alterEntries k f entries).map Prod.fst) : k' = k ∨ k' ∈ entries.map Prod.fst := by
  have hnew {a : Option α} (h : k' ∈ (a.toList.map (k, ·)).map Prod.fst) : k' = k := by
    cases a with
    | none => cases h
    | some a => exact List.mem_singleton.mp h
  induction entries with
  | nil => exact .inl (hnew h)
  | cons e entries ih =>
    rw [alterEntries] at h
    split_ifs at h with hlt heq
    · rw [List.map_append, List.mem_append] at h
      exact h.imp_left hnew
    · rw [List.map_append, List.mem_append] at h
      exact h.imp hnew (List.mem_cons_of_mem _)
    · rw [List.map_cons, List.mem_cons] at h
      rcases h with rfl | h
      · exact .inr List.mem_cons_self
      · exact (ih h).imp_right (List.mem_cons_of_mem _)

theorem sorted_alterEntries (k : κ) (f : Option α → Option α) {entries : List (κ × α)}
    (h : (entries.map Prod.fst).Pairwise (· < ·)) :
    ((alterEntries k f entries).map Prod.fst).Pairwise (· < ·) := by
  have hnew {a : Option α} {rest : List κ} (hrest : rest.Pairwise (· < ·)) (hlt : ∀ k' ∈ rest, k < k') :
      ((a.toList.map (k, ·)).map Prod.fst ++ rest).Pairwise (· < ·) := by
    cases a with
    | none => exact hrest
    | some a => exact List.Pairwise.cons hlt hrest
  induction entries with
  | nil =>
    have hnil := hnew (a := f none) .nil (fun k' hk' => by cases hk')
    rwa [List.append_nil] at hnil
  | cons e entries ih =>
    obtain ⟨hfirst, hrest⟩ := List.pairwise_cons.mp h
    rw [alterEntries]
    split_ifs with hlt heq
    · rw [List.map_append]
      apply hnew h
      intro k' hk'
      rcases List.mem_cons.mp hk' with rfl | hk'
      · exact hlt
      · exact hlt.trans (hfirst k' hk')
    · rw [List.map_append]
      apply hnew hrest
      rw [heq]
      exact hfirst
    · refine List.Pairwise.cons (fun k' hk' => ?_) (ih hrest)
      rcases mem_keys_alterEntries hk' with rfl | hk'
      · exact lt_of_le_of_ne (not_lt.mp hlt) (Ne.symm heq)
      · exact hfirst k' hk'

def alter (k : κ) (f : Option α → Option α) : OrderedMap κ α :=
  ⟨alterEntries k f m.entries, sorted_alterEntries k f m.sorted⟩

def insert (k : κ) (a : α) : OrderedMap κ α := m.alter k fun _ => some a

def emplace (k : κ) (a : α) : OrderedMap κ α := m.alter k fun old => some (old.getD a)

def erase (k : κ) : OrderedMap κ α := m.alter k fun _ => none

def modify (k : κ) (f : α → α) : OrderedMap κ α := m.alter k (Option.map f)

def filter (p : κ → α → Bool) : OrderedMap κ α :=
  ⟨m.entries.filter fun e => p e.1 e.2, m.sorted.sublist (List.Sublist.map _ List.filter_sublist)⟩

section Lookup

theorem lookup_eq_none_of_forall_lt {k : κ} {entries : List (κ × α)} (h : ∀ k' ∈ entries.map Prod.fst, k < k') :
    entries.lookup k = none := by
  rw [List.lookup_eq_none_iff]
  intro e he
  rw [bne_iff_ne]
  exact (h e.1 (List.mem_map_of_mem he)).ne

theorem lookup_alterEntries {k k' : κ} {f : Option α → Option α} {entries : List (κ × α)}
    (h : (entries.map Prod.fst).Pairwise (· < ·)) :
    (alterEntries k f entries).lookup k' = if k' = k then f (entries.lookup k) else entries.lookup k' := by
  have hnew {a : Option α} {rest : List (κ × α)} :
      (a.toList.map (k, ·) ++ rest).lookup k' = if k' = k then a.or (rest.lookup k) else rest.lookup k' := by
    cases a with
    | none =>
      split_ifs with heq
      · rw [heq]
        rfl
      · rfl
    | some a =>
      show ((k, a) :: rest).lookup k' = _
      rw [List.lookup_cons]
      split_ifs with heq
      · rw [heq, beq_self_eq_true]
        rfl
      · rw [beq_false_of_ne heq]
  induction entries with
  | nil =>
    have hnil := @hnew (f none) []
    rw [List.append_nil] at hnil
    rw [alterEntries, hnil]
    simp only [List.lookup_nil, Option.or_none]
  | cons e entries ih =>
    obtain ⟨hfirst, hrest⟩ := List.pairwise_cons.mp h
    rw [alterEntries]
    by_cases hlt : k < e.1
    · have hnone : (e :: entries).lookup k = none := by
        apply lookup_eq_none_of_forall_lt
        intro k' hk'
        rcases List.mem_cons.mp hk' with rfl | hk'
        · exact hlt
        · exact hlt.trans (hfirst k' hk')
      rw [if_pos hlt, hnew, hnone, Option.or_none]
    rw [if_neg hlt]
    by_cases heq : k = e.1
    · have hnone : entries.lookup k = none := lookup_eq_none_of_forall_lt (heq ▸ hfirst)
      rw [if_pos heq, hnew, hnone, Option.or_none, List.lookup_cons, List.lookup_cons, beq_iff_eq.mpr heq]
      split_ifs with hk
      · rfl
      · rw [beq_false_of_ne (heq ▸ hk)]
    · rw [if_neg heq, List.lookup_cons, List.lookup_cons, List.lookup_cons, ih hrest, beq_false_of_ne heq]
      split_ifs with hk
      · rw [hk, beq_false_of_ne heq]
      · rfl

@[simp] theorem find?_alter (m : OrderedMap κ α) (k k' : κ) (f : Option α → Option α) :
    (m.alter k f).find? k' = if k' = k then f (m.find? k) else m.find? k' := lookup_alterEntries m.sorted

@[simp] theorem find?_empty (k : κ) : (empty : OrderedMap κ α).find? k = none := rfl

@[simp] theorem find?_insert (m : OrderedMap κ α) (k k' : κ) (a : α) :
    (m.insert k a).find? k' = if k' = k then some a else m.find? k' := m.find?_alter k k' _

@[simp] theorem find?_erase (m : OrderedMap κ α) (k k' : κ) :
    (m.erase k).find? k' = if k' = k then none else m.find? k' := m.find?_alter k k' _

@[simp] theorem find?_emplace (m : OrderedMap κ α) (k k' : κ) (a : α) :
    (m.emplace k a).find? k' = if k' = k then some ((m.find? k).getD a) else m.find? k' := m.find?_alter k k' _

theorem find?_modify (m : OrderedMap κ α) (k k' : κ) (f : α → α) :
    (m.modify k f).find? k' = if k' = k then (m.find? k).map f else m.find? k' := m.find?_alter k k' _

variable {m : OrderedMap κ α}

theorem find?_eq_some {k : κ} {a : α} : m.find? k = some a ↔ (k, a) ∈ m.entries := by
  obtain ⟨entries, hsorted⟩ := m
  show entries.lookup k = some a ↔ (k, a) ∈ entries
  induction entries with
  | nil => exact iff_of_false (fun h => by cases h) List.not_mem_nil
  | cons e entries ih =>
    obtain ⟨hfirst, hrest⟩ := List.pairwise_cons.mp hsorted
    rw [List.lookup_cons, List.mem_cons]
    by_cases heq : k = e.1
    · rw [heq, beq_self_eq_true]
      constructor
      · rintro ⟨⟩
        exact .inl rfl
      · rintro (h | h)
        · rw [← h]
        · exact absurd (hfirst _ (List.mem_map_of_mem h)) (lt_irrefl _)
    · rw [beq_false_of_ne heq]
      refine (ih hrest).trans ⟨.inr, ?_⟩
      rintro (h | h)
      · exact absurd (congrArg Prod.fst h) heq
      · exact h

theorem mem_keys {k : κ} : k ∈ m.keys ↔ ∃ a, m.find? k = some a := by
  rw [keys, List.mem_map]
  constructor
  · rintro ⟨e, he, rfl⟩
    exact ⟨e.2, find?_eq_some.mpr he⟩
  · rintro ⟨a, ha⟩
    exact ⟨(k, a), find?_eq_some.mp ha, rfl⟩

theorem nodup_keys (m : OrderedMap κ α) : m.keys.Nodup := m.sorted.imp fun h => h.ne

theorem entries_eq_nil : m.entries = [] ↔ ∀ k, m.find? k = none := by
  constructor
  · intro h k
    rw [find?, h]
    rfl
  · intro h
    rw [List.eq_nil_iff_forall_not_mem]
    intro e he
    have hsome := find?_eq_some.mpr he
    rw [h] at hsome
    cases hsome

theorem mem_values {a : α} : a ∈ m.values ↔ ∃ k, m.find? k = some a := by
  rw [values, List.mem_map]
  constructor
  · rintro ⟨e, he, rfl⟩
    exact ⟨e.1, find?_eq_some.mpr he⟩
  · rintro ⟨k, hk⟩
    exact ⟨(k, a), find?_eq_some.mp hk, rfl⟩

theorem contains_eq_true {k : κ} : m.contains k = true ↔ k ∈ m.keys := by
  rw [contains, Option.isSome_iff_exists, mem_keys]

theorem find?_eq_none {k : κ} : m.find? k = none ↔ k ∉ m.keys := by
  rw [← contains_eq_true, contains, Option.not_isSome_iff_eq_none]

theorem contains_eq_false {k : κ} : m.contains k = false ↔ m.find? k = none := by
  rw [contains, Option.isSome_eq_false_iff, Option.isNone_iff_eq_none]

theorem size_eq_zero : m.size = 0 ↔ ∀ k, m.find? k = none := by
  rw [size, List.length_eq_zero_iff, entries_eq_nil]

theorem entries_perm {l : List (κ × α)} (hl : (l.map Prod.fst).Nodup)
    (h : ∀ k a, m.find? k = some a ↔ (k, a) ∈ l) : m.entries.Perm l := by
  rw [List.perm_ext_iff_of_nodup m.nodup_keys.of_map hl.of_map]
  intro e
  exact find?_eq_some.symm.trans (h e.1 e.2)

theorem ext {m m' : OrderedMap κ α} (h : ∀ k, m.find? k = m'.find? k) : m = m' := by
  have hperm : m.entries.Perm m'.entries := by
    apply entries_perm m'.nodup_keys
    intro k a
    rw [h, find?_eq_some]
  have heq : m.entries = m'.entries := by
    have hanti (e e' : κ × α) (_ : e ∈ m.entries) (_ : e' ∈ m'.entries) (hlt : e.1 < e'.1) (hlt' : e'.1 < e.1) :
        e = e' := absurd (hlt.trans hlt') (lt_irrefl _)
    exact hperm.eq_of_pairwise hanti (List.pairwise_map.mp m.sorted) (List.pairwise_map.mp m'.sorted)
  cases m
  cases m'
  cases heq
  rfl

end Lookup

section Update

theorem insert_self {m : OrderedMap κ α} {k : κ} {a : α} (h : m.find? k = some a) : m.insert k a = m := by
  apply ext
  intro k'
  rw [find?_insert]
  split_ifs with heq
  · rw [heq, h]
  · rfl

theorem modify_insert (m : OrderedMap κ α) (k : κ) (a : α) (f : α → α) :
    (m.insert k a).modify k f = m.insert k (f a) := by
  apply ext
  intro k'
  rw [find?_modify, find?_insert, find?_insert, find?_insert, if_pos rfl]
  split_ifs <;> rfl

theorem emplace_eq_insert {m : OrderedMap κ α} {k : κ} (h : m.find? k = none) (a : α) : m.emplace k a = m.insert k a := by
  apply ext
  intro k'
  rw [find?_emplace, find?_insert, h]
  rfl

theorem entries_insert_perm {m : OrderedMap κ α} {k : κ} (h : m.find? k = none) (a : α) :
    (m.insert k a).entries.Perm ((k, a) :: m.entries) := by
  apply entries_perm
  · rw [List.map_cons, List.nodup_cons]
    refine ⟨fun hk => ?_, m.nodup_keys⟩
    obtain ⟨b, hb⟩ := mem_keys.mp hk
    rw [h] at hb
    cases hb
  · intro k' b
    rw [find?_insert, List.mem_cons, ← find?_eq_some, Prod.mk.injEq]
    split_ifs with hk
    · rw [hk, h, Option.some_inj]
      constructor
      · rintro rfl
        exact .inl ⟨rfl, rfl⟩
      · rintro (hb | hb)
        · exact hb.2.symm
        · cases hb
    · exact ⟨.inr, fun hb => hb.resolve_left fun hb => hk hb.1⟩

theorem values_insert_perm {m : OrderedMap κ α} {k : κ} (h : m.find? k = none) (a : α) :
    (m.insert k a).values.Perm (a :: m.values) := (entries_insert_perm h a).map Prod.snd

end Update

end OrderedMap

end Ocudu
