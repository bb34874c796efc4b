import Ocudu.Adt.StableIdMap
import Ocudu.Basic.StableIdMap

/-! The stable id containers as finite maps from ids to rows. -/

namespace Ocudu.Adt

open Machine

/-! The ids in use and the free ids -/

def FreeList (indexMap : List Nat) : Nat → List Nat → Prop
  | head, [] => head = indexMap.length
  | head, id :: ids => head = id ∧ ∃ next, indexMap[id]? = some next ∧ FreeList indexMap next ids

theorem FreeList.set {indexMap : List Nat} {head id v : Nat} {ids : List Nat} (h : FreeList indexMap head ids)
    (hid : id ∉ ids) : FreeList (indexMap.set id v) head ids := by
  induction ids generalizing head with
  | nil => exact (h : head = _).trans (List.length_set ..).symm
  | cons id' ids ih =>
    obtain ⟨hhead, next, hnext, hrest⟩ := h
    obtain ⟨hne, hnot⟩ := not_or.mp (mt List.mem_cons.mpr hid)
    refine ⟨hhead, next, ?_, ih hrest hnot⟩
    rw [List.getElem?_set_ne hne, hnext]

structure IdIndex.Inv (x : IdIndex) (free : List Nat) : Prop where
  perm : (x.indexReverseMap ++ free).Perm (List.range x.indexMap.length)
  offset : ∀ o id : Nat, x.indexReverseMap[o]? = some id → x.indexMap[id]? = some o
  chain : FreeList x.indexMap x.freeListHead free
  bound : x.indexMap.length < 2 ^ 32

namespace IdIndex.Inv

variable {x : IdIndex} {free : List Nat} {id o : Nat}

theorem empty : IdIndex.empty.Inv [] where
  perm := .nil
  offset := fun _ id h => absurd h.symm (Option.some_ne_none id)
  chain := rfl
  bound := by decide

theorem nodup (h : x.Inv free) : (x.indexReverseMap ++ free).Nodup := h.perm.nodup_iff.mpr List.nodup_range

theorem lt_of_mem (h : x.Inv free) (hid : id ∈ x.indexReverseMap ++ free) : id < x.indexMap.length :=
  List.mem_range.mp (h.perm.subset hid)

theorem length_le (h : x.Inv free) : x.indexReverseMap.length ≤ x.indexMap.length := by
  have hlen := h.perm.length_eq
  rw [List.length_append, List.length_range] at hlen
  omega

theorem offset?_of_live (h : x.Inv free) (ho : x.indexReverseMap[o]? = some id) : x.offset? id = some o := by
  rw [IdIndex.offset?, h.offset o id ho]
  exact if_pos (List.getElem?_eq_some_iff.mp ho).1

theorem contains_iff (h : x.Inv free) : x.contains id = true ↔ ∃ o : Nat, x.indexReverseMap[o]? = some id := by
  constructor
  · intro hcontains
    rw [IdIndex.contains] at hcontains
    cases ho : x.offset? id with
    | none => rw [ho] at hcontains; cases hcontains
    | some o =>
      rw [ho] at hcontains
      exact ⟨o, of_decide_eq_true hcontains⟩
  · rintro ⟨o, ho⟩
    rw [IdIndex.contains, h.offset?_of_live ho]
    exact decide_eq_true ho

theorem emplace (h : x.Inv free) (hgrow : free = [] → x.indexMap.length + 1 < 2 ^ 32) :
    x.emplace.2 ∉ x.indexReverseMap ∧ x.emplace.1.indexReverseMap = x.indexReverseMap ++ [x.emplace.2] ∧
      x.emplace.1.Inv free.tail := by
  have hle := h.length_le
  have hbound := h.bound
  have hmod : x.indexReverseMap.length % 2 ^ 32 = x.indexReverseMap.length := Nat.mod_eq_of_lt (by omega)
  cases free with
  | nil =>
    have hhead : x.freeListHead = x.indexMap.length := h.chain
    have hnew := hgrow rfl
    have hnone : x.indexMap[x.freeListHead]? = none := List.getElem?_eq_none hhead.ge
    have hfresh : x.indexMap.length ∉ x.indexReverseMap := fun hmem =>
      absurd (h.lt_of_mem (List.mem_append_left _ hmem)) (Nat.lt_irrefl _)
    rw [IdIndex.emplace, hnone]
    dsimp only
    rw [hhead, hmod, Nat.mod_eq_of_lt hnew]
    refine ⟨hfresh, rfl, ?_, fun o id ho => ?_, ?_, ?_⟩
    · have hperm := h.perm
      rw [List.append_nil] at hperm
      rw [List.tail_nil, List.append_nil, List.length_append, List.length_singleton, List.range_succ]
      exact hperm.append_right _
    · rcases Nat.lt_or_ge o x.indexReverseMap.length with hlt | hge
      · rw [List.getElem?_append_left hlt] at ho
        have hold := h.offset o id ho
        rw [List.getElem?_append_left (List.getElem?_eq_some_iff.mp hold).1, hold]
      · rw [List.getElem?_append_right hge] at ho
        obtain ⟨hlt, heq⟩ := List.getElem?_eq_some_iff.mp ho
        rw [List.length_singleton] at hlt
        have hid : id = x.indexMap.length := by
          rw [← heq]
          exact List.getElem_singleton _
        rw [hid, List.getElem?_concat_length, show o = x.indexReverseMap.length by omega]
    · show x.indexMap.length + 1 = (x.indexMap ++ [x.indexReverseMap.length]).length
      rw [List.length_append, List.length_singleton]
    · rw [List.length_append]
      exact hnew
  | cons next ids =>
    obtain ⟨hhead, link, hlink, hrest⟩ := h.chain
    have hnodup := h.nodup
    obtain ⟨hnotrev, hnotfree⟩ := List.nodup_middle.mp hnodup |> List.nodup_cons.mp |>.1 |> fun hnot =>
      (not_or.mp (mt List.mem_append.mpr hnot) : next ∉ x.indexReverseMap ∧ next ∉ ids)
    have hnext := (List.getElem?_eq_some_iff.mp hlink).1
    rw [IdIndex.emplace, hhead, hlink]
    dsimp only
    rw [hmod]
    refine ⟨hnotrev, rfl, ?_, fun o id ho => ?_, hrest.set hnotfree, ?_⟩
    · rw [List.tail_cons, List.append_assoc, List.length_set]
      exact h.perm
    · rcases Nat.lt_or_ge o x.indexReverseMap.length with hlt | hge
      · rw [List.getElem?_append_left hlt] at ho
        have hne : next ≠ id := fun heq => hnotrev (heq ▸ List.mem_of_getElem? ho)
        rw [List.getElem?_set_ne hne, h.offset o id ho]
      · rw [List.getElem?_append_right hge] at ho
        obtain ⟨hlt, heq⟩ := List.getElem?_eq_some_iff.mp ho
        rw [List.length_singleton] at hlt
        have hid : id = next := by
          rw [← heq]
          exact List.getElem_singleton _
        rw [hid, List.getElem?_set_self hnext, show o = x.indexReverseMap.length by omega]
    · rw [List.length_set]
      exact hbound

theorem release (h : x.Inv free) (ho : x.indexReverseMap[o]? = some id) : (x.release id o).Inv (id :: free) := by
  obtain ⟨hlt, hid⟩ := List.getElem?_eq_some_iff.mp ho
  obtain ⟨hrevNodup, -, hdisjoint⟩ := List.nodup_append.mp h.nodup
  have hidFree : id ∉ free := fun hmem => hdisjoint id (List.mem_of_getElem? ho) id hmem rfl
  have hne : x.indexReverseMap ≠ [] := List.ne_nil_of_length_pos (by omega)
  obtain ⟨last, hlast⟩ : ∃ last, x.indexReverseMap.getLast? = some last := ⟨_, List.getLast?_eq_some_getLast hne⟩
  have hlastAt : x.indexReverseMap[x.indexReverseMap.length - 1]? = some last := by
    rw [← List.getLast?_eq_getElem?, hlast]
  have hlastFree : last ∉ free := fun hmem => hdisjoint last (List.mem_of_getElem? hlastAt) last hmem rfl
  have hinj {i j a : Nat} (hi : x.indexReverseMap[i]? = some a) (hj : x.indexReverseMap[j]? = some a) : i = j := by
    obtain ⟨hi, hia⟩ := List.getElem?_eq_some_iff.mp hi
    obtain ⟨hj, hja⟩ := List.getElem?_eq_some_iff.mp hj
    exact (hrevNodup.getElem_inj_iff).mp (hia.trans hja.symm)
  have hidMap : id < x.indexMap.length := h.lt_of_mem (List.mem_append_left _ (List.mem_of_getElem? ho))
  have hlastMap : last < x.indexMap.length := h.lt_of_mem (List.mem_append_left _ (List.mem_of_getElem? hlastAt))
  -- the write to the index map of the last element changes nothing when it is the removed one
  have hmap : (x.release id o).indexMap = (x.indexMap.set last o).set id x.freeListHead := by
    rw [IdIndex.release, hlast]
    dsimp only [Option.getD_some]
    split_ifs with hend
    · rw [hend] at ho
      cases ho.symm.trans hlastAt
      rw [List.set_set]
    · rfl
  refine ⟨?_, fun i a hi => ?_, ?_, ?_⟩
  · rw [hmap, List.length_set, List.length_set]
    exact (List.perm_middle.trans (List.Perm.append_right free (swapRemove_perm ho))).trans h.perm
  · have hlen := length_swapRemove hlt
    have hi' : i < x.indexReverseMap.length - 1 := hlen ▸ (List.getElem?_eq_some_iff.mp hi).1
    replace hi : (swapRemove x.indexReverseMap o)[i]? = some a := hi
    rw [getElem?_swapRemove hlt hi', hlast] at hi
    rw [hmap]
    by_cases heq : i = o
    · rw [if_pos heq] at hi
      cases hi
      have hne : id ≠ last := fun hsame => by
        have hpos := hinj ho (hsame ▸ hlastAt)
        omega
      rw [List.getElem?_set_ne hne, List.getElem?_set_self hlastMap, heq]
    · rw [if_neg heq] at hi
      have hneId : id ≠ a := fun hsame => heq (hinj hi (hsame ▸ ho))
      have hneLast : last ≠ a := fun hsame => by
        have hpos := hinj hi (hsame ▸ hlastAt)
        omega
      rw [List.getElem?_set_ne hneId, List.getElem?_set_ne hneLast, h.offset i a hi]
  · refine ⟨rfl, x.freeListHead, ?_, ?_⟩
    · rw [hmap, List.getElem?_set_self (by rw [List.length_set]; exact hidMap)]
    · rw [hmap]
      exact (h.chain.set hlastFree).set hidFree
  · rw [hmap, List.length_set, List.length_set]
    exact h.bound

end IdIndex.Inv

structure StableIdMap.Represents {α : Type} (m : StableIdMap α) (f : Nat → Option α) : Prop where
  inv : ∃ free, m.index.Inv free
  length : m.index.indexReverseMap.length = m.objs.length
  rows : ∀ id a, f id = some a ↔ (id, a) ∈ m.index.indexReverseMap.zip m.objs

namespace StableIdMap.Represents

variable {α : Type} {m : StableIdMap α} {f : Nat → Option α}

section

variable (h : m.Represents f)
include h

theorem ids : (m.index.indexReverseMap.zip m.objs).map Prod.fst = m.index.indexReverseMap :=
  List.map_fst_zip h.length.le

theorem nodup : m.index.indexReverseMap.Nodup := by
  obtain ⟨free, hinv⟩ := h.inv
  exact (List.nodup_append.mp hinv.nodup).1

theorem eq_some_iff {id : Nat} {a : α} : f id = some a ↔
    ∃ o : Nat, m.index.indexReverseMap[o]? = some id ∧ m.objs[o]? = some a := by
  rw [h.rows, List.mem_iff_getElem?]
  exact exists_congr fun o => List.getElem?_zip_eq_some

theorem isSome_iff {id : Nat} :
    (f id).isSome = true ↔ ∃ o : Nat, m.index.indexReverseMap[o]? = some id := by
  rw [Option.isSome_iff_exists]
  constructor
  · rintro ⟨a, ha⟩
    obtain ⟨o, ho, -⟩ := h.eq_some_iff.mp ha
    exact ⟨o, ho⟩
  · rintro ⟨o, ho⟩
    have hlt : o < m.objs.length := h.length ▸ (List.getElem?_eq_some_iff.mp ho).1
    exact ⟨_, h.eq_some_iff.mpr ⟨o, ho, List.getElem?_eq_getElem hlt⟩⟩

theorem contains_eq (id : Nat) : m.index.contains id = (f id).isSome := by
  obtain ⟨free, hinv⟩ := h.inv
  rw [Bool.eq_iff_iff, hinv.contains_iff, h.isSome_iff]

theorem at?_eq (id : Nat) : m.at? id = f id := by
  obtain ⟨free, hinv⟩ := h.inv
  rw [StableIdMap.at?, h.contains_eq]
  cases hf : f id with
  | none => rfl
  | some a =>
    obtain ⟨o, ho, ha⟩ := h.eq_some_iff.mp hf
    rw [if_pos (show (some a).isSome = true from rfl), hinv.offset o id ho, Option.bind_some, ha]

theorem size_eq : m.size = Set.ncard {id | (f id).isSome = true} := by
  have hset : {id | (f id).isSome = true} = (m.index.indexReverseMap.toFinset : Set Nat) := by
    ext id
    rw [Set.mem_ofPred, h.isSome_iff, Finset.mem_coe, List.mem_toFinset, List.mem_iff_getElem?]
  rw [hset, Set.ncard_coe_finset, List.toFinset_card_of_nodup h.nodup, StableIdMap.size]

end

theorem empty : (StableIdMap.empty : StableIdMap α).Represents fun _ => none where
  inv := ⟨[], IdIndex.Inv.empty⟩
  length := rfl
  rows := fun _ _ => ⟨fun h => absurd h.symm (Option.some_ne_none _), fun h => absurd h List.not_mem_nil⟩

abbrev HasRoom (x : IdIndex) : Prop := x.indexMap.length ≤ x.freeListHead → x.indexMap.length + 1 < 2 ^ 32

theorem emplace (h : m.Represents f) (hroom : HasRoom m.index) (a : α) :
    f (m.emplace a).2 = none ∧ (m.emplace a).1.Represents (Function.update f (m.emplace a).2 (some a)) := by
  obtain ⟨free, hinv⟩ := h.inv
  have hgrow : free = [] → m.index.indexMap.length + 1 < 2 ^ 32 := by
    rintro rfl
    exact hroom (hinv.chain : m.index.freeListHead = _).ge
  obtain ⟨hfresh, hrev, hnext⟩ := hinv.emplace hgrow
  have hnone : f (m.emplace a).2 = none := by
    rw [← Option.not_isSome_iff_eq_none, h.isSome_iff]
    rintro ⟨o, ho⟩
    exact hfresh (List.mem_of_getElem? ho)
  refine ⟨hnone, ⟨_, hnext⟩, ?_, fun id b => ?_⟩
  · show m.index.emplace.1.indexReverseMap.length = (m.objs ++ [a]).length
    rw [hrev, List.length_append, List.length_append, h.length]
    rfl
  · show _ ↔ (id, b) ∈ m.index.emplace.1.indexReverseMap.zip (m.objs ++ [a])
    rw [hrev, List.zip_append h.length, List.mem_append, ← h.rows, List.zip_cons_cons, List.zip_nil_right,
      List.mem_singleton, Prod.mk.injEq]
    rw [StableIdMap.emplace] at hnone ⊢
    by_cases hid : id = m.index.emplace.2
    · subst hid
      rw [Function.update_self, hnone, Option.some.injEq]
      exact ⟨fun heq => .inr ⟨rfl, heq.symm⟩,
        fun hor => hor.elim (absurd ·.symm (Option.some_ne_none _)) fun heq => heq.2.symm⟩
    · rw [Function.update_of_ne hid]
      exact ⟨.inl, fun hor => hor.resolve_right fun heq => hid heq.1⟩

theorem erase_live (h : m.Represents f) {id o : Nat} (ho : m.index.indexReverseMap[o]? = some id) :
    m.erase id = (⟨m.index.release id o, swapRemove m.objs o⟩, true) ∧
      (m.erase id).1.Represents (Function.update f id none) := by
  obtain ⟨free, hinv⟩ := h.inv
  have herase : m.erase id = (⟨m.index.release id o, swapRemove m.objs o⟩, true) := by
    rw [StableIdMap.erase, hinv.offset?_of_live ho]
  refine ⟨herase, ?_⟩
  rw [herase]
  obtain ⟨hlt, -⟩ := List.getElem?_eq_some_iff.mp ho
  have hobj : o < m.objs.length := h.length ▸ hlt
  have hrow : (m.index.indexReverseMap.zip m.objs)[o]? = some (id, m.objs[o]) :=
    List.getElem?_zip_eq_some.mpr ⟨ho, List.getElem?_eq_getElem hobj⟩
  have hperm := swapRemove_perm hrow
  have hkeys : ((id, m.objs[o]) :: swapRemove (m.index.indexReverseMap.zip m.objs) o).map Prod.fst |>.Nodup :=
    (hperm.map Prod.fst).nodup_iff.mpr (by rw [h.ids]; exact h.nodup)
  refine ⟨⟨_, hinv.release ho⟩, ?_, fun id' b => ?_⟩
  · show (swapRemove m.index.indexReverseMap o).length = (swapRemove m.objs o).length
    rw [length_swapRemove hlt, length_swapRemove hobj, h.length]
  · show _ ↔ (id', b) ∈ (swapRemove m.index.indexReverseMap o).zip (swapRemove m.objs o)
    rw [← swapRemove_zip h.length]
    rw [List.map_cons, List.nodup_cons] at hkeys
    by_cases hid : id' = id
    · subst hid
      rw [Function.update_self]
      exact iff_of_false (Option.some_ne_none b ·.symm) fun hmem => hkeys.1 (List.mem_map.mpr ⟨(id', b), hmem, rfl⟩)
    · rw [Function.update_of_ne hid, h.rows, ← hperm.mem_iff, List.mem_cons]
      exact ⟨fun hor => hor.resolve_left fun heq => hid (congrArg Prod.fst heq), .inr⟩

/-- The id is in the map, or its entry of the index map is no offset of a row. -/
abbrev Erasable (x : IdIndex) (id : Nat) : Prop := x.contains id = true ∨ x.offset? id = none

theorem erase (h : m.Represents f) {id : Nat} (hid : Erasable m.index id) :
    (m.erase id).2 = (f id).isSome ∧ (m.erase id).1.Represents (Function.update f id none) ∧
      (f id = none → (m.erase id).1 = m) := by
  rcases hid with hlive | hnone
  · rw [h.contains_eq] at hlive
    obtain ⟨o, ho⟩ := h.isSome_iff.mp hlive
    obtain ⟨herase, hnext⟩ := h.erase_live ho
    refine ⟨?_, hnext, fun hf => ?_⟩
    · rw [herase, hlive]
    · rw [hf] at hlive
      cases hlive
  · have hsame : m.erase id = (m, false) := by rw [StableIdMap.erase, hnone]
    have habsent : f id = none := by
      rw [← Option.not_isSome_iff_eq_none, h.isSome_iff]
      rintro ⟨o, ho⟩
      obtain ⟨free, hinv⟩ := h.inv
      exact Option.some_ne_none o ((hinv.offset?_of_live ho).symm.trans hnone)
    rw [hsame, habsent, Function.update_eq_self_iff.mpr habsent.symm]
    exact ⟨rfl, h, fun _ => rfl⟩

end StableIdMap.Represents

/-! The map with the ids that it gives -/

structure StableIdMap.Models {α : Type} (m : StableIdMap α) (map : Ocudu.StableIdMap α) : Prop where
  inv : m.index.Inv map.free
  size : m.index.indexMap.length = map.size
  represents : m.Represents map.find?

namespace StableIdMap.Models

variable {α : Type} {m : StableIdMap α} {map : Ocudu.StableIdMap α}

theorem insert (h : m.Models map) (hroom : Represents.HasRoom m.index) (a : α) :
    (m.emplace a).2 = map.nextId ∧ (m.emplace a).1.Models (map.insert a) := by
  have hhead : m.index.freeListHead = map.nextId := by
    have hchain := h.inv.chain
    rw [Ocudu.StableIdMap.nextId]
    cases hfree : map.free <;> rw [hfree] at hchain
    · exact (hchain : _ = _).trans h.size
    · exact hchain.1
  have hgrow : map.free = [] → m.index.indexMap.length + 1 < 2 ^ 32 := fun hfree =>
    hroom ((hhead.trans (by rw [Ocudu.StableIdMap.nextId, hfree, h.size]; rfl)).ge)
  obtain ⟨-, hrev, hinv⟩ := h.inv.emplace hgrow
  obtain ⟨-, hrep⟩ := h.represents.emplace hroom a
  have hid : (m.emplace a).2 = map.nextId := by
    rw [← hhead, StableIdMap.emplace, IdIndex.emplace]
    split <;> rfl
  refine ⟨hid, hinv, ?_, ?_⟩
  · have hlen := h.inv.perm.length_eq
    have hlen' := hinv.perm.length_eq
    rw [hrev] at hlen'
    simp only [List.length_append, List.length_range, List.length_singleton, h.size] at hlen hlen'
    have hsize : (map.insert a).size = if map.free.isEmpty then map.size + 1 else map.size := rfl
    rw [StableIdMap.emplace, ← hlen', hsize]
    cases hfree : map.free <;> simp [hfree] at hlen ⊢ <;> omega
  · convert hrep using 1
    funext id
    rw [Ocudu.StableIdMap.find?_insert, hid, Function.update_apply]

theorem erase (h : m.Models map) {id : Nat} (hid : Represents.Erasable m.index id) :
    (m.erase id).2 = (map.find? id).isSome ∧ (m.erase id).1.Models (map.erase id) := by
  obtain ⟨hflag, hrep, hsame⟩ := h.represents.erase hid
  have hfind : Function.update map.find? id none = (map.erase id).find? := by
    funext id'
    rw [Ocudu.StableIdMap.find?_erase, Function.update_apply]
  have hfree : (map.erase id).free = if (map.find? id).isSome then id :: map.free else map.free := by
    have hmem : id ∈ map.objs.map Prod.fst ↔ (map.find? id).isSome = true := by
      simp [Option.isSome_iff_exists, Ocudu.StableIdMap.find?_eq_some]
    simp only [Ocudu.StableIdMap.erase, hmem]
  rw [hfind] at hrep
  refine ⟨hflag, ?_⟩
  cases hf : map.find? id with
  | none =>
    rw [hf] at hfree
    rw [hsame hf] at hrep ⊢
    exact ⟨hfree ▸ h.inv, h.size, hrep⟩
  | some a =>
    rw [hf] at hfree
    obtain ⟨o, ho⟩ := h.represents.isSome_iff.mp (by rw [hf]; rfl)
    rw [(h.represents.erase_live ho).1] at hrep ⊢
    refine ⟨hfree ▸ h.inv.release ho, ?_, hrep⟩
    rw [Ocudu.StableIdMap.size_erase, ← h.size]
    simp only [IdIndex.release]
    split_ifs <;> simp

end StableIdMap.Models

/-! The table: the columns of a map whose objects are rows -/

structure SoaTable.ColumnsOf {ι : Type} {β : ι → Type} (t : SoaTable β) (m : StableIdMap ((i : ι) → β i)) : Prop where
  index : t.index = m.index
  column : ∀ i, t.columns i = m.objs.map fun row => row i

namespace SoaTable.ColumnsOf

variable {ι : Type} {β : ι → Type} {t : SoaTable β} {m : StableIdMap ((i : ι) → β i)}

theorem at?_eq (h : t.ColumnsOf m) (i : ι) (id : Nat) : t.at? i id = (m.at? id).map fun row => row i := by
  rw [SoaTable.at?, StableIdMap.at?, h.index, h.column]
  split_ifs
  · cases m.index.indexMap[id]? with
    | none => rfl
    | some o =>
      rw [Option.bind_some, Option.bind_some, List.getElem?_map]
  · rfl

theorem insert (h : t.ColumnsOf m) (row : (i : ι) → β i) :
    (t.insert row).2 = (m.emplace row).2 ∧ (t.insert row).1.ColumnsOf (m.emplace row).1 := by
  refine ⟨congrArg (fun x : IdIndex => x.emplace.2) h.index, congrArg (fun x : IdIndex => x.emplace.1) h.index,
    fun i => ?_⟩
  show t.columns i ++ [row i] = (m.objs ++ [row]).map _
  rw [h.column, List.map_append]
  rfl

theorem erase (h : t.ColumnsOf m) (id : Nat) :
    (t.erase id).2 = (m.erase id).2 ∧ (t.erase id).1.ColumnsOf (m.erase id).1 := by
  rw [SoaTable.erase, StableIdMap.erase, h.index]
  cases ho : m.index.offset? id with
  | none => exact ⟨rfl, h⟩
  | some o =>
    refine ⟨rfl, rfl, fun i => ?_⟩
    show swapRemove (t.columns i) o = (swapRemove m.objs o).map _
    rw [h.column, swapRemove_map]

end SoaTable.ColumnsOf

/-! Operations with a log of what they return -/

section Log

variable {C F O R : Type}

def applyStep (apply : C → O → C × R) (s : C × List R) (op : O) : Except Unit (C × List R) :=
  .ok ((apply s.1 op).1, s.2 ++ [(apply s.1 op).2])

/-- An operation of what the container stands for, whose result joins the results before it. -/
def LogStep (spec : F → O → R → F → Prop) (op : O) (t t' : F × List R) : Prop :=
  ∃ out, t'.2 = t.2 ++ [out] ∧ spec t.1 op out t'.1

theorem logged_refines {apply : C → O → C × R} {spec : F → O → R → F → Prop} (adm : C → O → Prop)
    (rep : C → F → Prop)
    (happly : ∀ c f op, rep c f → adm c op → ∃ f', spec f op (apply c op).2 f' ∧ rep (apply c op).1 f')
    {c : C} {f : F} (hrep : rep c f) {ops : List O}
    (hadm : Admits (applyStep apply) (fun s op => adm s.1 op) (c, []) ops) :
    ∃ s t, run (applyStep apply) (c, []) ops = .ok s ∧ RelRun (LogStep spec) (f, []) ops t ∧ s.2 = t.2 := by
  have hrefines : ∃ s t, run (applyStep apply) (c, []) ops = .ok s ∧ RelRun (LogStep spec) (f, []) ops t ∧
      s.2 = t.2 ∧ rep s.1 t.1 := by
    refine run_refines (fun (s : C × List R) (t : F × List R) => s.2 = t.2 ∧ rep s.1 t.1) (fun s t op h hop => ?_)
      ⟨rfl, hrep⟩ hadm
    obtain ⟨f', hspec, hnext⟩ := happly s.1 t.1 op h.2 hop
    exact ⟨_, (f', t.2 ++ [(apply s.1 op).2]), rfl, ⟨_, rfl, hspec⟩, congrArg (· ++ _) h.1, hnext⟩
  obtain ⟨s, t, hrun, hrel, houts, -⟩ := hrefines
  exact ⟨s, t, hrun, hrel, houts⟩

end Log

inductive IdOp (α : Type)
  | insert (row : α)
  | erase (id : Nat)
  | clear
  | contains (id : Nat)
  | at (id : Nat)
  | size

/-- What an operation returns; `R` is what reading a row gives. -/
inductive IdOut (R : Type)
  | id (n : Nat)
  | flag (b : Bool)
  | row (r : R)
  | count (n : Nat)
  | done

section Runs

variable {α R : Type}

/-- The operations of a finite map from ids to rows, a row being read through `view`. -/
def MapSpec (view : Option α → R) (f : Nat → Option α) : IdOp α → IdOut R → (Nat → Option α) → Prop
  | .insert row, .id n, f' => f n = none ∧ f' = Function.update f n (some row)
  | .erase id, .flag b, f' => b = (f id).isSome ∧ f' = Function.update f id none
  | .clear, .done, f' => f' = fun _ => none
  | .contains id, .flag b, f' => b = (f id).isSome ∧ f' = f
  | .at id, .row r, f' => r = view (f id) ∧ f' = f
  | .size, .count n, f' => n = Set.ncard {id | (f id).isSome = true} ∧ f' = f
  | _, _, _ => False

def IdAdmissible (x : IdIndex) : IdOp α → Prop
  | .insert _ => StableIdMap.Represents.HasRoom x
  | .erase id => StableIdMap.Represents.Erasable x id
  | _ => True

def StableIdMap.apply (m : StableIdMap α) : IdOp α → StableIdMap α × IdOut (Option α)
  | .insert row => ((m.emplace row).1, .id (m.emplace row).2)
  | .erase id => ((m.erase id).1, .flag (m.erase id).2)
  | .clear => (m.clear, .done)
  | .contains id => (m, .flag (m.index.contains id))
  | .at id => (m, .row (m.at? id))
  | .size => (m, .count m.size)

def SoaTable.apply {ι : Type} {β : ι → Type} (t : SoaTable β) :
    IdOp ((i : ι) → β i) → SoaTable β × IdOut ((i : ι) → Option (β i))
  | .insert row => ((t.insert row).1, .id (t.insert row).2)
  | .erase id => ((t.erase id).1, .flag (t.erase id).2)
  | .clear => (t.clear, .done)
  | .contains id => (t, .flag (t.hasRowId id))
  | .at id => (t, .row fun i => t.at? i id)
  | .size => (t, .count t.size)

theorem StableIdMap.Represents.apply {m : StableIdMap α} {f : Nat → Option α} (h : m.Represents f) {op : IdOp α}
    (hop : IdAdmissible m.index op) :
    ∃ f', MapSpec (fun r => r) f op (m.apply op).2 f' ∧ (m.apply op).1.Represents f' := by
  cases op with
  | insert row =>
    obtain ⟨hnew, hnext⟩ := h.emplace hop row
    exact ⟨_, ⟨hnew, rfl⟩, hnext⟩
  | erase id =>
    obtain ⟨hflag, hnext, -⟩ := h.erase hop
    exact ⟨_, ⟨hflag, rfl⟩, hnext⟩
  | clear => exact ⟨_, rfl, .empty⟩
  | contains id => exact ⟨f, ⟨h.contains_eq id, rfl⟩, h⟩
  | «at» id => exact ⟨f, ⟨h.at?_eq id, rfl⟩, h⟩
  | size => exact ⟨f, ⟨h.size_eq, rfl⟩, h⟩

theorem SoaTable.ColumnsOf.apply {ι : Type} {β : ι → Type} {t : SoaTable β} {m : StableIdMap ((i : ι) → β i)}
    {f : Nat → Option ((i : ι) → β i)} (ht : t.ColumnsOf m) (h : m.Represents f) {op : IdOp ((i : ι) → β i)}
    (hop : IdAdmissible t.index op) : ∃ f', MapSpec (fun r i => r.map fun row => row i) f op (t.apply op).2 f' ∧
      ∃ m', (t.apply op).1.ColumnsOf m' ∧ m'.Represents f' := by
  rw [ht.index] at hop
  obtain ⟨f', hspec, hnext⟩ := h.apply hop
  cases op with
  | insert row =>
    obtain ⟨hid, hcols⟩ := ht.insert row
    refine ⟨f', ?_, _, hcols, hnext⟩
    rw [SoaTable.apply, hid]
    exact hspec
  | erase id =>
    obtain ⟨hflag, hcols⟩ := ht.erase id
    refine ⟨f', ?_, _, hcols, hnext⟩
    rw [SoaTable.apply, hflag]
    exact hspec
  | clear => exact ⟨f', hspec, _, ⟨rfl, fun _ => rfl⟩, hnext⟩
  | contains id => exact ⟨f', by rw [SoaTable.apply, SoaTable.hasRowId, ht.index]; exact hspec, m, ht, hnext⟩
  | «at» id =>
    refine ⟨f', ⟨?_, hspec.2⟩, m, ht, hnext⟩
    funext i
    rw [ht.at?_eq, ← h.at?_eq]
  | size => exact ⟨f', by rw [SoaTable.apply, SoaTable.size, ht.index]; exact hspec, m, ht, hnext⟩

end Runs

end Ocudu.Adt
