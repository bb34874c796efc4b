import Mathlib.Tactic

/-! Singly linked lists of cells in a memory: the cells that a pointer leads to, and what writing and allocating
cells does to them. -/

namespace Ocudu.LinkedHeap

/-- A cell that was freed is kept, so that its address is not used again. -/
structure Cell (α : Type*) where
  val : α
  next : Option Nat
  alive : Bool
  deriving DecidableEq

abbrev Heap (α : Type*) := List (Cell α)

variable {α : Type*} {h h' : Heap α} {p : Option Nat} {L L₁ L₂ : List (Nat × α)} {a b : Nat} {v v' : α}

/-- The cells from `p` on, each with its address and its value. -/
def Chain (h : Heap α) : Option Nat → List (Nat × α) → Prop
  | p, [] => p = none
  | p, (a, v) :: L => p = some a ∧ ∃ q, h[a]? = some ⟨v, q, true⟩ ∧ Chain h q L

def addrs (L : List (Nat × α)) : List Nat := L.map (·.1)

@[simp] theorem addrs_nil : addrs ([] : List (Nat × α)) = [] := rfl

@[simp] theorem addrs_cons (x : Nat × α) (L : List (Nat × α)) : addrs (x :: L) = x.1 :: addrs L := rfl

@[simp] theorem addrs_append (L₁ L₂ : List (Nat × α)) : addrs (L₁ ++ L₂) = addrs L₁ ++ addrs L₂ := List.map_append

theorem Chain.congr (hc : Chain h p L) (heq : ∀ a ∈ addrs L, h'[a]? = h[a]?) : Chain h' p L := by
  induction L generalizing p with
  | nil => exact hc
  | cons x L ih =>
    obtain ⟨hp, q, hcell, hrest⟩ := hc
    refine ⟨hp, q, ?_, ih hrest fun a ha => heq a (List.mem_cons_of_mem _ ha)⟩
    rw [heq _ List.mem_cons_self, hcell]

theorem Chain.cell (hc : Chain h p L) {x : Nat × α} (hx : x ∈ L) : ∃ q, h[x.1]? = some ⟨x.2, q, true⟩ := by
  induction L generalizing p with
  | nil => cases hx
  | cons y L ih =>
    obtain ⟨-, q, hcell, hrest⟩ := hc
    rcases List.mem_cons.mp hx with rfl | hx
    · exact ⟨q, hcell⟩
    · exact ih hrest hx

theorem Chain.lt (hc : Chain h p L) (ha : a ∈ addrs L) : a < h.length := by
  obtain ⟨x, hx, rfl⟩ := List.mem_map.mp ha
  obtain ⟨q, hcell⟩ := hc.cell hx
  exact (List.getElem?_eq_some_iff.mp hcell).1

theorem Chain.not_mem (hc : Chain h p L) : h.length ∉ addrs L := fun hmem => Nat.lt_irrefl _ (hc.lt hmem)

theorem Chain.alloc (hc : Chain h p L) (c : Cell α) : Chain (h ++ [c]) p L :=
  hc.congr fun _ ha => List.getElem?_append_left (hc.lt ha)

theorem Chain.set_other (hc : Chain h p L) (c : Cell α) (ha : a ∉ addrs L) : Chain (h.set a c) p L := by
  refine hc.congr fun b hb => List.getElem?_set_ne ?_
  rintro rfl
  exact ha hb

theorem set_cell {c : Cell α} (hcell : h[a]? = some c) : h.set a c = h := by
  obtain ⟨hlt, rfl⟩ := List.getElem?_eq_some_iff.mp hcell
  exact List.set_getElem_self hlt

theorem Chain.split (hc : Chain h p (L₁ ++ (a, v) :: L₂)) : ∃ q, h[a]? = some ⟨v, q, true⟩ ∧ Chain h q L₂ := by
  induction L₁ generalizing p with
  | nil => exact hc.2
  | cons x L₁ ih =>
    obtain ⟨-, q, -, hrest⟩ := hc
    exact ih hrest

theorem Chain.set (hc : Chain h p (L₁ ++ (a, v) :: L₂)) (ha : a ∉ addrs L₁) {q : Option Nat} {L : List (Nat × α)}
    (hrest : Chain h q L) (haL : a ∉ addrs L) (v' : α) : Chain (h.set a ⟨v', q, true⟩) p (L₁ ++ (a, v') :: L) := by
  induction L₁ generalizing p with
  | nil =>
    have hlt : a < h.length := hc.lt List.mem_cons_self
    exact ⟨hc.1, q, List.getElem?_set_self hlt, hrest.set_other _ haL⟩
  | cons x L₁ ih =>
    obtain ⟨hp, r, hcell, htail⟩ := hc
    have hne : a ≠ x.1 := fun heq => ha (heq ▸ List.mem_cons_self)
    refine ⟨hp, r, ?_, ih htail fun hmem => ha (List.mem_cons_of_mem _ hmem)⟩
    rw [List.getElem?_set_ne hne, hcell]

theorem Chain.setVal (hc : Chain h p (L₁ ++ (a, v) :: L₂)) (hnodup : (addrs (L₁ ++ (a, v) :: L₂)).Nodup) (v' : α) :
    ∃ q, h[a]? = some ⟨v, q, true⟩ ∧ Chain (h.set a ⟨v', q, true⟩) p (L₁ ++ (a, v') :: L₂) := by
  obtain ⟨q, hcell, hrest⟩ := hc.split
  rw [addrs_append, addrs_cons] at hnodup
  obtain ⟨-, hcons, hdisj⟩ := List.nodup_append.mp hnodup
  refine ⟨q, hcell, hc.set (fun hmem => hdisj _ hmem _ List.mem_cons_self rfl) hrest ?_ v'⟩
  exact (List.nodup_cons.mp hcons).1

theorem Chain.last (hc : Chain h p (L ++ [(a, v)])) : h[a]? = some ⟨v, none, true⟩ := by
  obtain ⟨q, hcell, hnone⟩ := hc.split
  rw [hcell, show q = none from hnone]

theorem Chain.sum_le (hc : Chain h p L) (hnodup : (addrs L).Nodup) (f : α → Nat) :
    (L.map fun x => f x.2).sum ≤ (h.map fun c => f c.val).sum := by
  have hsub : (addrs L).Subperm (List.range h.length) :=
    List.subperm_of_subset hnodup fun a ha => List.mem_range.mpr (hc.lt ha)
  have hg : (addrs L).map (fun a => (h[a]?.map fun c => f c.val).getD 0) = L.map fun x => f x.2 := by
    rw [addrs, List.map_map]
    refine List.map_congr_left fun x hx => ?_
    obtain ⟨q, hcell⟩ := hc.cell hx
    rw [Function.comp_apply, hcell]
    rfl
  have hh : (List.range h.length).map (fun a => (h[a]?.map fun c => f c.val).getD 0) = h.map fun c => f c.val := by
    refine List.ext_getElem (by rw [List.length_map, List.length_range, List.length_map]) fun i hi hi' => ?_
    rw [List.length_map] at hi'
    rw [List.getElem_map, List.getElem_map, List.getElem_range, List.getElem?_eq_getElem hi']
    rfl
  obtain ⟨M, hperm, hM⟩ := hsub
  calc (L.map fun x => f x.2).sum
      = (M.map fun a => (h[a]?.map fun c => f c.val).getD 0).sum := by rw [← hg, (hperm.map _).sum_eq]
    _ ≤ ((List.range h.length).map fun a => (h[a]?.map fun c => f c.val).getD 0).sum :=
      (hM.map _).sum_le_sum fun _ _ => Nat.zero_le _
    _ = (h.map fun c => f c.val).sum := by rw [hh]

theorem Chain.length_le (hc : Chain h p L) (hnodup : (addrs L).Nodup) : L.length ≤ h.length := by
  have hle := hc.sum_le hnodup fun _ => 1
  rwa [List.map_const', List.sum_replicate, List.map_const', List.sum_replicate, smul_eq_mul, smul_eq_mul,
    Nat.mul_one, Nat.mul_one] at hle

/-- What an operation on one list leaves as it was: all cells that were there and are not of the list. -/
structure Frame (h : Heap α) (L : List (Nat × α)) (h' : Heap α) (L' : List (Nat × α)) : Prop where
  length_le : h.length ≤ h'.length
  frame : ∀ a < h.length, a ∉ addrs L → h'[a]? = h[a]?
  addrs : ∀ a ∈ addrs L', a ∈ addrs L ∨ h.length ≤ a

theorem Frame.refl (h : Heap α) (L : List (Nat × α)) : Frame h L h L :=
  ⟨Nat.le_refl _, fun _ _ _ => rfl, fun _ ha => .inl ha⟩

theorem Frame.trans {h'' : Heap α} {L' L'' : List (Nat × α)} (f : Frame h L h' L') (g : Frame h' L' h'' L'') :
    Frame h L h'' L'' where
  length_le := Nat.le_trans f.length_le g.length_le
  frame := by
    intro a hlt ha
    rw [g.frame a (Nat.lt_of_lt_of_le hlt f.length_le), f.frame a hlt ha]
    intro hmem
    rcases f.addrs a hmem with hmem | hle
    · exact ha hmem
    · exact absurd hlt (Nat.not_lt.mpr hle)
  addrs := by
    intro a ha
    rcases g.addrs a ha with hmem | hle
    · exact f.addrs a hmem
    · exact .inr (Nat.le_trans f.length_le hle)

theorem Frame.alloc (h : Heap α) (L : List (Nat × α)) (c : Cell α) (v : α) :
    Frame h L (h ++ [c]) (L ++ [(h.length, v)]) where
  length_le := by
    rw [List.length_append]
    exact Nat.le_add_right _ _
  frame := fun _ hlt _ => List.getElem?_append_left hlt
  addrs := by
    intro a ha
    rw [addrs_append] at ha
    rcases List.mem_append.mp ha with ha | ha
    · exact .inl ha
    · exact .inr (Nat.le_of_eq (List.mem_singleton.mp ha).symm)

theorem Frame.set {L' : List (Nat × α)} (ha : a ∈ LinkedHeap.addrs L) (hL' : LinkedHeap.addrs L' = LinkedHeap.addrs L)
    (c : Cell α) : Frame h L (h.set a c) L' where
  length_le := Nat.le_of_eq List.length_set.symm
  frame := by
    intro b _ hb
    refine List.getElem?_set_ne ?_
    rintro rfl
    exact hb ha
  addrs := fun b hb => .inl (hL' ▸ hb)

def free (h : Heap α) (a : Nat) : Heap α := h.modify a fun c => { c with alive := false }

def freeAll (h : Heap α) (as : List Nat) : Heap α := as.foldl free h

theorem getElem?_free_ne (hab : a ≠ b) : (free h a)[b]? = h[b]? := by
  rw [free, List.getElem?_modify]
  simp only [if_neg hab]
  exact Option.map_id'

theorem free_set (hab : a ≠ b) (c : Cell α) : free (h.set b c) a = (free h a).set b c := by
  refine List.ext_getElem? fun i => ?_
  by_cases hi : b = i
  · subst hi
    rw [getElem?_free_ne hab, List.getElem?_set, List.getElem?_set, free, List.length_modify, if_pos rfl, if_pos rfl]
  · rw [List.getElem?_set_ne hi, free, free, List.getElem?_modify, List.getElem?_modify, List.getElem?_set_ne hi]

@[simp] theorem length_free : (free h a).length = h.length := List.length_modify _ _ _

@[simp] theorem length_freeAll (as : List Nat) : (freeAll h as).length = h.length := by
  induction as generalizing h with
  | nil => rfl
  | cons a as ih => exact ih.trans length_free

theorem getElem?_freeAll {as : List Nat} (hb : b ∉ as) : (freeAll h as)[b]? = h[b]? := by
  induction as generalizing h with
  | nil => rfl
  | cons a as ih =>
    have hne : a ≠ b := fun heq => hb (heq ▸ List.mem_cons_self)
    exact (ih fun hmem => hb (List.mem_cons_of_mem _ hmem)).trans (getElem?_free_ne hne)

theorem Chain.free (hc : Chain h p L) (ha : a ∉ addrs L) : Chain (free h a) p L :=
  hc.congr fun _ hb => getElem?_free_ne fun heq => ha (heq ▸ hb)

/-! Lists with a head and a tail pointer -/

/-- `head` leads to the cells, which are different ones, and `tail` points to the last of them. -/
structure Listed (h : Heap α) (head tail : Option Nat) (L : List (Nat × α)) : Prop where
  chain : Chain h head L
  nodup : (addrs L).Nodup
  tail : tail = (addrs L).getLast?

namespace Listed

variable {head tail : Option Nat}

theorem head_eq (hl : Listed h head tail L) : head = (addrs L).head? := by
  have hchain := hl.chain
  cases L with
  | nil => exact hchain
  | cons x L => exact hchain.1

theorem single (h : Heap α) (c : α) :
    Listed (h ++ [(⟨c, none, true⟩ : Cell α)]) (some h.length) (some h.length) [(h.length, c)] where
  chain := ⟨rfl, none, List.getElem?_concat_length, rfl⟩
  nodup := List.nodup_singleton _
  tail := rfl

theorem pushFront (hl : Listed h head tail L) (c : α) :
    Listed (h ++ [⟨c, head, true⟩]) (some h.length) (tail.or (some h.length)) ((h.length, c) :: L) where
  chain := ⟨rfl, head, List.getElem?_concat_length, hl.chain.alloc _⟩
  nodup := List.nodup_cons.mpr ⟨hl.chain.not_mem, hl.nodup⟩
  tail := by
    rw [hl.tail, addrs_cons]
    cases addrs L with
    | nil => rfl
    | cons b as =>
      rw [List.getLast?_cons_cons, List.getLast?_eq_some_getLast (List.cons_ne_nil b as)]
      rfl

theorem pushBack (hl : Listed h head tail (L ++ [(a, v)])) (c : α) :
    Listed (List.set (h ++ [⟨c, none, true⟩]) a ⟨v, some h.length, true⟩) head (some h.length)
      (L ++ (a, v) :: [(h.length, c)]) where
  chain := by
    have hnodup := hl.nodup
    rw [addrs_append] at hnodup
    have ha : a ∉ addrs L := fun hmem => (List.nodup_append.mp hnodup).2.2 a hmem a List.mem_cons_self rfl
    have hlt : a < h.length := hl.chain.lt (by simp)
    have hnew : Chain (h ++ [⟨c, none, true⟩]) (some h.length) [(h.length, c)] :=
      ⟨rfl, none, List.getElem?_concat_length, rfl⟩
    refine (hl.chain.alloc _).set ha hnew ?_ v
    rw [addrs_cons, addrs_nil, List.mem_singleton]
    exact Nat.ne_of_lt hlt
  nodup := by
    have hnot := hl.chain.not_mem
    have hnodup := hl.nodup
    rw [addrs_append] at hnot hnodup
    rw [addrs_append, addrs_cons, ← List.singleton_append, ← List.append_assoc]
    refine List.nodup_append.mpr ⟨hnodup, List.nodup_singleton _, ?_⟩
    intro b hb b' hb' heq
    rw [heq, List.mem_singleton.mp hb'] at hb
    exact hnot hb
  tail := by
    rw [addrs_append, List.getLast?_append]
    rfl

theorem setVal (hl : Listed h head tail (L₁ ++ (a, v) :: L₂)) (v' : α) :
    ∃ q, h[a]? = some ⟨v, q, true⟩ ∧ Listed (h.set a ⟨v', q, true⟩) head tail (L₁ ++ (a, v') :: L₂) := by
  obtain ⟨q, hcell, hchain⟩ := hl.chain.setVal hl.nodup v'
  have haddrs : addrs (L₁ ++ (a, v') :: L₂) = addrs (L₁ ++ (a, v) :: L₂) := by
    rw [addrs_append, addrs_append, addrs_cons, addrs_cons]
  exact ⟨q, hcell, hchain, haddrs ▸ hl.nodup, haddrs ▸ hl.tail⟩

theorem popFront (hl : Listed h head tail ((a, v) :: L)) (hL : L ≠ []) :
    ∃ q, h[a]? = some ⟨v, q, true⟩ ∧ Listed (free h a) q tail L := by
  obtain ⟨-, q, hcell, hrest⟩ := hl.chain
  obtain ⟨ha, hnodup⟩ := List.nodup_cons.mp hl.nodup
  refine ⟨q, hcell, hrest.free ha, hnodup, ?_⟩
  rw [hl.tail, addrs_cons]
  cases L with
  | nil => exact absurd rfl hL
  | cons x L => exact List.getLast?_cons_cons

theorem cut (hl : Listed h head tail (L₁ ++ (a, v) :: L₂)) (v' : α) :
    Listed ((freeAll h (addrs L₂)).set a ⟨v', none, true⟩) head (some a) (L₁ ++ [(a, v')]) where
  chain := by
    have hnodup := hl.nodup
    rw [addrs_append] at hnodup
    obtain ⟨-, hcons, hdisj⟩ := List.nodup_append.mp hnodup
    have ha : a ∉ addrs L₁ := fun hmem => hdisj a hmem a List.mem_cons_self rfl
    have hcut : Chain (h.set a ⟨v', none, true⟩) head (L₁ ++ [(a, v')]) :=
      hl.chain.set (q := none) (L := []) ha rfl List.not_mem_nil v'
    refine hcut.congr fun b hb => ?_
    rw [addrs_append] at hb
    rcases List.mem_append.mp hb with hb | hb
    · have hne : a ≠ b := fun heq => ha (heq ▸ hb)
      rw [List.getElem?_set_ne hne, List.getElem?_set_ne hne]
      exact getElem?_freeAll fun hmem => hdisj b hb b (List.mem_cons_of_mem _ hmem) rfl
    · have heq : b = a := List.mem_singleton.mp hb
      have hlt : a < h.length := hl.chain.lt (by simp)
      rw [heq, List.getElem?_set_self hlt, List.getElem?_set_self (by rwa [length_freeAll])]
  nodup := by
    have hnodup := hl.nodup
    rw [addrs_append, addrs_cons, ← List.singleton_append, ← List.append_assoc] at hnodup
    rw [addrs_append]
    exact (List.nodup_append.mp hnodup).1
  tail := by
    rw [addrs_append, List.getLast?_append]
    rfl

end Listed

end Ocudu.LinkedHeap
