import Ocudu.Basic.Machine

/-! `ue_repository.cpp` and `ue_cell_repository.cpp`: the contexts of a UE in the repositories of its
serving cells, the lookup of the UE that points to them, and what a reconfiguration does to both. -/

namespace Ocudu.Sched

structure UeConfiguration where
  ueIndex : Nat
  crnti : Nat
  cells : List Nat
  nonempty : cells ≠ []
  nodup : cells.Nodup

namespace UeConfiguration

variable (cfg : UeConfiguration)

def contains (cellIndex : Nat) : Bool := cfg.cells.contains cellIndex

end UeConfiguration

/-- A pointer to the context of a UE in a cell; a context that was removed is never created again. -/
structure UeCellPtr where
  cellIndex : Nat
  context : Nat

structure UeCellRepository where
  ues : Nat → Option Nat
  rntiToUeIndexLookup : Nat → Option Nat

structure UeCellLookup where
  duCells : Nat → Option UeCellPtr
  ueCells : List UeCellPtr

structure UeRepository where
  cellUes : Nat → Option UeCellRepository
  ueCellLookups : Nat → Option UeCellLookup
  nextContext : Nat

inductive UeRepositoryFault
  | ueNotFound
  | cellNotFound
  | servCellIndex
  | pcellRemoval
  /-- A UE or a RNTI is added that the cell already has. -/
  | duplicate

namespace UeCellLookup

def empty : UeCellLookup := ⟨fun _ => none, []⟩

def push (lookup : UeCellLookup) (ptr : UeCellPtr) : UeCellLookup where
  duCells := Function.update lookup.duCells ptr.cellIndex (some ptr)
  ueCells := lookup.ueCells ++ [ptr]

end UeCellLookup

namespace UeRepository

variable (s : UeRepository)

def setCell (cellIndex : Nat) (repo : UeCellRepository) : UeRepository :=
  { s with cellUes := Function.update s.cellUes cellIndex (some repo) }

variable (cfg : UeConfiguration)

def addUeCell (cellIndex : Nat) :
    Except UeRepositoryFault (UeRepository × UeCellPtr) :=
  match s.cellUes cellIndex with
  | none => .error .cellNotFound
  | some repo =>
    if (repo.ues cfg.ueIndex).isSome ∨ (repo.rntiToUeIndexLookup cfg.crnti).isSome then .error .duplicate
    else .ok ({ s.setCell cellIndex {
        ues := Function.update repo.ues cfg.ueIndex (some s.nextContext)
        rntiToUeIndexLookup := Function.update repo.rntiToUeIndexLookup cfg.crnti (some cfg.ueIndex) }
      with nextContext := s.nextContext + 1 }, ⟨cellIndex, s.nextContext⟩)

def remUeCell (cellIndex : Nat) : Except UeRepositoryFault UeRepository :=
  match s.cellUes cellIndex with
  | none => .error .cellNotFound
  | some repo =>
    if (repo.ues cfg.ueIndex).isNone then .error .ueNotFound
    else .ok (s.setCell cellIndex {
      ues := Function.update repo.ues cfg.ueIndex none
      rntiToUeIndexLookup := Function.update repo.rntiToUeIndexLookup cfg.crnti none })

def cellRemoved (i cellIndex : Nat) : Except UeRepositoryFault Bool :=
  if cfg.contains cellIndex = false then .ok true
  else match cfg.cells[i]? with
    | none => .error .servCellIndex
    | some newCellIndex => .ok (newCellIndex != cellIndex)

def removeCell (i cellIndex : Nat) : Except UeRepositoryFault UeRepository := do
  if ← cellRemoved cfg i cellIndex then
    if i = 0 then .error .pcellRemoval else s.remUeCell cfg cellIndex
  else .ok s

def removeCells (s : UeRepository) (cfg : UeConfiguration) : Nat → List Nat →
    Except UeRepositoryFault UeRepository
  | _, [] => .ok s
  | i, cellIndex :: cells => do
    let s ← s.removeCell cfg i cellIndex
    removeCells s cfg (i + 1) cells

/-- A new cell is added; the context of one that the UE had is reconfigured. -/
def configureCell (prev : UeCellLookup) (cellIndex : Nat) :
    Except UeRepositoryFault (UeRepository × UeCellPtr) :=
  match prev.duCells cellIndex with
  | none => s.addUeCell cfg cellIndex
  | some ptr => .ok (s, ptr)

/-- The second loop of `reconfigure_ue`, over the cells of the new configuration. -/
def configureCells (s : UeRepository) (cfg : UeConfiguration) (prev lookup : UeCellLookup) :
    List Nat → Except UeRepositoryFault (UeRepository × UeCellLookup)
  | [] => .ok (s, lookup)
  | cellIndex :: cells => do
    let (s, ptr) ← s.configureCell cfg prev cellIndex
    configureCells s cfg prev (lookup.push ptr) cells

def reconfigureUe : Except UeRepositoryFault UeRepository :=
  match s.ueCellLookups cfg.ueIndex with
  | none => .error .ueNotFound
  | some prev => do
    let s ← s.removeCells cfg 0 (prev.ueCells.map (·.cellIndex))
    let (s, lookup) ← s.configureCells cfg prev .empty cfg.cells
    return { s with ueCellLookups := Function.update s.ueCellLookups cfg.ueIndex (some lookup) }

def context (cellIndex ueIndex : Nat) : Option Nat := (s.cellUes cellIndex).bind (·.ues ueIndex)

def ueOfRnti (cellIndex crnti : Nat) : Option Nat :=
  (s.cellUes cellIndex).bind (·.rntiToUeIndexLookup crnti)

/-- The UE is registered in the repositories of these cells and no others, and its lookup lists
their contexts in this order. -/
structure ServedBy (ueIndex crnti : Nat) (cells : List Nat) (lookup : UeCellLookup) : Prop where
  lookups : s.ueCellLookups ueIndex = some lookup
  nodup : cells.Nodup
  order : lookup.ueCells.map (·.cellIndex) = cells
  duCells : ∀ cellIndex, lookup.duCells cellIndex = lookup.ueCells.find? (·.cellIndex == cellIndex)
  contexts : ∀ ptr ∈ lookup.ueCells, s.context ptr.cellIndex ueIndex = some ptr.context
  registered : ∀ cellIndex, (s.context cellIndex ueIndex).isSome ↔ cellIndex ∈ cells
  rntis : ∀ cellIndex, s.ueOfRnti cellIndex crnti = if cellIndex ∈ cells then some ueIndex else none

end UeRepository

def KeepsServCellIndex (cells newCells : List Nat) : Prop :=
  ∀ (i : Nat) (cellIndex : Nat), cells[i]? = some cellIndex → cellIndex ∈ newCells →
    newCells[i]? = some cellIndex

namespace UeRepository

variable {s s' : UeRepository} {cfg : UeConfiguration}

structure Sets (s s' : UeRepository) (cfg : UeConfiguration) (cellIndex : Nat)
    (context ue : Option Nat) : Prop where
  contexts : ∀ c, s'.context c cfg.ueIndex = if c = cellIndex then context else s.context c cfg.ueIndex
  rntis : ∀ c, s'.ueOfRnti c cfg.crnti = if c = cellIndex then ue else s.ueOfRnti c cfg.crnti
  cellUes : ∀ c, (s'.cellUes c).isSome = (s.cellUes c).isSome

theorem sets_setCell (cfg : UeConfiguration) {cellIndex : Nat} {repo : UeCellRepository}
    (repo' : UeCellRepository) (h : s.cellUes cellIndex = some repo) :
    s.Sets (s.setCell cellIndex repo') cfg cellIndex (repo'.ues cfg.ueIndex)
      (repo'.rntiToUeIndexLookup cfg.crnti) where
  contexts c := by
    by_cases hc : c = cellIndex
    · simp [context, setCell, hc]
    · simp [context, setCell, hc]
  rntis c := by
    by_cases hc : c = cellIndex
    · simp [ueOfRnti, setCell, hc]
    · simp [ueOfRnti, setCell, hc]
  cellUes c := by
    by_cases hc : c = cellIndex
    · simp [setCell, hc, h]
    · simp [setCell, hc]

theorem addUeCell_ok {cellIndex : Nat} {ptr : UeCellPtr} (h : s.addUeCell cfg cellIndex = .ok (s', ptr)) :
    s.Sets s' cfg cellIndex (some ptr.context) (some cfg.ueIndex) ∧ ptr.cellIndex = cellIndex ∧
      s'.ueCellLookups = s.ueCellLookups := by
  unfold addUeCell at h
  cases hrepo : s.cellUes cellIndex with
  | none => simp [hrepo] at h
  | some repo =>
    simp only [hrepo] at h
    split at h
    · cases h
    · cases h
      have hsets := sets_setCell cfg {
        ues := Function.update repo.ues cfg.ueIndex (some s.nextContext)
        rntiToUeIndexLookup := Function.update repo.rntiToUeIndexLookup cfg.crnti (some cfg.ueIndex) } hrepo
      simp only [Function.update_self] at hsets
      exact ⟨⟨hsets.contexts, hsets.rntis, hsets.cellUes⟩, rfl, rfl⟩

theorem addUeCell_total {cellIndex : Nat} (hcell : (s.cellUes cellIndex).isSome = true)
    (hcontext : s.context cellIndex cfg.ueIndex = none) (hrnti : s.ueOfRnti cellIndex cfg.crnti = none) :
    ∃ s' ptr, s.addUeCell cfg cellIndex = .ok (s', ptr) := by
  obtain ⟨repo, hrepo⟩ := Option.isSome_iff_exists.mp hcell
  have hue : repo.ues cfg.ueIndex = none := by simpa [context, hrepo] using hcontext
  have hno : repo.rntiToUeIndexLookup cfg.crnti = none := by simpa [ueOfRnti, hrepo] using hrnti
  simp [addUeCell, hrepo, hue, hno]

theorem remUeCell_ok {cellIndex : Nat} (h : s.remUeCell cfg cellIndex = .ok s') :
    s.Sets s' cfg cellIndex none none ∧ s'.ueCellLookups = s.ueCellLookups := by
  unfold remUeCell at h
  cases hrepo : s.cellUes cellIndex with
  | none => simp [hrepo] at h
  | some repo =>
    simp only [hrepo] at h
    split at h
    · cases h
    · cases h
      have hsets := sets_setCell cfg {
        ues := Function.update repo.ues cfg.ueIndex none
        rntiToUeIndexLookup := Function.update repo.rntiToUeIndexLookup cfg.crnti none } hrepo
      simp only [Function.update_self] at hsets
      exact ⟨hsets, rfl⟩

theorem remUeCell_total {cellIndex : Nat} (h : (s.context cellIndex cfg.ueIndex).isSome = true) :
    ∃ s', s.remUeCell cfg cellIndex = .ok s' := by
  unfold remUeCell
  cases hrepo : s.cellUes cellIndex with
  | none => simp [context, hrepo] at h
  | some repo =>
    have hue : (repo.ues cfg.ueIndex).isNone = false := by
      simpa [context, hrepo, Option.isSome_iff_ne_none] using h
    simp [hue]

/-! The loop over the cells that the UE had -/

def Moved (cfg : UeConfiguration) (i cellIndex : Nat) : Prop := cfg.cells[i]? ≠ some cellIndex

theorem cellRemoved_ok {i cellIndex : Nat} {removed : Bool}
    (h : cellRemoved cfg i cellIndex = .ok removed) : removed = true ↔ Moved cfg i cellIndex := by
  unfold cellRemoved at h
  unfold Moved
  split at h
  · rename_i hcontains
    cases h
    simp only [true_iff]
    intro hget
    have hmem : cellIndex ∈ cfg.cells := List.mem_of_getElem? hget
    simp [UeConfiguration.contains, hmem] at hcontains
  · cases hget : cfg.cells[i]? with
    | none => simp [hget] at h
    | some newCellIndex =>
      simp only [hget, Except.ok.injEq] at h
      subst h
      simp

theorem cellRemoved_of_not_mem {i cellIndex : Nat} (h : cellIndex ∉ cfg.cells) :
    cellRemoved cfg i cellIndex = .ok true := by
  simp [cellRemoved, UeConfiguration.contains, h]

theorem cellRemoved_of_getElem? {i cellIndex : Nat} (h : cfg.cells[i]? = some cellIndex) :
    cellRemoved cfg i cellIndex = .ok false := by
  have hmem : cellIndex ∈ cfg.cells := List.mem_of_getElem? h
  simp [cellRemoved, UeConfiguration.contains, hmem, h]

theorem removeCell_ok {i cellIndex : Nat} (h : s.removeCell cfg i cellIndex = .ok s') :
    Moved cfg i cellIndex ∧ s.Sets s' cfg cellIndex none none ∧ s'.ueCellLookups = s.ueCellLookups ∨
      ¬Moved cfg i cellIndex ∧ s' = s := by
  unfold removeCell at h
  obtain ⟨removed, hremoved, h⟩ := bind_eq_ok.mp h
  have hmoved := cellRemoved_ok hremoved
  cases removed with
  | true =>
    simp only [if_true] at h
    split at h
    · cases h
    · exact .inl ⟨hmoved.mp rfl, remUeCell_ok h⟩
  | false =>
    simp only [Bool.false_eq_true, if_false, Except.ok.injEq] at h
    exact .inr ⟨fun hm => Bool.false_ne_true (hmoved.mpr hm), h.symm⟩

def MovedFrom (cfg : UeConfiguration) (c : Nat) : Nat → List Nat → Prop
  | _, [] => False
  | i, cellIndex :: cells => cellIndex = c ∧ Moved cfg i c ∨ MovedFrom cfg c (i + 1) cells

theorem movedFrom_iff {c i : Nat} {cells : List Nat} :
    MovedFrom cfg c i cells ↔ ∃ j, cells[j]? = some c ∧ Moved cfg (i + j) c := by
  induction cells generalizing i with
  | nil => simp [MovedFrom]
  | cons cellIndex cells ih =>
    rw [MovedFrom, ih]
    constructor
    · rintro (⟨rfl, h⟩ | ⟨j, hj, h⟩)
      · exact ⟨0, rfl, h⟩
      · exact ⟨j + 1, hj, by rwa [Nat.add_assoc, Nat.add_comm 1] at h⟩
    · rintro ⟨j, hj, h⟩
      cases j with
      | zero => exact .inl ⟨by simpa using hj, h⟩
      | succ j => exact .inr ⟨j, hj, by rwa [Nat.add_assoc, Nat.add_comm 1]⟩

theorem removeCells_ok {i : Nat} {cells : List Nat} (h : s.removeCells cfg i cells = .ok s') (c : Nat) :
    (MovedFrom cfg c i cells → s'.context c cfg.ueIndex = none ∧ s'.ueOfRnti c cfg.crnti = none) ∧
    (¬MovedFrom cfg c i cells → s'.context c cfg.ueIndex = s.context c cfg.ueIndex ∧
      s'.ueOfRnti c cfg.crnti = s.ueOfRnti c cfg.crnti) ∧
    (s'.cellUes c).isSome = (s.cellUes c).isSome ∧ s'.ueCellLookups = s.ueCellLookups := by
  induction cells generalizing s i with
  | nil =>
    cases h
    exact ⟨False.elim, fun _ => ⟨rfl, rfl⟩, rfl, rfl⟩
  | cons cellIndex cells ih =>
    obtain ⟨t, ht, h⟩ := bind_eq_ok.mp h
    obtain ⟨hmoved, hstays, hcells, hlookups⟩ := ih h
    rcases removeCell_ok ht with ⟨hm, hsets, hlook⟩ | ⟨hm, rfl⟩
    · refine ⟨fun hc => ?_, fun hc => ?_, hcells.trans (hsets.cellUes c), hlookups.trans hlook⟩
      · by_cases hlater : MovedFrom cfg c (i + 1) cells
        · exact hmoved hlater
        · rcases hc with ⟨rfl, -⟩ | hc
          · rw [(hstays hlater).1, (hstays hlater).2, hsets.contexts, hsets.rntis, if_pos rfl, if_pos rfl]
            exact ⟨rfl, rfl⟩
          · exact absurd hc hlater
      · rw [MovedFrom, not_or] at hc
        have hne : c ≠ cellIndex := fun heq => hc.1 ⟨heq.symm, heq ▸ hm⟩
        rw [(hstays hc.2).1, (hstays hc.2).2, hsets.contexts, hsets.rntis, if_neg hne, if_neg hne]
        exact ⟨rfl, rfl⟩
    · refine ⟨fun hc => ?_, fun hc => ?_, hcells, hlookups⟩
      · rcases hc with ⟨rfl, hm'⟩ | hc
        · exact absurd hm' hm
        · exact hmoved hc
      · rw [MovedFrom, not_or] at hc
        exact hstays hc.2

theorem removeCells_total {i : Nat} {cells : List Nat} (hnodup : cells.Nodup)
    (hcontext : ∀ c ∈ cells, (s.context c cfg.ueIndex).isSome = true)
    (hkeeps : ∀ (j : Nat) (c : Nat), cells[j]? = some c → c ∈ cfg.cells → cfg.cells[i + j]? = some c)
    (hpcell : ∀ c ∈ cells.head?, i = 0 → c ∈ cfg.cells) :
    ∃ s', s.removeCells cfg i cells = .ok s' := by
  induction cells generalizing s i with
  | nil => exact ⟨s, rfl⟩
  | cons cellIndex cells ih =>
    obtain ⟨hnot, hnodup⟩ := List.nodup_cons.mp hnodup
    have hkeeps' : ∀ (j : Nat) (c : Nat), cells[j]? = some c → c ∈ cfg.cells →
        cfg.cells[i + 1 + j]? = some c := by
      intro j c hj hc
      rw [Nat.add_assoc, Nat.add_comm 1]
      exact hkeeps (j + 1) c hj hc
    have hcons {t : UeRepository} (ht : s.removeCell cfg i cellIndex = .ok t)
        (hcontext' : ∀ c ∈ cells, (t.context c cfg.ueIndex).isSome = true) :
        ∃ s', s.removeCells cfg i (cellIndex :: cells) = .ok s' := by
      obtain ⟨s', hs'⟩ := ih hnodup hcontext' hkeeps' (by simp)
      exact ⟨s', by rw [removeCells, ht]; exact hs'⟩
    by_cases hmem : cellIndex ∈ cfg.cells
    · have hget : cfg.cells[i]? = some cellIndex := hkeeps 0 cellIndex rfl hmem
      exact hcons (t := s) (by simp [removeCell, cellRemoved_of_getElem? hget])
        fun c hc => hcontext c (List.mem_cons_of_mem _ hc)
    · have hi : i ≠ 0 := fun hi => hmem (hpcell cellIndex rfl hi)
      obtain ⟨t, ht⟩ := remUeCell_total (hcontext cellIndex List.mem_cons_self)
      refine hcons (t := t) (by simp [removeCell, cellRemoved_of_not_mem hmem, hi, ht]) fun c hc => ?_
      have hne : c ≠ cellIndex := fun heq => hnot (heq ▸ hc)
      rw [(remUeCell_ok ht).1.contexts, if_neg hne]
      exact hcontext c (List.mem_cons_of_mem _ hc)

/-! The loop over the cells of the new configuration -/

theorem configureCells_context {prev lookup lookup' : UeCellLookup} {cells : List Nat} {c : Nat}
    (h : s.configureCells cfg prev lookup cells = .ok (s', lookup')) (hc : prev.duCells c ≠ none) :
    s'.context c cfg.ueIndex = s.context c cfg.ueIndex := by
  induction cells generalizing s lookup with
  | nil =>
    cases h
    rfl
  | cons cellIndex cells ih =>
    obtain ⟨⟨t, ptr⟩, ht, h⟩ := bind_eq_ok.mp h
    rw [ih h]
    unfold configureCell at ht
    cases hd : prev.duCells cellIndex with
    | some ptr' =>
      simp only [hd] at ht
      cases ht
      rfl
    | none =>
      simp only [hd] at ht
      have hne : c ≠ cellIndex := fun heq => hc (heq ▸ hd)
      rw [(addUeCell_ok ht).1.contexts, if_neg hne]

/-- The state of the loop after the cells `done`: the UE is registered in them and in the cells that
it had and keeps. -/
structure Configured (s : UeRepository) (cfg : UeConfiguration) (prev : UeCellLookup) (done : List Nat)
    (lookup : UeCellLookup) : Prop where
  order : lookup.ueCells.map (·.cellIndex) = done
  duCells : ∀ c, lookup.duCells c = lookup.ueCells.find? (·.cellIndex == c)
  contexts : ∀ ptr ∈ lookup.ueCells, s.context ptr.cellIndex cfg.ueIndex = some ptr.context
  previous : ∀ c ptr, prev.duCells c = some ptr → c ∈ cfg.cells →
    ptr.cellIndex = c ∧ s.context c cfg.ueIndex = some ptr.context
  registered : ∀ c, (s.context c cfg.ueIndex).isSome ↔
    c ∈ done ∨ prev.duCells c ≠ none ∧ c ∈ cfg.cells
  rntis : ∀ c, s.ueOfRnti c cfg.crnti =
    if (s.context c cfg.ueIndex).isSome then some cfg.ueIndex else none

theorem find?_push {lookup : UeCellLookup} {done : List Nat} {ptr : UeCellPtr}
    (horder : lookup.ueCells.map (·.cellIndex) = done) (hnot : ptr.cellIndex ∉ done)
    (hdu : ∀ c, lookup.duCells c = lookup.ueCells.find? (·.cellIndex == c)) (c : Nat) :
    (lookup.push ptr).duCells c = (lookup.push ptr).ueCells.find? (·.cellIndex == c) := by
  simp only [UeCellLookup.push, List.find?_append]
  by_cases hc : c = ptr.cellIndex
  · subst hc
    have hnone : lookup.ueCells.find? (·.cellIndex == ptr.cellIndex) = none := by
      rw [List.find?_eq_none]
      intro ptr' hmem heq
      refine hnot (horder ▸ List.mem_map.mpr ⟨ptr', hmem, ?_⟩)
      simpa using heq
    simp [hnone]
  · simp [hc, hdu, Ne.symm hc]

theorem Configured.push {prev lookup : UeCellLookup} {done : List Nat} {ptr : UeCellPtr}
    (h : s.Configured cfg prev done lookup) (hnot : ptr.cellIndex ∉ done)
    (hcontext : s.context ptr.cellIndex cfg.ueIndex = some ptr.context)
    (hprev : prev.duCells ptr.cellIndex ≠ none) (hmem : ptr.cellIndex ∈ cfg.cells) :
    s.Configured cfg prev (done ++ [ptr.cellIndex]) (lookup.push ptr) where
  order := by simp [UeCellLookup.push, h.order]
  duCells := find?_push h.order hnot h.duCells
  contexts ptr' hptr' := by
    rcases List.mem_append.mp hptr' with hptr' | hptr'
    · exact h.contexts ptr' hptr'
    · rw [List.mem_singleton.mp hptr']
      exact hcontext
  previous := h.previous
  registered c := by
    rw [h.registered, List.mem_append, List.mem_singleton]
    constructor
    · rintro (hc | hc)
      · exact .inl (.inl hc)
      · exact .inr hc
    · rintro ((hc | rfl) | hc)
      · exact .inl hc
      · exact .inr ⟨hprev, hmem⟩
      · exact .inr hc
  rntis := h.rntis

theorem Configured.add {prev lookup : UeCellLookup} {done : List Nat} {ptr : UeCellPtr}
    (h : s.Configured cfg prev done lookup) (hnot : ptr.cellIndex ∉ done)
    (hprev : prev.duCells ptr.cellIndex = none)
    (hsets : s.Sets s' cfg ptr.cellIndex (some ptr.context) (some cfg.ueIndex)) :
    s'.Configured cfg prev (done ++ [ptr.cellIndex]) (lookup.push ptr) where
  order := by simp [UeCellLookup.push, h.order]
  duCells := find?_push h.order hnot h.duCells
  contexts ptr' hptr' := by
    rw [hsets.contexts]
    rcases List.mem_append.mp hptr' with hptr' | hptr'
    · have hne : ptr'.cellIndex ≠ ptr.cellIndex := fun heq =>
        hnot (heq ▸ h.order ▸ List.mem_map_of_mem hptr')
      rw [if_neg hne]
      exact h.contexts ptr' hptr'
    · rw [List.mem_singleton.mp hptr', if_pos rfl]
  previous c ptr' hc hmem := by
    have hne : c ≠ ptr.cellIndex := fun heq => by simp [heq, hprev] at hc
    rw [hsets.contexts, if_neg hne]
    exact h.previous c ptr' hc hmem
  registered c := by
    rw [hsets.contexts, List.mem_append, List.mem_singleton]
    by_cases hc : c = ptr.cellIndex
    · simp [hc]
    · rw [if_neg hc, h.registered]
      simp [hc]
  rntis c := by
    rw [hsets.contexts, hsets.rntis]
    by_cases hc : c = ptr.cellIndex
    · simp [hc]
    · rw [if_neg hc, if_neg hc]
      exact h.rntis c

theorem Configured.run {prev lookup : UeCellLookup} {done cells : List Nat}
    (h : s.Configured cfg prev done lookup) (hcells : done ++ cells = cfg.cells)
    (hexists : ∀ c ∈ cfg.cells, (s.cellUes c).isSome = true) :
    ∃ s' lookup', s.configureCells cfg prev lookup cells = .ok (s', lookup') ∧
      s'.Configured cfg prev cfg.cells lookup' := by
  induction cells generalizing s lookup done with
  | nil => exact ⟨s, lookup, rfl, by rw [List.append_nil] at hcells; exact hcells ▸ h⟩
  | cons cellIndex cells ih =>
    have hmem : cellIndex ∈ cfg.cells := by simp [← hcells]
    have hnot : cellIndex ∉ done := by
      have hnodup := hcells ▸ cfg.nodup
      intro hd
      exact (List.nodup_append.mp hnodup).2.2 cellIndex hd cellIndex List.mem_cons_self rfl
    have hcells' : done ++ [cellIndex] ++ cells = cfg.cells := by simpa using hcells
    cases hd : prev.duCells cellIndex with
    | some ptr =>
      obtain ⟨rfl, hcontext⟩ := h.previous cellIndex ptr hd hmem
      have hstep : s.configureCell cfg prev ptr.cellIndex = .ok (s, ptr) := by
        simp [configureCell, hd]
      rw [configureCells, hstep]
      exact ih (h.push hnot hcontext (by simp [hd]) hmem) hcells' hexists
    | none =>
      have hcontext : s.context cellIndex cfg.ueIndex = none := by
        have hreg := h.registered cellIndex
        simpa [hnot, hd] using hreg
      have hrnti : s.ueOfRnti cellIndex cfg.crnti = none := by
        rw [h.rntis, hcontext]
        rfl
      obtain ⟨t, ptr, ht⟩ := addUeCell_total (hexists cellIndex hmem) hcontext hrnti
      obtain ⟨hsets, rfl, -⟩ := addUeCell_ok ht
      have hstep : s.configureCell cfg prev ptr.cellIndex = .ok (t, ptr) := by
        simp [configureCell, hd, ht]
      rw [configureCells, hstep]
      exact ih (h.add hnot hd hsets) hcells' fun c hc => (hsets.cellUes c).trans (hexists c hc)

variable {cells : List Nat} {prev : UeCellLookup}

theorem ServedBy.duCells_iff {ueIndex crnti : Nat} (h : s.ServedBy ueIndex crnti cells prev) (c : Nat) :
    prev.duCells c ≠ none ↔ c ∈ cells := by
  rw [h.duCells, ← h.order, List.mem_map, ← Option.isSome_iff_ne_none, List.find?_isSome]
  simp

theorem ServedBy.ptr {ueIndex crnti : Nat} (h : s.ServedBy ueIndex crnti cells prev) {c : Nat} {ptr : UeCellPtr}
    (hptr : prev.duCells c = some ptr) : ptr.cellIndex = c ∧ s.context c ueIndex = some ptr.context := by
  rw [h.duCells] at hptr
  have hindex : ptr.cellIndex = c := by simpa using List.find?_some hptr
  exact ⟨hindex, hindex ▸ h.contexts ptr (List.mem_of_find?_eq_some hptr)⟩

theorem ServedBy.configured (h : s.ServedBy cfg.ueIndex cfg.crnti cells prev)
    (hmoved : ∀ c, MovedFrom cfg c 0 cells ↔ c ∈ cells ∧ c ∉ cfg.cells)
    (hs : s.removeCells cfg 0 cells = .ok s') : s'.Configured cfg prev [] .empty := by
  have hcontext : ∀ c, s'.context c cfg.ueIndex = if c ∈ cfg.cells then s.context c cfg.ueIndex else none := by
    intro c
    obtain ⟨hgone, hstays, -, -⟩ := removeCells_ok hs c
    rw [hmoved] at hgone hstays
    by_cases hc : c ∈ cfg.cells
    · rw [if_pos hc, (hstays fun hno => hno.2 hc).1]
    · rw [if_neg hc]
      by_cases hcells : c ∈ cells
      · exact (hgone ⟨hcells, hc⟩).1
      · rw [(hstays fun hno => hcells hno.1).1]
        simpa [hcells] using h.registered c
  refine ⟨rfl, fun _ => rfl, by simp [UeCellLookup.empty], fun c ptr hptr hc => ?_, fun c => ?_, fun c => ?_⟩
  · rw [hcontext, if_pos hc]
    exact h.ptr hptr
  · rw [hcontext, h.duCells_iff]
    by_cases hc : c ∈ cfg.cells
    · simp [hc, h.registered]
    · simp [hc]
  · obtain ⟨hgone, hstays, -, -⟩ := removeCells_ok hs c
    rw [hmoved] at hgone hstays
    rw [hcontext]
    by_cases hc : c ∈ cfg.cells
    · rw [if_pos hc, (hstays fun hno => hno.2 hc).2, h.rntis]
      simp [h.registered]
    · rw [if_neg hc]
      by_cases hcells : c ∈ cells
      · simp [(hgone ⟨hcells, hc⟩).2]
      · rw [(hstays fun hno => hcells hno.1).2, h.rntis, if_neg hcells]
        rfl

theorem movedFrom_of_keeps (hkeeps : KeepsServCellIndex cells cfg.cells) (c : Nat) :
    MovedFrom cfg c 0 cells ↔ c ∈ cells ∧ c ∉ cfg.cells := by
  rw [movedFrom_iff]
  constructor
  · rintro ⟨j, hj, hmoved⟩
    refine ⟨List.mem_of_getElem? hj, fun hc => hmoved ?_⟩
    rw [Nat.zero_add]
    exact hkeeps j c hj hc
  · rintro ⟨hcells, hc⟩
    obtain ⟨j, hj⟩ := List.mem_iff_getElem?.mp hcells
    exact ⟨j, hj, fun hget => hc (List.mem_of_getElem? hget)⟩

theorem not_served_of_moved (h : s.ServedBy cfg.ueIndex cfg.crnti cells prev) {i c : Nat}
    (hi : cells[i]? = some c) (hmem : c ∈ cfg.cells) (hmoved : Moved cfg i c) {lookup : UeCellLookup}
    (hs : s.reconfigureUe cfg = .ok s') : ¬s'.ServedBy cfg.ueIndex cfg.crnti cfg.cells lookup := by
  intro hserved
  simp only [reconfigureUe, h.lookups, h.order] at hs
  obtain ⟨t, ht, hs⟩ := bind_eq_ok.mp hs
  obtain ⟨⟨u, lookup'⟩, hu, hs⟩ := bind_eq_ok.mp hs
  cases hs
  have hgone : t.context c cfg.ueIndex = none :=
    ((removeCells_ok ht c).1 (movedFrom_iff.mpr ⟨i, hi, by rwa [Nat.zero_add]⟩)).1
  have hcells : prev.duCells c ≠ none := (h.duCells_iff c).mpr (List.mem_of_getElem? hi)
  have hreg := (hserved.registered c).mpr hmem
  have hcontext : u.context c cfg.ueIndex = none := (configureCells_context hu hcells).trans hgone
  have hsame : (u.context c cfg.ueIndex).isSome = true := hreg
  rw [hcontext] at hsame
  cases hsame

/-- A reconfiguration leaves the UE registered in the new serving cells, with its lookup in their
order, if and only if every cell that stays keeps its serving cell index. -/
theorem reconfigureUe_servedBy_iff (s : UeRepository) (cfg : UeConfiguration) (cells : List Nat)
    (prev : UeCellLookup) (h : s.ServedBy cfg.ueIndex cfg.crnti cells prev)
    (hpcell : cells.head? = cfg.cells.head?) (hexists : ∀ c ∈ cfg.cells, (s.cellUes c).isSome = true) :
    (∃ s' lookup, s.reconfigureUe cfg = .ok s' ∧
      s'.ServedBy cfg.ueIndex cfg.crnti cfg.cells lookup) ↔ KeepsServCellIndex cells cfg.cells := by
  constructor
  · rintro ⟨s', lookup, hs, hserved⟩ i c hi hmem
    by_contra hmoved
    exact not_served_of_moved h hi hmem hmoved hs hserved
  · intro hkeeps
    have hhead : ∀ c ∈ cells.head?, 0 = 0 → c ∈ cfg.cells := by
      intro c hc _
      rw [hpcell] at hc
      exact List.mem_of_mem_head? hc
    have hkeeps' : ∀ (j : Nat) (c : Nat), cells[j]? = some c → c ∈ cfg.cells → cfg.cells[0 + j]? = some c := by
      intro j c hj hc
      rw [Nat.zero_add]
      exact hkeeps j c hj hc
    obtain ⟨t, ht⟩ := removeCells_total h.nodup (fun c hc => (h.registered c).mpr hc) hkeeps' hhead
    have hexists' : ∀ c ∈ cfg.cells, (t.cellUes c).isSome = true := fun c hc =>
      ((removeCells_ok ht c).2.2.1).trans (hexists c hc)
    obtain ⟨u, lookup, hu, hconf⟩ := (h.configured (movedFrom_of_keeps hkeeps) ht).run (List.nil_append cfg.cells) hexists'
    have hs : s.reconfigureUe cfg =
        .ok { u with ueCellLookups := Function.update u.ueCellLookups cfg.ueIndex (some lookup) } := by
      simp [reconfigureUe, h.lookups, h.order, ht, hu]
    refine ⟨_, lookup, hs, ?_⟩
    have hreg : ∀ c, (u.context c cfg.ueIndex).isSome = true ↔ c ∈ cfg.cells := by
      intro c
      rw [hconf.registered]
      tauto
    refine ⟨by simp, cfg.nodup, hconf.order, hconf.duCells, hconf.contexts, hreg, fun c => ?_⟩
    refine (hconf.rntis c).trans ?_
    simp only [hreg]

def serving (cells : List Nat) : UeRepository where
  cellUes c := if c < 3 then some {
      ues := fun ue => if ue = 0 ∧ c ∈ cells then some c else none
      rntiToUeIndexLookup := fun rnti => if rnti = 17 ∧ c ∈ cells then some 0 else none } else none
  ueCellLookups ue := if ue = 0 then some {
      duCells := fun c => (cells.map fun c => ⟨c, c⟩).find? (·.cellIndex == c)
      ueCells := cells.map fun c => ⟨c, c⟩ } else none
  nextContext := 3

theorem serving_servedBy {cells : List Nat} (hnodup : cells.Nodup) (hlt : ∀ c ∈ cells, c < 3) :
    (serving cells).ServedBy 0 17 cells {
      duCells := fun c => (cells.map fun c => ⟨c, c⟩).find? (·.cellIndex == c)
      ueCells := cells.map fun c => ⟨c, c⟩ } where
  lookups := rfl
  nodup := hnodup
  order := by simp [Function.comp_def]
  duCells _ := rfl
  contexts ptr hptr := by
    obtain ⟨c, hc, rfl⟩ := List.mem_map.mp hptr
    simp [context, serving, hlt c hc, hc]
  registered c := by
    by_cases hc : c ∈ cells
    · simp [context, serving, hlt c hc, hc]
    · by_cases h3 : c < 3
      · simp [context, serving, h3, hc]
      · simp [context, serving, h3, hc]
  rntis c := by
    by_cases hc : c ∈ cells
    · simp [ueOfRnti, serving, hlt c hc, hc]
    · by_cases h3 : c < 3
      · simp [ueOfRnti, serving, h3, hc]
      · simp [ueOfRnti, serving, h3, hc]

theorem reconfigureUe_servedBy_scellReplaced : ∃ s' lookup,
    (serving [0, 1]).reconfigureUe ⟨0, 17, [0, 2], by decide, by decide⟩ = .ok s' ∧
      s'.ServedBy 0 17 [0, 2] lookup := by
  refine (reconfigureUe_servedBy_iff (serving [0, 1]) ⟨0, 17, [0, 2], by decide, by decide⟩ [0, 1] _
    (serving_servedBy (by decide) (by decide)) rfl (by decide)).mpr ?_
  intro i c hi hc
  cases i with
  | zero => simpa using hi
  | succ i =>
    rw [List.getElem?_cons_succ] at hi
    have hc1 : c = 1 := by simpa using List.mem_of_getElem? hi
    simp [hc1] at hc

/-- Two SCells that change places are both lost. -/
theorem scells_swapped : ¬ ∀ (s : UeRepository) (cfg : UeConfiguration) (cells : List Nat) (prev : UeCellLookup),
    s.ServedBy cfg.ueIndex cfg.crnti cells prev → cells.head? = cfg.cells.head? →
    (∀ c ∈ cfg.cells, (s.cellUes c).isSome = true) →
    ∃ s' lookup, s.reconfigureUe cfg = .ok s' ∧ s'.ServedBy cfg.ueIndex cfg.crnti cfg.cells lookup := by
  intro h
  have hserved := serving_servedBy (show [0, 1, 2].Nodup by decide) (by decide)
  obtain ⟨s', lookup, hs, hlost⟩ := h (serving [0, 1, 2]) ⟨0, 17, [0, 2, 1], by decide, by decide⟩ [0, 1, 2] _
    hserved rfl (by decide)
  exact not_served_of_moved hserved (i := 1) (c := 1) rfl (by decide) (by simp [Moved]) hs hlost

end UeRepository

end Ocudu.Sched
