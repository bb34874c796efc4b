import Ocudu.Du.PucchAllocation

/-! The PUCCH resource manager over the allocations and deallocations of all UEs. -/

namespace Ocudu.Du

/-- How far an offset is after the target one, around the period -/
def CsiReportConfig.cyclicDistance (csi : CsiReportConfig) (offset : Nat) : Nat :=
  (offset + (csi.periodSlots - (csi.csiRsOffset + minimumCsiRsReportDistance) % csi.periodSlots)) % csi.periodSlots

theorem CsiReportConfig.distance_eq (csi : CsiReportConfig)
    (h : csi.csiRsOffset + minimumCsiRsReportDistance ≤ csi.periodSlots) {offset : Nat}
    (hoffset : offset < csi.periodSlots) : csi.distance offset = csi.cyclicDistance offset := by
  have hle := csi.periodSlots_le
  rw [distance, cyclicDistance]
  generalize csi.csiRsOffset + minimumCsiRsReportDistance = target at h ⊢
  have hwrap : (csi.periodSlots + offset + (2 ^ 32 - target % 2 ^ 32)) % 2 ^ 32 = offset + (csi.periodSlots - target) := by
    lia
  rw [hwrap]
  rcases Nat.lt_or_eq_of_le h with hlt | rfl
  · rw [Nat.mod_eq_of_lt hlt]
  · rw [Nat.mod_self, Nat.sub_self, Nat.sub_zero, Nat.add_zero, Nat.add_mod_right]

theorem CsiReportConfig.distance_lt (csi : CsiReportConfig) (offset : Nat) : csi.distance offset < csi.periodSlots :=
  Nat.mod_lt _ csi.periodSlots_pos

namespace PucchCellContext

variable {limit : Nat} {ctx : PucchCellContext} {csi : CsiReportConfig} {sr : PeriodicPucchConfig}

def coincides (ctx : PucchCellContext) (csi : CsiReportConfig) (sr csiCfg : PeriodicPucchConfig) : Bool :=
  areSrAndCsiPucchsScheduledTogether ctx.cellParams.srPeriodSlots sr.offset csi.periodSlots csiCfg.offset

/-- An admissible free CSI offset that avoids the SR occasions if one can, and is then nearest to the target -/
structure Nearest (ctx : PucchCellContext) (limit : Nat) (csi : CsiReportConfig) (sr csiCfg : PeriodicPucchConfig) :
    Prop where
  free : csiCfg ∈ ctx.freeCsiConfigs
  admissible : ctx.Admissible limit csi sr csiCfg
  apart : ctx.coincides csi sr csiCfg = true → ∀ config ∈ ctx.freeCsiConfigs, ctx.Admissible limit csi sr config →
    ctx.coincides csi sr config = true
  nearest : ∀ config ∈ ctx.freeCsiConfigs, ctx.Admissible limit csi sr config →
    ctx.coincides csi sr config = ctx.coincides csi sr csiCfg →
    csi.cyclicDistance csiCfg.offset ≤ csi.cyclicDistance config.offset

theorem nearest_of_best {csiCfg : PeriodicPucchConfig} (h : ctx.Best limit csi sr csiCfg)
    (hoffsets : ∀ config ∈ ctx.freeCsiConfigs, config.offset < csi.periodSlots)
    (htarget : csi.csiRsOffset + minimumCsiRsReportDistance ≤ csi.periodSlots) :
    ctx.Nearest limit csi sr csiCfg := by
  refine ⟨h.free, h.admissible, fun hcoincides config hmem hadm => ?_, fun config hmem hadm hsame => ?_⟩
  · by_contra hapart
    have hleast := h.least config hmem hadm
    have hlt := csi.distance_lt config.offset
    rw [coincides] at hcoincides hapart
    rw [weight, weight, if_pos hcoincides, if_neg hapart] at hleast
    omega
  · have hleast := h.least config hmem hadm
    rw [weight, weight] at hleast
    rw [coincides, coincides] at hsame
    rw [hsame] at hleast
    rw [← csi.distance_eq htarget (hoffsets _ h.free), ← csi.distance_eq htarget (hoffsets _ hmem)]
    exact Nat.le_of_add_le_add_right hleast

end PucchCellContext

structure CellConsistent (limit : Nat) (cell : PucchCellConfig) (ctx : PucchCellContext)
    (holders : List UePucchConfig) : Prop where
  sr : (ctx.freeSrConfigs ++ holders.map UePucchConfig.srConfig).Perm cell.srConfigs
  csi : (ctx.freeCsiConfigs ++ holders.filterMap UePucchConfig.periodicCsiReport).Perm cell.csiConfigs
  sr_nodup : (ctx.freeSrConfigs ++ holders.map UePucchConfig.srConfig).Nodup
  csi_nodup : (ctx.freeCsiConfigs ++ holders.filterMap UePucchConfig.periodicCsiReport).Nodup
  counters : ∀ slot, SlotCounters.get ctx.periodicPucchsPerSlot (slot % cell.lcmCsiSrPeriod) =
    holders.countP (UePucchConfig.hasOccasion cell slot)
  within : ∀ slot, holders.countP (UePucchConfig.hasOccasion cell slot) ≤ limit
  choice : ∀ ue ctx' ue' csi, ctx.allocResources limit ue = .ok (ctx', ue', true) → cell.csi = some csi →
    csi.csiRsOffset + minimumCsiRsReportDistance ≤ csi.periodSlots →
    ∃ config, ue'.periodicCsiReport = some config ∧ ctx.Nearest limit csi ue'.srConfig config

theorem CellInv.consistent {limit : Nat} {cell : PucchCellConfig} {ctx : PucchCellContext}
    {holders : List UePucchConfig} (h : CellInv limit cell ctx holders) : CellConsistent limit cell ctx holders := by
  have hcsi : cell.csiConfigs.Nodup := by
    rw [PucchCellConfig.csiConfigs]
    cases cell.csi with
    | none => exact List.nodup_nil
    | some csi => exact cell.periodicConfigs_nodup _ _
  have hcounters : ∀ slot, SlotCounters.get ctx.periodicPucchsPerSlot (slot % cell.lcmCsiSrPeriod) =
      holders.countP (UePucchConfig.hasOccasion cell slot) := by
    intro slot
    rw [h.counters _ (Nat.mod_lt _ cell.lcm_pos)]
    exact List.countP_congr fun ue _ => by rw [UePucchConfig.hasOccasion_mod]
  refine ⟨h.sr, h.csi, h.sr.nodup_iff.mpr (cell.periodicConfigs_nodup _ _), h.csi.nodup_iff.mpr hcsi, hcounters,
    fun slot => ?_, fun ue ctx' ue' csi hrun hcell htarget => ?_⟩
  · rw [← hcounters]
    exact h.limit _
  · obtain ⟨ctx'', ue'', allocated, hrun', _, hfound⟩ := h.allocResources_ok ue
    rw [hrun] at hrun'
    cases hrun'
    obtain ⟨_, _, hfound⟩ := hfound rfl
    have hcell' : ctx.cellParams.csi = some csi := by
      rw [h.params]
      exact hcell
    have hsome := hfound.csi_isSome
    rw [hcell'] at hsome
    obtain ⟨config, hconfig⟩ := Option.isSome_iff_exists.mp hsome
    exact ⟨config, hconfig, PucchCellContext.nearest_of_best (hfound.best csi config hcell' hconfig)
      (fun config hmem => h.free_csi_offset hcell hmem) htarget⟩

structure PucchManager where
  cells : Nat → Option PucchCellContext
  ues : List (Nat × UePucchConfig)

namespace PucchManager

def init (config : Nat → Option PucchCellConfig) : PucchManager where
  cells := fun cellIndex => (config cellIndex).map PucchCellContext.ofConfig
  ues := []

inductive Event
  | createUe (cellIndex : Nat)
  | allocResources (ue : Nat)
  | deallocResources (ue : Nat)

def cell (s : PucchManager) (cellIndex : Nat) : Except PucchFault PucchCellContext :=
  match s.cells cellIndex with
  | none => .error .cell
  | some ctx => .ok ctx

def store (s : PucchManager) (cellIndex : Nat) (ctx : PucchCellContext) (ue : Nat) (config : UePucchConfig) :
    PucchManager where
  cells := Function.update s.cells cellIndex (some ctx)
  ues := s.ues.set ue (cellIndex, config)

def step (limit : Nat) (s : PucchManager) : Event → Except PucchFault PucchManager
  | .createUe cellIndex => .ok { s with ues := s.ues ++ [(cellIndex, .reset)] }
  | .allocResources ue =>
    match s.ues[ue]? with
    | none => .ok s
    | some (cellIndex, config) => do
      let ctx ← s.cell cellIndex
      let (ctx, config, _) ← ctx.allocResources limit config
      .ok (s.store cellIndex ctx ue config)
  | .deallocResources ue =>
    match s.ues[ue]? with
    | none => .ok s
    | some (cellIndex, config) => do
      let ctx ← s.cell cellIndex
      let (ctx, config) ← ctx.deallocResources config
      .ok (s.store cellIndex ctx ue config)

def holders (ues : List (Nat × UePucchConfig)) (cellIndex : Nat) : List UePucchConfig :=
  (ues.filter fun ue => ue.1 = cellIndex && ue.2.pucchCfg).map Prod.snd

def Admissible (config : Nat → Option PucchCellConfig) (s : PucchManager) : Event → Prop
  | .createUe cellIndex => (config cellIndex).isSome = true
  | .allocResources ue => ∀ entry ∈ s.ues[ue]?, entry.2.pucchCfg = false
  | .deallocResources _ => True

instance (config : Nat → Option PucchCellConfig) (s : PucchManager) : (e : Event) → Decidable (s.Admissible config e)
  | .createUe cellIndex => inferInstanceAs (Decidable ((config cellIndex).isSome = true))
  | .allocResources ue => inferInstanceAs (Decidable (∀ entry ∈ s.ues[ue]?, entry.2.pucchCfg = false))
  | .deallocResources _ => .isTrue trivial

def Consistent (limit : Nat) (config : Nat → Option PucchCellConfig) (s : PucchManager) : Prop :=
  ∀ cellIndex cell, config cellIndex = some cell →
    ∃ ctx, s.cells cellIndex = some ctx ∧ CellConsistent limit cell ctx (holders s.ues cellIndex)

structure Inv (limit : Nat) (config : Nat → Option PucchCellConfig) (s : PucchManager) : Prop where
  cells : ∀ cellIndex cell, config cellIndex = some cell →
    ∃ ctx, s.cells cellIndex = some ctx ∧ CellInv limit cell ctx (holders s.ues cellIndex)
  ues : ∀ ue ∈ s.ues, (config ue.1).isSome = true

theorem inv_init (limit : Nat) (config : Nat → Option PucchCellConfig) : Inv limit config (init config) where
  cells := by
    intro cellIndex cell hcell
    rw [init]
    dsimp only
    rw [hcell]
    exact ⟨_, rfl, PucchCellContext.cellInv_ofConfig limit cell⟩
  ues := fun _ hmem => absurd hmem List.not_mem_nil

variable {limit : Nat} {config : Nat → Option PucchCellConfig} {s : PucchManager}

theorem holders_append_reset (ues : List (Nat × UePucchConfig)) (c cellIndex : Nat) :
    holders (ues ++ [(c, .reset)]) cellIndex = holders ues cellIndex := by
  rw [holders, holders, List.filter_append, List.filter_cons_of_neg (by simp [UePucchConfig.reset]), List.filter_nil,
    List.append_nil]

theorem holders_perm {ues : List (Nat × UePucchConfig)} {ue : Nat} {entry : Nat × UePucchConfig}
    (h : ues[ue]? = some entry) (cellIndex : Nat) :
    (holders ues cellIndex).Perm (holders [entry] cellIndex ++ holders (ues.eraseIdx ue) cellIndex) := by
  obtain ⟨hlt, rfl⟩ := List.getElem?_eq_some_iff.mp h
  have hperm := (List.getElem_cons_eraseIdx_perm hlt).symm
  rw [holders, holders, holders, ← List.map_append, ← List.filter_append]
  exact (hperm.filter _).map _

theorem holders_set_perm {ues : List (Nat × UePucchConfig)} {ue : Nat} {entry : Nat × UePucchConfig}
    (h : ues[ue]? = some entry) (entry' : Nat × UePucchConfig) (cellIndex : Nat) :
    (holders (ues.set ue entry') cellIndex).Perm
      (holders [entry'] cellIndex ++ holders (ues.eraseIdx ue) cellIndex) := by
  obtain ⟨hlt, rfl⟩ := List.getElem?_eq_some_iff.mp h
  have hperm := List.set_perm_cons_eraseIdx hlt entry'
  rw [holders, holders, holders, ← List.map_append, ← List.filter_append]
  exact (hperm.filter _).map _

theorem holders_other {cellIndex other : Nat} {ue : UePucchConfig} (h : other ≠ cellIndex) :
    holders [(cellIndex, ue)] other = [] := by
  rw [holders, List.filter_cons_of_neg (by simp [Ne.symm h])]
  rfl

theorem holders_reset {cellIndex : Nat} {ue : UePucchConfig} (h : ue.pucchCfg = false) (other : Nat) :
    holders [(cellIndex, ue)] other = [] := by
  rw [holders, List.filter_cons_of_neg (by simp [h])]
  rfl

theorem holders_self {cellIndex : Nat} {ue : UePucchConfig} (h : ue.pucchCfg = true) :
    holders [(cellIndex, ue)] cellIndex = [ue] := by
  rw [holders, List.filter_cons_of_pos (by simp [h])]
  rfl

theorem Inv.store {ue cellIndex : Nat} {entry : UePucchConfig} (h : Inv limit config s)
    (hue : s.ues[ue]? = some (cellIndex, entry)) {ctx' : PucchCellContext} {entry' : UePucchConfig}
    (hcell : ∀ cell, config cellIndex = some cell →
      CellInv limit cell ctx' (holders [(cellIndex, entry')] cellIndex ++ holders (s.ues.eraseIdx ue) cellIndex)) :
    Inv limit config (s.store cellIndex ctx' ue entry') where
  cells := by
    intro other cell hother
    rw [PucchManager.store]
    dsimp only
    by_cases heq : other = cellIndex
    · rw [heq] at hother ⊢
      rw [Function.update_self]
      exact ⟨ctx', rfl, (hcell cell hother).perm (holders_set_perm hue _ cellIndex)⟩
    · rw [Function.update_of_ne heq]
      obtain ⟨ctx, hctx, hinv⟩ := h.cells other cell hother
      refine ⟨ctx, hctx, hinv.perm ?_⟩
      have hset := holders_set_perm hue (cellIndex, entry') other
      have hold := holders_perm hue other
      rw [holders_other heq] at hset hold
      exact hset.trans hold.symm
  ues := by
    intro entry'' hmem
    rcases List.mem_or_eq_of_mem_set hmem with hmem | rfl
    · exact h.ues entry'' hmem
    · exact h.ues (cellIndex, entry) (List.mem_of_getElem? hue)

theorem step_inv (s : PucchManager) (e : Event) (h : Inv limit config s) (hadm : s.Admissible config e) :
    ∃ s', s.step limit e = .ok s' ∧ Inv limit config s' := by
  cases e with
  | createUe cellIndex =>
    refine ⟨_, rfl, ⟨fun other cell hcell => ?_, fun ue hmem => ?_⟩⟩
    · rw [holders_append_reset]
      exact h.cells other cell hcell
    · rcases List.mem_append.mp hmem with hmem | hmem
      · exact h.ues ue hmem
      · rw [List.mem_singleton.mp hmem]
        exact hadm
  | allocResources ue =>
    rw [step]
    cases hue : s.ues[ue]? with
    | none => exact ⟨s, rfl, h⟩
    | some entry =>
      obtain ⟨cellIndex, entry⟩ := entry
      obtain ⟨cell, hcell⟩ := Option.isSome_iff_exists.mp (h.ues (cellIndex, entry) (List.mem_of_getElem? hue))
      obtain ⟨ctx, hctx, hinv⟩ := h.cells cellIndex cell hcell
      have hreset : entry.pucchCfg = false := hadm (cellIndex, entry) hue
      have hinv := hinv.perm (holders_perm hue cellIndex).symm
      rw [holders_reset hreset, List.nil_append] at hinv
      obtain ⟨ctx', entry', allocated, hrun, hfail, hdone⟩ := hinv.allocResources_ok entry
      dsimp only
      rw [PucchManager.cell, hctx]
      dsimp only
      rw [ok_bind, hrun, ok_bind]
      refine ⟨_, rfl, h.store hue fun cell' hcell' => ?_⟩
      rw [hcell] at hcell'
      cases hcell'
      cases allocated with
      | false =>
        obtain ⟨rfl, hreset'⟩ := hfail rfl
        rw [holders_reset hreset']
        exact hinv
      | true =>
        obtain ⟨hset, hinv', _⟩ := hdone rfl
        rw [holders_self hset]
        exact hinv'
  | deallocResources ue =>
    rw [step]
    cases hue : s.ues[ue]? with
    | none => exact ⟨s, rfl, h⟩
    | some entry =>
      obtain ⟨cellIndex, entry⟩ := entry
      obtain ⟨cell, hcell⟩ := Option.isSome_iff_exists.mp (h.ues (cellIndex, entry) (List.mem_of_getElem? hue))
      obtain ⟨ctx, hctx, hinv⟩ := h.cells cellIndex cell hcell
      have hinv := hinv.perm (holders_perm hue cellIndex).symm
      dsimp only
      rw [PucchManager.cell, hctx]
      dsimp only
      rw [ok_bind]
      by_cases hset : entry.pucchCfg = true
      · rw [holders_self hset] at hinv
        obtain ⟨ctx', hrun, hinv'⟩ := hinv.deallocResources_ok hset
        rw [hrun, ok_bind]
        refine ⟨_, rfl, h.store hue fun cell' hcell' => ?_⟩
        rw [hcell] at hcell'
        cases hcell'
        rw [holders_reset rfl]
        exact hinv'
      · have hreset : entry.pucchCfg = false := Bool.eq_false_iff.mpr hset
        rw [CellInv.deallocResources_reset ctx hreset, ok_bind]
        refine ⟨_, rfl, h.store hue fun cell' hcell' => ?_⟩
        rw [hcell] at hcell'
        cases hcell'
        exact hinv

/-- Over every sequence of allocations and deallocations, no assertion fails and every cell stays consistent. -/
theorem run_conserves_resources (limit : Nat) (config : Nat → Option PucchCellConfig) (es : List Event)
    (hadm : Machine.Admits (step limit) (Admissible config) (init config) es) :
    ∃ s, Machine.run (step limit) (init config) es = .ok s ∧ Consistent limit config s := by
  obtain ⟨s, hrun, h⟩ := Machine.run_total (Inv limit config) step_inv (inv_init limit config) hadm
  refine ⟨s, hrun, fun cellIndex cell hcell => ?_⟩
  obtain ⟨ctx, hctx, hinv⟩ := h.cells cellIndex cell hcell
  exact ⟨ctx, hctx, hinv.consistent⟩

def fddCell : PucchCellConfig where
  srPeriodSlots := 2
  nofCellSrResources := 2
  nofCellResSetConfigs := 1
  tdd := none
  csi := some ⟨10, 4, [0], 1, by decide, by decide, by decide⟩
  srSymbols := fun _ => ⟨0, 14⟩
  csiSymbols := fun _ => ⟨12, 14⟩
  maxPayload234 := 11
  srPeriodSlots_pos := by decide
  nofCellResSetConfigs_pos := by decide

def oneCell (cellIndex : Nat) : Option PucchCellConfig := if cellIndex = 0 then some fddCell else none

def fourUes : List Event :=
  [.createUe 0, .createUe 0, .createUe 0, .createUe 0, .allocResources 0, .allocResources 1, .deallocResources 0,
    .deallocResources 0, .allocResources 2, .allocResources 0, .allocResources 3, .deallocResources 3]

theorem run_conserves_resources_fourUes :
    ∃ s, Machine.run (step 2) (init oneCell) fourUes = .ok s ∧ Consistent 2 oneCell s :=
  run_conserves_resources 2 oneCell fourUes (by decide +kernel)

def firstUe (limit : Nat) (cell : PucchCellConfig) : Option UePucchConfig :=
  match (PucchCellContext.ofConfig cell).allocResources limit .reset with
  | .ok (_, ue, true) => some ue
  | _ => none

/-- The target offset is free and admissible, but it coincides with the SR occasions and is not chosen. -/
theorem target_offset_not_chosen :
    ((firstUe 2 fddCell).bind UePucchConfig.periodicCsiReport = some ⟨0, 5⟩) ∧
      (PucchCellContext.ofConfig fddCell).freeCsiConfigs.contains ⟨0, 4⟩ = true ∧
      (fddCell.csi.any fun csi => decide (csi.cyclicDistance 4 < csi.cyclicDistance 5) &&
        ((PucchCellContext.ofConfig fddCell).isCompatible 2 csi ⟨0, 0⟩ ⟨0, 4⟩).toOption.getD false) = true := by
  decide +kernel

end PucchManager

end Ocudu.Du
