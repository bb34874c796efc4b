import Ocudu.Du.PucchResources

/-! Allocating and returning the PUCCH resources of one cell: what is free and what is held is
what the cell started with, and the counters count the UEs of each slot. -/

namespace Ocudu.Du

namespace PucchCellConfig

variable (cell : PucchCellConfig)

theorem mem_periodicConfigs {nofResources periodSlots : Nat} {config : PeriodicPucchConfig}
    (h : config ∈ cell.periodicConfigs nofResources periodSlots) : config.offset < periodSlots := by
  obtain ⟨res, _, hmem⟩ := List.mem_flatMap.mp h
  obtain ⟨offset, hoffset, rfl⟩ := List.mem_map.mp hmem
  exact List.mem_range.mp (List.mem_filter.mp hoffset).1

theorem periodicConfigs_nodup (nofResources periodSlots : Nat) :
    (cell.periodicConfigs nofResources periodSlots).Nodup := by
  refine List.nodup_flatMap.mpr ⟨fun res _ => ?_, ?_⟩
  · refine (List.nodup_range.filter _).map fun a b h => ?_
    exact congrArg PeriodicPucchConfig.offset h
  · refine List.nodup_range.imp fun {a b} hne => ?_
    intro config ha hb
    obtain ⟨_, _, rfl⟩ := List.mem_map.mp ha
    obtain ⟨_, _, h⟩ := List.mem_map.mp hb
    exact hne (congrArg PeriodicPucchConfig.res h).symm

theorem lcm_pos : 0 < cell.lcmCsiSrPeriod := by
  rw [lcmCsiSrPeriod]
  cases cell.csi with
  | none => exact cell.srPeriodSlots_pos
  | some csi => exact Nat.lcm_pos cell.srPeriodSlots_pos csi.periodSlots_pos

theorem srPeriodSlots_dvd : cell.srPeriodSlots ∣ cell.lcmCsiSrPeriod := by
  rw [lcmCsiSrPeriod]
  cases cell.csi with
  | none => exact Nat.dvd_refl _
  | some csi => exact Nat.dvd_lcm_left _ _

theorem csiPeriodSlots_dvd {csi : CsiReportConfig} (h : cell.csi = some csi) :
    csi.periodSlots ∣ cell.lcmCsiSrPeriod := by
  rw [lcmCsiSrPeriod, h]
  exact Nat.dvd_lcm_right _ _

end PucchCellConfig

namespace UePucchConfig

def hasCsiOccasion (cell : PucchCellConfig) (ue : UePucchConfig) (slot : Nat) : Bool :=
  match cell.csi with
  | none => false
  | some csi => ue.periodicCsiReport.any fun config => slot % csi.periodSlots = config.offset

def hasOccasion (cell : PucchCellConfig) (slot : Nat) (ue : UePucchConfig) : Bool :=
  decide (slot % cell.srPeriodSlots = ue.srOffset) || ue.hasCsiOccasion cell slot

theorem hasOccasion_mod (cell : PucchCellConfig) (ue : UePucchConfig) (slot : Nat) :
    ue.hasOccasion cell (slot % cell.lcmCsiSrPeriod) = ue.hasOccasion cell slot := by
  rw [hasOccasion, hasOccasion, hasCsiOccasion, hasCsiOccasion, Nat.mod_mod_of_dvd _ cell.srPeriodSlots_dvd]
  cases hcsi : cell.csi with
  | none => rfl
  | some csi => simp only [Nat.mod_mod_of_dvd _ (cell.csiPeriodSlots_dvd hcsi)]

end UePucchConfig

structure CellInv (limit : Nat) (cell : PucchCellConfig) (ctx : PucchCellContext) (holders : List UePucchConfig) :
    Prop where
  params : ctx.cellParams = cell
  sr : (ctx.freeSrConfigs ++ holders.map UePucchConfig.srConfig).Perm cell.srConfigs
  csi : (ctx.freeCsiConfigs ++ holders.filterMap UePucchConfig.periodicCsiReport).Perm cell.csiConfigs
  csi_isSome : ∀ ue ∈ holders, ue.periodicCsiReport.isSome = cell.csi.isSome
  length : ctx.periodicPucchsPerSlot.length = cell.lcmCsiSrPeriod
  counters : ∀ slot, slot < cell.lcmCsiSrPeriod →
    SlotCounters.get ctx.periodicPucchsPerSlot slot = holders.countP (UePucchConfig.hasOccasion cell slot)
  limit : ∀ slot, SlotCounters.get ctx.periodicPucchsPerSlot slot ≤ limit

namespace PucchCellContext

theorem cellInv_ofConfig (limit : Nat) (cell : PucchCellConfig) : CellInv limit cell (ofConfig cell) [] where
  params := rfl
  sr := by
    rw [List.map_nil, List.append_nil]
    exact .refl _
  csi := by
    rw [List.filterMap_nil, List.append_nil]
    exact .refl _
  csi_isSome := fun _ h => absurd h List.not_mem_nil
  length := List.length_replicate
  counters := fun slot _ => SlotCounters.get_replicate _ slot
  limit := fun slot => by
    rw [ofConfig, SlotCounters.get_replicate]
    exact Nat.zero_le _

def WithinLimit (ctx : PucchCellContext) (limit period offset : Nat) : Prop :=
  ∀ slot, slot < ctx.cellParams.lcmCsiSrPeriod → slot % period = offset →
    SlotCounters.get ctx.periodicPucchsPerSlot slot < limit

structure Admissible (ctx : PucchCellContext) (limit : Nat) (csi : CsiReportConfig) (sr csiCfg : PeriodicPucchConfig) :
    Prop where
  within : ctx.WithinLimit limit csi.periodSlots csiCfg.offset
  overlaps : (ctx.cellParams.csiSymbols csiCfg.res).overlaps (ctx.cellParams.srSymbols sr.res) = true
  payload : (if areSrAndCsiPucchsScheduledTogether ctx.cellParams.srPeriodSlots sr.offset csi.periodSlots csiCfg.offset
    then 1 else 0) + csi.reportSize ≤ ctx.cellParams.maxPayload234

variable {cell : PucchCellConfig} {ctx : PucchCellContext} {holders : List UePucchConfig}

theorem exceedsLimitAt_fold (limit : Nat) (slots : List Nat) (start : Bool)
    (hlt : ∀ slot ∈ slots, slot < ctx.periodicPucchsPerSlot.length) :
    ∃ exceeds, slots.foldlM (ctx.exceedsLimitAt limit) start = .ok exceeds ∧
      (exceeds = false ↔ start = false ∧ ∀ slot ∈ slots, SlotCounters.get ctx.periodicPucchsPerSlot slot < limit) := by
  induction slots generalizing start with
  | nil => exact ⟨start, rfl, by simp⟩
  | cons slot slots ih =>
    have hrest := fun start' => ih start' fun slot' h => hlt slot' (List.mem_cons_of_mem _ h)
    cases start with
    | true =>
      obtain ⟨exceeds, hrun, hiff⟩ := hrest true
      refine ⟨exceeds, ?_, ?_⟩
      · rw [List.foldlM_cons, exceedsLimitAt, if_pos rfl, ok_bind, hrun]
      · rw [hiff]
        simp
    | false =>
      obtain ⟨exceeds, hrun, hiff⟩ := hrest (decide (SlotCounters.get ctx.periodicPucchsPerSlot slot ≥ limit))
      refine ⟨exceeds, ?_, ?_⟩
      · rw [List.foldlM_cons, exceedsLimitAt, if_neg (by simp), if_pos (hlt slot List.mem_cons_self), ok_bind, hrun]
      · rw [hiff]
        simp

section

variable (hlength : ctx.periodicPucchsPerSlot.length = ctx.cellParams.lcmCsiSrPeriod)
include hlength

theorem offsetExceedsLimit_ok (limit : Nat) {offset period : Nat}
    (hoffset : offset < period) :
    ∃ exceeds, ctx.offsetExceedsLimit limit offset period = .ok exceeds ∧
      (exceeds = false ↔ ctx.WithinLimit limit period offset) := by
  obtain ⟨exceeds, hrun, hiff⟩ := exceedsLimitAt_fold limit
    (SlotCounters.occasions period ctx.cellParams.lcmCsiSrPeriod ctx.cellParams.lcmCsiSrPeriod offset) false
    fun slot hmem => by
      rw [hlength]
      exact ((SlotCounters.mem_occasions_iff hoffset slot).mp hmem).1
  refine ⟨exceeds, hrun, hiff.trans ⟨fun h slot hlt hmod => ?_, fun h => ⟨rfl, fun slot hmem => ?_⟩⟩⟩
  · exact h.2 slot ((SlotCounters.mem_occasions_iff hoffset slot).mpr ⟨hlt, hmod⟩)
  · obtain ⟨hlt, hmod⟩ := (SlotCounters.mem_occasions_iff hoffset slot).mp hmem
    exact h slot hlt hmod

theorem isCompatible_ok (limit : Nat) {csi : CsiReportConfig} {sr csiCfg : PeriodicPucchConfig}
    (hoffset : csiCfg.offset < csi.periodSlots) :
    ∃ compatible, ctx.isCompatible limit csi sr csiCfg = .ok compatible ∧
      (compatible = true ↔ ctx.Admissible limit csi sr csiCfg) := by
  obtain ⟨exceeds, hexceeds, hwithin⟩ := offsetExceedsLimit_ok hlength limit hoffset
  rw [isCompatible, hexceeds, ok_bind]
  cases exceeds with
  | true =>
    refine ⟨false, rfl, ⟨fun h => (by cases h), fun h => ?_⟩⟩
    cases hwithin.mpr h.within
  | false =>
    have hwithin := hwithin.mp rfl
    rw [if_neg (by simp)]
    by_cases hoverlaps : (ctx.cellParams.csiSymbols csiCfg.res).overlaps (ctx.cellParams.srSymbols sr.res) = true
    · rw [if_neg (by simp [hoverlaps])]
      exact ⟨_, rfl, decide_eq_true_iff.trans ⟨fun h => ⟨hwithin, hoverlaps, h⟩, fun h => h.payload⟩⟩
    · rw [if_pos (by simpa using hoverlaps)]
      exact ⟨false, rfl, ⟨fun h => (by cases h), fun h => absurd h.overlaps hoverlaps⟩⟩

theorem pickCsiCfg_fold (limit : Nat) (csi : CsiReportConfig) (sr : PeriodicPucchConfig)
    (configs : List PeriodicPucchConfig)
    (hoffsets : ∀ config ∈ configs, config.offset < csi.periodSlots) (best : Option PeriodicPucchConfig × Nat) :
    ∃ best', configs.foldlM (ctx.pickCsiCfg limit csi sr) best = .ok best' ∧ best'.2 ≤ best.2 ∧
      (best' = best ∨ ∃ config ∈ configs, ctx.Admissible limit csi sr config ∧
        best' = (some config, ctx.weight csi sr config)) ∧
      ∀ config ∈ configs, ctx.Admissible limit csi sr config → best'.2 ≤ ctx.weight csi sr config := by
  induction configs generalizing best with
  | nil => exact ⟨best, rfl, Nat.le_refl _, Or.inl rfl, fun _ h => absurd h List.not_mem_nil⟩
  | cons config configs ih =>
    have hrest := fun best' => ih (fun c hc => hoffsets c (List.mem_cons_of_mem _ hc)) best'
    obtain ⟨compatible, hcompatible, hiff⟩ :=
      @isCompatible_ok ctx hlength limit csi sr config (hoffsets config List.mem_cons_self)
    have hskip : ∀ first : Option PeriodicPucchConfig × Nat,
        ctx.pickCsiCfg limit csi sr best config = .ok first → first.2 ≤ best.2 →
        (first = best ∨ ctx.Admissible limit csi sr config ∧ first = (some config, ctx.weight csi sr config)) →
        (ctx.Admissible limit csi sr config → first.2 ≤ ctx.weight csi sr config) →
        ∃ best', (config :: configs).foldlM (ctx.pickCsiCfg limit csi sr) best = .ok best' ∧ best'.2 ≤ best.2 ∧
          (best' = best ∨ ∃ c ∈ config :: configs, ctx.Admissible limit csi sr c ∧
            best' = (some c, ctx.weight csi sr c)) ∧
          ∀ c ∈ config :: configs, ctx.Admissible limit csi sr c → best'.2 ≤ ctx.weight csi sr c := by
      intro first hfirst hle hcase hleast
      obtain ⟨best', hrun, hle', hcase', hleast'⟩ := hrest first
      refine ⟨best', by rw [List.foldlM_cons, hfirst, ok_bind, hrun], Nat.le_trans hle' hle, ?_, ?_⟩
      · rcases hcase' with rfl | ⟨c, hc, hadm, rfl⟩
        · rcases hcase with rfl | ⟨hadm, rfl⟩
          · exact Or.inl rfl
          · exact Or.inr ⟨config, List.mem_cons_self, hadm, rfl⟩
        · exact Or.inr ⟨c, List.mem_cons_of_mem _ hc, hadm, rfl⟩
      · intro c hc hadm
        rcases List.mem_cons.mp hc with rfl | hc
        · exact Nat.le_trans hle' (hleast hadm)
        · exact hleast' c hc hadm
    have hpick : ctx.pickCsiCfg limit csi sr best config =
        .ok (if !compatible then best
          else if ctx.weight csi sr config < best.2 then (some config, ctx.weight csi sr config) else best) := by
      rw [pickCsiCfg, hcompatible, ok_bind]
      cases compatible with
      | true => rfl
      | false => rfl
    cases compatible with
    | false =>
      refine hskip best hpick (Nat.le_refl _) (Or.inl rfl) fun hadm => ?_
      cases hiff.mpr hadm
    | true =>
      by_cases hless : ctx.weight csi sr config < best.2
      · rw [if_neg (by simp), if_pos hless] at hpick
        exact hskip _ hpick (Nat.le_of_lt hless) (Or.inr ⟨hiff.mp rfl, rfl⟩) fun _ => Nat.le_refl _
      · rw [if_neg (by simp), if_neg hless] at hpick
        exact hskip best hpick (Nat.le_refl _) (Or.inl rfl) fun _ => Nat.not_lt.mp hless

end

structure Best (ctx : PucchCellContext) (limit : Nat) (csi : CsiReportConfig) (sr csiCfg : PeriodicPucchConfig) :
    Prop where
  free : csiCfg ∈ ctx.freeCsiConfigs
  admissible : ctx.Admissible limit csi sr csiCfg
  least : ∀ config ∈ ctx.freeCsiConfigs, ctx.Admissible limit csi sr config →
    ctx.weight csi sr csiCfg ≤ ctx.weight csi sr config

theorem getCompatibleCsiCfg_ok (limit : Nat)
    (hlength : ctx.periodicPucchsPerSlot.length = ctx.cellParams.lcmCsiSrPeriod) (csi : CsiReportConfig)
    (sr : PeriodicPucchConfig) (hoffsets : ∀ config ∈ ctx.freeCsiConfigs, config.offset < csi.periodSlots) :
    ∃ result, ctx.getCompatibleCsiCfg limit csi sr = .ok result ∧
      ∀ csiCfg, result = some csiCfg → ctx.Best limit csi sr csiCfg := by
  obtain ⟨best, hrun, _, hcase, hleast⟩ :=
    pickCsiCfg_fold hlength limit csi sr ctx.freeCsiConfigs hoffsets (none, 2 ^ 32 - 1)
  refine ⟨best.1, by rw [getCompatibleCsiCfg, hrun]; rfl, fun csiCfg hresult => ?_⟩
  rcases hcase with rfl | ⟨config, hmem, hadm, rfl⟩
  · cases hresult
  · cases hresult
    exact ⟨hmem, hadm, hleast⟩

structure Found (ctx : PucchCellContext) (limit : Nat) (srs : List PeriodicPucchConfig) (sr : PeriodicPucchConfig)
    (csiCfg : Option PeriodicPucchConfig) : Prop where
  free : sr ∈ srs
  within : ctx.WithinLimit limit ctx.cellParams.srPeriodSlots sr.offset
  csi_isSome : csiCfg.isSome = ctx.cellParams.csi.isSome
  best : ∀ csi config, ctx.cellParams.csi = some csi → csiCfg = some config → ctx.Best limit csi sr config

theorem findConfigs_ok (limit : Nat) (hlength : ctx.periodicPucchsPerSlot.length = ctx.cellParams.lcmCsiSrPeriod)
    (hcsi : ∀ csi, ctx.cellParams.csi = some csi → ∀ config ∈ ctx.freeCsiConfigs, config.offset < csi.periodSlots)
    (srs : List PeriodicPucchConfig) (hsrs : ∀ sr ∈ srs, sr.offset < ctx.cellParams.srPeriodSlots) :
    ∃ result, ctx.findConfigs limit srs = .ok result ∧
      ∀ sr csiCfg, result = some (sr, csiCfg) → ctx.Found limit srs sr csiCfg := by
  induction srs with
  | nil => exact ⟨none, rfl, fun _ _ h => by cases h⟩
  | cons first srs ih =>
    obtain ⟨result, hrun, hfound⟩ := ih fun sr h => hsrs sr (List.mem_cons_of_mem _ h)
    have hlater : ∀ sr csiCfg, result = some (sr, csiCfg) → ctx.Found limit (first :: srs) sr csiCfg :=
      fun sr csiCfg h =>
        have hf := hfound sr csiCfg h
        ⟨List.mem_cons_of_mem _ hf.free, hf.within, hf.csi_isSome, hf.best⟩
    obtain ⟨exceeds, hexceeds, hiff⟩ := offsetExceedsLimit_ok hlength limit (hsrs first List.mem_cons_self)
    rw [findConfigs, hexceeds, ok_bind]
    cases exceeds with
    | true => exact ⟨result, by rw [if_pos rfl, hrun], hlater⟩
    | false =>
      have hwithin := hiff.mp rfl
      rw [if_neg (by simp)]
      cases hcell : ctx.cellParams.csi with
      | none =>
        refine ⟨_, rfl, fun sr csiCfg h => ?_⟩
        cases h
        exact ⟨List.mem_cons_self, hwithin, by rw [hcell]; rfl, fun _ _ h => by rw [hcell] at h; cases h⟩
      | some csi =>
        obtain ⟨csiResult, hget, hbest⟩ := getCompatibleCsiCfg_ok limit hlength csi first (hcsi csi hcell)
        dsimp only
        rw [hget, ok_bind]
        cases csiResult with
        | none => exact ⟨result, hrun, hlater⟩
        | some config =>
          refine ⟨_, rfl, fun sr csiCfg h => ?_⟩
          cases h
          refine ⟨List.mem_cons_self, hwithin, by rw [hcell]; rfl, fun csi' config' hcsi' hconfig => ?_⟩
          rw [hcell] at hcsi'
          cases hcsi'
          exact hbest config' hconfig

theorem computePeriodicUciSlotOffsets_nodup (srOffset csiOffset : Nat) :
    (ctx.computePeriodicUciSlotOffsets srOffset csiOffset).Nodup := by
  rw [computePeriodicUciSlotOffsets]
  have hsr := @SlotCounters.occasions_nodup _ ctx.cellParams.lcmCsiSrPeriod ctx.cellParams.srPeriodSlots_pos
    ctx.cellParams.lcmCsiSrPeriod srOffset
  cases ctx.cellParams.csi with
  | none => exact hsr
  | some csi =>
    refine List.nodup_append'.mpr ⟨hsr, (SlotCounters.occasions_nodup csi.periodSlots_pos _ _).filter _, ?_⟩
    intro slot hslot hcsi
    exact absurd hslot (by simpa using (List.mem_filter.mp hcsi).2)

theorem mem_computePeriodicUciSlotOffsets {ue : UePucchConfig} (hsr : ue.srOffset < ctx.cellParams.srPeriodSlots)
    (hcsi : ∀ csi, ctx.cellParams.csi = some csi → ∀ config, ue.periodicCsiReport = some config →
      config.offset < csi.periodSlots)
    (hsome : ue.periodicCsiReport.isSome = ctx.cellParams.csi.isSome) (slot : Nat) :
    slot ∈ ctx.computePeriodicUciSlotOffsets ue.srOffset (csiOffsetOf ue.periodicCsiReport) ↔
      slot < ctx.cellParams.lcmCsiSrPeriod ∧ ue.hasOccasion ctx.cellParams slot = true := by
  rw [computePeriodicUciSlotOffsets, UePucchConfig.hasOccasion, UePucchConfig.hasCsiOccasion]
  have hsrSlots := @SlotCounters.mem_occasions_iff _ ctx.cellParams.lcmCsiSrPeriod _ hsr slot
  cases hcell : ctx.cellParams.csi with
  | none => simp [hsrSlots]
  | some csi =>
    rw [hcell] at hsome
    obtain ⟨config, hconfig⟩ := Option.isSome_iff_exists.mp hsome
    have hcsiSlots :=
      @SlotCounters.mem_occasions_iff _ ctx.cellParams.lcmCsiSrPeriod _ (hcsi csi hcell config hconfig) slot
    rw [hconfig, csiOffsetOf]
    dsimp only
    rw [List.mem_append, List.mem_filter]
    simp only [decide_not, Bool.not_eq_true', decide_eq_false_iff_not, hsrSlots, hcsiSlots, Option.any_some,
      Bool.or_eq_true, decide_eq_true_iff]
    constructor
    · rintro (⟨hlt, hmod⟩ | ⟨⟨hlt, hmod⟩, _⟩)
      · exact ⟨hlt, Or.inl hmod⟩
      · exact ⟨hlt, Or.inr hmod⟩
    · rintro ⟨hlt, hmod | hmod⟩
      · exact Or.inl ⟨hlt, hmod⟩
      · by_cases hboth : slot % ctx.cellParams.srPeriodSlots = ue.srOffset
        · exact Or.inl ⟨hlt, hboth⟩
        · exact Or.inr ⟨⟨hlt, hmod⟩, fun h => hboth h.2⟩

end PucchCellContext

namespace CellInv

open PucchCellContext

variable {limit : Nat} {cell : PucchCellConfig} {ctx : PucchCellContext} {holders : List UePucchConfig}

theorem perm {holders' : List UePucchConfig} (h : CellInv limit cell ctx holders) (hperm : holders'.Perm holders) :
    CellInv limit cell ctx holders' where
  params := h.params
  sr := ((hperm.map _).append_left _).trans h.sr
  csi := ((hperm.filterMap _).append_left _).trans h.csi
  csi_isSome := fun ue hmem => h.csi_isSome ue (hperm.mem_iff.mp hmem)
  length := h.length
  counters := fun slot hlt => (h.counters slot hlt).trans (hperm.countP_eq _).symm
  limit := h.limit

theorem length_ctx (h : CellInv limit cell ctx holders) :
    ctx.periodicPucchsPerSlot.length = ctx.cellParams.lcmCsiSrPeriod := by
  rw [h.params]
  exact h.length

theorem free_sr_offset (h : CellInv limit cell ctx holders) {sr : PeriodicPucchConfig} (hmem : sr ∈ ctx.freeSrConfigs) :
    sr.offset < cell.srPeriodSlots :=
  cell.mem_periodicConfigs (h.sr.mem_iff.mp (List.mem_append_left _ hmem))

theorem mem_csiConfigs {csi : CsiReportConfig} (hcell : cell.csi = some csi) {config : PeriodicPucchConfig}
    (hmem : config ∈ cell.csiConfigs) : config.offset < csi.periodSlots := by
  rw [PucchCellConfig.csiConfigs, hcell] at hmem
  exact cell.mem_periodicConfigs hmem

section

variable (h : CellInv limit cell ctx holders)
include h

theorem free_csi_offset {csi : CsiReportConfig} (hcell : cell.csi = some csi)
    {config : PeriodicPucchConfig} (hmem : config ∈ ctx.freeCsiConfigs) : config.offset < csi.periodSlots :=
  mem_csiConfigs hcell (h.csi.mem_iff.mp (List.mem_append_left _ hmem))

theorem holder_slots {ue : UePucchConfig} (hmem : ue ∈ holders) (slot : Nat) :
    slot ∈ ctx.computePeriodicUciSlotOffsets ue.srOffset (csiOffsetOf ue.periodicCsiReport) ↔
      slot < cell.lcmCsiSrPeriod ∧ ue.hasOccasion cell slot = true := by
  have hsr : ue.srConfig ∈ cell.srConfigs := h.sr.mem_iff.mp (List.mem_append_right _ (List.mem_map_of_mem hmem))
  have hslots := @mem_computePeriodicUciSlotOffsets ctx ue
  rw [h.params] at hslots
  refine hslots (cell.mem_periodicConfigs hsr) (fun csi hcell config hconfig => ?_) (h.csi_isSome ue hmem) slot
  exact mem_csiConfigs hcell (h.csi.mem_iff.mp
    (List.mem_append_right _ (List.mem_filterMap.mpr ⟨ue, hmem, hconfig⟩)))

theorem mem_slots_of_found {ue : UePucchConfig}
    (hfound : ctx.Found limit ctx.freeSrConfigs ue.srConfig ue.periodicCsiReport) (slot : Nat) :
    slot ∈ ctx.computePeriodicUciSlotOffsets ue.srOffset (csiOffsetOf ue.periodicCsiReport) ↔
      slot < cell.lcmCsiSrPeriod ∧ ue.hasOccasion cell slot = true := by
  have hslots := @mem_computePeriodicUciSlotOffsets ctx ue
  have hsome := hfound.csi_isSome
  have hbest := hfound.best
  rw [h.params] at hslots hsome hbest
  exact hslots (h.free_sr_offset hfound.free)
    (fun csi hcell config hconfig => h.free_csi_offset hcell (hbest csi config hcell hconfig).free) hsome slot

theorem lt_limit_of_found {ue : UePucchConfig}
    (hfound : ctx.Found limit ctx.freeSrConfigs ue.srConfig ue.periodicCsiReport) {slot : Nat}
    (hlt : slot < cell.lcmCsiSrPeriod) (hoccasion : ue.hasOccasion cell slot = true) :
    SlotCounters.get ctx.periodicPucchsPerSlot slot < limit := by
  have hwithin := hfound.within
  have hbest := hfound.best
  rw [h.params] at hwithin hbest
  have hlt' : slot < ctx.cellParams.lcmCsiSrPeriod := by rw [h.params]; exact hlt
  rw [UePucchConfig.hasOccasion, Bool.or_eq_true, decide_eq_true_iff] at hoccasion
  rcases hoccasion with hsr | hcsi
  · exact hwithin slot hlt' hsr
  · rw [UePucchConfig.hasCsiOccasion] at hcsi
    cases hcell : cell.csi with
    | none =>
      rw [hcell] at hcsi
      cases hcsi
    | some csi =>
      rw [hcell] at hcsi
      cases hconfig : ue.periodicCsiReport with
      | none =>
        rw [hconfig] at hcsi
        cases hcsi
      | some config =>
        rw [hconfig] at hcsi
        exact (hbest csi config hcell hconfig).admissible.within slot hlt' (of_decide_eq_true hcsi)

theorem allocated {ue : UePucchConfig} {counters : List Nat} (ueIdx : Nat)
    (hfound : ctx.Found limit ctx.freeSrConfigs ue.srConfig ue.periodicCsiReport)
    (hlength : counters.length = ctx.periodicPucchsPerSlot.length)
    (hcounters : ∀ slot, SlotCounters.get counters slot = SlotCounters.get ctx.periodicPucchsPerSlot slot +
      if slot ∈ ctx.computePeriodicUciSlotOffsets ue.srOffset (csiOffsetOf ue.periodicCsiReport) then 1 else 0) :
    CellInv limit cell { ctx with
      freeSrConfigs := ctx.freeSrConfigs.erase ue.srConfig
      freeCsiConfigs := (ue.periodicCsiReport.map ctx.freeCsiConfigs.erase).getD ctx.freeCsiConfigs
      ueIdx := ueIdx
      periodicPucchsPerSlot := counters } (ue :: holders) where
  params := h.params
  sr := by
    rw [List.map_cons]
    refine (List.perm_middle.trans ?_).trans h.sr
    exact ((List.perm_cons_erase hfound.free).symm.append_right _)
  csi := by
    cases hconfig : ue.periodicCsiReport with
    | none =>
      rw [List.filterMap_cons_none hconfig]
      exact h.csi
    | some config =>
      have hsome := hfound.csi_isSome
      rw [hconfig] at hsome
      obtain ⟨csi, hcell⟩ := Option.isSome_iff_exists.mp hsome.symm
      rw [List.filterMap_cons_some hconfig]
      refine (List.perm_middle.trans ?_).trans h.csi
      exact (List.perm_cons_erase (hfound.best csi config hcell hconfig).free).symm.append_right _
  csi_isSome := by
    intro ue' hmem
    rcases List.mem_cons.mp hmem with rfl | hmem
    · rw [← h.params]
      exact hfound.csi_isSome
    · exact h.csi_isSome ue' hmem
  length := hlength.trans h.length
  counters := by
    intro slot hlt
    rw [hcounters, h.counters slot hlt, List.countP_cons]
    refine congrArg _ (if_congr ?_ rfl rfl)
    rw [h.mem_slots_of_found hfound]
    exact ⟨fun hmem => hmem.2, fun hoccasion => ⟨hlt, hoccasion⟩⟩
  limit := by
    intro slot
    rw [hcounters]
    by_cases hmem : slot ∈ ctx.computePeriodicUciSlotOffsets ue.srOffset (csiOffsetOf ue.periodicCsiReport)
    · obtain ⟨hlt, hoccasion⟩ := (h.mem_slots_of_found hfound slot).mp hmem
      rw [if_pos hmem]
      exact h.lt_limit_of_found hfound hlt hoccasion
    · rw [if_neg hmem]
      exact h.limit slot

theorem allocResources_ok (ue : UePucchConfig) :
    ∃ ctx' ue' allocated, ctx.allocResources limit ue = .ok (ctx', ue', allocated) ∧
      (allocated = false → ctx' = ctx ∧ ue'.pucchCfg = false) ∧
      (allocated = true → ue'.pucchCfg = true ∧ CellInv limit cell ctx' (ue' :: holders) ∧
        ctx.Found limit ctx.freeSrConfigs ue'.srConfig ue'.periodicCsiReport) := by
  rw [allocResources]
  by_cases hempty : (ctx.freeSrConfigs.isEmpty || (ctx.cellParams.csi.isSome && ctx.freeCsiConfigs.isEmpty)) = true
  · rw [if_pos hempty]
    exact ⟨ctx, _, false, rfl, fun _ => ⟨rfl, rfl⟩, fun hfalse => by cases hfalse⟩
  rw [if_neg hempty]
  obtain ⟨result, hrun, hfound⟩ := findConfigs_ok limit h.length_ctx
    (fun csi hcell config hmem => h.free_csi_offset (by rw [← h.params]; exact hcell) hmem) ctx.freeSrConfigs
    (fun sr hmem => by rw [h.params]; exact h.free_sr_offset hmem)
  rw [hrun, ok_bind]
  cases result with
  | none => exact ⟨ctx, _, false, rfl, fun _ => ⟨rfl, rfl⟩, fun hfalse => by cases hfalse⟩
  | some found =>
    obtain ⟨sr, csi⟩ := found
    have hfound := hfound sr csi rfl
    have hue : ctx.Found limit ctx.freeSrConfigs
        (UePucchConfig.srConfig ⟨true, ctx.ueIdx % ctx.cellParams.nofCellResSetConfigs, sr.res, sr.offset, csi⟩)
        (UePucchConfig.periodicCsiReport
          ⟨true, ctx.ueIdx % ctx.cellParams.nofCellResSetConfigs, sr.res, sr.offset, csi⟩) := hfound
    obtain ⟨counters, hcount, hlength, hcounters⟩ :=
      SlotCounters.incrementAll_ok PucchFault.counter (computePeriodicUciSlotOffsets_nodup sr.offset (csiOffsetOf csi))
      fun slot hmem => by
        rw [h.length]
        exact ((h.mem_slots_of_found hue slot).mp hmem).1
    dsimp only
    rw [hcount, ok_bind]
    exact ⟨_, _, true, rfl, fun hfalse => (by cases hfalse),
      fun _ => ⟨rfl, h.allocated (ctx.ueIdx + 1) hue hlength hcounters, hfound⟩⟩

end

theorem deallocResources_reset (ctx : PucchCellContext) {ue : UePucchConfig} (hue : ue.pucchCfg = false) :
    ctx.deallocResources ue = .ok (ctx, ue) := by
  rw [deallocResources, if_pos (by simp [hue])]

theorem deallocResources_ok {ue : UePucchConfig} (h : CellInv limit cell ctx (ue :: holders))
    (hue : ue.pucchCfg = true) :
    ∃ ctx', ctx.deallocResources ue = .ok (ctx', ue.disablePucchCfg) ∧ CellInv limit cell ctx' holders := by
  have hslots := h.holder_slots List.mem_cons_self
  have hsome : ctx.cellParams.csi.isSome = ue.periodicCsiReport.isSome := by
    rw [h.params]
    exact (h.csi_isSome ue List.mem_cons_self).symm
  obtain ⟨counters, hcount, hlength, hcounters⟩ :=
    @SlotCounters.decrementAll_ok _ PucchFault.counter ctx.periodicPucchsPerSlot _
    (computePeriodicUciSlotOffsets_nodup ue.srOffset (csiOffsetOf ue.periodicCsiReport)) fun slot hmem => by
      obtain ⟨hlt, hoccasion⟩ := (hslots slot).mp hmem
      rw [h.counters slot hlt, List.countP_cons_of_pos hoccasion]
      exact Nat.succ_pos _
  rw [deallocResources, if_neg (by simp [hue]), if_neg (by simp [hsome]), hcount, ok_bind]
  refine ⟨_, rfl, ?_⟩
  exact {
    params := h.params
    sr := by
      have hsr := h.sr
      rw [List.map_cons] at hsr
      dsimp only
      rw [List.append_assoc]
      exact hsr
    csi := by
      have hcsi := h.csi
      dsimp only
      rw [List.append_assoc]
      cases hconfig : ue.periodicCsiReport with
      | none =>
        rw [List.filterMap_cons_none hconfig] at hcsi
        exact hcsi
      | some config =>
        rw [List.filterMap_cons_some hconfig] at hcsi
        exact hcsi
    csi_isSome := fun ue' hmem => h.csi_isSome ue' (List.mem_cons_of_mem _ hmem)
    length := hlength.trans h.length
    counters := by
      intro slot hlt
      have hcount := h.counters slot hlt
      rw [hcounters, List.countP_cons] at hcount
      have hif : (if slot ∈ ctx.computePeriodicUciSlotOffsets ue.srOffset (csiOffsetOf ue.periodicCsiReport) then 1
          else 0) = if ue.hasOccasion cell slot = true then 1 else 0 :=
        if_congr ((hslots slot).trans ⟨fun hmem => hmem.2, fun hoccasion => ⟨hlt, hoccasion⟩⟩) rfl rfl
      rw [hif] at hcount
      exact Nat.add_right_cancel hcount
    limit := fun slot => Nat.le_trans (by rw [hcounters]; exact Nat.le_add_right _ _) (h.limit slot) }

end CellInv

end Ocudu.Du
