import Ocudu.Sched.SliceRun

/-! The order in which the candidates of the slices are popped: below the minimum of a slice first. -/

namespace Ocudu.Sched

/-- What the candidates of a slice in one PxSCH slot are made from. -/
structure RbShare where
  slot : Nat
  rbCount : Nat
  scaledMin : Nat
  scaledMax : Nat
  deriving DecidableEq

/-- The interval from the scaled minimum to the scaled maximum is valid, and the candidate with it is not taken for
one below the minimum. -/
abbrev RbShare.Fits (share : RbShare) (limits : RbLimits) (active : Bool) : Prop :=
  share.rbCount < limits.min → 0 < limits.shared →
    share.rbCount ≤ share.scaledMin ∧ share.scaledMin ≤ share.scaledMax ∧
      (active = true → share.scaledMax ≤ limits.min → share.scaledMax = share.scaledMin)

/-- What the limits of a slice and the loops before the candidates give. -/
structure RbShare.Scaled (share : RbShare) (limits : RbLimits) : Prop where
  min_le : share.scaledMin ≤ limits.min
  max_le : share.scaledMax ≤ limits.max
  room : share.rbCount < share.scaledMax
  shared : limits.shared = 0 → share.scaledMin = share.scaledMax

namespace InterSliceScheduler

variable {cell : SliceCellConfig} {inp : SliceSlotInput} {dir : Direction} {inst : RanSliceInstance}
  {slices : List RanSliceInstance} {id : Nat} {x : SliceCandidateContext} {l q : List SliceCandidateContext}

def delay : Direction → RanSliceInstance → Nat → Nat
  | .dl, inst, slot => RanSliceInstance.nofSlotsSinceLast inst.lastPdschAllocSlot slot
  | .ul, inst, slot => RanSliceInstance.nofSlotsSinceLast inst.lastPuschAllocSlot slot

def avgRbs (inp : SliceSlotInput) : Direction → Nat → Nat
  | .dl => inp.avgPdschRbs
  | .ul => inp.avgPuschRbs

def shares (cell : SliceCellConfig) (inp : SliceSlotInput) (inst : RanSliceInstance) : Direction → List RbShare
  | .dl => if inp.pdschEnabled = false ∨ inst.cfg.rbs.max ≤ inst.pdschRbCount then []
    else [⟨inp.slotTx, inst.pdschRbCount, inst.cfg.rbs.min, inst.cfg.rbs.max⟩]
  | .ul => (usedTdRes cell inp inst none (cell.validPuschTdList inp.slotTx)).map fun i =>
    ⟨puschSlot cell inp i, inst.nofPuschRbsAllocated cell (puschSlot cell inp i),
      scaled cell inp i inst.cfg.rbs.min, scaled cell inp i inst.cfg.rbs.max⟩

theorem activePrio_fields (cfg : SliceRrmPolicyConfig) (pdcchSlot pxschSlot rbLims since avg : Nat) :
    activePrio cfg pdcchSlot pxschSlot rbLims since avg < 2 ^ 32 ∧
    activePrio cfg pdcchSlot pxschSlot rbLims since avg / 2 ^ 25 = slotDist pdcchSlot pxschSlot ∧
    activePrio cfg pdcchSlot pxschSlot rbLims since avg / 2 ^ 24 % 2 = minRbPrio cfg.rbs rbLims ∧
    activePrio cfg pdcchSlot pxschSlot rbLims since avg / 2 ^ 16 % 2 ^ 8 = min cfg.priority 255 ∧
    activePrio cfg pdcchSlot pxschSlot rbLims since avg / 2 ^ 8 % 2 ^ 8 = min since 255 := by
  have hdist : slotDist pdcchSlot pxschSlot ≤ 127 := Nat.sub_le _ _
  have hflag : minRbPrio cfg.rbs rbLims ≤ 1 := by
    unfold minRbPrio
    split_ifs <;> omega
  have hprio : min cfg.priority 255 ≤ 255 := min_le_right _ _
  have hsince : min since 255 ≤ 255 := min_le_right _ _
  have havg : 127 - min avg 127 ≤ 127 := Nat.sub_le _ _
  simp only [activePrio]
  generalize slotDist pdcchSlot pxschSlot = dist at *
  generalize minRbPrio cfg.rbs rbLims = flag at *
  generalize min cfg.priority 255 = prio at *
  generalize min since 255 = since at *
  generalize 127 - min avg 127 = rr at *
  omega

theorem getPrio_eq (hactive : inp.active id = true) (slot stop : Nat) : getPrio inp dir id inst slot stop =
    activePrio inst.cfg inp.slotTx slot stop (delay dir inst slot) (avgRbs inp dir id) := by
  cases dir <;> exact if_pos hactive

theorem mem_pushed_iff {slot : Nat} {rbLims : OrderedInterval} : x ∈ pushed inp dir id inst slot rbLims ↔
    inp.active id = true ∧ x = ⟨id, getPrio inp dir id inst slot rbLims.stop, rbLims, slot⟩ := by
  have hskip : getPrio inp dir id inst slot rbLims.stop = skipPrio ↔ ¬inp.active id = true := by
    constructor
    · intro hskip hactive
      rw [getPrio_eq hactive, activePrio, skipPrio] at hskip
      lia
    · exact fun hactive => if_neg hactive
  simp only [pushed, hskip]
  split_ifs with h
  · rw [List.mem_singleton, and_iff_right h]
  · simp [h]

theorem exists_collect {α : Type} {f : α → Except SliceFault (List SliceCandidateContext)} {as : List α} :
    (∃ l, collect f as = .ok l) ↔ ∀ a ∈ as, ∃ l, f a = .ok l := by
  induction as with
  | nil => exact ⟨fun _ a ha => absurd ha List.not_mem_nil, fun _ => ⟨[], rfl⟩⟩
  | cons a as ih =>
    rw [List.forall_mem_cons, ← ih, collect]
    constructor
    · rintro ⟨l, hl⟩
      obtain ⟨first, hfirst, hl⟩ := bind_eq_ok.mp hl
      obtain ⟨rest, hrest, -⟩ := bind_eq_ok.mp hl
      exact ⟨⟨first, hfirst⟩, rest, hrest⟩
    · rintro ⟨⟨first, hfirst⟩, rest, hrest⟩
      exact ⟨first ++ rest, by rw [hfirst, ok_bind, hrest, ok_bind, pure_eq_ok]⟩

theorem mem_collect {α : Type} {f : α → Except SliceFault (List SliceCandidateContext)} {as : List α}
    (hl : collect f as = .ok l) : x ∈ l ↔ ∃ a ∈ as, ∃ l', f a = .ok l' ∧ x ∈ l' := by
  induction as generalizing l with
  | nil =>
    cases hl
    simp
  | cons a as ih =>
    rw [collect] at hl
    obtain ⟨first, hfirst, hl⟩ := bind_eq_ok.mp hl
    obtain ⟨rest, hrest, hl⟩ := bind_eq_ok.mp hl
    cases hl
    rw [List.mem_append, ih hrest, List.exists_mem_cons_iff, hfirst]
    simp

theorem collect_map {α β : Type} {f : β → Except SliceFault (List SliceCandidateContext)} (g : α → β)
    (as : List α) : collect f (as.map g) = collect (fun a => f (g a)) as := by
  induction as with
  | nil => rfl
  | cons a as ih => rw [List.map_cons, collect, collect, ih]

def pushShare (inp : SliceSlotInput) (dir : Direction) (id : Nat) (inst : RanSliceInstance) (share : RbShare) :
    Except SliceFault (List SliceCandidateContext) :=
  pushCandidates inp dir id inst share.slot share.rbCount share.scaledMin share.scaledMax

theorem candidates_eq : candidates cell inp dir id inst =
    collect (pushShare inp dir id inst) (shares cell inp inst dir) := by
  cases dir with
  | dl =>
    rw [candidates, dlCandidates, shares]
    split_ifs
    · rfl
    · rw [collect, collect]
      cases h : pushCandidates inp .dl id inst inp.slotTx inst.pdschRbCount inst.cfg.rbs.min inst.cfg.rbs.max with
      | error f => rw [pushShare, h]; rfl
      | ok l => rw [pushShare, h, ok_bind, pure_eq_ok, ok_bind, List.append_nil, pure_eq_ok]
  | ul =>
    rw [shares, collect_map]
    rfl

abbrev FlagExact (x : SliceCandidateContext) (m : Nat) : Prop :=
  x.rbLims.start < x.rbLims.stop → (x.prio / 2 ^ 24 % 2 = 1 ↔ x.rbLims.start < m)

theorem getPrio_flag (hactive : inp.active id = true) (slot stop : Nat) :
    getPrio inp dir id inst slot stop / 2 ^ 24 % 2 = 1 ↔ 0 < inst.cfg.rbs.min ∧ stop ≤ inst.cfg.rbs.min := by
  rw [getPrio_eq hactive, (activePrio_fields _ _ _ _ _ _).2.2.1, minRbPrio]
  split_ifs with h
  · exact iff_of_true rfl h
  · exact iff_of_false (by decide) h

theorem pushShare_spec {share : RbShare} (hl : pushShare inp dir id inst share = .ok l) (hx : x ∈ l) :
    inp.active id = true ∧ x.id = id ∧ x.slotTx = share.slot ∧
      x.prio = getPrio inp dir id inst share.slot x.rbLims.stop := by
  rw [pushShare, pushCandidates] at hl
  split_ifs at hl
  · obtain ⟨first, -, hl⟩ := bind_eq_ok.mp hl
    obtain ⟨second, -, hl⟩ := bind_eq_ok.mp hl
    cases hl
    rcases List.mem_append.mp hx with hx | hx
    · obtain ⟨hactive, rfl⟩ := mem_pushed_iff.mp hx
      exact ⟨hactive, rfl, rfl, rfl⟩
    · obtain ⟨hactive, rfl⟩ := mem_pushed_iff.mp hx
      exact ⟨hactive, rfl, rfl, rfl⟩
  · obtain ⟨rbLims, -, hl⟩ := bind_eq_ok.mp hl
    cases hl
    obtain ⟨hactive, rfl⟩ := mem_pushed_iff.mp hx
    exact ⟨hactive, rfl, rfl, rfl⟩

theorem rbInterval_eq_ok {start stop : Nat} {i : OrderedInterval} (h : rbInterval start stop = .ok i) :
    ∃ hle : start ≤ stop, i = ⟨⟨start, stop⟩, hle⟩ := by
  unfold rbInterval at h
  split_ifs at h with hle
  cases h
  exact ⟨hle, rfl⟩

theorem pushShare_exact {share : RbShare} (hs : share.Scaled inst.cfg.rbs) :
    (∃ l, pushShare inp dir id inst share = .ok l ∧ ∀ x ∈ l, FlagExact x share.scaledMin) ↔
      RbShare.Fits share inst.cfg.rbs (inp.active id) := by
  have hroom := hs.room
  have hminle := hs.min_le
  by_cases htwo : share.rbCount < inst.cfg.rbs.min ∧ 0 < inst.cfg.rbs.min ∧ 0 < inst.cfg.rbs.shared
  · have hpush : pushShare inp dir id inst share = (do
        let first ← rbInterval share.rbCount share.scaledMin
        let second ← rbInterval share.scaledMin share.scaledMax
        pure (pushed inp dir id inst share.slot first ++ pushed inp dir id inst share.slot second)) := if_pos htwo
    constructor
    · rintro ⟨l, hl, hexact⟩ - -
      rw [hpush] at hl
      obtain ⟨first, hfirst, hl⟩ := bind_eq_ok.mp hl
      obtain ⟨second, hsecond, hl⟩ := bind_eq_ok.mp hl
      cases hl
      obtain ⟨hle, rfl⟩ := rbInterval_eq_ok hfirst
      obtain ⟨hle', rfl⟩ := rbInterval_eq_ok hsecond
      refine ⟨hle, hle', fun hactive hmax => ?_⟩
      -- the flag of the second candidate is set, so it has no RBs
      have hflag := hexact _ (List.mem_append_right _ (mem_pushed_iff.mpr ⟨hactive, rfl⟩))
      by_contra hne
      have hset := (hflag (lt_of_le_of_ne hle' (Ne.symm hne))).mp
        ((getPrio_flag hactive _ _).mpr ⟨htwo.2.1, hmax⟩)
      exact absurd hset (Nat.lt_irrefl _)
    · intro hfits
      obtain ⟨hle, hle', hmax⟩ := hfits htwo.1 htwo.2.2
      refine ⟨_, by rw [hpush, rbInterval_ok hle, rbInterval_ok hle']; rfl, fun x hx => ?_⟩
      rcases List.mem_append.mp hx with hx | hx
      · obtain ⟨hactive, rfl⟩ := mem_pushed_iff.mp hx
        intro hlt
        exact iff_of_true ((getPrio_flag hactive _ _).mpr ⟨htwo.2.1, hminle⟩) hlt
      · obtain ⟨hactive, rfl⟩ := mem_pushed_iff.mp hx
        intro hlt
        refine iff_of_false (fun hflag => ?_) (Nat.lt_irrefl _)
        exact absurd (hmax hactive ((getPrio_flag hactive _ _).mp hflag).2) (Nat.ne_of_gt hlt)
  · have hpush : pushShare inp dir id inst share = .ok (pushed inp dir id inst share.slot
        ⟨⟨share.rbCount, share.scaledMax⟩, hroom.le⟩) := by
      rw [pushShare, pushCandidates, if_neg htwo, rbInterval_ok hroom.le]
      rfl
    refine iff_of_true ⟨_, hpush, fun x hx => ?_⟩ fun hcount hshared => absurd ⟨hcount, by omega, hshared⟩ htwo
    obtain ⟨hactive, rfl⟩ := mem_pushed_iff.mp hx
    intro _
    rw [getPrio_flag hactive]
    constructor
    · rintro ⟨hpos, hle⟩
      have hshared : inst.cfg.rbs.shared = 0 := by
        by_contra hne
        exact htwo ⟨hroom.trans_le hle, hpos, Nat.pos_of_ne_zero hne⟩
      exact hroom.trans_le (hs.shared hshared).ge
    · intro hlt
      have hcount : share.rbCount < inst.cfg.rbs.min := hlt.trans_le hminle
      have hshared : inst.cfg.rbs.shared = 0 := by
        by_contra hne
        exact htwo ⟨hcount, by omega, Nat.pos_of_ne_zero hne⟩
      exact ⟨by omega, (hs.shared hshared).ge.trans hminle⟩

theorem shares_scaled {share : RbShare} (hshare : share ∈ shares cell inp inst dir) : share.Scaled inst.cfg.rbs := by
  have heq : inst.cfg.rbs.shared = 0 → inst.cfg.rbs.min = inst.cfg.rbs.max := fun h =>
    Nat.le_antisymm inst.cfg.rbs.min_le (Nat.le_of_sub_eq_zero h)
  cases dir with
  | dl =>
    rw [shares] at hshare
    split_ifs at hshare with h
    · cases hshare
    · rw [List.mem_singleton.mp hshare]
      exact ⟨le_rfl, le_rfl, Nat.lt_of_not_le fun hc => h (.inr hc), heq⟩
  | ul =>
    obtain ⟨i, hi, rfl⟩ := List.mem_map.mp hshare
    obtain ⟨-, -, hroom⟩ := of_decide_eq_true (mem_usedTdRes hi).2
    exact ⟨scaled_le _ _, scaled_le _ _, hroom,
      fun h => congrArg (scaled cell inp i) (heq h)⟩

theorem shares_inj {share share' : RbShare} (h : share ∈ shares cell inp inst dir)
    (h' : share' ∈ shares cell inp inst dir) (hslot : share.slot = share'.slot) : share = share' := by
  cases dir with
  | dl =>
    rw [shares] at h h'
    split_ifs at h h'
    · cases h
    · rw [List.mem_singleton.mp h, List.mem_singleton.mp h']
  | ul =>
    obtain ⟨i, hi, rfl⟩ := List.mem_map.mp h
    obtain ⟨j, hj, rfl⟩ := List.mem_map.mp h'
    have hk2 : cell.k2 i = cell.k2 j := by
      change inp.slotTx + (cell.k2 i + cell.ntnCsKoffset) = inp.slotTx + (cell.k2 j + cell.ntnCsKoffset) at hslot
      omega
    have hpair := (@usedTdRes_pairwise cell inp inst none _ (@validPuschTdList_sorted cell inp.slotTx) (by simp)).1
    have hnodup := List.pairwise_map.mpr (hpair.imp fun hlt => hlt.ne)
    rw [List.inj_on_of_nodup_map hnodup hi hj hk2]

def IsMinimumOf (cell : SliceCellConfig) (inp : SliceSlotInput) (dir : Direction) (slices : List RanSliceInstance)
    (x : SliceCandidateContext) (m : Nat) : Prop :=
  ∃ inst, slices[x.id]? = some inst ∧ ∃ share ∈ shares cell inp inst dir,
    share.slot = x.slotTx ∧ share.scaledMin = m

def Below (cell : SliceCellConfig) (inp : SliceSlotInput) (dir : Direction) (slices : List RanSliceInstance)
    (x : SliceCandidateContext) : Prop :=
  ∃ m, IsMinimumOf cell inp dir slices x m ∧ x.rbLims.start < x.rbLims.stop ∧ x.rbLims.start < m

def OnlyAbove (cell : SliceCellConfig) (inp : SliceSlotInput) (dir : Direction) (slices : List RanSliceInstance)
    (x : SliceCandidateContext) : Prop :=
  ∃ m, IsMinimumOf cell inp dir slices x m ∧ x.rbLims.start < x.rbLims.stop ∧ m ≤ x.rbLims.start

structure Packed (inp : SliceSlotInput) (dir : Direction) (slices : List RanSliceInstance)
    (x : SliceCandidateContext) : Prop where
  lt : x.prio < 2 ^ 32
  dist : x.prio / 2 ^ 25 = slotDist inp.slotTx x.slotTx
  prio : ∃ inst, slices[x.id]? = some inst ∧ x.prio / 2 ^ 16 % 2 ^ 8 = min inst.cfg.priority 255 ∧
    x.prio / 2 ^ 8 % 2 ^ 8 = min (delay dir inst x.slotTx) 255

/-- A queue in which the minimum of a slice comes before what is shared. -/
structure Ranked (cell : SliceCellConfig) (inp : SliceSlotInput) (dir : Direction) (slices : List RanSliceInstance)
    (q : List SliceCandidateContext) : Prop where
  packed : ∀ x ∈ q, Packed inp dir slices x
  flag : ∀ x ∈ q, x.rbLims.start < x.rbLims.stop → (x.prio / 2 ^ 24 % 2 = 1 ↔ Below cell inp dir slices x)
  order : q.Pairwise fun x y => x.slotTx = y.slotTx → OnlyAbove cell inp dir slices x →
    ¬Below cell inp dir slices y

/-- Every share is scaled to valid candidates with exact flags. -/
def SharesFit (cell : SliceCellConfig) (inp : SliceSlotInput) (dir : Direction)
    (slices : List RanSliceInstance) : Prop :=
  ∀ p ∈ slices.zipIdx, ∀ share ∈ shares cell inp p.1 dir, RbShare.Fits share p.1.cfg.rbs (inp.active p.2)

theorem isMinimumOf_iff {share : RbShare} (hinst : slices[id]? = some inst)
    (hshare : share ∈ shares cell inp inst dir) (hid : x.id = id) (hslot : x.slotTx = share.slot) {m : Nat} :
    IsMinimumOf cell inp dir slices x m ↔ share.scaledMin = m := by
  constructor
  · rintro ⟨inst', hinst', share', hshare', hslot', rfl⟩
    rw [hid, hinst] at hinst'
    obtain rfl := Option.some.inj hinst'
    rw [shares_inj hshare hshare' (hslot.symm.trans hslot'.symm)]
  · exact fun hm => ⟨inst, hid ▸ hinst, share, hshare, hslot.symm, hm⟩

theorem mem_pushAll (hl : pushAll cell inp dir slices = .ok l) : x ∈ l ↔ ∃ inst id, slices[id]? = some inst ∧
    ∃ share ∈ shares cell inp inst dir, ∃ l', pushShare inp dir id inst share = .ok l' ∧ x ∈ l' := by
  rw [pushAll] at hl
  rw [mem_collect hl]
  constructor
  · rintro ⟨p, hp, l', hl', hx⟩
    rw [candidates_eq] at hl'
    exact ⟨p.1, p.2, List.mem_zipIdx_iff_getElem?.mp hp, (mem_collect hl').mp hx⟩
  · rintro ⟨inst, id, hinst, share, hshare, l', hl', hx⟩
    have hp : (inst, id) ∈ slices.zipIdx := List.mem_zipIdx_iff_getElem?.mpr hinst
    obtain ⟨l'', hl''⟩ := exists_collect.mp ⟨l, hl⟩ _ hp
    refine ⟨_, hp, l'', hl'', ?_⟩
    rw [candidates_eq] at hl''
    exact (mem_collect hl'').mpr ⟨share, hshare, l', hl', hx⟩

theorem exists_pushAll : (∃ l, pushAll cell inp dir slices = .ok l) ↔ ∀ inst id, slices[id]? = some inst →
    ∀ share ∈ shares cell inp inst dir, ∃ l, pushShare inp dir id inst share = .ok l := by
  rw [pushAll, exists_collect]
  constructor
  · intro h inst id hinst
    have hl := h (inst, id) (List.mem_zipIdx_iff_getElem?.mpr hinst)
    rw [candidates_eq] at hl
    exact exists_collect.mp hl
  · intro h p hp
    rw [candidates_eq]
    exact exists_collect.mpr (h p.1 p.2 (List.mem_zipIdx_iff_getElem?.mp hp))

theorem ranked_of_exact {sort : List SliceCandidateContext → List SliceCandidateContext} (hsort : SortsByPrio sort)
    (hl : pushAll cell inp dir slices = .ok l)
    (hflag : ∀ x ∈ l, x.rbLims.start < x.rbLims.stop → (x.prio / 2 ^ 24 % 2 = 1 ↔ Below cell inp dir slices x)) :
    Ranked cell inp dir slices (sort l) := by
  obtain ⟨hperm, hsorted⟩ := hsort l
  have hpacked : ∀ x ∈ l, Packed inp dir slices x := by
    intro x hx
    obtain ⟨inst, id, hinst, share, -, l', hl', hx⟩ := (mem_pushAll hl).mp hx
    obtain ⟨hactive, hid, hslot, hprio⟩ := pushShare_spec hl' hx
    obtain ⟨hlt, hdist, -, hp, hd⟩ := activePrio_fields inst.cfg inp.slotTx share.slot x.rbLims.stop
      (delay dir inst share.slot) (avgRbs inp dir id)
    rw [← getPrio_eq hactive, ← hprio] at hlt hdist hp hd
    rw [← hslot] at hdist hd
    exact ⟨hlt, hdist, inst, hid ▸ hinst, hp, hd⟩
  refine ⟨fun x hx => hpacked x (hperm.mem_iff.mp hx), fun x hx => hflag x (hperm.mem_iff.mp hx), ?_⟩
  refine List.Pairwise.imp_of_mem (fun {x y} hx hy hle hslot habove hbelow => ?_) hsorted
  have hx := hperm.mem_iff.mp hx
  have hy := hperm.mem_iff.mp hy
  obtain ⟨m, hm, hlt, hle'⟩ := habove
  have hunset : x.prio / 2 ^ 24 % 2 ≠ 1 := by
    intro hset
    obtain ⟨m', hm', -, hlt'⟩ := (hflag x hx hlt).mp hset
    obtain ⟨inst, id, hinst, share, hshare, l', hl', hx⟩ := (mem_pushAll hl).mp hx
    obtain ⟨-, hid, hslot, -⟩ := pushShare_spec hl' hx
    have h₁ := (isMinimumOf_iff hinst hshare hid hslot).mp hm
    have h₂ := (isMinimumOf_iff hinst hshare hid hslot).mp hm'
    omega
  have hset := (hflag y hy (by obtain ⟨_, _, h, _⟩ := hbelow; exact h)).mpr hbelow
  have hdist : x.prio / 2 ^ 25 = y.prio / 2 ^ 25 := by
    rw [(hpacked x hx).dist, (hpacked y hy).dist, hslot]
  lia

theorem ranked_pushAll_iff {sort : List SliceCandidateContext → List SliceCandidateContext}
    (hsort : SortsByPrio sort) :
    (∃ l, pushAll cell inp dir slices = .ok l ∧ Ranked cell inp dir slices (sort l)) ↔
      SharesFit cell inp dir slices := by
  constructor
  · rintro ⟨l, hl, hranked⟩ p hp share hshare
    have hinst := List.mem_zipIdx_iff_getElem?.mp hp
    obtain ⟨l', hl'⟩ := exists_pushAll.mp ⟨l, hl⟩ p.1 p.2 hinst share hshare
    refine (pushShare_exact (shares_scaled hshare)).mp ⟨l', hl', fun x hx hlt => ?_⟩
    obtain ⟨-, hid, hslot, -⟩ := pushShare_spec hl' hx
    have hmem : x ∈ sort l := (hsort l).1.mem_iff.mpr
      ((mem_pushAll hl).mpr ⟨p.1, p.2, hinst, share, hshare, l', hl', hx⟩)
    rw [hranked.flag x hmem hlt]
    constructor
    · rintro ⟨m, hm, -, hlt'⟩
      rwa [(isMinimumOf_iff hinst hshare hid hslot).mp hm]
    · exact fun hlt' => ⟨_, (isMinimumOf_iff hinst hshare hid hslot).mpr rfl, hlt, hlt'⟩
  · intro hfits
    have hexact : ∀ inst id, slices[id]? = some inst → ∀ share ∈ shares cell inp inst dir,
        ∃ l, pushShare inp dir id inst share = .ok l ∧ ∀ x ∈ l, FlagExact x share.scaledMin :=
      fun inst id hinst share hshare => (pushShare_exact (shares_scaled hshare)).mpr
        (hfits (inst, id) (List.mem_zipIdx_iff_getElem?.mpr hinst) share hshare)
    obtain ⟨l, hl⟩ := exists_pushAll.mpr fun inst id hinst share hshare =>
      (hexact inst id hinst share hshare).imp fun _ h => h.1
    refine ⟨l, hl, ranked_of_exact hsort hl fun x hx hlt => ?_⟩
    obtain ⟨inst, id, hinst, share, hshare, l', hl', hx⟩ := (mem_pushAll hl).mp hx
    obtain ⟨-, hid, hslot, -⟩ := pushShare_spec hl' hx
    obtain ⟨l'', hl'', hall⟩ := hexact inst id hinst share hshare
    rw [hl'] at hl''
    obtain rfl := Except.ok.inj hl''
    rw [hall x hx hlt]
    constructor
    · exact fun hlt' => ⟨_, (isMinimumOf_iff hinst hshare hid hslot).mpr rfl, hlt, hlt'⟩
    · rintro ⟨m, hm, -, hlt'⟩
      rwa [(isMinimumOf_iff hinst hshare hid hslot).mp hm]

theorem sharesFit_dl : SharesFit cell inp .dl slices := by
  intro p _ share hshare hcount hpos
  rw [shares] at hshare
  split_ifs at hshare with h
  · cases hshare
  · rw [List.mem_singleton.mp hshare] at hcount ⊢
    refine ⟨hcount.le, p.1.cfg.rbs.min_le, fun _ hle => absurd hle ?_⟩
    exact Nat.not_le.mpr (Nat.lt_of_sub_pos hpos)

theorem ranked_nil : Ranked cell inp dir slices [] :=
  ⟨by simp, by simp, .nil⟩

/-- The queues after a slot indication. -/
theorem slotIndication_ranked_iff {sort : List SliceCandidateContext → List SliceCandidateContext}
    (hsort : SortsByPrio sort) (s : InterSliceScheduler) (inp : SliceSlotInput) :
    (∃ s', s.slotIndication cell sort inp = .ok s' ∧ ∀ dir, Ranked cell inp dir s'.slices (s'.prioQueue dir)) ↔
      (inp.dlEnabled = true → SharesFit cell inp .ul (s.indicated cell inp.slotTx)) := by
  rw [slotIndication]
  split_ifs with hdl
  · rw [imp_iff_right hdl, ← ranked_pushAll_iff hsort]
    obtain ⟨dl, hdlok, hdlranked⟩ := (ranked_pushAll_iff hsort).mpr
      (@sharesFit_dl cell inp (s.indicated cell inp.slotTx))
    constructor
    · rintro ⟨s', hs', hranked⟩
      obtain ⟨_, _, hs'⟩ := bind_eq_ok.mp hs'
      obtain ⟨ul, hul, hs'⟩ := bind_eq_ok.mp hs'
      cases hs'
      exact ⟨ul, hul, hranked .ul⟩
    · rintro ⟨ul, hul, hulranked⟩
      refine ⟨_, by rw [hdlok, ok_bind, hul, ok_bind, pure_eq_ok], fun dir => ?_⟩
      cases dir with
      | dl => exact hdlranked
      | ul => exact hulranked
  · refine iff_of_true ⟨_, rfl, fun dir => ?_⟩ fun h => absurd h hdl
    cases dir with
    | dl => exact ranked_nil
    | ul => exact ranked_nil

def scaledCell : SliceCellConfig :=
  twoSliceCell ⟨0, 30, 100, by decide, by decide⟩ ⟨0, 40, 50, by decide, by decide⟩

theorem slotIndication_ranked_idle :
    (∃ s', (new scaledCell).slotIndication scaledCell insertionSort (busySlot 1 0) = .ok s' ∧
      ∀ dir, Ranked scaledCell (busySlot 1 0) dir s'.slices (s'.prioQueue dir)) ↔
      ((busySlot 1 0).dlEnabled = true →
        SharesFit scaledCell (busySlot 1 0) .ul ((new scaledCell).indicated scaledCell (busySlot 1 0).slotTx)) :=
  slotIndication_ranked_iff insertionSort_sorts (new scaledCell) (busySlot 1 0)

def observed (cell : SliceCellConfig) (inp : SliceSlotInput) (s : InterSliceScheduler) :
    List (Nat × Nat × Nat × Nat) × List (List RbShare) :=
  (s.ulPrioQueue.map fun x => (x.id, x.rbLims.start, x.rbLims.stop, x.slotTx),
    s.slices.map fun inst => shares cell inp inst .ul)

/-- Half of the RBs are used: the second slice may have 20 to 25 RBs, and 25 is not above its minimum of 40. -/
theorem aboveMinimum_first : ∃ s',
    (new scaledCell).slotIndication scaledCell insertionSort (busySlot 1 50) = .ok s' ∧
    s'.ulPrioQueue.map (fun x => (x.id, x.rbLims.start, x.rbLims.stop, x.slotTx)) =
      [(0, 0, 50, 5), (3, 0, 20, 5), (3, 20, 25, 5), (2, 0, 15, 5), (2, 15, 50, 5), (1, 0, 50, 5)] ∧
    ¬Ranked scaledCell (busySlot 1 50) .ul s'.slices s'.ulPrioQueue := by
  have hrun : ((new scaledCell).slotIndication scaledCell insertionSort (busySlot 1 50)).map
      (observed scaledCell (busySlot 1 50)) =
      .ok ([(0, 0, 50, 5), (3, 0, 20, 5), (3, 20, 25, 5), (2, 0, 15, 5), (2, 15, 50, 5), (1, 0, 50, 5)],
        [[⟨5, 0, 50, 50⟩], [⟨5, 0, 0, 50⟩], [⟨5, 0, 15, 50⟩], [⟨5, 0, 20, 25⟩]]) := by
    decide +kernel
  obtain ⟨s', hs', hobs⟩ := map_eq_ok.mp hrun
  obtain ⟨hqueue, hshares⟩ := Prod.mk.inj hobs
  have hmin : ∀ x m, (x.id = 2 ∧ m = 15 ∨ x.id = 3 ∧ m = 20) → x.slotTx = 5 →
      IsMinimumOf scaledCell (busySlot 1 50) .ul s'.slices x m := by
    intro x m hx hslot
    rcases hx with ⟨hid, rfl⟩ | ⟨hid, rfl⟩
    · obtain ⟨inst, hinst, hshare⟩ := Option.map_eq_some_iff.mp
        ((List.getElem?_map ..).symm.trans (congrArg (·[2]?) hshares))
      exact ⟨inst, hid ▸ hinst, _, hshare ▸ List.mem_singleton_self _, hslot.symm, rfl⟩
    · obtain ⟨inst, hinst, hshare⟩ := Option.map_eq_some_iff.mp
        ((List.getElem?_map ..).symm.trans (congrArg (·[3]?) hshares))
      exact ⟨inst, hid ▸ hinst, _, hshare ▸ List.mem_singleton_self _, hslot.symm, rfl⟩
  refine ⟨s', hs', hqueue, fun hranked => ?_⟩
  have horder := hranked.order
  obtain ⟨srb, rest, hq, -, hrest⟩ := List.map_eq_cons_iff.mp hqueue
  obtain ⟨first, rest, rfl, -, hrest⟩ := List.map_eq_cons_iff.mp hrest
  obtain ⟨above, rest, rfl, habove, hrest⟩ := List.map_eq_cons_iff.mp hrest
  obtain ⟨below, rest, rfl, hbelow, -⟩ := List.map_eq_cons_iff.mp hrest
  rw [hq] at horder
  have hpair := List.rel_of_pairwise_cons (List.pairwise_cons.mp (List.pairwise_cons.mp horder).2).2
    List.mem_cons_self
  simp only [Prod.mk.injEq] at habove hbelow
  obtain ⟨haid, hastart, hastop, haslot⟩ := habove
  obtain ⟨hbid, hbstart, hbstop, hbslot⟩ := hbelow
  exact hpair (haslot.trans hbslot.symm) ⟨20, hmin above 20 (.inr ⟨haid, rfl⟩) haslot, by omega, by omega⟩
    ⟨15, hmin below 15 (.inl ⟨hbid, rfl⟩) hbslot, by omega, by omega⟩

end InterSliceScheduler

end Ocudu.Sched
