import Ocudu.Sched.SliceQuota

/-! Runs of the inter-slice scheduler: the counters of a slice are what it was granted, and there is room for what is
offered. -/

namespace Ocudu.Sched

namespace InterSliceScheduler

variable {cell : SliceCellConfig} {s t : InterSliceScheduler} {grants : List RbGrant} {slices : List RanSliceInstance}
  {dir : Direction} {now slot : Nat}

def Counted (cell : SliceCellConfig) (grants : List RbGrant) (now : Nat) (slices : List RanSliceInstance) : Prop :=
  ∀ i inst, slices[i]? = some inst → inst.pdschRbCount = granted grants .dl i now ∧
    ∀ slot, now + cell.minK2 ≤ slot → slot < now + cell.minK2 + cell.puschRingSize →
      inst.puschRbCountPerSlot (slot % cell.puschRingSize) = granted grants .ul i slot

def NoneAhead (cell : SliceCellConfig) (grants : List RbGrant) (now : Nat) : Prop :=
  ∀ dir id slot, cell.lastSlot dir now < slot → granted grants dir id slot = 0

theorem Counted.rbCount_eq (hc : Counted cell grants now slices) {i : Nat} {inst : RanSliceInstance}
    (hi : slices[i]? = some inst) (hr : cell.Reaches dir now slot) :
    inst.rbCount cell dir slot = granted grants dir i slot := by
  obtain ⟨hdl, hul⟩ := hc i inst hi
  cases dir with
  | dl =>
    obtain rfl : now = slot := Nat.le_antisymm hr.1 hr.2
    exact hdl
  | ul =>
    have hmin := cell.minK2_pos
    have hring := cell.le_puschRingSize
    obtain ⟨hfirst, hlast⟩ := hr
    rw [SliceCellConfig.firstSlot] at hfirst
    rw [SliceCellConfig.lastSlot] at hlast
    exact hul slot (by omega) (by omega)

theorem mod_ne_of_lt {a b n : Nat} (hab : a < b) (hb : b < a + n) : b % n ≠ a % n := by
  intro h
  have hdvd : n ∣ b - a := (Nat.modEq_iff_dvd' hab.le).mp h.symm
  exact absurd (Nat.le_of_dvd (Nat.sub_pos_of_lt hab) hdvd) (by omega)

theorem Counted.indicate (hc : Counted cell grants now slices) (ha : NoneAhead cell grants now) :
    Counted cell grants (now + 1) (slices.map (·.slotIndication cell (now + 1))) := by
  intro i inst hi
  rw [List.getElem?_map, Option.map_eq_some_iff] at hi
  obtain ⟨inst, hi, rfl⟩ := hi
  obtain ⟨-, hul⟩ := hc i inst hi
  have hmin := cell.minK2_pos
  have hring := cell.le_puschRingSize
  refine ⟨(ha .dl i (now + 1) (Nat.lt_succ_self now)).symm, fun slot hfirst hlast => ?_⟩
  have hclear : now + 1 + cell.minK2 - 1 = now + cell.minK2 := by omega
  simp only [RanSliceInstance.slotIndication, hclear]
  rcases Nat.lt_or_ge slot (now + cell.minK2 + cell.puschRingSize) with hlt | hge
  · rw [if_neg (mod_ne_of_lt (by omega) hlt)]
    exact hul slot (by omega) hlt
  · obtain rfl : slot = now + cell.minK2 + cell.puschRingSize := by omega
    rw [if_pos (Nat.add_mod_right _ _)]
    refine (ha .ul i _ ?_).symm
    rw [SliceCellConfig.lastSlot]
    omega

theorem NoneAhead.mono (ha : NoneAhead cell grants now) {later : Nat} (h : now ≤ later) :
    NoneAhead cell grants later := by
  intro dir id slot hlt
  refine ha dir id slot (lt_of_le_of_lt ?_ hlt)
  cases dir with
  | dl => exact h
  | ul => exact Nat.add_le_add_right h _

theorem Counted.indicateSlots (hc : Counted cell grants now slices) (ha : NoneAhead cell grants now) (k : Nat) :
    Counted cell grants (now + k) (indicateSlots cell (List.range' (now + 1) k) slices) := by
  induction k generalizing now slices with
  | zero => exact hc
  | succ k ih =>
    rw [List.range'_succ]
    have hnext := ih (hc.indicate ha) (ha.mono (Nat.le_succ now))
    rw [Nat.add_right_comm] at hnext
    exact hnext

theorem indicateSlots_limits (slots : List Nat) (slices : List RanSliceInstance) :
    (indicateSlots cell slots slices).map (·.cfg.rbs) = slices.map (·.cfg.rbs) := by
  induction slots generalizing slices with
  | nil => rfl
  | cons slot slots ih =>
    refine (ih _).trans ?_
    rw [List.map_map]
    rfl

theorem getNofUsedReservedRbs_eq (hc : Counted cell s.grants now s.slices) (hr : cell.Reaches dir now slot) :
    s.getNofUsedReservedRbs cell dir slot = reserved s.limits (granted s.grants dir · slot) := by
  have hgen : ∀ (l : List RanSliceInstance) (f : Nat → Nat),
      (∀ i inst, l[i]? = some inst → inst.rbCount cell dir slot = f i) →
      (l.map fun inst => max inst.cfg.rbs.dedicated (inst.rbCount cell dir slot)).sum =
        reserved (l.map (·.cfg.rbs)) f := by
    intro l
    induction l with
    | nil => exact fun _ _ => rfl
    | cons inst l ih =>
      intro f hf
      rw [List.map_cons, List.map_cons, List.sum_cons, reserved, ih (fun i => f (i + 1)) fun i x hx => hf (i + 1) x hx,
        hf 0 inst rfl]
      omega
  exact hgen s.slices _ fun i inst hi => hc.rbCount_eq hi hr

theorem tryCandidate_ok {id : Nat} {l : RbLimits} {rbLims : OrderedInterval} (hc : Counted cell s.grants now s.slices)
    (hr : cell.Reaches dir now slot) (hl : s.limits[id]? = some l)
    (hfits : reserved s.limits (granted s.grants dir · slot) ≤ cell.rbs dir)
    (hstop : granted s.grants dir id slot ≤ rbLims.stop) :
    s.tryCandidate cell dir id slot rbLims = .ok none ∨
      ∃ n, s.tryCandidate cell dir id slot rbLims = .ok (some ⟨id, slot, n⟩) ∧
        rbLims.start ≤ granted s.grants dir id slot ∧ granted s.grants dir id slot + n ≤ rbLims.stop ∧
        reserved s.limits (granted s.grants dir · slot) + n ≤
          cell.rbs dir + (l.dedicated - granted s.grants dir id slot) := by
  rw [limits, List.getElem?_map, Option.map_eq_some_iff] at hl
  obtain ⟨inst, hi, rfl⟩ := hl
  simp only [tryCandidate, hi, getNofUsedReservedRbs_eq hc hr, hc.rbCount_eq hi hr]
  rw [if_neg (by omega), if_neg (Nat.not_lt.mpr hstop)]
  split_ifs with h
  · exact .inl rfl
  · refine .inr ⟨_, rfl, Nat.not_lt.mp fun hlt => h (.inr hlt), ?_, ?_⟩
    · have hmin := min_le_left (rbLims.stop - granted s.grants dir id slot)
        (cell.rbs dir + (inst.cfg.rbs.dedicated - granted s.grants dir id slot) -
          reserved s.limits (granted s.grants dir · slot))
      omega
    · have hmin := min_le_right (rbLims.stop - granted s.grants dir id slot)
        (cell.rbs dir + (inst.cfg.rbs.dedicated - granted s.grants dir id slot) -
          reserved s.limits (granted s.grants dir · slot))
      omega

variable {c : RanSliceCandidate} {n : Nat}

theorem granted_storeGrant (s : InterSliceScheduler) (c : RanSliceCandidate) (n : Nat) (dir' : Direction)
    (id slot : Nat) :
    granted (s.storeGrant cell dir c n).grants dir' id slot =
      granted s.grants dir' id slot + if dir = dir' ∧ c.id = id ∧ c.slotTx = slot then n else 0 := by
  rw [storeGrant, granted, Nat.add_comm]

theorem storeGrant_limits (s : InterSliceScheduler) (c : RanSliceCandidate) (n : Nat) :
    (s.storeGrant cell dir c n).limits = s.limits := by
  refine List.ext_getElem? fun i => ?_
  simp only [limits, storeGrant, List.getElem?_map, List.getElem?_mapIdx, Option.map_map]
  congr 1
  funext inst
  simp only [Function.comp_apply]
  split_ifs
  · cases dir with
    | dl => rfl
    | ul => rfl
  · rfl

theorem Counted.storeGrant (hc : Counted cell s.grants now s.slices) (hr : cell.Reaches dir now c.slotTx) :
    Counted cell (s.storeGrant cell dir c n).grants now (s.storeGrant cell dir c n).slices := by
  intro i inst hi
  rw [InterSliceScheduler.storeGrant, List.getElem?_mapIdx, Option.map_eq_some_iff] at hi
  obtain ⟨inst, hi, rfl⟩ := hi
  obtain ⟨hdl, hul⟩ := hc i inst hi
  simp only [granted_storeGrant]
  by_cases hid : i = c.id
  · subst hid
    rw [if_pos rfl]
    cases dir with
    | dl =>
      obtain rfl : now = c.slotTx := Nat.le_antisymm hr.1 hr.2
      simpa [RanSliceInstance.storeGrant, RanSliceInstance.storePdschGrant, hdl] using hul
    | ul =>
      have hmin := cell.minK2_pos
      have hring := cell.le_puschRingSize
      obtain ⟨hfirst, hlast⟩ := hr
      rw [SliceCellConfig.firstSlot] at hfirst
      rw [SliceCellConfig.lastSlot] at hlast
      refine ⟨by simpa [RanSliceInstance.storeGrant, RanSliceInstance.storePuschGrant] using hdl, fun slot h₁ h₂ => ?_⟩
      simp only [RanSliceInstance.storeGrant, RanSliceInstance.storePuschGrant, true_and]
      by_cases hslot : c.slotTx = slot
      · rw [hslot, if_pos rfl, if_pos rfl, hul slot h₁ h₂]
      · have hne : slot % cell.puschRingSize ≠ c.slotTx % cell.puschRingSize := by
          rcases Nat.lt_or_gt_of_ne hslot with hlt | hlt
          · exact mod_ne_of_lt hlt (by omega)
          · exact (mod_ne_of_lt hlt (by omega)).symm
        rw [if_neg hne, if_neg hslot, hul slot h₁ h₂]
        rfl
  · rw [if_neg hid]
    have hne : ∀ (dir' : Direction) (slot : Nat), ¬(dir = dir' ∧ c.id = i ∧ c.slotTx = slot) :=
      fun _ _ h => hid h.2.1.symm
    refine ⟨?_, fun slot h₁ h₂ => ?_⟩
    · rw [if_neg (hne .dl now), hdl]
      rfl
    · rw [if_neg (hne .ul slot), hul slot h₁ h₂]
      rfl

structure Room (cell : SliceCellConfig) (dir : Direction) (now : Nat) (c : RanSliceCandidate) (l : RbLimits)
    (b : Nat) (s : InterSliceScheduler) : Prop where
  counted : Counted cell s.grants now s.slices
  quota : WithinQuota cell s.grants
  limits : s.limits[c.id]? = some l
  max : granted s.grants dir c.id c.slotTx + b ≤ l.max
  fits : reserved s.limits (granted s.grants dir · c.slotTx) ≤ cell.rbs dir
  rest : reserved s.limits (granted s.grants dir · c.slotTx) + b ≤
    cell.rbs dir + (l.dedicated - granted s.grants dir c.id c.slotTx)

theorem Room.storeGrant {l : RbLimits} {b : Nat} (h : Room cell dir now c l (n + b) s)
    (hr : cell.Reaches dir now c.slotTx) : Room cell dir now c l b (s.storeGrant cell dir c n) := by
  have hself : granted (s.storeGrant cell dir c n).grants dir c.id c.slotTx =
      granted s.grants dir c.id c.slotTx + n := by
    rw [granted_storeGrant, if_pos ⟨rfl, rfl, rfl⟩]
  have hreserved := reserved_add (f := (granted s.grants dir · c.slotTx))
    (g := (granted (s.storeGrant cell dir c n).grants dir · c.slotTx)) h.limits hself fun j hj => by
      rw [granted_storeGrant, if_neg fun hc => hj hc.2.1.symm, Nat.add_zero]
  have hmax := h.max
  have hfits := h.fits
  have hrest := h.rest
  have hfits' : reserved s.limits (granted (s.storeGrant cell dir c n).grants dir · c.slotTx) ≤ cell.rbs dir := by
    omega
  refine ⟨h.counted.storeGrant hr, ⟨h.quota, ⟨l, h.limits, ?_⟩, hfits'⟩, ?_, ?_, ?_, ?_⟩
  · exact hself.trans_le (by omega)
  · rw [storeGrant_limits]
    exact h.limits
  · rw [hself]
    omega
  · rw [storeGrant_limits]
    exact hfits'
  · rw [storeGrant_limits, hself]
    omega

theorem Room.storeGrants {l : RbLimits} {b : Nat} {rbs : List Nat} (h : Room cell dir now c l b s)
    (hr : cell.Reaches dir now c.slotTx) (hsum : rbs.sum ≤ b) :
    Room cell dir now c l (b - rbs.sum) (s.storeGrants cell dir c rbs) := by
  induction rbs generalizing s b with
  | nil => exact h
  | cons n rbs ih =>
    rw [List.sum_cons] at hsum ⊢
    obtain ⟨b, rfl⟩ := Nat.exists_eq_add_of_le (Nat.le_of_add_right_le hsum)
    have hnext := ih (h.storeGrant hr) (by omega)
    rw [Nat.add_sub_add_left]
    exact hnext

theorem granted_storeGrants (s : InterSliceScheduler) (c : RanSliceCandidate) (rbs : List Nat) (dir' : Direction)
    (id slot : Nat) :
    granted (s.storeGrants cell dir c rbs).grants dir' id slot =
      granted s.grants dir' id slot + if dir = dir' ∧ c.id = id ∧ c.slotTx = slot then rbs.sum else 0 := by
  induction rbs generalizing s with
  | nil => simp [storeGrants]
  | cons n rbs ih =>
    refine (ih (s.storeGrant cell dir c n)).trans ?_
    rw [granted_storeGrant, List.sum_cons, Nat.add_assoc]
    split_ifs
    · rfl
    · rfl

theorem storeGrants_fields (s : InterSliceScheduler) (c : RanSliceCandidate) (rbs : List Nat) :
    (s.storeGrants cell dir c rbs).limits = s.limits ∧ (s.storeGrants cell dir c rbs).currentSlot = s.currentSlot ∧
      (s.storeGrants cell dir c rbs).upToDate = s.upToDate ∧
      ∀ dir', (s.storeGrants cell dir c rbs).prioQueue dir' = s.prioQueue dir' := by
  induction rbs generalizing s with
  | nil => exact ⟨rfl, rfl, rfl, fun _ => rfl⟩
  | cons n rbs ih =>
    obtain ⟨h₁, h₂, h₃, h₄⟩ := ih (s.storeGrant cell dir c n)
    refine ⟨h₁.trans (storeGrant_limits s c n), h₂, h₃, fun dir' => (h₄ dir').trans ?_⟩
    cases dir' with
    | dl => rfl
    | ul => rfl

variable {q q' : List SliceCandidateContext} {r : Option RanSliceCandidate}

structure Queued (cell : SliceCellConfig) (limits : List RbLimits) (grants : List RbGrant) (now : Nat)
    (dir : Direction) (q : List SliceCandidateContext) : Prop where
  stop : ∀ x ∈ q, ∃ l, limits[x.id]? = some l ∧ x.rbLims.stop ≤ l.max
  reaches : ∀ x ∈ q, cell.Reaches dir now x.slotTx
  offers : ∀ id slot, Offers (granted grants dir id slot) (q.filter (IsFor id slot ·))

theorem queued_nil {limits : List RbLimits} : Queued cell limits grants now dir [] :=
  ⟨by simp, by simp, fun _ _ => trivial⟩

theorem Queued.tail {limits : List RbLimits} {x : SliceCandidateContext} (h : Queued cell limits grants now dir (x :: q)) :
    Queued cell limits grants now dir q := by
  refine ⟨fun y hy => h.stop y (List.mem_cons_of_mem _ hy), fun y hy => h.reaches y (List.mem_cons_of_mem _ hy),
    fun id slot => ?_⟩
  have hoffers := h.offers id slot
  rw [List.filter_cons] at hoffers
  split_ifs at hoffers
  · exact hoffers.tail
  · exact hoffers

theorem filter_isFor_cons {id : Nat} {x : SliceCandidateContext} (h : IsFor id slot x) :
    (x :: q).filter (IsFor id slot ·) = x :: q.filter (IsFor id slot ·) :=
  List.filter_cons_of_pos (by simpa using h)

theorem Queued.head {limits : List RbLimits} {x : SliceCandidateContext} (h : Queued cell limits grants now dir (x :: q)) :
    Offers (granted grants dir x.id x.slotTx) (x :: q.filter (IsFor x.id x.slotTx ·)) := by
  have hoffers := h.offers x.id x.slotTx
  rwa [filter_isFor_cons ⟨rfl, rfl⟩] at hoffers

structure Next (cell : SliceCellConfig) (s : InterSliceScheduler) (now : Nat) (dir : Direction)
    (r : Option RanSliceCandidate) (q : List SliceCandidateContext) : Prop where
  queued : Queued cell s.limits s.grants now dir q
  reaches : ∀ c ∈ r, cell.Reaches dir now c.slotTx
  room : ∀ c ∈ r, ∃ l, Room cell dir now c l c.maxRbs s
  grow : ∀ c ∈ r, ∀ n ≤ c.maxRbs,
    Offers (granted s.grants dir c.id c.slotTx + n) (q.filter (IsFor c.id c.slotTx ·))

theorem orElse_next {x : SliceCandidateContext} {rbLims : OrderedInterval}
    {next : Except SliceFault (Option RanSliceCandidate × List SliceCandidateContext)}
    (hc : Counted cell s.grants now s.slices) (hquota : WithinQuota cell s.grants)
    (hfits : ∀ slot, cell.Reaches dir now slot → reserved s.limits (granted s.grants dir · slot) ≤ cell.rbs dir)
    (hq : Queued cell s.limits s.grants now dir q) (hr : cell.Reaches dir now x.slotTx)
    (hstop : granted s.grants dir x.id x.slotTx ≤ rbLims.stop)
    (hmax : ∃ l, s.limits[x.id]? = some l ∧ rbLims.stop ≤ l.max)
    (hgrow : rbLims.start ≤ granted s.grants dir x.id x.slotTx → ∀ m ≤ rbLims.stop,
      Offers m (q.filter (IsFor x.id x.slotTx ·)))
    (hnext : ∃ r q', next = .ok (r, q') ∧ Next cell s now dir r q') :
    ∃ r q', orElse (s.tryCandidate cell dir x.id x.slotTx rbLims) q next = .ok (r, q') ∧ Next cell s now dir r q' := by
  obtain ⟨l, hl, hle⟩ := hmax
  rcases tryCandidate_ok hc hr hl (hfits _ hr) hstop with hnone | ⟨n, hsome, hstart, hn, hrest⟩
  · rw [hnone]
    exact hnext
  · rw [hsome]
    refine ⟨_, _, rfl, hq, fun c hc' => ?_, fun c hc' => ?_, fun c hc' m hm => ?_⟩
    · cases hc'
      exact hr
    · cases hc'
      exact ⟨l, hc, hquota, hl, hn.trans hle, hfits _ hr, hrest⟩
    · cases hc'
      exact hgrow hstart _ ((Nat.add_le_add_left hm _).trans hn)

theorem getNextCandidate_next (hc : Counted cell s.grants now s.slices) (hquota : WithinQuota cell s.grants)
    (hfits : ∀ slot, cell.Reaches dir now slot → reserved s.limits (granted s.grants dir · slot) ≤ cell.rbs dir)
    (hq : Queued cell s.limits s.grants now dir q) :
    ∃ r q', s.getNextCandidate cell dir q = .ok (r, q') ∧ Next cell s now dir r q' := by
  have hempty : ∃ r q', (Except.ok (none, []) : Except SliceFault _) = .ok (r, q') ∧ Next cell s now dir r q' :=
    ⟨none, [], rfl, queued_nil, by simp, by simp, by simp⟩
  induction q using getNextCandidate.induct with
  | case1 => exact hempty
  | case2 x =>
    rw [getNextCandidate]
    refine orElse_next hc hquota hfits hq.tail (hq.reaches x List.mem_cons_self) hq.head.head
      (hq.stop x List.mem_cons_self) (fun hstart m hm => hq.head.grow hstart hm) hempty
  | case3 x y q hsame ih =>
    rw [getNextCandidate, if_pos hsame]
    have hboth := hq.head
    rw [filter_isFor_cons hsame] at hboth
    refine orElse_next hc hquota hfits hq.tail.tail (hq.reaches x List.mem_cons_self) ?_ ?_ (fun _ m _ => ?_)
      (ih hq.tail.tail)
    · exact hboth.head.trans (le_max_left _ _)
    · obtain ⟨l, hl, hle⟩ := hq.stop x List.mem_cons_self
      obtain ⟨l', hl', hle'⟩ := hq.stop y (List.mem_cons_of_mem _ List.mem_cons_self)
      rw [hsame.1, hl] at hl'
      cases hl'
      exact ⟨l, hl, max_le hle hle'⟩
    · rw [hboth.pair]
      trivial
  | case4 x y q hsame ih =>
    rw [getNextCandidate, if_neg hsame]
    exact orElse_next hc hquota hfits hq.tail (hq.reaches x List.mem_cons_self) hq.head.head
      (hq.stop x List.mem_cons_self) (fun hstart m hm => hq.head.grow hstart hm) (ih hq.tail)

/-- Candidates may still be pushed for the slot: from the current slot on, or from the next one on if the limits have
changed. -/
def Open (cell : SliceCellConfig) (s : InterSliceScheduler) (dir : Direction) (slot : Nat) : Prop :=
  ∀ now ∈ s.currentSlot, cell.firstSlot dir (if s.upToDate then now else now + 1) ≤ slot

structure Inv (cell : SliceCellConfig) (s : InterSliceScheduler) : Prop where
  counted : ∀ now, (∀ c ∈ s.currentSlot, c = now) → Counted cell s.grants now s.slices
  ahead : ∀ now, (∀ c ∈ s.currentSlot, c = now) → NoneAhead cell s.grants now
  bounded : ∀ l ∈ s.limits, l.max * cell.ulRbs < 2 ^ 32
  fits : ∀ dir slot, s.Open cell dir slot → reserved s.limits (granted s.grants dir · slot) ≤ cell.rbs dir
  queued : s.upToDate = true → ∃ now, s.currentSlot = some now ∧
    ∀ dir, Queued cell s.limits s.grants now dir (s.prioQueue dir)
  quota : WithinQuota cell s.grants

/-- The documented behaviour of `std::sort`: it orders, and may swap what is equal. -/
def SortsByPrio (sort : List SliceCandidateContext → List SliceCandidateContext) : Prop :=
  ∀ l, (sort l).Perm l ∧ (sort l).Pairwise fun a b => b.prio ≤ a.prio

def CoveredBy (rbs : List Nat) : Except SliceFault (Option RanSliceCandidate × List SliceCandidateContext) → Prop
  | .ok (some c, _) => rbs.sum ≤ c.maxRbs
  | _ => True

/-- Slots pass, and candidates are asked for with the limits that they come from. A slice with grants in an uplink slot
has room up to its scaled minimum there; new limits leave room for the dedicated RBs beside the grants. -/
def Admissible (cell : SliceCellConfig) (s : InterSliceScheduler) : SliceEvent → Prop
  | .slotIndication inp => s.currentSlot.getD 0 < inp.slotTx ∧
    (inp.dlEnabled = true → ∀ inst ∈ s.indicated cell inp.slotTx,
      ∀ i ∈ usedTdRes cell inp inst none (cell.validPuschTdList inp.slotTx), HasRoom cell inp inst i)
  | .serve dir rbs => s.upToDate = true ∧ CoveredBy rbs (s.getNextCandidate cell dir (s.prioQueue dir))
  | .reconfigure req => (∀ rrm ∈ req, rrm.2.max * cell.ulRbs < 2 ^ 32) ∧
    reserved (s.handleSliceReconfigurationRequest req).limits (fun _ => 0) ≤ min cell.dlRbs cell.ulRbs ∧
    ∀ g ∈ s.grants, (s.handleSliceReconfigurationRequest req).Open cell g.dir g.slotTx →
      reserved (s.handleSliceReconfigurationRequest req).limits (granted s.grants g.dir · g.slotTx) ≤ cell.rbs g.dir

instance (s : InterSliceScheduler) (dir : Direction) (slot : Nat) : Decidable (s.Open cell dir slot) :=
  inferInstanceAs (Decidable (∀ now ∈ s.currentSlot, _))

instance (rbs : List Nat) : DecidablePred (CoveredBy rbs)
  | .ok (some _, _) => inferInstanceAs (Decidable (_ ≤ _))
  | .ok (none, _) => isTrue trivial
  | .error _ => isTrue trivial

instance (s : InterSliceScheduler) : DecidablePred (Admissible cell s)
  | .slotIndication _ => inferInstanceAs (Decidable (_ ∧ _))
  | .serve _ _ => inferInstanceAs (Decidable (_ ∧ _))
  | .reconfigure _ => inferInstanceAs (Decidable (_ ∧ _ ∧ _))

theorem PushedAll.queued {sort : List SliceCandidateContext → List SliceCandidateContext} (hsort : SortsByPrio sort)
    {limits : List RbLimits} {l : List SliceCandidateContext} (hl : PushedAll cell dir now slices l)
    (hc : Counted cell grants now slices) (hlimits : slices.map (·.cfg.rbs) = limits) :
    Queued cell limits grants now dir (sort l) := by
  obtain ⟨hperm, hsorted⟩ := hsort l
  refine ⟨fun x hx => ?_, fun x hx => hl.reaches x (hperm.mem_iff.mp hx), fun id slot => ?_⟩
  · obtain ⟨inst, hi, hstop⟩ := hl.stop x (hperm.mem_iff.mp hx)
    refine ⟨inst.cfg.rbs, ?_, hstop⟩
    rw [← hlimits, List.getElem?_map, hi]
    rfl
  · by_cases hr : cell.Reaches dir now slot
    · exact (hl.pushes id slot _ fun inst hi => hc.rbCount_eq hi hr).offers (hperm.filter _) (hsorted.filter _)
    · rw [List.filter_eq_nil_iff.mpr fun x hx hfor => hr ?_]
      · trivial
      · rw [← (of_decide_eq_true hfor).2]
        exact hl.reaches x (hperm.mem_iff.mp hx)

theorem firstSlot_mono {a b : Nat} (h : a ≤ b) (dir : Direction) : cell.firstSlot dir a ≤ cell.firstSlot dir b := by
  cases dir with
  | dl => exact h
  | ul => exact Nat.add_le_add_right h _

theorem indicated_limits (s : InterSliceScheduler) (slotTx : Nat) :
    (s.indicated cell slotTx).map (·.cfg.rbs) = s.limits :=
  indicateSlots_limits _ _

theorem Inv.indicated_counted (hi : Inv cell s) {slotTx : Nat} (hlt : s.currentSlot.getD 0 < slotTx) :
    Counted cell s.grants slotTx (s.indicated cell slotTx) ∧ NoneAhead cell s.grants slotTx := by
  have hbase : ∀ c ∈ s.currentSlot, c = s.currentSlot.getD (slotTx - 1) := by
    intro c hc
    rw [hc]
    rfl
  have hle : s.currentSlot.getD (slotTx - 1) ≤ slotTx := by
    cases hcur : s.currentSlot with
    | none => exact Nat.sub_le _ _
    | some c =>
      rw [hcur] at hlt
      exact hlt.le
  refine ⟨?_, (hi.ahead _ hbase).mono hle⟩
  have hcounted := (hi.counted _ hbase).indicateSlots (hi.ahead _ hbase) (slotTx - s.currentSlot.getD (slotTx - 1))
  rw [Nat.add_sub_cancel' hle] at hcounted
  exact hcounted

theorem Inv.indicate (hi : Inv cell s) {slotTx : Nat} (hlt : s.currentSlot.getD 0 < slotTx)
    {dl ul : List SliceCandidateContext} (hdl : Queued cell s.limits s.grants slotTx .dl dl)
    (hul : Queued cell s.limits s.grants slotTx .ul ul) :
    Inv cell { s with
      currentSlot := some slotTx, slices := s.indicated cell slotTx, dlPrioQueue := dl, ulPrioQueue := ul,
      upToDate := true } := by
  obtain ⟨hcounted, hahead⟩ := hi.indicated_counted hlt
  have hlimits := @indicated_limits cell s slotTx
  refine ⟨fun now hnow => ?_, fun now hnow => ?_, ?_, fun dir slot hopen => ?_, fun _ => ⟨slotTx, rfl, fun dir => ?_⟩,
    hi.quota⟩
  · rw [← hnow slotTx rfl]
    exact hcounted
  · rw [← hnow slotTx rfl]
    exact hahead
  · rw [limits, hlimits]
    exact hi.bounded
  · rw [limits, hlimits]
    have hfirst : cell.firstSlot dir slotTx ≤ slot := hopen slotTx rfl
    refine hi.fits dir slot fun now hnow => (firstSlot_mono ?_ dir).trans hfirst
    rw [hnow, Option.getD_some] at hlt
    split_ifs
    · exact hlt.le
    · exact hlt
  · rw [limits, hlimits]
    cases dir with
    | dl => exact hdl
    | ul => exact hul

theorem slotIndication_inv {sort : List SliceCandidateContext → List SliceCandidateContext} (hsort : SortsByPrio sort)
    {inp : SliceSlotInput} (hi : Inv cell s) (hadm : Admissible cell s (.slotIndication inp)) :
    ∃ t, s.slotIndication cell sort inp = .ok t ∧ Inv cell t := by
  obtain ⟨hlt, hroom⟩ := hadm
  unfold slotIndication
  dsimp only
  split_ifs with hdl
  · have hbound : ∀ inst ∈ s.indicated cell inp.slotTx, inst.cfg.rbs.max * cell.ulRbs < 2 ^ 32 := by
      intro inst hinst
      refine hi.bounded _ ?_
      rw [← @indicated_limits cell s inp.slotTx]
      exact List.mem_map_of_mem hinst
    obtain ⟨dl, hdl', hpushdl⟩ := @pushAll_ok cell inp .dl _ hbound (hroom hdl)
    obtain ⟨ul, hul', hpushul⟩ := @pushAll_ok cell inp .ul _ hbound (hroom hdl)
    rw [hdl', ok_bind, hul', ok_bind, pure_eq_ok]
    have hcounted := (hi.indicated_counted hlt).1
    exact ⟨_, rfl, hi.indicate hlt (hpushdl.queued hsort hcounted (indicated_limits s _))
      (hpushul.queued hsort hcounted (indicated_limits s _))⟩
  · exact ⟨_, rfl, hi.indicate hlt queued_nil queued_nil⟩

theorem prioQueue_setPrioQueue (s : InterSliceScheduler) (dir' : Direction) (q : List SliceCandidateContext) :
    (s.setPrioQueue dir q).prioQueue dir' = if dir' = dir then q else s.prioQueue dir' := by
  cases dir with
  | dl => cases dir' with
    | dl => rfl
    | ul => rfl
  | ul => cases dir' with
    | dl => rfl
    | ul => rfl

theorem setPrioQueue_fields (s : InterSliceScheduler) (q : List SliceCandidateContext) :
    (s.setPrioQueue dir q).slices = s.slices ∧ (s.setPrioQueue dir q).grants = s.grants ∧
      (s.setPrioQueue dir q).currentSlot = s.currentSlot ∧ (s.setPrioQueue dir q).upToDate = s.upToDate ∧
      (s.setPrioQueue dir q).limits = s.limits := by
  cases dir with
  | dl => exact ⟨rfl, rfl, rfl, rfl, rfl⟩
  | ul => exact ⟨rfl, rfl, rfl, rfl, rfl⟩

theorem Inv.setPrioQueue (hi : Inv cell s) (hnow : s.currentSlot = some now)
    (hq : Queued cell s.limits s.grants now dir q) : Inv cell (s.setPrioQueue dir q) := by
  obtain ⟨hslices, hgrants, hcur, hup, hlimits⟩ := @setPrioQueue_fields dir s q
  refine ⟨?_, ?_, ?_, ?_, ?_, ?_⟩
  · rw [hslices, hgrants, hcur]
    exact hi.counted
  · rw [hgrants, hcur]
    exact hi.ahead
  · rw [hlimits]
    exact hi.bounded
  · unfold Open
    rw [hlimits, hgrants, hcur, hup]
    exact hi.fits
  · rw [hlimits, hgrants, hcur, hup]
    intro h
    obtain ⟨now', hnow', hqueued⟩ := hi.queued h
    rw [hnow] at hnow'
    cases hnow'
    refine ⟨now, hnow, fun dir' => ?_⟩
    rw [prioQueue_setPrioQueue]
    split_ifs with hdir
    · rw [hdir]
      exact hq
    · exact hqueued dir'
  · rw [hgrants]
    exact hi.quota

theorem Inv.storeGrants (hi : Inv cell s) (hnow : s.currentSlot = some now) (hup : s.upToDate = true)
    {rbs : List Nat} {l : RbLimits} (hr : cell.Reaches dir now c.slotTx) (hroom : Room cell dir now c l c.maxRbs s)
    (hsum : rbs.sum ≤ c.maxRbs)
    (hgrow : Offers (granted s.grants dir c.id c.slotTx + rbs.sum)
      ((s.prioQueue dir).filter (IsFor c.id c.slotTx ·))) :
    Inv cell (s.storeGrants cell dir c rbs) := by
  obtain ⟨hlimits, hcur, hup', hqueue⟩ := @storeGrants_fields cell dir s c rbs
  have hroom' := hroom.storeGrants hr hsum
  have hgranted := @granted_storeGrants cell dir s c rbs
  refine ⟨fun now' h => ?_, fun now' h dir' id slot hlast => ?_, ?_, fun dir' slot hopen => ?_, fun _ => ⟨now, ?_, ?_⟩,
    hroom'.quota⟩
  · rw [hcur, hnow] at h
    rw [← h now rfl]
    exact hroom'.counted
  · rw [hcur] at h
    rw [hgranted, hi.ahead now' h dir' id slot hlast, Nat.zero_add]
    refine if_neg fun hkey => ?_
    obtain ⟨rfl, -, rfl⟩ := hkey
    rw [hnow] at h
    rw [← h now rfl] at hlast
    exact absurd hr.2 (Nat.not_le.mpr hlast)
  · rw [hlimits]
    exact hi.bounded
  · by_cases hkey : dir = dir' ∧ c.slotTx = slot
    · obtain ⟨rfl, rfl⟩ := hkey
      exact hroom'.fits
    · have hsame : ∀ id, granted (s.storeGrants cell dir c rbs).grants dir' id slot = granted s.grants dir' id slot := by
        intro id
        rw [hgranted, if_neg fun h => hkey ⟨h.1, h.2.2⟩, Nat.add_zero]
      simp only [hsame]
      rw [hlimits]
      unfold Open at hopen
      rw [hcur, hup'] at hopen
      exact hi.fits dir' slot hopen
  · rw [hcur, hnow]
  · intro dir'
    obtain ⟨now', hnow', hqueued⟩ := hi.queued hup
    rw [hnow] at hnow'
    cases hnow'
    rw [hlimits, hqueue]
    refine ⟨(hqueued dir').stop, (hqueued dir').reaches, fun id slot => ?_⟩
    rw [hgranted]
    split_ifs with hkey
    · obtain ⟨rfl, rfl, rfl⟩ := hkey
      exact hgrow
    · exact (hqueued dir').offers id slot

theorem serve_inv {rbs : List Nat} (hi : Inv cell s) (hadm : Admissible cell s (.serve dir rbs)) :
    ∃ t, s.serve cell dir rbs = .ok t ∧ Inv cell t := by
  obtain ⟨hup, hcovered⟩ := hadm
  obtain ⟨now, hnow, hqueued⟩ := hi.queued hup
  have hat : ∀ c ∈ s.currentSlot, c = now := by
    intro c hc
    rw [hnow] at hc
    exact (Option.some.inj hc).symm
  have hopen : ∀ slot, cell.Reaches dir now slot → s.Open cell dir slot := by
    intro slot hr c hc
    rw [hat c hc, if_pos hup]
    exact hr.1
  obtain ⟨r, q, hget, hnext⟩ := getNextCandidate_next (hi.counted now hat) hi.quota
    (fun slot hr => hi.fits dir slot (hopen slot hr)) (hqueued dir)
  have hset := hi.setPrioQueue hnow hnext.queued
  rw [hget] at hcovered
  unfold serve
  rw [hget]
  cases r with
  | none => exact ⟨_, rfl, hset⟩
  | some c =>
    obtain ⟨l, hroom⟩ := hnext.room c rfl
    obtain ⟨hslices, hgrants, hcur, hup', hlimits⟩ := @setPrioQueue_fields dir s q
    refine ⟨_, rfl, hset.storeGrants (hcur.trans hnow) (hup'.trans hup) (hnext.reaches c rfl) (l := l) ?_ hcovered ?_⟩
    · refine ⟨?_, ?_, ?_, ?_, ?_, ?_⟩
      · rw [hgrants, hslices]
        exact hroom.counted
      · rw [hgrants]
        exact hroom.quota
      · rw [hlimits]
        exact hroom.limits
      · rw [hgrants]
        exact hroom.max
      · rw [hgrants, hlimits]
        exact hroom.fits
      · rw [hgrants, hlimits]
        exact hroom.rest
    · rw [hgrants, prioQueue_setPrioQueue, if_pos rfl]
      exact hnext.grow c rfl _ hcovered

theorem applyPolicy_counted {rrm : RrmPolicyMember × RbLimits} (hc : Counted cell grants now slices) :
    Counted cell grants now (applyPolicy slices rrm) := by
  intro i inst hi
  rw [applyPolicy, List.getElem?_map, Option.map_eq_some_iff] at hi
  obtain ⟨inst, hi, rfl⟩ := hi
  have hinst := hc i inst hi
  split_ifs
  · exact hinst
  · exact hinst

theorem applyPolicies_counted {req : List (RrmPolicyMember × RbLimits)} (hc : Counted cell grants now slices) :
    Counted cell grants now (req.foldl applyPolicy slices) := by
  induction req generalizing slices with
  | nil => exact hc
  | cons rrm req ih => exact ih (applyPolicy_counted hc)

theorem applyPolicies_limits {req : List (RrmPolicyMember × RbLimits)} {P : RbLimits → Prop}
    (hreq : ∀ rrm ∈ req, P rrm.2) (hslices : ∀ l ∈ slices.map (·.cfg.rbs), P l) :
    ∀ l ∈ (req.foldl applyPolicy slices).map (·.cfg.rbs), P l := by
  induction req generalizing slices with
  | nil => exact hslices
  | cons rrm req ih =>
    refine ih (fun rrm hrrm => hreq rrm (List.mem_cons_of_mem _ hrrm)) fun l hl => ?_
    rw [applyPolicy, List.map_map, List.mem_map] at hl
    obtain ⟨inst, hinst, rfl⟩ := hl
    simp only [Function.comp_apply]
    split_ifs
    · exact hreq rrm List.mem_cons_self
    · exact hslices _ (List.mem_map_of_mem hinst)

theorem min_le_rbs (dir : Direction) : min cell.dlRbs cell.ulRbs ≤ cell.rbs dir := by
  cases dir with
  | dl => exact min_le_left _ _
  | ul => exact min_le_right _ _

theorem granted_eq_zero (h : ∀ g ∈ grants, ¬(g.dir = dir ∧ g.slotTx = slot)) (id : Nat) :
    granted grants dir id slot = 0 := by
  induction grants with
  | nil => rfl
  | cons g grants ih =>
    rw [granted_cons_other fun hg => h g List.mem_cons_self ⟨hg.1, hg.2.2⟩]
    exact ih fun g hg => h g (List.mem_cons_of_mem _ hg)

theorem reconfigure_inv {req : List (RrmPolicyMember × RbLimits)} (hi : Inv cell s)
    (hadm : Admissible cell s (.reconfigure req)) : Inv cell (s.handleSliceReconfigurationRequest req) := by
  obtain ⟨hbound, hded, hfits⟩ := hadm
  refine ⟨fun now hnow => applyPolicies_counted (hi.counted now hnow), hi.ahead, ?_, fun dir slot hopen => ?_,
    fun h => ?_, hi.quota⟩
  · exact applyPolicies_limits hbound hi.bounded
  · by_cases hgrant : ∃ g ∈ s.grants, g.dir = dir ∧ g.slotTx = slot
    · obtain ⟨g, hg, rfl, rfl⟩ := hgrant
      exact hfits g hg hopen
    · have hzero := granted_eq_zero fun g hg h => hgrant ⟨g, hg, h⟩
      simp only [handleSliceReconfigurationRequest, hzero]
      exact hded.trans (min_le_rbs dir)
  · exact absurd h Bool.false_ne_true

/-- The limits that the scheduler is constructed with leave room for all dedicated RBs. -/
def FitsDedicated (cell : SliceCellConfig) : Prop :=
  reserved (new cell).limits (fun _ => 0) ≤ min cell.dlRbs cell.ulRbs

theorem inv_new (hfits : FitsDedicated cell) : Inv cell (new cell) := by
  have hzero : ∀ inst ∈ (new cell).slices, inst.pdschRbCount = 0 ∧ inst.puschRbCountPerSlot = fun _ => 0 := by
    intro inst hinst
    simp only [new, List.mem_cons, List.mem_map] at hinst
    rcases hinst with rfl | rfl | ⟨rrm, -, rfl⟩
    · exact ⟨rfl, rfl⟩
    · exact ⟨rfl, rfl⟩
    · exact ⟨rfl, rfl⟩
  refine ⟨fun now _ i inst hi => ?_, fun _ _ _ _ _ _ => rfl, fun l hl => ?_, fun dir _ _ => hfits.trans (min_le_rbs dir),
    fun h => absurd h Bool.false_ne_true, trivial⟩
  · obtain ⟨hdl, hul⟩ := hzero inst (List.mem_of_getElem? hi)
    rw [hdl, hul]
    exact ⟨rfl, fun _ _ _ => rfl⟩
  · have hmax : l.max ≤ cell.dlRbs := by
      simp only [limits, new, List.map_cons, List.map_map, List.mem_cons, List.mem_map] at hl
      rcases hl with rfl | rfl | ⟨rrm, -, rfl⟩
      · exact le_rfl
      · exact le_rfl
      · exact min_le_right _ _
    calc l.max * cell.ulRbs ≤ 275 * 275 := Nat.mul_le_mul (hmax.trans cell.dlRbs_le) cell.ulRbs_le
      _ < 2 ^ 32 := by decide

/-- If the dedicated RBs of the slices fit and no slice has been granted more than its scaled minimum in an uplink
slot without having its minimum, then no interval of RBs is invalid, no assertion fails, and every grant is within
its quota. -/
theorem grants_withinQuota {sort : List SliceCandidateContext → List SliceCandidateContext} (hsort : SortsByPrio sort)
    (hfits : FitsDedicated cell) {es : List SliceEvent}
    (hadm : Machine.Admits (step cell sort) (Admissible cell) (new cell) es) :
    ∃ s, Machine.run (step cell sort) (new cell) es = .ok s ∧ WithinQuota cell s.grants := by
  have hstep : ∀ s e, Inv cell s → Admissible cell s e → ∃ t, s.step cell sort e = .ok t ∧ Inv cell t := by
    intro s e hi hadm
    cases e with
    | slotIndication inp => exact slotIndication_inv hsort hi hadm
    | serve dir rbs => exact serve_inv hi hadm
    | reconfigure req => exact ⟨_, rfl, reconfigure_inv hi hadm⟩
  obtain ⟨s, hs, hi⟩ := Machine.run_total (Inv cell) hstep (inv_new hfits) hadm
  exact ⟨s, hs, hi.quota⟩

def insertionSort : List SliceCandidateContext → List SliceCandidateContext :=
  List.insertionSort fun a b => b.prio ≤ a.prio

theorem insertionSort_sorts : SortsByPrio insertionSort := by
  intro l
  have : Std.Total fun a b : SliceCandidateContext => b.prio ≤ a.prio := ⟨fun a b => Nat.le_total b.prio a.prio⟩
  have : IsTrans SliceCandidateContext fun a b => b.prio ≤ a.prio := ⟨fun _ _ _ hab hbc => hbc.trans hab⟩
  exact ⟨List.perm_insertionSort _ l, List.pairwise_insertionSort _ l⟩

def twoSliceCell (a b : RbLimits) : SliceCellConfig where
  dlRbs := 100
  ulRbs := 100
  ntnCsKoffset := 0
  puschTdAllocList := [4]
  slotRing := [[0]]
  rrmPolicyMembers := [⟨⟨1, 1, 1⟩, a, 10⟩, ⟨⟨1, 1, 2⟩, b, 20⟩]
  dlRbs_le := by decide
  ulRbs_le := by decide
  koffset_le := by decide
  k2_pos := by decide
  k2_le := by decide
  ring_mem := by decide
  ring_sorted := by decide

def busySlot (slotTx usedCrbs : Nat) : SliceSlotInput where
  slotTx := slotTx
  dlEnabled := true
  pdschEnabled := true
  active := fun _ => true
  avgPdschRbs := fun _ => 0
  avgPuschRbs := fun _ => 0
  usedCrbs := fun _ => usedCrbs

def twoSliceRun : List SliceEvent :=
  [.slotIndication (busySlot 1 10), .serve .dl [20, 5], .serve .dl [30], .serve .ul [15], .serve .ul [10],
    .reconfigure [(⟨1, 1, 2⟩, ⟨20, 30, 90, by decide, by decide⟩)], .slotIndication (busySlot 2 30), .serve .dl [10],
    .serve .ul [20]]

theorem grants_withinQuota_twoSlices :
    ∃ s, Machine.run (step (twoSliceCell ⟨10, 20, 60, by decide, by decide⟩ ⟨10, 30, 80, by decide, by decide⟩)
        insertionSort) (new (twoSliceCell ⟨10, 20, 60, by decide, by decide⟩ ⟨10, 30, 80, by decide, by decide⟩))
        twoSliceRun = .ok s ∧
      WithinQuota (twoSliceCell ⟨10, 20, 60, by decide, by decide⟩ ⟨10, 30, 80, by decide, by decide⟩) s.grants :=
  grants_withinQuota insertionSort_sorts (by unfold FitsDedicated; decide +kernel) (by decide +kernel)

/-- Each of two slices may have 60 dedicated RBs of 100. The SRB slice comes first, and the subtraction of what is
reserved underflows. -/
theorem dedicated_overbooked :
    Machine.run (step (twoSliceCell ⟨60, 60, 100, by decide, by decide⟩ ⟨60, 60, 100, by decide, by decide⟩)
        insertionSort) (new (twoSliceCell ⟨60, 60, 100, by decide, by decide⟩ ⟨60, 60, 100, by decide, by decide⟩))
        [.slotIndication (busySlot 1 0), .serve .dl []] = .error .negativeRbs :=
  (map_eq_error (f := fun _ => ())).mp (by decide +kernel)

end InterSliceScheduler

end Ocudu.Sched
