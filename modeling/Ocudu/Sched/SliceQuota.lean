import Ocudu.Sched.SliceScheduler

/-! The RBs of a slot are granted within the limits of the slices. -/

namespace Ocudu.Sched

def granted : List RbGrant → Direction → Nat → Nat → Nat
  | [], _, _, _ => 0
  | g :: gs, dir, id, slot =>
    (if g.dir = dir ∧ g.id = id ∧ g.slotTx = slot then g.rbs else 0) + granted gs dir id slot

def reserved : List RbLimits → (Nat → Nat) → Nat
  | [], _ => 0
  | l :: ls, f => f 0 + (l.dedicated - f 0) + reserved ls fun i => f (i + 1)

/-- Each grant, when it was stored, was within the maximum of its slice and left the others their dedicated RBs. -/
def WithinQuota (cell : SliceCellConfig) : List RbGrant → Prop
  | [] => True
  | g :: gs => WithinQuota cell gs ∧
    (∃ l, g.limits[g.id]? = some l ∧ granted (g :: gs) g.dir g.id g.slotTx ≤ l.max) ∧
    reserved g.limits (granted (g :: gs) g.dir · g.slotTx) ≤ cell.rbs g.dir

theorem reserved_congr {ls : List RbLimits} {f g : Nat → Nat} (h : ∀ i < ls.length, f i = g i) :
    reserved ls f = reserved ls g := by
  induction ls generalizing f g with
  | nil => rfl
  | cons l ls ih =>
    rw [reserved, reserved, h 0 (Nat.zero_lt_succ _), ih fun i hi => h (i + 1) (Nat.succ_lt_succ hi)]

theorem reserved_add {ls : List RbLimits} {f g : Nat → Nat} {i n : Nat} {l : RbLimits} (hl : ls[i]? = some l)
    (hi : g i = f i + n) (hother : ∀ j, j ≠ i → g j = f j) :
    reserved ls g + (f i + (l.dedicated - f i)) = reserved ls f + (f i + n + (l.dedicated - (f i + n))) := by
  induction ls generalizing f g i with
  | nil => simp at hl
  | cons a ls ih =>
    cases i with
    | zero =>
      obtain rfl : a = l := by simpa using hl
      have hrest : (reserved ls fun i => g (i + 1)) = reserved ls fun i => f (i + 1) :=
        reserved_congr fun i _ => hother (i + 1) (Nat.succ_ne_zero i)
      rw [reserved, reserved, hrest, hi]
      omega
    | succ i =>
      have hrest := ih (f := fun i => f (i + 1)) (g := fun i => g (i + 1)) (by simpa using hl) hi fun j hj =>
        hother (j + 1) (by omega)
      rw [reserved, reserved, hother 0 (Nat.succ_ne_zero i).symm]
      omega

theorem granted_cons_other {gs : List RbGrant} {g : RbGrant} {dir : Direction} {id slot : Nat}
    (h : ¬(g.dir = dir ∧ g.id = id ∧ g.slotTx = slot)) : granted (g :: gs) dir id slot = granted gs dir id slot := by
  rw [granted, if_neg h, Nat.zero_add]

namespace SliceCellConfig

variable (cell : SliceCellConfig)

theorem minK2_pos : 0 < cell.minK2 := by
  unfold minK2
  cases h : cell.puschTdAllocList.min? with
  | none => exact Nat.one_pos
  | some k => exact cell.k2_pos k (List.min?_mem h)

theorem mem_k2 {i : Nat} (hi : i < cell.puschTdAllocList.length) : cell.k2 i ∈ cell.puschTdAllocList := by
  rw [k2, List.getD_eq_getElem?_getD, List.getElem?_eq_getElem hi]
  exact List.getElem_mem hi

theorem minK2_le {i : Nat} (hi : i < cell.puschTdAllocList.length) : cell.minK2 ≤ cell.k2 i := by
  have hmem := cell.mem_k2 hi
  unfold minK2
  cases h : cell.puschTdAllocList.min? with
  | none => exact cell.k2_pos _ hmem
  | some k => exact (List.le_min?_iff h).mp le_rfl _ hmem

theorem le_puschRingSize : schedulerMaxK2 + cell.ntnCsKoffset ≤ cell.puschRingSize := by
  have hk := cell.koffset_le
  refine le_getAllocatorRingSizeGtMin ?_
  rw [schedulerMaxK2]
  omega

def firstSlot : Direction → Nat → Nat
  | .dl, slotTx => slotTx
  | .ul, slotTx => slotTx + (cell.minK2 + cell.ntnCsKoffset)

def lastSlot : Direction → Nat → Nat
  | .dl, slotTx => slotTx
  | .ul, slotTx => slotTx + (schedulerMaxK2 + cell.ntnCsKoffset)

def Reaches (dir : Direction) (slotTx slot : Nat) : Prop :=
  cell.firstSlot dir slotTx ≤ slot ∧ slot ≤ cell.lastSlot dir slotTx

end SliceCellConfig

namespace InterSliceScheduler

/-! Candidates of one slice and one slot -/

def IsFor (id slot : Nat) (c : SliceCandidateContext) : Prop := c.id = id ∧ c.slotTx = slot

instance (id slot : Nat) (c : SliceCandidateContext) : Decidable (IsFor id slot c) :=
  inferInstanceAs (Decidable (_ ∧ _))

def Pushes (n : Nat) : List SliceCandidateContext → Prop
  | [] => True
  | [x] => n ≤ x.rbLims.stop
  | [x, y] => n ≤ x.rbLims.stop ∧ x.rbLims.stop ≤ y.rbLims.stop ∧ (n < y.rbLims.start ∨ y.prio < x.prio)
  | _ => False

/-- The candidates that are left in the queue for a slice with `n` RBs in a slot. -/
def Offers (n : Nat) : List SliceCandidateContext → Prop
  | [] => True
  | [x] => n ≤ x.rbLims.stop
  | [x, y] => n ≤ x.rbLims.stop ∧ n ≤ y.rbLims.stop ∧ (x.rbLims.stop ≤ y.rbLims.stop ∨ n < x.rbLims.start)
  | _ => False

variable {n m : Nat} {x y : SliceCandidateContext} {l l' : List SliceCandidateContext}

theorem Offers.head (h : Offers n (x :: l)) : n ≤ x.rbLims.stop := by
  rcases l with _ | ⟨y, _ | ⟨z, l⟩⟩
  · exact h
  · exact h.1
  · exact h.elim

theorem Offers.tail (h : Offers n (x :: l)) : Offers n l := by
  rcases l with _ | ⟨y, _ | ⟨z, l⟩⟩
  · trivial
  · exact h.2.1
  · exact h.elim

theorem Offers.grow (h : Offers n (x :: l)) (hstart : x.rbLims.start ≤ n) (hm : m ≤ x.rbLims.stop) : Offers m l := by
  rcases l with _ | ⟨y, _ | ⟨z, l⟩⟩
  · trivial
  · exact hm.trans (h.2.2.resolve_right (Nat.not_lt.mpr hstart))
  · exact h.elim

theorem Offers.pair (h : Offers n (x :: y :: l)) : l = [] := by
  rcases l with _ | ⟨z, l⟩
  · rfl
  · exact h.elim

theorem Pushes.offers (h : Pushes n l) (hperm : l'.Perm l) (hsorted : l'.Pairwise fun a b => b.prio ≤ a.prio) :
    Offers n l' := by
  rcases l with _ | ⟨x, _ | ⟨y, _ | ⟨z, l⟩⟩⟩
  · rw [hperm.eq_nil]
    trivial
  · rw [List.perm_singleton.mp hperm]
    exact h
  · obtain ⟨hx, hxy, hsplit⟩ := h
    obtain ⟨a, b, rfl⟩ := List.length_eq_two.mp hperm.length_eq
    rcases List.mem_pair.mp (hperm.subset List.mem_cons_self) with rfl | rfl
    · obtain rfl : b = y := List.singleton_perm_singleton.mp ((List.perm_cons _).mp hperm)
      exact ⟨hx, hx.trans hxy, .inl hxy⟩
    · obtain rfl : b = x := List.singleton_perm_singleton.mp ((List.perm_cons _).mp (hperm.trans (.swap _ _ _)))
      have hprio := List.rel_of_pairwise_cons hsorted List.mem_cons_self
      exact ⟨hx.trans hxy, hx, .inr (hsplit.resolve_right (Nat.not_lt.mpr hprio))⟩
  · exact h.elim

variable {cell : SliceCellConfig} {inp : SliceSlotInput} {dir : Direction} {inst : RanSliceInstance}
  {id slot rbCount lo hi : Nat}

theorem getPrio_lt (hmin : 0 < inst.cfg.rbs.min) (hlo : lo ≤ inst.cfg.rbs.min) (hhi : inst.cfg.rbs.min < hi)
    (hne : getPrio inp dir id inst slot hi ≠ skipPrio) :
    getPrio inp dir id inst slot hi < getPrio inp dir id inst slot lo := by
  have hone : minRbPrio inst.cfg.rbs lo = 1 := if_pos ⟨hmin, hlo⟩
  have hzero : minRbPrio inst.cfg.rbs hi = 0 := if_neg fun h => absurd h.2 (Nat.not_le.mpr hhi)
  unfold getPrio at hne ⊢
  split_ifs at hne ⊢ with hactive
  · cases dir with
    | dl =>
      simp only [activePrio, hone, hzero]
      lia
    | ul =>
      simp only [activePrio, hone, hzero]
      lia
  · exact absurd rfl hne

theorem rbInterval_ok {start stop : Nat} (h : start ≤ stop) : rbInterval start stop = .ok ⟨⟨start, stop⟩, h⟩ :=
  dif_pos h

theorem pushed_cases (rbLims : OrderedInterval) :
    pushed inp dir id inst slot rbLims = [] ∨
      (pushed inp dir id inst slot rbLims = [⟨id, getPrio inp dir id inst slot rbLims.stop, rbLims, slot⟩] ∧
        getPrio inp dir id inst slot rbLims.stop ≠ skipPrio) := by
  unfold pushed
  dsimp only
  split_ifs with h
  · exact .inl rfl
  · exact .inr ⟨rfl, h⟩

theorem mem_pushed {rbLims : OrderedInterval} (h : x ∈ pushed inp dir id inst slot rbLims) :
    IsFor id slot x ∧ x.rbLims = rbLims := by
  rcases @pushed_cases inp dir inst id slot rbLims with hnil | ⟨hone, -⟩
  · rw [hnil] at h
    cases h
  · rw [hone, List.mem_singleton] at h
    rw [h]
    exact ⟨⟨rfl, rfl⟩, rfl⟩

theorem pushed_pair {first second : OrderedInterval} (hn : n ≤ first.stop) (hle : first.stop ≤ second.stop)
    (hsplit : n < second.start ∨
      (0 < inst.cfg.rbs.min ∧ first.stop ≤ inst.cfg.rbs.min ∧ inst.cfg.rbs.min < second.stop)) :
    Pushes n (pushed inp dir id inst slot first ++ pushed inp dir id inst slot second) := by
  rcases @pushed_cases inp dir inst id slot first with h₁ | ⟨h₁, -⟩
  · rcases @pushed_cases inp dir inst id slot second with h₂ | ⟨h₂, -⟩
    · rw [h₁, h₂]
      trivial
    · rw [h₁, h₂]
      exact hn.trans hle
  · rcases @pushed_cases inp dir inst id slot second with h₂ | ⟨h₂, hne⟩
    · rw [h₁, h₂]
      exact hn
    · rw [h₁, h₂]
      refine ⟨hn, hle, hsplit.imp_right fun h => ?_⟩
      exact getPrio_lt h.1 h.2.1 h.2.2 hne

theorem pushCandidates_ok (hcount : rbCount ≤ hi) (hlohi : lo ≤ hi) (hlo : lo ≤ inst.cfg.rbs.min)
    (hsplit : rbCount < inst.cfg.rbs.min → 0 < inst.cfg.rbs.shared →
      rbCount < lo ∨ rbCount = lo ∧ inst.cfg.rbs.min < hi) :
    ∃ l, pushCandidates inp dir id inst slot rbCount lo hi = .ok l ∧ Pushes rbCount l ∧
      ∀ x ∈ l, IsFor id slot x ∧ x.rbLims.stop ≤ hi := by
  unfold pushCandidates
  split_ifs with h
  · have hcase := hsplit h.1 h.2.2
    have hle : rbCount ≤ lo := hcase.elim Nat.le_of_lt fun h => h.1.le
    rw [rbInterval_ok hle, rbInterval_ok hlohi]
    refine ⟨_, rfl, pushed_pair hle hlohi (hcase.imp_right fun hlast => ⟨h.2.1, hlo, hlast.2⟩), fun x hx => ?_⟩
    rcases List.mem_append.mp hx with hx | hx
    · obtain ⟨hfor, hlims⟩ := mem_pushed hx
      rw [hlims]
      exact ⟨hfor, hlohi⟩
    · obtain ⟨hfor, hlims⟩ := mem_pushed hx
      rw [hlims]
      exact ⟨hfor, le_rfl⟩
  · rw [rbInterval_ok hcount]
    refine ⟨_, rfl, ?_, fun x hx => ?_⟩
    · rcases @pushed_cases inp dir inst id slot ⟨⟨rbCount, hi⟩, hcount⟩ with h₁ | ⟨h₁, -⟩
      · rw [h₁]
        trivial
      · rw [h₁]
        exact hcount
    · obtain ⟨hfor, hlims⟩ := mem_pushed hx
      rw [hlims]
      exact ⟨hfor, le_rfl⟩

theorem collect_ok {α : Type} {f : α → Except SliceFault (List SliceCandidateContext)} {key : α → Nat}
    {keyOf : SliceCandidateContext → Nat} {as : List α} (hdistinct : as.Pairwise fun a b => key a ≠ key b)
    (hf : ∀ a ∈ as, ∃ l, f a = .ok l ∧ ∀ x ∈ l, keyOf x = key a) :
    ∃ l, collect f as = .ok l ∧ (∀ x ∈ l, ∃ a ∈ as, ∃ l', f a = .ok l' ∧ x ∈ l') ∧
      ∀ k, l.filter (keyOf · = k) = [] ∨ ∃ a ∈ as, key a = k ∧ f a = .ok (l.filter (keyOf · = k)) := by
  induction as with
  | nil => exact ⟨[], rfl, by simp, fun k => .inl rfl⟩
  | cons a as ih =>
    obtain ⟨hne, hdistinct⟩ := List.pairwise_cons.mp hdistinct
    obtain ⟨l, hl, hkey⟩ := hf a List.mem_cons_self
    obtain ⟨rest, hrest, hmem, hfilter⟩ := ih hdistinct fun b hb => hf b (List.mem_cons_of_mem _ hb)
    refine ⟨l ++ rest, ?_, fun x hx => ?_, fun k => ?_⟩
    · rw [collect, hl, ok_bind, hrest, ok_bind, pure_eq_ok]
    · rcases List.mem_append.mp hx with hx | hx
      · exact ⟨a, List.mem_cons_self, l, hl, hx⟩
      · obtain ⟨b, hb, hxb⟩ := hmem x hx
        exact ⟨b, List.mem_cons_of_mem _ hb, hxb⟩
    · rw [List.filter_append]
      by_cases hk : key a = k
      · have hnil : rest.filter (keyOf · = k) = [] := by
          rcases hfilter k with hnil | ⟨b, hb, hbk, -⟩
          · exact hnil
          · exact absurd (hk.trans hbk.symm) (hne b hb)
        have hall : l.filter (keyOf · = k) = l :=
          List.filter_eq_self.mpr fun x hx => by simpa using (hkey x hx).trans hk
        rw [hnil, hall, List.append_nil]
        exact .inr ⟨a, List.mem_cons_self, hk, hl⟩
      · have hnone : l.filter (keyOf · = k) = [] :=
          List.filter_eq_nil_iff.mpr fun x hx => by simpa using fun hc => hk ((hkey x hx).symm.trans hc)
        rw [hnone, List.nil_append]
        rcases hfilter k with hnil | ⟨b, hb, hbk, hfb⟩
        · exact .inl hnil
        · exact .inr ⟨b, List.mem_cons_of_mem _ hb, hbk, hfb⟩

theorem scaled_le (tdResIdx rbs : Nat) : scaled cell inp tdResIdx rbs ≤ rbs := by
  unfold scaled
  have hle : rbs * (cell.ulRbs - inp.usedCrbs tdResIdx) % 2 ^ 32 ≤ rbs * cell.ulRbs :=
    (Nat.mod_le _ _).trans (Nat.mul_le_mul_left _ (Nat.sub_le _ _))
  exact Nat.div_le_of_le_mul (hle.trans (Nat.mul_comm _ _).le)

theorem scaled_mono {tdResIdx : Nat} {l : RbLimits} (h : l.max * cell.ulRbs < 2 ^ 32) :
    scaled cell inp tdResIdx l.min ≤ scaled cell inp tdResIdx l.max := by
  have hmax : l.max * (cell.ulRbs - inp.usedCrbs tdResIdx) < 2 ^ 32 :=
    (Nat.mul_le_mul_left _ (Nat.sub_le _ _)).trans_lt h
  have hmin : l.min * (cell.ulRbs - inp.usedCrbs tdResIdx) ≤ l.max * (cell.ulRbs - inp.usedCrbs tdResIdx) :=
    Nat.mul_le_mul_right _ l.min_le
  unfold scaled
  rw [Nat.mod_eq_of_lt hmax, Nat.mod_eq_of_lt (hmin.trans_lt hmax)]
  exact Nat.div_le_div_right hmin

theorem mem_usedTdRes {a : Option Nat} {tds : List Nat} {i : Nat} (h : i ∈ usedTdRes cell inp inst a tds) :
    i ∈ tds ∧ isUsable cell inp inst i = true := by
  induction tds generalizing a with
  | nil => cases h
  | cons j tds ih =>
    rw [usedTdRes] at h
    split_ifs at h with hj
    · rcases List.mem_cons.mp h with rfl | h
      · exact ⟨List.mem_cons_self, hj.2⟩
      · exact ⟨List.mem_cons_of_mem _ (ih h).1, (ih h).2⟩
    · exact ⟨List.mem_cons_of_mem _ (ih h).1, (ih h).2⟩

theorem usedTdRes_pairwise {a : Option Nat} {tds : List Nat} (hsorted : tds.Pairwise fun i j => cell.k2 i ≤ cell.k2 j)
    (ha : ∀ k ∈ a, ∀ i ∈ tds, k ≤ cell.k2 i) :
    (usedTdRes cell inp inst a tds).Pairwise (fun i j => cell.k2 i < cell.k2 j) ∧
      ∀ k ∈ a, ∀ i ∈ usedTdRes cell inp inst a tds, k < cell.k2 i := by
  induction tds generalizing a with
  | nil => exact ⟨.nil, by simp [usedTdRes]⟩
  | cons j tds ih =>
    obtain ⟨hj, hsorted⟩ := List.pairwise_cons.mp hsorted
    rw [usedTdRes]
    split_ifs with hc
    · obtain ⟨hpair, hlt⟩ := ih (a := some (cell.k2 j)) hsorted (by simpa using hj)
      refine ⟨List.pairwise_cons.mpr ⟨hlt _ rfl, hpair⟩, fun k hk i hi => ?_⟩
      have hkj : k < cell.k2 j := by
        refine lt_of_le_of_ne (ha k hk j List.mem_cons_self) fun heq => hc.1 ?_
        rw [← heq]
        exact hk
      rcases List.mem_cons.mp hi with rfl | hi
      · exact hkj
      · exact hkj.trans (hlt _ rfl i hi)
    · exact ih hsorted fun k hk i hi => ha k hk i (List.mem_cons_of_mem _ hi)

/-- What the slice has been granted leaves room up to its scaled minimum. If it is just that, a candidate up to the
scaled maximum has another priority. -/
def HasRoom (cell : SliceCellConfig) (inp : SliceSlotInput) (inst : RanSliceInstance) (tdResIdx : Nat) : Prop :=
  inst.nofPuschRbsAllocated cell (puschSlot cell inp tdResIdx) < inst.cfg.rbs.min → 0 < inst.cfg.rbs.shared →
    inst.nofPuschRbsAllocated cell (puschSlot cell inp tdResIdx) < scaled cell inp tdResIdx inst.cfg.rbs.min ∨
      inst.nofPuschRbsAllocated cell (puschSlot cell inp tdResIdx) = scaled cell inp tdResIdx inst.cfg.rbs.min ∧
        inst.cfg.rbs.min < scaled cell inp tdResIdx inst.cfg.rbs.max

instance (inp : SliceSlotInput) (inst : RanSliceInstance) (tdResIdx : Nat) :
    Decidable (HasRoom cell inp inst tdResIdx) :=
  inferInstanceAs (Decidable (_ → _ → _ ∨ _))

structure PushesAll (cell : SliceCellConfig) (dir : Direction) (slotTx id : Nat) (inst : RanSliceInstance)
    (l : List SliceCandidateContext) : Prop where
  id : ∀ x ∈ l, x.id = id
  stop : ∀ x ∈ l, x.rbLims.stop ≤ inst.cfg.rbs.max
  reaches : ∀ x ∈ l, cell.Reaches dir slotTx x.slotTx
  pushes : ∀ slot, Pushes (inst.rbCount cell dir slot) (l.filter (·.slotTx = slot))

theorem pushesAll_nil : PushesAll cell dir slot id inst [] :=
  ⟨by simp, by simp, by simp, fun _ => trivial⟩

theorem dlCandidates_ok :
    ∃ l, dlCandidates inp id inst = .ok l ∧ PushesAll cell .dl inp.slotTx id inst l := by
  unfold dlCandidates
  split_ifs with h
  · exact ⟨[], rfl, pushesAll_nil⟩
  · have hcount : inst.pdschRbCount ≤ inst.cfg.rbs.max := Nat.le_of_not_le fun hc => h (.inr hc)
    obtain ⟨l, hl, hpush, hmem⟩ := @pushCandidates_ok inp .dl inst id inp.slotTx _ _ _ hcount
      inst.cfg.rbs.min_le le_rfl fun hlt _ => .inl hlt
    refine ⟨l, hl, fun x hx => (hmem x hx).1.1, fun x hx => (hmem x hx).2, fun x hx => ?_, fun slot => ?_⟩
    · rw [(hmem x hx).1.2]
      exact ⟨le_rfl, le_rfl⟩
    · by_cases hs : inp.slotTx = slot
      · rw [List.filter_eq_self.mpr fun x hx => by simpa using (hmem x hx).1.2.trans hs]
        exact hpush
      · rw [List.filter_eq_nil_iff.mpr fun x hx => by simpa using fun hc => hs ((hmem x hx).1.2.symm.trans hc)]
        trivial

theorem tdCandidates_ok {tdResIdx : Nat} (hbound : inst.cfg.rbs.max * cell.ulRbs < 2 ^ 32)
    (husable : isUsable cell inp inst tdResIdx = true) (hroom : HasRoom cell inp inst tdResIdx) :
    ∃ l, tdCandidates cell inp id inst tdResIdx = .ok l ∧
      Pushes (inst.rbCount cell .ul (puschSlot cell inp tdResIdx)) l ∧
      ∀ x ∈ l, IsFor id (puschSlot cell inp tdResIdx) x ∧ x.rbLims.stop ≤ inst.cfg.rbs.max := by
  obtain ⟨-, -, hlt⟩ := of_decide_eq_true husable
  obtain ⟨l, hl, hpush, hmem⟩ := @pushCandidates_ok inp .ul inst id (puschSlot cell inp tdResIdx) _ _ _
    hlt.le (scaled_mono hbound) (scaled_le _ _) hroom
  exact ⟨l, hl, hpush, fun x hx => ⟨(hmem x hx).1, (hmem x hx).2.trans (scaled_le _ _)⟩⟩

theorem validPuschTdList_mem {slotTx i : Nat} (hi : i ∈ cell.validPuschTdList slotTx) :
    i < cell.puschTdAllocList.length := by
  rw [SliceCellConfig.validPuschTdList, List.getD_eq_getElem?_getD] at hi
  cases h : cell.slotRing[slotTx % cell.slotRing.length]? with
  | none =>
    rw [h] at hi
    cases hi
  | some l =>
    rw [h] at hi
    exact cell.ring_mem l (List.mem_of_getElem? h) i hi

theorem validPuschTdList_sorted (slotTx : Nat) :
    (cell.validPuschTdList slotTx).Pairwise fun i j => cell.k2 i ≤ cell.k2 j := by
  rw [SliceCellConfig.validPuschTdList, List.getD_eq_getElem?_getD]
  cases h : cell.slotRing[slotTx % cell.slotRing.length]? with
  | none => exact .nil
  | some l => exact cell.ring_sorted l (List.mem_of_getElem? h)

theorem reaches_puschSlot {tdResIdx : Nat} (hi : tdResIdx < cell.puschTdAllocList.length) :
    cell.Reaches .ul inp.slotTx (puschSlot cell inp tdResIdx) := by
  have hmin := cell.minK2_le hi
  have hmax := cell.k2_le _ (cell.mem_k2 hi)
  constructor
  · rw [SliceCellConfig.firstSlot, puschSlot]
    omega
  · rw [SliceCellConfig.lastSlot, puschSlot]
    omega

theorem ulCandidates_ok (hbound : inst.cfg.rbs.max * cell.ulRbs < 2 ^ 32)
    (hroom : ∀ i ∈ usedTdRes cell inp inst none (cell.validPuschTdList inp.slotTx), HasRoom cell inp inst i) :
    ∃ l, ulCandidates cell inp id inst = .ok l ∧ PushesAll cell .ul inp.slotTx id inst l := by
  obtain ⟨hdistinct, -⟩ := @usedTdRes_pairwise cell inp inst none _
    (@validPuschTdList_sorted cell inp.slotTx) (by simp)
  have htd := fun i hi => @tdCandidates_ok cell inp inst id i hbound (mem_usedTdRes hi).2 (hroom i hi)
  obtain ⟨l, hl, hmem, hfilter⟩ := @collect_ok _ (tdCandidates cell inp id inst) (puschSlot cell inp) (·.slotTx) _
    (hdistinct.imp fun h heq => absurd h (by rw [puschSlot, puschSlot] at heq; omega)) fun i hi => by
      obtain ⟨l, hl, -, hmem⟩ := htd i hi
      exact ⟨l, hl, fun x hx => (hmem x hx).1.2⟩
  have hx : ∀ x ∈ l, x.id = id ∧ x.rbLims.stop ≤ inst.cfg.rbs.max ∧ cell.Reaches .ul inp.slotTx x.slotTx := by
    intro x hx
    obtain ⟨i, hi, l', hl', hx⟩ := hmem x hx
    obtain ⟨l'', hl'', -, hmem'⟩ := htd i hi
    rw [hl''] at hl'
    cases hl'
    obtain ⟨⟨hid, hslot⟩, hstop⟩ := hmem' x hx
    rw [hslot]
    exact ⟨hid, hstop, reaches_puschSlot (validPuschTdList_mem (mem_usedTdRes hi).1)⟩
  refine ⟨l, hl, fun x h => (hx x h).1, fun x h => (hx x h).2.1, fun x h => (hx x h).2.2, fun slot => ?_⟩
  rcases hfilter slot with hnil | ⟨i, hi, rfl, hfi⟩
  · rw [hnil]
    trivial
  · obtain ⟨l', hl', hpush, -⟩ := htd i hi
    rw [hfi] at hl'
    cases hl'
    exact hpush

theorem candidates_ok (hbound : inst.cfg.rbs.max * cell.ulRbs < 2 ^ 32)
    (hroom : ∀ i ∈ usedTdRes cell inp inst none (cell.validPuschTdList inp.slotTx), HasRoom cell inp inst i) :
    ∃ l, candidates cell inp dir id inst = .ok l ∧ PushesAll cell dir inp.slotTx id inst l := by
  cases dir with
  | dl => exact dlCandidates_ok
  | ul => exact ulCandidates_ok hbound hroom

structure PushedAll (cell : SliceCellConfig) (dir : Direction) (slotTx : Nat) (slices : List RanSliceInstance)
    (l : List SliceCandidateContext) : Prop where
  stop : ∀ x ∈ l, ∃ inst, slices[x.id]? = some inst ∧ x.rbLims.stop ≤ inst.cfg.rbs.max
  reaches : ∀ x ∈ l, cell.Reaches dir slotTx x.slotTx
  pushes : ∀ id slot n, (∀ inst, slices[id]? = some inst → inst.rbCount cell dir slot = n) →
    Pushes n (l.filter (IsFor id slot ·))

theorem filter_isFor (l : List SliceCandidateContext) (id slot : Nat) :
    l.filter (IsFor id slot ·) = (l.filter (·.id = id)).filter (·.slotTx = slot) := by
  rw [List.filter_filter]
  congr 1
  funext x
  exact (Bool.decide_and _ _).trans (Bool.and_comm _ _)

theorem pushAll_ok {slices : List RanSliceInstance} (hbound : ∀ inst ∈ slices, inst.cfg.rbs.max * cell.ulRbs < 2 ^ 32)
    (hroom : ∀ inst ∈ slices, ∀ i ∈ usedTdRes cell inp inst none (cell.validPuschTdList inp.slotTx),
      HasRoom cell inp inst i) :
    ∃ l, pushAll cell inp dir slices = .ok l ∧ PushedAll cell dir inp.slotTx slices l := by
  have hdistinct : slices.zipIdx.Pairwise fun a b => a.2 ≠ b.2 := by
    rw [← List.pairwise_map (f := Prod.snd) (R := (· ≠ ·)), List.zipIdx_map_snd]
    exact List.nodup_range'
  have hslice : ∀ a ∈ slices.zipIdx, slices[a.2]? = some a.1 ∧
      ∃ l, candidates cell inp dir a.2 a.1 = .ok l ∧ PushesAll cell dir inp.slotTx a.2 a.1 l := by
    intro a ha
    have hget := List.mem_zipIdx_iff_getElem?.mp ha
    have hmem := List.mem_of_getElem? hget
    exact ⟨hget, candidates_ok (hbound a.1 hmem) (hroom a.1 hmem)⟩
  obtain ⟨l, hl, hmem, hfilter⟩ := @collect_ok _ (fun a => candidates cell inp dir a.2 a.1) Prod.snd (·.id) _
    hdistinct fun a ha => by
      obtain ⟨-, l, hl, hpush⟩ := hslice a ha
      exact ⟨l, hl, hpush.id⟩
  have hx : ∀ x ∈ l, (∃ inst, slices[x.id]? = some inst ∧ x.rbLims.stop ≤ inst.cfg.rbs.max) ∧
      cell.Reaches dir inp.slotTx x.slotTx := by
    intro x hx
    obtain ⟨a, ha, l', hl', hx⟩ := hmem x hx
    obtain ⟨hget, l'', hl'', hpush⟩ := hslice a ha
    rw [hl''] at hl'
    cases hl'
    rw [hpush.id x hx]
    exact ⟨⟨a.1, hget, hpush.stop x hx⟩, hpush.reaches x hx⟩
  refine ⟨l, hl, fun x h => (hx x h).1, fun x h => (hx x h).2, fun id slot n hn => ?_⟩
  rw [filter_isFor]
  rcases hfilter id with hnil | ⟨a, ha, rfl, hfa⟩
  · rw [hnil]
    trivial
  · obtain ⟨hget, l', hl', hpush⟩ := hslice a ha
    rw [hfa] at hl'
    cases hl'
    rw [← hn a.1 hget]
    exact hpush.pushes slot

end InterSliceScheduler

end Ocudu.Sched
