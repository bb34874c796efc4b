import Ocudu.Sched.PucchRegions

/-! The PUCCH resources that are in use in a slot, through any order of allocations, releases and other UL
grants. -/

namespace Ocudu.Sched

theorem addMuxRegion_ok (regionIdx : Nat) {lookup : Nat → Option Nat} {members : List Nat} (hnodup : members.Nodup)
    (hfree : ∀ i ∈ members, lookup i = none) :
    ∃ lookup', addMuxRegion regionIdx lookup members = .ok lookup' ∧
      ∀ i, lookup' i = if i ∈ members then some regionIdx else lookup i := by
  induction members generalizing lookup with
  | nil => exact ⟨lookup, rfl, fun i => rfl⟩
  | cons i members ih =>
    obtain ⟨hi, hnodup⟩ := List.nodup_cons.mp hnodup
    have hfree' : ∀ j ∈ members, Function.update lookup i (some regionIdx) j = none := by
      intro j hj
      have hne : j ≠ i := fun heq => hi (heq ▸ hj)
      rw [Function.update_of_ne hne]
      exact hfree j (List.mem_cons_of_mem _ hj)
    obtain ⟨lookup', hok, hlookup'⟩ := ih hnodup hfree'
    refine ⟨lookup', ?_, fun j => ?_⟩
    · rw [addMuxRegion, hfree i List.mem_cons_self]
      exact hok
    · rw [hlookup']
      by_cases hji : j = i
      · subst hji
        simp [hi]
      · simp [hji]

theorem addMuxRegions_ok (lookup : Nat → Option Nat) (k : Nat) {regions : List (List Nat)}
    (hnodup : ∀ members ∈ regions, members.Nodup)
    (hdisjoint : regions.Pairwise fun members members' => ∀ i ∈ members, i ∉ members')
    (hfree : ∀ members ∈ regions, ∀ i ∈ members, lookup i = none) :
    ∃ lookup', addMuxRegions lookup k regions = .ok lookup' ∧
      ∀ i, (lookup' i = lookup i ∧ ∀ members ∈ regions, i ∉ members) ∨
        ∃ regionIdx members, regions[regionIdx]? = some members ∧ i ∈ members ∧
          lookup' i = some (k + regionIdx) := by
  induction regions generalizing lookup k with
  | nil => exact ⟨lookup, rfl, fun i => .inl ⟨rfl, by simp⟩⟩
  | cons region regions ih =>
    obtain ⟨hapart, hdisjoint⟩ := List.pairwise_cons.mp hdisjoint
    obtain ⟨lookup₁, hok₁, hlookup₁⟩ := addMuxRegion_ok k (hnodup region List.mem_cons_self)
      (hfree region List.mem_cons_self)
    have hfree₁ : ∀ members ∈ regions, ∀ i ∈ members, lookup₁ i = none := by
      intro members hmem i hi
      rw [hlookup₁, if_neg fun hin => hapart members hmem i hin hi]
      exact hfree members (List.mem_cons_of_mem _ hmem) i hi
    obtain ⟨lookup', hok, hlookup'⟩ := ih lookup₁ (k + 1)
      (fun members hmem => hnodup members (List.mem_cons_of_mem _ hmem)) hdisjoint hfree₁
    refine ⟨lookup', ?_, fun i => ?_⟩
    · rw [addMuxRegions, hok₁]
      exact hok
    · rcases hlookup' i with ⟨heq, hout⟩ | ⟨regionIdx, members, hget, hi, heq⟩
      · rw [heq, hlookup₁]
        by_cases hin : i ∈ region
        · exact .inr ⟨0, region, rfl, hin, if_pos hin⟩
        · refine .inl ⟨if_neg hin, fun members hmem => ?_⟩
          rcases List.mem_cons.mp hmem with rfl | hmem
          · exact hin
          · exact hout members hmem
      · refine .inr ⟨regionIdx + 1, members, hget, hi, ?_⟩
        rw [heq, Nat.add_assoc, Nat.add_comm 1]

theorem GrantInfo.contains_iff {grant : GrantInfo} {sym crb : Nat} :
    grant.contains sym crb = true ↔ sym ∈ grant.symbols.points ∧ crb ∈ grant.crbs.points := by
  rw [Interval.mem_points, Interval.mem_points, GrantInfo.contains, Bool.and_eq_true]

namespace ResourceGrid

variable {grid ignored : ResourceGrid} {grants : List GrantInfo} {grant : GrantInfo} {sym crb : Nat}

theorem foldl_fill : (grants.foldl fill grid) sym crb = (grants.any (·.contains sym crb) || grid sym crb) := by
  induction grants generalizing grid with
  | nil => rfl
  | cons g grants ih =>
    rw [List.foldl_cons, ih, List.any_cons, fill, ← Bool.or_assoc]
    rw [Bool.or_comm (grants.any _)]

theorem foldl_clear : (grants.foldl clear grid) sym crb = (!grants.any (·.contains sym crb) && grid sym crb) := by
  induction grants generalizing grid with
  | nil => rfl
  | cons g grants ih =>
    rw [List.foldl_cons, ih, List.any_cons, clear, Bool.not_or, ← Bool.and_assoc]
    rw [Bool.and_comm (!grants.any _)]

theorem ignored_of_not_collides (h : grid.collides grant ignored = false) (hin : grant.contains sym crb = true)
    (hset : grid sym crb = true) : ignored sym crb = true := by
  obtain ⟨hsym, hcrb⟩ := GrantInfo.contains_iff.mp hin
  by_contra hign
  refine Bool.false_ne_true (h.symm.trans ?_)
  refine List.any_eq_true.mpr ⟨sym, hsym, List.any_eq_true.mpr ⟨crb, hcrb, ?_⟩⟩
  rw [hset, Bool.eq_false_iff.mpr hign]
  rfl

end ResourceGrid

namespace PucchCollisionManager

structure Built (m : PucchCollisionManager) : Prop where
  col : m.colMatrix = m.cfg.makeCollisionMatrix
  mux : m.muxMatrix = m.cfg.makeMuxRegionsMatrix
  lookup : ∀ i, (m.muxRegionLookup i = none ∧ ∀ members ∈ m.muxMatrix, i ∉ members) ∨
    ∃ regionIdx members, m.muxMatrix[regionIdx]? = some members ∧ i ∈ members ∧ m.muxRegionLookup i = some regionIdx

theorem new_ok (cfg : CellPucchResConfig) (bwpStart : Nat) :
    ∃ m, new cfg bwpStart = .ok m ∧ m.cfg = cfg ∧ m.bwpStart = bwpStart ∧ m.Built := by
  have hmatrix := cfg.regionMatrix
  obtain ⟨lookup, hok, hlookup⟩ := addMuxRegions_ok (fun _ => none) 0 hmatrix.nodup hmatrix.disjoint
    fun _ _ _ _ => rfl
  refine ⟨⟨cfg, bwpStart, cfg.makeCollisionMatrix, cfg.makeMuxRegionsMatrix, lookup⟩, ?_, rfl, rfl, rfl, rfl, fun i => ?_⟩
  · rw [new, buildMuxRegionLookup, hok]
    rfl
  · have hi := hlookup i
    simp only [Nat.zero_add] at hi
    exact hi

variable {m : PucchCollisionManager} {s s' : PucchSlot}

theorem Built.sharesRegion_iff (hm : m.Built) {i : Nat} (hi : i < m.cfg.nofTotalRes)
    (hbound : ∀ j, s.currentState j = true → j < m.cfg.nofTotalRes) (hfree : s.currentState i = false) :
    m.sharesRegion s i = true ↔
      ∃ j, s.currentState j = true ∧ (m.cfg.getRes i).SameRegion (m.cfg.getRes j) := by
  have hmatrix : m.cfg.RegionMatrix m.muxMatrix := by
    rw [hm.mux]
    exact m.cfg.regionMatrix
  unfold sharesRegion
  rcases hm.lookup i with ⟨hnone, hout⟩ | ⟨regionIdx, members, hget, hin, hsome⟩
  · rw [hnone]
    simp only [Option.any_none, Bool.false_eq_true, false_iff]
    rintro ⟨j, hj, hsame⟩
    have hne : i ≠ j := fun heq => by simp [heq, hj] at hfree
    obtain ⟨members, hmem, hin, -⟩ := hmatrix.complete i j hne hi (hbound j hj) hsame
    exact hout members hmem hin
  · have hmem : members ∈ m.muxMatrix := List.mem_of_getElem? hget
    rw [hsome, Option.any_some, List.getD_eq_getElem?_getD, hget, Option.getD_some, List.any_eq_true]
    constructor
    · rintro ⟨j, hj, hstate⟩
      exact ⟨j, hstate, hmatrix.same members hmem i hin j hj⟩
    · rintro ⟨j, hj, hsame⟩
      have hne : i ≠ j := fun heq => by simp [heq, hj] at hfree
      obtain ⟨members', hmem', hin', hj'⟩ := hmatrix.complete i j hne hi (hbound j hj) hsame
      have heq : members' = members := by
        have hsymm : Std.Symm fun members members' : List Nat => ∀ i ∈ members, i ∉ members' :=
          ⟨fun a b hab k hb ha => hab k ha hb⟩
        by_contra hdiff
        exact hmatrix.disjoint.forall hmem' hmem hdiff i hin' hin
      exact ⟨j, heq ▸ hj', hj⟩

structure Inv (m : PucchCollisionManager) (s : PucchSlot) : Prop where
  bound : ∀ i, s.currentState i = true → i < m.cfg.nofTotalRes
  apart : ∀ i j, i ≠ j → s.currentState i = true → s.currentState j = true →
    (m.cfg.getRes i).collide (m.cfg.getRes j) = false
  pucch : ∀ sym crb, s.pucchResGrid sym crb = true ↔ ∃ i, s.currentState i = true ∧ m.covers i sym crb = true
  ul : ∀ sym crb, s.ulResGrid sym crb = true ↔
    s.pucchResGrid sym crb = true ∨ ∃ g ∈ s.ulGrants, g.contains sym crb = true
  foreign : ∀ sym crb, ∀ g ∈ s.ulGrants, g.contains sym crb = true → s.pucchResGrid sym crb = false
  owners : s.ulGrants.Pairwise fun g g' => ∀ sym crb, g.contains sym crb = true → g'.contains sym crb = false

theorem Inv.empty (m : PucchCollisionManager) : m.Inv .empty where
  bound _ h := absurd h Bool.false_ne_true
  apart _ _ _ h := absurd h Bool.false_ne_true
  pucch _ _ := ⟨fun h => absurd h Bool.false_ne_true, fun ⟨_, h, _⟩ => absurd h Bool.false_ne_true⟩
  ul _ _ := ⟨fun h => absurd h Bool.false_ne_true,
    fun h => h.elim (absurd · Bool.false_ne_true) fun ⟨_, hg, _⟩ => absurd hg List.not_mem_nil⟩
  foreign _ _ _ hg := absurd hg List.not_mem_nil
  owners := List.Pairwise.nil

theorem Inv.sameRegion (h : m.Inv s) {i j sym crb : Nat} (hne : i ≠ j) (hi : s.currentState i = true)
    (hj : s.currentState j = true) (hci : m.covers i sym crb = true) (hcj : m.covers j sym crb = true) :
    (m.cfg.getRes i).SameRegion (m.cfg.getRes j) :=
  PucchResource.sameRegion_of_overlaps (overlaps_of_covers hci hcj) (h.apart i j hne hi hj)

theorem covers_eq {i j : Nat} (h : (m.cfg.getRes i).SameRegion (m.cfg.getRes j)) (sym crb : Nat) :
    m.covers i sym crb = m.covers j sym crb := by
  unfold covers
  rw [hops_eq h]

theorem fillHops_iff {grid : ResourceGrid} {i sym crb : Nat} :
    ((m.hops i).foldl ResourceGrid.fill grid) sym crb = true ↔ m.covers i sym crb = true ∨ grid sym crb = true := by
  rw [ResourceGrid.foldl_fill, Bool.or_eq_true]
  rfl

theorem clearHops_iff {grid : ResourceGrid} {i sym crb : Nat} :
    ((m.hops i).foldl ResourceGrid.clear grid) sym crb = true ↔ m.covers i sym crb = false ∧ grid sym crb = true := by
  rw [ResourceGrid.foldl_clear, Bool.and_eq_true, Bool.not_eq_true']
  rfl

theorem alloc_eq_ok {i : Nat} (h : m.alloc s i = .ok (.ok s')) :
    i < m.cfg.nofTotalRes ∧ (∀ hop ∈ m.hops i, s.ulResGrid.collides hop s.pucchResGrid = false) ∧
      m.colliding s i = false ∧ s' = { s with
        currentState := Function.update s.currentState i true
        ulResGrid := (m.hops i).foldl ResourceGrid.fill s.ulResGrid
        pucchResGrid := (m.hops i).foldl ResourceGrid.fill s.pucchResGrid } := by
  unfold alloc at h
  split_ifs at h with hi hul hcol
  · simp at h
  · simp at h
  · refine ⟨Nat.lt_of_not_le hi, fun hop hhop => ?_, Bool.eq_false_iff.mpr hcol, ?_⟩
    · by_contra hcollides
      exact hul (List.any_eq_true.mpr ⟨hop, hhop, Bool.not_eq_false _ ▸ hcollides⟩)
    · simpa using h.symm

/-- What collides with a resource that is in use is refused. -/
theorem Inv.apart_of_not_colliding (hm : m.Built) (h : m.Inv s) {i : Nat} (hi : i < m.cfg.nofTotalRes) :
    m.colliding s i = false ↔
      ∀ j, s.currentState j = true → i ≠ j ∧ (m.cfg.getRes i).collide (m.cfg.getRes j) = false := by
  have hentry : ∀ j, s.currentState j = true →
      (m.colMatrix i j = true ↔ i = j ∨ (m.cfg.getRes i).collide (m.cfg.getRes j) = true) := by
    intro j hj
    rw [hm.col]
    exact CellPucchResConfig.makeCollisionMatrix_iff hi (h.bound j hj)
  constructor
  · intro hcol j hj
    have hunset : ¬m.colMatrix i j = true := fun hset => Bool.false_ne_true (hcol.symm.trans
      (List.any_eq_true.mpr ⟨j, List.mem_range.mpr (h.bound j hj), by rw [hj, hset]; rfl⟩))
    rw [hentry j hj, not_or, Bool.not_eq_true] at hunset
    exact hunset
  · intro hapart
    by_contra hcol
    obtain ⟨j, -, hj⟩ := List.any_eq_true.mp (Bool.not_eq_false _ ▸ hcol)
    obtain ⟨hset, hj⟩ := (Bool.and_eq_true _ _).mp hj
    obtain ⟨hne, hnot⟩ := hapart j hj
    rcases (hentry j hj).mp hset with heq | hcollide
    · exact hne heq
    · exact Bool.false_ne_true (hnot.symm.trans hcollide)

theorem Inv.alloc (hm : m.Built) (h : m.Inv s) {i : Nat} (hok : m.alloc s i = .ok (.ok s')) : m.Inv s' := by
  obtain ⟨hi, hhops, hcol, rfl⟩ := alloc_eq_ok hok
  -- what is in the UL grid at the resource is of PUCCHs
  have hpucch : ∀ sym crb, m.covers i sym crb = true → s.ulResGrid sym crb = true → s.pucchResGrid sym crb = true := by
    intro sym crb hcovers hset
    obtain ⟨hop, hhop, hin⟩ := List.any_eq_true.mp hcovers
    exact ResourceGrid.ignored_of_not_collides (hhops hop hhop) hin hset
  have hfree := (h.apart_of_not_colliding hm hi).mp hcol
  refine ⟨fun j hj => ?_, fun j k hne hj hk => ?_, fun sym crb => ?_, fun sym crb => ?_, fun sym crb g hg hin => ?_,
    h.owners⟩
  · by_cases hji : j = i
    · exact hji ▸ hi
    · exact h.bound j (by simpa [Function.update_of_ne hji] using hj)
  · by_cases hji : j = i
    · subst hji
      have hkj : k ≠ j := Ne.symm hne
      exact (hfree k (by simpa [Function.update_of_ne hkj] using hk)).2
    · have hj' : s.currentState j = true := by simpa [Function.update_of_ne hji] using hj
      by_cases hki : k = i
      · subst hki
        rw [PucchResource.collide_comm]
        exact (hfree j hj').2
      · exact h.apart j k hne hj' (by simpa [Function.update_of_ne hki] using hk)
  · rw [fillHops_iff, h.pucch]
    constructor
    · rintro (hcovers | ⟨j, hj, hcovers⟩)
      · exact ⟨i, by simp, hcovers⟩
      · exact ⟨j, by simp [Function.update_of_ne (Ne.symm (hfree j hj).1), hj], hcovers⟩
    · rintro ⟨j, hj, hcovers⟩
      by_cases hji : j = i
      · exact .inl (hji ▸ hcovers)
      · exact .inr ⟨j, by simpa [Function.update_of_ne hji] using hj, hcovers⟩
  · rw [fillHops_iff, h.ul, ← or_assoc]
    exact or_congr_left fillHops_iff.symm
  · rw [← Bool.not_eq_true, fillHops_iff, not_or]
    have hnot : s.pucchResGrid sym crb = false := h.foreign sym crb g hg hin
    refine ⟨fun hcovers => ?_, by simp [hnot]⟩
    have hset := hpucch sym crb hcovers ((h.ul sym crb).mpr (.inr ⟨g, hg, hin⟩))
    rw [hnot] at hset
    exact Bool.false_ne_true hset

theorem free_cases {i : Nat} {wasInUse : Bool} (hok : m.free s i = .ok (s', wasInUse)) :
    i < m.cfg.nofTotalRes ∧ (s' = s ∨ (s.currentState i = true ∧
      ((m.sharesRegion { s with currentState := Function.update s.currentState i false } i = true ∧
          s' = { s with currentState := Function.update s.currentState i false }) ∨
        (m.sharesRegion { s with currentState := Function.update s.currentState i false } i = false ∧
          s' = { s with
            currentState := Function.update s.currentState i false
            ulResGrid := (m.hops i).foldl ResourceGrid.clear s.ulResGrid
            pucchResGrid := (m.hops i).foldl ResourceGrid.clear s.pucchResGrid })))) := by
  unfold free at hok
  split_ifs at hok with hi hstate
  · simp only [Except.ok.injEq, Prod.mk.injEq] at hok
    exact ⟨Nat.lt_of_not_le hi, .inl hok.1.symm⟩
  · refine ⟨Nat.lt_of_not_le hi, .inr ⟨Bool.not_eq_false _ ▸ hstate, ?_⟩⟩
    dsimp only at hok
    split_ifs at hok with hshares
    · simp only [Except.ok.injEq, Prod.mk.injEq] at hok
      exact .inl ⟨hshares, hok.1.symm⟩
    · simp only [Except.ok.injEq, Prod.mk.injEq] at hok
      exact .inr ⟨Bool.eq_false_iff.mpr hshares, hok.1.symm⟩

theorem update_false_iff {i j : Nat} :
    Function.update s.currentState i false j = true ↔ j ≠ i ∧ s.currentState j = true := by
  by_cases hji : j = i
  · simp [hji]
  · simp [hji]

theorem Inv.free (hm : m.Built) (h : m.Inv s) {i : Nat} {wasInUse : Bool} (hok : m.free s i = .ok (s', wasInUse)) :
    m.Inv s' ∧ ∀ sym crb, (∃ j, j ≠ i ∧ s.currentState j = true ∧ m.covers j sym crb = true) →
      s'.pucchResGrid sym crb = true := by
  obtain ⟨hi, rfl | ⟨hstate, hcase⟩⟩ := free_cases hok
  · exact ⟨h, fun sym crb ⟨j, _, hj, hcovers⟩ => (h.pucch sym crb).mpr ⟨j, hj, hcovers⟩⟩
  · have hshares := hm.sharesRegion_iff (s := { s with currentState := Function.update s.currentState i false }) hi
      (fun j hj => h.bound j (update_false_iff.mp hj).2) (by simp)
    have hbound : ∀ j, Function.update s.currentState i false j = true → j < m.cfg.nofTotalRes :=
      fun j hj => h.bound j (update_false_iff.mp hj).2
    have hapart : ∀ j k, j ≠ k → Function.update s.currentState i false j = true →
        Function.update s.currentState i false k = true → (m.cfg.getRes j).collide (m.cfg.getRes k) = false :=
      fun j k hne hj hk => h.apart j k hne (update_false_iff.mp hj).2 (update_false_iff.mp hk).2
    rcases hcase with ⟨hyes, rfl⟩ | ⟨hno, rfl⟩
    · obtain ⟨k, hk, hsame⟩ := hshares.mp hyes
      have hpucch : ∀ sym crb, s.pucchResGrid sym crb = true ↔
          ∃ j, Function.update s.currentState i false j = true ∧ m.covers j sym crb = true := by
        intro sym crb
        rw [h.pucch]
        constructor
        · rintro ⟨j, hj, hcovers⟩
          by_cases hji : j = i
          · subst hji
            exact ⟨k, hk, covers_eq hsame sym crb ▸ hcovers⟩
          · exact ⟨j, update_false_iff.mpr ⟨hji, hj⟩, hcovers⟩
        · rintro ⟨j, hj, hcovers⟩
          exact ⟨j, (update_false_iff.mp hj).2, hcovers⟩
      exact ⟨⟨hbound, hapart, hpucch, h.ul, h.foreign, h.owners⟩,
        fun sym crb ⟨j, hji, hj, hcovers⟩ => (hpucch sym crb).mpr ⟨j, update_false_iff.mpr ⟨hji, hj⟩, hcovers⟩⟩
    · -- no other resource in use has a resource block of this one
      have halone : ∀ j sym crb, j ≠ i → s.currentState j = true → m.covers j sym crb = true →
          m.covers i sym crb = false := by
        intro j sym crb hji hj hcovers
        by_contra hci
        have hsame := h.sameRegion (Ne.symm hji) hstate hj (Bool.not_eq_false _ ▸ hci) hcovers
        rw [hshares.mpr ⟨j, update_false_iff.mpr ⟨hji, hj⟩, hsame⟩] at hno
        exact Bool.false_ne_true hno.symm
      have hpucch : ∀ sym crb, ((m.hops i).foldl ResourceGrid.clear s.pucchResGrid) sym crb = true ↔
          ∃ j, Function.update s.currentState i false j = true ∧ m.covers j sym crb = true := by
        intro sym crb
        rw [clearHops_iff, h.pucch]
        constructor
        · rintro ⟨hnot, j, hj, hcovers⟩
          refine ⟨j, update_false_iff.mpr ⟨fun hji => ?_, hj⟩, hcovers⟩
          rw [← hji, hcovers] at hnot
          exact Bool.false_ne_true hnot.symm
        · rintro ⟨j, hj, hcovers⟩
          obtain ⟨hji, hj⟩ := update_false_iff.mp hj
          exact ⟨halone j sym crb hji hj hcovers, j, hj, hcovers⟩
      refine ⟨⟨hbound, hapart, hpucch, fun sym crb => ?_, fun sym crb g hg hin => ?_, h.owners⟩,
        fun sym crb ⟨j, hji, hj, hcovers⟩ => (hpucch sym crb).mpr ⟨j, update_false_iff.mpr ⟨hji, hj⟩, hcovers⟩⟩
      · refine clearHops_iff.trans ?_
        rw [clearHops_iff, h.ul]
        constructor
        · rintro ⟨hnot, hpucch | hgrant⟩
          · exact .inl ⟨hnot, hpucch⟩
          · exact .inr hgrant
        · rintro (⟨hnot, hpucch⟩ | ⟨g, hg, hin⟩)
          · exact ⟨hnot, .inl hpucch⟩
          · refine ⟨?_, .inr ⟨g, hg, hin⟩⟩
            by_contra hci
            have hset := (h.pucch sym crb).mpr ⟨i, hstate, Bool.not_eq_false _ ▸ hci⟩
            rw [h.foreign sym crb g hg hin] at hset
            exact Bool.false_ne_true hset
      · rw [← Bool.not_eq_true, clearHops_iff, h.foreign sym crb g hg hin]
        simp

theorem Inv.fillUl (h : m.Inv s) {grant : GrantInfo} (hfree : s.ulResGrid.collides grant .empty = false) :
    m.Inv { s with ulResGrid := s.ulResGrid.fill grant, ulGrants := grant :: s.ulGrants } := by
  have hnot : ∀ sym crb, grant.contains sym crb = true → s.ulResGrid sym crb = false := by
    intro sym crb hin
    by_contra hset
    exact Bool.false_ne_true (ResourceGrid.ignored_of_not_collides hfree hin (Bool.not_eq_false _ ▸ hset))
  refine ⟨h.bound, h.apart, h.pucch, fun sym crb => ?_, fun sym crb g hg hin => ?_, ?_⟩
  · have hul := h.ul sym crb
    simp only [ResourceGrid.fill, Bool.or_eq_true, List.mem_cons, exists_eq_or_imp]
    rw [hul, or_left_comm]
  · rcases List.mem_cons.mp hg with rfl | hg
    · have hul := hnot sym crb hin
      rw [← Bool.not_eq_true, h.ul, not_or, Bool.not_eq_true] at hul
      exact hul.1
    · exact h.foreign sym crb g hg hin
  · refine List.pairwise_cons.mpr ⟨fun g hg sym crb hin => ?_, h.owners⟩
    have hul := hnot sym crb hin
    rw [← Bool.not_eq_true, h.ul, not_or] at hul
    by_contra hin'
    exact hul.2 ⟨g, hg, Bool.not_eq_false _ ▸ hin'⟩

theorem Inv.clearUl (h : m.Inv s) {grant : GrantInfo} (hmem : grant ∈ s.ulGrants) :
    m.Inv { s with ulResGrid := s.ulResGrid.clear grant, ulGrants := s.ulGrants.erase grant } := by
  have hperm := List.perm_cons_erase hmem
  have hsymm : ∀ {g g' : GrantInfo}, (∀ sym crb, g.contains sym crb = true → g'.contains sym crb = false) →
      ∀ sym crb, g'.contains sym crb = true → g.contains sym crb = false := by
    intro g g' hgg' sym crb hin'
    by_contra hin
    rw [hgg' sym crb (Bool.not_eq_false _ ▸ hin)] at hin'
    exact Bool.false_ne_true hin'
  obtain ⟨hothers, howners⟩ := List.pairwise_cons.mp ((hperm.pairwise_iff hsymm).mp h.owners)
  refine ⟨h.bound, h.apart, h.pucch, fun sym crb => ?_,
    fun sym crb g hg hin => h.foreign sym crb g (List.mem_of_mem_erase hg) hin, howners⟩
  have hul : s.ulResGrid sym crb = true ↔ s.pucchResGrid sym crb = true ∨ grant.contains sym crb = true ∨
      ∃ g ∈ s.ulGrants.erase grant, g.contains sym crb = true := by
    rw [h.ul]
    simp only [hperm.mem_iff, List.mem_cons, exists_eq_or_imp]
  simp only [ResourceGrid.clear, Bool.and_eq_true, Bool.not_eq_true', hul]
  constructor
  · rintro ⟨hout, hpucch | hin | hother⟩
    · exact .inl hpucch
    · rw [hin] at hout
      exact absurd hout.symm Bool.false_ne_true
    · exact .inr hother
  · rintro (hpucch | ⟨g, hg, hin⟩)
    · refine ⟨?_, .inl hpucch⟩
      by_contra hin
      rw [h.foreign sym crb grant hmem (Bool.not_eq_false _ ▸ hin)] at hpucch
      exact Bool.false_ne_true hpucch
    · exact ⟨hsymm (hothers g hg) sym crb hin, .inr (.inr ⟨g, hg, hin⟩)⟩

/-- The resources whose allocation has succeeded are those that are in use. -/
structure Tracked (m : PucchCollisionManager) (s : PucchSlot) : Prop extends m.Inv s where
  inUse : ∀ i, s.currentState i = true ↔ i ∈ s.allocated
  nodup : s.allocated.Nodup

theorem Inv.withAllocated (h : m.Inv s) (allocated : List Nat) : m.Inv { s with allocated } :=
  ⟨h.bound, h.apart, h.pucch, h.ul, h.foreign, h.owners⟩

theorem Tracked.empty (m : PucchCollisionManager) : m.Tracked .empty :=
  ⟨.empty m, fun _ => iff_of_false Bool.false_ne_true List.not_mem_nil, List.nodup_nil⟩

theorem alloc_state {i : Nat} (hok : m.alloc s i = .ok (.ok s')) :
    s'.currentState = Function.update s.currentState i true ∧ s'.allocated = s.allocated := by
  obtain ⟨-, -, -, rfl⟩ := alloc_eq_ok hok
  exact ⟨rfl, rfl⟩

theorem free_state {i : Nat} {wasInUse : Bool} (hok : m.free s i = .ok (s', wasInUse)) :
    wasInUse = s.currentState i ∧ s'.currentState = Function.update s.currentState i false ∧
      s'.allocated = s.allocated ∧ s'.ulGrants = s.ulGrants := by
  unfold free at hok
  split_ifs at hok with hi hstate
  · cases hok
    refine ⟨hstate.symm, ?_, rfl, rfl⟩
    rw [← hstate, Function.update_eq_self]
  · dsimp only at hok
    have hinUse : s.currentState i = true := Bool.not_eq_false _ ▸ hstate
    split_ifs at hok
    · cases hok
      exact ⟨hinUse.symm, rfl, rfl, rfl⟩
    · cases hok
      exact ⟨hinUse.symm, rfl, rfl, rfl⟩

theorem Tracked.alloc (hm : m.Built) (h : m.Tracked s) {i : Nat} (hok : m.alloc s i = .ok (.ok s')) :
    m.Tracked { s' with allocated := i :: s'.allocated } := by
  obtain ⟨hstate, hallocated⟩ := alloc_state hok
  obtain ⟨hi, -, hcol, -⟩ := alloc_eq_ok hok
  have hfree := (h.apart_of_not_colliding hm hi).mp hcol
  have hnot : i ∉ s.allocated := fun hin => (hfree i ((h.inUse i).mpr hin)).1 rfl
  refine ⟨(h.toInv.alloc hm hok).withAllocated _, fun j => ?_, ?_⟩
  · dsimp only
    rw [hstate, hallocated, List.mem_cons]
    by_cases hji : j = i
    · simp [hji]
    · simp [hji, h.inUse]
  · dsimp only
    rw [hallocated]
    exact List.nodup_cons.mpr ⟨hnot, h.nodup⟩

theorem Tracked.free (hm : m.Built) (h : m.Tracked s) {i : Nat} {wasInUse : Bool}
    (hok : m.free s i = .ok (s', wasInUse)) :
    m.Tracked (if wasInUse then { s' with allocated := s'.allocated.erase i } else s') := by
  obtain ⟨huse, hstate, hallocated, -⟩ := free_state hok
  have hinv := (h.toInv.free hm hok).1
  have hinUse : ∀ j, s'.currentState j = true ↔ j ∈ s.allocated.erase i := by
    intro j
    rw [hstate, update_false_iff, h.inUse, h.nodup.mem_erase_iff]
  cases wasInUse with
  | true =>
    refine ⟨hinv.withAllocated _, fun j => ?_, ?_⟩
    · simp only [if_true, hallocated]
      exact hinUse j
    · simp only [if_true, hallocated]
      exact h.nodup.erase i
  | false =>
    have hnot : i ∉ s.allocated := fun hin => Bool.false_ne_true (huse.trans ((h.inUse i).mpr hin))
    rw [List.erase_of_not_mem hnot] at hinUse
    simp only [Bool.false_eq_true, if_false]
    exact ⟨hinv, by rw [hallocated]; exact hinUse, by rw [hallocated]; exact h.nodup⟩

def OfCell (m : PucchCollisionManager) : PucchSlotEvent → Prop
  | .alloc i | .free i => i < m.cfg.nofTotalRes
  | .fillUl _ | .clearUl _ => True

theorem alloc_total {i : Nat} (hi : i < m.cfg.nofTotalRes) : ∃ result, m.alloc s i = .ok result := by
  unfold PucchCollisionManager.alloc
  rw [if_neg (Nat.not_le.mpr hi)]
  split_ifs
  · exact ⟨_, rfl⟩
  · exact ⟨_, rfl⟩
  · exact ⟨_, rfl⟩

theorem Tracked.step (hm : m.Built) (h : m.Tracked s) {e : PucchSlotEvent} (he : m.OfCell e) :
    ∃ s', m.step s e = .ok s' ∧ m.Tracked s' := by
  cases e with
  | alloc i =>
    obtain ⟨result, halloc⟩ := alloc_total (s := s) he
    cases result with
    | error failure => exact ⟨s, by simp [PucchCollisionManager.step, halloc], h⟩
    | ok s' => exact ⟨_, by simp [PucchCollisionManager.step, halloc], h.alloc hm halloc⟩
  | free i =>
    have hi : ¬ m.cfg.nofTotalRes ≤ i := Nat.not_le.mpr he
    cases hfree : m.free s i with
    | error fault =>
      unfold PucchCollisionManager.free at hfree
      dsimp only at hfree
      split_ifs at hfree
    | ok result => exact ⟨_, by simp [PucchCollisionManager.step, hfree], h.free hm hfree⟩
  | fillUl grant =>
    cases hcol : s.ulResGrid.collides grant .empty with
    | true => exact ⟨s, by simp [PucchCollisionManager.step, hcol], h⟩
    | false => exact ⟨_, by simp [PucchCollisionManager.step, hcol], h.toInv.fillUl hcol, h.inUse, h.nodup⟩
  | clearUl grant =>
    by_cases hmem : grant ∈ s.ulGrants
    · exact ⟨_, by simp [PucchCollisionManager.step, hmem], h.toInv.clearUl hmem, h.inUse, h.nodup⟩
    · exact ⟨s, by simp [PucchCollisionManager.step, hmem], h⟩

/-- What holds of the resources that were allocated, as the answers of `alloc` and `free` have it. -/
structure Consistent (m : PucchCollisionManager) (s : PucchSlot) : Prop where
  nodup : s.allocated.Nodup
  apart : ∀ i ∈ s.allocated, ∀ j ∈ s.allocated, i ≠ j → (m.cfg.getRes i).collide (m.cfg.getRes j) = false
  union : ∀ sym crb, s.pucchResGrid sym crb = true ↔ ∃ i ∈ s.allocated, m.covers i sym crb = true
  contained : ∀ sym crb, s.pucchResGrid sym crb = true → s.ulResGrid sym crb = true
  reserved : ∀ i s', m.alloc s i = .ok (.ok s') → ∀ sym crb, m.covers i sym crb = true →
    s'.pucchResGrid sym crb = true ∧ s'.ulResGrid sym crb = true
  refused : ∀ i < m.cfg.nofTotalRes,
    (∃ j ∈ s.allocated, i = j ∨ (m.cfg.getRes i).collide (m.cfg.getRes j) = true) ∨
      (∃ g ∈ s.ulGrants, ∃ sym crb, g.contains sym crb = true ∧ m.covers i sym crb = true) →
    ∃ failure, m.alloc s i = .ok (.error failure)
  free : ∀ i s' wasInUse, m.free s i = .ok (s', wasInUse) → (wasInUse = true ↔ i ∈ s.allocated) ∧
    (∀ j ∈ s.allocated, j ≠ i → ∀ sym crb, m.covers j sym crb = true →
      s'.pucchResGrid sym crb = true ∧ s'.ulResGrid sym crb = true) ∧
    ∀ g ∈ s.ulGrants, ∀ sym crb, g.contains sym crb = true → s'.ulResGrid sym crb = true
  shared : ∀ i ∈ s.allocated, ∀ j ∈ s.allocated, i ≠ j → ∀ sym crb,
    m.covers i sym crb = true → m.covers j sym crb = true → ∃ members ∈ m.muxMatrix, i ∈ members ∧ j ∈ members

theorem Tracked.refused (hm : m.Built) (h : m.Tracked s) {i : Nat} (hi : i < m.cfg.nofTotalRes)
    (htaken : (∃ j ∈ s.allocated, i = j ∨ (m.cfg.getRes i).collide (m.cfg.getRes j) = true) ∨
      ∃ g ∈ s.ulGrants, ∃ sym crb, g.contains sym crb = true ∧ m.covers i sym crb = true) :
    ∃ failure, m.alloc s i = .ok (.error failure) := by
  obtain ⟨result, halloc⟩ := alloc_total (s := s) hi
  cases result with
  | error failure => exact ⟨failure, halloc⟩
  | ok s' =>
    obtain ⟨-, hhops, hcol, -⟩ := alloc_eq_ok halloc
    rcases htaken with ⟨j, hj, htaken⟩ | ⟨g, hg, sym, crb, hin, hcovers⟩
    · obtain ⟨hne, hnot⟩ := (h.apart_of_not_colliding hm hi).mp hcol j ((h.inUse j).mpr hj)
      rcases htaken with heq | hcollide
      · exact absurd heq hne
      · exact absurd (hnot.symm.trans hcollide) Bool.false_ne_true
    · obtain ⟨hop, hhop, hcontains⟩ := List.any_eq_true.mp hcovers
      have hset := (h.ul sym crb).mpr (.inr ⟨g, hg, hin⟩)
      have hpucch := ResourceGrid.ignored_of_not_collides (hhops hop hhop) hcontains hset
      exact absurd ((h.foreign sym crb g hg hin).symm.trans hpucch) Bool.false_ne_true

theorem Tracked.consistent (hm : m.Built) (h : m.Tracked s) : m.Consistent s where
  nodup := h.nodup
  apart i hi j hj hne := h.apart i j hne ((h.inUse i).mpr hi) ((h.inUse j).mpr hj)
  union sym crb := by
    rw [h.pucch]
    simp only [h.inUse]
  contained sym crb hset := (h.ul sym crb).mpr (.inl hset)
  reserved i s' hok sym crb hcovers := by
    obtain ⟨-, -, -, rfl⟩ := alloc_eq_ok hok
    exact ⟨fillHops_iff.mpr (.inl hcovers), fillHops_iff.mpr (.inl hcovers)⟩
  refused i hi htaken := h.refused hm hi htaken
  free i s' wasInUse hok := by
    obtain ⟨h', hkept⟩ := h.toInv.free hm hok
    obtain ⟨huse, -, -, hgrants⟩ := free_state hok
    refine ⟨by rw [huse, h.inUse], fun j hj hji sym crb hcovers => ?_, fun g hg sym crb hin => ?_⟩
    · have hset := hkept sym crb ⟨j, hji, (h.inUse j).mpr hj, hcovers⟩
      exact ⟨hset, (h'.ul sym crb).mpr (.inl hset)⟩
    · exact (h'.ul sym crb).mpr (.inr ⟨g, hgrants ▸ hg, hin⟩)
  shared i hi j hj hne sym crb hci hcj := by
    have hi' := (h.inUse i).mpr hi
    have hj' := (h.inUse j).mpr hj
    rw [hm.mux]
    exact m.cfg.regionMatrix.complete i j hne (h.bound i hi') (h.bound j hj') (h.sameRegion hne hi' hj' hci hcj)

/-- Whatever the resources of the cell are, no order of allocations, releases and other UL grants gives two
allocated resources that collide, or takes a resource block from a grant that still uses it. -/
theorem pucchResources_consistent (cfg : CellPucchResConfig) (bwpStart : Nat) :
    ∃ m, new cfg bwpStart = .ok m ∧ m.cfg = cfg ∧ ∀ es : List PucchSlotEvent, (∀ e ∈ es, m.OfCell e) →
      ∃ s, Machine.run m.step .empty es = .ok s ∧ m.Consistent s := by
  obtain ⟨m, hnew, hcfg, -, hm⟩ := new_ok cfg bwpStart
  refine ⟨m, hnew, hcfg, fun es hes => ?_⟩
  have hadmits : Machine.Admits m.step (fun _ e => m.OfCell e) .empty es :=
    Machine.admits_of_forall_mem fun e he _ => hes e he
  obtain ⟨s, hrun, hinv⟩ := Machine.run_total m.Tracked (fun s e hinv he => hinv.step hm he) (.empty m) hadmits
  exact ⟨s, hrun, hinv.consistent hm⟩

def sampleCfg : CellPucchResConfig where
  common i := ⟨0, ⟨0, 14⟩, some 50, .f1 (i.val % 12) (i.val / 12)⟩
  dedicated := [⟨1, ⟨0, 14⟩, some 49, .f1 0 0⟩, ⟨1, ⟨0, 14⟩, some 49, .f1 4 0⟩]

theorem pucchResources_consistent_shared : ∃ m s, new sampleCfg 0 = .ok m ∧
    Machine.run m.step .empty [.alloc 16, .alloc 17, .fillUl ⟨⟨0, 14⟩, ⟨10, 20⟩⟩, .alloc 3, .free 16] = .ok s ∧
      m.Consistent s := by
  obtain ⟨m, hnew, hcfg, h⟩ := pucchResources_consistent sampleCfg 0
  have hes : ∀ e ∈ ([.alloc 16, .alloc 17, .fillUl ⟨⟨0, 14⟩, ⟨10, 20⟩⟩, .alloc 3, .free 16] : List PucchSlotEvent),
      m.OfCell e := by
    simp [OfCell, hcfg, sampleCfg, CellPucchResConfig.nofTotalRes, maxNofCellCommonPucchResources]
  obtain ⟨s, hrun, hcons⟩ := h _ hes
  exact ⟨m, s, hnew, hrun, hcons⟩

end PucchCollisionManager

end Ocudu.Sched
