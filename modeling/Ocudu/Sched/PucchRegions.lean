import Ocudu.Sched.PucchCollisionManager

/-! The collision matrix, the multiplexing regions and their table: two resources that share a resource block
collide or are in one region. -/

namespace Ocudu.Sched

namespace Interval

theorem overlaps_comm (i j : Interval) : i.overlaps j = j.overlaps i := Bool.and_comm _ _

theorem overlaps_of_contains {i j : Interval} {point : Nat} (hi : i.contains point = true)
    (hj : j.contains point = true) : i.overlaps j = true := by
  simp only [contains, Bool.and_eq_true, decide_eq_true_eq] at hi hj
  simp only [overlaps, Bool.and_eq_true, decide_eq_true_eq]
  omega

theorem mem_points {i : Interval} {point : Nat} : point ∈ i.points ↔ i.contains point = true := by
  simp only [points, length, List.mem_range'_1, contains, Bool.and_eq_true, decide_eq_true_eq]
  omega

end Interval

theorem PucchHop.overlaps_comm (h h' : PucchHop) : h.overlaps h' = h'.overlaps h := by
  unfold overlaps
  rw [Interval.overlaps_comm h.syms, Interval.overlaps_comm h.prbs]

namespace PucchGrants

def hops (g : PucchGrants) : List PucchHop := g.firstHop :: g.secondHop.toList

theorem overlaps_iff {g g' : PucchGrants} :
    g.overlaps g' = true ↔ ∃ h ∈ g.hops, ∃ h' ∈ g'.hops, h.overlaps h' = true := by
  cases hg : g.secondHop with
  | none =>
    cases hg' : g'.secondHop with
    | none => simp [overlaps, hops, hg, hg']
    | some h' => simp [overlaps, hops, hg, hg']
  | some h =>
    cases hg' : g'.secondHop with
    | none => simp [overlaps, hops, hg, hg']
    | some h' => simp [overlaps, hops, hg, hg', or_assoc]

theorem overlaps_comm (g g' : PucchGrants) : g.overlaps g' = g'.overlaps g := by
  rw [Bool.eq_iff_iff, overlaps_iff, overlaps_iff]
  constructor
  · rintro ⟨h, hh, h', hh', hover⟩
    exact ⟨h', hh', h, hh, h'.overlaps_comm h ▸ hover⟩
  · rintro ⟨h, hh, h', hh', hover⟩
    exact ⟨h', hh', h, hh, h'.overlaps_comm h ▸ hover⟩

end PucchGrants

namespace PucchResource

variable {r r' : PucchResource}

theorem collide_iff : r.collide r' = true ↔ r.grants.overlaps r'.grants = true ∧
    (r.format = r'.format → r.grants = r'.grants → r.muxIdx = r'.muxIdx) := by
  unfold collide
  split_ifs with hover hformat hgrants
  · have hfalse : r.grants.overlaps r'.grants = false := by simpa using hover
    simp [hfalse]
  · simpa [hformat] using hover
  · simpa [hgrants] using hover
  · rw [Bool.not_eq_true, Bool.not_eq_false'] at hover
    rw [not_not] at hformat hgrants
    rw [beq_iff_eq]
    exact ⟨fun h => ⟨hover, fun _ _ => h⟩, fun h => h.2 hformat hgrants⟩

theorem collide_comm (r r' : PucchResource) : r.collide r' = r'.collide r := by
  rw [Bool.eq_iff_iff, collide_iff, collide_iff, PucchGrants.overlaps_comm]
  refine and_congr_right fun _ => ?_
  exact ⟨fun h hf hg => (h hf.symm hg.symm).symm, fun h hf hg => (h hf.symm hg.symm).symm⟩

def SameRegion (r r' : PucchResource) : Prop :=
  r.format = r'.format ∧ r.prbs = r'.prbs ∧ r.syms = r'.syms ∧ r.secondHopPrb = r'.secondHopPrb

theorem sameRegion_of_overlaps (hover : r.grants.overlaps r'.grants = true) (hcol : r.collide r' = false) :
    r.SameRegion r' := by
  rw [← Bool.not_eq_true, collide_iff] at hcol
  have hsame : r.format = r'.format ∧ r.grants = r'.grants := by
    by_contra hne
    exact hcol ⟨hover, fun hformat hgrants => absurd ⟨hformat, hgrants⟩ hne⟩
  obtain ⟨hformat, hgrants⟩ := hsame
  refine ⟨hformat, ?_⟩
  unfold grants at hgrants
  cases hr : r.secondHopPrb with
  | none =>
    cases hr' : r'.secondHopPrb with
    | none =>
      simp only [hr, hr', PucchGrants.mk.injEq, PucchHop.mk.injEq, and_true] at hgrants
      exact ⟨hgrants.2, hgrants.1, rfl⟩
    | some p' => simp [hr, hr'] at hgrants
  | some p =>
    cases hr' : r'.secondHopPrb with
    | none => simp [hr, hr'] at hgrants
    | some p' =>
      simp only [hr, hr', PucchGrants.mk.injEq, PucchHop.mk.injEq, Interval.mk.injEq, Option.some.injEq,
        Interval.startAndLen] at hgrants
      obtain ⟨⟨⟨hstart, -⟩, hprbs⟩, ⟨-, hstop⟩, hhop, -⟩ := hgrants
      exact ⟨hprbs, Interval.ext hstart hstop, congrArg some hhop⟩

theorem SameRegion.hopGrant_eq (h : r.SameRegion r') (bwpStart : Nat) (first : Bool) :
    pucchHopGrant r bwpStart first = pucchHopGrant r' bwpStart first := by
  obtain ⟨-, hprbs, hsyms, hhop⟩ := h
  unfold pucchHopGrant half
  rw [hprbs, hsyms, hhop]

end PucchResource

theorem prbToCrb_contains {bwpStart crb : Nat} {prbs : Interval} (h : (prbToCrb bwpStart prbs).contains crb = true) :
    prbs.contains (crb - bwpStart) = true := by
  change (decide (prbs.start + bwpStart ≤ crb) && decide (crb < prbs.stop + bwpStart)) = true at h
  simp only [Bool.and_eq_true, decide_eq_true_eq] at h
  simp only [Interval.contains, Bool.and_eq_true, decide_eq_true_eq]
  omega

namespace PucchCollisionManager

variable {m : PucchCollisionManager}

/-- The resource block `crb` is one of the resource `i` in the symbol `sym`. -/
def covers (m : PucchCollisionManager) (i sym crb : Nat) : Bool := (m.hops i).any (·.contains sym crb)

theorem exists_hop_of_covers {i sym crb : Nat} (h : m.covers i sym crb = true) :
    ∃ hop ∈ (m.cfg.getRes i).grants.hops, hop.syms.contains sym = true ∧ hop.prbs.contains (crb - m.bwpStart) = true := by
  unfold covers hops pucchHopGrant at h
  unfold PucchResource.grants PucchGrants.hops
  cases hhop : (m.cfg.getRes i).secondHopPrb with
  | none =>
    simp only [hhop, Option.isSome_none, Bool.false_eq_true, ↓reduceIte, List.any_cons, List.any_nil, Bool.or_false,
      GrantInfo.contains, Bool.and_eq_true] at h
    exact ⟨_, List.mem_cons_self, h.1, prbToCrb_contains h.2⟩
  | some p =>
    simp only [hhop, Option.isSome_some, ↓reduceIte, List.any_cons, List.any_nil, Bool.or_false, Bool.false_eq_true,
      Bool.or_eq_true, GrantInfo.contains, Bool.and_eq_true] at h
    rcases h with h | h
    · exact ⟨_, List.mem_cons_self, h.1, prbToCrb_contains h.2⟩
    · exact ⟨_, List.mem_cons_of_mem _ List.mem_cons_self, h.1, prbToCrb_contains h.2⟩

theorem overlaps_of_covers {i j sym crb : Nat} (hi : m.covers i sym crb = true) (hj : m.covers j sym crb = true) :
    (m.cfg.getRes i).grants.overlaps (m.cfg.getRes j).grants = true := by
  obtain ⟨hop, hhop, hsym, hprb⟩ := exists_hop_of_covers hi
  obtain ⟨hop', hhop', hsym', hprb'⟩ := exists_hop_of_covers hj
  refine PucchGrants.overlaps_iff.mpr ⟨hop, hhop, hop', hhop', ?_⟩
  rw [PucchHop.overlaps, Interval.overlaps_of_contains hsym hsym', Interval.overlaps_of_contains hprb hprb']
  rfl

theorem hops_eq {i j : Nat} (h : (m.cfg.getRes i).SameRegion (m.cfg.getRes j)) : m.hops i = m.hops j := by
  unfold hops
  rw [h.hopGrant_eq, h.hopGrant_eq, h.2.2.2]

end PucchCollisionManager

namespace CellPucchResConfig

variable {cfg : CellPucchResConfig}

theorem setBit_iff {matrix : Nat → Nat → Bool} {i j a b : Nat} :
    setBit matrix i j a b = true ↔ (a = i ∧ b = j) ∨ matrix a b = true := by
  simp [setBit]

theorem foldl_collide {i : Nat} {js : List Nat} {matrix : Nat → Nat → Bool} {a b : Nat} :
    js.foldl (fun matrix j => if (cfg.getRes i).collide (cfg.getRes j) then setBit (setBit matrix i j) j i
      else matrix) matrix a b = true ↔ matrix a b = true ∨ ∃ j ∈ js, (cfg.getRes i).collide (cfg.getRes j) = true ∧
        ((a = i ∧ b = j) ∨ (a = j ∧ b = i)) := by
  induction js generalizing matrix with
  | nil => simp
  | cons j js ih =>
    rw [List.foldl_cons, ih]
    cases hcol : (cfg.getRes i).collide (cfg.getRes j) with
    | true =>
      rw [if_pos rfl, setBit_iff, setBit_iff]
      simp only [List.mem_cons, exists_eq_or_imp, hcol, true_and]
      generalize (∃ j ∈ js, (cfg.getRes i).collide (cfg.getRes j) = true ∧ (a = i ∧ b = j ∨ a = j ∧ b = i)) = q
      tauto
    | false =>
      rw [if_neg (by simp)]
      simp [hcol]

theorem makeCollisionMatrix_iff {i j : Nat} (hi : i < cfg.nofTotalRes) (hj : j < cfg.nofTotalRes) :
    cfg.makeCollisionMatrix i j = true ↔ i = j ∨ (cfg.getRes i).collide (cfg.getRes j) = true := by
  have hfold : ∀ (is : List Nat) (matrix : Nat → Nat → Bool) a b,
      is.foldl cfg.collisionRow matrix a b = true ↔ matrix a b = true ∨ ∃ i ∈ is, (a = i ∧ b = i) ∨
        ∃ j, i < j ∧ j < cfg.nofTotalRes ∧ (cfg.getRes i).collide (cfg.getRes j) = true ∧
          ((a = i ∧ b = j) ∨ (a = j ∧ b = i)) := by
    intro is
    induction is with
    | nil => simp
    | cons i is ih =>
      intro matrix a b
      rw [List.foldl_cons, ih, collisionRow, foldl_collide, setBit_iff]
      have hmem : ∀ j, j ∈ List.range' (i + 1) (cfg.nofTotalRes - (i + 1)) ↔ i < j ∧ j < cfg.nofTotalRes := by
        intro j
        rw [List.mem_range'_1]
        omega
      simp only [hmem, List.mem_cons, exists_eq_or_imp, and_assoc, or_assoc]
      rw [or_left_comm]
  rw [makeCollisionMatrix, hfold]
  simp only [Bool.false_eq_true, false_or, List.mem_range]
  constructor
  · rintro ⟨k, -, ⟨rfl, rfl⟩ | ⟨l, -, -, hcol, ⟨rfl, rfl⟩ | ⟨rfl, rfl⟩⟩⟩
    · exact .inl rfl
    · exact .inr hcol
    · exact .inr (PucchResource.collide_comm _ _ ▸ hcol)
  · rintro (rfl | hcol)
    · exact ⟨i, hi, .inl ⟨rfl, rfl⟩⟩
    · rcases Nat.lt_trichotomy i j with hlt | rfl | hlt
      · exact ⟨i, hi, .inr ⟨j, hlt, hj, hcol, .inl ⟨rfl, rfl⟩⟩⟩
      · exact ⟨i, hi, .inl ⟨rfl, rfl⟩⟩
      · exact ⟨j, hj, .inr ⟨i, hlt, hi, PucchResource.collide_comm _ _ ▸ hcol, .inr ⟨rfl, rfl⟩⟩⟩

end CellPucchResConfig

def PucchResource.key (r : PucchResource) : PucchFormat × Interval × Interval × Option Nat :=
  (r.format, r.prbs, r.syms, r.secondHopPrb)

theorem PucchResource.sameRegion_iff {r r' : PucchResource} : r.SameRegion r' ↔ r.key = r'.key := by
  simp [SameRegion, key]

namespace MuxRegion

def key (region : MuxRegion) : PucchFormat × Interval × Interval × Option Nat :=
  (region.format, region.prbs, region.syms, region.secondHopPrb)

theorem doesResourceBelong_iff {region : MuxRegion} {res : PucchResource} :
    region.doesResourceBelong res = true ↔ region.key = res.key := by
  simp only [doesResourceBelong, Bool.and_eq_true, beq_iff_eq, key, PucchResource.key, Prod.mk.injEq, and_assoc]
  exact ⟨fun ⟨h₁, h₂, h₃, h₄⟩ => ⟨h₁.symm, h₂.symm, h₃.symm, h₄.symm⟩,
    fun ⟨h₁, h₂, h₃, h₄⟩ => ⟨h₁.symm, h₂.symm, h₃.symm, h₄.symm⟩⟩

def join (i : Nat) (res : PucchResource) (region : MuxRegion) : MuxRegion :=
  if region.key = res.key then { region with members := i :: region.members } else region

theorem join_key (i : Nat) (res : PucchResource) (region : MuxRegion) : (region.join i res).key = region.key := by
  unfold join
  split <;> rfl

theorem add_of_mem {i : Nat} {res : PucchResource} {regions : List MuxRegion} (hnodup : (regions.map key).Nodup)
    (hmem : res.key ∈ regions.map key) : add i res regions = regions.map (join i res) := by
  induction regions with
  | nil => cases hmem
  | cons region regions ih =>
    obtain ⟨hnew, hnodup⟩ := List.nodup_cons.mp hnodup
    rw [add, List.map_cons, join]
    by_cases hkey : region.key = res.key
    · have hrest : regions.map (join i res) = regions := by
        conv_rhs => rw [← List.map_id regions]
        refine List.map_congr_left fun r hr => if_neg fun heq => hnew ?_
        rw [hkey, ← heq]
        exact List.mem_map_of_mem hr
      rw [if_pos (doesResourceBelong_iff.mpr hkey), if_pos hkey, hrest]
    · rw [if_neg (mt doesResourceBelong_iff.mp hkey), if_neg hkey]
      rcases List.mem_cons.mp hmem with heq | hmem
      · exact absurd heq.symm hkey
      · rw [ih hnodup hmem]

theorem add_of_not_mem {i : Nat} {res : PucchResource} {regions : List MuxRegion}
    (hmem : res.key ∉ regions.map key) :
    add i res regions = regions ++ [⟨res.format, res.prbs, res.syms, res.secondHopPrb, [i]⟩] := by
  induction regions with
  | nil => rfl
  | cons region regions ih =>
    have hkey : region.key ≠ res.key := fun heq => hmem (heq ▸ List.mem_cons_self)
    rw [add, if_neg (mt doesResourceBelong_iff.mp hkey), ih fun h => hmem (List.mem_cons_of_mem _ h)]
    rfl

end MuxRegion

namespace CellPucchResConfig

variable {cfg : CellPucchResConfig}

structure RegionsOf (cfg : CellPucchResConfig) (is : List Nat) (regions : List MuxRegion) : Prop where
  mem : ∀ region ∈ regions, ∀ i, i ∈ region.members ↔ i ∈ is ∧ (cfg.getRes i).key = region.key
  nodup : ∀ region ∈ regions, region.members.Nodup
  cover : ∀ i ∈ is, (cfg.getRes i).key ∈ regions.map MuxRegion.key
  distinct : (regions.map MuxRegion.key).Nodup

theorem RegionsOf.add {is : List Nat} {regions : List MuxRegion} (h : RegionsOf cfg is regions) {i : Nat}
    (hi : i ∉ is) : RegionsOf cfg (i :: is) (MuxRegion.add i (cfg.getRes i) regions) := by
  by_cases hmem : (cfg.getRes i).key ∈ regions.map MuxRegion.key
  · have hkeys : (regions.map (MuxRegion.join i (cfg.getRes i))).map MuxRegion.key = regions.map MuxRegion.key := by
      rw [List.map_map]
      exact List.map_congr_left fun r _ => r.join_key i (cfg.getRes i)
    rw [MuxRegion.add_of_mem h.distinct hmem]
    refine ⟨fun region hregion i' => ?_, fun region hregion => ?_, fun i' hi' => ?_, hkeys ▸ h.distinct⟩
    · obtain ⟨r, hr, rfl⟩ := List.mem_map.mp hregion
      rw [MuxRegion.join_key]
      unfold MuxRegion.join
      by_cases hkey : r.key = (cfg.getRes i).key
      · rw [if_pos hkey, List.mem_cons, h.mem r hr, List.mem_cons]
        constructor
        · rintro (rfl | ⟨hi', hkey'⟩)
          · exact ⟨.inl rfl, hkey.symm⟩
          · exact ⟨.inr hi', hkey'⟩
        · rintro ⟨rfl | hi', hkey'⟩
          · exact .inl rfl
          · exact .inr ⟨hi', hkey'⟩
      · rw [if_neg hkey, h.mem r hr, List.mem_cons]
        constructor
        · rintro ⟨hi', hkey'⟩
          exact ⟨.inr hi', hkey'⟩
        · rintro ⟨rfl | hi', hkey'⟩
          · exact absurd hkey'.symm hkey
          · exact ⟨hi', hkey'⟩
    · obtain ⟨r, hr, rfl⟩ := List.mem_map.mp hregion
      unfold MuxRegion.join
      split
      · refine List.nodup_cons.mpr ⟨fun hin => hi ?_, h.nodup r hr⟩
        exact ((h.mem r hr i).mp hin).1
      · exact h.nodup r hr
    · rw [hkeys]
      rcases List.mem_cons.mp hi' with rfl | hi'
      · exact hmem
      · exact h.cover i' hi'
  · rw [MuxRegion.add_of_not_mem hmem]
    refine ⟨fun region hregion i' => ?_, fun region hregion => ?_, fun i' hi' => ?_, ?_⟩
    · rcases List.mem_append.mp hregion with hold | hregion
      · rw [h.mem region hold, List.mem_cons]
        constructor
        · rintro ⟨hi', hkey'⟩
          exact ⟨.inr hi', hkey'⟩
        · rintro ⟨rfl | hi', hkey'⟩
          · refine absurd ?_ hmem
            rw [hkey']
            exact List.mem_map_of_mem hold
          · exact ⟨hi', hkey'⟩
      · rw [List.mem_singleton] at hregion
        subst hregion
        rw [List.mem_singleton, List.mem_cons]
        constructor
        · rintro rfl
          exact ⟨.inl rfl, rfl⟩
        · rintro ⟨rfl | hi', hkey'⟩
          · rfl
          · have hcover := h.cover i' hi'
            rw [hkey'] at hcover
            exact absurd hcover hmem
    · rcases List.mem_append.mp hregion with hregion | hregion
      · exact h.nodup region hregion
      · rw [List.mem_singleton] at hregion
        subst hregion
        exact List.nodup_singleton i
    · rw [List.map_append]
      rcases List.mem_cons.mp hi' with rfl | hi'
      · exact List.mem_append_right _ List.mem_cons_self
      · exact List.mem_append_left _ (h.cover i' hi')
    · rw [List.map_append, List.map_singleton]
      refine List.nodup_append.mpr ⟨h.distinct, List.nodup_singleton _, fun k hk k' hk' => ?_⟩
      rw [List.mem_singleton] at hk'
      subst hk'
      rintro rfl
      exact hmem hk

theorem regionsOf_muxRegions (cfg : CellPucchResConfig) :
    ∃ is, (∀ i, i ∈ is ↔ i < cfg.nofTotalRes) ∧ RegionsOf cfg is cfg.muxRegions := by
  have hfold : ∀ (js is : List Nat) (regions : List MuxRegion), RegionsOf cfg is regions → js.Nodup →
      (∀ j ∈ js, j ∉ is) → RegionsOf cfg (js.reverse ++ is)
        (js.foldl (fun regions i => MuxRegion.add i (cfg.getRes i) regions) regions) := by
    intro js
    induction js with
    | nil => exact fun is regions h _ _ => h
    | cons j js ih =>
      intro is regions h hnodup hnew
      obtain ⟨hj, hnodup⟩ := List.nodup_cons.mp hnodup
      have hih := ih (j :: is) _ (h.add (hnew j List.mem_cons_self)) hnodup fun j' hj' hin => by
        rcases List.mem_cons.mp hin with rfl | hin
        · exact hj hj'
        · exact hnew j' (List.mem_cons_of_mem _ hj') hin
      rw [List.reverse_cons, List.append_assoc]
      exact hih
  refine ⟨(List.range cfg.nofTotalRes).reverse ++ [], fun i => by simp, hfold _ _ _ ?_ List.nodup_range (by simp)⟩
  exact ⟨by simp, by simp, by simp, List.nodup_nil⟩

structure RegionMatrix (cfg : CellPucchResConfig) (matrix : List (List Nat)) : Prop where
  nodup : ∀ members ∈ matrix, members.Nodup
  disjoint : matrix.Pairwise fun members members' => ∀ i ∈ members, i ∉ members'
  same : ∀ members ∈ matrix, ∀ i ∈ members, ∀ j ∈ members, (cfg.getRes i).SameRegion (cfg.getRes j)
  complete : ∀ i j, i ≠ j → i < cfg.nofTotalRes → j < cfg.nofTotalRes →
    (cfg.getRes i).SameRegion (cfg.getRes j) → ∃ members ∈ matrix, i ∈ members ∧ j ∈ members

theorem regionMatrix (cfg : CellPucchResConfig) : RegionMatrix cfg cfg.makeMuxRegionsMatrix := by
  obtain ⟨is, his, h⟩ := regionsOf_muxRegions cfg
  have hmatrix : ∀ members, members ∈ cfg.makeMuxRegionsMatrix ↔
      ∃ region ∈ cfg.muxRegions, 2 ≤ region.members.length ∧ region.members = members := by
    intro members
    simp [makeMuxRegionsMatrix, and_assoc]
  refine ⟨fun members hmem => ?_, ?_, fun members hmem i hi j hj => ?_, fun i j hne hi hj hsame => ?_⟩
  · obtain ⟨region, hregion, -, rfl⟩ := (hmatrix members).mp hmem
    exact h.nodup region hregion
  · have hdistinct : cfg.muxRegions.Pairwise fun r r' => r.key ≠ r'.key := List.pairwise_map.mp h.distinct
    rw [makeMuxRegionsMatrix, List.pairwise_map]
    refine (List.Pairwise.and_mem.mp (hdistinct.filter _)).imp fun ⟨hr, hr', hne⟩ i hi hi' => hne ?_
    rw [← ((h.mem _ (List.mem_of_mem_filter hr) i).mp hi).2, ((h.mem _ (List.mem_of_mem_filter hr') i).mp hi').2]
  · obtain ⟨region, hregion, -, rfl⟩ := (hmatrix members).mp hmem
    rw [PucchResource.sameRegion_iff, ((h.mem region hregion i).mp hi).2, ((h.mem region hregion j).mp hj).2]
  · rw [PucchResource.sameRegion_iff] at hsame
    obtain ⟨region, hregion, hkey⟩ := List.mem_map.mp (h.cover i ((his i).mpr hi))
    have hi' : i ∈ region.members := (h.mem region hregion i).mpr ⟨(his i).mpr hi, hkey.symm⟩
    have hj' : j ∈ region.members := (h.mem region hregion j).mpr ⟨(his j).mpr hj, hsame ▸ hkey.symm⟩
    have hlen : 2 ≤ region.members.length := by
      have hsub : [i, j].Subperm region.members :=
        (List.nodup_cons.mpr ⟨by simpa using hne, List.nodup_singleton j⟩).subperm (by simp [hi', hj'])
      exact hsub.length_le
    exact ⟨region.members, (hmatrix _).mpr ⟨region, hregion, hlen, rfl⟩, hi', hj'⟩

end CellPucchResConfig

end Ocudu.Sched
