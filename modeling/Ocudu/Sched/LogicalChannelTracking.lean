import Ocudu.Sched.LogicalChannels

/-! Which bit rates a configuration leaves tracked: those of the GBR channels, and those of the
LCGs whose channel with the highest LCID is a GBR channel. -/

namespace Ocudu.Sched

open LogicalChannelConfig KeyedRows

namespace LogicalChannelMapper

def dlFlags (ue : Nat) (l : List LogicalChannelConfig) : List ((Nat × Nat) × Bool) :=
  l.map fun lc => ((ue, lc.lcid), lc.isGbr)

def ulFlags (ue : Nat) (l : List LogicalChannelConfig) : List ((Nat × Nat) × Bool) :=
  l.map fun lc => ((ue, lc.lcGroup), lc.isGbr)

theorem qosWindow_isSome {lc : LogicalChannelConfig} {slotsPerMsec : Nat} {n : Option Nat}
    (h : qosWindow lc slotsPerMsec = .ok n) : n.isSome = lc.isGbr := by
  unfold qosWindow at h
  unfold isGbr
  cases hq : lc.qos with
  | none =>
    rw [hq] at h
    cases h
    rfl
  | some qos =>
    simp only [hq] at h
    rw [Option.any_some]
    cases hg : qos.gbrQosInfo with
    | false =>
      rw [hg] at h
      cases h
      rfl
    | true =>
      rw [hg, if_pos rfl] at h
      split at h
      · cases h
      · split at h
        · cases h
        · cases h
          rfl

theorem addmodLcAndLcg_sets {m m' : LogicalChannelMapper} {ue slotsPerMsec : Nat}
    {lc : LogicalChannelConfig} (hdl : m.dl.Linked) (hul : m.ul.Linked)
    (h : m.addmodLcAndLcg ue lc slotsPerMsec = .ok m') :
    Sets m.dl m'.dl (ue, lc.lcid) lc.isGbr ∧ Sets m.ul m'.ul (ue, lc.lcGroup) lc.isGbr := by
  obtain ⟨n, hn, hm⟩ := bind_eq_ok.mp h
  have hgbr := qosWindow_isSome hn
  cases hm
  cases n with
  | none =>
    rw [← hgbr]
    exact ⟨hdl.sets_disown _ _, hul.sets_disown _ _⟩
  | some n =>
    rw [← hgbr]
    exact ⟨hdl.sets_own _ _ _ _, hul.sets_own _ _ _ _⟩

end LogicalChannelMapper

namespace LogicalChannelSystem

open LogicalChannelMapper

variable {ue : Nat} {s t : UeState}

structure KnowsRows (ue : Nat) (s : UeState) : Prop where
  channels : ∀ lcid, s.1.channels lcid = s.2.dl.rowIds (ue, lcid)
  lcgs : ∀ lcg, s.1.lcgs lcg = s.2.ul.rowIds (ue, lcg)

theorem emplace_eq {R Q : Type} {t t' : KeyedRows (Nat × Nat) R Q} {rows : Nat → Option Nat}
    {key : Nat} {b : Bool} (hknown : ∀ k, rows k = t.rowIds (ue, k))
    (h : Sets t t' (ue, key) b) (k : Nat) :
    emplace rows key (t'.rowIds (ue, key)) k = t'.rowIds (ue, k) := by
  have hother : k ≠ key → t'.rowIds (ue, k) = t.rowIds (ue, k) := fun hne =>
    h.rowIds _ fun heq => hne (Prod.mk.inj heq).2
  unfold emplace
  split
  · rename_i hsome
    rw [hknown] at hsome ⊢
    by_cases hk : k = key
    · subst hk
      obtain ⟨rid, hrid⟩ := Option.isSome_iff_exists.mp hsome
      rw [hrid, h.kept rid hrid]
    · rw [hother hk]
  · by_cases hk : k = key
    · subst hk
      rw [Function.update_self]
    · rw [Function.update_of_ne hk, hknown, hother hk]

theorem addNew_all (l : List LogicalChannelConfig) (hdl : s.2.dl.Linked) (hul : s.2.ul.Linked)
    (hknows : KnowsRows ue s) (h : l.foldlM (addNew ue) s = .ok t) :
    SetsAll s.2.dl t.2.dl (dlFlags ue l) ∧ SetsAll s.2.ul t.2.ul (ulFlags ue l) ∧
      KnowsRows ue t ∧ t.1.channelConfigs = s.1.channelConfigs := by
  induction l generalizing s with
  | nil =>
    cases h
    exact ⟨hdl.setsAll_nil, hul.setsAll_nil, hknows, rfl⟩
  | cons lc l ih =>
    rw [List.foldlM_cons] at h
    obtain ⟨u, hu, hrest⟩ := bind_eq_ok.mp h
    obtain ⟨m, hm, hmk⟩ := bind_eq_ok.mp hu
    obtain ⟨hsetDl, hsetUl⟩ := addmodLcAndLcg_sets hdl hul hm
    cases hmk
    have hknows' : KnowsRows ue ({ s.1 with
        channels := emplace s.1.channels lc.lcid (m.dl.rowIds (ue, lc.lcid))
        lcgs := emplace s.1.lcgs lc.lcGroup (m.ul.rowIds (ue, lc.lcGroup)) }, m) :=
      ⟨emplace_eq hknows.channels hsetDl, emplace_eq hknows.lcgs hsetUl⟩
    obtain ⟨hallDl, hallUl, hk, hcfg⟩ := ih hsetDl.linked hsetUl.linked hknows' hrest
    exact ⟨hsetDl.setsAll hallDl, hsetUl.setsAll hallUl, hk, hcfg⟩

abbrev GoneLcid (ue : Nat) (newCfg : LogicalChannelConfigList) (old : List LogicalChannelConfig)
    (k : Nat × Nat) : Prop :=
  k.1 = ue ∧ (∃ lc ∈ old, lc.lcid = k.2) ∧ newCfg.containsLcid k.2 = false

abbrev GoneLcg (ue : Nat) (newCfg : LogicalChannelConfigList) (old : List LogicalChannelConfig)
    (k : Nat × Nat) : Prop :=
  k.1 = ue ∧ (∃ lc ∈ old, lc.lcGroup = k.2) ∧ newCfg.containsLcg k.2 = false

theorem update_eq {R Q : Type} {t : KeyedRows (Nat × Nat) R Q} {rows : Nat → Option Nat}
    (hknown : ∀ k, rows k = t.rowIds (ue, k)) (key k : Nat) :
    Function.update rows key none k = (t.remove (ue, key)).rowIds (ue, k) := by
  rw [rowIds_remove, Function.update_apply, hknown]
  simp only [Prod.mk.injEq, true_and]

theorem removeLc_drops (newCfg : LogicalChannelConfigList) (lc : LogicalChannelConfig)
    (hdl : s.2.dl.Linked) (hknows : KnowsRows ue s) :
    Drops s.2.dl (removeLc ue newCfg s lc).2.dl (GoneLcid ue newCfg [lc]) ∧
      (removeLc ue newCfg s lc).2.ul = s.2.ul ∧ KnowsRows ue (removeLc ue newCfg s lc) ∧
      (removeLc ue newCfg s lc).1.channelConfigs = s.1.channelConfigs := by
  unfold removeLc
  split
  · rename_i hin
    refine ⟨hdl.drops_none ?_, rfl, hknows, rfl⟩
    rintro k ⟨-, ⟨lc', hlc', heq⟩, hout⟩
    rw [List.mem_singleton.mp hlc'] at heq
    rw [← heq, hin] at hout
    cases hout
  · rename_i hout
    refine ⟨?_, rfl, ⟨update_eq hknows.channels lc.lcid, hknows.lcgs⟩, rfl⟩
    refine (hdl.drops (ue, lc.lcid)).congr fun k => ?_
    constructor
    · rintro rfl
      exact ⟨rfl, ⟨lc, List.mem_singleton_self lc, rfl⟩, Bool.eq_false_iff.mpr hout⟩
    · rintro ⟨hue, ⟨lc', hlc', heq⟩, -⟩
      rw [List.mem_singleton.mp hlc'] at heq
      exact Prod.ext hue heq.symm

theorem removeLcg_drops (newCfg : LogicalChannelConfigList) (lc : LogicalChannelConfig)
    (hul : s.2.ul.Linked) (hknows : KnowsRows ue s) :
    Drops s.2.ul (removeLcg ue newCfg s lc).2.ul (GoneLcg ue newCfg [lc]) ∧
      (removeLcg ue newCfg s lc).2.dl = s.2.dl ∧ KnowsRows ue (removeLcg ue newCfg s lc) ∧
      (removeLcg ue newCfg s lc).1.channelConfigs = s.1.channelConfigs := by
  unfold removeLcg
  split
  · rename_i hgone
    refine ⟨?_, rfl, ⟨hknows.channels, update_eq hknows.lcgs lc.lcGroup⟩, rfl⟩
    refine (hul.drops (ue, lc.lcGroup)).congr fun k => ?_
    constructor
    · rintro rfl
      exact ⟨rfl, ⟨lc, List.mem_singleton_self lc, rfl⟩, Bool.eq_false_iff.mpr hgone.1⟩
    · rintro ⟨hue, ⟨lc', hlc', heq⟩, -⟩
      rw [List.mem_singleton.mp hlc'] at heq
      exact Prod.ext hue heq.symm
  · rename_i hstay
    refine ⟨hul.drops_none ?_, rfl, hknows, rfl⟩
    rintro ⟨v, lcg⟩ ⟨hue, ⟨lc', hlc', heq⟩, hout⟩
    dsimp only at hue heq hout
    rw [List.mem_singleton.mp hlc'] at heq
    rw [← heq] at hout ⊢
    by_contra hrow
    subst hue
    rw [← hknows.lcgs] at hrow
    exact hstay ⟨by rw [hout]; exact Bool.false_ne_true, Option.isSome_iff_ne_none.mpr hrow⟩

theorem removeOld_all (newCfg : LogicalChannelConfigList) (old : List LogicalChannelConfig)
    (hdl : s.2.dl.Linked) (hul : s.2.ul.Linked) (hknows : KnowsRows ue s) :
    Drops s.2.dl (old.foldl (removeOld ue newCfg) s).2.dl (GoneLcid ue newCfg old) ∧
      Drops s.2.ul (old.foldl (removeOld ue newCfg) s).2.ul (GoneLcg ue newCfg old) ∧
      KnowsRows ue (old.foldl (removeOld ue newCfg) s) ∧
      (old.foldl (removeOld ue newCfg) s).1.channelConfigs = s.1.channelConfigs := by
  induction old generalizing s with
  | nil =>
    refine ⟨hdl.drops_none ?_, hul.drops_none ?_, hknows, rfl⟩
    · rintro k ⟨-, ⟨lc, hlc, -⟩, -⟩
      cases hlc
    · rintro k ⟨-, ⟨lc, hlc, -⟩, -⟩
      cases hlc
  | cons lc old ih =>
    obtain ⟨hd, hsameUl, hk, hcfg⟩ := removeLc_drops newCfg lc hdl hknows
    obtain ⟨hd', hsameDl, hk', hcfg'⟩ := removeLcg_drops (s := removeLc ue newCfg s lc) newCfg lc
      (by rw [hsameUl]; exact hul) hk
    rw [hsameUl] at hd'
    obtain ⟨hrestDl, hrestUl, hkrest, hcfgrest⟩ := ih (s := removeOld ue newCfg s lc)
      (by rw [removeOld, hsameDl]; exact hd.linked) hd'.linked hk'
    rw [removeOld, hsameDl] at hrestDl
    refine ⟨hd.trans hrestDl fun k => ?_, hd'.trans hrestUl fun k => ?_, hkrest,
      hcfgrest.trans (hcfg'.trans hcfg)⟩
    · simp only [GoneLcid, List.mem_cons, List.not_mem_nil, or_false, exists_eq_left, exists_eq_or_imp]
      tauto
    · simp only [GoneLcg, List.mem_cons, List.not_mem_nil, or_false, exists_eq_left, exists_eq_or_imp]
      tauto

structure Configured (ue : Nat) (s : UeState) : Prop extends KnowsRows ue s where
  dlRows : ∀ lcid, (s.2.dl.rowIds (ue, lcid)).isSome = s.1.channelConfigs.containsLcid lcid
  ulRows : ∀ lcg, (s.2.ul.rowIds (ue, lcg)).isSome = s.1.channelConfigs.containsLcg lcg
  dlTracked : ∀ lcid, s.2.dlTracked ue lcid =
    lastFlag (ue, lcid) (dlFlags ue s.1.channelConfigs.lcList) false
  ulTracked : ∀ lcg, s.2.ulTracked ue lcg =
    lastFlag (ue, lcg) (ulFlags ue s.1.channelConfigs.lcList) false

theorem mem_dlFlags {v lcid : Nat} {l : List LogicalChannelConfig} :
    (v, lcid) ∈ (dlFlags ue l).map Prod.fst ↔ v = ue ∧ l.any (·.lcid == lcid) = true := by
  simp only [dlFlags, List.map_map, List.mem_map, Function.comp_apply, Prod.mk.injEq,
    List.any_eq_true, beq_iff_eq]
  exact ⟨fun ⟨lc, hlc, hv, hk⟩ => ⟨hv.symm, lc, hlc, hk⟩, fun ⟨hv, lc, hlc, hk⟩ => ⟨lc, hlc, hv.symm, hk⟩⟩

theorem mem_ulFlags {v lcg : Nat} {l : List LogicalChannelConfig} :
    (v, lcg) ∈ (ulFlags ue l).map Prod.fst ↔ v = ue ∧ l.any (·.lcGroup == lcg) = true := by
  simp only [ulFlags, List.map_map, List.mem_map, Function.comp_apply, Prod.mk.injEq,
    List.any_eq_true, beq_iff_eq]
  exact ⟨fun ⟨lc, hlc, hv, hk⟩ => ⟨hv.symm, lc, hlc, hk⟩, fun ⟨hv, lc, hlc, hk⟩ => ⟨lc, hlc, hv.symm, hk⟩⟩

structure SameOthers (ue : Nat) (m m' : LogicalChannelMapper) : Prop where
  dlRows : ∀ v lcid, v ≠ ue → m'.dl.rowIds (v, lcid) = m.dl.rowIds (v, lcid)
  ulRows : ∀ v lcg, v ≠ ue → m'.ul.rowIds (v, lcg) = m.ul.rowIds (v, lcg)
  dlTracked : ∀ v lcid, v ≠ ue → m'.dlTracked v lcid = m.dlTracked v lcid
  ulTracked : ∀ v lcg, v ≠ ue → m'.ulTracked v lcg = m.ulTracked v lcg

theorem drops_setsAll {R Q : Type} {t t₁ t₂ : KeyedRows (Nat × Nat) R Q} {key : Nat}
    {P : Nat × Nat → Prop} [DecidablePred P] {l : List ((Nat × Nat) × Bool)} {old : Bool}
    (hdrop : Drops t t₁ P) (hset : SetsAll t₁ t₂ l) (hold : (t.rowIds (ue, key)).isSome = old)
    (hgone : (ue, key) ∉ l.map Prod.fst → old = true → P (ue, key)) :
    ((t₂.rowIds (ue, key)).isSome = true ↔ (ue, key) ∈ l.map Prod.fst) ∧
      (t₂.entryOf (ue, key)).isSome = lastFlag (ue, key) l false := by
  by_cases hmem : (ue, key) ∈ l.map Prod.fst
  · refine ⟨iff_of_true (hset.row _ hmem) hmem, ?_⟩
    rw [hset.owns]
    exact lastFlag_of_mem hmem _ _
  · have hnone : t₂.rowIds (ue, key) = none := by
      rw [hset.rowIds _ hmem, hdrop.rowIds]
      split
      · rfl
      · rename_i hstay
        cases ho : old with
        | true => exact absurd (hgone hmem ho) hstay
        | false => exact Option.isSome_eq_false_iff.mp (hold.trans ho) |> Option.isNone_iff_eq_none.mp
    rw [hnone, entryOf_eq_none hnone, lastFlag_of_not_mem hmem]
    exact ⟨iff_of_false (by simp) hmem, rfl⟩

theorem configureUe_configured {newCfg : LogicalChannelConfigList} (hdl : s.2.dl.Linked)
    (hul : s.2.ul.Linked) (hs : Configured ue s) (h : configureUe ue s newCfg = .ok t) :
    t.2.dl.Linked ∧ t.2.ul.Linked ∧ Configured ue t ∧ t.1.channelConfigs = newCfg ∧
      SameOthers ue s.2 t.2 := by
  obtain ⟨hdropDl, hdropUl, hknows, hcfg⟩ := removeOld_all
    (s := ({ s.1 with channelConfigs := newCfg }, s.2)) newCfg s.1.channelConfigs.lcList hdl hul
    ⟨hs.channels, hs.lcgs⟩
  obtain ⟨hsetDl, hsetUl, hknows', hcfg'⟩ := addNew_all newCfg.lcList hdropDl.linked hdropUl.linked
    hknows h
  have hnew : t.1.channelConfigs = newCfg := hcfg'.trans hcfg
  have hrowsDl := fun lcid => drops_setsAll hdropDl hsetDl (hs.dlRows lcid) (by
    intro hout hin
    obtain ⟨lc, hlc, heq⟩ := List.any_eq_true.mp hin
    rw [mem_dlFlags, not_and] at hout
    exact ⟨rfl, ⟨lc, hlc, beq_iff_eq.mp heq⟩, Bool.eq_false_iff.mpr (hout rfl)⟩)
  have hrowsUl := fun lcg => drops_setsAll hdropUl hsetUl (hs.ulRows lcg) (by
    intro hout hin
    obtain ⟨lc, hlc, heq⟩ := List.any_eq_true.mp hin
    rw [mem_ulFlags, not_and] at hout
    exact ⟨rfl, ⟨lc, hlc, beq_iff_eq.mp heq⟩, Bool.eq_false_iff.mpr (hout rfl)⟩)
  refine ⟨hsetDl.linked, hsetUl.linked, ⟨hknows', ?_, ?_, ?_, ?_⟩, hnew, ?_⟩
  · intro lcid
    rw [hnew, Bool.eq_iff_iff, (hrowsDl lcid).1, mem_dlFlags]
    exact and_iff_right rfl
  · intro lcg
    rw [hnew, Bool.eq_iff_iff, (hrowsUl lcg).1, mem_ulFlags]
    exact and_iff_right rfl
  · intro lcid
    rw [hnew]
    exact (hrowsDl lcid).2
  · intro lcg
    rw [hnew]
    exact (hrowsUl lcg).2
  · have hout : ∀ v key, v ≠ ue → (v, key) ∉ (dlFlags ue newCfg.lcList).map Prod.fst :=
      fun v key hne hmem => hne (mem_dlFlags.mp hmem).1
    have hout' : ∀ v key, v ≠ ue → (v, key) ∉ (ulFlags ue newCfg.lcList).map Prod.fst :=
      fun v key hne hmem => hne (mem_ulFlags.mp hmem).1
    constructor
    · intro v lcid hne
      rw [hsetDl.rowIds _ (hout v lcid hne), hdropDl.rowIds, if_neg fun hg => hne hg.1]
    · intro v lcg hne
      rw [hsetUl.rowIds _ (hout' v lcg hne), hdropUl.rowIds, if_neg fun hg => hne hg.1]
    · intro v lcid hne
      unfold LogicalChannelMapper.dlTracked
      rw [hsetDl.owns, lastFlag_of_not_mem (hout v lcid hne), hdropDl.owns,
        if_neg fun hg => hne hg.1]
    · intro v lcg hne
      unfold LogicalChannelMapper.ulTracked
      rw [hsetUl.owns, lastFlag_of_not_mem (hout' v lcg hne), hdropUl.owns,
        if_neg fun hg => hne hg.1]

structure Inv (s : LogicalChannelSystem) : Prop where
  linkedDl : s.lcMapper.dl.Linked
  linkedUl : s.lcMapper.ul.Linked
  ues : ∀ v u, s.ues v = some u → Configured v (u, s.lcMapper)
  absent : ∀ v, s.ues v = none → ∀ k,
    s.lcMapper.dl.rowIds (v, k) = none ∧ s.lcMapper.ul.rowIds (v, k) = none

theorem Inv.new : Inv new where
  linkedDl := linked_empty
  linkedUl := linked_empty
  ues := by intro v u h; cases h
  absent := fun _ _ _ => ⟨rfl, rfl⟩

theorem Configured.congr {v : Nat} {u : UeLogicalChannels} {m m' : LogicalChannelMapper}
    (h : Configured v (u, m)) (hsame : SameOthers ue m m') (hne : v ≠ ue) :
    Configured v (u, m') where
  channels := fun lcid => (h.channels lcid).trans (hsame.dlRows v lcid hne).symm
  lcgs := fun lcg => (h.lcgs lcg).trans (hsame.ulRows v lcg hne).symm
  dlRows := fun lcid => (congrArg Option.isSome (hsame.dlRows v lcid hne)).trans (h.dlRows lcid)
  ulRows := fun lcg => (congrArg Option.isSome (hsame.ulRows v lcg hne)).trans (h.ulRows lcg)
  dlTracked := fun lcid => (hsame.dlTracked v lcid hne).trans (h.dlTracked lcid)
  ulTracked := fun lcg => (hsame.ulTracked v lcg hne).trans (h.ulTracked lcg)

theorem configure_spec {s t : LogicalChannelSystem} {newCfg : LogicalChannelConfigList}
    (hs : Inv s) (h : s.configure ue newCfg = .ok t) :
    Inv t ∧ ∃ u, t.ues ue = some u ∧ u.channelConfigs = newCfg ∧
      t.ues = Function.update s.ues ue (some u) := by
  unfold configure at h
  cases hue : s.ues ue with
  | none =>
    rw [hue] at h
    cases h
  | some u =>
    rw [hue] at h
    obtain ⟨r, hr, ht⟩ := bind_eq_ok.mp h
    cases ht
    obtain ⟨hdl, hul, hconf, hcfg, hsame⟩ := configureUe_configured hs.linkedDl hs.linkedUl
      (hs.ues ue u hue) hr
    refine ⟨⟨hdl, hul, ?_, ?_⟩, r.1, Function.update_self .., hcfg, rfl⟩
    · intro v w hv
      dsimp only at hv
      by_cases hne : v = ue
      · subst hne
        rw [Function.update_self] at hv
        cases hv
        exact hconf
      · rw [Function.update_of_ne hne] at hv
        exact (hs.ues v w hv).congr hsame hne
    · intro v hv k
      dsimp only at hv
      by_cases hne : v = ue
      · subst hne
        rw [Function.update_self] at hv
        cases hv
      · rw [Function.update_of_ne hne] at hv
        dsimp only
        rw [hsame.dlRows v k hne, hsame.ulRows v k hne]
        exact hs.absent v hv k

theorem Inv.withUe {s : LogicalChannelSystem} (hs : Inv s) (habsent : s.ues ue = none)
    (slotsPerMsec : Nat) :
    Inv { s with
      ues := Function.update s.ues ue
        (some ⟨slotsPerMsec, .empty, fun _ => none, fun _ => none⟩) } where
  linkedDl := hs.linkedDl
  linkedUl := hs.linkedUl
  ues := by
    intro v u hv
    dsimp only at hv ⊢
    by_cases hne : v = ue
    · subst hne
      rw [Function.update_self] at hv
      cases hv
      have hnone := hs.absent v habsent
      exact ⟨⟨fun k => (hnone k).1.symm, fun k => (hnone k).2.symm⟩,
        fun k => congrArg Option.isSome (hnone k).1, fun k => congrArg Option.isSome (hnone k).2,
        fun k => congrArg Option.isSome (entryOf_eq_none (hnone k).1),
        fun k => congrArg Option.isSome (entryOf_eq_none (hnone k).2)⟩
    · rw [Function.update_of_ne hne] at hv
      exact hs.ues v u hv
  absent := by
    intro v hv
    dsimp only at hv
    by_cases hne : v = ue
    · subst hne
      rw [Function.update_self] at hv
      cases hv
    · rw [Function.update_of_ne hne] at hv
      exact hs.absent v hv

theorem Inv.step {s t : LogicalChannelSystem} {e : Event} (hs : Inv s)
    (h : s.step e = .ok t) : Inv t := by
  cases e with
  | createUe v slotsPerMsec newCfg =>
    simp only [LogicalChannelSystem.step, createUe] at h
    split at h
    · cases h
    · rename_i hno
      have habsent : s.ues v = none := Option.not_isSome_iff_eq_none.mp hno
      exact (configure_spec (hs.withUe habsent slotsPerMsec) h).1
  | configure v newCfg => exact (configure_spec hs h).1
  | removeUe v =>
    obtain ⟨u, hu, ht⟩ := bind_eq_ok.mp (show s.removeUe v = .ok t from h)
    cases ht
    obtain ⟨hinv, w, hw, hcfg, hues⟩ := configure_spec hs hu
    have hgone := hinv.ues v w hw
    refine ⟨hinv.linkedDl, hinv.linkedUl, ?_, ?_⟩
    · intro v' u' hv'
      dsimp only at hv'
      by_cases hne : v' = v
      · subst hne
        rw [Function.update_self] at hv'
        cases hv'
      · rw [Function.update_of_ne hne] at hv'
        exact hinv.ues v' u' hv'
    · intro v' hv' k
      by_cases hne : v' = v
      · subst hne
        have hdl := hgone.dlRows k
        have hul := hgone.ulRows k
        simp only [hcfg] at hdl hul
        exact ⟨Option.not_isSome_iff_eq_none.mp (by rw [hdl]; exact Bool.false_ne_true),
          Option.not_isSome_iff_eq_none.mp (by rw [hul]; exact Bool.false_ne_true)⟩
      · dsimp only at hv'
        rw [Function.update_of_ne hne] at hv'
        exact hinv.absent v' hv' k

/-! What the last channel of a list says -/

theorem lastFlag_map_iff {l : List LogicalChannelConfig} (hsorted : l.Pairwise (·.lcid < ·.lcid))
    (f : LogicalChannelConfig → Nat) (key : Nat) :
    lastFlag (ue, key) (l.map fun lc => ((ue, f lc), lc.isGbr)) false = true ↔
      ∃ lc ∈ l, f lc = key ∧ lc.isGbr = true ∧ ∀ lc' ∈ l, f lc' = key → lc'.lcid ≤ lc.lcid := by
  induction l using List.reverseRecOn with
  | nil => simp [lastFlag]
  | append_singleton l x ih =>
    obtain ⟨hl, -, hlast⟩ := List.pairwise_append.mp hsorted
    have hbelow : ∀ lc ∈ l, lc.lcid < x.lcid := fun lc hlc => hlast lc hlc x (List.mem_singleton_self x)
    unfold lastFlag at ih ⊢
    rw [List.map_append, List.foldl_append, List.map_singleton, List.foldl_cons, List.foldl_nil]
    by_cases hx : f x = key
    · rw [if_pos (by rw [hx])]
      constructor
      · intro hgbr
        refine ⟨x, List.mem_append_right _ (List.mem_singleton_self x), hx, hgbr, fun lc' hlc' _ => ?_⟩
        rcases List.mem_append.mp hlc' with hin | hin
        · exact (hbelow lc' hin).le
        · rw [List.mem_singleton.mp hin]
      · rintro ⟨lc, hlc, -, hgbr, hmax⟩
        rcases List.mem_append.mp hlc with hin | hin
        · have := hmax x (List.mem_append_right _ (List.mem_singleton_self x)) hx
          have := hbelow lc hin
          omega
        · rw [← List.mem_singleton.mp hin]
          exact hgbr
    · rw [if_neg fun heq => hx (Prod.mk.inj heq).2, ih hl]
      constructor
      · rintro ⟨lc, hlc, hf, hgbr, hmax⟩
        refine ⟨lc, List.mem_append_left _ hlc, hf, hgbr, fun lc' hlc' hf' => ?_⟩
        rcases List.mem_append.mp hlc' with hin | hin
        · exact hmax lc' hin hf'
        · rw [List.mem_singleton.mp hin] at hf'
          exact absurd hf' hx
      · rintro ⟨lc, hlc, hf, hgbr, hmax⟩
        rcases List.mem_append.mp hlc with hin | hin
        · exact ⟨lc, hin, hf, hgbr, fun lc' hlc' => hmax lc' (List.mem_append_left _ hlc')⟩
        · rw [List.mem_singleton.mp hin] at hf
          exact absurd hf hx

structure TracksGbr (m : LogicalChannelMapper) (ue : Nat) (cfgs : List LogicalChannelConfig) : Prop where
  dl : ∀ lcid, m.dlTracked ue lcid = true ↔ ∃ lc ∈ cfgs, lc.lcid = lcid ∧ lc.isGbr = true
  ul : ∀ lcg, m.ulTracked ue lcg = true ↔ ∃ lc ∈ cfgs, lc.lcGroup = lcg ∧ lc.isGbr = true

abbrev HighestIsGbr (cfgs : List LogicalChannelConfig) : Prop :=
  ∀ a ∈ cfgs, a.isGbr = true → ∃ b ∈ cfgs, b.lcGroup = a.lcGroup ∧ b.isGbr = true ∧
    ∀ c ∈ cfgs, c.lcGroup = a.lcGroup → c.lcid ≤ b.lcid

open LogicalChannelConfigList

theorem mem_create {cfgs : List LogicalChannelConfig} {h : (cfgs.map (·.lcid)).Nodup}
    {lc : LogicalChannelConfig} :
    lc ∈ (create cfgs h).lcList ↔
      lc ∈ cfgs ∨ lc = defaultSrb0 ∧ cfgs.any (·.lcid == srb0) = false := by
  simp only [create, sortByLcid, List.mem_insertionSort, withSrb0]
  split
  · rename_i hin
    simp [hin]
  · rename_i hout
    rw [List.mem_cons]
    simp only [Bool.eq_false_iff.mpr hout, and_true]
    exact or_comm

theorem create_perm {cfgs cfgs' : List LogicalChannelConfig} (hperm : cfgs'.Perm cfgs)
    (h : (cfgs.map (·.lcid)).Nodup) (h' : (cfgs'.map (·.lcid)).Nodup) :
    create cfgs' h' = create cfgs h := by
  have hsrb0 : (withSrb0 cfgs').Perm (withSrb0 cfgs) := by
    have hany : cfgs'.any (·.lcid == srb0) = cfgs.any (·.lcid == srb0) := by
      rw [Bool.eq_iff_iff, List.any_eq_true, List.any_eq_true]
      simp only [hperm.mem_iff]
    unfold withSrb0
    rw [hany]
    split
    · exact hperm
    · exact hperm.cons _
  have hsort : (create cfgs' h').lcList.Perm (create cfgs h).lcList :=
    (List.perm_insertionSort _ _).trans (hsrb0.trans (List.perm_insertionSort _ _).symm)
  have heq := hsort.eq_of_pairwise (fun a b _ _ hab hba => absurd (hab.trans hba) (lt_irrefl _))
    (create cfgs' h').sorted (create cfgs h).sorted
  cases hc : create cfgs' h'
  cases hc' : create cfgs h
  rw [hc, hc'] at heq
  cases heq
  rfl

theorem highest_create {cfgs : List LogicalChannelConfig} (h : (cfgs.map (·.lcid)).Nodup)
    (f : LogicalChannelConfig → Nat) (key : Nat) :
    (∃ lc ∈ (create cfgs h).lcList, f lc = key ∧ lc.isGbr = true ∧
        ∀ lc' ∈ (create cfgs h).lcList, f lc' = key → lc'.lcid ≤ lc.lcid) ↔
      ∃ lc ∈ cfgs, f lc = key ∧ lc.isGbr = true ∧ ∀ lc' ∈ cfgs, f lc' = key → lc'.lcid ≤ lc.lcid := by
  simp only [mem_create]
  constructor
  · rintro ⟨lc, hlc | ⟨rfl, -⟩, hf, hgbr, hmax⟩
    · exact ⟨lc, hlc, hf, hgbr, fun lc' hlc' => hmax lc' (.inl hlc')⟩
    · cases hgbr
  · rintro ⟨lc, hlc, hf, hgbr, hmax⟩
    refine ⟨lc, .inl hlc, hf, hgbr, fun lc' hlc' hf' => ?_⟩
    rcases hlc' with hin | ⟨rfl, -⟩
    · exact hmax lc' hin hf'
    · exact Nat.zero_le _

/-- In every reachable state, a configuration is the same in whichever order its channels are
listed, and it leaves the bit rates tracked that its GBR channels ask for exactly when no LCG
has a channel without GBR above all its GBR channels. -/
theorem configure_tracksGbr_iff {s t : LogicalChannelSystem} {es : List Event}
    {cfgs cfgs' : List LogicalChannelConfig} (hrun : Machine.run LogicalChannelSystem.step new es = .ok s)
    (hnodup : (cfgs.map (·.lcid)).Nodup) (hnodup' : (cfgs'.map (·.lcid)).Nodup)
    (hperm : cfgs'.Perm cfgs) (hconf : s.configure ue (create cfgs' hnodup') = .ok t) :
    create cfgs' hnodup' = create cfgs hnodup ∧
      (TracksGbr t.lcMapper ue cfgs ↔ HighestIsGbr cfgs) := by
  have hsame := create_perm hperm hnodup hnodup'
  refine ⟨hsame, ?_⟩
  have hinv := Machine.run_invariant Inv (fun _ _ _ hs _ ht => hs.step ht) Inv.new
    (Machine.admits_of_forall (fun _ _ => trivial) _ _) hrun
  rw [hsame] at hconf
  obtain ⟨hinv', u, hu, hcfg, -⟩ := configure_spec hinv hconf
  have hconf' := hinv'.ues ue u hu
  have hdl : ∀ lcid, t.lcMapper.dlTracked ue lcid = true ↔ ∃ lc ∈ cfgs, lc.lcid = lcid ∧
      lc.isGbr = true ∧ ∀ lc' ∈ cfgs, lc'.lcid = lcid → lc'.lcid ≤ lc.lcid := by
    intro lcid
    rw [← highest_create hnodup, ← @lastFlag_map_iff ue _ (create cfgs hnodup).sorted]
    exact (congrArg (· = true) ((hconf'.dlTracked lcid).trans (by rw [hcfg]; rfl))).to_iff
  have hul : ∀ lcg, t.lcMapper.ulTracked ue lcg = true ↔ ∃ lc ∈ cfgs, lc.lcGroup = lcg ∧
      lc.isGbr = true ∧ ∀ lc' ∈ cfgs, lc'.lcGroup = lcg → lc'.lcid ≤ lc.lcid := by
    intro lcg
    rw [← highest_create hnodup, ← @lastFlag_map_iff ue _ (create cfgs hnodup).sorted]
    exact (congrArg (· = true) ((hconf'.ulTracked lcg).trans (by rw [hcfg]; rfl))).to_iff
  constructor
  · intro htracks a ha hgbr
    obtain ⟨b, hb, hgroup, hbgbr, hmax⟩ := (hul a.lcGroup).mp ((htracks.ul _).mpr ⟨a, ha, rfl, hgbr⟩)
    exact ⟨b, hb, hgroup, hbgbr, hmax⟩
  · intro hhigh
    constructor
    · intro lcid
      rw [hdl]
      constructor
      · rintro ⟨lc, hlc, heq, hgbr, -⟩
        exact ⟨lc, hlc, heq, hgbr⟩
      · rintro ⟨lc, hlc, heq, hgbr⟩
        exact ⟨lc, hlc, heq, hgbr, fun lc' _ heq' => (heq'.trans heq.symm).le⟩
    · intro lcg
      rw [hul]
      constructor
      · rintro ⟨lc, hlc, heq, hgbr, -⟩
        exact ⟨lc, hlc, heq, hgbr⟩
      · rintro ⟨lc, hlc, heq, hgbr⟩
        obtain ⟨b, hb, hgroup, hbgbr, hmax⟩ := hhigh lc hlc hgbr
        exact ⟨b, hb, hgroup.trans heq, hbgbr, fun lc' hlc' heq' =>
          hmax lc' hlc' (heq'.trans heq.symm)⟩

def mixedGroup : List LogicalChannelConfig :=
  [⟨4, 2, some ⟨some 100, true⟩, none⟩, ⟨5, 2, some ⟨none, false⟩, none⟩]

def mixedGroupGbrLast : List LogicalChannelConfig :=
  [⟨4, 2, some ⟨none, false⟩, none⟩, ⟨5, 2, some ⟨some 100, true⟩, none⟩]

theorem noChannel_nodup : (([] : List LogicalChannelConfig).map (·.lcid)).Nodup := .nil

theorem mixedGroup_nodup : (mixedGroup.map (·.lcid)).Nodup := by decide

theorem mixedGroupGbrLast_nodup : (mixedGroupGbrLast.map (·.lcid)).Nodup := by decide

theorem mixedGroupReversed_nodup : (mixedGroupGbrLast.reverse.map (·.lcid)).Nodup := by decide

def oneUe : List Event := [.createUe 0 2 (create [] noChannel_nodup)]

theorem configure_tracksGbr_gbrLast :
    ∃ s t, Machine.run LogicalChannelSystem.step new oneUe = .ok s ∧
      s.configure 0 (create mixedGroupGbrLast.reverse mixedGroupReversed_nodup) = .ok t ∧
      create mixedGroupGbrLast.reverse mixedGroupReversed_nodup =
        create mixedGroupGbrLast mixedGroupGbrLast_nodup ∧
      (TracksGbr t.lcMapper 0 mixedGroupGbrLast ↔ HighestIsGbr mixedGroupGbrLast) :=
  ⟨_, _, rfl, rfl, @configure_tracksGbr_iff _ _ _ oneUe _ _ rfl mixedGroupGbrLast_nodup
    mixedGroupReversed_nodup (List.reverse_perm _) rfl⟩

/-- The DRB without a guaranteed bit rate ends the tracking of the group that the DRB with one
shares with it. -/
theorem mixedGroup_untracked :
    ∃ s t, Machine.run LogicalChannelSystem.step new oneUe = .ok s ∧
      s.configure 0 (create mixedGroup mixedGroup_nodup) = .ok t ∧
      t.lcMapper.dlTracked 0 4 = true ∧ t.lcMapper.ulTracked 0 2 = false ∧
      ¬TracksGbr t.lcMapper 0 mixedGroup := by
  obtain ⟨s, t, hs, ht, hdl, hul⟩ : ∃ s t, Machine.run LogicalChannelSystem.step new oneUe = .ok s ∧
      s.configure 0 (create mixedGroup mixedGroup_nodup) = .ok t ∧
      t.lcMapper.dlTracked 0 4 = true ∧ t.lcMapper.ulTracked 0 2 = false :=
    ⟨_, _, rfl, rfl, by decide, by decide⟩
  refine ⟨s, t, hs, ht, hdl, hul, fun h => ?_⟩
  rw [(h.ul 2).mpr ⟨⟨4, 2, some ⟨some 100, true⟩, none⟩, by decide, rfl, rfl⟩] at hul
  cases hul

theorem addmodLcAndLcg_grown {m m' : LogicalChannelMapper} {v slotsPerMsec : Nat}
    {lc : LogicalChannelConfig} (h : m.addmodLcAndLcg v lc slotsPerMsec = .ok m') :
    Grown m.dl m'.dl ∧ Grown m.ul m'.ul := by
  obtain ⟨n, -, hm⟩ := bind_eq_ok.mp h
  cases hm
  cases n with
  | none => exact ⟨(grown_addmod ..).trans (grown_disown ..), (grown_addmod ..).trans (grown_disown ..)⟩
  | some n => exact ⟨(grown_addmod ..).trans (grown_own ..), (grown_addmod ..).trans (grown_own ..)⟩

theorem addNew_grown {l : List LogicalChannelConfig} (h : l.foldlM (addNew ue) s = .ok t) :
    Grown s.2.dl t.2.dl ∧ Grown s.2.ul t.2.ul := by
  refine foldlM_inv (fun u => Grown s.2.dl u.2.dl ∧ Grown s.2.ul u.2.ul) ?_ h ⟨.refl _, .refl _⟩
  rintro u lc u' - hu ⟨hdl, hul⟩
  obtain ⟨m, hm, hmk⟩ := bind_eq_ok.mp hu
  cases hmk
  obtain ⟨hdl', hul'⟩ := addmodLcAndLcg_grown hm
  exact ⟨hdl.trans hdl', hul.trans hul'⟩

variable (ue) in
theorem size_removeOld (newCfg : LogicalChannelConfigList) (old : List LogicalChannelConfig) (s : UeState) :
    (old.foldl (removeOld ue newCfg) s).2.dl.rows.size = s.2.dl.rows.size ∧
      (old.foldl (removeOld ue newCfg) s).2.ul.rows.size = s.2.ul.rows.size := by
  induction old generalizing s with
  | nil => exact ⟨rfl, rfl⟩
  | cons lc old ih =>
    have hone : (removeOld ue newCfg s lc).2.dl.rows.size = s.2.dl.rows.size ∧
        (removeOld ue newCfg s lc).2.ul.rows.size = s.2.ul.rows.size := by
      unfold removeOld removeLcg removeLc
      split <;> split <;> simp [remLc, remLcg]
    rw [List.foldl_cons, (ih _).1, (ih _).2]
    exact hone

/-- There are no more ids than before, or than there are rows in the end. -/
theorem configure_size {s t : LogicalChannelSystem} {newCfg : LogicalChannelConfigList}
    (h : s.configure ue newCfg = .ok t) :
    t.lcMapper.dl.rows.size ≤ max s.lcMapper.dl.rows.size t.lcMapper.dl.rows.objs.length ∧
      t.lcMapper.ul.rows.size ≤ max s.lcMapper.ul.rows.size t.lcMapper.ul.rows.objs.length := by
  unfold configure at h
  cases hue : s.ues ue with
  | none =>
    rw [hue] at h
    cases h
  | some u =>
    rw [hue] at h
    obtain ⟨r, hr, ht⟩ := bind_eq_ok.mp h
    cases ht
    obtain ⟨hdl, hul⟩ := addNew_grown hr
    obtain ⟨hkeptDl, hkeptUl⟩ := size_removeOld ue newCfg u.channelConfigs.lcList
      ({ u with channelConfigs := newCfg }, s.lcMapper)
    exact ⟨hkeptDl ▸ hdl.size, hkeptUl ▸ hul.size⟩

theorem step_size {s t : LogicalChannelSystem} {e : Event} (h : s.step e = .ok t) :
    t.lcMapper.dl.rows.size ≤ max s.lcMapper.dl.rows.size t.lcMapper.dl.rows.objs.length ∧
      t.lcMapper.ul.rows.size ≤ max s.lcMapper.ul.rows.size t.lcMapper.ul.rows.objs.length := by
  cases e with
  | createUe v slotsPerMsec newCfg =>
    simp only [LogicalChannelSystem.step, createUe] at h
    split at h
    · cases h
    · have hsize := configure_size h
      exact hsize
  | configure v newCfg => exact configure_size h
  | removeUe v =>
    obtain ⟨u, hu, ht⟩ := bind_eq_ok.mp (show s.removeUe v = .ok t from h)
    cases ht
    have hsize := configure_size hu
    exact hsize

structure ShortIds (s : LogicalChannelSystem) : Prop where
  dl : s.lcMapper.dl.rows.size ≤ invalidRowId
  ul : s.lcMapper.ul.rows.size ≤ invalidRowId

theorem ShortIds.step {s t : LogicalChannelSystem} {e : Event} (hs : ShortIds s) (hfits : FitsRowIds s e)
    (h : s.step e = .ok t) : ShortIds t := by
  obtain ⟨hdl, hul⟩ := step_size h
  obtain ⟨hrowsDl, hrowsUl⟩ := hfits t h
  exact ⟨hdl.trans (max_le hs.dl hrowsDl), hul.trans (max_le hs.ul hrowsUl)⟩

/-- There is a row just for each channel and group that is configured for a UE, live and not shared, and
16 bits hold its id. -/
theorem rows_of_configured {s : LogicalChannelSystem} {es : List Event}
    (hfits : Machine.Admits LogicalChannelSystem.step FitsRowIds new es)
    (hrun : Machine.run LogicalChannelSystem.step new es = .ok s) :
    (∀ ue k, ((s.lcMapper.dl.rowIds (ue, k)).isSome = true ↔
        ∃ u ∈ s.ues ue, u.channelConfigs.containsLcid k = true) ∧
      ((s.lcMapper.ul.rowIds (ue, k)).isSome = true ↔ ∃ u ∈ s.ues ue, u.channelConfigs.containsLcg k = true)) ∧
    (∀ ue k rid, ∀ u ∈ s.ues ue, u.channels k = some rid →
      rid < invalidRowId ∧ (s.lcMapper.dl.rows.find? rid).isSome = true ∧
      ∀ ue' k', ∀ u' ∈ s.ues ue', u'.channels k' = some rid → ue' = ue ∧ k' = k) ∧
    ∀ ue k rid, ∀ u ∈ s.ues ue, u.lcgs k = some rid →
      rid < invalidRowId ∧ (s.lcMapper.ul.rows.find? rid).isSome = true ∧
      ∀ ue' k', ∀ u' ∈ s.ues ue', u'.lcgs k' = some rid → ue' = ue ∧ k' = k := by
  obtain ⟨hinv, hshort⟩ := Machine.run_invariant (fun s => Inv s ∧ ShortIds s)
    (fun _ _ _ hs hfits ht => ⟨hs.1.step ht, hs.2.step hfits ht⟩) ⟨Inv.new, ⟨Nat.zero_le _, Nat.zero_le _⟩⟩
    hfits hrun
  refine ⟨fun ue k => ?_, fun ue k rid u hu hrid => ?_, fun ue k rid u hu hrid => ?_⟩
  · cases hue : s.ues ue with
    | none =>
      have habsent := hinv.absent ue hue k
      simp [habsent]
    | some u =>
      have hconf := hinv.ues ue u hue
      simp [hconf.dlRows k, hconf.ulRows k]
  · rw [(hinv.ues ue u hu).channels k] at hrid
    refine ⟨(hinv.linkedDl.lt_size hrid).trans_le hshort.dl, hinv.linkedDl.row_live _ _ hrid,
      fun ue' k' u' hu' hrid' => ?_⟩
    rw [(hinv.ues ue' u' hu').channels k'] at hrid'
    exact Prod.mk.inj (hinv.linkedDl.rowIds_inj _ _ _ hrid' hrid)
  · rw [(hinv.ues ue u hu).lcgs k] at hrid
    refine ⟨(hinv.linkedUl.lt_size hrid).trans_le hshort.ul, hinv.linkedUl.row_live _ _ hrid,
      fun ue' k' u' hu' hrid' => ?_⟩
    rw [(hinv.ues ue' u' hu').lcgs k'] at hrid'
    exact Prod.mk.inj (hinv.linkedUl.rowIds_inj _ _ _ hrid' hrid)

theorem oneUe_fits : Machine.Admits LogicalChannelSystem.step FitsRowIds new oneUe := by
  refine ⟨fun t ht => ?_, fun _ _ => trivial⟩
  cases ht
  exact ⟨by decide, by decide⟩

theorem rows_of_configured_oneUe : ∃ s, Machine.run LogicalChannelSystem.step new oneUe = .ok s ∧
    (s.lcMapper.dl.rowIds (0, 0)).isSome = true := by
  have hsrb : (create [] noChannel_nodup).containsLcid 0 = true := by decide
  exact ⟨_, rfl, ((@rows_of_configured _ oneUe oneUe_fits rfl).1 0 0).1.mpr ⟨_, rfl, hsrb⟩⟩

end LogicalChannelSystem

end Ocudu.Sched
