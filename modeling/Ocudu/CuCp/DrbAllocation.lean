import Ocudu.CuCp.UpConsistent

/-! The DRB ids that a UE is given between two changes of its key. -/

namespace Ocudu.CuCp

open OrderedMap

variable {cfg : UpResourceManagerCfg} {context context' : UpContext}

section Growth

structure Grows (context : UpContext) (drbIds : List DrbId) (context' : UpContext) : Prop where
  drbs : ∀ drbId ∈ context'.drbMap.keys, drbId ∈ context.drbMap.keys ∨ drbId ∈ drbIds
  used : ∀ drbId, drbId ∈ context'.usedDrbIds ↔ drbId ∈ context.usedDrbIds ∨ drbId ∈ drbIds

theorem Grows.refl (context : UpContext) : Grows context [] context :=
  ⟨fun _ h => .inl h, fun _ => ⟨.inl, fun h => h.resolve_right List.not_mem_nil⟩⟩

theorem Grows.trans {context₁ : UpContext} {drbIds drbIds' : List DrbId} (h : Grows context drbIds context₁)
    (h' : Grows context₁ drbIds' context') : Grows context (drbIds ++ drbIds') context' where
  drbs drbId hin := by
    rw [List.mem_append, ← or_assoc]
    exact (h'.drbs drbId hin).imp_left (h.drbs drbId)
  used drbId := by
    rw [h'.used, h.used, List.mem_append, or_assoc]

theorem grows_addDrb (sc : SessionAndContext) (e : DrbEntry) : Grows sc.2 [e.1] (addDrb sc e).2 where
  drbs drbId hin := by
    obtain ⟨psi, hpsi⟩ := mem_keys.mp hin
    rw [show (addDrb sc e).2.drbMap = sc.2.drbMap.emplace e.1 sc.1.id from rfl, find?_emplace] at hpsi
    split_ifs at hpsi with heq
    · exact .inr (List.mem_singleton.mpr heq)
    · exact .inl (mem_keys.mpr ⟨psi, hpsi⟩)
  used drbId := by
    show drbId ∈ insert e.1 sc.2.usedDrbIds ↔ _
    rw [Finset.mem_insert, List.mem_singleton, or_comm]

theorem grows_addDrbs (drbs : List DrbEntry) (sc : SessionAndContext) :
    Grows sc.2 (drbs.map Prod.fst) (drbs.foldl addDrb sc).2 := by
  induction drbs generalizing sc with
  | nil => exact Grows.refl sc.2
  | cons e drbs ih => exact (grows_addDrb sc e).trans (ih (addDrb sc e))

theorem keys_erase {κ α : Type} [LinearOrder κ] {m : OrderedMap κ α} {k k' : κ} (h : k' ∈ (m.erase k).keys) :
    k' ∈ m.keys := by
  obtain ⟨a, ha⟩ := mem_keys.mp h
  rw [find?_erase] at ha
  split_ifs at ha
  exact mem_keys.mpr ⟨a, ha⟩

theorem grows_removeDrbs {sc sc' : SessionAndContext} {drbIds : List DrbId}
    (hrun : drbIds.foldlM removeDrb sc = .ok sc') : Grows sc.2 [] sc'.2 := by
  refine foldlM_inv (fun s => Grows sc.2 [] s.2) (fun s drbId s' _ hstep hs => ?_) hrun (Grows.refl sc.2)
  obtain ⟨drb, -, rfl⟩ := removeDrb_eq_ok hstep
  exact ⟨fun d hin => hs.drbs d (keys_erase hin), hs.used⟩

theorem grows_applyAdded (context : UpContext) (session : UpPduSessionContextUpdate) :
    Grows context (session.drbToAdd.entries.map Prod.fst) (applyAdded context session) :=
  have h := grows_addDrbs session.drbToAdd.entries (⟨session.id, .empty, session.protection⟩, context)
  ⟨h.drbs, h.used⟩

theorem grows_addedSessions (sessions : List UpPduSessionContextUpdate) (context : UpContext) :
    Grows context ((drbsOf sessions).map Prod.fst) (sessions.foldl applyAdded context) := by
  induction sessions generalizing context with
  | nil => exact Grows.refl context
  | cons session sessions ih =>
    rw [drbsOf, List.flatMap_cons, List.map_append]
    exact (grows_applyAdded context session).trans (ih (applyAdded context session))

theorem grows_applyModified {session : UpPduSessionContextUpdate} (h : applyModified context session = .ok context') :
    Grows context (session.drbToAdd.entries.map Prod.fst) context' := by
  obtain ⟨old, sc, -, hrun, rfl⟩ := applyModified_eq_ok h
  have hgrows := (grows_addDrbs session.drbToAdd.entries (old, context)).trans (grows_removeDrbs hrun)
  rw [List.append_nil] at hgrows
  exact ⟨hgrows.drbs, hgrows.used⟩

theorem grows_modifiedSessions {sessions : List UpPduSessionContextUpdate}
    (hrun : sessions.foldlM applyModified context = .ok context') :
    Grows context ((drbsOf sessions).map Prod.fst) context' := by
  induction sessions generalizing context with
  | nil =>
    cases hrun
    exact Grows.refl _
  | cons session sessions ih =>
    rw [List.foldlM_cons] at hrun
    obtain ⟨context₁, hfirst, hrun⟩ := bind_eq_ok.mp hrun
    rw [drbsOf, List.flatMap_cons, List.map_append]
    exact (grows_applyModified hfirst).trans (ih hrun)

theorem grows_applyRemoved {psi : PduSessionId} (h : applyRemoved context psi = .ok context') :
    Grows context [] context' := by
  have hframe (drbs : List DrbEntry) (context₁ : UpContext) (h₁ : Grows context [] context₁) :
      Grows context [] (drbs.foldl removeDrbOfSession context₁) := by
    induction drbs generalizing context₁ with
    | nil => exact h₁
    | cons e drbs ih => exact ih _ ⟨fun d hin => h₁.drbs d (keys_erase hin), h₁.used⟩
  obtain ⟨session, -, rfl⟩ := applyRemoved_eq_ok h
  have hgrows := hframe session.drbs.entries context (Grows.refl context)
  exact ⟨hgrows.drbs, hgrows.used⟩

theorem grows_removedSessions {psis : List PduSessionId} (hrun : psis.foldlM applyRemoved context = .ok context') :
    Grows context [] context' :=
  foldlM_inv (fun c => Grows context [] c) (fun _ _ _ _ hstep hc => hc.trans (grows_applyRemoved hstep)) hrun
    (Grows.refl context)

end Growth

section Contents

variable {rest : List DrbEntry} {sessions : List UpPduSessionContextUpdate}

theorem find?_addDrbs {drbs : List DrbEntry} {sc : SessionAndContext} (h : Ready (whole sc) (drbs ++ rest))
    (drbId : DrbId) (drb : UpDrbContext) :
    (drbs.foldl addDrb sc).1.drbs.find? drbId = some drb ↔ sc.1.drbs.find? drbId = some drb ∨ (drbId, drb) ∈ drbs := by
  induction drbs generalizing sc with
  | nil => exact ⟨.inl, fun h => h.resolve_right List.not_mem_nil⟩
  | cons e drbs ih =>
    have hnone := drbs_find?_none h
    rw [List.foldl_cons, ih h.addDrb, List.mem_cons, ← or_assoc]
    refine or_congr_left ?_
    show (sc.1.drbs.emplace e.1 e.2).find? drbId = _ ↔ _
    rw [emplace_eq_insert hnone, find?_insert]
    split_ifs with heq
    · rw [heq, hnone, Option.some_inj]
      refine ⟨fun h => .inr (by rw [← h]), fun h => ?_⟩
      rcases h with h | h
      · cases h
      · rw [← h]
    · exact ⟨.inl, fun h => h.resolve_right fun h => heq (congrArg Prod.fst h)⟩

theorem find?_removeDrbs {sc sc' : SessionAndContext} {drbIds : List DrbId}
    (hrun : drbIds.foldlM removeDrb sc = .ok sc') (drbId : DrbId) (drb : UpDrbContext) :
    sc'.1.drbs.find? drbId = some drb ↔ sc.1.drbs.find? drbId = some drb ∧ drbId ∉ drbIds := by
  induction drbIds generalizing sc with
  | nil =>
    cases hrun
    exact ⟨fun h => ⟨h, List.not_mem_nil⟩, And.left⟩
  | cons d drbIds ih =>
    rw [List.foldlM_cons] at hrun
    obtain ⟨sc₁, hfirst, hrun⟩ := bind_eq_ok.mp hrun
    obtain ⟨b, -, rfl⟩ := removeDrb_eq_ok hfirst
    rw [ih hrun, List.mem_cons, not_or]
    show (sc.1.drbs.erase d).find? drbId = _ ∧ _ ↔ _
    rw [find?_erase]
    split_ifs with heq
    · exact iff_of_false (fun h => by cases h.1) (fun h => h.2.1 heq)
    · exact ⟨fun h => ⟨h.1, heq, h.2⟩, fun h => ⟨h.1, h.2.2⟩⟩

theorem find?_addedSessions {psi : PduSessionId} {session' : UpPduSessionContext}
    (hids : (sessions.map UpPduSessionContextUpdate.id).Nodup)
    (hnew : ∀ session ∈ sessions, context.pduSessions.find? session.id = none) (h : Ready context (drbsOf sessions))
    (hfind : (sessions.foldl applyAdded context).pduSessions.find? psi = some session') :
    context.pduSessions.find? psi = some session' ∨ ∃ session ∈ sessions, session.id = psi ∧
      ∀ drbId drb, session'.drbs.find? drbId = some drb ↔ (drbId, drb) ∈ session.drbToAdd.entries := by
  induction sessions generalizing context with
  | nil => exact .inl hfind
  | cons session sessions ih =>
    rw [List.forall_mem_cons] at hnew
    obtain ⟨hnin, hnodup⟩ := List.nodup_cons.mp hids
    rcases ih hnodup (applyAdded_new hnew hnin) (h.applyAdded hnew.1) hfind with hold | ⟨other, hother, hid, hdrbs⟩
    · by_cases hpsi : psi = session.id
      · refine .inr ⟨session, List.mem_cons_self, hpsi.symm, fun drbId drb => ?_⟩
        have hframe := (addDrbs_frame session.drbToAdd.entries (⟨session.id, .empty, session.protection⟩, context)).2
        rw [applyAdded_eq hnew.1, find?_whole, if_pos (hpsi.trans hframe.symm)] at hold
        cases hold
        rw [find?_addDrbs (h.newSession hnew.1)]
        exact ⟨fun h => h.resolve_left fun h => (by cases h), .inr⟩
      · rw [applyAdded_find? hnew.1 hpsi] at hold
        exact .inl hold
    · exact .inr ⟨other, List.mem_cons_of_mem _ hother, hid, hdrbs⟩

theorem find?_applyModified {session : UpPduSessionContextUpdate} (h : Ready context (session.drbToAdd.entries ++ rest))
    (hrun : applyModified context session = .ok context') :
    ∃ old session', context.pduSessions.find? session.id = some old ∧
      context'.pduSessions.find? session.id = some session' ∧
      ∀ drbId drb, session'.drbs.find? drbId = some drb ↔
        (old.drbs.find? drbId = some drb ∨ (drbId, drb) ∈ session.drbToAdd.entries) ∧ drbId ∉ session.drbToRemove := by
  obtain ⟨old, sc, hold, hsc, rfl⟩ := applyModified_eq_ok hrun
  refine ⟨old, sc.1, hold, ?_, fun drbId drb => ?_⟩
  · rw [find?_insert, if_pos rfl]
  · rw [find?_removeDrbs hsc, find?_addDrbs]
    rw [whole_of_find? h.wf hold]
    exact h

theorem find?_modifiedSessions {psi : PduSessionId} {session' : UpPduSessionContext}
    (hids : (sessions.map UpPduSessionContextUpdate.id).Nodup) (h : Ready context (drbsOf sessions))
    (hrun : sessions.foldlM applyModified context = .ok context')
    (hfind : context'.pduSessions.find? psi = some session') :
    context.pduSessions.find? psi = some session' ∧ psi ∉ sessions.map UpPduSessionContextUpdate.id ∨
      ∃ session ∈ sessions, session.id = psi ∧ ∃ old, context.pduSessions.find? psi = some old ∧
        ∀ drbId drb, session'.drbs.find? drbId = some drb ↔
          (old.drbs.find? drbId = some drb ∨ (drbId, drb) ∈ session.drbToAdd.entries) ∧
            drbId ∉ session.drbToRemove := by
  induction sessions generalizing context with
  | nil =>
    cases hrun
    exact .inl ⟨hfind, List.not_mem_nil⟩
  | cons session sessions ih =>
    rw [List.foldlM_cons] at hrun
    obtain ⟨context₁, hfirst, hrun⟩ := bind_eq_ok.mp hrun
    obtain ⟨hnin, hnodup⟩ := List.nodup_cons.mp hids
    obtain ⟨old, new, hold, hnew, hdrbs⟩ := find?_applyModified h hfirst
    rcases ih hnodup (h.applyModified hfirst) hrun with ⟨hsame, hout⟩ | ⟨other, hother, hid, old', hold', hdrbs'⟩
    · by_cases hpsi : psi = session.id
      · rw [hpsi, hnew] at hsame
        cases hsame
        exact .inr ⟨session, List.mem_cons_self, hpsi.symm, old, hpsi ▸ hold, hdrbs⟩
      · rw [applyModified_frame hfirst hpsi] at hsame
        exact .inl ⟨hsame, List.not_mem_cons_of_ne_of_not_mem hpsi hout⟩
    · have hpsi : psi ≠ session.id := fun heq => hnin (heq ▸ hid ▸ List.mem_map_of_mem hother)
      rw [applyModified_frame hfirst hpsi] at hold'
      exact .inr ⟨other, List.mem_cons_of_mem _ hother, hid, old', hold', hdrbs'⟩

theorem find?_removedSessions {psis : List PduSessionId} {psi : PduSessionId} {session : UpPduSessionContext}
    (hrun : psis.foldlM applyRemoved context = .ok context') (hfind : context'.pduSessions.find? psi = some session) :
    context.pduSessions.find? psi = some session := by
  refine foldlM_inv (fun c => ∀ session, c.pduSessions.find? psi = some session →
    context.pduSessions.find? psi = some session) (fun c psi' c' _ hstep hc session hfind => ?_) hrun (fun _ h => h)
    session hfind
  by_cases hpsi : psi = psi'
  · obtain ⟨old, -, rfl⟩ := applyRemoved_eq_ok hstep
    rw [find?_erase, if_pos hpsi] at hfind
    cases hfind
  · rw [applyRemoved_frame hstep hpsi] at hfind
    exact hc session hfind

end Contents

section Counts

theorem subSizeT_eq {a b : Nat} (h : b ≤ a) (ha : a < 2 ^ 64) : subSizeT a b = a - b := by
  rw [subSizeT]
  lia

theorem size_le_length {κ α : Type} [LinearOrder κ] {m : OrderedMap κ α} {l : List κ} (h : ∀ k ∈ m.keys, k ∈ l) :
    m.size ≤ l.length := by
  have hle := (m.nodup_keys.subperm h).length_le
  rwa [keys, List.length_map] at hle

theorem Grows.size_le {drbIds : List DrbId} (h : Grows context drbIds context') :
    context'.getNofDrbs ≤ context.getNofDrbs + drbIds.length := by
  have hle := size_le_length (l := context.drbMap.keys ++ drbIds) fun d hin => List.mem_append.mpr (h.drbs d hin)
  rwa [List.length_append, keys, List.length_map] at hle

theorem nofUsed_le (context : UpContext) : context.getNofUsedDrbIds ≤ maxNofDrbs := by
  have hle := Finset.card_le_univ context.usedDrbIds
  rwa [Fintype.card_fin] at hle

theorem available_eq (context : UpContext) :
    context.getNofAvailableDrbIds = maxNofDrbs - context.getNofUsedDrbIds :=
  subSizeT_eq (nofUsed_le context) (by decide)

theorem FreshDrbs.length_le {drbs : List DrbEntry} (h : FreshDrbs context drbs) :
    drbs.length ≤ context.getNofAvailableDrbIds := by
  have hdisjoint : Disjoint (drbs.map Prod.fst).toFinset context.usedDrbIds := by
    rw [Finset.disjoint_left]
    intro drbId hin
    obtain ⟨e, he, rfl⟩ := List.mem_map.mp (List.mem_toFinset.mp hin)
    exact (h.unused e he).2
  have hle := Finset.card_le_univ ((drbs.map Prod.fst).toFinset ∪ context.usedDrbIds)
  rw [Finset.card_union_of_disjoint hdisjoint, List.toFinset_card_of_nodup h.ids, List.length_map, Fintype.card_fin] at hle
  rw [available_eq, UpContext.getNofUsedDrbIds]
  omega

theorem entries_sublist_drbsOf {session : UpPduSessionContextUpdate} {sessions : List UpPduSessionContextUpdate}
    (h : session ∈ sessions) : session.drbToAdd.entries.Sublist (drbsOf sessions) := by
  induction sessions with
  | nil => cases h
  | cons other sessions ih =>
    rw [drbsOf, List.flatMap_cons]
    rcases List.mem_cons.mp h with rfl | h
    · exact List.sublist_append_left _ _
    · exact (ih h).trans (List.sublist_append_right _ _)

theorem nofDrbs_le_nofUsed (h : context.Wf) : context.getNofDrbs ≤ context.getNofUsedDrbIds := by
  have hle := size_le_length (l := context.usedDrbIds.toList) fun d hin => Finset.mem_toList.mpr (h.used d hin)
  rwa [Finset.length_toList] at hle

theorem keyRefreshUseful_of_few {cfg : UpResourceManagerCfg} (h : context.Wf) (hmax : cfg.maxNofDrbsPerUe ≤ maxNofDrbs)
    (hlimit : context.getNofDrbs ≤ cfg.maxNofDrbsPerUe)
    (hfew : maxNofDrbs - context.getNofUsedDrbIds < min (cfg.maxNofDrbsPerUe - context.getNofDrbs) 8) :
    keyRefreshUseful cfg context = true := by
  have hused := nofUsed_le context
  have hdrbs := nofDrbs_le_nofUsed h
  have hids : maxNofDrbs = 29 := rfl
  have hstale : context.getNofStaleDrbIds = context.getNofUsedDrbIds - context.getNofDrbs :=
    subSizeT_eq hdrbs (hused.trans_lt (by decide))
  have hneeded : nofDrbsNeeded cfg context = min (cfg.maxNofDrbsPerUe - context.getNofDrbs) 8 := by
    rw [nofDrbsNeeded, subSizeT_eq hlimit (hmax.trans_lt (by decide))]
  have hsum : (context.getNofUsedDrbIds - context.getNofDrbs + (maxNofDrbs - context.getNofUsedDrbIds)) % 2 ^ 64 =
      maxNofDrbs - context.getNofDrbs := by
    rw [Nat.mod_eq_of_lt] <;> omega
  rw [keyRefreshUseful, available_eq, hstale, hneeded, hsum, Bool.and_eq_true, decide_eq_true_iff, decide_eq_true_iff]
  exact ⟨hfew, by omega⟩

end Counts

section Allocation

/-- The context of a UE, and the DRB ids that it was given since its key changed. -/
structure Allocation where
  context : UpContext
  assigned : List DrbId

def newDrbIds (result : UpConfigUpdateResult) : List DrbId :=
  (drbsOf result.pduSessionsAddedList).map Prod.fst ++ (drbsOf result.pduSessionsModifiedList).map Prod.fst

def allocationStep (cfg : UpResourceManagerCfg) (a : Allocation) (event : UpEvent) : Except UpFault Allocation := do
  let result ← event.result cfg a.context
  let context ← upStep cfg a.context event
  match event with
  | .keyChange => pure ⟨context, context.drbMap.keys⟩
  | _ => pure ⟨context, a.assigned ++ newDrbIds result⟩

def OneDefault (drbs : OrderedMap DrbId UpDrbContext) : Prop :=
  ∃! drbId, ∃ drb, drbs.find? drbId = some drb ∧ drb.defaultDrb = true

theorem OneDefault.any {drbs : OrderedMap DrbId UpDrbContext} (h : OneDefault drbs) :
    (drbs.values.any fun drb => drb.defaultDrb) = true := by
  obtain ⟨drbId, ⟨drb, hdrb, hdefault⟩, -⟩ := h
  exact List.any_eq_true.mpr ⟨drb, mem_values.mpr ⟨drbId, hdrb⟩, hdefault⟩

structure Allocation.Correct (cfg : UpResourceManagerCfg) (a : Allocation) : Prop where
  once : a.assigned.Nodup
  alive : a.context.getNofDrbs ≤ cfg.maxNofDrbsPerUe
  oneDefault : ∀ psi session, a.context.pduSessions.find? psi = some session → session.drbs.size ≠ 0 →
    OneDefault session.drbs
  /-- The differences of the estimate are those of the numbers. -/
  available : a.context.getNofUsedDrbIds ≤ maxNofDrbs
  stale : a.context.getNofDrbs ≤ a.context.getNofUsedDrbIds
  refresh : maxNofDrbs - a.context.getNofUsedDrbIds < min (cfg.maxNofDrbsPerUe - a.context.getNofDrbs) 8 →
    keyRefreshUseful cfg a.context = true

/-- New flows that fit into the limit, as far as there are ids for them. -/
abbrev Fits (cfg : UpResourceManagerCfg) (context : UpContext) (nofFlows : Nat) : Prop :=
  context.getNofDrbs + min nofFlows context.getNofAvailableDrbIds ≤ cfg.maxNofDrbsPerUe

def KeepsDefault (cfg : UpResourceManagerCfg) (context : UpContext) (report : Report) (psi : PduSessionId)
    (item : ModifyItem) : Prop :=
  (∃ session drbId drb, context.pduSessions.find? psi = some session ∧ session.drbs.find? drbId = some drb ∧
    drb.defaultDrb = true ∧ ¬Released context report item drbId) ∨
  (item.newFlows context = [] ∨ cfg.maxNofDrbsPerUe ≤ context.getNofDrbs) ∧
    ∀ session, context.pduSessions.find? psi = some session → ∀ drbId ∈ session.drbs.keys,
      Released context report item drbId

/-- A setup gives each session at most the one default DRB, which is only made while the UE has no DRB; a modification
leaves the default DRB where it is; and the flows of a request fit into the limit. -/
def WithinLimits (cfg : UpResourceManagerCfg) (a : Allocation) : UpEvent → Prop
  | .setup items _ _ => items.isValid a.context cfg = true → cfg.maxNofDrbsPerUe ≤ a.context.getNofDrbs ∨
    Fits cfg a.context (items.values.flatMap fun item => item.qosFlowSetupRequestItems.keys).length ∧
      ∀ item ∈ items.values, min item.qosFlowSetupRequestItems.size a.context.getNofAvailableDrbIds ≤
        if a.context.getNofDrbs = 0 then 1 else 0
  | .modify pdu report => pdu.isValid a.context cfg = true →
    (cfg.maxNofDrbsPerUe ≤ a.context.getNofDrbs ∨
      Fits cfg a.context (pdu.values.flatMap fun item => item.newFlows a.context).length) ∧
      ∀ psi item, pdu.find? psi = some item → report.session psi = false ∨ KeepsDefault cfg a.context report psi item
  | .release _ _ => True
  | .keyChange => True

structure Allocation.Inv (cfg : UpResourceManagerCfg) (a : Allocation) : Prop where
  wf : a.context.Wf
  once : a.assigned.Nodup
  used : ∀ drbId, drbId ∈ a.context.usedDrbIds ↔ drbId ∈ a.assigned
  alive : a.context.getNofDrbs ≤ cfg.maxNofDrbsPerUe
  oneDefault : ∀ psi session, a.context.pduSessions.find? psi = some session → session.drbs.size ≠ 0 →
    OneDefault session.drbs

theorem Allocation.Inv.correct {a : Allocation} (h : a.Inv cfg) (hmax : cfg.maxNofDrbsPerUe ≤ maxNofDrbs) :
    a.Correct cfg where
  once := h.once
  alive := h.alive
  oneDefault := h.oneDefault
  available := nofUsed_le a.context
  stale := nofDrbs_le_nofUsed h.wf
  refresh hfew := keyRefreshUseful_of_few h.wf hmax h.alive hfew

variable {a : Allocation} {sessions : List UpPduSessionContextUpdate}

theorem Allocation.Inv.grow (h : a.Inv cfg) (drbs : List DrbEntry) (hwf : context'.Wf)
    (hgrows : Grows a.context (drbs.map Prod.fst) context') (hfresh : FreshDrbs a.context drbs)
    (hlimit : a.context.getNofDrbs + drbs.length ≤ cfg.maxNofDrbsPerUe)
    (hdefault : ∀ psi session, context'.pduSessions.find? psi = some session → session.drbs.size ≠ 0 →
      OneDefault session.drbs) : Allocation.Inv cfg ⟨context', a.assigned ++ drbs.map Prod.fst⟩ where
  wf := hwf
  once := by
    refine h.once.append hfresh.ids fun drbId hin hnew => ?_
    obtain ⟨e, he, rfl⟩ := List.mem_map.mp hnew
    exact (hfresh.unused e he).2 ((h.used e.1).mpr hin)
  used drbId := by
    rw [hgrows.used, h.used, List.mem_append]
  alive := by
    have hle := hgrows.size_le
    rw [List.length_map] at hle
    exact hle.trans hlimit
  oneDefault := hdefault

theorem drbsOf_eq_nil (h : ∀ session ∈ sessions, session.drbToAdd.size = 0) : drbsOf sessions = [] :=
  List.flatMap_eq_nil_iff.mpr fun session hin => List.length_eq_zero_iff.mp (h session hin)

theorem fits_length {n : Nat} {drbs : List DrbEntry} (h : Fits cfg context n) (hn : drbs.length ≤ n)
    (hfresh : FreshDrbs context drbs) : context.getNofDrbs + drbs.length ≤ cfg.maxNofDrbsPerUe :=
  (Nat.add_le_add_left (Nat.le_min.mpr ⟨hn, hfresh.length_le⟩) _).trans h

theorem size_ne_zero {drbs : OrderedMap DrbId UpDrbContext} (h : drbs.size ≠ 0) :
    ∃ drbId drb, drbs.find? drbId = some drb := by
  by_contra hnone
  push Not at hnone
  exact h (size_eq_zero.mpr fun drbId => Option.eq_none_iff_forall_not_mem.mpr (hnone drbId))

abbrev OneDefaultEach (context : UpContext) : Prop :=
  ∀ psi session, context.pduSessions.find? psi = some session → session.drbs.size ≠ 0 → OneDefault session.drbs

theorem oneDefault_addedSessions {items : SetupItems} (hof : SetupResult cfg context items sessions) (hwf : context.Wf)
    (hold : OneDefaultEach context)
    (hitems : ∀ item ∈ items.values, min item.qosFlowSetupRequestItems.size context.getNofAvailableDrbIds ≤
      if context.getNofDrbs = 0 then 1 else 0) : OneDefaultEach (sessions.foldl applyAdded context) := by
  intro psi session' hfind hsize
  rcases find?_addedSessions hof.ids hof.new (hof.fresh.ready hwf) hfind with hfind | ⟨session, hin, -, hdrbs⟩
  · exact hold psi session' hfind hsize
  · obtain ⟨drbId, drb, hdrb⟩ := size_ne_zero hsize
    have hentry := (hdrbs drbId drb).mp hdrb
    have hfresh := hof.fresh.sublist (entries_sublist_drbsOf hin)
    obtain ⟨-, item, hitem, hle⟩ := hof.session session hin
    have hone : session.drbToAdd.entries.length ≤ if context.getNofDrbs = 0 then 1 else 0 :=
      (Nat.le_min.mpr ⟨hle, hfresh.length_le⟩).trans (hitems item (mem_values.mpr ⟨_, hitem⟩))
    have hpos := List.length_pos_of_mem hentry
    split_ifs at hone with hzero
    · obtain ⟨e, he⟩ := List.length_eq_one_iff.mp (Nat.le_antisymm hone hpos)
      rw [he, List.mem_singleton] at hentry
      have hdefault : drb.defaultDrb = true := by
        rw [← show e.2 = drb by rw [← hentry], hfresh.default e (he ▸ List.mem_singleton_self e)]
        exact decide_eq_true hzero
      refine ⟨drbId, ⟨drb, hdrb, hdefault⟩, ?_⟩
      rintro drbId' ⟨drb', hdrb', -⟩
      have hentry' := (hdrbs drbId' drb').mp hdrb'
      rw [he, List.mem_singleton, ← hentry] at hentry'
      exact congrArg Prod.fst hentry'
    · exact absurd hpos (by omega)

theorem oneDefault_modifiedSessions {pdu : ModifyRequest} {report : Report}
    (hof : ModifyResult cfg context pdu report sessions) (hwf : context.Wf) (hold : OneDefaultEach context)
    (hkeeps : ∀ psi item, pdu.find? psi = some item → report.session psi = false ∨ KeepsDefault cfg context report psi item)
    (hrun : sessions.foldlM applyModified context = .ok context') : OneDefaultEach context' := by
  intro psi session' hfind hsize
  rcases find?_modifiedSessions hof.ids (hof.fresh.ready hwf) hrun hfind with
    ⟨hfind, -⟩ | ⟨session, hin, rfl, old, hfindOld, hdrbs⟩
  · exact hold psi session' hfind hsize
  · obtain ⟨hreported, item, hitem, hroom, hle, hremoved⟩ := hof.session session hin
    have hfresh := hof.fresh.sublist (entries_sublist_drbsOf hin)
    rcases hkeeps _ item hitem with hnot | ⟨s, drbId, drb, hs, hdrb, hdefault, hstays⟩ | ⟨hnone, hgoes⟩
    · exact absurd (hreported.symm.trans hnot) (by decide)
    · rw [hfindOld] at hs
      cases hs
      have hkey : drbId ∈ old.drbs.keys := mem_keys.mpr ⟨drb, hdrb⟩
      have hmapped := (hwf.drbs drbId session.id).mpr ⟨old, hfindOld, hkey⟩
      have hsome : context.drbMap.size ≠ 0 := by
        intro hzero
        rw [size_eq_zero.mp hzero] at hmapped
        cases hmapped
      have hstay : session'.drbs.find? drbId = some drb :=
        (hdrbs drbId drb).mpr ⟨.inl hdrb, fun h => hstays ((hremoved drbId).mp h)⟩
      have hunique := hold _ old hfindOld fun hzero => by
        rw [size_eq_zero.mp hzero] at hdrb
        cases hdrb
      refine ⟨drbId, ⟨drb, hstay, hdefault⟩, ?_⟩
      rintro drbId' ⟨drb', hdrb', hdefault'⟩
      rcases ((hdrbs drbId' drb').mp hdrb').1 with hdrb' | hnew
      · exact hunique.unique ⟨drb', hdrb', hdefault'⟩ ⟨drb, hdrb, hdefault⟩
      · rw [hfresh.default _ hnew] at hdefault'
        exact absurd (of_decide_eq_true hdefault') hsome
    · have hnil : session.drbToAdd.size = 0 := by
        rcases hnone with hnil | hfull
        · rw [hnil] at hle
          exact Nat.le_zero.mp hle
        · exact hroom.resolve_right (not_lt.mpr hfull)
      obtain ⟨drbId, drb, hdrb⟩ := size_ne_zero hsize
      obtain ⟨hdrb, hout⟩ := (hdrbs drbId drb).mp hdrb
      rcases hdrb with hdrb | hnew
      · exact absurd ((hremoved drbId).mpr (hgoes old hfindOld drbId (mem_keys.mpr ⟨drb, hdrb⟩))) hout
      · rw [List.length_eq_zero_iff.mp hnil] at hnew
        cases hnew

theorem oneDefault_same {psis : List PduSessionId} (hold : OneDefaultEach context)
    (hrun : psis.foldlM applyRemoved context = .ok context') : OneDefaultEach context' :=
  fun psi session hfind => hold psi session (find?_removedSessions hrun hfind)

theorem allocationStep_eq_ok {event : UpEvent} {a' : Allocation} (h : allocationStep cfg a event = .ok a') :
    ∃ result context₁, event.result cfg a.context = .ok result ∧ applyConfigUpdate result a.context = .ok context₁ ∧
      upStep cfg a.context event = .ok a'.context ∧
      (a' = ⟨context₁, a.assigned ++ newDrbIds result⟩ ∨
        a' = ⟨context₁.refreshDrbIdAfterKeyChange, context₁.drbMap.keys⟩ ∧ result = ⟨[], [], []⟩) := by
  obtain ⟨result, hresult, h⟩ := bind_eq_ok.mp h
  obtain ⟨context₂, hstep, h⟩ := bind_eq_ok.mp h
  have hstep' := hstep
  rw [upStep, hresult, ok_bind] at hstep'
  obtain ⟨context₁, happly, hstep'⟩ := bind_eq_ok.mp hstep'
  cases event with
  | keyChange =>
    cases hstep'
    cases h
    cases hresult
    exact ⟨_, context₁, rfl, happly, hstep, .inr ⟨rfl, rfl⟩⟩
  | _ =>
    cases hstep'
    cases h
    exact ⟨result, _, hresult, happly, hstep, .inl rfl⟩

theorem Allocation.Inv.setup {items : SetupItems} {protection : Protection} {report : Report} {update : UpConfigUpdate}
    (h : a.Inv cfg) (hvalid : items.isValid a.context cfg = true)
    (hadm : WithinLimits cfg a (.setup items protection report))
    (hupdate : calculateSetup items protection a.context cfg = .ok update)
    (happly : applyConfigUpdate (report.result update) a.context = .ok context') :
    Allocation.Inv cfg ⟨context', a.assigned ++ newDrbIds (report.result update)⟩ := by
  obtain ⟨hadded, hof, -⟩ := setup_result report hvalid hupdate
  rw [hadded, applyAdded_result] at happly
  cases happly
  have hready := (addedSessions_ready hof.ids hof.new (hof.fresh.ready h.wf)).1
  rw [show newDrbIds (report.result update) =
    (drbsOf (report.result update).pduSessionsAddedList).map Prod.fst by rw [hadded]; exact List.append_nil _]
  rcases hadm hvalid with hfull | ⟨hfits, hitems⟩
  · have hnil : (report.result update).pduSessionsAddedList = [] :=
      List.eq_nil_iff_forall_not_mem.mpr fun session hin => absurd (hof.session session hin).1 (not_lt.mpr hfull)
    rw [hnil]
    exact h.grow [] h.wf (Grows.refl a.context) FreshDrbs.nil h.alive h.oneDefault
  · exact h.grow _ hready.wf (grows_addedSessions _ a.context) hof.fresh (fits_length hfits hof.length hof.fresh)
      (oneDefault_addedSessions hof h.wf h.oneDefault hitems)

theorem Allocation.Inv.modify {pdu : ModifyRequest} {report : Report} {update : UpConfigUpdate}
    (h : a.Inv cfg) (hvalid : pdu.isValid a.context cfg = true) (hadm : WithinLimits cfg a (.modify pdu report))
    (hupdate : calculateModify pdu a.context cfg = .ok update)
    (happly : applyConfigUpdate (report.result update) a.context = .ok context') :
    Allocation.Inv cfg ⟨context', a.assigned ++ newDrbIds (report.result update)⟩ := by
  obtain ⟨hmodified, hof, -⟩ := modify_result report hvalid h.wf.oneFlow hupdate
  rw [hmodified, applyModified_result] at happly
  have hready := (modifiedSessions_ready happly (hof.fresh.ready h.wf)).1
  obtain ⟨hfits, hkeeps⟩ := hadm hvalid
  have hlimit : a.context.getNofDrbs + (drbsOf (report.result update).pduSessionsModifiedList).length ≤
      cfg.maxNofDrbsPerUe := by
    rcases hfits with hfull | hfits
    · rw [drbsOf_eq_nil]
      · exact h.alive
      · intro session hin
        obtain ⟨-, item, -, hroom, -⟩ := hof.session session hin
        exact hroom.resolve_right (not_lt.mpr hfull)
    · exact fits_length hfits hof.length hof.fresh
  rw [show newDrbIds (report.result update) =
    (drbsOf (report.result update).pduSessionsModifiedList).map Prod.fst by rw [hmodified]; rfl]
  exact h.grow _ hready.wf (grows_modifiedSessions happly) hof.fresh hlimit
    (oneDefault_modifiedSessions hof h.wf h.oneDefault hkeeps happly)

theorem Allocation.Inv.step {event : UpEvent} {a' : Allocation} (h : a.Inv cfg) (hadm : WithinLimits cfg a event)
    (hstep : allocationStep cfg a event = .ok a') : a'.Inv cfg := by
  obtain ⟨result, context₁, hresult, happly, -, ha'⟩ := allocationStep_eq_ok hstep
  have hempty : result = ⟨[], [], []⟩ → Allocation.Inv cfg ⟨context₁, a.assigned ++ newDrbIds result⟩ := by
    rintro rfl
    cases happly
    exact h.grow [] h.wf (Grows.refl a.context) FreshDrbs.nil h.alive h.oneDefault
  rcases ha' with rfl | ⟨rfl, hnil⟩
  · cases event with
    | setup items protection report =>
      rw [UpEvent.result] at hresult
      split_ifs at hresult with hvalid
      · obtain ⟨update, hupdate, rfl⟩ := map_eq_ok.mp hresult
        exact h.setup hvalid hadm hupdate happly
      · cases hresult
        exact hempty rfl
    | modify pdu report =>
      rw [UpEvent.result] at hresult
      split_ifs at hresult with hvalid
      · obtain ⟨update, hupdate, rfl⟩ := map_eq_ok.mp hresult
        exact h.modify hvalid hadm hupdate happly
      · cases hresult
        exact hempty rfl
    | release pdu report =>
      rw [UpEvent.result] at hresult
      split_ifs at hresult with hvalid
      · obtain ⟨update, hupdate, rfl⟩ := map_eq_ok.mp hresult
        rw [release_result hupdate] at happly ⊢
        rw [applyRemoved_result] at happly
        have hready := (removedSessions_ready happly (FreshDrbs.nil.ready h.wf)).1
        exact h.grow [] hready.wf (grows_removedSessions happly) FreshDrbs.nil h.alive
          (oneDefault_same h.oneDefault happly)
      · cases hresult
        exact hempty rfl
    | keyChange =>
      cases hresult
      exact hempty rfl
  · have hinv := hempty hnil
    exact
      { wf := wf_refresh hinv.wf
        once := context₁.drbMap.nodup_keys
        used := fun _ => List.mem_toFinset
        alive := hinv.alive
        oneDefault := hinv.oneDefault }

theorem allocation_inv_empty (cfg : UpResourceManagerCfg) : Allocation.Inv cfg ⟨.empty, []⟩ where
  wf := wf_empty
  once := .nil
  used _ := iff_of_false (Finset.notMem_empty _) List.not_mem_nil
  alive := Nat.zero_le _
  oneDefault _ _ h := by cases h

/-- In a run whose requests are within the limits, the DRBs of each state reached are allocated as they should be. -/
theorem run_allocation_correct (cfg : UpResourceManagerCfg) (events : List UpEvent)
    (hmax : cfg.maxNofDrbsPerUe ≤ maxNofDrbs)
    (hadm : Machine.Admits (allocationStep cfg) (WithinLimits cfg) ⟨.empty, []⟩ events) :
    ∀ a, Machine.run (allocationStep cfg) ⟨.empty, []⟩ events = .ok a → a.Correct cfg := by
  intro a hrun
  have hinv := Machine.run_invariant (fun a : Allocation => a.Inv cfg)
    (fun _ _ _ h hadm hstep => h.step hadm hstep) (allocation_inv_empty cfg) hadm hrun
  exact hinv.correct hmax

theorem run_allocation_correct_session : ∃ a,
    Machine.run (allocationStep (exampleCfg 8)) ⟨.empty, []⟩ [setupOf 1 [5], releaseOf 1, .keyChange] = .ok a ∧
      a.Correct (exampleCfg 8) := by
  refine ⟨_, rfl, run_allocation_correct (exampleCfg 8) [setupOf 1 [5], releaseOf 1, .keyChange] (by decide) ?_ _ rfl⟩
  refine ⟨fun _ => .inr ⟨by decide, ?_⟩, fun _ _ => ⟨trivial, fun _ _ => ⟨trivial, fun _ _ => trivial⟩⟩⟩
  decide

/-- A request of nine flows passes a limit of eight, and the estimate underflows; and a session has two default DRBs,
or none. -/
theorem limits_exceeded :
    (∃ a, Machine.run (allocationStep (exampleCfg 8)) ⟨.empty, []⟩ [setupOf 1 [1, 2, 3, 4, 5, 6, 7, 8, 9]] = .ok a ∧
      a.context.getNofDrbs = 9 ∧ nofDrbsNeeded (exampleCfg 8) a.context = 8 ∧ ¬a.Correct (exampleCfg 8)) ∧
    (∃ a, Machine.run (allocationStep (exampleCfg 8)) ⟨.empty, []⟩ [setupOf 1 [1, 2]] = .ok a ∧
      ¬a.Correct (exampleCfg 8)) ∧
    (∃ a, Machine.run (allocationStep (exampleCfg 8)) ⟨.empty, []⟩ [setupOf 1 [1], setupOf 2 [2]] = .ok a ∧
      ¬a.Correct (exampleCfg 8)) := by
  refine ⟨⟨_, rfl, by decide, by decide, fun h => absurd h.alive (by decide)⟩, ⟨_, rfl, fun h => ?_⟩,
    ⟨_, rfl, fun h => ?_⟩⟩
  · obtain ⟨drbId, -, hunique⟩ := h.oneDefault 1 _ rfl (by decide)
    have heq : (0 : DrbId) = 1 := (hunique 0 ⟨_, rfl, rfl⟩).trans (hunique 1 ⟨_, rfl, rfl⟩).symm
    exact absurd heq (by decide)
  · exact absurd (h.oneDefault 2 _ rfl (by decide)).any (by decide)

end Allocation

end Ocudu.CuCp
