import Ocudu.CuCp.UpApply

/-! Runs of the UP resource manager: what is kept in each of them, and when the maps describe the sessions. -/

namespace Ocudu.CuCp

open OrderedMap

variable {cfg : UpResourceManagerCfg} {context context' : UpContext}

section Results

variable {sessions : List UpPduSessionContextUpdate}

theorem applyAdded_find? {session : UpPduSessionContextUpdate} {psi : PduSessionId}
    (hnew : context.pduSessions.find? session.id = none) (hne : psi ≠ session.id) :
    (applyAdded context session).pduSessions.find? psi = context.pduSessions.find? psi := by
  obtain ⟨hsessions, hid⟩ := addDrbs_frame session.drbToAdd.entries (⟨session.id, .empty, session.protection⟩, context)
  rw [applyAdded_eq hnew, find?_whole, hid, if_neg hne, hsessions]

theorem applyAdded_new {session : UpPduSessionContextUpdate} (hnew : context.pduSessions.find? session.id = none ∧
    ∀ other ∈ sessions, context.pduSessions.find? other.id = none)
    (hnin : session.id ∉ sessions.map UpPduSessionContextUpdate.id) :
    ∀ other ∈ sessions, (applyAdded context session).pduSessions.find? other.id = none := by
  intro other hother
  rw [applyAdded_find? hnew.1 fun heq => hnin (heq ▸ List.mem_map_of_mem hother)]
  exact hnew.2 other hother

theorem addedSessions_ready (hids : (sessions.map UpPduSessionContextUpdate.id).Nodup)
    (hnew : ∀ session ∈ sessions, context.pduSessions.find? session.id = none) (h : Ready context (drbsOf sessions)) :
    Ready (sessions.foldl applyAdded context) [] ∧
      (FlowsReady context (drbsOf sessions) → FlowsReady (sessions.foldl applyAdded context) []) := by
  induction sessions generalizing context with
  | nil => exact ⟨h, id⟩
  | cons session sessions ih =>
    rw [List.forall_mem_cons] at hnew
    obtain ⟨hnin, hnodup⟩ := List.nodup_cons.mp hids
    obtain ⟨hready, hflows⟩ := ih hnodup (applyAdded_new hnew hnin) (h.applyAdded hnew.1)
    exact ⟨hready, fun hf => hflows (FlowsReady.applyAdded h hf hnew.1)⟩

theorem modifiedSessions_ready (hrun : sessions.foldlM applyModified context = .ok context')
    (h : Ready context (drbsOf sessions)) :
    Ready context' [] ∧ (FlowsReady context (drbsOf sessions) → FlowsReady context' []) := by
  induction sessions generalizing context with
  | nil =>
    cases hrun
    exact ⟨h, id⟩
  | cons session sessions ih =>
    rw [List.foldlM_cons] at hrun
    obtain ⟨context₁, hfirst, hrun⟩ := bind_eq_ok.mp hrun
    obtain ⟨hready, hflows⟩ := ih hrun (h.applyModified hfirst)
    exact ⟨hready, fun hf => hflows (FlowsReady.applyModified h hf hfirst)⟩

def RemovesOwn (context : UpContext) (session : UpPduSessionContextUpdate) : Prop :=
  session.drbToRemove.Nodup ∧ ∃ old, context.pduSessions.find? session.id = some old ∧
    ∀ drbId ∈ session.drbToRemove, drbId ∈ old.drbs.keys

theorem modifiedSessions_ok (hids : (sessions.map UpPduSessionContextUpdate.id).Nodup)
    (h : ∀ session ∈ sessions, RemovesOwn context session) :
    ∃ context', sessions.foldlM applyModified context = .ok context' := by
  induction sessions generalizing context with
  | nil => exact ⟨_, rfl⟩
  | cons session sessions ih =>
    rw [List.forall_mem_cons] at h
    obtain ⟨⟨hremove, old, hold, hin⟩, hrest⟩ := h
    obtain ⟨hnin, hnodup⟩ := List.nodup_cons.mp hids
    obtain ⟨context₁, hfirst⟩ := applyModified_ok hremove hold hin
    rw [List.foldlM_cons, hfirst, ok_bind]
    apply ih hnodup
    intro other hother
    obtain ⟨hremove', old', hold', hin'⟩ := hrest other hother
    refine ⟨hremove', old', ?_, hin'⟩
    rw [applyModified_frame hfirst fun heq => hnin (heq ▸ List.mem_map_of_mem hother)]
    exact hold'

theorem removedSessions_ready {psis : List PduSessionId} (hrun : psis.foldlM applyRemoved context = .ok context')
    (h : Ready context []) : Ready context' [] ∧ (FlowsReady context [] → FlowsReady context' []) := by
  refine foldlM_inv (fun c => Ready c [] ∧ (FlowsReady context [] → FlowsReady c [])) (fun c psi c' _ hstep hc => ?_)
    hrun ⟨h, id⟩
  obtain ⟨hready, hflows⟩ := applyRemoved_ready hc.1 hstep
  exact ⟨hready, fun hf => hflows (hc.2 hf)⟩

theorem removedSessions_ok {psis : List PduSessionId} (hnodup : psis.Nodup)
    (h : ∀ psi ∈ psis, psi ∈ context.pduSessions.keys) : ∃ context', psis.foldlM applyRemoved context = .ok context' := by
  induction psis generalizing context with
  | nil => exact ⟨_, rfl⟩
  | cons psi psis ih =>
    rw [List.forall_mem_cons] at h
    obtain ⟨hnin, hnodup⟩ := List.nodup_cons.mp hnodup
    obtain ⟨context₁, hfirst⟩ := applyRemoved_ok h.1
    rw [List.foldlM_cons, hfirst, ok_bind]
    apply ih hnodup
    intro other hother
    obtain ⟨session, hsession⟩ := mem_keys.mp (h.2 other hother)
    refine mem_keys.mpr ⟨session, ?_⟩
    rw [applyRemoved_frame hfirst fun heq => hnin (heq ▸ hother)]
    exact hsession

theorem drbsOf_keep_sublist (report : Report) (p : UpPduSessionContextUpdate → Bool)
    (sessions : List UpPduSessionContextUpdate) : (drbsOf ((sessions.filter p).map report.keep)).Sublist (drbsOf sessions) := by
  induction sessions with
  | nil => exact .refl _
  | cons session sessions ih =>
    rw [List.filter_cons]
    split_ifs
    · exact List.filter_sublist.append ih
    · exact ih.trans (List.sublist_append_right _ _)

theorem ids_keep_nodup {sessions : OrderedMap PduSessionId UpPduSessionContextUpdate} (report : Report)
    (p : UpPduSessionContextUpdate → Bool) (h : ∀ psi session, sessions.find? psi = some session → session.id = psi) :
    (((sessions.values.filter p).map report.keep).map UpPduSessionContextUpdate.id).Nodup := by
  have hkeys : sessions.values.map UpPduSessionContextUpdate.id = sessions.keys := by
    rw [values, keys, List.map_map]
    exact List.map_congr_left fun e he => h e.1 e.2 (find?_eq_some.mpr he)
  rw [List.map_map]
  exact (hkeys ▸ sessions.nodup_keys).sublist (List.filter_sublist.map UpPduSessionContextUpdate.id)

theorem mem_keep {sessions : OrderedMap PduSessionId UpPduSessionContextUpdate} {report : Report}
    {p : UpPduSessionContextUpdate → Bool} {session : UpPduSessionContextUpdate}
    (h : session ∈ (sessions.values.filter p).map report.keep) :
    ∃ psi session', sessions.find? psi = some session' ∧ p session' = true ∧ session = report.keep session' := by
  obtain ⟨session', hsession', rfl⟩ := List.mem_map.mp h
  obtain ⟨hin, hp⟩ := List.mem_filter.mp hsession'
  obtain ⟨psi, hpsi⟩ := mem_values.mp hin
  exact ⟨psi, session', hpsi, hp, rfl⟩

theorem FreshDrbs.ready {drbs : List DrbEntry} (h : FreshDrbs context drbs) (hwf : context.Wf) : Ready context drbs where
  wf := hwf
  ids := h.ids
  unused e he := (h.unused e he).1
  oneFlow := h.oneFlow

end Results

section Steps

variable {items : SetupItems} {protection : Protection} {update : UpConfigUpdate}

structure SetupResult (cfg : UpResourceManagerCfg) (context : UpContext) (items : SetupItems)
    (sessions : List UpPduSessionContextUpdate) : Prop where
  ids : (sessions.map UpPduSessionContextUpdate.id).Nodup
  new : ∀ session ∈ sessions, context.pduSessions.find? session.id = none
  fresh : FreshDrbs context (drbsOf sessions)
  length : (drbsOf sessions).length ≤ (items.values.flatMap fun item => item.qosFlowSetupRequestItems.keys).length
  session : ∀ session ∈ sessions, context.drbMap.size < cfg.maxNofDrbsPerUe ∧
    ∃ item, items.find? session.id = some item ∧ session.drbToAdd.size ≤ item.qosFlowSetupRequestItems.size

theorem size_filter_le {κ α : Type} [LinearOrder κ] (m : OrderedMap κ α) (p : κ → α → Bool) :
    (m.filter p).size ≤ m.size := List.length_filter_le _ _

theorem setup_result (report : Report) (hvalid : items.isValid context cfg = true)
    (h : calculateSetup items protection context cfg = .ok update) :
    report.result update = ⟨(report.result update).pduSessionsAddedList, [], []⟩ ∧
      SetupResult cfg context items (report.result update).pduSessionsAddedList ∧
        (OwnFlows context [] (items.values.flatMap fun item => item.qosFlowSetupRequestItems.keys) →
          OwnFlows context (drbsOf (report.result update).pduSessionsAddedList) []) := by
  obtain ⟨⟨initial, hadds⟩, hof⟩ := calculateSetup_eq_ok h
  have hdrbs : update.drbs = drbsOf update.pduSessionsToSetupList.values := by
    rw [UpConfigUpdate.drbs, hof.modify]
    exact List.append_nil _
  have hsublist := drbsOf_keep_sublist report (report.session ·.id) update.pduSessionsToSetupList.values
  rw [← hdrbs] at hsublist
  have hfresh : FreshDrbs context update.drbs := hadds.fresh FreshDrbs.nil
  have hlength := hadds.length_le
  rw [← List.flatMap_def] at hlength
  refine ⟨?_, ⟨?_, ?_, hfresh.sublist hsublist, ?_, ?_⟩, fun hown => ?_⟩
  · rw [Report.result, hof.modify, hof.remove]
    rfl
  · exact ids_keep_nodup report _ fun psi session hfind => (hof.session psi session hfind).1
  · intro session hin
    obtain ⟨psi, session', hfind, -, rfl⟩ := mem_keep hin
    obtain ⟨hid, -, item, hitem, -⟩ := hof.session psi session' hfind
    rw [SetupItems.isValid, Bool.and_eq_true, List.all_eq_true] at hvalid
    have hnew := hvalid.2 (psi, item) (find?_eq_some.mp hitem)
    rw [Bool.and_eq_true, Bool.not_eq_true', contains_eq_false] at hnew
    exact hid ▸ hnew.1
  · exact (hsublist.length_le.trans hlength).trans (Nat.zero_add _).le
  · intro session hin
    obtain ⟨psi, session', hfind, -, rfl⟩ := mem_keep hin
    obtain ⟨hid, hroom, item, hitem, hsize⟩ := hof.session psi session' hfind
    exact ⟨hroom, item, hid ▸ hitem, (size_filter_le _ _).trans hsize⟩
  · have hall : OwnFlows context update.drbs [] := by
      apply hadds.ownFlows
      rw [← List.flatMap_def, List.append_nil]
      exact hown
    exact hall.sublist ((hsublist.flatMap flowsOf).append_right [])

def Released (context : UpContext) (report : Report) (item : ModifyItem) (drbId : DrbId) : Prop :=
  report.drbRemoved drbId = true ∧
    ∃ qfi ∈ item.qosFlowToReleaseList.keys, context.qosFlowMap.find? qfi = some drbId

structure ModifyResult (cfg : UpResourceManagerCfg) (context : UpContext) (pdu : ModifyRequest) (report : Report)
    (sessions : List UpPduSessionContextUpdate) : Prop where
  ids : (sessions.map UpPduSessionContextUpdate.id).Nodup
  fresh : FreshDrbs context (drbsOf sessions)
  length : (drbsOf sessions).length ≤ (pdu.values.flatMap fun item => item.newFlows context).length
  removes : ∀ session ∈ sessions, RemovesOwn context session
  session : ∀ session ∈ sessions, report.session session.id = true ∧ ∃ item, pdu.find? session.id = some item ∧
    (session.drbToAdd.size = 0 ∨ context.drbMap.size < cfg.maxNofDrbsPerUe) ∧
    session.drbToAdd.size ≤ (item.newFlows context).length ∧
    ∀ drbId, drbId ∈ session.drbToRemove ↔ Released context report item drbId

theorem releases_biUnique (hone : OneFlow context) (psi : PduSessionId) : Relator.BiUnique (Releases context psi) := by
  constructor
  · rintro qfi qfi' drbId ⟨-, session, drb, hsession, hdrb, hin⟩ ⟨-, session', drb', hsession', hdrb', hin'⟩
    rw [hsession] at hsession'
    cases hsession'
    rw [hdrb] at hdrb'
    cases hdrb'
    obtain ⟨q, hq⟩ := hone _ _ _ _ hsession hdrb
    rw [hq, List.mem_singleton] at hin hin'
    rw [hin, hin']
  · rintro qfi drbId drbId' ⟨hmapped, -⟩ ⟨hmapped', -⟩
    rw [hmapped] at hmapped'
    exact Option.some_inj.mp hmapped'

theorem mem_forall₂_right {α β : Type} {R : α → β → Prop} {l : List α} {l' : List β} (h : List.Forall₂ R l l')
    (hR : Relator.RightUnique R) {b : β} : b ∈ l' ↔ ∃ a ∈ l, R a b := by
  induction h with
  | nil => exact iff_of_false List.not_mem_nil (fun ⟨_, h, _⟩ => List.not_mem_nil h)
  | cons hab _ ih =>
    rw [List.mem_cons, ih]
    constructor
    · rintro (rfl | ⟨a, ha, hR⟩)
      · exact ⟨_, List.mem_cons_self, hab⟩
      · exact ⟨a, List.mem_cons_of_mem _ ha, hR⟩
    · rintro ⟨a, ha, hab'⟩
      rcases List.mem_cons.mp ha with rfl | ha
      · exact .inl (hR hab' hab)
      · exact .inr ⟨a, ha, hab'⟩

theorem exists_forall₂_right {α β : Type} {R : α → β → Prop} {l : List α} {l' : List β} (h : List.Forall₂ R l l') {a : α}
    (ha : a ∈ l) : ∃ b, R a b := by
  induction h with
  | nil => cases ha
  | cons hab _ ih =>
    rcases List.mem_cons.mp ha with rfl | ha
    · exact ⟨_, hab⟩
    · exact ih ha

variable {pdu : ModifyRequest}

theorem modify_result (report : Report) (hvalid : pdu.isValid context cfg = true) (hone : OneFlow context)
    (h : calculateModify pdu context cfg = .ok update) :
    report.result update = ⟨[], (report.result update).pduSessionsModifiedList, []⟩ ∧
      ModifyResult cfg context pdu report (report.result update).pduSessionsModifiedList ∧
        (OwnFlows context [] (pdu.values.flatMap fun item => item.newFlows context) →
          OwnFlows context (drbsOf (report.result update).pduSessionsModifiedList) []) := by
  obtain ⟨hadds, hof⟩ := calculateModify_eq_ok hone h
  have hdrbs : update.drbs = drbsOf update.pduSessionsToModifyList.values := by
    rw [UpConfigUpdate.drbs, hof.setup]
    rfl
  have hsublist := drbsOf_keep_sublist report (report.session ·.id) update.pduSessionsToModifyList.values
  rw [← hdrbs] at hsublist
  have hfresh : FreshDrbs context update.drbs := hadds.fresh FreshDrbs.nil
  have hlength := hadds.length_le
  rw [← List.flatMap_def] at hlength
  refine ⟨?_, ⟨?_, hfresh.sublist hsublist, ?_, ?_, ?_⟩, fun hown => ?_⟩
  · rw [Report.result, hof.setup, hof.remove]
    rfl
  · exact ids_keep_nodup report _ fun psi session hfind => (hof.session psi session hfind).1
  · exact (hsublist.length_le.trans hlength).trans (Nat.zero_add _).le
  · intro session hin
    obtain ⟨psi, session', hfind, -, rfl⟩ := mem_keep hin
    obtain ⟨hid, item, hitem, -, -, hreleases⟩ := hof.session psi session' hfind
    refine ⟨((List.rel_nodup (releases_biUnique hone psi) hreleases).mp
      item.qosFlowToReleaseList.nodup_keys).sublist List.filter_sublist, ?_⟩
    rw [ModifyRequest.isValid, Bool.and_eq_true, List.all_eq_true] at hvalid
    have hitem := hvalid.2 (psi, item) (find?_eq_some.mp hitem)
    rw [Bool.and_eq_true, Bool.and_eq_true, Bool.and_eq_true] at hitem
    obtain ⟨old, hold⟩ := mem_keys.mp (contains_eq_true.mp hitem.1.1.1)
    refine ⟨old, hid ▸ hold, fun drbId hdrbId => ?_⟩
    obtain ⟨qfi, -, hreleased⟩ :=
      (mem_forall₂_right hreleases (releases_biUnique hone psi).2).mp (List.mem_filter.mp hdrbId).1
    obtain ⟨session, drb, hsession, hdrb, -⟩ := hreleased.carried
    rw [hold] at hsession
    cases hsession
    exact mem_keys.mpr ⟨drb, hdrb⟩
  · intro session hin
    obtain ⟨psi, session', hfind, hreported, rfl⟩ := mem_keep hin
    obtain ⟨hid, item, hitem, hroom, hsize, hreleases⟩ := hof.session psi session' hfind
    refine ⟨hreported, item, hid ▸ hitem, ?_, (size_filter_le _ _).trans hsize, ?_⟩
    · refine hroom.imp_left fun hzero => Nat.le_zero.mp ?_
      rw [← hzero]
      exact size_filter_le _ _
    · intro drbId
      rw [show (report.keep session').drbToRemove = session'.drbToRemove.filter report.drbRemoved from rfl,
        List.mem_filter, mem_forall₂_right hreleases (releases_biUnique hone psi).2, and_comm]
      refine and_congr_right fun _ => exists_congr fun qfi => and_congr_right fun hqfi => ⟨(·.mapped), fun hmapped => ?_⟩
      obtain ⟨drbId', hreleased⟩ := exists_forall₂_right hreleases hqfi
      have heq := hreleased.mapped
      rw [hmapped] at heq
      cases heq
      exact hreleased
  · have hall : OwnFlows context update.drbs [] := by
      apply hadds.ownFlows
      rw [← List.flatMap_def, List.append_nil]
      exact hown
    exact hall.sublist ((hsublist.flatMap flowsOf).append_right [])

theorem release_result {pdu : ReleaseCommand} {report : Report} (h : calculateRelease pdu context = .ok update) :
    report.result update = ⟨[], [], pdu.keys.filter report.session⟩ := by
  obtain ⟨hsetup, hmodify, hremove⟩ := calculateRelease_eq_ok h
  rw [Report.result, hsetup, hmodify, hremove]
  rfl

theorem applyAdded_result (added : List UpPduSessionContextUpdate) :
    applyConfigUpdate ⟨added, [], []⟩ context = .ok (added.foldl applyAdded context) := rfl

theorem applyModified_result (modified : List UpPduSessionContextUpdate) :
    applyConfigUpdate ⟨[], modified, []⟩ context = modified.foldlM applyModified context := by
  show (modified.foldlM applyModified context >>= fun c => .ok c) = _
  cases modified.foldlM applyModified context <;> rfl

theorem applyRemoved_result (removed : List PduSessionId) :
    applyConfigUpdate ⟨[], [], removed⟩ context = removed.foldlM applyRemoved context := rfl

theorem wf_refresh (h : context.Wf) : context.refreshDrbIdAfterKeyChange.Wf :=
  { h with used := fun _ hin => List.mem_toFinset.mpr hin }

/-- The QoS flows of a session are used by no other session, of the UE or of the request. -/
def Separate (cfg : UpResourceManagerCfg) (context : UpContext) : UpEvent → Prop
  | .setup items _ _ => items.isValid context cfg = true →
    (items.values.flatMap fun item => item.qosFlowSetupRequestItems.keys).Nodup ∧
      ∀ item ∈ items.values, ∀ qfi ∈ item.qosFlowSetupRequestItems.keys, context.qosFlowMap.find? qfi = none
  | .modify pdu _ => pdu.isValid context cfg = true →
    (pdu.values.flatMap fun item => item.newFlows context).Nodup ∧
      ∀ psi item, pdu.find? psi = some item → ∀ qfi ∈ item.qosFlowToReleaseList.keys, ∀ drbId,
        context.qosFlowMap.find? qfi = some drbId → context.drbMap.find? drbId = some psi
  | .release _ _ => True
  | .keyChange => True

variable {event : UpEvent}

theorem upStep_eq_ok (h : upStep cfg context event = .ok context') :
    ∃ result context₁, event.result cfg context = .ok result ∧ applyConfigUpdate result context = .ok context₁ ∧
      (context' = context₁ ∨ context' = context₁.refreshDrbIdAfterKeyChange) := by
  obtain ⟨result, hresult, h⟩ := bind_eq_ok.mp h
  obtain ⟨context₁, happly, h⟩ := bind_eq_ok.mp h
  refine ⟨result, context₁, hresult, happly, ?_⟩
  cases event with
  | keyChange =>
    cases h
    exact .inr rfl
  | _ =>
    cases h
    exact .inl rfl

theorem upStep_ok (result : UpConfigUpdateResult) (hresult : event.result cfg context = .ok result)
    (happly : ∃ context₁, applyConfigUpdate result context = .ok context₁) :
    ∃ context', upStep cfg context event = .ok context' := by
  obtain ⟨context₁, happly⟩ := happly
  rw [upStep, hresult, ok_bind, happly, ok_bind]
  cases event <;> exact ⟨_, rfl⟩

theorem ownFlows_nil (flows : List QosFlowId) (hnodup : flows.Nodup)
    (hnew : ∀ qfi ∈ flows, context.qosFlowMap.find? qfi = none) : OwnFlows context [] flows := ⟨hnodup, hnew⟩

theorem not_mapped_of_newFlows {item : ModifyItem} {qfi : QosFlowId} (h : qfi ∈ item.newFlows context) :
    context.qosFlowMap.find? qfi = none := by
  have hnew := (List.mem_filter.mp h).2
  rwa [Bool.not_eq_true', contains_eq_false] at hnew

theorem apply_ready {result : UpConfigUpdateResult} (hwf : context.Wf) (hresult : event.result cfg context = .ok result)
    (happly : applyConfigUpdate result context = .ok context') :
    Ready context' [] ∧ (FlowsMapped context → Separate cfg context event → FlowsReady context' []) := by
  have hnil : Ready context [] := FreshDrbs.nil.ready hwf
  have hsame (h : (pure ⟨[], [], []⟩ : Except UpFault UpConfigUpdateResult) = .ok result) :
      Ready context' [] ∧ (FlowsMapped context → Separate cfg context event → FlowsReady context' []) := by
    cases h
    cases happly
    exact ⟨hnil, fun hflows _ => ⟨hflows, .nil, fun _ h => by cases h⟩⟩
  cases event with
  | setup items protection report =>
    rw [UpEvent.result] at hresult
    split_ifs at hresult with hvalid
    · obtain ⟨update, hupdate, rfl⟩ := map_eq_ok.mp hresult
      obtain ⟨hadded, hof, hown⟩ := setup_result report hvalid hupdate
      rw [hadded, applyAdded_result] at happly
      cases happly
      obtain ⟨hready, hflows⟩ := addedSessions_ready hof.ids hof.new (hof.fresh.ready hwf)
      refine ⟨hready, fun hmapped hsep => hflows ⟨hmapped, hown (ownFlows_nil _ (hsep hvalid).1 ?_)⟩⟩
      intro qfi hqfi
      obtain ⟨item, hitem, hqfi⟩ := List.mem_flatMap.mp hqfi
      exact (hsep hvalid).2 item hitem qfi hqfi
    · exact hsame hresult
  | modify pdu report =>
    rw [UpEvent.result] at hresult
    split_ifs at hresult with hvalid
    · obtain ⟨update, hupdate, rfl⟩ := map_eq_ok.mp hresult
      obtain ⟨hmodified, hof, hown⟩ := modify_result report hvalid hwf.oneFlow hupdate
      rw [hmodified, applyModified_result] at happly
      obtain ⟨hready, hflows⟩ := modifiedSessions_ready happly (hof.fresh.ready hwf)
      refine ⟨hready, fun hmapped hsep => hflows ⟨hmapped, hown (ownFlows_nil _ (hsep hvalid).1 ?_)⟩⟩
      intro qfi hqfi
      obtain ⟨item, -, hqfi⟩ := List.mem_flatMap.mp hqfi
      exact not_mapped_of_newFlows hqfi
    · exact hsame hresult
  | release pdu report =>
    rw [UpEvent.result] at hresult
    split_ifs at hresult with hvalid
    · obtain ⟨update, hupdate, rfl⟩ := map_eq_ok.mp hresult
      rw [release_result hupdate, applyRemoved_result] at happly
      obtain ⟨hready, hflows⟩ := removedSessions_ready happly hnil
      exact ⟨hready, fun hmapped _ => hflows ⟨hmapped, .nil, fun _ h => by cases h⟩⟩
    · exact hsame hresult
  | keyChange => exact hsame hresult

theorem upStep_total (cfg : UpResourceManagerCfg) (hwf : context.Wf) (hflows : FlowsMapped context)
    (hsep : Separate cfg context event) :
    ∃ context', upStep cfg context event = .ok context' := by
  have hsame : ∃ context', applyConfigUpdate ⟨[], [], []⟩ context = .ok context' := ⟨context, rfl⟩
  cases event with
  | setup items protection report =>
    by_cases hvalid : items.isValid context cfg = true
    · obtain ⟨update, hupdate⟩ := calculateSetup_ok hvalid protection
      refine upStep_ok (report.result update) ?_ ?_
      · rw [UpEvent.result, if_pos hvalid, hupdate]
        rfl
      · rw [(setup_result report hvalid hupdate).1]
        exact ⟨_, rfl⟩
    · exact upStep_ok _ (if_neg hvalid) hsame
  | modify pdu report =>
    by_cases hvalid : pdu.isValid context cfg = true
    · have hreleases : ReleasesOwn context pdu := by
        intro psi item hitem qfi hqfi
        have hitem' := hvalid
        rw [ModifyRequest.isValid, Bool.and_eq_true, List.all_eq_true] at hitem'
        have hentry := hitem'.2 (psi, item) (find?_eq_some.mp hitem)
        rw [Bool.and_eq_true, Bool.and_eq_true, Bool.and_eq_true, List.all_eq_true] at hentry
        obtain ⟨drbId, hdrbId⟩ := mem_keys.mp (contains_eq_true.mp (hentry.1.2 qfi hqfi))
        have howner := (hsep hvalid).2 psi item hitem qfi hqfi drbId hdrbId
        obtain ⟨psi', hcarries⟩ := (hflows qfi drbId).mp hdrbId
        have hpsi := hcarries.drbMap hwf.drbs
        rw [howner] at hpsi
        cases hpsi
        exact ⟨drbId, hdrbId, hcarries⟩
      obtain ⟨update, hupdate⟩ := calculateModify_ok hvalid hreleases
      obtain ⟨hmodified, hof, -⟩ := modify_result report hvalid hwf.oneFlow hupdate
      refine upStep_ok (report.result update) ?_ ?_
      · rw [UpEvent.result, if_pos hvalid, hupdate]
        rfl
      · rw [hmodified, applyModified_result]
        exact modifiedSessions_ok hof.ids hof.removes
    · exact upStep_ok _ (if_neg hvalid) hsame
  | release pdu report =>
    by_cases hvalid : pdu.isValid context = true
    · obtain ⟨update, hupdate⟩ := calculateRelease_ok hvalid
      refine upStep_ok (report.result update) ?_ ?_
      · rw [UpEvent.result, if_pos hvalid, hupdate]
        rfl
      · rw [release_result hupdate, applyRemoved_result]
        rw [ReleaseCommand.isValid, Bool.and_eq_true, List.all_eq_true] at hvalid
        exact removedSessions_ok (pdu.nodup_keys.sublist List.filter_sublist)
          fun psi hpsi => contains_eq_true.mp (hvalid.2 psi (List.mem_filter.mp hpsi).1)
    · exact upStep_ok _ (if_neg hvalid) hsame
  | keyChange => exact upStep_ok _ rfl hsame

theorem upStep_wf (hwf : context.Wf) (h : upStep cfg context event = .ok context') : context'.Wf := by
  obtain ⟨result, context₁, hresult, happly, h⟩ := upStep_eq_ok h
  have hready := (apply_ready hwf hresult happly).1
  rcases h with rfl | rfl
  · exact hready.wf
  · exact wf_refresh hready.wf

theorem upStep_flowsMapped (hwf : context.Wf) (hflows : FlowsMapped context) (hsep : Separate cfg context event)
    (h : upStep cfg context event = .ok context') : FlowsMapped context' := by
  obtain ⟨result, context₁, hresult, happly, h⟩ := upStep_eq_ok h
  have hready := (apply_ready hwf hresult happly).2 hflows hsep
  rcases h with rfl | rfl
  · exact hready.mapped
  · exact hready.mapped

end Steps

section Runs

/-- The maps describe exactly the sessions. -/
def UpContext.Consistent (context : UpContext) : Prop := DrbsMapped context ∧ FlowsMapped context

/-- Requests whose QoS flows are separate never fault, and the maps describe the sessions after each. -/
theorem run_consistent (cfg : UpResourceManagerCfg) (events : List UpEvent)
    (h : Machine.Admits (upStep cfg) (Separate cfg) .empty events) :
    ∃ context, Machine.run (upStep cfg) .empty events = .ok context ∧ context.Consistent := by
  obtain ⟨context, hrun, hwf, hflows⟩ := Machine.run_total (fun c : UpContext => c.Wf ∧ FlowsMapped c)
    (fun c event hc hsep => by
      obtain ⟨c', hstep⟩ := upStep_total cfg hc.1 hc.2 hsep
      exact ⟨c', hstep, upStep_wf hc.1 hstep, upStep_flowsMapped hc.1 hc.2 hsep hstep⟩)
    ⟨wf_empty, flowsMapped_empty⟩ h
  exact ⟨context, hrun, hwf.drbs, hflows⟩

def exampleCfg (maxNofDrbsPerUe : Nat) : UpResourceManagerCfg :=
  ⟨OrderedMap.empty.insert 9 ⟨.am, true, true⟩, maxNofDrbsPerUe⟩

def exampleFlows (qfis : List QosFlowId) : OrderedMap QosFlowId QosParams :=
  qfis.foldl (fun flows qfi => flows.insert qfi ⟨.nonDyn 9⟩) .empty

def allDone : Report := ⟨fun _ => true, fun _ => true, fun _ => true⟩

def setupOf (psi : PduSessionId) (qfis : List QosFlowId) : UpEvent :=
  .setup (OrderedMap.empty.insert psi ⟨1, exampleFlows qfis⟩) ⟨.performed, .performed⟩ allDone

def releaseFlowOf (psi : PduSessionId) (qfi : QosFlowId) : UpEvent :=
  .modify (OrderedMap.empty.insert psi ⟨.empty, OrderedMap.empty.insert qfi ()⟩) allDone

def releaseOf (psi : PduSessionId) : UpEvent := .release (OrderedMap.empty.insert psi ()) allDone

theorem run_consistent_session :
    ∃ context, Machine.run (upStep (exampleCfg 8)) .empty [setupOf 1 [1, 2], releaseOf 1] = .ok context ∧
      context.Consistent := by
  apply run_consistent
  refine ⟨fun _ => ⟨by decide, fun item hitem qfi hqfi => rfl⟩, fun _ _ => ⟨trivial, fun _ _ => trivial⟩⟩

/-- Two sessions with one QFI: the flow of the second is on the DRB of the first in the map, and its release throws. -/
theorem two_sessions_with_one_qfi :
    (∃ context, Machine.run (upStep (exampleCfg 8)) .empty [setupOf 1 [1, 2], setupOf 2 [1]] = .ok context ∧
      context.qosFlowMap.find? 1 = some 0 ∧ Carries context 2 2 1 ∧ ¬context.Consistent) ∧
    Machine.run (upStep (exampleCfg 8)) .empty [setupOf 1 [1, 2], setupOf 2 [1], releaseFlowOf 2 1] =
      .error .outOfRange := by
  refine ⟨⟨_, rfl, rfl, ⟨_, _, rfl, rfl, .head _⟩, ?_⟩, rfl⟩
  rintro ⟨-, hflows⟩
  have hsome := (hflows 1 2).mpr ⟨2, _, _, rfl, rfl, .head _⟩
  exact absurd (Option.some_inj.mp hsome) (by decide)

end Runs

end Ocudu.CuCp
