import Ocudu.CuCp.DrbPlan

/-! What the update of a request consists of, and when it can be calculated. -/

namespace Ocudu.CuCp

open OrderedMap

variable {cfg : UpResourceManagerCfg} {context : UpContext} {update update' : UpConfigUpdate}
  {session session' : UpPduSessionContextUpdate}

section Adds

def Adds (cfg : UpResourceManagerCfg) (context : UpContext) (update : UpConfigUpdate) (qfis : List QosFlowId)
    (update' : UpConfigUpdate) : Prop :=
  ∃ session session', AllocatesAll cfg context update session qfis session' ∧ session.drbToAdd.entries = [] ∧
    update'.drbs.Perm (session'.drbToAdd.entries ++ update.drbs)

variable {qfis todo : List QosFlowId} {sessions : List (List QosFlowId)}

theorem Adds.fresh (h : Adds cfg context update qfis update') (hfresh : FreshDrbs context update.drbs) :
    FreshDrbs context update'.drbs := by
  obtain ⟨session, session', hall, hnil, hperm⟩ := h
  exact (hall.fresh (by rw [hnil]; exact hfresh)).perm hperm

theorem Adds.ownFlows (h : Adds cfg context update qfis update')
    (hown : OwnFlows context update.drbs (qfis ++ todo)) : OwnFlows context update'.drbs todo := by
  obtain ⟨session, session', hall, hnil, hperm⟩ := h
  exact (hall.ownFlows (by rw [hnil]; exact hown)).perm ((hperm.flatMap_right flowsOf).append_right todo)

theorem Adds.length_le (h : Adds cfg context update qfis update') :
    update'.drbs.length ≤ update.drbs.length + qfis.length := by
  obtain ⟨session, session', hall, hnil, hperm⟩ := h
  have hsize := hall.size_le
  rw [size, size, hnil, List.length_nil] at hsize
  rw [hperm.length_eq, List.length_append]
  omega

inductive AddsAll (cfg : UpResourceManagerCfg) (context : UpContext) :
    UpConfigUpdate → List (List QosFlowId) → UpConfigUpdate → Prop
  | nil (update : UpConfigUpdate) : AddsAll cfg context update [] update
  | cons {update update₁ update' : UpConfigUpdate} {qfis : List QosFlowId} {sessions : List (List QosFlowId)}
      (hfirst : Adds cfg context update qfis update₁) (hrest : AddsAll cfg context update₁ sessions update') :
      AddsAll cfg context update (qfis :: sessions) update'

theorem AddsAll.fresh (h : AddsAll cfg context update sessions update') (hfresh : FreshDrbs context update.drbs) :
    FreshDrbs context update'.drbs := by
  induction h with
  | nil => exact hfresh
  | cons hfirst _ ih => exact ih (hfirst.fresh hfresh)

theorem AddsAll.ownFlows (h : AddsAll cfg context update sessions update')
    (hown : OwnFlows context update.drbs (sessions.flatten ++ todo)) : OwnFlows context update'.drbs todo := by
  induction h with
  | nil => exact hown
  | cons hfirst _ ih =>
    rw [List.flatten_cons, List.append_assoc] at hown
    exact ih (hfirst.ownFlows hown)

theorem AddsAll.length_le (h : AddsAll cfg context update sessions update') :
    update'.drbs.length ≤ update.drbs.length + sessions.flatten.length := by
  induction h with
  | nil => exact Nat.le_add_right _ _
  | cons hfirst _ ih =>
    rw [List.flatten_cons, List.length_append]
    have hlength := hfirst.length_le
    omega

end Adds

section Setup

variable {sNssai : Nat} {flow : QosFlowId × QosParams} {flows : List (QosFlowId × QosParams)}

theorem setupFlow_eq_ok (h : setupFlow sNssai update context cfg session flow = .ok session') :
    ∃ r, Allocates cfg context update session flow.1 r session' := by
  rw [setupFlow] at h
  obtain ⟨r, hr, h⟩ := bind_eq_ok.mp h
  have halloc := allocateQosFlow_eq_ok hr
  obtain ⟨drbId, session₁⟩ := r
  dsimp only at h halloc
  cases halloc with
  | failed =>
    cases h
    exact ⟨none, .failed⟩
  | drb drbId drb hfree hflow hdefault hroom =>
    obtain ⟨u, -, h⟩ := bind_eq_ok.mp h
    cases h
    rw [modify_insert]
    exact ⟨some drbId, .drb drbId { drb with sNssai := sNssai } hfree hflow hdefault hroom⟩

theorem setupFlow_ok (h : getFiveQi flow.2 cfg ≠ invalidFiveQi) :
    ∃ session', setupFlow sNssai update context cfg session flow = .ok session' := by
  obtain ⟨r, hr, halloc⟩ := allocateQosFlow_ok session update context h flow.1
  obtain ⟨drbId, session₁⟩ := r
  rw [setupFlow, hr, ok_bind]
  dsimp only at halloc ⊢
  cases halloc with
  | failed => exact ⟨_, rfl⟩
  | drb drbId drb hfree hflow hdefault hroom =>
    have hin : (session.drbToAdd.insert drbId drb).contains drbId = true := by
      rw [contains, find?_insert, if_pos rfl]
      rfl
    dsimp only
    rw [assert_ok hin, ok_bind]
    exact ⟨_, rfl⟩

theorem setupFlows_eq_ok (h : flows.foldlM (setupFlow sNssai update context cfg) session = .ok session') :
    AllocatesAll cfg context update session (flows.map Prod.fst) session' := by
  induction flows generalizing session with
  | nil =>
    cases h
    exact .nil _
  | cons flow flows ih =>
    rw [List.foldlM_cons] at h
    obtain ⟨session₁, hfirst, h⟩ := bind_eq_ok.mp h
    obtain ⟨r, halloc⟩ := setupFlow_eq_ok hfirst
    exact .cons halloc (ih h)

theorem setupFlows_ok (h : ∀ flow ∈ flows, getFiveQi flow.2 cfg ≠ invalidFiveQi)
    (session : UpPduSessionContextUpdate) :
    ∃ session', flows.foldlM (setupFlow sNssai update context cfg) session = .ok session' :=
  foldlM_ok (fun _ flow hflow => setupFlow_ok (h flow hflow)) session

theorem flowsDerivable_iff {flows : OrderedMap QosFlowId QosParams} :
    flowsDerivable flows cfg = true ↔ ∀ flow ∈ flows.entries, getFiveQi flow.2 cfg ≠ invalidFiveQi := by
  rw [flowsDerivable, values, List.all_map, List.all_eq_true]
  exact forall₂_congr fun flow _ => decide_eq_true_iff

def UpConfigUpdate.withSetup (update : UpConfigUpdate) (session : UpPduSessionContextUpdate) : UpConfigUpdate :=
  if session.drbToAdd.size = 0 then update
  else { update with pduSessionsToSetupList := update.pduSessionsToSetupList.emplace session.id session }

variable {protection : Protection} {item : PduSessionId × SetupItem} {items : SetupItems}

theorem setupSession_eq_ok (h : setupSession protection context cfg update item = .ok update') :
    ∃ session, update' = update.withSetup session ∧
      AllocatesAll cfg context update (.init item.1 protection) item.2.qosFlowSetupRequestItems.keys session := by
  rw [setupSession] at h
  obtain ⟨u, -, h⟩ := bind_eq_ok.mp h
  obtain ⟨session, hsession, h⟩ := bind_eq_ok.mp h
  refine ⟨session, ?_, setupFlows_eq_ok hsession⟩
  rw [UpConfigUpdate.withSetup]
  split_ifs at h ⊢ with hsize
  · cases h
    rfl
  · cases h
    rfl

structure SetupOf (cfg : UpResourceManagerCfg) (context : UpContext) (items : SetupItems) (update : UpConfigUpdate) :
    Prop where
  modify : update.pduSessionsToModifyList = .empty
  remove : update.pduSessionsToRemoveList = []
  session : ∀ psi session, update.pduSessionsToSetupList.find? psi = some session →
    session.id = psi ∧ context.drbMap.size < cfg.maxNofDrbsPerUe ∧
      ∃ item, items.find? psi = some item ∧ session.drbToAdd.size ≤ item.qosFlowSetupRequestItems.size

theorem UpConfigUpdate.drbs_withSetup (hnew : update.pduSessionsToSetupList.find? session.id = none) :
    (update.withSetup session).drbs.Perm (session.drbToAdd.entries ++ update.drbs) := by
  rw [withSetup]
  split_ifs with hsize
  · rw [List.length_eq_zero_iff.mp hsize]
    exact .refl _
  · rw [emplace_eq_insert hnew, UpConfigUpdate.drbs, UpConfigUpdate.drbs, ← List.append_assoc]
    exact ((values_insert_perm hnew session).flatMap_right _).append_right _

theorem find?_withSetup {psi : PduSessionId} (hnew : update.pduSessionsToSetupList.find? session.id = none)
    (h : (update.withSetup session).pduSessionsToSetupList.find? psi = some session') :
    update.pduSessionsToSetupList.find? psi = some session' ∨
      psi = session.id ∧ session' = session ∧ session.drbToAdd.size ≠ 0 := by
  rw [UpConfigUpdate.withSetup] at h
  split_ifs at h with hsize
  · exact .inl h
  · rw [emplace_eq_insert hnew, find?_insert] at h
    split_ifs at h with heq
    · cases h
      exact .inr ⟨heq, rfl, hsize⟩
    · exact .inl h

theorem setupSessions_eq_ok {l : List (PduSessionId × SetupItem)} (hkeys : (l.map Prod.fst).Nodup)
    (hl : ∀ item ∈ l, items.find? item.1 = some item.2)
    (hnew : ∀ item ∈ l, update.pduSessionsToSetupList.find? item.1 = none) (hof : SetupOf cfg context items update)
    (h : l.foldlM (setupSession protection context cfg) update = .ok update') :
    AddsAll cfg context update (l.map fun item => item.2.qosFlowSetupRequestItems.keys) update' ∧
      SetupOf cfg context items update' := by
  induction l generalizing update with
  | nil =>
    cases h
    exact ⟨.nil _, hof⟩
  | cons item l ih =>
    rw [List.foldlM_cons] at h
    obtain ⟨update₁, hfirst, h⟩ := bind_eq_ok.mp h
    obtain ⟨session, rfl, hall⟩ := setupSession_eq_ok hfirst
    rw [List.map_cons, List.nodup_cons] at hkeys
    rw [List.forall_mem_cons] at hl hnew
    have hid : session.id = item.1 := hall.id_eq
    have hfree : update.pduSessionsToSetupList.find? session.id = none := by
      rw [hid]
      exact hnew.1
    have hof₁ : SetupOf cfg context items (update.withSetup session) := by
      constructor
      · rw [UpConfigUpdate.withSetup]
        split_ifs
        · exact hof.modify
        · exact hof.modify
      · rw [UpConfigUpdate.withSetup]
        split_ifs
        · exact hof.remove
        · exact hof.remove
      · intro psi session' hfind
        rcases find?_withSetup hfree hfind with hfind | ⟨rfl, rfl, hsize⟩
        · exact hof.session psi session' hfind
        · refine ⟨rfl, hall.room.resolve_left fun hnil => hsize ?_, item.2, ?_, ?_⟩
          · rw [hnil]
            rfl
          · rw [hid]
            exact hl.1
          · have hle := hall.size_le
            rw [keys, List.length_map] at hle
            exact hle.trans (Nat.zero_add _).le
    have hnew₁ : ∀ item ∈ l, (update.withSetup session).pduSessionsToSetupList.find? item.1 = none := by
      intro other hother
      rw [Option.eq_none_iff_forall_not_mem]
      intro session' hfind
      rcases find?_withSetup hfree hfind with hfind | ⟨heq, -, -⟩
      · rw [hnew.2 other hother] at hfind
        cases hfind
      · exact hkeys.1 (hid ▸ heq ▸ List.mem_map_of_mem hother)
    obtain ⟨hadds, hof'⟩ := ih hkeys.2 hl.2 hnew₁ hof₁ h
    exact ⟨.cons ⟨_, session, hall, rfl, UpConfigUpdate.drbs_withSetup hfree⟩ hadds, hof'⟩

theorem calculateSetup_eq_ok (h : calculateSetup items protection context cfg = .ok update) :
    (∃ initial, AddsAll cfg context (.init initial) (items.values.map fun item => item.qosFlowSetupRequestItems.keys)
      update) ∧ SetupOf cfg context items update := by
  have hof : SetupOf cfg context items (.init (context.pduSessions.size = 0)) := ⟨rfl, rfl, fun _ _ h => by cases h⟩
  obtain ⟨hadds, hof'⟩ := setupSessions_eq_ok items.nodup_keys (fun _ hitem => find?_eq_some.mpr hitem)
    (fun _ _ => rfl) hof h
  rw [values, List.map_map]
  exact ⟨⟨_, hadds⟩, hof'⟩

theorem setupSession_ok (hnew : context.pduSessions.contains item.1 = false)
    (hflows : flowsDerivable item.2.qosFlowSetupRequestItems cfg = true) :
    ∃ update', setupSession protection context cfg update item = .ok update' := by
  obtain ⟨session, hsession⟩ := setupFlows_ok (flowsDerivable_iff.mp hflows) (.init item.1 protection)
  rw [setupSession, assert_ok hnew, ok_bind, hsession, ok_bind]
  split_ifs
  · exact ⟨_, rfl⟩
  · exact ⟨_, rfl⟩

theorem calculateSetup_ok (h : items.isValid context cfg = true) (protection : Protection) :
    ∃ update, calculateSetup items protection context cfg = .ok update := by
  rw [SetupItems.isValid, Bool.and_eq_true, List.all_eq_true] at h
  apply foldlM_ok
  intro update item hitem
  obtain ⟨hnew, hflows⟩ := Bool.and_eq_true_iff.mp (h.2 item hitem)
  exact setupSession_ok ((Bool.not_eq_true' _).mp hnew) hflows

end Setup

section Modify

variable {m m' : Modification} {flow : QosFlowId × QosParams} {flows : List (QosFlowId × QosParams)}

theorem modifyFlow_eq_ok (h : modifyFlow update context cfg m flow = .ok m') :
    (context.qosFlowMap.contains flow.1 = true ∧ ∃ drbs, m'.1 = { m.1 with drbToModify := drbs }) ∨
      context.qosFlowMap.contains flow.1 = false ∧ ∃ r, Allocates cfg context update m.1 flow.1 r m'.1 := by
  rw [modifyFlow] at h
  split_ifs at h with hin
  · refine .inl ⟨hin, ?_⟩
    obtain ⟨r, hr, h⟩ := bind_eq_ok.mp h
    obtain ⟨drbs, hdrbs⟩ := modifyQosFlow_eq_ok hr
    obtain ⟨drbId, session⟩ := r
    cases drbId with
    | none =>
      cases h
      exact ⟨drbs, hdrbs⟩
    | some drbId =>
      obtain ⟨u, -, h⟩ := bind_eq_ok.mp h
      cases h
      exact ⟨drbs, hdrbs⟩
  · refine .inr ⟨Bool.eq_false_of_not_eq_true hin, ?_⟩
    obtain ⟨r, hr, h⟩ := bind_eq_ok.mp h
    have halloc := allocateQosFlow_eq_ok hr
    obtain ⟨drbId, session⟩ := r
    cases drbId with
    | none =>
      cases h
      exact ⟨none, halloc⟩
    | some drbId =>
      obtain ⟨u, -, h⟩ := bind_eq_ok.mp h
      cases h
      exact ⟨some drbId, halloc⟩

theorem modifyFlow_ok (h : getFiveQi flow.2 cfg ≠ invalidFiveQi) :
    ∃ m', modifyFlow update context cfg m flow = .ok m' := by
  rw [modifyFlow]
  split_ifs with hin
  · obtain ⟨drbId, hdrbId⟩ := mem_keys.mp (contains_eq_true.mp hin)
    obtain ⟨drb, hmodify⟩ := modifyQosFlow_ok m.1 h hdrbId
    have hsome : (m.1.drbToModify.emplace drbId drb).contains drbId = true := by
      rw [contains, find?_emplace, if_pos rfl]
      rfl
    rw [hmodify, ok_bind]
    dsimp only
    rw [assert_ok (.inr hsome), ok_bind]
    exact ⟨_, rfl⟩
  · obtain ⟨r, hr, halloc⟩ := allocateQosFlow_ok m.1 update context h flow.1
    obtain ⟨drbId, session⟩ := r
    rw [hr, ok_bind]
    dsimp only at halloc ⊢
    cases halloc with
    | failed => exact ⟨_, rfl⟩
    | drb drbId drb hfree hflow hdefault hroom =>
      have hsome : (m.1.drbToAdd.insert drbId drb).contains drbId = true := by
        rw [contains, find?_insert, if_pos rfl]
        rfl
      dsimp only
      rw [assert_ok (.inr hsome), ok_bind]
      exact ⟨_, rfl⟩

def newFlows (context : UpContext) (qfis : List QosFlowId) : List QosFlowId :=
  qfis.filter fun qfi => !context.qosFlowMap.contains qfi

theorem modifyFlows_eq_ok (h : flows.foldlM (modifyFlow update context cfg) m = .ok m') :
    AllocatesAll cfg context update m.1 (newFlows context (flows.map Prod.fst)) m'.1 := by
  induction flows generalizing m with
  | nil =>
    cases h
    exact .nil _
  | cons flow flows ih =>
    rw [List.foldlM_cons] at h
    obtain ⟨m₁, hfirst, h⟩ := bind_eq_ok.mp h
    rw [List.map_cons, newFlows, List.filter_cons]
    rcases modifyFlow_eq_ok hfirst with ⟨hin, drbs, hdrbs⟩ | ⟨hin, r, halloc⟩
    · rw [if_neg (by rw [hin]; exact Bool.false_ne_true)]
      apply AllocatesAll.modify drbs
      rw [← hdrbs]
      exact ih h
    · rw [if_pos (by rw [hin]; rfl)]
      exact .cons halloc (ih h)

structure Releases (context : UpContext) (psi : PduSessionId) (qfi : QosFlowId) (drbId : DrbId) : Prop where
  mapped : context.qosFlowMap.find? qfi = some drbId
  carried : ∃ session drb, context.pduSessions.find? psi = some session ∧ session.drbs.find? drbId = some drb ∧
    qfi ∈ drb.qosFlows.keys

def OneFlow (context : UpContext) : Prop :=
  ∀ psi session drbId drb, context.pduSessions.find? psi = some session → session.drbs.find? drbId = some drb →
    ∃ qfi, drb.qosFlows.keys = [qfi]

theorem releaseFlow_eq_ok {qfi : QosFlowId} (hone : OneFlow context) (h : releaseFlow context session qfi = .ok session') :
    ∃ drbId, session' = { session with drbToRemove := session.drbToRemove ++ [drbId] } ∧
      Releases context session.id qfi drbId := by
  rw [releaseFlow] at h
  obtain ⟨drbId, hdrbId, h⟩ := bind_eq_ok.mp h
  obtain ⟨old, hold, h⟩ := bind_eq_ok.mp h
  obtain ⟨drb, hdrb, h⟩ := bind_eq_ok.mp h
  obtain ⟨u, hin, h⟩ := bind_eq_ok.mp h
  obtain ⟨q, hq⟩ := hone _ _ _ _ (at?_eq_ok hold) (at?_eq_ok hdrb)
  have hsize : drb.qosFlows.size = 1 := by
    rw [size, ← List.length_map Prod.fst]
    exact congrArg List.length hq
  rw [if_pos hsize] at h
  cases h
  exact ⟨drbId, rfl, at?_eq_ok hdrbId, old, drb, at?_eq_ok hold, at?_eq_ok hdrb,
    contains_eq_true.mp (assert_eq_ok hin)⟩

theorem releaseFlow_ok {qfi : QosFlowId} {drbId : DrbId} (h : Releases context session.id qfi drbId) :
    ∃ session', releaseFlow context session qfi = .ok session' := by
  obtain ⟨hmapped, old, drb, hold, hdrb, hin⟩ := h
  rw [releaseFlow, at?_ok hmapped, ok_bind, at?_ok hold, ok_bind, at?_ok hdrb, ok_bind,
    assert_ok (contains_eq_true.mpr hin), ok_bind]
  split_ifs
  · exact ⟨_, rfl⟩
  · exact ⟨_, rfl⟩

theorem releaseFlows_eq_ok {qfis : List QosFlowId} (hone : OneFlow context)
    (h : qfis.foldlM (releaseFlow context) session = .ok session') :
    ∃ drbIds, session' = { session with drbToRemove := session.drbToRemove ++ drbIds } ∧
      List.Forall₂ (Releases context session.id) qfis drbIds := by
  induction qfis generalizing session with
  | nil =>
    cases h
    refine ⟨[], ?_, .nil⟩
    rw [List.append_nil]
  | cons qfi qfis ih =>
    rw [List.foldlM_cons] at h
    obtain ⟨session₁, hfirst, h⟩ := bind_eq_ok.mp h
    obtain ⟨drbId, rfl, hreleases⟩ := releaseFlow_eq_ok hone hfirst
    obtain ⟨drbIds, rfl, hrest⟩ := ih h
    refine ⟨drbId :: drbIds, ?_, .cons hreleases hrest⟩
    rw [List.append_assoc]
    rfl

theorem releaseFlows_ok {qfis : List QosFlowId} (session : UpPduSessionContextUpdate)
    (h : ∀ qfi ∈ qfis, ∃ drbId, Releases context session.id qfi drbId) :
    ∃ session', qfis.foldlM (releaseFlow context) session = .ok session' := by
  induction qfis generalizing session with
  | nil => exact ⟨_, rfl⟩
  | cons qfi qfis ih =>
    rw [List.forall_mem_cons] at h
    obtain ⟨⟨drbId, hreleases⟩, hrest⟩ := h
    obtain ⟨session₁, hfirst⟩ := releaseFlow_ok hreleases
    have hid : session₁.id = session.id := by
      rw [releaseFlow] at hfirst
      obtain ⟨drbId, -, hfirst⟩ := bind_eq_ok.mp hfirst
      obtain ⟨old, -, hfirst⟩ := bind_eq_ok.mp hfirst
      obtain ⟨drb, -, hfirst⟩ := bind_eq_ok.mp hfirst
      obtain ⟨u, -, hfirst⟩ := bind_eq_ok.mp hfirst
      split_ifs at hfirst
      · cases hfirst
        rfl
      · cases hfirst
        rfl
    rw [List.foldlM_cons, hfirst, ok_bind]
    apply ih session₁
    rw [hid]
    exact hrest

variable {pdu : ModifyRequest} {item : PduSessionId × ModifyItem}

def ModifyItem.newFlows (context : UpContext) (item : ModifyItem) : List QosFlowId :=
  CuCp.newFlows context item.qosFlowAddOrModifyRequestList.keys

def UpConfigUpdate.withModify (update : UpConfigUpdate) (session : UpPduSessionContextUpdate)
    (failed : List PduSessionId) : UpConfigUpdate :=
  { update with
    pduSessionsFailedToModifyList := failed,
    pduSessionsToModifyList := update.pduSessionsToModifyList.emplace session.id session }

theorem modifySession_eq_ok (hone : OneFlow context) (h : modifySession context cfg update item = .ok update') :
    ∃ old session failed drbIds, update' = update.withModify { session with drbToRemove := drbIds } failed ∧
      AllocatesAll cfg context update (.init item.1 old) (item.2.newFlows context) session ∧
        List.Forall₂ (Releases context item.1) item.2.qosFlowToReleaseList.keys drbIds := by
  rw [modifySession] at h
  obtain ⟨u, -, h⟩ := bind_eq_ok.mp h
  obtain ⟨old, -, h⟩ := bind_eq_ok.mp h
  obtain ⟨m, hm, h⟩ := bind_eq_ok.mp h
  obtain ⟨session, hsession, h⟩ := bind_eq_ok.mp h
  have hall := modifyFlows_eq_ok hm
  obtain ⟨drbIds, rfl, hreleases⟩ := releaseFlows_eq_ok hone hsession
  rw [hall.id_eq] at hreleases
  refine ⟨old.protection, m.1, m.2, drbIds, ?_, hall, hreleases⟩
  rw [hall.drbToRemove_eq] at h
  cases h
  rfl

theorem modifySession_ok (hin : context.pduSessions.contains item.1 = true)
    (hflows : flowsDerivable item.2.qosFlowAddOrModifyRequestList cfg = true)
    (hreleases : ∀ qfi ∈ item.2.qosFlowToReleaseList.keys, ∃ drbId, Releases context item.1 qfi drbId) :
    ∃ update', modifySession context cfg update item = .ok update' := by
  obtain ⟨old, hold⟩ := mem_keys.mp (contains_eq_true.mp hin)
  obtain ⟨m, hm⟩ := foldlM_ok (f := modifyFlow update context cfg)
    (fun _ flow hflow => modifyFlow_ok (flowsDerivable_iff.mp hflows flow hflow))
    (.init item.1 old.protection, update.pduSessionsFailedToModifyList)
  have hid : m.1.id = item.1 := (modifyFlows_eq_ok hm).id_eq
  obtain ⟨session, hsession⟩ := releaseFlows_ok m.1 (by rw [hid]; exact hreleases)
  rw [modifySession, assert_ok hin, ok_bind, at?_ok hold, ok_bind, hm, ok_bind, hsession, ok_bind]
  exact ⟨_, rfl⟩

def ReleasesOwn (context : UpContext) (pdu : ModifyRequest) : Prop :=
  ∀ psi item, pdu.find? psi = some item → ∀ qfi ∈ item.qosFlowToReleaseList.keys, ∃ drbId, Releases context psi qfi drbId

theorem calculateModify_ok (h : pdu.isValid context cfg = true) (hreleases : ReleasesOwn context pdu) :
    ∃ update, calculateModify pdu context cfg = .ok update := by
  rw [ModifyRequest.isValid, Bool.and_eq_true, List.all_eq_true] at h
  apply foldlM_ok
  intro update item hitem
  have hvalid := h.2 item hitem
  rw [Bool.and_eq_true, Bool.and_eq_true, Bool.and_eq_true] at hvalid
  exact modifySession_ok hvalid.1.1.1 hvalid.1.1.2 (hreleases item.1 item.2 (find?_eq_some.mpr hitem))

/-- The update of a modification: sessions of the request, with at most a DRB for each of their new QoS flows, and
without the DRBs of the released ones. -/
structure ModifyOf (cfg : UpResourceManagerCfg) (context : UpContext) (pdu : ModifyRequest) (update : UpConfigUpdate) :
    Prop where
  setup : update.pduSessionsToSetupList = .empty
  remove : update.pduSessionsToRemoveList = []
  session : ∀ psi session, update.pduSessionsToModifyList.find? psi = some session → session.id = psi ∧
    ∃ item, pdu.find? psi = some item ∧
      (session.drbToAdd.size = 0 ∨ context.drbMap.size < cfg.maxNofDrbsPerUe) ∧
      session.drbToAdd.size ≤ (item.newFlows context).length ∧
      List.Forall₂ (Releases context psi) item.qosFlowToReleaseList.keys session.drbToRemove

theorem UpConfigUpdate.drbs_withModify {failed : List PduSessionId} (session : UpPduSessionContextUpdate)
    (hnew : update.pduSessionsToModifyList.find? session.id = none) :
    (update.withModify session failed).drbs.Perm (session.drbToAdd.entries ++ update.drbs) := by
  rw [withModify, emplace_eq_insert hnew, UpConfigUpdate.drbs, UpConfigUpdate.drbs]
  refine (((values_insert_perm hnew session).flatMap_right _).append_left _).trans ?_
  rw [List.flatMap_cons, ← List.append_assoc, ← List.append_assoc]
  exact List.perm_append_comm.append_right _

theorem find?_withModify {failed : List PduSessionId} {psi : PduSessionId} (session : UpPduSessionContextUpdate)
    (hnew : update.pduSessionsToModifyList.find? session.id = none)
    (h : (update.withModify session failed).pduSessionsToModifyList.find? psi = some session') :
    update.pduSessionsToModifyList.find? psi = some session' ∨ psi = session.id ∧ session' = session := by
  rw [UpConfigUpdate.withModify, emplace_eq_insert hnew, find?_insert] at h
  split_ifs at h with heq
  · cases h
    exact .inr ⟨heq, rfl⟩
  · exact .inl h

theorem modifySessions_eq_ok {l : List (PduSessionId × ModifyItem)} (hone : OneFlow context)
    (hkeys : (l.map Prod.fst).Nodup) (hl : ∀ item ∈ l, pdu.find? item.1 = some item.2)
    (hnew : ∀ item ∈ l, update.pduSessionsToModifyList.find? item.1 = none) (hof : ModifyOf cfg context pdu update)
    (h : l.foldlM (modifySession context cfg) update = .ok update') :
    AddsAll cfg context update (l.map fun item => item.2.newFlows context) update' ∧
      ModifyOf cfg context pdu update' := by
  induction l generalizing update with
  | nil =>
    cases h
    exact ⟨.nil _, hof⟩
  | cons item l ih =>
    rw [List.foldlM_cons] at h
    obtain ⟨update₁, hfirst, h⟩ := bind_eq_ok.mp h
    obtain ⟨old, session, failed, drbIds, rfl, hall, hreleases⟩ := modifySession_eq_ok hone hfirst
    rw [List.map_cons, List.nodup_cons] at hkeys
    rw [List.forall_mem_cons] at hl hnew
    have hid : session.id = item.1 := hall.id_eq
    have hfree : update.pduSessionsToModifyList.find? session.id = none := by
      rw [hid]
      exact hnew.1
    have hof₁ : ModifyOf cfg context pdu (update.withModify { session with drbToRemove := drbIds } failed) := by
      refine ⟨hof.setup, hof.remove, ?_⟩
      intro psi session' hfind
      rcases find?_withModify { session with drbToRemove := drbIds } hfree hfind with hfind | ⟨rfl, rfl⟩
      · exact hof.session psi session' hfind
      · refine ⟨rfl, item.2, ?_, ?_, ?_, ?_⟩
        · rw [hid]
          exact hl.1
        · refine hall.room.imp_left fun hnil => ?_
          rw [hnil]
          rfl
        · exact hall.size_le.trans (Nat.zero_add _).le
        · rw [hid]
          exact hreleases
    have hnew₁ : ∀ item ∈ l, (update.withModify { session with drbToRemove := drbIds } failed).pduSessionsToModifyList.find?
        item.1 = none := by
      intro other hother
      rw [Option.eq_none_iff_forall_not_mem]
      intro session' hfind
      rcases find?_withModify { session with drbToRemove := drbIds } hfree hfind with hfind | ⟨heq, -⟩
      · rw [hnew.2 other hother] at hfind
        cases hfind
      · exact hkeys.1 (hid ▸ heq ▸ List.mem_map_of_mem hother)
    obtain ⟨hadds, hof'⟩ := ih hkeys.2 hl.2 hnew₁ hof₁ h
    exact ⟨.cons ⟨_, session, hall, rfl,
      UpConfigUpdate.drbs_withModify { session with drbToRemove := drbIds } hfree⟩ hadds, hof'⟩

theorem calculateModify_eq_ok (hone : OneFlow context) (h : calculateModify pdu context cfg = .ok update) :
    AddsAll cfg context (.init false) (pdu.values.map fun item => item.newFlows context) update ∧
      ModifyOf cfg context pdu update := by
  have hof : ModifyOf cfg context pdu (.init false) := ⟨rfl, rfl, fun _ _ h => by cases h⟩
  obtain ⟨hadds, hof'⟩ := modifySessions_eq_ok hone pdu.nodup_keys (fun _ hitem => find?_eq_some.mpr hitem)
    (fun _ _ => rfl) hof h
  rw [values, List.map_map]
  exact ⟨hadds, hof'⟩

end Modify

section Release

variable {pdu : ReleaseCommand} {psis : List PduSessionId}

theorem releaseSessions_eq_ok (h : psis.foldlM (releaseSession context) update = .ok update') :
    update'.pduSessionsToSetupList = update.pduSessionsToSetupList ∧
      update'.pduSessionsToModifyList = update.pduSessionsToModifyList ∧
        update'.pduSessionsToRemoveList = update.pduSessionsToRemoveList ++ psis := by
  induction psis generalizing update with
  | nil =>
    cases h
    rw [List.append_nil]
    exact ⟨rfl, rfl, rfl⟩
  | cons psi psis ih =>
    rw [List.foldlM_cons] at h
    obtain ⟨update₁, hfirst, h⟩ := bind_eq_ok.mp h
    obtain ⟨session, -, hfirst⟩ := bind_eq_ok.mp hfirst
    cases hfirst
    obtain ⟨hsetup, hmodify, hremove⟩ := ih h
    refine ⟨hsetup, hmodify, hremove.trans ?_⟩
    rw [List.append_assoc]
    rfl

theorem calculateRelease_eq_ok (h : calculateRelease pdu context = .ok update) :
    update.pduSessionsToSetupList = .empty ∧ update.pduSessionsToModifyList = .empty ∧
      update.pduSessionsToRemoveList = pdu.keys := releaseSessions_eq_ok h

theorem calculateRelease_ok (h : pdu.isValid context = true) : ∃ update, calculateRelease pdu context = .ok update := by
  rw [ReleaseCommand.isValid, Bool.and_eq_true, List.all_eq_true] at h
  apply foldlM_ok
  intro update psi hpsi
  obtain ⟨session, hsession⟩ := mem_keys.mp (contains_eq_true.mp (h.2 psi hpsi))
  rw [releaseSession, at?_ok hsession, ok_bind]
  exact ⟨_, rfl⟩

end Release

end Ocudu.CuCp
