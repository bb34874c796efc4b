import Ocudu.CuCp.UpUpdate

/-! The DRBs that an update brings: their ids are new to the UE, each carries one QoS flow. -/

namespace Ocudu.CuCp

open OrderedMap

abbrev DrbEntry := DrbId × UpDrbContext

def flowsOf (drb : DrbEntry) : List QosFlowId := drb.2.qosFlows.keys

def drbsOf (sessions : List UpPduSessionContextUpdate) : List DrbEntry :=
  sessions.flatMap fun session => session.drbToAdd.entries

def UpConfigUpdate.drbs (update : UpConfigUpdate) : List DrbEntry :=
  drbsOf update.pduSessionsToSetupList.values ++ drbsOf update.pduSessionsToModifyList.values

structure FreshDrbs (c : UpContext) (drbs : List DrbEntry) : Prop where
  ids : (drbs.map Prod.fst).Nodup
  unused : ∀ e ∈ drbs, c.drbMap.find? e.1 = none ∧ e.1 ∉ c.usedDrbIds
  oneFlow : ∀ e ∈ drbs, ∃ qfi, flowsOf e = [qfi]
  default : ∀ e ∈ drbs, e.2.defaultDrb = decide (c.drbMap.size = 0)

/-- The flows of the DRBs, and those that may still get one, are new and differ. -/
structure OwnFlows (c : UpContext) (drbs : List DrbEntry) (todo : List QosFlowId) : Prop where
  flows : (drbs.flatMap flowsOf ++ todo).Nodup
  unmapped : ∀ qfi ∈ drbs.flatMap flowsOf ++ todo, c.qosFlowMap.find? qfi = none

section Lists

variable {c : UpContext} {drbs drbs' : List DrbEntry} {todo todo' : List QosFlowId}

theorem FreshDrbs.nil : FreshDrbs c [] where
  ids := .nil
  unused e he := by cases he
  oneFlow e he := by cases he
  default e he := by cases he

theorem FreshDrbs.perm (h : FreshDrbs c drbs) (hp : drbs'.Perm drbs) : FreshDrbs c drbs' where
  ids := (hp.map Prod.fst).nodup_iff.mpr h.ids
  unused e he := h.unused e (hp.mem_iff.mp he)
  oneFlow e he := h.oneFlow e (hp.mem_iff.mp he)
  default e he := h.default e (hp.mem_iff.mp he)

theorem FreshDrbs.sublist (h : FreshDrbs c drbs) (hs : drbs'.Sublist drbs) : FreshDrbs c drbs' where
  ids := h.ids.sublist (hs.map Prod.fst)
  unused e he := h.unused e (hs.subset he)
  oneFlow e he := h.oneFlow e (hs.subset he)
  default e he := h.default e (hs.subset he)

theorem FreshDrbs.cons {e : DrbEntry} {qfi : QosFlowId} (h : FreshDrbs c drbs) (hid : e.1 ∉ drbs.map Prod.fst)
    (hunused : c.drbMap.find? e.1 = none ∧ e.1 ∉ c.usedDrbIds) (hflow : flowsOf e = [qfi])
    (hdefault : e.2.defaultDrb = decide (c.drbMap.size = 0)) : FreshDrbs c (e :: drbs) where
  ids := List.nodup_cons.mpr ⟨hid, h.ids⟩
  unused := List.forall_mem_cons.mpr ⟨hunused, h.unused⟩
  oneFlow := List.forall_mem_cons.mpr ⟨⟨qfi, hflow⟩, h.oneFlow⟩
  default := List.forall_mem_cons.mpr ⟨hdefault, h.default⟩

theorem OwnFlows.perm (h : OwnFlows c drbs todo)
    (hp : (drbs'.flatMap flowsOf ++ todo').Perm (drbs.flatMap flowsOf ++ todo)) : OwnFlows c drbs' todo' where
  flows := hp.nodup_iff.mpr h.flows
  unmapped qfi hq := h.unmapped qfi (hp.mem_iff.mp hq)

theorem OwnFlows.sublist (h : OwnFlows c drbs todo)
    (hs : (drbs'.flatMap flowsOf ++ todo').Sublist (drbs.flatMap flowsOf ++ todo)) : OwnFlows c drbs' todo' where
  flows := h.flows.sublist hs
  unmapped qfi hq := h.unmapped qfi (hs.subset hq)

end Lists

section Flow

variable {cfg : UpResourceManagerCfg} {context : UpContext} {update : UpConfigUpdate}
  {session : UpPduSessionContextUpdate} {qosParams : QosParams}

theorem assert_ok {p : Prop} [Decidable p] (h : p) : assert p = .ok () := if_pos h

theorem assert_eq_ok {p : Prop} [Decidable p] {u : Unit} (h : assert p = .ok u) : p := by
  rw [assert] at h
  split_ifs at h with hp
  exact hp

theorem at?_ok {κ α : Type} [LinearOrder κ] {m : OrderedMap κ α} {k : κ} {a : α} (h : m.find? k = some a) :
    at? m k = .ok a := by
  rw [at?, h]

theorem at?_eq_ok {κ α : Type} [LinearOrder κ] {m : OrderedMap κ α} {k : κ} {a : α} (h : at? m k = .ok a) :
    m.find? k = some a := by
  rw [at?] at h
  cases hfind : m.find? k with
  | none =>
    rw [hfind] at h
    cases h
  | some b =>
    rw [hfind] at h
    cases h
    rfl

theorem getFiveQi_eq (h : getFiveQi qosParams cfg ≠ invalidFiveQi) :
    getFiveQi qosParams cfg = qosParams.qosDesc.get5qi ∧ cfg.fiveQiConfig.contains qosParams.qosDesc.get5qi = true := by
  rw [getFiveQi] at h ⊢
  split_ifs at h ⊢ with hinvalid hconfig
  · exact absurd rfl h
  · exact absurd rfl h
  · exact ⟨rfl, Bool.eq_true_of_not_eq_false hconfig⟩

theorem setRrcPdcpConfig_ok {fiveQi : FiveQi} (h : cfg.fiveQiConfig.contains fiveQi = true) (protection : Protection) :
    ∃ pdcp, setRrcPdcpConfig fiveQi cfg protection = .ok pdcp := by
  obtain ⟨pdcp, hpdcp⟩ := mem_keys.mp (contains_eq_true.mp h)
  rw [setRrcPdcpConfig, assert_ok h, ok_bind, at?_ok hpdcp]
  exact ⟨_, rfl⟩

def Taken (session : UpPduSessionContextUpdate) (update : UpConfigUpdate) (context : UpContext) (drbId : DrbId) : Prop :=
  context.drbMap.contains drbId = true ∨ update.containsDrb drbId = true ∨
    session.drbToAdd.contains drbId = true ∨ drbId ∈ context.usedDrbIds

theorem not_taken_of_allocateDrbId {n : Nat} {drbId : DrbId} (h : allocateDrbId session context update n = some drbId) :
    ¬Taken session update context drbId := by
  rw [allocateDrbId] at h
  split_ifs at h
  have hfree := List.find?_some h
  rw [Bool.not_eq_true', Bool.or_eq_false_iff, Bool.or_eq_false_iff, Bool.or_eq_false_iff,
    decide_eq_false_iff_not] at hfree
  obtain ⟨⟨⟨hmap, hupdate⟩, hsession⟩, hused⟩ := hfree
  rintro (h | h | h | h)
  · exact Bool.false_ne_true (hmap.symm.trans h)
  · exact Bool.false_ne_true (hupdate.symm.trans h)
  · exact Bool.false_ne_true (hsession.symm.trans h)
  · exact hused h

theorem mem_ids_of_containsDrb {drbId : DrbId} (h : drbId ∈ update.drbs.map Prod.fst) :
    update.containsDrb drbId = true := by
  have hany {sessions : List UpPduSessionContextUpdate} (h : drbId ∈ (drbsOf sessions).map Prod.fst) :
      (sessions.any fun session => session.drbToAdd.contains drbId) = true := by
    obtain ⟨e, he, rfl⟩ := List.mem_map.mp h
    obtain ⟨session, hsession, he⟩ := List.mem_flatMap.mp he
    exact List.any_eq_true.mpr ⟨session, hsession, contains_eq_true.mpr (List.mem_map_of_mem he)⟩
  rw [UpConfigUpdate.drbs, List.map_append, List.mem_append] at h
  rw [UpConfigUpdate.containsDrb, Bool.or_eq_true]
  exact h.imp hany hany

inductive Allocates (cfg : UpResourceManagerCfg) (context : UpContext) (update : UpConfigUpdate)
    (session : UpPduSessionContextUpdate) (qfi : QosFlowId) : Option DrbId → UpPduSessionContextUpdate → Prop
  | failed : Allocates cfg context update session qfi none session
  | drb (drbId : DrbId) (drb : UpDrbContext) (hfree : ¬Taken session update context drbId)
      (hflow : drb.qosFlows.keys = [qfi]) (hdefault : drb.defaultDrb = decide (context.drbMap.size = 0))
      (hroom : context.drbMap.size < cfg.maxNofDrbsPerUe) :
      Allocates cfg context update session qfi (some drbId)
        { session with drbToAdd := session.drbToAdd.insert drbId drb }

theorem allocateQosFlow_ok (session : UpPduSessionContextUpdate) (update : UpConfigUpdate) (context : UpContext)
    (h : getFiveQi qosParams cfg ≠ invalidFiveQi) (qfi : QosFlowId) :
    ∃ r, allocateQosFlow session qfi qosParams update context cfg = .ok r ∧
      Allocates cfg context update session qfi r.1 r.2 := by
  rw [allocateQosFlow, assert_ok h, ok_bind]
  split_ifs with hroom
  · exact ⟨_, rfl, .failed⟩
  · cases halloc : allocateDrbId session context update cfg.maxNofDrbsPerUe with
    | none => exact ⟨_, rfl, .failed⟩
    | some drbId =>
      have hfree := not_taken_of_allocateDrbId halloc
      obtain ⟨hfive, hconfig⟩ := getFiveQi_eq h
      obtain ⟨pdcp, hpdcp⟩ := setRrcPdcpConfig_ok hconfig session.protection
      have hnone : session.drbToAdd.find? drbId = none := by
        rw [← contains_eq_false, Bool.eq_false_iff]
        exact fun hin => hfree (.inr (.inr (.inl hin)))
      dsimp only
      rw [hfive, hpdcp, ok_bind, emplace_eq_insert hnone]
      exact ⟨_, rfl, .drb drbId _ hfree rfl rfl (not_le.mp hroom)⟩

theorem allocateQosFlow_eq_ok {qfi : QosFlowId} {r : Option DrbId × UpPduSessionContextUpdate}
    (h : allocateQosFlow session qfi qosParams update context cfg = .ok r) :
    Allocates cfg context update session qfi r.1 r.2 := by
  by_cases hfive : getFiveQi qosParams cfg ≠ invalidFiveQi
  · obtain ⟨r', hr', halloc⟩ := allocateQosFlow_ok session update context hfive qfi
    rw [h] at hr'
    cases hr'
    exact halloc
  · rw [allocateQosFlow] at h
    obtain ⟨u, hassert, -⟩ := bind_eq_ok.mp h
    exact absurd (assert_eq_ok hassert) hfive

theorem modifyQosFlow_ok {qfi : QosFlowId} {drbId : DrbId} (session : UpPduSessionContextUpdate)
    (h : getFiveQi qosParams cfg ≠ invalidFiveQi)
    (hmap : context.qosFlowMap.find? qfi = some drbId) :
    ∃ drb, modifyQosFlow session qfi qosParams context cfg =
      .ok (some drbId, { session with drbToModify := session.drbToModify.emplace drbId drb }) := by
  obtain ⟨pdcp, hpdcp⟩ := setRrcPdcpConfig_ok (getFiveQi_eq h).2 session.protection
  have hin : context.qosFlowMap.contains qfi = true := by
    rw [contains, hmap]
    rfl
  rw [modifyQosFlow, if_neg (by rw [hin]; exact Bool.noConfusion), at?_ok hmap, ok_bind, hpdcp]
  exact ⟨_, rfl⟩

theorem modifyQosFlow_eq_ok {qfi : QosFlowId} {r : Option DrbId × UpPduSessionContextUpdate}
    (h : modifyQosFlow session qfi qosParams context cfg = .ok r) :
    ∃ drbs, r.2 = { session with drbToModify := drbs } := by
  rw [modifyQosFlow] at h
  split_ifs at h
  · cases h
    exact ⟨_, rfl⟩
  · obtain ⟨drbId, -, h⟩ := bind_eq_ok.mp h
    obtain ⟨pdcp, -, h⟩ := bind_eq_ok.mp h
    cases h
    exact ⟨_, rfl⟩

namespace Allocates

variable {session' : UpPduSessionContextUpdate} {qfi : QosFlowId} {r : Option DrbId}

theorem id_eq (h : Allocates cfg context update session qfi r session') : session'.id = session.id := by
  cases h <;> rfl

theorem drbToRemove_eq (h : Allocates cfg context update session qfi r session') :
    session'.drbToRemove = session.drbToRemove := by
  cases h <;> rfl

theorem find?_drbToAdd {drbId : DrbId} (h : ¬Taken session update context drbId) :
    session.drbToAdd.find? drbId = none := by
  rw [← contains_eq_false, Bool.eq_false_iff]
  exact fun hin => h (.inr (.inr (.inl hin)))

section

variable (h : Allocates cfg context update session qfi r session')
include h

theorem entries_perm :
    session' = session ∨ ∃ drbId drb, ¬Taken session update context drbId ∧ drb.qosFlows.keys = [qfi] ∧
      drb.defaultDrb = decide (context.drbMap.size = 0) ∧ context.drbMap.size < cfg.maxNofDrbsPerUe ∧
        session'.drbToAdd.entries.Perm ((drbId, drb) :: session.drbToAdd.entries) := by
  cases h with
  | failed => exact .inl rfl
  | drb drbId drb hfree hflow hdefault hroom =>
    exact .inr ⟨drbId, drb, hfree, hflow, hdefault, hroom, entries_insert_perm (find?_drbToAdd hfree) drb⟩

theorem fresh (hfresh : FreshDrbs context (session.drbToAdd.entries ++ update.drbs)) :
    FreshDrbs context (session'.drbToAdd.entries ++ update.drbs) := by
  rcases h.entries_perm with rfl | ⟨drbId, drb, hfree, hflow, hdefault, -, hperm⟩
  · exact hfresh
  · have hmap : context.drbMap.find? drbId = none := by
      rw [← contains_eq_false, Bool.eq_false_iff]
      exact fun hin => hfree (.inl hin)
    refine FreshDrbs.perm (hfresh.cons (e := (drbId, drb)) ?_ ⟨hmap, ?_⟩ hflow hdefault) (hperm.append_right _)
    · intro hid
      rw [List.map_append, List.mem_append] at hid
      rcases hid with hid | hid
      · exact hfree (.inr (.inr (.inl (contains_eq_true.mpr hid))))
      · exact hfree (.inr (.inl (mem_ids_of_containsDrb hid)))
    · exact fun hused => hfree (.inr (.inr (.inr hused)))

theorem ownFlows {todo : List QosFlowId}
    (hown : OwnFlows context (session.drbToAdd.entries ++ update.drbs) (qfi :: todo)) :
    OwnFlows context (session'.drbToAdd.entries ++ update.drbs) todo := by
  rcases h.entries_perm with rfl | ⟨drbId, drb, -, hflow, -, -, hperm⟩
  · exact hown.sublist ((List.sublist_cons_self _ _).append_left _)
  · apply hown.perm
    have hflows := (((hperm.append_right update.drbs).flatMap_right flowsOf).append_right todo)
    refine hflows.trans ?_
    rw [List.cons_append, List.flatMap_cons, flowsOf, hflow]
    exact List.perm_middle.symm

end

end Allocates

inductive AllocatesAll (cfg : UpResourceManagerCfg) (context : UpContext) (update : UpConfigUpdate) :
    UpPduSessionContextUpdate → List QosFlowId → UpPduSessionContextUpdate → Prop
  | nil (session : UpPduSessionContextUpdate) : AllocatesAll cfg context update session [] session
  | modify {session session' : UpPduSessionContextUpdate} {qfis : List QosFlowId} (drbs : OrderedMap DrbId UpDrbContext)
      (h : AllocatesAll cfg context update { session with drbToModify := drbs } qfis session') :
      AllocatesAll cfg context update session qfis session'
  | cons {session session₁ session' : UpPduSessionContextUpdate} {qfi : QosFlowId} {qfis : List QosFlowId}
      {r : Option DrbId} (hfirst : Allocates cfg context update session qfi r session₁)
      (hrest : AllocatesAll cfg context update session₁ qfis session') :
      AllocatesAll cfg context update session (qfi :: qfis) session'

namespace AllocatesAll

variable {session' : UpPduSessionContextUpdate} {qfis : List QosFlowId}

section

variable (h : AllocatesAll cfg context update session qfis session')
include h

theorem id_eq : session'.id = session.id := by
  induction h with
  | nil => rfl
  | modify drbs _ ih => exact ih
  | cons hfirst _ ih => exact ih.trans hfirst.id_eq

theorem drbToRemove_eq :
    session'.drbToRemove = session.drbToRemove := by
  induction h with
  | nil => rfl
  | modify drbs _ ih => exact ih
  | cons hfirst _ ih => exact ih.trans hfirst.drbToRemove_eq

theorem fresh (hfresh : FreshDrbs context (session.drbToAdd.entries ++ update.drbs)) :
    FreshDrbs context (session'.drbToAdd.entries ++ update.drbs) := by
  induction h with
  | nil => exact hfresh
  | modify drbs _ ih => exact ih hfresh
  | cons hfirst _ ih => exact ih (hfirst.fresh hfresh)

theorem ownFlows {todo : List QosFlowId}
    (hown : OwnFlows context (session.drbToAdd.entries ++ update.drbs) (qfis ++ todo)) :
    OwnFlows context (session'.drbToAdd.entries ++ update.drbs) todo := by
  induction h with
  | nil => exact hown
  | modify drbs _ ih => exact ih hown
  | cons hfirst _ ih => exact ih (hfirst.ownFlows hown)

theorem size_le :
    session'.drbToAdd.size ≤ session.drbToAdd.size + qfis.length := by
  induction h with
  | nil => exact Nat.le_add_right _ _
  | modify drbs _ ih => exact ih
  | cons hfirst _ ih =>
    rw [List.length_cons]
    rcases hfirst.entries_perm with rfl | ⟨drbId, drb, -, -, -, -, hperm⟩
    · exact ih.trans (by omega)
    · have hsize := hperm.length_eq
      rw [List.length_cons] at hsize
      rw [size, size] at ih ⊢
      omega

theorem room :
    session'.drbToAdd = session.drbToAdd ∨ context.drbMap.size < cfg.maxNofDrbsPerUe := by
  induction h with
  | nil => exact .inl rfl
  | modify drbs _ ih => exact ih
  | cons hfirst _ ih =>
    rcases hfirst.entries_perm with rfl | ⟨drbId, drb, -, -, -, hroom, -⟩
    · exact ih
    · exact .inr hroom

end

end AllocatesAll

end Flow

end Ocudu.CuCp
