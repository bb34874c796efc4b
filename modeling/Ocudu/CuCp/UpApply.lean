import Ocudu.CuCp.UpPlan

/-! What applying an update keeps: the DRB map names the session of each DRB, the QoS flow map the DRB of each flow. -/

namespace Ocudu.CuCp

open OrderedMap

def Carries (context : UpContext) (psi : PduSessionId) (drbId : DrbId) (qfi : QosFlowId) : Prop :=
  ∃ session drb, context.pduSessions.find? psi = some session ∧ session.drbs.find? drbId = some drb ∧
    qfi ∈ drb.qosFlows.keys

def DrbsMapped (context : UpContext) : Prop :=
  ∀ drbId psi, context.drbMap.find? drbId = some psi ↔
    ∃ session, context.pduSessions.find? psi = some session ∧ drbId ∈ session.drbs.keys

def FlowsMapped (context : UpContext) : Prop :=
  ∀ qfi drbId, context.qosFlowMap.find? qfi = some drbId ↔ ∃ psi, Carries context psi drbId qfi

structure UpContext.Wf (context : UpContext) : Prop where
  drbs : DrbsMapped context
  ids : ∀ psi session, context.pduSessions.find? psi = some session → session.id = psi
  oneFlow : OneFlow context
  used : ∀ drbId ∈ context.drbMap.keys, drbId ∈ context.usedDrbIds

structure Ready (context : UpContext) (drbs : List DrbEntry) : Prop where
  wf : context.Wf
  ids : (drbs.map Prod.fst).Nodup
  unused : ∀ e ∈ drbs, context.drbMap.find? e.1 = none
  oneFlow : ∀ e ∈ drbs, ∃ qfi, flowsOf e = [qfi]

structure FlowsReady (context : UpContext) (drbs : List DrbEntry) : Prop where
  mapped : FlowsMapped context
  own : OwnFlows context drbs []

def whole (sc : SessionAndContext) : UpContext :=
  { sc.2 with pduSessions := sc.2.pduSessions.insert sc.1.id sc.1 }

theorem wf_empty : UpContext.empty.Wf where
  drbs drbId psi := iff_of_false (fun h => by cases h) (fun ⟨_, h, _⟩ => by cases h)
  ids _ _ h := by cases h
  oneFlow _ _ _ _ h := by cases h
  used _ h := by cases h

theorem flowsMapped_empty : FlowsMapped .empty := by
  intro qfi drbId
  constructor
  · intro h
    cases h
  · rintro ⟨psi, session, drb, h, -⟩
    cases h

theorem Carries.drbMap {context : UpContext} {psi : PduSessionId} {drbId : DrbId} {qfi : QosFlowId}
    (hdrbs : DrbsMapped context) (h : Carries context psi drbId qfi) : context.drbMap.find? drbId = some psi := by
  obtain ⟨session, drb, hsession, hdrb, -⟩ := h
  exact (hdrbs drbId psi).mpr ⟨session, hsession, mem_keys.mpr ⟨drb, hdrb⟩⟩

section AddDrb

variable {sc : SessionAndContext} {e : DrbEntry} {rest : List DrbEntry}

theorem find?_whole (sc : SessionAndContext) (psi : PduSessionId) :
    (whole sc).pduSessions.find? psi = if psi = sc.1.id then some sc.1 else sc.2.pduSessions.find? psi :=
  find?_insert _ _ _ _

@[simp] theorem find?_whole_self (sc : SessionAndContext) : (whole sc).pduSessions.find? sc.1.id = some sc.1 := by
  rw [find?_whole, if_pos rfl]

theorem drbs_find?_none (h : Ready (whole sc) (e :: rest)) : sc.1.drbs.find? e.1 = none := by
  rw [find?_eq_none]
  intro hin
  have hmap := (h.wf.drbs e.1 sc.1.id).mpr ⟨sc.1, find?_whole_self sc, hin⟩
  rw [h.unused e List.mem_cons_self] at hmap
  cases hmap

theorem find?_addDrb (psi : PduSessionId) :
    (whole (addDrb sc e)).pduSessions.find? psi =
      if psi = sc.1.id then some { sc.1 with drbs := sc.1.drbs.emplace e.1 e.2 } else (whole sc).pduSessions.find? psi := by
  rw [find?_whole, find?_whole]
  show (if psi = sc.1.id then _ else _) = _
  split_ifs with heq
  · rfl
  · rfl

theorem Ready.addDrb (h : Ready (whole sc) (e :: rest)) : Ready (whole (addDrb sc e)) rest := by
  have hnone := drbs_find?_none h
  have hnew : sc.2.drbMap.find? e.1 = none := h.unused e List.mem_cons_self
  have hmap (drbId : DrbId) : (whole (CuCp.addDrb sc e)).drbMap.find? drbId =
      if drbId = e.1 then some sc.1.id else sc.2.drbMap.find? drbId := by
    show (sc.2.drbMap.emplace e.1 sc.1.id).find? drbId = _
    rw [emplace_eq_insert hnew, find?_insert]
  obtain ⟨hid, hids⟩ := List.nodup_cons.mp h.ids
  refine ⟨⟨?_, ?_, ?_, ?_⟩, hids, ?_, fun e' he' => h.oneFlow e' (List.mem_cons_of_mem _ he')⟩
  · intro drbId psi
    rw [hmap, find?_addDrb, emplace_eq_insert hnone]
    have hold := h.wf.drbs drbId psi
    have hself := h.wf.drbs e.1 psi
    rw [show (whole sc).drbMap = sc.2.drbMap from rfl] at hold hself
    split_ifs with hdrb hpsi hpsi
    · refine iff_of_true (by rw [hpsi]) ⟨_, rfl, ?_⟩
      rw [mem_keys]
      exact ⟨e.2, by rw [find?_insert, if_pos hdrb]⟩
    · rw [Option.some_inj]
      refine iff_of_false (Ne.symm hpsi) ?_
      rw [hdrb, ← hself, hnew]
      exact fun hsome => by cases hsome
    · rw [hold, hpsi, find?_whole_self]
      constructor
      · rintro ⟨session, ⟨⟩, hin⟩
        obtain ⟨drb, hdrb'⟩ := mem_keys.mp hin
        exact ⟨_, rfl, mem_keys.mpr ⟨drb, by rw [find?_insert, if_neg hdrb, hdrb']⟩⟩
      · rintro ⟨session, ⟨⟩, hin⟩
        obtain ⟨drb, hdrb'⟩ := mem_keys.mp hin
        rw [find?_insert, if_neg hdrb] at hdrb'
        exact ⟨_, rfl, mem_keys.mpr ⟨drb, hdrb'⟩⟩
    · exact hold
  · intro psi session hfind
    rw [find?_addDrb] at hfind
    split_ifs at hfind with hpsi
    · cases hfind
      exact hpsi.symm
    · exact h.wf.ids psi session hfind
  · intro psi session drbId drb hfind hdrb
    rw [find?_addDrb] at hfind
    split_ifs at hfind with hpsi
    · cases hfind
      rw [emplace_eq_insert hnone, find?_insert] at hdrb
      split_ifs at hdrb with heq
      · cases hdrb
        exact h.oneFlow e List.mem_cons_self
      · exact h.wf.oneFlow _ _ _ _ (find?_whole_self sc) hdrb
    · exact h.wf.oneFlow _ _ _ _ hfind hdrb
  · intro drbId hin
    obtain ⟨psi, hpsi⟩ := mem_keys.mp hin
    rw [hmap] at hpsi
    split_ifs at hpsi with heq
    · exact Finset.mem_insert.mpr (.inl heq)
    · exact Finset.mem_insert_of_mem (h.wf.used drbId (mem_keys.mpr ⟨psi, hpsi⟩))
  · intro e' he'
    rw [hmap, if_neg]
    · exact h.unused e' (List.mem_cons_of_mem _ he')
    · exact fun heq => hid (heq ▸ List.mem_map_of_mem he')

theorem carries_addDrb {psi : PduSessionId} {drbId : DrbId} {qfi : QosFlowId} (h : Ready (whole sc) (e :: rest)) :
    Carries (whole (addDrb sc e)) psi drbId qfi ↔
      Carries (whole sc) psi drbId qfi ∨ psi = sc.1.id ∧ drbId = e.1 ∧ qfi ∈ flowsOf e := by
  have hnone := drbs_find?_none h
  rw [Carries, find?_addDrb, emplace_eq_insert hnone]
  split_ifs with hpsi
  · rw [Carries, hpsi, find?_whole_self]
    constructor
    · rintro ⟨session, drb, ⟨⟩, hdrb, hin⟩
      rw [find?_insert] at hdrb
      split_ifs at hdrb with heq
      · cases hdrb
        exact .inr ⟨rfl, heq, hin⟩
      · exact .inl ⟨_, drb, rfl, hdrb, hin⟩
    · rintro (⟨session, drb, ⟨⟩, hdrb, hin⟩ | ⟨-, rfl, hin⟩)
      · refine ⟨_, drb, rfl, ?_, hin⟩
        rw [find?_insert, if_neg, hdrb]
        rintro rfl
        rw [hnone] at hdrb
        cases hdrb
      · exact ⟨_, e.2, rfl, by rw [find?_insert, if_pos rfl], hin⟩
  · exact ⟨.inl, fun h => h.resolve_right fun h => hpsi h.1⟩

theorem FlowsReady.addDrb (h : Ready (whole sc) (e :: rest)) (hflows : FlowsReady (whole sc) (e :: rest)) :
    FlowsReady (whole (addDrb sc e)) rest := by
  obtain ⟨qfi, hqfi⟩ := h.oneFlow e List.mem_cons_self
  have hown := hflows.own
  have hflow : (e :: rest).flatMap flowsOf ++ [] = qfi :: (rest.flatMap flowsOf ++ []) := by
    rw [List.flatMap_cons, hqfi]
    rfl
  obtain ⟨hnin, hnodup⟩ := List.nodup_cons.mp (hflow ▸ hown.flows)
  have hnone : sc.2.qosFlowMap.find? qfi = none := hown.unmapped qfi (by rw [hflow]; exact List.mem_cons_self)
  have hmap (q : QosFlowId) : (whole (CuCp.addDrb sc e)).qosFlowMap.find? q =
      if q = qfi then some e.1 else sc.2.qosFlowMap.find? q := by
    show ((flowsOf e).foldl (fun flows q => flows.emplace q e.1) sc.2.qosFlowMap).find? q = _
    rw [hqfi, List.foldl_cons, List.foldl_nil, emplace_eq_insert hnone, find?_insert]
  have hold (q : QosFlowId) (drbId : DrbId) : sc.2.qosFlowMap.find? q = some drbId ↔
      ∃ psi, Carries (whole sc) psi drbId q := hflows.mapped q drbId
  refine ⟨?_, hnodup, ?_⟩
  · intro q drbId
    simp only [carries_addDrb h]
    rw [hmap, hqfi, List.mem_singleton]
    split_ifs with heq
    · constructor
      · rintro ⟨⟩
        exact ⟨sc.1.id, .inr ⟨rfl, rfl, heq⟩⟩
      · rintro ⟨psi, hpsi | ⟨-, rfl, -⟩⟩
        · have hsome := (hold q drbId).mpr ⟨psi, hpsi⟩
          rw [heq, hnone] at hsome
          cases hsome
        · rfl
    · rw [hold]
      exact exists_congr fun psi => ⟨.inl, fun h => h.resolve_right fun h => heq h.2.2⟩
  · intro q hq
    rw [hmap, if_neg]
    · exact hown.unmapped q (by rw [hflow]; exact List.mem_cons_of_mem _ hq)
    · exact fun heq => hnin (heq ▸ hq)

theorem Ready.addDrbs {drbs : List DrbEntry} (h : Ready (whole sc) (drbs ++ rest)) :
    Ready (whole (drbs.foldl CuCp.addDrb sc)) rest := by
  induction drbs generalizing sc with
  | nil => exact h
  | cons e drbs ih => exact ih h.addDrb

theorem FlowsReady.addDrbs {drbs : List DrbEntry} (h : Ready (whole sc) (drbs ++ rest))
    (hflows : FlowsReady (whole sc) (drbs ++ rest)) : FlowsReady (whole (drbs.foldl CuCp.addDrb sc)) rest := by
  induction drbs generalizing sc with
  | nil => exact hflows
  | cons e drbs ih => exact ih h.addDrb (hflows.addDrb h)

theorem addDrbs_frame (drbs : List DrbEntry) (sc : SessionAndContext) :
    (drbs.foldl addDrb sc).2.pduSessions = sc.2.pduSessions ∧ (drbs.foldl addDrb sc).1.id = sc.1.id := by
  induction drbs generalizing sc with
  | nil => exact ⟨rfl, rfl⟩
  | cons e drbs ih => exact ih (addDrb sc e)

theorem mem_keys_addDrbs {drbId : DrbId} (drbs : List DrbEntry) {sc : SessionAndContext} (h : drbId ∈ sc.1.drbs.keys) :
    drbId ∈ (drbs.foldl addDrb sc).1.drbs.keys := by
  induction drbs generalizing sc with
  | nil => exact h
  | cons e drbs ih =>
    apply ih
    obtain ⟨drb, hdrb⟩ := mem_keys.mp h
    show drbId ∈ (sc.1.drbs.emplace e.1 e.2).keys
    rw [mem_keys]
    rw [find?_emplace]
    split_ifs
    · exact ⟨_, rfl⟩
    · exact ⟨drb, hdrb⟩

end AddDrb

section RemoveDrb

variable {sc sc' : SessionAndContext} {drbId : DrbId} {drb : UpDrbContext} {rest : List DrbEntry}

def withoutDrb (sc : SessionAndContext) (drbId : DrbId) (drb : UpDrbContext) : SessionAndContext :=
  ({ sc.1 with drbs := sc.1.drbs.erase drbId },
    { sc.2 with
      qosFlowMap := drb.qosFlows.keys.foldl (fun flows qfi => flows.erase qfi) sc.2.qosFlowMap,
      drbMap := sc.2.drbMap.erase drbId })

theorem removeDrb_eq_ok (h : removeDrb sc drbId = .ok sc') :
    ∃ drb, sc.1.drbs.find? drbId = some drb ∧ sc' = withoutDrb sc drbId drb := by
  obtain ⟨drb, hdrb, h⟩ := bind_eq_ok.mp h
  cases h
  exact ⟨drb, at?_eq_ok hdrb, rfl⟩

theorem find?_withoutDrb (sc : SessionAndContext) (drbId : DrbId) (drb : UpDrbContext) (psi : PduSessionId) :
    (whole (withoutDrb sc drbId drb)).pduSessions.find? psi =
      if psi = sc.1.id then some { sc.1 with drbs := sc.1.drbs.erase drbId } else (whole sc).pduSessions.find? psi := by
  rw [find?_whole, find?_whole]
  show (if psi = sc.1.id then _ else _) = _
  split_ifs with heq
  · rfl
  · rfl

theorem Ready.withoutDrb (h : Ready (whole sc) rest) (hdrb : sc.1.drbs.find? drbId = some drb) :
    Ready (whole (withoutDrb sc drbId drb)) rest := by
  have hmap (d : DrbId) : (whole (CuCp.withoutDrb sc drbId drb)).drbMap.find? d =
      if d = drbId then none else sc.2.drbMap.find? d := find?_erase _ _ _
  have howner : sc.2.drbMap.find? drbId = some sc.1.id :=
    (h.wf.drbs drbId sc.1.id).mpr ⟨sc.1, find?_whole_self sc, mem_keys.mpr ⟨drb, hdrb⟩⟩
  refine ⟨⟨?_, ?_, ?_, ?_⟩, h.ids, ?_, h.oneFlow⟩
  · intro d psi
    have hold : sc.2.drbMap.find? d = some psi ↔ _ := h.wf.drbs d psi
    rw [hmap, find?_withoutDrb]
    split_ifs with hd hpsi hpsi
    · refine iff_of_false (fun h => by cases h) ?_
      rintro ⟨session, ⟨⟩, hin⟩
      obtain ⟨b, hb⟩ := mem_keys.mp hin
      rw [find?_erase, if_pos hd] at hb
      cases hb
    · refine iff_of_false (fun h => by cases h) ?_
      rw [← hold, hd, howner]
      exact fun h => hpsi (Option.some_inj.mp h).symm
    · rw [hold, hpsi, find?_whole_self]
      constructor
      · rintro ⟨session, ⟨⟩, hin⟩
        obtain ⟨b, hb⟩ := mem_keys.mp hin
        exact ⟨_, rfl, mem_keys.mpr ⟨b, by rw [find?_erase, if_neg hd, hb]⟩⟩
      · rintro ⟨session, ⟨⟩, hin⟩
        obtain ⟨b, hb⟩ := mem_keys.mp hin
        rw [find?_erase, if_neg hd] at hb
        exact ⟨_, rfl, mem_keys.mpr ⟨b, hb⟩⟩
    · exact hold
  · intro psi session hfind
    rw [find?_withoutDrb] at hfind
    split_ifs at hfind with hpsi
    · cases hfind
      exact hpsi.symm
    · exact h.wf.ids psi session hfind
  · intro psi session d b hfind hb
    rw [find?_withoutDrb] at hfind
    split_ifs at hfind with hpsi
    · cases hfind
      rw [find?_erase] at hb
      split_ifs at hb
      exact h.wf.oneFlow _ _ _ _ (find?_whole_self sc) hb
    · exact h.wf.oneFlow _ _ _ _ hfind hb
  · intro d hin
    obtain ⟨psi, hpsi⟩ := mem_keys.mp hin
    rw [hmap] at hpsi
    split_ifs at hpsi
    exact h.wf.used d (mem_keys.mpr ⟨psi, hpsi⟩)
  · intro e he
    rw [hmap]
    split_ifs
    · rfl
    · exact h.unused e he

theorem carries_withoutDrb {psi : PduSessionId} {d : DrbId} {qfi : QosFlowId} (h : Ready (whole sc) rest)
    (hdrb : sc.1.drbs.find? drbId = some drb) :
    Carries (whole (withoutDrb sc drbId drb)) psi d qfi ↔ Carries (whole sc) psi d qfi ∧ d ≠ drbId := by
  have howner : sc.2.drbMap.find? drbId = some sc.1.id :=
    (h.wf.drbs drbId sc.1.id).mpr ⟨sc.1, find?_whole_self sc, mem_keys.mpr ⟨drb, hdrb⟩⟩
  rw [Carries, find?_withoutDrb]
  split_ifs with hpsi
  · rw [Carries, hpsi, find?_whole_self]
    constructor
    · rintro ⟨session, b, ⟨⟩, hb, hin⟩
      rw [find?_erase] at hb
      split_ifs at hb with heq
      exact ⟨⟨_, b, rfl, hb, hin⟩, heq⟩
    · rintro ⟨⟨session, b, ⟨⟩, hb, hin⟩, hne⟩
      exact ⟨_, b, rfl, by rw [find?_erase, if_neg hne, hb], hin⟩
  · refine ⟨fun hc => ⟨hc, ?_⟩, And.left⟩
    rintro rfl
    have hsome := Carries.drbMap h.wf.drbs hc
    rw [show (whole sc).drbMap.find? d = some sc.1.id from howner] at hsome
    exact hpsi (Option.some_inj.mp hsome).symm

theorem FlowsReady.withoutDrb (h : Ready (whole sc) rest) (hflows : FlowsReady (whole sc) rest)
    (hdrb : sc.1.drbs.find? drbId = some drb) : FlowsReady (whole (withoutDrb sc drbId drb)) rest := by
  obtain ⟨qfi, hqfi⟩ := h.wf.oneFlow _ _ _ _ (find?_whole_self sc) hdrb
  have hmap (q : QosFlowId) : (whole (CuCp.withoutDrb sc drbId drb)).qosFlowMap.find? q =
      if q = qfi then none else sc.2.qosFlowMap.find? q := by
    show (drb.qosFlows.keys.foldl (fun flows q => flows.erase q) sc.2.qosFlowMap).find? q = _
    rw [hqfi, List.foldl_cons, List.foldl_nil, find?_erase]
  have hold (q : QosFlowId) (d : DrbId) : sc.2.qosFlowMap.find? q = some d ↔
      ∃ psi, Carries (whole sc) psi d q := hflows.mapped q d
  have hcarries : Carries (whole sc) sc.1.id drbId qfi :=
    ⟨sc.1, drb, find?_whole_self sc, hdrb, by rw [hqfi]; exact List.mem_singleton_self _⟩
  refine ⟨?_, hflows.own.flows, ?_⟩
  · intro q d
    simp only [carries_withoutDrb h hdrb]
    rw [hmap]
    split_ifs with hq
    · refine iff_of_false (fun h => by cases h) ?_
      rintro ⟨psi, hc, hne⟩
      have hd := (hold q d).mpr ⟨psi, hc⟩
      rw [hq, (hold qfi drbId).mpr ⟨_, hcarries⟩] at hd
      exact hne (Option.some_inj.mp hd).symm
    · rw [hold]
      refine exists_congr fun psi => ⟨fun hc => ⟨hc, ?_⟩, And.left⟩
      rintro rfl
      have hpsi : psi = sc.1.id := by
        have hsome := Carries.drbMap h.wf.drbs hc
        rw [Carries.drbMap h.wf.drbs hcarries] at hsome
        exact (Option.some_inj.mp hsome).symm
      obtain ⟨session, b, hsession, hb, hin⟩ := hc
      rw [hpsi, find?_whole_self] at hsession
      cases hsession
      rw [hdrb] at hb
      cases hb
      rw [hqfi, List.mem_singleton] at hin
      exact hq hin
  · intro q hin
    rw [hmap]
    split_ifs
    · rfl
    · exact hflows.own.unmapped q hin

end RemoveDrb

section Sessions

variable {context context' : UpContext} {session : UpPduSessionContextUpdate} {rest : List DrbEntry}

variable {psi : PduSessionId}

theorem Ready.newSession {protection : Protection} (h : Ready context rest)
    (hnew : context.pduSessions.find? psi = none) : Ready (whole (⟨psi, .empty, protection⟩, context)) rest := by
  refine ⟨⟨?_, ?_, ?_, h.wf.used⟩, h.ids, h.unused, h.oneFlow⟩
  · intro drbId psi'
    refine (h.wf.drbs drbId psi').trans ?_
    rw [find?_whole]
    split_ifs with hpsi
    · rw [hpsi, hnew]
      refine iff_of_false (fun ⟨_, h, _⟩ => by cases h) ?_
      rintro ⟨session, ⟨⟩, hin⟩
      cases hin
    · exact .rfl
  · intro psi' session hfind
    rw [find?_whole] at hfind
    split_ifs at hfind with hpsi
    · cases hfind
      exact hpsi.symm
    · exact h.wf.ids psi' session hfind
  · intro psi' session drbId drb hfind hdrb
    rw [find?_whole] at hfind
    split_ifs at hfind with hpsi
    · cases hfind
      cases hdrb
    · exact h.wf.oneFlow _ _ _ _ hfind hdrb

theorem FlowsReady.newSession {protection : Protection} (h : FlowsReady context rest)
    (hnew : context.pduSessions.find? psi = none) : FlowsReady (whole (⟨psi, .empty, protection⟩, context)) rest := by
  refine ⟨?_, h.own.flows, h.own.unmapped⟩
  intro qfi drbId
  refine (h.mapped qfi drbId).trans (exists_congr fun psi' => ?_)
  rw [Carries, Carries, find?_whole]
  split_ifs with hpsi
  · rw [hpsi, hnew]
    refine iff_of_false (fun ⟨_, _, h, _⟩ => by cases h) ?_
    rintro ⟨session, drb, ⟨⟩, hdrb, -⟩
    cases hdrb
  · exact .rfl

theorem applyAdded_eq (hnew : context.pduSessions.find? session.id = none) :
    applyAdded context session =
      whole (session.drbToAdd.entries.foldl addDrb (⟨session.id, .empty, session.protection⟩, context)) := by
  obtain ⟨hsessions, hid⟩ := addDrbs_frame session.drbToAdd.entries (⟨session.id, .empty, session.protection⟩, context)
  rw [applyAdded, applyUpdateForNewDrbs, whole, emplace_eq_insert]
  rw [hsessions, hid]
  exact hnew

theorem Ready.applyAdded (h : Ready context (session.drbToAdd.entries ++ rest))
    (hnew : context.pduSessions.find? session.id = none) : Ready (CuCp.applyAdded context session) rest := by
  rw [applyAdded_eq hnew]
  exact (h.newSession hnew).addDrbs

theorem FlowsReady.applyAdded (h : Ready context (session.drbToAdd.entries ++ rest))
    (hflows : FlowsReady context (session.drbToAdd.entries ++ rest))
    (hnew : context.pduSessions.find? session.id = none) : FlowsReady (CuCp.applyAdded context session) rest := by
  rw [applyAdded_eq hnew]
  exact (hflows.newSession hnew).addDrbs (h.newSession hnew)

theorem whole_of_find? {old : UpPduSessionContext} (hwf : context.Wf)
    (hold : context.pduSessions.find? session.id = some old) : whole (old, context) = context := by
  rw [whole, hwf.ids _ _ hold, insert_self hold]

theorem Ready.removeDrbs {sc sc' : SessionAndContext} {drbIds : List DrbId} (h : Ready (whole sc) rest)
    (hrun : drbIds.foldlM removeDrb sc = .ok sc') : Ready (whole sc') rest := by
  refine foldlM_inv (fun sc => Ready (whole sc) rest) (fun s drbId s' _ hstep hs => ?_) hrun h
  obtain ⟨drb, hdrb, rfl⟩ := removeDrb_eq_ok hstep
  exact hs.withoutDrb hdrb

theorem FlowsReady.removeDrbs {sc sc' : SessionAndContext} {drbIds : List DrbId} (h : Ready (whole sc) rest)
    (hflows : FlowsReady (whole sc) rest) (hrun : drbIds.foldlM removeDrb sc = .ok sc') : FlowsReady (whole sc') rest := by
  refine (foldlM_inv (fun sc => Ready (whole sc) rest ∧ FlowsReady (whole sc) rest) (fun s drbId s' _ hstep hs => ?_)
    hrun ⟨h, hflows⟩).2
  obtain ⟨drb, hdrb, rfl⟩ := removeDrb_eq_ok hstep
  exact ⟨hs.1.withoutDrb hdrb, hs.2.withoutDrb hs.1 hdrb⟩

theorem removeDrbs_frame {sc sc' : SessionAndContext} {drbIds : List DrbId}
    (hrun : drbIds.foldlM removeDrb sc = .ok sc') : sc'.2.pduSessions = sc.2.pduSessions ∧ sc'.1.id = sc.1.id := by
  refine foldlM_inv (fun s => s.2.pduSessions = sc.2.pduSessions ∧ s.1.id = sc.1.id) (fun s drbId s' _ hstep hs => ?_)
    hrun ⟨rfl, rfl⟩
  obtain ⟨drb, hdrb, rfl⟩ := removeDrb_eq_ok hstep
  exact hs

theorem removeDrbs_ok {sc : SessionAndContext} {drbIds : List DrbId} (hnodup : drbIds.Nodup)
    (hin : ∀ drbId ∈ drbIds, drbId ∈ sc.1.drbs.keys) : ∃ sc', drbIds.foldlM removeDrb sc = .ok sc' := by
  induction drbIds generalizing sc with
  | nil => exact ⟨_, rfl⟩
  | cons drbId drbIds ih =>
    rw [List.forall_mem_cons] at hin
    obtain ⟨hnin, hnodup⟩ := List.nodup_cons.mp hnodup
    obtain ⟨drb, hdrb⟩ := mem_keys.mp hin.1
    have hstep : removeDrb sc drbId = .ok (withoutDrb sc drbId drb) := by
      rw [removeDrb, at?_ok hdrb, ok_bind]
      rfl
    rw [List.foldlM_cons, hstep, ok_bind]
    apply ih hnodup
    intro other hother
    obtain ⟨b, hb⟩ := mem_keys.mp (hin.2 other hother)
    refine mem_keys.mpr ⟨b, ?_⟩
    show (sc.1.drbs.erase drbId).find? other = _
    rw [find?_erase, if_neg, hb]
    rintro rfl
    exact hnin hother

theorem applyModified_eq_ok (h : applyModified context session = .ok context') :
    ∃ old sc, context.pduSessions.find? session.id = some old ∧
      session.drbToRemove.foldlM removeDrb (session.drbToAdd.entries.foldl addDrb (old, context)) = .ok sc ∧
      context' = { sc.2 with pduSessions := sc.2.pduSessions.insert session.id sc.1 } := by
  rw [applyModified] at h
  obtain ⟨u, -, h⟩ := bind_eq_ok.mp h
  obtain ⟨old, hold, h⟩ := bind_eq_ok.mp h
  obtain ⟨sc, hsc, h⟩ := bind_eq_ok.mp h
  cases h
  exact ⟨old, sc, at?_eq_ok hold, hsc, rfl⟩

theorem applyModified_whole {old : UpPduSessionContext} {sc : SessionAndContext} (hwf : context.Wf)
    (hold : context.pduSessions.find? session.id = some old)
    (hrun : session.drbToRemove.foldlM removeDrb (session.drbToAdd.entries.foldl addDrb (old, context)) = .ok sc) :
    whole sc = { sc.2 with pduSessions := sc.2.pduSessions.insert session.id sc.1 } := by
  rw [whole, (removeDrbs_frame hrun).2, (addDrbs_frame _ _).2, hwf.ids _ _ hold]

theorem Ready.applyModified (h : Ready context (session.drbToAdd.entries ++ rest))
    (happly : CuCp.applyModified context session = .ok context') : Ready context' rest := by
  obtain ⟨old, sc, hold, hrun, rfl⟩ := applyModified_eq_ok happly
  rw [← applyModified_whole h.wf hold hrun]
  have hwhole := whole_of_find? h.wf hold
  have hadded : Ready (whole (session.drbToAdd.entries.foldl CuCp.addDrb (old, context))) rest :=
    addDrbs (by rw [hwhole]; exact h)
  exact hadded.removeDrbs hrun

theorem FlowsReady.applyModified (h : Ready context (session.drbToAdd.entries ++ rest))
    (hflows : FlowsReady context (session.drbToAdd.entries ++ rest))
    (happly : CuCp.applyModified context session = .ok context') : FlowsReady context' rest := by
  obtain ⟨old, sc, hold, hrun, rfl⟩ := applyModified_eq_ok happly
  rw [← applyModified_whole h.wf hold hrun]
  have hwhole := whole_of_find? h.wf hold
  have hready : Ready (whole (old, context)) (session.drbToAdd.entries ++ rest) := by
    rw [hwhole]
    exact h
  have hadded : FlowsReady (whole (session.drbToAdd.entries.foldl CuCp.addDrb (old, context))) rest :=
    addDrbs hready (by rw [hwhole]; exact hflows)
  exact hadded.removeDrbs hready.addDrbs hrun

theorem applyModified_ok (hnodup : session.drbToRemove.Nodup)
    {old : UpPduSessionContext} (hold : context.pduSessions.find? session.id = some old)
    (hremove : ∀ drbId ∈ session.drbToRemove, drbId ∈ old.drbs.keys) :
    ∃ context', applyModified context session = .ok context' := by
  have hadded : ∀ drbId ∈ session.drbToRemove,
      drbId ∈ (session.drbToAdd.entries.foldl addDrb (old, context)).1.drbs.keys := by
    intro drbId hin
    exact mem_keys_addDrbs _ (hremove drbId hin)
  obtain ⟨sc, hsc⟩ := removeDrbs_ok hnodup hadded
  have hin : context.pduSessions.contains session.id = true := by
    rw [contains, hold]
    rfl
  rw [applyModified, assert_ok hin, ok_bind, at?_ok hold, ok_bind, applyUpdateForRemovedDrbs, applyUpdateForNewDrbs, hsc,
    ok_bind]
  exact ⟨_, rfl⟩

theorem applyModified_frame (h : applyModified context session = .ok context')
    (hpsi : psi ≠ session.id) : context'.pduSessions.find? psi = context.pduSessions.find? psi := by
  obtain ⟨old, sc, -, hrun, rfl⟩ := applyModified_eq_ok h
  show (sc.2.pduSessions.insert session.id sc.1).find? psi = _
  rw [find?_insert, if_neg hpsi, (removeDrbs_frame hrun).1, (addDrbs_frame _ _).1]

theorem Ready.removeSessionDrbs (sc : SessionAndContext) {drbs : List DrbEntry} (h : Ready (whole sc) rest)
    (hkeys : (drbs.map Prod.fst).Nodup) (hdrbs : ∀ drbId drb, sc.1.drbs.find? drbId = some drb ↔ (drbId, drb) ∈ drbs) :
    ∃ sc', drbs.foldl removeDrbOfSession sc.2 = sc'.2 ∧ sc'.1.id = sc.1.id ∧ sc'.2.pduSessions = sc.2.pduSessions ∧
      (∀ drbId, sc'.1.drbs.find? drbId = none) ∧ Ready (whole sc') rest ∧
        (FlowsReady (whole sc) rest → FlowsReady (whole sc') rest) := by
  induction drbs generalizing sc with
  | nil =>
    refine ⟨sc, rfl, rfl, rfl, fun drbId => ?_, h, id⟩
    rw [Option.eq_none_iff_forall_not_mem]
    intro drb hdrb
    cases (hdrbs drbId drb).mp hdrb
  | cons e drbs ih =>
    obtain ⟨hnin, hnodup⟩ := List.nodup_cons.mp hkeys
    have hfirst : sc.1.drbs.find? e.1 = some e.2 := (hdrbs e.1 e.2).mpr List.mem_cons_self
    have hrest (drbId : DrbId) (drb : UpDrbContext) :
        (CuCp.withoutDrb sc e.1 e.2).1.drbs.find? drbId = some drb ↔ (drbId, drb) ∈ drbs := by
      show (sc.1.drbs.erase e.1).find? drbId = _ ↔ _
      rw [find?_erase]
      split_ifs with heq
      · refine iff_of_false (fun h => by cases h) fun hin => hnin ?_
        exact heq ▸ List.mem_map_of_mem hin
      · rw [hdrbs, List.mem_cons]
        exact ⟨fun h => h.resolve_left fun h => heq (congrArg Prod.fst h), .inr⟩
    obtain ⟨sc', hfold, hid, hsessions, hempty, hready, hflows⟩ :=
      ih (CuCp.withoutDrb sc e.1 e.2) (h.withoutDrb hfirst) hnodup hrest
    exact ⟨sc', hfold, hid, hsessions, hempty, hready, fun hf => hflows (hf.withoutDrb h hfirst)⟩

theorem applyRemoved_eq_ok (h : applyRemoved context psi = .ok context') :
    ∃ session, context.pduSessions.find? psi = some session ∧
      context' = { session.drbs.entries.foldl removeDrbOfSession context with
        pduSessions := (session.drbs.entries.foldl removeDrbOfSession context).pduSessions.erase psi } := by
  rw [applyRemoved] at h
  obtain ⟨u, -, h⟩ := bind_eq_ok.mp h
  obtain ⟨session, hsession, h⟩ := bind_eq_ok.mp h
  cases h
  exact ⟨session, at?_eq_ok hsession, rfl⟩

theorem applyRemoved_ok (h : psi ∈ context.pduSessions.keys) :
    ∃ context', applyRemoved context psi = .ok context' := by
  obtain ⟨session, hsession⟩ := mem_keys.mp h
  rw [applyRemoved, assert_ok (contains_eq_true.mpr h), ok_bind, at?_ok hsession, ok_bind]
  exact ⟨_, rfl⟩

theorem Ready.eraseSession {sc : SessionAndContext} (h : Ready (whole sc) rest)
    (hempty : ∀ drbId, sc.1.drbs.find? drbId = none) :
    Ready { sc.2 with pduSessions := sc.2.pduSessions.erase sc.1.id } rest := by
  have hfind (psi : PduSessionId) : (sc.2.pduSessions.erase sc.1.id).find? psi =
      if psi = sc.1.id then none else (whole sc).pduSessions.find? psi := by
    rw [find?_erase, find?_whole]
    split_ifs <;> rfl
  refine ⟨⟨?_, ?_, ?_, h.wf.used⟩, h.ids, h.unused, h.oneFlow⟩
  · intro drbId psi
    refine (h.wf.drbs drbId psi).trans ?_
    rw [hfind]
    split_ifs with hpsi
    · rw [hpsi, find?_whole_self]
      refine iff_of_false ?_ (fun ⟨_, h, _⟩ => by cases h)
      rintro ⟨session, ⟨⟩, hin⟩
      obtain ⟨drb, hdrb⟩ := mem_keys.mp hin
      rw [hempty] at hdrb
      cases hdrb
    · exact .rfl
  · intro psi session hsome
    rw [hfind] at hsome
    split_ifs at hsome
    exact h.wf.ids psi session hsome
  · intro psi session drbId drb hsome
    rw [hfind] at hsome
    split_ifs at hsome
    exact h.wf.oneFlow psi session drbId drb hsome

theorem FlowsReady.eraseSession {sc : SessionAndContext} (h : FlowsReady (whole sc) rest)
    (hempty : ∀ drbId, sc.1.drbs.find? drbId = none) :
    FlowsReady { sc.2 with pduSessions := sc.2.pduSessions.erase sc.1.id } rest := by
  refine ⟨?_, h.own.flows, h.own.unmapped⟩
  intro qfi drbId
  refine (h.mapped qfi drbId).trans (exists_congr fun psi => ?_)
  rw [Carries, Carries, find?_whole, find?_erase]
  split_ifs
  · refine iff_of_false ?_ (fun ⟨_, _, h, _⟩ => by cases h)
    rintro ⟨session, drb, ⟨⟩, hdrb, -⟩
    rw [hempty] at hdrb
    cases hdrb
  · exact .rfl

theorem applyRemoved_ready (h : Ready context rest) (happly : applyRemoved context psi = .ok context') :
    Ready context' rest ∧ (FlowsReady context rest → FlowsReady context' rest) := by
  obtain ⟨session, hsession, rfl⟩ := applyRemoved_eq_ok happly
  have hid := h.wf.ids psi session hsession
  have hwhole : whole (session, context) = context := by
    rw [whole, hid, insert_self hsession]
  obtain ⟨sc, hfold, hsc, hsessions, hempty, hready, hflows⟩ :=
    Ready.removeSessionDrbs (session, context) (hwhole.symm ▸ h) session.drbs.nodup_keys
      (fun drbId drb => find?_eq_some)
  have hpsi : sc.1.id = psi := hsc.trans hid
  rw [show session.drbs.entries.foldl removeDrbOfSession context = sc.2 from hfold, ← hpsi]
  exact ⟨hready.eraseSession hempty, fun hf => (hflows (hwhole.symm ▸ hf)).eraseSession hempty⟩

theorem applyRemoved_frame {psi psi' : PduSessionId} (h : applyRemoved context psi = .ok context') (hne : psi' ≠ psi) :
    context'.pduSessions.find? psi' = context.pduSessions.find? psi' := by
  have hframe (drbs : List DrbEntry) (context : UpContext) :
      (drbs.foldl removeDrbOfSession context).pduSessions = context.pduSessions := by
    induction drbs generalizing context with
    | nil => rfl
    | cons e drbs ih => exact ih (removeDrbOfSession context e)
  obtain ⟨session, -, rfl⟩ := applyRemoved_eq_ok h
  show ((session.drbs.entries.foldl removeDrbOfSession context).pduSessions.erase psi).find? psi' = _
  rw [hframe, find?_erase, if_neg hne]

end Sessions

end Ocudu.CuCp
