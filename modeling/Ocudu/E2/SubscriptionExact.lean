import Ocudu.E2.Subscription

/-! The responses to subscription requests, and the indications that follow them. -/

namespace Ocudu.E2

open Machine

variable {δ σ : Type} {mng : E2smReportManager δ σ} {copies : RicAction δ → Bool} {request : RicSubRequest δ}

theorem getSubscriptionResult_eq (e2sm : E2smReportInterface δ σ) (actions : List (RicAction δ)) (sub : Subscription δ σ)
    (admitted : List Nat) : getSubscriptionResult e2sm copies actions sub admitted =
      ({ sub with actionList := sub.actionList ++ (actions.filter (actionSupported e2sm copies)).map newAction },
        admitted ++ (actions.filter (actionSupported e2sm copies)).map RicAction.ricActionId) := by
  induction actions generalizing sub admitted with
  | nil => simp [getSubscriptionResult]
  | cons action actions ih =>
    rw [getSubscriptionResult]
    by_cases h : actionSupported e2sm copies action = true
    · rw [if_pos h, ih, List.filter_cons_of_pos h]
      simp
    · rw [if_neg h, ih, List.filter_cons_of_neg h]

/-- Every report service is there, so the task starts. -/
theorem startActions_eq (e2sm : E2smReportInterface δ σ) (actions : List (RicAction δ))
    (h : ∀ action ∈ actions, action.ricActionType = .report →
      (e2sm.getE2SmReportService action.ricActionDefinition).isSome = true) : ∃ list,
      startActions e2sm (actions.map newAction) = (list, true) ∧
        list.map ActionInfo.ricActionId = actions.map RicAction.ricActionId ∧
        (∀ info ∈ list, info.ricActionType = .report → info.reportService.isSome = true) := by
  induction actions with
  | nil => exact ⟨[], rfl, rfl, fun info hinfo => absurd hinfo List.not_mem_nil⟩
  | cons action actions ih =>
    obtain ⟨list, hstart, hids, hserved⟩ := ih fun a ha => h a (List.mem_cons_of_mem action ha)
    have hfirst := h action List.mem_cons_self
    rw [List.map_cons, startActions]
    by_cases hreport : action.ricActionType = .report
    · obtain ⟨service, hservice⟩ := Option.isSome_iff_exists.mp (hfirst hreport)
      simp only [newAction, hreport, if_true, hservice, Option.isNone_some, Bool.false_eq_true, and_false, if_false]
      rw [hstart]
      refine ⟨_, rfl, ?_, List.forall_mem_cons.mpr ⟨fun _ => rfl, hserved⟩⟩
      rw [List.map_cons, List.map_cons, hids]
    · simp only [newAction, hreport, if_false, false_and]
      rw [hstart]
      refine ⟨_, rfl, ?_, List.forall_mem_cons.mpr ⟨fun h => absurd h hreport, hserved⟩⟩
      rw [List.map_cons, List.map_cons, hids]

/-- The response is exact when it has one item, or when the items that are left out have the id they start with. -/
theorem admittedItems_eq {admitted : List Nat} (h : admitted.length ≤ 1 ∨ ∀ id ∈ admitted, id = 0) :
    admittedItems admitted = admitted := by
  rcases h with hshort | hzero
  · cases admitted with
    | nil => rfl
    | cons id rest =>
      cases rest with
      | nil => rfl
      | cons => exact absurd hshort (by rw [List.length_cons, List.length_cons]; omega)
  · obtain ⟨n, rfl⟩ : ∃ n, admitted = List.replicate n 0 := ⟨_, List.eq_replicate_iff.mpr ⟨rfl, hzero⟩⟩
    have hkeep (m : Nat) : (List.replicate m 0).foldl (fun items id => items.set 0 id) (List.replicate n 0) =
        List.replicate n 0 := by
      induction m with
      | zero => rfl
      | succ m ih =>
        rw [List.replicate_succ, List.foldl_cons]
        cases n with
        | zero => exact ih
        | succ n => exact ih
    rw [admittedItems, List.length_replicate]
    exact hkeep n

theorem indications_eq (id : RicRequestId) (ran : Nat) (ready : ActionInfo δ σ → Bool) {list : List (ActionInfo δ σ)}
    (h : ∀ info ∈ list, info.ricActionType = .report → info.reportService.isSome = true) :
    indications id ran ready list =
      .ok ((list.filter ready).map fun info => .ricIndication id ran info.ricActionId) := by
  induction list with
  | nil => rfl
  | cons info list ih =>
    obtain ⟨hfirst, hrest⟩ := List.forall_mem_cons.mp h
    have hserved : ¬(info.ricActionType = .report ∧ info.reportService.isNone = true) := by
      rintro ⟨hreport, hnone⟩
      have hsome := hfirst hreport
      rw [Option.isSome_iff_ne_none] at hsome
      exact hsome (Option.isNone_iff_eq_none.mp hnone)
    rw [indications, if_neg hserved, ih hrest, ok_bind]
    by_cases hready : ready info = true
    · rw [if_pos hready, List.filter_cons_of_pos hready, List.map_cons]
    · rw [if_neg hready, List.filter_cons_of_neg hready]

/-- The steps that the response and the indications follow from. -/
def Admissible (mng : E2smReportManager δ σ) (s : E2System δ σ) : E2Event δ σ → Prop
  | .subRequest request copies =>
      (admittedActions mng request copies ≠ [] → s.subs request.ricRequestId = none) ∧
      ((admittedActions mng request copies).length ≤ 1 ∨
        ∀ action ∈ admittedActions mng request copies, action.ricActionId = 0) ∧
      ∀ e2sm, mng request.ranFunctionId = some e2sm → ∀ action ∈ admittedActions mng request copies,
        action.ricActionType = .report → (e2sm.getE2SmReportService action.ricActionDefinition).isSome = true
  | _ => True

def Served (subs : Subscriptions δ σ) (id : RicRequestId) (ids : List Nat) : Prop :=
  ∃ sub, subs id = some sub ∧ sub.actionList.map ActionInfo.ricActionId = ids ∧
    ∀ info ∈ sub.actionList, info.ricActionType = .report → info.reportService.isSome = true

structure ExactStep (mng : E2smReportManager δ σ) (s : E2System δ σ) (event : E2Event δ σ) (subs : Subscriptions δ σ)
    (msgs : List E2Message) : Prop where
  response : ∀ id ran ids, .ricSubResponse id ran ids ∈ msgs → ∃ request copies, event = .subRequest request copies ∧
    id = request.ricRequestId ∧ ran = request.ranFunctionId ∧
    ids = (admittedActions mng request copies).map RicAction.ricActionId ∧ Served subs id ids
  indication : ∀ id ran actionId, .ricIndication id ran actionId ∈ msgs →
    ∃ ids, s.ric id = some ids ∧ actionId ∈ ids

def Recorded (s : E2System δ σ) : Prop :=
  ∀ id sub, s.subs id = some sub → ∃ ids, s.ric id = some ids ∧ Served s.subs id ids

theorem Recorded.turn {s : E2System δ σ} (h : Recorded s) {id : RicRequestId} {sub : Subscription δ σ}
    (hsub : s.subs id = some sub) (ready : ActionInfo δ σ → Bool) : ∃ msgs, indicationTurn id ready sub = .ok msgs ∧
      ∀ msg ∈ msgs, ∃ ran actionId ids, msg = .ricIndication id ran actionId ∧
        s.ric id = some ids ∧ actionId ∈ ids := by
  obtain ⟨ids, hric, sub', hsub', hids, hserved⟩ := h id sub hsub
  cases hsub.symm.trans hsub'
  rw [indicationTurn]
  split_ifs
  · refine ⟨_, indications_eq id _ ready hserved, fun msg hmsg => ?_⟩
    obtain ⟨info, hinfo, rfl⟩ := List.mem_map.mp hmsg
    have hmem := List.mem_map_of_mem (f := ActionInfo.ricActionId) (List.mem_of_mem_filter hinfo)
    rw [hids] at hmem
    exact ⟨_, _, ids, rfl, hric, hmem⟩
  · exact ⟨[], rfl, fun msg hmsg => absurd hmsg List.not_mem_nil⟩

theorem receive_indications {msgs : List E2Message} {ric : RicRecord}
    (h : ∀ msg ∈ msgs, ∃ id ran actionId, msg = .ricIndication id ran actionId) :
    msgs.foldl RicRecord.receive ric = ric := by
  induction msgs with
  | nil => rfl
  | cons msg msgs ih =>
    obtain ⟨⟨id, ran, actionId, rfl⟩, hrest⟩ := List.forall_mem_cons.mp h
    exact ih hrest

@[simp] theorem Subscriptions.set_same (subs : Subscriptions δ σ) (id : RicRequestId)
    (sub : Option (Subscription δ σ)) :
    subs.set id sub id = sub := if_pos rfl

theorem Subscriptions.set_other (subs : Subscriptions δ σ) {id id' : RicRequestId} (h : id' ≠ id)
    (sub : Option (Subscription δ σ)) : subs.set id sub id' = subs id' := if_neg h

/-- What the setup procedure does with a request that is admissible. -/
theorem setupProcedure_eq {s : E2System δ σ} (hadm : Admissible mng s (.subRequest request copies)) :
    (∃ subs, setupProcedure mng copies request s.subs =
        (subs, .ricSubFailure request.ricRequestId request.ranFunctionId) ∧
      ∀ id, subs id = none ∨ subs id = s.subs id) ∨
    ∃ subs, setupProcedure mng copies request s.subs = (subs, .ricSubResponse request.ricRequestId
        request.ranFunctionId ((admittedActions mng request copies).map RicAction.ricActionId)) ∧
      Served subs request.ricRequestId ((admittedActions mng request copies).map RicAction.ricActionId) ∧
      ∀ id, id ≠ request.ricRequestId → subs id = s.subs id := by
  obtain ⟨hnew, hids, hserved⟩ := hadm
  rw [setupProcedure, handleSubscriptionSetup]
  cases hmng : mng request.ranFunctionId with
  | none => exact .inl ⟨s.subs, rfl, fun _ => .inr rfl⟩
  | some e2sm =>
    have hadmitted : admittedActions mng request copies =
        request.ricActionToBeSetupList.filter (actionSupported e2sm copies) := by
      rw [admittedActions, hmng]
    rw [← List.length_map (f := RicAction.ricActionId)] at hids
    have hitems : admittedItems ((admittedActions mng request copies).map RicAction.ricActionId) =
        (admittedActions mng request copies).map RicAction.ricActionId := by
      refine admittedItems_eq (hids.imp id fun hzero id hid => ?_)
      obtain ⟨action, haction, rfl⟩ := List.mem_map.mp hid
      exact hzero action haction
    obtain ⟨list, hstart, hlist, hreports⟩ := startActions_eq e2sm (admittedActions mng request copies)
      (hserved e2sm hmng)
    dsimp only
    rw [getSubscriptionResult_eq, ← hadmitted, List.nil_append]
    dsimp only
    by_cases hempty : (admittedActions mng request copies).map RicAction.ricActionId = []
    · rw [if_pos hempty]
      refine .inl ⟨_, rfl, fun id => ?_⟩
      by_cases hid : id = request.ricRequestId
      · exact .inl (hid ▸ Subscriptions.set_same _ _ _)
      · exact .inr (Subscriptions.set_other _ hid _)
    · rw [if_neg hempty, hnew fun hnil => hempty (by rw [hnil]; rfl)]
      dsimp only [Option.getD_none]
      rw [hitems, startSubscription, hmng, Subscriptions.set_same]
      dsimp only
      rw [List.nil_append, hstart]
      refine .inr ⟨_, rfl, ⟨_, Subscriptions.set_same _ _ _, hlist, hreports⟩, fun id hid => ?_⟩
      rw [Subscriptions.set_other _ hid, Subscriptions.set_other _ hid]

theorem Served.congr {subs subs' : Subscriptions δ σ} {id : RicRequestId} {ids : List Nat} (h : Served subs id ids)
    (heq : subs' id = subs id) : Served subs' id ids := by
  obtain ⟨sub, hsub, hrest⟩ := h
  exact ⟨sub, heq.trans hsub, hrest⟩

theorem Recorded.subRequest {s : E2System δ σ} (h : Recorded s) (hadm : Admissible mng s (.subRequest request copies)) :
    ∃ subs msgs, handle mng s.subs (.subRequest request copies) = .ok (subs, msgs) ∧
      ExactStep mng s (.subRequest request copies) subs msgs ∧ Recorded ⟨subs, msgs.foldl RicRecord.receive s.ric⟩ := by
  rcases setupProcedure_eq hadm with ⟨subs, hsetup, hkept⟩ | ⟨subs, hsetup, hserved, hother⟩
  · refine ⟨subs, [.ricSubFailure request.ricRequestId request.ranFunctionId], ?_, ⟨?_, ?_⟩, fun id sub hsub => ?_⟩
    · rw [handle, hsetup]
    · intro id ran ids hmem
      cases List.mem_singleton.mp hmem
    · intro id ran actionId hmem
      cases List.mem_singleton.mp hmem
    · rcases hkept id with hnone | hkept
      · exact absurd (hsub.symm.trans hnone) (Option.some_ne_none sub)
      · obtain ⟨ids, hric, hids⟩ := h id sub (hkept.symm.trans hsub)
        exact ⟨ids, hric, hids.congr hkept⟩
  · refine ⟨subs, [.ricSubResponse request.ricRequestId request.ranFunctionId
      ((admittedActions mng request copies).map RicAction.ricActionId)], ?_, ⟨?_, ?_⟩, fun id sub hsub => ?_⟩
    · rw [handle, hsetup]
    · intro id ran ids hmem
      cases List.mem_singleton.mp hmem
      exact ⟨request, copies, rfl, rfl, rfl, rfl, hserved⟩
    · intro id ran actionId hmem
      cases List.mem_singleton.mp hmem
    · by_cases hid : id = request.ricRequestId
      · rw [hid]
        exact ⟨_, if_pos rfl, hserved⟩
      · obtain ⟨ids, hric, hids⟩ := h id sub ((hother id hid).symm.trans hsub)
        exact ⟨ids, (if_neg hid).trans hric, hids.congr (hother id hid)⟩

theorem Recorded.handle {s : E2System δ σ} (h : Recorded s) {event : E2Event δ σ} (hadm : Admissible mng s event) :
    ∃ subs msgs, E2.handle mng s.subs event = .ok (subs, msgs) ∧ ExactStep mng s event subs msgs ∧
      Recorded ⟨subs, msgs.foldl RicRecord.receive s.ric⟩ := by
  cases event with
  | subRequest request copies => exact h.subRequest hadm
  | subDeleteRequest id ready =>
    cases hsub : s.subs id with
    | none =>
      refine ⟨s.subs, [.ricSubDeleteFailure id], by rw [E2.handle, hsub], ⟨?_, ?_⟩, h⟩
      · intro id' ran ids hmem
        cases List.mem_singleton.mp hmem
      · intro id' ran actionId hmem
        cases List.mem_singleton.mp hmem
    | some sub =>
      obtain ⟨msgs, hturn, hmsgs⟩ := h.turn hsub ready
      refine ⟨s.subs.set id none, msgs ++ [.ricSubDeleteResponse id], ?_, ⟨?_, ?_⟩, fun id' sub' hsub' => ?_⟩
      · rw [E2.handle, hsub]
        dsimp only
        rw [hturn]
        rfl
      · intro id' ran ids hmem
        rcases List.mem_append.mp hmem with hind | hdel
        · obtain ⟨_, _, _, heq, -⟩ := hmsgs _ hind
          cases heq
        · cases List.mem_singleton.mp hdel
      · intro id' ran actionId hmem
        rcases List.mem_append.mp hmem with hind | hdel
        · obtain ⟨_, _, ids, heq, hric, hids⟩ := hmsgs _ hind
          cases heq
          exact ⟨ids, hric, hids⟩
        · cases List.mem_singleton.mp hdel
      · replace hsub' : s.subs.set id none id' = some sub' := hsub'
        have hid : id' ≠ id := fun heq => by
          rw [heq, Subscriptions.set_same] at hsub'
          cases hsub'
        rw [Subscriptions.set_other _ hid] at hsub'
        obtain ⟨ids, hric, hids⟩ := h id' sub' hsub'
        refine ⟨ids, ?_, hids.congr (Subscriptions.set_other _ hid _)⟩
        have hkept : msgs.foldl RicRecord.receive s.ric = s.ric := receive_indications fun msg hmsg => by
          obtain ⟨ran, actionId, _, heq, -⟩ := hmsgs msg hmsg
          exact ⟨id, ran, actionId, heq⟩
        rw [List.foldl_append, hkept]
        exact (if_neg hid).trans hric
  | reportPeriod id ready =>
    cases hsub : s.subs id with
    | none =>
      refine ⟨s.subs, [], by rw [E2.handle, hsub], ⟨?_, ?_⟩, h⟩
      · exact fun _ _ _ hmem => absurd hmem List.not_mem_nil
      · exact fun _ _ _ hmem => absurd hmem List.not_mem_nil
    | some sub =>
      obtain ⟨msgs, hturn, hmsgs⟩ := h.turn hsub ready
      refine ⟨s.subs, msgs, ?_, ⟨?_, ?_⟩, ?_⟩
      · rw [E2.handle, hsub]
        dsimp only
        rw [hturn]
        rfl
      · intro id' ran ids hmem
        obtain ⟨_, _, _, heq, -⟩ := hmsgs _ hmem
        cases heq
      · intro id' ran actionId hmem
        obtain ⟨_, _, ids, heq, hric, hids⟩ := hmsgs _ hmem
        cases heq
        exact ⟨ids, hric, hids⟩
      · rw [receive_indications fun msg hmsg => ?_]
        · exact h
        · obtain ⟨ran, actionId, _, heq, -⟩ := hmsgs msg hmsg
          exact ⟨id, ran, actionId, heq⟩

/-- In every run whose steps are admissible, the next admissible step is handled and its messages are exact. -/
theorem subscription_run_exact (mng : E2smReportManager δ σ) (events : List (E2Event δ σ))
    (hadm : Admits (E2System.step mng) (Admissible mng) E2System.init events) :
    ∃ s, run (E2System.step mng) E2System.init events = .ok s ∧ ∀ event, Admissible mng s event →
      ∃ subs msgs, handle mng s.subs event = .ok (subs, msgs) ∧ ExactStep mng s event subs msgs := by
  have hinit : Recorded (E2System.init (δ := δ) (σ := σ)) := fun id sub hsub => by cases hsub
  obtain ⟨s, hrun, hs⟩ := run_total Recorded (fun s event hs hadm => by
    obtain ⟨subs, msgs, hhandle, -, hnext⟩ := hs.handle hadm
    exact ⟨_, by rw [E2System.step, hhandle]; rfl, hnext⟩) hinit hadm
  refine ⟨s, hrun, fun event hevent => ?_⟩
  obtain ⟨subs, msgs, hhandle, hexact, -⟩ := hs.handle hevent
  exact ⟨subs, msgs, hhandle, hexact⟩

def everyAction : E2smReportInterface Nat Nat := ⟨fun _ => true, some⟩

def oneReport : RicSubRequest Nat := ⟨(1, 1), 2, [⟨7, .report, 0⟩]⟩

theorem subscription_run_exact_one : ∃ s, run (E2System.step fun _ => some everyAction) E2System.init
    [.subRequest oneReport fun _ => true, .reportPeriod (1, 1) fun _ => true] = .ok s ∧
    ∀ event, Admissible (fun _ => some everyAction) s event → ∃ subs msgs,
      handle (fun _ => some everyAction) s.subs event = .ok (subs, msgs) ∧
        ExactStep (fun _ => some everyAction) s event subs msgs :=
  subscription_run_exact (fun _ => some everyAction) _
    ⟨⟨fun _ => rfl, .inl (Nat.le_refl 1), fun _ he _ _ _ => by cases he; rfl⟩, fun _ _ => ⟨trivial, fun _ _ => trivial⟩⟩

def twoReports : RicSubRequest Nat := ⟨(1, 1), 2, [⟨7, .report, 0⟩, ⟨8, .report, 0⟩]⟩

/-- The response to a request for the actions 7 and 8 lists 8 and 0. -/
theorem second_item_not_filled : (handle (fun _ => some everyAction) (fun _ => none)
      (.subRequest twoReports fun _ => true)).map Prod.snd = .ok [.ricSubResponse (1, 1) 2 [8, 0]] ∧
    (admittedActions (fun _ => some everyAction) twoReports fun _ => true).map RicAction.ricActionId = [7, 8] :=
  ⟨rfl, rfl⟩

end Ocudu.E2
