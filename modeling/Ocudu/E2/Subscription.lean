import Ocudu.Basic.Machine

/-! Subscriptions of a RIC: the setup and delete procedures, `e2_subscription_manager_impl.cpp`, and the procedure that
sends the indications of a subscription. -/

namespace Ocudu.E2

inductive RicActionType
  | report
  | insert
  | policy
  deriving DecidableEq

structure RicAction (δ : Type) where
  ricActionId : Nat
  ricActionType : RicActionType
  ricActionDefinition : δ

/-- What subscriptions use of `e2sm_interface`. -/
structure E2smReportInterface (δ σ : Type) where
  actionSupported : RicAction δ → Bool
  getE2SmReportService : δ → Option σ

abbrev RicRequestId := Nat × Nat

structure RicSubRequest (δ : Type) where
  ricRequestId : RicRequestId
  ranFunctionId : Nat
  ricActionToBeSetupList : List (RicAction δ)

structure ActionInfo (δ σ : Type) where
  actionDefinition : δ
  ricActionId : Nat
  ricActionType : RicActionType
  reportService : Option σ

structure Subscription (δ σ : Type) where
  ranFunctionId : Nat
  actionList : List (ActionInfo δ σ)
  indicationTask : Bool

inductive E2Message
  | ricSubResponse (id : RicRequestId) (ranFunctionId : Nat) (ricActionsAdmitted : List Nat)
  | ricSubFailure (id : RicRequestId) (ranFunctionId : Nat)
  | ricSubDeleteResponse (id : RicRequestId)
  | ricSubDeleteFailure (id : RicRequestId)
  | ricIndication (id : RicRequestId) (ranFunctionId ricActionId : Nat)

inductive E2Fault
  | nullReportService

variable {δ σ : Type}

abbrev E2smReportManager (δ σ : Type) := Nat → Option (E2smReportInterface δ σ)

abbrev Subscriptions (δ σ : Type) := RicRequestId → Option (Subscription δ σ)

def Subscriptions.set (subs : Subscriptions δ σ) (id : RicRequestId) (sub : Option (Subscription δ σ)) :
    Subscriptions δ σ := fun id' => if id' = id then sub else subs id'

/-- `action_supported`, without the entry that it adds; `copies` says whether the definition is copied. -/
def actionSupported (e2sm : E2smReportInterface δ σ) (copies : RicAction δ → Bool) (action : RicAction δ) : Bool :=
  copies action && e2sm.actionSupported action

def newAction (action : RicAction δ) : ActionInfo δ σ :=
  ⟨action.ricActionDefinition, action.ricActionId, action.ricActionType, none⟩

def getSubscriptionResult (e2sm : E2smReportInterface δ σ) (copies : RicAction δ → Bool) :
    List (RicAction δ) → Subscription δ σ → List Nat → Subscription δ σ × List Nat
  | [], sub, admitted => (sub, admitted)
  | action :: actions, sub, admitted =>
    if actionSupported e2sm copies action then
      getSubscriptionResult e2sm copies actions { sub with actionList := sub.actionList ++ [newAction action] }
        (admitted ++ [action.ricActionId])
    else getSubscriptionResult e2sm copies actions sub admitted

variable (mng : E2smReportManager δ σ)

def handleSubscriptionSetup (copies : RicAction δ → Bool) (msg : RicSubRequest δ)
    (subs : Subscriptions δ σ) : Subscriptions δ σ × Option (List Nat) :=
  match mng msg.ranFunctionId with
  | none => (subs, none)
  | some e2sm =>
    -- a subscription that is there already stays, and gets the actions in addition
    let sub := (subs msg.ricRequestId).getD ⟨msg.ranFunctionId, [], false⟩
    let (sub, admitted) := getSubscriptionResult e2sm copies msg.ricActionToBeSetupList sub []
    if admitted = [] then (subs.set msg.ricRequestId none, none)
    else (subs.set msg.ricRequestId (some sub), some admitted)

def startActions (e2sm : E2smReportInterface δ σ) : List (ActionInfo δ σ) → List (ActionInfo δ σ) × Bool
  | [] => ([], true)
  | action :: actions =>
    let action := if action.ricActionType = .report then
        { action with reportService := e2sm.getE2SmReportService action.actionDefinition } else action
    if action.ricActionType = .report ∧ action.reportService.isNone then (action :: actions, false)
    else
      let (actions, started) := startActions e2sm actions
      (action :: actions, started)

def startSubscription (id : RicRequestId) (ranFunctionId : Nat) (subs : Subscriptions δ σ) :
    Subscriptions δ σ :=
  match mng ranFunctionId, subs id with
  | some e2sm, some sub =>
    let (actionList, started) := startActions e2sm sub.actionList
    subs.set id (some { sub with actionList, indicationTask := sub.indicationTask || started })
  | _, _ => subs

/-- `send_e2_subscription_setup_response`: every admitted id goes to the first item. -/
def admittedItems (admitted : List Nat) : List Nat :=
  admitted.foldl (fun items id => items.set 0 id) (List.replicate admitted.length 0)

def setupProcedure (copies : RicAction δ → Bool) (request : RicSubRequest δ)
    (subs : Subscriptions δ σ) : Subscriptions δ σ × E2Message :=
  match handleSubscriptionSetup mng copies request subs with
  | (subs, some admitted) =>
    (startSubscription mng request.ricRequestId request.ranFunctionId subs,
      .ricSubResponse request.ricRequestId request.ranFunctionId (admittedItems admitted))
  | (subs, none) => (subs, .ricSubFailure request.ricRequestId request.ranFunctionId)

/-- One turn of `e2ap_indication_procedure`. An action is `ready` when its message is there and fits a buffer. -/
def indications (id : RicRequestId) (ranFunctionId : Nat) (ready : ActionInfo δ σ → Bool) :
    List (ActionInfo δ σ) → Except E2Fault (List E2Message)
  | [] => .ok []
  | action :: actions =>
    if action.ricActionType = .report ∧ action.reportService.isNone then .error .nullReportService
    else do
      let rest ← indications id ranFunctionId ready actions
      .ok (if ready action then .ricIndication id ranFunctionId action.ricActionId :: rest else rest)

def indicationTurn (id : RicRequestId) (ready : ActionInfo δ σ → Bool) (sub : Subscription δ σ) :
    Except E2Fault (List E2Message) :=
  if sub.indicationTask then indications id sub.ranFunctionId ready sub.actionList else .ok []

inductive E2Event (δ σ : Type)
  | subRequest (request : RicSubRequest δ) (copies : RicAction δ → Bool)
  | subDeleteRequest (id : RicRequestId) (ready : ActionInfo δ σ → Bool)
  | reportPeriod (id : RicRequestId) (ready : ActionInfo δ σ → Bool)

def handle (subs : Subscriptions δ σ) :
    E2Event δ σ → Except E2Fault (Subscriptions δ σ × List E2Message)
  | .subRequest request copies =>
    let (subs, msg) := setupProcedure mng copies request subs
    .ok (subs, [msg])
  | .subDeleteRequest id ready =>
    match subs id with
    | none => .ok (subs, [.ricSubDeleteFailure id])
    | some sub => do
      -- the indication task takes one more turn after the delete request
      let msgs ← indicationTurn id ready sub
      .ok (subs.set id none, msgs ++ [.ricSubDeleteResponse id])
  | .reportPeriod id ready =>
    match subs id with
    | none => .ok (subs, [])
    | some sub => do
      let msgs ← indicationTurn id ready sub
      .ok (subs, msgs)

/-! What the RIC makes of the messages -/

/-- The action ids that the RIC takes to be admitted for a subscription. -/
abbrev RicRecord := RicRequestId → Option (List Nat)

def RicRecord.receive (ric : RicRecord) : E2Message → RicRecord
  | .ricSubResponse id _ admitted => fun id' => if id' = id then some admitted else ric id'
  | .ricSubDeleteResponse id => fun id' => if id' = id then none else ric id'
  | _ => ric

structure E2System (δ σ : Type) where
  subs : Subscriptions δ σ
  ric : RicRecord

def E2System.init : E2System δ σ := ⟨fun _ => none, fun _ => none⟩

def E2System.step (s : E2System δ σ) (event : E2Event δ σ) : Except E2Fault (E2System δ σ) :=
  (handle mng s.subs event).map fun res => ⟨res.1, res.2.foldl RicRecord.receive s.ric⟩

def admittedActions (request : RicSubRequest δ) (copies : RicAction δ → Bool) :
    List (RicAction δ) :=
  match mng request.ranFunctionId with
  | none => []
  | some e2sm => request.ricActionToBeSetupList.filter (actionSupported e2sm copies)

end Ocudu.E2
