import Ocudu.Basic.Machine
import Ocudu.Basic.OrderedMap
import Ocudu.E2.KpmIes

/-! The RIC control procedure, and the control services of the service model RC. -/

namespace Ocudu.E2

inductive CtrlDecision
  | accept
  | reject

inductive CtrlHdr
  | format1 (ricStyleType : Int) (ricCtrlActionId : Nat) (ueId : Option UeId) (ricCtrlDecision : Option CtrlDecision)
  | format2 (ueId : Option UeId) (ricCtrlDecision : Option CtrlDecision)
  | format3 (ricStyleType : Int)
  | nulltype

/-- The parameters `P` are read by the executors only. -/
structure CtrlActionItem (P : Type) where
  ricCtrlActionId : Nat
  ranPList : List P

structure CtrlStyleItem (P : Type) where
  indicatedCtrlStyleType : Int
  ricCtrlActionList : List (CtrlActionItem P)

inductive CtrlMsg (P : Type)
  | format1 (ranPList : List P)
  | format2 (ricCtrlStyleList : List (CtrlStyleItem P))
  | format3
  | nulltype

structure E2smControlRequest (P : Type) where
  ricCallProcessIdPresent : Bool
  ackRequest : Bool
  hdr : CtrlHdr
  msg : CtrlMsg P

inductive RicCause
  | actionNotSupported
  | unspecified

structure E2smControlResponse where
  success : Bool
  ricCtrlOutcome : Option (List UInt8)
  cause : RicCause

structure ActionExecutor (P σ : Type) where
  ricControlActionSupported : E2smControlRequest P → Bool
  executeRicControlAction : E2smControlRequest P → σ → E2smControlResponse × σ

structure Execution (P : Type) where
  style : Nat
  action : Nat
  request : E2smControlRequest P
  success : Bool

structure Executed (P : Type) where
  executions : List (Execution P)
  response : E2smControlResponse

def actionNotSupported (P : Type) : Executed P := ⟨[], ⟨false, none, .actionNotSupported⟩⟩

structure ControlService (P σ : Type) where
  controlRequestSupported : E2smControlRequest P → Bool
  executeControlRequest : E2smControlRequest P → σ → Except Abort (Executed P × σ)

namespace ActionExecutor

variable {P σ : Type}

def execute (e : ActionExecutor P σ) (style action : Nat) (req : E2smControlRequest P) (s : σ) :
    Execution P × E2smControlResponse × σ :=
  let r := e.executeRicControlAction req s
  (⟨style, action, req, r.1.success⟩, r)

end ActionExecutor

section StyleDefs

def callProcessIdFormat (style : Nat) : Option Nat :=
  if style ∈ [1, 2, 3, 4, 5, 6, 7, 255] then some 1 else if style ∈ [8, 9, 10] then some 0 else none

end StyleDefs

structure RcControlService (P σ : Type) where
  styleId : Nat
  configReqExecutors : OrderedMap Nat (ActionExecutor P σ)

namespace RcControlService

variable {P σ : Type} (svc : RcControlService P σ)

def controlRequestSupported (req : E2smControlRequest P) : Bool :=
  match req.hdr, req.msg with
  | .format1 style action _ _, .format1 _ =>
    if style ≠ svc.styleId then false
    else if callProcessIdFormat svc.styleId = some 0 ∧ req.ricCallProcessIdPresent then false
    else
      match svc.configReqExecutors.find? action with
      | some executor => executor.ricControlActionSupported req
      | none => false
  | _, _ => false

def executeControlRequest (req : E2smControlRequest P) (s : σ) : Except Abort (Executed P × σ) :=
  match req.hdr with
  | .format1 _ action _ _ =>
    match svc.configReqExecutors.find? action with
    | none => .ok (actionNotSupported P, s)
    | some executor =>
      let r := executor.execute svc.styleId action req s
      .ok (⟨[r.1], r.2.1⟩, r.2.2)
  | _ => .error .wrongChoice

def toService : ControlService P σ := ⟨svc.controlRequestSupported, svc.executeControlRequest⟩

end RcControlService

structure RcControlServiceStyle255 (P σ : Type) where
  configReqExecutors : OrderedMap Nat (ActionExecutor P σ)
  e2smRcControlServices : OrderedMap Int (RcControlService P σ)

namespace RcControlServiceStyle255

variable {P σ : Type} (svc : RcControlServiceStyle255 P σ)

def createReqF1FromReqF2 (ueId : Option UeId) (decision : Option CtrlDecision) (style : Int)
    (action : CtrlActionItem P) : E2smControlRequest P where
  ricCallProcessIdPresent := false
  ackRequest := false
  hdr := .format1 style action.ricCtrlActionId ueId decision
  msg := .format1 action.ranPList

def containedRequests (ueId : Option UeId) (decision : Option CtrlDecision) (styles : List (CtrlStyleItem P)) :
    List (Int × Nat × E2smControlRequest P) :=
  styles.flatMap fun style => style.ricCtrlActionList.map fun action =>
    (style.indicatedCtrlStyleType, action.ricCtrlActionId,
      createReqF1FromReqF2 ueId decision style.indicatedCtrlStyleType action)

/-- Every style is looked up, and every action checked; then the request is refused. -/
def controlRequestSupported (req : E2smControlRequest P) : Bool :=
  match req.hdr, req.msg with
  | .format2 ueId decision, .format2 styles =>
    if styles.all fun style => decide (style.indicatedCtrlStyleType ≤ 10) &&
        match svc.e2smRcControlServices.find? style.indicatedCtrlStyleType with
        | none => false
        | some own => style.ricCtrlActionList.all fun action =>
          own.controlRequestSupported (createReqF1FromReqF2 ueId decision style.indicatedCtrlStyleType action)
    then false
    else false
  | _, _ => false

def executeEach : List (Int × Nat × E2smControlRequest P) → σ → List (Execution P) × σ
  | [], s => ([], s)
  | (_, action, req) :: contained, s =>
    match svc.configReqExecutors.find? action with
    | none => executeEach contained s
    | some executor =>
      let r := executor.execute 255 action req s
      let rest := executeEach contained r.2.2
      (r.1 :: rest.1, rest.2)

def executeControlRequest (req : E2smControlRequest P) (s : σ) : Except Abort (Executed P × σ) :=
  match req.hdr, req.msg with
  | .format2 ueId decision, .format2 styles =>
    let r := svc.executeEach (containedRequests ueId decision styles) s
    if r.1.isEmpty then .ok (actionNotSupported P, r.2)
    else .ok (⟨r.1, ⟨r.1.foldl (fun success e => success && e.success) false, none, .unspecified⟩⟩, r.2)
  | _, _ => .error .wrongChoice

def toService : ControlService P σ := ⟨svc.controlRequestSupported, svc.executeControlRequest⟩

end RcControlServiceStyle255

/-- `e2sm_rc_impl`: the services for one style and, if it is there, the service for several actions. -/
structure RcImpl (P σ : Type) where
  controlServices : OrderedMap Nat (RcControlService P σ)
  style255 : Option (RcControlServiceStyle255 P σ)
  keys : ∀ style svc, controlServices.find? style = some svc → svc.styleId = style ∧ style ≠ 255

namespace RcImpl

variable {P σ : Type} (impl : RcImpl P σ)

def findService (style : Nat) : Option (ControlService P σ) :=
  if style = 255 then impl.style255.map (·.toService) else (impl.controlServices.find? style).map (·.toService)

/-- The key of the map has 32 bits. -/
def getE2smControlService (req : E2smControlRequest P) : Option (ControlService P σ) :=
  match req.hdr with
  | .format1 style _ _ _ => impl.findService (style % 2 ^ 32).toNat
  | .format2 _ _ => impl.findService 255
  | .format3 style => impl.findService (style % 2 ^ 32).toNat
  | .nulltype => none

end RcImpl

structure RicCtrlRequest where
  ricRequestId : Nat × Nat
  ranFunctionId : Nat
  ricCallProcessId : Option (List UInt8)
  ricCtrlHdr : List UInt8
  ricCtrlMsg : List UInt8
  /-- Whether an acknowledgement is asked for, if the field is there. -/
  ricCtrlAckRequest : Option Bool

/-- What control requests use of `e2sm_interface`. -/
structure E2smInterface (P σ : Type) where
  unpackHdr : List UInt8 → CtrlHdr
  unpackMsg : List UInt8 → CtrlMsg P
  getE2smControlService : E2smControlRequest P → Option (ControlService P σ)

namespace E2smInterface

variable {P σ : Type} (iface : E2smInterface P σ)

def handlePackedRicControlRequest (req : RicCtrlRequest) : E2smControlRequest P where
  ricCallProcessIdPresent := req.ricCallProcessId.isSome
  ackRequest := req.ricCtrlAckRequest == some true
  hdr := iface.unpackHdr req.ricCtrlHdr
  msg := iface.unpackMsg req.ricCtrlMsg

end E2smInterface

inductive RicCtrlAnswer
  | acknowledge (ricRequestId : Nat × Nat) (ranFunctionId : Nat) (ricCallProcessId : Option (List UInt8))
      (ricCtrlOutcome : Option (List UInt8))
  | failure (ricRequestId : Nat × Nat) (ranFunctionId : Nat) (ricCallProcessId : Option (List UInt8)) (cause : RicCause)
      (ricCtrlOutcome : Option (List UInt8))

namespace RicCtrlAnswer

def isAcknowledge : RicCtrlAnswer → Bool
  | acknowledge .. => true
  | failure .. => false

end RicCtrlAnswer

def packRicControlResponse (response : E2smControlResponse) : Option (List UInt8) × Option (List UInt8) :=
  if response.success then (response.ricCtrlOutcome, none) else (none, response.ricCtrlOutcome)

def answer (req : RicCtrlRequest) (response : E2smControlResponse) : RicCtrlAnswer :=
  if response.success then
    .acknowledge req.ricRequestId req.ranFunctionId req.ricCallProcessId (packRicControlResponse response).1
  else
    .failure req.ricRequestId req.ranFunctionId req.ricCallProcessId response.cause (packRicControlResponse response).1

structure ControlOutcome (P : Type) where
  executed : Option (Executed P)
  answers : List RicCtrlAnswer

/-- `e2sm_manager`: the service models by the id of their RAN function -/
abbrev E2smManager (P σ : Type) := OrderedMap Nat (E2smInterface P σ)

namespace E2smManager

variable {P σ : Type} (mngr : E2smManager P σ)

def acceptingService (req : RicCtrlRequest) : Option (E2smControlRequest P × ControlService P σ) := do
  let iface ← mngr.find? req.ranFunctionId
  let ctrlReq := iface.handlePackedRicControlRequest req
  let svc ← iface.getE2smControlService ctrlReq
  if svc.controlRequestSupported ctrlReq then some (ctrlReq, svc) else none

def ricControlProcedure (req : RicCtrlRequest) (s : σ) : Except Abort (ControlOutcome P × σ) :=
  match mngr.acceptingService req with
  | none => .ok (⟨none, []⟩, s)
  | some (ctrlReq, svc) => do
    let (executed, s) ← svc.executeControlRequest ctrlReq s
    return (⟨some executed, if ctrlReq.ackRequest then [answer req executed.response] else []⟩, s)

def handleAll : List RicCtrlRequest → σ → Except Abort (List (ControlOutcome P) × σ)
  | [], s => .ok ([], s)
  | req :: reqs, s => do
    let (outcome, s) ← mngr.ricControlProcedure req s
    let (outcomes, s) ← handleAll reqs s
    return (outcome :: outcomes, s)

end E2smManager

end Ocudu.E2
