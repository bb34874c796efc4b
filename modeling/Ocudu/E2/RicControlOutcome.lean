import Ocudu.E2.RicControl

/-! When the requests for a control are answered, and those for several actions accepted. -/

namespace Ocudu.E2

variable {P σ : Type}

namespace RcImpl

variable (impl : RcImpl P σ)

def AcceptsContained (contained : Int × Nat × E2smControlRequest P) : Prop :=
  ∃ svc, impl.controlServices.find? contained.1.toNat = some svc ∧ (svc.styleId : Int) = contained.1 ∧
    svc.controlRequestSupported contained.2.2 = true

end RcImpl

namespace E2smInterface

def ofRc (unpackHdr : List UInt8 → CtrlHdr) (unpackMsg : List UInt8 → CtrlMsg P) (impl : RcImpl P σ) :
    E2smInterface P σ :=
  ⟨unpackHdr, unpackMsg, impl.getE2smControlService⟩

end E2smInterface

namespace E2smManager

variable (mngr : E2smManager P σ) (impl : RcImpl P σ)

def IsMultiAction (req : RicCtrlRequest) (contained : List (Int × Nat × E2smControlRequest P)) : Prop :=
  ∃ unpackHdr unpackMsg ueId decision styles,
    mngr.find? req.ranFunctionId = some (.ofRc unpackHdr unpackMsg impl) ∧
      unpackHdr req.ricCtrlHdr = .format2 ueId decision ∧ unpackMsg req.ricCtrlMsg = .format2 styles ∧
      contained = RcControlServiceStyle255.containedRequests ueId decision styles

structure Concluded (req : RicCtrlRequest) (outcome : ControlOutcome P) : Prop where
  /-- One answer, an acknowledge if the control was executed with success. -/
  answered : req.ricCtrlAckRequest = some true → ∃ a, outcome.answers = [a] ∧
    (a.isAcknowledge = true ↔ ∃ executed, outcome.executed = some executed ∧ executed.response.success = true)
  accepted : ∀ contained, mngr.IsMultiAction impl req contained →
    (outcome.executed.isSome = true ↔ ∀ c ∈ contained, impl.AcceptsContained c)
  /-- Each action once, in order, by the executor of its own style. -/
  executed : ∀ contained executed, mngr.IsMultiAction impl req contained → outcome.executed = some executed →
    executed.executions.map (fun e => ((e.style : Int), e.action)) = contained.map (fun c => (c.1, c.2.1)) ∧
      (executed.response.success = true ↔ ∀ e ∈ executed.executions, e.success = true)

/-- An acknowledgement is asked for only of what is accepted, and several actions are requested only if one of them is not
accepted. -/
def MeetsConditions (req : RicCtrlRequest) : Prop :=
  (req.ricCtrlAckRequest = some true → (mngr.acceptingService req).isSome = true) ∧
    ∀ contained, mngr.IsMultiAction impl req contained → ¬ ∀ c ∈ contained, impl.AcceptsContained c

variable {mngr} {impl} {req : RicCtrlRequest} {s s' : σ} {outcome : ControlOutcome P}

@[simp] theorem style255_refuses (svc : RcControlServiceStyle255 P σ) (req : E2smControlRequest P) :
    svc.controlRequestSupported req = false := by
  rw [RcControlServiceStyle255.controlRequestSupported]
  split
  · exact ite_self false
  · rfl

theorem acceptingService_eq_some {ctrlReq : E2smControlRequest P} {svc : ControlService P σ}
    (h : mngr.acceptingService req = some (ctrlReq, svc)) : ∃ iface, mngr.find? req.ranFunctionId = some iface ∧
      ctrlReq = iface.handlePackedRicControlRequest req ∧ iface.getE2smControlService ctrlReq = some svc ∧
        svc.controlRequestSupported ctrlReq = true := by
  rw [acceptingService] at h
  obtain ⟨iface, hiface, h⟩ := Option.bind_eq_some_iff.mp h
  obtain ⟨svc', hsvc, h⟩ := Option.bind_eq_some_iff.mp h
  split_ifs at h with hsupported
  cases h
  exact ⟨iface, hiface, rfl, hsvc, hsupported⟩

theorem ackRequest_eq {ctrlReq : E2smControlRequest P} {svc : ControlService P σ}
    (h : mngr.acceptingService req = some (ctrlReq, svc)) : ctrlReq.ackRequest = (req.ricCtrlAckRequest == some true) := by
  obtain ⟨iface, -, rfl, -⟩ := acceptingService_eq_some h
  rfl

theorem acceptingService_of_multiAction {contained : List (Int × Nat × E2smControlRequest P)}
    (h : mngr.IsMultiAction impl req contained) : mngr.acceptingService req = none := by
  obtain ⟨unpackHdr, unpackMsg, ueId, decision, styles, hfind, hhdr, hmsg, -⟩ := h
  by_contra hsome
  obtain ⟨⟨ctrlReq, svc⟩, haccept⟩ := Option.ne_none_iff_exists'.mp hsome
  obtain ⟨iface, hiface, hreq, hservice, hsupported⟩ := acceptingService_eq_some haccept
  rw [hfind] at hiface
  cases hiface
  have hctrl : ctrlReq.hdr = .format2 ueId decision := by
    rw [hreq]
    exact hhdr
  have h255 : impl.style255.map (·.toService) = some svc := by
    have hget : impl.getE2smControlService ctrlReq = some svc := hservice
    rw [RcImpl.getE2smControlService, hctrl] at hget
    exact hget
  obtain ⟨own, -, rfl⟩ := Option.map_eq_some_iff.mp h255
  rw [show own.toService.controlRequestSupported ctrlReq = own.controlRequestSupported ctrlReq from rfl,
    style255_refuses] at hsupported
  cases hsupported

theorem ricControlProcedure_concluded (h : mngr.ricControlProcedure req s = .ok (outcome, s')) :
    mngr.Concluded impl req outcome ↔ mngr.MeetsConditions impl req := by
  rw [ricControlProcedure] at h
  cases haccept : mngr.acceptingService req with
  | none =>
    rw [haccept] at h
    cases h
    constructor
    · intro hconcluded
      refine ⟨fun hack => ?_, fun contained hmulti hall => ?_⟩
      · obtain ⟨a, ha, -⟩ := hconcluded.answered hack
        cases ha
      · cases (hconcluded.accepted contained hmulti).mpr hall
    · intro hmeets
      refine ⟨fun hack => ?_, fun contained hmulti => ?_, fun contained executed _ hexecuted => by cases hexecuted⟩
      · have hsome := hmeets.1 hack
        rw [haccept] at hsome
        cases hsome
      · exact iff_of_false Bool.false_ne_true (hmeets.2 contained hmulti)
  | some accepted =>
    obtain ⟨ctrlReq, svc⟩ := accepted
    rw [haccept] at h
    obtain ⟨⟨executed, s₁⟩, -, h⟩ := bind_eq_ok.mp h
    cases h
    have hnotMulti {contained : List (Int × Nat × E2smControlRequest P)} : ¬ mngr.IsMultiAction impl req contained := by
      intro hmulti
      rw [acceptingService_of_multiAction hmulti] at haccept
      cases haccept
    apply iff_of_true
    · refine ⟨fun hack => ?_, fun _ hmulti => absurd hmulti hnotMulti, fun _ _ hmulti => absurd hmulti hnotMulti⟩
      have hanswers : ctrlReq.ackRequest = true := by rw [ackRequest_eq haccept, hack]; rfl
      refine ⟨answer req executed.response, if_pos hanswers, ?_⟩
      have hcases : (answer req executed.response).isAcknowledge = executed.response.success := by
        rw [answer]
        cases executed.response.success <;> rfl
      rw [hcases]
      constructor
      · exact fun hsuccess => ⟨executed, rfl, hsuccess⟩
      · rintro ⟨_, ⟨⟩, hsuccess⟩
        exact hsuccess
    · refine ⟨fun _ => ?_, fun _ hmulti => absurd hmulti hnotMulti⟩
      rw [haccept]
      rfl

/-- Requests in a row. -/
theorem handleAll_concluded {reqs : List RicCtrlRequest} {outcomes : List (ControlOutcome P)}
    (h : mngr.handleAll reqs s = .ok (outcomes, s')) :
    List.Forall₂ (mngr.Concluded impl) reqs outcomes ↔ ∀ req ∈ reqs, mngr.MeetsConditions impl req := by
  induction reqs generalizing s outcomes with
  | nil =>
    cases h
    exact iff_of_true .nil fun _ hmem => by cases hmem
  | cons req reqs ih =>
    rw [handleAll] at h
    obtain ⟨⟨outcome, s₁⟩, hfirst, h⟩ := bind_eq_ok.mp h
    obtain ⟨⟨outcomes', s₂⟩, hrest, h⟩ := bind_eq_ok.mp h
    cases h
    rw [List.forall₂_cons, ricControlProcedure_concluded hfirst, ih hrest, List.forall_mem_cons]

section Sample

def sampleExecutor : ActionExecutor Nat Unit := ⟨fun _ => true, fun _ s => (⟨true, none, .unspecified⟩, s)⟩

/-- Action 6 of style 2, also for several actions. -/
def sampleRc : RcImpl Nat Unit where
  controlServices := OrderedMap.empty.insert 2 ⟨2, OrderedMap.empty.insert 6 sampleExecutor⟩
  style255 := some ⟨OrderedMap.empty.insert 6 sampleExecutor, OrderedMap.empty⟩
  keys style svc h := by
    rw [OrderedMap.find?_insert] at h
    split_ifs at h with hstyle
    · cases h
      exact ⟨hstyle.symm, by rw [hstyle]; decide⟩
    · cases h

def sampleManager : E2smManager Nat Unit :=
  OrderedMap.empty.insert 3 (.ofRc
    (fun bytes => if bytes = [1] then .format2 none none else .format1 2 6 none none)
    (fun bytes => if bytes = [1] then .format2 [⟨2, [⟨6, []⟩]⟩] else .format1 []) sampleRc)

def sampleRequest (ranFunctionId : Nat) (several : UInt8) (ack : Bool) : RicCtrlRequest :=
  ⟨(1, 0), ranFunctionId, none, [several], [several], some ack⟩

/-- Several actions are not accepted though the service of their style accepts each, and a request for a RAN function that
is not supported is not answered. -/
theorem several_actions_not_accepted :
    (sampleManager.ricControlProcedure (sampleRequest 3 1 false) () = .ok (⟨none, []⟩, ()) ∧
      ¬ sampleManager.Concluded sampleRc (sampleRequest 3 1 false) ⟨none, []⟩) ∧
    (sampleManager.ricControlProcedure (sampleRequest 9 0 true) () = .ok (⟨none, []⟩, ()) ∧
      ¬ sampleManager.Concluded sampleRc (sampleRequest 9 0 true) ⟨none, []⟩) := by
  refine ⟨⟨rfl, fun h => ?_⟩, rfl, fun h => ?_⟩
  · have haccepted := (h.accepted [(2, 6, RcControlServiceStyle255.createReqF1FromReqF2 none none 2 ⟨6, []⟩)]
      ⟨_, _, none, none, _, rfl, rfl, rfl, rfl⟩).mpr fun c hc => by
        rw [List.mem_singleton.mp hc]
        exact ⟨_, rfl, rfl, rfl⟩
    cases haccepted
  · obtain ⟨a, ha, -⟩ := h.answered rfl
    cases ha

theorem handleAll_concluded_one : List.Forall₂ (sampleManager.Concluded sampleRc) [sampleRequest 3 0 true]
    [⟨some ⟨[⟨2, 6, ⟨false, true, .format1 2 6 none none, .format1 []⟩, true⟩], ⟨true, none, .unspecified⟩⟩,
      [.acknowledge (1, 0) 3 none none]⟩] := by
  have h : sampleManager.handleAll [sampleRequest 3 0 true] () =
      .ok ([⟨some ⟨[⟨2, 6, ⟨false, true, .format1 2 6 none none, .format1 []⟩, true⟩], ⟨true, none, .unspecified⟩⟩,
        [.acknowledge (1, 0) 3 none none]⟩], ()) := rfl
  apply (handleAll_concluded h).mpr
  intro req hreq
  rw [List.mem_singleton.mp hreq]
  refine ⟨fun _ => rfl, ?_⟩
  rintro contained ⟨unpackHdr, unpackMsg, ueId, decision, styles, hfind, hhdr, -⟩
  have hifaces := Option.some.inj hfind
  have hunpack : unpackHdr [0] = .format1 2 6 none none := (congrFun (congrArg E2smInterface.unpackHdr hifaces) [0]).symm
  rw [show unpackHdr (sampleRequest 3 0 true).ricCtrlHdr = unpackHdr [0] from rfl, hunpack] at hhdr
  cases hhdr

end Sample

end E2smManager

end Ocudu.E2
