import Ocudu.CuCp.UpContext

/-! The update that a request leads to, and how what is left of it after the procedures is applied. -/

namespace Ocudu.CuCp

inductive UpFault
  | assertion
  | outOfRange

def at? {κ α : Type} [LinearOrder κ] (m : OrderedMap κ α) (k : κ) : Except UpFault α :=
  match m.find? k with
  | some a => .ok a
  | none => .error .outOfRange

def assert (p : Prop) [Decidable p] : Except UpFault Unit := if p then .ok () else .error .assertion

section Calculate

def UpPduSessionContextUpdate.init (id : PduSessionId) (protection : Protection) : UpPduSessionContextUpdate :=
  ⟨id, .empty, .empty, [], protection⟩

def UpConfigUpdate.init (initialContextCreation : Bool) : UpConfigUpdate :=
  ⟨initialContextCreation, .empty, .empty, [], [], []⟩

def UpConfigUpdate.containsDrb (update : UpConfigUpdate) (drbId : DrbId) : Bool :=
  update.pduSessionsToSetupList.values.any (fun session => session.drbToAdd.contains drbId) ||
    update.pduSessionsToModifyList.values.any (fun session => session.drbToAdd.contains drbId)

def allocateDrbId (newSession : UpPduSessionContextUpdate) (context : UpContext) (update : UpConfigUpdate)
    (maxNofDrbsPerUe : Nat) : Option DrbId :=
  if context.drbMap.size ≥ maxNofDrbsPerUe then none
  else
    (List.finRange maxNofDrbs).find? fun drbId =>
      !(context.drbMap.contains drbId || update.containsDrb drbId || newSession.drbToAdd.contains drbId ||
        decide (drbId ∈ context.usedDrbIds))

def setRrcPdcpConfig (fiveQi : FiveQi) (cfg : UpResourceManagerCfg) (protection : Protection) :
    Except UpFault PdcpConfig := do
  assert (cfg.fiveQiConfig.contains fiveQi = true)
  let pdcp ← at? cfg.fiveQiConfig fiveQi
  pure { pdcp with
    integrityProtectionRequired := protection.integrity = .performed,
    cipheringRequired := protection.confidentiality = .performed }

def rlcModeOf (pdcp : PdcpConfig) : RlcMode := if pdcp.rlcMode = .am then .am else .umBidir

def UpDrbContext.ofFlow (drbId : DrbId) (pduSessionId : PduSessionId) (defaultDrb : Bool) (qfi : QosFlowId)
    (qosParams : QosParams) (pdcp : PdcpConfig) : UpDrbContext where
  drbId := drbId
  pduSessionId := pduSessionId
  sNssai := 0
  defaultDrb := defaultDrb
  rlcMod := rlcModeOf pdcp
  qosParams := qosParams
  qosFlows := OrderedMap.empty.emplace qfi ⟨qfi, qosParams⟩
  pdcpCfg := pdcp
  sdapCfg := ⟨pduSessionId, defaultDrb, [qfi]⟩

def allocateQosFlow (newSession : UpPduSessionContextUpdate) (qfi : QosFlowId) (qosParams : QosParams)
    (update : UpConfigUpdate) (context : UpContext) (cfg : UpResourceManagerCfg) :
    Except UpFault (Option DrbId × UpPduSessionContextUpdate) := do
  let fiveQi := getFiveQi qosParams cfg
  assert (fiveQi ≠ invalidFiveQi)
  if context.drbMap.size ≥ cfg.maxNofDrbsPerUe then pure (none, newSession)
  else
    match allocateDrbId newSession context update cfg.maxNofDrbsPerUe with
    | none => pure (none, newSession)
    | some drbId => do
      let pdcp ← setRrcPdcpConfig fiveQi cfg newSession.protection
      let drb := UpDrbContext.ofFlow drbId newSession.id (context.drbMap.size = 0) qfi qosParams pdcp
      pure (some drbId, { newSession with drbToAdd := newSession.drbToAdd.emplace drbId drb })

def modifyQosFlow (newSession : UpPduSessionContextUpdate) (qfi : QosFlowId) (qosParams : QosParams)
    (context : UpContext) (cfg : UpResourceManagerCfg) : Except UpFault (Option DrbId × UpPduSessionContextUpdate) :=
  if context.qosFlowMap.contains qfi = false then pure (none, newSession)
  else do
    let drbId ← at? context.qosFlowMap qfi
    let pdcp ← setRrcPdcpConfig qosParams.qosDesc.get5qi cfg newSession.protection
    let drb := UpDrbContext.ofFlow drbId newSession.id false qfi qosParams pdcp
    pure (some drbId, { newSession with drbToModify := newSession.drbToModify.emplace drbId drb })

def setupFlow (sNssai : Nat) (update : UpConfigUpdate) (context : UpContext) (cfg : UpResourceManagerCfg)
    (newSession : UpPduSessionContextUpdate) (flow : QosFlowId × QosParams) :
    Except UpFault UpPduSessionContextUpdate := do
  let (drbId, newSession) ← allocateQosFlow newSession flow.1 flow.2 update context cfg
  match drbId with
  | none => pure newSession
  | some drbId =>
    assert (newSession.drbToAdd.contains drbId = true)
    pure { newSession with drbToAdd := newSession.drbToAdd.modify drbId fun drb => { drb with sNssai := sNssai } }

def setupSession (protection : Protection) (context : UpContext) (cfg : UpResourceManagerCfg)
    (update : UpConfigUpdate) (item : PduSessionId × SetupItem) : Except UpFault UpConfigUpdate := do
  assert (context.pduSessions.contains item.1 = false)
  let newSession ← item.2.qosFlowSetupRequestItems.entries.foldlM (setupFlow item.2.sNssai update context cfg)
    (.init item.1 protection)
  if newSession.drbToAdd.size = 0 then pure update
  else pure { update with pduSessionsToSetupList := update.pduSessionsToSetupList.emplace newSession.id newSession }

/-- `calculate_update` of a setup. The protection results of the new sessions are what the memory holds. -/
def calculateSetup (items : SetupItems) (protection : Protection) (context : UpContext) (cfg : UpResourceManagerCfg) :
    Except UpFault UpConfigUpdate :=
  items.entries.foldlM (setupSession protection context cfg) (.init (context.pduSessions.size = 0))

abbrev Modification := UpPduSessionContextUpdate × List PduSessionId

def modifyFlow (update : UpConfigUpdate) (context : UpContext) (cfg : UpResourceManagerCfg)
    (m : Modification) (flow : QosFlowId × QosParams) : Except UpFault Modification := do
  if context.qosFlowMap.contains flow.1 then
    let (drbId, session) ← modifyQosFlow m.1 flow.1 flow.2 context cfg
    match drbId with
    | none => pure (session, m.2 ++ [session.id])
    | some drbId =>
      assert (context.drbMap.contains drbId = true ∨ session.drbToModify.contains drbId = true)
      pure (session, m.2)
  else
    let (drbId, session) ← allocateQosFlow m.1 flow.1 flow.2 update context cfg
    match drbId with
    | none => pure (session, m.2 ++ [session.id])
    | some drbId =>
      assert (context.drbMap.contains drbId = true ∨ session.drbToAdd.contains drbId = true)
      pure (session, m.2)

def releaseFlow (context : UpContext) (session : UpPduSessionContextUpdate) (qfi : QosFlowId) :
    Except UpFault UpPduSessionContextUpdate := do
  let drbId ← at? context.qosFlowMap qfi
  let old ← at? context.pduSessions session.id
  let drb ← at? old.drbs drbId
  assert (drb.qosFlows.contains qfi = true)
  if drb.qosFlows.size = 1 then pure { session with drbToRemove := session.drbToRemove ++ [drbId] }
  else pure session

def modifySession (context : UpContext) (cfg : UpResourceManagerCfg) (update : UpConfigUpdate)
    (item : PduSessionId × ModifyItem) : Except UpFault UpConfigUpdate := do
  assert (context.pduSessions.contains item.1 = true)
  let old ← at? context.pduSessions item.1
  let m ← item.2.qosFlowAddOrModifyRequestList.entries.foldlM (modifyFlow update context cfg)
    (.init item.1 old.protection, update.pduSessionsFailedToModifyList)
  let session ← item.2.qosFlowToReleaseList.keys.foldlM (releaseFlow context) m.1
  pure { update with
    pduSessionsFailedToModifyList := m.2,
    pduSessionsToModifyList := update.pduSessionsToModifyList.emplace session.id session }

def calculateModify (pdu : ModifyRequest) (context : UpContext) (cfg : UpResourceManagerCfg) :
    Except UpFault UpConfigUpdate :=
  pdu.entries.foldlM (modifySession context cfg) (.init false)

def releaseSession (context : UpContext) (update : UpConfigUpdate) (psi : PduSessionId) :
    Except UpFault UpConfigUpdate := do
  let session ← at? context.pduSessions psi
  pure { update with
    drbToRemoveList := update.drbToRemoveList ++ session.drbs.keys,
    pduSessionsToRemoveList := update.pduSessionsToRemoveList ++ [psi] }

def calculateRelease (pdu : ReleaseCommand) (context : UpContext) : Except UpFault UpConfigUpdate :=
  pdu.keys.foldlM (releaseSession context) (.init true)

end Calculate

section Apply

/-- A session whose DRBs change, and the context around it. -/
abbrev SessionAndContext := UpPduSessionContext × UpContext

def addDrb (sc : SessionAndContext) (drb : DrbId × UpDrbContext) : SessionAndContext :=
  ({ sc.1 with drbs := sc.1.drbs.emplace drb.1 drb.2 },
    { sc.2 with
      drbMap := sc.2.drbMap.emplace drb.1 sc.1.id,
      usedDrbIds := insert drb.1 sc.2.usedDrbIds,
      qosFlowMap := drb.2.qosFlows.keys.foldl (fun flows qfi => flows.emplace qfi drb.1) sc.2.qosFlowMap })

def applyUpdateForNewDrbs (sc : SessionAndContext) (drbToAdd : OrderedMap DrbId UpDrbContext) : SessionAndContext :=
  drbToAdd.entries.foldl addDrb sc

def removeDrb (sc : SessionAndContext) (drbId : DrbId) : Except UpFault SessionAndContext := do
  let drb ← at? sc.1.drbs drbId
  pure ({ sc.1 with drbs := sc.1.drbs.erase drbId },
    { sc.2 with
      qosFlowMap := drb.qosFlows.keys.foldl (fun flows qfi => flows.erase qfi) sc.2.qosFlowMap,
      drbMap := sc.2.drbMap.erase drbId })

def applyUpdateForRemovedDrbs (sc : SessionAndContext) (drbToRemove : List DrbId) : Except UpFault SessionAndContext :=
  drbToRemove.foldlM removeDrb sc

def applyAdded (context : UpContext) (session : UpPduSessionContextUpdate) : UpContext :=
  let sc := applyUpdateForNewDrbs (⟨session.id, .empty, session.protection⟩, context) session.drbToAdd
  { sc.2 with pduSessions := sc.2.pduSessions.emplace sc.1.id sc.1 }

def applyModified (context : UpContext) (session : UpPduSessionContextUpdate) : Except UpFault UpContext := do
  assert (context.pduSessions.contains session.id = true)
  let old ← at? context.pduSessions session.id
  let sc ← applyUpdateForRemovedDrbs (applyUpdateForNewDrbs (old, context) session.drbToAdd) session.drbToRemove
  pure { sc.2 with pduSessions := sc.2.pduSessions.insert session.id sc.1 }

def removeDrbOfSession (context : UpContext) (drb : DrbId × UpDrbContext) : UpContext :=
  { context with
    qosFlowMap := drb.2.qosFlows.keys.foldl (fun flows qfi => flows.erase qfi) context.qosFlowMap,
    drbMap := context.drbMap.erase drb.1 }

def applyRemoved (context : UpContext) (psi : PduSessionId) : Except UpFault UpContext := do
  assert (context.pduSessions.contains psi = true)
  let session ← at? context.pduSessions psi
  let context := session.drbs.entries.foldl removeDrbOfSession context
  pure { context with pduSessions := context.pduSessions.erase psi }

def applyConfigUpdate (result : UpConfigUpdateResult) (context : UpContext) : Except UpFault UpContext := do
  let context := result.pduSessionsAddedList.foldl applyAdded context
  let context ← result.pduSessionsModifiedList.foldlM applyModified context
  result.pduSessionsRemovedList.foldlM applyRemoved context

end Apply

section KeyRefresh

def UpContext.getNofDrbs (context : UpContext) : Nat := context.drbMap.size

def UpContext.getNofUsedDrbIds (context : UpContext) : Nat := context.usedDrbIds.card

def subSizeT (a b : Nat) : Nat := (a + (2 ^ 64 - b % 2 ^ 64)) % 2 ^ 64

def UpContext.getNofStaleDrbIds (context : UpContext) : Nat := subSizeT context.getNofUsedDrbIds context.getNofDrbs

def UpContext.getNofAvailableDrbIds (context : UpContext) : Nat := subSizeT maxNofDrbs context.getNofUsedDrbIds

def UpContext.refreshDrbIdAfterKeyChange (context : UpContext) : UpContext :=
  { context with usedDrbIds := context.drbMap.keys.toFinset }

def nofDrbsNeeded (cfg : UpResourceManagerCfg) (context : UpContext) : Nat :=
  min (subSizeT cfg.maxNofDrbsPerUe context.getNofDrbs) 8

def keyRefreshUseful (cfg : UpResourceManagerCfg) (context : UpContext) : Bool :=
  decide (context.getNofAvailableDrbIds < nofDrbsNeeded cfg context) &&
    decide ((context.getNofStaleDrbIds + context.getNofAvailableDrbIds) % 2 ^ 64 ≥ nofDrbsNeeded cfg context)

end KeyRefresh

section Runs

/-- The part of an update that the procedures report as done. -/
structure Report where
  session : PduSessionId → Bool
  drbAdded : DrbId → Bool
  drbRemoved : DrbId → Bool

def Report.keep (report : Report) (session : UpPduSessionContextUpdate) : UpPduSessionContextUpdate :=
  { session with
    drbToAdd := session.drbToAdd.filter fun drbId _ => report.drbAdded drbId,
    drbToRemove := session.drbToRemove.filter report.drbRemoved }

def Report.result (report : Report) (update : UpConfigUpdate) : UpConfigUpdateResult where
  pduSessionsAddedList := (update.pduSessionsToSetupList.values.filter (report.session ·.id)).map report.keep
  pduSessionsModifiedList := (update.pduSessionsToModifyList.values.filter (report.session ·.id)).map report.keep
  pduSessionsRemovedList := update.pduSessionsToRemoveList.filter report.session

inductive UpEvent
  | setup (items : SetupItems) (protection : Protection) (report : Report)
  | modify (pdu : ModifyRequest) (report : Report)
  | release (pdu : ReleaseCommand) (report : Report)
  | keyChange

/-- What a request changes, if it is valid: the update that it leads to, as far as it is reported. -/
def UpEvent.result (cfg : UpResourceManagerCfg) (context : UpContext) : UpEvent → Except UpFault UpConfigUpdateResult
  | .setup items protection report =>
    if items.isValid context cfg then (calculateSetup items protection context cfg).map report.result
    else pure ⟨[], [], []⟩
  | .modify pdu report =>
    if pdu.isValid context cfg then (calculateModify pdu context cfg).map report.result
    else pure ⟨[], [], []⟩
  | .release pdu report =>
    if pdu.isValid context then (calculateRelease pdu context).map report.result
    else pure ⟨[], [], []⟩
  | .keyChange => pure ⟨[], [], []⟩

def upStep (cfg : UpResourceManagerCfg) (context : UpContext) (event : UpEvent) : Except UpFault UpContext := do
  let result ← event.result cfg context
  let context ← applyConfigUpdate result context
  match event with
  | .keyChange => pure context.refreshDrbIdAfterKeyChange
  | _ => pure context

end Runs

end Ocudu.CuCp
