import Ocudu.Basic.Machine
import Ocudu.Basic.OrderedMap

/-! The user plane of a UE in the CU-CP: its PDU sessions, their DRBs and the QoS flows on them, and the requests
that change it. -/

namespace Ocudu.CuCp

abbrev maxNofDrbs : Nat := 29

abbrev DrbId := Fin maxNofDrbs

abbrev PduSessionId := Nat

abbrev QosFlowId := Nat

abbrev FiveQi := Nat

def invalidFiveQi : FiveQi := 256

inductive QosCharacteristics
  | nonDyn (fiveQi : FiveQi)
  | dyn (fiveQi : Option FiveQi)

def QosCharacteristics.get5qi : QosCharacteristics → FiveQi
  | .nonDyn fiveQi => fiveQi
  | .dyn fiveQi => fiveQi.getD invalidFiveQi

structure QosParams where
  qosDesc : QosCharacteristics

inductive PdcpRlcMode
  | um
  | am
  deriving DecidableEq

inductive RlcMode
  | am
  | umBidir

inductive ProtectionResult
  | performed
  | notPerformed
  deriving DecidableEq

structure Protection where
  integrity : ProtectionResult
  confidentiality : ProtectionResult

structure PdcpConfig where
  rlcMode : PdcpRlcMode
  integrityProtectionRequired : Bool
  cipheringRequired : Bool

structure SdapConfig where
  pduSession : PduSessionId
  defaultDrb : Bool
  mappedQosFlowsToAdd : List QosFlowId

structure UpResourceManagerCfg where
  fiveQiConfig : OrderedMap FiveQi PdcpConfig
  maxNofDrbsPerUe : Nat

structure UpQosFlowContext where
  qfi : QosFlowId
  qosParams : QosParams

structure UpDrbContext where
  drbId : DrbId
  pduSessionId : PduSessionId
  sNssai : Nat
  defaultDrb : Bool
  rlcMod : RlcMode
  qosParams : QosParams
  qosFlows : OrderedMap QosFlowId UpQosFlowContext
  pdcpCfg : PdcpConfig
  sdapCfg : SdapConfig

structure UpPduSessionContext where
  id : PduSessionId
  drbs : OrderedMap DrbId UpDrbContext
  protection : Protection

structure UpContext where
  pduSessions : OrderedMap PduSessionId UpPduSessionContext
  drbMap : OrderedMap DrbId PduSessionId
  qosFlowMap : OrderedMap QosFlowId DrbId
  usedDrbIds : Finset DrbId

def UpContext.empty : UpContext := ⟨.empty, .empty, .empty, ∅⟩

structure UpPduSessionContextUpdate where
  id : PduSessionId
  drbToAdd : OrderedMap DrbId UpDrbContext
  drbToModify : OrderedMap DrbId UpDrbContext
  drbToRemove : List DrbId
  protection : Protection

structure UpConfigUpdate where
  initialContextCreation : Bool
  pduSessionsToSetupList : OrderedMap PduSessionId UpPduSessionContextUpdate
  pduSessionsToModifyList : OrderedMap PduSessionId UpPduSessionContextUpdate
  pduSessionsToRemoveList : List PduSessionId
  pduSessionsFailedToModifyList : List PduSessionId
  drbToRemoveList : List DrbId

structure UpConfigUpdateResult where
  pduSessionsAddedList : List UpPduSessionContextUpdate
  pduSessionsModifiedList : List UpPduSessionContextUpdate
  pduSessionsRemovedList : List PduSessionId

section Requests

structure SetupItem where
  sNssai : Nat
  qosFlowSetupRequestItems : OrderedMap QosFlowId QosParams

structure ModifyItem where
  qosFlowAddOrModifyRequestList : OrderedMap QosFlowId QosParams
  qosFlowToReleaseList : OrderedMap QosFlowId Unit

abbrev SetupItems := OrderedMap PduSessionId SetupItem

abbrev ModifyRequest := OrderedMap PduSessionId ModifyItem

abbrev ReleaseCommand := OrderedMap PduSessionId Unit

def getFiveQi (qosParams : QosParams) (cfg : UpResourceManagerCfg) : FiveQi :=
  let fiveQi := qosParams.qosDesc.get5qi
  if fiveQi = invalidFiveQi then invalidFiveQi
  else if cfg.fiveQiConfig.contains fiveQi = false then invalidFiveQi
  else fiveQi

def flowsDerivable (flows : OrderedMap QosFlowId QosParams) (cfg : UpResourceManagerCfg) : Bool :=
  flows.values.all fun qosParams => getFiveQi qosParams cfg ≠ invalidFiveQi

def SetupItems.isValid (items : SetupItems) (context : UpContext) (cfg : UpResourceManagerCfg) : Bool :=
  items.size ≠ 0 &&
    items.entries.all fun e =>
      !context.pduSessions.contains e.1 && flowsDerivable e.2.qosFlowSetupRequestItems cfg

def ModifyRequest.isValid (pdu : ModifyRequest) (context : UpContext) (cfg : UpResourceManagerCfg) : Bool :=
  pdu.size ≠ 0 &&
    pdu.entries.all fun e =>
      context.pduSessions.contains e.1 && flowsDerivable e.2.qosFlowAddOrModifyRequestList cfg &&
        (e.2.qosFlowToReleaseList.keys.all fun qfi => context.qosFlowMap.contains qfi) &&
          e.2.qosFlowToReleaseList.size < context.qosFlowMap.size

def ReleaseCommand.isValid (pdu : ReleaseCommand) (context : UpContext) : Bool :=
  pdu.size ≠ 0 && pdu.keys.all fun psi => context.pduSessions.contains psi

end Requests

end Ocudu.CuCp
