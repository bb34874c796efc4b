import Ocudu.Basic.KeyedRows
import Ocudu.Basic.Machine
import Mathlib.Data.List.Sort

/-! `logical_channel_system.cpp`: the rows of the logical channels and of their groups (LCGs), and
which of them have their bit rate tracked. -/

namespace Ocudu.Sched

structure LogicalChannelQos where
  averageWindowMs : Option Nat
  gbrQosInfo : Bool
  deriving DecidableEq

structure TriggeredUlGrantCfg where
  delaySlots : Nat
  grantSize : Nat
  deriving DecidableEq

structure LogicalChannelConfig where
  lcid : Nat
  lcGroup : Nat
  qos : Option LogicalChannelQos
  triggeredUlGrant : Option TriggeredUlGrantCfg
  deriving DecidableEq

namespace LogicalChannelConfig

def isGbr (lc : LogicalChannelConfig) : Bool := lc.qos.any (·.gbrQosInfo)

def srb0 : Nat := 0

def defaultSrb0 : LogicalChannelConfig := ⟨srb0, 0, none, none⟩

end LogicalChannelConfig

open LogicalChannelConfig

structure LogicalChannelConfigList where
  lcList : List LogicalChannelConfig
  sorted : lcList.Pairwise (·.lcid < ·.lcid)

namespace LogicalChannelConfigList

def empty : LogicalChannelConfigList := ⟨[], .nil⟩

def containsLcid (l : LogicalChannelConfigList) (lcid : Nat) : Bool := l.lcList.any (·.lcid == lcid)

def containsLcg (l : LogicalChannelConfigList) (lcg : Nat) : Bool := l.lcList.any (·.lcGroup == lcg)

def withSrb0 (newCfg : List LogicalChannelConfig) : List LogicalChannelConfig :=
  if newCfg.any (·.lcid == srb0) then newCfg else defaultSrb0 :: newCfg

def sortByLcid (l : List LogicalChannelConfig) : List LogicalChannelConfig :=
  l.insertionSort (·.lcid ≤ ·.lcid)

theorem withSrb0_nodup {newCfg : List LogicalChannelConfig} (h : (newCfg.map (·.lcid)).Nodup) :
    ((withSrb0 newCfg).map (·.lcid)).Nodup := by
  unfold withSrb0
  split
  · exact h
  · rename_i hno
    rw [List.map_cons, List.nodup_cons]
    refine ⟨fun hmem => hno ?_, h⟩
    obtain ⟨lc, hlc, heq⟩ := List.mem_map.mp hmem
    exact List.any_eq_true.mpr ⟨lc, hlc, beq_iff_eq.mpr heq⟩

theorem sortByLcid_sorted {l : List LogicalChannelConfig} (h : (l.map (·.lcid)).Nodup) :
    (sortByLcid l).Pairwise (·.lcid < ·.lcid) := by
  have hperm : (sortByLcid l).Perm l := List.perm_insertionSort _ l
  have hle : (sortByLcid l).Pairwise (·.lcid ≤ ·.lcid) :=
    have : Std.Total fun a b : LogicalChannelConfig => a.lcid ≤ b.lcid :=
      ⟨fun a b => le_total a.lcid b.lcid⟩
    have : IsTrans LogicalChannelConfig (·.lcid ≤ ·.lcid) := ⟨fun _ _ _ => le_trans⟩
    List.pairwise_insertionSort _ l
  have hne : (sortByLcid l).Pairwise (·.lcid ≠ ·.lcid) :=
    List.pairwise_map.mp ((hperm.map _).nodup_iff.mpr h)
  exact (hle.and hne).imp fun hab => lt_of_le_of_ne hab.1 hab.2

def create (newCfg : List LogicalChannelConfig) (h : (newCfg.map (·.lcid)).Nodup) :
    LogicalChannelConfigList :=
  ⟨sortByLcid (withSrb0 newCfg), sortByLcid_sorted (withSrb0_nodup h)⟩

end LogicalChannelConfigList

/-- What tracks the DL bit rate of a channel; the decay factor of its average is one over the
window in slots. -/
structure LcQosContext where
  dlLastSchedBytes : Nat
  avgWindow : Nat

structure LcgQosContext where
  ulLastSchedBytes : Nat
  schedBytesAccum : Nat
  avgWindow : Nat

/-- The rows are found by UE and LCID, or by UE and LCG. The source keeps their ids in 16 bits, the
largest of which says that there is no row: it does what is written here while the ids are smaller
(`FitsRowIds`). -/
structure LogicalChannelMapper where
  dl : KeyedRows (Nat × Nat) Unit LcQosContext
  ul : KeyedRows (Nat × Nat) (Option TriggeredUlGrantCfg) LcgQosContext

inductive LogicalChannelFault
  /-- `average_window_ms.value()` of a channel without one. -/
  | averageWindow
  /-- The decay factor of an average is not between 0 and 1. -/
  | alpha
  | duplicateUe
  | unknownUe

namespace LogicalChannelMapper

def empty : LogicalChannelMapper := ⟨.empty, .empty⟩

def invalidRowId : Nat := 65535

def qosWindow (lc : LogicalChannelConfig) (slotsPerMsec : Nat) :
    Except LogicalChannelFault (Option Nat) :=
  match lc.qos with
  | none => .ok none
  | some qos =>
    if qos.gbrQosInfo then
      match qos.averageWindowMs with
      | none => .error .averageWindow
      | some ms =>
        let n := ms * slotsPerMsec % 2 ^ 32
        if n ≤ 1 then .error .alpha else .ok (some n)
    else .ok none

variable (m : LogicalChannelMapper)

def addRows (ue : Nat) (lc : LogicalChannelConfig) :
    LogicalChannelMapper where
  dl := m.dl.addmod (ue, lc.lcid) ()
  ul := m.ul.addmod (ue, lc.lcGroup) lc.triggeredUlGrant

def setTracking (ue : Nat) (lc : LogicalChannelConfig) :
    Option Nat → LogicalChannelMapper
  | some n => {
      dl := m.dl.own (ue, lc.lcid) ⟨0, n⟩ fun c => { c with avgWindow := n }
      ul := m.ul.own (ue, lc.lcGroup) ⟨0, 0, n⟩ fun c => { c with avgWindow := n } }
  | none => { dl := m.dl.disown (ue, lc.lcid), ul := m.ul.disown (ue, lc.lcGroup) }

def addmodLcAndLcg (ue : Nat) (lc : LogicalChannelConfig)
    (slotsPerMsec : Nat) : Except LogicalChannelFault LogicalChannelMapper := do
  let n ← qosWindow lc slotsPerMsec
  pure ((m.addRows ue lc).setTracking ue lc n)

def remLc (ue lcid : Nat) : LogicalChannelMapper :=
  { m with dl := m.dl.remove (ue, lcid) }

def remLcg (ue lcg : Nat) : LogicalChannelMapper :=
  { m with ul := m.ul.remove (ue, lcg) }

def dlTracked (ue lcid : Nat) : Bool := (m.dl.entryOf (ue, lcid)).isSome

def ulTracked (ue lcg : Nat) : Bool := (m.ul.entryOf (ue, lcg)).isSome

end LogicalChannelMapper

structure UeLogicalChannels where
  slotsPerMsec : Nat
  channelConfigs : LogicalChannelConfigList
  channels : Nat → Option Nat
  lcgs : Nat → Option Nat

structure LogicalChannelSystem where
  ues : Nat → Option UeLogicalChannels
  lcMapper : LogicalChannelMapper

namespace LogicalChannelSystem

open LogicalChannelMapper

def new : LogicalChannelSystem := ⟨fun _ => none, .empty⟩

abbrev UeState := UeLogicalChannels × LogicalChannelMapper

def removeLc (ueIndex : Nat) (newCfg : LogicalChannelConfigList) (s : UeState)
    (oldLc : LogicalChannelConfig) : UeState :=
  if newCfg.containsLcid oldLc.lcid then s
  else ({ s.1 with channels := Function.update s.1.channels oldLc.lcid none },
    s.2.remLc ueIndex oldLc.lcid)

def removeLcg (ueIndex : Nat) (newCfg : LogicalChannelConfigList) (s : UeState)
    (oldLc : LogicalChannelConfig) : UeState :=
  if ¬newCfg.containsLcg oldLc.lcGroup ∧ (s.1.lcgs oldLc.lcGroup).isSome then
    ({ s.1 with lcgs := Function.update s.1.lcgs oldLc.lcGroup none },
      s.2.remLcg ueIndex oldLc.lcGroup)
  else s

def removeOld (ueIndex : Nat) (newCfg : LogicalChannelConfigList) (s : UeState)
    (oldLc : LogicalChannelConfig) : UeState :=
  removeLcg ueIndex newCfg (removeLc ueIndex newCfg s oldLc) oldLc

def emplace (rows : Nat → Option Nat) (key : Nat) (rid : Option Nat) : Nat → Option Nat :=
  if (rows key).isSome then rows else Function.update rows key rid

def addNew (ueIndex : Nat) (s : UeState) (lc : LogicalChannelConfig) :
    Except LogicalChannelFault UeState := do
  let m ← s.2.addmodLcAndLcg ueIndex lc s.1.slotsPerMsec
  pure ({ s.1 with
    channels := emplace s.1.channels lc.lcid (m.dl.rowIds (ueIndex, lc.lcid))
    lcgs := emplace s.1.lcgs lc.lcGroup (m.ul.rowIds (ueIndex, lc.lcGroup)) }, m)

def configureUe (ueIndex : Nat) (s : UeState) (newCfg : LogicalChannelConfigList) :
    Except LogicalChannelFault UeState :=
  newCfg.lcList.foldlM (addNew ueIndex) (s.1.channelConfigs.lcList.foldl (removeOld ueIndex newCfg)
    ({ s.1 with channelConfigs := newCfg }, s.2))

variable (s : LogicalChannelSystem)

def configure (ueIndex : Nat) (newCfg : LogicalChannelConfigList) :
    Except LogicalChannelFault LogicalChannelSystem :=
  match s.ues ueIndex with
  | none => .error .unknownUe
  | some ue => do
    let r ← configureUe ueIndex (ue, s.lcMapper) newCfg
    pure ⟨Function.update s.ues ueIndex (some r.1), r.2⟩

def createUe (ueIndex slotsPerMsec : Nat)
    (newCfg : LogicalChannelConfigList) : Except LogicalChannelFault LogicalChannelSystem :=
  if (s.ues ueIndex).isSome then .error .duplicateUe
  else configure { s with
    ues := Function.update s.ues ueIndex
      (some ⟨slotsPerMsec, .empty, fun _ => none, fun _ => none⟩) } ueIndex newCfg

/-- `remove_ue` after `deactivate`, which configures no channels: its loops over what is left
find nothing. -/
def removeUe (ueIndex : Nat) :
    Except LogicalChannelFault LogicalChannelSystem := do
  let s ← s.configure ueIndex .empty
  pure { s with ues := Function.update s.ues ueIndex none }

inductive Event
  | createUe (ueIndex slotsPerMsec : Nat) (newCfg : LogicalChannelConfigList)
  | configure (ueIndex : Nat) (newCfg : LogicalChannelConfigList)
  | removeUe (ueIndex : Nat)

def step : Event → Except LogicalChannelFault LogicalChannelSystem
  | .createUe ueIndex slotsPerMsec newCfg => s.createUe ueIndex slotsPerMsec newCfg
  | .configure ueIndex newCfg => s.configure ueIndex newCfg
  | .removeUe ueIndex => s.removeUe ueIndex

/-- After the event no table has more rows than there are ids. -/
def FitsRowIds (e : Event) : Prop :=
  ∀ t, s.step e = .ok t →
    t.lcMapper.dl.rows.objs.length ≤ invalidRowId ∧ t.lcMapper.ul.rows.objs.length ≤ invalidRowId

end LogicalChannelSystem

end Ocudu.Sched
