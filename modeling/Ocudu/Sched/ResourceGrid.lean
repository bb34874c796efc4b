import Ocudu.Basic.BoundedBitset
import Ocudu.Sched.PucchRegions

/-! `resource_grid.cpp`, `carrier_subslot_resource_grid`: the OFDM symbols and the common resource blocks
of a carrier that are taken in a slot. A failed assertion is `none`. -/

namespace Ocudu.Sched

def CarrierGrid.maxNofPrbs : Nat := 275

def nofOfdmSymPerSlot : Nat := 14

structure ScsSpecificCarrier where
  offsetToCarrier : Nat
  carrierBandwidth : Nat
  carrierBandwidth_le : carrierBandwidth ≤ CarrierGrid.maxNofPrbs

theorem ScsSpecificCarrier.offset_le_stop (cfg : ScsSpecificCarrier) :
    cfg.offsetToCarrier ≤ cfg.offsetToCarrier + cfg.carrierBandwidth := Nat.le_add_right _ _

def ScsSpecificCarrier.rbDims (cfg : ScsSpecificCarrier) : OrderedInterval :=
  ⟨⟨cfg.offsetToCarrier, cfg.offsetToCarrier + cfg.carrierBandwidth⟩, cfg.offset_le_stop⟩

structure CarrierGrid where
  carrierCfg : ScsSpecificCarrier
  slotRbs : BoundedBitset (nofOfdmSymPerSlot * CarrierGrid.maxNofPrbs)

namespace CarrierGrid

def new (cfg : ScsSpecificCarrier) : Option CarrierGrid :=
  (BoundedBitset.zeros (nofOfdmSymPerSlot * cfg.carrierBandwidth)).map (⟨cfg, ·⟩)

variable (g : CarrierGrid)

def nofRbs : Nat := g.carrierCfg.carrierBandwidth

def offset : Nat := g.carrierCfg.offsetToCarrier

def rbDims : OrderedInterval := g.carrierCfg.rbDims

def reset : CarrierGrid := { g with slotRbs := g.slotRbs.update fun _ _ => false }

def setInterval (value : Bool) (symbols crbs : OrderedInterval) : Option CarrierGrid :=
  if g.rbDims.containsInterval crbs ∧ symbols.stop ≤ nofOfdmSymPerSlot then
    -- bit 0 of a symbol is the first CRB of the carrier
    (symbols.points.foldlM (fun slotRbs sym => BoundedBitset.fill slotRbs
      (crbs.start - g.offset + sym * g.nofRbs) (crbs.stop - g.offset + sym * g.nofRbs) value)
      g.slotRbs).map ({ g with slotRbs := · })
  else none

def fill (symbols crbs : OrderedInterval) : Option CarrierGrid := g.setInterval true symbols crbs

def clear (symbols crbs : OrderedInterval) : Option CarrierGrid := g.setInterval false symbols crbs

def setList (value : Bool) (symbols : OrderedInterval) (crbList : List Nat) : Option CarrierGrid :=
  if symbols.stop ≤ nofOfdmSymPerSlot then
    (symbols.points.foldlM (fun slotRbs sym => crbList.foldlM (fun slotRbs crb =>
      if g.rbDims.contains crb then BoundedBitset.set slotRbs (crb - g.offset + sym * g.nofRbs) value
      else none) slotRbs) g.slotRbs).map ({ g with slotRbs := · })
  else none

def fillList (symbols : OrderedInterval) (crbList : List Nat) : Option CarrierGrid :=
  g.setList true symbols crbList

def clearList (symbols : OrderedInterval) (crbList : List Nat) : Option CarrierGrid :=
  g.setList false symbols crbList

def collides (symbols crbs : OrderedInterval) (ignoreRg : Option CarrierGrid) : Option Bool :=
  if g.rbDims.containsInterval crbs ∧ symbols.stop ≤ nofOfdmSymPerSlot then
    symbols.points.anyM fun sym =>
      match ignoreRg with
      | some ignored => (List.range' (crbs.start - g.offset) crbs.length).anyM fun crb =>
          (g.slotRbs.test (crb + sym * g.nofRbs)).bind fun taken =>
            if taken then (ignored.slotRbs.test (crb + sym * g.nofRbs)).map not else some false
      | none => g.slotRbs.any (crbs.start - g.offset + sym * g.nofRbs) (crbs.stop - g.offset + sym * g.nofRbs)
  else none

def selectedSymbols (symbols : OrderedInterval) : Option (BoundedBitset (nofOfdmSymPerSlot * maxNofPrbs)) :=
  if symbols.isEmpty ∨ nofOfdmSymPerSlot < symbols.stop then none
  else g.slotRbs.slice _ (symbols.start * g.nofRbs) (symbols.stop * g.nofRbs)

def usedCrbs (bwpCrbLims symbols : OrderedInterval) : Option (BoundedBitset maxNofPrbs) := do
  let selected ← g.selectedSymbols symbols
  let crbBits ← selected.foldAndAccumulate maxNofPrbs g.nofRbs 0 g.nofRbs
  -- neither the fold nor the limits are shifted by the carrier offset
  let crbBits ← crbBits.fill 0 bwpCrbLims.start true
  crbBits.fill bwpCrbLims.stop crbBits.size true

def usedPrbs (bwpCrbLims symbols : OrderedInterval) : Option (BoundedBitset maxNofPrbs) := do
  let selected ← g.selectedSymbols symbols
  selected.foldAndAccumulate maxNofPrbs g.nofRbs bwpCrbLims.start bwpCrbLims.length

end CarrierGrid

inductive GridCall
  | reset
  | fill (symbols crbs : OrderedInterval)
  | fillList (symbols : OrderedInterval) (crbList : List Nat)
  | clear (symbols crbs : OrderedInterval)
  | clearList (symbols : OrderedInterval) (crbList : List Nat)

namespace CarrierGrid

def step (g : CarrierGrid) : GridCall → Option CarrierGrid
  | .reset => some g.reset
  | .fill symbols crbs => g.fill symbols crbs
  | .fillList symbols crbList => g.fillList symbols crbList
  | .clear symbols crbs => g.clear symbols crbs
  | .clearList symbols crbList => g.clearList symbols crbList

def run (cfg : ScsSpecificCarrier) (calls : List GridCall) : Option CarrierGrid :=
  (new cfg).bind fun g => calls.foldlM step g

end CarrierGrid

end Ocudu.Sched
