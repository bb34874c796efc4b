import Ocudu.Sched.Interval
import Ocudu.Sched.SlotPoint

/-! `inter_slice_scheduler.cpp` and `ran_slice_instance.cpp`: the RBs of a slot are shared among the RAN slices of a
cell. Slots are numbered from 1 on and do not wrap around: the size of a ring divides the hyper frame. -/

namespace Ocudu.Sched

inductive Direction
  | dl
  | ul
  deriving DecidableEq

structure RbLimits where
  dedicated : Nat
  min : Nat
  max : Nat
  dedicated_le : dedicated ≤ min
  min_le : min ≤ max

def RbLimits.shared (l : RbLimits) : Nat := l.max - l.min

structure RrmPolicyMember where
  plmnId : Nat
  sst : Nat
  sd : Nat
  deriving DecidableEq

def RrmPolicyMember.default : RrmPolicyMember := ⟨0xf001ff01, 0, 0xffffff⟩

structure SliceRrmPolicyConfig where
  rrcMember : RrmPolicyMember
  rbs : RbLimits
  priority : Nat

def SliceRrmPolicyConfig.maxPriority : Nat := 255

def maxNofPrbs : Nat := 275

/-- The parts of the cell configuration that the slices depend on. For each slot of its period `slotRing` has the
PUSCH time domain resources that may be used; resources are given by their k2. -/
structure SliceCellConfig where
  dlRbs : Nat
  ulRbs : Nat
  ntnCsKoffset : Nat
  puschTdAllocList : List Nat
  slotRing : List (List Nat)
  rrmPolicyMembers : List SliceRrmPolicyConfig
  dlRbs_le : dlRbs ≤ maxNofPrbs
  ulRbs_le : ulRbs ≤ maxNofPrbs
  koffset_le : ntnCsKoffset ≤ 1023
  k2_pos : ∀ k2 ∈ puschTdAllocList, 0 < k2
  k2_le : ∀ k2 ∈ puschTdAllocList, k2 ≤ schedulerMaxK2
  ring_mem : ∀ l ∈ slotRing, ∀ i ∈ l, i < puschTdAllocList.length
  ring_sorted : ∀ l ∈ slotRing, l.Pairwise fun i j => puschTdAllocList.getD i 0 ≤ puschTdAllocList.getD j 0

namespace SliceCellConfig

def rbs (cell : SliceCellConfig) : Direction → Nat
  | .dl => cell.dlRbs
  | .ul => cell.ulRbs

def k2 (cell : SliceCellConfig) (tdResIdx : Nat) : Nat := cell.puschTdAllocList.getD tdResIdx 0

def minK2 (cell : SliceCellConfig) : Nat := (cell.puschTdAllocList.min?).getD 1

def puschRingSize (cell : SliceCellConfig) : Nat := getAllocatorRingSizeGtMin (schedulerMaxK2 + cell.ntnCsKoffset)

def validPuschTdList (cell : SliceCellConfig) (slotTx : Nat) : List Nat :=
  cell.slotRing.getD (slotTx % cell.slotRing.length) []

end SliceCellConfig

inductive SliceFault
  | invalidInterval
  /-- "Remaining RB count cannot result in a negative value" -/
  | negativeRbs
  /-- "This slice has been allocated more RBs than its previous slice candidate rb_max" -/
  | aboveRbMax
  | absent
  deriving DecidableEq

def rbInterval (start stop : Nat) : Except SliceFault OrderedInterval :=
  if h : start ≤ stop then .ok ⟨⟨start, stop⟩, h⟩ else .error .invalidInterval

/-! `ran_slice_instance` -/

structure RanSliceInstance where
  cfg : SliceRrmPolicyConfig
  pdschRbCount : Nat
  puschRbCountPerSlot : Nat → Nat
  lastPdschAllocSlot : Option Nat
  lastPuschAllocSlot : Option Nat

namespace RanSliceInstance

variable (cell : SliceCellConfig)

def maxSlotsSinceLastPxsch : Nat := 256

def new (cfg : SliceRrmPolicyConfig) : RanSliceInstance where
  cfg := cfg
  pdschRbCount := 0
  puschRbCountPerSlot := fun _ => 0
  lastPdschAllocSlot := none
  lastPuschAllocSlot := none

def resetLast (slotTx : Nat) (last : Option Nat) : Option Nat :=
  last.filter fun sl => slotTx ≤ sl + maxSlotsSinceLastPxsch + cell.ntnCsKoffset

def slotIndication (inst : RanSliceInstance) (slotTx : Nat) : RanSliceInstance :=
  { inst with
    pdschRbCount := 0
    puschRbCountPerSlot := fun b =>
      if b = (slotTx + cell.minK2 - 1) % cell.puschRingSize then 0 else inst.puschRbCountPerSlot b
    lastPdschAllocSlot := resetLast cell slotTx inst.lastPdschAllocSlot
    lastPuschAllocSlot := resetLast cell slotTx inst.lastPuschAllocSlot }

def storePdschGrant (inst : RanSliceInstance) (crbs pdschSlot : Nat) : RanSliceInstance :=
  { inst with pdschRbCount := inst.pdschRbCount + crbs, lastPdschAllocSlot := some pdschSlot }

def storePuschGrant (inst : RanSliceInstance) (crbs puschSlot : Nat) : RanSliceInstance :=
  { inst with
    puschRbCountPerSlot := fun b =>
      if b = puschSlot % cell.puschRingSize then inst.puschRbCountPerSlot b + crbs else inst.puschRbCountPerSlot b
    lastPuschAllocSlot := some puschSlot }

def storeGrant (inst : RanSliceInstance) : Direction → Nat → Nat → RanSliceInstance
  | .dl, crbs, slot => inst.storePdschGrant crbs slot
  | .ul, crbs, slot => inst.storePuschGrant cell crbs slot

def nofPuschRbsAllocated (inst : RanSliceInstance) (puschSlot : Nat) : Nat :=
  inst.puschRbCountPerSlot (puschSlot % cell.puschRingSize)

def rbCount (inst : RanSliceInstance) : Direction → Nat → Nat
  | .dl, _ => inst.pdschRbCount
  | .ul, slot => inst.nofPuschRbsAllocated cell slot

def nofSlotsSinceLast (last : Option Nat) (slot : Nat) : Nat :=
  match last with
  | some sl => slot - sl
  | none => maxSlotsSinceLastPxsch

end RanSliceInstance

/-! `inter_slice_scheduler` -/

structure SliceCandidateContext where
  id : Nat
  prio : Nat
  rbLims : OrderedInterval
  slotTx : Nat

structure RanSliceCandidate where
  id : Nat
  slotTx : Nat
  maxRbs : Nat

/-- What `slot_indication` finds in the cell and in the resource grid. `usedCrbs` has the number of CRBs that are
used on the symbols of a PUSCH time domain resource; the averages are rounded to RBs. -/
structure SliceSlotInput where
  slotTx : Nat
  dlEnabled : Bool
  pdschEnabled : Bool
  active : Nat → Bool
  avgPdschRbs : Nat → Nat
  avgPuschRbs : Nat → Nat
  usedCrbs : Nat → Nat

structure RbGrant where
  dir : Direction
  id : Nat
  slotTx : Nat
  rbs : Nat
  limits : List RbLimits

/-- The queues hold the candidates that are still to be popped. The last two fields are no data of the source: whether
the limits are still those that the candidates come from, and the grants, the last one first. -/
structure InterSliceScheduler where
  currentSlot : Option Nat
  slices : List RanSliceInstance
  dlPrioQueue : List SliceCandidateContext
  ulPrioQueue : List SliceCandidateContext
  upToDate : Bool
  grants : List RbGrant

namespace InterSliceScheduler

variable (cell : SliceCellConfig)

def capped (n : Nat) (l : RbLimits) : RbLimits where
  dedicated := min l.dedicated n
  min := min l.min n
  max := min l.max n
  dedicated_le := min_le_min_right n l.dedicated_le
  min_le := min_le_min_right n l.min_le

def adjusted (rrm : SliceRrmPolicyConfig) : SliceRrmPolicyConfig :=
  { rrm with rbs := capped cell.dlRbs rrm.rbs, priority := min rrm.priority SliceRrmPolicyConfig.maxPriority }

def new : InterSliceScheduler where
  currentSlot := none
  slices := .new ⟨.default, ⟨0, cell.dlRbs, cell.dlRbs, Nat.zero_le _, le_rfl⟩, SliceRrmPolicyConfig.maxPriority⟩ ::
    .new ⟨.default, ⟨0, 0, cell.dlRbs, le_rfl, Nat.zero_le _⟩, 0⟩ ::
    cell.rrmPolicyMembers.map fun rrm => .new (adjusted cell rrm)
  dlPrioQueue := []
  ulPrioQueue := []
  upToDate := false
  grants := []

def limits (s : InterSliceScheduler) : List RbLimits := s.slices.map (·.cfg.rbs)

def prioQueue (s : InterSliceScheduler) : Direction → List SliceCandidateContext
  | .dl => s.dlPrioQueue
  | .ul => s.ulPrioQueue

def setPrioQueue (s : InterSliceScheduler) : Direction → List SliceCandidateContext → InterSliceScheduler
  | .dl, q => { s with dlPrioQueue := q }
  | .ul, q => { s with ulPrioQueue := q }

def skipPrio : Nat := 0

def slotDist (pdcchSlot pxschSlot : Nat) : Nat := 127 - min (pxschSlot - pdcchSlot) 127

def minRbPrio (l : RbLimits) (rbLims : Nat) : Nat := if 0 < l.min ∧ rbLims ≤ l.min then 1 else 0

/-- The priority of an active slice: `delay` is the number of slots since it was scheduled, `avg` the average number
of RBs. -/
def activePrio (cfg : SliceRrmPolicyConfig) (pdcchSlot pxschSlot rbLims delay avg : Nat) : Nat :=
  let prio := slotDist pdcchSlot pxschSlot
  let prio := prio * 2 + minRbPrio cfg.rbs rbLims
  let prio := prio * 2 ^ 8 + min cfg.priority 255
  let prio := prio * 2 ^ 8 + min delay 255
  let prio := prio * 2 ^ 7 + (127 - min avg 127)
  prio * 2 + 1

def getPrio (inp : SliceSlotInput) (dir : Direction) (id : Nat) (inst : RanSliceInstance) (pxschSlot rbLims : Nat) : Nat :=
  if inp.active id then
    match dir with
    | .dl => activePrio inst.cfg inp.slotTx pxschSlot rbLims
      (RanSliceInstance.nofSlotsSinceLast inst.lastPdschAllocSlot pxschSlot) (inp.avgPdschRbs id)
    | .ul => activePrio inst.cfg inp.slotTx pxschSlot rbLims
      (RanSliceInstance.nofSlotsSinceLast inst.lastPuschAllocSlot pxschSlot) (inp.avgPuschRbs id)
  else skipPrio

def pushed (inp : SliceSlotInput) (dir : Direction) (id : Nat) (inst : RanSliceInstance) (pxschSlot : Nat)
    (rbLims : OrderedInterval) : List SliceCandidateContext :=
  let prio := getPrio inp dir id inst pxschSlot rbLims.stop
  if prio = skipPrio then [] else [⟨id, prio, rbLims, pxschSlot⟩]

def pushCandidates (inp : SliceSlotInput) (dir : Direction) (id : Nat) (inst : RanSliceInstance)
    (pxschSlot rbCount lo hi : Nat) : Except SliceFault (List SliceCandidateContext) :=
  if rbCount < inst.cfg.rbs.min ∧ 0 < inst.cfg.rbs.min ∧ 0 < inst.cfg.rbs.shared then do
    let first ← rbInterval rbCount lo
    let second ← rbInterval lo hi
    pure (pushed inp dir id inst pxschSlot first ++ pushed inp dir id inst pxschSlot second)
  else do
    let rbLims ← rbInterval rbCount hi
    pure (pushed inp dir id inst pxschSlot rbLims)

def collect {α : Type} (f : α → Except SliceFault (List SliceCandidateContext)) :
    List α → Except SliceFault (List SliceCandidateContext)
  | [] => pure []
  | a :: as => do
    let candidates ← f a
    let rest ← collect f as
    pure (candidates ++ rest)

def dlCandidates (inp : SliceSlotInput) (id : Nat) (inst : RanSliceInstance) :
    Except SliceFault (List SliceCandidateContext) :=
  if inp.pdschEnabled = false ∨ inst.cfg.rbs.max ≤ inst.pdschRbCount then pure []
  else pushCandidates inp .dl id inst inp.slotTx inst.pdschRbCount inst.cfg.rbs.min inst.cfg.rbs.max

def puschSlot (inp : SliceSlotInput) (tdResIdx : Nat) : Nat := inp.slotTx + (cell.k2 tdResIdx + cell.ntnCsKoffset)

/-- RB limits are scaled to the RBs that are left on the symbols of a PUSCH; the product is one of 32-bit words. -/
def scaled (inp : SliceSlotInput) (tdResIdx rbs : Nat) : Nat :=
  rbs * (cell.ulRbs - inp.usedCrbs tdResIdx) % 2 ^ 32 / cell.ulRbs

/-- The loop over the resources does not continue early, but for a k2 that has candidates. -/
def isUsable (inp : SliceSlotInput) (inst : RanSliceInstance) (tdResIdx : Nat) : Bool :=
  let rbCount := inst.nofPuschRbsAllocated cell (puschSlot cell inp tdResIdx)
  rbCount < inst.cfg.rbs.max ∧ inp.usedCrbs tdResIdx < cell.ulRbs ∧ rbCount < scaled cell inp tdResIdx inst.cfg.rbs.max

def usedTdRes (inp : SliceSlotInput) (inst : RanSliceInstance) : Option Nat → List Nat → List Nat
  | _, [] => []
  | allocatedK2, tdResIdx :: rest =>
    if allocatedK2 ≠ some (cell.k2 tdResIdx) ∧ isUsable cell inp inst tdResIdx then
      tdResIdx :: usedTdRes inp inst (some (cell.k2 tdResIdx)) rest
    else usedTdRes inp inst allocatedK2 rest

def tdCandidates (inp : SliceSlotInput) (id : Nat) (inst : RanSliceInstance) (tdResIdx : Nat) :
    Except SliceFault (List SliceCandidateContext) :=
  let slot := puschSlot cell inp tdResIdx
  pushCandidates inp .ul id inst slot (inst.nofPuschRbsAllocated cell slot) (scaled cell inp tdResIdx inst.cfg.rbs.min)
    (scaled cell inp tdResIdx inst.cfg.rbs.max)

def ulCandidates (inp : SliceSlotInput) (id : Nat) (inst : RanSliceInstance) :
    Except SliceFault (List SliceCandidateContext) :=
  collect (tdCandidates cell inp id inst) (usedTdRes cell inp inst none (cell.validPuschTdList inp.slotTx))

def candidates (inp : SliceSlotInput) : Direction → Nat → RanSliceInstance →
    Except SliceFault (List SliceCandidateContext)
  | .dl => dlCandidates inp
  | .ul => ulCandidates cell inp

def pushAll (inp : SliceSlotInput) (dir : Direction) (slices : List RanSliceInstance) :
    Except SliceFault (List SliceCandidateContext) :=
  collect (fun x => candidates cell inp dir x.2 x.1) slices.zipIdx

def indicateSlots (slots : List Nat) (slices : List RanSliceInstance) : List RanSliceInstance :=
  slots.foldl (fun slices slot => slices.map (·.slotIndication cell slot)) slices

def indicated (s : InterSliceScheduler) (slotTx : Nat) : List RanSliceInstance :=
  let current := s.currentSlot.getD (slotTx - 1)
  indicateSlots cell (List.range' (current + 1) (slotTx - current)) s.slices

def slotIndication (sort : List SliceCandidateContext → List SliceCandidateContext) (s : InterSliceScheduler)
    (inp : SliceSlotInput) : Except SliceFault InterSliceScheduler :=
  let slices := s.indicated cell inp.slotTx
  let s := { s with currentSlot := some inp.slotTx, slices, dlPrioQueue := [], ulPrioQueue := [], upToDate := true }
  if inp.dlEnabled then do
    let dl ← pushAll cell inp .dl slices
    let ul ← pushAll cell inp .ul slices
    pure { s with dlPrioQueue := sort dl, ulPrioQueue := sort ul }
  else pure s

/-! `get_next_candidate` -/

def getNofUsedReservedRbs (s : InterSliceScheduler) (dir : Direction) (slot : Nat) : Nat :=
  (s.slices.map fun inst => max inst.cfg.rbs.dedicated (inst.rbCount cell dir slot)).sum

def tryCandidate (s : InterSliceScheduler) (dir : Direction) (id slot : Nat) (rbLims : OrderedInterval) :
    Except SliceFault (Option RanSliceCandidate) :=
  match s.slices[id]? with
  | none => .error .absent
  | some inst =>
    let rbCount := inst.rbCount cell dir slot
    let nofUsedRbs := s.getNofUsedReservedRbs cell dir slot
    let rbsToDiscount := inst.cfg.rbs.dedicated - rbCount
    if cell.rbs dir + rbsToDiscount < nofUsedRbs then .error .negativeRbs
    else if rbLims.stop < rbCount then .error .aboveRbMax
    else
      let maxRbs := min (rbLims.stop - rbCount) (cell.rbs dir + rbsToDiscount - nofUsedRbs)
      if maxRbs = 0 ∨ rbCount < rbLims.start then .ok none else .ok (some ⟨id, slot, maxRbs⟩)

def combined (a b : OrderedInterval) : OrderedInterval where
  start := min a.start b.start
  stop := max a.stop b.stop
  start_le_stop := (min_le_left _ _).trans (a.start_le_stop.trans (le_max_left _ _))

/-- The queue that is left, unless the candidate is returned. -/
def orElse (x : Except SliceFault (Option RanSliceCandidate)) (q : List SliceCandidateContext)
    (next : Except SliceFault (Option RanSliceCandidate × List SliceCandidateContext)) :
    Except SliceFault (Option RanSliceCandidate × List SliceCandidateContext) :=
  match x with
  | .error f => .error f
  | .ok (some c) => .ok (some c, q)
  | .ok none => next

def getNextCandidate (s : InterSliceScheduler) (dir : Direction) : List SliceCandidateContext →
    Except SliceFault (Option RanSliceCandidate × List SliceCandidateContext)
  | [] => .ok (none, [])
  | [c] => orElse (s.tryCandidate cell dir c.id c.slotTx c.rbLims) [] (.ok (none, []))
  | c :: d :: q =>
    if d.id = c.id ∧ d.slotTx = c.slotTx then
      orElse (s.tryCandidate cell dir c.id c.slotTx (combined c.rbLims d.rbLims)) q (getNextCandidate s dir q)
    else
      orElse (s.tryCandidate cell dir c.id c.slotTx c.rbLims) (d :: q) (getNextCandidate s dir (d :: q))

def storeGrant (s : InterSliceScheduler) (dir : Direction) (c : RanSliceCandidate) (rbs : Nat) : InterSliceScheduler :=
  { s with
    slices := s.slices.mapIdx fun i inst => if i = c.id then inst.storeGrant cell dir rbs c.slotTx else inst
    grants := ⟨dir, c.id, c.slotTx, rbs, s.limits⟩ :: s.grants }

def storeGrants (s : InterSliceScheduler) (dir : Direction) (c : RanSliceCandidate) (rbs : List Nat) :
    InterSliceScheduler :=
  rbs.foldl (fun s n => s.storeGrant cell dir c n) s

def serve (s : InterSliceScheduler) (dir : Direction) (rbs : List Nat) : Except SliceFault InterSliceScheduler :=
  match s.getNextCandidate cell dir (s.prioQueue dir) with
  | .error f => .error f
  | .ok (none, q) => .ok (s.setPrioQueue dir q)
  | .ok (some c, q) => .ok ((s.setPrioQueue dir q).storeGrants cell dir c rbs)

def applyPolicy (slices : List RanSliceInstance) (rrm : RrmPolicyMember × RbLimits) : List RanSliceInstance :=
  slices.map fun inst =>
    if inst.cfg.rrcMember = rrm.1 then { inst with cfg := { inst.cfg with rbs := rrm.2 } } else inst

def handleSliceReconfigurationRequest (s : InterSliceScheduler) (req : List (RrmPolicyMember × RbLimits)) :
    InterSliceScheduler :=
  { s with slices := req.foldl applyPolicy s.slices, upToDate := false }

end InterSliceScheduler

inductive SliceEvent
  | slotIndication (inp : SliceSlotInput)
  | serve (dir : Direction) (rbs : List Nat)
  | reconfigure (req : List (RrmPolicyMember × RbLimits))

namespace InterSliceScheduler

def step (cell : SliceCellConfig) (sort : List SliceCandidateContext → List SliceCandidateContext)
    (s : InterSliceScheduler) : SliceEvent → Except SliceFault InterSliceScheduler
  | .slotIndication inp => s.slotIndication cell sort inp
  | .serve dir rbs => s.serve cell dir rbs
  | .reconfigure req => .ok (s.handleSliceReconfigurationRequest req)

end InterSliceScheduler

end Ocudu.Sched
