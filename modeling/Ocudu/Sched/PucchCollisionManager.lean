import Ocudu.Sched.Interval

/-! `pucch_collision.cpp` and `pucch_collision_manager.cpp`: which PUCCH resources of a cell collide, which
ones are multiplexed in the same resource blocks, and the resources that are in use in a slot. -/

namespace Ocudu.Sched

inductive PucchFormat
  | format0
  | format1
  | format2
  | format3
  | format4
  deriving DecidableEq

inductive PucchFormatParams
  | f0 (initialCyclicShift : Nat)
  | f1 (initialCyclicShift timeDomainOcc : Nat)
  | f2 (nofPrbs : Nat)
  | f3 (nofPrbs : Nat)
  | f4 (occIndex : Nat)
  deriving DecidableEq, Inhabited

structure PucchResource where
  startingPrb : Nat
  syms : Interval
  secondHopPrb : Option Nat
  formatParams : PucchFormatParams
  deriving DecidableEq, Inhabited

structure PucchHop where
  syms : Interval
  prbs : Interval
  deriving DecidableEq

def PucchHop.overlaps (hop other : PucchHop) : Bool :=
  hop.syms.overlaps other.syms && hop.prbs.overlaps other.prbs

structure PucchGrants where
  firstHop : PucchHop
  secondHop : Option PucchHop
  deriving DecidableEq

def PucchGrants.overlaps (grants other : PucchGrants) : Bool :=
  grants.firstHop.overlaps other.firstHop || other.secondHop.any grants.firstHop.overlaps ||
    grants.secondHop.any fun hop => hop.overlaps other.firstHop || other.secondHop.any hop.overlaps

def f1NofIcs : Nat := 12

/-- Parameters of a grant in the resource grid, in common RBs. -/
structure GrantInfo where
  symbols : Interval
  crbs : Interval
  deriving DecidableEq

def GrantInfo.contains (grant : GrantInfo) (sym crb : Nat) : Bool :=
  grant.symbols.contains sym && grant.crbs.contains crb

namespace PucchResource

variable (res : PucchResource)

def format : PucchFormat :=
  match res.formatParams with
  | .f0 _ => .format0
  | .f1 _ _ => .format1
  | .f2 _ => .format2
  | .f3 _ => .format3
  | .f4 _ => .format4

def nofPrbs : Nat :=
  match res.formatParams with
  | .f2 nofPrbs | .f3 nofPrbs => nofPrbs
  | _ => 1

def prbs : Interval := .startAndLen res.startingPrb res.nofPrbs

def half : Nat := res.syms.length / 2

def grants : PucchGrants :=
  match res.secondHopPrb with
  | none => ⟨⟨res.syms, res.prbs⟩, none⟩
  | some secondHopPrb =>
    ⟨⟨⟨res.syms.start, res.syms.start + res.half⟩, res.prbs⟩,
      some ⟨⟨res.syms.start + res.half, res.syms.stop⟩, .startAndLen secondHopPrb res.prbs.length⟩⟩

def muxIdx : Nat :=
  match res.formatParams with
  | .f0 initialCyclicShift => initialCyclicShift
  | .f1 initialCyclicShift timeDomainOcc => initialCyclicShift + timeDomainOcc * f1NofIcs
  | .f4 occIndex => occIndex
  | .f2 _ | .f3 _ => 0

def collide (res1 res2 : PucchResource) : Bool :=
  if !res1.grants.overlaps res2.grants then false
  else if res1.format ≠ res2.format then true
  else if res1.grants ≠ res2.grants then true
  else res1.muxIdx == res2.muxIdx

end PucchResource

def prbToCrb (bwpStart : Nat) (prbs : Interval) : Interval := ⟨prbs.start + bwpStart, prbs.stop + bwpStart⟩

def pucchHopGrant (res : PucchResource) (bwpStart : Nat) (firstHop : Bool) : GrantInfo :=
  match res.secondHopPrb with
  | none => ⟨res.syms, prbToCrb bwpStart res.prbs⟩
  | some secondHopPrb =>
    if firstHop then ⟨⟨res.syms.start, res.syms.start + res.half⟩, prbToCrb bwpStart res.prbs⟩
    else ⟨⟨res.syms.start + res.half, res.syms.stop⟩,
      prbToCrb bwpStart (.startAndLen secondHopPrb res.prbs.length)⟩

/-- The symbols and common RBs of the carrier of the BWP. -/
abbrev ResourceGrid := Nat → Nat → Bool

namespace ResourceGrid

def empty : ResourceGrid := fun _ _ => false

def fill (grid : ResourceGrid) (grant : GrantInfo) : ResourceGrid := fun sym crb =>
  grant.contains sym crb || grid sym crb

def clear (grid : ResourceGrid) (grant : GrantInfo) : ResourceGrid := fun sym crb =>
  !grant.contains sym crb && grid sym crb

def collides (grid : ResourceGrid) (grant : GrantInfo) (ignored : ResourceGrid) : Bool :=
  grant.symbols.points.any fun sym => grant.crbs.points.any fun crb => grid sym crb && !ignored sym crb

end ResourceGrid

def maxNofCellCommonPucchResources : Nat := 16

structure CellPucchResConfig where
  common : Fin maxNofCellCommonPucchResources → PucchResource
  dedicated : List PucchResource

structure MuxRegion where
  format : PucchFormat
  prbs : Interval
  syms : Interval
  secondHopPrb : Option Nat
  members : List Nat

def MuxRegion.doesResourceBelong (region : MuxRegion) (res : PucchResource) : Bool :=
  res.format == region.format && res.prbs == region.prbs && res.syms == region.syms &&
    res.secondHopPrb == region.secondHopPrb

def MuxRegion.add (i : Nat) (res : PucchResource) : List MuxRegion → List MuxRegion
  | [] => [⟨res.format, res.prbs, res.syms, res.secondHopPrb, [i]⟩]
  | region :: regions =>
    if region.doesResourceBelong res then { region with members := i :: region.members } :: regions
    else region :: add i res regions

inductive PucchFault
  | resource
  | regions

namespace CellPucchResConfig

variable (cfg : CellPucchResConfig)

def nofTotalRes : Nat := maxNofCellCommonPucchResources + cfg.dedicated.length

def getRes (i : Nat) : PucchResource :=
  if h : i < maxNofCellCommonPucchResources then cfg.common ⟨i, h⟩
  else cfg.dedicated.getD (i - maxNofCellCommonPucchResources) default

def setBit (matrix : Nat → Nat → Bool) (i j : Nat) : Nat → Nat → Bool := fun a b => (a == i && b == j) || matrix a b

def collisionRow (matrix : Nat → Nat → Bool) (i : Nat) : Nat → Nat → Bool :=
  (List.range' (i + 1) (cfg.nofTotalRes - (i + 1))).foldl
    (fun matrix j => if (cfg.getRes i).collide (cfg.getRes j) then setBit (setBit matrix i j) j i else matrix)
    (setBit matrix i i)

def makeCollisionMatrix : Nat → Nat → Bool :=
  (List.range cfg.nofTotalRes).foldl cfg.collisionRow fun _ _ => false

def muxRegions : List MuxRegion :=
  (List.range cfg.nofTotalRes).foldl (fun regions i => MuxRegion.add i (cfg.getRes i) regions) []

def makeMuxRegionsMatrix : List (List Nat) :=
  (cfg.muxRegions.filter fun region => decide (2 ≤ region.members.length)).map (·.members)

end CellPucchResConfig

def addMuxRegion (regionIdx : Nat) (lookup : Nat → Option Nat) : List Nat → Except PucchFault (Nat → Option Nat)
  | [] => .ok lookup
  | i :: members =>
    if (lookup i).isSome then .error .regions
    else addMuxRegion regionIdx (Function.update lookup i (some regionIdx)) members

def addMuxRegions (lookup : Nat → Option Nat) (regionIdx : Nat) : List (List Nat) →
    Except PucchFault (Nat → Option Nat)
  | [] => .ok lookup
  | members :: regions => do
    let lookup ← addMuxRegion regionIdx lookup members
    addMuxRegions lookup (regionIdx + 1) regions

def buildMuxRegionLookup (muxMatrix : List (List Nat)) : Except PucchFault (Nat → Option Nat) :=
  addMuxRegions (fun _ => none) 0 muxMatrix

structure PucchCollisionManager where
  cfg : CellPucchResConfig
  bwpStart : Nat
  colMatrix : Nat → Nat → Bool
  muxMatrix : List (List Nat)
  muxRegionLookup : Nat → Option Nat

/-- The last two fields are no data of the source: the resources whose allocation has succeeded and that
were not freed since, and the grants of others. -/
structure PucchSlot where
  currentState : Nat → Bool
  pucchResGrid : ResourceGrid
  ulResGrid : ResourceGrid
  allocated : List Nat
  ulGrants : List GrantInfo

def PucchSlot.empty : PucchSlot := ⟨fun _ => false, .empty, .empty, [], []⟩

inductive PucchAllocFailure
  | pucchCollision
  | ulGrantCollision

/-- A grant that is not a PUCCH is put in the grid where nothing else is, and taken out by its owner. -/
inductive PucchSlotEvent
  | alloc (i : Nat)
  | free (i : Nat)
  | fillUl (grant : GrantInfo)
  | clearUl (grant : GrantInfo)

namespace PucchCollisionManager

def new (cfg : CellPucchResConfig) (bwpStart : Nat) : Except PucchFault PucchCollisionManager := do
  let lookup ← buildMuxRegionLookup cfg.makeMuxRegionsMatrix
  return ⟨cfg, bwpStart, cfg.makeCollisionMatrix, cfg.makeMuxRegionsMatrix, lookup⟩

variable (m : PucchCollisionManager) (s : PucchSlot)

def hops (i : Nat) : List GrantInfo :=
  pucchHopGrant (m.cfg.getRes i) m.bwpStart true ::
    if (m.cfg.getRes i).secondHopPrb.isSome then [pucchHopGrant (m.cfg.getRes i) m.bwpStart false] else []

def colliding (i : Nat) : Bool := (List.range m.cfg.nofTotalRes).any fun j => m.colMatrix i j && s.currentState j

def alloc (i : Nat) : Except PucchFault (Except PucchAllocFailure PucchSlot) :=
  if m.cfg.nofTotalRes ≤ i then .error .resource
  else if (m.hops i).any (s.ulResGrid.collides · s.pucchResGrid) then .ok (.error .ulGrantCollision)
  else if m.colliding s i then .ok (.error .pucchCollision)
  else .ok (.ok { s with
    currentState := Function.update s.currentState i true
    ulResGrid := (m.hops i).foldl ResourceGrid.fill s.ulResGrid
    pucchResGrid := (m.hops i).foldl ResourceGrid.fill s.pucchResGrid })

def sharesRegion (i : Nat) : Bool :=
  (m.muxRegionLookup i).any fun regionIdx => (m.muxMatrix.getD regionIdx []).any s.currentState

def free (i : Nat) : Except PucchFault (PucchSlot × Bool) :=
  if m.cfg.nofTotalRes ≤ i then .error .resource
  else if s.currentState i = false then .ok (s, false)
  else
    let s := { s with currentState := Function.update s.currentState i false }
    if m.sharesRegion s i then .ok (s, true)
    else .ok ({ s with
      ulResGrid := (m.hops i).foldl ResourceGrid.clear s.ulResGrid
      pucchResGrid := (m.hops i).foldl ResourceGrid.clear s.pucchResGrid }, true)

def step : PucchSlotEvent → Except PucchFault PucchSlot
  | .alloc i => do
    match ← m.alloc s i with
    | .ok s' => return { s' with allocated := i :: s'.allocated }
    | .error _ => return s
  | .free i => do
    let (s', wasInUse) ← m.free s i
    return if wasInUse then { s' with allocated := s'.allocated.erase i } else s'
  | .fillUl grant =>
    if s.ulResGrid.collides grant .empty then .ok s
    else .ok { s with ulResGrid := s.ulResGrid.fill grant, ulGrants := grant :: s.ulGrants }
  | .clearUl grant =>
    if grant ∈ s.ulGrants then
      .ok { s with ulResGrid := s.ulResGrid.clear grant, ulGrants := s.ulGrants.erase grant }
    else .ok s

end PucchCollisionManager

end Ocudu.Sched
