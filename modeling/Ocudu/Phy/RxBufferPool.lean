import Ocudu.Basic.Machine
import Ocudu.Sched.SlotPoint

/-! `rx_buffer_pool_impl`: the soft buffers of the PUSCH HARQ processes, and the codeblocks that they
share.  Each call is one step; a buffer is named by its index. -/

namespace Ocudu.Phy

open Sched (SlotPoint)

def maxNofSegments : Nat := (156 * 275 * 4 * 8) / (22 * 384)

inductive RxBufferFault
  | capacity
  /-- A `unique_rx_buffer` is used that does not point to a buffer. -/
  | invalidBuffer
  | invalidState
  | outOfRange
  deriving DecidableEq

structure CodeblockEntry where
  softBits : List Int
  dataBits : List Bool
  deriving DecidableEq

structure RxBufferPoolConfig where
  maxCodeblockSize : Nat
  nofBuffers : Nat
  nofCodeblocks : Nat
  expireTimeoutSlots : Nat
  externalSoftBits : Bool

/-- The free list is a bounded queue with room for all identifiers. -/
structure RxBufferCodeblockPool where
  entries : Nat → CodeblockEntry
  freeList : List Nat

namespace RxBufferCodeblockPool

def new (cfg : RxBufferPoolConfig) : RxBufferCodeblockPool where
  entries := fun _ =>
    { softBits := List.replicate (if cfg.externalSoftBits then 0 else cfg.maxCodeblockSize) 0
      dataBits := List.replicate ((cfg.maxCodeblockSize + 2) / 3) false }
  freeList := List.range cfg.nofCodeblocks

variable (pool : RxBufferCodeblockPool)

def reserve : Option (Nat × RxBufferCodeblockPool) :=
  match pool.freeList with
  | [] => none
  | cbId :: rest => some (cbId, { pool with freeList := rest })

def free (cbId : Nat) : RxBufferCodeblockPool :=
  { pool with freeList := pool.freeList ++ [cbId] }

def freeAll (ids : List Nat) : RxBufferCodeblockPool := ids.foldl free pool

def modifyEntry (cbId : Nat) (f : CodeblockEntry → CodeblockEntry) :
    RxBufferCodeblockPool :=
  { pool with entries := Function.update pool.entries cbId (f (pool.entries cbId)) }

end RxBufferCodeblockPool

inductive RxBufferStatus
  | successful
  | alreadyInUse
  | insufficientCb
  deriving DecidableEq

inductive RxBufferState
  | available
  | reserved
  | locked
  deriving DecidableEq

structure RxBufferImpl where
  currentState : RxBufferState := .available
  crc : List Bool := []
  codeblockIds : List Nat := []

namespace RxBufferImpl

variable (b : RxBufferImpl)

def isFree : Bool := b.currentState == .available

def isLocked : Bool := b.currentState == .locked

def getNofCodeblocks : Nat := b.crc.length

def free (pool : RxBufferCodeblockPool) : RxBufferImpl × RxBufferCodeblockPool :=
  ({ b with codeblockIds := [] }, pool.freeAll b.codeblockIds)

/-- The loop of `reserve` that gives codeblocks back from the end. -/
def freeExcess : Nat → List Nat → RxBufferCodeblockPool → List Nat × RxBufferCodeblockPool
  | 0, ids, pool => (ids, pool)
  | excess + 1, ids, pool =>
    match ids.getLast? with
    | some cbId => freeExcess excess ids.dropLast (pool.free cbId)
    | none => (ids, pool)

def takeMissing : Nat → List Nat → RxBufferCodeblockPool →
    Except RxBufferFault (Bool × List Nat × RxBufferCodeblockPool)
  | 0, ids, pool => .ok (true, ids, pool)
  | missing + 1, ids, pool =>
    match pool.reserve with
    | none => .ok (false, ids, pool)
    | some (cbId, pool) =>
      if ids.length = maxNofSegments then .error .capacity
      else takeMissing missing (ids ++ [cbId]) pool

/-- `static_vector::resize`; the new elements are value-initialised. -/
def resizeCrc (crc : List Bool) (n : Nat) : List Bool := crc.take n ++ List.replicate (n - crc.length) false

def resetCodeblocksCrc : RxBufferImpl := { b with crc := b.crc.map fun _ => false }

/-- The CRC list has the capacity of the identifiers, which have not exceeded it. -/
def reserve (pool : RxBufferCodeblockPool) (nofCodeblocks : Nat) (resetCrc : Bool) :
    Except RxBufferFault (RxBufferStatus × RxBufferImpl × RxBufferCodeblockPool) :=
  if b.isLocked then .ok (.alreadyInUse, b, pool)
  else do
    let (ids, pool) := freeExcess (b.codeblockIds.length - nofCodeblocks) b.codeblockIds pool
    let (enough, ids, pool) ← takeMissing (nofCodeblocks - ids.length) ids pool
    let b := { b with codeblockIds := ids }
    if enough then
      let b := { b with crc := resizeCrc b.crc nofCodeblocks }
      let b := if resetCrc then b.resetCodeblocksCrc else b
      return (.successful, { b with currentState := .reserved }, pool)
    else
      let (b, pool) := b.free pool
      return (.insufficientCb, { b with currentState := .available }, pool)

def tryLock : Bool × RxBufferImpl :=
  if b.currentState = .reserved then (true, { b with currentState := .locked }) else (false, b)

def unlock : Except RxBufferFault RxBufferImpl :=
  if b.isLocked then .ok { b with currentState := .reserved } else .error .invalidState

def release (pool : RxBufferCodeblockPool) :
    Except RxBufferFault (RxBufferImpl × RxBufferCodeblockPool) :=
  let (b, pool) := b.free pool
  if b.isLocked then .ok ({ b with currentState := .available }, pool) else .error .invalidState

def expire (pool : RxBufferCodeblockPool) : Bool × RxBufferImpl × RxBufferCodeblockPool :=
  if b.currentState = .reserved then
    let (b, pool) := b.free pool
    (true, { b with currentState := .available }, pool)
  else (false, b, pool)

end RxBufferImpl

def invalidBufferId : Nat := 2 ^ 32 - 1

structure RxBufferPool where
  cfg : RxBufferPoolConfig
  stopped : Bool
  codeblockPool : RxBufferCodeblockPool
  buffers : Nat → RxBufferImpl
  identifiers : Nat → Nat
  expirations : Nat → Option SlotPoint
  /-- The buffers that the valid `unique_rx_buffer` objects point to. -/
  holders : List Nat

inductive RxBufferEvent
  | reserve (slot : SlotPoint) (id nofCodeblocks : Nat) (newData : Bool)
  | unlock (i : Nat)
  | release (i : Nat)
  | runSlot (slot : SlotPoint)
  | stop
  | writeSoftBits (i codeblockId : Nat) (bits : List Int)
  | writeDataBits (i codeblockId : Nat) (bits : List Bool)
  | writeCrc (i codeblockId : Nat) (crcOk : Bool)

namespace RxBufferPool

def new (cfg : RxBufferPoolConfig) : RxBufferPool where
  cfg := cfg
  stopped := false
  codeblockPool := .new cfg
  buffers := fun _ => {}
  identifiers := fun _ => invalidBufferId
  expirations := fun _ => none
  holders := []

variable (s : RxBufferPool)

def findId (id : Nat) : Option Nat := (List.range s.cfg.nofBuffers).find? (s.identifiers · = id)

def findFor (id : Nat) (newData : Bool) : Option Nat :=
  match s.findId id with
  | some i => some i
  | none => if newData then s.findId invalidBufferId else none

def setBuffer (i : Nat) (b : RxBufferImpl) (pool : RxBufferCodeblockPool) : RxBufferPool :=
  { s with codeblockPool := pool, buffers := Function.update s.buffers i b }

def uniqueRxBuffer (i : Nat) : Option Nat × RxBufferPool :=
  match (s.buffers i).tryLock with
  | (true, b) => (some i, { s with buffers := Function.update s.buffers i b, holders := i :: s.holders })
  | (false, _) => (none, s)

def reserveBuffer (slot : SlotPoint) (id nofCodeblocks : Nat) (newData : Bool) (i : Nat) :
    Except RxBufferFault (Option Nat × RxBufferPool) :=
  if newData = false ∧ nofCodeblocks ≠ (s.buffers i).getNofCodeblocks then .ok (none, s)
  else do
    let (status, b, pool) ← (s.buffers i).reserve s.codeblockPool nofCodeblocks newData
    let s := s.setBuffer i b pool
    if status ≠ .successful then return (none, s)
    else
      return { s with
        identifiers := Function.update s.identifiers i id
        expirations := Function.update s.expirations i (some (slot.add s.cfg.expireTimeoutSlots)) }.uniqueRxBuffer i

def reserve (slot : SlotPoint) (id nofCodeblocks : Nat) (newData : Bool) :
    Except RxBufferFault (Option Nat × RxBufferPool) :=
  if s.stopped then .ok (none, s)
  else
    match s.findFor id newData with
    | none => .ok (none, s)
    | some i => s.reserveBuffer slot id nofCodeblocks newData i

def expired (expiration : Option SlotPoint) (slot : SlotPoint) : Bool :=
  expiration.any fun e => e == slot || e.lt slot

def checkFree (slot : SlotPoint) (i : Nat) : Bool × RxBufferPool :=
  if expired (s.expirations i) slot then
    let (isFree, b, pool) := (s.buffers i).expire s.codeblockPool
    (isFree, s.setBuffer i b pool)
  else ((s.buffers i).isFree, s)

def clear (i : Nat) : RxBufferPool :=
  { s with
    identifiers := Function.update s.identifiers i invalidBufferId
    expirations := Function.update s.expirations i none }

def runSlotBuffer (slot : SlotPoint) (s : RxBufferPool) (i : Nat) : RxBufferPool :=
  if s.identifiers i = invalidBufferId then s
  else if (s.buffers i).isLocked then
    { s with expirations := Function.update s.expirations i (some (slot.add s.cfg.expireTimeoutSlots)) }
  else
    match s.checkFree slot i with
    | (true, s) => s.clear i
    | (false, s) => s

def runSlot (slot : SlotPoint) : RxBufferPool := (List.range s.cfg.nofBuffers).foldl (runSlotBuffer slot) s

def dropHolder (i : Nat) : RxBufferPool := { s with holders := s.holders.erase i }

def unlock (i : Nat) : Except RxBufferFault RxBufferPool :=
  if i ∉ s.holders then .error .invalidBuffer
  else do
    let b ← (s.buffers i).unlock
    return (s.setBuffer i b s.codeblockPool).dropHolder i

def release (i : Nat) : Except RxBufferFault RxBufferPool :=
  if i ∉ s.holders then .error .invalidBuffer
  else do
    let (b, pool) ← (s.buffers i).release s.codeblockPool
    return (s.setBuffer i b pool).dropHolder i

def overwrite {α : Type} (old new : List α) : List α := new ++ old.drop new.length

def absoluteCodeblockId (i codeblockId : Nat) : Except RxBufferFault Nat :=
  if i ∉ s.holders then .error .invalidBuffer
  else
    match (s.buffers i).codeblockIds[codeblockId]? with
    | none => .error .outOfRange
    | some cbId => .ok cbId

def writeSoftBits (i codeblockId : Nat) (bits : List Int) : Except RxBufferFault RxBufferPool := do
  let cbId ← s.absoluteCodeblockId i codeblockId
  if (s.codeblockPool.entries cbId).softBits.length < bits.length then .error .outOfRange
  else return { s with codeblockPool :=
    s.codeblockPool.modifyEntry cbId fun e => { e with softBits := overwrite e.softBits bits } }

def writeDataBits (i codeblockId : Nat) (bits : List Bool) : Except RxBufferFault RxBufferPool := do
  let cbId ← s.absoluteCodeblockId i codeblockId
  if (s.codeblockPool.entries cbId).dataBits.length < bits.length then .error .outOfRange
  else return { s with codeblockPool :=
    s.codeblockPool.modifyEntry cbId fun e => { e with dataBits := overwrite e.dataBits bits } }

def writeCrc (i codeblockId : Nat) (crcOk : Bool) : Except RxBufferFault RxBufferPool :=
  if i ∉ s.holders then .error .invalidBuffer
  else if (s.buffers i).crc.length ≤ codeblockId then .error .outOfRange
  else
    let b := s.buffers i
    .ok (s.setBuffer i { b with crc := b.crc.set codeblockId crcOk } s.codeblockPool)

def react : RxBufferEvent → Except RxBufferFault (Option Nat × RxBufferPool)
  | .reserve slot id nofCodeblocks newData => s.reserve slot id nofCodeblocks newData
  | .unlock i => return (none, ← s.unlock i)
  | .release i => return (none, ← s.release i)
  | .runSlot slot => return (none, s.runSlot slot)
  | .stop => return (none, { s with stopped := true })
  | .writeSoftBits i codeblockId bits => return (none, ← s.writeSoftBits i codeblockId bits)
  | .writeDataBits i codeblockId bits => return (none, ← s.writeDataBits i codeblockId bits)
  | .writeCrc i codeblockId crcOk => return (none, ← s.writeCrc i codeblockId crcOk)

end RxBufferPool

end Ocudu.Phy
