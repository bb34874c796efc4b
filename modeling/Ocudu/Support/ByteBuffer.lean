import Ocudu.Support.ByteBufferSegment

/-! `byte_buffer.cpp`, `byte_buffer.h` and `byte_buffer_segment_list.h`: a buffer of bytes in linked segments of
pooled memory.

The control block is kept by value beside the memory of the segments, and a segment that no buffer links any more is
marked as freed, so that a later access to it is a fault. -/

namespace Ocudu.Support

open LinkedHeap

def defaultSegmentSize : Nat := 2048

def defaultFirstSegmentHeadroom : Nat := 16

def defaultPool : Nat := 0

/-- The memory resources. No allocation fails, and a block has room for a byte behind the headers; where the default
segment size is asked for, also behind the default headroom. -/
structure SegmentPools where
  /-- What the payload region of the `n`-th block holds when a pool hands it out. -/
  block (pool request n : Nat) : List UInt8
  nonempty (pool request n : Nat) : 0 < request → 0 < (block pool request n).length
  roomy (pool request n : Nat) : defaultSegmentSize ≤ request → defaultFirstSegmentHeadroom < (block pool request n).length

structure ControlBlock where
  head : Option Nat
  tail : Option Nat
  pktLen : Nat
  segmentInCbMemoryBlock : Nat
  refCount : Nat
  segmentPool : Nat
  deriving DecidableEq

structure ByteBuffer where
  mem : Heap Segment
  ctrlBlkPtr : Option ControlBlock
  deriving DecidableEq

def deref (mem : Heap Segment) : Option Nat → Except BufferFault (Nat × Cell Segment)
  | none => .error .null
  | some a =>
    match mem[a]? with
    | some c => if c.alive then .ok (a, c) else .error .unlinked
    | none => .error .unlinked

def setSegment (mem : Heap Segment) (a : Nat) (c : Cell Segment) (seg : Segment) : Heap Segment :=
  mem.set a { c with val := seg }

def destroyNodes : Nat → Heap Segment → Option Nat → Except BufferFault (Heap Segment)
  | _, mem, none => .ok mem
  | 0, _, some _ => .error .loopBound
  | fuel + 1, mem, some p => do
    let (a, c) ← deref mem (some p)
    destroyNodes fuel (free mem a) c.next

namespace ByteBuffer

variable (pools : SegmentPools) (s : ByteBuffer)

def hasCtrlBlock : Bool := s.ctrlBlkPtr.isSome

def length : Nat :=
  match s.ctrlBlkPtr with
  | some cb => cb.pktLen
  | none => 0

def empty : Bool := s.length == 0

def ctrlBlk : Except BufferFault ControlBlock :=
  match s.ctrlBlkPtr with
  | some cb => .ok cb
  | none => .error .null

def addHeadSegment (mem : Heap Segment) (headroom segmentPool szHint : Nat) : ByteBuffer where
  mem := mem ++ [⟨Segment.new (pools.block segmentPool szHint mem.length) headroom, none, true⟩]
  ctrlBlkPtr := some
    { head := some mem.length
      tail := some mem.length
      pktLen := 0
      segmentInCbMemoryBlock := mem.length
      refCount := 1
      segmentPool := segmentPool }

def createSegment (mem : Heap Segment) (cb : ControlBlock) (headroom szHint : Nat) : Heap Segment :=
  mem ++ [⟨Segment.new (pools.block cb.segmentPool szHint mem.length) headroom, none, true⟩]

def pushBack (mem : Heap Segment) (cb : ControlBlock) (seg : Nat) : Except BufferFault ByteBuffer :=
  match cb.head with
  | none => .ok ⟨mem, some { cb with head := some seg, tail := some seg }⟩
  | some _ => do
    let (t, c) ← deref mem cb.tail
    .ok ⟨mem.set t { c with next := some seg }, some { cb with tail := some seg }⟩

def pushFront (mem : Heap Segment) (cb : ControlBlock) (seg : Nat) : Except BufferFault ByteBuffer := do
  let (a, c) ← deref mem (some seg)
  .ok ⟨mem.set a { c with next := cb.head }, some { cb with head := some seg, tail := cb.tail.or (some seg) }⟩

def appendSegment (headroomSuggestion szHint : Nat) : Except BufferFault ByteBuffer :=
  match s.ctrlBlkPtr with
  | none => .ok (addHeadSegment pools s.mem headroomSuggestion defaultPool szHint)
  | some cb => pushBack (createSegment pools s.mem cb headroomSuggestion szHint) cb s.mem.length

def prependSegment (headroomSuggestion szHint : Nat) : Except BufferFault ByteBuffer :=
  match s.ctrlBlkPtr with
  | none => .ok (addHeadSegment pools s.mem headroomSuggestion defaultPool szHint)
  | some cb => pushFront (createSegment pools s.mem cb headroomSuggestion szHint) cb s.mem.length

def newTail (mem : Heap Segment) (tail : Option Nat) : Nat → Option Nat → Except BufferFault (Nat × Cell Segment)
  | 0, _ => .error .loopBound
  | fuel + 1, p => do
    let (a, c) ← deref mem p
    if c.next = tail then .ok (a, c) else newTail mem tail fuel c.next

def popBack (mem : Heap Segment) (cb : ControlBlock) : Except BufferFault ByteBuffer :=
  if cb.head = cb.tail then .ok ⟨mem, some { cb with head := none, tail := none }⟩
  else do
    let (a, c) ← newTail mem cb.tail mem.length cb.head
    .ok ⟨mem.set a { c with next := none }, some { cb with tail := some a }⟩

def popLastSegment : Except BufferFault ByteBuffer := do
  let cb ← s.ctrlBlk
  match cb.tail with
  | none => .ok s
  | some tail => do
    let (t, c) ← deref s.mem (some tail)
    let s' ← popBack s.mem { cb with pktLen := cb.pktLen - c.val.length }
    .ok ⟨free s'.mem t, s'.ctrlBlkPtr⟩

/-! `append` and `prepend` of a span, `append` of a byte -/

def ensureTailroom (szHint : Nat) : Except BufferFault ByteBuffer := do
  let cb ← s.ctrlBlk
  let (_, c) ← deref s.mem cb.tail
  if c.val.tailroom = 0 then s.appendSegment pools 0 szHint else .ok s

def appendToTail (bytes : List UInt8) : Except BufferFault (ByteBuffer × List UInt8) := do
  let cb ← s.ctrlBlk
  let (t, c) ← deref s.mem cb.tail
  let toWrite := min c.val.tailroom bytes.length
  let seg ← c.val.append (bytes.take toWrite)
  .ok (⟨setSegment s.mem t c seg, some { cb with pktLen := cb.pktLen + toWrite }⟩, bytes.drop toWrite)

def appendLoop : Nat → ByteBuffer → List UInt8 → Except BufferFault ByteBuffer
  | _, s, [] => .ok s
  | 0, _, _ :: _ => .error .loopBound
  | fuel + 1, s, b :: bytes => do
    let s ← s.ensureTailroom pools (b :: bytes).length
    let (s, rest) ← s.appendToTail (b :: bytes)
    appendLoop fuel s rest

def defaultConstruct (mem : Heap Segment) (segmentPool : Nat) : ByteBuffer :=
  if segmentPool = defaultPool then ⟨mem, none⟩
  else addHeadSegment pools mem defaultFirstSegmentHeadroom segmentPool defaultSegmentSize

def ensureCtrlBlock (segmentPool szHint : Nat) : ByteBuffer :=
  if s.hasCtrlBlock then s
  else addHeadSegment pools s.mem defaultFirstSegmentHeadroom segmentPool (szHint + defaultFirstSegmentHeadroom)

def appendWithPool (bytes : List UInt8) (segmentPool : Nat) : Except BufferFault ByteBuffer :=
  if bytes = [] then .ok (if s.hasCtrlBlock then s else defaultConstruct pools s.mem segmentPool)
  else appendLoop pools bytes.length (s.ensureCtrlBlock pools segmentPool bytes.length) bytes

def append (bytes : List UInt8) : Except BufferFault ByteBuffer := s.appendWithPool pools bytes defaultPool

def ensureTailroomForByte : Except BufferFault ByteBuffer :=
  if s.empty then s.appendSegment pools defaultFirstSegmentHeadroom defaultSegmentSize
  else do
    let cb ← s.ctrlBlk
    let (_, c) ← deref s.mem cb.tail
    if c.val.tailroom = 0 then s.appendSegment pools defaultFirstSegmentHeadroom defaultSegmentSize else .ok s

def appendByte (byte : UInt8) : Except BufferFault ByteBuffer := do
  let s ← s.ensureTailroomForByte pools
  let cb ← s.ctrlBlk
  let (t, c) ← deref s.mem cb.tail
  let seg ← c.val.append [byte]
  .ok ⟨setSegment s.mem t c seg, some { cb with pktLen := cb.pktLen + 1 }⟩

def ensureHeadroom (remBytes : Nat) : Except BufferFault ByteBuffer := do
  let cb ← s.ctrlBlk
  let (_, c) ← deref s.mem cb.head
  if c.val.headroom = 0 then s.prependSegment pools remBytes remBytes else .ok s

/-- As many bytes of the end as the head has room for, and the bytes that are left. -/
def prependToHead (bytes : List UInt8) : Except BufferFault (ByteBuffer × List UInt8) := do
  let cb ← s.ctrlBlk
  let (h, c) ← deref s.mem cb.head
  let toWrite := min c.val.headroom bytes.length
  let seg ← c.val.prepend (bytes.drop (bytes.length - toWrite))
  .ok (⟨setSegment s.mem h c seg, some { cb with pktLen := cb.pktLen + toWrite }⟩, bytes.take (bytes.length - toWrite))

def prependLoop : Nat → ByteBuffer → List UInt8 → Except BufferFault ByteBuffer
  | _, s, [] => .ok s
  | 0, _, _ :: _ => .error .loopBound
  | fuel + 1, s, b :: bytes => do
    let s ← s.ensureHeadroom pools (b :: bytes).length
    let (s, rest) ← s.prependToHead (b :: bytes)
    prependLoop fuel s rest

def prepend (bytes : List UInt8) : Except BufferFault ByteBuffer :=
  if s.empty then s.append pools bytes else prependLoop pools bytes.length s bytes

end ByteBuffer

/-! The bytes from `begin` to `end` -/

structure ByteIterator where
  currentSegment : Option Nat
  offset : Nat
  deriving DecidableEq

namespace ByteIterator

def skipEmpty (mem : Heap Segment) : Nat → Option Nat → Except BufferFault (Option Nat)
  | _, none => .ok none
  | 0, some _ => .error .loopBound
  | fuel + 1, some p => do
    let (a, c) ← deref mem (some p)
    if c.val.empty then skipEmpty mem fuel c.next else .ok (some a)

def new (mem : Heap Segment) (startSegment : Option Nat) : Except BufferFault ByteIterator := do
  let p ← skipEmpty mem mem.length startSegment
  .ok ⟨p, 0⟩

def endIt : ByteIterator := ⟨none, 0⟩

variable (mem : Heap Segment) (it : ByteIterator)

def get : Except BufferFault UInt8 := do
  let (_, c) ← deref mem it.currentSegment
  match c.val.buffer[c.val.start + it.offset]? with
  | some b => .ok b
  | none => .error .outOfBounds

def next : Except BufferFault ByteIterator := do
  let (_, c) ← deref mem it.currentSegment
  if c.val.length ≤ it.offset + 1 then .ok ⟨c.next, 0⟩ else .ok ⟨it.currentSegment, it.offset + 1⟩

def advanceLoop : Nat → Option Nat → Nat → Except BufferFault ByteIterator
  | _, none, offset => if offset = 0 then .ok endIt else .error .room
  | 0, some _, _ => .error .loopBound
  | fuel + 1, some p, offset => do
    let (_, c) ← deref mem (some p)
    if c.val.length ≤ offset then advanceLoop fuel c.next (offset - c.val.length) else .ok ⟨some p, offset⟩

def advance (n : Nat) : Except BufferFault ByteIterator :=
  advanceLoop mem mem.length it.currentSegment (it.offset + n)

def bytes : Nat → ByteIterator → Except BufferFault (List UInt8)
  | 0, it => if it = endIt then .ok [] else .error .loopBound
  | fuel + 1, it =>
    if it = endIt then .ok []
    else do
      let b ← it.get mem
      let it ← it.next mem
      let bs ← bytes fuel it
      .ok (b :: bs)

end ByteIterator

namespace ByteBuffer

variable (pools : SegmentPools) (s : ByteBuffer)

def beginIt : Except BufferFault ByteIterator :=
  ByteIterator.new s.mem (match s.ctrlBlkPtr with | some cb => cb.head | none => none)

/-- No iteration visits more bytes than the memory has, or one for an empty segment. -/
def iterate : Except BufferFault (List UInt8) := do
  let it ← s.beginIt
  ByteIterator.bytes s.mem (s.mem.map fun c => c.val.capacity + 1).sum it

/-! `reserve_prepend`, trimming, `linearize`, `resize` and `clear` -/

def ensureReservable (remBytes : Nat) : Except BufferFault ByteBuffer :=
  if s.empty then s.prependSegment pools remBytes remBytes else s.ensureHeadroom pools remBytes

def reserveInHead (remBytes : Nat) : Except BufferFault (ByteBuffer × Nat) := do
  let cb ← s.ctrlBlk
  let (h, c) ← deref s.mem cb.head
  let toReserve := min c.val.headroom remBytes
  let seg ← c.val.reservePrepend toReserve
  .ok (⟨setSegment s.mem h c seg, some cb⟩, remBytes - toReserve)

def reserveLoop : Nat → ByteBuffer → Nat → Except BufferFault ByteBuffer
  | _, s, 0 => .ok s
  | 0, _, _ + 1 => .error .loopBound
  | fuel + 1, s, n + 1 => do
    let s ← s.ensureReservable pools (n + 1)
    let (s, rem) ← s.reserveInHead (n + 1)
    reserveLoop fuel s rem

def reservePrepend (nofBytes : Nat) : Except BufferFault ((ByteIterator × ByteIterator) × ByteBuffer) := do
  let s ← reserveLoop pools nofBytes s nofBytes
  let cb ← s.ctrlBlk
  let s := ⟨s.mem, some { cb with pktLen := cb.pktLen + nofBytes }⟩
  let it ← s.beginIt
  let itEnd ← it.advance s.mem nofBytes
  .ok ((it, itEnd), s)

def trimHeadLoop : Nat → ByteBuffer → Nat → Except BufferFault ByteBuffer
  | _, s, 0 => .ok s
  | 0, _, _ + 1 => .error .loopBound
  | fuel + 1, s, n + 1 => do
    let cb ← s.ctrlBlk
    let (h, c) ← deref s.mem cb.head
    let toTrim := min (n + 1) c.val.length
    let seg ← c.val.trimHead toTrim
    let mem := setSegment s.mem h c seg
    if seg.length = 0 then
      -- The tail pointer is left as it is.
      trimHeadLoop fuel ⟨free mem h, some { cb with pktLen := cb.pktLen - toTrim, head := c.next }⟩ (n + 1 - toTrim)
    else trimHeadLoop fuel ⟨mem, some { cb with pktLen := cb.pktLen - toTrim }⟩ (n + 1 - toTrim)

def trimHead (nofBytes : Nat) : Except BufferFault ByteBuffer :=
  if nofBytes ≤ s.length then trimHeadLoop (nofBytes + s.mem.length) s nofBytes else .error .room

def trimTailWalk (s : ByteBuffer) (newLen : Nat) : Nat → Option Nat → Nat → Except BufferFault ByteBuffer
  | _, none, _ => .ok s
  | 0, some _, _ => .error .loopBound
  | fuel + 1, some p, count => do
    let (a, c) ← deref s.mem (some p)
    if newLen ≤ count + c.val.length then do
      let cb ← s.ctrlBlk
      let mem ← destroyNodes s.mem.length s.mem c.next
      let seg ← c.val.resize (newLen - count)
      .ok ⟨mem.set a ⟨seg, none, true⟩, some { cb with tail := some a, pktLen := newLen }⟩
    else trimTailWalk s newLen fuel c.next (count + c.val.length)

def trimTail (nofBytes : Nat) : Except BufferFault ByteBuffer :=
  if s.length < nofBytes then .error .room
  else if nofBytes = 0 then .ok s
  else do
    let cb ← s.ctrlBlk
    let (t, c) ← deref s.mem cb.tail
    if nofBytes ≤ c.val.length then do
      let seg ← c.val.trimTail nofBytes
      let s := ⟨setSegment s.mem t c seg, some { cb with pktLen := cb.pktLen - nofBytes }⟩
      if seg.length = 0 then popLastSegment s else .ok s
    else trimTailWalk s (s.length - nofBytes) s.mem.length cb.head 0

def isContiguous : Bool :=
  s.empty || match s.ctrlBlkPtr with | some cb => cb.head == cb.tail | none => true

def gather (head : Option Nat) : Nat → Heap Segment → Option Nat → Except BufferFault (Heap Segment)
  | _, mem, none => .ok mem
  | 0, _, some _ => .error .loopBound
  | fuel + 1, mem, some p => do
    let (a, c) ← deref mem (some p)
    let (h, hc) ← deref mem head
    let seg ← hc.val.append c.val.payload
    gather head fuel (free (setSegment mem h hc seg) a) c.next

def linearize : Except BufferFault (Bool × ByteBuffer) :=
  if s.isContiguous then .ok (true, s)
  else do
    let cb ← s.ctrlBlk
    let (_, c) ← deref s.mem cb.head
    if c.val.capacity - c.val.headroom < s.length then .ok (false, s)
    else do
      let mem ← gather cb.head s.mem.length s.mem c.next
      let (h, hc) ← deref mem cb.head
      .ok (true, ⟨mem.set h { hc with next := none }, some { cb with tail := cb.head }⟩)

def ensureGrowable (toAdd : Nat) : Except BufferFault ByteBuffer :=
  if s.hasCtrlBlock then s.ensureTailroom pools toAdd else s.appendSegment pools 0 toAdd

def growTail (toAdd : Nat) : Except BufferFault (ByteBuffer × Nat) := do
  let cb ← s.ctrlBlk
  let (t, c) ← deref s.mem cb.tail
  let added := min c.val.tailroom toAdd
  let seg ← c.val.resize (c.val.length + added)
  .ok (⟨setSegment s.mem t c seg, some cb⟩, toAdd - added)

def growLoop : Nat → ByteBuffer → Nat → Except BufferFault ByteBuffer
  | _, s, 0 => .ok s
  | 0, _, _ + 1 => .error .loopBound
  | fuel + 1, s, n + 1 => do
    let s ← s.ensureGrowable pools (n + 1)
    let (s, toAdd) ← s.growTail (n + 1)
    growLoop fuel s toAdd

/-- The segments behind the new tail are not given back to the pool, but nothing links them any more: here they count
as destroyed. -/
def shrinkWalk (newSz : Nat) : Nat → ByteBuffer → Option Nat → Nat → Except BufferFault ByteBuffer
  | 0, s, _, count => if newSz ≤ count then .ok s else .error .loopBound
  | fuel + 1, s, p, count =>
    if newSz ≤ count then .ok s
    else do
      let (a, c) ← deref s.mem p
      let newSegLen := min c.val.length (newSz - count)
      let seg ← (if newSegLen = c.val.length then .ok c.val else c.val.resize newSegLen)
      if count + newSegLen = newSz then do
        let cb ← s.ctrlBlk
        let mem ← destroyNodes s.mem.length s.mem c.next
        shrinkWalk newSz fuel ⟨mem.set a ⟨seg, none, true⟩, some { cb with tail := some a }⟩ none (count + newSegLen)
      else shrinkWalk newSz fuel ⟨setSegment s.mem a c seg, s.ctrlBlkPtr⟩ c.next (count + newSegLen)

def setPktLen (n : Nat) : Except BufferFault ByteBuffer := do
  let cb ← s.ctrlBlk
  .ok ⟨s.mem, some { cb with pktLen := n }⟩

def resize (newSz : Nat) : Except BufferFault ByteBuffer :=
  if newSz = s.length then .ok s
  else if s.length < newSz then do
    let s ← growLoop pools (newSz - s.length) s (newSz - s.length)
    s.setPktLen newSz
  else do
    let cb ← s.ctrlBlk
    let s ← shrinkWalk newSz s.mem.length s cb.head 0
    s.setPktLen newSz

def clear : Except BufferFault ByteBuffer :=
  match s.ctrlBlkPtr with
  | none => .ok s
  | some cb =>
    if cb.refCount = 1 then do
      let mem ← destroyNodes s.mem.length s.mem cb.head
      .ok ⟨mem, none⟩
    else .ok ⟨s.mem, none⟩

end ByteBuffer

end Ocudu.Support
