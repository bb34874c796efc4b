import Ocudu.Support.ByteBufferPrepend
import Ocudu.Support.ByteBufferTrim

/-! A byte buffer under any sequence of operations is a list of bytes, as long as no operation meets one of the states
that it does not expect. -/

namespace Ocudu.Support

open LinkedHeap

namespace ByteBuffer

inductive Op
  | append (bytes : List UInt8)
  | appendByte (byte : UInt8)
  | prepend (bytes : List UInt8)
  | reservePrepend (nofBytes : Nat)
  | trimHead (nofBytes : Nat)
  | trimTail (nofBytes : Nat)
  | resize (newSz : Nat)
  | linearize
  | clear

variable (pools : SegmentPools) (s : ByteBuffer)

def step : Op → Except BufferFault ByteBuffer
  | .append bytes => s.append pools bytes
  | .appendByte byte => s.appendByte pools byte
  | .prepend bytes => s.prepend pools bytes
  | .reservePrepend nofBytes => (s.reservePrepend pools nofBytes).map (·.2)
  | .trimHead nofBytes => s.trimHead nofBytes
  | .trimTail nofBytes => s.trimTail nofBytes
  | .resize newSz => s.resize pools newSz
  | .linearize => s.linearize.map (·.2)
  | .clear => s.clear

/-- The same operations on a list of bytes; the bytes that `resize` and `reserve_prepend` add may be any. -/
inductive ListStep : Op → List UInt8 → List UInt8 → Prop
  | append (bytes xs : List UInt8) : ListStep (.append bytes) xs (xs ++ bytes)
  | appendByte (byte : UInt8) (xs : List UInt8) : ListStep (.appendByte byte) xs (xs ++ [byte])
  | prepend (bytes xs : List UInt8) : ListStep (.prepend bytes) xs (bytes ++ xs)
  | reservePrepend (ys xs : List UInt8) : ListStep (.reservePrepend ys.length) xs (ys ++ xs)
  | trimHead (n : Nat) (xs : List UInt8) : ListStep (.trimHead n) xs (xs.drop n)
  | trimTail (n : Nat) (xs : List UInt8) : ListStep (.trimTail n) xs (xs.take (xs.length - n))
  | shrink {n : Nat} {xs : List UInt8} : n ≤ xs.length → ListStep (.resize n) xs (xs.take n)
  | grow (ys xs : List UInt8) : ListStep (.resize (xs.length + ys.length)) xs (xs ++ ys)
  | linearize (xs : List UInt8) : ListStep .linearize xs xs
  | clear (xs : List UInt8) : ListStep .clear xs []

/-! What the assertions ask for, and the states in which an operation goes wrong -/

def inBounds : Op → Bool
  | .trimHead nofBytes => nofBytes ≤ s.length
  | .trimTail nofBytes => nofBytes ≤ s.length
  | _ => true

def bare : Bool :=
  match s.ctrlBlkPtr with
  | some cb => cb.head.isNone
  | none => false

def stuck : Bool :=
  match s.ctrlBlkPtr with
  | some cb =>
    match deref s.mem cb.head with
    | .ok (_, c) => c.val.empty && c.val.headroom == 0
    | .error _ => false
  | none => false

/-- The operation does not meet a state that it does not expect. -/
def expected : Op → Bool
  | .append bytes => bytes.isEmpty || !s.bare
  | .prepend bytes => bytes.isEmpty || (!s.bare && (s.empty || !s.stuck))
  | .reservePrepend nofBytes =>
    if nofBytes = 0 then s.hasCtrlBlock
    else if s.empty then !s.hasCtrlBlock || s.bare
    else !s.stuck
  | .trimHead nofBytes => nofBytes = 0 || nofBytes != s.length
  | .resize newSz => if newSz ≤ s.length then newSz = s.length || newSz != 0 else !s.bare
  | _ => true

abbrev Allowed (s : ByteBuffer) (op : Op) : Prop := s.inBounds op = true ∧ s.expected op = true

def linkedFrom (mem : Heap Segment) : Nat → Option Nat → Except BufferFault (List Nat)
  | _, none => .ok []
  | 0, some _ => .error .loopBound
  | fuel + 1, some p => do
    let (a, c) ← deref mem (some p)
    let as ← linkedFrom mem fuel c.next
    .ok (a :: as)

def head : Option Nat := s.ctrlBlkPtr.bind ControlBlock.head

def tail : Option Nat := s.ctrlBlkPtr.bind ControlBlock.tail

/-- What a user of the buffer relies on: the bytes, their number, and the ends of the segment list. -/
def Represents (xs : List UInt8) : Prop :=
  s.iterate = .ok xs ∧ s.length = xs.length ∧
    ∃ as, linkedFrom s.mem s.mem.length s.head = .ok as ∧ s.head = as.head? ∧ s.tail = as.getLast?

/-- The buffer has no control block and no bytes, or its segments hold the bytes. -/
def Good (xs : List UInt8) : Prop := (s.ctrlBlkPtr = none ∧ xs = []) ∨ ∃ L, Stored s L xs

variable {s} {L : Segments} {xs bytes : List UInt8} {a n : Nat} {v : Segment}

theorem Good.none (h : s.ctrlBlkPtr = none) : Good s [] := .inl ⟨h, rfl⟩

theorem Stored.good (hs : Stored s L xs) : Good s xs := .inr ⟨L, hs⟩

theorem Built.good (hs : Built s L n xs) (hn : n = xs.length) : Good s xs := by
  subst hn
  exact hs.stored.good

theorem Stored.built (hs : Stored s L xs) (hL : L ≠ []) : Built s L xs.length xs :=
  ⟨hs.holds, hL, hs.packed, hs.bytes⟩

theorem linkedFrom_chain {mem : Heap Segment} {p : Option Nat} {fuel : Nat} (hc : Chain mem p L)
    (hfuel : L.length ≤ fuel) : linkedFrom mem fuel p = .ok (addrs L) := by
  induction L generalizing p fuel with
  | nil =>
    rw [show p = Option.none from hc, linkedFrom]
    rfl
  | cons x L ih =>
    obtain ⟨fuel, rfl⟩ := Nat.exists_eq_add_one_of_ne_zero (Nat.ne_of_gt (Nat.lt_of_lt_of_le (Nat.succ_pos _) hfuel))
    obtain ⟨hp, q, hcell, hrest⟩ := hc
    rw [hp, linkedFrom, deref_cell hcell, ok_bind]
    dsimp only
    rw [ih hrest (Nat.le_of_succ_le_succ hfuel)]
    rfl

theorem Good.represents (hs : Good s xs) : Represents s xs := by
  rcases hs with ⟨h, rfl⟩ | ⟨L, hs⟩
  · refine ⟨iterate_none h, ?_, [], ?_, ?_, ?_⟩
    · rw [length, h]
      rfl
    · rw [head, h]
      exact linkedFrom_chain (L := []) rfl (Nat.zero_le _)
    · rw [head, h]
      rfl
    · rw [tail, h]
      rfl
  · obtain ⟨hholds, hpacked, rfl⟩ := hs
    refine ⟨hholds.iterate hpacked, hholds.length, addrs L, ?_⟩
    obtain ⟨cb, hcb, hl, -⟩ := hholds
    rw [head, tail, hcb]
    exact ⟨linkedFrom_chain hl.chain (hl.chain.length_le hl.nodup), hl.head_eq, hl.tail⟩

theorem Holds.bare (hs : Holds s L n) : s.bare = L.isEmpty := by
  obtain ⟨cb, hcb, hl, -⟩ := hs
  rw [ByteBuffer.bare, hcb]
  dsimp only
  rw [hl.head_eq]
  cases L with
  | nil => rfl
  | cons x L => rfl

theorem Holds.stuck (hs : Holds s ((a, v) :: L) n) : s.stuck = (v.empty && v.headroom == 0) := by
  obtain ⟨cb, q, hcb, -, -, hderef, -⟩ := hs.first
  rw [ByteBuffer.stuck, hcb]
  dsimp only
  rw [hderef]

theorem Holds.prependable (hs : Holds s ((a, v) :: L) n) (hfull : Full L) (hstuck : s.stuck = false) :
    Prependable s a v L n (v.payload ++ bytesOf L) := by
  refine ⟨hs, ?_, hfull, rfl⟩
  rw [hs.stuck, Bool.and_eq_false_iff] at hstuck
  rcases hstuck with hlen | hroom
  · exact .inl (Nat.pos_of_ne_zero fun h => (beq_eq_false_iff_ne.mp hlen) h)
  · exact .inr (Nat.pos_of_ne_zero fun h => (beq_eq_false_iff_ne.mp hroom) h)

theorem length_none (h : s.ctrlBlkPtr = none) : s.length = 0 := by
  rw [length, h]

theorem hasCtrlBlock_none (h : s.ctrlBlkPtr = none) : s.hasCtrlBlock = false := by
  rw [hasCtrlBlock, h]
  rfl

section

variable (hs : Good s xs)
include hs

theorem Good.length : s.length = xs.length := hs.represents.2.1

theorem Good.empty : s.empty = xs.isEmpty := by
  rw [ByteBuffer.empty, hs.length]
  cases xs with
  | nil => rfl
  | cons x xs => rfl

theorem Good.append (hexp : bytes = [] ∨ s.bare = false) :
    ∃ s', s.append pools bytes = .ok s' ∧ Good s' (xs ++ bytes) := by
  rcases hs with ⟨h, rfl⟩ | ⟨L, hs⟩
  · by_cases hbytes : bytes = []
    · subst hbytes
      refine ⟨⟨s.mem, Option.none⟩, ?_, Good.none rfl⟩
      rw [ByteBuffer.append, appendWithPool, if_pos rfl, hasCtrlBlock_none h]
      rfl
    · obtain ⟨s', L', hok, hs', -⟩ := appendWithPool_none pools h hbytes defaultPool
      exact ⟨s', hok, hs'.good rfl⟩
  · by_cases hL : L = []
    · subst hL
      have hbare : s.bare = true := hs.holds.bare
      have hbytes : bytes = [] := hexp.resolve_right (by rw [hbare]; exact Bool.noConfusion)
      rw [ByteBuffer.append, appendWithPool, if_pos hbytes, if_pos hs.holds.hasCtrlBlock, hbytes, List.append_nil]
      exact ⟨s, rfl, hs.good⟩
    · obtain ⟨s', L', hok, hs', -⟩ := (hs.built hL).appendWithPool pools bytes defaultPool
      exact ⟨s', hok, hs'.good List.length_append.symm⟩

theorem Good.appendByte (byte : UInt8) :
    ∃ s', s.appendByte pools byte = .ok s' ∧ Good s' (xs ++ [byte]) := by
  obtain ⟨s₁, L₁, a, v, hok, hready⟩ : ∃ s₁ L₁ a v, s.ensureTailroomForByte pools = .ok s₁ ∧
      TailReady s₁ L₁ a v xs.length xs := by
    rcases hs with ⟨h, rfl⟩ | ⟨L, hholds, hpacked, rfl⟩
    · exact ensureTailroomForByte_none pools h
    · exact hholds.ensureTailroomForByte pools hpacked rfl
  obtain ⟨cb, seg, hcb, hderef, happend, hbuilt⟩ := hready.appendByte byte
  refine ⟨_, ?_, hbuilt.good (by rw [List.length_append]; rfl)⟩
  rw [ByteBuffer.appendByte, hok, ok_bind, hcb, ok_bind, hderef, ok_bind]
  dsimp only
  rw [happend, ok_bind]

theorem Good.cons (hempty : ¬s.empty = true) : ∃ x L, Stored s (x :: L) xs := by
  rcases hs with ⟨h, rfl⟩ | ⟨L, hholds, hpacked, rfl⟩
  · rw [ByteBuffer.empty, length_none h] at hempty
    exact absurd rfl hempty
  · cases L with
    | nil =>
      rw [ByteBuffer.empty, hholds.length] at hempty
      exact absurd rfl hempty
    | cons x L => exact ⟨x, L, hholds, hpacked, rfl⟩

theorem Good.prepend (hexp : bytes = [] ∨ (s.bare = false ∧ (s.empty = true ∨ s.stuck = false))) :
    ∃ s', s.prepend pools bytes = .ok s' ∧ Good s' (bytes ++ xs) := by
  rw [ByteBuffer.prepend]
  by_cases hempty : s.empty = true
  · obtain ⟨s', hok, hs'⟩ := hs.append pools (hexp.imp_right And.left)
    have hxs : xs = [] := List.isEmpty_iff.mp (hs.empty ▸ hempty)
    rw [if_pos hempty]
    rw [hxs, List.nil_append] at hs'
    rw [hxs, List.append_nil]
    exact ⟨s', hok, hs'⟩
  · rw [if_neg hempty]
    rcases hexp with rfl | ⟨-, hexp⟩
    · exact ⟨s, rfl, hs⟩
    · have hstuck := hexp.resolve_left hempty
      obtain ⟨x, L, hholds, hpacked, rfl⟩ := hs.cons hempty
      obtain ⟨s', b, w, M, hok, hs'⟩ := (hholds.prependable hpacked hstuck).prependLoop pools
        (Nat.le_refl bytes.length)
      refine ⟨s', hok, hs'.built.good ?_⟩
      rw [List.length_append, Nat.add_comm]
      rfl

theorem Good.reservePrepend (hexp : s.expected (.reservePrepend n) = true) :
    ∃ view s' ys, s.reservePrepend pools n = .ok (view, s') ∧ ys.length = n ∧ Good s' (ys ++ xs) := by
  rw [expected] at hexp
  by_cases hn : n = 0
  · subst hn
    rw [if_pos rfl] at hexp
    rcases hs with ⟨h, rfl⟩ | ⟨L, hs⟩
    · rw [hasCtrlBlock_none h] at hexp
      cases hexp
    · obtain ⟨cb, hcb, hl, hlen⟩ := hs.holds
      have heq : (⟨s.mem, some { cb with pktLen := cb.pktLen + 0 }⟩ : ByteBuffer) = s := by
        rw [Nat.add_zero]
        exact congrArg (ByteBuffer.mk s.mem) hcb.symm
      obtain ⟨it, itEnd, hbegin, hadvance⟩ := hs.holds.advance (Nat.zero_le _)
      refine ⟨(it, itEnd), s, [], ?_, rfl, hs.good⟩
      rw [ByteBuffer.reservePrepend, reserveLoop, ok_bind, ctrlBlk_eq hcb, ok_bind]
      dsimp only
      rw [heq, hbegin, ok_bind, hadvance, ok_bind]
  · rw [if_neg hn] at hexp
    have hpos : 0 < n := Nat.pos_of_ne_zero hn
    obtain ⟨s₁, a, v, L, hok, hready⟩ : ∃ s₁ a v L, s.ensureReservable pools n = .ok s₁ ∧
        HeadReady s₁ a v L xs.length xs := by
      rw [ensureReservable]
      by_cases hempty : s.empty = true
      · rw [if_pos hempty] at hexp ⊢
        have hxs : xs = [] := List.isEmpty_iff.mp (hs.empty ▸ hempty)
        subst hxs
        rcases hs with ⟨h, -⟩ | ⟨L, hs⟩
        · refine ⟨addHeadSegment pools s.mem n defaultPool n, _, _, [], ?_, holds_addHeadSegment pools s.mem _ _ _,
            Segment.headroom_new_pos hpos (pools.nonempty _ _ _ hpos), fun _ hx => absurd hx List.not_mem_nil, ?_⟩
          · rw [prependSegment, h]
          · rw [Segment.payload_new]
            rfl
        · rw [hs.holds.hasCtrlBlock, hs.holds.bare] at hexp
          have hL : L = [] := List.isEmpty_iff.mp hexp
          subst hL
          obtain ⟨s₁, w, hok, hready⟩ := hs.holds.headReady pools (fun _ hx => absurd hx List.not_mem_nil) hpos
          exact ⟨s₁, _, w, [], hok, hready⟩
      · rw [if_neg hempty] at hexp ⊢
        have hstuck : s.stuck = false := Bool.not_eq_true' _ ▸ hexp
        obtain ⟨x, L, hholds, hpacked, rfl⟩ := hs.cons hempty
        exact (hholds.prependable hpacked hstuck).ensureHeadroom pools hpos
    obtain ⟨view, s', b, w, M, ys, hok', hys, hs'⟩ := reservePrepend_of_ready pools hpos hok hready
    refine ⟨view, s', ys, hok', hys, hs'.built.good ?_⟩
    rw [List.length_append, hys, Nat.add_comm]

theorem Good.trimHead (hle : n ≤ s.length) (hexp : n = 0 ∨ n ≠ s.length) :
    ∃ s', s.trimHead n = .ok s' ∧ Good s' (xs.drop n) := by
  have hlen := hs.length
  by_cases hn : n = 0
  · subst hn
    rw [ByteBuffer.trimHead, if_pos hle, List.drop_zero]
    refine ⟨s, ?_, hs⟩
    cases 0 + s.mem.length with
    | zero => rfl
    | succ fuel => rfl
  · have hlt : n < xs.length := by
      have hne := hexp.resolve_left hn
      omega
    rcases hs with ⟨-, rfl⟩ | ⟨L, hs⟩
    · exact absurd hlt (Nat.not_lt_zero _)
    · obtain ⟨s', L', hok, hs'⟩ := hs.trimHead hlt
      exact ⟨s', hok, hs'.good⟩

theorem Good.trimTail (hle : n ≤ s.length) :
    ∃ s', s.trimTail n = .ok s' ∧ Good s' (xs.take (xs.length - n)) := by
  have hlen := hs.length
  rcases hs with ⟨h, rfl⟩ | ⟨L, hs⟩
  · rw [hlen] at hle
    have hn : n = 0 := Nat.le_zero.mp hle
    subst hn
    rw [ByteBuffer.trimTail, if_neg (Nat.not_lt_zero _), if_pos rfl]
    exact ⟨s, rfl, Good.none h⟩
  · obtain ⟨s', L', hok, hs'⟩ := hs.trimTail (hlen ▸ hle)
    exact ⟨s', hok, hs'.good⟩

theorem Good.resize (hexp : s.expected (.resize n) = true) :
    ∃ s' ys, s.resize pools n = .ok s' ∧ ListStep (.resize n) xs ys ∧ Good s' ys := by
  have hlen := hs.length
  rw [expected] at hexp
  by_cases heq : n = s.length
  · rw [ByteBuffer.resize, if_pos heq]
    refine ⟨s, xs, rfl, ?_, hs⟩
    have hstep : ListStep (.resize n) xs (xs.take n) := .shrink (by omega)
    rwa [List.take_of_length_le (by omega)] at hstep
  · by_cases hle : n ≤ s.length
    · rw [if_pos hle, decide_eq_false heq, Bool.false_or] at hexp
      have hpos : 0 < n := Nat.pos_of_ne_zero (bne_iff_ne.mp hexp)
      rcases hs with ⟨-, rfl⟩ | ⟨L, hs⟩
      · rw [hlen, List.length_nil] at hle
        omega
      · obtain ⟨s', L', hok, hs'⟩ := hs.shrink pools hpos (by omega)
        exact ⟨s', _, hok, .shrink (by omega), hs'.good⟩
    · have hadd : 0 < n - s.length := by omega
      rw [if_neg hle] at hexp
      rw [ByteBuffer.resize, if_neg heq, if_pos (Nat.lt_of_not_le hle)]
      obtain ⟨s₁, L₁, ys, hok, hs₁, hys⟩ : ∃ s₁ L₁ ys, growLoop pools (n - s.length) s (n - s.length) = .ok s₁ ∧
          Built s₁ L₁ xs.length (xs ++ ys) ∧ ys.length = n - s.length := by
        rcases hs with ⟨h, rfl⟩ | ⟨L, hs⟩
        · exact growLoop_none pools h (Nat.le_refl _) hadd
        · have hL : L ≠ [] := by
            rintro rfl
            rw [hs.holds.bare] at hexp
            cases hexp
          exact (hs.built hL).growLoop pools (Nat.le_refl _)
      obtain ⟨⟨cb, hcb, hl, -⟩, -, hpacked, hbytes⟩ := hs₁
      have hsum : n = xs.length + ys.length := by omega
      refine ⟨⟨s₁.mem, some { cb with pktLen := n }⟩, xs ++ ys, ?_, hsum ▸ .grow ys xs, .inr ⟨L₁, ⟨_, rfl, hl, ?_⟩, hpacked,
        hbytes⟩⟩
      · rw [hok, ok_bind, setPktLen, ctrlBlk_eq hcb, ok_bind]
      · rw [List.length_append]
        exact hsum

theorem Good.linearize : ∃ b s', s.linearize = .ok (b, s') ∧ Good s' xs := by
  rcases hs with ⟨h, rfl⟩ | ⟨L, hs⟩
  · refine ⟨true, s, ?_, Good.none h⟩
    rw [ByteBuffer.linearize, isContiguous, ByteBuffer.empty, length_none h]
    rfl
  · obtain ⟨b, s', L', hok, hs'⟩ := hs.linearize
    exact ⟨b, s', hok, hs'.good⟩

theorem Good.clear : ∃ s', s.clear = .ok s' ∧ Good s' [] := by
  rcases hs with ⟨h, -⟩ | ⟨L, hs⟩
  · refine ⟨s, ?_, Good.none h⟩
    rw [ByteBuffer.clear, h]
  · obtain ⟨s', hok, hs'⟩ := hs.clear
    exact ⟨s', hok, Good.none hs'⟩

theorem Good.step {op : Op} (hop : Allowed s op) :
    ∃ s' ys, s.step pools op = .ok s' ∧ ListStep op xs ys ∧ Good s' ys := by
  obtain ⟨hbounds, hexp⟩ := hop
  cases op with
  | append bytes =>
    rw [expected, Bool.or_eq_true, List.isEmpty_iff, Bool.not_eq_true'] at hexp
    obtain ⟨s', hok, hs'⟩ := hs.append pools hexp
    exact ⟨s', _, hok, .append bytes xs, hs'⟩
  | appendByte byte =>
    obtain ⟨s', hok, hs'⟩ := hs.appendByte pools byte
    exact ⟨s', _, hok, .appendByte byte xs, hs'⟩
  | prepend bytes =>
    rw [expected, Bool.or_eq_true, List.isEmpty_iff, Bool.and_eq_true, Bool.or_eq_true, Bool.not_eq_true',
      Bool.not_eq_true'] at hexp
    obtain ⟨s', hok, hs'⟩ := hs.prepend pools hexp
    exact ⟨s', _, hok, .prepend bytes xs, hs'⟩
  | reservePrepend n =>
    obtain ⟨view, s', ys, hok, rfl, hs'⟩ := hs.reservePrepend pools hexp
    refine ⟨s', _, ?_, .reservePrepend ys xs, hs'⟩
    rw [ByteBuffer.step, hok]
    rfl
  | trimHead n =>
    rw [expected, Bool.or_eq_true, decide_eq_true_iff, bne_iff_ne] at hexp
    obtain ⟨s', hok, hs'⟩ := hs.trimHead (of_decide_eq_true hbounds) hexp
    exact ⟨s', _, hok, .trimHead n xs, hs'⟩
  | trimTail n =>
    obtain ⟨s', hok, hs'⟩ := hs.trimTail (of_decide_eq_true hbounds)
    exact ⟨s', _, hok, .trimTail n xs, hs'⟩
  | resize n =>
    obtain ⟨s', ys, hok, hstep, hs'⟩ := hs.resize pools hexp
    exact ⟨s', ys, hok, hstep, hs'⟩
  | linearize =>
    obtain ⟨b, s', hok, hs'⟩ := hs.linearize
    refine ⟨s', xs, ?_, .linearize xs, hs'⟩
    rw [ByteBuffer.step, hok]
    rfl
  | clear =>
    obtain ⟨s', hok, hs'⟩ := hs.clear
    exact ⟨s', [], hok, .clear xs, hs'⟩

end

def createFromBytes (pools : SegmentPools) (mem : Heap Segment) (bytes : List UInt8) (segmentPool : Nat) :
    Except BufferFault ByteBuffer := appendWithPool pools ⟨mem, Option.none⟩ bytes segmentPool

theorem good_createFromBytes (pools : SegmentPools) (mem : Heap Segment) (bytes : List UInt8) (segmentPool : Nat) :
    ∃ s, createFromBytes pools mem bytes segmentPool = .ok s ∧ Good s bytes := by
  by_cases hbytes : bytes = []
  · subst hbytes
    rw [createFromBytes, appendWithPool, if_pos rfl, hasCtrlBlock_none rfl, if_neg Bool.false_ne_true, defaultConstruct]
    by_cases hpool : segmentPool = defaultPool
    · rw [if_pos hpool]
      exact ⟨_, rfl, Good.none rfl⟩
    · rw [if_neg hpool]
      exact ⟨_, rfl, (built_addHeadSegment pools mem _ _ _).good rfl⟩
  · obtain ⟨s, L, hok, hs, -⟩ := appendWithPool_none pools (s := ⟨mem, Option.none⟩) rfl hbytes segmentPool
    exact ⟨s, hok, hs.good rfl⟩

def samplePools : SegmentPools where
  block _ _ _ := List.replicate 1960 0
  nonempty _ _ _ _ := by
    rw [List.length_replicate]
    exact Nat.succ_pos _
  roomy _ _ _ _ := by
    rw [List.length_replicate, defaultFirstSegmentHeadroom]
    exact Nat.lt_of_sub_eq_succ rfl

/-- From every way to create a buffer, with anything else in the memory: the run does not fault, and the buffer it ends
with represents the bytes that the same operations on a list end with. -/
theorem byteBuffer_refines_list {pools : SegmentPools} {mem : Heap Segment} {bytes : List UInt8} {segmentPool : Nat}
    {s : ByteBuffer} {ops : List Op} (hs : createFromBytes pools mem bytes segmentPool = .ok s)
    (hadm : Machine.Admits (step pools) Allowed s ops) : ∃ s' xs,
      Machine.run (step pools) s ops = .ok s' ∧ Machine.RelRun ListStep bytes ops xs ∧
        Represents s' xs := by
  obtain ⟨t, ht, hgood⟩ := good_createFromBytes pools mem bytes segmentPool
  rw [hs] at ht
  cases ht
  have hstep : ∀ s xs op, Good s xs → Allowed s op →
      ∃ s' ys, step pools s op = .ok s' ∧ ListStep op xs ys ∧ Good s' ys := fun _ _ _ hg hop => hg.step pools hop
  obtain ⟨s', xs, hrun, hrel, hgood'⟩ := Machine.run_refines Good hstep hgood hadm
  exact ⟨s', xs, hrun, hrel, hgood'.represents⟩

def sampleOps : List Op :=
  [.append [1, 2, 3], .trimTail 3, .reservePrepend 2, .prepend [4], .resize 5, .trimHead 1, .linearize, .clear, .append [5]]

theorem byteBuffer_refines_list_sample : ∃ s s' xs, createFromBytes samplePools [] [7] defaultPool = .ok s ∧
    Machine.run (step samplePools) s sampleOps = .ok s' ∧
      Machine.RelRun ListStep [7] sampleOps xs ∧ Represents s' xs := by
  obtain ⟨s, hs, -⟩ := good_createFromBytes samplePools [] [7] defaultPool
  have hadm : ∀ t, createFromBytes samplePools [] [7] defaultPool = .ok t →
      Machine.Admits (step samplePools) Allowed t sampleOps := by
    have hok : (createFromBytes samplePools [] [7] defaultPool).map (fun t =>
        decide (Machine.Admits (step samplePools) Allowed t sampleOps)) = .ok true := by
      decide +kernel
    intro t ht
    rw [ht] at hok
    exact of_decide_eq_true (Except.ok.inj hok)
  obtain ⟨s', xs, hrun, hrel, hrep⟩ := byteBuffer_refines_list hs (hadm s hs)
  exact ⟨s, s', xs, hs, hrun, hrel, hrep⟩

/-- After all bytes were trimmed at the head, the next bytes are written to the destroyed segment. After the tail was
trimmed away the null tail pointer is followed, and after `resize(0)` the old bytes are still there. -/
theorem refill_after_trimming :
    Machine.Admits (step samplePools) (fun s op => s.inBounds op = true) ⟨[], Option.none⟩
      [.append [1], .trimHead 1, .append [2]] ∧
    Machine.run (step samplePools) ⟨[], Option.none⟩ [.append [1], .trimHead 1, .append [2]] =
      .error .unlinked ∧
    Machine.run (step samplePools) ⟨[], Option.none⟩ [.append [1], .trimTail 1, .append [2]] =
      .error .null ∧
    (Machine.run (step samplePools) ⟨[], Option.none⟩ [.append [1], .resize 0]).bind iterate = .ok [1] := by
  decide +kernel

end ByteBuffer

end Ocudu.Support
