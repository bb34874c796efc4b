import Ocudu.Support.ByteBuffer

/-! What the operations on the segment list of a byte buffer do to the linked segments. -/

namespace Ocudu.Support

open LinkedHeap

abbrev Segments := List (Nat × Segment)

def bytesOf (L : Segments) : List UInt8 := L.flatMap fun x => x.2.payload

def Full (L : Segments) : Prop := ∀ x ∈ L, 0 < x.2.length

def Packed (L : Segments) : Prop := Full L.tail

namespace ByteBuffer

/-- The buffer has a control block, which links the segments and counts `n` bytes. -/
def Holds (s : ByteBuffer) (L : Segments) (n : Nat) : Prop :=
  ∃ cb, s.ctrlBlkPtr = some cb ∧ Listed s.mem cb.head cb.tail L ∧ cb.pktLen = n

end ByteBuffer

variable (pools : SegmentPools) {mem : Heap Segment} {s : ByteBuffer} {L L₁ L₂ : Segments} {cb : ControlBlock}
  {a n hr sz : Nat} {v : Segment} {q : Option Nat}

@[simp] theorem bytesOf_nil : bytesOf [] = [] := rfl

@[simp] theorem bytesOf_cons (x : Nat × Segment) (L : Segments) : bytesOf (x :: L) = x.2.payload ++ bytesOf L := rfl

@[simp] theorem bytesOf_append (L₁ L₂ : Segments) : bytesOf (L₁ ++ L₂) = bytesOf L₁ ++ bytesOf L₂ := List.flatMap_append

theorem length_bytesOf_cons (x : Nat × Segment) (L : Segments) :
    (bytesOf (x :: L)).length = x.2.length + (bytesOf L).length := by
  rw [bytesOf_cons, List.length_append, Segment.length_payload]

theorem Full.packed (h : Full L) : Packed L := fun x hx => h x (List.mem_of_mem_tail hx)

theorem Full.cons {x : Nat × Segment} (hx : 0 < x.2.length) (h : Full L) : Full (x :: L) :=
  List.forall_mem_cons.mpr ⟨hx, h⟩

theorem Packed.concat {x : Nat × Segment} (h : Packed L) (hx : 0 < x.2.length) : Packed (L ++ [x]) := by
  cases L with
  | nil => exact fun y hy => absurd hy List.not_mem_nil
  | cons z L =>
    intro y hy
    rcases List.mem_append.mp hy with hy | hy
    · exact h y hy
    · rwa [List.mem_singleton.mp hy]

theorem Packed.of_append (h : Packed (L₁ ++ L₂)) : Packed L₁ := by
  cases L₁ with
  | nil => exact fun y hy => absurd hy List.not_mem_nil
  | cons z L₁ => exact fun y hy => h y (List.mem_append_left _ hy)

theorem deref_cell (h : mem[a]? = some ⟨v, q, true⟩) : deref mem (some a) = .ok (a, ⟨v, q, true⟩) := by
  rw [deref, h]
  rfl

theorem ctrlBlk_eq (h : s.ctrlBlkPtr = some cb) : s.ctrlBlk = .ok cb := by
  rw [ByteBuffer.ctrlBlk, h]

namespace ByteBuffer

theorem Holds.length (hs : Holds s L n) : s.length = n := by
  obtain ⟨cb, hcb, -, hn⟩ := hs
  rw [ByteBuffer.length, hcb]
  exact hn

theorem Holds.hasCtrlBlock (hs : Holds s L n) : s.hasCtrlBlock = true := by
  obtain ⟨cb, hcb, -⟩ := hs
  rw [ByteBuffer.hasCtrlBlock, hcb]
  rfl

theorem Holds.last (hs : Holds s (L ++ [(a, v)]) n) : ∃ cb, s.ctrlBlkPtr = some cb ∧
    Listed s.mem cb.head cb.tail (L ++ [(a, v)]) ∧ cb.pktLen = n ∧ deref s.mem cb.tail = .ok (a, ⟨v, none, true⟩) := by
  obtain ⟨cb, hcb, hl, hn⟩ := hs
  refine ⟨cb, hcb, hl, hn, ?_⟩
  rw [hl.tail, addrs_append, List.getLast?_append]
  exact deref_cell hl.chain.last

theorem Holds.first (hs : Holds s ((a, v) :: L) n) : ∃ cb q, s.ctrlBlkPtr = some cb ∧
    Listed s.mem cb.head cb.tail ((a, v) :: L) ∧ cb.pktLen = n ∧ deref s.mem cb.head = .ok (a, ⟨v, q, true⟩) ∧
    Chain s.mem q L := by
  obtain ⟨cb, hcb, hl, hn⟩ := hs
  obtain ⟨hhead, q, hcell, hrest⟩ := hl.chain
  refine ⟨cb, q, hcb, hl, hn, ?_, hrest⟩
  rw [hhead]
  exact deref_cell hcell

theorem Holds.setSegment {w : Segment} (hl : Listed s.mem cb.head cb.tail (L₁ ++ (a, v) :: L₂))
    (hcell : s.mem[a]? = some ⟨v, q, true⟩) (m : Nat) :
    Holds ⟨Support.setSegment s.mem a ⟨v, q, true⟩ w, some { cb with pktLen := m }⟩ (L₁ ++ (a, w) :: L₂) m ∧
      Frame s.mem (L₁ ++ (a, v) :: L₂) (Support.setSegment s.mem a ⟨v, q, true⟩ w) (L₁ ++ (a, w) :: L₂) := by
  obtain ⟨r, hcell', hset⟩ := hl.setVal w
  have hq : q = r := by
    rw [hcell] at hcell'
    exact congrArg Cell.next (Option.some.inj hcell')
  subst hq
  refine ⟨⟨_, rfl, hset, rfl⟩, Frame.set (by simp) ?_ _⟩
  rw [addrs_append, addrs_append, addrs_cons, addrs_cons]

theorem holds_addHeadSegment (mem : Heap Segment) (hr pool sz : Nat) :
    Holds (addHeadSegment pools mem hr pool sz) [(mem.length, Segment.new (pools.block pool sz mem.length) hr)] 0 :=
  ⟨_, rfl, Listed.single mem _, rfl⟩

theorem Holds.appendSegment (hs : Holds s L n) (hr sz : Nat) : ∃ s' pool, s.appendSegment pools hr sz = .ok s' ∧
    Holds s' (L ++ [(s.mem.length, Segment.new (pools.block pool sz s.mem.length) hr)]) n ∧
    Frame s.mem L s'.mem (L ++ [(s.mem.length, Segment.new (pools.block pool sz s.mem.length) hr)]) := by
  obtain ⟨cb, hcb, hl, hn⟩ := hs
  rw [ByteBuffer.appendSegment, hcb]
  simp only [createSegment]
  rcases List.eq_nil_or_concat L with rfl | ⟨L, ⟨a, v⟩, rfl⟩
  · have hhead : cb.head = none := hl.head_eq
    rw [pushBack, hhead]
    exact ⟨_, cb.segmentPool, rfl, ⟨_, rfl, Listed.single s.mem _, hn⟩, Frame.alloc s.mem [] _ _⟩
  · rw [List.concat_eq_append] at hl ⊢
    have hhead : cb.head ≠ none := by
      rw [hl.head_eq, addrs_append]
      simp
    obtain ⟨b, hb⟩ := Option.ne_none_iff_exists'.mp hhead
    have htail : cb.tail = some a := by
      rw [hl.tail, addrs_append, List.getLast?_append]
      rfl
    have hderef := deref_cell (hl.chain.alloc ⟨Segment.new (pools.block cb.segmentPool sz s.mem.length) hr, none, true⟩).last
    have hback := hl.pushBack (Segment.new (pools.block cb.segmentPool sz s.mem.length) hr)
    rw [hb] at hback
    rw [pushBack, hb, htail]
    dsimp only
    rw [hderef]
    refine ⟨_, cb.segmentPool, rfl, ⟨_, rfl, ?_, hn⟩, ?_⟩
    · rw [List.append_assoc]
      exact hback
    · refine (Frame.alloc s.mem _ _ _).trans (Frame.set ?_ rfl _)
      simp

theorem Holds.prependSegment (hs : Holds s L n) (hr sz : Nat) : ∃ s' pool, s.prependSegment pools hr sz = .ok s' ∧
    Holds s' ((s.mem.length, Segment.new (pools.block pool sz s.mem.length) hr) :: L) n := by
  obtain ⟨cb, hcb, hl, hn⟩ := hs
  rw [ByteBuffer.prependSegment, hcb]
  simp only [createSegment, pushFront]
  rw [deref_cell List.getElem?_concat_length]
  refine ⟨_, cb.segmentPool, rfl, ⟨_, rfl, ?_, hn⟩⟩
  have hset := hl.pushFront (Segment.new (pools.block cb.segmentPool sz s.mem.length) hr)
  dsimp only
  rwa [List.set_append_right _ _ (Nat.le_refl _), Nat.sub_self]

end ByteBuffer

end Ocudu.Support
