import Ocudu.Basic.LinkedHeap
import Ocudu.Basic.Machine

/-! `byte_buffer_segment.h`: a block of memory whose middle part is the payload. -/

namespace Ocudu.Support

/-- What a run must never do. -/
inductive BufferFault
  /-- A null pointer to a segment or to the control block is dereferenced. -/
  | null
  | unlinked
  /-- A byte outside of the memory of a segment is read. -/
  | outOfBounds
  /-- A segment or the buffer has not the room that an assertion asks for. -/
  | room
  | loopBound
  deriving DecidableEq

structure Segment where
  buffer : List UInt8
  start : Nat
  length : Nat
  fits : start + length ≤ buffer.length
  deriving DecidableEq

namespace Segment

variable (s : Segment) {t : Segment} {bytes : List UInt8} {n : Nat}

def new (buffer : List UInt8) (headroom : Nat) : Segment := ⟨buffer, min headroom buffer.length, 0, Nat.min_le_right _ _⟩

def payload : List UInt8 := (s.buffer.drop s.start).take s.length

def capacity : Nat := s.buffer.length

def headroom : Nat := s.start

def tailroom : Nat := s.buffer.length - (s.start + s.length)

def empty : Bool := s.length == 0

def resize (nofBytes : Nat) : Except BufferFault Segment :=
  if h : nofBytes ≤ s.capacity - s.headroom then
    .ok ⟨s.buffer, s.start, nofBytes, by
      have := s.fits
      rw [capacity, headroom] at h
      omega⟩
  else .error .room

def write (buffer : List UInt8) (pos : Nat) (bytes : List UInt8) : List UInt8 :=
  buffer.take pos ++ (bytes ++ buffer.drop (pos + bytes.length))

theorem length_write {buffer : List UInt8} {pos : Nat} (h : pos + bytes.length ≤ buffer.length) :
    (write buffer pos bytes).length = buffer.length := by
  rw [write, List.length_append, List.length_append, List.length_take, List.length_drop]
  omega

def append (bytes : List UInt8) : Except BufferFault Segment :=
  if h : bytes.length ≤ s.tailroom then
    .ok ⟨write s.buffer (s.start + s.length) bytes, s.start, s.length + bytes.length, by
      have := s.fits
      rw [tailroom] at h
      rw [length_write (by omega)]
      omega⟩
  else .error .room

def prepend (bytes : List UInt8) : Except BufferFault Segment :=
  if h : bytes.length ≤ s.headroom then
    .ok ⟨write s.buffer (s.start - bytes.length) bytes, s.start - bytes.length, s.length + bytes.length, by
      have := s.fits
      rw [headroom] at h
      rw [length_write (by omega)]
      omega⟩
  else .error .room

def reservePrepend (nofBytes : Nat) : Except BufferFault Segment :=
  if h : nofBytes ≤ s.headroom then
    .ok ⟨s.buffer, s.start - nofBytes, s.length + nofBytes, by
      have := s.fits
      rw [headroom] at h
      omega⟩
  else .error .room

def trimHead (nofBytes : Nat) : Except BufferFault Segment :=
  if h : nofBytes ≤ s.length then
    .ok ⟨s.buffer, s.start + nofBytes, s.length - nofBytes, by
      have := s.fits
      omega⟩
  else .error .room

def trimTail (nofBytes : Nat) : Except BufferFault Segment :=
  if nofBytes ≤ s.length then
    .ok ⟨s.buffer, s.start, s.length - nofBytes, by
      have := s.fits
      omega⟩
  else .error .room

variable {s}

@[simp] theorem length_payload (s : Segment) : s.payload.length = s.length := by
  have := s.fits
  rw [payload, List.length_take, List.length_drop]
  omega

@[simp] theorem payload_new (buffer : List UInt8) (headroom : Nat) : (new buffer headroom).payload = [] := List.take_zero

theorem payload_eq_nil (h : s.length = 0) : s.payload = [] := by
  rw [payload, h, List.take_zero]

theorem append_ok (h : bytes.length ≤ s.tailroom) : ∃ t, s.append bytes = .ok t ∧ t.payload = s.payload ++ bytes ∧
    t.length = s.length + bytes.length ∧ t.start = s.start ∧ t.capacity = s.capacity := by
  have hfits := s.fits
  have hroom := h
  rw [tailroom] at hroom
  refine ⟨_, dif_pos h, ?_, rfl, rfl, length_write (by omega)⟩
  show ((write s.buffer (s.start + s.length) bytes).drop s.start).take (s.length + bytes.length) = _
  have hlen : ((s.buffer.take (s.start + s.length)).drop s.start).length = s.length := by
    rw [List.length_drop, List.length_take]
    omega
  have hpay : (s.buffer.take (s.start + s.length)).drop s.start = s.payload := by
    rw [List.drop_take, Nat.add_sub_cancel_left]
    rfl
  rw [write, List.drop_append_of_le_length (by rw [List.length_take]; omega), hpay, ← List.append_assoc,
    List.take_append_of_le_length (by rw [List.length_append, length_payload]),
    List.take_of_length_le (by rw [List.length_append, length_payload])]

theorem prepend_ok (h : bytes.length ≤ s.headroom) : ∃ t, s.prepend bytes = .ok t ∧ t.payload = bytes ++ s.payload ∧
    t.length = s.length + bytes.length := by
  have hfits := s.fits
  have hroom := h
  rw [headroom] at hroom
  refine ⟨_, dif_pos h, ?_, rfl⟩
  show ((write s.buffer (s.start - bytes.length) bytes).drop (s.start - bytes.length)).take (s.length + bytes.length) = _
  have hpos : s.start - bytes.length + bytes.length = s.start := by omega
  rw [write, List.drop_left' (by rw [List.length_take]; omega), hpos, Nat.add_comm, List.take_length_add_append]
  rfl

theorem reservePrepend_ok (h : n ≤ s.headroom) : ∃ t xs, s.reservePrepend n = .ok t ∧ t.payload = xs ++ s.payload ∧
    xs.length = n ∧ t.length = s.length + n := by
  have hfits := s.fits
  have hroom := h
  rw [headroom] at hroom
  refine ⟨_, (s.buffer.drop (s.start - n)).take n, dif_pos h, ?_, ?_, rfl⟩
  · show (s.buffer.drop (s.start - n)).take (s.length + n) = _
    have hpos : s.start - n + n = s.start := by omega
    rw [Nat.add_comm, List.take_add, List.drop_drop, hpos]
    rfl
  · rw [List.length_take, List.length_drop]
    omega

theorem trimHead_ok (h : n ≤ s.length) : ∃ t, s.trimHead n = .ok t ∧ t.payload = s.payload.drop n ∧
    t.length = s.length - n := by
  refine ⟨_, dif_pos h, ?_, rfl⟩
  show (s.buffer.drop (s.start + n)).take (s.length - n) = _
  rw [payload, List.drop_take, List.drop_drop]

theorem trimTail_ok (h : n ≤ s.length) : ∃ t, s.trimTail n = .ok t ∧ t.payload = s.payload.take (s.length - n) ∧
    t.length = s.length - n := by
  refine ⟨_, if_pos h, ?_, rfl⟩
  show (s.buffer.drop s.start).take (s.length - n) = _
  rw [payload, List.take_take, Nat.min_eq_left (Nat.sub_le _ _)]

theorem resize_shrink (h : n ≤ s.length) : ∃ t, s.resize n = .ok t ∧ t.payload = s.payload.take n ∧ t.length = n := by
  have hfits := s.fits
  have hroom : n ≤ s.capacity - s.headroom := by
    rw [capacity, headroom]
    omega
  refine ⟨_, dif_pos hroom, ?_, rfl⟩
  show (s.buffer.drop s.start).take n = _
  rw [payload, List.take_take, Nat.min_eq_left h]

theorem resize_grow (h : n ≤ s.tailroom) : ∃ t xs, s.resize (s.length + n) = .ok t ∧ t.payload = s.payload ++ xs ∧
    xs.length = n ∧ t.length = s.length + n := by
  have hfits := s.fits
  have hroom : s.length + n ≤ s.capacity - s.headroom := by
    rw [tailroom] at h
    rw [capacity, headroom]
    omega
  refine ⟨_, (s.buffer.drop (s.start + s.length)).take n, dif_pos hroom, ?_, ?_, rfl⟩
  · show (s.buffer.drop s.start).take (s.length + n) = _
    rw [List.take_add, List.drop_drop]
    rfl
  · rw [tailroom] at h
    rw [List.length_take, List.length_drop]
    omega

end Segment

end Ocudu.Support
