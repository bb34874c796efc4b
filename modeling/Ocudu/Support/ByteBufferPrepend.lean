import Ocudu.Support.ByteBufferAppend
import Ocudu.Support.ByteBufferIterator

/-! Adding bytes at the beginning of a byte buffer. -/

namespace Ocudu.Support

open LinkedHeap

namespace ByteBuffer

variable (pools : SegmentPools) {s : ByteBuffer} {L : Segments} {a n sz fuel : Nat} {v : Segment} {xs bytes : List UInt8}

structure Prependable (s : ByteBuffer) (a : Nat) (v : Segment) (L : Segments) (n : Nat) (xs : List UInt8) : Prop where
  holds : Holds s ((a, v) :: L) n
  first : 0 < v.length ∨ 0 < v.headroom
  full : Full L
  bytes : v.payload ++ bytesOf L = xs

structure HeadReady (s : ByteBuffer) (a : Nat) (v : Segment) (L : Segments) (n : Nat) (xs : List UInt8) : Prop where
  holds : Holds s ((a, v) :: L) n
  room : 0 < v.headroom
  full : Full L
  bytes : v.payload ++ bytesOf L = xs

theorem Prependable.built (hs : Prependable s a v L n xs) : Built s ((a, v) :: L) n xs :=
  ⟨hs.holds, List.cons_ne_nil _ _, hs.full, hs.bytes⟩

theorem Holds.headReady (hs : Holds s L n) (hfull : Full L) (hsz : 0 < sz) : ∃ s' w,
    s.prependSegment pools sz sz = .ok s' ∧ HeadReady s' s.mem.length w L n (bytesOf L) := by
  obtain ⟨s', pool, hok, hs'⟩ := hs.prependSegment pools sz sz
  refine ⟨s', _, hok, hs', Segment.headroom_new_pos hsz (pools.nonempty pool sz _ hsz), hfull, ?_⟩
  rw [Segment.payload_new, List.nil_append]

theorem Prependable.ensureHeadroom (hs : Prependable s a v L n xs) (hsz : 0 < sz) : ∃ s' b w M,
    s.ensureHeadroom pools sz = .ok s' ∧ HeadReady s' b w M n xs := by
  obtain ⟨hholds, hfirst, hfull, rfl⟩ := hs
  obtain ⟨cb, q, hcb, -, -, hderef, -⟩ := hholds.first
  rw [ByteBuffer.ensureHeadroom, ctrlBlk_eq hcb, ok_bind, hderef, ok_bind]
  by_cases hroom : v.headroom = 0
  · have hv : 0 < v.length := hfirst.resolve_right (Nat.not_lt.mpr (Nat.le_of_eq hroom))
    obtain ⟨s', w, hok, hready⟩ := hholds.headReady pools (Full.cons hv hfull) hsz
    exact ⟨s', _, w, _, (if_pos hroom).trans hok, hready⟩
  · exact ⟨s, a, v, L, if_neg hroom, hholds, Nat.pos_of_ne_zero hroom, hfull, rfl⟩

theorem HeadReady.replace (hs : HeadReady s a v L n xs) {w : Segment} (hw : 0 < w.length) {ys : List UInt8}
    (hpay : w.payload = ys ++ v.payload) (m : Nat) : ∃ cb q, s.ctrlBlk = .ok cb ∧ cb.pktLen = n ∧
      deref s.mem cb.head = .ok (a, ⟨v, q, true⟩) ∧
      Prependable ⟨setSegment s.mem a ⟨v, q, true⟩ w, some { cb with pktLen := m }⟩ a w L m (ys ++ xs) := by
  obtain ⟨hholds, -, hfull, rfl⟩ := hs
  obtain ⟨cb, q, hcb, hl, hn, hderef, -⟩ := hholds.first
  obtain ⟨hhead, r, hcell, -⟩ := hl.chain
  have hq : q = r := by
    rw [hhead, deref_cell hcell] at hderef
    cases hderef
    rfl
  subst hq
  have hl' : Listed s.mem cb.head cb.tail ([] ++ (a, v) :: L) := hl
  obtain ⟨hset, -⟩ := Holds.setSegment (w := w) hl' hcell m
  refine ⟨cb, q, ctrlBlk_eq hcb, hn, hderef, hset, .inl hw, hfull, ?_⟩
  rw [hpay, List.append_assoc]

theorem HeadReady.prependToHead (hs : HeadReady s a v L n xs) (hbytes : bytes ≠ []) : ∃ s' w k,
    s.prependToHead bytes = .ok (s', bytes.take (bytes.length - k)) ∧ 0 < k ∧ k ≤ bytes.length ∧
      Prependable s' a w L (n + k) (bytes.drop (bytes.length - k) ++ xs) := by
  have hle := Nat.min_le_right v.headroom bytes.length
  have hlen : (bytes.drop (bytes.length - min v.headroom bytes.length)).length = min v.headroom bytes.length := by
    rw [List.length_drop]
    omega
  have hpos : 0 < min v.headroom bytes.length := Nat.lt_min.mpr ⟨hs.room, List.length_pos_of_ne_nil hbytes⟩
  have hroom : (bytes.drop (bytes.length - min v.headroom bytes.length)).length ≤ v.headroom := by
    rw [hlen]
    exact Nat.min_le_left _ _
  obtain ⟨w, hw, hpay, hwlen⟩ := Segment.prepend_ok hroom
  obtain ⟨cb, q, hcb, hn, hderef, hprep⟩ := hs.replace (by omega) hpay (n + min v.headroom bytes.length)
  refine ⟨_, w, min v.headroom bytes.length, ?_, hpos, hle, hprep⟩
  rw [ByteBuffer.prependToHead, hcb, ok_bind, hderef, ok_bind]
  dsimp only
  rw [hw, ok_bind, hn]

theorem Prependable.prependLoop (hs : Prependable s a v L n xs) (hfuel : bytes.length ≤ fuel) : ∃ s' b w M,
    prependLoop pools fuel s bytes = .ok s' ∧ Prependable s' b w M (n + bytes.length) (bytes ++ xs) := by
  induction fuel generalizing s a v L n xs bytes with
  | zero =>
    rw [List.eq_nil_of_length_eq_zero (Nat.le_zero.mp hfuel)]
    exact ⟨s, a, v, L, rfl, hs⟩
  | succ fuel ih =>
    cases bytes with
    | nil => exact ⟨s, a, v, L, rfl, hs⟩
    | cons b bytes =>
      obtain ⟨s₁, a₁, v₁, L₁, hok₁, hready⟩ := hs.ensureHeadroom pools
        (List.length_pos_of_ne_nil (List.cons_ne_nil b bytes))
      obtain ⟨s₂, w, k, hok₂, hpos, hle, hs₂⟩ := hready.prependToHead (List.cons_ne_nil b bytes)
      have htake : ((b :: bytes).take ((b :: bytes).length - k)).length = (b :: bytes).length - k := by
        rw [List.length_take]
        omega
      have hle' : ((b :: bytes).take ((b :: bytes).length - k)).length ≤ fuel := by omega
      obtain ⟨s₃, a₃, v₃, L₃, hok₃, hs₃⟩ := ih hs₂ hle'
      refine ⟨s₃, a₃, v₃, L₃, ?_, ?_⟩
      · rw [ByteBuffer.prependLoop, hok₁, ok_bind, hok₂, ok_bind]
        exact hok₃
      · rwa [← List.append_assoc, List.take_append_drop, htake, Nat.add_assoc, Nat.add_sub_cancel' hle] at hs₃

/-! `reserve_prepend` -/

theorem HeadReady.reserveInHead (hs : HeadReady s a v L n xs) {rem : Nat} (hrem : 0 < rem) : ∃ s' w k ys,
    s.reserveInHead rem = .ok (s', rem - k) ∧ 0 < k ∧ k ≤ rem ∧ ys.length = k ∧ 0 < w.length ∧
      Prependable s' a w L n (ys ++ xs) := by
  have hpos : 0 < min v.headroom rem := Nat.lt_min.mpr ⟨hs.room, hrem⟩
  obtain ⟨w, ys, hw, hpay, hys, hwlen⟩ := Segment.reservePrepend_ok (s := v) (Nat.min_le_left v.headroom rem)
  have hwpos : 0 < w.length := by omega
  obtain ⟨cb, q, hcb, hn, hderef, hprep⟩ := hs.replace hwpos hpay n
  refine ⟨_, w, min v.headroom rem, ys, ?_, hpos, Nat.min_le_right _ _, hys, hwpos, hprep⟩
  rw [ByteBuffer.reserveInHead, hcb, ok_bind, hderef, ok_bind]
  dsimp only
  rw [hw, ok_bind, ← hn]

theorem Prependable.ensureReservable (hs : Prependable s a v L n xs) (hv : 0 < v.length) (hsz : 0 < sz) : ∃ s' b w M,
    s.ensureReservable pools sz = .ok s' ∧ HeadReady s' b w M n xs := by
  rw [ByteBuffer.ensureReservable]
  by_cases hempty : s.empty = true
  · obtain ⟨s', w, hok, hready⟩ := hs.holds.headReady pools (Full.cons hv hs.full) hsz
    rw [if_pos hempty]
    have hbytes : bytesOf ((a, v) :: L) = xs := hs.bytes
    exact ⟨s', _, w, _, hok, hbytes ▸ hready⟩
  · rw [if_neg hempty]
    exact hs.ensureHeadroom pools hsz

theorem Prependable.reserveLoop (hs : Prependable s a v L n xs) (hv : 0 < v.length) {rem : Nat} (hfuel : rem ≤ fuel) :
    ∃ s' b w M ys, reserveLoop pools fuel s rem = .ok s' ∧ ys.length = rem ∧ Prependable s' b w M n (ys ++ xs) := by
  induction fuel generalizing s a v L xs rem with
  | zero =>
    rw [Nat.le_zero.mp hfuel]
    exact ⟨s, a, v, L, [], rfl, rfl, hs⟩
  | succ fuel ih =>
    cases rem with
    | zero => exact ⟨s, a, v, L, [], rfl, rfl, hs⟩
    | succ rem =>
      obtain ⟨s₁, a₁, v₁, L₁, hok₁, hready⟩ := hs.ensureReservable pools hv (Nat.succ_pos rem)
      obtain ⟨s₂, w, k, ys, hok₂, hpos, hle, hys, hw, hs₂⟩ := hready.reserveInHead (Nat.succ_pos rem)
      obtain ⟨s₃, a₃, v₃, L₃, zs, hok₃, hzs, hs₃⟩ := ih hs₂ hw (show rem + 1 - k ≤ fuel by omega)
      refine ⟨s₃, a₃, v₃, L₃, zs ++ ys, ?_, ?_, by rwa [List.append_assoc]⟩
      · rw [ByteBuffer.reserveLoop, hok₁, ok_bind, hok₂, ok_bind]
        exact hok₃
      · rw [List.length_append, hys, hzs]
        omega

theorem reservePrepend_of_ready {s₁ : ByteBuffer} {rem : Nat} (hrem : 0 < rem)
    (hok : s.ensureReservable pools rem = .ok s₁) (hready : HeadReady s₁ a v L n xs) :
    ∃ view s' b w M ys, s.reservePrepend pools rem = .ok (view, s') ∧ ys.length = rem ∧
      Prependable s' b w M (n + rem) (ys ++ xs) := by
  obtain ⟨rem, rfl⟩ := Nat.exists_eq_add_one_of_ne_zero (Nat.ne_of_gt hrem)
  obtain ⟨s₂, w, k, ys, hok₂, hpos, hle, hys, hw, hs₂⟩ := hready.reserveInHead hrem
  obtain ⟨s₃, a₃, v₃, L₃, zs, hok₃, hzs, hs₃⟩ := hs₂.reserveLoop pools hw (show rem + 1 - k ≤ rem by omega)
  obtain ⟨⟨cb, hcb, hl, hn⟩, hfirst, hfull, hbytes⟩ := hs₃
  rw [← List.append_assoc] at hbytes
  have hlen : (zs ++ ys).length = rem + 1 := by
    rw [List.length_append, hys, hzs]
    omega
  have hloop : ByteBuffer.reserveLoop pools (rem + 1) s (rem + 1) = .ok s₃ := by
    rw [ByteBuffer.reserveLoop, hok, ok_bind, hok₂, ok_bind]
    exact hok₃
  have hs' : Holds ⟨s₃.mem, some { cb with pktLen := cb.pktLen + (rem + 1) }⟩ ((a₃, v₃) :: L₃) (n + (rem + 1)) :=
    ⟨_, rfl, hl, by rw [← hn]⟩
  obtain ⟨it, itEnd, hbegin, hadvance⟩ := hs'.advance (k := rem + 1) (by
    rw [bytesOf_cons, hbytes, List.length_append, hlen]
    exact Nat.le_add_right _ _)
  refine ⟨(it, itEnd), _, a₃, v₃, L₃, zs ++ ys, ?_, hlen, hs', hfirst, hfull, hbytes⟩
  rw [reservePrepend, hloop, ok_bind, ctrlBlk_eq hcb, ok_bind]
  dsimp only
  rw [hbegin, ok_bind, hadvance, ok_bind]

end ByteBuffer

end Ocudu.Support
