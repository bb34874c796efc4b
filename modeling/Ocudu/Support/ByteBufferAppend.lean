import Ocudu.Support.ByteBufferSegments

/-! Adding bytes at the end of a byte buffer. -/

namespace Ocudu.Support

open LinkedHeap

namespace Segment

theorem tailroom_new_pos {buffer : List UInt8} {headroom : Nat} (h : headroom < buffer.length) :
    0 < (new buffer headroom).tailroom := by
  show 0 < buffer.length - (min headroom buffer.length + 0)
  rw [Nat.min_eq_left (Nat.le_of_lt h)]
  omega

theorem headroom_new_pos {buffer : List UInt8} {headroom : Nat} (h : 0 < headroom) (hbuf : 0 < buffer.length) :
    0 < (new buffer headroom).headroom := Nat.lt_min.mpr ⟨h, hbuf⟩

end Segment

namespace ByteBuffer

variable (pools : SegmentPools) {s : ByteBuffer} {L : Segments} {a n sz : Nat} {v : Segment} {xs bytes : List UInt8}

structure Built (s : ByteBuffer) (L : Segments) (n : Nat) (xs : List UInt8) : Prop where
  holds : Holds s L n
  nonempty : L ≠ []
  packed : Packed L
  bytes : bytesOf L = xs

structure TailReady (s : ByteBuffer) (L : Segments) (a : Nat) (v : Segment) (n : Nat) (xs : List UInt8) : Prop where
  holds : Holds s (L ++ [(a, v)]) n
  room : 0 < v.tailroom
  packed : Packed L
  bytes : bytesOf L ++ v.payload = xs

theorem built_addHeadSegment (mem : Heap Segment) (hr pool sz : Nat) : Built (addHeadSegment pools mem hr pool sz)
    [(mem.length, Segment.new (pools.block pool sz mem.length) hr)] 0 [] where
  holds := holds_addHeadSegment pools mem hr pool sz
  nonempty := List.cons_ne_nil _ _
  packed := fun _ hx => absurd hx List.not_mem_nil
  bytes := by rw [bytesOf_cons, Segment.payload_new]; rfl

theorem tailReady_addHeadSegment (mem : Heap Segment) {hr pool sz : Nat}
    (hroom : hr < (pools.block pool sz mem.length).length) : TailReady (addHeadSegment pools mem hr pool sz) [] mem.length
      (Segment.new (pools.block pool sz mem.length) hr) 0 [] where
  holds := holds_addHeadSegment pools mem hr pool sz
  room := Segment.tailroom_new_pos hroom
  packed := fun _ hx => absurd hx List.not_mem_nil
  bytes := (List.nil_append _).trans (Segment.payload_new (pools.block pool sz mem.length) hr)

theorem Holds.tailReady (hs : Holds s L n) (hpacked : Packed L) (hr : Nat)
    (hroom : ∀ pool k, hr < (pools.block pool sz k).length) : ∃ s' w, s.appendSegment pools hr sz = .ok s' ∧
      TailReady s' L s.mem.length w n (bytesOf L) ∧ Frame s.mem L s'.mem (L ++ [(s.mem.length, w)]) := by
  obtain ⟨s', pool, hok, hs', hframe⟩ := hs.appendSegment pools hr sz
  exact ⟨s', _, hok, ⟨hs', Segment.tailroom_new_pos (hroom pool _), hpacked, by
    rw [Segment.payload_new, List.append_nil]⟩, hframe⟩

theorem Built.ensureTailroom (hs : Built s L n xs) (hsz : 0 < sz) : ∃ s' L' a v,
    s.ensureTailroom pools sz = .ok s' ∧ TailReady s' L' a v n xs ∧ Frame s.mem L s'.mem (L' ++ [(a, v)]) := by
  obtain ⟨hholds, hne, hpacked, rfl⟩ := hs
  obtain ⟨L, ⟨a, v⟩, rfl⟩ := (List.eq_nil_or_concat L).resolve_left hne
  rw [List.concat_eq_append] at hholds hpacked ⊢
  obtain ⟨cb, hcb, -, -, hderef⟩ := hholds.last
  rw [ByteBuffer.ensureTailroom, ctrlBlk_eq hcb, ok_bind, hderef, ok_bind]
  by_cases hroom : v.tailroom = 0
  · obtain ⟨s', w, hok, hready, hframe⟩ := hholds.tailReady pools hpacked 0 fun pool k => pools.nonempty pool sz k hsz
    exact ⟨s', _, _, w, (if_pos hroom).trans hok, hready, hframe⟩
  · refine ⟨s, L, a, v, if_neg hroom, ⟨hholds, Nat.pos_of_ne_zero hroom, hpacked.of_append, ?_⟩, Frame.refl _ _⟩
    rw [bytesOf_append, bytesOf_cons, bytesOf_nil, List.append_nil]

theorem TailReady.replace (hs : TailReady s L a v n xs) {w : Segment} (hw : 0 < w.length) {ys : List UInt8}
    (hpay : w.payload = v.payload ++ ys) (m : Nat) : ∃ cb, s.ctrlBlk = .ok cb ∧ cb.pktLen = n ∧
      deref s.mem cb.tail = .ok (a, ⟨v, none, true⟩) ∧
      Built ⟨setSegment s.mem a ⟨v, none, true⟩ w, some { cb with pktLen := m }⟩ (L ++ [(a, w)]) m (xs ++ ys) ∧
      Frame s.mem (L ++ [(a, v)]) (setSegment s.mem a ⟨v, none, true⟩ w) (L ++ [(a, w)]) := by
  obtain ⟨hholds, -, hpacked, rfl⟩ := hs
  obtain ⟨cb, hcb, hl, hn, hderef⟩ := hholds.last
  obtain ⟨hset, hframe⟩ := Holds.setSegment (w := w) hl hl.chain.last m
  refine ⟨cb, ctrlBlk_eq hcb, hn, hderef, ⟨hset, List.concat_ne_nil _ _, hpacked.concat hw, ?_⟩, hframe⟩
  rw [bytesOf_append, bytesOf_cons, bytesOf_nil, List.append_nil, hpay, List.append_assoc]

theorem TailReady.appendToTail (hs : TailReady s L a v n xs) (hbytes : bytes ≠ []) : ∃ s' w k,
    s.appendToTail bytes = .ok (s', bytes.drop k) ∧ 0 < k ∧ k ≤ bytes.length ∧
      Built s' (L ++ [(a, w)]) (n + k) (xs ++ bytes.take k) ∧
      Frame s.mem (L ++ [(a, v)]) s'.mem (L ++ [(a, w)]) := by
  have hlen : (bytes.take (min v.tailroom bytes.length)).length = min v.tailroom bytes.length := by
    rw [List.length_take, Nat.min_eq_left (Nat.min_le_right _ _)]
  have hpos : 0 < min v.tailroom bytes.length := Nat.lt_min.mpr ⟨hs.room, List.length_pos_of_ne_nil hbytes⟩
  have hroom : (bytes.take (min v.tailroom bytes.length)).length ≤ v.tailroom := by
    rw [hlen]
    exact Nat.min_le_left _ _
  obtain ⟨w, hw, hpay, hwlen, -, -⟩ := Segment.append_ok hroom
  obtain ⟨cb, hcb, hn, hderef, hbuilt, hframe⟩ := hs.replace (by omega) hpay (n + min v.tailroom bytes.length)
  refine ⟨_, w, min v.tailroom bytes.length, ?_, hpos, Nat.min_le_right _ _, hbuilt, hframe⟩
  rw [ByteBuffer.appendToTail, hcb, ok_bind, hderef, ok_bind]
  dsimp only
  rw [hw, ok_bind, hn]

theorem Built.appendLoop (hs : Built s L n xs) {fuel : Nat} (hfuel : bytes.length ≤ fuel) : ∃ s' L',
    appendLoop pools fuel s bytes = .ok s' ∧ Built s' L' (n + bytes.length) (xs ++ bytes) ∧
      Frame s.mem L s'.mem L' := by
  induction fuel generalizing s L n xs bytes with
  | zero =>
    rw [List.eq_nil_of_length_eq_zero (Nat.le_zero.mp hfuel), List.append_nil]
    exact ⟨s, L, rfl, hs, Frame.refl _ _⟩
  | succ fuel ih =>
    cases bytes with
    | nil =>
      rw [List.append_nil]
      exact ⟨s, L, rfl, hs, Frame.refl _ _⟩
    | cons b bytes =>
      obtain ⟨s₁, L₁, a, v, hok₁, hready, hframe₁⟩ := hs.ensureTailroom pools
        (List.length_pos_of_ne_nil (List.cons_ne_nil b bytes))
      obtain ⟨s₂, w, k, hok₂, hpos, hle, hs₂, hframe₂⟩ := hready.appendToTail (List.cons_ne_nil b bytes)
      have hdrop : ((b :: bytes).drop k).length ≤ fuel := by
        rw [List.length_drop]
        omega
      obtain ⟨s₃, L₃, hok₃, hs₃, hframe₃⟩ := ih hs₂ hdrop
      refine ⟨s₃, L₃, ?_, ?_, (hframe₁.trans hframe₂).trans hframe₃⟩
      · rw [ByteBuffer.appendLoop, hok₁, ok_bind, hok₂, ok_bind]
        exact hok₃
      · rwa [List.append_assoc, List.take_append_drop, List.length_drop, Nat.add_assoc, Nat.add_sub_cancel' hle] at hs₃

theorem appendWithPool_none (h : s.ctrlBlkPtr = none) (hbytes : bytes ≠ []) (pool : Nat) : ∃ s' L',
    s.appendWithPool pools bytes pool = .ok s' ∧ Built s' L' bytes.length bytes ∧ Frame s.mem [] s'.mem L' := by
  obtain ⟨s', L', hok, hs', hframe⟩ := (built_addHeadSegment pools s.mem defaultFirstSegmentHeadroom pool
    (bytes.length + defaultFirstSegmentHeadroom)).appendLoop pools (Nat.le_refl bytes.length)
  have hno : s.hasCtrlBlock = false := by
    rw [hasCtrlBlock, h]
    rfl
  rw [Nat.zero_add, List.nil_append] at hs'
  refine ⟨s', L', ?_, hs', (Frame.alloc s.mem [] _ _).trans hframe⟩
  rw [appendWithPool, if_neg hbytes, ensureCtrlBlock, hno]
  exact hok

theorem Built.appendWithPool (hs : Built s L n xs) (bytes : List UInt8) (pool : Nat) : ∃ s' L',
    s.appendWithPool pools bytes pool = .ok s' ∧ Built s' L' (n + bytes.length) (xs ++ bytes) ∧
      Frame s.mem L s'.mem L' := by
  by_cases hbytes : bytes = []
  · rw [ByteBuffer.appendWithPool, if_pos hbytes, if_pos hs.holds.hasCtrlBlock, hbytes, List.append_nil]
    exact ⟨s, L, rfl, hs, Frame.refl _ _⟩
  · rw [ByteBuffer.appendWithPool, if_neg hbytes, ensureCtrlBlock, if_pos hs.holds.hasCtrlBlock]
    exact hs.appendLoop pools (Nat.le_refl _)

theorem TailReady.appendByte (hs : TailReady s L a v n xs) (byte : UInt8) : ∃ cb seg, s.ctrlBlk = .ok cb ∧
    deref s.mem cb.tail = .ok (a, ⟨v, none, true⟩) ∧ v.append [byte] = .ok seg ∧
      Built ⟨setSegment s.mem a ⟨v, none, true⟩ seg, some { cb with pktLen := cb.pktLen + 1 }⟩ (L ++ [(a, seg)]) (n + 1)
        (xs ++ [byte]) := by
  obtain ⟨w, hw, hpay, hwlen, -, -⟩ := Segment.append_ok (show [byte].length ≤ v.tailroom from hs.room)
  obtain ⟨cb, hcb, hn, hderef, hbuilt, -⟩ := hs.replace (by rw [hwlen]; exact Nat.succ_pos _) hpay (n + 1)
  exact ⟨cb, w, hcb, hderef, hw, hn ▸ hbuilt⟩

theorem defaultSegment_room (pool k : Nat) :
    defaultFirstSegmentHeadroom < (pools.block pool defaultSegmentSize k).length :=
  pools.roomy pool defaultSegmentSize k (Nat.le_refl _)

theorem ensureTailroomForByte_none (h : s.ctrlBlkPtr = none) : ∃ s' L' a v,
    s.ensureTailroomForByte pools = .ok s' ∧ TailReady s' L' a v 0 [] := by
  have hempty : s.empty = true := by
    rw [empty, length, h]
    rfl
  refine ⟨_, [], s.mem.length, _, ?_, tailReady_addHeadSegment pools s.mem (defaultSegment_room pools defaultPool _)⟩
  rw [ensureTailroomForByte, if_pos hempty, appendSegment, h]

theorem Holds.ensureTailroomForByte (hs : Holds s L n) (hpacked : Packed L) (hn : n = (bytesOf L).length) :
    ∃ s' L' a v, s.ensureTailroomForByte pools = .ok s' ∧ TailReady s' L' a v n (bytesOf L) := by
  obtain ⟨s', w, hok, hready, -⟩ := hs.tailReady pools hpacked defaultFirstSegmentHeadroom (defaultSegment_room pools)
  rw [ByteBuffer.ensureTailroomForByte, empty, hs.length]
  by_cases hempty : (n == 0) = true
  · exact ⟨s', L, _, w, (if_pos hempty).trans hok, hready⟩
  · rw [if_neg hempty]
    have hne : L ≠ [] := by
      rintro rfl
      exact hempty (beq_iff_eq.mpr hn)
    obtain ⟨L, ⟨a, v⟩, rfl⟩ := (List.eq_nil_or_concat L).resolve_left hne
    rw [List.concat_eq_append] at hs hpacked hready ⊢
    obtain ⟨cb, hcb, -, -, hderef⟩ := hs.last
    rw [ctrlBlk_eq hcb, ok_bind, hderef, ok_bind]
    by_cases hroom : v.tailroom = 0
    · exact ⟨s', _, _, w, (if_pos hroom).trans hok, hready⟩
    · refine ⟨s, L, a, v, if_neg hroom, hs, Nat.pos_of_ne_zero hroom, hpacked.of_append, ?_⟩
      rw [bytesOf_append, bytesOf_cons, bytesOf_nil, List.append_nil]

/-! Bytes that `resize` adds -/

theorem TailReady.growTail (hs : TailReady s L a v n xs) {toAdd : Nat} (hadd : 0 < toAdd) : ∃ s' w k ys,
    s.growTail toAdd = .ok (s', toAdd - k) ∧ 0 < k ∧ k ≤ toAdd ∧ ys.length = k ∧
      Built s' (L ++ [(a, w)]) n (xs ++ ys) := by
  have hpos : 0 < min v.tailroom toAdd := Nat.lt_min.mpr ⟨hs.room, hadd⟩
  obtain ⟨w, ys, hw, hpay, hys, hwlen⟩ := Segment.resize_grow (s := v) (Nat.min_le_left v.tailroom toAdd)
  obtain ⟨cb, hcb, hn, hderef, hbuilt, -⟩ := hs.replace (by omega) hpay n
  refine ⟨_, w, min v.tailroom toAdd, ys, ?_, hpos, Nat.min_le_right _ _, hys, hbuilt⟩
  rw [ByteBuffer.growTail, hcb, ok_bind, hderef, ok_bind]
  dsimp only
  rw [hw, ok_bind, ← hn]

theorem Built.growLoop (hs : Built s L n xs) {fuel toAdd : Nat} (hfuel : toAdd ≤ fuel) : ∃ s' L' ys,
    growLoop pools fuel s toAdd = .ok s' ∧ Built s' L' n (xs ++ ys) ∧ ys.length = toAdd := by
  induction fuel generalizing s L xs toAdd with
  | zero =>
    rw [Nat.le_zero.mp hfuel]
    exact ⟨s, L, [], rfl, by rwa [List.append_nil], rfl⟩
  | succ fuel ih =>
    cases toAdd with
    | zero => exact ⟨s, L, [], rfl, by rwa [List.append_nil], rfl⟩
    | succ toAdd =>
      obtain ⟨s₁, L₁, a, v, hok₁, hready, -⟩ := hs.ensureTailroom pools (Nat.succ_pos toAdd)
      obtain ⟨s₂, w, k, ys, hok₂, hpos, hle, hys, hs₂⟩ := hready.growTail (Nat.succ_pos toAdd)
      obtain ⟨s₃, L₃, zs, hok₃, hs₃, hzs⟩ := ih hs₂ (show toAdd + 1 - k ≤ fuel by omega)
      refine ⟨s₃, L₃, ys ++ zs, ?_, by rwa [← List.append_assoc], ?_⟩
      · rw [ByteBuffer.growLoop, ensureGrowable, if_pos hs.holds.hasCtrlBlock, hok₁, ok_bind, hok₂, ok_bind]
        exact hok₃
      · rw [List.length_append, hys, hzs]
        omega

theorem growLoop_none (h : s.ctrlBlkPtr = none) {fuel toAdd : Nat} (hfuel : toAdd ≤ fuel) (hadd : 0 < toAdd) :
    ∃ s' L' ys, growLoop pools fuel s toAdd = .ok s' ∧ Built s' L' 0 ys ∧ ys.length = toAdd := by
  obtain ⟨fuel, rfl⟩ := Nat.exists_eq_add_one_of_ne_zero (Nat.ne_of_gt (Nat.lt_of_lt_of_le hadd hfuel))
  obtain ⟨toAdd, rfl⟩ := Nat.exists_eq_add_one_of_ne_zero (Nat.ne_of_gt hadd)
  have hready := tailReady_addHeadSegment pools s.mem (pools.nonempty defaultPool (toAdd + 1) s.mem.length hadd)
  obtain ⟨s₁, w, k, ys, hok₁, hpos, hle, hys, hs₁⟩ := hready.growTail hadd
  obtain ⟨s₂, L₂, zs, hok₂, hs₂, hzs⟩ := hs₁.growLoop pools (show toAdd + 1 - k ≤ fuel by omega)
  have hno : s.hasCtrlBlock = false := by
    rw [hasCtrlBlock, h]
    rfl
  refine ⟨s₂, L₂, ys ++ zs, ?_, hs₂, ?_⟩
  · rw [growLoop, ensureGrowable, hno, appendSegment, h]
    dsimp only
    rw [if_neg Bool.false_ne_true, ok_bind, hok₁, ok_bind]
    exact hok₂
  · rw [List.length_append, hys, hzs]
    omega

end ByteBuffer

end Ocudu.Support
