import Ocudu.Support.ByteBufferAppend

/-! Taking bytes away at both ends of a byte buffer, and moving them into the first segment. -/

namespace Ocudu.Support

open LinkedHeap

theorem destroyNodes_chain {mem : Heap Segment} {p : Option Nat} {L : Segments} {fuel : Nat} (hc : Chain mem p L)
    (hnodup : (addrs L).Nodup) (hfuel : L.length ≤ fuel) : destroyNodes fuel mem p = .ok (freeAll mem (addrs L)) := by
  induction L generalizing mem p fuel with
  | nil =>
    rw [show p = none from hc, destroyNodes]
    rfl
  | cons x L ih =>
    obtain ⟨fuel, rfl⟩ := Nat.exists_eq_add_one_of_ne_zero (Nat.ne_of_gt (Nat.lt_of_lt_of_le (Nat.succ_pos _) hfuel))
    obtain ⟨hp, q, hcell, hrest⟩ := hc
    obtain ⟨hx, hnodup⟩ := List.nodup_cons.mp hnodup
    rw [hp, destroyNodes, deref_cell hcell, ok_bind]
    exact ih (hrest.free hx) hnodup (Nat.le_of_succ_le_succ hfuel)

namespace ByteBuffer

variable {s : ByteBuffer} {cb : ControlBlock} {L L₁ L₂ : Segments} {p q : Option Nat} {a n fuel count newLen : Nat}
  {v w : Segment} {xs : List UInt8}

structure Stored (s : ByteBuffer) (L : Segments) (xs : List UInt8) : Prop where
  holds : Holds s L xs.length
  packed : Packed L
  bytes : bytesOf L = xs

theorem Built.stored (hs : Built s L xs.length xs) : Stored s L xs := ⟨hs.holds, hs.packed, hs.bytes⟩

/-! `trim_head` -/

theorem listed_popFront (hl : Listed s.mem cb.head cb.tail ((a, v) :: L)) (hcell : s.mem[a]? = some ⟨v, q, true⟩)
    (hL : L ≠ []) (w : Segment) : Listed (free (setSegment s.mem a ⟨v, q, true⟩ w) a) q cb.tail L := by
  have hl' : Listed s.mem cb.head cb.tail ([] ++ (a, v) :: L) := hl
  obtain ⟨r, hcell', hset⟩ := hl'.setVal w
  have hr : some (⟨v, q, true⟩ : Cell Segment) = some ⟨v, r, true⟩ := hcell.symm.trans hcell'
  cases hr
  obtain ⟨r, hcell'', hpop⟩ := Listed.popFront hset hL
  have hr : some (⟨w, q, true⟩ : Cell Segment) = some ⟨w, r, true⟩ := by
    rw [← hcell'', List.getElem?_set_self (List.getElem?_eq_some_iff.mp hcell).1]
  cases hr
  exact hpop

theorem Holds.trimHeadLoop (hs : Holds s L n) (hpacked : Packed L) {k : Nat} (hk : k < (bytesOf L).length)
    (hfuel : L.length ≤ fuel) : ∃ s' L', trimHeadLoop fuel s k = .ok s' ∧ Holds s' L' (n - k) ∧ Packed L' ∧
      bytesOf L' = (bytesOf L).drop k := by
  induction L generalizing s n k fuel with
  | nil => exact absurd hk (Nat.not_lt_zero _)
  | cons x L ih =>
    obtain ⟨fuel, rfl⟩ := Nat.exists_eq_add_one_of_ne_zero (Nat.ne_of_gt (Nat.lt_of_lt_of_le (Nat.succ_pos _) hfuel))
    obtain ⟨a, v⟩ := x
    cases k with
    | zero => exact ⟨s, _, rfl, hs, hpacked, rfl⟩
    | succ k =>
      rw [length_bytesOf_cons] at hk
      dsimp only at hk
      obtain ⟨cb, hcb, hl, hn⟩ := hs
      obtain ⟨hhead, q, hcell, -⟩ := hl.chain
      have hderef : deref s.mem cb.head = .ok (a, ⟨v, q, true⟩) := hhead ▸ deref_cell hcell
      rw [ByteBuffer.trimHeadLoop, ctrlBlk_eq hcb, ok_bind, hderef, ok_bind]
      dsimp only
      obtain ⟨w, hw, hpay, hwlen⟩ := Segment.trimHead_ok (s := v) (Nat.min_le_right (k + 1) v.length)
      rw [hw, ok_bind]
      by_cases hle : v.length ≤ k + 1
      · have hzero : w.length = 0 := by rw [hwlen, Nat.min_eq_right hle, Nat.sub_self]
        have hL : L ≠ [] := by
          rintro rfl
          rw [bytesOf_nil, List.length_nil] at hk
          omega
        rw [if_pos hzero, Nat.min_eq_right hle]
        have hs' : Holds ⟨free (Support.setSegment s.mem a ⟨v, q, true⟩ w) a,
            some { cb with pktLen := cb.pktLen - v.length, head := q }⟩ L (n - v.length) :=
          ⟨_, rfl, listed_popFront hl hcell hL w, by rw [hn]⟩
        obtain ⟨s', L', hok, hs', hpacked', hbytes⟩ := ih hs' (Full.packed hpacked) (k := k + 1 - v.length) (by omega)
          (Nat.le_of_succ_le_succ hfuel)
        refine ⟨s', L', hok, ?_, hpacked', ?_⟩
        · have hsub : n - (k + 1) = n - v.length - (k + 1 - v.length) := by omega
          rwa [hsub]
        · have hdrop : v.payload.drop (k + 1) = [] := List.drop_eq_nil_of_le (by rwa [Segment.length_payload])
          rw [hbytes, bytesOf_cons, List.drop_append, hdrop, List.nil_append, Segment.length_payload]
      · have hlt : k + 1 < v.length := Nat.lt_of_not_le hle
        have hpos : ¬w.length = 0 := by
          rw [hwlen, Nat.min_eq_left (Nat.le_of_lt hlt)]
          omega
        rw [if_neg hpos, Nat.min_eq_left (Nat.le_of_lt hlt), Nat.sub_self, ByteBuffer.trimHeadLoop]
        have hl' : Listed s.mem cb.head cb.tail ([] ++ (a, v) :: L) := hl
        obtain ⟨hs', -⟩ := Holds.setSegment (w := w) hl' hcell (n - (k + 1))
        rw [hn]
        refine ⟨_, _, rfl, hs', hpacked, ?_⟩
        rw [List.nil_append, bytesOf_cons, bytesOf_cons, hpay, Nat.min_eq_left (Nat.le_of_lt hlt),
          List.drop_append_of_le_length (by rw [Segment.length_payload]; exact Nat.le_of_lt hlt)]

theorem Stored.trimHead (hs : Stored s L xs) {k : Nat} (hk : k < xs.length) :
    ∃ s' L', s.trimHead k = .ok s' ∧ Stored s' L' (xs.drop k) := by
  obtain ⟨hholds, hpacked, rfl⟩ := hs
  have hlen : L.length ≤ k + s.mem.length := by
    obtain ⟨cb, -, hl, -⟩ := hholds
    exact Nat.le_trans (hl.chain.length_le hl.nodup) (Nat.le_add_left _ _)
  obtain ⟨s', L', hok, hs', hpacked', hbytes⟩ := hholds.trimHeadLoop hpacked hk hlen
  refine ⟨s', L', ?_, ?_, hpacked', hbytes⟩
  · rw [ByteBuffer.trimHead, hholds.length, if_pos (Nat.le_of_lt hk), hok]
  · rwa [List.length_drop]

/-! The list is cut behind a segment -/

theorem stored_cut (hl : Listed s.mem cb.head cb.tail (L₁ ++ (a, v) :: L₂)) (hpacked : Packed (L₁ ++ (a, v) :: L₂))
    (hfirst : L₁ = [] ∨ (bytesOf L₁).length < newLen) (hlast : newLen ≤ (bytesOf L₁).length + v.length)
    (hpay : w.payload = v.payload.take (newLen - (bytesOf L₁).length)) :
    Stored ⟨(freeAll s.mem (addrs L₂)).set a ⟨w, none, true⟩, some { cb with tail := some a, pktLen := newLen }⟩
      (L₁ ++ [(a, w)]) ((bytesOf (L₁ ++ (a, v) :: L₂)).take newLen) := by
  have hwlen : w.length = newLen - (bytesOf L₁).length := by
    rw [← Segment.length_payload, hpay, List.length_take, Segment.length_payload]
    omega
  have hle : (bytesOf L₁).length ≤ newLen := by
    rcases hfirst with rfl | hlt
    · exact Nat.zero_le _
    · exact Nat.le_of_lt hlt
  have htake : (bytesOf (L₁ ++ (a, v) :: L₂)).take newLen = bytesOf (L₁ ++ [(a, w)]) := by
    rw [bytesOf_append, bytesOf_append, bytesOf_cons, bytesOf_cons, bytesOf_nil, List.append_nil, hpay,
      List.take_append, List.take_of_length_le hle, List.take_append_of_le_length]
    rw [Segment.length_payload]
    dsimp only
    omega
  have hlen : (bytesOf (L₁ ++ [(a, w)])).length = newLen := by
    rw [bytesOf_append, bytesOf_cons, bytesOf_nil, List.append_nil, List.length_append, Segment.length_payload, hwlen]
    omega
  rw [htake]
  refine ⟨⟨_, rfl, hl.cut w, hlen.symm⟩, ?_, rfl⟩
  rcases hfirst with rfl | hlt
  · exact fun _ hx => absurd hx List.not_mem_nil
  · refine hpacked.of_append.concat ?_
    rw [hwlen]
    omega

theorem destroyNodes_behind (hl : Listed s.mem cb.head cb.tail (L₁ ++ (a, v) :: L₂)) (hq : Chain s.mem q L₂) :
    destroyNodes s.mem.length s.mem q = .ok (freeAll s.mem (addrs L₂)) := by
  have hnodup := hl.nodup
  rw [addrs_append, addrs_cons] at hnodup
  have hnodup₂ := (List.nodup_cons.mp (List.nodup_append.mp hnodup).2.1).2
  exact destroyNodes_chain hq hnodup₂ (hq.length_le hnodup₂)

/-! `trim_tail` -/

theorem trimTailWalk_stored (hcb : s.ctrlBlkPtr = some cb) (hl : Listed s.mem cb.head cb.tail (L₁ ++ L₂))
    (hpacked : Packed (L₁ ++ L₂)) (hp : Chain s.mem p L₂) (hfirst : L₁ = [] ∨ (bytesOf L₁).length < newLen)
    (hlt : newLen < (bytesOf (L₁ ++ L₂)).length) (hfuel : L₂.length ≤ fuel) : ∃ s' L',
      trimTailWalk s newLen fuel p (bytesOf L₁).length = .ok s' ∧ Stored s' L' ((bytesOf (L₁ ++ L₂)).take newLen) := by
  induction L₂ generalizing L₁ p fuel with
  | nil =>
    rw [List.append_nil] at hlt
    rcases hfirst with rfl | hfirst
    · exact absurd hlt (Nat.not_lt_zero _)
    · exact absurd hlt (Nat.lt_asymm hfirst)
  | cons x L₂ ih =>
    obtain ⟨fuel, rfl⟩ := Nat.exists_eq_add_one_of_ne_zero (Nat.ne_of_gt (Nat.lt_of_lt_of_le (Nat.succ_pos _) hfuel))
    obtain ⟨a, v⟩ := x
    obtain ⟨hhead, q, hcell, hrest⟩ := hp
    rw [hhead, ByteBuffer.trimTailWalk, deref_cell hcell, ok_bind]
    dsimp only
    by_cases hle : newLen ≤ (bytesOf L₁).length + v.length
    · obtain ⟨w, hw, hpay, -⟩ := Segment.resize_shrink (s := v) (n := newLen - (bytesOf L₁).length) (by omega)
      rw [if_pos hle, ctrlBlk_eq hcb, ok_bind, destroyNodes_behind hl hrest, ok_bind, hw, ok_bind]
      exact ⟨_, _, rfl, stored_cut hl hpacked hfirst hle hpay⟩
    · have hcount : (bytesOf (L₁ ++ [(a, v)])).length = (bytesOf L₁).length + v.length := by
        rw [bytesOf_append, List.length_append, length_bytesOf_cons]
        rfl
      have hsplit : L₁ ++ (a, v) :: L₂ = (L₁ ++ [(a, v)]) ++ L₂ := by rw [List.append_assoc]; rfl
      rw [if_neg hle, ← hcount, hsplit]
      rw [hsplit] at hl hpacked hlt
      exact ih hl hpacked hrest (.inr (by rw [hcount]; omega)) hlt (Nat.le_of_succ_le_succ hfuel)

theorem newTail_chain {mem : Heap Segment} {b : Nat} {x : Segment} (hc : Chain mem p (L ++ [(b, w), (a, x)]))
    (hnodup : (addrs (L ++ [(b, w), (a, x)])).Nodup) (hfuel : L.length < fuel) :
    newTail mem (some a) fuel p = .ok (b, ⟨w, some a, true⟩) := by
  induction L generalizing p fuel with
  | nil =>
    obtain ⟨fuel, rfl⟩ := Nat.exists_eq_add_one_of_ne_zero (Nat.ne_of_gt (Nat.lt_of_le_of_lt (Nat.zero_le _) hfuel))
    obtain ⟨hp, q, hcell, hq, -⟩ := hc
    subst hq
    rw [hp, newTail, deref_cell hcell, ok_bind]
    exact if_pos rfl
  | cons y L ih =>
    obtain ⟨fuel, rfl⟩ := Nat.exists_eq_add_one_of_ne_zero (Nat.ne_of_gt (Nat.lt_of_le_of_lt (Nat.zero_le _) hfuel))
    obtain ⟨hp, q, hcell, hrest⟩ := hc
    have htail := (List.nodup_cons.mp hnodup).2
    have hne : q ≠ some a := by
      rintro rfl
      -- The last cell is the first of the rest only if the rest has no other cell.
      cases L with
      | nil =>
        have hab : a = b := Option.some.inj hrest.1
        exact (List.nodup_cons.mp htail).1 (by rw [hab]; exact List.mem_cons_self)
      | cons z L =>
        have haz : a = z.1 := Option.some.inj hrest.1
        refine (List.nodup_cons.mp htail).1 ?_
        change z.1 ∈ addrs (L ++ [(b, w), (a, x)])
        rw [← haz, addrs_append]
        exact List.mem_append_right _ (List.mem_cons_of_mem _ List.mem_cons_self)
    rw [hp, newTail, deref_cell hcell, ok_bind]
    dsimp only
    rw [if_neg hne]
    exact ih hrest htail (Nat.lt_of_succ_lt_succ hfuel)

theorem popBack_listed (hl : Listed s.mem cb.head cb.tail (L ++ [(a, v)])) : ∃ s' cb', popBack s.mem cb = .ok s' ∧
    s'.ctrlBlkPtr = some cb' ∧ Listed (free s'.mem a) cb'.head cb'.tail L ∧ cb'.pktLen = cb.pktLen := by
  have htail : cb.tail = some a := by
    rw [hl.tail, addrs_append, List.getLast?_append]
    rfl
  rcases List.eq_nil_or_concat L with rfl | ⟨L, ⟨b, w⟩, rfl⟩
  · have hhead : cb.head = cb.tail := by
      rw [hl.head_eq, hl.tail]
      rfl
    rw [popBack, if_pos hhead]
    exact ⟨_, _, rfl, rfl, ⟨rfl, List.nodup_nil, rfl⟩, rfl⟩
  · rw [List.concat_eq_append] at hl ⊢
    rw [List.append_assoc] at hl
    have hba : a ≠ b := by
      have hnodup := hl.nodup
      rw [addrs_append] at hnodup
      rintro rfl
      exact (List.nodup_cons.mp (List.nodup_append.mp hnodup).2.1).1 List.mem_cons_self
    have hhead : cb.head ≠ cb.tail := by
      rw [htail, hl.head_eq]
      intro hsome
      have hnodup := hl.nodup
      cases L with
      | nil => exact hba (Option.some.inj hsome).symm
      | cons z L =>
        have hza : z.1 = a := Option.some.inj hsome
        refine (List.nodup_cons.mp hnodup).1 ?_
        change z.1 ∈ addrs (L ++ [(b, w), (a, v)])
        rw [hza, addrs_append]
        exact List.mem_append_right _ (List.mem_cons_of_mem _ List.mem_cons_self)
    have hlen : L.length < s.mem.length := by
      have hle := hl.chain.length_le hl.nodup
      rw [List.length_append] at hle
      exact Nat.lt_of_lt_of_le (Nat.lt_add_of_pos_right (Nat.succ_pos _)) hle
    have hwalk := newTail_chain hl.chain hl.nodup hlen
    rw [← htail] at hwalk
    rw [popBack, if_neg hhead, hwalk, ok_bind]
    refine ⟨_, _, rfl, rfl, ?_, rfl⟩
    dsimp only
    rw [free_set hba]
    exact hl.cut w

theorem Holds.popLastSegment (hs : Holds s (L ++ [(a, v)]) n) (hv : v.length = 0) :
    ∃ s', s.popLastSegment = .ok s' ∧ Holds s' L n := by
  obtain ⟨cb, hcb, hl, hn, hderef⟩ := hs.last
  have htail : cb.tail = some a := by
    rw [hl.tail, addrs_append, List.getLast?_append]
    rfl
  obtain ⟨s', cb', hpop, hcb', hl', hn'⟩ := @popBack_listed s { cb with pktLen := cb.pktLen - v.length } L a v hl
  refine ⟨⟨free s'.mem a, s'.ctrlBlkPtr⟩, ?_, cb', hcb', hl', ?_⟩
  · obtain ⟨head, tail, pktLen, seg, refCount, pool⟩ := cb
    dsimp only at htail hpop hderef
    subst htail
    rw [ByteBuffer.popLastSegment, ctrlBlk_eq hcb, ok_bind]
    dsimp only
    rw [hderef, ok_bind]
    dsimp only
    rw [hpop, ok_bind]
  · rw [hn', hv]
    exact hn

theorem Stored.trimTail (hs : Stored s L xs) {k : Nat} (hk : k ≤ xs.length) :
    ∃ s' L', s.trimTail k = .ok s' ∧ Stored s' L' (xs.take (xs.length - k)) := by
  obtain ⟨hholds, hpacked, rfl⟩ := hs
  rw [ByteBuffer.trimTail, hholds.length, if_neg (Nat.not_lt.mpr hk)]
  by_cases hzero : k = 0
  · rw [if_pos hzero, hzero, Nat.sub_zero, List.take_length]
    exact ⟨s, L, rfl, hholds, hpacked, rfl⟩
  · rw [if_neg hzero]
    have hL : L ≠ [] := by
      rintro rfl
      exact hzero (Nat.le_zero.mp hk)
    obtain ⟨L, ⟨t, v⟩, rfl⟩ := (List.eq_nil_or_concat L).resolve_left hL
    rw [List.concat_eq_append] at hholds hpacked hk ⊢
    obtain ⟨cb, hcb, hl, hn, hderef⟩ := hholds.last
    have htotal : (bytesOf (L ++ [(t, v)])).length = (bytesOf L).length + v.length := by
      rw [bytesOf_append, List.length_append, length_bytesOf_cons]
      rfl
    rw [ctrlBlk_eq hcb, ok_bind, hderef, ok_bind]
    dsimp only
    by_cases hle : k ≤ v.length
    · obtain ⟨w, hw, hpay, hwlen⟩ := Segment.trimTail_ok hle
      obtain ⟨hset, -⟩ := Holds.setSegment (w := w) hl hl.chain.last ((bytesOf (L ++ [(t, v)])).length - k)
      have htake : bytesOf (L ++ [(t, w)]) =
          (bytesOf (L ++ [(t, v)])).take ((bytesOf (L ++ [(t, v)])).length - k) := by
        rw [htotal, Nat.add_sub_assoc hle, bytesOf_append, bytesOf_append, List.take_length_add_append, bytesOf_cons,
          bytesOf_cons, bytesOf_nil, List.append_nil, List.append_nil, hpay]
      have hlen : (bytesOf (L ++ [(t, v)])).length - k =
          ((bytesOf (L ++ [(t, v)])).take ((bytesOf (L ++ [(t, v)])).length - k)).length := by
        rw [List.length_take, Nat.min_eq_left (Nat.sub_le _ _)]
      rw [if_pos hle, hw, ok_bind, hn]
      by_cases hempty : w.length = 0
      · obtain ⟨s', hok, hs'⟩ := hset.popLastSegment hempty
        rw [if_pos hempty]
        refine ⟨s', L, hok, hlen ▸ hs', hpacked.of_append, ?_⟩
        rw [← htake, bytesOf_append, bytesOf_cons, bytesOf_nil, Segment.payload_eq_nil hempty, List.append_nil,
          List.append_nil]
      · rw [if_neg hempty]
        exact ⟨_, _, rfl, hlen ▸ hset, hpacked.of_append.concat (Nat.pos_of_ne_zero hempty), htake⟩
    · rw [if_neg hle]
      have hlt : (bytesOf (L ++ [(t, v)])).length - k < (bytesOf (L ++ [(t, v)])).length :=
        Nat.sub_lt (Nat.lt_of_lt_of_le (Nat.pos_of_ne_zero hzero) hk) (Nat.pos_of_ne_zero hzero)
      have hl' : Listed s.mem cb.head cb.tail ([] ++ (L ++ [(t, v)])) := hl
      exact trimTailWalk_stored hcb hl' hpacked hl.chain (.inl rfl) hlt (hl.chain.length_le hl.nodup)

/-! `resize` to a smaller size -/

theorem shrinkWalk_stored (hcb : s.ctrlBlkPtr = some cb) (hl : Listed s.mem cb.head cb.tail (L₁ ++ L₂))
    (hpacked : Packed (L₁ ++ L₂)) (hp : Chain s.mem p L₂) (hfirst : (bytesOf L₁).length < newLen)
    (hlt : newLen < (bytesOf (L₁ ++ L₂)).length) (hfuel : L₂.length ≤ fuel) : ∃ s' cb' L',
      shrinkWalk newLen fuel s p (bytesOf L₁).length = .ok s' ∧ s'.ctrlBlkPtr = some cb' ∧
        Stored ⟨s'.mem, some { cb' with pktLen := newLen }⟩ L' ((bytesOf (L₁ ++ L₂)).take newLen) := by
  induction L₂ generalizing L₁ p fuel with
  | nil =>
    rw [List.append_nil] at hlt
    exact absurd hlt (Nat.lt_asymm hfirst)
  | cons x L₂ ih =>
    obtain ⟨fuel, rfl⟩ := Nat.exists_eq_add_one_of_ne_zero (Nat.ne_of_gt (Nat.lt_of_lt_of_le (Nat.succ_pos _) hfuel))
    obtain ⟨a, v⟩ := x
    obtain ⟨hhead, q, hcell, hrest⟩ := hp
    rw [hhead, ByteBuffer.shrinkWalk, if_neg (Nat.not_le.mpr hfirst), deref_cell hcell, ok_bind]
    dsimp only
    by_cases hle : newLen ≤ (bytesOf L₁).length + v.length
    · have hmin : min v.length (newLen - (bytesOf L₁).length) = newLen - (bytesOf L₁).length :=
        Nat.min_eq_right (by omega)
      have hsum : (bytesOf L₁).length + (newLen - (bytesOf L₁).length) = newLen := by omega
      obtain ⟨w, hw, hpay⟩ : ∃ w, (if newLen - (bytesOf L₁).length = v.length then .ok v
          else v.resize (newLen - (bytesOf L₁).length)) = .ok w ∧
            w.payload = v.payload.take (newLen - (bytesOf L₁).length) := by
        by_cases heq : newLen - (bytesOf L₁).length = v.length
        · refine ⟨v, if_pos heq, (List.take_of_length_le ?_).symm⟩
          rw [Segment.length_payload, heq]
        · obtain ⟨w, hw, hpay, -⟩ := Segment.resize_shrink (s := v) (n := newLen - (bytesOf L₁).length) (by omega)
          exact ⟨w, (if_neg heq).trans hw, hpay⟩
      rw [hmin, hw, ok_bind, if_pos hsum, ctrlBlk_eq hcb, ok_bind, destroyNodes_behind hl hrest, ok_bind, hsum]
      have hcut := stored_cut hl hpacked (.inr hfirst) hle hpay
      refine ⟨⟨(freeAll s.mem (addrs L₂)).set a ⟨w, none, true⟩, some { cb with tail := some a }⟩,
        { cb with tail := some a }, L₁ ++ [(a, w)], ?_, rfl, hcut⟩
      cases fuel with
      | zero => exact if_pos (Nat.le_refl _)
      | succ fuel => exact if_pos (Nat.le_refl _)
    · have hmin : min v.length (newLen - (bytesOf L₁).length) = v.length := Nat.min_eq_left (by omega)
      have hne : ¬(bytesOf L₁).length + v.length = newLen := by omega
      have hset : setSegment s.mem a ⟨v, q, true⟩ v = s.mem := set_cell hcell
      have hcount : (bytesOf (L₁ ++ [(a, v)])).length = (bytesOf L₁).length + v.length := by
        rw [bytesOf_append, List.length_append, length_bytesOf_cons]
        rfl
      have hsplit : L₁ ++ (a, v) :: L₂ = (L₁ ++ [(a, v)]) ++ L₂ := by rw [List.append_assoc]; rfl
      rw [hmin, if_pos rfl, ok_bind, if_neg hne, hset, ← hcount, hsplit]
      rw [hsplit] at hl hpacked hlt
      exact ih hl hpacked hrest (by rw [hcount]; omega) hlt (Nat.le_of_succ_le_succ hfuel)

theorem Stored.shrink (pools : SegmentPools) (hs : Stored s L xs) (hpos : 0 < newLen) (hlt : newLen < xs.length) :
    ∃ s' L', s.resize pools newLen = .ok s' ∧ Stored s' L' (xs.take newLen) := by
  obtain ⟨⟨cb, hcb, hl, hn⟩, hpacked, rfl⟩ := hs
  have hlen : s.length = (bytesOf L).length := by
    rw [ByteBuffer.length, hcb]
    exact hn
  have hl' : Listed s.mem cb.head cb.tail ([] ++ L) := hl
  obtain ⟨s', cb', L', hok, hcb', hs'⟩ := shrinkWalk_stored hcb hl' hpacked hl.chain hpos hlt
    (hl.chain.length_le hl.nodup)
  refine ⟨_, L', ?_, hs'⟩
  rw [ByteBuffer.resize, hlen, if_neg (Nat.ne_of_lt hlt), if_neg (Nat.lt_asymm hlt), ctrlBlk_eq hcb, ok_bind]
  rw [show shrinkWalk newLen s.mem.length s cb.head 0 = .ok s' from hok, ok_bind, setPktLen, ctrlBlk_eq hcb', ok_bind]

/-! `linearize` and `clear` -/

theorem gather_chain {mem : Heap Segment} {h : Nat} {q₀ : Option Nat} (hcell : mem[h]? = some ⟨v, q₀, true⟩)
    (hp : Chain mem p L) (hnodup : (addrs L).Nodup) (hh : h ∉ addrs L) (hfuel : L.length ≤ fuel)
    (hroom : v.start + v.length + (bytesOf L).length ≤ v.capacity) : ∃ mem' w, gather (some h) fuel mem p = .ok mem' ∧
      mem'[h]? = some ⟨w, q₀, true⟩ ∧ w.payload = v.payload ++ bytesOf L := by
  induction L generalizing mem v p fuel with
  | nil =>
    rw [show p = none from hp, gather]
    exact ⟨mem, v, rfl, hcell, (List.append_nil _).symm⟩
  | cons x L ih =>
    obtain ⟨fuel, rfl⟩ := Nat.exists_eq_add_one_of_ne_zero (Nat.ne_of_gt (Nat.lt_of_lt_of_le (Nat.succ_pos _) hfuel))
    obtain ⟨a, u⟩ := x
    obtain ⟨hhead, q, hacell, hrest⟩ := hp
    obtain ⟨ha, hnodup⟩ := List.nodup_cons.mp hnodup
    rw [length_bytesOf_cons] at hroom
    dsimp only at hacell hroom ha
    have hah : a ≠ h := fun heq => hh (heq ▸ List.mem_cons_self)
    have hhL : h ∉ addrs L := fun hmem => hh (List.mem_cons_of_mem _ hmem)
    have htail : u.payload.length ≤ v.tailroom := by
      rw [Segment.length_payload, Segment.tailroom]
      rw [Segment.capacity] at hroom
      omega
    obtain ⟨w, hw, hpay, hwlen, hwstart, hwcap⟩ := Segment.append_ok htail
    have hcell' : (free (setSegment mem h ⟨v, q₀, true⟩ w) a)[h]? = some ⟨w, q₀, true⟩ := by
      rw [getElem?_free_ne hah, setSegment, List.getElem?_set_self (List.getElem?_eq_some_iff.mp hcell).1]
    obtain ⟨mem', z, hok, hz, hzpay⟩ := ih hcell' ((hrest.set_other _ hhL).free ha) hnodup hhL
      (Nat.le_of_succ_le_succ hfuel) (by
        rw [hwstart, hwlen, hwcap, Segment.length_payload]
        omega)
    refine ⟨mem', z, ?_, hz, ?_⟩
    · rw [hhead, gather, deref_cell hacell, ok_bind]
      dsimp only
      rw [deref_cell hcell, ok_bind]
      dsimp only
      rw [hw, ok_bind]
      exact hok
    · rw [hzpay, hpay, bytesOf_cons, List.append_assoc]

theorem Stored.linearize (hs : Stored s L xs) : ∃ b s' L', s.linearize = .ok (b, s') ∧ Stored s' L' xs := by
  by_cases hcont : s.isContiguous = true
  · rw [ByteBuffer.linearize, if_pos hcont]
    exact ⟨true, s, L, rfl, hs⟩
  · obtain ⟨hholds, hpacked, rfl⟩ := hs
    rw [ByteBuffer.linearize, if_neg hcont, hholds.length]
    cases L with
    | nil =>
      have hempty : s.isContiguous = true := by
        rw [isContiguous, empty, hholds.length]
        rfl
      exact absurd hempty hcont
    | cons x L =>
      obtain ⟨a, v⟩ := x
      obtain ⟨cb, hcb, hl, hn⟩ := hholds
      obtain ⟨hhead, q, hcell, hrest⟩ := hl.chain
      obtain ⟨ha, hnodup⟩ := List.nodup_cons.mp hl.nodup
      have hderef : deref s.mem cb.head = .ok (a, ⟨v, q, true⟩) := hhead ▸ deref_cell hcell
      rw [ctrlBlk_eq hcb, ok_bind, hderef, ok_bind]
      dsimp only
      by_cases hroom : v.capacity - v.headroom < (bytesOf ((a, v) :: L)).length
      · rw [if_pos hroom]
        exact ⟨false, s, _, rfl, ⟨cb, hcb, hl, hn⟩, hpacked, rfl⟩
      · have hlen := length_bytesOf_cons (a, v) L
        have hfits := v.fits
        obtain ⟨mem', w, hok, hw, hpay⟩ := gather_chain hcell hrest hnodup ha (hrest.length_le hnodup) (by
          rw [Segment.headroom, hlen] at hroom
          rw [Segment.capacity] at hroom ⊢
          dsimp only at hroom
          omega)
        have hderef' : deref mem' cb.head = .ok (a, ⟨w, q, true⟩) := hhead ▸ deref_cell hw
        have hbytes : bytesOf [(a, w)] = bytesOf ((a, v) :: L) := by
          rw [bytesOf_cons, bytesOf_cons, bytesOf_nil, List.append_nil, hpay]
        rw [if_neg hroom, hhead, hok, ok_bind, ← hhead, hderef', ok_bind]
        refine ⟨true, _, [(a, w)], rfl, ⟨_, rfl, ⟨?_, List.nodup_singleton _, hhead⟩, hn⟩,
          fun _ hx => absurd hx List.not_mem_nil, hbytes⟩
        exact ⟨hhead, none, List.getElem?_set_self (List.getElem?_eq_some_iff.mp hw).1, rfl⟩

theorem Stored.clear (hs : Stored s L xs) : ∃ s', s.clear = .ok s' ∧ s'.ctrlBlkPtr = none := by
  obtain ⟨⟨cb, hcb, hl, -⟩, -⟩ := hs
  rw [ByteBuffer.clear, hcb]
  dsimp only
  by_cases href : cb.refCount = 1
  · rw [if_pos href, destroyNodes_chain hl.chain hl.nodup (hl.chain.length_le hl.nodup)]
    exact ⟨_, rfl, rfl⟩
  · rw [if_neg href]
    exact ⟨_, rfl, rfl⟩

end ByteBuffer

end Ocudu.Support
