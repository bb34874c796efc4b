import Ocudu.Support.ByteBufferSegments

/-! What iterating over a byte buffer yields. -/

namespace Ocudu.Support

open LinkedHeap

variable {mem : Heap Segment} {L : Segments} {p : Option Nat} {a n fuel offset : Nat} {v : Segment}

theorem Segment.getElem?_buffer (h : offset < v.length) : v.buffer[v.start + offset]? = v.payload[offset]? := by
  rw [payload, List.getElem?_take_of_lt h, List.getElem?_drop]

def skipped (L : Segments) : Segments := L.dropWhile fun x => x.2.empty

@[simp] theorem bytesOf_skipped (L : Segments) : bytesOf (skipped L) = bytesOf L := by
  induction L with
  | nil => rfl
  | cons x L ih =>
    rw [skipped, List.dropWhile_cons]
    by_cases hx : x.2.empty = true
    · have hlen : x.2.length = 0 := beq_iff_eq.mp hx
      rw [if_pos hx, bytesOf_cons, Segment.payload_eq_nil hlen, List.nil_append]
      exact ih
    · rw [if_neg hx]

theorem Packed.skipped (h : Packed L) : Full (skipped L) := by
  cases L with
  | nil => exact fun x hx => absurd hx List.not_mem_nil
  | cons x L =>
    rw [Support.skipped, List.dropWhile_cons]
    by_cases hx : x.2.empty = true
    · rw [if_pos hx]
      exact fun y hy => h y ((List.dropWhile_suffix _).mem hy)
    · rw [if_neg hx]
      exact Full.cons (Nat.pos_of_ne_zero fun hlen => hx (beq_iff_eq.mpr hlen)) h

namespace ByteIterator

theorem skipEmpty_chain (hc : Chain mem p L) (hfuel : L.length ≤ fuel) :
    ∃ q, skipEmpty mem fuel p = .ok q ∧ Chain mem q (skipped L) := by
  induction L generalizing p fuel with
  | nil =>
    rw [show p = none from hc, skipEmpty]
    exact ⟨none, rfl, rfl⟩
  | cons x L ih =>
    obtain ⟨fuel, rfl⟩ := Nat.exists_eq_add_one_of_ne_zero (Nat.ne_of_gt (Nat.lt_of_lt_of_le (Nat.succ_pos _) hfuel))
    obtain ⟨hp, q, hcell, hrest⟩ := hc
    rw [hp, skipEmpty, deref_cell hcell, ok_bind, skipped, List.dropWhile_cons]
    dsimp only
    by_cases hx : x.2.empty = true
    · rw [if_pos hx, if_pos hx]
      exact ih hrest (Nat.le_of_succ_le_succ hfuel)
    · rw [if_neg hx, if_neg hx]
      exact ⟨_, rfl, rfl, q, hcell, hrest⟩

theorem bytes_chain (hc : Chain mem (some a) ((a, v) :: L)) (hfull : Full L) (hoff : offset < v.length)
    (hfuel : (v.length - offset) + (bytesOf L).length ≤ fuel) :
    bytes mem fuel ⟨some a, offset⟩ = .ok (v.payload.drop offset ++ bytesOf L) := by
  induction fuel generalizing a v L offset with
  | zero => omega
  | succ fuel ih =>
    obtain ⟨-, q, hcell, hrest⟩ := hc
    have hlt : offset < v.payload.length := by rwa [Segment.length_payload]
    have hne : (⟨some a, offset⟩ : ByteIterator) ≠ endIt := by
      intro h
      cases congrArg currentSegment h
    have hget : get mem ⟨some a, offset⟩ = .ok v.payload[offset] := by
      rw [get, deref_cell hcell, ok_bind]
      dsimp only
      rw [Segment.getElem?_buffer hoff, List.getElem?_eq_getElem hlt]
    rw [bytes, if_neg hne, hget, ok_bind, next, deref_cell hcell, ok_bind]
    dsimp only
    rw [List.drop_eq_getElem_cons hlt, List.cons_append]
    by_cases hlast : v.length ≤ offset + 1
    · have hdrop : v.payload.drop (offset + 1) = [] := List.drop_eq_nil_of_le (by rwa [Segment.length_payload])
      rw [if_pos hlast, ok_bind, hdrop, List.nil_append]
      cases L with
      | nil =>
        have hend : bytes mem fuel ⟨q, 0⟩ = .ok [] := by
          rw [show q = none from hrest]
          cases fuel with
          | zero => exact if_pos rfl
          | succ fuel => exact if_pos rfl
        rw [hend]
        rfl
      | cons x L =>
        have hx : 0 < x.2.length := hfull x List.mem_cons_self
        have hq : q = some x.1 := hrest.1
        subst hq
        have hle : x.2.length - 0 + (bytesOf L).length ≤ fuel := by
          rw [length_bytesOf_cons] at hfuel
          omega
        rw [ih (a := x.1) (v := x.2) hrest (fun y hy => hfull y (List.mem_cons_of_mem _ hy)) hx hle]
        rfl
    · rw [if_neg hlast, ok_bind, ih ⟨rfl, q, hcell, hrest⟩ hfull (Nat.lt_of_not_le hlast) (by omega)]
      rfl

theorem advanceLoop_chain (hc : Chain mem p L) (hoff : offset ≤ (bytesOf L).length) (hfuel : L.length ≤ fuel) :
    ∃ it, advanceLoop mem fuel p offset = .ok it := by
  induction L generalizing p fuel offset with
  | nil =>
    rw [show p = none from hc, advanceLoop, if_pos (Nat.le_zero.mp hoff)]
    exact ⟨_, rfl⟩
  | cons x L ih =>
    obtain ⟨fuel, rfl⟩ := Nat.exists_eq_add_one_of_ne_zero (Nat.ne_of_gt (Nat.lt_of_lt_of_le (Nat.succ_pos _) hfuel))
    obtain ⟨hp, q, hcell, hrest⟩ := hc
    rw [hp, advanceLoop, deref_cell hcell, ok_bind]
    dsimp only
    by_cases hle : x.2.length ≤ offset
    · rw [if_pos hle]
      refine ih hrest ?_ (Nat.le_of_succ_le_succ hfuel)
      rw [length_bytesOf_cons] at hoff
      omega
    · rw [if_neg hle]
      exact ⟨_, rfl⟩

end ByteIterator

namespace ByteBuffer

variable {s : ByteBuffer}

theorem Holds.beginIt (hs : Holds s L n) : ∃ q, s.beginIt = .ok ⟨q, 0⟩ ∧ Chain s.mem q (skipped L) := by
  obtain ⟨cb, hcb, hl, -⟩ := hs
  obtain ⟨q, hskip, hchain⟩ := ByteIterator.skipEmpty_chain hl.chain (hl.chain.length_le hl.nodup)
  refine ⟨q, ?_, hchain⟩
  rw [ByteBuffer.beginIt, hcb, ByteIterator.new, hskip]
  rfl

theorem Holds.length_bytesOf_le (hs : Holds s L n) :
    (bytesOf L).length ≤ (s.mem.map fun c => c.val.capacity + 1).sum := by
  obtain ⟨cb, -, hl, -⟩ := hs
  refine Nat.le_trans ?_ (hl.chain.sum_le hl.nodup fun v => v.capacity + 1)
  clear hl
  induction L with
  | nil => exact Nat.le_refl _
  | cons x L ih =>
    have hfits := x.2.fits
    rw [length_bytesOf_cons, List.map_cons, List.sum_cons, Segment.capacity]
    omega

theorem Holds.iterate (hs : Holds s L n) (hpacked : Packed L) : s.iterate = .ok (bytesOf L) := by
  obtain ⟨q, hbegin, hchain⟩ := hs.beginIt
  have hfuel := hs.length_bytesOf_le
  have hfull := hpacked.skipped
  rw [← bytesOf_skipped L] at hfuel ⊢
  rw [ByteBuffer.iterate, hbegin, ok_bind]
  cases hskip : skipped L with
  | nil =>
    rw [hskip] at hchain
    rw [show q = none from hchain]
    cases (s.mem.map fun c => c.val.capacity + 1).sum with
    | zero => exact if_pos rfl
    | succ fuel => exact if_pos rfl
  | cons x M =>
    rw [hskip] at hchain hfull hfuel
    have hq : q = some x.1 := hchain.1
    subst hq
    rw [length_bytesOf_cons] at hfuel
    exact ByteIterator.bytes_chain (v := x.2) hchain (fun y hy => hfull y (List.mem_cons_of_mem _ hy))
      (hfull x List.mem_cons_self) hfuel

theorem Holds.advance (hs : Holds s L n) {k : Nat} (hk : k ≤ (bytesOf L).length) :
    ∃ it itEnd, s.beginIt = .ok it ∧ it.advance s.mem k = .ok itEnd := by
  obtain ⟨q, hbegin, hchain⟩ := hs.beginIt
  obtain ⟨cb, -, hl, -⟩ := hs
  have hlen : (skipped L).length ≤ s.mem.length :=
    Nat.le_trans (List.dropWhile_suffix _).length_le (hl.chain.length_le hl.nodup)
  have hoff : 0 + k ≤ (bytesOf (skipped L)).length := by rwa [bytesOf_skipped, Nat.zero_add]
  obtain ⟨it, hit⟩ := ByteIterator.advanceLoop_chain hchain hoff hlen
  exact ⟨_, it, hbegin, hit⟩

theorem iterate_none (h : s.ctrlBlkPtr = none) : s.iterate = .ok [] := by
  have hbegin : s.beginIt = .ok ByteIterator.endIt := by
    rw [beginIt, h, ByteIterator.new, ByteIterator.skipEmpty]
    rfl
  rw [iterate, hbegin, ok_bind]
  cases (s.mem.map fun c => c.val.capacity + 1).sum with
  | zero => exact if_pos rfl
  | succ fuel => exact if_pos rfl

end ByteBuffer

end Ocudu.Support
