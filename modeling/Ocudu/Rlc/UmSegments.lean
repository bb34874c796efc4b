import Ocudu.Rlc.RxUm

/-! The segments into which one SDU is cut, and how the UM receiver puts them together again. -/

namespace Ocudu.Rlc

inductive Cut : Nat → List UInt8 → List RlcRxAmSduSegment → List UInt8 → Prop
  | nil {so : Nat} {left : List UInt8} (hleft : left ≠ []) : Cut so left [] left
  | last {so : Nat} {payload : List UInt8} (hso : 0 < so) (hpay : payload ≠ []) :
    Cut so payload [{ si := .lastSegment, so, payload }] []
  | cons {so : Nat} {payload bytes : List UInt8} {segs : List RlcRxAmSduSegment} {left : List UInt8}
    (hpay : payload ≠ []) (hcut : Cut (so + payload.length) bytes segs left) :
    Cut so (payload ++ bytes)
      ({ si := if so = 0 then .firstSegment else .middleSegment, so, payload } :: segs) left

def RlcRxAmSduSegment.Before (a b : RlcRxAmSduSegment) : Prop := a.so + a.payload.length ≤ b.so

def RlcRxAmSduSegment.SoLt (a b : RlcRxAmSduSegment) : Prop := a.so < b.so

instance : Std.Antisymm RlcRxAmSduSegment.SoLt := ⟨fun _ _ hab hba => absurd hab (Nat.lt_asymm hba)⟩

instance : Std.Irrefl RlcRxAmSduSegment.SoLt := ⟨fun _ h => Nat.lt_irrefl _ h⟩

structure RlcRxAmSduSegment.Sendable (seg : RlcRxAmSduSegment) : Prop where
  payload_ne : seg.payload ≠ []
  si_ne : seg.si ≠ .fullSdu
  so_iff : seg.so ≠ 0 ↔ seg.si = .lastSegment ∨ seg.si = .middleSegment

namespace Cut

variable {so : Nat} {bytes left payload : List UInt8} {segs held : List RlcRxAmSduSegment}
  {seg : RlcRxAmSduSegment}

theorem bytes_eq (h : Cut so bytes segs left) : bytes = (segs.map (·.payload)).flatten ++ left := by
  induction h with
  | nil => rfl
  | last => simp
  | cons _ _ ih => rw [List.map_cons, List.flatten_cons, List.append_assoc, ← ih]

theorem snoc (h : Cut so bytes segs (payload ++ left)) (hpay : payload ≠ []) (hleft : left ≠ [])
    {pos : Nat} (hpos : pos + (payload ++ left).length = so + bytes.length) :
    Cut so bytes (segs ++ [{ si := if pos = 0 then .firstSegment else .middleSegment, so := pos
                             payload }]) left := by
  generalize hrest : payload ++ left = rest at h
  induction h with
  | nil =>
    rw [← hrest] at hpos ⊢
    have heq : pos = _ := Nat.add_right_cancel hpos
    rw [heq]
    exact .cons hpay (.nil hleft)
  | last => simp_all
  | @cons so' p bytes' segs' left' hp hcut ih =>
    refine .cons hp (ih ?_ hrest)
    rw [hpos, List.length_append]
    omega

section

variable (h : Cut so bytes segs left)
include h

theorem snoc_last (hleft : left ≠ []) {pos : Nat} (hpos : 0 < pos)
    (heq : pos + left.length = so + bytes.length) :
    Cut so bytes (segs ++ [{ si := .lastSegment, so := pos, payload := left }]) [] := by
  induction h with
  | nil =>
    rw [Nat.add_right_cancel heq] at hpos ⊢
    exact .last hpos hleft
  | last => exact absurd rfl hleft
  | cons hp hcut ih =>
    refine .cons hp (ih hleft ?_)
    rw [heq, List.length_append]
    omega

theorem mem_bounds (hseg : seg ∈ segs) :
    so ≤ seg.so ∧ seg.so + seg.payload.length ≤ so + bytes.length := by
  induction h with
  | nil => cases hseg
  | last =>
    rw [List.mem_singleton] at hseg
    rw [hseg]
    exact ⟨le_rfl, le_rfl⟩
  | cons hp hcut ih =>
    rw [List.length_append]
    cases hseg with
    | head =>
      simp only
      omega
    | tail _ hseg =>
      have := ih hseg
      omega

theorem sendable (hseg : seg ∈ segs) : seg.Sendable := by
  induction h with
  | nil => cases hseg
  | last hso hpay =>
    rw [List.mem_singleton] at hseg
    rw [hseg]
    refine ⟨hpay, by simp, ?_⟩
    simp only [true_or, iff_true]
    omega
  | @cons so' _ _ _ _ hp hcut ih =>
    cases hseg with
    | head =>
      refine ⟨hp, ?_, ?_⟩
      · simp only
        split_ifs <;> simp
      · simp only
        split_ifs with hzero <;> simp [hzero]
    | tail _ hseg => exact ih hseg

theorem pairwise : segs.Pairwise RlcRxAmSduSegment.Before := by
  induction h with
  | nil => exact .nil
  | last => exact List.pairwise_singleton _ _
  | cons _ hcut ih => exact .cons (fun seg hseg => (hcut.mem_bounds hseg).1) ih

theorem apart {a b : RlcRxAmSduSegment} (ha : a ∈ segs) (hb : b ∈ segs)
    (hne : a ≠ b) : a.Before b ∨ b.Before a := by
  have : Std.Symm fun a b : RlcRxAmSduSegment => a.Before b ∨ b.Before a := ⟨fun _ _ => Or.symm⟩
  have hpair : segs.Pairwise fun a b => a.Before b ∨ b.Before a := h.pairwise.imp fun hab => Or.inl hab
  exact hpair.forall ha hb hne

theorem pairwise_soLt : segs.Pairwise RlcRxAmSduSegment.SoLt := by
  refine h.pairwise.imp_of_mem fun {a b} ha _ hab => ?_
  have hlen : 0 < a.payload.length := List.length_pos_of_ne_nil (h.sendable ha).payload_ne
  exact Nat.lt_of_lt_of_le (Nat.lt_add_of_pos_right hlen) hab

theorem nodup : segs.Nodup := h.pairwise_soLt.nodup

theorem inventory_eq :
    RlcRxAmSduInfo.inventory segs so = (decide (left = []), false) := by
  induction h with
  | nil hleft => simp [RlcRxAmSduInfo.inventory, hleft]
  | last => simp [RlcRxAmSduInfo.inventory]
  | @cons so' _ _ _ _ _ _ ih =>
    have hsi : (if so' = 0 then RlcSiField.firstSegment else .middleSegment) ≠ .lastSegment := by
      split_ifs <;> simp
    simp only [RlcRxAmSduInfo.inventory, ne_eq, not_true_eq_false, if_false, hsi, ih]

theorem bytes_ne_nil : bytes ≠ [] := by
  cases h with
  | nil hleft => exact hleft
  | last _ hpay => exact hpay
  | cons hpay => simp [hpay]

end

theorem take {rest : List RlcRxAmSduSegment} (h : Cut so bytes (segs ++ rest) left) :
    ∃ left', Cut so bytes segs left' ∧ (left' = [] ↔ rest = [] ∧ left = []) := by
  induction segs generalizing so bytes with
  | nil =>
    have hne := h.bytes_ne_nil
    refine ⟨bytes, .nil hne, ⟨fun hc => absurd hc hne, ?_⟩⟩
    rintro ⟨rfl, rfl⟩
    cases h
    rfl
  | cons seg segs ih =>
    generalize hall : (seg :: segs) ++ rest = all at h
    cases h with
    | nil => cases hall
    | last hso hpay =>
      obtain ⟨rfl, hnil⟩ := List.cons.inj hall
      obtain ⟨rfl, rfl⟩ := List.append_eq_nil_iff.mp hnil
      exact ⟨[], .last hso hpay, by simp⟩
    | cons hpay hcut =>
      obtain ⟨rfl, rfl⟩ := List.cons.inj hall
      obtain ⟨left', hcut', hiff⟩ := ih hcut
      exact ⟨left', .cons hpay hcut', hiff⟩

theorem eq_of_fullyReceived (h : Cut so bytes segs left) (hsub : held.Sublist segs)
    (hfull : (RlcRxAmSduInfo.inventory held so).1 = true) : held = segs ∧ left = [] := by
  induction h generalizing held with
  | nil =>
    cases hsub
    cases hfull
  | last =>
    rcases List.sublist_singleton.mp hsub with rfl | rfl
    · cases hfull
    · exact ⟨rfl, rfl⟩
  | @cons so' p _ _ _ hp hcut ih =>
    have hlen : 0 < p.length := List.length_pos_of_ne_nil hp
    cases hsub with
    | cons _ hsub =>
      -- the first segment is missing
      cases held with
      | nil => cases hfull
      | cons first held =>
        have hfirst := (hcut.mem_bounds (hsub.subset List.mem_cons_self)).1
        have hne : first.so ≠ so' := by omega
        simp [RlcRxAmSduInfo.inventory, hne] at hfull
    | cons_cons _ hsub =>
      have hsi : (if so' = 0 then RlcSiField.firstSegment else .middleSegment) ≠ .lastSegment := by
        split_ifs <;> simp
      simp only [RlcRxAmSduInfo.inventory, ne_eq, not_true_eq_false, if_false, hsi] at hfull
      obtain ⟨hheld, hleft⟩ := ih hsub hfull
      exact ⟨by rw [hheld], hleft⟩

end Cut

section Store

variable {held : List RlcRxAmSduSegment} {seg : RlcRxAmSduSegment}

theorem storeLoop_apart (hpay : seg.payload ≠ []) (hheld : ∀ cur ∈ held, cur.payload ≠ [])
    (hapart : ∀ cur ∈ held, cur.Before seg ∨ seg.Before cur) :
    storeLoop held seg = some (held, none, seg) := by
  have hlen : 0 < seg.payload.length := List.length_pos_of_ne_nil hpay
  induction held with
  | nil => rfl
  | cons cur held ih =>
    have hcur : 0 < cur.payload.length := List.length_pos_of_ne_nil (hheld cur List.mem_cons_self)
    have hrest := ih (fun c hc => hheld c (List.mem_cons_of_mem _ hc))
      (fun c hc => hapart c (List.mem_cons_of_mem _ hc))
    unfold storeLoop RlcRxAmSduSegment.lastByte
    rcases hapart cur List.mem_cons_self with h | h
    · unfold RlcRxAmSduSegment.Before at h
      rw [if_pos (by omega), hrest]
      rfl
    · unfold RlcRxAmSduSegment.Before at h
      rw [if_neg (by omega), if_neg (by omega), if_pos (by omega)]

theorem setInsert_perm (hne : ∀ cur ∈ held, cur.so ≠ seg.so) :
    List.Perm (setInsert seg held) (seg :: held) := by
  induction held with
  | nil => exact .refl _
  | cons cur held ih =>
    unfold setInsert
    split_ifs with h1 h2
    · exact .refl _
    · exact ((ih fun c hc => hne c (List.mem_cons_of_mem _ hc)).cons cur).trans (.swap seg cur held)
    · exact absurd (Nat.le_antisymm (Nat.not_lt.mp h1) (Nat.not_lt.mp h2)) (hne cur List.mem_cons_self)

theorem mem_setInsert {cur : RlcRxAmSduSegment} (h : cur ∈ setInsert seg held) :
    cur = seg ∨ cur ∈ held := by
  induction held with
  | nil => exact .inl (List.mem_singleton.mp h)
  | cons first held ih =>
    unfold setInsert at h
    split_ifs at h
    · exact List.mem_cons.mp h
    · rcases List.mem_cons.mp h with rfl | h
      · exact .inr List.mem_cons_self
      · exact (ih h).imp_right (List.mem_cons_of_mem _)
    · exact .inr h

theorem setInsert_pairwise (h : held.Pairwise RlcRxAmSduSegment.SoLt) :
    (setInsert seg held).Pairwise RlcRxAmSduSegment.SoLt := by
  induction h with
  | nil => exact List.pairwise_singleton _ _
  | @cons cur held hcur hheld ih =>
    unfold setInsert
    split_ifs with h1 h2
    · refine .cons (fun c hc => ?_) (.cons hcur hheld)
      rcases List.mem_cons.mp hc with rfl | hc
      · exact h1
      · exact h1.trans (hcur c hc)
    · refine .cons (fun c hc => ?_) ih
      rcases mem_setInsert hc with rfl | hc
      · exact h2
      · exact hcur c hc
    · exact .cons hcur hheld

theorem Cut.storedSegments_eq {so : Nat} {bytes left : List UInt8} {segs : List RlcRxAmSduSegment}
    (h : Cut so bytes segs left) (hheld : held.Sublist segs) (hseg : seg ∈ segs) (hnot : seg ∉ held) :
    ∃ stored, storedSegments held seg = some stored ∧ stored.Sublist segs ∧
      List.Perm stored (seg :: held) := by
  have hne : ∀ cur ∈ held, cur.payload ≠ [] := fun cur hcur => (h.sendable (hheld.subset hcur)).payload_ne
  have hapart : ∀ cur ∈ held, cur.Before seg ∨ seg.Before cur := by
    intro cur hcur
    exact h.apart (hheld.subset hcur) hseg fun heq => hnot (heq ▸ hcur)
  have hso : ∀ cur ∈ held, cur.so ≠ seg.so := by
    intro cur hcur heq
    have hlen : 0 < seg.payload.length := List.length_pos_of_ne_nil (h.sendable hseg).payload_ne
    have hcur' : 0 < cur.payload.length := List.length_pos_of_ne_nil (hne cur hcur)
    have hcase := hapart cur hcur
    unfold RlcRxAmSduSegment.Before at hcase
    omega
  have hperm := setInsert_perm hso
  refine ⟨setInsert seg held, ?_, ?_, hperm⟩
  · rw [storedSegments, storeLoop_apart (h.sendable hseg).payload_ne hne hapart]
    rfl
  · have hnodup : (seg :: held).Nodup := List.nodup_cons.mpr ⟨hnot, h.nodup.sublist hheld⟩
    have hsub : (seg :: held) ⊆ segs := List.cons_subset.mpr ⟨hseg, hheld.subset⟩
    exact List.sublist_of_subperm_of_pairwise (hperm.subperm.trans (List.subperm_of_subset hnodup hsub))
      (setInsert_pairwise (h.pairwise_soLt.sublist hheld)) h.pairwise_soLt

end Store

theorem Cut.storedSegments_snoc {so : Nat} {bytes left : List UInt8} {held : List RlcRxAmSduSegment}
    {seg : RlcRxAmSduSegment} (h : Cut so bytes (held ++ [seg]) left) :
    storedSegments held seg = some (held ++ [seg]) := by
  have hnodup := h.nodup
  have hnot : seg ∉ held := by
    rw [List.nodup_append] at hnodup
    exact fun hmem => hnodup.2.2 seg hmem seg (List.mem_singleton_self seg) rfl
  obtain ⟨stored, heq, hsub, hperm⟩ := h.storedSegments_eq (List.sublist_append_left held [seg])
    (List.mem_append_right _ (List.mem_singleton_self seg)) hnot
  rw [heq]
  congr 1
  refine (hperm.trans ?_).eq_of_pairwise' (h.pairwise_soLt.sublist hsub) h.pairwise_soLt
  exact (List.perm_append_singleton seg held).symm

theorem foldlM_chainAppend (maxSlices : Nat) (slices chain : List (List UInt8))
    (hne : ∀ slice ∈ slices, slice ≠ []) (hchain : chain.length ≤ maxSlices) :
    slices.foldlM (RlcRxAmSduInfo.chainAppend maxSlices) chain =
      if chain.length + slices.length ≤ maxSlices then some (chain ++ slices) else none := by
  induction slices generalizing chain with
  | nil => simp [hchain]
  | cons slice slices ih =>
    have hslice : slice.isEmpty = false := by simpa using hne slice List.mem_cons_self
    rw [List.foldlM_cons, RlcRxAmSduInfo.chainAppend, hslice]
    by_cases hfull : chain.length = maxSlices
    · simp [hfull]
    · simp only [Bool.false_eq_true, if_false, if_neg hfull, Option.bind_eq_bind, Option.bind_some]
      rw [ih (chain ++ [slice]) (fun c hc => hne c (List.mem_cons_of_mem _ hc))
        (by rw [List.length_append, List.length_singleton]; omega)]
      simp only [List.length_append, List.length_cons, List.length_nil, List.append_assoc,
        List.cons_append, List.nil_append]
      congr 1
      rw [eq_iff_iff]
      omega

theorem Cut.reassembleSdu_eq {bytes : List UInt8} {info : RlcRxUmSduInfo}
    (h : Cut 0 bytes info.segments []) (maxSlices : Nat) :
    info.reassembleSdu maxSlices = if info.segments.length ≤ maxSlices then some bytes else none := by
  have hne : ∀ slice ∈ info.segments.map (·.payload), slice ≠ [] := by
    intro slice hslice
    obtain ⟨seg, hseg, rfl⟩ := List.mem_map.mp hslice
    exact (h.sendable hseg).payload_ne
  have hbytes := h.bytes_eq
  rw [List.append_nil] at hbytes
  rw [RlcRxUmSduInfo.reassembleSdu, foldlM_chainAppend _ _ _ hne (Nat.zero_le _), hbytes]
  simp only [List.length_nil, Nat.zero_add, List.length_map, List.nil_append]
  split_ifs <;> rfl

end Ocudu.Rlc
