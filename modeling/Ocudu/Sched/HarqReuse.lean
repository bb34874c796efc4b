import Ocudu.Sched.HarqModes

/-! The index of a UE is used again: what is left of the UE that had it before. -/

namespace Ocudu.Sched

def HarqOp.OnUe (i : Nat) : HarqOp → Prop
  | .event (.slotIndication _) => True
  | .event .stop => False
  | .event (.allocHarq ueIdx _ _ _ _) => ueIdx = i
  | .event (.newRetx r _ _) => r.ueIdx = i
  | .event (.ack r _) => r.ueIdx = i
  | .event (.cancelRetxs r) => r.ueIdx = i
  | .event (.deallocHarq r) => r.ueIdx = i
  | .event (.reserveUeHarqs ueIdx _) => ueIdx = i
  | .event (.extendUeHarqs ueIdx _) => ueIdx = i
  | .event (.destroyUe ueIdx) => ueIdx = i
  | .reconfigure ueIdx _ _ _ => ueIdx = i

namespace CellHarqRepository

variable (cfg : CellHarqConfig)

def allocResult (p : Option HarqRef × CellHarqRepository) : Option (Nat × Bool) :=
  p.1.bind fun r => (p.2.find r).map fun h => (r.hId, h.ndi)

def runOp (s : CellHarqRepository) : HarqOp →
    Except HarqFault (List (Option (Nat × Bool)) × CellHarqRepository)
  | .event (.allocHarq ueIdx slTx slAck maxNofHarqRetxs selectNormalMode) =>
    (s.allocHarq cfg ueIdx slTx slAck maxNofHarqRetxs selectNormalMode).map fun p => ([allocResult p], p.2)
  | op => (s.stepOp cfg op).map fun t => ([], t)

def allocTrace : CellHarqRepository → List HarqOp → List (Option (Nat × Bool)) × Option HarqFault
  | _, [] => ([], none)
  | s, op :: ops =>
    match s.runOp cfg op with
    | .ok (out, t) => (out ++ (allocTrace t ops).1, (allocTrace t ops).2)
    | .error f => ([], some f)

def newAt (s : CellHarqRepository) : CellHarqRepository :=
  { new with lastSlInd := s.lastSlInd, indications := s.indications }

/-- The two repositories have the same for UE `i`, but for the slots that were recorded last. -/
structure SameUe (i : Nat) (s t : CellHarqRepository) : Prop where
  harqs : (s.ues i).harqs = (t.ues i).harqs
  free : (s.ues i).freeHarqIds = (t.ues i).freeHarqIds
  flag : (s.ues i).feedbackDisabledOrModeBHarqPresent = (t.ues i).feedbackDisabledOrModeBHarqPresent
  wheel : ∀ b, (s.harqTimeoutWheel b).filter (·.ueIdx = i) = (t.harqTimeoutWheel b).filter (·.ueIdx = i)
  pending : s.harqPendingRetxList.filter (·.ueIdx = i) = t.harqPendingRetxList.filter (·.ueIdx = i)
  lastSlInd : s.lastSlInd = t.lastSlInd
  indications : s.indications = t.indications

variable {cfg} {i : Nat} {s t u : CellHarqRepository} {r : HarqRef} {h p : HarqProcess}

theorem SameUe.refl (i : Nat) (s : CellHarqRepository) : SameUe i s s :=
  ⟨rfl, rfl, rfl, fun _ => rfl, rfl, rfl, rfl⟩

theorem SameUe.symm (hs : SameUe i s t) : SameUe i t s :=
  ⟨hs.harqs.symm, hs.free.symm, hs.flag.symm, fun b => (hs.wheel b).symm, hs.pending.symm, hs.lastSlInd.symm,
    hs.indications.symm⟩

theorem SameUe.trans (h₁ : SameUe i s t) (h₂ : SameUe i t u) : SameUe i s u :=
  ⟨h₁.harqs.trans h₂.harqs, h₁.free.trans h₂.free, h₁.flag.trans h₂.flag,
    fun b => (h₁.wheel b).trans (h₂.wheel b), h₁.pending.trans h₂.pending, h₁.lastSlInd.trans h₂.lastSlInd,
    h₁.indications.trans h₂.indications⟩

/-! Lists of processes of several UEs -/

theorem filter_erase_self {l : List HarqRef} (hr : r.ueIdx = i) :
    (l.erase r).filter (·.ueIdx = i) = (l.filter (·.ueIdx = i)).erase r := by
  induction l with
  | nil => rfl
  | cons a l ih =>
    by_cases ha : a = r
    · subst ha
      rw [List.erase_cons_head, List.filter_cons_of_pos (by simpa using hr), List.erase_cons_head]
    · rw [List.erase_cons_tail (by simpa using ha)]
      by_cases hi : a.ueIdx = i
      · rw [List.filter_cons_of_pos (by simpa using hi), List.filter_cons_of_pos (by simpa using hi),
          List.erase_cons_tail (by simpa using ha), ih]
      · rw [List.filter_cons_of_neg (by simpa using hi), List.filter_cons_of_neg (by simpa using hi), ih]

theorem filter_erase_other {l : List HarqRef} (hr : r.ueIdx ≠ i) :
    (l.erase r).filter (·.ueIdx = i) = l.filter (·.ueIdx = i) := by
  induction l with
  | nil => rfl
  | cons a l ih =>
    by_cases ha : a = r
    · subst ha
      rw [List.erase_cons_head, List.filter_cons_of_neg (by simpa using hr)]
    · rw [List.erase_cons_tail (by simpa using ha), List.filter_cons, List.filter_cons, ih]

theorem mem_filter_ue {l : List HarqRef} (hr : r.ueIdx = i) : r ∈ l ↔ r ∈ l.filter (·.ueIdx = i) := by
  simp [List.mem_filter, hr]

namespace SameUe

section

variable (hs : SameUe i s t)
include hs

theorem find (hr : r.ueIdx = i) : s.find r = t.find r := by
  rw [CellHarqRepository.find, CellHarqRepository.find, hr, hs.harqs]

theorem get (hr : r.ueIdx = i) : s.get r = t.get r := by
  rw [CellHarqRepository.get, CellHarqRepository.get, hs.find hr]

theorem updateUe {f g : UeHarqEntity → UeHarqEntity}
    (hharqs : (f (s.ues i)).harqs = (g (t.ues i)).harqs)
    (hfree : (f (s.ues i)).freeHarqIds = (g (t.ues i)).freeHarqIds)
    (hflag : (f (s.ues i)).feedbackDisabledOrModeBHarqPresent =
      (g (t.ues i)).feedbackDisabledOrModeBHarqPresent) : SameUe i (s.updateUe i f) (t.updateUe i g) := by
  refine ⟨?_, ?_, ?_, hs.wheel, hs.pending, hs.lastSlInd, hs.indications⟩
  · simpa [CellHarqRepository.updateUe] using hharqs
  · simpa [CellHarqRepository.updateUe] using hfree
  · simpa [CellHarqRepository.updateUe] using hflag

theorem setHarq (hr : r.ueIdx = i) (p : HarqProcess) :
    SameUe i (s.setHarq r p) (t.setHarq r p) := by
  unfold CellHarqRepository.setHarq
  rw [hr]
  exact hs.updateUe (by rw [hs.harqs]) hs.free hs.flag

theorem pushTimeout (hr : r.ueIdx = i) (sl : SlotPoint) :
    SameUe i (s.pushTimeout cfg r sl) (t.pushTimeout cfg r sl) := by
  refine ⟨hs.harqs, hs.free, hs.flag, fun b => ?_, hs.pending, hs.lastSlInd, hs.indications⟩
  simp only [CellHarqRepository.pushTimeout]
  split_ifs
  · rw [List.filter_cons_of_pos (by simpa using hr), List.filter_cons_of_pos (by simpa using hr), hs.wheel]
  · exact hs.wheel b

theorem pushPendingRetx (r : HarqRef) :
    SameUe i (s.pushPendingRetx r) (t.pushPendingRetx r) := by
  refine ⟨hs.harqs, hs.free, hs.flag, hs.wheel, ?_, hs.lastSlInd, hs.indications⟩
  simp only [CellHarqRepository.pushPendingRetx, List.filter_append, hs.pending]

section

variable (hr : r.ueIdx = i)
include hr

theorem popTimeout (sl : SlotPoint) :
    Alike (SameUe i) (s.popTimeout cfg r sl) (t.popTimeout cfg r sl) := by
  refine .ite ?_ (fun _ => .ok ?_) fun _ => .error _
  · rw [mem_filter_ue hr, hs.wheel, ← mem_filter_ue hr]
  · refine ⟨hs.harqs, hs.free, hs.flag, fun b => ?_, hs.pending, hs.lastSlInd, hs.indications⟩
    simp only
    split_ifs
    · rw [filter_erase_self hr, filter_erase_self hr, hs.wheel]
    · exact hs.wheel b

theorem popPendingRetx :
    Alike (SameUe i) (s.popPendingRetx r) (t.popPendingRetx r) := by
  refine .ite ?_ (fun _ => .ok ?_) fun _ => .error _
  · rw [mem_filter_ue hr, hs.pending, ← mem_filter_ue hr]
  · refine ⟨hs.harqs, hs.free, hs.flag, hs.wheel, ?_, hs.lastSlInd, hs.indications⟩
    simp only [filter_erase_self hr, hs.pending]

theorem withGet {β : Type} (hl : Linked cfg s) {R : β → β → Prop}
    {f g : HarqProcess → Except HarqFault β} (hfg : ∀ h, s.find r = some h → h.ueIdx = i → Alike R (f h) (g h)) :
    Alike R (s.get r >>= f) (t.get r >>= g) := by
  rw [← hs.get hr]
  cases hf : s.find r with
  | none =>
    rw [get_error hf]
    exact .error _
  | some h =>
    rw [get_ok hf]
    exact hfg h hf ((hl.ueIdx r h hf).trans hr)

theorem release (hu : h.ueIdx = i) :
    Alike (SameUe i)
      (s.popTimeout cfg r h.slotTimeout >>= fun s => pure ((s.setHarq r h.dealloc).updateUe h.ueIdx fun ue => { ue with
        lastSlotTx := forgetSlot ue.lastSlotTx h.slotTx
        lastSlotAck := forgetSlot ue.lastSlotAck h.slotAck
        freeHarqIds := ue.freeHarqIds ++ [h.hId] }))
      (t.popTimeout cfg r h.slotTimeout >>= fun t => pure ((t.setHarq r h.dealloc).updateUe h.ueIdx fun ue => { ue with
        lastSlotTx := forgetSlot ue.lastSlotTx h.slotTx
        lastSlotAck := forgetSlot ue.lastSlotAck h.slotAck
        freeHarqIds := ue.freeHarqIds ++ [h.hId] })) := by
  refine (hs.popTimeout hr _).bind fun s t hs => .ok ?_
  have hset := hs.setHarq hr h.dealloc
  rw [hu]
  refine hset.updateUe hset.harqs ?_ hset.flag
  simp only [hset.free]

theorem deallocHarq (hl : Linked cfg s) :
    Alike (SameUe i) (s.deallocHarq cfg r) (t.deallocHarq cfg r) := by
  refine hs.withGet hr hl fun h _ hu => ?_
  refine .ite .rfl (fun _ => .ok hs) fun _ => .ite .rfl (fun _ => ?_) fun _ => ?_
  · exact (hs.popPendingRetx hr).bind fun s t hs => hs.release hr hu
  · exact hs.release hr hu

theorem setPendingRetx (hl : Linked cfg s) :
    Alike (SameUe i) (s.setPendingRetx cfg r) (t.setPendingRetx cfg r) := by
  refine hs.withGet hr hl fun h _ _ => ?_
  cases h.status with
  | empty => exact .error _
  | pendingRetx => exact .ok hs
  | waitingAck =>
    refine (hs.popTimeout hr _).bind fun s t hs => .ok ?_
    rw [hs.lastSlInd, hs.indications]
    exact ((hs.setHarq hr _).pushTimeout hr _).pushPendingRetx r

theorem handleAck (hl : Linked cfg s) (ack : Bool) :
    Alike (SameUe i) (s.handleAck cfg r ack) (t.handleAck cfg r ack) := by
  refine hs.withGet hr hl fun h _ _ => ?_
  refine .ite .rfl (fun _ => .error _) fun _ => .ite .rfl (fun _ => ?_) fun _ => ?_
  · exact hs.deallocHarq hr hl
  · exact hs.setPendingRetx hr hl

theorem handleNewRetx (hl : Linked cfg s) (slTx slAck : SlotPoint) :
    Alike (fun a b => SameUe i a.2 b.2) (s.handleNewRetx cfg r slTx slAck) (t.handleNewRetx cfg r slTx slAck) := by
  refine hs.withGet hr hl fun h _ hu => ?_
  refine .ite .rfl (fun _ => .ok hs) fun _ => ?_
  refine (hs.popPendingRetx hr).bind fun s t hs => (hs.popTimeout hr _).bind fun s t hs => .ok ?_
  have hrec : SameUe i (s.updateUe i (recordTx slTx slAck)) (t.updateUe i (recordTx slTx slAck)) :=
    hs.updateUe hs.harqs hs.free hs.flag
  have hahead : s.slotsAhead slAck = t.slotsAhead slAck := by
    rw [slotsAhead, slotsAhead, hs.lastSlInd]
  rw [hs.indications, hahead, hu]
  exact (hrec.setHarq hr _).pushTimeout hr _

theorem cancelRetxs (hl : Linked cfg s) :
    Alike (SameUe i) (s.cancelRetxs cfg r) (t.cancelRetxs cfg r) := by
  refine hs.withGet hr hl fun h _ _ => ?_
  cases h.status with
  | empty => exact .ok hs
  | pendingRetx => exact hs.deallocHarq hr hl
  | waitingAck => exact .ok (hs.setHarq hr _)

end

theorem selectHarqId (b : Bool) : selectHarqId cfg (s.ues i) b = selectHarqId cfg (t.ues i) b := by
  simp only [CellHarqRepository.selectHarqId, hs.harqs, hs.free, hs.flag]

theorem allocHarq (hl : Linked cfg s) (slTx slAck : SlotPoint) (n : Nat) (b : Bool) :
    Alike (fun x y => allocResult x = allocResult y ∧ SameUe i x.2 y.2) (s.allocHarq cfg i slTx slAck n b)
      (t.allocHarq cfg i slTx slAck n b) := by
  refine .ite .rfl (fun _ => .error _) fun _ => ?_
  rw [hs.selectHarqId]
  cases hlast : (CellHarqRepository.selectHarqId cfg (t.ues i) b).bind List.getLast? with
  | none => exact .ok ⟨rfl, hs⟩
  | some hId =>
    have hr : (HarqRef.mk i hId).ueIdx = i := rfl
    refine hs.withGet hr hl fun h hf hu => .ite .rfl (fun _ => .error _) fun _ => .ok ?_
    have hahead : s.slotsAhead slAck = t.slotsAhead slAck := by
      rw [slotsAhead, slotsAhead, hs.lastSlInd]
    rw [hs.indications, hahead]
    have hrec : SameUe i
        (s.updateUe i fun ue => recordTx slTx slAck { ue with
          freeHarqIds := ((CellHarqRepository.selectHarqId cfg (t.ues i) b).getD []).dropLast })
        (t.updateUe i fun ue => recordTx slTx slAck { ue with
          freeHarqIds := ((CellHarqRepository.selectHarqId cfg (t.ues i) b).getD []).dropLast }) :=
      hs.updateUe hs.harqs rfl hs.flag
    have hsame := fun p sl => @SameUe.pushTimeout cfg _ _ _ _ (hrec.setHarq hr p) hr sl
    refine ⟨?_, hsame _ _⟩
    simp only [allocResult, Option.bind_some]
    rw [(hsame _ _).find hr]

theorem reserveUeHarqs (n : Nat) :
    Alike (SameUe i) (s.reserveUeHarqs cfg i n) (t.reserveUeHarqs cfg i n) := by
  refine .ite .rfl (fun _ => .error _) fun _ => .ite .rfl (fun _ => .error _) fun _ => ?_
  refine .ite (by rw [hs.harqs]) (fun _ => .error _) fun _ => .ok (hs.updateUe ?_ rfl hs.flag)
  rw [hs.harqs]

theorem extendUeHarqs (n : Nat) :
    Alike (SameUe i) (s.extendUeHarqs cfg i n) (t.extendUeHarqs cfg i n) := by
  unfold CellHarqRepository.extendUeHarqs
  rw [hs.harqs]
  refine .ite .rfl (fun _ => .error _) fun _ => .ite .rfl (fun _ => .error _) fun _ => ?_
  refine .ite .rfl (fun _ => .error _) fun _ => .ok (hs.updateUe ?_ ?_ hs.flag)
  · simp only [hs.harqs]
  · simp only [hs.free]

theorem setModes (disabled : List Bool) (b : Bool) :
    Alike (SameUe i) (s.setModes i disabled b) (t.setModes i disabled b) := by
  refine .ite .rfl (fun _ => .ok hs) fun _ => .ite .rfl (fun _ => .error _) fun _ => ?_
  refine .ite (by rw [hs.harqs]) (fun _ => .error _) fun _ => .ok (hs.updateUe ?_ hs.free rfl)
  rw [applyMask, applyMask, hs.harqs]

theorem reconfigure (n : Nat) (disabled : List Bool) (b : Bool) :
    Alike (SameUe i) (s.reconfigure cfg i n disabled b) (t.reconfigure cfg i n disabled b) := by
  refine .ite (by rw [hs.harqs]) (fun _ => .error _) fun _ => ?_
  refine .ite (by rw [hs.harqs]) (fun _ => .error _) fun _ => .ite .rfl (fun _ => .ok hs) fun _ => ?_
  refine Alike.bind (.ite (by rw [hs.harqs]) (fun _ => ?_) fun _ => .ok hs) fun s t hs => hs.setModes disabled b
  exact hs.extendUeHarqs n

theorem deallocAll {hIds : List Nat} (hl : Linked cfg s) :
    Alike (SameUe i) (s.deallocAll cfg i hIds) (t.deallocAll cfg i hIds) := by
  induction hIds generalizing s t with
  | nil => exact .ok hs
  | cons hId hIds ih =>
    refine (hs.deallocHarq rfl hl).eq_left.bind fun u v huv => ?_
    exact ih huv.2 (deallocHarq_emptied hl huv.1).1.linked

theorem destroyUe (hl : Linked cfg s) :
    Alike (SameUe i) (s.destroyUe cfg i) (t.destroyUe cfg i) := by
  refine .ite .rfl (fun _ => .error _) fun _ => ?_
  rw [hs.harqs]
  exact (hs.deallocAll hl).bind fun s t hs => .ok (hs.updateUe rfl rfl hs.flag)

end

theorem discarded (i : Nat) (s : CellHarqRepository) (d : HarqDiscard) : SameUe i s (s.discarding d) :=
  ⟨rfl, rfl, rfl, fun _ => rfl, rfl, rfl, rfl⟩

theorem handleHarqAckTimeout (hs : SameUe i s t) (hl : Linked cfg s) (hr : r.ueIdx = i) (slTx : SlotPoint) :
    Alike (SameUe i) (s.handleHarqAckTimeout cfg r slTx) (t.handleHarqAckTimeout cfg r slTx) := by
  refine hs.withGet hr hl fun h _ _ => .ite .rfl (fun _ => .error _) fun _ => ?_
  exact SameUe.deallocHarq ((discarded i s _).symm.trans (hs.trans (discarded i t _))) hr (hl.discarding _)

end SameUe

theorem deallocHarq_other (hl : Linked cfg s) (hr : r.ueIdx ≠ i) (ht : s.deallocHarq cfg r = .ok t) :
    SameUe i s t ∧ t.ues i = s.ues i := by
  cases hf : s.find r with
  | none =>
    simp only [deallocHarq, get_error hf, error_bind] at ht
    cases ht
  | some h =>
    by_cases he : h.status = .empty
    · rw [deallocHarq_empty hf he] at ht
      cases ht
      exact ⟨.refl i s, rfl⟩
    · rw [deallocHarq_eq hf hl he] at ht
      cases ht
      have hues : (((((s.unlinkPendingRetx r).unlinkTimeout cfg r h.slotTimeout).setHarq r h.dealloc).updateUe r.ueIdx
          fun ue => { ue with
            lastSlotTx := forgetSlot ue.lastSlotTx h.slotTx
            lastSlotAck := forgetSlot ue.lastSlotAck h.slotAck
            freeHarqIds := ue.freeHarqIds ++ [r.hId] }).ues i) = s.ues i := by
        simp [updateUe, setHarq, unlinkTimeout, unlinkPendingRetx, hr.symm]
      refine ⟨⟨by rw [hues], by rw [hues], by rw [hues], fun b => ?_, ?_, rfl, rfl⟩, hues⟩
      · simp only [updateUe, setHarq, unlinkTimeout]
        split_ifs
        · exact (filter_erase_other hr).symm
        · rfl
      · exact (filter_erase_other hr).symm

theorem handleHarqAckTimeout_other {slTx : SlotPoint} (hl : Linked cfg s) (hr : r.ueIdx ≠ i)
    (ht : s.handleHarqAckTimeout cfg r slTx = .ok t) : SameUe i s t := by
  obtain ⟨h, -, ht⟩ := bind_eq_ok.mp ht
  by_cases he : h.status = .empty
  · rw [if_pos he] at ht
    cases ht
  · rw [if_neg he] at ht
    exact (SameUe.discarded i s _).trans (deallocHarq_other (hl.discarding (s.discardOf r h slTx)) hr ht).1

def expire (cfg : CellHarqConfig) (slTx : SlotPoint) (s : CellHarqRepository) : Except HarqFault CellHarqRepository :=
  s.expireBucket cfg slTx (s.harqTimeoutWheel (cfg.bucket slTx)).length

theorem expire_nil {slTx : SlotPoint} (hw : s.harqTimeoutWheel (cfg.bucket slTx) = []) : s.expire cfg slTx = .ok s := by
  rw [expire, hw]
  exact if_pos hw

theorem expire_cons {slTx : SlotPoint} {rs : List HarqRef} (hl : Linked cfg s)
    (hw : s.harqTimeoutWheel (cfg.bucket slTx) = r :: rs) :
    ∃ u, s.handleHarqAckTimeout cfg r slTx = .ok u ∧ Linked cfg u ∧ u.harqTimeoutWheel (cfg.bucket slTx) = rs ∧
      s.expire cfg slTx = u.expire cfg slTx := by
  obtain ⟨h, hf, hne, hb⟩ := hl.find_wheel (r := r) (b := cfg.bucket slTx) (by simp [hw])
  obtain ⟨u, hu, hk, hwu⟩ := @handleHarqAckTimeout_keeps _ _ _ _ slTx hl hf hne
  have hrest : u.harqTimeoutWheel (cfg.bucket slTx) = rs := by
    rw [hwu]
    simp [unlinkTimeout, ← hb, hw]
  refine ⟨u, hu, hk.linked, hrest, ?_⟩
  rw [expire, expire, hrest, hw, List.length_cons, expireBucket, hw]
  simp only [hu, ok_bind]

theorem expire_skip {slTx : SlotPoint} {rs : List HarqRef} (hl : Linked cfg s)
    (hw : s.harqTimeoutWheel (cfg.bucket slTx) = rs) :
    ∃ u, s.expire cfg slTx = u.expire cfg slTx ∧ SameUe i s u ∧ Linked cfg u ∧
      ∀ r us, u.harqTimeoutWheel (cfg.bucket slTx) = r :: us → r.ueIdx = i := by
  induction rs generalizing s with
  | nil => exact ⟨s, rfl, .refl i s, hl, by simp [hw]⟩
  | cons r rs ih =>
    by_cases hr : r.ueIdx = i
    · refine ⟨s, rfl, .refl i s, hl, fun r' us hw' => ?_⟩
      rw [hw] at hw'
      cases hw'
      exact hr
    · obtain ⟨u, hu, hlu, hwu, heq⟩ := expire_cons hl hw
      obtain ⟨v, hv, huv, hlv, hhead⟩ := ih hlu hwu
      exact ⟨v, heq.trans hv, (handleHarqAckTimeout_other hl hr hu).trans huv, hlv, hhead⟩

theorem eq_nil_of_filter {rs : List HarqRef} (hhead : ∀ r us, rs = r :: us → r.ueIdx = i)
    (hnil : rs.filter (·.ueIdx = i) = []) : rs = [] := by
  cases rs with
  | nil => rfl
  | cons r rs =>
    rw [List.filter_cons_of_pos (by simpa using hhead r rs rfl)] at hnil
    cases hnil

theorem eq_cons_of_filter {rs l : List HarqRef} (hhead : ∀ r us, rs = r :: us → r.ueIdx = i)
    (hcons : rs.filter (·.ueIdx = i) = r :: l) : ∃ us, rs = r :: us := by
  cases rs with
  | nil => cases hcons
  | cons r' rs =>
    rw [List.filter_cons_of_pos (by simpa using hhead r' rs rfl)] at hcons
    cases hcons
    exact ⟨rs, rfl⟩

theorem expire_sameUe {slTx : SlotPoint} {l : List HarqRef} (hs : SameUe i s t) (hl : Linked cfg s)
    (hl' : Linked cfg t) (hi : (s.harqTimeoutWheel (cfg.bucket slTx)).filter (·.ueIdx = i) = l) :
    Alike (SameUe i) (s.expire cfg slTx) (t.expire cfg slTx) := by
  induction l generalizing s t with
  | nil =>
    obtain ⟨u, hu, hsu, -, hhead⟩ := @expire_skip _ i _ slTx _ hl rfl
    obtain ⟨v, hv, htv, -, hhead'⟩ := @expire_skip _ i _ slTx _ hl' rfl
    have hnil := eq_nil_of_filter hhead ((hsu.wheel _).symm.trans hi)
    have hnil' := eq_nil_of_filter hhead' ((htv.wheel _).symm.trans ((hs.wheel _).symm.trans hi))
    rw [hu, hv, expire_nil hnil, expire_nil hnil']
    exact .ok (hsu.symm.trans (hs.trans htv))
  | cons r l ih =>
    obtain ⟨u, hu, hsu, hlu, hhead⟩ := @expire_skip _ i _ slTx _ hl rfl
    obtain ⟨v, hv, htv, hlv, hhead'⟩ := @expire_skip _ i _ slTx _ hl' rfl
    obtain ⟨us, hus⟩ := eq_cons_of_filter hhead ((hsu.wheel _).symm.trans hi)
    obtain ⟨vs, hvs⟩ := eq_cons_of_filter hhead' ((htv.wheel _).symm.trans ((hs.wheel _).symm.trans hi))
    have hr : r.ueIdx = i := hhead r us hus
    have huv := hsu.symm.trans (hs.trans htv)
    obtain ⟨u', hu', hlu', hwu', heq⟩ := expire_cons hlu hus
    obtain ⟨v', hv', hlv', -, heq'⟩ := expire_cons hlv hvs
    have hstep := huv.handleHarqAckTimeout hlu hr slTx
    rw [hu', hv'] at hstep
    cases hstep with
    | ok hsame =>
      rw [hu, hv, heq, heq']
      refine ih hsame hlu' hlv' ?_
      have hw := (hsu.wheel (cfg.bucket slTx)).symm.trans hi
      rw [hus, List.filter_cons_of_pos (by simpa using hr)] at hw
      rw [hwu']
      exact List.tail_eq_of_cons_eq hw

theorem SameUe.indicated (hs : SameUe i s t) (slTx : SlotPoint) : SameUe i (s.indicated slTx) (t.indicated slTx) := by
  refine ⟨hs.harqs, hs.free, hs.flag, hs.wheel, hs.pending, rfl, ?_⟩
  simp only [CellHarqRepository.indicated, hs.indications]

theorem Linked.indicated (hl : Linked cfg s) (slTx : SlotPoint) : Linked cfg (s.indicated slTx) :=
  ⟨hl.view, hl.ueIdx, hl.hId, hl.within⟩

theorem SameUe.slotIndication (hs : SameUe i s t) (hl : Linked cfg s) (hl' : Linked cfg t) (slTx : SlotPoint) :
    Alike (SameUe i) (s.slotIndication cfg slTx) (t.slotIndication cfg slTx) :=
  expire_sameUe (hs.indicated slTx) (hl.indicated slTx) (hl'.indicated slTx) rfl

theorem SameUe.runOp {op : HarqOp} (hs : SameUe i s t) (hl : Linked cfg s) (hl' : Linked cfg t) (hop : op.OnUe i) :
    Alike (fun x y => x.1 = y.1 ∧ SameUe i x.2 y.2) (s.runOp cfg op) (t.runOp cfg op) := by
  cases op with
  | reconfigure ueIdx n disabled b =>
    cases hop
    exact (hs.reconfigure n disabled b).map fun _ _ h => ⟨rfl, h⟩
  | event e =>
    cases e with
    | slotIndication slTx => exact (hs.slotIndication hl hl' slTx).map fun _ _ h => ⟨rfl, h⟩
    | stop => exact absurd hop not_false
    | allocHarq ueIdx slTx slAck n b =>
      cases hop
      exact (hs.allocHarq hl slTx slAck n b).map fun _ _ h => ⟨congrArg ([·]) h.1, h.2⟩
    | newRetx r slTx slAck =>
      exact ((hs.handleNewRetx hop hl slTx slAck).map fun _ _ h => h).map fun _ _ h => ⟨rfl, h⟩
    | ack r ack => exact (hs.handleAck hop hl ack).map fun _ _ h => ⟨rfl, h⟩
    | cancelRetxs r => exact (hs.cancelRetxs hop hl).map fun _ _ h => ⟨rfl, h⟩
    | deallocHarq r => exact (hs.deallocHarq hop hl).map fun _ _ h => ⟨rfl, h⟩
    | reserveUeHarqs ueIdx n =>
      cases hop
      exact (hs.reserveUeHarqs n).map fun _ _ h => ⟨rfl, h⟩
    | extendUeHarqs ueIdx n =>
      cases hop
      exact (hs.extendUeHarqs n).map fun _ _ h => ⟨rfl, h⟩
    | destroyUe ueIdx =>
      cases hop
      exact (hs.destroyUe hl).map fun _ _ h => ⟨rfl, h⟩

theorem runOp_stepOp {op : HarqOp} {out : List (Option (Nat × Bool))} (h : s.runOp cfg op = .ok (out, t)) :
    s.stepOp cfg op = .ok t := by
  cases op with
  | reconfigure ueIdx n disabled b =>
    obtain ⟨u, hu, heq⟩ := map_eq_ok.mp h
    cases heq
    exact hu
  | event e =>
    cases e with
    | allocHarq ueIdx slTx slAck n b =>
      obtain ⟨p, hp, heq⟩ := map_eq_ok.mp h
      cases heq
      exact map_eq_ok.mpr ⟨p, hp, rfl⟩
    | _ =>
      obtain ⟨u, hu, heq⟩ := map_eq_ok.mp h
      cases heq
      exact hu

theorem SameUe.allocTrace {ops : List HarqOp} (hs : SameUe i s t) (hm : Moded cfg s) (hm' : Moded cfg t)
    (hops : ∀ op ∈ ops, op.OnUe i) : s.allocTrace cfg ops = t.allocTrace cfg ops := by
  induction ops generalizing s t with
  | nil => rfl
  | cons op ops ih =>
    have hstep := hs.runOp hm.linked hm'.linked (hops op List.mem_cons_self)
    rw [CellHarqRepository.allocTrace, CellHarqRepository.allocTrace]
    generalize hx : s.runOp cfg op = x at hstep
    generalize hy : t.runOp cfg op = y at hstep
    cases hstep with
    | error f => rfl
    | ok hxy =>
      rename_i a b
      obtain ⟨out, u⟩ := a
      obtain ⟨out', v⟩ := b
      obtain ⟨rfl, huv⟩ := hxy
      have hrest := ih huv (hm.stepOp (runOp_stepOp hx)) (hm'.stepOp (runOp_stepOp hy)) fun op hop =>
        hops op (List.mem_cons_of_mem _ hop)
      simp only [hrest]

theorem deallocAll_other {ueIdx : Nat} {hIds : List Nat} (hl : Linked cfg s) (hu : ueIdx ≠ i)
    (ht : s.deallocAll cfg ueIdx hIds = .ok t) : SameUe i s t ∧ t.ues i = s.ues i := by
  induction hIds generalizing s with
  | nil =>
    cases ht
    exact ⟨.refl i _, rfl⟩
  | cons hId hIds ih =>
    obtain ⟨u, hsu, ht⟩ := bind_eq_ok.mp ht
    obtain ⟨hsame, hues⟩ := deallocHarq_other (r := ⟨ueIdx, hId⟩) hl hu hsu
    obtain ⟨hsame', hues'⟩ := ih (deallocHarq_emptied hl hsu).1.linked ht
    exact ⟨hsame.trans hsame', hues'.trans hues⟩

theorem destroyUe_other {ueIdx : Nat} (hl : Linked cfg s) (hu : ueIdx ≠ i) (ht : s.destroyUe cfg ueIdx = .ok t) :
    SameUe i s t ∧ t.ues i = s.ues i := by
  unfold destroyUe at ht
  split_ifs at ht
  obtain ⟨u, hdealloc, ht⟩ := bind_eq_ok.mp ht
  cases ht
  obtain ⟨hsame, hues⟩ := deallocAll_other hl hu hdealloc
  have hkeep : (u.updateUe ueIdx fun ue => { ue with harqs := [], freeHarqIds := [] }).ues i = u.ues i :=
    if_neg hu.symm
  refine ⟨⟨?_, ?_, ?_, hsame.wheel, hsame.pending, hsame.lastSlInd, hsame.indications⟩, hkeep.trans hues⟩
  · rw [hkeep, hues]
  · rw [hkeep, hues]
  · rw [hkeep, hues]

theorem destroyUe_self (hl : Linked cfg s) (ht : s.destroyUe cfg i = .ok t) :
    i < cfg.maxUes ∧ (t.ues i).harqs = [] ∧ (t.ues i).freeHarqIds = [] ∧
      (t.ues i).feedbackDisabledOrModeBHarqPresent = (s.ues i).feedbackDisabledOrModeBHarqPresent := by
  unfold destroyUe at ht
  split_ifs at ht with hi
  obtain ⟨u, hdealloc, ht⟩ := bind_eq_ok.mp ht
  cases ht
  have hkeeps := (deallocUe_emptied hl hdealloc).1.toKeeps
  refine ⟨Nat.not_le.mp hi, ?_, ?_, ?_⟩
  · simp [updateUe]
  · simp [updateUe]
  · simpa [updateUe] using hkeeps.flag i

theorem Linked.find_pending (hl : Linked cfg s) (hmem : r ∈ s.harqPendingRetxList) : (s.find r).isSome := by
  have hcount : s.harqPendingRetxList.count r = (HarqView.ofProcess cfg (s.find r)).pending :=
    congrArg HarqView.pending (hl.view r)
  have hpos : 0 < s.harqPendingRetxList.count r := List.count_pos_iff.mpr hmem
  cases hf : s.find r with
  | none =>
    rw [hcount, hf] at hpos
    exact absurd hpos (lt_irrefl 0)
  | some h => rfl

theorem Linked.sameUe_newAt (hl : Linked cfg s) (hharqs : (s.ues i).harqs = []) (hfree : (s.ues i).freeHarqIds = [])
    (hflag : (s.ues i).feedbackDisabledOrModeBHarqPresent = false) : SameUe i s s.newAt := by
  have hnone : ∀ r : HarqRef, r.ueIdx = i → ¬(s.find r).isSome := by
    intro r hr
    simp [find, hr, hharqs]
  refine ⟨hharqs, hfree, hflag, fun b => ?_, ?_, rfl, rfl⟩
  · rw [List.filter_eq_nil_iff.mpr fun r hmem hr => ?_]
    · rfl
    · obtain ⟨h, hf, -⟩ := hl.find_wheel hmem
      exact hnone r (by simpa using hr) (by simp [hf])
  · rw [List.filter_eq_nil_iff.mpr fun r hmem hr => ?_]
    · rfl
    · exact hnone r (by simpa using hr) (hl.find_pending hmem)

theorem moded_newAt (s : CellHarqRepository) : Moded cfg s.newAt :=
  have hm := @moded_new cfg
  ⟨⟨hm.linked.view, hm.linked.ueIdx, hm.linked.hId, hm.linked.within⟩, hm.few, hm.ntn⟩

/-- A transmission for a DRB, just after the UE has got one process. -/
def firstAlloc (i : Nat) : List HarqOp :=
  [.event (.reserveUeHarqs i 1), .event (.allocHarq i .invalid .invalid 0 false)]

theorem reserve_one (hi : i < cfg.maxUes) (hmax : 0 < cfg.maxHarqsPerUe) (hharqs : (s.ues i).harqs = []) :
    s.reserveUeHarqs cfg i 1 = .ok (s.updateUe i fun ue => { ue with
      harqs := [initHarq i 0 defaultHarq], freeHarqIds := [0] }) := by
  have hone : ¬((1 : Nat) = 0 ∨ cfg.maxHarqsPerUe < 1) := by omega
  rw [reserveUeHarqs, if_neg hone, if_neg (Nat.not_le.mpr hi), if_neg (not_ne_iff.mpr hharqs)]
  congr 1
  simp only [updateUe, mk.injEq, and_true, true_and]
  funext u
  by_cases hu : u = i
  · subst hu
    simp [hharqs, resizeHarqs]
  · simp only [if_neg hu]

theorem firstAlloc_flag (hi : i < cfg.maxUes) (hmax : 0 < cfg.maxHarqsPerUe) (hntn : 0 < cfg.ntnCsKoffset)
    (hharqs : (s.ues i).harqs = []) (hflag : (s.ues i).feedbackDisabledOrModeBHarqPresent = true) :
    s.allocTrace cfg (firstAlloc i) = ([none], none) := by
  simp [firstAlloc, allocTrace, runOp, stepOp, step, reserve_one hi hmax hharqs, Except.map, allocHarq,
    Nat.not_le.mpr hi, selectHarqId, hntn, hflag, updateUe, initHarq, defaultHarq, allocResult]

theorem firstAlloc_normal (hi : i < cfg.maxUes) (hmax : 0 < cfg.maxHarqsPerUe)
    (hharqs : (s.ues i).harqs = []) (hflag : (s.ues i).feedbackDisabledOrModeBHarqPresent = false) :
    s.allocTrace cfg (firstAlloc i) = ([some (0, true)], none) := by
  simp [firstAlloc, allocTrace, runOp, stepOp, step, reserve_one hi hmax hharqs, Except.map, allocHarq,
    Nat.not_le.mpr hi, selectHarqId, hflag, updateUe, initHarq, defaultHarq, allocResult, get, find, recordTx, setHarq,
    pushTimeout]

def LikeNew (cfg : CellHarqConfig) (i : Nat) (s : CellHarqRepository) : Prop :=
  ∀ n ops, (∀ op ∈ ops, HarqOp.OnUe i op) →
    s.allocTrace cfg (.event (.reserveUeHarqs i n) :: ops) = s.newAt.allocTrace cfg (.event (.reserveUeHarqs i n) :: ops)

theorem LikeNew.firstAlloc (h : LikeNew cfg i s) :
    s.allocTrace cfg (firstAlloc i) = s.newAt.allocTrace cfg (CellHarqRepository.firstAlloc i) :=
  h 1 _ fun op hop => by
    rw [List.mem_singleton.mp hop]
    rfl

theorem likeNew_of_normal (hm : Moded cfg s) (hharqs : (s.ues i).harqs = []) (hfree : (s.ues i).freeHarqIds = [])
    (hflag : (s.ues i).feedbackDisabledOrModeBHarqPresent = false) : LikeNew cfg i s := by
  intro n ops hops
  refine (hm.linked.sameUe_newAt hharqs hfree hflag).allocTrace hm (moded_newAt s) fun op hop => ?_
  rcases List.mem_cons.mp hop with rfl | hop
  · rfl
  · exact hops op hop

theorem not_likeNew (hm : Moded cfg s) (hi : i < cfg.maxUes) (hharqs : (s.ues i).harqs = [])
    (hflag : (s.ues i).feedbackDisabledOrModeBHarqPresent = true) : ¬LikeNew cfg i s := by
  intro hnew
  obtain ⟨hntn, hmax⟩ := hm.ntn i hflag
  have htrace := hnew.firstAlloc
  rw [firstAlloc_flag hi hmax hntn hharqs hflag, firstAlloc_normal hi hmax rfl rfl] at htrace
  cases htrace

/-- The removal of a UE leaves the others as they are. Its index is as new just when none of its processes had
been given the mode without feedback: the flag that says so is not reset. -/
theorem destroyUe_likeNew {ops : List HarqOp} (hrun : Machine.run (stepOp cfg) new ops = .ok s)
    (ht : s.destroyUe cfg i = .ok t) :
    (∀ u, u ≠ i → t.ues u = s.ues u ∧ SameUe u s t) ∧
      (LikeNew cfg i t ↔ (s.ues i).feedbackDisabledOrModeBHarqPresent = false) := by
  have hm := run_moded hrun
  have hmt := hm.destroyUe ht
  obtain ⟨hi, hharqs, hfree, hflag⟩ := destroyUe_self hm.linked ht
  refine ⟨fun u hu => (destroyUe_other hm.linked hu.symm ht).symm, fun hnew => ?_, fun hnormal => ?_⟩
  · by_contra hpresent
    rw [Bool.not_eq_false, ← hflag] at hpresent
    exact not_likeNew hmt hi hharqs hpresent hnew
  · exact likeNew_of_normal hmt hharqs hfree (hflag.trans hnormal)

def ntnCell : CellHarqConfig := ⟨2, 256, 8, 16, 8⟩

def ntnUes (disabled : Bool) : List HarqOp :=
  [.event (.reserveUeHarqs 0 2), .event (.reserveUeHarqs 1 2), .event (.slotIndication ⟨1, 100⟩),
    .reconfigure 0 2 [false, disabled] true, .event (.allocHarq 0 ⟨1, 100⟩ ⟨1, 112⟩ 4 true),
    .event (.allocHarq 1 ⟨1, 100⟩ ⟨1, 112⟩ 4 true)]

theorem destroyUe_likeNew_normal :
    ∃ s t, Machine.run (stepOp ntnCell) new (ntnUes false) = .ok s ∧
      s.destroyUe ntnCell 0 = .ok t ∧ t.ues 1 = s.ues 1 ∧ LikeNew ntnCell 0 t := by
  obtain ⟨t, ht⟩ := Machine.exists_of_isOk (r := Machine.run (stepOp ntnCell) new (ntnUes false) >>= fun s =>
    s.destroyUe ntnCell 0) (by decide +kernel)
  obtain ⟨s, hs, hd⟩ := bind_eq_ok.mp ht
  have hflag : (Machine.run (stepOp ntnCell) new (ntnUes false)).map
      (fun s => (s.ues 0).feedbackDisabledOrModeBHarqPresent) = .ok false := by decide +kernel
  rw [hs] at hflag
  obtain ⟨hother, hnew⟩ := destroyUe_likeNew hs hd
  exact ⟨s, t, hs, hd, (hother 1 (by decide)).1, hnew.mpr (Except.ok.inj hflag)⟩

/-- The next UE with the index has no process without feedback, but a transmission for a DRB looks for one and gets no
process; in a new repository it gets process 0. -/
theorem destroyUe_flag_left :
    ∃ s t, Machine.run (stepOp ntnCell) new (ntnUes true) = .ok s ∧
      s.destroyUe ntnCell 0 = .ok t ∧
      t.allocTrace ntnCell (firstAlloc 0) = ([none], none) ∧
      t.newAt.allocTrace ntnCell (firstAlloc 0) = ([some (0, true)], none) ∧
      ¬LikeNew ntnCell 0 t := by
  obtain ⟨t, ht⟩ := Machine.exists_of_isOk (r := Machine.run (stepOp ntnCell) new (ntnUes true) >>= fun s =>
    s.destroyUe ntnCell 0) (by decide +kernel)
  obtain ⟨s, hs, hd⟩ := bind_eq_ok.mp ht
  have hleft : (Machine.run (stepOp ntnCell) new (ntnUes true) >>= fun s => s.destroyUe ntnCell 0).map
      (fun t => t.allocTrace ntnCell (firstAlloc 0)) = .ok ([none], none) := by decide +kernel
  have hright : (Machine.run (stepOp ntnCell) new (ntnUes true) >>= fun s => s.destroyUe ntnCell 0).map
      (fun t => t.newAt.allocTrace ntnCell (firstAlloc 0)) = .ok ([some (0, true)], none) := by decide +kernel
  rw [ht] at hleft hright
  refine ⟨s, t, hs, hd, Except.ok.inj hleft, Except.ok.inj hright, fun hnew => ?_⟩
  have heq := (Except.ok.inj hleft).symm.trans (hnew.firstAlloc.trans (Except.ok.inj hright))
  cases heq

end CellHarqRepository

end Ocudu.Sched
