import Ocudu.Sched.Harq

/-! Where a HARQ process is linked follows from its status: the free list of its UE, the
timeout wheel and the list of pending retransmissions agree with it in every state. -/

namespace Ocudu.Sched

/-- What the repository holds about one process: the process itself, and how often it occurs
in the free list, in each bucket of the wheel and in the list of pending retransmissions. -/
@[ext] structure HarqView where
  process : Option HarqProcess
  free : Nat
  wheel : Nat → Nat
  pending : Nat

def HarqView.ofProcess (cfg : CellHarqConfig) (p : Option HarqProcess) : HarqView where
  process := p
  free := match p with
    | some h => if h.status = .empty then 1 else 0
    | none => 0
  wheel := fun b => match p with
    | some h => if h.status ≠ .empty ∧ b = cfg.bucket h.slotTimeout then 1 else 0
    | none => 0
  pending := match p with
    | some h => if h.status = .pendingRetx then 1 else 0
    | none => 0

structure HarqProcess.Sound (r : HarqRef) (h : HarqProcess) : Prop where
  ueIdx : h.ueIdx = r.ueIdx
  hId : h.hId = r.hId
  mode : h.mode = .normal
  nofRetxs : h.nofRetxs ≤ h.maxNofHarqRetxs
  maxRetxs : h.maxNofHarqRetxs < 2 ^ 8
  pending : h.status = .pendingRetx → h.nofRetxs < h.maxNofHarqRetxs
  ndi : h.ndi = decide (h.newTxs % 2 = 1)

def HarqProcess.dealloc (h : HarqProcess) : HarqProcess :=
  { h with slotTimeout := .invalid, status := .empty }

def HarqProcess.setPending (h : HarqProcess) (slotTimeout : SlotPoint) (indications : Nat) :
    HarqProcess :=
  { h with slotTimeout, status := .pendingRetx, enteredAt := indications }

/-- The process after a transmission: how many retransmissions there have been, and where its
ACK is due. -/
def HarqProcess.transmit (h : HarqProcess) (slTx slAck slotTimeout : SlotPoint)
    (nofRetxs indications ackIn : Nat) : HarqProcess :=
  { h with status := .waitingAck, slotTx := slTx, slotAck := slAck, nofRetxs, slotTimeout,
           enteredAt := indications, ackIn }

def HarqProcess.renew (h : HarqProcess) (maxNofHarqRetxs : Nat) : HarqProcess :=
  { h with ndi := !h.ndi, maxNofHarqRetxs := maxNofHarqRetxs % 2 ^ 8, retxsCancelled := false,
           newTxs := h.newTxs + 1 }

def HarqProcess.cancel (h : HarqProcess) : HarqProcess :=
  { h with maxNofHarqRetxs := h.nofRetxs, retxsCancelled := true }

namespace CellHarqRepository

variable {cfg : CellHarqConfig} {s t : CellHarqRepository} {r : HarqRef} {h p : HarqProcess}

def view (s : CellHarqRepository) (r : HarqRef) : HarqView where
  process := s.find r
  free := (s.ues r.ueIdx).freeHarqIds.count r.hId
  wheel := fun b => (s.harqTimeoutWheel b).count r
  pending := s.harqPendingRetxList.count r

structure Inv (cfg : CellHarqConfig) (s : CellHarqRepository) : Prop where
  view : ∀ r, s.view r = .ofProcess cfg (s.find r)
  sound : ∀ r h, s.find r = some h → h.Sound r
  within : ∀ r, (s.find r).isSome → r.ueIdx < cfg.maxUes
  normal : ∀ u, (s.ues u).feedbackDisabledOrModeBHarqPresent = false

/-- The part of the invariant that is about the links. -/
structure Linked (cfg : CellHarqConfig) (s : CellHarqRepository) : Prop where
  view : ∀ r, s.view r = .ofProcess cfg (s.find r)
  ueIdx : ∀ r h, s.find r = some h → h.ueIdx = r.ueIdx
  hId : ∀ r h, s.find r = some h → h.hId = r.hId
  within : ∀ r, (s.find r).isSome → r.ueIdx < cfg.maxUes

theorem Inv.linked (hi : Inv cfg s) : Linked cfg s :=
  ⟨hi.view, fun r h hf => (hi.sound r h hf).ueIdx, fun r h hf => (hi.sound r h hf).hId, hi.within⟩

/-- `t` is `s` with `p` for the process `r`, linked as its status asks for. -/
structure Puts (cfg : CellHarqConfig) (s t : CellHarqRepository) (r : HarqRef)
    (p : HarqProcess) : Prop where
  present : (s.find r).isSome
  view : t.view = Function.update s.view r (.ofProcess cfg (some p))
  normal : ∀ u, (t.ues u).feedbackDisabledOrModeBHarqPresent =
    (s.ues u).feedbackDisabledOrModeBHarqPresent
  lastSlInd : t.lastSlInd = s.lastSlInd
  indications : t.indications = s.indications
  discards : t.discards = s.discards

theorem Puts.find_self (hp : Puts cfg s t r p) : t.find r = some p := by
  have h := congrArg HarqView.process (congrFun hp.view r)
  rw [Function.update_self] at h
  exact h

theorem Puts.find_other (hp : Puts cfg s t r p) {r' : HarqRef} (hne : r' ≠ r) :
    t.find r' = s.find r' := by
  have h := congrArg HarqView.process (congrFun hp.view r')
  rw [Function.update_of_ne hne] at h
  exact h

theorem Puts.linked (hp : Puts cfg s t r p) (hi : Linked cfg s) (hu : p.ueIdx = r.ueIdx) (hid : p.hId = r.hId) :
    Linked cfg t where
  view r' := by
    by_cases hr : r' = r
    · subst hr
      rw [hp.find_self, hp.view, Function.update_self]
    · rw [hp.find_other hr, hp.view, Function.update_of_ne hr, hi.view]
  ueIdx r' h hf := by
    by_cases hr : r' = r
    · subst hr
      rw [hp.find_self] at hf
      cases hf
      exact hu
    · rw [hp.find_other hr] at hf
      exact hi.ueIdx r' h hf
  hId r' h hf := by
    by_cases hr : r' = r
    · subst hr
      rw [hp.find_self] at hf
      cases hf
      exact hid
    · rw [hp.find_other hr] at hf
      exact hi.hId r' h hf
  within r' hf := by
    by_cases hr : r' = r
    · subst hr
      exact hi.within r' hp.present
    · rw [hp.find_other hr] at hf
      exact hi.within r' hf

theorem Puts.inv (hp : Puts cfg s t r p) (hi : Inv cfg s) (hs : p.Sound r) : Inv cfg t where
  view := (hp.linked hi.linked hs.ueIdx hs.hId).view
  sound r' h hf := by
    by_cases hr : r' = r
    · subst hr
      rw [hp.find_self] at hf
      cases hf
      exact hs
    · rw [hp.find_other hr] at hf
      exact hi.sound r' h hf
  within := (hp.linked hi.linked hs.ueIdx hs.hId).within
  normal u := (hp.normal u).trans (hi.normal u)

/-! What the parts of an operation do to the view -/

theorem find_setHarq (hf : s.find r = some h) (r' : HarqRef) :
    (s.setHarq r p).find r' = if r' = r then some p else s.find r' := by
  obtain ⟨u, i⟩ := r
  obtain ⟨u', i'⟩ := r'
  have hlt : i < (s.ues u).harqs.length := (List.getElem?_eq_some_iff.mp hf).1
  by_cases hu : u' = u
  · subst hu
    by_cases hi : i' = i
    · subst hi
      simp [find, setHarq, updateUe, hlt]
    · simp [find, setHarq, updateUe, hi, List.getElem?_set_ne (Ne.symm hi)]
  · simp [find, setHarq, updateUe, hu]

theorem view_setHarq (hf : s.find r = some h) :
    (s.setHarq r p).view = Function.update s.view r { s.view r with process := some p } := by
  funext r'
  by_cases hr : r' = r
  · subst hr
    rw [Function.update_self]
    ext1
    · simp only [view, find_setHarq hf, if_true]
    · simp [view, setHarq, updateUe]
    · rfl
    · rfl
  · rw [Function.update_of_ne hr]
    ext1
    · simp only [view, find_setHarq hf, if_neg hr]
    · by_cases hu : r'.ueIdx = r.ueIdx
      · simp [view, setHarq, updateUe, hu]
      · simp [view, setHarq, updateUe, hu]
    · rfl
    · rfl

theorem view_updateUe_free {u i : Nat} {f : UeHarqEntity → UeHarqEntity} {n : Nat}
    (hharqs : (f (s.ues u)).harqs = (s.ues u).harqs)
    (hself : (f (s.ues u)).freeHarqIds.count i = n)
    (hother : ∀ j, j ≠ i → (f (s.ues u)).freeHarqIds.count j = (s.ues u).freeHarqIds.count j) :
    (s.updateUe u f).view = Function.update s.view ⟨u, i⟩ { s.view ⟨u, i⟩ with free := n } := by
  funext ⟨u', i'⟩
  by_cases hu : u' = u
  · subst hu
    by_cases hi : i' = i
    · subst hi
      rw [Function.update_self]
      simp [view, find, updateUe, hharqs, hself]
    · rw [Function.update_of_ne (by simpa using hi)]
      simp [view, find, updateUe, hharqs, hother i' hi]
  · rw [Function.update_of_ne (by simp [hu])]
    simp [view, find, updateUe, hu]

theorem view_updateUe_keep {u : Nat} {f : UeHarqEntity → UeHarqEntity}
    (hharqs : (f (s.ues u)).harqs = (s.ues u).harqs)
    (hfree : (f (s.ues u)).freeHarqIds = (s.ues u).freeHarqIds) : (s.updateUe u f).view = s.view := by
  funext ⟨u', i'⟩
  by_cases hu : u' = u
  · subst hu
    simp [view, find, updateUe, hharqs, hfree]
  · simp [view, find, updateUe, hu]

theorem view_pushTimeout (sl : SlotPoint) :
    (s.pushTimeout cfg r sl).view = Function.update s.view r { s.view r with
      wheel := fun b => if b = cfg.bucket sl then (s.view r).wheel b + 1 else (s.view r).wheel b } := by
  funext r'
  by_cases hr : r' = r
  · subst hr
    rw [Function.update_self]
    simp only [view, pushTimeout, find, HarqView.mk.injEq, true_and, and_true]
    funext b
    split_ifs <;> simp
  · rw [Function.update_of_ne hr]
    simp only [view, pushTimeout, find, HarqView.mk.injEq, true_and, and_true]
    funext b
    split_ifs
    · rw [List.count_cons_of_ne (Ne.symm hr)]
    · rfl

def unlinkTimeout (cfg : CellHarqConfig) (s : CellHarqRepository) (r : HarqRef) (sl : SlotPoint) :
    CellHarqRepository :=
  { s with harqTimeoutWheel := fun b =>
      if b = cfg.bucket sl then (s.harqTimeoutWheel b).erase r else s.harqTimeoutWheel b }

def unlinkPendingRetx (s : CellHarqRepository) (r : HarqRef) : CellHarqRepository :=
  { s with harqPendingRetxList := s.harqPendingRetxList.erase r }

theorem popTimeout_ok {sl : SlotPoint} (hmem : 0 < (s.view r).wheel (cfg.bucket sl)) :
    s.popTimeout cfg r sl = .ok (s.unlinkTimeout cfg r sl) :=
  if_pos (List.count_pos_iff.mp hmem)

theorem view_unlinkTimeout (sl : SlotPoint) :
    (s.unlinkTimeout cfg r sl).view = Function.update s.view r { s.view r with
      wheel := fun b => if b = cfg.bucket sl then (s.view r).wheel b - 1 else (s.view r).wheel b } := by
  funext r'
  by_cases hr : r' = r
  · subst hr
    rw [Function.update_self]
    simp only [view, unlinkTimeout, find, HarqView.mk.injEq, true_and, and_true]
    funext b
    split_ifs
    · rw [List.count_erase_self]
    · rfl
  · rw [Function.update_of_ne hr]
    simp only [view, unlinkTimeout, find, HarqView.mk.injEq, true_and, and_true]
    funext b
    split_ifs
    · rw [List.count_erase_of_ne hr]
    · rfl

theorem view_pushPendingRetx :
    (s.pushPendingRetx r).view =
      Function.update s.view r { s.view r with pending := (s.view r).pending + 1 } := by
  funext r'
  by_cases hr : r' = r
  · subst hr
    simp [view, pushPendingRetx, find, List.count_append]
  · simp [view, pushPendingRetx, find, List.count_append, hr, Ne.symm hr]

theorem popPendingRetx_ok (hmem : 0 < (s.view r).pending) :
    s.popPendingRetx r = .ok (s.unlinkPendingRetx r) :=
  if_pos (List.count_pos_iff.mp hmem)

theorem view_unlinkPendingRetx :
    (s.unlinkPendingRetx r).view =
      Function.update s.view r { s.view r with pending := (s.view r).pending - 1 } := by
  funext r'
  by_cases hr : r' = r
  · subst hr
    simp [view, unlinkPendingRetx, find]
  · simp [view, unlinkPendingRetx, find, hr, List.count_erase_of_ne hr]

theorem get_ok (hf : s.find r = some h) : s.get r = .ok h := by
  simp [get, hf]

theorem get_error (hf : s.find r = none) : s.get r = .error .absent := by
  simp [get, hf]

section

variable (hf : s.find r = some h)
include hf

theorem Linked.wheel_pos (hi : Linked cfg s) (hne : h.status ≠ .empty) :
    0 < (s.view r).wheel (cfg.bucket h.slotTimeout) := by
  rw [hi.view, hf]
  simp [HarqView.ofProcess, hne]

theorem Linked.pending_eq (hi : Linked cfg s) :
    (s.view r).pending = if h.status = .pendingRetx then 1 else 0 := by
  rw [hi.view, hf]
  rfl

theorem Linked.unlinkPendingRetx_eq (hi : Linked cfg s) (hp : h.status ≠ .pendingRetx) : s.unlinkPendingRetx r = s := by
  have hcount := hi.pending_eq hf
  rw [if_neg hp] at hcount
  have hnot : r ∉ s.harqPendingRetxList := List.count_eq_zero.mp hcount
  simp [unlinkPendingRetx, List.erase_of_not_mem hnot]

theorem Linked.popTimeout_unlinked (hi : Linked cfg s) (hne : h.status ≠ .empty) :
    (s.unlinkPendingRetx r).popTimeout cfg r h.slotTimeout =
      .ok ((s.unlinkPendingRetx r).unlinkTimeout cfg r h.slotTimeout) := by
  apply popTimeout_ok
  rw [view_unlinkPendingRetx, Function.update_self]
  exact hi.wheel_pos hf hne

theorem deallocHarq_empty (he : h.status = .empty) :
    s.deallocHarq cfg r = .ok s := by
  simp [deallocHarq, get_ok hf, he]

theorem deallocHarq_eq (hi : Linked cfg s) (hne : h.status ≠ .empty) :
    s.deallocHarq cfg r = .ok ((((s.unlinkPendingRetx r).unlinkTimeout cfg r h.slotTimeout).setHarq
      r h.dealloc).updateUe r.ueIdx fun ue => { ue with
        lastSlotTx := forgetSlot ue.lastSlotTx h.slotTx
        lastSlotAck := forgetSlot ue.lastSlotAck h.slotAck
        freeHarqIds := ue.freeHarqIds ++ [r.hId] }) := by
  have hpop := hi.popTimeout_unlinked hf hne
  by_cases hp : h.status = .pendingRetx
  · have hpos : 0 < (s.view r).pending := by
      rw [hi.pending_eq hf, if_pos hp]
      exact Nat.one_pos
    simp only [deallocHarq, get_ok hf, ok_bind, if_neg hne, if_pos hp, popPendingRetx_ok hpos, hpop,
      pure_eq_ok, hi.ueIdx r h hf, hi.hId r h hf, HarqProcess.dealloc]
  · rw [hi.unlinkPendingRetx_eq hf hp] at hpop ⊢
    simp only [deallocHarq, get_ok hf, ok_bind, if_neg hne, if_neg hp, hpop, pure_eq_ok,
      hi.ueIdx r h hf, hi.hId r h hf, HarqProcess.dealloc]

theorem deallocHarq_puts (hi : Linked cfg s) (hne : h.status ≠ .empty) :
    ∃ t, s.deallocHarq cfg r = .ok t ∧ Puts cfg s t r h.dealloc ∧
      t.harqTimeoutWheel = (s.unlinkTimeout cfg r h.slotTimeout).harqTimeoutWheel := by
  have hview : s.view r = .ofProcess cfg (some h) := by rw [hi.view, hf]
  have hfree : (s.ues r.ueIdx).freeHarqIds.count r.hId = 0 :=
    (congrArg HarqView.free hview).trans (if_neg hne)
  refine ⟨_, deallocHarq_eq hf hi hne, ⟨by simp [hf], ?_, ?_, rfl, rfl, rfl⟩, rfl⟩
  · have hf' : ((s.unlinkPendingRetx r).unlinkTimeout cfg r h.slotTimeout).find r = some h := hf
    rw [view_updateUe_free (i := r.hId) (n := 1) rfl, view_setHarq hf', view_unlinkTimeout,
      view_unlinkPendingRetx]
    · simp only [Function.update_idem, Function.update_self, hview]
      congr 1
      ext1
      · rfl
      · rfl
      · funext b
        simp only [HarqView.ofProcess, HarqProcess.dealloc]
        split_ifs <;> simp_all
      · simp only [HarqView.ofProcess, HarqProcess.dealloc]
        split_ifs <;> simp_all
    · simp [setHarq, updateUe, unlinkTimeout, unlinkPendingRetx, hfree]
    · intro j hj
      simp [setHarq, updateUe, unlinkTimeout, unlinkPendingRetx, Ne.symm hj]
  · intro u
    simp only [updateUe, setHarq]
    split_ifs <;> rfl

theorem setPendingRetx_puts (hi : Linked cfg s) (hw : h.status = .waitingAck) :
    ∃ t, s.setPendingRetx cfg r = .ok t ∧
      Puts cfg s t r (h.setPending (s.lastSlInd.add cfg.harqRetxTimeout) s.indications) := by
  have hne : h.status ≠ .empty := by rw [hw]; decide
  have hview : s.view r = .ofProcess cfg (some h) := by rw [hi.view, hf]
  refine ⟨(((s.unlinkTimeout cfg r h.slotTimeout).setHarq r
    (h.setPending (s.lastSlInd.add cfg.harqRetxTimeout) s.indications)).pushTimeout cfg r
      (s.lastSlInd.add cfg.harqRetxTimeout)).pushPendingRetx r, ?_, ⟨by simp [hf], ?_, ?_, rfl, rfl, rfl⟩⟩
  · simp only [setPendingRetx, get_ok hf, ok_bind, hw, popTimeout_ok (hi.wheel_pos hf hne), pure_eq_ok]
    rfl
  · have hf' : (s.unlinkTimeout cfg r h.slotTimeout).find r = some h := hf
    rw [view_pushPendingRetx, view_pushTimeout, view_setHarq hf', view_unlinkTimeout]
    simp only [Function.update_idem, Function.update_self, hview]
    congr 1
    ext1
    · rfl
    · simp [HarqView.ofProcess, HarqProcess.setPending, hne]
    · funext b
      simp only [HarqView.ofProcess, HarqProcess.setPending]
      split_ifs <;> simp_all
    · simp [HarqView.ofProcess, HarqProcess.setPending, hw]
  · intro u
    simp only [pushPendingRetx, pushTimeout, setHarq, updateUe]
    split_ifs <;> rfl

theorem handleNewRetx_puts (hi : Linked cfg s) (hp : h.status = .pendingRetx) (slTx slAck : SlotPoint) :
    ∃ t, s.handleNewRetx cfg r slTx slAck = .ok (true, t) ∧
      Puts cfg s t r (h.transmit slTx slAck (slAck.add cfg.maxAckWaitTimeout)
        ((h.nofRetxs + 1) % 2 ^ 8) s.indications (s.slotsAhead slAck)) := by
  have hne : h.status ≠ .empty := by rw [hp]; decide
  have hview : s.view r = .ofProcess cfg (some h) := by rw [hi.view, hf]
  have hpos : 0 < (s.view r).pending := by
    rw [hi.pending_eq hf, if_pos hp]
    exact Nat.one_pos
  refine ⟨((((s.unlinkPendingRetx r).unlinkTimeout cfg r h.slotTimeout).updateUe h.ueIdx
    (recordTx slTx slAck)).setHarq r (h.transmit slTx slAck (slAck.add cfg.maxAckWaitTimeout)
      ((h.nofRetxs + 1) % 2 ^ 8) s.indications (s.slotsAhead slAck))).pushTimeout cfg r
        (slAck.add cfg.maxAckWaitTimeout), ?_, ⟨by simp [hf], ?_, ?_, rfl, rfl, rfl⟩⟩
  · simp only [handleNewRetx, get_ok hf, ok_bind, ne_eq, hp, not_true_eq_false, if_false,
      popPendingRetx_ok hpos, hi.popTimeout_unlinked hf hne, pure_eq_ok]
    rfl
  · have hf' : (((s.unlinkPendingRetx r).unlinkTimeout cfg r h.slotTimeout).updateUe h.ueIdx
        (recordTx slTx slAck)).find r = some h := by
      rw [← hf]
      simp only [find, updateUe, unlinkTimeout, unlinkPendingRetx]
      split_ifs <;> rfl
    rw [view_pushTimeout, view_setHarq hf', view_updateUe_keep rfl rfl, view_unlinkTimeout,
      view_unlinkPendingRetx]
    simp only [Function.update_idem, Function.update_self, hview]
    congr 1
    ext1
    · rfl
    · simp [HarqView.ofProcess, HarqProcess.transmit, hne]
    · funext b
      simp only [HarqView.ofProcess, HarqProcess.transmit]
      split_ifs <;> simp_all
    · simp [HarqView.ofProcess, HarqProcess.transmit, hp]
  · intro u
    simp only [pushTimeout, setHarq, updateUe]
    split_ifs <;> rfl

theorem cancelRetxs_puts (hi : Linked cfg s) (hw : h.status = .waitingAck) :
    ∃ t, s.cancelRetxs cfg r = .ok t ∧ Puts cfg s t r h.cancel := by
  have hview : s.view r = .ofProcess cfg (some h) := by rw [hi.view, hf]
  refine ⟨s.setHarq r h.cancel, ?_, ⟨by simp [hf], ?_, ?_, rfl, rfl, rfl⟩⟩
  · simp only [cancelRetxs, get_ok hf, ok_bind, hw, HarqProcess.cancel]
  · rw [view_setHarq hf, hview]
    rfl
  · intro u
    simp only [setHarq, updateUe]
    split_ifs <;> rfl

end

theorem selectHarqId_normal {ue : UeHarqEntity}
    (hn : ue.feedbackDisabledOrModeBHarqPresent = false) (b : Bool) :
    selectHarqId cfg ue b = some ue.freeHarqIds := by
  simp [selectHarqId, hn]

theorem Linked.find_free (hi : Linked cfg s) {u i : Nat} (hmem : i ∈ (s.ues u).freeHarqIds) :
    ∃ h, s.find ⟨u, i⟩ = some h ∧ h.status = .empty := by
  have hcount : (s.ues u).freeHarqIds.count i = (HarqView.ofProcess cfg (s.find ⟨u, i⟩)).free :=
    congrArg HarqView.free (hi.view ⟨u, i⟩)
  have hpos : 0 < (s.ues u).freeHarqIds.count i := List.count_pos_iff.mpr hmem
  cases hf : s.find ⟨u, i⟩ with
  | none =>
    simp only [hf, HarqView.ofProcess] at hcount
    omega
  | some h =>
    refine ⟨h, rfl, ?_⟩
    by_contra hne
    simp only [hf, HarqView.ofProcess, if_neg hne] at hcount
    omega

theorem selectHarqId_perm {ue : UeHarqEntity} {b : Bool} {ids : List Nat} (h : selectHarqId cfg ue b = some ids) :
    ids.Perm ue.freeHarqIds := by
  unfold selectHarqId at h
  split_ifs at h
  · dsimp only at h
    split at h
    · rename_i j hj
      cases h
      obtain ⟨hlt, -⟩ := List.findIdx?_eq_some_iff_getElem.mp hj
      have hpos : 0 < ue.freeHarqIds.reverse.length := Nat.zero_lt_of_lt hlt
      refine (List.reverse_perm _).trans (List.Perm.trans ?_ (List.reverse_perm _))
      rw [List.getD_eq_getElem?_getD, List.getD_eq_getElem?_getD, List.getElem?_eq_getElem hlt,
        List.getElem?_eq_getElem hpos]
      exact List.set_set_perm hpos hlt
    · cases h
  · cases h
    exact .refl _

theorem allocHarq_selected (hi : Linked cfg s) {u i : Nat} {b : Bool} {ids : List Nat} (hu : u < cfg.maxUes)
    (hsel : selectHarqId cfg (s.ues u) b = some ids) (hlast : ids.getLast? = some i) (slTx slAck : SlotPoint)
    (n : Nat) :
    ∃ h t, s.find ⟨u, i⟩ = some h ∧ s.allocHarq cfg u slTx slAck n b = .ok (some ⟨u, i⟩, t) ∧
      Puts cfg s t ⟨u, i⟩ ((h.renew n).transmit slTx slAck (ackTimeout cfg h slAck)
        0 s.indications (s.slotsAhead slAck)) := by
  have hperm := selectHarqId_perm hsel
  obtain ⟨h, hf, he⟩ := hi.find_free (hperm.mem_iff.mp (List.mem_of_getLast? hlast))
  have hview : s.view ⟨u, i⟩ = .ofProcess cfg (some h) := by rw [hi.view, hf]
  have hids : (ids.dropLast ++ [i]).Perm (s.ues u).freeHarqIds := by
    rw [List.dropLast_append_getLast? i hlast]
    exact hperm
  refine ⟨h, ((s.updateUe u fun ue => recordTx slTx slAck { ue with
    freeHarqIds := ids.dropLast }).setHarq ⟨u, i⟩
      ((h.renew n).transmit slTx slAck (ackTimeout cfg h slAck) 0 s.indications
        (s.slotsAhead slAck))).pushTimeout cfg ⟨u, i⟩ (ackTimeout cfg h slAck), hf, ?_,
    ⟨by simp [hf], ?_, ?_, rfl, rfl, rfl⟩⟩
  · have hids' : ¬(h.ueIdx ≠ u ∨ h.hId ≠ i) := by simp [hi.ueIdx _ h hf, hi.hId _ h hf]
    simp only [allocHarq, if_neg (Nat.not_le.mpr hu), hsel, Option.bind_some,
      hlast, Option.getD_some, get_ok hf, ok_bind, if_neg hids', pure_eq_ok]
    rfl
  · have hf' : (s.updateUe u fun ue => recordTx slTx slAck { ue with
        freeHarqIds := ids.dropLast }).find ⟨u, i⟩ = some h := by
      rw [← hf]
      simp [find, updateUe, recordTx]
    have hfree : (s.ues u).freeHarqIds.count i = 1 :=
      (congrArg HarqView.free hview).trans (if_pos he)
    rw [view_pushTimeout, view_setHarq hf', view_updateUe_free (i := i) (n := 0) rfl]
    · simp only [Function.update_idem, Function.update_self, hview]
      congr 1
      ext1
      · rfl
      · rfl
      · funext b
        simp only [HarqView.ofProcess, HarqProcess.transmit]
        split_ifs <;> simp_all
      · simp [HarqView.ofProcess, HarqProcess.transmit, he]
    · rw [← hids.count_eq, List.count_append, List.count_singleton_self] at hfree
      simpa [recordTx] using hfree
    · intro j hj
      rw [← hids.count_eq]
      simp [recordTx, Ne.symm hj]
  · intro u
    simp only [pushTimeout, setHarq, updateUe]
    split_ifs <;> rfl

theorem allocHarq_puts (hi : Inv cfg s) {u i : Nat} (hu : u < cfg.maxUes)
    (hlast : (s.ues u).freeHarqIds.getLast? = some i) (slTx slAck : SlotPoint) (n : Nat) (b : Bool) :
    ∃ h t, s.find ⟨u, i⟩ = some h ∧ s.allocHarq cfg u slTx slAck n b = .ok (some ⟨u, i⟩, t) ∧
      Puts cfg s t ⟨u, i⟩ ((h.renew n).transmit slTx slAck (slAck.add cfg.maxAckWaitTimeout)
        0 s.indications (s.slotsAhead slAck)) := by
  obtain ⟨h, t, hf, ht, hp⟩ :=
    allocHarq_selected hi.linked hu (selectHarqId_normal (hi.normal u) b) hlast slTx slAck n
  have htimeout : ackTimeout cfg h slAck = slAck.add cfg.maxAckWaitTimeout := by
    rw [ackTimeout, (hi.sound _ h hf).mode]
  rw [htimeout] at hp
  exact ⟨h, t, hf, ht, hp⟩

end CellHarqRepository

end Ocudu.Sched
