import Ocudu.Sched.HarqRun

/-! `unique_ue_harq_entity::reconfigure`: the processes of a UE of an NTN cell get modes. Whatever their modes,
the processes stay linked as their status says. -/

namespace Ocudu.Sched

def HarqMode.ofMask (disabled : List Bool) (hId : Nat) : HarqMode :=
  if disabled.getD hId false then .feedbackDisabledOrModeB else .normal

namespace CellHarqRepository

variable (cfg : CellHarqConfig)

def applyMask (disabled : List Bool) (ue : UeHarqEntity) : UeHarqEntity :=
  { ue with
    feedbackDisabledOrModeBHarqPresent := disabled.any id
    harqs := ue.harqs.map fun h => { h with mode := HarqMode.ofMask disabled h.hId } }

def growUeHarqs (s : CellHarqRepository) (ueIdx newNofHarqs : Nat) : Except HarqFault CellHarqRepository :=
  if newNofHarqs ≠ (s.ues ueIdx).harqs.length then s.extendUeHarqs cfg ueIdx newNofHarqs else .ok s

def setModes (s : CellHarqRepository) (ueIdx : Nat) (disabled : List Bool) (modeBEnabled : Bool) :
    Except HarqFault CellHarqRepository :=
  if disabled = [] then .ok s
  else if disabled.any id = true ∧ modeBEnabled = false then .error .modeB
  else if disabled.length < (s.ues ueIdx).harqs.length then .error .assertion
  else .ok (s.updateUe ueIdx (applyMask disabled))

/-- `reconfigure`, for one direction. In the downlink `disabled` is the mask, in the uplink its complement;
`modeBEnabled` is true in the downlink. -/
def reconfigure (s : CellHarqRepository) (ueIdx newNofHarqs : Nat) (disabled : List Bool) (modeBEnabled : Bool) :
    Except HarqFault CellHarqRepository :=
  if cfg.maxUes ≤ ueIdx ∨ (s.ues ueIdx).harqs = [] then .error .absent
  else if newNofHarqs < (s.ues ueIdx).harqs.length then .error .assertion
  else if cfg.ntnCsKoffset = 0 then .ok s
  else do
    let s ← s.growUeHarqs cfg ueIdx newNofHarqs
    s.setModes ueIdx disabled modeBEnabled

end CellHarqRepository

inductive HarqOp
  | event (e : HarqEvent)
  | reconfigure (ueIdx newNofHarqs : Nat) (disabled : List Bool) (modeBEnabled : Bool)

namespace CellHarqRepository

variable (cfg : CellHarqConfig)

def stepOp (s : CellHarqRepository) : HarqOp → Except HarqFault CellHarqRepository
  | .event e => s.step cfg e
  | .reconfigure ueIdx newNofHarqs disabled modeBEnabled => s.reconfigure cfg ueIdx newNofHarqs disabled modeBEnabled

variable {cfg} {s t u : CellHarqRepository} {r : HarqRef} {h p : HarqProcess}

structure Keeps (cfg : CellHarqConfig) (s t : CellHarqRepository) : Prop where
  linked : Linked cfg t
  flag : ∀ u, (t.ues u).feedbackDisabledOrModeBHarqPresent = (s.ues u).feedbackDisabledOrModeBHarqPresent
  isSome : ∀ r, (t.find r).isSome = (s.find r).isSome

theorem Keeps.refl (hl : Linked cfg s) : Keeps cfg s s := ⟨hl, fun _ => rfl, fun _ => rfl⟩

theorem Keeps.trans (h₁ : Keeps cfg s t) (h₂ : Keeps cfg t u) : Keeps cfg s u where
  linked := h₂.linked
  flag v := (h₂.flag v).trans (h₁.flag v)
  isSome r := (h₂.isSome r).trans (h₁.isSome r)

theorem Puts.keeps (hp : Puts cfg s t r p) (hl : Linked cfg s) (hf : s.find r = some h) (hu : p.ueIdx = h.ueIdx)
    (hid : p.hId = h.hId) : Keeps cfg s t :=
  ⟨hp.linked hl (hu.trans (hl.ueIdx r h hf)) (hid.trans (hl.hId r h hf)), hp.normal, hp.isSome⟩

/-- What deallocations leave behind. -/
structure Emptied (cfg : CellHarqConfig) (s t : CellHarqRepository) : Prop extends Keeps cfg s t where
  find : ∀ r h, t.find r = some h → h.status ≠ .empty → s.find r = some h

theorem Emptied.refl (hl : Linked cfg s) : Emptied cfg s s := ⟨.refl hl, fun _ _ hf _ => hf⟩

theorem Emptied.trans (h₁ : Emptied cfg s t) (h₂ : Emptied cfg t u) : Emptied cfg s u :=
  ⟨h₁.toKeeps.trans h₂.toKeeps, fun r h hf hne => h₁.find r h (h₂.find r h hf hne) hne⟩

theorem deallocHarq_emptied (hl : Linked cfg s) (ht : s.deallocHarq cfg r = .ok t) :
    Emptied cfg s t ∧ ∀ h, t.find r = some h → h.status = .empty := by
  cases hf : s.find r with
  | none =>
    simp only [deallocHarq, get_error hf, error_bind] at ht
    cases ht
  | some h =>
    by_cases he : h.status = .empty
    · rw [deallocHarq_empty hf he] at ht
      cases ht
      refine ⟨.refl hl, fun h' hf' => ?_⟩
      rw [hf] at hf'
      cases hf'
      exact he
    · obtain ⟨t', ht', hp, -⟩ := deallocHarq_puts hf hl he
      rw [ht] at ht'
      cases ht'
      refine ⟨⟨hp.keeps hl hf rfl rfl, (hp.clears rfl).find⟩, fun h' hf' => ?_⟩
      rw [hp.find_self] at hf'
      cases hf'
      rfl

theorem deallocAll_emptied {ueIdx : Nat} {hIds : List Nat} (hl : Linked cfg s)
    (ht : s.deallocAll cfg ueIdx hIds = .ok t) :
    Emptied cfg s t ∧ ∀ i ∈ hIds, ∀ h, t.find ⟨ueIdx, i⟩ = some h → h.status = .empty := by
  induction hIds generalizing s with
  | nil =>
    cases ht
    exact ⟨.refl hl, by simp⟩
  | cons i hIds ih =>
    obtain ⟨u, hu, ht⟩ := bind_eq_ok.mp ht
    obtain ⟨hsu, hempty⟩ := deallocHarq_emptied hl hu
    obtain ⟨hut, hrest⟩ := ih hsu.linked ht
    refine ⟨hsu.trans hut, fun j hj h hf => ?_⟩
    rcases List.mem_cons.mp hj with rfl | hj
    · by_contra hne
      exact hne (hempty h (hut.find _ h hf hne))
    · exact hrest j hj h hf

theorem deallocUe_emptied {ueIdx : Nat} (hl : Linked cfg s)
    (ht : s.deallocAll cfg ueIdx (List.range (s.ues ueIdx).harqs.length) = .ok t) :
    Emptied cfg s t ∧ ∀ i h, t.find ⟨ueIdx, i⟩ = some h → h.status = .empty := by
  obtain ⟨hst, hempty⟩ := deallocAll_emptied hl ht
  refine ⟨hst, fun i h hf => hempty i ?_ h hf⟩
  have hsome : (s.find ⟨ueIdx, i⟩).isSome := by
    rw [← hst.isSome, hf]
    rfl
  rw [List.mem_range]
  simpa [find] using hsome

theorem stopUes_keeps {ueIdxs : List Nat} (hl : Linked cfg s) (ht : s.stopUes cfg ueIdxs = .ok t) : Keeps cfg s t := by
  induction ueIdxs generalizing s with
  | nil =>
    cases ht
    exact .refl hl
  | cons ueIdx ueIdxs ih =>
    obtain ⟨u, hu, ht⟩ := bind_eq_ok.mp ht
    have hsu := (deallocUe_emptied hl hu).1.toKeeps
    exact hsu.trans (ih hsu.linked ht)

theorem handleHarqAckTimeout_keeps {slTx : SlotPoint} (hl : Linked cfg s) (hf : s.find r = some h)
    (hne : h.status ≠ .empty) :
    ∃ t, s.handleHarqAckTimeout cfg r slTx = .ok t ∧ Keeps cfg s t ∧
      t.harqTimeoutWheel = (s.unlinkTimeout cfg r h.slotTimeout).harqTimeoutWheel := by
  obtain ⟨t, ht, hp, hw⟩ := handleHarqAckTimeout_puts hl hf hne slTx
  have hk := hp.keeps (hl.discarding _) hf rfl rfl
  exact ⟨t, ht, ⟨hk.linked, hk.flag, hk.isSome⟩, hw⟩

theorem expireBucket_keeps {slTx : SlotPoint} {n : Nat} (hl : Linked cfg s)
    (ht : s.expireBucket cfg slTx n = .ok t) : Keeps cfg s t := by
  induction n generalizing s with
  | zero =>
    rw [expireBucket] at ht
    split_ifs at ht
    cases ht
    exact .refl hl
  | succ n ih =>
    rw [expireBucket] at ht
    cases hw : s.harqTimeoutWheel (cfg.bucket slTx) with
    | nil =>
      rw [hw] at ht
      cases ht
      exact .refl hl
    | cons r rs =>
      rw [hw] at ht
      obtain ⟨h, hf, hne, -⟩ := hl.find_wheel (r := r) (b := cfg.bucket slTx) (by simp [hw])
      obtain ⟨u, hu, hk, -⟩ := @handleHarqAckTimeout_keeps _ _ _ _ slTx hl hf hne
      simp only [hu, ok_bind] at ht
      exact hk.trans (ih hk.linked ht)

theorem handleAck_keeps {ack : Bool} (hl : Linked cfg s) (ht : s.handleAck cfg r ack = .ok t) : Keeps cfg s t := by
  cases hf : s.find r with
  | none =>
    simp only [handleAck, get_error hf, error_bind] at ht
    cases ht
  | some h =>
    simp only [handleAck, get_ok hf, ok_bind] at ht
    split_ifs at ht
    · exact (deallocHarq_emptied hl ht).1.toKeeps
    · cases hst : h.status with
      | empty =>
        simp only [setPendingRetx, get_ok hf, ok_bind, hst] at ht
        cases ht
      | pendingRetx =>
        simp only [setPendingRetx, get_ok hf, ok_bind, hst] at ht
        cases ht
        exact .refl hl
      | waitingAck =>
        obtain ⟨u, hu, hp⟩ := setPendingRetx_puts hf hl hst
        rw [hu] at ht
        cases ht
        exact hp.keeps hl hf rfl rfl

theorem handleNewRetx_keeps {slTx slAck : SlotPoint} {b : Bool} (hl : Linked cfg s)
    (ht : s.handleNewRetx cfg r slTx slAck = .ok (b, t)) : Keeps cfg s t := by
  cases hf : s.find r with
  | none =>
    simp only [handleNewRetx, get_error hf, error_bind] at ht
    cases ht
  | some h =>
    by_cases hp : h.status = .pendingRetx
    · obtain ⟨u, hu, hputs⟩ := handleNewRetx_puts hf hl hp slTx slAck
      rw [hu] at ht
      cases ht
      exact hputs.keeps hl hf rfl rfl
    · simp only [handleNewRetx, get_ok hf, ok_bind, if_pos hp, ne_eq] at ht
      cases ht
      exact .refl hl

theorem cancelRetxs_keeps (hl : Linked cfg s) (ht : s.cancelRetxs cfg r = .ok t) : Keeps cfg s t := by
  cases hf : s.find r with
  | none =>
    simp only [cancelRetxs, get_error hf, error_bind] at ht
    cases ht
  | some h =>
    cases hst : h.status with
    | empty =>
      simp only [cancelRetxs, get_ok hf, ok_bind, hst] at ht
      cases ht
      exact .refl hl
    | pendingRetx =>
      simp only [cancelRetxs, get_ok hf, ok_bind, hst] at ht
      exact (deallocHarq_emptied hl ht).1.toKeeps
    | waitingAck =>
      obtain ⟨u, hu, hp⟩ := cancelRetxs_puts hf hl hst
      rw [hu] at ht
      cases ht
      exact hp.keeps hl hf rfl rfl

theorem allocHarq_keeps {ueIdx n : Nat} {slTx slAck : SlotPoint} {b : Bool} {res : Option HarqRef}
    (hl : Linked cfg s) (ht : s.allocHarq cfg ueIdx slTx slAck n b = .ok (res, t)) : Keeps cfg s t := by
  by_cases hu : cfg.maxUes ≤ ueIdx
  · rw [allocHarq, if_pos hu] at ht
    cases ht
  · cases hsel : selectHarqId cfg (s.ues ueIdx) b with
    | none =>
      simp only [allocHarq, if_neg hu, hsel, Option.bind_none] at ht
      cases ht
      exact .refl hl
    | some ids =>
      cases hlast : ids.getLast? with
      | none =>
        simp only [allocHarq, if_neg hu, hsel, Option.bind_some, hlast] at ht
        cases ht
        exact .refl hl
      | some i =>
        obtain ⟨h, u, hf, hut, hp⟩ := allocHarq_selected hl (Nat.not_le.mp hu) hsel hlast slTx slAck n
        rw [hut] at ht
        cases ht
        exact hp.keeps hl hf rfl rfl

structure Moded (cfg : CellHarqConfig) (s : CellHarqRepository) : Prop where
  linked : Linked cfg s
  few : ∀ u, (s.ues u).harqs.length ≤ cfg.maxHarqsPerUe
  ntn : ∀ u, (s.ues u).feedbackDisabledOrModeBHarqPresent = true → 0 < cfg.ntnCsKoffset ∧ 0 < cfg.maxHarqsPerUe

theorem moded_new : Moded cfg new :=
  ⟨inv_new.linked, fun _ => Nat.zero_le _, fun _ h => absurd h Bool.false_ne_true⟩

theorem Keeps.length (hk : Keeps cfg s t) (u : Nat) : (t.ues u).harqs.length = (s.ues u).harqs.length := by
  have hiff : ∀ i, i < (t.ues u).harqs.length ↔ i < (s.ues u).harqs.length := by
    intro i
    have hsome := Bool.eq_iff_iff.mp (hk.isSome ⟨u, i⟩)
    simpa [CellHarqRepository.find] using hsome
  exact Nat.le_antisymm (Nat.not_lt.mp fun h => lt_irrefl _ ((hiff _).mp h))
    (Nat.not_lt.mp fun h => lt_irrefl _ ((hiff _).mpr h))

theorem Moded.keeps (hm : Moded cfg s) (hk : Keeps cfg s t) : Moded cfg t where
  linked := hk.linked
  few u := hk.length u ▸ hm.few u
  ntn u h := hm.ntn u (hk.flag u ▸ h)

theorem Moded.updateUe (hm : Moded cfg s) {ueIdx : Nat} {f : UeHarqEntity → UeHarqEntity}
    (hl : Linked cfg (s.updateUe ueIdx f)) (hfew : (f (s.ues ueIdx)).harqs.length ≤ cfg.maxHarqsPerUe)
    (hntn : (f (s.ues ueIdx)).feedbackDisabledOrModeBHarqPresent = true →
      0 < cfg.ntnCsKoffset ∧ 0 < cfg.maxHarqsPerUe) : Moded cfg (s.updateUe ueIdx f) := by
  refine ⟨hl, fun u => ?_, fun u => ?_⟩
  · by_cases hu : u = ueIdx
    · subst hu
      simpa [CellHarqRepository.updateUe] using hfew
    · simpa [CellHarqRepository.updateUe, hu] using hm.few u
  · by_cases hu : u = ueIdx
    · subst hu
      simpa [CellHarqRepository.updateUe] using hntn
    · simpa [CellHarqRepository.updateUe, hu] using hm.ntn u

theorem Moded.destroyUe {ueIdx : Nat} (hm : Moded cfg s) (ht : s.destroyUe cfg ueIdx = .ok t) : Moded cfg t := by
  unfold CellHarqRepository.destroyUe at ht
  split_ifs at ht with hu
  obtain ⟨u, hdealloc, ht⟩ := bind_eq_ok.mp ht
  cases ht
  obtain ⟨hsu, hempty⟩ := deallocUe_emptied hm.linked hdealloc
  have hmu := hm.keeps hsu.toKeeps
  refine hmu.updateUe (hmu.linked.refit (Nat.not_le.mp hu) fun i => .inr ⟨hempty i, by simp, by simp⟩) ?_ ?_
  · exact Nat.zero_le _
  · exact hmu.ntn ueIdx

theorem length_resizeHarqs (harqs : List HarqProcess) (n : Nat) : (resizeHarqs harqs n).length = n := by
  rw [resizeHarqs, List.length_append, List.length_take, List.length_replicate]
  omega

theorem Moded.reserveUeHarqs {ueIdx n : Nat} (hm : Moded cfg s) (ht : s.reserveUeHarqs cfg ueIdx n = .ok t) :
    Moded cfg t := by
  unfold CellHarqRepository.reserveUeHarqs at ht
  split_ifs at ht with h1 h2 h3
  cases ht
  refine hm.updateUe (hm.linked.refit (Nat.not_le.mp h2) (reserve_refits (not_ne_iff.mp h3))) ?_ (hm.ntn ueIdx)
  rw [List.length_mapIdx, length_resizeHarqs]
  exact Nat.not_lt.mp fun hc => h1 (.inr hc)

theorem Moded.extendUeHarqs {ueIdx n : Nat} (hm : Moded cfg s) (ht : s.extendUeHarqs cfg ueIdx n = .ok t) :
    Moded cfg t ∧ (t.ues ueIdx).harqs.length = n := by
  unfold CellHarqRepository.extendUeHarqs at ht
  dsimp only at ht
  split_ifs at ht with h1 h2 h3
  cases ht
  refine ⟨hm.updateUe (hm.linked.refit (Nat.not_le.mp h1) (extend_refits hm.linked (Nat.not_lt.mp h2))) ?_
    (hm.ntn ueIdx), ?_⟩
  · rw [List.length_mapIdx, length_resizeHarqs]
    exact Nat.not_lt.mp h3
  · simp [CellHarqRepository.updateUe, length_resizeHarqs]

theorem Moded.growUeHarqs {ueIdx n : Nat} (hm : Moded cfg s) (ht : s.growUeHarqs cfg ueIdx n = .ok t) :
    Moded cfg t ∧ (t.ues ueIdx).harqs.length = n := by
  unfold CellHarqRepository.growUeHarqs at ht
  split_ifs at ht with hn
  · exact hm.extendUeHarqs ht
  · cases ht
    exact ⟨hm, (not_ne_iff.mp hn).symm⟩

theorem Moded.reconfigure {ueIdx n : Nat} {disabled : List Bool} {b : Bool} (hm : Moded cfg s)
    (ht : s.reconfigure cfg ueIdx n disabled b = .ok t) : Moded cfg t := by
  unfold CellHarqRepository.reconfigure at ht
  split_ifs at ht with h1 h2 h3
  · cases ht
    exact hm
  obtain ⟨u, hu, ht⟩ := bind_eq_ok.mp ht
  obtain ⟨hmu, hlen⟩ := hm.growUeHarqs hu
  unfold setModes at ht
  split_ifs at ht
  · cases ht
    exact hmu
  · cases ht
    have hpos : 0 < (s.ues ueIdx).harqs.length := List.length_pos_iff.mpr fun hc => h1 (.inr hc)
    refine hmu.updateUe (hmu.linked.updateUe (Nat.not_le.mp fun hc => h1 (.inl hc)) fun i => .inl ⟨?_, rfl⟩) ?_ ?_
    · simp only [applyMask, List.getElem?_map, Option.map_map]
      rfl
    · rw [applyMask, List.length_map]
      exact hmu.few ueIdx
    · exact fun _ => ⟨Nat.pos_of_ne_zero h3, hpos.trans_le ((Nat.not_lt.mp h2).trans (hlen ▸ hmu.few ueIdx))⟩

theorem Moded.step {e : HarqEvent} (hm : Moded cfg s) (ht : s.step cfg e = .ok t) : Moded cfg t := by
  have hl := hm.linked
  cases e with
  | slotIndication slTx =>
    have hind : Moded cfg (s.indicated slTx) := ⟨⟨hl.view, hl.ueIdx, hl.hId, hl.within⟩, hm.few, hm.ntn⟩
    exact hind.keeps (expireBucket_keeps hind.linked ht)
  | stop =>
    obtain ⟨u, hu, ht⟩ := bind_eq_ok.mp ht
    cases ht
    have hmu := hm.keeps (stopUes_keeps hl hu)
    exact ⟨⟨hmu.linked.view, hmu.linked.ueIdx, hmu.linked.hId, hmu.linked.within⟩, hmu.few, hmu.ntn⟩
  | allocHarq ueIdx slTx slAck n b =>
    obtain ⟨⟨res, u⟩, hu, rfl⟩ := map_eq_ok.mp ht
    exact hm.keeps (allocHarq_keeps hl hu)
  | newRetx r slTx slAck =>
    obtain ⟨⟨b, u⟩, hu, rfl⟩ := map_eq_ok.mp ht
    exact hm.keeps (handleNewRetx_keeps hl hu)
  | ack r ack => exact hm.keeps (handleAck_keeps hl ht)
  | cancelRetxs r => exact hm.keeps (cancelRetxs_keeps hl ht)
  | deallocHarq r => exact hm.keeps (deallocHarq_emptied hl ht).1.toKeeps
  | reserveUeHarqs ueIdx n => exact hm.reserveUeHarqs ht
  | extendUeHarqs ueIdx n => exact (hm.extendUeHarqs ht).1
  | destroyUe ueIdx => exact hm.destroyUe ht

theorem Moded.stepOp {op : HarqOp} (hm : Moded cfg s) (ht : s.stepOp cfg op = .ok t) : Moded cfg t := by
  cases op with
  | event e => exact hm.step ht
  | reconfigure ueIdx n disabled b => exact hm.reconfigure ht

theorem run_moded {ops : List HarqOp} (hrun : Machine.run (stepOp cfg) new ops = .ok s) : Moded cfg s :=
  Machine.run_invariant (Moded cfg) (fun _ _ _ hm _ ht => hm.stepOp ht) moded_new
    (Machine.admits_of_forall (fun _ _ => trivial) new ops) hrun

end CellHarqRepository

end Ocudu.Sched
