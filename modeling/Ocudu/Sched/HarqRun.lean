import Ocudu.Sched.HarqInv

/-! Runs of the HARQ repository: UEs come and go, slots pass, and the links of every process
agree with its status throughout. -/

namespace Ocudu.Sched

namespace HarqProcess.Sound

variable {r : HarqRef} {h : HarqProcess}

theorem dealloc (hs : h.Sound r) : h.dealloc.Sound r where
  ueIdx := hs.ueIdx
  hId := hs.hId
  mode := hs.mode
  nofRetxs := hs.nofRetxs
  maxRetxs := hs.maxRetxs
  pending := by simp [HarqProcess.dealloc]
  ndi := hs.ndi

theorem setPending (hs : h.Sound r) (hlt : h.nofRetxs < h.maxNofHarqRetxs) (sl : SlotPoint)
    (n : Nat) : (h.setPending sl n).Sound r where
  ueIdx := hs.ueIdx
  hId := hs.hId
  mode := hs.mode
  nofRetxs := hs.nofRetxs
  maxRetxs := hs.maxRetxs
  pending := fun _ => hlt
  ndi := hs.ndi

theorem transmit (hs : h.Sound r) {k : Nat} (hk : k ≤ h.maxNofHarqRetxs) (slTx slAck sl : SlotPoint)
    (n a : Nat) : (h.transmit slTx slAck sl k n a).Sound r where
  ueIdx := hs.ueIdx
  hId := hs.hId
  mode := hs.mode
  nofRetxs := hk
  maxRetxs := hs.maxRetxs
  pending := by simp [HarqProcess.transmit]
  ndi := hs.ndi

theorem nofRetxs_succ (hs : h.Sound r) (hp : h.status = .pendingRetx) :
    (h.nofRetxs + 1) % 2 ^ 8 ≤ h.maxNofHarqRetxs := by
  have hlt := hs.pending hp
  exact (Nat.mod_le _ _).trans hlt

theorem cancel (hs : h.Sound r) (hw : h.status = .waitingAck) : h.cancel.Sound r where
  ueIdx := hs.ueIdx
  hId := hs.hId
  mode := hs.mode
  nofRetxs := le_rfl
  maxRetxs := hs.nofRetxs.trans_lt hs.maxRetxs
  pending := by simp [HarqProcess.cancel, hw]
  ndi := hs.ndi

theorem renew (hs : h.Sound r) (n : Nat) (slTx slAck sl : SlotPoint) (m a : Nat) :
    ((h.renew n).transmit slTx slAck sl 0 m a).Sound r where
  ueIdx := hs.ueIdx
  hId := hs.hId
  mode := hs.mode
  nofRetxs := Nat.zero_le _
  maxRetxs := Nat.mod_lt _ (by decide)
  pending := by simp [HarqProcess.transmit]
  ndi := by
    have hparity : (h.newTxs + 1) % 2 = 1 ↔ ¬h.newTxs % 2 = 1 := by lia
    simp only [HarqProcess.transmit, HarqProcess.renew, hs.ndi, hparity, decide_not]

end HarqProcess.Sound

def HarqFault.isArgument : HarqFault → Prop
  | .absent | .assertion => True
  | .sanityCheck | .modeB | .notLinked | .loopBound => False

def HarqEvent.isMove : HarqEvent → Bool
  | .slotIndication _ | .stop => false
  | _ => true

namespace CellHarqRepository

variable {cfg : CellHarqConfig} {s t u : CellHarqRepository} {r : HarqRef} {h p : HarqProcess}

/-- An operation either refuses its arguments or ends in a state of `P`. -/
def Yields (x : Except HarqFault CellHarqRepository) (P : CellHarqRepository → Prop) : Prop :=
  match x with
  | .ok t => P t
  | .error f => f.isArgument

theorem Yields.mono {x : Except HarqFault CellHarqRepository} {P Q : CellHarqRepository → Prop}
    (hx : Yields x P) (hpq : ∀ t, P t → Q t) : Yields x Q := by
  cases x with
  | ok t => exact hpq t hx
  | error f => exact hx

theorem Yields.bind {x : Except HarqFault CellHarqRepository}
    {f : CellHarqRepository → Except HarqFault CellHarqRepository}
    {P Q : CellHarqRepository → Prop} (hx : Yields x P) (hf : ∀ t, P t → Yields (f t) Q) :
    Yields (x >>= f) Q := by
  cases x with
  | ok t => exact hf t hx
  | error e => exact hx

/-- Every process in use in `t` is one of `s`. -/
structure Clears (s t : CellHarqRepository) : Prop where
  find : ∀ r h, t.find r = some h → h.status ≠ .empty → s.find r = some h
  lastSlInd : t.lastSlInd = s.lastSlInd
  indications : t.indications = s.indications
  discards : t.discards = s.discards

theorem Clears.refl (s : CellHarqRepository) : Clears s s := ⟨fun _ _ hf _ => hf, rfl, rfl, rfl⟩

theorem Clears.trans (h₁ : Clears s t) (h₂ : Clears t u) : Clears s u where
  find r h hf hne := h₁.find r h (h₂.find r h hf hne) hne
  lastSlInd := h₂.lastSlInd.trans h₁.lastSlInd
  indications := h₂.indications.trans h₁.indications
  discards := h₂.discards.trans h₁.discards

theorem Puts.clears (hp : Puts cfg s t r p) (he : p.status = .empty) : Clears s t where
  find r' h hf hne := by
    by_cases hr : r' = r
    · subst hr
      rw [hp.find_self] at hf
      cases hf
      exact absurd he hne
    · rwa [hp.find_other hr] at hf
  lastSlInd := hp.lastSlInd
  indications := hp.indications
  discards := hp.discards

theorem Puts.isSome (hp : Puts cfg s t r p) (r' : HarqRef) :
    (t.find r').isSome = (s.find r').isSome := by
  by_cases hr : r' = r
  · subst hr
    rw [hp.find_self, hp.present]
    rfl
  · rw [hp.find_other hr]

structure Deallocates (cfg : CellHarqConfig) (s t : CellHarqRepository) (ueIdx : Nat)
    (hIds : List Nat) : Prop where
  inv : Inv cfg t
  clears : Clears s t
  isSome : ∀ r, (t.find r).isSome = (s.find r).isSome
  empty : ∀ i ∈ hIds, ∀ h, t.find ⟨ueIdx, i⟩ = some h → h.status = .empty

theorem deallocHarq_yields (hi : Inv cfg s) (ueIdx i : Nat) :
    Yields (s.deallocHarq cfg ⟨ueIdx, i⟩) fun t => Deallocates cfg s t ueIdx [i] := by
  cases hf : s.find ⟨ueIdx, i⟩ with
  | none =>
    simp only [deallocHarq, get_error hf, error_bind]
    trivial
  | some h =>
    by_cases he : h.status = .empty
    · rw [deallocHarq_empty hf he]
      refine ⟨hi, .refl s, fun _ => rfl, ?_⟩
      intro j hj h' hf'
      rw [List.mem_singleton.mp hj, hf] at hf'
      cases hf'
      exact he
    · obtain ⟨t, ht, hp, -⟩ := deallocHarq_puts hf hi.linked he
      rw [ht]
      refine ⟨hp.inv hi (hi.sound _ h hf).dealloc, hp.clears rfl, hp.isSome, ?_⟩
      intro j hj h' hf'
      rw [List.mem_singleton.mp hj, hp.find_self] at hf'
      cases hf'
      rfl

theorem Deallocates.cons {ueIdx i : Nat} {hIds : List Nat}
    (h₁ : Deallocates cfg s t ueIdx [i]) (h₂ : Deallocates cfg t u ueIdx hIds) :
    Deallocates cfg s u ueIdx (i :: hIds) where
  inv := h₂.inv
  clears := h₁.clears.trans h₂.clears
  isSome r := (h₂.isSome r).trans (h₁.isSome r)
  empty j hj h hf := by
    rcases List.mem_cons.mp hj with rfl | hj
    · by_contra hne
      exact hne (h₁.empty j List.mem_cons_self h (h₂.clears.find _ h hf hne))
    · exact h₂.empty j hj h hf

theorem deallocAll_yields (hi : Inv cfg s) (ueIdx : Nat) (hIds : List Nat) :
    Yields (s.deallocAll cfg ueIdx hIds) fun t => Deallocates cfg s t ueIdx hIds := by
  induction hIds generalizing s with
  | nil => exact ⟨hi, .refl s, fun _ => rfl, by simp⟩
  | cons i hIds ih =>
    rw [deallocAll]
    exact (deallocHarq_yields hi ueIdx i).bind fun t ht => (ih ht.inv).mono fun u hu => ht.cons hu

theorem Linked.view_unused (hi : Linked cfg s) (he : ∀ h, s.find r = some h → h.status = .empty) :
    (s.view r).wheel = (fun _ => 0) ∧ (s.view r).pending = 0 := by
  rw [hi.view]
  cases hf : s.find r with
  | none => exact ⟨rfl, rfl⟩
  | some h => simp [HarqView.ofProcess, he h hf]

def linkKey (h : HarqProcess) : HarqState × SlotPoint × Nat × Nat := (h.status, h.slotTimeout, h.ueIdx, h.hId)

@[simp] theorem find_updateUe_self {ueIdx : Nat} {f : UeHarqEntity → UeHarqEntity} (i : Nat) :
    (s.updateUe ueIdx f).find ⟨ueIdx, i⟩ = (f (s.ues ueIdx)).harqs[i]? := by
  simp [find, updateUe]

theorem find_updateUe_other {ueIdx v : Nat} {f : UeHarqEntity → UeHarqEntity} (hv : v ≠ ueIdx) (i : Nat) :
    (s.updateUe ueIdx f).find ⟨v, i⟩ = s.find ⟨v, i⟩ := by
  simp [find, updateUe, hv]

theorem Linked.updateUe (hi : Linked cfg s) {ueIdx : Nat} {f : UeHarqEntity → UeHarqEntity}
    (hu : ueIdx < cfg.maxUes)
    (hproc : ∀ i, (((f (s.ues ueIdx)).harqs[i]?).map linkKey = (s.find ⟨ueIdx, i⟩).map linkKey ∧
        (f (s.ues ueIdx)).freeHarqIds.count i = (s.ues ueIdx).freeHarqIds.count i) ∨
      (∀ h, s.find ⟨ueIdx, i⟩ = some h → h.status = .empty) ∧
        (f (s.ues ueIdx)).freeHarqIds.count i =
          (if ((f (s.ues ueIdx)).harqs[i]?).isSome then 1 else 0) ∧
        ∀ h, (f (s.ues ueIdx)).harqs[i]? = some h → h.status = .empty ∧ h.ueIdx = ueIdx ∧ h.hId = i) :
    Linked cfg (s.updateUe ueIdx f) := by
  have hkey : ∀ i h, (s.updateUe ueIdx f).find ⟨ueIdx, i⟩ = some h → h.ueIdx = ueIdx ∧ h.hId = i := by
    intro i h hf
    rw [find_updateUe_self] at hf
    rcases hproc i with ⟨hsame, -⟩ | ⟨-, -, hnew⟩
    · rw [hf, Option.map_some] at hsame
      obtain ⟨h', hf', heq⟩ := Option.map_eq_some_iff.mp hsame.symm
      simp only [linkKey, Prod.mk.injEq] at heq
      exact ⟨heq.2.2.1.symm.trans (hi.ueIdx _ h' hf'), heq.2.2.2.symm.trans (hi.hId _ h' hf')⟩
    · exact (hnew h hf).2
  refine ⟨?_, ?_, ?_, ?_⟩
  · rintro ⟨v, i⟩
    by_cases hv : v = ueIdx
    · subst hv
      have hview : (s.updateUe v f).view ⟨v, i⟩ = ⟨(f (s.ues v)).harqs[i]?,
          (f (s.ues v)).freeHarqIds.count i, (s.view ⟨v, i⟩).wheel, (s.view ⟨v, i⟩).pending⟩ := by
        simp [CellHarqRepository.view, CellHarqRepository.find, CellHarqRepository.updateUe]
      rw [find_updateUe_self, hview]
      rcases hproc i with ⟨hsame, hcount⟩ | ⟨hold, hcount, hnew⟩
      · have hfree : (s.ues v).freeHarqIds.count i = (s.view ⟨v, i⟩).free := rfl
        rw [hcount, hfree, hi.view ⟨v, i⟩]
        cases hp : (f (s.ues v)).harqs[i]? with
        | none =>
          rw [hp, Option.map_none] at hsame
          rw [Option.map_eq_none_iff.mp hsame.symm]
          rfl
        | some h =>
          rw [hp, Option.map_some] at hsame
          obtain ⟨h', hf', heq⟩ := Option.map_eq_some_iff.mp hsame.symm
          simp only [linkKey, Prod.mk.injEq] at heq
          simp only [hf', HarqView.ofProcess, heq.1, heq.2.1]
      · rw [(hi.view_unused hold).1, (hi.view_unused hold).2, hcount]
        cases hp : (f (s.ues v)).harqs[i]? with
        | none => rfl
        | some h => simp [HarqView.ofProcess, (hnew h hp).1]
    · rw [find_updateUe_other hv, ← hi.view]
      simp [CellHarqRepository.view, CellHarqRepository.find, CellHarqRepository.updateUe, hv]
  · rintro ⟨v, i⟩ h hf
    by_cases hv : v = ueIdx
    · subst hv
      exact (hkey i h hf).1
    · rw [find_updateUe_other hv] at hf
      exact hi.ueIdx _ h hf
  · rintro ⟨v, i⟩ h hf
    by_cases hv : v = ueIdx
    · subst hv
      exact (hkey i h hf).2
    · rw [find_updateUe_other hv] at hf
      exact hi.hId _ h hf
  · rintro ⟨v, i⟩ hf
    by_cases hv : v = ueIdx
    · subst hv
      exact hu
    · rw [find_updateUe_other hv] at hf
      exact hi.within _ hf

/-- In `ue` each process of a UE is as it is in `s`, or goes from unused to unused. -/
def Refits (s : CellHarqRepository) (ueIdx : Nat) (ue : UeHarqEntity) : Prop :=
  ∀ i, (ue.harqs[i]? = s.find ⟨ueIdx, i⟩ ∧ ue.freeHarqIds.count i = (s.ues ueIdx).freeHarqIds.count i) ∨
    (∀ h, s.find ⟨ueIdx, i⟩ = some h → h.status = .empty) ∧
      ue.freeHarqIds.count i = (if (ue.harqs[i]?).isSome then 1 else 0) ∧
      ∀ h, ue.harqs[i]? = some h → h.status = .empty ∧ h.Sound ⟨ueIdx, i⟩

theorem Linked.refit (hi : Linked cfg s) {ueIdx : Nat} {f : UeHarqEntity → UeHarqEntity} (hu : ueIdx < cfg.maxUes)
    (hproc : Refits s ueIdx (f (s.ues ueIdx))) : Linked cfg (s.updateUe ueIdx f) := by
  refine hi.updateUe hu fun i => (hproc i).imp (fun hsame => ⟨by rw [hsame.1], hsame.2⟩) fun hnew => ?_
  refine ⟨hnew.1, hnew.2.1, fun h hf => ?_⟩
  obtain ⟨hempty, hsound⟩ := hnew.2.2 h hf
  exact ⟨hempty, hsound.ueIdx, hsound.hId⟩

theorem Inv.updateUe (hi : Inv cfg s) {ueIdx : Nat} {f : UeHarqEntity → UeHarqEntity}
    (hu : ueIdx < cfg.maxUes)
    (hn : (f (s.ues ueIdx)).feedbackDisabledOrModeBHarqPresent =
      (s.ues ueIdx).feedbackDisabledOrModeBHarqPresent)
    (hproc : Refits s ueIdx (f (s.ues ueIdx))) :
    Inv cfg (s.updateUe ueIdx f) ∧ Clears s (s.updateUe ueIdx f) := by
  have hlinked := hi.linked.refit hu hproc
  refine ⟨⟨hlinked.view, ?_, hlinked.within, ?_⟩, ⟨?_, rfl, rfl, rfl⟩⟩
  · rintro ⟨v, i⟩ h hf
    by_cases hv : v = ueIdx
    · subst hv
      rw [find_updateUe_self] at hf
      rcases hproc i with hsame | hnew
      · exact hi.sound _ h (hsame.1 ▸ hf)
      · exact (hnew.2.2 h hf).2
    · rw [find_updateUe_other hv] at hf
      exact hi.sound _ h hf
  · intro v
    by_cases hv : v = ueIdx
    · subst hv
      simp [CellHarqRepository.updateUe, hn, hi.normal]
    · simp [CellHarqRepository.updateUe, hv, hi.normal]
  · rintro ⟨v, i⟩ h hf hne
    by_cases hv : v = ueIdx
    · subst hv
      rw [find_updateUe_self] at hf
      rcases hproc i with hsame | hnew
      · exact hsame.1 ▸ hf
      · exact absurd (hnew.2.2 h hf).1 hne
    · rwa [find_updateUe_other hv] at hf

theorem defaultHarq_sound (ueIdx hId : Nat) :
    (initHarq ueIdx hId defaultHarq).status = .empty ∧
      (initHarq ueIdx hId defaultHarq).Sound ⟨ueIdx, hId⟩ :=
  ⟨rfl, ⟨rfl, rfl, rfl, le_rfl, Nat.two_pow_pos 8, by simp [initHarq, defaultHarq], rfl⟩⟩

theorem reserve_refits {ueIdx n : Nat} (hnil : (s.ues ueIdx).harqs = []) :
    Refits s ueIdx { s.ues ueIdx with
      harqs := (resizeHarqs (s.ues ueIdx).harqs n).mapIdx fun hId h => initHarq ueIdx hId h
      freeHarqIds := (List.range n).reverse } := by
  refine fun i => .inr ⟨?_, ?_, ?_⟩
  · intro h hf
    simp [find, hnil] at hf
  · have hnodup : (List.range n).reverse.Nodup := List.nodup_reverse.mpr List.nodup_range
    simp [hnil, resizeHarqs, hnodup.count]
  · intro h hf
    simp only [hnil, resizeHarqs, List.take_nil, List.length_nil, Nat.sub_zero, List.nil_append,
      List.getElem?_mapIdx, Option.map_eq_some_iff, List.getElem?_replicate] at hf
    obtain ⟨a, ha, rfl⟩ := hf
    split_ifs at ha
    cases ha
    exact defaultHarq_sound ueIdx i

theorem reserveUeHarqs_yields (hi : Inv cfg s) (ueIdx n : Nat) :
    Yields (s.reserveUeHarqs cfg ueIdx n) fun t => Inv cfg t ∧ Clears s t := by
  unfold reserveUeHarqs
  split_ifs with h1 h2 h3
  · trivial
  · trivial
  · trivial
  · exact hi.updateUe (Nat.not_le.mp h2) rfl (reserve_refits (not_ne_iff.mp h3))

theorem extend_refits (hi : Linked cfg s) {ueIdx n : Nat} (hle : (s.ues ueIdx).harqs.length ≤ n) :
    Refits s ueIdx { s.ues ueIdx with
      harqs := (resizeHarqs (s.ues ueIdx).harqs n).mapIdx fun hId h =>
        if (s.ues ueIdx).harqs.length ≤ hId then initHarq ueIdx hId h else h
      freeHarqIds := (s.ues ueIdx).freeHarqIds ++
        (List.range' (s.ues ueIdx).harqs.length (n - (s.ues ueIdx).harqs.length)).reverse } := by
  have hnodup : (List.range' (s.ues ueIdx).harqs.length
      (n - (s.ues ueIdx).harqs.length)).reverse.Nodup := List.nodup_reverse.mpr List.nodup_range'
  intro i
  by_cases hlt : i < (s.ues ueIdx).harqs.length
  · refine .inl ⟨?_, ?_⟩
    · rw [List.getElem?_mapIdx, resizeHarqs, List.take_of_length_le hle,
        List.getElem?_append_left hlt]
      simp [find, Nat.not_le.mpr hlt]
    · rw [List.count_append, hnodup.count, if_neg (by simp; omega)]
      rfl
  · have hge : (s.ues ueIdx).harqs.length ≤ i := Nat.not_lt.mp hlt
    have hnone : s.find ⟨ueIdx, i⟩ = none := List.getElem?_eq_none hge
    have hcount : (s.ues ueIdx).freeHarqIds.count i = 0 := by
      have hview := congrArg HarqView.free (hi.view ⟨ueIdx, i⟩)
      rw [hnone] at hview
      exact hview
    have hget : ((resizeHarqs (s.ues ueIdx).harqs n).mapIdx fun hId h =>
        if (s.ues ueIdx).harqs.length ≤ hId then initHarq ueIdx hId h else h)[i]? =
        if i < n then some (initHarq ueIdx i defaultHarq) else none := by
      rw [List.getElem?_mapIdx, resizeHarqs, List.take_of_length_le hle,
        List.getElem?_append_right hge, List.getElem?_replicate]
      by_cases hn : i < n
      · rw [if_pos hn, if_pos (by omega)]
        simp [hge]
      · rw [if_neg hn, if_neg (by omega)]
        rfl
    refine .inr ⟨by simp [hnone], ?_, ?_⟩
    · rw [hget, List.count_append, hcount, hnodup.count]
      by_cases hn : i < n
      · rw [if_pos (by simp; omega), if_pos hn]
        rfl
      · rw [if_neg (by simp; omega), if_neg hn]
        rfl
    · intro h hf
      rw [hget] at hf
      split_ifs at hf
      cases hf
      exact defaultHarq_sound ueIdx i

theorem extendUeHarqs_yields (hi : Inv cfg s) (ueIdx n : Nat) :
    Yields (s.extendUeHarqs cfg ueIdx n) fun t => Inv cfg t ∧ Clears s t := by
  unfold extendUeHarqs
  dsimp only
  split_ifs with h1 h2 h3
  · trivial
  · trivial
  · trivial
  · exact hi.updateUe (Nat.not_le.mp h1) rfl (extend_refits hi.linked (Nat.not_lt.mp h2))

/-- All processes of the UEs of a list are deallocated. -/
structure Frees (cfg : CellHarqConfig) (s t : CellHarqRepository) (ueIdxs : List Nat) : Prop where
  inv : Inv cfg t
  clears : Clears s t
  isSome : ∀ r, (t.find r).isSome = (s.find r).isSome
  empty : ∀ ueIdx ∈ ueIdxs, ∀ i h, t.find ⟨ueIdx, i⟩ = some h → h.status = .empty

theorem deallocAll_frees (hi : Inv cfg s) (ueIdx : Nat) :
    Yields (s.deallocAll cfg ueIdx (List.range (s.ues ueIdx).harqs.length)) fun t =>
      Frees cfg s t [ueIdx] := by
  refine (deallocAll_yields hi ueIdx _).mono fun t ht => ⟨ht.inv, ht.clears, ht.isSome, ?_⟩
  intro v hv i h hf
  cases List.mem_singleton.mp hv
  refine ht.empty i ?_ h hf
  have hsome : (s.find ⟨ueIdx, i⟩).isSome := by
    rw [← ht.isSome, hf]
    rfl
  rw [List.mem_range]
  simpa [find] using hsome

theorem Frees.cons {ueIdx : Nat} {ueIdxs : List Nat} (h₁ : Frees cfg s t [ueIdx])
    (h₂ : Frees cfg t u ueIdxs) : Frees cfg s u (ueIdx :: ueIdxs) where
  inv := h₂.inv
  clears := h₁.clears.trans h₂.clears
  isSome r := (h₂.isSome r).trans (h₁.isSome r)
  empty v hv i h hf := by
    rcases List.mem_cons.mp hv with rfl | hv
    · by_contra hne
      exact hne (h₁.empty v List.mem_cons_self i h (h₂.clears.find _ h hf hne))
    · exact h₂.empty v hv i h hf

theorem stopUes_yields (hi : Inv cfg s) (ueIdxs : List Nat) :
    Yields (s.stopUes cfg ueIdxs) fun t => Frees cfg s t ueIdxs := by
  induction ueIdxs generalizing s with
  | nil => exact ⟨hi, .refl s, fun _ => rfl, by simp⟩
  | cons ueIdx ueIdxs ih =>
    rw [stopUes]
    exact (deallocAll_frees hi ueIdx).bind fun t ht => (ih ht.inv).mono fun u hu => ht.cons hu

theorem destroyUe_yields (hi : Inv cfg s) (ueIdx : Nat) :
    Yields (s.destroyUe cfg ueIdx) fun t => Inv cfg t ∧ Clears s t := by
  unfold destroyUe
  split_ifs with hu
  · trivial
  · refine (deallocAll_frees hi ueIdx).bind fun t ht => ?_
    have hup := ht.inv.updateUe (f := fun ue => { ue with harqs := [], freeHarqIds := [] })
      (Nat.not_le.mp hu) rfl fun i => .inr ⟨ht.empty ueIdx List.mem_cons_self i, by simp, by simp⟩
    exact ⟨hup.1, ht.clears.trans hup.2⟩

theorem stop_yields (hi : Inv cfg s) :
    Yields (s.stop cfg) fun t => Inv cfg t ∧ (∀ r h, t.find r = some h → h.status = .empty) ∧
      t.lastSlInd = .invalid ∧ t.discards = s.discards := by
  refine (stopUes_yields hi (List.range cfg.maxUes)).bind fun t ht => ?_
  refine ⟨⟨ht.inv.view, ht.inv.sound, ht.inv.within, ht.inv.normal⟩, ?_, rfl, ht.clears.discards⟩
  rintro ⟨ueIdx, i⟩ h hf
  have hu : ueIdx < cfg.maxUes := ht.inv.within ⟨ueIdx, i⟩ (by rw [show t.find _ = some h from hf]; rfl)
  exact ht.empty ueIdx (List.mem_range.mpr hu) i h hf

def discardOf (s : CellHarqRepository) (r : HarqRef) (h : HarqProcess) (slTx : SlotPoint) :
    HarqDiscard :=
  ⟨r, h.status, slTx, h.slotTimeout, h.slotAck, s.indications - h.enteredAt, h.ackIn⟩

def discarding (s : CellHarqRepository) (d : HarqDiscard) : CellHarqRepository :=
  { s with discards := s.discards ++ [d] }

theorem Linked.discarding (hi : Linked cfg s) (d : HarqDiscard) : Linked cfg (s.discarding d) :=
  ⟨hi.view, hi.ueIdx, hi.hId, hi.within⟩

theorem Inv.discarding (hi : Inv cfg s) (d : HarqDiscard) : Inv cfg (s.discarding d) :=
  ⟨hi.view, hi.sound, hi.within, hi.normal⟩

theorem handleHarqAckTimeout_puts (hi : Linked cfg s) (hf : s.find r = some h)
    (hne : h.status ≠ .empty) (slTx : SlotPoint) :
    ∃ t, s.handleHarqAckTimeout cfg r slTx = .ok t ∧
      Puts cfg (s.discarding (s.discardOf r h slTx)) t r h.dealloc ∧
      t.harqTimeoutWheel = (s.unlinkTimeout cfg r h.slotTimeout).harqTimeoutWheel := by
  obtain ⟨t, ht, hp, hw⟩ := deallocHarq_puts (s := s.discarding (s.discardOf r h slTx)) hf (hi.discarding _) hne
  refine ⟨t, ?_, hp, hw⟩
  simp only [handleHarqAckTimeout, get_ok hf, ok_bind, if_neg hne]
  exact ht

theorem Linked.find_wheel (hi : Linked cfg s) {b : Nat} (hmem : r ∈ s.harqTimeoutWheel b) :
    ∃ h, s.find r = some h ∧ h.status ≠ .empty ∧ b = cfg.bucket h.slotTimeout := by
  have hcount : (s.harqTimeoutWheel b).count r = (HarqView.ofProcess cfg (s.find r)).wheel b :=
    congrFun (congrArg HarqView.wheel (hi.view r)) b
  have hpos : 0 < (s.harqTimeoutWheel b).count r := List.count_pos_iff.mpr hmem
  cases hf : s.find r with
  | none =>
    simp only [hf, HarqView.ofProcess] at hcount
    omega
  | some h =>
    by_contra hno
    simp only [hf, HarqView.ofProcess] at hcount
    rw [if_neg fun hp => hno ⟨h, rfl, hp⟩] at hcount
    omega

theorem expireBucket_rule {slTx : SlotPoint} {P : CellHarqRepository → Prop}
    (hstep : ∀ s t r h, Inv cfg s → P s → s.find r = some h → h.status ≠ .empty →
      cfg.bucket slTx = cfg.bucket h.slotTimeout →
      Puts cfg (s.discarding (s.discardOf r h slTx)) t r h.dealloc → P t)
    {n : Nat} (hi : Inv cfg s) (hP : P s) (hn : (s.harqTimeoutWheel (cfg.bucket slTx)).length = n) :
    ∃ t, s.expireBucket cfg slTx n = .ok t ∧ Inv cfg t ∧ P t ∧
      t.harqTimeoutWheel (cfg.bucket slTx) = [] := by
  induction n generalizing s with
  | zero =>
    have hnil := List.length_eq_zero_iff.mp hn
    exact ⟨s, if_pos hnil, hi, hP, hnil⟩
  | succ n ih =>
    cases hw : s.harqTimeoutWheel (cfg.bucket slTx) with
    | nil => simp [hw] at hn
    | cons r rs =>
      obtain ⟨h, hf, hne, hb⟩ := hi.linked.find_wheel (r := r) (b := cfg.bucket slTx) (by simp [hw])
      obtain ⟨t, ht, hp, hwt⟩ := handleHarqAckTimeout_puts hi.linked hf hne slTx
      have hrest : t.harqTimeoutWheel (cfg.bucket slTx) = rs := by
        rw [hwt]
        simp [unlinkTimeout, ← hb, hw]
      have hit := hp.inv (hi.discarding _) (hi.sound r h hf).dealloc
      obtain ⟨v, hv, hiv, hPv, hnil⟩ := ih hit (hstep s t r h hi hP hf hne hb hp) (by
        rw [hrest]
        simpa [hw] using hn)
      refine ⟨v, ?_, hiv, hPv, hnil⟩
      rw [expireBucket, hw]
      simp only [ht, ok_bind, hv]

def indicated (s : CellHarqRepository) (slTx : SlotPoint) : CellHarqRepository :=
  { s with lastSlInd := slTx, indications := s.indications + 1 }

theorem Inv.indicated (hi : Inv cfg s) (slTx : SlotPoint) : Inv cfg (s.indicated slTx) :=
  ⟨hi.view, hi.sound, hi.within, hi.normal⟩

theorem slotIndication_rule {slTx : SlotPoint} {P : CellHarqRepository → Prop}
    (hstep : ∀ s t r h, Inv cfg s → P s → s.find r = some h → h.status ≠ .empty →
      cfg.bucket slTx = cfg.bucket h.slotTimeout →
      Puts cfg (s.discarding (s.discardOf r h slTx)) t r h.dealloc → P t)
    (hi : Inv cfg s) (hP : P (s.indicated slTx)) :
    ∃ t, s.slotIndication cfg slTx = .ok t ∧ Inv cfg t ∧ P t ∧
      t.harqTimeoutWheel (cfg.bucket slTx) = [] :=
  expireBucket_rule hstep (hi.indicated slTx) hP rfl

inductive Moves (cfg : CellHarqConfig) (s t : CellHarqRepository) : HarqEvent → Prop
  | clears {e : HarqEvent} : Clears s t → Moves cfg s t e
  | alloc {u i : Nat} {slTx slAck : SlotPoint} {n : Nat} {b : Bool} {h : HarqProcess} :
    s.find ⟨u, i⟩ = some h →
    Puts cfg s t ⟨u, i⟩ ((h.renew n).transmit slTx slAck (slAck.add cfg.maxAckWaitTimeout)
      0 s.indications (s.slotsAhead slAck)) →
    Moves cfg s t (.allocHarq u slTx slAck n b)
  | newRetx {r : HarqRef} {slTx slAck : SlotPoint} {h : HarqProcess} :
    s.find r = some h → h.status = .pendingRetx →
    Puts cfg s t r (h.transmit slTx slAck (slAck.add cfg.maxAckWaitTimeout)
      ((h.nofRetxs + 1) % 2 ^ 8) s.indications (s.slotsAhead slAck)) →
    Moves cfg s t (.newRetx r slTx slAck)
  | nack {r : HarqRef} {h : HarqProcess} :
    s.find r = some h → h.status = .waitingAck → h.nofRetxs < h.maxNofHarqRetxs →
    Puts cfg s t r (h.setPending (s.lastSlInd.add cfg.harqRetxTimeout) s.indications) →
    Moves cfg s t (.ack r false)
  | cancel {r : HarqRef} {h : HarqProcess} :
    s.find r = some h → h.status = .waitingAck → Puts cfg s t r h.cancel →
    Moves cfg s t (.cancelRetxs r)

/-- A NACK for a process that is not in use; those who call `handle_ack` check for it. -/
def NacksEmpty (s : CellHarqRepository) (e : HarqEvent) : Prop :=
  ∃ r h, e = .ack r false ∧ s.find r = some h ∧ h.status = .empty

theorem handleAck_yields (hi : Inv cfg s) (r : HarqRef) (ack : Bool) :
    Yields (s.handleAck cfg r ack) (fun t => Inv cfg t ∧ Moves cfg s t (.ack r ack)) ∨
      NacksEmpty s (.ack r ack) ∧ s.handleAck cfg r ack = .error .sanityCheck := by
  cases hf : s.find r with
  | none =>
    left
    simp only [handleAck, get_error hf, error_bind]
    trivial
  | some h =>
    have hsound := hi.sound r h hf
    have hmode : ¬h.mode = .feedbackDisabledOrModeB := by simp [hsound.mode]
    simp only [handleAck, get_ok hf, ok_bind, if_neg hmode]
    split_ifs with hack
    · left
      exact (deallocHarq_yields hi r.ueIdx r.hId).mono fun t ht => ⟨ht.inv, .clears ht.clears⟩
    · have hfalse : ack = false := by simpa using fun hb => hack (.inl hb)
      subst hfalse
      cases hst : h.status with
      | empty =>
        right
        refine ⟨⟨r, h, rfl, hf, hst⟩, ?_⟩
        simp only [setPendingRetx, get_ok hf, ok_bind, hst]
      | pendingRetx =>
        left
        simp only [setPendingRetx, get_ok hf, ok_bind, hst]
        exact ⟨hi, .clears (.refl s)⟩
      | waitingAck =>
        left
        obtain ⟨t, ht, hp⟩ := setPendingRetx_puts hf hi.linked hst
        rw [ht]
        have hlt : h.nofRetxs < h.maxNofHarqRetxs := Nat.not_le.mp fun hle => hack (.inr hle)
        exact ⟨hp.inv hi (hsound.setPending hlt _ _), .nack hf hst hlt hp⟩

theorem handleNewRetx_yields (hi : Inv cfg s) (r : HarqRef) (slTx slAck : SlotPoint) :
    Yields ((s.handleNewRetx cfg r slTx slAck).map Prod.snd) fun t =>
      Inv cfg t ∧ Moves cfg s t (.newRetx r slTx slAck) := by
  cases hf : s.find r with
  | none =>
    simp only [handleNewRetx, get_error hf, error_bind]
    trivial
  | some h =>
    by_cases hp : h.status = .pendingRetx
    · obtain ⟨t, ht, hputs⟩ := handleNewRetx_puts hf hi.linked hp slTx slAck
      rw [ht]
      have hsound := hi.sound r h hf
      exact ⟨hputs.inv hi (hsound.transmit (hsound.nofRetxs_succ hp) _ _ _ _ _), .newRetx hf hp hputs⟩
    · simp only [handleNewRetx, get_ok hf, ok_bind, if_pos hp, ne_eq]
      exact ⟨hi, .clears (.refl s)⟩

theorem cancelRetxs_yields (hi : Inv cfg s) (r : HarqRef) :
    Yields (s.cancelRetxs cfg r) fun t => Inv cfg t ∧ Moves cfg s t (.cancelRetxs r) := by
  cases hf : s.find r with
  | none =>
    simp only [cancelRetxs, get_error hf, error_bind]
    trivial
  | some h =>
    cases hst : h.status with
    | empty =>
      simp only [cancelRetxs, get_ok hf, ok_bind, hst]
      exact ⟨hi, .clears (.refl s)⟩
    | pendingRetx =>
      simp only [cancelRetxs, get_ok hf, ok_bind, hst]
      exact (deallocHarq_yields hi r.ueIdx r.hId).mono fun t ht => ⟨ht.inv, .clears ht.clears⟩
    | waitingAck =>
      obtain ⟨t, ht, hp⟩ := cancelRetxs_puts hf hi.linked hst
      rw [ht]
      exact ⟨hp.inv hi ((hi.sound r h hf).cancel hst), .cancel hf hst hp⟩

theorem allocHarq_yields (hi : Inv cfg s) (u : Nat) (slTx slAck : SlotPoint) (n : Nat) (b : Bool) :
    Yields ((s.allocHarq cfg u slTx slAck n b).map Prod.snd) fun t =>
      Inv cfg t ∧ Moves cfg s t (.allocHarq u slTx slAck n b) := by
  by_cases hu : cfg.maxUes ≤ u
  · simp only [allocHarq, if_pos hu]
    trivial
  · cases hlast : (s.ues u).freeHarqIds.getLast? with
    | none =>
      simp only [allocHarq, if_neg hu, selectHarqId_normal (hi.normal u), Option.bind_some, hlast]
      exact ⟨hi, .clears (.refl s)⟩
    | some i =>
      obtain ⟨h, t, hf, ht, hp⟩ := allocHarq_puts hi (Nat.not_le.mp hu) hlast slTx slAck n b
      rw [ht]
      exact ⟨hp.inv hi ((hi.sound _ h hf).renew n _ _ _ _ _), .alloc hf hp⟩

theorem step_moves (hi : Inv cfg s) {e : HarqEvent} (he : e.isMove = true) :
    Yields (s.step cfg e) (fun t => Inv cfg t ∧ Moves cfg s t e) ∨
      NacksEmpty s e ∧ s.step cfg e = .error .sanityCheck := by
  cases e with
  | slotIndication slTx => cases he
  | stop => cases he
  | allocHarq u slTx slAck n b => exact .inl (allocHarq_yields hi u slTx slAck n b)
  | newRetx r slTx slAck => exact .inl (handleNewRetx_yields hi r slTx slAck)
  | ack r ack => exact handleAck_yields hi r ack
  | cancelRetxs r => exact .inl (cancelRetxs_yields hi r)
  | deallocHarq r =>
    left
    exact (deallocHarq_yields hi r.ueIdx r.hId).mono fun t ht => ⟨ht.inv, .clears ht.clears⟩
  | reserveUeHarqs u n =>
    left
    exact (reserveUeHarqs_yields hi u n).mono fun t ht => ⟨ht.1, .clears ht.2⟩
  | extendUeHarqs u n =>
    left
    exact (extendUeHarqs_yields hi u n).mono fun t ht => ⟨ht.1, .clears ht.2⟩
  | destroyUe u =>
    left
    exact (destroyUe_yields hi u).mono fun t ht => ⟨ht.1, .clears ht.2⟩

theorem step_yields (hi : Inv cfg s) (e : HarqEvent) :
    Yields (s.step cfg e) (Inv cfg) ∨ NacksEmpty s e ∧ s.step cfg e = .error .sanityCheck := by
  cases he : e.isMove with
  | true => exact (step_moves hi he).imp_left fun hy => hy.mono fun t ht => ht.1
  | false =>
    left
    cases e with
    | slotIndication slTx =>
      obtain ⟨t, ht, hit, -⟩ := @slotIndication_rule cfg s slTx (fun _ => True)
        (fun _ _ _ _ _ _ _ _ _ _ => trivial) hi trivial
      simp only [step, ht]
      exact hit
    | stop => exact (stop_yields hi).mono fun t ht => ht.1
    | _ => cases he

theorem step_inv (hi : Inv cfg s) {e : HarqEvent} (ht : s.step cfg e = .ok t) : Inv cfg t := by
  rcases step_yields hi e with hy | ⟨-, hf⟩
  · rwa [ht] at hy
  · rw [ht] at hf
    cases hf

theorem inv_new : Inv cfg new :=
  ⟨fun _ => rfl, by simp [find, new], by simp [find, new], fun _ => rfl⟩

structure Consistent (cfg : CellHarqConfig) (s : CellHarqRepository) (r : HarqRef)
    (h : HarqProcess) : Prop where
  free : h.status = .empty ↔ (s.ues r.ueIdx).freeHarqIds.count r.hId = 1
  timeout : h.status ≠ .empty ↔
    ∀ b, (s.harqTimeoutWheel b).count r = if b = cfg.bucket h.slotTimeout then 1 else 0
  pendingRetx : h.status = .pendingRetx ↔ s.harqPendingRetxList.count r = 1
  nofRetxs : h.nofRetxs ≤ h.maxNofHarqRetxs
  ndi : h.ndi = decide (h.newTxs % 2 = 1)

theorem Inv.consistent (hi : Inv cfg s) (hf : s.find r = some h) : Consistent cfg s r h := by
  have hview : s.view r = .ofProcess cfg (some h) := by rw [hi.view, hf]
  have hfree : (s.ues r.ueIdx).freeHarqIds.count r.hId = if h.status = .empty then 1 else 0 :=
    congrArg HarqView.free hview
  have hwheel : ∀ b, (s.harqTimeoutWheel b).count r =
      if h.status ≠ .empty ∧ b = cfg.bucket h.slotTimeout then 1 else 0 :=
    fun b => congrFun (congrArg HarqView.wheel hview) b
  have hpending : s.harqPendingRetxList.count r = if h.status = .pendingRetx then 1 else 0 :=
    congrArg HarqView.pending hview
  refine ⟨?_, ⟨?_, ?_⟩, ?_, (hi.sound r h hf).nofRetxs, (hi.sound r h hf).ndi⟩
  · rw [hfree]
    split_ifs <;> simp_all
  · intro hne b
    rw [hwheel]
    simp [hne]
  · intro hall he
    have := (hwheel (cfg.bucket h.slotTimeout)).symm.trans (hall (cfg.bucket h.slotTimeout))
    simp [he] at this
  · rw [hpending]
    split_ifs <;> simp_all

end CellHarqRepository

end Ocudu.Sched
