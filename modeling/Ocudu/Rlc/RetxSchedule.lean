import Ocudu.Rlc.RetxCounters

/-! What a report does to the RETX counts: clearing the RETX queue rewinds the count of an SN once
for each run of RETX with this SN, and the NACKs advance it as often. -/

namespace Ocudu.Rlc.RlcTxAmEntity

open RlcRetxQueue

variable {s s' t u : RlcTxAmEntity} {w w' w'' : CircularMap RlcTxAmSduInfo} {prev prev' : Option Nat}
variable {l l' : List RlcTxAmdRetx} {sn : Nat}

def countUp (n : Nat) : Nat := if n = retxCountNotStarted then 0 else (n + 1) % 2 ^ 32

def countDown (n : Nat) : Nat :=
  if n = retxCountNotStarted then n else if n = 0 then retxCountNotStarted else n - 1

def retxTimes (n : Nat) : Nat := if n = retxCountNotStarted then 0 else n + 1

theorem retxTimes_inj {a b : Nat} (h : retxTimes a = retxTimes b) : a = b := by
  unfold retxTimes at h
  split at h <;> split at h <;> omega

theorem retxTimes_lt {n : Nat} (h : n < 2 ^ 32) : retxTimes n < 2 ^ 32 := by
  unfold retxTimes retxCountNotStarted
  split <;> omega

theorem countUp_lt (n : Nat) : countUp n < 2 ^ 32 := by
  unfold countUp
  split <;> omega

theorem countDown_lt {n : Nat} (h : n < 2 ^ 32) : countDown n < 2 ^ 32 := by
  unfold countDown retxCountNotStarted
  split
  · exact h
  · split <;> omega

theorem retxTimes_countUp {n : Nat} (h : n < 2 ^ 32) : retxTimes (countUp n) = (retxTimes n + 1) % 2 ^ 32 := by
  unfold retxTimes countUp retxCountNotStarted
  split
  · simp
  · by_cases htop : n = 2 ^ 32 - 2
    · rw [htop]
      decide
    · have hmod : (n + 1) % 2 ^ 32 = n + 1 := Nat.mod_eq_of_lt (by omega)
      rw [hmod, if_neg (by omega), Nat.mod_eq_of_lt (by omega)]

theorem retxTimes_countDown {n : Nat} (h : n < 2 ^ 32) : retxTimes (countDown n) = retxTimes n - 1 := by
  unfold retxTimes countDown retxCountNotStarted
  by_cases htop : n = 4294967295
  · rw [htop]
    decide
  · rw [if_neg htop, if_neg htop]
    by_cases h0 : n = 0
    · rw [h0]
      decide
    · rw [if_neg h0, if_neg (by omega)]
      lia

theorem retxTimes_ups {n : Nat} (h : n < 2 ^ 32) (b : Nat) :
    countUp^[b] n < 2 ^ 32 ∧ retxTimes (countUp^[b] n) = (retxTimes n + b) % 2 ^ 32 := by
  induction b with
  | zero => exact ⟨h, (Nat.mod_eq_of_lt (retxTimes_lt h)).symm⟩
  | succ b ih =>
    rw [Function.iterate_succ_apply']
    refine ⟨countUp_lt _, ?_⟩
    rw [retxTimes_countUp ih.1, ih.2, Nat.mod_add_mod, Nat.add_assoc]

theorem retxTimes_downs {n : Nat} (h : n < 2 ^ 32) (b : Nat) :
    countDown^[b] n < 2 ^ 32 ∧ retxTimes (countDown^[b] n) = retxTimes n - b := by
  induction b with
  | zero => exact ⟨h, rfl⟩
  | succ b ih =>
    rw [Function.iterate_succ_apply']
    refine ⟨countDown_lt ih.1, ?_⟩
    rw [retxTimes_countDown ih.1, ih.2]
    omega

theorem countDown_countUp {n b : Nat} (h : n < 2 ^ 32) (hb : b ≤ retxTimes (countUp^[b] n)) :
    countDown^[b] (countUp^[b] n) = n := by
  obtain ⟨hlt', hup⟩ := retxTimes_ups h b
  apply retxTimes_inj
  rw [(retxTimes_downs hlt' b).2]
  rw [hup] at hb ⊢
  have hlt := retxTimes_lt h
  have hdiv := Nat.mod_add_div (retxTimes n + b) (2 ^ 32)
  generalize (retxTimes n + b) % 2 ^ 32 = x at hb hdiv ⊢
  generalize (retxTimes n + b) / 2 ^ 32 = y at hdiv
  have hy : y = 0 := by omega
  subst hy
  omega

def runs (sn : Nat) : Option Nat → List RlcTxAmdRetx → Nat
  | _, [] => 0
  | prev, retx :: rest => (if retx.sn = sn ∧ prev ≠ some sn then 1 else 0) + runs sn (some retx.sn) rest

def lastSn : Option Nat → List RlcTxAmdRetx → Option Nat
  | prev, [] => prev
  | _, retx :: rest => lastSn (some retx.sn) rest

theorem runs_append (sn : Nat) (prev : Option Nat) (l l' : List RlcTxAmdRetx) :
    runs sn prev (l ++ l') = runs sn prev l + runs sn (lastSn prev l) l' := by
  induction l generalizing prev with
  | nil => simp [runs, lastSn]
  | cons retx rest ih =>
    rw [List.cons_append, runs, runs, lastSn, ih]
    omega

@[simp] theorem lastSn_append (prev : Option Nat) (l l' : List RlcTxAmdRetx) :
    lastSn prev (l ++ l') = lastSn (lastSn prev l) l' := by
  induction l generalizing prev with
  | nil => rfl
  | cons retx rest ih => exact ih (some retx.sn)

/-- The count of each SN has gone through `f`, and nothing else is different. -/
def Recounted (w w' : CircularMap RlcTxAmSduInfo) (f : Nat → Nat → Nat) : Prop :=
  ∀ sn, w'.lookup sn = (w.lookup sn).map (fun info => { info with retxCount := f sn info.retxCount })

theorem Recounted.refl (w : CircularMap RlcTxAmSduInfo) : Recounted w w (fun _ n => n) := by
  intro sn
  simp

theorem Recounted.trans {f g : Nat → Nat → Nat} (h : Recounted w w' f) (h' : Recounted w' w'' g) :
    Recounted w w'' (fun sn n => g sn (f sn n)) := by
  intro sn
  rw [h' sn, h sn, Option.map_map]
  rfl

theorem Recounted.of_eq {f g : Nat → Nat → Nat} (h : Recounted w w' f)
    (hfg : ∀ sn info, w.lookup sn = some info → f sn info.retxCount = g sn info.retxCount) :
    Recounted w w' g := by
  intro sn
  rw [h sn]
  cases hl : w.lookup sn with
  | none => rfl
  | some info => rw [Option.map_some, Option.map_some, hfg sn info hl]

theorem Recounted.modify (w : CircularMap RlcTxAmSduInfo) (sn : Nat) (f : Nat → Nat) :
    Recounted w (w.modify sn (fun i => { i with retxCount := f i.retxCount }))
      (fun sn' n => if sn = sn' then f n else n) := by
  intro sn'
  rw [CircularMap.lookup_modify]
  by_cases h : sn' = sn
  · rw [if_pos h, h]
    simp
  · rw [if_neg h]
    simp [Ne.symm h]

theorem setRetxCount_recounted {f : Nat → Nat} (hs : s.setRetxCount sn f = .ok s') :
    Recounted s.txWindow s'.txWindow (fun sn' n => if sn = sn' then f n else n) ∧ s'.retxSn = s.retxSn := by
  unfold setRetxCount at hs
  split at hs <;> cases hs
  exact ⟨.modify _ _ _, rfl⟩

theorem rewindRetx_recounted {retx : RlcTxAmdRetx} (hs : s.rewindRetx retx = .ok s') :
    Recounted s.txWindow s'.txWindow
      (fun sn => countDown^[if retx.sn = sn ∧ s.retxSn ≠ some sn then 1 else 0]) ∧
    s'.retxSn = some retx.sn := by
  unfold rewindRetx at hs
  split at hs
  · rename_i hsame
    cases hs
    refine ⟨(Recounted.refl s.txWindow).of_eq ?_, hsame⟩
    intro sn info _
    have hno : ¬(retx.sn = sn ∧ s.retxSn ≠ some sn) := fun h => h.2 (h.1 ▸ hsame)
    rw [if_neg hno]
    rfl
  · rename_i hnew
    split at hs
    · obtain ⟨s1, hs1, hs⟩ := bind_eq_ok.mp hs
      cases hs
      obtain ⟨hc, -⟩ := setRetxCount_recounted hs1
      refine ⟨hc.of_eq ?_, rfl⟩
      intro sn info _
      by_cases hsn : retx.sn = sn
      · have hyes : retx.sn = sn ∧ s.retxSn ≠ some sn := ⟨hsn, hsn ▸ hnew⟩
        rw [if_pos hsn, if_pos hyes]
        rfl
      · rw [if_neg hsn, if_neg (fun h => hsn h.1)]
        rfl
    · rename_i habs
      cases hs
      refine ⟨(Recounted.refl s.txWindow).of_eq ?_, rfl⟩
      intro sn info hl
      have hne : retx.sn ≠ sn := by
        intro h
        exact habs (by rw [h]; exact CircularMap.contains_of_lookup hl)
      rw [if_neg (fun h => hne h.1)]
      rfl

theorem clearRetxQueue_recounted (hs : clearRetxQueue l s = .ok s') :
    Recounted s.txWindow s'.txWindow (fun sn => countDown^[runs sn s.retxSn l]) ∧ s'.retxSn = none := by
  induction l generalizing s with
  | nil =>
    cases hs
    exact ⟨Recounted.refl _, rfl⟩
  | cons front rest ih =>
    obtain ⟨s1, hs1, hs⟩ := bind_eq_ok.mp hs
    obtain ⟨hc1, hsn1⟩ := rewindRetx_recounted hs1
    obtain ⟨hc2, hsn2⟩ := ih hs
    refine ⟨(hc1.trans hc2).of_eq ?_, hsn2⟩
    intro sn info _
    dsimp only
    rw [hsn1, ← Function.iterate_add_apply, Nat.add_comm, runs]

/-- A NACK for one SN is ignored, or it puts a RETX of its SN, which is in the window, into the
queue. -/
theorem handleNack_cases {nack : RlcAmStatusNack} {b : Bool} (hs : s.handleNack nack = .ok (b, s')) :
    (b = false ∧ s' = s) ∨ (b = true ∧ ∃ retx q, retx.sn = nack.nackSn ∧
      s.txWindow.contains nack.nackSn = true ∧ s.retxQueue.tryPush retx = some q ∧
      s' = { s with retxQueue := q }) := by
  unfold handleNack at hs
  split at hs
  · cases hs
    exact .inl ⟨rfl, rfl⟩
  · split at hs
    · cases hs
      exact .inl ⟨rfl, rfl⟩
    · split at hs
      · cases hs
      · rename_i info hinfo
        split at hs
        · cases hs
          exact .inl ⟨rfl, rfl⟩
        · rename_i retx hretx
          split at hs
          · cases hs
            exact .inl ⟨rfl, rfl⟩
          · rename_i q hq
            cases hs
            obtain ⟨e, -, hsn⟩ := Option.map_eq_some_iff.mp hretx
            exact .inr ⟨rfl, retx, q, by rw [← hsn]; rfl, CircularMap.contains_of_lookup hinfo, hq, rfl⟩

structure Schedules (s : RlcTxAmEntity) (prev : Option Nat) (s' : RlcTxAmEntity) (prev' : Option Nat)
    (l : List RlcTxAmdRetx) : Prop where
  keeps : RetxKeeps s s'
  steps : Steps s.retxQueue s'.retxQueue
  queue : s'.retxQueue.queue = s.retxQueue.queue ++ l
  retxSn : s'.retxSn = s.retxSn
  last : prev' = lastSn prev l
  counts : Recounted s.txWindow s'.txWindow (fun sn => countUp^[runs sn prev l])
  stored : ∀ retx ∈ l, s.txWindow.contains retx.sn = true

theorem Schedules.refl (s : RlcTxAmEntity) (prev : Option Nat) : Schedules s prev s prev [] where
  keeps := .refl s
  steps := .refl
  queue := (List.append_nil _).symm
  retxSn := rfl
  last := rfl
  counts := Recounted.refl _
  stored := by simp

theorem Schedules.trans {r : Option Nat} (h : Schedules s prev s' r l) (h' : Schedules s' r t prev' l') :
    Schedules s prev t prev' (l ++ l') where
  keeps := h.keeps.trans h'.keeps
  steps := h.steps.trans h'.steps
  queue := by rw [h'.queue, h.queue, List.append_assoc]
  retxSn := h'.retxSn.trans h.retxSn
  last := by rw [h'.last, h.last, lastSn_append]
  counts := by
    refine (h.counts.trans h'.counts).of_eq ?_
    intro sn info _
    rw [← Function.iterate_add_apply, Nat.add_comm, h.last, runs_append]
  stored := by
    intro retx hr
    rcases List.mem_append.mp hr with hr | hr
    · exact h.stored retx hr
    · rw [← h.keeps.sdus.contains]
      exact h'.stored retx hr

theorem tryPush_queue {q q' : RlcRetxQueue} {retx : RlcTxAmdRetx} (hp : q.tryPush retx = some q') :
    q'.queue = q.queue ++ [retx] := by
  unfold RlcRetxQueue.tryPush at hp
  split at hp <;> cases hp
  rfl

theorem nackItem_schedules {nack : RlcAmStatusNack} (hs : nackItem s prev nack = .ok (prev', s')) :
    ∃ l, Schedules s prev s' prev' l := by
  unfold nackItem at hs
  obtain ⟨⟨b, s1⟩, h1, hs⟩ := bind_eq_ok.mp hs
  dsimp only at hs
  rcases handleNack_cases h1 with ⟨hb, hs1⟩ | ⟨rfl, retx, q, hsn, hcont, hq, rfl⟩
  · rw [if_neg (by simp [hb]), hs1] at hs
    cases hs
    exact ⟨[], .refl _ _⟩
  · have hstored : ∀ r ∈ [retx], s.txWindow.contains r.sn = true := by
      intro r hr
      rw [List.mem_singleton.mp hr, hsn]
      exact hcont
    refine ⟨[retx], ?_⟩
    split at hs
    · rename_i hnew
      obtain ⟨s2, h2, hs⟩ := bind_eq_ok.mp hs
      cases hs
      obtain ⟨hk, hq2⟩ := RetxKeeps.setRetxCount h2
      obtain ⟨hc, hsn2⟩ := setRetxCount_recounted h2
      refine ⟨(RetxKeeps.of_retx s q s.retxSn).trans hk, ?_, ?_, hsn2, by rw [← hsn]; rfl, ?_, hstored⟩
      · rw [hq2]
        exact .push .refl hq
      · rw [hq2]
        exact tryPush_queue hq
      · refine hc.of_eq ?_
        intro sn info _
        rw [runs, runs, Nat.add_zero, hsn]
        by_cases hsn' : nack.nackSn = sn
        · have hyes : nack.nackSn = sn ∧ prev ≠ some sn := ⟨hsn', hsn' ▸ hnew.2⟩
          rw [if_pos hsn', if_pos hyes]
          rfl
        · rw [if_neg hsn', if_neg (fun h => hsn' h.1)]
          rfl
    · rename_i hold
      have hprev : prev = some retx.sn := by
        rw [hsn]
        by_contra h
        exact hold ⟨rfl, h⟩
      cases hs
      refine ⟨.of_retx s q s.retxSn, .push .refl hq, tryPush_queue hq, rfl, hprev, ?_, hstored⟩
      refine (Recounted.refl _).of_eq ?_
      intro sn info _
      have hno : ¬(retx.sn = sn ∧ prev ≠ some sn) := fun h => h.2 (h.1 ▸ hprev)
      rw [runs, runs, if_neg hno]
      rfl

theorem nackRangeLoop_schedules {ackSn left rangeSn : Nat} {nack : RlcAmStatusNack}
    (hs : nackRangeLoop ackSn nack left rangeSn prev s = .ok (prev', s')) :
    ∃ l, Schedules s prev s' prev' l := by
  induction left generalizing s rangeSn prev with
  | zero =>
    cases hs
    exact ⟨[], .refl _ _⟩
  | succ left ih =>
    rw [nackRangeLoop] at hs
    split at hs
    · cases hs
      exact ⟨[], .refl _ _⟩
    · obtain ⟨⟨prev1, s1⟩, h1, hs⟩ := bind_eq_ok.mp hs
      obtain ⟨l1, hl1⟩ := nackItem_schedules h1
      obtain ⟨l2, hl2⟩ := ih hs
      exact ⟨l1 ++ l2, hl1.trans hl2⟩

theorem nackEntry_schedules {ackSn : Nat} {nack : RlcAmStatusNack}
    (hs : nackEntry ackSn s prev nack = .ok (prev', s')) : ∃ l, Schedules s prev s' prev' l := by
  unfold nackEntry at hs
  split at hs
  · exact nackRangeLoop_schedules hs
  · exact nackItem_schedules hs

theorem nackLoop_schedules {ackSn : Nat} {nacks : List RlcAmStatusNack}
    (hs : nackLoop ackSn nacks prev s = .ok (prev', s')) : ∃ l, Schedules s prev s' prev' l := by
  induction nacks generalizing s prev with
  | nil =>
    cases hs
    exact ⟨[], .refl _ _⟩
  | cons nack rest ih =>
    obtain ⟨⟨prev1, s1⟩, h1, hs⟩ := bind_eq_ok.mp hs
    obtain ⟨l1, hl1⟩ := nackEntry_schedules h1
    obtain ⟨l2, hl2⟩ := ih hs
    exact ⟨l1 ++ l2, hl1.trans hl2⟩

end Ocudu.Rlc.RlcTxAmEntity
