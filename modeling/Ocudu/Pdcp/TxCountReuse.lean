import Ocudu.Pdcp.TxFrame

/-! A COUNT protects one plaintext under one key, as long as `TX_NEXT` does not start again
below COUNTs in use and no stored SDU is compressed a second time. -/

namespace Ocudu.Pdcp

open CircularMap

namespace PdcpEntityTx

variable {C : RohcCompressor} {cfg : PdcpTxConfig} {s t : PdcpEntityTx C} {c : Nat}

section

variable {U : Nat → List UInt8 → Prop}

/-- The plaintexts of a COUNT: those of `U`, which were encrypted, and those of waiting jobs. -/
def Used (U : Nat → List UInt8 → Prop) (s : PdcpEntityTx C) (c : Nat) (p : List UInt8) : Prop :=
  U c p ∨ ∃ j ∈ s.jobs, j.count = c ∧ j.buf = p

/-- The plaintext of a stored SDU can be made again. -/
def Restorable (cfg : PdcpTxConfig) (s : PdcpEntityTx C) : Prop :=
  cfg.rlcMode = .am ∧ cfg.discardTimer.isSome = true ∧ s.rohcComp = none

structure OneText (U : Nat → List UInt8 → Prop) (cfg : PdcpTxConfig) (s : PdcpEntityTx C) : Prop where
  next_lt : s.st.txNext < 2 ^ 32
  same : ∀ c p q, Used U s c p → Used U s c q → p = q
  stored : Restorable cfg s → ∀ c elem, s.txWindow.lookup c = some elem →
    ∀ p, Used U s c p → p = dataPdu cfg (cfg.snSize.snOf c) elem.sdu

def NoneAhead (U : Nat → List UInt8 → Prop) (s : PdcpEntityTx C) : Prop :=
  ∀ c p, Used U s c p → c < s.st.txNext

/-- `t` keeps the SDUs of `s`, and its jobs up to those that got lost. -/
structure Harmless (s t : PdcpEntityTx C) : Prop where
  next : t.st.txNext = s.st.txNext
  jobs : ∀ j ∈ t.jobs, j ∈ s.jobs
  compressor : t.rohcComp.isSome = s.rohcComp.isSome
  stored : ∀ c elem, t.txWindow.lookup c = some elem →
    ∃ e, s.txWindow.lookup c = some e ∧ e.sdu = elem.sdu

theorem Harmless.refl (s : PdcpEntityTx C) : Harmless s s :=
  ⟨rfl, fun _ h => h, rfl, fun _ elem h => ⟨elem, h, rfl⟩⟩

theorem Harmless.comp {u : PdcpEntityTx C} (h : Harmless s t) (h' : Harmless t u) : Harmless s u where
  next := h'.next.trans h.next
  jobs := fun j hj => h.jobs j (h'.jobs j hj)
  compressor := h'.compressor.trans h.compressor
  stored := by
    intro c elem hl
    obtain ⟨e, he, heq⟩ := h'.stored c elem hl
    obtain ⟨e', he', heq'⟩ := h.stored c e he
    exact ⟨e', he', heq'.trans heq⟩

theorem Quiet.harmless (h : Quiet s t) : Harmless s t :=
  ⟨h.next, h.jobs, h.compressor, fun c elem hl => ⟨elem, h.stored c elem hl, rfl⟩⟩

theorem harmless_setTimer (s : PdcpEntityTx C) (reord : Nat) (timer : Bool) :
    Harmless s (s.setTimer reord timer) :=
  ⟨rfl, fun _ h => h, rfl, fun _ elem h => ⟨elem, h, rfl⟩⟩

theorem harmless_skipCount (s : PdcpEntityTx C) : Harmless s s.skipCount :=
  ⟨rfl, fun _ h => h, rfl, fun _ elem h => ⟨elem, h, rfl⟩⟩

theorem harmless_handOver (s : PdcpEntityTx C) (a : Nat) (elem : PdcpTxWindowElement)
    (isRetx : Bool) : Harmless s (s.handOver a elem isRetx) := by
  refine ⟨rfl, fun _ h => h, rfl, ?_⟩
  intro c e hl
  obtain ⟨e', he', rfl | rfl⟩ := lookup_handOver hl
  · exact ⟨e, he', rfl⟩
  · exact ⟨e', he', rfl⟩

theorem harmless_parkPdu (s : PdcpEntityTx C) (info : PdcpTxBufferInfo) :
    Harmless s (s.parkPdu info) := by
  refine ⟨rfl, fun _ h => h, rfl, ?_⟩
  intro c e hl
  obtain ⟨e', he', rfl | ⟨-, rfl⟩⟩ := lookup_parkPdu hl
  · exact ⟨e, he', rfl⟩
  · exact ⟨e', he', rfl⟩

theorem harmless_flushInOrder {isRetx : Bool} (hlt : s.st.txNext < 2 ^ 32)
    (h : s.flushInOrder cfg isRetx = .ok t) : Harmless s t := by
  refine flushInOrder_rule (P := Harmless s) ?_ (Harmless.refl s) hlt h
  intro u elem v hu _ _ _ _ hq
  exact (hu.comp (harmless_handOver u _ elem isRetx)).comp hq.harmless

theorem harmless_passUpToReord (s : PdcpEntityTx C) : Harmless s s.passUpToReord := by
  have hiter : ∀ (n : Nat) (u : PdcpEntityTx C), Harmless u (passReordering^[n] u) := by
    intro n
    induction n with
    | zero => exact fun u => Harmless.refl u
    | succ n ih =>
      intro u
      rw [Function.iterate_succ_apply]
      refine Harmless.comp ?_ (ih _)
      rcases u.passReordering_cases with ⟨elem, -, -, he⟩ | he
      · rw [he]
        exact harmless_handOver u _ elem false
      · rw [he]
        exact harmless_skipCount u
  exact hiter _ s

theorem harmless_applyReordering {info : PdcpTxBufferInfo} (hlt : s.st.txNext < 2 ^ 32)
    (h : s.applyReordering cfg info = .ok t) : Harmless s t := by
  rcases applyReordering_cases h with rfl | ⟨-, u, hf, rfl⟩
  · exact Harmless.refl _
  · obtain ⟨r, b, hrb⟩ := u.handleCryptoTimers_eq
    have hpark := harmless_parkPdu s info
    have hflush := hpark.comp (harmless_flushInOrder (by rw [hpark.next]; exact hlt) hf)
    rw [hrb]
    exact hflush.comp (harmless_setTimer u r b)

theorem harmless_cryptoReorderingTimeout (hlt : s.st.txNext < 2 ^ 32)
    (h : s.cryptoReorderingTimeout cfg = .ok t) : Harmless s t := by
  obtain ⟨u, hf, rfl⟩ := cryptoReorderingTimeout_cases h
  obtain ⟨r, b, hrb⟩ := u.startCryptoReordering_eq
  have hpass := harmless_passUpToReord s
  have hflush := hpass.comp (harmless_flushInOrder (by rw [hpass.next]; exact hlt) hf)
  rw [hrb]
  exact hflush.comp (harmless_setTimer u r b)

theorem OneText.mono {U' : Nat → List UInt8 → Prop} (h : OneText U cfg s)
    (hused : ∀ c p, Used U' t c p → Used U s c p) (hnext : t.st.txNext < 2 ^ 32)
    (hcomp : t.rohcComp = none → s.rohcComp = none)
    (hstored : ∀ c elem, t.txWindow.lookup c = some elem →
      ∃ e, s.txWindow.lookup c = some e ∧ e.sdu = elem.sdu) : OneText U' cfg t where
  next_lt := hnext
  same := fun c p q hp hq => h.same c p q (hused c p hp) (hused c q hq)
  stored := by
    intro hres c elem hl p hp
    obtain ⟨e, he, heq⟩ := hstored c elem hl
    rw [← heq]
    exact h.stored ⟨hres.1, hres.2.1, hcomp hres.2.2⟩ c e he p (hused c p hp)

theorem none_of_isSome_eq {α : Type*} {a b : Option α} (h : a.isSome = b.isSome) (ha : a = none) :
    b = none := by
  rw [ha] at h
  cases b with
  | none => rfl
  | some x => cases h

theorem Harmless.used (h : Harmless s t) {p : List UInt8} (hu : Used U t c p) : Used U s c p := by
  rcases hu with hu | ⟨j, hj, hjc⟩
  · exact .inl hu
  · exact .inr ⟨j, h.jobs j hj, hjc⟩

theorem OneText.harmless (h : OneText U cfg s) (hq : Harmless s t) : OneText U cfg t :=
  h.mono (fun _ _ => hq.used) (by rw [hq.next]; exact h.next_lt) (none_of_isSome_eq hq.compressor)
    hq.stored

theorem NoneAhead.harmless (h : NoneAhead U s) (hq : Harmless s t) : NoneAhead U t := by
  intro c p hp
  rw [hq.next]
  exact h c p (hq.used hp)

theorem OneText.accepts {buf : List UInt8} {now : Nat} (h : OneText U cfg s) (hahead : NoneAhead U s)
    (ha : Accepts cfg s t (s.newElement cfg buf now) buf) : OneText U cfg t ∧ NoneAhead U t := by
  rcases ha.job with ⟨hst, hjobs⟩ | ⟨hst, hlt, b, hb, hjobs⟩
  · have hused : ∀ c p, Used U t c p → Used U s c p := by
      intro c p hp
      unfold Used at hp
      rw [hjobs] at hp
      exact hp
    refine ⟨⟨by rw [hst]; exact h.next_lt,
      fun c p q hp hq => h.same c p q (hused c p hp) (hused c q hq), ?_⟩, ?_⟩
    · intro hres c elem hl p hp
      have hlt := hahead c p (hused c p hp)
      rcases ha.stored c elem hl with ⟨rfl, -⟩ | ⟨-, hold⟩
      · omega
      · exact h.stored ⟨hres.1, hres.2.1, none_of_isSome_eq ha.compressor hres.2.2⟩ c elem hold p
          (hused c p hp)
    · intro c p hp
      rw [hst]
      exact hahead c p (hused c p hp)
  · have hused : ∀ c p, Used U t c p → Used U s c p ∧ c < s.st.txNext ∨
        c = s.st.txNext ∧ p = dataPdu cfg (cfg.snSize.snOf s.st.txNext) b := by
      intro c p hp
      rcases hp with hp | ⟨j, hj, hjc, hjp⟩
      · exact .inl ⟨.inl hp, hahead c p (.inl hp)⟩
      · rw [hjobs, List.mem_append, List.mem_singleton] at hj
        rcases hj with hj | rfl
        · exact .inl ⟨.inr ⟨j, hj, hjc, hjp⟩, hahead c p (.inr ⟨j, hj, hjc, hjp⟩)⟩
        · exact .inr ⟨hjc.symm, hjp.symm⟩
    refine ⟨⟨by rw [hst]; exact hlt, ?_, ?_⟩, ?_⟩
    · intro c p q hp hq
      rcases hused c p hp with ⟨hp, hpc⟩ | ⟨hpc, rfl⟩
      · rcases hused c q hq with ⟨hq, -⟩ | ⟨hqc, -⟩
        · exact h.same c p q hp hq
        · omega
      · rcases hused c q hq with ⟨-, hqc⟩ | ⟨-, rfl⟩
        · omega
        · rfl
    · intro hres c elem hl p hp
      have hnone := none_of_isSome_eq ha.compressor hres.2.2
      rcases ha.stored c elem hl with ⟨rfl, rfl⟩ | ⟨hne, hold⟩
      · rcases hused _ p hp with ⟨-, hpc⟩ | ⟨-, rfl⟩
        · omega
        · rw [hb hnone]
          simp only [newElement, hres.1, hres.2.1, and_self, if_true]
      · rcases hused c p hp with ⟨hp, -⟩ | ⟨rfl, -⟩
        · exact h.stored ⟨hres.1, hres.2.1, hnone⟩ c elem hold p hp
        · exact absurd rfl hne
    · intro c p hp
      rw [hst]
      dsimp only
      rcases hused c p hp with ⟨-, hpc⟩ | ⟨rfl, -⟩
      · omega
      · omega

theorem OneText.handleSdu (h : OneText U cfg s) {buf : List UInt8}
    (hahead : TakesCount cfg s buf → NoneAhead U s) (now : Nat) :
    OneText U cfg (s.handleSdu cfg buf now) := by
  by_cases htake : TakesCount cfg s buf
  · rw [handleSdu_of_takesCount htake]
    exact (h.accepts (hahead htake) (transmitSdu_accepts htake now)).1
  · exact h.harmless (quiet_handleSdu htake now).harmless

theorem NoneAhead.handleSdu (hahead : NoneAhead U s) (h : OneText U cfg s) (buf : List UInt8)
    (now : Nat) : NoneAhead U (s.handleSdu cfg buf now) := by
  by_cases htake : TakesCount cfg s buf
  · rw [handleSdu_of_takesCount htake]
    exact (h.accepts hahead (transmitSdu_accepts htake now)).2
  · exact hahead.harmless (quiet_handleSdu htake now).harmless

theorem harmless_notBuffering (s : PdcpEntityTx C) : Harmless s { s with buffering := false, sduBuffer := [] } :=
  (Quiet.set s _ _ _ _ _ _ _ _ _).harmless

theorem OneText.endBuffering_ahead (h : OneText U cfg s) (hahead : NoneAhead U s) (now : Nat) :
    OneText U cfg (s.endBuffering cfg now) ∧ NoneAhead U (s.endBuffering cfg now) :=
  endBuffering_rule (fun u => OneText U cfg u ∧ NoneAhead U u)
    (fun _ buf hu => ⟨hu.1.handleSdu (fun _ => hu.2) now, hu.2.handleSdu hu.1 buf now⟩)
    ⟨h.harmless (harmless_notBuffering s), hahead.harmless (harmless_notBuffering s)⟩

theorem OneText.endBuffering (h : OneText U cfg s) (hahead : s.sduBuffer ≠ [] → NoneAhead U s)
    (now : Nat) : OneText U cfg (s.endBuffering cfg now) := by
  by_cases hbuf : s.sduBuffer = []
  · rw [PdcpEntityTx.endBuffering, hbuf]
    exact h.harmless (harmless_notBuffering s)
  · exact (h.endBuffering_ahead (hahead hbuf) now).1

def Unused (U : Nat → List UInt8 → Prop) (s : PdcpEntityTx C) (c : Nat) : Prop :=
  ∀ p, ¬Used U s c p

theorem OneText.pushJob (h : OneText U cfg s) {p : List UInt8} {elem : PdcpTxWindowElement}
    (hl : s.txWindow.lookup c = some elem) (hp : ∀ q, Used U s c q → q = p)
    (hres : Restorable cfg s → p = dataPdu cfg (cfg.snSize.snOf c) elem.sdu)
    (ht : t = { s with jobs := t.jobs })
    (hjobs : ∀ j ∈ t.jobs, j ∈ s.jobs ∨ j.count = c ∧ j.buf = p) : OneText U cfg t := by
  have hused : ∀ x q, Used U t x q → Used U s x q ∨ x = c ∧ q = p := by
    rintro x q (hq | ⟨j, hj, rfl, rfl⟩)
    · exact .inl (.inl hq)
    · rcases hjobs j hj with hj | hj
      · exact .inl (.inr ⟨j, hj, rfl, rfl⟩)
      · exact .inr hj
  refine ⟨by rw [ht]; exact h.next_lt, ?_, ?_⟩
  · intro x q r hq hr
    rcases hused x q hq with hq | ⟨rfl, rfl⟩
    · rcases hused x r hr with hr | ⟨rfl, rfl⟩
      · exact h.same x q r hq hr
      · exact hp q hq
    · rcases hused x r hr with hr | ⟨-, rfl⟩
      · exact (hp r hr).symm
      · rfl
  · intro hrt x e he q hq
    have hrs : Restorable cfg s := ⟨hrt.1, hrt.2.1, by have := hrt.2.2; rwa [ht] at this⟩
    rw [ht] at he
    rcases hused x q hq with hq | ⟨rfl, rfl⟩
    · exact h.stored hrs x e he q hq
    · rw [hl] at he
      cases he
      exact hres hrs

theorem OneText.retransmitLoop (cs : List Nat) (hcs : cs.Nodup) (h : OneText U cfg s)
    (ham : cfg.rlcMode = .am) (hd : cfg.discardTimer.isSome = true)
    (hfree : s.rohcComp = none ∨ ∀ c ∈ cs, s.txWindow.contains c = true → Unused U s c) :
    OneText U cfg (s.retransmitLoop cfg cs) := by
  induction cs generalizing s with
  | nil => exact h
  | cons c cs ih =>
    have hnd := List.nodup_cons.mp hcs
    unfold PdcpEntityTx.retransmitLoop
    cases hl : s.txWindow.lookup c with
    | none =>
      dsimp only
      refine ih hnd.2 h ?_
      rcases hfree with hnone | hfree
      · exact .inl hnone
      · exact .inr fun x hx => hfree x (List.mem_cons_of_mem _ hx)
    | some elem =>
      dsimp only
      obtain ⟨hcomp, hnone⟩ := s.applyHeaderCompression_spec elem.sdu
      obtain ⟨r, n, hr⟩ := s.applyHeaderCompression_frame elem.sdu
      have hsame : Harmless s (s.applyHeaderCompression elem.sdu).2 := by
        refine ⟨by rw [hr], ?_, hcomp, ?_⟩
        · intro j hj
          rw [hr] at hj
          exact hj
        · intro x e he
          rw [hr] at he
          exact ⟨e, he, rfl⟩
      have hback : ∀ x q, Used U (s.applyHeaderCompression elem.sdu).2 x q → Used U s x q :=
        fun x q => hsame.used
      split
      · rename_i u heq
        rw [heq] at hsame
        exact h.harmless hsame
      · rename_i buf u heq
        rw [heq] at hr hsame hback
        dsimp only at hr hsame hback
        have hlu : u.txWindow.lookup c = some elem := by rw [hr]; exact hl
        have hbuf : s.rohcComp = none → buf = elem.sdu := by
          intro hc
          have hb := hnone hc
          rw [heq] at hb
          exact Option.some.inj (congrArg Prod.fst hb)
        have hmem : ∀ j ∈ (u.pushJob cfg true c buf).jobs,
            j ∈ u.jobs ∨ j.count = c ∧ j.buf = dataPdu cfg (cfg.snSize.snOf c) buf := by
          intro j hj
          simp only [PdcpEntityTx.pushJob, List.mem_append, List.mem_singleton] at hj
          rcases hj with hj | rfl
          · exact .inl hj
          · exact .inr ⟨rfl, rfl⟩
        refine ih hnd.2 ((h.harmless hsame).pushJob hlu ?_ ?_ rfl hmem) ?_
        · intro q hq
          rcases hfree with hc | hfree
          · rw [hbuf hc]
            exact h.stored ⟨ham, hd, hc⟩ c elem hl q (hback c q hq)
          · exact absurd (hback c q hq) (hfree c List.mem_cons_self (contains_of_lookup hl) q)
        · intro hres
          rw [hbuf (none_of_isSome_eq hsame.compressor hres.2.2)]
        · rcases hfree with hc | hfree
          · have hs := hsame.compressor
            rw [hc] at hs
            exact .inl (by simpa [PdcpEntityTx.pushJob] using hs)
          · refine .inr fun x hx hcont q hq => ?_
            have hxs : s.txWindow.contains x = true := by rw [hr] at hcont; exact hcont
            refine hfree x (List.mem_cons_of_mem _ hx) hxs q (hback x q ?_)
            rcases hq with hq | ⟨j, hj, hjc, hjp⟩
            · exact .inl hq
            · rcases hmem j hj with hj | ⟨hjc', -⟩
              · exact .inr ⟨j, hj, hjc, hjp⟩
              · exact absurd (hjc'.symm.trans hjc ▸ hx) hnd.1

theorem OneText.retransmitAllPdus (h : OneText U cfg s)
    (hfree : s.rohcComp.isSome = true → cfg.discardTimer.isSome = true →
      ∀ c ∈ List.range' s.st.txNextAck (s.st.txNext - s.st.txNextAck),
        s.txWindow.contains c = true → Unused U s c) :
    OneText U cfg (s.retransmitAllPdus cfg) := by
  unfold PdcpEntityTx.retransmitAllPdus
  dsimp only
  split_ifs with h1 h2
  · exact ⟨h.next_lt, h.same, h.stored⟩
  · exact ⟨h.next_lt, h.same, h.stored⟩
  · have hd : cfg.discardTimer.isSome = true := by
      cases hc : cfg.discardTimer with
      | none => simp [hc] at h1
      | some d => rfl
    refine OneText.retransmitLoop _ List.nodup_range' ⟨h.next_lt, h.same, h.stored⟩
      (not_not.mp h2) hd ?_
    dsimp only
    cases hc : s.rohcComp with
    | none => exact .inl rfl
    | some comp => exact .inr (hfree (by rw [hc]; rfl) hd)

theorem NoneAhead.endBuffering (hahead : NoneAhead U s) (h : OneText U cfg s) (now : Nat) :
    NoneAhead U (s.endBuffering cfg now) := (h.endBuffering_ahead hahead now).2

theorem retransmitLoop_jobs (cs : List Nat) {j : PdcpTxBufferInfo}
    (hj : j ∈ (s.retransmitLoop cfg cs).jobs) : j ∈ s.jobs ∨ j.count ∈ cs := by
  induction cs generalizing s with
  | nil => exact .inl hj
  | cons c cs ih =>
    unfold PdcpEntityTx.retransmitLoop at hj
    split at hj
    · exact (ih hj).imp_right (List.mem_cons_of_mem c)
    · rename_i elem he
      obtain ⟨r, n, hr⟩ := s.applyHeaderCompression_frame elem.sdu
      split at hj
      · rename_i u heq
        rw [heq] at hr
        dsimp only at hr
        rw [hr] at hj
        exact .inl hj
      · rename_i buf u heq
        rw [heq] at hr
        dsimp only at hr
        rcases ih hj with hold | hlater
        · rw [hr] at hold
          rcases List.mem_append.mp hold with hold | hnew
          · exact .inl hold
          · rw [List.mem_singleton.mp hnew]
            exact .inr List.mem_cons_self
        · exact .inr (List.mem_cons_of_mem c hlater)

theorem NoneAhead.retransmitAllPdus (h : NoneAhead U s) : NoneAhead U (s.retransmitAllPdus cfg) := by
  unfold PdcpEntityTx.retransmitAllPdus
  dsimp only
  split_ifs
  · exact h
  · exact h
  · obtain ⟨u, hu⟩ : ∃ u : PdcpEntityTx C, u = { s with
        rewinds := s.rewinds + 1
        st := { s.st with txTrans := s.st.txNextAck, txTransCrypto := s.st.txNextAck }
        retransmits := s.retransmits + 1 } := ⟨_, rfl⟩
    rw [← hu]
    obtain ⟨r, n, j, hframe⟩ := @retransmitLoop_frame C cfg
      (List.range' s.st.txNextAck (s.st.txNext - s.st.txNextAck)) u
    have hnext : (u.retransmitLoop cfg (List.range' s.st.txNextAck (s.st.txNext - s.st.txNextAck))).st.txNext =
        s.st.txNext := by
      rw [hframe, hu]
    rintro c p (hused | ⟨job, hjob, rfl, rfl⟩)
    · rw [hnext]
      exact h c p (.inl hused)
    · rw [hnext]
      rcases retransmitLoop_jobs _ hjob with hold | hnew
      · rw [hu] at hold
        exact h _ _ (.inr ⟨job, hold, rfl, rfl⟩)
      · rw [List.mem_range'_1] at hnew
        omega

theorem NoneAhead.compressor {r : Option C.State} (h : NoneAhead U s) : NoneAhead U { s with rohcComp := r } := h

theorem suspend_of_not (h : (!s.suspended && s.buffering) = false) : s.suspend cfg = s := by
  unfold PdcpEntityTx.suspend
  rw [if_pos]
  cases hs : s.suspended with
  | true => exact .inl rfl
  | false =>
    rw [hs] at h
    exact .inr (by simpa using h)

end

end PdcpEntityTx

namespace TxSystem

open PdcpEntityTx

variable {C : RohcCompressor} {E : SecurityEngine} {cfg : PdcpTxConfig} {s t : TxSystem C}

/-- What was encrypted since security was configured last. -/
def inForce (s : TxSystem C) (c : Nat) (p : List UInt8) : Prop :=
  ∃ e ∈ s.encryptions, e.period = s.period ∧ e.count = c ∧ e.plain = p

structure KeySafe (cfg : PdcpTxConfig) (s : TxSystem C) : Prop where
  text : OneText s.inForce cfg s.entity
  compressor : s.entity.rohcComp.isSome = (cfg.headerCompression && C.create.isSome)
  period : ∀ e ∈ s.encryptions, e.period ≤ s.period
  log : ∀ e ∈ s.encryptions, ∀ f ∈ s.encryptions, e.period = f.period → e.count = f.count →
    e.plain = f.plain

/-- The COUNT was neither encrypted since security was configured last nor waits to be. -/
def CountFree (s : TxSystem C) (c : Nat) : Prop :=
  (∀ e ∈ s.encryptions, e.period = s.period → e.count ≠ c) ∧ ∀ j ∈ s.entity.jobs, j.count ≠ c

/-- The stored SDUs between the edges, which a rewind makes jobs for. -/
def storedCounts (s : TxSystem C) : List Nat :=
  (List.range' s.entity.st.txNextAck (s.entity.st.txNext - s.entity.st.txNextAck)).filter
    fun c => s.entity.txWindow.contains c

/-- Some COUNT was encrypted since security was configured last, or waits to be. -/
def CountInUse (s : TxSystem C) : Prop :=
  (∃ e ∈ s.encryptions, e.period = s.period) ∨ s.entity.jobs ≠ []

/-- The events that start `TX_NEXT` again at 0. -/
def restarts (cfg : PdcpTxConfig) (s : TxSystem C) : TxEvent → Bool
  | .suspend => !s.entity.suspended && s.entity.buffering
  | .reestablish _ => resets cfg
  | _ => false

instance (s : TxSystem C) : Decidable s.CountInUse := by
  unfold CountInUse
  infer_instance

/-- Whether `TX_NEXT` was started again and some COUNT has been in use ever since. -/
def noteRestart (cfg : PdcpTxConfig) (s : TxSystem C) (e : TxEvent) (t : TxSystem C) (restarted : Bool) : Bool :=
  (restarted || restarts cfg s e) && t.CountInUse

/-- After a restart SDUs wait for a new key and an empty crypto executor, and a rewind only compresses
SDUs again whose COUNTs are free under the key it uses. -/
def KeepsCounts (cfg : PdcpTxConfig) (s : TxSystem C × Bool) : TxEvent → Prop
  | .sdu buf _ => s.2 = true → ¬TakesCount cfg s.1.entity buf
  | .endBuffering _ => s.2 = true → s.1.entity.sduBuffer = []
  | .dataRecovery => s.1.entity.rohcComp.isSome = true → cfg.discardTimer.isSome = true →
      ∀ c ∈ s.1.storedCounts, s.1.CountFree c
  | .reestablish _ => resets cfg = false → s.1.entity.rohcComp.isSome = true →
      cfg.discardTimer.isSome = true →
      ∀ c ∈ s.1.storedCounts, ∀ j ∈ s.1.entity.jobs, j.count ≠ c
  | _ => True

instance (s : TxSystem C) (c : Nat) : Decidable (s.CountFree c) := by
  unfold CountFree
  infer_instance

instance (s : TxSystem C × Bool) : (e : TxEvent) → Decidable (KeepsCounts cfg s e)
  | .sdu buf _ => inferInstanceAs (Decidable (_ → ¬TakesCount cfg s.1.entity buf))
  | .endBuffering _ => inferInstanceAs (Decidable (_ → s.1.entity.sduBuffer = []))
  | .dataRecovery => inferInstanceAs (Decidable (_ → _ → ∀ c ∈ s.1.storedCounts, s.1.CountFree c))
  | .reestablish _ =>
    inferInstanceAs (Decidable (_ → _ → _ → ∀ c ∈ s.1.storedCounts, ∀ j ∈ s.1.entity.jobs, j.count ≠ c))
  | .applySecurity _ | .loseJob _ | .applyReordering _ | .losePdu _ | .transmitNotification _
  | .retransmitNotification _ | .deliveryNotification _ | .deliveryRetransmittedNotification _
  | .desiredBufferSize _ | .statusReport _ | .rohcFeedback _ | .discardTimer
  | .cryptoReorderingTimer | .configureSecurity .. | .beginBuffering | .suspend | .resume => .isTrue trivial

theorem noneAhead_of_not_countInUse (h : ¬s.CountInUse) : NoneAhead s.inForce s.entity := by
  rintro c p (⟨e, he, hper, -, -⟩ | ⟨j, hj, -⟩)
  · exact absurd (.inl ⟨e, he, hper⟩) h
  · exact absurd (.inr (List.ne_nil_of_mem hj)) h

theorem CountFree.unused {c : Nat} (h : s.CountFree c) : Unused s.inForce s.entity c := by
  rintro p (⟨e, he, hper, hec, -⟩ | ⟨j, hj, hjc, -⟩)
  · exact h.1 e he hper hec
  · exact h.2 j hj hjc

theorem KeySafe.of_entity (h : KeySafe cfg s) (henc : t.encryptions = s.encryptions)
    (hper : t.period = s.period) (htext : OneText s.inForce cfg t.entity)
    (hcomp : t.entity.rohcComp.isSome = s.entity.rohcComp.isSome) : KeySafe cfg t where
  text := by
    have hin : t.inForce = s.inForce := by
      unfold inForce
      rw [henc, hper]
    rw [hin]
    exact htext
  compressor := hcomp.trans h.compressor
  period := by rw [henc, hper]; exact h.period
  log := by rw [henc]; exact h.log

theorem KeySafe.harmless (h : KeySafe cfg s) (henc : t.encryptions = s.encryptions)
    (hper : t.period = s.period) (hq : Harmless s.entity t.entity) : KeySafe cfg t :=
  h.of_entity henc hper (h.text.harmless hq) hq.compressor

theorem applySecurity_cases (s : TxSystem C) (i : Nat) :
    (s.applySecurity E cfg i).period = s.period ∧
      ((s.applySecurity E cfg i).encryptions = s.encryptions ∨
        ∃ info ∈ s.entity.jobs, (s.applySecurity E cfg i).encryptions =
          s.encryptions ++ [⟨s.period, info.count, info.buf⟩]) := by
  unfold applySecurity
  cases hi : s.entity.jobs[i]? with
  | none => exact ⟨rfl, .inl rfl⟩
  | some info =>
    dsimp only
    have hmem : info ∈ s.entity.jobs := List.mem_of_getElem? hi
    cases s.entity.secConfig with
    | none =>
      dsimp only
      cases cfg.rbType <;> exact ⟨rfl, .inl rfl⟩
    | some secCfg =>
      dsimp only
      cases E.protect secCfg s.entity.integrityEnabled info.count info.buf <;>
        exact ⟨rfl, .inr ⟨info, hmem, rfl⟩⟩

theorem used_applySecurity {i c : Nat} {p : List UInt8}
    (h : Used (s.applySecurity E cfg i).inForce (s.applySecurity E cfg i).entity c p) :
    Used s.inForce s.entity c p := by
  have hquiet : Quiet s.entity (s.applySecurity E cfg i).entity := quiet_applySecurity s i
  rcases h with ⟨e, he, hep, rfl, rfl⟩ | hj
  · obtain ⟨hper, henc | ⟨info, hmem, henc⟩⟩ := @applySecurity_cases C E cfg s i
    · rw [henc] at he
      exact .inl ⟨e, he, hep.trans hper, rfl, rfl⟩
    · rw [henc, List.mem_append, List.mem_singleton] at he
      rcases he with he | rfl
      · exact .inl ⟨e, he, hep.trans hper, rfl, rfl⟩
      · exact .inr ⟨info, hmem, rfl, rfl⟩
  · exact hquiet.harmless.used (.inr hj)

theorem KeySafe.applySecurity (h : KeySafe cfg s) (i : Nat) :
    KeySafe cfg (s.applySecurity E cfg i) := by
  have hquiet : Quiet s.entity (s.applySecurity E cfg i).entity := quiet_applySecurity s i
  have hq := hquiet.harmless
  obtain ⟨hper, henc | ⟨info, hmem, henc⟩⟩ := @applySecurity_cases C E cfg s i
  · exact h.harmless henc hper hq
  · have hself : Used s.inForce s.entity info.count info.buf := .inr ⟨info, hmem, rfl, rfl⟩
    have hold : ∀ e ∈ s.encryptions, e.period = s.period → Used s.inForce s.entity e.count e.plain :=
      fun e he hp => .inl ⟨e, he, hp, rfl, rfl⟩
    refine ⟨h.text.mono (fun _ _ => used_applySecurity) (by rw [hq.next]; exact h.text.next_lt)
      (none_of_isSome_eq hq.compressor) hq.stored, hq.compressor.trans h.compressor, ?_, ?_⟩
    · intro e he
      rw [henc, List.mem_append, List.mem_singleton] at he
      rw [hper]
      rcases he with he | rfl
      · exact h.period e he
      · exact le_refl _
    · intro e he f hf hp hc
      rw [henc, List.mem_append, List.mem_singleton] at he hf
      rcases he with he | rfl
      · rcases hf with hf | rfl
        · exact h.log e he f hf hp hc
        · exact h.text.same e.count e.plain _ (hold e he hp) (by rw [hc]; exact hself)
      · rcases hf with hf | rfl
        · exact h.text.same f.count _ f.plain (by rw [← hc]; exact hself) (hold f hf hp.symm)
        · rfl

theorem KeySafe.inForce_nextPeriod (h : KeySafe cfg s) (u : PdcpEntityTx C) :
    inForce { s with entity := u, period := s.period + 1 } = fun _ _ => False := by
  funext c p
  refine eq_false ?_
  rintro ⟨e, he, hp, -, -⟩
  have := h.period e he
  dsimp only at hp
  omega

theorem KeySafe.nextPeriod (h : KeySafe cfg s) {u : PdcpEntityTx C}
    (htext : OneText (fun _ _ => False) cfg u)
    (hcomp : u.rohcComp.isSome = s.entity.rohcComp.isSome) :
    KeySafe cfg { s with entity := u, period := s.period + 1 } where
  text := by
    rw [h.inForce_nextPeriod]
    exact htext
  compressor := hcomp.trans h.compressor
  period := fun e he => (h.period e he).trans (Nat.le_succ _)
  log := h.log

theorem KeySafe.forget (h : KeySafe cfg s) : OneText (fun _ _ => False) cfg s.entity := by
  refine h.text.mono ?_ h.text.next_lt id fun c elem hl => ⟨elem, hl, rfl⟩
  rintro c p (hf | hj)
  · exact hf.elim
  · exact .inr hj

theorem oneText_cleared {U : Nat → List UInt8 → Prop} {u v : PdcpEntityTx C} (h : OneText U cfg u)
    (hst : v.st = ⟨0, 0, 0, 0, 0⟩) (hw : v.txWindow = .empty cfg.snSize.windowSize)
    (hj : v.jobs = u.jobs) : OneText U cfg v := by
  refine ⟨by rw [hst]; decide, ?_, ?_⟩
  · intro c p q
    unfold Used
    rw [hj]
    exact h.same c p q
  · intro _ c elem hl
    rw [hw] at hl
    simp at hl

theorem retransmitAllPdus_compressor (s : PdcpEntityTx C) :
    (s.retransmitAllPdus cfg).rohcComp.isSome = s.rohcComp.isSome := by
  have hloop : ∀ (cs : List Nat) (u : PdcpEntityTx C),
      (u.retransmitLoop cfg cs).rohcComp.isSome = u.rohcComp.isSome := by
    intro cs
    induction cs with
    | nil => exact fun _ => rfl
    | cons c cs ih =>
      intro u
      unfold PdcpEntityTx.retransmitLoop
      split
      · exact ih u
      · rename_i elem he
        have hcomp := (u.applyHeaderCompression_spec elem.sdu).1
        split
        · rename_i v heq
          rw [heq] at hcomp
          exact hcomp
        · rename_i buf v heq
          rw [heq] at hcomp
          exact (ih _).trans hcomp
  unfold PdcpEntityTx.retransmitAllPdus
  dsimp only
  split_ifs
  · rfl
  · rfl
  · exact hloop _ _

theorem KeySafe.reestablish (h : KeySafe cfg s) (secCfg : Sec128AsConfig) {restarted : Bool}
    (hadm : KeepsCounts cfg (s, restarted) (.reestablish secCfg)) :
    KeySafe cfg { s with entity := s.entity.reestablish cfg secCfg, period := s.period + 1 } := by
  obtain ⟨r, hr⟩ := @PdcpEntityTx.initHeaderCompression_frame C cfg s.entity
  have hcomp : r.isSome = s.entity.rohcComp.isSome := by
    have hi : (s.entity.initHeaderCompression cfg).rohcComp = r := by rw [hr]
    rw [← hi]
    unfold PdcpEntityTx.initHeaderCompression
    have hc := h.compressor
    split_ifs with hh
    · rw [hc, hh, Bool.true_and]
    · rfl
  have hinit : OneText (fun _ _ => False) cfg { s.entity with rohcComp := r } :=
    h.forget.mono (fun _ _ hu => hu) h.text.next_lt (none_of_isSome_eq hcomp)
      fun c elem hl => ⟨elem, hl, rfl⟩
  have hmain : OneText (fun _ _ => False) cfg (s.entity.reestablish cfg secCfg) ∧
      (s.entity.reestablish cfg secCfg).rohcComp.isSome = s.entity.rohcComp.isSome := by
    unfold PdcpEntityTx.reestablish
    rw [hr]
    dsimp only
    cases hres : resets cfg with
    | true =>
      simp only [if_true]
      have hclear : OneText (fun _ _ => False) cfg
          (PdcpEntityTx.reset cfg { s.entity with rohcComp := r }) :=
        oneText_cleared hinit rfl rfl rfl
      have hq := quiet_configureSecurity (PdcpEntityTx.reset cfg { s.entity with rohcComp := r })
        secCfg s.entity.integrityEnabled
      have htext := hclear.harmless hq.harmless
      split_ifs
      · refine ⟨htext.retransmitAllPdus ?_, ?_⟩
        · intro _ _ c hc hcont
          obtain ⟨elem, hl⟩ := lookup_of_contains hcont
          have hl' := hq.stored c elem hl
          simp [PdcpEntityTx.reset, clearWindow] at hl'
        · exact (retransmitAllPdus_compressor _).trans (hq.compressor.trans hcomp)
      · exact ⟨htext, hq.compressor.trans hcomp⟩
    | false =>
      simp only [Bool.false_eq_true, if_false]
      have hq := quiet_configureSecurity { s.entity with rohcComp := r } secCfg
        s.entity.integrityEnabled
      have htext := hinit.harmless hq.harmless
      split_ifs
      · refine ⟨htext.retransmitAllPdus ?_, ?_⟩
        · intro hsome hd c hc hcont p hp
          have hack := hq.ack
          rw [hq.next, List.mem_range'_1] at hc
          obtain ⟨elem, hl⟩ := lookup_of_contains hcont
          have hmem : c ∈ s.storedCounts := by
            refine List.mem_filter.mpr ⟨List.mem_range'_1.mpr ?_, contains_of_lookup (hq.stored c elem hl)⟩
            dsimp only at hc hack
            omega
          rcases hp with hp | ⟨j, hj, hjc, -⟩
          · exact hp
          · exact hadm hres (by rw [← hcomp, ← hsome]; exact hq.compressor.symm) hd c hmem j
              (hq.jobs j hj) hjc
        · exact (retransmitAllPdus_compressor _).trans (hq.compressor.trans hcomp)
      · exact ⟨htext, hq.compressor.trans hcomp⟩
  exact h.nextPeriod hmain.1 hmain.2

theorem handleSdu_compressor (s : PdcpEntityTx C) (buf : List UInt8) (now : Nat) :
    (s.handleSdu cfg buf now).rohcComp.isSome = s.rohcComp.isSome := by
  by_cases htake : TakesCount cfg s buf
  · rw [handleSdu_of_takesCount htake]
    exact (transmitSdu_accepts htake now).compressor
  · exact (quiet_handleSdu htake now).compressor

theorem endBuffering_compressor (s : PdcpEntityTx C) (now : Nat) :
    (s.endBuffering cfg now).rohcComp.isSome = s.rohcComp.isSome :=
  endBuffering_rule (fun u => u.rohcComp.isSome = s.rohcComp.isSome)
    (fun u buf hu => (handleSdu_compressor u buf now).trans hu) rfl

theorem log_of_step {e : TxEvent} (hq : isQuiet e = true) (hsec : ∀ i, e ≠ .applySecurity i)
    (hcfg : ∀ k b, e ≠ .configureSecurity k b) (h : s.step E cfg e = .ok t) :
    t.encryptions = s.encryptions ∧ t.period = s.period := by
  have hwith : ∀ r : Except Fault (PdcpEntityTx C), s.withEntity r = .ok t →
      t.encryptions = s.encryptions ∧ t.period = s.period := by
    intro r hr
    cases r with
    | error f => cases hr
    | ok u =>
      cases hr
      exact ⟨rfl, rfl⟩
  cases e with
  | sdu | applyReordering | cryptoReorderingTimer | dataRecovery | reestablish | endBuffering
  | suspend => cases hq
  | applySecurity i => exact absurd rfl (hsec i)
  | configureSecurity k b => exact absurd rfl (hcfg k b)
  | transmitNotification | retransmitNotification | deliveryNotification
  | deliveryRetransmittedNotification => exact hwith _ h
  | discardTimer =>
    simp only [step, TxSystem.discardTimer] at h
    split_ifs at h
    · cases hc : { s.entity with discardTimer := false }.discardCallback cfg with
      | error f => simp only [hc, error_bind, reduceCtorEq] at h
      | ok u =>
        simp only [hc, ok_bind, pure_eq_ok, Except.ok.injEq] at h
        rw [← h]
        exact ⟨rfl, rfl⟩
    · cases h
      exact ⟨rfl, rfl⟩
  | _ =>
    cases h
    exact ⟨rfl, rfl⟩

theorem KeySafe.step (h : KeySafe cfg s) {e : TxEvent} {restarted : Bool}
    (hahead : restarted = false → NoneAhead s.inForce s.entity) (hadm : KeepsCounts cfg (s, restarted) e)
    (ht : s.step E cfg e = .ok t) : KeySafe cfg t := by
  cases e with
  | sdu buf now =>
    cases ht
    refine h.of_entity rfl rfl (h.text.handleSdu (fun htake => hahead ?_) now)
      (handleSdu_compressor _ buf now)
    exact Bool.eq_false_iff.mpr fun hre => hadm hre htake
  | applySecurity i =>
    cases ht
    exact h.applySecurity i
  | applyReordering i =>
    obtain ⟨⟨henc, hper⟩, heq | ⟨info, -, ha⟩⟩ := applyReordering_step ht
    · exact h.harmless henc hper (by rw [heq]; exact Harmless.refl _)
    · exact h.harmless henc hper (harmless_applyReordering h.text.next_lt ha)
  | cryptoReorderingTimer =>
    obtain ⟨⟨henc, hper⟩, heq | ⟨-, hc⟩⟩ := cryptoReorderingTimer_step ht
    · exact h.harmless henc hper (by rw [heq]; exact Harmless.refl _)
    · have hoff : Harmless s.entity { s.entity with cryptoReorderingTimer := false } :=
        harmless_setTimer s.entity s.entity.st.txReordCrypto false
      exact h.harmless henc hper (hoff.comp (harmless_cryptoReorderingTimeout h.text.next_lt hc))
  | dataRecovery =>
    rw [(dataRecovery_step ht).1]
    refine h.of_entity rfl rfl (h.text.retransmitAllPdus ?_) (retransmitAllPdus_compressor _)
    intro hsome hd c hc hcont
    exact (hadm hsome hd c (List.mem_filter.mpr ⟨hc, hcont⟩)).unused
  | configureSecurity secCfg integrity =>
    have hq := quiet_configureSecurity s.entity secCfg integrity
    cases ht
    exact h.nextPeriod (h.forget.harmless hq.harmless) hq.compressor
  | reestablish secCfg =>
    cases ht
    exact h.reestablish secCfg hadm
  | endBuffering now =>
    cases ht
    refine h.of_entity rfl rfl (h.text.endBuffering (fun hne => hahead ?_) now)
      (endBuffering_compressor _ now)
    exact Bool.eq_false_iff.mpr fun hre => hne (hadm hre)
  | suspend =>
    cases ht
    refine h.of_entity rfl rfl ?_ ?_
    · dsimp only
      unfold PdcpEntityTx.suspend
      split_ifs
      · exact h.text
      · exact oneText_cleared h.text rfl rfl rfl
    · dsimp only
      unfold PdcpEntityTx.suspend
      split_ifs
      · rfl
      · rfl
  | _ =>
    have hq := quiet_of_step (by rfl) ht
    obtain ⟨henc, hper⟩ := log_of_step (by rfl) (by simp) (by simp) ht
    exact h.harmless henc hper hq.harmless

theorem noneAhead_reestablish (hahead : NoneAhead s.inForce s.entity) (secCfg : Sec128AsConfig)
    (hre : resets cfg = false) :
    NoneAhead (fun _ _ => False) (s.entity.reestablish cfg secCfg) := by
  have hforget : NoneAhead (fun _ _ => False) s.entity := by
    rintro c p (hf | hj)
    · exact hf.elim
    · exact hahead c p (.inr hj)
  obtain ⟨r, hr⟩ := @PdcpEntityTx.initHeaderCompression_frame C cfg s.entity
  have hsec := (hforget.compressor (r := r)).harmless
    (quiet_configureSecurity { s.entity with rohcComp := r } secCfg s.entity.integrityEnabled).harmless
  unfold PdcpEntityTx.reestablish
  rw [hr, hre]
  simp only [Bool.false_eq_true, if_false]
  split_ifs
  · exact hsec.retransmitAllPdus
  · exact hsec

/-- While nothing restarts them, the COUNTs in use stay below `TX_NEXT`. -/
theorem noneAhead_step (h : KeySafe cfg s) (hahead : NoneAhead s.inForce s.entity) {e : TxEvent}
    (hre : restarts cfg s e = false) (ht : s.step E cfg e = .ok t) : NoneAhead t.inForce t.entity := by
  have hsame : t.encryptions = s.encryptions → t.period = s.period → t.inForce = s.inForce := by
    intro henc hper
    unfold inForce
    rw [henc, hper]
  cases e with
  | sdu buf now =>
    cases ht
    exact hahead.handleSdu h.text buf now
  | applySecurity i =>
    cases ht
    have hquiet : Quiet s.entity (s.applySecurity E cfg i).entity := quiet_applySecurity s i
    intro c p hused
    rw [hquiet.next]
    exact hahead c p (used_applySecurity hused)
  | applyReordering i =>
    obtain ⟨⟨henc, hper⟩, heq | ⟨info, -, ha⟩⟩ := applyReordering_step ht
    · rw [hsame henc hper, heq]
      exact hahead
    · rw [hsame henc hper]
      exact hahead.harmless (harmless_applyReordering h.text.next_lt ha)
  | cryptoReorderingTimer =>
    obtain ⟨⟨henc, hper⟩, heq | ⟨-, hc⟩⟩ := cryptoReorderingTimer_step ht
    · rw [hsame henc hper, heq]
      exact hahead
    · have hoff : Harmless s.entity { s.entity with cryptoReorderingTimer := false } :=
        harmless_setTimer s.entity s.entity.st.txReordCrypto false
      rw [hsame henc hper]
      exact hahead.harmless (hoff.comp (harmless_cryptoReorderingTimeout h.text.next_lt hc))
  | dataRecovery =>
    rw [(dataRecovery_step ht).1]
    exact hahead.retransmitAllPdus
  | configureSecurity secCfg integrity =>
    have hquiet := quiet_configureSecurity s.entity secCfg integrity
    cases ht
    rw [h.inForce_nextPeriod]
    rintro c p (hf | hj)
    · exact hf.elim
    · exact (hahead.harmless hquiet.harmless) c p (.inr hj)
  | reestablish secCfg =>
    cases ht
    rw [h.inForce_nextPeriod]
    exact noneAhead_reestablish hahead secCfg hre
  | endBuffering now =>
    cases ht
    exact hahead.endBuffering h.text now
  | suspend =>
    cases ht
    rw [suspend_of_not hre]
    exact hahead
  | _ =>
    have hq := quiet_of_step (by rfl) ht
    obtain ⟨henc, hper⟩ := log_of_step (by rfl) (by simp) (by simp) ht
    rw [hsame henc hper]
    exact hahead.harmless hq.harmless

structure NotedSafe (cfg : PdcpTxConfig) (s : TxSystem C × Bool) : Prop where
  safe : KeySafe cfg s.1
  ahead : s.2 = false → NoneAhead s.1.inForce s.1.entity

theorem NotedSafe.step {s t : TxSystem C × Bool} (h : NotedSafe cfg s) {e : TxEvent}
    (hadm : KeepsCounts cfg s e)
    (ht : Machine.noted (TxSystem.step E cfg) (noteRestart cfg) s e = .ok t) : NotedSafe cfg t := by
  obtain ⟨u, hu, rfl⟩ := map_eq_ok.mp ht
  refine ⟨h.safe.step h.ahead hadm hu, fun hnote => ?_⟩
  rcases Bool.and_eq_false_iff.mp hnote with hno | hfree
  · obtain ⟨hbefore, hre⟩ := Bool.or_eq_false_iff.mp hno
    exact noneAhead_step h.safe (h.ahead hbefore) hre hu
  · exact noneAhead_of_not_countInUse (of_decide_eq_false hfree)

/-- Between two configurations of security a COUNT protects one plaintext only. -/
theorem one_plaintext_per_count (E : SecurityEngine) (cfg : PdcpTxConfig) (count : Nat)
    (hcount : count < 2 ^ 32) (es : List TxEvent)
    (hadm : Machine.Admits (Machine.noted (TxSystem.step E cfg) (noteRestart cfg)) (KeepsCounts cfg)
      (new C cfg count, false) es)
    {s : TxSystem C} (hrun : Machine.run (TxSystem.step E cfg) (new C cfg count) es = .ok s) :
    ∀ e ∈ s.encryptions, ∀ f ∈ s.encryptions, e.period = f.period → e.count = f.count →
      e.plain = f.plain := by
  have hinit : NotedSafe cfg (new C cfg count, false) := by
    refine ⟨⟨⟨hcount, ?_, ?_⟩, ?_, ?_, ?_⟩, fun _ => noneAhead_of_not_countInUse ?_⟩
    · rintro c p q (⟨e, he, -⟩ | ⟨j, hj, -⟩)
      · simp [new] at he
      · simp [new, PdcpEntityTx.new] at hj
    · intro _ c elem hl
      simp [new, PdcpEntityTx.new] at hl
    · simp only [new, PdcpEntityTx.new]
      split_ifs with hh
      · rw [hh, Bool.true_and]
      · simp [hh]
    · simp [new]
    · simp [new]
    · simp [CountInUse, new, PdcpEntityTx.new]
  obtain ⟨restarted, hnoted⟩ := Machine.run_noted (noteRestart cfg) hrun false
  exact (Machine.run_invariant (NotedSafe cfg) (fun _ _ _ hs he ht => hs.step he ht) hinit hadm
    hnoted).safe.log

def numberingCompressor : RohcCompressor :=
  ⟨Nat, some 0, fun n buf => (n + 1, UInt8.ofNat n :: buf), fun n _ => n⟩

def rohcTxConfig : PdcpTxConfig where
  rbType := .drb
  rlcMode := .am
  snSize := .size12bits
  discardTimer := some (.ms 10)
  headerCompression := true
  maxCountHard := 0xfffffffe
  testMode := false
  maxCountHard_lt := drbTxConfig.maxCountHard_lt
  srb_ok := by simp

def suspension : List TxEvent :=
  setUp ++ [.sdu [7] 0, .applySecurity 0, .beginBuffering, .suspend, .reestablish ⟨2, false⟩,
    .resume, .endBuffering 0, .sdu [8] 0, .applySecurity 0]

theorem one_plaintext_per_count_suspended :
    ∃ s, Machine.run (TxSystem.step nullEngine rohcTxConfig)
      (new numberingCompressor rohcTxConfig 0) suspension = .ok s ∧
      ∀ e ∈ s.encryptions, ∀ f ∈ s.encryptions, e.period = f.period → e.count = f.count →
        e.plain = f.plain := by
  obtain ⟨s, hs⟩ : ∃ s, Machine.run (TxSystem.step nullEngine rohcTxConfig)
      (new numberingCompressor rohcTxConfig 0) suspension = .ok s :=
    Machine.exists_of_isOk (by decide +kernel)
  exact ⟨s, hs, one_plaintext_per_count nullEngine rohcTxConfig 0 (by decide) _
    (by decide +kernel) hs⟩

def encryptionsOf (C : RohcCompressor) (cfg : PdcpTxConfig) (es : List TxEvent) :
    List (Nat × Nat × List UInt8) :=
  match Machine.run (TxSystem.step nullEngine cfg) (new C cfg 0) es with
  | .ok s => s.encryptions.map fun e => (e.period, e.count, e.plain)
  | .error _ => []

/-- COUNTs are used twice after a suspension without a new key, after a data recovery of
compressed SDUs, and when a job from before a re-establishment runs after it. -/
theorem counts_reused :
    encryptionsOf noCompressor drbTxConfig (setUp ++ [.sdu [7] 0, .applySecurity 0,
      .beginBuffering, .suspend, .resume, .endBuffering 0, .sdu [8] 0, .applySecurity 0]) =
      [(1, 0, [0x80, 0, 7]), (1, 0, [0x80, 0, 8])] ∧
    encryptionsOf numberingCompressor rohcTxConfig (setUp ++ [.sdu [7] 0, .applySecurity 0,
      .dataRecovery, .applySecurity 0]) =
      [(1, 0, [0x80, 0, 0, 7]), (1, 0, [0x80, 0, 1, 7])] ∧
    encryptionsOf numberingCompressor rohcTxConfig (setUp ++ [.sdu [7] 0, .sdu [7] 0,
      .applySecurity 0, .applyReordering 0, .deliveryNotification 0, .reestablish ⟨2, false⟩,
      .applySecurity 0, .applySecurity 0]) =
      [(1, 0, [0x80, 0, 0, 7]), (2, 1, [0x80, 1, 1, 7]), (2, 1, [0x80, 1, 0, 7])] := by
  decide +kernel

end TxSystem

end Ocudu.Pdcp
