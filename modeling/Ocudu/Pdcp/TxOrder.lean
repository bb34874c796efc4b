import Ocudu.Pdcp.TxFrame

/-! Between two rewinds the PDUs are handed over in the order of their COUNTs, and they carry
the flag of their own job as long as no job flushes PDUs of the other kind. -/

namespace Ocudu.Pdcp

open CircularMap

namespace PdcpEntityTx

variable {C : RohcCompressor} {cfg : PdcpTxConfig} {s t : PdcpEntityTx C} {c : Nat}

/-- The edges of the window, and the PDUs handed over before the last rewind and after it. -/
structure Logged (s : PdcpEntityTx C) : Prop where
  low : LowEdge s
  ack_le : s.st.txNextAck ≤ s.st.txNext
  trans_le : s.st.txTransCrypto ≤ s.st.txNext
  next_lt : s.st.txNext < 2 ^ 32
  log : s.handed.Pairwise fun h h' => h.rewinds = h'.rewinds → h.count < h'.count
  past : ∀ h ∈ s.handed, h.rewinds ≤ s.rewinds
  flags : ∀ h ∈ s.handed, h.isRetx = h.job.isRetx

structure Ordered (s : PdcpEntityTx C) : Prop extends Logged s where
  below : ∀ h ∈ s.handed, h.rewinds = s.rewinds → h.count < s.st.txTransCrypto

/-- Where the reordering timer finds `TX_TRANS_CRYPTO` when it expires. A rewind may take it
past `TX_REORD_CRYPTO`, but only over COUNTs that are gone. -/
def ReordAhead (s : PdcpEntityTx C) : Prop :=
  s.cryptoReorderingTimer = true → s.st.txReordCrypto ≤ s.st.txNext ∧
    (s.st.txTransCrypto ≤ s.st.txReordCrypto ∨ s.st.txReordCrypto < s.st.txNextAck)

theorem Logged.quiet (h : Logged s) (hq : Quiet s t) : Logged t where
  low := (hq.edge h.low h.ack_le).1
  ack_le := (hq.edge h.low h.ack_le).2
  trans_le := by rw [hq.trans, hq.next]; exact h.trans_le
  next_lt := by rw [hq.next]; exact h.next_lt
  log := by rw [hq.handed]; exact h.log
  past := by rw [hq.handed, hq.rewinds]; exact h.past
  flags := by rw [hq.handed]; exact h.flags

theorem Ordered.quiet (h : Ordered s) (hq : Quiet s t) : Ordered t where
  toLogged := h.toLogged.quiet hq
  below := by rw [hq.handed, hq.rewinds, hq.trans]; exact h.below

theorem ReordAhead.quiet (h : ReordAhead s) (hq : Quiet s t) : ReordAhead t := by
  intro ht
  have hr := h (hq.timer ht)
  have hack := hq.ack
  rw [hq.reord, hq.next, hq.trans]
  omega

theorem Ordered.handOver (h : Ordered s) (hlt : s.st.txTransCrypto < s.st.txNext)
    {elem : PdcpTxWindowElement} {isRetx : Bool} (hflag : elem.job.isRetx = isRetx) :
    Ordered (s.handOver s.st.txTransCrypto elem isRetx) := by
  have hnext := h.next_lt
  have hmod : (s.st.txTransCrypto + 1) % 2 ^ 32 = s.st.txTransCrypto + 1 :=
    Nat.mod_eq_of_lt (by omega)
  constructor
  case toLogged =>
    constructor
    case low =>
      intro x hx
      simp only [PdcpEntityTx.handOver, contains_modify] at hx
      exact h.low x hx
    case ack_le => exact h.ack_le
    case trans_le =>
      simp only [PdcpEntityTx.handOver, hmod]
      omega
    case next_lt => exact hnext
    case log =>
      simp only [PdcpEntityTx.handOver]
      rw [List.pairwise_append]
      refine ⟨h.log, List.pairwise_singleton _ _, ?_⟩
      intro a ha b hb heq
      rw [List.mem_singleton] at hb
      subst hb
      exact h.below a ha heq
    case past =>
      intro a ha
      simp only [PdcpEntityTx.handOver, List.mem_append, List.mem_singleton] at ha
      rcases ha with ha | rfl
      · exact h.past a ha
      · exact le_refl _
    case flags =>
      intro a ha
      simp only [PdcpEntityTx.handOver, List.mem_append, List.mem_singleton] at ha
      rcases ha with ha | rfl
      · exact h.flags a ha
      · exact hflag.symm
  case below =>
    intro a ha heq
    simp only [PdcpEntityTx.handOver, List.mem_append, List.mem_singleton] at ha
    simp only [PdcpEntityTx.handOver, hmod]
    rcases ha with ha | rfl
    · have := h.below a ha heq
      omega
    · exact Nat.lt_succ_self _

theorem Ordered.skipCount (h : Ordered s) (hlt : s.st.txTransCrypto < s.st.txNext) :
    Ordered s.skipCount := by
  have hnext := h.next_lt
  have hmod : (s.st.txTransCrypto + 1) % 2 ^ 32 = s.st.txTransCrypto + 1 :=
    Nat.mod_eq_of_lt (by omega)
  refine ⟨⟨h.low, h.ack_le, ?_, hnext, h.log, h.past, h.flags⟩, ?_⟩
  · simp only [PdcpEntityTx.skipCount, hmod]
    omega
  · intro a ha heq
    simp only [PdcpEntityTx.skipCount, hmod]
    have := h.below a ha heq
    omega

/-! The PDUs that one job, or the timer, takes along -/

/-- The parked PDUs from `a` on, up to the first gap, are of jobs with the flag `isRetx`. -/
def AgreeFrom (a : Nat) (isRetx : Bool) (s : PdcpEntityTx C) : Prop :=
  ∀ c elem, a ≤ c → c < s.st.txNext → (∀ x, a ≤ x → x ≤ c → parked s x) →
    s.txWindow.lookup c = some elem → elem.job.isRetx = isRetx

theorem AgreeFrom.quiet {a : Nat} {isRetx : Bool} (h : AgreeFrom a isRetx s) (hq : Quiet s t) :
    AgreeFrom a isRetx t := by
  intro c elem hc hcn hall hl
  rw [hq.next] at hcn
  refine h c elem hc hcn (fun x hx hxc => ?_) (hq.stored c elem hl)
  obtain ⟨e, he, hpdu⟩ := hall x hx hxc
  exact ⟨e, hq.stored x e he, hpdu⟩

theorem AgreeFrom.congr {a : Nat} {isRetx : Bool} (h : AgreeFrom a isRetx s)
    (hnext : t.st.txNext = s.st.txNext)
    (hl : ∀ x, a ≤ x → t.txWindow.lookup x = s.txWindow.lookup x) : AgreeFrom a isRetx t := by
  intro c elem hc hcn hall hlt
  rw [hnext] at hcn
  rw [hl c hc] at hlt
  refine h c elem hc hcn (fun x hx hxc => ?_) hlt
  obtain ⟨e, he, hpdu⟩ := hall x hx hxc
  exact ⟨e, by rw [← hl x hx]; exact he, hpdu⟩

theorem lookup_handOver_of_ne {elem : PdcpTxWindowElement} {isRetx : Bool} {a x : Nat} (hx : x ≠ a) :
    (s.handOver a elem isRetx).txWindow.lookup x = s.txWindow.lookup x := by
  simp only [handOver]
  rw [lookup_modify, if_neg hx]

theorem AgreeFrom.handOver {isRetx : Bool} (h : AgreeFrom s.st.txTransCrypto isRetx s)
    (hlt : s.st.txTransCrypto < s.st.txNext) {elem : PdcpTxWindowElement}
    (hl : s.txWindow.lookup s.st.txTransCrypto = some elem) (hpdu : elem.pdu ≠ []) :
    elem.job.isRetx = isRetx ∧ AgreeFrom (s.st.txTransCrypto + 1) isRetx
      (s.handOver s.st.txTransCrypto elem isRetx) := by
  have hfirst : parked s s.st.txTransCrypto := ⟨elem, hl, hpdu⟩
  constructor
  · refine h _ elem (le_refl _) hlt (fun x hx hxc => ?_) hl
    rw [Nat.le_antisymm hxc hx]
    exact hfirst
  · refine AgreeFrom.congr (s := s) ?_ rfl fun x hx => lookup_handOver_of_ne (by omega)
    intro c e hc hcn hall hlc
    refine h c e (by omega) hcn (fun x hx hxc => ?_) hlc
    rcases Nat.lt_or_eq_of_le hx with hx | rfl
    · exact hall x hx hxc
    · exact hfirst

/-- What the loops leave alone, besides the window and `TX_TRANS_CRYPTO`. -/
structure Passed (s t : PdcpEntityTx C) : Prop where
  next : t.st.txNext = s.st.txNext
  reord : t.st.txReordCrypto = s.st.txReordCrypto
  timer : t.cryptoReorderingTimer = true → s.cryptoReorderingTimer = true

theorem Ordered.flushInOrder {isRetx : Bool} (h : Ordered s)
    (hagree : AgreeFrom s.st.txTransCrypto isRetx s) (ht : s.flushInOrder cfg isRetx = .ok t) :
    Ordered t ∧ Passed s t := by
  have hrule : Ordered t ∧ AgreeFrom t.st.txTransCrypto isRetx t ∧ Passed s t := by
    refine flushInOrder_rule (P := fun u => Ordered u ∧ AgreeFrom u.st.txTransCrypto isRetx u ∧
      Passed s u) ?_ ⟨h, hagree, rfl, rfl, id⟩ h.next_lt ht
    rintro u elem v ⟨hord, hag, hpass⟩ hnext hlt hl hpdu hq
    obtain ⟨hflag, hrest⟩ := hag.handOver hlt hl hpdu
    refine ⟨(hord.handOver hlt hflag).quiet hq, ?_, ?_⟩
    · have htrans : v.st.txTransCrypto = u.st.txTransCrypto + 1 :=
        hq.trans.trans (Nat.mod_eq_of_lt (by omega))
      rw [htrans]
      exact hrest.quiet hq
    · exact ⟨hq.next.trans hpass.next, hq.reord.trans hpass.reord,
        fun hr => hpass.timer (hq.timer hr)⟩
  exact ⟨hrule.1, hrule.2.2⟩

theorem Ordered.iterate_passReordering (n : Nat) (h : Ordered s)
    (hn : s.st.txTransCrypto + n ≤ s.st.txNext)
    (hflag : ∀ c elem, s.st.txTransCrypto ≤ c → c < s.st.txTransCrypto + n →
      s.txWindow.lookup c = some elem → elem.pdu ≠ [] → elem.job.isRetx = false) :
    Ordered (passReordering^[n] s) ∧ (passReordering^[n] s).st.txTransCrypto =
        s.st.txTransCrypto + n ∧
      Passed s (passReordering^[n] s) ∧ ∀ x, s.st.txTransCrypto + n ≤ x →
        (passReordering^[n] s).txWindow.lookup x = s.txWindow.lookup x := by
  induction n generalizing s with
  | zero => exact ⟨h, rfl, ⟨rfl, rfl, id⟩, fun _ _ => rfl⟩
  | succ n ih =>
    have hlt : s.st.txTransCrypto < s.st.txNext := by omega
    have hnext := h.next_lt
    have hmod : (s.st.txTransCrypto + 1) % 2 ^ 32 = s.st.txTransCrypto + 1 :=
      Nat.mod_eq_of_lt (by omega)
    have hone : Ordered s.passReordering ∧ Passed s s.passReordering ∧
        s.passReordering.st.txTransCrypto = s.st.txTransCrypto + 1 ∧
        ∀ x, s.st.txTransCrypto + 1 ≤ x →
          s.passReordering.txWindow.lookup x = s.txWindow.lookup x := by
      rcases s.passReordering_cases with ⟨elem, hl, hpdu, he⟩ | he
      · rw [he]
        have hret := hflag _ elem (le_refl _) (by omega) hl hpdu
        exact ⟨h.handOver hlt hret, ⟨rfl, rfl, id⟩, hmod,
          fun x hx => lookup_handOver_of_ne (by omega)⟩
      · rw [he]
        exact ⟨h.skipCount hlt, ⟨rfl, rfl, id⟩, hmod, fun _ _ => rfl⟩
    obtain ⟨hord, hpass, htrans, hlook⟩ := hone
    have hpn := hpass.next
    obtain ⟨iord, itrans, ipass, ilook⟩ := ih hord (by omega) fun c elem hc hcn hl hpdu => by
      rw [hlook c (by omega)] at hl
      exact hflag c elem (by omega) (by omega) hl hpdu
    rw [Function.iterate_succ_apply]
    refine ⟨iord, by omega, ?_, fun x hx => ?_⟩
    · exact ⟨ipass.next.trans hpn, ipass.reord.trans hpass.reord,
        fun hr => hpass.timer (ipass.timer hr)⟩
    · rw [ilook x (by omega), hlook x (by omega)]

structure OrderInv (s : PdcpEntityTx C) : Prop extends Ordered s where
  reord : ReordAhead s

theorem OrderInv.quiet (h : OrderInv s) (hq : Quiet s t) : OrderInv t :=
  ⟨h.toOrdered.quiet hq, h.reord.quiet hq⟩

theorem Ordered.setTimer (h : Ordered s) (reord : Nat) (timer : Bool) :
    Ordered (s.setTimer reord timer) :=
  ⟨⟨h.low, h.ack_le, h.trans_le, h.next_lt, h.log, h.past, h.flags⟩, h.below⟩

theorem Ordered.startCryptoReordering (h : Ordered s) (hoff : s.cryptoReorderingTimer = false) :
    OrderInv s.startCryptoReordering := by
  unfold PdcpEntityTx.startCryptoReordering
  split_ifs with hlt
  · exact ⟨h.setTimer _ _, fun _ => ⟨le_refl _, .inl (le_of_lt hlt)⟩⟩
  · exact ⟨h, fun hr => absurd hr (by simp [hoff])⟩

theorem Ordered.handleCryptoTimers (h : Ordered s)
    (hreord : s.cryptoReorderingTimer = true → s.st.txReordCrypto ≤ s.st.txNext) :
    OrderInv s.handleCryptoTimers := by
  unfold PdcpEntityTx.handleCryptoTimers stopCryptoReordering
  by_cases hstop : s.cryptoReorderingTimer = true ∧ s.st.txReordCrypto ≤ s.st.txTransCrypto
  · rw [if_pos hstop]
    exact (h.setTimer s.st.txReordCrypto false).startCryptoReordering rfl
  · rw [if_neg hstop]
    by_cases hrun : s.cryptoReorderingTimer = true
    · have hlt : ¬s.st.txReordCrypto ≤ s.st.txTransCrypto := fun hle => hstop ⟨hrun, hle⟩
      simp only [hrun, if_true]
      exact ⟨h, fun _ => ⟨hreord hrun, .inl (by omega)⟩⟩
    · simp only [hrun, Bool.false_eq_true, if_false]
      exact h.startCryptoReordering (by simpa using hrun)

def isParked (s : PdcpEntityTx C) (c : Nat) : Bool :=
  match s.txWindow.lookup c with
  | some elem => elem.pdu ≠ []
  | none => false

/-- The flag of the job that made the PDU of a stored COUNT. -/
def jobIsRetx (s : PdcpEntityTx C) (c : Nat) : Option Bool :=
  (s.txWindow.lookup c).map (·.job.isRetx)

def readyWith (s : PdcpEntityTx C) (info : PdcpTxBufferInfo) : List Nat :=
  (List.range' s.st.txTransCrypto (s.st.txNext - s.st.txTransCrypto)).takeWhile fun c =>
    if c = info.count then info.buf ≠ [] else s.isParked c

/-- The PDUs that the one of `info` completes the order for come from jobs of its kind. -/
def JobsAgree (s : PdcpEntityTx C) (info : PdcpTxBufferInfo) : Prop :=
  Accepted s info → ∀ c ∈ s.readyWith info, c ≠ info.count → s.jobIsRetx c = some info.isRetx

instance (s : PdcpEntityTx C) (info : PdcpTxBufferInfo) : Decidable (JobsAgree s info) := by
  unfold JobsAgree
  infer_instance

def readyOnTimeout (s : PdcpEntityTx C) : List Nat :=
  (List.range' s.st.txTransCrypto (s.st.txReordCrypto - s.st.txTransCrypto)).filter s.isParked ++
    (List.range' s.st.txReordCrypto (s.st.txNext - s.st.txReordCrypto)).takeWhile s.isParked

theorem isParked_iff : s.isParked c = true ↔ parked s c := by
  unfold isParked parked
  cases hl : s.txWindow.lookup c with
  | none => simp
  | some elem => simp

theorem jobIsRetx_of_lookup {elem : PdcpTxWindowElement} (h : s.txWindow.lookup c = some elem) :
    s.jobIsRetx c = some elem.job.isRetx := by
  unfold jobIsRetx
  rw [h]
  rfl

theorem mem_takeWhile_range' (p : Nat → Bool) (a n x : Nat) (hx : a ≤ x) (hxn : x < a + n)
    (hall : ∀ y, a ≤ y → y ≤ x → p y = true) : x ∈ (List.range' a n).takeWhile p := by
  induction n generalizing a with
  | zero => omega
  | succ n ih =>
    rw [List.range'_succ, List.takeWhile_cons_of_pos (hall a (le_refl _) hx), List.mem_cons]
    rcases Nat.lt_or_eq_of_le hx with hx | rfl
    · exact .inr (ih (a + 1) hx (by omega) fun y hy => hall y (by omega))
    · exact .inl rfl

theorem JobsAgree.parkPdu {info : PdcpTxBufferInfo} (h : JobsAgree s info) (hacc : Accepted s info) :
    AgreeFrom s.st.txTransCrypto info.isRetx (s.parkPdu info) := by
  have hlook : ∀ x, x ≠ info.count → (s.parkPdu info).txWindow.lookup x = s.txWindow.lookup x := by
    intro x hx
    simp only [PdcpEntityTx.parkPdu]
    rw [lookup_modify, if_neg hx]
  have hself : ∀ elem, (s.parkPdu info).txWindow.lookup info.count = some elem →
      elem.pdu = info.buf ∧ elem.job = info := by
    intro elem he
    simp only [PdcpEntityTx.parkPdu] at he
    rw [lookup_modify, if_pos rfl] at he
    obtain ⟨e, -, rfl⟩ := Option.map_eq_some_iff.mp he
    exact ⟨rfl, rfl⟩
  intro c elem hc hcn hall hl
  by_cases heq : c = info.count
  · rw [heq] at hl
    rw [(hself elem hl).2]
  · have hmem : c ∈ s.readyWith info := by
      refine mem_takeWhile_range' _ _ _ c hc (by change c < s.st.txNext at hcn; omega) ?_
      intro y hy hyc
      obtain ⟨e, he, hpdu⟩ := hall y hy hyc
      by_cases hye : y = info.count
      · rw [hye] at he
        rw [(hself e he).1] at hpdu
        rw [if_pos hye]
        simpa using hpdu
      · rw [if_neg hye, isParked_iff]
        exact ⟨e, by rw [← hlook y hye]; exact he, hpdu⟩
    rw [hlook c heq] at hl
    have hret := h hacc c hmem heq
    rw [jobIsRetx_of_lookup hl] at hret
    exact Option.some.inj hret

theorem Ordered.parkPdu (h : Ordered s) (info : PdcpTxBufferInfo) : Ordered (s.parkPdu info) := by
  refine ⟨⟨?_, h.ack_le, h.trans_le, h.next_lt, h.log, h.past, h.flags⟩, h.below⟩
  intro x hx
  simp only [PdcpEntityTx.parkPdu, contains_modify] at hx
  exact h.low x hx

theorem OrderInv.applyReordering {info : PdcpTxBufferInfo} (h : OrderInv s)
    (hagree : JobsAgree s info) (ht : s.applyReordering cfg info = .ok t) : OrderInv t := by
  rcases applyReordering_cases ht with rfl | ⟨hacc, u, hf, rfl⟩
  · exact h
  · obtain ⟨hord, hpass⟩ := (h.toOrdered.parkPdu info).flushInOrder (hagree.parkPdu hacc) hf
    refine hord.handleCryptoTimers fun hr => ?_
    rw [hpass.reord, hpass.next]
    exact (h.reord (hpass.timer hr)).1

theorem cryptoReorderingTimeout_gone (h : Ordered s) (hlt : s.st.txReordCrypto < s.st.txTransCrypto)
    (hgone : s.st.txReordCrypto < s.st.txNextAck) : s.cryptoReorderingTimeout cfg ≠ .ok t := by
  have hnext := h.next_lt
  have htrans := h.trans_le
  have hack := h.ack_le
  obtain ⟨hst, -, hcont⟩ := iterate_passReordering_frame
    (SeqNum.subU32 s.st.txReordCrypto s.st.txTransCrypto) s (by omega)
  have hend : (s.st.txTransCrypto + SeqNum.subU32 s.st.txReordCrypto s.st.txTransCrypto) % 2 ^ 32 =
      s.st.txReordCrypto := by
    rw [SeqNum.subU32, SeqNum.add_dist_mod (by decide), Nat.mod_eq_of_lt (by omega)]
  rw [hend] at hst
  have habsent : (passReordering^[SeqNum.subU32 s.st.txReordCrypto s.st.txTransCrypto] s).txWindow.lookup
      s.st.txReordCrypto = none := by
    apply CircularMap.lookup_eq_none
    rw [hcont]
    by_contra hc
    have := h.low _ (by simpa using hc)
    omega
  unfold PdcpEntityTx.cryptoReorderingTimeout PdcpEntityTx.passUpToReord PdcpEntityTx.flushInOrder
  generalize passReordering^[SeqNum.subU32 s.st.txReordCrypto s.st.txTransCrypto] s = u at hst habsent
  obtain ⟨n, hn⟩ : ∃ n, u.st.txNext - u.st.txTransCrypto = n + 1 :=
    ⟨s.st.txNext - s.st.txReordCrypto - 1, by rw [hst]; dsimp only; omega⟩
  rw [hn]
  unfold PdcpEntityTx.flushLoop SduWindow.get
  rw [hst]
  simp only [habsent, error_bind]
  intro hc
  cases hc

theorem OrderInv.cryptoReorderingTimeout (h : OrderInv s) (hrun : s.cryptoReorderingTimer = true)
    (hagree : ∀ c ∈ s.readyOnTimeout, s.jobIsRetx c = some false)
    (ht : { s with cryptoReorderingTimer := false }.cryptoReorderingTimeout cfg = .ok t) :
    OrderInv t := by
  have hoff : Ordered { s with cryptoReorderingTimer := false } :=
    h.toOrdered.setTimer s.st.txReordCrypto false
  obtain ⟨hre, hle⟩ := h.reord hrun
  have hnext := h.next_lt
  by_cases hpast : s.st.txReordCrypto < s.st.txTransCrypto
  · exact absurd ht (cryptoReorderingTimeout_gone hoff hpast (by dsimp only; omega))
  · have hdist : SeqNum.subU32 s.st.txReordCrypto s.st.txTransCrypto =
        s.st.txReordCrypto - s.st.txTransCrypto := SeqNum.dist_of_le (by omega) (by omega)
    have hsum : s.st.txTransCrypto + (s.st.txReordCrypto - s.st.txTransCrypto) =
        s.st.txReordCrypto := by omega
    have hbelow : ∀ c elem, s.st.txTransCrypto ≤ c →
        c < s.st.txTransCrypto + (s.st.txReordCrypto - s.st.txTransCrypto) →
        s.txWindow.lookup c = some elem → elem.pdu ≠ [] → elem.job.isRetx = false := by
      intro c elem hc hcn hl hpdu
      have hmem : c ∈ s.readyOnTimeout := by
        refine List.mem_append_left _ (List.mem_filter.mpr ⟨List.mem_range'_1.mpr ⟨hc, hcn⟩, ?_⟩)
        exact isParked_iff.mpr ⟨elem, hl, hpdu⟩
      have hret := hagree c hmem
      rw [jobIsRetx_of_lookup hl] at hret
      exact Option.some.inj hret
    have hfrom : AgreeFrom s.st.txReordCrypto false s := by
      intro c elem hc hcn hall hl
      have hmem : c ∈ s.readyOnTimeout := by
        refine List.mem_append_right _ (mem_takeWhile_range' _ _ _ c hc (by omega) ?_)
        exact fun y hy hyc => isParked_iff.mpr (hall y hy hyc)
      have hret := hagree c hmem
      rw [jobIsRetx_of_lookup hl] at hret
      exact Option.some.inj hret
    obtain ⟨v, hf, rfl⟩ := cryptoReorderingTimeout_cases ht
    unfold PdcpEntityTx.passUpToReord at hf
    obtain ⟨hord, htrans, hpass, hlook⟩ := Ordered.iterate_passReordering
      (s.st.txReordCrypto - s.st.txTransCrypto) hoff (by dsimp only; omega) hbelow
    dsimp only at hf htrans hpass hlook
    rw [hdist] at hf
    rw [hsum] at htrans hlook
    generalize passReordering^[s.st.txReordCrypto - s.st.txTransCrypto]
      { s with cryptoReorderingTimer := false } = u at hf hord htrans hpass hlook
    have hag : AgreeFrom u.st.txTransCrypto false u := by
      rw [htrans]
      exact hfrom.congr hpass.next hlook
    obtain ⟨hv, hpv⟩ := hord.flushInOrder hag hf
    refine hv.startCryptoReordering ?_
    by_contra hon
    exact absurd (hpass.timer (hpv.timer (by simpa using hon))) (by simp)

theorem OrderInv.accepts {elem : PdcpTxWindowElement} {buf : List UInt8} (h : OrderInv s)
    (ha : Accepts cfg s t elem buf) : OrderInv t := by
  have hst : ∃ n, t.st = { s.st with txNext := n } ∧ s.st.txNext ≤ n ∧ n < 2 ^ 32 := by
    rcases ha.job with ⟨hst, -⟩ | ⟨hst, hlt, -⟩
    · exact ⟨s.st.txNext, hst, le_refl _, h.next_lt⟩
    · exact ⟨_, hst, by omega, hlt⟩
  obtain ⟨n, hst, hle, hlt⟩ := hst
  have hack := h.ack_le
  have htrans := h.trans_le
  constructor
  case toOrdered =>
    refine ⟨⟨?_, ?_, ?_, ?_, ?_, ?_, ?_⟩, ?_⟩
    · intro x hx
      obtain ⟨e, he⟩ := lookup_of_contains hx
      rw [hst]
      rcases ha.stored x e he with ⟨rfl, -⟩ | ⟨-, hold⟩
      · exact hack
      · exact h.low x (contains_of_lookup hold)
    · rw [hst]
      exact hack.trans hle
    · rw [hst]
      exact htrans.trans hle
    · rw [hst]
      exact hlt
    · rw [ha.handed]
      exact h.log
    · rw [ha.handed, ha.rewinds]
      exact h.past
    · rw [ha.handed]
      exact h.flags
    · rw [ha.handed, ha.rewinds, hst]
      exact h.below
  case reord =>
    intro hr
    rw [ha.timer] at hr
    have := h.reord hr
    rw [hst]
    dsimp only
    omega

theorem OrderInv.handleSdu (h : OrderInv s) (buf : List UInt8) (now : Nat) :
    OrderInv (s.handleSdu cfg buf now) := by
  by_cases htake : TakesCount cfg s buf
  · rw [handleSdu_of_takesCount htake]
    exact h.accepts (transmitSdu_accepts htake now)
  · exact h.quiet (quiet_handleSdu htake now)

theorem OrderInv.endBuffering (h : OrderInv s) (now : Nat) : OrderInv (s.endBuffering cfg now) :=
  endBuffering_rule OrderInv (fun _ buf hu => hu.handleSdu buf now) (h.quiet (Quiet.set s _ _ _ _ _ _ _ _ _))

theorem Logged.retransmitAllPdus (h : Logged s) (hre : ReordAhead s) :
    OrderInv (s.retransmitAllPdus cfg) := by
  have hold : ∀ a ∈ s.handed, a.rewinds ≤ s.rewinds + 1 := fun a ha => (h.past a ha).trans (Nat.le_succ _)
  have hnone : ∀ a ∈ s.handed, a.rewinds ≠ s.rewinds + 1 := fun a ha => by
    have := h.past a ha
    omega
  unfold PdcpEntityTx.retransmitAllPdus
  dsimp only
  split_ifs with h1 h2
  · exact ⟨⟨⟨h.low, h.ack_le, h.trans_le, h.next_lt, h.log, hold, h.flags⟩,
      fun a ha he => absurd he (hnone a ha)⟩, hre⟩
  · exact ⟨⟨⟨h.low, h.ack_le, h.trans_le, h.next_lt, h.log, hold, h.flags⟩,
      fun a ha he => absurd he (hnone a ha)⟩, hre⟩
  · obtain ⟨r, n, j, hr⟩ := @retransmitLoop_frame C cfg
      (List.range' s.st.txNextAck (s.st.txNext - s.st.txNextAck))
      { s with
        rewinds := s.rewinds + 1
        st := { s.st with txTrans := s.st.txNextAck, txTransCrypto := s.st.txNextAck }
        retransmits := s.retransmits + 1 }
    rw [hr]
    refine ⟨⟨⟨h.low, h.ack_le, h.ack_le, h.next_lt, h.log, hold, h.flags⟩,
      fun a ha he => absurd he (hnone a ha)⟩, ?_⟩
    intro hrun
    have := hre hrun
    dsimp only
    omega

/-- Nothing was handed over since the last rewind. -/
def NoneHanded (s : PdcpEntityTx C) : Prop := ∀ h ∈ s.handed, h.rewinds ≠ s.rewinds

instance (s : PdcpEntityTx C) : Decidable (NoneHanded s) := by
  unfold NoneHanded
  infer_instance

theorem Logged.cleared (h : Logged s) (hst : t.st = ⟨0, 0, 0, 0, 0⟩)
    (hw : t.txWindow = .empty cfg.snSize.windowSize) (hh : t.handed = s.handed)
    (hr : t.rewinds = s.rewinds) : Logged t ∧ ReordAhead t := by
  refine ⟨⟨?_, ?_, ?_, ?_, ?_, ?_, ?_⟩, ?_⟩
  · intro x hx
    rw [hw] at hx
    simp [contains] at hx
  · rw [hst]
  · rw [hst]
  · rw [hst]
    decide
  · rw [hh]
    exact h.log
  · rw [hh, hr]
    exact h.past
  · rw [hh]
    exact h.flags
  · intro _
    rw [hst]
    exact ⟨le_refl _, .inl (le_refl _)⟩

theorem OrderInv.suspend (h : OrderInv s)
    (hnone : s.suspended = false → s.buffering = true → NoneHanded s) :
    OrderInv (s.suspend cfg) := by
  unfold PdcpEntityTx.suspend
  split_ifs with hs
  · exact h
  · rw [not_or, not_not] at hs
    obtain ⟨hlog, hre⟩ := h.toLogged.cleared (t := { s.clearWindow cfg with
      st := ⟨0, 0, 0, 0, 0⟩
      discardTimer := s.discardTimer && cfg.discardTimer.isNone
      suspended := true }) rfl rfl rfl rfl
    exact ⟨⟨hlog, fun a ha he => absurd he (hnone (by simpa using hs.1) hs.2 a ha)⟩, hre⟩

theorem OrderInv.reestablish (h : OrderInv s) (hnone : cfg.rlcMode = .um → NoneHanded s)
    (secCfg : Sec128AsConfig) : OrderInv (s.reestablish cfg secCfg) := by
  obtain ⟨r, hr⟩ := @initHeaderCompression_frame C cfg s
  unfold PdcpEntityTx.reestablish
  rw [hr]
  dsimp only
  have hinit : Logged { s with rohcComp := r } :=
    ⟨h.low, h.ack_le, h.trans_le, h.next_lt, h.log, h.past, h.flags⟩
  by_cases hres : resets cfg = true
  · simp only [hres, if_true]
    obtain ⟨hlog, hre⟩ := hinit.cleared (t := PdcpEntityTx.reset cfg { s with rohcComp := r })
      rfl rfl rfl rfl
    have hq := quiet_configureSecurity (PdcpEntityTx.reset cfg { s with rohcComp := r }) secCfg
      s.integrityEnabled
    split_ifs with ham
    · exact (hlog.quiet hq).retransmitAllPdus (hre.quiet hq)
    · have hum : cfg.rlcMode = .um := by
        cases hm : cfg.rlcMode with
        | um => rfl
        | am => exact absurd hm ham
      have hord : OrderInv (PdcpEntityTx.reset cfg { s with rohcComp := r }) :=
        ⟨⟨hlog, fun a ha he => absurd he (hnone hum a ha)⟩, hre⟩
      exact hord.quiet hq
  · simp only [hres, Bool.false_eq_true, if_false]
    have hq := quiet_configureSecurity { s with rohcComp := r } secCfg s.integrityEnabled
    have hre : ReordAhead { s with rohcComp := r } := h.reord
    split_ifs with ham
    · exact (hinit.quiet hq).retransmitAllPdus (hre.quiet hq)
    · have hord : OrderInv { s with rohcComp := r } := ⟨⟨hinit, h.below⟩, hre⟩
      exact hord.quiet hq

end PdcpEntityTx

namespace TxSystem

open PdcpEntityTx

variable {C : RohcCompressor} {E : SecurityEngine} {cfg : PdcpTxConfig} {s t : TxSystem C}

/-- No job and no timer takes PDUs of the other kind along, and the COUNTs do not start again
after PDUs were handed over. -/
def KindsApart (cfg : PdcpTxConfig) (s : TxSystem C) : TxEvent → Prop
  | .applyReordering i => ∀ info ∈ s.protectedPdus[i]?, JobsAgree s.entity info
  | .cryptoReorderingTimer => s.entity.cryptoReorderingTimer = true →
      ∀ c ∈ s.entity.readyOnTimeout, s.entity.jobIsRetx c = some false
  | .suspend => s.entity.suspended = false → s.entity.buffering = true → NoneHanded s.entity
  | .reestablish _ => cfg.rlcMode = .um → NoneHanded s.entity
  | _ => True

instance (s : TxSystem C) : (e : TxEvent) → Decidable (KindsApart cfg s e)
  | .applyReordering _ => inferInstanceAs (Decidable (∀ info ∈ _, JobsAgree s.entity info))
  | .cryptoReorderingTimer => inferInstanceAs (Decidable (_ → ∀ c ∈ _, _ = some false))
  | .suspend => inferInstanceAs (Decidable (_ → _ → NoneHanded s.entity))
  | .reestablish _ => inferInstanceAs (Decidable (_ → NoneHanded s.entity))
  | .sdu .. | .applySecurity _ | .loseJob _ | .losePdu _ | .transmitNotification _
  | .retransmitNotification _ | .deliveryNotification _ | .deliveryRetransmittedNotification _
  | .desiredBufferSize _ | .statusReport _ | .rohcFeedback _ | .discardTimer | .dataRecovery
  | .configureSecurity .. | .beginBuffering | .endBuffering _ | .resume => .isTrue trivial

theorem OrderInv.step (h : PdcpEntityTx.OrderInv s.entity) {e : TxEvent}
    (hadm : KindsApart cfg s e) (ht : s.step E cfg e = .ok t) :
    PdcpEntityTx.OrderInv t.entity := by
  cases hq : isQuiet e with
  | true => exact h.quiet (quiet_of_step hq ht)
  | false =>
    cases e with
    | sdu buf now =>
      cases ht
      exact h.handleSdu buf now
    | applyReordering i =>
      rcases (applyReordering_step ht).2 with heq | ⟨info, hi, ha⟩
      · rw [heq]
        exact h
      · exact h.applyReordering (hadm info hi) ha
    | cryptoReorderingTimer =>
      rcases (cryptoReorderingTimer_step ht).2 with heq | ⟨hrun, hc⟩
      · rw [heq]
        exact h
      · exact h.cryptoReorderingTimeout hrun (hadm hrun) hc
    | dataRecovery =>
      rw [(dataRecovery_step ht).1]
      exact h.toLogged.retransmitAllPdus h.reord
    | reestablish secCfg =>
      cases ht
      exact h.reestablish hadm secCfg
    | endBuffering now =>
      cases ht
      exact h.endBuffering now
    | suspend =>
      cases ht
      exact h.suspend hadm
    | _ => cases hq

/-- Between two rewinds the COUNTs of the PDUs handed over increase, and each PDU carries the
flag of the job that made it. -/
theorem handed_in_order (E : SecurityEngine) (cfg : PdcpTxConfig) (count : Nat)
    (hcount : count < 2 ^ 32) (es : List TxEvent)
    (hadm : Machine.Admits (TxSystem.step E cfg) (KindsApart cfg) (new C cfg count) es)
    {s : TxSystem C} (hrun : Machine.run (TxSystem.step E cfg) (new C cfg count) es = .ok s) :
    s.entity.handed.Pairwise (fun h h' => h.rewinds = h'.rewinds → h.count < h'.count) ∧
      ∀ h ∈ s.entity.handed, h.isRetx = h.job.isRetx := by
  have hinit : PdcpEntityTx.OrderInv (new C cfg count).entity := by
    refine ⟨⟨⟨?_, le_refl _, le_refl _, hcount, List.Pairwise.nil, ?_, ?_⟩, ?_⟩, ?_⟩
    · intro x hx
      simp [new, PdcpEntityTx.new, CircularMap.contains] at hx
    all_goals simp [new, PdcpEntityTx.new, ReordAhead]
  have hend := Machine.run_invariant (fun s : TxSystem C => PdcpEntityTx.OrderInv s.entity)
    (fun _ _ _ hs he ht => OrderInv.step hs he ht) hinit hadm hrun
  exact ⟨hend.log, hend.flags⟩

def recovery : List TxEvent :=
  setUp ++ [.sdu [1] 0, .sdu [2] 0, .applySecurity 1, .applyReordering 0, .applySecurity 0,
    .applyReordering 0, .dataRecovery, .sdu [3] 0, .applySecurity 1, .applyReordering 0,
    .applySecurity 0, .applyReordering 0, .applySecurity 0, .applyReordering 0]

theorem handed_in_order_recovered :
    ∃ s, Machine.run (TxSystem.step nullEngine drbTxConfig) (new noCompressor drbTxConfig 0)
      recovery = .ok s ∧
      s.entity.handed.Pairwise (fun h h' => h.rewinds = h'.rewinds → h.count < h'.count) ∧
      ∀ h ∈ s.entity.handed, h.isRetx = h.job.isRetx := by
  obtain ⟨s, hs⟩ : ∃ s, Machine.run (TxSystem.step nullEngine drbTxConfig)
      (new noCompressor drbTxConfig 0) recovery = .ok s :=
    Machine.exists_of_isOk (by decide +kernel)
  exact ⟨s, hs, handed_in_order nullEngine drbTxConfig 0 (by decide) _ (by decide +kernel) hs⟩

/-- After a data recovery the job of a new SDU is done first; the retransmission that fills the
gap hands the new PDU over as a retransmission. -/
theorem new_pdu_flagged_as_retransmission :
    (match Machine.run (TxSystem.step nullEngine drbTxConfig) (new noCompressor drbTxConfig 0)
      (setUp ++ [.sdu [1] 0, .applySecurity 0, .applyReordering 0, .dataRecovery, .sdu [2] 0,
        .applySecurity 1, .applyReordering 0, .applySecurity 0, .applyReordering 0]) with
    | .ok s => s.entity.handed.map fun h => (h.count, h.isRetx, h.job.isRetx)
    | .error _ => []) = [(0, false, false), (0, true, true), (1, true, false)] := by
  decide +kernel

end TxSystem

end Ocudu.Pdcp
