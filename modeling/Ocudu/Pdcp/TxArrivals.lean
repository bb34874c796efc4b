import Ocudu.Pdcp.TxDiscardTimer
import Ocudu.Pdcp.TxSduAtomic

/-! What the operations of the transmitter do to the arrival times of the stored SDUs, in every
run whose SDUs can be compressed. -/

namespace Ocudu.Pdcp.PdcpEntityTx

open CircularMap

variable {C : RohcCompressor} {cfg : PdcpTxConfig} {s t : PdcpEntityTx C} {c : Nat}

/-- The stored SDUs lie between the edges, each with its arrival time, and one at the lower edge. -/
structure Stored (cfg : PdcpTxConfig) (s : PdcpEntityTx C) : Prop where
  window : SnWindow s.txWindow (2 ^ 32) s.st.txNextAck s.st.txNext
  capacity : s.txWindow.capacity = cfg.snSize.windowSize
  next_lt : s.st.txNext < 2 ^ 32
  ack_le : s.st.txNextAck ≤ s.st.txNext
  stamped : ∀ c elem, s.txWindow.lookup c = some elem → elem.tickPointOfArrival.isSome = true
  first : s.st.txNextAck < s.st.txNext → s.txWindow.contains s.st.txNextAck = true

theorem Stored.key (h : Stored cfg s) (hc : s.txWindow.contains c = true) :
    s.st.txNextAck ≤ c ∧ c < s.st.txNext := by
  obtain ⟨v, hv⟩ := lookup_of_contains hc
  obtain ⟨k, hk, hkn, he⟩ := h.window.only c v hv
  have := h.next_lt
  rw [Nat.mod_eq_of_lt (by omega)] at he
  omega

theorem contains_of_arrivalTick {a : Nat} (h : s.arrivalTick c = some a) :
    s.txWindow.contains c = true := by
  unfold arrivalTick at h
  cases hl : s.txWindow.lookup c with
  | none => simp [hl] at h
  | some elem => exact contains_of_lookup hl

theorem Stored.arrivalTick (h : Stored cfg s) (hc : s.txWindow.contains c = true) :
    ∃ a, s.arrivalTick c = some a ∧ s.arrivalOf c = .ok a := by
  obtain ⟨elem, he⟩ := lookup_of_contains hc
  obtain ⟨a, ha⟩ := Option.isSome_iff_exists.mp (h.stamped c elem he)
  refine ⟨a, ?_, ?_⟩
  · simp [PdcpEntityTx.arrivalTick, he, ha]
  · simp [arrivalOf, SduWindow.get, he, ha]

theorem Stored.arrivalTick_isSome (h : Stored cfg s) :
    (s.arrivalTick c).isSome = s.txWindow.contains c := by
  cases hc : s.txWindow.contains c with
  | true =>
    obtain ⟨a, ha, -⟩ := h.arrivalTick hc
    rw [ha]
    rfl
  | false => simp [PdcpEntityTx.arrivalTick, lookup_eq_none hc]

theorem Stored.discardable (h : Stored cfg s) (hd : cfg.discardTimer.isSome = true)
    (hc : s.txWindow.contains c = true) : Discardable cfg s c :=
  ⟨hd, (h.key hc).1, (h.key hc).2, hc⟩

structure SameSdusStored (s t : PdcpEntityTx C) : Prop where
  window : ∀ m a b, SnWindow s.txWindow m a b → SnWindow t.txWindow m a b
  capacity : t.txWindow.capacity = s.txWindow.capacity
  ticks : ∀ c, (t.txWindow.lookup c).map (·.tickPointOfArrival) =
    (s.txWindow.lookup c).map (·.tickPointOfArrival)
  next : t.st.txNext = s.st.txNext
  ack : t.st.txNextAck = s.st.txNextAck
  timer : t.discardTimer = s.discardTimer

theorem SameSdusStored.of_window (hw : t.txWindow = s.txWindow) (hnext : t.st.txNext = s.st.txNext)
    (hack : t.st.txNextAck = s.st.txNextAck) (htimer : t.discardTimer = s.discardTimer) :
    SameSdusStored s t :=
  ⟨by rw [hw]; exact fun _ _ _ h => h, by rw [hw], by rw [hw]; exact fun _ => rfl, hnext, hack, htimer⟩

theorem SameSdusStored.refl (s : PdcpEntityTx C) : SameSdusStored s s := .of_window rfl rfl rfl rfl

theorem SameSdusStored.trans {u : PdcpEntityTx C} (h : SameSdusStored s t)
    (h' : SameSdusStored t u) : SameSdusStored s u where
  window := fun m a b hw => h'.window m a b (h.window m a b hw)
  capacity := h'.capacity.trans h.capacity
  ticks := fun c => (h'.ticks c).trans (h.ticks c)
  next := h'.next.trans h.next
  ack := h'.ack.trans h.ack
  timer := h'.timer.trans h.timer

theorem SameSdusStored.arrivalTick (h : SameSdusStored s t) : t.arrivalTick = s.arrivalTick := by
  funext c
  have hc := h.ticks c
  unfold PdcpEntityTx.arrivalTick
  cases hs : s.txWindow.lookup c with
  | none =>
    rw [hs] at hc
    rw [Option.map_eq_none_iff.mp hc]
  | some elem =>
    rw [hs, Option.map_some] at hc
    obtain ⟨elem', he, htick⟩ := Option.map_eq_some_iff.mp hc
    rw [he]
    exact htick

theorem SameSdusStored.contains (h : SameSdusStored s t) (c : Nat) :
    t.txWindow.contains c = s.txWindow.contains c := by
  have hc := congrArg Option.isSome (h.ticks c)
  rwa [Option.isSome_map, Option.isSome_map] at hc

theorem Stored.congr (h : Stored cfg s) (hsame : SameSdusStored s t) : Stored cfg t where
  window := by rw [hsame.next, hsame.ack]; exact hsame.window _ _ _ h.window
  capacity := hsame.capacity.trans h.capacity
  next_lt := by rw [hsame.next]; exact h.next_lt
  ack_le := by rw [hsame.next, hsame.ack]; exact h.ack_le
  stamped := by
    intro c elem hc
    have hticks := hsame.ticks c
    rw [hc, Option.map_some] at hticks
    obtain ⟨elem', he, htick⟩ := Option.map_eq_some_iff.mp hticks.symm
    rw [← htick]
    exact h.stamped c elem' he
  first := by rw [hsame.next, hsame.ack, hsame.contains]; exact h.first

theorem Stored.setTimer (h : Stored cfg s) (b : Bool) : Stored cfg { s with discardTimer := b } :=
  ⟨h.window, h.capacity, h.next_lt, h.ack_le, h.stamped, h.first⟩

theorem SameSdusStored.modify {f : PdcpTxWindowElement → PdcpTxWindowElement}
    (hf : ∀ elem, (f elem).tickPointOfArrival = elem.tickPointOfArrival)
    (hw : t.txWindow = s.txWindow.modify c f) (hnext : t.st.txNext = s.st.txNext)
    (hack : t.st.txNextAck = s.st.txNextAck) (htimer : t.discardTimer = s.discardTimer) :
    SameSdusStored s t where
  window := by rw [hw]; exact fun _ _ _ h => h.modify c f
  capacity := by rw [hw, capacity_modify]
  ticks := by
    intro x
    rw [hw, lookup_modify]
    split
    · rename_i hx
      rw [hx]
      cases s.txWindow.lookup c with
      | none => rfl
      | some elem => exact congrArg some (hf elem)
    · rfl
  next := hnext
  ack := hack
  timer := htimer

theorem sameSdus_handOver (s : PdcpEntityTx C) (c : Nat) (elem : PdcpTxWindowElement) (isRetx : Bool) :
    SameSdusStored s (s.handOver c elem isRetx) :=
  @SameSdusStored.modify C s _ c (fun elem => { elem with pdu := [] }) (fun _ => rfl) rfl rfl rfl rfl

theorem sameSdus_parkPdu (s : PdcpEntityTx C) (info : PdcpTxBufferInfo) :
    SameSdusStored s (s.parkPdu info) :=
  @SameSdusStored.modify C s _ info.count
    (fun elem => { elem with pdu := info.buf, job := info, parkedAt := s.rewinds }) (fun _ => rfl)
    rfl rfl rfl rfl

theorem sameSdus_passReordering (s : PdcpEntityTx C) : SameSdusStored s s.passReordering := by
  unfold passReordering
  dsimp only
  split
  · split_ifs
    · exact .of_window rfl rfl rfl rfl
    · exact sameSdus_handOver s _ _ _
  · exact .of_window rfl rfl rfl rfl

theorem sameSdus_passUpToReord (s : PdcpEntityTx C) : SameSdusStored s s.passUpToReord := by
  unfold passUpToReord
  generalize SeqNum.subU32 s.st.txReordCrypto s.st.txTransCrypto = n
  induction n generalizing s with
  | zero => exact .refl s
  | succ n ih => exact (sameSdus_passReordering s).trans (ih _)

theorem sameSdus_startCryptoReordering (s : PdcpEntityTx C) :
    SameSdusStored s s.startCryptoReordering := by
  unfold startCryptoReordering
  split_ifs
  · exact .of_window rfl rfl rfl rfl
  · exact .refl s

theorem sameSdus_handleCryptoTimers (s : PdcpEntityTx C) : SameSdusStored s s.handleCryptoTimers := by
  have hstop : SameSdusStored s s.stopCryptoReordering := by
    unfold stopCryptoReordering
    split_ifs
    · exact .of_window rfl rfl rfl rfl
    · exact .refl s
  unfold handleCryptoTimers
  dsimp only
  split_ifs
  · exact hstop
  · exact hstop.trans (sameSdus_startCryptoReordering _)

theorem transmitSdu_of_compressed {buf : List UInt8} (hcomp : (s.applyHeaderCompression buf).1 ≠ none)
    (now : Nat) :
    (s.transmitSdu cfg buf now).txWindow = s.txWindow.overwrite s.st.txNext (s.newElement cfg buf now) ∧
      (s.transmitSdu cfg buf now).st = { s.st with txNext := (s.st.txNext + 1) % 2 ^ 32 } ∧
      (s.transmitSdu cfg buf now).discardTimer = (s.discardTimer || finiteDiscardTimer cfg) := by
  obtain ⟨u, hu⟩ : ∃ u : PdcpEntityTx C, u = { s.addSdu (s.newElement cfg buf now) with
    discardTimer := s.discardTimer || finiteDiscardTimer cfg } := ⟨_, rfl⟩
  obtain ⟨r, n, hr⟩ := u.applyHeaderCompression_frame buf
  have hfst : (u.applyHeaderCompression buf).1 = (s.applyHeaderCompression buf).1 :=
    applyHeaderCompression_fst (by rw [hu]; rfl) buf
  unfold transmitSdu
  dsimp only
  rw [← hu]
  generalize u.applyHeaderCompression buf = p at hr hfst
  obtain ⟨o, v⟩ := p
  dsimp only at hr hfst
  cases o with
  | none => exact absurd hfst.symm hcomp
  | some b =>
    dsimp only
    rw [hr, hu]
    exact ⟨rfl, rfl, rfl⟩

theorem Stored.handleSdu (h : Stored cfg s) (hdrb : cfg.rbType = .drb)
    (hfin : finiteDiscardTimer cfg = true) {buf : List UInt8} (htake : TakesCount cfg s buf)
    (hcomp : (s.applyHeaderCompression buf).1 ≠ none) {now : Nat} (ht : t = s.handleSdu cfg buf now) :
    Stored cfg t ∧ t.st.txNextAck = s.st.txNextAck ∧ t.st.txNext = s.st.txNext + 1 ∧
      t.discardTimer = true ∧
      ∀ c, t.arrivalTick c = if c = s.st.txNext then some now else s.arrivalTick c := by
  have hlimit := cfg.maxCountHard_lt
  have hmax := htake.2.2
  have hn := h.next_lt
  have hack := h.ack_le
  have hdrop : s.checkEarlyDrop cfg buf = .noDrop := by
    by_contra hne
    exact htake.2.1 ⟨by rw [hdrb]; decide, hne⟩
  have hroom := room_of_noDrop hdrop hack hn
  have hcap : s.st.txNext < s.st.txNextAck + s.txWindow.capacity := by
    rw [h.capacity]
    omega
  have hself : s.st.txNext % 2 ^ 32 = s.st.txNext := Nat.mod_eq_of_lt hn
  have hlook := h.window.lookup_put hack hcap (s.newElement cfg buf now)
  have hput := h.window.put hack hcap (s.newElement cfg buf now)
  rw [hself] at hlook hput
  rw [show max s.st.txNext (s.st.txNext + 1) = s.st.txNext + 1 by omega] at hput
  obtain ⟨hw, hst, htimer⟩ := @transmitSdu_of_compressed C cfg s buf hcomp now
  rw [← handleSdu_of_takesCount htake, ← ht] at hw hst htimer
  rw [Nat.mod_eq_of_lt (by omega)] at hst
  have hnew : (s.newElement cfg buf now).tickPointOfArrival = some now := by
    simp [newElement, hfin]
  refine ⟨⟨?_, ?_, ?_, ?_, ?_, ?_⟩, by rw [hst], by rw [hst], by rw [htimer, hfin, Bool.or_true], ?_⟩
  · rw [hw, hst]
    exact hput
  · rw [hw, capacity_overwrite]
    exact h.capacity
  · rw [hst]
    dsimp only
    omega
  · rw [hst]
    dsimp only
    omega
  · intro c elem hc
    rw [hw, hlook] at hc
    split at hc
    · cases hc
      rw [hnew]
      rfl
    · exact h.stamped c elem hc
  · intro _
    rw [hst, hw]
    dsimp only
    unfold CircularMap.contains
    rw [hlook]
    split
    · rfl
    · exact h.first (by omega)
  · intro c
    unfold PdcpEntityTx.arrivalTick
    rw [hw, hlook]
    split
    · exact hnew
    · rfl

theorem sameSdus_handleSdu {buf : List UInt8} (h : ¬TakesCount cfg s buf) (now : Nat) :
    SameSdusStored s (s.handleSdu cfg buf now) := by
  unfold PdcpEntityTx.handleSdu
  split_ifs with h1 h2 h3 h4
  · exact .of_window rfl rfl rfl rfl
  · exact .refl s
  · exact .refl s
  · unfold reachMaxCount
    split_ifs
    · exact .refl s
    · exact .of_window rfl rfl rfl rfl
  · exact absurd ⟨by simpa using h1, h3, by omega⟩ h

theorem Stored.discardPdu (h : Stored cfg s) (hd : cfg.discardTimer.isSome = true) (c : Nat) :
    Stored cfg (s.discardPdu cfg c) ∧ (s.discardPdu cfg c).st.txNext = s.st.txNext ∧
      (s.discardPdu cfg c).discardTimer = s.discardTimer ∧
      s.st.txNextAck ≤ (s.discardPdu cfg c).st.txNextAck ∧
      ∀ x, (s.discardPdu cfg c).txWindow.lookup x = if x = c then none else s.txWindow.lookup x := by
  by_cases hc : s.txWindow.contains c = true
  · obtain ⟨sb, ns, ds, b, he, hfirst⟩ := discardPdu_of (h.discardable hd hc)
    have hn := h.next_lt
    have htop := hfirst.le_top
    have hgone : ∀ x, s.st.txNextAck ≤ x → x < b → (s.txWindow.erase c).lookup (x % 2 ^ 32) = none := by
      intro x hx hxb
      rw [Nat.mod_eq_of_lt (by omega)]
      exact CircularMap.lookup_eq_none (hfirst.gone x hx hxb)
    rw [he]
    refine ⟨⟨(h.window.erase c).raise hfirst.le hgone, by simpa using h.capacity, hn, htop, ?_, ?_⟩,
      rfl, rfl, hfirst.le, lookup_erase _ _⟩
    · intro x elem hx
      rw [lookup_erase] at hx
      split at hx
      · cases hx
      · exact h.stamped x elem hx
    · intro hlt
      dsimp only at hlt ⊢
      rcases hfirst.first with hb | hb
      · omega
      · exact hb
  · have hnone : s.txWindow.lookup c = none := CircularMap.lookup_eq_none (by simpa using hc)
    rw [discardPdu_of_not fun hdis => hc hdis.2.2.2]
    refine ⟨h, rfl, rfl, le_refl _, fun x => ?_⟩
    split
    · rename_i hx
      rw [hx, hnone]
    · rfl

theorem Stored.foldl_discardPdu (hd : cfg.discardTimer.isSome = true) (cs : List Nat) (h : Stored cfg s)
    (ht : t = cs.foldl (PdcpEntityTx.discardPdu cfg) s) :
    Stored cfg t ∧ t.st.txNext = s.st.txNext ∧ t.discardTimer = s.discardTimer ∧
      ∀ x, t.txWindow.lookup x = if x ∈ cs then none else s.txWindow.lookup x := by
  induction cs generalizing s with
  | nil =>
    rw [ht]
    exact ⟨h, rfl, rfl, fun x => by simp⟩
  | cons c cs ih =>
    obtain ⟨hstored, hnext, htimer, -, hlook⟩ := h.discardPdu hd c
    obtain ⟨hs, hn, htm, hl⟩ := ih hstored ht
    refine ⟨hs, hn.trans hnext, htm.trans htimer, fun x => ?_⟩
    rw [hl, hlook]
    by_cases hx : x = c
    · simp [hx]
    · simp [hx]

theorem Stored.handleStatusReport (h : Stored cfg s) (hd : cfg.discardTimer.isSome = true)
    (bytes : List UInt8) (ht : t = s.handleStatusReport cfg bytes) :
    Stored cfg t ∧ t.st.txNext = s.st.txNext ∧ t.discardTimer = s.discardTimer ∧
      ∀ x, t.txWindow.lookup x = if x ∈ reportOf s bytes then none else s.txWindow.lookup x := by
  unfold reportOf
  cases hr : readStatusReport s.st.txNext bytes with
  | ignored =>
    unfold PdcpEntityTx.handleStatusReport at ht
    rw [hr] at ht
    rw [ht]
    exact ⟨h, rfl, rfl, fun x => by simp⟩
  | failed n =>
    unfold PdcpEntityTx.handleStatusReport at ht
    rw [hr] at ht
    rw [ht]
    exact ⟨h.congr (.of_window rfl rfl rfl rfl), rfl, rfl, fun x => by simp⟩
  | accepted fmc bitmap =>
    rw [handleStatusReport_of_accepted hr] at ht
    exact h.foldl_discardPdu hd _ ht

theorem stopDiscardTimer_of_not {n : Nat} (h : ¬TimedEntity.StopsTimer cfg s n) :
    s.stopDiscardTimer cfg n = .ok s := by
  unfold stopDiscardTimer
  split_ifs with h1 h2 h3
  · rfl
  · rfl
  · refine absurd ⟨?_, by omega, by omega, h3⟩ h
    cases hd : cfg.discardTimer with
    | none => simp [hd] at h1
    | some d => rfl
  · rfl

/-- The COUNTs up to `n` are gone in `t`, and its timer runs if there is a COUNT left. -/
structure StoppedUpTo (cfg : PdcpTxConfig) (n : Nat) (s t : PdcpEntityTx C) : Prop where
  stored : Stored cfg t
  next : t.st.txNext = s.st.txNext
  ack : t.st.txNextAck = n + 1
  timer : t.discardTimer = decide (n + 1 ≠ s.st.txNext)
  lookup : ∀ x, t.txWindow.lookup x = if x ≤ n then none else s.txWindow.lookup x

theorem Stored.stopDiscardTimer (h : Stored cfg s) {T n : Nat}
    (hms : cfg.discardTimer = some (.ms T)) (hstop : TimedEntity.StopsTimer cfg s n) :
    (∀ t, s.stopDiscardTimer cfg n = .ok t → StoppedUpTo cfg n s t) ∧
      (NextStored s n → ∃ t, s.stopDiscardTimer cfg n = .ok t) := by
  obtain ⟨hd, hlo, hhi, hc⟩ := hstop
  have hn := h.next_lt
  obtain ⟨w, sb, ns, he, hl, hw, hcap⟩ := removeUpTo_eq (n + 1 - s.st.txNextAck)
    { s with discardTimer := false }
  have hsum : s.st.txNextAck + (n + 1 - s.st.txNextAck) = n + 1 := by omega
  dsimp only at he hl hw hcap
  rw [hsum] at he hl
  obtain ⟨u, hu⟩ : ∃ u, u = (removeUpTo (n + 1 - s.st.txNextAck) { s with discardTimer := false }).raiseTrans :=
    ⟨_, rfl⟩
  have heq : s.stopDiscardTimer cfg n = u.restartDiscardTimer cfg := by
    unfold PdcpEntityTx.stopDiscardTimer
    rw [if_neg (by simp [hms]), if_neg (by omega), if_neg (not_not.mpr hc), hu]
  have huw : u.txWindow = w := by rw [hu, he]; rfl
  have hunext : u.st.txNext = s.st.txNext := by rw [hu, he]; rfl
  have huack : u.st.txNextAck = n + 1 := by rw [hu, he]; rfl
  have hutimer : u.discardTimer = false := by rw [hu, he]; rfl
  have hlow : ∀ x, u.txWindow.lookup x = if x ≤ n then none else s.txWindow.lookup x := by
    intro x
    rw [huw, hl]
    by_cases hx : x < s.st.txNextAck
    · rw [if_neg (by omega), if_pos (by omega)]
      apply CircularMap.lookup_eq_none
      by_contra hne
      have := h.key (by simpa using hne)
      omega
    · by_cases hxn : x ≤ n
      · rw [if_pos (by omega), if_pos hxn]
      · rw [if_neg (by omega), if_neg hxn]
  have hstored : ∀ b, (n + 1 < s.st.txNext → u.txWindow.contains (n + 1) = true) →
      Stored cfg { u with discardTimer := b } := by
    intro b hfirst
    refine ⟨?_, ?_, ?_, ?_, ?_, ?_⟩
    · dsimp only
      rw [huw, hunext, huack]
      refine (hw _ _ _ h.window).raise (by omega) fun x hx hxn => ?_
      rw [Nat.mod_eq_of_lt (by omega), hl, if_pos ⟨hx, hxn⟩]
    · dsimp only
      rw [huw, hcap]
      exact h.capacity
    · dsimp only
      rw [hunext]
      exact hn
    · dsimp only
      rw [huack, hunext]
      exact hhi
    · intro x elem hx
      dsimp only at hx
      rw [hlow] at hx
      split at hx
      · cases hx
      · exact h.stamped x elem hx
    · dsimp only
      rw [huack, hunext]
      exact hfirst
  have hinf : cfg.discardTimer ≠ some .infinity := by simp [hms]
  rw [heq]
  unfold PdcpEntityTx.restartDiscardTimer
  rw [if_neg hinf, huack, hunext]
  by_cases hedge : n + 1 = s.st.txNext
  · rw [if_neg (not_not.mpr hedge)]
    refine ⟨?_, fun _ => ⟨u, rfl⟩⟩
    intro t ht
    cases ht
    have hu' := hstored false fun hlt => absurd hedge (by omega)
    rw [← hutimer] at hu'
    exact ⟨hu', hunext, huack, by rw [hutimer, decide_eq_false (not_not.mpr hedge)], hlow⟩
  · rw [if_pos hedge]
    refine ⟨?_, ?_⟩
    · intro t ht
      obtain ⟨a, ha, ht⟩ := bind_eq_ok.mp ht
      cases ht
      have hcont : u.txWindow.contains (n + 1) = true := by
        unfold PdcpEntityTx.arrivalOf SduWindow.get at ha
        cases hx : u.txWindow.lookup (n + 1) with
        | none =>
          rw [hx] at ha
          cases ha
        | some elem => exact contains_of_lookup hx
      exact ⟨hstored true fun _ => hcont, hunext, huack, by rw [decide_eq_true hedge], hlow⟩
    · intro hnext
      have hcont : u.txWindow.contains (n + 1) = true := by
        have hs := (hnext hlo hhi).resolve_left hedge
        unfold CircularMap.contains at hs ⊢
        rw [hlow, if_neg (by omega)]
        exact hs
      obtain ⟨a, -, ha⟩ := (hstored true fun _ => hcont).arrivalTick hcont
      have ha' : u.arrivalOf (n + 1) = .ok a := ha
      exact ⟨{ u with discardTimer := true }, by rw [ha']; rfl⟩

/-- The SDUs of `s` that are as old as `oldest` are gone in `t`, and no other one. -/
structure Expires (cfg : PdcpTxConfig) (oldest : Nat) (s t : PdcpEntityTx C) : Prop where
  stored : Stored cfg t
  next : t.st.txNext = s.st.txNext
  lookup : ∀ x, t.txWindow.lookup x = s.txWindow.lookup x ∨
    (t.txWindow.lookup x = none ∧ s.arrivalTick x = some oldest)
  young : t.arrivalTick t.st.txNextAck ≠ some oldest
  timer : t.discardTimer = t.txWindow.contains t.st.txNextAck

theorem Stored.discardLoop {oldest : Nat} (fuel : Nat) (h : Stored cfg s)
    (hd : cfg.discardTimer.isSome = true) (hold : s.arrivalTick s.st.txNextAck = some oldest)
    (htimer : s.discardTimer = false) (hf : s.st.txNext - s.st.txNextAck < fuel) :
    ∃ t, PdcpEntityTx.discardLoop cfg oldest fuel s = .ok t ∧ Expires cfg oldest s t := by
  induction fuel generalizing s with
  | zero => omega
  | succ fuel ih =>
    have hc := contains_of_arrivalTick hold
    have hmove := txNextAck_lt_discardPdu (h.discardable hd hc)
    obtain ⟨hstored, hnext, htm, -, hlook⟩ := h.discardPdu hd s.st.txNextAck
    unfold PdcpEntityTx.discardLoop
    dsimp only
    generalize s.discardPdu cfg s.st.txNextAck = u at hmove hstored hnext htm hlook
    have hgone : ∀ x, u.txWindow.lookup x = s.txWindow.lookup x ∨
        (u.txWindow.lookup x = none ∧ s.arrivalTick x = some oldest) := by
      intro x
      rw [hlook]
      split
      · rename_i hx
        rw [hx]
        exact .inr ⟨rfl, hold⟩
      · exact .inl rfl
    by_cases h1 : u.txWindow.contains u.st.txNextAck = true
    · obtain ⟨a, ha, hok⟩ := hstored.arrivalTick h1
      rw [if_neg (not_not.mpr h1)]
      simp only [hok, ok_bind]
      split_ifs with h2 h3
      · refine ⟨_, rfl, hstored.setTimer true, hnext, hgone, fun hy => ?_, h1.symm⟩
        exact h2 (Option.some_inj.mp (ha.symm.trans hy))
      · have := (hstored.key h1).2
        omega
      · have hack := (hstored.key h1).2
        rw [not_not.mp h2] at ha
        obtain ⟨t, ht, hex⟩ := ih hstored ha (htm.trans htimer) (by omega)
        refine ⟨t, ht, hex.stored, hex.next.trans hnext, fun x => ?_, hex.young, hex.timer⟩
        rcases hex.lookup x with hx | ⟨hx, hx'⟩
        · rw [hx]
          exact hgone x
        · rcases hgone x with hux | ⟨-, hux⟩
          · refine .inr ⟨hx, ?_⟩
            unfold PdcpEntityTx.arrivalTick at hx' ⊢
            rwa [← hux]
          · exact .inr ⟨hx, hux⟩
    · rw [if_pos h1]
      refine ⟨u, rfl, hstored, hnext, hgone, fun hy => h1 (contains_of_arrivalTick hy), ?_⟩
      rw [htm, htimer]
      simpa using h1

theorem Stored.discardCallback {oldest : Nat} (h : Stored cfg s) (hd : cfg.discardTimer.isSome = true)
    (hold : s.arrivalTick s.st.txNextAck = some oldest) (htimer : s.discardTimer = false) :
    ∃ t, s.discardCallback cfg = .ok t ∧ Expires cfg oldest s t := by
  have hc := contains_of_arrivalTick hold
  obtain ⟨a, ha, hok⟩ := h.arrivalTick hc
  cases Option.some_inj.mp (hold.symm.trans ha)
  unfold PdcpEntityTx.discardCallback
  rw [if_neg (not_not.mpr hc), hok, ok_bind]
  exact h.discardLoop _ hd hold htimer (Nat.lt_succ_self _)

end Ocudu.Pdcp.PdcpEntityTx
