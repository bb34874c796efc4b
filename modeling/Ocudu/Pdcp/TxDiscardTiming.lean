import Ocudu.Basic.AgeTimer
import Ocudu.Pdcp.TxArrivals

/-! When the discard timer removes SDUs: the transmitter's one timer keeps the deadline of each
SDU as long as no status report takes the oldest SDUs away from it. -/

namespace Ocudu.Pdcp

open PdcpEntityTx

namespace TimedEntity

variable {C : RohcCompressor} {cfg : PdcpTxConfig} {T : Nat} {s t : TimedEntity C}

def deadline (s : TimedEntity C) : Option Nat :=
  if s.entity.discardTimer = true then some s.clock.expiry else none

structure Timely (cfg : PdcpTxConfig) (T : Nat) (s : TimedEntity C) : Prop where
  stored : Stored cfg s.entity
  ages : AgeTimer s.entity.arrivalTick s.entity.st.txNextAck s.entity.st.txNext s.clock.now T s.deadline
  expired : ∀ x ∈ s.clock.expired, x.time = x.arrival + T
  restarts : ∀ v ∈ s.clock.restarts, 1 ≤ v ∧ v ≤ T

theorem Timely.congr (h : Timely cfg T s) (hsame : SameSdusStored s.entity t.entity)
    (hclock : t.clock = s.clock) : Timely cfg T t where
  stored := h.stored.congr hsame
  ages := by
    unfold deadline
    rw [hsame.arrivalTick, hsame.ack, hsame.next, hsame.timer, hclock]
    exact h.ages
  expired := by rw [hclock]; exact h.expired
  restarts := by rw [hclock]; exact h.restarts

section

variable (hms : cfg.discardTimer = some (.ms T))
include hms

theorem isSome_of_ms : cfg.discardTimer.isSome = true := by
  rw [hms]
  rfl

theorem finite_of_ms : finiteDiscardTimer cfg = true := by
  simp [finiteDiscardTimer, hms]

theorem duration_of_ms : cfg.discardDuration = T := by
  simp [PdcpTxConfig.discardDuration, hms]

theorem Timely.handleSdu (h : Timely cfg T s) (hdrb : cfg.rbType = .drb) (hT : 0 < T) {buf : List UInt8}
    (hcomp : TakesCount cfg s.entity buf → (s.entity.applyHeaderCompression buf).1 ≠ none) :
    Timely cfg T (s.handleSdu cfg buf) := by
  unfold TimedEntity.handleSdu
  by_cases htake : TakesCount cfg s.entity buf
  · obtain ⟨e, he⟩ : ∃ e, e = s.entity.handleSdu cfg buf s.clock.now := ⟨_, rfl⟩
    obtain ⟨hstored, hack, hnext, htimer, harr⟩ :=
      h.stored.handleSdu hdrb (finite_of_ms hms) htake (hcomp htake) he
    have hpush := h.ages.push h.stored.ack_le hT harr
    rw [← he]
    cases hrun : s.entity.discardTimer with
    | false =>
      rw [if_pos ⟨htake, finite_of_ms hms, rfl⟩]
      refine ⟨hstored, ?_, h.expired, h.restarts⟩
      unfold deadline at hpush ⊢
      rw [hrun] at hpush
      rw [hack, hnext, htimer, if_pos rfl]
      dsimp only [DiscardClock.run]
      rw [duration_of_ms hms, max_eq_left hT]
      exact hpush
    | true =>
      rw [if_neg (by simp)]
      refine ⟨hstored, ?_, h.expired, h.restarts⟩
      unfold deadline at hpush ⊢
      rw [hrun] at hpush
      rw [hack, hnext, htimer, if_pos rfl]
      exact hpush
  · rw [if_neg fun hc => htake hc.1]
    exact h.congr (sameSdus_handleSdu htake _) rfl

theorem Timely.handleStatusReport (h : Timely cfg T s) {bytes : List UInt8}
    (hold : s.entity.txWindow.contains s.entity.st.txNextAck = true →
      ∃ c ∈ expiring s.entity, c ∉ reportOf s.entity bytes) :
    Timely cfg T ⟨s.entity.handleStatusReport cfg bytes, s.clock⟩ := by
  obtain ⟨e, he⟩ : ∃ e, e = s.entity.handleStatusReport cfg bytes := ⟨_, rfl⟩
  obtain ⟨hstored, hnext, htimer, hlook⟩ :=
    h.stored.handleStatusReport (isSome_of_ms hms) bytes he
  rw [← he]
  refine ⟨hstored, ?_, h.expired, h.restarts⟩
  have harr : ∀ c, e.arrivalTick c =
      if c ∈ reportOf s.entity bytes then none else s.entity.arrivalTick c := by
    intro c
    unfold arrivalTick
    rw [hlook]
    split <;> rfl
  have hkeep : AgeTimer e.arrivalTick e.st.txNextAck s.entity.st.txNext s.clock.now T s.deadline := by
    refine h.ages.keep ?_ ?_ ?_
    · intro c a hc
      refine ⟨?_, (hstored.key (contains_of_arrivalTick hc)).1⟩
      rw [harr] at hc
      split at hc
      · cases hc
      · exact hc
    · intro hlt
      rw [hstored.arrivalTick_isSome]
      exact hstored.first (by omega)
    · intro a ha
      obtain ⟨c, hc, hrep⟩ := hold (contains_of_arrivalTick ha)
      refine ⟨c, ?_⟩
      rw [harr, if_neg hrep]
      unfold expiring at hc
      have htick := of_decide_eq_true (List.mem_filter.mp hc).2
      unfold arrivalTick at ha ⊢
      cases hl : s.entity.txWindow.lookup c with
      | none =>
        rw [hl] at htick
        rw [Option.map_eq_none_iff.mp htick.symm] at ha
        cases ha
      | some elem =>
        rw [hl, Option.map_some] at htick
        obtain ⟨first, hfirst, heq⟩ := Option.map_eq_some_iff.mp htick.symm
        rw [hfirst] at ha
        exact heq.symm.trans ha
  unfold deadline at hkeep ⊢
  dsimp only
  rw [hnext, htimer]
  exact hkeep

end

abbrev TransmitStops (cfg : PdcpTxConfig) (s : PdcpEntityTx C) (sn : Nat) : Prop :=
  cfg.rlcMode = .um ∧ sn < cfg.snSize.cardinality ∧
    s.notificationCount cfg sn < s.st.txTransCrypto ∧ s.st.txTrans ≤ s.notificationCount cfg sn

/-- A delivery notification that is taken up stops the timers of an AM bearer. -/
abbrev DeliveryStops (cfg : PdcpTxConfig) (sn : Nat) : Prop :=
  cfg.rlcMode = .am ∧ sn < cfg.snSize.cardinality

theorem stopDiscardTimer_of_not {n : Nat} (h : ¬StopsTimer cfg s.entity n) :
    s.stopDiscardTimer cfg n = .ok s := by
  unfold TimedEntity.stopDiscardTimer
  rw [PdcpEntityTx.stopDiscardTimer_of_not h, ok_bind, if_neg fun hc => h hc.1]
  rfl

section

variable (hms : cfg.discardTimer = some (.ms T))
include hms

theorem Timely.stopDiscardTimer (h : Timely cfg T s) (hT : T < 2 ^ 32) {n : Nat}
    (ht : s.stopDiscardTimer cfg n = .ok t) : Timely cfg T t := by
  by_cases hstop : StopsTimer cfg s.entity n
  · unfold TimedEntity.stopDiscardTimer at ht
    obtain ⟨e, he, ht⟩ := bind_eq_ok.mp ht
    have hspec := (h.stored.stopDiscardTimer hms hstop).1 e he
    have harr : ∀ c a, e.arrivalTick c = some a → s.entity.arrivalTick c = some a ∧ n + 1 ≤ c := by
      intro c a hc
      unfold arrivalTick at hc ⊢
      rw [hspec.lookup] at hc
      split at hc
      · cases hc
      · exact ⟨hc, by omega⟩
    have hfirst : n + 1 < s.entity.st.txNext → (e.arrivalTick (n + 1)).isSome = true := by
      intro hlt
      rw [hspec.stored.arrivalTick_isSome, ← hspec.ack]
      exact hspec.stored.first (by rw [hspec.ack, hspec.next]; exact hlt)
    have hre := h.ages.rearm harr hfirst
    by_cases hedge : n + 1 = s.entity.st.txNext
    · rw [if_neg (by rw [hspec.ack, hspec.next]; exact fun hc => hc.2.2 hedge)] at ht
      cases ht
      refine ⟨hspec.stored, ?_, h.expired, h.restarts⟩
      unfold deadline
      dsimp only
      rw [hspec.ack, hspec.next, hspec.timer, if_neg (by simp [hedge])]
      have hnone : e.arrivalTick (n + 1) = none := by
        cases ha : e.arrivalTick (n + 1) with
        | none => rfl
        | some a =>
          have := (h.ages.bounds _ a (harr _ a ha).1).2
          omega
      rw [hnone] at hre
      exact hre
    · rw [if_pos ⟨hstop, finite_of_ms hms, by rw [hspec.ack, hspec.next]; exact hedge⟩] at ht
      cases ht
      have hlt : n + 1 < s.entity.st.txNext := by
        have := hstop.2.2.1
        omega
      obtain ⟨a, ha⟩ := Option.isSome_iff_exists.mp (hfirst hlt)
      have haged := h.ages.aged _ a (harr _ a ha).1
      have hval : SeqNum.subU32 (a + T) s.clock.now = a + T - s.clock.now :=
        SeqNum.dist_of_le (by omega) (by omega)
      rw [hspec.ack, ha, Option.getD_some, duration_of_ms hms, hval]
      refine ⟨hspec.stored, ?_, h.expired, ?_⟩
      · unfold deadline
        dsimp only [DiscardClock.restart, DiscardClock.run]
        rw [hspec.ack, hspec.next, hspec.timer, if_pos (by simp [hedge]),
          show s.clock.now + max (a + T - s.clock.now) 1 = a + T by omega]
        rw [ha] at hre
        exact hre
      · intro v hv
        rcases List.mem_append.mp hv with hv | hv
        · exact h.restarts v hv
        · rw [List.mem_singleton.mp hv]
          omega
  · rw [TimedEntity.stopDiscardTimer_of_not hstop] at ht
    cases ht
    exact h

theorem Timely.transmitNotification (h : Timely cfg T s) (hT : T < 2 ^ 32) {sn : Nat}
    (ht : s.transmitNotification cfg sn = .ok t) : Timely cfg T t := by
  have hset : ∀ n, Timely cfg T
      { s with entity := { s.entity with st := { s.entity.st with txTrans := n } } } :=
    fun n => h.congr (.of_window rfl rfl rfl rfl) rfl
  unfold TimedEntity.transmitNotification at ht
  dsimp only at ht
  split_ifs at ht
  · cases ht
    exact h
  · cases ht
    exact h
  · cases ht
    exact h
  · cases ht
    exact h
  · exact (hset _).stopDiscardTimer hms hT ht
  · cases ht
    exact hset _

theorem Timely.deliveryNotification (h : Timely cfg T s) (hT : T < 2 ^ 32) {sn : Nat}
    (ht : s.deliveryNotification cfg sn = .ok t) : Timely cfg T t := by
  unfold TimedEntity.deliveryNotification at ht
  dsimp only at ht
  split_ifs at ht
  · cases ht
    exact h
  · cases ht
    exact h
  · exact h.stopDiscardTimer hms hT ht
  · cases ht
    exact h

end

theorem mem_goneSince {s t : PdcpEntityTx C} {now : Nat} {x : ExpiredSdu}
    (hx : x ∈ s.goneSince t now) :
    t.txWindow.contains x.count = false ∧ s.arrivalTick x.count = some x.arrival ∧ x.time = now := by
  unfold goneSince at hx
  obtain ⟨c, -, hc⟩ := List.mem_filterMap.mp hx
  split at hc
  · cases hc
  · rename_i hgone
    obtain ⟨a, ha, rfl⟩ := Option.map_eq_some_iff.mp hc
    exact ⟨by simpa using hgone, ha, rfl⟩

theorem time_of_mem_goneSince {oldest : Nat} {s t : PdcpEntityTx C} (hex : Expires cfg oldest s t)
    {now : Nat} {x : ExpiredSdu} (hx : x ∈ s.goneSince t now) : x.arrival = oldest ∧ x.time = now := by
  obtain ⟨hgone, ha, htime⟩ := mem_goneSince hx
  refine ⟨?_, htime⟩
  rcases hex.lookup x.count with hl | ⟨-, hl⟩
  · have hc := contains_of_arrivalTick ha
    unfold CircularMap.contains at hc hgone
    rw [hl, hc] at hgone
    cases hgone
  · exact Option.some_inj.mp (ha.symm.trans hl)

theorem arrivalTick_of_expires {oldest : Nat} {s t : PdcpEntityTx C} (hex : Expires cfg oldest s t)
    {c a : Nat} (hc : t.arrivalTick c = some a) : s.arrivalTick c = some a ∧ t.st.txNextAck ≤ c := by
  refine ⟨?_, (hex.stored.key (contains_of_arrivalTick hc)).1⟩
  rcases hex.lookup c with hx | ⟨hx, -⟩
  · unfold arrivalTick at hc ⊢
    rwa [hx] at hc
  · simp [arrivalTick, hx] at hc

theorem Timely.discardCallback {oldest : Nat} {e : PdcpEntityTx C} (h : Timely cfg T s) (hT : T < 2 ^ 32)
    (hdead : s.deadline = some (s.clock.now + 1))
    (hold : s.entity.arrivalTick s.entity.st.txNextAck = some oldest)
    (hcall : e = { s.entity with discardTimer := false })
    (hok : ∃ t, e.discardCallback cfg = .ok t ∧ Expires cfg oldest e t) :
    ∃ t, TimedEntity.discardCallback cfg ⟨e, { s.clock with now := s.clock.now + 1 }⟩ = .ok t ∧
      Timely cfg T t := by
  obtain ⟨t, ht, hex⟩ := hok
  have hages := h.ages
  rw [hdead] at hages
  have hdue := (hages.due_iff hold).mp rfl
  have hold' : e.arrivalTick e.st.txNextAck = some oldest := by rw [hcall]; exact hold
  have harr : ∀ c a, t.arrivalTick c = some a → s.entity.arrivalTick c = some a ∧ t.st.txNextAck ≤ c := by
    intro c a hc
    have := arrivalTick_of_expires hex hc
    rwa [hcall] at this
  have hnext : t.st.txNext = s.entity.st.txNext := by rw [hex.next, hcall]
  have hexpire := hages.expire harr
    (fun hlt => by
      rw [hex.stored.arrivalTick_isSome]
      exact hex.stored.first (by omega))
    (fun a ha hsame => hex.young (by rw [ha, ← hsame, hold]))
  have hlog : ∀ x ∈ s.clock.expired ++ e.goneSince t (s.clock.now + 1), x.time = x.arrival + T := by
    intro x hx
    rcases List.mem_append.mp hx with hx | hx
    · exact h.expired x hx
    · obtain ⟨harrival, htime⟩ := time_of_mem_goneSince hex hx
      omega
  unfold TimedEntity.discardCallback
  dsimp only
  rw [ht, ok_bind]
  by_cases hmore : t.txWindow.contains t.st.txNextAck = true
  · obtain ⟨a, ha, -⟩ := hex.stored.arrivalTick hmore
    have hne : a ≠ oldest := fun heq => hex.young (by rw [ha, heq])
    have hsorted := h.ages.sorted _ _ oldest a hold (harr _ a ha).1
      (h.ages.bounds _ a (harr _ a ha).1).1
    have haged := h.ages.aged _ a (harr _ a ha).1
    have hval : SeqNum.subU32 a oldest = a - oldest := SeqNum.dist_of_le hsorted (by omega)
    rw [ha, hold', Option.getD_some, Option.getD_some,
      if_pos ⟨contains_of_arrivalTick hold', hmore, hne⟩, hval]
    refine ⟨_, rfl, hex.stored, ?_, hlog, ?_⟩
    · unfold deadline
      dsimp only [DiscardClock.restart, DiscardClock.run]
      rw [hnext, hex.timer, hmore, if_pos rfl,
        show s.clock.now + 1 + max (a - oldest) 1 = a + T by omega]
      rw [ha] at hexpire
      exact hexpire
    · intro v hv
      rcases List.mem_append.mp hv with hv | hv
      · exact h.restarts v hv
      · rw [List.mem_singleton.mp hv]
        omega
  · rw [if_neg fun hc => hmore hc.2.1]
    refine ⟨_, rfl, hex.stored, ?_, hlog, h.restarts⟩
    unfold deadline
    dsimp only
    rw [hnext, hex.timer, if_neg hmore]
    have hnone : t.arrivalTick t.st.txNextAck = none := by
      cases ha : t.arrivalTick t.st.txNextAck with
      | none => rfl
      | some a => exact absurd (contains_of_arrivalTick ha) hmore
    rw [hnone] at hexpire
    exact hexpire

theorem Timely.tick (h : Timely cfg T s) (hms : cfg.discardTimer = some (.ms T)) (hT : T < 2 ^ 32) :
    ∃ t, s.tick cfg = .ok t ∧ Timely cfg T t := by
  unfold TimedEntity.tick
  dsimp only
  split_ifs with hdue
  · obtain ⟨hrun, hnow⟩ := hdue
    have hdead : s.deadline = some (s.clock.now + 1) := by
      unfold deadline
      rw [if_pos hrun, hnow]
    obtain ⟨oldest, hold, -⟩ := Option.map_eq_some_iff.mp (h.ages.armed.symm.trans hdead)
    exact h.discardCallback hT hdead hold rfl
      ((h.stored.setTimer false).discardCallback (isSome_of_ms hms) hold rfl)
  · refine ⟨_, rfl, h.stored, ?_, h.expired, h.restarts⟩
    refine h.ages.tick fun hdead => hdue ?_
    unfold deadline at hdead
    split at hdead
    · rename_i hrun
      exact ⟨hrun, Option.some_inj.mp hdead⟩
    · cases hdead

theorem Timely.flushLoop (hms : cfg.discardTimer = some (.ms T)) (hT : T < 2 ^ 32) (isRetx : Bool)
    (n : Nat) (h : Timely cfg T s) (ht : flushLoop cfg isRetx n s = .ok t) : Timely cfg T t := by
  induction n generalizing s with
  | zero =>
    cases ht
    exact h
  | succ n ih =>
    unfold TimedEntity.flushLoop at ht
    obtain ⟨elem, -, ht⟩ := bind_eq_ok.mp ht
    split_ifs at ht with hpdu
    · cases ht
      exact h
    · obtain ⟨u, hu, ht⟩ := bind_eq_ok.mp ht
      have hover : Timely cfg T
          { s with entity := s.entity.handOver s.entity.st.txTransCrypto elem isRetx } :=
        h.congr (sameSdus_handOver _ _ _ _) rfl
      refine ih ?_ ht
      unfold TimedEntity.notifyInTestMode at hu
      split_ifs at hu
      · exact hover.transmitNotification hms hT hu
      · cases hu
        exact hover

theorem Timely.applyReordering (h : Timely cfg T s) (hms : cfg.discardTimer = some (.ms T))
    (hT : T < 2 ^ 32) {info : PdcpTxBufferInfo} (ht : s.applyReordering cfg info = .ok t) :
    Timely cfg T t := by
  unfold TimedEntity.applyReordering at ht
  split_ifs at ht
  · cases ht
    exact h
  · cases ht
    exact h
  · cases ht
    exact h
  · obtain ⟨u, hu, ht⟩ := bind_eq_ok.mp ht
    cases ht
    have hpark : Timely cfg T { s with entity := s.entity.parkPdu info } :=
      h.congr (sameSdus_parkPdu _ _) rfl
    exact (Timely.flushLoop hms hT _ _ hpark hu).congr (sameSdus_handleCryptoTimers _) rfl
  · cases ht
    exact h

theorem Timely.cryptoReorderingTimeout (h : Timely cfg T s) (hms : cfg.discardTimer = some (.ms T))
    (hT : T < 2 ^ 32) (ht : s.cryptoReorderingTimeout cfg = .ok t) : Timely cfg T t := by
  unfold TimedEntity.cryptoReorderingTimeout at ht
  obtain ⟨u, hu, ht⟩ := bind_eq_ok.mp ht
  cases ht
  have hpass : Timely cfg T { s with entity := s.entity.passUpToReord } :=
    h.congr (sameSdus_passUpToReord _) rfl
  exact (Timely.flushLoop hms hT _ _ hpass hu).congr (sameSdus_startCryptoReordering _) rfl

end TimedEntity

namespace TimedTx

open TimedEntity

variable {C : RohcCompressor} {E : SecurityEngine} {cfg : PdcpTxConfig} {T : Nat} {s : TimedTx C}

/-- The report leaves an SDU that is as old as the oldest one, if there is any SDU. -/
abbrev OldestStays (s : PdcpEntityTx C) (bytes : List UInt8) : Prop :=
  s.txWindow.contains s.st.txNextAck = true → ∃ c ∈ expiring s, c ∉ reportOf s bytes

/-- Each SDU can be compressed, no status report takes the oldest SDUs away from the timer, and a
notification does not end at a COUNT that is gone. -/
def OnTime (cfg : PdcpTxConfig) (s : TimedTx C) : TimedEvent → Prop
  | .sdu buf => TakesCount cfg s.sys.entity buf → (s.sys.entity.applyHeaderCompression buf).1 ≠ none
  | .transmitNotification sn => TransmitStops cfg s.sys.entity sn →
      NextStored s.sys.entity (s.sys.entity.notificationCount cfg sn)
  | .deliveryNotification sn => DeliveryStops cfg sn →
      NextStored s.sys.entity (s.sys.entity.notificationCount cfg sn)
  | .deliveryRetransmittedNotification sn => DeliveryStops cfg sn →
      NextStored s.sys.entity (s.sys.entity.notificationCount cfg sn)
  | .statusReport bytes => OldestStays s.sys.entity bytes
  | _ => True

instance OnTime.decidable (s : TimedTx C) : (e : TimedEvent) → Decidable (OnTime cfg s e)
  | .sdu buf => inferInstanceAs (Decidable (TakesCount cfg s.sys.entity buf →
      (s.sys.entity.applyHeaderCompression buf).1 ≠ none))
  | .transmitNotification sn => inferInstanceAs (Decidable (TransmitStops cfg s.sys.entity sn →
      NextStored s.sys.entity (s.sys.entity.notificationCount cfg sn)))
  | .deliveryNotification sn => inferInstanceAs (Decidable (DeliveryStops cfg sn →
      NextStored s.sys.entity (s.sys.entity.notificationCount cfg sn)))
  | .deliveryRetransmittedNotification sn => inferInstanceAs (Decidable (DeliveryStops cfg sn →
      NextStored s.sys.entity (s.sys.entity.notificationCount cfg sn)))
  | .statusReport bytes => inferInstanceAs (Decidable (OldestStays s.sys.entity bytes))
  | .retransmitNotification _ => .isTrue trivial
  | .tick => .isTrue trivial
  | .applySecurity _ => .isTrue trivial
  | .loseJob _ => .isTrue trivial
  | .applyReordering _ => .isTrue trivial
  | .losePdu _ => .isTrue trivial
  | .cryptoReorderingTimer => .isTrue trivial
  | .desiredBufferSize _ => .isTrue trivial
  | .configureSecurity _ _ => .isTrue trivial

theorem timely_withTimed {r : Except Fault (TimedEntity C)} {t : TimedTx C} (h : s.withTimed r = .ok t)
    (hr : ∀ u, r = .ok u → Timely cfg T u) : Timely cfg T t.timed := by
  obtain ⟨u, hu, rfl⟩ := exists_of_withTimed h
  exact hr u hu

theorem timely_withSys (h : Timely cfg T s.timed) {sys : TxSystem C} {t : TimedTx C}
    (ht : s.withSys (.ok sys) = .ok t) (hsame : SameSdusStored s.sys.entity sys.entity) :
    Timely cfg T t.timed := by
  cases ht
  exact h.congr hsame rfl

theorem Timely.step (h : Timely cfg T s.timed) (hdrb : cfg.rbType = .drb)
    (hms : cfg.discardTimer = some (.ms T)) (hpos : 0 < T) (hT : T < 2 ^ 32) {e : TimedEvent}
    (hadm : OnTime cfg s e) {t : TimedTx C} (ht : s.step E cfg e = .ok t) : Timely cfg T t.timed := by
  cases e with
  | sdu buf =>
    refine timely_withTimed ht fun u hu => ?_
    cases hu
    exact TimedEntity.Timely.handleSdu hms h hdrb hpos hadm
  | transmitNotification sn => exact timely_withTimed ht fun _ => h.transmitNotification hms hT
  | retransmitNotification sn =>
    refine timely_withTimed ht fun u hu => ?_
    unfold TimedEntity.ofRetransmitted at hu
    split_ifs at hu
    · cases hu
      exact h
    · exact h.transmitNotification hms hT hu
  | deliveryNotification sn => exact timely_withTimed ht fun _ => h.deliveryNotification hms hT
  | deliveryRetransmittedNotification sn =>
    refine timely_withTimed ht fun u hu => ?_
    unfold TimedEntity.ofRetransmitted at hu
    split_ifs at hu
    · cases hu
      exact h
    · exact h.deliveryNotification hms hT hu
  | statusReport bytes =>
    cases ht
    exact TimedEntity.Timely.handleStatusReport hms h hadm
  | tick =>
    refine timely_withTimed ht fun u hu => ?_
    obtain ⟨v, hv, htimely⟩ := TimedEntity.Timely.tick h hms hT
    rw [hv] at hu
    cases hu
    exact htimely
  | applyReordering i =>
    dsimp only [TimedTx.step, TimedTx.applyReordering] at ht
    cases hp : s.sys.protectedPdus[i]? with
    | none =>
      rw [hp] at ht
      cases ht
      exact h
    | some info =>
      rw [hp] at ht
      exact timely_withTimed ht fun _ => h.applyReordering hms hT
  | cryptoReorderingTimer =>
    dsimp only [TimedTx.step, TimedTx.cryptoReorderingTimer] at ht
    split_ifs at ht
    · refine timely_withTimed ht fun _ => ?_
      have hoff : Timely cfg T ⟨{ s.sys.entity with cryptoReorderingTimer := false }, s.clock⟩ :=
        h.congr (.of_window rfl rfl rfl rfl) rfl
      exact hoff.cryptoReorderingTimeout hms hT
    · cases ht
      exact h
  | applySecurity i =>
    refine timely_withSys h ht ?_
    rw [TxSystem.applySecurity_frame]
    exact .of_window rfl rfl rfl rfl
  | loseJob i => exact timely_withSys h ht (.of_window rfl rfl rfl rfl)
  | losePdu i => exact timely_withSys h ht (.of_window rfl rfl rfl rfl)
  | desiredBufferSize n => exact timely_withSys h ht (.of_window rfl rfl rfl rfl)
  | configureSecurity secCfg integrity =>
    refine timely_withSys h ht ?_
    unfold PdcpEntityTx.configureSecurity
    split_ifs
    · exact .refl _
    · exact .of_window rfl rfl rfl rfl

end TimedTx

end Ocudu.Pdcp
