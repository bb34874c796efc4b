import Ocudu.Pdcp.TxFrame

/-! The discard timer of `pdcp_entity_tx.cpp` with its clock: what its one timer is set to, and
the SDUs that its callback removes. The functions here are those of the transmitter, with what
they do to the clock. -/

namespace Ocudu.Pdcp

structure ExpiredSdu where
  count : Nat
  arrival : Nat
  time : Nat
  deriving DecidableEq

/-- `expiry` is when the discard timer expires if it runs. The last two fields are no data of the
source: the SDUs removed by the callback, and the values that the timer was restarted with. -/
structure DiscardClock where
  now : Nat
  expiry : Nat
  expired : List ExpiredSdu
  restarts : List Nat

namespace DiscardClock

/-- `set` and `run`; the timers take a duration of 0 for one tick. -/
def run (k : DiscardClock) (duration : Nat) : DiscardClock :=
  { k with expiry := k.now + max duration 1 }

def restart (k : DiscardClock) (newTimeout : Nat) : DiscardClock :=
  { k.run newTimeout with restarts := k.restarts ++ [newTimeout] }

end DiscardClock

/-- The value of the enumerator, which is only asked for when it is finite. -/
def PdcpTxConfig.discardDuration (cfg : PdcpTxConfig) : Nat :=
  match cfg.discardTimer with
  | some (.ms duration) => duration
  | _ => 0

def PdcpEntityTx.arrivalTick {C : RohcCompressor} (s : PdcpEntityTx C) (count : Nat) : Option Nat :=
  (s.txWindow.lookup count).bind (·.tickPointOfArrival)

def PdcpEntityTx.goneSince {C : RohcCompressor} (s t : PdcpEntityTx C) (now : Nat) : List ExpiredSdu :=
  (List.range' s.st.txNextAck (s.st.txNext - s.st.txNextAck)).filterMap fun count =>
    if t.txWindow.contains count then none
    else (s.arrivalTick count).map fun arrival => ⟨count, arrival, now⟩

structure TimedEntity (C : RohcCompressor) where
  entity : PdcpEntityTx C
  clock : DiscardClock

namespace TimedEntity

open PdcpEntityTx

variable {C : RohcCompressor} (cfg : PdcpTxConfig)

variable (s : TimedEntity C)

def handleSdu (buf : List UInt8) : TimedEntity C where
  entity := s.entity.handleSdu cfg buf s.clock.now
  clock :=
    if TakesCount cfg s.entity buf ∧ finiteDiscardTimer cfg = true ∧ s.entity.discardTimer = false then
      s.clock.run cfg.discardDuration
    else s.clock

abbrev StopsTimer (s : PdcpEntityTx C) (highestCount : Nat) : Prop :=
  cfg.discardTimer.isSome = true ∧ s.st.txNextAck ≤ highestCount ∧ highestCount < s.st.txNext ∧
    s.txWindow.contains s.st.txNextAck = true

def stopDiscardTimer (highestCount : Nat) : Except Fault (TimedEntity C) := do
  let t ← s.entity.stopDiscardTimer cfg highestCount
  if StopsTimer cfg s.entity highestCount ∧ finiteDiscardTimer cfg = true ∧
      t.st.txNextAck ≠ t.st.txNext then
    let arrival := (t.arrivalTick t.st.txNextAck).getD 0
    pure ⟨t, s.clock.restart (SeqNum.subU32 (arrival + cfg.discardDuration) s.clock.now)⟩
  else pure ⟨t, s.clock⟩

def transmitNotification (sn : Nat) : Except Fault (TimedEntity C) :=
  let count := s.entity.notificationCount cfg sn
  if cfg.snSize.cardinality ≤ sn then .ok s
  else if s.entity.st.txTransCrypto ≤ count then .ok s
  else if count < s.entity.st.txTrans then .ok s
  else if s.entity.st.txNext ≤ count then .ok s
  else
    let entity := { s.entity with st := { s.entity.st with txTrans := (count + 1) % 2 ^ 32 } }
    if cfg.rlcMode = .um then stopDiscardTimer cfg { s with entity } count else .ok { s with entity }

def deliveryNotification (sn : Nat) : Except Fault (TimedEntity C) :=
  let count := s.entity.notificationCount cfg sn
  if cfg.snSize.cardinality ≤ sn then .ok s
  else if s.entity.st.txNext ≤ count then .ok s
  else if cfg.rlcMode = .am then stopDiscardTimer cfg s count else .ok s

def ofRetransmitted (notification : TimedEntity C → Nat → Except Fault (TimedEntity C))
    (s : TimedEntity C) (sn : Nat) : Except Fault (TimedEntity C) :=
  if cfg.rbType = .srb ∨ cfg.rlcMode = .um then .ok s else notification s sn

/-- `discard_callback`, with the timer started again when its loop ends at a younger SDU. -/
def discardCallback : Except Fault (TimedEntity C) := do
  let t ← s.entity.discardCallback cfg
  let clock := { s.clock with expired := s.clock.expired ++ s.entity.goneSince t s.clock.now }
  let oldest := (s.entity.arrivalTick s.entity.st.txNextAck).getD 0
  let arrival := (t.arrivalTick t.st.txNextAck).getD 0
  if s.entity.txWindow.contains s.entity.st.txNextAck = true ∧
      t.txWindow.contains t.st.txNextAck = true ∧ arrival ≠ oldest then
    pure ⟨t, clock.restart (SeqNum.subU32 arrival oldest)⟩
  else pure ⟨t, clock⟩

def tick : Except Fault (TimedEntity C) :=
  let clock := { s.clock with now := s.clock.now + 1 }
  if s.entity.discardTimer = true ∧ clock.expiry = clock.now then
    discardCallback cfg ⟨{ s.entity with discardTimer := false }, clock⟩
  else .ok ⟨s.entity, clock⟩

def notifyInTestMode (count : Nat) : Except Fault (TimedEntity C) :=
  if cfg.testMode then transmitNotification cfg s (cfg.snSize.snOf count) else .ok s

def flushLoop (isRetx : Bool) : Nat → TimedEntity C → Except Fault (TimedEntity C)
  | 0, s => .ok s
  | n + 1, s => do
    let count := s.entity.st.txTransCrypto
    let elem ← SduWindow.get s.entity.txWindow count
    if elem.pdu = [] then pure s
    else do
      let s ← notifyInTestMode cfg { s with entity := s.entity.handOver count elem isRetx } count
      flushLoop isRetx n s

def flushInOrder (isRetx : Bool) : Except Fault (TimedEntity C) :=
  flushLoop cfg isRetx (s.entity.st.txNext - s.entity.st.txTransCrypto) s

def applyReordering (info : PdcpTxBufferInfo) : Except Fault (TimedEntity C) :=
  if info.retransmits % 2 ^ 16 ≠ s.entity.retransmits % 2 ^ 16 then .ok s
  else if info.count < s.entity.st.txNextAck then .ok s
  else if info.count < s.entity.st.txTrans then .ok s
  else if ¬s.entity.txWindow.contains info.count then .ok s
  else do
    let s ← flushInOrder cfg { s with entity := s.entity.parkPdu info } info.isRetx
    pure { s with entity := s.entity.handleCryptoTimers }

def cryptoReorderingTimeout : Except Fault (TimedEntity C) := do
  let s ← flushInOrder cfg { s with entity := s.entity.passUpToReord } false
  pure { s with entity := s.entity.startCryptoReordering }

end TimedEntity

structure TimedTx (C : RohcCompressor) where
  sys : TxSystem C
  clock : DiscardClock

/-- What happens to a bearer that is neither re-established nor suspended. -/
inductive TimedEvent
  | sdu (buf : List UInt8)
  | transmitNotification (sn : Nat)
  | retransmitNotification (sn : Nat)
  | deliveryNotification (sn : Nat)
  | deliveryRetransmittedNotification (sn : Nat)
  | statusReport (bytes : List UInt8)
  | tick
  | applySecurity (i : Nat)
  | loseJob (i : Nat)
  | applyReordering (i : Nat)
  | losePdu (i : Nat)
  | cryptoReorderingTimer
  | desiredBufferSize (n : Nat)
  | configureSecurity (secCfg : Sec128AsConfig) (integrity : Bool)

namespace TimedTx

open PdcpEntityTx

variable {C : RohcCompressor} (E : SecurityEngine) (cfg : PdcpTxConfig)

def new (C : RohcCompressor) (cfg : PdcpTxConfig) (count now : Nat) : TimedTx C :=
  ⟨.new C cfg count, ⟨now, 0, [], []⟩⟩

def timed (s : TimedTx C) : TimedEntity C := ⟨s.sys.entity, s.clock⟩

def withTimed (s : TimedTx C) (r : Except Fault (TimedEntity C)) : Except Fault (TimedTx C) :=
  r.map fun t => ⟨{ s.sys with entity := t.entity }, t.clock⟩

def withSys (s : TimedTx C) (r : Except Fault (TxSystem C)) : Except Fault (TimedTx C) :=
  r.map fun sys => { s with sys }

def applyReordering (s : TimedTx C) (i : Nat) : Except Fault (TimedTx C) :=
  match s.sys.protectedPdus[i]? with
  | none => .ok s
  | some info =>
    ({ s with sys := { s.sys with protectedPdus := s.sys.protectedPdus.eraseIdx i } } : TimedTx C).withTimed
      (s.timed.applyReordering cfg info)

def cryptoReorderingTimer (s : TimedTx C) : Except Fault (TimedTx C) :=
  if s.sys.entity.cryptoReorderingTimer then
    s.withTimed (TimedEntity.cryptoReorderingTimeout cfg
      ⟨{ s.sys.entity with cryptoReorderingTimer := false }, s.clock⟩)
  else .ok s

def step (s : TimedTx C) : TimedEvent → Except Fault (TimedTx C)
  | .sdu buf => s.withTimed (.ok (s.timed.handleSdu cfg buf))
  | .transmitNotification sn => s.withTimed (s.timed.transmitNotification cfg sn)
  | .retransmitNotification sn =>
    s.withTimed (s.timed.ofRetransmitted cfg (TimedEntity.transmitNotification cfg) sn)
  | .deliveryNotification sn => s.withTimed (s.timed.deliveryNotification cfg sn)
  | .deliveryRetransmittedNotification sn =>
    s.withTimed (s.timed.ofRetransmitted cfg (TimedEntity.deliveryNotification cfg) sn)
  | .statusReport bytes => s.withSys (s.sys.step E cfg (.statusReport bytes))
  | .tick => s.withTimed (s.timed.tick cfg)
  | .applySecurity i => s.withSys (s.sys.step E cfg (.applySecurity i))
  | .loseJob i => s.withSys (s.sys.step E cfg (.loseJob i))
  | .applyReordering i => s.applyReordering cfg i
  | .losePdu i => s.withSys (s.sys.step E cfg (.losePdu i))
  | .cryptoReorderingTimer => s.cryptoReorderingTimer cfg
  | .desiredBufferSize n => s.withSys (s.sys.step E cfg (.desiredBufferSize n))
  | .configureSecurity secCfg integrity =>
    s.withSys (s.sys.step E cfg (.configureSecurity secCfg integrity))

end TimedTx

/-! Without its clock a step is one of the transmitter. -/

namespace TimedEntity

variable {C : RohcCompressor} {cfg : PdcpTxConfig} {s t : TimedEntity C}

theorem entity_stopDiscardTimer {n : Nat} (h : s.stopDiscardTimer cfg n = .ok t) :
    s.entity.stopDiscardTimer cfg n = .ok t.entity := by
  unfold stopDiscardTimer at h
  obtain ⟨e, he, h⟩ := bind_eq_ok.mp h
  rw [he]
  split_ifs at h
  · cases h
    rfl
  · cases h
    rfl

theorem entity_transmitNotification {sn : Nat} (h : s.transmitNotification cfg sn = .ok t) :
    s.entity.transmitNotification cfg sn = .ok t.entity := by
  unfold transmitNotification at h
  unfold PdcpEntityTx.transmitNotification
  dsimp only at h ⊢
  split_ifs at h ⊢
  · cases h
    rfl
  · cases h
    rfl
  · cases h
    rfl
  · cases h
    rfl
  · exact entity_stopDiscardTimer h
  · cases h
    rfl

theorem entity_deliveryNotification {sn : Nat} (h : s.deliveryNotification cfg sn = .ok t) :
    s.entity.deliveryNotification cfg sn = .ok t.entity := by
  unfold deliveryNotification at h
  unfold PdcpEntityTx.deliveryNotification
  dsimp only at h ⊢
  split_ifs at h ⊢
  · cases h
    rfl
  · cases h
    rfl
  · exact entity_stopDiscardTimer h
  · cases h
    rfl

theorem entity_ofRetransmitted {sn : Nat}
    {notification : TimedEntity C → Nat → Except Fault (TimedEntity C)}
    {untimed : PdcpEntityTx C → Nat → Except Fault (PdcpEntityTx C)}
    (hn : ∀ t, notification s sn = .ok t → untimed s.entity sn = .ok t.entity)
    (h : s.ofRetransmitted cfg notification sn = .ok t) :
    PdcpEntityTx.ofRetransmitted cfg untimed s.entity sn = .ok t.entity := by
  unfold ofRetransmitted at h
  unfold PdcpEntityTx.ofRetransmitted
  split_ifs at h ⊢
  · cases h
    rfl
  · exact hn t h

theorem entity_discardCallback (h : s.discardCallback cfg = .ok t) :
    s.entity.discardCallback cfg = .ok t.entity := by
  unfold discardCallback at h
  obtain ⟨e, he, h⟩ := bind_eq_ok.mp h
  rw [he]
  dsimp only at h
  split_ifs at h
  · cases h
    rfl
  · cases h
    rfl

theorem entity_flushLoop (isRetx : Bool) (n : Nat) (h : flushLoop cfg isRetx n s = .ok t) :
    PdcpEntityTx.flushLoop cfg isRetx n s.entity = .ok t.entity := by
  induction n generalizing s with
  | zero =>
    cases h
    rfl
  | succ n ih =>
    unfold flushLoop at h
    unfold PdcpEntityTx.flushLoop
    obtain ⟨elem, he, h⟩ := bind_eq_ok.mp h
    dsimp only
    rw [he, ok_bind]
    split_ifs at h ⊢
    · cases h
      rfl
    · obtain ⟨u, hu, h⟩ := bind_eq_ok.mp h
      have hnotify : (s.entity.handOver s.entity.st.txTransCrypto elem isRetx).notifyInTestMode cfg
          s.entity.st.txTransCrypto = .ok u.entity := by
        unfold notifyInTestMode at hu
        unfold PdcpEntityTx.notifyInTestMode
        split_ifs at hu ⊢
        · exact entity_transmitNotification hu
        · cases hu
          rfl
      rw [hnotify, ok_bind]
      exact ih h

theorem entity_applyReordering {info : PdcpTxBufferInfo} (h : s.applyReordering cfg info = .ok t) :
    s.entity.applyReordering cfg info = .ok t.entity := by
  unfold applyReordering at h
  unfold PdcpEntityTx.applyReordering
  split_ifs at h ⊢
  · cases h
    rfl
  · cases h
    rfl
  · cases h
    rfl
  · obtain ⟨u, hu, h⟩ := bind_eq_ok.mp h
    cases h
    unfold PdcpEntityTx.flushInOrder
    rw [entity_flushLoop _ _ hu]
    rfl
  · cases h
    rfl

theorem entity_cryptoReorderingTimeout (h : s.cryptoReorderingTimeout cfg = .ok t) :
    s.entity.cryptoReorderingTimeout cfg = .ok t.entity := by
  unfold cryptoReorderingTimeout at h
  obtain ⟨u, hu, h⟩ := bind_eq_ok.mp h
  cases h
  unfold PdcpEntityTx.cryptoReorderingTimeout PdcpEntityTx.flushInOrder
  rw [entity_flushLoop _ _ hu]
  rfl

end TimedEntity

namespace TimedTx

variable {C : RohcCompressor} {E : SecurityEngine} {cfg : PdcpTxConfig} {s t : TimedTx C}

/-- A tick is an expiry of the discard timer just when the timer runs and is due; every other event is the same. -/
def untimed (s : TimedTx C) : TimedEvent → List TxEvent
  | .sdu buf => [.sdu buf s.clock.now]
  | .transmitNotification sn => [.transmitNotification sn]
  | .retransmitNotification sn => [.retransmitNotification sn]
  | .deliveryNotification sn => [.deliveryNotification sn]
  | .deliveryRetransmittedNotification sn => [.deliveryRetransmittedNotification sn]
  | .statusReport bytes => [.statusReport bytes]
  | .tick =>
    if s.sys.entity.discardTimer = true ∧ s.clock.expiry = s.clock.now + 1 then [.discardTimer] else []
  | .applySecurity i => [.applySecurity i]
  | .loseJob i => [.loseJob i]
  | .applyReordering i => [.applyReordering i]
  | .losePdu i => [.losePdu i]
  | .cryptoReorderingTimer => [.cryptoReorderingTimer]
  | .desiredBufferSize n => [.desiredBufferSize n]
  | .configureSecurity secCfg integrity => [.configureSecurity secCfg integrity]

theorem run_singleton {e : TxEvent} {sys sys' : TxSystem C} (h : sys.step E cfg e = .ok sys') :
    Machine.run (TxSystem.step E cfg) sys [e] = .ok sys' := Machine.run_cons_ok h

theorem exists_of_withTimed {r : Except Fault (TimedEntity C)} (h : s.withTimed r = .ok t) :
    ∃ u, r = .ok u ∧ t = ⟨{ s.sys with entity := u.entity }, u.clock⟩ := by
  obtain ⟨u, hu, rfl⟩ := map_eq_ok.mp h
  exact ⟨u, hu, rfl⟩

theorem withEntity_of_withTimed {r : Except Fault (TimedEntity C)} {r' : Except Fault (PdcpEntityTx C)}
    (h : s.withTimed r = .ok t) (hr : ∀ u, r = .ok u → r' = .ok u.entity) :
    s.sys.withEntity r' = .ok t.sys := by
  obtain ⟨u, hu, rfl⟩ := exists_of_withTimed h
  rw [hr u hu]
  rfl

theorem sys_of_withSys {r : Except Fault (TxSystem C)} (h : s.withSys r = .ok t) : r = .ok t.sys := by
  obtain ⟨sys, rfl, rfl⟩ := map_eq_ok.mp h
  rfl

theorem step_refines {e : TimedEvent} (h : s.step E cfg e = .ok t) :
    Machine.run (TxSystem.step E cfg) s.sys (s.untimed e) = .ok t.sys := by
  cases e with
  | sdu buf =>
    refine run_singleton ?_
    obtain ⟨u, hu, rfl⟩ := exists_of_withTimed h
    cases hu
    rfl
  | transmitNotification sn =>
    exact run_singleton (withEntity_of_withTimed h fun _ => TimedEntity.entity_transmitNotification)
  | retransmitNotification sn =>
    exact run_singleton (withEntity_of_withTimed h fun _ =>
      TimedEntity.entity_ofRetransmitted fun _ => TimedEntity.entity_transmitNotification)
  | deliveryNotification sn =>
    exact run_singleton (withEntity_of_withTimed h fun _ => TimedEntity.entity_deliveryNotification)
  | deliveryRetransmittedNotification sn =>
    exact run_singleton (withEntity_of_withTimed h fun _ =>
      TimedEntity.entity_ofRetransmitted fun _ => TimedEntity.entity_deliveryNotification)
  | tick =>
    obtain ⟨u, hu, rfl⟩ := exists_of_withTimed h
    unfold TimedEntity.tick timed at hu
    unfold untimed
    dsimp only at hu ⊢
    split_ifs at hu ⊢ with hdue
    · refine run_singleton ?_
      have hcall := TimedEntity.entity_discardCallback hu
      dsimp only [TxSystem.step, TxSystem.discardTimer]
      rw [if_pos hdue.1, hcall]
      rfl
    · cases hu
      rfl
  | applyReordering i =>
    refine run_singleton ?_
    dsimp only [step, applyReordering] at h
    dsimp only [TxSystem.step, TxSystem.applyReordering]
    cases hp : s.sys.protectedPdus[i]? with
    | none =>
      rw [hp] at h
      cases h
      rfl
    | some info =>
      rw [hp] at h
      obtain ⟨u, hu, rfl⟩ := exists_of_withTimed h
      dsimp only
      rw [show s.sys.entity.applyReordering cfg info = .ok u.entity from
        TimedEntity.entity_applyReordering hu]
      rfl
  | cryptoReorderingTimer =>
    refine run_singleton ?_
    dsimp only [step, cryptoReorderingTimer] at h
    dsimp only [TxSystem.step, TxSystem.cryptoReorderingTimer]
    split_ifs at h ⊢
    · obtain ⟨u, hu, rfl⟩ := exists_of_withTimed h
      rw [TimedEntity.entity_cryptoReorderingTimeout hu]
      rfl
    · cases h
      rfl
  | statusReport bytes => exact run_singleton (sys_of_withSys h)
  | applySecurity i => exact run_singleton (sys_of_withSys h)
  | loseJob i => exact run_singleton (sys_of_withSys h)
  | losePdu i => exact run_singleton (sys_of_withSys h)
  | desiredBufferSize n => exact run_singleton (sys_of_withSys h)
  | configureSecurity secCfg integrity => exact run_singleton (sys_of_withSys h)

/-- The events of a run, each as it is where the run comes to it. -/
def untimedTrace (E : SecurityEngine) (cfg : PdcpTxConfig) : TimedTx C → List TimedEvent → List TxEvent
  | _, [] => []
  | s, e :: es =>
    s.untimed e ++
      match s.step E cfg e with
      | .ok t => untimedTrace E cfg t es
      | .error _ => []

theorem untimedTrace_cons {e : TimedEvent} (h : s.step E cfg e = .ok t) (es : List TimedEvent) :
    untimedTrace E cfg s (e :: es) = s.untimed e ++ untimedTrace E cfg t es := by
  rw [untimedTrace, h]

/-- A run with the clock is, event by event, one of the transmitter without it. -/
theorem run_untimed {es : List TimedEvent} (h : Machine.run (step E cfg) s es = .ok t) :
    Machine.run (TxSystem.step E cfg) s.sys (untimedTrace E cfg s es) = .ok t.sys := by
  induction es generalizing s with
  | nil =>
    cases h
    rfl
  | cons e es ih =>
    cases hs : s.step E cfg e with
    | error f =>
      rw [Machine.run_cons_error hs] at h
      cases h
    | ok u =>
      rw [Machine.run_cons_ok hs] at h
      rw [untimedTrace_cons hs, Machine.run_append, step_refines hs]
      exact ih h

/-- The discard timer of ten ticks expires at the last of them. -/
theorem run_untimed_expired : ∃ t,
    Machine.run (step nullEngine drbTxConfig) (new noCompressor drbTxConfig 0 0)
        (.desiredBufferSize 9 :: .sdu [1] :: List.replicate 10 .tick) = .ok t ∧
      Machine.run (TxSystem.step nullEngine drbTxConfig) (.new noCompressor drbTxConfig 0)
        [.desiredBufferSize 9, .sdu [1] 0, .discardTimer] = .ok t.sys := by
  obtain ⟨t, ht⟩ := Machine.exists_of_isOk (r := Machine.run (step nullEngine drbTxConfig)
    (new noCompressor drbTxConfig 0 0) (.desiredBufferSize 9 :: .sdu [1] :: List.replicate 10 .tick)) (by decide +kernel)
  have htrace : untimedTrace nullEngine drbTxConfig (new noCompressor drbTxConfig 0 0)
      (.desiredBufferSize 9 :: .sdu [1] :: List.replicate 10 .tick) =
        [.desiredBufferSize 9, .sdu [1] 0, .discardTimer] := by rfl
  exact ⟨t, ht, htrace ▸ run_untimed ht⟩

end TimedTx

end Ocudu.Pdcp
