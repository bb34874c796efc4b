import Ocudu.Basic.Machine

/-! `lib/f1u/du/f1u_bearer_impl.cpp`: the delivery status that the DU sends to the CU-UP, on its own
or with an UL SDU, and the buffer for UL messages at startup. The lower layers store new values at
any time, also between two loads of one call. -/

namespace Ocudu.F1u

def unsetPdcpSn : Nat := 0xffffffff

inductive StatusSn
  | transmitted
  | delivered
  | retransmitted
  | deliveredRetransmitted
  deriving DecidableEq

structure DlDataDeliveryStatus where
  desiredBufferSizeForDrb : Nat := 0
  highestPdcpSn : StatusSn → Option Nat := fun _ => none

def DlDataDeliveryStatus.setHighest (status : DlDataDeliveryStatus) (sn : StatusSn) (v : Nat) :
    DlDataDeliveryStatus :=
  { status with highestPdcpSn := Function.update status.highestPdcpSn sn (some v) }

structure UlMessage where
  tPdu : Option (List UInt8)
  dataDeliveryStatus : DlDataDeliveryStatus

structure DuBearerConfig where
  bufferUlOnStartup : Bool
  ulBufferSize : Nat
  rlcQueueBytesLimit : Nat

inductive DuOperation
  | handleSdu (sdu : List UInt8)
  | sendDataDeliveryStatus (force : Bool)

inductive Filler
  | desiredBufferSize
  | highest (sn : StatusSn)
  deriving DecidableEq

/-- The order in which `fill_data_delivery_status` calls them. -/
def fillers : List Filler :=
  [.desiredBufferSize, .highest .transmitted, .highest .delivered, .highest .retransmitted,
    .highest .deliveredRetransmitted]

/-- A call that is filling its status: the fillers it has not called yet, and what the others have
left. -/
structure DuCall where
  operation : DuOperation
  remaining : List Filler
  status : DlDataDeliveryStatus
  freshValues : Bool

structure DuBearer where
  cfg : DuBearerConfig
  buffering : Bool
  ulBuffer : List UlMessage
  desiredBufferSize : Nat
  highestPdcpSn : StatusSn → Nat
  notifDesiredBufferSize : Nat
  notifHighestPdcpSn : StatusSn → Nat
  call : Option DuCall
  txPdus : List UlMessage

inductive DuFault
  /-- A call starts while another one runs, or nothing runs that could go on. -/
  | call
  deriving DecidableEq

inductive DuEvent
  /-- One atomic store of a notification of the lower layers. -/
  | storeHighest (sn : StatusSn) (v : Nat)
  | storeDesiredBufferSize (v : Nat)
  | handleSdu (sdu : List UInt8)
  | reportPolling
  | expiredUlNotifTimer
  | flushUlBuffer
  /-- The next load of the call that runs, or its end. -/
  | advance
  deriving DecidableEq

namespace DuBearer

def new (cfg : DuBearerConfig) : DuBearer where
  cfg := cfg
  buffering := cfg.bufferUlOnStartup
  ulBuffer := []
  desiredBufferSize := cfg.rlcQueueBytesLimit
  highestPdcpSn _ := unsetPdcpSn
  notifDesiredBufferSize := 0
  notifHighestPdcpSn _ := unsetPdcpSn
  call := none
  txPdus := []

variable (s : DuBearer)

def notify (sn : StatusSn) : DuBearer :=
  { s with notifHighestPdcpSn := Function.update s.notifHighestPdcpSn sn (s.highestPdcpSn sn) }

def fillDesiredBufferSizeOfDataRadioBearer (status : DlDataDeliveryStatus) :
    DuBearer × DlDataDeliveryStatus × Bool :=
  let status := { status with desiredBufferSizeForDrb := s.desiredBufferSize }
  if s.desiredBufferSize ≠ s.notifDesiredBufferSize then
    ({ s with notifDesiredBufferSize := s.desiredBufferSize }, status, true)
  else (s, status, false)

def fillWhenSet (sn : StatusSn) (status : DlDataDeliveryStatus) :
    DuBearer × DlDataDeliveryStatus × Bool :=
  if s.highestPdcpSn sn = unsetPdcpSn then (s, status, false)
  else if s.highestPdcpSn sn ≠ s.notifHighestPdcpSn sn then
    (s.notify sn, status.setHighest sn (s.highestPdcpSn sn), true)
  else (s, status.setHighest sn (s.highestPdcpSn sn), false)

/-- A value that is in a status only when it has changed since last time. -/
def fillWhenChanged (sn : StatusSn) (status : DlDataDeliveryStatus) :
    DuBearer × DlDataDeliveryStatus × Bool :=
  if s.highestPdcpSn sn ≠ s.notifHighestPdcpSn sn then
    (s.notify sn, status.setHighest sn (s.highestPdcpSn sn), true)
  else (s, status, false)

def fillHighestTransmittedPdcpSn := s.fillWhenSet .transmitted

def fillHighestDeliveredPdcpSn := s.fillWhenSet .delivered

def fillHighestRetransmittedPdcpSn := s.fillWhenChanged .retransmitted

def fillHighestDeliveredRetransmittedPdcpSn := s.fillWhenChanged .deliveredRetransmitted

def fill (status : DlDataDeliveryStatus) : Filler → DuBearer × DlDataDeliveryStatus × Bool
  | .desiredBufferSize => s.fillDesiredBufferSizeOfDataRadioBearer status
  | .highest .transmitted => s.fillHighestTransmittedPdcpSn status
  | .highest .delivered => s.fillHighestDeliveredPdcpSn status
  | .highest .retransmitted => s.fillHighestRetransmittedPdcpSn status
  | .highest .deliveredRetransmitted => s.fillHighestDeliveredRetransmittedPdcpSn status

def onNewPdu (msg : UlMessage) : DuBearer := { s with txPdus := s.txPdus ++ [msg] }

def ulBufferFull : Bool := s.ulBuffer.length == s.cfg.ulBufferSize

/-- What a call does with its message once the status is filled. -/
def finish (c : DuCall) : DuBearer :=
  match c.operation with
  | .handleSdu sdu =>
    if s.buffering then
      if s.ulBufferFull then s
      else { s with ulBuffer := s.ulBuffer ++ [⟨some sdu, c.status⟩] }
    else s.onNewPdu ⟨some sdu, c.status⟩
  | .sendDataDeliveryStatus force =>
    if !c.freshValues && !force then s else s.onNewPdu ⟨none, c.status⟩

def start (operation : DuOperation) : Except DuFault DuBearer :=
  if s.call.isSome then .error .call
  else .ok { s with call := some ⟨operation, fillers, {}, false⟩ }

def fillNext (c : DuCall) (filler : Filler) (remaining : List Filler) : DuBearer :=
  let r := s.fill c.status filler
  { r.1 with call := some ⟨c.operation, remaining, r.2.1, c.freshValues || r.2.2⟩ }

def advance : Except DuFault DuBearer :=
  match s.call with
  | none => .error .call
  | some c =>
    match c.remaining with
    | filler :: remaining => .ok (s.fillNext c filler remaining)
    | [] => .ok { s.finish c with call := none }

def flushUlBuffer : Except DuFault DuBearer :=
  if s.call.isSome then .error .call
  else if s.buffering = false then .ok s
  else .ok { s with txPdus := s.txPdus ++ s.ulBuffer, ulBuffer := [], buffering := false }

def step : DuEvent → Except DuFault DuBearer
  | .storeHighest sn v => .ok { s with highestPdcpSn := Function.update s.highestPdcpSn sn v }
  | .storeDesiredBufferSize v => .ok { s with desiredBufferSize := v }
  | .handleSdu sdu => s.start (.handleSdu sdu)
  | .reportPolling => s.start (.sendDataDeliveryStatus true)
  | .expiredUlNotifTimer => s.start (.sendDataDeliveryStatus false)
  | .flushUlBuffer => s.flushUlBuffer
  | .advance => s.advance

/-- A message with this value was handed over, or is kept for the end of the buffering. -/
def Carried (sn : StatusSn) (v : Nat) : Prop :=
  ∃ msg ∈ s.txPdus ++ s.ulBuffer, msg.dataDeliveryStatus.highestPdcpSn sn = some v

/-- A set value that counts as notified is carried by a message. -/
def NeverLost : Prop :=
  ∀ sn, s.notifHighestPdcpSn sn = s.highestPdcpSn sn → s.highestPdcpSn sn ≠ unsetPdcpSn →
    s.Carried sn (s.highestPdcpSn sn)

def operationDrops : DuOperation → Bool
  | .handleSdu _ => s.buffering && s.ulBufferFull
  | .sendDataDeliveryStatus _ => false

def Unchanged (sn : StatusSn) : Prop :=
  s.highestPdcpSn sn = unsetPdcpSn ∨ s.highestPdcpSn sn = s.notifHighestPdcpSn sn

def nextLoad : Option (DuOperation × StatusSn) :=
  match s.call with
  | some ⟨operation, .highest sn :: _, _, _⟩ => some (operation, sn)
  | _ => none

/-- The call that goes on does not load a new value into a message for which the buffer has no
place. -/
def LoadsNothingNew : Prop :=
  ∀ load ∈ s.nextLoad, s.operationDrops load.1 = true → s.Unchanged load.2

def Admissible (e : DuEvent) : Prop := e = .advance → s.LoadsNothingNew

instance (sn : StatusSn) : Decidable (s.Unchanged sn) := inferInstanceAs (Decidable (_ ∨ _))

instance : Decidable s.LoadsNothingNew :=
  inferInstanceAs (Decidable (∀ load ∈ s.nextLoad, _ → _))

instance (e : DuEvent) : Decidable (s.Admissible e) := inferInstanceAs (Decidable (_ → _))

variable {s}

variable (status : DlDataDeliveryStatus)

@[simp] theorem setHighest_self (sn : StatusSn) (v : Nat) :
    (status.setHighest sn v).highestPdcpSn sn = some v := by
  simp [DlDataDeliveryStatus.setHighest]

theorem setHighest_of_ne {sn sn' : StatusSn} (h : sn' ≠ sn) (v : Nat) :
    (status.setHighest sn v).highestPdcpSn sn' = status.highestPdcpSn sn' := by
  simp [DlDataDeliveryStatus.setHighest, h]

@[simp] theorem notify_self (sn : StatusSn) : (s.notify sn).notifHighestPdcpSn sn = s.highestPdcpSn sn := by
  simp [notify]

theorem notify_of_ne {sn sn' : StatusSn} (h : sn' ≠ sn) :
    (s.notify sn).notifHighestPdcpSn sn' = s.notifHighestPdcpSn sn' := by
  simp [notify, h]

/-- What a filler may do: nothing is new and the status may repeat the value notified last, or the
value is new and counts as notified from here on. -/
inductive Fills (s : DuBearer) (sn : StatusSn) (status : DlDataDeliveryStatus) :
    DuBearer × DlDataDeliveryStatus × Bool → Prop
  | skip : s.Unchanged sn → Fills s sn status (s, status, false)
  | repeats : s.Unchanged sn →
      Fills s sn status (s, status.setHighest sn (s.notifHighestPdcpSn sn), false)
  | changed : s.highestPdcpSn sn ≠ s.notifHighestPdcpSn sn →
      Fills s sn status (s.notify sn, status.setHighest sn (s.highestPdcpSn sn), true)

theorem fillWhenSet_fills (sn : StatusSn) (status : DlDataDeliveryStatus) :
    Fills s sn status (s.fillWhenSet sn status) := by
  unfold fillWhenSet
  by_cases hu : s.highestPdcpSn sn = unsetPdcpSn
  · rw [if_pos hu]
    exact .skip (.inl hu)
  · rw [if_neg hu]
    by_cases hn : s.highestPdcpSn sn = s.notifHighestPdcpSn sn
    · rw [if_neg (not_not.mpr hn), hn]
      exact .repeats (.inr hn)
    · rw [if_pos hn]
      exact .changed hn

theorem fillWhenChanged_fills (sn : StatusSn) (status : DlDataDeliveryStatus) :
    Fills s sn status (s.fillWhenChanged sn status) := by
  unfold fillWhenChanged
  by_cases hn : s.highestPdcpSn sn = s.notifHighestPdcpSn sn
  · rw [if_neg (not_not.mpr hn)]
    exact .skip (.inr hn)
  · rw [if_pos hn]
    exact .changed hn

theorem fill_fills (sn : StatusSn) (status : DlDataDeliveryStatus) :
    Fills s sn status (s.fill status (.highest sn)) := by
  cases sn with
  | transmitted => exact fillWhenSet_fills _ status
  | delivered => exact fillWhenSet_fills _ status
  | retransmitted => exact fillWhenChanged_fills _ status
  | deliveredRetransmitted => exact fillWhenChanged_fills _ status

theorem fill_desiredBufferSize :
    (s.fill status .desiredBufferSize).1.notifHighestPdcpSn = s.notifHighestPdcpSn ∧
    (s.fill status .desiredBufferSize).1.highestPdcpSn = s.highestPdcpSn ∧
    (s.fill status .desiredBufferSize).2.1.highestPdcpSn = status.highestPdcpSn := by
  simp only [fill, fillDesiredBufferSizeOfDataRadioBearer]
  split
  · exact ⟨rfl, rfl, rfl⟩
  · exact ⟨rfl, rfl, rfl⟩

/-- A value is carried, or the call that runs has it as a new one in a message that will not be
dropped. -/
def Held (s : DuBearer) (sn : StatusSn) (v : Nat) : Prop :=
  s.Carried sn v ∨ ∃ c, s.call = some c ∧ c.freshValues = true ∧
    s.operationDrops c.operation = false ∧ c.status.highestPdcpSn sn = some v

def Inv (s : DuBearer) : Prop :=
  ∀ sn, s.notifHighestPdcpSn sn ≠ unsetPdcpSn → s.Held sn (s.notifHighestPdcpSn sn)

theorem inv_new (cfg : DuBearerConfig) : (new cfg).Inv := fun _ h => absurd rfl h

theorem Carried.mono {s' : DuBearer} {sn : StatusSn} {v : Nat} (h : s.Carried sn v)
    (hsub : s.txPdus ++ s.ulBuffer ⊆ s'.txPdus ++ s'.ulBuffer) : s'.Carried sn v := by
  obtain ⟨msg, hmem, hv⟩ := h
  exact ⟨msg, hsub hmem, hv⟩

/-- The states that differ only in what the fillers write. -/
def SameMessages (s s' : DuBearer) : Prop :=
  s'.txPdus = s.txPdus ∧ s'.ulBuffer = s.ulBuffer ∧ s'.operationDrops = s.operationDrops

theorem fill_sameMessages (filler : Filler) :
    s.SameMessages (s.fill status filler).1 := by
  cases filler with
  | desiredBufferSize =>
    simp only [fill, fillDesiredBufferSizeOfDataRadioBearer]
    split
    · exact ⟨rfl, rfl, rfl⟩
    · exact ⟨rfl, rfl, rfl⟩
  | highest sn =>
    have hfills := fill_fills sn status (s := s)
    generalize s.fill status (.highest sn) = r at hfills ⊢
    cases hfills with
    | skip => exact ⟨rfl, rfl, rfl⟩
    | repeats => exact ⟨rfl, rfl, rfl⟩
    | changed => exact ⟨rfl, rfl, rfl⟩

theorem Held.onward {s' : DuBearer} {c c' : DuCall} {sn : StatusSn} {v : Nat} (h : s.Held sn v)
    (hsame : s.SameMessages s') (hc : s.call = some c) (hc' : s'.call = some c')
    (hop : c'.operation = c.operation) (hfresh : c.freshValues = true → c'.freshValues = true)
    (hstatus : c.status.highestPdcpSn sn = some v → c'.status.highestPdcpSn sn = some v) :
    s'.Held sn v := by
  obtain ⟨htx, hbuf, hdrops⟩ := hsame
  rcases h with h | ⟨d, hd, hf, hdrop, hv⟩
  · exact .inl (h.mono (by simp [htx, hbuf]))
  · cases hc.symm.trans hd
    exact .inr ⟨c', hc', hfresh hf, by rw [hop, hdrops, hdrop], hstatus hv⟩

theorem Inv.fillNext {c : DuCall} {filler : Filler} {remaining : List Filler} (h : s.Inv)
    (hc : s.call = some c) (hnew : ∀ sn, filler = .highest sn →
      s.operationDrops c.operation = true → s.Unchanged sn) :
    (s.fillNext c filler remaining).Inv := by
  have hsame : s.SameMessages (s.fillNext c filler remaining) := fill_sameMessages c.status filler
  have hfresh : c.freshValues = true → (c.freshValues || (s.fill c.status filler).2.2) = true := by
    simp +contextual
  intro sn hset
  cases filler with
  | desiredBufferSize =>
    obtain ⟨hnotif, -, hstatus⟩ := fill_desiredBufferSize c.status (s := s)
    have hsn : (s.fillNext c .desiredBufferSize remaining).notifHighestPdcpSn sn =
        s.notifHighestPdcpSn sn := congrFun hnotif sn
    rw [hsn] at hset ⊢
    exact (h sn hset).onward hsame hc rfl rfl hfresh fun hv => (congrFun hstatus sn).trans hv
  | highest sn' =>
    have hfills := fill_fills sn' c.status (s := s)
    generalize hr : s.fill c.status (.highest sn') = r at hfills hfresh
    have hnotif : (s.fillNext c (.highest sn') remaining).notifHighestPdcpSn =
        r.1.notifHighestPdcpSn := by
      simp only [DuBearer.fillNext, hr]
    have hcall : (s.fillNext c (.highest sn') remaining).call =
        some ⟨c.operation, remaining, r.2.1, c.freshValues || r.2.2⟩ := by
      simp only [DuBearer.fillNext, hr]
    rw [hnotif] at hset ⊢
    cases hfills with
    | skip => exact (h sn hset).onward hsame hc hcall rfl hfresh id
    | repeats =>
      refine (h sn hset).onward hsame hc hcall rfl hfresh fun hv => ?_
      by_cases hsn : sn = sn'
      · subst hsn
        exact setHighest_self _ _ _
      · rw [setHighest_of_ne _ hsn, hv]
    | changed hne =>
      by_cases hsn : sn = sn'
      · -- The value is new: either its message will be kept, or the load was not allowed.
        subst hsn
        rw [notify_self] at hset ⊢
        cases hdrop : s.operationDrops c.operation with
        | false =>
          refine .inr ⟨_, hcall, by simp, ?_, setHighest_self _ _ _⟩
          rw [hsame.2.2, hdrop]
        | true =>
          rcases hnew sn rfl hdrop with hu | hu
          · exact absurd hu hset
          · exact absurd hu hne
      · rw [notify_of_ne hsn] at hset ⊢
        refine (h sn hset).onward hsame hc hcall rfl hfresh fun hv => ?_
        rw [setHighest_of_ne _ hsn, hv]

theorem finish_carries {c : DuCall} {sn : StatusSn} {v : Nat} (hfresh : c.freshValues = true)
    (hdrop : s.operationDrops c.operation = false) (hv : c.status.highestPdcpSn sn = some v) :
    (s.finish c).Carried sn v := by
  unfold finish
  cases hop : c.operation with
  | handleSdu sdu =>
    simp only [hop, operationDrops, Bool.and_eq_false_iff] at hdrop
    cases hb : s.buffering with
    | true =>
      have hfull : s.ulBufferFull = false := by simpa [hb] using hdrop
      exact ⟨⟨some sdu, c.status⟩, by simp [hfull], hv⟩
    | false => exact ⟨⟨some sdu, c.status⟩, by simp [onNewPdu], hv⟩
  | sendDataDeliveryStatus force => exact ⟨⟨none, c.status⟩, by simp [hfresh, onNewPdu], hv⟩

theorem finish_subset (c : DuCall) :
    s.txPdus ++ s.ulBuffer ⊆ (s.finish c).txPdus ++ (s.finish c).ulBuffer := by
  unfold finish onNewPdu
  cases c.operation with
  | handleSdu sdu => grind
  | sendDataDeliveryStatus force => grind

@[simp] theorem finish_notif (c : DuCall) :
    (s.finish c).notifHighestPdcpSn = s.notifHighestPdcpSn := by
  unfold finish onNewPdu
  cases c.operation with
  | handleSdu sdu => grind
  | sendDataDeliveryStatus force => grind

theorem Inv.finish {c : DuCall} (h : s.Inv) (hc : s.call = some c) :
    Inv { s.finish c with call := none } := by
  intro sn hset
  rw [finish_notif] at hset ⊢
  left
  rcases h sn hset with hcar | ⟨d, hd, hfresh, hdrop, hv⟩
  · exact hcar.mono (finish_subset c)
  · cases hc.symm.trans hd
    exact (finish_carries hfresh hdrop hv).mono (List.Subset.refl _)

theorem Inv.start {s' : DuBearer} {operation : DuOperation} (h : s.Inv)
    (hs : s.start operation = .ok s') : s'.Inv := by
  unfold DuBearer.start at hs
  cases hc : s.call with
  | some c => simp [hc] at hs
  | none =>
    simp only [hc, Option.isSome_none, Bool.false_eq_true, if_false] at hs
    cases hs
    intro sn hset
    rcases h sn hset with hcar | ⟨c, hc', _⟩
    · exact .inl hcar
    · cases hc.symm.trans hc'

theorem Inv.flushUlBuffer {s' : DuBearer} (h : s.Inv) (hs : s.flushUlBuffer = .ok s') : s'.Inv := by
  unfold DuBearer.flushUlBuffer at hs
  cases hc : s.call with
  | some c => simp [hc] at hs
  | none =>
    simp only [hc, Option.isSome_none, Bool.false_eq_true, if_false] at hs
    split at hs
    · cases hs
      exact h
    · cases hs
      intro sn hset
      rcases h sn hset with hcar | ⟨c, hc', _⟩
      · exact .inl (hcar.mono (by simp))
      · cases hc.symm.trans hc'

theorem Inv.advance {s' : DuBearer} (h : s.Inv) (hnew : s.LoadsNothingNew)
    (hs : s.advance = .ok s') : s'.Inv := by
  unfold DuBearer.advance at hs
  cases hc : s.call with
  | none => simp [hc] at hs
  | some c =>
    simp only [hc] at hs
    cases hr : c.remaining with
    | nil =>
      simp only [hr, Except.ok.injEq] at hs
      exact hs ▸ h.finish hc
    | cons filler remaining =>
      simp only [hr, Except.ok.injEq] at hs
      refine hs ▸ h.fillNext hc fun sn hsn hdrop => ?_
      refine hnew (c.operation, sn) ?_ hdrop
      rcases c with ⟨operation, rest, status, fresh⟩
      simp only at hr
      simp [nextLoad, hc, hr, hsn]

theorem Inv.step {s' : DuBearer} {e : DuEvent} (h : s.Inv) (hadm : s.Admissible e)
    (hs : s.step e = .ok s') : s'.Inv := by
  cases e with
  | storeHighest sn v => cases hs; exact h
  | storeDesiredBufferSize v => cases hs; exact h
  | handleSdu sdu => exact h.start hs
  | reportPolling => exact h.start hs
  | expiredUlNotifTimer => exact h.start hs
  | flushUlBuffer => exact h.flushUlBuffer hs
  | advance => exact h.advance (hadm rfl) hs

theorem Inv.neverLost (h : s.Inv) (hidle : s.call = none) : s.NeverLost := by
  intro sn heq hset
  rcases heq ▸ h sn (heq ▸ hset) with hcar | ⟨c, hc, _⟩
  · exact hcar
  · cases hidle.symm.trans hc

def timerExpiry : List DuEvent := .expiredUlNotifTimer :: fillers.map (fun _ => .advance) ++ [.advance]

/-- The values that the call has still to load, and no others, may be new. -/
def Loaded (s : DuBearer) (remaining : List Filler) : Prop :=
  ∀ sn, .highest sn ∈ remaining ∨ s.Unchanged sn

theorem Loaded.fillNext {c : DuCall} {filler : Filler} {remaining : List Filler}
    (h : s.Loaded (filler :: remaining)) : (s.fillNext c filler remaining).Loaded remaining := by
  intro sn
  cases filler with
  | desiredBufferSize =>
    rcases h sn with hmem | hun
    · exact .inl (by simpa using hmem)
    · right
      obtain ⟨hnotif, hhighest, -⟩ := fill_desiredBufferSize c.status (s := s)
      simp only [Unchanged, DuBearer.fillNext, hnotif, hhighest]
      exact hun
  | highest sn' =>
    have hfills := fill_fills sn' c.status (s := s)
    generalize hr : s.fill c.status (.highest sn') = r at hfills
    simp only [DuBearer.fillNext, hr]
    by_cases hsn : sn = sn'
    · subst hsn
      right
      cases hfills with
      | skip hun => exact hun
      | repeats hun => exact hun
      | changed => exact .inr (notify_self (s := s) sn).symm
    · rcases h sn with hmem | hun
      · exact .inl (by simpa [hsn] using hmem)
      · right
        cases hfills with
        | skip => exact hun
        | repeats => exact hun
        | changed => simpa [Unchanged, notify, hsn] using hun

theorem advance_fill {c : DuCall} {filler : Filler} {remaining : List Filler} (hc : s.call = some c)
    (hr : c.remaining = filler :: remaining) : s.step .advance = .ok (s.fillNext c filler remaining) := by
  simp [DuBearer.step, DuBearer.advance, hc, hr]

theorem run_fillers (fs : List Filler) {c : DuCall} (hinv : s.Inv) (hc : s.call = some c)
    (hop : c.operation = .sendDataDeliveryStatus false) (hr : c.remaining = fs) (hl : s.Loaded fs) :
    ∃ s', Machine.run step s (fs.map (fun _ => .advance) ++ [.advance]) = .ok s' ∧ s'.Inv ∧
      s'.call = none ∧ s'.Loaded [] := by
  induction fs generalizing s c with
  | nil =>
    have hs : s.step .advance = .ok { s.finish c with call := none } := by
      simp [DuBearer.step, DuBearer.advance, hc, hr]
    refine ⟨_, by rw [List.map_nil, List.nil_append, Machine.run_cons_ok hs, Machine.run_nil],
      hinv.finish hc, rfl, fun sn => .inr ?_⟩
    rcases hl sn with hmem | hun
    · cases hmem
    · unfold Unchanged DuBearer.finish onNewPdu at *
      simp only [hop]
      split <;> exact hun
  | cons filler fs ih =>
    have hs := advance_fill hc hr
    rw [List.map_cons, List.cons_append, Machine.run_cons_ok hs]
    refine ih (hinv.fillNext hc fun sn _ hdrop => ?_) rfl hop rfl hl.fillNext
    simp [hop, operationDrops] at hdrop

theorem timerExpiry_reports (hinv : s.Inv) (hidle : s.call = none) :
    ∃ s', Machine.run step s timerExpiry = .ok s' ∧ s'.Inv ∧ s'.call = none ∧ s'.Loaded [] := by
  have hs : s.step .expiredUlNotifTimer =
      .ok { s with call := some ⟨.sendDataDeliveryStatus false, fillers, {}, false⟩ } := by
    simp [DuBearer.step, DuBearer.start, hidle]
  have hl : s.Loaded fillers := fun sn => .inl (by cases sn <;> decide)
  rw [timerExpiry, List.cons_append, Machine.run_cons_ok hs]
  exact run_fillers fillers (hinv.start hs) rfl rfl rfl hl

/-- In every run in which no message for which the buffer has no place gets a new value, a value that
counts as notified is in a message, and the next expiry of the timer has the CU-UP told them all. -/
theorem deliveryStatus_neverLost (cfg : DuBearerConfig) (es : List DuEvent) (s : DuBearer)
    (hadm : Machine.Admits step Admissible (new cfg) es) (hrun : Machine.run step (new cfg) es = .ok s)
    (hidle : s.call = none) :
    s.NeverLost ∧ ∃ s', Machine.run step s timerExpiry = .ok s' ∧ (s'.ulBuffer = [] →
      ∀ sn, s'.highestPdcpSn sn ≠ unsetPdcpSn →
        ∃ msg ∈ s'.txPdus, msg.dataDeliveryStatus.highestPdcpSn sn = some (s'.highestPdcpSn sn)) := by
  have hinv : s.Inv := Machine.run_invariant Inv (fun _ _ _ h ha hs => h.step ha hs) (inv_new cfg) hadm hrun
  obtain ⟨s', hs', hinv', hidle', hl⟩ := timerExpiry_reports hinv hidle
  refine ⟨hinv.neverLost hidle, s', hs', fun hbuf sn hset => ?_⟩
  rcases hl sn with hmem | hun | heq
  · cases hmem
  · exact absurd hun hset
  · obtain ⟨msg, hmem, hv⟩ := hinv'.neverLost hidle' sn heq.symm hset
    exact ⟨msg, by simpa [hbuf] using hmem, hv⟩

def advances : List DuEvent := List.replicate 6 .advance

/-- An SDU with a new transmitted value is buffered, and one without is dropped. -/
theorem deliveryStatus_neverLost_fullBuffer :
    ∃ s, s.NeverLost ∧ Machine.run step (new ⟨true, 1, 100⟩) ([.storeHighest .transmitted 3, .handleSdu [0]] ++
      advances ++ [.handleSdu [1]] ++ advances) = .ok s := by
  have hok : (Machine.run step (new ⟨true, 1, 100⟩) ([.storeHighest .transmitted 3, .handleSdu [0]] ++
      advances ++ [.handleSdu [1]] ++ advances)).map (fun s => s.call.isNone) = .ok true := by
    decide +kernel
  obtain ⟨s, hs, hcall⟩ := map_eq_ok.mp hok
  exact ⟨s, (deliveryStatus_neverLost _ _ s (by decide +kernel) hs (by simpa using hcall)).1, hs⟩

/-- The second SDU finds the buffer full and takes the retransmitted value with it. -/
theorem droppedStatus_lost : ¬ ∀ (cfg : DuBearerConfig) (es : List DuEvent) (s : DuBearer),
    Machine.run step (new cfg) es = .ok s → s.call = none → s.NeverLost := by
  intro h
  have hok : (Machine.run step (new ⟨true, 1, 100⟩) ([.handleSdu [0]] ++ advances ++
      [.storeHighest .retransmitted 5, .handleSdu [1]] ++ advances)).map (fun s => (s.call.isNone,
        s.notifHighestPdcpSn .retransmitted, s.highestPdcpSn .retransmitted,
        (s.txPdus ++ s.ulBuffer).map (·.dataDeliveryStatus.highestPdcpSn .retransmitted))) =
      .ok (true, 5, 5, [none]) := by
    decide +kernel
  obtain ⟨s, hs, heq⟩ := map_eq_ok.mp hok
  simp only [Prod.mk.injEq] at heq
  obtain ⟨hcall, hnotif, hstored, hmsgs⟩ := heq
  obtain ⟨msg, hmem, hv⟩ := h _ _ s hs (by simpa using hcall) .retransmitted (hnotif.trans hstored.symm)
    (by rw [hstored]; decide)
  have hnone := List.mem_map_of_mem (f := (·.dataDeliveryStatus.highestPdcpSn .retransmitted)) hmem
  rw [hmsgs, hv] at hnone
  simp at hnone

end DuBearer

end Ocudu.F1u
