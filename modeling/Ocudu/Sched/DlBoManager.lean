import Ocudu.Basic.Machine
import Ocudu.Sched.SlotPoint

/-! `ue_dl_buffer_occupancy_manager` of `ue_event_manager.cpp`: a table with the last buffer
occupancy of each bearer and a queue of the bearers that have a new one. The producers of several
threads and the slot indication access them at the same time, one atomic access after the other. -/

namespace Ocudu.Sched

namespace DlBo

def maxNofDuUes : Nat := 8192

def maxNofRbLcids : Nat := 33

def nofBearerKeys : Nat := maxNofDuUes * maxNofRbLcids

def getBearerKey (ueIndex lcid : Nat) : Nat := lcid * maxNofDuUes + ueIndex

def getUeIndex (key : Nat) : Nat := key % maxNofDuUes

def getLcid (key : Nat) : Nat := key / maxNofDuUes

def toInt (n : Nat) : Int := if n < 2 ^ 31 then n else n - 2 ^ 32

def toUnsigned (v : Int) : Nat := (v % 2 ^ 32).toNat

end DlBo

open DlBo

structure DlBufferState where
  ueIndex : Nat
  lcid : Nat
  bs : Nat
  holToa : Option SlotPoint
  deriving DecidableEq

/-- Where a call of `handle_dl_buffer_state_indication` is: it has exchanged the buffer occupancy,
or it has also stored the time of arrival and has a key to push. -/
inductive ProducerCall
  | idle
  | exchanged (key : Nat) (holToa : Int) (firstRlcBo : Bool)
  | stored (key : Nat)
  deriving DecidableEq

/-- Where the slot indication is: before `try_pop`, after it, or after the load of the time of
arrival. -/
inductive ConsumerCall
  | idle
  | polling (sl : SlotPoint)
  | popped (sl : SlotPoint) (key : Nat)
  | loaded (sl : SlotPoint) (key : Nat) (holToa : Int)
  deriving DecidableEq

/-- `lastWritten` is the value of the last exchange of a producer for a bearer, and `forwarded` what
the UEs were told, the last one first. -/
structure DlBoManager where
  bo : Nat → Int
  holToa : Nat → Int
  pendingEvs : List Nat
  ueDb : Nat → Bool
  producers : Nat → ProducerCall
  consumer : ConsumerCall
  forwarded : List DlBufferState
  lastWritten : Nat → Option Nat

inductive DlBoFault
  /-- A UE index or LCID that has no place in the table. -/
  | index
  /-- The call is not at a place where it could do this. -/
  | call
  deriving DecidableEq

inductive DlBoEvent
  | handle (call : Nat) (rlcDlBo : DlBufferState)
  | produce (call : Nat)
  | slotIndication (sl : SlotPoint)
  | consume
  | addUe (ueIndex : Nat)
  | remUe (ueIndex : Nat)
  deriving DecidableEq

namespace DlBoManager

def new (ueDb : Nat → Bool) : DlBoManager where
  bo _ := -1
  holToa _ := 0
  pendingEvs := []
  ueDb := ueDb
  producers _ := .idle
  consumer := .idle
  forwarded := []
  lastWritten _ := none

variable (s : DlBoManager)

def handle (call : Nat) (rlcDlBo : DlBufferState) : Except DlBoFault DlBoManager :=
  let key := getBearerKey rlcDlBo.ueIndex rlcDlBo.lcid
  if maxNofDuUes ≤ rlcDlBo.ueIndex ∨ maxNofRbLcids ≤ rlcDlBo.lcid then .error .index
  else if s.producers call ≠ .idle then .error .call
  else .ok { s with
    bo := Function.update s.bo key (toInt rlcDlBo.bs)
    producers := Function.update s.producers call (.exchanged key
      (rlcDlBo.holToa.elim (-1) fun sl => sl.count) (decide (s.bo key < 0)))
    lastWritten := Function.update s.lastWritten key (some rlcDlBo.bs) }

def tryPush (key : Nat) : DlBoManager :=
  if s.pendingEvs.length < nofBearerKeys then { s with pendingEvs := s.pendingEvs ++ [key] } else s

def produce (call : Nat) : Except DlBoFault DlBoManager :=
  match s.producers call with
  | .idle => .error .call
  | .exchanged key holToa firstRlcBo => .ok { s with
      holToa := Function.update s.holToa key holToa
      producers := Function.update s.producers call (if firstRlcBo then .stored key else .idle) }
  | .stored key => .ok { s.tryPush key with producers := Function.update s.producers call .idle }

def slotIndication (sl : SlotPoint) : Except DlBoFault DlBoManager :=
  if s.consumer ≠ .idle then .error .call else .ok { s with consumer := .polling sl }

def boundHolToa (sl : SlotPoint) (holToa : Int) : Option SlotPoint :=
  if 0 ≤ holToa then
    some (if SlotPoint.lt ⟨sl.numerology, holToa.toNat⟩ sl then ⟨sl.numerology, holToa.toNat⟩ else sl)
  else none

/-- The buffer occupancy that is taken from the table, as an `unsigned`: the check of the source
for a value below zero comes after the conversion and is never true. -/
def dlBo (sl : SlotPoint) (key : Nat) (holToa : Int) : DlBufferState :=
  ⟨getUeIndex key, getLcid key, toUnsigned (s.bo key), boundHolToa sl holToa⟩

def consume : Except DlBoFault DlBoManager :=
  match s.consumer with
  | .idle => .error .call
  | .polling sl =>
    match s.pendingEvs with
    | [] => .ok { s with consumer := .idle }
    | key :: keys => .ok { s with pendingEvs := keys, consumer := .popped sl key }
  | .popped sl key => .ok { s with consumer := .loaded sl key (s.holToa key) }
  | .loaded sl key holToa => .ok { s with
      bo := Function.update s.bo key (-1)
      consumer := .polling sl
      forwarded := if s.ueDb (getUeIndex key) then s.dlBo sl key holToa :: s.forwarded else s.forwarded }

def step : DlBoEvent → Except DlBoFault DlBoManager
  | .handle call rlcDlBo => s.handle call rlcDlBo
  | .produce call => s.produce call
  | .slotIndication sl => s.slotIndication sl
  | .consume => s.consume
  | .addUe ueIndex => .ok { s with ueDb := Function.update s.ueDb ueIndex true }
  | .remUe ueIndex => .ok { s with ueDb := Function.update s.ueDb ueIndex false }

/-- The buffer occupancy that the UE was told last for a bearer. -/
def lastForwarded (key : Nat) : Option Nat :=
  (s.forwarded.find? fun dlBo => dlBo.ueIndex == getUeIndex key && dlBo.lcid == getLcid key).map (·.bs)

end DlBoManager

namespace ProducerCall

def key : ProducerCall → Option Nat
  | .idle => none
  | .exchanged key _ _ => some key
  | .stored key => some key

def owed : ProducerCall → Option Nat
  | .exchanged key _ true => some key
  | .stored key => some key
  | _ => none

end ProducerCall

def ConsumerCall.key : ConsumerCall → Option Nat
  | .popped _ key => some key
  | .loaded _ key _ => some key
  | _ => none

/-- Who sees to it that the value of a bearer is forwarded. -/
inductive DlBoOwner
  | queue
  | consumer
  | producer (call : Nat)

namespace DlBoManager

def Owns (s : DlBoManager) (key : Nat) : DlBoOwner → Prop
  | .queue => key ∈ s.pendingEvs
  | .consumer => s.consumer.key = some key
  | .producer call => (s.producers call).owed = some key

def BsFits : DlBoEvent → Prop
  | .handle _ rlcDlBo => rlcDlBo.bs < 2 ^ 31
  | _ => True

/-- The bearer whose value the slot indication takes from the table next. -/
def takes (s : DlBoManager) : Option Nat :=
  match s.consumer with
  | .loaded _ key _ => some key
  | _ => none

def UeKnown (key : Nat) (s : DlBoManager) (e : DlBoEvent) : Prop :=
  e = .consume → s.takes = some key → s.ueDb (getUeIndex key) = true

instance (key : Nat) (s : DlBoManager) (e : DlBoEvent) : Decidable (UeKnown key s e) :=
  inferInstanceAs (Decidable (_ → _ → _))

def Handles (key : Nat) : DlBoEvent → Prop
  | .handle _ rlcDlBo => getBearerKey rlcDlBo.ueIndex rlcDlBo.lcid = key
  | _ => False

/-- All calls for the bearer have returned, no other one starts, and then a slot indication ends
with nothing left in the queue. -/
structure Drains (s : DlBoManager) (key : Nat) (es : List DlBoEvent) : Prop where
  returned : ∀ call, (s.producers call).key ≠ some key
  noCall : ∀ e ∈ es, ¬Handles key e
  drained : ∃ es₁ es₂ t sl, es = es₁ ++ .consume :: es₂ ∧ Machine.run step s es₁ = .ok t ∧
    t.consumer = .polling sl ∧ t.pendingEvs = []

/-- Every value in the table has one owner, and a bearer without a value has none. -/
structure Inv (s : DlBoManager) : Prop where
  nodup : s.pendingEvs.Nodup
  unique : ∀ key owner owner', s.Owns key owner → s.Owns key owner' → owner = owner'
  owned : ∀ key, 0 ≤ s.bo key ↔ ∃ owner, s.Owns key owner
  range : ∀ key owner, s.Owns key owner → key < nofBearerKeys
  written : ∀ key, 0 ≤ s.bo key → ∃ bs, s.lastWritten key = some bs ∧ s.bo key = bs ∧ bs < 2 ^ 31
  forwarded : ∀ dlBo ∈ s.forwarded, dlBo.bs < 2 ^ 31

variable {s s' : DlBoManager}

theorem inv_new (ueDb : Nat → Bool) : (new ueDb).Inv where
  nodup := List.nodup_nil
  unique key owner owner' h := by cases owner <;> simp [new, Owns, ConsumerCall.key, ProducerCall.owed] at h
  owned key := by
    refine iff_of_false (by simp [new]) ?_
    rintro ⟨owner, h⟩
    cases owner <;> simp [new, Owns, ConsumerCall.key, ProducerCall.owed] at h
  range key owner h := by cases owner <;> simp [new, Owns, ConsumerCall.key, ProducerCall.owed] at h
  written key h := by simp [new] at h
  forwarded := by simp [new]

theorem Inv.same (h : s.Inv) (hown : s'.Owns = s.Owns) (hevs : s'.pendingEvs = s.pendingEvs)
    (hbo : s'.bo = s.bo) (hwritten : s'.lastWritten = s.lastWritten)
    (hforwarded : s'.forwarded = s.forwarded) : s'.Inv where
  nodup := hevs ▸ h.nodup
  unique := by rw [hown]; exact h.unique
  owned := by rw [hown, hbo]; exact h.owned
  range := by rw [hown]; exact h.range
  written := by rw [hbo, hwritten]; exact h.written
  forwarded := by rw [hforwarded]; exact h.forwarded

theorem Inv.assign (h : s.Inv) (key : Nat) (owner : Option DlBoOwner) (hnodup : s'.pendingEvs.Nodup)
    (hown : ∀ k o, s'.Owns k o ↔ if k = key then owner = some o else s.Owns k o)
    (hbo : ∀ k, k ≠ key → s'.bo k = s.bo k ∧ s'.lastWritten k = s.lastWritten k)
    (hkey : 0 ≤ s'.bo key ↔ owner.isSome = true) (hrange : owner.isSome = true → key < nofBearerKeys)
    (hwritten : owner.isSome = true →
      ∃ bs, s'.lastWritten key = some bs ∧ s'.bo key = bs ∧ bs < 2 ^ 31)
    (hforwarded : ∀ dlBo ∈ s'.forwarded, dlBo.bs < 2 ^ 31) : s'.Inv where
  nodup := hnodup
  unique k o o' ho ho' := by
    rw [hown] at ho ho'
    by_cases hk : k = key
    · rw [if_pos hk] at ho ho'
      exact Option.some.inj (ho.symm.trans ho')
    · rw [if_neg hk] at ho ho'
      exact h.unique k o o' ho ho'
  owned k := by
    by_cases hk : k = key
    · subst hk
      rw [hkey, Option.isSome_iff_exists]
      exact exists_congr fun o => by rw [hown, if_pos rfl]
    · rw [(hbo k hk).1, h.owned k]
      exact exists_congr fun o => by rw [hown, if_neg hk]
  range k o ho := by
    rw [hown] at ho
    by_cases hk : k = key
    · rw [if_pos hk] at ho
      exact hk ▸ hrange (by simp [ho])
    · rw [if_neg hk] at ho
      exact h.range k o ho
  written k hpos := by
    by_cases hk : k = key
    · subst hk
      exact hwritten (hkey.mp hpos)
    · rw [(hbo k hk).1] at hpos ⊢
      rw [(hbo k hk).2]
      exact h.written k hpos
  forwarded := hforwarded

theorem owns_of_producers (hevs : s'.pendingEvs = s.pendingEvs) (hcon : s'.consumer.key = s.consumer.key)
    (hprod : ∀ call, (s'.producers call).owed = (s.producers call).owed) : s'.Owns = s.Owns := by
  funext k o
  cases o with
  | queue => simp [Owns, hevs]
  | consumer => simp [Owns, hcon]
  | producer call => simp [Owns, hprod]

theorem getBearerKey_lt {ueIndex lcid : Nat} (hue : ueIndex < maxNofDuUes) (hlcid : lcid < maxNofRbLcids) :
    getBearerKey ueIndex lcid < nofBearerKeys := by
  unfold getBearerKey nofBearerKeys maxNofDuUes maxNofRbLcids at *
  omega

theorem toInt_of_lt {n : Nat} (h : n < 2 ^ 31) : toInt n = n := if_pos h

theorem owns_handle {call key : Nat} (hcall : s.producers call = .idle) {holToa : Int}
    (hevs : s'.pendingEvs = s.pendingEvs) (hcon : s'.consumer = s.consumer)
    (hprod : s'.producers =
      Function.update s.producers call (.exchanged key holToa (decide (s.bo key < 0)))) (k : Nat) (o : DlBoOwner) :
    s'.Owns k o ↔ s.Owns k o ∨ s.bo key < 0 ∧ k = key ∧ o = .producer call := by
  cases o with
  | queue => simp [Owns, hevs]
  | consumer => simp [Owns, hcon]
  | producer c =>
    by_cases hc : c = call
    · subst hc
      rcases lt_or_ge (s.bo key) 0 with hneg | hpos
      · simp [Owns, hprod, hcall, ProducerCall.owed, hneg, eq_comm]
      · simp [Owns, hprod, hcall, ProducerCall.owed, not_lt.mpr hpos]
    · simp [Owns, hprod, hc]

theorem handle_ok {call : Nat} {rlcDlBo : DlBufferState} (hs : s.handle call rlcDlBo = .ok s') :
    s.producers call = .idle ∧ getBearerKey rlcDlBo.ueIndex rlcDlBo.lcid < nofBearerKeys ∧
    s' = { s with
      bo := Function.update s.bo (getBearerKey rlcDlBo.ueIndex rlcDlBo.lcid) (toInt rlcDlBo.bs)
      producers := Function.update s.producers call (.exchanged
        (getBearerKey rlcDlBo.ueIndex rlcDlBo.lcid) (rlcDlBo.holToa.elim (-1) fun sl => sl.count)
        (decide (s.bo (getBearerKey rlcDlBo.ueIndex rlcDlBo.lcid) < 0)))
      lastWritten := Function.update s.lastWritten (getBearerKey rlcDlBo.ueIndex rlcDlBo.lcid)
        (some rlcDlBo.bs) } := by
  unfold DlBoManager.handle at hs
  simp only at hs
  by_cases hindex : maxNofDuUes ≤ rlcDlBo.ueIndex ∨ maxNofRbLcids ≤ rlcDlBo.lcid
  · rw [if_pos hindex] at hs
    cases hs
  rw [if_neg hindex] at hs
  by_cases hcall : s.producers call ≠ .idle
  · rw [if_pos hcall] at hs
    cases hs
  rw [if_neg hcall] at hs
  exact ⟨not_not.mp hcall, getBearerKey_lt (by omega) (by omega), (Except.ok.inj hs).symm⟩

theorem produce_ok {call : Nat} (hs : s.produce call = .ok s') :
    (∃ key holToa first, s.producers call = .exchanged key holToa first ∧ s' = { s with
      holToa := Function.update s.holToa key holToa
      producers := Function.update s.producers call (if first then .stored key else .idle) }) ∨
    ∃ key, s.producers call = .stored key ∧
      s' = { s.tryPush key with producers := Function.update s.producers call .idle } := by
  unfold DlBoManager.produce at hs
  cases hcall : s.producers call with
  | idle => simp [hcall] at hs
  | exchanged key holToa first =>
    simp only [hcall, Except.ok.injEq] at hs
    exact .inl ⟨key, holToa, first, rfl, hs.symm⟩
  | stored key =>
    simp only [hcall, Except.ok.injEq] at hs
    exact .inr ⟨key, rfl, hs.symm⟩

theorem slotIndication_ok {sl : SlotPoint} (hs : s.slotIndication sl = .ok s') :
    s.consumer = .idle ∧ s' = { s with consumer := .polling sl } := by
  unfold DlBoManager.slotIndication at hs
  by_cases hidle : s.consumer = .idle
  · rw [if_neg (not_not.mpr hidle)] at hs
    exact ⟨hidle, (Except.ok.inj hs).symm⟩
  · rw [if_pos hidle] at hs
    cases hs

theorem consume_ok (hs : s.consume = .ok s') :
    (∃ sl, s.consumer = .polling sl ∧ s.pendingEvs = [] ∧ s' = { s with consumer := .idle }) ∨
    (∃ sl key keys, s.consumer = .polling sl ∧ s.pendingEvs = key :: keys ∧
      s' = { s with pendingEvs := keys, consumer := .popped sl key }) ∨
    (∃ sl key, s.consumer = .popped sl key ∧
      s' = { s with consumer := .loaded sl key (s.holToa key) }) ∨
    ∃ sl key holToa, s.consumer = .loaded sl key holToa ∧ s' = { s with
      bo := Function.update s.bo key (-1)
      consumer := .polling sl
      forwarded := if s.ueDb (getUeIndex key) then s.dlBo sl key holToa :: s.forwarded
        else s.forwarded } := by
  unfold DlBoManager.consume at hs
  cases hcon : s.consumer with
  | idle => simp [hcon] at hs
  | polling sl =>
    cases hevs : s.pendingEvs with
    | nil =>
      simp only [hcon, hevs, Except.ok.injEq] at hs
      exact .inl ⟨sl, rfl, rfl, hs.symm⟩
    | cons key keys =>
      simp only [hcon, hevs, Except.ok.injEq] at hs
      exact .inr (.inl ⟨sl, key, keys, rfl, rfl, hs.symm⟩)
  | popped sl key =>
    simp only [hcon, Except.ok.injEq] at hs
    exact .inr (.inr (.inl ⟨sl, key, rfl, hs.symm⟩))
  | loaded sl key holToa =>
    simp only [hcon, Except.ok.injEq] at hs
    exact .inr (.inr (.inr ⟨sl, key, holToa, rfl, hs.symm⟩))

theorem Inv.handle (h : s.Inv) {call : Nat} {rlcDlBo : DlBufferState} (hbs : rlcDlBo.bs < 2 ^ 31)
    (hs : s.handle call rlcDlBo = .ok s') : s'.Inv := by
  obtain ⟨hcall, hlt, hs'⟩ := handle_ok hs
  generalize getBearerKey rlcDlBo.ueIndex rlcDlBo.lcid = key at hlt hs'
  have howns : ∀ k o, s'.Owns k o ↔ s.Owns k o ∨ s.bo key < 0 ∧ k = key ∧ o = .producer call :=
    owns_handle hcall (by rw [hs']) (by rw [hs']) (by rw [hs'])
  -- The call becomes the owner if the bearer has none; else the owner stays.
  obtain ⟨owner, howner⟩ : ∃ owner, ∀ o, s'.Owns key o ↔ owner = o := by
    rcases lt_or_ge (s.bo key) 0 with hneg | hpos
    · refine ⟨.producer call, fun o => ?_⟩
      have hno : ¬s.Owns key o := fun ho => not_le.mpr hneg ((h.owned key).mpr ⟨o, ho⟩)
      simp [howns, hno, hneg, eq_comm]
    · obtain ⟨o₀, ho₀⟩ := (h.owned key).mp hpos
      refine ⟨o₀, fun o => ?_⟩
      rw [howns, or_iff_left (fun hc => not_lt.mpr hpos hc.1)]
      exact ⟨h.unique key o₀ o ho₀, fun heq => heq ▸ ho₀⟩
  have hpos : 0 ≤ s'.bo key := by
    rw [hs']
    simp [toInt_of_lt hbs]
  refine h.assign key (some owner) ?_ ?_ ?_ ?_ ?_ ?_ ?_
  · rw [hs']
    exact h.nodup
  · intro k o
    by_cases hk : k = key
    · subst hk
      rw [if_pos rfl, howner, Option.some.injEq]
    · rw [if_neg hk, howns, or_iff_left (fun hc => hk hc.2.1)]
  · intro k hk
    rw [hs']
    simp [hk]
  · exact iff_of_true hpos rfl
  · exact fun _ => hlt
  · intro _
    refine ⟨rlcDlBo.bs, ?_, ?_, hbs⟩
    · rw [hs']
      simp
    · rw [hs']
      simp [toInt_of_lt hbs]
  · rw [hs']
    exact h.forwarded

theorem Inv.length_lt (h : s.Inv) {key : Nat} {owner : DlBoOwner} (hown : s.Owns key owner)
    (hne : owner ≠ .queue) : s.pendingEvs.length < nofBearerKeys := by
  have hnot : key ∉ s.pendingEvs := fun hmem => hne (h.unique key owner .queue hown hmem)
  have hsub : key :: s.pendingEvs ⊆ List.range nofBearerKeys := by
    intro k hk
    rw [List.mem_range]
    rcases List.mem_cons.mp hk with rfl | hk
    · exact h.range _ owner hown
    · exact h.range k .queue hk
  have hle := (List.nodup_cons.mpr ⟨hnot, h.nodup⟩).subperm hsub |>.length_le
  rw [List.length_range] at hle
  exact hle

theorem Inv.move (h : s.Inv) {key : Nat} {owner : DlBoOwner} (owner' : DlBoOwner)
    (hown : s.Owns key owner) (hnodup : s'.pendingEvs.Nodup)
    (hmove : ∀ k o, s'.Owns k o ↔ k = key ∧ o = owner' ∨ s.Owns k o ∧ ¬(k = key ∧ o = owner))
    (hbo : s'.bo = s.bo) (hwritten : s'.lastWritten = s.lastWritten)
    (hforwarded : s'.forwarded = s.forwarded) : s'.Inv := by
  have hpos : 0 ≤ s.bo key := (h.owned key).mpr ⟨owner, hown⟩
  refine h.assign key (some owner') hnodup ?_ ?_ ?_ ?_ ?_ ?_
  · intro k o
    rw [hmove]
    by_cases hk : k = key
    · subst hk
      rw [if_pos rfl, Option.some.injEq]
      constructor
      · rintro (⟨-, rfl⟩ | ⟨ho, hne⟩)
        · rfl
        · exact absurd ⟨rfl, h.unique k o owner ho hown⟩ hne
      · rintro rfl
        exact .inl ⟨rfl, rfl⟩
    · simp [hk]
  · intro k _
    rw [hbo, hwritten]
    exact ⟨rfl, rfl⟩
  · exact iff_of_true (hbo ▸ hpos) rfl
  · exact fun _ => h.range key owner hown
  · intro _
    rw [hbo, hwritten]
    exact h.written key hpos
  · rw [hforwarded]
    exact h.forwarded

theorem Inv.produce (h : s.Inv) {call : Nat} (hs : s.produce call = .ok s') : s'.Inv := by
  rcases produce_ok hs with ⟨key, holToa, first, hcall, rfl⟩ | ⟨key, hcall, rfl⟩
  · refine h.same (owns_of_producers rfl rfl fun c => ?_) rfl rfl rfl rfl
    by_cases hc : c = call
    · subst hc
      cases first <;> simp [hcall, ProducerCall.owed]
    · simp [hc]
  · have hown : s.Owns key (.producer call) := by simp [Owns, hcall, ProducerCall.owed]
    have hnot : key ∉ s.pendingEvs := fun hmem => by cases h.unique key _ .queue hown hmem
    rw [tryPush, if_pos (h.length_lt hown (by simp))]
    refine h.move .queue hown ?_ (fun k o => ?_) rfl rfl rfl
    · exact List.Nodup.append h.nodup (List.nodup_singleton key) (by simpa using hnot)
    · cases o with
      | queue => simp [Owns, or_comm]
      | consumer => simp [Owns]
      | producer c =>
        by_cases hc : c = call
        · subst hc
          simp [Owns, hcall, ProducerCall.owed, eq_comm]
        · simp [Owns, hc]

theorem Inv.take (h : s.Inv) {sl : SlotPoint} {key : Nat} {holToa : Int}
    (hcon : s.consumer = .loaded sl key holToa) :
    ∃ bs, s.lastWritten key = some bs ∧ toUnsigned (s.bo key) = bs ∧ bs < 2 ^ 31 := by
  have hown : s.Owns key .consumer := by simp [Owns, hcon, ConsumerCall.key]
  obtain ⟨bs, hwritten, hbo, hbs⟩ := h.written key ((h.owned key).mpr ⟨_, hown⟩)
  refine ⟨bs, hwritten, ?_, hbs⟩
  rw [hbo, toUnsigned]
  lia

theorem Inv.consume_loaded (h : s.Inv) {sl : SlotPoint} {key : Nat} {holToa : Int}
    (hcon : s.consumer = .loaded sl key holToa) : Inv { s with
      bo := Function.update s.bo key (-1)
      consumer := .polling sl
      forwarded := if s.ueDb (getUeIndex key) then s.dlBo sl key holToa :: s.forwarded
        else s.forwarded } := by
  have hown : s.Owns key .consumer := by simp [Owns, hcon, ConsumerCall.key]
  refine h.assign key none h.nodup (fun k o => ?_) (fun k hk => ?_) ?_ (by simp) (by simp) ?_
  · by_cases hk : k = key
    · subst hk
      rw [if_pos rfl]
      refine iff_of_false (fun ho => ?_) (by simp)
      cases o with
      | queue => cases h.unique k .queue .consumer ho hown
      | consumer => simp [Owns, ConsumerCall.key] at ho
      | producer c => cases h.unique k (.producer c) .consumer ho hown
    · rw [if_neg hk]
      cases o with
      | queue => simp [Owns]
      | consumer => simp [Owns, hcon, ConsumerCall.key, Ne.symm hk]
      | producer c => simp [Owns]
  · simp [hk]
  · simp
  · intro dlBo hmem
    by_cases hue : s.ueDb (getUeIndex key) = true
    · simp only [hue, if_true, List.mem_cons] at hmem
      rcases hmem with rfl | hmem
      · obtain ⟨bs, -, hbo, hbs⟩ := h.take hcon
        simpa only [DlBoManager.dlBo, hbo] using hbs
      · exact h.forwarded dlBo hmem
    · simp only [hue] at hmem
      exact h.forwarded dlBo hmem

theorem Inv.consume (h : s.Inv) (hs : s.consume = .ok s') : s'.Inv := by
  rcases consume_ok hs with ⟨sl, hcon, -, rfl⟩ | ⟨sl, key, keys, hcon, hevs, rfl⟩ |
    ⟨sl, key, hcon, rfl⟩ | ⟨sl, key, holToa, hcon, rfl⟩
  · exact h.same (owns_of_producers rfl (by simp [hcon, ConsumerCall.key]) fun _ => rfl) rfl rfl rfl rfl
  · have hnodup := List.nodup_cons.mp (hevs ▸ h.nodup)
    have hown : s.Owns key .queue := by simp [Owns, hevs]
    refine h.move .consumer hown hnodup.2 (fun k o => ?_) rfl rfl rfl
    cases o with
    | queue =>
      by_cases hk : k = key
      · subst hk
        simp [Owns, hevs, hnodup.1]
      · simp [Owns, hevs, hk]
    | consumer => simp [Owns, hcon, ConsumerCall.key, eq_comm]
    | producer c => simp [Owns]
  · exact h.same (owns_of_producers rfl (by simp [hcon, ConsumerCall.key]) fun _ => rfl) rfl rfl rfl rfl
  · exact h.consume_loaded hcon

theorem Inv.step (h : s.Inv) {e : DlBoEvent} (hbs : BsFits e) (hs : s.step e = .ok s') : s'.Inv := by
  cases e with
  | handle call rlcDlBo => exact h.handle hbs hs
  | produce call => exact h.produce hs
  | consume => exact h.consume hs
  | slotIndication sl =>
    obtain ⟨hidle, rfl⟩ := slotIndication_ok hs
    exact h.same (owns_of_producers rfl (by simp [hidle, ConsumerCall.key]) fun _ => rfl) rfl rfl rfl rfl
  | addUe ueIndex =>
    cases hs
    exact h.same (owns_of_producers rfl rfl fun _ => rfl) rfl rfl rfl rfl
  | remUe ueIndex =>
    cases hs
    exact h.same (owns_of_producers rfl rfl fun _ => rfl) rfl rfl rfl rfl

theorem Inv.run {ueDb : Nat → Bool} {es : List DlBoEvent} (hbs : ∀ e ∈ es, BsFits e)
    (hrun : Machine.run DlBoManager.step (new ueDb) es = .ok s) : s.Inv := by
  have hadm : Machine.Admits DlBoManager.step (fun _ e => BsFits e) (new ueDb) es :=
    Machine.admits_of_forall_mem fun e he _ => hbs e he
  exact Machine.run_invariant Inv (fun _ _ _ h hb hs => h.step hb hs) (inv_new ueDb) hadm hrun

/-- A bearer whose value was taken has been told about. -/
def Told (key : Nat) (s : DlBoManager) : Prop := s.bo key < 0 → s.lastForwarded key = s.lastWritten key

theorem lastForwarded_cons_self (key bs : Nat) (holToa : Option SlotPoint) (forwarded : List DlBufferState)
    (hs : s.forwarded = ⟨getUeIndex key, getLcid key, bs, holToa⟩ :: forwarded) :
    s.lastForwarded key = some bs := by
  simp [lastForwarded, hs]

theorem key_eq {key key' : Nat} (hue : getUeIndex key' = getUeIndex key) (hlcid : getLcid key' = getLcid key) :
    key' = key := by
  unfold getUeIndex getLcid maxNofDuUes at *
  lia

theorem lastForwarded_cons_of_ne {key key' bs : Nat} (hne : key' ≠ key) (holToa : Option SlotPoint)
    (hs : s'.forwarded = ⟨getUeIndex key', getLcid key', bs, holToa⟩ :: s.forwarded) :
    s'.lastForwarded key = s.lastForwarded key := by
  have hno : ¬(getUeIndex key' = getUeIndex key ∧ getLcid key' = getLcid key) :=
    fun h => hne (key_eq h.1 h.2)
  unfold lastForwarded
  rw [hs, List.find?_cons_of_neg (by simpa using hno)]

theorem Told.of_eq {key : Nat} (h : Told key s) (hbo : s'.bo = s.bo)
    (hforwarded : s'.forwarded = s.forwarded) (hwritten : s'.lastWritten = s.lastWritten) :
    Told key s' := by
  intro hneg
  unfold lastForwarded
  rw [hforwarded, hwritten]
  exact h (hbo ▸ hneg)

theorem Told.consume {key : Nat} (h : Told key s) (hinv : s.Inv)
    (hue : s.takes = some key → s.ueDb (getUeIndex key) = true) (hs : s.consume = .ok s') :
    Told key s' := by
  rcases consume_ok hs with ⟨sl, -, -, rfl⟩ | ⟨sl, key', keys, -, -, rfl⟩ | ⟨sl, key', -, rfl⟩ |
    ⟨sl, key', holToa, hcon, rfl⟩
  · exact h.of_eq rfl rfl rfl
  · exact h.of_eq rfl rfl rfl
  · exact h.of_eq rfl rfl rfl
  · by_cases hk : key' = key
    · subst hk
      obtain ⟨bs, hwritten, hbo, -⟩ := hinv.take hcon
      intro _
      rw [lastForwarded_cons_self key' _ _ s.forwarded (if_pos (hue (by simp [takes, hcon]))), hbo]
      exact hwritten.symm
    · intro hneg
      simp only [Function.update_of_ne (Ne.symm hk)] at hneg
      refine Eq.trans ?_ (h hneg)
      by_cases hknown : s.ueDb (getUeIndex key') = true
      · exact lastForwarded_cons_of_ne hk _ (if_pos hknown)
      · simp only [lastForwarded, hknown]
        rfl

theorem tryPush_frame (key : Nat) : (s.tryPush key).bo = s.bo ∧ (s.tryPush key).forwarded = s.forwarded ∧
    (s.tryPush key).lastWritten = s.lastWritten ∧ (s.tryPush key).consumer = s.consumer := by
  unfold tryPush
  split
  · exact ⟨rfl, rfl, rfl, rfl⟩
  · exact ⟨rfl, rfl, rfl, rfl⟩

theorem Told.step {key : Nat} (h : Told key s) (hinv : s.Inv) {e : DlBoEvent} (hbs : BsFits e)
    (hue : UeKnown key s e) (hs : s.step e = .ok s') : Told key s' := by
  cases e with
  | handle call rlcDlBo =>
    obtain ⟨-, -, rfl⟩ := handle_ok hs
    intro hneg
    by_cases hk : key = getBearerKey rlcDlBo.ueIndex rlcDlBo.lcid
    · have hbs' : rlcDlBo.bs < 2 ^ 31 := hbs
      simp only [← hk, Function.update_self, toInt_of_lt hbs'] at hneg
      omega
    · simp only [Function.update_of_ne hk] at hneg ⊢
      exact h hneg
  | produce call =>
    rcases produce_ok hs with ⟨key', holToa, first, -, rfl⟩ | ⟨key', -, rfl⟩
    · exact h.of_eq rfl rfl rfl
    · obtain ⟨hbo, hforwarded, hwritten, -⟩ := tryPush_frame (s := s) key'
      exact h.of_eq hbo hforwarded hwritten
  | slotIndication sl =>
    obtain ⟨-, rfl⟩ := slotIndication_ok hs
    exact h.of_eq rfl rfl rfl
  | consume => exact h.consume hinv (hue rfl) hs
  | addUe ueIndex => cases hs; exact h
  | remUe ueIndex => cases hs; exact h

def Returned (key : Nat) (bs : Option Nat) (s : DlBoManager) : Prop :=
  (∀ call, (s.producers call).key ≠ some key) ∧ s.lastWritten key = bs

theorem key_update_ne {key call : Nat} {c : ProducerCall} (h : ∀ call, (s.producers call).key ≠ some key)
    (hc : c.key ≠ some key) (call' : Nat) : (Function.update s.producers call c call').key ≠ some key := by
  by_cases hcall : call' = call
  · subst hcall
    rwa [Function.update_self]
  · rw [Function.update_of_ne hcall]
    exact h call'

theorem Returned.step {key : Nat} {bs : Option Nat} (h : Returned key bs s) {e : DlBoEvent}
    (hno : ¬Handles key e) (hs : s.step e = .ok s') : Returned key bs s' := by
  obtain ⟨hret, hlast⟩ := h
  cases e with
  | handle call rlcDlBo =>
    obtain ⟨-, -, rfl⟩ := handle_ok hs
    have hne : getBearerKey rlcDlBo.ueIndex rlcDlBo.lcid ≠ key := hno
    exact ⟨key_update_ne hret (by simpa [ProducerCall.key] using hne), by simpa [hne.symm] using hlast⟩
  | produce call =>
    rcases produce_ok hs with ⟨key', holToa, first, hcall, rfl⟩ | ⟨key', -, rfl⟩
    · have hkey : some key' ≠ some key := by simpa [hcall, ProducerCall.key] using hret call
      refine ⟨key_update_ne hret ?_, hlast⟩
      cases first with
      | false => simp [ProducerCall.key]
      | true => exact hkey
    · exact ⟨key_update_ne hret (by simp [ProducerCall.key]), by rw [(tryPush_frame key').2.2.1, hlast]⟩
  | slotIndication sl =>
    obtain ⟨-, rfl⟩ := slotIndication_ok hs
    exact ⟨hret, hlast⟩
  | consume =>
    rcases consume_ok hs with ⟨_, -, -, rfl⟩ | ⟨_, _, _, -, -, rfl⟩ | ⟨_, _, -, rfl⟩ | ⟨_, _, _, -, rfl⟩
    · exact ⟨hret, hlast⟩
    · exact ⟨hret, hlast⟩
    · exact ⟨hret, hlast⟩
    · exact ⟨hret, hlast⟩
  | addUe ueIndex => cases hs; exact ⟨hret, hlast⟩
  | remUe ueIndex => cases hs; exact ⟨hret, hlast⟩

/-- Nobody is to forward a value of the bearer. -/
def Unowned (key : Nat) (s : DlBoManager) : Prop := key ∉ s.pendingEvs ∧ s.consumer.key ≠ some key

theorem Unowned.step {key : Nat} {bs : Option Nat} (h : Unowned key s) (hret : Returned key bs s)
    {e : DlBoEvent} (hs : s.step e = .ok s') : Unowned key s' := by
  obtain ⟨hevs, hcon⟩ := h
  cases e with
  | handle call rlcDlBo =>
    obtain ⟨-, -, rfl⟩ := handle_ok hs
    exact ⟨hevs, hcon⟩
  | produce call =>
    rcases produce_ok hs with ⟨key', holToa, first, -, rfl⟩ | ⟨key', hcall, rfl⟩
    · exact ⟨hevs, hcon⟩
    · have hkey : key ≠ key' := by simpa [hcall, ProducerCall.key, eq_comm] using hret.1 call
      refine ⟨?_, by rw [(tryPush_frame key').2.2.2]; exact hcon⟩
      unfold tryPush
      split
      · simpa [hkey] using hevs
      · exact hevs
  | slotIndication sl =>
    obtain ⟨-, rfl⟩ := slotIndication_ok hs
    exact ⟨hevs, by simp [ConsumerCall.key]⟩
  | consume =>
    rcases consume_ok hs with ⟨_, -, -, rfl⟩ | ⟨_, key', keys, -, heq, rfl⟩ | ⟨_, _, heq, rfl⟩ |
      ⟨_, _, _, heq, rfl⟩
    · exact ⟨hevs, by simp [ConsumerCall.key]⟩
    · rw [heq, List.mem_cons, not_or] at hevs
      exact ⟨hevs.2, by simpa [ConsumerCall.key, eq_comm] using hevs.1⟩
    · exact ⟨hevs, by simpa [heq, ConsumerCall.key] using hcon⟩
    · exact ⟨hevs, by simp [ConsumerCall.key]⟩
  | addUe ueIndex => cases hs; exact ⟨hevs, hcon⟩
  | remUe ueIndex => cases hs; exact ⟨hevs, hcon⟩

theorem Inv.bo_neg (h : s.Inv) {key : Nat} {bs : Option Nat} (hret : Returned key bs s)
    (hun : Unowned key s) : s.bo key < 0 := by
  rw [← not_le, h.owned]
  rintro ⟨owner, hown⟩
  cases owner with
  | queue => exact hun.1 hown
  | consumer => exact hun.2 hown
  | producer call =>
    refine hret.1 call ?_
    have howed : (s.producers call).owed = some key := hown
    cases hc : s.producers call with
    | idle => simp [hc, ProducerCall.owed] at howed
    | exchanged k holToa first =>
      cases first with
      | false => simp [hc, ProducerCall.owed] at howed
      | true => simpa [hc, ProducerCall.owed, ProducerCall.key] using howed
    | stored k => simpa [hc, ProducerCall.owed, ProducerCall.key] using howed

theorem Drains.unowned {key : Nat} {es : List DlBoEvent} (h : s.Drains key es)
    (hrun : Machine.run DlBoManager.step s es = .ok s') :
    Returned key (s.lastWritten key) s' ∧ Unowned key s' := by
  obtain ⟨es₁, es₂, t, sl, rfl, ht, hcon, hevs⟩ := h.drained
  have hno := h.noCall
  have hret : Returned key (s.lastWritten key) t := by
    have hadm : Machine.Admits DlBoManager.step (fun _ e => ¬Handles key e) s es₁ :=
      Machine.admits_of_forall_mem fun e he _ => hno e (List.mem_append_left _ he)
    exact Machine.run_invariant (Returned key (s.lastWritten key)) (fun _ _ _ h hn hs => h.step hn hs)
      ⟨h.returned, rfl⟩ hadm ht
  have hun : Unowned key t := ⟨by simp [hevs], by simp [hcon, ConsumerCall.key]⟩
  have hadm : Machine.Admits DlBoManager.step (fun _ e => ¬Handles key e) t (.consume :: es₂) :=
    Machine.admits_of_forall_mem fun e he _ => hno e (List.mem_append_right _ he)
  rw [Machine.run_append, ht] at hrun
  exact Machine.run_invariant (fun s' => Returned key (s.lastWritten key) s' ∧ Unowned key s')
    (fun _ _ _ h hn hs => ⟨h.1.step hn hs, h.2.step h.1 hs⟩) ⟨hret, hun⟩ hadm hrun

/-- In every interleaving with buffer occupancies that fit into an `int` a bearer is queued at most once and
the queue has room for it, and once its calls have returned and the queue was drained, the UE was told
the last value, if it was there since the start or some value of the bearer. -/
theorem dlBo_neverLost (ueDb : Nat → Bool) (es : List DlBoEvent) (s : DlBoManager)
    (hbs : ∀ e ∈ es, BsFits e) (hrun : Machine.run step (new ueDb) es = .ok s) :
    s.pendingEvs.Nodup ∧
    (∀ call key, s.producers call = .stored key → s.pendingEvs.length < nofBearerKeys) ∧
    (∀ dlBo ∈ s.forwarded, dlBo.bs ≠ toUnsigned (-1)) ∧
    ∀ es₀ es₁ es₂ s₀ s₁ key, es = es₀ ++ (es₁ ++ es₂) → Machine.run step (new ueDb) es₀ = .ok s₀ →
      Machine.run step s₀ es₁ = .ok s₁ → s₁.Drains key es₂ → (es₀ = [] ∨ 0 ≤ s₀.bo key) →
      Machine.Admits step (UeKnown key) s₀ (es₁ ++ es₂) → s.lastForwarded key = s₁.lastWritten key := by
  have hinv : s.Inv := Inv.run hbs hrun
  refine ⟨hinv.nodup, fun call key hcall => ?_, fun dlBo hmem => ?_, ?_⟩
  · have hown : s.Owns key (.producer call) := by simp [Owns, hcall, ProducerCall.owed]
    exact hinv.length_lt hown (by simp)
  · have hlt := hinv.forwarded dlBo hmem
    have hminus : toUnsigned (-1) = 2 ^ 32 - 1 := by decide
    omega
  · rintro es₀ es₁ es₂ s₀ s₁ key rfl hs₀ hs₁ hdrains hfrom hue
    have hinv₀ : s₀.Inv := Inv.run (fun e he => hbs e (List.mem_append_left _ he)) hs₀
    have htold₀ : Told key s₀ := by
      rcases hfrom with rfl | hbo
      · cases hs₀
        exact fun _ => rfl
      · exact fun hneg => absurd hneg (not_lt.mpr hbo)
    have hadm : Machine.Admits step (fun s e => UeKnown key s e ∧ BsFits e) s₀ (es₁ ++ es₂) :=
      hue.and (Machine.admits_of_forall_mem fun e he _ => hbs e (List.mem_append_right _ he))
    rw [Machine.run_append, hs₀] at hrun
    have htold : Told key s := (Machine.run_invariant (fun s => Told key s ∧ s.Inv)
      (fun _ _ _ h ha hs => ⟨h.1.step h.2 ha.2 ha.1 hs, h.2.step ha.2 hs⟩) ⟨htold₀, hinv₀⟩ hadm hrun).1
    change Machine.run step s₀ (es₁ ++ es₂) = _ at hrun
    rw [Machine.run_append, hs₁] at hrun
    obtain ⟨hret, hun⟩ := hdrains.unowned hrun
    rw [htold (hinv.bo_neg hret hun), hret.2]

def twoProducers : List DlBoEvent :=
  [.handle 0 ⟨0, 4, 10, none⟩, .handle 1 ⟨0, 4, 20, none⟩, .produce 1, .produce 0,
    .slotIndication ⟨1, 7⟩, .consume, .produce 0]

def oneSlot : List DlBoEvent := [.slotIndication ⟨1, 8⟩, .consume, .consume, .consume, .consume]

theorem twoProducers_run : ∃ s₁, Machine.run step (new fun _ => true) twoProducers = .ok s₁ ∧
    s₁.lastWritten (getBearerKey 0 4) = some 20 ∧ s₁.Drains (getBearerKey 0 4) oneSlot := by
  refine ⟨_, rfl, rfl, ⟨fun call => ?_, ?_, ?_⟩⟩
  · by_cases h0 : call = 0
    · subst h0
      decide
    · by_cases h1 : call = 1
      · subst h1
        decide
      · simp [h0, h1, Function.update_of_ne, new, ProducerCall.key]
  · simp [oneSlot, Handles]
  · exact ⟨[.slotIndication ⟨1, 8⟩, .consume, .consume, .consume], [], _, _, rfl, rfl, rfl, rfl⟩

/-- The value of the second producer is forwarded with the key of the first one. -/
theorem dlBo_neverLost_twoProducers : ∃ s, Machine.run step (new fun _ => true) (twoProducers ++ oneSlot) = .ok s ∧
    s.lastForwarded (getBearerKey 0 4) = some 20 := by
  obtain ⟨s, hs⟩ := Machine.exists_of_isOk
    (r := Machine.run step (new fun _ => true) (twoProducers ++ oneSlot)) (by decide +kernel)
  obtain ⟨s₁, hs₁, hlast, hdrains⟩ := twoProducers_run
  have hbs : ∀ e ∈ twoProducers ++ oneSlot, BsFits e := by simp [twoProducers, oneSlot, BsFits]
  refine ⟨s, hs, hlast ▸ (dlBo_neverLost _ _ s hbs hs).2.2.2 [] twoProducers oneSlot _ s₁ _ rfl rfl hs₁ hdrains
    (.inl rfl) ?_⟩
  decide +kernel

def negativeBo : List DlBoEvent :=
  [.handle 0 ⟨0, 4, 2 ^ 31, none⟩, .produce 0, .produce 0, .handle 0 ⟨0, 4, 2 ^ 31, none⟩, .produce 0,
    .produce 0, .slotIndication ⟨1, 8⟩] ++ List.replicate 7 .consume

/-- Two updates with a buffer occupancy that is negative as an `int` queue the bearer twice, and the
UE is told the mark of a bearer without a value. -/
theorem minusOne_forwarded : ¬ ∀ (ueDb : Nat → Bool) (es : List DlBoEvent) (s : DlBoManager),
    Machine.run step (new ueDb) es = .ok s → ∀ dlBo ∈ s.forwarded, dlBo.bs ≠ toUnsigned (-1) := by
  intro h
  have hok : (Machine.run step (new fun _ => true) negativeBo).map (fun s => s.forwarded) =
      .ok [⟨0, 4, toUnsigned (-1), none⟩, ⟨0, 4, 2 ^ 31, none⟩] := by
    decide +kernel
  obtain ⟨s, hs, hforwarded⟩ := map_eq_ok.mp hok
  exact h _ _ s hs _ (hforwarded ▸ List.mem_cons_self) rfl

end DlBoManager

end Ocudu.Sched
