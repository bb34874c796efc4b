import Ocudu.Basic.Machine

/-! `rlc_sdu_queue_lockfree.h`: a bounded FIFO of SDUs with discard by PDCP SN.  The
state is split over the inner FIFO, a slot table and a size table indexed by the PDCP SN
modulo the capacity, and one packed counter word. -/

namespace Ocudu.Rlc

structure RlcSdu where
  buf : List UInt8
  isRetx : Bool
  pdcpSn : Option Nat
  timeOfArrival : Nat

structure SduQueue where
  capacity : Nat
  byteLimit : Nat
  state : Nat
  queue : List RlcSdu
  sduStates : Nat → Nat
  sduSizes : Nat → Nat

namespace SduQueue

def stateFree : Nat := 0xffffffff

def stateDiscarded : Nat := 0xfffffffe

def new (capacity byteLimit : Nat) : SduQueue :=
  { capacity, byteLimit, state := 0, queue := [], sduStates := fun _ => stateFree,
    sduSizes := fun _ => 0 }

structure StateT where
  nSdus : Nat
  nBytes : Nat

def getState (q : SduQueue) : StateT :=
  { nSdus := q.state >>> 32, nBytes := q.state &&& 0xffffffff }

def isEmpty (q : SduQueue) : Bool := q.queue.isEmpty

/-- The word by which `state_add` and `state_sub` move the packed counter. -/
def stateChange (sduSize : Nat) : Nat := (1 <<< 32) ||| (sduSize % 2 ^ 32)

def stateAdd (q : SduQueue) (sduSize : Nat) : SduQueue :=
  { q with state := (q.state + stateChange sduSize) % 2 ^ 64 }

def stateSub (q : SduQueue) (sduSize : Nat) : SduQueue :=
  { q with state := (q.state + (2 ^ 64 - stateChange sduSize)) % 2 ^ 64 }

def setSlot (q : SduQueue) (pdcpSn slotState : Nat) : SduQueue :=
  { q with sduStates := Function.update q.sduStates (pdcpSn % q.capacity) slotState }

def tryPush (q : SduQueue) (sdu : RlcSdu) : Option SduQueue :=
  if q.queue.length < q.capacity then some { q with queue := q.queue ++ [sdu] } else none

def write (q : SduQueue) (sdu : RlcSdu) : Bool × SduQueue :=
  if sdu.buf.length + q.getState.nBytes ≥ q.byteLimit then (false, q)
  else
    match sdu.pdcpSn with
    | some sn =>
      if q.sduStates (sn % q.capacity) ≠ stateFree then (false, q)
      else
        let sized :=
          { q with sduSizes := Function.update q.sduSizes (sn % q.capacity) sdu.buf.length }
        let alloc := sized.setSlot sn sn
        match alloc.tryPush sdu with
        | none => (false, alloc.setSlot sn stateFree)
        | some pushed => (true, pushed.stateAdd sdu.buf.length)
    | none =>
      match q.tryPush sdu with
      | none => (false, q)
      | some pushed => (true, pushed.stateAdd sdu.buf.length)

def tryDiscard (q : SduQueue) (pdcpSn : Nat) : Bool × SduQueue :=
  if q.sduStates (pdcpSn % q.capacity) = pdcpSn then
    (true, (q.setSlot pdcpSn stateDiscarded).stateSub (q.sduSizes (pdcpSn % q.capacity)))
  else (false, q)

def checkAndRelease (q : SduQueue) (pdcpSn : Nat) : Bool × SduQueue :=
  let sduSize := q.sduSizes (pdcpSn % q.capacity)
  let oldState := q.sduStates (pdcpSn % q.capacity)
  let released := q.setSlot pdcpSn stateFree
  if oldState = pdcpSn then (true, released.stateSub sduSize)
  else if oldState = stateDiscarded then (false, released)
  else (false, released.stateSub sduSize)

def check (q : SduQueue) (pdcpSn : Nat) : Bool := q.sduStates (pdcpSn % q.capacity) == pdcpSn

def readLoop (q : SduQueue) : List RlcSdu → Option RlcSdu × SduQueue
  | [] => (none, { q with queue := [] })
  | sdu :: rest =>
    let popped := { q with queue := rest }
    match sdu.pdcpSn with
    | some sn =>
      match popped.checkAndRelease sn with
      | (true, released) => (some sdu, released)
      | (false, released) => readLoop released rest
    | none => (some sdu, popped.stateSub sdu.buf.length)

def read (q : SduQueue) : Option RlcSdu × SduQueue := q.readLoop q.queue

/-- The loop of `front`: discarded SDUs at the head are popped and released. -/
def frontLoop (q : SduQueue) : List RlcSdu → Option RlcSdu × SduQueue
  | [] => (none, { q with queue := [] })
  | sdu :: rest =>
    match sdu.pdcpSn with
    | some sn =>
      if q.check sn then (some sdu, { q with queue := sdu :: rest })
      else
        match ({ q with queue := rest } : SduQueue).checkAndRelease sn with
        | (true, released) => (none, released)
        | (false, released) => frontLoop released rest
    | none => (some sdu, { q with queue := sdu :: rest })

def front (q : SduQueue) : Option RlcSdu × SduQueue := q.frontLoop q.queue

/-! What the queue is for: a FIFO from which SDUs can be deleted by their PDCP SN. -/

/-- An SDU of the inner queue that has not been marked as discarded. -/
def valid (q : SduQueue) (sdu : RlcSdu) : Bool :=
  match sdu.pdcpSn with
  | some sn => q.check sn
  | none => true

def live (q : SduQueue) : List RlcSdu := q.queue.filter q.valid

def totalBytes (sdus : List RlcSdu) : Nat := (sdus.map (·.buf.length)).sum

def SlotsApart (c : Nat) (a b : RlcSdu) : Prop :=
  ∀ s t, a.pdcpSn = some s → b.pdcpSn = some t → s % c ≠ t % c

structure Inv (q : SduQueue) : Prop where
  capacity_pos : 0 < q.capacity
  capacity_lt : q.capacity < 2 ^ 32
  limit_lt : q.byteLimit < 2 ^ 32
  length_le : q.queue.length ≤ q.capacity
  sn_lt : ∀ sdu ∈ q.queue, ∀ sn, sdu.pdcpSn = some sn → sn < stateDiscarded
  slot : ∀ sdu ∈ q.queue, ∀ sn, sdu.pdcpSn = some sn →
    q.sduStates (sn % q.capacity) = sn ∨ q.sduStates (sn % q.capacity) = stateDiscarded
  size : ∀ sdu ∈ q.queue, ∀ sn, sdu.pdcpSn = some sn →
    q.sduSizes (sn % q.capacity) = sdu.buf.length
  apart : q.queue.Pairwise (SlotsApart q.capacity)
  used : ∀ i, q.sduStates i ≠ stateFree →
    ∃ sdu ∈ q.queue, ∃ sn, sdu.pdcpSn = some sn ∧ sn % q.capacity = i
  packed : q.state = q.live.length * 2 ^ 32 + totalBytes q.live
  bytes_lt : totalBytes q.live < 2 ^ 32

@[simp] theorem totalBytes_cons (sdu : RlcSdu) (l : List RlcSdu) :
    totalBytes (sdu :: l) = sdu.buf.length + totalBytes l := by
  simp [totalBytes]

@[simp] theorem totalBytes_append (l l' : List RlcSdu) :
    totalBytes (l ++ l') = totalBytes l + totalBytes l' := by
  simp [totalBytes]

theorem stateChange_eq (h : n < 2 ^ 32) : stateChange n = 2 ^ 32 + n := by
  have hor := Nat.two_pow_add_eq_or_of_lt h 1
  rw [stateChange, Nat.mod_eq_of_lt h]
  simpa using hor.symm

theorem Inv.getState_eq {q : SduQueue} (h : q.Inv) :
    q.getState = { nSdus := q.live.length, nBytes := totalBytes q.live } := by
  have hb := h.bytes_lt
  have hand : ∀ x, x &&& 0xffffffff = x % 2 ^ 32 := fun x =>
    Nat.and_two_pow_sub_one_eq_mod x 32
  simp only [getState, hand, Nat.shiftRight_eq_div_pow, h.packed, StateT.mk.injEq]
  constructor
  · rw [Nat.add_comm, Nat.add_mul_div_right _ _ (by decide), Nat.div_eq_of_lt hb, Nat.zero_add]
  · rw [Nat.add_comm, Nat.add_mul_mod_self_right, Nat.mod_eq_of_lt hb]

theorem Inv.live_length_le {q : SduQueue} (h : q.Inv) : q.live.length ≤ q.capacity :=
  Nat.le_trans (List.length_filter_le _ _) h.length_le

theorem new_inv (hc : 0 < c) (hc' : c < 2 ^ 32) (hl : l < 2 ^ 32) : (new c l).Inv where
  capacity_pos := hc
  capacity_lt := hc'
  limit_lt := hl
  length_le := by simp [new]
  sn_lt := by simp [new]
  slot := by simp [new]
  size := by simp [new]
  apart := by simp [new]
  used := by simp [new]
  packed := by simp [new, live, totalBytes]
  bytes_lt := by simp [new, live, totalBytes]

theorem Inv.slot_ne_of_free {q : SduQueue} (h : q.Inv) {sdu : RlcSdu} (hm : sdu ∈ q.queue)
    {sn t : Nat} (ht : sdu.pdcpSn = some t) (hfree : q.sduStates (sn % q.capacity) = stateFree) :
    t % q.capacity ≠ sn % q.capacity := by
  intro he
  have hlt := h.sn_lt sdu hm t ht
  have hs := h.slot sdu hm t ht
  rw [he, hfree] at hs
  simp only [stateFree, stateDiscarded] at hs hlt
  omega

theorem valid_congr {q q' : SduQueue} (hc : q'.capacity = q.capacity) {sdu : RlcSdu}
    (h : ∀ sn, sdu.pdcpSn = some sn →
      q'.sduStates (sn % q.capacity) = q.sduStates (sn % q.capacity)) :
    q'.valid sdu = q.valid sdu := by
  unfold valid
  split
  · rename_i sn hsn
    simp [check, hc, h sn hsn]
  · rfl

theorem Inv.push {q : SduQueue} (h : q.Inv) (q' : SduQueue) {sdu : RlcSdu}
    (hsn : ∀ sn, sdu.pdcpSn = some sn → sn < stateDiscarded)
    (hfree : ∀ sn, sdu.pdcpSn = some sn → q.sduStates (sn % q.capacity) = stateFree)
    (hfit : sdu.buf.length + totalBytes q.live < q.byteLimit)
    (hroom : q.queue.length < q.capacity)
    (hcap : q'.capacity = q.capacity) (hlim : q'.byteLimit = q.byteLimit)
    (hqueue : q'.queue = q.queue ++ [sdu])
    (hstate : q'.state = (q.state + stateChange sdu.buf.length) % 2 ^ 64)
    (hnew : ∀ sn, sdu.pdcpSn = some sn → q'.sduStates (sn % q.capacity) = sn ∧
      q'.sduSizes (sn % q.capacity) = sdu.buf.length)
    (hold : ∀ i, (∀ sn, sdu.pdcpSn = some sn → i ≠ sn % q.capacity) →
      q'.sduStates i = q.sduStates i ∧ q'.sduSizes i = q.sduSizes i) :
    q'.Inv ∧ q'.live = q.live ++ [sdu] := by
  have happart : ∀ a ∈ q.queue, SlotsApart q.capacity a sdu := by
    intro a ha s t hs ht
    exact h.slot_ne_of_free ha hs (hfree t ht)
  have hkeep : ∀ a ∈ q.queue, ∀ t, a.pdcpSn = some t →
      q'.sduStates (t % q.capacity) = q.sduStates (t % q.capacity) ∧
      q'.sduSizes (t % q.capacity) = q.sduSizes (t % q.capacity) := by
    intro a ha t ht
    exact hold _ (fun sn hs => happart a ha t sn ht hs)
  have hvalid : q'.valid sdu = true := by
    unfold valid
    split
    · rename_i sn hs
      simp [check, hcap, (hnew sn hs).1]
    · rfl
  have hlive : q'.live = q.live ++ [sdu] := by
    rw [live, hqueue, List.filter_append, live]
    congr 1
    · apply List.filter_congr
      intro a ha
      exact valid_congr hcap (fun t ht => (hkeep a ha t ht).1)
    · simp [hvalid]
  have hlen : q.live.length ≤ q.queue.length := List.length_filter_le _ _
  have hcl := h.capacity_lt
  have hll := h.limit_lt
  refine ⟨?_, hlive⟩
  constructor
  · rw [hcap]; exact h.capacity_pos
  · rw [hcap]; exact h.capacity_lt
  · rw [hlim]; exact h.limit_lt
  · rw [hqueue, hcap, List.length_append, List.length_singleton]
    exact hroom
  · intro a ha sn hs
    rw [hqueue, List.mem_append, List.mem_singleton] at ha
    rcases ha with ha | rfl
    · exact h.sn_lt a ha sn hs
    · exact hsn sn hs
  · intro a ha sn hs
    rw [hqueue, List.mem_append, List.mem_singleton] at ha
    rw [hcap]
    rcases ha with ha | rfl
    · rw [(hkeep a ha sn hs).1]
      exact h.slot a ha sn hs
    · exact Or.inl (hnew sn hs).1
  · intro a ha sn hs
    rw [hqueue, List.mem_append, List.mem_singleton] at ha
    rw [hcap]
    rcases ha with ha | rfl
    · rw [(hkeep a ha sn hs).2]
      exact h.size a ha sn hs
    · exact (hnew sn hs).2
  · rw [hqueue, hcap, List.pairwise_append]
    exact ⟨h.apart, List.pairwise_singleton _ _, by simpa using happart⟩
  · intro i hi
    rw [hqueue, hcap]
    by_cases hslot : ∀ sn, sdu.pdcpSn = some sn → i ≠ sn % q.capacity
    · rw [(hold i hslot).1] at hi
      obtain ⟨a, ha, hrest⟩ := h.used i hi
      exact ⟨a, List.mem_append_left _ ha, hrest⟩
    · push Not at hslot
      obtain ⟨sn, hs, rfl⟩ := hslot
      exact ⟨sdu, by simp, sn, hs, rfl⟩
  · rw [hstate, hlive, h.packed, stateChange_eq (by omega)]
    simp only [List.length_append, List.length_singleton, totalBytes_append, totalBytes_cons]
    rw [Nat.mod_eq_of_lt (by omega)]
    simp [totalBytes]
    omega
  · rw [hlive]
    simp [totalBytes] at hfit ⊢
    omega

theorem stateSub_packed {n b k : Nat} (hk : k ≤ b) (hb : b < 2 ^ 32) (hn : n < 2 ^ 32) :
    ((n + 1) * 2 ^ 32 + b + (2 ^ 64 - stateChange k)) % 2 ^ 64 = n * 2 ^ 32 + (b - k) := by
  rw [stateChange_eq (by omega)]
  have hsum : (n + 1) * 2 ^ 32 + b + (2 ^ 64 - (2 ^ 32 + k)) =
      n * 2 ^ 32 + (b - k) + 2 ^ 64 := by lia
  rw [hsum, Nat.add_mod_right, Nat.mod_eq_of_lt (by omega)]

theorem Inv.pop {q : SduQueue} (h : q.Inv) (q' : SduQueue) {sdu : RlcSdu} {rest : List RlcSdu}
    (hq : q.queue = sdu :: rest)
    (hcap : q'.capacity = q.capacity) (hlim : q'.byteLimit = q.byteLimit)
    (hqueue : q'.queue = rest) (hsizes : q'.sduSizes = q.sduSizes)
    (hstate : q'.state = if q.valid sdu then
      (q.state + (2 ^ 64 - stateChange sdu.buf.length)) % 2 ^ 64 else q.state)
    (hfreed : ∀ sn, sdu.pdcpSn = some sn → q'.sduStates (sn % q.capacity) = stateFree)
    (hold : ∀ i, (∀ sn, sdu.pdcpSn = some sn → i ≠ sn % q.capacity) →
      q'.sduStates i = q.sduStates i) :
    q'.Inv ∧ q.live = if q.valid sdu then sdu :: q'.live else q'.live := by
  have hmem : ∀ a ∈ rest, a ∈ q.queue := fun a ha => by rw [hq]; exact List.mem_cons_of_mem _ ha
  have hpair := h.apart
  rw [hq, List.pairwise_cons] at hpair
  have hkeep : ∀ a ∈ rest, ∀ t, a.pdcpSn = some t →
      q'.sduStates (t % q.capacity) = q.sduStates (t % q.capacity) := by
    intro a ha t ht
    exact hold _ (fun sn hs => (hpair.1 a ha sn t hs ht).symm)
  have hrest : q'.live = rest.filter q.valid := by
    rw [live, hqueue]
    apply List.filter_congr
    intro a ha
    exact valid_congr hcap (hkeep a ha)
  have hlive : q.live = if q.valid sdu then sdu :: q'.live else q'.live := by
    rw [hrest, live, hq, List.filter_cons]
  have hpacked : q'.state = q'.live.length * 2 ^ 32 + totalBytes q'.live := by
    have hlen := h.live_length_le
    have hcl := h.capacity_lt
    have hb := h.bytes_lt
    rw [hstate]
    split
    · rename_i hv
      rw [if_pos hv] at hlive
      rw [hlive, List.length_cons] at hlen
      rw [hlive, totalBytes_cons] at hb
      rw [h.packed, hlive, List.length_cons, totalBytes_cons,
        stateSub_packed (by omega) hb (by omega)]
      omega
    · rename_i hv
      rw [if_neg hv] at hlive
      rw [h.packed, hlive]
  refine ⟨?_, hlive⟩
  constructor
  · rw [hcap]; exact h.capacity_pos
  · rw [hcap]; exact h.capacity_lt
  · rw [hlim]; exact h.limit_lt
  · have := h.length_le
    rw [hq, List.length_cons] at this
    rw [hqueue, hcap]
    omega
  · intro a ha sn hs
    rw [hqueue] at ha
    exact h.sn_lt a (hmem a ha) sn hs
  · intro a ha sn hs
    rw [hqueue] at ha
    rw [hcap, hkeep a ha sn hs]
    exact h.slot a (hmem a ha) sn hs
  · intro a ha sn hs
    rw [hqueue] at ha
    rw [hcap, hsizes]
    exact h.size a (hmem a ha) sn hs
  · rw [hqueue, hcap]
    exact hpair.2
  · intro i hi
    rw [hqueue, hcap]
    by_cases hslot : ∀ sn, sdu.pdcpSn = some sn → i ≠ sn % q.capacity
    · rw [hold i hslot] at hi
      obtain ⟨a, ha, sn, hs, hsi⟩ := h.used i hi
      rw [hq, List.mem_cons] at ha
      rcases ha with rfl | ha
      · exact absurd hsi.symm (hslot sn hs)
      · exact ⟨a, ha, sn, hs, hsi⟩
    · push Not at hslot
      obtain ⟨sn, hs, rfl⟩ := hslot
      exact absurd (hfreed sn hs) hi
  · exact hpacked
  · have hb := h.bytes_lt
    rw [hlive] at hb
    split at hb
    · rw [totalBytes_cons] at hb
      omega
    · exact hb

theorem Inv.checkAndRelease {q : SduQueue} (h : q.Inv) {sdu : RlcSdu} {rest : List RlcSdu}
    (hq : q.queue = sdu :: rest) {sn : Nat} (hsn : sdu.pdcpSn = some sn) :
    ∃ q', ({ q with queue := rest } : SduQueue).checkAndRelease sn = (q.valid sdu, q') ∧
      q'.queue = rest ∧ q'.Inv ∧ q.live = if q.valid sdu then sdu :: q'.live else q'.live := by
  have hm : sdu ∈ q.queue := by rw [hq]; exact List.mem_cons_self
  have hslot := h.slot sdu hm sn hsn
  have hsize := h.size sdu hm sn hsn
  have hlt := h.sn_lt sdu hm sn hsn
  have hvalid : q.valid sdu = decide (q.sduStates (sn % q.capacity) = sn) := by
    simp [valid, hsn, check, Bool.beq_eq_decide_eq]
  have hupd : ∀ i, (∀ t, sdu.pdcpSn = some t → i ≠ t % q.capacity) →
      Function.update q.sduStates (sn % q.capacity) stateFree i = q.sduStates i :=
    fun i hi => Function.update_of_ne (hi sn hsn) _ _
  have hself : ∀ t, sdu.pdcpSn = some t →
      Function.update q.sduStates (sn % q.capacity) stateFree (t % q.capacity) = stateFree := by
    intro t ht
    rw [hsn] at ht
    cases ht
    exact Function.update_self _ _ _
  rcases hslot with hs | hs
  · have hv : q.valid sdu = true := by simp [hvalid, hs]
    refine ⟨(({ q with queue := rest } : SduQueue).setSlot sn stateFree).stateSub
      sdu.buf.length, ?_, rfl, ?_⟩
    · simp [SduQueue.checkAndRelease, hs, hv, hsize]
    · refine h.pop _ hq ?_ ?_ ?_ ?_ ?_ ?_ ?_
      · rfl
      · rfl
      · rfl
      · rfl
      · rw [if_pos hv]
        rfl
      · exact hself
      · exact hupd
  · have hv : q.valid sdu = false := by
      rw [hvalid, hs]
      simp only [decide_eq_false_iff_not]
      omega
    refine ⟨({ q with queue := rest } : SduQueue).setSlot sn stateFree, ?_, rfl, ?_⟩
    · have hne : stateDiscarded ≠ sn := by omega
      simp [SduQueue.checkAndRelease, hs, hv, hne]
    · refine h.pop _ hq ?_ ?_ ?_ ?_ ?_ ?_ ?_
      · rfl
      · rfl
      · rfl
      · rfl
      · simp [hv, setSlot]
      · exact hself
      · exact hupd

theorem Inv.popWithoutSn {q : SduQueue} (h : q.Inv) {sdu : RlcSdu} {rest : List RlcSdu}
    (hq : q.queue = sdu :: rest) (hsn : sdu.pdcpSn = none) :
    (({ q with queue := rest } : SduQueue).stateSub sdu.buf.length).Inv ∧
      q.live = sdu :: (({ q with queue := rest } : SduQueue).stateSub sdu.buf.length).live := by
  have hv : q.valid sdu = true := by simp [valid, hsn]
  have hpop := h.pop (({ q with queue := rest } : SduQueue).stateSub sdu.buf.length)
    hq rfl rfl rfl rfl (by rw [if_pos hv]; rfl) (by simp [hsn]) (fun _ _ => rfl)
  simpa [hv] using hpop

theorem readLoop_spec {l : List RlcSdu} {q : SduQueue} (h : q.Inv) (hq : q.queue = l) :
    (q.readLoop l).1 = q.live.head? ∧ (q.readLoop l).2.live = q.live.tail ∧
      (q.readLoop l).2.Inv := by
  induction l generalizing q with
  | nil =>
    have he : ({ q with queue := [] } : SduQueue) = q := by rw [← hq]
    have hl : q.live = [] := by simp [live, hq]
    simp [readLoop, he, hl, h]
  | cons sdu rest ih =>
    cases hsn : sdu.pdcpSn with
    | none =>
      obtain ⟨hinv, hlive⟩ := h.popWithoutSn hq hsn
      simp [readLoop, hsn, hlive, hinv]
    | some sn =>
      obtain ⟨q', hcr, hqueue, hinv, hlive⟩ := h.checkAndRelease hq hsn
      cases hv : q.valid sdu with
      | true =>
        rw [hv] at hcr
        simp only [hv, if_true] at hlive
        simp [readLoop, hsn, hcr, hlive, hinv]
      | false =>
        rw [hv] at hcr
        simp only [hv, Bool.false_eq_true, if_false] at hlive
        simp only [readLoop, hsn, hcr, hlive]
        exact ih hinv hqueue

theorem frontLoop_spec {l : List RlcSdu} {q : SduQueue} (h : q.Inv) (hq : q.queue = l) :
    (q.frontLoop l).1 = q.live.head? ∧ (q.frontLoop l).2.live = q.live ∧
      (q.frontLoop l).2.Inv := by
  induction l generalizing q with
  | nil =>
    have he : ({ q with queue := [] } : SduQueue) = q := by rw [← hq]
    have hl : q.live = [] := by simp [live, hq]
    simp [frontLoop, he, hl, h]
  | cons sdu rest ih =>
    have he : ({ q with queue := sdu :: rest } : SduQueue) = q := by rw [← hq]
    cases hsn : sdu.pdcpSn with
    | none =>
      obtain ⟨-, hlive⟩ := h.popWithoutSn hq hsn
      simp [frontLoop, hsn, he, hlive, h]
    | some sn =>
      obtain ⟨q', hcr, hqueue, hinv, hlive⟩ := h.checkAndRelease hq hsn
      have hcheck : q.check sn = q.valid sdu := by simp [valid, hsn]
      cases hv : q.valid sdu with
      | true =>
        simp only [hv, if_true] at hlive
        simp [frontLoop, hsn, hcheck, hv, he, hlive, h]
      | false =>
        rw [hv] at hcr
        simp only [hv, Bool.false_eq_true, if_false] at hlive
        simp only [frontLoop, hsn, hcheck, hv, hcr, hlive, Bool.false_eq_true, if_false]
        exact ih hinv hqueue

theorem read_spec {q : SduQueue} (h : q.Inv) :
    q.read.1 = q.live.head? ∧ q.read.2.live = q.live.tail ∧ q.read.2.Inv :=
  readLoop_spec h rfl

theorem front_spec {q : SduQueue} (h : q.Inv) :
    q.front.1 = q.live.head? ∧ q.front.2.live = q.live ∧ q.front.2.Inv :=
  frontLoop_spec h rfl

/-! The inner queue only changes at its two ends. -/

@[simp] theorem checkAndRelease_queue (q : SduQueue) (sn : Nat) :
    (q.checkAndRelease sn).2.queue = q.queue := by
  simp only [SduQueue.checkAndRelease]
  split
  · rfl
  · split <;> rfl

theorem readLoop_queue (l : List RlcSdu) (q : SduQueue) :
    (q.readLoop l).2.queue <:+ l ∧ ∀ sdu, (q.readLoop l).1 = some sdu → sdu ∈ l := by
  induction l generalizing q with
  | nil => simp [readLoop]
  | cons sdu rest ih =>
    simp only [readLoop]
    split
    · rename_i sn hsn
      have hqueue := checkAndRelease_queue { q with queue := rest } sn
      split
      · rename_i released hcr
        rw [hcr] at hqueue
        simp only at hqueue ⊢
        rw [hqueue]
        exact ⟨List.suffix_cons _ _, by simp⟩
      · rename_i released hcr
        obtain ⟨hsuf, hmem⟩ := ih released
        exact ⟨hsuf.trans (List.suffix_cons _ _), fun a ha => List.mem_cons_of_mem _ (hmem a ha)⟩
    · simp [stateSub]

theorem readLoop_split {l : List RlcSdu} {q q' : SduQueue} {sdu : RlcSdu}
    (h : q.readLoop l = (some sdu, q')) : ∃ pre, l = pre ++ sdu :: q'.queue := by
  induction l generalizing q with
  | nil => cases h
  | cons a rest ih =>
    simp only [readLoop] at h
    split at h
    · rename_i sn hsn
      have hqueue := checkAndRelease_queue { q with queue := rest } sn
      split at h
      · rename_i released hcr
        rw [hcr] at hqueue
        cases h
        exact ⟨[], by rw [hqueue]; rfl⟩
      · obtain ⟨pre, hpre⟩ := ih h
        exact ⟨a :: pre, by rw [hpre]; rfl⟩
    · cases h
      exact ⟨[], rfl⟩

theorem frontLoop_queue (l : List RlcSdu) (q : SduQueue) : (q.frontLoop l).2.queue <:+ l := by
  induction l generalizing q with
  | nil => simp [frontLoop]
  | cons sdu rest ih =>
    simp only [frontLoop]
    split
    · rename_i sn hsn
      have hqueue := checkAndRelease_queue { q with queue := rest } sn
      split
      · exact List.suffix_rfl
      · split
        · rename_i released hcr
          rw [hcr] at hqueue
          simp only at hqueue ⊢
          rw [hqueue]
          exact List.suffix_cons _ _
        · rename_i released hcr
          exact (ih released).trans (List.suffix_cons _ _)
    · exact List.suffix_rfl

theorem tryPush_queue {q q' : SduQueue} {sdu : RlcSdu} (h : q.tryPush sdu = some q') :
    q'.queue = q.queue ++ [sdu] := by
  unfold tryPush at h
  split at h <;> cases h
  rfl

theorem write_queue (q : SduQueue) (sdu : RlcSdu) :
    (q.write sdu).2.queue = q.queue ∨ (q.write sdu).2.queue = q.queue ++ [sdu] := by
  unfold write
  split
  · exact .inl rfl
  · split
    · split
      · exact .inl rfl
      · simp only
        split
        · exact .inl rfl
        · rename_i hpush
          have hqueue := tryPush_queue hpush
          exact .inr hqueue
    · split
      · exact .inl rfl
      · rename_i hpush
        have hqueue := tryPush_queue hpush
        exact .inr hqueue

@[simp] theorem tryDiscard_queue (q : SduQueue) (sn : Nat) : (q.tryDiscard sn).2.queue = q.queue := by
  simp only [tryDiscard]
  split <;> rfl

/-- Why a write is rejected; the inner queue also holds the SDUs that were discarded. -/
def RejectsFor (q : SduQueue) (sdu : RlcSdu) : Prop :=
  q.byteLimit ≤ sdu.buf.length + totalBytes q.live ∨
    (∃ sn, sdu.pdcpSn = some sn ∧ ∃ held ∈ q.queue, ∃ t, held.pdcpSn = some t ∧ t % q.capacity = sn % q.capacity) ∨
    q.queue.length = q.capacity

theorem full_of_tryPush {q : SduQueue} {sdu : RlcSdu} (hpush : q.tryPush sdu = none) :
    q.capacity ≤ q.queue.length := by
  refine Nat.not_lt.mp fun hlt => ?_
  rw [tryPush, if_pos hlt] at hpush
  cases hpush

theorem write_rejected {q q' : SduQueue} (h : q.Inv) {sdu : RlcSdu} (hw : q.write sdu = (false, q')) :
    q'.queue = q.queue ∧ q'.sduStates = q.sduStates ∧ q'.state = q.state ∧ q.RejectsFor sdu := by
  have hst := h.getState_eq
  unfold write at hw
  split at hw
  · rename_i hfit
    rw [hst] at hfit
    cases hw
    exact ⟨rfl, rfl, rfl, .inl hfit⟩
  · split at hw
    · rename_i sn hsn
      split at hw
      · rename_i hslot
        cases hw
        exact ⟨rfl, rfl, rfl, .inr (.inl ⟨sn, hsn, h.used _ hslot⟩)⟩
      · rename_i hfree
        have hf : q.sduStates (sn % q.capacity) = stateFree := by simpa using hfree
        dsimp only at hw
        split at hw
        · rename_i hfull
          cases hw
          have hlen := full_of_tryPush hfull
          simp only [setSlot] at hlen
          exact ⟨rfl, by simp [setSlot, ← hf], rfl, .inr (.inr (h.length_le.antisymm hlen))⟩
        · cases hw
    · split at hw
      · cases hw
        exact ⟨rfl, rfl, rfl, .inr (.inr (h.length_le.antisymm (full_of_tryPush ‹_›)))⟩
      · cases hw

theorem write_spec {q : SduQueue} (h : q.Inv) {sdu : RlcSdu}
    (hsn : ∀ sn, sdu.pdcpSn = some sn → sn < stateDiscarded) :
    (q.write sdu).2.Inv ∧
      (q.write sdu).2.live = if (q.write sdu).1 then q.live ++ [sdu] else q.live := by
  have hst := h.getState_eq
  unfold write
  split
  · simp [h]
  · rename_i hfit
    rw [hst] at hfit
    simp only [ge_iff_le, not_le] at hfit
    split
    · rename_i sn hs
      split
      · simp [h]
      · rename_i hfree
        have hf : q.sduStates (sn % q.capacity) = stateFree := by simpa using hfree
        simp only [tryPush, setSlot]
        by_cases hroom : q.queue.length < q.capacity
        · simp only [hroom, if_true]
          refine h.push _ hsn ?_ hfit hroom ?_ ?_ ?_ ?_ ?_ ?_
          · intro t ht
            rw [hs] at ht
            cases ht
            exact hf
          · rfl
          · rfl
          · rfl
          · rfl
          · intro t ht
            rw [hs] at ht
            cases ht
            simp [stateAdd]
          · intro i hi
            have hne := hi sn hs
            simp [stateAdd, Function.update_of_ne hne]
        · -- the slot is taken and given back, only the size of a free slot changes
          simp only [hroom, if_false, Function.update_idem, Bool.false_eq_true]
          have hslots : Function.update q.sduStates (sn % q.capacity) stateFree = q.sduStates := by
            rw [← hf, Function.update_eq_self]
          rw [hslots]
          refine ⟨⟨h.capacity_pos, h.capacity_lt, h.limit_lt, h.length_le, h.sn_lt, h.slot, ?_,
            h.apart, h.used, h.packed, h.bytes_lt⟩, rfl⟩
          intro a ha t ht
          have hne := h.slot_ne_of_free ha ht hf
          simpa [Function.update_of_ne hne] using h.size a ha t ht
    · rename_i hs
      simp only [tryPush]
      by_cases hroom : q.queue.length < q.capacity
      · simp only [hroom, if_true]
        refine h.push _ hsn ?_ hfit hroom ?_ ?_ ?_ ?_ ?_ ?_
        · simp [hs]
        · rfl
        · rfl
        · rfl
        · rfl
        · simp [hs]
        · intro i _
          simp [stateAdd]
      · simp [hroom, h]

theorem Inv.slot_eq_iff {q : SduQueue} (h : q.Inv) {sn : Nat} (hlt : sn < stateDiscarded) :
    q.sduStates (sn % q.capacity) = sn ↔ ∃ sdu ∈ q.live, sdu.pdcpSn = some sn := by
  constructor
  · intro hs
    have hne : q.sduStates (sn % q.capacity) ≠ stateFree := by
      simp only [hs, stateFree, stateDiscarded] at hlt ⊢
      omega
    obtain ⟨sdu, hm, t, ht, hti⟩ := h.used _ hne
    have hslot := h.slot sdu hm t ht
    have htlt := h.sn_lt sdu hm t ht
    rw [hti, hs] at hslot
    have htn : t = sn := by
      rcases hslot with e | e
      · exact e.symm
      · omega
    subst htn
    refine ⟨sdu, ?_, ht⟩
    rw [live, List.mem_filter]
    exact ⟨hm, by simp [valid, ht, check, hs]⟩
  · rintro ⟨sdu, hm, hs⟩
    rw [live, List.mem_filter] at hm
    simpa [valid, hs, check] using hm.2

theorem delete_one {c sn : Nat} {sdu : RlcSdu} (hs : sdu.pdcpSn = some sn) {l : List RlcSdu}
    (hl : l.Pairwise (SlotsApart c)) (hm : sdu ∈ l) :
    l.length = (l.filter (fun a => a.pdcpSn ≠ some sn)).length + 1 ∧
      totalBytes l = totalBytes (l.filter (fun a => a.pdcpSn ≠ some sn)) + sdu.buf.length := by
  induction l with
  | nil => cases hm
  | cons a l ih =>
    rw [List.pairwise_cons] at hl
    by_cases ha : a.pdcpSn = some sn
    · have hnone : ∀ b ∈ l, b.pdcpSn ≠ some sn := fun b hb hbs => hl.1 b hb sn sn ha hbs rfl
      have hrest : l.filter (fun b => b.pdcpSn ≠ some sn) = l :=
        List.filter_eq_self.mpr fun b hb => by simpa using hnone b hb
      have hsa : sdu = a := by
        rcases List.mem_cons.mp hm with e | hb
        · exact e
        · exact absurd hs (hnone sdu hb)
      rw [List.filter_cons_of_neg (by simpa using ha), hrest, hsa]
      simp [Nat.add_comm]
    · have hml : sdu ∈ l := by
        rcases List.mem_cons.mp hm with rfl | hb
        · exact absurd hs ha
        · exact hb
      obtain ⟨h1, h2⟩ := ih hl.2 hml
      rw [List.filter_cons_of_pos (by simpa using ha)]
      simp only [List.length_cons, totalBytes_cons]
      omega

theorem Inv.discard {q : SduQueue} (h : q.Inv) {sn : Nat} (hlt : sn < stateDiscarded)
    (hs : q.sduStates (sn % q.capacity) = sn) (q' : SduQueue)
    (hq' : q' = (q.setSlot sn stateDiscarded).stateSub (q.sduSizes (sn % q.capacity))) :
    q'.live = q.live.filter (fun sdu => sdu.pdcpSn ≠ some sn) ∧ q'.Inv := by
  obtain ⟨sdu, hm, hsdu⟩ := (h.slot_eq_iff hlt).mp hs
  have hmq : sdu ∈ q.queue := (List.mem_filter.mp hm).1
  have hsize := h.size sdu hmq sn hsdu
  have hcap : q'.capacity = q.capacity := by rw [hq']; rfl
  have hqueue : q'.queue = q.queue := by rw [hq']; rfl
  have hself : q'.sduStates (sn % q.capacity) = stateDiscarded := by
    simp [hq', stateSub, setSlot]
  have hother : ∀ i, i ≠ sn % q.capacity → q'.sduStates i = q.sduStates i := fun i hi => by
    simp [hq', stateSub, setSlot, Function.update_of_ne hi]
  -- the slot holds `sn`, so no SDU with another SN can sit in it
  have hapart : ∀ a ∈ q.queue, ∀ t, a.pdcpSn = some t → t ≠ sn →
      t % q.capacity ≠ sn % q.capacity := by
    intro a ha t ht htn he
    have hslot := h.slot a ha t ht
    rw [he, hs] at hslot
    omega
  have hvalid : ∀ a ∈ q.queue,
      q'.valid a = (decide (a.pdcpSn ≠ some sn) && q.valid a) := by
    intro a ha
    cases hpa : a.pdcpSn with
    | none => simp [valid, hpa]
    | some t =>
      by_cases htn : t = sn
      · subst htn
        have hne : stateDiscarded ≠ t := by omega
        simp [valid, hpa, check, hcap, hself, hne]
      · simp [valid, hpa, check, hcap, hother _ (hapart a ha t hpa htn), htn]
  have hlive : q'.live = q.live.filter (fun sdu => sdu.pdcpSn ≠ some sn) := by
    rw [live, live, List.filter_filter, hqueue]
    exact List.filter_congr hvalid
  obtain ⟨hlen, hbytes⟩ := delete_one hsdu (h.apart.filter q.valid) hm
  rw [← live, ← hlive] at hlen hbytes
  have hb := h.bytes_lt
  have hll := h.live_length_le
  have hcl := h.capacity_lt
  refine ⟨hlive, ?_⟩
  constructor
  · rw [hcap]; exact h.capacity_pos
  · rw [hcap]; exact h.capacity_lt
  · rw [hq']; exact h.limit_lt
  · rw [hqueue, hcap]; exact h.length_le
  · rw [hqueue]; exact h.sn_lt
  · intro a ha t ht
    rw [hqueue] at ha
    rw [hcap]
    by_cases htn : t = sn
    · subst htn
      exact Or.inr hself
    · rw [hother _ (hapart a ha t ht htn)]
      exact h.slot a ha t ht
  · rw [hqueue, hcap]
    intro a ha t ht
    rw [hq']
    exact h.size a ha t ht
  · rw [hqueue, hcap]; exact h.apart
  · intro i hi
    rw [hqueue, hcap]
    by_cases hin : i = sn % q.capacity
    · subst hin
      exact ⟨sdu, hmq, sn, hsdu, rfl⟩
    · rw [hother i hin] at hi
      exact h.used i hi
  · have hstate : q'.state = (q.state + (2 ^ 64 - stateChange sdu.buf.length)) % 2 ^ 64 := by
      rw [hq', ← hsize]
      rfl
    rw [hstate, h.packed, hlen, stateSub_packed (by omega) hb (by omega)]
    omega
  · omega

theorem tryDiscard_spec {q : SduQueue} (h : q.Inv) {sn : Nat} (hlt : sn < stateDiscarded) :
    ((q.tryDiscard sn).1 = true ↔ ∃ sdu ∈ q.live, sdu.pdcpSn = some sn) ∧
      (q.tryDiscard sn).2.live = q.live.filter (fun sdu => sdu.pdcpSn ≠ some sn) ∧
      (q.tryDiscard sn).2.Inv := by
  have hiff := h.slot_eq_iff hlt
  unfold tryDiscard
  by_cases hs : q.sduStates (sn % q.capacity) = sn
  · rw [if_pos hs]
    exact ⟨by simpa using hiff.mp hs, h.discard hlt hs _ rfl⟩
  · rw [if_neg hs]
    refine ⟨by simpa using fun hx => hs (hiff.mpr hx), ?_, h⟩
    symm
    rw [List.filter_eq_self]
    intro a ha
    simp only [ne_eq, decide_not, Bool.not_eq_true', decide_eq_false_iff_not]
    intro hpa
    exact hs (hiff.mpr ⟨a, ha, hpa⟩)

/-- The calls of the producer and of the consumer thread, each one atomic step. -/
inductive Op
  | write (sdu : RlcSdu)
  | tryDiscard (pdcpSn : Nat)
  | read
  | front
  | getState

inductive Res
  | done (ok : Bool)
  | sdu (out : Option RlcSdu)
  | totals (st : StateT)

def apply (q : SduQueue) : Op → Res × SduQueue
  | .write sdu => ((q.write sdu).map .done id)
  | .tryDiscard sn => ((q.tryDiscard sn).map .done id)
  | .read => (q.read.map .sdu id)
  | .front => (q.front.map .sdu id)
  | .getState => (.totals q.getState, q)

def applyAll (q : SduQueue) : List Op → List Res × SduQueue
  | [] => ([], q)
  | op :: ops =>
    let (res, q') := q.apply op
    let (rest, q'') := q'.applyAll ops
    (res :: rest, q'')

inductive FifoStep : List RlcSdu → Op → Res → List RlcSdu → Prop
  | write : FifoStep l (.write sdu) (.done true) (l ++ [sdu])
  | rejected : FifoStep l (.write sdu) (.done false) l
  | discard : (ok = true ↔ ∃ sdu ∈ l, sdu.pdcpSn = some sn) →
      FifoStep l (.tryDiscard sn) (.done ok) (l.filter (fun sdu => sdu.pdcpSn ≠ some sn))
  | read : FifoStep l .read (.sdu l.head?) l.tail
  | front : FifoStep l .front (.sdu l.head?) l
  | getState : FifoStep l .getState
      (.totals { nSdus := l.length, nBytes := totalBytes l }) l

inductive FifoRun : List RlcSdu → List Op → List Res → List RlcSdu → Prop
  | nil : FifoRun l [] [] l
  | cons : FifoStep l op res l' → FifoRun l' ops ress l'' →
      FifoRun l (op :: ops) (res :: ress) l''

/-- PDCP SNs have at most 18 bits; what the queue needs is that none is a sentinel. -/
def Op.SnOk : Op → Prop
  | .write sdu => ∀ sn, sdu.pdcpSn = some sn → sn < stateDiscarded
  | .tryDiscard sn => sn < stateDiscarded
  | _ => True

theorem apply_refines {q : SduQueue} (h : q.Inv) {op : Op} (hop : op.SnOk) :
    FifoStep q.live op (q.apply op).1 (q.apply op).2.live ∧ (q.apply op).2.Inv := by
  cases op with
  | write sdu =>
    obtain ⟨hinv, hlive⟩ := write_spec h hop
    refine ⟨?_, hinv⟩
    simp only [apply, Prod.map_fst, Prod.map_snd, id_eq, hlive]
    cases (q.write sdu).1 with
    | true => exact .write
    | false => exact .rejected
  | tryDiscard sn =>
    obtain ⟨hok, hlive, hinv⟩ := tryDiscard_spec h hop
    refine ⟨?_, hinv⟩
    simp only [apply, Prod.map_fst, Prod.map_snd, id_eq, hlive]
    exact .discard hok
  | read =>
    obtain ⟨hres, hlive, hinv⟩ := read_spec h
    refine ⟨?_, hinv⟩
    simp only [apply, Prod.map_fst, Prod.map_snd, id_eq, hlive, hres]
    exact .read
  | front =>
    obtain ⟨hres, hlive, hinv⟩ := front_spec h
    refine ⟨?_, hinv⟩
    simp only [apply, Prod.map_fst, Prod.map_snd, id_eq, hlive, hres]
    exact .front
  | getState =>
    refine ⟨?_, h⟩
    simp only [apply, h.getState_eq]
    exact .getState

theorem applyAll_refines {q : SduQueue} (h : q.Inv) {ops : List Op}
    (hops : ∀ op ∈ ops, op.SnOk) :
    FifoRun q.live ops (q.applyAll ops).1 (q.applyAll ops).2.live ∧ (q.applyAll ops).2.Inv := by
  induction ops generalizing q with
  | nil => exact ⟨.nil, h⟩
  | cons op ops ih =>
    obtain ⟨hstep, hinv⟩ := apply_refines h (hops op List.mem_cons_self)
    obtain ⟨hrun, hfin⟩ := ih hinv (fun o ho => hops o (List.mem_cons_of_mem _ ho))
    exact ⟨.cons hstep hrun, hfin⟩

/-- The queue refines a FIFO with deletion, its totals are those of the undiscarded SDUs,
and a rejected write changes nothing and has a reason. -/
theorem refines_fifo (capacity byteLimit : Nat) (hc : 0 < capacity) (hc' : capacity < 2 ^ 32)
    (hl : byteLimit < 2 ^ 32) (ops : List Op) (hops : ∀ op ∈ ops, op.SnOk)
    {ress : List Res} {q : SduQueue} (hrun : (new capacity byteLimit).applyAll ops = (ress, q)) :
    FifoRun [] ops ress q.live ∧
      q.getState = { nSdus := q.live.length, nBytes := totalBytes q.live } ∧
      ∀ sdu q', q.write sdu = (false, q') →
        q'.queue = q.queue ∧ q'.sduStates = q.sduStates ∧ q'.state = q.state ∧ q.RejectsFor sdu := by
  obtain ⟨hfifo, hinv⟩ := applyAll_refines (new_inv hc hc' hl) hops
  rw [hrun] at hfifo hinv
  exact ⟨hfifo, hinv.getState_eq, fun _ _ hw => write_rejected hinv hw⟩

/-- Two SDUs share a slot; the first is discarded, so the second is refused until the first
is popped. -/
theorem refines_fifo_slot_reuse :
    FifoRun [] [.write ⟨[1, 2], false, some 1, 0⟩, .tryDiscard 1, .write ⟨[3], false, some 5, 0⟩,
        .read, .write ⟨[3], false, some 5, 0⟩, .getState]
      [.done true, .done true, .done false, .sdu none, .done true, .totals ⟨1, 1⟩]
      [⟨[3], false, some 5, 0⟩] := by
  exact (refines_fifo 4 100 (by decide) (by decide) (by decide)
    [.write ⟨[1, 2], false, some 1, 0⟩, .tryDiscard 1, .write ⟨[3], false, some 5, 0⟩,
        .read, .write ⟨[3], false, some 5, 0⟩, .getState]
    (by simp [Op.SnOk, stateDiscarded]) rfl).1

end SduQueue

end Ocudu.Rlc
