import Ocudu.Mac.RntiManager

/-! `rlf_detector.h`: counters of consecutive failures, written by the threads of the cells, and
tasks by which the control executor reports a radio link failure. -/

namespace Ocudu.Mac

inductive RlfEventIndex
  | ack
  | crc
  | csi
  deriving DecidableEq

structure RlfMetrics where
  maxConsecutiveDlKos : Nat
  maxConsecutiveUlKos : Nat
  maxConsecutiveCsiDtx : Nat

def RlfMetrics.maxKos (m : RlfMetrics) : RlfEventIndex → Nat
  | .ack => m.maxConsecutiveDlKos
  | .crc => m.maxConsecutiveUlKos
  | .csi => m.maxConsecutiveCsiDtx

/-- No data of the source: the number of stores to a counter, the value of the last one, the number of
failures since, and the limit that they were compared with. `owner` is the call of `add_ue` that the
counter belongs to. -/
structure KoRun where
  run : Nat
  stored : Nat
  count : Nat
  limit : Option Nat
  owner : Option Nat
  deriving DecidableEq

/-- What the task that reports an RLF captures; and the failures it is due to. -/
structure RlfReport where
  cell : Nat
  ue : Nat
  ev : RlfEventIndex
  kos : KoRun

/-- A notifier, with the number of the call of `add_ue` that passed it. -/
structure RlfNotifier where
  notifier : Nat
  id : Nat
  deriving DecidableEq

inductive RlfTask
  | rlfDetected (r : RlfReport)
  | crntiCe (ue : Nat)

/-- An access to shared data, or a `defer`, that a call has yet to do. -/
inductive RlfOp
  | storeAdded (ue : Nat) (ev : RlfEventIndex) (id : Nat)
  | storeRemoved (cell ue : Nat) (ev : RlfEventIndex)
  | storeZero (ue : Nat) (ev : RlfEventIndex)
  | setNotifier (ue : Nat) (n : Option RlfNotifier)
  | fetchAdd (cell ue : Nat) (ev : RlfEventIndex)
  | deferRlf (r : RlfReport)
  | deferCrntiCe (ue : Nat)

/-- `ctrl` is what the control executor has left of `add_ue` or `rem_ue`, `calls` what each of the
other threads has left. `nofAdded`, `kos` and `notified` are no data of the source. -/
structure RlfDetector where
  koCounters : Nat → RlfEventIndex → Nat
  notifier : Nat → Option RlfNotifier
  tasks : List RlfTask
  ctrl : List RlfOp
  calls : Nat → List RlfOp
  nofAdded : Nat
  kos : Nat → RlfEventIndex → KoRun
  notified : List (RlfNotifier × RlfReport)

def RlfTask.report : RlfTask → Option RlfReport
  | .rlfDetected r => some r
  | .crntiCe _ => none

def RlfReport.key (r : RlfReport) : Nat × RlfEventIndex × Nat := (r.ue, r.ev, r.kos.run)

inductive RlfFault
  | assertion
  /-- The thread is not at a place where it could do this. -/
  | busy
  deriving DecidableEq

inductive RlfStep
  | addUe (ue notifier : Nat)
  | remUe (ue cell : Nat)
  | handleEvent (call cell ue : Nat) (ev : RlfEventIndex) (valid : Bool)
  | handleCrntiCe (call ue : Nat)
  | advanceCtrl
  /-- The next access of a call; `full` is whether the task queue takes no more. -/
  | advance (call : Nat) (full : Bool)
  | runTask

namespace RlfDetector

def new : RlfDetector where
  koCounters _ _ := 0
  notifier _ := none
  tasks := []
  ctrl := []
  calls _ := []
  nofAdded := 0
  kos _ _ := ⟨0, 0, 0, none, none⟩
  notified := []

variable (cells : Nat → RlfMetrics) (s : RlfDetector)

def setCounter (ue : Nat) (ev : RlfEventIndex) (value : Nat) (k : KoRun) : RlfDetector :=
  { s with
    koCounters := fun u e => if u = ue ∧ e = ev then value else s.koCounters u e
    kos := fun u e => if u = ue ∧ e = ev then k else s.kos u e }

def newRun (ue : Nat) (ev : RlfEventIndex) (value : Nat) (owner : Option Nat) : KoRun :=
  ⟨(s.kos ue ev).run + 1, value, 0, none, owner⟩

def store (ue : Nat) (ev : RlfEventIndex) (value : Nat) (owner : Option Nat) : RlfDetector :=
  s.setCounter ue ev value (s.newRun ue ev value owner)

def nextKo (cell ue : Nat) (ev : RlfEventIndex) : KoRun :=
  { s.kos ue ev with count := (s.kos ue ev).count + 1, limit := some ((cells cell).maxKos ev) }

/-- The state after an access, and what the call then has to do besides. -/
def access (full : Bool) : RlfOp → RlfDetector × List RlfOp
  | .storeAdded ue ev id => (s.store ue ev 0 (some id), [])
  | .storeRemoved cell ue ev => (s.store ue ev (((cells cell).maxKos ev + 1) % 2 ^ 32) none, [])
  | .storeZero ue ev => (s.store ue ev 0 (s.kos ue ev).owner, [])
  | .setNotifier ue n => ({ s with notifier := Function.update s.notifier ue n }, [])
  | .fetchAdd cell ue ev =>
    let currentCount := (s.koCounters ue ev + 1) % 2 ^ 32
    (s.setCounter ue ev currentCount (s.nextKo cells cell ue ev),
      if currentCount ≠ (cells cell).maxKos ev then []
      else [.deferRlf ⟨cell, ue, ev, s.nextKo cells cell ue ev⟩])
  | .deferRlf r =>
    if full then (s, [.storeZero r.ue r.ev]) else ({ s with tasks := s.tasks ++ [.rlfDetected r] }, [])
  | .deferCrntiCe ue => (if full then s else { s with tasks := s.tasks ++ [.crntiCe ue] }, [])

def execute : RlfTask → RlfDetector
  | .rlfDetected r =>
    match s.notifier r.ue with
    | some n => { s with notified := s.notified ++ [(n, r)] }
    | none => s
  | .crntiCe _ => s

def startCall (call : Nat) (ops : List RlfOp) : Except RlfFault RlfDetector :=
  if s.calls call = [] then .ok { s with calls := Function.update s.calls call ops }
  else .error .busy

def step (s : RlfDetector) : RlfStep → Except RlfFault RlfDetector
  | .addUe ue notifier =>
    if s.ctrl ≠ [] then .error .busy
    else if maxNofDuUes ≤ ue then .error .assertion
    else .ok { s with
      ctrl := [.storeAdded ue .ack s.nofAdded, .storeAdded ue .crc s.nofAdded, .storeAdded ue .csi s.nofAdded,
        .setNotifier ue (some ⟨notifier, s.nofAdded⟩)]
      nofAdded := s.nofAdded + 1 }
  | .remUe ue cell =>
    if s.ctrl ≠ [] then .error .busy
    else if maxNofDuUes ≤ ue then .error .assertion
    else .ok { s with
      ctrl := [.storeRemoved cell ue .ack, .storeRemoved cell ue .crc, .storeRemoved cell ue .csi,
        .setNotifier ue none] }
  | .handleEvent call cell ue ev valid =>
    if maxNofDuUes ≤ ue then .error .assertion
    else s.startCall call [if valid then .storeZero ue ev else .fetchAdd cell ue ev]
  | .handleCrntiCe call ue =>
    if maxNofDuUes ≤ ue then .error .assertion
    else s.startCall call [.storeZero ue .ack, .storeZero ue .crc, .storeZero ue .csi, .deferCrntiCe ue]
  | .advanceCtrl =>
    match s.ctrl with
    | [] => .error .busy
    | op :: ops => .ok { (s.access cells false op).1 with ctrl := ops }
  | .advance call full =>
    match s.calls call with
    | [] => .error .busy
    | op :: ops => .ok { (s.access cells full op).1 with
        calls := Function.update s.calls call ((s.access cells full op).2 ++ ops) }
  | .runTask =>
    match s.ctrl, s.tasks with
    | [], task :: tasks => .ok ({ s with tasks }.execute task)
    | _, _ => .error .busy

def Pending (r : RlfReport) : Prop := .rlfDetected r ∈ s.tasks ∨ ∃ call, .deferRlf r ∈ s.calls call

/-- What the environment has to keep to: a counter is not given to a UE while a report of the UE
before is pending, it does not overflow, and the failures of a run have one limit. -/
def Orderly (s : RlfDetector) : RlfStep → Prop
  | .advanceCtrl => ∀ ue ev id, s.ctrl.head? = some (.storeAdded ue ev id) →
      ∀ r, s.Pending r → ¬(r.ue = ue ∧ r.ev = ev)
  | .advance call _ => ∀ cell ue ev, (s.calls call).head? = some (.fetchAdd cell ue ev) →
      s.koCounters ue ev + 1 < 2 ^ 32 ∧
        ((s.kos ue ev).limit = none ∨ (s.kos ue ev).limit = some ((cells cell).maxKos ev))
  | _ => True

def inflightOf : List RlfOp → Option RlfReport
  | [.deferRlf r] => some r
  | _ => none

def inflight (call : Nat) : Option RlfReport := inflightOf (s.calls call)

def taskReports : List RlfReport := s.tasks.filterMap RlfTask.report

def deferred : List RlfReport := s.notified.map Prod.snd ++ s.taskReports

variable {cells} {s} {t : RlfDetector}

structure Behind (cells : Nat → RlfMetrics) (s : RlfDetector) (r : RlfReport) : Prop where
  run_le : r.kos.run ≤ (s.kos r.ue r.ev).run
  same : r.kos.run = (s.kos r.ue r.ev).run → (s.kos r.ue r.ev).limit = some ((cells r.cell).maxKos r.ev) ∧
    (cells r.cell).maxKos r.ev ≤ s.koCounters r.ue r.ev

def Live (cells : Nat → RlfMetrics) (s : RlfDetector) (r : RlfReport) : Prop :=
  (s.kos r.ue r.ev).owner ≠ none →
    r.kos.owner = (s.kos r.ue r.ev).owner ∧ r.kos.count = (cells r.cell).maxKos r.ev

def CallOk (ops : List RlfOp) : Prop :=
  (∃ cell ue ev, ops = [.fetchAdd cell ue ev]) ∨ (∃ r, ops = [.deferRlf r]) ∨
    ∀ op ∈ ops, (∃ ue ev, op = .storeZero ue ev) ∨ ∃ ue, op = .deferCrntiCe ue

def Ready (s : RlfDetector) (ue : Nat) : Prop :=
  ∀ n, s.notifier ue = some n → ∀ ev, (s.kos ue ev).owner = some n.id

inductive CtrlOk (s : RlfDetector) : List RlfOp → Prop
  | idle : (∀ ue, s.Ready ue) → CtrlOk s []
  | adding {ue id n : Nat} {evs : List RlfEventIndex} : (∀ u, u ≠ ue → s.Ready u) →
    (∀ ev, ev ∉ evs → (s.kos ue ev).owner = some id) →
    CtrlOk s (evs.map (.storeAdded ue · id) ++ [.setNotifier ue (some ⟨n, id⟩)])
  | removing {ue cell : Nat} {evs : List RlfEventIndex} : (∀ u, u ≠ ue → s.Ready u) →
    CtrlOk s (evs.map (.storeRemoved cell ue) ++ [.setNotifier ue none])

structure Core (cells : Nat → RlfMetrics) (s : RlfDetector) : Prop where
  counter : ∀ ue ev, s.koCounters ue ev = (s.kos ue ev).stored + (s.kos ue ev).count
  owned : ∀ ue ev, (s.kos ue ev).owner ≠ none → (s.kos ue ev).stored = 0
  behind : ∀ r, (r ∈ s.deferred ∨ ∃ call, s.inflight call = some r) → Behind cells s r
  live : ∀ r, (r ∈ s.taskReports ∨ ∃ call, s.inflight call = some r) → Live cells s r
  nodup : (s.deferred.map RlfReport.key).Nodup
  fresh : ∀ call r, s.inflight call = some r → r.key ∉ s.deferred.map RlfReport.key
  apart : ∀ call call' r r', s.inflight call = some r → s.inflight call' = some r' → r.key = r'.key → call = call'
  good : ∀ n r, (n, r) ∈ s.notified → r.kos.owner = some n.id ∧ r.kos.count = (cells r.cell).maxKos r.ev

structure Inv (cells : Nat → RlfMetrics) (s : RlfDetector) : Prop where
  core : Core cells s
  calls : ∀ call, CallOk (s.calls call)
  ctrl : CtrlOk s s.ctrl

theorem inv_new : Inv cells new where
  core :=
    { counter := fun _ _ => rfl
      owned := fun _ _ h => absurd rfl h
      behind := by simp [deferred, taskReports, inflight, inflightOf, new]
      live := by simp [taskReports, inflight, inflightOf, new]
      nodup := List.nodup_nil
      fresh := by simp [inflight, inflightOf, new]
      apart := by simp [inflight, inflightOf, new]
      good := by simp [new] }
  calls _ := .inr (.inr (by simp [new]))
  ctrl := .idle (by simp [Ready, new])

@[simp] theorem kos_setCounter (s : RlfDetector) (ue : Nat) (ev : RlfEventIndex) (value : Nat) (k : KoRun) :
    (s.setCounter ue ev value k).kos ue ev = k := if_pos ⟨rfl, rfl⟩

theorem koCounters_setCounter (s : RlfDetector) (ue : Nat) (ev : RlfEventIndex) (value : Nat) (k : KoRun) :
    (s.setCounter ue ev value k).koCounters ue ev = value := if_pos ⟨rfl, rfl⟩

theorem kos_setCounter_of_ne {ue u : Nat} {ev e : RlfEventIndex} (h : ¬(u = ue ∧ e = ev)) (value : Nat) (k : KoRun) :
    (s.setCounter ue ev value k).kos u e = s.kos u e := if_neg h

theorem koCounters_setCounter_of_ne {ue u : Nat} {ev e : RlfEventIndex} (h : ¬(u = ue ∧ e = ev)) (value : Nat)
    (k : KoRun) : (s.setCounter ue ev value k).koCounters u e = s.koCounters u e := if_neg h

theorem Behind.of_eq {r : RlfReport} (h : Behind cells s r) (hk : t.kos r.ue r.ev = s.kos r.ue r.ev)
    (hc : t.koCounters r.ue r.ev = s.koCounters r.ue r.ev) : Behind cells t r := by
  refine ⟨?_, ?_⟩
  · rw [hk]
    exact h.run_le
  · rw [hk, hc]
    exact h.same

theorem Live.of_eq {r : RlfReport} (h : Live cells s r) (hk : t.kos r.ue r.ev = s.kos r.ue r.ev) :
    Live cells t r := by
  unfold Live
  rw [hk]
  exact h

theorem Core.congr (h : Core cells s) (hcount : t.koCounters = s.koCounters) (hkos : t.kos = s.kos)
    (hlog : t.notified = s.notified) (htasks : t.tasks = s.tasks) (hin : t.inflight = s.inflight) :
    Core cells t := by
  have hreports : t.taskReports = s.taskReports := by rw [taskReports, htasks, taskReports]
  have hdef : t.deferred = s.deferred := by rw [deferred, hlog, hreports, deferred]
  refine ⟨?_, ?_, ?_, ?_, ?_, ?_, ?_, ?_⟩
  · rw [hcount, hkos]
    exact h.counter
  · rw [hkos]
    exact h.owned
  · rw [hdef, hin]
    exact fun r hr => (h.behind r hr).of_eq (by rw [hkos]) (by rw [hcount])
  · rw [hreports, hin]
    exact fun r hr => (h.live r hr).of_eq (by rw [hkos])
  · rw [hdef]
    exact h.nodup
  · rw [hdef, hin]
    exact h.fresh
  · rw [hin]
    exact h.apart
  · rw [hlog]
    exact h.good

theorem Core.store (h : Core cells s) {ue : Nat} {ev : RlfEventIndex} {value : Nat} {owner : Option Nat}
    (hown : owner ≠ none → value = 0)
    (hlive : owner ≠ none → ∀ r, (r ∈ s.taskReports ∨ ∃ call, s.inflight call = some r) → r.ue = ue ∧ r.ev = ev →
      r.kos.owner = owner ∧ r.kos.count = (cells r.cell).maxKos r.ev) :
    Core cells (s.store ue ev value owner) := by
  refine ⟨fun u e => ?_, fun u e => ?_, fun r hr => ?_, fun r hr => ?_, h.nodup, h.fresh, h.apart, h.good⟩
  · by_cases hue : u = ue ∧ e = ev
    · obtain ⟨rfl, rfl⟩ := hue
      rw [RlfDetector.store, kos_setCounter, koCounters_setCounter]
      rfl
    · rw [RlfDetector.store, kos_setCounter_of_ne hue, koCounters_setCounter_of_ne hue]
      exact h.counter u e
  · by_cases hue : u = ue ∧ e = ev
    · obtain ⟨rfl, rfl⟩ := hue
      rw [RlfDetector.store, kos_setCounter]
      exact hown
    · rw [RlfDetector.store, kos_setCounter_of_ne hue]
      exact h.owned u e
  · have hold := h.behind r hr
    by_cases hue : r.ue = ue ∧ r.ev = ev
    · obtain ⟨rfl, rfl⟩ := hue
      have hle := hold.run_le
      refine ⟨?_, fun heq => ?_⟩
      · rw [RlfDetector.store, kos_setCounter]
        exact hle.trans (Nat.le_succ _)
      · rw [RlfDetector.store, kos_setCounter] at heq
        change r.kos.run = (s.kos r.ue r.ev).run + 1 at heq
        omega
    · exact hold.of_eq (kos_setCounter_of_ne hue _ _) (koCounters_setCounter_of_ne hue _ _)
  · by_cases hue : r.ue = ue ∧ r.ev = ev
    · unfold Live
      rw [hue.1, hue.2, RlfDetector.store, kos_setCounter, ← hue.2]
      exact fun ho => hlive ho r hr hue
    · exact (h.live r hr).of_eq (kos_setCounter_of_ne hue _ _)

theorem Core.count (h : Core cells s) {cell ue : Nat} {ev : RlfEventIndex}
    (hlimit : (s.kos ue ev).limit = none ∨ (s.kos ue ev).limit = some ((cells cell).maxKos ev)) :
    Core cells (s.setCounter ue ev (s.koCounters ue ev + 1) (s.nextKo cells cell ue ev)) := by
  refine ⟨fun u e => ?_, fun u e => ?_, fun r hr => ?_, fun r hr => ?_, h.nodup, h.fresh, h.apart, h.good⟩
  · by_cases hue : u = ue ∧ e = ev
    · obtain ⟨rfl, rfl⟩ := hue
      rw [kos_setCounter, koCounters_setCounter, h.counter]
      rfl
    · rw [kos_setCounter_of_ne hue, koCounters_setCounter_of_ne hue]
      exact h.counter u e
  · by_cases hue : u = ue ∧ e = ev
    · obtain ⟨rfl, rfl⟩ := hue
      rw [kos_setCounter]
      exact h.owned u e
    · rw [kos_setCounter_of_ne hue]
      exact h.owned u e
  · have hold := h.behind r hr
    by_cases hue : r.ue = ue ∧ r.ev = ev
    · obtain ⟨rfl, rfl⟩ := hue
      refine ⟨?_, fun heq => ?_⟩
      · rw [kos_setCounter]
        exact hold.run_le
      · rw [kos_setCounter] at heq
        obtain ⟨hlim, hle⟩ := hold.same heq
        rw [kos_setCounter, koCounters_setCounter]
        rw [hlim] at hlimit
        have hsame := Option.some.inj (hlimit.resolve_left (by simp))
        exact ⟨congrArg some hsame.symm, hle.trans (Nat.le_succ _)⟩
    · exact hold.of_eq (kos_setCounter_of_ne hue _ _) (koCounters_setCounter_of_ne hue _ _)
  · by_cases hue : r.ue = ue ∧ r.ev = ev
    · obtain ⟨rfl, rfl⟩ := hue
      unfold Live
      rw [kos_setCounter]
      exact h.live r hr
    · exact (h.live r hr).of_eq (kos_setCounter_of_ne hue _ _)

theorem Core.report (h : Core cells s) {cell ue call : Nat} {ev : RlfEventIndex}
    (hlimit : (s.kos ue ev).limit = none ∨ (s.kos ue ev).limit = some ((cells cell).maxKos ev))
    (hmax : s.koCounters ue ev + 1 = (cells cell).maxKos ev)
    (ht : Core cells t) (hkos : t.kos ue ev = s.nextKo cells cell ue ev)
    (hcount : t.koCounters ue ev = s.koCounters ue ev + 1) (hdef : t.deferred = s.deferred)
    (hin : t.inflight = s.inflight) {u : RlfDetector} (hcall : t.inflight call = none)
    (hucount : u.koCounters = t.koCounters) (hukos : u.kos = t.kos) (hulog : u.notified = t.notified)
    (hutasks : u.tasks = t.tasks)
    (huin : u.inflight = Function.update t.inflight call (some ⟨cell, ue, ev, s.nextKo cells cell ue ev⟩)) :
    Core cells u := by
  have hreports : u.taskReports = t.taskReports := by rw [taskReports, hutasks, taskReports]
  have hudef : u.deferred = t.deferred := by rw [deferred, hulog, hreports, deferred]
  -- a report of the same run would have been made at a lower count
  have hnew : ∀ r, (r ∈ t.deferred ∨ ∃ call, t.inflight call = some r) →
      r.key ≠ (⟨cell, ue, ev, s.nextKo cells cell ue ev⟩ : RlfReport).key := by
    intro r hr heq
    rw [hdef, hin] at hr
    obtain ⟨hrue, hrest⟩ := Prod.mk.inj heq
    obtain ⟨hrev, hrun⟩ := Prod.mk.inj hrest
    have hsame := (h.behind r hr).same
    simp only at hrue hrev hrun
    rw [hrue, hrev] at hsame
    obtain ⟨hlim, hle⟩ := hsame hrun
    rw [hlim] at hlimit
    have hall := Option.some.inj (hlimit.resolve_left (by simp))
    omega
  have hinv : ∀ c r, u.inflight c = some r →
      (c = call ∧ r = ⟨cell, ue, ev, s.nextKo cells cell ue ev⟩) ∨ (c ≠ call ∧ t.inflight c = some r) := by
    intro c r hc
    rw [huin, Function.update_apply] at hc
    split_ifs at hc with hcc
    · exact .inl ⟨hcc, (Option.some.inj hc).symm⟩
    · exact .inr ⟨hcc, hc⟩
  refine ⟨?_, ?_, fun r hr => ?_, fun r hr => ?_, ?_, fun c r hc => ?_, fun c c' r r' hc hc' hkey => ?_, ?_⟩
  · rw [hucount, hukos]
    exact ht.counter
  · rw [hukos]
    exact ht.owned
  · rw [hudef] at hr
    have hcases : r = ⟨cell, ue, ev, s.nextKo cells cell ue ev⟩ ∨
        (r ∈ t.deferred ∨ ∃ c, t.inflight c = some r) := by
      rcases hr with hr | ⟨c, hc⟩
      · exact .inr (.inl hr)
      · rcases hinv c r hc with ⟨-, heq⟩ | ⟨-, hc⟩
        · exact .inl heq
        · exact .inr (.inr ⟨c, hc⟩)
    rcases hcases with rfl | hold
    · refine ⟨?_, fun _ => ⟨?_, ?_⟩⟩
      · rw [hukos, hkos]
      · rw [hukos, hkos]
        rfl
      · rw [hucount, hcount, hmax]
    · exact (ht.behind r hold).of_eq (by rw [hukos]) (by rw [hucount])
  · rw [hreports] at hr
    have hcases : r = ⟨cell, ue, ev, s.nextKo cells cell ue ev⟩ ∨
        (r ∈ t.taskReports ∨ ∃ c, t.inflight c = some r) := by
      rcases hr with hr | ⟨c, hc⟩
      · exact .inr (.inl hr)
      · rcases hinv c r hc with ⟨-, heq⟩ | ⟨-, hc⟩
        · exact .inl heq
        · exact .inr (.inr ⟨c, hc⟩)
    rcases hcases with rfl | hold
    · unfold Live
      rw [hukos, hkos]
      intro ho
      refine ⟨rfl, ?_⟩
      have hcounter := h.counter ue ev
      rw [h.owned ue ev ho] at hcounter
      change (s.kos ue ev).count + 1 = (cells cell).maxKos ev
      omega
    · exact (ht.live r hold).of_eq (by rw [hukos])
  · rw [hudef]
    exact ht.nodup
  · rw [hudef]
    rcases hinv c r hc with ⟨-, rfl⟩ | ⟨-, hc⟩
    · intro hmem
      obtain ⟨r', hr', heq⟩ := List.mem_map.mp hmem
      exact hnew r' (.inl hr') heq
    · exact ht.fresh c r hc
  · rcases hinv c r hc with ⟨rfl, rfl⟩ | ⟨-, hold⟩
    · rcases hinv c' r' hc' with ⟨rfl, -⟩ | ⟨-, hold'⟩
      · rfl
      · exact absurd hkey.symm (hnew r' (.inr ⟨c', hold'⟩))
    · rcases hinv c' r' hc' with ⟨rfl, rfl⟩ | ⟨-, hold'⟩
      · exact absurd hkey (hnew r (.inr ⟨c, hold⟩))
      · exact ht.apart c c' r r' hold hold' hkey
  · rw [hulog]
    exact ht.good

theorem Core.land (h : Core cells s) {call : Nat} {r : RlfReport} (hr : s.inflight call = some r)
    (hcount : t.koCounters = s.koCounters) (hkos : t.kos = s.kos) (hlog : t.notified = s.notified)
    (hin : t.inflight = Function.update s.inflight call none)
    (htasks : t.taskReports = s.taskReports ∨ t.taskReports = s.taskReports ++ [r]) : Core cells t := by
  have hinv : ∀ c r', t.inflight c = some r' → c ≠ call ∧ s.inflight c = some r' := by
    intro c r' hc
    rw [hin, Function.update_apply] at hc
    split_ifs at hc with hcc
    exact ⟨hcc, hc⟩
  have hdef : t.deferred = s.deferred ∨ t.deferred = s.deferred ++ [r] := by
    unfold deferred
    rw [hlog]
    rcases htasks with heq | heq
    · exact .inl (by rw [heq])
    · exact .inr (by rw [heq, List.append_assoc])
  have hmem : ∀ r', r' ∈ t.deferred → r' ∈ s.deferred ∨ r' = r := by
    intro r' hr'
    rcases hdef with heq | heq
    · rw [heq] at hr'
      exact .inl hr'
    · rw [heq, List.mem_append, List.mem_singleton] at hr'
      exact hr'
  have hmemTasks : ∀ r', r' ∈ t.taskReports → r' ∈ s.taskReports ∨ r' = r := by
    intro r' hr'
    rcases htasks with heq | heq
    · rw [heq] at hr'
      exact .inl hr'
    · rw [heq, List.mem_append, List.mem_singleton] at hr'
      exact hr'
  refine ⟨?_, ?_, fun r' hr' => ?_, fun r' hr' => ?_, ?_, fun c r' hc => ?_, fun c c' r₁ r₂ hc hc' => ?_, ?_⟩
  · rw [hcount, hkos]
    exact h.counter
  · rw [hkos]
    exact h.owned
  · refine Behind.of_eq (s := s) ?_ (by rw [hkos]) (by rw [hcount])
    rcases hr' with hr' | ⟨c, hc⟩
    · rcases hmem r' hr' with hold | rfl
      · exact h.behind r' (.inl hold)
      · exact h.behind r' (.inr ⟨call, hr⟩)
    · exact h.behind r' (.inr ⟨c, (hinv c r' hc).2⟩)
  · refine Live.of_eq (s := s) ?_ (by rw [hkos])
    rcases hr' with hr' | ⟨c, hc⟩
    · rcases hmemTasks r' hr' with hold | rfl
      · exact h.live r' (.inl hold)
      · exact h.live r' (.inr ⟨call, hr⟩)
    · exact h.live r' (.inr ⟨c, (hinv c r' hc).2⟩)
  · rcases hdef with heq | heq
    · rw [heq]
      exact h.nodup
    · rw [heq, List.map_append, List.map_singleton]
      exact (List.nodup_append_comm.mp (List.nodup_cons.mpr ⟨h.fresh call r hr, h.nodup⟩))
  · obtain ⟨hne, hold⟩ := hinv c r' hc
    intro hk
    obtain ⟨r₂, hr₂, hkey⟩ := List.mem_map.mp hk
    rcases hmem r₂ hr₂ with hr₂ | rfl
    · exact h.fresh c r' hold (List.mem_map.mpr ⟨r₂, hr₂, hkey⟩)
    · exact hne (h.apart c call r' r₂ hold hr hkey.symm)
  · exact h.apart c c' r₁ r₂ (hinv c r₁ hc).2 (hinv c' r₂ hc').2
  · rw [hlog]
    exact h.good

theorem Core.execute (h : Core cells s) (hready : ∀ ue, s.Ready ue) {task : RlfTask} {tasks : List RlfTask}
    (htasks : s.tasks = task :: tasks) : Core cells ({ s with tasks }.execute task) := by
  cases task with
  | crntiCe ue =>
    have hreports : s.taskReports = tasks.filterMap RlfTask.report := by
      rw [taskReports, htasks]
      rfl
    have hb := h.behind
    have hl := h.live
    have hn := h.nodup
    have hf := h.fresh
    unfold deferred at hb hn hf
    rw [hreports] at hb hl hn hf
    exact ⟨h.counter, h.owned, fun r hr => (hb r hr).of_eq rfl rfl, fun r hr => (hl r hr).of_eq rfl, hn, hf,
      h.apart, h.good⟩
  | rlfDetected r =>
    have hreports : s.taskReports = r :: tasks.filterMap RlfTask.report := by
      rw [taskReports, htasks]
      rfl
    have hlive := h.live r (.inl (by rw [hreports]; exact List.mem_cons_self))
    have hb := h.behind
    have hl := h.live
    have hn := h.nodup
    have hf := h.fresh
    unfold deferred at hb hn hf
    rw [hreports] at hb hl hn hf
    cases hnot : s.notifier r.ue with
    | none =>
      have hex : { s with tasks }.execute (.rlfDetected r) = { s with tasks } := by
        simp only [RlfDetector.execute, hnot]
      rw [hex]
      have hsub : (s.notified.map Prod.snd ++ tasks.filterMap RlfTask.report).Sublist
          (s.notified.map Prod.snd ++ r :: tasks.filterMap RlfTask.report) :=
        (List.sublist_cons_self _ _).append_left _
      refine ⟨h.counter, h.owned, fun r' hr' => ?_, fun r' hr' => ?_, hn.sublist (hsub.map _), fun c r' hc hk => ?_,
        h.apart, h.good⟩
      · exact (hb r' (hr'.imp_left fun hm => hsub.subset hm)).of_eq rfl rfl
      · exact (hl r' (hr'.imp_left fun hm => List.mem_cons_of_mem _ hm)).of_eq rfl
      · exact hf c r' hc ((hsub.map _).subset hk)
    | some n =>
      have hex : { s with tasks }.execute (.rlfDetected r) =
          { s with tasks, notified := s.notified ++ [(n, r)] } := by
        simp only [RlfDetector.execute, hnot]
      rw [hex]
      have hdef : RlfDetector.deferred { s with tasks, notified := s.notified ++ [(n, r)] } =
          s.notified.map Prod.snd ++ r :: tasks.filterMap RlfTask.report := by
        simp [deferred, taskReports]
      have howner := hready r.ue n hnot r.ev
      refine ⟨h.counter, h.owned, fun r' hr' => ?_, fun r' hr' => ?_, ?_, ?_, h.apart, fun n' r' hmem => ?_⟩
      · rw [hdef] at hr'
        exact (hb r' hr').of_eq rfl rfl
      · exact (hl r' (hr'.imp_left fun hm => List.mem_cons_of_mem _ hm)).of_eq rfl
      · rw [hdef]
        exact hn
      · rw [hdef]
        exact hf
      · rcases List.mem_append.mp hmem with hold | hnew
        · exact h.good n' r' hold
        · obtain ⟨rfl, rfl⟩ := Prod.mk.inj (List.mem_singleton.mp hnew)
          obtain ⟨ho, hc⟩ := hlive (by rw [howner]; simp)
          exact ⟨ho.trans howner, hc⟩

theorem inflight_update {call : Nat} {ops : List RlfOp} (h : t.calls = Function.update s.calls call ops)
    {r : Option RlfReport} (hr : inflightOf ops = r) : t.inflight = Function.update s.inflight call r := by
  funext c
  unfold inflight
  rw [h, ← hr]
  by_cases hc : c = call
  · rw [hc, Function.update_self, Function.update_self]
  · rw [Function.update_of_ne hc, Function.update_of_ne hc]

theorem inflight_update_none {call : Nat} {ops : List RlfOp} (h : t.calls = Function.update s.calls call ops)
    (hold : s.inflight call = none) (hnew : inflightOf ops = none) : t.inflight = s.inflight := by
  rw [inflight_update h hnew, ← hold, Function.update_eq_self]

theorem callOk_update {call : Nat} {ops : List RlfOp} (h : ∀ c, CallOk (s.calls c)) (hops : CallOk ops) (c : Nat) :
    CallOk (Function.update s.calls call ops c) := by
  rw [Function.update_apply]
  split_ifs
  · exact hops
  · exact h c

theorem CtrlOk.congr {ops : List RlfOp} (h : CtrlOk s ops) (hnot : t.notifier = s.notifier)
    (howner : ∀ ue ev, (t.kos ue ev).owner = (s.kos ue ev).owner) : CtrlOk t ops := by
  have hready : ∀ ue, s.Ready ue → t.Ready ue := by
    intro ue hue n hn ev
    rw [howner]
    rw [hnot] at hn
    exact hue n hn ev
  cases h with
  | idle hall => exact .idle fun ue => hready ue (hall ue)
  | adding hothers hdone =>
    refine .adding (fun u hu => hready u (hothers u hu)) fun ev hev => ?_
    rw [howner]
    exact hdone ev hev
  | removing hothers => exact .removing fun u hu => hready u (hothers u hu)

theorem CtrlOk.ready {ops : List RlfOp} (h : CtrlOk s ops) (hops : ops = []) (ue : Nat) : s.Ready ue := by
  cases h with
  | idle hall => exact hall ue
  | adding => simp at hops
  | removing => simp at hops

theorem owner_setCounter {ue : Nat} {ev : RlfEventIndex} {value : Nat} {k : KoRun}
    (hk : k.owner = (s.kos ue ev).owner) (u : Nat) (e : RlfEventIndex) :
    ((s.setCounter ue ev value k).kos u e).owner = (s.kos u e).owner := by
  by_cases hue : u = ue ∧ e = ev
  · obtain ⟨rfl, rfl⟩ := hue
    rw [kos_setCounter, hk]
  · rw [kos_setCounter_of_ne hue]

theorem Ready.store {ue u : Nat} (h : s.Ready u) (hne : u ≠ ue) (ev : RlfEventIndex) (value : Nat)
    (owner : Option Nat) : (s.store ue ev value owner).Ready u := by
  intro n hn e
  rw [RlfDetector.store, kos_setCounter_of_ne fun hc => hne hc.1]
  exact h n hn e

theorem Inv.startCall (h : Inv cells s) {call : Nat} {ops : List RlfOp} (hops : CallOk ops)
    (hnone : inflightOf ops = none) (ht : s.startCall call ops = .ok t) : Inv cells t := by
  unfold RlfDetector.startCall at ht
  split_ifs at ht with hidle
  cases ht
  have hold : s.inflight call = none := by
    rw [inflight, hidle]
    rfl
  exact ⟨h.core.congr rfl rfl rfl rfl (inflight_update_none rfl hold hnone), callOk_update h.calls hops,
    h.ctrl.congr rfl fun _ _ => rfl⟩

theorem Inv.advanceCtrl (h : Inv cells s) (hord : s.Orderly cells .advanceCtrl)
    (ht : s.step cells .advanceCtrl = .ok t) : Inv cells t := by
  have hctrl := h.ctrl
  have hquiet : ∀ ue ev id, s.ctrl.head? = some (.storeAdded ue ev id) →
      ∀ r, (r ∈ s.taskReports ∨ ∃ call, s.inflight call = some r) → ¬(r.ue = ue ∧ r.ev = ev) := by
    intro ue ev id hhead r hr
    refine hord ue ev id hhead r (hr.imp ?_ ?_)
    · intro hmem
      obtain ⟨task, htask, hrep⟩ := List.mem_filterMap.mp hmem
      cases task with
      | rlfDetected r' =>
        cases hrep
        exact htask
      | crntiCe ue => cases hrep
    · rintro ⟨call, hin⟩
      refine ⟨call, ?_⟩
      rcases h.calls call with ⟨cell, ue, ev, hc⟩ | ⟨r', hc⟩ | hc
      · rw [inflight, hc] at hin
        cases hin
      · rw [inflight, hc] at hin
        cases hin
        rw [hc]
        exact List.mem_cons_self
      · rw [inflight] at hin
        unfold inflightOf at hin
        split at hin
        · rename_i r' hcall
          rw [hcall] at hc
          rcases hc _ List.mem_cons_self with ⟨ue, ev, heq⟩ | ⟨ue, heq⟩
          · cases heq
          · cases heq
        · cases hin
  generalize hops : s.ctrl = ops at hctrl hquiet
  simp only [step, hops] at ht
  cases hctrl with
  | idle => cases ht
  | @adding ue id n evs hothers hdone =>
    cases evs with
    | nil =>
      cases ht
      refine ⟨h.core.congr rfl rfl rfl rfl rfl, h.calls, .idle fun u n' hn ev => ?_⟩
      change Function.update s.notifier ue _ u = some n' at hn
      by_cases hu : u = ue
      · rw [hu, Function.update_self] at hn
        cases hn
        rw [hu]
        exact hdone ev (by simp)
      · rw [Function.update_of_ne hu] at hn
        exact hothers u hu n' hn ev
    | cons ev evs =>
      cases ht
      have hcore : Core cells (s.store ue ev 0 (some id)) :=
        h.core.store (fun _ => rfl) fun _ r hr hue => absurd hue (hquiet ue ev id rfl r hr)
      refine ⟨hcore.congr rfl rfl rfl rfl rfl, h.calls, .adding (fun u hu => ?_) fun e he => ?_⟩
      · exact (hothers u hu).store hu ev 0 (some id)
      · change ((s.store ue ev 0 (some id)).kos ue e).owner = some id
        by_cases hev : e = ev
        · rw [hev, RlfDetector.store, kos_setCounter]
          rfl
        · rw [RlfDetector.store, kos_setCounter_of_ne fun hc => hev hc.2]
          exact hdone e (by simp [hev, he])
  | @removing ue cell evs hothers =>
    cases evs with
    | nil =>
      cases ht
      refine ⟨h.core.congr rfl rfl rfl rfl rfl, h.calls, .idle fun u n' hn ev => ?_⟩
      change Function.update s.notifier ue _ u = some n' at hn
      by_cases hu : u = ue
      · rw [hu, Function.update_self] at hn
        cases hn
      · rw [Function.update_of_ne hu] at hn
        exact hothers u hu n' hn ev
    | cons ev evs =>
      cases ht
      have hcore : Core cells (s.store ue ev (((cells cell).maxKos ev + 1) % 2 ^ 32) none) :=
        h.core.store (fun hc => absurd rfl hc) fun hc => absurd rfl hc
      exact ⟨hcore.congr rfl rfl rfl rfl rfl, h.calls, .removing fun u hu => (hothers u hu).store hu ev _ none⟩

theorem Inv.advance (h : Inv cells s) {call : Nat} {full : Bool} (hord : s.Orderly cells (.advance call full))
    (ht : s.step cells (.advance call full) = .ok t) : Inv cells t := by
  have hcall := h.calls call
  generalize hops : s.calls call = ops at hcall
  simp only [step, hops] at ht
  rcases hcall with ⟨cell, ue, ev, rfl⟩ | ⟨r, rfl⟩ | hall
  · cases ht
    obtain ⟨hwrap, hlimit⟩ := hord cell ue ev (by rw [hops]; rfl)
    have hold : s.inflight call = none := by
      rw [inflight, hops]
      rfl
    have hmod : (s.koCounters ue ev + 1) % 2 ^ 32 = s.koCounters ue ev + 1 := Nat.mod_eq_of_lt hwrap
    have hcore := h.core.count hlimit
    have hctrl : CtrlOk (s.setCounter ue ev (s.koCounters ue ev + 1) (s.nextKo cells cell ue ev)) s.ctrl :=
      h.ctrl.congr rfl (owner_setCounter rfl)
    simp only [access, hmod, List.append_nil]
    by_cases hmax : s.koCounters ue ev + 1 = (cells cell).maxKos ev
    · rw [if_neg (not_not.mpr hmax)]
      refine ⟨?_, callOk_update h.calls (.inr (.inl ⟨_, rfl⟩)), hctrl.congr rfl fun _ _ => rfl⟩
      exact h.core.report hlimit hmax hcore (kos_setCounter ..) (koCounters_setCounter ..) rfl rfl hold rfl rfl
        rfl rfl (inflight_update rfl rfl)
    · rw [if_pos hmax]
      exact ⟨hcore.congr rfl rfl rfl rfl (inflight_update_none rfl hold rfl),
        callOk_update h.calls (.inr (.inr (by simp))), hctrl.congr rfl fun _ _ => rfl⟩
  · cases ht
    have hold : s.inflight call = some r := by
      rw [inflight, hops]
      rfl
    cases full with
    | true =>
      refine ⟨h.core.land hold rfl rfl rfl (inflight_update rfl rfl) (.inl rfl), callOk_update h.calls
        (.inr (.inr ?_)), h.ctrl.congr rfl fun _ _ => rfl⟩
      intro op hop
      rw [List.mem_singleton.mp hop]
      exact .inl ⟨_, _, rfl⟩
    | false =>
      refine ⟨h.core.land hold rfl rfl rfl (inflight_update rfl rfl) (.inr ?_), callOk_update h.calls
        (.inr (.inr ?_)), h.ctrl.congr rfl fun _ _ => rfl⟩
      · simp [taskReports, access, RlfTask.report]
      · simp [access]
  · have hnone : ∀ l : List RlfOp, (∀ op ∈ l, (∃ ue ev, op = .storeZero ue ev) ∨ ∃ ue, op = .deferCrntiCe ue) →
        inflightOf l = none := by
      intro l hl
      unfold inflightOf
      split
      · rcases hl _ List.mem_cons_self with ⟨ue, ev, heq⟩ | ⟨ue, heq⟩
        · cases heq
        · cases heq
      · rfl
    have hold : s.inflight call = none := by
      rw [inflight, hops]
      exact hnone ops hall
    cases ops with
    | nil => cases ht
    | cons op ops =>
      have hrest : ∀ op ∈ ops, (∃ ue ev, op = .storeZero ue ev) ∨ ∃ ue, op = .deferCrntiCe ue :=
        fun o ho => hall o (List.mem_cons_of_mem _ ho)
      rcases hall op List.mem_cons_self with ⟨ue, ev, rfl⟩ | ⟨ue, rfl⟩
      · cases ht
        have hcore : Core cells (s.store ue ev 0 (s.kos ue ev).owner) :=
          h.core.store (fun _ => rfl) fun ho r hr hue => by
            have hlive := h.core.live r hr
            unfold Live at hlive
            rw [hue.1, hue.2] at hlive
            rw [hue.2]
            exact hlive ho
        have hctrl : CtrlOk (s.store ue ev 0 (s.kos ue ev).owner) s.ctrl :=
          h.ctrl.congr rfl (owner_setCounter rfl)
        exact ⟨hcore.congr rfl rfl rfl rfl (inflight_update_none rfl hold (hnone ops hrest)),
          callOk_update h.calls (.inr (.inr hrest)), hctrl.congr rfl fun _ _ => rfl⟩
      · cases ht
        cases full with
        | true =>
          exact ⟨h.core.congr rfl rfl rfl rfl (inflight_update_none rfl hold (hnone ops hrest)),
            callOk_update h.calls (.inr (.inr hrest)), h.ctrl.congr rfl fun _ _ => rfl⟩
        | false =>
          have hcore : Core cells { s with tasks := s.tasks ++ [.crntiCe ue] } := by
            have hreports : RlfDetector.taskReports { s with tasks := s.tasks ++ [.crntiCe ue] } = s.taskReports := by
              simp [taskReports, RlfTask.report]
            have hdef : RlfDetector.deferred { s with tasks := s.tasks ++ [.crntiCe ue] } = s.deferred := by
              rw [deferred, hreports]
              rfl
            refine ⟨h.core.counter, h.core.owned, ?_, ?_, ?_, ?_, h.core.apart, h.core.good⟩
            · rw [hdef]
              exact fun r hr => (h.core.behind r hr).of_eq rfl rfl
            · rw [hreports]
              exact fun r hr => (h.core.live r hr).of_eq rfl
            · rw [hdef]
              exact h.core.nodup
            · rw [hdef]
              exact h.core.fresh
          exact ⟨hcore.congr rfl rfl rfl rfl (inflight_update_none rfl hold (hnone ops hrest)),
            callOk_update h.calls (.inr (.inr hrest)), h.ctrl.congr rfl fun _ _ => rfl⟩

theorem Inv.step (h : Inv cells s) {e : RlfStep} (hord : s.Orderly cells e) (ht : s.step cells e = .ok t) :
    Inv cells t := by
  cases e with
  | addUe ue notifier =>
    simp only [RlfDetector.step] at ht
    split_ifs at ht with hbusy
    cases ht
    have hready := h.ctrl.ready (not_not.mp hbusy)
    refine ⟨h.core.congr rfl rfl rfl rfl rfl, h.calls, ?_⟩
    refine @CtrlOk.adding _ ue s.nofAdded notifier [.ack, .crc, .csi] (fun u _ => hready u) fun ev hev => ?_
    cases ev <;> simp at hev
  | remUe ue cell =>
    simp only [RlfDetector.step] at ht
    split_ifs at ht with hbusy
    cases ht
    have hready := h.ctrl.ready (not_not.mp hbusy)
    refine ⟨h.core.congr rfl rfl rfl rfl rfl, h.calls, ?_⟩
    exact @CtrlOk.removing _ ue cell [.ack, .crc, .csi] fun u _ => hready u
  | handleEvent call cell ue ev valid =>
    simp only [RlfDetector.step] at ht
    split_ifs at ht
    · refine h.startCall (.inr (.inr fun op hop => ?_)) rfl ht
      rw [List.mem_singleton.mp hop]
      exact .inl ⟨ue, ev, rfl⟩
    · exact h.startCall (.inl ⟨cell, ue, ev, rfl⟩) rfl ht
  | handleCrntiCe call ue =>
    simp only [RlfDetector.step] at ht
    split_ifs at ht
    refine h.startCall (.inr (.inr fun op hop => ?_)) rfl ht
    simp only [List.mem_cons, List.not_mem_nil, or_false] at hop
    rcases hop with rfl | rfl | rfl | rfl
    · exact .inl ⟨ue, .ack, rfl⟩
    · exact .inl ⟨ue, .crc, rfl⟩
    · exact .inl ⟨ue, .csi, rfl⟩
    · exact .inr ⟨ue, rfl⟩
  | advanceCtrl => exact h.advanceCtrl hord ht
  | advance call full => exact h.advance hord ht
  | runTask =>
    simp only [RlfDetector.step] at ht
    split at ht
    · rename_i task tasks hidle htasks
      cases ht
      have hframe : ({ s with tasks }.execute task).calls = s.calls ∧ ({ s with tasks }.execute task).ctrl = s.ctrl ∧
          ({ s with tasks }.execute task).notifier = s.notifier ∧ ({ s with tasks }.execute task).kos = s.kos := by
        unfold RlfDetector.execute
        split
        · split <;> exact ⟨rfl, rfl, rfl, rfl⟩
        · exact ⟨rfl, rfl, rfl, rfl⟩
      obtain ⟨hcalls, hc, hnot, hkos⟩ := hframe
      refine ⟨h.core.execute (h.ctrl.ready hidle) htasks, ?_, ?_⟩
      · rw [hcalls]
        exact h.calls
      · rw [hc]
        exact h.ctrl.congr hnot fun _ _ => by rw [hkos]
    · cases ht

end RlfDetector

end Ocudu.Mac
