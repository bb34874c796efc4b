import Ocudu.Basic.Machine
import Ocudu.Rlc.StatusPdu

/-! The hand-over of the status report in `rlc_rx_am_entity`: three buffers rotate through one
atomic pointer between the writer (the handlers of data PDUs and of timers) and the reader
(`pull_pdu` of the TX entity), while the request flag is an atomic of its own. -/

namespace Ocudu.Rlc

open Machine

structure Report where
  pdu : RlcAmStatusPdu
  build : Nat

inductive WriterPc
  | idle
  | built (requested : Bool)
  | exchanged (requested : Bool) (latestStatusReportSize : Nat)
  | sized (requested : Bool)
  | notify
  | notifyRequired

/-- Where the reader stands; `setBy` is the refresh whose event set the flag it saw. -/
inductive ReaderPc
  | idle
  | observed (setBy : Nat)
  | required (setBy : Nat)
  | cleared (setBy : Nat)
  | prohibited (setBy : Nat)

structure ReportRead where
  setBy : Nat
  build : Nat

structure StatusHandover where
  tStatusProhibit : Nat
  statusBuf : Fin 3 → Report
  statusOwnedByWriter : Fin 3
  statusForExchange : Fin 3
  statusOwnedByReader : Fin 3
  statusReportSize : Nat
  doStatus : Bool
  statusProhibitTimerIsRunning : Bool
  writer : WriterPc
  reader : ReaderPc
  /-- History: refreshes so far, the refresh of the event that last set `do_status`, and the
  reports that the reader obtained, the latest first. -/
  builds : Nat
  setBy : Nat
  reads : List ReportRead

namespace StatusHandover

def new (snSize : RlcAmSnSize) (tStatusProhibit : Nat) : StatusHandover where
  tStatusProhibit := tStatusProhibit
  statusBuf := fun i => ⟨{ RlcAmStatusPdu.new snSize with
    ackSn := if i = 1 then 0 else invalidRlcSn }, 0⟩
  statusOwnedByWriter := 0
  statusForExchange := 1
  statusOwnedByReader := 2
  statusReportSize := (RlcAmStatusPdu.new snSize).getPackedSize
  doStatus := false
  statusProhibitTimerIsRunning := false
  writer := .idle
  reader := .idle
  builds := 0
  setBy := 0
  reads := []

inductive Step
  /-- `refresh_status_report` rebuilds the buffer that the writer owns. -/
  | refresh (pdu : RlcAmStatusPdu) (requested : Bool)
  | storeExchange
  | storeSize
  | setDoStatus
  | notifyLoadDoStatus
  | notifyLoadProhibit
  | prohibitExpired
  | loadDoStatus
  | loadProhibit
  /-- The grant is too small, or only the buffer state was asked for. -/
  | skip
  | clearDoStatus
  | startProhibit
  | readExchange
  | trim (maxPackedSize : Nat)

variable (s : StatusHandover)

def step : Step → Except Unit StatusHandover
  | .refresh pdu requested =>
    match s.writer with
    | .idle =>
      .ok { s with
        statusBuf := Function.update s.statusBuf s.statusOwnedByWriter ⟨pdu, s.builds + 1⟩
        builds := s.builds + 1
        writer := .built requested }
    | _ => .error ()
  | .storeExchange =>
    match s.writer with
    | .built requested =>
      .ok { s with
        statusOwnedByWriter := s.statusForExchange
        statusForExchange := s.statusOwnedByWriter
        writer := .exchanged requested (s.statusBuf s.statusOwnedByWriter).pdu.getPackedSize }
    | _ => .error ()
  | .storeSize =>
    match s.writer with
    | .exchanged requested size =>
      .ok { s with statusReportSize := size, writer := .sized requested }
    | _ => .error ()
  | .setDoStatus =>
    match s.writer with
    | .sized true => .ok { s with doStatus := true, setBy := s.builds, writer := .notify }
    | .sized false => .ok { s with writer := .notify }
    | _ => .error ()
  | .notifyLoadDoStatus =>
    match s.writer with
    | .notify => .ok { s with writer := if s.doStatus then .notifyRequired else .idle }
    | _ => .error ()
  | .notifyLoadProhibit =>
    match s.writer with
    | .notifyRequired => .ok { s with writer := .idle }
    | _ => .error ()
  | .prohibitExpired =>
    match s.writer with
    | .idle => .ok { s with statusProhibitTimerIsRunning := false, writer := .notify }
    | _ => .error ()
  | .loadDoStatus =>
    match s.reader with
    | .idle => .ok { s with reader := if s.doStatus then .observed s.setBy else .idle }
    | _ => .error ()
  | .loadProhibit =>
    match s.reader with
    | .observed setBy =>
      .ok { s with reader := if s.statusProhibitTimerIsRunning then .idle else .required setBy }
    | _ => .error ()
  | .skip =>
    match s.reader with
    | .required _ => .ok { s with reader := .idle }
    | _ => .error ()
  | .clearDoStatus =>
    match s.reader with
    | .required setBy => .ok { s with doStatus := false, reader := .cleared setBy }
    | _ => .error ()
  | .startProhibit =>
    match s.reader with
    | .cleared setBy =>
      .ok { s with
        statusProhibitTimerIsRunning := s.statusProhibitTimerIsRunning || decide (0 < s.tStatusProhibit)
        reader := .prohibited setBy }
    | _ => .error ()
  | .readExchange =>
    match s.reader with
    | .prohibited setBy =>
      .ok { s with
        statusOwnedByReader := s.statusForExchange
        statusForExchange := s.statusOwnedByReader
        reads := ⟨setBy, (s.statusBuf s.statusForExchange).build⟩ :: s.reads
        reader := .idle }
    | _ => .error ()
  | .trim maxPackedSize =>
    match s.reader with
    | .idle =>
      let owned := s.statusBuf s.statusOwnedByReader
      .ok { s with
        statusBuf := Function.update s.statusBuf s.statusOwnedByReader
          ⟨(owned.pdu.trim maxPackedSize).2, owned.build⟩ }
    | _ => .error ()

/-- The writer has published a requested report and not yet set the flag for it. -/
def Publishing : Prop :=
  match s.writer with
  | .exchanged true _ => True
  | .sized true => True
  | _ => False

/-- The refresh behind the flag that a reader in the middle of its call saw. -/
def awaited : Option Nat :=
  match s.reader with
  | .idle => none
  | .observed setBy | .required setBy | .cleared setBy | .prohibited setBy => some setBy

/-- The refresh that built the latest report the reader obtained. -/
def lastRead : Nat :=
  match s.reads with
  | [] => 0
  | r :: _ => r.build

/-- The reports obtained were built in order, each no earlier than the event behind the flag. -/
def NeverStale : Prop :=
  s.reads.Pairwise (fun later earlier => earlier.build ≤ later.build) ∧
    ∀ r ∈ s.reads, r.setBy ≤ r.build

/-- No request may be pending when the reader swaps its old buffer in: neither a flag set
again since the reader cleared it, nor a published report whose flag is still to be set. -/
def Quiet : Step → Prop
  | .readExchange => s.doStatus = false ∧ ¬ s.Publishing
  | _ => True

instance (s : StatusHandover) : Decidable s.Publishing :=
  match h : s.writer with
  | .exchanged true _ | .sized true => .isTrue (by simp [Publishing, h])
  | .idle | .built _ | .exchanged false _ | .sized false | .notify | .notifyRequired =>
    .isFalse (by simp [Publishing, h])

instance (s : StatusHandover) (e : Step) : Decidable (s.Quiet e) :=
  match e with
  | .readExchange => inferInstanceAs (Decidable (s.doStatus = false ∧ ¬ s.Publishing))
  | .refresh .. | .storeExchange | .storeSize | .setDoStatus | .notifyLoadDoStatus
  | .notifyLoadProhibit | .prohibitExpired | .loadDoStatus | .loadProhibit | .skip
  | .clearDoStatus | .startProhibit | .trim _ => .isTrue trivial

def exchangeBuild : Nat := (s.statusBuf s.statusForExchange).build

structure Inv (s : StatusHandover) : Prop where
  writer_ne : s.statusOwnedByWriter ≠ s.statusForExchange
  reader_ne : s.statusOwnedByReader ≠ s.statusForExchange
  owners_ne : s.statusOwnedByWriter ≠ s.statusOwnedByReader
  build_le : ∀ i, (s.statusBuf i).build ≤ s.builds
  built : ∀ requested, s.writer = .built requested →
    (s.statusBuf s.statusOwnedByWriter).build = s.builds
  setBy_le : s.setBy ≤ s.builds
  lastRead_le : s.lastRead ≤ s.builds
  flag : s.doStatus = true → s.lastRead ≤ s.exchangeBuild ∧ s.setBy ≤ s.exchangeBuild
  publishing : s.Publishing → s.exchangeBuild = s.builds
  awaited_le : ∀ k, s.awaited = some k → s.lastRead ≤ s.exchangeBuild ∧ k ≤ s.exchangeBuild
  stale : s.NeverStale

theorem new_inv (snSize : RlcAmSnSize) (t : Nat) : (new snSize t).Inv where
  writer_ne := by simp [new]
  reader_ne := by simp [new]
  owners_ne := by simp [new]
  build_le := by simp [new]
  built := by simp [new]
  setBy_le := by simp [new]
  lastRead_le := by simp [new, lastRead]
  flag := by simp [new]
  publishing := by simp [new, Publishing]
  awaited_le := by simp [new, awaited]
  stale := by simp [new, NeverStale]

theorem Inv.of_writer {s : StatusHandover} (h : s.Inv) (pc : WriterPc) (size : Nat)
    (prohibit : Bool) (hbuilt : ∀ r, pc ≠ .built r)
    (hpub : ({ s with writer := pc } : StatusHandover).Publishing → s.Publishing) :
    ({ s with writer := pc, statusReportSize := size,
              statusProhibitTimerIsRunning := prohibit } : StatusHandover).Inv where
  writer_ne := h.writer_ne
  reader_ne := h.reader_ne
  owners_ne := h.owners_ne
  build_le := h.build_le
  built := fun r hr => absurd hr (hbuilt r)
  setBy_le := h.setBy_le
  lastRead_le := h.lastRead_le
  flag := h.flag
  publishing := fun hp => h.publishing (hpub hp)
  awaited_le := h.awaited_le
  stale := h.stale

theorem Inv.of_reader {s : StatusHandover} (h : s.Inv) (pc : ReaderPc) (flag prohibit : Bool)
    (hflag : flag = true → s.doStatus = true)
    (hpc : ∀ k, ({ s with reader := pc } : StatusHandover).awaited = some k →
      s.lastRead ≤ s.exchangeBuild ∧ k ≤ s.exchangeBuild) :
    ({ s with reader := pc, doStatus := flag,
              statusProhibitTimerIsRunning := prohibit } : StatusHandover).Inv where
  writer_ne := h.writer_ne
  reader_ne := h.reader_ne
  owners_ne := h.owners_ne
  build_le := h.build_le
  built := h.built
  setBy_le := h.setBy_le
  lastRead_le := h.lastRead_le
  flag := fun hf => h.flag (hflag hf)
  publishing := h.publishing
  awaited_le := hpc
  stale := h.stale

theorem Inv.storeExchange {s : StatusHandover} (h : s.Inv) {requested : Bool}
    (hw : s.writer = .built requested) (size : Nat) :
    ({ s with statusOwnedByWriter := s.statusForExchange
              statusForExchange := s.statusOwnedByWriter
              writer := .exchanged requested size } : StatusHandover).Inv := by
  have hbuilt := h.built requested hw
  refine ⟨h.writer_ne.symm, h.owners_ne.symm, h.reader_ne.symm, h.build_le, ?_, h.setBy_le,
    h.lastRead_le, ?_, ?_, ?_, h.stale⟩
  · intro r hr
    cases hr
  · intro _
    simp only [exchangeBuild, hbuilt]
    exact ⟨h.lastRead_le, h.setBy_le⟩
  · intro _
    exact hbuilt
  · intro k hk
    have hk' := (h.awaited_le k hk).2
    have hle := h.build_le s.statusForExchange
    simp only [exchangeBuild, hbuilt] at hk' ⊢
    exact ⟨h.lastRead_le, by omega⟩

theorem Inv.refresh {s : StatusHandover} (h : s.Inv) (pdu : RlcAmStatusPdu) (requested : Bool) :
    ({ s with statusBuf := Function.update s.statusBuf s.statusOwnedByWriter ⟨pdu, s.builds + 1⟩
              builds := s.builds + 1
              writer := .built requested } : StatusHandover).Inv := by
  have hslot : Function.update s.statusBuf s.statusOwnedByWriter ⟨pdu, s.builds + 1⟩
      s.statusForExchange = s.statusBuf s.statusForExchange :=
    Function.update_of_ne h.writer_ne.symm _ _
  have hl := h.lastRead_le
  have hs := h.setBy_le
  refine ⟨h.writer_ne, h.reader_ne, h.owners_ne, ?_, ?_, Nat.le_succ_of_le hs,
    Nat.le_succ_of_le hl, ?_, ?_, ?_, h.stale⟩
  · intro i
    by_cases hi : i = s.statusOwnedByWriter
    · simp [hi]
    · simp only [Function.update_of_ne hi]
      exact Nat.le_succ_of_le (h.build_le i)
  · intro r _
    simp
  · intro hf
    simp only [exchangeBuild, hslot]
    exact h.flag hf
  · intro hp
    cases hp
  · intro k hk
    simp only [exchangeBuild, hslot]
    exact h.awaited_le k hk

theorem Inv.setDoStatus {s : StatusHandover} (h : s.Inv) (hw : s.writer = .sized true) :
    ({ s with doStatus := true, setBy := s.builds, writer := .notify } : StatusHandover).Inv := by
  have hpub := h.publishing (by simp [Publishing, hw])
  refine ⟨h.writer_ne, h.reader_ne, h.owners_ne, h.build_le, ?_, Nat.le_refl _, h.lastRead_le,
    ?_, ?_, h.awaited_le, h.stale⟩
  · intro r hr
    cases hr
  · intro _
    have hl := h.lastRead_le
    simp only [exchangeBuild, lastRead] at hpub hl ⊢
    omega
  · intro hp
    cases hp

theorem Inv.readExchange {s : StatusHandover} (h : s.Inv) {setBy : Nat}
    (hr : s.reader = .prohibited setBy) (hq : s.Quiet .readExchange) :
    ({ s with statusOwnedByReader := s.statusForExchange
              statusForExchange := s.statusOwnedByReader
              reads := ⟨setBy, (s.statusBuf s.statusForExchange).build⟩ :: s.reads
              reader := .idle } : StatusHandover).Inv := by
  obtain ⟨hflag, hpub⟩ := hq
  obtain ⟨hlast, hset⟩ := h.awaited_le setBy (by simp [awaited, hr])
  refine ⟨h.owners_ne, h.reader_ne.symm, h.writer_ne, h.build_le, h.built, h.setBy_le,
    h.build_le _, ?_, ?_, ?_, ?_, ?_⟩
  · intro hf
    exact absurd hf (by simp [hflag])
  · intro hp
    exact absurd hp hpub
  · intro k hk
    cases hk
  · refine List.Pairwise.cons ?_ h.stale.1
    intro earlier hm
    refine Nat.le_trans ?_ hlast
    -- the head of the history is its maximum
    have hpair := h.stale.1
    unfold lastRead
    cases hreads : s.reads with
    | nil => rw [hreads] at hm; cases hm
    | cons r rest =>
      rw [hreads] at hm hpair
      rcases List.mem_cons.mp hm with rfl | hrest
      · exact Nat.le_refl _
      · exact List.rel_of_pairwise_cons hpair hrest
  · intro r hm
    rcases List.mem_cons.mp hm with rfl | hrest
    · exact hset
    · exact h.stale.2 r hrest

theorem Inv.trim {s : StatusHandover} (h : s.Inv) (pdu : RlcAmStatusPdu) :
    ({ s with statusBuf := Function.update s.statusBuf s.statusOwnedByReader
                ⟨pdu, (s.statusBuf s.statusOwnedByReader).build⟩ } : StatusHandover).Inv := by
  have hbuild : ∀ i, (Function.update s.statusBuf s.statusOwnedByReader
      ⟨pdu, (s.statusBuf s.statusOwnedByReader).build⟩ i).build = (s.statusBuf i).build := by
    intro i
    by_cases hi : i = s.statusOwnedByReader
    · simp [hi]
    · simp [Function.update_of_ne hi]
  refine ⟨h.writer_ne, h.reader_ne, h.owners_ne, ?_, ?_, h.setBy_le, h.lastRead_le, ?_, ?_, ?_,
    h.stale⟩
  · intro i
    rw [hbuild]
    exact h.build_le i
  · intro r hr
    rw [hbuild]
    exact h.built r hr
  · intro hf
    simp only [exchangeBuild, hbuild]
    exact h.flag hf
  · intro hp
    simp only [exchangeBuild, hbuild]
    exact h.publishing hp
  · intro k hk
    simp only [exchangeBuild, hbuild]
    exact h.awaited_le k hk

theorem step_inv {s s' : StatusHandover} (e : Step) (h : s.Inv) (hq : s.Quiet e)
    (hs : s.step e = .ok s') : s'.Inv := by
  cases e with
  | refresh pdu requested =>
    simp only [step] at hs
    split at hs <;> cases hs
    exact h.refresh pdu requested
  | storeExchange =>
    simp only [step] at hs
    split at hs <;> cases hs
    rename_i hw
    exact h.storeExchange hw _
  | storeSize =>
    simp only [step] at hs
    split at hs <;> cases hs
    rename_i requested size hw
    refine h.of_writer (.sized requested) size s.statusProhibitTimerIsRunning (by simp) ?_
    cases requested <;> simp [Publishing, hw]
  | setDoStatus =>
    simp only [step] at hs
    split at hs <;> cases hs
    · rename_i hw
      exact h.setDoStatus hw
    · exact h.of_writer .notify s.statusReportSize s.statusProhibitTimerIsRunning (by simp)
        (by simp [Publishing])
  | notifyLoadDoStatus =>
    simp only [step] at hs
    split at hs <;> cases hs
    exact h.of_writer (if s.doStatus then .notifyRequired else .idle) s.statusReportSize
      s.statusProhibitTimerIsRunning (by cases s.doStatus <;> simp)
      (by cases s.doStatus <;> simp [Publishing])
  | notifyLoadProhibit =>
    simp only [step] at hs
    split at hs <;> cases hs
    exact h.of_writer .idle s.statusReportSize s.statusProhibitTimerIsRunning (by simp)
      (by simp [Publishing])
  | prohibitExpired =>
    simp only [step] at hs
    split at hs <;> cases hs
    exact h.of_writer .notify s.statusReportSize false (by simp) (by simp [Publishing])
  | loadDoStatus =>
    simp only [step] at hs
    split at hs <;> cases hs
    refine h.of_reader (if s.doStatus then .observed s.setBy else .idle) s.doStatus
      s.statusProhibitTimerIsRunning id ?_
    intro k hk
    cases hd : s.doStatus with
    | false => simp [awaited, hd] at hk
    | true =>
      simp only [awaited, hd, if_true, Option.some.injEq] at hk
      subst hk
      exact h.flag hd
  | loadProhibit =>
    simp only [step] at hs
    split at hs <;> cases hs
    rename_i setBy hr
    refine h.of_reader (if s.statusProhibitTimerIsRunning then .idle else .required setBy)
      s.doStatus s.statusProhibitTimerIsRunning id ?_
    intro k hk
    cases hp : s.statusProhibitTimerIsRunning with
    | true => simp [awaited, hp] at hk
    | false => exact h.awaited_le k (by simpa [awaited, hp, hr] using hk)
  | skip =>
    simp only [step] at hs
    split at hs <;> cases hs
    exact h.of_reader .idle s.doStatus s.statusProhibitTimerIsRunning id (by simp [awaited])
  | clearDoStatus =>
    simp only [step] at hs
    split at hs <;> cases hs
    rename_i setBy hr
    refine h.of_reader (.cleared setBy) false s.statusProhibitTimerIsRunning (by simp) ?_
    intro k hk
    exact h.awaited_le k (by simpa [awaited, hr] using hk)
  | startProhibit =>
    simp only [step] at hs
    split at hs <;> cases hs
    rename_i setBy hr
    refine h.of_reader (.prohibited setBy) s.doStatus _ id ?_
    intro k hk
    exact h.awaited_le k (by simpa [awaited, hr] using hk)
  | readExchange =>
    simp only [step] at hs
    split at hs <;> cases hs
    rename_i hr
    exact h.readExchange hr hq
  | trim maxPackedSize =>
    simp only [step] at hs
    split at hs <;> cases hs
    exact h.trim _

/-- In every interleaving in which no request is pending at the reader's exchanges, no report
the reader obtains is stale. -/
theorem handover_never_stale (snSize : RlcAmSnSize) (t : Nat) (es : List Step)
    (hquiet : Admits step Quiet (new snSize t) es) {s : StatusHandover}
    (hrun : run step (new snSize t) es = .ok s) : s.NeverStale :=
  (run_invariant Inv (fun _ e _ h hq hs => step_inv e h hq hs) (new_inv snSize t) hquiet hrun).stale

def publish (pdu : RlcAmStatusPdu) : List Step :=
  [.refresh pdu true, .storeExchange, .storeSize, .setDoStatus, .notifyLoadDoStatus,
    .notifyLoadProhibit]

def fetch : List Step := [.loadDoStatus, .loadProhibit, .clearDoStatus, .startProhibit]

theorem handover_never_stale_twice :
    ∃ s, run step (new .size12bits 0) (publish (.new .size12bits) ++ fetch ++ [.readExchange] ++
        publish (.new .size12bits) ++ fetch ++ [.readExchange]) = .ok s ∧
      s.reads = [⟨2, 2⟩, ⟨1, 1⟩] ∧ s.NeverStale := by
  refine ⟨_, rfl, rfl, ?_⟩
  refine handover_never_stale .size12bits 0 (publish (.new .size12bits) ++ fetch ++
    [.readExchange] ++ publish (.new .size12bits) ++ fetch ++ [.readExchange]) (by decide) rfl

/-- A second report is published between the reader's clear of the flag and its exchange: the
flag stays set while the exchange slot holds the reader's old buffer, which the next call
obtains. -/
theorem refresh_before_exchange_stale :
    ¬ ∀ (snSize : RlcAmSnSize) (t : Nat) (es : List Step) (s : StatusHandover),
      run step (new snSize t) es = .ok s → s.NeverStale := by
  intro h
  have hs := h .size12bits 0 (publish (.new .size12bits) ++ fetch ++
    publish (.new .size12bits) ++ [.readExchange] ++ fetch ++ [.readExchange]) _ rfl
  have hread := hs.2 ⟨2, 0⟩ (by simp [new])
  simp at hread

end StatusHandover

end Ocudu.Rlc
