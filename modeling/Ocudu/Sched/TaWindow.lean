import Ocudu.Sched.TaWheel

/-! The measurement windows: when a command is issued, and from which samples. -/

namespace Ocudu.Sched

open Ocudu.LinkedList

namespace TaSample

def sum (samples : List TaSample) : Int := (samples.map (·.nTaDiff)).sum

def average (samples : List TaSample) : Int := (sum samples).tdiv samples.length

end TaSample

def TaCommand.window (c : TaCommand) (start : Nat) : List TaSample :=
  c.accepted.filter fun x => x.tagId == c.tagId && decide (start ≤ x.slot)

def TaCommand.Sound (cfg : TaConfig) (c : TaCommand) : Prop :=
  ∃ start ∈ c.windowSlot, (∃ x ∈ c.accepted, x.slot = start) ∧
    c.slot + 1 = start + cfg.measurementPeriod ∧ c.window start ≠ [] ∧
    c.taCmd = (max 0 (cfg.computeNewTA (TaSample.average (c.window start)) c.ulScs)).toNat ∧
    c.taCmd ≤ 63

def UeTaRow.window (row : UeTaRow) : List TaSample :=
  row.accepted.filter fun x => row.windowSlot.any (· ≤ x.slot)

namespace TagMeasurement

def Counts (samples : List TaSample) : List TagMeasurement → Prop
  | [] => True
  | m :: ms =>
    m.windowCountSamples = (samples.filter (·.tagId == m.tagId)).length ∧
    m.windowSumSamples = TaSample.sum (samples.filter (·.tagId == m.tagId)) ∧
    Counts (samples.filter (·.tagId != m.tagId)) ms

theorem Counts.updateFirst {cfg : TaConfig} {ulScs : Nat} {samples : List TaSample} {ms : List TagMeasurement}
    (h : Counts samples ms) (x : TaSample) : Counts (x :: samples)
      (updateFirst x.tagId (handleSample cfg ulScs x.nTaDiff) ms) := by
  induction ms generalizing samples with
  | nil => trivial
  | cons m ms ih =>
    obtain ⟨hcount, hsum, htail⟩ := h
    by_cases htag : m.tagId = x.tagId
    · rw [TagMeasurement.updateFirst, if_pos htag]
      refine ⟨?_, ?_, ?_⟩
      · simp [handleSample, addSample, htag, hcount]
      · simp [handleSample, addSample, htag, hsum, TaSample.sum, add_comm]
      · simpa [handleSample, addSample, htag] using htail
    · rw [TagMeasurement.updateFirst, if_neg htag]
      have htag' : ¬x.tagId = m.tagId := fun h => htag h.symm
      refine ⟨?_, ?_, ?_⟩
      · simp [htag', hcount]
      · simp [htag', hsum]
      · simpa [htag'] using ih htail

theorem Counts.of_ne_zero {samples : List TaSample} {ms : List TagMeasurement} (h : Counts samples ms)
    {m : TagMeasurement} (hm : m ∈ ms) (hne : m.windowCountSamples ≠ 0) :
    m.windowCountSamples = (samples.filter (·.tagId == m.tagId)).length ∧
      m.windowSumSamples = TaSample.sum (samples.filter (·.tagId == m.tagId)) := by
  induction ms generalizing samples with
  | nil => cases hm
  | cons m' ms ih =>
    obtain ⟨hcount, hsum, htail⟩ := h
    rcases List.mem_cons.mp hm with rfl | hm
    · exact ⟨hcount, hsum⟩
    obtain ⟨hcount', hsum'⟩ := ih htail hm
    rw [List.filter_filter] at hcount' hsum'
    by_cases htag : m.tagId = m'.tagId
    · refine absurd ?_ hne
      rw [hcount', htag]
      simp
    · have hfilter : samples.filter (fun x => x.tagId == m.tagId && x.tagId != m'.tagId) =
          samples.filter (·.tagId == m.tagId) := by
        refine List.filter_congr fun x _ => ?_
        by_cases hx : x.tagId = m.tagId
        · simp [hx, htag]
        · simp [hx]
      rw [hfilter] at hcount' hsum'
      exact ⟨hcount', hsum'⟩

theorem counts_nil {ms : List TagMeasurement}
    (h : ∀ m ∈ ms, m.windowCountSamples = 0 ∧ m.windowSumSamples = 0) : Counts [] ms := by
  induction ms with
  | nil => trivial
  | cons m ms ih =>
    obtain ⟨hcount, hsum⟩ := h m List.mem_cons_self
    exact ⟨hcount, hsum, ih fun m' hm' => h m' (List.mem_cons_of_mem _ hm')⟩

theorem Counts.map_first {samples : List TaSample} {ms : List TagMeasurement} (h : Counts samples ms)
    (tagId : Nat) {f : TagMeasurement → TagMeasurement} (htag : ∀ m, (f m).tagId = m.tagId)
    (hcount : ∀ m, (f m).windowCountSamples = m.windowCountSamples)
    (hsum : ∀ m, (f m).windowSumSamples = m.windowSumSamples) :
    Counts samples (TagMeasurement.updateFirst tagId f ms) := by
  induction ms generalizing samples with
  | nil => trivial
  | cons m ms ih =>
    rw [TagMeasurement.updateFirst]
    split
    · refine ⟨?_, ?_, ?_⟩
      · rw [hcount, htag]
        exact h.1
      · rw [hsum, htag]
        exact h.2.1
      · rw [htag]
        exact h.2.2
    · exact ⟨h.1, h.2.1, ih h.2.2⟩

theorem mem_updateFirst {tagId : Nat} {f : TagMeasurement → TagMeasurement} {ms : List TagMeasurement}
    {m' : TagMeasurement} (hm' : m' ∈ updateFirst tagId f ms) :
    m' ∈ ms ∨ ∃ m, ms.find? (·.tagId == tagId) = some m ∧ m' = f m := by
  induction ms with
  | nil => cases hm'
  | cons m ms ih =>
    rw [updateFirst] at hm'
    split at hm'
    · rename_i htag
      rcases List.mem_cons.mp hm' with rfl | hm'
      · exact .inr ⟨m, by simp [htag], rfl⟩
      · exact .inl (List.mem_cons_of_mem _ hm')
    · rename_i htag
      rcases List.mem_cons.mp hm' with rfl | hm'
      · exact .inl List.mem_cons_self
      · rcases ih hm' with hmem | ⟨m₁, hfind, rfl⟩
        · exact .inl (List.mem_cons_of_mem _ hmem)
        · exact .inr ⟨m₁, by simp [htag, hfind], rfl⟩

theorem mem_resetTags {tagIds : List Nat} {ms : List TagMeasurement} {m : TagMeasurement}
    (hm : m ∈ resetTags ms tagIds) : ∃ tagId start, m = fresh tagId start := by
  induction tagIds generalizing ms with
  | nil =>
    rw [resetTags] at hm
    cases hm
  | cons tagId tagIds ih =>
    cases ms with
    | nil =>
      rw [resetTags] at hm
      rcases List.mem_cons.mp hm with rfl | hm
      · exact ⟨_, _, rfl⟩
      · exact ih hm
    | cons m₁ ms =>
      rw [resetTags] at hm
      rcases List.mem_cons.mp hm with rfl | hm
      · exact ⟨_, _, rfl⟩
      · exact ih hm

theorem counts_resetTags (ms : List TagMeasurement) (tagIds : List Nat) : Counts [] (resetTags ms tagIds) := by
  refine counts_nil fun m hm => ?_
  obtain ⟨tagId, start, rfl⟩ := mem_resetTags hm
  exact ⟨rfl, rfl⟩

theorem close_windowCountSamples (m : TagMeasurement) (cfg : TaConfig) (index : Nat) :
    (m.close cfg index).windowCountSamples = 0 := by
  unfold close
  split
  · assumption
  · rfl

theorem Counts.close {samples : List TaSample} {ms : List TagMeasurement} (h : Counts samples ms)
    (cfg : TaConfig) (index : Nat) : Counts [] (ms.map (·.close cfg index)) := by
  induction ms generalizing samples with
  | nil => trivial
  | cons m ms ih =>
    obtain ⟨hcount, hsum, htail⟩ := h
    by_cases hzero : m.windowCountSamples = 0
    · have hnil : samples.filter (·.tagId == m.tagId) = [] := by
        rw [← List.length_eq_zero_iff, ← hcount, hzero]
      rw [hnil] at hsum
      have hclose : m.close cfg index = m := by simp [TagMeasurement.close, hzero]
      rw [List.map_cons, hclose]
      exact ⟨hzero, hsum, ih htail⟩
    · rw [List.map_cons, TagMeasurement.close, if_neg hzero]
      exact ⟨rfl, rfl, ih htail⟩

end TagMeasurement

def lastIndex (slots : Nat) : Nat := (slots + 2 ^ 32 - 1) % 2 ^ 32

namespace TaConfig

def Awaits (cfg : TaConfig) (index offset d : Nat) : Prop :=
  (index + d) % cfg.wheelSize = offset % cfg.wheelSize ∧ (cfg.wheelSize ∣ 2 ^ 32 ∨ index + d < 2 ^ 32)

variable {cfg : TaConfig} {index offset d : Nat}

theorem Awaits.tick (h : cfg.Awaits index offset (d + 1)) (hindex : index < 2 ^ 32) :
    cfg.Awaits ((index + 1) % 2 ^ 32) offset d := by
  obtain ⟨hpos, hdvd | hlt⟩ := h
  · refine ⟨?_, .inl hdvd⟩
    have hmod : (index + 1) % 2 ^ 32 + d ≡ index + 1 + d [MOD cfg.wheelSize] :=
      ((Nat.mod_modEq _ _).of_dvd hdvd).add_right d
    rw [hmod, ← hpos]
    congr 1
    omega
  · have hmod : (index + 1) % 2 ^ 32 = index + 1 := Nat.mod_eq_of_lt (by omega)
    rw [Awaits, hmod, ← hpos]
    have hadd : index + 1 + d = index + (d + 1) := by omega
    rw [hadd]
    exact ⟨rfl, .inr hlt⟩

theorem Awaits.eq_zero (h : cfg.Awaits index offset d) (hd : d < cfg.wheelSize)
    (hpos : offset % cfg.wheelSize = index % cfg.wheelSize) : d = 0 := by
  have hmod : index + d ≡ index + 0 [MOD cfg.wheelSize] := h.1.trans hpos
  exact Nat.ModEq.eq_of_lt_of_lt (Nat.ModEq.add_left_cancel' index hmod) hd (by omega)

theorem Awaits.pos_eq (h : cfg.Awaits index offset 0) : offset % cfg.wheelSize = index % cfg.wheelSize :=
  h.1.symm

theorem awaits_windowEnd {slots start : Nat} (hstart : start ≤ slots)
    (hopen : slots < start + cfg.measurementPeriod) (hperiod : cfg.measurementPeriod + 4 < 2 ^ 32)
    (hoffset : slots % 2 ^ 32 ≤ (lastIndex start + cfg.measurementPeriod) % 2 ^ 32 ∨
      cfg.wheelSize ∣ 2 ^ 32) :
    cfg.Awaits (slots % 2 ^ 32) ((lastIndex start + cfg.measurementPeriod) % 2 ^ 32)
      (start + cfg.measurementPeriod - 1 - slots) := by
  have hmod : slots % 2 ^ 32 + (start + cfg.measurementPeriod - 1 - slots) ≡
      (lastIndex start + cfg.measurementPeriod) % 2 ^ 32 [MOD 2 ^ 32] := by
    unfold Nat.ModEq lastIndex
    omega
  rcases hoffset with hle | hdvd
  · have hlt : slots % 2 ^ 32 + (start + cfg.measurementPeriod - 1 - slots) < 2 ^ 32 := by
      unfold Nat.ModEq at hmod
      omega
    refine ⟨?_, .inr hlt⟩
    rw [Nat.ModEq.eq_of_lt_of_lt hmod hlt (Nat.mod_lt _ (by norm_num))]
  · exact ⟨hmod.of_dvd hdvd, .inl hdvd⟩

end TaConfig

structure UeTaRow.Ok (cfg : TaConfig) (slots : Nat) (row : UeTaRow) : Prop where
  past : ∀ x ∈ row.accepted, x.slot ≤ slots
  closed : row.windowSlot = none → row.node.measStartTime = none ∧ row.node.wheelMeasPos = none ∧
    ∀ x ∈ row.accepted, x.slot < slots
  opened : ∀ start ∈ row.windowSlot, start ≤ slots ∧ (∃ x ∈ row.accepted, x.slot = start) ∧
    row.node.measStartTime = some (lastIndex start)
  counts : TagMeasurement.Counts row.window row.nTaReports
  lastTA : ∀ m ∈ row.nTaReports, m.windowCountSamples ≠ 0 →
    m.lastTA = cfg.computeNewTA m.avgNTaDifference row.ulScs ∧ m.lastTA ≤ 63
  pending : ∀ offset ∈ row.node.wheelMeasPos, ∃ start ∈ row.windowSlot, ∃ d,
    d + slots + 1 = start + cfg.measurementPeriod ∧ d < cfg.wheelSize ∧
    cfg.Awaits (slots % 2 ^ 32) offset d

namespace UeTaRow.Ok

variable {cfg : TaConfig} {slots : Nat} {row : UeTaRow}

theorem fresh (cfg : TaConfig) (slots ulScs : Nat) (ms : List TagMeasurement) (tagIds : List Nat) :
    Ok cfg slots ⟨ulScs, TagMeasurement.resetTags ms tagIds, {}, none, []⟩ where
  past := by simp
  closed := by simp
  opened start hstart := by cases hstart
  counts := TagMeasurement.counts_resetTags ms tagIds
  lastTA m hm hne := by
    obtain ⟨tagId, start, rfl⟩ := TagMeasurement.mem_resetTags hm
    exact absurd rfl hne
  pending := by simp

theorem window_of_closed (hclosed : row.windowSlot = none) : row.window = [] := by
  simp [UeTaRow.window, hclosed]

section

variable (h : row.Ok cfg slots)
include h

theorem resetTags (hclosed : row.windowSlot = none) (tagIds : List Nat) :
    Ok cfg slots { row with nTaReports := TagMeasurement.resetTags row.nTaReports tagIds } where
  past := h.past
  closed := h.closed
  opened := h.opened
  counts := by
    have hnil : UeTaRow.window { row with nTaReports := TagMeasurement.resetTags row.nTaReports tagIds } = [] :=
      window_of_closed hclosed
    rw [hnil]
    exact TagMeasurement.counts_resetTags _ tagIds
  lastTA m hm hne := by
    obtain ⟨tagId, start, rfl⟩ := TagMeasurement.mem_resetTags hm
    exact absurd rfl hne
  pending := h.pending

theorem link (link : Option Nat) :
    Ok cfg slots { row with node := { row.node with next := link } } :=
  ⟨h.past, h.closed, h.opened, h.counts, h.lastTA, h.pending⟩

theorem tick (hpos : ∀ offset ∈ row.node.wheelMeasPos, offset % cfg.wheelSize ≠ slots % 2 ^ 32 % cfg.wheelSize) :
    row.Ok cfg (slots + 1) where
  past x hx := (h.past x hx).trans (Nat.le_succ slots)
  closed hnone := by
    obtain ⟨hmeas, hwheel, -⟩ := h.closed hnone
    exact ⟨hmeas, hwheel, fun x hx => Nat.lt_succ_of_le (h.past x hx)⟩
  opened start hstart := by
    obtain ⟨hle, hrest⟩ := h.opened start hstart
    exact ⟨hle.trans (Nat.le_succ slots), hrest⟩
  counts := h.counts
  lastTA := h.lastTA
  pending offset hoffset := by
    obtain ⟨start, hstart, d, hd, hlt, hawait⟩ := h.pending offset hoffset
    cases d with
    | zero => exact absurd hawait.pos_eq (hpos offset hoffset)
    | succ d =>
      refine ⟨start, hstart, d, by omega, by omega, ?_⟩
      have htick := hawait.tick (Nat.mod_lt _ (by norm_num))
      rwa [Nat.mod_add_mod] at htick

theorem closeWindow (index : Nat) : Ok cfg (slots + 1)
    { row with
      nTaReports := row.nTaReports.map (·.close cfg index)
      node := {}
      windowSlot := none } where
  past x hx := (h.past x hx).trans (Nat.le_succ slots)
  closed _ := ⟨rfl, rfl, fun x hx => Nat.lt_succ_of_le (h.past x hx)⟩
  opened start hstart := by cases hstart
  counts := by
    have hnil : ∀ ms node, UeTaRow.window { row with nTaReports := ms, node := node, windowSlot := none } = [] :=
      fun _ _ => window_of_closed rfl
    rw [hnil]
    exact h.counts.close cfg index
  lastTA m hm hne := by
    obtain ⟨m', -, rfl⟩ := List.mem_map.mp hm
    exact absurd (m'.close_windowCountSamples cfg index) hne
  pending := by simp

theorem clearForbidden (tagId : Nat) : Ok cfg slots { row with
    nTaReports := TagMeasurement.updateFirst tagId (fun m => { m with forbidPeriodStart := none })
      row.nTaReports } where
  past := h.past
  closed := h.closed
  opened := h.opened
  counts := h.counts.map_first tagId (fun _ => rfl) (fun _ => rfl) fun _ => rfl
  lastTA m hm hne := by
    rcases TagMeasurement.mem_updateFirst hm with hm | ⟨m₁, hfind, rfl⟩
    · exact h.lastTA m hm hne
    · exact h.lastTA m₁ (List.mem_of_find?_eq_some hfind) hne
  pending := h.pending

theorem join {start offset : Nat} (hstart : row.windowSlot = some start)
    (hopen : slots < start + cfg.measurementPeriod) (hsize : cfg.measurementPeriod < cfg.wheelSize)
    (hawait : cfg.Awaits (slots % 2 ^ 32) offset (start + cfg.measurementPeriod - 1 - slots)) (link : Option Nat) :
    Ok cfg slots { row with node := { row.node with wheelMeasPos := some offset, next := link } } where
  past := h.past
  closed hnone := by
    rw [hstart] at hnone
    cases hnone
  opened := h.opened
  counts := h.counts
  lastTA := h.lastTA
  pending o ho := by
    cases ho
    have hle := (h.opened start hstart).1
    exact ⟨start, hstart, _, by omega, by omega, hawait⟩

theorem commands {offset : Nat} (hoffset : row.node.wheelMeasPos = some offset)
    (hpos : offset % cfg.wheelSize = slots % 2 ^ 32 % cfg.wheelSize) {m : TagMeasurement}
    (hm : m ∈ row.nTaReports) (hne : m.windowCountSamples ≠ 0) (ueId : Nat) :
    TaCommand.Sound cfg ⟨ueId, row.ulScs, m.tagId, (max 0 m.lastTA).toNat, slots, row.windowSlot, row.accepted⟩ := by
  obtain ⟨start, hstart, d, hd, hlt, hawait⟩ := h.pending offset hoffset
  obtain rfl := hawait.eq_zero hlt hpos
  obtain ⟨-, hfirst, -⟩ := h.opened start hstart
  obtain ⟨hcount, hsum⟩ := h.counts.of_ne_zero hm hne
  obtain ⟨hlast, hle⟩ := h.lastTA m hm hne
  have hwindow : row.window.filter (·.tagId == m.tagId) =
      TaCommand.window ⟨ueId, row.ulScs, m.tagId, (max 0 m.lastTA).toNat, slots, row.windowSlot, row.accepted⟩
        start := by
    rw [UeTaRow.window, List.filter_filter, Option.mem_def.mp hstart]
    rfl
  rw [hwindow] at hcount hsum
  refine ⟨start, hstart, hfirst, by dsimp only; omega, ?_, ?_, ?_⟩
  · intro hnil
    rw [hnil] at hcount
    exact hne hcount
  · have havg : m.avgNTaDifference = TaSample.average (TaCommand.window
        ⟨ueId, row.ulScs, m.tagId, (max 0 m.lastTA).toNat, slots, row.windowSlot, row.accepted⟩ start) := by
      rw [TagMeasurement.avgNTaDifference, if_pos (Nat.pos_of_ne_zero hne), hsum, hcount]
      rfl
    rw [← havg, ← hlast]
  · dsimp only
    omega

end

end UeTaRow.Ok

namespace TaManagementSystem

variable {s s' : TaManagementSystem}

theorem measStartTime_eq {ueId : Nat} (h : (s.rows ueId).Ok s.cfg s.slots)
    (hindex : s.nextWheelIndex = s.slots % 2 ^ 32) :
    s.measStartTime ueId = lastIndex ((s.rows ueId).windowSlot.getD s.slots) := by
  unfold measStartTime
  cases hslot : (s.rows ueId).windowSlot with
  | none =>
    rw [(h.closed hslot).1, hindex, Option.getD_none, Option.getD_none, lastIndex]
    lia
  | some start => rw [(h.opened start hslot).2.2, Option.getD_some, Option.getD_some]

theorem sampledRow_window {ueId tagId : Nat} {nTaDiff : Int} (h : (s.rows ueId).Ok s.cfg s.slots) :
    (s.sampledRow ueId tagId nTaDiff).window = ⟨tagId, nTaDiff, s.slots⟩ :: (s.rows ueId).window := by
  cases hslot : (s.rows ueId).windowSlot with
  | none =>
    rw [UeTaRow.Ok.window_of_closed hslot]
    have hold : (s.rows ueId).accepted.filter (fun x => decide (s.slots ≤ x.slot)) = [] := by
      rw [List.filter_eq_nil_iff]
      intro x hx
      have hlt := (h.closed hslot).2.2 x hx
      simpa using hlt
    simp [UeTaRow.window, sampledRow, hslot, hold]
  | some start =>
    have hle := (h.opened start hslot).1
    simp [UeTaRow.window, sampledRow, hslot, hle]

theorem sampledRow_ok {ueId tagId : Nat} {nTaDiff : Int} (h : (s.rows ueId).Ok s.cfg s.slots)
    (hindex : s.nextWheelIndex = s.slots % 2 ^ 32)
    (hTA : ∀ m ∈ (s.rows ueId).nTaReports.find? (·.tagId == tagId),
      s.cfg.InRange (m.addSample nTaDiff).avgNTaDifference (s.rows ueId).ulScs) :
    (s.sampledRow ueId tagId nTaDiff).Ok s.cfg s.slots where
  past x hx := by
    rcases List.mem_cons.mp hx with rfl | hx
    · exact le_rfl
    · exact h.past x hx
  closed hnone := by cases hnone
  opened start hstart := by
    cases hstart
    refine ⟨?_, ?_, ?_⟩
    · cases hslot : (s.rows ueId).windowSlot with
      | none => exact le_rfl
      | some start => exact (h.opened start hslot).1
    · cases hslot : (s.rows ueId).windowSlot with
      | none => exact ⟨_, List.mem_cons_self, rfl⟩
      | some start =>
        obtain ⟨x, hx, hxslot⟩ := (h.opened start hslot).2.1
        exact ⟨x, List.mem_cons_of_mem _ hx, hxslot⟩
    · exact congrArg some (measStartTime_eq h hindex)
  counts := by
    rw [sampledRow_window h]
    exact h.counts.updateFirst ⟨tagId, nTaDiff, s.slots⟩
  lastTA m hm hne := by
    rcases TagMeasurement.mem_updateFirst hm with hm | ⟨m₁, hfind, rfl⟩
    · exact h.lastTA m hm hne
    · exact ⟨rfl, s.cfg.computeNewTA_le (hTA m₁ hfind)⟩
  pending offset hoffset := by
    obtain ⟨start, hstart, d, hd, hlt, hawait⟩ := h.pending offset hoffset
    refine ⟨start, ?_, d, hd, hlt, hawait⟩
    simp [sampledRow, Option.mem_def.mp hstart]

/-- A sample is accepted only before the end of the window that is open, the index does not wrap around
before it unless that keeps the positions of the wheel, the timing advance is in the range of a command,
and the TAGs do not change within a window. -/
def OnTime (s : TaManagementSystem) : TaEvent → Prop
  | .nTaUpdate ueId tagId nTaDiff sinrOk outlier => ueId ∈ s.active → sinrOk = true → outlier = false →
    ∀ m ∈ (s.rows ueId).nTaReports.find? (·.tagId == tagId), m.forbidden s.cfg s.nextWheelIndex = false →
      s.cfg.InRange (m.addSample nTaDiff).avgNTaDifference (s.rows ueId).ulScs ∧
      ((s.rows ueId).node.wheelMeasPos = none → s.cfg.measurementPeriod + 4 < 2 ^ 32 ∧
        (∀ start ∈ (s.rows ueId).windowSlot, s.slots < start + s.cfg.measurementPeriod) ∧
        (s.nextWheelIndex ≤ s.windowEnd ueId ∨ s.cfg.wheelSize ∣ 2 ^ 32))
  | .updateTags ueId _ => ueId ∈ s.active → (s.rows ueId).windowSlot = none
  | _ => True

instance (s : TaManagementSystem) (e : TaEvent) : Decidable (s.OnTime e) :=
  match e with
  | .nTaUpdate _ _ _ _ _ => inferInstanceAs (Decidable (_ → _ → _ → ∀ m ∈ List.find? _ _, _ → _ ∧ (_ → _ ∧ _ ∧ _)))
  | .updateTags _ _ => inferInstanceAs (Decidable (_ → _))
  | .addUe _ _ _ | .remUe _ | .slotIndication => inferInstanceAs (Decidable True)

/-- The invariant of the runs in which the windows are as they should be. -/
structure Windowed (s : TaManagementSystem) : Prop where
  linked : s.Linked
  enabled : s.active ≠ [] → s.cfg.disabled = false
  index : s.nextWheelIndex = s.slots % 2 ^ 32
  rows : ∀ ueId ∈ s.active, (s.rows ueId).Ok s.cfg s.slots
  commands : ∀ c ∈ s.commands, c.Sound s.cfg

theorem windowed_new (cfg : TaConfig) : (new cfg).Windowed where
  linked := ⟨_, linkedBy_new cfg⟩
  enabled hne := absurd rfl hne
  index := rfl
  rows := by simp [new]
  commands := by simp [new]

theorem Windowed.setRow (h : s.Windowed) (ueId : Nat) {row : UeTaRow} (hrow : row.Ok s.cfg s.slots)
    (hlinked : s'.Linked) (hcfg : s'.cfg = s.cfg) (hslots : s'.slots = s.slots)
    (hindex : s'.nextWheelIndex = s.nextWheelIndex) (hcommands : s'.commands = s.commands)
    (hrows : s'.rows = Function.update s.rows ueId row)
    (hactive : ∀ u ∈ s'.active, u = ueId ∨ u ∈ s.active) (henabled : s.cfg.disabled = false) :
    s'.Windowed where
  linked := hlinked
  enabled _ := by rw [hcfg, henabled]
  index := by rw [hindex, hslots, h.index]
  rows u hu := by
    rw [hcfg, hslots, hrows]
    by_cases heq : u = ueId
    · subst heq
      rwa [Function.update_self]
    · rw [Function.update_of_ne heq]
      exact h.rows u ((hactive u hu).resolve_left heq)
  commands := by
    rw [hcommands, hcfg]
    exact h.commands

theorem Windowed.addUe (h : s.Windowed) {ueId pcellTagId ulScs : Nat}
    (hs : s.addUe ueId pcellTagId ulScs = .ok s') : s'.Windowed := by
  have hlinked : s'.Linked := h.linked.step (e := .addUe ueId pcellTagId ulScs) hs
  unfold TaManagementSystem.addUe at hs
  split at hs
  · cases hs
    exact h
  rename_i henabled
  split at hs
  · cases hs
  unfold updateTags at hs
  split at hs
  · cases hs
  cases hs
  refine h.setRow ueId (UeTaRow.Ok.fresh s.cfg s.slots ulScs [] [pcellTagId]) hlinked rfl rfl rfl rfl ?_
    ?_ (by simpa using henabled)
  · simp [TaManagementSystem.setRow]
  · intro u hu
    exact List.mem_cons.mp hu

theorem Windowed.remUe (h : s.Windowed) {ueId : Nat} (hs : s.remUe ueId = .ok s') (hlinked : s'.Linked) :
    s'.Windowed := by
  unfold TaManagementSystem.remUe at hs
  cases hwheel : (s.rows ueId).node.wheelMeasPos with
  | none =>
    rw [hwheel] at hs
    cases hs
    refine ⟨hlinked, fun hne => h.enabled ?_, h.index, fun u hu => h.rows u (List.mem_of_mem_erase hu), h.commands⟩
    rintro hnil
    exact hne (by simp [hnil])
  | some o =>
    rw [hwheel] at hs
    dsimp only at hs
    cases hfind : findPrev s.next ueId s.active.length none (s.timeWheel (s.wheelPos o)) with
    | none =>
      rw [hfind] at hs
      cases hs
    | some prev =>
      rw [hfind] at hs
      cases hs
      have hslots : (s.unlinkUe ueId (s.wheelPos o) prev).slots = s.slots := by cases prev <;> rfl
      have hindex : (s.unlinkUe ueId (s.wheelPos o) prev).nextWheelIndex = s.nextWheelIndex := by
        cases prev <;> rfl
      have hcommands : (s.unlinkUe ueId (s.wheelPos o) prev).commands = s.commands := by cases prev <;> rfl
      refine ⟨hlinked, fun hne => ?_, ?_, fun u hu => ?_, ?_⟩
      · rw [unlinkUe_cfg]
        exact h.enabled fun hnil => hne (by simp [hnil])
      · rw [hindex, hslots, h.index]
      · obtain ⟨link, hrow⟩ := unlinkUe_rows s ueId (s.wheelPos o) prev u
        rw [hrow, unlinkUe_cfg, hslots]
        exact (h.rows u (List.mem_of_mem_erase hu)).link link
      · rw [hcommands, unlinkUe_cfg]
        exact h.commands

theorem Windowed.enabled_of_mem (h : s.Windowed) {ueId : Nat} (hactive : ueId ∈ s.active) :
    s.cfg.disabled = false :=
  h.enabled (List.ne_nil_of_mem hactive)

theorem Windowed.updateTags (h : s.Windowed) {ueId : Nat} {tagIds : List Nat} (hactive : ueId ∈ s.active)
    (hclosed : (s.rows ueId).windowSlot = none) (hs : s.updateTags ueId tagIds = .ok s') (hlinked : s'.Linked) :
    s'.Windowed := by
  unfold TaManagementSystem.updateTags at hs
  split at hs
  · cases hs
  cases hs
  exact h.setRow ueId ((h.rows ueId hactive).resetTags hclosed tagIds) hlinked rfl rfl rfl rfl rfl
    (fun u hu => .inr hu) (h.enabled_of_mem hactive)

theorem wheelSize_eq (henabled : s.cfg.disabled = false) (hperiod : s.cfg.measurementPeriod + 4 < 2 ^ 32) :
    s.cfg.wheelSize = s.cfg.measurementPeriod + 4 := by
  simp only [TaConfig.wheelSize, henabled, Bool.false_eq_true, ↓reduceIte]
  exact Nat.mod_eq_of_lt hperiod

theorem Windowed.joined (h : s.Windowed) {ueId tagId : Nat} {nTaDiff : Int} (hactive : ueId ∈ s.active)
    (hrow : (s.sampledRow ueId tagId nTaDiff).Ok s.cfg s.slots) (hperiod : s.cfg.measurementPeriod + 4 < 2 ^ 32)
    (hopen : ∀ start ∈ (s.rows ueId).windowSlot, s.slots < start + s.cfg.measurementPeriod)
    (hoffset : s.nextWheelIndex ≤ s.windowEnd ueId ∨ s.cfg.wheelSize ∣ 2 ^ 32) (link : Option Nat) :
    UeTaRow.Ok s.cfg s.slots { s.sampledRow ueId tagId nTaDiff with
      node := { (s.sampledRow ueId tagId nTaDiff).node with wheelMeasPos := some (s.windowEnd ueId), next := link } } := by
  have henabled := h.enabled_of_mem hactive
  have hpos : 0 < s.cfg.measurementPeriod := by
    refine s.cfg.period_pos ?_
    simpa [TaConfig.disabled] using henabled
  have hopen' : s.slots < (s.rows ueId).windowSlot.getD s.slots + s.cfg.measurementPeriod := by
    cases hslot : (s.rows ueId).windowSlot with
    | none =>
      rw [Option.getD_none]
      omega
    | some start => exact hopen start hslot
  have hle := (hrow.opened _ rfl).1
  refine hrow.join rfl hopen' ?_ ?_ link
  · rw [wheelSize_eq henabled hperiod]
    omega
  · rw [windowEnd, measStartTime_eq (h.rows ueId hactive) h.index] at hoffset ⊢
    rw [h.index] at hoffset
    exact TaConfig.awaits_windowEnd hle hopen' hperiod hoffset

theorem Windowed.acceptSample (h : s.Windowed) {ueId tagId : Nat} {nTaDiff : Int} {m : TagMeasurement}
    (hactive : ueId ∈ s.active)
    (hfind : (s.rows ueId).nTaReports.find? (·.tagId == tagId) = some m)
    (hTA : s.cfg.InRange (m.addSample nTaDiff).avgNTaDifference (s.rows ueId).ulScs)
    (hjoin : (s.rows ueId).node.wheelMeasPos = none → s.cfg.measurementPeriod + 4 < 2 ^ 32 ∧
      (∀ start ∈ (s.rows ueId).windowSlot, s.slots < start + s.cfg.measurementPeriod) ∧
      (s.nextWheelIndex ≤ s.windowEnd ueId ∨ s.cfg.wheelSize ∣ 2 ^ 32)) :
    (s.acceptSample ueId tagId nTaDiff m).Windowed := by
  have henabled := h.enabled_of_mem hactive
  have hlinked : (s.acceptSample ueId tagId nTaDiff m).Linked := by
    obtain ⟨lists, hlists⟩ := h.linked
    exact hlists.acceptSample hactive
  have hrow : (s.sampledRow ueId tagId nTaDiff).Ok s.cfg s.slots := by
    refine sampledRow_ok (h.rows ueId hactive) h.index fun m' hm' => ?_
    rw [Option.mem_def, hfind] at hm'
    cases hm'
    exact hTA
  unfold TaManagementSystem.acceptSample at hlinked ⊢
  cases hpos : (s.rows ueId).node.wheelMeasPos with
  | some o =>
    have hsome : (s.sampledRow ueId tagId nTaDiff).node.wheelMeasPos.isSome := by simp [sampledRow, hpos]
    simp only [hsome, ↓reduceIte] at hlinked ⊢
    exact h.setRow ueId hrow hlinked rfl rfl rfl rfl rfl (fun u hu => .inr hu) henabled
  | none =>
    have hnone : (s.sampledRow ueId tagId nTaDiff).node.wheelMeasPos = none := by simp [sampledRow, hpos]
    simp only [hnone, Option.isSome_none, Bool.false_eq_true, ↓reduceIte] at hlinked ⊢
    split at hlinked
    · obtain ⟨hperiod, hopen, hoffset⟩ := hjoin hpos
      rename_i hpass
      rw [if_pos hpass]
      exact h.setRow ueId (h.joined hactive hrow hperiod hopen hoffset _) hlinked rfl rfl rfl rfl rfl
        (fun u hu => .inr hu) henabled
    · rename_i hpass
      rw [if_neg hpass]
      exact h.setRow ueId hrow hlinked rfl rfl rfl rfl rfl (fun u hu => .inr hu) henabled

theorem Windowed.nTaUpdate (h : s.Windowed) {ueId tagId : Nat} {nTaDiff : Int} {sinrOk outlier : Bool}
    (hactive : ueId ∈ s.active) (hon : s.OnTime (.nTaUpdate ueId tagId nTaDiff sinrOk outlier)) :
    (s.nTaUpdate ueId tagId nTaDiff sinrOk outlier).Windowed := by
  have hlinked : (s.nTaUpdate ueId tagId nTaDiff sinrOk outlier).Linked := by
    obtain ⟨lists, hlists⟩ := h.linked
    exact hlists.nTaUpdate hactive
  have hon' := hon hactive
  unfold TaManagementSystem.nTaUpdate at hlinked ⊢
  cases sinrOk with
  | false => exact h
  | true =>
    simp only [Bool.true_eq_false, ↓reduceIte] at hlinked ⊢
    cases hfind : (s.rows ueId).nTaReports.find? (·.tagId == tagId) with
    | none => exact h
    | some m =>
      rw [hfind] at hlinked
      dsimp only at hlinked ⊢
      cases hforbid : m.forbidden s.cfg s.nextWheelIndex with
      | true => exact h
      | false =>
        cases outlier with
        | true =>
          rw [hforbid] at hlinked
          exact h.setRow ueId ((h.rows ueId hactive).clearForbidden tagId) hlinked rfl rfl rfl rfl rfl
            (fun u hu => .inr hu) (h.enabled_of_mem hactive)
        | false =>
          obtain ⟨hTA, hjoin⟩ := hon' rfl rfl m hfind hforbid
          exact h.acceptSample hactive hfind hTA hjoin

theorem Windowed.slotIndication (h : s.Windowed) (hs : s.slotIndication = .ok s') : s'.Windowed := by
  have hlinked : s'.Linked := h.linked.step (e := .slotIndication) hs
  cases hdis : s.cfg.disabled with
  | true =>
    simp only [TaManagementSystem.slotIndication, hdis, ↓reduceIte] at hs
    cases hs
    exact h
  | false =>
    obtain ⟨lists, hlists⟩ := h.linked
    cases (hlists.slotIndication_eq hdis).symm.trans hs
    have hmem := hlists.mem (s.wheelPos s.nextWheelIndex)
    refine ⟨hlinked, fun _ => hdis, ?_, fun u hu => ?_, fun c hc => ?_⟩
    · simp only [TaManagementSystem.ticked, h.index, Nat.mod_add_mod]
    · have hok := h.rows u hu
      by_cases hin : u ∈ lists (s.wheelPos s.nextWheelIndex)
      · simp only [TaManagementSystem.ticked, expired, hin, ↓reduceIte]
        exact hok.closeWindow _
      · simp only [TaManagementSystem.ticked, expired, hin, ↓reduceIte]
        refine hok.tick fun offset hoffset heq => hin ((hmem u).mpr ⟨hu, ?_⟩)
        rw [Option.mem_def.mp hoffset, Option.map_some, wheelPos, heq, wheelPos, h.index]
    · rcases List.mem_append.mp hc with hc | hc
      · obtain ⟨u, hu, hc⟩ := List.mem_flatMap.mp hc
        obtain ⟨m, hm, rfl⟩ := List.mem_map.mp (List.mem_reverse.mp hc)
        obtain ⟨hm, hdue⟩ := List.mem_filter.mp hm
        obtain ⟨hactive, hpos⟩ := (hmem u).mp (List.mem_reverse.mp hu)
        obtain ⟨offset, hoffset, hpos⟩ := Option.map_eq_some_iff.mp hpos
        refine (h.rows u hactive).commands hoffset ?_ hm ?_ u
        · rw [wheelPos, wheelPos, h.index] at hpos
          exact hpos
        · rintro hzero
          simp [TagMeasurement.commandDue, hzero] at hdue
      · exact h.commands c hc

theorem Windowed.step (h : s.Windowed) {e : TaEvent} (hon : s.OnTime e) (hs : s.step e = .ok s') :
    s'.Windowed := by
  have hlinked := h.linked.step hs
  cases e with
  | addUe ueId pcellTagId ulScs => exact h.addUe hs
  | remUe ueId =>
    simp only [TaManagementSystem.step] at hs
    split at hs
    · exact h.remUe hs hlinked
    · cases hs
      exact h
  | updateTags ueId tagIds =>
    simp only [TaManagementSystem.step] at hs
    split at hs
    · rename_i hactive
      exact h.updateTags hactive (hon hactive) hs hlinked
    · cases hs
      exact h
  | nTaUpdate ueId tagId nTaDiff sinrOk outlier =>
    simp only [TaManagementSystem.step] at hs
    split at hs
    · rename_i hactive
      cases hs
      exact h.nTaUpdate hactive hon
    · cases hs
      exact h
  | slotIndication => exact h.slotIndication hs

theorem linked_run {cfg : TaConfig} {es : List TaEvent} (hrun : Machine.run step (new cfg) es = .ok s) :
    s.Linked := by
  have hadm : Machine.Admits step (fun _ _ => True) (new cfg) es :=
    Machine.admits_of_forall (fun _ _ => trivial) _ _
  exact Machine.run_invariant Linked (fun _ _ _ h _ hs => h.step hs) ⟨_, linkedBy_new cfg⟩ hadm hrun

/-- In every run each UE is in the wheel if its position is set, once and nowhere else; in a run on time,
each command is issued at the end of its window and from the samples of the window alone. -/
theorem taCommands_sound (cfg : TaConfig) (es : List TaEvent) (s : TaManagementSystem)
    (hon : Machine.Admits step OnTime (new cfg) es) (hrun : Machine.run step (new cfg) es = .ok s) :
    s.Linked ∧ (∀ e, s.step e ≠ .error .assertion) ∧ ∀ c ∈ s.commands, c.Sound cfg := by
  have hlinked := linked_run hrun
  have hinv : s.Windowed ∧ s.cfg = cfg := Machine.run_invariant (fun s => s.Windowed ∧ s.cfg = cfg)
    (fun _ _ _ h ha hs => ⟨h.1.step ha hs, (h.1.linked.step_cfg hs).trans h.2⟩)
    ⟨windowed_new cfg, rfl⟩ hon hrun
  refine ⟨hlinked, hlinked.step_ne_assertion, ?_⟩
  rw [← hinv.2]
  exact hinv.1.commands

def shortWindows : TaConfig where
  measurementPeriod := 2
  measurementProhibitPeriod := 0
  taCmdOffsetThreshold := 1
  target := 0
  period_pos _ := by decide

example : shortWindows.computeNewTA 40000 0 = 70 := by decide +kernel

def oneWindow : List TaEvent :=
  [.addUe 0 0 0, .slotIndication, .nTaUpdate 0 0 4096 true false, .slotIndication, .slotIndication]

theorem taCommands_sound_oneWindow : ∃ s, Machine.run step (new shortWindows) oneWindow = .ok s ∧
    s.commands = [⟨0, 0, 0, 35, 2, some 1, [⟨0, 4096, 1⟩]⟩] ∧ ∀ c ∈ s.commands, c.Sound shortWindows := by
  have hok : (Machine.run step (new shortWindows) oneWindow).map (fun s => s.commands) =
      .ok [⟨0, 0, 0, 35, 2, some 1, [⟨0, 4096, 1⟩]⟩] := by
    decide +kernel
  obtain ⟨s, hs, hcommands⟩ := map_eq_ok.mp hok
  exact ⟨s, hs, hcommands, (taCommands_sound shortWindows oneWindow s (by decide +kernel) hs).2.2⟩

/-- A sample that does not pass the threshold leaves the window open, and the next one comes ten
slots later. -/
def lateSample : List TaEvent :=
  [.addUe 0 0 0, .nTaUpdate 0 0 0 true false] ++ List.replicate 10 .slotIndication ++
    [.nTaUpdate 0 0 4096 true false] ++ List.replicate 4 .slotIndication

/-- The command is neither at the end of a window of one of the samples nor from the last sample alone. -/
theorem staleSample_inCommand : ∃ s, Machine.run step (new shortWindows) lateSample = .ok s ∧
    ∃ c ∈ s.commands, ¬c.Sound shortWindows ∧
      ∀ x ∈ c.accepted, c.slot + 1 ≠ x.slot + shortWindows.measurementPeriod := by
  have hok : (Machine.run step (new shortWindows) lateSample).map (fun s => s.commands) =
      .ok [⟨0, 0, 0, 33, 13, some 0, [⟨0, 4096, 10⟩, ⟨0, 0, 0⟩]⟩] := by
    decide +kernel
  obtain ⟨s, hs, hcommands⟩ := map_eq_ok.mp hok
  refine ⟨s, hs, _, hcommands ▸ List.mem_cons_self, ?_, by decide⟩
  rintro ⟨start, hstart, -, hslot, -⟩
  cases hstart
  exact absurd hslot (by decide)

end TaManagementSystem

end Ocudu.Sched
