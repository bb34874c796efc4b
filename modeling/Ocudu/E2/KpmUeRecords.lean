import Ocudu.E2.KpmMeasProvider

/-! Which reported metrics the record of a UE is computed from. -/

namespace Ocudu.E2

inductive Report
  | cell (m : SchedulerCellMetrics) (now : Nat) (known : Nat → Bool)
  | rlc (m : RlcMetrics)

namespace Report

def ofUe (u : Nat) : Report → Option Report
  | cell m now known => some (cell { m with ueMetrics := m.ueMetrics.filter (·.ueIndex = u) } now known)
  | rlc m => if m.ueIndex = u then some (rlc m) else none

end Report

namespace KpmDuMeasProvider

def handle (p : KpmDuMeasProvider) : Report → KpmDuMeasProvider
  | .cell m now known => p.reportCellMetrics m now known
  | .rlc m => p.reportRlcMetrics m

def run (p : KpmDuMeasProvider) (reports : List Report) : KpmDuMeasProvider := reports.foldl handle p

theorem run_append (p : KpmDuMeasProvider) (l l' : List Report) : p.run (l ++ l') = (p.run l).run l' :=
  List.foldl_append

section Runs

variable {p q : KpmDuMeasProvider} {u : Nat}

structure SameFor (u : Nat) (p q : KpmDuMeasProvider) : Prop where
  nofCellPrbs : q.nofCellPrbs = p.nofCellPrbs
  nofDlSlots : q.nofDlSlots = p.nofDlSlots
  nofUlSlots : q.nofUlSlots = p.nofUlSlots
  lastUeMetrics : q.lastUeMetrics = p.lastUeMetrics.filter (·.ueIndex = u)
  queue : q.ueAggrRlcMetrics.find? u = p.ueAggrRlcMetrics.find? u
  clearTime : q.lastRlcMetricsClearTime = p.lastRlcMetricsClearTime
  maxRlcMetrics : q.maxRlcMetrics = p.maxRlcMetrics

theorem find?_forget (m : OrderedMap Nat (List RlcMetrics)) (known : Nat → Bool) (ues : List Nat) :
    (ues.foldl (fun m ue => if known ue then m else m.erase ue) m).find? u =
      if u ∈ ues ∧ known u = false then none else m.find? u := by
  induction ues generalizing m with
  | nil => rw [List.foldl_nil, if_neg (fun h => List.not_mem_nil h.1)]
  | cons ue ues ih =>
    rw [List.foldl_cons, ih]
    by_cases hrest : u ∈ ues ∧ known u = false
    · rw [if_pos hrest, if_pos ⟨List.mem_cons_of_mem ue hrest.1, hrest.2⟩]
    · rw [if_neg hrest]
      by_cases heq : u = ue
      · subst heq
        cases hknown : known u with
        | false => rw [if_neg Bool.false_ne_true, OrderedMap.find?_erase, if_pos rfl, if_pos ⟨List.mem_cons_self, rfl⟩]
        | true => rw [if_pos rfl, if_neg (fun h => by cases h.2)]
      · have hcons : ¬ (u ∈ ue :: ues ∧ known u = false) :=
          fun h => hrest ⟨(List.mem_cons.mp h.1).resolve_left heq, h.2⟩
        rw [if_neg hcons]
        split_ifs
        · rfl
        · rw [OrderedMap.find?_erase, if_neg heq]

theorem find?_forget_keys (m : OrderedMap Nat (List RlcMetrics)) (known : Nat → Bool) :
    (m.keys.foldl (fun m ue => if known ue then m else m.erase ue) m).find? u =
      if known u then m.find? u else none := by
  rw [find?_forget]
  cases hknown : known u with
  | true => rw [if_neg (fun h => by cases h.2), if_pos rfl]
  | false =>
    rw [if_neg Bool.false_ne_true]
    by_cases hmem : u ∈ m.keys
    · rw [if_pos ⟨hmem, rfl⟩]
    · rw [if_neg (fun h => hmem h.1)]
      cases hfind : m.find? u with
      | none => rfl
      | some queue => exact absurd (OrderedMap.mem_keys.mpr ⟨queue, hfind⟩) hmem

theorem SameFor.clearRlcMetrics (h : SameFor u p q) (now : Nat) (known : Nat → Bool) :
    SameFor u (p.clearRlcMetrics now known) (q.clearRlcMetrics now known) := by
  rw [KpmDuMeasProvider.clearRlcMetrics, KpmDuMeasProvider.clearRlcMetrics, h.clearTime]
  split_ifs
  · exact h
  · exact { h with
      queue := by rw [find?_forget_keys, find?_forget_keys, h.queue]
      clearTime := rfl }

theorem SameFor.handle (h : SameFor u p q) (r : Report) : SameFor u (p.handle r) (q.run (r.ofUe u).toList) := by
  cases r with
  | cell m now known =>
    apply SameFor.clearRlcMetrics
    exact ⟨rfl, rfl, rfl, rfl, h.queue, h.clearTime, h.maxRlcMetrics⟩
  | rlc m =>
    rw [Report.ofUe]
    split_ifs with hu
    · refine { h with queue := ?_ }
      show (q.ueAggrRlcMetrics.alter _ _).find? u = (p.ueAggrRlcMetrics.alter _ _).find? u
      rw [OrderedMap.find?_alter, OrderedMap.find?_alter, hu, h.queue, h.maxRlcMetrics]
    · refine { h with queue := ?_ }
      show q.ueAggrRlcMetrics.find? u = (p.ueAggrRlcMetrics.alter _ _).find? u
      rw [OrderedMap.find?_alter, if_neg (Ne.symm hu), h.queue]

theorem SameFor.run (h : SameFor u p q) (reports : List Report) :
    SameFor u (p.run reports) (q.run (reports.filterMap (Report.ofUe u))) := by
  induction reports generalizing p q with
  | nil => exact h
  | cons r reports ih =>
    have hr := ih (h.handle r)
    have happend : (r :: reports).filterMap (Report.ofUe u) = (r.ofUe u).toList ++ reports.filterMap (Report.ofUe u) := by
      rw [List.filterMap_cons]
      cases r.ofUe u <;> rfl
    rw [happend, run_append]
    exact hr

theorem SameFor.init (u now maxRlcMetrics : Nat) : SameFor u (init now maxRlcMetrics) (init now maxRlcMetrics) :=
  ⟨rfl, rfl, rfl, rfl, rfl, rfl, rfl⟩

end Runs

def record (res : Bool × List MeasRecordItem) (k : Nat) : MeasRecordItem := (res.2[k]?).getD .noValue

section Records

variable {p : KpmDuMeasProvider} {ueIndexOf : Nat → Nat} {labels : List LabelInfo} {ues : List UeId} {k id : Nat}
  {res : Bool × List MeasRecordItem}

end Records

section Metrics

variable {p : KpmDuMeasProvider} {ueIndexOf : Nat → Nat} {labels : List LabelInfo} {ues : List UeId} {k id u : Nat}
  {res : Bool × List MeasRecordItem} {name : String}

theorem collect_ok (node : MeasRecordItem) (ofUe : Nat → MeasRecordItem) (ids : List Nat) :
    ∃ res, collect ueIndexOf (ids.map .gnbDuUeId) node ofUe = .ok res := by
  have hmap : ∃ items, (ids.map UeId.gnbDuUeId).mapM
      (fun ue => do return ofUe (← ueIndex ueIndexOf ue)) = Except.ok (ε := Abort) items := by
    induction ids with
    | nil => exact ⟨[], rfl⟩
    | cons id ids ih =>
      obtain ⟨items, hitems⟩ := ih
      exact ⟨ofUe (ueIndexOf id) :: items, by rw [List.map_cons, List.mapM_cons, hitems]; rfl⟩
  obtain ⟨items, hitems⟩ := hmap
  rw [collect, hitems]
  split_ifs
  · exact ⟨_, rfl⟩
  · exact ⟨_, rfl⟩

end Metrics

section OwnMetrics

variable {p : KpmDuMeasProvider} {u : Nat}

variable {ofUe : SchedulerUeMetrics → MeasRecordItem} {indices : List Nat}

end OwnMetrics

section Sample

def oneSlot (ueMetrics : List SchedulerUeMetrics) : Report := .cell ⟨51, 1, 1, 0, ueMetrics⟩ 0 fun _ => true

end Sample

end KpmDuMeasProvider

end Ocudu.E2
