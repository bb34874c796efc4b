import Ocudu.Sched.TaManagement

/-! The lists of the time wheel: a UE is linked once if its position is set and not at all if it is
not, and the removal of a UE finds it. -/

namespace Ocudu.Sched.TaManagementSystem

open Ocudu.LinkedList

variable {s s' : TaManagementSystem} {lists : Nat → List Nat}

structure LinkedBy (s : TaManagementSystem) (lists : Nat → List Nat) : Prop where
  chain : ∀ pos, Chain s.next (s.timeWheel pos) (lists pos)
  nodup : ∀ pos, (lists pos).Nodup
  mem : ∀ pos ueId, ueId ∈ lists pos ↔
    ueId ∈ s.active ∧ (s.rows ueId).node.wheelMeasPos.map s.wheelPos = some pos
  active : s.active.Nodup

theorem linkedBy_new (cfg : TaConfig) : (new cfg).LinkedBy fun _ => [] where
  chain _ := rfl
  nodup _ := List.nodup_nil
  mem _ _ := by simp [new]
  active := List.nodup_nil

section

variable (h : s.LinkedBy lists)
include h

theorem LinkedBy.same (hcfg : s'.cfg = s.cfg) (hactive : s'.active = s.active)
    (hwheel : s'.timeWheel = s.timeWheel) (hnext : ∀ ueId, s'.next ueId = s.next ueId)
    (hpos : ∀ ueId, (s'.rows ueId).node.wheelMeasPos = (s.rows ueId).node.wheelMeasPos) :
    s'.LinkedBy lists where
  chain pos := by
    rw [hwheel]
    exact (h.chain pos).congr fun a _ => hnext a
  nodup := h.nodup
  mem pos ueId := by
    have hwp : s'.wheelPos = s.wheelPos := by
      funext o
      simp [wheelPos, hcfg]
    rw [hactive, hpos, hwp]
    exact h.mem pos ueId
  active := hactive ▸ h.active

theorem LinkedBy.setRow {ueId : Nat} {row : UeTaRow}
    (hnext : row.node.next = (s.rows ueId).node.next)
    (hpos : row.node.wheelMeasPos = (s.rows ueId).node.wheelMeasPos) :
    (s.setRow ueId row).LinkedBy lists := by
  refine h.same rfl rfl rfl (fun u => ?_) fun u => ?_
  · by_cases hu : u = ueId
    · subst hu
      simpa [next, TaManagementSystem.setRow] using hnext
    · simp [next, TaManagementSystem.setRow, hu]
  · by_cases hu : u = ueId
    · subst hu
      simpa [TaManagementSystem.setRow] using hpos
    · simp [TaManagementSystem.setRow, hu]

theorem LinkedBy.length_le (pos : Nat) : (lists pos).length ≤ s.active.length :=
  ((h.nodup pos).subperm fun a ha => ((h.mem pos a).mp ha).1).length_le

theorem LinkedBy.addUe {ueId pcellTagId ulScs : Nat}
    (hs : s.addUe ueId pcellTagId ulScs = .ok s') : s'.LinkedBy lists := by
  unfold TaManagementSystem.addUe at hs
  split at hs
  · cases hs
    exact h
  split at hs
  · cases hs
  rename_i hnew
  have hnot : ∀ pos, ueId ∉ lists pos := fun pos hmem => hnew ((h.mem pos ueId).mp hmem).1
  have hadd : LinkedBy { s.setRow ueId ⟨ulScs, [], {}, none, []⟩ with active := ueId :: s.active } lists := by
    refine ⟨fun pos => ?_, h.nodup, fun pos u => ?_, List.nodup_cons.mpr ⟨hnew, h.active⟩⟩
    · refine (h.chain pos).congr fun a ha => ?_
      have hne : a ≠ ueId := fun heq => hnot pos (heq ▸ ha)
      simp [next, TaManagementSystem.setRow, hne]
    · by_cases hu : u = ueId
      · subst hu
        refine iff_of_false (hnot pos) ?_
        simp [TaManagementSystem.setRow]
      · rw [h.mem]
        simp [TaManagementSystem.setRow, hu, wheelPos]
  unfold TaManagementSystem.updateTags at hs
  split at hs
  · cases hs
  · cases hs
    exact hadd.setRow rfl rfl

theorem LinkedBy.updateTags {ueId : Nat} {tagIds : List Nat}
    (hs : s.updateTags ueId tagIds = .ok s') : s'.LinkedBy lists := by
  unfold TaManagementSystem.updateTags at hs
  split at hs
  · cases hs
  · cases hs
    exact h.setRow rfl rfl

theorem LinkedBy.joinWheel {ueId : Nat} {row : UeTaRow} (hactive : ueId ∈ s.active)
    (hpos : (s.rows ueId).node.wheelMeasPos = none) :
    (s.joinWheel ueId row).LinkedBy (Function.update lists (s.wheelPos (s.windowEnd ueId))
      (ueId :: lists (s.wheelPos (s.windowEnd ueId)))) := by
  have hnot : ∀ pos, ueId ∉ lists pos := fun pos hmem => by
    have hsome := ((h.mem pos ueId).mp hmem).2
    rw [hpos] at hsome
    cases hsome
  have hnext : (s.joinWheel ueId row).next =
      Function.update s.next ueId (s.timeWheel (s.wheelPos (s.windowEnd ueId))) := by
    funext u
    by_cases hu : u = ueId
    · subst hu
      simp [next, TaManagementSystem.joinWheel, TaManagementSystem.setRow]
    · simp [next, TaManagementSystem.joinWheel, TaManagementSystem.setRow, hu]
  refine ⟨fun pos => ?_, fun pos => ?_, fun pos u => ?_, h.active⟩
  · rw [hnext]
    by_cases hp : pos = s.wheelPos (s.windowEnd ueId)
    · subst hp
      simpa [TaManagementSystem.joinWheel] using (h.chain _).push (hnot _)
    · simp only [TaManagementSystem.joinWheel, Function.update_of_ne hp]
      refine (h.chain pos).congr fun a ha => Function.update_of_ne ?_ _ _
      rintro rfl
      exact hnot pos ha
  · by_cases hp : pos = s.wheelPos (s.windowEnd ueId)
    · subst hp
      rw [Function.update_self]
      exact List.nodup_cons.mpr ⟨hnot _, h.nodup _⟩
    · rw [Function.update_of_ne hp]
      exact h.nodup pos
  · have hwp : (s.joinWheel ueId row).wheelPos = s.wheelPos := rfl
    by_cases hu : u = ueId
    · subst hu
      have hrow : ((s.joinWheel u row).rows u).node.wheelMeasPos = some (s.windowEnd u) := by
        simp [TaManagementSystem.joinWheel, TaManagementSystem.setRow]
      have hact : u ∈ (s.joinWheel u row).active := hactive
      rw [hrow, hwp, Option.map_some, Option.some.injEq, and_iff_right hact]
      by_cases hp : pos = s.wheelPos (s.windowEnd u)
      · subst hp
        simp
      · rw [Function.update_of_ne hp]
        exact iff_of_false (hnot pos) (Ne.symm hp)
    · have hrow : ((s.joinWheel ueId row).rows u) = s.rows u := by
        simp [TaManagementSystem.joinWheel, TaManagementSystem.setRow, hu]
      have hmem := h.mem pos u
      rw [hrow, hwp]
      refine Iff.trans ?_ hmem
      by_cases hp : pos = s.wheelPos (s.windowEnd ueId)
      · subst hp
        simp [hu]
      · rw [Function.update_of_ne hp]

theorem LinkedBy.pos_eq {pos pos' ueId : Nat} (hmem : ueId ∈ lists pos)
    (hmem' : ueId ∈ lists pos') : pos = pos' := by
  have hpos := ((h.mem pos ueId).mp hmem).2
  rw [((h.mem pos' ueId).mp hmem').2] at hpos
  exact (Option.some.inj hpos).symm

end

theorem unlinkUe_next (s : TaManagementSystem) (ueId pos : Nat) (prev : Option Nat) :
    (s.unlinkUe ueId pos prev).next = (unlink s.next (s.timeWheel pos) ueId prev).1 := by
  cases prev with
  | none => rfl
  | some prev =>
    funext u
    by_cases hu : u = prev
    · subst hu
      simp [unlinkUe, unlink, setNext, TaManagementSystem.setRow, next]
    · simp [unlinkUe, unlink, setNext, TaManagementSystem.setRow, next, hu]

theorem unlinkUe_timeWheel (s : TaManagementSystem) (ueId pos : Nat) (prev : Option Nat) :
    (s.unlinkUe ueId pos prev).timeWheel =
      Function.update s.timeWheel pos (unlink s.next (s.timeWheel pos) ueId prev).2 := by
  cases prev with
  | none => rfl
  | some prev => exact (Function.update_eq_self pos s.timeWheel).symm

@[simp] theorem unlinkUe_cfg (s : TaManagementSystem) (ueId pos : Nat) (prev : Option Nat) :
    (s.unlinkUe ueId pos prev).cfg = s.cfg := by
  cases prev <;> rfl

theorem unlinkUe_rows (s : TaManagementSystem) (ueId pos : Nat) (prev : Option Nat) (u : Nat) :
    ∃ link, (s.unlinkUe ueId pos prev).rows u =
      { s.rows u with node := { (s.rows u).node with next := link } } := by
  cases prev with
  | none => exact ⟨_, rfl⟩
  | some prev =>
    by_cases hu : u = prev
    · subst hu
      exact ⟨s.next ueId, by simp [unlinkUe, setNext, TaManagementSystem.setRow]⟩
    · exact ⟨(s.rows u).node.next, by simp [unlinkUe, setNext, TaManagementSystem.setRow, hu]⟩

theorem LinkedBy.unlink_next (h : s.LinkedBy lists) {pos pos' ueId : Nat} {l₁ l₂ : List Nat}
    (hpos : lists pos = l₁ ++ ueId :: l₂) (hne : pos' ≠ pos) {u : Nat} (hu : u ∈ lists pos') :
    (unlink s.next (s.timeWheel pos) ueId l₁.getLast?).1 u = s.next u := by
  cases hlast : l₁.getLast? with
  | none => rfl
  | some prev =>
    refine Function.update_of_ne ?_ _ _
    rintro rfl
    have hmem : u ∈ lists pos := by
      rw [hpos]
      exact List.mem_append_left _ (List.mem_of_getLast? hlast)
    exact hne (h.pos_eq hu hmem)

theorem LinkedBy.unlinkUe (h : s.LinkedBy lists) {pos ueId : Nat} {l₁ l₂ : List Nat}
    (hpos : lists pos = l₁ ++ ueId :: l₂) :
    LinkedBy { s.unlinkUe ueId pos l₁.getLast? with active := s.active.erase ueId }
      (Function.update lists pos (l₁ ++ l₂)) where
  chain p := by
    rw [show next { s.unlinkUe ueId pos l₁.getLast? with active := s.active.erase ueId } =
      (s.unlinkUe ueId pos l₁.getLast?).next from rfl, unlinkUe_next, unlinkUe_timeWheel]
    by_cases hp : p = pos
    · subst hp
      rw [Function.update_self, Function.update_self]
      exact Chain.unlink (hpos ▸ h.chain p) (hpos ▸ h.nodup p)
    · rw [Function.update_of_ne hp, Function.update_of_ne hp]
      exact (h.chain p).congr fun u hu => h.unlink_next hpos hp hu
  nodup p := by
    by_cases hp : p = pos
    · subst hp
      rw [Function.update_self]
      have hnodup := h.nodup p
      rw [hpos] at hnodup
      exact (List.nodup_middle.mp hnodup).of_cons
    · rw [Function.update_of_ne hp]
      exact h.nodup p
  mem p u := by
    obtain ⟨link, hrow⟩ := unlinkUe_rows s ueId pos l₁.getLast? u
    have hwp : wheelPos { s.unlinkUe ueId pos l₁.getLast? with active := s.active.erase ueId } =
        s.wheelPos := by
      funext o
      simp [wheelPos]
    rw [hwp]
    simp only [hrow, h.active.mem_erase_iff, and_assoc, ← h.mem p u]
    have hnodup := h.nodup pos
    rw [hpos, List.nodup_middle, List.nodup_cons] at hnodup
    by_cases hp : p = pos
    · subst hp
      rw [Function.update_self, hpos]
      by_cases hu : u = ueId
      · subst hu
        exact iff_of_false hnodup.1 (by simp)
      · simp [hu]
    · rw [Function.update_of_ne hp]
      refine ⟨fun hmem => ⟨?_, hmem⟩, fun hmem => hmem.2⟩
      rintro rfl
      exact hp (h.pos_eq hmem (hpos ▸ by simp))
  active := h.active.erase ueId

theorem LinkedBy.remUe (h : s.LinkedBy lists) {ueId : Nat} (hactive : ueId ∈ s.active) :
    ∃ s' lists', s.remUe ueId = .ok s' ∧ s'.LinkedBy lists' := by
  unfold TaManagementSystem.remUe
  cases hwheel : (s.rows ueId).node.wheelMeasPos with
  | none =>
    refine ⟨_, lists, rfl, h.chain, h.nodup, fun pos u => ?_, h.active.erase ueId⟩
    simp only [h.active.mem_erase_iff, and_assoc]
    rw [h.mem pos u]
    refine ⟨fun hmem => ⟨?_, hmem⟩, fun hmem => hmem.2⟩
    rintro rfl
    rw [hwheel] at hmem
    cases hmem.2
  | some o =>
    have hmem : ueId ∈ lists (s.wheelPos o) := (h.mem _ _).mpr ⟨hactive, by rw [hwheel]; rfl⟩
    obtain ⟨l₁, l₂, hlist, -, hfind⟩ := (h.chain (s.wheelPos o)).findPrev none hmem
      (h.length_le _)
    rw [Option.or_none] at hfind
    simp only [hfind]
    exact ⟨_, _, rfl, h.unlinkUe hlist⟩

def expired (s : TaManagementSystem) (l : List Nat) : TaManagementSystem :=
  { s with
    rows := fun u => if u ∈ l then s.closeWindow (s.rows u) else s.rows u
    commands := l.reverse.flatMap (fun u => (s.ueTaCmds u (s.rows u)).reverse) ++ s.commands }

theorem handleUeTaCmds_rows (s : TaManagementSystem) {ueId u : Nat} (hu : u ≠ ueId) :
    (s.handleUeTaCmds ueId).rows u = s.rows u :=
  Function.update_of_ne hu _ _

theorem expired_cons {ueId : Nat} {l : List Nat} (hnew : ueId ∉ l) :
    (s.handleUeTaCmds ueId).expired l = s.expired (ueId :: l) := by
  have hrow : ∀ u ∈ l, (s.handleUeTaCmds ueId).rows u = s.rows u := fun u hu =>
    handleUeTaCmds_rows s fun heq => hnew (heq ▸ hu)
  have hrows : ((s.handleUeTaCmds ueId).expired l).rows = (s.expired (ueId :: l)).rows := by
    funext u
    by_cases hu : u ∈ l
    · simp only [expired, hu, List.mem_cons, or_true, ↓reduceIte, hrow u hu]
      rfl
    · by_cases heq : u = ueId
      · subst heq
        simp [expired, hu, handleUeTaCmds, TaManagementSystem.setRow]
      · simp [expired, hu, heq, handleUeTaCmds_rows]
  have hcmds : ((s.handleUeTaCmds ueId).expired l).commands = (s.expired (ueId :: l)).commands := by
    have hflat : l.reverse.flatMap (fun u =>
        ((s.handleUeTaCmds ueId).ueTaCmds u ((s.handleUeTaCmds ueId).rows u)).reverse) =
        l.reverse.flatMap fun u => (s.ueTaCmds u (s.rows u)).reverse := by
      refine List.flatMap_congr fun u hu => ?_
      rw [hrow u (List.mem_reverse.mp hu)]
      rfl
    simp only [expired, hflat, List.reverse_cons, List.flatMap_append, List.flatMap_singleton,
      List.append_assoc]
    rfl
  change TaManagementSystem.mk _ _ _ _ _ _ _ = TaManagementSystem.mk _ _ _ _ _ _ _
  exact congrArg₂ (fun rows commands => TaManagementSystem.mk s.cfg s.active rows s.timeWheel
    s.nextWheelIndex s.slots commands) hrows hcmds

theorem expire_chain {fuel : Nat} {head : Option Nat} {l : List Nat} (hchain : Chain s.next head l)
    (hnodup : l.Nodup) (hfuel : l.length ≤ fuel) : s.expire fuel head = .ok (s.expired l) := by
  induction l generalizing s fuel head with
  | nil =>
    obtain rfl : head = none := hchain
    simp [expire, expired]
  | cons ueId l ih =>
    obtain ⟨rfl, hchain⟩ := hchain
    obtain ⟨hnew, hnodup⟩ := List.nodup_cons.mp hnodup
    obtain ⟨fuel, rfl⟩ : ∃ f, fuel = f + 1 := ⟨fuel - 1, by simp at hfuel; omega⟩
    have hchain' : Chain (s.handleUeTaCmds ueId).next (s.next ueId) l := by
      refine hchain.congr fun u hu => ?_
      have hne : u ≠ ueId := fun heq => hnew (heq ▸ hu)
      rw [next, handleUeTaCmds_rows s hne]
      rfl
    rw [expire, ih hchain' hnodup (by simpa using hfuel), expired_cons hnew]

/-- The state after a slot indication that ends the windows of the UEs in `l`. -/
def ticked (s : TaManagementSystem) (l : List Nat) : TaManagementSystem :=
  { s.expired l with
    timeWheel := Function.update s.timeWheel (s.wheelPos s.nextWheelIndex) none
    nextWheelIndex := (s.nextWheelIndex + 1) % 2 ^ 32
    slots := s.slots + 1 }

theorem LinkedBy.slotIndication_eq (h : s.LinkedBy lists) (henabled : s.cfg.disabled = false) :
    s.slotIndication = .ok (s.ticked (lists (s.wheelPos s.nextWheelIndex))) := by
  unfold slotIndication
  rw [henabled]
  simp only [Bool.false_eq_true, ↓reduceIte]
  rw [expire_chain (h.chain _) (h.nodup _) (h.length_le _)]
  rfl

theorem LinkedBy.ticked (h : s.LinkedBy lists) :
    (s.ticked (lists (s.wheelPos s.nextWheelIndex))).LinkedBy
      (Function.update lists (s.wheelPos s.nextWheelIndex) []) := by
  refine ⟨fun p => ?_, fun p => ?_, fun p u => ?_, h.active⟩
  · by_cases hp : p = s.wheelPos s.nextWheelIndex
    · subst hp
      simp [TaManagementSystem.ticked, Chain]
    · simp only [TaManagementSystem.ticked, Function.update_of_ne hp]
      refine (h.chain p).congr fun u hu => ?_
      have hnot : u ∉ lists (s.wheelPos s.nextWheelIndex) := fun hu' => hp (h.pos_eq hu hu')
      simp [next, expired, hnot]
  · by_cases hp : p = s.wheelPos s.nextWheelIndex
    · subst hp
      simp
    · rw [Function.update_of_ne hp]
      exact h.nodup p
  · have hwp : (s.ticked (lists (s.wheelPos s.nextWheelIndex))).wheelPos = s.wheelPos := rfl
    have hact : (s.ticked (lists (s.wheelPos s.nextWheelIndex))).active = s.active := rfl
    rw [hwp, hact]
    by_cases hu : u ∈ lists (s.wheelPos s.nextWheelIndex)
    · have hrow : ((s.ticked (lists (s.wheelPos s.nextWheelIndex))).rows u).node = {} := by
        simp [TaManagementSystem.ticked, expired, hu, closeWindow]
      rw [hrow]
      refine iff_of_false ?_ (by simp)
      by_cases hp : p = s.wheelPos s.nextWheelIndex
      · subst hp
        simp
      · rw [Function.update_of_ne hp]
        exact fun hu' => hp (h.pos_eq hu' hu)
    · have hrow : (s.ticked (lists (s.wheelPos s.nextWheelIndex))).rows u = s.rows u := by
        simp [TaManagementSystem.ticked, expired, hu]
      rw [hrow, ← h.mem p u]
      by_cases hp : p = s.wheelPos s.nextWheelIndex
      · subst hp
        simp [hu]
      · rw [Function.update_of_ne hp]

theorem LinkedBy.slotIndication (h : s.LinkedBy lists) :
    ∃ s' lists', s.slotIndication = .ok s' ∧ s'.LinkedBy lists' := by
  cases hdis : s.cfg.disabled with
  | true => exact ⟨s, lists, by simp [TaManagementSystem.slotIndication, hdis], h⟩
  | false => exact ⟨_, _, h.slotIndication_eq hdis, h.ticked⟩

theorem LinkedBy.acceptSample (h : s.LinkedBy lists) {ueId tagId : Nat} {nTaDiff : Int} {m : TagMeasurement}
    (hactive : ueId ∈ s.active) : ∃ lists', (s.acceptSample ueId tagId nTaDiff m).LinkedBy lists' := by
  unfold TaManagementSystem.acceptSample
  cases hpos : (s.rows ueId).node.wheelMeasPos with
  | some o =>
    have hsome : (s.sampledRow ueId tagId nTaDiff).node.wheelMeasPos.isSome := by
      simp [sampledRow, hpos]
    simp only [hsome, ↓reduceIte]
    exact ⟨lists, h.setRow rfl rfl⟩
  | none =>
    have hnone : (s.sampledRow ueId tagId nTaDiff).node.wheelMeasPos = none := by
      simp [sampledRow, hpos]
    simp only [hnone, Option.isSome_none, Bool.false_eq_true, ↓reduceIte]
    split
    · exact ⟨_, h.joinWheel hactive hpos⟩
    · exact ⟨lists, h.setRow rfl rfl⟩

theorem LinkedBy.nTaUpdate (h : s.LinkedBy lists) {ueId tagId : Nat} {nTaDiff : Int} {sinrOk outlier : Bool}
    (hactive : ueId ∈ s.active) :
    ∃ lists', (s.nTaUpdate ueId tagId nTaDiff sinrOk outlier).LinkedBy lists' := by
  unfold TaManagementSystem.nTaUpdate
  split
  · exact ⟨lists, h⟩
  cases (s.rows ueId).nTaReports.find? (·.tagId == tagId) with
  | none => exact ⟨lists, h⟩
  | some m =>
    dsimp only
    split
    · exact ⟨lists, h⟩
    split
    · exact ⟨lists, h.setRow rfl rfl⟩
    · exact h.acceptSample hactive

/-- Each UE is linked once if its position is set, and not at all if it is not. -/
def Linked (s : TaManagementSystem) : Prop := ∃ lists, s.LinkedBy lists

theorem Linked.step (h : s.Linked) {e : TaEvent} (hs : s.step e = .ok s') : s'.Linked := by
  obtain ⟨lists, h⟩ := h
  cases e with
  | addUe ueId pcellTagId ulScs => exact ⟨lists, h.addUe hs⟩
  | remUe ueId =>
    simp only [TaManagementSystem.step] at hs
    split at hs
    · rename_i hactive
      obtain ⟨t, lists', ht, h'⟩ := h.remUe hactive
      cases ht.symm.trans hs
      exact ⟨lists', h'⟩
    · cases hs
      exact ⟨lists, h⟩
  | updateTags ueId tagIds =>
    simp only [TaManagementSystem.step] at hs
    split at hs
    · exact ⟨lists, h.updateTags hs⟩
    · cases hs
      exact ⟨lists, h⟩
  | nTaUpdate ueId tagId nTaDiff sinrOk outlier =>
    simp only [TaManagementSystem.step] at hs
    split at hs
    · rename_i hactive
      cases hs
      exact h.nTaUpdate hactive
    · cases hs
      exact ⟨lists, h⟩
  | slotIndication =>
    obtain ⟨t, lists', ht, h'⟩ := h.slotIndication
    cases ht.symm.trans hs
    exact ⟨lists', h'⟩

theorem Linked.step_cfg (h : s.Linked) {e : TaEvent} (hs : s.step e = .ok s') : s'.cfg = s.cfg := by
  obtain ⟨lists, h⟩ := h
  cases e with
  | addUe ueId pcellTagId ulScs =>
    simp only [TaManagementSystem.step, TaManagementSystem.addUe, TaManagementSystem.updateTags] at hs
    split_ifs at hs <;> cases hs <;> rfl
  | remUe ueId =>
    simp only [TaManagementSystem.step] at hs
    split at hs
    · unfold TaManagementSystem.remUe at hs
      split at hs
      · cases hs
        rfl
      · split at hs
        · cases hs
        · cases hs
          exact unlinkUe_cfg s ueId _ _
    · cases hs
      rfl
  | updateTags ueId tagIds =>
    simp only [TaManagementSystem.step, TaManagementSystem.updateTags] at hs
    split_ifs at hs <;> cases hs <;> rfl
  | nTaUpdate ueId tagId nTaDiff sinrOk outlier =>
    simp only [TaManagementSystem.step] at hs
    split at hs
    · cases hs
      unfold TaManagementSystem.nTaUpdate
      split
      · rfl
      cases (s.rows ueId).nTaReports.find? (·.tagId == tagId) with
      | none => rfl
      | some m =>
        dsimp only [TaManagementSystem.acceptSample]
        split_ifs <;> rfl
    · cases hs
      rfl
  | slotIndication =>
    cases hdis : s.cfg.disabled with
    | true =>
      simp only [TaManagementSystem.step, TaManagementSystem.slotIndication, hdis, ↓reduceIte] at hs
      cases hs
      rfl
    | false =>
      cases (h.slotIndication_eq hdis).symm.trans hs
      rfl

theorem Linked.step_ne_assertion (h : s.Linked) (e : TaEvent) : s.step e ≠ .error .assertion := by
  obtain ⟨lists, h⟩ := h
  have htags : ∀ (t : TaManagementSystem) u tagIds, t.updateTags u tagIds ≠ .error .assertion := by
    intro t u tagIds
    unfold TaManagementSystem.updateTags
    split <;> simp
  cases e with
  | addUe ueId pcellTagId ulScs =>
    simp only [TaManagementSystem.step, TaManagementSystem.addUe]
    split
    · simp
    split
    · simp
    · exact htags _ _ _
  | remUe ueId =>
    simp only [TaManagementSystem.step]
    split
    · rename_i hactive
      obtain ⟨t, -, ht, -⟩ := h.remUe hactive
      simp [ht]
    · simp
  | updateTags ueId tagIds =>
    simp only [TaManagementSystem.step]
    split
    · exact htags _ _ _
    · simp
  | nTaUpdate ueId tagId nTaDiff sinrOk outlier =>
    simp only [TaManagementSystem.step]
    split <;> simp
  | slotIndication =>
    obtain ⟨t, -, ht, -⟩ := h.slotIndication
    simp [TaManagementSystem.step, ht]

end Ocudu.Sched.TaManagementSystem
