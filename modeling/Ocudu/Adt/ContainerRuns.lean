import Ocudu.Adt.SlottedVector

/-! Runs of the slotted vector, and of the three containers. -/

namespace Ocudu.Adt

open Machine

inductive SlotOp (α : Type)
  | emplace (idx : Nat) (a : α)
  | insert (idx : Nat) (a : α)
  | erase (idx : Nat)
  | clear
  | contains (idx : Nat)
  | at (idx : Nat)
  | size
  | iterate
  | findFirstEmpty (startGuess : Nat)

inductive SlotOut (α : Type)
  | flag (b : Bool)
  | object (a : Option α)
  | count (n : Nat)
  | objects (l : List (Nat × α))
  | index (n : Nat)
  | done

section Runs

variable {α : Type}

/-- The operations of a map from indexes to objects. -/
def SlotSpec (f : Nat → Option α) : SlotOp α → SlotOut α → (Nat → Option α) → Prop
  | .emplace idx a, .done, f' => f' = Function.update f idx (some a)
  | .insert idx a, .flag b, f' =>
    b = (f idx).isNone ∧ f' = if (f idx).isSome then f else Function.update f idx (some a)
  | .erase idx, .flag b, f' => b = (f idx).isSome ∧ f' = Function.update f idx none
  | .clear, .done, f' => f' = fun _ => none
  | .contains idx, .flag b, f' => b = (f idx).isSome ∧ f' = f
  | .at idx, .object a, f' => a = f idx ∧ f' = f
  | .size, .count n, f' => n = Set.ncard {idx | (f idx).isSome = true} ∧ f' = f
  | .iterate, .objects l, f' =>
    ((l.map Prod.fst).Pairwise (· < ·) ∧ ∀ idx a, (idx, a) ∈ l ↔ f idx = some a) ∧ f' = f
  | .findFirstEmpty _, .index n, f' => f n = none ∧ f' = f
  | _, _, _ => False

namespace SlottedVector

def Admissible (v : SlottedVector α) : SlotOp α → Prop
  | .findFirstEmpty startGuess => v.HasFirstEmpty startGuess
  | _ => True

def apply (v : SlottedVector α) : SlotOp α → SlottedVector α × SlotOut α
  | .emplace idx a => (v.emplace idx a, .done)
  | .insert idx a => ((v.insert idx a).1, .flag (v.insert idx a).2)
  | .erase idx => ((v.erase idx).1, .flag (v.erase idx).2)
  | .clear => (v.clear, .done)
  | .contains idx => (v, .flag (v.contains idx))
  | .at idx => (v, .object (v.at? idx))
  | .size => (v, .count v.size)
  | .iterate => (v, .objects v.iterate)
  | .findFirstEmpty startGuess => (v, .index (v.findFirstEmpty startGuess))

variable {v : SlottedVector α}

theorem Inv.insert (h : v.Inv) (idx : Nat) (a : α) : (v.insert idx a).2 = (v.at? idx).isNone ∧
    (v.insert idx a).1.Inv ∧
    (v.insert idx a).1.at? = if (v.at? idx).isSome then v.at? else Function.update v.at? idx (some a) := by
  rw [SlottedVector.insert, h.contains_eq]
  cases hidx : v.at? idx with
  | none => exact ⟨rfl, h.emplace idx a⟩
  | some b => exact ⟨rfl, h, rfl⟩

theorem Inv.apply (h : v.Inv) {op : SlotOp α} (hop : v.Admissible op) :
    (v.apply op).1.Inv ∧ SlotSpec v.at? op (v.apply op).2 (v.apply op).1.at? := by
  cases op with
  | emplace idx a => exact h.emplace idx a
  | insert idx a =>
    obtain ⟨hflag, hnext, hmap⟩ := h.insert idx a
    exact ⟨hnext, hflag, hmap⟩
  | erase idx =>
    obtain ⟨hflag, hnext, hmap⟩ := h.erase idx
    exact ⟨hnext, hflag, hmap⟩
  | clear => exact ⟨.empty, rfl⟩
  | contains idx => exact ⟨h, h.contains_eq idx, rfl⟩
  | «at» idx => exact ⟨h, rfl, rfl⟩
  | size => exact ⟨h, h.size_eq, rfl⟩
  | iterate => exact ⟨h, ⟨iterateFrom_increasing _ _ 0, v.mem_iterate⟩, rfl⟩
  | findFirstEmpty startGuess =>
    refine ⟨h, ?_, rfl⟩
    have hfree := findFirstEmpty_free hop
    rw [h.contains_eq] at hfree
    exact Option.isSome_eq_false_iff.mp hfree |> Option.isNone_iff_eq_none.mp

end SlottedVector

/-- Every run of the three containers whose steps are admissible is a run of finite maps, with the same results. -/
theorem containers_refine {ι : Type} {β : ι → Type} (mapOps : List (IdOp α)) (tableOps : List (IdOp ((i : ι) → β i)))
    (slotOps : List (SlotOp α))
    (hmap : Admits (applyStep StableIdMap.apply) (fun s op => IdAdmissible s.1.index op)
      ((.empty : StableIdMap α), []) mapOps)
    (htable : Admits (applyStep SoaTable.apply) (fun s op => IdAdmissible s.1.index op)
      ((.empty : SoaTable β), []) tableOps)
    (hslot : Admits (applyStep SlottedVector.apply) (fun s op => s.1.Admissible op)
      ((.empty : SlottedVector α), []) slotOps) :
    (∃ s t, run (applyStep StableIdMap.apply) ((.empty : StableIdMap α), []) mapOps = .ok s ∧
      RelRun (LogStep (MapSpec fun r => r)) (fun _ => none, []) mapOps t ∧ s.2 = t.2) ∧
    (∃ s t, run (applyStep SoaTable.apply) ((.empty : SoaTable β), []) tableOps = .ok s ∧
      RelRun (LogStep (MapSpec fun r i => r.map fun row => row i)) (fun _ => none, []) tableOps t ∧ s.2 = t.2) ∧
    ∃ s t, run (applyStep SlottedVector.apply) ((.empty : SlottedVector α), []) slotOps = .ok s ∧
      RelRun (LogStep SlotSpec) (fun _ => none, []) slotOps t ∧ s.2 = t.2 := by
  refine ⟨?_, ?_, ?_⟩
  · refine logged_refines (fun m op => IdAdmissible m.index op) StableIdMap.Represents ?_ .empty hmap
    exact fun m f op h hop => h.apply hop
  · refine logged_refines (fun t op => IdAdmissible t.index op) (fun t f => ∃ m, SoaTable.ColumnsOf t m ∧ m.Represents f)
      (fun t f op h hop => ?_) ⟨StableIdMap.empty, ⟨rfl, fun _ => rfl⟩, .empty⟩ htable
    obtain ⟨m, hcols, hrep⟩ := h
    exact hcols.apply hrep hop
  · refine logged_refines SlottedVector.Admissible (fun v f => v.Inv ∧ v.at? = f) (fun v f op h hop => ?_)
      ⟨.empty, rfl⟩ hslot
    obtain ⟨hinv, rfl⟩ := h
    obtain ⟨hnext, hspec⟩ := hinv.apply hop
    exact ⟨_, hspec, hnext, rfl⟩

theorem containers_refine_small :
    (∃ s t, run (applyStep StableIdMap.apply) ((.empty : StableIdMap Nat), []) [.insert 10, .insert 11, .erase 0] =
        .ok s ∧
      RelRun (LogStep (MapSpec fun r => r)) (fun _ => none, []) [.insert 10, .insert 11, .erase 0] t ∧ s.2 = t.2) ∧
    (∃ s t, run (applyStep SoaTable.apply) ((.empty : SoaTable fun _ : Unit => Nat), []) [.insert fun _ => 10,
        .erase 7] = .ok s ∧
      RelRun (LogStep (MapSpec fun r i => r.map fun row => row i)) (fun _ => none, []) [.insert fun _ => 10,
        .erase 7] t ∧ s.2 = t.2) ∧
    ∃ s t, run (applyStep SlottedVector.apply) ((.empty : SlottedVector Nat), []) [.emplace 1 7,
        .findFirstEmpty 0] = .ok s ∧
      RelRun (LogStep SlotSpec) (fun _ => none, []) [.emplace 1 7, .findFirstEmpty 0] t ∧ s.2 = t.2 := by
  refine containers_refine [.insert 10, .insert 11, .erase 0] [.insert fun _ => 10, .erase 7]
    [.emplace 1 7, .findFirstEmpty 0] ?_ ?_ ?_
  · refine ⟨fun _ => by decide, fun s hs => ?_⟩
    cases hs
    refine ⟨fun _ => by decide, fun s hs => ?_⟩
    cases hs
    exact ⟨.inl (by decide), fun _ _ => trivial⟩
  · refine ⟨fun _ => by decide, fun s hs => ?_⟩
    cases hs
    exact ⟨.inr rfl, fun _ _ => trivial⟩
  · refine ⟨trivial, fun s hs => ?_⟩
    cases hs
    exact ⟨.inr (.inl ⟨0, le_rfl, rfl⟩), fun _ _ => trivial⟩

/-- Erasing the second of two erased ids again removes the row that is left, under another id. -/
theorem stale_id_erases_another : ¬ ∀ ops : List (IdOp Nat), ∃ s t,
    run (applyStep StableIdMap.apply) ((.empty : StableIdMap Nat), []) ops = .ok s ∧
      RelRun (LogStep (MapSpec fun r => r)) (fun _ => none, []) ops t ∧ s.2 = t.2 := by
  intro h
  obtain ⟨s, t, hrun, hrel, houts⟩ := h [.insert 10, .insert 11, .insert 12, .erase 0, .erase 1, .erase 1]
  have hs : s.2 = [.id 0, .id 1, .id 2, .flag true, .flag true, .flag true] := by
    cases hrun
    rfl
  rw [hs] at houts
  cases hrel with | cons h₁ hrel =>
  cases hrel with | cons h₂ hrel =>
  cases hrel with | cons h₃ hrel =>
  cases hrel with | cons h₄ hrel =>
  cases hrel with | cons h₅ hrel =>
  cases hrel with | cons h₆ hrel =>
  cases hrel
  obtain ⟨out₅, -, hspec₅⟩ := h₅
  obtain ⟨out₆, hout₆, hspec₆⟩ := h₆
  have hlast : out₆ = .flag true := by
    have hlast := congrArg List.getLast? (houts.trans hout₆)
    rw [List.getLast?_concat] at hlast
    exact (Option.some.inj hlast).symm
  subst hlast
  cases out₅ with
  | flag b =>
    have hflag := hspec₆.1
    rw [hspec₅.2, Function.update_self] at hflag
    cases hflag
  | _ => exact hspec₅

end Runs

end Ocudu.Adt
