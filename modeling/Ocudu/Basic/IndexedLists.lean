import Mathlib.Tactic

/-! Families of lists indexed below a bound, of which one list is replaced. -/

namespace Ocudu.IndexedLists

variable {α : Type} {n i j : Nat} {x : α}

theorem flatMap_update (f : Nat → List α) (hi : i < n) :
    ∃ rest, ∀ l, ((List.range n).flatMap (Function.update f i l)).Perm (l ++ rest) := by
  refine ⟨((List.range n).erase i).flatMap f, fun l => ?_⟩
  have hmem : i ∈ List.range n := List.mem_range.mpr hi
  have hothers : ((List.range n).erase i).flatMap (Function.update f i l) =
      ((List.range n).erase i).flatMap f := by
    refine List.flatMap_congr fun u hu => ?_
    rw [Function.update_of_ne]
    rintro rfl
    exact List.nodup_range.not_mem_erase hu
  refine ((List.perm_cons_erase hmem).flatMap_right _).trans ?_
  rw [List.flatMap_cons, Function.update_self, hothers]

theorem eq_of_mem {f : Nat → List α} (h : ((List.range n).flatMap f).Nodup) (hi : i < n) (hj : j < n)
    (hxi : x ∈ f i) (hxj : x ∈ f j) : i = j := by
  by_contra hne
  have hpair := (List.nodup_flatMap.mp h).2
  have hsymm : Std.Symm (Function.onFun List.Disjoint f) := ⟨fun _ _ hd => hd.symm⟩
  exact hpair.forall (List.mem_range.mpr hi) (List.mem_range.mpr hj) hne hxi hxj

end Ocudu.IndexedLists
