import Mathlib.Tactic

/-! Singly linked lists whose links are kept in the elements: the elements that a head leads to, and
what inserting at the front and unlinking do to them. -/

namespace Ocudu.LinkedList

variable {ι : Type*} {next next' : ι → Option ι}

/-- The elements from `head` on, in the order of the links. -/
def Chain (next : ι → Option ι) : Option ι → List ι → Prop
  | head, [] => head = none
  | head, a :: l => head = some a ∧ Chain next (next a) l

theorem Chain.congr {head : Option ι} {l : List ι} (h : Chain next head l)
    (hnext : ∀ a ∈ l, next' a = next a) : Chain next' head l := by
  induction l generalizing head with
  | nil => exact h
  | cons a l ih =>
    refine ⟨h.1, ?_⟩
    rw [hnext a List.mem_cons_self]
    exact ih h.2 fun b hb => hnext b (List.mem_cons_of_mem _ hb)

variable [DecidableEq ι]

theorem Chain.push {head : Option ι} {l : List ι} {a : ι} (h : Chain next head l) (ha : a ∉ l) :
    Chain (Function.update next a head) (some a) (a :: l) := by
  refine ⟨rfl, ?_⟩
  rw [Function.update_self]
  refine h.congr fun b hb => Function.update_of_ne ?_ _ _
  rintro rfl
  exact ha hb

def findPrev (next : ι → Option ι) (a : ι) : Nat → Option ι → Option ι → Option (Option ι)
  | _, _, none => none
  | 0, _, some _ => none
  | fuel + 1, prev, some b => if b = a then some prev else findPrev next a fuel (some b) (next b)

theorem Chain.findPrev {a : ι} {l : List ι} {fuel : Nat} (prev : Option ι) {node : Option ι}
    (h : Chain next node l) (ha : a ∈ l) (hfuel : l.length ≤ fuel) : ∃ l₁ l₂, l = l₁ ++ a :: l₂ ∧ a ∉ l₁ ∧
      findPrev next a fuel prev node = some (l₁.getLast?.or prev) := by
  induction l generalizing fuel prev node with
  | nil => cases ha
  | cons b l ih =>
    obtain ⟨rfl, h⟩ := h
    obtain ⟨fuel, rfl⟩ : ∃ f, fuel = f + 1 := ⟨fuel - 1, by simp at hfuel; omega⟩
    by_cases hb : b = a
    · subst hb
      exact ⟨[], l, rfl, by simp, by simp [LinkedList.findPrev]⟩
    · have ha' : a ∈ l := by simpa [Ne.symm hb] using ha
      obtain ⟨l₁, l₂, rfl, hnot, hfind⟩ := ih (some b) h ha' (by simpa using hfuel)
      refine ⟨b :: l₁, l₂, rfl, by simp [hnot, Ne.symm hb], ?_⟩
      rw [LinkedList.findPrev, if_neg hb, hfind]
      cases l₁ with
      | nil => rfl
      | cons c l₁ =>
        rw [List.getLast?_cons_cons, List.getLast?_eq_some_getLast (List.cons_ne_nil c l₁)]
        rfl

def unlink (next : ι → Option ι) (head : Option ι) (a : ι) : Option ι → (ι → Option ι) × Option ι
  | none => (next, next a)
  | some p => (Function.update next p (next a), head)

theorem Chain.unlink {a : ι} {l₁ l₂ : List ι} {head : Option ι} (h : Chain next head (l₁ ++ a :: l₂))
    (hnodup : (l₁ ++ a :: l₂).Nodup) : Chain (unlink next head a l₁.getLast?).1
      (unlink next head a l₁.getLast?).2 (l₁ ++ l₂) := by
  induction l₁ generalizing head with
  | nil => exact h.2
  | cons b l₁ ih =>
    obtain ⟨rfl, h⟩ := h
    obtain ⟨hb, hnodup⟩ := List.nodup_cons.mp hnodup
    cases l₁ with
    | nil =>
      refine ⟨rfl, ?_⟩
      simp only [LinkedList.unlink, List.getLast?_singleton, Function.update_self]
      refine h.2.congr fun c hc => Function.update_of_ne (fun heq => hb ?_) _ _
      simp [← heq, hc]
    | cons c l₁ =>
      obtain ⟨p, hp⟩ : ∃ p, (c :: l₁).getLast? = some p := ⟨_, List.getLast?_eq_some_getLast (by simp)⟩
      have hbp : b ≠ p := by
        rintro rfl
        exact hb (List.mem_append_left _ (List.mem_of_getLast? hp))
      have hih := ih h hnodup
      rw [hp] at hih
      rw [List.getLast?_cons_cons, hp]
      refine ⟨rfl, ?_⟩
      simp only [LinkedList.unlink, Function.update_of_ne hbp] at hih ⊢
      exact hih

end Ocudu.LinkedList
