import Mathlib.Tactic

/-! Deterministic machines whose steps may fault, and the rules by which an invariant of
one step becomes an invariant of a run. -/

namespace Ocudu

universe u v

@[simp] theorem ok_bind {α β : Type u} {φ : Type v} (a : α) (f : α → Except φ β) :
    (Except.ok a >>= f) = f a := rfl

@[simp] theorem error_bind {α β : Type u} {φ : Type v} (e : φ) (f : α → Except φ β) :
    ((Except.error e : Except φ α) >>= f) = .error e := rfl

@[simp] theorem pure_eq_ok {α : Type u} {φ : Type v} (a : α) : (pure a : Except φ α) = .ok a := rfl

theorem bind_eq_ok {α β : Type u} {φ : Type v} {x : Except φ α} {f : α → Except φ β} {b : β} :
    (x >>= f) = .ok b ↔ ∃ a, x = .ok a ∧ f a = .ok b := by
  cases x with
  | error e => simp
  | ok a => simp

theorem bind_eq_error {α β : Type u} {φ : Type v} {x : Except φ α} {f : α → Except φ β} {e : φ} :
    (x >>= f) = .error e ↔ x = .error e ∨ ∃ a, x = .ok a ∧ f a = .error e := by
  cases x with
  | error e' => simp
  | ok a => simp

theorem map_eq_ok {α β : Type u} {φ : Type v} {x : Except φ α} {f : α → β} {b : β} :
    x.map f = .ok b ↔ ∃ a, x = .ok a ∧ f a = b := by
  cases x with
  | error e => simp [Except.map]
  | ok a => simp [Except.map]

theorem map_eq_error {α β : Type u} {φ : Type v} {x : Except φ α} {f : α → β} {e : φ} :
    x.map f = .error e ↔ x = .error e := by
  cases x with
  | error e' => simp [Except.map]
  | ok a => simp [Except.map]

theorem foldlM_ok {α σ : Type u} {φ : Type v} {f : σ → α → Except φ σ} {l : List α}
    (h : ∀ s, ∀ a ∈ l, ∃ s', f s a = .ok s') (s : σ) : ∃ s', l.foldlM f s = .ok s' := by
  induction l generalizing s with
  | nil => exact ⟨s, rfl⟩
  | cons a l ih =>
    obtain ⟨s', hs'⟩ := h s a List.mem_cons_self
    rw [List.foldlM_cons, hs', ok_bind]
    exact ih (fun s a ha => h s a (List.mem_cons_of_mem _ ha)) s'

theorem foldlM_inv {α σ : Type u} {φ : Type v} {f : σ → α → Except φ σ} {l : List α} {s s' : σ} (Inv : σ → Prop)
    (h : ∀ s a s', a ∈ l → f s a = .ok s' → Inv s → Inv s') (hrun : l.foldlM f s = .ok s') (hs : Inv s) :
    Inv s' := by
  induction l generalizing s with
  | nil =>
    cases hrun
    exact hs
  | cons a l ih =>
    rw [List.foldlM_cons] at hrun
    obtain ⟨s₁, hfirst, hrun⟩ := bind_eq_ok.mp hrun
    exact ih (fun s a s' ha => h s a s' (List.mem_cons_of_mem _ ha)) hrun (h s a s₁ List.mem_cons_self hfirst hs)

/-- Two results that are related, or the same fault. -/
inductive Alike {α β : Type u} {φ : Type v} (R : α → β → Prop) : Except φ α → Except φ β → Prop
  | ok {a : α} {b : β} : R a b → Alike R (.ok a) (.ok b)
  | error (e : φ) : Alike R (.error e) (.error e)

theorem Alike.eq_left {α β : Type u} {φ : Type v} {R : α → β → Prop} {x : Except φ α} {y : Except φ β}
    (h : Alike R x y) : Alike (fun a b => x = .ok a ∧ R a b) x y := by
  cases h with
  | ok hab => exact .ok ⟨rfl, hab⟩
  | error e => exact .error e

theorem Alike.bind {α β α' β' : Type u} {φ : Type v} {R : α → β → Prop} {R' : α' → β' → Prop}
    {x : Except φ α} {y : Except φ β} {f : α → Except φ α'} {g : β → Except φ β'} (h : Alike R x y)
    (hfg : ∀ a b, R a b → Alike R' (f a) (g b)) : Alike R' (x >>= f) (y >>= g) := by
  cases h with
  | ok hab => exact hfg _ _ hab
  | error e => exact .error e

theorem Alike.map {α β α' β' : Type u} {φ : Type v} {R : α → β → Prop} {R' : α' → β' → Prop}
    {x : Except φ α} {y : Except φ β} {f : α → α'} {g : β → β'} (h : Alike R x y)
    (hfg : ∀ a b, R a b → R' (f a) (g b)) : Alike R' (x.map f) (y.map g) := by
  cases h with
  | ok hab => exact .ok (hfg _ _ hab)
  | error e => exact .error e

theorem Alike.ite {α β : Type u} {φ : Type v} {R : α → β → Prop} {p q : Prop} [Decidable p] [Decidable q]
    {x x' : Except φ α} {y y' : Except φ β} (hpq : p ↔ q) (h : p → Alike R x y) (h' : ¬p → Alike R x' y') :
    Alike R (if p then x else x') (if q then y else y') := by
  by_cases hp : p
  · rw [if_pos hp, if_pos (hpq.mp hp)]
    exact h hp
  · rw [if_neg hp, if_neg (mt hpq.mpr hp)]
    exact h' hp

end Ocudu

namespace Ocudu.Machine

variable {σ : Type*} {ε : Type*} {φ : Type*}

/-- The state after a list of events, or the first fault. -/
def run (step : σ → ε → Except φ σ) : σ → List ε → Except φ σ
  | s, [] => .ok s
  | s, e :: es =>
    match step s e with
    | .ok s' => run step s' es
    | .error f => .error f

/-- Each event of the run satisfies `adm` in the state it happens in. -/
def Admits (step : σ → ε → Except φ σ) (adm : σ → ε → Prop) : σ → List ε → Prop
  | _, [] => True
  | s, e :: es => adm s e ∧ ∀ s', step s e = .ok s' → Admits step adm s' es

variable {step : σ → ε → Except φ σ} {adm : σ → ε → Prop} (Inv : σ → Prop)

@[simp] theorem run_nil (s : σ) : run step s [] = .ok s := rfl

theorem run_cons_ok {s s' : σ} {e : ε} {es : List ε} (h : step s e = .ok s') :
    run step s (e :: es) = run step s' es := by
  simp [run, h]

theorem run_cons_error {s : σ} {e : ε} {es : List ε} {f : φ} (h : step s e = .error f) :
    run step s (e :: es) = .error f := by
  simp [run, h]

theorem run_append (s : σ) (es fs : List ε) :
    run step s (es ++ fs) = (run step s es).bind (fun s' => run step s' fs) := by
  induction es generalizing s with
  | nil => rfl
  | cons e es ih =>
    cases h : step s e with
    | ok s' => rw [List.cons_append, run_cons_ok h, run_cons_ok h, ih]
    | error f => rw [List.cons_append, run_cons_error h, run_cons_error h]; rfl

theorem admits_of_forall (h : ∀ s e, adm s e) (s : σ) (es : List ε) : Admits step adm s es := by
  induction es generalizing s with
  | nil => trivial
  | cons e es ih => exact ⟨h s e, fun s' _ => ih s'⟩

theorem admits_of_forall_mem {s : σ} {es : List ε} (h : ∀ e ∈ es, ∀ s, adm s e) :
    Admits step adm s es := by
  induction es generalizing s with
  | nil => trivial
  | cons e es ih =>
    exact ⟨h e List.mem_cons_self s, fun _ _ => ih fun e' he' => h e' (List.mem_cons_of_mem _ he')⟩

theorem Admits.and {adm' : σ → ε → Prop} {s : σ} {es : List ε} (h : Admits step adm s es)
    (h' : Admits step adm' s es) : Admits step (fun s e => adm s e ∧ adm' s e) s es := by
  induction es generalizing s with
  | nil => trivial
  | cons e es ih => exact ⟨⟨h.1, h'.1⟩, fun s' hs' => ih (h.2 s' hs') (h'.2 s' hs')⟩

theorem Admits.take {s : σ} {es : List ε} (h : Admits step adm s es) (n : Nat) :
    Admits step adm s (es.take n) := by
  induction es generalizing s n with
  | nil =>
    rw [List.take_nil]
    trivial
  | cons e es ih =>
    cases n with
    | zero => trivial
    | succ n => exact ⟨h.1, fun s' hs' => ih (h.2 s' hs') n⟩

theorem admits_cons_iff {s : σ} {e : ε} {es : List ε} :
    Admits step adm s (e :: es) ↔
      adm s e ∧ match step s e with
        | .ok s' => Admits step adm s' es
        | .error _ => True := by
  rw [Admits]
  cases step s e with
  | ok s' => simp
  | error f => simp

instance Admits.decidable [∀ s e, Decidable (adm s e)] : (s : σ) → (es : List ε) →
    Decidable (Admits step adm s es)
  | _, [] => .isTrue trivial
  | s, e :: es =>
    have : Decidable (match step s e with
        | .ok s' => Admits step adm s' es
        | .error _ => True) :=
      match step s e with
      | .ok s' => Admits.decidable s' es
      | .error _ => .isTrue trivial
    decidable_of_iff _ admits_cons_iff.symm

theorem exists_of_isOk {r : Except φ σ} (h : r.isOk = true) : ∃ s, r = .ok s := by
  cases r with
  | ok s => exact ⟨s, rfl⟩
  | error f => cases h

theorem admits_congr {adm' : σ → ε → Prop} {ok : ε → Prop}
    (hstep : ∀ s e s', Inv s → ok e → step s e = .ok s' → Inv s')
    (hiff : ∀ s e, Inv s → ok e → (adm s e ↔ adm' s e))
    {s : σ} {es : List ε} (hs : Inv s) (hes : ∀ e ∈ es, ok e) :
    Admits step adm s es ↔ Admits step adm' s es := by
  induction es generalizing s with
  | nil => exact Iff.rfl
  | cons e es ih =>
    have he := hes e List.mem_cons_self
    have htail : ∀ s', step s e = .ok s' → (Admits step adm s' es ↔ Admits step adm' s' es) :=
      fun s' h => ih (hstep s e s' hs he h) (fun e' he' => hes e' (List.mem_cons_of_mem _ he'))
    rw [Admits, Admits, hiff s e hs he]
    exact and_congr_right fun _ => forall_congr' fun s' => forall_congr' fun h => htail s' h

theorem run_invariant
    (hstep : ∀ s e s', Inv s → adm s e → step s e = .ok s' → Inv s')
    {s s' : σ} {es : List ε} (hs : Inv s) (hadm : Admits step adm s es)
    (hrun : run step s es = .ok s') : Inv s' := by
  induction es generalizing s with
  | nil =>
    cases hrun
    exact hs
  | cons e es ih =>
    cases h : step s e with
    | error f => rw [run_cons_error h] at hrun; cases hrun
    | ok t =>
      rw [run_cons_ok h] at hrun
      exact ih (hstep s e t hs hadm.1 h) (hadm.2 t h) hrun

/-- The machine with a second state, which is written at each step and read by none. -/
def noted {γ : Type*} (step : σ → ε → Except φ σ) (note : σ → ε → σ → γ → γ) (s : σ × γ) (e : ε) :
    Except φ (σ × γ) :=
  (step s.1 e).map fun t => (t, note s.1 e t s.2)

theorem run_noted {γ : Type*} (note : σ → ε → σ → γ → γ) {s t : σ} {es : List ε} (h : run step s es = .ok t)
    (g : γ) : ∃ g', run (noted step note) (s, g) es = .ok (t, g') := by
  induction es generalizing s g with
  | nil =>
    cases h
    exact ⟨g, rfl⟩
  | cons e es ih =>
    cases hs : step s e with
    | error f => rw [run_cons_error hs] at h; cases h
    | ok u =>
      rw [run_cons_ok hs] at h
      have hnoted : noted step note (s, g) e = .ok (u, note s e u g) := by simp [noted, hs, Except.map]
      obtain ⟨g', hg'⟩ := ih h (note s e u g)
      exact ⟨g', by rw [run_cons_ok hnoted, hg']⟩

theorem run_total
    (hstep : ∀ s e, Inv s → adm s e → ∃ s', step s e = .ok s' ∧ Inv s')
    {s : σ} {es : List ε} (hs : Inv s) (hadm : Admits step adm s es) :
    ∃ s', run step s es = .ok s' ∧ Inv s' := by
  induction es generalizing s with
  | nil => exact ⟨s, rfl, hs⟩
  | cons e es ih =>
    obtain ⟨t, ht, hit⟩ := hstep s e hs hadm.1
    obtain ⟨s', hr, hi⟩ := ih hit (hadm.2 t ht)
    exact ⟨s', by rw [run_cons_ok ht, hr], hi⟩

theorem run_lockstep {σ' ε' φ' : Type*} {step' : σ' → ε' → Except φ' σ'} {adm' : σ' → ε' → Prop}
    (R : σ → σ' → Prop) (E : ε → ε' → Prop)
    (hstep : ∀ s s' e e', R s s' → E e e' → adm s e → adm' s' e' →
      ∃ t t', step s e = .ok t ∧ step' s' e' = .ok t' ∧ R t t')
    {s : σ} {s' : σ'} {es : List ε} {es' : List ε'} (hs : R s s') (hes : List.Forall₂ E es es')
    (hadm : Admits step adm s es) (hadm' : Admits step' adm' s' es') :
    ∃ t t', run step s es = .ok t ∧ run step' s' es' = .ok t' ∧ R t t' := by
  induction hes generalizing s s' with
  | nil => exact ⟨s, s', rfl, rfl, hs⟩
  | cons he _ ih =>
    obtain ⟨t, t', ht, ht', hr⟩ := hstep s s' _ _ hs he hadm.1 hadm'.1
    obtain ⟨u, u', hu, hu', hru⟩ := ih hr (hadm.2 t ht) (hadm'.2 t' ht')
    exact ⟨u, u', by rw [run_cons_ok ht, hu], by rw [run_cons_ok ht', hu'], hru⟩

/-- The runs of a machine whose steps are a relation. -/
inductive RelRun {τ : Type*} (rel : ε → τ → τ → Prop) : τ → List ε → τ → Prop
  | nil (t : τ) : RelRun rel t [] t
  | cons {t t' t'' : τ} {e : ε} {es : List ε} : rel e t t' → RelRun rel t' es t'' → RelRun rel t (e :: es) t''

theorem run_refines {τ : Type*} {rel : ε → τ → τ → Prop} (R : σ → τ → Prop)
    (hstep : ∀ s t e, R s t → adm s e → ∃ s' t', step s e = .ok s' ∧ rel e t t' ∧ R s' t')
    {s : σ} {t : τ} {es : List ε} (hs : R s t) (hadm : Admits step adm s es) :
    ∃ s' t', run step s es = .ok s' ∧ RelRun rel t es t' ∧ R s' t' := by
  induction es generalizing s t with
  | nil => exact ⟨s, t, rfl, .nil t, hs⟩
  | cons e es ih =>
    obtain ⟨u, w, hu, hrel, hr⟩ := hstep s t e hs hadm.1
    obtain ⟨s', t', hrun, hrels, hr'⟩ := ih hr (hadm.2 u hu)
    exact ⟨s', t', by rw [run_cons_ok hu, hrun], .cons hrel hrels, hr'⟩

theorem run_fault (ok : φ → Prop)
    (hstep : ∀ s e s', Inv s → adm s e → step s e = .ok s' → Inv s')
    (hfault : ∀ s e f, Inv s → adm s e → step s e = .error f → ok f)
    {s : σ} {es : List ε} {f : φ} (hs : Inv s) (hadm : Admits step adm s es)
    (hrun : run step s es = .error f) : ok f := by
  induction es generalizing s with
  | nil => cases hrun
  | cons e es ih =>
    cases h : step s e with
    | error g =>
      rw [run_cons_error h] at hrun
      cases hrun
      exact hfault s e f hs hadm.1 h
    | ok t =>
      rw [run_cons_ok h] at hrun
      exact ih (hstep s e t hs hadm.1 h) (hadm.2 t h) hrun

end Ocudu.Machine
