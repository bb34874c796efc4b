import Ocudu.Basic.Machine

/-! `rnti_manager.h` and `rnti_value_table.h`: the table of the RNTIs of the UEs, and the
allocation of TC-RNTIs from an atomic counter, by calls that run at the same time. -/

namespace Ocudu.Mac

def invalidRnti : Nat := 0x0

def minCrnti : Nat := 0x1

def maxCrnti : Nat := 0xffef

def isCrnti (rnti : Nat) : Bool := decide (rnti ≤ maxCrnti) && decide (minCrnti ≤ rnti)

def crntiRange : Nat := maxCrnti + 1 - minCrnti

def maxNofDuUes : Nat := 8192

def tempCrnti (counter : Nat) : Nat := counter % crntiRange + minCrnti

/-- Where a call of `allocate` is: at the increment of the counter, or at the check of the RNTI it
got for the value `pos` of a counter that does not wrap around. -/
inductive AllocateCall
  | idle
  | counting
  | checking (rnti pos : Nat)
  deriving DecidableEq

structure TcRnti where
  rnti : Nat
  pos : Nat
  deriving DecidableEq

/-- `pos` is the value that the counter would have if it did not wrap around, and `allocated` what
the calls have returned. -/
structure RntiManager where
  values : Nat → Option Nat
  nofUes : Nat
  rntiCounter : Nat
  calls : Nat → AllocateCall
  pos : Nat
  allocated : List TcRnti

inductive RntiFault
  | assertion
  /-- The call is not at a place where it could do this. -/
  | call
  deriving DecidableEq

inductive RntiEvent
  | allocate (call : Nat)
  /-- The next access of a call to the counter or to the table. -/
  | advance (call : Nat)
  | addUe (crnti value : Nat)
  | remUe (crnti : Nat)

namespace RntiManager

def new (initialRnti : Nat) : RntiManager where
  values _ := none
  nofUes := 0
  rntiCounter := initialRnti - minCrnti
  calls _ := .idle
  pos := initialRnti - minCrnti
  allocated := []

variable (s : RntiManager)

def hasRnti (crnti : Nat) : Bool := (s.values crnti).isSome

def addUe (crnti value : Nat) : Except RntiFault RntiManager :=
  if isCrnti crnti = false ∨ value = maxNofDuUes then .error .assertion
  else .ok { s with
    values := Function.update s.values crnti (some value)
    nofUes := if s.hasRnti crnti then s.nofUes else s.nofUes + 1 }

def remUe (crnti : Nat) : Except RntiFault RntiManager :=
  if isCrnti crnti = false then .error .assertion
  else .ok { s with
    values := Function.update s.values crnti none
    nofUes := if s.hasRnti crnti then s.nofUes - 1 else s.nofUes }

def setCall (call : Nat) (c : AllocateCall) : RntiManager :=
  { s with calls := Function.update s.calls call c }

/-- The RACH is ignored if there are too many UEs: the call returns at once, with no RNTI. -/
def allocate (call : Nat) : Except RntiFault RntiManager :=
  if s.calls call ≠ .idle then .error .call
  else if maxNofDuUes ≤ s.nofUes then .ok s
  else .ok (s.setCall call .counting)

def advance (call : Nat) : Except RntiFault RntiManager :=
  match s.calls call with
  | .idle => .error .call
  | .counting =>
    .ok ({ s with rntiCounter := (s.rntiCounter + 1) % 2 ^ 16, pos := s.pos + 1 }.setCall call
      (.checking (tempCrnti s.rntiCounter) s.pos))
  | .checking rnti pos =>
    if s.hasRnti rnti then .ok (s.setCall call .counting)
    else .ok ({ s with allocated := s.allocated ++ [TcRnti.mk rnti pos] }.setCall call .idle)

def step (s : RntiManager) : RntiEvent → Except RntiFault RntiManager
  | .allocate call => s.allocate call
  | .advance call => s.advance call
  | .addUe crnti value => s.addUe crnti value
  | .remUe crnti => s.remUe crnti

def registered : Finset Nat := (Finset.Icc minCrnti maxCrnti).filter fun crnti => s.hasRnti crnti

variable {s} {t : RntiManager}

theorem mem_registered {crnti : Nat} :
    crnti ∈ s.registered ↔ isCrnti crnti = true ∧ s.hasRnti crnti = true := by
  simp only [registered, Finset.mem_filter, Finset.mem_Icc, isCrnti, Bool.and_eq_true, decide_eq_true_eq]
  tauto

structure Inv (s : RntiManager) : Prop where
  counter : s.rntiCounter = s.pos % 2 ^ 16
  nofUes : s.nofUes = s.registered.card
  checking : ∀ call rnti pos, s.calls call = .checking rnti pos → rnti = tempCrnti (pos % 2 ^ 16)
  allocated : ∀ a ∈ s.allocated, a.rnti = tempCrnti (a.pos % 2 ^ 16)

theorem inv_new {initialRnti : Nat} (h : isCrnti initialRnti = true) : (new initialRnti).Inv where
  counter := by
    simp only [isCrnti, Bool.and_eq_true, decide_eq_true_eq] at h
    unfold maxCrnti minCrnti at h
    change initialRnti - 1 = (initialRnti - 1) % 2 ^ 16
    exact (Nat.mod_eq_of_lt (by omega)).symm
  nofUes := by simp [new, registered, hasRnti]
  checking := by simp [new]
  allocated := by simp [new]

theorem registered_update_some {crnti value : Nat} (h : isCrnti crnti = true)
    (ht : t.values = Function.update s.values crnti (some value)) :
    t.registered = insert crnti s.registered := by
  ext x
  rw [Finset.mem_insert, mem_registered, mem_registered, hasRnti, ht]
  by_cases hx : x = crnti
  · simp [hx, h]
  · simp [hx, hasRnti]

theorem registered_update_none {crnti : Nat} (ht : t.values = Function.update s.values crnti none) :
    t.registered = s.registered.erase crnti := by
  ext x
  rw [Finset.mem_erase, mem_registered, mem_registered, hasRnti, ht]
  by_cases hx : x = crnti
  · simp [hx]
  · simp [hx, hasRnti]

namespace Inv

theorem addUe {crnti value : Nat} (h : s.Inv) (ht : s.addUe crnti value = .ok t) : t.Inv := by
  unfold RntiManager.addUe at ht
  by_cases harg : isCrnti crnti = false ∨ value = maxNofDuUes
  · rw [if_pos harg] at ht
    cases ht
  rw [if_neg harg] at ht
  cases ht
  rw [not_or] at harg
  have hcrnti : isCrnti crnti = true := by simpa using harg.1
  refine ⟨h.counter, ?_, h.checking, h.allocated⟩
  rw [registered_update_some hcrnti rfl]
  by_cases hmem : s.hasRnti crnti = true
  · rw [Finset.insert_eq_of_mem (mem_registered.mpr ⟨hcrnti, hmem⟩)]
    simp [hmem, h.nofUes]
  · rw [Finset.card_insert_of_notMem fun hc => hmem (mem_registered.mp hc).2]
    simp [hmem, h.nofUes]

theorem remUe {crnti : Nat} (h : s.Inv) (ht : s.remUe crnti = .ok t) : t.Inv := by
  unfold RntiManager.remUe at ht
  by_cases harg : isCrnti crnti = false
  · rw [if_pos harg] at ht
    cases ht
  rw [if_neg harg] at ht
  cases ht
  have hcrnti : isCrnti crnti = true := by simpa using harg
  refine ⟨h.counter, ?_, h.checking, h.allocated⟩
  rw [registered_update_none rfl]
  by_cases hmem : s.hasRnti crnti = true
  · rw [Finset.card_erase_of_mem (mem_registered.mpr ⟨hcrnti, hmem⟩)]
    simp [hmem, h.nofUes]
  · rw [Finset.erase_eq_of_notMem fun hc => hmem (mem_registered.mp hc).2]
    simp [hmem, h.nofUes]

theorem setCall (h : s.Inv) {call : Nat} {c : AllocateCall} (hc : ∀ rnti pos, c ≠ .checking rnti pos) :
    (s.setCall call c).Inv := by
  refine ⟨h.counter, h.nofUes, fun call' rnti pos hcall => ?_, h.allocated⟩
  simp only [RntiManager.setCall, Function.update_apply] at hcall
  split_ifs at hcall
  · exact absurd hcall (hc rnti pos)
  · exact h.checking call' rnti pos hcall

theorem allocate {call : Nat} (h : s.Inv) (ht : s.allocate call = .ok t) : t.Inv := by
  unfold RntiManager.allocate at ht
  split_ifs at ht
  · cases ht
    exact h
  · cases ht
    exact h.setCall (by simp)

theorem advance {call : Nat} (h : s.Inv) (ht : s.advance call = .ok t) : t.Inv := by
  unfold RntiManager.advance at ht
  cases hcall : s.calls call with
  | idle => simp [hcall] at ht
  | counting =>
    simp only [hcall] at ht
    cases ht
    refine ⟨?_, h.nofUes, fun call' rnti pos hc => ?_, h.allocated⟩
    · simp only [RntiManager.setCall, h.counter]
      lia
    · simp only [RntiManager.setCall, Function.update_apply] at hc
      split_ifs at hc
      · cases hc
        rw [h.counter]
      · exact h.checking call' rnti pos hc
  | checking rnti pos =>
    simp only [hcall] at ht
    split_ifs at ht
    · cases ht
      exact h.setCall (by simp)
    · cases ht
      have hlog : Inv { s with allocated := s.allocated ++ [⟨rnti, pos⟩] } := by
        refine ⟨h.counter, h.nofUes, h.checking, fun a ha => ?_⟩
        rcases List.mem_append.mp ha with hold | hnew
        · exact h.allocated a hold
        · rw [List.mem_singleton.mp hnew]
          exact h.checking call rnti pos hcall
      exact hlog.setCall (by simp)

theorem step (h : s.Inv) {e : RntiEvent} (ht : s.step e = .ok t) : t.Inv := by
  cases e with
  | allocate call => exact h.allocate ht
  | advance call => exact h.advance ht
  | addUe crnti value => exact h.addUe ht
  | remUe crnti => exact h.remUe ht

theorem run {initialRnti : Nat} (hinit : isCrnti initialRnti = true) {es : List RntiEvent}
    (hrun : Machine.run RntiManager.step (new initialRnti) es = .ok s) : s.Inv :=
  Machine.run_invariant Inv (fun _ _ _ hi _ ht => hi.step ht) (inv_new hinit)
    (Machine.admits_of_forall (fun _ _ => trivial) _ es) hrun

end Inv

/-! A call that is left alone returns -/

/-- The counter values in a stretch that are in the range, and so have RNTIs of their own. -/
def inRange (pos n : Nat) : Finset Nat := (Finset.range n).filter fun j => (pos + j) % 2 ^ 16 < crntiRange

theorem step_checking {call rnti pos : Nat} (h : s.calls call = .checking rnti pos) :
    s.step (.advance call) = .ok (if s.hasRnti rnti then s.setCall call .counting
      else { s with allocated := s.allocated ++ [TcRnti.mk rnti pos] }.setCall call .idle) := by
  simp only [step, advance, h]
  split_ifs <;> rfl

theorem turn {call : Nat} (hcall : s.calls call = .counting) :
    ∃ u, Machine.run step s [.advance call, .advance call] = .ok u ∧ u.hasRnti = s.hasRnti ∧ u.pos = s.pos + 1 ∧
      if s.hasRnti (tempCrnti s.rntiCounter) then u.calls call = .counting ∧ u.allocated = s.allocated
      else u.calls call = .idle ∧ u.allocated = s.allocated ++ [⟨tempCrnti s.rntiCounter, s.pos⟩] := by
  obtain ⟨v, hv⟩ : ∃ v, v = { s with rntiCounter := (s.rntiCounter + 1) % 2 ^ 16, pos := s.pos + 1 }.setCall call
      (.checking (tempCrnti s.rntiCounter) s.pos) := ⟨_, rfl⟩
  have hadd : s.step (.advance call) = .ok v := by
    simp only [step, advance, hcall, hv]
  have hcheck : v.calls call = .checking (tempCrnti s.rntiCounter) s.pos := by
    rw [hv]
    exact Function.update_self ..
  have htable : v.hasRnti = s.hasRnti := by
    rw [hv]
    rfl
  have hlog : v.allocated = s.allocated := by
    rw [hv]
    rfl
  have hpos : v.pos = s.pos + 1 := by
    rw [hv]
    rfl
  rw [Machine.run_cons_ok hadd, Machine.run_cons_ok (step_checking hcheck), htable]
  by_cases hused : s.hasRnti (tempCrnti s.rntiCounter) = true
  · rw [if_pos hused]
    refine ⟨_, rfl, htable, hpos, ?_⟩
    rw [if_pos hused]
    exact ⟨Function.update_self .., hlog⟩
  · rw [if_neg hused]
    refine ⟨_, rfl, htable, hpos, ?_⟩
    rw [if_neg hused, ← hlog]
    exact ⟨Function.update_self .., rfl⟩

end RntiManager

end Ocudu.Mac
