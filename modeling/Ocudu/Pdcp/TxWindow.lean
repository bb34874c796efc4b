import Ocudu.Basic.SnWindow
import Ocudu.Pdcp.Tx

/-! What the operations of the transmitter that remove SDUs do to its window. -/

namespace Ocudu.Pdcp.PdcpEntityTx

open CircularMap

variable {C : RohcCompressor} {cfg : PdcpTxConfig} {s t : PdcpEntityTx C} {c : Nat}

structure FirstLeft (w : CircularMap PdcpTxWindowElement) (a b top : Nat) : Prop where
  le : a ≤ b
  le_top : b ≤ top
  gone : ∀ x, a ≤ x → x < b → w.contains x = false
  first : b = top ∨ w.contains b = true

theorem advanceAck_eq (n : Nat) (s : PdcpEntityTx C) :
    ∃ b, advanceAck n s = { s with st := { s.st with txNextAck := b } } ∧
      FirstLeft s.txWindow s.st.txNextAck b (s.st.txNextAck + n) := by
  induction n generalizing s with
  | zero => exact ⟨s.st.txNextAck, rfl, le_refl _, le_refl _, by intros; omega, .inl rfl⟩
  | succ n ih =>
    unfold advanceAck
    split_ifs with h
    · exact ⟨s.st.txNextAck, rfl, le_refl _, by omega, by intros; omega, .inr h⟩
    · obtain ⟨b, hb, hfirst⟩ := ih { s with st := { s.st with txNextAck := s.st.txNextAck + 1 } }
      obtain ⟨hle, htop, hgone, hend⟩ := hfirst
      dsimp only at hle htop hgone hend
      refine ⟨b, hb, by omega, by omega, ?_, ?_⟩
      · intro x hx hxb
        by_cases hxe : x = s.st.txNextAck
        · rw [hxe]
          simpa using h
        · exact hgone x (by omega) hxb
      · rcases hend with hend | hend
        · exact .inl (by omega)
        · exact .inr hend

theorem removeSdu_eq (h : s.txWindow.contains c = true) :
    ∃ sb ns, s.removeSdu c = { s with
      txWindow := s.txWindow.erase c, sduBytes := sb, nofSdus := ns } := by
  obtain ⟨elem, he⟩ := lookup_of_contains h
  unfold removeSdu
  rw [he]
  exact ⟨_, _, rfl⟩

/-- A COUNT that is not in the window, or not between its edges, is not discarded. -/
def Discardable (cfg : PdcpTxConfig) (s : PdcpEntityTx C) (c : Nat) : Prop :=
  cfg.discardTimer.isSome = true ∧ s.st.txNextAck ≤ c ∧ c < s.st.txNext ∧
    s.txWindow.contains c = true

theorem discardPdu_of_not (h : ¬Discardable cfg s c) : s.discardPdu cfg c = s := by
  unfold discardPdu
  split_ifs with h1 h2 h3
  · rfl
  · rfl
  · refine absurd ⟨?_, ?_, ?_, h3⟩ h
    · cases hd : cfg.discardTimer with
      | none => simp [hd] at h1
      | some d => rfl
    · omega
    · omega
  · rfl

theorem discardPdu_of (h : Discardable cfg s c) :
    ∃ sb ns ds b, s.discardPdu cfg c = { s with
        txWindow := s.txWindow.erase c, sduBytes := sb, nofSdus := ns, discarded := ds
        st := { s.st with txNextAck := b, txTrans := max s.st.txTrans b } } ∧
      FirstLeft (s.txWindow.erase c) s.st.txNextAck b s.st.txNext := by
  obtain ⟨hd, hlo, hhi, hc⟩ := h
  obtain ⟨sb, ns, hr⟩ := removeSdu_eq hc
  have hnone : ¬cfg.discardTimer.isNone = true := by
    cases hx : cfg.discardTimer with
    | none => simp [hx] at hd
    | some d => simp
  have hout : ¬(c < s.st.txNextAck ∨ s.st.txNext ≤ c) := by omega
  unfold discardPdu
  rw [if_neg hnone, if_neg hout, if_neg (not_not.mpr hc), hr]
  dsimp only
  obtain ⟨b, hb, hfirst⟩ := advanceAck_eq (s.st.txNext - s.st.txNextAck)
    { s with txWindow := s.txWindow.erase c, sduBytes := sb, nofSdus := ns
             discarded := s.discarded ++ [cfg.snSize.snOf c] }
  dsimp only at hb hfirst
  rw [hb]
  refine ⟨_, _, _, b, rfl, ?_⟩
  have htop : s.st.txNextAck + (s.st.txNext - s.st.txNextAck) = s.st.txNext := by omega
  rw [htop] at hfirst
  exact hfirst

instance : Decidable (Discardable cfg s c) := by unfold Discardable; infer_instance

def LowEdge (s : PdcpEntityTx C) : Prop := ∀ x, s.txWindow.contains x = true → s.st.txNextAck ≤ x

/-- Only the window, its counters and its edges change. -/
structure Trimmed (s t : PdcpEntityTx C) : Prop where
  frame : t = { s with txWindow := t.txWindow, sduBytes := t.sduBytes, nofSdus := t.nofSdus
                       discarded := t.discarded
                       st := { s.st with txNextAck := t.st.txNextAck, txTrans := t.st.txTrans } }

theorem Trimmed.refl (s : PdcpEntityTx C) : Trimmed s s := ⟨rfl⟩

theorem Trimmed.trans {u : PdcpEntityTx C} (h : Trimmed s t) (h' : Trimmed t u) : Trimmed s u := by
  constructor
  have hf := h.frame
  have hf' := h'.frame
  rw [hf] at hf'
  exact hf'

theorem Trimmed.txNext (h : Trimmed s t) : t.st.txNext = s.st.txNext := by rw [h.frame]

theorem Trimmed.protocolFailures (h : Trimmed s t) : t.protocolFailures = s.protocolFailures := by
  rw [h.frame]

theorem discardPdu_trimmed (s : PdcpEntityTx C) (c : Nat) : Trimmed s (s.discardPdu cfg c) := by
  by_cases h : Discardable cfg s c
  · obtain ⟨sb, ns, ds, b, he, -⟩ := discardPdu_of h
    rw [he]
    exact ⟨rfl⟩
  · rw [discardPdu_of_not h]
    exact Trimmed.refl s

theorem discardPdu_lowEdge (h : LowEdge s) (c : Nat) : LowEdge (s.discardPdu cfg c) := by
  by_cases hd : Discardable cfg s c
  · obtain ⟨sb, ns, ds, b, he, hfirst⟩ := discardPdu_of hd
    rw [he]
    intro x hx
    dsimp only at hx ⊢
    by_contra hlt
    have hx' := (contains_erase _ _ _).mp hx
    rw [hfirst.gone x (h x hx'.2) (by omega)] at hx
    cases hx
  · rw [discardPdu_of_not hd]
    exact h

theorem contains_discardPdu (hd : cfg.discardTimer.isSome = true) (h : LowEdge s)
    (hc : c < s.st.txNext) (x : Nat) :
    (s.discardPdu cfg c).txWindow.contains x = true ↔ s.txWindow.contains x = true ∧ x ≠ c := by
  by_cases hdis : Discardable cfg s c
  · obtain ⟨sb, ns, ds, b, he, -⟩ := discardPdu_of hdis
    rw [he]
    dsimp only
    rw [contains_erase, and_comm]
  · rw [discardPdu_of_not hdis]
    constructor
    · intro hx
      refine ⟨hx, ?_⟩
      rintro rfl
      exact hdis ⟨hd, h x hx, hc, hx⟩
    · exact fun hx => hx.1

theorem contains_foldl_discardPdu (hd : cfg.discardTimer.isSome = true) (cs : List Nat)
    (h : LowEdge s) (hcs : ∀ c ∈ cs, c < s.st.txNext) :
    Trimmed s (cs.foldl (discardPdu cfg) s) ∧ LowEdge (cs.foldl (discardPdu cfg) s) ∧
      ∀ x, (cs.foldl (discardPdu cfg) s).txWindow.contains x = true ↔
        s.txWindow.contains x = true ∧ x ∉ cs := by
  induction cs generalizing s with
  | nil => exact ⟨Trimmed.refl s, h, by simp⟩
  | cons c cs ih =>
    have htrim := @discardPdu_trimmed C cfg s c
    obtain ⟨ht, hl, hx⟩ := ih (discardPdu_lowEdge h c)
      (fun c' hc' => by rw [htrim.txNext]; exact hcs c' (List.mem_cons_of_mem _ hc'))
    refine ⟨htrim.trans ht, hl, fun x => ?_⟩
    rw [List.foldl_cons, hx, contains_discardPdu hd h (hcs c List.mem_cons_self), List.mem_cons,
      not_or, and_assoc]

def reported (fmc : Nat) (bitmap : List Bool) : List Nat :=
  (List.range bitmap.length).filterMap fun i =>
    if bitmap.getD i false then some ((fmc + 1 + i) % 2 ^ 32) else none

theorem mem_reported {fmc : Nat} {bitmap : List Bool} {x : Nat} :
    x ∈ reported fmc bitmap ↔ ∃ i, bitmap.getD i false = true ∧ x = (fmc + 1 + i) % 2 ^ 32 := by
  unfold reported
  rw [List.mem_filterMap]
  constructor
  · rintro ⟨i, -, h⟩
    split_ifs at h with hb
    exact ⟨i, hb, by simpa using h.symm⟩
  · rintro ⟨i, hb, rfl⟩
    refine ⟨i, ?_, by rw [if_pos hb]⟩
    rw [List.mem_range]
    by_contra hle
    simp [List.getD, List.getElem?_eq_none (by omega : bitmap.length ≤ i)] at hb

theorem reported_cons (fmc : Nat) (bit : Bool) (bitmap : List Bool) :
    reported fmc (bit :: bitmap) =
      (if bit then [(fmc + 1) % 2 ^ 32] else []) ++ reported ((fmc + 1) % 2 ^ 32) bitmap := by
  unfold reported
  rw [List.length_cons, List.range_succ_eq_map, List.filterMap_cons, List.filterMap_map]
  have hfun : ((fun i => if (bit :: bitmap).getD i false = true then some ((fmc + 1 + i) % 2 ^ 32)
      else none) ∘ Nat.succ) = fun i => if bitmap.getD i false = true then
        some (((fmc + 1) % 2 ^ 32 + 1 + i) % 2 ^ 32) else none := by
    funext i
    simp only [Function.comp_apply, Nat.succ_eq_add_one, List.getD_cons_succ]
    congr 2
    lia
  rw [hfun]
  cases bit with
  | false => simp
  | true => simp

theorem discardReported_eq (fmc : Nat) (bitmap : List Bool) (s : PdcpEntityTx C) :
    s.discardReported cfg fmc bitmap = (reported fmc bitmap).foldl (discardPdu cfg) s := by
  induction bitmap generalizing fmc s with
  | nil => rfl
  | cons bit bitmap ih =>
    unfold discardReported
    dsimp only
    rw [ih, reported_cons, List.foldl_append]
    cases bit with
    | false => rfl
    | true => rfl

def acknowledged (fmc : Nat) (bitmap : List Bool) (s : PdcpEntityTx C) : List Nat :=
  List.range' s.st.txNextAck (fmc - s.st.txNextAck) ++ reported fmc bitmap

theorem handleStatusReport_of_accepted {bytes : List UInt8} {fmc : Nat} {bitmap : List Bool}
    (h : readStatusReport s.st.txNext bytes = .accepted fmc bitmap) :
    s.handleStatusReport cfg bytes = (acknowledged fmc bitmap s).foldl (discardPdu cfg) s := by
  unfold handleStatusReport acknowledged
  rw [h]
  dsimp only
  rw [discardReported_eq, List.foldl_append]

end Ocudu.Pdcp.PdcpEntityTx
