import Ocudu.Rlc.StatusPdu

/-! What the NACK list of a status PDU denotes, and what merging does to it. -/

namespace Ocudu.Rlc

open SeqNum

/-- The missing part of one SDU: its SN and the first and last missing byte. -/
structure Span where
  sn : Nat
  first : Nat
  last : Nat
  deriving DecidableEq

def Span.Covers (s : Span) (x : Nat × Nat) : Prop :=
  s.sn = x.1 ∧ s.first ≤ x.2 ∧ (s.last = RlcAmStatusNack.soEndOfSdu ∨ x.2 ≤ s.last)

namespace RlcAmStatusNack

variable {sz : RlcAmSnSize} {m : Nat} {nack left right : RlcAmStatusNack}

def span (item : RlcAmStatusNack) : Span := ⟨item.nackSn, item.soStart, item.soEnd⟩

def spans (m : Nat) (nacks : List RlcAmStatusNack) : List Span :=
  nacks.flatMap (fun nack => (nack.expand m).map span)

def spanAt (m : Nat) (nack : RlcAmStatusNack) (i : Nat) : Span :=
  ⟨(nack.nackSn + i) % m, if i = 0 then nack.soStart else 0,
    if i + 1 = nack.rangeLen then nack.soEnd else soEndOfSdu⟩

@[simp] theorem spans_nil : spans m [] = [] := rfl

@[simp] theorem spans_append (a b : List RlcAmStatusNack) :
    spans m (a ++ b) = spans m a ++ spans m b := by
  simp [spans]

theorem spans_cons (a : RlcAmStatusNack) (l : List RlcAmStatusNack) :
    spans m (a :: l) = spans m [a] ++ spans m l := by
  simp [spans]

theorem rangeItem_span (nack : RlcAmStatusNack) (rangeSn : Nat) :
    (nack.rangeItem m rangeSn).span =
      ⟨rangeSn, if rangeSn = nack.nackSn then nack.soStart else 0,
        if rangeSn = subU32 (nack.nackSn + nack.rangeLen) 1 % m then nack.soEnd else soEndOfSdu⟩ := by
  cases hso : nack.so with
  | none => simp [rangeItem, span, soStart, soEnd, hso]
  | some so =>
    simp only [rangeItem, span, soStart, soEnd, hso, Option.map_some, Option.getD_some]
    generalize (if rangeSn = nack.nackSn then so.soStart else 0) = first
    generalize (if rangeSn = subU32 (nack.nackSn + nack.rangeLen) 1 % m then so.soEnd
      else soEndOfSdu) = last
    by_cases h : first ≠ 0 ∨ last ≠ soEndOfSdu
    · simp [h]
    · push Not at h
      simp [h.1, h.2]

theorem spans_singleton (hwf : nack.Wf sz) :
    spans sz.mod [nack] = (List.range nack.rangeLen).map (nack.spanAt sz.mod) := by
  have hsn := hwf.nackSn_lt
  have hlen := hwf.rangeLen_lt
  cases hr : nack.nackRange with
  | none =>
    simp [spans, expand, hr, span, spanAt, rangeLen, Nat.mod_eq_of_lt hsn]
  | some range =>
    have hrange : nack.rangeLen = range := by simp [rangeLen, hr]
    rw [hrange] at hlen ⊢
    simp only [spans, expand, hr, List.flatMap_cons, List.flatMap_nil, List.append_nil,
      List.map_map]
    apply List.map_congr_left
    intro i hi
    rw [List.mem_range] at hi
    have hmod := sz.range_lt_window
    have h2 := sz.mod_eq_two_mul_window
    have hmodle := sz.mod_le
    -- inside one range, positions and SNs determine each other
    have hfirst : (nack.nackSn + i) % sz.mod = nack.nackSn ↔ i = 0 := by
      constructor
      · intro h
        have hb : (nack.nackSn + i) % sz.mod = nack.nackSn % sz.mod := by
          rw [h, Nat.mod_eq_of_lt hsn]
        have := mod_inj_of_window (a := nack.nackSn) (by omega) (by omega) (by omega) (by omega) hb
        omega
      · rintro rfl
        simpa using Nat.mod_eq_of_lt hsn
    have hlast : (nack.nackSn + i) % sz.mod = subU32 (nack.nackSn + range) 1 % sz.mod ↔
        i + 1 = range := by
      have hsub : subU32 (nack.nackSn + range) 1 = nack.nackSn + (range - 1) := by
        rw [subU32, dist_of_le (by omega) (by omega)]
        omega
      rw [hsub]
      constructor
      · intro h
        have := mod_inj_of_window (a := nack.nackSn) (by omega) (by omega) (by omega) (by omega) h
        omega
      · intro h
        rw [show i = range - 1 by omega]
    rw [Function.comp_apply, rangeItem_span]
    simp only [spanAt, hrange, Span.mk.injEq, true_and]
    exact ⟨if_congr hfirst rfl rfl, if_congr hlast rfl rfl⟩

theorem missing_eq_spans (nacks : List RlcAmStatusNack) :
    Missing m nacks = { x | ∃ s ∈ spans m nacks, s.Covers x } := by
  ext x
  simp only [Missing, spans, List.mem_flatMap, List.mem_map, Set.mem_ofPred_eq]
  constructor
  · rintro ⟨nack, hn, item, hi, hx⟩
    exact ⟨item.span, ⟨nack, hn, item, hi, rfl⟩, hx⟩
  · rintro ⟨s, ⟨nack, hn, item, hi, rfl⟩, hx⟩
    exact ⟨nack, hn, item, hi, hx⟩

end RlcAmStatusNack

namespace RlcAmStatusPdu

open RlcAmStatusNack

variable {sz : RlcAmSnSize} {m : Nat} {prev nack left right : RlcAmStatusNack}

theorem canBeMerged_iff : canBeMerged m left right = true ↔
    right.nackSn = (left.nackSn + left.rangeLen) % m ∧ left.soEnd = soEndOfSdu ∧
      right.soStart = 0 ∧ left.rangeLen + right.rangeLen ≤ 255 := by
  have hl : left.so.all (·.soEnd == soEndOfSdu) = true ↔ left.soEnd = soEndOfSdu := by
    cases h : left.so <;> simp [soEnd, h]
  have hr : right.so.all (·.soStart == 0) = true ↔ right.soStart = 0 := by
    cases h : right.so <;> simp [soStart, h]
  simp only [canBeMerged, Bool.and_eq_true, beq_iff_eq, decide_eq_true_eq, hl, hr]
  tauto

/-- No byte is lost by merging: a NACK for no SN at all must not carry offsets into its
neighbour. -/
def Lossless (left right : RlcAmStatusNack) : Prop :=
  (right.rangeLen = 0 → left.rangeLen = 0 ∨ right.soEnd = soEndOfSdu) ∧
    (left.rangeLen = 0 → right.rangeLen = 0 ∨ left.soStart = 0)

instance : Decidable (Lossless left right) := by
  unfold Lossless
  infer_instance

@[simp] theorem mergeNack_nackSn : (mergeNack prev nack).nackSn = prev.nackSn := rfl

theorem mergeNack_rangeLen (h : prev.rangeLen + nack.rangeLen ≤ 255) :
    (mergeNack prev nack).rangeLen = prev.rangeLen + nack.rangeLen := by
  simp only [rangeLen, mergeNack] at h ⊢
  cases hn : nack.nackRange <;> cases hp : prev.nackRange <;> simp [hn, hp] at h ⊢ <;> omega

@[simp] theorem mergeNack_soStart : (mergeNack prev nack).soStart = prev.soStart := by
  simp only [soStart, mergeNack]
  cases nack.so <;> cases prev.so <;> rfl

@[simp] theorem mergeNack_soEnd : (mergeNack prev nack).soEnd = nack.soEnd := by
  cases hn : nack.so <;> cases hp : prev.so <;> simp [soEnd, mergeNack, hn, hp]

theorem mergeNack_wf (hp : prev.Wf sz) (hn : nack.Wf sz)
    (hm : canBeMerged sz.mod prev nack = true) : (mergeNack prev nack).Wf sz := by
  obtain ⟨-, hend, -, hlen⟩ := canBeMerged_iff.mp hm
  constructor
  · exact hp.nackSn_lt
  · rw [mergeNack_soStart]
    exact hp.soStart_lt
  · rw [mergeNack_soEnd]
    exact hn.soEnd_lt
  · rw [mergeNack_rangeLen hlen]
    omega

theorem spans_mergeNack (hp : prev.Wf sz) (hn : nack.Wf sz)
    (hm : canBeMerged sz.mod prev nack = true) (hl : Lossless prev nack) :
    spans sz.mod [mergeNack prev nack] = spans sz.mod [prev] ++ spans sz.mod [nack] := by
  obtain ⟨hsn, hend, hstart, hlen⟩ := canBeMerged_iff.mp hm
  rw [spans_singleton (mergeNack_wf hp hn hm), spans_singleton hp, spans_singleton hn,
    mergeNack_rangeLen hlen, List.range_add, List.map_append, List.map_map]
  congr 1
  · apply List.map_congr_left
    intro i hi
    rw [List.mem_range] at hi
    simp only [spanAt, mergeNack_nackSn, mergeNack_soStart, mergeNack_soEnd,
      mergeNack_rangeLen hlen, hend]
    by_cases hz : nack.rangeLen = 0
    · have hne := (hl.1 hz).resolve_left (by omega)
      simp [hne]
    · have hne : i + 1 ≠ prev.rangeLen + nack.rangeLen := by omega
      simp [hne]
  · apply List.map_congr_left
    intro i hi
    rw [List.mem_range] at hi
    simp only [Function.comp_apply, spanAt, mergeNack_nackSn, mergeNack_soStart,
      mergeNack_soEnd, mergeNack_rangeLen hlen, hsn, hstart]
    have hsn' : ((prev.nackSn + prev.rangeLen) % sz.mod + i) % sz.mod =
        (prev.nackSn + (prev.rangeLen + i)) % sz.mod := by
      rw [Nat.mod_add_mod, Nat.add_assoc]
    have hlast : prev.rangeLen + i + 1 = prev.rangeLen + nack.rangeLen ↔ i + 1 = nack.rangeLen := by
      omega
    by_cases hz : prev.rangeLen = 0
    · have hs := (hl.2 hz).resolve_left (by omega)
      rw [hsn', if_congr hlast rfl rfl, hs]
      simp
    · have hne : prev.rangeLen + i ≠ 0 := by omega
      rw [hsn', if_congr hlast rfl rfl, if_neg hne]
      simp

/-! The list built by `push_nack`. -/

def pushed (m : Nat) (nacks : List RlcAmStatusNack) (nack : RlcAmStatusNack) :
    List RlcAmStatusNack :=
  match nacks.getLast? with
  | none => nacks ++ [nack]
  | some prev =>
    if canBeMerged m prev nack then nacks.dropLast ++ [mergeNack prev nack] else nacks ++ [nack]

@[simp] theorem pushNack_nacks (s : RlcAmStatusPdu) (nack : RlcAmStatusNack) :
    (s.pushNack nack).nacks = pushed s.snSize.mod s.nacks nack := by
  cases h : s.nacks.getLast? with
  | none => simp [pushNack, pushed, h, pushBack]
  | some prev =>
    simp only [pushNack, pushed, h, modNr]
    by_cases hm : canBeMerged s.snSize.mod prev nack = true
    · simp [hm]
    · simp [hm, pushBack]

@[simp] theorem pushNack_snSize (s : RlcAmStatusPdu) (nack : RlcAmStatusNack) :
    (s.pushNack nack).snSize = s.snSize := by
  simp only [pushNack]
  split
  · rfl
  · split <;> rfl

@[simp] theorem pushed_nil : pushed m [] nack = [nack] := rfl

theorem pushed_concat (init : List RlcAmStatusNack) :
    pushed m (init ++ [prev]) nack =
      if canBeMerged m prev nack then init ++ [mergeNack prev nack]
      else init ++ [prev] ++ [nack] := by
  simp [pushed]

def LosslessMerges (m : Nat) : Option RlcAmStatusNack → List RlcAmStatusNack → Prop
  | _, [] => True
  | none, nack :: rest => LosslessMerges m (some nack) rest
  | some prev, nack :: rest =>
    if canBeMerged m prev nack then
      Lossless prev nack ∧ LosslessMerges m (some (mergeNack prev nack)) rest
    else LosslessMerges m (some nack) rest

instance LosslessMerges.decidable (m : Nat) : (prev : Option RlcAmStatusNack) →
    (fields : List RlcAmStatusNack) → Decidable (LosslessMerges m prev fields)
  | _, [] => .isTrue (by simp [LosslessMerges])
  | none, nack :: rest =>
    have := LosslessMerges.decidable m (some nack) rest
    decidable_of_iff (LosslessMerges m (some nack) rest) Iff.rfl
  | some prev, nack :: rest =>
    have := LosslessMerges.decidable m (some (mergeNack prev nack)) rest
    have := LosslessMerges.decidable m (some nack) rest
    decidable_of_iff (if canBeMerged m prev nack then
      Lossless prev nack ∧ LosslessMerges m (some (mergeNack prev nack)) rest
      else LosslessMerges m (some nack) rest) Iff.rfl

theorem foldl_pushed_last (hprev : prev.Wf sz) (init : List RlcAmStatusNack)
    {fields : List RlcAmStatusNack} (hwf : ∀ nack ∈ fields, nack.Wf sz) :
    ∃ last rest, fields.foldl (pushed sz.mod) (init ++ [prev]) = init ++ last :: rest ∧
      last.Wf sz ∧ last.soStart = prev.soStart ∧ prev.rangeLen ≤ last.rangeLen ∧
      (prev.soEnd ≠ soEndOfSdu → last = prev) := by
  induction fields generalizing init prev with
  | nil => exact ⟨prev, [], by simp, hprev, rfl, Nat.le_refl _, fun _ => rfl⟩
  | cons nack fields ih =>
    have hn := hwf nack List.mem_cons_self
    have hfields := fun n hmem => hwf n (List.mem_cons_of_mem _ hmem)
    rw [List.foldl_cons, pushed_concat]
    by_cases hm : canBeMerged sz.mod prev nack = true
    · obtain ⟨-, hend, -, hlen⟩ := canBeMerged_iff.mp hm
      obtain ⟨last, rest, heq, h1, h2, h3, -⟩ := ih (mergeNack_wf hprev hn hm) init hfields
      rw [mergeNack_rangeLen hlen] at h3
      rw [mergeNack_soStart] at h2
      rw [if_pos hm]
      exact ⟨last, rest, heq, h1, h2, by omega, fun h => absurd hend h⟩
    · obtain ⟨last, rest, heq, -⟩ := ih hn (init ++ [prev]) hfields
      rw [if_neg hm]
      exact ⟨prev, last :: rest, by simpa using heq, hprev, rfl, Nat.le_refl _, fun _ => rfl⟩

theorem spanAt_mem_head {l : List Span} (hwf : nack.Wf sz) (hpos : 0 < nack.rangeLen) :
    (spans sz.mod [nack] ++ l).head? = some (nack.spanAt sz.mod 0) := by
  rw [spans_singleton hwf]
  obtain ⟨k, hk⟩ : ∃ k, nack.rangeLen = k + 1 := ⟨nack.rangeLen - 1, by omega⟩
  simp [hk, List.range_succ_eq_map]

theorem spans_ne_of_lossy (hp : prev.Wf sz) (hn : nack.Wf sz)
    (hm : canBeMerged sz.mod prev nack = true) (hl : ¬ Lossless prev nack)
    {last : RlcAmStatusNack} {a b : List Span} (hlast : last.Wf sz)
    (hstart : last.soStart = prev.soStart) (hlen : prev.rangeLen + nack.rangeLen ≤ last.rangeLen)
    (hend : nack.soEnd ≠ soEndOfSdu → last = mergeNack prev nack) :
    spans sz.mod [last] ++ a ≠ spans sz.mod [prev] ++ (spans sz.mod [nack] ++ b) := by
  obtain ⟨-, hpe, hns, hsum⟩ := canBeMerged_iff.mp hm
  intro heq
  simp only [Lossless, not_and_or, Classical.not_imp, not_or] at hl
  rcases hl with ⟨hnz, hpz, hne⟩ | ⟨hpz, hnz, hsz⟩
  · -- the merged NACK ends where the empty one said
    have hm' := hend hne
    subst hm'
    obtain ⟨k, hk⟩ : ∃ k, prev.rangeLen = k + 1 := ⟨prev.rangeLen - 1, by omega⟩
    have hget := congrArg (fun l => l[k]?) heq
    simp only [spans_singleton hlast, spans_singleton hp, mergeNack_rangeLen hsum, hk, hnz,
      Nat.add_zero] at hget
    rw [List.getElem?_append_left (by simp), List.getElem?_append_left (by simp)] at hget
    simp [spanAt, mergeNack_rangeLen hsum, hk, hnz, hpe, mergeNack_soEnd] at hget
    exact hne hget
  · -- the merged NACK starts where the empty one said
    have hprev : spans sz.mod [prev] = [] := by
      rw [spans_singleton hp, hpz]
      rfl
    have hhead := congrArg List.head? heq
    rw [hprev, List.nil_append, spanAt_mem_head hlast (by omega),
      spanAt_mem_head hn (by omega)] at hhead
    simp [spanAt, hstart, hns] at hhead
    exact hsz hhead.2.1

theorem spans_foldl_pushed (init : List RlcAmStatusNack) {fields : List RlcAmStatusNack}
    (hprev : prev.Wf sz) (hwf : ∀ nack ∈ fields, nack.Wf sz) :
    spans sz.mod (fields.foldl (pushed sz.mod) (init ++ [prev])) =
      spans sz.mod (init ++ [prev]) ++ spans sz.mod fields ↔
        LosslessMerges sz.mod (some prev) fields := by
  induction fields generalizing init prev with
  | nil => simp [LosslessMerges]
  | cons nack rest ih =>
    have hn := hwf nack List.mem_cons_self
    have hrest := fun n hmem => hwf n (List.mem_cons_of_mem _ hmem)
    rw [List.foldl_cons, pushed_concat, spans_cons nack rest, LosslessMerges]
    by_cases hm : canBeMerged sz.mod prev nack = true
    · rw [if_pos hm, if_pos hm]
      have hmw := mergeNack_wf hprev hn hm
      by_cases hl : Lossless prev nack
      · rw [← ih init hmw hrest]
        simp only [spans_append, spans_mergeNack hprev hn hm hl, List.append_assoc, hl, true_and]
      · obtain ⟨last, tail, heq, h1, h2, h3, h4⟩ := foldl_pushed_last hmw init hrest
        rw [mergeNack_soStart] at h2
        rw [mergeNack_rangeLen (canBeMerged_iff.mp hm).2.2.2] at h3
        rw [mergeNack_soEnd] at h4
        have hne := spans_ne_of_lossy hprev hn hm hl (a := spans sz.mod tail)
          (b := spans sz.mod rest) h1 h2 h3 h4
        simp only [hl, false_and, iff_false, heq, spans_append, spans_cons last tail,
          List.append_assoc]
        intro h
        exact hne (List.append_cancel_left h)
    · rw [if_neg hm, if_neg hm, ← ih (init ++ [prev]) hn hrest]
      simp only [spans_append, List.append_assoc]

theorem spans_foldl {fields : List RlcAmStatusNack} (hwf : ∀ nack ∈ fields, nack.Wf sz) :
    spans sz.mod (fields.foldl (pushed sz.mod) []) = spans sz.mod fields ↔
      LosslessMerges sz.mod none fields := by
  cases fields with
  | nil => simp [LosslessMerges]
  | cons nack rest =>
    rw [List.foldl_cons, pushed_nil, spans_cons nack rest, LosslessMerges,
      ← spans_foldl_pushed [] (hwf nack List.mem_cons_self)
        (fun n hmem => hwf n (List.mem_cons_of_mem _ hmem)), List.nil_append]

end RlcAmStatusPdu

end Ocudu.Rlc
