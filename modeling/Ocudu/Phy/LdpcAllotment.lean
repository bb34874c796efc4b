import Ocudu.Phy.LdpcBitSelection
import Ocudu.Phy.LdpcRateDematcher

/-! `allot_llrs` adds the soft bits to the positions that bit selection takes bits from; for new data, some of
the other positions are cleared. -/

namespace Ocudu.Phy

open RingWalk Ldpc

section Combined

variable {out input : List LogLikelihoodRatio} {i : Nat}

/-- The soft bits are added to their positions one after the other. -/
def combined (out : List LogLikelihoodRatio) (ps : List Nat) (input : List LogLikelihoodRatio) :
    List LogLikelihoodRatio :=
  out.mapIdx fun i x => (valuesAt i (ps.zip input)).foldl (· + ·) x

theorem getElem?_combined (out : List LogLikelihoodRatio) (ps : List Nat) (input : List LogLikelihoodRatio)
    (i : Nat) : (combined out ps input)[i]? = out[i]?.map fun x => (valuesAt i (ps.zip input)).foldl (· + ·) x :=
  List.getElem?_mapIdx

@[simp] theorem combined_nil (out : List LogLikelihoodRatio) (ps : List Nat) : combined out ps [] = out := by
  apply List.ext_getElem?
  intro i
  rw [getElem?_combined, List.zip_nil_right]
  simp

theorem combined_append {ps qs : List Nat} {xs ys : List LogLikelihoodRatio} (h : ps.length = xs.length) :
    combined out (ps ++ qs) (xs ++ ys) = combined (combined out ps xs) qs ys := by
  apply List.ext_getElem?
  intro i
  simp only [getElem?_combined, List.zip_append h, valuesAt_append, List.foldl_append, Option.map_map]
  rfl

theorem combineRange_eq (out : List LogLikelihoodRatio) (start : Nat) (vs : List LogLikelihoodRatio) :
    combineRange out start vs = combined out (List.range' start vs.length) vs := by
  apply List.ext_getElem?
  intro i
  rw [combineRange, getElem?_updateRange_eq, getElem?_combined]

theorem getElem?_copyRange (out : List LogLikelihoodRatio) (start : Nat) (vs : List LogLikelihoodRatio) (i : Nat) :
    (copyRange out start vs)[i]? =
      out[i]?.map fun x => (valuesAt i ((List.range' start vs.length).zip vs)).foldl (fun _ v => v) x :=
  getElem?_updateRange_eq ..

@[simp] theorem length_copyRange (out : List LogLikelihoodRatio) (start : Nat) (vs : List LogLikelihoodRatio) :
    (copyRange out start vs).length = out.length := length_updateRange ..

theorem getElem?_fillRange (out : List LogLikelihoodRatio) (start n : Nat) (v : LogLikelihoodRatio) (i : Nat) :
    (fillRange out start n v)[i]? = out[i]?.map fun x => if start ≤ i ∧ i < start + n then v else x := by
  rw [fillRange, copyRange, getElem?_updateRange]
  congr 1
  funext x
  by_cases h : start ≤ i
  · rw [if_pos h, List.getElem?_replicate]
    by_cases hn : i - start < n
    · rw [if_pos hn, if_pos ⟨h, by omega⟩]
      rfl
    · rw [if_neg hn, if_neg (by omega)]
      rfl
  · rw [if_neg h, if_neg (by omega)]

end Combined

namespace RateMatching

variable {p : RateMatching} {tmpIdx n : Nat}

def nbitsSystematic (p : RateMatching) (tmpIdx n : Nat) : Nat :=
  if tmpIdx < p.nofInfoBits then min (p.nofInfoBits - tmpIdx) n else 0

def parityStart (p : RateMatching) (tmpIdx n : Nat) : Nat :=
  if tmpIdx + p.nbitsSystematic tmpIdx n < p.nofSystematicBits then p.nofSystematicBits
  else tmpIdx + p.nbitsSystematic tmpIdx n

def nbitsParity (p : RateMatching) (tmpIdx n : Nat) : Nat :=
  min (p.bufferLength - p.parityStart tmpIdx n) (n - p.nbitsSystematic tmpIdx n)

def nextIdx (p : RateMatching) (tmpIdx n : Nat) : Nat :=
  (p.parityStart tmpIdx n + p.nbitsParity tmpIdx n) % p.bufferLength

def roundPositions (p : RateMatching) (tmpIdx n : Nat) : List Nat :=
  List.range' tmpIdx (p.nbitsSystematic tmpIdx n) ++ List.range' (p.parityStart tmpIdx n) (p.nbitsParity tmpIdx n)

def nbitsRound (p : RateMatching) (tmpIdx n : Nat) : Nat := p.nbitsSystematic tmpIdx n + p.nbitsParity tmpIdx n

theorem nbitsSystematic_le (p : RateMatching) (tmpIdx n : Nat) : p.nbitsSystematic tmpIdx n ≤ n := by
  unfold nbitsSystematic
  split
  · exact min_le_right _ _
  · exact Nat.zero_le n

theorem nbitsRound_le (p : RateMatching) (tmpIdx n : Nat) : p.nbitsRound tmpIdx n ≤ n := by
  have h := nbitsSystematic_le p tmpIdx n
  have h' : p.nbitsParity tmpIdx n ≤ n - p.nbitsSystematic tmpIdx n := min_le_right _ _
  unfold nbitsRound
  omega

theorem nbitsSystematic_cases (p : RateMatching) (tmpIdx n : Nat) :
    p.nbitsSystematic tmpIdx n = 0 ∨ tmpIdx + p.nbitsSystematic tmpIdx n ≤ p.nofInfoBits := by
  unfold nbitsSystematic
  split
  · omega
  · exact .inl rfl

theorem parityStart_le (h : p.Wf) (hi : tmpIdx < p.bufferLength) : p.parityStart tmpIdx n ≤ p.bufferLength := by
  have hle := h.buffer
  have hinfo := p.nofInfoBits_le
  have hsys := nbitsSystematic_cases p tmpIdx n
  unfold parityStart
  split
  · exact hle
  · omega

theorem walk_round (h : p.Wf) (hi : tmpIdx < p.bufferLength) :
    (gap h).walk n tmpIdx = p.roundPositions tmpIdx n ++
      (gap h).walk (n - p.nbitsRound tmpIdx n) (p.nextIdx tmpIdx n) := by
  have hle := h.buffer
  have hinfo := p.nofInfoBits_le
  have hsys := nbitsSystematic_le p tmpIdx n
  have hround := nbitsRound_le p tmpIdx n
  have hstart := parityStart_le (n := n) h hi
  have hfirst : (gap h).walk n tmpIdx = List.range' tmpIdx (p.nbitsSystematic tmpIdx n) ++
      (gap h).walk (n - p.nbitsSystematic tmpIdx n) ((tmpIdx + p.nbitsSystematic tmpIdx n) % p.bufferLength) := by
    have hbound := nbitsSystematic_cases p tmpIdx n
    have hchunk := Gap.walk_chunk (g := gap h) (c := p.nbitsSystematic tmpIdx n) hi
      (by change _ ≤ p.bufferLength; omega) (fun k hk hk' => by rw [not_mem_iff]; omega)
      (n - p.nbitsSystematic tmpIdx n)
    rwa [Nat.add_sub_cancel' hsys] at hchunk
  have hskip : (gap h).walk (n - p.nbitsSystematic tmpIdx n)
        ((tmpIdx + p.nbitsSystematic tmpIdx n) % p.bufferLength) =
      (gap h).walk (n - p.nbitsSystematic tmpIdx n) (p.parityStart tmpIdx n % p.bufferLength) := by
    unfold parityStart
    split
    · rename_i hlt
      rcases hsys.lt_or_eq with hmore | hall
      · -- The filler bits are reached, since there is input left.
        have hmem : (gap h).Mem (tmpIdx + p.nbitsSystematic tmpIdx n) := by
          refine ⟨?_, hlt⟩
          change p.nofInfoBits ≤ _
          unfold nbitsSystematic at hmore ⊢
          split at hmore
          · rw [if_pos ‹_›]
            omega
          · omega
        rw [Nat.mod_eq_of_lt (hlt.trans_le hle)]
        exact Gap.walk_of_mem hmem _
      · rw [hall, Nat.sub_self, Gap.walk_zero, Gap.walk_zero]
    · rfl
  have hlow : p.nofSystematicBits ≤ p.parityStart tmpIdx n := by
    unfold parityStart
    split
    · exact le_rfl
    · omega
  have hparity : p.nbitsParity tmpIdx n ≤ p.chunkStop (p.parityStart tmpIdx n) - p.parityStart tmpIdx n := by
    have hend : p.chunkStop (p.parityStart tmpIdx n) = p.bufferLength := if_neg (by omega)
    rw [hend]
    exact min_le_left _ _
  have hrest : n - p.nbitsSystematic tmpIdx n = p.nbitsParity tmpIdx n + (n - p.nbitsRound tmpIdx n) := by
    unfold nbitsRound at hround ⊢
    omega
  rw [hfirst, hskip, hrest, walk_chunkStop h hstart (by rw [not_mem_iff]; exact .inr hlow) hparity, roundPositions,
    List.append_assoc, nextIdx]

theorem nextIdx_lt (h : p.Wf) (tmpIdx n : Nat) : p.nextIdx tmpIdx n < p.bufferLength := Nat.mod_lt _ (gap h).n_pos

theorem nbitsRound_pos (h : p.Wf) (hi : tmpIdx < p.bufferLength) (hn : 0 < n) :
    0 < p.nbitsRound tmpIdx n ∨ p.isFiller tmpIdx = true ∧ p.isFiller (p.nextIdx tmpIdx n) = false := by
  by_contra hcon
  obtain ⟨hzero, hstay⟩ := not_or.mp hcon
  apply hstay
  have hle := h.buffer
  have hround : p.nbitsRound tmpIdx n = 0 := by omega
  unfold nbitsRound at hround
  have hsys : p.nbitsSystematic tmpIdx n = 0 := by omega
  have hparity : p.nbitsParity tmpIdx n = 0 := by omega
  have hinfo : p.nofInfoBits ≤ tmpIdx := by
    unfold nbitsSystematic at hsys
    split at hsys
    · omega
    · omega
  have hend : p.bufferLength ≤ p.parityStart tmpIdx n := by
    unfold nbitsParity at hparity
    omega
  have hlast : p.parityStart tmpIdx n = p.bufferLength := le_antisymm (parityStart_le h hi) hend
  have hmem : tmpIdx < p.nofSystematicBits := by
    unfold parityStart at hlast
    rw [hsys] at hlast
    split at hlast
    · omega
    · omega
  refine ⟨(isFiller_iff h tmpIdx).mpr ⟨hinfo, hmem⟩, ?_⟩
  rw [nextIdx, hparity, hlast, Nat.add_zero, Nat.mod_self, ← Bool.not_eq_true, isFiller_iff h, not_mem_iff]
  exact .inl (nofInfoBits_pos h)

section Round

variable {s : AllotState}

theorem allotSystematic_eq (p : RateMatching) (s : AllotState) : p.allotSystematic s =
    { out :=
        if s.isCopyMode then
          copyRange (fillRange s.out 0 (min s.tmpIdx p.nofInfoBits) 0) s.tmpIdx
            (s.input.take (p.nbitsSystematic s.tmpIdx s.input.length))
        else combineRange s.out s.tmpIdx (s.input.take (p.nbitsSystematic s.tmpIdx s.input.length))
      tmpIdx := s.tmpIdx + p.nbitsSystematic s.tmpIdx s.input.length
      input := s.input.drop (p.nbitsSystematic s.tmpIdx s.input.length)
      isCopyMode := s.isCopyMode } := by
  unfold allotSystematic nbitsSystematic
  split
  · rename_i hlt
    rw [min_eq_left hlt.le]
  · rename_i hge
    rw [min_eq_right (not_lt.mp hge), List.take_zero, List.drop_zero, Nat.add_zero, combineRange_eq]
    have hcopy (out : List LogLikelihoodRatio) : copyRange out s.tmpIdx [] = out := by
      apply List.ext_getElem?
      intro i
      rw [getElem?_copyRange]
      simp
    rw [hcopy, combined_nil]
    split
    · rfl
    · rfl

theorem allotRound_eq (p : RateMatching) (s : AllotState) :
    p.allotRound s =
      { out :=
          if s.isCopyMode then
            copyRange (fillRange (p.allotSystematic s).out p.nofInfoBits p.nofFillerBits .infinity)
              (p.parityStart s.tmpIdx s.input.length)
              ((s.input.drop (p.nbitsSystematic s.tmpIdx s.input.length)).take
                (p.nbitsParity s.tmpIdx s.input.length))
          else
            combineRange (p.allotSystematic s).out (p.parityStart s.tmpIdx s.input.length)
              ((s.input.drop (p.nbitsSystematic s.tmpIdx s.input.length)).take
                (p.nbitsParity s.tmpIdx s.input.length))
        tmpIdx := p.nextIdx s.tmpIdx s.input.length
        input := s.input.drop (p.nbitsRound s.tmpIdx s.input.length)
        isCopyMode :=
          if (s.input.drop (p.nbitsRound s.tmpIdx s.input.length)).isEmpty then s.isCopyMode else false } := by
  rw [allotRound, allotSystematic_eq p s]
  simp only [allotFiller, allotParity, List.length_drop, nbitsRound, ← List.drop_drop]
  cases s.isCopyMode with
  | true => rfl
  | false => rfl

theorem length_take_systematic (p : RateMatching) (input : List LogLikelihoodRatio) (tmpIdx : Nat) :
    (input.take (p.nbitsSystematic tmpIdx input.length)).length = p.nbitsSystematic tmpIdx input.length :=
  List.length_take_of_le (nbitsSystematic_le ..)

theorem length_take_parity (p : RateMatching) (input : List LogLikelihoodRatio) (tmpIdx : Nat) :
    ((input.drop (p.nbitsSystematic tmpIdx input.length)).take (p.nbitsParity tmpIdx input.length)).length =
      p.nbitsParity tmpIdx input.length := by
  refine List.length_take_of_le ?_
  rw [List.length_drop]
  exact min_le_right _ _

theorem take_round (p : RateMatching) (input : List LogLikelihoodRatio) (tmpIdx : Nat) :
    input.take (p.nbitsRound tmpIdx input.length) =
      input.take (p.nbitsSystematic tmpIdx input.length) ++
        (input.drop (p.nbitsSystematic tmpIdx input.length)).take (p.nbitsParity tmpIdx input.length) := by
  rw [nbitsRound, List.take_add]

theorem allotRound_combine (hmode : s.isCopyMode = false) : p.allotRound s =
    { out := combined s.out (p.roundPositions s.tmpIdx s.input.length)
        (s.input.take (p.nbitsRound s.tmpIdx s.input.length))
      tmpIdx := p.nextIdx s.tmpIdx s.input.length
      input := s.input.drop (p.nbitsRound s.tmpIdx s.input.length)
      isCopyMode := false } := by
  rw [allotRound_eq, allotSystematic_eq]
  simp only [hmode, Bool.false_eq_true, if_false, ite_self, combineRange_eq, length_take_systematic,
    length_take_parity]
  rw [take_round, roundPositions, combined_append]
  rw [List.length_range', length_take_systematic]

/-- What a round that copies leaves at a position before it adds its soft bits there: nothing is cleared
between the filler bits and the parity bits, nor behind its last bit. -/
def copyBase (p : RateMatching) (tmpIdx n i : Nat) (x : LogLikelihoodRatio) : LogLikelihoodRatio :=
  if p.isFiller i then .infinity
  else if i < min tmpIdx p.nofInfoBits ∨ i ∈ p.roundPositions tmpIdx n then 0
  else x

theorem valuesAt_chunk {start i : Nat} {vs : List LogLikelihoodRatio} (h : i ∈ List.range' start vs.length) :
    ∃ v, valuesAt i ((List.range' start vs.length).zip vs) = [v] := by
  rw [List.mem_range'_1] at h
  rw [valuesAt_range', if_pos h.1, List.getElem?_eq_getElem (by omega)]
  exact ⟨_, rfl⟩

theorem getElem?_allotRound_copy (h : p.Wf) (hmode : s.isCopyMode = true) (i : Nat) :
    (p.allotRound s).out[i]? = s.out[i]?.map fun x =>
      (valuesAt i ((p.roundPositions s.tmpIdx s.input.length).zip
        (s.input.take (p.nbitsRound s.tmpIdx s.input.length)))).foldl (· + ·)
          (p.copyBase s.tmpIdx s.input.length i x) := by
  have hinfo := p.nofInfoBits_le
  have hfillers : p.nofInfoBits + p.nofFillerBits = p.nofSystematicBits := by
    have := h.filler
    unfold nofInfoBits
    omega
  have hsys := nbitsSystematic_cases p s.tmpIdx s.input.length
  have hlow : p.nofSystematicBits ≤ p.parityStart s.tmpIdx s.input.length := by
    unfold parityStart
    split
    · exact le_rfl
    · omega
  have hl₁ := length_take_systematic p s.input s.tmpIdx
  have hl₂ := length_take_parity p s.input s.tmpIdx
  rw [allotRound_eq, allotSystematic_eq]
  simp only [hmode, if_true, getElem?_copyRange, getElem?_fillRange, Option.map_map]
  rw [take_round, roundPositions, List.zip_append (by rw [List.length_range', hl₁]), valuesAt_append]
  congr 1
  funext x
  simp only [Function.comp_apply, List.foldl_append, copyBase, roundPositions, isFiller, Bool.and_eq_true,
    decide_eq_true_eq, List.mem_append, hfillers]
  generalize s.input.take (p.nbitsSystematic s.tmpIdx s.input.length) = xs at hl₁ ⊢
  generalize (s.input.drop (p.nbitsSystematic s.tmpIdx s.input.length)).take
    (p.nbitsParity s.tmpIdx s.input.length) = ys at hl₂ ⊢
  rw [← hl₁] at hsys ⊢
  rw [← hl₂]
  by_cases hm₁ : i ∈ List.range' s.tmpIdx xs.length
  · obtain ⟨v, hv⟩ := valuesAt_chunk hm₁
    have hrange := List.mem_range'_1.mp hm₁
    have hout : i ∉ List.range' (p.parityStart s.tmpIdx s.input.length) ys.length := by
      rw [List.mem_range'_1]
      omega
    have hnot : ¬(p.nofInfoBits ≤ i ∧ i < p.nofSystematicBits) := by omega
    simp [hv, valuesAt_eq_nil hout, if_neg hnot, hm₁]
  · rw [valuesAt_eq_nil hm₁]
    by_cases hm₂ : i ∈ List.range' (p.parityStart s.tmpIdx s.input.length) ys.length
    · obtain ⟨v, hv⟩ := valuesAt_chunk hm₂
      have hrange := List.mem_range'_1.mp hm₂
      have hnot : ¬(p.nofInfoBits ≤ i ∧ i < p.nofSystematicBits) := by omega
      simp [hv, if_neg hnot, hm₂]
    · rw [valuesAt_eq_nil hm₂]
      simp only [List.foldl_nil, hm₁, hm₂, or_false, Nat.zero_le, true_and, Nat.zero_add]

end Round

section Rounds

variable {s : AllotState} {fuel : Nat} {out input : List LogLikelihoodRatio}

theorem allotLoop_done (h : 0 < fuel) (hempty : s.input = []) : p.allotLoop fuel s = .ok s := by
  obtain ⟨k, rfl⟩ := Nat.exists_eq_succ_of_ne_zero h.ne'
  rw [allotLoop, hempty]
  rfl

theorem allotLoop_combine (h : p.Wf) (hmode : s.isCopyMode = false) (hi : s.tmpIdx < p.bufferLength)
    (hfuel : 2 * s.input.length + (if p.isFiller s.tmpIdx then 1 else 0) < fuel) :
    ∃ t, p.allotLoop fuel s = .ok ⟨combined s.out ((gap h).walk s.input.length s.tmpIdx) s.input, t, [], false⟩ := by
  induction fuel generalizing s with
  | zero => lia
  | succ fuel ih =>
    rcases hin : s.input with _ | ⟨x, xs⟩
    · refine ⟨s.tmpIdx, ?_⟩
      rw [allotLoop_done (Nat.succ_pos fuel) hin, combined_nil, ← hmode, ← hin]
    · have hpos : 0 < s.input.length := by
        rw [hin]
        exact Nat.succ_pos _
      have hround := nbitsRound_le p s.tmpIdx s.input.length
      have hprogress := nbitsRound_pos h hi hpos
      rw [allotLoop, if_neg (by rw [hin]; simp), allotRound_combine hmode, ← hin]
      obtain ⟨t, ht⟩ := @ih
        { out := combined s.out (p.roundPositions s.tmpIdx s.input.length)
            (s.input.take (p.nbitsRound s.tmpIdx s.input.length))
          tmpIdx := p.nextIdx s.tmpIdx s.input.length
          input := s.input.drop (p.nbitsRound s.tmpIdx s.input.length)
          isCopyMode := false } rfl (nextIdx_lt h _ _) (by
            simp only [List.length_drop]
            have hflag : (if p.isFiller (p.nextIdx s.tmpIdx s.input.length) then 1 else 0) ≤ 1 := by
              split
              · exact le_rfl
              · exact Nat.zero_le _
            rcases hprogress with hpos | ⟨hfiller, hnot⟩
            · omega
            · rw [if_pos hfiller] at hfuel
              rw [hnot, if_neg (by simp)]
              omega)
      refine ⟨t, ht.trans ?_⟩
      have hlen : (p.roundPositions s.tmpIdx s.input.length).length =
          (s.input.take (p.nbitsRound s.tmpIdx s.input.length)).length := by
        rw [List.length_take_of_le hround, roundPositions, List.length_append, List.length_range', List.length_range',
          nbitsRound]
      rw [← combined_append hlen, List.take_append_drop, List.length_drop, ← walk_round h hi]

theorem allotLlrs_combine (h : p.Wf) (hfuel : 2 * input.length + 1 < fuel) :
    p.allotLlrs fuel false out input = .ok (combined out (selected h input.length) input) := by
  obtain ⟨t, ht⟩ := allotLoop_combine (s := ⟨out, p.shiftK0, input, false⟩) h rfl h.shift (by
    change 2 * input.length + _ < fuel
    split
    · exact hfuel
    · omega)
  rw [allotLlrs, ht]
  rfl

/-- The positions of a buffer of `size` soft bits that hold nothing of the earlier contents. -/
def Cleared (p : RateMatching) (size n i : Nat) : Prop :=
  i < min p.shiftK0 p.nofInfoBits ∨ i ∈ p.roundPositions p.shiftK0 n ∨
    p.nbitsRound p.shiftK0 n = n ∧ p.nextIdx p.shiftK0 n ≠ 0 ∧
      size - (p.bufferLength - p.nextIdx p.shiftK0 n) ≤ i

instance (size n i : Nat) : Decidable (p.Cleared size n i) := inferInstanceAs (Decidable (_ ∨ _ ∨ _))

def newBase (p : RateMatching) (size n i : Nat) (x : LogLikelihoodRatio) : LogLikelihoodRatio :=
  if p.isFiller i then .infinity else if p.Cleared size n i then 0 else x

theorem not_mem_of_nextIdx_le (p : RateMatching) {i : Nat} (hi : tmpIdx < p.bufferLength)
    (hle : p.nofSystematicBits ≤ p.bufferLength) (hne : p.nextIdx tmpIdx n ≠ 0) (h : p.nextIdx tmpIdx n ≤ i) :
    p.isFiller i = false ∧ i ∉ p.roundPositions tmpIdx n := by
  have hinfo := p.nofInfoBits_le
  have hsys := nbitsSystematic_cases p tmpIdx n
  have hlow : p.nofSystematicBits ≤ p.parityStart tmpIdx n := by
    unfold parityStart
    split
    · exact le_rfl
    · omega
  have hhigh : p.parityStart tmpIdx n ≤ p.bufferLength := by
    unfold parityStart
    split
    · exact hle
    · omega
  have hend : p.parityStart tmpIdx n + p.nbitsParity tmpIdx n ≤ p.bufferLength := by
    have : p.nbitsParity tmpIdx n ≤ p.bufferLength - p.parityStart tmpIdx n := min_le_left _ _
    omega
  have hnext : p.nextIdx tmpIdx n = p.parityStart tmpIdx n + p.nbitsParity tmpIdx n := by
    rw [nextIdx]
    refine Nat.mod_eq_of_lt (hend.lt_of_ne fun heq => hne ?_)
    rw [nextIdx, heq, Nat.mod_self]
  refine ⟨?_, ?_⟩
  · rw [isFiller, ← Bool.not_eq_true, Bool.and_eq_true, decide_eq_true_eq, decide_eq_true_eq]
    omega
  · rw [roundPositions, List.mem_append, List.mem_range'_1, List.mem_range'_1]
    omega

theorem allotLlrs_new (h : p.Wf) (hsize : p.bufferLength ≤ out.length) (hpos : 0 < input.length)
    (hfuel : 2 * input.length + 1 < fuel) :
    ∃ result, p.allotLlrs fuel true out input = .ok result ∧ ∀ i, result[i]? = out[i]?.map fun x =>
      (valuesAt i ((selected h input.length).zip input)).foldl (· + ·) (p.newBase out.length input.length i x) := by
  obtain ⟨k, rfl⟩ := Nat.exists_eq_succ_of_ne_zero (show fuel ≠ 0 by omega)
  have hfirst := getElem?_allotRound_copy (s := ⟨out, p.shiftK0, input, true⟩) h rfl
  have hround := nbitsRound_le p p.shiftK0 input.length
  have hstep : p.allotLoop (k + 1) ⟨out, p.shiftK0, input, true⟩ =
      p.allotLoop k (p.allotRound ⟨out, p.shiftK0, input, true⟩) := by
    rw [allotLoop, if_neg]
    rw [List.isEmpty_iff]
    rintro rfl
    exact absurd hpos (lt_irrefl 0)
  have hsplit : selected h input.length = p.roundPositions p.shiftK0 input.length ++
      (gap h).walk (input.length - p.nbitsRound p.shiftK0 input.length) (p.nextIdx p.shiftK0 input.length) :=
    walk_round h h.shift
  have hlen : (p.roundPositions p.shiftK0 input.length).length =
      (input.take (p.nbitsRound p.shiftK0 input.length)).length := by
    rw [List.length_take_of_le hround, roundPositions, List.length_append, List.length_range', List.length_range',
      nbitsRound]
  have hlength : (p.allotRound ⟨out, p.shiftK0, input, true⟩).out.length = out.length := by
    rw [allotRound_eq, allotSystematic_eq]
    simp [fillRange]
  have htmp : (p.allotRound ⟨out, p.shiftK0, input, true⟩).tmpIdx = p.nextIdx p.shiftK0 input.length := by
    rw [allotRound_eq]
  have hrest : (p.allotRound ⟨out, p.shiftK0, input, true⟩).input =
      input.drop (p.nbitsRound p.shiftK0 input.length) := by
    rw [allotRound_eq]
  have hmode : (p.allotRound ⟨out, p.shiftK0, input, true⟩).isCopyMode =
      if (input.drop (p.nbitsRound p.shiftK0 input.length)).isEmpty then true else false := by
    rw [allotRound_eq]
  generalize p.allotRound ⟨out, p.shiftK0, input, true⟩ = s at hstep hfirst hlength htmp hrest hmode
  rcases hround.lt_or_eq with hmore | hall
  · -- The other rounds combine.
    have hne : ¬(input.drop (p.nbitsRound p.shiftK0 input.length)).isEmpty = true := by
      rw [List.isEmpty_iff, List.drop_eq_nil_iff]
      omega
    rw [if_neg hne] at hmode
    have hleft : 2 * s.input.length + (if p.isFiller s.tmpIdx then 1 else 0) < k := by
      have hflag : (if p.isFiller s.tmpIdx then 1 else 0) ≤ 1 := by
        split
        · exact le_rfl
        · exact Nat.zero_le _
      rw [hrest, List.length_drop]
      rcases nbitsRound_pos h h.shift hpos with hpos | ⟨-, hnot⟩
      · omega
      · rw [htmp, hnot, if_neg (by simp)]
        omega
    obtain ⟨t, ht⟩ := allotLoop_combine h hmode (by rw [htmp]; exact nextIdx_lt h _ _) hleft
    refine ⟨combined s.out ((gap h).walk s.input.length s.tmpIdx) s.input, ?_, fun i => ?_⟩
    · rw [allotLlrs, hstep, ht]
      rfl
    · have hzip : (p.roundPositions p.shiftK0 input.length ++ (gap h).walk
            (input.length - p.nbitsRound p.shiftK0 input.length) (p.nextIdx p.shiftK0 input.length)).zip
          (input.take (p.nbitsRound p.shiftK0 input.length) ++ input.drop (p.nbitsRound p.shiftK0 input.length)) =
          _ ++ _ := List.zip_append hlen
      rw [List.take_append_drop] at hzip
      rw [getElem?_combined, hfirst, Option.map_map, hsplit, htmp, hrest, List.length_drop]
      congr 1
      funext x
      rw [Function.comp_apply, hzip, valuesAt_append, List.foldl_append]
      congr 2
      rw [copyBase, newBase]
      simp only [Cleared, hmore.ne, false_and, or_false]
  · have hnil : input.drop (p.nbitsRound p.shiftK0 input.length) = [] := by
      rw [hall]
      exact List.drop_length
    have hzero : input.length - p.nbitsRound p.shiftK0 input.length = 0 := by omega
    rw [hnil] at hrest
    rw [hnil, List.isEmpty_nil, if_pos rfl] at hmode
    rw [hzero, Gap.walk_zero, List.append_nil] at hsplit
    rw [hall, List.take_length] at hfirst
    rw [allotLlrs, hstep, allotLoop_done (by omega) hrest, ok_bind, htmp]
    by_cases hend : p.nextIdx p.shiftK0 input.length = 0
    · rw [if_neg (by rintro ⟨-, hne⟩; exact hne hend)]
      refine ⟨s.out, rfl, fun i => ?_⟩
      rw [hfirst, hsplit]
      congr 1
      funext x
      congr 1
      rw [copyBase, newBase]
      simp only [Cleared, hend, ne_eq, not_true_eq_false, false_and, and_false, or_false]
    · rw [if_pos ⟨hmode, hend⟩]
      refine ⟨_, rfl, fun i => ?_⟩
      have hnext := nextIdx_lt h p.shiftK0 input.length
      rw [getElem?_fillRange, hfirst, Option.map_map, hsplit, hlength]
      by_cases hi : i < out.length
      · congr 1
        funext x
        rw [Function.comp_apply]
        by_cases hlast : out.length - (p.bufferLength - p.nextIdx p.shiftK0 input.length) ≤ i
        · obtain ⟨hfiller, hnot⟩ := not_mem_of_nextIdx_le p h.shift h.buffer hend (i := i) (by omega)
          rw [if_pos ⟨hlast, by omega⟩, valuesAt_eq_nil hnot, List.foldl_nil, newBase, hfiller, if_neg (by simp),
            if_pos (.inr (.inr ⟨hall, hend, hlast⟩))]
        · rw [if_neg (fun hc => hlast hc.1)]
          congr 1
          rw [copyBase, newBase]
          simp only [Cleared, hlast, and_false, or_false]
      · rw [List.getElem?_eq_none (not_lt.mp hi)]
        rfl

theorem round_cases (h : p.Wf) (hi : tmpIdx < p.bufferLength) (n : Nat) :
    (tmpIdx < p.nofInfoBits ∧ p.nbitsSystematic tmpIdx n = min (p.nofInfoBits - tmpIdx) n ∨
      p.nofInfoBits ≤ tmpIdx ∧ p.nbitsSystematic tmpIdx n = 0) ∧
    p.parityStart tmpIdx n = max p.nofSystematicBits (tmpIdx + p.nbitsSystematic tmpIdx n) ∧
    p.nbitsParity tmpIdx n = min (p.bufferLength - p.parityStart tmpIdx n) (n - p.nbitsSystematic tmpIdx n) ∧
    (p.parityStart tmpIdx n + p.nbitsParity tmpIdx n = p.bufferLength ∧ p.nextIdx tmpIdx n = 0 ∨
      p.parityStart tmpIdx n + p.nbitsParity tmpIdx n < p.bufferLength ∧
        p.nextIdx tmpIdx n = p.parityStart tmpIdx n + p.nbitsParity tmpIdx n) := by
  refine ⟨?_, ?_, rfl, ?_⟩
  · rcases Nat.lt_or_ge tmpIdx p.nofInfoBits with hlt | hge
    · exact .inl ⟨hlt, if_pos hlt⟩
    · exact .inr ⟨hge, if_neg (not_lt.mpr hge)⟩
  · unfold parityStart
    split
    · omega
    · omega
  · have hstart := parityStart_le (n := n) h hi
    have hle : p.nbitsParity tmpIdx n ≤ p.bufferLength - p.parityStart tmpIdx n := min_le_left _ _
    have hend : p.parityStart tmpIdx n + p.nbitsParity tmpIdx n ≤ p.bufferLength := by omega
    rcases hend.lt_or_eq with hlt | heq
    · exact .inr ⟨hlt, Nat.mod_eq_of_lt hlt⟩
    · exact .inl ⟨heq, by rw [nextIdx, heq, Nat.mod_self]⟩

theorem cleared_iff (h : p.Wf) {size n : Nat} (hsize : p.bufferLength ≤ size) (hn : 0 < n) :
    (∀ i < size, p.isFiller i = false → p.Cleared size n i) ↔
      p.bufferLength = size ∧ p.shiftK0 ≤ p.nofSystematicBits ∧ p.nofInfoBits ≤ p.shiftK0 + n := by
  obtain ⟨hsys, hstart, hparity, hnext⟩ := round_cases h h.shift n
  have hinfo := p.nofInfoBits_le
  have hbuffer := h.buffer
  have hshift := h.shift
  have hround : p.nbitsRound p.shiftK0 n = p.nbitsSystematic p.shiftK0 n + p.nbitsParity p.shiftK0 n := rfl
  have hfiller (i : Nat) : p.isFiller i = false ↔ i < p.nofInfoBits ∨ p.nofSystematicBits ≤ i := by
    rw [← not_mem_iff h, ← isFiller_iff h, Bool.not_eq_true]
  have hcleared (i : Nat) : p.Cleared size n i ↔ i < min p.shiftK0 p.nofInfoBits ∨
      ((p.shiftK0 ≤ i ∧ i < p.shiftK0 + p.nbitsSystematic p.shiftK0 n) ∨
        p.parityStart p.shiftK0 n ≤ i ∧ i < p.parityStart p.shiftK0 n + p.nbitsParity p.shiftK0 n) ∨
      p.nbitsRound p.shiftK0 n = n ∧ p.nextIdx p.shiftK0 n ≠ 0 ∧
        size - (p.bufferLength - p.nextIdx p.shiftK0 n) ≤ i := by
    rw [Cleared, roundPositions, List.mem_append, List.mem_range'_1, List.mem_range'_1]
  simp only [hfiller, hcleared, hround]
  generalize p.nextIdx p.shiftK0 n = next at *
  generalize p.nbitsParity p.shiftK0 n = parity at *
  generalize p.parityStart p.shiftK0 n = start at *
  generalize p.nbitsSystematic p.shiftK0 n = systematic at *
  constructor
  · intro hall
    refine ⟨?_, ?_, ?_⟩
    -- A position behind the end of the first round, and one just behind the systematic bits.
    · have hbehind := hall (start + parity)
      omega
    · have hgap := hall p.nofSystematicBits
      omega
    · have hinput := hall (p.shiftK0 + n)
      omega
  · rintro ⟨rfl, hle, hreach⟩ i hi hout
    rcases hsys with ⟨hin, rfl⟩ | ⟨hin, rfl⟩
    · omega
    · omega

end Rounds

end RateMatching

end Ocudu.Phy
