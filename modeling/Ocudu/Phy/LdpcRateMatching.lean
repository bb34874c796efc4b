import Ocudu.Phy.LdpcAllotment

/-! Rate matching and dematching of a codeblock agree on the positions; new data replaces the whole buffer
only under a condition. -/

namespace Ocudu.Phy

open RingWalk Ldpc RateMatching

section Deinterleave

variable {out input : List LogLikelihoodRatio}

def received (qm : Nat) (input : List LogLikelihoodRatio) : List LogLikelihoodRatio :=
  (List.range input.length).map fun s => input.getD (transmissionIndex qm input.length s) 0

@[simp] theorem length_received (qm : Nat) (input : List LogLikelihoodRatio) :
    (received qm input).length = input.length := by
  rw [received, List.length_map, List.length_range]

theorem getElem?_foldl_set (f : Nat → LogLikelihoodRatio) (ps : List Nat) (out : List LogLikelihoodRatio) (i : Nat) :
    (ps.foldl (fun out s => out.set s (f s)) out)[i]? = out[i]?.map fun x => if i ∈ ps then f i else x := by
  induction ps generalizing out with
  | nil => simp
  | cons s ps ih =>
    rw [List.foldl_cons, ih]
    by_cases hs : s = i
    · rw [hs, List.getElem?_set_self', Option.map_eq_map, Option.map_map]
      congr 1
      funext x
      simp
    · rw [List.getElem?_set_ne hs]
      congr 1
      funext x
      simp only [List.mem_cons, Ne.symm hs, false_or]

theorem deinterleaveBitsQm_eq {qm : Nat} (hq : 0 < qm) (hlen : out.length = input.length) (hdvd : qm ∣ input.length) :
    deinterleaveBitsQm qm out input = received qm input := by
  obtain ⟨k, hk⟩ := hdvd
  have hdiv : out.length / qm = k := by rw [hlen, hk, Nat.mul_div_cancel_left _ hq]
  have hdiv' : input.length / qm = k := by rw [hk, Nat.mul_div_cancel_left _ hq]
  have hflat : deinterleaveBitsQm qm out input =
      ((List.range k).flatMap fun i => (List.range qm).map fun j => k * j + i).foldl
        (fun out s => out.set s (input.getD (transmissionIndex qm input.length s) 0)) out := by
    simp only [deinterleaveBitsQm, hdiv, List.foldl_flatMap, List.foldl_map]
    refine List.foldl_ext _ _ _ fun out' i hi => List.foldl_ext _ _ _ fun out'' j hj => ?_
    have hi := List.mem_range.mp hi
    rw [transmissionIndex, hdiv', Nat.mul_add_mod, Nat.mod_eq_of_lt hi, Nat.mul_add_div (by omega),
      Nat.div_eq_of_lt hi, Nat.add_zero]
  apply List.ext_getElem?
  intro i
  rw [hflat, getElem?_foldl_set, received, List.getElem?_map]
  by_cases hi : i < input.length
  · have hkpos : 0 < k := Nat.pos_of_ne_zero (by rintro rfl; omega)
    have hmem : i ∈ (List.range k).flatMap fun i => (List.range qm).map fun j => k * j + i := by
      rw [List.mem_flatMap]
      refine ⟨i % k, List.mem_range.mpr (Nat.mod_lt _ hkpos), List.mem_map.mpr ⟨i / k, ?_, Nat.div_add_mod i k⟩⟩
      rw [List.mem_range]
      exact Nat.div_lt_of_lt_mul (by rw [Nat.mul_comm, ← hk]; exact hi)
    rw [List.getElem?_eq_getElem (by omega), List.getElem?_range hi]
    simp only [Option.map_some, if_pos hmem]
  · rw [List.getElem?_eq_none (by omega), List.getElem?_eq_none (by rw [List.length_range]; omega)]
    rfl

@[simp] theorem received_one (input : List LogLikelihoodRatio) : received 1 input = input := by
  apply List.ext_getElem
  · simp
  · intro i hi hi'
    have hindex : transmissionIndex 1 input.length i = i := by
      rw [transmissionIndex, Nat.div_one, Nat.mod_eq_of_lt hi', Nat.mul_one, Nat.div_eq_of_lt hi', Nat.add_zero]
    simp [received, hindex, List.getElem?_eq_getElem hi']

theorem deinterleaveLlrs_eq {mod : ModulationScheme} (hmod : getBitsPerSymbol mod ≠ 1)
    (hlen : out.length = input.length) (hdvd : getBitsPerSymbol mod ∣ input.length) :
    deinterleaveLlrs (getBitsPerSymbol mod) out input = received (getBitsPerSymbol mod) input := by
  rw [← deinterleaveBitsQm_eq (getBitsPerSymbol_pos mod) hlen hdvd]
  cases mod with
  | pi2Bpsk | bpsk => exact absurd rfl hmod
  | qpsk | qam16 | qam64 | qam256 => rfl

end Deinterleave

structure RateCase where
  bg : LdpcBaseGraph
  liftingSize : Nat
  rv : Nat
  mod : ModulationScheme
  nRef : Nat
  nofFillerBits : Nat
  rmLength : Nat
  lifting : liftingSize ∈ allLiftingSizes
  rv_le : rv ≤ 3
  nRef_le : nRef ≤ maxCodeblockSize
  filler : nofFillerBits < (baseK bg - 2) * liftingSize
  buffer : (baseK bg - 2) * liftingSize ≤ bufferLengthFor nRef (nShort bg * liftingSize)
  length_pos : 0 < rmLength
  length_le : rmLength ≤ maxCodeblockRmSize
  length_dvd : getBitsPerSymbol mod ∣ rmLength

namespace RateCase

variable (c : RateCase)

def fullLength : Nat := nShort c.bg * c.liftingSize

def metadata : CodeblockMetadata :=
  { baseGraph := c.bg, liftingSize := c.liftingSize, rv := c.rv, mod := c.mod, nRef := c.nRef
    fullLength := c.fullLength, rmLength := c.rmLength, nofFillerBits := c.nofFillerBits }

def params : RateMatching where
  modulationOrder := getBitsPerSymbol c.mod
  bufferLength := bufferLengthFor c.nRef c.fullLength
  shiftK0 := shiftFactor c.bg c.rv * bufferLengthFor c.nRef c.fullLength / c.fullLength * c.liftingSize
  nofSystematicBits := (baseK c.bg - 2) * c.liftingSize
  nofFillerBits := c.nofFillerBits

theorem baseGraphOf_eq : ∀ bg, ∀ z ∈ allLiftingSizes, baseGraphOf (nShort bg * z) = some bg := by
  intro bg
  cases bg with
  | bg1 => decide +kernel
  | bg2 => decide +kernel

theorem liftingSize_pos : ∀ z ∈ allLiftingSizes, 0 < z := by decide

theorem nShort_pos (bg : LdpcBaseGraph) : 0 < nShort bg := by
  cases bg with
  | bg1 => decide
  | bg2 => decide

theorem fullLength_pos : 0 < c.fullLength := Nat.mul_pos (nShort_pos c.bg) (liftingSize_pos _ c.lifting)

theorem init_eq : RateMatching.init c.metadata c.fullLength c.rmLength = .ok c.params := by
  have hdiv : c.fullLength / nShort c.bg = c.liftingSize := Nat.mul_div_cancel_left _ (nShort_pos c.bg)
  have hrv : ¬3 < c.metadata.rv := not_lt.mpr c.rv_le
  have horder : ¬c.rmLength % getBitsPerSymbol c.metadata.mod ≠ 0 :=
    not_not.mpr (Nat.mod_eq_zero_of_dvd c.length_dvd)
  have hfiller : ¬(baseK c.bg - 2) * c.liftingSize ≤ c.metadata.nofFillerBits := not_le.mpr c.filler
  rw [RateMatching.init, if_neg hrv, if_neg (not_lt.mpr c.length_le), if_neg horder,
    show baseGraphOf c.fullLength = some c.bg from baseGraphOf_eq c.bg _ c.lifting]
  simp only [hdiv]
  rw [if_neg (not_not.mpr c.lifting), if_neg hfiller]
  rfl

theorem shiftFactor_lt (bg : LdpcBaseGraph) : ∀ rv ≤ 3, shiftFactor bg rv < nShort bg := by
  cases bg with
  | bg1 => decide
  | bg2 => decide

theorem bufferLength_le : c.params.bufferLength ≤ c.fullLength := by
  change bufferLengthFor c.nRef c.fullLength ≤ _
  unfold bufferLengthFor
  split
  · exact min_le_right _ _
  · exact le_rfl

theorem wf : c.params.Wf where
  filler := c.filler
  buffer := c.buffer
  shift := by
    have hfactor := shiftFactor_lt c.bg c.rv c.rv_le
    have hpos : 0 < c.params.bufferLength := (Nat.zero_le _).trans_lt (c.filler.trans_le c.buffer)
    have hns := nShort_pos c.bg
    change shiftFactor c.bg c.rv * c.params.bufferLength / c.fullLength * c.liftingSize < c.params.bufferLength
    generalize c.params.bufferLength = b at hpos ⊢
    have hfloor := Nat.div_mul_le_self (shiftFactor c.bg c.rv * b) c.fullLength
    rw [show c.fullLength = c.liftingSize * nShort c.bg from Nat.mul_comm _ _, ← Nat.mul_assoc] at hfloor
    rw [show c.fullLength = c.liftingSize * nShort c.bg from Nat.mul_comm _ _]
    have hlt : shiftFactor c.bg c.rv * b < b * nShort c.bg := by
      rw [Nat.mul_comm b]
      exact Nat.mul_lt_mul_of_pos_right hfactor hpos
    exact Nat.lt_of_mul_lt_mul_right (hfloor.trans_lt hlt)

theorem selectBits_fuel {fuel : Nat} (hfuel : 2 * c.rmLength + 1 < fuel) {codeblock : List Bool}
    (hlen : codeblock.length = c.fullLength) :
    c.params.selectBits codeblock c.rmLength fuel = .ok ((selected c.wf c.rmLength).map (codeblock.getD · false)) :=
  selectBits_eq c.wf (hlen ▸ c.bufferLength_le) hfuel

structure Matches (positions : List Nat) : Prop where
  order : ∀ t < c.rmLength, ∃ s < c.rmLength, transmissionIndex (getBitsPerSymbol c.mod) c.rmLength s = t
  quoted : ∀ fuel, c.params.nofSystematicBits < fuel → c.params.quotedSelect fuel c.rmLength = some positions
  selected : ∀ fuel codeblock, 2 * c.rmLength + 1 < fuel → codeblock.length = c.fullLength →
    c.params.selectBits codeblock c.rmLength fuel = .ok (positions.map (codeblock.getD · false))
  transmitted : ∀ fuel codeblock, 2 * c.rmLength + 1 < fuel → codeblock.length = c.fullLength →
    ∃ out, rateMatch fuel codeblock c.rmLength c.metadata = .ok out ∧ out.length = c.rmLength ∧ ∀ s < c.rmLength,
      out[transmissionIndex (getBitsPerSymbol c.mod) c.rmLength s]? = positions[s]?.map (codeblock.getD · false)

theorem rateMatch_matches : c.Matches (RateMatching.selected c.wf c.rmLength) where
  order := fun _ ht => exists_transmissionIndex (getBitsPerSymbol_pos c.mod) c.length_dvd ht
  quoted := fun _ hfuel => quotedSelect_eq c.wf hfuel
  selected := fun _ _ hfuel hlen => c.selectBits_fuel hfuel hlen
  transmitted := by
    intro fuel codeblock hfuel hlen
    have hselected : ((RateMatching.selected c.wf c.rmLength).map (codeblock.getD · false)).length = c.rmLength := by
      rw [List.length_map, length_selected]
    refine ⟨interleaveBits (getBitsPerSymbol c.mod)
      ((RateMatching.selected c.wf c.rmLength).map (codeblock.getD · false)), ?_, ?_, fun s hs => ?_⟩
    · rw [rateMatch, hlen, c.init_eq, ok_bind, c.selectBits_fuel hfuel hlen, ok_bind]
      rfl
    · rw [length_interleaveBits (by rw [hselected]; exact c.length_dvd), hselected]
    · have hindex := interleaveBits_getElem? (by rw [hselected]; exact c.length_dvd) (hselected.symm ▸ hs)
      rw [hselected, List.getElem?_map] at hindex
      exact hindex

/-- What the soft bits are added to: for new data, nothing is left of the earlier contents. -/
def expectedBase (newData : Bool) (i : Nat) (x : LogLikelihoodRatio) : LogLikelihoodRatio :=
  if newData then (if c.params.isFiller i then .infinity else 0) else x

/-- To each position those soft bits are added whose bit was taken from it, in the order of selection. -/
def Dematches (positions : List Nat) (newData : Bool) : Prop :=
  ∀ fuel auxiliaryBuffer output input, 2 * c.rmLength + 1 < fuel → auxiliaryBuffer.length = maxCodeblockRmSize →
    output.length = c.fullLength → input.length = c.rmLength →
    ∃ result, rateDematch fuel auxiliaryBuffer output input newData c.metadata = .ok result ∧ ∀ i : Nat,
      result[i]? = output[i]?.map fun x =>
        (valuesAt i (positions.zip (received (getBitsPerSymbol c.mod) input))).foldl (· + ·)
          (c.expectedBase newData i x)

theorem rateDematch_eq {fuel : Nat} {auxiliaryBuffer output input : List LogLikelihoodRatio} (newData : Bool)
    (haux : auxiliaryBuffer.length = maxCodeblockRmSize) (hout : output.length = c.fullLength)
    (hin : input.length = c.rmLength) : rateDematch fuel auxiliaryBuffer output input newData c.metadata =
      c.params.allotLlrs fuel newData output (received (getBitsPerSymbol c.mod) input) := by
  have hrv : ¬3 < c.metadata.rv := not_lt.mpr c.rv_le
  have hnRef : ¬maxCodeblockSize < c.metadata.nRef := not_lt.mpr c.nRef_le
  rw [rateDematch, if_neg hrv, if_neg hnRef, hout, hin, c.init_eq, ok_bind]
  change (if getBitsPerSymbol c.mod = 1 then _ else _) = _
  by_cases hone : getBitsPerSymbol c.mod = 1
  · rw [if_pos hone, hone, received_one]
  · rw [if_neg hone]
    change c.params.allotLlrs fuel newData output
      (deinterleaveLlrs (getBitsPerSymbol c.mod) (auxiliaryBuffer.take c.rmLength) input) = _
    rw [deinterleaveLlrs_eq hone ?_ (hin ▸ c.length_dvd)]
    rw [List.length_take_of_le (by rw [haux]; exact c.length_le), hin]

def nofInfoBits : Nat := (baseK c.bg - 2) * c.liftingSize - c.nofFillerBits

/-- The buffer is not limited, and the transmission starts among the systematic bits and goes up to their
end. -/
abbrev Replaces : Prop :=
  (c.nRef = 0 ∨ c.fullLength ≤ c.nRef) ∧
    (c.rv = 0 ∧ c.nofInfoBits ≤ c.rmLength ∨
      c.rv = 1 ∧ c.bg = .bg1 ∧ c.nofInfoBits ≤ 17 * c.liftingSize + c.rmLength)

theorem bufferLength_eq_iff : c.params.bufferLength = c.fullLength ↔ c.nRef = 0 ∨ c.fullLength ≤ c.nRef := by
  change bufferLengthFor c.nRef c.fullLength = c.fullLength ↔ _
  unfold bufferLengthFor
  split
  · rw [min_eq_right_iff]
    omega
  · exact iff_of_true rfl (.inl (by omega))

theorem shiftK0_eq (h : c.params.bufferLength = c.fullLength) :
    c.params.shiftK0 = shiftFactor c.bg c.rv * c.liftingSize := by
  change shiftFactor c.bg c.rv * c.params.bufferLength / c.fullLength * c.liftingSize = _
  rw [h, Nat.mul_div_cancel _ c.fullLength_pos]

theorem replaces_iff : c.Replaces ↔ c.params.bufferLength = c.fullLength ∧
    c.params.shiftK0 ≤ c.params.nofSystematicBits ∧ c.params.nofInfoBits ≤ c.params.shiftK0 + c.rmLength := by
  rw [Replaces, ← bufferLength_eq_iff]
  refine and_congr_right fun hbuffer => ?_
  have hpos := liftingSize_pos _ c.lifting
  have hrv := c.rv_le
  rw [c.shiftK0_eq hbuffer]
  change _ ↔ _ ≤ (baseK c.bg - 2) * c.liftingSize ∧ c.nofInfoBits ≤ _
  rw [Nat.mul_le_mul_right_iff hpos]
  generalize c.nofInfoBits = info
  cases hbg : c.bg with
  | bg1 =>
    interval_cases c.rv
    all_goals simp [shiftFactor, baseK, bg1NFull, bg1M]
  | bg2 =>
    interval_cases c.rv
    all_goals simp [shiftFactor, baseK, bg2NFull, bg2M]

theorem foldl_add_zero {vs : List LogLikelihoodRatio} (h : ∀ v ∈ vs, v = 0) (x : LogLikelihoodRatio) :
    vs.foldl (· + ·) x = x := by
  induction vs with
  | nil => rfl
  | cons v vs ih =>
    rw [List.foldl_cons, h v List.mem_cons_self, LogLikelihoodRatio.add_zero]
    exact ih fun w hw => h w (List.mem_cons_of_mem _ hw)

theorem replaces_of_dematches {positions : List Nat} (hd : c.Dematches positions true) : c.Replaces := by
  rw [replaces_iff, ← cleared_iff c.wf c.bufferLength_le c.length_pos]
  intro i hi hfiller
  have hin : (List.replicate c.rmLength (0 : LogLikelihoodRatio)).length = c.rmLength := List.length_replicate
  have hout : (List.replicate c.fullLength (⟨1, by decide⟩ : LogLikelihoodRatio)).length = c.fullLength :=
    List.length_replicate
  have haux : (List.replicate maxCodeblockRmSize (0 : LogLikelihoodRatio)).length = maxCodeblockRmSize :=
    List.length_replicate
  have hfuel : 2 * c.rmLength + 1 < 2 * c.rmLength + 2 := Nat.lt_succ_self _
  obtain ⟨result, hresult, hexpected⟩ := hd _ _ _ _ hfuel haux hout hin
  rw [c.rateDematch_eq true haux hout hin] at hresult
  generalize hr : received (getBitsPerSymbol c.mod) (List.replicate c.rmLength 0) = input at hresult hexpected
  have hzero : ∀ v ∈ input, v = 0 := by
    rw [← hr, received]
    intro v hv
    obtain ⟨s, -, rfl⟩ := List.mem_map.mp hv
    rw [List.getD_eq_getElem?_getD, List.getElem?_replicate]
    split
    · rfl
    · rfl
  have hlen : input.length = c.rmLength := by rw [← hr, length_received, hin]
  obtain ⟨result', hresult', hactual⟩ := allotLlrs_new c.wf (by rw [hout]; exact c.bufferLength_le)
    (by rw [hlen]; exact c.length_pos) (by rw [hlen]; exact hfuel)
  have hsame : result' = result := Except.ok.inj (hresult'.symm.trans hresult)
  have hvalues (l : List Nat) : ∀ v ∈ valuesAt i (l.zip input), v = 0 := by
    intro v hv
    obtain ⟨⟨p, w⟩, hw, hpw⟩ := List.mem_filterMap.mp hv
    dsimp only at hpw
    split at hpw
    · cases hpw
      exact hzero _ (List.of_mem_zip hw).2
    · cases hpw
  have hboth := (hactual i).symm.trans ((congrArg (·[i]?) hsame).trans (hexpected i))
  rw [List.getElem?_replicate, if_pos hi, Option.map_some, Option.map_some, foldl_add_zero (hvalues _),
    foldl_add_zero (hvalues _), hout, hlen] at hboth
  by_contra hnot
  rw [newBase, expectedBase, hfiller, if_neg (by simp), if_neg hnot, if_pos rfl, if_neg (by simp)] at hboth
  exact absurd hboth (by decide)

theorem dematches_of_replaces {newData : Bool} (h : newData = true → c.Replaces) :
    c.Dematches (RateMatching.selected c.wf c.rmLength) newData := by
  intro fuel auxiliaryBuffer output input hfuel haux hout hin
  have hlen : (received (getBitsPerSymbol c.mod) input).length = c.rmLength := by rw [length_received, hin]
  rw [c.rateDematch_eq newData haux hout hin]
  cases newData with
  | false =>
    refine ⟨_, allotLlrs_combine c.wf (by rw [hlen]; exact hfuel), fun i => ?_⟩
    rw [getElem?_combined, hlen]
    rfl
  | true =>
    obtain ⟨result, hresult, hactual⟩ := allotLlrs_new c.wf (by rw [hout]; exact c.bufferLength_le)
      (by rw [hlen]; exact c.length_pos) (by rw [hlen]; exact hfuel)
    refine ⟨result, hresult, fun i => ?_⟩
    have hcleared := (cleared_iff c.wf c.bufferLength_le c.length_pos).mpr (c.replaces_iff.mp (h rfl))
    rw [hactual, hlen, hout]
    by_cases hi : i < c.fullLength
    · congr 1
      funext x
      congr 1
      rw [newBase, expectedBase, if_pos rfl]
      by_cases hfiller : c.params.isFiller i = true
      · rw [if_pos hfiller, if_pos hfiller]
      · rw [if_neg hfiller, if_neg hfiller, if_pos (hcleared i hi (by simpa using hfiller))]
    · rw [List.getElem?_eq_none (by omega)]
      rfl

/-- Dematching adds every soft bit where its bit was taken from, to what was there before or, for new data, to zeros;
the latter just if the buffer is not limited and the transmission starts among the systematic bits and goes up
to their end. -/
theorem rateMatching_agrees_iff (newData : Bool) :
    (∃ positions, c.Matches positions ∧ c.Dematches positions newData) ↔ (newData = true → c.Replaces) := by
  constructor
  · rintro ⟨positions, -, hdematches⟩ rfl
    exact c.replaces_of_dematches hdematches
  · exact fun h => ⟨_, c.rateMatch_matches, c.dematches_of_replaces h⟩

def limitedCase : RateCase where
  bg := .bg2
  liftingSize := 2
  rv := 0
  mod := .bpsk
  nRef := 60
  nofFillerBits := 0
  rmLength := 60
  lifting := by decide
  rv_le := by decide
  nRef_le := by decide
  filler := by decide
  buffer := by decide
  length_pos := by decide
  length_le := by decide
  length_dvd := by decide

def unlimitedCase : RateCase where
  bg := .bg1
  liftingSize := 3
  rv := 1
  mod := .qam16
  nRef := 0
  nofFillerBits := 4
  rmLength := 240
  lifting := by decide
  rv_le := by decide
  nRef_le := by decide
  filler := by decide
  buffer := by decide
  length_pos := by decide
  length_le := by decide
  length_dvd := by decide

theorem rateMatching_agrees_iff_unlimited :
    (∃ positions, unlimitedCase.Matches positions ∧ unlimitedCase.Dematches positions true) ∧
      ¬∃ positions, limitedCase.Matches positions ∧ limitedCase.Dematches positions true :=
  ⟨(unlimitedCase.rateMatching_agrees_iff true).mpr fun _ => by decide,
    fun h => absurd ((limitedCase.rateMatching_agrees_iff true).mp h rfl) (by decide)⟩

/-- New data that fills a limited buffer leaves what was there behind its end. -/
theorem rateDematch_behind_limit :
    (rateDematch 122 [] (List.replicate 100 ⟨1, by decide⟩) (List.replicate 60 ⟨5, by decide⟩) true
        { baseGraph := .bg2, liftingSize := 2, nRef := 60, fullLength := 100, rmLength := 60 }).map
      (fun result => (result[59]?.map (·.value), result[60]?.map (·.value), result[99]?.map (·.value))) =
      .ok (some 5, some 1, some 1) := by
  decide +kernel

end RateCase

end Ocudu.Phy
