import Mathlib.Data.List.GetD
import Ocudu.Basic.BitStream
import Ocudu.Phy.LdpcRateMatcher

/-! Bit selection walks round the circular buffer, and interleaving permutes what it selects. -/

namespace Ocudu.Phy

open BitCodec RingWalk Ldpc

namespace RateMatching

variable {p : RateMatching} {codeblock : List Bool}

structure Wf (p : RateMatching) : Prop where
  filler : p.nofFillerBits < p.nofSystematicBits
  buffer : p.nofSystematicBits ≤ p.bufferLength
  shift : p.shiftK0 < p.bufferLength

def gap (h : p.Wf) : Gap where
  n := p.bufferLength
  a := p.nofInfoBits
  b := p.nofSystematicBits
  pos := Nat.sub_pos_of_lt h.filler
  le := Nat.sub_le _ _
  le_ring := h.buffer

theorem isFiller_iff (h : p.Wf) (i : Nat) : p.isFiller i = true ↔ (gap h).Mem i := by
  rw [isFiller, Bool.and_eq_true, decide_eq_true_eq, decide_eq_true_eq]
  exact Iff.rfl

def selected (h : p.Wf) (n : Nat) : List Nat := (gap h).walk n p.shiftK0

theorem length_selected (h : p.Wf) (n : Nat) : (selected h n).length = n := Gap.length_walk _ _

theorem quotedSkip_eq (h : p.Wf) {fuel i : Nat} (hi : i < p.bufferLength) (hfuel : p.nofSystematicBits - i < fuel) :
    p.quotedSkip fuel i = some ((gap h).skip i) := by
  induction fuel generalizing i with
  | zero => omega
  | succ fuel ih =>
    rw [quotedSkip]
    by_cases hmem : (gap h).Mem i
    · have hend : i < p.nofSystematicBits := hmem.2
      rw [if_pos ((isFiller_iff h i).mpr hmem), Gap.skip_of_mem hmem]
      rcases Nat.lt_or_ge (i + 1) p.nofSystematicBits with hlt | hge
      · have hmod : (i + 1) % p.bufferLength = i + 1 := Nat.mod_eq_of_lt (hlt.trans_le h.buffer)
        have hmem' : (gap h).Mem (i + 1) := ⟨hmem.1.trans (Nat.le_succ i), hlt⟩
        rw [hmod, ih (hlt.trans_le h.buffer) (by omega), Gap.skip_of_mem hmem']
      · have hlast : i + 1 = p.nofSystematicBits := by omega
        have hout : ¬(gap h).Mem (p.nofSystematicBits % p.bufferLength) := (gap h).not_mem_end
        cases fuel with
        | zero => omega
        | succ fuel =>
          rw [hlast, quotedSkip, if_neg (by rw [isFiller_iff h]; exact hout)]
          rfl
    · rw [if_neg (by rw [isFiller_iff h]; exact hmem), Gap.skip_of_not_mem hmem]

theorem quotedLoop_eq (h : p.Wf) {fuel n i : Nat} (hi : i < p.bufferLength) (hfuel : p.nofSystematicBits < fuel) :
    p.quotedLoop fuel n i = some ((gap h).walk n i) := by
  induction n generalizing i with
  | zero => rfl
  | succ n ih =>
    have hnext : ((gap h).skip i + 1) % p.bufferLength < p.bufferLength := Nat.mod_lt _ (gap h).n_pos
    rw [quotedLoop, quotedSkip_eq h hi (by omega)]
    simp only [Option.bind_eq_bind, Option.bind_some, ih hnext]
    rfl

theorem quotedSelect_eq (h : p.Wf) {fuel n : Nat} (hfuel : p.nofSystematicBits < fuel) :
    p.quotedSelect fuel n = some (selected h n) := by
  rw [quotedSelect, Nat.mod_eq_of_lt h.shift, quotedLoop_eq h h.shift hfuel]
  rfl

theorem take_drop_eq_map {i c : Nat} (hc : i + c ≤ codeblock.length) :
    (codeblock.drop i).take c = (List.range' i c).map (codeblock.getD · false) := by
  apply List.ext_getElem
  · rw [List.length_take, List.length_drop, List.length_map, List.length_range']
    omega
  · intro k hk hk'
    rw [List.length_map, List.length_range'] at hk'
    rw [List.getElem_take, List.getElem_drop, List.getElem_map, List.getElem_range', Nat.one_mul,
      List.getD_eq_getElem _ _ (by omega)]

abbrev chunkStop (p : RateMatching) (i : Nat) : Nat :=
  if p.nofInfoBits < p.nofSystematicBits ∧ i ≤ p.nofInfoBits ∧ p.nofInfoBits < p.bufferLength then p.nofInfoBits
  else p.bufferLength

theorem nofInfoBits_pos (h : p.Wf) : 0 < p.nofInfoBits := (gap h).pos

theorem nofInfoBits_le (p : RateMatching) : p.nofInfoBits ≤ p.nofSystematicBits := Nat.sub_le _ _

theorem not_mem_iff (h : p.Wf) (i : Nat) : ¬(gap h).Mem i ↔ i < p.nofInfoBits ∨ p.nofSystematicBits ≤ i := by
  change ¬(p.nofInfoBits ≤ i ∧ i < p.nofSystematicBits) ↔ _
  omega

theorem lt_chunkStop (h : p.Wf) {i : Nat} (hi : i < p.bufferLength) (hmem : ¬(gap h).Mem i) : i < p.chunkStop i := by
  rw [not_mem_iff h] at hmem
  unfold chunkStop
  split
  · omega
  · exact hi

theorem chunkStop_le (p : RateMatching) (i : Nat) : p.chunkStop i ≤ p.bufferLength := by
  unfold chunkStop
  split
  · omega
  · exact le_rfl

theorem walk_chunkStop (h : p.Wf) {i c : Nat} (hi : i ≤ p.bufferLength) (hmem : ¬(gap h).Mem i)
    (hc : c ≤ p.chunkStop i - i) (m : Nat) :
    (gap h).walk (c + m) (i % p.bufferLength) =
      List.range' i c ++ (gap h).walk m ((i + c) % p.bufferLength) := by
  have hle := chunkStop_le p i
  rcases hi.lt_or_eq with hlt | heq
  · rw [Nat.mod_eq_of_lt hlt]
    have hstop := lt_chunkStop h hlt hmem
    refine Gap.walk_chunk (g := gap h) hlt (by change i + c ≤ p.bufferLength; omega) (fun k hik hkc => ?_) m
    rw [not_mem_iff h] at hmem ⊢
    unfold chunkStop at hc
    split at hc
    · omega
    · omega
  · have hzero : c = 0 := by omega
    rw [hzero, Nat.zero_add, Nat.add_zero, List.range'_zero, List.nil_append]

theorem selectBitsLoop_eq (h : p.Wf) (hlen : p.bufferLength ≤ codeblock.length) {n fuel i : Nat} {out : List Bool}
    (hi : i < p.bufferLength) (hout : out.length ≤ n)
    (hfuel : 2 * (n - out.length) + (if p.isFiller i then 1 else 0) < fuel) :
    p.selectBitsLoop codeblock n fuel out i =
      .ok (out ++ ((gap h).walk (n - out.length) i).map (codeblock.getD · false)) := by
  induction fuel generalizing i out with
  | zero => omega
  | succ fuel ih =>
    rw [selectBitsLoop]
    by_cases hdone : out.length < n
    · rw [if_pos hdone]
      obtain ⟨j, hj, hle, hmem, hwalk, hcount⟩ : ∃ j, (if p.isFiller i then p.nofSystematicBits else i) = j ∧
          j ≤ p.bufferLength ∧ ¬(gap h).Mem j ∧
          (∀ m, (gap h).walk m i = (gap h).walk m (j % p.bufferLength)) ∧
          (p.isFiller i = true ∨ j < p.bufferLength) := by
        by_cases hfiller : p.isFiller i = true
        · refine ⟨p.nofSystematicBits, if_pos hfiller, h.buffer, ?_, fun m => ?_, .inl hfiller⟩
          · rw [not_mem_iff]
            exact .inr le_rfl
          · exact Gap.walk_of_mem ((isFiller_iff h i).mp hfiller) m
        · refine ⟨i, if_neg hfiller, hi.le, ?_, fun m => ?_, .inr hi⟩
          · rwa [← isFiller_iff h]
          · rw [Nat.mod_eq_of_lt hi]
      have hstop := chunkStop_le p j
      change (if p.bufferLength < (if p.isFiller i then p.nofSystematicBits else i) then _ else _) = _
      rw [hj, if_neg (not_lt.mpr hle)]
      change (if codeblock.length < j + min (p.chunkStop j - j) (n - out.length) then _ else _) = _
      obtain ⟨c, hc⟩ : ∃ c, min (p.chunkStop j - j) (n - out.length) = c := ⟨_, rfl⟩
      have hcstop : c ≤ p.chunkStop j - j := hc ▸ min_le_left _ _
      have hcn : c ≤ n - out.length := hc ▸ min_le_right _ _
      rw [hc, if_neg (by omega), take_drop_eq_map (by omega)]
      have hlength : (out ++ (List.range' j c).map (codeblock.getD · false)).length = out.length + c := by
        rw [List.length_append, List.length_map, List.length_range']
      have hnext : (j + c) % p.bufferLength < p.bufferLength := Nat.mod_lt _ (gap h).n_pos
      have hprogress : 0 < c ∨ p.isFiller i = true ∧ p.isFiller ((j + c) % p.bufferLength) = false := by
        rcases hle.lt_or_eq with hlt | heq
        · have := lt_chunkStop h hlt hmem
          exact .inl (by omega)
        · refine .inr ⟨hcount.resolve_right (by omega), ?_⟩
          have hzero : (j + c) % p.bufferLength = 0 := by
            rw [show c = 0 by omega, Nat.add_zero, heq, Nat.mod_self]
          rw [hzero, ← Bool.not_eq_true, isFiller_iff h, not_mem_iff]
          exact .inl (nofInfoBits_pos h)
      rw [ih hnext (by omega) ?_, hlength, hwalk, List.append_assoc, ← List.map_append,
        ← walk_chunkStop h hle hmem hcstop, show c + (n - (out.length + c)) = n - out.length by omega]
      rw [hlength]
      rcases hprogress with hpos | ⟨hfiller, hnot⟩
      · have hflag : (if p.isFiller ((j + c) % p.bufferLength) then 1 else 0) ≤ 1 := by
          split
          · exact le_rfl
          · exact Nat.zero_le _
        omega
      · rw [if_pos hfiller] at hfuel
        rw [hnot, if_neg (by simp)]
        omega
    · rw [if_neg hdone, show n - out.length = 0 by omega, Gap.walk_zero, List.map_nil, List.append_nil]

theorem selectBits_eq (h : p.Wf) (hlen : p.bufferLength ≤ codeblock.length) {n fuel : Nat} (hfuel : 2 * n + 1 < fuel) :
    p.selectBits codeblock n fuel = .ok ((selected h n).map (codeblock.getD · false)) := by
  refine selectBitsLoop_eq h hlen h.shift (Nat.zero_le n) ?_
  rw [List.length_nil, Nat.sub_zero]
  split
  · exact hfuel
  · omega

end RateMatching

section Interleave

variable {bits : List Bool} {k : Nat}

theorem toBits_appendBit {n : Nat} (hn : n < 8) (word : Nat) (bit : Bool) :
    toBits (n + 1) (appendBit word bit) = toBits n word ++ [bit] := by
  have hshift : appendBit word bit >>> 1 = word % 2 ^ 7 := by
    rw [appendBit, Nat.shiftRight_or_distrib, Nat.shiftRight_eq_div_pow, Nat.shiftRight_eq_div_pow]
    have hbit : bit.toNat / 2 ^ 1 = 0 := Nat.div_eq_of_lt (by have := Bool.toNat_le bit; omega)
    rw [hbit, Nat.or_zero]
    lia
  have hlow : (appendBit word bit).testBit 0 = bit := by
    rw [appendBit, Nat.testBit_or]
    cases bit with
    | true => simp
    | false => simp
  rw [toBits_add, hshift, toBits_mod (by omega)]
  congr 1
  change [(appendBit word bit).testBit 0] = [bit]
  rw [hlow]

theorem toBits_foldl_appendBit (f : Nat → Bool) (b : Bool) {n : Nat} (hn : n < 8) :
    toBits (n + 1) ((List.range' 1 n).foldl (fun word j => appendBit word (f j)) b.toNat) =
      b :: (List.range' 1 n).map f := by
  induction n with
  | zero => cases b <;> simp [toBits]
  | succ n ih =>
    rw [List.range'_1_concat, List.foldl_append, List.foldl_cons, List.foldl_nil, toBits_appendBit hn, ih (by omega),
      List.map_append]
    rfl

def transmitted (bits : List Bool) (k qm : Nat) : List Bool :=
  (List.range k).flatMap fun i => (List.range qm).map fun j => bitFor bits k j i

theorem toBits_symbolWord {qm : Nat} (hpos : 0 < qm) (h8 : qm ≤ 8) (i : Nat) :
    toBits qm (symbolWord bits k qm i) = (List.range qm).map fun j => bitFor bits k j i := by
  obtain ⟨n, rfl⟩ := Nat.exists_eq_succ_of_ne_zero hpos.ne'
  rw [symbolWord, Nat.succ_sub_one, toBits_foldl_appendBit _ _ (by omega), List.range_eq_range', List.range'_succ,
    List.map_cons]
  simp only [bitFor, Nat.mul_zero, Nat.zero_add]

theorem interleaveSymbols_eq {qm : Nat} (hpos : 0 < qm) (h8 : qm ≤ 8) (start n : Nat) :
    interleaveSymbols bits k qm start n =
      (List.range' start n).flatMap fun i => (List.range qm).map fun j => bitFor bits k j i := by
  rw [interleaveSymbols]
  exact List.flatMap_congr fun i _ => toBits_symbolWord hpos h8 i

theorem packByte_eq : ∀ b₇ b₆ b₅ b₄ b₃ b₂ b₁ b₀ : Bool,
    packByte b₇ b₆ b₅ b₄ b₃ b₂ b₁ b₀ = [b₇, b₆, b₅, b₄, b₃, b₂, b₁, b₀] := by decide +kernel

theorem interleaveBatch_eq (i : Nat) : interleaveBatch bits k i =
    (List.range' i 4).flatMap fun s => (List.range 6).map fun j => bitFor bits k j s := by
  simp only [interleaveBatch, packByte_eq, List.range', List.flatMap_cons, List.flatMap_nil]
  rfl

theorem flatMap_batches {β : Type} (f : Nat → List β) (m : Nat) :
    ((List.range m).flatMap fun q => (List.range' (4 * q) 4).flatMap f) = (List.range (4 * m)).flatMap f := by
  induction m with
  | zero => rfl
  | succ m ih =>
    have hsplit : List.range (4 * (m + 1)) = List.range (4 * m) ++ List.range' (4 * m) 4 := by
      rw [List.range_eq_range', List.range_eq_range', Nat.mul_succ, ← List.range'_append_1, Nat.zero_add]
    rw [List.range_succ, List.flatMap_append, ih, List.flatMap_cons, List.flatMap_nil, List.append_nil,
      ← List.flatMap_append, hsplit]

theorem interleaveQam64_eq : interleaveQam64 bits k = transmitted bits k 6 := by
  have hsplit : List.range k = List.range (4 * (k / 4)) ++ List.range' (k / 4 * 4) (k - k / 4 * 4) := by
    rw [List.range_eq_range', List.range_eq_range', Nat.mul_comm 4]
    conv_lhs => rw [show k = k / 4 * 4 + (k - k / 4 * 4) by lia]
    rw [← List.range'_append_1, Nat.zero_add]
  rw [interleaveQam64, interleaveSymbols_eq (by omega) (by omega), transmitted, hsplit, List.flatMap_append,
    ← flatMap_batches]
  simp only [interleaveBatch_eq]

theorem foldl_mapIdx {β : Type} (f : Nat → Nat → β → β) (g : Nat → β) (l : List Nat) (n : Nat) :
    l.foldl (fun xs q => xs.mapIdx fun i x => f q i x) ((List.range n).map g) =
      (List.range n).map fun i => l.foldl (fun x q => f q i x) (g i) := by
  induction l generalizing g with
  | nil => rfl
  | cons q l ih =>
    have hround : ((List.range n).map g).mapIdx (fun i x => f q i x) = (List.range n).map fun i => f q i (g i) := by
      apply List.ext_getElem
      · simp
      · intro i hi hi'
        simp
    rw [List.foldl_cons, hround, ih]
    rfl

theorem interleaveQam256_eq (hk : k ≤ bits.length) : interleaveQam256 bits k = transmitted bits k 8 := by
  have hfirst : (bits.take k).map Bool.toNat = (List.range k).map fun i => (bits.getD i false).toNat := by
    apply List.ext_getElem
    · simp [hk]
    · intro i hi hi'
      simp only [List.length_map, List.length_range] at hi'
      simp [List.getElem?_eq_getElem (hi'.trans_le hk)]
  rw [interleaveQam256, hfirst, foldl_mapIdx (fun q i byte => appendBit byte (bitFor bits k q i)), List.flatMap_map]
  exact List.flatMap_congr fun i _ => toBits_symbolWord (by omega : 0 < 8) le_rfl i

@[simp] theorem transmitted_one : transmitted bits bits.length 1 = bits := by
  have hmap : (List.range bits.length).map (bits.getD · false) = bits := by
    apply List.ext_getElem
    · simp
    · intro i hi hi'
      simp [List.getElem?_eq_getElem hi']
  conv_rhs => rw [← hmap, List.map_eq_flatMap]
  simp only [transmitted, bitFor, List.range_one, List.map_cons, List.map_nil, Nat.mul_zero, Nat.zero_add]

theorem interleaveBits_eq (mod : ModulationScheme) :
    interleaveBits (getBitsPerSymbol mod) bits =
      transmitted bits (bits.length / getBitsPerSymbol mod) (getBitsPerSymbol mod) := by
  have hsymbols (qm : Nat) (hpos : 0 < qm) (h8 : qm ≤ 8) :
      interleaveSymbols bits (bits.length / qm) qm 0 (bits.length / qm) = transmitted bits (bits.length / qm) qm := by
    rw [interleaveSymbols_eq hpos h8, transmitted, ← List.range_eq_range']
  cases mod with
  | pi2Bpsk | bpsk =>
    rw [getBitsPerSymbol, Nat.div_one, transmitted_one]
    rfl
  | qpsk => exact hsymbols 2 (by omega) (by omega)
  | qam16 => exact hsymbols 4 (by omega) (by omega)
  | qam64 => exact interleaveQam64_eq
  | qam256 => exact interleaveQam256_eq (Nat.div_le_self _ _)

/-- The place in the transmission of the bit that was selected as number `s`. -/
def transmissionIndex (qm length s : Nat) : Nat := s % (length / qm) * qm + s / (length / qm)

theorem exists_transmissionIndex {qm length t : Nat} (hq : 0 < qm) (hdvd : qm ∣ length) (ht : t < length) :
    ∃ s < length, transmissionIndex qm length s = t := by
  obtain ⟨k, rfl⟩ := hdvd
  have hrow : t / qm < k := Nat.div_lt_of_lt_mul ht
  have hcol : t % qm < qm := Nat.mod_lt _ hq
  refine ⟨t % qm * k + t / qm, ?_, ?_⟩
  · calc t % qm * k + t / qm < t % qm * k + k := Nat.add_lt_add_left hrow _
      _ = (t % qm + 1) * k := (Nat.succ_mul _ _).symm
      _ ≤ qm * k := Nat.mul_le_mul_right _ hcol
  · rw [transmissionIndex, Nat.mul_div_cancel_left _ hq, Nat.mul_comm (t % qm) k, Nat.mul_add_mod,
      Nat.mod_eq_of_lt hrow, Nat.mul_add_div ((Nat.zero_le _).trans_lt hrow), Nat.div_eq_of_lt hrow, Nat.add_zero,
      Nat.mul_comm]
    exact Nat.div_add_mod t qm

@[simp] theorem length_flatMap_range {β : Type} (f : Nat → Nat → β) (q n : Nat) :
    ((List.range n).flatMap fun i => (List.range q).map (f i)).length = n * q := by
  induction n with
  | zero => simp
  | succ n ih =>
    rw [List.range_succ, List.flatMap_append, List.length_append, ih, Nat.succ_mul]
    simp

theorem length_interleaveBits {mod : ModulationScheme} (h : getBitsPerSymbol mod ∣ bits.length) :
    (interleaveBits (getBitsPerSymbol mod) bits).length = bits.length := by
  rw [interleaveBits_eq, transmitted, length_flatMap_range fun i j => bitFor bits _ j i, Nat.div_mul_cancel h]

theorem getElem?_flatMap_range {β : Type} {f : Nat → Nat → β} {q n i j : Nat} (hi : i < n) (hj : j < q) :
    ((List.range n).flatMap fun i => (List.range q).map (f i))[i * q + j]? = some (f i j) := by
  have hlen := length_flatMap_range f q
  induction n with
  | zero => omega
  | succ n ih =>
    rw [List.range_succ, List.flatMap_append, List.flatMap_cons, List.flatMap_nil, List.append_nil]
    rcases Nat.lt_succ_iff_lt_or_eq.mp hi with hlt | rfl
    · rw [List.getElem?_append_left, ih hlt]
      rw [hlen]
      nlinarith
    · rw [List.getElem?_append_right (by rw [hlen]; omega), hlen, Nat.add_sub_cancel_left]
      simp [hj]

theorem interleaveBits_getElem? {mod : ModulationScheme} (h : getBitsPerSymbol mod ∣ bits.length) {s : Nat}
    (hs : s < bits.length) :
    (interleaveBits (getBitsPerSymbol mod) bits)[transmissionIndex (getBitsPerSymbol mod) bits.length s]? =
      bits[s]? := by
  have hq := getBitsPerSymbol_pos mod
  obtain ⟨k, hk⟩ := h
  have hdiv : bits.length / getBitsPerSymbol mod = k := by rw [hk, Nat.mul_div_cancel_left _ hq]
  have hkpos : 0 < k := Nat.pos_of_ne_zero (by rintro rfl; omega)
  have hrow : s / k < getBitsPerSymbol mod := Nat.div_lt_of_lt_mul (by rw [Nat.mul_comm, ← hk]; exact hs)
  rw [interleaveBits_eq, transmissionIndex, hdiv, transmitted,
    getElem?_flatMap_range (f := fun i j => bitFor bits k j i) (Nat.mod_lt _ hkpos) hrow, bitFor, Nat.div_add_mod,
    List.getD_eq_getElem _ _ hs, List.getElem?_eq_getElem hs]

end Interleave

end Ocudu.Phy
