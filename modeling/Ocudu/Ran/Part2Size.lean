import Ocudu.Ran.CsiReport

/-! The size that `uci_part2_get_size` reads from the first part is that of the rank in it exactly if the table of the
sizes has an entry for each value of the RI field. -/

namespace Ocudu.Ran

open BitCodec

/-! The bits of the first part -/

theorem testBit_toUint64 (bits : List Bool) (i : Nat) : (toUint64 bits).testBit i = bits.getD i false := by
  induction bits generalizing i with
  | nil => simp [toUint64]
  | cons b bits ih =>
    have hcons : toUint64 (b :: bits) = 2 * toUint64 bits + b.toNat := by
      rw [toUint64, toUint64, List.reverse_cons, ofBits_append, ofBits_cons, ofBits_nil]
      simp [mul_comm]
    have hb : b.toNat < 2 := b.toNat_lt
    rw [hcons]
    cases i with
    | zero =>
      rw [Nat.testBit_zero, Nat.mul_add_mod, Nat.mod_eq_of_lt hb, List.getD_cons_zero]
      cases b <;> rfl
    | succ i =>
      rw [Nat.testBit_succ, Nat.mul_add_div (by decide), Nat.div_eq_of_lt hb, Nat.add_zero, ih, List.getD_cons_succ]

theorem bitReverse_toUint64 {bits : List Bool} (h : bits.length ≤ 64) :
    bitReverse (toUint64 bits) >>> (64 - bits.length) = ofBits bits := by
  have hbits : ((List.range 64).map fun i => (toUint64 bits).testBit i) =
      bits ++ List.replicate (64 - bits.length) false := by
    refine List.ext_getElem (by simp [h]) fun i hi hi' => ?_
    rw [List.getElem_map, List.getElem_range, testBit_toUint64, List.getD_eq_getElem?_getD, List.getElem_append]
    split_ifs with hlt
    · rw [List.getElem?_eq_getElem hlt, Option.getD_some]
    · rw [List.getElem?_eq_none (not_lt.mp hlt), List.getElem_replicate, Option.getD_none]
  have hpad := ofBits_padTo 64 bits
  rw [padTo] at hpad
  rw [bitReverse, hbits, hpad, Nat.shiftRight_eq_div_pow, Nat.mul_div_cancel _ (by positivity)]

theorem extractParameter_eq {offset width : Nat} {payload : List Bool} (hroom : offset + width ≤ payload.length)
    (hwidth : width ≤ 32) :
    extractParameter offset width payload = some (ofBits ((payload.drop offset).take width)) := by
  have hlen : ((payload.drop offset).take width).length = width := by
    rw [List.length_take, List.length_drop]
    omega
  rw [extractParameter, if_neg (by omega)]
  split_ifs with hzero
  · rw [hzero, List.take_zero, ofBits_nil]
  · have hreverse := bitReverse_toUint64 (show ((payload.drop offset).take width).length ≤ 64 by omega)
    have hlt := ofBits_lt ((payload.drop offset).take width)
    rw [hlen] at hreverse hlt
    rw [hreverse, Nat.mod_eq_of_lt (hlt.trans_le (Nat.pow_le_pow_right (by decide) hwidth))]

theorem uciPart2GetSize_entry {offset width : Nat} {part1 : List Bool} (map : List Nat)
    (hroom : offset + width ≤ part1.length) (hwidth : width ≤ 32) :
    uciPart2GetSize part1 [⟨[⟨offset, width⟩], map⟩] =
      if map.length = 2 ^ width then map[ofBits ((part1.drop offset).take width)]? else none := by
  have hindex : UciPart2SizeDescription.Entry.index ⟨[⟨offset, width⟩], map⟩ part1 =
      some (ofBits ((part1.drop offset).take width), width) := by
    rw [UciPart2SizeDescription.Entry.index, List.foldlM_cons]
    dsimp only
    rw [extractParameter_eq hroom hwidth]
    simp
  rw [uciPart2GetSize, List.foldlM_cons, hindex]
  simp only [Option.bind_eq_bind, Option.bind_some, Nat.one_shiftLeft, Nat.zero_add, List.foldlM_nil]
  split_ifs
  · cases map[ofBits ((part1.drop offset).take width)]? with
    | none => rfl
    | some size => rfl
  · rfl

@[simp] theorem length_getBitPositions (bits : List Bool) : (getBitPositions bits).length = bits.count true := by
  induction bits using List.reverseRecOn with
  | nil => rfl
  | append_singleton bits b ih =>
    have hfirst : ((List.range bits.length).filter fun i => (bits ++ [b]).getD i false) = getBitPositions bits := by
      refine List.filter_congr fun i hi => ?_
      have hlt := List.mem_range.mp hi
      rw [List.getD_eq_getElem?_getD, List.getElem?_append_left hlt, List.getD_eq_getElem?_getD]
    rw [getBitPositions, List.length_append, List.length_singleton, List.range_succ, List.filter_append, hfirst,
      List.length_append, ih, List.count_append]
    cases b <;> simp

theorem foldlM_allowed {riRestriction : List Bool} {size : Nat → Option Nat} {ranks map map' : List Nat}
    (h : ranks.foldlM (fun map rank => do
      let allowed ← riRestriction[rank - 1]?
      if allowed then (size rank).map fun bits => map ++ [bits] else some map) map = some map') :
    ∃ sizes, map' = map ++ sizes ∧
      (ranks.filter fun rank => riRestriction.getD (rank - 1) false).map size = sizes.map some := by
  induction ranks generalizing map with
  | nil =>
    cases h
    exact ⟨[], (List.append_nil _).symm, rfl⟩
  | cons rank ranks ih =>
    rw [List.foldlM_cons] at h
    obtain ⟨next, hnext, hrest⟩ := Option.bind_eq_some_iff.mp h
    obtain ⟨sizes, rfl, hsizes⟩ := ih hrest
    obtain ⟨allowed, hallowed, hnext⟩ := Option.bind_eq_some_iff.mp hnext
    have hget : riRestriction.getD (rank - 1) false = allowed := by
      rw [List.getD_eq_getElem?_getD, hallowed, Option.getD_some]
    rw [List.filter_cons, hget]
    cases allowed with
    | false =>
      cases hnext
      exact ⟨sizes, rfl, hsizes⟩
    | true =>
      obtain ⟨bits, hbits, rfl⟩ := Option.map_eq_some_iff.mp hnext
      refine ⟨bits :: sizes, by rw [List.append_assoc]; rfl, ?_⟩
      rw [if_pos rfl, List.map_cons, hbits, hsizes, List.map_cons]

/-- The ranks that the restriction allows, when none is above the number of ports. -/
theorem allowed_eq {riRestriction : List Bool} {ports : Nat} (hports : ports ≤ riRestriction.length)
    (hhigh : ∀ i ∈ getBitPositions riRestriction, i < ports) :
    ((List.range' 1 ports).filter fun rank => riRestriction.getD (rank - 1) false) =
      (getBitPositions riRestriction).map (· + 1) := by
  obtain ⟨above, habove⟩ := Nat.exists_eq_add_of_le hports
  have hpositions : getBitPositions riRestriction =
      (List.range ports).filter fun i => riRestriction.getD i false := by
    have hnone : (((List.range above).map (ports + ·)).filter fun i => riRestriction.getD i false) = [] := by
      refine List.filter_eq_nil_iff.mpr fun i hi hbit => ?_
      obtain ⟨j, hj, rfl⟩ := List.mem_map.mp hi
      have hlt := List.mem_range.mp hj
      have hposition := hhigh (ports + j) (List.mem_filter.mpr ⟨List.mem_range.mpr (by omega), hbit⟩)
      omega
    rw [getBitPositions, habove, List.range_add, List.filter_append, hnone, List.append_nil]
  rw [hpositions, List.range'_eq_map_range, List.filter_map]
  have hshift : (fun i => 1 + i) = (· + 1) := by
    funext i
    exact Nat.add_comm 1 i
  rw [hshift]
  congr 1

namespace CsiReportConfiguration

variable {config : CsiReportConfiguration} {sizes : RiLiCqiCriSizes} {size : Nat → Option Nat} {map : List Nat}

/-- The rank that the RI field of the first part denotes, if it denotes one. -/
def rank (config : CsiReportConfiguration) (part1 : List Bool) : Option Nat := do
  let sizes ← config.part1Sizes
  csiReportUnpackRi ((part1.drop sizes.cri).take sizes.ri) config.riRestriction

def Part2SizeExact (config : CsiReportConfiguration) (report : CsiReportSize) (size : Nat → Option Nat) : Prop :=
  ∀ part1 : List Bool, part1.length = report.part1Size → ∃ bits,
    uciPart2GetSize part1 report.part2Correspondence = some bits ∧
      ∀ rank, config.rank part1 = some rank → size rank = some bits

structure PortsCover (config : CsiReportConfiguration) : Prop where
  le : config.pmiCodebook.antennaPorts ≤ config.riRestriction.length
  high : ∀ i ∈ getBitPositions config.riRestriction, i < config.pmiCodebook.antennaPorts

theorem portsCover_of_isValid (h : config.isValid = true) (hone : config.pmiCodebook ≠ .onePort) :
    config.PortsCover := by
  simp only [isValid, Bool.and_eq_true, Bool.or_eq_true, decide_eq_true_eq, List.all_eq_true] at h
  obtain ⟨hle, hhigh⟩ := h.1.2.resolve_left hone
  exact ⟨hle, hhigh⟩

theorem PortsCover.count_le (h : config.PortsCover) : config.nofAllowedRanks ≤ config.pmiCodebook.antennaPorts := by
  have hlen := congrArg List.length (allowed_eq h.le h.high)
  have hfilter := List.length_filter_le (fun rank => config.riRestriction.getD (rank - 1) false)
    (List.range' 1 config.pmiCodebook.antennaPorts)
  rw [hlen, List.length_map, length_getBitPositions, List.length_range'] at hfilter
  exact hfilter

theorem PortsCover.map_size (h : config.PortsCover) (hmap : config.part2SizeMap size = some map) :
    ((getBitPositions config.riRestriction).map (· + 1)).map size = map.map some := by
  obtain ⟨sizes, heq, hsizes⟩ := foldlM_allowed hmap
  rw [heq, List.nil_append, ← allowed_eq h.le h.high, hsizes]

theorem PortsCover.length_map (h : config.PortsCover) (hmap : config.part2SizeMap size = some map) :
    map.length = config.nofAllowedRanks := by
  have hlen := congrArg List.length (h.map_size hmap)
  rw [List.length_map, List.length_map, List.length_map, length_getBitPositions] at hlen
  exact hlen.symm

theorem PortsCover.size_eq (h : config.PortsCover) (hmap : config.part2SizeMap size = some map) {i position : Nat}
    (hi : (getBitPositions config.riRestriction)[i]? = some position) :
    map[i]?.map some = some (size (position + 1)) := by
  rw [← List.getElem?_map, ← h.map_size hmap, List.getElem?_map, List.getElem?_map, hi, Option.map_some,
    Option.map_some]

theorem ri_eq (h : config.PortsCover) (hsizes : config.part1Sizes = some sizes)
    (hone : config.pmiCodebook ≠ .onePort) : sizes.ri = Nat.clog 2 config.nofAllowedRanks := by
  have hcount := h.count_le
  unfold part1Sizes getRiLiCqiCriSizes at hsizes
  rw [nofAllowedRanks] at hcount ⊢
  cases hcodebook : config.pmiCodebook with
  | monostate =>
    rw [hcodebook, ite_self] at hsizes
    cases hsizes
  | onePort => exact absurd hcodebook hone
  | twoPort =>
    rw [hcodebook] at hsizes hcount
    obtain ⟨-, heq⟩ := Option.ite_none_right_eq_some.mp hsizes
    cases heq
    exact min_eq_right ((Nat.clog_le_iff_le_pow (by decide)).mpr hcount)
  | typeISinglePanel n1n2 mode =>
    rw [hcodebook] at hsizes hcount
    obtain ⟨-, heq⟩ := Option.ite_none_right_eq_some.mp hsizes
    obtain ⟨-, heq⟩ := Option.ite_none_right_eq_some.mp heq
    cases heq
    dsimp only
    split_ifs with hfour
    · rw [hfour] at hcount
      exact min_eq_right ((Nat.clog_le_iff_le_pow (by decide)).mpr hcount)
    · rfl

variable {report : CsiReportSize}

theorem exact_entry_iff (h : config.PortsCover) (hone : config.pmiCodebook ≠ .onePort)
    (hpos : config.nofAllowedRanks ≠ 0) (hsizes : config.part1Sizes = some sizes)
    (hmap : config.part2SizeMap size = some map) (hroom : sizes.cri + sizes.ri ≤ report.part1Size)
    (hentry : report.part2Correspondence = [⟨[⟨sizes.cri, sizes.ri⟩], map⟩]) :
    config.Part2SizeExact report size ↔ ∃ k, config.nofAllowedRanks = 2 ^ k := by
  have hri := ri_eq h hsizes hone
  have hwidth : sizes.ri ≤ 32 := by
    have hcount := (List.count_le_length (a := true) (l := config.riRestriction)).trans config.riRestriction_le
    rw [hri]
    exact Nat.clog_le_of_le_pow (hcount.trans (by decide))
  constructor
  · intro hexact
    obtain ⟨bits, hget, -⟩ := hexact (List.replicate report.part1Size false) List.length_replicate
    rw [hentry, uciPart2GetSize_entry map (by rw [List.length_replicate]; exact hroom) hwidth] at hget
    obtain ⟨hlen, -⟩ := Option.ite_none_right_eq_some.mp hget
    exact ⟨sizes.ri, (h.length_map hmap).symm.trans hlen⟩
  · rintro ⟨k, hk⟩ part1 hlen
    have hwhole : map.length = 2 ^ sizes.ri := by
      rw [h.length_map hmap, hri, hk, Nat.clog_pow _ _ (by decide)]
    have hindex : ofBits ((part1.drop sizes.cri).take sizes.ri) < map.length := by
      rw [hwhole]
      refine (ofBits_lt _).trans_le (Nat.pow_le_pow_right (by decide) ?_)
      rw [List.length_take]
      exact min_le_left _ _
    refine ⟨map[ofBits ((part1.drop sizes.cri).take sizes.ri)], ?_, fun rank hrank => ?_⟩
    · rw [hentry, uciPart2GetSize_entry map (hlen ▸ hroom) hwidth, if_pos hwhole, List.getElem?_eq_getElem hindex]
    · have hne : config.riRestriction ≠ [] := fun hnil => hpos (by rw [nofAllowedRanks, hnil]; rfl)
      rw [CsiReportConfiguration.rank, hsizes, Option.bind_eq_bind, Option.bind_some, csiReportUnpackRi,
        if_neg hne] at hrank
      obtain ⟨-, hrank⟩ := Option.ite_none_right_eq_some.mp hrank
      obtain ⟨position, hposition, rfl⟩ := Option.map_eq_some_iff.mp hrank
      have hsize := h.size_eq hmap hposition
      rw [List.getElem?_eq_getElem hindex, Option.map_some] at hsize
      exact (Option.some.inj hsize).symm

theorem exact_of_no_entry (hnone : report.part2Correspondence = [])
    (hzero : ∀ part1 rank, config.rank part1 = some rank → size rank = some 0) : config.Part2SizeExact report size :=
  fun part1 _ => ⟨0, by rw [hnone]; rfl, fun rank hrank => hzero part1 rank hrank⟩

theorem exists_position {part1 : List Bool} {rank : Nat} (hne : config.riRestriction ≠ [])
    (hrank : config.rank part1 = some rank) :
    ∃ i position : Nat, (getBitPositions config.riRestriction)[i]? = some position ∧ rank = position + 1 := by
  obtain ⟨sizes, -, hri⟩ := Option.bind_eq_some_iff.mp hrank
  rw [csiReportUnpackRi, if_neg hne] at hri
  obtain ⟨-, hri⟩ := Option.ite_none_right_eq_some.mp hri
  obtain ⟨position, hposition, rfl⟩ := Option.map_eq_some_iff.mp hri
  exact ⟨_, position, hposition, rfl⟩

/-! The sizes of the second part that are zero -/

theorem four_le_ports (n1n2 : SinglePanelConfig) : 4 ≤ 2 * n1n2.info.n1 * n1n2.info.n2 := by
  cases n1n2 <;> decide

theorem antennaPorts_eq_one {codebook : PmiCodebook} : codebook.antennaPorts = 1 ↔ codebook = .onePort := by
  cases codebook with
  | typeISinglePanel n1n2 mode =>
    have hfour := four_le_ports n1n2
    exact iff_of_false (fun hone : 2 * n1n2.info.n1 * n1n2.info.n2 = 1 => by omega) (fun h => by cases h)
  | _ => decide

theorem antennaPorts_pos {codebook : PmiCodebook} (h : codebook ≠ .monostate) : 0 < codebook.antennaPorts := by
  cases codebook with
  | typeISinglePanel n1n2 mode => exact (four_le_ports n1n2).trans_lt' (by decide)
  | monostate => exact absurd rfl h
  | _ => decide

section

variable (hsizes : config.part1Sizes = some sizes)
include hsizes

theorem ne_monostate : config.pmiCodebook ≠ .monostate := by
  intro hcodebook
  unfold part1Sizes getRiLiCqiCriSizes at hsizes
  rw [hcodebook, ite_self] at hsizes
  cases hsizes

theorem PortsCover.restriction_ne_nil (h : config.PortsCover) :
    config.riRestriction ≠ [] := by
  intro hnil
  have hle := h.le
  have hpos := antennaPorts_pos (ne_monostate hsizes)
  rw [hnil, List.length_nil] at hle
  omega

theorem sizes_onePort (hcodebook : config.pmiCodebook = .onePort) (rank : Nat) :
    getRiLiCqiCriSizes config.pmiCodebook config.riRestriction rank config.nofCsiRsResources =
      some ⟨0, 0, 4, 0, 2, 0, log2Ceil config.nofCsiRsResources⟩ := by
  unfold part1Sizes getRiLiCqiCriSizes at hsizes
  obtain ⟨hrange, -⟩ := Option.ite_none_right_eq_some.mp hsizes
  rw [hcodebook, getRiLiCqiCriSizes, if_pos hrange]

theorem part2Size_onePort (hcodebook : config.pmiCodebook = .onePort) (rank : Nat) :
    config.getCsiReportPart2Size rank = some 0 := by
  rw [getCsiReportPart2Size, sizes_onePort hsizes hcodebook, pmiSize, hcodebook]
  simp [csiReportGetSizePmi]

/-- Up to four layers there is no second transport block. -/
theorem sizes_few_layers {rank : Nat} (hle : rank ≤ 4) :
    ∃ sizes', getRiLiCqiCriSizes config.pmiCodebook config.riRestriction rank config.nofCsiRsResources = some sizes' ∧
      sizes'.widebandCqiSecondTb = 0 := by
  unfold part1Sizes getRiLiCqiCriSizes at hsizes
  obtain ⟨hrange, hsizes⟩ := Option.ite_none_right_eq_some.mp hsizes
  unfold getRiLiCqiCriSizes
  rw [if_pos hrange]
  cases hcodebook : config.pmiCodebook with
  | monostate =>
    rw [hcodebook] at hsizes
    cases hsizes
  | onePort => exact ⟨_, rfl, rfl⟩
  | twoPort => exact ⟨_, rfl, rfl⟩
  | typeISinglePanel n1n2 mode =>
    rw [hcodebook] at hsizes
    obtain ⟨hports, -⟩ := Option.ite_none_right_eq_some.mp hsizes
    exact ⟨_, if_pos hports, if_neg hle.not_gt⟩

theorem part2Size_criRiCqi (hquantities : config.quantities = .criRiCqi) {rank : Nat} (hle : rank ≤ 4) :
    config.getCsiReportPart2Size rank = some 0 := by
  obtain ⟨sizes', hsizes', hsecond⟩ := sizes_few_layers hsizes hle
  rw [getCsiReportPart2Size, hsizes', pmiSize, hquantities]
  simp [CsiReportQuantities.hasPmi, hsecond]

theorem pucchPart2Size_onePort (hcodebook : config.pmiCodebook = .onePort) (rank : Nat) :
    config.getCsiReportPucchPart2Size rank = some 0 := by
  have hsubband : config.getCsiReportPucchPart2SizeSubband rank = some 0 := by
    rw [getCsiReportPucchPart2SizeSubband]
    cases config.subband with
    | none => rfl
    | some subband =>
      dsimp only
      rw [sizes_onePort hsizes hcodebook]
      split_ifs <;> rfl
  rw [getCsiReportPucchPart2Size, getCsiReportPucchPart2SizeWideband, part2Size_onePort hsizes hcodebook, hsubband]
  rfl

end

def pucchPart2Size (config : CsiReportConfiguration) : Nat → Option Nat :=
  if config.subband.isSome then config.getCsiReportPucchPart2Size else fun _ => some 0

theorem hasCqi_of_not_rsrp (hrsrp : ¬ config.quantities.isRsrp = true) (hother : config.quantities ≠ .other) :
    config.quantities.hasCqi = true := by
  cases hquantities : config.quantities with
  | criRsrp => exact absurd (by rw [hquantities]; rfl) hrsrp
  | ssbIndexRsrp => exact absurd (by rw [hquantities]; rfl) hrsrp
  | other => exact absurd hquantities hother
  | _ => rfl

theorem criRiCqi_of_no_content (hrsrp : ¬ config.quantities.isRsrp = true) (hother : config.quantities ≠ .other)
    (hcontent : config.hasPart2Content = false) :
    config.quantities = .criRiCqi ∧ config.pmiCodebook.antennaPorts ≤ 4 := by
  rw [hasPart2Content, Bool.or_eq_false_iff, Bool.and_eq_false_iff] at hcontent
  obtain ⟨hpmi, hports⟩ := hcontent
  have hcqi := hasCqi_of_not_rsrp hrsrp hother
  have hquantities : config.quantities = .criRiCqi := by
    cases hquantities : config.quantities with
    | criRiCqi => rfl
    | criRiPmiCqi => rw [hquantities] at hpmi; cases hpmi
    | criRiLiPmiCqi => rw [hquantities] at hpmi; cases hpmi
    | _ => rw [hquantities] at hcqi; cases hcqi
  refine ⟨hquantities, not_lt.mp (of_decide_eq_false (hports.resolve_left ?_))⟩
  rw [hquantities]
  decide

theorem withPart2_eq {part1Size : Nat} {report : CsiReportSize} (h : withPart2 part1Size sizes map = some report) :
    report.part1Size = part1Size ∧ report.part2Correspondence = [⟨[⟨sizes.cri, sizes.ri⟩], map⟩] := by
  obtain ⟨least, -, h⟩ := Option.bind_eq_some_iff.mp h
  obtain ⟨greatest, -, h⟩ := Option.bind_eq_some_iff.mp h
  cases h
  exact ⟨rfl, rfl⟩

theorem exact_rsrp (h : config.getCsiReportSizeRsrp = some report) :
    report.part2Correspondence = [] ∧ config.Part2SizeExact report size := by
  obtain ⟨⟨hcodebook, -⟩, hreport⟩ := Option.ite_none_right_eq_some.mp h
  cases hreport
  refine ⟨rfl, exact_of_no_entry rfl fun part1 rank hrank => ?_⟩
  obtain ⟨sizes, hsizes, -⟩ := Option.bind_eq_some_iff.mp hrank
  exact absurd hcodebook (ne_monostate hsizes)

theorem entry_iff {part1Size : Nat} {report : CsiReportSize} (hvalid : config.isValid = true)
    (hranks : config.riRestriction = [] ∨ config.nofAllowedRanks ≠ 0) (hone : config.pmiCodebook ≠ .onePort)
    (hsizes : config.part1Sizes = some sizes) (hmap : config.part2SizeMap size = some map)
    (hroom : sizes.cri + sizes.ri ≤ part1Size) (hreport : withPart2 part1Size sizes map = some report) :
    config.Part2SizeExact report size ↔ ∃ k, config.nofAllowedRanks = 2 ^ k := by
  have hcover := portsCover_of_isValid hvalid hone
  obtain ⟨hpart1, hentry⟩ := withPart2_eq hreport
  have hpos := hranks.resolve_left (hcover.restriction_ne_nil hsizes)
  exact exact_entry_iff hcover hone hpos hsizes hmap (hpart1 ▸ hroom) hentry

/-- The report on PUSCH has no second part. -/
abbrev NoPuschPart2 (config : CsiReportConfiguration) : Prop :=
  config.quantities.isRsrp = true ∨ config.pmiCodebook.antennaPorts = 1 ∨ config.hasPart2Content = false

/-- The report on PUCCH is not one for subbands, or no rank that is allowed has bits in the second part. -/
abbrev NoPucchPart2 (config : CsiReportConfiguration) : Prop :=
  config.subband = none ∨
    ∃ map, config.part2SizeMap config.getCsiReportPucchPart2Size = some map ∧ map.all (· = 0) = true

theorem pusch_exact_iff (hvalid : config.isValid = true)
    (hranks : config.riRestriction = [] ∨ config.nofAllowedRanks ≠ 0)
    (hreport : config.getCsiReportPuschSize = some report) :
    config.Part2SizeExact report config.getCsiReportPart2Size ↔
      config.NoPuschPart2 ∨ ∃ k, config.nofAllowedRanks = 2 ^ k := by
  rw [getCsiReportPuschSize] at hreport
  by_cases hrsrp : config.quantities.isRsrp = true
  · rw [if_pos hrsrp] at hreport
    obtain ⟨-, hreport⟩ := Option.ite_none_left_eq_some.mp hreport
    exact iff_of_true (exact_rsrp hreport).2 (.inl (.inl hrsrp))
  rw [if_neg hrsrp] at hreport
  obtain ⟨-, hreport⟩ := Option.ite_none_right_eq_some.mp hreport
  obtain ⟨sizes, hsizes, hreport⟩ := Option.bind_eq_some_iff.mp hreport
  have hother : config.quantities ≠ .other := by
    simp only [isValid, Bool.and_eq_true, decide_eq_true_eq] at hvalid
    exact hvalid.2
  by_cases hno : config.pmiCodebook.antennaPorts = 1 ∨ config.hasPart2Content = false
  · rw [if_pos hno] at hreport
    cases hreport
    refine iff_of_true (exact_of_no_entry rfl fun part1 rank hrank => ?_) (.inl (.inr hno))
    by_cases hone : config.pmiCodebook = .onePort
    · exact part2Size_onePort hsizes hone rank
    have hcover := portsCover_of_isValid hvalid hone
    have hcontent := hno.resolve_left (mt antennaPorts_eq_one.mp hone)
    obtain ⟨hquantities, hports⟩ := criRiCqi_of_no_content hrsrp hother hcontent
    obtain ⟨i, position, hposition, rfl⟩ := exists_position (hcover.restriction_ne_nil hsizes) hrank
    have hhigh := hcover.high position (List.mem_of_getElem? hposition)
    exact part2Size_criRiCqi hsizes hquantities (by omega)
  · rw [if_neg hno] at hreport
    obtain ⟨map, hmap, hreport⟩ := Option.bind_eq_some_iff.mp hreport
    have hone : config.pmiCodebook ≠ .onePort := fun hone => hno (.inl (antennaPorts_eq_one.mpr hone))
    rw [or_iff_right (not_or.mpr ⟨hrsrp, hno⟩)]
    refine entry_iff hvalid hranks hone hsizes hmap ?_ hreport
    rw [getCsiReportPart1Size, if_pos (hasCqi_of_not_rsrp hrsrp hother)]
    exact Nat.le_add_right _ _

theorem pucch_exact_iff (hvalid : config.isValid = true)
    (hranks : config.riRestriction = [] ∨ config.nofAllowedRanks ≠ 0)
    (hreport : config.getCsiReportPucchSize = some report) :
    config.Part2SizeExact report config.pucchPart2Size ↔
      config.NoPucchPart2 ∨ ∃ k, config.nofAllowedRanks = 2 ^ k := by
  rw [getCsiReportPucchSize] at hreport
  rw [pucchPart2Size]
  cases hsubband : config.subband with
  | none =>
    rw [hsubband] at hreport
    have hnone : report.part2Correspondence = [] := by
      dsimp only at hreport
      split_ifs at hreport with hcqi hone hrsrp
      · obtain ⟨largest, -, heq⟩ := Option.bind_eq_some_iff.mp hreport
        cases heq
        rfl
      · have hrs : _ ∧ config.Part2SizeExact report config.getCsiReportPart2Size := exact_rsrp hreport
        exact hrs.1
      · cases hreport
        rfl
    exact iff_of_true (exact_of_no_entry hnone fun _ _ _ => rfl) (.inl (.inl hsubband))
  | some subband =>
    rw [hsubband] at hreport
    obtain ⟨-, hreport⟩ := Option.ite_none_left_eq_some.mp hreport
    obtain ⟨part1Size, hpart1, hreport⟩ := Option.bind_eq_some_iff.mp hreport
    obtain ⟨map, hmap, hreport⟩ := Option.bind_eq_some_iff.mp hreport
    obtain ⟨sizes, hsizes, hroom⟩ := Option.bind_eq_some_iff.mp hpart1
    have hsize : (if (some subband).isSome = true then config.getCsiReportPucchPart2Size else fun _ => some 0) =
        config.getCsiReportPucchPart2Size := rfl
    rw [hsize]
    by_cases hzero : map.all (· = 0) = true
    · rw [if_pos hzero] at hreport
      cases hreport
      refine iff_of_true (exact_of_no_entry rfl fun part1 rank hrank => ?_) (.inl (.inr ⟨map, hmap, hzero⟩))
      by_cases hone : config.pmiCodebook = .onePort
      · exact pucchPart2Size_onePort hsizes hone rank
      have hcover := portsCover_of_isValid hvalid hone
      obtain ⟨i, position, hposition, rfl⟩ := exists_position (hcover.restriction_ne_nil hsizes) hrank
      obtain ⟨bits, hbits, heq⟩ := Option.map_eq_some_iff.mp (hcover.size_eq hmap hposition)
      rw [← heq, of_decide_eq_true (List.all_eq_true.mp hzero bits (List.mem_of_getElem? hbits))]
    · rw [if_neg hzero, hsizes] at hreport
      have hone : config.pmiCodebook ≠ .onePort := fun hone => hzero (by
        obtain ⟨sizes', heq, hall⟩ := foldlM_allowed hmap
        rw [List.nil_append] at heq
        rw [heq, List.all_eq_true]
        intro bits hbits
        obtain ⟨rank, -, hrank⟩ := List.mem_map.mp (hall ▸ List.mem_map_of_mem hbits)
        rw [pucchPart2Size_onePort hsizes hone] at hrank
        exact decide_eq_true (Option.some.inj hrank).symm)
      have hhas : ¬config.NoPucchPart2 := by
        rintro (hnone | ⟨map', hmap', hzero'⟩)
        · rw [hsubband] at hnone
          cases hnone
        · cases hmap.symm.trans hmap'
          exact hzero hzero'
      rw [or_iff_right hhas]
      refine entry_iff hvalid hranks hone hsizes hmap ?_ hreport
      cases hroom
      omega

/-- The size found from a first part is exact, on PUSCH and on PUCCH, exactly if there is no second part, or the
number of the allowed ranks is a power of two. -/
theorem part2Size_exact_iff (config : CsiReportConfiguration) (hvalid : config.isValid = true)
    (hranks : config.riRestriction = [] ∨ config.nofAllowedRanks ≠ 0) :
    (∀ report, config.getCsiReportPuschSize = some report →
      (config.Part2SizeExact report config.getCsiReportPart2Size ↔
        config.NoPuschPart2 ∨ ∃ k, config.nofAllowedRanks = 2 ^ k)) ∧
    ∀ report, config.getCsiReportPucchSize = some report →
      (config.Part2SizeExact report config.pucchPart2Size ↔
        config.NoPucchPart2 ∨ ∃ k, config.nofAllowedRanks = 2 ^ k) :=
  ⟨fun _ => pusch_exact_iff hvalid hranks, fun _ => pucch_exact_iff hvalid hranks⟩

def fourPorts (allowed : Bool) : CsiReportConfiguration where
  nofCsiRsResources := 1
  nofReportedRs := 1
  pmiCodebook := .typeISinglePanel .twoOne .one
  riRestriction := [true, true, true, allowed]
  quantities := .criRiPmiCqi
  subband := none
  riRestriction_le := Nat.le_of_ble_eq_true rfl

theorem part2Size_exact_four_ranks : (fourPorts true).Part2SizeExact ⟨6, [⟨[⟨0, 2⟩], [5, 5, 4, 4]⟩], 4, 5⟩
    (fourPorts true).getCsiReportPart2Size :=
  ((part2Size_exact_iff (fourPorts true) (by decide) (.inr (by decide))).1 _ (by decide +kernel)).mpr
    (.inr ⟨2, by decide⟩)

/-- With three of four ranks the table has three entries, and the RI field two bits. -/
theorem three_ranks_not_exact : ∃ report, (fourPorts false).isValid = true ∧ (fourPorts false).nofAllowedRanks = 3 ∧
    (fourPorts false).getCsiReportPuschSize = some report ∧
    uciPart2GetSize (List.replicate report.part1Size false) report.part2Correspondence = none ∧
    ¬ (fourPorts false).Part2SizeExact report (fourPorts false).getCsiReportPart2Size := by
  have hfails : uciPart2GetSize (List.replicate 6 false) [⟨[⟨0, 2⟩], [5, 5, 4]⟩] = none := by
    rw [uciPart2GetSize_entry _ (by decide) (by decide)]
    rfl
  refine ⟨⟨6, [⟨[⟨0, 2⟩], [5, 5, 4]⟩], 4, 5⟩, by decide, by decide, by decide +kernel, hfails, fun hexact => ?_⟩
  obtain ⟨bits, hget, -⟩ := hexact (List.replicate 6 false) rfl
  rw [hfails] at hget
  cases hget

end CsiReportConfiguration

end Ocudu.Ran
