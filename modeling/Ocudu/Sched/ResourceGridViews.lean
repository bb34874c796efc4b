import Ocudu.Sched.ResourceGrid
import Mathlib.Data.Set.Basic

/-! The grid as a set of cells, each an OFDM symbol and a common resource block: `fill` and `clear` add and
take cells, and the queries should tell of the same cells. -/

namespace Ocudu.Sched

def area (symbols : OrderedInterval) (crbs : Nat → Prop) : Set (Nat × Nat) :=
  {cell | symbols.contains cell.1 = true ∧ crbs cell.2}

def GridCall.apply (filled : Set (Nat × Nat)) : GridCall → Set (Nat × Nat)
  | .reset => ∅
  | .fill symbols crbs => filled ∪ area symbols fun c => crbs.contains c = true
  | .fillList symbols crbList => filled ∪ area symbols (· ∈ crbList)
  | .clear symbols crbs => filled \ area symbols fun c => crbs.contains c = true
  | .clearList symbols crbList => filled \ area symbols (· ∈ crbList)

def filledBy (calls : List GridCall) : Set (Nat × Nat) := calls.foldl GridCall.apply ∅

namespace CarrierGrid

def cellIndex (cfg : ScsSpecificCarrier) (sym crb : Nat) : Nat :=
  crb - cfg.offsetToCarrier + sym * cfg.carrierBandwidth

structure Refines (cfg : ScsSpecificCarrier) (g : CarrierGrid) (filled : Set (Nat × Nat)) : Prop where
  cfg_eq : g.carrierCfg = cfg
  size_eq : g.slotRbs.size = nofOfdmSymPerSlot * cfg.carrierBandwidth
  bit_iff : ∀ sym crb, sym < nofOfdmSymPerSlot → cfg.rbDims.contains crb = true →
    (g.slotRbs.bit (cellIndex cfg sym crb) = true ↔ (sym, crb) ∈ filled)

variable {cfg : ScsSpecificCarrier} {g g' : CarrierGrid} {filled : Set (Nat × Nat)} {v : Bool}
  {symbols crbs bwp : OrderedInterval} {crbList : List Nat}

theorem mem_points {i : OrderedInterval} {point : Nat} :
    point ∈ i.points ↔ i.start ≤ point ∧ point < i.stop := by
  rw [Interval.mem_points, Interval.contains, Bool.and_eq_true, decide_eq_true_eq, decide_eq_true_eq]

theorem contains_iff {i : OrderedInterval} {point : Nat} :
    i.contains point = true ↔ i.start ≤ point ∧ point < i.stop := by
  rw [Interval.contains, Bool.and_eq_true, decide_eq_true_eq, decide_eq_true_eq]

theorem containsInterval_iff {i j : OrderedInterval} :
    i.containsInterval j = true ↔ i.start ≤ j.start ∧ j.stop ≤ i.stop := by
  rw [OrderedInterval.containsInterval, Bool.and_eq_true, decide_eq_true_eq, decide_eq_true_eq]

theorem rbDims_contains {crb : Nat} : cfg.rbDims.contains crb = true ↔
    cfg.offsetToCarrier ≤ crb ∧ crb < cfg.offsetToCarrier + cfg.carrierBandwidth := contains_iff

theorem flat_inj {width col col' row row' : Nat} (hcol : col < width) (hcol' : col' < width)
    (h : col + row * width = col' + row' * width) : col = col' ∧ row = row' := by
  have hmod := congrArg (· % width) h
  have hdiv := congrArg (· / width) h
  simp only [Nat.add_mul_mod_self_right, Nat.mod_eq_of_lt hcol, Nat.mod_eq_of_lt hcol'] at hmod
  simp only [Nat.add_mul_div_right _ _ (Nat.zero_lt_of_lt hcol), Nat.div_eq_of_lt hcol,
    Nat.div_eq_of_lt hcol', Nat.zero_add] at hdiv
  exact ⟨hmod, hdiv⟩

theorem flat_lt {width col row rows : Nat} (hcol : col < width) (hrow : row < rows) :
    col + row * width < rows * width := by
  calc col + row * width < width + row * width := Nat.add_lt_add_right hcol _
    _ = (row + 1) * width := by rw [Nat.succ_mul, Nat.add_comm]
    _ ≤ rows * width := Nat.mul_le_mul_right _ hrow

theorem Refines.paint (h : Refines cfg g filled) {region : Nat → Prop} {cells : Set (Nat × Nat)}
    {f : BoundedBitset (nofOfdmSymPerSlot * maxNofPrbs) → Option (BoundedBitset (nofOfdmSymPerSlot * maxNofPrbs))}
    (hf : BoundedBitset.Paints (nofOfdmSymPerSlot * cfg.carrierBandwidth) v region f)
    (hregion : ∀ sym crb, sym < nofOfdmSymPerSlot → cfg.rbDims.contains crb = true →
      (region (cellIndex cfg sym crb) ↔ (sym, crb) ∈ cells)) :
    ∃ slotRbs, f g.slotRbs = some slotRbs ∧
      Refines cfg { g with slotRbs } (if v then filled ∪ cells else filled \ cells) := by
  obtain ⟨slotRbs, hsome, hsize, hbits⟩ := hf g.slotRbs h.size_eq
  refine ⟨slotRbs, hsome, h.cfg_eq, hsize, fun sym crb hsym hcrb => ?_⟩
  by_cases hin : (sym, crb) ∈ cells
  · have hbit := (hbits _).1 ((hregion sym crb hsym hcrb).2 hin)
    rw [hbit]
    cases v <;> simp [hin]
  · have hbit := (hbits _).2 fun hr => hin ((hregion sym crb hsym hcrb).1 hr)
    rw [hbit, h.bit_iff sym crb hsym hcrb]
    cases v <;> simp [hin]

theorem interval_cells (hcrbs : cfg.rbDims.containsInterval crbs = true) {sym crb : Nat}
    (hcrb : cfg.rbDims.contains crb = true) :
    (∃ i ∈ symbols.points,
      crbs.start - cfg.offsetToCarrier + i * cfg.carrierBandwidth ≤ cellIndex cfg sym crb ∧
      cellIndex cfg sym crb < crbs.stop - cfg.offsetToCarrier + i * cfg.carrierBandwidth) ↔
      (sym, crb) ∈ area symbols fun c => crbs.contains c = true := by
  have hdims := containsInterval_iff.mp hcrbs
  have hc := rbDims_contains.mp hcrb
  have hstop : crbs.stop - cfg.offsetToCarrier ≤ cfg.carrierBandwidth :=
    Nat.sub_le_iff_le_add'.mpr hdims.2
  have hoff : cfg.offsetToCarrier ≤ crbs.start := hdims.1
  rw [area, Set.mem_ofPred_eq, contains_iff, contains_iff]
  constructor
  · rintro ⟨i, hi, hle, hlt⟩
    rw [mem_points] at hi
    obtain ⟨col, hcol⟩ := Nat.exists_eq_add_of_le hle
    rw [Nat.add_right_comm] at hcol
    obtain ⟨hcrbEq, rfl⟩ := flat_inj (by omega) (by omega) hcol
    exact ⟨hi, by omega, by omega⟩
  · rintro ⟨hsym, hstart, hlt⟩
    refine ⟨sym, mem_points.mpr hsym, Nat.add_le_add_right (Nat.sub_le_sub_right hstart _) _,
      Nat.add_lt_add_right ?_ _⟩
    omega

theorem list_cells (hlist : ∀ crb ∈ crbList, cfg.rbDims.contains crb = true) {sym crb : Nat}
    (hcrb : cfg.rbDims.contains crb = true) :
    (∃ i ∈ symbols.points, ∃ c ∈ crbList,
      cellIndex cfg sym crb = c - cfg.offsetToCarrier + i * cfg.carrierBandwidth) ↔
      (sym, crb) ∈ area symbols (· ∈ crbList) := by
  have hc := rbDims_contains.mp hcrb
  rw [area, Set.mem_ofPred_eq, contains_iff]
  constructor
  · rintro ⟨i, hi, c, hmem, heq⟩
    have hc' := rbDims_contains.mp (hlist c hmem)
    rw [mem_points] at hi
    obtain ⟨hcrbEq, rfl⟩ := flat_inj (by omega) (by omega) heq
    obtain rfl : crb = c := by omega
    exact ⟨hi, hmem⟩
  · rintro ⟨hsym, hmem⟩
    exact ⟨sym, mem_points.mpr hsym, crb, hmem, rfl⟩

theorem Refines.setInterval (h : Refines cfg g filled) (hcrbs : cfg.rbDims.containsInterval crbs = true)
    (hsymbols : symbols.stop ≤ nofOfdmSymPerSlot) :
    ∃ g', g.setInterval v symbols crbs = some g' ∧
      Refines cfg g' (if v then filled ∪ area symbols (fun c => crbs.contains c = true)
        else filled \ area symbols fun c => crbs.contains c = true) := by
  obtain rfl := h.cfg_eq
  have hdims := containsInterval_iff.mp hcrbs
  have hstop : crbs.stop - g.carrierCfg.offsetToCarrier ≤ g.carrierCfg.carrierBandwidth :=
    Nat.sub_le_iff_le_add'.mpr hdims.2
  have hfill : ∀ i ∈ symbols.points, BoundedBitset.Paints (N := nofOfdmSymPerSlot * maxNofPrbs)
      (nofOfdmSymPerSlot * g.carrierCfg.carrierBandwidth) v
      (fun pos => crbs.start - g.offset + i * g.nofRbs ≤ pos ∧ pos < crbs.stop - g.offset + i * g.nofRbs)
      fun s => s.fill (crbs.start - g.offset + i * g.nofRbs) (crbs.stop - g.offset + i * g.nofRbs) v := by
    intro i hi
    have hi' : i + 1 ≤ nofOfdmSymPerSlot := (mem_points.mp hi).2.trans_le hsymbols
    refine BoundedBitset.paints_fill v
      (Nat.add_le_add_right (Nat.sub_le_sub_right crbs.start_le_stop _) _) ?_
    calc crbs.stop - g.offset + i * g.nofRbs ≤ g.nofRbs + i * g.nofRbs := Nat.add_le_add_right hstop _
      _ = (i + 1) * g.nofRbs := by rw [Nat.succ_mul, Nat.add_comm]
      _ ≤ nofOfdmSymPerSlot * g.nofRbs := Nat.mul_le_mul_right _ hi'
  obtain ⟨slotRbs, hsome, hrefines⟩ := h.paint (BoundedBitset.Paints.foldlM symbols.points hfill)
    fun sym crb _ hcrb => interval_cells hcrbs hcrb
  exact ⟨_, by rw [CarrierGrid.setInterval, if_pos ⟨hcrbs, hsymbols⟩, hsome, Option.map_some], hrefines⟩

theorem list_checked (hset : g.setList v symbols crbList = some g') :
    symbols.points = [] ∨ ∀ crb ∈ crbList, g.rbDims.contains crb = true := by
  rw [CarrierGrid.setList] at hset
  split_ifs at hset
  obtain ⟨slotRbs, hfold, -⟩ := Option.map_eq_some_iff.mp hset
  cases hpoints : symbols.points with
  | nil => exact .inl rfl
  | cons sym rest =>
    rw [hpoints, List.foldlM_cons] at hfold
    obtain ⟨_, hinner, -⟩ := Option.bind_eq_some_iff.mp hfold
    exact .inr (BoundedBitset.forall_of_foldlM hinner)

theorem Refines.setList (h : Refines cfg g filled) (hset : g.setList v symbols crbList = some g') :
    Refines cfg g' (if v then filled ∪ area symbols (· ∈ crbList)
      else filled \ area symbols (· ∈ crbList)) := by
  obtain rfl := h.cfg_eq
  have hchecked := list_checked hset
  rw [CarrierGrid.setList] at hset
  split_ifs at hset with hsymbols
  obtain ⟨slotRbs, hfold, rfl⟩ := Option.map_eq_some_iff.mp hset
  rcases hchecked with hnil | hlist
  · have harea : area symbols (· ∈ crbList) = ∅ := by
      refine Set.eq_empty_of_forall_notMem fun cell hcell => ?_
      have hmem := mem_points.mpr (contains_iff.mp hcell.1)
      rw [hnil] at hmem
      exact List.not_mem_nil hmem
    rw [hnil] at hfold
    obtain rfl := Option.some.inj hfold
    rw [harea, Set.union_empty, Set.sdiff_empty, ite_self]
    exact h
  · have hpaints := BoundedBitset.Paints.foldlM symbols.points fun i hi =>
      BoundedBitset.Paints.foldlM (n := nofOfdmSymPerSlot * g.carrierCfg.carrierBandwidth) (v := v)
        (N := nofOfdmSymPerSlot * maxNofPrbs) crbList
        (f := fun slotRbs crb => if g.rbDims.contains crb then
          BoundedBitset.set slotRbs (crb - g.offset + i * g.nofRbs) v else none) fun crb hcrb => by
          have hc := rbDims_contains.mp (hlist crb hcrb)
          simp only [hlist crb hcrb, if_true]
          exact BoundedBitset.paints_set v
            (flat_lt (Nat.sub_lt_left_of_lt_add hc.1 hc.2) ((mem_points.mp hi).2.trans_le hsymbols))
    obtain ⟨slotRbs', hsome, hrefines⟩ := h.paint hpaints fun sym crb _ hcrb => list_cells hlist hcrb
    obtain rfl := Option.some.inj (hfold.symm.trans hsome)
    exact hrefines

theorem Refines.of_setInterval (h : Refines cfg g filled) (hset : g.setInterval v symbols crbs = some g') :
    Refines cfg g' (if v then filled ∪ area symbols (fun c => crbs.contains c = true)
      else filled \ area symbols fun c => crbs.contains c = true) := by
  have hcheck : g.rbDims.containsInterval crbs = true ∧ symbols.stop ≤ nofOfdmSymPerSlot := by
    rw [CarrierGrid.setInterval] at hset
    split_ifs at hset with hcheck
    exact hcheck
  have hcrbs : cfg.rbDims.containsInterval crbs = true := by
    rw [← h.cfg_eq]
    exact hcheck.1
  obtain ⟨_, hsome, hrefines⟩ := Refines.setInterval (v := v) h hcrbs hcheck.2
  exact Option.some.inj (hset.symm.trans hsome) ▸ hrefines

theorem Refines.reset (h : Refines cfg g filled) : Refines cfg g.reset ∅ where
  cfg_eq := h.cfg_eq
  size_eq := (BoundedBitset.size_update _).trans h.size_eq
  bit_iff := fun sym crb hsym hcrb => by
    have hc := rbDims_contains.mp hcrb
    have hlt : cellIndex cfg sym crb < g.slotRbs.size :=
      h.size_eq ▸ flat_lt (Nat.sub_lt_left_of_lt_add hc.1 hc.2) hsym
    rw [CarrierGrid.reset, BoundedBitset.bit_update _ hlt]
    exact iff_of_false Bool.false_ne_true (Set.notMem_empty _)

theorem Refines.step (h : Refines cfg g filled) {call : GridCall} (hstep : g.step call = some g') :
    Refines cfg g' (call.apply filled) := by
  cases call with
  | reset => exact Option.some.inj hstep ▸ h.reset
  | fill symbols crbs => exact h.of_setInterval (v := true) hstep
  | fillList symbols crbList => exact h.setList (v := true) hstep
  | clear symbols crbs => exact h.of_setInterval (v := false) hstep
  | clearList symbols crbList => exact h.setList (v := false) hstep

theorem exists_new (cfg : ScsSpecificCarrier) : ∃ g, new cfg = some g ∧ Refines cfg g ∅ := by
  obtain ⟨z, hz, hsize, hbit⟩ := BoundedBitset.exists_zeros (N := nofOfdmSymPerSlot * maxNofPrbs)
    (Nat.mul_le_mul_left nofOfdmSymPerSlot cfg.carrierBandwidth_le)
  refine ⟨⟨cfg, z⟩, by rw [new, hz, Option.map_some], rfl, hsize, fun sym crb _ _ => ?_⟩
  exact iff_of_false (by rw [hbit]; exact Bool.false_ne_true) (Set.notMem_empty _)

theorem Refines.foldlM (h : Refines cfg g filled) {calls : List GridCall}
    (hrun : calls.foldlM CarrierGrid.step g = some g') : Refines cfg g' (calls.foldl GridCall.apply filled) := by
  induction calls generalizing g filled with
  | nil => exact Option.some.inj hrun ▸ h
  | cons call calls ih =>
    rw [List.foldlM_cons] at hrun
    obtain ⟨_, hstep, hrest⟩ := Option.bind_eq_some_iff.mp hrun
    exact ih (h.step hstep) hrest

theorem refines_run {calls : List GridCall} (hrun : run cfg calls = some g) : Refines cfg g (filledBy calls) := by
  obtain ⟨g₀, hnew, hempty⟩ := exists_new cfg
  rw [run, hnew, Option.bind_some] at hrun
  exact hempty.foldlM hrun

def Taken (filled : Set (Nat × Nat)) (symbols : OrderedInterval) (crb : Nat) : Prop :=
  ∃ sym, symbols.contains sym = true ∧ (sym, crb) ∈ filled

section

variable (hsymbols : symbols.stop ≤ nofOfdmSymPerSlot)
include hsymbols

theorem Refines.exists_collides (h : Refines cfg g filled) (crb : Nat) (hcrb : cfg.rbDims.contains crb = true) :
    ∃ b, g.collides symbols (.singleton crb) none = some b ∧ (b = true ↔ Taken filled symbols crb) := by
  obtain rfl := h.cfg_eq
  have hc := rbDims_contains.mp hcrb
  have hdims : g.rbDims.containsInterval (.singleton crb) = true :=
    containsInterval_iff.mpr ⟨hc.1, hc.2⟩
  have hnext : crb + 1 - g.offset = crb - g.offset + 1 := Nat.succ_sub hc.1
  obtain ⟨b, hb, hiff⟩ := BoundedBitset.exists_anyM symbols.points
    (P := fun sym => (sym, crb) ∈ filled)
    (f := fun sym => g.slotRbs.any (crb - g.offset + sym * g.nofRbs) (crb + 1 - g.offset + sym * g.nofRbs)) (by
      intro sym hsym
      have hlt := (mem_points.mp hsym).2.trans_le hsymbols
      have hcell : crb - g.offset + sym * g.nofRbs < g.slotRbs.size :=
        h.size_eq ▸ flat_lt (Nat.sub_lt_left_of_lt_add hc.1 hc.2) hlt
      rw [hnext, Nat.add_right_comm]
      obtain ⟨b, hb, hiff⟩ := BoundedBitset.exists_any (Nat.le_succ _) (Nat.succ_le_of_lt hcell)
      refine ⟨b, hb, hiff.trans ((?_ : _ ↔ g.slotRbs.bit (cellIndex g.carrierCfg sym crb) = true).trans
        (h.bit_iff sym crb hlt hcrb))⟩
      constructor
      · rintro ⟨pos, hle, hlt, hbit⟩
        obtain rfl := Nat.le_antisymm (Nat.le_of_lt_succ hlt) hle
        exact hbit
      · exact fun hbit => ⟨_, le_rfl, Nat.lt_succ_self _, hbit⟩)
  refine ⟨b, ?_, hiff.trans ?_⟩
  · rw [collides, if_pos ⟨hdims, hsymbols⟩]
    exact hb
  · simp only [Taken, mem_points, contains_iff]

theorem Refines.exists_fold (h : Refines cfg g filled) (hne : symbols.start < symbols.stop) (offset length : Nat)
    (hfit : offset + length ≤ cfg.carrierBandwidth) (hpos : 0 < cfg.carrierBandwidth) :
    ∃ selected bits, g.selectedSymbols symbols = some selected ∧
      selected.foldAndAccumulate maxNofPrbs g.nofRbs offset length = some bits ∧ bits.size = length ∧
      ∀ pos < length, bits.bit pos = true ↔ Taken filled symbols (cfg.offsetToCarrier + offset + pos) := by
  obtain rfl := h.cfg_eq
  have hlen : symbols.stop * g.nofRbs - symbols.start * g.nofRbs = symbols.length * g.nofRbs :=
    (Nat.sub_mul _ _ _).symm
  have hle : symbols.length ≤ nofOfdmSymPerSlot := (Nat.sub_le _ _).trans hsymbols
  obtain ⟨selected, hsel, hsize, hbit⟩ := BoundedBitset.exists_slice (s := g.slotRbs)
    (M := nofOfdmSymPerSlot * maxNofPrbs) (hlen.trans_le (Nat.mul_le_mul hle g.carrierCfg.carrierBandwidth_le))
  rw [hlen] at hsize hbit
  obtain ⟨bits, hbits, hbsize, hbbit⟩ := BoundedBitset.exists_foldAndAccumulate (M := maxNofPrbs) offset length
    hsize hpos ((Nat.le_of_add_left_le hfit).trans g.carrierCfg.carrierBandwidth_le)
  refine ⟨selected, bits, ?_, hbits, hbsize, fun pos hposlt => (hbbit pos hposlt).trans ?_⟩
  · rw [selectedSymbols, if_neg]
    · exact hsel
    · simp only [OrderedInterval.isEmpty, beq_iff_eq, not_or, not_lt]
      exact ⟨hne.ne', hsymbols⟩
  · have hcol : offset + pos < g.carrierCfg.carrierBandwidth := by omega
    have hcrb : g.carrierCfg.rbDims.contains (g.carrierCfg.offsetToCarrier + offset + pos) = true :=
      rbDims_contains.mpr ⟨by omega, by omega⟩
    -- the bit of a row is the cell of its symbol
    have hcell : ∀ row < symbols.length, selected.bit (row * g.nofRbs + offset + pos) =
        g.slotRbs.bit (cellIndex g.carrierCfg (symbols.start + row)
          (g.carrierCfg.offsetToCarrier + offset + pos)) := by
      intro row hrow
      rw [hbit _ (by rw [Nat.add_assoc, Nat.add_comm]; exact flat_lt hcol hrow), cellIndex]
      congr 1
      rw [Nat.add_assoc g.carrierCfg.offsetToCarrier, Nat.add_sub_cancel_left, Nat.add_mul]
      simp only [nofRbs]
      omega
    have hstart : symbols.start + symbols.length = symbols.stop := Nat.add_sub_of_le symbols.start_le_stop
    constructor
    · rintro ⟨row, hrow, hset⟩
      rw [hcell row hrow, h.bit_iff _ _ (by omega) hcrb] at hset
      exact ⟨_, contains_iff.mpr ⟨by omega, by omega⟩, hset⟩
    · rintro ⟨sym, hsym, hset⟩
      rw [contains_iff] at hsym
      obtain ⟨row, rfl⟩ := Nat.exists_eq_add_of_le hsym.1
      refine ⟨row, by omega, ?_⟩
      rw [hcell row (by omega), h.bit_iff _ _ (by omega) hcrb]
      exact hset

theorem Refines.exists_usedCrbs (h : Refines cfg g filled) (hne : symbols.start < symbols.stop)
    (hbwp : bwp.start < bwp.stop) (hfit : bwp.stop ≤ cfg.carrierBandwidth) :
    ∃ bits, g.usedCrbs bwp symbols = some bits ∧ bits.size = cfg.carrierBandwidth ∧
      ∀ c < cfg.carrierBandwidth, (bwp.contains c = true →
        (bits.bit c = true ↔ Taken filled symbols (cfg.offsetToCarrier + c))) ∧
        (bwp.contains c = false → bits.bit c = true) := by
  obtain ⟨selected, folded, hsel, hfold, hsize, hbit⟩ := h.exists_fold hsymbols hne 0 cfg.carrierBandwidth
    (Nat.zero_add _).le (by omega)
  obtain ⟨low, (hlow : folded.fill 0 bwp.start true = some low), hlowsize, hlowbit⟩ :=
    BoundedBitset.paints_fill (n := cfg.carrierBandwidth) true (Nat.zero_le bwp.start) (by omega) folded hsize
  obtain ⟨bits, (hbits : low.fill bwp.stop cfg.carrierBandwidth true = some bits), hbsize, hbbit⟩ :=
    BoundedBitset.paints_fill (n := cfg.carrierBandwidth) true hfit le_rfl low hlowsize
  refine ⟨bits, ?_, hbsize, fun c hc => ⟨fun hin => ?_, fun hout => ?_⟩⟩
  · rw [usedCrbs, hsel]
    change (selected.foldAndAccumulate maxNofPrbs g.nofRbs 0 g.nofRbs).bind _ = _
    rw [show g.nofRbs = cfg.carrierBandwidth from congrArg _ h.cfg_eq] at hfold ⊢
    rw [hfold]
    change (folded.fill 0 bwp.start true).bind (fun low => low.fill bwp.stop low.size true) = _
    rw [hlow, Option.bind_some, hlowsize, hbits]
  · rw [contains_iff] at hin
    rw [(hbbit c).2 (by omega), (hlowbit c).2 (by omega), hbit c hc, Nat.add_zero]
  · by_cases hlt : c < bwp.start
    · rw [(hbbit c).2 (by omega)]
      exact (hlowbit c).1 ⟨Nat.zero_le _, hlt⟩
    · refine (hbbit c).1 ⟨?_, hc⟩
      by_contra hge
      rw [contains_iff.mpr ⟨not_lt.mp hlt, not_le.mp hge⟩] at hout
      cases hout

theorem Refines.usedCrbs_eq_none (h : Refines cfg g filled) (hne : symbols.start < symbols.stop)
    (hpos : 0 < cfg.carrierBandwidth)
    (hfit : cfg.carrierBandwidth < bwp.stop) : g.usedCrbs bwp symbols = none := by
  obtain ⟨selected, folded, hsel, hfold, hsize, -⟩ := h.exists_fold hsymbols hne 0 cfg.carrierBandwidth
    (Nat.zero_add _).le hpos
  rw [usedCrbs, hsel]
  change (selected.foldAndAccumulate maxNofPrbs g.nofRbs 0 g.nofRbs).bind _ = _
  rw [show g.nofRbs = cfg.carrierBandwidth from congrArg _ h.cfg_eq] at hfold ⊢
  rw [hfold]
  change (folded.fill 0 bwp.start true).bind (fun low => low.fill bwp.stop low.size true) = _
  cases hlow : folded.fill 0 bwp.start true with
  | none => rfl
  | some low =>
    rw [BoundedBitset.fill] at hlow
    split_ifs at hlow
    obtain rfl := Option.some.inj hlow
    rw [Option.bind_some, BoundedBitset.fill, if_neg]
    rw [BoundedBitset.size_update]
    omega

end

/-- The views of a bandwidth part tell of the same cells. -/
def ViewsAgree (g : CarrierGrid) (filled : Set (Nat × Nat)) (bwp symbols : OrderedInterval) : Prop :=
  ∃ crbBits prbBits, g.usedCrbs bwp symbols = some crbBits ∧ g.usedPrbs bwp symbols = some prbBits ∧
    (∀ c, bwp.contains c = true → ∃ taken, crbBits.test c = some taken ∧
      prbBits.test (c - bwp.start) = some taken ∧ g.collides symbols (.singleton c) none = some taken ∧
      (taken = true ↔ Taken filled symbols c)) ∧
    ∀ c < crbBits.size, bwp.contains c = false → crbBits.test c = some true

theorem Refines.viewsAgree (h : Refines cfg g filled) (hoffset : cfg.offsetToCarrier = 0)
    (hdims : cfg.rbDims.containsInterval bwp = true) (hbwp : bwp.start < bwp.stop)
    (hsymbols : symbols.stop ≤ nofOfdmSymPerSlot) (hne : symbols.start < symbols.stop) :
    ViewsAgree g filled bwp symbols := by
  have hfit : bwp.stop ≤ cfg.carrierBandwidth := by
    have hstop : bwp.stop ≤ cfg.offsetToCarrier + cfg.carrierBandwidth := (containsInterval_iff.mp hdims).2
    rwa [hoffset, Nat.zero_add] at hstop
  have hlen : bwp.start + bwp.length = bwp.stop := Nat.add_sub_of_le bwp.start_le_stop
  obtain ⟨crbBits, hcrbs, hcsize, hcbit⟩ := h.exists_usedCrbs hsymbols hne hbwp hfit
  obtain ⟨selected, prbBits, hsel, hfold, hpsize, hpbit⟩ :=
    h.exists_fold hsymbols hne bwp.start bwp.length (hlen.trans_le hfit) (by omega)
  refine ⟨crbBits, prbBits, hcrbs, ?_, fun c hin => ?_, fun c hc hout => ?_⟩
  · rw [usedPrbs, hsel]
    exact hfold
  · have hc := contains_iff.mp hin
    obtain ⟨taken, hcollides, htaken⟩ := h.exists_collides hsymbols c
      (rbDims_contains.mpr ⟨by omega, by omega⟩)
    have hcrb := (hcbit c (by omega)).1 hin
    have hprb := hpbit (c - bwp.start) (by omega)
    rw [hoffset, Nat.zero_add] at hcrb hprb
    rw [Nat.add_sub_of_le hc.1] at hprb
    refine ⟨taken, ?_, ?_, hcollides, htaken⟩
    · rw [BoundedBitset.test_eq (by omega), Bool.eq_iff_iff.mpr (hcrb.trans htaken.symm)]
    · rw [BoundedBitset.test_eq (by omega), Bool.eq_iff_iff.mpr (hprb.trans htaken.symm)]
  · rw [BoundedBitset.test_eq hc, (hcbit c (by omega)).2 hout]

theorem exists_disagreement (hoffset : cfg.offsetToCarrier ≠ 0) (hdims : cfg.rbDims.containsInterval bwp = true)
    (hbwp : bwp.start < bwp.stop) (hsymbols : symbols.stop ≤ nofOfdmSymPerSlot)
    (hne : symbols.start < symbols.stop) :
    ∃ calls g, run cfg calls = some g ∧ ¬ViewsAgree g (filledBy calls) bwp symbols := by
  have hlims := containsInterval_iff.mp hdims
  have hstart : cfg.rbDims.containsInterval (.singleton bwp.start) = true :=
    containsInterval_iff.mpr ⟨hlims.1, hbwp.trans_le hlims.2⟩
  obtain ⟨g₀, hnew, hempty⟩ := exists_new cfg
  obtain ⟨g, hfill, -⟩ := hempty.setInterval (v := true) hstart hsymbols
  have hrun : run cfg [.fill symbols (.singleton bwp.start)] = some g := by
    rw [run, hnew, Option.bind_some, List.foldlM_cons, CarrierGrid.step, fill, hfill]
    rfl
  refine ⟨_, g, hrun, fun hagree => ?_⟩
  have h := refines_run hrun
  obtain ⟨crbBits, _, hcrbs, -, hviews, -⟩ := hagree
  rcases lt_or_ge cfg.carrierBandwidth bwp.stop with hover | hfit
  · have hpos : 0 < cfg.carrierBandwidth := by
      have hstop : bwp.stop ≤ cfg.offsetToCarrier + cfg.carrierBandwidth := hlims.2
      have hstart : cfg.offsetToCarrier ≤ bwp.start := hlims.1
      omega
    rw [h.usedCrbs_eq_none hsymbols hne hpos hover] at hcrbs
    cases hcrbs
  · obtain ⟨bits, hbits, hsize, hbit⟩ := h.exists_usedCrbs hsymbols hne hbwp hfit
    obtain rfl := Option.some.inj (hbits.symm.trans hcrbs)
    have hin : bwp.contains bwp.start = true := contains_iff.mpr ⟨le_rfl, hbwp⟩
    obtain ⟨taken, htest, -, -, htaken⟩ := hviews bwp.start hin
    have hmem : ∀ sym crb, (sym, crb) ∈ filledBy [.fill symbols (.singleton bwp.start)] ↔
        symbols.contains sym = true ∧ crb = bwp.start := by
      intro sym crb
      have hsingle : (OrderedInterval.singleton bwp.start).contains crb = true ↔ crb = bwp.start := by
        rw [contains_iff]
        change bwp.start ≤ crb ∧ crb < bwp.start + 1 ↔ crb = bwp.start
        omega
      change (sym, crb) ∈ ∅ ∪ area symbols _ ↔ _
      rw [Set.empty_union, area, Set.mem_ofPred_eq, hsingle]
    have hbitStart := (hbit bwp.start (by omega)).1 hin
    rw [BoundedBitset.test_eq (by omega)] at htest
    have hsame : Taken (filledBy [.fill symbols (.singleton bwp.start)]) symbols bwp.start :=
      ⟨symbols.start, contains_iff.mpr ⟨le_rfl, hne⟩,
        (hmem _ _).2 ⟨contains_iff.mpr ⟨le_rfl, hne⟩, rfl⟩⟩
    rw [← Option.some.inj htest] at htaken
    obtain ⟨_, _, hshifted⟩ := hbitStart.mp (htaken.mpr hsame)
    have heq := ((hmem _ _).1 hshifted).2
    omega

theorem viewsAgree_iff_offset_zero (cfg : ScsSpecificCarrier) (bwp symbols : OrderedInterval)
    (hdims : cfg.rbDims.containsInterval bwp = true) (hbwp : bwp.start < bwp.stop)
    (hsymbols : symbols.stop ≤ nofOfdmSymPerSlot) (hne : symbols.start < symbols.stop) :
    (∀ calls g, run cfg calls = some g → ViewsAgree g (filledBy calls) bwp symbols) ↔
      cfg.offsetToCarrier = 0 := by
  constructor
  · intro hagree
    by_contra hoffset
    obtain ⟨calls, g, hrun, hnot⟩ := exists_disagreement hoffset hdims hbwp hsymbols hne
    exact hnot (hagree calls g hrun)
  · exact fun hoffset calls g hrun => (refines_run hrun).viewsAgree hoffset hdims hbwp hsymbols hne

theorem allSymbols_le : 0 ≤ nofOfdmSymPerSlot := Nat.zero_le _

def allSymbols : OrderedInterval := ⟨⟨0, nofOfdmSymPerSlot⟩, allSymbols_le⟩

theorem smallCarrier_le : 20 ≤ maxNofPrbs := by decide

def smallCarrier (offset : Nat) : ScsSpecificCarrier := ⟨offset, 20, smallCarrier_le⟩

theorem smallBwp_le : 10 ≤ 20 := by decide

def smallBwp : OrderedInterval := ⟨⟨10, 20⟩, smallBwp_le⟩

theorem viewsAgree_iff_offset_zero_small :
    (smallCarrier 10).rbDims.containsInterval smallBwp = true ∧
      ((∀ calls g, run (smallCarrier 10) calls = some g →
        ViewsAgree g (filledBy calls) smallBwp allSymbols) ↔ 10 = 0) :=
  ⟨by decide, viewsAgree_iff_offset_zero (smallCarrier 10) smallBwp allSymbols (by decide) (by decide)
    (by decide) (by decide)⟩

theorem taken_block {block crb : Nat} :
    Taken (filledBy [.fill allSymbols (.singleton block)]) allSymbols crb ↔ crb = block := by
  constructor
  · rintro ⟨sym, -, hempty | hcell⟩
    · exact absurd hempty (Set.notMem_empty _)
    · have hcrb := contains_iff.mp hcell.2
      exact Nat.le_antisymm (Nat.lt_succ_iff.mp hcrb.2) hcrb.1
  · rintro rfl
    have hsym : allSymbols.contains 0 = true := by decide
    exact ⟨0, hsym, .inr ⟨hsym, contains_iff.mpr ⟨Nat.le_refl _, Nat.lt_succ_self _⟩⟩⟩

/-- Block 12 of a carrier that starts at block 10 is filled in every symbol. -/
theorem shiftedCarrier_views_differ : ∃ g,
    run (smallCarrier 10) [.fill allSymbols (.singleton 12)] = some g ∧
    (g.usedCrbs smallBwp allSymbols).bind (·.test 12) = some false ∧
    (g.usedPrbs smallBwp allSymbols).bind (·.test 2) = some false ∧
    g.collides allSymbols (.singleton 12) none = some true ∧
    ¬ViewsAgree g (filledBy [.fill allSymbols (.singleton 12)]) smallBwp allSymbols := by
  obtain ⟨g₀, hnew, hempty⟩ := exists_new (smallCarrier 10)
  obtain ⟨g, hfill, -⟩ := @Refines.setInterval _ _ _ true allSymbols (.singleton 12) hempty
    (by decide) (by decide)
  have hrun : run (smallCarrier 10) [.fill allSymbols (.singleton 12)] = some g := by
    rw [run, hnew, Option.bind_some, List.foldlM_cons]
    change (g₀.setInterval true allSymbols (.singleton 12)).bind _ = _
    rw [hfill, Option.bind_some, List.foldlM_nil]
    rfl
  have hg := refines_run hrun
  have hcrb : (g.usedCrbs smallBwp allSymbols).bind (·.test 12) = some false := by
    obtain ⟨bits, hused, hsize, hbits⟩ := hg.exists_usedCrbs (show allSymbols.stop ≤ _ by decide)
      (by decide) (show smallBwp.start < _ by decide) (by decide)
    -- the view looks at block 22 in place of block 12
    have hbit : ¬ bits.bit 12 = true := fun h => absurd
      (taken_block.mp (((hbits 12 (by decide)).1 (by decide)).mp h)) (by decide)
    rw [hused, Option.bind_some, BoundedBitset.test_eq (by rw [hsize]; decide), Bool.eq_false_iff.mpr hbit]
  have hprb : (g.usedPrbs smallBwp allSymbols).bind (·.test 2) = some false := by
    obtain ⟨selected, bits, hsel, hfold, hsize, hbits⟩ := hg.exists_fold (show allSymbols.stop ≤ _ by decide)
      (by decide) 10 10 (by decide) (by decide)
    have hused : g.usedPrbs smallBwp allSymbols = some bits := by
      rw [usedPrbs, hsel]
      exact hfold
    have hbit : ¬ bits.bit 2 = true := fun h => absurd (taken_block.mp ((hbits 2 (by decide)).mp h)) (by decide)
    rw [hused, Option.bind_some, BoundedBitset.test_eq (by rw [hsize]; decide), Bool.eq_false_iff.mpr hbit]
  have hcollides : g.collides allSymbols (.singleton 12) none = some true := by
    obtain ⟨taken, hcollides, htaken⟩ := hg.exists_collides (show allSymbols.stop ≤ _ by decide) 12 (by decide)
    rw [hcollides, htaken.mpr (taken_block.mpr rfl)]
  refine ⟨g, hrun, hcrb, hprb, hcollides, ?_⟩
  rintro ⟨crbBits, _, hused, -, hviews, -⟩
  obtain ⟨taken, htest, -, htaken, -⟩ := hviews 12 (by decide)
  rw [hused, Option.bind_some, htest] at hcrb
  rw [htaken, hcrb] at hcollides
  cases hcollides

end CarrierGrid

end Ocudu.Sched
