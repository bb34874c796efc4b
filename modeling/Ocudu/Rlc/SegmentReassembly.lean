import Ocudu.Rlc.UmSegments

/-! The segments of one SDU in any order, with duplicates and overlaps: what the receiving entities
keep of them, and the SDU that they put together. -/

namespace Ocudu.Rlc

open RlcRxAmSduInfo

namespace RlcRxAmSduSegment

variable {sdu : List UInt8} {seg cur new : RlcRxAmSduSegment} {b x : Nat}

def Has (seg : RlcRxAmSduSegment) (b : Nat) : Prop := seg.so ≤ b ∧ b < seg.so + seg.payload.length

structure SliceOf (sdu : List UInt8) (seg : RlcRxAmSduSegment) : Prop where
  pos : 0 < seg.payload.length
  inside : seg.so + seg.payload.length ≤ sdu.length
  payload : seg.payload = (sdu.drop seg.so).take seg.payload.length
  si : seg.si = .lastSegment ↔ seg.so + seg.payload.length = sdu.length

theorem SliceOf.lastByte_succ (h : SliceOf sdu seg) : seg.lastByte + 1 = seg.so + seg.payload.length := by
  have hpos := h.pos
  unfold lastByte
  omega

theorem SliceOf.cutFront_fields (h : SliceOf sdu seg) (hsdu : sdu.length < 2 ^ 16) (hx : seg.so ≤ x)
    (hx' : x < seg.so + seg.payload.length) :
    (seg.cutFront x).so = x ∧ (seg.cutFront x).payload.length = seg.so + seg.payload.length - x := by
  have hin := h.inside
  refine ⟨Nat.mod_eq_of_lt (by omega), ?_⟩
  change (seg.payload.drop (x - seg.so)).length = _
  rw [List.length_drop]
  omega

theorem SliceOf.cutFront (h : SliceOf sdu seg) (hsdu : sdu.length < 2 ^ 16) (hx : seg.so ≤ x)
    (hx' : x < seg.so + seg.payload.length) : SliceOf sdu (seg.cutFront x) := by
  obtain ⟨hso, hlen⟩ := h.cutFront_fields hsdu hx hx'
  have hin := h.inside
  refine ⟨by omega, by omega, ?_, ?_⟩
  · rw [hso, hlen]
    change seg.payload.drop (x - seg.so) = _
    rw [h.payload, List.drop_take, List.drop_drop, Nat.add_sub_cancel' hx, ← h.payload]
    congr 1
    omega
  · rw [hso, hlen, show (seg.cutFront x).si = seg.si from rfl, h.si]
    omega

theorem SliceOf.has_cutFront (h : SliceOf sdu seg) (hsdu : sdu.length < 2 ^ 16) (hx : seg.so ≤ x)
    (hx' : x < seg.so + seg.payload.length) : (seg.cutFront x).Has b ↔ x ≤ b ∧ seg.Has b := by
  obtain ⟨hso, hlen⟩ := h.cutFront_fields hsdu hx hx'
  unfold Has
  rw [hso, hlen]
  omega

end RlcRxAmSduSegment

open RlcRxAmSduSegment

variable {sdu : List UInt8} {segs rest : List RlcRxAmSduSegment} {cur new : RlcRxAmSduSegment} {b n : Nat}

def Held (segs : List RlcRxAmSduSegment) (b : Nat) : Prop := ∃ seg ∈ segs, seg.Has b

@[simp] theorem held_nil : ¬ Held [] b := nofun

@[simp] theorem held_cons : Held (cur :: rest) b ↔ cur.Has b ∨ Held rest b := by
  simp [Held]

structure Disjoint (sdu : List UInt8) (segs : List RlcRxAmSduSegment) : Prop where
  slices : ∀ seg ∈ segs, SliceOf sdu seg
  ordered : segs.Pairwise Before

theorem disjoint_nil : Disjoint sdu [] := ⟨nofun, .nil⟩

theorem disjoint_cons : Disjoint sdu (cur :: rest) ↔
    SliceOf sdu cur ∧ (∀ b, Held rest b → cur.so + cur.payload.length ≤ b) ∧ Disjoint sdu rest := by
  constructor
  · rintro ⟨hslices, hordered⟩
    obtain ⟨hcur, hrest⟩ := List.pairwise_cons.mp hordered
    refine ⟨hslices cur List.mem_cons_self, ?_, fun seg hs => hslices seg (List.mem_cons_of_mem _ hs), hrest⟩
    rintro b ⟨seg, hs, hb, -⟩
    exact Nat.le_trans (hcur seg hs) hb
  · rintro ⟨hcur, hbehind, hslices, hordered⟩
    refine ⟨List.forall_mem_cons.mpr ⟨hcur, hslices⟩, List.pairwise_cons.mpr ⟨fun seg hs => ?_, hordered⟩⟩
    have hpos := (hslices seg hs).pos
    exact hbehind seg.so ⟨seg, hs, Nat.le_refl _, by omega⟩

theorem Disjoint.not_held_before (h : Disjoint sdu (cur :: rest)) (hb : b < cur.so) : ¬ Held (cur :: rest) b := by
  obtain ⟨-, hbehind, -⟩ := disjoint_cons.mp h
  rw [held_cons]
  refine not_or.mpr ⟨fun hc => ?_, fun hr => ?_⟩
  · exact absurd hc.1 (Nat.not_le.mpr hb)
  · have hb' := hbehind b hr
    omega

/-! `store_segment` as one recursion over the segments. -/

def merged : List RlcRxAmSduSegment → RlcRxAmSduSegment → Option (List RlcRxAmSduSegment)
  | [], new => some [new]
  | cur :: rest, new =>
    if new.so > cur.lastByte then (merged rest new).map (cur :: ·)
    else if new.so ≥ cur.so then
      if new.lastByte ≤ cur.lastByte then none
      else (merged rest (new.cutFront (cur.lastByte + 1))).map (cur :: ·)
    else if new.lastByte < cur.so then some (new :: cur :: rest)
    else if new.lastByte < cur.lastByte then some (new :: cur.cutFront (new.lastByte + 1) :: rest)
    else merged rest new

theorem merged_none (hsdu : sdu.length < 2 ^ 16) (hs : Disjoint sdu segs) (hnew : SliceOf sdu new)
    (h : merged segs new = none) (hb : new.Has b) : Held segs b := by
  induction segs generalizing new with
  | nil => cases h
  | cons cur rest ih =>
    obtain ⟨hcur, -, hrest⟩ := disjoint_cons.mp hs
    have hlast := hcur.lastByte_succ
    have hlast' := hnew.lastByte_succ
    rw [held_cons]
    unfold merged at h
    split_ifs at h with hbehind hinside hcovered
    · exact .inr (ih hrest hnew (Option.map_eq_none_iff.mp h) hb)
    · unfold Has at hb ⊢
      omega
    · have hlo : new.so ≤ cur.lastByte + 1 := by omega
      have hhi : cur.lastByte + 1 < new.so + new.payload.length := by omega
      by_cases hin : cur.lastByte + 1 ≤ b
      · have hcut := hnew.cutFront hsdu hlo hhi
        exact .inr (ih hrest hcut (Option.map_eq_none_iff.mp h) ((hnew.has_cutFront hsdu hlo hhi).mpr ⟨hin, hb⟩))
      · unfold Has at hb ⊢
        omega
    · exact .inr (ih hrest hnew h hb)

structure Grown (sdu : List UInt8) (segs segs' : List RlcRxAmSduSegment) (new : RlcRxAmSduSegment) : Prop where
  disjoint : Disjoint sdu segs'
  held : ∀ b, Held segs' b ↔ Held segs b ∨ new.Has b
  fresh : ∃ b, new.Has b ∧ ¬ Held segs b

theorem merged_some {segs' : List RlcRxAmSduSegment} (hsdu : sdu.length < 2 ^ 16) (hs : Disjoint sdu segs)
    (hnew : SliceOf sdu new) (h : merged segs new = some segs') : Grown sdu segs segs' new := by
  have hpos := hnew.pos
  have hfirst : new.Has new.so := ⟨Nat.le_refl _, by omega⟩
  induction segs generalizing new segs' with
  | nil =>
    cases h
    refine ⟨disjoint_cons.mpr ⟨hnew, fun b hb => absurd hb held_nil, disjoint_nil⟩, fun b => ?_, new.so, hfirst, held_nil⟩
    rw [held_cons, or_comm]
  | cons cur rest ih =>
    obtain ⟨hcur, hbehind, hrest⟩ := disjoint_cons.mp hs
    have hlast := hcur.lastByte_succ
    have hlast' := hnew.lastByte_succ
    have hcurpos := hcur.pos
    unfold merged at h
    split_ifs at h with hafter hstart hcovered hbefore hcut
    · obtain ⟨segs'', hm, rfl⟩ := Option.map_eq_some_iff.mp h
      obtain ⟨hdis, hheld, x, hx, hfree⟩ := ih hrest hnew hm hpos hfirst
      refine ⟨disjoint_cons.mpr ⟨hcur, fun b hb => ?_, hdis⟩, fun b => ?_, x, hx, ?_⟩
      · rcases (hheld b).mp hb with hold | hnewb
        · exact hbehind b hold
        · unfold Has at hnewb
          omega
      · rw [held_cons, held_cons, hheld, or_assoc]
      · rw [held_cons]
        unfold Has at hx ⊢
        exact not_or.mpr ⟨by omega, hfree⟩
    · have hlo : new.so ≤ cur.lastByte + 1 := by omega
      have hhi : cur.lastByte + 1 < new.so + new.payload.length := by omega
      obtain ⟨segs'', hm, rfl⟩ := Option.map_eq_some_iff.mp h
      have htail := hnew.cutFront hsdu hlo hhi
      obtain ⟨hso, -⟩ := hnew.cutFront_fields hsdu hlo hhi
      have htailpos := htail.pos
      obtain ⟨hdis, hheld, x, hx, hfree⟩ := ih hrest htail hm htailpos ⟨Nat.le_refl _, by omega⟩
      rw [hnew.has_cutFront hsdu hlo hhi] at hx
      refine ⟨disjoint_cons.mpr ⟨hcur, fun b hb => ?_, hdis⟩, fun b => ?_, x, hx.2, ?_⟩
      · rcases (hheld b).mp hb with hold | hnewb
        · exact hbehind b hold
        · have hb' := ((hnew.has_cutFront hsdu hlo hhi).mp hnewb).1
          omega
      · rw [held_cons, held_cons, hheld, hnew.has_cutFront hsdu hlo hhi, or_assoc]
        -- what is cut off is in the current segment
        have hcutoff : new.Has b → ¬ cur.lastByte + 1 ≤ b → cur.Has b := by
          unfold Has
          omega
        tauto
      · rw [held_cons]
        refine not_or.mpr ⟨?_, hfree⟩
        unfold Has
        omega
    · cases h
      refine ⟨disjoint_cons.mpr ⟨hnew, fun b hb => ?_, hs⟩, fun b => by rw [held_cons, or_comm], new.so, hfirst,
        hs.not_held_before (by omega)⟩
      · rcases held_cons.mp hb with hc | hr
        · unfold Has at hc
          omega
        · have hb' := hbehind b hr
          omega
    · cases h
      have hlo : cur.so ≤ new.lastByte + 1 := by omega
      have hhi : new.lastByte + 1 < cur.so + cur.payload.length := by omega
      obtain ⟨hso, hlen⟩ := hcur.cutFront_fields hsdu hlo hhi
      have hhas := fun b => hcur.has_cutFront (b := b) hsdu hlo hhi
      refine ⟨disjoint_cons.mpr ⟨hnew, fun b hb => ?_, disjoint_cons.mpr ⟨hcur.cutFront hsdu hlo hhi, ?_, hrest⟩⟩,
        fun b => ?_, new.so, hfirst, hs.not_held_before (by omega)⟩
      · rcases held_cons.mp hb with hc | hr
        · have hb' := ((hhas b).mp hc).1
          omega
        · have hb' := hbehind b hr
          omega
      · intro b hb
        have hb' := hbehind b hb
        omega
      · rw [held_cons, held_cons, held_cons, hhas]
        -- what is cut off is in the new segment
        have hcutoff : cur.Has b → ¬ new.lastByte + 1 ≤ b → new.Has b := by
          unfold Has
          omega
        tauto
    · obtain ⟨hdis, hheld, -⟩ := ih hrest hnew h hpos hfirst
      refine ⟨hdis, fun b => ?_, new.so, hfirst, hs.not_held_before (by omega)⟩
      · rw [hheld, held_cons]
        have hswallowed : cur.Has b → new.Has b := by
          unfold Has
          omega
        tauto

theorem setInsert_of_gt (h : cur.so < new.so) : setInsert new (cur :: rest) = cur :: setInsert new rest := by
  rw [setInsert, if_neg (Nat.lt_asymm h), if_pos h]

theorem setInsert_of_lt (h : ∀ seg ∈ segs, new.so < seg.so) : setInsert new segs = new :: segs := by
  cases segs with
  | nil => rfl
  | cons cur rest => rw [setInsert, if_pos (h cur List.mem_cons_self)]

theorem storeLoop_so {left : List RlcRxAmSduSegment} {cut : Option RlcRxAmSduSegment} {new' : RlcRxAmSduSegment}
    (hsdu : sdu.length < 2 ^ 16) (hs : Disjoint sdu segs) (hnew : SliceOf sdu new)
    (h : storeLoop segs new = some (left, cut, new')) : new.so ≤ new'.so ∧ ∀ c ∈ cut, new.so < c.so := by
  induction segs generalizing new left with
  | nil =>
    cases h
    exact ⟨Nat.le_refl _, nofun⟩
  | cons cur rest ih =>
    obtain ⟨hcur, -, hrest⟩ := disjoint_cons.mp hs
    have hlast := hcur.lastByte_succ
    have hlast' := hnew.lastByte_succ
    unfold storeLoop at h
    dsimp only at h
    split_ifs at h with hafter hstart hcovered hbefore hcut
    · obtain ⟨⟨left', cut', mid⟩, hloop, heq⟩ := Option.map_eq_some_iff.mp h
      cases heq
      exact ih hrest hnew hloop
    · have hlo : new.so ≤ cur.lastByte + 1 := by omega
      have hhi : cur.lastByte + 1 < new.so + new.payload.length := by omega
      obtain ⟨⟨left', cut', mid⟩, hloop, heq⟩ := Option.map_eq_some_iff.mp h
      cases heq
      obtain ⟨hso, -⟩ := hnew.cutFront_fields hsdu hlo hhi
      obtain ⟨hmid, hrest'⟩ := ih hrest (hnew.cutFront hsdu hlo hhi) hloop
      rw [hso] at hmid hrest'
      exact ⟨by omega, fun c hc => Nat.lt_of_le_of_lt hlo (hrest' c hc)⟩
    · cases h
      exact ⟨Nat.le_refl _, nofun⟩
    · obtain ⟨hso, -⟩ := hcur.cutFront_fields hsdu (x := new.lastByte + 1) (by omega) (by omega)
      have hpos := hnew.pos
      cases h
      refine ⟨Nat.le_refl _, fun c hc => ?_⟩
      cases hc
      omega
    · exact ih hrest hnew h

theorem map_keep (hlt : cur.so < new.so) (hsdu : sdu.length < 2 ^ 16) (hs : Disjoint sdu rest)
    (hnew : SliceOf sdu new) :
    ((storeLoop rest new).map fun (left, cut, new) => (cur :: left, cut, new)).map
        (fun (left, cut, new) => setInsert new (cut.elim left (setInsert · left))) =
      (storedSegments rest new).map (cur :: ·) := by
  unfold storedSegments
  rcases hloop : storeLoop rest new with _ | ⟨left, cut, new'⟩
  · rfl
  · obtain ⟨hnew', hcut⟩ := storeLoop_so hsdu hs hnew hloop
    simp only [Option.map_some]
    cases cut with
    | none => rw [Option.elim_none, Option.elim_none, setInsert_of_gt (by omega)]
    | some c =>
      have hc := hcut c rfl
      rw [Option.elim_some, Option.elim_some, setInsert_of_gt (by omega), setInsert_of_gt (by omega)]

theorem storedSegments_eq_merged (hsdu : sdu.length < 2 ^ 16) (hs : Disjoint sdu segs) (hnew : SliceOf sdu new) :
    storedSegments segs new = merged segs new := by
  induction segs generalizing new with
  | nil => rfl
  | cons cur rest ih =>
    obtain ⟨hcur, hbehind, hrest⟩ := disjoint_cons.mp hs
    have hlast := hcur.lastByte_succ
    have hlast' := hnew.lastByte_succ
    have hcurpos := hcur.pos
    have hafter : ∀ seg ∈ rest, cur.so + cur.payload.length ≤ seg.so := by
      intro seg hseg
      have hpos := (hrest.slices seg hseg).pos
      exact hbehind seg.so ⟨seg, hseg, Nat.le_refl _, by omega⟩
    unfold storedSegments storeLoop merged
    dsimp only
    split_ifs with h1 h2 h3 h4 h5
    · rw [map_keep (by omega) hsdu hrest hnew, ih hrest hnew]
    · rfl
    · have hlo : new.so ≤ cur.lastByte + 1 := by omega
      have hhi : cur.lastByte + 1 < new.so + new.payload.length := by omega
      obtain ⟨hso, -⟩ := hnew.cutFront_fields hsdu hlo hhi
      have htail := hnew.cutFront hsdu hlo hhi
      rw [map_keep (by omega) hsdu hrest htail, ih hrest htail]
    · simp only [Option.map_some, Option.elim_none]
      rw [setInsert_of_lt]
      rw [List.forall_mem_cons]
      refine ⟨by omega, fun seg hseg => ?_⟩
      have hle := hafter seg hseg
      omega
    · obtain ⟨hso, -⟩ := hcur.cutFront_fields hsdu (x := new.lastByte + 1) (by omega) (by omega)
      have hpos := hnew.pos
      have hcut : setInsert (cur.cutFront (new.lastByte + 1)) rest = cur.cutFront (new.lastByte + 1) :: rest := by
        apply setInsert_of_lt
        intro seg hseg
        have hle := hafter seg hseg
        omega
      simp only [Option.map_some, Option.elim_some]
      rw [hcut, setInsert_of_lt]
      rw [List.forall_mem_cons]
      refine ⟨by omega, fun seg hseg => ?_⟩
      have hle := hafter seg hseg
      omega
    · exact ih hrest hnew

theorem Disjoint.lt_of_held (h : Disjoint sdu segs) (hb : Held segs b) : b < sdu.length := by
  obtain ⟨seg, hs, hhas⟩ := hb
  exact Nat.lt_of_lt_of_le hhas.2 (h.slices seg hs).inside

/-- The flags tell whether everything from `n` on is held, and whether something is missing before
what is held. -/
theorem inventory_spec (h : Disjoint sdu segs) (hfrom : ∀ b, Held segs b → n ≤ b) (hn : n < sdu.length) :
    ((inventory segs n).1 = true ↔ ∀ b, n ≤ b → b < sdu.length → Held segs b) ∧
      ((inventory segs n).2 = true ↔ ∃ b, n ≤ b ∧ ¬ Held segs b ∧ ∃ b', b < b' ∧ Held segs b') := by
  induction segs generalizing n with
  | nil =>
    simp only [inventory, Bool.false_eq_true, held_nil, false_iff, and_false, exists_false, not_false_eq_true,
      iff_self, and_true]
    exact fun hall => hall n (Nat.le_refl n) hn
  | cons segm rest ih =>
    obtain ⟨hsegm, hbehind, hrest⟩ := disjoint_cons.mp h
    have hpos := hsegm.pos
    have hfirst : segm.Has segm.so := ⟨Nat.le_refl _, by omega⟩
    have hge := hfrom segm.so (held_cons.mpr (.inl hfirst))
    unfold inventory
    split_ifs with hso hsi
    · have hmissing : ¬ Held (segm :: rest) n := h.not_held_before (by omega)
      refine ⟨iff_of_false id fun hall => hmissing (hall n (Nat.le_refl n) hn), iff_of_true rfl ?_⟩
      exact ⟨n, Nat.le_refl n, hmissing, segm.so, by omega, held_cons.mpr (.inl hfirst)⟩
    · have hend := hsegm.si.mp hsi
      have hall : ∀ b, n ≤ b → b < sdu.length → Held (segm :: rest) b := by
        intro b hb hb'
        rw [held_cons]
        refine .inl ⟨?_, ?_⟩ <;> omega
      refine ⟨iff_of_true rfl hall, iff_of_false id ?_⟩
      rintro ⟨b, hb, hmissing, b', hlt, hheld⟩
      exact hmissing (hall b hb (hlt.trans (h.lt_of_held hheld)))
    · have hin := hsegm.inside
      have hend := mt hsegm.si.mpr hsi
      have hso' : segm.so = n := not_ne_iff.mp hso
      rw [← hso']
      obtain ⟨hfull, hgap⟩ := ih hrest hbehind (by omega)
      -- the bytes of the segment itself are held
      have hskip : ∀ b, segm.so ≤ b → (Held (segm :: rest) b ↔
          segm.so + segm.payload.length ≤ b → Held rest b) := by
        intro b hb
        rw [held_cons]
        constructor
        · rintro (hhas | hheld) hle
          · exact absurd hhas.2 (Nat.not_lt.mpr hle)
          · exact hheld
        · intro himp
          by_cases hle : segm.so + segm.payload.length ≤ b
          · exact .inr (himp hle)
          · exact .inl ⟨hb, by omega⟩
      constructor
      · rw [hfull]
        constructor
        · intro hall b hb hb'
          rw [hskip b hb]
          exact fun hle => hall b hle hb'
        · intro hall b hb hb'
          exact (hskip b (by omega)).mp (hall b (by omega) hb') hb
      · rw [hgap]
        constructor
        · rintro ⟨b, hb, hmissing, b', hlt, hheld⟩
          refine ⟨b, by omega, fun hheldb => hmissing ((hskip b (by omega)).mp hheldb hb), b', hlt, ?_⟩
          exact held_cons.mpr (.inr hheld)
        · rintro ⟨b, hb, hmissing, b', hlt, hheld⟩
          rw [hskip b hb, Classical.not_imp] at hmissing
          exact ⟨b, hmissing.1, hmissing.2, b', hlt, (hskip b' (by omega)).mp hheld (by omega)⟩

theorem Disjoint.flatten_eq (h : Disjoint sdu segs) (hfrom : ∀ b, Held segs b → n ≤ b)
    (hall : ∀ b, n ≤ b → b < sdu.length → Held segs b) : (segs.map (·.payload)).flatten = sdu.drop n := by
  induction segs generalizing n with
  | nil =>
    have hn : sdu.length ≤ n := Nat.not_lt.mp fun hlt => held_nil (hall n (Nat.le_refl n) hlt)
    rw [List.drop_eq_nil_of_le hn]
    rfl
  | cons segm rest ih =>
    obtain ⟨hsegm, hbehind, hrest⟩ := disjoint_cons.mp h
    have hpos := hsegm.pos
    have hin := hsegm.inside
    have hge := hfrom segm.so (held_cons.mpr (.inl ⟨Nat.le_refl _, by omega⟩))
    have hso : n = segm.so := by
      by_contra hne
      exact h.not_held_before (b := n) (by omega) (hall n (Nat.le_refl n) (by omega))
    have htail := ih hrest hbehind fun b hb hb' => by
      have hheld := held_cons.mp (hall b (by omega) hb')
      exact hheld.resolve_left fun hhas => absurd hhas.2 (Nat.not_lt.mpr hb)
    rw [List.map_cons, List.flatten_cons, htail, hso, ← List.drop_drop]
    nth_rewrite 1 [hsegm.payload]
    exact List.take_append_drop _ _

def RlcRxAmSduInfo.receiveSegment (info : RlcRxAmSduInfo) (new : RlcRxAmSduSegment) : Bool × RlcRxAmSduInfo :=
  let (stored, info) := info.storeSegment new
  (stored, info.updateSegmentInventory)

def RlcRxUmSduInfo.receiveSegment (info : RlcRxUmSduInfo) (new : RlcRxAmSduSegment) : Bool × RlcRxUmSduInfo :=
  ((storedSegments info.segments new).isSome, (info.storeSegment new).updateSegmentInventory)

/-- What the arrival of `new` does to the segments held of those that arrived before, and what the
flags say then. -/
structure Inserted (sdu : List UInt8) (arrived : List RlcRxAmSduSegment) (new : RlcRxAmSduSegment)
    (stored : Bool) (segs : List RlcRxAmSduSegment) (fullyReceived hasGap : Bool) : Prop where
  disjoint : Disjoint sdu segs
  union : ∀ b, Held segs b ↔ Held (new :: arrived) b
  grown : stored = true ↔ ∃ b, new.Has b ∧ ¬ Held arrived b
  full : fullyReceived = true ↔ ∀ b < sdu.length, Held (new :: arrived) b
  gap : hasGap = true ↔ ∃ b, ¬ Held (new :: arrived) b ∧ ∃ b', b < b' ∧ Held (new :: arrived) b'

/-- The segments held after another one has arrived. -/
def keepSegment (segs : List RlcRxAmSduSegment) (new : RlcRxAmSduSegment) : List RlcRxAmSduSegment :=
  (storedSegments segs new).getD segs

theorem inserted (arrived : List RlcRxAmSduSegment) (hsdu : sdu.length < 2 ^ 16) (hne : sdu ≠ [])
    (hs : Disjoint sdu segs) (hunion : ∀ b, Held segs b ↔ Held arrived b) (hnew : SliceOf sdu new) :
    Inserted sdu arrived new (storedSegments segs new).isSome (keepSegment segs new)
      (inventory (keepSegment segs new) 0).1 (inventory (keepSegment segs new) 0).2 := by
  rw [keepSegment, storedSegments_eq_merged hsdu hs hnew]
  have hgrown : Disjoint sdu ((merged segs new).getD segs) ∧
      (∀ b, Held ((merged segs new).getD segs) b ↔ Held (new :: arrived) b) ∧
      ((merged segs new).isSome = true ↔ ∃ b, new.Has b ∧ ¬ Held arrived b) := by
    cases hm : merged segs new with
    | none =>
      have hcovered := fun b (hb : new.Has b) => (hunion b).mp (merged_none hsdu hs hnew hm hb)
      refine ⟨hs, fun b => ?_, iff_of_false nofun ?_⟩
      · rw [Option.getD_none, held_cons, hunion]
        exact ⟨.inr, fun h => h.elim (hcovered b) id⟩
      · rintro ⟨b, hb, hmissing⟩
        exact hmissing (hcovered b hb)
    | some segs' =>
      obtain ⟨hdis, hheld, x, hx, hfree⟩ := merged_some hsdu hs hnew hm
      refine ⟨hdis, fun b => ?_, iff_of_true rfl ⟨x, hx, by rwa [← hunion]⟩⟩
      rw [Option.getD_some, hheld, held_cons, hunion, or_comm]
  obtain ⟨hdis, hheld, hstored⟩ := hgrown
  obtain ⟨hfull, hgap⟩ := inventory_spec hdis (fun _ _ => Nat.zero_le _) (List.length_pos_of_ne_nil hne)
  refine ⟨hdis, hheld, hstored, ?_, ?_⟩
  · rw [hfull]
    simp only [Nat.zero_le, true_imp_iff, hheld]
  · rw [hgap]
    simp only [Nat.zero_le, true_and, hheld]

theorem foldl_keepSegment {arrived : List RlcRxAmSduSegment} (hsdu : sdu.length < 2 ^ 16) (hne : sdu ≠ [])
    (hs : Disjoint sdu segs) (harrived : ∀ seg ∈ arrived, SliceOf sdu seg) :
    Disjoint sdu (arrived.foldl keepSegment segs) ∧
      ∀ b, Held (arrived.foldl keepSegment segs) b ↔ Held segs b ∨ Held arrived b := by
  induction arrived generalizing segs with
  | nil => exact ⟨hs, fun b => by simp⟩
  | cons new arrived ih =>
    have hone := inserted segs hsdu hne hs (fun b => Iff.rfl) (harrived new List.mem_cons_self)
    obtain ⟨hdis, hheld⟩ := ih hone.disjoint fun seg hseg => harrived seg (List.mem_cons_of_mem _ hseg)
    refine ⟨hdis, fun b => ?_⟩
    have hunion := hone.union b
    rw [List.foldl_cons, hheld, held_cons]
    rw [held_cons] at hunion
    rw [hunion]
    tauto

@[simp] theorem RlcRxAmSduInfo.receiveSegment_segmentSet (info : RlcRxAmSduInfo) (new : RlcRxAmSduSegment) :
    (info.receiveSegment new).2.segmentSet = keepSegment info.segmentSet new := by
  simp only [receiveSegment, storeSegment, keepSegment]
  cases storedSegments info.segmentSet new <;> rfl

theorem RlcRxAmSduInfo.receiveSegment_eq (info : RlcRxAmSduInfo) (new : RlcRxAmSduSegment) :
    info.receiveSegment new = ((storedSegments info.segmentSet new).isSome,
      { sduData := .segments (keepSegment info.segmentSet new)
        fullyReceived := (inventory (keepSegment info.segmentSet new) 0).1
        hasGap := (inventory (keepSegment info.segmentSet new) 0).2 }) := by
  simp only [receiveSegment, storeSegment, keepSegment]
  cases storedSegments info.segmentSet new <;> rfl

theorem RlcRxUmSduInfo.receiveSegment_eq (info : RlcRxUmSduInfo) (new : RlcRxAmSduSegment) :
    info.receiveSegment new = ((storedSegments info.segments new).isSome,
      { segments := keepSegment info.segments new
        fullyReceived := (inventory (keepSegment info.segments new) 0).1
        hasGap := (inventory (keepSegment info.segments new) 0).2 }) := rfl

theorem RlcRxAmSduInfo.foldl_receiveSegment (arrived : List RlcRxAmSduSegment) (info : RlcRxAmSduInfo) :
    (arrived.foldl (fun info seg => (info.receiveSegment seg).2) info).segmentSet =
      arrived.foldl keepSegment info.segmentSet := by
  induction arrived generalizing info with
  | nil => rfl
  | cons new arrived ih => rw [List.foldl_cons, ih, receiveSegment_segmentSet, List.foldl_cons]

theorem RlcRxUmSduInfo.foldl_receiveSegment (arrived : List RlcRxAmSduSegment) (info : RlcRxUmSduInfo) :
    (arrived.foldl (fun info seg => (info.receiveSegment seg).2) info).segments =
      arrived.foldl keepSegment info.segments := by
  induction arrived generalizing info with
  | nil => rfl
  | cons new arrived ih => rw [List.foldl_cons, ih, List.foldl_cons]; rfl

theorem Disjoint.chain_eq (h : Disjoint sdu segs) (hall : ∀ b < sdu.length, Held segs b) (maxSlices : Nat) :
    ((segs.map (·.payload)).foldlM (chainAppend maxSlices) []).map List.flatten =
      if segs.length ≤ maxSlices then some sdu else none := by
  have hne : ∀ slice ∈ segs.map (·.payload), slice ≠ [] := by
    intro slice hslice
    obtain ⟨seg, hseg, rfl⟩ := List.mem_map.mp hslice
    exact List.ne_nil_of_length_pos (h.slices seg hseg).pos
  have hflat := h.flatten_eq (n := 0) (fun _ _ => Nat.zero_le _) fun b _ hb => hall b hb
  rw [foldlM_chainAppend _ _ _ hne (Nat.zero_le _)]
  simp only [List.length_nil, Nat.zero_add, List.length_map, List.nil_append]
  split_ifs
  · rw [Option.map_some, hflat, List.drop_zero]
  · rfl

/-- After every insertion both receivers hold the slices of an SDU apart and in order, know what is
missing, and put the SDU together if it has no more segments than a chain has slices. -/
theorem segments_reassembled (sdu : List UInt8) (hne : sdu ≠ []) (hsdu : sdu.length ≤ 65535)
    (arrived : List RlcRxAmSduSegment) (harrived : ∀ seg ∈ arrived, SliceOf sdu seg) (new : RlcRxAmSduSegment)
    (hnew : SliceOf sdu new) (maxSlices : Nat) :
    let am := (arrived.foldl (fun info seg => (info.receiveSegment seg).2) ({} : RlcRxAmSduInfo)).receiveSegment new
    let um := (arrived.foldl (fun info seg => (info.receiveSegment seg).2) ({} : RlcRxUmSduInfo)).receiveSegment new
    (Inserted sdu arrived new am.1 am.2.segmentSet am.2.fullyReceived am.2.hasGap ∧
      (am.2.fullyReceived = true → am.2.reassembleSdu maxSlices =
        if am.2.segmentSet.length ≤ maxSlices then some sdu else none)) ∧
    (Inserted sdu arrived new um.1 um.2.segments um.2.fullyReceived um.2.hasGap ∧
      (um.2.fullyReceived = true → um.2.reassembleSdu maxSlices =
        if um.2.segments.length ≤ maxSlices then some sdu else none)) := by
  have hlt : sdu.length < 2 ^ 16 := by omega
  obtain ⟨hdis, hheld⟩ := foldl_keepSegment hlt hne disjoint_nil harrived
  have hall := inserted arrived hlt hne hdis (fun b => by rw [hheld]; simp) hnew
  have hchain := fun hfull => hall.disjoint.chain_eq (fun b hb => (hall.union b).mpr (hall.full.mp hfull b hb)) maxSlices
  rw [RlcRxAmSduInfo.receiveSegment_eq, RlcRxUmSduInfo.receiveSegment_eq, RlcRxAmSduInfo.foldl_receiveSegment,
    RlcRxUmSduInfo.foldl_receiveSegment]
  exact ⟨⟨hall, hchain⟩, hall, hchain⟩

theorem segments_reassembled_halves :
    let first : RlcRxAmSduSegment := { si := .firstSegment, so := 0, payload := [1] }
    let last : RlcRxAmSduSegment := { si := .lastSegment, so := 1, payload := [2] }
    let am := (({} : RlcRxAmSduInfo).receiveSegment last).2.receiveSegment first
    Inserted [1, 2] [last] first am.1 am.2.segmentSet am.2.fullyReceived am.2.hasGap ∧
      am.2.reassembleSdu 51 = some [1, 2] := by
  obtain ⟨⟨hins, hsdu⟩, -⟩ := segments_reassembled [1, 2] (by decide) (by decide)
    [{ si := .lastSegment, so := 1, payload := [2] }]
    (by rw [List.forall_mem_singleton]; exact ⟨by decide, by decide, by decide, by decide⟩)
    { si := .firstSegment, so := 0, payload := [1] } ⟨by decide, by decide, by decide, by decide⟩ 51
  exact ⟨hins, hsdu (by decide)⟩

/-- An SDU of 52 bytes, each a segment of its own, is fully received and not put together from 51
slices. -/
theorem too_many_slices :
    ¬ ∀ (sdu : List UInt8) (arrived : List RlcRxAmSduSegment), sdu ≠ [] → sdu.length ≤ 65535 →
      (∀ seg ∈ arrived, SliceOf sdu seg) →
      let am := arrived.foldl (fun info seg => (info.receiveSegment seg).2) ({} : RlcRxAmSduInfo)
      am.fullyReceived = true → am.reassembleSdu 51 = some sdu := by
  intro h
  have hrun := h (List.replicate 52 7)
    ((List.range 52).map fun i => { si := if i = 51 then .lastSegment else .middleSegment, so := i, payload := [7] })
    (by decide) (by decide) (by
      intro seg hseg
      obtain ⟨i, hi, rfl⟩ := List.mem_map.mp hseg
      have hi' : i < 52 := List.mem_range.mp hi
      refine ⟨Nat.zero_lt_one, hi', ?_, ?_⟩
      · simp only [List.drop_replicate, List.length_singleton, List.take_replicate]
        rw [Nat.min_eq_left (by omega), List.replicate_one]
      · simp only [List.length_singleton, List.length_replicate]
        split_ifs <;> simp <;> omega) (by decide +kernel)
  revert hrun
  decide +kernel

end Ocudu.Rlc
