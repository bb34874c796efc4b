import Ocudu.Rlc.RxRun
import Ocudu.Rlc.StatusCodec
import Mathlib.Data.List.DropRight

/-! The status report of the receiving entity, and what is left of it after a cut to the grant. -/

namespace Ocudu.Rlc

open SeqNum

namespace RlcAmStatusPdu

variable {sz : RlcAmSnSize} {s : RlcAmStatusPdu} {m r d maxPackedSize : Nat}
  {nack first prev : RlcAmStatusNack} {nacks fits rest : List RlcAmStatusNack}

@[simp] theorem nacksSize_reverse (nacks : List RlcAmStatusNack) :
    nacksSize sz nacks.reverse = nacksSize sz nacks := by
  rw [nacksSize, List.map_reverse, List.sum_reverse, nacksSize]

/-- Of the NACKs from the front, `fits` fit into the size, and `first` does not any more. -/
structure CutAt (s : RlcAmStatusPdu) (maxPackedSize : Nat) (fits : List RlcAmStatusNack)
    (first : RlcAmStatusNack) (rest : List RlcAmStatusNack) : Prop where
  split : s.nacks = fits ++ first :: rest
  fits_le : sizeofHeaderAckSn + nacksSize s.snSize fits ≤ maxPackedSize
  lt : maxPackedSize < sizeofHeaderAckSn + nacksSize s.snSize fits + nackSize s.snSize first

theorem exists_fits {size : Nat} (hsize : maxPackedSize < size + nacksSize sz nacks) (hle : size ≤ maxPackedSize) :
    ∃ fits first rest, nacks = fits ++ first :: rest ∧ size + nacksSize sz fits ≤ maxPackedSize ∧
      maxPackedSize < size + nacksSize sz fits + nackSize sz first := by
  induction nacks generalizing size with
  | nil =>
    rw [nacksSize_nil] at hsize
    omega
  | cons nack nacks ih =>
    rw [nacksSize_cons, ← Nat.add_assoc] at hsize
    by_cases hfit : size + nackSize sz nack ≤ maxPackedSize
    · obtain ⟨fits, first, rest, rfl, hfits, hlt⟩ := ih hsize hfit
      refine ⟨nack :: fits, first, rest, rfl, ?_, ?_⟩
      · rwa [nacksSize_cons, ← Nat.add_assoc]
      · rwa [nacksSize_cons, ← Nat.add_assoc]
    · exact ⟨[], nack, nacks, rfl, hle, Nat.not_le.mp hfit⟩

theorem Sized.exists_cutAt (h : s.Sized) (hlt : maxPackedSize < s.packedSize)
    (hmax : sizeofHeaderAckSn ≤ maxPackedSize) : ∃ fits first rest, s.CutAt maxPackedSize fits first rest := by
  rw [h] at hlt
  obtain ⟨fits, first, rest, hsplit, hfits, hcut⟩ := exists_fits hlt hmax
  exact ⟨fits, first, rest, hsplit, hfits, hcut⟩

theorem CutAt.fits_prefix {fits' rest' : List RlcAmStatusNack} {first' : RlcAmStatusNack}
    (h : s.CutAt maxPackedSize fits first rest) (h' : s.CutAt maxPackedSize fits' first' rest') :
    ∃ l, fits = fits' ++ l ∧ first' :: rest' = l ++ first :: rest ∨
      fits' = fits ++ l ∧ first :: rest = l ++ first' :: rest' := by
  have heq := h.split.symm.trans h'.split
  rcases List.append_eq_append_iff.mp heq with ⟨l, hl, hr⟩ | ⟨l, hl, hr⟩
  · exact ⟨l, .inr ⟨hl, hr⟩⟩
  · exact ⟨l, .inl ⟨hl, hr⟩⟩

theorem CutAt.not_behind {l fits' rest' : List RlcAmStatusNack} {first' : RlcAmStatusNack}
    (h : s.CutAt maxPackedSize fits first rest) (h' : s.CutAt maxPackedSize fits' first' rest')
    (hl : fits' = fits ++ l) (hr : first :: rest = l ++ first' :: rest') : l = [] := by
  cases l with
  | nil => rfl
  | cons back l =>
    obtain ⟨rfl, -⟩ := List.cons_eq_cons.mp hr
    have hlt := h.lt
    have hle := h'.fits_le
    rw [hl, nacksSize_append, nacksSize_cons] at hle
    omega

theorem CutAt.unique {fits' rest' : List RlcAmStatusNack} {first' : RlcAmStatusNack}
    (h : s.CutAt maxPackedSize fits first rest) (h' : s.CutAt maxPackedSize fits' first' rest') :
    fits = fits' ∧ first = first' := by
  obtain ⟨l, ⟨hl, hr⟩ | ⟨hl, hr⟩⟩ := h.fits_prefix h'
  · obtain rfl := h'.not_behind h hl hr
    exact ⟨hl.trans (List.append_nil _), (List.cons_eq_cons.mp hr).1.symm⟩
  · obtain rfl := h.not_behind h' hl hr
    exact ⟨(hl.trans (List.append_nil _)).symm, (List.cons_eq_cons.mp hr).1⟩

theorem trimLoop_cut {size ackSn : Nat} (xs ys : List RlcAmStatusNack)
    (h : maxPackedSize < size + nacksSize sz ys + nackSize sz first) :
    trimLoop sz maxPackedSize (xs ++ first :: ys) (size + nacksSize sz (xs ++ first :: ys)) ackSn =
      trimLoop sz maxPackedSize ys (size + nacksSize sz ys) first.nackSn := by
  induction xs generalizing ackSn with
  | nil =>
    have hsize : size + nacksSize sz (first :: ys) - nackSize sz first = size + nacksSize sz ys := by
      rw [nacksSize_cons]
      omega
    have hlt : maxPackedSize < size + nacksSize sz (first :: ys) := by
      rw [nacksSize_cons]
      omega
    rw [List.nil_append, trimLoop, if_pos (.inl hlt), hsize]
  | cons back xs ih =>
    have hsize : size + nacksSize sz (back :: (xs ++ first :: ys)) - nackSize sz back =
        size + nacksSize sz (xs ++ first :: ys) := by
      rw [nacksSize_cons]
      omega
    have hlt : maxPackedSize < size + nacksSize sz (back :: (xs ++ first :: ys)) := by
      rw [nacksSize_cons, nacksSize_append, nacksSize_cons]
      omega
    rw [List.cons_append, trimLoop, if_pos (.inl hlt), hsize, ih]

theorem trimLoop_same {size ackSn : Nat} (ys : List RlcAmStatusNack)
    (h : size + nacksSize sz ys ≤ maxPackedSize) :
    trimLoop sz maxPackedSize ys (size + nacksSize sz ys) ackSn =
      (ys.dropWhile (·.nackSn == ackSn), size + nacksSize sz (ys.dropWhile (·.nackSn == ackSn)), ackSn) := by
  induction ys with
  | nil => rfl
  | cons back ys ih =>
    have hsize : size + nacksSize sz (back :: ys) - nackSize sz back = size + nacksSize sz ys := by
      rw [nacksSize_cons]
      omega
    rw [trimLoop]
    by_cases hsn : back.nackSn = ackSn
    · rw [nacksSize_cons] at h
      rw [if_pos (.inr hsn), hsize, hsn, ih (by omega), List.dropWhile_cons_of_pos (by simp [hsn])]
    · rw [if_neg (by omega), List.dropWhile_cons_of_neg (by simpa using hsn)]

def keptNacks (fits : List RlcAmStatusNack) (first : RlcAmStatusNack) : List RlcAmStatusNack :=
  fits.rdropWhile (·.nackSn == first.nackSn)

theorem CutAt.trim_eq (h : s.CutAt maxPackedSize fits first rest) (hs : s.Sized) :
    s.trim maxPackedSize = (true, { s with
      nacks := keptNacks fits first
      packedSize := sizeofHeaderAckSn + nacksSize s.snSize (keptNacks fits first)
      ackSn := first.nackSn }) := by
  have hfits := h.fits_le
  have hlt := h.lt
  have hrev : s.nacks.reverse = rest.reverse ++ first :: fits.reverse := by
    rw [h.split, List.reverse_append, List.reverse_cons, List.append_assoc, List.singleton_append]
  have hsize : s.packedSize =
      sizeofHeaderAckSn + nacksSize s.snSize (rest.reverse ++ first :: fits.reverse) := by
    rw [← hrev, nacksSize_reverse, hs]
  have hbig : ¬ maxPackedSize ≥ s.packedSize := by
    rw [hsize, nacksSize_append, nacksSize_cons, nacksSize_reverse, nacksSize_reverse]
    omega
  rw [trim, if_neg hbig, if_neg (by omega), hrev, hsize,
    trimLoop_cut _ _ (by rwa [nacksSize_reverse]), trimLoop_same _ (by rwa [nacksSize_reverse])]
  rw [← nacksSize_reverse (fits.reverse.dropWhile _)]
  rfl

theorem trim_of_fits (h : s.packedSize ≤ maxPackedSize) : s.trim maxPackedSize = (true, s) := by
  rw [trim, if_pos h]

theorem CutAt.lt_packedSize (h : s.CutAt maxPackedSize fits first rest) (hs : s.Sized) :
    maxPackedSize < s.packedSize := by
  have hlt := h.lt
  rw [hs, h.split, nacksSize_append, nacksSize_cons]
  omega

/-- The NACKs stand in the order of their SNs from `r` on and end below the offset `d`; only the last
SN of a range can be that of the next NACK. -/
structure InOrder (m r d : Nat) (nacks : List RlcAmStatusNack) : Prop where
  pos : ∀ nack ∈ nacks, 0 < nack.rangeLen
  below : ∀ nack ∈ nacks, SeqNum.dist m r nack.nackSn + nack.rangeLen ≤ d
  pairwise : nacks.Pairwise fun a b => SeqNum.dist m r a.nackSn + a.rangeLen ≤ SeqNum.dist m r b.nackSn + 1

def NackedAt (m r : Nat) (nacks : List RlcAmStatusNack) (e : Nat) : Prop :=
  ∃ nack ∈ nacks, SeqNum.dist m r nack.nackSn ≤ e ∧ e < SeqNum.dist m r nack.nackSn + nack.rangeLen

theorem inOrder_nil : InOrder m r d [] := ⟨nofun, nofun, .nil⟩

theorem InOrder.mono {d' : Nat} (h : InOrder m r d nacks) (hd : d ≤ d') : InOrder m r d' nacks :=
  ⟨h.pos, fun nack hn => Nat.le_trans (h.below nack hn) hd, h.pairwise⟩

theorem inOrder_concat : InOrder m r d (nacks ++ [nack]) ↔
    InOrder m r d nacks ∧ 0 < nack.rangeLen ∧ SeqNum.dist m r nack.nackSn + nack.rangeLen ≤ d ∧
      ∀ a ∈ nacks, SeqNum.dist m r a.nackSn + a.rangeLen ≤ SeqNum.dist m r nack.nackSn + 1 := by
  constructor
  · rintro ⟨hpos, hbelow, hpair⟩
    obtain ⟨hinit, -, hlast⟩ := List.pairwise_append.mp hpair
    have hmem := fun a (ha : a ∈ nacks) => List.mem_append_left [nack] ha
    have hself : nack ∈ nacks ++ [nack] := List.mem_append_right _ (List.mem_singleton_self _)
    exact ⟨⟨fun a ha => hpos a (hmem a ha), fun a ha => hbelow a (hmem a ha), hinit⟩, hpos _ hself,
      hbelow _ hself, fun a ha => hlast a ha _ (List.mem_singleton_self _)⟩
  · rintro ⟨⟨hpos, hbelow, hpair⟩, hpos', hbelow', hlast⟩
    refine ⟨?_, ?_, List.pairwise_append.mpr ⟨hpair, List.pairwise_singleton _ _, ?_⟩⟩
    · simpa [or_imp, forall_and] using ⟨hpos, hpos'⟩
    · simpa [or_imp, forall_and] using ⟨hbelow, hbelow'⟩
    · simpa using hlast

theorem nackedAt_concat {e : Nat} : NackedAt m r (nacks ++ [nack]) e ↔
    NackedAt m r nacks e ∨
      SeqNum.dist m r nack.nackSn ≤ e ∧ e < SeqNum.dist m r nack.nackSn + nack.rangeLen := by
  simp only [NackedAt, List.mem_append, List.mem_singleton, or_and_right, exists_or, exists_eq_left]

theorem dist_add_mod (hm : 0 < m) (r sn k : Nat) :
    SeqNum.dist m r ((sn + k) % m) = (SeqNum.dist m r sn + k) % m := by
  apply dist_unique (Nat.mod_lt _ hm)
  rw [Nat.add_mod_mod, Nat.mod_mod, ← Nat.add_assoc, Nat.add_mod, add_dist_mod hm, ← Nat.add_mod]

theorem InOrder.pushed (h : InOrder m r (d + 1) nacks) (hd : d + 1 < m)
    (hat : SeqNum.dist m r nack.nackSn = d) (hlen : nack.rangeLen = 1) :
    InOrder m r (d + 1) (pushed m nacks nack) ∧
      ∀ e, NackedAt m r (pushed m nacks nack) e ↔ NackedAt m r nacks e ∨ e = d := by
  have hbelow : ∀ a ∈ nacks, SeqNum.dist m r a.nackSn + a.rangeLen ≤ SeqNum.dist m r nack.nackSn + 1 := by
    rw [hat]
    exact h.below
  have hback : InOrder m r (d + 1) (nacks ++ [nack]) ∧
      ∀ e, NackedAt m r (nacks ++ [nack]) e ↔ NackedAt m r nacks e ∨ e = d := by
    refine ⟨inOrder_concat.mpr ⟨h, by omega, by omega, hbelow⟩, fun e => ?_⟩
    rw [nackedAt_concat, hat, hlen]
    exact or_congr_right (by omega)
  rcases List.eq_nil_or_concat nacks with rfl | ⟨init, prev, rfl⟩
  · exact hback
  rw [List.concat_eq_append] at h hback ⊢
  rw [pushed_concat]
  split
  · rename_i hm
    obtain ⟨hsn, -, -, hsum⟩ := canBeMerged_iff.mp hm
    obtain ⟨hinit, hpos, hle, hlast⟩ := inOrder_concat.mp h
    have hnext : SeqNum.dist m r prev.nackSn + prev.rangeLen = d := by
      rw [hsn, dist_add_mod (by omega), Nat.mod_eq_of_lt (by omega)] at hat
      exact hat
    have hmerged := @mergeNack_rangeLen prev nack hsum
    constructor
    · rw [inOrder_concat, mergeNack_nackSn, hmerged]
      exact ⟨hinit, by omega, by omega, hlast⟩
    · intro e
      rw [nackedAt_concat, nackedAt_concat, mergeNack_nackSn, hmerged, or_assoc]
      exact or_congr_right (by omega)
  · exact hback

theorem InOrder.foldl_pushed {l : List RlcAmStatusNack} (h : InOrder m r (d + 1) nacks) (hd : d + 1 < m)
    (hl : ∀ nack ∈ l, SeqNum.dist m r nack.nackSn = d ∧ nack.rangeLen = 1) :
    InOrder m r (d + 1) (l.foldl (RlcAmStatusPdu.pushed m) nacks) ∧
      ∀ e, NackedAt m r (l.foldl (RlcAmStatusPdu.pushed m) nacks) e ↔
        NackedAt m r nacks e ∨ l ≠ [] ∧ e = d := by
  induction l generalizing nacks with
  | nil => exact ⟨h, fun e => by simp⟩
  | cons nack l ih =>
    obtain ⟨hat, hlen⟩ := hl nack List.mem_cons_self
    obtain ⟨hpushed, hnacked⟩ := h.pushed hd hat hlen
    obtain ⟨horder, hall⟩ := ih hpushed fun n hn => hl n (List.mem_cons_of_mem _ hn)
    refine ⟨horder, fun e => ?_⟩
    rw [List.foldl_cons, hall, hnacked]
    simp only [ne_eq, reduceCtorEq, not_false_eq_true, true_and]
    tauto

theorem keptNacks_isInitial (fits : List RlcAmStatusNack) (first : RlcAmStatusNack) :
    keptNacks fits first <+: fits := List.rdropWhile_prefix _ _

theorem mem_keptNacks_or (h : nack ∈ fits) : nack ∈ keptNacks fits first ∨ nack.nackSn = first.nackSn := by
  have heq : keptNacks fits first ++ fits.rtakeWhile (·.nackSn == first.nackSn) = fits :=
    List.rdropWhile_append_rtakeWhile
  rw [← heq] at h
  rcases List.mem_append.mp h with hk | hd
  · exact .inl hk
  · exact .inr (by simpa using List.mem_rtakeWhile_imp hd)

theorem dist_inj {x y : Nat} (hm : 0 < m) (hx : x < m) (hy : y < m)
    (h : SeqNum.dist m r x = SeqNum.dist m r y) : x = y := by
  have hmod := add_dist_mod hm r x
  rw [h, add_dist_mod hm, Nat.mod_eq_of_lt hx, Nat.mod_eq_of_lt hy] at hmod
  exact hmod.symm

theorem InOrder.kept_before (h : InOrder m r d (fits ++ first :: rest)) (hm : 0 < m)
    (hwf : ∀ a ∈ fits, a.nackSn < m) (hfirst : first.nackSn < m) (hk : nack ∈ keptNacks fits first) :
    SeqNum.dist m r nack.nackSn < SeqNum.dist m r first.nackSn := by
  have hne : keptNacks fits first ≠ [] := List.ne_nil_of_mem hk
  obtain ⟨hfits, -, hbefore⟩ := List.pairwise_append.mp h.pairwise
  have hle : ∀ a ∈ fits, SeqNum.dist m r a.nackSn ≤ SeqNum.dist m r first.nackSn := by
    intro a ha
    have hpos := h.pos a (List.mem_append_left _ ha)
    have hlast := hbefore a ha first List.mem_cons_self
    omega
  have hsub := (keptNacks_isInitial fits first).subset
  obtain ⟨init, back, heq⟩ := (List.eq_nil_or_concat (keptNacks fits first)).resolve_left hne
  rw [List.concat_eq_append] at heq
  have hback : back ∈ keptNacks fits first := by
    rw [heq]
    exact List.mem_append_right _ (List.mem_singleton_self _)
  have hback_ne : SeqNum.dist m r back.nackSn ≠ SeqNum.dist m r first.nackSn := by
    intro heqd
    have hlast := List.rdropWhile_last_not (fun a : RlcAmStatusNack => a.nackSn == first.nackSn) fits hne
    change ¬ ((keptNacks fits first).getLast hne).nackSn == first.nackSn at hlast
    simp only [heq, List.getLast_append_singleton, beq_iff_eq] at hlast
    exact hlast (dist_inj hm (hwf back (hsub hback)) hfirst heqd)
  have hback_le := hle back (hsub hback)
  rw [heq] at hk
  rcases List.mem_append.mp hk with hinit | hlast
  · have hpair := hfits.sublist (keptNacks_isInitial fits first).sublist
    rw [heq] at hpair
    have hnext := (List.pairwise_append.mp hpair).2.2 nack hinit back (List.mem_singleton_self _)
    have hmem : nack ∈ keptNacks fits first := by
      rw [heq]
      exact hk
    have hpos := h.pos nack (List.mem_append_left _ (hsub hmem))
    omega
  · rw [List.mem_singleton.mp hlast]
    omega

def CutsRange (m : Nat) (fits : List RlcAmStatusNack) (first : RlcAmStatusNack) : Prop :=
  ∃ nack ∈ fits, 1 < nack.rangeLen ∧ (nack.nackSn + (nack.rangeLen - 1)) % m = first.nackSn

theorem InOrder.before_iff (h : InOrder m r d (fits ++ first :: rest)) (hd : d < m)
    (hwf : ∀ a ∈ fits, a.nackSn < m) (hfirst : first.nackSn < m) :
    (∀ nack ∈ keptNacks fits first, ∀ i < nack.rangeLen,
      SeqNum.dist m r ((nack.nackSn + i) % m) < SeqNum.dist m r first.nackSn) ↔ ¬ CutsRange m fits first := by
  have hm : 0 < m := by omega
  obtain ⟨-, -, hbefore⟩ := List.pairwise_append.mp h.pairwise
  have hat : ∀ a ∈ fits, ∀ i < a.rangeLen,
      SeqNum.dist m r ((a.nackSn + i) % m) = SeqNum.dist m r a.nackSn + i := by
    intro a ha i hi
    have hbelow := h.below a (List.mem_append_left _ ha)
    rw [dist_add_mod hm, Nat.mod_eq_of_lt (by omega)]
  have hsub := (keptNacks_isInitial fits first).subset
  constructor
  · rintro hall ⟨nack, hn, hlen, hend⟩
    have hoff := hat nack hn (nack.rangeLen - 1) (by omega)
    rcases mem_keptNacks_or hn with hk | hsame
    · have hlt := hall nack hk (nack.rangeLen - 1) (by omega)
      rw [hend] at hlt
      exact Nat.lt_irrefl _ hlt
    · rw [hend, hsame] at hoff
      omega
  · intro hcut nack hk i hi
    have hn := hsub hk
    have hstart := h.kept_before hm hwf hfirst hk
    have hlast := hbefore nack hn first List.mem_cons_self
    rw [hat nack hn i hi]
    rcases Nat.lt_or_ge (SeqNum.dist m r nack.nackSn + i) (SeqNum.dist m r first.nackSn) with hlt | hge
    · exact hlt
    · refine absurd ⟨nack, hn, by omega, ?_⟩ hcut
      apply dist_inj hm (Nat.mod_lt _ hm) hfirst
      rw [hat nack hn _ (by omega)]
      omega

theorem InOrder.nackedAt_kept (h : InOrder m r d (fits ++ first :: rest)) {e : Nat}
    (he : e < SeqNum.dist m r first.nackSn) (hnacked : NackedAt m r (fits ++ first :: rest) e) :
    NackedAt m r (keptNacks fits first) e := by
  obtain ⟨-, hrest, -⟩ := List.pairwise_append.mp h.pairwise
  obtain ⟨nack, hn, hle, hlt⟩ := hnacked
  have hbehind : ¬ SeqNum.dist m r first.nackSn ≤ SeqNum.dist m r nack.nackSn := by omega
  rcases List.mem_append.mp hn with hfits | hcut
  · rcases mem_keptNacks_or hfits with hk | hsame
    · exact ⟨nack, hk, hle, hlt⟩
    · rw [hsame] at hbehind
      exact absurd (Nat.le_refl _) hbehind
  · rcases List.mem_cons.mp hcut with rfl | hbelow
    · exact absurd (Nat.le_refl _) hbehind
    · have hpos := h.pos first (List.mem_append_right _ List.mem_cons_self)
      have hnext := List.rel_of_pairwise_cons hrest hbelow
      omega

end RlcAmStatusPdu

namespace RlcRxAmEntity

open RlcRxAmSduInfo Machine

variable {s t : RlcRxAmEntity} {r hs nh : Nat}

structure SingleNack (snSize : RlcAmSnSize) (sn : Nat) (nack : RlcAmStatusNack) : Prop where
  nackSn : nack.nackSn = sn
  nackRange : nack.nackRange = none
  wf : sn < snSize.mod → nack.Wf snSize

theorem pushSoNack_ok {sz : RlcAmSnSize} {status status' : RlcAmStatusPdu} {sn a b : Nat}
    (h : pushSoNack status sn a b = .ok status') : ∃ nack, status' = status.pushNack nack ∧ SingleNack sz sn nack := by
  unfold pushSoNack at h
  dsimp only at h
  split at h
  · cases h
  · cases h
    refine ⟨_, rfl, rfl, rfl, fun hsn => ⟨hsn, ?_, ?_, ?_⟩⟩
    · exact Nat.mod_lt _ (by decide)
    · exact Nat.mod_lt _ (by decide)
    · change 1 < 2 ^ 8
      decide

theorem reportSegments_ok {sz : RlcAmSnSize} {sn lastSo : Nat} {segs : List RlcRxAmSduSegment}
    {haveLast : Bool} {status status' : RlcAmStatusPdu}
    (h : reportSegments sn segs lastSo haveLast status = .ok status') :
    ∃ l, status' = l.foldl RlcAmStatusPdu.pushNack status ∧ (∀ nack ∈ l, SingleNack sz sn nack) ∧
      (l = [] → haveLast = true ∨ (inventory segs lastSo).1 = true) := by
  induction segs generalizing lastSo haveLast status with
  | nil =>
    rw [reportSegments] at h
    split at h
    · cases h
      exact ⟨[], rfl, fun _ hin => absurd hin List.not_mem_nil, fun _ => .inl ‹_›⟩
    · obtain ⟨nack, rfl, hnack⟩ := pushSoNack_ok h
      exact ⟨[nack], rfl, by simpa using hnack, (absurd · (List.cons_ne_nil _ _))⟩
  | cons segm rest ih =>
    rw [reportSegments] at h
    obtain ⟨mid, hgap, hrest⟩ := bind_eq_ok.mp h
    obtain ⟨l, rfl, hl, hempty⟩ := ih hrest
    unfold reportGap at hgap
    split at hgap
    · obtain ⟨nack, rfl, hnack⟩ := @pushSoNack_ok sz _ _ _ _ _ hgap
      exact ⟨nack :: l, rfl, by simpa using ⟨hnack, hl⟩, (absurd · (List.cons_ne_nil _ _))⟩
    · rename_i hso
      cases hgap
      refine ⟨l, rfl, hl, fun hnil => ?_⟩
      rw [inventory, if_neg hso]
      rcases hempty hnil with hlast | hdone
      · rw [Bool.or_eq_true, beq_iff_eq] at hlast
        refine hlast.imp_right fun hsi => ?_
        rw [if_pos hsi]
      · refine .inr ?_
        split
        · rfl
        · rw [← not_ne_iff.mp hso]
          exact hdone

theorem reportSn_ok {sn : Nat} {status status' : RlcAmStatusPdu} (hgaps : GapsKnown s)
    (h : s.reportSn sn status = .ok status') :
    ∃ l, status' = l.foldl RlcAmStatusPdu.pushNack status ∧
      (∀ nack ∈ l, SingleNack s.cfg.snFieldLength sn nack) ∧ (l = [] → s.fullyReceived sn = true) := by
  rw [reportSn] at h
  cases hl : s.rxWindow.lookup sn with
  | none =>
    rw [hl] at h
    cases h
    refine ⟨[{ nackSn := sn }], rfl, ?_, (absurd · (List.cons_ne_nil _ _))⟩
    rw [List.forall_mem_singleton]
    refine ⟨rfl, rfl, fun hsn => ⟨hsn, ?_, ?_, ?_⟩⟩
    · exact Nat.two_pow_pos 16
    · change RlcAmStatusNack.soEndOfSdu < 2 ^ 16
      decide
    · change 1 < 2 ^ 8
      decide
  | some info =>
    rw [hl] at h
    dsimp only at h
    cases hfull : info.fullyReceived with
    | true =>
      rw [if_pos hfull] at h
      cases h
      refine ⟨[], rfl, fun _ hin => absurd hin List.not_mem_nil, fun _ => ?_⟩
      rw [fullyReceived, hl]
      exact hfull
    | false =>
      obtain ⟨segs, hsegs, hopen⟩ := hgaps sn info hl hfull
      rw [if_neg (by simp [hfull]), hsegs] at h
      obtain ⟨l, heq, hnacks, hempty⟩ := reportSegments_ok h
      refine ⟨l, heq, hnacks, fun hnil => ?_⟩
      rcases hempty hnil with hlast | hdone
      · cases hlast
      · rw [hopen] at hdone
        cases hdone

theorem rxModBase_eq (s : RlcRxAmEntity) (sn : Nat) : s.rxModBase sn = SeqNum.dist s.mod s.st.rxNext sn :=
  subU32_mod mod_dvd _ _

structure Reports (s : RlcRxAmEntity) (d : Nat) (status : RlcAmStatusPdu) : Prop where
  built : status.Built
  snSize : status.snSize = s.cfg.snFieldLength
  order : RlcAmStatusPdu.InOrder s.mod s.st.rxNext d status.nacks
  all : ∀ sn, s.rxModBase sn < d → RlcAmStatusPdu.NackedAt s.mod s.st.rxNext status.nacks (s.rxModBase sn) ∨
    s.fullyReceived (sn % s.mod) = true

theorem Reports.reportSn {d sn : Nat} {status status' : RlcAmStatusPdu} (h : Reports s d status)
    (hgaps : GapsKnown s) (hsn : sn < s.mod) (hat : s.rxModBase sn = d) (hd : d + 1 < s.mod)
    (hok : s.reportSn sn status = .ok status') : Reports s (d + 1) status' := by
  obtain ⟨l, rfl, hl, hempty⟩ := reportSn_ok hgaps hok
  have hmod : status.snSize.mod = s.mod := by rw [h.snSize]; rfl
  rw [rxModBase_eq] at hat
  have hpush : ∀ nack ∈ l, SeqNum.dist s.mod s.st.rxNext nack.nackSn = d ∧ nack.rangeLen = 1 := by
    intro nack hn
    have hone := hl nack hn
    rw [hone.nackSn, RlcAmStatusNack.rangeLen, hone.nackRange]
    exact ⟨hat, rfl⟩
  obtain ⟨horder, hnacked⟩ := (h.order.mono (Nat.le_succ d)).foldl_pushed hd hpush
  refine ⟨RlcAmStatusPdu.foldl_pushNack_built h.built ?_, ?_, ?_, ?_⟩
  · intro nack hn
    rw [h.snSize]
    exact (hl nack hn).wf hsn
  · rw [RlcAmStatusPdu.foldl_pushNack_snSize, h.snSize]
  · rw [RlcAmStatusPdu.foldl_pushNack_nacks, hmod]
    exact horder
  · intro x hx
    rw [RlcAmStatusPdu.foldl_pushNack_nacks, hmod, hnacked]
    rcases Nat.lt_or_ge (s.rxModBase x) d with hlt | hge
    · exact (h.all x hlt).imp_left .inl
    · have hxd : s.rxModBase x = d := by omega
      by_cases hnil : l = []
      · refine .inr ?_
        have hfull := hempty hnil
        rw [rxModBase_eq, ← hat, ← dist_mod_right s.mod s.st.rxNext x] at hxd
        rwa [RlcAmStatusPdu.dist_inj mod_pos (Nat.mod_lt _ mod_pos) hsn hxd]
      · exact .inl (.inr ⟨hnil, hxd⟩)

theorem Reports.foldlM {n i : Nat} {status status' : RlcAmStatusPdu} (hw : WindowAt s r hs nh)
    (hgaps : GapsKnown s) (hri : r ≤ i) (hin : i + n ≤ r + s.amWindowSize) (h : Reports s (i - r) status)
    (hok : (List.range' i n).foldlM (fun status j => s.reportSn (j % s.mod) status) status = .ok status') :
    Reports s (i + n - r) status' := by
  have hm := mod_eq (s := s)
  have hpos := range_lt_amWindowSize (s := s)
  induction n generalizing i status with
  | zero =>
    cases hok
    exact h
  | succ n ih =>
    rw [List.range'_succ, List.foldlM_cons] at hok
    obtain ⟨mid, hmid, hrest⟩ := bind_eq_ok.mp hok
    have hstep := h.reportSn hgaps (Nat.mod_lt _ mod_pos)
      (hw.base_window (k := i) (Nat.mod_mod _ _) hri (by omega)) (by omega) hmid
    rw [show i - r + 1 = i + 1 - r by omega] at hstep
    have hdone := ih (by omega) (by omega) hstep hrest
    rwa [show i + 1 + n = i + (n + 1) by omega] at hdone

structure BuffersFit (s : RlcRxAmEntity) : Prop where
  writer : s.statusOwnedByWriter.snSize = s.cfg.snFieldLength
  exchange : s.statusForExchange.snSize = s.cfg.snFieldLength
  reader : s.statusOwnedByReader.snSize = s.cfg.snFieldLength

structure Reporting (s : RlcRxAmEntity) (r hs nh : Nat) : Prop where
  inv : Inv s r hs nh
  gaps : GapsKnown s
  buffers : BuffersFit s

theorem stopPos_bounds (hw : WindowAt s r hs nh) : r ≤ s.stopPos r hs ∧ s.stopPos r hs ≤ r + s.amWindowSize := by
  have hle := hw.next_le
  have hst := hw.status_le
  have hhi := hw.highest_le
  unfold stopPos
  omega

theorem Reporting.refreshStatusReport (h : Reporting s r hs nh) (hok : s.refreshStatusReport = .ok t) :
    SameWindow s t ∧ BuffersFit t ∧ t.statusForExchange.ackSn < s.mod ∧
      Reports s (s.rxModBase t.statusForExchange.ackSn) t.statusForExchange := by
  have hw := h.inv.toWindowAt
  obtain ⟨hle, hwin⟩ := stopPos_bounds hw
  have hpos := range_lt_amWindowSize (s := s)
  have hm := mod_eq (s := s)
  rw [hw.refreshStatusReport_eq] at hok
  obtain ⟨status, hfold, rfl⟩ := map_eq_ok.mp hok
  have hstart : Reports s (r - r) s.statusOwnedByWriter.reset := by
    refine ⟨RlcAmStatusPdu.new_built _, h.buffers.writer, ?_, fun sn hsn => ?_⟩
    · exact RlcAmStatusPdu.inOrder_nil
    · omega
  have hreport := hstart.foldlM hw h.gaps (Nat.le_refl r) (by omega) hfold
  rw [show r + (s.stopPos r hs - r) - r = s.stopPos r hs - r by omega] at hreport
  have hack : s.rxModBase (s.stopPos r hs % s.mod) = s.stopPos r hs - r :=
    hw.base_window (Nat.mod_mod _ _) hle hwin
  refine ⟨⟨rfl, rfl, rfl, rfl⟩, ⟨h.buffers.exchange, hreport.snSize, h.buffers.reader⟩,
    Nat.mod_lt _ mod_pos, ?_⟩
  change Reports s (s.rxModBase (s.stopPos r hs % s.mod)) { status with ackSn := s.stopPos r hs % s.mod }
  rw [hack]
  exact ⟨⟨hreport.built.sized, hreport.built.wf, hreport.built.unmergeable⟩, hreport.snSize, hreport.order, hreport.all⟩

theorem Reporting.onFunctionExit (h : Reporting s r hs nh) {changed requested : Bool}
    (hok : s.onFunctionExit changed requested = .ok t) : Reporting t r hs nh := by
  rw [RlcRxAmEntity.onFunctionExit] at hok
  split at hok
  · obtain ⟨u, hu, hout⟩ := bind_eq_ok.mp hok
    cases hout
    obtain ⟨hsame, hbuf, -, -⟩ := h.refreshStatusReport hu
    have hdo : SameWindow s { u with doStatus := u.doStatus || requested } :=
      ⟨hsame.cfg, hsame.st, hsame.rxWindow, hsame.timer⟩
    exact ⟨hdo.inv h.inv, hdo.gapsKnown h.gaps, hbuf.writer, hbuf.exchange, hbuf.reader⟩
  · cases hok
    have hdo : SameWindow s { s with doStatus := s.doStatus || requested } := ⟨rfl, rfl, rfl, rfl⟩
    exact ⟨hdo.inv h.inv, hdo.gapsKnown h.gaps, h.buffers.writer, h.buffers.exchange, h.buffers.reader⟩

theorem Placed.reporting {k : Nat} {header : RlcAmPduHeader} {payload : List UInt8} {r' hs' : Nat}
    (hp : Placed s t k (s.placedInfo header payload).2 r hs nh r' hs') (h : Reporting s r hs nh) :
    Reporting t r' hs' (max nh (k + 1)) := by
  refine ⟨hp.inv, hp.gapsKnown h.gaps, ?_⟩
  rw [hp.frame]
  exact ⟨h.buffers.writer, h.buffers.exchange, h.buffers.reader⟩

theorem Reporting.step (h : Reporting s r hs nh) {e : RxEvent} (hok : s.step e = .ok t) :
    ∃ r' hs' nh', Reporting t r' hs' nh' := by
  obtain ⟨⟨outcome, u⟩, hreact, hout⟩ := bind_eq_ok.mp hok
  cases hout
  cases e with
  | pdu buf =>
    rw [react] at hreact
    rcases h.inv.handlePdu_cases buf with ⟨hrun, -⟩ | ⟨header, payload, -, ⟨-, hrun⟩ | hcase⟩
    · rw [hrun] at hreact
      cases hreact
      exact ⟨r, hs, nh, h⟩
    · rw [hrun] at hreact
      obtain ⟨v, hv, heq⟩ := map_eq_ok.mp hreact
      cases heq
      exact ⟨r, hs, nh, h.onFunctionExit hv⟩
    · obtain ⟨k, v, r', hs', -, -, -, -, hp, hrun⟩ := hcase
      rw [hrun] at hreact
      obtain ⟨w, hw, heq⟩ := map_eq_ok.mp hreact
      cases heq
      exact ⟨r', hs', _, (hp.reporting h).onFunctionExit hw⟩
  | reassemblyExpired =>
    rw [react] at hreact
    cases hrunning : s.reassemblyTimerRunning with
    | false =>
      rw [hrunning] at hreact
      cases hreact
      exact ⟨r, hs, nh, h⟩
    | true =>
      rw [if_pos hrunning] at hreact
      obtain ⟨w, hw, heq⟩ := bind_eq_ok.mp hreact
      cases heq
      obtain ⟨v, hs', hi, -, -, hv, hexp⟩ := h.inv.onExpiredReassemblyTimer hrunning rfl
      rw [hexp] at hw
      obtain ⟨x, hx, rfl⟩ := map_eq_ok.mp hw
      have hgaps : GapsKnown v := by
        intro sn info hl
        rw [hv] at hl
        exact h.gaps sn info hl
      have hbuf : BuffersFit v := by
        rw [hv]
        exact ⟨h.buffers.writer, h.buffers.exchange, h.buffers.reader⟩
      obtain ⟨hsame, hbuf', -, -⟩ := Reporting.refreshStatusReport ⟨hi, hgaps, hbuf⟩ hx
      have hdo : SameWindow v { x with doStatus := true } := ⟨hsame.cfg, hsame.st, hsame.rxWindow, hsame.timer⟩
      exact ⟨r, hs', nh, hdo.inv hi, hdo.gapsKnown hgaps, hbuf'.writer, hbuf'.exchange, hbuf'.reader⟩
  | statusProhibitExpired =>
    cases hreact
    have hsame : SameWindow s s.onExpiredStatusProhibitTimer := ⟨rfl, rfl, rfl, rfl⟩
    exact ⟨r, hs, nh, hsame.inv h.inv, h.gaps, h.buffers.writer, h.buffers.exchange, h.buffers.reader⟩
  | getStatusPdu =>
    cases hreact
    refine ⟨r, hs, nh, ?_⟩
    split
    · have hsame : SameWindow s s.getStatusPdu.2 := ⟨rfl, rfl, rfl, rfl⟩
      exact ⟨hsame.inv h.inv, h.gaps, h.buffers.writer, h.buffers.reader, h.buffers.exchange⟩
    · exact h

theorem reporting_new (cfg : RlcRxAmConfig) : Reporting (new cfg) 0 0 0 :=
  ⟨inv_new cfg, nofun, rfl, rfl, rfl⟩

theorem run_reporting {cfg : RlcRxAmConfig} {es : List RxEvent} (hrun : run step (new cfg) es = .ok s) :
    ∃ r hs nh, Reporting s r hs nh := by
  have hadm : Admits step (fun _ _ => True) (new cfg) es := admits_of_forall (fun _ _ => trivial) _ _
  refine run_invariant (fun s => ∃ r hs nh, Reporting s r hs nh) ?_ ⟨0, 0, 0, reporting_new cfg⟩ hadm hrun
  rintro s e t ⟨r, hs, nh, h⟩ - hok
  exact h.step hok

/-- The peer can use what `trim` returns for a report. -/
structure Usable (s : RlcRxAmEntity) (report : RlcAmStatusPdu) (maxPackedSize : Nat)
    (trimmed : Bool × RlcAmStatusPdu) : Prop where
  ok : trimmed.1 = true
  fits : trimmed.2.getPackedSize ≤ maxPackedSize
  packed : trimmed.2.pack.length = trimmed.2.getPackedSize
  isPrefix : trimmed.2.nacks <+: report.nacks
  before : ∀ nack ∈ trimmed.2.nacks, ∀ i < nack.rangeLen,
    s.rxModBase ((nack.nackSn + i) % s.mod) < s.rxModBase trimmed.2.ackSn
  received : ∀ sn < s.mod, s.rxModBase sn < s.rxModBase trimmed.2.ackSn →
    (∀ nack ∈ trimmed.2.nacks, ∀ i < nack.rangeLen, (nack.nackSn + i) % s.mod ≠ sn) →
    s.fullyReceived sn = true

theorem exists_covered {nacks : List RlcAmStatusNack} {sn : Nat} (hsn : sn < s.mod)
    (h : RlcAmStatusPdu.NackedAt s.mod s.st.rxNext nacks (s.rxModBase sn)) :
    ∃ nack ∈ nacks, ∃ i < nack.rangeLen, (nack.nackSn + i) % s.mod = sn := by
  obtain ⟨nack, hn, hle, hlt⟩ := h
  rw [rxModBase_eq] at hle hlt
  have hbase : SeqNum.dist s.mod s.st.rxNext sn < s.mod := SeqNum.dist_lt mod_pos _ _
  refine ⟨nack, hn, SeqNum.dist s.mod s.st.rxNext sn - SeqNum.dist s.mod s.st.rxNext nack.nackSn, by omega, ?_⟩
  apply RlcAmStatusPdu.dist_inj mod_pos (Nat.mod_lt _ mod_pos) hsn
  rw [RlcAmStatusPdu.dist_add_mod mod_pos, Nat.add_sub_cancel' hle, Nat.mod_eq_of_lt hbase]

theorem Reports.usable_whole {d : Nat} {report : RlcAmStatusPdu} (h : Reports s d report)
    (hack : s.rxModBase report.ackSn = d) (hd : d < s.mod) {maxPackedSize : Nat}
    (hfits : report.packedSize ≤ maxPackedSize) : Usable s report maxPackedSize (true, report) where
  ok := rfl
  fits := hfits
  packed := RlcAmStatusPdu.pack_length h.built.sized
  isPrefix := List.prefix_refl _
  before := by
    intro nack hn i hi
    have hbelow := h.order.below nack hn
    rw [hack, rxModBase_eq, RlcAmStatusPdu.dist_add_mod mod_pos, Nat.mod_eq_of_lt (by omega)]
    omega
  received := by
    intro sn hsn hlt hnone
    rw [hack] at hlt
    rcases h.all sn hlt with hnacked | hfull
    · obtain ⟨nack, hn, i, hi, heq⟩ := exists_covered hsn hnacked
      exact absurd heq (hnone nack hn i hi)
    · rwa [Nat.mod_eq_of_lt hsn] at hfull

theorem Reports.usable_cut {d maxPackedSize : Nat} {report : RlcAmStatusPdu} (h : Reports s d report)
    (hd : d < s.mod) {fits rest : List RlcAmStatusNack} {first : RlcAmStatusNack}
    (hc : report.CutAt maxPackedSize fits first rest) :
    Usable s report maxPackedSize (report.trim maxPackedSize) ↔ ¬ RlcAmStatusPdu.CutsRange s.mod fits first := by
  have hmod : report.snSize.mod = s.mod := by rw [h.snSize]; rfl
  have hwf : ∀ a ∈ fits ++ first :: rest, a.nackSn < s.mod := by
    intro a ha
    rw [← hmod]
    exact (h.built.wf a (by rwa [hc.split])).nackSn_lt
  have hfits := fun a ha => hwf a (List.mem_append_left _ ha)
  have hfirst := hwf first (List.mem_append_right _ List.mem_cons_self)
  have horder := h.order
  rw [hc.split] at horder
  have hiff := horder.before_iff hd hfits hfirst
  rw [hc.trim_eq h.built.sized]
  constructor
  · intro husable
    rw [← hiff]
    intro nack hn i hi
    have hbefore := husable.before nack hn i hi
    rwa [rxModBase_eq, rxModBase_eq] at hbefore
  · intro hcut
    have hkept := RlcAmStatusPdu.keptNacks_isInitial fits first
    refine ⟨rfl, ?_, RlcAmStatusPdu.pack_length rfl, ?_, ?_, ?_⟩
    · obtain ⟨l, hl⟩ := hkept
      have hle := hc.fits_le
      rw [← hl, RlcAmStatusPdu.nacksSize_append] at hle
      change sizeofHeaderAckSn + RlcAmStatusPdu.nacksSize _ _ ≤ _
      omega
    · rw [hc.split]
      exact hkept.trans (List.prefix_append _ _)
    · intro nack hn i hi
      rw [rxModBase_eq, rxModBase_eq]
      exact hiff.mpr hcut nack hn i hi
    · intro sn hsn hlt hnone
      change s.rxModBase sn < s.rxModBase first.nackSn at hlt
      have hbelow := horder.below first (List.mem_append_right _ List.mem_cons_self)
      have hlt' := hlt
      rw [rxModBase_eq s first.nackSn] at hlt'
      rcases h.all sn (by omega) with hnacked | hfull
      · rw [hc.split] at hnacked
        obtain ⟨nack, hn, i, hi, heq⟩ := exists_covered hsn (horder.nackedAt_kept hlt' hnacked)
        exact absurd heq (hnone nack hn i hi)
      · rwa [Nat.mod_eq_of_lt hsn] at hfull

/-- What a report built in any state of a run is cut to is of use to the peer, unless a NACK range
that fits ends in the SN of the first NACK that does not fit. -/
theorem trimmed_report_usable_iff (cfg : RlcRxAmConfig) (es : List RxEvent)
    (hrun : run step (new cfg) es = .ok s) (hok : s.refreshStatusReport = .ok t) (maxPackedSize : Nat)
    (hmax : sizeofHeaderAckSn ≤ maxPackedSize) :
    Usable s t.statusForExchange maxPackedSize (t.statusForExchange.trim maxPackedSize) ↔
      ¬ ∃ fits first rest, t.statusForExchange.CutAt maxPackedSize fits first rest ∧
        RlcAmStatusPdu.CutsRange s.mod fits first := by
  obtain ⟨r, hs, nh, hrep⟩ := run_reporting hrun
  obtain ⟨-, -, -, hreport⟩ := hrep.refreshStatusReport hok
  have hd : s.rxModBase t.statusForExchange.ackSn < s.mod := Nat.mod_lt _ mod_pos
  have hsized := hreport.built.sized
  rcases Nat.lt_or_ge maxPackedSize t.statusForExchange.packedSize with hlt | hge
  · obtain ⟨fits, first, rest, hc⟩ := hsized.exists_cutAt hlt hmax
    rw [hreport.usable_cut hd hc]
    refine not_congr ⟨fun h => ⟨fits, first, rest, hc, h⟩, ?_⟩
    rintro ⟨fits', first', rest', hc', h⟩
    obtain ⟨rfl, rfl⟩ := hc.unique hc'
    exact h
  · rw [RlcAmStatusPdu.trim_of_fits hge]
    refine iff_of_true (hreport.usable_whole rfl hd hge) ?_
    rintro ⟨fits, first, rest, hc, -⟩
    have hlt := hc.lt_packedSize hsized
    omega

theorem trimmed_report_usable_one :
    ∃ s t, run step (new drbConfig) [.pdu [0x80, 1, 7], .reassemblyExpired] = .ok s ∧
      s.refreshStatusReport = .ok t ∧
      (Usable s t.statusForExchange 5 (t.statusForExchange.trim 5) ↔
        ¬ ∃ fits first rest, t.statusForExchange.CutAt 5 fits first rest ∧
          RlcAmStatusPdu.CutsRange s.mod fits first) := by
  have hrun : ((run step (new drbConfig) [.pdu [0x80, 1, 7], .reassemblyExpired]).bind fun s =>
      s.refreshStatusReport.map fun t => t.statusForExchange.nacks).toOption =
        some [{ nackSn := 0 }] := by
    decide +kernel
  cases hs : run step (new drbConfig) [.pdu [0x80, 1, 7], .reassemblyExpired] with
  | error f => simp [hs, Except.bind, Except.toOption] at hrun
  | ok s =>
    cases ht : s.refreshStatusReport with
    | error f => simp [hs, ht, Except.bind, Except.map, Except.toOption] at hrun
    | ok t => exact ⟨s, t, rfl, ht, trimmed_report_usable_iff drbConfig _ hs ht 5 (by decide)⟩

/-- The first five missing bytes of SN 2 join the NACK range of SNs 0 and 1; a grant that leaves out the
NACK for its other bytes makes 2 the ACK_SN, which the range reaches. -/
theorem range_reaches_ack_sn :
    ¬ ∀ (cfg : RlcRxAmConfig) (es : List RxEvent) (s t : RlcRxAmEntity) (maxPackedSize : Nat),
      run step (new cfg) es = .ok s → s.refreshStatusReport = .ok t → sizeofHeaderAckSn ≤ maxPackedSize →
        Usable s t.statusForExchange maxPackedSize (t.statusForExchange.trim maxPackedSize) := by
  intro h
  have hrun : ((run step (new drbConfig) [.pdu [0xb0, 2, 0, 5, 1, 2, 3, 4, 5], .reassemblyExpired]).bind fun s =>
      s.refreshStatusReport.map fun t =>
        ((t.statusForExchange.trim 15).2.nacks,
          decide (s.rxModBase ((0 + 2) % s.mod) < s.rxModBase (t.statusForExchange.trim 15).2.ackSn))).toOption =
        some ([{ nackSn := 0, so := some ⟨0, 4⟩, nackRange := some 3 }], false) := by
    decide +kernel
  cases hs : run step (new drbConfig) [.pdu [0xb0, 2, 0, 5, 1, 2, 3, 4, 5], .reassemblyExpired] with
  | error f => simp [hs, Except.bind, Except.toOption] at hrun
  | ok s =>
    cases ht : s.refreshStatusReport with
    | error f => simp [hs, ht, Except.bind, Except.map, Except.toOption] at hrun
    | ok t =>
      simp only [hs, ht, Except.bind, Except.map, Except.toOption, Option.some.injEq, Prod.mk.injEq,
        decide_eq_false_iff_not] at hrun
      obtain ⟨hnacks, hreach⟩ := hrun
      have husable := h drbConfig _ s t 15 hs ht (by decide)
      apply hreach
      have hbefore := husable.before { nackSn := 0, so := some ⟨0, 4⟩, nackRange := some 3 }
        (by rw [hnacks]; exact List.mem_singleton_self _) 2 (by decide)
      exact hbefore

/-- A report has the length that is announced, and is of use to the peer that reads it. -/
theorem report_read_back (cfg : RlcRxAmConfig) (es : List RxEvent) (hrun : run step (new cfg) es = .ok s)
    (hok : s.refreshStatusReport = .ok t) :
    t.getStatusPdu.1.pack.length = t.getStatusPduLength ∧
      ∃ report, RlcAmStatusPdu.unpack s.cfg.snFieldLength t.getStatusPdu.1.pack = .ok (some report) ∧
        Usable s report t.getStatusPduLength (true, report) := by
  obtain ⟨r, hs, nh, hrep⟩ := run_reporting hrun
  obtain ⟨-, -, hack, hreport⟩ := hrep.refreshStatusReport hok
  have hsize : t.getStatusPduLength = t.statusForExchange.packedSize := by
    rw [hrep.inv.toWindowAt.refreshStatusReport_eq] at hok
    obtain ⟨status, -, rfl⟩ := map_eq_ok.mp hok
    rfl
  have hread := hreport.built.unpack_pack (by rw [hreport.snSize]; exact hack)
  rw [hreport.snSize] at hread
  rw [hsize]
  exact ⟨RlcAmStatusPdu.pack_length hreport.built.sized, _, hread,
    hreport.usable_whole rfl (Nat.mod_lt _ mod_pos) (Nat.le_refl _)⟩

theorem report_read_back_one : ∃ s t, run step (new drbConfig) [.pdu [0x80, 1, 7], .reassemblyExpired] = .ok s ∧
    s.refreshStatusReport = .ok t ∧ t.getStatusPdu.1.pack.length = t.getStatusPduLength := by
  obtain ⟨t, ht⟩ := exists_of_isOk (r := run step (new drbConfig) [.pdu [0x80, 1, 7], .reassemblyExpired] >>= fun s =>
    s.refreshStatusReport) (by decide +kernel)
  obtain ⟨s, hs, hok⟩ := bind_eq_ok.mp ht
  exact ⟨s, t, hs, hok, (report_read_back drbConfig _ hs hok).1⟩

end RlcRxAmEntity

end Ocudu.Rlc
