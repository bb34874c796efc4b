import Mathlib.Tactic

/-! Rows of bits with a capacity, and loops that set or clear some of their bits. A failed
assertion is `none`. -/

namespace Ocudu

structure BoundedBitset (N : Nat) where
  bits : List Bool
  length_le : bits.length ≤ N

namespace BoundedBitset

variable {N : Nat}

variable (s : BoundedBitset N)

def size : Nat := s.bits.length

def bit (pos : Nat) : Bool := s.bits.getD pos false

def zeros (n : Nat) : Option (BoundedBitset N) :=
  if h : n ≤ N then some ⟨List.replicate n false, by simpa using h⟩ else none

theorem length_mapIdx_le (f : Nat → Bool → Bool) : (s.bits.mapIdx f).length ≤ N := by
  rw [List.length_mapIdx]
  exact s.length_le

def update (f : Nat → Bool → Bool) : BoundedBitset N :=
  ⟨s.bits.mapIdx f, s.length_mapIdx_le f⟩

def test (pos : Nat) : Option Bool := s.bits[pos]?

def set (pos : Nat) (value : Bool) : Option (BoundedBitset N) :=
  if pos < s.size then some (s.update fun i b => if i = pos then value else b) else none

def fill (start stop : Nat) (value : Bool) : Option (BoundedBitset N) :=
  if start ≤ stop ∧ stop ≤ s.size then
    some (s.update fun i b => if start ≤ i ∧ i < stop then value else b)
  else none

def any (start stop : Nat) : Option Bool :=
  if start ≤ stop ∧ stop ≤ s.size then some ((List.range' start (stop - start)).any s.bit) else none

def slice (M : Nat) (s : BoundedBitset N) (start stop : Nat) : Option (BoundedBitset M) :=
  (zeros (stop - start)).map fun sliced => sliced.update fun i _ => s.bit (start + i)

def or (s other : BoundedBitset N) : Option (BoundedBitset N) :=
  if s.size = other.size then some (s.update fun i b => b || other.bit i) else none

def foldAndAccumulate (M : Nat) (s : BoundedBitset N) (foldLength offset length : Nat) :
    Option (BoundedBitset M) :=
  if s.size % foldLength = 0 then
    (zeros length).bind fun ret =>
      (List.range (s.size / foldLength)).foldlM (fun ret i =>
        (slice M s (i * foldLength + offset) (i * foldLength + offset + length)).bind ret.or) ret
  else none

variable {s t : BoundedBitset N} {pos n : Nat}

@[simp] theorem size_update (f : Nat → Bool → Bool) : (s.update f).size = s.size :=
  List.length_mapIdx

theorem bit_update (f : Nat → Bool → Bool) (h : pos < s.size) : (s.update f).bit pos = f pos (s.bit pos) := by
  have hpos : pos < s.bits.length := h
  simp [update, bit, hpos]

theorem bit_of_size_le (h : s.size ≤ pos) : s.bit pos = false := by
  have hpos : s.bits.length ≤ pos := h
  simp [bit, hpos]

theorem lt_size_of_bit (h : s.bit pos = true) : pos < s.size := by
  by_contra hle
  rw [bit_of_size_le (not_lt.mp hle)] at h
  cases h

theorem test_eq (h : pos < s.size) : s.test pos = some (s.bit pos) := by
  have hpos : pos < s.bits.length := h
  simp [test, bit, hpos]

theorem exists_zeros (h : n ≤ N) :
    ∃ z : BoundedBitset N, zeros n = some z ∧ z.size = n ∧ ∀ pos, z.bit pos = false := by
  refine ⟨_, dif_pos h, List.length_replicate, fun pos => ?_⟩
  rcases lt_or_ge pos n with hpos | hpos
  · simp [bit, hpos]
  · simp [bit, hpos]

theorem exists_any {start stop : Nat} (h : start ≤ stop) (hstop : stop ≤ s.size) :
    ∃ b, s.any start stop = some b ∧ (b = true ↔ ∃ pos, start ≤ pos ∧ pos < stop ∧ s.bit pos = true) := by
  refine ⟨_, if_pos ⟨h, hstop⟩, ?_⟩
  rw [List.any_eq_true]
  constructor
  · rintro ⟨pos, hpos, hbit⟩
    rw [List.mem_range'_1] at hpos
    exact ⟨pos, hpos.1, by omega, hbit⟩
  · rintro ⟨pos, hstart, hlt, hbit⟩
    exact ⟨pos, List.mem_range'_1.mpr ⟨hstart, by omega⟩, hbit⟩

theorem exists_slice {M start stop : Nat} (h : stop - start ≤ M) :
    ∃ r, slice M s start stop = some r ∧ r.size = stop - start ∧
      ∀ pos < stop - start, r.bit pos = s.bit (start + pos) := by
  obtain ⟨z, hz, hsize, -⟩ := exists_zeros h
  refine ⟨_, by rw [slice, hz, Option.map_some], ?_, fun pos hpos => ?_⟩
  · rw [size_update, hsize]
  · rw [bit_update _ (hsize ▸ hpos)]

def Paints (n : Nat) (value : Bool) (region : Nat → Prop)
    (f : BoundedBitset N → Option (BoundedBitset N)) : Prop :=
  ∀ s : BoundedBitset N, s.size = n → ∃ t, f s = some t ∧ t.size = n ∧
    ∀ pos, (region pos → t.bit pos = value) ∧ (¬region pos → t.bit pos = s.bit pos)

theorem Paints.congr {v : Bool} {region region' : Nat → Prop}
    {f : BoundedBitset N → Option (BoundedBitset N)} (h : Paints n v region f)
    (hregion : ∀ pos, region pos ↔ region' pos) : Paints n v region' f := by
  intro s hs
  obtain ⟨t, ht, hsize, hbits⟩ := h s hs
  exact ⟨t, ht, hsize, fun pos => ⟨fun hr => (hbits pos).1 ((hregion pos).2 hr),
    fun hr => (hbits pos).2 fun hr' => hr ((hregion pos).1 hr')⟩⟩

theorem Paints.foldlM {ι : Type*} {v : Bool} {region : ι → Nat → Prop}
    {f : BoundedBitset N → ι → Option (BoundedBitset N)} (l : List ι)
    (h : ∀ i ∈ l, Paints n v (region i) fun s => f s i) :
    Paints n v (fun pos => ∃ i ∈ l, region i pos) fun s => l.foldlM f s := by
  induction l with
  | nil =>
    intro s hs
    exact ⟨s, rfl, hs, fun pos => ⟨fun ⟨i, hi, _⟩ => absurd hi List.not_mem_nil, fun _ => rfl⟩⟩
  | cons i l ih =>
    intro s hs
    obtain ⟨t, (ht : f s i = some t), hsize, hbits⟩ := h i List.mem_cons_self s hs
    obtain ⟨u, hu, husize, hubits⟩ := ih (fun j hj => h j (List.mem_cons_of_mem _ hj)) t hsize
    refine ⟨u, ?_, husize, fun pos => ⟨?_, fun hnot => ?_⟩⟩
    · change (f s i >>= fun s' => l.foldlM f s') = some u
      rw [ht]
      exact hu
    · rintro ⟨j, hj, hr⟩
      by_cases hlater : ∃ j ∈ l, region j pos
      · exact (hubits pos).1 hlater
      · rw [(hubits pos).2 hlater]
        rcases List.mem_cons.mp hj with rfl | hj
        · exact (hbits pos).1 hr
        · exact absurd ⟨j, hj, hr⟩ hlater
    · rw [(hubits pos).2 fun ⟨j, hj, hr⟩ => hnot ⟨j, List.mem_cons_of_mem _ hj, hr⟩]
      exact (hbits pos).2 fun hr => hnot ⟨i, List.mem_cons_self, hr⟩

theorem paints_set (value : Bool) (h : pos < n) :
    Paints n value (fun i => i = pos) fun s : BoundedBitset N => s.set pos value := by
  intro s hs
  refine ⟨_, if_pos (hs ▸ h), by rw [size_update, hs], fun i => ⟨?_, fun hne => ?_⟩⟩
  · rintro rfl
    rw [bit_update _ (hs ▸ h), if_pos rfl]
  · rcases lt_or_ge i s.size with hi | hi
    · rw [bit_update _ hi, if_neg hne]
    · rw [bit_of_size_le (by rwa [size_update]), bit_of_size_le hi]

theorem paints_fill (value : Bool) {start stop : Nat} (h : start ≤ stop) (hstop : stop ≤ n) :
    Paints n value (fun i => start ≤ i ∧ i < stop) fun s : BoundedBitset N => s.fill start stop value := by
  intro s hs
  refine ⟨_, if_pos ⟨h, hs ▸ hstop⟩, by rw [size_update, hs], fun i => ⟨fun hin => ?_, fun hout => ?_⟩⟩
  · rw [bit_update _ (by omega), if_pos hin]
  · rcases lt_or_ge i s.size with hi | hi
    · rw [bit_update _ hi, if_neg hout]
    · rw [bit_of_size_le (by rwa [size_update]), bit_of_size_le hi]

theorem paints_or {other : BoundedBitset N} (h : other.size = n) :
    Paints n true (fun i => other.bit i = true) fun s => s.or other := by
  intro s hs
  refine ⟨_, if_pos (hs.trans h.symm), by rw [size_update, hs], fun i => ⟨fun hin => ?_, fun hout => ?_⟩⟩
  · rw [bit_update _ (hs.trans h.symm ▸ lt_size_of_bit hin), hin, Bool.or_true]
  · rcases lt_or_ge i s.size with hi | hi
    · rw [bit_update _ hi, Bool.eq_false_iff.mpr hout, Bool.or_false]
    · rw [bit_of_size_le (by rwa [size_update]), bit_of_size_le hi]

theorem exists_anyM {ι : Type} {P : ι → Prop} {f : ι → Option Bool} (l : List ι)
    (h : ∀ i ∈ l, ∃ b, f i = some b ∧ (b = true ↔ P i)) :
    ∃ b, l.anyM f = some b ∧ (b = true ↔ ∃ i ∈ l, P i) := by
  induction l with
  | nil => exact ⟨false, rfl, by simp⟩
  | cons i l ih =>
    obtain ⟨b, hb, hbP⟩ := h i List.mem_cons_self
    obtain ⟨b', hb', hbP'⟩ := ih fun j hj => h j (List.mem_cons_of_mem _ hj)
    simp only [List.exists_mem_cons_iff]
    cases b with
    | true => exact ⟨true, by simp [List.anyM, hb], by simp [← hbP]⟩
    | false => exact ⟨b', by simp [List.anyM, hb, hb'], by simp [← hbP, hbP']⟩

theorem forall_of_foldlM {ι σ : Type*} {p : ι → Prop} [DecidablePred p] {f : σ → ι → Option σ} {l : List ι}
    {s t : σ} (h : l.foldlM (fun s i => if p i then f s i else none) s = some t) : ∀ i ∈ l, p i := by
  induction l generalizing s with
  | nil => exact fun i hi => absurd hi List.not_mem_nil
  | cons j l ih =>
    obtain ⟨u, hu, hrest⟩ := Option.bind_eq_some_iff.mp (List.foldlM_cons.symm.trans h)
    split_ifs at hu with hj
    intro i hi
    rcases List.mem_cons.mp hi with rfl | hi
    · exact hj
    · exact ih hrest i hi

theorem exists_foldAndAccumulate {M rows width : Nat} (offset length : Nat) (hsize : s.size = rows * width)
    (hwidth : 0 < width) (hlength : length ≤ M) :
    ∃ r, foldAndAccumulate M s width offset length = some r ∧ r.size = length ∧
      ∀ pos < length, r.bit pos = true ↔ ∃ row < rows, s.bit (row * width + offset + pos) = true := by
  obtain ⟨z, hz, hzsize, hzbit⟩ := exists_zeros (N := M) hlength
  have hpaints : Paints length true (fun pos => ∃ row ∈ List.range rows,
      pos < length ∧ s.bit (row * width + offset + pos) = true) fun ret : BoundedBitset M =>
      (List.range rows).foldlM (fun ret i =>
        (slice M s (i * width + offset) (i * width + offset + length)).bind ret.or) ret := by
    refine Paints.foldlM _ fun row _ => ?_
    have hlen : row * width + offset + length - (row * width + offset) = length := by omega
    obtain ⟨r, hr, hrsize, hrbit⟩ := exists_slice (s := s) (M := M) (hlen.trans_le hlength)
    rw [hlen] at hrsize hrbit
    simp only [hr, Option.bind_some]
    refine (paints_or hrsize).congr fun pos => ?_
    constructor
    · intro hbit
      have hpos : pos < length := hrsize ▸ lt_size_of_bit hbit
      exact ⟨hpos, hrbit pos hpos ▸ hbit⟩
    · rintro ⟨hpos, hbit⟩
      rwa [hrbit pos hpos]
  obtain ⟨r, hr, hrsize, hrbit⟩ := hpaints z hzsize
  refine ⟨r, ?_, hrsize, fun pos hpos => ?_⟩
  · rw [foldAndAccumulate, if_pos (by rw [hsize, Nat.mul_mod_left]), hz, Option.bind_some, hsize,
      Nat.mul_div_cancel _ hwidth]
    exact hr
  · by_cases hex : ∃ row ∈ List.range rows, pos < length ∧ s.bit (row * width + offset + pos) = true
    · refine iff_of_true ((hrbit pos).1 hex) ?_
      obtain ⟨row, hrow, -, hbit⟩ := hex
      exact ⟨row, List.mem_range.mp hrow, hbit⟩
    · rw [(hrbit pos).2 hex, hzbit]
      refine iff_of_false Bool.false_ne_true ?_
      rintro ⟨row, hrow, hbit⟩
      exact hex ⟨row, List.mem_range.mpr hrow, hpos, hbit⟩

end BoundedBitset

end Ocudu
