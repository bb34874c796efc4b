import Ocudu.Ofh.BfpCompression
import Mathlib.Order.Bounds.Basic

/-! The exponents that are least, and the samples that come back from their fields. -/

namespace Ocudu.Ofh

open BitCodec

section Exponent

variable {w x k e : Nat}

def Suffices (w x : Nat) : Set Nat := {e | x < 2 ^ (w - 1 + e)}

theorem isLeast_of_bits (hw : 1 ≤ w) (hlow : 2 ^ k ≤ x) (hhigh : x < 2 ^ (k + 1)) :
    IsLeast (Suffices w x) (k + 2 - w) := by
  constructor
  · exact hhigh.trans_le (Nat.pow_le_pow_right (by decide) (by omega))
  · intro e (he : x < 2 ^ (w - 1 + e))
    have hlt := (Nat.pow_lt_pow_iff_right (a := 2) (by decide)).mp (hlow.trans_lt he)
    omega

theorem isLeast_zero : IsLeast (Suffices w 0) 0 :=
  ⟨(by positivity : 0 < 2 ^ (w - 1 + 0)), fun _ _ => Nat.zero_le _⟩

theorem isLeast_pred_pow (hw : 1 ≤ w) (k : Nat) : IsLeast (Suffices w (2 ^ k - 1)) (k + 1 - w) := by
  cases k with
  | zero =>
    rw [show 0 + 1 - w = 0 by omega]
    exact isLeast_zero
  | succ k =>
    have hpow := Nat.pow_succ 2 k
    have hpos : 0 < 2 ^ k := by positivity
    exact isLeast_of_bits hw (by omega) (by omega)

theorem determineExponent_of_lt (hw : 1 ≤ w) (hle : w ≤ 16) (hx : x < 2 ^ 15) :
    determineExponent x w = .ok (if x = 0 then 0 else Nat.log 2 x + 2 - w) := by
  rw [determineExponent, if_neg (by omega)]
  dsimp only
  by_cases hzero : x = 0
  · rw [if_pos hzero, if_neg (by omega), Nat.min_self, Nat.sub_self]
  · have hlog : Nat.log 2 x < 15 := Nat.log_lt_of_lt_pow hzero hx
    rw [if_neg hzero, leadingZeros, Nat.log2_eq_log_two]
    congr 1
    split_ifs <;> lia

theorem determineExponent_top (hw : 1 ≤ w) (hle : w ≤ 16) : determineExponent (2 ^ 15) w = .ok 0 := by
  have hzeros : leadingZeros (2 ^ 15) = 2 ^ 32 - 1 := by decide +kernel
  rw [determineExponent, if_neg (by omega)]
  dsimp only
  rw [hzeros]
  congr 1
  split_ifs <;> omega

end Exponent

section Samples

variable {w e : Nat} {samples : List Int} {greatest least : Int}

/-- The bound that decides which exponents suffice for samples between these two. -/
def needed (greatest least : Int) : Nat := (max greatest (-least - 1)).toNat

theorem fits_shift_iff (s : Int) (e : Nat) :
    Fits w (s >>> e) ↔ -2 ^ (w - 1 + e) ≤ s ∧ s < 2 ^ (w - 1 + e) := by
  rw [Fits, Int.shiftRight_eq_div_pow]
  push_cast
  rw [Int.le_ediv_iff_mul_le (by positivity), Int.ediv_lt_iff_lt_mul (by positivity), Int.neg_mul, ← pow_add]

theorem all_fit_iff (hgreatest : greatest ∈ samples) (hleast : least ∈ samples)
    (hmax : ∀ s ∈ samples, s ≤ greatest) (hmin : ∀ s ∈ samples, least ≤ s) (e : Nat) :
    (∀ s ∈ samples, Fits w (s >>> e)) ↔ e ∈ Suffices w (needed greatest least) := by
  have hcast : ((2 ^ (w - 1 + e) : Nat) : Int) = 2 ^ (w - 1 + e) := by push_cast; rfl
  have hpos : 0 < 2 ^ (w - 1 + e) := by positivity
  show _ ↔ needed greatest least < 2 ^ (w - 1 + e)
  constructor
  · intro h
    have hg := (fits_shift_iff _ _).mp (h greatest hgreatest)
    have hl := (fits_shift_iff _ _).mp (h least hleast)
    rw [needed]
    omega
  · intro h s hs
    have hg := hmax s hs
    have hl := hmin s hs
    rw [needed] at h
    rw [fits_shift_iff]
    omega

abbrev AllPow (w : Nat) (samples : List Int) : Prop := w < 16 ∧ ∃ k, w ≤ k + 1 ∧ ∀ s ∈ samples, s = -2 ^ k

theorem exponent_isLeast_pow (hw : 1 ≤ w) (hle : w ≤ 16) {k : Nat} (hk : k ≤ 15) :
    ∃ e, determineExponent (2 ^ k) w = .ok e ∧
      (IsLeast (Suffices w (2 ^ k - 1)) e ↔ ¬(w < 16 ∧ w ≤ k + 1)) := by
  have hleast := isLeast_pred_pow hw k
  rcases Nat.lt_or_eq_of_le hk with hlt | rfl
  · refine ⟨_, determineExponent_of_lt hw hle (Nat.pow_lt_pow_right (by decide) hlt), ?_⟩
    rw [if_neg (by positivity), Nat.log_pow (by decide)]
    constructor
    · intro h
      have heq := h.unique hleast
      omega
    · intro h
      rwa [show k + 2 - w = k + 1 - w by omega]
  · refine ⟨0, determineExponent_top hw hle, ?_⟩
    constructor
    · intro h
      have heq := h.unique hleast
      omega
    · intro h
      rwa [show 0 = 15 + 1 - w by omega]

theorem exponent_isLeast_of_not_pow (hw : 1 ≤ w) (hle : w ≤ 16) {y : Nat} (hpos : y ≠ 0) (hy : y ≤ 2 ^ 15)
    (hnot : ∀ k, y ≠ 2 ^ k) : ∃ e, determineExponent y w = .ok e ∧ IsLeast (Suffices w (y - 1)) e := by
  have hlow := (Nat.pow_log_le_self 2 hpos).lt_of_ne (hnot _).symm
  have hhigh := Nat.lt_pow_succ_log_self (b := 2) (by decide) y
  refine ⟨_, determineExponent_of_lt hw hle (hy.lt_of_ne (hnot 15)), ?_⟩
  rw [if_neg hpos]
  exact isLeast_of_bits hw (by omega) (by omega)

theorem exponent_isLeast_iff (hw : 1 ≤ w) (hle : w ≤ 16) (hgreatest : greatest ∈ samples) (hleast : least ∈ samples)
    (hmax : ∀ s ∈ samples, s ≤ greatest) (hmin : ∀ s ∈ samples, least ≤ s)
    (hrange : ∀ s ∈ samples, -2 ^ 15 ≤ s ∧ s < 2 ^ 15) : ∃ e, determineExponent (maxAbs greatest least) w = .ok e ∧
      (IsLeast (Suffices w (needed greatest least)) e ↔ ¬AllPow w samples) := by
  have hg := hrange greatest hgreatest
  have hl := hrange least hleast
  have horder := hmin greatest hgreatest
  by_cases hequal : greatest < 0 ∧ greatest = least
  · obtain ⟨hneg, rfl⟩ := hequal
    obtain ⟨y, hy⟩ : ∃ y : Nat, greatest = -(y : Int) := ⟨greatest.natAbs, by omega⟩
    have hx : maxAbs greatest greatest = y := by
      rw [maxAbs]
      omega
    have hx' : needed greatest greatest = y - 1 := by
      rw [needed]
      omega
    rw [hx, hx']
    by_cases hpow : ∃ k, y = 2 ^ k
    · obtain ⟨k, rfl⟩ := hpow
      have hk : k ≤ 15 := (Nat.pow_le_pow_iff_right (a := 2) (by decide)).mp (by omega)
      obtain ⟨e, hexponent, hiff⟩ := exponent_isLeast_pow hw hle hk
      refine ⟨e, hexponent, hiff.trans (not_congr (and_congr_right fun _ => ?_))⟩
      constructor
      · refine fun hwide => ⟨k, hwide, fun s hs => ?_⟩
        have hlow := hmin s hs
        have hhigh := hmax s hs
        push_cast at hy
        omega
      · rintro ⟨k', hwide, hall⟩
        have heq := hall greatest hgreatest
        rw [hy] at heq
        have hsame : 2 ^ k = 2 ^ k' := by exact_mod_cast neg_injective heq
        rwa [Nat.pow_right_injective le_rfl hsame]
    · push Not at hpow
      obtain ⟨e, hexponent, hisLeast⟩ := exponent_isLeast_of_not_pow hw hle (by omega) (by omega) hpow
      refine ⟨e, hexponent, iff_of_true hisLeast ?_⟩
      rintro ⟨-, k, -, hall⟩
      have heq := hall greatest hgreatest
      rw [hy] at heq
      exact hpow k (by exact_mod_cast neg_injective heq)
  · have hx : maxAbs greatest least = needed greatest least := by
      rw [maxAbs, needed]
      lia
    have hlt : needed greatest least < 2 ^ 15 := by
      rw [needed]
      omega
    have hnot : ¬AllPow w samples := by
      rintro ⟨-, k, -, hk⟩
      have hpos : (0 : Int) < 2 ^ k := by positivity
      have h₁ := hk greatest hgreatest
      have h₂ := hk least hleast
      omega
    rw [hx]
    refine ⟨_, determineExponent_of_lt hw hle hlt, iff_of_true ?_ hnot⟩
    split_ifs with hzero
    · rw [hzero]
      exact isLeast_zero
    · exact isLeast_of_bits hw (Nat.pow_log_le_self 2 hzero) (Nat.lt_pow_succ_log_self (by decide) _)

/-- A negative sample has a field shorter than a byte packed with bits of its sign beyond the field. -/
theorem packable_iff {c : Int} (hw : 1 ≤ w) (h : Fits w c) : Packable w c ↔ 8 ≤ w ∨ 0 ≤ c := by
  rcases Nat.lt_trichotomy w 8 with hshort | rfl | hlong
  · have hlow := h.1
    have hhigh := h.2
    have hpow : (2 : Int) ^ (w - 1) ≤ 2 ^ 6 := pow_le_pow_right₀ (by decide) (by omega)
    have hwhole : (2 : Int) ^ (w - 1) ≤ 2 ^ w := pow_le_pow_right₀ (by decide) (by omega)
    have hfield : (2 : Int) ^ w ≤ 2 ^ 7 := pow_le_pow_right₀ (by decide) (by omega)
    have hcast : ((2 ^ w : Nat) : Int) = 2 ^ w := by push_cast; rfl
    rw [Packable, or_iff_right (by omega), or_iff_right (by omega)]
    omega
  · exact iff_of_true (.inr (by omega)) (.inl le_rfl)
  · exact iff_of_true (.inl hlong) (.inl hlong.le)

theorem forall_packable_iff (hw : 1 ≤ w) (h : ∀ s ∈ samples, Fits w (s >>> e)) :
    (∀ c ∈ samples.map fun s : Int => s >>> e, Packable w c) ↔ 8 ≤ w ∨ ∀ s ∈ samples, 0 ≤ s := by
  have hsign (s : Int) : 0 ≤ s >>> e ↔ 0 ≤ s := by
    rw [Int.shiftRight_eq_div_pow]
    exact Int.ediv_nonneg_iff_of_pos (by positivity)
  rw [List.forall_mem_map, or_iff_not_imp_left]
  constructor
  · intro hall hshort s hs
    exact (hsign s).mp (((packable_iff hw (h s hs)).mp (hall s hs)).resolve_left hshort)
  · intro hall s hs
    refine (packable_iff hw (h s hs)).mpr ?_
    rw [or_iff_not_imp_left]
    exact fun hshort => (hsign s).mpr (hall hshort s hs)

end Samples

section Exact

variable {buffer : List Bool} {samples : List Int} {w : Nat}

/-- The exponent is the least that suffices, and every sample, shifted by it, comes back from its field. -/
def CompressesExactly (buffer : List Bool) (samples : List Int) (w : Nat) : Prop :=
  ∃ e out, compressPrbGeneric buffer samples w = .ok (e, out) ∧ IsLeast {e : Nat | ∀ s ∈ samples, Fits w (s >>> e)} e ∧
    ∀ k (hk : k < samples.length),
      (unpackBits out (k * w) w).map (signExtend w) = .ok (samples.get ⟨k, hk⟩ >>> e)

def mantissa (bits : List Bool) (w i : Nat) : Int := toSigned w (ofBits ((bits.drop (i * w)).take w))

def DecompressesExactly (undef : Nat → Int) (exponent : UInt8) (bits : List Bool) (w : Nat) : Prop :=
  decompressPrbGeneric undef exponent bits w = .ok ((List.range 24).map fun i => mantissa bits w i * 2 ^ exponent.toNat)

theorem compressesExactly_iff (hlen : samples.length = 24) (hrange : ∀ s ∈ samples, -2 ^ 15 ≤ s ∧ s < 2 ^ 15)
    (hw : 1 ≤ w) (hle : w ≤ 16) (hroom : 24 * w ≤ buffer.length) :
    CompressesExactly buffer samples w ↔ (8 ≤ w ∨ ∀ s ∈ samples, 0 ≤ s) ∧ ¬AllPow w samples := by
  have hne : samples ≠ [] := fun hnil => by
    rw [hnil] at hlen
    cases hlen
  obtain ⟨greatest, hgreatest⟩ := Option.isSome_iff_exists.mp (List.isSome_max?_of_ne_nil hne)
  obtain ⟨least, hleast⟩ := Option.isSome_iff_exists.mp (List.isSome_min?_of_ne_nil hne)
  obtain ⟨hgmem, hmax⟩ := List.max?_eq_some_iff.mp hgreatest
  obtain ⟨hlmem, hmin⟩ := List.min?_eq_some_iff.mp hleast
  obtain ⟨e, hexponent, hiff⟩ := exponent_isLeast_iff hw hle hgmem hlmem hmax hmin hrange
  have hset : {e : Nat | ∀ s ∈ samples, Fits w (s >>> e)} = Suffices w (needed greatest least) := by
    ext e
    exact all_fit_iff hgmem hlmem hmax hmin e
  have hcompress : compressPrbGeneric buffer samples w =
      (packBytes buffer (samples.map fun s : Int => s >>> e) w).map fun out => (e, out) := by
    rw [compressPrbGeneric, hgreatest, hleast]
    dsimp only [Option.getD_some]
    rw [hexponent, ok_bind]
    cases packBytes buffer (samples.map fun s : Int => s >>> e) w <;> rfl
  have hnone : (0 + (samples.map fun s : Int => s >>> e).length * w) % 8 = 0 := by
    rw [List.length_map, hlen]
    omega
  rw [← hiff]
  constructor
  · rintro ⟨e', out, hout, hisLeast, -⟩
    rw [hcompress] at hout
    obtain ⟨out', hpack, heq⟩ := map_eq_ok.mp hout
    cases heq
    rw [packBytes] at hpack
    obtain ⟨packed, hfold, -⟩ := bind_eq_ok.mp hpack
    exact ⟨(forall_packable_iff hw hisLeast.1).mp (packFold_packable hw hfold), hset ▸ hisLeast⟩
  · rintro ⟨hsign, hisLeast⟩
    rw [← hset] at hisLeast
    have hpackable := (forall_packable_iff hw hisLeast.1).mpr hsign
    have hfit : 0 + (samples.map fun s : Int => s >>> e).length * w ≤ buffer.length := by
      rw [List.length_map, hlen]
      omega
    have hfold := packFold_ok hw hle (samples.map fun s : Int => s >>> e) hfit hpackable
    have hpack : packBytes buffer (samples.map fun s : Int => s >>> e) w =
        .ok (written buffer 0 ((samples.map fun s : Int => s >>> e).flatMap (field w))) := by
      rw [packBytes, hfold, ok_bind]
      exact if_neg (not_not.mpr hnone)
    refine ⟨e, _, by rw [hcompress, hpack]; rfl, hisLeast, fun k hk => ?_⟩
    have hkmap : k < (samples.map fun s : Int => s >>> e).length := by rwa [List.length_map]
    have hfieldsLen : ((samples.map fun s : Int => s >>> e).flatMap (field w)).length = 24 * w := by
      rw [length_fields, List.length_map, hlen]
    have hkroom : k * w + w ≤ 24 * w := by
      rw [← Nat.succ_mul]
      exact Nat.mul_le_mul_right w (by omega)
    rw [unpack_signExtend hw hle (by rw [length_written (by omega)]; omega), drop_take_written hkmap,
      toSigned_field hw]
    · rw [List.get_eq_getElem, List.getElem_map, List.get_eq_getElem]
    · rw [List.get_eq_getElem, List.getElem_map]
      exact hisLeast.1 _ (List.getElem_mem hk)

theorem mapM_ok {α β : Type} {f : α → Except BfpFault β} {g : α → β} {l : List α} (h : ∀ a ∈ l, f a = .ok (g a)) :
    l.mapM f = .ok (l.map g) := by
  induction l with
  | nil => rfl
  | cons a l ih =>
    rw [List.mapM_cons, h a List.mem_cons_self, ok_bind, ih fun a' ha' => h a' (List.mem_cons_of_mem a ha')]
    rfl

theorem decompressPrbGeneric_eq (undef : Nat → Int) (exponent : UInt8) (hw : 1 ≤ w) (hle : w ≤ 16)
    (hroom : 24 * w ≤ buffer.length) : decompressPrbGeneric undef exponent buffer w =
      .ok ((List.range 24).map fun i => mantissa buffer w i * scaler undef exponent.toNat) := by
  refine mapM_ok fun i hi => ?_
  have hi24 := List.mem_range.mp hi
  have hfield : i * w + w ≤ 24 * w := by
    rw [← Nat.succ_mul]
    exact Nat.mul_le_mul_right w (by omega)
  have hunpack := unpack_signExtend hw hle (show i * w + w ≤ buffer.length by omega)
  obtain ⟨value, hvalue, hsigned⟩ := map_eq_ok.mp hunpack
  rw [hvalue, mantissa, ← hsigned]
  rfl

theorem scaler_exact_iff (undef : Nat → Int) (e : Nat) (m : Int)
    (hlow : -2 ^ 15 ≤ m * 2 ^ e) (hhigh : m * 2 ^ e < 2 ^ 15) :
    m * scaler undef e = m * 2 ^ e ↔ ¬(e = 15 ∧ m = -1) := by
  rcases Nat.lt_trichotomy e 15 with hlt | rfl | hgt
  · have hscaler : scaler undef e = 2 ^ e := by
      rw [scaler, if_pos (by omega), int16_wrap_eq]
      have hpow : (2 : Int) ^ e ≤ 2 ^ 14 := pow_le_pow_right₀ (by decide) (by omega)
      have hpos : (0 : Int) < 2 ^ e := by positivity
      omega
    rw [hscaler]
    exact iff_of_true rfl (by omega)
  · have hscaler : scaler undef 15 = -2 ^ 15 := by
      rw [scaler, if_pos (by decide), int16_wrap_eq]
      decide
    rw [hscaler]
    omega
  · have hzero : m = 0 := by
      have hpow : (2 : Int) ^ 16 ≤ 2 ^ e := pow_le_pow_right₀ (by decide) (by omega)
      by_contra hne
      rcases lt_or_gt_of_ne hne with hneg | hpos
      · have hmul : m * 2 ^ e ≤ -1 * 2 ^ e := Int.mul_le_mul_of_nonneg_right (by omega) (by positivity)
        omega
      · have hmul : 1 * 2 ^ e ≤ m * 2 ^ e := Int.mul_le_mul_of_nonneg_right (by omega) (by positivity)
        omega
    rw [hzero, Int.zero_mul, Int.zero_mul]
    exact iff_of_true rfl (by omega)

theorem decompressesExactly_iff (undef : Nat → Int) (exponent : UInt8) (hw : 1 ≤ w) (hle : w ≤ 16)
    (hroom : 24 * w ≤ buffer.length)
    (hfits : ∀ i < 24, -2 ^ 15 ≤ mantissa buffer w i * 2 ^ exponent.toNat ∧
      mantissa buffer w i * 2 ^ exponent.toNat < 2 ^ 15) :
    DecompressesExactly undef exponent buffer w ↔ ¬(exponent = 15 ∧ ∃ i < 24, mantissa buffer w i = -1) := by
  have h15 : exponent.toNat = 15 ↔ exponent = 15 := UInt8.toNat_inj (b := 15)
  rw [DecompressesExactly, decompressPrbGeneric_eq undef exponent hw hle hroom, Except.ok.injEq, List.map_inj_left]
  constructor
  · rintro h ⟨he, i, hi, hm⟩
    exact (scaler_exact_iff undef _ _ (hfits i hi).1 (hfits i hi).2).mp (h i (List.mem_range.mpr hi)) ⟨h15.mpr he, hm⟩
  · intro h i hi
    have hi24 := List.mem_range.mp hi
    exact (scaler_exact_iff undef _ _ (hfits i hi24).1 (hfits i hi24).2).mpr fun hbad =>
      h ⟨h15.mp hbad.1, i, hi24, hbad.2⟩

/-- Compression is exact unless a negative sample has to go into less than a byte, or all samples are the same negative
power of two that needs a shift; decompression, unless the exponent is 15 and a mantissa is `-1`. -/
theorem bfp_exact_iff (buffer : List Bool) (samples : List Int) (w : Nat) (hlen : samples.length = 24)
    (hrange : ∀ s ∈ samples, -2 ^ 15 ≤ s ∧ s < 2 ^ 15) (hw : 1 ≤ w) (hle : w ≤ 16) (hroom : 24 * w ≤ buffer.length)
    (undef : Nat → Int) (exponent : UInt8) (hfits : ∀ i < 24, -2 ^ 15 ≤ mantissa buffer w i * 2 ^ exponent.toNat ∧
      mantissa buffer w i * 2 ^ exponent.toNat < 2 ^ 15) :
    (CompressesExactly buffer samples w ↔ (8 ≤ w ∨ ∀ s ∈ samples, 0 ≤ s) ∧ ¬AllPow w samples) ∧
      (DecompressesExactly undef exponent buffer w ↔ ¬(exponent = 15 ∧ ∃ i < 24, mantissa buffer w i = -1)) :=
  ⟨compressesExactly_iff hlen hrange hw hle hroom, decompressesExactly_iff undef exponent hw hle hroom hfits⟩

@[simp] theorem mantissa_zeros (n w i : Nat) : mantissa (List.replicate n false) w i = 0 := by
  have hzero : ofBits (((List.replicate n false).drop (i * w)).take w) = 0 :=
    ofBits_eq_zero.mpr fun b hb => List.eq_of_mem_replicate (List.mem_of_mem_drop (List.mem_of_mem_take hb))
  rw [mantissa, hzero, toSigned, if_pos (by positivity)]
  rfl

theorem bfp_exact_iff_small :
    (CompressesExactly (List.replicate 216 false) (List.replicate 24 1000) 9 ↔
      (8 ≤ 9 ∨ ∀ s ∈ List.replicate 24 (1000 : Int), 0 ≤ s) ∧ ¬AllPow 9 (List.replicate 24 1000)) ∧
    (DecompressesExactly (fun _ => 0) 3 (List.replicate 216 false) 9 ↔
      ¬((3 : UInt8) = 15 ∧ ∃ i < 24, mantissa (List.replicate 216 false) 9 i = -1)) :=
  bfp_exact_iff (List.replicate 216 false) (List.replicate 24 1000) 9 List.length_replicate
    (fun s hs => by rw [List.eq_of_mem_replicate hs]; decide) (by decide) (by decide)
    (Nat.le_of_eq List.length_replicate.symm) (fun _ => 0) 3
    (fun i _ => by rw [mantissa_zeros]; decide)

theorem all_least_samples : ¬ CompressesExactly (List.replicate 216 false) (List.replicate 24 (-32768)) 9 := by
  have hall : AllPow 9 (List.replicate 24 (-32768)) :=
    ⟨by decide, 15, by decide, fun s hs => by rw [List.eq_of_mem_replicate hs]; rfl⟩
  have hroom : 24 * 9 ≤ (List.replicate 216 false).length := Nat.le_of_eq List.length_replicate.symm
  have hrange : ∀ s ∈ List.replicate 24 (-32768 : Int), -2 ^ 15 ≤ s ∧ s < 2 ^ 15 := fun s hs => by
    rw [List.eq_of_mem_replicate hs]
    decide
  have hiff := compressesExactly_iff List.length_replicate hrange (by decide) (by decide) hroom
  exact fun h => (hiff.mp h).2 hall

end Exact

end Ocudu.Ofh
