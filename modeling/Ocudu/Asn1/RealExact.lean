import Ocudu.Asn1.Real

/-! The floats that come back from their encoding as a REAL, and the encodings that are decoded to the number they
stand for. -/

namespace Ocudu.Asn1

open BitCodec BitReader BitWriter BitParser FloatBits

section Reading

variable {aligned : Bool} {octets : List UInt8} {n : UInt32}

def realBody (aligned : Bool) : BitParser UInt32 := fun r =>
  handleCode (unpackLength r aligned) fun len =>
    if len.1 = 0 then .ok (some (0, len.2))
    else if len.1 = 2 ∨ 10 < len.1 then .ok none
    else handleCode (times len.1 readByte len.2) fun buf =>
      .ok ((ofRealOctets buf.1).map fun n => (n, buf.2))

def ReadsAs (octets : List UInt8) (n : UInt32) : Prop :=
  octets = [] ∧ n = 0 ∨ octets ≠ [] ∧ octets.length ≠ 2 ∧ octets.length ≤ 10 ∧ ofRealOctets octets = some n

theorem realBody_accepts (h : ReadsAs octets n) (aligned : Bool) (pos : Nat) :
    AcceptsAt (realBody aligned) pos (lengthField aligned pos octets.length ++ bitsOf octets) n := by
  have hshort : octets.length < 16384 := by
    rcases h with ⟨rfl, -⟩ | ⟨-, -, hle, -⟩
    · exact (by decide : 0 < 16384)
    · omega
  intro bytes tail hpos hrest
  have htotal := congrArg List.length hrest
  rw [List.append_assoc, List.length_append, length_rest] at htotal
  rw [List.append_assoc] at hrest
  have hlen := lengthField_accepts aligned pos hshort bytes _ hpos hrest
  have hnext : rest bytes (pos + (lengthField aligned pos octets.length).length) = bitsOf octets ++ tail := by
    rw [← drop_rest, hrest, List.drop_left]
  have htimes := Accepts.times octets (fun b _ => readByte_accepts b) bytes _ tail (by omega) hnext
  rw [realBody, unpackLength_eq, hlen, List.length_append, ← Nat.add_assoc]
  dsimp only [handleCode]
  rcases h with ⟨rfl, rfl⟩ | ⟨hne, htwo, hten, hn⟩
  · rfl
  · rw [if_neg (mt List.length_eq_zero_iff.mp hne), if_neg (by omega), htimes]
    dsimp only [handleCode]
    rw [hn]
    rfl

theorem unpackUnconstrainedReal_eq (r : CbitRef) (aligned : Bool) : unpackUnconstrainedReal r aligned =
    handleCode (if aligned then CbitRef.alignValue r else .ok (some r)) (realBody aligned) := rfl

theorem unpackUnconstrainedReal_accepts (h : ReadsAs octets n) (aligned : Bool) (pos : Nat) :
    AcceptsAt (fun r => unpackUnconstrainedReal r aligned) pos (realField aligned pos octets) n := by
  cases aligned with
  | false => exact realBody_accepts h false pos
  | true =>
    have hparser : (fun r => unpackUnconstrainedReal r true) = CbitRef.align >>= fun _ => realBody true := by
      funext r
      rw [unpackUnconstrainedReal_eq, if_pos rfl, handleCode_align]
    have hbound : (pos + (alignment pos).length) % 8 = 0 := by
      rw [length_alignment]
      omega
    have hbody := realBody_accepts h true (pos + (alignment pos).length)
    rw [lengthField_aligned hbound] at hbody
    rw [hparser, realField, UnboundedOctstring.field, lengthField, if_pos rfl, List.append_assoc]
    exact (CbitRef.align_accepts pos).bind hbody

/-- A float that is packed and read again keeps its value. -/
def RealRoundTrips (aligned : Bool) (n : UInt32) : Prop :=
  ∀ w bits, w.Holds bits → ∃ w', packUnconstrainedReal w n aligned = .ok (some w') ∧ ∃ n' r',
    unpackUnconstrainedReal (at' w'.bytes bits.length) aligned = .ok (some (n', r')) ∧ value n' = value n

/-- Wherever these octets come next, they are read as a float of this value. -/
def DecodesTo (aligned : Bool) (octets : List UInt8) (q : ℚ) : Prop :=
  ∀ bytes pos tail, pos ≤ 8 * bytes.length → rest bytes pos = realField aligned pos octets ++ tail →
    ∃ n r', unpackUnconstrainedReal (at' bytes pos) aligned = .ok (some (n, r')) ∧ value n = some q

theorem realRoundTrips_iff (h : ReadsAs (realOctets n) n₁) (aligned : Bool) :
    RealRoundTrips aligned n ↔ value n₁ = value n := by
  have hfield {w : BitRef} {bits : List Bool} (hw : w.Holds bits) : ∃ w', packUnconstrainedReal w n aligned =
      .ok (some w') ∧ ∃ r', unpackUnconstrainedReal (at' w'.bytes bits.length) aligned = .ok (some (n₁, r')) := by
    obtain ⟨w', hpack, hw'⟩ := packUnconstrainedReal_field aligned n hw
    obtain ⟨zeros, hzeros⟩ := hw'.bitsOf_bytes
    have hlen := congrArg List.length hzeros
    rw [length_bitsOf, List.length_append, List.length_append] at hlen
    refine ⟨w', hpack, _, unpackUnconstrainedReal_accepts h aligned bits.length w'.bytes zeros (by omega) ?_⟩
    rw [rest, hzeros, List.append_assoc, List.drop_left]
  constructor
  · intro hround
    obtain ⟨w', hpack, r', hread⟩ := hfield (Holds.start [])
    obtain ⟨w'', hpack', n', r'', hread', hvalue⟩ := hround _ _ (Holds.start [])
    rw [hpack] at hpack'
    cases hpack'
    rw [hread] at hread'
    cases hread'
    exact hvalue
  · intro hvalue w bits hw
    obtain ⟨w', hpack, r', hread⟩ := hfield hw
    exact ⟨w', hpack, n₁, r', hread, hvalue⟩

theorem decodesTo_iff (h : ReadsAs octets n) (aligned : Bool) (q : ℚ) :
    DecodesTo aligned octets q ↔ value n = some q := by
  constructor
  · intro hdecodes
    have hshort : octets.length < 128 := by
      rcases h with ⟨rfl, -⟩ | ⟨-, -, hle, -⟩
      · exact (by decide : 0 < 128)
      · omega
    have hrest : rest (UInt8.ofNat octets.length :: octets) 0 = realField aligned 0 octets ++ [] := by
      have hlength : lengthField aligned 0 octets.length = lengthOctets octets.length := by
        cases aligned <;> rfl
      have hoctet : (UInt8.ofNat octets.length).toNat = octets.length := by
        rw [UInt8.toNat_ofNat']
        omega
      rw [realField, UnboundedOctstring.field, hlength, lengthOctets, if_pos hshort, List.append_nil, rest,
        List.drop_zero, bitsOf, List.flatMap_cons, hoctet]
      rfl
    obtain ⟨n', r', hread, hvalue⟩ := hdecodes _ 0 [] (Nat.zero_le _) hrest
    have hread' := unpackUnconstrainedReal_accepts h aligned 0 _ [] (Nat.zero_le _) hrest
    dsimp only at hread'
    rw [hread'] at hread
    cases hread
    exact hvalue
  · intro hvalue bytes pos tail hpos hrest
    exact ⟨n, _, unpackUnconstrainedReal_accepts h aligned pos bytes tail hpos hrest, hvalue⟩

end Reading

theorem zeroLsbCount_spec {width value : Nat} (hpos : value ≠ 0) (hlt : value < 2 ^ width) :
    zeroLsbCount width value < width ∧
      ∃ odd, odd % 2 = 1 ∧ value = odd * 2 ^ zeroLsbCount width value := by
  induction width generalizing value with
  | zero => omega
  | succ width ih =>
    rw [zeroLsbCount]
    by_cases hodd : value % 2 = 1
    · rw [if_pos hodd]
      exact ⟨Nat.succ_pos width, value, hodd, (Nat.mul_one value).symm⟩
    · rw [if_neg hodd]
      rw [Nat.pow_succ] at hlt
      obtain ⟨hcount, odd, hparity, heq⟩ := ih (show value / 2 ≠ 0 by omega) (by omega)
      refine ⟨Nat.succ_lt_succ hcount, odd, hparity, ?_⟩
      rw [Nat.pow_succ, ← Nat.mul_assoc, ← heq]
      omega

theorem zeroMsbCount_eq {value : Nat} (hpos : value ≠ 0) : zeroMsbCount value = 31 - Nat.log 2 value := by
  rw [zeroMsbCount, if_neg hpos, Nat.log2_eq_log_two]

theorem mantissaOf_octets (i acc mantissa : Nat) :
    (mantissaOctets i mantissa).foldl (fun mantissa b => mantissa * 2 ^ 8 + b.toNat) acc =
      acc * 2 ^ (8 * i) + mantissa % 2 ^ (8 * i) := by
  induction i generalizing acc with
  | zero => rw [mantissaOctets, List.foldl_nil, Nat.mul_zero, Nat.pow_zero, Nat.mod_one, Nat.mul_one, Nat.add_zero]
  | succ i ih =>
    have hsplit : mantissa % 2 ^ (8 * (i + 1)) =
        mantissa / 2 ^ (8 * i) % 2 ^ 8 * 2 ^ (8 * i) + mantissa % 2 ^ (8 * i) := by
      rw [Nat.mul_succ, Nat.pow_add, Nat.mod_mul, Nat.add_comm, Nat.mul_comm]
    rw [mantissaOctets, List.foldl_cons, ih, UInt8.toNat_ofNat', hsplit, Nat.mul_succ, Nat.pow_add]
    ring

/-! The fields of a built float -/

section Building

variable {s x f M : Nat} {E : Int}

theorem fields_of_parts (hs : s < 2) (hf : f < 2 ^ 23) (x : Nat) {n : UInt32}
    (hn : n = UInt32.ofNat (s * 2 ^ 31 ||| x * 2 ^ 23 % 2 ^ 32 ||| f)) :
    sign n = (s ||| x / 2 ^ 8 % 2) ∧ exponent n = x % 2 ^ 8 ∧ fraction n = f := by
  have hshift : x * 2 ^ 23 % 2 ^ 32 = x % 2 ^ 9 * 2 ^ 23 := by
    rw [show 2 ^ 32 = 2 ^ 9 * 2 ^ 23 from rfl, Nat.mul_mod_mul_right]
  have hor : (s * 2 ^ 31 ||| x % 2 ^ 9 * 2 ^ 23) = (s * 2 ^ 8 ||| x % 2 ^ 9) * 2 ^ 23 := by
    rw [← Nat.shiftLeft_eq (s * 2 ^ 8 ||| x % 2 ^ 9), Nat.shiftLeft_or_distrib, Nat.shiftLeft_eq, Nat.shiftLeft_eq,
      Nat.mul_assoc]
    rfl
  have hlow : (s * 2 ^ 8 ||| x % 2 ^ 9) % 2 ^ 8 = x % 2 ^ 8 := by
    rw [Nat.or_mod_two_pow, Nat.mul_mod_left, Nat.zero_or]
    omega
  have hhigh : (s * 2 ^ 8 ||| x % 2 ^ 9) / 2 ^ 8 = (s ||| x / 2 ^ 8 % 2) := by
    rw [← Nat.shiftRight_eq_div_pow, Nat.shiftRight_or_distrib, Nat.shiftRight_eq_div_pow, Nat.shiftRight_eq_div_pow,
      Nat.mul_div_cancel s (by decide)]
    congr 1
    omega
  have hbits : (s * 2 ^ 31 ||| x * 2 ^ 23 % 2 ^ 32 ||| f) = (s * 2 ^ 8 ||| x % 2 ^ 9) * 2 ^ 23 + f := by
    rw [hshift, hor, ← Nat.shiftLeft_eq, ← Nat.shiftLeft_add_eq_or_of_lt hf]
  have hnine : (s * 2 ^ 8 ||| x % 2 ^ 9) < 2 ^ 9 :=
    Nat.or_lt_two_pow (by omega) (Nat.mod_lt _ (by decide))
  have hnat : n.toNat = (s * 2 ^ 8 ||| x % 2 ^ 9) * 2 ^ 23 + f := by
    rw [hn, hbits, UInt32.toNat_ofNat', Nat.mod_eq_of_lt (by omega)]
  rw [sign, exponent, fraction, hnat, ← hlow, ← hhigh]
  omega

/-- The mantissa, shifted so that its first bit is the one that a float leaves out. -/
theorem shifted_mantissa (hM : M ≠ 0) (hlt : M < 2 ^ 24) : Nat.log 2 M ≤ 23 ∧ zeroMsbCount M - 8 = 23 - Nat.log 2 M ∧
    2 ^ 23 ≤ M * 2 ^ (23 - Nat.log 2 M) ∧ M * 2 ^ (23 - Nat.log 2 M) < 2 ^ 24 := by
  have hlog : Nat.log 2 M < 24 := Nat.log_lt_of_lt_pow hM hlt
  have hpow : 2 ^ Nat.log 2 M * 2 ^ (23 - Nat.log 2 M) = 2 ^ 23 := by
    rw [← Nat.pow_add, Nat.add_sub_of_le (by omega)]
  refine ⟨by omega, by rw [zeroMsbCount_eq hM]; omega, ?_, ?_⟩
  · rw [← hpow]
    exact Nat.mul_le_mul_right _ (Nat.pow_log_le_self 2 hM)
  · have hnext : M < 2 * 2 ^ Nat.log 2 M := by
      rw [← Nat.pow_succ']
      exact Nat.lt_pow_succ_log_self (by decide) M
    calc M * 2 ^ (23 - Nat.log 2 M)
      _ < 2 * 2 ^ Nat.log 2 M * 2 ^ (23 - Nat.log 2 M) := Nat.mul_lt_mul_of_pos_right hnext (by positivity)
      _ = 2 * 2 ^ 23 := by rw [Nat.mul_assoc, hpow]

theorem fields_buildFloat (hs : s < 2) (hM : M ≠ 0) (hlt : M < 2 ^ 24) (hx : 0 ≤ E + 127 + Nat.log 2 M)
    (hlow : -128 ≤ E) (hE : E ≤ 127) (hodd : M ≠ 2 ^ Nat.log 2 M) :
    sign (buildFloat s E M) = (s ||| (E + 127 + Nat.log 2 M).toNat / 2 ^ 8 % 2) ∧
      exponent (buildFloat s E M) = (E + 127 + Nat.log 2 M).toNat % 2 ^ 8 ∧
      fraction (buildFloat s E M) + 2 ^ 23 = M * 2 ^ (23 - Nat.log 2 M) := by
  obtain ⟨hlog, hzeros, hfirst, hlast⟩ := shifted_mantissa hM hlt
  have hne : M * 2 ^ (23 - Nat.log 2 M) ≠ 2 ^ 23 := by
    intro heq
    rw [← Nat.sub_add_cancel hlog, Nat.add_sub_cancel, Nat.pow_add, Nat.mul_comm] at heq
    exact hodd (Nat.eq_of_mul_eq_mul_left (by positivity) heq)
  have hfraction : M * 2 ^ (23 - Nat.log 2 M) % 2 ^ 32 % 2 ^ 23 = M * 2 ^ (23 - Nat.log 2 M) - 2 ^ 23 := by omega
  have hexponent : (((E + 127) % 2 ^ 32).toNat + (23 - (23 - Nat.log 2 M))) % 2 ^ 32 =
      (E + 127 + Nat.log 2 M).toNat := by omega
  have hbuild : buildFloat s E M = UInt32.ofNat (s * 2 ^ 31 ||| (E + 127 + Nat.log 2 M).toNat * 2 ^ 23 % 2 ^ 32 |||
      (M * 2 ^ (23 - Nat.log 2 M) - 2 ^ 23)) := by
    have hnonzero : M * 2 ^ (23 - Nat.log 2 M) - 2 ^ 23 ≠ 0 := by omega
    simp only [buildFloat, hzeros, hfraction, if_neg hnonzero, hexponent]
  obtain ⟨hsign, hexp, hfrac⟩ := fields_of_parts hs (by omega) _ hbuild
  exact ⟨hsign, hexp, by rw [hfrac]; omega⟩

theorem fields_buildFloat_pow (hs : s < 2) (hM : M = 0 ∨ M < 2 ^ 24 ∧ M = 2 ^ Nat.log 2 M) :
    sign (buildFloat s E M) = (s ||| ((E + 127) % 2 ^ 32).toNat / 2 ^ 8 % 2) ∧
      exponent (buildFloat s E M) = ((E + 127) % 2 ^ 32).toNat % 2 ^ 8 ∧ fraction (buildFloat s E M) = 0 := by
  have hfraction : M * 2 ^ (zeroMsbCount M - 8) % 2 ^ 32 % 2 ^ 23 = 0 := by
    rcases hM with rfl | ⟨hlt, hpow⟩
    · rw [Nat.zero_mul]
      rfl
    · have hM : M ≠ 0 := by
        rw [hpow]
        positivity
      obtain ⟨hlog, hzeros, -⟩ := shifted_mantissa hM hlt
      have heq : M * 2 ^ (23 - Nat.log 2 M) = 2 ^ 23 := by
        conv_lhs => rw [hpow, Nat.log_pow (by decide), ← Nat.pow_add, Nat.add_sub_of_le hlog]
      rw [hzeros, heq]
      rfl
  refine fields_of_parts hs (by decide) _ ?_
  simp only [buildFloat, hfraction, if_true]

def realNumber (s M : Nat) (E : Int) : ℚ := (-1) ^ s * (M * 2 ^ E)

def IsFloat (q : ℚ) : Prop := ∃ n, IsNormal n ∧ value n = some q

@[simp] theorem realNumber_zero (s : Nat) (E : Int) : realNumber s 0 E = 0 := by
  rw [realNumber, Nat.cast_zero, zero_mul, mul_zero]

theorem abs_realNumber (s M : Nat) (E : Int) : |realNumber s M E| = M * 2 ^ E := by
  rw [realNumber, abs_mul, abs_pow, abs_neg, abs_one, one_pow, one_mul, abs_of_nonneg (by positivity)]

theorem value_normal {n : UInt32} (h : IsNormal n) :
    value n = some (realNumber (sign n) (2 ^ 23 + fraction n) (exponent n - 150)) := by
  rw [value, if_neg (by omega), if_neg (by omega), realNumber]

theorem realNumber_shift {k : Nat} (hk : k ≤ 23) (s M : Nat) (b : Int) :
    realNumber s (M * 2 ^ (23 - k)) (b - 150) = realNumber s M (b - 127 - k) := by
  have hpow : (2 : ℚ) ^ (23 - k) * 2 ^ (b - 150) = 2 ^ (b - 127 - k) := by
    rw [← zpow_natCast, ← zpow_add₀ two_ne_zero]
    congr 1
    omega
  rw [realNumber, realNumber, Nat.cast_mul, Nat.cast_pow, Nat.cast_ofNat, mul_assoc (M : ℚ), hpow]

theorem abs_realNumber_bounds (s : Nat) (E : Int) (hM : M ≠ 0) :
    (2 : ℚ) ^ (Nat.log 2 M + E) ≤ |realNumber s M E| ∧ |realNumber s M E| < 2 ^ (Nat.log 2 M + 1 + E) := by
  have hlow : (2 : ℚ) ^ (Nat.log 2 M) ≤ M := by exact_mod_cast Nat.pow_log_le_self 2 hM
  have hhigh : (M : ℚ) < 2 ^ (Nat.log 2 M + 1) := by exact_mod_cast Nat.lt_pow_succ_log_self (by decide) M
  have hpos : (0 : ℚ) < 2 ^ E := by positivity
  rw [abs_realNumber, zpow_add₀ two_ne_zero, zpow_add₀ two_ne_zero, zpow_natCast]
  refine ⟨mul_le_mul_of_nonneg_right hlow hpos.le, mul_lt_mul_of_pos_right ?_ hpos⟩
  exact_mod_cast hhigh

theorem log_eq_of_realNumber_eq {s s' M' : Nat} {E' : Int} (hM : M ≠ 0) (hM' : M' ≠ 0)
    (h : realNumber s M E = realNumber s' M' E') : Nat.log 2 M + E = Nat.log 2 M' + E' := by
  obtain ⟨hlow, hhigh⟩ := abs_realNumber_bounds s E hM
  obtain ⟨hlow', hhigh'⟩ := abs_realNumber_bounds s' E' hM'
  rw [h] at hlow hhigh
  have hle := (zpow_lt_zpow_iff_right₀ (one_lt_two (α := ℚ))).mp (hlow.trans_lt hhigh')
  have hge := (zpow_lt_zpow_iff_right₀ (one_lt_two (α := ℚ))).mp (hlow'.trans_lt hhigh)
  omega

theorem log_significand {f : Nat} (hf : f < 2 ^ 23) : Nat.log 2 (2 ^ 23 + f) = 23 :=
  Nat.log_eq_of_pow_le_of_lt_pow (by omega) (by omega)

theorem fraction_lt (n : UInt32) : fraction n < 2 ^ 23 := Nat.mod_lt _ (by decide)

theorem IsFloat.bounds {s : Nat} (h : IsFloat (realNumber s M E)) (hM : M ≠ 0) :
    1 ≤ E + 127 + Nat.log 2 M ∧ E + 127 + Nat.log 2 M ≤ 254 := by
  obtain ⟨n, hn, hvalue⟩ := h
  rw [value_normal hn] at hvalue
  have hlog := log_eq_of_realNumber_eq (by omega) hM (Option.some.inj hvalue)
  rw [log_significand (fraction_lt n)] at hlog
  omega

theorem realNumber_one_ne_zero (s : Nat) (E : Int) : realNumber s 1 E ≠ 0 := by
  rw [← abs_pos, abs_realNumber, Nat.cast_one, one_mul]
  positivity

/-- The exponent goes through when the fraction is zero. -/
theorem value_buildFloat_pow (hs : s < 2) (hM : M = 0 ∨ M < 2 ^ 24 ∧ M = 2 ^ Nat.log 2 M) (hlow : -128 ≤ E)
    (hhigh : E ≤ 127) : value (buildFloat s E M) =
      if E = -128 then none else some (if E = -127 then 0 else realNumber s 1 E) := by
  obtain ⟨hsign, hexp, hfrac⟩ := fields_buildFloat_pow (E := E) hs hM
  by_cases hmin : E = -128
  · rw [value, if_pos hmin, if_pos (by rw [hexp, hmin]; rfl)]
  rw [if_neg hmin]
  by_cases hzero : E = -127
  · rw [value, if_neg (by rw [hexp, hzero]; decide), if_pos (by rw [hexp, hzero]; rfl), if_pos hzero, hfrac,
      Nat.cast_zero, zero_mul, mul_zero]
  · have hpos : exponent (buildFloat s E M) = (E + 127).toNat := by
      rw [hexp]
      omega
    have hcarry : ((E + 127) % 2 ^ 32).toNat / 2 ^ 8 % 2 = 0 := by omega
    have hkept : sign (buildFloat s E M) = s := by
      rw [hsign, hcarry, Nat.or_zero]
    have hscale := realNumber_shift (Nat.zero_le 23) s 1 (E + 127)
    rw [Nat.one_mul, show E + 127 - 127 - ((0 : Nat) : Int) = E by omega] at hscale
    rw [if_neg hzero, value_normal (by omega), hkept, hpos, hfrac, ← hscale]
    congr 2
    omega

/-- The number with this mantissa and exponent, if it is a float, is the one that the decoder builds. -/
abbrev DecodedExactly (M : Nat) (E : Int) : Prop := M = 0 ∧ E = -127 ∨ M = 1 ∨ M ≠ 0 ∧ ∀ k, M ≠ 2 ^ k

theorem value_buildFloat_iff (hs : s < 2) (hlt : M < 2 ^ 24) (hlow : -128 ≤ E) (hhigh : E ≤ 127)
    (hnum : realNumber s M E = 0 ∨ IsFloat (realNumber s M E)) :
    value (buildFloat s E M) = some (realNumber s M E) ↔ DecodedExactly M E := by
  rcases Nat.eq_zero_or_pos M with rfl | hpos
  · rw [value_buildFloat_pow hs (.inl rfl) hlow hhigh, realNumber_zero]
    have hcond : DecodedExactly 0 E ↔ E = -127 := by simp [DecodedExactly]
    rw [hcond]
    split_ifs with hmin hzero
    · simp [hmin]
    · simp [hzero]
    · simp [hzero, realNumber_one_ne_zero]
  have hM : M ≠ 0 := hpos.ne'
  have hfloat : IsFloat (realNumber s M E) := hnum.resolve_left fun hzero => by
    have habs := (abs_realNumber_bounds s E hM).1
    rw [hzero, abs_zero] at habs
    exact absurd habs (not_le.mpr (by positivity))
  have hbounds := hfloat.bounds hM
  by_cases hpow : M = 2 ^ Nat.log 2 M
  · rw [value_buildFloat_pow hs (.inr ⟨hlt, hpow⟩) hlow hhigh]
    have hcond : DecodedExactly M E ↔ Nat.log 2 M = 0 := by
      constructor
      · rintro (⟨hzero, -⟩ | rfl | ⟨-, hnot⟩)
        · exact absurd hzero hM
        · exact Nat.log_one_right 2
        · exact absurd hpow (hnot _)
      · intro hlog
        rw [hlog] at hpow
        exact .inr (.inl hpow)
    rw [hcond]
    split_ifs with hmin hzero
    · exact iff_of_false (fun h => by cases h) (by omega)
    · refine iff_of_false (fun h => ?_) (by omega)
      have habs := (abs_realNumber_bounds s E hM).1
      rw [← Option.some.inj h, abs_zero] at habs
      exact absurd habs (not_le.mpr (by positivity))
    · constructor
      · intro h
        have hlog := log_eq_of_realNumber_eq one_ne_zero hM (Option.some.inj h)
        rw [Nat.log_one_right] at hlog
        omega
      · intro hlog
        rw [hlog, Nat.pow_zero] at hpow
        rw [hpow]
  · obtain ⟨hsign, hexp, hfrac⟩ := fields_buildFloat hs hM hlt (by omega) hlow hhigh hpow
    have hcarry : (E + 127 + Nat.log 2 M).toNat / 2 ^ 8 % 2 = 0 := by omega
    have hkept : sign (buildFloat s E M) = s := by
      rw [hsign, hcarry, Nat.or_zero]
    have hpos : (exponent (buildFloat s E M) : Int) = E + 127 + Nat.log 2 M := by
      rw [hexp]
      omega
    have hlog := (shifted_mantissa hM hlt).1
    have hvalue : value (buildFloat s E M) = some (realNumber s M E) := by
      rw [value_normal (by omega), hkept, hpos, Nat.add_comm (2 ^ 23), hfrac, realNumber_shift hlog]
      congr 2
      omega
    refine iff_of_true hvalue (.inr (.inr ⟨hM, fun k hk => hpow ?_⟩))
    rw [hk, Nat.log_pow (by decide)]

end Building

section Exact

variable {n : UInt32}

abbrev IsBaseTwo (info : UInt8) : Prop := 128 ≤ info.toNat ∧ info.toNat / 2 ^ 4 % 4 = 0 ∧ info.toNat % 4 = 0

theorem mantissaOf_lt (ms : List UInt8) : mantissaOf ms < 2 ^ (8 * ms.length) := by
  suffices h : ∀ acc, ms.foldl (fun mantissa b => mantissa * 2 ^ 8 + b.toNat) acc < (acc + 1) * 2 ^ (8 * ms.length) by
    simpa [mantissaOf] using h 0
  induction ms with
  | nil => simp
  | cons b ms ih =>
    intro acc
    have hb := b.toNat_lt
    rw [List.foldl_cons, List.length_cons, Nat.mul_succ, Nat.add_comm (8 * ms.length), Nat.pow_add, ← Nat.mul_assoc]
    exact (ih _).trans_le (Nat.mul_le_mul_right _ (by omega))

theorem readsAs_number {info e : UInt8} {ms : List UInt8} (hinfo : info.toNat % 4 = 0) (hhigh : 128 ≤ info.toNat)
    (hpos : ms ≠ []) (hlen : ms.length ≤ 3) :
    ReadsAs (info :: e :: ms)
      (buildFloat (info.toNat / 2 ^ 6 % 2) (IntType.int8.wrap e.toNat) (mantissaOf ms)) := by
  have hms := List.length_pos_of_ne_nil hpos
  refine .inr ⟨List.cons_ne_nil _ _, ?_, ?_, ?_⟩
  · simp only [List.length_cons]
    omega
  · simp only [List.length_cons]
    omega
  · have hoctets : ¬ 3 < IntType.uint8.wrap (((info :: e :: ms).length : Int) - (info.toNat % 4 + 1 : Nat) - 1) := by
      simp only [List.length_cons, hinfo, IntType.wrap, IntType.min, IntType.isSigned, IntType.nofBits]
      simp
      omega
    simp only [ofRealOctets, List.getD_cons_zero]
    rw [if_neg (by omega), if_neg (by omega), if_neg (by omega), if_neg (by omega), if_neg hoctets]
    rfl

theorem int8_wrap_eq (v : Int) : IntType.int8.wrap v = (v + 128) % 256 - 128 := by
  simp [IntType.wrap, IntType.min, IntType.isSigned, IntType.nofBits]
  omega

abbrev trailingZeros (n : UInt32) : Nat := zeroLsbCount 32 (fraction n + 2 ^ 23)

theorem exists_packed_mantissa (n : UInt32) : trailingZeros n ≤ 23 ∧ ∃ odd, odd % 2 = 1 ∧
    fraction n + 2 ^ 23 = odd * 2 ^ trailingZeros n ∧ Nat.log 2 odd = 23 - trailingZeros n ∧
    odd < 2 ^ (24 - trailingZeros n) := by
  have hfraction := fraction_lt n
  obtain ⟨-, odd, hparity, heq⟩ := @zeroLsbCount_spec 32 (fraction n + 2 ^ 23) (by omega) (by omega)
  change fraction n + 2 ^ 23 = odd * 2 ^ trailingZeros n at heq
  have hle : trailingZeros n ≤ 23 := by
    by_contra hmore
    have hpow : 2 ^ 24 ≤ 2 ^ trailingZeros n := Nat.pow_le_pow_right (by decide) (by omega)
    have hone : 1 * 2 ^ trailingZeros n ≤ odd * 2 ^ trailingZeros n := Nat.mul_le_mul_right _ (by omega)
    omega
  have hpos : 0 < 2 ^ trailingZeros n := by positivity
  have hlow : 2 ^ (23 - trailingZeros n) ≤ odd := by
    apply Nat.le_of_mul_le_mul_right _ hpos
    rw [← heq, ← Nat.pow_add, Nat.sub_add_cancel hle]
    omega
  have hhigh : odd < 2 ^ (24 - trailingZeros n) := by
    apply Nat.lt_of_mul_lt_mul_right (a := 2 ^ trailingZeros n)
    rw [← heq, ← Nat.pow_add, Nat.sub_add_cancel (by omega)]
    omega
  refine ⟨hle, odd, hparity, heq, Nat.log_eq_of_pow_le_of_lt_pow hlow ?_, hhigh⟩
  rwa [show 23 - trailingZeros n + 1 = 24 - trailingZeros n by omega]

theorem packedExponent_eq (hn : IsNormal n) (hle : trailingZeros n ≤ 23) : packedExponent n (trailingZeros n) =
    if exponent n + trailingZeros n < 22 then (exponent n : Int) - 150 + trailingZeros n + 256
    else (exponent n : Int) - 150 + trailingZeros n := by
  rw [packedExponent, int8_wrap_eq, int8_wrap_eq]
  split_ifs <;> omega

/-- The octets of a normal float are read as the float that the decoder builds of them. -/
theorem readsAs_normal (hn : IsNormal n) {odd : Nat} (heq : fraction n + 2 ^ 23 = odd * 2 ^ trailingZeros n)
    (hlt : odd < 2 ^ (24 - trailingZeros n)) : ReadsAs (realOctets n)
      (buildFloat (sign n) (packedExponent n (trailingZeros n)) odd) := by
  have hsign : sign n < 2 := by
    have hbits := n.toNat_lt
    rw [sign]
    omega
  have hodd : (fraction n + 2 ^ 23) / 2 ^ trailingZeros n = odd := by
    rw [heq, Nat.mul_div_cancel _ (by positivity)]
  have hoctets : realOctets n = (if sign n = 0 then 0x80 else 0xC0) ::
      UInt8.ofNat (packedExponent n (trailingZeros n) % 2 ^ 8).toNat ::
        mantissaOctets ((24 - trailingZeros n + 7) / 8) odd := by
    rw [realOctets, if_neg (by omega), if_neg (by omega), if_neg (by omega), ← hodd]
  have hle := (exists_packed_mantissa n).1
  have hlen := length_mantissaOctets ((24 - trailingZeros n + 7) / 8) odd
  have hmantissa : mantissaOf (mantissaOctets ((24 - trailingZeros n + 7) / 8) odd) = odd := by
    have hfits : odd < 2 ^ (8 * ((24 - trailingZeros n + 7) / 8)) :=
      hlt.trans_le (Nat.pow_le_pow_right (by decide) (by omega))
    rw [mantissaOf, mantissaOf_octets, Nat.zero_mul, Nat.zero_add, Nat.mod_eq_of_lt hfits]
  have hexponent : IntType.int8.wrap
      (UInt8.ofNat (packedExponent n (trailingZeros n) % 2 ^ 8).toNat).toNat = packedExponent n (trailingZeros n) := by
    rw [UInt8.toNat_ofNat', packedExponent]
    simp only [int8_wrap_eq]
    omega
  have hinfo : (if sign n = 0 then 0x80 else 0xC0 : UInt8).toNat / 2 ^ 6 % 2 = sign n ∧
      (if sign n = 0 then 0x80 else 0xC0 : UInt8).toNat % 4 = 0 ∧
      128 ≤ (if sign n = 0 then 0x80 else 0xC0 : UInt8).toNat := by
    split_ifs with hzero
    · exact ⟨hzero.symm, rfl, by decide⟩
    · exact ⟨(by omega : 1 = sign n), rfl, by decide⟩
  have hreads := readsAs_number (e := UInt8.ofNat (packedExponent n (trailingZeros n) % 2 ^ 8).toNat) hinfo.2.1
    hinfo.2.2 (fun hnil : mantissaOctets ((24 - trailingZeros n + 7) / 8) odd = [] => by
      rw [hnil, List.length_nil] at hlen
      omega) (by omega)
  rwa [hmantissa, hexponent, hinfo.1, ← hoctets] at hreads

/-- The exponents of tiny values leave the range of `int8_t`. -/
abbrev PackedExactly (n : UInt32) : Prop := IsZero n ∨ sign n = 1 ∨ 22 ≤ exponent n + trailingZeros n

theorem realNumber_or_one_iff {s M : Nat} (hs : s < 2) (hM : M ≠ 0) (E : Int) :
    realNumber (s ||| 1) M E = realNumber s M E ↔ s = 1 := by
  obtain rfl | rfl : s = 0 ∨ s = 1 := by omega
  · refine iff_of_false (fun h => ?_) (by decide)
    have habs := (abs_realNumber_bounds 0 E hM).1
    have hminus : realNumber (0 ||| 1) M E = -realNumber 0 M E := by simp [realNumber]
    rw [hminus] at h
    have hnone : realNumber 0 M E = 0 := by linarith
    rw [hnone, abs_zero] at habs
    exact absurd habs (not_le.mpr (by positivity))
  · exact iff_of_true rfl rfl

/-- An exponent that has left the range of `int8_t` comes back 256 higher, and carries into the sign. -/
theorem value_buildFloat_tiny {odd : Nat} (hn : IsNormal n) (htiny : exponent n + trailingZeros n < 22)
    (hparity : odd % 2 = 1) (heq : fraction n + 2 ^ 23 = odd * 2 ^ trailingZeros n)
    (hlog : Nat.log 2 odd = 23 - trailingZeros n) (hshort : odd < 2 ^ 24) (hs : sign n < 2) :
    value (buildFloat (sign n) (exponent n - 150 + trailingZeros n + 256) odd) =
      some (realNumber (sign n ||| 1) (fraction n + 2 ^ 23) (exponent n - 150)) := by
  have hodd : odd ≠ 0 := by omega
  have hnotpow : odd ≠ 2 ^ Nat.log 2 odd := by
    intro hpow
    have hzeros : trailingZeros n = 23 := by
      by_contra hless
      rw [hlog, show 23 - trailingZeros n = 22 - trailingZeros n + 1 by omega, Nat.pow_succ] at hpow
      omega
    omega
  obtain ⟨hsign, hexp, hfrac⟩ := fields_buildFloat
    (E := (exponent n : Int) - 150 + trailingZeros n + 256) hs hodd hshort (by omega) (by omega) (by omega) hnotpow
  have hcarry : ((exponent n : Int) - 150 + trailingZeros n + 256 + 127 + Nat.log 2 odd).toNat =
      exponent n + 256 := by omega
  rw [hcarry] at hsign hexp
  rw [show (exponent n + 256) / 2 ^ 8 % 2 = 1 by omega] at hsign
  rw [show (exponent n + 256) % 2 ^ 8 = exponent n by omega] at hexp
  have hsame : fraction (buildFloat (sign n) (exponent n - 150 + trailingZeros n + 256) odd) + 2 ^ 23 =
      fraction n + 2 ^ 23 := by
    rw [hfrac, heq, show 23 - Nat.log 2 odd = trailingZeros n by omega]
  rw [value_normal (by rw [IsNormal, hexp]; exact hn), hsign, hexp, Nat.add_comm (2 ^ 23), hsame]

theorem realRoundTrips_normal (hn : IsNormal n) (aligned : Bool) : RealRoundTrips aligned n ↔ PackedExactly n := by
  obtain ⟨hle, odd, hparity, heq, hlog, hlt⟩ := exists_packed_mantissa n
  have hs : sign n < 2 := by
    have hbits := n.toNat_lt
    rw [sign]
    omega
  have hodd : odd ≠ 0 := by omega
  have hshort : odd < 2 ^ 24 := hlt.trans_le (Nat.pow_le_pow_right (by decide) (Nat.sub_le _ _))
  have hvalue : value n = some (realNumber (sign n) (fraction n + 2 ^ 23) (exponent n - 150)) := by
    rw [value_normal hn, Nat.add_comm (2 ^ 23)]
  have hscale (s : Nat) : realNumber s (fraction n + 2 ^ 23) (exponent n - 150) =
      realNumber s odd (exponent n - 150 + trailingZeros n) := by
    have hshift := realNumber_shift (show 23 - trailingZeros n ≤ 23 by omega) s odd (exponent n)
    rw [show 23 - (23 - trailingZeros n) = trailingZeros n by omega, ← heq] at hshift
    rw [hshift]
    congr 1
    omega
  rw [realRoundTrips_iff (readsAs_normal hn heq hlt), hvalue, packedExponent_eq hn hle]
  by_cases htiny : exponent n + trailingZeros n < 22
  · have hcond : PackedExactly n ↔ sign n = 1 := by
      constructor
      · rintro (⟨hzero, -⟩ | hneg | hlarge)
        · omega
        · exact hneg
        · omega
      · exact fun hneg => .inr (.inl hneg)
    rw [if_pos htiny, value_buildFloat_tiny hn htiny hparity heq hlog hshort hs, Option.some.injEq,
      realNumber_or_one_iff hs (by omega), hcond]
  · rw [if_neg htiny, hscale]
    have hfloat : IsFloat (realNumber (sign n) odd (exponent n - 150 + trailingZeros n)) :=
      ⟨n, hn, by rw [hvalue, hscale]⟩
    refine iff_of_true ?_ (.inr (.inr (not_lt.mp htiny)))
    rw [value_buildFloat_iff hs hshort (by omega) (by omega) (.inr hfloat)]
    by_cases hone : odd = 1
    · exact .inr (.inl hone)
    · refine .inr (.inr ⟨hodd, fun k hk => ?_⟩)
      cases k with
      | zero => exact hone hk
      | succ k =>
        rw [Nat.pow_succ] at hk
        omega

theorem realRoundTrips_zero (hn : IsZero n) (aligned : Bool) : RealRoundTrips aligned n ↔ PackedExactly n := by
  have hoctets : realOctets n = [] := by
    rw [realOctets, if_neg (by omega), if_neg (by omega), if_pos hn]
  have hvalue : value n = some 0 := by
    rw [value, if_neg (by omega), if_pos hn.1, hn.2, Nat.cast_zero, zero_mul, mul_zero]
  have hzero : value 0 = some 0 := by
    rw [value, if_neg (by decide), if_pos (by decide), show fraction 0 = 0 from rfl, Nat.cast_zero, zero_mul, mul_zero]
  rw [realRoundTrips_iff (show ReadsAs (realOctets n) 0 from .inl ⟨hoctets, rfl⟩), hvalue, hzero]
  exact iff_of_true rfl (.inl hn)

/-- A zero or normal float comes back unless it is positive and its exponent leaves `int8_t`; an encoding is decoded
to its number unless its mantissa is zero or a power of two from 2 on. -/
theorem real_exact_iff (aligned : Bool) (n : UInt32) (hn : IsZero n ∨ IsNormal n) (info e : UInt8)
    (hinfo : IsBaseTwo info) (ms : List UInt8) (hpos : ms ≠ []) (hlen : ms.length ≤ 3)
    (hnum : realNumber (info.toNat / 2 ^ 6 % 2) (mantissaOf ms) (IntType.int8.wrap e.toNat) = 0 ∨
      IsFloat (realNumber (info.toNat / 2 ^ 6 % 2) (mantissaOf ms) (IntType.int8.wrap e.toNat))) :
    (RealRoundTrips aligned n ↔ PackedExactly n) ∧
      (DecodesTo aligned (info :: e :: ms)
          (realNumber (info.toNat / 2 ^ 6 % 2) (mantissaOf ms) (IntType.int8.wrap e.toNat)) ↔
        DecodedExactly (mantissaOf ms) (IntType.int8.wrap e.toNat)) := by
  have hE := int8_wrap_eq e.toNat
  have hlt : mantissaOf ms < 2 ^ 24 :=
    (mantissaOf_lt ms).trans_le (Nat.pow_le_pow_right (by decide) (by omega))
  refine ⟨hn.elim (realRoundTrips_zero · aligned) (realRoundTrips_normal · aligned), ?_⟩
  rw [decodesTo_iff (readsAs_number hinfo.2.2 hinfo.1 hpos hlen)]
  exact value_buildFloat_iff (Nat.mod_lt _ (by decide)) hlt (by omega) (by omega) hnum

theorem isFloat_three : IsFloat (realNumber 0 3 0) := by
  refine ⟨0x40400000, by decide, ?_⟩
  rw [value_normal (by decide), show sign 0x40400000 = 0 from rfl, show exponent 0x40400000 = 128 from rfl,
    show fraction 0x40400000 = 4194304 from rfl]
  norm_num [realNumber]

theorem real_exact_iff_three : (RealRoundTrips true 0x3f800000 ↔ PackedExactly 0x3f800000) ∧
    (DecodesTo true [0x80, 0, 3] (realNumber 0 3 0) ↔ DecodedExactly 3 0) :=
  real_exact_iff true 0x3f800000 (by decide) 0x80 0 (by decide) [3] (by decide) (by decide) (.inr isFloat_three)

/-- The float after the least normal one comes back with the other sign. -/
theorem real_not_exact : ¬((∀ n, IsZero n ∨ IsNormal n → RealRoundTrips true n) ∧
    ∀ (s M : Nat) (E : Int), realNumber s M E = 0 ∨ IsFloat (realNumber s M E) → ∀ info e ms, IsBaseTwo info →
      info.toNat / 2 ^ 6 % 2 = s → IntType.int8.wrap e.toNat = E → mantissaOf ms = M → ms ≠ [] → ms.length ≤ 3 →
        DecodesTo true (info :: e :: ms) (realNumber s M E)) := by
  rintro ⟨hround, -⟩
  have hpacked := (realRoundTrips_normal (by decide) true).mp (hround 0x00800001 (by decide))
  exact absurd hpacked (by decide)

end Exact

end Ocudu.Asn1
