import Ocudu.Basic.BitStream
import Ocudu.Basic.IntType

/-! Block floating-point compression of the samples of one resource block: `iq_compression_bfp_impl.cpp`,
`packing_utils_generic.cpp` and the bit buffers that they write and read. -/

namespace Ocudu.Ofh

open BitCodec

inductive BfpFault
  | dataWidth
  | count
  | value
  | range
  deriving DecidableEq

namespace BitBuffer

def insert (buffer : List Bool) (value startpos count : Nat) : Except BfpFault (List Bool) :=
  if 8 < count then .error .count
  else if 2 ^ count ≤ value then .error .value
  else if buffer.length < startpos + count then .error .range
  else .ok (buffer.take startpos ++ (toBits count value ++ buffer.drop (startpos + count)))

def extract (buffer : List Bool) (startpos count : Nat) : Except BfpFault Nat :=
  if 8 < count then .error .count
  else if buffer.length < startpos + count then .error .range
  else .ok (ofBits ((buffer.drop startpos).take count))

end BitBuffer

def packSample : Nat → List Bool → Nat → Int → Nat → Except BfpFault (List Bool × Nat)
  | 0, buffer, startPos, _, _ => .ok (buffer, startPos)
  | fuel + 1, buffer, startPos, sample, leftToPack =>
    if leftToPack = 0 then .ok (buffer, startPos)
    else if 8 < leftToPack then do
      let masked := ((sample >>> (leftToPack - 8)) % 2 ^ 8).toNat
      let buffer ← BitBuffer.insert buffer masked startPos 8
      packSample fuel buffer (startPos + 8) (sample % 2 ^ (leftToPack - 8)) (leftToPack - 8)
    else do
      -- the low byte of the sample goes in, whatever the number of bits
      let buffer ← BitBuffer.insert buffer (sample % 2 ^ 8).toNat startPos leftToPack
      packSample fuel buffer (startPos + leftToPack) sample 0

def packBytes (buffer : List Bool) (compressedIq : List Int) (iqWidth : Nat) : Except BfpFault (List Bool) := do
  let (buffer, startPos) ← compressedIq.foldlM (fun (packed : List Bool × Nat) sample =>
    packSample iqWidth packed.1 packed.2 sample iqWidth) (buffer, 0)
  if startPos % 8 ≠ 0 then BitBuffer.insert buffer 0 startPos (8 - startPos % 8) else .ok buffer

def unpackLoop (buffer : List Bool) : Nat → Nat → Nat → Nat → Except BfpFault Nat
  | 0, value, _, _ => .ok value
  | fuel + 1, value, offset, bitsLeftToRead =>
    if bitsLeftToRead = 0 then .ok value
    else if 8 < bitsLeftToRead then do
      let read ← BitBuffer.extract buffer offset 8
      unpackLoop buffer fuel (read <<< (bitsLeftToRead - 8) % 2 ^ 16) (offset + 8) (bitsLeftToRead - 8)
    else do
      let read ← BitBuffer.extract buffer offset bitsLeftToRead
      .ok (value ||| read)

def unpackBits (buffer : List Bool) (offset length : Nat) : Except BfpFault Int :=
  (unpackLoop buffer length 0 offset length).map fun value => IntType.int16.wrap value

def signExtend (bitWidth : Nat) (value : Int) : Int :=
  IntType.int16.wrap (value * 2 ^ (16 - bitWidth)) >>> (16 - bitWidth)

def leadingZeros (x : Nat) : Nat := (31 - Nat.log2 x + 2 ^ 32 - 17) % 2 ^ 32

def determineExponent (x dataWidth : Nat) : Except BfpFault Nat :=
  if dataWidth = 0 ∨ 16 < dataWidth then .error .dataWidth
  else
    let maxShift := 16 - dataWidth
    let lzWithoutSign := if 0 < x ∧ 0 < maxShift then leadingZeros x else maxShift
    .ok (16 - dataWidth - min maxShift lzWithoutSign)

/-- The argument of `determine_exponent`, for the greatest and the least sample. -/
def maxAbs (greatest least : Int) : Nat := (max (greatest.natAbs : Int) (least.natAbs - 1)).toNat

def compressPrbGeneric (buffer : List Bool) (inputQuantized : List Int) (dataWidth : Nat) :
    Except BfpFault (Nat × List Bool) := do
  let greatest := inputQuantized.max?.getD 0
  let least := inputQuantized.min?.getD 0
  let exponent ← determineExponent (maxAbs greatest least) dataWidth
  let buffer ← packBytes buffer (inputQuantized.map fun sample : Int => sample >>> exponent) dataWidth
  .ok (exponent, buffer)

/-- `1 << exponent` as an `int16_t`. A shift by 32 or more is undefined: `undef` is what it gives. -/
def scaler (undef : Nat → Int) (exponent : Nat) : Int :=
  IntType.int16.wrap (if exponent < 32 then 2 ^ exponent else undef exponent)

def decompressPrbGeneric (undef : Nat → Int) (exponent : UInt8) (bits : List Bool) (dataWidth : Nat) :
    Except BfpFault (List Int) :=
  (List.range 24).mapM fun i =>
    (unpackBits bits (i * dataWidth) dataWidth).map fun value =>
      signExtend dataWidth value * scaler undef exponent.toNat

section Packing

variable {buffer : List Bool} {w pos : Nat} {c : Int}

def toSigned (w v : Nat) : Int := if v < 2 ^ (w - 1) then v else v - 2 ^ w

abbrev Fits (w : Nat) (c : Int) : Prop := -2 ^ (w - 1) ≤ c ∧ c < 2 ^ (w - 1)

def written (buffer : List Bool) (pos : Nat) (bits : List Bool) : List Bool :=
  buffer.take pos ++ (bits ++ buffer.drop (pos + bits.length))

theorem insert_ok {value count : Nat} (hcount : count ≤ 8) (hvalue : value < 2 ^ count)
    (hroom : pos + count ≤ buffer.length) :
    BitBuffer.insert buffer value pos count = .ok (written buffer pos (toBits count value)) := by
  rw [BitBuffer.insert, if_neg (by omega), if_neg (by omega), if_neg (by omega), written, length_toBits]

theorem length_written {bits : List Bool} (h : pos + bits.length ≤ buffer.length) :
    (written buffer pos bits).length = buffer.length := by
  simp only [written, List.length_append, List.length_take, List.length_drop]
  omega

theorem written_written {xs ys : List Bool} (h : pos + xs.length ≤ buffer.length) :
    written (written buffer pos xs) (pos + xs.length) ys = written buffer pos (xs ++ ys) := by
  have htake : (buffer.take pos).length = pos := by
    rw [List.length_take]
    omega
  have hfirst : (buffer.take pos ++ (xs ++ buffer.drop (pos + xs.length))).take (pos + xs.length) =
      buffer.take pos ++ xs := by
    rw [← List.append_assoc, List.take_left' (by rw [List.length_append, htake])]
  have hlast : (buffer.take pos ++ (xs ++ buffer.drop (pos + xs.length))).drop (pos + xs.length + ys.length) =
      buffer.drop (pos + (xs ++ ys).length) := by
    rw [← List.append_assoc, ← List.drop_drop, List.drop_left' (by rw [List.length_append, htake]), List.drop_drop,
      List.length_append, Nat.add_assoc]
  rw [written, written, hfirst, hlast, written, List.append_assoc, List.append_assoc]

def field (w : Nat) (c : Int) : List Bool := toBits w (c % 2 ^ w).toNat

@[simp] theorem length_field (w : Nat) (c : Int) : (field w c).length = w := length_toBits _ _

theorem packSample_short (hw : 1 ≤ w) (hshort : w ≤ 8) (hroom : pos + w ≤ buffer.length)
    (hc : (c % 2 ^ 8).toNat < 2 ^ w) : packSample w buffer pos c w = .ok (written buffer pos (field w c), pos + w) := by
  obtain ⟨fuel, rfl⟩ := Nat.exists_eq_add_of_le' hw
  have hsame : (c % 2 ^ 8).toNat = (c % 2 ^ (fuel + 1)).toNat := by
    have hsplit := Int.emod_emod_of_dvd c (pow_dvd_pow (2 : Int) hshort)
    rw [← hsplit, Int.emod_eq_of_lt (a := c % 2 ^ 8) (Int.emod_nonneg _ (by positivity))]
    have hcast : ((c % 2 ^ 8).toNat : Int) < 2 ^ (fuel + 1) := by exact_mod_cast hc
    rwa [Int.toNat_of_nonneg (Int.emod_nonneg _ (by positivity))] at hcast
  rw [packSample, if_neg (by omega), if_neg (by omega), insert_ok hshort hc hroom, field, ← hsame]
  cases fuel with
  | zero => rfl
  | succ fuel => rfl

theorem packSample_long (hlong : 8 < w) (hw : w ≤ 16) (hroom : pos + w ≤ buffer.length) :
    packSample w buffer pos c w = .ok (written buffer pos (field w c), pos + w) := by
  obtain ⟨v, hv⟩ : ∃ v : Nat, (v : Int) = c % 2 ^ w :=
    ⟨(c % 2 ^ w).toNat, Int.toNat_of_nonneg (Int.emod_nonneg _ (by positivity))⟩
  have hpow : (2 : Int) ^ w = 2 ^ (w - 8) * 2 ^ 8 := by rw [← pow_add, Nat.sub_add_cancel hlong.le]
  have hdiv : c / 2 ^ (w - 8) = (v : Int) / 2 ^ (w - 8) + 2 ^ 8 * (c / 2 ^ w) := by
    conv_lhs => rw [← Int.emod_add_mul_ediv c (2 ^ w), ← hv, hpow, mul_assoc, ← hpow]
    exact Int.add_mul_ediv_left _ _ (by positivity)
  have hbyte : v >>> (w - 8) < 2 ^ 8 := by
    have hlt : (v : Int) < 2 ^ w := hv ▸ Int.emod_lt_of_pos c (by positivity)
    rw [Nat.shiftRight_eq_div_pow, Nat.div_lt_iff_lt_mul (by positivity), Nat.mul_comm]
    rw [hpow] at hlt
    exact_mod_cast hlt
  have hfirst : ((c >>> (w - 8)) % 2 ^ 8).toNat = v >>> (w - 8) := by
    rw [Int.shiftRight_eq_div_pow]
    push_cast
    rw [hdiv, Nat.shiftRight_eq_div_pow]
    rw [Nat.shiftRight_eq_div_pow] at hbyte
    have hcast : ((v / 2 ^ (w - 8) : Nat) : Int) = (v : Int) / 2 ^ (w - 8) := by push_cast; rfl
    rw [← hcast, show (256 : Int) = 2 ^ 8 from rfl, Int.add_mul_emod_self_left,
      Int.emod_eq_of_lt (Int.natCast_nonneg _) (by exact_mod_cast hbyte), Int.toNat_natCast]
  have hrest : (c % 2 ^ (w - 8)) % 2 ^ 8 = c % 2 ^ (w - 8) :=
    Int.emod_eq_of_lt (Int.emod_nonneg _ (by positivity)) ((Int.emod_lt_of_pos _ (by positivity)).trans_le
      (pow_le_pow_right₀ (by decide) (by omega)))
  have hlow : (c % 2 ^ (w - 8)).toNat = v % 2 ^ (w - 8) := by
    have hdvd := Int.emod_emod_of_dvd c (pow_dvd_pow (2 : Int) (Nat.sub_le w 8))
    rw [← hdvd, ← hv]
    norm_cast
  have hwhole : field w c = toBits 8 (v >>> (w - 8)) ++ field (w - 8) (c % 2 ^ (w - 8)) := by
    rw [field, ← hv, Int.toNat_natCast, field, Int.emod_emod_of_dvd c (dvd_refl _), hlow,
      toBits_mod (Nat.le_refl (w - 8)), ← toBits_add, Nat.add_sub_of_le hlong.le]
  obtain ⟨fuel, rfl⟩ := Nat.exists_eq_add_of_le' (show 2 ≤ w by omega)
  rw [packSample, if_neg (by omega), if_pos hlong]
  dsimp only
  rw [hfirst, insert_ok (Nat.le_refl 8) hbyte (by omega)]
  have hwritten : (written buffer pos (toBits 8 (v >>> (fuel + 2 - 8)))).length = buffer.length :=
    length_written (by rw [length_toBits]; omega)
  rw [ok_bind, packSample, if_neg (by omega), if_neg (by omega)]
  rw [insert_ok (by omega) (by
      rw [hrest, hlow]
      exact Nat.mod_lt _ (by positivity)) (by rw [hwritten]; omega), ok_bind]
  have hfits : pos + (toBits 8 (v >>> (fuel + 2 - 8))).length ≤ buffer.length := by
    rw [length_toBits]
    omega
  have hjoin := @written_written _ _ _ (field (fuel + 2 - 8) (c % 2 ^ (fuel + 2 - 8))) hfits
  rw [length_toBits, ← hwhole] at hjoin
  have hfield : toBits (fuel + 2 - 8) ((c % 2 ^ (fuel + 2 - 8)) % 2 ^ 8).toNat =
      field (fuel + 2 - 8) (c % 2 ^ (fuel + 2 - 8)) := by
    rw [field, hrest, Int.emod_emod_of_dvd c (dvd_refl _)]
  rw [hfield, hjoin]
  have hend : pos + 8 + (fuel + 2 - 8) = pos + (fuel + 2) := by omega
  rw [hend]
  cases fuel with
  | zero => omega
  | succ fuel => rfl

abbrev Packable (w : Nat) (c : Int) : Prop := 8 < w ∨ (c % 2 ^ 8).toNat < 2 ^ w

theorem packSample_ok (hw : 1 ≤ w) (hle : w ≤ 16) (hroom : pos + w ≤ buffer.length) (hc : Packable w c) :
    packSample w buffer pos c w = .ok (written buffer pos (field w c), pos + w) := by
  by_cases hlong : 8 < w
  · exact packSample_long hlong hle hroom
  · exact packSample_short hw (not_lt.mp hlong) hroom (hc.resolve_left hlong)

theorem packSample_packable (hw : 1 ≤ w) {res : List Bool × Nat} (h : packSample w buffer pos c w = .ok res) :
    Packable w c := by
  by_contra hnot
  obtain ⟨hshort, hvalue⟩ := not_or.mp hnot
  obtain ⟨fuel, rfl⟩ := Nat.exists_eq_add_of_le' hw
  rw [packSample, if_neg (by omega), if_neg hshort, BitBuffer.insert, if_neg (by omega), if_pos (not_lt.mp hvalue)] at h
  cases h

theorem packFold_ok (hw : 1 ≤ w) (hle : w ≤ 16) (cs : List Int) (hroom : pos + cs.length * w ≤ buffer.length)
    (hcs : ∀ c ∈ cs, Packable w c) :
    cs.foldlM (fun (packed : List Bool × Nat) sample => packSample w packed.1 packed.2 sample w) (buffer, pos) =
      .ok (written buffer pos (cs.flatMap (field w)), pos + cs.length * w) := by
  induction cs generalizing buffer pos with
  | nil =>
    simp only [List.flatMap_nil, written, List.nil_append, List.length_nil, Nat.add_zero, List.take_append_drop,
      Nat.zero_mul]
    rfl
  | cons c cs ih =>
    rw [List.length_cons, Nat.succ_mul] at hroom
    have hfits : pos + (field w c).length ≤ buffer.length := by
      rw [length_field]
      omega
    have hwritten := length_written hfits
    rw [List.foldlM_cons]
    dsimp only
    rw [packSample_ok hw hle (by omega) (hcs c List.mem_cons_self), ok_bind,
      ih (by omega) fun c' hc' => hcs c' (List.mem_cons_of_mem c hc')]
    have hjoin := @written_written _ _ _ (cs.flatMap (field w)) hfits
    rw [length_field] at hjoin
    rw [hjoin, List.flatMap_cons, List.length_cons, Nat.succ_mul, Nat.add_assoc, Nat.add_comm w]

theorem packFold_packable (hw : 1 ≤ w) {cs : List Int} {packed res : List Bool × Nat}
    (h : cs.foldlM (fun (packed : List Bool × Nat) sample => packSample w packed.1 packed.2 sample w)
      packed = .ok res) :
    ∀ c ∈ cs, Packable w c := by
  induction cs generalizing packed with
  | nil => exact fun c hc => absurd hc List.not_mem_nil
  | cons c cs ih =>
    rw [List.foldlM_cons] at h
    obtain ⟨packed', hfirst, hrest⟩ := bind_eq_ok.mp h
    exact List.forall_mem_cons.mpr ⟨packSample_packable hw hfirst, ih hrest⟩

@[simp] theorem length_fields (w : Nat) (cs : List Int) : (cs.flatMap (field w)).length = cs.length * w := by
  induction cs with
  | nil => simp only [List.flatMap_nil, List.length_nil, Nat.zero_mul]
  | cons c cs ih =>
    rw [List.flatMap_cons, List.length_append, ih, length_field, List.length_cons, Nat.succ_mul, Nat.add_comm]

/-- A field comes back from the place where it is packed. -/
theorem drop_take_written {cs : List Int} {k : Nat} (hk : k < cs.length) :
    ((written buffer 0 (cs.flatMap (field w))).drop (k * w)).take w = field w (cs.get ⟨k, hk⟩) := by
  have hsplit : cs = cs.take k ++ (cs.get ⟨k, hk⟩ :: cs.drop (k + 1)) := by
    rw [List.get_eq_getElem, ← List.drop_eq_getElem_cons, List.take_append_drop]
  have hprefix : ((cs.take k).flatMap (field w)).length = k * w := by
    rw [length_fields, List.length_take, Nat.min_eq_left hk.le]
  have hflat : cs.flatMap (field w) = (cs.take k).flatMap (field w) ++
      (field w (cs.get ⟨k, hk⟩) ++ (cs.drop (k + 1)).flatMap (field w)) := by
    conv_lhs => rw [hsplit, List.flatMap_append, List.flatMap_cons]
  rw [written, List.take_zero, List.nil_append, hflat, List.append_assoc, List.append_assoc, List.drop_left' hprefix,
    List.take_left' (length_field _ _)]

theorem unpackLoop_eq (hw : 1 ≤ w) (hle : w ≤ 16) (hroom : pos + w ≤ buffer.length) :
    unpackLoop buffer w 0 pos w = .ok (ofBits ((buffer.drop pos).take w)) := by
  have hextract {off n : Nat} (hn : n ≤ 8) (hoff : off + n ≤ buffer.length) :
      BitBuffer.extract buffer off n = .ok (ofBits ((buffer.drop off).take n)) := by
    rw [BitBuffer.extract, if_neg (by omega), if_neg (by omega)]
  by_cases hlong : 8 < w
  · obtain ⟨fuel, rfl⟩ := Nat.exists_eq_add_of_le' (show 2 ≤ w by omega)
    have hlow : ofBits ((buffer.drop (pos + 8)).take (fuel + 2 - 8)) < 2 ^ (fuel + 2 - 8) := by
      refine (ofBits_lt _).trans_le (Nat.pow_le_pow_right (by decide) ?_)
      rw [List.length_take]
      omega
    have hhigh : ofBits ((buffer.drop pos).take 8) < 2 ^ 8 := by
      refine (ofBits_lt _).trans_le (Nat.pow_le_pow_right (by decide) ?_)
      rw [List.length_take]
      omega
    have hfit : ofBits ((buffer.drop pos).take 8) <<< (fuel + 2 - 8) < 2 ^ 16 := by
      rw [Nat.shiftLeft_eq]
      calc ofBits ((buffer.drop pos).take 8) * 2 ^ (fuel + 2 - 8)
        _ < 2 ^ 8 * 2 ^ (fuel + 2 - 8) := Nat.mul_lt_mul_of_pos_right hhigh (by positivity)
        _ ≤ 2 ^ 16 := by rw [← Nat.pow_add]; exact Nat.pow_le_pow_right (by decide) (by omega)
    have hjoin : (buffer.drop pos).take (fuel + 2) =
        (buffer.drop pos).take 8 ++ (buffer.drop (pos + 8)).take (fuel + 2 - 8) := by
      conv_lhs => rw [show fuel + 2 = 8 + (fuel + 2 - 8) by omega, List.take_add, List.drop_drop]
    rw [unpackLoop, if_neg (by omega), if_pos hlong, hextract (Nat.le_refl 8) (by omega), ok_bind, unpackLoop,
      if_neg (by omega), if_neg (by omega), hextract (by omega) (by omega), ok_bind, Nat.mod_eq_of_lt hfit,
      ← Nat.shiftLeft_add_eq_or_of_lt hlow, Nat.shiftLeft_eq, hjoin, ofBits_append, List.length_take, List.length_drop,
      Nat.min_eq_left (by omega)]
  · obtain ⟨fuel, rfl⟩ := Nat.exists_eq_add_of_le' hw
    rw [unpackLoop, if_neg (by omega), if_neg hlong, hextract (by omega) hroom, ok_bind, Nat.zero_or]

theorem int16_wrap_eq (v : Int) : IntType.int16.wrap v = (v + 32768) % 65536 - 32768 := by
  simp [IntType.wrap, IntType.min, IntType.isSigned, IntType.nofBits]
  lia

theorem signExtend_eq (hw : 1 ≤ w) (hle : w ≤ 16) {v : Nat} (hv : v < 2 ^ w) :
    signExtend w (IntType.int16.wrap v) = toSigned w v := by
  rw [signExtend, toSigned, Int.shiftRight_eq_div_pow, int16_wrap_eq, int16_wrap_eq]
  interval_cases w <;> norm_num at hv ⊢ <;> split_ifs <;> lia

theorem unpack_signExtend (hw : 1 ≤ w) (hle : w ≤ 16) (hroom : pos + w ≤ buffer.length) :
    (unpackBits buffer pos w).map (signExtend w) = .ok (toSigned w (ofBits ((buffer.drop pos).take w))) := by
  have hlt : ofBits ((buffer.drop pos).take w) < 2 ^ w := by
    refine (ofBits_lt _).trans_le (Nat.pow_le_pow_right (by decide) ?_)
    rw [List.length_take]
    omega
  rw [unpackBits, unpackLoop_eq hw hle hroom]
  exact congrArg Except.ok (signExtend_eq hw hle hlt)

theorem toSigned_field (hw : 1 ≤ w) (hc : Fits w c) : toSigned w (ofBits (field w c)) = c := by
  have hpow : (2 : Int) ^ w = 2 * 2 ^ (w - 1) := by rw [← pow_succ', Nat.sub_add_cancel hw]
  have hcast : ((c % 2 ^ w).toNat : Int) = c % 2 ^ w := Int.toNat_of_nonneg (Int.emod_nonneg _ (by positivity))
  have hlt : (c % 2 ^ w).toNat < 2 ^ w := by
    have hmod := Int.emod_lt_of_pos c (show (0 : Int) < 2 ^ w by positivity)
    rw [← hcast] at hmod
    exact_mod_cast hmod
  rw [field, ofBits_toBits, Nat.mod_eq_of_lt hlt, toSigned, hcast]
  obtain hneg | hpos := lt_or_ge c 0
  · have hmod : c % 2 ^ w = c + 2 ^ w := by
      rw [← Int.add_emod_right, Int.emod_eq_of_lt (by omega) (by omega)]
    rw [if_neg, hmod]
    · omega
    · rw [not_lt, ← Nat.cast_le (α := Int), hcast, hmod]
      push_cast
      omega
  · have hmod : c % 2 ^ w = c := Int.emod_eq_of_lt hpos (by omega)
    rw [if_pos, hmod]
    rw [← Nat.cast_lt (α := Int), hcast, hmod]
    push_cast
    exact hc.2

end Packing

end Ocudu.Ofh
