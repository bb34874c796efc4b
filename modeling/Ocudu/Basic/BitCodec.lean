import Mathlib.Tactic

/-! Bit strings packed into bytes, most significant bit first, and read back. -/

namespace Ocudu.BitCodec

def toBits : Nat → Nat → List Bool
  | 0, _ => []
  | n + 1, v => v.testBit n :: toBits n v

def ofBits (bits : List Bool) : Nat := bits.foldl (fun v b => 2 * v + b.toNat) 0

def padTo (n : Nat) (bits : List Bool) : List Bool :=
  bits ++ List.replicate (n - bits.length) false

def packBytes : Nat → List Bool → List UInt8
  | 0, _ => []
  | n + 1, bits => UInt8.ofNat (ofBits (padTo 8 (bits.take 8))) :: packBytes n (bits.drop 8)

def encode (bits : List Bool) : List UInt8 := packBytes ((bits.length + 7) / 8) bits

def bitsOf (bytes : List UInt8) : List Bool := bytes.flatMap fun b => toBits 8 b.toNat

/-- The next `n` bits as a number and the rest; past the end, zeros are read. -/
def unpack (n : Nat) (bits : List Bool) : Nat × List Bool :=
  (ofBits (padTo n (bits.take n)), bits.drop n)

@[simp] theorem length_toBits (n v : Nat) : (toBits n v).length = n := by
  induction n with
  | zero => rfl
  | succ n ih => simp [toBits, ih]

theorem foldl_bits (bits : List Bool) (v : Nat) :
    bits.foldl (fun v b => 2 * v + b.toNat) v = v * 2 ^ bits.length + ofBits bits := by
  unfold ofBits
  induction bits generalizing v with
  | nil => simp
  | cons b bits ih =>
    rw [List.foldl_cons, List.foldl_cons, ih, ih (2 * 0 + b.toNat), List.length_cons, pow_succ]
    ring

@[simp] theorem ofBits_cons (b : Bool) (bits : List Bool) :
    ofBits (b :: bits) = b.toNat * 2 ^ bits.length + ofBits bits := by
  rw [ofBits, List.foldl_cons, foldl_bits]
  simp

@[simp] theorem ofBits_nil : ofBits [] = 0 := rfl

theorem ofBits_lt (bits : List Bool) : ofBits bits < 2 ^ bits.length := by
  induction bits with
  | nil => simp
  | cons b bits ih =>
    rw [ofBits_cons, List.length_cons, pow_succ]
    have : b.toNat ≤ 1 := Bool.toNat_le b
    nlinarith

@[simp] theorem ofBits_toBits (n v : Nat) : ofBits (toBits n v) = v % 2 ^ n := by
  induction n with
  | zero => simp [toBits, Nat.mod_one]
  | succ n ih =>
    rw [toBits, ofBits_cons, length_toBits, ih, Nat.mod_pow_succ, Nat.toNat_testBit, Nat.mul_comm,
      Nat.add_comm]

theorem toBits_add_mul (n k v : Nat) : toBits n (k * 2 ^ n + v) = toBits n v := by
  have hmod : ∀ i, i < n → (k * 2 ^ n + v).testBit i = v.testBit i := by
    intro i hi
    have h := Nat.testBit_mod_two_pow (k * 2 ^ n + v) n i
    rw [Nat.add_comm, Nat.add_mul_mod_self_right, Nat.testBit_mod_two_pow] at h
    simpa [hi, Nat.add_comm] using h.symm
  have key : ∀ m, m ≤ n → toBits m (k * 2 ^ n + v) = toBits m v := by
    intro m
    induction m with
    | zero => intro _; rfl
    | succ m ih =>
      intro hm
      rw [toBits, toBits, ih (by omega), hmod m (by omega)]
  exact key n (le_refl n)

@[simp] theorem toBits_ofBits (bits : List Bool) : toBits bits.length (ofBits bits) = bits := by
  induction bits with
  | nil => rfl
  | cons b bits ih =>
    rw [List.length_cons, toBits, ofBits_cons, toBits_add_mul, ih]
    congr 1
    have hlt := ofBits_lt bits
    cases b with
    | false => simp [Nat.testBit_lt_two_pow hlt]
    | true =>
      simp only [Bool.toNat_true, Nat.one_mul]
      rw [Nat.testBit_two_pow_add_eq, Nat.testBit_lt_two_pow hlt]
      rfl

@[simp] theorem length_padTo {n : Nat} {bits : List Bool} (h : bits.length ≤ n) :
    (padTo n bits).length = n := by
  simp [padTo]
  omega

theorem toBits_byte {bits : List Bool} (h : bits.length = 8) :
    toBits 8 (UInt8.ofNat (ofBits bits)).toNat = bits := by
  have hlt := ofBits_lt bits
  rw [h] at hlt
  have : (UInt8.ofNat (ofBits bits)).toNat = ofBits bits := Nat.mod_eq_of_lt hlt
  rw [this]
  conv_rhs => rw [← toBits_ofBits bits, h]

theorem bitsOf_packBytes (n : Nat) {bits : List Bool} (h : bits.length ≤ 8 * n) :
    bitsOf (packBytes n bits) = padTo (8 * n) bits := by
  induction n generalizing bits with
  | zero =>
    have : bits = [] := by simpa using h
    simp [this, packBytes, bitsOf, padTo]
  | succ n ih =>
    have hlen : (padTo 8 (bits.take 8)).length = 8 := length_padTo (by simp)
    have hdrop : (bits.drop 8).length ≤ 8 * n := by simp; omega
    have hcons : bitsOf (packBytes (n + 1) bits) =
        padTo 8 (bits.take 8) ++ bitsOf (packBytes n (bits.drop 8)) := by
      rw [packBytes, bitsOf, List.flatMap_cons, toBits_byte hlen]
      rfl
    rw [hcons, ih hdrop]
    by_cases h8 : 8 ≤ bits.length
    · have htake : padTo 8 (bits.take 8) = bits.take 8 := by
        simp [padTo, h8]
      rw [htake, padTo, padTo, ← List.append_assoc, List.take_append_drop, List.length_drop]
      congr 2
      omega
    · have hnil : bits.drop 8 = [] := List.drop_eq_nil_of_le (by omega)
      rw [hnil, List.take_of_length_le (by omega)]
      simp only [padTo, List.nil_append, List.append_assoc, List.replicate_append_replicate,
        List.length_nil]
      congr 2
      omega

@[simp] theorem length_packBytes (n : Nat) (bits : List Bool) : (packBytes n bits).length = n := by
  induction n generalizing bits with
  | zero => rfl
  | succ n ih => simp [packBytes, ih]

@[simp] theorem length_encode (bits : List Bool) : (encode bits).length = (bits.length + 7) / 8 :=
  length_packBytes _ _

theorem bitsOf_encode (bits : List Bool) :
    bitsOf (encode bits) = padTo (8 * ((bits.length + 7) / 8)) bits :=
  bitsOf_packBytes _ (by omega)

theorem drop_toBits (k n v : Nat) : (toBits (k + n) v).drop k = toBits n v := by
  induction k with
  | zero => rw [Nat.zero_add, List.drop_zero]
  | succ k ih => rw [Nat.succ_add, toBits, List.drop_succ_cons, ih]

theorem ofBits_eq_zero {bits : List Bool} : ofBits bits = 0 ↔ ∀ b ∈ bits, b = false := by
  induction bits with
  | nil => simp
  | cons b bits ih =>
    rw [ofBits_cons, Nat.add_eq_zero_iff, ih]
    cases b <;> simp

theorem shiftLeft_mod_eq_zero {n k : Nat} (hk : k ≤ n) (v : Nat) :
    v <<< k % 2 ^ n = 0 ↔ ∀ b ∈ (toBits n v).drop k, b = false := by
  obtain ⟨m, rfl⟩ : ∃ m, n = k + m := ⟨n - k, by omega⟩
  rw [drop_toBits, ← ofBits_eq_zero, ofBits_toBits, Nat.shiftLeft_eq, pow_add, Nat.mul_comm v,
    Nat.mul_mod_mul_left]
  simp

theorem bitsOf_append (xs ys : List UInt8) : bitsOf (xs ++ ys) = bitsOf xs ++ bitsOf ys :=
  List.flatMap_append

@[simp] theorem length_bitsOf (bytes : List UInt8) : (bitsOf bytes).length = 8 * bytes.length := by
  induction bytes with
  | nil => rfl
  | cons b bytes ih =>
    rw [bitsOf, List.flatMap_cons, List.length_append, length_toBits, List.length_cons]
    have : (List.flatMap (fun b => toBits 8 b.toNat) bytes).length = 8 * bytes.length := ih
    omega

theorem toBits_getLastD {bytes : List UInt8} (h : bytes ≠ []) :
    toBits 8 (bytes.getLastD 0).toNat = (bitsOf bytes).drop (8 * (bytes.length - 1)) := by
  have hsplit := List.dropLast_concat_getLast h
  have hlast : bytes.getLastD 0 = bytes.getLast h := by
    rw [List.getLastD_eq_getLast?, List.getLast?_eq_some_getLast h, Option.getD_some]
  have hlen : (bitsOf bytes.dropLast).length = 8 * (bytes.length - 1) := by
    rw [length_bitsOf, List.length_dropLast]
  conv_rhs => rw [← hsplit, bitsOf_append]
  rw [hlast, List.drop_append_of_le_length (by rw [hlen]; simp [hsplit]),
    List.drop_of_length_le (by rw [hlen]; simp [hsplit])]
  simp [bitsOf]

end Ocudu.BitCodec
