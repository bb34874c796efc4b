import Ocudu.Basic.BitCodec
import Ocudu.Basic.Machine

/-! Writers and readers that go through a byte buffer with the offset of the next bit in a byte, and the lists
of bits that they append and consume. -/

namespace Ocudu.BitCodec

theorem ofBits_append (xs ys : List Bool) : ofBits (xs ++ ys) = ofBits xs * 2 ^ ys.length + ofBits ys := by
  rw [ofBits, List.foldl_append, foldl_bits]
  rfl

@[simp] theorem ofBits_replicate_false (n : Nat) : ofBits (List.replicate n false) = 0 :=
  ofBits_eq_zero.mpr fun _ h => List.eq_of_mem_replicate h

theorem ofBits_padTo (n : Nat) (bits : List Bool) : ofBits (padTo n bits) = ofBits bits * 2 ^ (n - bits.length) := by
  rw [padTo, ofBits_append, ofBits_replicate_false, List.length_replicate, Nat.add_zero]

theorem toBits_mod {n m v : Nat} (h : n ≤ m) : toBits n (v % 2 ^ m) = toBits n v := by
  induction n with
  | zero => rfl
  | succ n ih =>
    have hn : n < m := h
    rw [toBits, toBits, ih (by omega), Nat.testBit_mod_two_pow]
    simp [hn]

theorem toBits_add (a b v : Nat) : toBits (a + b) v = toBits a (v >>> b) ++ toBits b v := by
  induction a with
  | zero => rw [Nat.zero_add, toBits, List.nil_append]
  | succ a ih =>
    rw [Nat.succ_add, toBits, toBits, List.cons_append, ih, Nat.testBit_shiftRight, Nat.add_comm b]

theorem take_toBits (a b v : Nat) : (toBits (a + b) v).take a = toBits a (v >>> b) := by
  rw [toBits_add, List.take_left' (length_toBits a _)]

theorem encode_byte {bits : List Bool} (h : 0 < bits.length) (h8 : bits.length ≤ 8) :
    encode bits = [UInt8.ofNat (ofBits (padTo 8 bits))] := by
  have hone : (bits.length + 7) / 8 = 1 := by lia
  rw [encode, hone, packBytes, packBytes, List.take_of_length_le h8]

theorem packBytes_append (n k : Nat) {bits : List Bool} (h : bits.length = 8 * n) (rest : List Bool) :
    packBytes (n + k) (bits ++ rest) = packBytes n bits ++ packBytes k rest := by
  induction n generalizing bits with
  | zero =>
    have hnil : bits = [] := by simpa using h
    rw [hnil, Nat.zero_add, packBytes, List.nil_append, List.nil_append]
  | succ n ih =>
    have hdrop : (bits.drop 8).length = 8 * n := by
      rw [List.length_drop]
      omega
    rw [Nat.succ_add, packBytes, packBytes, List.take_append_of_le_length (by omega),
      List.drop_append_of_le_length (by omega), ih hdrop, List.cons_append]

theorem encode_append {bits : List Bool} (h : bits.length % 8 = 0) (rest : List Bool) :
    encode (bits ++ rest) = encode bits ++ encode rest := by
  have hlen : (bits.length + 7) / 8 = bits.length / 8 := by lia
  have hsum : ((bits ++ rest).length + 7) / 8 = bits.length / 8 + (rest.length + 7) / 8 := by
    rw [List.length_append]
    lia
  rw [encode, encode, encode, hsum, hlen, packBytes_append _ _ (by omega)]

@[simp] theorem encode_bitsOf (bytes : List UInt8) : encode (bitsOf bytes) = bytes := by
  induction bytes with
  | nil => rfl
  | cons b bytes ih =>
    have hcons : bitsOf (b :: bytes) = toBits 8 b.toNat ++ bitsOf bytes := List.flatMap_cons
    have hbyte : encode (toBits 8 b.toNat) = [b] := by
      rw [encode_byte (by simp) (by simp), ofBits_padTo, ofBits_toBits, length_toBits]
      simp
    rw [hcons, encode_append (by simp), ih, hbyte, List.singleton_append]

end Ocudu.BitCodec

namespace Ocudu

open BitCodec

def addBack (bytes : List UInt8) (v : UInt8) : List UInt8 := bytes.dropLast ++ [bytes.getLastD 0 + v]

theorem addBack_concat (bytes : List UInt8) (b v : UInt8) : addBack (bytes ++ [b]) v = bytes ++ [b + v] := by
  simp [addBack]

/-- A writer whose next bit has the given offset in the last byte; the offset is zero when the last byte is full. -/
structure BitWriter where
  bytes : List UInt8
  offset : Nat

namespace BitWriter

def packLoop : Nat → BitWriter → Nat → Nat → BitWriter
  | 0, w, _, _ => w
  | fuel + 1, w, val, nBits =>
    if nBits = 0 then w
    else
      let bytes := if w.offset = 0 then w.bytes ++ [0] else w.bytes
      let val := val &&& (2 ^ nBits - 1)
      if nBits < 8 - w.offset then
        ⟨addBack bytes (UInt8.ofNat (val <<< (8 - w.offset - nBits))), w.offset + nBits⟩
      else
        packLoop fuel ⟨addBack bytes (UInt8.ofNat (val >>> (nBits + w.offset - 8))), 0⟩ val (nBits - (8 - w.offset))

structure Holds (w : BitWriter) (bits : List Bool) : Prop where
  bytes : w.bytes = encode bits
  offset : w.offset = bits.length % 8

theorem Holds.start (bytes : List UInt8) : Holds ⟨bytes, 0⟩ (bitsOf bytes) where
  bytes := (encode_bitsOf bytes).symm
  offset := by
    rw [length_bitsOf, Nat.mul_mod_right]

theorem Holds.bitsOf_bytes {w : BitWriter} {bits : List Bool} (h : w.Holds bits) :
    ∃ zeros, bitsOf w.bytes = bits ++ zeros := by
  rw [h.bytes, bitsOf_encode, padTo]
  exact ⟨_, rfl⟩

theorem Holds.unique {w : BitWriter} {xs ys : List Bool} (h : w.Holds xs) (h' : w.Holds ys) : xs = ys := by
  have hbytes : encode xs = encode ys := h.bytes.symm.trans h'.bytes
  have hoffset : xs.length % 8 = ys.length % 8 := h.offset.symm.trans h'.offset
  have hcount := congrArg List.length hbytes
  rw [length_encode, length_encode] at hcount
  have hlen : xs.length = ys.length := by lia
  have hbits := congrArg bitsOf hbytes
  rw [bitsOf_encode, bitsOf_encode] at hbits
  exact List.append_inj_left hbits hlen

theorem encode_append_chunk (bits x : List Bool) (hpos : 0 < x.length) (hle : bits.length % 8 + x.length ≤ 8) :
    encode (bits ++ x) = addBack (if bits.length % 8 = 0 then encode bits ++ [0] else encode bits)
      (UInt8.ofNat (ofBits x * 2 ^ (8 - bits.length % 8 - x.length))) := by
  by_cases h0 : bits.length % 8 = 0
  · rw [if_pos h0, addBack_concat, encode_append h0, encode_byte hpos (by omega), ofBits_padTo, h0, UInt8.zero_add,
      Nat.sub_zero]
  · -- the last byte holds the bits after the last whole byte
    have hlen : (bits.take (8 * (bits.length / 8))).length = 8 * (bits.length / 8) := by
      rw [List.length_take]
      omega
    have hpart : (bits.drop (8 * (bits.length / 8))).length = bits.length % 8 := by
      rw [List.length_drop]
      omega
    obtain ⟨full, part, hbits, hfull, hpart⟩ : ∃ full part, bits = full ++ part ∧ full.length % 8 = 0 ∧
        part.length = bits.length % 8 :=
      ⟨_, _, (List.take_append_drop (8 * (bits.length / 8)) bits).symm, by rw [hlen]; lia, hpart⟩
    rw [if_neg h0]
    have hlast : encode part = [UInt8.ofNat (ofBits (padTo 8 part))] := encode_byte (by omega) (by omega)
    have hlast' : encode (part ++ x) = [UInt8.ofNat (ofBits (padTo 8 (part ++ x)))] :=
      encode_byte (by rw [List.length_append]; omega) (by rw [List.length_append]; omega)
    have hold : encode bits = encode full ++ [UInt8.ofNat (ofBits (padTo 8 part))] := by
      rw [hbits, encode_append hfull, hlast]
    have hnew : encode (bits ++ x) = encode full ++ [UInt8.ofNat (ofBits (padTo 8 (part ++ x)))] := by
      rw [hbits, List.append_assoc, encode_append hfull, hlast']
    have hsum : ofBits (padTo 8 (part ++ x)) = ofBits (padTo 8 part) + ofBits x * 2 ^ (8 - bits.length % 8 - x.length) := by
      have hexp : 8 - part.length = x.length + (8 - part.length - x.length) := by omega
      rw [ofBits_padTo, ofBits_padTo, ofBits_append, List.length_append, hexp, pow_add, ← hpart, Nat.sub_add_eq]
      ring_nf
    rw [hnew, hold, addBack_concat, hsum, UInt8.ofNat_add]

theorem Holds.packLoop (fuel : Nat) {w : BitWriter} {bits : List Bool} (h : w.Holds bits) (val : Nat) {nBits : Nat}
    (hfuel : nBits ≤ fuel) : (packLoop fuel w val nBits).Holds (bits ++ toBits nBits val) := by
  induction fuel generalizing w bits val nBits with
  | zero =>
    obtain rfl : nBits = 0 := by omega
    rw [BitWriter.packLoop, toBits, List.append_nil]
    exact h
  | succ fuel ih =>
    have hoff := h.offset
    have hlt : w.offset < 8 := by omega
    rw [BitWriter.packLoop]
    by_cases hzero : nBits = 0
    · rw [if_pos hzero, hzero, toBits, List.append_nil]
      exact h
    rw [if_neg hzero]
    dsimp only
    rw [Nat.and_two_pow_sub_one_eq_mod]
    by_cases hlast : nBits < 8 - w.offset
    · rw [if_pos hlast]
      have hchunk := encode_append_chunk bits (toBits nBits val) (by simp; omega) (by simp; omega)
      refine ⟨?_, ?_⟩
      · rw [hchunk, h.bytes, hoff, ofBits_toBits, length_toBits, Nat.shiftLeft_eq]
      · rw [List.length_append, length_toBits]
        dsimp only
        omega
    · rw [if_neg hlast]
      obtain ⟨k, rfl⟩ : ∃ k, nBits = (8 - w.offset) + k := ⟨nBits - (8 - w.offset), by omega⟩
      have hshift : 8 - w.offset + k + w.offset - 8 = k := by omega
      have hrest : 8 - w.offset + k - (8 - w.offset) = k := by omega
      have hchunk := encode_append_chunk bits (toBits (8 - w.offset) (val >>> k)) (by simp; omega) (by simp; omega)
      have hval : (val % 2 ^ (8 - w.offset + k)) >>> k = (val >>> k) % 2 ^ (8 - w.offset) := by
        rw [Nat.shiftRight_eq_div_pow, Nat.shiftRight_eq_div_pow, Nat.add_comm, pow_add, Nat.mod_mul_right_div_self]
      rw [toBits_add, ← List.append_assoc, hshift, hrest, ← toBits_mod (Nat.le_add_left k (8 - w.offset))]
      refine ih ⟨?_, ?_⟩ _ (by omega)
      · have hexp : 8 - bits.length % 8 - (8 - bits.length % 8) = 0 := Nat.sub_self _
        rw [hchunk, h.bytes, hval, ofBits_toBits, length_toBits, hoff, hexp, pow_zero, Nat.mul_one]
      · rw [List.length_append, length_toBits]
        dsimp only
        omega

end BitWriter

inductive BitFault
  /-- A number of bits that the type of the value or the writer does not take. -/
  | nofBits
  /-- A float that is converted to an integer although it is none. -/
  | conversion
  /-- An iterator that is dereferenced or moved past the end of its buffer. -/
  | outOfBounds
  deriving DecidableEq

structure BitReader where
  bytes : List UInt8
  it : Nat
  offset : Nat
  deriving DecidableEq

namespace BitReader

def unpackLoop : Nat → BitReader → Nat → Nat → Except BitFault (Bool × Nat × BitReader)
  | 0, r, val, _ => .ok (true, val, r)
  | fuel + 1, r, val, nBits =>
    if nBits = 0 then .ok (true, val, r)
    else if r.it = r.bytes.length then .ok (false, val, r)
    else
      match r.bytes[r.it]? with
      | none => .error .outOfBounds
      | some b =>
        if nBits < 8 - r.offset then
          let mask := 2 ^ (8 - r.offset) - 2 ^ (8 - r.offset - nBits)
          .ok (true, val + (b.toNat &&& mask) >>> (8 - r.offset - nBits), { r with offset := r.offset + nBits })
        else
          let mask := 2 ^ (8 - r.offset) - 1
          unpackLoop fuel { r with it := r.it + 1, offset := 0 }
            (val + (b.toNat &&& mask) <<< (nBits + r.offset - 8)) (nBits - (8 - r.offset))

def at' (bytes : List UInt8) (pos : Nat) : BitReader := ⟨bytes, pos / 8, pos % 8⟩

def rest (bytes : List UInt8) (pos : Nat) : List Bool := (bitsOf bytes).drop pos

@[simp] theorem length_rest (bytes : List UInt8) (pos : Nat) : (rest bytes pos).length = 8 * bytes.length - pos := by
  rw [rest, List.length_drop, length_bitsOf]

@[simp] theorem drop_rest (bytes : List UInt8) (pos n : Nat) : (rest bytes pos).drop n = rest bytes (pos + n) :=
  List.drop_drop

theorem rest_eq_of_getElem? {bytes : List UInt8} {pos : Nat} {b : UInt8} (h : bytes[pos / 8]? = some b) :
    rest bytes pos = toBits (8 - pos % 8) b.toNat ++ rest bytes (8 * (pos / 8 + 1)) := by
  obtain ⟨hlt, hget⟩ := List.getElem?_eq_some_iff.mp h
  have hsplit : bytes = bytes.take (pos / 8) ++ b :: bytes.drop (pos / 8 + 1) := by
    rw [← hget, List.cons_getElem_drop_succ, List.take_append_drop]
  have hlen : (bitsOf (bytes.take (pos / 8))).length = 8 * (pos / 8) := by
    rw [length_bitsOf, List.length_take, Nat.min_eq_left (Nat.le_of_lt hlt)]
  have hbits : bitsOf bytes =
      bitsOf (bytes.take (pos / 8)) ++ (toBits 8 b.toNat ++ bitsOf (bytes.drop (pos / 8 + 1))) := by
    conv_lhs => rw [hsplit, bitsOf_append]
    rfl
  have hnext : rest bytes (8 * (pos / 8 + 1)) = bitsOf (bytes.drop (pos / 8 + 1)) := by
    rw [rest, hbits, ← List.append_assoc, List.drop_left']
    rw [List.length_append, hlen, length_toBits]
    omega
  have hdrop : (toBits 8 b.toNat).drop (pos % 8) = toBits (8 - pos % 8) b.toNat := by
    obtain ⟨m, hm⟩ : ∃ m, 8 = pos % 8 + m := ⟨8 - pos % 8, by omega⟩
    have hdrop := drop_toBits (pos % 8) m b.toNat
    rw [← hm] at hdrop
    rw [hdrop]
    congr 1
    omega
  have hoff : pos - (bitsOf (bytes.take (pos / 8))).length = pos % 8 := by
    rw [hlen]
    omega
  rw [hnext, rest, hbits, List.drop_append, hoff, List.drop_eq_nil_of_le (by rw [hlen]; omega),
    List.drop_append_of_le_length (by simp; omega), hdrop, List.nil_append]

theorem and_mask_shiftRight (v n c : Nat) : (v &&& (2 ^ (n + c) - 2 ^ c)) >>> c = (v >>> c) % 2 ^ n := by
  have hmask : (2 ^ (n + c) - 2 ^ c) >>> c = 2 ^ n - 1 := by
    rw [Nat.shiftRight_eq_div_pow, pow_add, ← Nat.sub_one_mul, Nat.mul_div_cancel _ (Nat.two_pow_pos c)]
  rw [Nat.shiftRight_and_distrib, hmask, Nat.and_two_pow_sub_one_eq_mod]

theorem unpackLoop_at (fuel : Nat) (bytes : List UInt8) {pos : Nat} (val : Nat) {n : Nat}
    (hpos : pos ≤ 8 * bytes.length) (hfuel : n ≤ fuel) :
    unpackLoop fuel (at' bytes pos) val n =
      .ok (if n ≤ (rest bytes pos).length then
          (true, val + ofBits ((rest bytes pos).take n), at' bytes (pos + n))
        else
          (false, val + ofBits (rest bytes pos) * 2 ^ (n - (rest bytes pos).length),
            at' bytes (8 * bytes.length))) := by
  induction fuel generalizing pos val n with
  | zero =>
    obtain rfl : n = 0 := by omega
    simp [unpackLoop]
  | succ fuel ih =>
    rw [unpackLoop]
    by_cases hzero : n = 0
    · simp [hzero]
    rw [if_neg hzero]
    by_cases hend : pos = 8 * bytes.length
    · have hit : (at' bytes pos).it = (at' bytes pos).bytes.length := by
        simp only [at', hend]
        omega
      have hnil : rest bytes pos = [] := List.drop_eq_nil_of_le (by rw [length_bitsOf, hend])
      rw [if_pos hit, hnil, List.length_nil, if_neg (by omega), ofBits_nil, Nat.zero_mul, Nat.add_zero, hend]
    · have hlt : pos / 8 < bytes.length := by omega
      have hit : ¬ (at' bytes pos).it = (at' bytes pos).bytes.length := by
        simp only [at']
        omega
      obtain ⟨b, hb⟩ : ∃ b, bytes[pos / 8]? = some b := ⟨_, List.getElem?_eq_getElem hlt⟩
      have hget : (at' bytes pos).bytes[(at' bytes pos).it]? = some b := hb
      have hrest := rest_eq_of_getElem? hb
      have hoff : (at' bytes pos).offset = pos % 8 := rfl
      rw [if_neg hit, hget, hoff]
      dsimp only
      by_cases hlast : n < 8 - pos % 8
      · obtain ⟨c, hc⟩ : ∃ c, 8 - pos % 8 = n + c := ⟨8 - pos % 8 - n, by omega⟩
        have hle : n ≤ (rest bytes pos).length := by
          rw [hrest, List.length_append, length_toBits]
          omega
        have htake : (rest bytes pos).take n = toBits n (b.toNat >>> c) := by
          rw [hrest, hc, List.take_append_of_le_length (by simp), take_toBits]
        have hnext : at' bytes (pos + n) = { at' bytes pos with offset := pos % 8 + n } := by
          simp only [at', BitReader.mk.injEq, true_and]
          omega
        rw [if_pos hlast, if_pos hle, htake, ofBits_toBits, hc, Nat.add_sub_cancel_left, and_mask_shiftRight, hnext]
      · obtain ⟨k, rfl⟩ : ∃ k, n = 8 - pos % 8 + k := ⟨n - (8 - pos % 8), by omega⟩
        have hshift : 8 - pos % 8 + k + pos % 8 - 8 = k := by omega
        have hnext : ({ at' bytes pos with it := (at' bytes pos).it + 1, offset := 0 } : BitReader) =
            at' bytes (8 * (pos / 8 + 1)) := by
          simp only [at', BitReader.mk.injEq, true_and]
          omega
        rw [if_neg hlast, hnext, hshift, Nat.add_sub_cancel_left, ih _ (by omega) (by omega), hrest,
          List.length_append, length_toBits, Nat.and_two_pow_sub_one_eq_mod, Nat.shiftLeft_eq]
        by_cases hk : k ≤ (rest bytes (8 * (pos / 8 + 1))).length
        · have htake : (toBits (8 - pos % 8) b.toNat ++ rest bytes (8 * (pos / 8 + 1))).take (8 - pos % 8 + k) =
              toBits (8 - pos % 8) b.toNat ++ (rest bytes (8 * (pos / 8 + 1))).take k := by
            rw [List.take_append, length_toBits, List.take_of_length_le (by simp), Nat.add_sub_cancel_left]
          have hsum : pos + (8 - pos % 8 + k) = 8 * (pos / 8 + 1) + k := by omega
          rw [if_pos hk, if_pos (by omega), htake, ofBits_append, ofBits_toBits, List.length_take, Nat.min_eq_left hk,
            hsum, Nat.add_assoc]
        · have hexp : k = (rest bytes (8 * (pos / 8 + 1))).length +
              (8 - pos % 8 + k - (8 - pos % 8 + (rest bytes (8 * (pos / 8 + 1))).length)) := by omega
          have hexp' : 8 - pos % 8 + k - (8 - pos % 8 + (rest bytes (8 * (pos / 8 + 1))).length) =
              k - (rest bytes (8 * (pos / 8 + 1))).length := by omega
          rw [if_neg hk, if_neg (by omega), ofBits_append, ofBits_toBits, Nat.add_mul, Nat.mul_assoc, ← pow_add,
            ← hexp, hexp', Nat.add_assoc]

end BitReader

end Ocudu
