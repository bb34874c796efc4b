import Ocudu.Basic.BitParser

/-! `bit_encoder` and `bit_decoder` of `bit_encoding.cpp`. The operations of the decoder are parsers. -/

namespace Ocudu.Support

open BitCodec BitReader BitWriter BitParser

abbrev BitEncoder := BitWriter

namespace BitEncoder

variable (e : BitEncoder)

def pack (val nBits : Nat) : Except BitFault BitEncoder :=
  if nBits ≤ 64 then .ok (e.packLoop nBits val nBits) else .error .nofBits

def packBytes (bytes : List UInt8) : Except BitFault BitEncoder :=
  if bytes.isEmpty then .ok e
  else if e.offset = 0 then .ok { e with bytes := e.bytes ++ bytes }
  else bytes.foldlM (fun e byte => pack e byte.toNat 8) e

def packFields (fields : List (Nat × Nat)) : Except BitFault BitEncoder :=
  fields.foldlM (fun e field => pack e field.1 field.2) e

end BitEncoder

def fieldBits (fields : List (Nat × Nat)) : List Bool := fields.flatMap fun field => toBits field.2 field.1

@[simp] theorem fieldBits_cons (field : Nat × Nat) (fields : List (Nat × Nat)) :
    fieldBits (field :: fields) = toBits field.2 field.1 ++ fieldBits fields := List.flatMap_cons

@[simp] theorem fieldBits_append (xs ys : List (Nat × Nat)) : fieldBits (xs ++ ys) = fieldBits xs ++ fieldBits ys :=
  List.flatMap_append

@[simp] theorem fieldBits_nil : fieldBits [] = [] := rfl

@[simp] theorem length_fieldBits (fields : List (Nat × Nat)) : (fieldBits fields).length = (fields.map (·.2)).sum := by
  induction fields with
  | nil => rfl
  | cons field fields ih =>
    rw [fieldBits_cons, List.length_append, length_toBits, ih, List.map_cons, List.sum_cons]

namespace BitEncoder

variable {e : BitEncoder} {bits : List Bool}

theorem pack_ok (h : Holds e bits) (val : Nat) {nBits : Nat} (hn : nBits ≤ 64) :
    ∃ e', pack e val nBits = .ok e' ∧ Holds e' (bits ++ toBits nBits val) :=
  ⟨_, if_pos hn, h.packLoop nBits val (Nat.le_refl nBits)⟩

theorem packFields_ok (h : Holds e bits) (fields : List (Nat × Nat)) (hfields : ∀ field ∈ fields, field.2 ≤ 64) :
    ∃ e', packFields e fields = .ok e' ∧ Holds e' (bits ++ fieldBits fields) := by
  induction fields generalizing e bits with
  | nil => exact ⟨e, rfl, by rwa [fieldBits_nil, List.append_nil]⟩
  | cons field fields ih =>
    obtain ⟨e₁, hpack, h₁⟩ := pack_ok h field.1 (hfields field List.mem_cons_self)
    obtain ⟨e', hrest, h'⟩ := ih h₁ fun f hf => hfields f (List.mem_cons_of_mem _ hf)
    refine ⟨e', ?_, ?_⟩
    · rw [packFields, List.foldlM_cons, hpack]
      exact hrest
    · rwa [List.append_assoc, ← fieldBits_cons] at h'

theorem packFields_bytes (start : List UInt8) (fields : List (Nat × Nat)) (hfields : ∀ field ∈ fields, field.2 ≤ 64) :
    ∃ e', packFields ⟨start, 0⟩ fields = .ok e' ∧ e'.bytes = start ++ encode (fieldBits fields) := by
  obtain ⟨e', hpack, h'⟩ := packFields_ok (Holds.start start) fields hfields
  refine ⟨e', hpack, ?_⟩
  rw [h'.bytes, encode_append (by rw [length_bitsOf, Nat.mul_mod_right]), encode_bitsOf]

theorem pack_byte (bytes : List UInt8) {val : Nat} (hval : val < 2 ^ 8) :
    pack ⟨bytes, 0⟩ val 8 = .ok ⟨bytes ++ [UInt8.ofNat val], 0⟩ := by
  obtain ⟨e', hpack, h'⟩ := pack_ok (Holds.start bytes) val (show 8 ≤ 64 by decide)
  have hbytes : e'.bytes = bytes ++ [UInt8.ofNat val] := by
    rw [h'.bytes, encode_append (by rw [length_bitsOf, Nat.mul_mod_right]), encode_bitsOf,
      encode_byte (by simp) (by simp), ofBits_padTo, ofBits_toBits, length_toBits, Nat.mod_eq_of_lt hval, Nat.sub_self,
      pow_zero, Nat.mul_one]
  have hoffset : e'.offset = 0 := by
    rw [h'.offset, List.length_append, length_bitsOf, length_toBits]
    lia
  rw [hpack, ← hbytes, ← hoffset]

theorem packBytes_aligned (bytes more : List UInt8) : packBytes ⟨bytes, 0⟩ more = .ok ⟨bytes ++ more, 0⟩ := by
  cases more with
  | nil =>
    rw [List.append_nil]
    rfl
  | cons b more => rfl

end BitEncoder

abbrev BitDecoder := BitReader

namespace BitDecoder

def nofBytes (d : BitDecoder) : Nat := d.it + if d.offset ≠ 0 then 1 else 0

def alignBytes (d : BitDecoder) : Except BitFault BitDecoder :=
  if d.offset = 0 then .ok d
  else if d.it = d.bytes.length then .error .outOfBounds
  else .ok { d with it := d.it + 1, offset := 0 }

/-- An unpacked value of some type, where the failure of the read is ignored. -/
def unpack {α : Type} (ofNat : Nat → α) (tBits n : Nat) : BitParser α := do
  let v ← readUnchecked tBits n
  pure (ofNat v)

def unpackAlignedBytes (n : Nat) : BitParser (List UInt8) := fun d => do
  let d ← alignBytes d
  if n = 0 then return some ([], d)
  else if d.bytes.length - d.it < n then return some ([], d)
  else return some ((d.bytes.drop d.it).take n, { d with it := d.it + n })

section Rules

variable {α : Type} {bytes : List UInt8}

theorem accepts_unpack (ofNat : Nat → α) {tBits n v : Nat} (hn : n ≤ tBits) (hv : v < 2 ^ n) :
    Accepts (unpack ofNat tBits n) (toBits n v) (ofNat v) :=
  (Accepts.readUnchecked hn hv).map ofNat

theorem meets_unpack {ofNat : Nat → α} {pos tBits n : Nat} {post : α → Nat → Prop} (hn : n ≤ tBits)
    (hfits : pos + n ≤ 8 * bytes.length) (h : post (ofNat (fieldAt bytes pos n)) (pos + n)) :
    Meets (unpack ofNat tBits n) bytes pos post := by
  refine .bind (.readUnchecked (Nat.le_of_add_right_le hfits) hn (fun _ _ => .pure hfits h) fun hshort => ?_)
  omega

theorem at'_byte (bytes : List UInt8) (i : Nat) : at' bytes (8 * i) = ⟨bytes, i, 0⟩ := by
  rw [at', Nat.mul_div_cancel_left i (by decide), Nat.mul_mod_right]

@[simp] theorem nofBytes_at' (bytes : List UInt8) (i : Nat) : nofBytes (at' bytes (8 * i)) = i := by
  rw [at'_byte]
  rfl

theorem unpackAlignedBytes_at (bytes : List UInt8) (i n : Nat) : unpackAlignedBytes n (at' bytes (8 * i)) =
    .ok (some (if n ≤ bytes.length - i then ((bytes.drop i).take n, at' bytes (8 * (i + n)))
      else ([], at' bytes (8 * i)))) := by
  rw [at'_byte, at'_byte]
  by_cases hzero : n = 0
  · subst hzero
    rw [if_pos (Nat.zero_le _), List.take_zero]
    rfl
  · have halign : alignBytes ⟨bytes, i, 0⟩ = .ok ⟨bytes, i, 0⟩ := rfl
    rw [unpackAlignedBytes, halign, ok_bind, if_neg hzero]
    by_cases hn : n ≤ bytes.length - i
    · rw [if_pos hn, if_neg (Nat.not_lt.mpr hn)]
      rfl
    · rw [if_neg hn, if_pos (Nat.not_le.mp hn)]
      rfl

theorem rest_byte (bytes : List UInt8) (i : Nat) : rest bytes (8 * i) = bitsOf (bytes.drop i) := by
  by_cases hi : i ≤ bytes.length
  · have hlen : (bitsOf (bytes.take i)).length = 8 * i := by
      rw [length_bitsOf, List.length_take_of_le hi]
    have hsplit : bitsOf bytes = bitsOf (bytes.take i) ++ bitsOf (bytes.drop i) := by
      rw [← bitsOf_append, List.take_append_drop]
    rw [rest, hsplit, List.drop_left' hlen]
  · have hlen : bytes.length ≤ i := Nat.le_of_not_le hi
    rw [rest, List.drop_of_length_le (by rw [length_bitsOf]; omega), List.drop_of_length_le hlen]
    rfl

theorem unpack_byte {i : Nat} {b : UInt8} {tail : List UInt8} (h : bytes.drop i = b :: tail) :
    unpack UInt8.ofNat 8 8 (at' bytes (8 * i)) = .ok (some (b, at' bytes (8 * (i + 1)))) := by
  have hi : i ≤ bytes.length := by
    by_contra hlt
    rw [List.drop_of_length_le (by omega)] at h
    cases h
  have hrest : rest bytes (8 * i) = toBits 8 b.toNat ++ bitsOf tail := by
    rw [rest_byte, h]
    exact List.flatMap_cons
  have hunpack := accepts_unpack UInt8.ofNat (Nat.le_refl 8) b.toNat_lt bytes (8 * i) _ (by omega) hrest
  rw [hunpack, UInt8.ofNat_toNat, length_toBits]
  rfl

end Rules

end BitDecoder

end Ocudu.Support
