import Ocudu.Basic.BitStream

/-! `bit_ref` and `cbit_ref` of `asn1_utils.cpp`: the writer and the reader of all ASN.1 messages. -/

namespace Ocudu.Asn1

open BitCodec BitReader

abbrev BitRef := BitWriter

namespace BitRef

variable (w : BitRef)

def pack (val nBits : Nat) : Except BitFault BitRef :=
  if nBits < 64 then .ok (w.packLoop nBits val nBits) else .error .nofBits

def packBytes (bytes : List UInt8) : Except BitFault BitRef :=
  if bytes.isEmpty then .ok w
  else if w.offset = 0 then .ok { w with bytes := w.bytes ++ bytes }
  else bytes.foldlM (fun w byte => pack w byte.toNat 8) w

def alignBytesZero : BitRef := { w with offset := 0 }

end BitRef

abbrev CbitRef := BitReader

def ceilFrac (n d : Nat) : Nat := (n + (d - 1)) % 2 ^ 32 / d

namespace CbitRef

variable (r : CbitRef)

def remBytes : Nat := r.bytes.length - r.it

def extraByte : Nat := if r.offset ≠ 0 then 1 else 0

def unpack (tBits nBits : Nat) : Except BitFault (Bool × Nat × CbitRef) :=
  if nBits ≤ tBits then unpackLoop nBits r 0 nBits else .error .nofBits

def unpackBytesLoop : CbitRef → List UInt8 → Except BitFault (Bool × List UInt8 × CbitRef)
  | r, [] => .ok (true, [], r)
  | r, _ :: out => do
    match ← unpack r 8 8 with
    | (false, val, r) => return (false, UInt8.ofNat val :: out, r)
    | (true, val, r) =>
      let (ok, out, r) ← unpackBytesLoop r out
      return (ok, UInt8.ofNat val :: out, r)

def copyAll (bytes out : List UInt8) : Except BitFault (List UInt8) :=
  if bytes.length ≤ out.length then .ok (bytes ++ out.drop bytes.length) else .error .outOfBounds

def unpackBytes (out : List UInt8) : Except BitFault (Bool × List UInt8 × CbitRef) :=
  if out.isEmpty then .ok (true, out, r)
  else if remBytes r < out.length then .ok (false, out, r)
  else if r.offset = 0 then do
    let out' ← copyAll r.bytes out
    return (true, out', { r with it := r.it + out.length })
  else unpackBytesLoop r out

def alignBytes : Bool × CbitRef :=
  if r.offset ≠ 0 then
    if r.it = r.bytes.length then (false, r) else (true, { r with it := r.it + 1, offset := 0 })
  else (true, r)

def advanceIt (n : Nat) : Except BitFault CbitRef :=
  if n ≤ remBytes r then .ok { r with it := r.it + n } else .error .outOfBounds

def advanceBits (nBits : UInt32) : Except BitFault (Bool × CbitRef) :=
  let sum := (r.offset + nBits.toNat) % 2 ^ 32
  if remBytes r < ceilFrac sum 8 then .ok (false, r)
  else (advanceIt r (sum / 8)).map fun r => (true, { r with offset := sum % 8 })

def advanceBytes (bytes : UInt32) : Except BitFault (Bool × CbitRef) :=
  if remBytes r < (bytes.toNat + extraByte r) % 2 ^ 32 then .ok (false, r)
  else (advanceIt r bytes.toNat).map fun r => (true, r)

/-- The view over an empty buffer, if there are not enough bytes. -/
def subview (offsetBytes lenBytes : UInt32) : Except BitFault (Bool × CbitRef) := do
  let bufferRemBytes := remBytes r % 2 ^ 32
  let nofBytesNeeded := (lenBytes.toNat + extraByte r) % 2 ^ 32
  if bufferRemBytes < (offsetBytes.toNat + nofBytesNeeded) % 2 ^ 32 then return (false, ⟨[], 0, 0⟩)
  else
    let start ← advanceIt r offsetBytes.toNat
    let stop ← advanceIt start nofBytesNeeded
    return (true, ⟨(r.bytes.take stop.it).drop start.it, 0, r.offset⟩)

end CbitRef

inductive PackOp
  | pack (val nBits : Nat)
  | packBytes (bytes : List UInt8)
  | alignBytesZero

namespace PackOp

def step (w : BitRef) : PackOp → Except BitFault BitRef
  | .pack val nBits => BitRef.pack w val nBits
  | .packBytes bytes => BitRef.packBytes w bytes
  | .alignBytesZero => .ok (BitRef.alignBytesZero w)

def append (bits : List Bool) : PackOp → List Bool
  | .pack val nBits => bits ++ toBits nBits val
  | .packBytes bytes => bits ++ bitsOf bytes
  | .alignBytesZero => padTo (8 * ((bits.length + 7) / 8)) bits

def Packable : PackOp → Prop
  | .pack _ nBits => nBits < 64
  | .packBytes _ | .alignBytesZero => True

instance : DecidablePred Packable
  | .pack _ nBits => inferInstanceAs (Decidable (nBits < 64))
  | .packBytes _ => .isTrue trivial
  | .alignBytesZero => .isTrue trivial

end PackOp

namespace BitRef

open BitWriter

variable {w : BitRef} {bits : List Bool}

theorem pack_ok (h : Holds w bits) (val : Nat) {nBits : Nat} (hn : nBits < 64) :
    ∃ w', pack w val nBits = .ok w' ∧ Holds w' (bits ++ toBits nBits val) :=
  ⟨_, if_pos hn, h.packLoop nBits val (Nat.le_refl nBits)⟩

theorem pack_holds (h : Holds w bits) {val nBits : Nat} {w' : BitRef} (hpack : pack w val nBits = .ok w') :
    Holds w' (bits ++ toBits nBits val) := by
  rw [pack] at hpack
  split_ifs at hpack
  cases hpack
  exact h.packLoop nBits val (Nat.le_refl nBits)

theorem packEach_ok (h : Holds w bits) (bytes : List UInt8) :
    ∃ w', bytes.foldlM (fun w byte => pack w byte.toNat 8) w = .ok w' ∧ Holds w' (bits ++ bitsOf bytes) := by
  induction bytes generalizing w bits with
  | nil => exact ⟨w, rfl, by simpa [bitsOf] using h⟩
  | cons b bytes ih =>
    obtain ⟨w₁, hok, h₁⟩ := pack_ok h b.toNat (show 8 < 64 by decide)
    obtain ⟨w', hok', h'⟩ := ih h₁
    refine ⟨w', ?_, ?_⟩
    · rw [List.foldlM_cons, hok]
      exact hok'
    · rw [List.append_assoc] at h'
      exact h'

theorem packBytes_ok (h : Holds w bits) (bytes : List UInt8) :
    ∃ w', packBytes w bytes = .ok w' ∧ Holds w' (bits ++ bitsOf bytes) := by
  rw [packBytes]
  by_cases hempty : bytes = []
  · subst hempty
    exact ⟨w, rfl, by simpa [bitsOf] using h⟩
  rw [if_neg (by simpa using hempty)]
  by_cases h0 : w.offset = 0
  · rw [if_pos h0]
    refine ⟨_, rfl, ?_, ?_⟩
    · rw [encode_append (h.offset.symm.trans h0), encode_bitsOf, h.bytes]
    · rw [List.length_append, length_bitsOf, Nat.add_mul_mod_self_left]
      exact h.offset
  · rw [if_neg h0]
    exact packEach_ok h bytes

theorem alignBytesZero_holds (h : Holds w bits) :
    Holds (alignBytesZero w) (padTo (8 * ((bits.length + 7) / 8)) bits) where
  bytes := by
    have hbytes : encode (bitsOf (encode bits)) = encode bits := encode_bitsOf (encode bits)
    rw [bitsOf_encode] at hbytes
    rw [hbytes]
    exact h.bytes
  offset := by
    rw [length_padTo (by omega), Nat.mul_mod_right]
    rfl

theorem step_ok (h : Holds w bits) {op : PackOp} (hop : op.Packable) :
    ∃ w', op.step w = .ok w' ∧ Holds w' (op.append bits) := by
  cases op with
  | pack val nBits => exact pack_ok h val hop
  | packBytes bytes => exact packBytes_ok h bytes
  | alignBytesZero => exact ⟨_, rfl, alignBytesZero_holds h⟩

theorem run_ok (ops : List PackOp) (hops : ∀ op ∈ ops, op.Packable) {w : BitRef} {bits : List Bool}
    (h : Holds w bits) : ∃ w', Machine.run PackOp.step w ops = .ok w' ∧ Holds w' (ops.foldl PackOp.append bits) := by
  induction ops generalizing w bits with
  | nil => exact ⟨w, rfl, h⟩
  | cons op ops ih =>
    obtain ⟨w₁, hok, h₁⟩ := step_ok h (hops op List.mem_cons_self)
    rw [Machine.run_cons_ok hok, List.foldl_cons]
    exact ih (fun op' hop' => hops op' (List.mem_cons_of_mem _ hop')) h₁

end BitRef

inductive ReadOp
  | unpack (tBits nBits : Nat)
  | unpackBytes (out : List UInt8)
  | advanceBits (nBits : UInt32)
  | advanceBytes (bytes : UInt32)
  | alignBytes
  | subview (offsetBytes lenBytes : UInt32)

namespace ReadOp

/-- The bits that the operation is to consume, or to have in view, at a position. -/
def need (pos : Nat) : ReadOp → Nat
  | .unpack _ nBits => nBits
  | .unpackBytes out => 8 * out.length
  | .advanceBits nBits => nBits.toNat
  | .advanceBytes bytes => 8 * bytes.toNat
  | .alignBytes => (8 - pos % 8) % 8
  | .subview offsetBytes lenBytes => 8 * (offsetBytes.toNat + lenBytes.toNat)

variable (bytes : List UInt8) (pos : Nat)

def Enough (op : ReadOp) : Prop := pos + op.need pos ≤ 8 * bytes.length

instance (op : ReadOp) : Decidable (op.Enough bytes pos) := inferInstanceAs (Decidable (_ ≤ _))

/-- What the operation does when enough bits are left. -/
def Succeeds (op : ReadOp) : Prop :=
  match op with
  | .unpack tBits nBits => CbitRef.unpack (at' bytes pos) tBits nBits =
      .ok (true, ofBits ((rest bytes pos).take nBits), at' bytes (pos + nBits))
  | .unpackBytes out => ∃ out', CbitRef.unpackBytes (at' bytes pos) out =
      .ok (true, out', at' bytes (pos + 8 * out.length)) ∧ bitsOf out' = (rest bytes pos).take (8 * out.length)
  | .advanceBits nBits => CbitRef.advanceBits (at' bytes pos) nBits = .ok (true, at' bytes (pos + nBits.toNat))
  | .advanceBytes n => CbitRef.advanceBytes (at' bytes pos) n = .ok (true, at' bytes (pos + 8 * n.toNat))
  | .alignBytes => CbitRef.alignBytes (at' bytes pos) = (true, at' bytes (pos + (8 - pos % 8) % 8))
  | .subview offsetBytes lenBytes => ∃ view start, start < 8 ∧
      CbitRef.subview (at' bytes pos) offsetBytes lenBytes = .ok (true, at' view start) ∧
      8 * lenBytes.toNat ≤ (rest view start).length ∧ (rest view start).take (8 * lenBytes.toNat) =
        (rest bytes (pos + 8 * offsetBytes.toNat)).take (8 * lenBytes.toNat)

/-- What the operation does when not enough bits are left: it stays within the buffers, and says so. -/
def Fails (op : ReadOp) : Prop :=
  match op with
  | .unpack tBits nBits => ∃ val r, CbitRef.unpack (at' bytes pos) tBits nBits = .ok (false, val, r)
  | .unpackBytes out => ∃ out' r, CbitRef.unpackBytes (at' bytes pos) out = .ok (false, out', r) ∧
      out'.length = out.length
  | .advanceBits nBits => CbitRef.advanceBits (at' bytes pos) nBits = .ok (false, at' bytes pos)
  | .advanceBytes n => CbitRef.advanceBytes (at' bytes pos) n = .ok (false, at' bytes pos)
  | .alignBytes => CbitRef.alignBytes (at' bytes pos) = (false, at' bytes pos)
  | .subview offsetBytes lenBytes => ∃ view, CbitRef.subview (at' bytes pos) offsetBytes lenBytes = .ok (false, view)

/-- The operation reads from the list of the bits that are left. -/
def Correct (op : ReadOp) : Prop :=
  if op.Enough bytes pos then op.Succeeds bytes pos else op.Fails bytes pos

variable {bytes} {pos} in
theorem correct_of_enough {op : ReadOp} (h : op.Enough bytes pos) : op.Correct bytes pos ↔ op.Succeeds bytes pos := by
  rw [Correct, if_pos h]

variable {bytes} {pos} in
theorem correct_of_not_enough {op : ReadOp} (h : ¬ op.Enough bytes pos) : op.Correct bytes pos ↔ op.Fails bytes pos := by
  rw [Correct, if_neg h]

/-- The number of bits is one that the type of the value has. -/
def Readable : ReadOp → Prop
  | .unpack tBits nBits => nBits ≤ tBits
  | _ => True

/-- An aligned read of bytes is one of the whole buffer, and the 32-bit sums decide as the sums do. -/
def Sound (op : ReadOp) : Prop :=
  match op with
  | .unpack _ _ | .alignBytes => True
  | .unpackBytes out => pos % 8 = 0 → out ≠ [] → pos + 8 * out.length ≤ 8 * bytes.length → out.length = bytes.length
  | .advanceBits nBits => pos % 8 + nBits.toNat + 7 < 2 ^ 32 ∨
      pos % 8 + nBits.toNat < 2 ^ 32 ∧ pos + nBits.toNat ≤ 8 * bytes.length
  | .advanceBytes n => pos % 8 = 0 ∨ n.toNat + 1 < 2 ^ 32 ∨ pos + 8 * n.toNat ≤ 8 * bytes.length
  | .subview offsetBytes lenBytes =>
    let nofBytesNeeded := lenBytes.toNat + if pos % 8 ≠ 0 then 1 else 0
    let bufferRemBytes := bytes.length - pos / 8
    if offsetBytes.toNat + nofBytesNeeded ≤ bufferRemBytes then
      (offsetBytes.toNat + nofBytesNeeded) % 2 ^ 32 ≤ bufferRemBytes % 2 ^ 32 ∧ nofBytesNeeded < 2 ^ 32
    else bufferRemBytes % 2 ^ 32 < (offsetBytes.toNat + nofBytesNeeded) % 2 ^ 32

end ReadOp

namespace CbitRef

variable {bytes : List UInt8} {pos : Nat}

@[simp] theorem remBytes_at (bytes : List UInt8) (pos : Nat) : remBytes (at' bytes pos) = bytes.length - pos / 8 := rfl

@[simp] theorem extraByte_at (bytes : List UInt8) (pos : Nat) :
    extraByte (at' bytes pos) = if pos % 8 ≠ 0 then 1 else 0 := rfl

theorem unpack_at (hpos : pos ≤ 8 * bytes.length) {tBits nBits : Nat} (hn : nBits ≤ tBits) :
    unpack (at' bytes pos) tBits nBits =
      .ok (if pos + nBits ≤ 8 * bytes.length then
          (true, ofBits ((rest bytes pos).take nBits), at' bytes (pos + nBits))
        else (false, ofBits (rest bytes pos) * 2 ^ (nBits - (rest bytes pos).length), at' bytes (8 * bytes.length))) := by
  rw [unpack, if_pos hn, unpackLoop_at nBits bytes 0 hpos (Nat.le_refl nBits), Nat.zero_add, Nat.zero_add]
  congr 1
  refine if_congr ?_ rfl rfl
  rw [length_rest]
  omega

theorem unpackBytesLoop_at (hpos : pos ≤ 8 * bytes.length) (out : List UInt8) :
    ∃ ok out' r, unpackBytesLoop (at' bytes pos) out = .ok (ok, out', r) ∧ out'.length = out.length ∧
      (pos + 8 * out.length ≤ 8 * bytes.length →
        ok = true ∧ r = at' bytes (pos + 8 * out.length) ∧ bitsOf out' = (rest bytes pos).take (8 * out.length)) ∧
      (8 * bytes.length < pos + 8 * out.length → ok = false) := by
  induction out generalizing pos with
  | nil =>
    refine ⟨true, [], _, rfl, rfl, fun _ => ⟨rfl, rfl, by simp [bitsOf]⟩, fun h => ?_⟩
    simp only [List.length_nil] at h
    omega
  | cons b out ih =>
    have hread := unpack_at hpos (show 8 ≤ 8 from Nat.le_refl 8)
    by_cases hbyte : pos + 8 ≤ 8 * bytes.length
    · rw [if_pos hbyte] at hread
      obtain ⟨ok, out', r, hloop, hlen, henough, hnot⟩ := ih hbyte
      refine ⟨ok, UInt8.ofNat (ofBits ((rest bytes pos).take 8)) :: out', r, ?_, ?_, fun h => ?_, fun h => ?_⟩
      · rw [unpackBytesLoop, hread]
        simp only [ok_bind]
        rw [hloop]
        rfl
      · rw [List.length_cons, List.length_cons, hlen]
      · rw [List.length_cons] at h ⊢
        obtain ⟨hok, hr, hbits⟩ := henough (by omega)
        have htake : ((rest bytes pos).take 8).length = 8 := by
          rw [List.length_take, length_rest]
          omega
        have hsum : 8 * (out.length + 1) = 8 + 8 * out.length := by omega
        refine ⟨hok, by rw [hr, hsum, Nat.add_assoc], ?_⟩
        rw [bitsOf, List.flatMap_cons, toBits_byte htake, hsum, List.take_add, drop_rest]
        exact congrArg _ hbits
      · rw [List.length_cons] at h
        exact hnot (by omega)
    · rw [if_neg hbyte] at hread
      refine ⟨false, UInt8.ofNat (ofBits (rest bytes pos) * 2 ^ (8 - (rest bytes pos).length)) :: out,
        at' bytes (8 * bytes.length), ?_, rfl, fun h => ?_, fun _ => rfl⟩
      · rw [unpackBytesLoop, hread]
        rfl
      · rw [List.length_cons] at h
        omega

theorem bitsOf_take (bytes : List UInt8) (n : Nat) : bitsOf (bytes.take n) = (bitsOf bytes).take (8 * n) := by
  have hsplit : bitsOf bytes = bitsOf (bytes.take n) ++ bitsOf (bytes.drop n) := by
    rw [← bitsOf_append, List.take_append_drop]
  by_cases hn : n ≤ bytes.length
  · rw [hsplit, List.take_left']
    rw [length_bitsOf, List.length_take, Nat.min_eq_left hn]
  · rw [List.take_of_length_le (by omega), List.take_of_length_le (by rw [length_bitsOf]; omega)]

theorem bitsOf_drop (bytes : List UInt8) (n : Nat) : bitsOf (bytes.drop n) = (bitsOf bytes).drop (8 * n) := by
  have hsplit : bitsOf bytes = bitsOf (bytes.take n) ++ bitsOf (bytes.drop n) := by
    rw [← bitsOf_append, List.take_append_drop]
  by_cases hn : n ≤ bytes.length
  · rw [hsplit, List.drop_left']
    rw [length_bitsOf, List.length_take, Nat.min_eq_left hn]
  · rw [List.drop_eq_nil_of_le (by omega), List.drop_eq_nil_of_le (by rw [length_bitsOf]; omega)]
    rfl

theorem take_rest_slice (bytes : List UInt8) (offset start len n : Nat) (hn : offset + n ≤ 8 * len) :
    (rest ((bytes.take (start + len)).drop start) offset).take n = (rest bytes (8 * start + offset)).take n := by
  rw [rest, rest, bitsOf_drop, bitsOf_take, List.drop_drop, List.drop_take, List.take_take,
    Nat.min_eq_left (by lia)]

theorem advanceIt_at (bytes : List UInt8) (pos n : Nat) :
    advanceIt (at' bytes pos) n =
      if n ≤ bytes.length - pos / 8 then .ok (at' bytes (pos + 8 * n)) else .error .outOfBounds := by
  have hnext : ({ at' bytes pos with it := (at' bytes pos).it + n } : CbitRef) = at' bytes (pos + 8 * n) := by
    simp only [at', BitReader.mk.injEq, true_and]
    lia
  rw [advanceIt, remBytes_at, hnext]

section

variable (hpos : pos ≤ 8 * bytes.length)
include hpos

theorem correct_unpack {tBits nBits : Nat} (hn : nBits ≤ tBits) :
    (ReadOp.unpack tBits nBits).Correct bytes pos := by
  have hread := unpack_at hpos hn
  by_cases h : pos + nBits ≤ 8 * bytes.length
  · have henough : (ReadOp.unpack tBits nBits).Enough bytes pos := h
    rw [if_pos h] at hread
    exact (ReadOp.correct_of_enough henough).mpr hread
  · have hnot : ¬ (ReadOp.unpack tBits nBits).Enough bytes pos := h
    rw [if_neg h] at hread
    exact (ReadOp.correct_of_not_enough hnot).mpr ⟨_, _, hread⟩

theorem correct_alignBytes : ReadOp.alignBytes.Correct bytes pos := by
  have henough : ReadOp.alignBytes.Enough bytes pos := by
    show pos + (8 - pos % 8) % 8 ≤ 8 * bytes.length
    lia
  rw [ReadOp.correct_of_enough henough]
  show alignBytes (at' bytes pos) = _
  rw [alignBytes]
  by_cases h0 : pos % 8 = 0
  · have hoff : ¬ (at' bytes pos).offset ≠ 0 := not_not.mpr h0
    rw [if_neg hoff, h0, Nat.sub_zero, Nat.mod_self, Nat.add_zero]
  · have hoff : (at' bytes pos).offset ≠ 0 := h0
    have hit : ¬ (at' bytes pos).it = (at' bytes pos).bytes.length := by
      simp only [at']
      lia
    rw [if_pos hoff, if_neg hit]
    simp only [at', Prod.mk.injEq, BitReader.mk.injEq, true_and]
    lia

theorem correct_unpackBytes_iff (out : List UInt8) :
    (ReadOp.unpackBytes out).Correct bytes pos ↔ (ReadOp.unpackBytes out).Sound bytes pos := by
  by_cases hempty : out = []
  · subst hempty
    have henough : (ReadOp.unpackBytes []).Enough bytes pos := hpos
    rw [ReadOp.correct_of_enough henough]
    refine iff_of_true ⟨[], rfl, ?_⟩ fun _ hne => absurd rfl hne
    simp [bitsOf]
  have hread : unpackBytes (at' bytes pos) out =
      if remBytes (at' bytes pos) < out.length then .ok (false, out, at' bytes pos)
      else if (at' bytes pos).offset = 0 then do
        let out' ← copyAll bytes out
        return (true, out', { at' bytes pos with it := (at' bytes pos).it + out.length })
      else unpackBytesLoop (at' bytes pos) out := by
    rw [unpackBytes, if_neg (by simpa using hempty)]
    rfl
  have hlen : 0 < out.length := List.length_pos_iff.mpr hempty
  rw [remBytes_at] at hread
  by_cases hrem : bytes.length - pos / 8 < out.length
  · have hnot : ¬ (ReadOp.unpackBytes out).Enough bytes pos := by
      show ¬ pos + 8 * out.length ≤ 8 * bytes.length
      lia
    rw [ReadOp.correct_of_not_enough hnot]
    rw [if_pos hrem] at hread
    exact iff_of_true ⟨out, _, hread, rfl⟩ fun _ _ h => absurd h hnot
  rw [if_neg hrem] at hread
  by_cases h0 : pos % 8 = 0
  · have hoff : (at' bytes pos).offset = 0 := h0
    have henough : (ReadOp.unpackBytes out).Enough bytes pos := by
      show pos + 8 * out.length ≤ 8 * bytes.length
      omega
    rw [if_pos hoff] at hread
    rw [ReadOp.correct_of_enough henough]
    by_cases hcopy : bytes.length ≤ out.length
    · -- the whole buffer is copied, and it is what was to be read
      have hstart : pos = 0 := by omega
      have hall : out.length = bytes.length := by lia
      rw [copyAll, if_pos hcopy, List.drop_eq_nil_of_le (by omega), List.append_nil] at hread
      refine iff_of_true ⟨bytes, ?_, ?_⟩ fun _ _ _ => hall
      · rw [hread]
        simp only [ok_bind, pure_eq_ok, Except.ok.injEq, Prod.mk.injEq, true_and, at', BitReader.mk.injEq]
        lia
      · rw [hstart, hall, rest, List.drop_zero, List.take_of_length_le (by rw [length_bitsOf])]
    · rw [copyAll, if_neg hcopy] at hread
      refine iff_of_false ?_ fun h => hcopy (h h0 hempty henough).ge
      rintro ⟨out', hok, -⟩
      rw [hread] at hok
      cases hok
  · have hoff : ¬ (at' bytes pos).offset = 0 := h0
    rw [if_neg hoff] at hread
    refine iff_of_true ?_ fun h => absurd h h0
    obtain ⟨ok, out', r, hloop, hlen', hyes, hno⟩ := unpackBytesLoop_at hpos out
    rw [hloop] at hread
    by_cases h : pos + 8 * out.length ≤ 8 * bytes.length
    · obtain ⟨rfl, rfl, hbits⟩ := hyes h
      have henough : (ReadOp.unpackBytes out).Enough bytes pos := h
      rw [ReadOp.correct_of_enough henough]
      exact ⟨out', hread, hbits⟩
    · obtain rfl := hno (by omega)
      have hnot : ¬ (ReadOp.unpackBytes out).Enough bytes pos := h
      rw [ReadOp.correct_of_not_enough hnot]
      exact ⟨out', r, hread, hlen'⟩

theorem correct_advanceBytes_iff (n : UInt32) :
    (ReadOp.advanceBytes n).Correct bytes pos ↔ (ReadOp.advanceBytes n).Sound bytes pos := by
  have hn := n.toNat_lt
  have hread : advanceBytes (at' bytes pos) n =
      if bytes.length - pos / 8 < (n.toNat + if pos % 8 ≠ 0 then 1 else 0) % 2 ^ 32 then .ok (false, at' bytes pos)
      else if n.toNat ≤ bytes.length - pos / 8 then .ok (true, at' bytes (pos + 8 * n.toNat))
      else .error .outOfBounds := by
    rw [advanceBytes, remBytes_at, extraByte_at, advanceIt_at]
    split_ifs <;> rfl
  by_cases h : pos + 8 * n.toNat ≤ 8 * bytes.length
  · have henough : (ReadOp.advanceBytes n).Enough bytes pos := h
    rw [ReadOp.correct_of_enough henough]
    refine iff_of_true ?_ (.inr (.inr h))
    show advanceBytes (at' bytes pos) n = _
    rw [hread, if_neg ?_, if_pos (by omega)]
    split_ifs with h0
    · omega
    · omega
  · have hnot : ¬ (ReadOp.advanceBytes n).Enough bytes pos := h
    rw [ReadOp.correct_of_not_enough hnot]
    show advanceBytes (at' bytes pos) n = _ ↔ _ ∨ _ ∨ _
    rw [hread]
    by_cases hwrap : pos % 8 = 0 ∨ n.toNat + 1 < 2 ^ 32
    · refine iff_of_true (if_pos ?_) (hwrap.imp_right .inl)
      split_ifs with h0
      · omega
      · omega
    · have h0 : pos % 8 ≠ 0 := fun h0 => hwrap (.inl h0)
      have hzero : (n.toNat + 1) % 2 ^ 32 = 0 := by omega
      refine iff_of_false ?_ (by omega)
      rw [if_pos h0, hzero, if_neg (Nat.not_lt_zero _)]
      split_ifs
      all_goals simp

theorem correct_advanceBits_iff (n : UInt32) :
    (ReadOp.advanceBits n).Correct bytes pos ↔ (ReadOp.advanceBits n).Sound bytes pos := by
  have hn := n.toNat_lt
  obtain ⟨sum, hsum⟩ : ∃ sum, (pos % 8 + n.toNat) % 2 ^ 32 = sum := ⟨_, rfl⟩
  have hread : advanceBits (at' bytes pos) n =
      if bytes.length - pos / 8 < (sum + 7) % 2 ^ 32 / 8 then .ok (false, at' bytes pos)
      else if sum / 8 ≤ bytes.length - pos / 8 then .ok (true, ⟨bytes, pos / 8 + sum / 8, sum % 8⟩)
      else .error .outOfBounds := by
    have hoff : (at' bytes pos).offset = pos % 8 := rfl
    have hceil : ceilFrac sum 8 = (sum + 7) % 2 ^ 32 / 8 := rfl
    rw [advanceBits, remBytes_at, hoff, hsum, hceil, advanceIt, remBytes_at]
    split_ifs <;> rfl
  have hnext : pos % 8 + n.toNat < 2 ^ 32 → (⟨bytes, pos / 8 + sum / 8, sum % 8⟩ : CbitRef) = at' bytes (pos + n.toNat) := by
    intro hlt
    simp only [at', BitReader.mk.injEq, true_and]
    lia
  by_cases hwrap : pos % 8 + n.toNat < 2 ^ 32
  · by_cases h : pos + n.toNat ≤ 8 * bytes.length
    · have henough : (ReadOp.advanceBits n).Enough bytes pos := h
      rw [ReadOp.correct_of_enough henough]
      refine iff_of_true ?_ (.inr ⟨hwrap, h⟩)
      show advanceBits (at' bytes pos) n = _
      rw [hread, if_neg (by lia), if_pos (by lia), hnext hwrap]
    · have hnot : ¬ (ReadOp.advanceBits n).Enough bytes pos := h
      rw [ReadOp.correct_of_not_enough hnot]
      show advanceBits (at' bytes pos) n = _ ↔ _ ∨ _ ∧ _
      rw [hread]
      by_cases hceil : pos % 8 + n.toNat + 7 < 2 ^ 32
      · exact iff_of_true (if_pos (by lia)) (.inl hceil)
      · -- the number of bytes required wraps around to zero
        refine iff_of_false ?_ (by omega)
        rw [if_neg (by omega)]
        split_ifs
        all_goals simp
  · -- the offset after the wrap is in the same byte
    have hsmall : sum < 8 := by omega
    refine iff_of_false (fun hcorrect => ?_) (by
      show ¬ (_ ∨ _ ∧ _)
      omega)
    by_cases hrem : bytes.length - pos / 8 < (sum + 7) % 2 ^ 32 / 8
    · omega
    rw [if_neg hrem, if_pos (by omega)] at hread
    by_cases henough : (ReadOp.advanceBits n).Enough bytes pos
    · rw [ReadOp.correct_of_enough henough] at hcorrect
      have hok : advanceBits (at' bytes pos) n = .ok (true, at' bytes (pos + n.toNat)) := hcorrect
      rw [hread] at hok
      simp only [at', Except.ok.injEq, Prod.mk.injEq, true_and, BitReader.mk.injEq] at hok
      omega
    · rw [ReadOp.correct_of_not_enough henough] at hcorrect
      have hok : advanceBits (at' bytes pos) n = .ok (false, at' bytes pos) := hcorrect
      rw [hread] at hok
      simp at hok

theorem correct_subview_iff (offsetBytes lenBytes : UInt32) :
    (ReadOp.subview offsetBytes lenBytes).Correct bytes pos ↔
      (ReadOp.subview offsetBytes lenBytes).Sound bytes pos := by
  obtain ⟨extra, hextra⟩ : ∃ extra, (if pos % 8 ≠ 0 then 1 else 0) = extra := ⟨_, rfl⟩
  have hone : pos % 8 = 0 ∧ extra = 0 ∨ pos % 8 ≠ 0 ∧ extra = 1 := by
    rw [← hextra]
    split_ifs with h0
    · exact .inr ⟨h0, rfl⟩
    · exact .inl ⟨not_not.mp h0, rfl⟩
  have hsound : (ReadOp.subview offsetBytes lenBytes).Sound bytes pos ↔
      if offsetBytes.toNat + (lenBytes.toNat + extra) ≤ bytes.length - pos / 8 then
        (offsetBytes.toNat + (lenBytes.toNat + extra)) % 2 ^ 32 ≤ (bytes.length - pos / 8) % 2 ^ 32 ∧
          lenBytes.toNat + extra < 2 ^ 32
      else (bytes.length - pos / 8) % 2 ^ 32 < (offsetBytes.toNat + (lenBytes.toNat + extra)) % 2 ^ 32 := by
    rw [← hextra]
    rfl
  have hread : subview (at' bytes pos) offsetBytes lenBytes =
      if (bytes.length - pos / 8) % 2 ^ 32 < (offsetBytes.toNat + (lenBytes.toNat + extra)) % 2 ^ 32 then
        .ok (false, ⟨[], 0, 0⟩)
      else do
        let start ← advanceIt (at' bytes pos) offsetBytes.toNat
        let stop ← advanceIt start ((lenBytes.toNat + extra) % 2 ^ 32)
        return (true, ⟨(bytes.take stop.it).drop start.it, 0, pos % 8⟩) := by
    rw [subview, remBytes_at, extraByte_at, hextra, Nat.add_mod_mod]
    rfl
  rw [hsound]
  by_cases h : offsetBytes.toNat + (lenBytes.toNat + extra) ≤ bytes.length - pos / 8
  · have henough : (ReadOp.subview offsetBytes lenBytes).Enough bytes pos := by
      show pos + 8 * (offsetBytes.toNat + lenBytes.toNat) ≤ 8 * bytes.length
      omega
    rw [ReadOp.correct_of_enough henough, if_pos h]
    by_cases hcmp : (offsetBytes.toNat + (lenBytes.toNat + extra)) % 2 ^ 32 ≤ (bytes.length - pos / 8) % 2 ^ 32
    · rw [if_neg (by omega), advanceIt_at, if_pos (by omega)] at hread
      simp only [ok_bind] at hread
      have hstart : (at' bytes (pos + 8 * offsetBytes.toNat)).it = pos / 8 + offsetBytes.toNat := by
        simp only [at']
        omega
      have hfits : (lenBytes.toNat + extra) % 2 ^ 32 ≤ bytes.length - (pos + 8 * offsetBytes.toNat) / 8 :=
        Nat.le_trans (Nat.mod_le _ _) (by lia)
      rw [advanceIt_at, if_pos hfits] at hread
      simp only [ok_bind, pure_eq_ok, hstart] at hread
      have hstop : (at' bytes (pos + 8 * offsetBytes.toNat + 8 * ((lenBytes.toNat + extra) % 2 ^ 32))).it =
          pos / 8 + offsetBytes.toNat + (lenBytes.toNat + extra) % 2 ^ 32 := by
        simp only [at']
        omega
      rw [hstop] at hread
      by_cases hlen : lenBytes.toNat + extra < 2 ^ 32
      · refine iff_of_true ?_ ⟨hcmp, hlen⟩
        rw [Nat.mod_eq_of_lt hlen] at hread
        have hview := take_rest_slice bytes (pos % 8) (pos / 8 + offsetBytes.toNat) (lenBytes.toNat + extra)
          (8 * lenBytes.toNat) (by lia)
        have hsum : 8 * (pos / 8 + offsetBytes.toNat) + pos % 8 = pos + 8 * offsetBytes.toNat := by omega
        rw [hsum] at hview
        refine ⟨_, pos % 8, Nat.mod_lt _ (by decide), hread.trans ?_, ?_, hview⟩
        · clear h hcmp hfits hstart hstop hone
          simp only [at', Except.ok.injEq, Prod.mk.injEq, true_and, BitReader.mk.injEq]
          omega
        · rw [length_rest, List.length_drop, List.length_take]
          lia
      · -- a view of 2 ^ 32 bytes gets none
        refine iff_of_false ?_ fun hs => hlen hs.2
        rintro ⟨view, start, hlt, hok, hle, -⟩
        clear h hcmp hfits hstart hstop
        have hzero : (lenBytes.toNat + extra) % 2 ^ 32 = 0 := by
          have := lenBytes.toNat_lt
          omega
        rw [hread, hzero] at hok
        simp only [at', Except.ok.injEq, Prod.mk.injEq, true_and, BitReader.mk.injEq, Nat.add_zero] at hok
        rw [length_rest, ← hok.1, List.length_drop, List.length_take] at hle
        omega
    · refine iff_of_false ?_ fun hs => hcmp hs.1
      rintro ⟨view, start, -, hok, -⟩
      rw [hread, if_pos (by omega)] at hok
      simp at hok
  · have hnot : ¬ (ReadOp.subview offsetBytes lenBytes).Enough bytes pos := by
      show ¬ pos + 8 * (offsetBytes.toNat + lenBytes.toNat) ≤ 8 * bytes.length
      omega
    rw [ReadOp.correct_of_not_enough hnot, if_neg h]
    by_cases hcmp : (bytes.length - pos / 8) % 2 ^ 32 < (offsetBytes.toNat + (lenBytes.toNat + extra)) % 2 ^ 32
    · rw [if_pos hcmp] at hread
      exact iff_of_true ⟨_, hread⟩ hcmp
    · refine iff_of_false ?_ hcmp
      rintro ⟨view, hok⟩
      rw [hread, if_neg hcmp] at hok
      obtain ⟨start, -, hok⟩ := bind_eq_ok.mp hok
      obtain ⟨stop, -, hok⟩ := bind_eq_ok.mp hok
      simp at hok

theorem correct_iff {op : ReadOp} (hop : op.Readable) :
    op.Correct bytes pos ↔ op.Sound bytes pos := by
  cases op with
  | unpack tBits nBits => exact iff_of_true (correct_unpack hpos hop) trivial
  | unpackBytes out => exact correct_unpackBytes_iff hpos out
  | advanceBits n => exact correct_advanceBits_iff hpos n
  | advanceBytes n => exact correct_advanceBytes_iff hpos n
  | alignBytes => exact iff_of_true (correct_alignBytes hpos) trivial
  | subview offsetBytes lenBytes => exact correct_subview_iff hpos offsetBytes lenBytes

end

end CbitRef

/-- The writer always appends the bits it is given. The reader consumes the bits that it is asked for exactly where
its 32-bit sums do not wrap around and an aligned read of bytes is one of the whole buffer. -/
theorem bitRefs_refine_bits (start : List UInt8) (ops : List PackOp) (hops : ∀ op ∈ ops, op.Packable)
    (bytes : List UInt8) (pos : Nat) (op : ReadOp) (hpos : pos ≤ 8 * bytes.length) (hop : op.Readable) :
    (∃ w, Machine.run PackOp.step ⟨start, 0⟩ ops = .ok w ∧
      w.bytes = encode (ops.foldl PackOp.append (bitsOf start))) ∧ (op.Correct bytes pos ↔ op.Sound bytes pos) := by
  obtain ⟨w, hrun, hw⟩ := BitRef.run_ok ops hops (BitWriter.Holds.start start)
  exact ⟨⟨w, hrun, hw.bytes⟩, CbitRef.correct_iff hpos hop⟩

theorem bitRefs_refine_bits_sample :
    (∃ w, Machine.run PackOp.step ⟨[7], 0⟩ [.pack 5 3, .packBytes [255, 1], .alignBytesZero] = .ok w ∧
      w.bytes = encode ([PackOp.pack 5 3, .packBytes [255, 1], .alignBytesZero].foldl PackOp.append (bitsOf [7]))) ∧
    ((ReadOp.unpackBytes [0]).Correct [1, 2, 3] 9 ↔ (ReadOp.unpackBytes [0]).Sound [1, 2, 3] 9) :=
  bitRefs_refine_bits [7] _ (by decide) [1, 2, 3] 9 _ (by decide) trivial

/-- The second byte of three is to be read, and the span of one byte gets the whole buffer. -/
theorem unpackBytes_copies_buffer : ¬ ∀ (bytes : List UInt8) (pos : Nat) (op : ReadOp), pos ≤ 8 * bytes.length →
    op.Readable → op.Correct bytes pos := by
  intro h
  have hsound := (CbitRef.correct_unpackBytes_iff (by decide) [0]).mp (h [1, 2, 3] 8 (.unpackBytes [0]) (by decide) trivial)
  exact absurd (hsound (by decide) (by decide) (by decide)) (by decide)

end Ocudu.Asn1
