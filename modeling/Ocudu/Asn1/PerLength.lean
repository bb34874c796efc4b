import Ocudu.Asn1.PerBounds
import Ocudu.Asn1.PerIntegerCodec
import Ocudu.Basic.BitParser

/-! `pack_length`, `unpack_length` and the octet strings of unbounded length. -/

namespace Ocudu.Asn1

open BitCodec BitReader BitWriter BitParser

abbrev LengthRefused (aligned : Bool) (n : Nat) : Prop := if aligned then 65536 < n else 16384 ≤ n

def lengthOctets (n : Nat) : List Bool :=
  if n < 128 then toBits 8 n else toBits 2 0b10 ++ toBits 14 n

def lengthField (aligned : Bool) (pos n : Nat) : List Bool :=
  (if aligned then alignment pos else []) ++ lengthOctets n

section Writing

variable {w : BitRef} {bits : List Bool}

theorem packOctets_ok (n : Nat) (hw : w.Holds bits) : ∃ w',
    (if n < 128 then do
        let w ← BitRef.pack w n 8
        return some w
      else do
        let w ← BitRef.pack w 0b10 2
        let w ← BitRef.pack w n 14
        return some w) = .ok (some w') ∧ w'.Holds (bits ++ lengthOctets n) := by
  rw [lengthOctets]
  by_cases hshort : n < 128
  · obtain ⟨w', hpack, hw'⟩ := BitRef.pack_ok hw n (show 8 < 64 by decide)
    rw [if_pos hshort, if_pos hshort, hpack]
    exact ⟨w', rfl, hw'⟩
  · obtain ⟨w₁, hpack₁, h₁⟩ := BitRef.pack_ok hw 0b10 (show 2 < 64 by decide)
    obtain ⟨w', hpack, hw'⟩ := BitRef.pack_ok h₁ n (show 14 < 64 by decide)
    rw [if_neg hshort, if_neg hshort, hpack₁]
    simp only [ok_bind]
    rw [hpack]
    exact ⟨w', rfl, List.append_assoc bits _ _ ▸ hw'⟩

theorem packLength_field (aligned : Bool) {n : Nat} (hn : n < 16384) (hw : w.Holds bits) :
    ∃ w', packLength w n aligned = .ok (some w') ∧ w'.Holds (bits ++ lengthField aligned bits.length n) := by
  cases aligned with
  | false =>
    obtain ⟨w', hpack, hw'⟩ := packOctets_ok n hw
    refine ⟨w', ?_, hw'⟩
    rw [← hpack, packLength, if_pos (by decide), if_pos hn]
  | true =>
    obtain ⟨w', hpack, hw'⟩ := packOctets_ok n (BitRef.alignBytesZero_field hw)
    refine ⟨w', ?_, ?_⟩
    · rw [← hpack, packLength, if_neg (by decide), if_neg (by omega)]
      dsimp only
      rw [if_pos hn]
    · rw [lengthField, if_pos rfl, ← List.append_assoc]
      exact hw'

theorem packLength_long {n : Nat} (hlow : 16384 ≤ n) (hhigh : n ≤ 65536) (hw : w.Holds bits) :
    ∃ w' field, packLength w n true = .ok (some w') ∧ w'.Holds (bits ++ field) := by
  have halign := BitRef.alignBytesZero_field hw
  obtain ⟨w₁, hpack₁, h₁⟩ := BitRef.pack_ok halign 0b11 (show 2 < 64 by decide)
  obtain ⟨w₂, hpack₂, h₂⟩ := BitRef.pack_ok h₁ (n / 16384) (show 6 < 64 by decide)
  obtain ⟨w', hpack, hw'⟩ := BitRef.pack_ok h₂ (n - n / 16384 * 16384) (show 16 < 64 by decide)
  rw [List.append_assoc, List.append_assoc, List.append_assoc] at hw'
  refine ⟨w', _, ?_, hw'⟩
  rw [packLength, if_neg (by decide), if_neg (by omega)]
  dsimp only
  rw [if_neg (by omega), if_neg (by omega), hpack₁]
  simp only [ok_bind]
  rw [hpack₂]
  simp only [ok_bind]
  rw [hpack]
  rfl

theorem packLength_refused {aligned : Bool} {n : Nat} (h : LengthRefused aligned n) :
    packLength w n aligned = .ok none := by
  cases aligned with
  | false =>
    have hn : 16384 ≤ n := h
    rw [packLength, if_pos (by decide), if_neg (by omega), if_neg (by omega)]
    rfl
  | true =>
    have hn : 65536 < n := h
    rw [packLength, if_neg (by decide), if_pos hn]

theorem packLength_succeeds {aligned : Bool} {n : Nat} (h : ¬ LengthRefused aligned n) (hw : w.Holds bits) :
    ∃ w' field, packLength w n aligned = .ok (some w') ∧ w'.Holds (bits ++ field) := by
  by_cases hn : n < 16384
  · obtain ⟨w', hpack, hw'⟩ := packLength_field aligned hn hw
    exact ⟨w', _, hpack, hw'⟩
  · cases aligned with
    | false => exact absurd (Nat.le_of_not_lt hn) h
    | true => exact packLength_long (Nat.le_of_not_lt hn) (Nat.le_of_not_lt h) hw

end Writing

/-! `unpack_length` as a parser -/

def CbitRef.align : BitParser Unit := fun r => (CbitRef.alignValue r).map fun res => res.map fun r => ((), r)

theorem handleCode_eq_bind {α β : Type} (x : BitParser α) (f : α → BitParser β) (r : BitReader) :
    handleCode (x r) (fun res => f res.1 res.2) = (x >>= f) r := by
  show _ = BitParser.bind x f r
  rw [BitParser.bind]
  cases x r with
  | error e => rfl
  | ok res => cases res <;> rfl

theorem handleCode_align {α : Type} (f : BitParser α) (r : CbitRef) :
    handleCode (CbitRef.alignValue r) f = (CbitRef.align >>= fun _ => f) r := by
  rw [← handleCode_eq_bind, CbitRef.align]
  cases CbitRef.alignValue r with
  | error e => rfl
  | ok res => cases res <;> rfl

theorem CbitRef.unpackValue_eq_read (tBits nBits : Nat) (r : CbitRef) :
    CbitRef.unpackValue r tBits nBits = BitParser.read tBits nBits r := by
  rw [CbitRef.unpackValue, CbitRef.unpack, BitParser.read]
  split_ifs <;> rfl

def lengthParser (aligned : Bool) : BitParser Nat :=
  if !aligned then do
    let ext ← BitParser.read 8 1
    if ext = 0 then BitParser.read 32 7
    else do
      let ext ← BitParser.read 8 1
      require (ext = 0)
      BitParser.read 32 14
  else do
    CbitRef.align
    let val ← BitParser.read 32 8
    if val < 128 then pure val
    else do
      require (val - 128 < 64)
      let octet ← BitParser.read 32 8
      pure ((val - 128) <<< 8 + octet)

theorem unpackLength_eq (r : CbitRef) (aligned : Bool) : unpackLength r aligned = lengthParser aligned r := by
  cases aligned with
  | false =>
    rw [unpackLength, lengthParser, if_pos (by decide), if_pos (by decide), ← handleCode_eq_bind,
      CbitRef.unpackValue_eq_read]
    congr 1
    funext ext
    by_cases h : ext.1 = 0
    · rw [if_pos h, if_pos h, CbitRef.unpackValue_eq_read]
    rw [if_neg h, if_neg h, ← handleCode_eq_bind, CbitRef.unpackValue_eq_read]
    congr 1
    funext ext
    by_cases h : ext.1 = 0
    · rw [if_pos h, require_ok h, CbitRef.unpackValue_eq_read]
    · rw [if_neg h, require_fail h]
  | true =>
    rw [unpackLength, lengthParser, if_neg (by decide), if_neg (by decide), ← handleCode_align]
    congr 1
    funext r
    rw [← handleCode_eq_bind, CbitRef.unpackValue_eq_read]
    congr 1
    funext val
    by_cases hshort : val.1 < 128
    · rw [if_pos hshort, if_pos hshort]
      rfl
    rw [if_neg hshort, if_neg hshort]
    by_cases hlong : val.1 - 128 < 64
    · rw [if_pos hlong, require_ok hlong, ← handleCode_eq_bind, CbitRef.unpackValue_eq_read]
      rfl
    · rw [if_neg hlong, require_fail hlong]

theorem CbitRef.align_at {bytes : List UInt8} {pos : Nat} (hpos : pos ≤ 8 * bytes.length) :
    CbitRef.align (at' bytes pos) = .ok (some ((), at' bytes (pos + (8 - pos % 8) % 8))) := by
  rw [CbitRef.align, CbitRef.alignValue_at hpos]
  rfl

theorem CbitRef.align_accepts (pos : Nat) : AcceptsAt CbitRef.align pos (alignment pos) () := by
  intro bytes tail hpos hrest
  rw [CbitRef.align_at hpos, length_alignment]

theorem lengthOctets_accepts {n : Nat} (hn : n < 16384) : Accepts (lengthParser false) (lengthOctets n) n := by
  rw [lengthParser, if_pos (by decide), lengthOctets]
  by_cases hshort : n < 128
  · have hsplit : toBits 8 n = toBits 1 0 ++ toBits 7 n := by
      rw [show 8 = 1 + 7 from rfl, toBits_add, Nat.shiftRight_eq_div_pow, Nat.div_eq_of_lt hshort]
    rw [if_pos hshort, hsplit]
    exact (Accepts.read (by decide) (by decide)).bind (Accepts.read (by decide) hshort)
  · have hsplit : toBits 2 0b10 = toBits 1 1 ++ (toBits 1 0 ++ []) := rfl
    rw [if_neg hshort, hsplit, List.append_assoc, List.append_assoc]
    apply (Accepts.read (by decide) (by decide)).bind
    apply (Accepts.read (by decide) (by decide)).bind
    exact (Accepts.require rfl).bind (Accepts.read (by decide) hn)

theorem long_octets {n : Nat} (hn : n < 16384) :
    toBits 2 0b10 ++ toBits 14 n = toBits 8 (128 + n / 256) ++ toBits 8 (n % 256) := by
  have hfirst : (2 * 2 ^ 14 + n) >>> 14 = 2 := by
    rw [Nat.shiftRight_eq_div_pow]
    omega
  have hoctet : (2 * 2 ^ 14 + n) >>> 8 = 128 + n / 256 := by
    rw [Nat.shiftRight_eq_div_pow]
    lia
  have hlow : toBits 8 (2 * 2 ^ 14 + n) = toBits 8 (n % 256) := by
    rw [show 2 * 2 ^ 14 + n = 128 * 2 ^ 8 + n by omega, toBits_add_mul]
    exact (toBits_mod (show 8 ≤ 8 by decide)).symm
  calc toBits 2 0b10 ++ toBits 14 n
    _ = toBits (2 + 14) (2 * 2 ^ 14 + n) := by rw [toBits_add, hfirst, toBits_add_mul]
    _ = toBits (8 + 8) (2 * 2 ^ 14 + n) := rfl
    _ = toBits 8 (128 + n / 256) ++ toBits 8 (n % 256) := by rw [toBits_add, hoctet, hlow]

theorem lengthField_accepts (aligned : Bool) (pos : Nat) {n : Nat} (hn : n < 16384) :
    AcceptsAt (lengthParser aligned) pos (lengthField aligned pos n) n := by
  cases aligned with
  | false => exact (lengthOctets_accepts hn).at pos
  | true =>
    rw [lengthParser, if_neg (by decide), lengthField, if_pos rfl, lengthOctets]
    apply (CbitRef.align_accepts pos).bind
    apply Accepts.at
    by_cases hshort : n < 128
    · rw [if_pos hshort, ← List.append_nil (toBits 8 n)]
      apply (Accepts.read (by decide) (by omega)).bind
      rw [if_pos hshort]
      exact Accepts.pure n
    · have hvalue : (128 + n / 256 - 128) <<< 8 + n % 256 = n := by
        rw [Nat.shiftLeft_eq]
        lia
      rw [if_neg hshort, long_octets hn]
      apply (Accepts.read (by decide) (by omega)).bind
      rw [if_neg (by omega)]
      rw [← List.nil_append (toBits 8 (n % 256))]
      apply (Accepts.require (show 128 + n / 256 - 128 < 64 by omega)).bind
      have hread := (Accepts.read (show 8 ≤ 32 by decide) (show n % 256 < 2 ^ 8 by omega)).map
        fun octet => (128 + n / 256 - 128) <<< 8 + octet
      rwa [hvalue] at hread

theorem lengthParser_meets (aligned : Bool) {bytes : List UInt8} {pos : Nat} (hpos : pos ≤ 8 * bytes.length) :
    Meets (lengthParser aligned) bytes pos fun n pos' =>
      n < 16384 ∧ pos + 8 ≤ pos' ∧ (128 ≤ n → pos + 16 ≤ pos') := by
  have hlt : ∀ pos n, pos + n ≤ 8 * bytes.length → fieldAt bytes pos n < 2 ^ n := by
    intro pos n hn
    have h := ofBits_lt ((rest bytes pos).take n)
    rwa [List.length_take, length_rest, Nat.min_eq_left (by omega)] at h
  rw [lengthParser]
  cases aligned with
  | false =>
    rw [if_pos (by decide)]
    refine Meets.bind (Meets.read hpos (by decide) fun _ hpos₁ => ?_)
    split_ifs
    · refine Meets.read hpos₁ (by decide) fun h₂ => ?_
      have := hlt _ _ h₂
      omega
    refine Meets.bind (Meets.read hpos₁ (by decide) fun _ hpos₂ => ?_)
    refine Meets.bind (Meets.require hpos₂ fun _ _ => ?_)
    refine Meets.read hpos₂ (by decide) fun h₃ => ?_
    have := hlt _ _ h₃
    omega
  | true =>
    rw [if_neg (by decide)]
    refine Meets.bind ⟨_, CbitRef.align_at hpos, ?_⟩
    rintro _ _ ⟨⟩
    refine ⟨_, rfl, by omega, fun hpos₁ => ?_⟩
    refine Meets.bind (Meets.read hpos₁ (by decide) fun h₂ hpos₂ => ?_)
    have hval := hlt _ _ h₂
    split_ifs with hshort
    · exact Meets.pure hpos₂ (by omega)
    refine Meets.bind (Meets.require hpos₂ fun hlong _ => ?_)
    refine Meets.bind (Meets.read hpos₂ (by decide) fun h₃ hpos₃ => Meets.pure hpos₃ ?_)
    have hoctet := hlt _ _ h₃
    rw [Nat.shiftLeft_eq]
    omega

def readByte : BitParser UInt8 := do
  let b ← BitParser.read 8 8
  pure (UInt8.ofNat b)

theorem readByte_accepts (b : UInt8) : Accepts readByte (toBits 8 b.toNat) b := by
  have h := (Accepts.read (show 8 ≤ 8 by decide) b.toNat_lt).map UInt8.ofNat
  rwa [UInt8.ofNat_toNat] at h

theorem readByte_meets {bytes : List UInt8} {pos : Nat} (hpos : pos ≤ 8 * bytes.length) :
    Meets readByte bytes pos fun _ pos' => pos' = pos + 8 :=
  Meets.bind (Meets.read hpos (by decide) fun _ hpos' => Meets.pure hpos' rfl)

namespace UnboundedOctstring

def pack (w : BitRef) (s : List UInt8) (aligned : Bool) : Except BitFault (Option BitRef) :=
  handleCode (packLength w (s.length % 2 ^ 32) aligned) fun w =>
    (s.foldlM (fun w b => BitRef.pack w b.toNat 8) w).map some

def unpack (r : CbitRef) (aligned : Bool) : Except BitFault (Option (List UInt8 × CbitRef)) :=
  handleCode (unpackLength r aligned) fun len => times len.1 readByte len.2

def field (aligned : Bool) (pos : Nat) (s : List UInt8) : List Bool := lengthField aligned pos s.length ++ bitsOf s

theorem unpack_eq (r : CbitRef) (aligned : Bool) :
    unpack r aligned = (lengthParser aligned >>= fun len => times len readByte) r := by
  rw [unpack, unpackLength_eq, handleCode_eq_bind (lengthParser aligned) fun len => times len readByte]

variable {w : BitRef} {bits : List Bool} {aligned : Bool} {s : List UInt8}

theorem pack_field (hs : s.length < 16384) (hw : w.Holds bits) :
    ∃ w', pack w s aligned = .ok (some w') ∧ w'.Holds (bits ++ field aligned bits.length s) := by
  obtain ⟨w₁, hpack₁, h₁⟩ := packLength_field aligned hs hw
  obtain ⟨w', hpack, hw'⟩ := BitRef.packEach_ok h₁ s
  rw [List.append_assoc] at hw'
  refine ⟨w', ?_, hw'⟩
  rw [pack, Nat.mod_eq_of_lt (by omega), hpack₁, handleCode, hpack]
  rfl

theorem pack_refused (h : LengthRefused aligned (s.length % 2 ^ 32)) : pack w s aligned = .ok none := by
  rw [pack, packLength_refused h]
  rfl

theorem pack_succeeds (h : ¬ LengthRefused aligned (s.length % 2 ^ 32)) (hw : w.Holds bits) :
    ∃ w' field, pack w s aligned = .ok (some w') ∧ w'.Holds (bits ++ field) := by
  obtain ⟨w₁, field, hpack₁, h₁⟩ := packLength_succeeds h hw
  obtain ⟨w', hpack, hw'⟩ := BitRef.packEach_ok h₁ s
  rw [List.append_assoc] at hw'
  refine ⟨w', _, ?_, hw'⟩
  rw [pack, hpack₁, handleCode, hpack]
  rfl

theorem unpack_field (pos : Nat) (hs : s.length < 16384) :
    AcceptsAt (fun r => unpack r aligned) pos (field aligned pos s) s := by
  have hparser : (fun r => unpack r aligned) = lengthParser aligned >>= fun len => times len readByte := by
    funext r
    exact unpack_eq r aligned
  rw [hparser]
  apply (lengthField_accepts aligned pos hs).bind
  exact (Accepts.times s fun b _ => readByte_accepts b).at _

theorem unpack_meets (aligned : Bool) {bytes : List UInt8} {pos : Nat} (hpos : pos ≤ 8 * bytes.length) :
    Meets (fun r => unpack r aligned) bytes pos fun s pos' =>
      s.length < 16384 ∧ (128 ≤ s.length → pos + 16 + 8 * s.length ≤ pos') := by
  have hparser : (fun r => unpack r aligned) = lengthParser aligned >>= fun len => times len readByte := by
    funext r
    exact unpack_eq r aligned
  rw [hparser]
  refine Meets.bind ((lengthParser_meets aligned hpos).mono fun len pos₁ hlen hpos₁ => ?_)
  refine (Meets.times len hpos₁ fun pos hpos => readByte_meets hpos).mono fun s pos₂ hs => ?_
  lia

end UnboundedOctstring

end Ocudu.Asn1
