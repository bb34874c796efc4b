import Ocudu.Asn1.OpenType

/-! The lengths, octet strings and octet strings in open-type fields that come back from where they were packed. -/

namespace Ocudu.Asn1

open BitCodec BitReader BitWriter BitParser

section Statements

variable (aligned : Bool)

def LengthReadBack (n : Nat) : Prop :=
  ∀ w bits, w.Holds bits → ∃ res, packLength w n aligned = .ok res ∧ ∀ w', res = some w' →
    ∃ field, w'.Holds (bits ++ field) ∧ AcceptsAt (fun r => unpackLength r aligned) bits.length field n

def OctetsReadBack (s : List UInt8) : Prop :=
  ∀ w bits, w.Holds bits → ∃ res, UnboundedOctstring.pack w s aligned = .ok res ∧ ∀ w', res = some w' →
    ∃ field, w'.Holds (bits ++ field) ∧ AcceptsAt (fun r => UnboundedOctstring.unpack r aligned) bits.length field s

def FieldReadBack (s : List UInt8) : Prop :=
  ∀ w bits, w.Holds bits → ∃ res,
    VarlengthFieldPackGuard.scope w (fun w => UnboundedOctstring.pack w s aligned) aligned = .ok res ∧
      ∀ w', res = some w' → ∃ field, w'.Holds (bits ++ field) ∧ ∀ unset behind bytes tail,
        bits.length ≤ 8 * bytes.length → rest bytes bits.length = field ++ tail → tail.length < 2 ^ 32 →
          VarlengthFieldUnpackGuard.scope unset behind (fun r => UnboundedOctstring.unpack r aligned) aligned
            (at' bytes bits.length) = .ok (some (s, at' bytes (bits.length + field.length)))

end Statements

variable {aligned : Bool} {s : List UInt8} {w : BitRef} {bits : List Bool}

theorem Holds.acceptsAt_bytes {α : Type} {x : BitParser α} {field : List Bool} {a : α} (h : w.Holds (bits ++ field))
    (hx : AcceptsAt x bits.length field a) : x (at' w.bytes bits.length) =
      .ok (some (a, at' w.bytes (bits.length + field.length))) := by
  obtain ⟨zeros, hzeros⟩ := h.bitsOf_bytes
  have hlen := congrArg List.length hzeros
  rw [length_bitsOf, List.length_append, List.length_append] at hlen
  apply hx w.bytes zeros (by omega)
  rw [rest, hzeros, List.append_assoc, List.drop_left]

theorem lengthReadBack_iff (aligned : Bool) (n : Nat) :
    LengthReadBack aligned n ↔ n < 16384 ∨ LengthRefused aligned n := by
  have hstart : BitWriter.Holds ⟨[], 0⟩ [] := Holds.start []
  constructor
  · intro h
    by_contra hnot
    obtain ⟨hn, hrefused⟩ := not_or.mp hnot
    obtain ⟨w', -, hpack, -⟩ := packLength_succeeds hrefused hstart
    obtain ⟨res, hres, hread⟩ := h _ _ hstart
    rw [hpack] at hres
    cases hres
    obtain ⟨field, hw', haccepts⟩ := hread w' rfl
    have hlength := Holds.acceptsAt_bytes hw' haccepts
    rw [unpackLength_eq] at hlength
    obtain ⟨_, -, -, hlt, -⟩ := (lengthParser_meets aligned (Nat.zero_le _)).of_value hlength
    exact hn hlt
  · rintro (hn | hrefused) w bits hw
    · obtain ⟨w', hpack, hw'⟩ := packLength_field aligned hn hw
      refine ⟨_, hpack, ?_⟩
      rintro _ ⟨⟩
      refine ⟨_, hw', fun bytes tail hpos hrest => ?_⟩
      exact (unpackLength_eq _ aligned).trans (lengthField_accepts aligned bits.length hn bytes tail hpos hrest)
    · exact ⟨none, packLength_refused hrefused, fun _ h => by cases h⟩

theorem octetsReadBack_iff (aligned : Bool) (s : List UInt8) :
    OctetsReadBack aligned s ↔ s.length < 16384 ∨ LengthRefused aligned (s.length % 2 ^ 32) := by
  have hstart : BitWriter.Holds ⟨[], 0⟩ [] := Holds.start []
  constructor
  · intro h
    by_contra hnot
    obtain ⟨hn, hrefused⟩ := not_or.mp hnot
    obtain ⟨w', -, hpack, -⟩ := UnboundedOctstring.pack_succeeds hrefused hstart
    obtain ⟨res, hres, hread⟩ := h _ _ hstart
    rw [hpack] at hres
    cases hres
    obtain ⟨field, hw', haccepts⟩ := hread w' rfl
    have hoctets := Holds.acceptsAt_bytes hw' haccepts
    obtain ⟨_, -, -, hlt, -⟩ := (UnboundedOctstring.unpack_meets aligned (Nat.zero_le _)).of_value hoctets
    exact hn hlt
  · rintro (hn | hrefused) w bits hw
    · obtain ⟨w', hpack, hw'⟩ := UnboundedOctstring.pack_field hn hw
      refine ⟨_, hpack, ?_⟩
      rintro _ ⟨⟩
      exact ⟨_, hw', UnboundedOctstring.unpack_field bits.length hn⟩
    · exact ⟨none, UnboundedOctstring.pack_refused hrefused, fun _ h => by cases h⟩

/-! The field of an octet string -/

theorem scope_octets_lt {bytes : List UInt8} {pos : Nat} (hpos : pos ≤ 8 * bytes.length) {behind : Nat} {r : CbitRef}
    (h : VarlengthFieldUnpackGuard.scope 0 behind (fun r => UnboundedOctstring.unpack r aligned) aligned
      (at' bytes pos) = .ok (some (s, r))) : s.length < 16382 := by
  obtain ⟨g, view, start, hconstruct, hstart, hview, hlen⟩ :=
    VarlengthFieldUnpackGuard.construct_at 0 hpos aligned
  have hsmall : g.len.toNat < 16384 := hlen.elim (fun h => by rw [h]; decide) id
  simp only [VarlengthFieldUnpackGuard.scope, hconstruct, ok_bind] at h
  obtain ⟨⟨octets, inner⟩, hinner, hclose⟩ := handleCode_eq_some.mp h
  obtain ⟨_, hdestruct, hsome⟩ := map_eq_ok.mp hclose
  cases hsome
  obtain ⟨stop, -, hstop, -, htaken⟩ := (UnboundedOctstring.unpack_meets aligned hstart).of_value hinner
  show octets.length < 16382
  lia

theorem packGuard_close_ok (hw : w.Holds bits) {inner : BitRef} {content : List Bool} (hinner : inner.Holds content) :
    ∃ w' field, VarlengthFieldPackGuard.close w inner aligned = .ok w' ∧ w'.Holds (bits ++ field) := by
  obtain ⟨inner', hpack, -⟩ := BitRef.pack_ok hinner 0
    (show 7 - (BitRef.distance inner + (2 ^ 32 - 1)) % 2 ^ 32 % 8 < 64 by omega)
  rw [VarlengthFieldPackGuard.close, hpack]
  simp only [ok_bind]
  by_cases hrefused : LengthRefused aligned (BitRef.distance inner' / 8)
  · obtain ⟨w', hbytes, hw'⟩ := BitRef.packBytes_ok hw inner'.bytes
    rw [packLength_refused hrefused]
    exact ⟨w', _, hbytes, hw'⟩
  · obtain ⟨w₁, field, hlength, h₁⟩ := packLength_succeeds hrefused hw
    obtain ⟨w', hbytes, hw'⟩ := BitRef.packBytes_ok h₁ inner'.bytes
    rw [List.append_assoc] at hw'
    rw [hlength]
    exact ⟨w', _, hbytes, hw'⟩

theorem packGuard_close_octets (hw : w.Holds bits) {inner : BitRef} {content : List Bool} {n : Nat}
    (hinner : inner.Holds content) (hlen : content.length = 8 * n) (hn : n < 16384) :
    ∃ w', VarlengthFieldPackGuard.close w inner aligned = .ok w' ∧
      w'.Holds (bits ++ (lengthField aligned bits.length n ++ content)) := by
  have hdistance : ∀ {inner : BitRef}, inner.Holds content → BitRef.distance inner = 8 * n := by
    intro inner hinner
    have hoff : inner.offset = 0 := by
      rw [hinner.offset]
      lia
    have hbytes : inner.bytes.length = n := by
      rw [hinner.bytes, length_encode]
      lia
    rw [BitRef.distance, if_pos hoff, hoff, hbytes]
    lia
  have hspare : 7 - (BitRef.distance inner + (2 ^ 32 - 1)) % 2 ^ 32 % 8 = 0 := by
    rw [hdistance hinner]
    omega
  obtain ⟨inner', hpack, hinner'⟩ := BitRef.pack_ok hinner 0 (show 0 < 64 by decide)
  have hcontent : inner'.Holds content := by
    rwa [toBits, List.append_nil] at hinner'
  have hcount : BitRef.distance inner' / 8 = n := by
    rw [hdistance hcontent]
    omega
  have hbytes : bitsOf inner'.bytes = content := by
    rw [hcontent.bytes, bitsOf_encode, padTo]
    have hzero : 8 * ((content.length + 7) / 8) - content.length = 0 := by omega
    rw [hzero, List.replicate_zero, List.append_nil]
  obtain ⟨w₁, hlength, h₁⟩ := packLength_field aligned hn hw
  obtain ⟨w', hpacked, hw'⟩ := BitRef.packBytes_ok h₁ inner'.bytes
  rw [hbytes, List.append_assoc] at hw'
  refine ⟨w', ?_, hw'⟩
  simp only [VarlengthFieldPackGuard.close, hspare, hpack, ok_bind, hcount, hlength]
  exact hpacked

theorem rest_viewOf (bytes : List UInt8) (pos len : Nat) :
    (rest (viewOf bytes pos len) (pos % 8)).take (8 * len) = (rest bytes pos).take (8 * len) := by
  have hslice : viewOf bytes pos len =
      (bytes.take (pos / 8 + (len + if pos % 8 ≠ 0 then 1 else 0))).drop (pos / 8) := by
    rw [viewOf, List.drop_take, Nat.add_sub_cancel_left]
  rw [hslice, CbitRef.take_rest_slice, Nat.div_add_mod]
  split_ifs with h0 <;> omega

theorem field_at_start (s : List UInt8) {start : Nat} (h : aligned = true → start % 8 = 0) :
    UnboundedOctstring.field aligned start s = lengthOctets s.length ++ bitsOf s := by
  rw [UnboundedOctstring.field, lengthField]
  cases aligned with
  | false => rfl
  | true =>
    rw [if_pos rfl, alignment_of_aligned (h rfl)]
    rfl

@[simp] theorem length_lengthOctets (n : Nat) : (lengthOctets n).length = 8 * if n < 128 then 1 else 2 := by
  rw [lengthOctets]
  split_ifs <;> simp

theorem scope_field {α : Type} {x : BitParser α} {a : α} {content : List Bool} {n : Nat} (hn : n < 16384)
    (hlen : content.length = 8 * n) (hx : ∀ start, (aligned = true → start % 8 = 0) → AcceptsAt x start content a)
    (unset : UInt32) (behind : Nat) {bytes : List UInt8} {pos : Nat} {tail : List Bool} (hpos : pos ≤ 8 * bytes.length)
    (hrest : rest bytes pos = lengthField aligned pos n ++ content ++ tail) (htail : tail.length < 2 ^ 32) :
    VarlengthFieldUnpackGuard.scope unset behind x aligned (at' bytes pos) =
      .ok (some (a, at' bytes (pos + (lengthField aligned pos n ++ content).length))) := by
  rw [List.append_assoc] at hrest
  have hread := lengthField_accepts aligned pos hn bytes (content ++ tail) hpos hrest
  rw [← unpackLength_eq] at hread
  have hafter : rest bytes (pos + (lengthField aligned pos n).length) = content ++ tail := by
    rw [← drop_rest, hrest, List.drop_left]
  have haligned : aligned = true → (pos + (lengthField aligned pos n).length) % 8 = 0 := by
    intro h
    rw [lengthField, if_pos h, List.length_append, length_alignment, length_lengthOctets]
    omega
  rw [List.length_append, hlen, ← Nat.add_assoc]
  obtain ⟨pos₁, hpos₁⟩ : ∃ pos₁, pos + (lengthField aligned pos n).length = pos₁ := ⟨_, rfl⟩
  rw [hpos₁] at hread hafter haligned ⊢
  have hleft := congrArg List.length hrest
  have hleft₁ := congrArg List.length hafter
  simp only [length_rest, List.length_append] at hleft hleft₁
  have hle : pos₁ ≤ 8 * bytes.length := by omega
  have hin : InBuffer bytes pos₁ n := by
    have hmod : (bytes.length - pos₁ / 8) % 2 ^ 32 = bytes.length - pos₁ / 8 := Nat.mod_eq_of_lt (by omega)
    rw [InBuffer, hmod]
    split_ifs with h0 <;> omega
  have hview : rest (viewOf bytes pos₁ n) (pos₁ % 8) =
      content ++ (rest (viewOf bytes pos₁ n) (pos₁ % 8)).drop (8 * n) := by
    have htake := rest_viewOf bytes pos₁ n
    rw [hafter, List.take_left' hlen] at htake
    rw [← htake, List.take_append_drop]
  have hstart : pos₁ % 8 ≤ 8 * (viewOf bytes pos₁ n).length := by
    have hlength := length_viewOf hin
    split_ifs at hlength with h0 <;> omega
  have hinner := hx (pos₁ % 8) (fun h => by rw [haligned h]) _ _ hstart hview
  rw [hlen] at hinner
  exact VarlengthFieldUnpackGuard.scope_within unset behind hread hn hle hin hinner (by omega) (by omega)

theorem fieldReadBack_iff (aligned : Bool) (s : List UInt8) :
    FieldReadBack aligned s ↔ s.length < 16382 ∨ LengthRefused aligned (s.length % 2 ^ 32) := by
  have hnil : BitWriter.Holds ⟨[], 0⟩ [] := Holds.start []
  constructor
  · intro h
    by_contra hnot
    obtain ⟨hn, hrefused⟩ := not_or.mp hnot
    obtain ⟨inner, content, hpack, hinner⟩ := UnboundedOctstring.pack_succeeds hrefused hnil
    obtain ⟨w', -, hclose, -⟩ := @packGuard_close_ok aligned _ _ hnil _ _ hinner
    obtain ⟨res, hres, hread⟩ := h _ _ hnil
    rw [VarlengthFieldPackGuard.scope, hpack, handleCode, hclose] at hres
    cases hres
    obtain ⟨field, hw', hscope⟩ := hread w' rfl
    have hbits : bitsOf w'.bytes = field ++ List.replicate (8 * ((field.length + 7) / 8) - field.length) false := by
      rw [hw'.bytes, bitsOf_encode, List.nil_append, padTo]
    have hread := hscope 0 0 w'.bytes _ (Nat.zero_le _) hbits (by rw [List.length_replicate]; omega)
    exact hn (scope_octets_lt (Nat.zero_le _) hread)
  · rintro (hs | hrefused) w bits hw
    · obtain ⟨inner, hpack, hinner⟩ :=
        @UnboundedOctstring.pack_field _ _ aligned _ (show s.length < 16384 by omega) hnil
      rw [List.nil_append, field_at_start s (fun _ => rfl)] at hinner
      have hlen : (lengthOctets s.length ++ bitsOf s).length =
          8 * ((if s.length < 128 then 1 else 2) + s.length) := by
        rw [List.length_append, length_lengthOctets, length_bitsOf, Nat.mul_add]
      have hn : (if s.length < 128 then 1 else 2) + s.length < 16384 := by
        split_ifs <;> omega
      obtain ⟨w', hclose, hw'⟩ := packGuard_close_octets hw hinner hlen hn
      refine ⟨some w', ?_, ?_⟩
      · rw [VarlengthFieldPackGuard.scope, hpack, handleCode, hclose]
        rfl
      · rintro _ ⟨⟩
        refine ⟨_, hw', fun unset behind bytes tail hpos hrest htail => ?_⟩
        refine scope_field hn hlen (fun start hstart => ?_) unset behind hpos hrest htail
        rw [← field_at_start s hstart]
        exact UnboundedOctstring.unpack_field start (by omega)
    · refine ⟨none, ?_, fun _ h => by cases h⟩
      rw [VarlengthFieldPackGuard.scope, UnboundedOctstring.pack_refused hrefused]
      rfl

/-- What is packed comes back where the length is below 16384, with the length of the octet string counted in its
field, or is refused. -/
theorem octets_read_back_iff (aligned : Bool) (n : Nat) (s : List UInt8) :
    (LengthReadBack aligned n ↔ n < 16384 ∨ LengthRefused aligned n) ∧
    (OctetsReadBack aligned s ↔ s.length < 16384 ∨ LengthRefused aligned (s.length % 2 ^ 32)) ∧
    (FieldReadBack aligned s ↔ s.length < 16382 ∨ LengthRefused aligned (s.length % 2 ^ 32)) :=
  ⟨lengthReadBack_iff aligned n, octetsReadBack_iff aligned s, fieldReadBack_iff aligned s⟩

/-- The aligned encoder packs the length 16384, which no decoder reads. -/
theorem length_16384_not_read_back : ¬ ∀ (aligned : Bool) (n : Nat) (s : List UInt8),
    LengthReadBack aligned n ∧ OctetsReadBack aligned s ∧ FieldReadBack aligned s := by
  intro h
  exact absurd ((lengthReadBack_iff true 16384).mp (h true 16384 []).1) (by decide)

end Ocudu.Asn1
