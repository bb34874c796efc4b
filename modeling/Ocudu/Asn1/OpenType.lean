import Ocudu.Asn1.PerLength

/-! The open-type fields: `varlength_field_pack_guard` and `varlength_field_unpack_guard`. -/

namespace Ocudu.Asn1

open BitCodec BitReader BitWriter BitParser

def BitRef.distance (w : BitRef) : Nat :=
  (8 * (w.bytes.length - if w.offset = 0 then 0 else 1) + w.offset) % 2 ^ 32

namespace VarlengthFieldPackGuard

/-- The destructor: `inner` writes the content, and `brefstart` stands where the field starts. -/
def close (brefstart inner : BitRef) (align : Bool) : Except BitFault BitRef := do
  let leftover := 7 - (BitRef.distance inner + (2 ^ 32 - 1)) % 2 ^ 32 % 8
  let inner ← BitRef.pack inner 0 leftover
  let nofBytes := BitRef.distance inner / 8
  -- the code is not looked at, and a length that is refused leaves the writer as it was
  let length ← packLength brefstart nofBytes align
  BitRef.packBytes (length.getD brefstart) inner.bytes

/-- A field whose content is packed in the scope of the guard. -/
def scope (w : BitRef) (pack : BitRef → Except BitFault (Option BitRef)) (align : Bool) :
    Except BitFault (Option BitRef) :=
  handleCode (pack ⟨[], 0⟩) fun inner => (close w inner align).map some

end VarlengthFieldPackGuard

/-- `unpack_length` with what it leaves behind when it fails: the value and the reader. -/
def unpackLengthInto (val : Nat) (r : CbitRef) (aligned : Bool) : Except BitFault (Bool × Nat × CbitRef) :=
  if !aligned then do
    let (ok, ext, r) ← CbitRef.unpack r 8 1
    if !ok then return (false, val, r)
    else if ext = 0 then CbitRef.unpack r 32 7
    else
      let (ok, ext, r) ← CbitRef.unpack r 8 1
      if !ok then return (false, val, r)
      else if ext = 0 then CbitRef.unpack r 32 14
      else return (false, 0, r)
  else do
    let (ok, r) := CbitRef.alignBytes r
    if !ok then return (false, val, r)
    else
      let (ok, val, r) ← CbitRef.unpack r 32 8
      if !ok || val < 128 then return (ok, val, r)
      else if val - 128 < 64 then
        let (ok, octet, r) ← CbitRef.unpack r 32 8
        if !ok then return (false, val - 128, r) else return (true, (val - 128) <<< 8 + octet, r)
      else return (false, 0, r)

structure VarlengthFieldUnpackGuard where
  len : UInt32
  bref0 : CbitRef
  inView : Bool

namespace VarlengthFieldUnpackGuard

def construct (unset : UInt32) (r : CbitRef) (align : Bool) : Except BitFault (VarlengthFieldUnpackGuard × CbitRef) := do
  let (_, len, r) ← unpackLengthInto unset.toNat r align
  let (inView, view) ← CbitRef.subview r 0 (UInt32.ofNat len)
  return (⟨UInt32.ofNat len, r, inView⟩, view)

/-- From the start of the content to the reader in the view. The view that was not made is at the end of the segments,
which have `behind` bytes after those of the outer reader. -/
def distance (g : VarlengthFieldUnpackGuard) (behind : Nat) (inner : CbitRef) : Int :=
  8 * (if g.inView then inner.it else CbitRef.remBytes g.bref0 + behind : Nat) + inner.offset - g.bref0.offset

def destruct (g : VarlengthFieldUnpackGuard) (behind : Nat) (inner : CbitRef) : Except BitFault CbitRef :=
  if g.len.toNat * 8 % 2 ^ 32 < (g.distance behind inner % 2 ^ 32).toNat then .ok inner
  else (CbitRef.advanceBytes g.bref0 g.len).map Prod.snd

/-- A field whose content is unpacked in the scope of the guard. -/
def scope {α : Type} (unset : UInt32) (behind : Nat) (x : BitParser α) (align : Bool) : BitParser α := fun r => do
  let (g, view) ← construct unset r align
  handleCode (x view) fun res => (g.destruct behind res.2).map fun r => some (res.1, r)

end VarlengthFieldUnpackGuard

/-! What the reader of a length leaves behind -/

section Length

variable {bytes : List UInt8} {pos : Nat}

theorem unpackLength_eq_into (val : Nat) (r : CbitRef) (aligned : Bool) :
    unpackLength r aligned =
      (unpackLengthInto val r aligned).map fun res => if res.1 then some res.2 else none := by
  cases aligned with
  | false =>
    rw [unpackLength, unpackLengthInto, if_pos (by decide), if_pos (by decide), CbitRef.unpackValue]
    cases CbitRef.unpack r 8 1 with
    | error e => rfl
    | ok res =>
      obtain ⟨ok, ext, r⟩ := res
      cases ok with
      | false => rfl
      | true =>
        show (if ext = 0 then _ else _) = Except.map _ (if ext = 0 then _ else _)
        by_cases hext : ext = 0
        · rw [if_pos hext, if_pos hext, CbitRef.unpackValue]
        rw [if_neg hext, if_neg hext, CbitRef.unpackValue]
        cases CbitRef.unpack r 8 1 with
        | error e => rfl
        | ok res =>
          obtain ⟨ok, ext, r⟩ := res
          cases ok with
          | false => rfl
          | true =>
            show (if ext = 0 then _ else _) = Except.map _ (if ext = 0 then _ else _)
            by_cases hext : ext = 0
            · rw [if_pos hext, if_pos hext, CbitRef.unpackValue]
            · rw [if_neg hext, if_neg hext]
              rfl
  | true =>
    rw [unpackLength, unpackLengthInto, if_neg (by decide), if_neg (by decide), CbitRef.alignValue]
    cases CbitRef.alignBytes r with
    | mk ok r =>
      cases ok with
      | false => rfl
      | true =>
        show handleCode (CbitRef.unpackValue r 32 8) _ = Except.map _ (CbitRef.unpack r 32 8 >>= _)
        rw [CbitRef.unpackValue]
        cases CbitRef.unpack r 32 8 with
        | error e => rfl
        | ok res =>
          obtain ⟨ok, n, r⟩ := res
          cases ok with
          | false => rfl
          | true =>
            show (if n < 128 then _ else _) = Except.map _ (if decide (n < 128) = true then _ else _)
            by_cases hshort : n < 128
            · rw [if_pos hshort, if_pos (decide_eq_true hshort)]
              rfl
            rw [if_neg hshort, if_neg (mt of_decide_eq_true hshort)]
            by_cases hlong : n - 128 < 64
            · rw [if_pos hlong, if_pos hlong, CbitRef.unpackValue]
              cases CbitRef.unpack r 32 8 with
              | error e => rfl
              | ok res =>
                obtain ⟨ok, octet, r⟩ := res
                cases ok <;> rfl
            · rw [if_neg hlong, if_neg hlong]
              rfl

theorem unpackLengthInto_readable {r r' : CbitRef} {aligned : Bool} {n : Nat} (val : Nat)
    (h : unpackLength r aligned = .ok (some (n, r'))) : unpackLengthInto val r aligned = .ok (true, n, r') := by
  rw [unpackLength_eq_into val] at h
  obtain ⟨⟨ok, res⟩, hinto, hsome⟩ := map_eq_ok.mp h
  cases ok with
  | false => cases hsome
  | true =>
    cases hsome
    exact hinto

theorem unpackLengthInto_at (val : Nat) (hpos : pos ≤ 8 * bytes.length) (aligned : Bool) : ∃ ok n pos',
    unpackLengthInto val (at' bytes pos) aligned = .ok (ok, n, at' bytes pos') ∧ pos' ≤ 8 * bytes.length ∧
      (n = val ∧ pos' % 8 = 0 ∨ n < 16384) := by
  have hread : ∀ {pos tBits nBits}, pos ≤ 8 * bytes.length → nBits ≤ tBits → ∃ ok v pos',
      CbitRef.unpack (at' bytes pos) tBits nBits = .ok (ok, v, at' bytes pos') ∧ pos' ≤ 8 * bytes.length ∧
        v < 2 ^ nBits ∧ (ok = false → pos' % 8 = 0) := by
    intro pos tBits nBits hpos hn
    rw [CbitRef.unpack_at hpos hn]
    by_cases h : pos + nBits ≤ 8 * bytes.length
    · rw [if_pos h]
      refine ⟨_, _, _, rfl, h, ?_, fun hfail => absurd hfail (by decide)⟩
      have hlt := ofBits_lt ((rest bytes pos).take nBits)
      rwa [List.length_take, length_rest, Nat.min_eq_left (by omega)] at hlt
    · rw [if_neg h]
      refine ⟨_, _, _, rfl, Nat.le_refl _, ?_, fun _ => Nat.mul_mod_right 8 _⟩
      have hlt := ofBits_lt (rest bytes pos)
      have hle : (rest bytes pos).length ≤ nBits := by
        rw [length_rest]
        omega
      calc ofBits (rest bytes pos) * 2 ^ (nBits - (rest bytes pos).length)
        _ < 2 ^ (rest bytes pos).length * 2 ^ (nBits - (rest bytes pos).length) :=
          Nat.mul_lt_mul_of_pos_right hlt (Nat.two_pow_pos _)
        _ = 2 ^ nBits := by rw [← Nat.pow_add, Nat.add_sub_cancel' hle]
  cases aligned with
  | false =>
    rw [unpackLengthInto, if_pos (by decide)]
    obtain ⟨ok, ext, pos₁, hext, hpos₁, -, hend⟩ := hread hpos (show 1 ≤ 8 by decide)
    rw [hext]
    simp only [ok_bind]
    cases ok with
    | false => exact ⟨false, val, pos₁, rfl, hpos₁, .inl ⟨rfl, hend rfl⟩⟩
    | true =>
      show ∃ ok n pos', (if ext = 0 then _ else _) = _ ∧ _
      by_cases hext : ext = 0
      · obtain ⟨ok, v, pos₂, hv, hpos₂, hlt, -⟩ := hread hpos₁ (show 7 ≤ 32 by decide)
        rw [if_pos hext]
        exact ⟨ok, v, pos₂, hv, hpos₂, .inr (hlt.trans (by decide))⟩
      rw [if_neg hext]
      obtain ⟨ok, ext, pos₂, hext, hpos₂, -, hend⟩ := hread hpos₁ (show 1 ≤ 8 by decide)
      rw [hext]
      cases ok with
      | false => exact ⟨false, val, pos₂, rfl, hpos₂, .inl ⟨rfl, hend rfl⟩⟩
      | true =>
        show ∃ ok n pos', (if ext = 0 then _ else _) = _ ∧ _
        by_cases hext : ext = 0
        · obtain ⟨ok, v, pos₃, hv, hpos₃, hlt, -⟩ := hread hpos₂ (show 14 ≤ 32 by decide)
          rw [if_pos hext]
          exact ⟨ok, v, pos₃, hv, hpos₃, .inr hlt⟩
        · rw [if_neg hext]
          exact ⟨false, 0, pos₂, rfl, hpos₂, .inr (by decide)⟩
  | true =>
    have halign : CbitRef.alignBytes (at' bytes pos) = (true, at' bytes (pos + (8 - pos % 8) % 8)) := by
      have henough : ReadOp.alignBytes.Enough bytes pos := by
        show pos + (8 - pos % 8) % 8 ≤ 8 * bytes.length
        omega
      exact (ReadOp.correct_of_enough henough).mp (CbitRef.correct_alignBytes hpos)
    obtain ⟨ok, v, pos₁, hv, hpos₁, hlt, -⟩ :=
      hread (show pos + (8 - pos % 8) % 8 ≤ 8 * bytes.length by omega) (show 8 ≤ 32 by decide)
    rw [unpackLengthInto, if_neg (by decide), halign]
    dsimp only
    rw [if_neg (by decide), hv]
    simp only [ok_bind]
    show ∃ ok' n pos', (if (!ok || decide (v < 128)) = true then _ else _) = _ ∧ _
    by_cases hstop : (!ok || decide (v < 128)) = true
    · rw [if_pos hstop]
      exact ⟨ok, v, pos₁, rfl, hpos₁, .inr (hlt.trans (by decide))⟩
    rw [if_neg hstop]
    show ∃ ok' n pos', (if v - 128 < 64 then _ else _) = _ ∧ _
    by_cases hlong : v - 128 < 64
    · obtain ⟨ok, octet, pos₂, hoctet, hpos₂, hlt₂, -⟩ := hread hpos₁ (show 8 ≤ 32 by decide)
      rw [if_pos hlong, hoctet]
      cases ok with
      | false => exact ⟨false, _, pos₂, rfl, hpos₂, .inr (by omega)⟩
      | true =>
        refine ⟨true, (v - 128) <<< 8 + octet, pos₂, rfl, hpos₂, .inr ?_⟩
        rw [Nat.shiftLeft_eq]
        omega
    · rw [if_neg hlong]
      exact ⟨false, 0, pos₁, rfl, hpos₁, .inr (by decide)⟩

end Length

section View

variable {bytes : List UInt8} {pos : Nat}

def viewOf (bytes : List UInt8) (pos len : Nat) : List UInt8 :=
  (bytes.drop (pos / 8)).take (len + if pos % 8 ≠ 0 then 1 else 0)

/-- The octets of the field are left, their number taken on 32 bits. -/
def InBuffer (bytes : List UInt8) (pos len : Nat) : Prop :=
  len + (if pos % 8 ≠ 0 then 1 else 0) ≤ (bytes.length - pos / 8) % 2 ^ 32

theorem InBuffer.le {len : Nat} (h : InBuffer bytes pos len) (hpos : pos ≤ 8 * bytes.length) :
    pos + 8 * len ≤ 8 * bytes.length := by
  have hmod := Nat.mod_le (bytes.length - pos / 8) (2 ^ 32)
  rw [InBuffer] at h
  split_ifs at h with h0 <;> lia

theorem length_viewOf {len : Nat} (h : InBuffer bytes pos len) :
    (viewOf bytes pos len).length = len + if pos % 8 ≠ 0 then 1 else 0 := by
  have hmod := Nat.mod_le (bytes.length - pos / 8) (2 ^ 32)
  rw [InBuffer] at h
  rw [viewOf, List.length_take, List.length_drop, Nat.min_eq_left (h.trans hmod)]

theorem subview_made {len : UInt32} (h : InBuffer bytes pos len.toNat) :
    CbitRef.subview (at' bytes pos) 0 len = .ok (true, at' (viewOf bytes pos len.toNat) (pos % 8)) := by
  have hmod := Nat.mod_le (bytes.length - pos / 8) (2 ^ 32)
  have hlt := Nat.mod_lt (bytes.length - pos / 8) (show 2 ^ 32 > 0 by decide)
  have hle : len.toNat + (if pos % 8 ≠ 0 then 1 else 0) ≤ bytes.length - pos / 8 := Nat.le_trans h hmod
  have hneeded : (len.toNat + if pos % 8 ≠ 0 then 1 else 0) % 2 ^ 32 = len.toNat + if pos % 8 ≠ 0 then 1 else 0 :=
    Nat.mod_eq_of_lt (Nat.lt_of_le_of_lt h hlt)
  have hstart : CbitRef.advanceIt (at' bytes pos) (0 : UInt32).toNat = .ok (at' bytes pos) := by
    rw [CbitRef.advanceIt_at, show (0 : UInt32).toNat = 0 from rfl, if_pos (Nat.zero_le _)]
    rfl
  rw [CbitRef.subview, CbitRef.remBytes_at, CbitRef.extraByte_at, hneeded, hstart,
    show (0 : UInt32).toNat = 0 from rfl, Nat.zero_add, hneeded, if_neg (Nat.not_lt.mpr h)]
  simp only [ok_bind]
  rw [CbitRef.advanceIt_at, if_pos hle]
  have hslice : (bytes.take (pos / 8 + (len.toNat + if pos % 8 ≠ 0 then 1 else 0))).drop (pos / 8) =
      viewOf bytes pos len.toNat := by
    rw [viewOf, List.drop_take, Nat.add_sub_cancel_left]
  have hstop : (pos + 8 * (len.toNat + if pos % 8 ≠ 0 then 1 else 0)) / 8 =
      pos / 8 + (len.toNat + if pos % 8 ≠ 0 then 1 else 0) := by omega
  simp only [ok_bind, pure_eq_ok, at', hstop, hslice, Nat.mod_mod]
  congr 3
  lia

theorem subview_not_made {len : UInt32} (hlen : len.toNat < 2 ^ 31 ∨ pos % 8 = 0) (h : ¬ InBuffer bytes pos len.toNat) :
    CbitRef.subview (at' bytes pos) 0 len = .ok (false, ⟨[], 0, 0⟩) := by
  have hneeded : (len.toNat + if pos % 8 ≠ 0 then 1 else 0) % 2 ^ 32 = len.toNat + if pos % 8 ≠ 0 then 1 else 0 := by
    have hlt := len.toNat_lt
    apply Nat.mod_eq_of_lt
    split_ifs <;> omega
  rw [CbitRef.subview, CbitRef.remBytes_at, CbitRef.extraByte_at, hneeded,
    show (0 : UInt32).toNat = 0 from rfl, Nat.zero_add, hneeded, if_pos (Nat.not_le.mp h)]
  rfl

end View

namespace VarlengthFieldUnpackGuard

variable {α : Type} {bytes : List UInt8} {pos pos₁ len stop : Nat} {align : Bool}

theorem construct_at (unset : UInt32) (hpos : pos ≤ 8 * bytes.length) (align : Bool) : ∃ g view start,
    construct unset (at' bytes pos) align = .ok (g, at' view start) ∧ start ≤ 8 * view.length ∧
      8 * view.length < start + 8 * g.len.toNat + 8 ∧ (g.len = unset ∨ g.len.toNat < 16384) := by
  obtain ⟨ok, n, pos', hinto, hpos', hn⟩ := unpackLengthInto_at unset.toNat hpos align
  have hunset := unset.toNat_lt
  have hlen : (UInt32.ofNat n).toNat = n := UInt32.toNat_ofNat_of_lt' (show n < 2 ^ 32 by omega)
  have hvalue : UInt32.ofNat n = unset ∨ (UInt32.ofNat n).toNat < 16384 := by
    rw [hlen]
    refine hn.imp (fun h => ?_) id
    rw [h.1, UInt32.ofNat_toNat]
  rw [construct, hinto]
  simp only [ok_bind]
  by_cases hin : InBuffer bytes pos' (UInt32.ofNat n).toNat
  · rw [subview_made hin]
    refine ⟨_, _, _, rfl, ?_, ?_, hvalue⟩
    · have hmod := Nat.mod_lt pos' (show 8 > 0 by decide)
      rw [length_viewOf hin]
      split_ifs with h0 <;> omega
    · rw [length_viewOf hin]
      dsimp only
      split_ifs with h0 <;> omega
  · rw [subview_not_made (by rw [hlen]; omega) hin]
    exact ⟨_, [], 0, rfl, Nat.le_refl _, Nat.lt_of_lt_of_le (by decide) (Nat.le_add_left _ _), hvalue⟩

theorem construct_readable (unset : UInt32)
    (hread : unpackLength (at' bytes pos) align = .ok (some (len, at' bytes pos₁))) (hlen : len < 2 ^ 32)
    (hin : InBuffer bytes pos₁ len) :
    construct unset (at' bytes pos) align =
      .ok (⟨UInt32.ofNat len, at' bytes pos₁, true⟩, at' (viewOf bytes pos₁ len) (pos₁ % 8)) := by
  have hnat : (UInt32.ofNat len).toNat = len := UInt32.toNat_ofNat_of_lt' hlen
  have hview := @subview_made bytes pos₁ (UInt32.ofNat len) (by rw [hnat]; exact hin)
  rw [hnat] at hview
  rw [construct, unpackLengthInto_readable _ hread]
  simp only [ok_bind]
  rw [hview]
  rfl

theorem distance_eq (behind : Nat) (hstop : pos₁ % 8 ≤ stop) (view : List UInt8) :
    distance ⟨UInt32.ofNat len, at' bytes pos₁, true⟩ behind (at' view stop) = (stop - pos₁ % 8 : Nat) := by
  have hparts : 8 * (stop / 8) + stop % 8 = stop := Nat.div_add_mod stop 8
  rw [distance, if_pos rfl]
  simp only [at']
  omega

theorem destruct_within (behind : Nat) (view : List UInt8) (hpos₁ : pos₁ ≤ 8 * bytes.length) (hlen : len < 16384)
    (hin : InBuffer bytes pos₁ len) (hstart : pos₁ % 8 ≤ stop) (hstop : stop - pos₁ % 8 ≤ 8 * len) :
    destruct ⟨UInt32.ofNat len, at' bytes pos₁, true⟩ behind (at' view stop) = .ok (at' bytes (pos₁ + 8 * len)) := by
  have hnat : (UInt32.ofNat len).toNat = len := UInt32.toNat_ofNat_of_lt' (show len < 2 ^ 32 by omega)
  have henough : (ReadOp.advanceBytes (UInt32.ofNat len)).Enough bytes pos₁ := by
    show pos₁ + 8 * (UInt32.ofNat len).toNat ≤ 8 * bytes.length
    rw [hnat]
    exact hin.le hpos₁
  have hadvance : CbitRef.advanceBytes (at' bytes pos₁) (UInt32.ofNat len) =
      .ok (true, at' bytes (pos₁ + 8 * (UInt32.ofNat len).toNat)) :=
    (ReadOp.correct_of_enough henough).mp ((CbitRef.correct_advanceBytes_iff hpos₁ _).mpr (.inr (.inr henough)))
  rw [destruct, distance_eq behind hstart, if_neg]
  · show (CbitRef.advanceBytes (at' bytes pos₁) (UInt32.ofNat len)).map Prod.snd = _
    rw [hadvance, hnat]
    rfl
  · dsimp only
    rw [hnat]
    lia

theorem destruct_beyond (behind : Nat) {view : List UInt8} (hlen : len < 16384) (hview : stop ≤ 8 * (len + 1))
    (hstop : 8 * len < stop - pos₁ % 8) :
    destruct ⟨UInt32.ofNat len, at' bytes pos₁, true⟩ behind (at' view stop) = .ok (at' view stop) := by
  have hnat : (UInt32.ofNat len).toNat = len := UInt32.toNat_ofNat_of_lt' (show len < 2 ^ 32 by omega)
  rw [destruct, distance_eq behind (by omega), if_pos]
  dsimp only
  rw [hnat]
  lia

theorem scope_within (unset : UInt32) (behind : Nat) {x : BitParser α} {a : α}
    (hread : unpackLength (at' bytes pos) align = .ok (some (len, at' bytes pos₁))) (hlen : len < 16384)
    (hpos₁ : pos₁ ≤ 8 * bytes.length) (hin : InBuffer bytes pos₁ len)
    (hx : x (at' (viewOf bytes pos₁ len) (pos₁ % 8)) = .ok (some (a, at' (viewOf bytes pos₁ len) stop)))
    (hstart : pos₁ % 8 ≤ stop) (hstop : stop - pos₁ % 8 ≤ 8 * len) :
    scope unset behind x align (at' bytes pos) = .ok (some (a, at' bytes (pos₁ + 8 * len))) := by
  rw [scope, construct_readable unset hread (by omega) hin]
  simp only [ok_bind]
  rw [hx, handleCode, destruct_within behind _ hpos₁ hlen hin hstart hstop]
  rfl

end VarlengthFieldUnpackGuard

end Ocudu.Asn1
