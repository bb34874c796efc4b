import Ocudu.Asn1.OctetFields

/-! When the reader is at the end of an open-type field after its content was decoded. -/

namespace Ocudu.Asn1

open BitReader BitParser VarlengthFieldUnpackGuard

/-- A field of octets is announced at a position, and ends at another in the buffer. -/
def FieldEnds (align : Bool) (bytes : List UInt8) (pos stop : Nat) : Prop :=
  ∃ len pos₁, unpackLength (at' bytes pos) align = .ok (some (len, at' bytes pos₁)) ∧ stop = pos₁ + 8 * len ∧
    stop ≤ 8 * bytes.length

section Field

variable {α : Type} (x : BitParser α) (align : Bool) (bytes : List UInt8) (pos : Nat)

/-- Whatever the length was set to before, the decoding fails or ends where the announced field ends. The segments may
have any number of bytes behind the reader's. -/
def Resyncs : Prop :=
  ∀ unset behind, scope unset behind x align (at' bytes pos) = .ok none ∨
    ∃ a stop, FieldEnds align bytes pos stop ∧ scope unset behind x align (at' bytes pos) = .ok (some (a, at' bytes stop))

/-- The length is read, its octets are in the buffer, and the decoder of the content does not take more. -/
def FieldFits : Prop :=
  ∃ len pos₁, unpackLength (at' bytes pos) align = .ok (some (len, at' bytes pos₁)) ∧ InBuffer bytes pos₁ len ∧
    ∀ a stop, x (at' (viewOf bytes pos₁ len) (pos₁ % 8)) = .ok (some (a, at' (viewOf bytes pos₁ len) stop)) →
      stop - pos₁ % 8 ≤ 8 * len

def ContentFails : Prop :=
  ∀ unset g view, construct unset (at' bytes pos) align = .ok (g, view) → x view = .ok none

end Field

variable {α : Type} {x : BitParser α} {align : Bool} {bytes : List UInt8} {pos len pos₁ : Nat}

theorem at'_inj {pos' : Nat} (h : at' bytes pos = at' bytes pos') : pos = pos' := by
  simp only [at', BitReader.mk.injEq, true_and] at h
  lia

theorem unpackLength_bounds (hpos : pos ≤ 8 * bytes.length)
    (hread : unpackLength (at' bytes pos) align = .ok (some (len, at' bytes pos₁))) :
    len < 16384 ∧ pos + 8 ≤ pos₁ ∧ pos₁ ≤ 8 * bytes.length := by
  rw [unpackLength_eq] at hread
  obtain ⟨stop, hstop, hle, hlen, hmore, -⟩ := (lengthParser_meets align hpos).of_value hread
  have heq : pos₁ = stop := at'_inj hstop
  exact ⟨hlen, heq ▸ hmore, heq ▸ hle⟩

theorem scope_content_fails (behind : Nat) {unset : UInt32} {g : VarlengthFieldUnpackGuard} {view : CbitRef}
    (hconstruct : construct unset (at' bytes pos) align = .ok (g, view)) (hfails : x view = .ok none) :
    scope unset behind x align (at' bytes pos) = .ok none := by
  simp only [scope, hconstruct, ok_bind]
  rw [hfails, handleCode]

theorem scope_content (behind : Nat) {unset : UInt32} {g : VarlengthFieldUnpackGuard} {view inner : CbitRef} {a : α}
    (hconstruct : construct unset (at' bytes pos) align = .ok (g, view)) (hvalue : x view = .ok (some (a, inner))) :
    scope unset behind x align (at' bytes pos) = (g.destruct behind inner).map fun r => some (a, r) := by
  simp only [scope, hconstruct, ok_bind]
  rw [hvalue, handleCode]

theorem scope_of_fits (hx : Forward x) (hpos : pos ≤ 8 * bytes.length)
    (hread : unpackLength (at' bytes pos) align = .ok (some (len, at' bytes pos₁))) (hin : InBuffer bytes pos₁ len)
    (hwithin : ∀ a stop, x (at' (viewOf bytes pos₁ len) (pos₁ % 8)) = .ok (some (a, at' (viewOf bytes pos₁ len) stop)) →
      stop - pos₁ % 8 ≤ 8 * len) (unset : UInt32) (behind : Nat) :
    scope unset behind x align (at' bytes pos) = .ok none ∨
      ∃ a, scope unset behind x align (at' bytes pos) = .ok (some (a, at' bytes (pos₁ + 8 * len))) := by
  obtain ⟨hlen, -, hpos₁⟩ := unpackLength_bounds hpos hread
  have hconstruct := construct_readable unset hread (by omega) hin
  have hstart : pos₁ % 8 ≤ 8 * (viewOf bytes pos₁ len).length := by
    have hlength := length_viewOf hin
    split_ifs at hlength with h0 <;> omega
  obtain ⟨res, hres, hpost⟩ := hx _ _ hstart
  cases res with
  | none => exact .inl (scope_content_fails behind hconstruct hres)
  | some res =>
    obtain ⟨a, inner⟩ := res
    obtain ⟨stop, rfl, -, hforward⟩ := hpost a inner rfl
    exact .inr ⟨a, scope_within unset behind hread hlen hpos₁ hin hres hforward (hwithin a stop hres)⟩

theorem destruct_not_made (r : CbitRef) (hoff : r.offset < 8) (hlen : len < 16384) : ∃ behind,
    destruct ⟨UInt32.ofNat len, r, false⟩ behind (at' [] 0) = .ok (at' [] 0) := by
  have hnat : (UInt32.ofNat len).toNat = len := UInt32.toNat_ofNat_of_lt' (show len < 2 ^ 32 by omega)
  refine ⟨2 ^ 28 + (2 ^ 29 - CbitRef.remBytes r % 2 ^ 29), ?_⟩
  rw [destruct, distance, if_neg Bool.false_ne_true, if_pos]
  simp only [hnat, at']
  lia

theorem construct_not_made {unset : UInt32} {g : VarlengthFieldUnpackGuard} {view : CbitRef}
    (hread : unpackLength (at' bytes pos) align = .ok (some (len, at' bytes pos₁))) (hlen : len < 16384)
    (hin : ¬ InBuffer bytes pos₁ len) (hconstruct : construct unset (at' bytes pos) align = .ok (g, view)) :
    g = ⟨UInt32.ofNat len, at' bytes pos₁, false⟩ ∧ view = at' [] 0 := by
  have hnat : (UInt32.ofNat len).toNat = len := UInt32.toNat_ofNat_of_lt' (show len < 2 ^ 32 by omega)
  have hview := @subview_not_made bytes pos₁ (UInt32.ofNat len) (.inl (by omega))
    (by rw [hnat]; exact hin)
  rw [construct, unpackLengthInto_readable _ hread] at hconstruct
  simp only [ok_bind, hview, pure_eq_ok, Except.ok.injEq, Prod.mk.injEq] at hconstruct
  exact ⟨hconstruct.1.symm, hconstruct.2.symm⟩

theorem Resyncs.destruct (h : Resyncs x align bytes pos) {unset : UInt32} {g : VarlengthFieldUnpackGuard}
    {view inner : CbitRef} {a : α} (hconstruct : construct unset (at' bytes pos) align = .ok (g, view))
    (hvalue : x view = .ok (some (a, inner))) (behind : Nat) : ∃ len pos₁,
      unpackLength (at' bytes pos) align = .ok (some (len, at' bytes pos₁)) ∧
        g.destruct behind inner = .ok (at' bytes (pos₁ + 8 * len)) := by
  have hscope := scope_content behind hconstruct hvalue
  obtain hnone | ⟨a', _, ⟨len, pos₁, hread, rfl, -⟩, hsome⟩ := h unset behind
  · rw [hscope] at hnone
    obtain ⟨r, -, hr⟩ := map_eq_ok.mp hnone
    cases hr
  · rw [hscope] at hsome
    obtain ⟨r, hdestruct, hr⟩ := map_eq_ok.mp hsome
    cases hr
    exact ⟨len, pos₁, hread, hdestruct⟩

theorem resyncs_iff (hx : Forward x) (hpos : pos ≤ 8 * bytes.length) :
    Resyncs x align bytes pos ↔ FieldFits x align bytes pos ∨ ContentFails x align bytes pos := by
  constructor
  · intro h
    rw [or_iff_not_imp_left]
    intro hnot unset g view hconstruct
    obtain ⟨g', view', start, hconstruct', hstart, -⟩ := construct_at unset hpos align
    rw [hconstruct] at hconstruct'
    cases hconstruct'
    obtain ⟨res, hres, hpost⟩ := hx _ _ hstart
    cases res with
    | none => exact hres
    | some res =>
      obtain ⟨a, inner⟩ := res
      obtain ⟨len, pos₁, hread, -⟩ := h.destruct hconstruct hres 0
      obtain ⟨hlen, hmore, hpos₁⟩ := unpackLength_bounds hpos hread
      exfalso
      by_cases hin : InBuffer bytes pos₁ len
      · -- the content is left, and the reader stays in the view
        apply hnot
        refine ⟨len, pos₁, hread, hin, fun a' stop hvalue => ?_⟩
        by_contra hbeyond
        have hlength := length_viewOf hin
        have hle := hin.le hpos₁
        have hfirst : pos₁ % 8 ≤ 8 * (viewOf bytes pos₁ len).length := by
          split_ifs at hlength with h0 <;> omega
        obtain ⟨stop', hstop', hlast, -⟩ := (hx _ _ hfirst).of_value hvalue
        have hsame : stop = stop' := at'_inj hstop'
        have hview : stop ≤ 8 * (len + 1) := by
          split_ifs at hlength with h0 <;> omega
        obtain ⟨len', pos₁', -, hdestruct⟩ :=
          h.destruct (construct_readable unset hread (by omega) hin) hvalue 0
        rw [destruct_beyond 0 hlen hview (Nat.not_le.mp hbeyond)] at hdestruct
        have hbytes : viewOf bytes pos₁ len = bytes := congrArg BitReader.bytes (Except.ok.inj hdestruct)
        rw [hbytes] at hlength
        split_ifs at hlength with h0 <;> omega
      · -- the reader stays in the empty view
        obtain ⟨behind, hnotMade⟩ := destruct_not_made (at' bytes pos₁) (Nat.mod_lt _ (by decide)) hlen
        obtain ⟨hg, hview⟩ := construct_not_made hread hlen hin hconstruct
        have hempty := hres
        rw [hview] at hempty
        obtain ⟨stop, rfl, hstop, -⟩ := (hx [] 0 (Nat.le_refl _)).of_value hempty
        obtain rfl : stop = 0 := Nat.le_zero.mp hstop
        obtain ⟨len', pos₁', -, hdestruct⟩ := h.destruct hconstruct hres behind
        rw [hg, hnotMade] at hdestruct
        have hbytes : [] = bytes := congrArg BitReader.bytes (Except.ok.inj hdestruct)
        rw [← hbytes, List.length_nil] at hpos₁
        omega
  · rintro (⟨len, pos₁, hread, hin, hwithin⟩ | hfails) unset behind
    · obtain hnone | ⟨a, hsome⟩ := scope_of_fits hx hpos hread hin hwithin unset behind
      · exact .inl hnone
      · obtain ⟨-, -, hpos₁⟩ := unpackLength_bounds hpos hread
        exact .inr ⟨a, _, ⟨len, pos₁, hread, rfl, hin.le hpos₁⟩, hsome⟩
    · obtain ⟨g, view, start, hconstruct, -⟩ := construct_at unset hpos align
      exact .inl (scope_content_fails behind hconstruct (hfails unset g _ hconstruct))

end Ocudu.Asn1
