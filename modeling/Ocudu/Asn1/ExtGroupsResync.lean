import Ocudu.Asn1.ExtGroupsFlags

/-! When the reader is at the end of the announced groups after the extension additions were decoded. -/

namespace Ocudu.Asn1

open BitReader BitParser

/-- The fields of the groups that are present follow one another from one position to another. -/
def GroupsEnd (aligned : Bool) (bytes : List UInt8) : List Bool → Nat → Nat → Prop
  | [], pos, stop => stop = pos
  | false :: flags, pos, stop => GroupsEnd aligned bytes flags pos stop
  | true :: flags, pos, stop => ∃ next, FieldEnds aligned bytes pos next ∧ GroupsEnd aligned bytes flags next stop

/-- The decoding fails, or ends where the fields of all groups that the flags announce end. -/
def GroupsResync (aligned : Bool) (x : BitParser Unit) (bytes : List UInt8) (pos : Nat) : Prop :=
  x (at' bytes pos) = .ok none ∨ ∃ flags first stop,
    unpackPresenceFlags (at' bytes pos) = .ok (some (flags, at' bytes first)) ∧
      GroupsEnd aligned bytes flags first stop ∧ x (at' bytes pos) = .ok (some ((), at' bytes stop))

section Flags

variable {aligned : Bool} {bytes : List UInt8} {flags : List Bool} {pos next stop : Nat}

theorem GroupsEnd.append {flags' : List Bool} (h : GroupsEnd aligned bytes flags pos next)
    (h' : GroupsEnd aligned bytes flags' next stop) : GroupsEnd aligned bytes (flags ++ flags') pos stop := by
  induction flags generalizing pos with
  | nil =>
    obtain rfl : next = pos := h
    exact h'
  | cons present flags ih =>
    cases present with
    | false => exact ih h
    | true =>
      obtain ⟨mid, hfield, hrest⟩ := h
      exact ⟨mid, hfield, ih hrest⟩

theorem GroupsEnd.le (hpos : pos ≤ 8 * bytes.length) (h : GroupsEnd aligned bytes flags pos stop) : pos ≤ stop := by
  induction flags generalizing pos with
  | nil => exact (show stop = pos from h).ge
  | cons present flags ih =>
    cases present with
    | false => exact ih hpos h
    | true =>
      obtain ⟨next, ⟨len, pos₁, hread, rfl, hnext⟩, hrest⟩ := h
      obtain ⟨-, hmore, -⟩ := unpackLength_bounds hpos hread
      have hle := ih hnext hrest
      omega

theorem presenceFlags_meets (hpos : pos ≤ 8 * bytes.length) :
    Meets unpackPresenceFlags bytes pos fun _ pos' => pos + 8 ≤ pos' := by
  refine Meets.bind ((show Meets unpackNormSmallNonNegWholeNumber bytes pos fun _ pos' => pos' = pos + 7 from ?_).mono
    fun n first hfirst hle => ?_)
  · refine Meets.bind (Meets.read hpos (by decide) fun _ hle => ?_)
    refine Meets.bind (Meets.require hle fun _ hle => ?_)
    exact Meets.read hle (by decide) fun _ => by omega
  · have hpresence : ∀ pos, pos ≤ 8 * bytes.length → Meets readPresence bytes pos fun _ pos' => pos' = pos + 1 :=
      fun pos hpos => Meets.bind (Meets.read hpos (by decide) fun _ hle => Meets.pure hle rfl)
    refine (Meets.times (n + 1) hle hpresence).mono fun flags pos' h => ?_
    omega

end Flags

namespace ExtGroupsUnpacker

variable {aligned : Bool} {bytes : List UInt8} {flags : List Bool} {first : Nat} {u : ExtGroupsUnpacker}

structure Skipped (aligned : Bool) (bytes : List UInt8) (flags : List Bool) (first : Nat) (u : ExtGroupsUnpacker) :
    Prop where
  state : u.state ≠ .unpackPresenceFlags
  groups : u.groups = flags
  number : u.nofUnpackedGroups = flags.length
  next : u.nextGroupIdx ≤ flags.length
  outer : ∃ stop, u.outerBref = at' bytes stop ∧ stop ≤ 8 * bytes.length ∧
    GroupsEnd aligned bytes (flags.take u.nextGroupIdx) first stop
  view : ∃ view start, u.groupBref = at' view start ∧ start ≤ 8 * view.length

theorem subview_at {pos len : Nat} (hlen : len < 16384) : ∃ made view start,
    CbitRef.subview (at' bytes pos) 0 (UInt32.ofNat len) = .ok (made, at' view start) ∧ start ≤ 8 * view.length := by
  have hnat : (UInt32.ofNat len).toNat = len := UInt32.toNat_ofNat_of_lt' (show len < 2 ^ 32 by omega)
  by_cases hin : InBuffer bytes pos (UInt32.ofNat len).toNat
  · refine ⟨_, _, _, subview_made hin, ?_⟩
    rw [length_viewOf hin]
    split_ifs with h0 <;> lia
  · exact ⟨_, [], 0, subview_not_made (by omega) hin, Nat.le_refl _⟩

theorem advanceBytes_at {pos len : Nat} (hpos : pos ≤ 8 * bytes.length) (hlen : len < 16384) :
    CbitRef.advanceBytes (at' bytes pos) (UInt32.ofNat len) =
      .ok (if pos + 8 * len ≤ 8 * bytes.length then (true, at' bytes (pos + 8 * len)) else (false, at' bytes pos)) := by
  have hnat : (UInt32.ofNat len).toNat = len := UInt32.toNat_ofNat_of_lt' (show len < 2 ^ 32 by omega)
  have hcorrect := (CbitRef.correct_advanceBytes_iff hpos (UInt32.ofNat len)).mpr (.inr (.inl (by omega)))
  by_cases hfits : pos + 8 * len ≤ 8 * bytes.length
  · have henough : (ReadOp.advanceBytes (UInt32.ofNat len)).Enough bytes pos := by
      show pos + 8 * (UInt32.ofNat len).toNat ≤ 8 * bytes.length
      rwa [hnat]
    have hsucceeds := (ReadOp.correct_of_enough henough).mp hcorrect
    rw [if_pos hfits]
    exact hsucceeds.trans (by rw [hnat])
  · have hnot : ¬ (ReadOp.advanceBytes (UInt32.ofNat len)).Enough bytes pos := by
      show ¬ pos + 8 * (UInt32.ofNat len).toNat ≤ 8 * bytes.length
      rwa [hnat]
    rw [if_neg hfits]
    exact (ReadOp.correct_of_not_enough hnot).mp hcorrect

theorem unpackLength_at {pos : Nat} (hpos : pos ≤ 8 * bytes.length) (aligned : Bool) :
    unpackLength (at' bytes pos) aligned = .ok none ∨ ∃ len pos₁,
      unpackLength (at' bytes pos) aligned = .ok (some (len, at' bytes pos₁)) ∧ len < 16384 ∧
        pos₁ ≤ 8 * bytes.length := by
  rw [unpackLength_eq]
  obtain ⟨res, hres, hpost⟩ := lengthParser_meets aligned hpos
  cases res with
  | none => exact .inl hres
  | some res =>
    obtain ⟨len, r⟩ := res
    obtain ⟨pos₁, rfl, hpos₁, hlen, -⟩ := hpost len r rfl
    exact .inr ⟨len, pos₁, hres, hlen, hpos₁⟩

theorem Skipped.unpackGroup (h : Skipped aligned bytes flags first u) : ∃ res,
    unpackGroup aligned u = .ok res ∧ ∀ u', res = some u' →
      Skipped aligned bytes flags first u' ∧ u'.nextGroupIdx = min (u.nextGroupIdx + 1) flags.length := by
  obtain ⟨stop, houter, hstop, hend⟩ := h.outer
  rw [ExtGroupsUnpacker.unpackGroup, h.number, h.groups]
  by_cases hdone : flags.length ≤ u.nextGroupIdx
  · rw [if_pos hdone]
    refine ⟨_, rfl, ?_⟩
    rintro _ ⟨⟩
    refine ⟨⟨(by intro h; cases h), rfl, rfl, h.next, h.outer, h.view⟩, ?_⟩
    have hnext := h.next
    dsimp only
    omega
  have hlt : u.nextGroupIdx < flags.length := Nat.not_le.mp hdone
  have htake : flags.take (u.nextGroupIdx + 1) = flags.take u.nextGroupIdx ++ [flags.getD u.nextGroupIdx false] := by
    rw [List.take_succ_eq_append_getElem hlt, List.getD_eq_getElem _ _ hlt]
  have hmin : u.nextGroupIdx + 1 = min (u.nextGroupIdx + 1) flags.length := by omega
  rw [if_neg hdone]
  cases hpresent : flags.getD u.nextGroupIdx false with
  | false =>
    rw [if_neg Bool.false_ne_true]
    refine ⟨_, rfl, ?_⟩
    rintro _ ⟨⟩
    refine ⟨⟨h.state, rfl, rfl, hlt, ⟨stop, houter, hstop, ?_⟩, h.view⟩, hmin⟩
    dsimp only
    rw [htake, hpresent]
    exact hend.append rfl
  | true =>
    rw [if_pos rfl, houter]
    obtain hnone | ⟨len, pos₁, hread, hlen, hpos₁⟩ := unpackLength_at hstop aligned
    · rw [hnone]
      exact ⟨none, rfl, fun _ h => by cases h⟩
    rw [hread, handleCode]
    obtain ⟨made, view, start, hview, hstart⟩ := @subview_at bytes pos₁ _ hlen
    dsimp only
    rw [hview, advanceBytes_at hpos₁ hlen]
    simp only [ok_bind, pure_eq_ok]
    by_cases hfits : pos₁ + 8 * len ≤ 8 * bytes.length
    · rw [if_pos hfits, if_pos rfl]
      refine ⟨_, rfl, ?_⟩
      rintro _ ⟨⟩
      refine ⟨⟨h.state, rfl, rfl, hlt, ⟨_, rfl, hfits, ?_⟩, ⟨view, start, rfl, hstart⟩⟩, hmin⟩
      dsimp only
      rw [htake, hpresent]
      exact hend.append ⟨_, ⟨len, pos₁, hread, rfl, hfits⟩, rfl⟩
    · rw [if_neg hfits, if_neg Bool.false_ne_true]
      exact ⟨none, rfl, fun _ h => by cases h⟩

theorem Skipped.unpackNextGroup_eq (h : Skipped aligned bytes flags first u) :
    unpackNextGroup aligned u = ExtGroupsUnpacker.unpackGroup aligned u := by
  rw [unpackNextGroup, unpackFlags, if_neg h.state, handleCode]

theorem Skipped.consumeLoop {n : Nat} (h : Skipped aligned bytes flags first u)
    (hn : u.nextGroupIdx + n = flags.length) : ∃ res, consumeLoop aligned n u = .ok res ∧ ∀ u', res = some u' →
      ∃ stop, u'.outerBref = at' bytes stop ∧ GroupsEnd aligned bytes flags first stop := by
  induction n generalizing u with
  | zero =>
    obtain ⟨stop, houter, -, hend⟩ := h.outer
    rw [List.take_of_length_le (by omega)] at hend
    refine ⟨_, rfl, ?_⟩
    rintro _ ⟨⟩
    exact ⟨stop, houter, hend⟩
  | succ n ih =>
    obtain ⟨res, hres, hpost⟩ := h.unpackGroup
    rw [ExtGroupsUnpacker.consumeLoop, h.unpackNextGroup_eq, hres]
    cases res with
    | none => exact ⟨none, rfl, fun _ h => by cases h⟩
    | some u' =>
      obtain ⟨h', hnext⟩ := hpost u' rfl
      exact ih h' (by omega)

theorem Skipped.unpackKnown {known : List (BitParser Unit)} (hknown : ∀ x ∈ known, Forward x)
    (h : Skipped aligned bytes flags first u) : ∃ res, unpackKnown aligned known u = .ok res ∧ ∀ u', res = some u' →
      Skipped aligned bytes flags first u' := by
  induction known generalizing u with
  | nil =>
    refine ⟨_, rfl, ?_⟩
    rintro _ ⟨⟩
    exact h
  | cons x known ih =>
    have hrest := fun y hy => hknown y (List.mem_cons_of_mem x hy)
    obtain ⟨res, hres, hpost⟩ := h.unpackGroup
    rw [ExtGroupsUnpacker.unpackKnown, h.unpackNextGroup_eq, hres]
    cases res with
    | none => exact ⟨none, rfl, fun _ h => by cases h⟩
    | some u' =>
      obtain ⟨h', -⟩ := hpost u' rfl
      obtain ⟨view, start, hview, hstart⟩ := h'.view
      rw [handleCode, getLastGroupRange]
      split_ifs with hpresent
      · obtain ⟨content, hcontent, -⟩ := hknown x List.mem_cons_self view start hstart
        dsimp only
        rw [hview, hcontent]
        cases content with
        | none => exact ⟨none, rfl, fun _ h => by cases h⟩
        | some content => exact ih hrest h'
      · exact ih hrest h'

theorem ofReader_flags {pos : Nat} (hpos : pos ≤ 8 * bytes.length) :
    unpackFlags (ofReader (at' bytes pos)) = .ok none ∨ ∃ flags first u,
      Asn1.unpackPresenceFlags (at' bytes pos) = .ok (some (flags, at' bytes first)) ∧
        unpackFlags (ofReader (at' bytes pos)) = .ok (some u) ∧ Skipped aligned bytes flags first u := by
  obtain ⟨res, hres, hpost⟩ := presenceFlags_meets hpos
  have hread : (ofReader (at' bytes pos)).outerBref = at' bytes pos := rfl
  rw [unpackFlags, if_pos (by rfl), hread]
  cases res with
  | none =>
    rw [hres]
    exact .inl rfl
  | some res =>
    obtain ⟨flags, r⟩ := res
    obtain ⟨first, rfl, hfirst, -⟩ := hpost flags r rfl
    rw [hres]
    refine .inr ⟨flags, first, _, rfl, rfl, ?_⟩
    refine ⟨(by intro h; cases h), rfl, rfl, Nat.zero_le _, ⟨first, rfl, hfirst, rfl⟩, ⟨[], 0, rfl, Nat.le_refl _⟩⟩

theorem groupsResync_iff {pos : Nat} (hpos : pos ≤ 8 * bytes.length) {known : List (BitParser Unit)}
    (hknown : ∀ x ∈ known, Forward x) : GroupsResync aligned (unpack aligned known) bytes pos ↔ known ≠ [] := by
  cases known with
  | nil =>
    refine iff_of_false ?_ (fun h => h rfl)
    rintro (hnone | ⟨flags, first, stop, hflags, hend, hsome⟩)
    · cases hnone
    · obtain ⟨first', hfirst, hle, hmore⟩ := (presenceFlags_meets hpos).of_value hflags
      obtain rfl := at'_inj hfirst
      have hstop : at' bytes pos = at' bytes stop := (Prod.mk.inj (Option.some.inj (Except.ok.inj hsome))).2
      have hsame := at'_inj hstop
      have := hend.le hle
      omega
  | cons x known =>
    refine iff_of_true ?_ (List.cons_ne_nil x known)
    obtain hnone | ⟨flags, first, u, hflags, hu, hskipped⟩ := @ofReader_flags aligned _ _ hpos
    · apply Or.inl
      rw [unpack, ExtGroupsUnpacker.unpackKnown, unpackNextGroup, hnone]
      rfl
    · have hknown' : ExtGroupsUnpacker.unpackKnown aligned (x :: known) (ofReader (at' bytes pos)) =
          ExtGroupsUnpacker.unpackKnown aligned (x :: known) u := by
        rw [ExtGroupsUnpacker.unpackKnown, ExtGroupsUnpacker.unpackKnown, hskipped.unpackNextGroup_eq, unpackNextGroup,
          hu, handleCode]
      obtain ⟨res, hres, hpost⟩ := hskipped.unpackKnown hknown
      rw [GroupsResync, unpack, hknown', hres]
      cases res with
      | none => exact .inl rfl
      | some u' =>
        have h' := hpost u' rfl
        obtain ⟨rest, hrest, hstop⟩ := h'.consumeLoop (n := u'.nofUnpackedGroups - u'.nextGroupIdx)
          (by have := h'.next; rw [h'.number]; omega)
        rw [handleCode, consumeRemainingGroups, hrest]
        cases rest with
        | none => exact .inl rfl
        | some last =>
          obtain ⟨stop, houter, hend⟩ := hstop last rfl
          refine .inr ⟨flags, first, stop, hflags, hend, ?_⟩
          rw [handleCode, houter]

end ExtGroupsUnpacker

namespace ExtGroupsUnpackerGuard

variable {bytes : List UInt8} {flags : List Bool} {known : List (BitParser Unit)} {pos : Nat}

def GroupsFit (bytes : List UInt8) : List Bool → List (BitParser Unit) → Nat → Prop
  | [], _, _ => True
  | false :: flags, known, pos => GroupsFit bytes flags known.tail pos
  | true :: flags, known, pos =>
    (FieldFits (known.headD (pure ())) false bytes pos ∨ ContentFails (known.headD (pure ())) false bytes pos) ∧
      ∀ next, FieldEnds false bytes pos next → GroupsFit bytes flags known.tail next

/-- The array of the flags is not moved from one heap block to another, and the groups fit. -/
def Fits (known : List (BitParser Unit)) (bytes : List UInt8) (pos : Nat) : Prop :=
  (∀ n r, unpackNormSmallNonNegWholeNumber (at' bytes pos) = .ok (some (n, r)) →
    known.length ≤ 16 ∨ n + 1 ≤ known.length + 5) ∧
  ∀ flags first, unpackPresenceFlags (at' bytes pos) = .ok (some (flags, at' bytes first)) →
    GroupsFit bytes flags known first

theorem resize_flags {s n : Nat} (h : s ≤ 16 ∨ n ≤ s + 5) : ∃ groups, ExtArray.empty.resize s = .ok groups ∧
    ∃ groups', groups.resize (max n s) = .ok groups' ∧ groups'.elems = List.replicate (max n s) false := by
  have hfill : List.replicate s false ++ List.replicate (max n s - s) false = List.replicate (max n s) false := by
    rw [← List.replicate_add]
    congr 1
    omega
  by_cases hsmall : s ≤ 16
  · refine ⟨⟨List.replicate s false, none⟩, ExtArray.resize_room hsmall, ?_⟩
    by_cases hroom : max n s ≤ 16
    · refine ⟨_, ExtArray.resize_room hroom, ?_⟩
      dsimp only
      rw [List.length_replicate, hfill]
    · refine ⟨_, ExtArray.resize_heap (Nat.not_le.mp hroom) (.inl rfl), ?_⟩
      dsimp only
      rw [List.length_replicate, hfill]
  · refine ⟨⟨List.replicate s false, some (s + 5)⟩, ExtArray.resize_heap (Nat.not_le.mp hsmall) (.inl rfl), ?_⟩
    have hroom : max n s ≤ s + 5 := by omega
    refine ⟨_, ExtArray.resize_room hroom, ?_⟩
    dsimp only
    rw [List.length_replicate, hfill]

theorem unpackFlags_eq (hpos : pos ≤ 8 * bytes.length) {s : Nat}
    (h : ∀ n r, unpackNormSmallNonNegWholeNumber (at' bytes pos) = .ok (some (n, r)) → s ≤ 16 ∨ n + 1 ≤ s + 5) :
    unpackPresenceFlags (at' bytes pos) = .ok none ∧ unpackFlags s (at' bytes pos) = .ok none ∨
      ∃ flags first k, unpackPresenceFlags (at' bytes pos) = .ok (some (flags, at' bytes first)) ∧
        first ≤ 8 * bytes.length ∧
        unpackFlags s (at' bytes pos) = .ok (some (flags ++ List.replicate k false, at' bytes first)) := by
  obtain ⟨res, hres, hpost⟩ := presenceFlags_meets hpos
  have hparse : unpackPresenceFlags (at' bytes pos) =
      handleCode (unpackNormSmallNonNegWholeNumber (at' bytes pos)) fun n => times (n.1 + 1) readPresence n.2 :=
    (handleCode_eq_bind unpackNormSmallNonNegWholeNumber (fun n => times (n + 1) readPresence) _).symm
  obtain ⟨empty, hempty, -⟩ := resize_flags (show s ≤ 16 ∨ 0 ≤ s + 5 from .inr (Nat.zero_le _))
  rw [hparse] at hres ⊢
  rw [unpackFlags, hempty]
  simp only [ok_bind]
  cases hnumber : unpackNormSmallNonNegWholeNumber (at' bytes pos) with
  | error e =>
    rw [hnumber] at hres
    cases hres
  | ok number =>
    rw [hnumber] at hres
    cases number with
    | none => exact .inl ⟨rfl, rfl⟩
    | some n =>
      obtain ⟨groups, hgroups, groups', hresize, helems⟩ := resize_flags (h n.1 n.2 hnumber)
      obtain rfl : empty = groups := Except.ok.inj (hempty.symm.trans hgroups)
      have hread : times (n.1 + 1) readPresence n.2 = .ok res := hres
      rw [handleCode, handleCode, hresize, hread]
      simp only [ok_bind, helems, List.drop_replicate]
      cases res with
      | none => exact .inl ⟨rfl, rfl⟩
      | some res =>
        obtain ⟨flags, r⟩ := res
        obtain ⟨first, rfl, hfirst, -⟩ := hpost flags r rfl
        exact .inr ⟨flags, first, _, rfl, hfirst, rfl⟩

variable {unset : Nat → UInt32} {behind : Nat}

theorem unpackGroups_absent (k : Nat) (known : List (BitParser Unit)) (idx : Nat) (r : CbitRef) :
    unpackGroups unset behind (List.replicate k false) known idx r = .ok (some ((), r)) := by
  induction k generalizing known idx with
  | zero => rfl
  | succ k ih =>
    rw [List.replicate_succ, unpackGroups]
    exact ih known.tail (idx + 1)

theorem forward_pure : Forward (pure () : BitParser Unit) := fun _ pos hpos => Meets.pure hpos (Nat.le_refl pos)

theorem unpackGroups_fit (hknown : ∀ x ∈ known, Forward x) (k idx : Nat) (hpos : pos ≤ 8 * bytes.length)
    (h : GroupsFit bytes flags known pos) :
    unpackGroups unset behind (flags ++ List.replicate k false) known idx (at' bytes pos) = .ok none ∨
      ∃ stop, GroupsEnd false bytes flags pos stop ∧
        unpackGroups unset behind (flags ++ List.replicate k false) known idx (at' bytes pos) =
          .ok (some ((), at' bytes stop)) := by
  induction flags generalizing known pos idx with
  | nil => exact .inr ⟨pos, rfl, unpackGroups_absent k known idx _⟩
  | cons present flags ih =>
    have htail : ∀ x ∈ known.tail, Forward x := fun x hx => hknown x (List.mem_of_mem_tail hx)
    rw [List.cons_append, unpackGroups]
    cases present with
    | false => exact ih htail (idx + 1) hpos h
    | true =>
      obtain ⟨hfield, hrest⟩ := h
      have hx : Forward (known.headD (pure ())) := by
        cases known with
        | nil => exact forward_pure
        | cons x known => exact hknown x List.mem_cons_self
      rw [if_pos rfl]
      obtain hnone | ⟨a, next, hnext, hsome⟩ := (resyncs_iff hx hpos).mpr hfield (unset idx) behind
      · exact .inl (bind_fail hnone)
      · obtain ⟨len, pos₁, hread, hstop, hle⟩ := hnext
        rw [bind_ok hsome]
        obtain hnone | ⟨stop, hend, hgroups⟩ := ih htail (idx + 1) hle (hrest next ⟨len, pos₁, hread, hstop, hle⟩)
        · exact .inl hnone
        · exact .inr ⟨stop, ⟨next, ⟨len, pos₁, hread, hstop, hle⟩, hend⟩, hgroups⟩

theorem groupsResync_of_fits (hpos : pos ≤ 8 * bytes.length) (hknown : ∀ x ∈ known, Forward x)
    (h : Fits known bytes pos) (unset : Nat → UInt32) (behind : Nat) :
    GroupsResync false (unpack unset behind known) bytes pos := by
  obtain ⟨-, hnone⟩ | ⟨flags, first, k, hflags, hfirst, hsome⟩ := unpackFlags_eq hpos h.1
  · exact .inl (bind_fail hnone)
  · rw [GroupsResync, unpack, bind_ok hsome]
    obtain hnone | ⟨stop, hend, hgroups⟩ := unpackGroups_fit hknown k 0 hfirst (h.2 flags first hflags)
    · exact .inl hnone
    · exact .inr ⟨flags, first, stop, hflags, hend, hgroups⟩

end ExtGroupsUnpackerGuard

/-- An open-type field resynchronises exactly where it fits or its content is refused, the groups of
`ext_groups_unpacker` once one of them is known to the decoder, and those of `ext_groups_unpacker_guard` where each
fits. The flags come back where they fit in the first block of the array. -/
theorem open_types_resync {α : Type} {x : BitParser α} {known : List (BitParser Unit)} {bytes : List UInt8} {pos : Nat}
    (hx : Forward x) (hknown : ∀ x ∈ known, Forward x) (hpos : pos ≤ 8 * bytes.length) (align : Bool)
    (flags : List Bool) :
    (Resyncs x align bytes pos ↔ FieldFits x align bytes pos ∨ ContentFails x align bytes pos) ∧
    (GroupsResync align (ExtGroupsUnpacker.unpack align known) bytes pos ↔ known ≠ []) ∧
    (ExtGroupsUnpackerGuard.Fits known bytes pos → ∀ unset behind,
      GroupsResync false (ExtGroupsUnpackerGuard.unpack unset behind known) bytes pos) ∧
    (FlagsReadBack flags ↔ flags.length ≤ 22 ∧ true ∈ flags) :=
  ⟨resyncs_iff hx hpos, ExtGroupsUnpacker.groupsResync_iff hpos hknown,
    ExtGroupsUnpackerGuard.groupsResync_of_fits hpos hknown, flagsReadBack_iff flags⟩

theorem open_types_resync_sample :
    (Resyncs readByte false [2, 7, 9] 0 ↔ FieldFits readByte false [2, 7, 9] 0 ∨ ContentFails readByte false [2, 7, 9] 0) ∧
    (GroupsResync false (ExtGroupsUnpacker.unpack false [pure ()]) [2, 7, 9] 0 ↔ [(pure () : BitParser Unit)] ≠ []) ∧
    (ExtGroupsUnpackerGuard.Fits [pure ()] [2, 7, 9] 0 → ∀ unset behind,
      GroupsResync false (ExtGroupsUnpackerGuard.unpack unset behind [pure ()]) [2, 7, 9] 0) ∧
    (FlagsReadBack [false, true] ↔ [false, true].length ≤ 22 ∧ true ∈ [false, true]) := by
  refine open_types_resync (fun bytes pos hpos => ?_) (fun x hx => ?_) (by decide) false [false, true]
  · exact (readByte_meets hpos).mono fun _ _ h => by omega
  · rw [List.mem_singleton.mp hx]
    exact ExtGroupsUnpackerGuard.forward_pure

/-- A field of five octets is announced and one is left: the decoding succeeds where it started. -/
theorem truncated_field_not_refused : ¬ ∀ (x : BitParser Unit) (align : Bool) (bytes : List UInt8) (pos : Nat),
    Forward x → pos ≤ 8 * bytes.length → Resyncs x align bytes pos := by
  intro h
  have hread : unpackLength (at' [5, 7] 0) false = .ok (some (5, at' [5, 7] 8)) := by decide +kernel
  obtain hnone | ⟨a, stop, ⟨len, pos₁, hlen, rfl, hstop⟩, -⟩ :=
    h (pure ()) false [5, 7] 0 ExtGroupsUnpackerGuard.forward_pure (by decide) 0 0
  · have hscope : VarlengthFieldUnpackGuard.scope 0 0 (pure () : BitParser Unit) false (at' [5, 7] 0) =
        .ok (some ((), at' [5, 7] 8)) := by decide +kernel
    rw [hscope] at hnone
    cases hnone
  · rw [hread] at hlen
    obtain ⟨hfive, hpos₁⟩ := Prod.mk.inj (Option.some.inj (Except.ok.inj hlen))
    rw [← hfive, ← at'_inj hpos₁] at hstop
    exact absurd hstop (by decide)

end Ocudu.Asn1
