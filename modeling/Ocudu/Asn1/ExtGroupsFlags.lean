import Mathlib.Data.List.GetD
import Ocudu.Asn1.ExtGroups

/-! The presence flags of extension groups: what the packer writes and the unpackers read. -/

namespace Ocudu.Asn1

open BitCodec BitReader BitWriter BitParser

def FlagsReadBack (flags : List Bool) : Prop :=
  ∀ w bits, w.Holds bits → ∃ groups w', ExtGroupsPackerGuard.setFlags ExtArray.empty 0 flags = .ok groups ∧
    ExtGroupsPackerGuard.pack groups w = .ok (some w') ∧ ∃ field unpacked, w'.Holds (bits ++ field) ∧
      AcceptsAt unpackPresenceFlags bits.length field unpacked ∧ ∀ i, unpacked.getD i false = flags.getD i false

namespace ExtArray

variable {a : ExtArray} {n : Nat}

theorem resize_room (h : n ≤ a.capacity) :
    a.resize n = .ok { a with elems := a.elems ++ List.replicate (n - a.elems.length) false } := if_pos h

theorem resize_heap (h : a.capacity < n) (hempty : a.heapCap = none ∨ a.elems = []) :
    a.resize n = .ok ⟨a.elems ++ List.replicate (n - a.elems.length) false, some (n + 5)⟩ := by
  rw [resize, if_neg (Nat.not_le.mpr h), if_neg]
  rcases hempty with hnone | hnil
  · rw [hnone]
    exact Bool.false_ne_true
  · rw [hnil, List.isEmpty_nil, Bool.not_true, Bool.and_false]
    exact Bool.false_ne_true

theorem resize_lost (h : a.capacity < n) (hheap : a.heapCap ≠ none) (hne : a.elems ≠ []) :
    a.resize n = .error .outOfBounds := by
  rw [resize, if_neg (Nat.not_le.mpr h), if_pos]
  rw [Option.isSome_iff_ne_none.mpr hheap, List.isEmpty_eq_false_iff.mpr hne]
  rfl

end ExtArray

theorem modify_last {α : Type} (l : List α) (a : α) (f : α → α) : (l ++ [a]).modify l.length f = l ++ [f a] := by
  induction l with
  | nil => rfl
  | cons b l ih => rw [List.cons_append, List.length_cons, List.modify_succ_cons, ih, List.cons_append]

namespace ExtGroupsPackerGuard

variable {groups : ExtArray}

theorem setFlag_next (present : Bool)
    (h : groups.heapCap = none ∧ groups.elems.length ≤ 16 ∨ groups.heapCap = some 22 ∧ 17 ≤ groups.elems.length ∧
      groups.elems.length ≤ 22) :
    setFlag groups groups.elems.length present =
      if groups.elems.length < 22 then
        .ok ⟨groups.elems ++ [present], if groups.elems.length < 16 then none else some 22⟩
      else .error .outOfBounds := by
  have hone : groups.elems.length + 1 - groups.elems.length = 1 := by omega
  have hset : ∀ heapCap, groups.resize (groups.elems.length + 1) = .ok ⟨groups.elems ++ [false], heapCap⟩ →
      setFlag groups groups.elems.length present = .ok ⟨groups.elems ++ [present], heapCap⟩ := by
    intro heapCap hresize
    rw [setFlag, if_pos (Nat.le_refl _), hresize]
    simp only [ok_bind, pure_eq_ok, modify_last, Bool.false_or]
  obtain ⟨hcap, hle⟩ | ⟨hcap, hge, hle⟩ := h
  · have hcapacity : groups.capacity = 16 := by rw [ExtArray.capacity, hcap, Option.getD_none]
    rw [if_pos (show groups.elems.length < 22 by omega)]
    apply hset
    by_cases hroom : groups.elems.length < 16
    · rw [if_pos hroom, ExtArray.resize_room (by omega), hone, hcap, List.replicate_one]
    · have hlen : groups.elems.length = 16 := by omega
      rw [if_neg hroom, ExtArray.resize_heap (by omega) (.inl hcap), hone, hlen, List.replicate_one]
  · have hcapacity : groups.capacity = 22 := by rw [ExtArray.capacity, hcap, Option.getD_some]
    by_cases hroom : groups.elems.length < 22
    · rw [if_pos hroom, if_neg (show ¬ groups.elems.length < 16 by omega)]
      apply hset
      rw [ExtArray.resize_room (by omega), hone, hcap, List.replicate_one]
    · have hne : groups.elems ≠ [] := by
        intro hnil
        rw [hnil] at hge
        exact absurd hge (by decide)
      rw [if_neg hroom, setFlag, if_pos (Nat.le_refl _),
        ExtArray.resize_lost (by omega) (by rw [hcap]; exact Option.some_ne_none 22) hne]
      rfl

theorem setFlags_next (flags : List Bool)
    (h : groups.heapCap = none ∧ groups.elems.length ≤ 16 ∨ groups.heapCap = some 22 ∧ 17 ≤ groups.elems.length ∧
      groups.elems.length ≤ 22) :
    (setFlags groups groups.elems.length flags).map ExtArray.elems =
      if groups.elems.length + flags.length ≤ 22 then .ok (groups.elems ++ flags) else .error .outOfBounds := by
  induction flags generalizing groups with
  | nil =>
    rw [setFlags, List.append_nil, List.length_nil, if_pos (by omega)]
    rfl
  | cons present flags ih =>
    rw [setFlags, setFlag_next present h]
    by_cases hroom : groups.elems.length < 22
    · rw [if_pos hroom, List.length_cons]
      simp only [ok_bind]
      obtain ⟨next, hnext⟩ : ∃ next : ExtArray,
          (⟨groups.elems ++ [present], if groups.elems.length < 16 then none else some 22⟩ : ExtArray) = next := ⟨_, rfl⟩
      have helems : next.elems = groups.elems ++ [present] := hnext ▸ rfl
      have hlen : next.elems.length = groups.elems.length + 1 := by
        rw [helems, List.length_append, List.length_singleton]
      have hcap : next.heapCap = if groups.elems.length < 16 then none else some 22 := hnext ▸ rfl
      rw [hnext, ← hlen, ih]
      · rw [helems, List.append_assoc, List.singleton_append, ← helems, hlen]
        congr 2
        omega
      · rw [hcap, hlen]
        split_ifs with hsmall
        · exact .inl ⟨rfl, by omega⟩
        · exact .inr ⟨rfl, by omega, by omega⟩
    · rw [if_neg hroom, List.length_cons, if_neg (by omega)]
      rfl

theorem setFlags_empty (flags : List Bool) :
    (setFlags ExtArray.empty 0 flags).map ExtArray.elems =
      if flags.length ≤ 22 then .ok flags else .error .outOfBounds := by
  have h := @setFlags_next ExtArray.empty flags (.inl ⟨rfl, Nat.zero_le _⟩)
  rwa [show ExtArray.empty.elems.length = 0 from rfl, Nat.zero_add] at h

end ExtGroupsPackerGuard

section Flags

variable {w : BitRef} {bits : List Bool}

theorem packPresence_ok (flags : List Bool) (hw : w.Holds bits) : ∃ w',
    flags.foldlM (fun w present => BitRef.pack w present.toNat 1) w = .ok w' ∧ w'.Holds (bits ++ flags) := by
  induction flags generalizing w bits with
  | nil => exact ⟨w, rfl, by rwa [List.append_nil]⟩
  | cons present flags ih =>
    have hbit : toBits 1 present.toNat = [present] := by cases present <;> rfl
    obtain ⟨w₁, hpack, h₁⟩ := BitRef.pack_ok hw present.toNat (show 1 < 64 by decide)
    obtain ⟨w', hflags, hw'⟩ := ih h₁
    rw [hbit, List.append_assoc, List.singleton_append] at hw'
    refine ⟨w', ?_, hw'⟩
    rw [List.foldlM_cons, hpack]
    exact hflags

theorem readPresence_accepts (present : Bool) : Accepts readPresence [present] present := by
  have h := (Accepts.read (show 1 ≤ 8 by decide) present.toNat_lt).map fun flag => flag != 0
  cases present <;> exact h

theorem normSmall_accepts {n : Nat} (hn : n < 64) : Accepts unpackNormSmallNonNegWholeNumber (toBits 7 n) n := by
  have hsplit : toBits 7 n = toBits 1 0 ++ ([] ++ toBits 6 n) := by
    rw [show 7 = 1 + 6 from rfl, toBits_add, Nat.shiftRight_eq_div_pow, Nat.div_eq_of_lt hn, List.nil_append]
  rw [hsplit]
  apply (Accepts.read (by decide) (by decide)).bind
  exact (Accepts.require rfl).bind (Accepts.read (by decide) hn)

theorem presenceFlags_accepts {flags : List Bool} (hne : flags ≠ []) (hlen : flags.length ≤ 64) :
    Accepts unpackPresenceFlags (toBits 7 (flags.length - 1) ++ flags) flags := by
  have hpos := List.length_pos_iff.mpr hne
  apply (normSmall_accepts (show flags.length - 1 < 64 by omega)).bind
  have htimes := Accepts.times flags fun present _ => readPresence_accepts present
  rw [List.flatMap_singleton'] at htimes
  rwa [Nat.sub_add_cancel hpos]

theorem presentGroups_getD (groups : ExtArray) (i : Nat) :
    (ExtGroupsPackerGuard.presentGroups groups).getD i false = groups.elems.getD i false := by
  obtain ⟨absent, habsent⟩ : ∃ absent, groups.elems.rtakeWhile (fun present => !present) = absent := ⟨_, rfl⟩
  have hsplit : ExtGroupsPackerGuard.presentGroups groups ++ absent = groups.elems := by
    rw [← habsent]
    exact List.rdropWhile_append_rtakeWhile
  have hfalse : ∀ present ∈ absent, present = false := by
    intro present hmem
    rw [← habsent] at hmem
    simpa using List.mem_rtakeWhile_imp hmem
  rw [← hsplit]
  by_cases hi : i < (ExtGroupsPackerGuard.presentGroups groups).length
  · rw [List.getD_append _ _ _ _ hi]
  · rw [List.getD_append_right _ _ _ _ (Nat.not_lt.mp hi), List.getD_eq_default _ _ (Nat.not_lt.mp hi)]
    obtain ⟨k, hk⟩ : ∃ k, i - (ExtGroupsPackerGuard.presentGroups groups).length = k := ⟨_, rfl⟩
    rw [hk]
    by_cases hlt : k < absent.length
    · rw [List.getD_eq_getElem _ _ hlt, hfalse _ (List.getElem_mem hlt)]
    · rw [List.getD_eq_default _ _ (Nat.not_lt.mp hlt)]

theorem pack_none {groups : ExtArray} (h : ExtGroupsPackerGuard.presentGroups groups = []) :
    ExtGroupsPackerGuard.pack groups w = .ok none := by
  obtain ⟨res, hres⟩ : ∃ res, BitRef.pack w 1 1 = .ok res := ⟨_, if_pos (by decide)⟩
  rw [ExtGroupsPackerGuard.pack, h, List.length_nil, packNormSmallNonNegWholeNumber, if_neg (by decide), hres]
  rfl

theorem pack_present {groups : ExtArray} {flags : List Bool} (h : ExtGroupsPackerGuard.presentGroups groups = flags)
    (hne : flags ≠ []) (hlen : flags.length ≤ 64) (hw : w.Holds bits) : ∃ w',
    ExtGroupsPackerGuard.pack groups w = .ok (some w') ∧ w'.Holds (bits ++ (toBits 7 (flags.length - 1) ++ flags)) := by
  have hpos := List.length_pos_iff.mpr hne
  have hnumber : (flags.length + (2 ^ 32 - 1)) % 2 ^ 32 = flags.length - 1 := by lia
  obtain ⟨w₁, hpack, h₁⟩ := BitRef.pack_ok hw (flags.length - 1) (show 7 < 64 by decide)
  obtain ⟨w', hflags, hw'⟩ := packPresence_ok flags h₁
  rw [List.append_assoc] at hw'
  refine ⟨w', ?_, hw'⟩
  rw [ExtGroupsPackerGuard.pack, h, hnumber, packNormSmallNonNegWholeNumber, if_pos (by omega), hpack]
  simp only [Except.map, handleCode, hflags]

end Flags

theorem flagsReadBack_iff (flags : List Bool) : FlagsReadBack flags ↔ flags.length ≤ 22 ∧ true ∈ flags := by
  have hset := ExtGroupsPackerGuard.setFlags_empty flags
  constructor
  · intro h
    obtain ⟨groups, w', hgroups, hpack, -⟩ := h ⟨[], 0⟩ [] (Holds.start [])
    rw [hgroups] at hset
    by_cases hlen : flags.length ≤ 22
    · refine ⟨hlen, ?_⟩
      rw [if_pos hlen] at hset
      have helems : groups.elems = flags := Except.ok.inj hset
      by_contra habsent
      have hnil : ExtGroupsPackerGuard.presentGroups groups = [] := by
        rw [ExtGroupsPackerGuard.presentGroups, helems, List.rdropWhile_eq_nil_iff]
        intro present hmem
        cases present with
        | false => rfl
        | true => exact absurd hmem habsent
      rw [pack_none hnil] at hpack
      cases hpack
    · rw [if_neg hlen] at hset
      cases hset
  · rintro ⟨hlen, hmem⟩ w bits hw
    rw [if_pos hlen] at hset
    obtain ⟨groups, hgroups, helems⟩ := map_eq_ok.mp hset
    have hne : ExtGroupsPackerGuard.presentGroups groups ≠ [] := by
      intro hnil
      rw [ExtGroupsPackerGuard.presentGroups, helems, List.rdropWhile_eq_nil_iff] at hnil
      exact absurd (hnil true hmem) (by decide)
    have hle : (ExtGroupsPackerGuard.presentGroups groups).length ≤ flags.length := by
      rw [← helems]
      exact (List.rdropWhile_prefix _ _).length_le
    obtain ⟨w', hpack, hw'⟩ := pack_present rfl hne (by omega) hw
    refine ⟨groups, w', hgroups, hpack, _, _, hw', (presenceFlags_accepts hne (by omega)).at _, fun i => ?_⟩
    rw [presentGroups_getD, helems]

end Ocudu.Asn1
