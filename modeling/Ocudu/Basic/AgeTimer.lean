import Mathlib.Tactic

/-! One timer for the lifetimes of many items. The items stand in the order of their arrival at
positions from `lo` up to `hi`, some of which may be empty, and each of them is to go when it is
`T` ticks old. The timer is armed for the item at `lo`. -/

namespace Ocudu

/-- `arrivals` gives the arrival of the item at a position, if there is one. -/
structure AgeTimer (arrivals : Nat → Option Nat) (lo hi now T : Nat) (expiry : Option Nat) : Prop where
  bounds : ∀ c a, arrivals c = some a → lo ≤ c ∧ c < hi
  first : lo < hi → (arrivals lo).isSome = true
  aged : ∀ c a, arrivals c = some a → a ≤ now ∧ now < a + T
  sorted : ∀ c d a b, arrivals c = some a → arrivals d = some b → c ≤ d → a ≤ b
  armed : expiry = (arrivals lo).map (· + T)

namespace AgeTimer

variable {arrivals left : Nat → Option Nat} {lo lo' hi now T : Nat} {expiry : Option Nat}

theorem empty (lo now T : Nat) : AgeTimer (fun _ => none) lo lo now T none where
  bounds := by simp
  first := fun h => absurd h (lt_irrefl lo)
  aged := by simp
  sorted := by simp
  armed := rfl

section

variable (h : AgeTimer arrivals lo hi now T expiry)
include h

theorem stopped_iff : expiry = none ↔ hi ≤ lo := by
  rw [h.armed, Option.map_eq_none_iff]
  constructor
  · intro hnone
    by_contra hlt
    have := h.first (by omega)
    rw [hnone] at this
    cases this
  · intro hle
    cases ha : arrivals lo with
    | none => rfl
    | some a =>
      have := (h.bounds lo a ha).2
      omega

theorem push (hle : lo ≤ hi) (hT : 0 < T)
    (hleft : ∀ c, left c = if c = hi then some now else arrivals c) :
    AgeTimer left lo (hi + 1) now T (some (expiry.getD (now + T))) where
  bounds := by
    intro c a hc
    rw [hleft] at hc
    split at hc
    · omega
    · have := h.bounds c a hc
      omega
  first := by
    intro _
    rw [hleft]
    split
    · rfl
    · exact h.first (by omega)
  aged := by
    intro c a hc
    rw [hleft] at hc
    split at hc
    · cases hc
      omega
    · exact h.aged c a hc
  sorted := by
    intro c d a b hc hd hcd
    rw [hleft] at hc hd
    split at hc
    · cases hc
      split at hd
      · cases hd
        exact le_refl _
      · have := (h.bounds d b hd).2
        omega
    · split at hd
      · cases hd
        exact (h.aged c a hc).1
      · exact h.sorted c d a b hc hd hcd
  armed := by
    rw [hleft]
    split
    · rename_i heq
      rw [h.stopped_iff.mpr (by omega)]
      rfl
    · obtain ⟨a, ha⟩ := Option.isSome_iff_exists.mp (h.first (by omega))
      rw [h.armed, ha]
      rfl

theorem rearm (hsub : ∀ c a, left c = some a → arrivals c = some a ∧ lo' ≤ c)
    (hfirst : lo' < hi → (left lo').isSome = true) :
    AgeTimer left lo' hi now T ((left lo').map (· + T)) where
  bounds := fun c a hc => ⟨(hsub c a hc).2, (h.bounds c a (hsub c a hc).1).2⟩
  first := hfirst
  aged := fun c a hc => h.aged c a (hsub c a hc).1
  sorted := fun c d a b hc hd => h.sorted c d a b (hsub c a hc).1 (hsub d b hd).1
  armed := rfl

theorem keep (hsub : ∀ c a, left c = some a → arrivals c = some a ∧ lo' ≤ c)
    (hfirst : lo' < hi → (left lo').isSome = true)
    (hold : ∀ a, arrivals lo = some a → ∃ c, left c = some a) :
    AgeTimer left lo' hi now T expiry := by
  have hre := h.rearm hsub hfirst
  have harmed : expiry = (left lo').map (· + T) := by
    rw [h.armed]
    cases ha : arrivals lo with
    | none =>
      cases hl : left lo' with
      | none => rfl
      | some b =>
        obtain ⟨hb, -⟩ := hsub lo' b hl
        have hbound := h.bounds lo' b hb
        have := h.first (by omega)
        rw [ha] at this
        cases this
    | some a =>
      obtain ⟨c, hc⟩ := hold a ha
      obtain ⟨hca, hcl⟩ := hsub c a hc
      have hcb := h.bounds c a hca
      obtain ⟨b, hb⟩ := Option.isSome_iff_exists.mp (hfirst (by omega))
      obtain ⟨hba, -⟩ := hsub lo' b hb
      have h1 := h.sorted lo lo' a b ha hba (h.bounds lo' b hba).1
      have h2 := h.sorted lo' c b a hba hca hcl
      rw [hb, show a = b by omega]
  rw [harmed]
  exact hre

theorem tick (hdue : expiry ≠ some (now + 1)) :
    AgeTimer arrivals lo hi (now + 1) T expiry where
  bounds := h.bounds
  first := h.first
  aged := by
    intro c b hc
    have hb := h.bounds c b hc
    obtain ⟨a, ha⟩ := Option.isSome_iff_exists.mp (h.first (by omega))
    have hab := h.sorted lo c a b ha hc hb.1
    have haged := h.aged lo a ha
    have hne : a + T ≠ now + 1 := by
      intro heq
      apply hdue
      rw [h.armed, ha, ← heq]
      rfl
    have := (h.aged c b hc).1
    omega
  sorted := h.sorted
  armed := h.armed

theorem due_iff {a : Nat} (ha : arrivals lo = some a) :
    expiry = some (now + 1) ↔ now + 1 = a + T := by
  rw [h.armed, ha, Option.map_some, Option.some_inj, eq_comm]

end

theorem expire (h : AgeTimer arrivals lo hi now T (some (now + 1)))
    (hsub : ∀ c a, left c = some a → arrivals c = some a ∧ lo' ≤ c)
    (hfirst : lo' < hi → (left lo').isSome = true)
    (hyoung : ∀ a, left lo' = some a → arrivals lo ≠ some a) :
    AgeTimer left lo' hi (now + 1) T ((left lo').map (· + T)) where
  bounds := fun c a hc => ⟨(hsub c a hc).2, (h.bounds c a (hsub c a hc).1).2⟩
  first := hfirst
  aged := by
    intro c b hc
    obtain ⟨hcb, hcl⟩ := hsub c b hc
    have hbound := h.bounds c b hcb
    obtain ⟨a, ha⟩ := Option.isSome_iff_exists.mp (hfirst (by omega))
    obtain ⟨haa, -⟩ := hsub lo' a ha
    obtain ⟨o, ho⟩ := Option.isSome_iff_exists.mp (h.first (by omega))
    have hdue := (h.due_iff ho).mp rfl
    have hoa := h.sorted lo lo' o a ho haa (h.bounds lo' a haa).1
    have hab := h.sorted lo' c a b haa hcb hcl
    have hne : o ≠ a := fun heq => hyoung a ha (by rw [← heq]; exact ho)
    have := (h.aged c b hcb).1
    omega
  sorted := fun c d a b hc hd => h.sorted c d a b (hsub c a hc).1 (hsub d b hd).1
  armed := rfl

end AgeTimer

end Ocudu
