import Ocudu.Rlc.RxUmRotation

/-! When t-Reassembly of a UM entity runs although SDUs are held that are not fully received. -/

namespace Ocudu.Rlc.RlcRxUmEntity

open SeqNum Machine

variable {s t u : RlcRxUmEntity} {sn lo n i j : Nat}

def ahead (s : RlcRxUmEntity) : Nat := dist s.mod s.st.rxNextReassembly s.st.rxNextHighest

def flags (s : RlcRxUmEntity) (x : Nat) : Option (Bool × Bool) :=
  (s.rxWindow.lookup x).map fun info => (info.fullyReceived, info.hasGap)

theorem startReassembly_frame (s : RlcRxUmEntity) : s.startReassembly.ahead = s.ahead ∧
    s.startReassembly.st.rxNextReassembly = s.st.rxNextReassembly ∧ s.startReassembly.rxWindow = s.rxWindow := by
  rw [startReassembly]
  split_ifs <;> exact ⟨rfl, rfl, rfl⟩

def movedTo (u : RlcRxUmEntity) (last : Nat) : RlcRxUmEntity :=
  { u with st := { u.st with rxNextReassembly := last, rxNextHighest := u.nextSn last } }

theorem InvFrom.highest_eq (hi : s.InvFrom sn) :
    s.st.rxNextHighest = (sn + (s.umWindowSize - s.rxModBase sn)) % s.mod := by
  have hm := s.mod_eq
  have hw := s.window_pos
  have hle := hi.le_highest
  apply rxModBase_inj hi.highest_lt (Nat.mod_lt _ s.mod_pos)
  rw [rxModBase_highest, rxModBase_mod, rxModBase_add, Nat.add_sub_cancel' hle, Nat.mod_eq_of_lt (by omega)]

def HeadOpen (s : RlcRxUmEntity) : Prop :=
  s.st.rxNextReassembly ≠ s.st.rxNextHighest → s.fullyReceived s.st.rxNextReassembly = false

theorem HeadOpen.of_eq (h : s.HeadOpen) (hst : t.st.rxNextReassembly = s.st.rxNextReassembly)
    (hst' : t.st.rxNextHighest = s.st.rxNextHighest) (hwindow : t.rxWindow = s.rxWindow) : t.HeadOpen := by
  rw [HeadOpen, RlcRxUmEntity.fullyReceived, hst, hst', hwindow]
  exact h

theorem HeadOpen.startReassembly (h : s.HeadOpen) : s.startReassembly.HeadOpen := by
  unfold RlcRxUmEntity.startReassembly
  split_ifs
  · exact h.of_eq rfl rfl rfl
  · exact h

theorem HeadOpen.updateReassemblyTimer (h : s.HeadOpen) : s.updateReassemblyTimer.HeadOpen := by
  unfold RlcRxUmEntity.updateReassemblyTimer
  dsimp only
  split_ifs
  · exact h.of_eq rfl rfl rfl
  · exact HeadOpen.startReassembly (h.of_eq rfl rfl rfl)
  · exact h
  · exact h.startReassembly

theorem HeadOpen.writeSn (h : s.HeadOpen) (hi : s.Inv) (hne : sn ≠ s.st.rxNextReassembly)
    (info : RlcRxUmSduInfo) : (s.writeSn sn info).HeadOpen := by
  intro hahead
  have hopen := h hahead
  change (s.writeSn sn info).fullyReceived s.st.rxNextReassembly = false
  rw [RlcRxUmEntity.fullyReceived, lookup_writeSn hi.capacity, if_neg hne.symm]
  split_ifs
  · rfl
  · exact hopen

end Ocudu.Rlc.RlcRxUmEntity
