import Ocudu.Basic.SnWindow
import Ocudu.Pdcp.Rx

/-! Order and completeness of delivery at the receiver, over every interleaving of
receptions, crypto completions and expiries of t-Reordering. -/

namespace Ocudu.Pdcp

namespace PdcpEntityRx

open CircularMap

variable {D : RohcDecompressor} {cfg : PdcpRxConfig} {d₀ : Option D.State} {R : List PdcpRxPduInfo}
  {s t : PdcpEntityRx D}

/-- The decompressor after a packet, and the packet without its header, if any is left. -/
def decompressed (d : Option D.State) (buf : List UInt8) : Option D.State × Option (List UInt8) :=
  match d with
  | none => (none, some buf)
  | some d =>
    let r := D.decompress d buf
    (some r.1, if r.2.1 = [] then none else some r.2.1)

/-- What is handed up for PDUs that are decompressed one after the other from the state `d` on. -/
def handUp (d : Option D.State) : List PdcpRxPduInfo → Option D.State × List Delivery
  | [] => (d, [])
  | pdu :: pdus =>
    let r := decompressed d pdu.buf
    let t := handUp r.1 pdus
    (t.1, ⟨pdu.count, r.2.map fun buf => (buf, pdu.integrityVerified)⟩ :: t.2)

theorem handUp_append (d : Option D.State) (pdus pdus' : List PdcpRxPduInfo) :
    handUp d (pdus ++ pdus') =
      ((handUp (handUp d pdus).1 pdus').1, (handUp d pdus).2 ++ (handUp (handUp d pdus).1 pdus').2) := by
  induction pdus generalizing d with
  | nil => rfl
  | cons pdu pdus ih => simp only [List.cons_append, handUp, ih]

/-- The window and the log of deliveries fit the state variables and the PDUs that were accepted;
this also holds between two turns of the delivery loops. -/
structure Ordered (cfg : PdcpRxConfig) (d₀ : Option D.State) (R : List PdcpRxPduInfo) (s : PdcpEntityRx D) :
    Prop where
  window : SnWindow s.rxWindow (2 ^ 32) s.st.rxDeliv s.st.rxNext
  capacity : s.rxWindow.capacity = cfg.snSize.windowSize
  next_lt : s.st.rxNext < 2 ^ 32
  deliv_le : s.st.rxDeliv ≤ s.st.rxNext
  key : ∀ c info, s.rxWindow.lookup c = some info → ∃ pdu ∈ R, pdu.count = c ∧ pdu.sduInfo = info
  held : ∀ c, s.rxWindow.contains c = true ↔ (∃ pdu ∈ R, pdu.count = c) ∧ s.st.rxDeliv ≤ c
  accounted : ∀ pdu ∈ R, s.st.rxDeliv ≤ pdu.count ∨ ∃ d ∈ s.deliveries, d.count = pdu.count
  handed : ∃ pdus ⊆ R, handUp d₀ pdus = (s.rohcDecomp, s.deliveries)
  below : ∀ d ∈ s.deliveries, d.count < s.st.rxDeliv
  increasing : s.deliveries.Pairwise (·.count < ·.count)

/-- What holds between two events. -/
structure Inv (cfg : PdcpRxConfig) (d₀ : Option D.State) (R : List PdcpRxPduInfo) (s : PdcpEntityRx D) : Prop
    extends Ordered cfg d₀ R s where
  first : s.rxWindow.contains s.st.rxDeliv = false
  reord : s.reorderingTimer = true →
    s.st.rxDeliv < s.st.rxReord ∧ s.st.rxReord ≤ s.st.rxNext
  timed : ∀ n, cfg.tReordering = .ms (n + 1) → s.st.rxDeliv < s.st.rxNext →
    s.reorderingTimer = true
  zero : cfg.tReordering = .ms 0 → s.st.rxDeliv = s.st.rxNext

/-- `t` is `s` after its window and decompressor were used, with `rxDeliv` at `c`. -/
structure MovedTo (c : Nat) (s t : PdcpEntityRx D) : Prop where
  st : t.st = { s.st with rxDeliv := c }
  timer : t.reorderingTimer = s.reorderingTimer

theorem MovedTo.refl (s : PdcpEntityRx D) : MovedTo s.st.rxDeliv s s := ⟨rfl, rfl⟩

theorem MovedTo.trans {b c : Nat} {u : PdcpEntityRx D} (h : MovedTo b s t) (h' : MovedTo c t u) :
    MovedTo c s u :=
  ⟨by rw [h'.st, h.st], h'.timer.trans h.timer⟩

theorem applyHeaderDecompression_eq (s : PdcpEntityRx D) (buf : List UInt8) :
    (s.applyHeaderDecompression buf).1 = (decompressed s.rohcDecomp buf).2 ∧
      ∃ f, (s.applyHeaderDecompression buf).2 =
        { s with rohcDecomp := (decompressed s.rohcDecomp buf).1, feedback := f } := by
  obtain ⟨st, rxWindow, timer, decomp, deliveries, feedback⟩ := s
  unfold applyHeaderDecompression decompressed
  cases decomp with
  | none => exact ⟨rfl, feedback, rfl⟩
  | some d =>
    dsimp only
    by_cases hbuf : (D.decompress d buf).2.1 = []
    all_goals by_cases hfeedback : (D.decompress d buf).2.2 = []
    all_goals
      simp only [hbuf, hfeedback, and_self, and_false, false_and, if_true, if_false]
      exact ⟨trivial, _, rfl⟩

theorem deliverSdu_eq (s : PdcpEntityRx D) (pdu : PdcpRxPduInfo) :
    ∃ f, s.deliverSdu pdu.sduInfo =
      { s with rohcDecomp := (handUp s.rohcDecomp [pdu]).1, feedback := f,
               deliveries := s.deliveries ++ (handUp s.rohcDecomp [pdu]).2 } := by
  obtain ⟨hbuf, f, h⟩ := s.applyHeaderDecompression_eq pdu.buf
  unfold deliverSdu
  dsimp only [PdcpRxPduInfo.sduInfo]
  rw [hbuf, h]
  exact ⟨f, rfl⟩

theorem deliverIfHeld_eq (s : PdcpEntityRx D) (c : Nat) (hkey : ∀ info,
    s.rxWindow.lookup c = some info → ∃ pdu ∈ R, pdu.count = c ∧ pdu.sduInfo = info) :
    ∃ r f ds, s.deliverIfHeld c = .ok { s with
        rohcDecomp := r, feedback := f, rxWindow := s.rxWindow.erase c,
        deliveries := s.deliveries ++ ds } ∧
      ((s.rxWindow.contains c = true ∧ ∃ pdu ∈ R, pdu.count = c ∧ handUp s.rohcDecomp [pdu] = (r, ds)) ∨
        (s.rxWindow.contains c = false ∧ r = s.rohcDecomp ∧ ds = [])) := by
  unfold deliverIfHeld
  split
  · rename_i hc
    obtain ⟨info, hl⟩ := lookup_of_contains hc
    obtain ⟨pdu, hpdu, hcount, rfl⟩ := hkey info hl
    obtain ⟨f, hd⟩ := s.deliverSdu_eq pdu
    refine ⟨_, f, _, ?_, .inl ⟨hc, pdu, hpdu, hcount, rfl⟩⟩
    simp [deliverAndRemove, SduWindow.get, SduWindow.removeSn, hl, hd, hc, handUp]
  · rename_i hc
    rw [Bool.not_eq_true] at hc
    exact ⟨s.rohcDecomp, s.feedback, [], by rw [erase_of_not_contains hc, List.append_nil], .inr ⟨hc, rfl, rfl⟩⟩

section

variable (h : Ordered cfg d₀ R s)
include h

theorem Ordered.congr (hwindow : t.rxWindow = s.rxWindow)
    (hdeliv : t.st.rxDeliv = s.st.rxDeliv) (hnext : t.st.rxNext = s.st.rxNext)
    (hdecomp : t.rohcDecomp = s.rohcDecomp) (hdeliveries : t.deliveries = s.deliveries) : Ordered cfg d₀ R t where
  window := by rw [hwindow, hdeliv, hnext]; exact h.window
  capacity := by rw [hwindow]; exact h.capacity
  next_lt := by rw [hnext]; exact h.next_lt
  deliv_le := by rw [hdeliv, hnext]; exact h.deliv_le
  key := by rw [hwindow]; exact h.key
  held := by rw [hwindow, hdeliv]; exact h.held
  accounted := by rw [hdeliv, hdeliveries]; exact h.accounted
  handed := by rw [hdecomp, hdeliveries]; exact h.handed
  below := by rw [hdeliv, hdeliveries]; exact h.below
  increasing := by rw [hdeliveries]; exact h.increasing

theorem Ordered.pass (hlt : s.st.rxDeliv < s.st.rxNext) :
    ∃ t, s.deliverIfHeld s.st.rxDeliv = .ok t ∧ Ordered cfg d₀ R t.advanceDeliv ∧
      MovedTo (s.st.rxDeliv + 1) s t.advanceDeliv := by
  obtain ⟨r, f, ds, ht, hds⟩ := s.deliverIfHeld_eq s.st.rxDeliv (h.key _)
  have hn := h.next_lt
  have hmod : (s.st.rxDeliv + 1) % 2 ^ 32 = s.st.rxDeliv + 1 := Nat.mod_eq_of_lt (by omega)
  have hself : s.st.rxDeliv % 2 ^ 32 = s.st.rxDeliv := Nat.mod_eq_of_lt (by omega)
  have hcount : ∀ d ∈ ds, d.count = s.st.rxDeliv := by
    rcases hds with ⟨-, pdu, -, hpdu, hup⟩ | ⟨-, -, rfl⟩
    · cases hup
      simp [hpdu, handUp]
    · simp
  refine ⟨_, ht, ?_, ⟨by simp only [advanceDeliv, hmod], rfl⟩⟩
  constructor
  case window =>
    have := h.window.erase_first
    rw [hself] at this
    simpa only [advanceDeliv, hmod] using this
  case capacity => simpa only [advanceDeliv, CircularMap.capacity_erase] using h.capacity
  case next_lt => exact hn
  case deliv_le =>
    simp only [advanceDeliv, hmod]
    omega
  case key =>
    intro c info hl
    simp only [advanceDeliv, CircularMap.lookup_erase] at hl
    split at hl
    · cases hl
    · exact h.key c info hl
  case held =>
    intro c
    simp only [advanceDeliv, hmod, contains_erase, h.held]
    constructor
    · rintro ⟨hne, hR, hle⟩
      exact ⟨hR, by omega⟩
    · rintro ⟨hR, hle⟩
      exact ⟨by omega, hR, by omega⟩
  case accounted =>
    intro q hq
    simp only [advanceDeliv, hmod]
    rcases h.accounted q hq with hle | ⟨d, hd, hdc⟩
    · rcases Nat.lt_or_eq_of_le hle with hlt' | heq
      · exact .inl hlt'
      · have hcont := (h.held q.count).mpr ⟨⟨q, hq, rfl⟩, hle⟩
        rcases hds with ⟨-, pdu, -, hpdu, hup⟩ | ⟨hno, -⟩
        · cases hup
          exact .inr ⟨_, List.mem_append_right _ List.mem_cons_self, hpdu.trans heq⟩
        · rw [heq, hcont] at hno
          cases hno
    · exact .inr ⟨d, List.mem_append_left _ hd, hdc⟩
  case handed =>
    obtain ⟨pdus, hpdus, hup⟩ := h.handed
    rcases hds with ⟨-, pdu, hpdu, -, hone⟩ | ⟨-, rfl, rfl⟩
    · refine ⟨pdus ++ [pdu], List.append_subset.mpr ⟨hpdus, by simpa using hpdu⟩, ?_⟩
      rw [handUp_append, hup, hone]
      rfl
    · exact ⟨pdus, hpdus, by rw [hup, List.append_nil]; rfl⟩
  case below =>
    intro d hd
    simp only [advanceDeliv, hmod]
    rcases List.mem_append.mp hd with hd | hd
    · have := h.below d hd
      omega
    · have := hcount d hd
      omega
  case increasing =>
    refine List.pairwise_append.mpr ⟨h.increasing, ?_, ?_⟩
    · rcases hds with ⟨-, pdu, -, -, hup⟩ | ⟨-, -, rfl⟩
      · cases hup
        exact List.pairwise_singleton _ _
      · exact List.Pairwise.nil
    · intro d hd e he
      rw [hcount e he]
      exact h.below d hd

theorem Ordered.expireLoop (fuel : Nat) (hle : s.st.rxDeliv ≤ s.st.rxReord)
    (hre : s.st.rxReord ≤ s.st.rxNext) (hf : s.st.rxReord < s.st.rxDeliv + fuel) :
    ∃ t, PdcpEntityRx.expireLoop fuel s = .ok t ∧ Ordered cfg d₀ R t ∧ MovedTo s.st.rxReord s t := by
  induction fuel generalizing s with
  | zero => omega
  | succ fuel ih =>
    unfold PdcpEntityRx.expireLoop
    split
    · rename_i hne
      obtain ⟨t, ht, hot, hm⟩ := h.pass (by omega)
      have hst := hm.st
      obtain ⟨u, hu, hou, hmu⟩ := ih hot (by rw [hst]; dsimp only; omega) (by rw [hst]; exact hre)
        (by rw [hst]; dsimp only; omega)
      refine ⟨u, by simp only [ht, ok_bind, hu], hou, hm.trans ?_⟩
      rw [hst] at hmu
      exact hmu
    · rename_i heq
      have heq : s.st.rxDeliv = s.st.rxReord := not_not.mp heq
      refine ⟨s, rfl, h, ?_⟩
      rw [← heq]
      exact MovedTo.refl s

theorem Ordered.not_contains_next : s.rxWindow.contains s.st.rxNext = false := by
  by_contra hc
  rw [Bool.not_eq_false] at hc
  obtain ⟨v, hl⟩ := lookup_of_contains hc
  obtain ⟨k, hk, hkn, he⟩ := h.window.only _ v hl
  have := h.next_lt
  rw [Nat.mod_eq_of_lt (by lia)] at he
  omega

theorem Ordered.consecutiveLoop (fuel : Nat) (hf : s.st.rxNext < s.st.rxDeliv + fuel) :
    ∃ t c, PdcpEntityRx.consecutiveLoop fuel s = .ok t ∧ Ordered cfg d₀ R t ∧ MovedTo c s t ∧
      s.st.rxDeliv ≤ c ∧ t.rxWindow.contains c = false := by
  induction fuel generalizing s with
  | zero =>
    have := h.deliv_le
    omega
  | succ fuel ih =>
    unfold PdcpEntityRx.consecutiveLoop
    split
    · rename_i hc
      have hle := h.deliv_le
      obtain ⟨t, ht, hot, hm⟩ := h.pass (by omega)
      have hst := hm.st
      obtain ⟨u, c, hu, hou, hmu, hcle, hno⟩ := ih hot (by rw [hst]; dsimp only; omega)
      rw [hst] at hcle
      dsimp only at hcle
      have ht' : s.deliverAndRemove s.st.rxDeliv = .ok t := by
        rw [← ht, deliverIfHeld, if_pos hc.2]
      exact ⟨u, c, by simp only [ht', ok_bind, hu], hou, hm.trans hmu, by omega, hno⟩
    · rename_i hc
      refine ⟨s, s.st.rxDeliv, rfl, h, MovedTo.refl s, le_refl _, ?_⟩
      by_cases heq : s.st.rxDeliv = s.st.rxNext
      · rw [heq]
        exact h.not_contains_next
      · simpa [heq] using hc

theorem Ordered.deliverAllConsecutiveCounts :
    ∃ t c, s.deliverAllConsecutiveCounts cfg = .ok t ∧ Ordered cfg d₀ R t ∧ MovedTo c s t ∧
      s.st.rxDeliv ≤ c ∧ t.rxWindow.contains c = false := by
  have hle := h.window.le
  rw [h.capacity] at hle
  exact h.consecutiveLoop _ (by omega)

theorem Ordered.handleTReorderingExpire (hle : s.st.rxDeliv ≤ s.st.rxReord) (hre : s.st.rxReord ≤ s.st.rxNext)
    (htimer : s.reorderingTimer = false) (hnext : cfg.tReordering = .ms 0 → s.st.rxReord = s.st.rxNext) :
    ∃ t, s.handleTReorderingExpire cfg = .ok t ∧ Inv cfg d₀ R t ∧ s.st.rxDeliv ≤ t.st.rxDeliv := by
  have hcap := h.window.le
  rw [h.capacity] at hcap
  obtain ⟨t, ht, hot, hmt⟩ := h.expireLoop (cfg.snSize.windowSize + 1) hle hre (by omega)
  obtain ⟨u, c, hu, hou, hmu, hc, hno⟩ := hot.deliverAllConsecutiveCounts
  have hm := hmt.trans hmu
  rw [hmt.st] at hc
  dsimp only at hc
  have hst := hm.st
  have htu : u.reorderingTimer = false := hm.timer.trans htimer
  unfold PdcpEntityRx.handleTReorderingExpire
  simp only [ht, hu, ok_bind]
  split_ifs with hlt hzero
  · -- a timer of no duration has just been through every COUNT
    have := hnext hzero
    rw [hst] at hlt
    dsimp only at hlt
    omega
  · refine ⟨_, rfl, ⟨hou.congr rfl rfl rfl rfl rfl, ?_, ?_, ?_, ?_⟩, ?_⟩
    · simpa only [restartReordering, hst] using hno
    · exact fun _ => ⟨hlt, le_refl _⟩
    · exact fun _ _ _ => rfl
    · exact fun hz => absurd hz hzero
    · simp only [restartReordering, hst]
      omega
  · refine ⟨u, rfl, ⟨hou, ?_, ?_, ?_, ?_⟩, ?_⟩
    · simpa only [hst] using hno
    · exact fun hr => by rw [htu] at hr; cases hr
    · exact fun _ _ hr => absurd hr hlt
    · have := hou.deliv_le
      exact fun _ => by omega
    · rw [hst]
      dsimp only
      omega

theorem Ordered.storePdu {pdu : PdcpRxPduInfo} (hlo : s.st.rxDeliv ≤ pdu.count)
    (hhi : pdu.count < s.st.rxDeliv + cfg.snSize.windowSize)
    (hmax : pdu.count + 1 < 2 ^ 32) (hnew : s.rxWindow.contains pdu.count = false) :
    ∃ t, s.storePdu pdu = .ok t ∧ Ordered cfg d₀ (pdu :: R) t ∧
      t.st = { s.st with rxNext := max s.st.rxNext (pdu.count + 1) } ∧
      t.reorderingTimer = s.reorderingTimer := by
  have hself : pdu.count % 2 ^ 32 = pdu.count := Nat.mod_eq_of_lt (by omega)
  have hmod : (pdu.count + 1) % 2 ^ 32 = pdu.count + 1 := Nat.mod_eq_of_lt hmax
  have hnone : s.rxWindow.lookup (pdu.count % 2 ^ 32) = none := by
    rw [hself]
    simpa [CircularMap.contains] using hnew
  have hcap : pdu.count < s.st.rxDeliv + s.rxWindow.capacity := by
    rw [h.capacity]
    exact hhi
  have hnext : (if s.st.rxNext ≤ pdu.count then (pdu.count + 1) % 2 ^ 32 else s.st.rxNext) =
      max s.st.rxNext (pdu.count + 1) := by
    rw [hmod]
    split <;> omega
  have hlook := h.window.lookup_put hlo hcap pdu.sduInfo
  have hadd := h.window.put hlo hcap pdu.sduInfo
  rw [hself] at hlook hadd
  have hn := h.next_lt
  refine ⟨{ s with
    rxWindow := s.rxWindow.overwrite pdu.count pdu.sduInfo
    st := { s.st with rxNext := max s.st.rxNext (pdu.count + 1) } }, ?_, ?_, rfl, rfl⟩
  · simp only [PdcpEntityRx.storePdu, removeOld, hnew, Bool.false_eq_true, if_false, ok_bind,
      SduWindow.addSn, hnext, pure_eq_ok]
  · constructor
    case window => exact hadd
    case capacity => simpa using h.capacity
    case next_lt =>
      dsimp only
      lia
    case deliv_le =>
      dsimp only
      omega
    case key =>
      intro c info hl
      rw [hlook] at hl
      split at hl
      · rename_i hc
        cases hl
        exact ⟨pdu, List.mem_cons_self, hc.symm, rfl⟩
      · obtain ⟨q, hq, hqc⟩ := h.key c info hl
        exact ⟨q, List.mem_cons_of_mem _ hq, hqc⟩
    case held =>
      intro c
      have hheld := h.held c
      unfold CircularMap.contains at hheld ⊢
      rw [hlook]
      by_cases hc : c = pdu.count
      · simp [hc, hlo]
      · simp [hc, Ne.symm hc, hheld]
    case accounted =>
      intro q hq
      rcases List.mem_cons.mp hq with rfl | hq
      · exact .inl hlo
      · exact h.accounted q hq
    case handed =>
      obtain ⟨pdus, hpdus, hup⟩ := h.handed
      exact ⟨pdus, List.subset_cons_of_subset pdu hpdus, hup⟩
    case below => exact h.below
    case increasing => exact h.increasing

theorem Ordered.isDuplicate_eq (c : Nat) :
    s.isDuplicate c = s.rxWindow.contains c := by
  unfold isDuplicate CircularMap.contains
  cases hl : s.rxWindow.lookup c with
  | none => rfl
  | some info =>
    obtain ⟨pdu, -, hcount, rfl⟩ := h.key c info hl
    simp [PdcpRxPduInfo.sduInfo, hcount]

theorem Ordered.handleReorderingTimers (hfirst : s.rxWindow.contains s.st.rxDeliv = false)
    (hreord : s.reorderingTimer = true → s.st.rxReord ≤ s.st.rxNext)
    (htimer : cfg.tReordering = .ms 0 → s.reorderingTimer = false) :
    ∃ t, s.handleReorderingTimers cfg = .ok t ∧ Inv cfg d₀ R t ∧ s.st.rxDeliv ≤ t.st.rxDeliv := by
  have hstop : ∃ b, s.stopReordering = { s with reorderingTimer := b } ∧
      (b = true → s.reorderingTimer = true ∧ s.st.rxDeliv < s.st.rxReord) := by
    unfold stopReordering
    split_ifs with hs
    · exact ⟨false, rfl, by simp⟩
    · refine ⟨s.reorderingTimer, rfl, fun hb => ⟨hb, ?_⟩⟩
      rw [hb] at hs
      simpa using hs
  obtain ⟨b, hb, hbt⟩ := hstop
  have hu : Ordered cfg d₀ R { s with reorderingTimer := b } := h.congr rfl rfl rfl rfl rfl
  unfold PdcpEntityRx.handleReorderingTimers
  simp only [hb]
  split
  · rename_i hinf
    refine ⟨_, rfl, ⟨hu, hfirst, ?_, ?_, ?_⟩, le_refl _⟩
    · exact fun hr => ⟨(hbt hr).2, hreord (hbt hr).1⟩
    · intro n hn
      rw [hinf] at hn
      cases hn
    · intro hz
      rw [hinf] at hz
      cases hz
  · rename_i hzero
    have hbf : b = false := by
      by_contra hb'
      rw [Bool.not_eq_false] at hb'
      have := htimer hzero
      rw [(hbt hb').1] at this
      cases this
    exact Ordered.handleTReorderingExpire (h.congr rfl rfl rfl rfl rfl) h.deliv_le (le_refl _) hbf (fun _ => rfl)
  · rename_i n hfin
    split_ifs with hrun
    · refine ⟨_, rfl, ⟨h.congr rfl rfl rfl rfl rfl, hfirst, ?_, ?_, ?_⟩, le_refl _⟩
      · exact fun _ => ⟨hrun.2, le_refl _⟩
      · exact fun _ _ _ => rfl
      · intro hz
        rw [hfin] at hz
        cases hz
    · refine ⟨_, rfl, ⟨hu, hfirst, ?_, ?_, ?_⟩, le_refl _⟩
      · exact fun hr => ⟨(hbt hr).2, hreord (hbt hr).1⟩
      · intro _ _ hlt
        by_contra hb'
        exact hrun ⟨hb', hlt⟩
      · intro hz
        rw [hfin] at hz
        cases hz

end

theorem Inv.timer_of_zero (h : Inv cfg d₀ R s) (hz : cfg.tReordering = .ms 0) :
    s.reorderingTimer = false := by
  by_contra ht
  rw [Bool.not_eq_false] at ht
  have := h.reord ht
  have := h.zero hz
  omega

theorem Inv.applyReordering {pdu : PdcpRxPduInfo} (h : Inv cfg d₀ R s)
    (hhi : pdu.count < s.st.rxDeliv + cfg.snSize.windowSize) (hmax : pdu.count + 1 < 2 ^ 32) :
    ∃ t, s.applyReordering cfg pdu = .ok t ∧
      Inv cfg d₀ (if pdu.count < s.st.rxDeliv ∨ s.isDuplicate pdu.count then R else pdu :: R) t ∧
      s.st.rxDeliv ≤ t.st.rxDeliv := by
  unfold PdcpEntityRx.applyReordering
  by_cases hlate : pdu.count < s.st.rxDeliv
  · rw [if_pos hlate, if_pos (.inl hlate)]
    exact ⟨s, rfl, h, le_refl _⟩
  rw [if_neg hlate]
  by_cases hdup : s.isDuplicate pdu.count
  · rw [if_pos hdup, if_pos (.inr hdup)]
    exact ⟨s, rfl, h, le_refl _⟩
  · rw [if_neg hdup, if_neg (not_or.mpr ⟨hlate, hdup⟩)]
    rw [h.isDuplicate_eq, Bool.not_eq_true] at hdup
    obtain ⟨t, ht, hot, hst, htt⟩ := h.toOrdered.storePdu (by omega) hhi hmax hdup
    have hdeliv : t.st.rxDeliv = s.st.rxDeliv := by rw [hst]
    -- delivery starts if the PDU is the one waited for, and leaves the first COUNT missing
    obtain ⟨u, c, hu, hou, hmu, hcle, hno⟩ : ∃ u c, t.deliverFrom cfg pdu.count = .ok u ∧
        Ordered cfg d₀ (pdu :: R) u ∧ MovedTo c t u ∧ t.st.rxDeliv ≤ c ∧
        u.rxWindow.contains c = false := by
      unfold deliverFrom
      split_ifs with hin
      · exact hot.deliverAllConsecutiveCounts
      · refine ⟨t, _, rfl, hot, MovedTo.refl t, le_refl _, ?_⟩
        by_contra hc
        rw [Bool.not_eq_false, hot.held, hdeliv] at hc
        have hne : ¬ pdu.count = s.st.rxDeliv := by rw [← hdeliv]; exact hin
        obtain ⟨⟨q, hq, hqc⟩, -⟩ := hc
        rcases List.mem_cons.mp hq with rfl | hq
        · exact hne hqc
        · have := (h.held _).mpr ⟨⟨q, hq, hqc⟩, le_refl _⟩
          rw [h.first] at this
          cases this
    have hust := hmu.st
    obtain ⟨v, hv, hiv, hle⟩ := hou.handleReorderingTimers
      (by rw [hust]; exact hno)
      (fun hr => by
        rw [hmu.timer, htt] at hr
        have := (h.reord hr).2
        rw [hust, hst]
        dsimp only
        omega)
      (fun hz => by rw [hmu.timer, htt]; exact h.timer_of_zero hz)
    rw [hust] at hle
    dsimp only at hle
    exact ⟨v, by simp only [ht, hu, hv, ok_bind], hiv, by omega⟩

theorem Inv.expire (h : Inv cfg d₀ R s) (hrun : s.reorderingTimer = true) :
    ∃ t, { s with reorderingTimer := false }.handleTReorderingExpire cfg = .ok t ∧ Inv cfg d₀ R t ∧
      s.st.rxDeliv ≤ t.st.rxDeliv := by
  obtain ⟨hlt, hle⟩ := h.reord hrun
  refine Ordered.handleTReorderingExpire (h.congr rfl rfl rfl rfl rfl) (le_of_lt hlt) hle rfl ?_
  intro hz
  rw [h.timer_of_zero hz] at hrun
  cases hrun

theorem deliverIfHeld_st (s : PdcpEntityRx D) (st : PdcpRxState) (c : Nat) :
    { s with st }.deliverIfHeld c = (s.deliverIfHeld c).map fun t => { t with st } := by
  unfold deliverIfHeld
  by_cases hc : s.rxWindow.contains c = true
  · obtain ⟨info, hl⟩ := lookup_of_contains hc
    simp only [hc, if_true, deliverAndRemove, SduWindow.get, hl, ok_bind, deliverSdu,
      applyHeaderDecompression, SduWindow.removeSn]
    cases hr : s.rohcDecomp with
    | none =>
      simp only [hc, if_true, ok_bind, hr]
      rfl
    | some d =>
      dsimp only
      split_ifs
      all_goals
        simp only [ok_bind]
        rfl
  · simp only [hc, Bool.false_eq_true, if_false]
    rfl

theorem Ordered.flush (n : Nat) {c : Nat} (h : Ordered cfg d₀ R { s with st := { s.st with rxDeliv := c } })
    (hn : c + n = s.st.rxNext) :
    ∃ t, (List.range' c n).foldlM deliverIfHeld s = .ok t ∧
      Ordered cfg d₀ R { t with st := { s.st with rxDeliv := s.st.rxNext } } := by
  induction n generalizing s c with
  | zero =>
    rw [Nat.add_zero] at hn
    rw [hn] at h
    exact ⟨s, rfl, h⟩
  | succ n ih =>
    obtain ⟨t, ht, hot, hm⟩ := h.pass (by dsimp only; omega)
    rw [deliverIfHeld_st] at ht
    dsimp only at ht hm
    cases hd : s.deliverIfHeld c with
    | error e =>
      rw [hd] at ht
      cases ht
    | ok u =>
      rw [hd] at ht
      cases ht
      have hst := hm.st
      have hu : u.st = s.st := by
        obtain ⟨r, f, ds, he, -⟩ := s.deliverIfHeld_eq c (h.key c)
        rw [he] at hd
        cases hd
        rfl
      obtain ⟨v, hv, hov⟩ := @ih u (c + 1)
        (by
          have : PdcpEntityRx.advanceDeliv { u with st := { s.st with rxDeliv := c } } =
              { u with st := { u.st with rxDeliv := c + 1 } } := by
            rw [hu]
            simp only [advanceDeliv] at hst ⊢
            rw [hst]
          rw [← this]
          exact hot)
        (by rw [hu]; omega)
      rw [hu] at hov
      exact ⟨v, by rw [List.range'_succ, List.foldlM_cons, hd]; exact hv, hov⟩

theorem Inv.deliverAllSdus (h : Inv cfg d₀ R s) :
    ∃ t, s.deliverAllSdus = .ok t ∧
      Ordered cfg d₀ R { t with st := { s.st with rxDeliv := s.st.rxNext } } := by
  have := h.deliv_le
  exact Ordered.flush _ h.toOrdered (by omega)

end PdcpEntityRx

namespace RxSystem

open PdcpEntityRx CircularMap

variable {D : RohcDecompressor} {cfg : PdcpRxConfig} {d₀ : Option D.State} {s t : RxSystem D}

def BelowWindow (cfg : PdcpRxConfig) (s : RxSystem D) : RxEvent → Prop
  | .receive pdu => pdu.count < s.entity.st.rxDeliv + cfg.snSize.windowSize
  | _ => True

instance (s : RxSystem D) (e : RxEvent) : Decidable (BelowWindow cfg s e) := by
  cases e <;> unfold BelowWindow <;> infer_instance

structure Inv (cfg : PdcpRxConfig) (d₀ : Option D.State) (s : RxSystem D) : Prop where
  entity : PdcpEntityRx.Inv cfg d₀ s.received s.entity
  pending : ∀ pdu ∈ s.pending, pdu.count < s.entity.st.rxDeliv + cfg.snSize.windowSize ∧
    pdu.count + 1 < 2 ^ 32

theorem inv_new (cfg : PdcpRxConfig) (rohcDecomp : Option D.State) {count : Nat}
    (hcount : count < 2 ^ 32) : Inv cfg rohcDecomp (new cfg rohcDecomp count) where
  entity :=
    { window := SnWindow.empty ⟨_, rfl⟩ cfg.snSize.windowSize_dvd (by decide) count
      capacity := rfl
      next_lt := hcount
      deliv_le := le_refl _
      key := by simp [new, PdcpEntityRx.new]
      held := by simp [new, PdcpEntityRx.new, CircularMap.contains]
      accounted := by simp [new]
      handed := ⟨[], List.nil_subset _, rfl⟩
      below := by simp [new, PdcpEntityRx.new]
      increasing := List.Pairwise.nil
      first := rfl
      reord := by simp [new, PdcpEntityRx.new]
      timed := fun _ _ hlt => absurd hlt (lt_irrefl _)
      zero := fun _ => rfl }
  pending := by simp [new]

theorem Inv.step (h : Inv cfg d₀ s) (e : RxEvent) (hadm : BelowWindow cfg s e) :
    ∃ t, s.step cfg e = .ok t ∧ Inv cfg d₀ t := by
  cases e with
  | receive pdu =>
    refine ⟨_, rfl, ?_⟩
    unfold RxSystem.receive
    split_ifs with hmax
    · exact h
    · refine ⟨h.entity, ?_⟩
      intro p hp
      rcases List.mem_append.mp hp with hp | hp
      · exact h.pending p hp
      · rw [List.mem_singleton.mp hp]
        have := cfg.maxCountHard_lt
        exact ⟨hadm, by omega⟩
  | apply i =>
    simp only [RxSystem.step, RxSystem.apply]
    cases hp : s.pending[i]? with
    | none => exact ⟨s, rfl, h⟩
    | some pdu =>
      obtain ⟨hhi, hmax⟩ := h.pending pdu (List.mem_of_getElem? hp)
      obtain ⟨u, hu, hiu, hle⟩ := h.entity.applyReordering hhi hmax
      refine ⟨⟨u, s.pending.eraseIdx i, if pdu.count < s.entity.st.rxDeliv ∨ s.entity.isDuplicate pdu.count
        then s.received else pdu :: s.received⟩, by simp only [hu, ok_bind, pure_eq_ok], hiu, ?_⟩
      intro p hp
      obtain ⟨hp, hp'⟩ := h.pending p (List.mem_of_mem_eraseIdx hp)
      exact ⟨by dsimp only; omega, hp'⟩
  | drop i =>
    exact ⟨_, rfl, h.entity, fun p hp => h.pending p (List.mem_of_mem_eraseIdx hp)⟩
  | expire =>
    simp only [RxSystem.step, RxSystem.expire]
    split_ifs with hrun
    · obtain ⟨u, hu, hiu, hle⟩ := h.entity.expire hrun
      refine ⟨⟨u, s.pending, s.received⟩, by simp only [hu, ok_bind, pure_eq_ok], hiu, ?_⟩
      intro p hp
      obtain ⟨hp, hp'⟩ := h.pending p hp
      exact ⟨by dsimp only; omega, hp'⟩
    · exact ⟨s, rfl, h⟩

def passedUp (s : PdcpEntityRx D) : List (Nat × List UInt8 × Bool) :=
  s.deliveries.filterMap fun d => d.sdu.map fun sdu => (d.count, sdu)

theorem passedUp_increasing {s : PdcpEntityRx D} (h : s.deliveries.Pairwise (·.count < ·.count)) :
    (passedUp s).Pairwise (·.1 < ·.1) := by
  unfold passedUp
  rw [List.pairwise_filterMap]
  refine h.imp ?_
  intro d e hlt p hp q hq
  obtain ⟨x, -, rfl⟩ := Option.map_eq_some_iff.mp hp
  obtain ⟨y, -, rfl⟩ := Option.map_eq_some_iff.mp hq
  exact hlt

/-- What the reordering promises between two events, if the decompressor was `d₀` at first. -/
structure Reordered (cfg : PdcpRxConfig) (d₀ : Option D.State) (s : RxSystem D) : Prop where
  increasing : (passedUp s.entity).Pairwise (·.1 < ·.1)
  /-- What was passed up are the accepted PDUs, each decompressed after those before it. -/
  handed : ∃ pdus ⊆ s.received, handUp d₀ pdus = (s.entity.rohcDecomp, s.entity.deliveries)
  deliv_le_next : s.entity.st.rxDeliv ≤ s.entity.st.rxNext
  /-- The window holds the received COUNTs that delivery has not come to. -/
  holds : ∀ c, s.entity.rxWindow.contains c = true ↔
    (∃ pdu ∈ s.received, pdu.count = c) ∧ ∀ d ∈ s.entity.deliveries, d.count ≠ c
  stored : ∀ c info, s.entity.rxWindow.lookup c = some info → ∃ pdu ∈ s.received, pdu.count = c ∧ pdu.sduInfo = info
  inside : ∀ c, s.entity.rxWindow.contains c = true →
    s.entity.st.rxDeliv < c ∧ c < s.entity.st.rxNext
  reord : s.entity.reorderingTimer = true →
    s.entity.st.rxDeliv < s.entity.st.rxReord ∧ s.entity.st.rxReord ≤ s.entity.st.rxNext
  timed : ∀ n, cfg.tReordering = .ms n → s.entity.st.rxDeliv < s.entity.st.rxNext →
    s.entity.reorderingTimer = true
  /-- Without a duration nothing waits. -/
  untimed : cfg.tReordering = .ms 0 → s.entity.st.rxDeliv = s.entity.st.rxNext ∧ s.entity.reorderingTimer = false
  /-- A flush goes on in the same order, with the accepted PDUs, and leaves nothing. -/
  flush : ∃ t, s.entity.deliverAllSdus = .ok t ∧ (passedUp t).Pairwise (·.1 < ·.1) ∧
    (∃ pdus ⊆ s.received, handUp d₀ pdus = (t.rohcDecomp, t.deliveries)) ∧
    ∀ pdu ∈ s.received, ∃ d ∈ t.deliveries, d.count = pdu.count

theorem Inv.reordered (h : Inv cfg d₀ s) : Reordered cfg d₀ s where
  increasing := passedUp_increasing h.entity.increasing
  handed := h.entity.handed
  deliv_le_next := h.entity.deliv_le
  holds := by
    intro c
    rw [h.entity.held]
    constructor
    · rintro ⟨hR, hle⟩
      refine ⟨hR, fun d hd hdc => ?_⟩
      have := h.entity.below d hd
      omega
    · rintro ⟨⟨pdu, hR, rfl⟩, hno⟩
      rcases h.entity.accounted pdu hR with hle | ⟨d, hd, hdc⟩
      · exact ⟨⟨pdu, hR, rfl⟩, hle⟩
      · exact absurd hdc (hno d hd)
  stored := h.entity.key
  inside := by
    intro c hc
    have hle := ((h.entity.held c).mp hc).2
    have hne : c ≠ s.entity.st.rxDeliv := by
      rintro rfl
      rw [h.entity.first] at hc
      cases hc
    obtain ⟨v, hv⟩ := lookup_of_contains hc
    obtain ⟨k, hk, hkn, he⟩ := h.entity.window.only c v hv
    have := h.entity.next_lt
    rw [Nat.mod_eq_of_lt (by omega)] at he
    omega
  reord := h.entity.reord
  timed := by
    intro n hn hlt
    cases n with
    | zero => exact absurd (h.entity.zero hn) (Nat.ne_of_lt hlt)
    | succ n => exact h.entity.timed n hn hlt
  untimed := fun hzero => ⟨h.entity.zero hzero, h.entity.timer_of_zero hzero⟩
  flush := by
    obtain ⟨t, ht, hot⟩ := h.entity.deliverAllSdus
    refine ⟨t, ht, passedUp_increasing hot.increasing, hot.handed, fun pdu hpdu => ?_⟩
    rcases hot.accounted pdu hpdu with hle | hd
    · have hcont := (hot.held pdu.count).mpr ⟨⟨pdu, hpdu, rfl⟩, hle⟩
      obtain ⟨v, hv⟩ := lookup_of_contains hcont
      obtain ⟨k, hk, hkn, he⟩ := hot.window.only _ v hv
      dsimp only at hk hkn
      omega
    · exact hd

end RxSystem

end Ocudu.Pdcp
