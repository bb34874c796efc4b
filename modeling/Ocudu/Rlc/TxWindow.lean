import Ocudu.Basic.SnWindow
import Ocudu.Rlc.StatusCodec
import Ocudu.Rlc.TxAm

/-! The TX window: which SNs it holds, and what each operation of the transmitting entity does
to it. -/

namespace Ocudu.Rlc.RlcTxAmEntity

open SeqNum

variable {s s' : RlcTxAmEntity} {a n k : Nat} {hist : List (List UInt8)}

/-- TX_Next is at most a window ahead of
TX_Next_Ack, and the SNs in the window are those from TX_Next_Ack up to TX_Next, and TX_Next
itself just while its SDU is under segmentation. -/
def WindowExact (s : RlcTxAmEntity) : Prop :=
  s.txModBase s.st.txNext ≤ s.amWindowSize ∧
    ∀ sn, s.txWindow.contains sn = true ↔
      sn < s.mod ∧ (s.txModBase sn < s.txModBase s.st.txNext ∨
        sn = s.st.txNext ∧ s.snUnderSegmentation = some s.st.txNext)

/-- One past the last absolute position in the window, if TX_Next stands at `n`. -/
def top (s : RlcTxAmEntity) (n : Nat) : Nat :=
  if s.snUnderSegmentation.isSome then n + 1 else n

/-- What the window stores for position `k`: the SDU assigned to it, and for an SDU under
segmentation a progress strictly inside the SDU. -/
structure EntryOk (n : Nat) (hist : List (List UInt8)) (k : Nat) (info : RlcTxAmSduInfo) : Prop where
  assigned : hist[k]? = some info.sdu
  ne_nil : info.sdu ≠ []
  progress : k = n → 0 < info.nextSo ∧ info.nextSo < info.sdu.length

/-- The state variables and the window in absolute positions: TX_Next_Ack stands at `a`, TX_Next
at `n`, and `hist` holds the SDUs that have been given an SN. -/
structure WindowInv (s : RlcTxAmEntity) (a n : Nat) (hist : List (List UInt8)) : Prop where
  ack : s.st.txNextAck = a % s.mod
  next : s.st.txNext = n % s.mod
  le : a ≤ n
  seg : s.snUnderSegmentation = none ∨ s.snUnderSegmentation = some (n % s.mod)
  window : SnWindow s.txWindow s.mod a (s.top n)
  capacity : s.txWindow.capacity = s.amWindowSize
  count : s.txWindow.count = s.top n - a
  hist_length : hist.length = s.top n
  entry : ∀ k, a ≤ k → k < s.top n →
    ∃ info, s.txWindow.lookup (k % s.mod) = some info ∧ EntryOk n hist k info

theorem mod_eq : s.mod = 2 * s.amWindowSize := RlcAmSnSize.mod_eq_two_mul_window

theorem mod_pos : 0 < s.mod := RlcAmSnSize.mod_pos

theorem mod_dvd : s.mod ∣ 2 ^ 32 := RlcAmSnSize.mod_dvd

theorem amWindowSize_pos : 0 < s.amWindowSize := RlcAmSnSize.window_pos

theorem range_lt_amWindowSize : 255 < s.amWindowSize := RlcAmSnSize.range_lt_window

theorem le_top : n ≤ s.top n := by
  unfold top
  split <;> omega

@[simp] theorem top_of_none (h : s.snUnderSegmentation = none) : s.top n = n := by
  simp [top, h]

@[simp] theorem top_of_some {sn : Nat} (h : s.snUnderSegmentation = some sn) : s.top n = n + 1 := by
  simp [top, h]

theorem txModBase_abs (hack : s.st.txNextAck = a % s.mod) {x : Nat} (hx : x % s.mod = k % s.mod)
    (hak : a ≤ k) (hka : k < a + s.mod) : s.txModBase x = k - a := by
  rw [txModBase, hack, subU32_mod mod_dvd, ← dist_mod_right, hx, dist_abs hak hka]

theorem exists_abs_txModBase (hack : s.st.txNextAck = a % s.mod) (x : Nat) :
    s.txModBase x < s.mod ∧ x % s.mod = (a + s.txModBase x) % s.mod := by
  have hd : s.txModBase x = dist s.mod a x := by
    rw [txModBase, hack, subU32_mod mod_dvd, dist_mod_left]
  rw [hd]
  exact ⟨dist_lt mod_pos _ _, (add_dist_mod mod_pos _ _).symm⟩

namespace WindowInv

section

variable (h : WindowInv s a n hist)
include h

theorem congr (hcfg : s'.cfg = s.cfg)
    (hack : s'.st.txNextAck = s.st.txNextAck) (hnext : s'.st.txNext = s.st.txNext)
    (hseg : s'.snUnderSegmentation = s.snUnderSegmentation) (hwin : s'.txWindow = s.txWindow) :
    WindowInv s' a n hist := by
  have hmod : s'.mod = s.mod := by rw [mod, mod, hcfg]
  have hws : s'.amWindowSize = s.amWindowSize := by rw [amWindowSize, amWindowSize, hcfg]
  have htop : s'.top n = s.top n := by rw [top, top, hseg]
  constructor
  · rw [hack, hmod]; exact h.ack
  · rw [hnext, hmod]; exact h.next
  · exact h.le
  · rw [hseg, hmod]; exact h.seg
  · rw [hwin, hmod, htop]; exact h.window
  · rw [hwin, hws]; exact h.capacity
  · rw [hwin, htop]; exact h.count
  · rw [htop]; exact h.hist_length
  · rw [htop, hwin, hmod]; exact h.entry

theorem top_le_window : s.top n ≤ a + s.amWindowSize := by
  have := h.window.le
  rw [h.capacity] at this
  exact this

theorem mod_window (hk : a ≤ k) (hk' : k ≤ a + s.amWindowSize) {x : Nat}
    (hx : x % s.mod = k % s.mod) : s.txModBase x = k - a := by
  have := mod_eq (s := s)
  have := amWindowSize_pos (s := s)
  exact txModBase_abs h.ack hx hk (by lia)

theorem base_next : s.txModBase s.st.txNext = n - a := by
  have := h.top_le_window
  have := le_top (s := s) (n := n)
  refine h.mod_window h.le (by omega) ?_
  rw [h.next, Nat.mod_mod]

theorem base_next_succ : s.txModBase (s.st.txNext + 1) = n + 1 - a := by
  have := h.top_le_window
  have := le_top (s := s) (n := n)
  have := mod_eq (s := s)
  have := range_lt_amWindowSize (s := s)
  have := h.le
  refine txModBase_abs h.ack ?_ (by omega) (by omega)
  rw [h.next, Nat.mod_add_mod]

theorem base_ack : s.txModBase s.st.txNextAck = 0 := by
  have := h.mod_window (Nat.le_refl a) (by omega) (x := s.st.txNextAck) (by rw [h.ack, Nat.mod_mod])
  omega

theorem contains_iff (hk : a ≤ k) (hk' : k < a + s.amWindowSize) :
    s.txWindow.contains (k % s.mod) = true ↔ k < s.top n := by
  constructor
  · intro hc
    obtain ⟨info, hi⟩ := Option.isSome_iff_exists.mp hc
    obtain ⟨j, hj, hjt, he⟩ := h.window.only _ info hi
    have hle := h.window.le
    rw [← h.capacity] at hk'
    have := h.window.inj hk hk' hj (by omega) he
    omega
  · intro hkt
    obtain ⟨info, hi, -⟩ := h.entry k hk hkt
    simp [CircularMap.contains, hi]

theorem exact : s.WindowExact := by
  have htop := h.top_le_window
  have hle := h.le
  have hnt := le_top (s := s) (n := n)
  refine ⟨by rw [h.base_next]; omega, ?_⟩
  intro sn
  constructor
  · intro hc
    obtain ⟨info, hi⟩ := Option.isSome_iff_exists.mp hc
    obtain ⟨k, hk, hkt, rfl⟩ := h.window.only _ info hi
    refine ⟨Nat.mod_lt _ mod_pos, ?_⟩
    rw [h.base_next, h.mod_window hk (by omega) (Nat.mod_mod _ _)]
    rcases h.seg with hseg | hseg
    · rw [top_of_none hseg] at hkt
      exact .inl (by omega)
    · rw [top_of_some hseg] at hkt
      by_cases hkn : k = n
      · subst hkn
        exact .inr ⟨h.next.symm, by rw [hseg, h.next]⟩
      · exact .inl (by omega)
  · rintro ⟨hsn, hlt | ⟨rfl, hseg⟩⟩
    · obtain ⟨hb, he⟩ := exists_abs_txModBase h.ack sn
      rw [Nat.mod_eq_of_lt hsn] at he
      rw [h.base_next] at hlt
      rw [he, h.contains_iff (by omega) (by omega)]
      omega
    · rw [h.next]
      rw [top_of_some hseg] at htop
      rw [h.contains_iff hle (by omega), top_of_some hseg]
      omega

end

theorem new (cfg : RlcTxAmConfig) : WindowInv (RlcTxAmEntity.new cfg) 0 0 [] where
  ack := by simp [RlcTxAmEntity.new]
  next := by simp [RlcTxAmEntity.new]
  le := Nat.le_refl _
  seg := .inl rfl
  window := by
    have hpow : ∃ e, cfg.snFieldLength.window = 2 ^ e := by
      cases cfg.snFieldLength
      · exact ⟨11, rfl⟩
      · exact ⟨17, rfl⟩
    exact SnWindow.empty hpow RlcAmSnSize.window_dvd_mod RlcAmSnSize.mod_pos 0
  capacity := rfl
  count := rfl
  hist_length := rfl
  entry := by
    intro k hk hkt
    simp [top, RlcTxAmEntity.new] at hkt

section

variable (h : WindowInv s a n hist)
include h

section

variable (hseg : s.snUnderSegmentation = none)
include hseg

theorem lt_of_not_full (hfull : s.txWindow.full = false) : n < a + s.amWindowSize := by
  have hc := h.count
  have htop := h.top_le_window
  rw [top_of_none hseg] at hc htop
  have hne : ¬ s.txWindow.count = s.txWindow.capacity := by simpa [CircularMap.full] using hfull
  rw [hc, h.capacity] at hne
  omega

theorem next_absent (hlt : n < a + s.amWindowSize) : s.txWindow.lookup s.st.txNext = none := by
  rw [h.next]
  rw [← h.capacity] at hlt
  exact h.window.lookup_eq_none_of_outside h.le hlt (by rw [top_of_none hseg])

theorem next_free (hlt : n < a + s.amWindowSize) :
    s.txWindow.data (s.txWindow.getCircularIdx s.st.txNext) = none := by
  have habs := h.next_absent hseg hlt
  rw [h.next] at habs ⊢
  rw [← h.capacity] at hlt
  exact h.window.free h.le hlt habs

theorem addSn (hlt : n < a + s.amWindowSize) (info : RlcTxAmSduInfo) {n' : Nat}
    (hcfg : s'.cfg = s.cfg) (hack : s'.st.txNextAck = s.st.txNextAck)
    (hwin : s'.txWindow = s.txWindow.overwrite s.st.txNext info)
    (hnext : s'.st.txNext = n' % s.mod)
    (hseg' : s'.snUnderSegmentation = none ∨ s'.snUnderSegmentation = some (n' % s.mod))
    (hn : n ≤ n') (htop : s'.top n' = n + 1)
    (hentry : EntryOk n' (hist ++ [info.sdu]) n info) :
    WindowInv s' a n' (hist ++ [info.sdu]) := by
  have hmod : s'.mod = s.mod := by rw [mod, mod, hcfg]
  have hws : s'.amWindowSize = s.amWindowSize := by rw [amWindowSize, amWindowSize, hcfg]
  have htn : s.top n = n := top_of_none hseg
  have hle := h.le
  have hcap : n < a + s.txWindow.capacity := by rw [h.capacity]; exact hlt
  have habs : s.txWindow.lookup (n % s.mod) = none := by
    rw [← h.next]
    exact h.next_absent hseg hlt
  have hlook := h.window.lookup_put hle hcap info
  rw [h.next] at hwin
  constructor
  · rw [hack, hmod]; exact h.ack
  · rw [hnext, hmod]
  · omega
  · rw [hmod]; exact hseg'
  · rw [hwin, hmod, htop]
    have := h.window.put hle hcap info
    rwa [htn, Nat.max_eq_right (by omega)] at this
  · rw [hwin, hws, CircularMap.capacity_overwrite]; exact h.capacity
  · rw [hwin, htop, h.window.count_add hle hcap habs, h.count, htn]
    omega
  · rw [htop, List.length_append, h.hist_length, htn]
    rfl
  · intro k hk hkt
    rw [htop] at hkt
    rw [hwin, hmod, hlook]
    by_cases hkn : k = n
    · subst hkn
      exact ⟨info, by simp, hentry⟩
    · have hne : k % s.mod ≠ n % s.mod := fun he => hkn (h.window.inj hk (by omega) hle hcap he)
      obtain ⟨i, hi, ⟨hassigned, hnil, -⟩⟩ := h.entry k hk (by omega)
      refine ⟨i, by rw [if_neg hne, hi], ?_, hnil, fun he => by lia⟩
      have hlen := h.hist_length
      rw [List.getElem?_append_left (by omega)]
      exact hassigned

end

theorem update (sn : Nat) (f : RlcTxAmSduInfo → RlcTxAmSduInfo) {n' : Nat}
    (hcfg : s'.cfg = s.cfg) (hack : s'.st.txNextAck = s.st.txNextAck)
    (hwin : s'.txWindow = s.txWindow.modify sn f)
    (hnext : s'.st.txNext = n' % s.mod)
    (hseg : s'.snUnderSegmentation = none ∨ s'.snUnderSegmentation = some (n' % s.mod))
    (hn : n ≤ n') (htop : s'.top n' = s.top n)
    (hentry : ∀ k info, a ≤ k → k < s.top n → s.txWindow.lookup (k % s.mod) = some info →
      EntryOk n hist k info →
      (k % s.mod = sn → EntryOk n' hist k (f info)) ∧ (k % s.mod ≠ sn → EntryOk n' hist k info)) :
    WindowInv s' a n' hist := by
  have hmod : s'.mod = s.mod := by rw [mod, mod, hcfg]
  have hws : s'.amWindowSize = s.amWindowSize := by rw [amWindowSize, amWindowSize, hcfg]
  constructor
  · rw [hack, hmod]; exact h.ack
  · rw [hnext, hmod]
  · exact Nat.le_trans h.le hn
  · rw [hmod]; exact hseg
  · rw [hwin, hmod, htop]; exact h.window.modify sn f
  · rw [hwin, hws, CircularMap.capacity_modify]; exact h.capacity
  · rw [hwin, htop, CircularMap.count_modify]; exact h.count
  · rw [htop]; exact h.hist_length
  · intro k hk hkt
    rw [htop] at hkt
    obtain ⟨info, hi, hok⟩ := h.entry k hk hkt
    obtain ⟨h1, h2⟩ := hentry k info hk hkt hi hok
    rw [hwin, hmod, CircularMap.lookup_modify]
    by_cases hks : k % s.mod = sn
    · exact ⟨f info, by rw [if_pos hks, ← hks, hi]; rfl, h1 hks⟩
    · exact ⟨info, by rw [if_neg hks, hi], h2 hks⟩

theorem ackFirst (hlt : a < n)
    (hcfg : s'.cfg = s.cfg) (hack : s'.st.txNextAck = s.nextSn s.st.txNextAck)
    (hnext : s'.st.txNext = s.st.txNext) (hseg : s'.snUnderSegmentation = s.snUnderSegmentation)
    (hwin : s'.txWindow = s.txWindow.erase s.st.txNextAck) : WindowInv s' (a + 1) n hist := by
  have hmod : s'.mod = s.mod := by rw [mod, mod, hcfg]
  have hws : s'.amWindowSize = s.amWindowSize := by rw [amWindowSize, amWindowSize, hcfg]
  have htop : s'.top n = s.top n := by rw [top, top, hseg]
  have hnt := le_top (s := s) (n := n)
  have htw := h.top_le_window
  rw [h.ack] at hwin
  constructor
  · rw [hack, hmod, nextSn, h.ack, Nat.mod_add_mod]
  · rw [hnext, hmod]; exact h.next
  · omega
  · rw [hseg, hmod]; exact h.seg
  · rw [hwin, hmod, htop]; exact h.window.erase_first
  · rw [hwin, hws, CircularMap.capacity_erase]; exact h.capacity
  · have hc : s.txWindow.contains (a % s.mod) = true :=
      (h.contains_iff (Nat.le_refl a) (by omega)).mpr (by omega)
    rw [hwin, htop, CircularMap.count_erase hc, h.count]
    omega
  · rw [htop]; exact h.hist_length
  · intro k hk hkt
    rw [htop] at hkt
    obtain ⟨info, hi, hok⟩ := h.entry k (by omega) hkt
    rw [← h.capacity] at htw
    have hne : k % s.mod ≠ a % s.mod := fun he => by
      have := h.window.inj (by omega) (by omega) (Nat.le_refl a) (by omega) he
      omega
    refine ⟨info, ?_, hok⟩
    rw [hwin, hmod, CircularMap.lookup_erase, if_neg hne, hi]

end

end WindowInv

end Ocudu.Rlc.RlcTxAmEntity
