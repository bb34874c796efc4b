import Ocudu.Pdcp.Rx
import Ocudu.Pdcp.TxWindow

/-! Agreement of the two sides on a PDCP status report: when the transmitter accepts what
the receiver compiles, and which SDUs it then forgets. -/

namespace Ocudu.Pdcp

open BitCodec CircularMap SeqNum

def statusBits (fmc : Nat) (bitmap : List Bool) : List Bool :=
  toBits 1 0 ++ toBits 3 0 ++ toBits 4 0 ++ toBits 32 fmc ++ bitmap

def bitmapBytes (bitmap : List Bool) : Nat := (bitmap.length + 7) / 8

section Decode

variable {fmc txNext : Nat} {bitmap : List Bool}

@[simp] theorem length_statusBits (fmc : Nat) (bitmap : List Bool) :
    (statusBits fmc bitmap).length = 40 + bitmap.length := by
  simp only [statusBits, List.length_append, length_toBits]

@[simp] theorem length_encode_statusBits (fmc : Nat) (bitmap : List Bool) :
    (encode (statusBits fmc bitmap)).length = 5 + bitmapBytes bitmap := by
  rw [length_encode, length_statusBits, bitmapBytes]
  lia

theorem bitsOf_statusBits (fmc : Nat) (bitmap : List Bool) :
    bitsOf (encode (statusBits fmc bitmap)) =
      statusBits fmc (padTo (8 * bitmapBytes bitmap) bitmap) := by
  have hpad : 8 * ((40 + bitmap.length + 7) / 8) - (40 + bitmap.length) =
      8 * bitmapBytes bitmap - bitmap.length := by
    unfold bitmapBytes
    omega
  rw [bitsOf_encode, padTo, length_statusBits, hpad]
  simp only [padTo, statusBits, List.append_assoc]

theorem readControlHeader_statusBits (fmc : Nat) (bitmap : List Bool) :
    PdcpEntityTx.readControlHeader (statusBits fmc bitmap) = (0, 0, 0, toBits 32 fmc ++ bitmap) := rfl

theorem unpack_toBits (h : fmc < 2 ^ 32) (bits : List Bool) :
    unpack 32 (toBits 32 fmc ++ bits) = (fmc, bits) := by
  have htake : (toBits 32 fmc ++ bits).take 32 = toBits 32 fmc := by
    rw [List.take_append_of_le_length (by simp), List.take_of_length_le (by simp)]
  have hdrop : (toBits 32 fmc ++ bits).drop 32 = bits := by
    rw [List.drop_append_of_le_length (by simp), List.drop_of_length_le (by simp), List.nil_append]
  unfold unpack
  rw [htake, hdrop]
  simpa [padTo, ofBits_toBits] using h

theorem toBits_lastByte (h : bitmapBytes bitmap ≠ 0) :
    toBits 8 ((encode (statusBits fmc bitmap)).getLastD 0).toNat =
      (padTo (8 * bitmapBytes bitmap) bitmap).drop (8 * (bitmapBytes bitmap - 1)) := by
  have hne : encode (statusBits fmc bitmap) ≠ [] := by
    intro hnil
    have := length_encode_statusBits fmc bitmap
    rw [hnil] at this
    simp at this
    omega
  rw [toBits_getLastD hne, length_encode_statusBits, bitsOf_statusBits]
  have h40 : 8 * (5 + bitmapBytes bitmap - 1) =
      (toBits 1 0 ++ toBits 3 0 ++ toBits 4 0 ++ toBits 32 fmc).length +
        8 * (bitmapBytes bitmap - 1) := by
    simp only [List.length_append, length_toBits]
    lia
  rw [h40, statusBits, List.drop_append]
  simp

/-- No bit of the bitmap is set where the transmitter, `delta` COUNTs behind, expects the
padding of the last byte. -/
def TailClear (delta : Nat) (bitmap : List Bool) : Prop :=
  ∀ i, 8 * (bitmapBytes bitmap - 1) + delta % 8 ≤ i → bitmap.getD i false = false

@[simp] theorem getD_padTo (n : Nat) (bitmap : List Bool) (i : Nat) :
    (padTo n bitmap).getD i false = bitmap.getD i false := by
  unfold padTo List.getD
  rcases lt_or_ge i bitmap.length with h | h
  · rw [List.getElem?_append_left h]
  · rw [List.getElem?_append_right h, List.getElem?_eq_none h, List.getElem?_replicate]
    split <;> rfl

theorem forall_mem_drop_iff (bits : List Bool) (k : Nat) :
    (∀ b ∈ bits.drop k, b = false) ↔ ∀ i, k ≤ i → bits.getD i false = false := by
  constructor
  · intro h i hi
    cases hb : bits[i]? with
    | none => simp [List.getD, hb]
    | some b =>
      have hmem : b ∈ bits.drop k := by
        rw [List.mem_iff_getElem?]
        exact ⟨i - k, by rw [List.getElem?_drop, Nat.add_sub_cancel' hi, hb]⟩
      simp [List.getD, hb, h b hmem]
  · intro h b hb
    obtain ⟨j, hj⟩ := List.mem_iff_getElem?.mp hb
    rw [List.getElem?_drop] at hj
    have := h (k + j) (by omega)
    rw [List.getD, hj] at this
    simpa using this

theorem tail_eq_zero_iff (delta : Nat) (h : bitmapBytes bitmap ≠ 0) :
    ((encode (statusBits fmc bitmap)).getLastD 0).toNat <<< (delta % 8) % 2 ^ 8 = 0 ↔
      TailClear delta bitmap := by
  rw [shiftLeft_mod_eq_zero (by omega), toBits_lastByte h, List.drop_drop, forall_mem_drop_iff]
  simp only [getD_padTo]
  rfl

theorem subU32_self_one (x : Nat) : subU32 (subU32 x x) 1 = 2 ^ 32 - 1 := by
  have hself : subU32 x x = 0 := SeqNum.dist_self (by omega) x
  rw [hself]
  rfl

theorem readStatusReport_eq (hf : fmc < 2 ^ 32) (hb : bitmapBytes bitmap < 2 ^ 32 - 5)
    (txNext : Nat) :
    PdcpEntityTx.readStatusReport txNext (encode (statusBits fmc bitmap)) =
      if txNext < fmc then .failed 1
      else if (subU32 (subU32 txNext fmc) 1 + 7) % 2 ^ 32 / 8 < bitmapBytes bitmap then
        .failed ((if fmc = txNext ∧ bitmapBytes bitmap ≠ 0 then 1 else 0) + 1)
      else if bitmapBytes bitmap ≠ 0 ∧ ((encode (statusBits fmc bitmap)).getLastD 0).toNat <<<
          (subU32 (subU32 txNext fmc) 1 % 8) % 2 ^ 8 ≠ 0 then
        .failed ((if fmc = txNext ∧ bitmapBytes bitmap ≠ 0 then 1 else 0) + 1)
      else .accepted fmc (padTo (8 * bitmapBytes bitmap) bitmap) := by
  have hlen : subU32 (encode (statusBits fmc bitmap)).length PdcpEntityTx.statusReportHeader =
      bitmapBytes bitmap := by
    rw [length_encode_statusBits, subU32, PdcpEntityTx.statusReportHeader,
      dist_of_le (by omega) (by omega)]
    omega
  unfold PdcpEntityTx.readStatusReport
  rw [bitsOf_statusBits, readControlHeader_statusBits]
  dsimp only
  rw [unpack_toBits hf, hlen]
  simp only [ne_eq, not_true_eq_false, if_false]

theorem readStatusReport_of_lt (hf : fmc < txNext) (hn : txNext < 2 ^ 32)
    (hbits : bitmap.length ≤ txNext - fmc - 1) (hsmall : txNext < fmc + 2 ^ 31) :
    (TailClear (txNext - fmc - 1) bitmap ∧
      PdcpEntityTx.readStatusReport txNext (encode (statusBits fmc bitmap)) =
        .accepted fmc (padTo (8 * bitmapBytes bitmap) bitmap)) ∨
    (¬TailClear (txNext - fmc - 1) bitmap ∧
      PdcpEntityTx.readStatusReport txNext (encode (statusBits fmc bitmap)) = .failed 1) := by
  have hdelta : subU32 (subU32 txNext fmc) 1 = txNext - fmc - 1 := by
    have hinner : subU32 txNext fmc = txNext - fmc := dist_of_le (by omega) (by omega)
    rw [hinner]
    exact dist_of_le (by omega) (by omega)
  have hmax : ¬(txNext - fmc - 1 + 7) % 2 ^ 32 / 8 < bitmapBytes bitmap := by
    rw [Nat.mod_eq_of_lt (by omega)]
    unfold bitmapBytes
    omega
  have hne : ¬(fmc = txNext ∧ bitmapBytes bitmap ≠ 0) := fun h => Nat.ne_of_lt hf h.1
  have hb : bitmapBytes bitmap < 2 ^ 32 - 5 := by
    unfold bitmapBytes
    omega
  rw [readStatusReport_eq (by omega) hb, hdelta, if_neg (Nat.not_lt.mpr (le_of_lt hf)), if_neg hmax,
    if_neg hne]
  by_cases h0 : bitmapBytes bitmap = 0
  · have hnil : bitmap = [] := by
      unfold bitmapBytes at h0
      exact List.eq_nil_of_length_eq_zero (by omega)
    refine .inl ⟨?_, by rw [if_neg]; exact fun h => h.1 h0⟩
    intro i _
    rw [hnil]
    rfl
  · by_cases htail : TailClear (txNext - fmc - 1) bitmap
    · refine .inl ⟨htail, ?_⟩
      rw [if_neg]
      exact fun h => h.2 ((tail_eq_zero_iff _ h0).mpr htail)
    · refine .inr ⟨htail, ?_⟩
      rw [if_pos]
      exact ⟨h0, fun h => htail ((tail_eq_zero_iff _ h0).mp h)⟩

end Decode

namespace PdcpEntityTx

variable {C : RohcCompressor} {cfg : PdcpTxConfig} {s : PdcpEntityTx C}

@[simp] theorem reported_padTo (fmc n : Nat) (bitmap : List Bool) (x : Nat) :
    x ∈ reported fmc (padTo n bitmap) ↔ x ∈ reported fmc bitmap := by
  simp only [mem_reported, getD_padTo]

theorem foldl_discardPdu_of_none (hd : cfg.discardTimer = none) (cs : List Nat)
    (s : PdcpEntityTx C) : cs.foldl (discardPdu cfg) s = s := by
  induction cs generalizing s with
  | nil => rfl
  | cons c cs ih =>
    rw [List.foldl_cons, discardPdu_of_not (fun h => by simp [Discardable, hd] at h), ih]

theorem txNext_le_of_covers {V : Type} {w : CircularMap V} {a b : Nat} (hpow : ∃ e, w.capacity = 2 ^ e)
    (h : ∀ c, a ≤ c → c < b → w.contains c = true) : b ≤ a + w.capacity := by
  by_contra hlt
  obtain ⟨e, he⟩ := hpow
  have hpos : 0 < w.capacity := by
    rw [he]
    positivity
  obtain ⟨v, hv⟩ := lookup_of_contains (h a (le_refl a) (by omega))
  have hidx : w.getCircularIdx (a + w.capacity) = w.getCircularIdx a := by
    rw [getCircularIdx_eq_mod he, getCircularIdx_eq_mod he, he, Nat.add_mod_right]
  have hnone := lookup_eq_none_of_idx hv hidx (by omega)
  have hsome := h (a + w.capacity) (by omega) (by omega)
  rw [contains, hnone] at hsome
  cases hsome

end PdcpEntityTx

section Agreement

variable {D : RohcDecompressor} {C : RohcCompressor} {cfg : PdcpTxConfig}
  {rx : PdcpEntityRx D} {tx : PdcpEntityTx C}

/-- A receiver and a transmitter of one bearer, at a moment when the latter's window still
holds all it has sent from its lower edge on. -/
structure Peers (cfg : PdcpTxConfig) (rx : PdcpEntityRx D) (tx : PdcpEntityTx C) : Prop where
  deliv_le : rx.st.rxDeliv ≤ rx.st.rxNext
  stored : ∀ c, rx.rxWindow.contains c = true → rx.st.rxDeliv < c ∧ c < rx.st.rxNext
  next_le : rx.st.rxNext ≤ tx.st.txNext
  ack_le : tx.st.txNextAck ≤ rx.st.rxDeliv
  covers : ∀ c, tx.st.txNextAck ≤ c → c < tx.st.txNext → tx.txWindow.contains c = true
  low : PdcpEntityTx.LowEdge tx
  capacity : tx.txWindow.capacity = cfg.snSize.windowSize
  txNext_lt : tx.st.txNext < 2 ^ 32

theorem Peers.pow (h : Peers cfg rx tx) : ∃ e, tx.txWindow.capacity = 2 ^ e :=
  ⟨_, h.capacity⟩

def Reportable (rx : PdcpEntityRx D) (c : Nat) : Prop :=
  c < rx.st.rxDeliv ∨
    rx.rxWindow.contains c = true ∧ c ≤ rx.st.rxDeliv + PdcpEntityRx.maxBitmapBits

/-- The report of `rx` is accepted by `tx`, which forgets what it acknowledges and nothing
else; a report that is not accepted has no effect on the window or the state variables. -/
def Agree (cfg : PdcpTxConfig) (rx : PdcpEntityRx D) (tx : PdcpEntityTx C) : Prop :=
  ((tx.handleStatusReport cfg rx.compileStatusReport).protocolFailures = tx.protocolFailures ∧
    ∀ c, (tx.handleStatusReport cfg rx.compileStatusReport).txWindow.contains c = true ↔
      tx.txWindow.contains c = true ∧ ¬Reportable rx c) ∧
  ∀ bytes, (∀ fmc bitmap, PdcpEntityTx.readStatusReport tx.st.txNext bytes ≠ .accepted fmc bitmap) →
    (tx.handleStatusReport cfg bytes).txWindow = tx.txWindow ∧
      (tx.handleStatusReport cfg bytes).st = tx.st

def reportBits (st : PdcpRxState) : Nat :=
  min (st.rxNext - (st.rxDeliv + 1)) PdcpEntityRx.maxBitmapBits

/-- `RX_DELIV + 1` does not overflow; no stored COUNT that the report covers is one for which
the transmitter, going by its own `TX_NEXT`, takes the bit of the last byte for padding; and
without a discard timer there is nothing to forget. -/
def ReportFits (cfg : PdcpTxConfig) (rx : PdcpEntityRx D) (tx : PdcpEntityTx C) : Prop :=
  rx.st.rxDeliv + 1 < 2 ^ 32 ∧
  (∀ c, rx.rxWindow.contains c = true → c ≤ rx.st.rxDeliv + PdcpEntityRx.maxBitmapBits →
    c < rx.st.rxDeliv + 1 + 8 * ((reportBits rx.st + 7) / 8 - 1) +
      (tx.st.txNext - rx.st.rxDeliv - 1) % 8) ∧
  (cfg.discardTimer = none → ∀ c, tx.txWindow.contains c = true → ¬Reportable rx c)

def reportBitmap (rx : PdcpEntityRx D) : List Bool :=
  (List.range' (rx.st.rxDeliv + 1) (reportBits rx.st)).map rx.rxWindow.contains

theorem getD_reportBitmap (rx : PdcpEntityRx D) (i : Nat) :
    (reportBitmap rx).getD i false = true ↔
      i < reportBits rx.st ∧ rx.rxWindow.contains (rx.st.rxDeliv + 1 + i) = true := by
  unfold reportBitmap
  rw [List.getD_eq_getElem?_getD, List.getElem?_map]
  rcases lt_or_ge i (reportBits rx.st) with h | h
  · rw [List.getElem?_range' h]
    simp [h]
  · rw [List.getElem?_eq_none (by simpa using h)]
    simp [Nat.not_lt.mpr h]

@[simp] theorem length_reportBitmap (rx : PdcpEntityRx D) :
    (reportBitmap rx).length = reportBits rx.st := by
  simp [reportBitmap]

theorem compileStatusReport_eq (h : rx.st.rxDeliv + 1 < 2 ^ 32) :
    rx.compileStatusReport = encode (statusBits rx.st.rxDeliv (reportBitmap rx)) := by
  have hbits : PdcpEntityRx.bitmapLength rx.st = reportBits rx.st := by
    unfold PdcpEntityRx.bitmapLength reportBits
    rw [Nat.mod_eq_of_lt h]
    dsimp only
    split <;> omega
  unfold PdcpEntityRx.compileStatusReport
  rw [Nat.mod_eq_of_lt h, hbits]
  rfl

theorem Peers.reportable_iff (h : Peers cfg rx tx) (n c : Nat)
    (hc : tx.txWindow.contains c = true) :
    c ∈ PdcpEntityTx.acknowledged rx.st.rxDeliv (padTo n (reportBitmap rx)) tx ↔
      Reportable rx c := by
  have hlt := h.txNext_lt
  have hnext := h.next_le
  have hlow := h.low c hc
  have hack := h.ack_le
  unfold PdcpEntityTx.acknowledged Reportable
  rw [List.mem_append, List.mem_range'_1, PdcpEntityTx.reported_padTo, PdcpEntityTx.mem_reported]
  constructor
  · rintro (hlt | ⟨i, hi, hx⟩)
    · exact .inl (by omega)
    · obtain ⟨hib, hcont⟩ := (getD_reportBitmap rx i).mp hi
      have := (h.stored _ hcont).2
      rw [Nat.mod_eq_of_lt (by omega)] at hx
      rw [hx]
      refine .inr ⟨hcont, ?_⟩
      unfold reportBits at hib
      omega
  · rintro (hlt | ⟨hcont, hle⟩)
    · exact .inl (by omega)
    · obtain ⟨hgt, hltn⟩ := h.stored c hcont
      refine .inr ⟨c - (rx.st.rxDeliv + 1), (getD_reportBitmap rx _).mpr ⟨?_, ?_⟩, ?_⟩
      · unfold reportBits
        omega
      · rwa [show rx.st.rxDeliv + 1 + (c - (rx.st.rxDeliv + 1)) = c from by omega]
      · rw [Nat.mod_eq_of_lt (by omega)]
        omega

theorem Peers.tailClear_iff (h : Peers cfg rx tx) :
    TailClear (tx.st.txNext - rx.st.rxDeliv - 1) (reportBitmap rx) ↔
      ∀ c, rx.rxWindow.contains c = true → c ≤ rx.st.rxDeliv + PdcpEntityRx.maxBitmapBits →
        c < rx.st.rxDeliv + 1 + 8 * ((reportBits rx.st + 7) / 8 - 1) +
          (tx.st.txNext - rx.st.rxDeliv - 1) % 8 := by
  unfold TailClear bitmapBytes
  rw [length_reportBitmap]
  constructor
  · intro hclear c hcont hle
    by_contra hge
    obtain ⟨hgt, hltn⟩ := h.stored c hcont
    have hbit := (getD_reportBitmap rx (c - (rx.st.rxDeliv + 1))).mpr ⟨by
        unfold reportBits
        omega, by rwa [show rx.st.rxDeliv + 1 + (c - (rx.st.rxDeliv + 1)) = c from by omega]⟩
    rw [hclear _ (by omega)] at hbit
    cases hbit
  · intro hall i hi
    by_contra hbit
    rw [Bool.not_eq_false] at hbit
    obtain ⟨hib, hcont⟩ := (getD_reportBitmap rx i).mp hbit
    have := hall _ hcont (by unfold reportBits at hib; omega)
    omega

theorem Peers.agree_of_accepted (h : Peers cfg rx tx) {n : Nat}
    (hacc : PdcpEntityTx.readStatusReport tx.st.txNext rx.compileStatusReport =
      .accepted rx.st.rxDeliv (padTo n (reportBitmap rx))) :
    ((tx.handleStatusReport cfg rx.compileStatusReport).protocolFailures = tx.protocolFailures ∧
      ∀ c, (tx.handleStatusReport cfg rx.compileStatusReport).txWindow.contains c = true ↔
        tx.txWindow.contains c = true ∧ ¬Reportable rx c) ↔
    (cfg.discardTimer = none → ∀ c, tx.txWindow.contains c = true → ¬Reportable rx c) := by
  have hlt := h.txNext_lt
  have hnext := h.next_le
  have hdeliv := h.deliv_le
  rw [PdcpEntityTx.handleStatusReport_of_accepted hacc]
  cases hd : cfg.discardTimer with
  | none =>
    rw [PdcpEntityTx.foldl_discardPdu_of_none hd]
    constructor
    · exact fun hx _ c hc => ((hx.2 c).mp hc).2
    · exact fun hx => ⟨rfl, fun c => ⟨fun hc => ⟨hc, hx rfl c hc⟩, fun hc => hc.1⟩⟩
  | some d =>
    refine ⟨fun _ hnone => absurd hnone (by simp), fun _ => ?_⟩
    have hcs : ∀ c ∈ PdcpEntityTx.acknowledged rx.st.rxDeliv (padTo n (reportBitmap rx)) tx,
        c < tx.st.txNext := by
      intro c hc
      unfold PdcpEntityTx.acknowledged at hc
      rw [List.mem_append, List.mem_range'_1, PdcpEntityTx.reported_padTo,
        PdcpEntityTx.mem_reported] at hc
      rcases hc with hc | ⟨i, hi, rfl⟩
      · omega
      · have := (h.stored _ ((getD_reportBitmap rx i).mp hi).2).2
        rw [Nat.mod_eq_of_lt (by omega)]
        omega
    obtain ⟨htrim, -, hx⟩ := @PdcpEntityTx.contains_foldl_discardPdu _ cfg _ (by simp [hd]) _ h.low hcs
    refine ⟨htrim.protocolFailures, fun c => ?_⟩
    rw [hx]
    exact and_congr_right fun hc => not_congr (h.reportable_iff n c hc)

theorem Peers.failed_of_overflow (h : Peers cfg rx tx) (hover : ¬rx.st.rxDeliv + 1 < 2 ^ 32) :
    PdcpEntityTx.readStatusReport tx.st.txNext rx.compileStatusReport = .failed 2 := by
  have hlt := h.txNext_lt
  have hnext := h.next_le
  have hdeliv := h.deliv_le
  have hd : rx.st.rxDeliv = 2 ^ 32 - 1 := by omega
  have hn : rx.st.rxNext = 2 ^ 32 - 1 := by omega
  have ht : tx.st.txNext = 2 ^ 32 - 1 := by omega
  have hbits : PdcpEntityRx.bitmapLength rx.st = 71960 := by
    unfold PdcpEntityRx.bitmapLength PdcpEntityRx.maxBitmapBits
    rw [hd, hn]
    decide
  have hcomp : rx.compileStatusReport = encode (statusBits (2 ^ 32 - 1)
      ((List.range' 0 71960).map rx.rxWindow.contains)) := by
    have hfirst : (2 ^ 32 - 1 + 1) % 2 ^ 32 = 0 := by omega
    unfold PdcpEntityRx.compileStatusReport
    rw [hbits, hd, hfirst, statusBits]
  have hbytes : bitmapBytes ((List.range' 0 71960).map rx.rxWindow.contains) = 8995 := by
    unfold bitmapBytes
    rw [List.length_map, List.length_range']
  rw [hcomp, ht, readStatusReport_eq (by decide) (by rw [hbytes]; omega), subU32_self_one, hbytes,
    if_neg (lt_irrefl _), if_pos (by omega), if_pos ⟨rfl, by omega⟩]

/-- The two sides agree on the receiver's report exactly if the report fits. -/
theorem agree_iff_reportFits (h : Peers cfg rx tx) : Agree cfg rx tx ↔ ReportFits cfg rx tx := by
  have hrej : ∀ bytes, (∀ fmc bitmap,
      PdcpEntityTx.readStatusReport tx.st.txNext bytes ≠ .accepted fmc bitmap) →
      (tx.handleStatusReport cfg bytes).txWindow = tx.txWindow ∧
        (tx.handleStatusReport cfg bytes).st = tx.st := by
    intro bytes hno
    unfold PdcpEntityTx.handleStatusReport
    cases hr : PdcpEntityTx.readStatusReport tx.st.txNext bytes with
    | ignored => exact ⟨rfl, rfl⟩
    | failed n => exact ⟨rfl, rfl⟩
    | accepted fmc bitmap => exact absurd hr (hno fmc bitmap)
  have hfails : ∀ n, PdcpEntityTx.readStatusReport tx.st.txNext rx.compileStatusReport =
      .failed (n + 1) → ¬Agree cfg rx tx := by
    intro n hf hagree
    have := hagree.1.1
    unfold PdcpEntityTx.handleStatusReport at this
    rw [hf] at this
    dsimp only at this
    omega
  unfold ReportFits
  rw [← h.tailClear_iff]
  by_cases hover : rx.st.rxDeliv + 1 < 2 ^ 32
  · have hcomp := compileStatusReport_eq hover
    have hwin := PdcpEntityTx.txNext_le_of_covers h.pow h.covers
    have hack := h.ack_le
    have hdeliv := h.deliv_le
    have hnext := h.next_le
    have hsize : cfg.snSize.windowSize ≤ 131072 := by cases cfg.snSize <;> decide
    rw [h.capacity] at hwin
    have hlen := length_reportBitmap rx
    have hbits : (reportBitmap rx).length ≤ tx.st.txNext - rx.st.rxDeliv - 1 := by
      unfold reportBits at hlen
      omega
    have hacc : TailClear (tx.st.txNext - rx.st.rxDeliv - 1) (reportBitmap rx) →
        PdcpEntityTx.readStatusReport tx.st.txNext rx.compileStatusReport =
          .accepted rx.st.rxDeliv (padTo (8 * bitmapBytes (reportBitmap rx)) (reportBitmap rx)) := by
      intro htail
      rw [hcomp]
      rcases lt_or_ge rx.st.rxDeliv tx.st.txNext with hlt | hge
      · rcases readStatusReport_of_lt hlt h.txNext_lt hbits (by omega) with ⟨-, hr⟩ | ⟨hno, -⟩
        · exact hr
        · exact absurd htail hno
      · have heq : tx.st.txNext = rx.st.rxDeliv := by omega
        have hzero : bitmapBytes (reportBitmap rx) = 0 := by
          unfold bitmapBytes
          omega
        rw [readStatusReport_eq (by omega) (by omega), heq, subU32_self_one, hzero,
          if_neg (lt_irrefl _), if_neg (Nat.not_lt_zero _), if_neg (fun h => h.1 rfl)]
    constructor
    · intro hagree
      have htail : TailClear (tx.st.txNext - rx.st.rxDeliv - 1) (reportBitmap rx) := by
        rcases lt_or_ge rx.st.rxDeliv tx.st.txNext with hlt | hge
        · rcases readStatusReport_of_lt hlt h.txNext_lt hbits (by omega) with ⟨hc, -⟩ | ⟨-, hr⟩
          · exact hc
          · exact absurd hagree (hfails 0 (by rw [hcomp, hr]))
        · intro i _
          have hnil : reportBitmap rx = [] := List.eq_nil_of_length_eq_zero (by omega)
          rw [hnil]
          rfl
      exact ⟨hover, htail, (h.agree_of_accepted (hacc htail)).mp hagree.1⟩
    · exact fun hfit => ⟨(h.agree_of_accepted (hacc hfit.2.1)).mpr hfit.2.2, hrej⟩
  · constructor
    · exact fun hagree => absurd hagree (hfails 1 (h.failed_of_overflow hover))
    · exact fun hfit => absurd hfit.1 hover

end Agreement

def drbRxConfig : PdcpRxConfig where
  snSize := .size12bits
  tReordering := .ms 100
  maxCountHard := 0xd0000000
  maxCountHard_lt := hardCount_lt

def waitingReceiver (held : Nat) : PdcpEntityRx noDecompressor :=
  { PdcpEntityRx.new drbRxConfig none 0 with
    st := ⟨held + 1, 0, held + 1⟩
    rxWindow := (CircularMap.empty 2048).overwrite held ⟨[1], held, true⟩
    reorderingTimer := true }

def loadedTransmitter (n : Nat) : PdcpEntityTx noCompressor :=
  { PdcpEntityTx.new noCompressor drbTxConfig 0 with
    st := ⟨n, n, 0, 0, 0⟩
    txWindow := (List.range n).foldl
      (fun w c => w.overwrite c ⟨[1], c, some 0, 1, [], PdcpEntityTx.emptyJob, 0⟩)
      (CircularMap.empty 2048) }

theorem peers_of_waiting {held n : Nat} (h : 0 < held) (hn : held < n) (hlt : n < 2 ^ 32)
    (hcov : ∀ c < n, (loadedTransmitter n).txWindow.contains c = true)
    (hcap : (loadedTransmitter n).txWindow.capacity = 2048) :
    Peers drbTxConfig (waitingReceiver held) (loadedTransmitter n) where
  deliv_le := Nat.zero_le _
  stored := by
    intro c hc
    obtain ⟨v, hv⟩ := lookup_of_contains hc
    let w : CircularMap PdcpRxSduInfo := .empty 2048
    have hfree : w.data (w.getCircularIdx held) = none := rfl
    have hl : (waitingReceiver held).rxWindow.lookup c =
        if c = held then some ⟨[1], held, true⟩ else w.lookup c :=
      lookup_overwrite_of_free hfree c _
    rw [hv] at hl
    have hch : c = held := by
      by_contra hne
      rw [if_neg hne] at hl
      cases hl
    rw [hch]
    exact ⟨h, Nat.lt_succ_self _⟩
  next_le := hn
  ack_le := Nat.le_refl _
  covers := fun c _ hc => hcov c hc
  low := fun c _ => Nat.zero_le c
  capacity := hcap
  txNext_lt := hlt

theorem agree_of_three_sent : Agree drbTxConfig (waitingReceiver 1) (loadedTransmitter 3) := by
  have hp := @peers_of_waiting 1 3 (by decide) (by decide) (by decide)
    (by decide +kernel) (by decide +kernel)
  refine (agree_iff_reportFits hp).mpr ⟨by decide, ?_, fun h => nomatch h⟩
  intro c hc _
  have := hp.stored c hc
  change 0 < c ∧ c < 2 at this
  change c < 0 + 1 + 8 * ((1 + 7) / 8 - 1) + 2 % 8
  omega

/-- Nine COUNTs are in flight, the first is missing and the last has arrived: the whole last
byte of the bitmap is taken for padding. -/
theorem not_agree_of_nine_sent :
    Peers drbTxConfig (waitingReceiver 8) (loadedTransmitter 9) ∧
      ¬Agree drbTxConfig (waitingReceiver 8) (loadedTransmitter 9) := by
  refine ⟨peers_of_waiting (by decide) (by decide) (by decide) (by decide +kernel)
    (by decide +kernel), fun h => ?_⟩
  have hfail : ((loadedTransmitter 9).handleStatusReport drbTxConfig
      (waitingReceiver 8).compileStatusReport).protocolFailures = 1 := by decide +kernel
  have := h.1.1
  rw [hfail] at this
  exact absurd this (by decide)

end Ocudu.Pdcp
