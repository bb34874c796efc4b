import Ocudu.Pdcp.Rx

/-! `handle_data_pdu` of `pdcp_entity_rx.cpp` as a whole: the sequence number of the header,
the COUNT inferred from it, and the checks of that COUNT against `max_count`. -/

namespace Ocudu.Pdcp

namespace PdcpSnSize

variable (sz : PdcpSnSize)

def readDataPduHeader (buf : List UInt8) : Option Nat :=
  if buf.length ≤ sz.headerSize then none
  else
    let octet i := (buf.getD i 0).toNat
    match sz with
    | .size12bits => some ((octet 0 &&& 0x0f) <<< 8 ||| octet 1 &&& 0xff)
    | .size18bits =>
      some ((octet 0 &&& 0x03) <<< 16 ||| (octet 1 &&& 0xff) <<< 8 ||| octet 2 &&& 0xff)

/-- The integers of the reception window around `rxDeliv` with the low bits `sn`; a COUNT is
one that is not negative. -/
structure Candidate (rxDeliv sn : Nat) (c : Int) : Prop where
  low : (rxDeliv : Int) - sz.windowSize ≤ c
  high : c < rxDeliv + sz.windowSize
  bits : c % sz.cardinality = sn

end PdcpSnSize

structure PdcpRxCountConfig extends PdcpRxConfig where
  maxCountNotify : Nat

inductive PdcpRxUpperSignal
  | maxCountReached
  | protocolFailure
  deriving DecidableEq

/-- The receiving side with what `handle_data_pdu` keeps and signals about its COUNTs. -/
structure RxReceiver (D : RohcDecompressor) where
  system : RxSystem D
  maxCountNotified : Bool
  maxCountOverflow : Bool
  upperCn : List PdcpRxUpperSignal

namespace RxReceiver

/-- `apply_security`, which runs later: from a COUNT and a PDU it makes the SDU, and says
whether its integrity was verified. -/
abbrev Security := Nat → List UInt8 → List UInt8 × Bool

variable {D : RohcDecompressor} (cfg : PdcpRxCountConfig) (security : Security)

def new (cfg : PdcpRxCountConfig) (rohcDecomp : Option D.State) (count : Nat) : RxReceiver D :=
  ⟨.new cfg.toPdcpRxConfig rohcDecomp count, false, false, []⟩

variable (r : RxReceiver D)

def notifyMaxCount (count : Nat) : RxReceiver D :=
  if cfg.maxCountNotify < count ∧ r.maxCountNotified = false then
    { r with upperCn := r.upperCn ++ [.maxCountReached], maxCountNotified := true }
  else r

def refuse : RxReceiver D :=
  if r.maxCountOverflow then r
  else { r with upperCn := r.upperCn ++ [.protocolFailure], maxCountOverflow := true }

def pushJob (pdu : List UInt8) (count : Nat) : RxReceiver D :=
  let sdu := security count pdu
  { r with system := { r.system with pending := r.system.pending ++ [⟨sdu.1, count, sdu.2⟩] } }

def checkCount (pdu : List UInt8) (count : Nat) : RxReceiver D :=
  let r := r.notifyMaxCount cfg count
  if cfg.maxCountHard ≤ count then r.refuse else r.pushJob security pdu count

def rcvdCount (sn : Nat) : Nat :=
  cfg.snSize.inferCount r.system.entity.st.rxDeliv sn

def handleDataPdu (pdu : List UInt8) : RxReceiver D :=
  match cfg.snSize.readDataPduHeader pdu with
  | none => r
  | some sn => r.checkCount cfg security pdu (r.rcvdCount cfg sn)

end RxReceiver

namespace PdcpSnSize

variable (sz : PdcpSnSize) {rxDeliv sn : Nat}

theorem readDataPduHeader_lt {buf : List UInt8} (h : sz.readDataPduHeader buf = some sn) :
    sn < sz.cardinality := by
  unfold readDataPduHeader at h
  split at h
  · cases h
  · cases sz <;> cases h
    · refine Nat.or_lt_two_pow ?_ ((Nat.and_le_right).trans_lt (by decide))
      rw [Nat.shiftLeft_eq]
      have : (buf.getD 0 0).toNat &&& 0x0f ≤ 0x0f := Nat.and_le_right
      simp only [toUint]
      omega
    · refine Nat.or_lt_two_pow (Nat.or_lt_two_pow ?_ ?_) ((Nat.and_le_right).trans_lt (by decide))
      · rw [Nat.shiftLeft_eq]
        have : (buf.getD 0 0).toNat &&& 0x03 ≤ 0x03 := Nat.and_le_right
        simp only [toUint]
        omega
      · rw [Nat.shiftLeft_eq]
        have : (buf.getD 1 0).toNat &&& 0xff ≤ 0xff := Nat.and_le_right
        simp only [toUint]
        omega

theorem candidate_neg_iff (hsn : sn < sz.cardinality) :
    (∃ c < 0, sz.Candidate rxDeliv sn c) ↔
      sz.hfnOf rxDeliv = 0 ∧ sz.snOf rxDeliv + sz.windowSize ≤ sn := by
  have hl := sz.hfnOf_mul_add_snOf rxDeliv
  have hcard := sz.cardinality_eq
  have hlt := sz.snOf_lt rxDeliv
  have hpos := sz.windowSize_pos
  constructor
  · intro ⟨c, hneg, hlow, hhigh, hbits⟩
    have hc : c + sz.cardinality = sn := by
      rw [← hbits, ← Int.add_emod_right, Int.emod_eq_of_lt (by omega) (by omega)]
    have hzero : sz.hfnOf rxDeliv = 0 := by
      by_contra hne
      have := Nat.mul_le_mul_right sz.cardinality (Nat.one_le_iff_ne_zero.mpr hne)
      omega
    rw [hzero] at hl
    exact ⟨hzero, by lia⟩
  · intro ⟨hzero, hbehind⟩
    rw [hzero] at hl
    refine ⟨sn - sz.cardinality, by omega, by lia, by omega, ?_⟩
    rw [Int.sub_emod_right, Int.emod_eq_of_lt (by omega) (by omega)]

theorem inferCount_candidate {count : Nat} (h : sz.Candidate rxDeliv sn count)
    (hlt : count < 2 ^ 32) : sz.inferCount rxDeliv sn = count := by
  obtain ⟨hlow, hhigh, hbits⟩ := h
  have hsn : sz.snOf count = sn := by exact_mod_cast hbits
  have hl := sz.hfnOf_mul_add_snOf rxDeliv
  have hc := sz.hfnOf_mul_add_snOf count
  have hcard := sz.cardinality_eq
  have hlt' := sz.snOf_lt rxDeliv
  have hsc := sz.snOf_lt count
  have hpos := sz.windowSize_pos
  by_cases hge : rxDeliv ≤ count
  · rw [← hsn]
    exact sz.inferCount_snOf hge (by omega) hlt
  -- behind RX_DELIV the HFN is the same or the one before
  · have hle : sz.hfnOf count ≤ sz.hfnOf rxDeliv := Nat.div_le_div_right (by omega)
    rw [hsn] at hc hsc
    rcases Nat.lt_or_eq_of_le hle with hprev | hsame
    · have hq : sz.hfnOf rxDeliv = sz.hfnOf count + 1 := by
        by_contra hne
        have hmul := Nat.mul_le_mul_right sz.cardinality
          (show sz.hfnOf count + 2 ≤ sz.hfnOf rxDeliv by omega)
        have htwo : (sz.hfnOf count + 2) * sz.cardinality = sz.hfnOf count * sz.cardinality +
          2 * sz.cardinality := Nat.add_mul _ _ _
        omega
      have hnext : (sz.hfnOf count + 1) * sz.cardinality =
        sz.hfnOf count * sz.cardinality + sz.cardinality := Nat.succ_mul _ _
      have hsmall : sz.hfnOf count < 2 ^ 32 := (Nat.div_le_self _ _).trans_lt hlt
      have hmod : (sz.hfnOf rxDeliv + (2 ^ 32 - 1)) % 2 ^ 32 = sz.hfnOf count := by omega
      rw [hq] at hl
      rw [inferCount, if_neg (by omega), if_pos (by omega), hmod, sz.countOf_eq (by omega) hsc]
      exact hc
    · rw [hsame] at hc
      rw [inferCount, if_neg (by omega), if_neg (by omega), sz.countOf_eq (by omega) hsc]
      exact hc

theorem inferCount_wrapped (hsn : sn < sz.cardinality) (hzero : sz.hfnOf rxDeliv = 0)
    (hbehind : sz.snOf rxDeliv + sz.windowSize ≤ sn) :
    sz.inferCount rxDeliv sn = 2 ^ 32 - sz.cardinality + sn := by
  have hshift : sz.countOf (2 ^ 32 - 1) sn = 2 ^ 32 - sz.cardinality + sn := by
    unfold countOf
    have hmod : (2 ^ 32 - 1) * 2 ^ sz.toUint % 2 ^ 32 =
        2 ^ sz.toUint * (2 ^ (32 - sz.toUint) - 1) := by
      cases sz <;> decide
    rw [hmod, ← Nat.two_pow_add_eq_or_of_lt hsn]
    congr 1
    cases sz <;> decide
  rw [inferCount, if_neg (by omega), if_pos hbehind, hzero]
  exact hshift

end PdcpSnSize

namespace RxReceiver

variable {D : RohcDecompressor} (cfg : PdcpRxCountConfig) (security : Security)

variable (r : RxReceiver D)

@[simp] theorem notifyMaxCount_system (count : Nat) :
    (r.notifyMaxCount cfg count).system = r.system := by
  unfold notifyMaxCount
  split <;> rfl

@[simp] theorem notifyMaxCount_overflow (count : Nat) :
    (r.notifyMaxCount cfg count).maxCountOverflow = r.maxCountOverflow := by
  unfold notifyMaxCount
  split <;> rfl

theorem notifyMaxCount_length (count : Nat) :
    (r.notifyMaxCount cfg count).upperCn.length =
      r.upperCn.length + if cfg.maxCountNotify < count ∧ r.maxCountNotified = false then 1
        else 0 := by
  unfold notifyMaxCount
  split <;> simp

theorem refuse_length :
    r.refuse.upperCn.length =
      r.upperCn.length + if r.maxCountOverflow = true then 0 else 1 := by
  unfold refuse
  split <;> simp

/-- A COUNT is handled without a trace when it is refused and all signals about it were
given before. -/
theorem checkCount_eq_self_iff (pdu : List UInt8) (count : Nat) :
    r.checkCount cfg security pdu count = r ↔
      cfg.maxCountHard ≤ count ∧ r.maxCountOverflow = true ∧
        (count ≤ cfg.maxCountNotify ∨ r.maxCountNotified = true) := by
  constructor
  · intro h
    have hhard : cfg.maxCountHard ≤ count := by
      by_contra hlow
      have hlen := congrArg (fun r : RxReceiver D => r.system.pending.length) h
      simp [checkCount, hlow, pushJob, notifyMaxCount_system] at hlen
    have hsignals := congrArg (fun r : RxReceiver D => r.upperCn.length) h
    simp only [checkCount, if_pos hhard, refuse_length, notifyMaxCount_length,
      notifyMaxCount_overflow] at hsignals
    refine ⟨hhard, ?_, ?_⟩
    · by_contra hno
      rw [if_neg hno] at hsignals
      omega
    · by_contra hno
      simp only [not_or, not_le, Bool.not_eq_true] at hno
      rw [if_pos hno] at hsignals
      omega
  · intro ⟨hhard, hover, hquiet⟩
    have hnotify : r.notifyMaxCount cfg count = r := by
      unfold notifyMaxCount
      rw [if_neg]
      rcases hquiet with hle | hset
      · exact fun hc => absurd hc.1 (by omega)
      · exact fun hc => by simp [hset] at hc
    simp [checkCount, hhard, hnotify, refuse, hover]

/-- What COUNT inference owes for a PDU: the COUNT of the window that has its SN, and
silence when the only one with this SN lies before COUNT 0. -/
structure CountInference (r : RxReceiver D) (pdu : List UInt8) : Prop where
  exact : ∀ sn ∈ cfg.snSize.readDataPduHeader pdu, ∀ count : Nat, count < 2 ^ 32 →
    cfg.snSize.Candidate r.system.entity.st.rxDeliv sn count →
      r.rcvdCount cfg sn = count ∧
        r.handleDataPdu cfg security pdu = r.checkCount cfg security pdu count
  stale : ∀ sn ∈ cfg.snSize.readDataPduHeader pdu,
    (∃ c < 0, cfg.snSize.Candidate r.system.entity.st.rxDeliv sn c) →
      r.handleDataPdu cfg security pdu = r

abbrev BehindFirstHfn (sn : Nat) : Prop :=
  cfg.snSize.hfnOf r.system.entity.st.rxDeliv = 0 ∧
    cfg.snSize.snOf r.system.entity.st.rxDeliv + cfg.snSize.windowSize ≤ sn

/-- The last HFN's COUNT with the SN is refused, and nobody is left to be told. -/
abbrev AlreadySignalled (sn : Nat) : Prop :=
  cfg.maxCountHard ≤ 2 ^ 32 - cfg.snSize.cardinality + sn ∧ r.maxCountOverflow = true ∧
    (2 ^ 32 - cfg.snSize.cardinality + sn ≤ cfg.maxCountNotify ∨ r.maxCountNotified = true)

/-- The COUNT of a PDU is inferred as it should be exactly when its SN is not behind the
window of the first HFN, or the COUNT of the last HFN changes nothing any more. -/
theorem countInference_iff (r : RxReceiver D) (pdu : List UInt8) :
    CountInference cfg security r pdu ↔
      ∀ sn ∈ cfg.snSize.readDataPduHeader pdu,
        BehindFirstHfn cfg r sn → AlreadySignalled cfg r sn := by
  have hwrapped : ∀ sn ∈ cfg.snSize.readDataPduHeader pdu, BehindFirstHfn cfg r sn →
      (r.handleDataPdu cfg security pdu = r ↔ AlreadySignalled cfg r sn) := by
    intro sn hsn hbehind
    have hcount : r.rcvdCount cfg sn = 2 ^ 32 - cfg.snSize.cardinality + sn :=
      cfg.snSize.inferCount_wrapped (cfg.snSize.readDataPduHeader_lt hsn) hbehind.1 hbehind.2
    rw [handleDataPdu, Option.mem_def.mp hsn]
    simp only [hcount]
    exact checkCount_eq_self_iff cfg security r pdu _
  constructor
  · intro h sn hsn hbehind
    have hneg := (cfg.snSize.candidate_neg_iff (cfg.snSize.readDataPduHeader_lt hsn)).mpr hbehind
    exact (hwrapped sn hsn hbehind).mp (h.stale sn hsn hneg)
  · intro h
    constructor
    · intro sn hsn count hlt hcand
      have hcount : r.rcvdCount cfg sn = count := cfg.snSize.inferCount_candidate hcand hlt
      refine ⟨hcount, ?_⟩
      rw [handleDataPdu, Option.mem_def.mp hsn]
      simp only [hcount]
    · intro sn hsn hneg
      have hbehind := (cfg.snSize.candidate_neg_iff (cfg.snSize.readDataPduHeader_lt hsn)).mp hneg
      exact (hwrapped sn hsn hbehind).mpr (h sn hsn hbehind)

def defaultCounts : PdcpRxCountConfig where
  snSize := .size12bits
  tReordering := .ms 100
  maxCountHard := 0xd0000000
  maxCountHard_lt := hardCount_lt
  maxCountNotify := 0xc0000000

/-- The PDU with SN 4095 that comes first on a bearer is behind the window, and both the
end of the COUNTs and a protocol failure are signalled for it. -/
theorem stalePdu_signalled :
    ¬CountInference defaultCounts (fun _ pdu => (pdu.drop 2, false))
      (RxReceiver.new (D := noDecompressor) defaultCounts none 0) [0x8f, 0xff, 0xaa] := by
  intro h
  have hneg : ∃ c < 0, defaultCounts.snSize.Candidate 0 4095 c :=
    ⟨-1, by decide, by decide, by decide, by decide⟩
  have hsame := h.stale 4095 (by decide) hneg
  exact absurd (congrArg RxReceiver.upperCn hsame) (by decide)

end RxReceiver

end Ocudu.Pdcp
