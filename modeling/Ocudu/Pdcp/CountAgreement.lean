import Ocudu.Basic.BitStream
import Ocudu.Pdcp.RxCount
import Ocudu.Pdcp.TxSduAtomic

/-! Both ends of a bearer give a PDU the same COUNT. -/

namespace Ocudu.Pdcp

open PdcpEntityTx
open RxReceiver (defaultCounts)

theorem snBits : ∀ dc ∈ [0x00, 0x80],
    (∀ hi < 16, (UInt8.ofNat (dc ||| hi)).toNat &&& 0x0f = hi) ∧
      ∀ hi < 4, (UInt8.ofNat (dc ||| hi)).toNat &&& 0x03 = hi := by
  decide

theorem lowOctet (x : Nat) : (UInt8.ofNat (x &&& 0xff)).toNat &&& 0xff = x % 256 := by
  rw [Nat.and_two_pow_sub_one_eq_mod x 8, Nat.and_two_pow_sub_one_eq_mod _ 8, UInt8.toNat_ofNat']
  lia

theorem fieldBits (x n c : Nat) : (x &&& (2 ^ (n + c) - 2 ^ c)) >>> c = x / 2 ^ c % 2 ^ n := by
  rw [BitReader.and_mask_shiftRight, Nat.shiftRight_eq_div_pow]

theorem joinBits (k x : Nat) : (x / 2 ^ k) <<< k ||| x % 2 ^ k = x := by
  rw [← Nat.shiftLeft_add_eq_or_of_lt (Nat.mod_lt _ (Nat.two_pow_pos k)), Nat.shiftLeft_eq, Nat.div_add_mod']

theorem readDataPduHeader_dataPdu (cfg : PdcpTxConfig) {sn : Nat} (hsn : sn < cfg.snSize.cardinality)
    {body : List UInt8} (hbody : body ≠ []) :
    cfg.snSize.readDataPduHeader (dataPdu cfg sn body) = some sn := by
  obtain ⟨b, body, rfl⟩ := List.exists_cons_of_ne_nil hbody
  cases hsz : cfg.snSize with
  | size12bits =>
    rw [hsz] at hsn
    change sn < 2 ^ 12 at hsn
    have hhi : (sn &&& 0xf00) >>> 8 = sn / 256 := (fieldBits sn 4 8).trans (by lia)
    have hfirst := fun dc hdc => (snBits dc hdc).1 (sn / 256) (by omega)
    cases hrb : cfg.rbType
    all_goals
      simp only [dataPdu, hrb, hsz, PdcpSnSize.readDataPduHeader, PdcpSnSize.headerSize, List.length_cons, hhi,
        List.getD_cons_zero, List.getD_cons_succ, hfirst 0 (by decide), hfirst 0x80 (by decide), lowOctet]
      exact (if_neg (by omega)).trans (congrArg some (joinBits 8 sn))
  | size18bits =>
    rw [hsz] at hsn
    change sn < 2 ^ 18 at hsn
    have hhi : (sn &&& 0x30000) >>> 16 = sn / 2 ^ 16 := (fieldBits sn 2 16).trans (by lia)
    have hmid : (sn &&& 0xff00) >>> 8 = sn / 256 &&& 0xff :=
      (fieldBits sn 8 8).trans (Nat.and_two_pow_sub_one_eq_mod _ 8).symm
    have hfirst := fun dc hdc => (snBits dc hdc).2 (sn / 2 ^ 16) (by omega)
    have hlow : (sn / 256 % 256) <<< 8 ||| sn % 256 = sn % 2 ^ 16 := by
      have hjoin := joinBits 8 (sn % 2 ^ 16)
      rwa [show sn % 2 ^ 16 / 2 ^ 8 = sn / 256 % 256 by omega, show sn % 2 ^ 16 % 2 ^ 8 = sn % 256 by omega] at hjoin
    cases hrb : cfg.rbType
    all_goals
      simp only [dataPdu, hrb, hsz, PdcpSnSize.readDataPduHeader, PdcpSnSize.headerSize, List.length_cons, hhi, hmid,
        List.getD_cons_zero, List.getD_cons_succ, hfirst 0 (by decide), hfirst 0x80 (by decide), lowOctet]
      rw [if_neg (by omega), Nat.or_assoc, hlow, joinBits]

variable {C : RohcCompressor} {D : RohcDecompressor} {cfg : PdcpTxConfig} {s : PdcpEntityTx C}

theorem job_of_handleSdu {buf : List UInt8} {now : Nat} {j : PdcpTxBufferInfo}
    (hj : j ∈ (s.handleSdu cfg buf now).jobs) (hnew : j ∉ s.jobs) :
    j.count < 2 ^ 32 ∧ ∃ sdu, j.buf = dataPdu cfg (cfg.snSize.snOf j.count) sdu := by
  by_cases htake : TakesCount cfg s buf
  · rw [handleSdu_of_takesCount htake] at hj
    rcases (transmitSdu_accepts htake now).job with ⟨-, hjobs⟩ | ⟨-, hlt, sdu, -, hjobs⟩
    · exact absurd (hjobs ▸ hj) hnew
    · rw [hjobs, List.mem_append, List.mem_singleton] at hj
      rcases hj with hj | rfl
      · exact absurd hj hnew
      · exact ⟨Nat.lt_of_succ_lt hlt, sdu, rfl⟩
  · exact absurd ((quiet_handleSdu htake now).jobs j hj) hnew

/-- The job that `handle_sdu` makes for an SDU: whatever is behind its header when the PDU arrives, a
receiver infers the COUNT of the job if it lies in the window around RX_DELIV. -/
theorem handleSdu_count_received (cfg : PdcpTxConfig) (s : PdcpEntityTx C) (buf : List UInt8) (now : Nat)
    (j : PdcpTxBufferInfo) (hj : j ∈ (s.handleSdu cfg buf now).jobs) (hnew : j ∉ s.jobs) (rxCfg : PdcpRxCountConfig)
    (hsize : rxCfg.snSize = cfg.snSize) (security : RxReceiver.Security) (r : RxReceiver D)
    (hlo : r.system.entity.st.rxDeliv ≤ j.count + cfg.snSize.windowSize)
    (hhi : j.count < r.system.entity.st.rxDeliv + cfg.snSize.windowSize) (body : List UInt8) (hbody : body ≠ []) :
    r.handleDataPdu rxCfg security (j.buf.take cfg.snSize.headerSize ++ body) =
      r.checkCount rxCfg security (j.buf.take cfg.snSize.headerSize ++ body) j.count := by
  obtain ⟨hlt, sdu, hframed⟩ := job_of_handleSdu hj hnew
  have hwire : j.buf.take cfg.snSize.headerSize ++ body = dataPdu cfg (cfg.snSize.snOf j.count) body := by
    rw [hframed, dataPdu, dataPdu]
    cases cfg.snSize <;> rfl
  have hcand : cfg.snSize.Candidate r.system.entity.st.rxDeliv (cfg.snSize.snOf j.count) j.count :=
    ⟨by omega, by omega, rfl⟩
  rw [hwire, RxReceiver.handleDataPdu, hsize, readDataPduHeader_dataPdu cfg (cfg.snSize.snOf_lt _) hbody]
  dsimp only
  rw [RxReceiver.rcvdCount, hsize, cfg.snSize.inferCount_candidate hcand hlt]

theorem handleSdu_count_received_first :
    (RxReceiver.new (D := noDecompressor) defaultCounts none 2048).handleDataPdu defaultCounts
        (fun _ pdu => (pdu.drop 2, false)) [0x80, 0, 9] =
      (RxReceiver.new defaultCounts none 2048).checkCount defaultCounts
        (fun _ pdu => (pdu.drop 2, false)) [0x80, 0, 9] 0 :=
  handleSdu_count_received drbTxConfig TxSystem.readyEntity [7] 0 ⟨false, 0, 0, [0x80, 0, 7]⟩ List.mem_cons_self
    List.not_mem_nil defaultCounts rfl _ (.new defaultCounts none 2048) (by decide) (by decide)
    [9] (by decide)

end Ocudu.Pdcp
