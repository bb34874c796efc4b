import Ocudu.Basic.Machine
import Ocudu.Nru.NruCodec

/-! `lib/f1u/cu_up/f1u_bearer_impl.cpp`: the discards of PDCP that the CU-UP bearer gathers in blocks
and sends to the DU, and `handle_pdu_impl` of the DU bearer, which takes the blocks apart again. -/

namespace Ocudu.F1u

open Nru (DiscardBlock DlUserData DlUserDataInRange nruMaxNofPdcpSnDiscardBlocks)

structure DlMessage where
  tPdu : List UInt8 := []
  dlUserData : DlUserData := {}

inductive DiscardFault
  | assertion
  deriving DecidableEq

structure CuBearer where
  discardBlocks : List DiscardBlock := []
  stopped : Bool := false
  txPdus : List DlMessage := []

namespace CuBearer

variable (s : CuBearer)

def fillDiscardBlocks (msg : DlMessage) : CuBearer × DlMessage :=
  if s.discardBlocks.isEmpty then (s, msg)
  else ({ s with discardBlocks := [] },
    { msg with dlUserData := { msg.dlUserData with discardBlocks := some s.discardBlocks } })

def onNewPdu (msg : DlMessage) : CuBearer := { s with txPdus := s.txPdus ++ [msg] }

def handleSdu (sdu : List UInt8) (isRetx : Bool) : CuBearer :=
  if s.stopped then s
  else
    let (s, msg) := s.fillDiscardBlocks { tPdu := sdu, dlUserData := { retransmissionFlag := isRetx } }
    s.onNewPdu msg

def flushDiscardBlocks : CuBearer :=
  let (s, msg) := s.fillDiscardBlocks {}
  if msg.dlUserData.discardBlocks.isSome then s.onNewPdu msg else s

def onExpiredDlNotifTimer : CuBearer := if s.stopped then s else s.flushDiscardBlocks

def pushBlock (pdcpSn : Nat) : Except DiscardFault CuBearer :=
  if s.discardBlocks.length < nruMaxNofPdcpSnDiscardBlocks then
    .ok { s with discardBlocks := s.discardBlocks ++ [⟨pdcpSn, 1⟩] }
  else .error .assertion

/-- The sequence number after the last one of the block, as the sum of a `uint32_t` and a `uint8_t`. -/
def blockEnd (block : DiscardBlock) : Nat := (block.pdcpSnStart + block.blockSize.toNat) % 2 ^ 32

def discardSdu (pdcpSn : Nat) : Except DiscardFault CuBearer :=
  match s.discardBlocks.getLast? with
  | none => s.pushBlock pdcpSn
  | some lastBlock =>
    if blockEnd lastBlock = pdcpSn then
      .ok { s with discardBlocks := s.discardBlocks.dropLast ++
        [{ lastBlock with blockSize := lastBlock.blockSize + 1 }] }
    else do
      let s ← s.pushBlock pdcpSn
      if s.discardBlocks.length = nruMaxNofPdcpSnDiscardBlocks then return s.flushDiscardBlocks
      else return s

end CuBearer

/-- What the DU bearer tells its `rx_sdu_notifier`, and how often it was polled. -/
structure DuRxBearer where
  newSdus : List (List UInt8 × Bool) := []
  discardedSdus : List Nat := []
  nofPolls : Nat := 0

namespace DuRxBearer

variable (s : DuRxBearer)

/-- The loop over the sequence numbers of a block. -/
def discardedSns (block : DiscardBlock) : List Nat :=
  List.range' block.pdcpSnStart (CuBearer.blockEnd block - block.pdcpSnStart)

def handlePduImpl (msg : DlMessage) : DuRxBearer where
  newSdus := if msg.tPdu.isEmpty then s.newSdus
    else s.newSdus ++ [(msg.tPdu, msg.dlUserData.retransmissionFlag)]
  nofPolls := if msg.dlUserData.reportPolling then s.nofPolls + 1 else s.nofPolls
  discardedSdus := s.discardedSdus ++ (msg.dlUserData.discardBlocks.getD []).flatMap discardedSns

/-- A message from the CU-UP; one that cannot be unpacked is dropped. -/
def handlePdu (tPdu container : List UInt8) : DuRxBearer :=
  match Nru.unpackDlUserData container with
  | .ok (some dlUserData) => s.handlePduImpl ⟨tPdu, dlUserData⟩
  | _ => s

def receive (msg : DlMessage) : DuRxBearer :=
  match Nru.packDlUserData [] msg.dlUserData with
  | .ok container => s.handlePdu msg.tPdu container
  | .error _ => s

def handlePdus (msgs : List DlMessage) : DuRxBearer := msgs.foldl receive s

end DuRxBearer

/-- The sequence numbers that a list of blocks stands for. -/
def expandBlocks (blocks : List DiscardBlock) : List Nat :=
  blocks.flatMap fun block => List.range' block.pdcpSnStart block.blockSize.toNat

structure DiscardSystem where
  cu : CuBearer := {}
  du : DuRxBearer := {}
  discarded : List Nat := []

inductive DiscardEvent
  | discardSdu (pdcpSn : Nat)
  | handleSdu (sdu : List UInt8) (isRetx : Bool)
  | expiredDlNotifTimer
  | stop

def DiscardEvent.discards : DiscardEvent → List Nat
  | .discardSdu pdcpSn => [pdcpSn]
  | _ => []

namespace DiscardSystem

variable (s : DiscardSystem)

def stepCu : DiscardEvent → Except DiscardFault CuBearer
  | .discardSdu pdcpSn => s.cu.discardSdu pdcpSn
  | .handleSdu sdu isRetx => .ok (s.cu.handleSdu sdu isRetx)
  | .expiredDlNotifTimer => .ok s.cu.onExpiredDlNotifTimer
  | .stop => .ok { s.cu with stopped := true }

/-- The messages of the CU-UP bearer reach the DU bearer before the next event. -/
def step (e : DiscardEvent) : Except DiscardFault DiscardSystem := do
  let cu ← s.stepCu e
  return ⟨{ cu with txPdus := [] }, s.du.handlePdus cu.txPdus, s.discarded ++ e.discards⟩

def queued : List Nat := expandBlocks s.cu.discardBlocks

def Exact : Prop := s.du.discardedSdus ++ s.queued = s.discarded

/-- The block to which the discard is added has less than 255 sequence numbers. -/
def BlockHasRoom : DiscardEvent → Prop
  | .discardSdu pdcpSn => ∀ block ∈ s.cu.discardBlocks.getLast?, CuBearer.blockEnd block = pdcpSn →
      block.blockSize ≠ 255
  | _ => True

instance (e : DiscardEvent) : Decidable (s.BlockHasRoom e) :=
  match e with
  | .discardSdu _ => inferInstanceAs (Decidable (∀ block ∈ s.cu.discardBlocks.getLast?, _ → _))
  | .handleSdu _ _ => inferInstanceAs (Decidable True)
  | .expiredDlNotifTimer => inferInstanceAs (Decidable True)
  | .stop => inferInstanceAs (Decidable True)

end DiscardSystem

@[simp] theorem expandBlocks_nil : expandBlocks [] = [] := rfl

@[simp] theorem expandBlocks_append (xs ys : List DiscardBlock) :
    expandBlocks (xs ++ ys) = expandBlocks xs ++ expandBlocks ys := List.flatMap_append

@[simp] theorem expandBlocks_singleton (block : DiscardBlock) :
    expandBlocks [block] = List.range' block.pdcpSnStart block.blockSize.toNat := by
  simp [expandBlocks]

namespace CuBearer

variable {s : CuBearer}

def covered (s : CuBearer) : List Nat :=
  s.txPdus.flatMap (fun msg => expandBlocks (msg.dlUserData.discardBlocks.getD [])) ++
    expandBlocks s.discardBlocks

structure Wf (s : CuBearer) : Prop where
  nofBlocks : s.discardBlocks.length ≤ nruMaxNofPdcpSnDiscardBlocks
  blocks : ∀ block ∈ s.discardBlocks, block.pdcpSnStart < 2 ^ 18
  txPdus : ∀ msg ∈ s.txPdus, DlUserDataInRange msg.dlUserData

theorem blockEnd_eq {block : DiscardBlock} (h : block.pdcpSnStart < 2 ^ 24) :
    blockEnd block = block.pdcpSnStart + block.blockSize.toNat := by
  have := block.blockSize.toNat_lt
  exact Nat.mod_eq_of_lt (by omega)

theorem Wf.onNewPdu_fill (h : s.Wf) (msg : DlMessage) (hmsg : DlUserDataInRange msg.dlUserData)
    (hnone : msg.dlUserData.discardBlocks = none) :
    ((s.fillDiscardBlocks msg).1.onNewPdu (s.fillDiscardBlocks msg).2).Wf ∧
    ((s.fillDiscardBlocks msg).1.onNewPdu (s.fillDiscardBlocks msg).2).discardBlocks = [] ∧
    ((s.fillDiscardBlocks msg).1.onNewPdu (s.fillDiscardBlocks msg).2).covered = s.covered := by
  unfold fillDiscardBlocks
  cases hb : s.discardBlocks with
  | nil =>
    refine ⟨⟨?_, ?_, ?_⟩, hb, ?_⟩
    · simp [onNewPdu, hb]
    · simp [onNewPdu, hb]
    · exact List.forall_mem_append.mpr ⟨h.txPdus, List.forall_mem_singleton.mpr hmsg⟩
    · simp [covered, onNewPdu, hnone, hb]
  | cons block blocks =>
    refine ⟨⟨?_, ?_, ?_⟩, rfl, ?_⟩
    · simp [onNewPdu]
    · simp [onNewPdu]
    · intro m hm
      rcases List.mem_append.mp hm with hm | hm
      · exact h.txPdus m hm
      · rw [List.mem_singleton.mp hm]
        refine { hmsg with nofBlocks := ?_, blocks := ?_ }
        · rintro bs ⟨⟩
          exact hb ▸ h.nofBlocks
        · rintro bs ⟨⟩ b hmem
          exact lt_trans (h.blocks b (hb ▸ hmem)) (by decide)
    · simp [covered, onNewPdu, hb]

theorem inRange_retransmission (isRetx : Bool) :
    DlUserDataInRange { retransmissionFlag := isRetx } where
  nruSn := Nat.two_pow_pos 24
  dlDiscardPdcpSn := by simp
  nofBlocks := by simp
  blocks := by simp
  dlReportPdcpSn := by simp

/-- What a call leaves when it neither loses nor adds a sequence number other than `sns`. -/
structure Keeps (s s' : CuBearer) (sns : List Nat) : Prop where
  wf : s'.Wf
  room : s'.discardBlocks.length < nruMaxNofPdcpSnDiscardBlocks
  covered : s'.covered = s.covered ++ sns

theorem Wf.flushDiscardBlocks (h : s.Wf) : s.Keeps s.flushDiscardBlocks [] := by
  obtain ⟨hwf, hnil, hcov⟩ := h.onNewPdu_fill {} (inRange_retransmission false) rfl
  unfold CuBearer.flushDiscardBlocks
  cases hb : s.discardBlocks with
  | nil =>
    have hfill : s.fillDiscardBlocks {} = (s, {}) := by simp [fillDiscardBlocks, hb]
    rw [hfill]
    exact ⟨h, by simp [hb, nruMaxNofPdcpSnDiscardBlocks], by simp⟩
  | cons block blocks =>
    have hsome : (s.fillDiscardBlocks {}).2.dlUserData.discardBlocks.isSome = true := by
      simp [fillDiscardBlocks, hb]
    simp only [hsome, if_true]
    exact ⟨hwf, by rw [hnil]; decide, by rw [hcov, List.append_nil]⟩

section

variable (hroom : s.discardBlocks.length < nruMaxNofPdcpSnDiscardBlocks)
include hroom

theorem Wf.handleSdu (h : s.Wf) (sdu : List UInt8) (isRetx : Bool) : s.Keeps (s.handleSdu sdu isRetx) [] := by
  unfold CuBearer.handleSdu
  cases s.stopped with
  | true => exact ⟨h, hroom, by simp⟩
  | false =>
    obtain ⟨hwf, hnil, hcov⟩ := h.onNewPdu_fill
      { tPdu := sdu, dlUserData := { retransmissionFlag := isRetx } }
      (inRange_retransmission isRetx) rfl
    exact ⟨hwf, by rw [if_neg Bool.false_ne_true, hnil]; decide, by
      rw [if_neg Bool.false_ne_true, hcov, List.append_nil]⟩

theorem Wf.onExpiredDlNotifTimer (h : s.Wf) :
    s.Keeps s.onExpiredDlNotifTimer [] := by
  unfold CuBearer.onExpiredDlNotifTimer
  cases s.stopped with
  | true => exact ⟨h, hroom, by simp⟩
  | false => exact h.flushDiscardBlocks

theorem Wf.pushBlock (h : s.Wf) {pdcpSn : Nat} (hsn : pdcpSn < 2 ^ 18) : ∃ s', s.pushBlock pdcpSn = .ok s' ∧ s'.Wf ∧
      s'.discardBlocks.length = s.discardBlocks.length + 1 ∧ s'.covered = s.covered ++ [pdcpSn] := by
  refine ⟨_, if_pos hroom, ⟨?_, ?_, h.txPdus⟩, by simp, ?_⟩
  · simpa using hroom
  · exact List.forall_mem_append.mpr ⟨h.blocks, List.forall_mem_singleton.mpr hsn⟩
  · simp [covered, expandBlocks_singleton]

theorem Wf.discardSdu_push (h : s.Wf) {pdcpSn : Nat} (hsn : pdcpSn < 2 ^ 18)
    (hblock : ∀ block ∈ s.discardBlocks.getLast?, blockEnd block ≠ pdcpSn) :
    ∃ s', s.discardSdu pdcpSn = .ok s' ∧ s.Keeps s' [pdcpSn] := by
  obtain ⟨t, ht, hwf, hlen, hcov⟩ := h.pushBlock hroom hsn
  unfold CuBearer.discardSdu
  cases hlast : s.discardBlocks.getLast? with
  | none =>
    have hnil : s.discardBlocks = [] := List.getLast?_eq_none_iff.mp hlast
    exact ⟨t, ht, hwf, by rw [hlen, hnil]; decide, hcov⟩
  | some lastBlock =>
    simp only [if_neg (hblock lastBlock hlast), ht, ok_bind, pure_eq_ok]
    by_cases hfull : t.discardBlocks.length = nruMaxNofPdcpSnDiscardBlocks
    · have hflush := hwf.flushDiscardBlocks
      rw [if_pos hfull]
      exact ⟨_, rfl, hflush.wf, hflush.room, by rw [hflush.covered, hcov, List.append_nil]⟩
    · rw [if_neg hfull]
      exact ⟨t, rfl, hwf, by omega, hcov⟩

theorem Wf.discardSdu_extend (h : s.Wf) {pdcpSn : Nat}
    {lastBlock : DiscardBlock} (hlast : s.discardBlocks.getLast? = some lastBlock)
    (hend : blockEnd lastBlock = pdcpSn) :
    ∃ s', s.discardSdu pdcpSn = .ok s' ∧ s'.Wf ∧
      s'.discardBlocks.length < nruMaxNofPdcpSnDiscardBlocks ∧
      (lastBlock.blockSize ≠ 255 → s'.covered = s.covered ++ [pdcpSn]) ∧
      (lastBlock.blockSize = 255 → s'.covered.length + 256 = s.covered.length + 1) := by
  obtain ⟨blocks, hblocks⟩ := List.getLast?_eq_some_iff.mp hlast
  have hstart : lastBlock.pdcpSnStart < 2 ^ 18 := h.blocks lastBlock (by simp [hblocks])
  have hroom' : blocks.length + 1 < nruMaxNofPdcpSnDiscardBlocks := by simpa [hblocks] using hroom
  have hstep : s.discardSdu pdcpSn = .ok { s with discardBlocks := s.discardBlocks.dropLast ++
      [{ lastBlock with blockSize := lastBlock.blockSize + 1 }] } := by
    simp only [CuBearer.discardSdu, hlast, if_pos hend]
  refine ⟨_, hstep, ⟨?_, ?_, h.txPdus⟩, ?_, ?_, ?_⟩
  · simpa [hblocks] using hroom'.le
  · intro block hmem
    rw [hblocks, List.dropLast_concat] at hmem
    rcases List.mem_append.mp hmem with hmem | hmem
    · exact h.blocks block (by simp [hblocks, hmem])
    · rw [List.mem_singleton.mp hmem]
      exact hstart
  · simpa [hblocks] using hroom'
  · intro hsize
    have hlt : lastBlock.blockSize.toNat + 1 < 256 := by
      have := lastBlock.blockSize.toNat_lt
      have : lastBlock.blockSize.toNat ≠ 255 := fun h => hsize (UInt8.toNat_inj.mp h)
      omega
    have hsucc : (lastBlock.blockSize + 1).toNat = lastBlock.blockSize.toNat + 1 := by
      rw [UInt8.toNat_add]
      exact Nat.mod_eq_of_lt hlt
    rw [blockEnd_eq (lt_trans hstart (by decide))] at hend
    simp only [covered, hblocks, List.dropLast_concat, expandBlocks_append, expandBlocks_singleton,
      hsucc, List.range'_concat, List.append_assoc, ← hend, Nat.one_mul]
  · intro hsize
    simp only [covered, hblocks, List.dropLast_concat, expandBlocks_append, expandBlocks_singleton,
      hsize, List.length_append, List.length_range']
    have : ((255 : UInt8) + 1).toNat = 0 := by decide
    have : (255 : UInt8).toNat = 255 := by decide
    omega

end

end CuBearer

theorem discardedSns_eq {block : DiscardBlock} (h : block.pdcpSnStart < 2 ^ 24) :
    DuRxBearer.discardedSns block = List.range' block.pdcpSnStart block.blockSize.toNat := by
  rw [DuRxBearer.discardedSns, CuBearer.blockEnd_eq h, Nat.add_sub_cancel_left]

theorem receive_discardedSdus (s : DuRxBearer) {msg : DlMessage} (h : DlUserDataInRange msg.dlUserData) :
    (s.receive msg).discardedSdus =
      s.discardedSdus ++ expandBlocks (msg.dlUserData.discardBlocks.getD []) := by
  obtain ⟨octets, hpack, -, hunpack⟩ := Nru.packDlUserData_unpack h []
  rw [List.nil_append] at hpack
  have hblocks : (Nru.received msg.dlUserData).discardBlocks.getD [] = msg.dlUserData.discardBlocks.getD [] := by
    unfold Nru.received
    cases hd : msg.dlUserData.discardBlocks with
    | none => rfl
    | some blocks => cases blocks <;> rfl
  simp only [DuRxBearer.receive, hpack, DuRxBearer.handlePdu, hunpack, DuRxBearer.handlePduImpl, hblocks, expandBlocks]
  congr 1
  apply List.flatMap_congr
  intro block hblock
  cases hd : msg.dlUserData.discardBlocks with
  | none => simp [hd] at hblock
  | some blocks => exact discardedSns_eq (h.blocks blocks hd block (by simpa [hd] using hblock))

theorem handlePdus_discardedSdus (s : DuRxBearer) {msgs : List DlMessage}
    (h : ∀ msg ∈ msgs, DlUserDataInRange msg.dlUserData) : (s.handlePdus msgs).discardedSdus =
      s.discardedSdus ++ msgs.flatMap (fun msg => expandBlocks (msg.dlUserData.discardBlocks.getD [])) := by
  induction msgs generalizing s with
  | nil => simp [DuRxBearer.handlePdus]
  | cons msg msgs ih =>
    have hcons : s.handlePdus (msg :: msgs) = (s.receive msg).handlePdus msgs := rfl
    rw [hcons, ih _ fun m hm => h m (List.mem_cons_of_mem _ hm),
      receive_discardedSdus s (h msg List.mem_cons_self), List.flatMap_cons, List.append_assoc]

namespace DiscardSystem

variable {s : DiscardSystem}

def total (s : DiscardSystem) : List Nat := s.du.discardedSdus ++ s.queued

structure Wf (s : DiscardSystem) : Prop where
  cu : s.cu.Wf
  room : s.cu.discardBlocks.length < nruMaxNofPdcpSnDiscardBlocks
  txPdus : s.cu.txPdus = []

theorem wf_new : Wf {} := ⟨⟨by simp, by simp, by simp⟩, by decide, rfl⟩

def SnInRange : DiscardEvent → Prop
  | .discardSdu pdcpSn => pdcpSn < 2 ^ 18
  | _ => True

theorem Wf.total_eq (h : s.Wf) : s.total = s.du.discardedSdus ++ s.cu.covered := by
  simp [total, queued, CuBearer.covered, h.txPdus]

structure StepsTo (s : DiscardSystem) (e : DiscardEvent) (cu : CuBearer) : Prop where
  wf : cu.Wf
  room : cu.discardBlocks.length < nruMaxNofPdcpSnDiscardBlocks
  keeps : s.BlockHasRoom e → cu.covered = s.cu.covered ++ e.discards
  loses : ¬s.BlockHasRoom e → cu.covered.length + 256 = s.cu.covered.length + e.discards.length

theorem StepsTo.of_keeps {e : DiscardEvent} {cu : CuBearer} (h : s.cu.Keeps cu e.discards)
    (hroom : s.BlockHasRoom e) : s.StepsTo e cu :=
  ⟨h.wf, h.room, fun _ => h.covered, fun hno => absurd hroom hno⟩

theorem Wf.stepCu (h : s.Wf) {e : DiscardEvent} (hsn : SnInRange e) :
    ∃ cu, s.stepCu e = .ok cu ∧ s.StepsTo e cu := by
  cases e with
  | handleSdu sdu isRetx => exact ⟨_, rfl, .of_keeps (h.cu.handleSdu h.room sdu isRetx) trivial⟩
  | expiredDlNotifTimer => exact ⟨_, rfl, .of_keeps (h.cu.onExpiredDlNotifTimer h.room) trivial⟩
  | stop =>
    refine ⟨_, rfl, .of_keeps ⟨⟨h.cu.nofBlocks, h.cu.blocks, h.cu.txPdus⟩, h.room, ?_⟩ trivial⟩
    simp [CuBearer.covered, DiscardEvent.discards]
  | discardSdu pdcpSn =>
    by_cases hfollows : ∃ block ∈ s.cu.discardBlocks.getLast?, CuBearer.blockEnd block = pdcpSn
    · obtain ⟨block, hlast, hend⟩ := hfollows
      obtain ⟨cu, hs, hwf, hroom, hkeep, hlose⟩ := h.cu.discardSdu_extend h.room hlast hend
      refine ⟨cu, hs, hwf, hroom, fun hr => hkeep (hr block hlast hend), fun hr => hlose ?_⟩
      by_contra hsize
      refine hr fun b hb _ => ?_
      cases Option.mem_unique hlast hb
      exact hsize
    · have hno : ∀ block ∈ s.cu.discardBlocks.getLast?, CuBearer.blockEnd block ≠ pdcpSn :=
        fun block hblock hend => hfollows ⟨block, hblock, hend⟩
      obtain ⟨cu, hs, hk⟩ := h.cu.discardSdu_push h.room hsn hno
      exact ⟨cu, hs, .of_keeps hk fun block hblock hend => absurd hend (hno block hblock)⟩

theorem Wf.step (h : s.Wf) {e : DiscardEvent} (hsn : SnInRange e) :
    ∃ s', s.step e = .ok s' ∧ s'.Wf ∧ s'.discarded = s.discarded ++ e.discards ∧
      (s.BlockHasRoom e → s'.total = s.total ++ e.discards) ∧
      (¬s.BlockHasRoom e → s'.total.length + 256 = s.total.length + e.discards.length) := by
  obtain ⟨cu, hs, hwf, hroom, hkeep, hlose⟩ := h.stepCu hsn
  have htotal : total ⟨{ cu with txPdus := [] }, s.du.handlePdus cu.txPdus, s.discarded ++ e.discards⟩ =
      s.du.discardedSdus ++ cu.covered := by
    simp only [total, queued, handlePdus_discardedSdus _ hwf.txPdus, CuBearer.covered, List.append_assoc]
  refine ⟨_, by rw [DiscardSystem.step, hs]; rfl, ⟨⟨hwf.nofBlocks, hwf.blocks, by simp⟩, hroom, rfl⟩, rfl, ?_, ?_⟩
  · intro hr
    rw [htotal, hkeep hr, h.total_eq, List.append_assoc]
  · intro hr
    rw [htotal, h.total_eq, List.length_append, List.length_append]
    have := hlose hr
    omega

theorem run_short (es : List DiscardEvent) (h : s.Wf) (hsn : ∀ e ∈ es, SnInRange e)
    (hshort : s.total.length < s.discarded.length) :
    ∃ s', Machine.run step s es = .ok s' ∧ s'.discarded = s.discarded ++ es.flatMap DiscardEvent.discards ∧
      s'.total.length < s'.discarded.length := by
  induction es generalizing s with
  | nil => exact ⟨s, rfl, by simp, hshort⟩
  | cons e es ih =>
    obtain ⟨t, ht, hwf, hdisc, hkeep, hlose⟩ := h.step (hsn e List.mem_cons_self)
    have hshort' : t.total.length < t.discarded.length := by
      rw [hdisc, List.length_append]
      by_cases hr : s.BlockHasRoom e
      · rw [hkeep hr, List.length_append]
        omega
      · have := hlose hr
        omega
    obtain ⟨s', hs', hdisc', hlt⟩ := ih hwf (fun e' he' => hsn e' (List.mem_cons_of_mem _ he')) hshort'
    exact ⟨s', by rw [Machine.run_cons_ok ht, hs'], by simp [hdisc', hdisc], hlt⟩

theorem run_exact_iff (es : List DiscardEvent) (h : s.Wf) (hsn : ∀ e ∈ es, SnInRange e)
    (hexact : s.Exact) :
    ∃ s', Machine.run step s es = .ok s' ∧ s'.discarded = s.discarded ++ es.flatMap DiscardEvent.discards ∧
      (s'.Exact ↔ Machine.Admits step BlockHasRoom s es) := by
  induction es generalizing s with
  | nil => exact ⟨s, rfl, by simp, by simp [Machine.Admits, hexact]⟩
  | cons e es ih =>
    have hsn' : ∀ e' ∈ es, SnInRange e' := fun e' he' => hsn e' (List.mem_cons_of_mem _ he')
    obtain ⟨t, ht, hwf, hdisc, hkeep, hlose⟩ := h.step (hsn e List.mem_cons_self)
    have htotal : s.total = s.discarded := hexact
    by_cases hr : s.BlockHasRoom e
    · obtain ⟨s', hs', hdisc', hiff⟩ := ih hwf hsn' (show t.total = t.discarded by rw [hkeep hr, hdisc, htotal])
      refine ⟨s', by rw [Machine.run_cons_ok ht, hs'], by simp [hdisc', hdisc], hiff.trans ?_⟩
      refine ⟨fun had => ⟨hr, fun u hu => ?_⟩, fun had => had.2 t ht⟩
      cases ht.symm.trans hu
      exact had
    · have hshort : t.total.length < t.discarded.length := by
        have := hlose hr
        rw [hdisc, ← htotal, List.length_append]
        omega
      obtain ⟨s', hs', hdisc', hlt⟩ := run_short es hwf hsn' hshort
      refine ⟨s', by rw [Machine.run_cons_ok ht, hs'], by simp [hdisc', hdisc], ?_⟩
      refine iff_of_false (fun hex => ?_) fun had => hr had.1
      rw [show s'.total = s'.discarded from hex] at hlt
      exact lt_irrefl _ hlt

/-- The notifications of the DU and the queued blocks are exactly the discards, as long as no block
has to grow beyond 255 sequence numbers, and then only. -/
theorem discards_exact_iff (es : List DiscardEvent) (hsn : ∀ e ∈ es, SnInRange e) :
    ∃ s, Machine.run step {} es = .ok s ∧
      (s.du.discardedSdus ++ s.queued = es.flatMap DiscardEvent.discards ↔
        Machine.Admits step BlockHasRoom {} es) := by
  obtain ⟨s, hs, hdisc, hiff⟩ := run_exact_iff es wf_new hsn rfl
  refine ⟨s, hs, ?_⟩
  rw [← hiff, Exact, hdisc, List.nil_append]

theorem discards_exact_iff_wrapAround : ∃ s, Machine.run step {} [.discardSdu (2 ^ 18 - 1), .discardSdu 0,
      .discardSdu 1, .handleSdu [7] false, .discardSdu 2] = .ok s ∧
    s.du.discardedSdus ++ s.queued = [2 ^ 18 - 1, 0, 1, 2] := by
  obtain ⟨s, hs, hiff⟩ := discards_exact_iff [.discardSdu (2 ^ 18 - 1), .discardSdu 0,
      .discardSdu 1, .handleSdu [7] false, .discardSdu 2] (by simp [SnInRange])
  exact ⟨s, hs, hiff.mpr (by decide +kernel)⟩

/-- The 256th of consecutive discards takes the 255 before it with it. -/
theorem discards_lost : ¬ ∀ es : List DiscardEvent, (∀ e ∈ es, SnInRange e) →
    ∃ s, Machine.run step {} es = .ok s ∧
      s.du.discardedSdus ++ s.queued = es.flatMap DiscardEvent.discards := by
  intro h
  have hrun : (Machine.run step {} ((List.range 256).map .discardSdu)).map (fun s => s.du.discardedSdus ++ s.queued) =
      .ok [] := by
    decide +kernel
  obtain ⟨s, hs, hex⟩ := h ((List.range 256).map .discardSdu) (by
    intro e he
    obtain ⟨sn, hsn, rfl⟩ := List.mem_map.mp he
    exact lt_trans (List.mem_range.mp hsn) (by decide))
  rw [hs] at hrun
  have hnil : s.du.discardedSdus ++ s.queued = [] := Except.ok.inj hrun
  rw [hnil] at hex
  exact absurd hex (by decide +kernel)

end DiscardSystem

end Ocudu.F1u
