import Ocudu.Rlc.TxHeaders

/-! What a NACK schedules, and what the RETX PDUs of the entry repeat. -/

namespace Ocudu.Rlc

/-- What is left of a RETX after its first `k` bytes. -/
def RlcTxAmdRetx.rest (retx : RlcTxAmdRetx) (k : Nat) : RlcTxAmdRetx :=
  { retx with so := retx.so + k, length := retx.length - k }

def sduSi (so len total : Nat) : RlcSiField :=
  if so = 0 then if len = total then .fullSdu else .firstSegment
  else if so + len = total then .lastSegment else .middleSegment

inductive Repeats (snSize : RlcAmSnSize) (sn : Nat) (sdu : List UInt8) : Nat → Nat → List (List UInt8) → Prop
  | nil : Repeats snSize sn sdu so 0 []
  | cons (hlen : 0 < len) (hin : so + len ≤ sdu.length)
      (hrest : Repeats snSize sn sdu (so + len) n pdus) :
      Repeats snSize sn sdu so (len + n)
        ((rlcAmWriteDataPduHeader { p, si := sduSi so len sdu.length, snSize, sn, so } ++
          RlcTxAmEntity.segment sdu so len) :: pdus)

namespace RlcTxAmEntity

open SeqNum

variable {s s' t : RlcTxAmEntity}

/-- The PDUs of a sequence of grants, without the pulls that hand over nothing. -/
def pulls : RlcTxAmEntity → List Nat → Except Fault (List (List UInt8) × RlcTxAmEntity)
  | s, [] => .ok ([], s)
  | s, grantLen :: grants => do
    let (pdu, s) ← s.pullPdu grantLen none
    let (pdus, s) ← pulls s grants
    return (if pdu.isEmpty then pdus else pdu :: pdus, s)

structure Repeatable (s : RlcTxAmEntity) (retx : RlcTxAmdRetx) (sdu : List UInt8) : Prop where
  entry : ∃ info, s.txWindow.lookup retx.sn = some info ∧ info.sdu = sdu
  pos : 0 < retx.length
  inside : retx.so + retx.length ≤ sdu.length
  so : retx.so + retx.length ≤ 2 ^ 16

theorem Repeatable.rest {retx : RlcTxAmdRetx} {sdu : List UInt8} (h : s.Repeatable retx sdu) {k : Nat}
    (hk : k < retx.length) (hwin : t.txWindow = s.txWindow) : t.Repeatable (retx.rest k) sdu := by
  have hin := h.inside
  have hso := h.so
  refine ⟨?_, Nat.sub_pos_of_lt hk, ?_, ?_⟩
  · rw [hwin]
    exact h.entry
  · change retx.so + k + (retx.length - k) ≤ sdu.length
    omega
  · change retx.so + k + (retx.length - k) ≤ 2 ^ 16
    omega

theorem dropStaleRetx_behind (w : CircularMap RlcTxAmSduInfo) {retx : RlcTxAmdRetx}
    (hcont : w.contains retx.sn = true) (post : List RlcTxAmdRetx) {pre : List RlcTxAmdRetx}
    {q : RlcRetxQueue} (hq : q.queue = pre ++ retx :: post) :
    ∃ pre', (dropStaleRetx w (pre ++ retx :: post) q).queue = pre' ++ retx :: post ∧
      (pre = [] → pre' = []) := by
  induction pre generalizing q with
  | nil => exact ⟨[], by rw [List.nil_append, dropStaleRetx_of_contains hcont, hq, List.nil_append], id⟩
  | cons front pre ih =>
    rw [List.cons_append, dropStaleRetx]
    split
    · exact ⟨front :: pre, hq, id⟩
    · obtain ⟨pre', heq, -⟩ := ih (q := q.pop) (by simp [RlcRetxQueue.pop, hq])
      exact ⟨pre', heq, (absurd · (List.cons_ne_nil _ _))⟩

theorem buildRetxFront_behind {grantLen : Nat} {front : RlcTxAmdRetx} {rest : List RlcTxAmdRetx}
    {pdu : List UInt8} (hq : s.retxQueue.queue = front :: rest)
    (hs : s.buildRetxFront grantLen front = .ok (pdu, s')) :
    ∃ pre, s'.retxQueue.queue = pre ++ rest := by
  have hpop : s.retxQueue.pop.queue = rest := by simp [RlcRetxQueue.pop, hq]
  simp only [buildRetxFront] at hs
  rcases hinfo : s.txWindow.lookup front.sn with _ | info
  · rw [hinfo] at hs
    cases hs
  · simp only [hinfo] at hs
    split_ifs at hs
    · cases hs
      exact ⟨[], hpop⟩
    · cases hs
      exact ⟨[front], hq⟩
    · generalize hlen : min front.length (grantLen - _) = len at hs
      have hle : len ≤ front.length := by omega
      have hadvance := @advanceRetx_retx { s with retxSn := some front.sn } front rest hq info len hle
      generalize ({ s with retxSn := some front.sn } : RlcTxAmEntity).advanceRetx front info len = u
        at hs hadvance
      obtain ⟨p, t, hpoll, hp⟩ := exists_polled u front.sn true 0
      have ht : ∃ pre, t.retxQueue.queue = pre ++ rest := by
        rw [hp.retxQueue]
        rcases hadvance with ⟨heq, -⟩ | ⟨heq, -⟩
        · exact ⟨[], heq⟩
        · exact ⟨[_], heq⟩
      simp only [writeRetxPdu, hpoll] at hs
      split_ifs at hs
      · cases hs
        exact ht
      · cases hs
        exact ht

theorem retxSi_eq_sduSi {so len total : Nat} (h : so + len ≤ total) :
    retxSi so (decide (so + len ≥ total)) = sduSi so len total := by
  have hge : decide (so + len ≥ total) = decide (so + len = total) := decide_eq_decide.mpr (by omega)
  rw [retxSi, sduSi, hge]
  by_cases hso : so = 0
  · simp only [decide_eq_true_eq, hso, if_true, Nat.zero_add]
  · simp only [decide_eq_true_eq, if_neg hso]

/-- The PDU that repeats the next `len` bytes of a RETX. -/
def retxPdu (s : RlcTxAmEntity) (p : Bool) (retx : RlcTxAmdRetx) (sdu : List UInt8) (len : Nat) : List UInt8 :=
  rlcAmWriteDataPduHeader { p, si := sduSi retx.so len sdu.length, snSize := s.cfg.snFieldLength
                            sn := retx.sn, so := retx.so } ++ segment sdu retx.so len

/-- What a pull does while a RETX is queued: nothing for it, or its next bytes. -/
inductive RetxStep (s : RlcTxAmEntity) (pre : List RlcTxAmdRetx) (retx : RlcTxAmdRetx)
    (post : List RlcTxAmdRetx) (sdu : List UInt8) (grantLen : Nat) : List UInt8 → RlcTxAmEntity → Prop
  | waits (hq : u.retxQueue.queue = pre' ++ retx :: post)
      (hfront : pre = [] → pdu = [] ∧ pre' = [] ∧ u.maxRetxReached = s.maxRetxReached ∧
        (s.maxRetxReached = false → grantLen ≤ s.headMaxSize)) :
      RetxStep s pre retx post sdu grantLen pdu u
  | sends (hlen : 0 < len) (hle : len ≤ retx.length)
      (hq : len < retx.length → u.retxQueue.queue = retx.rest len :: post ∧
        u.maxRetxReached = s.maxRetxReached) :
      RetxStep s pre retx post sdu grantLen (s.retxPdu p retx sdu len) u

theorem advanceRetx_max {retx : RlcTxAmdRetx} (info : RlcTxAmSduInfo) {len : Nat} (h : len < retx.length) :
    (s.advanceRetx retx info len).maxRetxReached = s.maxRetxReached := by
  unfold advanceRetx
  rw [if_neg (Nat.ne_of_lt h)]

theorem buildRetxPdu_step {retx : RlcTxAmdRetx} {pre post : List RlcTxAmdRetx} {sdu : List UInt8}
    (hq : s.retxQueue.queue = pre ++ retx :: post) (hv : s.Repeatable retx sdu) {grantLen : Nat}
    {pdu : List UInt8} (hs : s.buildRetxPdu grantLen = .ok (pdu, s')) :
    RetxStep s pre retx post sdu grantLen pdu s' := by
  obtain ⟨info, hinfo, rfl⟩ := hv.entry
  have hcont : s.txWindow.contains retx.sn = true := CircularMap.contains_of_lookup hinfo
  obtain ⟨pre', hdrop, hfront⟩ := dropStaleRetx_behind s.txWindow hcont post hq
  rw [← hq] at hdrop
  cases pre' with
  | cons front pre' =>
    simp only [buildRetxPdu, hdrop, List.cons_append] at hs
    obtain ⟨pre'', hbehind⟩ := buildRetxFront_behind (s := { s with
      retxQueue := dropStaleRetx s.txWindow s.retxQueue.queue s.retxQueue }) hdrop hs
    have hqueue : s'.retxQueue.queue = (pre'' ++ pre') ++ retx :: post := by
      rw [List.append_assoc]
      exact hbehind
    refine .waits hqueue fun hpre => ?_
    cases hfront hpre
  | nil =>
    rw [List.nil_append] at hdrop
    have hbuild : s.buildRetxPdu grantLen = ({ s with
        retxQueue := dropStaleRetx s.txWindow s.retxQueue.queue s.retxQueue } : RlcTxAmEntity).buildRetxPdu
          grantLen := by
      simp only [buildRetxPdu, hdrop, dropStaleRetx_of_contains hcont]
    obtain ⟨pdu', t, ht, hp⟩ := buildRetxPdu_spec (s := { s with
      retxQueue := dropStaleRetx s.txWindow s.retxQueue.queue s.retxQueue }) hdrop hinfo hv.pos hv.inside
      (by have := hv.so; have := hv.pos; omega) grantLen
    rw [hbuild, ht] at hs
    cases hs
    cases hp with
    | blocked hg =>
      have hqueue : (dropStaleRetx s.txWindow s.retxQueue.queue s.retxQueue).queue = [] ++ retx :: post := hdrop
      refine .waits hqueue fun _ => ⟨rfl, rfl, rfl, fun _ => Nat.le_trans hg ?_⟩
      unfold getRetxExpectedHdrLen
      split
      · exact Nat.le_add_right _ _
      · exact Nat.le_refl _
    | @sent len p t hlen hmin hpoll =>
      have hle : len ≤ retx.length := by omega
      have hsi := retxSi_eq_sduSi (show retx.so + len ≤ info.sdu.length by have := hv.inside; omega)
      have hpolled := polled hpoll
      have hpdu : rlcAmWriteDataPduHeader (retxHdr { s with
          retxQueue := dropStaleRetx s.txWindow s.retxQueue.queue s.retxQueue } p retx info len) ++
            segment info.sdu retx.so len = s.retxPdu p retx info.sdu len := by
        rw [retxPdu, retxHdr, hsi]
      rw [hpdu]
      refine .sends hlen hle fun hlt => ⟨?_, ?_⟩
      · rw [hpolled.retxQueue]
        rcases advanceRetx_retx (s := { s with
          retxQueue := dropStaleRetx s.txWindow s.retxQueue.queue s.retxQueue, retxSn := some retx.sn })
          hdrop info hle with ⟨-, heq⟩ | ⟨heq, -⟩
        · omega
        · exact heq
      · rw [hpolled.maxRetxReached]
        exact advanceRetx_max info hlt

theorem pullPdu_step {retx : RlcTxAmdRetx} {pre post : List RlcTxAmdRetx} {sdu : List UInt8}
    (hq : s.retxQueue.queue = pre ++ retx :: post) (hv : s.Repeatable retx sdu) {grantLen : Nat}
    {pdu : List UInt8} (hs : s.pullPdu grantLen none = .ok (pdu, s')) :
    RetxStep s pre retx post sdu grantLen pdu s' ∧ s'.txWindow = s.txWindow ∧ s'.cfg = s.cfg := by
  have hempty : s.retxQueue.empty = false := by
    rw [RlcRetxQueue.empty, hq]
    cases pre <;> rfl
  unfold pullPdu at hs
  cases hmax : s.maxRetxReached with
  | true =>
    rw [hmax] at hs
    cases hs
    refine ⟨.waits hq fun hpre => ⟨rfl, hpre, rfl, fun h => ?_⟩, rfl, rfl⟩
    rw [hmax] at h
    cases h
  | false =>
    simp only [hmax, Bool.false_eq_true, if_false, hempty, Bool.not_false, if_true] at hs
    have hframe := buildRetxPdu_frame hs
    exact ⟨buildRetxPdu_step hq hv hs, hframe.txWindow, hframe.cfg⟩

@[simp] theorem rest_rest (retx : RlcTxAmdRetx) (k l : Nat) : (retx.rest k).rest l = retx.rest (k + l) := by
  simp only [RlcTxAmdRetx.rest, Nat.add_assoc, Nat.sub_sub]

/-- After some grants the PDUs for a RETX repeat all of it, or as much as the entry in the queue does
not ask for any more; a grant with room for a header and a byte makes progress at the front. -/
theorem pulls_retx {grants : List Nat} {retx : RlcTxAmdRetx} {pre post : List RlcTxAmdRetx}
    {sdu : List UInt8} {pdus : List (List UInt8)} (hq : s.retxQueue.queue = pre ++ retx :: post)
    (hv : s.Repeatable retx sdu) (hs : s.pulls grants = .ok (pdus, t)) :
    ∃ before mine after, pdus = before ++ mine ++ after ∧ (pre = [] → before = []) ∧
      (Repeats s.cfg.snFieldLength retx.sn sdu retx.so retx.length mine ∨
        ∃ k pre', k < retx.length ∧ Repeats s.cfg.snFieldLength retx.sn sdu retx.so k mine ∧ after = [] ∧
          t.retxQueue.queue = pre' ++ retx.rest k :: post ∧
          (pre = [] → pre' = [] ∧
            (s.maxRetxReached = false → grants.countP (s.headMaxSize < ·) ≤ k))) := by
  induction grants generalizing s retx pre pdus with
  | nil =>
    cases hs
    exact ⟨[], [], [], rfl, fun _ => rfl, .inr ⟨0, pre, hv.pos, .nil, rfl, hq, fun h => ⟨h, fun _ => Nat.zero_le _⟩⟩⟩
  | cons grantLen grants ih =>
    obtain ⟨⟨pdu, u⟩, hpull, hs⟩ := bind_eq_ok.mp hs
    obtain ⟨⟨pdus', v⟩, hrest, hs⟩ := bind_eq_ok.mp hs
    cases hs
    obtain ⟨hstep, hwin, hcfg⟩ := pullPdu_step hq hv hpull
    have hhead : u.headMaxSize = s.headMaxSize := by rw [headMaxSize, headMaxSize, hcfg]
    cases hstep with
    | @waits _ pre' _ hq' hfront =>
      have hv' : u.Repeatable retx sdu := ⟨by rw [hwin]; exact hv.entry, hv.pos, hv.inside, hv.so⟩
      obtain ⟨before, mine, after, heq, hbefore, hdone⟩ := ih hq' hv' hrest
      rw [hcfg] at hdone
      refine ⟨(if pdu.isEmpty then before else pdu :: before), mine, after, ?_, fun hpre => ?_, ?_⟩
      · simp only [heq]
        split <;> rfl
      · obtain ⟨rfl, hpre', -, -⟩ := hfront hpre
        exact hbefore hpre'
      · refine hdone.imp_right ?_
        rintro ⟨k, pre'', hk, hcover, hafter, hqueue, hprogress⟩
        refine ⟨k, pre'', hk, hcover, hafter, hqueue, fun hpre => ?_⟩
        obtain ⟨-, hpre', hmax, hblocked⟩ := hfront hpre
        obtain ⟨hnil, hcount⟩ := hprogress hpre'
        refine ⟨hnil, fun hm => ?_⟩
        have hsmall := hblocked hm
        rw [hmax, hhead] at hcount
        rw [List.countP_cons_of_neg (by simpa using hsmall)]
        exact hcount hm
    | @sends len p _ hlen hle hnext =>
      have hin : retx.so + len ≤ sdu.length := Nat.le_trans (Nat.add_le_add_left hle _) hv.inside
      have hne : (s.retxPdu p retx sdu len).isEmpty = false := by
        have hseg := segment_ne_nil hin hlen
        rw [List.isEmpty_eq_false_iff, retxPdu]
        exact fun hnil => hseg (List.append_eq_nil_iff.mp hnil).2
      simp only [hne, Bool.false_eq_true, if_false]
      rcases Nat.lt_or_eq_of_le hle with hlt | rfl
      · obtain ⟨hq', hmax⟩ := hnext hlt
        rw [← List.nil_append (retx.rest len :: post)] at hq'
        obtain ⟨before, mine, after, heq, hbefore, hdone⟩ := ih hq' (hv.rest hlt hwin) hrest
        rw [hcfg] at hdone
        rw [hbefore rfl, List.nil_append] at heq
        refine ⟨[], s.retxPdu p retx sdu len :: mine, after, by rw [heq]; rfl, fun _ => rfl, ?_⟩
        rcases hdone with hall | ⟨k, pre', hk, hcover, hafter, hqueue, hprogress⟩
        · have hsum : retx.length = len + (retx.length - len) := by omega
          rw [hsum]
          exact .inl (.cons hlen hin hall)
        · obtain ⟨hnil, hcount⟩ := hprogress rfl
          have hk' : len + k < retx.length := by
            have hlt' : k < retx.length - len := hk
            omega
          refine .inr ⟨len + k, pre', hk', .cons hlen hin hcover, hafter, ?_, fun _ => ⟨hnil, fun hm => ?_⟩⟩
          · rw [hqueue, rest_rest]
          · rw [hmax, hhead] at hcount
            have hgrants := hcount hm
            rw [List.countP_cons]
            split <;> omega
      · have hcover : Repeats s.cfg.snFieldLength retx.sn sdu retx.so (retx.length + 0)
            [s.retxPdu p retx sdu retx.length] := .cons hlen hin .nil
        exact ⟨[], [s.retxPdu p retx sdu retx.length], pdus', rfl, fun _ => rfl, .inl hcover⟩

/-- The offset of the last byte that a NACK reports as missing, before it is repaired. -/
def nackEnd (nack : RlcAmStatusNack) (info : RlcTxAmSduInfo) : Nat :=
  if nack.so.isSome then nack.soEnd else lastByte info

def OnlySent (s : RlcTxAmEntity) (info : RlcTxAmSduInfo) (retx : RlcTxAmdRetx) : Prop :=
  0 < retx.length ∧ retx.so + retx.length ≤ info.sdu.length ∧
    (s.snUnderSegmentation = some retx.sn → retx.so + retx.length ≤ info.nextSo)

/-- The SDU has bytes, and a NACK of the SDU under segmentation has the end mark or ends before the
bytes that are still to be sent. -/
def AsksSent (s : RlcTxAmEntity) (info : RlcTxAmSduInfo) (nack : RlcAmStatusNack) : Prop :=
  info.sdu ≠ [] ∧ (s.snUnderSegmentation = some nack.nackSn →
    nackEnd nack info = RlcAmStatusNack.soEndOfSdu ∨ nackEnd nack info < info.nextSo ∨
      info.sdu.length ≤ info.nextSo)

theorem handleNack_pushed {nack : RlcAmStatusNack} (hs : s.handleNack nack = .ok (true, s')) :
    ∃ info retx, s.txWindow.lookup nack.nackSn = some info ∧ s.nackRetx nack info = some retx ∧
      s'.retxQueue.queue = s.retxQueue.queue ++ [retx] := by
  unfold handleNack at hs
  split at hs
  · cases hs
  split at hs
  · cases hs
  split at hs
  · cases hs
  rename_i info hinfo
  split at hs
  · cases hs
  rename_i retx hretx
  split at hs
  · cases hs
  rename_i q hpush
  cases hs
  unfold RlcRetxQueue.tryPush at hpush
  split at hpush
  · rw [← Option.some.inj hpush]
    exact ⟨info, retx, hinfo, hretx, rfl⟩
  · cases hpush

theorem nackRetx_last {nack : RlcAmStatusNack} {info : RlcTxAmSduInfo} {retx : RlcTxAmdRetx}
    (hne : info.sdu ≠ []) (hend : nack.soEnd < 2 ^ 16) (h : s.nackRetx nack info = some retx) :
    ∃ e last, s.nackSoEnd nack info = some e ∧ e < 2 ^ 16 ∧ retx.sn = nack.nackSn ∧
      retx.so + retx.length = last + 1 ∧ last ≤ e ∧ last < info.sdu.length ∧
      (last = e ∨ last + 1 = info.sdu.length) := by
  obtain ⟨e, he, rfl⟩ := Option.map_eq_some_iff.mp h
  have hlt := nackSoEnd_lt hend he
  obtain ⟨first, last, heq, hle, hlast⟩ := checkedRetx_inside hne hlt
  refine ⟨e, last, he, hlt, rfl, ?_, hlast⟩
  rw [heq]
  change first + (last + 1 - first) = last + 1
  omega

theorem subU32_one_le {x : Nat} (hx : x ≠ 0) : subU32 x 1 ≤ x - 1 := by
  have hsum : x + (2 ^ 32 - 1 % 2 ^ 32) = x - 1 + 2 ^ 32 := by omega
  rw [subU32, SeqNum.dist, hsum, Nat.add_mod_right]
  exact Nat.mod_le _ _

theorem nackSoEnd_of_segmented {nack : RlcAmStatusNack} {info : RlcTxAmSduInfo} {e : Nat}
    (hseg : s.snUnderSegmentation = some nack.nackSn) (h : s.nackSoEnd nack info = some e) :
    nackEnd nack info = RlcAmStatusNack.soEndOfSdu ∧ e < info.nextSo ∨
      nackEnd nack info ≠ RlcAmStatusNack.soEndOfSdu ∧ e = nackEnd nack info := by
  unfold nackSoEnd at h
  rw [nackEnd]
  generalize (if nack.so.isSome then nack.soEnd else lastByte info) = soEnd at h ⊢
  simp only at h
  split at h
  · rename_i hmark
    rw [if_neg (by rw [hseg]; simp)] at h
    split at h
    · cases h
    split at h
    · cases h
    split at h
    · cases h
    rename_i hzero _ _
    have hsub : subU32 info.nextSo 1 % 2 ^ 16 ≤ info.nextSo - 1 :=
      Nat.le_trans (Nat.mod_le _ _) (subU32_one_le hzero)
    refine .inl ⟨hmark, ?_⟩
    rw [← Option.some.inj h]
    omega
  · rename_i hmark
    exact .inr ⟨hmark, (Option.some.inj h).symm⟩

theorem onlySent_iff {nack : RlcAmStatusNack} {info : RlcTxAmSduInfo} {retx : RlcTxAmdRetx}
    (hend : nack.soEnd < 2 ^ 16) (h : s.nackRetx nack info = some retx) :
    s.OnlySent info retx ↔ s.AsksSent info nack := by
  by_cases hne : info.sdu = []
  · refine iff_of_false (fun honly => ?_) fun hasks => hasks.1 hne
    have hpos := honly.1
    have hin := honly.2.1
    rw [hne, List.length_nil] at hin
    omega
  · obtain ⟨hsn, hpos, hin⟩ := nackRetx_inside hne hend h
    obtain ⟨e, last, he, -, -, hsum, hle, hlt, hcases⟩ := nackRetx_last hne hend h
    unfold OnlySent AsksSent
    rw [hsn]
    simp only [hpos, hin, true_and, hne, ne_eq, not_false_eq_true]
    refine forall_congr' fun hseg => ?_
    rw [hsum]
    rcases nackSoEnd_of_segmented hseg he with ⟨hmark, hcut⟩ | ⟨hmark, rfl⟩
    · exact iff_of_true (by omega) (.inl hmark)
    · simp only [hmark, false_or]
      omega

/-- Whenever a NACK schedules a RETX: that lies inside its SDU and, for the SDU under segmentation,
among the bytes sent, exactly if the NACK asks for nothing else; and whatever the grants are, the
PDUs for the entry repeat its bytes, all of them once it has left the queue, which it does if it is
at the front and the grants leave room. -/
theorem retx_only_sent_iff {nack : RlcAmStatusNack} (hend : nack.soEnd < 2 ^ 16)
    (hs : s.handleNack nack = .ok (true, s')) :
    ∃ info retx, s.txWindow.lookup nack.nackSn = some info ∧ retx.sn = nack.nackSn ∧
      s'.retxQueue.queue = s.retxQueue.queue ++ [retx] ∧
      (s.OnlySent info retx ↔ s.AsksSent info nack) ∧
      (info.sdu ≠ [] → ∀ (u t : RlcTxAmEntity) (pre post : List RlcTxAmdRetx) (grants : List Nat)
        (pdus : List (List UInt8)),
        (u.txWindow.lookup retx.sn).map (·.sdu) = some info.sdu →
        u.retxQueue.queue = pre ++ retx :: post → u.pulls grants = .ok (pdus, t) →
        ∃ before mine after, pdus = before ++ mine ++ after ∧
          (Repeats u.cfg.snFieldLength retx.sn info.sdu retx.so retx.length mine ∨
            ∃ k pre', k < retx.length ∧
              Repeats u.cfg.snFieldLength retx.sn info.sdu retx.so k mine ∧ after = [] ∧
              t.retxQueue.queue = pre' ++ retx.rest k :: post ∧
              (pre = [] → u.maxRetxReached = false → grants.countP (u.headMaxSize < ·) ≤ k))) := by
  obtain ⟨info, retx, hinfo, hretx, hqueue⟩ := handleNack_pushed hs
  refine ⟨info, retx, hinfo, ?_, hqueue, onlySent_iff hend hretx, ?_⟩
  · obtain ⟨e, -, rfl⟩ := Option.map_eq_some_iff.mp hretx
    rfl
  · intro hne u t pre post grants pdus hsdu hq hpulls
    obtain ⟨-, hpos, hin⟩ := nackRetx_inside hne hend hretx
    obtain ⟨e, last, -, he, -, hsum, hle, -, -⟩ := nackRetx_last hne hend hretx
    have hv : u.Repeatable retx info.sdu := by
      refine ⟨?_, hpos, hin, by omega⟩
      obtain ⟨info', hinfo', heq⟩ := Option.map_eq_some_iff.mp hsdu
      exact ⟨info', hinfo', heq⟩
    obtain ⟨before, mine, after, heq, -, hdone⟩ := pulls_retx hq hv hpulls
    refine ⟨before, mine, after, heq, hdone.imp_right ?_⟩
    rintro ⟨k, pre', hk, hcover, hafter, hqueue', hprogress⟩
    exact ⟨k, pre', hk, hcover, hafter, hqueue', fun hpre hmax => (hprogress hpre).2 hmax⟩

theorem retx_only_sent_first_byte :
    ∃ s s', Machine.run step (new drbConfig)
        [.handleSdu (List.replicate 10 7) false 0, .pullPdu 5 none] = .ok s ∧
      s.handleNack { nackSn := 0, so := some ⟨0, 0⟩ } = .ok (true, s') ∧
      ∃ info retx, s.txWindow.lookup 0 = some info ∧ s'.retxQueue.queue = s.retxQueue.queue ++ [retx] ∧
        (s.OnlySent info retx ↔ s.AsksSent info { nackSn := 0, so := some ⟨0, 0⟩ }) := by
  have hrun : ∃ s s', Machine.run step (new drbConfig)
        [.handleSdu (List.replicate 10 7) false 0, .pullPdu 5 none] = .ok s ∧
      s.handleNack { nackSn := 0, so := some ⟨0, 0⟩ } = .ok (true, s') := ⟨_, _, rfl, rfl⟩
  obtain ⟨s, s', hs, hnack⟩ := hrun
  obtain ⟨info, retx, hinfo, -, hqueue, hiff, -⟩ := retx_only_sent_iff (by decide) hnack
  exact ⟨s, s', hs, hnack, info, retx, hinfo, hqueue, hiff⟩

/-- Three bytes of ten are sent, and a NACK of the whole SDU retransmits all ten. -/
theorem nack_without_so_overtakes :
    ¬ ∀ (cfg : RlcTxAmConfig) (events : List TxEvent) (s s' : RlcTxAmEntity) (nack : RlcAmStatusNack)
      (info : RlcTxAmSduInfo) (retx : RlcTxAmdRetx),
      Machine.run step (new cfg) events = .ok s → nack.soEnd < 2 ^ 16 →
      s.handleNack nack = .ok (true, s') → s.txWindow.lookup nack.nackSn = some info →
      s'.retxQueue.queue = s.retxQueue.queue ++ [retx] → s.OnlySent info retx := by
  intro h
  have honly := h drbConfig [.handleSdu (List.replicate 10 7) false 0, .pullPdu 5 none] _ _
    { nackSn := 0 } _ ⟨0, 0, 10⟩ rfl (by decide) rfl rfl (by decide +kernel)
  exact absurd (honly.2.2 rfl) (by decide)

end RlcTxAmEntity

end Ocudu.Rlc
