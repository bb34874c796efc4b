import Ocudu.Rlc.StatusMerge

/-! The codec of the status PDU: packing has the size that was accounted for, unpacking
inverts it, and unpacking arbitrary bytes neither faults nor changes what the NACK fields
say. -/

namespace Ocudu.Rlc.RlcAmStatusPdu

open RlcAmStatusNack

variable {sz : RlcAmSnSize} {s : RlcAmStatusPdu} {nack prev : RlcAmStatusNack}

def nacksSize (sz : RlcAmSnSize) (nacks : List RlcAmStatusNack) : Nat :=
  (nacks.map (nackSize sz)).sum

def Sized (s : RlcAmStatusPdu) : Prop :=
  s.packedSize = sizeofHeaderAckSn + nacksSize s.snSize s.nacks

@[simp] theorem nacksSize_append (a b : List RlcAmStatusNack) :
    nacksSize sz (a ++ b) = nacksSize sz a + nacksSize sz b := by
  simp [nacksSize]

@[simp] theorem nacksSize_cons (a : RlcAmStatusNack) (l : List RlcAmStatusNack) :
    nacksSize sz (a :: l) = nackSize sz a + nacksSize sz l := by
  simp [nacksSize]

@[simp] theorem nacksSize_nil : nacksSize sz [] = 0 := rfl

theorem length_le_nacksSize (sz : RlcAmSnSize) (nacks : List RlcAmStatusNack) :
    nacks.length ≤ nacksSize sz nacks := by
  induction nacks with
  | nil => simp
  | cons a l ih =>
    have : 1 ≤ nackSize sz a := by
      cases sz <;> simp only [nackSize, sizeofNackSnExt] <;> omega
    simp only [List.length_cons, nacksSize_cons]
    omega

theorem pushBack_sized (h : s.Sized) (nack : RlcAmStatusNack) : (s.pushBack nack).Sized := by
  simp only [Sized, pushBack, nacksSize_append, nacksSize_cons, nacksSize_nil] at h ⊢
  omega

theorem pushNack_sized (h : s.Sized) (nack : RlcAmStatusNack) : (s.pushNack nack).Sized := by
  cases hl : s.nacks.getLast? with
  | none =>
    simp only [pushNack, hl]
    exact pushBack_sized h nack
  | some prev =>
    have hsplit : s.nacks.dropLast ++ [prev] = s.nacks :=
      List.dropLast_append_getLast? prev (by simp [hl])
    simp only [pushNack, hl]
    split
    · have hsize : nacksSize s.snSize s.nacks =
          nacksSize s.snSize s.nacks.dropLast + nackSize s.snSize prev := by
        conv_lhs => rw [← hsplit]
        simp
      simp only [Sized, nacksSize_append, nacksSize_cons, nacksSize_nil] at h ⊢
      omega
    · exact pushBack_sized h nack

@[simp] theorem packNackSn_length (nackSn : Nat) (e1 e2 e3 : Bool) :
    (packNackSn sz nackSn e1 e2 e3).length = sizeofNackSnExt sz := by
  cases sz <;> rfl

@[simp] theorem packNacks_length (nacks : List RlcAmStatusNack) :
    (packNacks sz nacks).length = nacksSize sz nacks := by
  induction nacks with
  | nil => rfl
  | cons nack rest ih =>
    have hso : (packSo nack.so).length = if nack.so.isSome then sizeofNackSo else 0 := by
      cases nack.so <;> rfl
    have hrange : (packRange nack.nackRange).length =
        if nack.nackRange.isSome then sizeofNackRange else 0 := by
      cases nack.nackRange <;> rfl
    simp only [packNacks, List.length_append, packNackSn_length, hso, hrange, ih, nacksSize_cons,
      nackSize]
    omega

theorem pack_eq_packAs (s : RlcAmStatusPdu) : s.pack = packAs s.snSize s := by
  cases h : s.snSize <;> simp [pack, h, pack12bit, pack18bit]

theorem unpack_eq_unpackAs (sz : RlcAmSnSize) (pdu : List UInt8) :
    unpack sz pdu = unpackAs sz pdu := by
  cases sz <;> rfl

theorem pack_length (h : s.Sized) : s.pack.length = s.getPackedSize := by
  rw [pack_eq_packAs, packAs, List.length_append, packNacks_length, getPackedSize, h]
  congr 1
  cases s.snSize <;> rfl

/-! The octets of an ACK_SN and of a NACK_SN. -/

theorem ackOctet18 : ∀ (low : Fin 64) (e1 : Bool),
    let b := (UInt8.ofNat ((low.val * 4) ||| (if e1 then 0x02 else 0x00))).toNat
    (b &&& 0xfc) >>> 2 = low.val ∧ (b &&& 0x02 != 0) = e1 ∧ (b &&& 0x01 != 0) = false := by
  decide

theorem nackOctet12 : ∀ (low : Fin 16) (e1 e2 e3 : Bool),
    let b := (UInt8.ofNat ((low.val <<< 4) ||| (if e1 then 0x08 else 0) |||
      (if e2 then 0x04 else 0) ||| (if e3 then 0x02 else 0))).toNat
    (b &&& 0xf0) >>> 4 = low.val ∧ (b &&& 0x08 != 0) = e1 ∧ (b &&& 0x04 != 0) = e2 ∧
      (b &&& 0x02 != 0) = e3 ∧ (b &&& 0x01 != 0) = false := by
  decide

theorem nackOctet18 : ∀ (low : Fin 4) (e1 e2 e3 : Bool),
    let b := (UInt8.ofNat ((low.val * 64) ||| (if e1 then 0x20 else 0) |||
      (if e2 then 0x10 else 0) ||| (if e3 then 0x08 else 0))).toNat
    (b &&& 0xc0) >>> 6 = low.val ∧ (b &&& 0x20 != 0) = e1 ∧ (b &&& 0x10 != 0) = e2 ∧
      (b &&& 0x08 != 0) = e3 ∧ (b &&& 0x07 != 0) = false := by
  decide

theorem and_mask (x mask : Nat) (h : mask < 256) : x &&& mask = x % 256 &&& mask := by
  have hm : 0xff &&& mask = mask := by
    rw [Nat.and_comm, and_ff, Nat.mod_eq_of_lt h]
  rw [← and_ff, Nat.and_assoc, hm]

theorem readAckSn_pack {ackSn : Nat} (h : ackSn < sz.mod) (e1 : Bool) (rest : List UInt8) :
    readAckSn sz (packAckSn sz ackSn e1 ++ rest) = .ok (⟨ackSn, e1, false⟩, rest) := by
  cases sz with
  | size12bits =>
    simp only [RlcAmSnSize.mod_size12bits] at h
    have hsn : ((ackSn / 256 % 16 % 256 % 16) <<< 8) ||| (ackSn % 256 % 256 % 256) = ackSn := by
      rw [shiftLeft_or_of_lt _ (by lia)]
      lia
    simp only [readAckSn, packAckSn, List.cons_append, List.nil_append, readByte_cons, ok_bind,
      pure_eq_ok, toNat_ofNat_uint8, and_ff, and_0f, Nat.zero_or, Nat.shiftRight_eq_div_pow]
    cases e1 <;> simpa using hsn
  | size18bits =>
    simp only [RlcAmSnSize.mod_size18bits] at h
    have hlow : (ackSn <<< 2) &&& 0xfc = ackSn % 64 * 4 := by
      have hdec : ∀ x : Fin 64, (x.val * 4) &&& 0xfc = x.val * 4 := by decide
      have hx := hdec ⟨ackSn % 64, by omega⟩
      rw [and_mask _ _ (by decide), Nat.shiftLeft_eq, show ackSn * 2 ^ 2 % 256 = ackSn % 64 * 4 by lia]
      exact hx
    obtain ⟨h1, h2, h3⟩ := ackOctet18 ⟨ackSn % 64, by lia⟩ e1
    simp only at h1 h2 h3
    simp only [readAckSn, packAckSn, List.cons_append, List.nil_append, readByte_cons, ok_bind,
      pure_eq_ok, hlow]
    generalize (UInt8.ofNat (ackSn % 64 * 4 ||| if e1 = true then 2 else 0)).toNat = octet
      at h1 h2 h3 ⊢
    simp only [h1, h2, h3, toNat_ofNat_uint8, and_ff, and_0f, Nat.zero_or,
      Nat.shiftRight_eq_div_pow]
    rw [Nat.or_assoc, shiftLeft_or_of_lt (i := 6) _ (by lia), shiftLeft_or_of_lt _ (by lia)]
    congr 3
    lia

theorem readNackSn_pack {nackSn : Nat} (h : nackSn < sz.mod) (e1 e2 e3 : Bool)
    (rest : List UInt8) :
    readNackSn sz (packNackSn sz nackSn e1 e2 e3 ++ rest) =
      .ok (⟨nackSn, e1, e2, e3, false⟩, rest) := by
  cases sz with
  | size12bits =>
    simp only [RlcAmSnSize.mod_size12bits] at h
    obtain ⟨h1, h2, h3, h4, h5⟩ := nackOctet12 ⟨nackSn % 16, by omega⟩ e1 e2 e3
    simp only at h1 h2 h3 h4 h5
    simp only [readNackSn, packNackSn, List.cons_append, List.nil_append, readByte_cons, ok_bind,
      pure_eq_ok, and_0f]
    generalize (UInt8.ofNat ((nackSn % 16) <<< 4 ||| (if e1 = true then 8 else 0) |||
      (if e2 = true then 4 else 0) ||| (if e3 = true then 2 else 0))).toNat = octet
      at h1 h2 h3 h4 h5 ⊢
    simp only [h1, h2, h3, h4, h5, toNat_ofNat_uint8, and_ff, Nat.shiftRight_eq_div_pow]
    rw [shiftLeft_or_of_lt _ (by omega)]
    congr 3
    lia
  | size18bits =>
    simp only [RlcAmSnSize.mod_size18bits] at h
    have hlow : (nackSn <<< 6) &&& 0xc0 = nackSn % 4 * 64 := by
      have hdec : ∀ x : Fin 4, (x.val * 64) &&& 0xc0 = x.val * 64 := by decide
      have hx := hdec ⟨nackSn % 4, by omega⟩
      rw [and_mask _ _ (by decide), Nat.shiftLeft_eq, show nackSn * 2 ^ 6 % 256 = nackSn % 4 * 64 by lia]
      exact hx
    obtain ⟨h1, h2, h3, h4, h5⟩ := nackOctet18 ⟨nackSn % 4, by lia⟩ e1 e2 e3
    simp only at h1 h2 h3 h4 h5
    simp only [readNackSn, packNackSn, List.cons_append, List.nil_append, readByte_cons, ok_bind,
      pure_eq_ok, hlow]
    generalize (UInt8.ofNat (nackSn % 4 * 64 ||| (if e1 = true then 32 else 0) |||
      (if e2 = true then 16 else 0) ||| (if e3 = true then 8 else 0))).toNat = octet
      at h1 h2 h3 h4 h5 ⊢
    simp only [h1, h2, h3, h4, h5, toNat_ofNat_uint8, and_ff, Nat.shiftRight_eq_div_pow]
    rw [Nat.or_assoc, shiftLeft_or_of_lt (i := 2) _ (by omega), shiftLeft_or_of_lt _ (by lia)]
    congr 3
    omega

theorem readSo_pack {so : Option SoRange} (hs : ∀ r, so = some r → r.soStart < 2 ^ 16)
    (he : ∀ r, so = some r → r.soEnd < 2 ^ 16) (rest : List UInt8) :
    readSo so.isSome (packSo so ++ rest) = .ok (some (so, rest)) := by
  have hword : ∀ x, x < 2 ^ 16 → ((x / 256 % 256) <<< 8) ||| (x % 256) = x := by
    intro x hx
    rw [shiftLeft_or_of_lt _ (by omega)]
    lia
  cases so with
  | none => simp [readSo, packSo]
  | some r =>
    have hlen : ¬ (packSo (some r) ++ rest).length < sizeofNackSo := by
      simp [packSo, sizeofNackSo]
    simp only [readSo, Option.isSome_some, if_true, if_neg hlen]
    simp only [packSo, List.cons_append, List.nil_append, readByte_cons, ok_bind, pure_eq_ok,
      toNat_ofNat_uint8, Nat.shiftRight_eq_div_pow, Nat.reducePow, hword _ (hs r rfl),
      hword _ (he r rfl)]

theorem readRange_pack {range : Option Nat} (h : ∀ r, range = some r → r < 2 ^ 8)
    (rest : List UInt8) :
    readRange range.isSome (packRange range ++ rest) = .ok (some (range, rest)) := by
  cases range with
  | none => simp [readRange, packRange]
  | some r =>
    have hr := h r rfl
    have hlen : ¬ (packRange (some r) ++ rest).length < sizeofNackRange := by
      simp [packRange, sizeofNackRange]
    simp only [readRange, Option.isSome_some, if_true, if_neg hlen]
    simp only [packRange, List.cons_append, List.nil_append, readByte_cons, ok_bind, pure_eq_ok,
      toNat_ofNat_uint8]
    rw [Nat.mod_eq_of_lt (by omega)]

theorem readNack_pack (h : nack.Wf sz) (e1 : Bool) (rest : List UInt8) :
    readNack sz (packNackSn sz nack.nackSn e1 nack.so.isSome nack.nackRange.isSome ++
      (packSo nack.so ++ (packRange nack.nackRange ++ rest))) = .ok (some (nack, e1, rest)) := by
  have hlen : ¬ (packNackSn sz nack.nackSn e1 nack.so.isSome nack.nackRange.isSome ++
      (packSo nack.so ++ (packRange nack.nackRange ++ rest))).length < sizeofNackSnExt sz := by
    rw [List.length_append, packNackSn_length]
    omega
  have hs : ∀ r, nack.so = some r → r.soStart < 2 ^ 16 := fun r hr => by
    simpa [soStart, hr] using h.soStart_lt
  have he : ∀ r, nack.so = some r → r.soEnd < 2 ^ 16 := fun r hr => by
    simpa [soEnd, hr] using h.soEnd_lt
  have hrange : ∀ r, nack.nackRange = some r → r < 2 ^ 8 := fun r hr => by
    simpa [rangeLen, hr] using h.rangeLen_lt
  rw [readNack, if_neg hlen, readNackSn_pack h.nackSn_lt]
  simp only [ok_bind, Bool.false_eq_true, if_false, readSo_pack hs he, readRange_pack hrange,
    pure_eq_ok]

variable {nacks : List RlcAmStatusNack}

theorem unpackNacks_pack (hwf : ∀ n ∈ nacks, n.Wf sz)
    (hne : nacks ≠ []) {fuel : Nat} (hfuel : nacks.length ≤ fuel) (s : RlcAmStatusPdu)
    (hsz : s.snSize = sz) :
    unpackNacks fuel s (packNacks sz nacks) = .ok (some (nacks.foldl pushNack s)) := by
  induction nacks generalizing fuel s with
  | nil => exact absurd rfl hne
  | cons nack rest ih =>
    cases fuel with
    | zero => simp at hfuel
    | succ fuel =>
      rw [packNacks, unpackNacks, hsz, readNack_pack (hwf nack List.mem_cons_self)]
      simp only [ok_bind, List.foldl_cons]
      cases hrest : rest with
      | nil => simp
      | cons n ns =>
        rw [← hrest]
        have hr : rest ≠ [] := by simp [hrest]
        simp only [List.isEmpty_eq_false_iff.mpr hr, Bool.not_false, if_true]
        refine ih (fun n hn => hwf n (List.mem_cons_of_mem _ hn)) hr ?_ _ (by simpa using hsz)
        simpa using hfuel

def Unmergeable (m : Nat) (nacks : List RlcAmStatusNack) : Prop :=
  nacks.IsChain (fun a b => canBeMerged m a b = false)

theorem canBeMerged_mergeNack {before : RlcAmStatusNack} {m : Nat}
    (hb : canBeMerged m before prev = false) (hm : canBeMerged m prev nack = true) :
    canBeMerged m before (mergeNack prev nack) = false := by
  obtain ⟨-, -, -, hlen⟩ := canBeMerged_iff.mp hm
  rw [← Bool.not_eq_true, canBeMerged_iff] at hb ⊢
  rw [mergeNack_rangeLen hlen, mergeNack_soStart, mergeNack_nackSn]
  rintro ⟨h1, h2, h3, h4⟩
  exact hb ⟨h1, h2, h3, by omega⟩

theorem pushed_unmergeable {m : Nat} {nacks : List RlcAmStatusNack} (h : Unmergeable m nacks)
    (nack : RlcAmStatusNack) : Unmergeable m (pushed m nacks nack) := by
  induction nacks using List.reverseRecOn with
  | nil => simp [Unmergeable]
  | append_singleton init prev _ =>
    rw [pushed_concat]
    split
    · rename_i hm
      rw [Unmergeable, List.isChain_append] at h ⊢
      refine ⟨h.1, List.IsChain.singleton _, ?_⟩
      intro before hbefore y hy
      cases hy
      exact canBeMerged_mergeNack (h.2.2 before hbefore prev rfl) hm
    · rename_i hm
      rw [Unmergeable, List.isChain_append]
      refine ⟨h, List.IsChain.singleton _, ?_⟩
      intro before hbefore y hy
      simp only [List.getLast?_append, List.getLast?_singleton, Option.some_or] at hbefore
      cases hbefore
      cases hy
      simpa using hm

theorem pushed_wf (h : ∀ n ∈ nacks, n.Wf sz) (hn : nack.Wf sz) :
    ∀ n ∈ pushed sz.mod nacks nack, n.Wf sz := by
  induction nacks using List.reverseRecOn with
  | nil => simpa using hn
  | append_singleton init prev _ =>
    rw [pushed_concat]
    have hp := h prev (by simp)
    have hinit : ∀ n ∈ init, n.Wf sz := fun n hm => h n (by simp [hm])
    split
    · rename_i hm
      exact List.forall_mem_append.mpr ⟨hinit, List.forall_mem_singleton.mpr (mergeNack_wf hp hn hm)⟩
    · exact List.forall_mem_append.mpr ⟨h, List.forall_mem_singleton.mpr hn⟩

structure Built (s : RlcAmStatusPdu) : Prop where
  sized : s.Sized
  wf : ∀ n ∈ s.nacks, n.Wf s.snSize
  unmergeable : Unmergeable s.snSize.mod s.nacks

theorem new_built (sz : RlcAmSnSize) : (new sz).Built where
  sized := rfl
  wf := by simp [new]
  unmergeable := by simp [new, Unmergeable]

theorem pushNack_built (h : s.Built) (hn : nack.Wf s.snSize) : (s.pushNack nack).Built where
  sized := pushNack_sized h.sized nack
  wf := by
    rw [pushNack_nacks, pushNack_snSize]
    exact pushed_wf h.wf hn
  unmergeable := by
    rw [pushNack_nacks, pushNack_snSize]
    exact pushed_unmergeable h.unmergeable nack

@[simp] theorem foldl_pushNack_snSize (nacks : List RlcAmStatusNack) (s : RlcAmStatusPdu) :
    (nacks.foldl pushNack s).snSize = s.snSize := by
  induction nacks generalizing s with
  | nil => rfl
  | cons nack rest ih => rw [List.foldl_cons, ih, pushNack_snSize]

@[simp] theorem foldl_pushNack_nacks (nacks : List RlcAmStatusNack) (s : RlcAmStatusPdu) :
    (nacks.foldl pushNack s).nacks = nacks.foldl (pushed s.snSize.mod) s.nacks := by
  induction nacks generalizing s with
  | nil => rfl
  | cons nack rest ih => rw [List.foldl_cons, ih, pushNack_snSize, pushNack_nacks, List.foldl_cons]

theorem foldl_pushNack_built (h : s.Built)
    (hwf : ∀ n ∈ nacks, n.Wf s.snSize) : (nacks.foldl pushNack s).Built := by
  induction nacks generalizing s with
  | nil => exact h
  | cons nack rest ih =>
    refine ih (pushNack_built h (hwf nack List.mem_cons_self)) ?_
    intro n hn
    rw [pushNack_snSize]
    exact hwf n (List.mem_cons_of_mem _ hn)

theorem foldl_pushNack_unmergeable (hun : Unmergeable s.snSize.mod (s.nacks ++ nacks)) :
    nacks.foldl pushNack s =
      { s with nacks := s.nacks ++ nacks
               packedSize := s.packedSize + nacksSize s.snSize nacks } := by
  induction nacks generalizing s with
  | nil => simp
  | cons nack rest ih =>
    have hpush : s.pushNack nack = s.pushBack nack := by
      cases hl : s.nacks.getLast? with
      | none => simp [pushNack, hl]
      | some prev =>
        rw [Unmergeable, List.isChain_append] at hun
        have hm := hun.2.2 prev (by simp [hl]) nack rfl
        simp [pushNack, hl, modNr, hm]
    rw [List.foldl_cons, hpush, ih]
    · simp [pushBack, List.append_assoc, Nat.add_assoc]
    · simpa [pushBack] using hun

theorem Built.unpack_pack (h : s.Built) (hack : s.ackSn < s.snSize.mod) :
    unpack s.snSize s.pack = .ok (some s) := by
  obtain ⟨sz, nacks, packedSize, ackSn⟩ := s
  obtain ⟨hsized, hwf, hun⟩ := h
  simp only at hack hwf hun
  have hpack : (RlcAmStatusPdu.mk sz nacks packedSize ackSn).pack =
      packAckSn sz ackSn (!nacks.isEmpty) ++ packNacks sz nacks := by
    rw [pack_eq_packAs, packAs]
  -- D/C and CPT are zero in the first octet
  have hoctet : ∃ octet tail, packAckSn sz ackSn (!nacks.isEmpty) ++ packNacks sz nacks =
      octet :: tail ∧ octet.toNat < 16 := by
    cases sz with
    | size12bits =>
      refine ⟨_, _, rfl, ?_⟩
      simp only [Nat.zero_or, and_0f, toNat_ofNat_uint8]
      omega
    | size18bits =>
      refine ⟨_, _, rfl, ?_⟩
      simp only [Nat.zero_or, and_0f, toNat_ofNat_uint8]
      lia
  obtain ⟨octet, tail, hcons, hlt⟩ := hoctet
  have hlen : ¬ (packAckSn sz ackSn (!nacks.isEmpty) ++ packNacks sz nacks).length <
      sizeofHeaderAckSn := by
    rw [List.length_append]
    cases sz <;> simp [packAckSn, sizeofHeaderAckSn]
  have hdc : octet.toNat >>> 7 = 0 := by
    rw [Nat.shiftRight_eq_div_pow]
    omega
  have hcpt : octet.toNat >>> 4 = 0 := by
    rw [Nat.shiftRight_eq_div_pow]
    lia
  rw [unpack_eq_unpackAs, hpack, unpackAs, if_neg hlen, isControlPdu, hcons]
  simp only [readByte_cons, ok_bind, pure_eq_ok, hdc, hcpt, Nat.zero_and, beq_self_eq_true,
    Bool.not_true, Bool.false_eq_true, if_false, ne_eq, not_true_eq_false]
  rw [← hcons, readAckSn_pack hack]
  simp only [ok_bind, Bool.false_eq_true, if_false]
  cases hn : nacks with
  | nil =>
    subst hn
    have hp : packedSize = sizeofHeaderAckSn := by simpa [Sized] using hsized
    simp [new, hp]
  | cons n ns =>
    rw [← hn]
    have hne : nacks ≠ [] := by simp [hn]
    simp only [List.isEmpty_eq_false_iff.mpr hne, Bool.not_false, if_true]
    have hfuel : nacks.length ≤ (packAckSn sz ackSn true ++ packNacks sz nacks).length := by
      rw [List.length_append, packNacks_length]
      have := length_le_nacksSize sz nacks
      omega
    rw [unpackNacks_pack hwf hne hfuel _ rfl, foldl_pushNack_unmergeable]
    · simp only [Sized] at hsized
      simp [new, hsized]
    · simpa [new] using hun

theorem shiftLeft_lt {x i n : Nat} (h : x < 2 ^ n) : x <<< i < 2 ^ (n + i) := by
  rw [Nat.shiftLeft_eq, Nat.pow_add]
  exact Nat.mul_lt_mul_of_pos_right h (Nat.two_pow_pos i)

theorem readNackSn_total {pdu : List UInt8} (h : sizeofNackSnExt sz ≤ pdu.length) :
    ∃ ext rest, readNackSn sz pdu = .ok (ext, rest) ∧ rest.length < pdu.length ∧
      ext.nackSn < sz.mod := by
  cases sz with
  | size12bits =>
    obtain _ | ⟨b0, _ | ⟨b1, rest⟩⟩ := pdu
    · simp [sizeofNackSnExt] at h
    · simp [sizeofNackSnExt] at h
    · refine ⟨_, rest, rfl, by simp only [List.length_cons]; omega, ?_⟩
      have h0 := b0.toNat_lt
      have h1 := b1.toNat_lt
      apply Nat.or_lt_two_pow (n := 12)
      · rw [and_ff]
        exact shiftLeft_lt (n := 8) (by omega)
      · rw [Nat.shiftRight_eq_div_pow]
        have := Nat.and_le_left (n := b1.toNat) (m := 0xf0)
        omega
  | size18bits =>
    obtain _ | ⟨b0, _ | ⟨b1, _ | ⟨b2, rest⟩⟩⟩ := pdu
    · simp [sizeofNackSnExt] at h
    · simp [sizeofNackSnExt] at h
    · simp [sizeofNackSnExt] at h
    · refine ⟨_, rest, rfl, by simp only [List.length_cons]; omega, ?_⟩
      have h0 := b0.toNat_lt
      have h1 := b1.toNat_lt
      have h2 := b2.toNat_lt
      apply Nat.or_lt_two_pow (n := 18)
      · apply Nat.or_lt_two_pow
        · rw [and_ff]
          exact shiftLeft_lt (n := 8) (by omega)
        · have := shiftLeft_lt (x := b1.toNat &&& 0xff) (i := 2) (n := 8) (by rw [and_ff]; omega)
          omega
      · rw [Nat.shiftRight_eq_div_pow]
        have := Nat.and_le_left (n := b2.toNat) (m := 0xc0)
        omega

theorem readSo_total (e2 : Bool) (pdu : List UInt8) :
    ∃ res, readSo e2 pdu = .ok res ∧ ∀ so rest, res = some (so, rest) →
      rest.length ≤ pdu.length ∧ ∀ r, so = some r → r.soStart < 2 ^ 16 ∧ r.soEnd < 2 ^ 16 := by
  cases e2 with
  | false => exact ⟨_, rfl, by simp⟩
  | true =>
    by_cases h : pdu.length < sizeofNackSo
    · exact ⟨none, by simp [readSo, h], by simp⟩
    · obtain _ | ⟨b0, _ | ⟨b1, _ | ⟨b2, _ | ⟨b3, tail⟩⟩⟩⟩ := pdu
      · simp [sizeofNackSo] at h
      · simp [sizeofNackSo] at h
      · simp [sizeofNackSo] at h
      · simp [sizeofNackSo] at h
      · have hword : ∀ x y : UInt8, (x.toNat <<< 8) ||| y.toNat < 2 ^ 16 := by
          intro x y
          have hx := x.toNat_lt
          have hy := y.toNat_lt
          exact Nat.or_lt_two_pow (shiftLeft_lt (n := 8) hx) (by omega)
        refine ⟨_, by simp only [readSo, if_true, if_neg h]; rfl, ?_⟩
        intro so rest heq
        cases heq
        refine ⟨by simp only [List.length_cons]; omega, ?_⟩
        intro r hr
        cases hr
        exact ⟨hword b0 b1, hword b2 b3⟩

theorem readRange_total (e3 : Bool) (pdu : List UInt8) :
    ∃ res, readRange e3 pdu = .ok res ∧ ∀ range rest, res = some (range, rest) →
      rest.length ≤ pdu.length ∧ ∀ r, range = some r → r < 2 ^ 8 := by
  cases e3 with
  | false => exact ⟨_, rfl, by simp⟩
  | true =>
    by_cases h : pdu.length < sizeofNackRange
    · exact ⟨none, by simp [readRange, h], by simp⟩
    · obtain _ | ⟨b, tail⟩ := pdu
      · simp [sizeofNackRange] at h
      · refine ⟨_, by simp only [readRange, if_true, if_neg h]; rfl, ?_⟩
        intro range rest heq
        cases heq
        refine ⟨by simp, ?_⟩
        intro r hr
        cases hr
        exact b.toNat_lt

theorem readNack_total (sz : RlcAmSnSize) (pdu : List UInt8) :
    ∃ res, readNack sz pdu = .ok res ∧ ∀ nack e1 rest, res = some (nack, e1, rest) →
      rest.length < pdu.length ∧ nack.Wf sz := by
  unfold readNack
  by_cases hlen : pdu.length < sizeofNackSnExt sz
  · exact ⟨none, by simp [hlen], by simp⟩
  · obtain ⟨ext, r1, h1, hl1, hsn⟩ := readNackSn_total (Nat.le_of_not_lt hlen)
    rw [if_neg hlen, h1]
    simp only [ok_bind]
    by_cases hres : ext.reserved = true
    · exact ⟨none, by simp [hres], by simp⟩
    · rw [if_neg hres]
      obtain ⟨so, h2, hso⟩ := readSo_total ext.e2 r1
      rw [h2]
      simp only [ok_bind]
      cases so with
      | none => exact ⟨none, rfl, by simp⟩
      | some so =>
        obtain ⟨so, r2⟩ := so
        obtain ⟨hl2, hso⟩ := hso so r2 rfl
        obtain ⟨range, h3, hrange⟩ := readRange_total ext.e3 r2
        simp only [h3, ok_bind]
        cases range with
        | none => exact ⟨none, rfl, by simp⟩
        | some range =>
          obtain ⟨range, r3⟩ := range
          obtain ⟨hl3, hrange⟩ := hrange range r3 rfl
          refine ⟨_, rfl, ?_⟩
          intro nack e1 rest heq
          cases heq
          refine ⟨by omega, hsn, ?_, ?_, ?_⟩
          · cases so with
            | none => simp [soStart]
            | some r => simpa [soStart] using (hso r rfl).1
          · cases so with
            | none => simp [soEnd, soEndOfSdu]
            | some r => simpa [soEnd] using (hso r rfl).2
          · cases range with
            | none => simp [rangeLen]
            | some r => simpa [rangeLen] using hrange r rfl

def nackFields (sz : RlcAmSnSize) : Nat → List UInt8 → List RlcAmStatusNack
  | 0, _ => []
  | fuel + 1, pdu =>
    match readNack sz pdu with
    | .ok (some (nack, e1, rest)) => nack :: if e1 then nackFields sz fuel rest else []
    | _ => []

def wireNacks (sz : RlcAmSnSize) (pdu : List UInt8) : List RlcAmStatusNack :=
  match readAckSn sz pdu with
  | .ok (ack, rest) => if ack.e1 then nackFields sz pdu.length rest else []
  | .error _ => []

theorem nackFields_wf (fuel : Nat) (pdu : List UInt8) :
    ∀ nack ∈ nackFields sz fuel pdu, nack.Wf sz := by
  induction fuel generalizing pdu with
  | zero => simp [nackFields]
  | succ fuel ih =>
    obtain ⟨res, hres, hok⟩ := readNack_total sz pdu
    rw [nackFields, hres]
    cases res with
    | none => simp
    | some r =>
      obtain ⟨nack, e1, rest⟩ := r
      have hwf := (hok nack e1 rest rfl).2
      cases e1 with
      | false => simpa using hwf
      | true => simpa using ⟨hwf, ih rest⟩

theorem wireNacks_wf (sz : RlcAmSnSize) (pdu : List UInt8) :
    ∀ nack ∈ wireNacks sz pdu, nack.Wf sz := by
  unfold wireNacks
  split
  · split
    · exact nackFields_wf _ _
    · simp
  · simp

theorem unpackNacks_total {fuel : Nat} {pdu : List UInt8} (hfuel : pdu.length < fuel)
    (s : RlcAmStatusPdu) :
    ∃ res, unpackNacks fuel s pdu = .ok res ∧
      ∀ s', res = some s' → s' = (nackFields s.snSize fuel pdu).foldl pushNack s := by
  induction fuel generalizing pdu s with
  | zero => omega
  | succ fuel ih =>
    obtain ⟨res, hres, hok⟩ := readNack_total s.snSize pdu
    rw [unpackNacks, nackFields, hres]
    simp only [ok_bind]
    cases res with
    | none => exact ⟨none, rfl, by simp⟩
    | some r =>
      obtain ⟨nack, e1, rest⟩ := r
      have hlt := (hok nack e1 rest rfl).1
      cases e1 with
      | false => exact ⟨_, rfl, by simp⟩
      | true =>
        have hfuel' : rest.length < fuel := by omega
        obtain ⟨res, hres, hnext⟩ := ih hfuel' (s.pushNack nack)
        refine ⟨res, by simpa using hres, ?_⟩
        intro s' hs'
        rw [pushNack_snSize] at hnext
        simpa using hnext s' hs'

theorem unpackAs_total (sz : RlcAmSnSize) (pdu : List UInt8) :
    ∃ res, unpackAs sz pdu = .ok res ∧ ∀ s, res = some s →
      s.snSize = sz ∧ s.nacks = (wireNacks sz pdu).foldl (pushed sz.mod) [] := by
  unfold unpackAs
  by_cases hlen : pdu.length < sizeofHeaderAckSn
  · exact ⟨none, by simp [hlen], by simp⟩
  · rw [if_neg hlen]
    obtain _ | ⟨b0, _ | ⟨b1, _ | ⟨b2, rest⟩⟩⟩ := pdu
    · simp [sizeofHeaderAckSn] at hlen
    · simp [sizeofHeaderAckSn] at hlen
    · simp [sizeofHeaderAckSn] at hlen
    · obtain ⟨ack, hack⟩ : ∃ ack, readAckSn sz (b0 :: b1 :: b2 :: rest) = .ok (ack, rest) := by
        cases sz <;> exact ⟨_, rfl⟩
      simp only [isControlPdu, readByte_cons, ok_bind, pure_eq_ok, hack]
      split
      · exact ⟨none, rfl, by simp⟩
      · split
        · exact ⟨none, rfl, by simp⟩
        · split
          · exact ⟨none, rfl, by simp⟩
          · rw [wireNacks, hack]
            cases he : ack.e1 with
            | false =>
              refine ⟨_, by simp only [Bool.false_eq_true, if_false]; rfl, ?_⟩
              intro s hs
              cases hs
              simp [he, new]
            | true =>
              have hfuel : rest.length < (b0 :: b1 :: b2 :: rest).length := by
                simp only [List.length_cons]
                omega
              obtain ⟨res, hres, hnext⟩ :=
                unpackNacks_total hfuel { new sz with ackSn := ack.ackSn }
              refine ⟨res, by simpa using hres, ?_⟩
              intro s hs
              rw [hnext s hs]
              simp [he, new]

theorem unpack_wf {pdu : List UInt8} {s : RlcAmStatusPdu} (h : unpack sz pdu = .ok (some s)) :
    ∀ nack ∈ s.nacks, nack.Wf sz := by
  obtain ⟨res, hres, hok⟩ := unpackAs_total sz pdu
  rw [unpack_eq_unpackAs, hres] at h
  rw [(hok s (by simpa using h)).2]
  have hfold : ∀ (fields init : List RlcAmStatusNack), (∀ nack ∈ fields, nack.Wf sz) →
      (∀ nack ∈ init, nack.Wf sz) → ∀ nack ∈ fields.foldl (pushed sz.mod) init, nack.Wf sz := by
    intro fields
    induction fields with
    | nil => exact fun init _ hinit => hinit
    | cons field rest ih =>
      intro init hf hinit
      refine ih _ (fun nack hn => hf nack (List.mem_cons_of_mem _ hn)) ?_
      exact pushed_wf hinit (hf field List.mem_cons_self)
  exact hfold _ [] (wireNacks_wf sz pdu) (by simp)

/-- A PDU built by `push_nack` takes the size accounted for and survives the codec; any bytes unpack
without a fault, to the spans of the NACK fields on the wire as long as no merge is lossy. -/
theorem status_pdu_codec (sz : RlcAmSnSize) :
    (∀ (nacks : List RlcAmStatusNack) (ackSn : Nat), (∀ nack ∈ nacks, nack.Wf sz) →
      ackSn < sz.mod →
      let s := { nacks.foldl pushNack (new sz) with ackSn := ackSn }
      s.pack.length = s.getPackedSize ∧ unpack sz s.pack = .ok (some s)) ∧
    ∀ pdu : List UInt8, (∃ res, unpack sz pdu = .ok res) ∧
      ∀ s, unpack sz pdu = .ok (some s) →
        (spans sz.mod s.nacks = spans sz.mod (wireNacks sz pdu) ↔
          LosslessMerges sz.mod none (wireNacks sz pdu)) ∧
        (LosslessMerges sz.mod none (wireNacks sz pdu) →
          Missing sz.mod s.nacks = Missing sz.mod (wireNacks sz pdu)) := by
  constructor
  · intro nacks ackSn hwf hack s
    have hbuilt := foldl_pushNack_built (new_built sz) hwf
    have hsz : s.snSize = sz := foldl_pushNack_snSize nacks (new sz)
    have hs : s.Built := ⟨hbuilt.sized, hbuilt.wf, hbuilt.unmergeable⟩
    refine ⟨pack_length hs.sized, ?_⟩
    have hround := hs.unpack_pack (by rw [hsz]; exact hack)
    rwa [hsz] at hround
  · intro pdu
    obtain ⟨res, hres, hok⟩ := unpackAs_total sz pdu
    rw [unpack_eq_unpackAs]
    refine ⟨⟨res, hres⟩, ?_⟩
    intro s hs
    rw [hres] at hs
    obtain ⟨-, hnacks⟩ := hok s (by simpa using hs)
    have hiff := spans_foldl (wireNacks_wf sz pdu)
    rw [← hnacks] at hiff
    refine ⟨hiff, ?_⟩
    intro hl
    rw [missing_eq_spans, missing_eq_spans, hiff.mpr hl]

/-- Three NACKs for SNs 5 to 7 are merged, and the fields `[5][6 r1]` unpack to a range. -/
theorem status_pdu_codec_merged :
    unpack .size12bits (pack ⟨.size12bits, [⟨5, some ⟨0, 9⟩, some 3⟩], 10, 9⟩) =
      .ok (some ⟨.size12bits, [⟨5, some ⟨0, 9⟩, some 3⟩], 10, 9⟩) ∧
    Missing RlcAmSnSize.size12bits.mod [⟨5, none, some 2⟩] =
      Missing RlcAmSnSize.size12bits.mod [⟨5, none, none⟩, ⟨6, none, some 1⟩] := by
  have hcodec := status_pdu_codec .size12bits
  constructor
  · refine (hcodec.1 [⟨5, none, none⟩, ⟨6, none, none⟩, ⟨7, some ⟨0, 9⟩, none⟩] 9 ?_
      (by decide)).2
    intro nack hn
    simp only [List.mem_cons, List.not_mem_nil, or_false] at hn
    rcases hn with rfl | rfl | rfl <;> constructor <;> decide
  · exact ((hcodec.2 [0x00, 0x07, 0x80, 0x00, 0x58, 0x00, 0x62, 0x01]).2
      ⟨.size12bits, [⟨5, none, some 2⟩], 6, 7⟩ (by decide)).2 (by decide)

/-- A NACK for the rest of SN 5 and a NACK range of length zero for SN 6: merging them cuts
the missing bytes of SN 5 off at byte 10. -/
theorem zero_range_loses_bytes :
    ¬ ∀ (sz : RlcAmSnSize) (pdu : List UInt8) (s : RlcAmStatusPdu),
      unpack sz pdu = .ok (some s) →
        Missing sz.mod s.nacks = Missing sz.mod (wireNacks sz pdu) := by
  intro h
  have hset := h .size12bits
    [0x00, 0x07, 0x80, 0x00, 0x5c, 0x00, 0x03, 0xff, 0xff, 0x00, 0x66, 0x00, 0x00, 0x00, 0x0a, 0x00]
    ⟨.size12bits, [⟨5, some ⟨3, 10⟩, some 1⟩], 10, 7⟩ (by decide)
  have hwire : wireNacks .size12bits [0x00, 0x07, 0x80, 0x00, 0x5c, 0x00, 0x03, 0xff, 0xff, 0x00,
      0x66, 0x00, 0x00, 0x00, 0x0a, 0x00] =
      [⟨5, some ⟨3, 0xffff⟩, none⟩, ⟨6, some ⟨0, 10⟩, some 0⟩] := by decide
  rw [hwire, missing_eq_spans, missing_eq_spans] at hset
  have hin : ((5, 11) : Nat × Nat) ∈ { x | ∃ s ∈ spans RlcAmSnSize.size12bits.mod
      [⟨5, some ⟨3, 0xffff⟩, none⟩, ⟨6, some ⟨0, 10⟩, some 0⟩], s.Covers x } :=
    ⟨⟨5, 3, 0xffff⟩, by decide, rfl, by decide, Or.inl rfl⟩
  rw [← hset] at hin
  obtain ⟨s, hs, hcov⟩ := hin
  have hspan : spans RlcAmSnSize.size12bits.mod [⟨5, some ⟨3, 10⟩, some 1⟩] = [⟨5, 3, 10⟩] := by
    decide
  rw [hspan, List.mem_singleton] at hs
  subst hs
  simp [Span.Covers, soEndOfSdu] at hcov

end Ocudu.Rlc.RlcAmStatusPdu
