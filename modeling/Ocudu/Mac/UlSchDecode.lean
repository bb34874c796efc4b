import Ocudu.Mac.UlSchPdu

/-! Which PDUs of the uplink are decoded safely. The bytes of a PDU are described by a grammar that does not
mention the decoder. -/

namespace Ocudu.Mac

open LcidUlSch

inductive SubpduBytes : List UInt8 → Prop
  | short {b l : UInt8} {payload : List UInt8} (hlen : hasLengthField (lcidOf b) = true) (hf : fBitOf b = false)
      (hpayload : payload.length = l.toNat) : SubpduBytes (b :: l :: payload)
  | long {b h l : UInt8} {payload : List UInt8} (hlen : hasLengthField (lcidOf b) = true) (hf : fBitOf b = true)
      (hpayload : payload.length = h.toNat * 256 + l.toNat) : SubpduBytes (b :: h :: l :: payload)
  | fixed {b : UInt8} {payload : List UInt8} (hvalid : isValidLcid (lcidOf b) = true)
      (hlen : hasLengthField (lcidOf b) = false) (hpad : lcidOf b ≠ padding)
      (hpayload : payload.length = sizeofCe (lcidOf b)) : SubpduBytes (b :: payload)

inductive SubpduSeq : Nat → List UInt8 → Prop
  | nil : SubpduSeq 0 []
  | cons {n : Nat} {l bytes : List UInt8} : SubpduBytes l → SubpduSeq n bytes → SubpduSeq (n + 1) (l ++ bytes)

inductive StartsEmptyLongBsr : List UInt8 → Prop
  | short {b : UInt8} {rest : List UInt8} (hlcid : isVarLenCe (lcidOf b) = true) (hf : fBitOf b = false) :
    StartsEmptyLongBsr (b :: 0 :: rest)
  | long {b : UInt8} {rest : List UInt8} (hlcid : isVarLenCe (lcidOf b) = true) (hf : fBitOf b = true) :
    StartsEmptyLongBsr (b :: 0 :: 0 :: rest)

/-- One of the first `room` subPDUs is a long BSR whose length field is zero. -/
def HasEmptyLongBsr (room : Nat) (payload : List UInt8) : Prop :=
  ∃ n before rest, n < room ∧ SubpduSeq n before ∧ StartsEmptyLongBsr rest ∧ payload = before ++ rest

def UlSubpdu.bytes (subpdu : UlSubpdu) : List UInt8 := subpdu.header ++ subpdu.payload

def UlSubpdu.EmptyLong (subpdu : UlSubpdu) : Prop := isVarLenCe subpdu.lcid = true ∧ subpdu.payload = []

def UlSubpdu.Sized (subpdu : UlSubpdu) : Prop :=
  hasLengthField subpdu.lcid = false → subpdu.lcid ≠ padding → subpdu.payload.length = sizeofCe subpdu.lcid

theorem hasLengthField_of_isVarLenCe {lcid : Nat} (h : isVarLenCe lcid = true) : hasLengthField lcid = true := by
  simp only [isVarLenCe, Bool.or_eq_true, decide_eq_true_eq] at h
  rcases h with rfl | rfl
  · rfl
  · rfl

theorem isValidLcid_of_hasLengthField {lcid : Nat} (h : hasLengthField lcid = true) : isValidLcid lcid = true := by
  simp only [hasLengthField, isSdu, isVarLenCe] at h
  split_ifs at h
  simp only [Bool.or_eq_true, Bool.and_eq_true, decide_eq_true_eq] at h
  simp only [isValidLcid, Bool.or_eq_true, Bool.and_eq_true, decide_eq_true_eq]
  unfold longTruncBsr longBsr lcid32 lcid1 at h
  unfold padding minReserved maxReserved
  omega

theorem startsEmptyLongBsr_short {b l : UInt8} {rest : List UInt8} (hf : fBitOf b = false) :
    StartsEmptyLongBsr (b :: l :: rest) ↔ isVarLenCe (lcidOf b) = true ∧ l = 0 := by
  constructor
  · intro h
    cases h with
    | short hlcid => exact ⟨hlcid, rfl⟩
    | long hlcid hf' => exact absurd (hf.symm.trans hf') Bool.false_ne_true
  · rintro ⟨hlcid, rfl⟩
    exact .short hlcid hf

theorem startsEmptyLongBsr_long {b h l : UInt8} {rest : List UInt8} (hf : fBitOf b = true) :
    StartsEmptyLongBsr (b :: h :: l :: rest) ↔ isVarLenCe (lcidOf b) = true ∧ h = 0 ∧ l = 0 := by
  constructor
  · intro h
    cases h with
    | short hlcid hf' => exact absurd (hf'.symm.trans hf) Bool.false_ne_true
    | long hlcid => exact ⟨hlcid, rfl, rfl⟩
  · rintro ⟨hlcid, rfl, rfl⟩
    exact .long hlcid hf

theorem StartsEmptyLongBsr.hasLengthField {b : UInt8} {rest : List UInt8} (h : StartsEmptyLongBsr (b :: rest)) :
    hasLengthField (lcidOf b) = true := by
  cases h with
  | short hlcid => exact hasLengthField_of_isVarLenCe hlcid
  | long hlcid => exact hasLengthField_of_isVarLenCe hlcid

theorem emptyLong_iff_of_fixed {subpdu : UlSubpdu} {b : UInt8} {rest : List UInt8} (hlcid : subpdu.lcid = lcidOf b)
    (hlen : ¬hasLengthField (lcidOf b) = true) : subpdu.EmptyLong ↔ StartsEmptyLongBsr (b :: rest) := by
  refine ⟨fun h => absurd ?_ hlen, fun h => absurd h.hasLengthField hlen⟩
  rw [← hlcid]
  exact hasLengthField_of_isVarLenCe h.1

theorem splitPayload_ok {lcid n : Nat} {fBit : Bool} {header reader rest : List UInt8}
    {error : Nat → Nat → UlUnpackError} {subpdu : UlSubpdu}
    (h : splitPayload lcid fBit header reader n error = .ok (subpdu, rest)) :
    subpdu.lcid = lcid ∧ subpdu.header = header ∧ subpdu.payload.length = n ∧ reader = subpdu.payload ++ rest := by
  unfold splitPayload at h
  split_ifs at h with hlen
  cases h
  refine ⟨rfl, rfl, ?_, (List.take_append_drop n reader).symm⟩
  change (reader.take n).length = n
  rw [List.length_take]
  omega

theorem splitPayload_append {lcid n : Nat} {fBit : Bool} {header payload rest : List UInt8}
    {error : Nat → Nat → UlUnpackError} (h : payload.length = n) :
    ∃ subpdu, splitPayload lcid fBit header (payload ++ rest) n error = .ok (subpdu, rest) := by
  unfold splitPayload
  rw [if_neg (by rw [List.length_append]; omega), List.drop_left' h]
  exact ⟨_, rfl⟩

structure Unpacks (reader : List UInt8) (subpdu : UlSubpdu) (rest : List UInt8) : Prop where
  bytes : reader = subpdu.bytes ++ rest
  nonempty : subpdu.bytes ≠ []
  sized : subpdu.Sized
  format : SubpduBytes subpdu.bytes ∨ rest = []
  emptyLong : subpdu.EmptyLong ↔ StartsEmptyLongBsr reader

theorem unpackSubpdu_sound {reader rest : List UInt8} {subpdu : UlSubpdu}
    (h : unpackSubpdu reader = .ok (subpdu, rest)) : Unpacks reader subpdu rest := by
  match reader, h with
  | b :: reader, h =>
    simp only [unpackSubpdu] at h
    split_ifs at h with hvalid hlen hpad
    · cases hf : fBitOf b with
      | false =>
        match reader, h with
        | [], h =>
          rw [hf] at h
          cases h
        | l :: reader, h =>
          rw [hf] at h
          obtain ⟨hlcid, hheader, hpayload, rfl⟩ := splitPayload_ok h
          have hbytes : subpdu.bytes = b :: l :: subpdu.payload := by
            rw [UlSubpdu.bytes, hheader]
            rfl
          refine ⟨by rw [hbytes]; rfl, by simp [hbytes], fun hc => ?_, .inl ?_, ?_⟩
          · rw [hlcid, hlen] at hc
            cases hc
          · rw [hbytes]
            exact .short hlen hf hpayload
          · rw [UlSubpdu.EmptyLong, startsEmptyLongBsr_short hf, hlcid, ← List.length_eq_zero_iff, hpayload]
            exact and_congr_right fun _ => UInt8.toNat_inj (b := 0)
      | true =>
        match reader, h with
        | [], h =>
          rw [hf] at h
          cases h
        | [_], h =>
          rw [hf] at h
          cases h
        | hd :: l :: reader, h =>
          rw [hf] at h
          obtain ⟨hlcid, hheader, hpayload, rfl⟩ := splitPayload_ok h
          have hbytes : subpdu.bytes = b :: hd :: l :: subpdu.payload := by
            rw [UlSubpdu.bytes, hheader]
            rfl
          have hzero : hd.toNat * 256 + l.toNat = 0 ↔ hd = 0 ∧ l = 0 := by
            rw [← UInt8.toNat_inj (b := 0), ← UInt8.toNat_inj (b := 0)]
            change _ ↔ hd.toNat = 0 ∧ l.toNat = 0
            omega
          refine ⟨by rw [hbytes]; rfl, by simp [hbytes], fun hc => ?_, .inl ?_, ?_⟩
          · rw [hlcid, hlen] at hc
            cases hc
          · rw [hbytes]
            exact .long hlen hf hpayload
          · rw [UlSubpdu.EmptyLong, startsEmptyLongBsr_long hf, hlcid, ← List.length_eq_zero_iff, hpayload, hzero]
    · cases h
      exact ⟨by simp [UlSubpdu.bytes], by simp [UlSubpdu.bytes], fun _ hc => absurd hpad hc, .inr rfl,
        emptyLong_iff_of_fixed rfl hlen⟩
    · obtain ⟨hlcid, hheader, hpayload, rfl⟩ := splitPayload_ok h
      have hbytes : subpdu.bytes = b :: subpdu.payload := by
        rw [UlSubpdu.bytes, hheader]
        rfl
      refine ⟨by rw [hbytes]; rfl, by simp [hbytes], fun _ _ => hlcid ▸ hpayload, .inl ?_,
        emptyLong_iff_of_fixed hlcid hlen⟩
      rw [hbytes]
      exact .fixed (by simpa using hvalid) (by simpa using hlen) hpad hpayload

theorem unpackSubpdu_complete {l rest : List UInt8} (h : SubpduBytes l) :
    ∃ subpdu, unpackSubpdu (l ++ rest) = .ok (subpdu, rest) := by
  cases h with
  | short hlen hf hpayload =>
    have hvalid := isValidLcid_of_hasLengthField hlen
    simp only [unpackSubpdu, List.cons_append, hvalid, hlen, hf]
    exact splitPayload_append hpayload
  | long hlen hf hpayload =>
    have hvalid := isValidLcid_of_hasLengthField hlen
    simp only [unpackSubpdu, List.cons_append, hvalid, hlen, hf]
    exact splitPayload_append hpayload
  | fixed hvalid hlen hpad hpayload =>
    simp only [unpackSubpdu, List.cons_append, hvalid, hlen, if_neg hpad]
    exact splitPayload_append hpayload

theorem not_hasEmptyLongBsr_nil (room : Nat) : ¬HasEmptyLongBsr room [] := by
  rintro ⟨n, before, rest, -, -, hrest, h⟩
  rw [(List.nil_eq_append_iff.mp h).2] at hrest
  cases hrest

theorem hasEmptyLongBsr_unpack {room : Nat} {reader rest : List UInt8} {subpdu : UlSubpdu}
    (h : unpackSubpdu reader = .ok (subpdu, rest)) :
    HasEmptyLongBsr (room + 1) reader ↔ subpdu.EmptyLong ∨ HasEmptyLongBsr room rest := by
  have hu := unpackSubpdu_sound h
  constructor
  · rintro ⟨n, before, tail, hn, hseq, hstart, rfl⟩
    cases hseq with
    | nil => exact .inl (hu.emptyLong.mpr hstart)
    | @cons n l bytes hl hseq =>
      rw [List.append_assoc] at h
      obtain ⟨subpdu', h'⟩ := @unpackSubpdu_complete l (bytes ++ tail) hl
      cases h.symm.trans h'
      exact .inr ⟨n, bytes, tail, Nat.lt_of_succ_lt_succ hn, hseq, hstart, rfl⟩
  · rintro (hempty | ⟨n, before, tail, hn, hseq, hstart, rfl⟩)
    · exact ⟨0, [], reader, Nat.succ_pos room, .nil, hu.emptyLong.mp hempty, rfl⟩
    · rcases hu.format with hbytes | hnil
      · refine ⟨n + 1, subpdu.bytes ++ before, tail, Nat.succ_lt_succ hn, .cons hbytes hseq, hstart, ?_⟩
        rw [hu.bytes, List.append_assoc]
      · rw [(List.append_eq_nil_iff.mp hnil).2] at hstart
        cases hstart

/-- What the loop adds to the subPDUs it has. -/
structure UnpacksAll (subpdus : List UlSubpdu) (reader : List UInt8) (new : List UlSubpdu) : Prop where
  sized : ∀ subpdu ∈ new, subpdu.Sized
  bytes : (subpdus ++ new).length < maxSubpdusPerPdu → new.flatMap UlSubpdu.bytes = reader
  emptyLong : (∃ subpdu ∈ new, subpdu.EmptyLong) ↔ HasEmptyLongBsr (maxSubpdusPerPdu - subpdus.length) reader

theorem unpackLoop_spec {turns : Nat} {reader : List UInt8} {subpdus : List UlSubpdu} (h : reader.length < turns) :
    (∃ e, unpackLoop turns reader subpdus = some (some e, [])) ∨
      ∃ new, unpackLoop turns reader subpdus = some (none, subpdus ++ new) ∧ UnpacksAll subpdus reader new := by
  induction turns generalizing reader subpdus with
  | zero => cases h
  | succ turns ih =>
    rw [unpackLoop]
    split_ifs with hnil hfull
    · refine .inr ⟨[], by rw [List.append_nil], by simp, fun _ => hnil.symm, ?_⟩
      rw [hnil]
      simp [not_hasEmptyLongBsr_nil]
    · refine .inr ⟨[], by rw [List.append_nil], by simp, fun hlt => ?_, ?_⟩
      · rw [List.append_nil] at hlt
        exact absurd hfull (not_le.mpr hlt)
      · rw [Nat.sub_eq_zero_of_le hfull]
        simp [HasEmptyLongBsr]
    · cases hsub : unpackSubpdu reader with
      | error e => exact .inl ⟨e, rfl⟩
      | ok p =>
        obtain ⟨subpdu, rest⟩ := p
        have hu := unpackSubpdu_sound hsub
        have hrest : rest.length < turns := by
          have hpos := List.length_pos_iff.mpr hu.nonempty
          rw [hu.bytes, List.length_append] at h
          omega
        obtain ⟨room, hroom⟩ : ∃ room, maxSubpdusPerPdu - subpdus.length = room + 1 :=
          Nat.exists_eq_succ_of_ne_zero (Nat.sub_ne_zero_of_lt (not_le.mp hfull))
        rcases ih hrest with ⟨e, he⟩ | ⟨new, hnew, hall⟩
        · exact .inl ⟨e, he⟩
        · refine .inr ⟨subpdu :: new, ?_, ?_, fun hlt => ?_, ?_⟩
          · simp only [hnew, List.append_assoc, List.singleton_append]
          · intro sub hmem
            rcases List.mem_cons.mp hmem with rfl | hmem
            · exact hu.sized
            · exact hall.sized sub hmem
          · rw [List.flatMap_cons, hall.bytes (by simpa using hlt), ← hu.bytes]
          · have hless : maxSubpdusPerPdu - (subpdus ++ [subpdu]).length = room := by
              rw [List.length_append, List.length_singleton]
              omega
            rw [hroom, hasEmptyLongBsr_unpack hsub, ← hless, ← hall.emptyLong, List.exists_mem_cons_iff]

def Safe {α : Type} (x : Except PayloadFault α) : Prop := ∃ a, x = .ok a

theorem Safe.pure {α : Type} (a : α) : Safe (Pure.pure a : Except PayloadFault α) := ⟨a, rfl⟩

theorem Safe.bind {α β : Type} {x : Except PayloadFault α} {f : α → Except PayloadFault β} (hx : Safe x)
    (hf : ∀ a, Safe (f a)) : Safe (x >>= f) := by
  obtain ⟨a, rfl⟩ := hx
  exact hf a

theorem Safe.ite {α : Type} {p : Prop} [Decidable p] {x y : Except PayloadFault α} (hx : p → Safe x)
    (hy : ¬p → Safe y) : Safe (if p then x else y) := by
  by_cases h : p
  · rw [if_pos h]
    exact hx h
  · rw [if_neg h]
    exact hy h

theorem safe_byteAt {payload : List UInt8} {i : Nat} : Safe (byteAt payload i) ↔ i < payload.length := by
  unfold byteAt Safe
  by_cases h : i < payload.length
  · rw [List.getElem?_eq_getElem h]
    exact iff_of_true ⟨_, rfl⟩ h
  · rw [List.getElem?_eq_none (not_lt.mp h)]
    exact iff_of_false (fun ⟨_, hc⟩ => by cases hc) h

theorem safe_decodeSbsr {payload : List UInt8} (h : payload.length = 1) : Safe (decodeSbsr payload) :=
  (safe_byteAt.mpr (h ▸ Nat.one_pos)).bind fun _ => .pure _

theorem safe_decodeSePhr {payload : List UInt8} (h : payload.length = 2) : Safe (decodeSePhr payload) :=
  (safe_byteAt.mpr (h ▸ Nat.two_pos)).bind fun _ => (safe_byteAt.mpr (h ▸ Nat.one_lt_two)).bind fun _ => .pure _

theorem safe_decodeCrntiCe (payload : List UInt8) : Safe (decodeCrntiCe payload) := by
  unfold decodeCrntiCe
  split_ifs with h
  · exact .pure _
  · have hlen := not_lt.mp h
    exact (safe_byteAt.mpr (Nat.two_pos.trans_le hlen)).bind fun _ =>
      (safe_byteAt.mpr (Nat.one_lt_two.trans_le hlen)).bind fun _ => .pure _

theorem safe_decodeLbsr (format : BsrFormat) {payload : List UInt8} : Safe (decodeLbsr format payload) ↔ payload ≠ [] := by
  constructor
  · rintro ⟨a, ha⟩ rfl
    cases ha
  · intro h
    refine (safe_byteAt.mpr (List.length_pos_iff.mpr h)).bind fun bitmap => ?_
    split_ifs
    · exact .pure _
    · exact .pure _

def UlSubpdu.Decodable (subpdu : UlSubpdu) : Prop := subpdu.Sized ∧ ¬subpdu.EmptyLong

namespace UlSubpdu.Decodable

variable {subpdu : UlSubpdu} (h : subpdu.Decodable)

include h

theorem sbsr (hlcid : subpdu.lcid = shortBsr ∨ subpdu.lcid = shortTruncBsr) : Safe (decodeSbsr subpdu.payload) := by
  apply safe_decodeSbsr
  rcases hlcid with hlcid | hlcid
  · rw [h.1 (by rw [hlcid]; rfl) (by rw [hlcid]; decide), hlcid]
    rfl
  · rw [h.1 (by rw [hlcid]; rfl) (by rw [hlcid]; decide), hlcid]
    rfl

theorem phr (hlcid : subpdu.lcid = sePhr) : Safe (decodeSePhr subpdu.payload) := by
  apply safe_decodeSePhr
  rw [h.1 (by rw [hlcid]; rfl) (by rw [hlcid]; decide), hlcid]
  rfl

theorem lbsr (hlcid : isVarLenCe subpdu.lcid = true) (format : BsrFormat) : Safe (decodeLbsr format subpdu.payload) :=
  (safe_decodeLbsr format).mpr fun hnil => h.2 ⟨hlcid, hnil⟩

theorem log : Safe (formatSubpdu subpdu) := by
  refine .ite (fun _ => .pure _) fun _ => .ite (fun _ => .pure _) fun _ => .ite (fun _ => .pure _) fun _ => ?_
  refine .ite (fun _ => (safe_decodeCrntiCe _).bind fun _ => .pure _) fun _ => ?_
  refine .ite (fun hlcid => (h.sbsr (.inr hlcid)).bind fun _ => .pure _) fun _ => ?_
  refine .ite (fun _ => .pure _) fun _ => ?_
  refine .ite (fun hlcid => (h.sbsr (.inl hlcid)).bind fun _ => .pure _) fun _ => ?_
  refine .ite (fun hlcid => (h.lbsr (by rw [hlcid]; rfl) _).bind fun _ => .pure _) fun _ => ?_
  refine .ite (fun hlcid => (h.phr hlcid).bind fun _ => .pure _) fun _ => ?_
  exact .ite (fun _ => .pure _) fun _ => .pure _

theorem bsr (ctx : DecodedMacRxPdu) (hlcid : subpdu.lcid = shortBsr ∨ subpdu.lcid = shortTruncBsr ∨
    isVarLenCe subpdu.lcid = true) : Safe (handleBsr ctx subpdu) := by
  unfold handleBsr
  by_cases hshort : subpdu.lcid = shortBsr ∨ subpdu.lcid = shortTruncBsr
  · rw [if_pos hshort]
    exact (h.sbsr hshort).bind fun _ => .pure _
  · rw [if_neg hshort]
    have hlong : isVarLenCe subpdu.lcid = true := by tauto
    refine (h.lbsr hlong _).bind fun report => ?_
    cases report with
    | none => exact .pure _
    | some list => exact .pure _

theorem macCe (ctx : DecodedMacRxPdu) : Safe (handleMacCe ctx subpdu) := by
  refine .ite (fun _ => .pure _) fun _ => ?_
  refine .ite (fun hbsr => .ite (fun _ => .pure _) fun _ => h.bsr ctx hbsr) fun _ => ?_
  refine .ite (fun _ => (safe_decodeCrntiCe _).bind fun _ => .pure _) fun _ => ?_
  exact .ite (fun hphr => .ite (fun _ => .pure _) fun _ => (h.phr hphr).bind fun _ => .pure _) fun _ => .pure _

theorem rx (ctx : DecodedMacRxPdu) (ue : Option (Nat → Bool)) : Safe (handleSubpdu ctx ue subpdu) :=
  .ite (fun _ => .pure _) fun _ => h.macCe ctx

theorem positiveBsr : Safe (isPositiveBsr subpdu) := by
  refine .ite (fun hshort => (h.sbsr hshort.symm).bind fun _ => .pure _) fun _ => ?_
  exact .ite (fun hlong => (h.lbsr hlong _).bind fun _ => .pure _) fun _ => .pure _

end UlSubpdu.Decodable

variable {subpdus : List UlSubpdu}

theorem safe_formatSubpdus (h : ∀ subpdu ∈ subpdus, subpdu.Decodable) : Safe (formatSubpdus subpdus) := by
  induction subpdus with
  | nil => exact .pure _
  | cons subpdu subpdus ih =>
    exact (h subpdu List.mem_cons_self).log.bind fun _ =>
      (ih fun s hs => h s (List.mem_cons_of_mem _ hs)).bind fun _ => .pure _

theorem safe_containsPositiveBsr (h : ∀ subpdu ∈ subpdus, subpdu.Decodable) : Safe (containsPositiveBsr subpdus) := by
  induction subpdus with
  | nil => exact .pure _
  | cons subpdu subpdus ih =>
    refine (h subpdu List.mem_cons_self).positiveBsr.bind fun positive => ?_
    cases positive with
    | true => exact .pure _
    | false => exact ih fun s hs => h s (List.mem_cons_of_mem _ hs)

theorem safe_handleRxSubpdus (ctx : DecodedMacRxPdu) (ue : Option (Nat → Bool))
    (h : ∀ subpdu ∈ subpdus, subpdu.Decodable) : Safe (handleRxSubpdus ctx ue subpdus) := by
  induction subpdus with
  | nil => exact .pure _
  | cons subpdu subpdus ih =>
    refine ((h subpdu List.mem_cons_self).rx ctx ue).bind fun p => ?_
    obtain ⟨ret, effects⟩ := p
    cases ret with
    | true => exact (ih fun s hs => h s (List.mem_cons_of_mem _ hs)).bind fun _ => .pure _
    | false => exact .pure _

theorem safe_handleCrntiCe (env : PduRxEnv) (ctx : DecodedMacRxPdu) (subpdu : UlSubpdu)
    (h : ∀ subpdu ∈ ctx.decodedSubpdus, subpdu.Decodable) : Safe (handleCrntiCe env ctx subpdu) := by
  refine (safe_decodeCrntiCe _).bind fun rnti => ?_
  split_ifs
  · exact .pure _
  · exact .pure _
  · refine Safe.bind ?_ fun effects => .pure _
    unfold continueCrntiCe
    split
    · exact .pure _
    · refine (safe_handleRxSubpdus _ _ h).bind fun p => ?_
      obtain ⟨ret, effects⟩ := p
      cases ret with
      | false => exact .pure _
      | true =>
        refine (safe_containsPositiveBsr h).bind fun positive => ?_
        cases positive with
        | true => exact .pure _
        | false => exact .pure _
  · exact .pure _

theorem safe_handleDecoded (env : PduRxEnv) (ctx : DecodedMacRxPdu)
    (h : ∀ subpdu ∈ ctx.decodedSubpdus, subpdu.Decodable) : Safe (handleDecoded env ctx) := by
  have hfound : ∀ found, Safe (handleFound env ctx found) := by
    intro found
    cases found with
    | none => exact safe_handleRxSubpdus ctx (env.findUe ctx.ueIndex) h
    | some subpdu => exact .ite (fun _ => safe_handleCrntiCe env ctx subpdu h) fun _ => .pure _
  unfold handleDecoded
  cases env.logEnabled with
  | true => exact (safe_formatSubpdus h).bind fun _ => hfound _
  | false => exact hfound _

/-- The decoders that are run on the subPDUs of a PDU read only their payloads, whoever sent it. -/
structure DecodesSafely (subpdus : List UlSubpdu) : Prop where
  log : Safe (formatSubpdus subpdus)
  macCe : ∀ ctx, ∀ subpdu ∈ subpdus, Safe (handleMacCe ctx subpdu)
  crntiCe : ∀ env ctx, ctx.decodedSubpdus = subpdus → ∀ subpdu ∈ subpdus, Safe (handleCrntiCe env ctx subpdu)
  positiveBsr : Safe (containsPositiveBsr subpdus)
  rxPdu : ∀ env ctx, ctx.decodedSubpdus = subpdus → Safe (handleDecoded env ctx)

theorem decodesSafely_iff (h : ∀ subpdu ∈ subpdus, subpdu.Sized) :
    DecodesSafely subpdus ↔ ¬∃ subpdu ∈ subpdus, subpdu.EmptyLong := by
  constructor
  · rintro hsafe ⟨subpdu, hmem, hlong, hnil⟩
    obtain ⟨r, hr⟩ := hsafe.macCe ⟨0, 0, 0, 0, []⟩ subpdu hmem
    obtain ⟨lcid, fBit, header, payload⟩ := subpdu
    simp only [isVarLenCe, Bool.or_eq_true, decide_eq_true_eq] at hlong
    subst hnil
    rcases hlong with rfl | rfl
    · cases hr
    · cases hr
  · intro hnone
    have hall : ∀ subpdu ∈ subpdus, subpdu.Decodable := fun s hs => ⟨h s hs, fun hc => hnone ⟨s, hs, hc⟩⟩
    exact ⟨safe_formatSubpdus hall, fun ctx s hs => (hall s hs).macCe ctx,
      fun env ctx hctx s _ => safe_handleCrntiCe env ctx s (hctx ▸ hall), safe_containsPositiveBsr hall,
      fun env ctx hctx => safe_handleDecoded env ctx (hctx ▸ hall)⟩

/-- Each PDU is unpacked in the end. If it is accepted, its bytes are those of its subPDUs, unless there are
too many; if not, no subPDU is left. The decoders are safe if and only if no long BSR is empty. -/
theorem unpackUlSchPdu_safe (payload : List UInt8) :
    ∃ error subpdus, unpackUlSchPdu payload = some (error, subpdus) ∧
      (error ≠ none → subpdus = []) ∧
      (error = none → subpdus.length < maxSubpdusPerPdu → subpdus.flatMap UlSubpdu.bytes = payload) ∧
      (error = none → (DecodesSafely subpdus ↔ ¬HasEmptyLongBsr maxSubpdusPerPdu payload)) := by
  rcases @unpackLoop_spec _ payload [] (Nat.lt_succ_self payload.length) with ⟨e, he⟩ | ⟨new, hnew, hall⟩
  · exact ⟨some e, [], he, fun _ => rfl, nofun, nofun⟩
  · refine ⟨none, new, hnew, fun h => absurd rfl h, fun _ hlt => hall.bytes hlt, fun _ => ?_⟩
    rw [decodesSafely_iff hall.sized, hall.emptyLong]
    rfl

/-- A long BSR with a length of zero is accepted, and then read beyond its payload. -/
theorem unpackUlSchPdu_safe_empty :
    unpackUlSchPdu [62, 0] = some (none, [⟨62, false, [62, 0], []⟩]) ∧
      formatSubpdu ⟨62, false, [62, 0], []⟩ = .error .overrun ∧
      handleMacCe ⟨0, 0, 17921, 0, [⟨62, false, [62, 0], []⟩]⟩ ⟨62, false, [62, 0], []⟩ = .error .overrun ∧
      containsPositiveBsr [⟨62, false, [62, 0], []⟩] = .error .overrun := by
  decide

end Ocudu.Mac
