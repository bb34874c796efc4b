import Ocudu.Mac.RntiManager

/-! `mac_ul_sch_pdu.cpp`, `ul_bsr.cpp`, `ul_phr.h` and `pdu_rx_handler.cpp`: a MAC PDU of the uplink is cut
into subPDUs, and the control elements among them are decoded. -/

namespace Ocudu.Mac

/-! `lcid_ul_sch_t` -/

namespace LcidUlSch

def ccchSize64 : Nat := 0

def lcid1 : Nat := 1

def lcid32 : Nat := 32

def minReserved : Nat := 33

def maxReserved : Nat := 51

def ccchSize48 : Nat := 52

def sePhr : Nat := 57

def crnti : Nat := 58

def shortTruncBsr : Nat := 59

def longTruncBsr : Nat := 60

def shortBsr : Nat := 61

def longBsr : Nat := 62

def padding : Nat := 63

def isCcch (lcid : Nat) : Bool := decide (lcid = ccchSize48) || decide (lcid = ccchSize64)

def isSdu (lcid : Nat) : Bool := decide (lcid ≤ lcid32) && decide (lcid1 ≤ lcid)

def isValidLcid (lcid : Nat) : Bool :=
  decide (lcid ≤ padding) && (decide (lcid < minReserved) || decide (maxReserved < lcid))

def isVarLenCe (lcid : Nat) : Bool := decide (lcid = longTruncBsr) || decide (lcid = longBsr)

def hasLengthField (lcid : Nat) : Bool := if isCcch lcid then false else isSdu lcid || isVarLenCe lcid

def sizeofCe (lcid : Nat) : Nat :=
  if lcid = ccchSize48 then 6
  else if lcid = ccchSize64 then 8
  else if lcid = crnti then 2
  else if lcid = shortBsr ∨ lcid = shortTruncBsr then 1
  else if lcid = sePhr then 2
  else if lcid = longBsr ∨ lcid = longTruncBsr then 1
  else 0

end LcidUlSch

open LcidUlSch

/-- `header` is no data of the source: the bytes that `header_length` counts. -/
structure UlSubpdu where
  lcid : Nat
  fBit : Bool
  header : List UInt8
  payload : List UInt8
  deriving DecidableEq

inductive UlUnpackError
  | emptySubpdu
  | unrecognizedLcid (lcid : Nat)
  | noLengthPrefix
  | noSduPayload (remaining sduLength : Nat)
  | noCePayload (remaining sduLength : Nat)
  deriving DecidableEq

def lcidOf (b : UInt8) : Nat := b.toNat % 64

def fBitOf (b : UInt8) : Bool := b.toNat.testBit 6

def splitPayload (lcid : Nat) (fBit : Bool) (header reader : List UInt8) (sduLength : Nat)
    (error : Nat → Nat → UlUnpackError) : Except UlUnpackError (UlSubpdu × List UInt8) :=
  if header.length + reader.length < header.length + sduLength then .error (error reader.length sduLength)
  else .ok ({ lcid, fBit, header, payload := reader.take sduLength }, reader.drop sduLength)

def unpackSubpdu (reader : List UInt8) : Except UlUnpackError (UlSubpdu × List UInt8) :=
  match reader with
  | [] => .error .emptySubpdu
  | b :: reader =>
    if isValidLcid (lcidOf b) = false then .error (.unrecognizedLcid (lcidOf b))
    else if hasLengthField (lcidOf b) then
      match fBitOf b, reader with
      | false, l :: reader => splitPayload (lcidOf b) false [b, l] reader l.toNat .noSduPayload
      | true, h :: l :: reader =>
        splitPayload (lcidOf b) true [b, h, l] reader (h.toNat * 256 + l.toNat) .noSduPayload
      | _, _ => .error .noLengthPrefix
    else if lcidOf b = padding then
      .ok ({ lcid := lcidOf b, fBit := fBitOf b, header := [b], payload := reader }, [])
    else splitPayload (lcidOf b) (fBitOf b) [b] reader (sizeofCe (lcidOf b)) .noCePayload

def maxSubpdusPerPdu : Nat := 4096

/-- The loop of `mac_ul_sch_pdu::unpack`: the error, if any, and the subPDUs. The number bounds the turns;
`none` if there are more. -/
def unpackLoop : Nat → List UInt8 → List UlSubpdu → Option (Option UlUnpackError × List UlSubpdu)
  | 0, _, _ => none
  | turns + 1, reader, subpdus =>
    if reader = [] then some (none, subpdus)
    else if maxSubpdusPerPdu ≤ subpdus.length then some (none, subpdus)
    else
      match unpackSubpdu reader with
      | .ok (subpdu, reader) => unpackLoop turns reader (subpdus ++ [subpdu])
      | .error e => some (some e, [])

def unpackUlSchPdu (payload : List UInt8) : Option (Option UlUnpackError × List UlSubpdu) :=
  unpackLoop (payload.length + 1) payload []

inductive PayloadFault
  | overrun
  deriving DecidableEq

def byteAt (payload : List UInt8) (i : Nat) : Except PayloadFault UInt8 :=
  match payload[i]? with
  | some b => .ok b
  | none => .error .overrun

inductive BsrFormat
  | shortBsr
  | longBsr
  | shortTruncBsr
  | longTruncBsr
  deriving DecidableEq

structure LcgBsrReport where
  lcgId : Nat
  bufferSize : Nat
  deriving DecidableEq

def maxNofLcgs : Nat := 8

def decodeSbsr (payload : List UInt8) : Except PayloadFault LcgBsrReport := do
  let b ← byteAt payload 0
  pure { lcgId := b.toNat / 32, bufferSize := b.toNat % 32 }

def decodeLbsrLcgs (format : BsrFormat) (bitmap : UInt8) : List Nat → List UInt8 → Option (List LcgBsrReport)
  | [], _ => some []
  | i :: is, reader =>
    if bitmap.toNat.testBit i then
      match reader with
      | b :: reader =>
        if b = 255 then none
        else (decodeLbsrLcgs format bitmap is reader).map (⟨i, b.toNat⟩ :: ·)
      | [] =>
        if format = .longTruncBsr then (decodeLbsrLcgs format bitmap is []).map (⟨i, 64⟩ :: ·) else none
    else if format = .longTruncBsr then (decodeLbsrLcgs format bitmap is reader).map (⟨i, 0⟩ :: ·)
    else decodeLbsrLcgs format bitmap is reader

def decodeLbsr (format : BsrFormat) (payload : List UInt8) : Except PayloadFault (Option (List LcgBsrReport)) := do
  let bitmap ← byteAt payload 0
  if bitmap = 0 then pure (some ((List.range maxNofLcgs).map (⟨·, 0⟩)))
  else pure (decodeLbsrLcgs format bitmap (List.range maxNofLcgs) payload.tail)

def phToDbRange (ph : Nat) : Int × Int :=
  if ph = 0 then (-32, -32)
  else if ph = 63 then (38, 38)
  else if ph < 55 then (-32 + ph - 1, -32 + ph)
  else (-32 + ph - 1, -32 + ph + 1)

def pCmaxToDbmRange (pCmax : Nat) : Int × Int :=
  if pCmax = 0 then (-29, -29)
  else if pCmax = 63 then (33, 33)
  else (-29 + pCmax - 1, -29 + pCmax)

structure SePhr where
  ph : Int × Int
  pCmax : Int × Int
  deriving DecidableEq

def decodeSePhr (payload : List UInt8) : Except PayloadFault SePhr := do
  let ph ← byteAt payload 0
  let pCmax ← byteAt payload 1
  pure { ph := phToDbRange (ph.toNat % 64), pCmax := pCmaxToDbmRange (pCmax.toNat % 64) }

def decodeCrntiCe (payload : List UInt8) : Except PayloadFault Nat :=
  if payload.length < 2 then pure invalidRnti
  else do
    let h ← byteAt payload 0
    let l ← byteAt payload 1
    pure (h.toNat * 256 + l.toNat)

inductive SubpduLog
  | sdu (lcid len : Nat)
  | ccch64 (len : Nat)
  | ccch48 (len : Nat)
  | crnti (rnti : Nat)
  | shortTruncBsr (len bs : Nat)
  | longTruncBsr (len : Nat)
  | sbsr (lcg bs : Nat)
  | lbsr (list : Option (List LcgBsrReport))
  | sePhr (phr : SePhr)
  | padding (len : Nat)
  | unrecognizedCe (lcid totalLen : Nat)
  deriving DecidableEq

def UlSubpdu.totalLength (subpdu : UlSubpdu) : Nat := subpdu.header.length + subpdu.payload.length

def formatSubpdu (subpdu : UlSubpdu) : Except PayloadFault SubpduLog :=
  if isSdu subpdu.lcid then pure (.sdu subpdu.lcid subpdu.payload.length)
  else if subpdu.lcid = ccchSize64 then pure (.ccch64 subpdu.payload.length)
  else if subpdu.lcid = ccchSize48 then pure (.ccch48 subpdu.payload.length)
  else if subpdu.lcid = crnti then do pure (.crnti (← decodeCrntiCe subpdu.payload))
  else if subpdu.lcid = shortTruncBsr then do
    pure (.shortTruncBsr subpdu.totalLength (← decodeSbsr subpdu.payload).bufferSize)
  else if subpdu.lcid = longTruncBsr then pure (.longTruncBsr subpdu.totalLength)
  else if subpdu.lcid = shortBsr then do
    let sbsr ← decodeSbsr subpdu.payload
    pure (.sbsr sbsr.lcgId sbsr.bufferSize)
  else if subpdu.lcid = longBsr then do pure (.lbsr (← decodeLbsr .longBsr subpdu.payload))
  else if subpdu.lcid = sePhr then do pure (.sePhr (← decodeSePhr subpdu.payload))
  else if subpdu.lcid = padding then pure (.padding subpdu.payload.length)
  else pure (.unrecognizedCe subpdu.lcid subpdu.totalLength)

def formatSubpdus : List UlSubpdu → Except PayloadFault (List SubpduLog)
  | [] => pure []
  | subpdu :: subpdus => do
    let log ← formatSubpdu subpdu
    let logs ← formatSubpdus subpdus
    pure (log :: logs)

/-! `pdu_rx_handler` -/

structure DecodedMacRxPdu where
  slotRx : Nat
  cellIndexRx : Nat
  rnti : Nat
  ueIndex : Nat
  decodedSubpdus : List UlSubpdu

inductive RxEffect
  | bsr (cell ue rnti : Nat) (format : BsrFormat) (reports : List LcgBsrReport)
  | phr (cell ue rnti slot : Nat) (phr : SePhr)
  | sdu (ue lcid : Nat) (payload : List UInt8)
  | ulCcchMsg (rnti cell slot : Nat) (payload : List UInt8)
  | crntiCe (ue cell : Nat)
  | crntiCeReceived (cell ue : Nat)
  | ulSchedCommand (cell slot ue rnti : Nat)
  deriving DecidableEq

structure PduRxEnv where
  rntiTable : Nat → Nat
  findUe : Nat → Option (Nat → Bool)
  executes : Bool
  logEnabled : Bool

def isDuUeIndexValid (ue : Nat) : Bool := decide (ue < maxNofDuUes)

def handleBsr (ctx : DecodedMacRxPdu) (subpdu : UlSubpdu) : Except PayloadFault (Bool × List RxEffect) :=
  if subpdu.lcid = shortBsr ∨ subpdu.lcid = shortTruncBsr then do
    let format := if subpdu.lcid = shortBsr then BsrFormat.shortBsr else .shortTruncBsr
    let sbsr ← decodeSbsr subpdu.payload
    pure (true, [.bsr ctx.cellIndexRx ctx.ueIndex ctx.rnti format [sbsr]])
  else do
    let format := if subpdu.lcid = longBsr then BsrFormat.longBsr else .longTruncBsr
    match ← decodeLbsr format subpdu.payload with
    | none => pure (false, [])
    | some list => pure (true, [.bsr ctx.cellIndexRx ctx.ueIndex ctx.rnti format list])

def handleMacCe (ctx : DecodedMacRxPdu) (subpdu : UlSubpdu) : Except PayloadFault (Bool × List RxEffect) :=
  if isCcch subpdu.lcid then pure (!isDuUeIndexValid ctx.ueIndex, [])
  else if subpdu.lcid = shortBsr ∨ subpdu.lcid = shortTruncBsr ∨ isVarLenCe subpdu.lcid = true then
    if isDuUeIndexValid ctx.ueIndex = false then pure (false, []) else handleBsr ctx subpdu
  else if subpdu.lcid = crnti then do
    let rnti ← decodeCrntiCe subpdu.payload
    pure (decide (rnti = ctx.rnti), [])
  else if subpdu.lcid = sePhr then
    if isDuUeIndexValid ctx.ueIndex = false then pure (false, [])
    else do
      let phr ← decodeSePhr subpdu.payload
      pure (true, [.phr ctx.cellIndexRx ctx.ueIndex ctx.rnti ctx.slotRx phr])
  else pure (true, [])

def handleSdu (ctx : DecodedMacRxPdu) (subpdu : UlSubpdu) (ue : Option (Nat → Bool)) : Bool × List RxEffect :=
  match ue with
  | none => (false, [])
  | some bearers =>
    if bearers subpdu.lcid then (true, [.sdu ctx.ueIndex subpdu.lcid subpdu.payload]) else (false, [])

def handleSubpdu (ctx : DecodedMacRxPdu) (ue : Option (Nat → Bool)) (subpdu : UlSubpdu) :
    Except PayloadFault (Bool × List RxEffect) :=
  if isSdu subpdu.lcid then pure (handleSdu ctx subpdu ue) else handleMacCe ctx subpdu

def handleRxSubpdus (ctx : DecodedMacRxPdu) (ue : Option (Nat → Bool)) :
    List UlSubpdu → Except PayloadFault (Bool × List RxEffect)
  | [] => pure (true, [])
  | subpdu :: subpdus => do
    let (ret, effects) ← handleSubpdu ctx ue subpdu
    if ret then
      let (ret, rest) ← handleRxSubpdus ctx ue subpdus
      pure (ret, effects ++ rest)
    else pure (false, effects)

def isPositiveBsr (subpdu : UlSubpdu) : Except PayloadFault Bool :=
  if subpdu.lcid = shortTruncBsr ∨ subpdu.lcid = shortBsr then do
    let rep ← decodeSbsr subpdu.payload
    pure (decide (0 < rep.bufferSize))
  else if isVarLenCe subpdu.lcid then do
    let report ← decodeLbsr (if subpdu.lcid = longBsr then .longBsr else .longTruncBsr) subpdu.payload
    pure ((report.getD []).any fun l => decide (0 < l.bufferSize))
  else pure false

def containsPositiveBsr : List UlSubpdu → Except PayloadFault Bool
  | [] => pure false
  | subpdu :: subpdus => do
    let positive ← isPositiveBsr subpdu
    if positive then pure true else containsPositiveBsr subpdus

def continueCrntiCe (env : PduRxEnv) (ctx : DecodedMacRxPdu) : Except PayloadFault (List RxEffect) :=
  match env.findUe ctx.ueIndex with
  | none => pure []
  | some bearers => do
    let (ret, effects) ← handleRxSubpdus ctx (some bearers) ctx.decodedSubpdus
    if ret then
      let effects := effects ++ [.crntiCe ctx.ueIndex ctx.cellIndexRx, .crntiCeReceived ctx.cellIndexRx ctx.ueIndex]
      if ← containsPositiveBsr ctx.decodedSubpdus then pure effects
      else pure (effects ++ [.ulSchedCommand ctx.cellIndexRx ctx.slotRx ctx.ueIndex ctx.rnti])
    else pure effects

def handleCrntiCe (env : PduRxEnv) (ctx : DecodedMacRxPdu) (subpdu : UlSubpdu) :
    Except PayloadFault (Bool × List RxEffect) := do
  let rnti ← decodeCrntiCe subpdu.payload
  if isCrnti rnti = false then pure (false, [])
  else if env.rntiTable rnti = maxNofDuUes then pure (false, [])
  else if env.executes then
    let effects ← continueCrntiCe env { ctx with rnti, ueIndex := env.rntiTable rnti }
    pure (true, effects)
  else pure (true, [])

/-- Msg3: the subPDUs are searched from the end. -/
def findMsg3 (subpdus : List UlSubpdu) : Option UlSubpdu :=
  subpdus.reverse.find? fun subpdu => decide (subpdu.lcid = crnti) || isCcch subpdu.lcid

def handleFound (env : PduRxEnv) (ctx : DecodedMacRxPdu) : Option UlSubpdu → Except PayloadFault (Bool × List RxEffect)
  | some subpdu =>
    if subpdu.lcid = crnti then handleCrntiCe env ctx subpdu
    else pure (true, [.ulCcchMsg ctx.rnti ctx.cellIndexRx ctx.slotRx subpdu.payload])
  | none => handleRxSubpdus ctx (env.findUe ctx.ueIndex) ctx.decodedSubpdus

def handleDecoded (env : PduRxEnv) (ctx : DecodedMacRxPdu) : Except PayloadFault (Bool × List RxEffect) := do
  if env.logEnabled then
    let _ ← formatSubpdus ctx.decodedSubpdus
  handleFound env ctx (if isDuUeIndexValid ctx.ueIndex then none else findMsg3 ctx.decodedSubpdus)

end Ocudu.Mac
