import Ocudu.Basic.SeqNum
import Ocudu.Rlc.AmPdu

/-! The status PDU of `rlc_am_pdu.h`: the NACK list with its incremental merging, trimming
to a grant, and the codec for both SN sizes. -/

namespace Ocudu.Rlc

open SeqNum

/-- The segment offsets of a NACK, both inclusive. -/
structure SoRange where
  soStart : Nat
  soEnd : Nat
  deriving DecidableEq

/-- `rlc_am_status_nack`: an option stands for a flag and the fields that are only read when
it is set. -/
structure RlcAmStatusNack where
  nackSn : Nat
  so : Option SoRange := none
  nackRange : Option Nat := none
  deriving DecidableEq

namespace RlcAmStatusNack

def soEndOfSdu : Nat := 0xffff

def rangeLen (nack : RlcAmStatusNack) : Nat := nack.nackRange.getD 1

def soStart (nack : RlcAmStatusNack) : Nat := (nack.so.map SoRange.soStart).getD 0

def soEnd (nack : RlcAmStatusNack) : Nat := (nack.so.map SoRange.soEnd).getD soEndOfSdu

/-- The fields fit their types. -/
structure Wf (snSize : RlcAmSnSize) (nack : RlcAmStatusNack) : Prop where
  nackSn_lt : nack.nackSn < snSize.mod
  soStart_lt : nack.soStart < 2 ^ 16
  soEnd_lt : nack.soEnd < 2 ^ 16
  rangeLen_lt : nack.rangeLen < 2 ^ 8

def rangeItem (modNr : Nat) (nack : RlcAmStatusNack) (rangeSn : Nat) : RlcAmStatusNack :=
  { nackSn := rangeSn
    so :=
      match nack.so with
      | none => none
      | some so =>
        let soStart := if rangeSn = nack.nackSn then so.soStart else 0
        let soEnd :=
          if rangeSn = subU32 (nack.nackSn + nack.rangeLen) 1 % modNr then so.soEnd else soEndOfSdu
        if soStart ≠ 0 ∨ soEnd ≠ soEndOfSdu then some { soStart, soEnd } else none }

/-- The NACKs for single SNs that the transmitter handles for one NACK. -/
def expand (modNr : Nat) (nack : RlcAmStatusNack) : List RlcAmStatusNack :=
  match nack.nackRange with
  | some range =>
    (List.range range).map (fun i => nack.rangeItem modNr ((nack.nackSn + i) % modNr))
  | none => [nack]

/-- The bytes that a NACK for a single SN reports as missing. -/
def Covers (nack : RlcAmStatusNack) (b : Nat) : Prop :=
  nack.soStart ≤ b ∧ (nack.soEnd = soEndOfSdu ∨ b ≤ nack.soEnd)

def Missing (modNr : Nat) (nacks : List RlcAmStatusNack) : Set (Nat × Nat) :=
  { x | ∃ nack ∈ nacks, ∃ item ∈ nack.expand modNr, item.nackSn = x.1 ∧ item.Covers x.2 }

end RlcAmStatusNack

open RlcAmStatusNack (soEndOfSdu)

def invalidRlcSn : Nat := 0xffffffff

def sizeofHeaderAckSn : Nat := 3

def sizeofNackSnExt : RlcAmSnSize → Nat
  | .size12bits => 2
  | .size18bits => 3

def sizeofNackSo : Nat := 4

def sizeofNackRange : Nat := 1

structure RlcAmStatusPdu where
  snSize : RlcAmSnSize
  nacks : List RlcAmStatusNack
  packedSize : Nat
  ackSn : Nat
  deriving DecidableEq

namespace RlcAmStatusPdu

def new (snSize : RlcAmSnSize) : RlcAmStatusPdu :=
  { snSize, nacks := [], packedSize := sizeofHeaderAckSn, ackSn := invalidRlcSn }

def modNr (s : RlcAmStatusPdu) : Nat := s.snSize.mod

def reset (s : RlcAmStatusPdu) : RlcAmStatusPdu := new s.snSize

def getPackedSize (s : RlcAmStatusPdu) : Nat := s.packedSize

def nackSize (snSize : RlcAmSnSize) (nack : RlcAmStatusNack) : Nat :=
  sizeofNackSnExt snSize + (if nack.so.isSome then sizeofNackSo else 0) +
    (if nack.nackRange.isSome then sizeofNackRange else 0)

def canBeMerged (modNr : Nat) (left right : RlcAmStatusNack) : Bool :=
  right.nackSn == (left.nackSn + left.rangeLen) % modNr &&
    left.so.all (·.soEnd == soEndOfSdu) &&
    right.so.all (·.soStart == 0) &&
    decide (left.rangeLen + right.rangeLen ≤ 255)

def mergeNack (prev nack : RlcAmStatusNack) : RlcAmStatusNack :=
  { nackSn := prev.nackSn
    nackRange :=
      match nack.nackRange, prev.nackRange with
      | some range, some prevRange => some ((prevRange + range) % 2 ^ 8)
      | some range, none => some ((range + 1) % 2 ^ 8)
      | none, some prevRange => some ((prevRange + 1) % 2 ^ 8)
      | none, none => some 2
    so :=
      match nack.so, prev.so with
      | some so, none => some { soStart := 0, soEnd := so.soEnd }
      | some so, some prevSo => some { soStart := prevSo.soStart, soEnd := so.soEnd }
      | none, some prevSo => some { soStart := prevSo.soStart, soEnd := soEndOfSdu }
      | none, none => none }

def pushBack (s : RlcAmStatusPdu) (nack : RlcAmStatusNack) : RlcAmStatusPdu :=
  { s with nacks := s.nacks ++ [nack], packedSize := s.packedSize + nackSize s.snSize nack }

def pushNack (s : RlcAmStatusPdu) (nack : RlcAmStatusNack) : RlcAmStatusPdu :=
  match s.nacks.getLast? with
  | none => s.pushBack nack
  | some prev =>
    if canBeMerged s.modNr prev nack then
      let merged := mergeNack prev nack
      { s with
        nacks := s.nacks.dropLast ++ [merged]
        packedSize := s.packedSize - nackSize s.snSize prev + nackSize s.snSize merged }
    else s.pushBack nack

def trimLoop (snSize : RlcAmSnSize) (maxPackedSize : Nat) :
    List RlcAmStatusNack → Nat → Nat → List RlcAmStatusNack × Nat × Nat
  | [], packedSize, ackSn => ([], packedSize, ackSn)
  | back :: rest, packedSize, ackSn =>
    if maxPackedSize < packedSize ∨ back.nackSn = ackSn then
      trimLoop snSize maxPackedSize rest (packedSize - nackSize snSize back) back.nackSn
    else (back :: rest, packedSize, ackSn)

def trim (s : RlcAmStatusPdu) (maxPackedSize : Nat) : Bool × RlcAmStatusPdu :=
  if maxPackedSize ≥ s.packedSize then (true, s)
  else if maxPackedSize < sizeofHeaderAckSn then (false, s)
  else
    let (nacks, packedSize, ackSn) :=
      trimLoop s.snSize maxPackedSize s.nacks.reverse s.packedSize s.ackSn
    (true, { s with nacks := nacks.reverse, packedSize, ackSn })

def packAckSn (snSize : RlcAmSnSize) (ackSn : Nat) (e1 : Bool) : List UInt8 :=
  match snSize with
  | .size12bits =>
    [UInt8.ofNat (0 ||| ((ackSn >>> 8) &&& 0x0f)), UInt8.ofNat (ackSn &&& 0xff),
      UInt8.ofNat (if e1 then 0x80 else 0x00)]
  | .size18bits =>
    [UInt8.ofNat (0 ||| ((ackSn >>> 14) &&& 0x0f)), UInt8.ofNat ((ackSn >>> 6) &&& 0xff),
      UInt8.ofNat (((ackSn <<< 2) &&& 0xfc) ||| (if e1 then 0x02 else 0x00))]

def packNackSn (snSize : RlcAmSnSize) (nackSn : Nat) (e1 e2 e3 : Bool) : List UInt8 :=
  match snSize with
  | .size12bits =>
    [UInt8.ofNat ((nackSn >>> 4) &&& 0xff),
      UInt8.ofNat (((nackSn &&& 0x0f) <<< 4) ||| (if e1 then 0x08 else 0) |||
        (if e2 then 0x04 else 0) ||| (if e3 then 0x02 else 0))]
  | .size18bits =>
    [UInt8.ofNat ((nackSn >>> 10) &&& 0xff), UInt8.ofNat ((nackSn >>> 2) &&& 0xff),
      UInt8.ofNat (((nackSn <<< 6) &&& 0xc0) ||| (if e1 then 0x20 else 0) |||
        (if e2 then 0x10 else 0) ||| (if e3 then 0x08 else 0))]

def packSo : Option SoRange → List UInt8
  | some so =>
    [UInt8.ofNat (so.soStart >>> 8), UInt8.ofNat so.soStart, UInt8.ofNat (so.soEnd >>> 8),
      UInt8.ofNat so.soEnd]
  | none => []

def packRange : Option Nat → List UInt8
  | some range => [UInt8.ofNat range]
  | none => []

/-- The loop over the NACKs; E1 is set on all but the last one. -/
def packNacks (snSize : RlcAmSnSize) : List RlcAmStatusNack → List UInt8
  | [] => []
  | nack :: rest =>
    packNackSn snSize nack.nackSn (!rest.isEmpty) nack.so.isSome nack.nackRange.isSome ++
      (packSo nack.so ++ (packRange nack.nackRange ++ packNacks snSize rest))

def packAs (snSize : RlcAmSnSize) (s : RlcAmStatusPdu) : List UInt8 :=
  packAckSn snSize s.ackSn (!s.nacks.isEmpty) ++ packNacks snSize s.nacks

def pack12bit (s : RlcAmStatusPdu) : List UInt8 := packAs .size12bits s

def pack18bit (s : RlcAmStatusPdu) : List UInt8 := packAs .size18bits s

def pack (s : RlcAmStatusPdu) : List UInt8 :=
  match s.snSize with
  | .size12bits => s.pack12bit
  | .size18bits => s.pack18bit

def isControlPdu (pdu : List UInt8) : Except Fault Bool := do
  let (octet, _) ← readByte pdu
  return ((octet >>> 7) &&& 0x01) == 0

/-- The ACK_SN with the E1 flag, read from the fixed part after the CPT check. -/
structure AckSnExt where
  ackSn : Nat
  e1 : Bool
  reserved : Bool

def readAckSn (snSize : RlcAmSnSize) (pdu : List UInt8) : Except Fault (AckSnExt × List UInt8) := do
  let (b0, pdu) ← readByte pdu
  let (b1, pdu) ← readByte pdu
  let (b2, pdu) ← readByte pdu
  match snSize with
  | .size12bits =>
    return ({ ackSn := ((b0 &&& 0x0f) <<< 8) ||| (b1 &&& 0xff)
              e1 := b2 &&& 0x80 != 0
              reserved := b2 &&& 0x7f != 0 }, pdu)
  | .size18bits =>
    return ({ ackSn := ((b0 &&& 0x0f) <<< 14) ||| ((b1 &&& 0xff) <<< 6) ||| ((b2 &&& 0xfc) >>> 2)
              e1 := b2 &&& 0x02 != 0
              reserved := b2 &&& 0x01 != 0 }, pdu)

structure NackSnExt where
  nackSn : Nat
  e1 : Bool
  e2 : Bool
  e3 : Bool
  reserved : Bool

def readNackSn (snSize : RlcAmSnSize) (pdu : List UInt8) :
    Except Fault (NackSnExt × List UInt8) :=
  match snSize with
  | .size12bits => do
    let (b0, pdu) ← readByte pdu
    let (b1, pdu) ← readByte pdu
    return ({ nackSn := ((b0 &&& 0xff) <<< 4) ||| ((b1 &&& 0xf0) >>> 4)
              e1 := b1 &&& 0x08 != 0
              e2 := b1 &&& 0x04 != 0
              e3 := b1 &&& 0x02 != 0
              reserved := b1 &&& 0x01 != 0 }, pdu)
  | .size18bits => do
    let (b0, pdu) ← readByte pdu
    let (b1, pdu) ← readByte pdu
    let (b2, pdu) ← readByte pdu
    return ({ nackSn := ((b0 &&& 0xff) <<< 10) ||| ((b1 &&& 0xff) <<< 2) ||| ((b2 &&& 0xc0) >>> 6)
              e1 := b2 &&& 0x20 != 0
              e2 := b2 &&& 0x10 != 0
              e3 := b2 &&& 0x08 != 0
              reserved := b2 &&& 0x07 != 0 }, pdu)

/-- The segment offsets if E2 is set; nothing if the input is too short for them. -/
def readSo (e2 : Bool) (pdu : List UInt8) : Except Fault (Option (Option SoRange × List UInt8)) :=
  if e2 then
    if pdu.length < sizeofNackSo then return none
    else do
      let (startHigh, pdu) ← readByte pdu
      let (startLow, pdu) ← readByte pdu
      let (endHigh, pdu) ← readByte pdu
      let (endLow, pdu) ← readByte pdu
      return some (some { soStart := (startHigh <<< 8) ||| startLow
                          soEnd := (endHigh <<< 8) ||| endLow }, pdu)
  else return some (none, pdu)

/-- The NACK range if E3 is set; nothing if the input is too short for it. -/
def readRange (e3 : Bool) (pdu : List UInt8) : Except Fault (Option (Option Nat × List UInt8)) :=
  if e3 then
    if pdu.length < sizeofNackRange then return none
    else do
      let (range, pdu) ← readByte pdu
      return some (some range, pdu)
  else return some (none, pdu)

/-- One round of the E1 loop: a NACK, whether another one follows, and the rest of the input;
nothing if the NACK is malformed. -/
def readNack (snSize : RlcAmSnSize) (pdu : List UInt8) :
    Except Fault (Option (RlcAmStatusNack × Bool × List UInt8)) := do
  if pdu.length < sizeofNackSnExt snSize then return none
  let (ext, pdu) ← readNackSn snSize pdu
  if ext.reserved then return none
  match ← readSo ext.e2 pdu with
  | none => return none
  | some (so, pdu) =>
    match ← readRange ext.e3 pdu with
    | none => return none
    | some (nackRange, pdu) => return some ({ nackSn := ext.nackSn, so, nackRange }, ext.e1, pdu)

def unpackNacks : Nat → RlcAmStatusPdu → List UInt8 → Except Fault (Option RlcAmStatusPdu)
  | 0, _, _ => .error .loopBound
  | fuel + 1, s, pdu => do
    match ← readNack s.snSize pdu with
    | none => return none
    | some (nack, e1, pdu) =>
      if e1 then unpackNacks fuel (s.pushNack nack) pdu else return some (s.pushNack nack)

def unpackAs (snSize : RlcAmSnSize) (pdu : List UInt8) : Except Fault (Option RlcAmStatusPdu) := do
  if pdu.length < sizeofHeaderAckSn then return none
  if !(← isControlPdu pdu) then return none
  let (octet, _) ← readByte pdu
  if (octet >>> 4) &&& 0x07 ≠ 0 then return none
  let (ack, rest) ← readAckSn snSize pdu
  if ack.reserved then return none
  let s := { new snSize with ackSn := ack.ackSn }
  if ack.e1 then unpackNacks pdu.length s rest else return some s

def unpack12bit (pdu : List UInt8) : Except Fault (Option RlcAmStatusPdu) :=
  unpackAs .size12bits pdu

def unpack18bit (pdu : List UInt8) : Except Fault (Option RlcAmStatusPdu) :=
  unpackAs .size18bits pdu

def unpack (snSize : RlcAmSnSize) (pdu : List UInt8) : Except Fault (Option RlcAmStatusPdu) :=
  match snSize with
  | .size12bits => unpack12bit pdu
  | .size18bits => unpack18bit pdu

end RlcAmStatusPdu

end Ocudu.Rlc
