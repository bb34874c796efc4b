import Ocudu.Support.BitEncoding

/-! `nru_message.h`, and `nru_packing.cpp` on octets: the DL user data and the DL data delivery status, read
through a `bit_decoder` and written through a `bit_encoder`. -/

namespace Ocudu.Nru

open BitCodec BitReader BitParser Support

def nruMaxNofPdcpSnDiscardBlocks : Nat := 16

structure DiscardBlock where
  pdcpSnStart : Nat
  blockSize : UInt8

structure DlUserData where
  reportPolling : Bool := false
  requestOutOfSeqReport : Bool := false
  reportDelivered : Bool := false
  userDataExistenceFlag : Bool := false
  assistInfoReportPollingFlag : Bool := false
  retransmissionFlag : Bool := false
  nruSn : Nat := 0
  dlDiscardPdcpSn : Option Nat := none
  discardBlocks : Option (List DiscardBlock) := none
  dlReportPdcpSn : Nat := 0

def nruMaxNofLostNruSnRanges : Nat := 2

structure LostNruSnRange where
  nruSnStart : Nat
  nruSnEnd : Nat

structure DlDataDeliveryStatus where
  finalFrameInd : Bool := false
  desiredBufferSizeForDrb : UInt32 := 0
  desiredDataRate : Option UInt32 := none
  lostNruSnRanges : Option (List LostNruSnRange) := none
  highestDeliveredPdcpSn : Option Nat := none
  highestTransmittedPdcpSn : Option Nat := none
  causeValue : Option UInt8 := none
  highestDeliveredRetransmittedPdcpSn : Option Nat := none
  highestRetransmittedPdcpSn : Option Nat := none

inductive PduType
  | dlUserData
  | dlDataDeliveryStatus

def PduType.toUint : PduType → Nat
  | .dlUserData => 0
  | .dlDataDeliveryStatus => 1

def optionalField (nBits : Nat) (v : Option Nat) : List (Nat × Nat) := v.elim [] fun v => [(v, nBits)]

def padding (length : Nat) : List UInt8 := List.replicate ((4 - (length + 2) % 4) % 4) 0

/-- Zeros are appended to the octets that were packed, up to a length of `4 * n - 2`. -/
def pack (outBuf : List UInt8) (fields : List (Nat × Nat)) : Except BitFault (List UInt8) := do
  let encoder ← BitEncoder.packFields ⟨outBuf, 0⟩ fields
  return encoder.bytes ++ padding (encoder.bytes.length - outBuf.length)

def readFlag : BitParser Bool := do
  let v ← read 8 1
  pure (v != 0)

def readFlagUnchecked : BitParser Bool := do
  let v ← readUnchecked 8 1
  pure (v != 0)

def readUInt8 (tBits : Nat) : BitParser UInt8 := do
  let v ← read tBits 8
  pure (UInt8.ofNat v)

def readUInt32 : BitParser UInt32 := do
  let v ← read 32 32
  pure (UInt32.ofNat v)

def unpack {α : Type} (parser : BitParser α) (container : List UInt8) : Except BitFault (Option α) :=
  if container.isEmpty then .ok none
  else if (container.length + 2) % 4 ≠ 0 then .ok none
  else (parser ⟨container, 0, 0⟩).map fun res => res.map (·.1)

def dlUserDataFields (d : DlUserData) : List (Nat × Nat) :=
  let dlDiscardBlocks := d.discardBlocks.any fun blocks => !blocks.isEmpty
  [(PduType.dlUserData.toUint, 4), (0, 1), (dlDiscardBlocks.toNat, 1), (d.dlDiscardPdcpSn.isSome.toNat, 1),
    (d.reportPolling.toNat, 1), (0, 3), (d.requestOutOfSeqReport.toNat, 1), (d.reportDelivered.toNat, 1),
    (d.userDataExistenceFlag.toNat, 1), (d.assistInfoReportPollingFlag.toNat, 1), (d.retransmissionFlag.toNat, 1),
    (d.nruSn, 24)] ++
  (optionalField 24 d.dlDiscardPdcpSn ++
  ((if dlDiscardBlocks then
    ((d.discardBlocks.getD []).length, 8) ::
      (d.discardBlocks.getD []).flatMap fun block => [(block.pdcpSnStart, 24), (block.blockSize.toNat, 8)]
    else []) ++
  (if d.reportDelivered then [(d.dlReportPdcpSn, 24)] else [])))

def packDlUserData (outBuf : List UInt8) (d : DlUserData) : Except BitFault (List UInt8) :=
  pack outBuf (dlUserDataFields d)

def readDiscardBlock : BitParser DiscardBlock := do
  let pdcpSnStart ← read 32 24
  let blockSize ← readUInt8 8
  pure ⟨pdcpSnStart, blockSize⟩

def readDiscardBlocks : BitParser (List DiscardBlock) := do
  let nofDiscardBlocks ← read 8 8
  require (nofDiscardBlocks ≤ nruMaxNofPdcpSnDiscardBlocks)
  times nofDiscardBlocks readDiscardBlock

def readDlUserData : BitParser DlUserData := do
  let pduType ← read 8 4
  require (pduType = PduType.dlUserData.toUint)
  let spare ← read 8 1
  require (spare = 0)
  let dlDiscardBlocks ← readFlag
  let dlFlush ← readFlag
  let reportPolling ← readFlag
  let spare ← read 8 3
  require (spare = 0)
  let requestOutOfSeqReport ← readFlagUnchecked
  let reportDelivered ← readFlagUnchecked
  let userDataExistenceFlag ← readFlagUnchecked
  let assistInfoReportPollingFlag ← readFlagUnchecked
  let retransmissionFlag ← readFlag
  let nruSn ← read 32 24
  let dlDiscardPdcpSn ← optional dlFlush (read 32 24)
  let discardBlocks ← optional dlDiscardBlocks readDiscardBlocks
  let dlReportPdcpSn ← optional reportDelivered (read 32 24)
  pure ⟨reportPolling, requestOutOfSeqReport, reportDelivered, userDataExistenceFlag, assistInfoReportPollingFlag,
    retransmissionFlag, nruSn, dlDiscardPdcpSn, discardBlocks, dlReportPdcpSn.getD 0⟩

def unpackDlUserData : List UInt8 → Except BitFault (Option DlUserData) := unpack readDlUserData

def dlDataDeliveryStatusFields (s : DlDataDeliveryStatus) : List (Nat × Nat) :=
  [(PduType.dlDataDeliveryStatus.toUint, 4), (s.highestTransmittedPdcpSn.isSome.toNat, 1),
    (s.highestDeliveredPdcpSn.isSome.toNat, 1), (s.finalFrameInd.toNat, 1), (s.lostNruSnRanges.isSome.toNat, 1), (0, 4),
    (s.desiredDataRate.isSome.toNat, 1), (s.highestRetransmittedPdcpSn.isSome.toNat, 1),
    (s.highestDeliveredRetransmittedPdcpSn.isSome.toNat, 1), (s.causeValue.isSome.toNat, 1),
    (s.desiredBufferSizeForDrb.toNat, 32)] ++
  (optionalField 32 (s.desiredDataRate.map (·.toNat)) ++
  (s.lostNruSnRanges.elim [] (fun ranges => (ranges.length, 8) ::
    ranges.flatMap fun range => [(range.nruSnStart, 24), (range.nruSnEnd, 24)]) ++
  (optionalField 24 s.highestDeliveredPdcpSn ++
  (optionalField 24 s.highestTransmittedPdcpSn ++
  (optionalField 8 (s.causeValue.map (·.toNat)) ++
  (optionalField 24 s.highestDeliveredRetransmittedPdcpSn ++
  optionalField 24 s.highestRetransmittedPdcpSn))))))

def packDlDataDeliveryStatus (outBuf : List UInt8) (s : DlDataDeliveryStatus) : Except BitFault (List UInt8) :=
  pack outBuf (dlDataDeliveryStatusFields s)

def readLostNruSnRange : BitParser LostNruSnRange := do
  let nruSnStart ← read 32 24
  let nruSnEnd ← read 32 24
  pure ⟨nruSnStart, nruSnEnd⟩

def readLostNruSnRanges : BitParser (List LostNruSnRange) := do
  let nofLostSnRanges ← read 8 8
  require (nofLostSnRanges ≤ nruMaxNofLostNruSnRanges)
  times nofLostSnRanges readLostNruSnRange

def readDlDataDeliveryStatus : BitParser DlDataDeliveryStatus := do
  let pduType ← read 8 4
  require (pduType = PduType.dlDataDeliveryStatus.toUint)
  let highestTransmittedPdcpSnIndication ← readFlag
  let highestDeliveredPdcpSnIndication ← readFlag
  let finalFrameInd ← readFlag
  let lostPacketReport ← readFlag
  let spare ← read 8 4
  require (spare = 0)
  let dataRateIndication ← readFlag
  let highestRetransmittedPdcpSnIndication ← readFlag
  let highestDeliveredRetransmittedPdcpSnIndication ← readFlag
  let causeReport ← readFlag
  let desiredBufferSizeForDrb ← readUInt32
  let desiredDataRate ← optional dataRateIndication readUInt32
  let lostNruSnRanges ← optional lostPacketReport readLostNruSnRanges
  let highestDeliveredPdcpSn ← optional highestDeliveredPdcpSnIndication (read 32 24)
  let highestTransmittedPdcpSn ← optional highestTransmittedPdcpSnIndication (read 32 24)
  let causeValue ← optional causeReport (readUInt8 32)
  let highestDeliveredRetransmittedPdcpSn ← optional highestDeliveredRetransmittedPdcpSnIndication (read 32 24)
  let highestRetransmittedPdcpSn ← optional highestRetransmittedPdcpSnIndication (read 32 24)
  pure ⟨finalFrameInd, desiredBufferSizeForDrb, desiredDataRate, lostNruSnRanges, highestDeliveredPdcpSn,
    highestTransmittedPdcpSn, causeValue, highestDeliveredRetransmittedPdcpSn, highestRetransmittedPdcpSn⟩

def unpackDlDataDeliveryStatus : List UInt8 → Except BitFault (Option DlDataDeliveryStatus) :=
  unpack readDlDataDeliveryStatus

end Ocudu.Nru
