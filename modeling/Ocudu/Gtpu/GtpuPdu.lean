import Ocudu.Support.BitEncoding

/-! `gtpu_pdu.cpp`: the header of a GTP-U PDU, written in front of a payload and dissected from a received PDU. -/

namespace Ocudu.Gtpu

open BitReader BitParser Support

def gtpuBaseHeaderLen : Nat := 8

def gtpuExtendedHeaderLen : Nat := 12

def gtpuMaxNumHeaderExtensions : Nat := 10

def gtpuFlagsVersionV1 : UInt8 := 1

def gtpuFlagsGtpProtocol : UInt8 := 1

def gtpuMsgEchoRequest : UInt8 := 1

def gtpuMsgEchoResponse : UInt8 := 2

def gtpuMsgErrorIndication : UInt8 := 26

def gtpuMsgEndMarker : UInt8 := 254

def gtpuMsgDataPdu : UInt8 := 255

abbrev GtpuExtensionHeaderType := UInt8

namespace GtpuExtensionHeaderType

def noMoreExtensionHeaders : GtpuExtensionHeaderType := 0b00000000

def reserved0 : GtpuExtensionHeaderType := 0b00000001

def reserved1 : GtpuExtensionHeaderType := 0b00000010

def nrRanContainer : GtpuExtensionHeaderType := 0b10000100

def pduSessionContainer : GtpuExtensionHeaderType := 0b10000101

def pdcpPduNumber : GtpuExtensionHeaderType := 0b11000000

def reserved2 : GtpuExtensionHeaderType := 0b11000001

def reserved3 : GtpuExtensionHeaderType := 0b11000010

end GtpuExtensionHeaderType

open GtpuExtensionHeaderType

structure GtpuExtensionHeader where
  extensionHeaderType : GtpuExtensionHeaderType := noMoreExtensionHeaders
  container : List UInt8 := []
  deriving DecidableEq

structure GtpuFlags where
  version : UInt8 := 1
  protocolType : UInt8 := 0
  extHdr : Bool := false
  seqNumber : Bool := false
  nPdu : Bool := false
  deriving DecidableEq

structure GtpuHeader where
  flags : GtpuFlags := {}
  messageType : UInt8 := 0
  length : UInt16 := 0
  teid : UInt32 := 0
  seqNumber : UInt16 := 0
  nPdu : UInt8 := 0
  nextExtHdrType : GtpuExtensionHeaderType := noMoreExtensionHeaders
  extList : List GtpuExtensionHeader := []
  deriving DecidableEq

structure GtpuDissectedPdu where
  buf : List UInt8
  hdr : GtpuHeader
  hdrLen : Nat
  deriving DecidableEq

inductive GtpuFault
  | bits (f : BitFault)
  | extensionSize
  deriving DecidableEq

def gtpuSupportedFlagsCheck (flags : GtpuFlags) : Bool :=
  if flags.version ≠ gtpuFlagsVersionV1 then false
  else if flags.protocolType ≠ gtpuFlagsGtpProtocol then false
  else if flags.nPdu then false
  else true

def gtpuSupportedMsgTypeCheck (messageType : UInt8) : Bool :=
  messageType == gtpuMsgDataPdu || messageType == gtpuMsgEchoRequest || messageType == gtpuMsgEchoResponse ||
    messageType == gtpuMsgErrorIndication || messageType == gtpuMsgEndMarker

/-- A type that needs comprehension is refused unless it is one of the three that are handled. -/
def gtpuExtensionHeaderComprehensionCheck (type : GtpuExtensionHeaderType) : Bool :=
  if type = noMoreExtensionHeaders then true
  else if type = nrRanContainer ∨ type = pduSessionContainer ∨ type = pdcpPduNumber then true
  else if type = reserved0 ∨ type = reserved1 ∨ type = reserved2 ∨ type = reserved3 then false
  else
    let comp := type >>> 6
    !(comp == 2 || comp == 3)

def hasOptionalPart (header : GtpuHeader) : Bool :=
  !header.extList.isEmpty || header.flags.seqNumber || header.flags.nPdu

def gtpuGetLength (header : GtpuHeader) (sdu : List UInt8) : UInt16 :=
  let len := UInt16.ofNat sdu.length
  let len := if hasOptionalPart header then len + 4 else len
  header.extList.foldl (fun len ext => len + 2 + UInt16.ofNat ext.container.length) len

def headerFields (header : GtpuHeader) (length : UInt16) : List (Nat × Nat) :=
  [(header.flags.version.toNat, 3), (header.flags.protocolType.toNat, 1), (0, 1), ((!header.extList.isEmpty).toNat, 1),
    (header.flags.seqNumber.toNat, 1), (header.flags.nPdu.toNat, 1), (header.messageType.toNat, 8), (length.toNat, 16),
    (header.teid.toNat, 32)] ++
  if hasOptionalPart header then
    [(header.seqNumber.toNat, 16), (header.nPdu.toNat, 8),
      ((header.extList.head?.elim noMoreExtensionHeaders (·.extensionHeaderType)).toNat, 8)]
  else []

def gtpuWriteExtHeader (encoder : BitEncoder) (ext : GtpuExtensionHeader)
    (nextExtensionHeaderType : GtpuExtensionHeaderType) : Except GtpuFault BitEncoder :=
  let payload := UInt8.ofNat (1 + ext.container.length + 1)
  if payload % 4 ≠ 0 then .error .extensionSize
  else
    (do
      let encoder ← encoder.pack (payload / 4).toNat 8
      let encoder ← encoder.packBytes ext.container
      encoder.pack nextExtensionHeaderType.toNat 8).mapError .bits

def gtpuWriteExtHeaders (encoder : BitEncoder) : List GtpuExtensionHeader → Except GtpuFault BitEncoder
  | [] => .ok encoder
  | ext :: extList => do
    let encoder ← gtpuWriteExtHeader encoder ext
      (extList.head?.elim noMoreExtensionHeaders (·.extensionHeaderType))
    gtpuWriteExtHeaders encoder extList

def gtpuWriteHeader (pdu : List UInt8) (header : GtpuHeader) : Except GtpuFault (Option (List UInt8)) :=
  if !gtpuSupportedFlagsCheck header.flags then .ok none
  else if !gtpuSupportedMsgTypeCheck header.messageType then .ok none
  else do
    let encoder ← (BitEncoder.packFields ⟨[], 0⟩ (headerFields header (gtpuGetLength header pdu))).mapError .bits
    let encoder ← gtpuWriteExtHeaders encoder header.extList
    return some (encoder.bytes ++ pdu)

def gtpuReadExtHeader (type : GtpuExtensionHeaderType) : BitParser (GtpuExtensionHeader × GtpuExtensionHeaderType) := do
  let length ← BitDecoder.unpack UInt8.ofNat 8 8
  let payload := (length.toNat * 4 + 2 ^ 16 - 2) % 2 ^ 16
  let container ← BitDecoder.unpackAlignedBytes payload
  let nextExtensionHeaderType ← BitDecoder.unpack UInt8.ofNat 8 8
  pure (⟨type, container⟩, nextExtensionHeaderType)

def gtpuReadExtHeaders : Nat → GtpuExtensionHeaderType → BitParser (List GtpuExtensionHeader)
  | 0, type => do
    require (gtpuExtensionHeaderComprehensionCheck type)
    let _ ← gtpuReadExtHeader type
    require False
    pure []
  | room + 1, type => do
    require (gtpuExtensionHeaderComprehensionCheck type)
    let (ext, nextExtensionHeaderType) ← gtpuReadExtHeader type
    if nextExtensionHeaderType = noMoreExtensionHeaders then pure [ext]
    else do
      let extList ← gtpuReadExtHeaders room nextExtensionHeaderType
      pure (ext :: extList)

def gtpuReadOptionalPart (pduLen : Nat) (hdr : GtpuHeader) : BitParser GtpuHeader := do
  require (gtpuExtendedHeaderLen ≤ pduLen)
  let seqNumber ← BitDecoder.unpack UInt16.ofNat 16 16
  let nPdu ← BitDecoder.unpack UInt8.ofNat 8 8
  let nextExtHdrType ← BitDecoder.unpack UInt8.ofNat 8 8
  require (gtpuExtensionHeaderComprehensionCheck nextExtHdrType)
  pure { hdr with seqNumber, nPdu, nextExtHdrType }

def gtpuReadFixedPart (pduLen : Nat) : BitParser GtpuHeader := do
  let version ← BitDecoder.unpack UInt8.ofNat 8 3
  let protocolType ← BitDecoder.unpack UInt8.ofNat 8 1
  let _spare ← BitDecoder.unpack UInt8.ofNat 8 1
  let extHdr ← BitDecoder.unpack (· != 0) 8 1
  let seqNumber ← BitDecoder.unpack (· != 0) 8 1
  let nPdu ← BitDecoder.unpack (· != 0) 8 1
  require (gtpuSupportedFlagsCheck ⟨version, protocolType, extHdr, seqNumber, nPdu⟩)
  let messageType ← BitDecoder.unpack UInt8.ofNat 8 8
  let length ← BitDecoder.unpack UInt16.ofNat 16 16
  let teid ← BitDecoder.unpack UInt32.ofNat 32 32
  require (length = UInt16.ofNat (pduLen - gtpuBaseHeaderLen))
  let hdr : GtpuHeader := { flags := ⟨version, protocolType, extHdr, seqNumber, nPdu⟩, messageType, length, teid }
  if extHdr || seqNumber || nPdu then gtpuReadOptionalPart pduLen hdr else pure hdr

def gtpuReadHeader (pduLen : Nat) : BitParser GtpuHeader := do
  let hdr ← gtpuReadFixedPart pduLen
  if hdr.flags.extHdr then do
    require (hdr.nextExtHdrType ≠ noMoreExtensionHeaders)
    let extList ← gtpuReadExtHeaders gtpuMaxNumHeaderExtensions hdr.nextExtHdrType
    pure { hdr with extList }
  else pure hdr

def gtpuDissectPdu (rawPdu : List UInt8) : Except BitFault (Option GtpuDissectedPdu) :=
  if rawPdu.length < gtpuBaseHeaderLen then .ok none
  else
    (gtpuReadHeader rawPdu.length ⟨rawPdu, 0, 0⟩).map fun res =>
      res.map fun (hdr, decoder) => ⟨rawPdu, hdr, BitDecoder.nofBytes decoder⟩

def gtpuExtractMsg (dissectedPdu : GtpuDissectedPdu) : List UInt8 := dissectedPdu.buf.drop dissectedPdu.hdrLen

end Ocudu.Gtpu
