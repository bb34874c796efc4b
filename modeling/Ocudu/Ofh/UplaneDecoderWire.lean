import Ocudu.Ofh.UplaneDecoder

/-! U-plane messages on the wire, and what the decoder makes of them. -/

namespace Ocudu.Ofh

/-- The header of a message: 1, 3, 4, 8, 4, 6 and 6 bits. -/
structure WireHeader where
  dataDirection : Fin 2
  payloadVersion : Fin 8
  filterIndex : Fin 16
  frameId : UInt8
  subframeId : Fin 16
  slotId : Fin 64
  symbolId : Fin 64

namespace WireHeader

variable (h : WireHeader)

def bytes : List UInt8 :=
  [UInt8.ofNat (h.dataDirection * 128 + h.payloadVersion * 16 + h.filterIndex), h.frameId,
    UInt8.ofNat (h.subframeId * 16 + h.slotId / 4), UInt8.ofNat (h.slotId % 4 * 64 + h.symbolId)]

variable {Sample : Type} (dec : Decoder Sample)

def Valid : Prop :=
  h.dataDirection = 0 ∧ h.payloadVersion = 1 ∧ h.filterIndex < 8 ∧ h.subframeId < 10 ∧
    h.slotId < dec.nofSlotsPerSubframe ∧ h.symbolId < dec.nofSymbols

instance : Decidable (h.Valid dec) := inferInstanceAs (Decidable (_ ∧ _))

def params : UplaneMessageParams :=
  ⟨.uplink, ⟨dec.numerology, h.frameId.toNat, h.subframeId, h.slotId⟩, toFilterIndexType h.filterIndex, h.symbolId⟩

end WireHeader

/-- A section: 12, 1, 1, 10 and 8 bits. The fields of the compression header are there with dynamic compression, and the
length with selective sending. -/
structure WireSection where
  sectionId : Fin 4096
  rb : Bool
  symInc : Bool
  startPrb : Fin 1024
  numPrb : UInt8
  iqWidth : Fin 16
  compMeth : Fin 16
  reserved : UInt8
  udCompLen : UInt16
  iqData : List UInt8

namespace WireSection

variable {Sample : Type} (dec : Decoder Sample) (s : WireSection)

def compression : RuCompressionParams :=
  match dec.compression with
  | .static params => params
  | .dynamic => ⟨toCompressionType s.compMeth, if s.iqWidth = 0 then maxIqWidth else s.iqWidth⟩

def hasLength : Bool :=
  (s.compression dec).type == .bfpSelective || (s.compression dec).type == .modSelective ||
    (s.compression dec).type == .reserved

def headerBytes : List UInt8 :=
  [UInt8.ofNat (s.sectionId / 16), UInt8.ofNat (s.sectionId % 16 * 16 + s.rb.toNat * 8 + s.symInc.toNat * 4 + s.startPrb / 256),
    UInt8.ofNat (s.startPrb % 256), s.numPrb]

def compressionBytes : List UInt8 :=
  match dec.compression with
  | .static _ => []
  | .dynamic => [UInt8.ofNat (s.iqWidth * 16 + s.compMeth), s.reserved]

def lengthBytes : List UInt8 :=
  if s.hasLength dec then [UInt8.ofNat (s.udCompLen.toNat / 256), UInt8.ofNat (s.udCompLen.toNat % 256)] else []

def bytes : List UInt8 := s.headerBytes ++ (s.compressionBytes dec ++ (s.lengthBytes dec ++ s.iqData))

def nofPrbs : Nat := if s.numPrb = 0 then dec.ruNofPrbs else s.numPrb.toNat

def firstPrb : Nat := if s.numPrb = 0 then 0 else s.startPrb

def prbSize (params : RuCompressionParams) : Nat := 3 * params.dataWidth + if params.type.hasParam then 1 else 0

structure Complete : Prop where
  known : dec.compression = .dynamic → s.compMeth < 7
  iqData : s.iqData.length = s.nofPrbs dec * prbSize (s.compression dec)

abbrev Decompressed : Prop := (s.compression dec).type.hasDecompressor = true

def result : UplaneSection Sample where
  params := {
    sectionId := s.sectionId
    isEveryRbUsed := !s.rb
    useCurrentSymbolNumber := !s.symInc
    startPrb := s.firstPrb
    nofPrbs := s.nofPrbs dec
    udCompHdr := s.compression dec
    udCompLen := if s.hasLength dec then some s.udCompLen.toNat else none
    udCompParam := none }
  iqSamples := dec.decompress (s.nofPrbs dec * 12) s.iqData (s.compression dec)

end WireSection

end Ocudu.Ofh
