import Ocudu.Basic.Machine
import Ocudu.Ofh.UplaneMessage

/-! `uplane_message_decoder_impl`: the decoder of U-plane messages, with static and with dynamic compression. -/

namespace Ocudu.Ofh

/-- Why a function of the decoder stops. Only the first two are statuses of the code. -/
inductive Stop
  | incomplete
  | malformed
  | pastEnd
  | capacity
  /-- `report_error` of a decompressor that is not implemented. -/
  | decompression
  /-- A loop has more turns than the message has bytes. -/
  | turns

/-- `network_order_binary_deserializer`. The pointer is given by the bytes from it to the end. -/
structure Deserializer where
  ptr : List UInt8
  size : Nat
  offset : Nat

namespace Deserializer

def ofMessage (message : List UInt8) : Deserializer := ⟨message, message.length % 2 ^ 32, 0⟩

def remainingBytes (d : Deserializer) : Nat := (d.size + (2 ^ 32 - d.offset % 2 ^ 32)) % 2 ^ 32

def advance (d : Deserializer) (x : Nat) : Deserializer := { d with ptr := d.ptr.drop x, offset := d.offset + x }

def getViewAndAdvance (d : Deserializer) (x : Nat) : Except Stop (List UInt8 × Deserializer) :=
  if x ≤ d.ptr.length then .ok (d.ptr.take x, d.advance x) else .error .pastEnd

def readByte (d : Deserializer) : Except Stop (Nat × Deserializer) :=
  match d.ptr with
  | [] => .error .pastEnd
  | b :: _ => .ok (b.toNat, d.advance 1)

def readTwoBytes (d : Deserializer) : Except Stop (Nat × Deserializer) := do
  let (high, d) ← d.readByte
  let (low, d) ← d.readByte
  return (high * 256 + low, d)

end Deserializer

structure UplaneMessageParams where
  direction : DataDirection
  slot : SlotPoint
  filterIndex : FilterIndexType
  symbolId : Nat

structure SectionParams where
  sectionId : Nat
  isEveryRbUsed : Bool
  useCurrentSymbolNumber : Bool
  startPrb : Nat
  nofPrbs : Nat
  udCompHdr : RuCompressionParams
  udCompLen : Option Nat
  udCompParam : Option Nat

structure UplaneSection (Sample : Type) where
  params : SectionParams
  iqSamples : List Sample

structure DecoderResults (Sample : Type) where
  params : UplaneMessageParams
  sections : List (UplaneSection Sample)

def maxNofSupportedSections : Nat := 1

/-- The capacity of the results is one more than what the decoder supports. -/
def resultsMaxNofSupportedSections : Nat := 2

/-- The parameters are in the configuration or in each section. -/
inductive CompressionHeader
  | static (params : RuCompressionParams)
  | dynamic
  deriving DecidableEq

structure Decoder (Sample : Type) where
  numerology : Nat
  nofSymbols : Nat
  ruNofPrbs : Nat
  compression : CompressionHeader
  decompress : Nat → List UInt8 → RuCompressionParams → List Sample
  ruNofPrbs_le : ruNofPrbs ≤ maxNofPrbs
  dataWidth_le : ∀ params, compression = .static params → params.dataWidth ≤ maxIqWidth

variable {Sample : Type}

namespace Decoder

variable (dec : Decoder Sample)

def nofSlotsPerSubframe : Nat := 2 ^ dec.numerology

def decodeHeader (d : Deserializer) : Except Stop (Option (UplaneMessageParams × Deserializer)) :=
  if d.remainingBytes < 4 then .ok none
  else do
    let (value, d) ← d.readByte
    let direction := if value >>> 7 = 0 then DataDirection.uplink else .downlink
    let version := value >>> 4 &&& 7
    let filterIndex := toFilterIndexType (value &&& 0xf)
    let (frame, d) ← d.readByte
    let (subframeAndSlot, d) ← d.readByte
    let subframe := subframeAndSlot >>> 4
    let (slotAndSymbol, d) ← d.readByte
    let symbolId := slotAndSymbol &&& 0x3f
    let slotId := (subframeAndSlot &&& 0x0f) <<< 2 ||| slotAndSymbol >>> 6
    if 10 ≤ subframe || dec.nofSlotsPerSubframe ≤ slotId then return none
    else if direction ≠ .uplink || version ≠ ofhPayloadVersion || filterIndex == .reserved ||
        decide (dec.nofSymbols ≤ symbolId) then return none
    else return some (⟨direction, ⟨dec.numerology, frame, subframe, slotId⟩, filterIndex, symbolId⟩, d)

def decodeSectionHeader (d : Deserializer) : Except Stop (SectionParams × Deserializer) :=
  if d.remainingBytes < 4 then .error .incomplete
  else do
    let (idHigh, d) ← d.readByte
    let (sectionAndRest, d) ← d.readByte
    let (startLow, d) ← d.readByte
    let (nofPrb, d) ← d.readByte
    let startPrb := (sectionAndRest &&& 0x03) <<< 8 ||| startLow
    return ({
      sectionId := idHigh <<< 4 ||| sectionAndRest >>> 4
      isEveryRbUsed := sectionAndRest >>> 3 &&& 1 == 0
      useCurrentSymbolNumber := sectionAndRest >>> 2 &&& 1 == 0
      startPrb := if nofPrb = 0 then 0 else startPrb
      nofPrbs := if nofPrb = 0 then dec.ruNofPrbs else nofPrb
      udCompHdr := ⟨.none, 0⟩
      udCompLen := none
      udCompParam := none }, d)

def decodeCompressionHeader (results : SectionParams) (d : Deserializer) : Except Stop (SectionParams × Deserializer) :=
  match dec.compression with
  | .static params => .ok ({ results with udCompHdr := params }, d)
  | .dynamic =>
    if d.remainingBytes < 2 then .error .incomplete
    else do
      let (value, d) ← d.readByte
      let type := toCompressionType (value &&& 0x0f)
      if type = .reserved then .error .malformed
      else
        let dataWidth := value >>> 4
        return ({ results with udCompHdr := ⟨type, if dataWidth = 0 then maxIqWidth else dataWidth⟩ }, d.advance 1)

def decodeCompressionLength (results : SectionParams) (d : Deserializer) : Except Stop (SectionParams × Deserializer) :=
  match results.udCompHdr.type with
  | .none | .bfp | .blockScaling | .muLaw | .modulation => .ok (results, d)
  | .bfpSelective | .modSelective | .reserved =>
    if d.remainingBytes < 2 then .error .incomplete
    else do
      let (len, d) ← d.readTwoBytes
      return ({ results with udCompLen := some len }, d)

def prbIqDataSize (params : RuCompressionParams) : Nat :=
  bytesOfBits (nofSubcarriersPerRb * 2 * params.dataWidth) + if params.type.hasParam then 1 else 0

def decodeIqData (results : SectionParams) (d : Deserializer) : Except Stop (UplaneSection Sample × Deserializer) := do
  let params := results.udCompHdr
  let bits := nofSubcarriersPerRb * 2 * params.dataWidth + if params.type.hasParam then 8 else 0
  let (compressedData, d) ← d.getViewAndAdvance (results.nofPrbs * bytesOfBits bits)
  let nofSamples := results.nofPrbs * nofSubcarriersPerRb
  if maxNofPrbs * nofSubcarriersPerRb < nofSamples then .error .capacity
  else if params.type.hasDecompressor then return (⟨results, dec.decompress nofSamples compressedData params⟩, d)
  else .error .decompression

def decodeSection (d : Deserializer) : Except Stop (UplaneSection Sample × Deserializer) := do
  let (section_, d) ← dec.decodeSectionHeader d
  let (section_, d) ← dec.decodeCompressionHeader section_ d
  let (section_, d) ← decodeCompressionLength section_ d
  if d.remainingBytes < prbIqDataSize section_.udCompHdr * section_.nofPrbs then .error .incomplete
  else dec.decodeIqData section_ d

def finish (sections : List (UplaneSection Sample)) : Option (List (UplaneSection Sample)) :=
  if sections.isEmpty then none else some sections

def decodeAllSections : Nat → List (UplaneSection Sample) → Deserializer →
    Except Stop (Option (List (UplaneSection Sample)))
  | 0, _, _ => .error .turns
  | turns + 1, sections, d =>
    if d.remainingBytes = 0 then .ok (finish sections)
    else
      match dec.decodeSection d with
      | .error .incomplete => .ok (finish sections)
      | .error .malformed => .ok none
      | .error stop => .error stop
      | .ok (section_, d) =>
        if resultsMaxNofSupportedSections ≤ sections.length then .error .capacity
        else if sections.length + 1 = resultsMaxNofSupportedSections then .ok none
        else decodeAllSections turns (sections ++ [section_]) d

def decode (message : List UInt8) : Except Stop (Option (DecoderResults Sample)) := do
  match ← dec.decodeHeader (.ofMessage message) with
  | none => return none
  | some (params, d) =>
    let sections ← dec.decodeAllSections (message.length + 1) [] d
    return sections.map (⟨params, ·⟩)

end Decoder

end Ocudu.Ofh
