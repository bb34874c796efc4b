import Mathlib.Tactic

/-! The properties of Open Fronthaul U-plane messages. -/

namespace Ocudu.Ofh

inductive DataDirection
  | uplink
  | downlink
  deriving DecidableEq

inductive FilterIndexType
  | standardChannelFilter
  | ulPrachPreamble1p25khz
  | ulPrachPreamble5kHz
  | ulPrachPreambleShort
  | ulNprachPreamble
  | ulPrachPreamble7p5kHz
  | ulPrachPreambleShort15kHz
  | ulPrachPreambleShort30kHz
  | reserved
  deriving DecidableEq

def toFilterIndexType : Nat → FilterIndexType
  | 0 => .standardChannelFilter
  | 1 => .ulPrachPreamble1p25khz
  | 2 => .ulPrachPreamble5kHz
  | 3 => .ulPrachPreambleShort
  | 4 => .ulNprachPreamble
  | 5 => .ulPrachPreamble7p5kHz
  | 6 => .ulPrachPreambleShort15kHz
  | 7 => .ulPrachPreambleShort30kHz
  | _ => .reserved

inductive CompressionType
  | none
  | bfp
  | blockScaling
  | muLaw
  | modulation
  | bfpSelective
  | modSelective
  | reserved
  deriving DecidableEq

namespace CompressionType

def hasParam (t : CompressionType) : Bool := t == bfp || t == muLaw || t == bfpSelective || t == modSelective

/-- The decompressors of the other types end the process. -/
def hasDecompressor (t : CompressionType) : Bool := t == none || t == bfp

end CompressionType

def toCompressionType : Nat → CompressionType
  | 0 => .none
  | 1 => .bfp
  | 2 => .blockScaling
  | 3 => .muLaw
  | 4 => .modulation
  | 5 => .bfpSelective
  | 6 => .modSelective
  | _ => .reserved

structure RuCompressionParams where
  type : CompressionType
  dataWidth : Nat
  deriving DecidableEq

def nofSubcarriersPerRb : Nat := 12

def maxNofPrbs : Nat := 275

def maxIqWidth : Nat := 16

def ofhPayloadVersion : Nat := 1

def bytesOfBits (n : Nat) : Nat := (n + 7) / 8

structure SlotPoint where
  numerology : Nat
  sfn : Nat
  subframe : Nat
  slot : Nat

end Ocudu.Ofh
