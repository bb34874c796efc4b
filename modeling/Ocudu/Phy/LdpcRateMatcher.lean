import Ocudu.Basic.BitCodec
import Ocudu.Basic.Machine
import Ocudu.Basic.RingWalk
import Ocudu.Phy.Ldpc

/-! `ldpc_rate_matcher_impl`: the parameters of rate matching, bit selection and bit interleaving. -/

namespace Ocudu.Phy

open BitCodec RingWalk Ldpc

inductive RateMatchFault
  | rv
  | nRef
  | rmLength
  | modulationOrder
  | blockLength
  | fillerBits
  | interval
  /-- The codeblock is shorter than what is read from it. -/
  | outOfRange
  | noFuel
  deriving DecidableEq

structure RateMatching where
  modulationOrder : Nat
  bufferLength : Nat
  shiftK0 : Nat
  nofSystematicBits : Nat
  nofFillerBits : Nat

def shiftFactor : LdpcBaseGraph → Nat → Nat
  | .bg1, rv => [0, 17, 33, 56].getD rv 0
  | .bg2, rv => [0, 13, 25, 43].getD rv 0

def nShort : LdpcBaseGraph → Nat
  | .bg1 => bg1NShort
  | .bg2 => bg2NShort

def baseK : LdpcBaseGraph → Nat
  | .bg1 => bg1NFull - bg1M
  | .bg2 => bg2NFull - bg2M

def baseGraphOf (blockLength : Nat) : Option LdpcBaseGraph :=
  if blockLength % bg1NShort = 0 then some .bg1
  else if blockLength % bg2NShort = 0 then some .bg2
  else none

def bufferLengthFor (nRef blockLength : Nat) : Nat := if 0 < nRef then min nRef blockLength else blockLength

namespace RateMatching

/-- `init`, with the shift in integer arithmetic. -/
def init (cfg : CodeblockMetadata) (blockLength rmLength : Nat) : Except RateMatchFault RateMatching :=
  if 3 < cfg.rv then .error .rv
  else if maxCodeblockRmSize < rmLength then .error .rmLength
  else if rmLength % getBitsPerSymbol cfg.mod ≠ 0 then .error .modulationOrder
  else
    match baseGraphOf blockLength with
    | none => .error .blockLength
    | some bg =>
      let liftingSize := blockLength / nShort bg
      let bufferLength := bufferLengthFor cfg.nRef blockLength
      let nofSystematicBits := (baseK bg - 2) * liftingSize
      if liftingSize ∉ allLiftingSizes then .error .blockLength
      else if nofSystematicBits ≤ cfg.nofFillerBits then .error .fillerBits
      else .ok
        { modulationOrder := getBitsPerSymbol cfg.mod
          bufferLength := bufferLength
          shiftK0 := shiftFactor bg cfg.rv * bufferLength / blockLength * liftingSize
          nofSystematicBits := nofSystematicBits
          nofFillerBits := cfg.nofFillerBits }

variable (p : RateMatching)

def nofInfoBits : Nat := p.nofSystematicBits - p.nofFillerBits

def isFiller (i : Nat) : Bool := p.nofInfoBits ≤ i && i < p.nofSystematicBits

section SelectBits

variable (codeblock : List Bool) (outputLength : Nat)

def selectBitsLoop : Nat → List Bool → Nat → Except RateMatchFault (List Bool)
  | 0, _, _ => .error .noFuel
  | fuel + 1, out, inIndex =>
    if out.length < outputLength then
      let inIndex := if p.isFiller inIndex then p.nofSystematicBits else inIndex
      if p.bufferLength < inIndex then .error .interval
      else
        let stop :=
          if p.nofInfoBits < p.nofSystematicBits ∧ inIndex ≤ p.nofInfoBits ∧ p.nofInfoBits < p.bufferLength then
            p.nofInfoBits
          else p.bufferLength
        let count := min (stop - inIndex) (outputLength - out.length)
        if codeblock.length < inIndex + count then .error .outOfRange
        else selectBitsLoop fuel (out ++ (codeblock.drop inIndex).take count) ((inIndex + count) % p.bufferLength)
    else .ok out

def selectBits (fuel : Nat) : Except RateMatchFault (List Bool) :=
  p.selectBitsLoop codeblock outputLength fuel [] p.shiftK0

end SelectBits

/-- The inner loop of the code that the comment of `select_bits` quotes. -/
def quotedSkip : Nat → Nat → Option Nat
  | 0, _ => none
  | fuel + 1, inIndex => if p.isFiller inIndex then quotedSkip fuel ((inIndex + 1) % p.bufferLength) else some inIndex

/-- The code that the comment of `select_bits` quotes; the indices that it reads from. -/
def quotedLoop (fuel : Nat) : Nat → Nat → Option (List Nat)
  | 0, _ => some []
  | n + 1, inIndex => do
    let inIndex ← p.quotedSkip fuel inIndex
    let rest ← quotedLoop fuel n ((inIndex + 1) % p.bufferLength)
    return inIndex :: rest

def quotedSelect (fuel outputLength : Nat) : Option (List Nat) :=
  p.quotedLoop fuel outputLength (p.shiftK0 % p.bufferLength)

end RateMatching

section Interleave

variable (bits : List Bool) (k : Nat)

def bitFor (j i : Nat) : Bool := bits.getD (k * j + i) false

def appendBit (word : Nat) (bit : Bool) : Nat := word * 2 % 256 ||| bit.toNat

def symbolWord (qm i : Nat) : Nat :=
  (List.range' 1 (qm - 1)).foldl (fun word j => appendBit word (bitFor bits k j i)) (bits.getD i false).toNat

def interleaveSymbols (qm start n : Nat) : List Bool :=
  (List.range' start n).flatMap fun i => toBits qm (symbolWord bits k qm i)

def packByte (b₇ b₆ b₅ b₄ b₃ b₂ b₁ b₀ : Bool) : List Bool :=
  toBits 8 (b₇.toNat <<< 7 ||| b₆.toNat <<< 6 ||| b₅.toNat <<< 5 ||| b₄.toNat <<< 4 ||| b₃.toNat <<< 3 |||
    b₂.toNat <<< 2 ||| b₁.toNat <<< 1 ||| b₀.toNat)

def interleaveBatch (i : Nat) : List Bool :=
  let b := bitFor bits k
  packByte (b 0 i) (b 1 i) (b 2 i) (b 3 i) (b 4 i) (b 5 i) (b 0 (i + 1)) (b 1 (i + 1)) ++
    packByte (b 2 (i + 1)) (b 3 (i + 1)) (b 4 (i + 1)) (b 5 (i + 1)) (b 0 (i + 2)) (b 1 (i + 2)) (b 2 (i + 2))
      (b 3 (i + 2)) ++
    packByte (b 4 (i + 2)) (b 5 (i + 2)) (b 0 (i + 3)) (b 1 (i + 3)) (b 2 (i + 3)) (b 3 (i + 3)) (b 4 (i + 3))
      (b 5 (i + 3))

def interleaveQam64 : List Bool :=
  ((List.range (k / 4)).flatMap fun q => interleaveBatch bits k (4 * q)) ++
    interleaveSymbols bits k 6 (k / 4 * 4) (k - k / 4 * 4)

def interleaveQam256 : List Bool :=
  let bytes := (List.range' 1 7).foldl
    (fun bytes q => bytes.mapIdx fun i byte => appendBit byte (bitFor bits k q i)) ((bits.take k).map Bool.toNat)
  bytes.flatMap (toBits 8)

end Interleave

def interleaveBits (modulationOrder : Nat) (bits : List Bool) : List Bool :=
  let k := bits.length / modulationOrder
  match modulationOrder with
  | 1 => bits
  | 2 => interleaveSymbols bits k 2 0 k
  | 4 => interleaveSymbols bits k 4 0 k
  | 6 => interleaveQam64 bits k
  | _ => interleaveQam256 bits (bits.length / 8)

def rateMatch (fuel : Nat) (codeblock : List Bool) (rmLength : Nat) (cfg : CodeblockMetadata) :
    Except RateMatchFault (List Bool) := do
  let p ← RateMatching.init cfg codeblock.length rmLength
  let aux ← p.selectBits codeblock rmLength fuel
  return interleaveBits p.modulationOrder aux

end Ocudu.Phy
