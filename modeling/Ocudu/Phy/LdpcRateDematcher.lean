import Ocudu.Phy.LdpcRateMatcher
import Ocudu.Phy.LogLikelihoodRatio

/-! `ldpc_rate_dematcher_impl`: soft bits are put back to the positions of the codeblock that they were
taken from. -/

namespace Ocudu.Phy

open RingWalk Ldpc

def copyRange (out : List LogLikelihoodRatio) (start : Nat) (vs : List LogLikelihoodRatio) : List LogLikelihoodRatio :=
  updateRange (fun _ v => v) out start vs

/-- `combine_softbits` with the chunk that is already there. -/
def combineRange (out : List LogLikelihoodRatio) (start : Nat) (vs : List LogLikelihoodRatio) :
    List LogLikelihoodRatio :=
  updateRange (· + ·) out start vs

def fillRange (out : List LogLikelihoodRatio) (start n : Nat) (v : LogLikelihoodRatio) : List LogLikelihoodRatio :=
  copyRange out start (List.replicate n v)

namespace RateMatching

/-! `allot_llrs`. -/

structure AllotState where
  out : List LogLikelihoodRatio
  tmpIdx : Nat
  input : List LogLikelihoodRatio
  isCopyMode : Bool

variable (p : RateMatching)

def allotSystematic (s : AllotState) : AllotState :=
  if s.tmpIdx < p.nofInfoBits then
    let n := min (p.nofInfoBits - s.tmpIdx) s.input.length
    { s with
      out :=
        if s.isCopyMode then copyRange (fillRange s.out 0 s.tmpIdx 0) s.tmpIdx (s.input.take n)
        else combineRange s.out s.tmpIdx (s.input.take n)
      tmpIdx := s.tmpIdx + n
      input := s.input.drop n }
  else if s.isCopyMode then { s with out := fillRange s.out 0 p.nofInfoBits 0 }
  else s

def allotFiller (s : AllotState) : AllotState :=
  { s with
    out := if s.isCopyMode then fillRange s.out p.nofInfoBits p.nofFillerBits .infinity else s.out
    tmpIdx := if s.tmpIdx < p.nofSystematicBits then p.nofSystematicBits else s.tmpIdx }

/-- The index is not behind the end of a buffer that holds the systematic bits. -/
def allotParity (s : AllotState) : AllotState :=
  let n := min (p.bufferLength - s.tmpIdx) s.input.length
  { s with
    out :=
      if s.isCopyMode then copyRange s.out s.tmpIdx (s.input.take n)
      else combineRange s.out s.tmpIdx (s.input.take n)
    tmpIdx := (s.tmpIdx + n) % p.bufferLength
    input := s.input.drop n }

def allotRound (s : AllotState) : AllotState :=
  let s := p.allotParity (p.allotFiller (p.allotSystematic s))
  { s with isCopyMode := if s.input.isEmpty then s.isCopyMode else false }

def allotLoop : Nat → AllotState → Except RateMatchFault AllotState
  | 0, _ => .error .noFuel
  | fuel + 1, s => if s.input.isEmpty then .ok s else allotLoop fuel (p.allotRound s)

def allotLlrs (fuel : Nat) (isNewData : Bool) (out input : List LogLikelihoodRatio) :
    Except RateMatchFault (List LogLikelihoodRatio) := do
  let s ← p.allotLoop fuel ⟨out, p.shiftK0, input, isNewData⟩
  if s.isCopyMode ∧ s.tmpIdx ≠ 0 then
    -- `out.last(buffer_length - tmp_idx)`
    let n := p.bufferLength - s.tmpIdx
    return fillRange s.out (s.out.length - n) n 0
  else return s.out

end RateMatching

def deinterleaveBitsQm (qm : Nat) (out input : List LogLikelihoodRatio) : List LogLikelihoodRatio :=
  let k := out.length / qm
  (List.range k).foldl
    (fun out i => (List.range qm).foldl (fun out j => out.set (k * j + i) (input.getD (i * qm + j) 0)) out) out

def deinterleaveLlrs (modulationOrder : Nat) (out input : List LogLikelihoodRatio) : List LogLikelihoodRatio :=
  match modulationOrder with
  | 4 => deinterleaveBitsQm 4 out input
  | 6 => deinterleaveBitsQm 6 out input
  | 8 => deinterleaveBitsQm 8 out input
  | _ => deinterleaveBitsQm 2 out input

/-- The soft bits go through the auxiliary buffer unless there is one for each symbol. -/
def rateDematch (fuel : Nat) (auxiliaryBuffer output input : List LogLikelihoodRatio) (newData : Bool)
    (cfg : CodeblockMetadata) : Except RateMatchFault (List LogLikelihoodRatio) :=
  if 3 < cfg.rv then .error .rv
  else if maxCodeblockSize < cfg.nRef then .error .nRef
  else do
    let p ← RateMatching.init cfg output.length input.length
    if p.modulationOrder = 1 then p.allotLlrs fuel newData output input
    else p.allotLlrs fuel newData output (deinterleaveLlrs p.modulationOrder (auxiliaryBuffer.take input.length) input)

end Ocudu.Phy
