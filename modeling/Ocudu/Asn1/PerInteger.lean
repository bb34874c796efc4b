import Ocudu.Asn1.BitRef
import Ocudu.Asn1.PerWidths
import Ocudu.Basic.IntType

/-! The packed encoding of integers in `asn1_utils.cpp`. A function that ends in an error gives `none`. -/

namespace Ocudu.Asn1

open BitCodec BitReader

def handleCode {α β : Type} : Except BitFault (Option α) → (α → Except BitFault (Option β)) → Except BitFault (Option β)
  | .error e, _ => .error e
  | .ok none, _ => .ok none
  | .ok (some a), f => f a

def CbitRef.unpackValue (r : CbitRef) (tBits nBits : Nat) : Except BitFault (Option (Nat × CbitRef)) :=
  (CbitRef.unpack r tBits nBits).map fun res => if res.1 then some res.2 else none

def CbitRef.alignValue (r : CbitRef) : Except BitFault (Option CbitRef) :=
  .ok (if (CbitRef.alignBytes r).1 then some (CbitRef.alignBytes r).2 else none)

def rangeOf (t : IntType) (lb ub : Int) : Nat := (((t.promote.wrap (ub - lb)) % 2 ^ 64).toNat + 1) % 2 ^ 64

variable (logs : LogWidths)

/-- The logarithm of 0 is no integer. -/
def fieldBits (ra : Nat) : Except BitFault Nat :=
  if ra = 0 then .error .conversion else .ok (logs.fieldBits ra)

def lengthBits (nBits : Nat) : Nat := logs.lengthBits (ceilFrac nBits 8)

def valueBits (toencode : Int) : Nat := logs.valueBits (max toencode 1).toNat

def toUint64 (v : Int) : Nat := (v % 2 ^ 64).toNat

variable (t : IntType)

def packConstrainedWholeNumber (w : BitRef) (n lb ub : Int) (aligned : Bool) : Except BitFault (Option BitRef) :=
  if ub < lb ∨ n < lb ∨ ub < n then .ok none
  else
    let ra := rangeOf t lb ub
    if ra = 1 then .ok (some w)
    else do
      let nBits ← fieldBits logs ra
      let toencode := t.wrap (n - lb)
      if !aligned || ra < 256 then
        let w ← BitRef.pack w (toUint64 toencode) nBits
        return some w
      else if ra ≤ 65536 then
        let nOctets := ceilFrac nBits 8
        let w ← BitRef.pack (BitRef.alignBytesZero w) 0 (nOctets * 8 - nBits)
        let w ← BitRef.pack w (toUint64 toencode) nBits
        return some (BitRef.alignBytesZero w)
      else
        let nBitsLen := lengthBits logs nBits
        let nOctets := ceilFrac (valueBits logs toencode) 8
        let w ← BitRef.pack w (nOctets - 1) nBitsLen
        let w ← BitRef.pack (BitRef.alignBytesZero w) (toUint64 toencode) (nOctets * 8)
        return some w

def addLowerBound (lb ub : Int) (val : Nat × CbitRef) : Except BitFault (Option (Int × CbitRef)) :=
  let n := t.wrap (t.wrap val.1 + lb)
  .ok (if ub < n then none else some (n, val.2))

def unpackConstrainedWholeNumber (r : CbitRef) (lb ub : Int) (aligned : Bool) :
    Except BitFault (Option (Int × CbitRef)) :=
  if ub < lb then .ok none
  else
    let ra := rangeOf t lb ub
    if ra = 1 then .ok (some (lb, r))
    else do
      let nBits ← fieldBits logs ra
      if !aligned || ra < 256 then
        handleCode (CbitRef.unpackValue r t.nofBits nBits) (addLowerBound t lb ub)
      else if ra ≤ 65536 then
        let nOctets := ceilFrac nBits 8
        handleCode (CbitRef.alignValue r) fun r =>
          handleCode (CbitRef.unpackValue r t.nofBits (nOctets * 8)) fun val =>
            handleCode (CbitRef.alignValue val.2) fun r => addLowerBound t lb ub (val.1, r)
      else
        let nBitsLen := lengthBits logs nBits
        handleCode (CbitRef.unpackValue r 32 nBitsLen) fun len =>
          handleCode (CbitRef.alignValue len.2) fun r =>
            handleCode (CbitRef.unpackValue r t.nofBits ((len.1 + 1) * 8)) (addLowerBound t lb ub)

def unconstrainedWholeNumberLength (n : Int) : Except BitFault Nat :=
  if n ≤ 0 then .error .conversion else .ok (logs.octets n.toNat)

def packUnconstrainedWholeNumber (w : BitRef) (n : Int) (aligned : Bool) : Except BitFault BitRef := do
  let len ← unconstrainedWholeNumberLength logs n
  BitRef.pack (if aligned then BitRef.alignBytesZero w else w) (toUint64 n) (len * 8)

def unpackUnconstrainedWholeNumber (r : CbitRef) (len : Nat) (aligned : Bool) :
    Except BitFault (Option (Int × CbitRef)) :=
  handleCode (if aligned then CbitRef.alignValue r else .ok (some r)) fun r =>
    handleCode (CbitRef.unpackValue r t.nofBits (len * 8)) fun val => .ok (some (t.wrap val.1, val.2))

def packLength (w : BitRef) (val : Nat) (aligned : Bool) : Except BitFault (Option BitRef) :=
  if !aligned then do
    if val < 128 then
      let w ← BitRef.pack w val 8
      return some w
    else if val < 16384 then
      let w ← BitRef.pack w 0b10 2
      let w ← BitRef.pack w val 14
      return some w
    else return none
  else if 65536 < val then .ok none
  else do
    let w := BitRef.alignBytesZero w
    if val < 128 then
      let w ← BitRef.pack w val 8
      return some w
    else if val < 16384 then
      let w ← BitRef.pack w 0b10 2
      let w ← BitRef.pack w val 14
      return some w
    else
      let w ← BitRef.pack w 0b11 2
      let m := val / 16384
      let w ← BitRef.pack w m 6
      let w ← BitRef.pack w (val - m * 16384) 16
      return some w

def unpackLength (r : CbitRef) (aligned : Bool) : Except BitFault (Option (Nat × CbitRef)) :=
  if !aligned then
    handleCode (CbitRef.unpackValue r 8 1) fun ext =>
      if ext.1 = 0 then CbitRef.unpackValue ext.2 32 7
      else
        handleCode (CbitRef.unpackValue ext.2 8 1) fun ext =>
          if ext.1 = 0 then CbitRef.unpackValue ext.2 32 14 else .ok none
  else
    handleCode (CbitRef.alignValue r) fun r =>
      handleCode (CbitRef.unpackValue r 32 8) fun val =>
        if val.1 < 128 then .ok (some val)
        else if val.1 - 128 < 64 then
          handleCode (CbitRef.unpackValue val.2 32 8) fun octet =>
            .ok (some ((val.1 - 128) <<< 8 + octet.1, octet.2))
        else .ok none

def lowerBounded (lb : Int) : Bool := lb != t.min || !t.isSigned

def upperBounded (ub : Int) : Bool := ub != t.max

def packRoot (w : BitRef) (n lb ub : Int) (withinBounds aligned : Bool) : Except BitFault (Option BitRef) :=
  if withinBounds && lowerBounded t lb && upperBounded t ub then
    if lb = ub then .ok (some w) else packConstrainedWholeNumber logs t w n lb ub aligned
  else if !withinBounds || (!lowerBounded t lb && !upperBounded t ub) then do
    let len ← unconstrainedWholeNumberLength logs n
    handleCode (packLength w len aligned) fun w => (packUnconstrainedWholeNumber logs w n aligned).map some
  else .ok (some w)

def packInteger (w : BitRef) (n lb ub : Int) (hasExt aligned : Bool) : Except BitFault (Option BitRef) :=
  let withinBounds := decide (lb ≤ n) && decide (n ≤ ub)
  if hasExt then do
    let w ← BitRef.pack w (!withinBounds).toNat 1
    packRoot logs t w n lb ub withinBounds aligned
  else if !withinBounds then .ok none
  else packRoot logs t w n lb ub withinBounds aligned

/-- `unpack_integer` after the extension marker. A branch that sets no integer leaves the one from before. -/
def unpackRoot (r : CbitRef) (n lb ub : Int) (withinBounds aligned : Bool) : Except BitFault (Option (Int × CbitRef)) :=
  if withinBounds && lowerBounded t lb && upperBounded t ub then
    if lb = ub then .ok (some (n, r)) else unpackConstrainedWholeNumber logs t r lb ub aligned
  else if !withinBounds || (!lowerBounded t lb && !upperBounded t ub) then
    handleCode (unpackLength r aligned) fun len => unpackUnconstrainedWholeNumber t len.2 len.1 aligned
  else .ok (some (n, r))

def unpackInteger (r : CbitRef) (n lb ub : Int) (hasExt aligned : Bool) : Except BitFault (Option (Int × CbitRef)) :=
  if hasExt then
    handleCode (CbitRef.unpackValue r 8 1) fun ext => unpackRoot logs t ext.2 n lb ub (ext.1 == 0) aligned
  else unpackRoot logs t r n lb ub true aligned

end Ocudu.Asn1
