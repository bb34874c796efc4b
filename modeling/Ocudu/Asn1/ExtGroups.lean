import Mathlib.Data.List.DropRight
import Ocudu.Asn1.OpenTypeResync

/-! The groups of extension additions: `ext_groups_packer_guard`, `ext_groups_unpacker_guard` and `ext_groups_unpacker`. -/

namespace Ocudu.Asn1

open BitReader BitParser

structure ExtArray where
  elems : List Bool
  heapCap : Option Nat

namespace ExtArray

def empty : ExtArray := ⟨[], none⟩

def capacity (a : ExtArray) : Nat := a.heapCap.getD 16

def resize (a : ExtArray) (newSize : Nat) : Except BitFault ExtArray :=
  let elems := a.elems ++ List.replicate (newSize - a.elems.length) false
  if newSize ≤ a.capacity then .ok { a with elems }
  -- the elements are copied from the small buffer, also when they are not in it
  else if a.heapCap.isSome && !a.elems.isEmpty then .error .outOfBounds
  else .ok ⟨elems, some (newSize + 5)⟩

end ExtArray

def packNormSmallNonNegWholeNumber (w : BitRef) (n : Nat) : Except BitFault (Option BitRef) :=
  if n ≤ 63 then (BitRef.pack w n 7).map some
  else do
    let _ ← BitRef.pack w 1 1
    return none

def unpackNormSmallNonNegWholeNumber : BitParser Nat := do
  let ext ← BitParser.read 8 1
  require (ext = 0)
  BitParser.read 32 6

def readPresence : BitParser Bool := do
  let flag ← BitParser.read 8 1
  pure (flag != 0)

namespace ExtGroupsPackerGuard

def setFlag (groups : ExtArray) (idx : Nat) (present : Bool) : Except BitFault ExtArray := do
  let groups ← if groups.elems.length ≤ idx then groups.resize (idx + 1) else pure groups
  return { groups with elems := groups.elems.modify idx (· || present) }

def setFlags (groups : ExtArray) (idx : Nat) : List Bool → Except BitFault ExtArray
  | [] => .ok groups
  | present :: flags => do
    let groups ← setFlag groups idx present
    setFlags groups (idx + 1) flags

def presentGroups (groups : ExtArray) : List Bool := groups.elems.rdropWhile fun present => !present

def pack (groups : ExtArray) (w : BitRef) : Except BitFault (Option BitRef) :=
  let flags := presentGroups groups
  -- the number of groups less one is a word of 32 bits
  handleCode (packNormSmallNonNegWholeNumber w ((flags.length + (2 ^ 32 - 1)) % 2 ^ 32)) fun w =>
    (flags.foldlM (fun w present => BitRef.pack w present.toNat 1) w).map some

end ExtGroupsPackerGuard

/-- `unpack_presence_flags`. The array grows once, from none to at most 64 elements. -/
def unpackPresenceFlags : BitParser (List Bool) := do
  let n ← unpackNormSmallNonNegWholeNumber
  times (n + 1) readPresence

namespace ExtGroupsUnpacker

inductive State
  | unpackPresenceFlags
  | unpackGroups
  | done
  deriving DecidableEq

end ExtGroupsUnpacker

structure ExtGroupsUnpacker where
  state : ExtGroupsUnpacker.State
  nofUnpackedGroups : Nat
  nextGroupIdx : Nat
  outerBref : CbitRef
  groupBref : CbitRef
  groups : List Bool

namespace ExtGroupsUnpacker

def ofReader (r : CbitRef) : ExtGroupsUnpacker := ⟨.unpackPresenceFlags, 0, 0, r, ⟨[], 0, 0⟩, []⟩

def unpackFlags (u : ExtGroupsUnpacker) : Except BitFault (Option ExtGroupsUnpacker) :=
  if u.state = .unpackPresenceFlags then
    handleCode (Asn1.unpackPresenceFlags u.outerBref) fun res => .ok (some { u with
      state := .unpackGroups, nofUnpackedGroups := res.1.length, outerBref := res.2, groups := res.1 })
  else .ok (some u)

def unpackGroup (aligned : Bool) (u : ExtGroupsUnpacker) : Except BitFault (Option ExtGroupsUnpacker) :=
  if u.nofUnpackedGroups ≤ u.nextGroupIdx then .ok (some { u with state := .done })
  else if u.groups.getD u.nextGroupIdx false then
    handleCode (unpackLength u.outerBref aligned) fun len => do
      let view ← CbitRef.subview len.2 0 (UInt32.ofNat len.1)
      let outer ← CbitRef.advanceBytes len.2 (UInt32.ofNat len.1)
      return if outer.1 then
        some { u with nextGroupIdx := u.nextGroupIdx + 1, outerBref := outer.2, groupBref := view.2 } else none
  else .ok (some { u with nextGroupIdx := u.nextGroupIdx + 1 })

def unpackNextGroup (aligned : Bool) (u : ExtGroupsUnpacker) : Except BitFault (Option ExtGroupsUnpacker) :=
  handleCode (unpackFlags u) (unpackGroup aligned)

def getLastGroupRange (u : ExtGroupsUnpacker) : Option CbitRef :=
  if u.state ≠ .done && u.groups.getD (u.nextGroupIdx - 1) false then some u.groupBref else none

def consumeLoop (aligned : Bool) : Nat → ExtGroupsUnpacker → Except BitFault (Option ExtGroupsUnpacker)
  | 0, u => .ok (some u)
  | n + 1, u => handleCode (unpackNextGroup aligned u) (consumeLoop aligned n)

def consumeRemainingGroups (aligned : Bool) (u : ExtGroupsUnpacker) : Except BitFault (Option (Unit × CbitRef)) :=
  handleCode (consumeLoop aligned (u.nofUnpackedGroups - u.nextGroupIdx) u) fun u => .ok (some ((), u.outerBref))

/-- The groups that the decoder knows, each with the decoder of its content. -/
def unpackKnown (aligned : Bool) : List (BitParser Unit) → ExtGroupsUnpacker → Except BitFault (Option ExtGroupsUnpacker)
  | [], u => .ok (some u)
  | x :: known, u =>
    handleCode (unpackNextGroup aligned u) fun u =>
      match getLastGroupRange u with
      | some view => handleCode (x view) fun _ => unpackKnown aligned known u
      | none => unpackKnown aligned known u

def unpack (aligned : Bool) (known : List (BitParser Unit)) : BitParser Unit := fun r =>
  handleCode (unpackKnown aligned known (ofReader r)) (consumeRemainingGroups aligned)

end ExtGroupsUnpacker

namespace ExtGroupsUnpackerGuard

def unpackFlags (nofSupportedGroups : Nat) : BitParser (List Bool) := fun r => do
  let groups ← ExtArray.empty.resize nofSupportedGroups
  handleCode (unpackNormSmallNonNegWholeNumber r) fun n => do
    let groups ← groups.resize (max (n.1 + 1) nofSupportedGroups)
    handleCode (times (n.1 + 1) readPresence n.2) fun flags =>
      .ok (some (flags.1 ++ groups.elems.drop (n.1 + 1), flags.2))

/-- The groups from `idx` on: a known one has a decoder, and the destructor skips the others. -/
def unpackGroups (unset : Nat → UInt32) (behind : Nat) : List Bool → List (BitParser Unit) → Nat → BitParser Unit
  | [], _, _ => pure ()
  | present :: flags, known, idx => do
    if present then VarlengthFieldUnpackGuard.scope (unset idx) behind (known.headD (pure ())) false else pure ()
    unpackGroups unset behind flags known.tail (idx + 1)

def unpack (unset : Nat → UInt32) (behind : Nat) (known : List (BitParser Unit)) : BitParser Unit := do
  let flags ← unpackFlags known.length
  unpackGroups unset behind flags known 0

end ExtGroupsUnpackerGuard

end Ocudu.Asn1
