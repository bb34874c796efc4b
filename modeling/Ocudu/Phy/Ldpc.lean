import Mathlib.Tactic

/-! The constants of `ldpc.h` and `ldpc_graph_impl.h`, modulation orders, and `codeblock_metadata`. -/

namespace Ocudu.Phy

inductive ModulationScheme
  | pi2Bpsk
  | bpsk
  | qpsk
  | qam16
  | qam64
  | qam256

def getBitsPerSymbol : ModulationScheme → Nat
  | .pi2Bpsk => 1
  | .bpsk => 1
  | .qpsk => 2
  | .qam16 => 4
  | .qam64 => 6
  | .qam256 => 8

theorem getBitsPerSymbol_pos (m : ModulationScheme) : 0 < getBitsPerSymbol m := by
  cases m <;> decide

inductive LdpcBaseGraph
  | bg1
  | bg2
  deriving DecidableEq

namespace Ldpc

def allLiftingSizes : List Nat :=
  [2, 3, 4, 5, 6, 7, 8, 9, 10, 11, 12, 13, 14, 15, 16, 18, 20, 22, 24, 26, 28, 30, 32, 36, 40, 44, 48, 52, 56, 60,
    64, 72, 80, 88, 96, 104, 112, 120, 128, 144, 160, 176, 192, 208, 224, 240, 256, 288, 320, 352, 384]

def maxMessageSize : Nat := 384 * 22

def maxCodeblockSize : Nat := 384 * 66

def maxCodeblockRmSize : Nat := maxMessageSize * 35

def bg1M : Nat := 46

def bg1NFull : Nat := 68

def bg1NShort : Nat := 66

def bg2M : Nat := 42

def bg2NFull : Nat := 52

def bg2NShort : Nat := 50

end Ldpc

structure CodeblockMetadata where
  baseGraph : LdpcBaseGraph := .bg1
  liftingSize : Nat := 2
  rv : Nat := 0
  mod : ModulationScheme := .bpsk
  nRef : Nat := 0
  fullLength : Nat := 0
  rmLength : Nat := 0
  nofFillerBits : Nat := 0

end Ocudu.Phy
