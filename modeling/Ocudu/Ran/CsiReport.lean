import Ocudu.Basic.BitStream
import Mathlib.Data.Nat.Log

/-! The sizes of a CSI report on PUSCH and PUCCH, and the size of its second part from the bits of the first:
`csi_report_on_pusch_helpers.cpp`, `csi_report_on_pucch_helpers.cpp` and `uci_part2_size_calculator.cpp`.
None stands for a failed assertion or a reported error. -/

namespace Ocudu.Ran

open BitCodec

inductive SinglePanelConfig
  | twoOne
  | twoTwo
  | fourOne
  | threeTwo
  | sixOne
  | fourTwo
  | eightOne
  | fourThree
  | sixTwo
  | twelveOne
  | fourFour
  | eightTwo
  | sixteenOne
  deriving DecidableEq

structure SinglePanelInfo where
  n1 : Nat
  n2 : Nat
  o1 : Nat
  o2 : Nat

def SinglePanelConfig.info : SinglePanelConfig → SinglePanelInfo
  | .twoOne => ⟨2, 1, 4, 1⟩
  | .twoTwo => ⟨2, 2, 4, 4⟩
  | .fourOne => ⟨4, 1, 4, 1⟩
  | .threeTwo => ⟨3, 2, 4, 4⟩
  | .sixOne => ⟨6, 1, 4, 1⟩
  | .fourTwo => ⟨4, 2, 4, 4⟩
  | .eightOne => ⟨8, 1, 4, 1⟩
  | .fourThree => ⟨4, 3, 4, 4⟩
  | .sixTwo => ⟨6, 2, 4, 4⟩
  | .twelveOne => ⟨12, 1, 4, 1⟩
  | .fourFour => ⟨4, 4, 4, 4⟩
  | .eightTwo => ⟨8, 2, 4, 4⟩
  | .sixteenOne => ⟨16, 1, 4, 1⟩

inductive TypeIMode
  | one
  | two
  deriving DecidableEq

inductive PmiCodebook
  | monostate
  | onePort
  | twoPort
  | typeISinglePanel (n1n2 : SinglePanelConfig) (mode : TypeIMode)
  deriving DecidableEq

def PmiCodebook.antennaPorts : PmiCodebook → Nat
  | .monostate => 0
  | .onePort => 1
  | .twoPort => 2
  | .typeISinglePanel n1n2 _ => 2 * n1n2.info.n1 * n1n2.info.n2

inductive CsiReportQuantities
  | criRiPmiCqi
  | criRiCqi
  | criRsrp
  | ssbIndexRsrp
  | criRiLiPmiCqi
  | other
  deriving DecidableEq

namespace CsiReportQuantities

def isRsrp (q : CsiReportQuantities) : Bool := q = criRsrp || q = ssbIndexRsrp

def hasCqi (q : CsiReportQuantities) : Bool := q = criRiPmiCqi || q = criRiCqi || q = criRiLiPmiCqi

def hasPmi (q : CsiReportQuantities) : Bool := q = criRiPmiCqi || q = criRiLiPmiCqi

end CsiReportQuantities

structure CsiReportSubbandConfiguration where
  cqi : Bool
  pmi : Bool
  nofSubbands : Nat

structure CsiReportConfiguration where
  nofCsiRsResources : Nat
  nofReportedRs : Nat
  pmiCodebook : PmiCodebook
  riRestriction : List Bool
  quantities : CsiReportQuantities
  subband : Option CsiReportSubbandConfiguration
  riRestriction_le : riRestriction.length ≤ 8

def getBitPositions (bits : List Bool) : List Nat := (List.range bits.length).filter fun i => bits.getD i false

namespace CsiReportConfiguration

variable (config : CsiReportConfiguration)

def nofAllowedRanks : Nat := config.riRestriction.count true

def isValid : Bool :=
  decide (1 ≤ config.nofCsiRsResources ∧ config.nofCsiRsResources ≤ 64) &&
  (config.pmiCodebook ≠ .monostate || config.quantities.isRsrp) &&
  (config.pmiCodebook = .onePort ||
    (config.pmiCodebook.antennaPorts ≤ config.riRestriction.length &&
      -- the highest of the allowed ranks is one of the ports
      (getBitPositions config.riRestriction).all (· < config.pmiCodebook.antennaPorts))) &&
  config.quantities ≠ .other

end CsiReportConfiguration

structure RiLiCqiCriSizes where
  ri : Nat
  li : Nat
  widebandCqiFirstTb : Nat
  widebandCqiSecondTb : Nat
  subbandDiffCqiFirstTb : Nat
  subbandDiffCqiSecondTb : Nat
  cri : Nat

def log2Ceil (n : Nat) : Nat := Nat.clog 2 n

def getRiLiCqiCriSizes (codebook : PmiCodebook) (riRestriction : List Bool) (ri nofCsiRsResources : Nat) :
    Option RiLiCqiCriSizes :=
  if 1 ≤ nofCsiRsResources ∧ nofCsiRsResources ≤ 64 then
    match codebook with
    | .monostate => none
    | .onePort => some ⟨0, 0, 4, 0, 2, 0, log2Ceil nofCsiRsResources⟩
    | .twoPort =>
      some ⟨min 1 (log2Ceil (riRestriction.count true)), log2Ceil ri, 4, 0, 2, 0, log2Ceil nofCsiRsResources⟩
    | .typeISinglePanel _ _ =>
      if codebook.antennaPorts ≤ 8 ∧ true ∈ riRestriction then
        some {
          ri := if codebook.antennaPorts = 4 then min 2 (log2Ceil (riRestriction.count true))
            else log2Ceil (riRestriction.count true)
          li := min 2 (log2Ceil ri)
          widebandCqiFirstTb := 4
          widebandCqiSecondTb := if 4 < ri then 4 else 0
          subbandDiffCqiFirstTb := 2
          subbandDiffCqiSecondTb := if 4 < ri then 2 else 0
          cri := log2Ceil nofCsiRsResources }
      else none
  else none

structure PmiTypeIParamSizes where
  i11 : Nat
  i12 : Nat
  i13 : Nat
  i2 : Nat

def getPmiSizesTypeISinglePanel (panel : SinglePanelInfo) (ri : Nat) : Option PmiTypeIParamSizes :=
  let ports := 2 * panel.n1 * panel.n2
  let i11 := log2Ceil (panel.n1 * panel.o1)
  let i12 := log2Ceil (panel.n2 * panel.o2)
  if ri = 1 ∧ 2 < ports then some ⟨i11, i12, 0, 2⟩
  else if ri = 2 ∧ ports = 4 ∧ panel.n2 = 1 then some ⟨i11, i12, 1, 1⟩
  else if ri = 2 ∧ 4 < ports then some ⟨i11, i12, 2, 1⟩
  else if (ri = 3 ∨ ri = 4) ∧ ports = 4 then some ⟨i11, i12, 0, 1⟩
  else if (ri = 3 ∨ ri = 4) ∧ ports = 8 then some ⟨i11, i12, 2, 1⟩
  else if ri = 5 ∨ ri = 6 then some ⟨i11, i12, 0, 1⟩
  else if (ri = 7 ∨ ri = 8) ∧ panel.n1 = 4 ∧ panel.n2 = 1 then
    some ⟨log2Ceil (panel.n1 * panel.o1 / 2), i12, 0, 1⟩
  else if (ri = 7 ∨ ri = 8) ∧ panel.n1 = 2 ∧ panel.n2 = 2 then some ⟨i11, i12, 0, 1⟩
  else none

def csiReportGetSizePmi (codebook : PmiCodebook) (ri : Nat) : Option Nat :=
  match codebook with
  | .monostate => none
  | .onePort => some 0
  | .twoPort => if ri ≤ 2 then some (if ri = 2 then 1 else 2) else none
  | .typeISinglePanel n1n2 mode =>
    if mode = .one then
      (getPmiSizesTypeISinglePanel n1n2.info ri).map fun sizes => sizes.i11 + sizes.i12 + sizes.i13 + sizes.i2
    else none

/-! The description of the second part -/

namespace UciPart2SizeDescription

structure Parameter where
  offset : Nat
  width : Nat
  deriving DecidableEq

structure Entry where
  parameters : List Parameter
  map : List Nat
  deriving DecidableEq

end UciPart2SizeDescription

open UciPart2SizeDescription

structure CsiReportSize where
  part1Size : Nat
  part2Correspondence : List Entry
  part2MinSize : Nat
  part2MaxSize : Nat
  deriving DecidableEq

namespace CsiReportConfiguration

variable (config : CsiReportConfiguration)

def part1Sizes : Option RiLiCqiCriSizes :=
  getRiLiCqiCriSizes config.pmiCodebook config.riRestriction 1 config.nofCsiRsResources

def getCsiReportPart1Size (sizes : RiLiCqiCriSizes) : Nat :=
  if config.quantities.hasCqi then sizes.cri + sizes.ri + sizes.widebandCqiFirstTb else 0

def hasPart2Content : Bool :=
  config.quantities.hasPmi || (config.quantities = .criRiCqi && decide (4 < config.pmiCodebook.antennaPorts))

def pmiSize (ri : Nat) : Option Nat :=
  if config.quantities.hasPmi then csiReportGetSizePmi config.pmiCodebook ri else some 0

def getCsiReportPart2Size (ri : Nat) : Option Nat := do
  let sizes ← getRiLiCqiCriSizes config.pmiCodebook config.riRestriction ri config.nofCsiRsResources
  let pmi ← config.pmiSize ri
  return (if config.quantities.hasCqi then sizes.widebandCqiSecondTb else 0) +
    (if config.quantities = .criRiLiPmiCqi then sizes.li else 0) + pmi

def part2SizeMap (size : Nat → Option Nat) : Option (List Nat) :=
  (List.range' 1 config.pmiCodebook.antennaPorts).foldlM (fun map rank => do
    let allowed ← config.riRestriction[rank - 1]?
    if allowed then (size rank).map fun bits => map ++ [bits] else some map) []

def withPart2 (part1Size : Nat) (sizes : RiLiCqiCriSizes) (map : List Nat) : Option CsiReportSize := do
  let least ← map.min?
  let greatest ← map.max?
  return ⟨part1Size, [⟨[⟨sizes.cri, sizes.ri⟩], map⟩], least, greatest⟩

def getCsiReportSizeCriSsbriRsrp : CsiReportSize :=
  ⟨config.nofReportedRs * log2Ceil config.nofCsiRsResources + 7 + 4 * (config.nofReportedRs - 1), [], 0, 0⟩

def getCsiReportSizeRsrp : Option CsiReportSize :=
  if config.pmiCodebook = .monostate ∧ config.riRestriction = [] then some config.getCsiReportSizeCriSsbriRsrp else none

def getCsiReportPuschSize : Option CsiReportSize :=
  if config.quantities.isRsrp then
    if config.subband.isSome then none else config.getCsiReportSizeRsrp
  else if config.nofReportedRs = 1 ∧ config.subband.isNone then do
    let sizes ← config.part1Sizes
    if config.pmiCodebook.antennaPorts = 1 ∨ config.hasPart2Content = false then
      return ⟨config.getCsiReportPart1Size sizes, [], 0, 0⟩
    else
      let map ← config.part2SizeMap config.getCsiReportPart2Size
      withPart2 (config.getCsiReportPart1Size sizes) sizes map
  else none

def getCsiReportPucchPart1SizeSubband : Option Nat := do
  let sizes ← config.part1Sizes
  let subbandCqiSize := match config.subband with
    | some subband => if subband.cqi then subband.nofSubbands * sizes.subbandDiffCqiFirstTb else 0
    | none => 0
  return sizes.cri + sizes.ri + sizes.widebandCqiFirstTb + subbandCqiSize

def getCsiReportPucchPart2SizeSubband (ri : Nat) : Option Nat :=
  match config.subband with
  | none => some 0
  | some subband =>
    if subband.cqi then
      (getRiLiCqiCriSizes config.pmiCodebook config.riRestriction ri config.nofCsiRsResources).map fun sizes =>
        subband.nofSubbands * sizes.subbandDiffCqiSecondTb
    else some 0

def getCsiReportPucchPart2SizeWideband (ri : Nat) : Option Nat := config.getCsiReportPart2Size ri

def getCsiReportPucchPart2Size (ri : Nat) : Option Nat := do
  let wideband ← config.getCsiReportPucchPart2SizeWideband ri
  let subband ← config.getCsiReportPucchPart2SizeSubband ri
  return wideband + subband

def getCsiReportSizeRi (ri : Nat) : Option Nat := do
  let sizes ← getRiLiCqiCriSizes config.pmiCodebook config.riRestriction ri config.nofCsiRsResources
  let pmi ← config.pmiSize ri
  return sizes.cri + sizes.ri + (if config.quantities = .criRiLiPmiCqi then sizes.li else 0) + pmi +
    (sizes.widebandCqiFirstTb + sizes.widebandCqiSecondTb)

def getCsiReportPucchSize : Option CsiReportSize :=
  match config.subband with
  | some subband =>
    if subband.pmi then none
    else do
      let part1Size ← config.getCsiReportPucchPart1SizeSubband
      let map ← config.part2SizeMap config.getCsiReportPucchPart2Size
      if map.all (· = 0) then return ⟨part1Size, [], 0, 0⟩
      else
        let sizes ← config.part1Sizes
        withPart2 part1Size sizes map
  | none =>
    if config.quantities.hasCqi then
      if config.nofReportedRs = 1 then do
        let largest ← (List.range' 1 config.pmiCodebook.antennaPorts).foldlM (fun largest ri =>
          (config.getCsiReportSizeRi ri).map (max largest)) 0
        return ⟨largest, [], 0, 0⟩
      else none
    else if config.quantities.isRsrp then config.getCsiReportSizeRsrp
    else some ⟨0, [], 0, 0⟩

end CsiReportConfiguration

/-! The size of the second part -/

def toUint64 (bits : List Bool) : Nat := ofBits bits.reverse

def bitReverse (n : Nat) : Nat := ofBits ((List.range 64).map fun i => n.testBit i)

def extractParameter (offset width : Nat) (payload : List Bool) : Option Nat :=
  if payload.length < offset + width ∨ 64 < width then none
  else if width = 0 then some 0
  else some ((bitReverse (toUint64 ((payload.drop offset).take width)) >>> (64 - width)) % 2 ^ 32)

def UciPart2SizeDescription.Entry.index (entry : Entry) (part1 : List Bool) : Option (Nat × Nat) :=
  entry.parameters.foldlM (fun (index, width) parameter => do
    let value ← extractParameter parameter.offset parameter.width part1
    return ((index <<< parameter.width) % 2 ^ 32 ||| value, width + parameter.width)) (0, 0)

def uciPart2GetSize (part1 : List Bool) (descr : List Entry) : Option Nat :=
  descr.foldlM (fun result entry => do
    let (index, width) ← entry.index part1
    if entry.map.length = 1 <<< width then (entry.map[index]?).map fun size => result + size else none) 0

def csiReportUnpackRi (riPacked riRestriction : List Bool) : Option Nat :=
  let ri := ofBits riPacked
  if riRestriction = [] then some 1
  else if ri < riRestriction.count true then (getBitPositions riRestriction)[ri]?.map (· + 1)
  else none

end Ocudu.Ran
