import Snax.DataCut
import Snax.ParallelSerialConverter
import Snax.SpatialArray

/-! `versacore/VersaCore.scala` with integer types: the spatial array behind the converters of its ports and
the counters that tell the pairs of an output tile and the outputs of a task. -/
namespace Snax

open Sync

/-- `DataCut` with any delay. -/
inductive PipelineCut (α : Type)
  | wire
  | stages {delay : Nat} (d : DataCut α delay)

namespace PipelineCut

variable {α : Type}

def out (input : Option α) : PipelineCut α → Option α
  | wire => input
  | stages d => d.out

def inReady (input : Option α) (outReady : Bool) : PipelineCut α → Bool
  | wire => outReady || input.isNone
  | stages d => d.inReady outReady

def taken (input : Option α) (outReady : Bool) (c : PipelineCut α) : Option α :=
  if c.inReady input outReady then input else none

def given (input : Option α) (outReady : Bool) (c : PipelineCut α) : Option α :=
  if outReady then c.out input else none

def next (input : Option α) (outReady : Bool) : PipelineCut α → PipelineCut α
  | wire => wire
  | stages d => stages (d.next input outReady)

/-- The items on their way, the oldest first. -/
def contents : PipelineCut α → List α
  | wire => []
  | stages d => d.contents

theorem next_conserves (input : Option α) (outReady : Bool) (c : PipelineCut α) :
    (c.given input outReady).toList ++ (c.next input outReady).contents =
      c.contents ++ (c.taken input outReady).toList := by
  cases c with
  | wire => cases outReady <;> cases input <;> rfl
  | stages d => exact d.next_conserves input outReady

/-- `DataCut` with nothing inside. -/
def empty (delay : Nat) : PipelineCut α :=
  if positive : 0 < delay then stages (DataCut.empty positive) else wire

theorem empty_contents (delay : Nat) : (empty delay : PipelineCut α).contents = [] := by
  unfold empty
  split
  · exact DataCut.empty_contents _
  · rfl

theorem out_of_hollow {c : PipelineCut α} (hollow : c.contents = []) : c.out none = none := by
  cases c with
  | wire => rfl
  | stages d => exact DataCut.out_of_empty hollow

end PipelineCut

/-- The configuration, without the constant for the subtraction, which the array does not read. -/
structure VersaCoreCfg where
  takeInNewC : BitVec 32
  aBInputTimesOneOutput : BitVec 32
  outputTimes : BitVec 32
  arrayShapeCfg : BitVec 32
  dataTypeCfg : BitVec 32

def chunksOf (width serialWidth : Nat) (dim : ArrayDim) : Nat :=
  max 1 (dim.mu * dim.nu * width / serialWidth)

structure VersaCoreParam where
  array : SpatialArrayParam
  serialInputCDataWidth : Nat
  serialOutputDDataWidth : Nat
  adderTreeDelay : Nat
  positiveA : 0 < array.arrayInputAWidth
  positiveB : 0 < array.arrayInputBWidth
  positiveC : 0 < serialInputCDataWidth
  positiveD : 0 < serialOutputDDataWidth
  sameSerial : serialInputCDataWidth = serialOutputDDataWidth
  sameArray : array.arrayInputCWidth = array.arrayOutputDWidth
  wideC : serialInputCDataWidth ≤ array.arrayInputCWidth
  wideD : serialOutputDDataWidth ≤ array.arrayOutputDWidth
  wholeC : serialInputCDataWidth < array.arrayInputCWidth →
    array.arrayInputCWidth % serialInputCDataWidth = 0
  wholeD : serialOutputDDataWidth < array.arrayOutputDWidth →
    array.arrayOutputDWidth % serialOutputDDataWidth = 0
  factorsC : ∀ t ∈ array.dataTypes, ∀ dim ∈ t.arrayDim,
    chunksOf t.inputTypeC.width serialInputCDataWidth dim ≤ array.arrayInputCWidth / serialInputCDataWidth
  factorsD : ∀ t ∈ array.dataTypes, ∀ dim ∈ t.arrayDim,
    chunksOf t.outputTypeD.width serialOutputDDataWidth dim ≤ array.arrayOutputDWidth / serialOutputDDataWidth
  divisible : ∀ t ∈ array.dataTypes, ∀ dim ∈ t.arrayDim,
    serialOutputDDataWidth < dim.mu * dim.nu * t.outputTypeD.width →
      dim.mu * dim.nu * t.outputTypeD.width % serialOutputDDataWidth = 0

namespace VersaCore

variable (p : VersaCoreParam)

theorem single_whole {w : Nat} (narrower : w < w) : w % w = 0 := absurd narrower (Nat.lt_irrefl w)

theorem single_allowed {w : Nat} (positive : 0 < w) (_ : true = true) : [1] ≠ [] ∧
    ∀ f ∈ [1], 1 ≤ f ∧ f ≤ w / w := by
  refine ⟨List.cons_ne_nil _ _,fun f member => ?_⟩
  rw [List.mem_singleton.mp member,Nat.div_self positive]
  exact ⟨Nat.le_refl 1,Nat.le_refl 1⟩

/-- `A_s2p` and `B_s2p`, which take a word at once. -/
def single (w : Nat) (positive : 0 < w) : ParallelAndSerialConverterParams where
  parallelWidth := w
  serialWidth := w
  earlyTerminate := true
  allowedTerminateFactors := [1]
  serialPositive := positive
  wide := Nat.le_refl w
  whole := single_whole
  allowed := single_allowed positive

/-- The factors of all shapes, and the full ratio. -/
def allowedTerminateFactors (width : DataTypeParam → Nat) (parallelWidth serialWidth : Nat) : List Nat :=
  (p.array.dataTypes.flatMap fun t => t.arrayDim.map (chunksOf (width t) serialWidth)) ++
    [parallelWidth / serialWidth]

theorem allowed_factors (width : DataTypeParam → Nat) {parallelWidth serialWidth : Nat}
    (positive : 0 < serialWidth) (wide : serialWidth ≤ parallelWidth)
    (few : ∀ t ∈ p.array.dataTypes, ∀ dim ∈ t.arrayDim,
      chunksOf (width t) serialWidth dim ≤ parallelWidth / serialWidth) (_ : true = true) :
    allowedTerminateFactors p width parallelWidth serialWidth ≠ [] ∧
      ∀ f ∈ allowedTerminateFactors p width parallelWidth serialWidth,
        1 ≤ f ∧ f ≤ parallelWidth / serialWidth := by
  refine ⟨List.append_ne_nil_of_right_ne_nil _ (List.cons_ne_nil _ _),fun f member => ?_⟩
  rcases List.mem_append.mp member with shaped | full
  · obtain ⟨t,type,listed⟩ := List.mem_flatMap.mp shaped
    obtain ⟨dim,inside,rfl⟩ := List.mem_map.mp listed
    exact ⟨Nat.le_max_left _ _,few t type dim inside⟩
  · rw [List.mem_singleton.mp full]
    exact ⟨Nat.div_pos wide positive,Nat.le_refl _⟩

def cS2pParams : ParallelAndSerialConverterParams where
  parallelWidth := p.array.arrayInputCWidth
  serialWidth := p.serialInputCDataWidth
  earlyTerminate := true
  allowedTerminateFactors := allowedTerminateFactors p (fun t => t.inputTypeC.width) p.array.arrayInputCWidth
    p.serialInputCDataWidth
  serialPositive := p.positiveC
  wide := p.wideC
  whole := p.wholeC
  allowed := allowed_factors p (fun t => t.inputTypeC.width) p.positiveC p.wideC p.factorsC

def dP2sParams : ParallelAndSerialConverterParams where
  parallelWidth := p.array.arrayOutputDWidth
  serialWidth := p.serialOutputDDataWidth
  earlyTerminate := true
  allowedTerminateFactors := allowedTerminateFactors p (fun t => t.outputTypeD.width) p.array.arrayOutputDWidth
    p.serialOutputDDataWidth
  serialPositive := p.positiveD
  wide := p.wideD
  whole := p.wholeD
  allowed := allowed_factors p (fun t => t.outputTypeD.width) p.positiveD p.wideD p.factorsD

structure State where
  busy : Bool
  csr : VersaCoreCfg
  dOutputCounter : BitVec 32
  computeFireCounter : BitVec 32
  dOutputValidCounter : BitVec 32
  aS2p : SerialToParallel.State (single _ p.positiveA)
  bS2p : SerialToParallel.State (single _ p.positiveB)
  cS2p : SerialToParallel.State (cS2pParams p)
  dP2s : ParallelToSerial.State (dP2sParams p)
  cut : PipelineCut (BitVec p.array.arrayInputAWidth × BitVec p.array.arrayInputBWidth)
  array : SpatialArray.State p.array

def reset : State p where
  busy := false
  csr := ⟨0,0,0,0,0⟩
  dOutputCounter := 0
  computeFireCounter := 0
  dOutputValidCounter := 0
  aS2p := ⟨fun _ => 0,0,false,false⟩
  bS2p := ⟨fun _ => 0,0,false,false⟩
  cS2p := ⟨fun _ => 0,0,false,false⟩
  dP2s := ⟨fun _ => 0,0⟩
  cut := .empty p.adderTreeDelay
  array _ := ⟨fun _ => 0,false,false⟩

structure Input where
  ctrl : Option VersaCoreCfg
  inA : Option (BitVec p.array.arrayInputAWidth)
  inB : Option (BitVec p.array.arrayInputBWidth)
  inC : Option (BitVec p.serialInputCDataWidth)
  ready : Bool

structure Output where
  config : Option VersaCoreCfg
  a : Option (BitVec p.array.arrayInputAWidth)
  b : Option (BitVec p.array.arrayInputBWidth)
  c : Option (BitVec p.serialInputCDataWidth)
  d : Option (BitVec p.serialOutputDDataWidth)

variable {p}

/-- The entry of `dimRom`; a data type that is not there reads the first one. -/
def dim (csr : VersaCoreCfg) : ArrayDim :=
  SpatialArray.shape (p.array.dataTypes.get (SpatialArray.selected p.array csr.dataTypeCfg)) csr.arrayShapeCfg

def inputCSerialFactor (p : VersaCoreParam) (csr : VersaCoreCfg) : Nat :=
  if p.array.arrayInputCWidth ≤ p.serialInputCDataWidth then 1
  else chunksOf (p.array.dataTypes.get (SpatialArray.selected p.array csr.dataTypeCfg)).inputTypeC.width
    p.serialInputCDataWidth (dim (p := p) csr)

def outputDSerialFactor (p : VersaCoreParam) (csr : VersaCoreCfg) : Nat :=
  if p.array.arrayOutputDWidth ≤ p.serialOutputDDataWidth then 1
  else chunksOf (p.array.dataTypes.get (SpatialArray.selected p.array csr.dataTypeCfg)).outputTypeD.width
    p.serialOutputDDataWidth (dim (p := p) csr)

def configFire (s : State p) (i : Input p) : Option VersaCoreCfg := if s.busy then none else i.ctrl

/-- A and B together, which the subtraction constant lets pass in a busy core. -/
def combinedIn (s : State p) : Option (BitVec p.array.arrayInputAWidth × BitVec p.array.arrayInputBWidth) :=
  if s.busy then
    (SerialToParallel.offered s.aS2p).bind fun a => (SerialToParallel.offered s.bS2p).map fun b => (a,b)
  else none

def afterCut (s : State p) : Option (BitVec p.array.arrayInputAWidth × BitVec p.array.arrayInputBWidth) :=
  s.cut.out (combinedIn s)

def accAddExtIn (s : State p) : Bool :=
  s.computeFireCounter == 0 && s.csr.takeInNewC == 1 && s.busy

/-- `array.io.data.out_d.valid`. -/
def arrayValid (s : State p) : Bool := (s.array (SpatialArray.selected p.array s.csr.dataTypeCfg)).outValid

/-- `D_p2s.io.in.valid`. -/
def outputDue (s : State p) : Bool :=
  !(s.csr.outputTimes == 0) && arrayValid s && s.busy &&
    s.dOutputValidCounter == s.csr.aBInputTimesOneOutput - 1

def arrayReady (s : State p) (i : Input p) : Bool :=
  if outputDue s then decide (s.dP2s.value = 0) && i.ready else true

def arrayInput (s : State p) (i : Input p) : SpatialArray.Input p.array where
  inA := (afterCut s).map Prod.fst
  inB := (afterCut s).map Prod.snd
  inC := if s.busy then SerialToParallel.offered s.cS2p else none
  ready := arrayReady s i
  arrayShapeCfg := s.csr.arrayShapeCfg
  dataTypeCfg := s.csr.dataTypeCfg
  accAddExtIn := accAddExtIn s

def operation (s : State p) (i : Input p) : Option (SpatialArray.Operation p.array) :=
  SpatialArray.accepted s.array (arrayInput s i)

def pairFire (s : State p) (i : Input p) : Bool := (operation s i).isSome

def inCFire (s : State p) (i : Input p) : Bool := ((operation s i).bind SpatialArray.Operation.c).isSome

def addCFire (s : State p) (i : Input p) : Bool :=
  (pairFire s i && inCFire s i && s.computeFireCounter == 0 && s.csr.takeInNewC == 1) ||
    (pairFire s i && s.computeFireCounter == 0 && s.csr.takeInNewC == 0)

def mulABFire (s : State p) (i : Input p) : Bool := pairFire s i && !(s.computeFireCounter == 0)

def computeTick (s : State p) (i : Input p) : Bool := (addCFire s i || mulABFire s i) && s.busy

/-- `combined_decoupled_a_b_sub.io.in(k).ready`. -/
def operandReady (s : State p) (i : Input p) : Bool :=
  s.cut.inReady (combinedIn s) (pairFire s i) && (combinedIn s).isSome

def aInput (s : State p) (i : Input p) : SerialToParallel.Input (single _ p.positiveA) :=
  ⟨i.inA,1,operandReady s i,(configFire s i).isSome⟩

def bInput (s : State p) (i : Input p) : SerialToParallel.Input (single _ p.positiveB) :=
  ⟨i.inB,1,operandReady s i,(configFire s i).isSome⟩

def cInput (s : State p) (i : Input p) : SerialToParallel.Input (cS2pParams p) :=
  ⟨i.inC,BitVec.ofNat _ (inputCSerialFactor p s.csr),addCFire s i && s.busy,(configFire s i).isSome⟩

def dInput (s : State p) (i : Input p) : ParallelToSerial.Input (dP2sParams p) :=
  ⟨if outputDue s then some (SpatialArray.dBits s.array (arrayInput s i)) else none,
    BitVec.ofNat _ (outputDSerialFactor p s.csr),i.ready,(configFire s i).isSome⟩

def outputFinish (s : State p) : Bool :=
  decide (s.dOutputCounter.toNat = s.csr.outputTimes.toNat * outputDSerialFactor p s.csr) && s.busy

def computationFinish (s : State p) (i : Input p) : Bool :=
  if s.csr.outputTimes == 0 && s.busy then
    BasicCounter.lastVal true (computeTick s i) s.csr.aBInputTimesOneOutput s.computeFireCounter && s.busy
  else outputFinish s

def versacoreFinish (s : State p) (i : Input p) : Bool := computationFinish s i && outputFinish s

/-- A configuration without computations leaves the counts as they are. -/
def configured (csr ctrl : VersaCoreCfg) : VersaCoreCfg :=
  if ctrl.aBInputTimesOneOutput = 0 then
    { csr with arrayShapeCfg := ctrl.arrayShapeCfg, dataTypeCfg := ctrl.dataTypeCfg }
  else ctrl

def next (s : State p) (i : Input p) : State p where
  busy := if s.busy then !versacoreFinish s i else (configFire s i).isSome
  csr := (configFire s i).elim s.csr (configured s.csr)
  dOutputCounter := BasicCounter.next false (versacoreFinish s i)
    ((ParallelToSerial.delivered s.dP2s (dInput s i)).isSome && s.busy) 0 s.dOutputCounter
  computeFireCounter := BasicCounter.next true (versacoreFinish s i) (computeTick s i)
    s.csr.aBInputTimesOneOutput s.computeFireCounter
  dOutputValidCounter := BasicCounter.next true (versacoreFinish s i) (arrayValid s && arrayReady s i && s.busy)
    s.csr.aBInputTimesOneOutput s.dOutputValidCounter
  aS2p := SerialToParallel.next s.aS2p (aInput s i)
  bS2p := SerialToParallel.next s.bS2p (bInput s i)
  cS2p := SerialToParallel.next s.cS2p (cInput s i)
  dP2s := ParallelToSerial.next s.dP2s (dInput s i)
  cut := s.cut.next (combinedIn s) (pairFire s i)
  array := SpatialArray.next s.array (arrayInput s i)

def out (s : State p) (i : Input p) : Output p where
  config := configFire s i
  a := SerialToParallel.accepted s.aS2p (aInput s i)
  b := SerialToParallel.accepted s.bS2p (bInput s i)
  c := SerialToParallel.accepted s.cS2p (cInput s i)
  d := ParallelToSerial.delivered s.dP2s (dInput s i)

end VersaCore

def versaCore (p : VersaCoreParam) :
    Machine (VersaCore.State p) (VersaCore.Input p) (VersaCore.Output p) where
  next := VersaCore.next
  out := VersaCore.out

end Snax
