import Snax.StreamReduction
import Snax.Sync.Elements

/-! The reshuffler of `snax_acc/reshuffle`: words pass through as they are, as transposed
matrices, or as the lane-wise maxima of groups. The two data paths have hold registers of
their own and share the ports. -/
namespace Snax

open Sync

/-- Input and output lanes have the same width, and together the 512 bits of the transposer. -/
structure ReshufflerParams where
  poolLaneLen : Nat
  inputWidth : Nat
  bus : poolLaneLen * inputWidth = 512

structure ReshufflerCtrl where
  reduceLen : BitVec 6
  tloop2Len : BitVec 24
  opcode : BitVec 2

namespace Reshuffler

variable (p : ReshufflerParams)

abbrev Word := BitVec 512
abbrev Pool := Lanes p.poolLaneLen p.inputWidth

def ctrlOf (csr : BitVec 32) : ReshufflerCtrl where
  opcode := csr.extractLsb' 0 2
  reduceLen := csr.extractLsb' 2 6
  tloop2Len := csr.extractLsb' 8 24

/-- `TransposeMux`: a word waits in a register. -/
structure TransposeMux where
  dataReg : Word
  inputFired : Bool
  keepOutput : Bool

/-- All `MAXPoolPE`s are driven by the same valid and ready, so their handshake registers agree. -/
structure MAXPoolPEs where
  resReg : Pool p
  inputValid : Bool
  keepOutput : Bool

structure State where
  ctrlCsr : ReshufflerCtrl
  busy : Bool
  peInputFireCounter : BitVec 32
  peOutFireCounter : BitVec 32
  writeCounter : BitVec 32
  performanceCounter : BitVec 32
  transposeMux : TransposeMux
  lane : MAXPoolPEs p

structure Input where
  ctrl : Option (BitVec 32)
  data : Option Word
  ready : Bool

structure Output where
  config : Option (BitVec 32)
  accepted : Option Word
  delivered : Option Word

variable {p}

def lanesOf (p : ReshufflerParams) (x : Word) : Pool p := fun k => element p.inputWidth x k.val

/-- The matrix of eight by eight bytes, transposed. -/
def transpose (x : Word) : Word :=
  asUInt 512 fun (i j : Fin 8) => x.extractLsb' (i.val * 8 + j.val * 8 * 8) 8

def doMAXPool (s : State p) : Bool := s.ctrlCsr.opcode == 2 && s.busy

def doTranspose (s : State p) : Bool := (s.ctrlCsr.opcode == 0 || s.ctrlCsr.opcode == 1) && s.busy

/-! ### The pooling lanes -/

def peOutValid (s : State p) : Bool := s.lane.inputValid || s.lane.keepOutput

/-- The last result of a group is due, the others are taken from the lanes at once. -/
def resultDue (s : State p) : Bool :=
  peOutValid s && s.peOutFireCounter == (s.ctrlCsr.reduceLen - 1).setWidth 32

def peOutReady (s : State p) (i : Input) : Bool :=
  doMAXPool s && if resultDue s then i.ready else true

def peStall (s : State p) (i : Input) : Bool := peOutValid s && !peOutReady s i

def peInReady (s : State p) (i : Input) : Bool := !peStall s i && !s.lane.keepOutput

/-! ### The transposer -/

def muxValid (s : State p) : Bool := s.transposeMux.inputFired || s.transposeMux.keepOutput

def muxStall (s : State p) (i : Input) : Bool := muxValid s && !(doTranspose s && i.ready)

def muxInReady (s : State p) (i : Input) : Bool := !s.transposeMux.keepOutput && !muxStall s i

/-! ### The ports -/

def inputReady (s : State p) (i : Input) : Bool :=
  if doMAXPool s then peInReady s i else if doTranspose s then muxInReady s i else false

def offered (s : State p) : Option Word :=
  if doMAXPool s then (if resultDue s then some (packed 512 s.lane.resReg) else none)
  else if doTranspose s then (if muxValid s then some s.transposeMux.dataReg else none)
  else none

def accepted (s : State p) (i : Input) : Option Word := if inputReady s i then i.data else none

def delivered (s : State p) (i : Input) : Option Word := if i.ready then offered s else none

def configValid (s : State p) (i : Input) : Option (BitVec 32) := if s.busy then none else i.ctrl

def computationFinish (s : State p) (i : Input) : Bool :=
  s.writeCounter == (s.ctrlCsr.tloop2Len - 1).setWidth 32 && (delivered s i).isSome && s.busy

/-- One of the two counters of a group. -/
def nextCounter (s : State p) (fire : Bool) (counter : BitVec 32) : BitVec 32 :=
  if fire && counter != (s.ctrlCsr.reduceLen - 1).setWidth 32 && s.busy then counter + 1
  else if fire && counter == (s.ctrlCsr.reduceLen - 1).setWidth 32 && s.busy then 0
  else if !s.busy then 0
  else counter

def peInputFire (s : State p) (i : Input) : Bool := doMAXPool s && (accepted s i).isSome

def peOutFire (s : State p) (i : Input) : Bool := peOutValid s && peOutReady s i

/-- The first word of a group replaces the maximum; eight bits have no smaller number than -128. -/
def nextRes (s : State p) : Option Word → Pool p
  | none => s.lane.resReg
  | some x =>
    if s.peInputFireCounter == 0 then fun k =>
      if -128 < (lanesOf p x k).toInt then lanesOf p x k else BitVec.ofInt _ (-128)
    else maxOf s.lane.resReg (lanesOf p x)

def nextLane (s : State p) (i : Input) : MAXPoolPEs p where
  resReg := if doMAXPool s then nextRes s (accepted s i) else s.lane.resReg
  inputValid := peInputFire s i
  keepOutput := peStall s i

def muxFire (s : State p) (i : Input) : Option Word :=
  if doTranspose s && muxInReady s i then i.data else none

def nextMux (s : State p) (i : Input) : TransposeMux where
  dataReg := match muxFire s i with
    | some x => if s.ctrlCsr.opcode == 1 then transpose x else x
    | none => s.transposeMux.dataReg
  inputFired := (muxFire s i).isSome
  keepOutput := muxStall s i

def next (s : State p) (i : Input) : State p where
  ctrlCsr := match configValid s i with
    | some csr => ctrlOf csr
    | none => s.ctrlCsr
  busy := if s.busy then !computationFinish s i else (configValid s i).isSome
  peInputFireCounter := nextCounter s (peInputFire s i) s.peInputFireCounter
  peOutFireCounter := nextCounter s (peOutFire s i) s.peOutFireCounter
  writeCounter :=
    if (delivered s i).isSome then s.writeCounter + 1 else if !s.busy then 0 else s.writeCounter
  performanceCounter :=
    if s.busy then s.performanceCounter + 1
    else if (configValid s i).isSome then 0 else s.performanceCounter
  transposeMux := nextMux s i
  lane := nextLane s i

def out (s : State p) (i : Input) : Output := ⟨configValid s i,accepted s i,delivered s i⟩

/-- The registers of the configuration have no reset value. -/
def initial (p : ReshufflerParams) (ctrlCsr : ReshufflerCtrl) : State p where
  ctrlCsr := ctrlCsr
  busy := false
  peInputFireCounter := 0
  peOutFireCounter := 0
  writeCounter := 0
  performanceCounter := 0
  transposeMux := ⟨0,false,false⟩
  lane := ⟨fun _ => 0,false,false⟩

end Reshuffler

def reshuffler (p : ReshufflerParams) :
    Machine (Reshuffler.State p) Reshuffler.Input Reshuffler.Output where
  next := Reshuffler.next
  out := Reshuffler.out

end Snax
