import Snax.DataCut
import Snax.GemmTileArray
import Snax.Queue
import Snax.Sync.Jobs
import Snax.Sync.Machine

/-! `gemm/BlockGemm.scala`: the block matrix multiplication core around the mesh. Operand
pairs pass a cut of two stages; a first counter tells where in a tile the pairs stand that are
computed, a second one where the results stand, a third one counts the tiles handed out. -/
namespace Snax

open GemmArray

/-- The ctrl port; `sizeConfigWidth` and `subtractionCfgWidth` are 32 by assertion. -/
structure BlockGemmCtrl where
  k : BitVec 32
  n : BitVec 32
  m : BitVec 32
  subtractionConstant : BitVec 32
  deriving DecidableEq

namespace BlockGemmCtrl

/-- The bound of K is compared twice, that of N never. -/
def zeroLoopBoundCase (c : BlockGemmCtrl) : Bool := c.m == 0 || c.k == 0 || c.k == 0

def subtractionA (c : BlockGemmCtrl) (p : GemmParams) : BitVec p.dataWidthA :=
  (c.subtractionConstant.extractLsb' 0 8).setWidth _

def subtractionB (c : BlockGemmCtrl) (p : GemmParams) : BitVec p.dataWidthB :=
  (c.subtractionConstant.extractLsb' 8 8).setWidth _

end BlockGemmCtrl

namespace BlockGemm

variable {p : GemmParams}

structure State (p : GemmParams) where
  /-- `cstate =/= sIDLE`. -/
  busy : Bool
  m : BitVec 32
  k : BitVec 32
  n : BitVec 32
  subtractionA : BitVec p.dataWidthA
  subtractionB : BitVec p.dataWidthB
  computeFireCounter : BitVec 32
  dOutputIfvalidCounter : BitVec 32
  dOutputCounter : BitVec 64
  performanceCounter : BitVec 32
  cut : DataCut (CutBundle p) 2
  array : GemmArray.State p

structure Input (p : GemmParams) where
  ctrl : BlockGemmCtrl
  ctrlValid : Bool
  a : Option (WordA p)
  b : Option (WordB p)
  c : Option (WordC p)
  dReady : Bool

/-- The handshakes of a cycle. -/
structure Output (p : GemmParams) where
  config : Option BlockGemmCtrl
  pair : Option (WordA p × WordB p)
  c : Option (WordC p)
  d : Option (WordC p)
  busy : Bool
  performanceCounter : BitVec 32

def configValid (s : State p) (i : Input p) : Bool := i.ctrlValid && !s.busy

/-- `combined_decoupled_a_b_in`, valid when it is `some`. -/
def combinedABIn (s : State p) (i : Input p) : Option (CutBundle p) :=
  match i.a,i.b with
  | some a, some b => if s.busy then some ⟨a,b,s.subtractionA,s.subtractionB⟩ else none
  | _, _ => none

def aBDataValid (s : State p) (i : Input p) : Bool :=
  if s.computeFireCounter == 0 then s.cut.out.isSome && i.c.isSome && s.busy
  else s.cut.out.isSome && s.busy

/-- `io.data.d_o.valid`. -/
def dValid (s : State p) : Bool :=
  if s.k == 1 then GemmArray.dValid s.array && s.busy
  else s.dOutputIfvalidCounter == s.k - 1 && GemmArray.dValid s.array && s.busy

/-- A result that need not be handed out is always grabbed. -/
def arrayDReady (s : State p) (i : Input p) : Bool := if dValid s then i.dReady else true

def abcReady (s : State p) (i : Input p) : Bool := GemmArray.abcReady s.array (arrayDReady s i)

def computeFire (s : State p) (i : Input p) : Bool := (abcReady s i && s.busy) && aBDataValid s i

def addC (s : State p) (i : Input p) : Bool :=
  s.computeFireCounter == 0 && s.busy && i.c.isSome && aBDataValid s i

def addCFire (s : State p) (i : Input p) : Bool := addC s i && abcReady s i

def gemmOutputFire (s : State p) (i : Input p) : Bool :=
  GemmArray.dValid s.array && arrayDReady s i

def cutReady (s : State p) (i : Input p) : Bool := s.busy && computeFire s i

/-- `io.data.a_i.fire` and `io.data.b_i.fire`, which go together. -/
def pair (s : State p) (i : Input p) : Option (WordA p × WordB p) :=
  (s.cut.taken (combinedABIn s i) (cutReady s i)).map CutBundle.operands

/-- `io.data.c_i.fire`. -/
def cFire (s : State p) (i : Input p) : Option (WordC p) :=
  if s.busy && addCFire s i then i.c else none

/-- `io.data.d_o.fire`. -/
def dFire (s : State p) (i : Input p) : Option (WordC p) :=
  if dValid s && i.dReady then some (dataOut s.array.accumulationReg) else none

def computationFinish (s : State p) (i : Input p) : Bool :=
  s.dOutputCounter == s.m.setWidth 64 * s.n.setWidth 64 - 1 && (dFire s i).isSome && s.busy

/-- The two counters that run up to `K - 1`. -/
def nextModK (s : State p) (fire : Bool) (value : BitVec 32) : BitVec 32 :=
  if s.k == 1 then 0
  else if fire && value != s.k - 1 && s.busy then value + 1
  else if fire && value == s.k - 1 && s.busy then 0
  else if !s.busy then 0
  else value

def next (s : State p) (i : Input p) : State p where
  busy :=
    if s.busy then !computationFinish s i
    else configValid s i && !i.ctrl.zeroLoopBoundCase
  m := if configValid s i && !i.ctrl.zeroLoopBoundCase then i.ctrl.m else s.m
  n := if configValid s i && !i.ctrl.zeroLoopBoundCase then i.ctrl.n else s.n
  k := if configValid s i && !i.ctrl.zeroLoopBoundCase then i.ctrl.k else s.k
  subtractionA := if configValid s i then i.ctrl.subtractionA p else s.subtractionA
  subtractionB := if configValid s i then i.ctrl.subtractionB p else s.subtractionB
  computeFireCounter := nextModK s (computeFire s i) s.computeFireCounter
  dOutputIfvalidCounter := nextModK s (gemmOutputFire s i) s.dOutputIfvalidCounter
  dOutputCounter :=
    if (dFire s i).isSome then s.dOutputCounter + 1 else if !s.busy then 0 else s.dOutputCounter
  performanceCounter :=
    if s.busy then s.performanceCounter + 1
    else if configValid s i then 0 else s.performanceCounter
  cut := s.cut.next (combinedABIn s i) (cutReady s i)
  array := GemmArray.next s.array (aBDataValid s i) (addC s i) (s.cut.out.getD (idleBundle p))
    (i.c.getD fun _ _ => 0) (arrayDReady s i)

def out (s : State p) (i : Input p) : Output p where
  config := if configValid s i then some i.ctrl else none
  pair := pair s i
  c := cFire s i
  d := dFire s i
  busy := s.busy
  performanceCounter := s.performanceCounter

theorem two_stages : 0 < 2 := by decide

def initial (p : GemmParams) : State p :=
  ⟨false,0,0,0,0,0,0,0,0,0,DataCut.empty two_stages,GemmArray.initial p⟩

end BlockGemm

def blockGemm (p : GemmParams) :
    Sync.Machine (BlockGemm.State p) (BlockGemm.Input p) (BlockGemm.Output p) where
  next := BlockGemm.next
  out := BlockGemm.out

end Snax
