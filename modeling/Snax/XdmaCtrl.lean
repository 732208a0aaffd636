import Mathlib.Data.BitVec
import Snax.ConfigRouter
import Snax.Sync.ReduceTree

/-! `xdma/xdmaFrontend/XDMACtrl.scala`, from the fields sliced out of the registers to the
start pulses of the two data movers. The serializer and the deserializer of the link are
its surroundings; the performance counters are left out. -/
namespace Snax.XDMACtrl

variable {param : XDMACtrlParam}

/-! ### The task before it is routed -/

/-- The fields of one side in the registers. -/
structure SideLaunch (param : XDMACtrlParam) (side : Side) where
  aguCfg : AddressGenUnitCfgIO (param.aguParam side)
  readerwriterCfg : XDMA.ReaderWriterCfgIO (param.side side).rwParam
  extCfg : Vector (BitVec 32) (param.side side).extCsrNum

/-- What the registers hold when the start register is written. -/
structure Launch (param : XDMACtrlParam) where
  readerPtr : BitVec param.addrWidth
  writerPtr : Vector (BitVec param.addrWidth) param.maxMulticastDest
  fields : ∀ side, SideLaunch param side

namespace Launch

variable (launch : Launch param)

/-- Reader and first writer pointer lie in one cluster, whichever it is. -/
def localLoopback : Bool :=
  XDMACfgIO.clusterOf .writer launch.readerPtr ==
    XDMACfgIO.clusterOf .writer (launch.writerPtr.get param.firstDest)

def bounds : List Nat := (launch.fields .writer).aguCfg.temporalBounds.toList.map BitVec.toNat

/-- The product of the writer's bounds, cut to the width of a word address at every node. -/
def axiTransferBeatSize : BitVec param.beatWidth :=
  BitVec.ofNat _ ((Sync.ReduceTree.reduceTree (fun a b => a * b % 2 ^ param.beatWidth)
    launch.bounds).getD 0)

def preRoute (taskID : BitVec 4) (side : Side) : XDMACfgIO param side where
  taskID := taskID
  origination := false
  readerPtr := launch.readerPtr
  writerPtr := launch.writerPtr
  axiTransferBeatSize := launch.axiTransferBeatSize
  aguCfg := (launch.fields side).aguCfg
  readerwriterCfg := (launch.fields side).readerwriterCfg
  localLoopback := launch.localLoopback
  remoteLoopback := false
  extCfg := (launch.fields side).extCfg

/-- All nodes together cut the product once. -/
theorem axiTransferBeatSize_eq : launch.axiTransferBeatSize = BitVec.ofNat _ launch.bounds.prod := by
  have positive : 0 < launch.bounds.length := by simpa [bounds] using param.temporalPositive
  have hom (a b : Nat) : BitVec.ofNat param.beatWidth (a * b % 2 ^ param.beatWidth) =
      BitVec.ofNat _ a * BitVec.ofNat _ b := by
    rw [BitVec.toNat_eq]
    simp [Nat.mul_mod]
  obtain ⟨x,reduced,value⟩ := Sync.ReduceTree.reduceTree_prod hom positive
  rw [axiTransferBeatSize,reduced,Option.getD_some,value]
  generalize launch.bounds = bounds
  induction bounds with
  | nil => rfl
  | cons b bounds ih => rw [List.map_cons,List.prod_cons,List.prod_cons,ih,BitVec.ofNat_mul]

end Launch

/-- A task with the cycle in which its launch or remote request entered, which no two share.
The number is for the proofs only: nothing in the controller reads it. -/
structure Task (param : XDMACtrlParam) (side : Side) where
  cfg : XDMACfgIO param side
  entry : Nat

def zeroCfg (param : XDMACtrlParam) (side : Side) : XDMACfgIO param side where
  taskID := 0
  origination := false
  readerPtr := 0
  writerPtr := Vector.replicate _ 0
  axiTransferBeatSize := 0
  aguCfg := ⟨0,Vector.replicate _ 0,Vector.replicate _ 0,Vector.replicate _ 0,0⟩
  readerwriterCfg := ⟨0,0⟩
  localLoopback := false
  remoteLoopback := false
  extCfg := Vector.replicate _ 0

/-! ### The state machines that start the movers -/

inductive FsmState
  | sIdle
  | sWaitBusy
  | sBusy
  deriving DecidableEq

/-- The configuration is popped: its transfer is empty, or its mover is no longer busy. -/
def FsmState.pop (state : FsmState) (empty busy : Bool) : Bool :=
  match state with
  | .sIdle => false
  | .sWaitBusy => empty
  | .sBusy => !busy

def FsmState.next (state : FsmState) (start empty busy : Bool) : FsmState :=
  match state with
  | .sIdle => if start then .sWaitBusy else .sIdle
  | .sWaitBusy => if empty then .sIdle else if busy then .sBusy else .sWaitBusy
  | .sBusy => if busy then .sBusy else .sIdle

structure State (param : XDMACtrlParam) where
  srcRouter : RegCut (Task param .reader)
  dstRouter : DstConfigRouter.State (Task param .writer)
  currentCfgSrc : RegCut (Task param .reader)
  currentCfgDst : RegCut (Task param .writer)
  currentStateSrc : FsmState
  currentStateDst : FsmState
  localSubmitted : BitVec 8
  remoteSubmitted : BitVec 8
  localFinished : BitVec 8
  remoteFinished : BitVec 8
  /-- The cycles since reset. -/
  cycle : Nat

structure Input (param : XDMACtrlParam) where
  /-- The registers, while the CSR manager has a launch pending. -/
  launch : Option (Launch param)
  /-- The configuration that the deserializer has ready. -/
  fromRemote : Option ( XDMAInterClusterCfgIO param.toXDMAParam)
  /-- The serializer takes a configuration. -/
  toRemoteReady : Bool
  readerBusy : Bool
  writerBusy : Bool
  remoteTaskFinished : Bool

structure Output (param : XDMACtrlParam) where
  /-- The cycle at the destination router. -/
  dst : DstConfigRouter.Output (Task param .writer)
  readerStart : Bool
  writerStart : Bool
  srcPopped : Option (Task param .reader)
  dstPopped : Option (Task param .writer)
  /-- The configurations that come from the deserializer and go to the serializer. -/
  fromRemote : Option ( XDMAInterClusterCfgIO param.toXDMAParam)
  toRemote : Option ( XDMAInterClusterCfgIO param.toXDMAParam)
  /-- The local task launched in this cycle and the count that software reads from then on. -/
  submitted : Option (Nat × BitVec 8)
  /-- The local task that retires in this cycle and the count from then on. -/
  finished : Option (Nat × BitVec 8)

/-! ### Routing -/

section Routing

variable (clusterBaseAddress : BitVec param.addrWidth)

def srcRule (task : Task param .reader) : SrcConfigRouter.Route :=
  SrcConfigRouter.rule param clusterBaseAddress task.cfg

def dstRule : DstConfigRouter.Rule (Task param .writer) where
  sel task := (DstConfigRouter.rule param clusterBaseAddress).sel task.cfg
  shifted task := { task with cfg := (DstConfigRouter.rule param clusterBaseAddress).shifted task.cfg }

variable (s : State param) (i : Input param)

/-- `csrManager.io.readWriteRegIO.fire`: both routers take the launch, or none. -/
def launched : Option (Launch param) :=
  if SrcConfigRouter.fromLocalReady s.srcRouter &&
    DstConfigRouter.fromLocalReady (dstRule clusterBaseAddress) s.dstRouter then i.launch else none

/-- The counter's value after the launch, in four bits. -/
def taskID (launch : Launch param) : BitVec 4 :=
  ((if launch.localLoopback then s.localSubmitted else s.remoteSubmitted) + 1).setWidth 4

def preRoute (side : Side) : Option (Task param side) :=
  (launched clusterBaseAddress s i).map fun launch =>
    ⟨launch.preRoute (taskID s launch) side,s.cycle + 1⟩

/-- The output of the demultiplexer for one side. -/
def fromRemote (side : Side) : Option (Task param side) :=
  (i.fromRemote.filter fun cfg => cfg.isWriterSide == side.isWriter).map fun cfg =>
    ⟨ XDMAInterClusterCfgIO.convertToXDMACfgIO side cfg,s.cycle + 1⟩

def srcToRemote : Option (Task param .reader) :=
  SrcConfigRouter.offered (srcRule clusterBaseAddress) s.srcRouter .cTypeRemote

def srcInput : SrcConfigRouter.Input (Task param .reader) where
  fromLocal := preRoute clusterBaseAddress s i .reader
  fromRemote := fromRemote s i .reader
  toLocalReady := s.currentCfgSrc.enqReady
  toRemoteReady := i.toRemoteReady

/-- The source side has priority on the way to other clusters. -/
def dstInput : DstConfigRouter.Input (Task param .writer) where
  fromLocal := preRoute clusterBaseAddress s i .writer
  fromRemote := fromRemote s i .writer
  toLocalReady := s.currentCfgDst.enqReady
  toRemoteReady := i.toRemoteReady && (srcToRemote clusterBaseAddress s).isNone

def fromRemoteReady (cfg : XDMAInterClusterCfgIO param.toXDMAParam) : Bool :=
  if cfg.isWriterSide then
    DstConfigRouter.fromRemoteReady (dstRule clusterBaseAddress) s.dstRouter
      (preRoute clusterBaseAddress s i .writer)
  else SrcConfigRouter.fromRemoteReady s.srcRouter (preRoute clusterBaseAddress s i .reader)

/-- The arbiter in front of the serializer. -/
def toRemote : Option ( XDMAInterClusterCfgIO param.toXDMAParam) :=
  ((srcToRemote clusterBaseAddress s).map fun task =>
      XDMAInterClusterCfgIO.convertFromXDMACfgIO task.cfg).or
    ((DstConfigRouter.offered (dstRule clusterBaseAddress) s.dstRouter .toRemote).map fun task =>
      XDMAInterClusterCfgIO.convertFromXDMACfgIO task.cfg)

def postRouteSrc : Option (Task param .reader) :=
  (SrcConfigRouter.offered (srcRule clusterBaseAddress) s.srcRouter .cTypeLocal).map fun task =>
    { task with cfg := { task.cfg with remoteLoopback := false } }

/-- A task that has a further destination sends on what it writes. -/
def judged (task : Task param .writer) : Task param .writer :=
  { task with cfg := { task.cfg with
      remoteLoopback := param.maxMulticastDest != 1 && task.cfg.dest 1 != 0 } }

def postRouteDst : Option (Task param .writer) :=
  (DstConfigRouter.offered (dstRule clusterBaseAddress) s.dstRouter .toLocal).map judged

end Routing

/-! ### Starting -/

/-- The two registers hold tasks with the same pointers, valid or not. -/
def counterpart (s : State param) : Bool :=
  s.currentCfgSrc.bits.cfg.readerPtr == s.currentCfgDst.bits.cfg.readerPtr &&
    s.currentCfgSrc.bits.cfg.dest 0 == s.currentCfgDst.bits.cfg.dest 0

def readerStart (s : State param) : Bool :=
  s.currentStateSrc == .sIdle && (s.currentCfgSrc.maybeFull &&
    !(s.currentCfgDst.maybeFull && s.currentCfgDst.bits.cfg.remoteLoopback) &&
    ((s.currentCfgSrc.bits.cfg.localLoopback && counterpart s) ||
      (!s.currentCfgSrc.bits.cfg.localLoopback && !s.currentCfgSrc.bits.cfg.remoteLoopback)))

def writerStart (s : State param) : Bool :=
  s.currentStateDst == .sIdle && (s.currentCfgDst.maybeFull &&
    ((s.currentCfgDst.bits.cfg.localLoopback && counterpart s) ||
      (!s.currentCfgDst.bits.cfg.localLoopback && !s.currentCfgDst.bits.cfg.remoteLoopback) ||
      (s.currentCfgDst.bits.cfg.remoteLoopback && s.currentStateSrc == .sIdle)))

def srcEmpty (s : State param) : Bool := s.currentCfgSrc.bits.cfg.axiTransferBeatSize == 0
def dstEmpty (s : State param) : Bool := s.currentCfgDst.bits.cfg.axiTransferBeatSize == 0

def srcPop (s : State param) (i : Input param) : Bool := s.currentStateSrc.pop (srcEmpty s) i.readerBusy
def dstPop (s : State param) (i : Input param) : Bool := s.currentStateDst.pop (dstEmpty s) i.writerBusy

/-- A task has left the destination side, and its reader sat in this cluster too. -/
def localFinish (s : State param) (i : Input param) : Bool :=
  dstPop s i && s.currentCfgDst.maybeFull && s.currentCfgDst.bits.cfg.localLoopback

def readerCfg (s : State param) : XDMAIntraClusterCfgIO param .reader :=
  XDMAIntraClusterCfgIO.convertFromXDMACfgIO s.currentCfgSrc.bits.cfg

def writerCfg (s : State param) : XDMAIntraClusterCfgIO param .writer :=
  XDMAIntraClusterCfgIO.convertFromXDMACfgIO s.currentCfgDst.bits.cfg

variable (clusterBaseAddress : BitVec param.addrWidth)

def next (s : State param) (i : Input param) : State param where
  srcRouter := SrcConfigRouter.next (srcRule clusterBaseAddress) s.srcRouter
    (srcInput clusterBaseAddress s i)
  dstRouter := DstConfigRouter.next (dstRule clusterBaseAddress) s.dstRouter
    (dstInput clusterBaseAddress s i)
  currentCfgSrc := s.currentCfgSrc.next (postRouteSrc clusterBaseAddress s) (srcPop s i)
  currentCfgDst := s.currentCfgDst.next (postRouteDst clusterBaseAddress s) (dstPop s i)
  currentStateSrc := s.currentStateSrc.next (readerStart s) (srcEmpty s) i.readerBusy
  currentStateDst := s.currentStateDst.next (writerStart s) (dstEmpty s) i.writerBusy
  localSubmitted := BasicCounter.next false false
    ((launched clusterBaseAddress s i).any Launch.localLoopback) 0 s.localSubmitted
  remoteSubmitted := BasicCounter.next false false
    ((launched clusterBaseAddress s i).any (!·.localLoopback)) 0 s.remoteSubmitted
  localFinished := BasicCounter.next false false (localFinish s i) 0 s.localFinished
  remoteFinished := BasicCounter.next false false i.remoteTaskFinished 0 s.remoteFinished
  cycle := s.cycle + 1

def out (s : State param) (i : Input param) : Output param where
  dst := DstConfigRouter.out (dstRule clusterBaseAddress) s.dstRouter (dstInput clusterBaseAddress s i)
  readerStart := readerStart s
  writerStart := writerStart s
  srcPopped := if srcPop s i then s.currentCfgSrc.deq else none
  dstPopped := if dstPop s i then s.currentCfgDst.deq else none
  fromRemote := i.fromRemote.filter (fromRemoteReady clusterBaseAddress s i)
  toRemote := if i.toRemoteReady then toRemote clusterBaseAddress s else none
  submitted :=
    if (launched clusterBaseAddress s i).any Launch.localLoopback then
      some (s.cycle + 1,(next clusterBaseAddress s i).localSubmitted)
    else none
  finished :=
    if localFinish s i then
      some (s.currentCfgDst.bits.entry,(next clusterBaseAddress s i).localFinished)
    else none

def initial (param : XDMACtrlParam) : State param where
  srcRouter := ⟨⟨zeroCfg param .reader,0⟩,false⟩
  dstRouter := DstConfigRouter.initial _
  currentCfgSrc := ⟨⟨zeroCfg param .reader,0⟩,false⟩
  currentCfgDst := ⟨⟨zeroCfg param .writer,0⟩,false⟩
  currentStateSrc := .sIdle
  currentStateDst := .sIdle
  localSubmitted := 0
  remoteSubmitted := 0
  localFinished := 0
  remoteFinished := 0
  cycle := 0

end XDMACtrl

def xdmaCtrl {param : XDMACtrlParam} (clusterBaseAddress : BitVec param.addrWidth) :
    Sync.Machine (XDMACtrl.State param) (XDMACtrl.Input param) (XDMACtrl.Output param) where
  next := XDMACtrl.next clusterBaseAddress
  out := XDMACtrl.out clusterBaseAddress

end Snax
