import Snax.AddressGenUnit
import Snax.XdmaCfg
import Snax.Sync.Narrowing

/-! The three configuration bundles of `xdma/xdmaIO/XDMACfgIO.scala` and the conversions
between them: the task as a controller holds it, the part sent to another cluster, and
the part that the datapath of one side takes. -/
namespace Snax

inductive Side
  | reader
  | writer
  deriving DecidableEq

def Side.isWriter : Side → Bool
  | .reader => false
  | .writer => true

structure XDMADataPathParam where
  rwParam : ReaderWriterParam
  extParam : List DataPathExtensionParam

namespace XDMADataPathParam

variable (param : XDMADataPathParam)

/-- The custom registers of all extensions and one that enables them. -/
def extCsrNum : Nat :=
  if param.extParam.isEmpty then 0
  else (param.extParam.map DataPathExtensionParam.userCsrNum).foldr (· + ·) 0 + 1

/-- Where the address of a cluster starts above the offsets into its TCDM. -/
def tcdmPrefix : Nat := log2Ceil param.rwParam.tcdmSize + 10

end XDMADataPathParam

/-- Both sides of an XDMA. `addrWidth` is that of the AXI parameters. -/
structure XDMACtrlParam extends XDMAParam where
  addrWidth : Nat
  maxMulticastDest : Nat
  maxSpatialDimension : Nat
  side : Side → XDMADataPathParam
  multicastPositive : 0 < maxMulticastDest
  temporalPositive : 0 < crossClusterParam.maxTemporalDimension
  channelPositive : 0 < axiParam.dataWidth / crossClusterParam.wordlineWidth
  wordFits : log2Ceil (crossClusterParam.wordlineWidth / 8) < log2Ceil crossClusterParam.tcdmSize + 10
  clusterFits : ∀ s, (side s).tcdmPrefix < addrWidth
  /-- A datapath takes the first dimensions of a task. -/
  spatialWithin : ∀ s, (side s).rwParam.spatialBounds.length ≤ 1
  temporalWithin : ∀ s, (side s).rwParam.temporalDimension ≤ crossClusterParam.maxTemporalDimension

namespace XDMACtrlParam

variable (param : XDMACtrlParam)

def numChannel : Nat := param.axiParam.dataWidth / param.crossClusterParam.wordlineWidth

/-- The low address bits within one word of the TCDM. -/
def wordBits : Nat := log2Ceil (param.crossClusterParam.wordlineWidth / 8)

abbrev beatWidth : Nat := param.crossClusterParam.tcdmAddressWidth

def firstDest : Fin param.maxMulticastDest := ⟨0,param.multicastPositive⟩

@[reducible] def aguParam (s : Side) : AddressGenUnitParam where
  spatialBounds := [param.numChannel]
  temporalDimension := param.crossClusterParam.maxTemporalDimension
  addressWidth := log2Ceil param.crossClusterParam.tcdmSize + 10
  numChannel := param.numChannel
  outputBufferDepth := (param.side s).rwParam.addressBufferDepth
  tcdmPhysWordSize := 256
  tcdmLogicWordSize := [256]
  spatialPositive := fun _ member => List.mem_singleton.mp member ▸ param.channelPositive
  spatialFits := Nat.le_of_eq (List.prod_singleton)
  temporalPositive := param.temporalPositive
  widthPositive := Nat.succ_pos _
  depthPositive := (param.side s).rwParam.addressDepthPositive
  remapNonempty := one_mapping

abbrev addressWidth (s : Side) : Nat := (param.aguParam s).addressWidth

end XDMACtrlParam

namespace XDMA

/-- The masks as wires: one that is not configurable has none. -/
structure ReaderWriterCfgIO (param : ReaderWriterParam) where
  enabledByte : BitVec (if param.configurableByteMask then param.tcdmDataWidth / 8 else 0)
  enabledChannel : BitVec (if param.configurableChannel then param.numChannel else 0)
  deriving DecidableEq

end XDMA

/-- A task as its controller holds it. -/
structure XDMACfgIO (param : XDMACtrlParam) (s : Side) where
  taskID : BitVec 4
  /-- Whether the task comes from another cluster. -/
  origination : Bool
  readerPtr : BitVec param.addrWidth
  writerPtr : Vector (BitVec param.addrWidth) param.maxMulticastDest
  axiTransferBeatSize : BitVec param.beatWidth
  aguCfg : AddressGenUnitCfgIO (param.aguParam s)
  readerwriterCfg : XDMA.ReaderWriterCfgIO (param.side s).rwParam
  localLoopback : Bool
  remoteLoopback : Bool
  extCfg : Vector (BitVec 32) (param.side s).extCsrNum

namespace XDMACfgIO

variable {param : XDMACtrlParam} {s : Side}

/-- A destination pointer; those beyond the last one read as zero. -/
def dest (cfg : XDMACfgIO param s) (i : Nat) : BitVec param.addrWidth := cfg.writerPtr[i]?.getD 0

/-- The pointer whose low bits address the TCDM of this side. -/
def sidePtr (cfg : XDMACfgIO param s) : BitVec param.addrWidth :=
  match s with
  | .reader => cfg.readerPtr
  | .writer => cfg.dest 0

def spatialStride (cfg : XDMACfgIO param s) : BitVec (param.addressWidth s) :=
  cfg.aguCfg.spatialStrides.get ⟨0,Nat.one_pos⟩

end XDMACfgIO

/-- What the datapath of one side takes. -/
structure XDMAIntraClusterCfgIO (param : XDMACtrlParam) (s : Side) where
  taskID : BitVec 4
  origination : Bool
  readerPtr : BitVec param.addrWidth
  writerPtr : Vector (BitVec param.addrWidth) param.maxMulticastDest
  axiTransferBeatSize : BitVec param.beatWidth
  aguCfg : AddressGenUnitCfgIO (param.side s).rwParam.aguParam
  readerwriterCfg : XDMA.ReaderWriterCfgIO (param.side s).rwParam
  localLoopback : Bool
  remoteLoopback : Bool
  extCfg : Vector (BitVec 32) (param.side s).extCsrNum

variable {param : XDMACtrlParam} {s : Side}

namespace XDMAIntraClusterCfgIO

/-- The AGU of a side has its own address width and takes the first dimensions. -/
def aguCfgOf (cfg : AddressGenUnitCfgIO (param.aguParam s)) :
    AddressGenUnitCfgIO (param.side s).rwParam.aguParam where
  ptr := cfg.ptr.setWidth _
  spatialStrides := Vector.ofFn fun i =>
    (cfg.spatialStrides.get (i.castLE (param.spatialWithin s))).setWidth _
  temporalBounds := Vector.ofFn fun i =>
    (cfg.temporalBounds.get (i.castLE (param.temporalWithin s))).setWidth _
  temporalStrides := Vector.ofFn fun i =>
    (cfg.temporalStrides.get (i.castLE (param.temporalWithin s))).setWidth _
  addressRemapIndex := cfg.addressRemapIndex.setWidth _

def convertFromXDMACfgIO (cfg : XDMACfgIO param s) : XDMAIntraClusterCfgIO param s where
  taskID := cfg.taskID
  origination := cfg.origination
  readerPtr := cfg.readerPtr
  writerPtr := cfg.writerPtr
  axiTransferBeatSize := cfg.axiTransferBeatSize
  aguCfg := aguCfgOf cfg.aguCfg
  readerwriterCfg := cfg.readerwriterCfg
  localLoopback := cfg.localLoopback
  remoteLoopback := cfg.remoteLoopback
  extCfg := cfg.extCfg

end XDMAIntraClusterCfgIO

namespace XDMAInterClusterCfgIO

/-- Strides travel in words, everything else in the widths of the link. -/
def convertFromXDMACfgIO (cfg : XDMACfgIO param s) : XDMAInterClusterCfgIO param.toXDMAParam where
  taskID := cfg.taskID
  isWriterSide := s.isWriter
  readerPtr := cfg.readerPtr.setWidth _
  writerPtr := #v[(cfg.dest 0).setWidth _,(cfg.dest 1).setWidth _]
  axiTransferBeatSize := cfg.axiTransferBeatSize
  spatialStride := cfg.spatialStride.extractLsb' param.wordBits _
  temporalBounds := cfg.aguCfg.temporalBounds.map (·.setWidth _)
  temporalStrides := cfg.aguCfg.temporalStrides.map (·.extractLsb' param.wordBits _)
  enabledChannel := cfg.readerwriterCfg.enabledChannel.setWidth _
  enabledByte := cfg.readerwriterCfg.enabledByte.setWidth _

def convertToXDMACfgIO (s : Side) (cfg : XDMAInterClusterCfgIO param.toXDMAParam) : XDMACfgIO param s where
  taskID := cfg.taskID
  origination := true
  readerPtr := cfg.readerPtr.setWidth _
  writerPtr := Vector.ofFn fun i => (cfg.writerPtr[i.val]?.getD 0).setWidth _
  axiTransferBeatSize := cfg.axiTransferBeatSize
  aguCfg := {
    ptr := match s with
      | .reader => cfg.readerPtr.setWidth _
      | .writer => (cfg.writerPtr.get ⟨0,Nat.two_pos⟩).setWidth _
    spatialStrides := Vector.replicate _ ((cfg.spatialStride ++ BitVec.ofNat param.wordBits 0).setWidth _)
    temporalBounds := cfg.temporalBounds.map (·.setWidth _)
    temporalStrides := cfg.temporalStrides.map fun x => (x ++ BitVec.ofNat param.wordBits 0).setWidth _
    addressRemapIndex := 0 }
  readerwriterCfg := ⟨cfg.enabledByte.setWidth _,cfg.enabledChannel.setWidth _⟩
  localLoopback := false
  remoteLoopback := false
  extCfg := Vector.replicate _ 0

end XDMAInterClusterCfgIO

end Snax
