import Snax.AddressGenUnit

/-! `readerWriter/Reader.scala` with its requestors, responsers and output repeater, in
one clock domain (its condition 1). Wires are functions of the state and the inputs of a
cycle; an offered but not accepted `Decoupled` word is an `Option`. -/
namespace Snax

structure RegReq (addrWidth dataWidth : Nat) where
  addr : BitVec addrWidth
  write : Bool
  data : BitVec dataWidth
  strb : BitVec (dataWidth / 8)
  priority : Bool
  deriving DecidableEq

/-- The channel mask and the byte mask; each is read only where it is configurable. -/
structure ReaderWriterCfgIO (param : ReaderWriterParam) where
  enabledChannel : Fin param.numChannel → Bool
  enabledByte : BitVec (param.tcdmDataWidth / 8)

def ReaderWriterCfgIO.enable {param : ReaderWriterParam} (cfg : ReaderWriterCfgIO param)
    (c : Fin param.numChannel) : Bool :=
  if param.configurableChannel then cfg.enabledChannel c else true

def ReaderWriterCfgIO.strb {param : ReaderWriterParam} (cfg : ReaderWriterCfgIO param) :
    BitVec (param.tcdmDataWidth / 8) :=
  if param.configurableByteMask then cfg.enabledByte else BitVec.allOnes _

namespace DataRequestor

def tcdmReqValid (isReader enable addrValid dataValid rspReady : Bool) : Bool :=
  if enable then (if isReader then addrValid && rspReady else addrValid && dataValid) else false

/-- A disabled reader pops its address when a zero can be stored, a disabled writer always. -/
def addrReady (isReader enable tcdmReqFire rspReady : Bool) : Bool :=
  if enable then tcdmReqFire else if isReader then rspReady else true

end DataRequestor

namespace DataResponser

def ceil (fifoDepth : Nat) : BitVec (log2Up (fifoDepth + 1)) := BitVec.ofNat _ (fifoDepth + 1)

/-- `io.out.data`: the response, or the zero word of a submitted fake request. -/
def dataOut {dataWidth : Nat} (enable : Bool) (tcdmRsp : Option (BitVec dataWidth))
    (reqSubmit : Bool) : Option (BitVec dataWidth) :=
  if enable then tcdmRsp else if reqSubmit then some 0 else none

def rspReady (fifoDepth : Nat) (fifoUtilization : BitVec (log2Up (fifoDepth + 1)))
    (dataFifoPopped : Bool) : Bool :=
  !UpDownCounter.lastVal (ceil fifoDepth) fifoUtilization || dataFifoPopped

def next (fifoDepth : Nat) (reqSubmit dataFifoPopped : Bool)
    (fifoUtilization : BitVec (log2Up (fifoDepth + 1))) : BitVec (log2Up (fifoDepth + 1)) :=
  UpDownCounter.next false reqSubmit dataFifoPopped (ceil fifoDepth) fifoUtilization

end DataResponser

namespace HandShakeRepeater

def outFire (inValid outReady : Bool) : Bool := inValid && outReady

def inReady (repeatTimes counter : BitVec w) (inValid outReady : Bool) : Bool :=
  outFire inValid outReady &&
    BasicCounter.lastVal true (outFire inValid outReady) repeatTimes counter

def next (start : Bool) (repeatTimes counter : BitVec w) (inValid outReady : Bool) : BitVec w :=
  BasicCounter.next true start (outFire inValid outReady) repeatTimes counter

end HandShakeRepeater

namespace AddressGenUnitCfgIO

variable {param : AddressGenUnitParam} (cfg : AddressGenUnitCfgIO param)

def bound0 : BitVec param.addressWidth := cfg.temporalBounds.get ⟨0,param.temporalPositive⟩
def stride0 : BitVec param.addressWidth := cfg.temporalStrides.get ⟨0,param.temporalPositive⟩

/-- The bound override of the Reader: an innermost stride of zero is read once. -/
def readOnce : AddressGenUnitCfgIO param :=
  if cfg.stride0 = 0 then
    { cfg with temporalBounds := cfg.temporalBounds.set 0 1 param.temporalPositive }
  else cfg

/-- `repeat_times`, the replay count that stands in for the overridden bound. -/
def repeatTimes : BitVec param.addressWidth := if cfg.stride0 = 0 then cfg.bound0 else 1

end AddressGenUnitCfgIO

/-- A Reader elaborates without byte mask; one clock domain is the case modelled here. -/
structure ReaderParam extends ReaderWriterParam where
  noByteMask : configurableByteMask = false
  sameClock : crossClockDomain = false

namespace Reader

variable (param : ReaderParam)

abbrev Address := BitVec param.aguParam.addressWidth
abbrev Word := BitVec param.tcdmDataWidth
abbrev WideWord := Fin param.numChannel → Word param

structure State where
  addressgen : AddressGenUnit.State param.aguParam
  fifoUtilization : Fin param.numChannel → BitVec (log2Up (param.bufferDepth + 1))
  dataBuffer : ComplexQueueConcat.Lanes (Word param) param.bufferDepth param.numChannel
  dataRepeatCounter : BitVec param.aguParam.addressWidth

structure Input where
  aguCfg : AddressGenUnitCfgIO param.aguParam
  readerwriterCfg : ReaderWriterCfgIO param.toReaderWriterParam
  start : Bool
  tcdmReqReady : Fin param.numChannel → Bool
  tcdmRsp : Fin param.numChannel → Option (Word param)
  dataReady : Bool

structure Output where
  tcdmReq : Fin param.numChannel → Option (RegReq param.aguParam.addressWidth param.tcdmDataWidth)
  data : Option (WideWord param)
  busy : Bool
  bufferEmpty : Bool

variable {param}

def initial (param : ReaderParam) : State param where
  addressgen := AddressGenUnit.initial param.aguParam
  fifoUtilization := fun _ => 0
  dataBuffer := fun _ => Queue.empty param.dataDepthPositive
  dataRepeatCounter := 0

def outValid (s : State param) : Bool := ComplexQueueConcat.allValid s.dataBuffer

def outFire (s : State param) (i : Input param) : Bool :=
  HandShakeRepeater.outFire (outValid s) i.dataReady

/-- `dataBuffer.io.out.head.fire`, the credit return of every channel. -/
def dataFifoPopped (s : State param) (i : Input param) : Bool :=
  outValid s &&
    HandShakeRepeater.inReady i.aguCfg.repeatTimes s.dataRepeatCounter (outValid s) i.dataReady

def addrBits (s : State param) (c : Fin param.numChannel) : Option (Address param) :=
  (s.addressgen.outputBuffer c).deqBits

def rspReady (s : State param) (i : Input param) (c : Fin param.numChannel) : Bool :=
  DataResponser.rspReady param.bufferDepth (s.fifoUtilization c) (dataFifoPopped s i)

def tcdmReqValid (s : State param) (i : Input param) (c : Fin param.numChannel) : Bool :=
  DataRequestor.tcdmReqValid true (i.readerwriterCfg.enable c) (addrBits s c).isSome false
    (rspReady s i c)

def tcdmReqFire (s : State param) (i : Input param) (c : Fin param.numChannel) : Bool :=
  tcdmReqValid s i c && i.tcdmReqReady c

def addrReady (s : State param) (i : Input param) (c : Fin param.numChannel) : Bool :=
  DataRequestor.addrReady true (i.readerwriterCfg.enable c) (tcdmReqFire s i c) (rspReady s i c)

def reqSubmit (s : State param) (i : Input param) (c : Fin param.numChannel) : Bool :=
  (addrBits s c).isSome && addrReady s i c

/-- What the responser of a channel offers to its lane; its ready signal is not read. -/
def laneData (s : State param) (i : Input param) (c : Fin param.numChannel) : Option (Word param) :=
  DataResponser.dataOut (i.readerwriterCfg.enable c) (i.tcdmRsp c) (reqSubmit s i c)

def laneReady (s : State param) (i : Input param) (c : Fin param.numChannel) : Bool :=
  (s.dataBuffer c).enqReady true (outValid s && dataFifoPopped s i)

def addressgenInput (s : State param) (i : Input param) : AddressGenUnit.Input param.aguParam where
  cfg := i.aguCfg.readOnce
  start := i.start
  addrReady := addrReady s i

def next (s : State param) (i : Input param) : State param where
  addressgen := AddressGenUnit.next s.addressgen (addressgenInput s i)
  fifoUtilization := fun c =>
    DataResponser.next param.bufferDepth (reqSubmit s i c) (dataFifoPopped s i) (s.fifoUtilization c)
  dataBuffer := ComplexQueueConcat.gather true s.dataBuffer (laneData s i) (dataFifoPopped s i)
  dataRepeatCounter :=
    HandShakeRepeater.next i.start i.aguCfg.repeatTimes s.dataRepeatCounter (outValid s) i.dataReady

def busy (s : State param) : Bool :=
  s.addressgen.currentState == .sBUSY || !ComplexQueueConcat.allEmpty s.addressgen.outputBuffer

def out (s : State param) (i : Input param) : Output param where
  tcdmReq := fun c =>
    if tcdmReqValid s i c then
      (addrBits s c).map fun addr =>
        { addr, write := false, data := 0, strb := i.readerwriterCfg.strb
          priority := if param.bufferDepth > 1 then
            ComplexQueueConcat.priorities true s.dataBuffer c else false }
    else none
  data := ComplexQueueConcat.front s.dataBuffer
  busy := busy s
  bufferEmpty := ComplexQueueConcat.allEmpty s.dataBuffer

end Reader

def reader (param : ReaderParam) :
    Sync.Machine (Reader.State param) (Reader.Input param) (Reader.Output param) where
  next := Reader.next
  out := Reader.out

end Snax
