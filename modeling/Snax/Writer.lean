import Snax.Reader

/-! `readerWriter/Writer.scala`, in one clock domain: the generator's addresses and the
scattered data words meet in one requestor per channel. -/
namespace Snax

structure WriterParam extends ReaderWriterParam where
  sameClock : crossClockDomain = false

namespace Writer

variable (param : WriterParam)

abbrev Address := BitVec param.aguParam.addressWidth
abbrev Word := BitVec param.tcdmDataWidth
abbrev WideWord := Fin param.numChannel → Word param

structure State where
  addressgen : AddressGenUnit.State param.aguParam
  dataBuffer : ComplexQueueConcat.Lanes (Word param) param.bufferDepth param.numChannel

structure Input where
  aguCfg : AddressGenUnitCfgIO param.aguParam
  readerwriterCfg : ReaderWriterCfgIO param.toReaderWriterParam
  start : Bool
  tcdmReqReady : Fin param.numChannel → Bool
  data : Option (WideWord param)

structure Output where
  tcdmReq : Fin param.numChannel → Option (RegReq param.aguParam.addressWidth param.tcdmDataWidth)
  dataReady : Bool
  busy : Bool
  bufferEmpty : Bool

variable {param}

def initial (param : WriterParam) : State param where
  addressgen := AddressGenUnit.initial param.aguParam
  dataBuffer := fun _ => Queue.empty param.dataDepthPositive

def addrBits (s : State param) (c : Fin param.numChannel) : Option (Address param) :=
  (s.addressgen.outputBuffer c).deqBits

def dataBits (s : State param) (c : Fin param.numChannel) : Option (Word param) :=
  (s.dataBuffer c).deqBits

def tcdmReqValid (s : State param) (i : Input param) (c : Fin param.numChannel) : Bool :=
  DataRequestor.tcdmReqValid false (i.readerwriterCfg.enable c) (addrBits s c).isSome
    (dataBits s c).isSome false

def tcdmReqFire (s : State param) (i : Input param) (c : Fin param.numChannel) : Bool :=
  tcdmReqValid s i c && i.tcdmReqReady c

/-- One ready signal pops the address and the data queue of a channel. -/
def addrReady (s : State param) (i : Input param) (c : Fin param.numChannel) : Bool :=
  DataRequestor.addrReady false (i.readerwriterCfg.enable c) (tcdmReqFire s i c) false

def dataReady (s : State param) (i : Input param) : Bool :=
  ComplexQueueConcat.allReady false s.dataBuffer (addrReady s i)

def tcdmReqBits (s : State param) (i : Input param) (c : Fin param.numChannel) :
    Option (RegReq param.aguParam.addressWidth param.tcdmDataWidth) :=
  (addrBits s c).bind fun addr => (dataBits s c).map fun data =>
    { addr, write := true, data, strb := i.readerwriterCfg.strb
      priority := if param.bufferDepth > 1 then
        ComplexQueueConcat.priorities false s.dataBuffer c else false }

def addressgenInput (s : State param) (i : Input param) : AddressGenUnit.Input param.aguParam where
  cfg := i.aguCfg
  start := i.start
  addrReady := addrReady s i

def next (s : State param) (i : Input param) : State param where
  addressgen := AddressGenUnit.next s.addressgen (addressgenInput s i)
  dataBuffer := ComplexQueueConcat.scatter false s.dataBuffer i.data (addrReady s i)

def busy (s : State param) : Bool :=
  s.addressgen.currentState == .sBUSY || !ComplexQueueConcat.allEmpty s.addressgen.outputBuffer

def out (s : State param) (i : Input param) : Output param where
  tcdmReq := fun c => if tcdmReqValid s i c then tcdmReqBits s i c else none
  dataReady := dataReady s i
  busy := busy s
  bufferEmpty := ComplexQueueConcat.allEmpty s.addressgen.outputBuffer &&
    ComplexQueueConcat.allEmpty s.dataBuffer

end Writer

def writer (param : WriterParam) :
    Sync.Machine (Writer.State param) (Writer.Input param) (Writer.Output param) where
  next := Writer.next
  out := Writer.out

end Snax
