import Snax.Reader
import Snax.Writer

/-! `readerWriter/ReaderWriter.scala`: a Reader and a Writer behind one TCDM port. The
Writer owns the port in every cycle in which one of its channels has a request; responses
go to the Reader if it owned the port in the cycle before. -/
namespace Snax

/-- `MuxDecoupled` of `utils/MuxDemuxDecoupled.scala`: the selected input drives the output
and alone sees its ready signal. -/
def MuxDecoupled.out (input : Fin n → Option α) (sel : Nat) : Option α :=
  if inside : sel < n then input ⟨sel,inside⟩ else none

def MuxDecoupled.inReady (sel : Nat) (outReady : Bool) (k : Fin n) : Bool := sel == k.val && outReady

/-- Both halves with their parameters; the TCDM they share has one channel count, which is
required, and one word and address width, which the generator hands to all data movers. -/
structure ReaderWriterPair where
  reader : ReaderParam
  writer : WriterParam
  sameChannel : reader.numChannel = writer.numChannel
  sameData : writer.tcdmDataWidth = reader.tcdmDataWidth
  sameSize : writer.tcdmSize = reader.tcdmSize

namespace ReaderWriter

variable (pair : ReaderWriterPair)

abbrev Channel := Fin pair.reader.numChannel
abbrev Req := RegReq pair.reader.aguParam.addressWidth pair.reader.tcdmDataWidth
abbrev Word := BitVec pair.reader.tcdmDataWidth

structure State where
  reader : Reader.State pair.reader
  writer : Writer.State pair.writer
  /-- `RegNext(sel === 1.U)`, which has no reset value. -/
  readerSelBefore : Bool

structure Tasks where
  readerAguCfg : AddressGenUnitCfgIO pair.reader.aguParam
  readerCfg : ReaderWriterCfgIO pair.reader.toReaderWriterParam
  readerStart : Bool
  dataReady : Bool
  writerAguCfg : AddressGenUnitCfgIO pair.writer.aguParam
  writerCfg : ReaderWriterCfgIO pair.writer.toReaderWriterParam
  writerStart : Bool
  data : Option (Writer.WideWord pair.writer)

structure Input where
  tasks : Tasks pair
  tcdmReqReady : Channel pair → Bool
  tcdmRsp : Channel pair → Option (Word pair)

variable {pair}

def writerChannel (c : Channel pair) : Fin pair.writer.numChannel := c.cast pair.sameChannel

def readerInput (i : Tasks pair) (ready : Channel pair → Bool) (rsp : Channel pair → Option (Word pair)) :
    Reader.Input pair.reader where
  aguCfg := i.readerAguCfg
  readerwriterCfg := i.readerCfg
  start := i.readerStart
  tcdmReqReady := ready
  tcdmRsp := rsp
  dataReady := i.dataReady

def writerInput (i : Tasks pair) (ready : Channel pair → Bool) : Writer.Input pair.writer where
  aguCfg := i.writerAguCfg
  readerwriterCfg := i.writerCfg
  start := i.writerStart
  tcdmReqReady := fun c => ready (c.cast pair.sameChannel.symm)
  data := i.data

/-- A request of the Writer on the wires of the shared port. -/
def toPort (req : RegReq pair.writer.aguParam.addressWidth pair.writer.tcdmDataWidth) : Req pair where
  addr := req.addr.setWidth _
  write := req.write
  data := req.data.setWidth _
  strb := req.strb.setWidth _
  priority := req.priority

/-- What either half offers in a cycle, which does not depend on what it is granted. -/
def readerReq (s : Reader.State pair.reader) (i : Tasks pair) (c : Channel pair) : Option (Req pair) :=
  (Reader.out s (readerInput i (fun _ => false) fun _ => none)).tcdmReq c

def writerReq (s : Writer.State pair.writer) (i : Tasks pair) (c : Channel pair) : Option (Req pair) :=
  ((Writer.out s (writerInput i fun _ => false)).tcdmReq (writerChannel c)).map toPort

/-- Input 0 of the multiplexers is the Writer, input 1 the Reader. -/
def sel (s : State pair) (i : Tasks pair) : Nat :=
  if decide (∃ c, (writerReq s.writer i c).isSome = true) then 0 else 1

def muxInput (s : State pair) (i : Tasks pair) (c : Channel pair) (k : Fin 2) : Option (Req pair) :=
  if k.val = 0 then writerReq s.writer i c else readerReq s.reader i c

def tcdmReq (s : State pair) (i : Tasks pair) (c : Channel pair) : Option (Req pair) :=
  MuxDecoupled.out (muxInput s i c) (sel s i)

def writerReady (s : State pair) (i : Input pair) (c : Channel pair) : Bool :=
  MuxDecoupled.inReady (sel s i.tasks) (i.tcdmReqReady c) (⟨0,Nat.two_pos⟩ : Fin 2)

def readerReady (s : State pair) (i : Input pair) (c : Channel pair) : Bool :=
  MuxDecoupled.inReady (sel s i.tasks) (i.tcdmReqReady c) (⟨1,Nat.one_lt_two⟩ : Fin 2)

def readerRsp (s : State pair) (i : Input pair) (c : Channel pair) : Option (Word pair) :=
  if s.readerSelBefore then i.tcdmRsp c else none

def next (s : State pair) (i : Input pair) : State pair where
  reader := Reader.next s.reader (readerInput i.tasks (readerReady s i) (readerRsp s i))
  writer := Writer.next s.writer (writerInput i.tasks (writerReady s i))
  readerSelBefore := sel s i.tasks == 1

def initial (pair : ReaderWriterPair) (readerSelBefore : Bool) : State pair :=
  ⟨Reader.initial pair.reader,Writer.initial pair.writer,readerSelBefore⟩

end ReaderWriter
end Snax
