import Snax.CsrLayout
import Snax.XdmaCtrl

/-! The registers of an XDMA, laid out three times: `xdma/xdmaFrontend/XDMACtrl.scala` counts
them, the chain of `connectWithList` in `xdma/xdmaIO/XDMACfgIO.scala` slices them into the
fields of both sides, and `xdma/xdmaTop/XDMATop.scala` writes a header of their addresses. -/
namespace Snax.XDMACtrl

open Streamer

variable (param : XDMACtrlParam)

/-! ### The count -/

def numCSRPerPtr : Nat := (param.addrWidth + 31) / 32

/-- The registers of both sides and the one that starts. The reader's byte mask has none. -/
def numReadWriteReg : Nat :=
  numCSRPerPtr param + param.maxSpatialDimension + param.crossClusterParam.maxTemporalDimension * 2 +
    (if (param.side .reader).rwParam.configurableChannel then 1 else 0) + 0 +
    (param.side .reader).extCsrNum + numCSRPerPtr param * param.maxMulticastDest +
    param.maxSpatialDimension + param.crossClusterParam.maxTemporalDimension * 2 +
    (if (param.side .writer).rwParam.configurableChannel then 1 else 0) +
    (if (param.side .writer).rwParam.configurableByteMask then 1 else 0) +
    (param.side .writer).extCsrNum + 1

/-! ### The slices -/

variable {α β : Type}

/-- The registers sliced into the fields of one side. -/
structure SideCsr (α : Type) where
  aguCfg : AguCfg α
  readerwriterCfg : ReaderWriterCfg α
  extCfg : List α

structure Connected (α : Type) where
  readerPtr : List α
  writerPtr : List (List α)
  side : Side → SideCsr α
  remainingCSR : List α

def connectWithList (s : Side) : StateT (List α) Option (SideCsr α) := do
  let aguCfg ← AguCfg.connectWithList (param.aguParam s)
  let readerwriterCfg ← ReaderWriterCfg.connectWithList (param.side s).rwParam
  let extCfg ← takeHeads (param.side s).extCsrNum
  return ⟨aguCfg,readerwriterCfg,extCfg⟩

/-- `writerPtr.foreach`, one slice for each destination. -/
def takePtrs (n : Nat) : Nat → List α → List (List α)
  | 0, _ => []
  | m + 1, csrList => csrList.take n :: takePtrs n m (csrList.drop n)

def dropPtrs (n : Nat) : Nat → List α → List α
  | 0, csrList => csrList
  | m + 1, csrList => dropPtrs n m (csrList.drop n)

def dropPtrFromList (csrList : List α) : List α :=
  dropPtrs (numCSRPerPtr param) param.maxMulticastDest (csrList.drop (numCSRPerPtr param))

/-- The pointer registers are sliced once into the full pointers and once more, in front of
the other registers of their side, into the address generators. -/
def connect (csrList : List α) : Option (Connected α) := do
  let nextSrcPtrCSR := csrList.take (numCSRPerPtr param)
  let nextDstPtrCSR := (csrList.drop (numCSRPerPtr param)).take (numCSRPerPtr param)
  let (reader,remainingCSR) ←
    connectWithList param .reader (nextSrcPtrCSR ++ dropPtrFromList param csrList)
  let (writer,remainingCSR) ← connectWithList param .writer (nextDstPtrCSR ++ remainingCSR)
  return {
    readerPtr := csrList.take (numCSRPerPtr param)
    writerPtr := takePtrs (numCSRPerPtr param) param.maxMulticastDest
      (csrList.drop (numCSRPerPtr param))
    side := fun
      | .reader => reader
      | .writer => writer
    remainingCSR := remainingCSR }

/-! ### The header -/

namespace Header

def srcAddrPtrLsb : Nat := 0
def srcAddrPtrMsb : Nat := srcAddrPtrLsb + 1
def maxDstCount : Nat := param.maxMulticastDest
def dstAddrPtrLsb : Nat := srcAddrPtrMsb + 1
def dstAddrPtrMsb : Nat := dstAddrPtrLsb + 1

def tempDim (_ : Side) : Nat := param.crossClusterParam.maxTemporalDimension
def extNum (s : Side) : Nat := (param.side s).extParam.length
def extCsrNum (s : Side) : Nat :=
  Layout.sumOf DataPathExtensionParam.userCsrNum (param.side s).extParam
/-- `XDMA_…_EXT_CUSTOM_CSR_NUM`. -/
def extCustomCsrNum (s : Side) : List Nat :=
  (param.side s).extParam.map DataPathExtensionParam.userCsrNum

def srcSpatialStridePtr : Nat := dstAddrPtrLsb + maxDstCount param * 2
def srcTempBoundPtr : Nat := srcSpatialStridePtr param + 1
def srcTempStridePtr : Nat := srcTempBoundPtr param + tempDim param .reader
def srcEnabledChanPtr : Nat := srcTempStridePtr param + tempDim param .reader
def srcEnablePtr : Nat := srcEnabledChanPtr param +
  (if (param.side .reader).rwParam.configurableChannel then 1 else 0)
def srcExtCsrPtr : Nat := srcEnablePtr param + (if extNum param .reader > 0 then 1 else 0)

def dstSpatialStridePtr : Nat := srcExtCsrPtr param + extCsrNum param .reader
def dstTempBoundPtr : Nat := dstSpatialStridePtr param + 1
def dstTempStridePtr : Nat := dstTempBoundPtr param + tempDim param .writer
def dstEnabledChanPtr : Nat := dstTempStridePtr param + tempDim param .writer
def dstEnabledBytePtr : Nat := dstEnabledChanPtr param +
  (if (param.side .writer).rwParam.configurableChannel then 1 else 0)
def dstEnablePtr : Nat := dstEnabledBytePtr param +
  (if (param.side .writer).rwParam.configurableByteMask then 1 else 0)
def dstExtCsrPtr : Nat := dstEnablePtr param + (if extNum param .writer > 0 then 1 else 0)
def startPtr : Nat := dstExtCsrPtr param + extCsrNum param .writer

/-- The macros that both sides have. -/
def spatialStridePtr : Side → Nat
  | .reader => srcSpatialStridePtr param
  | .writer => dstSpatialStridePtr param

def tempBoundPtr : Side → Nat
  | .reader => srcTempBoundPtr param
  | .writer => dstTempBoundPtr param

def tempStridePtr : Side → Nat
  | .reader => srcTempStridePtr param
  | .writer => dstTempStridePtr param

def enabledChanPtr : Side → Nat
  | .reader => srcEnabledChanPtr param
  | .writer => dstEnabledChanPtr param

def enablePtr : Side → Nat
  | .reader => srcEnablePtr param
  | .writer => dstEnablePtr param

def extCsrPtr : Side → Nat
  | .reader => srcExtCsrPtr param
  | .writer => dstExtCsrPtr param

/-- The registers that the header names for the fields of a side, where it has them. -/
def sideWiring (s : Side) : SideCsr Nat where
  aguCfg := {
    ptrLow := match s with
      | .reader => srcAddrPtrLsb
      | .writer => dstAddrPtrLsb
    ptrHigh := match s with
      | .reader => srcAddrPtrMsb
      | .writer => dstAddrPtrMsb
    spatialStrides := [spatialStridePtr param s]
    temporalBounds := List.range' (tempBoundPtr param s) (tempDim param s)
    temporalStrides := List.range' (tempStridePtr param s) (tempDim param s)
    addressRemapIndex := none }
  readerwriterCfg := {
    enabledChannel :=
      if (param.side s).rwParam.configurableChannel then some [enabledChanPtr param s] else none
    enabledByte := match s with
      | .reader => none
      | .writer =>
        if (param.side s).rwParam.configurableByteMask then some (dstEnabledBytePtr param) else none }
  extCfg :=
    if extNum param s > 0 then
      enablePtr param s :: List.range' (extCsrPtr param s) (extCsrNum param s)
    else []

def wiring : Connected Nat where
  readerPtr := [srcAddrPtrLsb,srcAddrPtrMsb]
  writerPtr := (List.range (maxDstCount param)).map fun i =>
    [dstAddrPtrLsb + i * 2,dstAddrPtrMsb + i * 2]
  side := sideWiring param
  remainingCSR := [startPtr param]

end Header

/-! ### Agreement -/

def AguCfg.map (f : α → β) (cfg : AguCfg α) : AguCfg β where
  ptrLow := f cfg.ptrLow
  ptrHigh := f cfg.ptrHigh
  spatialStrides := cfg.spatialStrides.map f
  temporalBounds := cfg.temporalBounds.map f
  temporalStrides := cfg.temporalStrides.map f
  addressRemapIndex := cfg.addressRemapIndex.map f

def ReaderWriterCfg.map (f : α → β) (cfg : ReaderWriterCfg α) : ReaderWriterCfg β where
  enabledChannel := cfg.enabledChannel.map (List.map f)
  enabledByte := cfg.enabledByte.map f

def SideCsr.map (f : α → β) (csr : SideCsr α) : SideCsr β where
  aguCfg := AguCfg.map f csr.aguCfg
  readerwriterCfg := ReaderWriterCfg.map f csr.readerwriterCfg
  extCfg := csr.extCfg.map f

def Connected.map (f : α → β) (hw : Connected α) : Connected β where
  readerPtr := hw.readerPtr.map f
  writerPtr := hw.writerPtr.map (List.map f)
  side s := (hw.side s).map f
  remainingCSR := hw.remainingCSR.map f

/-- Up to 64 address bits a pointer takes two registers. -/
theorem numCSRPerPtr_eq {param : XDMACtrlParam} (wide : 32 < param.addrWidth)
    (narrow : param.addrWidth ≤ 64) : numCSRPerPtr param = 2 := by
  rw [numCSRPerPtr]
  omega

/-- What the count and the header take for granted: one spatial stride, one register for
the channels of a side, and a reader without byte mask. -/
structure OneLayout : Prop where
  oneStride : param.maxSpatialDimension = 1
  oneWord : ∀ s, (param.side s).rwParam.configurableChannel = true →
    (param.side s).rwParam.numChannel ≤ 32
  readerByte : (param.side .reader).rwParam.configurableByteMask = false

/-- Consecutive registers. -/
def seg (regs : Nat → α) (a n : Nat) : List α := (List.range' a n).map regs

section Seg

variable (regs : Nat → α)

end Seg

/-- The registers that a side's channels and byte mask take. -/
def chanNum (s : Side) : Nat := if (param.side s).rwParam.configurableChannel then 1 else 0
def byteNum (s : Side) : Nat := if (param.side s).rwParam.configurableByteMask then 1 else 0

/-- The temporal registers end and the channels begin here, for a side from `a` on. -/
def chanPtr (a : Nat) : Nat :=
  a + 1 + param.crossClusterParam.maxTemporalDimension + param.crossClusterParam.maxTemporalDimension

/-- The registers of a side after its pointer, and `m` more. -/
def sideSpan (s : Side) (m : Nat) : Nat :=
  1 + (param.crossClusterParam.maxTemporalDimension + (param.crossClusterParam.maxTemporalDimension +
    (chanNum param s + (byteNum param s + ((param.side s).extCsrNum + m)))))

/-- Where the registers of a side end. -/
def sideEnd (s : Side) (a : Nat) : Nat :=
  chanPtr param a + chanNum param s + byteNum param s + (param.side s).extCsrNum

theorem sideEnd_add (s : Side) (a m : Nat) : sideEnd param s a + m = a + sideSpan param s m := by
  simp only [sideEnd,chanPtr,sideSpan,Nat.add_assoc]

section Wiring

open Header

variable {param} (layout : OneLayout param)
include layout

omit layout in
theorem extCsrNum_eq (s : Side) : (param.side s).extCsrNum =
    (if extNum param s > 0 then 1 else 0) + extCsrNum param s := by
  have sum : ∀ l : List DataPathExtensionParam,
      (l.map DataPathExtensionParam.userCsrNum).foldr (· + ·) 0 =
        Layout.sumOf DataPathExtensionParam.userCsrNum l := by
    intro l
    induction l with
    | nil => rfl
    | cons e l ih => rw [List.map_cons,List.foldr_cons,ih,Layout.sumOf]
  rw [XDMADataPathParam.extCsrNum,sum,extNum,extCsrNum]
  cases (param.side s).extParam with
  | nil => rfl
  | cons e l => simp [Nat.add_comm]

omit layout in
theorem srcSpatialStridePtr_eq : srcSpatialStridePtr param = 2 + 2 * param.maxMulticastDest := by
  rw [srcSpatialStridePtr,maxDstCount,Nat.mul_comm]
  rfl

theorem reader_end : sideEnd param .reader (srcSpatialStridePtr param) = dstSpatialStridePtr param := by
  have noByte : byteNum param .reader = 0 := by simp [byteNum,layout.readerByte]
  rw [sideEnd,extCsrNum_eq,noByte,← Nat.add_assoc]
  rfl

omit layout in
theorem writer_end : sideEnd param .writer (dstSpatialStridePtr param) = startPtr param := by
  rw [sideEnd,extCsrNum_eq,← Nat.add_assoc]
  rfl

variable (wide : 32 < param.addrWidth) (narrow : param.addrWidth ≤ 64)
include wide narrow

/-- The pointers, one side after the other, and the start register. -/
theorem numReadWriteReg_eq : numReadWriteReg param =
    2 + (2 * param.maxMulticastDest + sideSpan param .reader (sideSpan param .writer 1)) := by
  have noByte : byteNum param .reader = 0 := by simp [byteNum,layout.readerByte]
  rw [numReadWriteReg,numCSRPerPtr_eq wide narrow,layout.oneStride,sideSpan,sideSpan,noByte]
  unfold chanNum byteNum
  omega

/-- The start register is the last one. -/
theorem startPtr_last : startPtr param + 1 = numReadWriteReg param := by
  rw [← writer_end,sideEnd_add,← reader_end layout,sideEnd_add,srcSpatialStridePtr_eq,
    numReadWriteReg_eq layout wide narrow,Nat.add_assoc]

end Wiring

/-! ### Agreement needs the layout -/

theorem map_id (hw : Connected α) : hw.map id = hw := by
  simp [Connected.map,SideCsr.map,AguCfg.map,ReaderWriterCfg.map]

/-- `Cat(registers.reverse)`: the first register is the lowest. -/
def cat : List (BitVec 32) → Nat
  | [] => 0
  | w :: ws => w.toNat + 2 ^ 32 * cat ws

def sideLaunch (s : Side) (csr : SideCsr (BitVec 32)) : SideLaunch param s where
  aguCfg := {
    ptr := BitVec.ofNat _ (cat [csr.aguCfg.ptrLow,csr.aguCfg.ptrHigh])
    spatialStrides := Vector.ofFn fun i => (csr.aguCfg.spatialStrides.getD i 0).setWidth _
    temporalBounds := Vector.ofFn fun i => (csr.aguCfg.temporalBounds.getD i 0).setWidth _
    temporalStrides := Vector.ofFn fun i => (csr.aguCfg.temporalStrides.getD i 0).setWidth _
    addressRemapIndex := (csr.aguCfg.addressRemapIndex.getD 0).setWidth _ }
  readerwriterCfg := {
    enabledByte := (csr.readerwriterCfg.enabledByte.getD 0).setWidth _
    enabledChannel := BitVec.ofNat _ (cat (csr.readerwriterCfg.enabledChannel.getD []).reverse) }
  extCfg := Vector.ofFn fun i => csr.extCfg.getD i 0

def launchOf (hw : Connected (BitVec 32)) : Launch param where
  readerPtr := BitVec.ofNat _ (cat hw.readerPtr)
  writerPtr := Vector.ofFn fun i => BitVec.ofNat _ (cat (hw.writerPtr.getD i []))
  fields s := sideLaunch param s (hw.side s)

/-- The configuration that a launch takes from the registers. -/
def received (csrList : List (BitVec 32)) : Option (Launch param) :=
  (connect param csrList).map (launchOf param)

end Snax.XDMACtrl
