import Snax.XdmaCsr
import Snax.ReqRspManager
import Snax.Sync.Overlay

/-! The driver `sw/snax/xdma/src/snax-xdma-lib.c`: copies write the registers of a transfer,
by the addresses of the generated header, and extensions are switched on and off between
them. The checks that only print are left out. -/
namespace Snax.XdmaDriver

open XDMACtrl Header Sync.Overlay

variable (param : XDMACtrlParam)

/-- Early returns carry the returned value. -/
abbrev Driver := Program (BitVec 32) Int

def snaxWriteXdmaCfgReg (addr : Nat) (value : BitVec 32) : Driver Unit := write addr value
def snaxReadXdmaCfgReg (addr : Nat) : Driver (BitVec 32) := read addr

/-- The arguments after the pointers, by side. Arrays are what their pointers point to. -/
structure NdArgs where
  spatialStride : Side → BitVec 32
  tempDim : Side → BitVec 32
  tempStride : Side → Nat → BitVec 32
  tempBound : Side → Nat → BitVec 32
  enabledChan : Side → BitVec 32
  enabledByteDst : BitVec 32

/-- `(uint32_t)addr` and `(uint32_t)(addr >> 32)`. -/
def lsb (addr : BitVec 64) : BitVec 32 := addr.setWidth 32
def msb (addr : BitVec 64) : BitVec 32 := (addr >>> 32).setWidth 32

def writeSrc (src : BitVec 64) : Driver Unit := do
  snaxWriteXdmaCfgReg srcAddrPtrLsb (lsb src)
  snaxWriteXdmaCfgReg srcAddrPtrMsb (msb src)

def writeDst (dst : BitVec 64) (i : Nat) : Driver Unit := do
  snaxWriteXdmaCfgReg (dstAddrPtrLsb + i * 2) (lsb dst)
  snaxWriteXdmaCfgReg (dstAddrPtrMsb + i * 2) (msb dst)

/-- Dimension 0 to n, then n to the maximum. -/
def writeTemporal (args : NdArgs) (s : Side) : Driver Unit := do
  forRange (fun i => do
    if tempDim param s ≤ i then throw (-4)
    snaxWriteXdmaCfgReg (tempBoundPtr param s + i) (args.tempBound s i)
    snaxWriteXdmaCfgReg (tempStridePtr param s + i) (args.tempStride s i)) 0 (args.tempDim s).toNat
  forRange (fun i => do
    snaxWriteXdmaCfgReg (tempBoundPtr param s + i) 1
    snaxWriteXdmaCfgReg (tempStridePtr param s + i) 0) (args.tempDim s).toNat
      (tempDim param s - (args.tempDim s).toNat)

/-- What the copies do after the pointers. -/
def writeNd (args : NdArgs) : Driver Int := do
  snaxWriteXdmaCfgReg (spatialStridePtr param .reader) (args.spatialStride .reader)
  snaxWriteXdmaCfgReg (spatialStridePtr param .writer) (args.spatialStride .writer)
  writeTemporal param args .reader
  writeTemporal param args .writer
  snaxWriteXdmaCfgReg (enabledChanPtr param .reader) (args.enabledChan .reader)
  snaxWriteXdmaCfgReg (enabledChanPtr param .writer) (args.enabledChan .writer)
  snaxWriteXdmaCfgReg (dstEnabledBytePtr param) args.enabledByteDst
  return 0

def snaxXdmaMemcpyNdFullAddr (src dst : BitVec 64) (args : NdArgs) : Driver Int := do
  writeSrc src
  writeDst dst 0
  forRange (writeDst 0) 1 (maxDstCount param - 1)
  writeNd param args

def snaxXdmaMulticastNdFullAddress (src : BitVec 64) (dst : Nat → BitVec 64) (dstNum : BitVec 32)
    (args : NdArgs) : Driver Int := do
  writeSrc src
  forRange (fun i => writeDst (dst i) i) 0 dstNum.toNat
  forRange (writeDst 0) dstNum.toNat (maxDstCount param - dstNum.toNat)
  writeNd param args

/-- The address of this cluster above its lower 32 bits. -/
def clusterBase (clusterBaseAddrh : BitVec 32) : BitVec 64 := clusterBaseAddrh.setWidth 64 <<< 32

def snaxXdmaMemcpyNd (clusterBaseAddrh : BitVec 32) (src dst : BitVec 64) (args : NdArgs) : Driver Int :=
  snaxXdmaMemcpyNdFullAddr param (src + clusterBase clusterBaseAddrh)
    (dst + clusterBase clusterBaseAddrh) args

def snaxXdmaMulticastNd (clusterBaseAddrh : BitVec 32) (src : BitVec 64) (dst : Nat → BitVec 64)
    (dstNum : BitVec 32) (args : NdArgs) : Driver Int :=
  snaxXdmaMulticastNdFullAddress param (src + clusterBase clusterBaseAddrh)
    (fun i => if i < dstNum.toNat then dst i + clusterBase clusterBaseAddrh else 0) dstNum args

/-- `custom_csr_list[i]`, which is an `uint8_t`. -/
def customCsrList (s : Side) (i : Nat) : Nat := (extCustomCsrNum param s).getD i 0 % 2 ^ 8

/-- `csr_offset` after its loop. -/
def csrOffset (s : Side) : Nat → Nat
  | 0 => extCsrPtr param s
  | i + 1 => csrOffset s i + customCsrList param s i

def snaxXdmaEnableExt (s : Side) (ext : BitVec 8) (csrValue : Nat → BitVec 32) : Driver Int :=
  if extNum param s ≤ ext.toNat then return -1
  else do
    let enabled ← snaxReadXdmaCfgReg (enablePtr param s)
    snaxWriteXdmaCfgReg (enablePtr param s) (enabled ||| (1 : BitVec 32) <<< ext.toNat)
    forRange (fun i => snaxWriteXdmaCfgReg (csrOffset param s ext.toNat + i) (csrValue i)) 0
      (customCsrList param s ext.toNat)
    return 0

def snaxXdmaDisableExt (s : Side) (ext : BitVec 8) : Driver Int :=
  if extNum param s ≤ ext.toNat then return 0
  else do
    let enabled ← snaxReadXdmaCfgReg (enablePtr param s)
    snaxWriteXdmaCfgReg (enablePtr param s) (enabled &&& ~~~((1 : BitVec 32) <<< ext.toNat))
    return 0

/-! ### Calls -/

inductive Call
  | memcpyNdFullAddr (src dst : BitVec 64) (args : NdArgs)
  | memcpyNd (src dst : BitVec 64) (args : NdArgs)
  | multicastNdFullAddress (src : BitVec 64) (dst : Nat → BitVec 64) (dstNum : BitVec 32)
    (args : NdArgs)
  | multicastNd (src : BitVec 64) (dst : Nat → BitVec 64) (dstNum : BitVec 32) (args : NdArgs)
  | enableExt (s : Side) (ext : BitVec 8) (csrValue : Nat → BitVec 32)
  | disableExt (s : Side) (ext : BitVec 8)

def Call.program (clusterBaseAddrh : BitVec 32) : Call → Driver Int
  | .memcpyNdFullAddr src dst args => snaxXdmaMemcpyNdFullAddr param src dst args
  | .memcpyNd src dst args => snaxXdmaMemcpyNd param clusterBaseAddrh src dst args
  | .multicastNdFullAddress src dst dstNum args =>
    snaxXdmaMulticastNdFullAddress param src dst dstNum args
  | .multicastNd src dst dstNum args =>
    snaxXdmaMulticastNd param clusterBaseAddrh src dst dstNum args
  | .enableExt s ext csrValue => snaxXdmaEnableExt param s ext csrValue
  | .disableExt s ext => snaxXdmaDisableExt param s ext

/-- One call after the other, whatever they return. -/
def run (clusterBaseAddrh : BitVec 32) : List Call → Bus (BitVec 32) → Bus (BitVec 32)
  | [], bus => bus
  | call :: calls, bus =>
    run clusterBaseAddrh calls ((call.program param clusterBaseAddrh).run bus).2

/-! ### What a copy leaves in the registers -/

/-- What a copy asks for: destinations beyond its last one are null, and dimensions beyond its
last one run once. -/
structure Copy where
  src : BitVec 64
  dst : Nat → BitVec 64
  spatialStride : Side → BitVec 32
  bound : Side → Nat → BitVec 32
  stride : Side → Nat → BitVec 32
  enabledChan : Side → BitVec 32
  enabledByteDst : BitVec 32

def NdArgs.copy (args : NdArgs) (src : BitVec 64) (dst : Nat → BitVec 64) : Copy where
  src := src
  dst := dst
  spatialStride := args.spatialStride
  bound s i := if i < (args.tempDim s).toNat then args.tempBound s i else 1
  stride s i := if i < (args.tempDim s).toNat then args.tempStride s i else 0
  enabledChan := args.enabledChan
  enabledByteDst := args.enabledByteDst

def pointers (copy : Copy) : Nat → Option (BitVec 32) :=
  atop (pairs dstAddrPtrLsb 0 (maxDstCount param) (fun i => lsb (copy.dst i)) (fun i => msb (copy.dst i)))
    (atop (point srcAddrPtrMsb (msb copy.src)) (point srcAddrPtrLsb (lsb copy.src)))

def temporal (copy : Copy) (s : Side) : Nat → Option (BitVec 32) :=
  atop (region (tempStridePtr param s) 0 (tempDim param s) (copy.stride s))
    (region (tempBoundPtr param s) 0 (tempDim param s) (copy.bound s))

def shape (copy : Copy) : Nat → Option (BitVec 32) :=
  atop (point (dstEnabledBytePtr param) copy.enabledByteDst)
    (atop (point (enabledChanPtr param .writer) (copy.enabledChan .writer))
      (atop (point (enabledChanPtr param .reader) (copy.enabledChan .reader))
        (atop (temporal param copy .writer)
          (atop (temporal param copy .reader)
            (atop (point (spatialStridePtr param .writer) (copy.spatialStride .writer))
              (point (spatialStridePtr param .reader) (copy.spatialStride .reader)))))))

section Copies

variable {param} (args : NdArgs) (regs : Nat → BitVec 32)

theorem tempStridePtr_eq (param : XDMACtrlParam) (s : Side) :
    tempStridePtr param s = tempBoundPtr param s + tempDim param s := by
  cases s <;> rfl

variable (fits : ∀ s, (args.tempDim s).toNat ≤ tempDim param s)
include fits

end Copies

/-! ### What an extension call leaves -/

section Extensions

variable {param} (regs : Nat → BitVec 32) {s : Side} {ext : BitVec 8}

end Extensions

end Snax.XdmaDriver
