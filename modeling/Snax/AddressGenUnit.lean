import Snax.Params
import Snax.Queue
import Snax.Sync.Machine
import Snax.Sync.MixedRadix

/-! `readerWriter/AddressGenUnit.scala`: a chain of programmable counters, one per
temporal loop, the spatial offset table, the address remappings and the two-state FSM
that pushes one vector of addresses per accepted cycle. -/
namespace Snax

structure AddressGenUnitCfgIO (param : AddressGenUnitParam) where
  ptr : BitVec param.addressWidth
  spatialStrides : Vector (BitVec param.addressWidth) param.spatialBounds.length
  temporalBounds : Vector (BitVec param.addressWidth) param.temporalDimension
  temporalStrides : Vector (BitVec param.addressWidth) param.temporalDimension
  addressRemapIndex : BitVec (log2Ceil param.tcdmLogicWordSize.length)

inductive Phase where
  | sIDLE
  | sBUSY
  deriving DecidableEq, Repr

namespace AddressGenUnit

/-- `x(lo + width - 1, lo)` and `Cat(hi, lo)` on the values of wires. -/
def field (x lo width : Nat) : Nat := x / 2 ^ lo % 2 ^ width
def cat (hi lo loWidth : Nat) : Nat := hi * 2 ^ loWidth + lo

def affineAddressMapping (physWordSize logicalWordSize : Nat) (address : BitVec w) : BitVec w :=
  if logicalWordSize = physWordSize then address
  else
    let low := log2Ceil logicalWordSize
    let shift := log2Ceil physWordSize - log2Ceil logicalWordSize
    let a := address.toNat
    BitVec.ofNat w (cat (cat (field a low (w - shift - low)) (field a (w - shift) shift) shift)
      (field a 0 low) low)

def xorBankSwizzleMapping (address : BitVec w) : BitVec w :=
  let a := address.toNat
  BitVec.ofNat w (cat (cat (field a 8 (w - 8)) (field a 5 3 ^^^ field a 8 3) 3) (field a 0 5) 5)

def halfXorBankSwizzleMapping (address : BitVec w) : BitVec w :=
  let a := address.toNat
  BitVec.ofNat w (cat (cat (field a 7 (w - 7)) (field a 5 2 ^^^ field a 8 2) 2) (field a 0 5) 5)

/-- The key folds bits `w - 1 .. 8` in groups of three, the last one possibly shorter. -/
def deepKey (w a : Nat) : Nat :=
  ((List.range ((w - 8 + 2) / 3)).map fun g =>
    field a (8 + 3 * g) (min (8 + 3 * g + 2) (w - 1) + 1 - (8 + 3 * g))).foldl (· ^^^ ·) 0

def deepXorBankSwizzleMapping (address : BitVec w) : BitVec w :=
  let a := address.toNat
  BitVec.ofNat w (cat (cat (field a 8 (w - 8)) (field a 5 3 ^^^ deepKey w a) 3) (field a 0 5) 5)

def mapping (physWordSize : Nat) (logicalWordSize : Int) (address : BitVec w) : BitVec w :=
  if logicalWordSize = 0 then xorBankSwizzleMapping address
  else if logicalWordSize = -1 then halfXorBankSwizzleMapping address
  else if logicalWordSize = -2 then deepXorBankSwizzleMapping address
  else affineAddressMapping physWordSize logicalWordSize.toNat address

/-- `MuxLookup(addressRemapIndex, remappedAddress.head)` over the configured word sizes. -/
def remap (param : AddressGenUnitParam) (index : BitVec (log2Ceil param.tcdmLogicWordSize.length))
    (address : BitVec param.addressWidth) : BitVec param.addressWidth :=
  mapping param.tcdmPhysWordSize
    (param.tcdmLogicWordSize.getD index.toNat (param.tcdmLogicWordSize.head param.remapNonempty))
    address

/-- The chained counters: each ticks with the `lastVal` of the one before it. -/
def chainNext (start countersTick : Bool) : Bool → List (ProgrammableCounter w) →
    List (BitVec w) → List (BitVec w) → List (ProgrammableCounter w)
  | tick, c :: cs, bound :: bounds, stride :: strides =>
    c.next start tick bound (stride.setWidth (w - 1)) ::
      chainNext start countersTick (c.lastVal tick bound && countersTick) cs bounds strides
  | _, _, _, _ => []

/-- `counters.map(_.io.lastVal).reduce(_ & _)`. -/
def chainLast (countersTick : Bool) : Bool → List (ProgrammableCounter w) → List (BitVec w) → Bool
  | tick, c :: cs, bound :: bounds =>
    c.lastVal tick bound && chainLast countersTick (c.lastVal tick bound && countersTick) cs bounds
  | _, _, _ => true

theorem chainNext_length (start countersTick tick : Bool) (cs : List (ProgrammableCounter w))
    (bounds strides : List (BitVec w)) (sameBounds : bounds.length = cs.length)
    (sameStrides : strides.length = cs.length) :
    (chainNext start countersTick tick cs bounds strides).length = cs.length := by
  induction cs generalizing tick bounds strides with
  | nil => simp [chainNext]
  | cons c cs ih =>
    cases bounds with
    | nil => simp at sameBounds
    | cons bound bounds =>
      cases strides with
      | nil => simp at sameStrides
      | cons stride strides =>
        simp only [chainNext,List.length_cons]
        rw [ih _ _ _ (by simpa using sameBounds) (by simpa using sameStrides)]

/-- The spatial offset of a channel, accumulated onto `offset`. The wires widen with each
table entry; only the low bits reach the address, so the sum is kept in address width. -/
def spatialOffset : Nat → BitVec w → List Nat → List (BitVec w) → BitVec w
  | remainder, offset, b :: bs, stride :: strides =>
    spatialOffset (remainder / b) (offset + stride * BitVec.ofNat w (remainder % b)) bs strides
  | _, offset, _, _ => offset

variable (param : AddressGenUnitParam)

abbrev Address := BitVec param.addressWidth
abbrev AddressVector := Fin param.numChannel → Address param

structure State where
  counters : Vector (ProgrammableCounter param.addressWidth) param.temporalDimension
  currentState : Phase
  outputBuffer : ComplexQueueConcat.Lanes (Address param) param.outputBufferDepth param.numChannel

structure Input where
  cfg : AddressGenUnitCfgIO param
  start : Bool
  addrReady : Fin param.numChannel → Bool

structure Output where
  busy : Bool
  bufferEmpty : Bool
  addr : Fin param.numChannel → Option (Address param)
  /-- `outputBuffer.io.in.head.ready`. -/
  bufferReady : Bool
  /-- `currentAddress` in the cycles it is pushed, before and after the remapping. -/
  address : Option (AddressVector param)
  pushed : Option (AddressVector param)

variable {param}

def resetCounters : Vector (ProgrammableCounter param.addressWidth) param.temporalDimension :=
  Vector.replicate _ (ProgrammableCounter.reset _)

def initial (param : AddressGenUnitParam) : State param where
  counters := resetCounters
  currentState := .sIDLE
  outputBuffer := fun _ => Queue.empty param.depthPositive

def cfgValid (cfg : AddressGenUnitCfgIO param) : Bool :=
  cfg.temporalBounds.toList.all (· != 0)

def bufferReady (s : State param) (i : Input param) : Bool :=
  ComplexQueueConcat.allReady true s.outputBuffer i.addrReady

def fire (s : State param) (i : Input param) : Bool :=
  s.currentState == .sBUSY && bufferReady s i

def countersTick (s : State param) (i : Input param) : Bool :=
  s.currentState == .sBUSY && fire s i

def temporalOffset (s : State param) : Address param :=
  (s.counters.toList.map ProgrammableCounter.value).sum

def currentAddress (s : State param) (cfg : AddressGenUnitCfgIO param) : AddressVector param :=
  fun c => cfg.ptr +
    spatialOffset c.val (temporalOffset s) param.spatialBounds cfg.spatialStrides.toList

def remappedAddress (s : State param) (cfg : AddressGenUnitCfgIO param) : AddressVector param :=
  fun c => remap param cfg.addressRemapIndex (currentAddress s cfg c)

def lastVals (s : State param) (i : Input param) : Bool :=
  chainLast (countersTick s i) (countersTick s i) s.counters.toList i.cfg.temporalBounds.toList

def next (s : State param) (i : Input param) : State param where
  counters :=
    ⟨(chainNext i.start (countersTick s i) (countersTick s i) s.counters.toList
        i.cfg.temporalBounds.toList i.cfg.temporalStrides.toList).toArray,
      by rw [List.size_toArray,chainNext_length] <;> simp⟩
  currentState :=
    if i.start && cfgValid i.cfg then .sBUSY
    else if lastVals s i && fire s i then .sIDLE
    else s.currentState
  outputBuffer :=
    ComplexQueueConcat.scatter true s.outputBuffer
      (if s.currentState == .sBUSY then some (remappedAddress s i.cfg) else none) i.addrReady

def out (s : State param) (i : Input param) : Output param where
  busy := s.currentState == .sBUSY
  bufferEmpty := ComplexQueueConcat.allEmpty s.outputBuffer
  addr := fun c => (s.outputBuffer c).deqBits
  bufferReady := bufferReady s i
  address := if fire s i then some (currentAddress s i.cfg) else none
  pushed := if fire s i then some (remappedAddress s i.cfg) else none

end AddressGenUnit

def addressGenUnit (param : AddressGenUnitParam) :
    Sync.Machine (AddressGenUnit.State param) (AddressGenUnit.Input param)
      (AddressGenUnit.Output param) where
  next := AddressGenUnit.next
  out := AddressGenUnit.out

end Snax
