import Snax.Counter

/-! Design parameters of the data movers. The proof fields are what the generators
`require` or what their `reduce`, `head` and modulo need in order to elaborate. -/
namespace Snax

theorem two_channels_positive : ∀ b ∈ [2], 0 < b := by decide
theorem two_channels_fit : [2].prod ≤ 2 := by decide
theorem one_mapping : ([256] : List Int) ≠ [] := by decide

structure AddressGenUnitParam where
  spatialBounds : List Nat
  temporalDimension : Nat
  addressWidth : Nat
  numChannel : Nat
  outputBufferDepth : Nat
  tcdmPhysWordSize : Nat
  tcdmLogicWordSize : List Int
  spatialPositive : ∀ b ∈ spatialBounds, 0 < b
  spatialFits : spatialBounds.prod ≤ numChannel
  temporalPositive : 0 < temporalDimension
  widthPositive : 0 < addressWidth
  depthPositive : 0 < outputBufferDepth
  remapNonempty : tcdmLogicWordSize ≠ []

structure ReaderWriterParam where
  spatialBounds : List Nat
  temporalDimension : Nat
  tcdmDataWidth : Nat
  tcdmSize : Nat
  tcdmPhysWordSize : Nat
  tcdmLogicWordSize : List Int
  numChannel : Nat
  addressBufferDepth : Nat
  dataBufferDepth : Nat
  configurableChannel : Bool
  configurableByteMask : Bool
  crossClockDomain : Bool
  delayedStart : Bool
  spatialPositive : ∀ b ∈ spatialBounds, 0 < b
  spatialFits : spatialBounds.prod ≤ numChannel
  temporalPositive : 0 < temporalDimension
  addressDepthPositive : 0 < addressBufferDepth
  dataDepthPositive : 0 < dataBufferDepth
  remapNonempty : tcdmLogicWordSize ≠ []
  deriving DecidableEq

namespace ReaderWriterParam

variable (param : ReaderWriterParam)

@[reducible] def aguParam : AddressGenUnitParam where
  spatialBounds := param.spatialBounds
  temporalDimension := param.temporalDimension
  addressWidth := log2Ceil param.tcdmSize + 10
  numChannel := param.numChannel
  outputBufferDepth := param.addressBufferDepth
  tcdmPhysWordSize := param.tcdmPhysWordSize
  tcdmLogicWordSize := param.tcdmLogicWordSize
  spatialPositive := param.spatialPositive
  spatialFits := param.spatialFits
  temporalPositive := param.temporalPositive
  widthPositive := by omega
  depthPositive := param.addressDepthPositive
  remapNonempty := param.remapNonempty

def bufferDepth : Nat := param.dataBufferDepth

def enabledChannelCSRNum : Nat :=
  if param.configurableChannel then (param.numChannel + 31) / 32 else 0

/-- The delayed start register is not included: the Streamer owns it. -/
def csrNum : Nat :=
  2 + param.spatialBounds.length + 2 * param.temporalDimension + param.enabledChannelCSRNum +
    (if param.configurableByteMask then 1 else 0) +
    (if param.tcdmLogicWordSize.length > 1 then 1 else 0)

end ReaderWriterParam

/-- What the host needs of an extension to wire its registers. -/
structure DataPathExtensionParam where
  userCsrNum : Nat
  deriving DecidableEq

structure StreamerParam where
  readerParams : List ReaderWriterParam
  writerParams : List ReaderWriterParam
  readerWriterParams : List ReaderWriterParam
  readerDatapathExtension : List (List DataPathExtensionParam)
  writerDatapathExtension : List (List DataPathExtensionParam)
  readerwriterDatapathExtension : List (List DataPathExtensionParam)
  csrAddrWidth : Nat
  /-- `readerParams(0)` gives the TCDM widths. -/
  hasReader : readerParams ≠ []
  /-- The spatial unrolling factors must match the channel number. -/
  unrolled : ∀ p ∈ readerParams ++ writerParams ++ readerWriterParams,
    p.spatialBounds ≠ [] ∧ p.spatialBounds.prod = p.numChannel
  /-- Every entry of `readerWriterParams` has its side of a `ReaderWriter`. -/
  paired : readerWriterParams.length % 2 = 0
  readerExtensions : readerParams.length = readerDatapathExtension.length
  writerExtensions : writerParams.length = writerDatapathExtension.length
  readerWriterExtensions : readerWriterParams.length = readerwriterDatapathExtension.length

namespace StreamerParam

variable (param : StreamerParam)

def readerNum : Nat := param.readerParams.length
def writerNum : Nat := param.writerParams.length
def readerWriterNum : Nat := param.readerWriterParams.length

def delayedStartCount : Nat :=
  param.readerParams.countP (·.delayedStart) + param.writerParams.countP (·.delayedStart) +
    param.readerWriterParams.countP (·.delayedStart)

end StreamerParam
end Snax
