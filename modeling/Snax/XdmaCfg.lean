import Snax.Counter
import Snax.Sync.BitList
import Snax.Sync.Framing

/-! The configuration that one cluster sends to another, `xdma/xdmaIO/XDMACfgIO.scala`:
its fields, the frames the serializer cuts it into and the fields the deserializer slices
back out. -/
namespace Snax

structure XDMAAXIParam where
  dataWidth : Nat
  deriving DecidableEq

structure XDMACrossClusterParam where
  maxTemporalDimension : Nat
  tcdmSize : Nat
  axiAddressWidth : Nat
  axiDataWidth : Nat
  wordlineWidth : Nat
  deriving DecidableEq

namespace XDMACrossClusterParam

variable (param : XDMACrossClusterParam)

def tcdmAddressWidth : Nat := log2Ceil param.tcdmSize + 10 - log2Ceil (param.wordlineWidth / 8)

def channelNum : Nat := param.axiDataWidth / param.wordlineWidth

end XDMACrossClusterParam

structure XDMAParam where
  axiParam : XDMAAXIParam
  crossClusterParam : XDMACrossClusterParam
  deriving DecidableEq

/-- Without the fields that are only wired through inside one cluster. -/
structure XDMAInterClusterCfgIO (param : XDMAParam) where
  taskID : BitVec 4
  isWriterSide : Bool
  readerPtr : BitVec param.crossClusterParam.axiAddressWidth
  writerPtr : Vector (BitVec param.crossClusterParam.axiAddressWidth) 2
  axiTransferBeatSize : BitVec param.crossClusterParam.tcdmAddressWidth
  spatialStride : BitVec param.crossClusterParam.tcdmAddressWidth
  temporalBounds : Vector (BitVec param.crossClusterParam.tcdmAddressWidth)
    param.crossClusterParam.maxTemporalDimension
  temporalStrides : Vector (BitVec param.crossClusterParam.tcdmAddressWidth)
    param.crossClusterParam.maxTemporalDimension
  enabledChannel : BitVec param.crossClusterParam.channelNum
  enabledByte : BitVec (param.crossClusterParam.wordlineWidth / 8)
  deriving DecidableEq

namespace XDMACfg

open BitList

abbrev Cfg := XDMAInterClusterCfgIO

/-- One word of the link: `isWriterSide` in bit 0, the 4-bit frame head, then the body. -/
abbrev Frame (param : XDMAParam) := BitVec param.axiParam.dataWidth

def frameBodyLength (param : XDMAParam) : Nat := param.axiParam.dataWidth - 5

abbrev Body (param : XDMAParam) := BitVec (frameBodyLength param)

variable {param : XDMAParam}

/-- The whole configuration but the side flag, which travels in the frame heads. -/
def cfgSerialized (cfg : Cfg param) : List Bool :=
  bits cfg.taskID ++ (bits cfg.readerPtr ++ (bits (cfg.writerPtr.get ⟨0,Nat.two_pos⟩) ++
    (bits (cfg.writerPtr.get ⟨1,Nat.one_lt_two⟩) ++ (bits cfg.axiTransferBeatSize ++
      (bits cfg.spatialStride ++ (bitsVec cfg.temporalBounds ++ (bitsVec cfg.temporalStrides ++
        (bits cfg.enabledChannel ++ bits cfg.enabledByte))))))))

/-- `cfgSerialized.getWidth`. -/
def serializedWidth (param : XDMAParam) : Nat :=
  let p := param.crossClusterParam
  4 + 3 * p.axiAddressWidth + 2 * p.tcdmAddressWidth +
    2 * (p.maxTemporalDimension * p.tcdmAddressWidth) + p.channelNum + p.wordlineWidth / 8

namespace Serializer

def frameNum (param : XDMAParam) : Nat :=
  (serializedWidth param + frameBodyLength param - 1) / frameBodyLength param

/-- `Cat(body, frameHead)` with `frameHead = Cat(count, isWriterSide)`. -/
def frame (body : Body param) (count : Nat) (isWriterSide : Bool) : Frame param :=
  (body ++ (BitVec.ofNat 4 count ++ BitVec.ofBool isWriterSide)).setWidth param.axiParam.dataWidth

/-- Zeros above the last field, so that the frames come out whole. -/
def padded (cfg : Cfg param) : List Bool :=
  cfgSerialized cfg ++
    List.replicate (frameBodyLength param * frameNum param - serializedWidth param) false

/-- The first head carries the number of frames, the others their index. -/
def frames (cfg : Cfg param) : Vector (Frame param) (frameNum param) :=
  Vector.ofFn fun i => frame (chunk (frameBodyLength param) (padded cfg) i.val)
    (if i.val = 0 then frameNum param else i.val) cfg.isWriterSide

end Serializer

namespace Deserializer

/-- The receiver counts the side flag among the bits of the body. -/
def frameNum (param : XDMAParam) : Nat :=
  (serializedWidth param + 1 + frameBodyLength param - 1) / frameBodyLength param

def isWriterSide (frame : Frame param) : Bool := frame.getLsbD 0

/-- Bits 4 to 1: in the head of a first frame, the number of frames that it announces. -/
def announced (frame : Frame param) : BitVec 4 := frame.extractLsb' 1 4

def frameCount (frame : Frame param) : Nat := (announced frame).toNat

def body (frame : Frame param) : Body param := frame.extractLsb' 5 (frameBodyLength param)

/-- The fields of `io.cfgOut`, sliced off one after the other. -/
def cfgOut (isWriterSide : Bool) : StateM (List Bool) (Cfg param) := do
  let p := param.crossClusterParam
  let taskID ← slice 4
  let readerPtr ← slice p.axiAddressWidth
  let writerPtr ← sliceVec p.axiAddressWidth 2
  let axiTransferBeatSize ← slice p.tcdmAddressWidth
  let spatialStride ← slice p.tcdmAddressWidth
  let temporalBounds ← sliceVec p.tcdmAddressWidth p.maxTemporalDimension
  let temporalStrides ← sliceVec p.tcdmAddressWidth p.maxTemporalDimension
  let enabledChannel ← slice p.channelNum
  let enabledByte ← slice (p.wordlineWidth / 8)
  return { taskID, isWriterSide, readerPtr, writerPtr, axiTransferBeatSize, spatialStride,
           temporalBounds, temporalStrides, enabledChannel, enabledByte }

/-- The configuration held in the frame registers: `frameBody.reverse.reduce(_ ## _)`. -/
def held (isWriterSide : Bool) (frameBody : Vector (Body param) (frameNum param)) : Cfg param :=
  (cfgOut isWriterSide (bitsVec frameBody)).1

/-- The bodies of a message as the receiver keeps them: frames beyond its capacity are
ignored, missing frames read as zero. -/
def bodies (message : List (Frame param)) : Vector (Body param) (frameNum param) :=
  Vector.ofFn fun k => (message.map body).getD k.val 0

/-- The configuration that a message stands for; its first frame tells the side. -/
def decode (message : List (Frame param)) : Cfg param :=
  held ((message.head?.map isWriterSide).getD false) (bodies message)

end Deserializer

theorem cfgSerialized_length (cfg : Cfg param) : (cfgSerialized cfg).length = serializedWidth param := by
  simp [cfgSerialized,serializedWidth]
  omega

/-- The deserializer slices in the order the serializer concatenates, whatever follows. -/
theorem cfgOut_cfgSerialized (cfg : Cfg param) (rest : List Bool) :
    (Deserializer.cfgOut cfg.isWriterSide (cfgSerialized cfg ++ rest)).1 = cfg := by
  have layout : cfgSerialized cfg ++ rest = bits cfg.taskID ++ (bits cfg.readerPtr ++
      (bitsVec cfg.writerPtr ++ (bits cfg.axiTransferBeatSize ++ (bits cfg.spatialStride ++
        (bitsVec cfg.temporalBounds ++ (bitsVec cfg.temporalStrides ++ (bits cfg.enabledChannel ++
          (bits cfg.enabledByte ++ rest)))))))) := by
    simp only [cfgSerialized,bitsVec_pair,List.append_assoc]
  rw [layout]
  simp only [Deserializer.cfgOut,bind_slice,bind_sliceVec]
  rfl

theorem frameNum_le (param : XDMAParam) : Serializer.frameNum param ≤ Deserializer.frameNum param :=
  Nat.div_le_div_right (by omega)

theorem getLsbD_frame (b : Body param) (count : Nat) (side : Bool) {k : Nat}
    (inside : k < param.axiParam.dataWidth) : (Serializer.frame b count side).getLsbD k =
      if k = 0 then side else if k < 5 then (BitVec.ofNat 4 count).getLsbD (k - 1)
      else b.getLsbD (k - 5) := by
  rw [Serializer.frame,BitVec.getLsbD_setWidth,BitVec.getLsbD_append,BitVec.getLsbD_append]
  rcases Nat.eq_zero_or_pos k with rfl | positive
  · simp [inside]
  · by_cases low : k < 5
    · simp only [inside,low,positive.ne',↓reduceIte,decide_true,Bool.true_and,
        show ¬ k < 1 by omega]
    · simp only [inside,low,positive.ne',↓reduceIte,decide_true,Bool.true_and]

section Frames

variable (fits : 1 ≤ Serializer.frameNum param ∧ Serializer.frameNum param ≤ 15)
include fits

theorem body_positive : 0 < frameBodyLength param := by
  rcases Nat.eq_zero_or_pos (frameBodyLength param) with zero | positive
  · have := fits.1
    rw [Serializer.frameNum,zero,Nat.div_zero] at this
    omega
  · exact positive

theorem dataWidth_eq : frameBodyLength param + 5 = param.axiParam.dataWidth := by
  have := body_positive fits
  unfold frameBodyLength at this ⊢
  omega

/-- The frames have room for every bit of the configuration. -/
theorem capacity : serializedWidth param ≤ Serializer.frameNum param * frameBodyLength param := by
  have positive := body_positive fits
  have := Nat.lt_div_mul_add positive (a := serializedWidth param + frameBodyLength param - 1)
  unfold Serializer.frameNum
  omega

theorem isWriterSide_frame (b : Body param) (count : Nat) (side : Bool) :
    Deserializer.isWriterSide (Serializer.frame b count side) = side := by
  have width := dataWidth_eq fits
  rw [Deserializer.isWriterSide,getLsbD_frame _ _ _ (by omega),if_pos rfl]

theorem announced_frame (b : Body param) (count : Nat) (side : Bool) (small : count ≤ 15) :
    (Deserializer.announced (Serializer.frame b count side)).toNat = count := by
  have width := dataWidth_eq fits
  have same : Deserializer.announced (Serializer.frame b count side) = BitVec.ofNat 4 count := by
    apply BitVec.eq_of_getLsbD_eq
    intro k inside
    rw [Deserializer.announced,BitVec.getLsbD_extractLsb',getLsbD_frame _ _ _ (by omega),
      if_neg (by omega),if_pos (by omega),Nat.add_sub_cancel_left]
    simp [inside]
  rw [same,BitVec.toNat_ofNat,Nat.mod_eq_of_lt (by omega)]

theorem body_frame (b : Body param) (count : Nat) (side : Bool) :
    Deserializer.body (Serializer.frame b count side) = b := by
  have width := dataWidth_eq fits
  apply BitVec.eq_of_getLsbD_eq
  intro k inside
  rw [Deserializer.body,BitVec.getLsbD_extractLsb',getLsbD_frame _ _ _ (by omega),
    if_neg (by omega),if_neg (by omega),Nat.add_sub_cancel_left]
  simp [inside]

/-- The frames of a configuration are a message: the first one announces them all. -/
theorem frames_whole (cfg : Cfg param) :
    Framing.Whole Deserializer.frameCount (Serializer.frames cfg).toList := by
  obtain ⟨n,count⟩ : ∃ n, Serializer.frameNum param = n + 1 := ⟨_,(Nat.sub_add_cancel fits.1).symm⟩
  have size : (Serializer.frames cfg).toList.length = n + 1 := by simp [count]
  obtain ⟨first,rest,split⟩ := List.exists_cons_of_length_eq_add_one size
  have head : first = (Serializer.frames cfg).toList[0] := by simp [split]
  refine ⟨first,rest,split,?_⟩
  rw [head]
  simp [Serializer.frames,Deserializer.frameCount,announced_frame fits _ _ _ fits.2]

theorem body_frames (cfg : Cfg param) (k : Nat) :
    ((Serializer.frames cfg).toList.map Deserializer.body).getD k 0 =
      chunk (frameBodyLength param) (cfgSerialized cfg) k := by
  rw [List.getD_eq_getElem?_getD]
  by_cases inside : k < Serializer.frameNum param
  · simp [Serializer.frames,inside,body_frame fits,Serializer.padded,chunk_append_zeros]
  · have room := capacity fits
    have far := Nat.mul_le_mul_right (frameBodyLength param) (Nat.le_of_not_lt inside)
    rw [chunk_beyond _ _ (by rw [cfgSerialized_length]; omega),List.getElem?_eq_none (by simpa using inside)]
    rfl

/-- The frame registers hold the serialized configuration, with zeros above it. -/
theorem bodies_frames (cfg : Cfg param) :
    bitsVec (Deserializer.bodies (Serializer.frames cfg).toList) = cfgSerialized cfg ++
      List.replicate (Deserializer.frameNum param * frameBodyLength param - serializedWidth param) false := by
  have room := (capacity fits).trans (Nat.mul_le_mul_right _ (frameNum_le param))
  have chunks : Deserializer.bodies (Serializer.frames cfg).toList = Vector.ofFn fun k =>
      chunk (frameBodyLength param) (cfgSerialized cfg) k.val := by
    simp only [Deserializer.bodies,body_frames fits]
  rw [chunks,bitsVec_ofFn fun k => chunk (frameBodyLength param) (cfgSerialized cfg) k]
  conv_rhs => rw [← chunks_flatten (w := frameBodyLength param) (Deserializer.frameNum param)
    (_ ++ _) (by simp [cfgSerialized_length]; omega)]
  simp only [chunk_append_zeros]

/-- Decoding the frames of a configuration gives it back, field by field. -/
theorem decode_frames (cfg : Cfg param) : Deserializer.decode (Serializer.frames cfg).toList = cfg := by
  have side : ((Serializer.frames cfg).toList.head?.map Deserializer.isWriterSide).getD false =
      cfg.isWriterSide := by
    have count : 0 < Serializer.frameNum param := fits.1
    rw [List.head?_eq_getElem?]
    simp [Serializer.frames,isWriterSide_frame fits,count]
  rw [Deserializer.decode,side,Deserializer.held,bodies_frames fits,cfgOut_cfgSerialized]

end Frames

end XDMACfg
end Snax
