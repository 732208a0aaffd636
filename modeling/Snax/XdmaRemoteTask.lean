import Snax.XdmaCfgIO

/-! A task carried out by another cluster. The link holds a bound in as many bits as a
word address of the TCDM has, fewer than the bound registers, and a mask in as many as
its own channels and bytes; a task that fits there arrives as it was submitted. -/
namespace Snax.XDMA

open Sync

variable {param : XDMACtrlParam} {s : Side}

/-- The task that the other cluster starts from. -/
def remoteTask (cfg : XDMACfgIO param s) : XDMACfgIO param s :=
  XDMAInterClusterCfgIO.convertToXDMACfgIO s ( XDMAInterClusterCfgIO.convertFromXDMACfgIO cfg)

/-- All that determines what the mover of this side does. -/
structure SameTask (cfg remote : XDMACfgIO param s) : Prop where
  ptr : remote.aguCfg.ptr = cfg.aguCfg.ptr
  spatialStride : remote.spatialStride = cfg.spatialStride
  temporalBounds : remote.aguCfg.temporalBounds = cfg.aguCfg.temporalBounds
  temporalStrides : remote.aguCfg.temporalStrides = cfg.aguCfg.temporalStrides
  readerwriterCfg : remote.readerwriterCfg = cfg.readerwriterCfg
  readerPtr : remote.readerPtr = cfg.readerPtr
  firstDest : remote.dest 0 = cfg.dest 0
  secondDest : remote.dest 1 = cfg.dest 1
  taskID : remote.taskID = cfg.taskID
  axiTransferBeatSize : remote.axiTransferBeatSize = cfg.axiTransferBeatSize

/-- A task that may be sent: pointers of the configured width, the truncated one in the
AGU part, and strides that are whole words. -/
structure Sendable (cfg : XDMACfgIO param s) : Prop where
  ptr : cfg.aguCfg.ptr = cfg.sidePtr.setWidth _
  readerPtr : cfg.readerPtr.toNat < 2 ^ param.crossClusterParam.axiAddressWidth
  firstDest : (cfg.dest 0).toNat < 2 ^ param.crossClusterParam.axiAddressWidth
  secondDest : (cfg.dest 1).toNat < 2 ^ param.crossClusterParam.axiAddressWidth
  spatialStride : 2 ^ param.wordBits ∣ cfg.spatialStride.toNat
  temporalStrides : ∀ d, 2 ^ param.wordBits ∣ (cfg.aguCfg.temporalStrides.get d).toNat

/-- Bounds and masks within the fields of the link. -/
structure FitsLink (cfg : XDMACfgIO param s) : Prop where
  temporalBounds : ∀ d, (cfg.aguCfg.temporalBounds.get d).toNat < 2 ^ param.beatWidth
  enabledChannel : cfg.readerwriterCfg.enabledChannel.toNat < 2 ^ param.crossClusterParam.channelNum
  enabledByte : cfg.readerwriterCfg.enabledByte.toNat < 2 ^ (param.crossClusterParam.wordlineWidth / 8)

theorem map_eq_self_iff {n : Nat} {f : α → α} {xs : Vector α n} :
    xs.map f = xs ↔ ∀ d : Fin n, f (xs.get d) = xs.get d := by
  constructor
  · intro same d
    have entry := congrArg (Vector.get · d) same
    rwa [show (xs.map f).get d = f (xs.get d) from Vector.getElem_map f d.isLt] at entry
  · intro each
    ext i inside
    rw [Vector.getElem_map]
    exact each ⟨i,inside⟩

theorem dest_remoteTask (cfg : XDMACfgIO param s) {i : Nat} (early : i < 2) :
    (remoteTask cfg).dest i =
      ((cfg.dest i).setWidth param.crossClusterParam.axiAddressWidth).setWidth _ := by
  by_cases inside : i < param.maxMulticastDest
  · have index : i = 0 ∨ i = 1 := by omega
    rcases index with rfl | rfl <;>
      simp [remoteTask, XDMACfgIO.dest, XDMAInterClusterCfgIO.convertToXDMACfgIO,
        XDMAInterClusterCfgIO.convertFromXDMACfgIO,inside]
  · simp [remoteTask, XDMACfgIO.dest, XDMAInterClusterCfgIO.convertToXDMACfgIO,inside]

theorem wordBits_le (param : XDMACtrlParam) (s : Side) : param.wordBits ≤ param.addressWidth s :=
  Nat.le_of_lt param.wordFits

theorem stride_iff (x : BitVec (param.addressWidth s)) :
    (x.extractLsb' param.wordBits param.beatWidth ++ BitVec.ofNat param.wordBits 0).setWidth _ = x ↔
      2 ^ param.wordBits ∣ x.toNat :=
  Narrowing.append_zeros_iff (wordBits_le param s) x

theorem ptr_remoteTask (cfg : XDMACfgIO param s) :
    (remoteTask cfg).aguCfg.ptr =
      (cfg.sidePtr.setWidth param.crossClusterParam.axiAddressWidth).setWidth _ := by
  cases s <;> rfl

theorem sidePtr_fits {cfg : XDMACfgIO param s}
    (readerPtr : cfg.readerPtr.toNat < 2 ^ param.crossClusterParam.axiAddressWidth)
    (firstDest : (cfg.dest 0).toNat < 2 ^ param.crossClusterParam.axiAddressWidth) :
    cfg.sidePtr.toNat < 2 ^ param.crossClusterParam.axiAddressWidth := by
  cases s
  · exact readerPtr
  · exact firstDest

theorem spatialStride_remoteTask (cfg : XDMACfgIO param s) : (remoteTask cfg).spatialStride =
    (cfg.spatialStride.extractLsb' param.wordBits param.beatWidth ++ BitVec.ofNat param.wordBits 0).setWidth _ :=
  Vector.getElem_replicate Nat.one_pos

theorem temporalBounds_remoteTask (cfg : XDMACfgIO param s) : (remoteTask cfg).aguCfg.temporalBounds =
    cfg.aguCfg.temporalBounds.map fun x => (x.setWidth param.beatWidth).setWidth _ := by
  simp [remoteTask, XDMAInterClusterCfgIO.convertToXDMACfgIO,
    XDMAInterClusterCfgIO.convertFromXDMACfgIO]

theorem temporalStrides_remoteTask (cfg : XDMACfgIO param s) :
    (remoteTask cfg).aguCfg.temporalStrides = cfg.aguCfg.temporalStrides.map fun x =>
      (x.extractLsb' param.wordBits param.beatWidth ++ BitVec.ofNat param.wordBits 0).setWidth _ := by
  simp [remoteTask, XDMAInterClusterCfgIO.convertToXDMACfgIO,
    XDMAInterClusterCfgIO.convertFromXDMACfgIO]

/-- A task arrives as it was submitted exactly when it is sendable and fits the link. -/
theorem sameTask_iff (cfg : XDMACfgIO param s) :
    SameTask cfg (remoteTask cfg) ↔ Sendable cfg ∧ FitsLink cfg := by
  constructor
  · intro same
    have readerPtr := (Narrowing.setWidth_setWidth_iff _ _).mp same.readerPtr
    have firstDest := same.firstDest
    rw [dest_remoteTask cfg (by omega),Narrowing.setWidth_setWidth_iff] at firstDest
    have secondDest := same.secondDest
    rw [dest_remoteTask cfg (by omega),Narrowing.setWidth_setWidth_iff] at secondDest
    refine ⟨⟨?_,readerPtr,firstDest,secondDest,?_,?_⟩,?_,?_,?_⟩
    · rw [← same.ptr,ptr_remoteTask,
        Narrowing.setWidth_setWidth_of_lt (sidePtr_fits readerPtr firstDest)]
    · rw [← stride_iff,← spatialStride_remoteTask]
      exact same.spatialStride
    · have strides := same.temporalStrides
      rw [temporalStrides_remoteTask,map_eq_self_iff] at strides
      exact fun d => (stride_iff _).mp (strides d)
    · have bounds := same.temporalBounds
      rw [temporalBounds_remoteTask,map_eq_self_iff] at bounds
      exact fun d => (Narrowing.setWidth_setWidth_iff _ _).mp (bounds d)
    · exact (Narrowing.setWidth_setWidth_iff _ _).mp
        (congrArg ReaderWriterCfgIO.enabledChannel same.readerwriterCfg)
    · exact (Narrowing.setWidth_setWidth_iff _ _).mp
        (congrArg ReaderWriterCfgIO.enabledByte same.readerwriterCfg)
  · rintro ⟨send,fits⟩
    refine ⟨?_,?_,?_,?_,?_,?_,?_,?_,rfl,rfl⟩
    · rw [ptr_remoteTask,send.ptr,
        Narrowing.setWidth_setWidth_of_lt (sidePtr_fits send.readerPtr send.firstDest)]
    · rw [spatialStride_remoteTask]
      exact (stride_iff _).mpr send.spatialStride
    · rw [temporalBounds_remoteTask,map_eq_self_iff]
      exact fun d => (Narrowing.setWidth_setWidth_iff _ _).mpr (fits.temporalBounds d)
    · rw [temporalStrides_remoteTask,map_eq_self_iff]
      exact fun d => (stride_iff _).mpr (send.temporalStrides d)
    · change (⟨_,_⟩ : ReaderWriterCfgIO _) = ⟨_,_⟩
      congr 1
      · exact (Narrowing.setWidth_setWidth_iff _ _).mpr fits.enabledByte
      · exact (Narrowing.setWidth_setWidth_iff _ _).mpr fits.enabledChannel
    · exact (Narrowing.setWidth_setWidth_iff _ _).mpr send.readerPtr
    · rw [dest_remoteTask cfg (by omega),Narrowing.setWidth_setWidth_iff]
      exact send.firstDest
    · rw [dest_remoteTask cfg (by omega),Narrowing.setWidth_setWidth_iff]
      exact send.secondDest

theorem SameTask.aguCfg {cfg remote : XDMACfgIO param s} (same : SameTask cfg remote) :
    remote.aguCfg = cfg.aguCfg := by
  have strides : remote.aguCfg.spatialStrides = cfg.aguCfg.spatialStrides := by
    apply Vector.ext
    intro i inside
    obtain rfl : i = 0 := Nat.lt_one_iff.mp inside
    exact same.spatialStride
  have index : remote.aguCfg.addressRemapIndex = cfg.aguCfg.addressRemapIndex :=
    Subsingleton.elim (α := BitVec 0) _ _
  cases remoteAgu : remote.aguCfg
  cases agu : cfg.aguCfg
  have ptr := same.ptr
  have bounds := same.temporalBounds
  have temporal := same.temporalStrides
  simp_all

/-- The remote task. A task of one cluster, sent in frames and started by another, is the
task it was exactly when it may be sent and fits the fields of the link, and then the
address generator of the remote mover is configured as the local one would have been. -/
theorem remote_task (cfg : XDMACfgIO param s) :
    (SameTask cfg (remoteTask cfg) ↔ Sendable cfg ∧ FitsLink cfg) ∧
    (SameTask cfg (remoteTask cfg) →
      ( XDMAIntraClusterCfgIO.convertFromXDMACfgIO (remoteTask cfg)).aguCfg =
        ( XDMAIntraClusterCfgIO.convertFromXDMACfgIO cfg).aguCfg) ∧
    (1 ≤ XDMACfg.Serializer.frameNum param.toXDMAParam ∧
        XDMACfg.Serializer.frameNum param.toXDMAParam ≤ 15 →
      XDMACfg.Deserializer.decode
          (XDMACfg.Serializer.frames ( XDMAInterClusterCfgIO.convertFromXDMACfgIO cfg)).toList =
        XDMAInterClusterCfgIO.convertFromXDMACfgIO cfg) := by
  refine ⟨sameTask_iff cfg,fun same => ?_,fun fits => XDMACfg.decode_frames fits _⟩
  exact congrArg XDMAIntraClusterCfgIO.aguCfgOf same.aguCfg

theorem eight_channels_positive : ∀ b ∈ [8], 0 < b := by decide
theorem eight_channels_fit : [8].prod ≤ 8 := by decide

/-- The defaults of the design parameters, with all temporal dimensions in the movers. -/
def defaultSide (isWriter : Bool) : XDMADataPathParam where
  rwParam := ⟨[8],5,64,128,256,[256],8,8,8,true,isWriter,false,false,eight_channels_positive,
    eight_channels_fit,Nat.succ_pos 4,Nat.succ_pos 7,Nat.succ_pos 7,one_mapping⟩
  extParam := []

theorem default_channels : 0 < 512 / 64 := by decide
theorem default_word : log2Ceil (64 / 8) < log2Ceil 4096 + 10 := by decide +kernel
theorem default_cluster (s : Side) : (defaultSide s.isWriter).tcdmPrefix < 48 := by
  cases s <;> decide +kernel

def defaultParam : XDMACtrlParam where
  axiParam := ⟨512⟩
  crossClusterParam := ⟨5,4096,48,512,64⟩
  addrWidth := 48
  maxMulticastDest := 4
  maxSpatialDimension := 1
  side := fun s => defaultSide s.isWriter
  multicastPositive := Nat.succ_pos 3
  temporalPositive := Nat.succ_pos 4
  channelPositive := default_channels
  wordFits := default_word
  clusterFits := default_cluster
  spatialWithin := fun _ => Nat.le_refl 1
  temporalWithin := fun _ => Nat.le_refl 5

/-- One destination, word strides, and the innermost loop run `bound` times. -/
def loopTask (bound : BitVec 22) : XDMACfgIO defaultParam .writer where
  taskID := 1
  origination := false
  readerPtr := 0x10000000
  writerPtr := #v[0x10100040,0,0,0]
  axiTransferBeatSize := bound.setWidth 19
  aguCfg := ⟨0x100040,#v[8],#v[bound,1,1,1,1],#v[64,0,0,0,0],0⟩
  readerwriterCfg := ⟨0xFF,0xFF⟩
  localLoopback := false
  remoteLoopback := false
  extCfg := #v[]

/-- A bound of `2 ^ 19` is zero in the 19 bits that the link has for it. -/
theorem remote_task_longLoop :
    Sendable (loopTask 0x80000) ∧ ¬ SameTask (loopTask 0x80000) (remoteTask (loopTask 0x80000)) := by
  refine ⟨⟨?_,?_,?_,?_,?_,?_⟩,fun same => ?_⟩
  all_goals first | decide +kernel | exact absurd same.temporalBounds (by decide +kernel)

theorem remote_task_shortLoop : SameTask (loopTask 16) (remoteTask (loopTask 16)) := by
  apply (remote_task (loopTask 16)).1.mpr
  refine ⟨⟨?_,?_,?_,?_,?_,?_⟩,?_,?_,?_⟩
  all_goals decide +kernel

end Snax.XDMA
