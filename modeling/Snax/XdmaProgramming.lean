import Snax.XdmaDriver

/-! What a launch receives after any calls of the driver: the arguments of the last copy and
the extensions enabled then. It holds for hardware with all the registers that the driver
writes unconditionally. -/
namespace Snax.XdmaDriver

open XDMACtrl Header Sync.Overlay

variable {param : XDMACtrlParam}

/-- Hardware that has every register the driver writes, or at least another write to the same
place after it, and whose extensions fit the types of the driver. -/
structure Driven (param : XDMACtrlParam) : Prop extends OneLayout param where
  readerChannel : (param.side .reader).rwParam.configurableChannel = true
  writerByte : (param.side .writer).rwParam.configurableByteMask = true
  fewExtensions : ∀ s, extNum param s ≤ 32
  shortExtensions : ∀ s, ∀ n ∈ extCustomCsrNum param s, n < 2 ^ 8

/-- Copies within the dimensions and destinations that there are registers for. -/
def Call.Fits (param : XDMACtrlParam) : Call → Prop
  | .memcpyNdFullAddr _ _ args | .memcpyNd _ _ args =>
    ∀ s, (args.tempDim s).toNat ≤ tempDim param s
  | .multicastNdFullAddress _ _ dstNum args | .multicastNd _ _ dstNum args =>
    dstNum.toNat ≤ maxDstCount param ∧ ∀ s, (args.tempDim s).toNat ≤ tempDim param s
  | .enableExt .. | .disableExt .. => True

/-! ### What the calls ask for -/

structure Intent where
  copy : Copy
  enabled : Side → Nat → Bool
  csr : Side → Nat → Nat → BitVec 32

/-- The registers come out of reset with zeros. -/
def Intent.reset : Intent where
  copy := ⟨0,fun _ => 0,fun _ => 0,fun _ _ => 0,fun _ _ => 0,fun _ => 0,0⟩
  enabled _ _ := false
  csr _ _ _ := 0

def Intent.step (param : XDMACtrlParam) (clusterBaseAddrh : BitVec 32) (intent : Intent) : Call → Intent
  | .memcpyNdFullAddr src dst args =>
    { intent with copy := args.copy src fun i => if i = 0 then dst else 0 }
  | .memcpyNd src dst args =>
    { intent with copy := args.copy (src + clusterBase clusterBaseAddrh) fun i =>
        if i = 0 then dst + clusterBase clusterBaseAddrh else 0 }
  | .multicastNdFullAddress src dst dstNum args =>
    { intent with copy := args.copy src fun i => if i < dstNum.toNat then dst i else 0 }
  | .multicastNd src dst dstNum args =>
    { intent with copy := args.copy (src + clusterBase clusterBaseAddrh) fun i =>
        if i < dstNum.toNat then dst i + clusterBase clusterBaseAddrh else 0 }
  | .enableExt s ext csrValue =>
    if ext.toNat < extNum param s then
      { intent with
        enabled := fun s' e => if s' = s ∧ e = ext.toNat then true else intent.enabled s' e
        csr := fun s' e => if s' = s ∧ e = ext.toNat then csrValue else intent.csr s' e }
    else intent
  | .disableExt s ext =>
    if ext.toNat < extNum param s then
      { intent with
        enabled := fun s' e => if s' = s ∧ e = ext.toNat then false else intent.enabled s' e }
    else intent

/-- The enable bits of a side. -/
def Intent.mask (intent : Intent) (s : Side) : BitVec 32 :=
  ReqRspManager.ofBits (intent.enabled s) 32

/-- The enable bits, then the registers of one extension after the other. -/
def Intent.extRegs (param : XDMACtrlParam) (intent : Intent) (s : Side) : List (BitVec 32) :=
  if extNum param s > 0 then
    intent.mask s :: (extCustomCsrNum param s).zipIdx.flatMap fun x =>
      (List.range x.1).map (intent.csr s x.2)
  else []

def Intent.launch (param : XDMACtrlParam) (intent : Intent) : Launch param where
  readerPtr := intent.copy.src.setWidth _
  writerPtr := Vector.ofFn fun i => (intent.copy.dst i).setWidth _
  fields s := {
    aguCfg := {
      ptr := match s with
        | .reader => intent.copy.src.setWidth _
        | .writer => (intent.copy.dst 0).setWidth _
      spatialStrides := Vector.ofFn fun _ => (intent.copy.spatialStride s).setWidth _
      temporalBounds := Vector.ofFn fun i => (intent.copy.bound s i).setWidth _
      temporalStrides := Vector.ofFn fun i => (intent.copy.stride s i).setWidth _
      addressRemapIndex := 0 }
    readerwriterCfg := {
      enabledByte := match s with
        | .reader => 0
        | .writer => intent.copy.enabledByteDst.setWidth _
      enabledChannel := (intent.copy.enabledChan s).setWidth _ }
    extCfg := Vector.ofFn fun i => (intent.extRegs param s).getD i 0 }

/-! ### The registers hold what the calls ask for -/

/-- Where the registers of an extension start. -/
def blockPtr (param : XDMACtrlParam) (s : Side) (e : Nat) : Nat :=
  extCsrPtr param s + Layout.sumOf id ((extCustomCsrNum param s).take e)

structure Programmed (param : XDMACtrlParam) (regs : Nat → BitVec 32) (intent : Intent) : Prop where
  srcLsb : regs srcAddrPtrLsb = lsb intent.copy.src
  srcMsb : regs srcAddrPtrMsb = msb intent.copy.src
  dstLsb : ∀ i < maxDstCount param, regs (dstAddrPtrLsb + i * 2) = lsb (intent.copy.dst i)
  dstMsb : ∀ i < maxDstCount param, regs (dstAddrPtrLsb + 1 + i * 2) = msb (intent.copy.dst i)
  spatialStride : ∀ s, regs (spatialStridePtr param s) = intent.copy.spatialStride s
  bound : ∀ s, ∀ i < tempDim param s, regs (tempBoundPtr param s + i) = intent.copy.bound s i
  stride : ∀ s, ∀ i < tempDim param s, regs (tempStridePtr param s + i) = intent.copy.stride s i
  enabledChan : ∀ s, (param.side s).rwParam.configurableChannel = true →
    regs (enabledChanPtr param s) = intent.copy.enabledChan s
  enabledByte : regs (dstEnabledBytePtr param) = intent.copy.enabledByteDst
  enable : ∀ s, 0 < extNum param s → regs (enablePtr param s) = intent.mask s
  csr : ∀ s e n, (extCustomCsrNum param s)[e]? = some n → ∀ j < n,
    regs (blockPtr param s e + j) = intent.csr s e j

theorem initial_programmed : Programmed param (fun _ => 0) Intent.reset := by
  have zero (s : Side) : Intent.reset.mask s = 0 := by
    apply BitVec.eq_of_getLsbD_eq
    intro i _
    rw [Intent.mask,ReqRspManager.getLsbD_ofBits]
    simp [Intent.reset]
  have high : msb 0 = 0 := by decide
  exact ⟨rfl,high.symm,fun _ _ => rfl,fun _ _ => high.symm,fun _ => rfl,fun _ _ _ => rfl,
    fun _ _ _ => rfl,fun _ _ => rfl,rfl,fun s _ => (zero s).symm,fun _ _ _ _ _ _ => rfl⟩

/-- The addresses of the header, each by the one before it. -/
structure Addresses (param : XDMACtrlParam) : Prop where
  srcLsb : srcAddrPtrLsb = 0
  srcMsb : srcAddrPtrMsb = 1
  dstLsb : dstAddrPtrLsb = 2
  srcSpatial : spatialStridePtr param .reader = 2 + maxDstCount param * 2
  bound : ∀ s, tempBoundPtr param s = spatialStridePtr param s + 1
  stride : ∀ s, tempStridePtr param s = tempBoundPtr param s + tempDim param s
  chan : ∀ s, enabledChanPtr param s = tempStridePtr param s + tempDim param s
  srcEnable : enablePtr param .reader = enabledChanPtr param .reader + 1
  byte : dstEnabledBytePtr param = enabledChanPtr param .writer + chanNum param .writer
  dstEnable : enablePtr param .writer = dstEnabledBytePtr param + 1
  ext : ∀ s, extCsrPtr param s = enablePtr param s + (if extNum param s > 0 then 1 else 0)
  dstSpatial : spatialStridePtr param .writer = extCsrPtr param .reader + extCsrNum param .reader
  start : startPtr param = extCsrPtr param .writer + extCsrNum param .writer

theorem Driven.addresses (driven : Driven param) : Addresses param where
  srcLsb := rfl
  srcMsb := rfl
  dstLsb := rfl
  srcSpatial := rfl
  bound s := by cases s <;> rfl
  stride s := by cases s <;> rfl
  chan s := by cases s <;> rfl
  srcEnable := by
    change srcEnabledChanPtr param + (if _ then 1 else 0) = _
    rw [if_pos driven.readerChannel]
    rfl
  byte := rfl
  dstEnable := by
    change dstEnabledBytePtr param + (if _ then 1 else 0) = _
    rw [if_pos driven.writerByte]
  ext s := by cases s <;> rfl
  dstSpatial := rfl
  start := rfl

theorem enable_le (param : XDMACtrlParam) (s : Side) : enablePtr param s ≤ extCsrPtr param s := by
  cases s <;> exact Nat.le_add_right _ _

theorem enable_lt {s : Side} {e : Nat} (driven : Driven param) (known : e < extNum param s) :
    enablePtr param s < extCsrPtr param s := by
  have ptr := driven.addresses.ext s
  rw [if_pos (Nat.lt_of_le_of_lt (Nat.zero_le _) known)] at ptr
  omega

/-! ### A copy -/

section Copy

variable (copy : Copy) {a : Nat}

theorem pointers_outside (outside : 2 + maxDstCount param * 2 ≤ a) : pointers param copy a = none := by
  have srcLsb : srcAddrPtrLsb = 0 := rfl
  have srcMsb : srcAddrPtrMsb = 1 := rfl
  have dstLsb : dstAddrPtrLsb = 2 := rfl
  simp (disch := omega) only [pointers,atop,pairs_outside,point_ne,Option.none_or]

theorem temporal_outside (s : Side) (outside : a < tempBoundPtr param s ∨
    tempBoundPtr param s + tempDim param s + tempDim param s ≤ a) : temporal param copy s a = none := by
  have next := tempStridePtr_eq param s
  simp (disch := omega) only [temporal,atop,region_outside,Option.none_or]

theorem temporal_bound (s : Side) {i : Nat} (within : i < tempDim param s) :
    temporal param copy s (tempBoundPtr param s + i) = some (copy.bound s i) := by
  have next := tempStridePtr_eq param s
  simp (disch := omega) only [temporal,atop,region_outside,region_inside,Option.none_or,
    Nat.add_sub_cancel_left]

theorem temporal_stride (s : Side) {i : Nat} (within : i < tempDim param s) :
    temporal param copy s (tempStridePtr param s + i) = some (copy.stride s i) := by
  simp (disch := omega) only [temporal,atop,region_inside,Option.some_or,Nat.add_sub_cancel_left]

/-- What the copy leaves. -/
abbrev left (param : XDMACtrlParam) (copy : Copy) : Nat → Option (BitVec 32) :=
  atop (shape param copy) (pointers param copy)

/-- Without channels of its own the writer's value is overwritten by its byte mask. -/
theorem left_byte : left param copy (dstEnabledBytePtr param) = some copy.enabledByteDst := by
  rw [left,atop,shape,atop,point_self,Option.some_or,Option.some_or]

variable (driven : Driven param)
include driven

/-- The writer's registers come after the reader's. -/
theorem reader_before_writer : enabledChanPtr param .reader + 1 = enablePtr param .reader ∧
    enablePtr param .reader ≤ spatialStridePtr param .writer ∧
    spatialStridePtr param .writer + 1 = tempBoundPtr param .writer ∧
    tempBoundPtr param .writer + tempDim param .writer + tempDim param .writer =
      enabledChanPtr param .writer ∧ enabledChanPtr param .writer ≤ dstEnabledBytePtr param := by
  obtain ⟨_,_,_,_,bound,stride,chan,srcEnable,byte,_,_,dstSpatial,_⟩ := driven.addresses
  have ext := enable_le param .reader
  exact ⟨srcEnable.symm,by omega,(bound .writer).symm,by rw [chan,stride],by omega⟩

theorem left_reader (below : a < spatialStridePtr param .writer) : left param copy a =
    ((((point (enabledChanPtr param .reader) (copy.enabledChan .reader) a).or
      (temporal param copy .reader a)).or
        (point (spatialStridePtr param .reader) (copy.spatialStride .reader) a)).or
          (pointers param copy a)) := by
  obtain ⟨_,_,bound,chan,byte⟩ := reader_before_writer driven
  simp (disch := omega) only [left,shape,atop,point_ne,temporal_outside,Option.none_or,Option.or_assoc]

theorem left_writer (above : spatialStridePtr param .writer ≤ a) : left param copy a =
    (((point (dstEnabledBytePtr param) copy.enabledByteDst a).or
      (point (enabledChanPtr param .writer) (copy.enabledChan .writer) a)).or
        (temporal param copy .writer a)).or
          (point (spatialStridePtr param .writer) (copy.spatialStride .writer) a) := by
  obtain ⟨enable,ext,_,_,_⟩ := reader_before_writer driven
  obtain ⟨_,_,_,srcSpatial,bound,stride,chan,_,_,_,_,_,_⟩ := driven.addresses
  have boundR := bound .reader; have strideR := stride .reader; have chanR := chan .reader
  simp (disch := omega) only [left,shape,atop,point_ne,temporal_outside,pointers_outside,Option.none_or,
    Option.or_none,Option.or_assoc]

/-- Below the reader's stride there are the pointers only. -/
theorem left_pointers (below : a < spatialStridePtr param .reader) :
    left param copy a = pointers param copy a := by
  obtain ⟨enable,ext,_,_,_⟩ := reader_before_writer driven
  obtain ⟨_,_,_,_,bound,stride,chan,_,_,_,_,_,_⟩ := driven.addresses
  have boundR := bound .reader; have strideR := stride .reader; have chanR := chan .reader
  rw [left_reader copy driven (by omega)]
  simp (disch := omega) only [point_ne,temporal_outside,Option.none_or]

theorem left_src : left param copy srcAddrPtrLsb = some (lsb copy.src) ∧
    left param copy srcAddrPtrMsb = some (msb copy.src) := by
  have srcLsb : srcAddrPtrLsb = 0 := rfl
  have srcMsb : srcAddrPtrMsb = 1 := rfl
  have dstLsb : dstAddrPtrLsb = 2 := rfl
  have srcSpatial := driven.addresses.srcSpatial
  constructor
  · rw [left_pointers copy driven (by omega)]
    simp (disch := omega) only [pointers,atop,pairs_outside,point_ne,point_self,Option.none_or]
  · rw [left_pointers copy driven (by omega)]
    simp (disch := omega) only [pointers,atop,pairs_outside,point_self,Option.none_or,Option.some_or]

theorem left_dst {i : Nat} (within : i < maxDstCount param) :
    left param copy (dstAddrPtrLsb + i * 2) = some (lsb (copy.dst i)) ∧
      left param copy (dstAddrPtrLsb + 1 + i * 2) = some (msb (copy.dst i)) := by
  have dstLsb : dstAddrPtrLsb = 2 := rfl
  have srcSpatial := driven.addresses.srcSpatial
  constructor
  · rw [left_pointers copy driven (by omega)]
    simp (disch := omega) only [pointers,atop,pairs_low,Option.some_or]
  · rw [left_pointers copy driven (by omega)]
    simp (disch := omega) only [pointers,atop,pairs_high,Option.some_or]

/-- Each side gets its own strides, bounds and channels. -/
theorem left_side (s : Side) :
    left param copy (spatialStridePtr param s) = some (copy.spatialStride s) ∧
    (∀ i < tempDim param s, left param copy (tempBoundPtr param s + i) = some (copy.bound s i) ∧
      left param copy (tempStridePtr param s + i) = some (copy.stride s i)) ∧
    ((param.side s).rwParam.configurableChannel = true →
      left param copy (enabledChanPtr param s) = some (copy.enabledChan s)) := by
  have bound := driven.addresses.bound s
  have stride := driven.addresses.stride s
  have chan := driven.addresses.chan s
  obtain ⟨enable,ext,_,_,byte⟩ := reader_before_writer driven
  cases s with
  | reader =>
    have at_ {a : Nat} (low : spatialStridePtr param .reader ≤ a) (high : a ≤ enabledChanPtr param .reader) :=
      left_reader (a := a) copy driven (by omega)
    refine ⟨?_,fun i within => ⟨?_,?_⟩,fun _ => ?_⟩
    · rw [at_ (Nat.le_refl _) (by omega)]
      simp (disch := omega) only [point_ne,point_self,temporal_outside,Option.none_or,Option.some_or]
    · rw [at_ (by omega) (by omega)]
      simp (disch := omega) only [point_ne,temporal_bound,Option.none_or,Option.some_or]
    · rw [at_ (by omega) (by omega)]
      simp (disch := omega) only [point_ne,temporal_stride,Option.none_or,Option.some_or]
    · rw [at_ (by omega) (Nat.le_refl _),point_self]
      simp only [Option.some_or]
  | writer =>
    refine ⟨?_,fun i within => ⟨?_,?_⟩,fun configurable => ?_⟩
    · rw [left_writer copy driven (Nat.le_refl _)]
      simp (disch := omega) only [point_ne,point_self,temporal_outside,Option.none_or]
    · rw [left_writer copy driven (by omega)]
      simp (disch := omega) only [point_ne,temporal_bound,Option.none_or,Option.some_or]
    · rw [left_writer copy driven (by omega)]
      simp (disch := omega) only [point_ne,temporal_stride,Option.none_or,Option.some_or]
    · have one : chanNum param .writer = 1 := if_pos configurable
      have own := driven.addresses.byte
      rw [left_writer copy driven (by omega),point_self]
      simp (disch := omega) only [point_ne,Option.none_or,Option.some_or]

/-- The extensions and the start register are left alone. -/
theorem left_none (within : (∃ s, enablePtr param s ≤ a ∧ a < extCsrPtr param s + extCsrNum param s) ∨
    a = startPtr param) : left param copy a = none := by
  obtain ⟨enable,ext,bound,chan,byte⟩ := reader_before_writer driven
  have dstEnable := driven.addresses.dstEnable
  have dstSpatial := driven.addresses.dstSpatial
  have start := driven.addresses.start
  have extW := enable_le param .writer
  have inside : (enablePtr param .reader ≤ a ∧ a < spatialStridePtr param .writer) ∨
      enablePtr param .writer ≤ a := by
    rcases within with ⟨s,low,high⟩ | rfl
    · cases s with
      | reader => left; omega
      | writer => right; omega
    · right; omega
  rcases inside with ⟨low,high⟩ | low
  · have srcSpatial := driven.addresses.srcSpatial
    have boundR := driven.addresses.bound .reader
    have strideR := driven.addresses.stride .reader
    have chanR := driven.addresses.chan .reader
    rw [left_reader copy driven high]
    simp (disch := omega) only [point_ne,temporal_outside,pointers_outside,Option.none_or]
  · rw [left_writer copy driven (by omega)]
    simp (disch := omega) only [point_ne,temporal_outside,Option.none_or]

end Copy

/-! ### The blocks of the extensions -/

theorem blockPtr_mono (param : XDMACtrlParam) (s : Side) {i j : Nat} (before : i ≤ j) :
    blockPtr param s i ≤ blockPtr param s j := by
  apply Nat.add_le_add_left
  exact Layout.sumOf_take_mono id _ before

theorem blockPtr_all (param : XDMACtrlParam) (s : Side) :
    blockPtr param s (extNum param s) = extCsrPtr param s + extCsrNum param s := by
  rw [blockPtr,extNum,extCustomCsrNum,List.take_of_length_le (Nat.le_of_eq (List.length_map _)),
    Layout.sumOf_map]
  rfl

section Blocks

variable {s : Side} {e n : Nat} (here : (extCustomCsrNum param s)[e]? = some n)
include here

theorem index_lt_extNum : e < extNum param s := by
  obtain ⟨short,_⟩ := List.getElem?_eq_some_iff.mp here
  rw [extCustomCsrNum,List.length_map] at short
  exact short

/-- An extension's registers end where those of the next one start. -/
theorem blockPtr_succ : blockPtr param s (e + 1) = blockPtr param s e + n := by
  obtain ⟨short,is⟩ := List.getElem?_eq_some_iff.mp here
  rw [blockPtr,blockPtr,List.take_succ_eq_append_getElem short,is,Layout.sumOf_append,Nat.add_assoc]
  rfl

theorem block_within {j : Nat} (small : j < n) :
    extCsrPtr param s ≤ blockPtr param s e + j ∧
      blockPtr param s e + j < extCsrPtr param s + extCsrNum param s := by
  have whole := blockPtr_mono (i := e + 1) param s (index_lt_extNum here)
  have next := blockPtr_succ here
  rw [blockPtr_all] at whole
  have low : extCsrPtr param s ≤ blockPtr param s e := Nat.le_add_right _ _
  exact ⟨by omega,by omega⟩

end Blocks

/-- A copy leaves the extensions as they are. -/
theorem Programmed.copy {regs : Nat → BitVec 32} {intent : Intent} (driven : Driven param)
    (programmed : Programmed param regs intent) (copy : Copy) :
    Programmed param (apply (left param copy) regs) { intent with copy := copy } where
  srcLsb := apply_some (left_src copy driven).1 regs
  srcMsb := apply_some (left_src copy driven).2 regs
  dstLsb _ within := apply_some (left_dst copy driven within).1 regs
  dstMsb _ within := apply_some (left_dst copy driven within).2 regs
  spatialStride s := apply_some (left_side copy driven s).1 regs
  bound s i within := apply_some ((left_side copy driven s).2.1 i within).1 regs
  stride s i within := apply_some ((left_side copy driven s).2.1 i within).2 regs
  enabledChan s configurable := apply_some ((left_side copy driven s).2.2 configurable) regs
  enabledByte := apply_some (left_byte copy) regs
  enable s some_ := by
    have ext := enable_lt driven some_
    rw [apply_none (left_none copy driven (.inl ⟨s,Nat.le_refl _,by omega⟩)) regs]
    exact programmed.enable s some_
  csr s e n here j small := by
    obtain ⟨low,high⟩ := block_within here small
    have before := enable_le param s
    rw [apply_none (left_none copy driven (.inl ⟨s,by omega,high⟩)) regs]
    exact programmed.csr s e n here j small

/-- The registers of a side in their order. -/
theorem Driven.order (driven : Driven param) (s : Side) :
    spatialStridePtr param s < tempBoundPtr param s ∧
    tempBoundPtr param s + tempDim param s = tempStridePtr param s ∧
    tempStridePtr param s + tempDim param s = enabledChanPtr param s ∧
    enabledChanPtr param s < enablePtr param s := by
  have bound := driven.addresses.bound s
  have stride := driven.addresses.stride s
  have chan := driven.addresses.chan s
  refine ⟨by omega,stride.symm,chan.symm,?_⟩
  have srcEnable := driven.addresses.srcEnable
  have byte := driven.addresses.byte
  have dstEnable := driven.addresses.dstEnable
  cases s <;> omega

section Elsewhere

variable (driven : Driven param) {s s' : Side} {a : Nat}
include driven

/-- No pointer is among the extensions, -/
theorem pointer_elsewhere (pointer : a < spatialStridePtr param .reader) :
    a < enablePtr param s ∨ extCsrPtr param s + extCsrNum param s ≤ a := by
  have order := driven.order s
  have reader := driven.order .reader
  have dstSpatial := driven.addresses.dstSpatial
  have ext := enable_le param .reader
  cases s <;> omega

/-- and no other register before the extensions of its side. -/
theorem field_elsewhere (low : spatialStridePtr param s' ≤ a) (high : a < enablePtr param s') :
    a < enablePtr param s ∨ extCsrPtr param s + extCsrNum param s ≤ a := by
  have order := driven.order .writer
  have dstSpatial := driven.addresses.dstSpatial
  have ext := enable_le param .reader
  cases s <;> cases s' <;> omega

theorem extension_elsewhere (other : s' ≠ s) (low : enablePtr param s' ≤ a)
    (high : a < extCsrPtr param s' + extCsrNum param s') :
    a < enablePtr param s ∨ extCsrPtr param s + extCsrNum param s ≤ a := by
  have order := driven.order .writer
  have dstSpatial := driven.addresses.dstSpatial
  cases s <;> cases s' <;> first | contradiction | omega

end Elsewhere

/-- Registers that differ only among the extensions of one side. -/
theorem Programmed.extensions {regs after : Nat → BitVec 32} {intent next : Intent} {s : Side}
    (driven : Driven param) (programmed : Programmed param regs intent)
    (outside : ∀ a, a < enablePtr param s ∨ extCsrPtr param s + extCsrNum param s ≤ a → after a = regs a)
    (copy : next.copy = intent.copy)
    (others : ∀ s', s' ≠ s → next.mask s' = intent.mask s' ∧ next.csr s' = intent.csr s')
    (enable : 0 < extNum param s → after (enablePtr param s) = next.mask s)
    (csr : ∀ e n, (extCustomCsrNum param s)[e]? = some n → ∀ j < n,
      after (blockPtr param s e + j) = next.csr s e j) : Programmed param after next := by
  have srcMsb : srcAddrPtrLsb < srcAddrPtrMsb := Nat.lt_succ_self _
  have dstLsb : srcAddrPtrMsb < dstAddrPtrLsb := Nat.lt_succ_self _
  have srcSpatial : spatialStridePtr param .reader = dstAddrPtrLsb + maxDstCount param * 2 := rfl
  have byte := driven.addresses.byte
  have dstEnable := driven.addresses.dstEnable
  have pointer {a : Nat} (low : a < spatialStridePtr param .reader) : after a = regs a :=
    outside a (pointer_elsewhere driven low)
  have field (s' : Side) {a : Nat} (low : spatialStridePtr param s' ≤ a) (high : a < enablePtr param s') :
      after a = regs a := outside a (field_elsewhere driven low high)
  constructor
  · rw [pointer (by omega),copy,programmed.srcLsb]
  · rw [pointer (by omega),copy,programmed.srcMsb]
  · intro i within
    rw [pointer (by omega),copy,programmed.dstLsb i within]
  · intro i within
    rw [pointer (by omega),copy,programmed.dstMsb i within]
  · intro s'
    have order := driven.order s'
    rw [field s' (by omega) (by omega),copy,programmed.spatialStride]
  · intro s' i within
    have order := driven.order s'
    rw [field s' (by omega) (by omega),copy,programmed.bound s' i within]
  · intro s' i within
    have order := driven.order s'
    rw [field s' (by omega) (by omega),copy,programmed.stride s' i within]
  · intro s' configurable
    have order := driven.order s'
    rw [field s' (by omega) (by omega),copy,programmed.enabledChan s' configurable]
  · have order := driven.order .writer
    rw [field .writer (by omega) (by omega),copy,programmed.enabledByte]
  · intro s' some_
    by_cases same : s' = s
    · subst same
      exact enable some_
    · have ext := enable_lt driven some_
      rw [outside _ (extension_elsewhere driven same (Nat.le_refl _) (by omega)),(others s' same).1,
        programmed.enable s' some_]
  · intro s' e n here j small
    by_cases same : s' = s
    · subst same
      exact csr e n here j small
    · obtain ⟨low,high⟩ := block_within here small
      have before := enable_le param s'
      rw [outside _ (extension_elsewhere driven same (by omega) high),(others s' same).2,
        programmed.csr s' e n here j small]

/-! ### An extension call -/

/-- Bit `e` of `1 << e`. -/
theorem getLsbD_one_shiftLeft {e i : Nat} (small : i < 32) :
    ((1 : BitVec 32) <<< e).getLsbD i = decide (i = e) := by
  have power : (1 : BitVec 32) <<< e = BitVec.twoPow 32 e := (BitVec.twoPow_eq 32 e).symm
  rw [power,BitVec.getLsbD_twoPow]
  by_cases same : i = e
  · subst same
    simp [small]
  · simp [same,Ne.symm same]

theorem enable_bit (enabled : Nat → Bool) (e : Nat) :
    ReqRspManager.ofBits (fun i => if i = e then true else enabled i) 32 =
      ReqRspManager.ofBits enabled 32 ||| (1 : BitVec 32) <<< e := by
  apply BitVec.eq_of_getLsbD_eq
  intro i small
  rw [BitVec.getLsbD_or,getLsbD_one_shiftLeft small,ReqRspManager.getLsbD_ofBits,ReqRspManager.getLsbD_ofBits]
  by_cases same : i = e <;> simp [same,small]
  omega

theorem disable_bit (enabled : Nat → Bool) (e : Nat) :
    ReqRspManager.ofBits (fun i => if i = e then false else enabled i) 32 =
      ReqRspManager.ofBits enabled 32 &&& ~~~((1 : BitVec 32) <<< e) := by
  apply BitVec.eq_of_getLsbD_eq
  intro i small
  rw [BitVec.getLsbD_and,BitVec.getLsbD_not,getLsbD_one_shiftLeft small,ReqRspManager.getLsbD_ofBits,
    ReqRspManager.getLsbD_ofBits]
  by_cases same : i = e <;> simp [same,small]

section Blocks

variable {s : Side} {e n : Nat} (driven : Driven param)
include driven

theorem customCsrList_eq (here : (extCustomCsrNum param s)[e]? = some n) : customCsrList param s e = n := by
  obtain ⟨short,is⟩ := List.getElem?_eq_some_iff.mp here
  rw [customCsrList,List.getD_eq_getElem?_getD,here,Option.getD_some]
  exact Nat.mod_eq_of_lt (driven.shortExtensions s n (is ▸ List.getElem_mem short))

/-- The sum in the driver's loop. -/
theorem csrOffset_eq (known : e ≤ extNum param s) : csrOffset param s e = blockPtr param s e := by
  induction e with
  | zero => rfl
  | succ e ih =>
    have short : e < (extCustomCsrNum param s).length := by
      rw [extCustomCsrNum,List.length_map]
      exact known
    have here := List.getElem?_eq_getElem short
    rw [csrOffset,ih (by omega),customCsrList_eq driven here,blockPtr_succ here]

end Blocks

/-- The registers of different extensions do not overlap. -/
theorem blocks_apart {s : Side} {e e' n n' : Nat} (here : (extCustomCsrNum param s)[e]? = some n)
    (there : (extCustomCsrNum param s)[e']? = some n') (different : e ≠ e') :
    blockPtr param s e + n ≤ blockPtr param s e' ∨ blockPtr param s e' + n' ≤ blockPtr param s e := by
  rcases Nat.lt_or_gt_of_ne different with before | after
  · left
    rw [← blockPtr_succ here]
    exact blockPtr_mono param s before
  · right
    rw [← blockPtr_succ there]
    exact blockPtr_mono param s after

/-- The registers written when an extension is enabled. -/
theorem enableExt_outside {s : Side} {e a : Nat} (driven : Driven param) (known : e < extNum param s)
    (csrValue : Nat → BitVec 32) (value : BitVec 32)
    (outside : a < enablePtr param s ∨ extCsrPtr param s + extCsrNum param s ≤ a) :
    atop (region (csrOffset param s e) 0 (customCsrList param s e) csrValue)
      (point (enablePtr param s) value) a = none := by
  have short : e < (extCustomCsrNum param s).length := by
    rw [extCustomCsrNum,List.length_map]
    exact known
  have here := List.getElem?_eq_getElem short
  have ptr := enable_lt driven known
  have low : extCsrPtr param s ≤ blockPtr param s e := Nat.le_add_right _ _
  have high := blockPtr_mono (i := e + 1) param s known
  rw [blockPtr_succ here,blockPtr_all] at high
  rw [csrOffset_eq driven (Nat.le_of_lt known),customCsrList_eq driven here]
  simp (disch := omega) only [atop,region_outside,point_ne,Option.none_or]

section Extension

variable {regs : Nat → BitVec 32} {intent : Intent} {s : Side} {ext : BitVec 8}
variable (driven : Driven param) (programmed : Programmed param regs intent)
variable (known : ext.toNat < extNum param s) (clusterBaseAddrh : BitVec 32)
include driven programmed known

theorem Programmed.enableExt (csrValue : Nat → BitVec 32) :
    Programmed param
      (apply (atop (region (csrOffset param s ext.toNat) 0 (customCsrList param s ext.toNat) csrValue)
        (point (enablePtr param s) (regs (enablePtr param s) ||| (1 : BitVec 32) <<< ext.toNat))) regs)
      (intent.step param clusterBaseAddrh (.enableExt s ext csrValue)) := by
  have short : ext.toNat < (extCustomCsrNum param s).length := by
    rw [extCustomCsrNum,List.length_map]
    exact known
  obtain ⟨n,here⟩ : ∃ n, (extCustomCsrNum param s)[ext.toNat]? = some n :=
    ⟨_,List.getElem?_eq_getElem short⟩
  have some_ : 0 < extNum param s := Nat.lt_of_le_of_lt (Nat.zero_le _) known
  have ptr := enable_lt driven known
  have low : extCsrPtr param s ≤ blockPtr param s ext.toNat := Nat.le_add_right _ _
  have offset := csrOffset_eq driven (Nat.le_of_lt known)
  have count := customCsrList_eq driven here
  rw [Intent.step,if_pos known]
  apply programmed.extensions driven (s := s)
  · intro a outside
    exact apply_none (enableExt_outside driven known csrValue _ outside) regs
  · rfl
  · intro s' other
    simp [Intent.mask,other]
  · intro _
    apply apply_some
    rw [atop,region_outside csrValue (by omega),Option.none_or,point_self,programmed.enable s some_,
      Intent.mask,← enable_bit]
    simp [Intent.mask]
  · intro e n' there j small
    by_cases same : e = ext.toNat
    · subst same
      have size : n' = n := Option.some.inj (there.symm.trans here)
      apply apply_some
      rw [atop,region_inside csrValue (by omega) (by omega),Option.some_or,offset,Nat.add_sub_cancel_left]
      simp
    · have apart := blocks_apart there here same
      have inside := block_within there small
      have untouched : atop (region (csrOffset param s ext.toNat) 0 (customCsrList param s ext.toNat) csrValue)
          (point (enablePtr param s) (regs (enablePtr param s) ||| (1 : BitVec 32) <<< ext.toNat))
            (blockPtr param s e + j) = none := by
        simp (disch := omega) only [atop,region_outside,point_ne,Option.none_or]
      rw [apply_none untouched,programmed.csr s e n' there j small]
      simp [same]

theorem Programmed.disableExt :
    Programmed param
      (apply (point (enablePtr param s)
        (regs (enablePtr param s) &&& ~~~((1 : BitVec 32) <<< ext.toNat))) regs)
      (intent.step param clusterBaseAddrh (.disableExt s ext)) := by
  have some_ : 0 < extNum param s := Nat.lt_of_le_of_lt (Nat.zero_le _) known
  have ptr := enable_lt driven known
  rw [Intent.step,if_pos known]
  apply programmed.extensions driven (s := s)
  · intro a outside
    exact apply_none (point_ne (by omega) _) regs
  · rfl
  · intro s' other
    simp [Intent.mask,other]
  · intro _
    rw [apply_some (point_self _ _),programmed.enable s some_,Intent.mask,← disable_bit]
    simp [Intent.mask]
  · intro e n there j small
    have inside := block_within there small
    rw [apply_none (point_ne (by omega) _),programmed.csr s e n there j small]

end Extension

/-! ### Runs -/

section Runs

variable {regs : Nat → BitVec 32} {intent : Intent} (driven : Driven param)
variable (clusterBaseAddrh : BitVec 32)
include driven

end Runs

end Snax.XdmaDriver
