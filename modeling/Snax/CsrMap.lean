import Snax.CsrLayout

/-! The C header that `Streamer` writes, and its agreement with the elaborated register
wiring. Reader-writer pairs beyond the first are built from the wrong entries of the
parameter list, so the three computations agree up to one pair. -/
namespace Snax.Streamer

open Layout

/-- A macro: the address of a field, of one of its registers, or its number of registers. -/
inductive MacroName
  | address (f : Field)
  | element (f : Field) (i : Nat)
  | count (f : Field)
  /-- The read-only registers after the last start register: busy and performance counter. -/
  | readOnly (j : Nat)
  deriving DecidableEq

structure Define where
  name : MacroName
  value : Nat
  deriving DecidableEq

def Tag.index : Tag → String
  | .reader i | .writer i | .readerWriter i => toString i

def Tag.kind : Tag → String
  | .reader _ => "READER_"
  | .writer _ => "WRITER_"
  | .readerWriter _ => "READER_WRITER_"

def Tag.text (tag : Tag) : String := tag.kind ++ tag.index

/-- The stem of a mover's macros. -/
def MoverField.text : MoverField → String
  | .ptrLow | .ptrHigh => "BASE_PTR_"
  | .spatialStrides => "S_STRIDE_"
  | .temporalBounds => "T_BOUND_"
  | .temporalStrides => "T_STRIDE_"
  | .addressRemapIndex => "ADDR_REMAP_INDEX_"
  | .enabledChannel => "ENABLED_CHANNEL_"
  | .enabledByte => "ENABLED_BYTE_"

def MacroName.text : MacroName → String
  | .address (.mover tag .ptrLow) => "BASE_PTR_" ++ tag.text ++ "_LOW"
  | .address (.mover tag .ptrHigh) => "BASE_PTR_" ++ tag.text ++ "_HIGH"
  | .address (.mover tag .addressRemapIndex) => "ADDR_REMAP_INDEX_" ++ tag.text
  | .address (.mover tag .enabledChannel) => "ENABLED_CHANNEL_" ++ tag.text
  | .address (.mover tag .enabledByte) => "ENABLED_BYTE_" ++ tag.text
  | .address (.mover tag f) => f.text ++ "BASE_" ++ tag.text
  | .address (.extension tag) => tag.kind ++ "EXTENSION_" ++ tag.index ++ "_CSR_BASE"
  | .address (.delayedStart tag) => "DELAYED_START_" ++ tag.text
  | .address .start => "STREAMER_START_CSR"
  | .element (.mover tag f) i => f.text ++ tag.text ++ "_" ++ toString i
  | .count (.mover tag .enabledChannel) => "ENABLED_CHANNEL_" ++ tag.text ++ "_CSR_NUM"
  | .count (.mover tag f) => f.text ++ "NUM_" ++ tag.text
  | .count (.extension tag) => tag.kind ++ "EXTENSION_" ++ tag.index ++ "_CSR_NUM"
  | .readOnly 0 => "STREAMER_BUSY_CSR"
  | .readOnly _ => "STREAMER_PERFORMANCE_COUNTER_CSR"
  | _ => ""

/-- The base, the number and each register of a field that the header spells out. -/
def genElements (f : Field) (csrOffset n : Nat) : List Define :=
  ⟨.address f,csrOffset⟩ :: ⟨.count f,n⟩ ::
    (List.range n).map fun i => ⟨.element f i,csrOffset + i⟩

def genCSRMap (csrBase : Nat) (param : ReaderWriterParam) (tag : Tag) : List Define :=
  let spatialStrides := csrBase + 2
  let temporalBounds := spatialStrides + param.spatialBounds.length
  let temporalStrides := temporalBounds + param.temporalDimension
  let remap := temporalStrides + param.temporalDimension
  let channel := if param.tcdmLogicWordSize.length > 1 then remap + 1 else remap
  let byte := if param.configurableChannel then channel + (param.numChannel + 31) / 32 else channel
  [⟨.address (.mover tag .ptrLow),csrBase⟩,⟨.address (.mover tag .ptrHigh),csrBase + 1⟩] ++
  genElements (.mover tag .spatialStrides) spatialStrides param.spatialBounds.length ++
  genElements (.mover tag .temporalBounds) temporalBounds param.temporalDimension ++
  genElements (.mover tag .temporalStrides) temporalStrides param.temporalDimension ++
  (if param.tcdmLogicWordSize.length > 1 then
    [⟨.address (.mover tag .addressRemapIndex),remap⟩] else []) ++
  (if param.configurableChannel then
    [⟨.address (.mover tag .enabledChannel),channel⟩,
      ⟨.count (.mover tag .enabledChannel),(param.numChannel + 31) / 32⟩] else []) ++
  (if param.configurableByteMask then [⟨.address (.mover tag .enabledByte),byte⟩] else [])

/-- The movers of one kind, each after the registers of those before it. -/
def genMovers (csrBase : Nat) (tag : Nat → Tag) (params : List ReaderWriterParam) : List Define :=
  params.zipIdx.flatMap fun p => genCSRMap (csrBase + csrNumOf (params.take p.2)) p.1 (tag p.2)

def genExtensions (csrBase : Nat) (tag : Nat → Tag) (extensions : List (List DataPathExtensionParam)) :
    List Define :=
  extensions.zipIdx.flatMap fun e =>
    let num := extensionCsrNum e.1
    if num > 0 then
      [⟨.address (.extension (tag e.2)),csrBase + extensionListCsrNum (extensions.take e.2)⟩,
        ⟨.count (.extension (tag e.2)),num⟩]
    else []

/-- The individual start registers, and the address after them. -/
def genDelayedStarts (tag : Nat → Tag) : Nat → List (ReaderWriterParam × Nat) → List Define × Nat
  | csrBase, [] => ([],csrBase)
  | csrBase, (p,i) :: ps =>
    if p.delayedStart then
      let (lines,next) := genDelayedStarts tag (csrBase + 1) ps
      (⟨.address (.delayedStart (tag i)),csrBase⟩ :: lines,next)
    else genDelayedStarts tag csrBase ps

def csrMap (param : StreamerParam) : List Define :=
  let readerBase := 960
  let writerBase := readerBase + csrNumOf param.readerParams
  let readerWriterBase := writerBase + csrNumOf param.writerParams
  let readerExtBase := readerWriterBase + csrNumOf param.readerWriterParams
  let writerExtBase := readerExtBase + extensionListCsrNum param.readerDatapathExtension
  let readerWriterExtBase := writerExtBase + extensionListCsrNum param.writerDatapathExtension
  let startBase := readerWriterExtBase + extensionListCsrNum param.readerwriterDatapathExtension
  let (readerStarts,startBase) := genDelayedStarts .reader startBase param.readerParams.zipIdx
  let (writerStarts,startBase) := genDelayedStarts .writer startBase param.writerParams.zipIdx
  let (readerWriterStarts,startBase) :=
    genDelayedStarts .readerWriter startBase param.readerWriterParams.zipIdx
  genMovers readerBase .reader param.readerParams ++
  genMovers writerBase .writer param.writerParams ++
  genMovers readerWriterBase .readerWriter param.readerWriterParams ++
  genExtensions readerExtBase .reader param.readerDatapathExtension ++
  genExtensions writerExtBase .writer param.writerDatapathExtension ++
  genExtensions readerWriterExtBase .readerWriter param.readerwriterDatapathExtension ++
  readerStarts ++ writerStarts ++ readerWriterStarts ++
  [⟨.address .start,startBase⟩,⟨.readOnly 0,startBase + 1⟩,⟨.readOnly 1,startBase + 2⟩]

/-! ### The header as the rendering of a layout -/

/-- The lines for one span. -/
def render : Field × Nat × Nat → List Define
  | (.mover tag .spatialStrides,a,n) => genElements (.mover tag .spatialStrides) a n
  | (.mover tag .temporalBounds,a,n) => genElements (.mover tag .temporalBounds) a n
  | (.mover tag .temporalStrides,a,n) => genElements (.mover tag .temporalStrides) a n
  | (.mover tag .enabledChannel,a,n) =>
    [⟨.address (.mover tag .enabledChannel),a⟩,⟨.count (.mover tag .enabledChannel),n⟩]
  | (.extension tag,a,n) => [⟨.address (.extension tag),a⟩,⟨.count (.extension tag),n⟩]
  | (f,a,_) => [⟨.address f,a⟩]

theorem genCSRMap_eq (csrBase : Nat) (param : ReaderWriterParam) (tag : Tag) :
    genCSRMap csrBase param tag =
      (spans csrBase ((moverLayout param).map fun x => (Field.mover tag x.1,x.2))).flatMap render := by
  unfold genCSRMap moverLayout ReaderWriterParam.enabledChannelCSRNum
  simp only [List.map_append,spans_append,List.flatMap_append,List.append_assoc]
  by_cases remap : param.tcdmLogicWordSize.length > 1 <;> cases channel : param.configurableChannel <;>
    cases byte : param.configurableByteMask <;> simp [remap,spans,render,total,sumOf,Nat.add_assoc] <;> omega

theorem genMovers_eq (csrBase : Nat) (tag : Nat → Tag) (params : List ReaderWriterParam) :
    genMovers csrBase tag params = (spans csrBase (moversLayout tag params)).flatMap render := by
  rw [moversLayout,spans_layoutOf _ ReaderWriterParam.csrNum
    (fun _ p => (total_rename _ _).trans (total_moverLayout p)),List.flatMap_assoc]
  simp only [genMovers,genCSRMap_eq]
  rfl

theorem genExtensions_eq (csrBase : Nat) (tag : Nat → Tag)
    (extensions : List (List DataPathExtensionParam)) :
    genExtensions csrBase tag extensions =
      (spans csrBase (extensionsLayout tag extensions)).flatMap render := by
  rw [extensionsLayout,spans_layoutOf _ extensionCsrNum (fun i e => total_extensionLayout (tag i) e),
    List.flatMap_assoc]
  unfold genExtensions
  apply List.flatMap_congr
  rintro ⟨extensionList,i⟩ _
  cases extensionList with
  | nil => simp [extensionCsrNum,extensionLayout,spans]
  | cons first others =>
    simp [extensionCsrNum,extensionLayout,spans,render,extensionListCsrNum]

theorem genDelayedStarts_eq (tag : Nat → Tag) (csrBase i : Nat) (params : List ReaderWriterParam) :
    genDelayedStarts tag csrBase (params.zipIdx i) =
      ((spans csrBase (layoutOf (fun i => delayedStartLayout (tag i)) i params)).flatMap render,
        csrBase + params.countP (·.delayedStart)) := by
  induction params generalizing csrBase i with
  | nil => rfl
  | cons p params ih =>
    have split : layoutOf (fun i => delayedStartLayout (tag i)) i (p :: params) =
        delayedStartLayout (tag i) p ++ layoutOf (fun i => delayedStartLayout (tag i)) (i + 1) params := by
      simp [layoutOf,List.zipIdx_cons]
    rw [List.zipIdx_cons,genDelayedStarts,split,spans_append,List.flatMap_append,ih,ih,List.countP_cons]
    cases delayed : p.delayedStart with
    | true =>
      simp [delayedStartLayout,delayed,total,sumOf,spans,render]
      omega
    | false => simp [delayedStartLayout,delayed,total,sumOf,spans]

/-- The header is the layout of the registers from 960 on, line by line, followed by the
two read-only registers. -/
theorem csrMap_eq (param : StreamerParam) : csrMap param =
    (spans 960 (csrLayout param)).flatMap render ++
      [⟨.readOnly 0,960 + csrNumReadWrite param⟩,⟨.readOnly 1,960 + csrNumReadWrite param + 1⟩] := by
  have starts (tag : Nat → Tag) (base : Nat) (params : List ReaderWriterParam) :
      genDelayedStarts tag base params.zipIdx = ((spans base (startsLayout tag params)).flatMap render,
        base + params.countP (·.delayedStart)) := genDelayedStarts_eq tag base 0 params
  simp only [csrMap,genMovers_eq,genExtensions_eq,starts,csrLayout,chainLayout,startLayout,
    spans_append,List.flatMap_append,total_moversLayout,total_extensionsLayout,
    total_startsLayout,csrNumReadWrite,StreamerParam.delayedStartCount,Nat.add_assoc,List.append_assoc]
  rfl

/-! ### Agreement -/

/-- A macro tells the truth about the hardware: the address of a field leads to the
registers that the hardware slices into it, in their order, and the count is theirs. -/
def Names (param : StreamerParam) (hw : Hardware) : Define → Prop
  | ⟨.address f,address⟩ => 960 ≤ address ∧
    ∃ n, 0 < n ∧ hw.registers f = some (List.range' (address - 960) n)
  | ⟨.element f i,address⟩ => 960 ≤ address ∧
    ∃ rs, hw.registers f = some rs ∧ rs[i]? = some (address - 960)
  | ⟨.count f,n⟩ => ∃ rs, hw.registers f = some rs ∧ rs.length = n
  | ⟨.readOnly j,address⟩ => address = 960 + csrNumReadWrite param + j

structure Agrees (param : StreamerParam) (hw : Hardware) : Prop where
  macros : ∀ d ∈ csrMap param, Names param hw d
  reader : hw.reader.mover.map Mover.param = param.readerParams
  writer : hw.writer.mover.map Mover.param = param.writerParams
  readerWriter : hw.readerWriter.mover.map Mover.param = param.readerWriterParams
  apart : ∀ f g rs qs, f ≠ g → hw.registers f = some rs → hw.registers g = some qs → rs.Disjoint qs
  unassigned : hw.remainingCSR = hw.startRegisters

theorem moverLayout_positive (p : ReaderWriterParam) (channels : 0 < p.numChannel)
    (strides : p.spatialBounds ≠ []) : ∀ x ∈ moverLayout p, 0 < x.2 := by
  have temporal := p.temporalPositive
  have spatial := List.length_pos_iff.mpr strides
  have words : p.configurableChannel = true → 0 < p.enabledChannelCSRNum := by
    intro configurable
    rw [ReaderWriterParam.enabledChannelCSRNum,if_pos configurable]
    omega
  intro x inside
  simp only [moverLayout,List.mem_append,List.mem_cons,List.not_mem_nil,or_false] at inside
  rcases inside with fixed | remap | channel | byte
  · rcases fixed with rfl | rfl | rfl | rfl | rfl
    · exact Nat.one_pos
    · exact Nat.one_pos
    · exact spatial
    · exact temporal
    · exact temporal
  · split at remap
    · rw [List.mem_singleton.mp remap]
      exact Nat.one_pos
    · cases remap
  · split at channel
    · rw [List.mem_singleton.mp channel]
      exact words ‹_›
    · cases channel
  · split at byte
    · rw [List.mem_singleton.mp byte]
      exact Nat.one_pos
    · cases byte

theorem moversLayout_positive (param : StreamerParam) (tag : Nat → Tag) {params : List ReaderWriterParam}
    (part : ∀ p ∈ params, p ∈ param.readerParams ++ param.writerParams ++ param.readerWriterParams) :
    ∀ x ∈ moversLayout tag params, 0 < x.2 := by
  apply forall_mem_layoutOf
  intro i p inside x named
  obtain ⟨y,held,rfl⟩ := List.mem_map.mp named
  exact moverLayout_positive p (numChannel_pos param (part p inside))
    (param.unrolled p (part p inside)).1 y held

theorem extensionsLayout_positive (tag : Nat → Tag) (extensions : List (List DataPathExtensionParam)) :
    ∀ x ∈ extensionsLayout tag extensions, 0 < x.2 := by
  apply forall_mem_layoutOf
  intro i e _ x named
  unfold extensionLayout at named
  split at named
  · cases named
  · rw [List.mem_singleton.mp named]
    exact Nat.succ_pos _

theorem startsLayout_positive (tag : Nat → Tag) (params : List ReaderWriterParam) :
    ∀ x ∈ startsLayout tag params, 0 < x.2 := by
  apply forall_mem_layoutOf
  intro i p _ x named
  unfold delayedStartLayout at named
  split at named
  · rw [List.mem_singleton.mp named]
    exact Nat.one_pos
  · cases named

/-- No field is empty. -/
theorem csrLayout_positive (param : StreamerParam) : ∀ x ∈ csrLayout param, 0 < x.2 := by
  intro x inside
  simp only [csrLayout,chainLayout,startLayout,List.mem_append,List.mem_singleton] at inside
  rcases inside with (h | h | h | h | h | h) | h | h | h | rfl
  · exact moversLayout_positive param _ (fun p hp => by simp [hp]) x h
  · exact moversLayout_positive param _ (fun p hp => by simp [hp]) x h
  · exact moversLayout_positive param _ (fun p hp => by simp [hp]) x h
  · exact extensionsLayout_positive _ _ x h
  · exact extensionsLayout_positive _ _ x h
  · exact extensionsLayout_positive _ _ x h
  · exact startsLayout_positive _ _ x h
  · exact startsLayout_positive _ _ x h
  · exact startsLayout_positive _ _ x h
  · exact Nat.one_pos

theorem mem_render {f : Field} {a n : Nat} {d : Define} (line : d ∈ render (f,a,n)) :
    d = ⟨.address f,a⟩ ∨ d = ⟨.count f,n⟩ ∨ ∃ i < n, d = ⟨.element f i,a + i⟩ := by
  have elements {g : Field} (line : d ∈ genElements g a n) :
      d = ⟨.address g,a⟩ ∨ d = ⟨.count g,n⟩ ∨ ∃ i < n, d = ⟨.element g i,a + i⟩ := by
    simp only [genElements,List.mem_cons,List.mem_map,List.mem_range] at line
    rcases line with address | count | ⟨i,inside,same⟩
    · exact .inl address
    · exact .inr (.inl count)
    · exact .inr (.inr ⟨i,inside,same.symm⟩)
  cases f with
  | mover tag field =>
    cases field with
    | spatialStrides => exact elements line
    | temporalBounds => exact elements line
    | temporalStrides => exact elements line
    | enabledChannel =>
      simp only [render,List.mem_cons,List.not_mem_nil,or_false] at line
      exact line.imp id .inl
    | _ => exact .inl (List.mem_singleton.mp line)
  | extension tag =>
    simp only [render,List.mem_cons,List.not_mem_nil,or_false] at line
    exact line.imp id .inl
  | delayedStart tag => exact .inl (List.mem_singleton.mp line)
  | start => exact .inl (List.mem_singleton.mp line)

/-- Wired as the layout says, the hardware agrees with the header. -/
theorem agrees_of_slices {param : StreamerParam} {hw : Hardware}
    (wired : hw.slices = (spans 0 (csrLayout param)).map addresses) :
    (∀ d ∈ csrMap param, Names param hw d) ∧
    ∀ f g rs qs, f ≠ g → hw.registers f = some rs → hw.registers g = some qs → rs.Disjoint qs := by
  have held {f : Field} {rs : List Nat} : hw.registers f = some rs ↔
      ∃ a n, (f,a,n) ∈ spans 0 (csrLayout param) ∧ rs = List.range' a n := by
    rw [← mem_slices_iff,wired,List.mem_map]
    constructor
    · rintro ⟨⟨g,a,n⟩,inside,same⟩
      obtain ⟨rfl,rfl⟩ := Prod.mk.inj same
      exact ⟨a,n,inside,rfl⟩
    · rintro ⟨a,n,inside,rfl⟩
      exact ⟨(f,a,n),inside,rfl⟩
  constructor
  · intro d line
    rw [csrMap_eq,List.mem_append] at line
    rcases line with mapped | status
    · obtain ⟨⟨f,a,n⟩,inside,rendered⟩ := List.mem_flatMap.mp mapped
      have positive : 0 < n := csrLayout_positive param _ (mem_of_mem_spans inside)
      obtain ⟨a,rfl,placed⟩ := mem_spans_shift.mp (show _ ∈ spans (960 + 0) _ from inside)
      have sliced := held.mpr ⟨a,n,placed,rfl⟩
      rcases mem_render rendered with rfl | rfl | ⟨i,below,rfl⟩
      · refine ⟨Nat.le_add_right _ _,n,positive,?_⟩
        rw [sliced,Nat.add_sub_cancel_left]
      · exact ⟨_,sliced,List.length_range'⟩
      · refine ⟨by omega,_,sliced,?_⟩
        rw [List.getElem?_range' below,show 960 + a + i - 960 = a + 1 * i by omega]
    · simp only [List.mem_cons,List.not_mem_nil,or_false] at status
      rcases status with rfl | rfl
      · rfl
      · rfl
  · intro f g rs qs different left right
    obtain ⟨a,n,inLeft,rfl⟩ := held.mp left
    obtain ⟨b,m,inRight,rfl⟩ := held.mp right
    apply spans_disjoint inLeft inRight
    intro same
    exact different (Prod.mk.inj same).1

theorem getElem?_of_mapM {f : α → Option β} {xs : List α} {ys : List β} (run : xs.mapM f = some ys)
    (i : Nat) : ys[i]? = xs[i]?.bind f := by
  induction xs generalizing ys i with
  | nil =>
    obtain rfl := Option.some.inj run
    rfl
  | cons x xs ih =>
    rw [List.mapM_cons] at run
    obtain ⟨y,first,run⟩ := Option.bind_eq_some_iff.mp run
    obtain ⟨others,later,run⟩ := Option.bind_eq_some_iff.mp run
    obtain rfl := Option.some.inj run
    cases i with
    | zero => exact first.symm
    | succ i => exact ih later i

/-- The second pair of reader-writers is built from the entries of the first. -/
theorem readerWriter_overtaken {param : StreamerParam} {hw : Hardware}
    (built : elaborate param = some hw) (many : 2 < param.readerWriterNum) :
    (hw.readerWriter.mover.map Mover.param)[2]? = param.readerWriterParams[0]? := by
  rw [getElem?_of_mapM (elaborate_params built).2.2,List.getElem?_range many,Option.bind_some]
  have second : 1 < param.readerWriterParams.length := Nat.lt_of_succ_lt many
  have first : 0 < param.readerWriterParams.length := Nat.lt_of_succ_lt second
  simp [readerWriterInterface,readerWriterModule,first,second]

/-- Up to one pair every interface is built from its own entry. -/
theorem readerWriter_own (param : StreamerParam) (few : param.readerWriterNum ≤ 2) :
    (List.range param.readerWriterNum).mapM (readerWriterInterface param) =
      some param.readerWriterParams := by
  have even := param.paired
  unfold StreamerParam.readerWriterNum readerWriterInterface readerWriterModule at *
  match param.readerWriterParams, few, even with
  | [], _, _ => rfl
  | [p,q], _, _ => simp [List.range_succ]

/-- With different parameters for all reader-writers, elaboration succeeds in agreement
with the header exactly when there is at most one pair of them. -/
theorem layout_agreement (param : StreamerParam) (different : param.readerWriterParams.Nodup) :
    (∃ hw, elaborate param = some hw ∧ Agrees param hw) ↔ param.readerWriterNum ≤ 2 := by
  constructor
  · rintro ⟨hw,built,agrees⟩
    by_contra many
    have overtaken := readerWriter_overtaken built (by omega)
    rw [agrees.readerWriter] at overtaken
    have inside : 2 < param.readerWriterParams.length := by
      unfold StreamerParam.readerWriterNum at many
      omega
    rw [List.getElem?_eq_getElem inside,List.getElem?_eq_getElem (by omega)] at overtaken
    have same := (List.Nodup.getElem_inj_iff different).mp (Option.some.inj overtaken)
    omega
  · intro few
    have own := readerWriter_own param few
    obtain ⟨hw,built,wired,unassigned⟩ := elaborate_layout param own
    obtain ⟨reader,writer,readerWriter⟩ := elaborate_params built
    rw [own] at readerWriter
    obtain ⟨macros,apart⟩ := agrees_of_slices wired
    exact ⟨hw,built,macros,reader,writer,(Option.some.inj readerWriter).symm,apart,unassigned⟩

/-- A side of a reader-writer with two channels; the buffers take no registers. -/
def sideParam (addressDepth dataDepth : Nat) (address : 0 < addressDepth) (data : 0 < dataDepth)
    (configurable delayed : Bool) : ReaderWriterParam where
  spatialBounds := [2]
  temporalDimension := 1
  tcdmDataWidth := 8
  tcdmSize := 1
  tcdmPhysWordSize := 256
  tcdmLogicWordSize := [256]
  numChannel := 2
  addressBufferDepth := addressDepth
  dataBufferDepth := dataDepth
  configurableChannel := configurable
  configurableByteMask := false
  crossClockDomain := false
  delayedStart := delayed
  spatialPositive := two_channels_positive
  spatialFits := two_channels_fit
  temporalPositive := Nat.one_pos
  addressDepthPositive := address
  dataDepthPositive := data
  remapNonempty := one_mapping

def readerSide : ReaderWriterParam := sideParam 1 1 Nat.one_pos Nat.one_pos true true

theorem readerSide_some : [readerSide] ≠ [] := by decide

def firstPair : List ReaderWriterParam :=
  [sideParam 1 1 Nat.one_pos Nat.one_pos false false,sideParam 1 2 Nat.one_pos Nat.two_pos false false]

/-- Two pairs that differ in their buffer depths alone, so that the counts still fit. -/
def fourSides : List ReaderWriterParam :=
  firstPair ++
    [sideParam 2 1 Nat.two_pos Nat.one_pos false false,sideParam 2 2 Nat.two_pos Nat.two_pos false false]

example : (genCSRMap 960 readerSide (.reader 0)).map (fun d => (d.name.text,d.value)) =
    [("BASE_PTR_READER_0_LOW",960),("BASE_PTR_READER_0_HIGH",961),("S_STRIDE_BASE_READER_0",962),
      ("S_STRIDE_NUM_READER_0",1),("S_STRIDE_READER_0_0",962),("T_BOUND_BASE_READER_0",963),
      ("T_BOUND_NUM_READER_0",1),("T_BOUND_READER_0_0",963),("T_STRIDE_BASE_READER_0",964),
      ("T_STRIDE_NUM_READER_0",1),("T_STRIDE_READER_0_0",964),("ENABLED_CHANNEL_READER_0",965),
      ("ENABLED_CHANNEL_READER_0_CSR_NUM",1)] := by decide +kernel

theorem firstPair_unrolled : ∀ p ∈ [readerSide] ++ [] ++ firstPair,
    p.spatialBounds ≠ [] ∧ p.spatialBounds.prod = p.numChannel := by decide

theorem fourSides_unrolled : ∀ p ∈ [readerSide] ++ [] ++ fourSides,
    p.spatialBounds ≠ [] ∧ p.spatialBounds.prod = p.numChannel := by decide

/-- One reader with an extension of two registers, and one pair. -/
def onePair : StreamerParam where
  readerParams := [readerSide]
  writerParams := []
  readerWriterParams := firstPair
  readerDatapathExtension := [[⟨2⟩]]
  writerDatapathExtension := []
  readerwriterDatapathExtension := [[],[]]
  csrAddrWidth := 32
  hasReader := readerSide_some
  unrolled := firstPair_unrolled
  paired := rfl
  readerExtensions := rfl
  writerExtensions := rfl
  readerWriterExtensions := rfl

def twoPairs : StreamerParam where
  readerParams := [readerSide]
  writerParams := []
  readerWriterParams := fourSides
  readerDatapathExtension := [[]]
  writerDatapathExtension := []
  readerwriterDatapathExtension := [[],[],[],[]]
  csrAddrWidth := 32
  hasReader := readerSide_some
  unrolled := fourSides_unrolled
  paired := rfl
  readerExtensions := rfl
  writerExtensions := rfl
  readerWriterExtensions := rfl

theorem layout_agreement_onePair : ∃ hw, elaborate onePair = some hw ∧ Agrees onePair hw :=
  (layout_agreement onePair (by decide)).mpr (by decide)

/-- The streamer with two pairs is elaborated, but not as its parameters say. -/
theorem layout_agreement_twoPairs :
    (twoPairs.readerParams ++ twoPairs.writerParams ++ twoPairs.readerWriterParams).Nodup ∧
    (elaborate twoPairs).isSome = true ∧
    ¬ ∃ hw, elaborate twoPairs = some hw ∧ Agrees twoPairs hw := by
  refine ⟨by decide,by decide +kernel,?_⟩
  rintro ⟨hw,built,agrees⟩
  have overtaken := readerWriter_overtaken built (by decide)
  rw [agrees.readerWriter] at overtaken
  exact absurd overtaken (by decide)

end Snax.Streamer
