import Snax.Params
import Snax.Sync.Layout
import Mathlib.Algebra.BigOperators.Group.List.Lemmas

/-! The register map of `streamer/Streamer.scala`, computed three times: as the number of
registers, by the chain of `connectCfgWithList` that slices them into the movers and
extensions, and by the generator of the C header. -/
namespace Snax.Streamer

open Layout

/-! ### The chain -/

variable {α : Type}

/-- `remainingCSR.head` and `remainingCSR.tail`. -/
def takeHead : StateT (List α) Option α
  | [] => none
  | r :: rest => some (r,rest)

def takeHeads : Nat → StateT (List α) Option (List α)
  | 0 => pure []
  | n + 1 => do
    let r ← takeHead
    let rs ← takeHeads n
    return r :: rs

/-- The registers sliced into an `AddressGenUnitCfgIO`; without a remap register the
remap index is the constant zero. -/
structure AguCfg (α : Type) where
  ptrLow : α
  ptrHigh : α
  spatialStrides : List α
  temporalBounds : List α
  temporalStrides : List α
  addressRemapIndex : Option α

def AguCfg.connectWithList (param : AddressGenUnitParam) : StateT (List α) Option (AguCfg α) := do
  let ptrLow ← takeHead
  let ptrHigh ← takeHead
  let spatialStrides ← takeHeads param.spatialBounds.length
  let temporalBounds ← takeHeads param.temporalDimension
  let temporalStrides ← takeHeads param.temporalDimension
  let addressRemapIndex ← optionally (param.tcdmLogicWordSize.length > 1) takeHead
  return ⟨ptrLow,ptrHigh,spatialStrides,temporalBounds,temporalStrides,addressRemapIndex⟩

/-- The registers sliced into a `ReaderWriterCfgIO`; a field without registers is all ones. -/
structure ReaderWriterCfg (α : Type) where
  /-- The words of the concatenation, the most significant first. -/
  enabledChannel : Option (List α)
  enabledByte : Option α

/-- `remaincsrList.take(n).reduce(_ ## _)`, which needs one register at least. -/
def takeWords (n : Nat) : StateT (List α) Option (List α) :=
  fun rs => if (rs.take n).isEmpty then none else some (rs.take n,rs.drop n)

def ReaderWriterCfg.connectWithList (param : ReaderWriterParam) :
    StateT (List α) Option (ReaderWriterCfg α) := do
  let enabledChannel ← optionally param.configurableChannel (takeWords param.enabledChannelCSRNum)
  let enabledByte ← optionally param.configurableByteMask takeHead
  return ⟨enabledChannel,enabledByte⟩

/-- A data mover as elaborated: its parameters and the registers of its configuration. -/
structure Mover (α : Type) where
  param : ReaderWriterParam
  aguCfg : AguCfg α
  readerwriterCfg : ReaderWriterCfg α

def Mover.connectCfgWithList (param : ReaderWriterParam) : StateT (List α) Option (Mover α) := do
  let aguCfg ← AguCfg.connectWithList param.aguParam
  let readerwriterCfg ← ReaderWriterCfg.connectWithList param
  return ⟨param,aguCfg,readerwriterCfg⟩

/-- The registers of an extension host; without extensions it has none. -/
structure ExtensionHost (α : Type) where
  cfg : Option (α × List α)

def ExtensionHost.connectCfgWithList (extensionList : List DataPathExtensionParam) :
    StateT (List α) Option (ExtensionHost α) :=
  if extensionList.isEmpty then pure ⟨none⟩
  else do
    let enable ← takeHead
    let userCsr ← takeHeads (sumOf DataPathExtensionParam.userCsrNum extensionList)
    return ⟨some (enable,userCsr)⟩

/-! ### The streamer -/

def csrNumOf (params : List ReaderWriterParam) : Nat := sumOf ReaderWriterParam.csrNum params

def extensionCsrNum (extensionSeq : List DataPathExtensionParam) : Nat :=
  if extensionSeq.isEmpty then 0 else sumOf DataPathExtensionParam.userCsrNum extensionSeq + 1

/-- `get_extension_list_csr_num`. -/
def extensionListCsrNum (extensionSeqSeq : List (List DataPathExtensionParam)) : Nat :=
  sumOf extensionCsrNum extensionSeqSeq

def csrNumReadWrite (param : StreamerParam) : Nat :=
  csrNumOf param.readerParams + csrNumOf param.writerParams + csrNumOf param.readerWriterParams +
    extensionListCsrNum param.readerDatapathExtension +
    extensionListCsrNum param.writerDatapathExtension +
    extensionListCsrNum param.readerwriterDatapathExtension + param.delayedStartCount + 1

/-- The parameters that `reader_writer(i)` is built with. -/
def readerWriterModule (param : StreamerParam) (i : Nat) :
    Option (ReaderWriterParam × ReaderWriterParam) := do
  let readerParam ← param.readerWriterParams[i / 2]?
  let writerParam ← param.readerWriterParams[i / 2 + 1]?
  return (readerParam,writerParam)

/-- The parameters of the interface that serves the `i`-th entry. -/
def readerWriterInterface (param : StreamerParam) (i : Nat) : Option ReaderWriterParam :=
  if i % 2 = 0 then (readerWriterModule param (i / 2)).map Prod.fst
  else (readerWriterModule param (i / 2)).map Prod.snd

/-- The start wire of every mover, `none` where it is the global one, and the number of
delayed starts handed out so far. -/
def delayedStarts (base : Nat) : Nat → List ReaderWriterParam → List (Option Nat) × Nat
  | idx, [] => ([],idx)
  | idx, p :: ps =>
    if p.delayedStart then
      let (starts,last) := delayedStarts base (idx + 1) ps
      (some (base + idx) :: starts,last)
    else
      let (starts,last) := delayedStarts base idx ps
      (none :: starts,last)

structure StartWires where
  reader : List (Option Nat)
  writer : List (Option Nat)
  readerWriter : List (Option Nat)

def startWires (param : StreamerParam) (base : Nat) : StartWires × Nat :=
  let (reader,idx) := delayedStarts base 0 param.readerParams
  let (writer,idx) := delayedStarts base idx param.writerParams
  let (readerWriter,idx) := delayedStarts base idx param.readerWriterParams
  (⟨reader,writer,readerWriter⟩,idx)

/-- One kind of mover with its extension hosts and start wires, by index. -/
structure Group where
  mover : List (Mover Nat)
  extension : List (ExtensionHost Nat)
  start : List (Option Nat)

/-- The elaborated wiring; a register is its index among the read-write registers. -/
structure Hardware where
  reader : Group
  writer : Group
  readerWriter : Group
  remainingCSR : List Nat
  /-- The register whose write launches the configuration. -/
  launch : Nat

structure Wiring where
  reader : List (Mover Nat)
  writer : List (Mover Nat)
  readerWriter : List (Mover Nat)
  readerExtension : List (ExtensionHost Nat)
  writerExtension : List (ExtensionHost Nat)
  readerWriterExtension : List (ExtensionHost Nat)

def connectAll (param : StreamerParam) (interfaces : List ReaderWriterParam) :
    StateT (List Nat) Option Wiring := do
  let reader ← param.readerParams.mapM Mover.connectCfgWithList
  let writer ← param.writerParams.mapM Mover.connectCfgWithList
  let readerWriter ← interfaces.mapM Mover.connectCfgWithList
  let readerExtension ← param.readerDatapathExtension.mapM ExtensionHost.connectCfgWithList
  let writerExtension ← param.writerDatapathExtension.mapM ExtensionHost.connectCfgWithList
  let readerWriterExtension ←
    param.readerwriterDatapathExtension.mapM ExtensionHost.connectCfgWithList
  return ⟨reader,writer,readerWriter,readerExtension,writerExtension,readerWriterExtension⟩

def assemble (param : StreamerParam) (wiring : Wiring) (starts : StartWires) (remainingCSR : List Nat) :
    Hardware where
  reader := ⟨wiring.reader,wiring.readerExtension,starts.reader⟩
  writer := ⟨wiring.writer,wiring.writerExtension,starts.writer⟩
  readerWriter := ⟨wiring.readerWriter,wiring.readerWriterExtension,starts.readerWriter⟩
  remainingCSR := remainingCSR
  launch := csrNumReadWrite param - 1

/-- Elaboration, which fails where the generator indexes beyond a list or a `require` does. -/
def elaborate (param : StreamerParam) : Option Hardware := do
  let interfaces ← (List.range param.readerWriterNum).mapM (readerWriterInterface param)
  let (wiring,remainingCSR) ← connectAll param interfaces (List.range (csrNumReadWrite param))
  let (starts,idx) := startWires param (csrNumReadWrite param - (param.delayedStartCount + 1))
  guard (idx = param.delayedStartCount)
  guard (remainingCSR.length = param.delayedStartCount + 1)
  return assemble param wiring starts remainingCSR

/-! ### Names -/

inductive Tag
  | reader (i : Nat)
  | writer (i : Nat)
  | readerWriter (i : Nat)
  deriving DecidableEq

inductive MoverField
  | ptrLow
  | ptrHigh
  | spatialStrides
  | temporalBounds
  | temporalStrides
  | addressRemapIndex
  | enabledChannel
  | enabledByte
  deriving DecidableEq

inductive Field
  | mover (tag : Tag) (field : MoverField)
  | extension (tag : Tag)
  | delayedStart (tag : Tag)
  | start
  deriving DecidableEq

def Mover.registers (m : Mover α) : MoverField → Option (List α)
  | .ptrLow => some [m.aguCfg.ptrLow]
  | .ptrHigh => some [m.aguCfg.ptrHigh]
  | .spatialStrides => some m.aguCfg.spatialStrides
  | .temporalBounds => some m.aguCfg.temporalBounds
  | .temporalStrides => some m.aguCfg.temporalStrides
  | .addressRemapIndex => m.aguCfg.addressRemapIndex.map ([·])
  | .enabledChannel => m.readerwriterCfg.enabledChannel
  | .enabledByte => m.readerwriterCfg.enabledByte.map ([·])

def ExtensionHost.registers (e : ExtensionHost α) : Option (List α) :=
  e.cfg.map fun cfg => cfg.1 :: cfg.2

def Hardware.locate (hw : Hardware) : Tag → Group × Nat
  | .reader i => (hw.reader,i)
  | .writer i => (hw.writer,i)
  | .readerWriter i => (hw.readerWriter,i)

/-- The registers that the hardware slices into a field, in the order of the slice. -/
def Hardware.registers (hw : Hardware) : Field → Option (List Nat)
  | .mover tag field => do
    let mover ← (hw.locate tag).1.mover[(hw.locate tag).2]?
    mover.registers field
  | .extension tag => do
    let host ← (hw.locate tag).1.extension[(hw.locate tag).2]?
    host.registers
  | .delayedStart tag => do
    let start ← (hw.locate tag).1.start[(hw.locate tag).2]?
    start.map ([·])
  | .start => some [hw.launch]

/-! ### The fields in the order of the registers -/

def moverLayout (param : ReaderWriterParam) : List (MoverField × Nat) :=
  [(.ptrLow,1),(.ptrHigh,1),(.spatialStrides,param.spatialBounds.length),
    (.temporalBounds,param.temporalDimension),(.temporalStrides,param.temporalDimension)] ++
  ((if param.tcdmLogicWordSize.length > 1 then [(.addressRemapIndex,1)] else []) ++
  ((if param.configurableChannel then [(.enabledChannel,param.enabledChannelCSRNum)] else []) ++
  (if param.configurableByteMask then [(.enabledByte,1)] else [])))

def Mover.slices (m : Mover α) : List (MoverField × List α) :=
  [MoverField.ptrLow,.ptrHigh,.spatialStrides,.temporalBounds,.temporalStrides,.addressRemapIndex,
    .enabledChannel,.enabledByte].filterMap fun field => (m.registers field).map fun rs => (field,rs)

theorem total_moverLayout (param : ReaderWriterParam) : total (moverLayout param) = param.csrNum := by
  unfold moverLayout ReaderWriterParam.csrNum ReaderWriterParam.enabledChannelCSRNum
  split <;> split <;> split <;> simp [total,sumOf] <;> omega

theorem takeHead_run (rs : List α) (long : 1 ≤ rs.length) :
    ∃ r, takeHead rs = some (r,rs.drop 1) ∧ [r] = rs.take 1 := by
  cases rs with
  | nil => simp at long
  | cons r rest => exact ⟨r,rfl,rfl⟩

theorem takeHeads_run (n : Nat) (rs : List α) (long : n ≤ rs.length) :
    ∃ front, takeHeads n rs = some (front,rs.drop n) ∧ front = rs.take n := by
  refine ⟨_,?_,rfl⟩
  induction n generalizing rs with
  | zero => rfl
  | succ n ih =>
    cases rs with
    | nil => simp at long
    | cons r rest =>
      change (do let front ← takeHeads n rest; pure (r :: front.1,front.2) : Option _) = _
      rw [ih rest (by simpa using long)]
      rfl

theorem takeWords_run (n : Nat) (some_words : 0 < n) (rs : List α) (long : n ≤ rs.length) :
    ∃ front, takeWords n rs = some (front,rs.drop n) ∧ front = rs.take n := by
  refine ⟨_,?_,rfl⟩
  have words : (rs.take n).isEmpty = false := by
    rw [List.isEmpty_eq_false_iff,← List.length_pos_iff,List.length_take]
    omega
  simp [takeWords,words]

/-- A data mover slices exactly the registers that `csrNum` counts, field by field. -/
theorem mover_connects (param : ReaderWriterParam) (channels : 0 < param.numChannel) :
    Connects [] (Mover.connectCfgWithList (α := α) param) (moverLayout param) Mover.slices := by
  have words : param.configurableChannel = true → 0 < param.enabledChannelCSRNum := by
    intro configurable
    rw [ReaderWriterParam.enabledChannelCSRNum,if_pos configurable]
    omega
  simp only [Mover.connectCfgWithList,AguCfg.connectWithList,ReaderWriterCfg.connectWithList,bind_assoc,
    pure_bind]
  rw [moverLayout,← List.append_nil (if param.configurableByteMask then _ else _)]
  refine .step (fun r => [r]) takeHead_run fun ptrLow => ?_
  refine .step (fun r => [r]) takeHead_run fun ptrHigh => ?_
  refine .step id (takeHeads_run _) fun spatialStrides => ?_
  refine .step id (takeHeads_run _) fun temporalBounds => ?_
  refine .step id (takeHeads_run _) fun temporalStrides => ?_
  refine .optional (param.tcdmLogicWordSize.length > 1) (fun r => [r]) (fun _ => takeHead_run)
    fun addressRemapIndex => ?_
  refine .optional (param.configurableChannel = true) id (fun present => takeWords_run _ (words present))
    fun enabledChannel => ?_
  refine .optional (param.configurableByteMask = true) (fun r => [r]) (fun _ => takeHead_run)
    fun enabledByte => ?_
  apply Connects.done
  cases addressRemapIndex <;> cases enabledChannel <;> cases enabledByte <;>
    simp [Mover.slices,Mover.registers]

def extensionLayout (tag : Tag) (extensionList : List DataPathExtensionParam) : List (Field × Nat) :=
  if extensionList.isEmpty then []
  else [(.extension tag,sumOf DataPathExtensionParam.userCsrNum extensionList + 1)]

def delayedStartLayout (tag : Tag) (param : ReaderWriterParam) : List (Field × Nat) :=
  if param.delayedStart then [(.delayedStart tag,1)] else []

def moversLayout (tag : Nat → Tag) (params : List ReaderWriterParam) : List (Field × Nat) :=
  layoutOf (fun i p => (moverLayout p).map fun x => (.mover (tag i) x.1,x.2)) 0 params

def extensionsLayout (tag : Nat → Tag) (extensions : List (List DataPathExtensionParam)) :
    List (Field × Nat) := layoutOf (fun i => extensionLayout (tag i)) 0 extensions

def startsLayout (tag : Nat → Tag) (params : List ReaderWriterParam) : List (Field × Nat) :=
  layoutOf (fun i => delayedStartLayout (tag i)) 0 params

/-- The fields that the chain slices off. -/
def chainLayout (param : StreamerParam) : List (Field × Nat) :=
  moversLayout .reader param.readerParams ++ (moversLayout .writer param.writerParams ++
    (moversLayout .readerWriter param.readerWriterParams ++
      (extensionsLayout .reader param.readerDatapathExtension ++
        (extensionsLayout .writer param.writerDatapathExtension ++
          extensionsLayout .readerWriter param.readerwriterDatapathExtension))))

/-- The start registers, the last of them the launch. -/
def startLayout (param : StreamerParam) : List (Field × Nat) :=
  startsLayout .reader param.readerParams ++ (startsLayout .writer param.writerParams ++
    (startsLayout .readerWriter param.readerWriterParams ++ [(.start,1)]))

def csrLayout (param : StreamerParam) : List (Field × Nat) := chainLayout param ++ startLayout param

def moverSlices (tag : Nat → Tag) (movers : List (Mover α)) : List (Field × List α) :=
  movers.zipIdx.flatMap fun m => m.1.slices.map fun x => (.mover (tag m.2) x.1,x.2)

def extensionSlices (tag : Nat → Tag) (hosts : List (ExtensionHost α)) : List (Field × List α) :=
  hosts.zipIdx.flatMap fun e => e.1.registers.toList.map fun rs => (.extension (tag e.2),rs)

def startSlices (tag : Nat → Tag) (starts : List (Option α)) : List (Field × List α) :=
  starts.zipIdx.flatMap fun s => s.1.toList.map fun r => (.delayedStart (tag s.2),[r])

def Wiring.slices (w : Wiring) : List (Field × List Nat) :=
  moverSlices .reader w.reader ++ (moverSlices .writer w.writer ++
    (moverSlices .readerWriter w.readerWriter ++ (extensionSlices .reader w.readerExtension ++
      (extensionSlices .writer w.writerExtension ++
        extensionSlices .readerWriter w.readerWriterExtension))))

theorem movers_connect (tag : Nat → Tag) (params : List ReaderWriterParam)
    (channels : ∀ p ∈ params, 0 < p.numChannel) :
    Connects [] (params.mapM (Mover.connectCfgWithList (α := α))) (moversLayout tag params)
      (moverSlices tag) :=
  Connects.mapM params (fun i p inside => (mover_connects p (channels p inside)).rename (Field.mover (tag i))) 0

theorem extension_connects (tag : Tag) (extensionList : List DataPathExtensionParam) :
    Connects [] (ExtensionHost.connectCfgWithList (α := α) extensionList)
      (extensionLayout tag extensionList)
      (fun host => host.registers.toList.map fun rs => (.extension tag,rs)) := by
  unfold ExtensionHost.connectCfgWithList extensionLayout
  split
  · exact .done rfl
  · intro rs long
    obtain ⟨enable,rest,rfl⟩ : ∃ enable rest, rs = enable :: rest := by
      cases rs with
      | nil => simp [total,sumOf] at long
      | cons enable rest => exact ⟨enable,rest,rfl⟩
    obtain ⟨userCsr,run,same⟩ := takeHeads_run _ rest
      (show sumOf DataPathExtensionParam.userCsrNum extensionList ≤ _ by simpa [total,sumOf] using long)
    refine ⟨⟨some (enable,userCsr)⟩,?_,?_⟩
    · change (takeHeads _ rest).bind (fun x => some (ExtensionHost.mk (some (enable,x.1)),x.2)) = _
      rw [run]
      simp [total,sumOf]
    · simp [ExtensionHost.registers,cut,same]

theorem extensions_connect (tag : Nat → Tag) (extensions : List (List DataPathExtensionParam)) :
    Connects [] (extensions.mapM (ExtensionHost.connectCfgWithList (α := α)))
      (extensionsLayout tag extensions) (extensionSlices tag) :=
  Connects.mapM extensions (fun i e _ => extension_connects (tag i) e) 0

theorem numChannel_pos (param : StreamerParam) {p : ReaderWriterParam}
    (member : p ∈ param.readerParams ++ param.writerParams ++ param.readerWriterParams) :
    0 < p.numChannel := by
  rw [← (param.unrolled p member).2]
  exact List.prod_pos_iff_forall_pos_nat.mpr p.spatialPositive

/-- The chain slices the fields in the order of the layout. -/
theorem connectAll_connects (param : StreamerParam) :
    Connects [] (connectAll param param.readerWriterParams) (chainLayout param) Wiring.slices := by
  unfold connectAll chainLayout
  refine .bind (movers_connect _ _ fun p h => numChannel_pos param (by simp [h])) fun reader => ?_
  refine .bind (movers_connect _ _ fun p h => numChannel_pos param (by simp [h])) fun writer => ?_
  refine .bind (movers_connect _ _ fun p h => numChannel_pos param (by simp [h])) fun readerWriter => ?_
  refine .bind (extensions_connect _ _) fun readerExtension => ?_
  refine .bind (extensions_connect _ _) fun writerExtension => ?_
  rw [← List.append_nil (extensionsLayout .readerWriter _)]
  refine .bind (extensions_connect _ _) fun readerWriterExtension => ?_
  exact .done (by simp [Wiring.slices])

def Hardware.slices (hw : Hardware) : List (Field × List Nat) :=
  (moverSlices .reader hw.reader.mover ++ (moverSlices .writer hw.writer.mover ++
    (moverSlices .readerWriter hw.readerWriter.mover ++ (extensionSlices .reader hw.reader.extension ++
      (extensionSlices .writer hw.writer.extension ++
        extensionSlices .readerWriter hw.readerWriter.extension))))) ++
  (startSlices .reader hw.reader.start ++ (startSlices .writer hw.writer.start ++
    (startSlices .readerWriter hw.readerWriter.start ++ [(.start,[hw.launch])])))

/-- A span as the run of its addresses. -/
def addresses (x : Field × Nat × Nat) : Field × List Nat := (x.1,List.range' x.2.1 x.2.2)

theorem total_moversLayout (tag : Nat → Tag) (params : List ReaderWriterParam) :
    total (moversLayout tag params) = csrNumOf params :=
  total_layoutOf _ _ (fun _ p => (total_rename _ _).trans (total_moverLayout p)) 0 params

theorem total_extensionLayout (tag : Tag) (extensionList : List DataPathExtensionParam) :
    total (extensionLayout tag extensionList) = extensionCsrNum extensionList := by
  unfold extensionLayout extensionCsrNum
  split <;> rfl

theorem total_extensionsLayout (tag : Nat → Tag) (extensions : List (List DataPathExtensionParam)) :
    total (extensionsLayout tag extensions) = extensionListCsrNum extensions :=
  total_layoutOf _ _ (fun i e => total_extensionLayout (tag i) e) 0 extensions

theorem sumOf_delayedStart (params : List ReaderWriterParam) :
    sumOf (fun p => if p.delayedStart then 1 else 0) params = params.countP (·.delayedStart) := by
  induction params with
  | nil => rfl
  | cons p params ih =>
    rw [sumOf,ih,List.countP_cons]
    exact Nat.add_comm _ _

theorem total_startsLayout (tag : Nat → Tag) (params : List ReaderWriterParam) :
    total (startsLayout tag params) = params.countP (·.delayedStart) := by
  rw [startsLayout,total_layoutOf _ (fun p => if p.delayedStart then 1 else 0),sumOf_delayedStart]
  intro i p
  unfold delayedStartLayout
  split <;> rfl

theorem total_startLayout (param : StreamerParam) :
    total (startLayout param) = param.delayedStartCount + 1 := by
  simp only [startLayout,total_append,total_startsLayout,StreamerParam.delayedStartCount]
  simp [total,sumOf]
  omega

/-- `csrNum` counts the registers of the layout. -/
theorem total_csrLayout (param : StreamerParam) :
    total (csrLayout param) = csrNumReadWrite param := by
  rw [csrLayout,total_append,total_startLayout]
  simp only [chainLayout,total_append,total_moversLayout,total_extensionsLayout,csrNumReadWrite]
  omega

/-- Delayed start wires are handed out to the movers in turn. -/
theorem delayedStarts_slices (tag : Nat → Tag) (base idx i : Nat) (params : List ReaderWriterParam) :
    (delayedStarts base idx params).2 = idx + params.countP (·.delayedStart) ∧
    ((delayedStarts base idx params).1.zipIdx i).flatMap
        (fun s => s.1.toList.map fun r => (Field.delayedStart (tag s.2),[r])) =
      (spans (base + idx) (layoutOf (fun i => delayedStartLayout (tag i)) i params)).map addresses := by
  induction params generalizing idx i with
  | nil => exact ⟨rfl,rfl⟩
  | cons p params ih =>
    have split : layoutOf (fun i => delayedStartLayout (tag i)) i (p :: params) =
        delayedStartLayout (tag i) p ++ layoutOf (fun i => delayedStartLayout (tag i)) (i + 1) params := by
      simp [layoutOf,List.zipIdx_cons]
    rw [split,spans_append,List.map_append]
    cases delayed : p.delayedStart with
    | true =>
      obtain ⟨count,rest⟩ := ih (idx + 1) (i + 1)
      rw [delayedStarts,if_pos delayed]
      refine ⟨by rw [count,List.countP_cons,if_pos delayed]; omega,?_⟩
      have size : total (delayedStartLayout (tag i) p) = 1 := by simp [delayedStartLayout,delayed,total,sumOf]
      rw [size,Nat.add_assoc,← rest]
      simp [delayedStartLayout,delayed,spans,addresses,List.zipIdx_cons]
    | false =>
      obtain ⟨count,rest⟩ := ih idx (i + 1)
      rw [delayedStarts,if_neg (by simp [delayed])]
      refine ⟨by simp [count,delayed],?_⟩
      have size : total (delayedStartLayout (tag i) p) = 0 := by simp [delayedStartLayout,delayed,total,sumOf]
      rw [size,Nat.add_zero,← rest]
      simp [delayedStartLayout,delayed,spans,List.zipIdx_cons]

theorem startWires_slices (param : StreamerParam) (base : Nat) :
    (startWires param base).2 = param.delayedStartCount ∧
    startSlices .reader (startWires param base).1.reader ++
      (startSlices .writer (startWires param base).1.writer ++
        (startSlices .readerWriter (startWires param base).1.readerWriter ++
          [(.start,[base + param.delayedStartCount])])) =
      (spans base (startLayout param)).map addresses := by
  obtain ⟨readers,readerSlices⟩ := delayedStarts_slices .reader base 0 0 param.readerParams
  obtain ⟨writers,writerSlices⟩ := delayedStarts_slices .writer base
    (delayedStarts base 0 param.readerParams).2 0 param.writerParams
  obtain ⟨readerWriters,readerWriterSlices⟩ := delayedStarts_slices .readerWriter base
    (delayedStarts base (delayedStarts base 0 param.readerParams).2 param.writerParams).2 0
    param.readerWriterParams
  rw [Nat.zero_add] at readers
  have count : (startWires param base).2 = param.delayedStartCount := by
    rw [StreamerParam.delayedStartCount,← readers,← writers,← readerWriters]
    rfl
  have first : startSlices .reader (startWires param base).1.reader =
      (spans base (startsLayout .reader param.readerParams)).map addresses := readerSlices
  have second : startSlices .writer (startWires param base).1.writer =
      (spans (base + param.readerParams.countP (·.delayedStart))
        (startsLayout .writer param.writerParams)).map addresses := by
    rw [← readers]
    exact writerSlices
  have third : startSlices .readerWriter (startWires param base).1.readerWriter =
      (spans (base + (param.readerParams.countP (·.delayedStart) +
        param.writerParams.countP (·.delayedStart)))
        (startsLayout .readerWriter param.readerWriterParams)).map addresses := by
    rw [← readers,← writers]
    exact readerWriterSlices
  refine ⟨count,?_⟩
  rw [first,second,third]
  simp only [startLayout,spans_append,List.map_append,total_startsLayout,StreamerParam.delayedStartCount,
    Nat.add_assoc]
  rfl

theorem startSlices_registers (tag : Nat → Tag) (starts : List (Option α)) :
    (startSlices tag starts).flatMap Prod.snd = starts.filterMap id := by
  have from_index (i : Nat) : ((starts.zipIdx i).flatMap fun s =>
      s.1.toList.map fun r => (Field.delayedStart (tag s.2),[r])).flatMap Prod.snd =
      starts.filterMap id := by
    induction starts generalizing i with
    | nil => rfl
    | cons start starts ih =>
      rw [List.zipIdx_cons,List.flatMap_cons,List.flatMap_append,ih]
      cases start <;> simp
  exact from_index 0

/-- The registers that start something: the delayed starts and the launch. -/
def Hardware.startRegisters (hw : Hardware) : List Nat :=
  (hw.reader.start ++ (hw.writer.start ++ hw.readerWriter.start)).filterMap id ++ [hw.launch]

/-- With every interface built from its own entry, elaboration succeeds and wires the
registers as the layout says. -/
theorem elaborate_layout (param : StreamerParam)
    (own : (List.range param.readerWriterNum).mapM (readerWriterInterface param) =
      some param.readerWriterParams) :
    ∃ hw, elaborate param = some hw ∧ hw.slices = (spans 0 (csrLayout param)).map addresses ∧
      hw.remainingCSR = hw.startRegisters := by
  have whole := total_csrLayout param
  rw [csrLayout,total_append,total_startLayout] at whole
  obtain ⟨wiring,run,sliced⟩ := connectAll_connects param (List.range (csrNumReadWrite param))
    (by rw [List.length_range]; omega)
  rw [List.range_eq_range',List.nil_append,cut_range' _ _ _ (by omega)] at sliced
  have base : csrNumReadWrite param - (param.delayedStartCount + 1) = total (chainLayout param) := by omega
  have left : (List.range (csrNumReadWrite param)).drop (total (chainLayout param)) =
      List.range' (total (chainLayout param)) (param.delayedStartCount + 1) := by
    rw [List.range_eq_range',List.drop_range',Nat.mul_one,Nat.zero_add]
    congr 1
    omega
  obtain ⟨count,starts⟩ := startWires_slices param (total (chainLayout param))
  have last : total (chainLayout param) + param.delayedStartCount = csrNumReadWrite param - 1 := by omega
  rw [left] at run
  rw [last] at starts
  refine ⟨assemble param wiring (startWires param (total (chainLayout param))).1
    (List.range' (total (chainLayout param)) (param.delayedStartCount + 1)),?_,?_,?_⟩
  · simp only [elaborate,own,run,base,count,Option.bind_eq_bind,Option.bind_some,List.length_range',
      guard_true]
    rfl
  · rw [Hardware.slices,csrLayout,spans_append,List.map_append,Nat.zero_add,← starts]
    exact congrArg (· ++ _) sliced
  · have registers := congrArg (List.flatMap Prod.snd) starts
    have covered := spans_flatten (total (chainLayout param)) (startLayout param)
    rw [total_startLayout] at covered
    simp only [List.flatMap_append,startSlices_registers,List.flatMap_map,addresses,covered] at registers
    change List.range' _ _ = _
    rw [← registers,Hardware.startRegisters,List.filterMap_append,List.filterMap_append]
    simp [assemble]

theorem mem_mover_slices (m : Mover α) (field : MoverField) (rs : List α) :
    (field,rs) ∈ m.slices ↔ m.registers field = some rs := by
  rw [Mover.slices,List.mem_filterMap]
  constructor
  · rintro ⟨other,_,sliced⟩
    obtain ⟨qs,held,same⟩ := Option.map_eq_some_iff.mp sliced
    obtain ⟨rfl,rfl⟩ := Prod.mk.inj same
    exact held
  · intro held
    refine ⟨field,?_,by rw [held]; rfl⟩
    cases field <;> simp

theorem mem_moverSlices (tag : Nat → Tag) (movers : List (Mover α)) (f : Field) (rs : List α) :
    (f,rs) ∈ moverSlices tag movers ↔ ∃ i field, f = .mover (tag i) field ∧
      (movers[i]?.bind fun m => m.registers field) = some rs := by
  simp only [moverSlices,List.mem_flatMap,List.mem_map,Prod.exists,Prod.mk.injEq,
    List.mem_zipIdx_iff_getElem?,mem_mover_slices,Option.bind_eq_some_iff]
  constructor
  · rintro ⟨m,i,at_,field,qs,held,rfl,rfl⟩
    exact ⟨i,field,rfl,m,at_,held⟩
  · rintro ⟨i,field,rfl,m,at_,held⟩
    exact ⟨m,i,at_,field,rs,held,rfl,rfl⟩

theorem mem_extensionSlices (tag : Nat → Tag) (hosts : List (ExtensionHost α)) (f : Field) (rs : List α) :
    (f,rs) ∈ extensionSlices tag hosts ↔ ∃ i, f = .extension (tag i) ∧
      (hosts[i]?.bind ExtensionHost.registers) = some rs := by
  simp only [extensionSlices,List.mem_flatMap,List.mem_map,Prod.exists,Prod.mk.injEq,
    List.mem_zipIdx_iff_getElem?,Option.mem_toList,Option.bind_eq_some_iff]
  constructor
  · rintro ⟨host,i,at_,qs,held,rfl,rfl⟩
    exact ⟨i,rfl,host,at_,held⟩
  · rintro ⟨i,rfl,host,at_,held⟩
    exact ⟨host,i,at_,rs,held,rfl,rfl⟩

theorem mem_startSlices (tag : Nat → Tag) (starts : List (Option α)) (f : Field) (rs : List α) :
    (f,rs) ∈ startSlices tag starts ↔ ∃ i, f = .delayedStart (tag i) ∧
      (starts[i]?.bind fun start => start.map ([·])) = some rs := by
  simp only [startSlices,List.mem_flatMap,List.mem_map,Prod.exists,Prod.mk.injEq,
    List.mem_zipIdx_iff_getElem?,Option.mem_toList,Option.bind_eq_some_iff,Option.map_eq_some_iff]
  constructor
  · rintro ⟨start,i,at_,r,held,rfl,rfl⟩
    exact ⟨i,rfl,start,at_,r,held,rfl⟩
  · rintro ⟨i,rfl,start,at_,r,held,rfl⟩
    exact ⟨start,i,at_,r,held,rfl,rfl⟩

/-- The list of slices holds the registers of every field, once. -/
theorem mem_slices_iff (hw : Hardware) (f : Field) (rs : List Nat) :
    (f,rs) ∈ hw.slices ↔ hw.registers f = some rs := by
  simp only [Hardware.slices,List.mem_append,mem_moverSlices,mem_extensionSlices,mem_startSlices,
    List.mem_singleton,Prod.mk.injEq]
  cases f with
  | mover tag field => cases tag <;> simp [Hardware.registers,Hardware.locate]
  | extension tag => cases tag <;> simp [Hardware.registers,Hardware.locate]
  | delayedStart tag => cases tag <;> simp [Hardware.registers,Hardware.locate]
  | start => simp [Hardware.registers,eq_comm]

theorem connect_param {param : ReaderWriterParam} {rs : List α} {m : Mover α} {rest : List α}
    (run : Mover.connectCfgWithList param rs = some (m,rest)) : m.param = param := by
  obtain ⟨aguCfg,_,run⟩ := Option.bind_eq_some_iff.mp run
  obtain ⟨readerwriterCfg,_,run⟩ := Option.bind_eq_some_iff.mp run
  obtain ⟨rfl,_⟩ := Prod.mk.inj (Option.some.inj run)
  rfl

theorem connects_params {params : List ReaderWriterParam} {rs : List α} {movers : List (Mover α)}
    {rest : List α} (run : params.mapM Mover.connectCfgWithList rs = some (movers,rest)) :
    movers.map Mover.param = params := by
  induction params generalizing rs movers rest with
  | nil =>
    obtain ⟨rfl,_⟩ := Prod.mk.inj (Option.some.inj run)
    rfl
  | cons p params ih =>
    rw [List.mapM_cons] at run
    obtain ⟨⟨m,middle⟩,first,run⟩ := Option.bind_eq_some_iff.mp run
    obtain ⟨⟨others,last⟩,later,run⟩ := Option.bind_eq_some_iff.mp run
    obtain ⟨rfl,_⟩ := Prod.mk.inj (Option.some.inj run)
    rw [List.map_cons,connect_param first,ih later]

/-- Every mover keeps the parameters it was built with. -/
theorem elaborate_params {param : StreamerParam} {hw : Hardware} (built : elaborate param = some hw) :
    hw.reader.mover.map Mover.param = param.readerParams ∧
    hw.writer.mover.map Mover.param = param.writerParams ∧
    (List.range param.readerWriterNum).mapM (readerWriterInterface param) =
      some (hw.readerWriter.mover.map Mover.param) := by
  obtain ⟨interfaces,own,built⟩ := Option.bind_eq_some_iff.mp built
  obtain ⟨⟨wiring,remainingCSR⟩,run,built⟩ := Option.bind_eq_some_iff.mp built
  obtain ⟨_,_,built⟩ := Option.bind_eq_some_iff.mp built
  obtain ⟨_,_,built⟩ := Option.bind_eq_some_iff.mp built
  obtain rfl := Option.some.inj built
  obtain ⟨reader,readers,run⟩ := Option.bind_eq_some_iff.mp run
  obtain ⟨writer,writers,run⟩ := Option.bind_eq_some_iff.mp run
  obtain ⟨readerWriter,readerWriters,run⟩ := Option.bind_eq_some_iff.mp run
  obtain ⟨_,_,run⟩ := Option.bind_eq_some_iff.mp run
  obtain ⟨_,_,run⟩ := Option.bind_eq_some_iff.mp run
  obtain ⟨_,_,run⟩ := Option.bind_eq_some_iff.mp run
  obtain ⟨rfl,_⟩ := Prod.mk.inj (Option.some.inj run)
  refine ⟨connects_params readers,connects_params writers,?_⟩
  rw [own]
  exact congrArg some (connects_params readerWriters).symm

end Snax.Streamer
