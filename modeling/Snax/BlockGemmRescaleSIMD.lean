import Snax.BlockGemm
import Snax.ParallelSerialConverter
import Snax.PipelinedRescaleSIMD

/-! `gemmx/BlockGemmRescaleSIMD.scala`: the matrix core and a rescale unit, with converters
between their words and the serial ports. The configuration handshake of the core restarts the
converters, also when the last word of the task before is still on its way through them. -/
namespace Snax

open Sync

/-- `withPipeline` selects the unit. -/
inductive RescaleSIMDUnit
  | plain (p : RescaleSIMDParams)
  | pipelined (p : PipelinedRescaleSIMDParams)

namespace RescaleSIMDUnit

def params : RescaleSIMDUnit → RescaleSIMDParams
  | plain p => p
  | pipelined p => p.toRescaleSIMDParams

def State : RescaleSIMDUnit → Type
  | plain p => RescaleSIMD.State p
  | pipelined p => PipelinedRescaleSIMD.State p

abbrev Input (u : RescaleSIMDUnit) := RescaleSIMD.Input u.params

abbrev Output (u : RescaleSIMDUnit) := RescaleSIMD.Output u.params

/-- A word on `io.data.input_i` and one on `io.data.output_o`, as vectors of elements. -/
abbrev WordIn (u : RescaleSIMDUnit) := Vector (BitVec u.params.inputType) u.params.dataLen

abbrev WordOut (u : RescaleSIMDUnit) := Vector (BitVec u.params.outputType) u.params.dataLen

def next : (u : RescaleSIMDUnit) → u.State → u.Input → u.State
  | plain _ => RescaleSIMD.next
  | pipelined _ => PipelinedRescaleSIMD.next

def out : (u : RescaleSIMDUnit) → u.State → u.Input → u.Output
  | plain _ => RescaleSIMD.out
  | pipelined _ => PipelinedRescaleSIMD.out

def inReady : (u : RescaleSIMDUnit) → u.State → u.Input → Bool
  | plain _ => fun s i => s.cut.inReady (RescaleSIMD.cutReady s i)
  | pipelined _ => fun s _ => PipelinedRescaleSIMD.inputReady s

/-- `io.data.output_o`, valid when it is `some`. -/
def dataOut : (u : RescaleSIMDUnit) → u.State → Option u.WordOut
  | plain _ => RescaleSIMD.dataOut
  | pipelined _ => PipelinedRescaleSIMD.dataOut

def initial : (u : RescaleSIMDUnit) → CtrlCsr u.params → u.State
  | plain _ => RescaleSIMD.initial
  | pipelined _ => PipelinedRescaleSIMD.initial

theorem out_accepted (u : RescaleSIMDUnit) (s : u.State) (i : u.Input) :
    (u.out s i).accepted = if u.inReady s i then i.data else none := by
  cases u <;> rfl

theorem out_emitted (u : RescaleSIMDUnit) (s : u.State) (i : u.Input) :
    (u.out s i).emitted = if i.outReady then u.dataOut s else none := by
  cases u <;> rfl

end RescaleSIMDUnit

/-- The proof fields are what the converters need in order to elaborate. -/
structure BlockGemmRescaleSIMDParams where
  gemmParams : GemmParams
  simd : RescaleSIMDUnit
  c32D32Width : Nat
  d8Width : Nat
  c32D32Positive : 0 < c32D32Width
  c32D32Wide : c32D32Width ≤ gemmParams.dataWidthC * gemmParams.meshRow * gemmParams.meshCol
  c32D32Whole : c32D32Width < gemmParams.dataWidthC * gemmParams.meshRow * gemmParams.meshCol →
    gemmParams.dataWidthC * gemmParams.meshRow * gemmParams.meshCol % c32D32Width = 0
  d8Positive : 0 < d8Width
  d8Wide : d8Width ≤ simd.params.dataLen * simd.params.outputType
  d8Whole : d8Width < simd.params.dataLen * simd.params.outputType →
    simd.params.dataLen * simd.params.outputType % d8Width = 0

theorem no_early_termination {l : List Nat} {q : Nat → Prop} :
    false = true → l ≠ [] ∧ ∀ f ∈ l, q f := nofun

namespace BlockGemmRescaleSIMDParams

variable (p : BlockGemmRescaleSIMDParams)

@[reducible] def c32D32 : ParallelAndSerialConverterParams where
  parallelWidth := p.gemmParams.dataWidthC * p.gemmParams.meshRow * p.gemmParams.meshCol
  serialWidth := p.c32D32Width
  earlyTerminate := false
  allowedTerminateFactors := []
  serialPositive := p.c32D32Positive
  wide := p.c32D32Wide
  whole := p.c32D32Whole
  allowed := no_early_termination

@[reducible] def d8 : ParallelAndSerialConverterParams where
  parallelWidth := p.simd.params.dataLen * p.simd.params.outputType
  serialWidth := p.d8Width
  earlyTerminate := false
  allowedTerminateFactors := []
  serialPositive := p.d8Positive
  wide := p.d8Wide
  whole := p.d8Whole
  allowed := no_early_termination

end BlockGemmRescaleSIMDParams

namespace BlockGemmRescaleSIMD

variable {p : BlockGemmRescaleSIMDParams}

structure State (p : BlockGemmRescaleSIMDParams) where
  gemm : BlockGemm.State p.gemmParams
  simd : p.simd.State
  c32S2p : SerialToParallel.State p.c32D32
  d32P2s : ParallelToSerial.State p.c32D32
  d8P2s : ParallelToSerial.State p.d8

/-- The data inputs are valid when they are `some`. -/
structure Input (p : BlockGemmRescaleSIMDParams) where
  gemmCtrl : BlockGemmCtrl
  gemmCtrlValid : Bool
  simdCtrl : Vector (BitVec 32) p.simd.params.readWriteCsrNum
  simdCtrlValid : Bool
  bypassSIMD : Bool
  a : Option (GemmArray.WordA p.gemmParams)
  b : Option (GemmArray.WordB p.gemmParams)
  cSerial : Option p.c32D32.Chunk
  d32Ready : Bool
  d8Ready : Bool

/-- The handshakes of a cycle: those of the ports, and inside the tiles that the core and the
rescale unit take and hand out. -/
structure Output (p : BlockGemmRescaleSIMDParams) where
  bypassSIMD : Bool
  gemmConfig : Option BlockGemmCtrl
  simdConfig : Option (CtrlCsr p.simd.params)
  pair : Option (GemmArray.WordA p.gemmParams × GemmArray.WordB p.gemmParams)
  cSerial : Option p.c32D32.Chunk
  d32Serial : Option p.c32D32.Chunk
  d8Serial : Option p.d8.Chunk
  cTile : Option (GemmArray.WordC p.gemmParams)
  gemmTile : Option (GemmArray.WordC p.gemmParams)
  simdInput : Option p.simd.WordIn
  simdTile : Option p.simd.WordOut
  busy : Bool
  performanceCounter : BitVec 32

/-! ### Words of the units as words of the converters -/

def d32Word (tile : GemmArray.WordC p.gemmParams) : p.c32D32.Word := asUInt _ tile

def cTile (word : p.c32D32.Word) : GemmArray.WordC p.gemmParams := asVec _ _ _ word

def simdWord (tile : GemmArray.WordC p.gemmParams) : p.simd.WordIn :=
  Vector.ofFn fun k => element _ (asUInt (p.simd.params.dataLen * p.simd.params.inputType) tile) k.val

def d8Word (tile : p.simd.WordOut) : p.d8.Word := packed _ tile.get

/-! ### One cycle -/

/-- `io.ctrl.gemm_ctrl.fire`. -/
def start (s : State p) (i : Input p) : Bool := i.gemmCtrlValid && !s.gemm.busy

/-- `gemm.io.data.d_o`, valid when it is `some`. -/
def gemmOut (s : State p) : Option (GemmArray.WordC p.gemmParams) :=
  if BlockGemm.dValid s.gemm then some (GemmArray.dataOut s.gemm.array.accumulationReg) else none

/-- There is no port for the termination factor. -/
def d32Input (s : State p) (i : Input p) : ParallelToSerial.Input p.c32D32 where
  bits := if i.bypassSIMD then (gemmOut s).map d32Word else none
  terminateFactor := 0
  ready := i.d32Ready
  start := start s i

def d8Input (s : State p) (i : Input p) : ParallelToSerial.Input p.d8 where
  bits := if i.bypassSIMD then none else (p.simd.dataOut s.simd).map d8Word
  terminateFactor := 0
  ready := i.d8Ready
  start := start s i

/-- `io.in.ready` of a serializer. -/
def p2sReady {q : ParallelAndSerialConverterParams} (s : ParallelToSerial.State q) (ready : Bool) : Bool :=
  s.value == 0 && ready

def simdInput (s : State p) (i : Input p) : p.simd.Input where
  ctrl := i.simdCtrl
  ctrlValid := if i.bypassSIMD then false else i.simdCtrlValid
  data := if i.bypassSIMD then none else (gemmOut s).map simdWord
  outReady := if i.bypassSIMD then false else p2sReady s.d8P2s i.d8Ready

def gemmInput (s : State p) (i : Input p) : BlockGemm.Input p.gemmParams where
  ctrl := i.gemmCtrl
  ctrlValid := i.gemmCtrlValid
  a := i.a
  b := i.b
  c := (SerialToParallel.offered s.c32S2p).map cTile
  dReady :=
    if i.bypassSIMD then p2sReady s.d32P2s i.d32Ready else p.simd.inReady s.simd (simdInput s i)

/-- The word is taken when the core adds it. -/
def c32Input (s : State p) (i : Input p) : SerialToParallel.Input p.c32D32 where
  bits := i.cSerial
  terminateFactor := 0
  ready := s.gemm.busy && BlockGemm.addCFire s.gemm (gemmInput s i)
  start := start s i

def next (s : State p) (i : Input p) : State p where
  gemm := BlockGemm.next s.gemm (gemmInput s i)
  simd := p.simd.next s.simd (simdInput s i)
  c32S2p := SerialToParallel.next s.c32S2p (c32Input s i)
  d32P2s := ParallelToSerial.next s.d32P2s (d32Input s i)
  d8P2s := ParallelToSerial.next s.d8P2s (d8Input s i)

def busy (s : State p) (i : Input p) : Bool :=
  s.gemm.busy || (p.simd.out s.simd (simdInput s i)).busy ||
    (ParallelToSerial.offered s.d8P2s (d8Input s i)).isSome ||
    (ParallelToSerial.offered s.d32P2s (d32Input s i)).isSome

def out (s : State p) (i : Input p) : Output p where
  bypassSIMD := i.bypassSIMD
  gemmConfig := (BlockGemm.out s.gemm (gemmInput s i)).config
  simdConfig := (p.simd.out s.simd (simdInput s i)).config
  pair := BlockGemm.pair s.gemm (gemmInput s i)
  cSerial := SerialToParallel.accepted s.c32S2p (c32Input s i)
  d32Serial := ParallelToSerial.delivered s.d32P2s (d32Input s i)
  d8Serial := ParallelToSerial.delivered s.d8P2s (d8Input s i)
  cTile := BlockGemm.cFire s.gemm (gemmInput s i)
  gemmTile := BlockGemm.dFire s.gemm (gemmInput s i)
  simdInput := (p.simd.out s.simd (simdInput s i)).accepted
  simdTile := (p.simd.out s.simd (simdInput s i)).emitted
  busy := busy s i
  performanceCounter :=
    if i.bypassSIMD then s.gemm.performanceCounter
    else (p.simd.out s.simd (simdInput s i)).performanceCounter

/-- After reset; the registers behind the arguments have no reset value. -/
def initial (csr : CtrlCsr p.simd.params) (c32 : Fin p.c32D32.ratio → p.c32D32.Chunk)
    (d32 : Fin (p.c32D32.ratio - 1) → p.c32D32.Chunk) (d8 : Fin (p.d8.ratio - 1) → p.d8.Chunk) :
    State p :=
  ⟨BlockGemm.initial _,p.simd.initial csr,⟨c32,0,false,false⟩,⟨d32,0⟩,⟨d8,0⟩⟩

end BlockGemmRescaleSIMD

def blockGemmRescaleSIMD (p : BlockGemmRescaleSIMDParams) : Machine (BlockGemmRescaleSIMD.State p)
    (BlockGemmRescaleSIMD.Input p) (BlockGemmRescaleSIMD.Output p) where
  next := BlockGemmRescaleSIMD.next
  out := BlockGemmRescaleSIMD.out

namespace BlockGemmRescaleSIMD

variable {p : BlockGemmRescaleSIMDParams} {s : State p} {i : Input p}

/-! ### Who takes what -/

theorem accepted_eq {q : ParallelAndSerialConverterParams} (s : ParallelToSerial.State q)
    (i : ParallelToSerial.Input q) :
    ParallelToSerial.accepted s i = if p2sReady s i.ready then i.bits else none := by
  by_cases fresh : s.value = 0 <;> cases ready : i.ready <;>
    simp [ParallelToSerial.accepted,p2sReady,fresh,ready]

theorem gemmTile_eq : (out s i).gemmTile = if (gemmInput s i).dReady then gemmOut s else none := by
  change BlockGemm.dFire s.gemm (gemmInput s i) = _
  cases valid : BlockGemm.dValid s.gemm <;> cases ready : (gemmInput s i).dReady <;>
    simp [BlockGemm.dFire,gemmOut,valid,ready]

theorem d32_accepted : ParallelToSerial.accepted s.d32P2s (d32Input s i) =
    if i.bypassSIMD then (out s i).gemmTile.map d32Word else none := by
  rw [accepted_eq,gemmTile_eq]
  cases bypass : i.bypassSIMD with
  | false => simp [d32Input,bypass]
  | true =>
    simp only [d32Input,gemmInput,bypass,↓reduceIte]
    split <;> rfl

/-- Every tile that does not go to the serializer goes to the rescale unit. -/
theorem simd_accepted : (out s i).simdInput =
    if i.bypassSIMD then none else (out s i).gemmTile.map simdWord := by
  rw [gemmTile_eq]
  change (p.simd.out s.simd (simdInput s i)).accepted = _
  rw [RescaleSIMDUnit.out_accepted]
  cases bypass : i.bypassSIMD with
  | false =>
    simp only [gemmInput,bypass,Bool.false_eq_true,↓reduceIte]
    have data : (simdInput s i).data = (gemmOut s).map simdWord := by simp [simdInput,bypass]
    rw [data]
    split <;> rfl
  | true => simp [simdInput,bypass]

theorem d8_accepted :
    ParallelToSerial.accepted s.d8P2s (d8Input s i) = (out s i).simdTile.map d8Word := by
  change _ = (p.simd.out s.simd (simdInput s i)).emitted.map d8Word
  rw [accepted_eq,RescaleSIMDUnit.out_emitted]
  cases bypass : i.bypassSIMD with
  | false =>
    simp only [d8Input,simdInput,bypass,Bool.false_eq_true,↓reduceIte]
    split <;> rfl
  | true => simp [d8Input,simdInput,bypass]

theorem c32_delivered : (out s i).cTile =
    (SerialToParallel.delivered s.c32S2p (c32Input s i)).map cTile := by
  change BlockGemm.cFire s.gemm (gemmInput s i) = _
  rw [BlockGemm.cFire,SerialToParallel.delivered]
  cases taken : s.gemm.busy && BlockGemm.addCFire s.gemm (gemmInput s i) with
  | false =>
    have ready : (c32Input s i).ready = false := taken
    rw [ready]
    rfl
  | true =>
    have ready : (c32Input s i).ready = true := taken
    rw [ready]
    rfl

/-! ### Histories -/

def bypassTiles (history : List (Output p)) : List (GemmArray.WordC p.gemmParams) :=
  history.filterMap fun o => if o.bypassSIMD then o.gemmTile else none

def rescaledTiles (history : List (Output p)) : List (GemmArray.WordC p.gemmParams) :=
  history.filterMap fun o => if o.bypassSIMD then none else o.gemmTile

def simdInputs (history : List (Output p)) : List p.simd.WordIn := history.filterMap Output.simdInput

def simdTiles (history : List (Output p)) : List p.simd.WordOut := history.filterMap Output.simdTile

def cTiles (history : List (Output p)) : List (GemmArray.WordC p.gemmParams) :=
  history.filterMap Output.cTile

def cChunks (history : List (Output p)) : List p.c32D32.Chunk := history.filterMap Output.cSerial

def d32Chunks (history : List (Output p)) : List p.c32D32.Chunk := history.filterMap Output.d32Serial

def d8Chunks (history : List (Output p)) : List p.d8.Chunk := history.filterMap Output.d8Serial

/-- What came in stands in the converters or has gone out: the chunks of the tiles that the core
handed out past the rescale unit and of those that this unit handed out, the chunks of C as
tiles of the core, and the other tiles of the core as input of the rescale unit. -/
structure Sound (history : List (Output p)) (s : State p) : Prop where
  d32 : ParallelToSerial.Emits p.c32D32.ratio ((bypassTiles history).map d32Word) (d32Chunks history) s.d32P2s
  d8 : ParallelToSerial.Emits p.d8.ratio ((simdTiles history).map d8Word) (d8Chunks history) s.d8P2s
  c32 : ∃ words, words.map cTile = cTiles history ∧ SerialToParallel.Packs p.c32D32.ratio none
    (Grouping.of p.c32D32.ratio (cChunks history)) words s.c32S2p
  rescaled : simdInputs history = (rescaledTiles history).map simdWord

/-- Nothing is lost, and the chunks that are left are offered one after the other. -/
structure Lossless (history : List (Output p)) (s : State p) : Prop extends Sound history s where
  d32Next : ∀ i, ParallelToSerial.rest p.c32D32.ratio s.d32P2s ≠ [] → (out s i).d32Serial =
    if i.d32Ready then (ParallelToSerial.rest p.c32D32.ratio s.d32P2s).head? else none
  d8Next : ∀ i, ParallelToSerial.rest p.d8.ratio s.d8P2s ≠ [] → (out s i).d8Serial =
    if i.d8Ready then (ParallelToSerial.rest p.d8.ratio s.d8P2s).head? else none

/-- A configuration is accepted in a cycle only that leaves no tile partly sent or partly
collected. -/
def Clean (s : State p) (i : Input p) : Prop :=
  start s i = true → ParallelToSerial.Drained p.c32D32.ratio s.d32P2s (d32Input s i) ∧
    ParallelToSerial.Drained p.d8.ratio s.d8P2s (d8Input s i) ∧
    SerialToParallel.Drained p.c32D32.ratio s.c32S2p (c32Input s i)

instance (s : State p) (i : Input p) : Decidable (Clean s i) :=
  inferInstanceAs (Decidable (start s i = true → _))

/-- Some chunk is in none of the places where it could be. -/
structure Lacking (history : List (Output p)) (s : State p) : Prop where
  d32Below : s.d32P2s.value.toNat < p.c32D32.ratio
  d8Below : s.d8P2s.value.toNat < p.d8.ratio
  c32Below : s.c32S2p.value.toNat < p.c32D32.ratio
  some : ParallelToSerial.Lacks p.c32D32.ratio ((bypassTiles history).map d32Word) (d32Chunks history)
      s.d32P2s ∨
    ParallelToSerial.Lacks p.d8.ratio ((simdTiles history).map d8Word) (d8Chunks history) s.d8P2s ∨
    ∃ words, words.map cTile = cTiles history ∧
      SerialToParallel.Lacks p.c32D32.ratio (cChunks history) words s.c32S2p

theorem d32_steady (s : State p) (i : Input p) : ParallelToSerial.Steady p.c32D32.ratio
    (ParallelToSerial.unstarted (d32Input s i)) :=
  ⟨rfl,Nat.mod_eq_of_lt (Nat.lt_of_succ_le (le_two_pow_log2Ceil _))⟩

theorem d8_steady (s : State p) (i : Input p) : ParallelToSerial.Steady p.d8.ratio
    (ParallelToSerial.unstarted (d8Input s i)) :=
  ⟨rfl,Nat.mod_eq_of_lt (Nat.lt_of_succ_le (le_two_pow_log2Ceil _))⟩

theorem c32_steady (s : State p) (i : Input p) : SerialToParallel.Steady p.c32D32.ratio
    (SerialToParallel.unstarted (c32Input s i)) :=
  ⟨rfl,Nat.mod_eq_of_lt (Nat.lt_of_succ_le (le_two_pow_log2Ceil _))⟩

/-! ### Histories of one more cycle -/

theorem bypassTiles_snoc (history : List (Output p)) (s : State p) (i : Input p) :
    (bypassTiles (history ++ [out s i])).map d32Word =
      (bypassTiles history).map d32Word ++ (ParallelToSerial.accepted s.d32P2s (d32Input s i)).toList := by
  rw [bypassTiles,filterMap_concat,List.map_append,d32_accepted]
  cases bypass : i.bypassSIMD with
  | false => simp [bypassTiles,out,bypass]
  | true =>
    simp only [bypassTiles,out,bypass,↓reduceIte]
    cases (BlockGemm.dFire s.gemm (gemmInput s i)) <;> rfl

theorem simdTiles_snoc (history : List (Output p)) (s : State p) (i : Input p) :
    (simdTiles (history ++ [out s i])).map d8Word =
      (simdTiles history).map d8Word ++ (ParallelToSerial.accepted s.d8P2s (d8Input s i)).toList := by
  rw [simdTiles,filterMap_concat,List.map_append,d8_accepted]
  cases (out s i).simdTile <;> rfl

theorem rescaled_snoc {history : List (Output p)} (s : State p) (i : Input p)
    (rescaled : simdInputs history = (rescaledTiles history).map simdWord) :
    simdInputs (history ++ [out s i]) = (rescaledTiles (history ++ [out s i])).map simdWord := by
  rw [simdInputs,rescaledTiles,filterMap_concat,filterMap_concat,List.map_append,simd_accepted]
  refine congrArg₂ (· ++ ·) rescaled ?_
  cases bypass : i.bypassSIMD with
  | false =>
    simp only [out,bypass,Bool.false_eq_true,↓reduceIte]
    cases (BlockGemm.dFire s.gemm (gemmInput s i)) <;> rfl
  | true => simp [out,bypass]

theorem cTiles_snoc {history : List (Output p)} {words : List p.c32D32.Word}
    (tiles : words.map cTile = cTiles history) (s : State p) (i : Input p) :
    (words ++ (SerialToParallel.delivered s.c32S2p (c32Input s i)).toList).map cTile =
      cTiles (history ++ [out s i]) := by
  rw [cTiles,filterMap_concat,List.map_append,c32_delivered]
  refine congrArg₂ (· ++ ·) tiles ?_
  cases SerialToParallel.delivered s.c32S2p (c32Input s i) <;> rfl

theorem cChunks_snoc (history : List (Output p)) (s : State p) (i : Input p) :
    cChunks (history ++ [out s i]) =
      cChunks history ++ (SerialToParallel.accepted s.c32S2p (c32Input s i)).toList :=
  filterMap_concat _ _ _

theorem d32Chunks_snoc (history : List (Output p)) (s : State p) (i : Input p) :
    d32Chunks (history ++ [out s i]) =
      d32Chunks history ++ (ParallelToSerial.delivered s.d32P2s (d32Input s i)).toList :=
  filterMap_concat _ _ _

theorem d8Chunks_snoc (history : List (Output p)) (s : State p) (i : Input p) :
    d8Chunks (history ++ [out s i]) =
      d8Chunks history ++ (ParallelToSerial.delivered s.d8P2s (d8Input s i)).toList :=
  filterMap_concat _ _ _

/-! ### Runs -/

theorem sound_initial (csr : CtrlCsr p.simd.params) (c32 : Fin p.c32D32.ratio → p.c32D32.Chunk)
    (d32 : Fin (p.c32D32.ratio - 1) → p.c32D32.Chunk) (d8 : Fin (p.d8.ratio - 1) → p.d8.Chunk) :
    Sound [] (initial csr c32 d32 d8) where
  d32 := .fresh p.c32D32.ratio_positive rfl
  d8 := .fresh p.d8.ratio_positive rfl
  c32 := ⟨[],rfl,SerialToParallel.Packs.fresh (s := (initial csr c32 d32 d8).c32S2p)
    p.c32D32.ratio_positive rfl⟩
  rescaled := rfl

/-- A clean cycle goes through the converters as one without a start pulse. -/
theorem Sound.cycle {history : List (Output p)} (sound : Sound history s) (clean : Clean s i) :
    Sound (history ++ [out s i]) (next s i) := by
  obtain ⟨words,tiles,packs⟩ := sound.c32
  have d32 := sound.d32.cycle (d32_steady s i) p.c32D32.ratio_positive le_rfl
  have d8 := sound.d8.cycle (d8_steady s i) p.d8.ratio_positive le_rfl
  have c32 := packs.cycle (c32_steady s i) p.c32D32.ratio_positive le_rfl
  have below := packs.collects.count.symm ▸ packs.collects.short
  have d32Same : (next s i).d32P2s = _ := ParallelToSerial.next_unstarted fun start =>
    (ParallelToSerial.drained_iff (d32_steady s i) le_rfl sound.d32.below).mp (clean start).1
  have d8Same : (next s i).d8P2s = _ := ParallelToSerial.next_unstarted fun start =>
    (ParallelToSerial.drained_iff (d8_steady s i) le_rfl sound.d8.below).mp (clean start).2.1
  have c32Same : (next s i).c32S2p = _ := SerialToParallel.next_unstarted fun start =>
    (SerialToParallel.drained_iff (c32_steady s i) le_rfl below).mp (clean start).2.2
  refine ⟨?_,?_,⟨_,cTiles_snoc tiles s i,?_⟩,rescaled_snoc s i sound.rescaled⟩
  · rw [bypassTiles_snoc,d32Chunks_snoc,d32Same]
    exact d32
  · rw [simdTiles_snoc,d8Chunks_snoc,d8Same]
    exact d8
  · rw [cChunks_snoc,Grouping.of_toList,c32Same]
    exact c32

theorem Sound.lossless {history : List (Output p)} (sound : Sound history s) : Lossless history s := by
  refine ⟨sound,fun i left => ?_,fun i left => ?_⟩
  · have offers := sound.d32.offers (d32Input s i)
    rw [if_neg left] at offers
    exact offers ▸ rfl
  · have offers := sound.d8.offers (d8Input s i)
    rw [if_neg left] at offers
    exact offers ▸ rfl

theorem below_cycle (s : State p) (i : Input p) (d32 : s.d32P2s.value.toNat < p.c32D32.ratio)
    (d8 : s.d8P2s.value.toNat < p.d8.ratio) (c32 : s.c32S2p.value.toNat < p.c32D32.ratio) :
    (next s i).d32P2s.value.toNat < p.c32D32.ratio ∧ (next s i).d8P2s.value.toNat < p.d8.ratio ∧
      (next s i).c32S2p.value.toNat < p.c32D32.ratio :=
  ⟨ParallelToSerial.restarted_below (d32_steady s i) le_rfl d32,
    ParallelToSerial.restarted_below (d8_steady s i) le_rfl d8,
    SerialToParallel.restarted_below (c32_steady s i) le_rfl c32⟩

/-- A configuration in a cycle that is not clean loses what the cycle leaves behind. -/
theorem Sound.lacking {history : List (Output p)} (sound : Sound history s) (unclean : ¬ Clean s i) :
    Lacking (history ++ [out s i]) (next s i) := by
  obtain ⟨words,tiles,packs⟩ := sound.c32
  obtain ⟨d32Below,d8Below,c32Below⟩ := below_cycle s i sound.d32.below sound.d8.below
    (packs.collects.count.symm ▸ packs.collects.short)
  obtain ⟨start,left⟩ := Classical.not_imp.mp unclean
  refine ⟨d32Below,d8Below,c32Below,?_⟩
  rw [bypassTiles_snoc,d32Chunks_snoc,simdTiles_snoc,d8Chunks_snoc,cChunks_snoc]
  by_cases d32 : ParallelToSerial.Drained p.c32D32.ratio s.d32P2s (d32Input s i)
  · by_cases d8 : ParallelToSerial.Drained p.d8.ratio s.d8P2s (d8Input s i)
    · have c32 := fun c32 => left ⟨d32,d8,c32⟩
      exact .inr (.inr ⟨_,cTiles_snoc tiles s i,
        packs.lacks (c32_steady s i) p.c32D32.ratio_positive le_rfl start c32⟩)
    · exact .inr (.inl (sound.d8.lacks (d8_steady s i) p.d8.ratio_positive le_rfl start d8))
  · exact .inl (sound.d32.lacks (d32_steady s i) p.c32D32.ratio_positive le_rfl start d32)

theorem Lacking.cycle {history : List (Output p)} (lacking : Lacking history s) (i : Input p) :
    Lacking (history ++ [out s i]) (next s i) := by
  obtain ⟨d32Below,d8Below,c32Below⟩ := below_cycle s i lacking.d32Below lacking.d8Below lacking.c32Below
  refine ⟨d32Below,d8Below,c32Below,?_⟩
  rw [bypassTiles_snoc,d32Chunks_snoc,simdTiles_snoc,d8Chunks_snoc,cChunks_snoc]
  rcases lacking.some with d32 | d8 | ⟨words,tiles,c32⟩
  · exact .inl (d32.cycle (d32_steady s i) p.c32D32.ratio_positive le_rfl lacking.d32Below)
  · exact .inr (.inl (d8.cycle (d8_steady s i) p.d8.ratio_positive le_rfl lacking.d8Below))
  · exact .inr (.inr ⟨_,cTiles_snoc tiles s i,
      c32.cycle (c32_steady s i) p.c32D32.ratio_positive le_rfl lacking.c32Below⟩)

theorem Lacking.not_sound {history : List (Output p)} (lacking : Lacking history s) :
    ¬ Sound history s := by
  intro sound
  rcases lacking.some with d32 | d8 | ⟨words,tiles,c32⟩
  · exact sound.d32.not_lacks d32
  · exact sound.d8.not_lacks d8
  · obtain ⟨others,same,packs⟩ := sound.c32
    have count := packs.length p.c32D32.ratio_positive
    have equal : others.length = words.length := by
      rw [← List.length_map cTile,same,← tiles,List.length_map]
    rw [equal] at count
    exact absurd c32.count (Nat.not_lt.mpr count.ge)

/-- For every pair of units, from reset on, whatever the bypass signal does: a run loses nothing
if and only if every configuration is accepted in a clean cycle. -/
theorem loses_no_output (csr : CtrlCsr p.simd.params) (c32 : Fin p.c32D32.ratio → p.c32D32.Chunk)
    (d32 : Fin (p.c32D32.ratio - 1) → p.c32D32.Chunk) (d8 : Fin (p.d8.ratio - 1) → p.d8.Chunk)
    (inputs : List (Input p)) :
    Lossless ((blockGemmRescaleSIMD p).outs (initial csr c32 d32 d8) inputs)
        ((blockGemmRescaleSIMD p).exec (initial csr c32 d32 d8) inputs) ↔
      (blockGemmRescaleSIMD p).Each (fun _ => Clean) (initial csr c32 d32 d8) inputs := by
  have every : (blockGemmRescaleSIMD p).Each (fun _ _ _ => True) (initial csr c32 d32 d8) inputs :=
    fun _ _ _ _ => trivial
  rcases Machine.run_dichotomy (q := fun _ => Clean) Sound Lacking every (sound_initial csr c32 d32 d8)
      (fun _ _ _ sound _ clean => sound.cycle clean) (fun _ _ _ sound _ unclean => sound.lacking unclean)
      (fun _ _ i lacking _ => lacking.cycle i) with ⟨clean,sound⟩ | ⟨unclean,lacking⟩
  · exact iff_of_true sound.lossless clean
  · exact iff_of_false (fun lossless => lacking.not_sound lossless.toSound) unclean

/-! ### The default unit -/

theorem wordC_wide : 512 ≤ 32 * 8 * 8 := by decide
theorem wordC_whole : 512 < 32 * 8 * 8 → 32 * 8 * 8 % 512 = 0 := fun _ => rfl
theorem word8_wide : 512 ≤ 64 * 8 := le_rfl
theorem word8_whole : 512 < 64 * 8 → 64 * 8 % 512 = 0 := fun _ => rfl
theorem port_positive : 0 < 512 := Nat.succ_pos 511

def gemmConfig : GemmParams := ⟨8,8,32,32,32,8,8,8⟩

def blockGemmRescaleSIMDConfig : BlockGemmRescaleSIMDParams where
  gemmParams := gemmConfig
  simd := .pipelined PipelinedRescaleSIMD.pipelinedConfig
  c32D32Width := 512
  d8Width := 512
  c32D32Positive := port_positive
  c32D32Wide := wordC_wide
  c32D32Whole := wordC_whole
  d8Positive := port_positive
  d8Wide := word8_wide
  d8Whole := word8_whole

/-- One tile from one pair of operands, past the rescale unit. -/
def bypassed (config pair c : Bool) : Input blockGemmRescaleSIMDConfig where
  gemmCtrl := ⟨1,1,1,0⟩
  gemmCtrlValid := config
  simdCtrl := Vector.replicate _ 0
  simdCtrlValid := false
  bypassSIMD := true
  a := if pair then some fun _ _ => 1 else none
  b := if pair then some fun _ _ => 1 else none
  cSerial := if c then some 0 else none
  d32Ready := true
  d8Ready := false

def cleared : State blockGemmRescaleSIMDConfig := initial (fun _ => ⟨0,0,0,0,0,0,false,0⟩) 0 0 0

/-- A task, and the next configuration with the second of four chunks of its tile. -/
def twoTasks : List (Input blockGemmRescaleSIMDConfig) :=
  [bypassed true false false,bypassed false true true,bypassed false false true,
    bypassed false false true,bypassed false false true,bypassed false false false,
    bypassed false false false,bypassed true false false]

/-- Two chunks are sent, and the others are lost. -/
theorem loses_no_output_restarted : ¬ ∀ inputs : List (Input blockGemmRescaleSIMDConfig),
    (∀ i ∈ inputs, i.bypassSIMD = true) →
      Lossless ((blockGemmRescaleSIMD blockGemmRescaleSIMDConfig).outs cleared inputs)
        ((blockGemmRescaleSIMD blockGemmRescaleSIMDConfig).exec cleared inputs) := by
  intro all
  have lossless := all twoTasks (by simp [twoTasks,bypassed])
  have lengths := congrArg List.length lossless.d32.chunks
  rw [List.length_append,ParallelAndSerialConverterParams.length_flatMap_lowChunks,List.length_map] at lengths
  exact absurd lengths (by decide +kernel)

end BlockGemmRescaleSIMD

end Snax
