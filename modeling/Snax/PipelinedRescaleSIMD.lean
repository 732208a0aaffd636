import Mathlib.Data.List.GetD
import Snax.RescaleSIMD
import Snax.Sync.Chunks

/-! `simd/PipelinedRescaleSIMD.scala`: a wide vector passes the lanes chunk by chunk, through
a cut of three stages, and is collected again behind them. The registers of `RescaleSIMD`
that it inherits and overrides are left out. -/
namespace Snax

/-- Elaboration asks for a second chunk: the register for the later ones cannot be empty. -/
structure PipelinedRescaleSIMDParams extends RescaleSIMDParams where
  whole : laneLen ∣ dataLen
  several : laneLen < dataLen

variable {p : PipelinedRescaleSIMDParams}

namespace PipelinedRescaleSIMDParams

def laneCompCycle (p : PipelinedRescaleSIMDParams) : Nat := p.dataLen / p.laneLen

theorem laneLen_positive (p : PipelinedRescaleSIMDParams) : 0 < p.laneLen :=
  Nat.pos_of_ne_zero fun zero => by simpa [zero] using p.grouped

theorem cycle_mul (p : PipelinedRescaleSIMDParams) : p.laneCompCycle * p.laneLen = p.dataLen :=
  Nat.div_mul_cancel p.whole

theorem two_le_cycle (p : PipelinedRescaleSIMDParams) : 2 ≤ p.laneCompCycle := by
  by_contra few
  have one : p.laneCompCycle * p.laneLen ≤ 1 * p.laneLen := Nat.mul_le_mul_right _ (by omega)
  have := p.cycle_mul
  have := p.several
  omega

theorem collected_length (p : PipelinedRescaleSIMDParams) :
    p.dataLen - p.laneLen + p.laneLen = p.dataLen := Nat.sub_add_cancel p.several.le

end PipelinedRescaleSIMDParams

namespace PipelinedRescaleSIMD

/-- What passes the cut: a chunk of the data and the control sets at its side. -/
structure SIMDCombinedCutBundle (p : RescaleSIMDParams) where
  inputData : Vector (BitVec p.inputType) p.laneLen
  ctrlData : CtrlCsr p

structure State (p : PipelinedRescaleSIMDParams) where
  control : RescaleControl p.toRescaleSIMDParams
  pipeInputCounter : BitVec 32
  inputDataReg : Vector (BitVec p.inputType) (p.dataLen - p.laneLen)
  cut : DataCut (SIMDCombinedCutBundle p.toRescaleSIMDParams) 3
  pipeOutCounter : BitVec 16
  outputDataReg : Vector (BitVec p.outputType) p.dataLen
  keepOutput : Bool

abbrev Input (p : PipelinedRescaleSIMDParams) := RescaleSIMD.Input p.toRescaleSIMDParams

abbrev Output (p : PipelinedRescaleSIMDParams) := RescaleSIMD.Output p.toRescaleSIMDParams

def configValid (s : State p) (i : Input p) : Bool := i.ctrlValid && s.control.ctrlReady

/-! ### The input side -/

def inputReady (s : State p) : Bool := s.control.busy && s.pipeInputCounter == 0

def accepted (s : State p) (i : Input p) : Option (Vector (BitVec p.inputType) p.dataLen) :=
  if inputReady s then i.data else none

def laneInputValid (s : State p) (i : Input p) : Bool :=
  (accepted s i).isSome || s.pipeInputCounter != 0

def currentInputData (s : State p) (i : Input p) : Vector (BitVec p.inputType) p.laneLen :=
  match accepted s i with
  | some data => resized _ data
  | none => resized _ s.inputDataReg

/-- `cat_cur_input_ctrl.io.out`, valid when it is `some`. -/
def catCurInputCtrl (s : State p) (i : Input p) :
    Option (SIMDCombinedCutBundle p.toRescaleSIMDParams) :=
  if laneInputValid s i && s.control.busy then some ⟨currentInputData s i,s.control.ctrlCsr⟩ else none

/-! ### The output side -/

def laneOutputValid (s : State p) : Bool := s.cut.out.isSome

def lastChunk (s : State p) : Bool :=
  laneOutputValid s && s.pipeOutCounter.toNat == p.laneCompCycle - 1

def dataOutValid (s : State p) : Bool := lastChunk s || s.keepOutput

def outputStall (s : State p) (i : Input p) : Bool := dataOutValid s && !i.outReady

def cutReady (s : State p) (i : Input p) : Bool :=
  (!s.keepOutput && !outputStall s i && s.control.busy) && s.control.busy

/-- The results of the lanes on top of the newest ones that the register holds. -/
def collected (s : State p) (item : SIMDCombinedCutBundle p.toRescaleSIMDParams) :
    Vector (BitVec p.outputType) p.dataLen :=
  (s.outputDataReg.drop p.laneLen ++ item.ctrlData.lanes item.inputData).cast p.collected_length

/-- `io.data.output_o`, valid when it is `some`. -/
def dataOut (s : State p) : Option (Vector (BitVec p.outputType) p.dataLen) :=
  if lastChunk s then s.cut.out.map (collected s)
  else if s.keepOutput then some s.outputDataReg else none

def emitted (s : State p) (i : Input p) : Option (Vector (BitVec p.outputType) p.dataLen) :=
  if i.outReady then dataOut s else none

/-! ### One cycle -/

/-- `current_input_data.fire`. -/
def currentFire (s : State p) (i : Input p) : Bool :=
  (catCurInputCtrl s i).isSome && s.cut.inReady (cutReady s i)

def nextInputDataReg (s : State p) (i : Input p) : Vector (BitVec p.inputType) (p.dataLen - p.laneLen) :=
  match accepted s i with
  | some data => data.drop p.laneLen
  | none => if currentFire s i then resized _ (s.inputDataReg.drop p.laneLen) else s.inputDataReg

/-- The two chunk counters, of 32 and of 16 bits. -/
def nextCounter (p : PipelinedRescaleSIMDParams) (tick : Bool) (value : BitVec w) : BitVec w :=
  if tick && value.toNat != p.laneCompCycle - 1 then value + 1
  else if tick && value.toNat == p.laneCompCycle - 1 then 0
  else value

def next (s : State p) (i : Input p) : State p where
  control := s.control.next i.ctrl (configValid s i) (accepted s i).isSome (emitted s i).isSome
  pipeInputCounter := nextCounter p (currentFire s i) s.pipeInputCounter
  inputDataReg := nextInputDataReg s i
  cut := s.cut.next (catCurInputCtrl s i) (cutReady s i)
  pipeOutCounter := nextCounter p (laneOutputValid s) s.pipeOutCounter
  outputDataReg := (s.cut.out.map (collected s)).getD s.outputDataReg
  keepOutput := outputStall s i

def out (s : State p) (i : Input p) : Output p where
  config := if configValid s i then some (CtrlCsr.decode i.ctrl) else none
  accepted := accepted s i
  emitted := emitted s i
  busy := s.control.busy
  performanceCounter := s.control.performanceCounter

theorem three_stages : 0 < 3 := by decide

def initial (csr : CtrlCsr p.toRescaleSIMDParams) : State p :=
  ⟨RescaleControl.initial csr,0,Vector.replicate _ 0,DataCut.empty three_stages,0,
    Vector.replicate _ 0,false⟩

end PipelinedRescaleSIMD

namespace PipelinedRescaleSIMD

open Sync.Jobs RescaleControl
open RescaleSIMD (configs accepteds emitteds)

/-! ### Chunks -/

theorem getD_resized {n m : Nat} (v : Vector (BitVec w) m) (few : m ≤ n) (k : Nat) :
    (resized n v).toList.getD k 0 = v.toList.getD k 0 := by
  by_cases inside : k < n
  · simp [resized,List.getD_eq_getElem?_getD,inside]
  · rw [List.getD_eq_default _ _ (by simp; omega),List.getD_eq_default _ _ (by simp; omega)]

/-- Chunk `k` of a word; beyond its end there are zeros. -/
def chunkAt (n : Nat) (word : List (BitVec w)) (k : Nat) : Vector (BitVec w) n :=
  Vector.ofFn fun j => word.getD (k * n + j) 0

theorem resized_eq_chunkAt (n : Nat) (v : Vector (BitVec w) m) : resized n v = chunkAt n v.toList 0 := by
  simp [resized,chunkAt]

theorem chunkAt_drop (n : Nat) (word : List (BitVec w)) (k : Nat) :
    chunkAt n (word.drop n) k = chunkAt n word (k + 1) := by
  unfold chunkAt
  congr 1
  funext j
  rw [List.getD_eq_getElem?_getD,List.getD_eq_getElem?_getD,List.getElem?_drop]
  congr 2
  rw [Nat.succ_mul]
  omega

/-- The chunks of a vector, each with the control sets of its run. -/
def bundles (csr : CtrlCsr p.toRescaleSIMDParams) (data : Vector (BitVec p.inputType) p.dataLen) :
    List (SIMDCombinedCutBundle p.toRescaleSIMDParams) :=
  (List.range p.laneCompCycle).map fun k => ⟨chunkAt p.laneLen data.toList k,csr⟩

@[simp] theorem bundles_length (csr : CtrlCsr p.toRescaleSIMDParams)
    (data : Vector (BitVec p.inputType) p.dataLen) : (bundles csr data).length = p.laneCompCycle := by
  simp [bundles]

/-- What the lanes make of a chunk. -/
def worked (item : SIMDCombinedCutBundle p.toRescaleSIMDParams) : List (BitVec p.outputType) :=
  (item.ctrlData.lanes item.inputData).toList

@[simp] theorem worked_length (item : SIMDCombinedCutBundle p.toRescaleSIMDParams) :
    (worked item).length = p.laneLen := Vector.length_toList

theorem flatMap_worked_length (items : List (SIMDCombinedCutBundle p.toRescaleSIMDParams)) :
    (items.flatMap worked).length = items.length * p.laneLen := by
  induction items with
  | nil => simp
  | cons item items ih =>
    rw [List.flatMap_cons,List.length_append,worked_length,ih,List.length_cons,Nat.succ_mul,Nat.add_comm]

/-- The specification: `RescalePE` on every element, with the control set of its lane. -/
def elementwise (csr : CtrlCsr p.toRescaleSIMDParams) (data : Vector (BitVec p.inputType) p.dataLen) :
    Vector (BitVec p.outputType) p.dataLen :=
  Vector.ofFn fun i => RescalePE.output (csr.ofLane (i % p.laneLen)) (data.get i)

theorem worked_chunkAt (csr : CtrlCsr p.toRescaleSIMDParams)
    (data : Vector (BitVec p.inputType) p.dataLen) {k : Nat} (inside : k < p.laneCompCycle) :
    worked ⟨chunkAt p.laneLen data.toList k,csr⟩ =
      ((elementwise csr data).toList.drop (k * p.laneLen)).take p.laneLen := by
  have room : (k + 1) * p.laneLen ≤ p.dataLen :=
    p.cycle_mul ▸ Nat.mul_le_mul_right p.laneLen inside
  rw [Nat.succ_mul] at room
  refine List.ext_getElem (by simp; omega) fun j first second => ?_
  rw [worked_length] at first
  have place : (k * p.laneLen + j) % p.laneLen = j := by
    rw [Nat.mul_comm,Nat.mul_add_mod,Nat.mod_eq_of_lt first]
  simp only [worked,CtrlCsr.lanes,elementwise,Vector.toList_ofFn,List.getElem_ofFn,List.getElem_take,
    List.getElem_drop,place]
  congr 1
  have known : k * p.laneLen + j < p.dataLen := by omega
  change (chunkAt p.laneLen data.toList k)[j] = data[k * p.laneLen + j]
  simp [chunkAt,List.getD_eq_getElem?_getD,known]

/-- The chunks of a vector, worked on and side by side, are the vector worked on. -/
theorem flatMap_worked_bundles (csr : CtrlCsr p.toRescaleSIMDParams)
    (data : Vector (BitVec p.inputType) p.dataLen) :
    (bundles csr data).flatMap worked = (elementwise csr data).toList := by
  have slices := Sync.Chunks.flatMap_slices (elementwise csr data).toList p.laneLen p.laneCompCycle
  rw [p.cycle_mul,List.take_of_length_le (by simp)] at slices
  rw [← slices,bundles,List.flatMap_map]
  exact List.flatMap_congr fun k member => worked_chunkAt csr data (List.mem_range.mp member)

theorem nextCounter_toNat {value : BitVec w} (below : value.toNat < p.laneCompCycle)
    (fits : p.laneCompCycle ≤ 2 ^ w) (tick : Bool) :
    (nextCounter p tick value).toNat =
      if tick then (if value.toNat + 1 < p.laneCompCycle then value.toNat + 1 else 0)
      else value.toNat := by
  cases tick with
  | false => rfl
  | true =>
    by_cases last : value.toNat = p.laneCompCycle - 1
    · have wrapped : ¬ value.toNat + 1 < p.laneCompCycle := by omega
      simp [nextCounter,last,show ¬ p.laneCompCycle - 1 + 1 < p.laneCompCycle by omega]
    · have more : value.toNat + 1 < p.laneCompCycle := by omega
      simp only [nextCounter,Bool.true_and,bne_iff_ne,ne_eq,last,not_false_iff,↓reduceIte,more]
      exact BasicCounter.toNat_add_one value (show value.toNat < p.laneCompCycle - 1 by omega) (by omega)

/-! ### The input side keeps the chunks of a vector in order -/

/-- The chunks of the vector taken last that the lanes have not been given yet. -/
def waiting (csr : CtrlCsr p.toRescaleSIMDParams) (count : Nat) (reg : List (BitVec p.inputType)) :
    List (SIMDCombinedCutBundle p.toRescaleSIMDParams) :=
  if count = 0 then []
  else (List.range (p.laneCompCycle - count)).map fun k => ⟨chunkAt p.laneLen reg k,csr⟩

theorem range_succ_map (n : Nat) (f : Nat → α) :
    (List.range (n + 1)).map f = f 0 :: (List.range n).map fun k => f (k + 1) := by
  rw [List.range_succ_eq_map,List.map_cons,List.map_map]
  rfl

theorem chunkAt_shifted (reg : Vector (BitVec p.inputType) (p.dataLen - p.laneLen)) (k : Nat) :
    chunkAt p.laneLen (resized (p.dataLen - p.laneLen) (reg.drop p.laneLen)).toList k =
      chunkAt p.laneLen reg.toList (k + 1) := by
  rw [← chunkAt_drop,← Vector.toList_drop]
  unfold chunkAt
  congr 1
  funext j
  exact getD_resized _ (Nat.sub_le _ _) _

/-- What is fed to the cut and what then waits is what waited before and the vector taken. -/
theorem feed {s : State p} {i : Input p}
    (below : s.pipeInputCounter.toNat < p.laneCompCycle) (fits : p.laneCompCycle ≤ 2 ^ 32)
    (open' : s.cut.inReady (cutReady s i) = true) :
    (catCurInputCtrl s i).toList ++
        waiting s.control.ctrlCsr (next s i).pipeInputCounter.toNat (next s i).inputDataReg.toList =
      waiting s.control.ctrlCsr s.pipeInputCounter.toNat s.inputDataReg.toList ++
        (accepted s i).toList.flatMap (bundles s.control.ctrlCsr) := by
  have two := p.two_le_cycle
  have count : (next s i).pipeInputCounter.toNat = _ := nextCounter_toNat below fits (currentFire s i)
  cases working : s.control.busy with
  | false =>
    have took : accepted s i = none := by simp [accepted,inputReady,working]
    have nothing : catCurInputCtrl s i = none := by simp [catCurInputCtrl,working]
    have still : currentFire s i = false := by simp [currentFire,nothing]
    have same : (next s i).inputDataReg = s.inputDataReg := by simp [next,nextInputDataReg,took,still]
    rw [count,still,nothing,took,same,if_neg Bool.false_ne_true]
    exact (List.append_nil _).symm
  | true =>
  by_cases fresh : s.pipeInputCounter = 0
  · have zero : s.pipeInputCounter.toNat = 0 := by simp [fresh]
    cases took : accepted s i with
    | none =>
      have nothing : catCurInputCtrl s i = none := by
        simp [catCurInputCtrl,laneInputValid,took,fresh]
      have still : currentFire s i = false := by simp [currentFire,nothing]
      rw [count,still,nothing,if_neg Bool.false_ne_true,zero]
      rfl
    | some data =>
      have first : catCurInputCtrl s i = some ⟨chunkAt p.laneLen data.toList 0,s.control.ctrlCsr⟩ := by
        simp [catCurInputCtrl,laneInputValid,currentInputData,took,working,resized_eq_chunkAt]
      have fed : currentFire s i = true := by simp [currentFire,first,open']
      have stored : (next s i).inputDataReg = data.drop p.laneLen := by
        simp only [next,nextInputDataReg,took]
      rw [count,fed,first,if_pos rfl,zero,if_pos (by omega),stored]
      simp only [waiting,↓reduceIte,Nat.zero_add,Nat.one_ne_zero,Vector.toList_drop,chunkAt_drop,
        Option.toList_some,List.flatMap_cons,List.flatMap_nil,List.append_nil,List.nil_append]
      obtain ⟨m,size⟩ : ∃ m, p.laneCompCycle = m + 1 := ⟨p.laneCompCycle - 1,by omega⟩
      rw [bundles,size,range_succ_map,Nat.add_sub_cancel]
      rfl
  · have positive : 0 < s.pipeInputCounter.toNat := by
      rcases Nat.eq_zero_or_pos s.pipeInputCounter.toNat with zero | positive
      · exact absurd (BitVec.eq_of_toNat_eq (by simpa using zero)) fresh
      · exact positive
    have closed : (s.pipeInputCounter == 0) = false := beq_false_of_ne fresh
    have took : accepted s i = none := by simp only [accepted,inputReady,closed,Bool.and_false,
      Bool.false_eq_true,↓reduceIte]
    have first : catCurInputCtrl s i =
        some ⟨chunkAt p.laneLen s.inputDataReg.toList 0,s.control.ctrlCsr⟩ := by
      simp only [catCurInputCtrl,laneInputValid,currentInputData,took,working,bne,closed,
        resized_eq_chunkAt,Option.isSome_none,Bool.false_or,Bool.not_false,Bool.and_true,↓reduceIte]
    have fed : currentFire s i = true := by simp [currentFire,first,open']
    have stored : (next s i).inputDataReg = resized _ (s.inputDataReg.drop p.laneLen) := by
      simp only [next,nextInputDataReg,took,fed,↓reduceIte]
    obtain ⟨m,size⟩ : ∃ m, p.laneCompCycle - s.pipeInputCounter.toNat = m + 1 :=
      ⟨p.laneCompCycle - s.pipeInputCounter.toNat - 1,by omega⟩
    rw [count,fed,first,if_pos rfl,stored,took]
    rw [waiting,waiting,if_neg (by omega : ¬ s.pipeInputCounter.toNat = 0),size,range_succ_map]
    by_cases more : s.pipeInputCounter.toNat + 1 < p.laneCompCycle
    · rw [if_pos more,if_neg (Nat.succ_ne_zero _),
        show p.laneCompCycle - (s.pipeInputCounter.toNat + 1) = m by omega]
      simp only [chunkAt_shifted]
      exact (List.append_nil _).symm
    · obtain rfl : m = 0 := by omega
      rw [if_neg more,if_pos rfl]
      rfl

/-! ### The output side collects them again -/

/-- The chunks of the words that were collected in full, and of the word under way, whose results
the register holds at its top. -/
structure Gathered (s : State p) (words : List (Vector (BitVec p.outputType) p.dataLen))
    (full : List (List (SIMDCombinedCutBundle p.toRescaleSIMDParams)))
    (part : List (SIMDCombinedCutBundle p.toRescaleSIMDParams)) : Prop where
  even : ∀ chunks ∈ full, chunks.length = p.laneCompCycle
  count : s.pipeOutCounter.toNat = part.length
  below : part.length < p.laneCompCycle
  words : words.map Vector.toList = full.map fun chunks => chunks.flatMap worked
  register : ∃ old, s.outputDataReg.toList = old ++ part.flatMap worked

theorem collected_toList {s : State p} {words : List (Vector (BitVec p.outputType) p.dataLen)}
    {full : List (List (SIMDCombinedCutBundle p.toRescaleSIMDParams))}
    {part : List (SIMDCombinedCutBundle p.toRescaleSIMDParams)} (gathered : Gathered s words full part)
    (item : SIMDCombinedCutBundle p.toRescaleSIMDParams) :
    ∃ old : List (BitVec p.outputType),
      (collected s item).toList = old ++ (part ++ [item]).flatMap worked ∧
      old.length + (part.length + 1) * p.laneLen = p.dataLen := by
  obtain ⟨old,top⟩ := gathered.register
  have size : (collected s item).toList.length = p.dataLen := by simp
  have whole : s.outputDataReg.toList.length = p.dataLen := by simp
  have room : (part.length + 1) * p.laneLen ≤ p.dataLen :=
    p.cycle_mul ▸ Nat.mul_le_mul_right p.laneLen gathered.below
  rw [top,List.length_append,flatMap_worked_length] at whole
  have split : (part.length + 1) * p.laneLen = part.length * p.laneLen + p.laneLen := Nat.succ_mul _ _
  have same : (collected s item).toList = old.drop p.laneLen ++ (part ++ [item]).flatMap worked := by
    rw [collected,Vector.toList_cast,Vector.toList_append,Vector.toList_drop,top,
      List.drop_append_of_le_length (by omega),List.flatMap_append,List.append_assoc]
    simp [worked]
  refine ⟨old.drop p.laneLen,same,?_⟩
  rw [List.length_drop]
  omega

/-- A chunk that comes out of the cut joins the others; the last of a word completes it. -/
theorem gather {s : State p} {i : Input p} {words : List (Vector (BitVec p.outputType) p.dataLen)}
    {full : List (List (SIMDCombinedCutBundle p.toRescaleSIMDParams))}
    {part : List (SIMDCombinedCutBundle p.toRescaleSIMDParams)} (gathered : Gathered s words full part)
    (fits : p.laneCompCycle ≤ 2 ^ 16) (unkept : s.keepOutput = false)
    (ready : dataOutValid s = true → i.outReady = true) :
    ∃ full' part', full'.flatten ++ part' = full.flatten ++ part ++ s.cut.out.toList ∧
      Gathered (next s i) (words ++ (emitted s i).toList) full' part' := by
  have below := gathered.below
  have count : (next s i).pipeOutCounter.toNat = _ :=
    nextCounter_toNat (gathered.count ▸ below) fits (laneOutputValid s)
  rw [gathered.count] at count
  cases left : s.cut.out with
  | none =>
    have quiet : laneOutputValid s = false := by simp [laneOutputValid,left]
    have silent : emitted s i = none := by
      cases h : i.outReady <;> simp [emitted,dataOut,lastChunk,quiet,unkept,h]
    refine ⟨full,part,by simp,gathered.even,?_,below,?_,?_⟩
    · rw [count,quiet,if_neg Bool.false_ne_true]
    · simpa [silent] using gathered.words
    · simpa [next,left] using gathered.register
  | some item =>
    have valid : laneOutputValid s = true := by simp [laneOutputValid,left]
    obtain ⟨old,top,size⟩ := collected_toList gathered item
    have stored : (next s i).outputDataReg = collected s item := by simp [next,left]
    rw [valid,if_pos rfl] at count
    by_cases more : part.length + 1 < p.laneCompCycle
    · have early : lastChunk s = false := by
        simp [lastChunk,gathered.count]
        omega
      have silent : emitted s i = none := by
        cases h : i.outReady <;> simp [emitted,dataOut,early,unkept,h]
      refine ⟨full,part ++ [item],by simp,gathered.even,?_,by simpa using more,?_,old,?_⟩
      · rw [count,if_pos more,List.length_append,List.length_singleton]
      · simpa [silent] using gathered.words
      · rw [stored,top]
    · have last : lastChunk s = true := by
        simp [lastChunk,valid,gathered.count]
        omega
      have sent : emitted s i = some (collected s item) := by
        simp [emitted,dataOut,last,left,ready (by simp [dataOutValid,last])]
      have whole : part.length + 1 = p.laneCompCycle := by omega
      rw [whole,p.cycle_mul] at size
      obtain rfl : old = [] := List.length_eq_zero_iff.mp (by omega)
      refine ⟨full ++ [part ++ [item]],[],by simp,?_,?_,by omega,?_,(collected s item).toList,?_⟩
      · intro chunks member
        rcases List.mem_append.mp member with earlier | new
        · exact gathered.even chunks earlier
        · rw [List.mem_singleton.mp new,List.length_append,List.length_singleton,whole]
      · rw [count,if_neg more]
        rfl
      · rw [sent,List.map_append,gathered.words,List.map_append,Option.toList_some,List.map_singleton,
          List.map_singleton,top,List.nil_append]
      · rw [stored,List.flatMap_nil,List.append_nil]

/-! ### Runs -/

/-- A cycle in which software and the receiver keep to the contract: the ctrl bits are left alone
until the run is through, no vector is offered beyond its length, and no output is stalled. -/
@[mk_iff proper_iff]
structure Proper (s : State p) (i : Input p) : Prop where
  held : s.control.busy = true → s.control.computationFinish = false →
    CtrlCsr.decode i.ctrl = s.control.ctrlCsr
  input : (accepted s i).isSome = true → s.control.readCounter.toNat < runLen s.control.ctrlCsr
  output : dataOutValid s = true → i.outReady = true

instance (s : State p) (i : Input p) : Decidable (Proper s i) := decidable_of_iff' _ (proper_iff s i)

/-- The vectors taken, each with the control sets of its run. -/
def turns (history : List (Output p)) :
    List (CtrlCsr p.toRescaleSIMDParams × Vector (BitVec p.inputType) p.dataLen) :=
  results runLen Prod.mk (configs history) (accepteds history)

/-- The chunks collected, those in the cut and those that wait in front of it are the chunks of
the vectors taken. -/
structure Pieces (history : List (Output p)) (s : State p)
    (full : List (List (SIMDCombinedCutBundle p.toRescaleSIMDParams)))
    (part : List (SIMDCombinedCutBundle p.toRescaleSIMDParams)) : Prop where
  gathered : Gathered s (emitteds history) full part
  stream : full.flatten ++ part ++ s.cut.contents ++
      waiting s.control.ctrlCsr s.pipeInputCounter.toNat s.inputDataReg.toList =
    (turns history).flatMap fun turn => bundles turn.1 turn.2

structure Sound (history : List (Output p)) (s : State p) : Prop where
  tracks : s.control.Tracks (configs history) (accepteds history).length (emitteds history).length
  unkept : s.keepOutput = false
  below : s.pipeInputCounter.toNat < p.laneCompCycle
  pieces : ∃ full part, Pieces history s full part

theorem waiting_eq_nil {csr : CtrlCsr p.toRescaleSIMDParams} {count : Nat}
    {reg : List (BitVec p.inputType)} (below : count < p.laneCompCycle) :
    waiting csr count reg = [] ↔ count = 0 := by
  unfold waiting
  split
  · simp_all
  · simp
    omega

theorem even_turns (history : List (Output p)) :
    ∀ chunks ∈ (turns history).map (fun turn => bundles turn.1 turn.2), chunks.length = p.laneCompCycle := by
  intro chunks member
  obtain ⟨turn,_,rfl⟩ := List.mem_map.mp member
  exact bundles_length _ _

/-- Every vector taken is emitted, or some of its chunks are on their way. -/
theorem Pieces.balance {history : List (Output p)} {s : State p}
    {full : List (List (SIMDCombinedCutBundle p.toRescaleSIMDParams))}
    {part : List (SIMDCombinedCutBundle p.toRescaleSIMDParams)} (pieces : Pieces history s full part)
    (few : (accepteds history).length ≤ (schedule runLen (configs history)).length) :
    p.laneCompCycle * (emitteds history).length + part.length + s.cut.contents.length +
      (waiting s.control.ctrlCsr s.pipeInputCounter.toNat s.inputDataReg.toList).length =
    p.laneCompCycle * (accepteds history).length := by
  have lengths := congrArg List.length pieces.stream
  rw [List.flatMap_def,Sync.Chunks.length_flatten_of_even (even_turns history),List.length_map,
    turns,results_length few,List.length_append,List.length_append,List.length_append,
    Sync.Chunks.length_flatten_of_even pieces.gathered.even] at lengths
  have words : full.length = (emitteds history).length := by
    simpa using (congrArg List.length pieces.gathered.words).symm
  rwa [words] at lengths

/-- With every vector emitted, nothing is on its way. -/
theorem Sound.drained {history : List (Output p)} {s : State p} (sound : Sound history s)
    (level : (emitteds history).length = (accepteds history).length) :
    s.cut.contents = [] ∧ s.pipeInputCounter.toNat = 0 := by
  obtain ⟨full,part,pieces⟩ := sound.pieces
  have balance := pieces.balance sound.tracks.taken_le
  rw [level] at balance
  have fed : waiting s.control.ctrlCsr s.pipeInputCounter.toNat s.inputDataReg.toList = [] :=
    List.length_eq_zero_iff.mp (by omega)
  exact ⟨List.length_eq_zero_iff.mp (by omega),(waiting_eq_nil sound.below).mp fed⟩

theorem Sound.idle_drained {history : List (Output p)} {s : State p} (sound : Sound history s)
    (resting : s.control.busy = false) : s.cut.contents = [] ∧ s.pipeInputCounter.toNat = 0 :=
  sound.drained ((sound.tracks.idle resting).2.trans (sound.tracks.idle resting).1.symm)

/-- Without a stall the cut always moves on. -/
theorem Sound.moves {history : List (Output p)} {s : State p} {i : Input p} (sound : Sound history s)
    (proper : Proper s i) : s.cut.inReady (cutReady s i) = true ∧ s.cut.given (cutReady s i) = s.cut.out := by
  cases working : s.control.busy with
  | false =>
    have hollow := DataCut.out_of_empty (sound.idle_drained working).1
    simp [DataCut.inReady,DataCut.given,hollow]
  | true =>
    have flowing : outputStall s i = false := by
      cases valid : dataOutValid s with
      | false => simp [outputStall,valid]
      | true => simp [outputStall,proper.output valid]
    have ready : cutReady s i = true := by simp [cutReady,sound.unkept,flowing,working]
    rw [ready]
    exact ⟨s.cut.inReady_true,rfl⟩

/-- An output stands for a vector that was taken before. -/
theorem Sound.emitted_behind {history : List (Output p)} {s : State p} {i : Input p}
    (sound : Sound history s) (fires : (emitted s i).isSome = true) :
    s.control.busy = true ∧ (emitteds history).length < (accepteds history).length := by
  have last : lastChunk s = true := by
    cases ready : i.outReady <;> cases last : lastChunk s <;>
      simp [emitted,dataOut,ready,last,sound.unkept] at fires ⊢
  simp only [lastChunk,laneOutputValid,Bool.and_eq_true,beq_iff_eq] at last
  have inside : s.cut.contents ≠ [] := fun hollow => by
    simp [DataCut.out_of_empty hollow] at last
  constructor
  · by_contra resting
    exact inside (sound.idle_drained (by simpa using resting)).1
  · obtain ⟨full,part,pieces⟩ := sound.pieces
    have balance := pieces.balance sound.tracks.taken_le
    have some := List.length_pos_iff.mpr inside
    have count := pieces.gathered.count
    by_contra none
    have level : (emitteds history).length = (accepteds history).length :=
      Nat.le_antisymm sound.tracks.given_le (by omega)
    exact inside (sound.drained level).1

theorem configs_snoc (history : List (Output p)) (s : State p) (i : Input p) :
    configs (history ++ [out s i]) =
      configs history ++ if configValid s i then [CtrlCsr.decode i.ctrl] else [] := by
  rw [configs,List.filterMap_append]
  cases h : configValid s i <;> simp [configs,out,h]

theorem accepteds_snoc (history : List (Output p)) (s : State p) (i : Input p) :
    accepteds (history ++ [out s i]) = accepteds history ++ (accepted s i).toList := by
  rw [accepteds,List.filterMap_append]
  cases h : accepted s i <;> simp [accepteds,out,h]

theorem emitteds_snoc (history : List (Output p)) (s : State p) (i : Input p) :
    emitteds (history ++ [out s i]) = emitteds history ++ (emitted s i).toList := by
  rw [emitteds,List.filterMap_append]
  cases h : emitted s i <;> simp [emitteds,out,h]

theorem Sound.tracks_next {history : List (Output p)} {s : State p} {i : Input p}
    (sound : Sound history s) (proper : Proper s i) :
    (next s i).control.Tracks (configs (history ++ [out s i]))
      (accepteds (history ++ [out s i])).length (emitteds (history ++ [out s i])).length := by
  rw [configs_snoc,accepteds_snoc,emitteds_snoc,List.length_append,List.length_append,length_toList,
    length_toList]
  refine RescaleControl.tracks_next sound.tracks
    ⟨fun valid => ?_,proper.held,fun fires => ?_,sound.emitted_behind⟩
  · simpa [configValid,ctrlReady] using (Bool.and_eq_true_iff.mp valid).2
  · have working : s.control.busy = true := by
      by_contra resting
      simp [accepted,inputReady,resting] at fires
    rw [working,if_pos rfl]
    exact proper.input fires

/-- The vector taken has its turn in the run under way. -/
theorem Sound.turns_snoc {history : List (Output p)} {s : State p} {i : Input p}
    (sound : Sound history s) (proper : Proper s i) : turns (history ++ [out s i]) =
      turns history ++ (accepted s i).toList.map fun data => (s.control.ctrlCsr,data) := by
  rw [turns,configs_snoc,accepteds_snoc]
  cases took : accepted s i with
  | none =>
    rw [Option.toList_none,List.append_nil,results_more sound.tracks.taken_le]
    exact (List.append_nil _).symm
  | some data =>
    have working : s.control.busy = true := by
      by_contra resting
      simp [accepted,inputReady,resting] at took
    have quiet : configValid s i = false := by simp [configValid,ctrlReady,working]
    obtain ⟨earlier,split,taken,_,few,_⟩ := sound.tracks.busy working
    have more := proper.input (by rw [took]; rfl)
    have turn := sound.tracks.turn working sound.tracks.given_le
      (by rw [split,length_schedule_snoc,taken]; omega)
    rw [quiet,if_neg Bool.false_ne_true,List.append_nil,Option.toList_some,results_snoc turn]
    rfl

/-- Where the control sets change, nothing waits in front of the cut. -/
theorem Sound.waiting_next {history : List (Output p)} {s : State p} {i : Input p}
    (sound : Sound history s) (proper : Proper s i) (fits : p.laneCompCycle ≤ 2 ^ 32) :
    waiting (next s i).control.ctrlCsr (next s i).pipeInputCounter.toNat (next s i).inputDataReg.toList =
      waiting s.control.ctrlCsr (next s i).pipeInputCounter.toNat (next s i).inputDataReg.toList := by
  have same_of_level (level : (emitteds history).length = (accepteds history).length)
      (closed : accepted s i = none) :
      waiting (next s i).control.ctrlCsr (next s i).pipeInputCounter.toNat (next s i).inputDataReg.toList =
        waiting s.control.ctrlCsr (next s i).pipeInputCounter.toNat (next s i).inputDataReg.toList := by
    have zero := (sound.drained level).2
    have nothing : catCurInputCtrl s i = none := by
      have fresh : s.pipeInputCounter = 0 := BitVec.eq_of_toNat_eq (by simpa using zero)
      simp [catCurInputCtrl,laneInputValid,closed,fresh]
    have still : currentFire s i = false := by simp [currentFire,nothing]
    have count : (next s i).pipeInputCounter.toNat = _ := nextCounter_toNat sound.below fits (currentFire s i)
    rw [count,still,if_neg Bool.false_ne_true,zero]
    rfl
  cases working : s.control.busy with
  | false =>
    refine same_of_level ((sound.tracks.idle working).2.trans (sound.tracks.idle working).1.symm) ?_
    simp [accepted,inputReady,working]
  | true =>
    cases finish : s.control.computationFinish with
    | false => rw [show (next s i).control.ctrlCsr = s.control.ctrlCsr from proper.held working finish]
    | true =>
      obtain ⟨read,written⟩ := (computationFinish_iff working).mp finish
      obtain ⟨_,_,taken,given,_,_⟩ := sound.tracks.busy working
      refine same_of_level (by omega) ?_
      by_contra some
      have more := proper.input (Option.isSome_iff_ne_none.mpr some)
      omega

theorem sound_next {history : List (Output p)} {s : State p} {i : Input p} (sound : Sound history s)
    (fits : p.laneCompCycle ≤ 2 ^ 16) (proper : Proper s i) : Sound (history ++ [out s i]) (next s i) := by
  have fits' : p.laneCompCycle ≤ 2 ^ 32 := fits.trans (by decide)
  obtain ⟨moving,left⟩ := sound.moves proper
  obtain ⟨full,part,pieces⟩ := sound.pieces
  obtain ⟨full',part',chunks,gathered⟩ := gather pieces.gathered fits sound.unkept proper.output
  refine ⟨sound.tracks_next proper,?_,?_,full',part',?_,?_⟩
  · cases valid : dataOutValid s with
    | false => simp [next,outputStall,valid]
    | true => simp [next,outputStall,proper.output valid]
  · have count : (next s i).pipeInputCounter.toNat = _ := nextCounter_toNat sound.below fits' (currentFire s i)
    have below := sound.below
    rw [count]
    split_ifs <;> omega
  · rw [emitteds_snoc]
    exact gathered
  · have conserves := s.cut.next_conserves (catCurInputCtrl s i) (cutReady s i)
    rw [left,DataCut.taken,if_pos moving] at conserves
    calc full'.flatten ++ part' ++ (next s i).cut.contents ++ waiting (next s i).control.ctrlCsr
            (next s i).pipeInputCounter.toNat (next s i).inputDataReg.toList
        = full.flatten ++ part ++ (s.cut.out.toList ++ (next s i).cut.contents) ++
            waiting s.control.ctrlCsr (next s i).pipeInputCounter.toNat (next s i).inputDataReg.toList := by
          rw [chunks,sound.waiting_next proper fits']
          simp only [List.append_assoc]
      _ = full.flatten ++ part ++ s.cut.contents ++ ((catCurInputCtrl s i).toList ++
            waiting s.control.ctrlCsr (next s i).pipeInputCounter.toNat (next s i).inputDataReg.toList) := by
          rw [show (next s i).cut = s.cut.next (catCurInputCtrl s i) (cutReady s i) from rfl,conserves]
          simp only [List.append_assoc]
      _ = (turns (history ++ [out s i])).flatMap fun turn => bundles turn.1 turn.2 := by
          rw [feed sound.below fits' moving,← List.append_assoc,pieces.stream,sound.turns_snoc proper,
            List.flatMap_append,List.flatMap_map]

theorem sound_initial (csr : CtrlCsr p.toRescaleSIMDParams) : Sound [] (initial csr) where
  tracks := tracks_initial csr
  unkept := rfl
  below := Nat.lt_of_lt_of_le Nat.two_pos p.two_le_cycle
  pieces := ⟨[],[],⟨by simp,rfl,Nat.lt_of_lt_of_le Nat.two_pos p.two_le_cycle,rfl,_,
    (List.append_nil _).symm⟩,by simp [initial,waiting,turns,accepteds]⟩

theorem Sound.outputs {history : List (Output p)} {s : State p} (sound : Sound history s) :
    emitteds history <+: results runLen elementwise (configs history) (accepteds history) := by
  obtain ⟨full,part,pieces⟩ := sound.pieces
  have positive : 0 < p.laneCompCycle := Nat.lt_of_lt_of_le Nat.two_pos p.two_le_cycle
  have front : full <+: (turns history).map fun turn => bundles turn.1 turn.2 := by
    have stream : full.flatten ++ part <+: ((turns history).map fun turn => bundles turn.1 turn.2).flatten := by
      rw [← List.flatMap_def,← pieces.stream,List.append_assoc]
      exact List.prefix_append _ _
    exact Sync.Chunks.complete_prefix positive pieces.gathered.even (even_turns history) stream
  have words := front.map fun chunks => chunks.flatMap worked
  rw [← pieces.gathered.words,List.map_map] at words
  have same : ((fun chunks => chunks.flatMap worked) ∘
      fun turn : CtrlCsr p.toRescaleSIMDParams × Vector (BitVec p.inputType) p.dataLen =>
        bundles turn.1 turn.2) = Vector.toList ∘ fun turn => elementwise turn.1 turn.2 :=
    funext fun turn => flatMap_worked_bundles turn.1 turn.2
  rw [same,← List.map_map] at words
  rw [results_eq_map]
  exact (List.prefix_map_iff_of_injective fun _ _ => Vector.toList_inj.mp).mp words

theorem Sound.level {history : List (Output p)} {s : State p} (sound : Sound history s)
    (hollow : s.cut.contents = []) (fresh : s.pipeInputCounter.toNat = 0) :
    (emitteds history).length = (accepteds history).length := by
  obtain ⟨full,part,pieces⟩ := sound.pieces
  have balance := pieces.balance sound.tracks.taken_le
  rw [hollow,(waiting_eq_nil sound.below).mpr fresh] at balance
  have below := pieces.gathered.below
  rcases Nat.lt_or_eq_of_le sound.tracks.given_le with fewer | same
  · have step := Nat.mul_le_mul_left p.laneCompCycle fewer
    rw [Nat.mul_succ] at step
    simp at balance
    omega
  · exact same

/-- A vector is offered as long as the run lacks some. -/
def Eager (s : State p) (i : Input p) : Prop :=
  s.control.busy = true → s.control.readCounter.toNat < runLen s.control.ctrlCsr → i.data.isSome = true

/-- The stages that the chunks of the run still have to pass, from the input on. -/
def lacking (s : State p) : Nat :=
  5 * (p.laneCompCycle * (runLen s.control.ctrlCsr - s.control.readCounter.toNat)) +
    4 * (waiting s.control.ctrlCsr s.pipeInputCounter.toNat s.inputDataReg.toList).length +
    DataCut.travel s.cut.stages

/-- In an eager cycle the run comes to its end, or nearer to it. -/
theorem eager_progress {history : List (Output p)} {s : State p} {i : Input p} (sound : Sound history s)
    (fits : p.laneCompCycle ≤ 2 ^ 16) (working : s.control.busy = true) (proper : Proper s i)
    (eager : Eager s i) : (next s i).control.busy = false ∨ lacking (next s i) < lacking s := by
  have fits' : p.laneCompCycle ≤ 2 ^ 32 := fits.trans (by decide)
  cases finish : s.control.computationFinish with
  | true => exact .inl (by simp [next,RescaleControl.next,working,finish])
  | false =>
    right
    obtain ⟨moving,_⟩ := sound.moves proper
    have same : (next s i).control.ctrlCsr = s.control.ctrlCsr := proper.held working finish
    have fed := congrArg List.length (feed sound.below fits' moving)
    have travelled : DataCut.travel (s.cut.next (catCurInputCtrl s i) (cutReady s i)).stages + _ = _ :=
      DataCut.next_travel moving
    obtain ⟨earlier,split,took,gave,read,behind⟩ := sound.tracks.busy working
    have counted : (next s i).control.readCounter.toNat =
        s.control.readCounter.toNat + (accepted s i).isSome.toNat := by
      cases took : accepted s i with
      | none => simp [next,RescaleControl.next,took,working]
      | some data =>
        have below := proper.input (by rw [took]; rfl)
        simpa [next,RescaleControl.next,took] using toNat_counted below
    have busy' : 1 ≤ (accepted s i).isSome.toNat + (catCurInputCtrl s i).isSome.toNat +
        s.cut.contents.length := by
      by_contra nothing
      have hollow : s.cut.contents = [] := List.length_eq_zero_iff.mp (by omega)
      have quiet : catCurInputCtrl s i = none := by
        cases h : catCurInputCtrl s i
        · rfl
        · simp [h] at nothing
      have fresh : s.pipeInputCounter = 0 := by
        by_contra more
        simp [catCurInputCtrl,laneInputValid,working,bne] at quiet
        exact more quiet.2
      have level := sound.level hollow (by simp [fresh])
      have few : s.control.readCounter.toNat < runLen s.control.ctrlCsr := by
        have unfinished := mt (computationFinish_iff working).mpr (by simp [finish])
        omega
      have offered := eager working few
      have taken : accepted s i = i.data := by simp [accepted,inputReady,working,fresh]
      rw [taken,offered] at nothing
      simp at nothing
    have accepts : ((accepted s i).toList.flatMap (bundles s.control.ctrlCsr)).length =
        p.laneCompCycle * (accepted s i).isSome.toNat := by
      cases accepted s i <;> simp
    have room : (accepted s i).isSome.toNat ≤ runLen s.control.ctrlCsr - s.control.readCounter.toNat := by
      cases took : accepted s i with
      | none => exact Nat.zero_le _
      | some data =>
        have below := proper.input (by rw [took]; rfl)
        simp only [Option.isSome_some,Bool.toNat_true]
        omega
    rw [List.length_append,List.length_append,accepts,length_toList] at fed
    rw [lacking,lacking,same,counted,Nat.sub_add_eq,Nat.mul_sub p.laneCompCycle _ (Bool.toNat _)]
    have whole := Nat.mul_le_mul_left p.laneCompCycle room
    have two := Nat.mul_le_mul_right (accepted s i).isSome.toNat p.two_le_cycle
    change 5 * _ + 4 * _ + DataCut.travel (s.cut.next (catCurInputCtrl s i) (cutReady s i)).stages < _
    omega

/-! ### The unit that is as wide as the data -/

section Wide

variable (even : p.ctrlCsrSetNum ∣ p.laneLen)

include even

theorem wide_sets : p.dataLen / (p.dataLen / p.ctrlCsrSetNum) = p.ctrlCsrSetNum :=
  Nat.div_div_self (even.trans p.whole) (Nat.ne_of_gt (Nat.lt_trans p.laneLen_positive p.several))

theorem wide_grouped : 0 < p.dataLen / (p.dataLen / p.ctrlCsrSetNum) :=
  (wide_sets even).symm ▸ p.ctrlCsrSetNum_positive

theorem wide_enough : 2 + p.dataLen / (p.dataLen / p.ctrlCsrSetNum) / (32 / p.constantType) +
    p.dataLen / (p.dataLen / p.ctrlCsrSetNum) < p.readWriteCsrNum :=
  (wide_sets even).symm ▸ p.enough

/-- `RescaleSIMD` with a lane for every element and the same number of control sets. -/
abbrev wide : RescaleSIMDParams where
  inputType := p.inputType
  outputType := p.outputType
  constantType := p.constantType
  constantMulType := p.constantMulType
  dataLen := p.dataLen
  laneLen := p.dataLen
  readWriteCsrNum := p.readWriteCsrNum
  sharedScaleFactorPerGroupSize := p.dataLen / p.ctrlCsrSetNum
  grouped := wide_grouped even
  enough := wide_enough even

end Wide

theorem set_each_lane : 0 < 8 / 1 := by decide

theorem registers_each_lane : 2 + 8 / 1 / (32 / 8) + 8 / 1 < 13 := by decide

theorem eight_whole : 8 ∣ 64 := by decide

theorem eight_several : 8 < 64 := by decide

def pipelinedConfig : PipelinedRescaleSIMDParams where
  inputType := 32
  outputType := 8
  constantType := 8
  constantMulType := 32
  dataLen := 64
  laneLen := 8
  readWriteCsrNum := 13
  sharedScaleFactorPerGroupSize := 1
  grouped := set_each_lane
  enough := registers_each_lane
  whole := eight_whole
  several := eight_several

/-- The ctrl bits of a run of `len` vectors, and perhaps a vector of equal elements. -/
def cycle (len : BitVec 32) (ctrlValid : Bool) (data : Option (BitVec 32)) (outReady : Bool) :
    Input pipelinedConfig :=
  ⟨RescaleSIMD.halfScale 0 len,ctrlValid,data.map (Vector.replicate 64),outReady⟩

def cleared : CtrlCsr pipelinedConfig.toRescaleSIMDParams := fun _ => ⟨0,0,0,0,0,0,false,0⟩

/-- A run of two vectors: in the cycle in which the first output is complete, the receiver is
not ready. -/
def stalled : List (Input pipelinedConfig) :=
  cycle 2 true none true :: cycle 2 false (some 0) true ::
    (List.replicate 8 (cycle 2 false (some 8) true) ++ cycle 2 false none true ::
      cycle 2 false none false :: List.replicate 10 (cycle 2 false none true))

end PipelinedRescaleSIMD
end Snax
