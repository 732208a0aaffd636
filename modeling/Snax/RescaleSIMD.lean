import Mathlib.Tactic.MkIffOfInductiveProp
import Snax.DataCut
import Snax.Queue
import Snax.Rescale
import Snax.Sync.Machine

/-! `simd/RescaleSIMD.scala`: a register cut, the rescale lanes behind it, and runs of a
configured number of vectors. -/
namespace Snax

variable {p : RescaleSIMDParams}

namespace RescaleSIMD

structure State (p : RescaleSIMDParams) where
  control : RescaleControl p
  cut : DataCut (Vector (BitVec p.inputType) p.dataLen) 1

structure Input (p : RescaleSIMDParams) where
  /-- The ctrl bits of the cycle, valid or not. -/
  ctrl : Vector (BitVec 32) p.readWriteCsrNum
  ctrlValid : Bool
  data : Option (Vector (BitVec p.inputType) p.dataLen)
  outReady : Bool

/-- The handshakes of a cycle. -/
structure Output (p : RescaleSIMDParams) where
  config : Option (CtrlCsr p)
  accepted : Option (Vector (BitVec p.inputType) p.dataLen)
  emitted : Option (Vector (BitVec p.outputType) p.dataLen)
  busy : Bool
  performanceCounter : BitVec 32

/-- The lanes on one input vector. -/
def process (csr : CtrlCsr p) (data : Vector (BitVec p.inputType) p.dataLen) :
    Vector (BitVec p.outputType) p.dataLen := resized _ (csr.lanes (resized _ data))

def configValid (s : State p) (i : Input p) : Bool := i.ctrlValid && s.control.ctrlReady

/-- `io.data.output_o`, valid when it is `some`. -/
def dataOut (s : State p) : Option (Vector (BitVec p.outputType) p.dataLen) :=
  if s.control.busy then s.cut.out.map (process s.control.ctrlCsr) else none

def cutReady (s : State p) (i : Input p) : Bool := i.outReady && s.control.busy

def accepted (s : State p) (i : Input p) : Option (Vector (BitVec p.inputType) p.dataLen) :=
  s.cut.taken i.data (cutReady s i)

def emitted (s : State p) (i : Input p) : Option (Vector (BitVec p.outputType) p.dataLen) :=
  if i.outReady then dataOut s else none

def next (s : State p) (i : Input p) : State p where
  control := s.control.next i.ctrl (configValid s i) (accepted s i).isSome (emitted s i).isSome
  cut := s.cut.next i.data (cutReady s i)

def out (s : State p) (i : Input p) : Output p where
  config := if configValid s i then some (CtrlCsr.decode i.ctrl) else none
  accepted := accepted s i
  emitted := emitted s i
  busy := s.control.busy
  performanceCounter := s.control.performanceCounter

def initial (csr : CtrlCsr p) : State p := ⟨RescaleControl.initial csr,DataCut.empty Nat.one_pos⟩

end RescaleSIMD

def rescaleSIMD (p : RescaleSIMDParams) :
    Sync.Machine (RescaleSIMD.State p) (RescaleSIMD.Input p) (RescaleSIMD.Output p) where
  next := RescaleSIMD.next
  out := RescaleSIMD.out

namespace RescaleSIMD

open Sync.Jobs RescaleControl

/-! ### Histories -/

def configs (history : List (Output p)) : List (CtrlCsr p) := history.filterMap (·.config)

def accepteds (history : List (Output p)) : List (Vector (BitVec p.inputType) p.dataLen) :=
  history.filterMap (·.accepted)

def emitteds (history : List (Output p)) : List (Vector (BitVec p.outputType) p.dataLen) :=
  history.filterMap (·.emitted)

/-- A cycle in which software keeps to the contract: it leaves the ctrl bits alone until the run
is through, and has a vector offered for the run under way only, or together with its
configuration when the read counter is cleared. -/
@[mk_iff]
structure Proper (s : State p) (i : Input p) : Prop where
  held : s.control.busy = true → s.control.computationFinish = false →
    CtrlCsr.decode i.ctrl = s.control.ctrlCsr
  input : (accepted s i).isSome = true →
    if s.control.busy then s.control.readCounter.toNat < runLen s.control.ctrlCsr
    else configValid s i = true ∧ s.control.readCounter = 0 ∧ 0 < runLen (CtrlCsr.decode i.ctrl)

instance (s : State p) (i : Input p) : Decidable (Proper s i) :=
  decidable_of_iff' _ (proper_iff s i)

/-- The vectors that passed the cut are emitted, the others wait in it. -/
structure Sound (history : List (Output p)) (s : State p) : Prop where
  tracks : s.control.Tracks (configs history) (accepteds history).length (emitteds history).length
  outputs : ∃ done, accepteds history = done ++ s.cut.contents ∧
    emitteds history = results runLen process (configs history) done ∧
    (emitteds history).length = done.length

theorem configs_snoc (history : List (Output p)) (s : State p) (i : Input p) :
    configs (history ++ [out s i]) =
      configs history ++ if configValid s i then [CtrlCsr.decode i.ctrl] else [] := by
  rw [configs,List.filterMap_append]
  cases h : configValid s i <;> simp [configs,out,h]

theorem accepteds_snoc (history : List (Output p)) (s : State p) (i : Input p) :
    accepteds (history ++ [out s i]) = accepteds history ++ (accepted s i).toList := by
  rw [accepteds,List.filterMap_append]
  cases h : accepted s i <;> simp [accepteds,out,h]

theorem emitteds_snoc (history : List (Output p)) (s : State p) (i : Input p) :
    emitteds (history ++ [out s i]) = emitteds history ++ (emitted s i).toList := by
  rw [emitteds,List.filterMap_append]
  cases h : emitted s i <;> simp [emitteds,out,h]

/-- What is emitted is what leaves the cut, worked on. -/
theorem emitted_eq (s : State p) (i : Input p) :
    emitted s i = (s.cut.given (cutReady s i)).map (process s.control.ctrlCsr) := by
  cases ready : i.outReady <;> cases working : s.control.busy <;>
    simp [emitted,dataOut,cutReady,DataCut.given,ready,working]

theorem sound_next {history : List (Output p)} {s : State p} {i : Input p}
    (sound : Sound history s) (proper : Proper s i) : Sound (history ++ [out s i]) (next s i) := by
  obtain ⟨done,waiting,worked,count⟩ := sound.outputs
  have conserves := s.cut.next_conserves i.data (cutReady s i)
  have behind (fires : (emitted s i).isSome = true) : s.control.busy = true ∧
      (emitteds history).length < (accepteds history).length := by
    refine ⟨?_,?_⟩
    · by_contra resting
      simp [emitted,dataOut,resting] at fires
    · rw [emitted_eq,Option.isSome_map] at fires
      obtain ⟨x,left⟩ := Option.isSome_iff_exists.mp fires
      have front := s.cut.contents_of_one
      have present : s.cut.out = some x := by
        cases ready : cutReady s i <;> simp [DataCut.given,ready] at left
        exact left
      rw [waiting,front,present,count]
      simp
  have orderly : s.control.Orderly i.ctrl (configValid s i) (accepted s i).isSome
      (emitted s i).isSome (accepteds history).length (emitteds history).length :=
    { config := fun valid => by simpa [configValid,ctrlReady] using (Bool.and_eq_true_iff.mp valid).2
      held := proper.held
      input := proper.input
      output := behind }
  have tracks := tracks_next sound.tracks orderly
  refine ⟨?_,done ++ (s.cut.given (cutReady s i)).toList,?_,?_,?_⟩
  · rw [configs_snoc,accepteds_snoc,emitteds_snoc,List.length_append,List.length_append,
      length_toList,length_toList]
    exact tracks
  · rw [accepteds_snoc,waiting,accepted,List.append_assoc,List.append_assoc,← conserves]
    rfl
  · have few : done.length ≤ (schedule runLen (configs history)).length :=
      count ▸ sound.tracks.given_le.trans sound.tracks.taken_le
    rw [configs_snoc,emitteds_snoc,emitted_eq,worked]
    cases left : s.cut.given (cutReady s i) with
    | none =>
      rw [Option.toList_none,List.append_nil,results_more few]
      exact List.append_nil _
    | some x =>
      have fires : (emitted s i).isSome = true := by rw [emitted_eq,left]; rfl
      obtain ⟨working,more⟩ := behind fires
      have turn := sound.tracks.turn working count.le
        (Nat.lt_of_lt_of_le (count ▸ more) sound.tracks.taken_le)
      have quiet : configValid s i = false := by simp [configValid,ctrlReady,working]
      rw [quiet,if_neg Bool.false_ne_true,List.append_nil,Option.toList_some,results_snoc turn]
      rfl
  · rw [emitteds_snoc,emitted_eq,List.length_append,List.length_append,count]
    cases s.cut.given (cutReady s i) <;> rfl

theorem sound_initial (csr : CtrlCsr p) : Sound [] (initial csr) :=
  ⟨tracks_initial csr,[],by simp [accepteds,initial],rfl,rfl⟩

/-- The receiver is ready, and a vector is offered as long as the run lacks some. -/
def Eager (s : State p) (i : Input p) : Prop :=
  i.outReady = true ∧
    (s.control.busy = true → s.control.readCounter.toNat < runLen s.control.ctrlCsr →
      i.data.isSome = true)

/-- The handshakes that the run under way still lacks. -/
def lacking (s : State p) : Nat :=
  2 * runLen s.control.ctrlCsr - s.control.readCounter.toNat - s.control.writeCounter.toNat

/-- In an eager cycle the run comes to its end, or one handshake further. -/
theorem eager_progress {history : List (Output p)} {s : State p} {i : Input p}
    (sound : Sound history s) (working : s.control.busy = true) (proper : Proper s i)
    (eager : Eager s i) :
    (next s i).control.busy = false ∨ lacking (next s i) < lacking s := by
  obtain ⟨done,waiting,_,count⟩ := sound.outputs
  obtain ⟨earlier,split,took,gave,read,write⟩ := sound.tracks.busy working
  cases finish : s.control.computationFinish with
  | true => exact .inl (by simp [next,RescaleControl.next,working,finish])
  | false =>
    right
    have same := proper.held working finish
    have after := (sound_next sound proper).tracks.busy
      (by simp [next,RescaleControl.next,working,finish])
    have moves : (accepted s i).isSome = true ∨ (emitted s i).isSome = true := by
      cases front : s.cut.out with
      | some x => exact .inr (by simp [emitted,dataOut,eager.1,working,front])
      | none =>
        left
        have hollow : s.cut.contents = [] := by rw [s.cut.contents_of_one,front]; rfl
        have level : s.control.writeCounter.toNat = s.control.readCounter.toNat := by
          rw [waiting,hollow,List.append_nil,← count] at took
          omega
        have more : s.control.readCounter.toNat < runLen s.control.ctrlCsr := by
          have unfinished := mt (computationFinish_iff working).mpr (by simp [finish])
          omega
        simpa [accepted,DataCut.taken,DataCut.inReady,front] using eager.2 working more
    obtain ⟨earlier',split',took',gave',read',write'⟩ := after
    have quiet : configValid s i = false := by simp [configValid,ctrlReady,working]
    have sets : (next s i).control.ctrlCsr = s.control.ctrlCsr := same
    rw [configs_snoc,quiet,if_neg Bool.false_ne_true,List.append_nil,split,sets] at split'
    obtain rfl := List.append_cancel_right split'
    rw [accepteds_snoc,List.length_append,length_toList] at took'
    rw [emitteds_snoc,List.length_append,length_toList] at gave'
    rw [sets] at read'
    have one : 1 ≤ (accepted s i).isSome.toNat + (emitted s i).isSome.toNat := by
      rcases moves with fires | fires <;> rw [fires] <;> simp
    rw [lacking,lacking,sets]
    omega

theorem sound_run (csr : CtrlCsr p) {inputs : List (Input p)}
    (proper : (rescaleSIMD p).Each (fun _ => Proper) (initial csr) inputs) :
    Sound ((rescaleSIMD p).outs (initial csr) inputs) ((rescaleSIMD p).exec (initial csr) inputs) :=
  Sync.Machine.run_rule_each Sound proper (sound_initial csr) fun _ _ _ => sound_next

theorem eight_sets : 0 < 64 / 8 := by decide

theorem thirteen_registers : 2 + 64 / 8 / (32 / 8) + 64 / 8 < 13 := by decide

def defaultConfig : RescaleSIMDParams where
  inputType := 32
  outputType := 8
  constantType := 8
  constantMulType := 32
  dataLen := 64
  laneLen := 64
  readWriteCsrNum := 13
  sharedScaleFactorPerGroupSize := 8
  grouped := eight_sets
  enough := thirteen_registers

/-- Scale by a half and clamp to 8 bits. -/
def halfScale (zeroPoint len : BitVec 32) : Vector (BitVec 32) 13 :=
  Vector.ofFn fun i =>
    if i.val = 0 then 0x807F0000 + (zeroPoint <<< 8)
    else if i.val = 1 then 0
    else if i.val < 4 then 0x01010101
    else if i.val < 12 then 1
    else len

def cycle (zeroPoint : BitVec 32) (ctrlValid offers outReady : Bool) : Input defaultConfig :=
  ⟨halfScale zeroPoint 1,ctrlValid,if offers then some (Vector.replicate 64 0) else none,outReady⟩

def cleared : CtrlCsr defaultConfig := fun _ => ⟨0,0,0,0,0,0,false,0⟩

end RescaleSIMD
end Snax
