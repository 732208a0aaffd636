import Mathlib.Data.Fintype.Basic
import Snax.Sync.Jobs

/-! What the two rescale units of `simd/` share: `RescalePE.scala`, and of
`RescaleSIMD.scala` the control sets, the counters and the two states. -/
namespace Snax

/-- Elaboration asks for a control set at least, and for enough control registers. -/
structure RescaleSIMDParams where
  inputType : Nat
  outputType : Nat
  constantType : Nat
  constantMulType : Nat
  dataLen : Nat
  laneLen : Nat
  readWriteCsrNum : Nat
  sharedScaleFactorPerGroupSize : Nat
  grouped : 0 < laneLen / sharedScaleFactorPerGroupSize
  enough : 2 + laneLen / sharedScaleFactorPerGroupSize / (32 / constantType) +
    laneLen / sharedScaleFactorPerGroupSize < readWriteCsrNum

namespace RescaleSIMDParams

def ctrlCsrSetNum (p : RescaleSIMDParams) : Nat := p.laneLen / p.sharedScaleFactorPerGroupSize

def packedShiftNum (p : RescaleSIMDParams) : Nat := 32 / p.constantType

theorem ctrlCsrSetNum_positive (p : RescaleSIMDParams) : 0 < p.ctrlCsrSetNum := p.grouped

end RescaleSIMDParams

/-- The elements of a word, the least significant first, cut or filled up to `n`. -/
def resized (n : Nat) (word : Vector (BitVec w) m) : Vector (BitVec w) n :=
  Vector.ofFn fun i => word.toList.getD i 0

variable {p : RescaleSIMDParams}

structure RescalePECtrl (p : RescaleSIMDParams) where
  inputZp : BitVec p.constantType
  outputZp : BitVec p.constantType
  multiplier : BitVec p.constantMulType
  shift : BitVec p.constantType
  maxInt : BitVec p.constantType
  minInt : BitVec p.constantType
  doubleRound : Bool
  len : BitVec 32
  deriving DecidableEq

namespace RescalePE

/-- The difference is as wide as the wider operand before it is extended. -/
def var0 (ctrl : RescalePECtrl p) (input : BitVec p.inputType) : BitVec 64 :=
  let wide := max p.inputType p.constantType
  (input.signExtend wide - ctrl.inputZp.signExtend wide).signExtend 64 * ctrl.multiplier.signExtend 64

/-- `io.ctrl_i.shift_i.asUInt - 1.U` wraps. -/
def var1 (ctrl : RescalePECtrl p) (input : BitVec p.inputType) : BitVec 32 :=
  ((var0 ctrl input).sshiftRight (ctrl.shift - 1).toNat).extractLsb' 0 32

def var2 (ctrl : RescalePECtrl p) (input : BitVec p.inputType) : BitVec 32 :=
  let rounded :=
    if ctrl.doubleRound then
      (if (var1 ctrl input).msb then var1 ctrl input - 1 else var1 ctrl input + 1)
    else var1 ctrl input
  (rounded.sshiftRight 1).signExtend (max 32 p.constantType) +
    ctrl.outputZp.signExtend (max 32 p.constantType) |>.setWidth 32

/-- Clamping. -/
def var3 (ctrl : RescalePECtrl p) (input : BitVec p.inputType) : BitVec 32 :=
  if ctrl.maxInt.toInt < (var2 ctrl input).toInt then ctrl.maxInt.signExtend 32
  else if (var2 ctrl input).toInt < ctrl.minInt.toInt then ctrl.minInt.signExtend 32
  else var2 ctrl input

def output (ctrl : RescalePECtrl p) (input : BitVec p.inputType) : BitVec p.outputType :=
  ((var3 ctrl input).extractLsb' 0 8).signExtend p.outputType

end RescalePE

/-- `ctrl_csr`: the control sets, each for the lanes of its residue. -/
abbrev CtrlCsr (p : RescaleSIMDParams) := Fin p.ctrlCsrSetNum → RescalePECtrl p

namespace CtrlCsr

/-- What the ctrl bits of a cycle set the control sets to. -/
def decode (ctrl : Vector (BitVec 32) p.readWriteCsrNum) : CtrlCsr p := fun i =>
  let csr (k : Nat) : BitVec 32 := ctrl.toList.getD k 0
  { inputZp := ((csr 0).extractLsb' 0 8).signExtend _
    outputZp := ((csr 0).extractLsb' 8 8).signExtend _
    maxInt := ((csr 0).extractLsb' 16 8).signExtend _
    minInt := ((csr 0).extractLsb' 24 8).signExtend _
    doubleRound := (csr 1).getLsbD 0
    shift := (csr (2 + i / p.packedShiftNum)).extractLsb' (i % p.packedShiftNum * p.constantType) _
    multiplier := (csr (2 + p.ctrlCsrSetNum / p.packedShiftNum + i)).signExtend _
    len := csr (2 + p.ctrlCsrSetNum / p.packedShiftNum + p.ctrlCsrSetNum) }

def len (csr : CtrlCsr p) : BitVec 32 := (csr ⟨0,p.ctrlCsrSetNum_positive⟩).len

def ofLane (csr : CtrlCsr p) (lane : Nat) : RescalePECtrl p :=
  csr ⟨lane % p.ctrlCsrSetNum,Nat.mod_lt _ p.ctrlCsrSetNum_positive⟩

/-- The lanes side by side. -/
def lanes (csr : CtrlCsr p) (inputs : Vector (BitVec p.inputType) p.laneLen) :
    Vector (BitVec p.outputType) p.laneLen :=
  Vector.ofFn fun i => RescalePE.output (csr.ofLane i) (inputs.get i)

end CtrlCsr

/-- The registers that both units have. `busy` is `cstate === sBUSY`. -/
structure RescaleControl (p : RescaleSIMDParams) where
  ctrlCsr : CtrlCsr p
  readCounter : BitVec 32
  writeCounter : BitVec 32
  busy : Bool
  performanceCounter : BitVec 32

namespace RescaleControl

/-- After reset; the control sets have no reset value. -/
def initial (ctrlCsr : CtrlCsr p) : RescaleControl p := ⟨ctrlCsr,0,0,false,0⟩

def computationFinish (c : RescaleControl p) : Bool :=
  c.readCounter == c.ctrlCsr.len && c.writeCounter == c.ctrlCsr.len && c.busy

def ctrlReady (c : RescaleControl p) : Bool := !c.busy

def next (c : RescaleControl p) (ctrl : Vector (BitVec 32) p.readWriteCsrNum)
    (configValid inputFire outputFire : Bool) : RescaleControl p where
  ctrlCsr := CtrlCsr.decode ctrl
  readCounter :=
    if inputFire then c.readCounter + 1 else if c.busy then c.readCounter else 0
  writeCounter :=
    if outputFire then c.writeCounter + 1 else if c.busy then c.writeCounter else 0
  busy := if c.busy then !c.computationFinish else configValid
  performanceCounter :=
    if c.busy then c.performanceCounter + 1 else if configValid then 0 else c.performanceCounter

/-- The length of a run, of the control sets it runs with. -/
abbrev runLen (csr : CtrlCsr p) : Nat := csr.len.toNat

open Sync.Jobs

/-- The counters count the vectors of the run that is under way, and an idle unit is through
with all of its runs. -/
structure Tracks (c : RescaleControl p) (runs : List (CtrlCsr p)) (taken given : Nat) : Prop where
  idle : c.busy = false → taken = (schedule runLen runs).length ∧ given = (schedule runLen runs).length
  busy : c.busy = true → ∃ earlier, runs = earlier ++ [c.ctrlCsr] ∧
    taken = (schedule runLen earlier).length + c.readCounter.toNat ∧
    given = (schedule runLen earlier).length + c.writeCounter.toNat ∧
    c.readCounter.toNat ≤ runLen c.ctrlCsr ∧ c.writeCounter.toNat ≤ c.readCounter.toNat

theorem tracks_initial (csr : CtrlCsr p) : (initial csr).Tracks [] 0 0 where
  idle _ := ⟨rfl,rfl⟩
  busy working := nomatch working

theorem Tracks.taken_le {c : RescaleControl p} {runs : List (CtrlCsr p)} {taken given : Nat}
    (tracks : c.Tracks runs taken given) : taken ≤ (schedule runLen runs).length := by
  cases working : c.busy with
  | false => exact (tracks.idle working).1.le
  | true =>
    obtain ⟨earlier,split,took,_,few,_⟩ := tracks.busy working
    rw [took,split,length_schedule_snoc]
    exact Nat.add_le_add_left few _

theorem Tracks.given_le {c : RescaleControl p} {runs : List (CtrlCsr p)} {taken given : Nat}
    (tracks : c.Tracks runs taken given) : given ≤ taken := by
  cases working : c.busy with
  | false => exact ((tracks.idle working).2.trans (tracks.idle working).1.symm).le
  | true =>
    obtain ⟨earlier,_,took,gave,_,behind⟩ := tracks.busy working
    omega

/-- The run under way is the one whose turn it is. -/
theorem Tracks.turn {c : RescaleControl p} {runs : List (CtrlCsr p)} {taken given : Nat}
    (tracks : c.Tracks runs taken given) (working : c.busy = true) {n : Nat} (gave : given ≤ n)
    (few : n < (schedule runLen runs).length) : (schedule runLen runs)[n]? = some c.ctrlCsr := by
  obtain ⟨earlier,split,_,written,_,_⟩ := tracks.busy working
  rw [split,length_schedule_snoc] at few
  obtain ⟨more,rfl⟩ := Nat.exists_eq_add_of_le
    (show (schedule runLen earlier).length ≤ n by omega)
  rw [split]
  exact schedule_last (by omega)

theorem computationFinish_iff {c : RescaleControl p} (working : c.busy = true) :
    c.computationFinish = true ↔
      c.readCounter.toNat = runLen c.ctrlCsr ∧ c.writeCounter.toNat = runLen c.ctrlCsr := by
  simp only [computationFinish,working,Bool.and_true,Bool.and_eq_true,beq_iff_eq]
  rw [BitVec.toNat_eq,BitVec.toNat_eq]

theorem toNat_counted {count len : BitVec 32} (below : count.toNat < len.toNat) :
    (count + 1).toNat = count.toNat + 1 := by
  have := len.isLt
  rw [BitVec.toNat_add]
  exact Nat.mod_eq_of_lt (by simp; omega)

/-- What a cycle may do for the counters to keep up: the control sets stay as they are until
the run is through, a vector is taken for the run under way or with the configuration that
starts one, and only what was taken is given. -/
structure Orderly (c : RescaleControl p) (ctrl : Vector (BitVec 32) p.readWriteCsrNum)
    (configValid inputFire outputFire : Bool) (taken given : Nat) : Prop where
  config : configValid = true → c.busy = false
  held : c.busy = true → c.computationFinish = false → CtrlCsr.decode ctrl = c.ctrlCsr
  input : inputFire = true → if c.busy then c.readCounter.toNat < runLen c.ctrlCsr
    else configValid = true ∧ c.readCounter = 0 ∧ 0 < runLen (CtrlCsr.decode ctrl)
  output : outputFire = true → c.busy = true ∧ given < taken

theorem tracks_next {c : RescaleControl p} {runs : List (CtrlCsr p)} {taken given : Nat}
    (tracks : c.Tracks runs taken given) {ctrl : Vector (BitVec 32) p.readWriteCsrNum}
    {configValid inputFire outputFire : Bool}
    (orderly : c.Orderly ctrl configValid inputFire outputFire taken given) :
    (c.next ctrl configValid inputFire outputFire).Tracks
      (runs ++ if configValid then [CtrlCsr.decode ctrl] else [])
      (taken + inputFire.toNat) (given + outputFire.toNat) := by
  cases working : c.busy with
  | false =>
    obtain ⟨through,emptied⟩ := tracks.idle working
    have silent : outputFire = false := by
      by_contra fires
      simpa [working] using (orderly.output (by simpa using fires)).1
    cases configValid with
    | false =>
      have closed : inputFire = false := by
        by_contra fires
        simpa [working] using orderly.input (by simpa using fires)
      subst silent closed
      refine ⟨fun _ => by simpa using ⟨through,emptied⟩,fun started => ?_⟩
      simp [next,working] at started
    | true =>
      subst silent
      refine ⟨fun started => ?_,fun _ => ⟨runs,rfl,?_⟩⟩
      · simp [next,working] at started
      · cases inputFire with
        | false => simp [next,working,through,emptied]
        | true =>
          have fresh := orderly.input rfl
          simp only [working,Bool.false_eq_true,↓reduceIte] at fresh
          obtain ⟨_,zero,some⟩ := fresh
          simp only [next,working,zero,through,emptied,↓reduceIte,Bool.false_eq_true,
            Bool.toNat_true,Bool.toNat_false,Nat.add_zero]
          refine ⟨rfl,rfl,some,Nat.zero_le _⟩
  | true =>
    obtain ⟨earlier,split,took,gave,few,behind⟩ := tracks.busy working
    have quiet : configValid = false := by
      by_contra fires
      simpa [working] using orderly.config (by simpa using fires)
    subst quiet
    have total : (schedule runLen runs).length =
        (schedule runLen earlier).length + runLen c.ctrlCsr := by
      rw [split,length_schedule_snoc]
    cases finish : c.computationFinish with
    | true =>
      obtain ⟨allRead,allWritten⟩ := (computationFinish_iff working).mp finish
      have closed : inputFire = false := by
        by_contra fires
        have more := orderly.input (by simpa using fires)
        simp only [working,↓reduceIte] at more
        omega
      have silent : outputFire = false := by
        by_contra fires
        have more := (orderly.output (by simpa using fires)).2
        omega
      subst closed silent
      refine ⟨fun _ => ?_,fun still => ?_⟩
      · simp only [Bool.false_eq_true,↓reduceIte,List.append_nil,Bool.toNat_false,Nat.add_zero]
        omega
      · simp [next,working,finish] at still
    | false =>
      have same := orderly.held working finish
      refine ⟨fun ended => ?_,fun _ => ⟨earlier,?_,?_⟩⟩
      · simp [next,working,finish] at ended
      · simp only [next,same,Bool.false_eq_true,↓reduceIte,List.append_nil]
        exact split
      · have read : (if inputFire then c.readCounter + 1 else c.readCounter).toNat =
            c.readCounter.toNat + inputFire.toNat ∧
            c.readCounter.toNat + inputFire.toNat ≤ runLen c.ctrlCsr := by
          cases inputFire with
          | false => exact ⟨rfl,few⟩
          | true =>
            have below := orderly.input rfl
            simp only [working,↓reduceIte] at below
            exact ⟨toNat_counted below,below⟩
        have written : (if outputFire then c.writeCounter + 1 else c.writeCounter).toNat =
            c.writeCounter.toNat + outputFire.toNat ∧
            c.writeCounter.toNat + outputFire.toNat ≤ c.readCounter.toNat := by
          cases outputFire with
          | false => exact ⟨rfl,behind⟩
          | true =>
            have more := (orderly.output rfl).2
            have below : c.writeCounter.toNat < c.readCounter.toNat := by omega
            exact ⟨toNat_counted below,below⟩
        simp only [next,same,working,↓reduceIte,read.1,written.1]
        refine ⟨by omega,by omega,read.2,by omega⟩

end RescaleControl
end Snax
