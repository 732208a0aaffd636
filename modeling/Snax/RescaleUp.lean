import Snax.DataPathExtension

/-! `RescaleUp.scala`: four output words for every input word. The unit keeps no copy of its
input: a word has to stay on the bus until the last of its output words has left. -/
namespace Snax

open Sync

/-- The control logic has four output words for an input word. -/
structure UpParam extends WidenParam where
  fourfold : outWidth = 4 * inWidth

structure RescaleUpCsr where
  inputZp : BitVec 32
  multiplier : BitVec 32
  outputZp : BitVec 32
  shift : BitVec 32

namespace RescaleUpPE

variable {w : Nat}

def zeroCompensated (csr : RescaleUpCsr) (x : BitVec w) : BitVec (w + 1) :=
  (x.signExtend (max w 32) - csr.inputZp.signExtend (max w 32)).signExtend (w + 1)

def multiplied (csr : RescaleUpCsr) (x : BitVec w) : BitVec (w + 33) :=
  (zeroCompensated csr x).signExtend (w + 33) * csr.multiplier.setWidth (w + 33)

/-- `shift - 1` wraps in the six bits of the port. -/
def shiftedOne (csr : RescaleUpCsr) : BitVec (w + 32) := 1 <<< (csr.shift.setWidth 6 - 1).toNat

def shifted (csr : RescaleUpCsr) (x : BitVec w) : BitVec (w + 32) :=
  ((multiplied csr x).setWidth (w + 32) + shiftedOne csr).sshiftRight (csr.shift.setWidth 6).toNat

def dataOut (v : Nat) (csr : RescaleUpCsr) (x : BitVec w) : BitVec v :=
  (shifted csr x).signExtend v + csr.outputZp.signExtend v

end RescaleUpPE

namespace RescaleUp

inductive CtrlState where
  | idle
  | waitingIdle
  | busy (k : Fin 4)
  | waiting
  deriving DecidableEq

variable {p : UpParam}

theorem four_positive : 0 < 4 := Nat.succ_pos 3

/-- `Busy0`. -/
def CtrlState.busy0 : CtrlState := .busy ⟨0,four_positive⟩

theorem ratio_eq (p : UpParam) : p.ratio = 4 := by
  rw [WidenParam.ratio,p.fourfold,Nat.mul_div_cancel _ p.inPositive]

abbrev Input (p : UpParam) := BusInput RescaleUpCsr p.In

def selfValid : CtrlState → Bool
  | .busy _ => true
  | _ => false

def selfReady (s : CtrlState) (nextReady : Bool) : Bool :=
  match s with
  | .busy k => k.val == 3 && nextReady
  | .waiting => true
  | _ => false

/-- Output word `k` of an input word. -/
def outWord (csr : RescaleUpCsr) (x : p.In) (k : Fin 4) : p.Out := fun i =>
  RescaleUpPE.dataOut _ csr (x (p.lane (k.cast (ratio_eq p).symm) i))

def accepted (s : CtrlState) (i : Input p) : Option p.In :=
  if selfReady s i.ready then i.offered else none

/-- What the bus shows is rescaled whether it is valid or not. -/
def delivered (s : CtrlState) (i : Input p) : Option p.Out :=
  match s with
  | .busy k => if i.ready then some (outWord i.csr i.bits k) else none
  | _ => none

def next (s : CtrlState) (i : Input p) : CtrlState :=
  match s with
  | .idle => if i.start then (if i.valid then .busy0 else .waitingIdle) else .idle
  | .waitingIdle => if i.valid then .busy0 else .waitingIdle
  | .busy k =>
    if i.ready then
      if h : k.val + 1 < 4 then .busy ⟨k.val + 1,h⟩ else if i.valid then .busy0 else .waiting
    else .busy k
  | .waiting => if i.valid then .busy0 else .waiting

def out (s : CtrlState) (i : Input p) : ExtOutput p.In p.Out where
  accepted := accepted s i
  delivered := delivered s i
  busy := selfValid s || i.valid

end RescaleUp

def rescaleUp (p : UpParam) :
    Machine RescaleUp.CtrlState (RescaleUp.Input p) (ExtOutput p.In p.Out) where
  next := RescaleUp.next
  out := RescaleUp.out

namespace RescaleUp

variable {p : UpParam} {s : CtrlState} {i : Input p} {csr : RescaleUpCsr} {xs : Nat → p.In}
  {history : List (ExtOutput p.In p.Out)}

def outWords (csr : RescaleUpCsr) (x : p.In) : List p.Out := List.ofFn (outWord csr x)

/-- The output words of the word on the bus that have left. -/
def progress : CtrlState → Nat
  | .busy k => k.val
  | _ => 0

/-- The words are offered in order, each until it is accepted. -/
def Offers (xs : Nat → p.In) (history : List (ExtOutput p.In p.Out)) (i : Input p) : Prop :=
  i.valid = true → i.bits = xs (acceptedWords history).length

/-- What the unit promises in a cycle. -/
structure UpContract (csr : RescaleUpCsr) (xs : Nat → p.In) (history : List (ExtOutput p.In p.Out))
    (s : CtrlState) (i : Input p) : Prop where
  words : deliveredWords history = (acceptedWords history).flatMap (outWords csr) ++
    (outWords csr (xs (acceptedWords history).length)).take (progress s)
  last : ∀ x, accepted s i = some x →
    ∃ k : Fin 4, k.val = 3 ∧ delivered s i = some (outWord csr x k)
  offered : ∀ y, delivered s i = some y → i.valid = true

/-- A word is on the bus when one of its output words leaves. -/
def Present (s : CtrlState) (i : Input p) : Prop :=
  selfValid s = true → i.ready = true → i.valid = true

@[simp] theorem outWords_length (csr : RescaleUpCsr) (x : p.In) : (outWords csr x).length = 4 := by
  simp [outWords]

theorem take_outWords_succ (csr : RescaleUpCsr) (x : p.In) (k : Fin 4) :
    (outWords csr x).take (k.val + 1) = (outWords csr x).take k.val ++ [outWord csr x k] := by
  have inside : k.val < (outWords csr x).length := by simp
  rw [List.take_succ_eq_append_getElem inside]
  simp only [outWords,List.getElem_ofFn]

/-- The words of a run up to a cycle. -/
structure InOrder (csr : RescaleUpCsr) (xs : Nat → p.In) (history : List (ExtOutput p.In p.Out))
    (s : CtrlState) : Prop where
  words : deliveredWords history = (acceptedWords history).flatMap (outWords csr) ++
    (outWords csr (xs (acceptedWords history).length)).take (progress s)
  running : s ≠ .waiting

/-- An output word leaves while its word is on the bus. -/
theorem InOrder.leave {k : Fin 4} (inOrder : InOrder csr xs history (.busy k)) (stable : i.csr = csr)
    (offers : Offers xs history i) (ready : i.ready = true) (valid : i.valid = true) :
    InOrder csr xs (history ++ [out (.busy k) i]) (next (.busy k) i) := by
  have bits := offers valid
  have given : (out (.busy k) i).delivered = some (outWord csr i.bits k) := by
    simp [out,delivered,ready,stable]
  have words := inOrder.words
  by_cases early : k.val + 1 < 4
  · have taken : (out (.busy k) i).accepted = none := by
      have other : k.val ≠ 3 := by omega
      simp [out,accepted,selfReady,other]
    have moved : next (.busy k) i = .busy ⟨k.val + 1,early⟩ := by simp [next,ready,early]
    rw [moved]
    refine ⟨?_,nofun⟩
    rw [deliveredWords_concat,acceptedWords_concat,given,taken,words,progress,progress,
      Option.toList_none,List.append_nil,take_outWords_succ,← bits,List.append_assoc]
    rfl
  · have last : k.val = 3 := by omega
    have taken : (out (.busy k) i).accepted = some i.bits := by
      simp [out,accepted,selfReady,last,ready,BusInput.offered,valid]
    have moved : next (.busy k) i = .busy0 := by simp [next,ready,last,valid]
    have all : (outWords csr i.bits).take k.val ++ [outWord csr i.bits k] = outWords csr i.bits := by
      rw [← take_outWords_succ csr i.bits k]
      exact List.take_of_length_le (by simp [last])
    rw [moved]
    refine ⟨?_,nofun⟩
    rw [deliveredWords_concat,acceptedWords_concat,given,taken,words,← bits]
    simp only [progress,CtrlState.busy0,Option.toList_some,List.flatMap_append,
      List.flatMap_singleton,List.take_zero,List.append_nil]
    rw [List.append_assoc]
    exact congrArg _ all

/-- A cycle in which the unit has no word, or the receiver is not ready. -/
theorem InOrder.stay (inOrder : InOrder csr xs history s)
    (still : selfValid s = true → i.ready = false) :
    InOrder csr xs (history ++ [out s i]) (next s i) := by
  have given : (out s i).delivered = none := by
    cases s <;> simp_all [out,delivered,selfValid]
  have taken : (out s i).accepted = none := by
    have running := inOrder.running
    cases s <;> simp_all [out,accepted,selfReady,selfValid]
  have same : progress (next s i) = progress s ∧ next s i ≠ .waiting := by
    have running := inOrder.running
    cases s with
    | idle =>
      cases start : i.start <;> cases valid : i.valid <;>
        simp [next,progress,start,valid,CtrlState.busy0]
    | waitingIdle => cases valid : i.valid <;> simp [next,progress,valid,CtrlState.busy0]
    | busy k => simp [next,progress,still rfl]
    | waiting => exact absurd rfl running
  refine ⟨?_,same.2⟩
  rw [deliveredWords_concat,acceptedWords_concat,given,taken,same.1]
  simpa using inOrder.words

theorem InOrder.next (inOrder : InOrder csr xs history s) (stable : s ≠ .idle → i.csr = csr)
    (offers : Offers xs history i) (present : Present s i) :
    InOrder csr xs (history ++ [out s i]) (next s i) := by
  by_cases leaves : selfValid s = true ∧ i.ready = true
  · cases s with
    | busy k => exact inOrder.leave (stable nofun) offers leaves.2 (present leaves.1 leaves.2)
    | _ => simp [selfValid] at leaves
  · exact inOrder.stay fun valid => by simpa [valid] using leaves

theorem InOrder.contract (inOrder : InOrder csr xs history s) (stable : s ≠ .idle → i.csr = csr)
    (present : Present s i) : UpContract csr xs history s i := by
  refine ⟨inOrder.words,fun x taken => ?_,fun y given => ?_⟩
  · have running := inOrder.running
    cases s with
    | busy k =>
      simp only [accepted,selfReady,Option.ite_none_right_eq_some,Bool.and_eq_true,beq_iff_eq] at taken
      obtain ⟨⟨last,ready⟩,offered⟩ := taken
      have bits : i.bits = x := by
        unfold BusInput.offered at offered
        split at offered
        · exact Option.some.inj offered
        · contradiction
      exact ⟨k,last,by simp [delivered,ready,stable nofun,bits]⟩
    | waiting => exact absurd rfl running
    | _ => simp [accepted,selfReady] at taken
  · cases s with
    | busy k =>
      have ready : i.ready = true := by
        by_contra stalled
        simp [delivered,stalled] at given
      exact present rfl ready
    | _ => simp [delivered] at given

/-- The contract holds in every cycle of a run exactly if in every cycle in which an output
word leaves a word is on the bus. -/
theorem rescale_up (p : UpParam) {csr : RescaleUpCsr} {xs : Nat → p.In} {inputs : List (Input p)}
    (stable : (rescaleUp p).Each (fun _ s i => s ≠ .idle → i.csr = csr) .idle inputs)
    (offers : (rescaleUp p).Each (fun history _ i => Offers xs history i) .idle inputs) :
    (rescaleUp p).Each (UpContract csr xs) .idle inputs ↔
      (rescaleUp p).Each (fun _ s i => Present s i) .idle inputs := by
  constructor
  · intro contract
    refine contract.mono fun history s i kept valid ready => ?_
    cases s with
    | busy k => exact kept.offered (outWord i.csr i.bits k) (by simp [delivered,ready])
    | _ => simp [selfValid] at valid
  · intro present
    have each := (stable.and offers).and present
    have inOrder := Machine.each_of_run_rule (fun history s => InOrder csr xs history s) each
      ⟨rfl,nofun⟩ fun _ _ _ inOrder both => inOrder.next both.1.1 both.1.2 both.2
    exact (inOrder.and each).mono fun _ _ _ both => both.1.contract both.2.1.1 both.2.2

theorem lane_positive : 0 < 8 := Nat.succ_pos 7
theorem lane_wider : 8 ≤ 32 := Nat.le_add_right 8 24
theorem lane_elements : 8 ∣ 32 := ⟨4,rfl⟩
theorem lane_whole : 32 ∣ 32 := Nat.dvd_refl 32
theorem lane_fourfold : 32 = 4 * 8 := rfl

/-- Four elements of 8 bits in a word, one of 32 bits in an output word. -/
def oneLane : UpParam where
  inWidth := 8
  outWidth := 32
  dataWidth := 32
  inPositive := lane_positive
  wider := lane_wider
  inElements := lane_elements
  outElements := lane_whole
  fourfold := lane_fourfold

/-- A configuration that leaves the elements as they are. -/
def unchanged : RescaleUpCsr := ⟨0,2,0,1⟩

/-- A word of zeros with the start pulse and four cycles more, under a ready receiver. -/
def oneWord : List (Input oneLane) :=
  ⟨unchanged,true,true,fun _ => 0,true⟩ :: List.replicate 4 ⟨unchanged,false,true,fun _ => 0,true⟩

def noWord : Input oneLane := ⟨unchanged,false,false,fun _ => 0,true⟩

theorem stable_of_inputs {inputs : List (Input p)} (all : ∀ i ∈ inputs, i.csr = csr) :
    (rescaleUp p).Each (fun _ s i => s ≠ .idle → i.csr = csr) .idle inputs :=
  (Machine.Each.of_inputs all).mono fun _ _ _ same _ => same

theorem offers_of_inputs {x : p.In} {inputs : List (Input p)} (all : ∀ i ∈ inputs, i.bits = x) :
    (rescaleUp p).Each (fun history _ i => Offers (fun _ => x) history i) .idle inputs :=
  (Machine.Each.of_inputs all).mono fun _ _ _ same _ => same

theorem rescale_up_oneWord :
    (rescaleUp oneLane).Each (UpContract unchanged fun _ _ => 0) .idle oneWord ↔
      (rescaleUp oneLane).Each (fun _ s i => Present s i) .idle oneWord :=
  rescale_up oneLane (stable_of_inputs (by simp [oneWord]))
    (offers_of_inputs (x := fun _ => 0) (by simp [oneWord]))

/-- In the cycle after the last output word the idle bus is rescaled and handed out. -/
theorem rescale_up_bubble :
    ¬ ∀ (p : UpParam) (csr : RescaleUpCsr) (xs : Nat → p.In) (inputs : List (Input p)),
      (rescaleUp p).Each (fun _ s i => s ≠ .idle → i.csr = csr) .idle inputs →
      (rescaleUp p).Each (fun history _ i => Offers xs history i) .idle inputs →
        (rescaleUp p).Each (UpContract csr xs) .idle inputs := by
  intro all
  have contract := (all oneLane unchanged (fun _ _ => 0) (oneWord ++ [noWord])
    (stable_of_inputs (by simp [oneWord,noWord]))
    (offers_of_inputs (x := fun _ => 0) (by simp [oneWord,noWord]))).last
  have busy : (rescaleUp oneLane).exec .idle oneWord = .busy0 := by decide +kernel
  have valid := contract.offered (outWord unchanged (fun _ => 0) ⟨0,four_positive⟩) (by rw [busy]; rfl)
  exact absurd valid (by decide)

end RescaleUp
end Snax
