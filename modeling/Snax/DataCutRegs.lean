import Mathlib.Data.List.OfFn
import Snax.DecoupledCut
import Snax.Sync.Machine

/-! `DataCut` at its registers, the two shift registers and `insideCounter`, and over whole runs. The
two versions of the file differ in the bits that the data register holds at reset, so these are left
open here. -/
namespace Snax

/-- `ShiftRegister(input, delay, en)`, the output register first. -/
def shiftRegister {β : Type} {delay : Nat} (regs : Fin delay → β) (input : β) (en : Bool) :
    Fin delay → β :=
  if en then fun k => if behind : k.val + 1 < delay then regs ⟨k.val + 1,behind⟩ else input
  else regs

theorem ofFn_shiftRegister {β : Type} {delay : Nat} (positive : 0 < delay) (regs : Fin delay → β)
    (input : β) : List.ofFn (shiftRegister regs input true) = (List.ofFn regs).tail ++ [input] := by
  refine List.ext_getElem (by simp; omega) fun k inside _ => ?_
  rw [List.length_ofFn] at inside
  rw [List.getElem_ofFn,List.getElem_append]
  simp only [shiftRegister,↓reduceIte,List.length_tail,List.length_ofFn,List.getElem_tail,
    List.getElem_ofFn,List.getElem_singleton]
  by_cases behind : k + 1 < delay
  · rw [dif_pos behind,dif_pos (by omega)]
  · rw [dif_neg behind,dif_neg (by omega)]

structure DataCutRegs (α : Type) (delay : Nat) where
  bits : Fin delay → α
  valids : Fin delay → Bool
  insideCounter : Nat
  positive : 0 < delay

/-- `io.in` and `io.out.ready`. -/
structure CutInput (α : Type) where
  enq : DataBus α
  deqReady : Bool

/-- The handshakes of a cycle, and whether the registers shift. -/
structure CutEvent (α : Type) where
  accepted : Option α
  delivered : Option α
  shift : Bool

namespace DataCutRegs

variable {α : Type} {delay : Nat}

def outValid (r : DataCutRegs α delay) : Bool := r.valids ⟨0,r.positive⟩

def outBits (r : DataCutRegs α delay) : α := r.bits ⟨0,r.positive⟩

def shiftPermission (r : DataCutRegs α delay) (i : CutInput α) : Bool :=
  (r.outValid && i.deqReady) || !r.outValid

def dataInsideShiftRegister (r : DataCutRegs α delay) : Bool := r.insideCounter != delay

def shiftSuggestion (r : DataCutRegs α delay) (i : CutInput α) : Bool :=
  r.dataInsideShiftRegister || i.enq.valid

def shift (r : DataCutRegs α delay) (i : CutInput α) : Bool :=
  r.shiftPermission i && r.shiftSuggestion i

def next (r : DataCutRegs α delay) (i : CutInput α) : DataCutRegs α delay where
  bits := shiftRegister r.bits i.enq.bits (r.shift i)
  valids := shiftRegister r.valids i.enq.valid (r.shift i)
  insideCounter :=
    if i.enq.valid then 0
    else if r.shift i then (if r.insideCounter = delay then 0 else r.insideCounter + 1)
    else r.insideCounter
  positive := r.positive

def event (r : DataCutRegs α delay) (i : CutInput α) : CutEvent α where
  accepted := if r.shiftPermission i && i.enq.valid then some i.enq.bits else none
  delivered := if r.outValid && i.deqReady then some r.outBits else none
  shift := r.shift i

def machine (α : Type) (delay : Nat) :
    Sync.Machine (DataCutRegs α delay) (CutInput α) (CutEvent α) where
  next := next
  out := event

/-- At reset the valid bits are low and the counter is zero. -/
def reset (bits : Fin delay → α) (positive : 0 < delay) : DataCutRegs α delay :=
  ⟨bits,fun _ => false,0,positive⟩

/-- The words in the registers, the oldest first. -/
def contents (r : DataCutRegs α delay) : List α :=
  (List.ofFn fun k => if r.valids k then some (r.bits k) else none).filterMap id

end DataCutRegs

/-! ### The stages -/
namespace DataCut

variable {α : Type} {delay : Nat} {d : DataCut α delay}

/-- The registers of a pipeline, with any bits where a stage is empty. -/
structure Holds (d : DataCut α delay) (r : DataCutRegs α delay) : Prop where
  stages : d.stages = List.ofFn fun k => if r.valids k then some (r.bits k) else none
  counter : d.insideCounter = r.insideCounter

def machine (α : Type) (delay : Nat) :
    Sync.Machine (DataCut α delay) (CutInput α) (CutEvent α) where
  next d i := d.next i.enq.offered i.deqReady
  out d i :=
    { accepted := d.taken i.enq.offered i.deqReady
      delivered := d.given i.deqReady
      shift := d.shift i.enq.offered i.deqReady }

theorem holds_reset (bits : Fin delay → α) (positive : 0 < delay) :
    (empty positive : DataCut α delay).Holds (.reset bits positive) where
  stages := by simp [empty,DataCutRegs.reset]
  counter := rfl

theorem Holds.out {r : DataCutRegs α delay} (holds : d.Holds r) :
    d.out = if r.outValid then some r.outBits else none := by
  have first : d.stages[0]? = some (if r.outValid then some r.outBits else none) := by
    rw [holds.stages,List.getElem?_eq_getElem (by simpa using r.positive),List.getElem_ofFn]
    rfl
  rw [DataCut.out,List.head?_eq_getElem?,first]
  rfl

theorem Holds.outIsSome {r : DataCutRegs α delay} (holds : d.Holds r) : d.out.isSome = r.outValid := by
  rw [holds.out]
  cases r.outValid <;> rfl

theorem Holds.inReady {r : DataCutRegs α delay} (holds : d.Holds r) (i : CutInput α) :
    d.inReady i.deqReady = r.shiftPermission i := by
  rw [DataCut.inReady,← Option.not_isSome,holds.outIsSome,DataCutRegs.shiftPermission]

theorem Holds.shift {r : DataCutRegs α delay} (holds : d.Holds r) (i : CutInput α) :
    d.shift i.enq.offered i.deqReady = r.shift i := by
  rw [DataCut.shift,holds.inReady,holds.counter,DataBus.offered_isSome]
  rfl

theorem Holds.next {r : DataCutRegs α delay} (holds : d.Holds r) (i : CutInput α) :
    (d.next i.enq.offered i.deqReady).Holds (r.next i) where
  stages := by
    rw [next_stages,nextStages,holds.shift]
    cases moving : r.shift i with
    | false => simpa [DataCutRegs.next,shiftRegister,moving] using holds.stages
    | true =>
      rw [if_pos rfl,holds.stages,← ofFn_shiftRegister r.positive]
      congr 1
      funext k
      simp only [DataCutRegs.next,shiftRegister,moving,if_true]
      split <;> rfl
  counter := by
    change d.nextCounter i.enq.offered i.deqReady = _
    rw [nextCounter,holds.shift,holds.counter,DataBus.offered_isSome]
    rfl

/-- The registers do in each cycle what the stages do. -/
theorem Holds.event {r : DataCutRegs α delay} (holds : d.Holds r) (i : CutInput α) :
    r.event i = (machine α delay).out d i := by
  have taken : (if r.shiftPermission i && i.enq.valid then some i.enq.bits else none) =
      d.taken i.enq.offered i.deqReady := by
    rw [DataCut.taken,holds.inReady,DataBus.offered]
    cases r.shiftPermission i <;> rfl
  have given : (if r.outValid && i.deqReady then some r.outBits else none) = d.given i.deqReady := by
    rw [DataCut.given,holds.out]
    cases r.outValid <;> cases i.deqReady <;> rfl
  rw [DataCutRegs.event,taken,given,← holds.shift]
  rfl

theorem Holds.contents {r : DataCutRegs α delay} (holds : d.Holds r) : r.contents = d.contents := by
  rw [DataCut.contents,holds.stages,DataCutRegs.contents]

/-- The registers follow the stages over every run. -/
theorem Holds.run {r : DataCutRegs α delay} (holds : d.Holds r) (inputs : List (CutInput α)) :
    (DataCutRegs.machine α delay).outs r inputs = (machine α delay).outs d inputs ∧
      ((machine α delay).exec d inputs).Holds ((DataCutRegs.machine α delay).exec r inputs) := by
  induction inputs generalizing d r with
  | nil => exact ⟨rfl,holds⟩
  | cons i rest ih =>
    obtain ⟨outputs,reached⟩ := ih (holds.next i)
    refine ⟨?_,reached⟩
    rw [Sync.Machine.outs_cons,Sync.Machine.outs_cons]
    exact congrArg₂ List.cons (holds.event i) outputs

/-! ### With an output that is ready -/

theorem stages_of_hollow (hollow : d.contents = []) : d.stages = List.replicate delay none := by
  refine List.eq_replicate_iff.mpr ⟨d.length_eq,fun stage inside => ?_⟩
  cases stage with
  | none => rfl
  | some x =>
    have member : x ∈ d.contents := List.mem_filterMap.mpr ⟨some x,inside,rfl⟩
    rw [hollow] at member
    exact absurd member List.not_mem_nil

/-- Whether or not the registers shift, the stages move on by one. -/
theorem next_stages_ready (d : DataCut α delay) (input : Option α) :
    (d.next input true).stages = d.stages.tail ++ [input] := by
  rw [next_stages,nextStages]
  by_cases moving : d.shift input true = true
  · rw [if_pos moving]
  · obtain ⟨hollow,rfl⟩ := empty_of_still d.inReady_true moving
    obtain ⟨behind,rfl⟩ := Nat.exists_eq_succ_of_ne_zero (Nat.ne_of_gt d.positive)
    rw [if_neg moving,stages_of_hollow hollow,List.replicate_succ,List.tail_cons,
      ← List.replicate_succ,List.replicate_succ']

theorem exec_stages_ready {inputs : List (CutInput α)} (ready : ∀ i ∈ inputs, i.deqReady = true) :
    ((machine α delay).exec d inputs).stages =
      (d.stages ++ inputs.map (·.enq.offered)).drop inputs.length := by
  induction inputs generalizing d with
  | nil => simp
  | cons i rest ih =>
    have here : i.deqReady = true := ready i List.mem_cons_self
    rw [Sync.Machine.exec_cons,ih fun j inside => ready j (List.mem_cons_of_mem _ inside)]
    have moved : ((machine α delay).next d i).stages = d.stages.tail ++ [i.enq.offered] := by
      change (d.next i.enq.offered i.deqReady).stages = _
      rw [here,next_stages_ready]
    rw [moved,List.length_cons,List.map_cons,d.stages_eq,List.cons_append,List.drop_succ_cons,
      List.tail_cons,List.append_assoc,List.singleton_append]

/-- A word that was taken in so many ready cycles ago, not more than there are stages. -/
theorem exec_stages_since {i : CutInput α} {since : List (CutInput α)}
    (ready : ∀ j ∈ i :: since, j.deqReady = true) (near : since.length < delay) :
    ((machine α delay).exec d (i :: since)).stages =
      d.stages.drop (since.length + 1) ++ i.enq.offered :: since.map (·.enq.offered) := by
  have size := d.length_eq
  rw [exec_stages_ready ready,List.length_cons,List.map_cons,
    List.drop_append_of_le_length (by omega)]

theorem shift_of_inside {x : α} (inside : x ∈ d.contents) (input : Option α) :
    d.shift input true = true := by
  have counting : d.insideCounter ≠ delay := Nat.ne_of_lt (insideCounter_lt inside)
  rw [shift,inReady_true,Bool.true_and,bne_iff_ne.mpr counting,Bool.true_or]

/-- The registers shift on until the word that was taken in is at the output. -/
theorem shift_since {i : CutInput α} {front : List (CutInput α)} {j : CutInput α}
    (ready : ∀ k ∈ i :: front, k.deqReady = true) (offered : i.enq.valid = true)
    (near : front.length < delay) (here : j.deqReady = true) :
    ((machine α delay).exec d (i :: front)).shift j.enq.offered j.deqReady = true := by
  have word : i.enq.offered = some i.enq.bits := if_pos offered
  have inside : i.enq.bits ∈ ((machine α delay).exec d (i :: front)).contents := by
    rw [DataCut.contents,exec_stages_since ready near,word]
    refine List.mem_filterMap.mpr ⟨some i.enq.bits,?_,rfl⟩
    exact List.mem_append_right _ List.mem_cons_self
  rw [here]
  exact shift_of_inside inside _

end DataCut

/-! ### Runs -/
namespace DataCutRegs

variable {α : Type} {delay : Nat}

def acceptedBy (history : List (CutEvent α)) : List α := history.filterMap (·.accepted)
def deliveredBy (history : List (CutEvent α)) : List α := history.filterMap (·.delivered)

/-- A queue of `delay` places, which an output that is ready drains. -/
structure Refines (start : DataCutRegs α delay) : Prop where
  fifo : ∀ inputs, acceptedBy ((machine α delay).outs start inputs) =
    deliveredBy ((machine α delay).outs start inputs) ++ ((machine α delay).exec start inputs).contents
  bounded : ∀ inputs, ((machine α delay).exec start inputs).contents.length ≤ delay
  stable : ∀ inputs i, ((machine α delay).exec start inputs).outValid = true → i.deqReady = false →
    (((machine α delay).exec start inputs).next i).outValid = true ∧
    (((machine α delay).exec start inputs).next i).outBits =
      ((machine α delay).exec start inputs).outBits
  counting : ∀ inputs, ((machine α delay).exec start inputs).contents ≠ [] →
    ((machine α delay).exec start inputs).dataInsideShiftRegister = true
  drains : ∀ inputs i since last, i.enq.valid = true → since.length + 1 = delay →
    (∀ j ∈ i :: since, j.deqReady = true) → last.deqReady = true →
    (((machine α delay).exec start inputs).event i).accepted = some i.enq.bits ∧
    (machine α delay).Each (fun _ r j => r.shift j = true)
      ((machine α delay).exec start inputs) (i :: since) ∧
    (((machine α delay).exec start (inputs ++ i :: since)).event last).delivered = some i.enq.bits

theorem acceptedBy_cons (e : CutEvent α) (history : List (CutEvent α)) :
    acceptedBy (e :: history) = e.accepted.toList ++ acceptedBy history := by
  rw [acceptedBy,List.filterMap_cons]
  cases e.accepted <;> rfl

theorem deliveredBy_cons (e : CutEvent α) (history : List (CutEvent α)) :
    deliveredBy (e :: history) = e.delivered.toList ++ deliveredBy history := by
  rw [deliveredBy,List.filterMap_cons]
  cases e.delivered <;> rfl

/-- What was inside and what a run takes in leaves in front or stays. -/
theorem run_conserves (d : DataCut α delay) (inputs : List (CutInput α)) :
    d.contents ++ acceptedBy ((DataCut.machine α delay).outs d inputs) =
      deliveredBy ((DataCut.machine α delay).outs d inputs) ++
        ((DataCut.machine α delay).exec d inputs).contents := by
  induction inputs generalizing d with
  | nil => exact List.append_nil _
  | cons i rest ih =>
    have first := d.next_conserves i.enq.offered i.deqReady
    rw [Sync.Machine.outs_cons,Sync.Machine.exec_cons,acceptedBy_cons,deliveredBy_cons,List.append_assoc]
    refine Eq.trans ?_ (congrArg ((d.given i.deqReady).toList ++ ·) (ih _))
    rw [← List.append_assoc,← List.append_assoc]
    exact congrArg (· ++ _) first.symm

theorem contents_length_le (d : DataCut α delay) : d.contents.length ≤ delay := by
  have fits := List.length_filterMap_le id d.stages
  rwa [d.length_eq] at fits

/-- Without a ready output the registers that hold a word there do not move. -/
theorem next_waiting {r : DataCutRegs α delay} {i : CutInput α} (waiting : r.outValid = true)
    (stalled : i.deqReady = false) :
    (r.next i).outValid = true ∧ (r.next i).outBits = r.outBits := by
  have still : r.shift i = false := by
    rw [shift,shiftPermission,waiting,stalled]
    rfl
  have kept : (r.next i).valids = r.valids ∧ (r.next i).bits = r.bits := by
    constructor <;> simp only [next,shiftRegister,still,Bool.false_eq_true,if_false]
  exact ⟨(congrFun kept.1 _).trans waiting,congrFun kept.2 _⟩

/-- A word that is taken in while the output stays ready leaves after `delay` shifts. -/
theorem drains {d : DataCut α delay} {r : DataCutRegs α delay} (holds : d.Holds r) {i last : CutInput α}
    {since : List (CutInput α)} (offered : i.enq.valid = true) (length : since.length + 1 = delay)
    (ready : ∀ j ∈ i :: since, j.deqReady = true) (open_ : last.deqReady = true) :
    (r.event i).accepted = some i.enq.bits ∧
    (machine α delay).Each (fun _ r j => r.shift j = true) r (i :: since) ∧
    (((machine α delay).exec r (i :: since)).event last).delivered = some i.enq.bits := by
  have word : i.enq.offered = some i.enq.bits := if_pos offered
  have here : i.deqReady = true := ready i List.mem_cons_self
  refine ⟨?_,?_,?_⟩
  · rw [holds.event]
    change d.taken i.enq.offered i.deqReady = _
    rw [here,DataCut.taken,if_pos d.inReady_true,word]
  · intro before j after split
    cases before with
    | nil =>
      obtain ⟨rfl,rfl⟩ := List.cons.inj split
      change r.shift i = true
      rw [← holds.shift,here,DataCut.shift,d.inReady_true,word]
      exact Bool.or_true _
    | cons k front =>
      obtain ⟨rfl,rfl⟩ := List.cons.inj split
      have reached := (holds.run (i :: front)).2
      have size : (front ++ j :: after).length + 1 = delay := length
      rw [List.length_append,List.length_cons] at size
      have early : ∀ k ∈ i :: front, k.deqReady = true := fun k inside =>
        ready k (List.mem_append_left (j :: after) inside)
      have later : j.deqReady = true :=
        ready j (List.mem_append_right (i :: front) List.mem_cons_self)
      change ((machine α delay).exec r (i :: front)).shift j = true
      rw [← reached.shift]
      exact DataCut.shift_since early offered (by omega) later
  · have reached := (holds.run (i :: since)).2
    have stages := DataCut.exec_stages_since (d := d) ready (by omega)
    rw [reached.event]
    change DataCut.given _ last.deqReady = _
    rw [length,List.drop_of_length_le (by rw [d.length_eq]),word] at stages
    rw [open_,DataCut.given,if_pos rfl,DataCut.out,stages]
    rfl

/-- `DataCut` of either file, from reset on. -/
theorem data_cut {α : Type} {delay : Nat} (positive : 0 < delay) (bits : Fin delay → α) :
    Refines (reset bits positive) := by
  have start := DataCut.holds_reset bits positive
  refine ⟨fun inputs => ?_,fun inputs => ?_,fun inputs i => next_waiting,fun inputs some => ?_,
    fun inputs i since last offered length ready open_ => ?_⟩
  · obtain ⟨outputs,reached⟩ := start.run inputs
    have conserved := run_conserves (DataCut.empty positive : DataCut α delay) inputs
    rwa [DataCut.empty_contents,List.nil_append,← outputs,← reached.contents] at conserved
  · rw [(start.run inputs).2.contents]
    exact contents_length_le _
  · have reached := (start.run inputs).2
    rw [reached.contents] at some
    obtain ⟨x,member⟩ := List.exists_mem_of_ne_nil _ some
    have below := DataCut.insideCounter_lt member
    rw [reached.counter] at below
    exact bne_iff_ne.mpr (Nat.ne_of_lt below)
  · rw [Sync.Machine.exec_append]
    exact drains (start.run inputs).2 offered length ready open_

theorem data_cut_two : Refines (reset (fun _ => 0) (by decide) : DataCutRegs Nat 2) :=
  data_cut (by decide) fun _ => 0

end DataCutRegs
end Snax
