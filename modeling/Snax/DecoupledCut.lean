import Snax.DataCut
import Mathlib.Logic.Function.Basic

/-! The connectors `-||>` and `-\>` of `utils/CustomOperators.scala` between two decoupled
ports, with the bits they show while they have no word. -/
namespace Snax

/-- A decoupled port seen by its receiver. -/
structure DataBus (α : Type) where
  valid : Bool
  bits : α

namespace DataBus

variable {α : Type}

def offered (b : DataBus α) : Option α := if b.valid then some b.bits else none

@[simp] theorem offered_isSome (b : DataBus α) : b.offered.isSome = b.valid := by
  cases h : b.valid <;> simp [offered,h]

end DataBus

/-- `-||>`: a `RegQueue` of two entries. -/
structure FullCut (α : Type) where
  ram : Bool → α
  enqPtr : Bool
  deqPtr : Bool
  maybeFull : Bool

namespace FullCut

variable {α : Type}

def ptrMatch (q : FullCut α) : Bool := q.enqPtr == q.deqPtr

def enqReady (q : FullCut α) : Bool := !(q.ptrMatch && q.maybeFull)

def deq (q : FullCut α) : DataBus α := ⟨!(q.ptrMatch && !q.maybeFull),q.ram q.deqPtr⟩

def taken (q : FullCut α) (enq : Option α) : Option α := if q.enqReady then enq else none

def given (q : FullCut α) (deqReady : Bool) : Option α := if deqReady then q.deq.offered else none

def next (q : FullCut α) (enq : Option α) (deqReady : Bool) : FullCut α where
  ram := match q.taken enq with
    | some x => Function.update q.ram q.enqPtr x
    | none => q.ram
  enqPtr := q.enqPtr ^^ (q.taken enq).isSome
  deqPtr := q.deqPtr ^^ (q.given deqReady).isSome
  maybeFull :=
    if (q.taken enq).isSome != (q.given deqReady).isSome then (q.taken enq).isSome else q.maybeFull

def reset (zero : α) : FullCut α := ⟨fun _ => zero,false,false,false⟩

/-- The words inside, the oldest first. -/
def contents (q : FullCut α) : List α :=
  if q.ptrMatch then (if q.maybeFull then [q.ram q.deqPtr,q.ram (!q.deqPtr)] else [])
  else [q.ram q.deqPtr]

theorem deq_offered (q : FullCut α) : q.deq.offered = q.contents.head? := by
  obtain ⟨ram,enqPtr,deqPtr,maybeFull⟩ := q
  cases enqPtr <;> cases deqPtr <;> cases maybeFull <;> rfl

/-- What is inside and what is taken in leaves in front or stays. -/
theorem next_conserves (q : FullCut α) (enq : Option α) (deqReady : Bool) :
    (q.given deqReady).toList ++ (q.next enq deqReady).contents =
      q.contents ++ (q.taken enq).toList := by
  obtain ⟨ram,enqPtr,deqPtr,maybeFull⟩ := q
  cases enqPtr <;> cases deqPtr <;> cases maybeFull <;> cases deqReady <;> cases enq <;>
    simp [given,next,contents,taken,enqReady,deq,ptrMatch,DataBus.offered,Function.update]

end FullCut

/-- `-\>`: a `DataCut` of one stage, with the bits in its register. -/
structure HalfCut (α : Type) where
  cut : DataCut α 1
  bits : α

namespace HalfCut

variable {α : Type}

def out (c : HalfCut α) : DataBus α := ⟨c.cut.out.isSome,c.cut.out.getD c.bits⟩

def next (c : HalfCut α) (input : DataBus α) (outReady : Bool) : HalfCut α where
  cut := c.cut.next input.offered outReady
  bits := if c.cut.shift input.offered outReady then input.bits else c.bits

theorem out_offered (c : HalfCut α) : c.out.offered = c.cut.out := by
  cases h : c.cut.out <;> simp [out,DataBus.offered,h]

end HalfCut

/-- The cut between two extensions, `-\>` under `halfCut` and `-||>` otherwise. -/
inductive Cut (α : Type) : Bool → Type where
  | full (q : FullCut α) : Cut α false
  | half (c : HalfCut α) : Cut α true

namespace Cut

variable {α : Type} {halfCut : Bool}

def ready : Cut α halfCut → Bool → Bool
  | full q, _ => q.enqReady
  | half c, outReady => c.cut.inReady outReady

def out : Cut α halfCut → DataBus α
  | full q => q.deq
  | half c => c.out

def next : Cut α halfCut → DataBus α → Bool → Cut α halfCut
  | full q, input, outReady => full (q.next input.offered outReady)
  | half c, input, outReady => half (c.next input outReady)

def contents : Cut α halfCut → List α
  | full q => q.contents
  | half c => c.cut.contents

def reset (zero : α) : (halfCut : Bool) → Cut α halfCut
  | false => full (FullCut.reset zero)
  | true => half ⟨DataCut.empty Nat.one_pos,zero⟩

@[simp] theorem reset_contents (zero : α) (halfCut : Bool) : (reset zero halfCut).contents = [] := by
  cases halfCut
  · rfl
  · exact DataCut.empty_contents Nat.one_pos

/-- The oldest word is offered. -/
theorem out_offered (c : Cut α halfCut) : c.out.offered = c.contents.head? := by
  cases c with
  | full q => exact q.deq_offered
  | half c =>
    change c.out.offered = c.cut.contents.head?
    rw [HalfCut.out_offered,DataCut.contents_of_one]
    cases c.cut.out <;> rfl

theorem next_conserves (c : Cut α halfCut) (input : DataBus α) (outReady : Bool) :
    (if outReady then c.out.offered else none).toList ++ (c.next input outReady).contents =
      c.contents ++ (if c.ready outReady then input.offered else none).toList := by
  cases c with
  | full q => exact q.next_conserves input.offered outReady
  | half c =>
    have moved := c.cut.next_conserves input.offered outReady
    rw [DataCut.given,DataCut.taken,← HalfCut.out_offered] at moved
    exact moved

/-- An empty cut that is offered nothing stays empty. -/
theorem next_empty {c : Cut α halfCut} (empty : c.contents = []) {input : DataBus α}
    (silent : input.valid = false) (outReady : Bool) : (c.next input outReady).contents = [] := by
  have moved := c.next_conserves input outReady
  have nothing : input.offered = none := by simp [DataBus.offered,silent]
  rw [empty,nothing,ite_self] at moved
  exact (List.append_eq_nil_iff.mp moved).2

end Cut
end Snax
