import Mathlib.Data.Fintype.Basic
import Mathlib.Data.Fin.Basic

/-! Chisel's `Queue` without flow-through, as the list of its entries, and the two
shapes of `ComplexQueueConcat` built from it in `utils/ComplexQueue.scala`. A wide word
is the vector of its slices, lane 0 least significant. With one lane both shapes are the
plain queue, as in the source. -/
namespace Snax

theorem length_toList (o : Option α) : o.toList.length = o.isSome.toNat := by cases o <;> rfl

structure Queue (α : Type) (entries : Nat) where
  elems : List α
  bound : elems.length ≤ entries
  positive : 0 < entries

namespace Queue

variable {α : Type} {entries : Nat}

def empty (positive : 0 < entries) : Queue α entries := ⟨[],Nat.zero_le _,positive⟩

def deqValid (q : Queue α entries) : Bool := !q.elems.isEmpty

def deqBits (q : Queue α entries) : Option α := q.elems.head?

/-- With `pipe` a full queue accepts in the cycle it is dequeued. -/
def enqReady (pipe : Bool) (q : Queue α entries) (deqReady : Bool) : Bool :=
  decide (q.elems.length < entries) || (pipe && deqReady)

def count (q : Queue α entries) : Nat := q.elems.length

/-- The entry that the cycle takes in: offered and accepted. -/
def taken (pipe : Bool) (q : Queue α entries) (enq : Option α) (deqReady : Bool) : Option α :=
  if q.enqReady pipe deqReady then enq else none

theorem next_bound (pipe : Bool) (q : Queue α entries) (enq : Option α) (deqReady : Bool) :
    ((if deqReady then q.elems.tail else q.elems) ++ (q.taken pipe enq deqReady).toList).length
      ≤ entries := by
  have bound := q.bound
  have positive := q.positive
  cases enq with
  | none => cases deqReady <;> simp [taken] <;> omega
  | some entry =>
    by_cases room : q.elems.length < entries
    · cases deqReady <;> simp [taken,enqReady,room] <;> omega
    · cases deqReady <;> cases pipe <;> simp [taken,enqReady,room] <;> omega

def next (pipe : Bool) (q : Queue α entries) (enq : Option α) (deqReady : Bool) :
    Queue α entries where
  elems := (if deqReady then q.elems.tail else q.elems) ++ (q.taken pipe enq deqReady).toList
  bound := q.next_bound pipe enq deqReady
  positive := q.positive

@[simp] theorem empty_elems (positive : 0 < entries) : (empty positive : Queue α entries).elems = [] := rfl

@[simp] theorem next_elems (pipe : Bool) (q : Queue α entries) (enq : Option α) (deqReady : Bool) :
    (q.next pipe enq deqReady).elems =
      (if deqReady then q.elems.tail else q.elems) ++ (q.taken pipe enq deqReady).toList := rfl

@[simp] theorem taken_none (pipe : Bool) (q : Queue α entries) (deqReady : Bool) :
    q.taken pipe none deqReady = none := by simp [taken]

theorem taken_of_ready {pipe : Bool} {q : Queue α entries} {enq : Option α} {deqReady : Bool}
    (ready : q.enqReady pipe deqReady = true) : q.taken pipe enq deqReady = enq := by
  simp [taken,ready]

theorem deqValid_iff (q : Queue α entries) : q.deqValid = true ↔ q.elems ≠ [] := by
  simp [deqValid]

theorem ext_elems {p q : Queue α entries} (same : p.elems = q.elems) : p = q := by
  cases p; cases q; simp_all

theorem eq_empty {q : Queue α entries} (drained : q.elems = []) : q = empty q.positive :=
  ext_elems drained

/-- The entry leaving in a cycle: valid and asked for. -/
def given (q : Queue α entries) (deqReady : Bool) : Option α :=
  if deqReady then q.deqBits else none

theorem given_of_fire (q : Queue α entries) (deqReady : Bool) :
    (if q.deqBits.isSome && deqReady then q.deqBits else none) = q.given deqReady := by
  unfold given
  cases q.deqBits <;> cases deqReady <;> rfl

/-- Conservation over one cycle: what was inside and what is taken in leaves at the
front or stays, in order. -/
theorem next_conserves (pipe : Bool) (q : Queue α entries) (enq : Option α) (deqReady : Bool) :
    (q.given deqReady).toList ++ (q.next pipe enq deqReady).elems =
      q.elems ++ (q.taken pipe enq deqReady).toList := by
  cases h : q.elems <;> cases deqReady <;> simp [given,deqBits,h]

end Queue

/-! One wide input scattered over the lanes, and the lanes gathered into one wide output. -/
namespace ComplexQueueConcat

variable {α : Type} {entries lanes : Nat}

abbrev Lanes (α : Type) (entries lanes : Nat) := Fin lanes → Queue α entries

/-- `enq_all_ready`: the ready signal of the one wide input. -/
def allReady (pipe : Bool) (qs : Lanes α entries lanes) (deqReady : Fin lanes → Bool) : Bool :=
  decide (∀ c, (qs c).enqReady pipe (deqReady c) = true)

def scatter (pipe : Bool) (qs : Lanes α entries lanes) (enq : Option (Fin lanes → α))
    (deqReady : Fin lanes → Bool) : Lanes α entries lanes :=
  let accepted := if allReady pipe qs deqReady then enq else none
  fun c => (qs c).next pipe (accepted.map (· c)) (deqReady c)

/-- `deq_all_valid`: the valid signal of the one wide output. -/
def allValid (qs : Lanes α entries lanes) : Bool := decide (∀ c, (qs c).deqValid = true)

/-- The wide output word, when every lane has one. -/
def front (qs : Lanes α entries lanes) : Option (Fin lanes → α) :=
  if h : ∀ c, (qs c).elems ≠ [] then some fun c => (qs c).elems.head (h c) else none

def gather (pipe : Bool) (qs : Lanes α entries lanes) (enq : Fin lanes → Option α)
    (outReady : Bool) : Lanes α entries lanes :=
  fun c => (qs c).next pipe (enq c) (allValid qs && outReady)

def allEmpty (qs : Lanes α entries lanes) : Bool := decide (∀ c, (qs c).deqValid = false)

/-- `priorities` for reading (near empty) and for writing (near full). -/
def priorities (priorityEmpty : Bool) (qs : Lanes α entries lanes) (c : Fin lanes) : Bool :=
  if priorityEmpty then decide ((qs c).count ≤ 1) else decide (entries - 1 ≤ (qs c).count)

theorem front_isSome (qs : Lanes α entries lanes) : (front qs).isSome = allValid qs := by
  by_cases h : ∀ c, (qs c).elems ≠ [] <;> simp [front,allValid,Queue.deqValid_iff,h]

theorem front_eq_some {qs : Lanes α entries lanes} {word : Fin lanes → α} :
    front qs = some word ↔ ∀ c, (qs c).elems.head? = some (word c) := by
  constructor
  · intro present c
    unfold front at present
    split at present
    · rename_i h
      cases present
      exact List.head?_eq_some_head (h c)
    · contradiction
  · intro heads
    have nonempty : ∀ c, (qs c).elems ≠ [] := by
      intro c none
      have := heads c
      simp [none] at this
    rw [front,dif_pos nonempty]
    congr 1
    funext c
    have := heads c
    rw [List.head?_eq_some_head (nonempty c)] at this
    exact Option.some.inj this

theorem allValid_iff (qs : Lanes α entries lanes) :
    allValid qs = true ↔ ∀ c, (qs c).elems ≠ [] := by
  simp [allValid,Queue.deqValid_iff]

/-- A wide word enters all lanes or none; a lane gives up what is asked of it. -/
theorem scatter_conserves (pipe : Bool) (qs : Lanes α entries lanes) (enq : Option (Fin lanes → α))
    (deqReady : Fin lanes → Bool) (c : Fin lanes) :
    ((qs c).given (deqReady c)).toList ++ (scatter pipe qs enq deqReady c).elems =
      (qs c).elems ++ ((if allReady pipe qs deqReady then enq else none).map (· c)).toList := by
  have conserved := (qs c).next_conserves pipe
    ((if allReady pipe qs deqReady then enq else none).map (· c)) (deqReady c)
  by_cases ready : allReady pipe qs deqReady = true
  · have lane : (qs c).enqReady pipe (deqReady c) = true := by
      simp only [allReady,decide_eq_true_eq] at ready
      exact ready c
    rw [Queue.taken_of_ready lane] at conserved
    exact conserved
  · simp only [ready,Bool.false_eq_true,↓reduceIte,Option.map_none,Queue.taken_none] at conserved ⊢
    simpa [scatter,ready] using conserved

end ComplexQueueConcat
end Snax
