import Snax.Counter
import Snax.DecoupledCut
import Snax.Queue
import Snax.Sync.CircularBuffer
import Snax.Sync.Machine

/-! `RegQueue` of `utils/CustomOperators.scala` with its two pointers, the flag that tells full from
empty, and its pass-through rules, against the queue as a list. -/
namespace Snax

open Sync (Circular bump)

structure QueueModes where
  pipe : Bool
  flow : Bool
  hasFlush : Bool

/-- `io.enq` as the queue sees it, `io.deq.ready` and `io.flush`. -/
structure QueueInput (α : Type) where
  enq : DataBus α
  deqReady : Bool
  flush : Bool

/-- The ports that the queue drives, with the words that pass them. -/
structure QueueOutput (α : Type) where
  enqReady : Bool
  deqValid : Bool
  count : Nat
  enqueued : Option α
  dequeued : Option α
  deriving DecidableEq

structure RegQueue (α : Type) (entries : Nat) where
  ram : Fin entries → α
  enqPtr : Fin entries
  deqPtr : Fin entries
  maybeFull : Bool

/-- Chisel's `isPow2`. -/
def isPow2 (n : Nat) : Bool := decide (0 < n) && n &&& (n - 1) == 0

namespace RegQueue

variable {α : Type} {entries : Nat}

def ptrMatch (q : RegQueue α entries) : Bool := q.enqPtr == q.deqPtr

def empty (q : RegQueue α entries) : Bool := q.ptrMatch && !q.maybeFull

def full (q : RegQueue α entries) : Bool := q.ptrMatch && q.maybeFull

/-- `enq_ptr.value - deq_ptr.value` at the width of the pointers. -/
def ptrDiff (q : RegQueue α entries) : BitVec (log2Up entries) :=
  BitVec.ofNat _ q.enqPtr.val - BitVec.ofNat _ q.deqPtr.val

def count (q : RegQueue α entries) : BitVec (log2Ceil (entries + 1)) :=
  if isPow2 entries then
    (if q.maybeFull && q.ptrMatch then BitVec.ofNat _ entries else 0) ||| q.ptrDiff.setWidth _
  else if q.ptrMatch then (if q.maybeFull then BitVec.ofNat _ entries else 0)
  else if q.enqPtr.val < q.deqPtr.val then BitVec.ofNat _ entries + q.ptrDiff.setWidth _
  else q.ptrDiff.setWidth _

variable (m : QueueModes)

def enqReady (q : RegQueue α entries) (i : QueueInput α) : Bool :=
  if m.pipe && i.deqReady then true else !q.full

def deqValid (q : RegQueue α entries) (i : QueueInput α) : Bool :=
  if m.flow && i.enq.valid then true else !q.empty

def deqBits (q : RegQueue α entries) (i : QueueInput α) : α :=
  if m.flow && q.empty then i.enq.bits else q.ram q.deqPtr

def enqFire (q : RegQueue α entries) (i : QueueInput α) : Bool := q.enqReady m i && i.enq.valid

def deqFire (q : RegQueue α entries) (i : QueueInput α) : Bool := i.deqReady && q.deqValid m i

/-- A word that flows through is not stored. -/
def doEnq (q : RegQueue α entries) (i : QueueInput α) : Bool :=
  if m.flow && q.empty && i.deqReady then false else q.enqFire m i

def doDeq (q : RegQueue α entries) (i : QueueInput α) : Bool :=
  if m.flow && q.empty then false else q.deqFire m i

def flush (i : QueueInput α) : Bool := m.hasFlush && i.flush

def next (q : RegQueue α entries) (i : QueueInput α) : RegQueue α entries where
  ram := if q.doEnq m i then Function.update q.ram q.enqPtr i.enq.bits else q.ram
  enqPtr := if flush m i then ⟨0,q.enqPtr.pos⟩ else if q.doEnq m i then bump q.enqPtr else q.enqPtr
  deqPtr := if flush m i then ⟨0,q.deqPtr.pos⟩ else if q.doDeq m i then bump q.deqPtr else q.deqPtr
  maybeFull :=
    if flush m i then false else if q.doEnq m i != q.doDeq m i then q.doEnq m i else q.maybeFull

def output (q : RegQueue α entries) (i : QueueInput α) : QueueOutput α where
  enqReady := q.enqReady m i
  deqValid := q.deqValid m i
  count := q.count.toNat
  enqueued := if q.enqFire m i then some i.enq.bits else none
  dequeued := if q.deqFire m i then some (q.deqBits m i) else none

def machine (α : Type) (entries : Nat) :
    Sync.Machine (RegQueue α entries) (QueueInput α) (QueueOutput α) where
  next := next m
  out := output m

def reset (zero : α) (positive : 0 < entries) : RegQueue α entries :=
  ⟨fun _ => zero,⟨0,positive⟩,⟨0,positive⟩,false⟩

end RegQueue

/-! ### The queue as a list -/
namespace Queue

variable {α : Type} {entries : Nat} (m : QueueModes)

/-- A full queue takes a word in only with `pipe`, in a cycle that asks for one. -/
def passTaken (q : Queue α entries) (i : QueueInput α) : Option α :=
  q.taken m.pipe i.enq.offered i.deqReady

/-- The word in front; with `flow` an empty queue shows the word that it takes in. -/
def passFront (q : Queue α entries) (i : QueueInput α) : Option α :=
  (q.elems ++ if m.flow then (q.passTaken m i).toList else []).head?

def passGiven (q : Queue α entries) (i : QueueInput α) : Option α :=
  if i.deqReady then q.passFront m i else none

/-- What is taken in goes behind, what is given leaves in front, and a flush leaves nothing. -/
def passElems (q : Queue α entries) (i : QueueInput α) : List α :=
  if m.hasFlush && i.flush then []
  else (q.elems ++ (q.passTaken m i).toList).drop (q.passGiven m i).toList.length

theorem passTaken_length (q : Queue α entries) (i : QueueInput α) :
    (q.passTaken m i).toList.length ≤ 1 := by
  cases q.passTaken m i <;> simp

theorem passElems_length (q : Queue α entries) (i : QueueInput α) :
    (q.passElems m i).length ≤ entries := by
  have bound := q.bound
  have positive := q.positive
  have one := q.passTaken_length m i
  rw [passElems]
  split
  · exact Nat.zero_le _
  · rw [List.length_drop,List.length_append]
    rcases Nat.lt_or_ge q.elems.length entries with room | full
    · omega
    · have nonempty : q.elems ≠ [] := by
        intro none
        rw [none] at full
        exact absurd positive (Nat.not_lt_of_ge full)
      cases asked : i.deqReady with
      | true =>
        have given : (q.passGiven m i).isSome = true := by
          rw [passGiven,asked,if_pos rfl,passFront]
          cases shape : q.elems with
          | nil => exact absurd shape nonempty
          | cons _ _ => rfl
        have size : (q.passGiven m i).toList.length = 1 := by rw [length_toList,given]; rfl
        omega
      | false =>
        have closed : q.passTaken m i = none := by
          have shut : q.enqReady m.pipe false = false := by
            rw [enqReady,decide_eq_false (Nat.not_lt_of_ge full),Bool.and_false]
            rfl
          rw [passTaken,asked,Queue.taken,shut]
          rfl
        rw [closed]
        exact Nat.le_trans (Nat.sub_le _ _) bound

def passNext (q : Queue α entries) (i : QueueInput α) : Queue α entries :=
  ⟨q.passElems m i,q.passElems_length m i,q.positive⟩

def passOutput (q : Queue α entries) (i : QueueInput α) : QueueOutput α where
  enqReady := q.enqReady m.pipe i.deqReady
  deqValid := (q.passFront m i).isSome
  count := q.count
  enqueued := q.passTaken m i
  dequeued := q.passGiven m i

def passMachine (α : Type) (entries : Nat) :
    Sync.Machine (Queue α entries) (QueueInput α) (QueueOutput α) where
  next := passNext m
  out := passOutput m

end Queue

/-! ### The registers hold the list -/

theorem log2Ceil_le {n k : Nat} (fits : n ≤ 2 ^ k) : log2Ceil n ≤ k := by
  unfold log2Ceil
  split
  · exact Nat.zero_le k
  · have below : Nat.log2 (n - 1) < k := (Nat.log2_lt (by omega)).mpr (by omega)
    omega

theorem isPow2_iff (n : Nat) : isPow2 n = true ↔ ∃ k, n = 2 ^ k := by
  rw [isPow2,Bool.and_eq_true,decide_eq_true_iff,beq_iff_eq,Nat.pos_iff_ne_zero]
  exact Nat.ne_zero_and_sub_one_eq_zero_iff_isPowerOfTwo

/-- The pointers of a queue of a power of two entries take all values of their width. -/
theorem two_pow_log2Up {n : Nat} (more : 2 ≤ n) (pow : isPow2 n = true) : 2 ^ log2Up n = n := by
  obtain ⟨k,rfl⟩ := (isPow2_iff n).mp pow
  have positive : 1 ≤ k := by
    rcases Nat.eq_zero_or_pos k with rfl | some
    · exact absurd more (by decide)
    · exact some
  rw [log2Up,log2Ceil_two_pow,Nat.max_eq_right positive]

/-- Otherwise they are as wide as the count. -/
theorem log2Up_eq {n : Nat} (positive : 0 < n) (pow : ¬ isPow2 n = true) :
    log2Up n = log2Ceil (n + 1) := by
  have apart : n ≠ 2 ^ log2Up n := fun same => pow ((isPow2_iff n).mpr ⟨_,same⟩)
  have room := le_two_pow_log2Up n
  have wide := le_two_pow_log2Ceil (n + 1)
  have one : 1 ≤ log2Ceil (n + 1) := by
    rcases Nat.eq_zero_or_pos (log2Ceil (n + 1)) with zero | some
    · rw [zero] at wide
      omega
    · exact some
  refine Nat.le_antisymm (Nat.max_le.mpr ⟨one,log2Ceil_le (by omega)⟩) (log2Ceil_le (by omega))

namespace RegQueue

variable {α : Type} {entries : Nat}

structure Stands (r : RegQueue α entries) (q : Queue α entries) : Prop where
  layout : Circular r.ram r.deqPtr r.enqPtr q.elems
  emptied : q.elems.length = 0 → r.maybeFull = false
  filled : q.elems.length = entries → r.maybeFull = true

theorem stands_reset (zero : α) (positive : 0 < entries) :
    Stands (reset zero positive) (Queue.empty positive) where
  layout := Circular.nil _ _
  emptied _ := rfl
  filled full := absurd full (Nat.ne_of_lt positive)

variable {r : RegQueue α entries} {q : Queue α entries} {m : QueueModes}

theorem Stands.ptrMatch_iff (stands : Stands r q) :
    r.ptrMatch = true ↔ q.elems.length = 0 ∨ q.elems.length = entries := by
  rw [ptrMatch,beq_iff_eq]
  exact stands.layout.match_iff

theorem Stands.empty_eq (stands : Stands r q) : r.empty = decide (q.elems.length = 0) := by
  rw [Bool.eq_iff_iff,empty,Bool.and_eq_true,stands.ptrMatch_iff,Bool.not_eq_true',decide_eq_true_iff]
  constructor
  · rintro ⟨none | full,low⟩
    · exact none
    · exact absurd (low.symm.trans (stands.filled full)) Bool.false_ne_true
  · exact fun none => ⟨.inl none,stands.emptied none⟩

theorem Stands.full_eq (stands : Stands r q) : r.full = decide (q.elems.length = entries) := by
  rw [Bool.eq_iff_iff,full,Bool.and_eq_true,stands.ptrMatch_iff,decide_eq_true_iff]
  constructor
  · rintro ⟨none | full,high⟩
    · exact absurd ((stands.emptied none).symm.trans high) Bool.false_ne_true
    · exact full
  · exact fun full => ⟨.inr full,stands.filled full⟩

/-! ### The count -/

theorem Stands.ptrDiff_toNat (stands : Stands r q) (room : q.elems.length < entries) :
    ¬ r.enqPtr.val < r.deqPtr.val ∧ r.ptrDiff.toNat = q.elems.length ∨
      r.enqPtr.val < r.deqPtr.val ∧
        r.ptrDiff.toNat + entries = q.elems.length + 2 ^ log2Up entries := by
  have wide := le_two_pow_log2Up entries
  have enq : r.enqPtr.val < 2 ^ log2Up entries := r.enqPtr.isLt.trans_le wide
  have deq : r.deqPtr.val < 2 ^ log2Up entries := r.deqPtr.isLt.trans_le wide
  have diff : r.ptrDiff.toNat =
      (2 ^ log2Up entries - r.deqPtr.val + r.enqPtr.val) % 2 ^ log2Up entries := by
    rw [ptrDiff,BitVec.toNat_sub,BitVec.toNat_ofNat,BitVec.toNat_ofNat,Nat.mod_eq_of_lt enq,
      Nat.mod_eq_of_lt deq]
  rcases stands.layout.apart room with ahead | wraps
  · refine .inl ⟨by omega,?_⟩
    have turn : 2 ^ log2Up entries - r.deqPtr.val + r.enqPtr.val =
        q.elems.length + 2 ^ log2Up entries := by omega
    rw [diff,turn,Nat.add_mod_right,Nat.mod_eq_of_lt (by omega)]
  · refine .inr ⟨by omega,?_⟩
    rw [diff,Nat.mod_eq_of_lt (by omega)]
    omega

/-- Both formulas count the entries. -/
theorem Stands.count_toNat (stands : Stands r q) : r.count.toNat = q.elems.length := by
  have positive := q.positive
  have wide := le_two_pow_log2Ceil (entries + 1)
  have total : (BitVec.ofNat (log2Ceil (entries + 1)) entries).toNat = entries := by
    rw [BitVec.toNat_ofNat,Nat.mod_eq_of_lt (by omega)]
  cases met : r.ptrMatch with
  | true =>
    have same : r.enqPtr = r.deqPtr := beq_iff_eq.mp met
    have none : r.ptrDiff = 0 := by rw [ptrDiff,same,BitVec.sub_self]; rfl
    have ends := stands.ptrMatch_iff.mp met
    have value : r.count = if r.maybeFull then BitVec.ofNat _ entries else 0 := by
      simp only [count,met,none,Bool.and_true,↓reduceIte]
      cases isPow2 entries <;> simp
    rw [value]
    rcases ends with none | full
    · rw [stands.emptied none,none]
      rfl
    · rw [stands.filled full,if_pos rfl,total,full]
  | false =>
    have middle : ¬ (q.elems.length = 0 ∨ q.elems.length = entries) := fun ends =>
      Bool.false_ne_true (met.symm.trans (stands.ptrMatch_iff.mpr ends))
    have bound := q.bound
    have room : q.elems.length < entries := by omega
    have diff := stands.ptrDiff_toNat room
    cases pow : isPow2 entries with
    | true =>
      have turn := two_pow_log2Up (n := entries) (by omega) pow
      have value : r.count = r.ptrDiff.setWidth _ := by
        simp only [count,met,pow,Bool.and_false,Bool.false_eq_true,↓reduceIte]
        exact BitVec.zero_or
      have apart : r.ptrDiff.toNat = q.elems.length := by omega
      rw [value,BitVec.toNat_setWidth,apart,Nat.mod_eq_of_lt (by omega)]
    | false =>
      have turn : 2 ^ log2Up entries = 2 ^ log2Ceil (entries + 1) :=
        congrArg (2 ^ ·) (log2Up_eq positive (Bool.eq_false_iff.mp pow))
      rcases diff with ⟨ahead,apart⟩ | ⟨wraps,apart⟩
      · have value : r.count = r.ptrDiff.setWidth _ := by
          simp only [count,met,pow,ahead,Bool.false_eq_true,↓reduceIte]
        rw [value,BitVec.toNat_setWidth,apart,Nat.mod_eq_of_lt (by omega)]
      · have value : r.count = BitVec.ofNat _ entries + r.ptrDiff.setWidth _ := by
          simp only [count,met,pow,wraps,Bool.false_eq_true,↓reduceIte]
        have whole : entries + r.ptrDiff.toNat = q.elems.length + 2 ^ log2Ceil (entries + 1) := by omega
        rw [value,BitVec.toNat_add,total,BitVec.toNat_setWidth,Nat.add_mod_mod,whole,Nat.add_mod_right,
          Nat.mod_eq_of_lt (by omega)]

/-! ### One cycle -/

theorem Stands.enqReady_eq (stands : Stands r q) (i : QueueInput α) :
    r.enqReady m i = q.enqReady m.pipe i.deqReady := by
  have bound := q.bound
  have room : (!r.full) = decide (q.elems.length < entries) := by
    rw [stands.full_eq,Bool.eq_iff_iff,Bool.not_eq_true',decide_eq_false_iff_not,decide_eq_true_iff]
    omega
  rw [enqReady,Queue.enqReady,room]
  cases m.pipe && i.deqReady <;> simp

/-- The word that is taken in. -/
theorem Stands.taken_eq (stands : Stands r q) (i : QueueInput α) :
    (if r.enqFire m i then some i.enq.bits else none) = q.passTaken m i := by
  rw [enqFire,stands.enqReady_eq,Queue.passTaken,Queue.taken,DataBus.offered]
  cases q.enqReady m.pipe i.deqReady <;> rfl

theorem Stands.front_eq (stands : Stands r q) (i : QueueInput α) :
    (if r.deqValid m i then some (r.deqBits m i) else none) = q.passFront m i := by
  rw [Queue.passFront,deqValid,deqBits,stands.empty_eq]
  have layout := stands.layout
  cases shape : q.elems with
  | nil =>
    have ready : q.enqReady m.pipe i.deqReady = true := by
      rw [Queue.enqReady,shape,List.length_nil,decide_eq_true q.positive,Bool.true_or]
    rw [Queue.passTaken,Queue.taken_of_ready ready,DataBus.offered]
    cases m.flow <;> cases i.enq.valid <;> rfl
  | cons x xs =>
    rw [shape] at layout
    rw [← layout.head]
    simp

theorem Stands.deqValid_eq (stands : Stands r q) (i : QueueInput α) :
    r.deqValid m i = (q.passFront m i).isSome := by
  rw [← stands.front_eq]
  cases r.deqValid m i <;> rfl

theorem Stands.given_eq (stands : Stands r q) (i : QueueInput α) :
    (if r.deqFire m i then some (r.deqBits m i) else none) = q.passGiven m i := by
  rw [Queue.passGiven,← stands.front_eq,deqFire]
  cases i.deqReady <;> rfl

theorem Stands.output_eq (stands : Stands r q) (i : QueueInput α) : r.output m i = q.passOutput m i := by
  rw [output,Queue.passOutput,stands.enqReady_eq,stands.deqValid_eq,stands.count_toNat,stands.taken_eq,
    stands.given_eq]
  rfl

/-- What is stored and what is taken from the buffer. -/
theorem Stands.elems_eq (stands : Stands r q) (i : QueueInput α) :
    (q.elems ++ (q.passTaken m i).toList).drop (q.passGiven m i).toList.length =
      (if r.doDeq m i then q.elems.tail else q.elems) ++ if r.doEnq m i then [i.enq.bits] else [] := by
  rw [← stands.taken_eq,← stands.given_eq,doDeq,doEnq,deqFire,deqValid,stands.empty_eq]
  cases shape : q.elems with
  | nil =>
    have ready : r.enqReady m i = true := by
      rw [stands.enqReady_eq,Queue.enqReady,shape,List.length_nil,decide_eq_true q.positive,Bool.true_or]
    rw [enqFire,ready]
    cases m.flow <;> cases i.deqReady <;> cases i.enq.valid <;> rfl
  | cons x xs =>
    simp only [List.length_cons,Nat.add_one_ne_zero,decide_false,Bool.not_false,ite_self,Bool.and_false,
      Bool.and_true,Bool.false_and,Bool.false_eq_true,↓reduceIte]
    cases i.deqReady <;> cases r.enqFire m i <;> rfl

/-- A cycle stores into a buffer with room, or with room once the front has left. -/
theorem Stands.doEnq_room (stands : Stands r q) {i : QueueInput α} (stores : r.doEnq m i = true)
    (stays : r.doDeq m i = false) : q.elems.length < entries := by
  have fits := q.passElems_length ⟨m.pipe,m.flow,false⟩ i
  have same := stands.elems_eq (m := m) i
  rw [stores,stays] at same
  have size := congrArg List.length same
  have kept : q.passElems ⟨m.pipe,m.flow,false⟩ i =
      (q.elems ++ (q.passTaken m i).toList).drop (q.passGiven m i).toList.length := rfl
  rw [kept,same] at fits
  simp only [Bool.false_eq_true,↓reduceIte,List.length_append,List.length_singleton] at fits
  exact fits

/-- A cycle takes from a buffer that is not empty. -/
theorem Stands.doDeq_some (stands : Stands r q) {i : QueueInput α} (takes : r.doDeq m i = true) :
    ∃ x xs, q.elems = x :: xs := by
  refine List.exists_cons_of_ne_nil fun none => ?_
  rw [doDeq,deqFire,deqValid,stands.empty_eq,none] at takes
  revert takes
  cases m.flow <;> simp

theorem Stands.next (stands : Stands r q) (i : QueueInput α) :
    Stands (r.next m i) (q.passNext m i) := by
  cases flushes : flush m i with
  | true =>
    have cleared : (q.passNext m i).elems = [] := if_pos flushes
    refine ⟨?_,fun _ => ?_,fun full => ?_⟩
    · rw [cleared]
      simp only [RegQueue.next,flushes,↓reduceIte]
      exact Circular.nil _ _
    · simp only [RegQueue.next,flushes,↓reduceIte]
    · rw [cleared] at full
      exact absurd full (Nat.ne_of_lt q.positive)
  | false =>
    have after : (q.passNext m i).elems = (if r.doDeq m i then q.elems.tail else q.elems) ++
        if r.doEnq m i then [i.enq.bits] else [] :=
      (if_neg (Bool.eq_false_iff.mp flushes)).trans (stands.elems_eq i)
    have bound := q.bound
    have layout := stands.layout
    have emptied := stands.emptied
    have filled := stands.filled
    cases takes : r.doDeq m i with
    | false =>
      cases stores : r.doEnq m i with
      | false =>
        have same : (q.passNext m i).elems = q.elems := by simpa [takes,stores] using after
        refine ⟨?_,?_,?_⟩ <;> rw [same] <;>
          simpa only [RegQueue.next,flushes,takes,stores,bne_self_eq_false,Bool.false_eq_true,↓reduceIte]
      | true =>
        have more : (q.passNext m i).elems = q.elems ++ [i.enq.bits] := by
          simpa [takes,stores] using after
        have pushed := layout.push (stands.doEnq_room stores takes) i.enq.bits
        refine ⟨?_,fun none => ?_,fun _ => ?_⟩
        · rw [more]
          simpa only [RegQueue.next,flushes,takes,stores,Bool.false_eq_true,↓reduceIte] using pushed
        · rw [more,List.length_append] at none
          exact absurd none (Nat.succ_ne_zero _)
        · simp only [RegQueue.next,flushes,takes,stores]
          rfl
    | true =>
      obtain ⟨x,xs,shape⟩ := stands.doDeq_some takes
      rw [shape] at layout bound emptied filled
      rw [List.length_cons] at bound filled
      have popped := layout.pop
      cases stores : r.doEnq m i with
      | false =>
        have less : (q.passNext m i).elems = xs := by simpa [takes,stores,shape] using after
        refine ⟨?_,fun _ => ?_,fun full => ?_⟩
        · rw [less]
          simpa only [RegQueue.next,flushes,takes,stores,Bool.false_eq_true,↓reduceIte] using popped
        · simp only [RegQueue.next,flushes,takes,stores]
          rfl
        · rw [less] at full
          omega
      | true =>
        have moved : (q.passNext m i).elems = xs ++ [i.enq.bits] := by
          simpa [takes,stores,shape] using after
        have pushed := popped.push (by omega) i.enq.bits
        have flag : (r.next m i).maybeFull = r.maybeFull := by
          simp only [RegQueue.next,flushes,takes,stores]
          rfl
        refine ⟨?_,fun none => ?_,fun full => ?_⟩
        · rw [moved]
          simpa only [RegQueue.next,flushes,takes,stores,Bool.false_eq_true,↓reduceIte] using pushed
        · rw [moved,List.length_append] at none
          exact absurd none (Nat.succ_ne_zero _)
        · rw [moved,List.length_append,List.length_singleton] at full
          rw [flag]
          exact filled full

theorem Stands.run (stands : Stands r q) (inputs : List (QueueInput α)) :
    (machine m α entries).outs r inputs = (Queue.passMachine m α entries).outs q inputs ∧
      Stands ((machine m α entries).exec r inputs) ((Queue.passMachine m α entries).exec q inputs) := by
  induction inputs generalizing r q with
  | nil => exact ⟨rfl,stands⟩
  | cons i rest ih =>
    obtain ⟨outputs,reached⟩ := ih (stands.next i)
    refine ⟨?_,reached⟩
    rw [Sync.Machine.outs_cons,Sync.Machine.outs_cons]
    exact congrArg₂ List.cons (stands.output_eq i) outputs

end RegQueue

/-! ### Runs -/

def enqueuedBy {α : Type} (history : List (QueueOutput α)) : List α := history.filterMap (·.enqueued)
def dequeuedBy {α : Type} (history : List (QueueOutput α)) : List α := history.filterMap (·.dequeued)

namespace Queue

variable {α : Type} {entries : Nat} {m : QueueModes}

/-- Without `flow` and without a flush it is the queue that the readers and writers use. -/
theorem passNext_plain (q : Queue α entries) {i : QueueInput α} (stored : m.flow = false)
    (quiet : RegQueue.flush m i = false) :
    q.passNext m i = q.next m.pipe i.enq.offered i.deqReady := by
  refine ext_elems ((if_neg (Bool.eq_false_iff.mp quiet)).trans ?_)
  rw [next_elems,passGiven,passFront,stored,passTaken]
  cases shape : q.elems with
  | nil =>
    cases i.deqReady <;> simp
  | cons x xs => cases i.deqReady <;> simp

/-- What is there and what a cycle takes in leaves in front or stays, unless the cycle flushes. -/
theorem passNext_conserves (q : Queue α entries) {i : QueueInput α}
    (quiet : RegQueue.flush m i = false) :
    (q.passGiven m i).toList ++ (q.passNext m i).elems = q.elems ++ (q.passTaken m i).toList := by
  have kept : (q.passNext m i).elems =
      (q.elems ++ (q.passTaken m i).toList).drop (q.passGiven m i).toList.length :=
    if_neg (Bool.eq_false_iff.mp quiet)
  rw [kept,passGiven,passFront]
  cases q.elems <;> cases i.deqReady <;> cases m.flow <;> cases q.passTaken m i <;> rfl

theorem enqueuedBy_cons (o : QueueOutput α) (history : List (QueueOutput α)) :
    enqueuedBy (o :: history) = o.enqueued.toList ++ enqueuedBy history := by
  rw [enqueuedBy,List.filterMap_cons]
  cases o.enqueued <;> rfl

theorem dequeuedBy_cons (o : QueueOutput α) (history : List (QueueOutput α)) :
    dequeuedBy (o :: history) = o.dequeued.toList ++ dequeuedBy history := by
  rw [dequeuedBy,List.filterMap_cons]
  cases o.dequeued <;> rfl

theorem pass_conserves (q : Queue α entries) {inputs : List (QueueInput α)}
    (quiet : ∀ i ∈ inputs, RegQueue.flush m i = false) :
    q.elems ++ enqueuedBy ((passMachine m α entries).outs q inputs) =
      dequeuedBy ((passMachine m α entries).outs q inputs) ++
        ((passMachine m α entries).exec q inputs).elems := by
  induction inputs generalizing q with
  | nil => exact List.append_nil _
  | cons i rest ih =>
    have first := q.passNext_conserves (quiet i List.mem_cons_self)
    have later := ih (q.passNext m i) fun j inside => quiet j (List.mem_cons_of_mem _ inside)
    rw [Sync.Machine.outs_cons,Sync.Machine.exec_cons,enqueuedBy_cons,dequeuedBy_cons,List.append_assoc]
    refine Eq.trans ?_ (congrArg ((q.passGiven m i).toList ++ ·) later)
    rw [← List.append_assoc,← List.append_assoc]
    exact congrArg (· ++ _) first.symm

end Queue

namespace RegQueue

variable {α : Type} {entries : Nat}

/-- In every cycle of every run the queue shows what the list shows. Between two flushes the words come
out as they went in, and a flush leaves none. -/
structure RefinesFifo (m : QueueModes) (start : RegQueue α entries) (list : Queue α entries) : Prop where
  equivalent : ∀ inputs,
    (machine m α entries).outs start inputs = (Queue.passMachine m α entries).outs list inputs
  occupancy : ∀ inputs,
    ((machine m α entries).exec start inputs).count.toNat =
      ((Queue.passMachine m α entries).exec list inputs).elems.length
  order : ∀ before inputs, (∀ i ∈ inputs, flush m i = false) →
    ((Queue.passMachine m α entries).exec list before).elems ++
        enqueuedBy ((machine m α entries).outs ((machine m α entries).exec start before) inputs) =
      dequeuedBy ((machine m α entries).outs ((machine m α entries).exec start before) inputs) ++
        ((Queue.passMachine m α entries).exec list (before ++ inputs)).elems
  flushed : ∀ inputs i, flush m i = true →
    ((Queue.passMachine m α entries).exec list (inputs ++ [i])).elems = [] ∧
    ((machine m α entries).exec start (inputs ++ [i])).empty = true

theorem reg_queue (m : QueueModes) (positive : 0 < entries) (zero : α) :
    RefinesFifo m (reset zero positive) (Queue.empty positive) := by
  have start := stands_reset zero positive
  refine ⟨fun inputs => (start.run inputs).1,fun inputs => (start.run inputs).2.count_toNat,
    fun before inputs quiet => ?_,fun inputs i flushes => ?_⟩
  · have reached := (start.run (m := m) before).2
    rw [(reached.run inputs).1,Sync.Machine.exec_append]
    exact Queue.pass_conserves _ quiet
  · have none :
        ((Queue.passMachine m α entries).exec (Queue.empty positive) (inputs ++ [i])).elems = [] := by
      rw [Sync.Machine.exec_append]
      exact if_pos flushes
    refine ⟨none,?_⟩
    rw [(start.run (inputs ++ [i])).2.empty_eq,none]
    rfl

theorem reg_queue_three :
    RefinesFifo ⟨true,true,true⟩ (reset 0 (Nat.succ_pos 2)) (Queue.empty (Nat.succ_pos 2)) :=
  reg_queue ⟨true,true,true⟩ (Nat.succ_pos 2) 0

end RegQueue
end Snax
