import Snax.Counter

/-! `DataCut` of `utils/CustomOperators.scala`, the pipeline that `-\>`, `-\\>` and `-\\\>`
insert into a decoupled connection: `delay` stages that shift together. -/
namespace Snax

/-- The stages, the output stage first. `insideCounter` counts the shifts since an item was
last offered, so that a stage can only hold one while the count is small. -/
structure DataCut (α : Type) (delay : Nat) where
  stages : List (Option α)
  insideCounter : Nat
  length_eq : stages.length = delay
  positive : 0 < delay
  bounded : insideCounter ≤ delay
  inside : ∀ (k : Nat) (x : α), stages[k]? = some (some x) → insideCounter + k < delay

namespace DataCut

variable {α : Type} {delay : Nat}

theorem replicate_inside (k : Nat) (x : α) :
    (List.replicate delay (none : Option α))[k]? = some (some x) → 0 + k < delay := by
  intro atIndex
  have member := List.mem_of_getElem? atIndex
  simp at member

def empty (positive : 0 < delay) : DataCut α delay :=
  ⟨List.replicate delay none,0,List.length_replicate,positive,Nat.zero_le _,replicate_inside⟩

/-- `io.out`, valid when it is `some`. -/
def out (d : DataCut α delay) : Option α := d.stages.head?.join

/-- `shiftPermission`, which is also `io.in.ready`. -/
def inReady (d : DataCut α delay) (outReady : Bool) : Bool :=
  (d.out.isSome && outReady) || d.out.isNone

def shift (d : DataCut α delay) (input : Option α) (outReady : Bool) : Bool :=
  d.inReady outReady && (d.insideCounter != delay || input.isSome)

/-- The item that the cycle takes in. -/
def taken (d : DataCut α delay) (input : Option α) (outReady : Bool) : Option α :=
  if d.inReady outReady then input else none

/-- The item that leaves in the cycle. -/
def given (d : DataCut α delay) (outReady : Bool) : Option α := if outReady then d.out else none

/-- The items on their way, the oldest first. -/
def contents (d : DataCut α delay) : List α := d.stages.filterMap id

def nextStages (d : DataCut α delay) (input : Option α) (outReady : Bool) : List (Option α) :=
  if d.shift input outReady then d.stages.tail ++ [input] else d.stages

/-- `Counter(0 to delay, shift, io.in.valid)`. -/
def nextCounter (d : DataCut α delay) (input : Option α) (outReady : Bool) : Nat :=
  if input.isSome then 0
  else if d.shift input outReady then
    (if d.insideCounter = delay then 0 else d.insideCounter + 1)
  else d.insideCounter

theorem nextStages_length (d : DataCut α delay) (input : Option α) (outReady : Bool) :
    (d.nextStages input outReady).length = delay := by
  have size := d.length_eq
  have positive := d.positive
  unfold nextStages
  split
  · simp only [List.length_append,List.length_tail,List.length_singleton]
    omega
  · exact size

theorem nextCounter_le (d : DataCut α delay) (input : Option α) (outReady : Bool) :
    d.nextCounter input outReady ≤ delay := by
  have bounded := d.bounded
  unfold nextCounter
  split_ifs <;> omega

theorem nextStages_inside (d : DataCut α delay) (input : Option α) (outReady : Bool) (k : Nat) (x : α)
    (atIndex : (d.nextStages input outReady)[k]? = some (some x)) :
    d.nextCounter input outReady + k < delay := by
  have size := d.length_eq
  by_cases moving : d.shift input outReady = true
  · simp only [nextStages,moving,↓reduceIte,List.getElem?_append,List.length_tail] at atIndex
    split at atIndex
    · -- an item one stage further, and one more shift
      rw [List.getElem?_tail] at atIndex
      have before := d.inside _ _ atIndex
      simp only [nextCounter,moving,↓reduceIte]
      split_ifs <;> omega
    · obtain ⟨last,_⟩ := List.getElem?_eq_some_iff.mp atIndex
      rw [List.length_singleton] at last
      have offered : input = some x := by
        rw [show k - (d.stages.length - 1) = 0 by omega] at atIndex
        simpa using atIndex
      have positive := d.positive
      simp only [nextCounter,offered,Option.isSome_some,↓reduceIte]
      omega
  · rw [nextStages,if_neg moving] at atIndex
    have before := d.inside _ _ atIndex
    simp only [nextCounter,if_neg moving]
    split_ifs <;> omega

def next (d : DataCut α delay) (input : Option α) (outReady : Bool) : DataCut α delay :=
  ⟨d.nextStages input outReady,d.nextCounter input outReady,d.nextStages_length input outReady,
    d.positive,d.nextCounter_le input outReady,d.nextStages_inside input outReady⟩

@[simp] theorem empty_contents (positive : 0 < delay) : (empty positive : DataCut α delay).contents = [] := by
  simp [empty,contents]

theorem stages_eq (d : DataCut α delay) : d.stages = d.out :: d.stages.tail := by
  have size := d.length_eq
  have positive := d.positive
  cases h : d.stages with
  | nil => rw [h] at size; simp at size; omega
  | cons first rest => simp [out,h]

theorem contents_eq (d : DataCut α delay) :
    d.contents = d.out.toList ++ d.stages.tail.filterMap id := by
  rw [contents,d.stages_eq]
  cases d.out <;> rfl

theorem inReady_true (d : DataCut α delay) : d.inReady true = true := by
  cases h : d.out <;> simp [inReady,h]

theorem out_of_empty {d : DataCut α delay} (hollow : d.contents = []) : d.out = none := by
  rw [contents_eq] at hollow
  cases h : d.out <;> simp [h] at hollow ⊢

/-- One stage holds one item at most. -/
theorem contents_of_one (d : DataCut α 1) : d.contents = d.out.toList := by
  have rest : d.stages.tail = [] := List.length_eq_zero_iff.mp (by rw [List.length_tail,d.length_eq])
  rw [contents_eq,rest]
  exact List.append_nil _

/-- An item inside asks for the next shift. -/
theorem insideCounter_lt {d : DataCut α delay} {x : α} (member : x ∈ d.contents) :
    d.insideCounter < delay := by
  obtain ⟨stage,present,rfl⟩ := List.mem_filterMap.mp member
  obtain ⟨k,atIndex⟩ := List.getElem?_of_mem present
  have := d.inside k x atIndex
  omega

/-- Stages that may move and do not are empty, with nothing offered. -/
theorem empty_of_still {d : DataCut α delay} {input : Option α} {outReady : Bool}
    (permitted : d.inReady outReady = true) (still : ¬ d.shift input outReady = true) :
    d.contents = [] ∧ input = none := by
  simp only [shift,permitted,Bool.true_and,Bool.or_eq_true,bne_iff_ne,ne_eq,not_or,
    Decidable.not_not,Bool.not_eq_true,Option.isSome_eq_false_iff,Option.isNone_iff_eq_none] at still
  refine ⟨?_,still.2⟩
  by_contra some
  obtain ⟨x,member⟩ := List.exists_mem_of_ne_nil _ some
  have := insideCounter_lt member
  omega

theorem next_stages (d : DataCut α delay) (input : Option α) (outReady : Bool) :
    (d.next input outReady).stages = d.nextStages input outReady := rfl

theorem next_stages_of_closed {d : DataCut α delay} {outReady : Bool} (closed : d.inReady outReady = false)
    (input : Option α) : (d.next input outReady).stages = d.stages := by
  simp [next_stages,nextStages,shift,closed]

/-- Nothing is lost and nothing overtakes: what was inside and what is taken in leaves in
front or stays. -/
theorem next_conserves (d : DataCut α delay) (input : Option α) (outReady : Bool) :
    (d.given outReady).toList ++ (d.next input outReady).contents =
      d.contents ++ (d.taken input outReady).toList := by
  have front := d.contents_eq
  have after : (d.next input outReady).contents = (d.nextStages input outReady).filterMap id := rfl
  cases ready : d.inReady outReady with
  | false =>
    have stalled : outReady = false := by
      cases h : d.out <;> simp [inReady,h] at ready ⊢
      exact ready
    rw [after,← next_stages,next_stages_of_closed ready,taken,if_neg (by simp [ready])]
    simp [given,stalled,contents]
  | true =>
    by_cases moving : d.shift input outReady = true
    · have passed : d.given outReady = d.out := by
        cases h : d.out <;> simp [inReady,h,given] at ready ⊢
        exact ready
      rw [after,front,passed,nextStages,if_pos moving,taken,if_pos ready,List.filterMap_append,
        List.append_assoc]
      cases input <;> rfl
    · obtain ⟨hollow,quiet⟩ := empty_of_still ready moving
      have still : d.nextStages input outReady = d.stages := by rw [nextStages,if_neg moving]
      rw [after,still]
      simp [given,taken,out_of_empty hollow,quiet,contents]

/-! ### How far the items have to go -/

/-- The stages that the items inside still have to pass, added up. -/
def travel : List (Option α) → Nat
  | [] => 0
  | stage :: stages => ((stage :: stages).filterMap id).length + travel stages

theorem travel_snoc (stages : List (Option α)) (input : Option α) :
    travel (stages ++ [input]) = travel stages + (stages.length + 1) * input.isSome.toNat := by
  induction stages with
  | nil => cases input <;> rfl
  | cons stage stages ih =>
    rw [List.cons_append,travel,ih,travel,← List.cons_append,List.filterMap_append,List.length_append,
      List.length_cons]
    cases input <;> simp
    · omega

/-- In a cycle that lets the stages move each item comes one stage nearer. -/
theorem next_travel {d : DataCut α delay} {input : Option α} {outReady : Bool}
    (moving : d.inReady outReady = true) :
    travel (d.next input outReady).stages + d.contents.length =
      travel d.stages + delay * input.isSome.toNat := by
  by_cases shifts : d.shift input outReady = true
  · have size := d.length_eq
    have positive := d.positive
    have after : (d.next input outReady).stages = d.stages.tail ++ [input] := by
      rw [next_stages,nextStages,if_pos shifts]
    have front : travel d.stages = d.contents.length + travel d.stages.tail := by
      conv_lhs => rw [d.stages_eq]
      rw [travel,← d.stages_eq,contents]
    rw [after,travel_snoc,front,List.length_tail,size,Nat.sub_add_cancel positive]
    omega
  · have after : (d.next input outReady).stages = d.stages := by
      rw [next_stages,nextStages,if_neg shifts]
    obtain ⟨hollow,quiet⟩ := empty_of_still moving shifts
    rw [after,hollow,quiet]
    rfl

end DataCut
end Snax
