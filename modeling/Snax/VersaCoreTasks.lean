import Snax.VersaCoreLaw

/-! VersaCore over many tasks: a task whose operands are exactly those that it computes leaves nothing
behind, so that the next one starts from rest. -/
namespace Snax.VersaCore

open Sync

variable {p : VersaCoreParam} {task : VersaCoreCfg} {s : State p} {i : Input p}

/-! ### The end of a task -/

theorem Fed.carried_length {tile : List (Op p)} (fed : Fed task tile) (takes : task.takeInNewC = 1)
    (pairs : tile ≠ []) : (carried tile).length = 1 := by
  cases tile with
  | nil => contradiction
  | cons first more =>
    obtain ⟨c,_,one⟩ := fed.addend takes
    exact congrArg List.length one

theorem carried_flatten_length {tiles : List (List (Op p))} (takes : task.takeInNewC = 1)
    (fed : ∀ tile ∈ tiles, Fed task tile) (pairs : ∀ tile ∈ tiles, tile ≠ []) :
    (carried tiles.flatten).length = tiles.length := by
  induction tiles with
  | nil => rfl
  | cons tile tiles ih =>
    have split : carried (tile :: tiles).flatten = carried tile ++ carried tiles.flatten := by
      rw [List.flatten_cons]
      exact List.filterMap_append
    rw [split,List.length_append,(fed tile (by simp)).carried_length takes (pairs tile (by simp)),
      ih (fun t member => fed t (by simp [member])) fun t member => pairs t (by simp [member])]
    exact Nat.add_comm _ _

/-- The streams have brought in what the task computes and nothing else. -/
structure Exact (p : VersaCoreParam) (task : VersaCoreCfg) (history : List (Output p)) : Prop where
  a : (acceptedA history).length = task.outputTimes.toNat * length task
  b : (acceptedB history).length = task.outputTimes.toNat * length task
  c : (acceptedC history).length =
    if task.takeInNewC = 1 then task.outputTimes.toNat * inputCSerialFactor p task else 0

section End

variable {r : Registers p task} {history : List (Output p)} {tiles : List (List (Op p))} {part : List (Op p)}

/-- Then nothing is on its way when the core finishes. -/
theorem Course.nothing_left (course : Course p task r history s tiles part)
    (finish : versacoreFinish s i = true) (operands : Exact p task history) :
    part = [] ∧ waitingA s = [] ∧ waitingB s = [] := by
  have number := (course.finished finish).1
  have pairs := Chunks.length_flatten_of_even course.whole
  rw [number,Nat.mul_comm] at pairs
  have left := congrArg List.length course.left
  have right := congrArg List.length course.right
  rw [List.length_append,List.length_map,List.length_append,pairs,operands.a] at left
  rw [List.length_append,List.length_map,List.length_append,pairs,operands.b] at right
  obtain ⟨none,noneA,noneB⟩ : part.length = 0 ∧ (waitingA s).length = 0 ∧ (waitingB s).length = 0 := by
    omega
  exact ⟨List.eq_nil_of_length_eq_zero none,List.eq_nil_of_length_eq_zero noneA,
    List.eq_nil_of_length_eq_zero noneB⟩

theorem Course.noAddend_left (course : Course p task r history s tiles part) (valid : Valid p task)
    (finish : versacoreFinish s i = true) (operands : Exact p task history) (empty : part = []) :
    s.cS2p.value.toNat = 0 ∧ SerialToParallel.offered s.cS2p = none := by
  obtain ⟨words,packs,same⟩ := course.addends
  have positive := (inputCSerialFactor_le (p := p) task).1
  have counts := packs.length positive
  rw [operands.c] at counts
  have none : (SerialToParallel.offered s.cS2p).toList.length = 0 ∧ s.cS2p.value.toNat = 0 := by
    by_cases takes : task.takeInNewC = 1
    -- as many addends have been used as there are tiles, which is as many as have come in
    · have number : words.length = task.outputTimes.toNat := by
        have pairs : ∀ tile ∈ tiles, tile ≠ [] := fun tile member none => by
          have computes := valid.computes
          rw [← course.whole tile member,none] at computes
          contradiction
        rw [same takes,empty,List.append_nil,carried_flatten_length takes
          (fun tile member => course.fed tile (List.mem_append_left _ member)) pairs]
        exact (course.finished finish).1
      rw [if_pos takes,number,Nat.mul_add,Nat.mul_comm task.outputTimes.toNat] at counts
      have zero : inputCSerialFactor p task * (SerialToParallel.offered s.cS2p).toList.length = 0 := by omega
      rcases Nat.mul_eq_zero.mp zero with wrong | right
      · omega
      · exact ⟨right,by omega⟩
    · rw [if_neg takes] at counts
      have zero : inputCSerialFactor p task *
          (words.length + (SerialToParallel.offered s.cS2p).toList.length) = 0 := by omega
      rcases Nat.mul_eq_zero.mp zero with wrong | right
      · omega
      · omega
  refine ⟨none.2,?_⟩
  cases offers : SerialToParallel.offered s.cS2p with
  | none => rfl
  | some word =>
    rw [offers] at none
    exact absurd none.1 Nat.one_ne_zero

/-- A cycle without operands that finishes the task leaves the core at rest. -/
theorem Course.rests (course : Course p task r history s tiles part) (valid : Valid p task)
    (finish : versacoreFinish s i = true) (operands : Exact p task history) (noA : i.inA = none)
    (noB : i.inB = none) (noC : i.inC = none) : Rested p (next s i) := by
  have same := course.csr
  have working := course.busy
  obtain ⟨empty,waitsA,waitsB⟩ := course.nothing_left finish operands
  obtain ⟨zeroC,freshC⟩ := course.noAddend_left valid finish operands empty
  have flowA := flow_a (i := i) valid same working course.singleA
  have flowB := flow_b (i := i) valid same working course.singleB
  rw [waitsA,entered,accepted_none noA] at flowA
  rw [waitsB,entered,accepted_none noB] at flowB
  obtain ⟨still,leftA⟩ := List.append_eq_nil_iff.mp flowA
  have leftB := (List.append_eq_nil_iff.mp flowB).2
  have idle : operation s i = none := Option.toList_eq_nil_iff.mp (List.map_eq_nil_iff.mp still)
  have quietC : SerialToParallel.accepted s.cS2p (cInput s i) = none := accepted_none noC
  have belowC : s.cS2p.value.toNat < inputCSerialFactor p task := by
    rw [zeroC]
    exact (inputCSerialFactor_le task).1
  have valueC := SerialToParallel.next_value (cSteady (i := i) same working) (inputCSerialFactor_le task).2
    belowC
  rw [quietC,Option.isSome_none,if_neg Bool.false_ne_true,zeroC] at valueC
  have stillC : SerialToParallel.offered (next s i).cS2p = none := by
    apply SerialToParallel.offered_none
    · simp [next,SerialToParallel.next,quietC]
    · simp [next,SerialToParallel.next,SerialToParallel.outputStall,freshC]
  have notDue : outputDue s = false := by
    rw [Bool.eq_false_iff]
    intro due
    have whole := (course.tile.due valid same working).mp due
    have computes := valid.computes
    rw [← whole,empty] at computes
    contradiction
  have emits := course.emits
  have restD : s.dP2s.value = 0 := by
    apply emits.rest_eq_nil.mp
    have chunks := emits.chunks
    rw [(course.finished finish).2] at chunks
    exact List.append_right_eq_self.mp chunks
  have valueD := ParallelToSerial.next_value (dSteady (i := i) same working) (outputDSerialFactor_le task).2
    emits.below
  have quietD : ParallelToSerial.delivered s.dP2s (dInput s i) = none := by
    have none : ParallelToSerial.offered s.dP2s (dInput s i) = none := by
      rw [ParallelToSerial.offered,if_pos restD]
      simp [dInput,notDue]
    rw [ParallelToSerial.delivered,none,ite_self]
  rw [quietD,Option.isSome_none,if_neg Bool.false_ne_true,ParallelToSerial.value_eq_zero.mp restD] at valueD
  have clear : (s.array (chosen p task)).outValid = false := by
    have grabbed := course.tile.grabbed
    rw [empty,List.length_nil] at grabbed
    cases shows : (s.array (chosen p task)).outValid with
    | false => rfl
    | true => rw [shows,Bool.toNat_true] at grabbed; omega
  refine ⟨?_,?_,?_,?_,⟨?_,?_⟩,⟨?_,?_⟩,⟨SerialToParallel.value_eq_zero.mpr valueC,stillC⟩,
    ParallelToSerial.value_eq_zero.mpr valueD,?_,fun t => ?_⟩
  · change (if s.busy then !versacoreFinish s i else _) = false
    rw [working,finish]
    rfl
  · simp [next,finish]
  · simp [next,finish]
  · simp [next,finish]
  · exact SerialToParallel.value_eq_zero.mpr (single_value rfl course.singleA)
  · exact Option.toList_eq_nil_iff.mp (List.append_eq_nil_iff.mp leftA).2
  · exact SerialToParallel.value_eq_zero.mpr (single_value rfl course.singleB)
  · exact Option.toList_eq_nil_iff.mp (List.append_eq_nil_iff.mp leftB).2
  · exact List.map_eq_nil_iff.mp (List.append_eq_nil_iff.mp leftA).1
  · by_cases used : t = chosen p task
    · rw [used,next_outValid valid same,idle,clear]
      rfl
    · exact next_others valid same i used (course.others t used)

end End

/-! ### Tasks one after the other -/

/-- A task from the cycle of its configuration to the one in which it finishes. -/
structure Session (p : VersaCoreParam) where
  task : VersaCoreCfg
  first : Input p
  inputs : List (Input p)
  last : Input p

def Session.stream (x : Session p) : List (Input p) := x.first :: x.inputs ++ [x.last]

/-- The surroundings keep to the task: the operands are those that it computes, none of them in the last
cycle and no chunk of an addend in the first one. -/
structure Session.Keeps (s : State p) (x : Session p) : Prop where
  valid : Valid p x.task
  asks : x.first.ctrl = some x.task
  firstC : x.first.inC = none
  runs : (versaCore p).Each (fun _ t i => versacoreFinish t i = false) (next s x.first) x.inputs
  finish : versacoreFinish ((versaCore p).exec s (x.first :: x.inputs)) x.last = true
  operands : Exact p x.task ((versaCore p).outs s (x.first :: x.inputs))
  lastA : x.last.inA = none
  lastB : x.last.inB = none
  lastC : x.last.inC = none

theorem Session.Keeps.rests {s : State p} {x : Session p} (keeps : x.Keeps s) (rested : Rested p s) :
    Rested p ((versaCore p).exec s x.stream) := by
  obtain ⟨tiles,part,course⟩ := rested.course keeps.valid keeps.asks keeps.firstC keeps.runs
  rw [Session.stream,Machine.exec_append]
  exact course.rests keeps.valid keeps.finish keeps.operands keeps.lastA keeps.lastB keeps.lastC

end Snax.VersaCore
