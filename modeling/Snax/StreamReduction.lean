import Snax.DataPathExtension
import Snax.GroupCounter

/-! `MaxPool.scala` and `ElementwiseAdd.scala`: a group of consecutive words becomes one
word. The group counter has eight bits, so that a group of 256 has the ceiling zero. -/
namespace Snax

open Sync

variable {lanes w : Nat}

/-- `Mux(io.data_i.bits > tempValue, io.data_i.bits, tempValue)`. -/
def maxOf (temp x : Lanes lanes w) : Lanes lanes w := fun lane =>
  if (temp lane).slt (x lane) then x lane else temp lane

/-- The element-wise signed maximum of a group. -/
def signedMax : List (Lanes lanes w) → Lanes lanes w
  | [] => fun _ => 0
  | x :: rest => rest.foldl maxOf x

/-- The element-wise sum of a group, modulo `2 ^ w`. -/
def laneSum (group : List (Lanes lanes w)) : Lanes lanes w := fun lane =>
  group.foldl (fun sum x => sum + x lane) 0

namespace MaxPool

structure State (lanes w : Nat) where
  value : BitVec 8
  /-- `current_state === s_output`. -/
  output : Bool
  tempValue : Lanes lanes w

def inReady (s : State lanes w) (i : ExtInput (BitVec 32) (Lanes lanes w)) : Bool :=
  if s.output then i.ready else true

def accepted (s : State lanes w) (i : ExtInput (BitVec 32) (Lanes lanes w)) : Option (Lanes lanes w) :=
  if inReady s i then i.data else none

def delivered (s : State lanes w) (i : ExtInput (BitVec 32) (Lanes lanes w)) : Option (Lanes lanes w) :=
  if s.output && i.ready then some s.tempValue else none

/-- The PEs take a word of the input bus when it is accepted. -/
def nextTemp (s : State lanes w) : Option (Lanes lanes w) → Lanes lanes w
  | none => s.tempValue
  | some x => if s.value == 0 then x else maxOf s.tempValue x

def next (s : State lanes w) (i : ExtInput (BitVec 32) (Lanes lanes w)) : State lanes w where
  value := BasicCounter.next true i.start (accepted s i).isSome (i.csr.setWidth 8) s.value
  output :=
    if s.output then !i.ready
    else BasicCounter.lastVal true (accepted s i).isSome (i.csr.setWidth 8) s.value
  tempValue := nextTemp s (accepted s i)

def out (s : State lanes w) (i : ExtInput (BitVec 32) (Lanes lanes w)) :
    ExtOutput (Lanes lanes w) (Lanes lanes w) where
  accepted := accepted s i
  delivered := delivered s i
  busy := s.value != 0 || i.data.isSome

/-- The registers of the PEs have no reset value. -/
def initial (tempValue : Lanes lanes w) : State lanes w := ⟨0,false,tempValue⟩

end MaxPool

def maxPool (lanes w : Nat) : Machine (MaxPool.State lanes w) (ExtInput (BitVec 32) (Lanes lanes w))
    (ExtOutput (Lanes lanes w) (Lanes lanes w)) where
  next := MaxPool.next
  out := MaxPool.out

namespace ElementwiseAdd

structure State (lanes w : Nat) where
  value : BitVec 8
  regs : Lanes lanes w

def sum (s : State lanes w) (x : Lanes lanes w) : Lanes lanes w := fun lane => s.regs lane + x lane

def accepted (s : State lanes w) (i : ExtInput (BitVec 32) (Lanes lanes w)) : Option (Lanes lanes w) :=
  if i.ready then i.data else none

/-- The output is valid in the cycle in which the last word of a group is accepted. -/
def delivered (s : State lanes w) (i : ExtInput (BitVec 32) (Lanes lanes w)) : Option (Lanes lanes w) :=
  if s.value == (i.csr - 1).setWidth 8 then (accepted s i).map (sum s) else none

def nextRegs (s : State lanes w) (csr : BitVec 32) : Option (Lanes lanes w) → Lanes lanes w
  | none => s.regs
  | some x => if s.value.setWidth 32 == csr - 1 then fun _ => 0 else sum s x

def next (s : State lanes w) (i : ExtInput (BitVec 32) (Lanes lanes w)) : State lanes w where
  value := BasicCounter.next true i.start (accepted s i).isSome (i.csr.setWidth 8) s.value
  regs := nextRegs s i.csr (accepted s i)

def out (s : State lanes w) (i : ExtInput (BitVec 32) (Lanes lanes w)) :
    ExtOutput (Lanes lanes w) (Lanes lanes w) where
  accepted := accepted s i
  delivered := delivered s i
  busy := s.value != 0 || i.data.isSome

def initial (lanes w : Nat) : State lanes w := ⟨0,fun _ => 0⟩

end ElementwiseAdd

def elementwiseAdd (lanes w : Nat) :
    Machine (ElementwiseAdd.State lanes w) (ExtInput (BitVec 32) (Lanes lanes w))
      (ExtOutput (Lanes lanes w) (Lanes lanes w)) where
  next := ElementwiseAdd.next
  out := ElementwiseAdd.out

theorem signedMax_concat {group : List (Lanes lanes w)} (some : group ≠ []) (x : Lanes lanes w) :
    signedMax (group ++ [x]) = maxOf (signedMax group) x := by
  cases group with
  | nil => contradiction
  | cons y rest => simp [signedMax]

theorem maxOf_toInt (temp x : Lanes lanes w) (lane : Fin lanes) :
    (maxOf temp x lane).toInt = max (temp lane).toInt (x lane).toInt := by
  unfold maxOf
  split
  · next less =>
    rw [BitVec.slt_iff_toInt_lt] at less
    exact (max_eq_right less.le).symm
  · next more =>
    rw [BitVec.slt_iff_toInt_lt] at more
    exact (max_eq_left (not_lt.mp more)).symm

/-- The maximum is an element of the group, and none is larger. -/
theorem signedMax_spec {group : List (Lanes lanes w)} (some : group ≠ []) (lane : Fin lanes) :
    signedMax group lane ∈ group.map (fun x => x lane) ∧
      ∀ x ∈ group, (x lane).toInt ≤ (signedMax group lane).toInt := by
  induction group using List.reverseRecOn with
  | nil => contradiction
  | append_singleton group x ih =>
    by_cases first : group = []
    · subst first
      simp [signedMax]
    · obtain ⟨member,upper⟩ := ih first
      have value := maxOf_toInt (signedMax group) x lane
      rw [signedMax_concat first]
      refine ⟨?_,fun y inside => ?_⟩
      · unfold maxOf
        split
        · simp
        · rw [List.map_append]
          exact List.mem_append_left _ member
      · rw [value]
        rcases List.mem_append.mp inside with old | new
        · exact (upper y old).trans (le_max_left _ _)
        · rw [List.mem_singleton.mp new]
          exact le_max_right _ _

theorem laneSum_concat (group : List (Lanes lanes w)) (x : Lanes lanes w) :
    laneSum (group ++ [x]) = fun lane => laneSum group lane + x lane := by
  funext lane
  simp [laneSum]

/-! ### The law of a session -/

/-- Every group of the words accepted in a session, and nothing else, becomes a word: it is
delivered in the session or held at its end. With no group under way the unit rests. -/
structure Reduces {State α β : Type} (m : Machine State (ExtInput (BitVec 32) α) (ExtOutput α β))
    (held : State → List β) (reduce : List α → β) (s : State) (x : Session (BitVec 32) α) : Prop where
  words : deliveredWords (m.outs s x.inputs) ++ held (m.exec s x.inputs) =
    held s ++ (Grouping.of x.csr.toNat (acceptedWords (m.outs s x.inputs))).whole.map reduce
  rests : (Grouping.of x.csr.toNat (acceptedWords (m.outs s x.inputs))).part = [] →
    ∀ i, i.data = none → (m.out (m.exec s x.inputs) i).busy = false

namespace MaxPool

variable {s : State lanes w} {i : ExtInput (BitVec 32) (Lanes lanes w)}

/-- The result that waits for the receiver. -/
def held (s : State lanes w) : List (Lanes lanes w) := if s.output then [s.tempValue] else []

/-- A group of one word is accepted in the cycle in which the result before it leaves. -/
def Overlaps (n : BitVec 32) (s : State lanes w) (i : ExtInput (BitVec 32) (Lanes lanes w)) : Prop :=
  n.toNat = 1 ∧ s.output = true ∧ i.ready = true ∧ i.data.isSome = true

theorem not_busy_iff : (out s i).busy = false ↔ s.value = 0 ∧ i.data = none := by
  simp [out]

/-- A result that waits stays where it is, or is delivered. -/
theorem waiting_words (none : accepted s i = none) :
    (next s i).output = (s.output && !i.ready) ∧
      (delivered s i).toList ++ held (next s i) = held s := by
  have temp : (next s i).tempValue = s.tempValue := by simp [next,none,nextTemp]
  have ends : (next s i).output = (s.output && !i.ready) := by
    cases output : s.output <;> simp [next,output,none]
  refine ⟨ends,?_⟩
  unfold held
  rw [ends,temp]
  cases output : s.output <;> cases ready : i.ready <;> simp [delivered,output,ready]

theorem start_cycle (s : State lanes w) (x : Session (BitVec 32) (Lanes lanes w)) :
    (next s x.startCycle).value = 0 ∧ (out s x.startCycle).accepted = none ∧
      (out s x.startCycle).delivered.toList ++ held (next s x.startCycle) = held s := by
  have quiet : accepted s x.startCycle = none := by
    change (if inReady s x.startCycle then none else none) = none
    exact ite_self none
  exact ⟨by simp [next,Session.startCycle],quiet,(waiting_words quiet).2⟩

/-- The registers between two cycles of a stream. -/
structure Holds (n : BitVec 32) (g : Grouping (Lanes lanes w)) (s : State lanes w) : Prop where
  count : s.value.toNat = g.part.length
  short : g.part.length < n.toNat
  running : g.part ≠ [] → s.tempValue = signedMax g.part
  ended : s.output = true → g.part = []

/-- An accepted word, when no result of a group of one is due in the same cycle. -/
theorem Holds.accept {n : BitVec 32} {g : Grouping (Lanes lanes w)} (holds : Holds n g s)
    (proper : ProperSize n) (csr : i.csr = n) (start : i.start = false) (apart : ¬ Overlaps n s i)
    {x : Lanes lanes w} (taken : accepted s i = some x) :
    Holds n (g.push n.toNat x) (next s i) ∧
      (delivered s i).toList ++ held (next s i) =
        held s ++ (g.completed n.toNat (some x)).map signedMax := by
  have temp : (next s i).tempValue = signedMax (g.part ++ [x]) := by
    change nextTemp s (accepted s i) = _
    rw [taken,nextTemp]
    have zero := holds.count
    by_cases first : g.part = []
    · have fresh : s.value = 0 := BitVec.eq_of_toNat_eq (by rw [zero,first]; rfl)
      simp [fresh,first,signedMax]
    · have later : (s.value == 0) = false := beq_false_of_ne fun fresh => by
        rw [fresh] at zero
        exact first (List.length_eq_zero_iff.mp zero.symm)
      rw [later,if_neg Bool.false_ne_true,holds.running first,signedMax_concat first]
  have last : BasicCounter.lastVal true (accepted s i).isSome (i.csr.setWidth 8) s.value =
      decide (g.part.length + 1 = n.toNat) := by
    rw [taken,csr,Option.isSome_some,counter_last proper,holds.count]
  have count : (next s i).value.toNat = (g.push n.toNat x).part.length := by
    change (BasicCounter.next true i.start (accepted s i).isSome (i.csr.setWidth 8) s.value).toNat = _
    rw [taken,csr,start,Option.isSome_some]
    exact counter_push proper holds.count holds.short x
  have ends : (next s i).output = decide (g.part.length + 1 = n.toNat) := by
    change (if s.output then !i.ready else _) = _
    cases output : s.output with
    | false => rw [if_neg Bool.false_ne_true,last]
    | true =>
      have ready : i.ready = true := by
        by_contra stalled
        simp [accepted,inReady,output,stalled] at taken
      have offered : i.data.isSome = true := by
        unfold accepted at taken
        split at taken <;> simp_all
      have several : ¬ g.part.length + 1 = n.toNat := fun one => by
        rw [holds.ended output] at one
        exact apart ⟨one.symm,output,ready,offered⟩
      simp [ready,several]
  have flows : (delivered s i).toList = held s := by
    cases output : s.output with
    | false => simp [delivered,held,output]
    | true =>
      have ready : i.ready = true := by
        by_contra stalled
        simp [accepted,inReady,output,stalled] at taken
      simp [delivered,held,output,ready]
  have short := holds.short
  by_cases whole : g.part.length + 1 = n.toNat
  · have vacant : (g.push n.toNat x).part = [] := by simp [Grouping.push,whole]
    refine ⟨⟨count,?_,fun some => absurd vacant some,fun _ => vacant⟩,?_⟩
    · rw [vacant]
      exact Nat.zero_lt_of_lt short
    · have held' : held (next s i) = [signedMax (g.part ++ [x])] := by simp [held,ends,whole,temp]
      rw [flows,held']
      simp [Grouping.completed,whole]
  · have more : (g.push n.toNat x).part = g.part ++ [x] := by simp [Grouping.push,whole]
    refine ⟨⟨count,?_,fun _ => by rw [more,temp],fun output => ?_⟩,?_⟩
    · rw [more,List.length_append,List.length_singleton]
      omega
    · simp [ends,whole] at output
    · have held' : held (next s i) = [] := by simp [held,ends,whole]
      rw [flows,held']
      simp [Grouping.completed,whole]

/-- A cycle in which no word is accepted. -/
theorem Holds.wait {n : BitVec 32} {g : Grouping (Lanes lanes w)} (holds : Holds n g s)
    (start : i.start = false) (none : accepted s i = none) :
    Holds n g (next s i) ∧ (delivered s i).toList ++ held (next s i) = held s := by
  have temp : (next s i).tempValue = s.tempValue := by simp [next,none,nextTemp]
  have count : (next s i).value = s.value := by simp [next,none,start]
  obtain ⟨ends,words⟩ := waiting_words none
  refine ⟨⟨by rw [count]; exact holds.count,holds.short,by rw [temp]; exact holds.running,?_⟩,words⟩
  intro output
  rw [ends,Bool.and_eq_true] at output
  exact holds.ended output.1

theorem Holds.cycle {n : BitVec 32} {g : Grouping (Lanes lanes w)} (holds : Holds n g s)
    (proper : ProperSize n) (csr : i.csr = n) (start : i.start = false) (apart : ¬ Overlaps n s i) :
    Holds n (g.pushed n.toNat (accepted s i)) (next s i) ∧
      (delivered s i).toList ++ held (next s i) =
        held s ++ (g.completed n.toNat (accepted s i)).map signedMax := by
  cases taken : accepted s i with
  | none =>
    obtain ⟨holds',words⟩ := holds.wait start taken
    exact ⟨holds',by rw [words]; simp [Grouping.completed]⟩
  | some x => exact holds.accept proper csr start apart taken

/-- A stream without overlaps. -/
theorem stream_run {n : BitVec 32} (proper : ProperSize n) (fresh : s.value = 0)
    {inputs : List (ExtInput (BitVec 32) (Lanes lanes w))}
    (stable : ∀ i ∈ inputs, i.csr = n ∧ i.start = false)
    (apart : (maxPool lanes w).Each (fun _ s i => ¬ Overlaps n s i) s inputs) :
    let history := (maxPool lanes w).outs s inputs
    let s' := (maxPool lanes w).exec s inputs
    Holds n (Grouping.of n.toNat (acceptedWords history)) s' ∧
      deliveredWords history ++ held s' =
        held s ++ (Grouping.of n.toNat (acceptedWords history)).whole.map signedMax := by
  have each := (Machine.Each.of_inputs (m := maxPool lanes w) (s := s) stable).and apart
  refine Machine.run_rule_each (fun history s' =>
    Holds n (Grouping.of n.toNat (acceptedWords history)) s' ∧ deliveredWords history ++ held s' =
      held s ++ (Grouping.of n.toNat (acceptedWords history)).whole.map signedMax) each ?_ ?_
  · refine ⟨⟨by simp [fresh],proper.1,fun some => absurd rfl some,fun _ => rfl⟩,by simp⟩
  · rintro history s' i ⟨holds,words⟩ ⟨⟨csr,start⟩,apart⟩
    obtain ⟨holds',moved⟩ := holds.cycle proper csr start apart
    rw [acceptedWords_concat,deliveredWords_concat,Grouping.of_toList,Grouping.pushed_whole,
      List.map_append,← List.append_assoc,← words]
    exact ⟨holds',by rw [List.append_assoc,List.append_assoc]; exact congrArg _ moved⟩

/-- Groups of one word: an overlap loses a word, and no cycle makes up for it. -/
theorem size_cycle {n : BitVec 32} (one : n.toNat = 1) (fresh : s.value = 0) (csr : i.csr = n) :
    (next s i).value = 0 ∧ (delivered s i).toList.length + (held (next s i)).length +
        (s.output && i.ready && i.data.isSome).toNat =
      (held s).length + (accepted s i).toList.length := by
  have proper : ProperSize n := by constructor <;> omega
  have ceiling : lastIndex (n.setWidth 8) = 0 := by rw [lastIndex_size proper,one]
  constructor
  · simp [next,csr,fresh,BasicCounter.next,ceiling]
  · have last : ∀ tick, BasicCounter.lastVal true tick (n.setWidth 8) (0 : BitVec 8) = tick := by
      intro tick
      simp [BasicCounter.lastVal,ceiling]
    unfold held
    simp only [next,csr,fresh,last]
    cases output : s.output <;> cases ready : i.ready <;> cases data : i.data <;>
      simp [delivered,accepted,inReady,output,ready,data]

theorem size_run {n : BitVec 32} (one : n.toNat = 1)
    {inputs : List (ExtInput (BitVec 32) (Lanes lanes w))} (stable : ∀ i ∈ inputs, i.csr = n)
    {s : State lanes w} (fresh : s.value = 0) :
    ((maxPool lanes w).exec s inputs).value = 0 ∧
      (deliveredWords ((maxPool lanes w).outs s inputs)).length +
          (held ((maxPool lanes w).exec s inputs)).length ≤
        (held s).length + (acceptedWords ((maxPool lanes w).outs s inputs)).length := by
  induction inputs using List.reverseRecOn with
  | nil => exact ⟨fresh,by simp⟩
  | append_singleton front i ih =>
    obtain ⟨zero,le⟩ := ih fun j member => stable j (List.mem_append_left _ member)
    obtain ⟨zero',step⟩ := size_cycle one zero (stable i (by simp))
    rw [Machine.exec_append,Machine.outs_append]
    refine ⟨zero',?_⟩
    change (deliveredWords (_ ++ [out _ i])).length + (held (next _ i)).length ≤
      (held s).length + (acceptedWords (_ ++ [out _ i])).length
    rw [deliveredWords_concat,acceptedWords_concat,List.length_append,List.length_append]
    have sizes : (out ((maxPool lanes w).exec s front) i).accepted = accepted _ i ∧
        (out ((maxPool lanes w).exec s front) i).delivered = delivered _ i := ⟨rfl,rfl⟩
    rw [sizes.1,sizes.2]
    omega

theorem size_overlap {n : BitVec 32} (fresh : s.value = 0)
    {before after : List (ExtInput (BitVec 32) (Lanes lanes w))}
    (stable : ∀ j ∈ before ++ i :: after, j.csr = n)
    (overlap : Overlaps n ((maxPool lanes w).exec s before) i) :
    (deliveredWords ((maxPool lanes w).outs s (before ++ i :: after))).length +
        (held ((maxPool lanes w).exec s (before ++ i :: after))).length <
      (held s).length + (acceptedWords ((maxPool lanes w).outs s (before ++ i :: after))).length := by
  obtain ⟨one,output,ready,offered⟩ := overlap
  obtain ⟨zero,front⟩ := size_run one (fun j member => stable j (List.mem_append_left _ member)) fresh
  obtain ⟨zero',lost⟩ := size_cycle one zero (stable i (by simp))
  have later : ∀ j ∈ after, j.csr = n := fun j member => stable j (by simp [member])
  obtain ⟨_,back⟩ := size_run one later zero'
  rw [output,ready,offered] at lost
  rw [Machine.exec_append,Machine.outs_append,deliveredWords_append,acceptedWords_append,
    Machine.exec_cons,Machine.outs_cons,deliveredWords_cons,acceptedWords_cons]
  simp only [List.length_append]
  change _ + ((delivered _ i).toList.length + (deliveredWords ((maxPool lanes w).outs (next _ i) after)).length) +
    (held ((maxPool lanes w).exec (next _ i) after)).length <
      _ + (_ + ((accepted _ i).toList.length + (acceptedWords ((maxPool lanes w).outs (next _ i) after)).length))
  simp only [Bool.and_self,Bool.toNat_true] at lost
  omega

/-- A session reduces its words exactly if it has no overlap. -/
theorem reduces_iff {x : Session (BitVec 32) (Lanes lanes w)} (proper : ProperSize x.csr) :
    Reduces (maxPool lanes w) held signedMax s x ↔
      (maxPool lanes w).Each (fun _ s i => ¬ Overlaps x.csr s i) s x.inputs := by
  obtain ⟨fresh,quiet,kept⟩ := start_cycle s x
  have first : (maxPool lanes w).outs s x.inputs =
      out s x.startCycle :: (maxPool lanes w).outs (next s x.startCycle) x.stream := rfl
  have taken : acceptedWords ((maxPool lanes w).outs s x.inputs) =
      acceptedWords ((maxPool lanes w).outs (next s x.startCycle) x.stream) := by
    simp [first,acceptedWords,quiet]
  have given : deliveredWords ((maxPool lanes w).outs s x.inputs) =
      (out s x.startCycle).delivered.toList ++
        deliveredWords ((maxPool lanes w).outs (next s x.startCycle) x.stream) := by
    rw [first]
    cases h : (out s x.startCycle).delivered <;> simp [deliveredWords,h]
  have stable : ∀ i ∈ x.stream, i.csr = x.csr ∧ i.start = false := by
    intro i member
    obtain ⟨c,_,rfl⟩ := List.mem_map.mp member
    exact ⟨rfl,rfl⟩
  constructor
  · rintro ⟨words,_⟩ before i after split ⟨one,output,ready,offered⟩
    cases before with
    | nil =>
      obtain ⟨rfl,_⟩ := List.cons.inj split
      simp [Session.startCycle] at offered
    | cons j before =>
      obtain ⟨rfl,tail⟩ := List.cons.inj split
      have rest : x.stream = before ++ i :: after := tail
      have csr : ∀ j ∈ before ++ i :: after, j.csr = x.csr := fun j member =>
        (stable j (rest ▸ member)).1
      have lost := size_overlap fresh csr ⟨one,output,ready,offered⟩
      rw [taken,given,List.append_assoc,← kept,List.append_assoc] at words
      have stream := congrArg List.length (List.append_cancel_left words)
      change (deliveredWords _ ++ held ((maxPool lanes w).exec (next s x.startCycle) x.stream)).length =
        _ at stream
      rw [rest] at stream
      simp only [List.length_append,List.length_map,one,Grouping.whole_length_of_one] at stream
      omega
  · intro apart
    have apart' : (maxPool lanes w).Each (fun _ s i => ¬ Overlaps x.csr s i)
        (next s x.startCycle) x.stream := (Machine.each_cons_iff.mp apart).2
    obtain ⟨holds,words⟩ := stream_run proper fresh stable apart'
    refine ⟨?_,?_⟩
    · rw [taken,given,List.append_assoc]
      change _ ++ (_ ++ held ((maxPool lanes w).exec (next s x.startCycle) x.stream)) = _
      rw [words,← List.append_assoc,kept]
    · rw [taken]
      intro vacant i none
      have count := holds.count
      rw [vacant] at count
      exact not_busy_iff.mpr ⟨BitVec.eq_of_toNat_eq count,none⟩

end MaxPool

namespace ElementwiseAdd

variable {s : State lanes w} {i : ExtInput (BitVec 32) (Lanes lanes w)}

/-- Nothing waits: the sum leaves in the cycle in which the last word comes. -/
def held (_ : State lanes w) : List (Lanes lanes w) := []

theorem not_busy_iff : (out s i).busy = false ↔ s.value = 0 ∧ i.data = none := by
  simp [out]

/-- The registers between two cycles of a stream. -/
structure Holds (n : BitVec 32) (g : Grouping (Lanes lanes w)) (s : State lanes w) : Prop where
  count : s.value.toNat = g.part.length
  short : g.part.length < n.toNat
  sums : s.regs = laneSum g.part

theorem Holds.last_iff {n : BitVec 32} {g : Grouping (Lanes lanes w)} (holds : Holds n g s)
    (proper : ProperSize n) :
    (s.value == (n - 1).setWidth 8) = decide (g.part.length + 1 = n.toNat) ∧
      (s.value.setWidth 32 == n - 1) = decide (g.part.length + 1 = n.toNat) := by
  have less := sub_one_toNat proper
  have count := holds.count
  obtain ⟨low,high⟩ := proper
  have narrow : ((n - 1).setWidth 8).toNat = n.toNat - 1 := by
    rw [BitVec.toNat_setWidth,less]
    exact Nat.mod_eq_of_lt (by omega)
  have wide : (s.value.setWidth 32).toNat = s.value.toNat :=
    BitVec.toNat_setWidth_of_le (by decide)
  constructor
  · rw [Bool.eq_iff_iff,beq_iff_eq,decide_eq_true_iff,BitVec.toNat_eq,narrow]
    omega
  · rw [Bool.eq_iff_iff,beq_iff_eq,decide_eq_true_iff,BitVec.toNat_eq,wide,less]
    omega

theorem Holds.cycle {n : BitVec 32} {g : Grouping (Lanes lanes w)} (holds : Holds n g s)
    (proper : ProperSize n) (csr : i.csr = n) (start : i.start = false) :
    Holds n (g.pushed n.toNat (accepted s i)) (next s i) ∧
      (delivered s i).toList = (g.completed n.toNat (accepted s i)).map laneSum := by
  obtain ⟨last,last'⟩ := holds.last_iff proper
  cases taken : accepted s i with
  | none =>
    have count : (next s i).value = s.value := by simp [next,taken,start]
    have regs : (next s i).regs = s.regs := by simp [next,taken,nextRegs]
    exact ⟨⟨by rw [count]; exact holds.count,holds.short,by rw [regs]; exact holds.sums⟩,
      by simp [delivered,taken,Grouping.completed]⟩
  | some x =>
    have count : (next s i).value.toNat = (g.push n.toNat x).part.length := by
      change (BasicCounter.next true i.start (accepted s i).isSome (i.csr.setWidth 8) s.value).toNat = _
      rw [taken,csr,start,Option.isSome_some]
      exact counter_push proper holds.count holds.short x
    have total : sum s x = laneSum (g.part ++ [x]) := by
      rw [laneSum_concat,← holds.sums]
      rfl
    have regs : (next s i).regs = if g.part.length + 1 = n.toNat then fun _ => 0 else sum s x := by
      change nextRegs s i.csr (accepted s i) = _
      rw [taken,csr,nextRegs,last']
      simp
    have short := holds.short
    simp only [Grouping.pushed,delivered,csr,last,taken,Option.map_some,Grouping.completed]
    by_cases whole : g.part.length + 1 = n.toNat
    · have vacant : (g.push n.toNat x).part = [] := by simp [Grouping.push,whole]
      refine ⟨⟨count,?_,?_⟩,?_⟩
      · rw [vacant]
        exact Nat.zero_lt_of_lt short
      · rw [regs,if_pos whole,vacant]
        rfl
      · simp [whole,total]
    · have more : (g.push n.toNat x).part = g.part ++ [x] := by simp [Grouping.push,whole]
      refine ⟨⟨count,?_,?_⟩,?_⟩
      · rw [more,List.length_append,List.length_singleton]
        omega
      · rw [regs,if_neg whole,more,total]
      · simp [whole]

/-- A stream from empty registers. -/
theorem stream_run {n : BitVec 32} (proper : ProperSize n) (fresh : s.value = 0)
    (clear : s.regs = fun _ => 0) {inputs : List (ExtInput (BitVec 32) (Lanes lanes w))}
    (stable : ∀ i ∈ inputs, i.csr = n ∧ i.start = false) :
    let history := (elementwiseAdd lanes w).outs s inputs
    Holds n (Grouping.of n.toNat (acceptedWords history)) ((elementwiseAdd lanes w).exec s inputs) ∧
      deliveredWords history =
        (Grouping.of n.toNat (acceptedWords history)).whole.map laneSum := by
  have each := Machine.Each.of_inputs (m := elementwiseAdd lanes w) (s := s) stable
  refine Machine.run_rule_each (fun history s' =>
    Holds n (Grouping.of n.toNat (acceptedWords history)) s' ∧ deliveredWords history =
      (Grouping.of n.toNat (acceptedWords history)).whole.map laneSum) each ?_ ?_
  · exact ⟨⟨by simp [fresh],proper.1,clear⟩,rfl⟩
  · rintro history s' i ⟨holds,words⟩ ⟨csr,start⟩
    obtain ⟨holds',moved⟩ := holds.cycle proper csr start
    rw [acceptedWords_concat,deliveredWords_concat,Grouping.of_toList,Grouping.pushed_whole,
      List.map_append,← words]
    exact ⟨holds',congrArg _ moved⟩

/-- With no group under way the registers are clear. -/
def Clear (s : State lanes w) : Prop := s.value = 0 → s.regs = fun _ => 0

theorem reduces {x : Session (BitVec 32) (Lanes lanes w)} (proper : ProperSize x.csr)
    (free : (out s x.startCycle).busy = false) (clear : Clear s) :
    Reduces (elementwiseAdd lanes w) held laneSum s x ∧
      Clear ((elementwiseAdd lanes w).exec s x.inputs) := by
  have quiet : accepted s x.startCycle = none := by
    change (if x.startReady then none else none) = none
    exact ite_self none
  have silent : delivered s x.startCycle = none := by simp [delivered,quiet]
  have fresh : (next s x.startCycle).value = 0 := by simp [next,Session.startCycle]
  have regs : (next s x.startCycle).regs = fun _ => 0 := by
    change nextRegs s _ (accepted s x.startCycle) = _
    rw [quiet]
    exact clear (not_busy_iff.mp free).1
  have stable : ∀ i ∈ x.stream, i.csr = x.csr ∧ i.start = false := by
    intro i member
    obtain ⟨c,_,rfl⟩ := List.mem_map.mp member
    exact ⟨rfl,rfl⟩
  have first : (elementwiseAdd lanes w).outs s x.inputs =
      out s x.startCycle :: (elementwiseAdd lanes w).outs (next s x.startCycle) x.stream := rfl
  have taken : acceptedWords ((elementwiseAdd lanes w).outs s x.inputs) =
      acceptedWords ((elementwiseAdd lanes w).outs (next s x.startCycle) x.stream) := by
    simp [first,acceptedWords,out,quiet]
  have given : deliveredWords ((elementwiseAdd lanes w).outs s x.inputs) =
      deliveredWords ((elementwiseAdd lanes w).outs (next s x.startCycle) x.stream) := by
    simp [first,deliveredWords,out,silent]
  obtain ⟨holds,words⟩ := stream_run proper fresh regs stable
  refine ⟨⟨?_,?_⟩,fun zero => ?_⟩
  · rw [taken,given,words]
    exact List.append_nil _
  · rw [taken]
    intro vacant i none
    have count := holds.count
    rw [vacant] at count
    exact not_busy_iff.mpr ⟨BitVec.eq_of_toNat_eq count,none⟩
  · have count := holds.count
    have sums := holds.sums
    change ((elementwiseAdd lanes w).exec (next s x.startCycle) x.stream).value = 0 at zero
    rw [zero] at count
    rw [List.length_eq_zero_iff.mp count.symm] at sums
    exact sums

end ElementwiseAdd

/-- Both reductions after any sessions: the sum keeps its law in every session, the maximum
in those in which no group of one word is accepted while a result leaves. -/
theorem streaming_reductions (lanes w : Nat) (tempValue : Lanes lanes w)
    (earlier : List (Session (BitVec 32) (Lanes lanes w))) (x : Session (BitVec 32) (Lanes lanes w)) :
    (Session.WellStarted (maxPool lanes w) ProperSize (MaxPool.initial tempValue) (earlier ++ [x]) →
      let s := Session.before (maxPool lanes w) (MaxPool.initial tempValue) earlier
      (Reduces (maxPool lanes w) MaxPool.held signedMax s x ↔
        (maxPool lanes w).Each (fun _ s i => ¬ MaxPool.Overlaps x.csr s i) s x.inputs)) ∧
    (Session.WellStarted (elementwiseAdd lanes w) ProperSize (ElementwiseAdd.initial lanes w)
        (earlier ++ [x]) →
      Reduces (elementwiseAdd lanes w) ElementwiseAdd.held laneSum
        (Session.before (elementwiseAdd lanes w) (ElementwiseAdd.initial lanes w) earlier) x) := by
  constructor
  · intro well
    exact MaxPool.reduces_iff well.last.1
  · intro well
    have clear := well.rule ElementwiseAdd.Clear
      (fun _ _ proper free clear => (ElementwiseAdd.reduces proper free clear).2) fun _ => rfl
    exact (ElementwiseAdd.reduces well.last.1 well.last.2 clear).1

/-- Two words in groups of one: 5, then 3. -/
def single (values : List Nat) : Session (BitVec 32) (Lanes 1 8) :=
  ⟨1,true,values.map fun v => (some fun _ => BitVec.ofNat 8 v,true)⟩

theorem streaming_reductions_pair :
    (Reduces (maxPool 1 8) MaxPool.held signedMax (MaxPool.initial fun _ => 0) ⟨2,true,(single [5,3]).cycles⟩ ↔
      (maxPool 1 8).Each (fun _ s i => ¬ MaxPool.Overlaps 2 s i) (MaxPool.initial fun _ => 0)
        (Session.mk 2 true (single [5,3]).cycles).inputs) ∧
    Reduces (elementwiseAdd 1 8) ElementwiseAdd.held laneSum (ElementwiseAdd.initial 1 8)
      ⟨2,true,(single [5,3]).cycles⟩ :=
  ⟨(streaming_reductions 1 8 (fun _ => 0) [] ⟨2,true,(single [5,3]).cycles⟩).1 (by decide +kernel),
    (streaming_reductions 1 8 (fun _ => 0) [] ⟨2,true,(single [5,3]).cycles⟩).2 (by decide +kernel)⟩

/-- The second word is accepted while the first result leaves, and its own is never delivered. -/
theorem streaming_reductions_single :
    ¬ ∀ (lanes w : Nat) (tempValue : Lanes lanes w)
      (earlier : List (Session (BitVec 32) (Lanes lanes w))) (x : Session (BitVec 32) (Lanes lanes w)),
      Session.WellStarted (maxPool lanes w) ProperSize (MaxPool.initial tempValue) (earlier ++ [x]) →
        Reduces (maxPool lanes w) MaxPool.held signedMax
          (Session.before (maxPool lanes w) (MaxPool.initial tempValue) earlier) x := by
  intro all
  have words := congrArg List.length
    (all 1 8 (fun _ => 0) [] (single [5,3]) (by decide +kernel)).words
  revert words
  decide +kernel

end Snax
