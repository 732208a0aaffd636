import Snax.DataPathExtension
import Snax.GroupCounter

/-! `ElementwiseAddToLong.scala`: the words of a group are added up by an accumulate stage,
whose result an output stage hands out in several words. Neither looks at the start pulse. -/
namespace Snax

open Sync

/-- `(out_elementWidth / in_elementWidth).U(8.W)` is a literal of eight bits. -/
structure LongParam extends WidenParam where
  fits : toWidenParam.ratio < 2 ^ 8

namespace ElementwiseAddToLong

variable {p : LongParam}

abbrev Regs (p : LongParam) := Fin p.ratio → p.Out

structure State (p : LongParam) where
  /-- `WaitingOutput` of `AccumulateCtrl`. -/
  waiting : Bool
  counter : BitVec 8
  accumulateRegs : Regs p
  /-- `Busy` of `OutputCtrl`. -/
  outputBusy : Bool
  outputCounter : BitVec 8
  outputRegs : Regs p

abbrev Input (p : LongParam) := BusInput (BitVec 32) p.In

/-- The counter has reached the last word of a group. -/
def last (s : State p) (i : Input p) : Bool := s.counter.setWidth 32 == i.csr - 1

def lastBeat (s : State p) : Bool := s.outputCounter == BitVec.ofNat 8 (p.ratio - 1)

/-- `intermediate_ready`. -/
def outputReady (s : State p) (i : Input p) : Bool :=
  if s.outputBusy then lastBeat s && i.ready else true

/-- `intermediate_valid`: the counter alone announces a result. -/
def accumulateValid (s : State p) (i : Input p) : Bool := s.waiting || last s i

/-- `self_ready` of the accumulate stage, which is also `counter_active`. -/
def accumulateReady (s : State p) (i : Input p) : Bool :=
  if s.waiting then outputReady s i
  else if last s i then outputReady s i
  else true

def accumulateReset (s : State p) (i : Input p) : Bool :=
  if s.waiting then outputReady s i else last s i && outputReady s i

def accumulateUpdate (s : State p) (i : Input p) : Bool :=
  if s.waiting then false
  else if last s i then outputReady s i
  else true

/-- `output_data`: the registers and the bus. -/
def outputData (s : State p) (bits : p.In) : Regs p := fun j k =>
  s.accumulateRegs j k + (bits (p.lane j k)).signExtend _

def accepted (s : State p) (i : Input p) : Option p.In :=
  if accumulateReady s i then i.offered else none

def dataOut (s : State p) : p.Out :=
  ((List.ofFn s.outputRegs)[s.outputCounter.toNat]?).getD fun _ => 0

def delivered (s : State p) (i : Input p) : Option p.Out :=
  if s.outputBusy && i.ready then some (dataOut s) else none

def captures (s : State p) (i : Input p) : Bool := outputReady s i && accumulateValid s i

def next (s : State p) (i : Input p) : State p where
  waiting := if s.waiting then !outputReady s i else last s i && !outputReady s i
  counter := BasicCounter.next true false (accumulateReady s i && i.valid) (i.csr.setWidth 8) s.counter
  accumulateRegs :=
    if accumulateReset s i then fun _ _ => 0
    else if accumulateUpdate s i && i.valid then outputData s i.bits
    else s.accumulateRegs
  outputBusy :=
    if s.outputBusy then
      if lastBeat s then (if i.ready then accumulateValid s i else true) else true
    else accumulateValid s i
  outputCounter :=
    BasicCounter.next true (!s.outputBusy) (s.outputBusy && i.ready) (BitVec.ofNat 8 p.ratio) s.outputCounter
  outputRegs := if captures s i then outputData s i.bits else s.outputRegs

def out (s : State p) (i : Input p) : ExtOutput p.In p.Out where
  accepted := accepted s i
  delivered := delivered s i
  busy := !accumulateReady s i || i.valid

def initial (p : LongParam) : State p := ⟨false,0,fun _ _ => 0,false,0,fun _ _ => 0⟩

end ElementwiseAddToLong

def elementwiseAddToLong (p : LongParam) :
    Machine (ElementwiseAddToLong.State p) (ElementwiseAddToLong.Input p) (ExtOutput p.In p.Out) where
  next := ElementwiseAddToLong.next
  out := ElementwiseAddToLong.out

namespace ElementwiseAddToLong

variable {p : LongParam} {s : State p} {i : Input p}

/-- The sums of a group, modulo `2 ^ outWidth`. -/
def groupSums (group : List p.In) : Regs p := fun j k =>
  group.foldl (fun sum x => sum + (x (p.lane j k)).signExtend _) 0

/-- The words of a group's result. -/
def results (group : List p.In) : List p.Out := List.ofFn (groupSums group)

/-- The words that the output stage still has to hand out. -/
def pending (s : State p) : List p.Out :=
  if s.outputBusy then (List.ofFn s.outputRegs).drop s.outputCounter.toNat else []

/-- The last word of a group is missing when its result is due: the output stage is ready
and nothing is offered. -/
def Bubble (s : State p) (i : Input p) : Prop :=
  s.counter.toNat + 1 = i.csr.toNat ∧ outputReady s i = true ∧ i.valid = false

/-- The words delivered and those still to be handed out are the results of the complete
groups of accepted words. -/
def SumsGroups (n : Nat) (history : List (ExtOutput p.In p.Out)) (s : State p) : Prop :=
  deliveredWords history ++ pending s = (Grouping.of n (acceptedWords history)).whole.flatMap results

theorem groupSums_concat (group : List p.In) (x : p.In) :
    groupSums (group ++ [x]) = fun j k => groupSums group j k + (x (p.lane j k)).signExtend _ := by
  funext j k
  simp [groupSums]

@[simp] theorem results_length (group : List p.In) : (results group).length = p.ratio := by
  simp [results]

/-! ### The output stage -/

theorem beat_lt (p : LongParam) : p.ratio - 1 < 2 ^ 8 := by
  have := p.fits
  omega

theorem lastBeat_iff (s : State p) : lastBeat s = true ↔ s.outputCounter.toNat + 1 = p.ratio := by
  have positive := p.ratio_pos
  have fits := p.fits
  rw [lastBeat,beq_iff_eq,BitVec.toNat_eq,BitVec.toNat_ofNat,Nat.mod_eq_of_lt (beat_lt p)]
  omega

theorem lastIndex_ratio (p : LongParam) : lastIndex (BitVec.ofNat 8 p.ratio) = p.ratio - 1 := by
  have positive := p.ratio_pos
  have fits := p.fits
  obtain ⟨k,same⟩ := Nat.exists_eq_succ_of_ne_zero positive.ne'
  rw [same]
  exact lastIndex_ofNat_succ k (by decide) (by omega)

/-- A word that is delivered is the next one of the result. -/
theorem pending_eq (busy : s.outputBusy = true) (inside : s.outputCounter.toNat < p.ratio) :
    pending s = dataOut s :: (List.ofFn s.outputRegs).drop (s.outputCounter.toNat + 1) := by
  have long : s.outputCounter.toNat < (List.ofFn s.outputRegs).length := by simpa using inside
  rw [pending,if_pos busy,List.drop_eq_getElem_cons long,dataOut,List.getElem?_eq_getElem long]
  rfl

theorem outputCounter_next (inside : s.outputCounter.toNat < p.ratio) :
    (next s i).outputCounter.toNat =
      if s.outputBusy then
        if i.ready then (if s.outputCounter.toNat + 1 < p.ratio then s.outputCounter.toNat + 1 else 0)
        else s.outputCounter.toNat
      else 0 := by
  have fits := p.fits
  change (BasicCounter.next true (!s.outputBusy) (s.outputBusy && i.ready) (BitVec.ofNat 8 p.ratio)
    s.outputCounter).toNat = _
  cases busy : s.outputBusy with
  | false => simp
  | true =>
    cases ready : i.ready with
    | false => simp
    | true =>
      simp only [BasicCounter.next,lastIndex_ratio,Bool.not_true,Bool.false_eq_true,Bool.and_self,↓reduceIte]
      by_cases more : s.outputCounter.toNat + 1 < p.ratio
      · rw [if_pos (by omega),if_pos more]
        exact BasicCounter.toNat_add_one _ inside fits
      · rw [if_neg (by omega),if_neg more]
        rfl

/-- A stage that stands between two results shows the one that it captures. -/
theorem pending_captured (fresh : (next s i).outputCounter.toNat = 0)
    (busy' : (next s i).outputBusy = accumulateValid s i) (ready : outputReady s i = true) :
    pending (next s i) = if captures s i then List.ofFn (outputData s i.bits) else [] := by
  have same : captures s i = accumulateValid s i := by simp [captures,ready]
  rw [pending,busy',fresh,same]
  cases valid : accumulateValid s i with
  | false => rfl
  | true =>
    have regs : (next s i).outputRegs = outputData s i.bits := by simp [next,same,valid]
    rw [regs]
    rfl

/-- The words of the output stage: the next one leaves, and a captured result comes in. -/
theorem output_cycle (inside : s.outputCounter.toNat < p.ratio) :
    (next s i).outputCounter.toNat < p.ratio ∧
      (delivered s i).toList ++ pending (next s i) =
        pending s ++ if captures s i then List.ofFn (outputData s i.bits) else [] := by
  have counter := outputCounter_next (i := i) inside
  constructor
  · have positive := p.ratio_pos
    rw [counter]
    split_ifs <;> omega
  · cases busy : s.outputBusy with
    | false =>
      have fresh : (next s i).outputCounter.toNat = 0 := by rw [counter,busy]; rfl
      have idle : outputReady s i = true := by simp [outputReady,busy]
      rw [pending_captured fresh (by simp [next,busy]) idle]
      simp [delivered,pending,busy]
    | true =>
      have shown := pending_eq busy inside
      by_cases leaves : lastBeat s = true ∧ i.ready = true
      · -- the last word leaves, and the next result may come in
        obtain ⟨last,ready⟩ := leaves
        have beat := (lastBeat_iff s).mp last
        have fresh : (next s i).outputCounter.toNat = 0 := by
          rw [counter,busy,ready,if_pos rfl,if_pos rfl,if_neg (by omega)]
        have idle : outputReady s i = true := by simp [outputReady,busy,last,ready]
        rw [pending_captured fresh (by simp [next,busy,last,ready]) idle,shown,beat,
          List.drop_of_length_le (by simp)]
        simp [delivered,busy,ready]
      · have shut : outputReady s i = false := by
          simpa [outputReady,busy] using leaves
        have none : captures s i = false := by simp [captures,shut]
        have busy' : (next s i).outputBusy = true := by
          cases last : lastBeat s with
          | false => simp [next,busy,last]
          | true =>
            have stalled : i.ready = false := by simpa [last] using leaves
            simp [next,busy,last,stalled]
        have regs : (next s i).outputRegs = s.outputRegs := by simp [next,none]
        rw [none,if_neg Bool.false_ne_true,List.append_nil]
        cases ready : i.ready with
        | false =>
          have same : (next s i).outputCounter.toNat = s.outputCounter.toNat := by
            rw [counter,busy,ready]
            rfl
          simp [delivered,ready,pending,busy,busy',regs,same]
        | true =>
          have early : ¬ lastBeat s = true := fun last => leaves ⟨last,ready⟩
          rw [lastBeat_iff] at early
          have more : (next s i).outputCounter.toNat = s.outputCounter.toNat + 1 := by
            rw [counter,busy,ready,if_pos rfl,if_pos rfl,if_pos (by omega)]
          rw [shown,pending,if_pos busy',regs,more]
          simp [delivered,busy,ready]

/-! ### The accumulate stage -/

/-- The counter stands at the size of the incomplete group, and only a complete one waits. -/
structure Counts (n : BitVec 32) (g : Grouping p.In) (s : State p) : Prop where
  count : s.counter.toNat = g.part.length
  short : g.part.length < n.toNat
  waits : s.waiting = true → g.part.length + 1 = n.toNat
  beat : s.outputCounter.toNat < p.ratio

theorem last_iff {n : BitVec 32} {g : Grouping p.In} (counts : Counts n g s) (proper : ProperSize n)
    (csr : i.csr = n) : last s i = decide (g.part.length + 1 = n.toNat) := by
  have less := sub_one_toNat proper
  have wide : (s.counter.setWidth 32).toNat = s.counter.toNat := BitVec.toNat_setWidth_of_le (by decide)
  have count := counts.count
  have low := proper.1
  rw [last,csr,Bool.eq_iff_iff,beq_iff_eq,decide_eq_true_iff,BitVec.toNat_eq,wide,less]
  omega

/-- The accumulate stage is ready unless a complete group meets a busy output stage. -/
theorem Counts.ready {n : BitVec 32} {g : Grouping p.In} (counts : Counts n g s)
    (proper : ProperSize n) (csr : i.csr = n) :
    accumulateReady s i = (!decide (g.part.length + 1 = n.toNat) || outputReady s i) ∧
      captures s i = (decide (g.part.length + 1 = n.toNat) && outputReady s i) := by
  have due := last_iff counts proper csr
  cases waiting : s.waiting with
  | true => simp [accumulateReady,captures,accumulateValid,waiting,counts.waits waiting]
  | false =>
    by_cases whole : g.part.length + 1 = n.toNat <;>
      simp [accumulateReady,captures,accumulateValid,waiting,due,whole]

theorem Counts.cycle {n : BitVec 32} {g : Grouping p.In} (counts : Counts n g s)
    (proper : ProperSize n) (csr : i.csr = n) :
    Counts n (g.pushed n.toNat (accepted s i)) (next s i) := by
  obtain ⟨ready,_⟩ := counts.ready proper csr (i := i)
  have ticks : (accumulateReady s i && i.valid) = (accepted s i).isSome := by
    cases open' : accumulateReady s i <;> cases valid : i.valid <;>
      simp [accepted,BusInput.offered,open',valid]
  obtain ⟨count,short⟩ := counter_pushed proper counts.count counts.short (accepted s i)
  refine ⟨?_,short,fun waiting => ?_,(output_cycle counts.beat).1⟩
  · rw [← count,← ticks,← csr]
    rfl
  · have stuck : g.part.length + 1 = n.toNat ∧ outputReady s i = false := by
      cases before : s.waiting with
      | true => exact ⟨counts.waits before,by simpa [next,before] using waiting⟩
      | false => simpa [next,before,last_iff counts proper csr] using waiting
    have none : accepted s i = none := by simp [accepted,ready,stuck]
    rw [none]
    exact stuck.1

/-- Without a bubble the registers hold the sums of the incomplete group. -/
theorem sums_cycle {n : BitVec 32} {g : Grouping p.In} (counts : Counts n g s) (proper : ProperSize n)
    (csr : i.csr = n) (sums : s.accumulateRegs = groupSums g.part) (full : ¬ Bubble s i) :
    (next s i).accumulateRegs = groupSums (g.pushed n.toNat (accepted s i)).part ∧
      (if captures s i then List.ofFn (outputData s i.bits) else []) =
        (g.completed n.toNat (accepted s i)).flatMap results := by
  obtain ⟨ready,captured⟩ := counts.ready proper csr (i := i)
  have due := last_iff counts proper csr
  have data : outputData s i.bits = groupSums (g.part ++ [i.bits]) := by
    rw [groupSums_concat,← sums]
    rfl
  by_cases whole : g.part.length + 1 = n.toNat
  · cases idle : outputReady s i with
    | true =>
      have valid : i.valid = true := by
        by_contra missing
        exact full ⟨by rw [counts.count,csr]; exact whole,idle,by simpa using missing⟩
      have taken : accepted s i = some i.bits := by
        simp [accepted,ready,idle,BusInput.offered,valid]
      have clear : accumulateReset s i = true := by
        cases waiting : s.waiting <;> simp [accumulateReset,waiting,due,whole,idle]
      have regs : (next s i).accumulateRegs = fun _ _ => 0 := by simp [next,clear]
      rw [regs,taken,captured]
      refine ⟨?_,by simp [idle,whole,Grouping.completed,data,results]⟩
      simp only [Grouping.pushed,Grouping.push,if_pos whole]
      rfl
    | false =>
      have none : accepted s i = none := by simp [accepted,ready,whole,idle]
      have keep : accumulateReset s i = false ∧ accumulateUpdate s i = false := by
        cases waiting : s.waiting <;> simp [accumulateReset,accumulateUpdate,waiting,due,whole,idle]
      have regs : (next s i).accumulateRegs = s.accumulateRegs := by simp [next,keep]
      rw [regs,none,captured]
      exact ⟨sums,by simp [idle,Grouping.completed]⟩
  · have waiting : s.waiting = false := by
      by_contra waits
      exact whole (counts.waits (by simpa using waits))
    have adds : accumulateReset s i = false ∧ accumulateUpdate s i = true := by
      simp [accumulateReset,accumulateUpdate,waiting,due,whole]
    rw [captured]
    cases valid : i.valid with
    | true =>
      have taken : accepted s i = some i.bits := by
        simp [accepted,ready,whole,BusInput.offered,valid]
      have regs : (next s i).accumulateRegs = outputData s i.bits := by simp [next,adds,valid]
      rw [regs,taken,data]
      simp [Grouping.pushed,Grouping.push,Grouping.completed,whole]
    | false =>
      have none : accepted s i = none := by simp [accepted,BusInput.offered,valid]
      have regs : (next s i).accumulateRegs = s.accumulateRegs := by simp [next,adds,valid]
      rw [regs,none]
      exact ⟨sums,by simp [whole,Grouping.completed]⟩

/-- A bubble hands out a result that no group has. -/
theorem bubble_cycle {n : BitVec 32} {g : Grouping p.In} (counts : Counts n g s) (proper : ProperSize n)
    (csr : i.csr = n) (bubble : Bubble s i) :
    captures s i = true ∧ accepted s i = none := by
  obtain ⟨due,idle,missing⟩ := bubble
  rw [counts.count,csr] at due
  refine ⟨by simp [(counts.ready proper csr).2,due,idle],by simp [accepted,BusInput.offered,missing]⟩

/-! ### Runs -/

theorem captured_length {n : BitVec 32} {g : Grouping p.In} (counts : Counts n g s)
    (proper : ProperSize n) (csr : i.csr = n) :
    p.ratio * (g.completed n.toNat (accepted s i)).length ≤
      (if captures s i then List.ofFn (outputData s i.bits) else []).length := by
  obtain ⟨ready,captured⟩ := counts.ready proper csr (i := i)
  cases taken : accepted s i with
  | none => simp [Grouping.completed]
  | some x =>
    by_cases whole : g.part.length + 1 = n.toNat
    · have idle : outputReady s i = true := by
        by_contra shut
        simp [accepted,ready,whole,shut] at taken
      simp [captured,whole,idle,Grouping.completed]
    · simp [Grouping.completed,whole]

/-- Every complete group of accepted words has its results, and some other words have come. -/
structure Surplus (n : BitVec 32) (history : List (ExtOutput p.In p.Out)) (s : State p) : Prop where
  counts : Counts n (Grouping.of n.toNat (acceptedWords history)) s
  more : p.ratio * (Grouping.of n.toNat (acceptedWords history)).whole.length <
    (deliveredWords history).length + (pending s).length

/-- Up to here the results are those of the complete groups. -/
structure InOrder (n : BitVec 32) (history : List (ExtOutput p.In p.Out)) (s : State p) : Prop where
  counts : Counts n (Grouping.of n.toNat (acceptedWords history)) s
  sums : s.accumulateRegs = groupSums (Grouping.of n.toNat (acceptedWords history)).part
  words : SumsGroups n.toNat history s

variable {n : BitVec 32} {history : List (ExtOutput p.In p.Out)}

theorem flatMap_results_length (groups : List (List p.In)) :
    (groups.flatMap results).length = p.ratio * groups.length := by
  induction groups with
  | nil => rfl
  | cons g groups ih =>
    rw [List.flatMap_cons,List.length_append,ih,results_length,List.length_cons,Nat.mul_succ,Nat.add_comm]

theorem InOrder.size (inOrder : InOrder n history s) :
    (deliveredWords history).length + (pending s).length =
      p.ratio * (Grouping.of n.toNat (acceptedWords history)).whole.length := by
  rw [← List.length_append,inOrder.words,flatMap_results_length]

/-- The sizes over a cycle. -/
theorem size_next (counts : Counts n (Grouping.of n.toNat (acceptedWords history)) s) :
    (deliveredWords (history ++ [out s i])).length + (pending (next s i)).length =
      (deliveredWords history).length + (pending s).length +
        (if captures s i then List.ofFn (outputData s i.bits) else []).length := by
  have words := congrArg List.length (output_cycle (i := i) counts.beat).2
  rw [List.length_append,List.length_append] at words
  have given : (out s i).delivered = delivered s i := rfl
  rw [deliveredWords_concat,List.length_append,given]
  omega

theorem InOrder.next (inOrder : InOrder n history s) (proper : ProperSize n) (csr : i.csr = n)
    (full : ¬ Bubble s i) : InOrder n (history ++ [out s i]) (next s i) := by
  obtain ⟨sums',captured⟩ := sums_cycle inOrder.counts proper csr inOrder.sums full
  have taken : (out s i).accepted = accepted s i := rfl
  have given : (out s i).delivered = delivered s i := rfl
  have counts' := inOrder.counts.cycle proper csr (i := i)
  have moved := (output_cycle (i := i) inOrder.counts.beat).2
  refine ⟨?_,?_,?_⟩
  · rw [acceptedWords_concat,Grouping.of_toList]
    exact counts'
  · rw [acceptedWords_concat,Grouping.of_toList]
    exact sums'
  · rw [SumsGroups,acceptedWords_concat,deliveredWords_concat,Grouping.of_toList,
      Grouping.pushed_whole,List.flatMap_append,taken,given,List.append_assoc,moved,captured,
      ← List.append_assoc,inOrder.words]

theorem Surplus.next (surplus : Surplus n history s) (proper : ProperSize n) (csr : i.csr = n) :
    Surplus n (history ++ [out s i]) (next s i) := by
  have taken : (out s i).accepted = accepted s i := rfl
  have more := surplus.more
  have captured := captured_length surplus.counts proper csr (i := i)
  refine ⟨?_,?_⟩
  · rw [acceptedWords_concat,Grouping.of_toList]
    exact surplus.counts.cycle proper csr
  · rw [size_next surplus.counts,acceptedWords_concat,Grouping.of_toList,Grouping.pushed_whole,
      List.length_append,Nat.mul_add,taken]
    omega

theorem InOrder.bubble (inOrder : InOrder n history s) (proper : ProperSize n) (csr : i.csr = n)
    (bubble : Bubble s i) : Surplus n (history ++ [out s i]) (ElementwiseAddToLong.next s i) := by
  obtain ⟨captured,none⟩ := bubble_cycle inOrder.counts proper csr bubble
  have taken : (out s i).accepted = accepted s i := rfl
  have positive := p.ratio_pos
  refine ⟨?_,?_⟩
  · rw [acceptedWords_concat,Grouping.of_toList]
    exact inOrder.counts.cycle proper csr
  · rw [size_next inOrder.counts,inOrder.size,acceptedWords_concat,taken,none,captured]
    simpa using positive

theorem initial_inOrder (proper : ProperSize n) : InOrder n [] (initial p) :=
  ⟨⟨rfl,proper.1,nofun,p.ratio_pos⟩,rfl,rfl⟩

/-- The words delivered over a run, and those still to come, are the sums of its complete
groups exactly if the last word of a group is never missing when its result is due. -/
theorem elementwise_add_to_long (p : LongParam) {n : BitVec 32} (proper : ProperSize n)
    {inputs : List (Input p)} (stable : ∀ i ∈ inputs, i.csr = n) :
    SumsGroups n.toNat ((elementwiseAddToLong p).outs (initial p) inputs)
        ((elementwiseAddToLong p).exec (initial p) inputs) ↔
      (elementwiseAddToLong p).Each (fun _ s i => ¬ Bubble s i) (initial p) inputs := by
  have each := Machine.Each.of_inputs (m := elementwiseAddToLong p) (s := initial p) stable
  rcases Machine.run_dichotomy (q := fun _ s i => ¬ Bubble s i) (InOrder n) (Surplus n) each
      (initial_inOrder proper) (fun _ _ _ inOrder csr full => inOrder.next proper csr full)
      (fun _ _ _ inOrder csr bubble => inOrder.bubble proper csr (Classical.not_not.mp bubble))
      (fun _ _ _ surplus csr => surplus.next proper csr) with ⟨all,inOrder⟩ | ⟨some,surplus⟩
  · exact ⟨fun _ => all,fun _ => inOrder.words⟩
  · refine ⟨fun words => absurd (congrArg List.length words) ?_,fun all => absurd all some⟩
    rw [List.length_append,flatMap_results_length]
    exact surplus.more.ne'

theorem short_positive : 0 < 8 := Nat.succ_pos 7
theorem short_wider : 8 ≤ 16 := Nat.le_add_right 8 8
theorem short_elements : 8 ∣ 16 := ⟨2,rfl⟩
theorem short_whole : 16 ∣ 16 := Nat.dvd_refl 16
theorem short_fits : 16 / 8 < 2 ^ 8 := by decide

/-- Two elements of 8 bits in a word, one of 16 bits in an output word. -/
def shortWords : LongParam where
  inWidth := 8
  outWidth := 16
  dataWidth := 16
  inPositive := short_positive
  wider := short_wider
  inElements := short_elements
  outElements := short_whole
  fits := short_fits

/-- Groups of two words under a ready receiver, in some cycles no word. -/
def offers (words : List (Option Nat)) : List (Input shortWords) :=
  words.map fun w => ⟨2,false,w.isSome,fun _ => BitVec.ofNat 8 (w.getD 0),true⟩

theorem elementwise_add_to_long_pair :
    SumsGroups 2 ((elementwiseAddToLong shortWords).outs (initial shortWords) (offers [some 5,some 3,none]))
        ((elementwiseAddToLong shortWords).exec (initial shortWords) (offers [some 5,some 3,none])) ↔
      (elementwiseAddToLong shortWords).Each (fun _ s i => ¬ Bubble s i) (initial shortWords)
        (offers [some 5,some 3,none]) :=
  elementwise_add_to_long shortWords (n := 2) (by decide) (by decide +kernel)

/-- After the first word of a group a cycle without a word hands out half a group. -/
theorem elementwise_add_to_long_bubble :
    ¬ ∀ (p : LongParam) (n : BitVec 32), 1 ≤ n.toNat ∧ n.toNat ≤ 255 → ∀ inputs : List (Input p),
      (∀ i ∈ inputs, i.csr = n) →
        SumsGroups n.toNat ((elementwiseAddToLong p).outs (initial p) inputs)
          ((elementwiseAddToLong p).exec (initial p) inputs) := by
  intro all
  have words := congrArg List.length
    (all shortWords 2 (by decide) (offers [some 5,none,some 3]) (by decide +kernel))
  revert words
  decide +kernel

end ElementwiseAddToLong
end Snax
