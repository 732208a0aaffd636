import Mathlib.Algebra.Group.Action.Defs
import Mathlib.Algebra.Order.BigOperators.Group.Finset
import Snax.ReaderReplay

/-! Reuse of a word under an innermost stride of zero: the generator runs the loop nest
with that bound overridden to one, the repeater replays each word. One task on a Reader
at rest, in front of a memory that answers with what it holds. -/
namespace Snax

open MixedRadix Sync.Replay

theorem vector_toList_cons (v : Vector α n) (positive : 0 < n) :
    v.toList = v.get ⟨0,positive⟩ :: v.toList.tail := by
  have length := v.length_toList
  have first : v.toList[0]? = some (v.get ⟨0,positive⟩) := by
    rw [List.getElem?_eq_getElem (by omega),Vector.getElem_toList]
    rfl
  cases list : v.toList with
  | nil => simp [list] at first
  | cons x xs =>
    rw [list] at first
    obtain rfl := Option.some.inj first
    rfl

namespace AddressGenUnitCfgIO

variable {param : AddressGenUnitParam} (cfg : AddressGenUnitCfgIO param)

/-- The bounds and steps of the outer loops. -/
def outerBounds : List Nat := cfg.bounds.tail
def outerSteps : List Nat := cfg.steps.tail

theorem bounds_eq : cfg.bounds = cfg.bound0.toNat :: cfg.outerBounds := by
  rw [outerBounds,bounds,vector_toList_cons cfg.temporalBounds param.temporalPositive]
  rfl

theorem steps_eq :
    cfg.steps = (cfg.stride0.setWidth (param.addressWidth - 1)).toNat :: cfg.outerSteps := by
  rw [outerSteps,steps,vector_toList_cons cfg.temporalStrides param.temporalPositive]
  rfl

theorem readOnce_of_stride (nonzero : cfg.stride0 ≠ 0) : cfg.readOnce = cfg := by
  rw [readOnce,if_neg nonzero]

theorem readOnce_bounds (zero : cfg.stride0 = 0) :
    cfg.readOnce.bounds = 1 :: cfg.outerBounds := by
  rw [readOnce,if_pos zero,bounds,Vector.toList_set,
    vector_toList_cons cfg.temporalBounds param.temporalPositive,outerBounds,bounds,
    vector_toList_cons cfg.temporalBounds param.temporalPositive]
  simp [param.widthPositive]

theorem readOnce_steps : cfg.readOnce.steps = cfg.steps := by
  unfold readOnce
  split <;> rfl

theorem readOnce_total (zero : cfg.stride0 = 0) :
    cfg.readOnce.total = cfg.outerBounds.prod ∧ cfg.total = cfg.bound0.toNat * cfg.outerBounds.prod := by
  rw [total,total,cfg.readOnce_bounds zero,cfg.bounds_eq]
  simp

/-- Iteration `k` of the full nest reads what iteration `k / bound0` of the outer one reads. -/
theorem readOnce_address (zero : cfg.stride0 = 0) (k : Nat) :
    cfg.readOnce.address (k / cfg.bound0.toNat) = cfg.address k := by
  have step : (cfg.stride0.setWidth (param.addressWidth - 1)).toNat = 0 := by rw [zero]; simp
  have spatial : cfg.readOnce.spatialStrides = cfg.spatialStrides := by unfold readOnce; split <;> rfl
  have base : cfg.readOnce.ptr = cfg.ptr := by unfold readOnce; split <;> rfl
  funext c
  rw [address,address,offset,offset,readOnce_steps,cfg.readOnce_bounds zero,cfg.bounds_eq,
    cfg.steps_eq,step,dot_digits_zero_weight,dot_digits_zero_weight,Nat.div_one,spatial,base]

end AddressGenUnitCfgIO

namespace ReaderMemory

variable {param : ReaderParam}

def vectors (history : List (Event param)) : List (Fin param.numChannel → Reader.Address param) :=
  history.filterMap Event.pushed

/-- A Reader at rest. The counters of its generator are left open: a start clears them. -/
structure Idle (s : State param) : Prop extends Quiet s where
  phase : s.reader.addressgen.currentState = .sIDLE
  replay : counter s = 0

/-- Everything fetched has been delivered and the generator is done. -/
structure Complete (s : State param) : Prop where
  phase : s.reader.addressgen.currentState = .sIDLE
  empty : ∀ c, addrQueue s c = [] ∧ s.outstanding c = [] ∧ lane s c = []

/-- One cycle of one task: started by its first cycle, configured throughout, answered
from the memory. -/
structure TaskCycle (cfg : AddressGenUnitCfgIO param.aguParam) (mask : Fin param.numChannel → Bool)
    (memory : Reader.Address param → Reader.Word param) (history : List (Event param))
    (s : State param) (i : Input param) : Prop where
  start : i.start = true ↔ history = []
  cfg : i.aguCfg = cfg
  mask : enable i = mask
  served : ∀ c addr data, answered s i c = some (addr,data) → data = memory addr

/-- The word that a vector of addresses stands for. -/
def content (mask : Fin param.numChannel → Bool) (memory : Reader.Address param → Reader.Word param)
    (vector : Fin param.numChannel → Reader.Address param) : Reader.WideWord param :=
  fun c => if mask c then memory (vector c) else 0

/-- The words of the full loop nest, one per iteration. -/
def loopWords (cfg : AddressGenUnitCfgIO param.aguParam) (mask : Fin param.numChannel → Bool)
    (memory : Reader.Address param → Reader.Word param) : List (Reader.WideWord param) :=
  (List.range cfg.total).map fun k => content mask memory (cfg.vector k)

/-- What a task leaves behind in history and state. -/
structure Reusing (cfg : AddressGenUnitCfgIO param.aguParam) (mask : Fin param.numChannel → Bool)
    (memory : Reader.Address param → Reader.Word param) (history : List (Event param))
    (s : State param) : Prop where
  replayed : Replayed history s
  masked : Masked mask s
  fresh : history = [] → Idle s
  swept : history ≠ [] → ∃ past, AddressGenUnit.Swept cfg.readOnce past s.reader.addressgen ∧
    AddressGenUnit.enqueued past = vectors history
  configured : ∀ e ∈ history, e.aguCfg = cfg ∧ e.enable = mask
  stored : ∀ c, ∀ entry ∈ filledOn c history, entry.2 = if mask c then memory entry.1 else 0

theorem idle_reusing (cfg : AddressGenUnitCfgIO param.aguParam) (mask : Fin param.numChannel → Bool)
    (memory : Reader.Address param → Reader.Word param) {s : State param} (idle : Idle s) :
    Reusing cfg mask memory [] s where
  replayed := by
    have none : front s = none := by
      cases present : front s with
      | none => rfl
      | some word =>
        have head := ComplexQueueConcat.front_eq_some.mp present ⟨0,channels_pos param⟩
        have stored : (s.reader.dataBuffer ⟨0,channels_pos param⟩).elems = [] := idle.stored _
        simp [stored] at head
    refine ⟨quiet_aligned idle.toQuiet,⟨[],?_⟩,idle.replay⟩
    exact empty _
  masked c waiting := absurd (idle.flying c) waiting
  fresh _ := idle
  swept no := absurd rfl no
  configured := by simp
  stored := by simp [filledOn]

/-- The generator inside the Reader sweeps the overridden loop nest. -/
theorem swept_next {cfg : AddressGenUnitCfgIO param.aguParam} {mask : Fin param.numChannel → Bool}
    {memory : Reader.Address param → Reader.Word param} {history : List (Event param)}
    {s : State param} {i : Input param} (inv : Reusing cfg mask memory history s)
    (cycle : TaskCycle cfg mask memory history s i) :
    ∃ past, AddressGenUnit.Swept cfg.readOnce past (next s i).reader.addressgen ∧
      AddressGenUnit.enqueued past = vectors (history ++ [out s i]) := by
  have held : (Reader.addressgenInput s.reader (readerInput s i)).cfg = cfg.readOnce := by
    rw [← cycle.cfg]
    rfl
  have pushes : vectors (history ++ [out s i]) = vectors history ++ (out s i).pushed.toList := by
    cases pushed : (out s i).pushed <;> simp [vectors,pushed]
  rw [pushes]
  by_cases first : history = []
  · have idle := (inv.fresh first).phase
    refine ⟨[],AddressGenUnit.started_swept cfg.readOnce s.reader.addressgen _ held
      (cycle.start.mpr first) (Or.inl idle),?_⟩
    have quiet : (out s i).pushed = none := AddressGenUnit.pushed_idle idle _
    rw [first,quiet]
    rfl
  · obtain ⟨past,swept,same⟩ := inv.swept first
    have noStart : i.start = false := by rw [← Bool.not_eq_true,cycle.start]; exact first
    refine ⟨_,AddressGenUnit.running_swept swept ⟨held,noStart⟩,?_⟩
    rw [AddressGenUnit.enqueued_next,same]
    rfl

theorem reusing_next {cfg : AddressGenUnitCfgIO param.aguParam} {mask : Fin param.numChannel → Bool}
    {memory : Reader.Address param → Reader.Word param} {history : List (Event param)}
    {s : State param} {i : Input param} (inv : Reusing cfg mask memory history s)
    (cycle : TaskCycle cfg mask memory history s i) :
    Reusing cfg mask memory (history ++ [out s i]) (next s i) where
  replayed := by
    refine replayed_next inv.replayed (masked_held inv.masked cycle.mask) ⟨fun start => ?_,?_⟩ ?_
    · have idle := inv.fresh (cycle.start.mp start)
      have drained : ComplexQueueConcat.allEmpty s.reader.addressgen.outputBuffer = true := by
        simp only [ComplexQueueConcat.allEmpty,decide_eq_true_eq]
        intro c
        have none : (s.reader.addressgen.outputBuffer c).elems = [] := idle.queued c
        simp [Queue.deqValid,none]
      simp [Reader.busy,idle.phase,drained]
    · intro _ e last
      obtain ⟨sameCfg,sameMask⟩ := inv.configured e (List.mem_of_getLast? last)
      exact ⟨cycle.cfg.trans sameCfg.symm,cycle.mask.trans sameMask.symm⟩
    · intro start
      obtain rfl := cycle.start.mp start
      exact safeStart_of_drained rfl s i start
  masked := masked_next inv.masked cycle.mask
  fresh no := by simp at no
  swept _ := swept_next inv cycle
  configured e member := by
    rcases List.mem_append.mp member with old | new
    · exact inv.configured e old
    · rw [List.mem_singleton.mp new]
      exact ⟨cycle.cfg,cycle.mask⟩
  stored c entry member := by
    rw [filledOn_next] at member
    rcases List.mem_append.mp member with old | new
    · exact inv.stored c entry old
    · have same : enable i c = mask c := by rw [cycle.mask]
      rw [Option.mem_toList,filled,same] at new
      cases on : mask c with
      | true =>
        rw [on,if_pos rfl] at new
        rw [if_pos rfl]
        exact cycle.served c entry.1 entry.2 new
      | false =>
        simp only [on,Bool.false_eq_true,↓reduceIte,Option.map_eq_some_iff] at new ⊢
        obtain ⟨_,_,rfl⟩ := new
        rfl

variable {cfg : AddressGenUnitCfgIO param.aguParam} {mask : Fin param.numChannel → Bool}
  {memory : Reader.Address param → Reader.Word param} {history : List (Event param)} {s : State param}

theorem tags_configured (inv : Reusing cfg mask memory history s) :
    tags replays history = List.replicate (vectors history).length (replays cfg) := by
  rw [List.eq_replicate_iff]
  refine ⟨?_,fun tag member => ?_⟩
  · rw [tags_length replays history ⟨0,channels_pos param⟩]
    simp [pushedOn,vectors]
  · obtain ⟨e,inHistory,some_tag⟩ := List.mem_filterMap.mp member
    obtain ⟨_,_,rfl⟩ := Option.map_eq_some_iff.mp some_tag
    rw [(inv.configured e inHistory).1]

/-- Every combined word is the content of the vector pushed at its place. -/
theorem words_within (inv : Reusing cfg mask memory history s) :
    poppedWords history ++ (front s).toList <+: (vectors history).map (content mask memory) := by
  refine List.prefix_iff_getElem?.mpr fun k inside => ?_
  have kth := List.getElem?_eq_getElem inside
  have fetched := aligned_fetched inv.replayed.aligned kth
  obtain ⟨addr,atIndex,_⟩ := fetched ⟨0,channels_pos param⟩
  rw [pushedOn,List.getElem?_map] at atIndex
  obtain ⟨vector,present,_⟩ := Option.map_eq_some_iff.mp atIndex
  have place : (vectors history)[k]? = some vector := present
  rw [List.getElem?_map,place,Option.map_some]
  congr 1
  funext c
  obtain ⟨addr,addressed,filled⟩ := fetched c
  rw [pushedOn,List.getElem?_map,present,Option.map_some] at addressed
  have value := inv.stored c _ (List.mem_of_getElem? filled)
  simp only at value
  rw [value,content,Option.some.inj addressed]

theorem vectors_within (inv : Reusing cfg mask memory history s) :
    (vectors history).map (content mask memory) <+: loopWords cfg.readOnce mask memory := by
  by_cases first : history = []
  · simp [first,vectors]
  · obtain ⟨past,swept,same⟩ := inv.swept first
    have bound := swept.count.trans_le (Nat.min_le_left _ _)
    rw [← same,AddressGenUnit.swept_enqueued swept,List.map_map,loopWords]
    refine List.IsPrefix.map _ ?_
    rw [List.prefix_iff_eq_take,List.length_range,List.take_range,Nat.min_eq_left bound]

/-- What a task delivers, at any time: its words in order, each replayed by the repeater. -/
theorem delivered_within (inv : Reusing cfg mask memory history s) :
    deliveredWords history <+:
      (loopWords cfg.readOnce mask memory).flatMap (List.replicate (replays cfg)) := by
  obtain ⟨part,ledger⟩ := inv.replayed.ledger
  rw [tags_configured inv] at ledger
  obtain ⟨behind,split⟩ := (words_within inv).trans (vectors_within inv)
  rw [← split,List.flatMap_append]
  exact ledger.delivered_within.trans (List.prefix_append _ _)

theorem delivered_complete (inv : Reusing cfg mask memory history s) (started : history ≠ [])
    (complete : Complete s) : deliveredWords history =
      (loopWords cfg.readOnce mask memory).flatMap (List.replicate (replays cfg)) := by
  obtain ⟨part,ledger⟩ := inv.replayed.ledger
  obtain ⟨past,swept,same⟩ := inv.swept started
  have pushed := AddressGenUnit.swept_enqueued swept
  rw [AddressGenUnit.swept_idle swept complete.phase,same] at pushed
  obtain ⟨queued,flying,stored⟩ := complete.empty ⟨0,channels_pos param⟩
  have addresses := congrArg List.length (inv.replayed.aligned.addresses ⟨0,channels_pos param⟩)
  have words := congrArg List.length (inv.replayed.aligned.words ⟨0,channels_pos param⟩)
  rw [queued,flying] at addresses
  rw [stored] at words
  have count : (pushedOn ⟨0,channels_pos param⟩ history).length = (vectors history).length := by
    simp [pushedOn,vectors]
  simp only [List.length_append,List.length_map,List.length_nil,Nat.add_zero] at addresses words
  have popped : (poppedWords history).length = (vectors history).length := by omega
  rw [tags_configured inv] at ledger
  have none : part = [] := ledger.drained (by simp [popped])
  have front_words : poppedWords history = (vectors history).map (content mask memory) := by
    refine List.IsPrefix.eq_of_length ((List.prefix_append _ _).trans (words_within inv)) ?_
    rw [popped,List.length_map]
  rw [ledger.log,none,List.append_nil,replayed_replicate popped.le,front_words,pushed,List.map_map]
  rfl

/-- The reuse path skips the check for empty nests: an innermost bound of zero is
overridden like any other, and the generator no longer sees it. -/
def Overrun (cfg : AddressGenUnitCfgIO param.aguParam) : Prop :=
  cfg.stride0 = 0 ∧ cfg.bound0 = 0 ∧ ∀ b ∈ cfg.temporalBounds.toList.tail, b ≠ 0

theorem outer_pos_iff (cfg : AddressGenUnitCfgIO param.aguParam) :
    0 < cfg.outerBounds.prod ↔ ∀ b ∈ cfg.temporalBounds.toList.tail, b ≠ 0 := by
  rw [List.prod_pos_iff_forall_pos_nat, AddressGenUnitCfgIO.outerBounds, AddressGenUnitCfgIO.bounds,
    ← List.map_tail]
  simp only [List.mem_map,forall_exists_index,and_imp,forall_apply_eq_imp_iff₂]
  refine forall₂_congr fun b _ => ?_
  rw [Nat.pos_iff_ne_zero,not_iff_not]
  exact ⟨fun zero => BitVec.eq_of_toNat_eq (by simpa using zero),fun zero => by simp [zero]⟩

/-- Replaying the words of the overridden nest gives the words of the full nest. -/
theorem replay_loopWords (mask : Fin param.numChannel → Bool)
    (memory : Reader.Address param → Reader.Word param) (sound : ¬ Overrun cfg) :
    (loopWords cfg.readOnce mask memory).flatMap (List.replicate (replays cfg)) =
      loopWords cfg mask memory := by
  by_cases stride : cfg.stride0 = 0
  · obtain ⟨outer,full⟩ := cfg.readOnce_total stride
    by_cases bound : cfg.bound0 = 0
    · have empty : cfg.outerBounds.prod = 0 := by
        by_contra positive
        exact sound ⟨stride,bound,(outer_pos_iff cfg).mp (Nat.pos_of_ne_zero positive)⟩
      simp [loopWords,outer,full,empty]
    · have nonzero : repeatOf cfg ≠ 0 := by
        rw [repeatOf,if_pos stride]
        exact fun zero => bound (BitVec.eq_of_toNat_eq (by simpa using zero))
      have times : repeatOf cfg = cfg.bound0.toNat := by rw [repeatOf,if_pos stride]
      have remaps : cfg.readOnce.addressRemapIndex = cfg.addressRemapIndex := by
        unfold AddressGenUnitCfgIO.readOnce
        split <;> rfl
      rw [loopWords,outer,replays_eq nonzero,flatMap_replicate_range _ (Nat.pos_of_ne_zero nonzero),
        times,← full,loopWords]
      refine List.map_congr_left fun k _ => ?_
      have same : cfg.readOnce.vector (k / cfg.bound0.toNat) = cfg.vector k := by
        funext c
        rw [ AddressGenUnitCfgIO.vector, AddressGenUnitCfgIO.vector,cfg.readOnce_address stride k,remaps]
      exact congrArg (content mask memory) same
  · have once : repeatOf cfg = 1 := by rw [repeatOf,if_neg stride]
    rw [cfg.readOnce_of_stride stride,replays_eq (by rw [once]; exact Nat.one_ne_zero),once,
      loopWords,flatMap_replicate_range _ Nat.one_pos,Nat.one_mul]
    simp only [Nat.div_one]

theorem replay_overrun (mask : Fin param.numChannel → Bool)
    (memory : Reader.Address param → Reader.Word param) (overrun : Overrun cfg) :
    loopWords cfg mask memory = [] ∧
      (loopWords cfg.readOnce mask memory).flatMap (List.replicate (replays cfg)) ≠ [] := by
  obtain ⟨stride,bound,outer⟩ := overrun
  obtain ⟨inner,full⟩ := cfg.readOnce_total stride
  have positive := (outer_pos_iff cfg).mpr outer
  constructor
  · simp [loopWords,full,bound]
  · have times := replays_pos cfg
    rw [← List.length_pos_iff,loopWords,flatMap_replicate_range _ times,List.length_map,
      List.length_range,inner]
    exact Nat.mul_pos times positive

/-- A cycle in which memory and consumer hold nothing back. -/
def eager (i : Input param) : Bool :=
  i.dataReady && decide (∀ c, i.grant c = true ∧ (i.respond c).isSome = true)

/-- The steps a task has taken: its start, vectors pushed, requests submitted and filled,
words delivered. -/
def potential (history : List (Event param)) (s : State param) : Nat :=
  min history.length 1 + (vectors history).length +
    Finset.univ.sum (fun c => 2 * (filledOn c history).length + (s.outstanding c).length) +
    (deliveredWords history).length

theorem submitted_empty {s : State param} {c : Fin param.numChannel} (none : addrQueue s c = [])
    (i : Input param) : submitted s i c = Option.none := by
  have elems : (s.reader.addressgen.outputBuffer c).elems = [] := none
  simp [submitted,Reader.addrBits,Queue.deqBits,elems]

theorem potential_next {i : Input param} (held : MaskHeld s i) (history : List (Event param)) :
    potential (history ++ [out s i]) (next s i) =
      potential history s + (1 - min history.length 1) + (out s i).pushed.isSome.toNat +
      Finset.univ.sum (fun c => (filled s i c).isSome.toNat + (submitted s i c).isSome.toNat) +
      (consumed s i).toNat := by
  have flights : ∀ c, 2 * (filledOn c (history ++ [out s i])).length +
      ((next s i).outstanding c).length =
      (2 * (filledOn c history).length + (s.outstanding c).length) +
        ((filled s i c).isSome.toNat + (submitted s i c).isSome.toNat) := by
    intro c
    have flow := congrArg List.length (flight_next held c)
    rw [List.length_append,List.length_append,length_toList,length_toList,Option.isSome_map] at flow
    rw [filledOn_next,List.length_append,length_toList]
    omega
  have pushes : (vectors (history ++ [out s i])).length =
      (vectors history).length + (out s i).pushed.isSome.toNat := by
    cases pushed : (out s i).pushed <;> simp [vectors,pushed]
  have deliveries : (deliveredWords (history ++ [out s i])).length =
      (deliveredWords history).length + (consumed s i).toNat := by
    rw [deliveredWords_next,List.length_append,length_toList]
    cases fire : consumed s i with
    | false => rfl
    | true =>
      rw [consumed_eq,Bool.and_eq_true] at fire
      simp [fire.1]
  simp only [potential,flights,Finset.sum_add_distrib,pushes,deliveries,List.length_append,
    List.length_singleton]
  omega

section Stuck

variable {i : Input param}

/-- Where every request is answered and no answer is stored, no request is outstanding. -/
theorem nothing_outstanding (held : MaskHeld s i) (responds : ∀ c, (i.respond c).isSome = true)
    (noFill : ∀ c, filled s i c = none) (c : Fin param.numChannel) : s.outstanding c = [] := by
  by_contra waiting
  obtain ⟨addr,rest,queue⟩ := List.exists_cons_of_ne_nil waiting
  obtain ⟨data,response⟩ := Option.isSome_iff_exists.mp (responds c)
  have answer : answered s i c = some (addr,data) := by simp [answered,queue,response]
  have nothing := noFill c
  rcases held c with on | none | ⟨deaf,_⟩
  · simp [filled,on,answer] at nothing
  · exact waiting none
  · simp [answer] at deaf

/-- Where a ready consumer takes nothing, a lane is empty. -/
theorem hungry_lane (ready : i.dataReady = true) (noWord : consumed s i = false) :
    ∃ c, lane s c = [] := by
  have none : front s = none := by
    rw [consumed_eq,ready,Bool.and_true] at noWord
    exact Option.not_isSome_iff_eq_none.mp (by simp [noWord])
  by_contra full
  push Not at full
  have valid : (front s).isSome = true := by
    rw [front,ComplexQueueConcat.front_isSome,ComplexQueueConcat.allValid_iff]
    exact full
  simp [none] at valid

/-- An empty lane without requests in flight has its whole credit, so where its channel submits
nothing the address queue is empty. -/
theorem starved_queue {c : Fin param.numChannel} (credit : Sync.Credit.Sound param.bufferDepth (credits s c))
    (grants : i.grant c = true) (answeredAll : s.outstanding c = []) (hungry : lane s c = [])
    (noSubmit : submitted s i c = none) : addrQueue s c = [] := by
  by_contra queued
  obtain ⟨addr,rest,queue⟩ := List.exists_cons_of_ne_nil queued
  have free : utilization s c = 0 := by
    have balance : utilization s c = (s.outstanding c).length + (lane s c).length := credit.balance
    rw [balance,answeredAll,hungry]
    rfl
  have ready : Reader.rspReady s.reader (readerInput s i) c = true := by
    have depth := param.dataDepthPositive
    have apart : ¬ utilization s c = param.bufferDepth := by
      rw [free]
      exact depth.ne
    have below : ((s.reader.fifoUtilization c).toNat == param.bufferDepth) = false := by
      rw [beq_eq_false_iff_ne]
      exact apart
    simp [Reader.rspReady,DataResponser.rspReady,UpDownCounter.lastVal,lastIndex_ceil,below]
  have bits : (Reader.addrBits s.reader c).isSome = true := by
    have elems : (s.reader.addressgen.outputBuffer c).elems = addr :: rest := queue
    simp [Reader.addrBits,Queue.deqBits,elems]
  have submit : Reader.reqSubmit s.reader (readerInput s i) c = true := by
    have same : (readerInput s i).readerwriterCfg.enable c = enable i c := rfl
    have grant : (readerInput s i).tcdmReqReady c = true := grants
    rw [reqSubmit_eq]
    cases on : enable i c <;>
      simp [Reader.tcdmReqFire,Reader.tcdmReqValid,DataRequestor.tcdmReqValid,same,on,ready,bits,
        grant]
  rw [← Option.not_isSome_iff_eq_none,submitted_isSome] at noSubmit
  exact noSubmit submit

/-- All channels have had equally many addresses and words. -/
theorem all_empty (aligned : Aligned history s) (answeredAll : ∀ c, s.outstanding c = [])
    {c₀ : Fin param.numChannel} (starved : addrQueue s c₀ = []) (hungry : lane s c₀ = [])
    (c : Fin param.numChannel) : addrQueue s c = [] ∧ lane s c = [] := by
  have here := congrArg List.length (aligned.addresses c₀)
  have hereWords := congrArg List.length (aligned.words c₀)
  have there := congrArg List.length (aligned.addresses c)
  have thereWords := congrArg List.length (aligned.words c)
  have same : (pushedOn c history).length = (pushedOn c₀ history).length := by simp [pushedOn]
  rw [starved,answeredAll c₀] at here
  rw [hungry] at hereWords
  rw [answeredAll c] at there
  simp only [List.length_append,List.length_map,List.length_nil,Nat.add_zero]
    at here hereWords there thereWords
  exact ⟨List.length_eq_zero_iff.mp (by omega),List.length_eq_zero_iff.mp (by omega)⟩

/-- Where nothing moves in an eager cycle, everything is done. -/
theorem complete_of_stuck (aligned : Aligned history s) (held : MaskHeld s i)
    (willing : eager i = true) (noPush : (out s i).pushed = none)
    (noMove : ∀ c, filled s i c = none ∧ submitted s i c = none) (noWord : consumed s i = false) :
    Complete s := by
  simp only [eager,Bool.and_eq_true,decide_eq_true_eq] at willing
  have answeredAll := nothing_outstanding held (fun c => (willing.2 c).2) fun c => (noMove c).1
  obtain ⟨c₀,hungry⟩ := hungry_lane willing.1 noWord
  have starved := starved_queue (aligned.credit c₀) (willing.2 c₀).1 (answeredAll c₀) hungry
    (noMove c₀).2
  have even := all_empty aligned answeredAll starved hungry
  refine ⟨?_,fun c => ⟨(even c).1,answeredAll c,(even c).2⟩⟩
  by_contra busy
  have running : s.reader.addressgen.currentState = .sBUSY := by
    cases phase : s.reader.addressgen.currentState with
    | sIDLE => exact absurd phase busy
    | sBUSY => rfl
  have room : ComplexQueueConcat.allReady true s.reader.addressgen.outputBuffer
      (Reader.addrReady s.reader (readerInput s i)) = true := by
    simp only [ComplexQueueConcat.allReady,decide_eq_true_eq,Queue.enqReady,Bool.or_eq_true]
    intro c
    have elems : (s.reader.addressgen.outputBuffer c).elems = [] := (even c).1
    have depth := (s.reader.addressgen.outputBuffer c).positive
    exact Or.inl (by simpa [elems] using depth)
  have push : (out s i).pushed = some _ := AddressGenUnit.pushed_busy running room
  simp [push] at noPush

end Stuck

/-- Without a further start a finished task stays finished. -/
theorem complete_next {i : Input param} (aligned : Aligned history s) (held : MaskHeld s i)
    (noStart : i.start = false) (complete : Complete s) : Complete (next s i) := by
  have noPush : (out s i).pushed = none := AddressGenUnit.pushed_idle complete.phase _
  refine ⟨?_,fun c => ?_⟩
  · have quiet : AddressGenUnit.fire s.reader.addressgen
        (Reader.addressgenInput s.reader (readerInput s i)) = false := by
      simp [AddressGenUnit.fire,complete.phase]
    have still := (AddressGenUnit.next_hold
      (i := Reader.addressgenInput s.reader (readerInput s i)) noStart quiet).2
    exact still.trans complete.phase
  · obtain ⟨queued,flying,stored⟩ := complete.empty c
    have noSubmit := submitted_empty queued i
    have queue := addrQueue_next s i c
    have flight := flight_next held c
    have flow := lane_next (aligned.credit c) held
    have noFill : filled s i c = none := by
      cases on : enable i c <;> simp [filled,on,noSubmit,answered,flying]
    rw [queued,noSubmit,noPush] at queue
    rw [flying,noSubmit,noFill] at flight
    rw [stored,noFill] at flow
    exact ⟨by simpa using queue,by simpa using flight,(List.append_eq_nil_iff.mp flow).2⟩

/-- The steps a task can take altogether. -/
def taskSteps (cfg : AddressGenUnitCfgIO param.aguParam) : Nat :=
  1 + cfg.readOnce.total * (1 + 2 * param.numChannel + replays cfg)

theorem potential_le (inv : Reusing cfg mask memory history s) :
    potential history s ≤ taskSteps cfg := by
  have pushes : (vectors history).length ≤ cfg.readOnce.total := by
    have := (vectors_within inv).length_le
    simpa [loopWords] using this
  have flights : ∀ c, 2 * (filledOn c history).length + (s.outstanding c).length ≤
      2 * cfg.readOnce.total := by
    intro c
    have addresses := congrArg List.length (inv.replayed.aligned.addresses c)
    have count : (pushedOn c history).length = (vectors history).length := by simp [pushedOn,vectors]
    simp only [List.length_append,List.length_map] at addresses
    omega
  have sum := Finset.sum_le_card_nsmul Finset.univ _ _ fun c _ => flights c
  rw [Finset.card_univ,Fintype.card_fin,smul_eq_mul] at sum
  have deliveries : (deliveredWords history).length ≤ replays cfg * cfg.readOnce.total := by
    have := (delivered_within inv).length_le
    rw [loopWords,flatMap_replicate_range _ (replays_pos cfg)] at this
    simpa using this
  have parts : taskSteps cfg = 1 + cfg.readOnce.total + param.numChannel * (2 * cfg.readOnce.total) +
      replays cfg * cfg.readOnce.total := by unfold taskSteps; ring
  rw [parts]
  unfold potential
  omega

theorem run_reusing {inputs : List (Input param)} (idle : Idle s)
    (each : (system param).Each (TaskCycle cfg mask memory) s inputs) :
    Reusing cfg mask memory ((system param).outs s inputs) ((system param).exec s inputs) :=
  Sync.Machine.run_rule_each (Reusing cfg mask memory) each (idle_reusing cfg mask memory idle)
    fun _ _ _ inv cycle => reusing_next inv cycle

/-- An eager cycle of an unfinished task is a step of it. -/
theorem task_advances {i : Input param} (inv : Reusing cfg mask memory history s)
    (cycle : TaskCycle cfg mask memory history s i) (unfinished : ¬ (history ≠ [] ∧ Complete s)) :
    potential history s + (eager i).toNat ≤ potential (history ++ [out s i]) (next s i) := by
  have held := masked_held inv.masked cycle.mask
  rw [potential_next held history]
  cases willing : eager i with
  | false => simp only [Bool.toNat_false]; omega
  | true =>
    by_contra still
    simp only [Bool.toNat_true] at still
    have started : history ≠ [] := by
      rintro rfl
      simp only [List.length_nil,Nat.zero_min] at still
      omega
    have noPush : (out s i).pushed = none := by
      rw [← Option.not_isSome_iff_eq_none]
      intro push
      simp only [push,Bool.toNat_true] at still
      omega
    have noWord : consumed s i = false := by
      rw [← Bool.not_eq_true]
      intro fire
      simp only [fire,Bool.toNat_true] at still
      omega
    have noSum : Finset.univ.sum (fun c => (filled s i c).isSome.toNat +
        (submitted s i c).isSome.toNat) = 0 := by omega
    have noMove : ∀ c, filled s i c = none ∧ submitted s i c = none := by
      intro c
      have zero := Finset.sum_eq_zero_iff.mp noSum c (Finset.mem_univ c)
      constructor <;> rw [← Option.not_isSome_iff_eq_none] <;> intro move <;>
        simp [move] at zero
    exact unfinished ⟨started,
      complete_of_stuck inv.replayed.aligned held willing noPush noMove noWord⟩

/-- A started task completes within as many eager cycles as it has steps to take. -/
theorem task_completes {inputs : List (Input param)} (idle : Idle s)
    (each : (system param).Each (TaskCycle cfg mask memory) s inputs)
    (enough : taskSteps cfg < inputs.countP eager) :
    Complete ((system param).exec s inputs) := by
  have inv : (system param).Each (fun history s _ => Reusing cfg mask memory history s) s inputs :=
    Sync.Machine.each_of_run_rule (Reusing cfg mask memory) each (idle_reusing cfg mask memory idle)
      fun _ _ _ inv cycle => reusing_next inv cycle
  have stays : ∀ (history : List (Event param)) (s : State param) (i : Input param),
      Reusing cfg mask memory history s ∧ TaskCycle cfg mask memory history s i →
      history ≠ [] ∧ Complete s → history ++ [out s i] ≠ [] ∧ Complete (next s i) := by
    rintro history s i ⟨inv,cycle⟩ ⟨started,complete⟩
    have noStart : i.start = false := by rw [← Bool.not_eq_true,cycle.start]; exact started
    exact ⟨by simp,
      complete_next inv.replayed.aligned (masked_held inv.masked cycle.mask) noStart complete⟩
  rcases Sync.Machine.run_progress potential (fun history s => history ≠ [] ∧ Complete s) eager
    (inv.and each) stays (fun _ _ _ both => task_advances both.1 both.2) with done | short
  · exact done.2
  · have bound := potential_le (run_reusing idle each)
    omega

/-- The reuse path shows nowhere: every task delivers the words of its full loop nest, in
order and completely. -/
def Transparent (cfg : AddressGenUnitCfgIO param.aguParam) : Prop :=
  ∀ (mask : Fin param.numChannel → Bool) (memory : Reader.Address param → Reader.Word param)
    (s : State param) (inputs : List (Input param)), Idle s → inputs ≠ [] →
    (system param).Each (TaskCycle cfg mask memory) s inputs →
    deliveredWords ((system param).outs s inputs) <+: loopWords cfg mask memory ∧
    (Complete ((system param).exec s inputs) →
      deliveredWords ((system param).outs s inputs) = loopWords cfg mask memory)

theorem initial_idle : Idle (initial param) := ⟨initial_quiet,rfl,rfl⟩

/-- A memory of zeros behind ports that are always ready. -/
def zeroInput (cfg : AddressGenUnitCfgIO param.aguParam) (start : Bool) : Input param where
  aguCfg := cfg
  readerwriterCfg := ⟨fun _ => true,0⟩
  start := start
  dataReady := true
  grant := fun _ => true
  respond := fun _ => some 0

theorem zero_each (cfg : AddressGenUnitCfgIO param.aguParam) (n : Nat) :
    (system param).Each (TaskCycle cfg (enable (zeroInput cfg true)) fun _ => 0) (initial param)
      (zeroInput cfg true :: List.replicate n (zeroInput cfg false)) := by
  have zero : ∀ (s : State param) (start : Bool) (c : Fin param.numChannel)
      (addr : Reader.Address param) (data : Reader.Word param),
      answered s (zeroInput cfg start) c = some (addr,data) → data = 0 := by
    intro s start c addr data answer
    simp only [answered,zeroInput,Option.map_some,Option.bind_eq_some_iff,Option.some.injEq,
      Prod.mk.injEq] at answer
    obtain ⟨_,_,_,rfl⟩ := answer
    rfl
  refine .cons ⟨by simp [zeroInput],rfl,rfl,zero _ _⟩ ?_
  rintro before i after split
  have member : i ∈ List.replicate n (zeroInput cfg false) := by rw [split]; simp
  obtain rfl := (List.mem_replicate.mp member).2
  exact ⟨by simp [zeroInput],rfl,rfl,zero _ _⟩

/-- Reuse is transparent exactly where it does not hide an innermost bound of zero from
the generator; and every started task completes under enough eager cycles. -/
theorem reuse_transparent (cfg : AddressGenUnitCfgIO param.aguParam) :
    (Transparent cfg ↔
      ¬ (cfg.stride0 = 0 ∧ cfg.bound0 = 0 ∧ ∀ b ∈ cfg.temporalBounds.toList.tail, b ≠ 0)) ∧
    ∀ (mask : Fin param.numChannel → Bool) (memory : Reader.Address param → Reader.Word param)
      (s : State param) (inputs : List (Input param)), Idle s →
      (system param).Each (TaskCycle cfg mask memory) s inputs →
      taskSteps cfg < inputs.countP eager → Complete ((system param).exec s inputs) := by
  refine ⟨⟨fun transparent overrun => ?_,fun sound => ?_⟩,
    fun mask memory s inputs idle each enough => task_completes idle each enough⟩
  · let inputs := zeroInput cfg true :: List.replicate (taskSteps cfg) (zeroInput cfg false)
    have each := zero_each cfg (taskSteps cfg)
    have started : (system param).outs (initial param) inputs ≠ [] := by simp [inputs]
    have willing : ∀ start, eager (zeroInput cfg start) = true := by
      intro start
      simp [eager,zeroInput]
    have enough : taskSteps cfg < inputs.countP eager := by
      simp [inputs,List.countP_replicate,willing]
    have complete := task_completes initial_idle each enough
    have delivered := delivered_complete (run_reusing initial_idle each) started complete
    obtain ⟨none,some_word⟩ := replay_overrun (enable (zeroInput cfg true)) (fun _ => 0) overrun
    have promised := (transparent _ _ _ inputs initial_idle (by simp [inputs]) each).2 complete
    exact some_word (delivered.symm.trans (promised.trans none))
  · intro mask memory s inputs idle nonempty each
    have inv := run_reusing idle each
    have same := replay_loopWords mask memory sound
    refine ⟨same ▸ delivered_within inv,fun complete => ?_⟩
    rw [← same]
    refine delivered_complete inv ?_ complete
    rw [← List.length_pos_iff,Sync.Machine.outs_length]
    exact List.length_pos_iff.mpr nonempty

/-- One loop of bound zero and stride zero: the empty nest delivers words. -/
theorem reuse_overrun : ¬ Transparent (pairCfg 0 0) := by
  intro transparent
  have promised := (transparent _ _ _ _ initial_idle (List.cons_ne_nil _ _)
    (zero_each (pairCfg 0 0) 5)).1
  have none : loopWords (pairCfg 0 0) (enable (zeroInput (pairCfg 0 0) true)) (fun _ => 0) = [] := rfl
  have delivered : (deliveredWords ((system pairParam).outs (initial pairParam)
      (zeroInput (pairCfg 0 0) true :: List.replicate 5 (zeroInput (pairCfg 0 0) false)))).length = 2 :=
    rfl
  rw [none,List.prefix_nil] at promised
  rw [promised] at delivered
  simp at delivered

end ReaderMemory
end Snax
