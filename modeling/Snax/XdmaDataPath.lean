import Mathlib.Tactic.MkIffOfInductiveProp
import Snax.ConfigRouter

/-! `xdma/xdmaFrontend/XDMADataPath.scala` between the remote ports, the reader and the writer:
the loopback muxes and demuxes, and the machine that holds a chained write. What lies behind
the extensions of either side is seen through its handshakes and the busy signal of the writer. -/
namespace Snax.XDMADataPath

open Sync

inductive ChainState
  | stateIdle
  | stateChainedWrite
  | stateChainedWriteWait
  deriving DecidableEq

/-- The outputs of `remoteLoopbackSplitter`. -/
inductive Port
  | writerLocaltoRemoteLoopback
  | remoteLoopback
  deriving DecidableEq

instance : Fintype Port where
  elems := {.writerLocaltoRemoteLoopback,.remoteLoopback}
  complete := by
    intro c
    cases c <;> decide

structure State where
  currentState : ChainState
  dataTransmitted : Port → Bool

/-- The data inputs are valid when they are `some`. -/
structure Input (α : Type) where
  readerLocalLoopback : Bool
  /-- Of `io.writerCfg`. -/
  localLoopback : Bool
  remoteLoopback : Bool
  writerStart : Bool
  /-- `writer.io.busy`. -/
  writerBusy : Bool
  fromRemote : Option α
  readerDataAfterExtension : Option α
  /-- `writerDataBeforeExtension.ready`. -/
  writerReady : Bool
  toRemoteReady : Bool

/-- The handshakes of a cycle, those at the two ends of the muxes told apart by their source. -/
structure Output (α : Type) where
  writerStart : Bool
  busy : Bool
  accepted : Option α
  toWriter : Option α
  toRemote : Option α
  readerToWriter : Option α
  readerToRemote : Option α

variable {α : Type}

def isChainedWrite (s : State) (i : Input α) : Bool :=
  match s.currentState with
  | .stateIdle => i.remoteLoopback && i.writerBusy
  | .stateChainedWrite => true
  | .stateChainedWriteWait => true

def nextState (s : State) (i : Input α) : ChainState :=
  match s.currentState with
  | .stateIdle => if i.remoteLoopback && i.writerBusy then .stateChainedWrite else .stateIdle
  | .stateChainedWrite => if !i.writerBusy then .stateChainedWriteWait else .stateChainedWrite
  | .stateChainedWriteWait => if !i.fromRemote.isSome then .stateIdle else .stateChainedWriteWait

/-- `io.writerBusy`. -/
def busy (s : State) (i : Input α) : Bool := i.writerBusy || isChainedWrite s i

/-! ### The splitter -/

def inValid (s : State) (i : Input α) : Bool := i.fromRemote.isSome && busy s i

def sel (s : State) (i : Input α) : Port → Bool
  | .writerLocaltoRemoteLoopback => true
  | .remoteLoopback => isChainedWrite s i

/-- The muxes behind the outputs pass on the ready of the input that they select. -/
def outReady (s : State) (i : Input α) : Port → Bool
  | .writerLocaltoRemoteLoopback => !i.localLoopback && i.writerReady
  | .remoteLoopback => isChainedWrite s i && i.toRemoteReady

def passed (s : State) (i : Input α) (c : Port) : Option α :=
  if SplitterDecoupled.outValid (inValid s i) (sel s i) s.dataTransmitted c && outReady s i c then
    i.fromRemote
  else none

/-- `io.remoteXDMAData.fromRemote.fire`. -/
def fromRemoteFire (s : State) (i : Input α) : Bool :=
  inValid s i && SplitterDecoupled.inReady (sel s i) s.dataTransmitted (outReady s i)

def next (s : State) (i : Input α) : State where
  currentState := nextState s i
  dataTransmitted := SplitterDecoupled.next (inValid s i) (sel s i) s.dataTransmitted (outReady s i)

def out (s : State) (i : Input α) : Output α where
  writerStart := i.writerStart
  busy := busy s i
  accepted := if fromRemoteFire s i then i.fromRemote else none
  toWriter := passed s i .writerLocaltoRemoteLoopback
  toRemote := passed s i .remoteLoopback
  readerToWriter :=
    if i.readerLocalLoopback && i.localLoopback && i.writerReady then i.readerDataAfterExtension
    else none
  readerToRemote :=
    if !i.readerLocalLoopback && !isChainedWrite s i && i.toRemoteReady then i.readerDataAfterExtension
    else none

def initial : State := ⟨.stateIdle,fun _ => false⟩

def machine (α : Type) : Machine State (Input α) (Output α) where
  next := next
  out := out

/-! ### Tasks -/

/-- A task of the writer that is fed from the remote port. -/
structure Task (α : Type) where
  remoteLoopback : Bool
  words : List α

def wordsOf (tasks : List (Task α)) : List α := tasks.flatMap Task.words

/-- What the remote port is given of these tasks. -/
def forwardedOf (tasks : List (Task α)) : List α := wordsOf (tasks.filter Task.remoteLoopback)

def starts (history : List (Output α)) : Nat := history.countP Output.writerStart

def accepteds (history : List (Output α)) : List α := history.filterMap Output.accepted

def toWriters (history : List (Output α)) : List α := history.filterMap Output.toWriter

def toRemotes (history : List (Output α)) : List α := history.filterMap Output.toRemote

variable (tasks : List (Task α))

/-- The tasks that have been started. -/
def started (history : List (Output α)) : List (Task α) := tasks.take (starts history)

/-- The surroundings: tasks are started in order while the write side is not busy, and their
configuration is held while it is; the remote port offers their words in order; and the writer
is busy as long as it lacks words of a task that was started. -/
@[mk_iff]
structure Protocol (history : List (Output α)) (s : State) (i : Input α) : Prop where
  start : i.writerStart = true → busy s i = false ∧ starts history < tasks.length
  held : busy s i = true → ∀ task ∈ (started tasks history).getLast?,
    i.localLoopback = false ∧ i.remoteLoopback = task.remoteLoopback
  offers : ∀ w ∈ i.fromRemote, (wordsOf tasks)[(accepteds history).length]? = some w
  lasting : (toWriters history).length < (wordsOf (started tasks history)).length → i.writerBusy = true

instance [DecidableEq α] (history : List (Output α)) (s : State) (i : Input α) :
    Decidable (Protocol tasks history s i) := decidable_of_iff' _ (protocol_iff tasks history s i)

/-- While the write side is still busy with words that have all been accepted, the word of a
later task passes neither output; and in the wait state a word that is left is still offered. -/
@[mk_iff]
structure Clear (history : List (Output α)) (s : State) (i : Input α) : Prop where
  early : busy s i = true → (accepteds history).length = (wordsOf (started tasks history)).length →
    passed s i .writerLocaltoRemoteLoopback = none ∧ passed s i .remoteLoopback = none
  kept : s.currentState = .stateChainedWriteWait →
    (accepteds history).length < (wordsOf (started tasks history)).length → i.fromRemote.isSome = true

instance [DecidableEq α] (history : List (Output α)) (s : State) (i : Input α) :
    Decidable (Clear tasks history s i) := decidable_of_iff' _ (clear_iff tasks history s i)

/-! ### One cycle -/

variable {tasks : List (Task α)} {history : List (Output α)} {s : State} {i : Input α}

/-- The output has the word in front when the cycle ends, unless the word leaves. -/
def holds (s : State) (i : Input α) (c : Port) : Bool :=
  s.dataTransmitted c || (inValid s i && sel s i c && outReady s i c)

theorem forall_port {q : Port → Prop} :
    (∀ c, q c) ↔ q .writerLocaltoRemoteLoopback ∧ q .remoteLoopback :=
  ⟨fun all => ⟨all _,all _⟩,fun both c => by cases c; exacts [both.1,both.2]⟩

theorem passed_eq (c : Port) : passed s i c =
    if !s.dataTransmitted c && (inValid s i && sel s i c && outReady s i c) then i.fromRemote else none := by
  rw [passed,SplitterDecoupled.outValid]
  cases sel s i c <;> cases inValid s i <;> cases s.dataTransmitted c <;> rfl

theorem fire_iff : fromRemoteFire s i = true ↔ inValid s i = true ∧
    ∀ c, sel s i c = true → holds s i c = true := by
  rw [fromRemoteFire,Bool.and_eq_true]
  refine and_congr_right fun valid => ?_
  rw [SplitterDecoupled.inReady,decide_eq_true_iff]
  refine forall_congr' fun c => ?_
  simp only [holds,valid]
  cases sel s i c <;> cases outReady s i c <;> simp

theorem next_fired (fired : fromRemoteFire s i = true) (c : Port) : (next s i).dataTransmitted c = false :=
  congrFun (if_pos fired) c

theorem next_waiting (waits : fromRemoteFire s i = false) (c : Port) :
    (next s i).dataTransmitted c = holds s i c := by
  refine (congrFun (if_neg (Bool.eq_false_iff.mp waits)) c).trans ?_
  rw [holds,SplitterDecoupled.outValid]
  cases sel s i c <;> cases inValid s i <;> cases s.dataTransmitted c <;> rfl

theorem isChainedWrite_of_left (left : s.currentState ≠ .stateIdle) : isChainedWrite s i = true := by
  unfold isChainedWrite
  split
  · contradiction
  · rfl
  · rfl

theorem idle_of_rest (rest : busy s i = false) : s.currentState = .stateIdle := by
  by_contra left
  rw [busy,isChainedWrite_of_left left,Bool.or_true] at rest
  contradiction

/-- In the idle state the write side is busy only with the writer. -/
theorem busy_idle (idle : s.currentState = .stateIdle) : busy s i = i.writerBusy := by
  simp only [busy,isChainedWrite,idle]
  cases i.writerBusy <;> cases i.remoteLoopback <;> rfl

/-- The flag stays up while the word in front waits. -/
theorem nextState_left (chained : isChainedWrite s i = true) (offered : i.fromRemote.isSome = true) :
    nextState s i ≠ .stateIdle := by
  cases state : s.currentState with
  | stateIdle =>
    have up : (i.remoteLoopback && i.writerBusy) = true := by simpa [isChainedWrite,state] using chained
    simp [nextState,state,up]
  | stateChainedWrite =>
    simp only [nextState,state]
    split <;> simp
  | stateChainedWriteWait => simp [nextState,state,offered]

/-! ### Words of tasks -/

/-- The words with the mark of their tasks. -/
def marked (tasks : List (Task α)) : List (Bool × α) :=
  tasks.flatMap fun task => task.words.map fun word => (task.remoteLoopback,word)

/-- The words to forward among marked ones. -/
def forwarded (words : List (Bool × α)) : List α := (words.filter Prod.fst).map Prod.snd

theorem marked_append (front back : List (Task α)) :
    marked (front ++ back) = marked front ++ marked back := List.flatMap_append

theorem map_marked (tasks : List (Task α)) : (marked tasks).map Prod.snd = wordsOf tasks := by
  simp [marked,wordsOf,List.map_flatMap]

theorem forwarded_marked (tasks : List (Task α)) : forwarded (marked tasks) = forwardedOf tasks := by
  induction tasks with
  | nil => rfl
  | cons task tasks ih =>
    have split : marked (task :: tasks) =
        task.words.map (fun word => (task.remoteLoopback,word)) ++ marked tasks := rfl
    rw [split,forwarded,List.filter_append,List.map_append]
    change _ ++ forwarded (marked tasks) = _
    rw [ih]
    cases mark : task.remoteLoopback <;> simp [forwardedOf,wordsOf,mark,List.filter_map,Function.comp_def]

theorem length_marked (tasks : List (Task α)) : (marked tasks).length = (wordsOf tasks).length := by
  rw [← map_marked,List.length_map]

/-- A word within a task has the mark of the task. -/
theorem marked_getElem? {before after : List (Task α)} {task : Task α} {n : Nat} {word : α}
    (split : tasks = before ++ task :: after) (from_ : (wordsOf before).length ≤ n)
    (within : n < (wordsOf (before ++ [task])).length) (nth : (wordsOf tasks)[n]? = some word) :
    (marked tasks)[n]? = some (task.remoteLoopback,word) := by
  have all : marked tasks = marked (before ++ [task]) ++ marked after := by
    rw [split,← marked_append,List.append_assoc]
    rfl
  rw [← map_marked,List.getElem?_map,Option.map_eq_some_iff] at nth
  obtain ⟨pair,place,rfl⟩ := nth
  rw [place]
  rw [all,List.getElem?_append_left (by rwa [length_marked]),marked_append,
    List.getElem?_append_right (by rwa [length_marked])] at place
  have own : marked [task] = task.words.map fun word => (task.remoteLoopback,word) := by simp [marked]
  rw [own,List.getElem?_map,Option.map_eq_some_iff] at place
  obtain ⟨word,_,rfl⟩ := place
  rfl

/-! ### Runs -/

theorem starts_concat (history : List (Output α)) (s : State) (i : Input α) :
    starts (history ++ [out s i]) = starts history + i.writerStart.toNat := by
  rw [starts,List.countP_append]
  cases start : i.writerStart <;> simp [starts,out,start]

theorem accepteds_concat (history : List (Output α)) (s : State) (i : Input α) :
    accepteds (history ++ [out s i]) =
      accepteds history ++ (if fromRemoteFire s i then i.fromRemote else none).toList :=
  filterMap_concat _ _ _

theorem toWriters_concat (history : List (Output α)) (s : State) (i : Input α) :
    toWriters (history ++ [out s i]) =
      toWriters history ++ (passed s i .writerLocaltoRemoteLoopback).toList :=
  filterMap_concat _ _ _

theorem toRemotes_concat (history : List (Output α)) (s : State) (i : Input α) :
    toRemotes (history ++ [out s i]) = toRemotes history ++ (passed s i .remoteLoopback).toList :=
  filterMap_concat _ _ _

variable (tasks) in
/-- How far the words have come: an output has those that were accepted, and the next one while
its flag is up; and the state of the machine goes with the task under way. -/
structure Sound (history : List (Output α)) (s : State) : Prop where
  accepted : accepteds history = (wordsOf tasks).take (accepteds history).length
  toWriter : toWriters history = (wordsOf tasks).take ((accepteds history).length +
    (s.dataTransmitted .writerLocaltoRemoteLoopback).toNat)
  toRemote : toRemotes history = forwarded ((marked tasks).take ((accepteds history).length +
    (s.dataTransmitted .remoteLoopback).toNat))
  within : (accepteds history).length ≤ (wordsOf (started tasks history)).length
  left : ∀ c, s.dataTransmitted c = true → s.currentState ≠ .stateIdle ∧
    (accepteds history).length < (wordsOf (started tasks history)).length
  chained : s.currentState ≠ .stateIdle → ∀ task ∈ (started tasks history).getLast?,
    task.remoteLoopback = true
  current : ∀ before task, started tasks history = before ++ [task] →
    (wordsOf before).length ≤ (accepteds history).length

theorem sound_initial : Sound tasks [] initial where
  accepted := rfl
  toWriter := rfl
  toRemote := rfl
  within := Nat.zero_le _
  left _ flag := absurd flag Bool.false_ne_true
  chained state := absurd rfl state
  current before task split := by simp [started,starts] at split

/-- When the write side is not busy every word of the started tasks has left. -/
theorem Sound.complete (sound : Sound tasks history s) (protocol : Protocol tasks history s i)
    (rest : busy s i = false) : (accepteds history).length = (wordsOf (started tasks history)).length ∧
      ∀ c, s.dataTransmitted c = false := by
  have idle := idle_of_rest rest
  have flags (c : Port) : s.dataTransmitted c = false :=
    Bool.eq_false_iff.mpr fun flag => (sound.left c flag).1 idle
  have quiet : i.writerBusy = false := (busy_idle idle).symm.trans rest
  have all : (wordsOf (started tasks history)).length ≤ (toWriters history).length := by
    by_contra lacks
    have := protocol.lasting (Nat.not_le.mp lacks)
    rw [quiet] at this
    contradiction
  have count := congrArg List.length sound.toWriter
  rw [flags,Bool.toNat_false,Nat.add_zero,← sound.accepted] at count
  exact ⟨Nat.le_antisymm sound.within (count ▸ all),flags⟩

theorem passed_none_of_invalid (invalid : inValid s i = false) (c : Port) : passed s i c = none := by
  rw [passed_eq,invalid]
  simp

theorem Sound.start (sound : Sound tasks history s) (protocol : Protocol tasks history s i)
    (start : i.writerStart = true) : Sound tasks (history ++ [out s i]) (next s i) := by
  obtain ⟨rest,more⟩ := protocol.start start
  obtain ⟨count,flags⟩ := sound.complete protocol rest
  have idle := idle_of_rest rest
  have quiet : i.writerBusy = false := (busy_idle idle).symm.trans rest
  have invalid : inValid s i = false := by rw [inValid,rest,Bool.and_false]
  have waits : fromRemoteFire s i = false := by rw [fromRemoteFire,invalid,Bool.false_and]
  have accepted : accepteds (history ++ [out s i]) = accepteds history := by
    rw [accepteds_concat,waits]
    exact List.append_nil _
  have same (c : Port) : (next s i).dataTransmitted c = s.dataTransmitted c := by
    rw [next_waiting waits,holds,invalid]
    simp
  have state : (next s i).currentState = .stateIdle := by
    change nextState s i = _
    simp [nextState,idle,quiet]
  have longer : started tasks (history ++ [out s i]) =
      started tasks history ++ [tasks[starts history]] := by
    rw [started,starts_concat,start]
    exact List.take_succ_eq_append_getElem more
  refine ⟨?_,?_,?_,?_,fun c flag => ?_,fun left => absurd state left,fun before task split => ?_⟩
  · rw [accepted]
    exact sound.accepted
  · rw [toWriters_concat,passed_none_of_invalid invalid,accepted,same]
    exact (List.append_nil _).trans sound.toWriter
  · rw [toRemotes_concat,passed_none_of_invalid invalid,accepted,same]
    exact (List.append_nil _).trans sound.toRemote
  · rw [accepted,longer,count,wordsOf,wordsOf,List.flatMap_append,List.length_append]
    exact Nat.le_add_right _ _
  · rw [same,flags] at flag
    contradiction
  · rw [longer] at split
    obtain ⟨rfl,_⟩ := List.append_inj' split rfl
    rw [accepted,count]

theorem started_next (noStart : i.writerStart = false) :
    started tasks (history ++ [out s i]) = started tasks history := by
  rw [started,starts_concat,noStart]
  rfl

theorem Sound.chained_next (sound : Sound tasks history s) (protocol : Protocol tasks history s i)
    (left : nextState s i ≠ .stateIdle) : ∀ task ∈ (started tasks history).getLast?,
      task.remoteLoopback = true := by
  by_cases idle : s.currentState = .stateIdle
  · intro task last
    have up : (i.remoteLoopback && i.writerBusy) = true := by
      by_contra down
      exact left (by simp only [nextState,idle,if_neg down])
    obtain ⟨remote,working⟩ := Bool.and_eq_true_iff.mp up
    exact (protocol.held ((busy_idle idle).trans working) task last).2.symm.trans remote
  · exact sound.chained idle

/-- A cycle in which no word passes. -/
theorem Sound.still (sound : Sound tasks history s) (protocol : Protocol tasks history s i)
    (clear : Clear tasks history s i) (noStart : i.writerStart = false)
    (none : ∀ c, passed s i c = none) (waits : fromRemoteFire s i = false)
    (same : ∀ c, holds s i c = s.dataTransmitted c) :
    Sound tasks (history ++ [out s i]) (next s i) := by
  have accepted : accepteds (history ++ [out s i]) = accepteds history := by
    rw [accepteds_concat,waits]
    exact List.append_nil _
  have flags (c : Port) : (next s i).dataTransmitted c = s.dataTransmitted c :=
    (next_waiting waits c).trans (same c)
  refine ⟨?_,?_,?_,?_,fun c flag => ?_,?_,?_⟩
  · rw [accepted]
    exact sound.accepted
  · rw [toWriters_concat,none,accepted,flags]
    exact (List.append_nil _).trans sound.toWriter
  · rw [toRemotes_concat,none,accepted,flags]
    exact (List.append_nil _).trans sound.toRemote
  · rw [accepted,started_next noStart]
    exact sound.within
  · rw [flags] at flag
    obtain ⟨left,more⟩ := sound.left c flag
    rw [accepted,started_next noStart]
    refine ⟨?_,more⟩
    change nextState s i ≠ _
    cases state : s.currentState with
    | stateIdle => contradiction
    | stateChainedWrite =>
      simp only [nextState,state]
      split <;> simp
    | stateChainedWriteWait => simp [nextState,state,clear.kept state more]
  · rw [started_next noStart]
    exact sound.chained_next protocol
  · rw [started_next noStart,accepted]
    exact sound.current

theorem take_flag {l : List α} {n : Nat} {x : α} (nth : l[n]? = some x) (flag passes : Bool) :
    l.take (n + flag.toNat) ++ (if !flag && passes then some x else none).toList =
      l.take (n + (flag || passes).toNat) := by
  cases flag <;> cases passes <;> simp [List.take_add_one,nth]

theorem forwarded_take {l : List (Bool × α)} {n : Nat} {mark : Bool} {x : α}
    (nth : l[n]? = some (mark,x)) :
    forwarded (l.take (n + 1)) = forwarded (l.take n) ++ if mark then [x] else [] := by
  rw [List.take_add_one,nth,forwarded,List.filter_append,List.map_append]
  cases mark <;> rfl

theorem forwarded_flag {l : List (Bool × α)} {n : Nat} {mark : Bool} {x : α} (nth : l[n]? = some (mark,x))
    (flag : Bool) {passes : Bool} (own : passes = true → mark = true) :
    forwarded (l.take (n + flag.toNat)) ++ (if !flag && passes then some x else none).toList =
      forwarded (l.take (n + (flag || passes).toNat)) := by
  cases flag with
  | true => simp
  | false =>
    cases up : passes with
    | false => simp
    | true =>
      rw [Bool.false_or,Bool.toNat_true,forwarded_take nth,own up]
      rfl

/-- A word of the task under way: both outputs that it is for take it, now or later. -/
theorem Sound.word (sound : Sound tasks history s) (protocol : Protocol tasks history s i)
    (noStart : i.writerStart = false) (valid : inValid s i = true)
    (more : (accepteds history).length < (wordsOf (started tasks history)).length) :
    Sound tasks (history ++ [out s i]) (next s i) := by
  obtain ⟨offered,working⟩ := Bool.and_eq_true_iff.mp valid
  obtain ⟨word,offers⟩ := Option.isSome_iff_exists.mp offered
  have nth := protocol.offers word offers
  obtain ⟨before,task,split⟩ : ∃ before task, started tasks history = before ++ [task] := by
    rcases List.eq_nil_or_concat' (started tasks history) with none | some
    · rw [none] at more
      exact absurd more (Nat.not_lt_zero _)
    · exact some
  have last : task ∈ (started tasks history).getLast? := by rw [split,List.getLast?_concat]; rfl
  have rejoined : tasks = before ++ task :: tasks.drop (starts history) := by
    rw [← List.singleton_append,← List.append_assoc,← split]
    exact (List.take_append_drop _ _).symm
  have mark := marked_getElem? rejoined (sound.current before task split) (split ▸ more) nth
  obtain ⟨remote,chain⟩ := protocol.held working task last
  -- The flag of the machine is the mark of the task.
  have chained : isChainedWrite s i = task.remoteLoopback := by
    by_cases idle : s.currentState = .stateIdle
    · rw [busy_idle idle] at working
      simp only [isChainedWrite,idle,working,Bool.and_true]
      exact chain
    · rw [isChainedWrite_of_left idle,sound.chained idle task last]
  have toWriter : toWriters (history ++ [out s i]) = (wordsOf tasks).take
      ((accepteds history).length + (holds s i .writerLocaltoRemoteLoopback).toNat) := by
    rw [toWriters_concat,passed_eq,offers,sound.toWriter,take_flag nth]
    rfl
  have toRemote : toRemotes (history ++ [out s i]) = forwarded ((marked tasks).take
      ((accepteds history).length + (holds s i .remoteLoopback).toNat)) := by
    rw [toRemotes_concat,passed_eq,offers,sound.toRemote,forwarded_flag mark]
    · rfl
    · intro passes
      rw [← chained]
      exact (Bool.and_eq_true_iff.mp (Bool.and_eq_true_iff.mp passes).1).2
  cases fired : fromRemoteFire s i with
  | true =>
    have hold := (fire_iff.mp fired).2
    have accepted : accepteds (history ++ [out s i]) = accepteds history ++ [word] := by
      rw [accepteds_concat,fired,offers]
      rfl
    have count : (accepteds (history ++ [out s i])).length = (accepteds history).length + 1 := by
      rw [accepted,List.length_append,List.length_singleton]
    refine ⟨?_,?_,?_,?_,fun c flag => ?_,?_,?_⟩
    · rw [count,accepted,List.take_add_one,nth,← sound.accepted]
      rfl
    · rw [toWriter,count,next_fired fired,hold _ rfl]
      rfl
    · rw [toRemote,count,next_fired fired,Bool.toNat_false,Nat.add_zero]
      cases own : task.remoteLoopback with
      | true => rw [hold .remoteLoopback (chained.trans own),Bool.toNat_true]
      | false =>
        have down : holds s i .remoteLoopback = false := by
          have flag : s.dataTransmitted .remoteLoopback = false := Bool.eq_false_iff.mpr fun flag => by
            have up := isChainedWrite_of_left (i := i) (sound.left _ flag).1
            rw [chained,own] at up
            contradiction
          simp [holds,flag,sel,chained,own]
        rw [down,forwarded_take mark,own]
        exact (List.append_nil _).symm
    · rw [count,started_next noStart]
      exact more
    · rw [next_fired fired] at flag
      contradiction
    · rw [started_next noStart]
      exact sound.chained_next protocol
    · rw [started_next noStart,count]
      exact fun before task split => (sound.current before task split).trans (Nat.le_succ _)
  | false =>
    have accepted : accepteds (history ++ [out s i]) = accepteds history := by
      rw [accepteds_concat,fired]
      exact List.append_nil _
    refine ⟨?_,?_,?_,?_,fun c flag => ?_,?_,?_⟩
    · rw [accepted]
      exact sound.accepted
    · rw [toWriter,accepted,next_waiting fired]
    · rw [toRemote,accepted,next_waiting fired]
    · rw [accepted,started_next noStart]
      exact sound.within
    · rw [accepted,started_next noStart]
      refine ⟨nextState_left ?_ offered,more⟩
      -- A word for the writer alone would have left with its flag.
      by_contra plain
      rw [next_waiting fired] at flag
      have only : c = .writerLocaltoRemoteLoopback := by
        cases c with
        | writerLocaltoRemoteLoopback => rfl
        | remoteLoopback =>
          have none : s.dataTransmitted .remoteLoopback = false := Bool.eq_false_iff.mpr fun flag =>
            plain (isChainedWrite_of_left (sound.left _ flag).1)
          simp [holds,none,sel,plain] at flag
      refine Bool.eq_false_iff.mp fired (fire_iff.mpr ⟨valid,forall_port.mpr ⟨fun _ => only ▸ flag,?_⟩⟩)
      exact fun selected => absurd selected plain
    · rw [started_next noStart]
      exact sound.chained_next protocol
    · rw [started_next noStart,accepted]
      exact sound.current

theorem Sound.cycle (sound : Sound tasks history s) (protocol : Protocol tasks history s i)
    (clear : Clear tasks history s i) : Sound tasks (history ++ [out s i]) (next s i) := by
  cases start : i.writerStart with
  | true => exact sound.start protocol start
  | false =>
    cases valid : inValid s i with
    | false =>
      refine sound.still protocol clear start (passed_none_of_invalid valid) ?_ fun c => ?_
      · rw [fromRemoteFire,valid,Bool.false_and]
      · rw [holds,valid]
        simp
    | true =>
      rcases Nat.lt_or_eq_of_le sound.within with more | all
      · exact sound.word protocol start valid more
      · -- The word of a later task waits.
        obtain ⟨offered,working⟩ := Bool.and_eq_true_iff.mp valid
        have none := (forall_port (q := fun c => passed s i c = none)).mpr (clear.early working all)
        have flags (c : Port) : s.dataTransmitted c = false :=
          Bool.eq_false_iff.mpr fun flag => absurd all (sound.left c flag).2.ne
        have quiet (c : Port) : holds s i c = s.dataTransmitted c := by
          have nothing := none c
          obtain ⟨word,offers⟩ := Option.isSome_iff_exists.mp offered
          rw [passed_eq,flags,offers] at nothing
          rw [holds,flags]
          cases passes : (inValid s i && sel s i c && outReady s i c) with
          | false => rfl
          | true => simp [passes] at nothing
        refine sound.still protocol clear start none ?_ quiet
        refine Bool.eq_false_iff.mpr fun fired => ?_
        have held := (fire_iff.mp fired).2 .writerLocaltoRemoteLoopback rfl
        rw [quiet,flags] at held
        contradiction

variable (tasks) in
/-- In order and once: what was accepted and what the writer has been given are words of tasks
that were started, and what went back to the remote port are words of those among them that are
to be forwarded. -/
structure Forwarded (history : List (Output α)) : Prop where
  accepted : accepteds history <+: wordsOf (started tasks history)
  toWriter : toWriters history <+: wordsOf (started tasks history)
  toRemote : toRemotes history <+: forwardedOf (started tasks history)

variable (tasks) in
/-- All of them. -/
structure Complete (history : List (Output α)) : Prop where
  accepted : accepteds history = wordsOf (started tasks history)
  toWriter : toWriters history = wordsOf (started tasks history)
  toRemote : toRemotes history = forwardedOf (started tasks history)

theorem wordsOf_started (history : List (Output α)) :
    wordsOf tasks = wordsOf (started tasks history) ++ wordsOf (tasks.drop (starts history)) := by
  rw [wordsOf,wordsOf,wordsOf,← List.flatMap_append,started,List.take_append_drop]

theorem marked_started (history : List (Output α)) :
    marked tasks = marked (started tasks history) ++ marked (tasks.drop (starts history)) := by
  rw [← marked_append,started,List.take_append_drop]

theorem Sound.given_within (sound : Sound tasks history s) (c : Port) :
    (accepteds history).length + (s.dataTransmitted c).toNat ≤
      (wordsOf (started tasks history)).length := by
  cases flag : s.dataTransmitted c with
  | false => exact sound.within
  | true => exact (sound.left c flag).2

theorem Sound.toWriter_eq (sound : Sound tasks history s) :
    toWriters history = (wordsOf (started tasks history)).take ((accepteds history).length +
      (s.dataTransmitted .writerLocaltoRemoteLoopback).toNat) := by
  rw [sound.toWriter,wordsOf_started history,List.take_append_of_le_length (sound.given_within _)]

theorem Sound.toRemote_eq (sound : Sound tasks history s) :
    toRemotes history = forwarded ((marked (started tasks history)).take ((accepteds history).length +
      (s.dataTransmitted .remoteLoopback).toNat)) := by
  rw [sound.toRemote,marked_started history,
    List.take_append_of_le_length ((length_marked _).symm ▸ sound.given_within _)]

theorem Sound.accepted_eq (sound : Sound tasks history s) :
    accepteds history = (wordsOf (started tasks history)).take (accepteds history).length := by
  conv_lhs => rw [sound.accepted,wordsOf_started history,List.take_append_of_le_length sound.within]

theorem Sound.forwarded (sound : Sound tasks history s) : Forwarded tasks history where
  accepted := by
    rw [sound.accepted_eq]
    exact List.take_prefix _ _
  toWriter := by
    rw [sound.toWriter_eq]
    exact List.take_prefix _ _
  toRemote := by
    rw [sound.toRemote_eq,← forwarded_marked]
    exact ((List.take_prefix _ _).filter _).map _

theorem Sound.all (sound : Sound tasks history s) (protocol : Protocol tasks history s i)
    (rest : busy s i = false) : Complete tasks history := by
  obtain ⟨count,flags⟩ := sound.complete protocol rest
  refine ⟨?_,?_,?_⟩
  · rw [sound.accepted_eq,count,List.take_length]
  · rw [sound.toWriter_eq,flags,Bool.toNat_false,Nat.add_zero,count,List.take_length]
  · rw [sound.toRemote_eq,flags,Bool.toNat_false,Nat.add_zero,count,← length_marked,List.take_length,
      forwarded_marked]

/-- In every run of the surroundings that stays clear, the words of the started tasks are accepted
and passed on as their tasks say, and all of them are whenever the write side is not busy. -/
theorem chained_forwarding (tasks : List (Task α)) (inputs : List (Input α))
    (protocol : (machine α).Each (Protocol tasks) initial inputs)
    (clear : (machine α).Each (Clear tasks) initial inputs) :
    Forwarded tasks ((machine α).outs initial inputs) ∧
      (machine α).Each (fun history s i => busy s i = false → Complete tasks history) initial inputs := by
  have both := protocol.and clear
  have step := fun history s i (sound : Sound tasks history s)
    (both : Protocol tasks history s i ∧ Clear tasks history s i) => sound.cycle both.1 both.2
  refine ⟨(Machine.run_rule_each (Sound tasks) both sound_initial step).forwarded,?_⟩
  exact ((Machine.each_of_run_rule (Sound tasks) both sound_initial step).and protocol).mono
    fun _ _ _ both rest => both.1.all both.2 rest

/-! ### Two tasks -/

/-- A word to forward, and one that stays here. -/
def twoTasks : List (Task Nat) := [⟨true,[7]⟩,⟨false,[8]⟩]

/-- Everything is ready; the configuration is that of the task that forwards, or of the other. -/
def cycle (forwards start writerBusy : Bool) (fromRemote : Option Nat) : Input Nat where
  readerLocalLoopback := false
  localLoopback := false
  remoteLoopback := forwards
  writerStart := start
  writerBusy := writerBusy
  fromRemote := fromRemote
  readerDataAfterExtension := none
  writerReady := true
  toRemoteReady := true

def inTime : List (Input Nat) :=
  [cycle true true false none,cycle true false true (some 7),cycle true false true none,
    cycle true false false none,cycle true false false none,cycle false true false none,
    cycle false false true (some 8),cycle false false false none]

theorem chained_forwarding_inTime : Forwarded twoTasks ((machine Nat).outs initial inTime) :=
  (chained_forwarding twoTasks inTime (by decide) (by decide)).1

/-- The second word is there when the writer falls idle, and the machine still holds the first task. -/
def early : List (Input Nat) :=
  [cycle true true false none,cycle true false true (some 7),cycle true false false (some 8)]

/-- It is accepted and goes back to the remote port, before its task is started. -/
theorem chained_forwarding_early :
    ¬ ∀ inputs, (machine Nat).Each (Protocol twoTasks) initial inputs →
      Forwarded twoTasks ((machine Nat).outs initial inputs) := by
  intro all
  have forwarded := all early (by decide)
  exact absurd forwarded.toRemote (by decide)

end Snax.XDMADataPath
