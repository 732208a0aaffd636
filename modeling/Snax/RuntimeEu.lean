import Mathlib.Algebra.BigOperators.Fin
import Snax.Sync.Threads

/-! The event unit of the OpenMP runtime: core 0 writes a task into the event, wakes the worker cores and
waits for them, each worker runs the task if it is in the team and sleeps again. Every step is one
access to the memory or one call of a task, and the steps of the cores come in any order. -/
namespace Snax

open Sync (Threads)

/-- What a core calls: `fn(data, argc)`. -/
structure EuCall where
  fn : BitVec 32
  data : BitVec 32
  argc : BitVec 32
  deriving DecidableEq

structure EuTask where
  call : EuCall
  nthreads : BitVec 32
  deriving DecidableEq

/-- `eu_t`, and the interrupt register of the cluster; `e` is taken apart. -/
structure Eu where
  workersInLoop : Nat
  exitFlag : Bool
  workersWfi : Nat
  fn : BitVec 32
  data : BitVec 32
  argc : BitVec 32
  nthreads : BitVec 32
  finiCount : Nat
  irq : BitVec 32
  deriving DecidableEq

inductive EuPc
  /-- `eu_event_loop`, before the worker is counted. -/
  | start
  | exitCheck
  | teamCheck
  | fini
  | wfiEnter
  | wfi
  | wfiClear
  | wfiLeave
  | exited
  /-- The members of the event are read one after the other; core 0 keeps the number of threads. -/
  | readFn (scratch : BitVec 32)
  | readData (scratch fn : BitVec 32)
  | readArgc (scratch fn data : BitVec 32)
  | run (scratch : BitVec 32) (call : EuCall)
  /-- Core 0, in `snrt_omp_bootstrap`. -/
  | boot
  | idle
  | pushRead (t : EuTask)
  | pushWait (t : EuTask) (scratch : Nat)
  | writeFn (t : EuTask)
  | writeData (t : EuTask)
  | writeArgc (t : EuTask)
  | writeThreads (t : EuTask)
  /-- `eu_run_empty` -/
  | emptyRead
  | clearFini (scratch : BitVec 32)
  | wakeRead (scratch : BitVec 32)
  | wakeWait (scratch : BitVec 32) (workers : Nat)
  | wakeSet (scratch : BitVec 32)
  | ownCheck (scratch : BitVec 32)
  | emptyLoop (scratch : BitVec 32)
  | emptyWait (workers : Nat)
  | reset
  deriving DecidableEq

/-- A core: where it is, what it has run, and for core 0 what it has been asked to have run. -/
structure EuCore where
  pc : EuPc
  ran : List EuCall
  calls : List EuTask
  deriving DecidableEq

/-- The mask of `wake_workers`. -/
def wakeMask (numcores : Nat) : BitVec 32 := ~~~1 &&& (((1 : BitVec 32) <<< numcores) - 1)

/-- A worker, in `eu_event_loop` with `worker_wfi` inlined. -/
def euEventLoop (clusterCoreIdx : Nat) (core : EuCore) (eu : Eu) : Option (EuCore × Eu) :=
  match core.pc with
  | .start => some ({ core with pc := .exitCheck },{ eu with workersInLoop := eu.workersInLoop + 1 })
  | .exitCheck => some ({ core with pc := if eu.exitFlag then .exited else .teamCheck },eu)
  | .teamCheck =>
    some ({ core with pc := if clusterCoreIdx < eu.nthreads.toNat then .readFn 0 else .fini },eu)
  | .readFn scratch => some ({ core with pc := .readData scratch eu.fn },eu)
  | .readData scratch fn => some ({ core with pc := .readArgc scratch fn eu.data },eu)
  | .readArgc scratch fn data => some ({ core with pc := .run scratch ⟨fn,data,eu.argc⟩ },eu)
  | .run _ call => some ({ core with pc := .fini, ran := core.ran ++ [call] },eu)
  | .fini => some ({ core with pc := .wfiEnter },{ eu with finiCount := eu.finiCount + 1 })
  | .wfiEnter => some ({ core with pc := .wfi },{ eu with workersWfi := eu.workersWfi + 1 })
  | .wfi => if eu.irq.getLsbD clusterCoreIdx then some ({ core with pc := .wfiClear },eu) else none
  | .wfiClear => some ({ core with pc := .wfiLeave },{ eu with irq := eu.irq &&& ~~~((1 : BitVec 32) <<< clusterCoreIdx) })
  | .wfiLeave => some ({ core with pc := .exitCheck },{ eu with workersWfi := eu.workersWfi - 1 })
  | _ => none

/-- Core 0: the bootstrap, then `parallelRegion` again and again, that is `eu_dispatch_push` and
`eu_run_empty` with `wake_workers` inlined. -/
def euMain (numcores : Nat) (t : EuTask) (core : EuCore) (eu : Eu) : Option (EuCore × Eu) :=
  match core.pc with
  | .boot => if eu.workersWfi = numcores - 1 then some ({ core with pc := .idle },eu) else none
  | .idle => some ({ core with pc := .pushRead t, calls := core.calls ++ [t] },eu)
  | .pushRead t => some ({ core with pc := .pushWait t eu.workersInLoop },eu)
  | .pushWait t scratch => if eu.workersWfi = scratch then some ({ core with pc := .writeFn t },eu) else none
  | .writeFn t => some ({ core with pc := .writeData t },{ eu with fn := t.call.fn })
  | .writeData t => some ({ core with pc := .writeArgc t },{ eu with data := t.call.data })
  | .writeArgc t => some ({ core with pc := .writeThreads t },{ eu with argc := t.call.argc })
  | .writeThreads t => some ({ core with pc := .emptyRead },{ eu with nthreads := t.nthreads })
  | .emptyRead => some ({ core with pc := if eu.nthreads = 0 then .idle else .clearFini eu.nthreads },eu)
  | .clearFini scratch =>
    some ({ core with pc := if 1 < scratch.toNat then .wakeRead scratch else .ownCheck scratch },
      { eu with finiCount := 0 })
  | .wakeRead scratch => some ({ core with pc := .wakeWait scratch eu.workersInLoop },eu)
  | .wakeWait scratch workers =>
    if eu.workersWfi = workers then some ({ core with pc := .wakeSet scratch },eu) else none
  | .wakeSet scratch => some ({ core with pc := .ownCheck scratch },{ eu with irq := eu.irq ||| wakeMask numcores })
  | .ownCheck scratch =>
    some ({ core with pc := if 0 < eu.nthreads.toNat then .readFn scratch else .emptyLoop scratch },eu)
  | .readFn scratch => some ({ core with pc := .readData scratch eu.fn },eu)
  | .readData scratch fn => some ({ core with pc := .readArgc scratch fn eu.data },eu)
  | .readArgc scratch fn data => some ({ core with pc := .run scratch ⟨fn,data,eu.argc⟩ },eu)
  | .run scratch call => some ({ core with pc := .emptyLoop scratch, ran := core.ran ++ [call] },eu)
  | .emptyLoop scratch =>
    some ({ core with pc := if 1 < scratch.toNat then .emptyWait eu.workersInLoop else .reset },eu)
  | .emptyWait workers => if eu.finiCount = workers then some ({ core with pc := .reset },eu) else none
  | .reset => some ({ core with pc := .idle },{ eu with nthreads := 0 })
  | _ => none

/-- Core 0 and `workers` worker cores. -/
def euThreads (workers : Nat) : Threads (Fin (workers + 1)) EuTask EuCore Eu where
  act i t core eu := if i = 0 then euMain (workers + 1) t core eu else euEventLoop i core eu

abbrev EuConfig (workers : Nat) := Threads.Config (Fin (workers + 1)) EuCore Eu

/-- After `eu_init`, which clears the struct. -/
def euBegin (workers : Nat) : EuConfig workers :=
  ⟨fun i => ⟨if i = 0 then .boot else .start,[],[]⟩,⟨0,false,0,0,0,0,0,0,0⟩⟩

/-- What core `i` has to run of some tasks: those whose team it is in. -/
def due (i : Nat) (tasks : List EuTask) : List EuCall :=
  (tasks.filter fun t => i < t.nthreads.toNat).map EuTask.call

@[simp] theorem due_nil (i : Nat) : due i [] = [] := rfl

theorem due_concat (i : Nat) (tasks : List EuTask) (t : EuTask) :
    due i (tasks ++ [t]) = due i tasks ++ if i < t.nthreads.toNat then [t.call] else [] := by
  by_cases team : i < t.nthreads.toNat <;> simp [due,team]

theorem due_mono (i : Nat) {tasks more : List EuTask} (front : tasks <+: more) : due i tasks <+: due i more :=
  (front.filter _).map _

theorem wakeMask_getLsbD {numcores i : Nat} (few : numcores < 32) :
    (wakeMask numcores).getLsbD i = (decide (0 < i) && decide (i < numcores)) := by
  have ones : ((1 : BitVec 32) <<< numcores) - 1 = BitVec.ofNat 32 (2 ^ numcores - 1) := by
    have fits := Nat.pow_le_pow_right (by decide : 0 < 2) (Nat.le_of_lt_succ few)
    have least := Nat.one_le_two_pow (n := numcores)
    apply BitVec.eq_of_toNat_eq
    have shifted : ((1 : BitVec 32) <<< numcores).toNat = 2 ^ numcores := by
      rw [BitVec.toNat_shiftLeft,Nat.shiftLeft_eq]
      simpa using Nat.lt_of_le_of_lt fits (by decide)
    rw [BitVec.toNat_sub,shifted,BitVec.toNat_ofNat]
    have one : (1 : BitVec 32).toNat = 1 := rfl
    rw [one]
    omega
  rw [wakeMask,ones,BitVec.getLsbD_and,BitVec.getLsbD_ofNat,Nat.testBit_two_pow_sub_one]
  by_cases inside : i < numcores
  · have width : i < 32 := Nat.lt_trans inside few
    have low : (~~~(1 : BitVec 32)).getLsbD i = decide (0 < i) := by
      rw [BitVec.getLsbD_not,BitVec.ofNat_eq_ofNat,BitVec.getLsbD_one]
      by_cases zero : i = 0
      · simp [zero]
      · simp [width,zero,Nat.pos_of_ne_zero zero]
    rw [low]
    simp [inside,width]
  · simp [inside]

theorem irqClear_getLsbD (irq : BitVec 32) (i j : Nat) :
    (irq &&& ~~~((1 : BitVec 32) <<< i)).getLsbD j = (irq.getLsbD j && !decide (j = i)) := by
  by_cases width : j < 32
  · have bit : ((1 : BitVec 32) <<< i).getLsbD j = decide (j = i) := by
      rw [BitVec.getLsbD_shiftLeft,BitVec.ofNat_eq_ofNat,BitVec.getLsbD_one]
      by_cases same : j = i
      · simp [same,same ▸ width]
      · rcases Nat.lt_or_ge j i with below | above
        · simp [below,same]
        · have apart : j - i ≠ 0 := by omega
          simp [apart,same]
    rw [BitVec.getLsbD_and,BitVec.getLsbD_not,bit]
    simp [width]
  · rw [BitVec.getLsbD_of_ge _ _ (Nat.le_of_not_lt width),BitVec.getLsbD_of_ge _ _ (Nat.le_of_not_lt width)]
    rfl

namespace Eu

/-- The event holds the task. -/
structure Holds (eu : Eu) (t : EuTask) : Prop where
  fn : eu.fn = t.call.fn
  data : eu.data = t.call.data
  argc : eu.argc = t.call.argc
  nthreads : eu.nthreads = t.nthreads

/-- What a worker does to the event unit: it counts itself and clears its own interrupt. -/
structure Kept (eu eu' : Eu) : Prop where
  exitFlag : eu'.exitFlag = eu.exitFlag
  fn : eu'.fn = eu.fn
  data : eu'.data = eu.data
  argc : eu'.argc = eu.argc
  nthreads : eu'.nthreads = eu.nthreads

end Eu

namespace EuCore

/-- A worker that waits, or is about to, with nothing that would wake it. -/
inductive Rests (ran : List EuCall) : Bool → EuCore → Prop
  | entering {calls : List EuTask} : Rests ran false ⟨.wfiEnter,ran,calls⟩
  | asleep {calls : List EuTask} : Rests ran false ⟨.wfi,ran,calls⟩

/-- A worker that has just come into the loop. -/
inductive Boots : Bool → EuCore → Prop
  | start {calls : List EuTask} : Boots false ⟨.start,[],calls⟩
  | exitCheck {calls : List EuTask} : Boots false ⟨.exitCheck,[],calls⟩
  | teamCheck {calls : List EuTask} : Boots false ⟨.teamCheck,[],calls⟩
  | fini {calls : List EuTask} : Boots false ⟨.fini,[],calls⟩

/-- Worker `i` has been woken for the task and has not counted itself again. -/
inductive Works (i : Nat) (t : EuTask) (ran : List EuCall) : Bool → EuCore → Prop
  | woken {calls : List EuTask} : Works i t ran true ⟨.wfi,ran,calls⟩
  | clearing {calls : List EuTask} : Works i t ran true ⟨.wfiClear,ran,calls⟩
  | leaving {calls : List EuTask} : Works i t ran false ⟨.wfiLeave,ran,calls⟩
  | exitCheck {calls : List EuTask} : Works i t ran false ⟨.exitCheck,ran,calls⟩
  | teamCheck {calls : List EuTask} : Works i t ran false ⟨.teamCheck,ran,calls⟩
  | readFn {s : BitVec 32} {calls : List EuTask} (team : i < t.nthreads.toNat) :
    Works i t ran false ⟨.readFn s,ran,calls⟩
  | readData {s : BitVec 32} {calls : List EuTask} (team : i < t.nthreads.toNat) :
    Works i t ran false ⟨.readData s t.call.fn,ran,calls⟩
  | readArgc {s : BitVec 32} {calls : List EuTask} (team : i < t.nthreads.toNat) :
    Works i t ran false ⟨.readArgc s t.call.fn t.call.data,ran,calls⟩
  | run {s : BitVec 32} {calls : List EuTask} (team : i < t.nthreads.toNat) :
    Works i t ran false ⟨.run s t.call,ran,calls⟩
  | fini {done : List EuCall} {calls : List EuTask}
    (own : done = ran ++ if i < t.nthreads.toNat then [t.call] else []) : Works i t ran false ⟨.fini,done,calls⟩

/-- Whether worker `i` is in the loop, waits, and has come to the end of the task. -/
def loopWeight (core : EuCore) : Nat := if core.pc = .start then 0 else 1

def wfiWeight (core : EuCore) : Nat :=
  match core.pc with
  | .wfi | .wfiClear | .wfiLeave => 1
  | _ => 0

def finiWeight (irq : Bool) (core : EuCore) : Nat :=
  match core.pc with
  | .wfiEnter => 1
  | .wfi => if irq then 0 else 1
  | _ => 0

variable {i : Nat} {t : EuTask} {ran : List EuCall} {core core' : EuCore} {eu eu' : Eu}

/-- A step of worker `i` on the event unit, with what it does to the counters. -/
structure Counted (i : Nat) (core core' : EuCore) (eu eu' : Eu) : Prop where
  kept : eu.Kept eu'
  irq : ∀ j, j ≠ i → eu'.irq.getLsbD j = eu.irq.getLsbD j
  loop : eu'.workersInLoop + core.loopWeight = eu.workersInLoop + core'.loopWeight
  wfi : core.wfiWeight ≤ eu.workersWfi → eu'.workersWfi + core.wfiWeight = eu.workersWfi + core'.wfiWeight

theorem counted (acts : euEventLoop i core eu = some (core',eu')) : Counted i core core' eu eu' := by
  have keep : eu.Kept eu := ⟨rfl,rfl,rfl,rfl,rfl⟩
  obtain ⟨pc,ran,calls⟩ := core
  cases pc with
  | start => cases acts; exact ⟨⟨rfl,rfl,rfl,rfl,rfl⟩,fun _ _ => rfl,by simp [loopWeight],fun _ => rfl⟩
  | exitCheck =>
    cases acts
    by_cases flag : eu.exitFlag = true <;> simp only [flag] <;> exact ⟨keep,fun _ _ => rfl,rfl,fun _ => rfl⟩
  | teamCheck =>
    cases acts
    by_cases team : i < eu.nthreads.toNat <;> simp only [team] <;> exact ⟨keep,fun _ _ => rfl,rfl,fun _ => rfl⟩
  | readFn | readData | readArgc | run => cases acts; exact ⟨keep,fun _ _ => rfl,rfl,fun _ => rfl⟩
  | fini => cases acts; exact ⟨⟨rfl,rfl,rfl,rfl,rfl⟩,fun _ _ => rfl,rfl,fun _ => rfl⟩
  | wfiEnter => cases acts; exact ⟨⟨rfl,rfl,rfl,rfl,rfl⟩,fun _ _ => rfl,rfl,fun _ => rfl⟩
  | wfi =>
    simp only [euEventLoop] at acts
    split at acts
    · cases acts
      exact ⟨keep,fun _ _ => rfl,rfl,fun _ => rfl⟩
    · cases acts
  | wfiClear =>
    cases acts
    refine ⟨⟨rfl,rfl,rfl,rfl,rfl⟩,fun j apart => ?_,rfl,fun _ => rfl⟩
    rw [irqClear_getLsbD]
    simp [apart]
  | wfiLeave =>
    cases acts
    refine ⟨⟨rfl,rfl,rfl,rfl,rfl⟩,fun _ _ => rfl,rfl,fun least => ?_⟩
    simp only [wfiWeight] at least ⊢
    omega
  | _ => cases acts

theorem Boots.step (boots : Boots (eu.irq.getLsbD i) core) (flag : eu.exitFlag = false)
    (none : eu.nthreads = 0) (acts : euEventLoop i core eu = some (core',eu')) :
    (Boots (eu'.irq.getLsbD i) core' ∨ Rests [] (eu'.irq.getLsbD i) core') := by
  generalize bit : eu.irq.getLsbD i = irq at boots
  cases boots with
  | start => cases acts; exact .inl (bit ▸ .exitCheck)
  | exitCheck =>
    simp only [euEventLoop,flag,Bool.false_eq_true,if_false] at acts
    cases acts
    exact .inl (bit ▸ .teamCheck)
  | teamCheck =>
    simp only [euEventLoop,none] at acts
    cases acts
    exact .inl (bit ▸ .fini)
  | fini => cases acts; exact .inr (bit ▸ .entering)

theorem Rests.step (rests : Rests ran (eu.irq.getLsbD i) core)
    (acts : euEventLoop i core eu = some (core',eu')) :
    Rests ran (eu'.irq.getLsbD i) core' ∧ eu'.finiCount = eu.finiCount ∧ core.pc = .wfiEnter := by
  generalize bit : eu.irq.getLsbD i = irq at rests
  cases rests with
  | entering => cases acts; exact ⟨bit ▸ .asleep,rfl,rfl⟩
  | asleep =>
    simp only [euEventLoop,bit] at acts
    cases acts

theorem Works.step (works : Works i t ran (eu.irq.getLsbD i) core) (flag : eu.exitFlag = false)
    (holds : eu.Holds t) (acts : euEventLoop i core eu = some (core',eu')) :
    (Works i t ran (eu'.irq.getLsbD i) core' ∨
        Rests (ran ++ (if i < t.nthreads.toNat then [t.call] else [])) (eu'.irq.getLsbD i) core') ∧
      eu'.finiCount + core.finiWeight (eu.irq.getLsbD i) =
        eu.finiCount + core'.finiWeight (eu'.irq.getLsbD i) := by
  generalize bit : eu.irq.getLsbD i = irq at works
  cases works with
  | woken =>
    simp only [euEventLoop,bit] at acts
    cases acts
    exact ⟨.inl (bit ▸ .clearing),rfl⟩
  | clearing =>
    cases acts
    have clear := irqClear_getLsbD eu.irq i i
    simp only [decide_true,Bool.not_true,Bool.and_false] at clear
    exact ⟨.inl (clear ▸ .leaving),rfl⟩
  | leaving => cases acts; exact ⟨.inl (bit ▸ .exitCheck),rfl⟩
  | exitCheck =>
    simp only [euEventLoop,flag,Bool.false_eq_true,if_false] at acts
    cases acts
    exact ⟨.inl (bit ▸ .teamCheck),rfl⟩
  | teamCheck =>
    simp only [euEventLoop,holds.nthreads] at acts
    by_cases team : i < t.nthreads.toNat
    · rw [if_pos team] at acts
      cases acts
      exact ⟨.inl (bit ▸ .readFn team),rfl⟩
    · rw [if_neg team] at acts
      cases acts
      exact ⟨.inl (bit ▸ .fini (by rw [if_neg team,List.append_nil])),rfl⟩
  | readFn team => cases acts; exact ⟨.inl (bit ▸ holds.fn ▸ .readData team),rfl⟩
  | readData team => cases acts; exact ⟨.inl (bit ▸ holds.data ▸ .readArgc team),rfl⟩
  | readArgc team => cases acts; exact ⟨.inl (bit ▸ holds.argc ▸ .run team),rfl⟩
  | run team =>
    cases acts
    exact ⟨.inl (bit ▸ .fini (by rw [if_pos team])),rfl⟩
  | fini own =>
    subst own
    cases acts
    exact ⟨.inr (bit ▸ .entering),rfl⟩

end EuCore

/-- What the workers are at: they come into the loop, are done with all tasks, sleep, or are at a task. -/
inductive Crew
  | boots
  | rests
  | sleeps
  | works (t : EuTask)

/-- What worker `i` may be at when the tasks of `past` are done. -/
def Crew.At (past : List EuTask) (i : Nat) (irq : Bool) (core : EuCore) : Crew → Prop
  | .boots => core.Boots irq ∨ core.Rests [] irq
  | .rests => core.Rests (due i past) irq
  | .sleeps => irq = false ∧ core.pc = .wfi ∧ core.ran = due i past
  | .works t => core.Works i t (due i past) irq ∨ core.Rests (due i (past ++ [t])) irq

/-- Core 0 in its own part of the task, with what it has run of it. -/
inductive OwnAt (t : EuTask) : List EuCall → EuPc → Prop
  | check : OwnAt t [] (.ownCheck t.nthreads)
  | readFn : OwnAt t [] (.readFn t.nthreads)
  | readData : OwnAt t [] (.readData t.nthreads t.call.fn)
  | readArgc : OwnAt t [] (.readArgc t.nthreads t.call.fn t.call.data)
  | run : OwnAt t [] (.run t.nthreads t.call)
  | done : OwnAt t [t.call] (.emptyLoop t.nthreads)

/-- Where core 0 can be, and what the workers are at then. -/
inductive MainAt (workers : Nat) (eu : Eu) : Crew → List EuTask → EuCore → Prop
  | boot (none : eu.nthreads = 0) : MainAt workers eu .boots [] ⟨.boot,[],[]⟩
  | idle {past : List EuTask} : MainAt workers eu .rests past ⟨.idle,due 0 past,past⟩
  | pushRead {past : List EuTask} {t : EuTask} :
    MainAt workers eu .rests past ⟨.pushRead t,due 0 past,past ++ [t]⟩
  | pushWait {past : List EuTask} {t : EuTask} :
    MainAt workers eu .rests past ⟨.pushWait t workers,due 0 past,past ++ [t]⟩
  | writeFn {past : List EuTask} {t : EuTask} :
    MainAt workers eu .sleeps past ⟨.writeFn t,due 0 past,past ++ [t]⟩
  | writeData {past : List EuTask} {t : EuTask} (fn : eu.fn = t.call.fn) :
    MainAt workers eu .sleeps past ⟨.writeData t,due 0 past,past ++ [t]⟩
  | writeArgc {past : List EuTask} {t : EuTask} (fn : eu.fn = t.call.fn) (data : eu.data = t.call.data) :
    MainAt workers eu .sleeps past ⟨.writeArgc t,due 0 past,past ++ [t]⟩
  | writeThreads {past : List EuTask} {t : EuTask} (fn : eu.fn = t.call.fn) (data : eu.data = t.call.data)
    (argc : eu.argc = t.call.argc) : MainAt workers eu .sleeps past ⟨.writeThreads t,due 0 past,past ++ [t]⟩
  | emptyRead {past : List EuTask} {t : EuTask} (holds : eu.Holds t) :
    MainAt workers eu .sleeps past ⟨.emptyRead,due 0 past,past ++ [t]⟩
  | clearFini {past : List EuTask} {t : EuTask} (holds : eu.Holds t) (team : t.nthreads ≠ 0) :
    MainAt workers eu .sleeps past ⟨.clearFini t.nthreads,due 0 past,past ++ [t]⟩
  | wakeRead {past : List EuTask} {t : EuTask} (holds : eu.Holds t) (many : 1 < t.nthreads.toNat)
    (clear : eu.finiCount = 0) : MainAt workers eu .sleeps past ⟨.wakeRead t.nthreads,due 0 past,past ++ [t]⟩
  | wakeWait {past : List EuTask} {t : EuTask} (holds : eu.Holds t) (many : 1 < t.nthreads.toNat)
    (clear : eu.finiCount = 0) :
    MainAt workers eu .sleeps past ⟨.wakeWait t.nthreads workers,due 0 past,past ++ [t]⟩
  | wakeSet {past : List EuTask} {t : EuTask} (holds : eu.Holds t) (many : 1 < t.nthreads.toNat)
    (clear : eu.finiCount = 0) : MainAt workers eu .sleeps past ⟨.wakeSet t.nthreads,due 0 past,past ++ [t]⟩
  | alone {past : List EuTask} {t : EuTask} {ran : List EuCall} {pc : EuPc} (holds : eu.Holds t)
    (one : t.nthreads.toNat = 1) (own : OwnAt t ran pc) :
    MainAt workers eu .sleeps past ⟨pc,due 0 past ++ ran,past ++ [t]⟩
  | among {past : List EuTask} {t : EuTask} {ran : List EuCall} {pc : EuPc} (holds : eu.Holds t)
    (many : 1 < t.nthreads.toNat) (own : OwnAt t ran pc) :
    MainAt workers eu (.works t) past ⟨pc,due 0 past ++ ran,past ++ [t]⟩
  | emptyWait {past : List EuTask} {t : EuTask} (holds : eu.Holds t) (many : 1 < t.nthreads.toNat) :
    MainAt workers eu (.works t) past ⟨.emptyWait workers,due 0 (past ++ [t]),past ++ [t]⟩
  | reset {past : List EuTask} : MainAt workers eu .rests past ⟨.reset,due 0 past,past⟩

theorem Eu.Holds.kept {eu eu' : Eu} {t : EuTask} (holds : eu.Holds t) (kept : eu.Kept eu') : eu'.Holds t :=
  ⟨kept.fn.trans holds.fn,kept.data.trans holds.data,kept.argc.trans holds.argc,
    kept.nthreads.trans holds.nthreads⟩

/-- The workers that are up do nothing that core 0 depends on. -/
theorem MainAt.frame {workers : Nat} {eu eu' : Eu} {crew : Crew} {past : List EuTask} {core : EuCore}
    (main : MainAt workers eu crew past core) (up : crew ≠ .sleeps) (kept : eu.Kept eu') :
    MainAt workers eu' crew past core := by
  cases main with
  | boot none => exact .boot (kept.nthreads.trans none)
  | idle => exact .idle
  | pushRead => exact .pushRead
  | pushWait => exact .pushWait
  | writeFn | writeData | writeArgc | writeThreads | emptyRead | clearFini | wakeRead | wakeWait | wakeSet
    | alone => exact absurd rfl up
  | among holds many own => exact .among (holds.kept kept) many own
  | emptyWait holds many => exact .emptyWait (holds.kept kept) many
  | reset => exact .reset

theorem MainAt.none_of_boots {workers : Nat} {eu : Eu} {past : List EuTask} {core : EuCore}
    (main : MainAt workers eu .boots past core) : eu.nthreads = 0 := by
  cases main with
  | boot none => exact none

theorem MainAt.past_of_boots {workers : Nat} {eu : Eu} {past : List EuTask} {core : EuCore}
    (main : MainAt workers eu .boots past core) : past = [] := by
  cases main
  rfl

theorem MainAt.calls_of_works {workers : Nat} {eu : Eu} {t : EuTask} {past : List EuTask} {core : EuCore}
    (main : MainAt workers eu (.works t) past core) : core.calls = past ++ [t] := by
  cases main <;> rfl

theorem MainAt.holds_of_works {workers : Nat} {eu : Eu} {t : EuTask} {past : List EuTask} {core : EuCore}
    (main : MainAt workers eu (.works t) past core) : eu.Holds t := by
  cases main with
  | among holds | emptyWait holds => exact holds

theorem EuCore.Rests.finiWeight {ran : List EuCall} {irq : Bool} {core : EuCore} (rests : core.Rests ran irq) :
    core.finiWeight irq = 1 := by
  cases rests <;> rfl

/-- Core 0 goes on in its own part of the task, or comes to its end. -/
theorem OwnAt.step {n : Nat} {next t : EuTask} {done ran : List EuCall} {calls : List EuTask} {pc : EuPc}
    {core : EuCore} {eu eu' : Eu} (own : OwnAt t ran pc) (holds : eu.Holds t) (team : 0 < t.nthreads.toNat)
    (acts : euMain n next ⟨pc,done ++ ran,calls⟩ eu = some (core,eu')) :
    eu' = eu ∧ ((∃ ran' pc', OwnAt t ran' pc' ∧ core = ⟨pc',done ++ ran',calls⟩) ∨ core =
      ⟨if 1 < t.nthreads.toNat then .emptyWait eu.workersInLoop else .reset,done ++ [t.call],calls⟩) := by
  cases own with
  | check =>
    simp only [euMain,holds.nthreads,if_pos team] at acts
    cases acts
    exact ⟨rfl,.inl ⟨_,_,.readFn,rfl⟩⟩
  | readFn =>
    cases acts
    exact ⟨rfl,.inl ⟨_,_,.readData,by rw [holds.fn]⟩⟩
  | readData =>
    cases acts
    exact ⟨rfl,.inl ⟨_,_,.readArgc,by rw [holds.data]⟩⟩
  | readArgc =>
    cases acts
    exact ⟨rfl,.inl ⟨_,_,.run,by rw [holds.argc]⟩⟩
  | run =>
    cases acts
    exact ⟨rfl,.inl ⟨_,_,.done,by rw [List.append_nil]⟩⟩
  | done =>
    cases acts
    exact ⟨rfl,.inr rfl⟩

namespace EuConfig

variable {workers : Nat}

/-- How many workers a weight counts. -/
def count (weight : Fin (workers + 1) → EuCore → Nat) (c : EuConfig workers) : Nat :=
  ∑ i, if i = 0 then 0 else weight i (c.locals i)

def finiWeight (c : EuConfig workers) (i : Fin (workers + 1)) : EuCore → Nat :=
  EuCore.finiWeight (c.shared.irq.getLsbD i)

structure Inv (crew : Crew) (past : List EuTask) (c : EuConfig workers) : Prop where
  main : MainAt workers c.shared crew past (c.locals 0)
  each : ∀ i : Fin (workers + 1), i ≠ 0 → crew.At past i (c.shared.irq.getLsbD i) (c.locals i)
  flag : c.shared.exitFlag = false
  loop : c.shared.workersInLoop = count (fun _ => EuCore.loopWeight) c
  wfi : c.shared.workersWfi = count (fun _ => EuCore.wfiWeight) c
  fini : ∀ t, crew = .works t → c.shared.finiCount = count (finiWeight c) c

theorem count_of_ones {weight : Fin (workers + 1) → EuCore → Nat} {c : EuConfig workers}
    (ones : ∀ i, i ≠ 0 → weight i (c.locals i) = 1) : count weight c = workers := by
  rw [count,Fin.sum_univ_succ,if_pos rfl,Nat.zero_add,
    Finset.sum_congr rfl fun i _ => (if_neg (Fin.succ_ne_zero i)).trans (ones i.succ (Fin.succ_ne_zero i))]
  simp

theorem weight_le_count (weight : Fin (workers + 1) → EuCore → Nat) (c : EuConfig workers)
    {i : Fin (workers + 1)} (worker : i ≠ 0) : weight i (c.locals i) ≤ count weight c := by
  have one := Finset.single_le_sum (f := fun j => if j = 0 then 0 else weight j (c.locals j))
    (fun _ _ => Nat.zero_le _) (Finset.mem_univ i)
  rwa [if_neg worker] at one

theorem ones_of_count (weight : Fin (workers + 1) → EuCore → Nat) {c : EuConfig workers}
    (most : ∀ i core, weight i core ≤ 1) (full : count weight c = workers) {i : Fin (workers + 1)}
    (worker : i ≠ 0) : weight i (c.locals i) = 1 := by
  rw [count,Fin.sum_univ_succ,if_pos rfl,Nat.zero_add,
    Finset.sum_congr rfl fun i _ => if_neg (Fin.succ_ne_zero i)] at full
  have bound : ∀ j ∈ Finset.univ, weight (Fin.succ j) (c.locals j.succ) ≤ 1 := fun j _ => most _ _
  have same : ∑ j : Fin workers, weight j.succ (c.locals j.succ) = ∑ _j : Fin workers, 1 := by simpa using full
  obtain ⟨k,rfl⟩ := Fin.exists_succ_eq.mpr worker
  exact (Finset.sum_eq_sum_iff_of_le bound).mp same k (Finset.mem_univ k)

/-- What core 0 does changes no count of the workers. -/
theorem count_main (weight : Fin (workers + 1) → EuCore → Nat) (c : EuConfig workers) (core : EuCore) (eu : Eu) :
    count weight ⟨Function.update c.locals 0 core,eu⟩ = count weight c := by
  refine Finset.sum_congr rfl fun i _ => ?_
  by_cases main : i = 0
  · rw [if_pos main,if_pos main]
  · rw [if_neg main,if_neg main]
    dsimp only
    rw [Function.update_of_ne main]

theorem count_worker (weight weight' : Fin (workers + 1) → EuCore → Nat) (c : EuConfig workers)
    {i : Fin (workers + 1)} (worker : i ≠ 0) (core : EuCore) (eu : Eu)
    (others : ∀ j, j ≠ i → weight' j = weight j) :
    count weight' ⟨Function.update c.locals i core,eu⟩ + weight i (c.locals i) =
      count weight c + weight' i core := by
  have one := Threads.sum_of_one (a := fun j => if j = 0 then 0 else weight j (c.locals j))
    (b := fun j => if j = 0 then 0 else weight' j (Function.update c.locals i core j)) i fun j apart => by
      rw [Function.update_of_ne apart,others j apart]
  rw [if_neg worker,if_neg worker,Function.update_self] at one
  exact one

theorem loopWeight_le (core : EuCore) : core.loopWeight ≤ 1 := by
  unfold EuCore.loopWeight
  split <;> decide

theorem wfiWeight_le (core : EuCore) : core.wfiWeight ≤ 1 := by
  unfold EuCore.wfiWeight
  split <;> decide

theorem finiWeight_le (irq : Bool) (core : EuCore) : core.finiWeight irq ≤ 1 := by
  unfold EuCore.finiWeight
  split
  · decide
  · split <;> decide
  · decide

/-- A step of a worker. -/
theorem Inv.worker {crew : Crew} {past : List EuTask} {c : EuConfig workers} (inv : Inv crew past c)
    {i : Fin (workers + 1)} (worker : i ≠ 0) {core : EuCore} {eu : Eu}
    (acts : euEventLoop i (c.locals i) c.shared = some (core,eu)) :
    Inv crew past ⟨Function.update c.locals i core,eu⟩ := by
  have counted := EuCore.counted acts
  have at_i := inv.each i worker
  have others : ∀ j : Fin (workers + 1), j ≠ i → eu.irq.getLsbD j = c.shared.irq.getLsbD j := fun j apart =>
    counted.irq j fun same => apart (Fin.ext same)
  have up : crew ≠ .sleeps := by
    rintro rfl
    obtain ⟨quiet,asleep,_⟩ := at_i
    rw [euEventLoop,asleep] at acts
    simp only [quiet] at acts
    cases acts
  have moved : crew.At past i (eu.irq.getLsbD i) core ∧ ∀ t, crew = .works t →
      eu.finiCount + (c.locals i).finiWeight (c.shared.irq.getLsbD i) =
        c.shared.finiCount + core.finiWeight (eu.irq.getLsbD i) := by
    cases crew with
    | boots =>
      refine ⟨?_,fun t same => by cases same⟩
      rcases at_i with boots | rests
      · exact boots.step inv.flag inv.main.none_of_boots acts
      · exact .inr (rests.step acts).1
    | rests => exact ⟨(EuCore.Rests.step at_i acts).1,fun t same => by cases same⟩
    | sleeps => exact absurd rfl up
    | works t =>
      rcases at_i with works | rests
      · have ⟨next,fini⟩ := works.step inv.flag inv.main.holds_of_works acts
        refine ⟨?_,fun _ _ => fini⟩
        rw [Crew.At,due_concat]
        exact next
      · have ⟨next,same,_⟩ := rests.step acts
        exact ⟨.inr next,fun _ _ => by rw [same,rests.finiWeight,next.finiWeight]⟩
  refine ⟨?_,fun j other => ?_,counted.kept.exitFlag.trans inv.flag,?_,?_,fun t works => ?_⟩
  · dsimp only
    rw [Function.update_of_ne worker.symm]
    exact inv.main.frame up counted.kept
  · dsimp only
    by_cases here : j = i
    · subst here
      rw [Function.update_self]
      exact moved.1
    · rw [Function.update_of_ne here,others j here]
      exact inv.each j other
  · have sum := count_worker (fun _ => EuCore.loopWeight) (fun _ => EuCore.loopWeight) c
      worker core eu fun _ _ => rfl
    have loop := counted.loop
    have before := inv.loop
    dsimp only at sum ⊢
    omega
  · have least : (c.locals i).wfiWeight ≤ c.shared.workersWfi :=
      inv.wfi ▸ weight_le_count (fun _ => EuCore.wfiWeight) c worker
    have sum := count_worker (fun _ => EuCore.wfiWeight) (fun _ => EuCore.wfiWeight) c
      worker core eu fun _ _ => rfl
    have wfi := counted.wfi least
    have before := inv.wfi
    dsimp only at sum ⊢
    omega
  · have sum := count_worker (finiWeight c) (finiWeight ⟨Function.update c.locals i core,eu⟩)
      c worker core eu fun j apart => by rw [finiWeight,finiWeight,others j apart]
    have fini := moved.2 t works
    have before := inv.fini t works
    simp only [finiWeight] at sum fini before ⊢
    omega

theorem Inv.main_next {crew crew' : Crew} {past past' : List EuTask} {c : EuConfig workers}
    (inv : Inv crew past c) {core : EuCore} {eu : Eu} (main : MainAt workers eu crew' past' core)
    (each : ∀ i : Fin (workers + 1), i ≠ 0 → crew'.At past' i (eu.irq.getLsbD i) (c.locals i))
    (flag : eu.exitFlag = c.shared.exitFlag) (loop : eu.workersInLoop = c.shared.workersInLoop)
    (wfi : eu.workersWfi = c.shared.workersWfi)
    (fini : ∀ t, crew' = .works t → eu.finiCount = count (finiWeight ⟨c.locals,eu⟩) c) :
    Inv crew' past' ⟨Function.update c.locals 0 core,eu⟩ where
  main := by simpa using main
  each i worker := by
    dsimp only
    rw [Function.update_of_ne worker]
    exact each i worker
  flag := flag.trans inv.flag
  loop := by
    rw [count_main]
    exact loop.trans inv.loop
  wfi := by
    rw [count_main]
    exact wfi.trans inv.wfi
  fini t works := by
    rw [count_main]
    exact fini t works

/-- A step of core 0 that leaves the workers and their counters alone. -/
theorem Inv.main_stays {crew : Crew} {past : List EuTask} {c : EuConfig workers} (inv : Inv crew past c)
    {core : EuCore} {eu : Eu} (main : MainAt workers eu crew past core) (irq : eu.irq = c.shared.irq)
    (flag : eu.exitFlag = c.shared.exitFlag) (loop : eu.workersInLoop = c.shared.workersInLoop)
    (wfi : eu.workersWfi = c.shared.workersWfi)
    (fini : ∀ t, crew = .works t → eu.finiCount = c.shared.finiCount) :
    Inv crew past ⟨Function.update c.locals 0 core,eu⟩ := by
  refine inv.main_next main (fun i worker => irq ▸ inv.each i worker) flag loop wfi fun t works => ?_
  rw [fini t works,inv.fini t works]
  simp only [finiWeight,count,irq]

/-- All workers are in the loop, once they have come to rest for the first time. -/
theorem Inv.all_in_loop {crew : Crew} {past : List EuTask} {c : EuConfig workers} (inv : Inv crew past c)
    (up : crew ≠ .boots) : c.shared.workersInLoop = workers := by
  refine inv.loop.trans (count_of_ones fun i worker => ?_)
  have at_i := inv.each i worker
  generalize c.locals i = core at at_i
  generalize c.shared.irq.getLsbD i = irq at at_i
  cases crew with
  | boots => exact absurd rfl up
  | rests => cases at_i <;> rfl
  | sleeps => rw [EuCore.loopWeight,at_i.2.1,if_neg EuPc.noConfusion]
  | works t =>
    rcases at_i with works | rests
    · cases works <;> rfl
    · cases rests <;> rfl

/-- When as many workers wait as there are, none of them is doing anything else. -/
theorem Inv.all_asleep {crew : Crew} {past : List EuTask} {c : EuConfig workers} (inv : Inv crew past c)
    (quiet : crew = .boots ∨ crew = .rests) (full : c.shared.workersWfi = workers) {i : Fin (workers + 1)}
    (worker : i ≠ 0) : Crew.At past i (c.shared.irq.getLsbD i) (c.locals i) .sleeps := by
  have waits := ones_of_count (fun _ => EuCore.wfiWeight) (fun _ => wfiWeight_le)
    (inv.wfi.symm.trans full) worker
  have at_i := inv.each i worker
  have main := inv.main
  generalize c.locals i = core at at_i waits ⊢
  generalize c.shared.irq.getLsbD i = irq at at_i ⊢
  rcases quiet with rfl | rfl
  · have none : past = [] := by
      generalize c.locals 0 = own at main
      cases main
      rfl
    subst none
    rcases at_i with boots | rests
    · cases boots <;> cases waits
    · cases rests with
      | entering => cases waits
      | asleep => exact ⟨rfl,rfl,rfl⟩
  · cases at_i with
    | entering => cases waits
    | asleep => exact ⟨rfl,rfl,rfl⟩

theorem rests_of_sleeps {past : List EuTask} {i : Nat} {irq : Bool} {core : EuCore}
    (sleeps : Crew.At past i irq core .sleeps) : Crew.At past i irq core .rests := by
  obtain ⟨pc,ran,calls⟩ := core
  obtain ⟨rfl,rfl,rfl⟩ := sleeps
  exact .asleep

/-- The workers are not in the team of a task that is for core 0 alone or for nobody. -/
theorem due_of_few {i : Nat} (worker : i ≠ 0) (past : List EuTask) {t : EuTask} (few : t.nthreads.toNat ≤ 1) :
    due i (past ++ [t]) = due i past := by
  rw [due_concat,if_neg (by omega),List.append_nil]

/-- The workers wake up, one and all. -/
theorem Inv.wakes {past : List EuTask} {c : EuConfig workers} (inv : Inv .sleeps past c) (few : workers + 1 < 32)
    (t : EuTask) {i : Fin (workers + 1)} (worker : i ≠ 0) :
    (c.shared.irq ||| wakeMask (workers + 1)).getLsbD i = true ∧
      (c.locals i).Works i t (due i past) true := by
  refine ⟨?_,?_⟩
  · rw [BitVec.getLsbD_or,wakeMask_getLsbD few]
    have positive : 0 < (i : Nat) := Nat.pos_of_ne_zero fun zero => worker (Fin.ext zero)
    rw [decide_eq_true positive,decide_eq_true i.isLt]
    exact Bool.or_true _
  · have asleep := inv.each i worker
    generalize c.locals i = core at asleep ⊢
    obtain ⟨pc,ran,calls⟩ := core
    obtain ⟨_,rfl,rfl⟩ := asleep
    exact .woken

/-- A step of core 0. -/
theorem Inv.main_step {crew : Crew} {past : List EuTask} {c : EuConfig workers} (inv : Inv crew past c)
    (few : workers + 1 < 32) {next : EuTask} {core : EuCore} {eu : Eu}
    (acts : euMain (workers + 1) next (c.locals 0) c.shared = some (core,eu)) :
    ∃ crew' past', Inv crew' past' ⟨Function.update c.locals 0 core,eu⟩ := by
  have main := inv.main
  generalize c.locals 0 = core0 at main acts
  cases main with
  | boot none =>
    simp only [euMain] at acts
    split at acts
    · rename_i full
      cases acts
      refine ⟨.rests,[],inv.main_next .idle (fun i worker => ?_) rfl rfl rfl fun t works => by cases works⟩
      exact rests_of_sleeps (inv.all_asleep (.inl rfl) (full.trans (Nat.add_sub_cancel workers 1)) worker)
    · cases acts
  | idle =>
    cases acts
    exact ⟨.rests,past,inv.main_stays .pushRead rfl rfl rfl rfl fun _ _ => rfl⟩
  | pushRead =>
    cases acts
    rw [inv.all_in_loop Crew.noConfusion]
    exact ⟨.rests,past,inv.main_stays .pushWait rfl rfl rfl rfl fun _ _ => rfl⟩
  | pushWait =>
    simp only [euMain] at acts
    split at acts
    · rename_i full
      cases acts
      exact ⟨.sleeps,_,inv.main_next .writeFn (fun i worker => inv.all_asleep (.inr rfl) full worker) rfl rfl rfl
        fun t works => by cases works⟩
    · cases acts
  | writeFn =>
    cases acts
    exact ⟨.sleeps,_,inv.main_stays (.writeData rfl) rfl rfl rfl rfl fun _ _ => rfl⟩
  | writeData fn =>
    cases acts
    exact ⟨.sleeps,_,inv.main_stays (.writeArgc fn rfl) rfl rfl rfl rfl fun _ _ => rfl⟩
  | writeArgc fn data =>
    cases acts
    exact ⟨.sleeps,_,inv.main_stays (.writeThreads fn data rfl) rfl rfl rfl rfl fun _ _ => rfl⟩
  | writeThreads fn data argc =>
    cases acts
    exact ⟨.sleeps,_,inv.main_stays (.emptyRead ⟨fn,data,argc,rfl⟩) rfl rfl rfl rfl fun _ _ => rfl⟩
  | @emptyRead _ t holds =>
    cases acts
    by_cases zero : c.shared.nthreads = 0
    · have none : t.nthreads.toNat = 0 := by rw [← holds.nthreads,zero]; rfl
      have idle : due 0 past = due 0 (past ++ [t]) := by
        rw [due_concat,if_neg (by omega),List.append_nil]
      rw [if_pos zero,idle]
      refine ⟨.rests,past ++ [t],inv.main_next .idle (fun i worker => ?_) rfl rfl rfl fun t works => by cases works⟩
      rw [Crew.At,due_of_few (fun zero => worker (Fin.ext zero)) past (by omega)]
      exact rests_of_sleeps (inv.each i worker)
    · rw [if_neg zero,holds.nthreads]
      exact ⟨.sleeps,_,inv.main_stays (.clearFini holds (holds.nthreads ▸ zero)) rfl rfl rfl rfl fun _ _ => rfl⟩
  | @clearFini _ t holds team =>
    cases acts
    have cleared : ({ c.shared with finiCount := 0 } : Eu).Holds t := ⟨holds.fn,holds.data,holds.argc,holds.nthreads⟩
    by_cases many : 1 < t.nthreads.toNat
    · rw [if_pos many]
      exact ⟨.sleeps,_,inv.main_stays (.wakeRead cleared many rfl) rfl rfl rfl rfl fun t works => by cases works⟩
    · rw [if_neg many]
      have positive : t.nthreads.toNat ≠ 0 := fun zero => team (BitVec.eq_of_toNat_eq zero)
      have alone := @MainAt.alone workers _ past t [] _ cleared (by omega) .check
      rw [List.append_nil] at alone
      exact ⟨.sleeps,_,inv.main_stays alone rfl rfl rfl rfl fun t works => by cases works⟩
  | wakeRead holds many clear =>
    cases acts
    rw [inv.all_in_loop Crew.noConfusion]
    exact ⟨.sleeps,_,inv.main_stays (.wakeWait holds many clear) rfl rfl rfl rfl fun _ _ => rfl⟩
  | wakeWait holds many clear =>
    simp only [euMain] at acts
    split at acts
    · cases acts
      exact ⟨.sleeps,_,inv.main_stays (.wakeSet holds many clear) rfl rfl rfl rfl fun _ _ => rfl⟩
    · cases acts
  | @wakeSet _ t holds many clear =>
    cases acts
    have kept : ({ c.shared with irq := c.shared.irq ||| wakeMask (workers + 1) } : Eu).Holds t :=
      ⟨holds.fn,holds.data,holds.argc,holds.nthreads⟩
    have among := @MainAt.among workers _ past t [] _ kept many .check
    rw [List.append_nil] at among
    have wakes := fun (i : Fin (workers + 1)) (worker : i ≠ 0) => inv.wakes few t worker
    refine ⟨.works t,past,inv.main_next among (fun i worker => ?_) rfl rfl rfl fun t' works => ?_⟩
    · rw [(wakes i worker).1]
      exact .inl (wakes i worker).2
    · refine clear.trans (Eq.symm (Finset.sum_eq_zero fun i _ => ?_))
      by_cases worker : i = 0
      · rw [if_pos worker]
      · have ⟨irq,woken⟩ := wakes i worker
        rw [if_neg worker,finiWeight,irq]
        generalize c.locals i = core at woken ⊢
        cases woken <;> rfl
  | @alone _ t ran pc holds one own =>
    obtain ⟨rfl,⟨ran',pc',own',rfl⟩ | rfl⟩ := own.step holds (by omega) acts
    · exact ⟨.sleeps,_,inv.main_stays (.alone holds one own') rfl rfl rfl rfl fun t works => by cases works⟩
    · rw [if_neg (by omega)]
      have all : due 0 past ++ [t.call] = due 0 (past ++ [t]) := by rw [due_concat,if_pos (by omega)]
      rw [all]
      refine ⟨.rests,past ++ [t],inv.main_next .reset (fun i worker => ?_) rfl rfl rfl fun t works => by cases works⟩
      rw [Crew.At,due_of_few (fun zero => worker (Fin.ext zero)) past (by omega)]
      exact rests_of_sleeps (inv.each i worker)
  | @among _ t ran pc holds many own =>
    obtain ⟨rfl,⟨ran',pc',own',rfl⟩ | rfl⟩ := own.step holds (by omega) acts
    · exact ⟨.works t,_,inv.main_stays (.among holds many own') rfl rfl rfl rfl fun _ _ => rfl⟩
    · have all : due 0 past ++ [t.call] = due 0 (past ++ [t]) := by rw [due_concat,if_pos (by omega)]
      rw [if_pos many,all,inv.all_in_loop Crew.noConfusion]
      exact ⟨.works t,_,inv.main_stays (.emptyWait holds many) rfl rfl rfl rfl fun _ _ => rfl⟩
  | @emptyWait _ t holds many =>
    simp only [euMain] at acts
    split at acts
    · rename_i full
      cases acts
      refine ⟨.rests,past ++ [t],inv.main_next .reset (fun i worker => ?_) rfl rfl rfl fun t works => by cases works⟩
      have ends := ones_of_count (finiWeight c) (fun i core => finiWeight_le _ core)
        ((inv.fini t rfl).symm.trans full) worker
      rw [finiWeight] at ends
      have at_i := inv.each i worker
      generalize c.locals i = core at at_i ends ⊢
      generalize c.shared.irq.getLsbD i = irq at at_i ends ⊢
      rcases at_i with works | rests
      · cases works <;> cases ends
      · exact rests
    · cases acts
  | reset =>
    cases acts
    exact ⟨.rests,past,inv.main_stays .idle rfl rfl rfl rfl fun _ _ => rfl⟩

theorem inv_begin (workers : Nat) : Inv .boots [] (euBegin workers) where
  main := .boot rfl
  each i worker := by
    simp only [euBegin,if_neg worker]
    have quiet : (0 : BitVec 32).getLsbD i = false := BitVec.getLsbD_zero
    rw [quiet]
    exact .inl .start
  flag := rfl
  loop := by
    refine Eq.symm (Finset.sum_eq_zero fun i _ => ?_)
    by_cases main : i = 0 <;> simp [euBegin,main,EuCore.loopWeight]
  wfi := by
    refine Eq.symm (Finset.sum_eq_zero fun i _ => ?_)
    by_cases main : i = 0 <;> simp [euBegin,main,EuCore.wfiWeight]
  fini t works := by cases works

theorem reaches_inv (few : workers + 1 < 32) (schedule : List (Fin (workers + 1) × EuTask)) :
    ∃ crew past, Inv crew past ((euThreads workers).exec (euBegin workers) schedule) := by
  refine Threads.exec_rule (fun c => ∃ crew past, Inv crew past c) ⟨.boots,[],inv_begin workers⟩ ?_ schedule
  rintro c i next core eu ⟨crew,past,inv⟩ acts
  by_cases main : i = 0
  · subst main
    exact inv.main_step few acts
  · simp only [euThreads,if_neg main] at acts
    exact ⟨crew,past,inv.worker main acts⟩

/-- What a core has run is what it is due of the tasks that are done, or of these and the current one. -/
theorem Inv.ran {crew : Crew} {past : List EuTask} {c : EuConfig workers} (inv : Inv crew past c)
    (i : Fin (workers + 1)) : (c.locals i).ran = due i past ∨
      ∃ t, (c.locals 0).calls = past ++ [t] ∧ (c.locals i).ran = due i (past ++ [t]) := by
  have main := inv.main
  by_cases own : i = 0
  · subst own
    generalize c.locals 0 = core at main ⊢
    cases main with
    | alone holds one own | among holds many own =>
      cases own with
      | done => exact .inr ⟨_,rfl,by rw [due_concat,if_pos (by simp only [Fin.val_zero]; omega)]; rfl⟩
      | check | readFn | readData | readArgc | run => exact .inl (List.append_nil _)
    | emptyWait => exact .inr ⟨_,rfl,rfl⟩
    | _ => exact .inl rfl
  · have at_i := inv.each i own
    generalize c.locals i = core at at_i ⊢
    generalize c.shared.irq.getLsbD i = irq at at_i
    cases crew with
    | boots =>
      obtain rfl := main.past_of_boots
      rcases at_i with boots | rests
      · cases boots <;> exact .inl rfl
      · cases rests <;> exact .inl rfl
    | rests => cases at_i <;> exact .inl rfl
    | sleeps => exact .inl at_i.2.2
    | works t =>
      rcases at_i with works | rests
      · cases works with
        | fini done =>
          subst done
          exact .inr ⟨t,main.calls_of_works,(due_concat i past t).symm⟩
        | _ => exact .inl rfl
      · cases rests <;> exact .inr ⟨t,main.calls_of_works,rfl⟩

theorem Inv.calls {crew : Crew} {past : List EuTask} {c : EuConfig workers} (inv : Inv crew past c) :
    ((c.locals 0).calls = past ∨ ∃ t, (c.locals 0).calls = past ++ [t]) ∧
      ((c.locals 0).pc = .idle → (c.locals 0).calls = past) := by
  have main := inv.main
  generalize c.locals 0 = core at main ⊢
  cases main with
  | boot | idle | reset => exact ⟨.inl rfl,fun _ => rfl⟩
  | alone _ _ own | among _ _ own =>
    refine ⟨.inr ⟨_,rfl⟩,fun idle => ?_⟩
    cases own <;> cases idle
  | _ => exact ⟨.inr ⟨_,rfl⟩,fun idle => by cases idle⟩

end EuConfig

/-- Every core runs each task whose team it is in once, with the arguments the task was given, in the order
of the calls, and none twice or later: before the current task nothing is missing, and when core 0 is
back from the parallel region nothing is missing at all. -/
theorem event_unit_runs_once {workers : Nat} (few : workers + 1 < 32)
    (schedule : List (Fin (workers + 1) × EuTask)) (i : Fin (workers + 1)) :
    let c := (euThreads workers).exec (euBegin workers) schedule
    (c.locals i).ran <+: due i (c.locals 0).calls ∧ due i (c.locals 0).calls.dropLast <+: (c.locals i).ran ∧
      ((c.locals 0).pc = .idle → (c.locals i).ran = due i (c.locals 0).calls) := by
  intro c
  obtain ⟨crew,past,inv⟩ := EuConfig.reaches_inv few schedule
  obtain ⟨calls,idle⟩ := inv.calls
  refine ⟨?_,?_,fun back => ?_⟩
  · rcases inv.ran i with before | ⟨t,same,all⟩
    · rw [before]
      rcases calls with same | ⟨t,same⟩
      · rw [same]
      · exact due_mono i (same ▸ List.prefix_append _ _)
    · rw [all,same]
  · have front : (c.locals 0).calls.dropLast <+: past := by
      rcases calls with same | ⟨t,same⟩
      · exact same ▸ List.dropLast_prefix _
      · rw [same,List.dropLast_concat]
    refine (due_mono i front).trans ?_
    rcases inv.ran i with before | ⟨t,_,all⟩
    · rw [before]
    · exact all ▸ due_mono i (List.prefix_append _ _)
  · have same := idle back
    rcases inv.ran i with before | ⟨t,other,_⟩
    · rw [before,same]
    · exact absurd (other.symm.trans same) (by simp)

/-- A worker and core 0 in a region for both. -/
theorem event_unit_runs_once_pair :
    let c := (euThreads 1).exec (euBegin 1)
      [(1,⟨⟨0,0,0⟩,0⟩),(1,⟨⟨0,0,0⟩,0⟩),(1,⟨⟨0,0,0⟩,0⟩),(1,⟨⟨0,0,0⟩,0⟩),(1,⟨⟨0,0,0⟩,0⟩),(0,⟨⟨0,0,0⟩,0⟩),
        (0,⟨⟨7,8,1⟩,2⟩)]
    (c.locals 1).ran <+: due 1 (c.locals 0).calls ∧ due 1 (c.locals 0).calls.dropLast <+: (c.locals 1).ran ∧
      ((c.locals 0).pc = .idle → (c.locals 1).ran = due 1 (c.locals 0).calls) :=
  event_unit_runs_once (by decide) _ 1

end Snax
