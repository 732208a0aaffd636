import Snax.Sync.Lock
import Snax.Sync.Threads

/-! The data mover of the runtime: clients put transfers into a queue of four tasks in the shared memory,
the data mover core takes them out, starts them on the DMA and answers requests about it. Every step
is one access to the memory, to the DMA or to the interrupt register, and the steps of the cores come
in any order; the DMA completes the transfers it has been given in any order. -/
namespace Snax

open Sync (Locked LockMove Machine)

/-- The words of a `dm_task_t`. -/
inductive DmWord
  | srcLow
  | srcHigh
  | dstLow
  | dstHigh
  | size
  | sstrd
  | dstrd
  | nreps
  | cfg
  | twod
  deriving DecidableEq

abbrev DmSlot := DmWord → BitVec 32

/-- `__builtin_sdma_start_oned` and `__builtin_sdma_start_twod` with their arguments. -/
inductive DmTransfer
  | oned (src dst : BitVec 64) (size cfg : BitVec 32)
  | twod (src dst : BitVec 64) (size sstrd dstrd nreps cfg : BitVec 32)
  deriving DecidableEq

/-- The commands of `stat_q`; `none` is no command, and `STAT_EXIT` is left out. -/
inductive DmStat
  | waitIdle
  | ready
  deriving DecidableEq

/-- What a core calls. The pointers of `dm_memcpy_async` are given as they are widened. -/
inductive DmCall
  | memcpyAsync (dest src : BitVec 64) (n : BitVec 32)
  | memcpy2dAsync (src dst : BitVec 64) (size sstrd dstrd nreps cfg : BitVec 32)
  | start
  | wait
  | waitReady
  deriving DecidableEq

/-- `dm_t`, with the interrupt of the data mover core and the DMA. `pushed` and `started` are the tasks that
have been counted in and the transfers that have been started, `outstanding` the numbers of the
transfers that are not complete. -/
structure Dm where
  queue : Nat → DmSlot
  queueBack : Nat
  queueFront : Nat
  queueFill : Nat
  mutex : Bool
  statQ : Option DmStat
  statPvalid : Bool
  dmWfi : Nat
  irq : Bool
  pushed : List DmTransfer
  started : List DmTransfer
  outstanding : List Nat

/-- `DM_TASK_QUEUE_SIZE` -/
def dmTaskQueueSize : Nat := 4

/-- What a core goes on with after `wake_dm`. -/
inductive DmWake
  | start
  | poll (called : Nat)
  | answer (r : DmStat) (called : Nat)
  deriving DecidableEq

/-- Where a client is. `called` is the number of tasks counted in when `dm_wait` was called. -/
inductive DmPc
  | idle
  | poll (t : DmTransfer)
  | lock (t : DmTransfer)
  | readFront (t : DmTransfer)
  | insert (t : DmTransfer) (slot : Nat) (rest : List (DmWord × BitVec 32))
  | readBump
  | bumpFront (front : Nat)
  | release
  | wakeWait (k : DmWake)
  | wakeSet (k : DmWake)
  | waitFill (called : Nat)
  | waitStat (called : Nat)
  | waitLock (r : DmStat) (called : Nat)
  | clearValid (r : DmStat) (called : Nat)
  | request (r : DmStat) (called : Nat)
  | waitValid (r : DmStat) (called : Nat)
  | waitRelease (called : Nat)
  deriving DecidableEq

/-- A client: where it is, and how many of the tasks its `dm_wait`s have covered. -/
structure DmClient where
  pc : DmPc
  waited : Nat
  deriving DecidableEq

/-- Where the data mover is in `dm_main`, with `wfi_dm` inlined. -/
inductive DmMoverPc
  | top
  | wouldBlock
  | readBack
  | readTwod (slot : Nat)
  | readWords (slot : Nat) (todo : List DmWord) (t : DmSlot)
  | bumpBack
  | decFill
  | statCheck
  | statSwitch
  | idleCheck
  | setValid (r : DmStat)
  | clearStat
  | sleepFill
  | sleepStat
  | wfiEnter
  | wfi
  | wfiClear
  | wfiLeave

namespace DmTransfer

/-- The stores of `dm_memcpy_async` and `dm_memcpy2d_async`, in their order. -/
def stores : DmTransfer → List (DmWord × BitVec 32)
  | .oned src dst size cfg =>
    [(.srcLow,src.extractLsb' 0 32),(.srcHigh,src.extractLsb' 32 32),(.dstLow,dst.extractLsb' 0 32),
      (.dstHigh,dst.extractLsb' 32 32),(.size,size),(.twod,0),(.cfg,cfg)]
  | .twod src dst size sstrd dstrd nreps cfg =>
    [(.srcLow,src.extractLsb' 0 32),(.srcHigh,src.extractLsb' 32 32),(.dstLow,dst.extractLsb' 0 32),
      (.dstHigh,dst.extractLsb' 32 32),(.size,size),(.sstrd,sstrd),(.dstrd,dstrd),(.nreps,nreps),
      (.twod,1),(.cfg,cfg)]

/-- The members that are read for the arguments. -/
def reads (twod : BitVec 32) : List DmWord :=
  if twod ≠ 0 then [.srcLow,.srcHigh,.dstLow,.dstHigh,.size,.sstrd,.dstrd,.nreps,.cfg]
  else [.srcLow,.srcHigh,.dstLow,.dstHigh,.size,.cfg]

def ofSlot (t : DmSlot) : DmTransfer :=
  let src := t .srcHigh ++ t .srcLow
  let dst := t .dstHigh ++ t .dstLow
  if t .twod ≠ 0 then .twod src dst (t .size) (t .sstrd) (t .dstrd) (t .nreps) (t .cfg)
  else .oned src dst (t .size) (t .cfg)

end DmTransfer

/-- One step of a client. -/
def dmClient (call : DmCall) (c : DmClient) (dm : Dm) : Option (DmClient × Dm) :=
  match c.pc with
  | .idle =>
    match call with
    | .memcpyAsync dest src n => some ({ c with pc := .poll (.oned src dest n 0) },dm)
    | .memcpy2dAsync src dst size sstrd dstrd nreps cfg =>
      some ({ c with pc := .poll (.twod src dst size sstrd dstrd nreps cfg) },dm)
    | .start => some ({ c with pc := .wakeWait .start },dm)
    | .wait => some ({ c with pc := .wakeWait (.poll dm.pushed.length) },dm)
    | .waitReady => some ({ c with pc := .waitLock .ready 0 },dm)
  | .poll t => if dm.queueFill < dmTaskQueueSize then some ({ c with pc := .lock t },dm) else none
  | .lock t => if dm.mutex then none else some ({ c with pc := .readFront t },{ dm with mutex := true })
  | .readFront t => some ({ c with pc := .insert t dm.queueFront t.stores },dm)
  | .insert t slot ((w,v) :: rest) =>
    some ({ c with pc := .insert t slot rest },
      { dm with queue := Function.update dm.queue slot (Function.update (dm.queue slot) w v) })
  | .insert t _ [] =>
    some ({ c with pc := .readBump },{ dm with queueFill := dm.queueFill + 1, pushed := dm.pushed ++ [t] })
  | .readBump => some ({ c with pc := .bumpFront dm.queueFront },dm)
  | .bumpFront front =>
    some ({ c with pc := .release },{ dm with queueFront := (front + 1) % dmTaskQueueSize })
  | .release => some ({ c with pc := .idle },{ dm with mutex := false })
  | .wakeWait k => if dm.dmWfi ≠ 0 then some ({ c with pc := .wakeSet k },dm) else none
  | .wakeSet .start => some ({ c with pc := .idle },{ dm with irq := true })
  | .wakeSet (.poll called) => some ({ c with pc := .waitFill called },{ dm with irq := true })
  | .wakeSet (.answer r called) => some ({ c with pc := .waitValid r called },{ dm with irq := true })
  | .waitFill called => if dm.queueFill = 0 then some ({ c with pc := .waitStat called },dm) else none
  | .waitStat called =>
    if dm.statQ = none then some ({ c with pc := .waitLock .waitIdle called },dm) else none
  | .waitLock r called =>
    if dm.mutex then none else some ({ c with pc := .clearValid r called },{ dm with mutex := true })
  | .clearValid r called => some ({ c with pc := .request r called },{ dm with statPvalid := false })
  | .request r called => some ({ c with pc := .wakeWait (.answer r called) },{ dm with statQ := some r })
  | .waitValid _ called => if dm.statPvalid then some ({ c with pc := .waitRelease called },dm) else none
  | .waitRelease called => some (⟨.idle,max c.waited called⟩,{ dm with mutex := false })

/-- One step of the data mover; `blocked` is the answer of `DM_STATUS_WOULD_BLOCK`. Nobody else writes
`queue_back`, so that its bump is one step. -/
def dmMain (blocked : Bool) (pc : DmMoverPc) (dm : Dm) : Option (DmMoverPc × Dm) :=
  match pc with
  | .top => some (if dm.queueFill ≠ 0 then .wouldBlock else .statCheck,dm)
  | .wouldBlock => if blocked then none else some (.readBack,dm)
  | .readBack => some (.readTwod dm.queueBack,dm)
  | .readTwod slot =>
    let twod := dm.queue slot .twod
    some (.readWords slot (DmTransfer.reads twod) (Function.update (fun _ => 0) .twod twod),dm)
  | .readWords slot (w :: todo) t =>
    some (.readWords slot todo (Function.update t w (dm.queue slot w)),dm)
  | .readWords _ [] t =>
    some (.bumpBack,{ dm with
      started := dm.started ++ [.ofSlot t], outstanding := dm.outstanding ++ [dm.started.length] })
  | .bumpBack => some (.decFill,{ dm with queueBack := (dm.queueBack + 1) % dmTaskQueueSize })
  | .decFill => some (.statCheck,{ dm with queueFill := dm.queueFill - 1 })
  | .statCheck => some (if dm.statQ ≠ none then .statSwitch else .sleepFill,dm)
  | .statSwitch =>
    match dm.statQ with
    | some .waitIdle => some (.idleCheck,dm)
    | some .ready => some (.setValid .ready,dm)
    | none => some (.sleepFill,dm)
  | .idleCheck => some (if dm.outstanding = [] then .setValid .waitIdle else .sleepFill,dm)
  | .setValid _ => some (.clearStat,{ dm with statPvalid := true })
  | .clearStat => some (.sleepFill,{ dm with statQ := none })
  | .sleepFill => some (if dm.queueFill = 0 then .sleepStat else .top,dm)
  | .sleepStat => some (if dm.statQ = none then .wfiEnter else .top,dm)
  | .wfiEnter => some (.wfi,{ dm with dmWfi := dm.dmWfi + 1 })
  | .wfi => if dm.irq then some (.wfiClear,dm) else none
  | .wfiClear => some (.wfiLeave,{ dm with irq := false })
  | .wfiLeave => some (.top,{ dm with dmWfi := dm.dmWfi - 1 })

structure DmState (n : Nat) where
  clients : Fin n → DmClient
  mover : DmMoverPc
  dm : Dm

inductive DmEvent (n : Nat)
  | client (i : Fin n) (call : DmCall)
  | mover (blocked : Bool)
  | complete (k : Nat)

namespace DmState

variable {n : Nat}

/-- A core that has to wait does nothing in its step. -/
def next (s : DmState n) : DmEvent n → DmState n
  | .client i call =>
    match dmClient call (s.clients i) s.dm with
    | some (c,dm) => { s with clients := Function.update s.clients i c, dm }
    | none => s
  | .mover blocked =>
    match dmMain blocked s.mover s.dm with
    | some (mover,dm) => { s with mover, dm }
    | none => s
  | .complete k => { s with dm := { s.dm with outstanding := s.dm.outstanding.erase k } }

def machine (n : Nat) : Machine (DmState n) (DmEvent n) Unit where
  next := next
  out _ _ := ()

/-- After `dm_init`, which clears the struct; the interrupt may be pending. -/
def init (irq : Bool) : DmState n :=
  ⟨fun _ => ⟨.idle,0⟩,.top,⟨fun _ _ => 0,0,0,0,false,none,false,0,irq,[],[],[]⟩⟩

abbrev run (irq : Bool) (events : List (DmEvent n)) : DmState n := (machine n).exec (init irq) events

/-- The rule of a step: what holds of the state and of it after every step that can be taken. -/
theorem next_cases {motive : DmState n → Prop} (s : DmState n) (e : DmEvent n) (waits : motive s)
    (client : ∀ i call c dm, dmClient call (s.clients i) s.dm = some (c,dm) →
      motive ⟨Function.update s.clients i c,s.mover,dm⟩)
    (mover : ∀ blocked pc dm, dmMain blocked s.mover s.dm = some (pc,dm) → motive ⟨s.clients,pc,dm⟩)
    (complete : ∀ k, motive ⟨s.clients,s.mover,{ s.dm with outstanding := s.dm.outstanding.erase k }⟩) :
    motive (s.next e) := by
  cases e with
  | client i call =>
    cases taken : dmClient call (s.clients i) s.dm with
    | none => simpa only [next,taken] using waits
    | some step => simpa only [next,taken] using client i call _ _ taken
  | mover blocked =>
    cases taken : dmMain blocked s.mover s.dm with
    | none => simpa only [next,taken] using waits
    | some step => simpa only [next,taken] using mover blocked _ _ taken
  | complete k => exact complete k

end DmState

namespace DmPc

/-- The client is between taking the mutex and giving it back. -/
def holds : DmPc → Bool
  | .readFront _ | .insert .. | .readBump | .bumpFront _ | .release | .clearValid .. | .request ..
  | .wakeWait (.answer ..) | .wakeSet (.answer ..) | .waitValid .. | .waitRelease _ => true
  | _ => false

/-- The client has made request `r` and has not seen the answer. -/
def asks : DmPc → Option (DmStat × Nat)
  | .wakeWait (.answer r called) | .wakeSet (.answer r called) | .waitValid r called => some (r,called)
  | _ => none

theorem holds_of_asks {pc : DmPc} {r : DmStat × Nat} (asks : pc.asks = some r) : pc.holds = true := by
  unfold DmPc.asks at asks
  split at asks <;> first | rfl | cases asks

end DmPc

variable {call : DmCall} {blocked : Bool} {c c' : DmClient} {dm dm' : Dm} {pc pc' : DmMoverPc}

theorem dmClient_lock (acts : dmClient call c dm = some (c',dm')) :
    LockMove c.pc.holds c'.pc.holds dm.mutex dm'.mutex := by
  obtain ⟨pc,waited⟩ := c
  cases pc with
  | idle => cases call <;> cases acts <;> exact .keep
  | poll | waitFill | waitStat | waitValid =>
    simp only [dmClient] at acts
    split at acts
    · cases acts
      exact .keep
    · cases acts
  | lock | waitLock =>
    simp only [dmClient] at acts
    split at acts
    · cases acts
    · cases acts
      have free : dm.mutex = false := by simpa using ‹¬dm.mutex = true›
      exact free ▸ .take
  | insert t slot rest => cases rest <;> cases acts <;> exact .keep
  | wakeWait k =>
    simp only [dmClient] at acts
    split at acts
    · cases acts
      cases k <;> exact .keep
    · cases acts
  | wakeSet k => cases k <;> cases acts <;> exact .keep
  | release | waitRelease => cases acts; exact .give
  | _ => cases acts; exact .keep

/-- What the data mover leaves as it is. -/
structure Dm.Kept (dm dm' : Dm) : Prop where
  queue : dm'.queue = dm.queue
  queueFront : dm'.queueFront = dm.queueFront
  mutex : dm'.mutex = dm.mutex
  pushed : dm'.pushed = dm.pushed

theorem dmMain_kept (acts : dmMain blocked pc dm = some (pc',dm')) : dm.Kept dm' := by
  cases pc with
  | wouldBlock | wfi =>
    simp only [dmMain] at acts
    split at acts <;> cases acts
    exact ⟨rfl,rfl,rfl,rfl⟩
  | readWords slot todo t => cases todo <;> cases acts <;> exact ⟨rfl,rfl,rfl,rfl⟩
  | statSwitch =>
    simp only [dmMain] at acts
    split at acts <;> cases acts <;> exact ⟨rfl,rfl,rfl,rfl⟩
  | _ => cases acts; exact ⟨rfl,rfl,rfl,rfl⟩

namespace DmState

variable {n : Nat}

/-- The clients that are inside. -/
def inside (s : DmState n) (i : Fin n) : Bool := (s.clients i).pc.holds

theorem inside_update (s : DmState n) (i : Fin n) (c : DmClient) (mover : DmMoverPc) (dm : Dm) :
    inside ⟨Function.update s.clients i c,mover,dm⟩ = Function.update s.inside i c.pc.holds := by
  funext j
  by_cases own : j = i
  · subst own
    simp [inside]
  · simp [inside,own]

theorem locked_step (s : DmState n) (e : DmEvent n) (locked : Locked s.inside s.dm.mutex) :
    Locked (s.next e).inside (s.next e).dm.mutex := by
  apply next_cases (motive := fun s' => Locked s'.inside s'.dm.mutex) s e locked
  · intro i call c dm acts
    rw [inside_update]
    exact locked.move (dmClient_lock acts)
  · intro blocked pc dm acts
    exact (dmMain_kept acts).mutex ▸ locked
  · intro k
    exact locked

end DmState

namespace DmPc

/-- The client has found room in the queue for a task that it has not counted in. -/
def passed : DmPc → Nat
  | .lock _ | .readFront _ | .insert .. => 1
  | _ => 0

theorem passed_le (pc : DmPc) : pc.passed ≤ 1 := by
  unfold passed
  split <;> decide

end DmPc

/-- What a client's step does to the queue's counters and to the DMA: it may count in one task. -/
structure Dm.Counted (dm dm' : Dm) : Prop where
  started : dm'.started = dm.started
  outstanding : dm'.outstanding = dm.outstanding
  queueBack : dm'.queueBack = dm.queueBack
  pushed : dm.pushed <+: dm'.pushed
  fill : dm'.queueFill + dm.pushed.length = dm.queueFill + dm'.pushed.length

theorem dmClient_counted (acts : dmClient call c dm = some (c',dm')) : dm.Counted dm' := by
  have keep : dm.Counted dm := ⟨rfl,rfl,rfl,List.prefix_rfl,rfl⟩
  obtain ⟨pc,waited⟩ := c
  cases pc with
  | idle => cases call <;> cases acts <;> exact keep
  | poll | lock | waitFill | waitStat | waitLock | waitValid | wakeWait =>
    simp only [dmClient] at acts
    split at acts <;> cases acts
    all_goals first | exact keep | exact ⟨rfl,rfl,rfl,List.prefix_rfl,rfl⟩
  | insert t slot rest =>
    cases rest with
    | nil =>
      cases acts
      refine ⟨rfl,rfl,rfl,List.prefix_append ..,?_⟩
      simp only [List.length_append,List.length_cons,List.length_nil]
      omega
    | cons store rest => cases acts; exact ⟨rfl,rfl,rfl,List.prefix_rfl,rfl⟩
  | wakeSet k => cases k <;> cases acts <;> exact ⟨rfl,rfl,rfl,List.prefix_rfl,rfl⟩
  | _ => cases acts; exact ⟨rfl,rfl,rfl,List.prefix_rfl,rfl⟩

/-- A client is let past the queue's size while there is room, and counts the task in later. -/
theorem dmClient_passed (acts : dmClient call c dm = some (c',dm')) :
    dm'.queueFill + c'.pc.passed = dm.queueFill + c.pc.passed ∨
      (dm'.queueFill = dm.queueFill ∧ dm.queueFill < dmTaskQueueSize) := by
  obtain ⟨pc,waited⟩ := c
  cases pc with
  | idle => cases call <;> cases acts <;> exact .inl rfl
  | poll =>
    simp only [dmClient] at acts
    split at acts <;> cases acts
    exact .inr ⟨rfl,‹_›⟩
  | lock | waitFill | waitStat | waitLock | waitValid | wakeWait =>
    simp only [dmClient] at acts
    split at acts <;> cases acts
    exact .inl rfl
  | insert t slot rest => cases rest <;> cases acts <;> exact .inl rfl
  | wakeSet k => cases k <;> cases acts <;> exact .inl rfl
  | _ => cases acts; exact .inl rfl

namespace DmMoverPc

/-- The data mover has seen a task that it has not started. -/
def reading : DmMoverPc → Nat
  | .wouldBlock | .readBack | .readTwod _ | .readWords .. => 1
  | _ => 0

/-- The data mover has started a task that it has not counted out. -/
def counting : DmMoverPc → Nat
  | .bumpBack | .decFill => 1
  | _ => 0

end DmMoverPc

/-- How the queue's counter and the tasks agree. -/
structure Dm.Counts (dm : Dm) (pc : DmMoverPc) : Prop where
  fill : dm.queueFill + dm.started.length = dm.pushed.length + pc.counting
  ahead : dm.started.length + pc.reading ≤ dm.pushed.length

theorem Dm.Counts.client (counts : dm.Counts pc) (counted : dm.Counted dm') : dm'.Counts pc := by
  have more := counted.pushed.length_le
  have fill := counted.fill
  refine ⟨?_,?_⟩
  · rw [counted.started]
    have := counts.fill
    omega
  · rw [counted.started]
    exact counts.ahead.trans more

theorem Dm.Counts.mover (counts : dm.Counts pc) (acts : dmMain blocked pc dm = some (pc',dm')) :
    dm'.Counts pc' := by
  obtain ⟨fill,ahead⟩ := counts
  cases pc with
  | top =>
    cases acts
    by_cases some : dm.queueFill ≠ 0
    · rw [if_pos some]
      simp only [DmMoverPc.counting,DmMoverPc.reading] at fill ahead
      refine ⟨fill,?_⟩
      simp only [DmMoverPc.reading]
      omega
    · rw [if_neg some]
      exact ⟨fill,ahead⟩
  | wouldBlock | wfi =>
    simp only [dmMain] at acts
    split at acts <;> cases acts
    exact ⟨fill,ahead⟩
  | readWords slot todo t =>
    cases todo with
    | nil =>
      cases acts
      simp only [DmMoverPc.counting,DmMoverPc.reading] at fill ahead
      refine ⟨?_,?_⟩
      · simp only [DmMoverPc.counting,List.length_append,List.length_cons,List.length_nil]
        omega
      · simp only [DmMoverPc.reading,List.length_append,List.length_cons,List.length_nil]
        omega
    | cons w todo => cases acts; exact ⟨fill,ahead⟩
  | decFill =>
    cases acts
    simp only [DmMoverPc.counting,DmMoverPc.reading] at fill ahead
    refine ⟨?_,ahead⟩
    simp only [DmMoverPc.counting]
    omega
  | statSwitch =>
    simp only [dmMain] at acts
    split at acts <;> cases acts <;> exact ⟨fill,ahead⟩
  | statCheck | idleCheck | sleepFill | sleepStat =>
    simp only [dmMain] at acts
    split at acts <;> cases acts <;> exact ⟨fill,ahead⟩
  | _ => cases acts; exact ⟨fill,ahead⟩

/-- The data mover only takes from the queue's counter. -/
theorem dmMain_fill (acts : dmMain blocked pc dm = some (pc',dm')) : dm'.queueFill ≤ dm.queueFill := by
  cases pc with
  | wouldBlock | wfi | statSwitch =>
    simp only [dmMain] at acts
    split at acts <;> cases acts <;> exact le_rfl
  | readWords slot todo t => cases todo <;> cases acts <;> exact le_rfl
  | decFill => cases acts; exact Nat.sub_le ..
  | _ => cases acts; exact le_rfl

namespace DmState

variable {n : Nat}

theorem counts_step (s : DmState n) (e : DmEvent n) (counts : s.dm.Counts s.mover) :
    (s.next e).dm.Counts (s.next e).mover := by
  apply next_cases (motive := fun s' => s'.dm.Counts s'.mover) s e counts
  · intro i call c dm acts
    exact counts.client (dmClient_counted acts)
  · intro blocked pc dm acts
    exact counts.mover acts
  · intro k
    exact ⟨counts.fill,counts.ahead⟩

/-- The tasks in the queue, and those for which a client has found room. -/
def claimed (s : DmState n) : Nat := s.dm.queueFill + ∑ i, (s.clients i).pc.passed

theorem claimed_step (s : DmState n) (e : DmEvent n) (few : s.claimed ≤ 3 + n) : (s.next e).claimed ≤ 3 + n := by
  apply next_cases (motive := fun s' => s'.claimed ≤ 3 + n) s e few
  · intro i call c dm acts
    have sum := Sync.Threads.sum_update (fun c : DmClient => c.pc.passed) s.clients i c
    rcases dmClient_passed acts with same | ⟨same,room⟩
    · simp only [claimed] at few ⊢
      omega
    · have most : ∑ j, (Function.update s.clients i c j).pc.passed ≤ n := by
        have each := Finset.sum_le_card_nsmul Finset.univ
          (fun j => (Function.update s.clients i c j).pc.passed) 1 fun j _ => DmPc.passed_le _
        simpa using each
      simp only [claimed,dmTaskQueueSize] at room ⊢
      omega
  · intro blocked pc dm acts
    exact (Nat.add_le_add_right (dmMain_fill acts) _).trans few
  · intro k
    exact few

end DmState

/-- A step of the data mover that neither answers a request nor clears it. -/
structure DmQuiet (pc pc' : DmMoverPc) (dm dm' : Dm) : Prop where
  apart : ∀ r, pc ≠ .setValid r
  clear : pc ≠ .clearStat
  statQ : dm'.statQ = dm.statQ
  statPvalid : dm'.statPvalid = dm.statPvalid
  idle : pc' = .idleCheck → dm.statQ = some .waitIdle
  valid : ∀ r, pc' = .setValid r →
    (dm.statQ = some r ∧ r = .ready) ∨ (pc = .idleCheck ∧ r = .waitIdle ∧ dm'.outstanding = [])

theorem dmMain_stat (acts : dmMain blocked pc dm = some (pc',dm')) :
    (∃ r, pc = .setValid r ∧ pc' = .clearStat ∧ dm' = { dm with statPvalid := true }) ∨
      (pc = .clearStat ∧ pc' = .sleepFill ∧ dm' = { dm with statQ := none }) ∨ DmQuiet pc pc' dm dm' := by
  cases pc with
  | wouldBlock | wfi =>
    simp only [dmMain] at acts
    split at acts <;> cases acts
    exact .inr (.inr ⟨nofun,nofun,rfl,rfl,nofun,nofun⟩)
  | top | statCheck | sleepFill | sleepStat =>
    simp only [dmMain] at acts
    split at acts <;> cases acts <;> exact .inr (.inr ⟨nofun,nofun,rfl,rfl,nofun,nofun⟩)
  | readWords slot todo t =>
    cases todo <;> cases acts <;> exact .inr (.inr ⟨nofun,nofun,rfl,rfl,nofun,nofun⟩)
  | statSwitch =>
    simp only [dmMain] at acts
    split at acts <;> cases acts
    · exact .inr (.inr ⟨nofun,nofun,rfl,rfl,fun _ => ‹_›,nofun⟩)
    · exact .inr (.inr ⟨nofun,nofun,rfl,rfl,nofun,fun r here => by cases here; exact .inl ⟨‹_›,rfl⟩⟩)
    · exact .inr (.inr ⟨nofun,nofun,rfl,rfl,nofun,nofun⟩)
  | idleCheck =>
    simp only [dmMain] at acts
    split at acts <;> cases acts
    · exact .inr (.inr ⟨nofun,nofun,rfl,rfl,nofun,fun r here => by cases here; exact .inr ⟨rfl,rfl,‹_›⟩⟩)
    · exact .inr (.inr ⟨nofun,nofun,rfl,rfl,nofun,nofun⟩)
  | setValid r => cases acts; exact .inl ⟨r,rfl,rfl,rfl⟩
  | clearStat => cases acts; exact .inr (.inl ⟨rfl,rfl,rfl⟩)
  | _ => cases acts; exact .inr (.inr ⟨nofun,nofun,rfl,rfl,nofun,nofun⟩)

/-- The first `k` transfers have been started and are complete. -/
def Dm.Complete (dm : Dm) (k : Nat) : Prop := k ≤ dm.started.length ∧ ∀ j < k, j ∉ dm.outstanding

/-- What a request is made for: `dm_wait_ready` waits for nothing. -/
def Dm.Due (dm : Dm) (r : DmStat) (called : Nat) : Prop :=
  called ≤ dm.started.length ∧ (r = .ready → called = 0)

/-- What a client in `dm_wait` or `dm_wait_ready` knows. -/
def DmPc.Knows (dm : Dm) : DmPc → Prop
  | .wakeWait (.poll called) | .wakeSet (.poll called) | .waitFill called => called ≤ dm.pushed.length
  | .waitStat called => called ≤ dm.started.length
  | .waitLock r called | .clearValid r called => dm.Due r called
  | .request r called => dm.Due r called ∧ dm.statPvalid = false
  | .wakeWait (.answer r called) | .wakeSet (.answer r called) | .waitValid r called =>
    dm.Due r called ∧ (dm.statPvalid = true → dm.Complete called)
  | .waitRelease called => dm.Complete called
  | _ => True

/-- What does not take anything back: no transfer, and no answer but a new one. -/
structure Dm.Later (dm dm' : Dm) : Prop where
  pushed : dm.pushed.length ≤ dm'.pushed.length
  started : dm.started.length ≤ dm'.started.length
  complete : ∀ k, dm.Complete k → dm'.Complete k
  valid : dm'.statPvalid = true → dm.statPvalid = true

theorem Dm.Due.later {r : DmStat} {called : Nat} (due : dm.Due r called) (later : dm.Later dm') :
    dm'.Due r called :=
  ⟨due.1.trans later.started,due.2⟩

theorem DmPc.Knows.later {pc : DmPc} (knows : pc.Knows dm) (later : dm.Later dm') : pc.Knows dm' := by
  have still : dm.statPvalid = false → dm'.statPvalid = false := fun invalid =>
    Bool.eq_false_iff.mpr fun valid => absurd (later.valid valid) (Bool.eq_false_iff.mp invalid)
  cases pc with
  | wakeWait k | wakeSet k =>
    cases k with
    | start => trivial
    | poll called => exact Nat.le_trans knows later.pushed
    | answer r called => exact ⟨knows.1.later later,fun valid => later.complete _ (knows.2 (later.valid valid))⟩
  | waitFill called => exact Nat.le_trans knows later.pushed
  | waitStat called => exact Nat.le_trans knows later.started
  | waitLock | clearValid => exact Dm.Due.later knows later
  | request => exact ⟨knows.1.later later,still knows.2⟩
  | waitValid => exact ⟨knows.1.later later,fun valid => later.complete _ (knows.2 (later.valid valid))⟩
  | waitRelease => exact later.complete _ knows
  | _ => trivial

theorem dmClient_later (acts : dmClient call c dm = some (c',dm')) : dm.Later dm' := by
  have counted := dmClient_counted acts
  refine ⟨counted.pushed.length_le,counted.started ▸ le_rfl,fun k complete => ?_,?_⟩
  · unfold Dm.Complete
    rw [counted.started,counted.outstanding]
    exact complete
  · obtain ⟨pc,waited⟩ := c
    cases pc with
    | idle => cases call <;> cases acts <;> exact id
    | poll | lock | waitFill | waitStat | waitLock | waitValid | wakeWait =>
      simp only [dmClient] at acts
      split at acts <;> cases acts
      exact id
    | insert t slot rest => cases rest <;> cases acts <;> exact id
    | wakeSet k => cases k <;> cases acts <;> exact id
    | clearValid => cases acts; exact fun valid => absurd valid Bool.false_ne_true
    | _ => cases acts; exact id

theorem dmMain_later (acts : dmMain blocked pc dm = some (pc',dm')) (quiet : ∀ r, pc ≠ .setValid r) :
    dm.Later dm' := by
  have keep : dm.Later dm := ⟨le_rfl,le_rfl,fun _ => id,id⟩
  cases pc with
  | wouldBlock | wfi | statSwitch =>
    simp only [dmMain] at acts
    split at acts <;> cases acts <;> exact keep
  | readWords slot todo t =>
    cases todo with
    | nil =>
      cases acts
      refine ⟨le_rfl,?_,?_,id⟩
      · simp
      · rintro k ⟨first,done⟩
        refine ⟨?_,fun j inside => ?_⟩
        · simp only [List.length_append]
          omega
        · simp only [List.mem_append,List.mem_singleton,not_or]
          exact ⟨done j inside,by omega⟩
    | cons w todo => cases acts; exact keep
  | setValid r => exact absurd rfl (quiet r)
  | _ => cases acts; exact ⟨le_rfl,le_rfl,fun _ => id,id⟩

/-- What a client knows after its own step. -/
theorem dmClient_knows (acts : dmClient call c dm = some (c',dm')) (knows : c.pc.Knows dm)
    (counts : dm.Counts pc) : c'.pc.Knows dm' := by
  obtain ⟨own,waited⟩ := c
  cases own with
  | idle =>
    cases call <;> cases acts
    all_goals first | trivial | exact le_rfl | exact ⟨Nat.zero_le _,fun _ => rfl⟩
  | poll | lock =>
    simp only [dmClient] at acts
    split at acts <;> cases acts
    trivial
  | insert t slot rest => cases rest <;> cases acts <;> trivial
  | wakeWait k =>
    simp only [dmClient] at acts
    split at acts <;> cases acts
    cases k <;> exact knows
  | wakeSet k => cases k <;> cases acts <;> exact knows
  | waitFill called =>
    simp only [dmClient] at acts
    split at acts <;> cases acts
    -- an empty queue is one whose tasks have all been started
    have fill := counts.fill
    have before : called ≤ dm.pushed.length := knows
    exact before.trans (by omega)
  | waitStat called =>
    simp only [dmClient] at acts
    split at acts <;> cases acts
    exact ⟨knows,nofun⟩
  | waitLock r called =>
    simp only [dmClient] at acts
    split at acts <;> cases acts
    exact knows
  | clearValid r called => cases acts; exact ⟨knows,rfl⟩
  | request r called =>
    cases acts
    exact ⟨knows.1,fun valid => absurd valid (Bool.eq_false_iff.mp knows.2)⟩
  | waitValid r called =>
    simp only [dmClient] at acts
    split at acts <;> cases acts
    exact knows.2 ‹_›
  | _ => cases acts; trivial

/-- A client that has not been answered goes on asking, and does not change the request. -/
theorem dmClient_asks (acts : dmClient call c dm = some (c',dm')) {r : DmStat × Nat}
    (asks : c.pc.asks = some r) (invalid : dm.statPvalid = false) :
    c'.pc.asks = some r ∧ dm'.statQ = dm.statQ := by
  obtain ⟨pc,waited⟩ := c
  cases pc with
  | wakeWait k =>
    simp only [dmClient] at acts
    split at acts <;> cases acts
    cases k <;> exact ⟨asks,rfl⟩
  | wakeSet k => cases k <;> cases acts <;> exact ⟨asks,rfl⟩
  | waitValid =>
    simp only [dmClient,invalid] at acts
    cases acts
  | _ => cases asks

/-- A client that changes the request is inside and goes on asking. -/
theorem dmClient_statQ (acts : dmClient call c dm = some (c',dm')) :
    dm'.statQ = dm.statQ ∨
      ∃ r called, c.pc = .request r called ∧ c'.pc.asks = some (r,called) ∧ dm'.statQ = some r ∧
        dm'.statPvalid = dm.statPvalid := by
  obtain ⟨pc,waited⟩ := c
  cases pc with
  | idle => cases call <;> cases acts <;> exact .inl rfl
  | poll | lock | waitFill | waitStat | waitLock | waitValid | wakeWait =>
    simp only [dmClient] at acts
    split at acts <;> cases acts
    exact .inl rfl
  | insert t slot rest => cases rest <;> cases acts <;> exact .inl rfl
  | wakeSet k => cases k <;> cases acts <;> exact .inl rfl
  | request r called => cases acts; exact .inr ⟨r,called,rfl,rfl,rfl,rfl⟩
  | _ => cases acts; exact .inl rfl

/-- A client never forgets what it has waited for. -/
theorem dmClient_waited (acts : dmClient call c dm = some (c',dm')) (knows : c.pc.Knows dm)
    (complete : dm.Complete c.waited) : dm'.Complete c'.waited := by
  have later := (dmClient_later acts).complete
  obtain ⟨pc,waited⟩ := c
  cases pc with
  | idle => cases call <;> cases acts <;> exact complete
  | poll | lock | waitFill | waitStat | waitLock | waitValid | wakeWait =>
    simp only [dmClient] at acts
    split at acts <;> cases acts
    exact complete
  | insert t slot rest => cases rest <;> cases acts <;> exact later _ complete
  | wakeSet k => cases k <;> cases acts <;> exact later _ complete
  | waitRelease called =>
    cases acts
    have both : dm.Complete waited ∧ dm.Complete called := ⟨complete,knows⟩
    refine later _ ?_
    rcases max_choice waited called with first | second
    · rw [first]
      exact both.1
    · rw [second]
      exact both.2
  | _ => cases acts; exact later _ complete

namespace DmPc

/-- What a client in `dm_wait` waits for. -/
def waitsFor : DmPc → Option Nat
  | .wakeWait (.poll called) | .wakeSet (.poll called) | .waitFill called | .waitStat called
  | .waitLock _ called | .clearValid _ called | .request _ called | .wakeWait (.answer _ called)
  | .wakeSet (.answer _ called) | .waitValid _ called | .waitRelease called => some called
  | _ => none

end DmPc

/-- The client has waited for the first `k` transfers, or does so now. -/
def DmClient.Covers (k : Nat) (c : DmClient) : Prop := k ≤ c.waited ∨ ∃ called, k ≤ called ∧ c.pc.waitsFor = some called

theorem dmClient_covers {k : Nat} (acts : dmClient call c dm = some (c',dm')) (covers : c.Covers k) :
    c'.Covers k := by
  obtain ⟨pc,waited⟩ := c
  rcases covers with past | ⟨called,enough,waits⟩
  · left
    cases pc with
    | idle => cases call <;> cases acts <;> exact past
    | poll | lock | waitFill | waitStat | waitLock | waitValid | wakeWait =>
      simp only [dmClient] at acts
      split at acts <;> cases acts
      exact past
    | insert t slot rest => cases rest <;> cases acts <;> exact past
    | wakeSet k => cases k <;> cases acts <;> exact past
    | waitRelease => cases acts; exact past.trans (le_max_left ..)
    | _ => cases acts; exact past
  · cases pc with
    | waitFill | waitStat | waitLock | waitValid =>
      simp only [dmClient] at acts
      split at acts <;> cases acts
      exact .inr ⟨called,enough,waits⟩
    | wakeWait k =>
      simp only [dmClient] at acts
      split at acts <;> cases acts
      cases k <;> first | exact .inr ⟨called,enough,waits⟩ | cases waits
    | wakeSet k => cases k <;> cases acts <;> first | exact .inr ⟨called,enough,waits⟩ | cases waits
    | clearValid | request => cases acts; exact .inr ⟨called,enough,waits⟩
    | waitRelease =>
      cases acts
      cases waits
      exact .inl (enough.trans (le_max_right ..))
    | _ => cases waits

namespace DmState

variable {n : Nat}

/-- A client waits for the answer to `r`. -/
def Asked (s : DmState n) (r : DmStat) : Prop :=
  s.dm.statPvalid = false ∧ ∃ i called, (s.clients i).pc.asks = some (r,called)

/-- What holds of the data mover and its clients at all times. -/
structure Kept (s : DmState n) : Prop where
  locked : Locked s.inside s.dm.mutex
  counts : s.dm.Counts s.mover
  knows : ∀ i, (s.clients i).pc.Knows s.dm
  waited : ∀ i, s.dm.Complete (s.clients i).waited
  pending : s.mover ≠ .clearStat → ∀ r, s.dm.statQ = some r → s.Asked r
  idle : s.mover = .idleCheck → s.Asked .waitIdle
  valid : ∀ r, s.mover = .setValid r → s.Asked r ∧ (r = .waitIdle → s.dm.outstanding = [])

theorem Kept.start (irq : Bool) : (init irq : DmState n).Kept where
  locked := Locked.start
  counts := ⟨rfl,le_rfl⟩
  knows _ := trivial
  waited _ := ⟨le_rfl,fun _ none => absurd none (Nat.not_lt_zero _)⟩
  pending _ _ none := by cases none
  idle none := by cases none
  valid _ none := by cases none

theorem Kept.asked_client {s : DmState n} (kept : s.Kept) {i : Fin n}
    (acts : dmClient call (s.clients i) s.dm = some (c',dm')) {r : DmStat} (asked : s.Asked r) :
    Asked ⟨Function.update s.clients i c',s.mover,dm'⟩ r ∧ dm'.statQ = s.dm.statQ := by
  obtain ⟨invalid,j,called,asks⟩ := asked
  have still : dm'.statPvalid = false := Bool.eq_false_iff.mpr fun valid =>
    absurd ((dmClient_later acts).valid valid) (Bool.eq_false_iff.mp invalid)
  by_cases own : i = j
  · subst own
    obtain ⟨again,same⟩ := dmClient_asks acts asks invalid
    refine ⟨⟨still,i,called,?_⟩,same⟩
    simpa using again
  · refine ⟨⟨still,j,called,?_⟩,?_⟩
    · simpa [Ne.symm own] using asks
    · rcases dmClient_statQ acts with same | ⟨r',called',here,_⟩
      · exact same
      · -- the one that asks is inside, so nobody else can be about to ask
        exact absurd (kept.locked.alone i j (by simp [inside,here,DmPc.holds]) (DmPc.holds_of_asks asks)) own

theorem Kept.client {s : DmState n} (kept : s.Kept) {i : Fin n}
    (acts : dmClient call (s.clients i) s.dm = some (c',dm')) :
    Kept ⟨Function.update s.clients i c',s.mover,dm'⟩ := by
  have later := dmClient_later acts
  have counted := dmClient_counted acts
  refine ⟨?_,kept.counts.client counted,fun j => ?_,fun j => ?_,fun apart r some => ?_,fun here => ?_,fun r here => ?_⟩
  · rw [inside_update]
    exact kept.locked.move (dmClient_lock acts)
  · by_cases own : j = i
    · subst own
      simpa using dmClient_knows acts (kept.knows j) kept.counts
    · simpa [own] using (kept.knows j).later later
  · by_cases own : j = i
    · subst own
      simpa using dmClient_waited acts (kept.knows j) (kept.waited j)
    · simpa [own] using later.complete _ (kept.waited j)
  · rcases dmClient_statQ acts with same | ⟨r',called,here,asks,asked,keeps⟩
    · exact (kept.asked_client acts (kept.pending apart r (same ▸ some))).1
    · obtain rfl : r' = r := Option.some.inj (asked.symm.trans some)
      have knows := kept.knows i
      rw [here] at knows
      exact ⟨keeps.trans knows.2,i,called,by simpa using asks⟩
  · exact (kept.asked_client acts (kept.idle here)).1
  · obtain ⟨asked,free⟩ := kept.valid r here
    exact ⟨(kept.asked_client acts asked).1,fun own => counted.outstanding.trans (free own)⟩

/-- Only the client that asks can be at a request, and it is told of transfers that are complete. -/
theorem Kept.answer {s : DmState n} (kept : s.Kept) {r : DmStat} (at_valid : s.mover = .setValid r) (i : Fin n) :
    (s.clients i).pc.Knows { s.dm with statPvalid := true } := by
  obtain ⟨⟨invalid,j,called,asks⟩,free⟩ := kept.valid r at_valid
  have held := DmPc.holds_of_asks asks
  have knows := kept.knows i
  by_cases own : i = j
  · subst own
    have due : s.dm.Due r called → s.dm.Complete called := by
      rintro ⟨started,nothing⟩
      refine ⟨started,fun k inside => ?_⟩
      cases r with
      | waitIdle => rw [free rfl]; exact List.not_mem_nil
      | ready => rw [nothing rfl] at inside; exact absurd inside (Nat.not_lt_zero _)
    generalize (s.clients i).pc = pc at asks knows
    cases pc with
    | wakeWait k | wakeSet k =>
      cases k with
      | answer => cases asks; exact ⟨knows.1,fun _ => due knows.1⟩
      | _ => cases asks
    | waitValid => cases asks; exact ⟨knows.1,fun _ => due knows.1⟩
    | _ => cases asks
  · have out := kept.locked.outside held own
    generalize within : (s.clients i).pc = pc at knows
    rw [inside,within] at out
    cases pc with
    | wakeWait k | wakeSet k => cases k <;> first | exact knows | cases out
    | request | waitValid | clearValid | waitRelease => cases out
    | _ => exact knows

theorem Kept.mover {s : DmState n} (kept : s.Kept) (acts : dmMain blocked s.mover s.dm = some (pc',dm')) :
    Kept ⟨s.clients,pc',dm'⟩ := by
  have locked : Locked s.inside dm'.mutex := (dmMain_kept acts).mutex ▸ kept.locked
  have counts := kept.counts.mover acts
  rcases dmMain_stat acts with ⟨r,here,rfl,rfl⟩ | ⟨here,rfl,rfl⟩ | quiet
  · exact ⟨locked,counts,kept.answer here,kept.waited,fun apart => absurd rfl apart,nofun,nofun⟩
  · exact ⟨locked,counts,kept.knows,kept.waited,nofun,nofun,nofun⟩
  · have later := dmMain_later acts fun r here => quiet.apart r here
    have asked : ∀ r, s.Asked r → Asked ⟨s.clients,pc',dm'⟩ r := fun r asked =>
      ⟨quiet.statPvalid.trans asked.1,asked.2⟩
    refine ⟨locked,counts,fun i => (kept.knows i).later later,fun i => later.complete _ (kept.waited i),
      fun _ r some => ?_,fun here => ?_,fun r here => ?_⟩
    · exact asked r (kept.pending quiet.clear r (quiet.statQ ▸ some))
    · exact asked _ (kept.pending quiet.clear _ (quiet.idle here))
    · rcases quiet.valid r here with ⟨some,rfl⟩ | ⟨idle,rfl,free⟩
      · exact ⟨asked _ (kept.pending quiet.clear _ some),nofun⟩
      · exact ⟨asked _ (kept.idle idle),fun _ => free⟩

theorem Kept.step {s : DmState n} (kept : s.Kept) (e : DmEvent n) : (s.next e).Kept := by
  apply next_cases s e kept
  · intro i call c dm acts
    exact kept.client acts
  · intro blocked pc dm acts
    exact kept.mover acts
  · intro k
    have later : s.dm.Later { s.dm with outstanding := s.dm.outstanding.erase k } :=
      ⟨le_rfl,le_rfl,fun _ complete => ⟨complete.1,fun j inside member =>
        complete.2 j inside (List.mem_of_mem_erase member)⟩,id⟩
    refine ⟨kept.locked,⟨kept.counts.fill,kept.counts.ahead⟩,fun i => (kept.knows i).later later,
      fun i => later.complete _ (kept.waited i),kept.pending,kept.idle,fun r here => ?_⟩
    obtain ⟨asked,free⟩ := kept.valid r here
    refine ⟨asked,fun own => ?_⟩
    rw [free own]
    rfl

theorem run_kept (irq : Bool) (events : List (DmEvent n)) : (run irq events).Kept :=
  (machine n).run_rule (fun _ => Kept) (Kept.start irq) (fun _ _ e kept => kept.step e) events

theorem run_covers {k : Nat} {s : DmState n} {i : Fin n} (covers : (s.clients i).Covers k)
    (events : List (DmEvent n)) : (((machine n).exec s events).clients i).Covers k := by
  refine (machine n).run_rule (fun _ s => (s.clients i).Covers k) covers (fun _ s e covers => ?_) events
  apply next_cases (motive := fun s' => (s'.clients i).Covers k) s e covers
  · intro j call c dm acts
    by_cases own : i = j
    · subst own
      simpa using dmClient_covers acts covers
    · simpa [own] using covers
  · intro blocked pc dm acts
    exact covers
  · intro k
    exact covers

theorem run_claimed (irq : Bool) (events : List (DmEvent n)) : (run irq events).claimed ≤ 3 + n := by
  apply (machine n).run_rule (fun _ s => s.claimed ≤ 3 + n)
  · simp [claimed,init,DmPc.passed]
  · exact fun _ s e few => claimed_step s e few

/-- Whatever the other cores do, a core that comes back from `dm_wait` finds every transfer started and
complete that had been counted in when it called. -/
theorem dm_wait_completes (irq : Bool) (before after : List (DmEvent n)) (i : Fin n)
    (calls : ((run irq before).clients i).pc = .idle)
    (back : ((run irq (before ++ .client i .wait :: after)).clients i).pc = .idle) :
    (run irq (before ++ .client i .wait :: after)).dm.Complete (run irq before).dm.pushed.length := by
  have complete := (run_kept irq (before ++ .client i .wait :: after)).waited i
  have covers : (((run irq before).next (.client i .wait)).clients i).Covers (run irq before).dm.pushed.length := by
    refine .inr ⟨_,le_rfl,?_⟩
    simp [next,dmClient,calls,DmPc.waitsFor]
  have later := run_covers covers after
  have whole : run irq (before ++ .client i .wait :: after) =
      (machine n).exec ((run irq before).next (.client i .wait)) after :=
    (machine n).exec_append _ before (.client i .wait :: after)
  rw [← whole] at later
  rcases later with past | ⟨called,_,waits⟩
  · exact ⟨past.trans complete.1,fun j inside => complete.2 j (inside.trans_le past)⟩
  · rw [back] at waits
    cases waits

/-- A transfer is queued, and started before `dm_wait` is answered. -/
def oneMemcpy : List (DmEvent 1) := List.replicate 15 (.client 0 (.memcpyAsync 64 128 32))

def oneServed : List (DmEvent 1) :=
  List.replicate 17 (.mover false) ++ .complete 0 :: List.replicate 9 (.client 0 .start) ++
    List.replicate 8 (.mover false) ++ List.replicate 2 (.client 0 .start)

theorem dm_wait_completes_memcpy :
    (run false (oneMemcpy ++ .client 0 .wait :: oneServed)).dm.Complete (run false oneMemcpy).dm.pushed.length :=
  dm_wait_completes false oneMemcpy oneServed 0 (by decide +kernel) (by decide +kernel)

/-- A client asks for something that the data mover has not answered and will not see. -/
structure Hung (s : DmState n) (i : Fin n) (r : DmStat × Nat) : Prop where
  kept : s.Kept
  asks : (s.clients i).pc.asks = some r
  invalid : s.dm.statPvalid = false
  lost : s.mover = .clearStat ∨ (s.dm.statQ = none ∧ s.mover ≠ .idleCheck ∧ ∀ r, s.mover ≠ .setValid r)

theorem Hung.step {s : DmState n} {i : Fin n} {r : DmStat × Nat} (hung : s.Hung i r) (e : DmEvent n) :
    (s.next e).Hung i r := by
  apply next_cases (motive := fun s' => s'.Hung i r) s e hung
  · intro j call c dm acts
    have asked : s.Asked r.1 := ⟨hung.invalid,i,r.2,hung.asks⟩
    obtain ⟨⟨invalid,_⟩,same⟩ := hung.kept.asked_client acts asked
    refine ⟨hung.kept.client acts,?_,invalid,hung.lost.imp_right fun lost => ⟨same.trans lost.1,lost.2⟩⟩
    by_cases own : i = j
    · subst own
      simpa using (dmClient_asks acts hung.asks hung.invalid).1
    · simpa [own] using hung.asks
  · intro blocked pc dm acts
    have kept := hung.kept.mover acts
    rcases dmMain_stat acts with ⟨r',here,_⟩ | ⟨_,rfl,rfl⟩ | quiet
    · rcases hung.lost with clears | ⟨_,_,apart⟩
      · cases clears.symm.trans here
      · exact absurd here (apart r')
    · exact ⟨kept,hung.asks,hung.invalid,.inr ⟨rfl,nofun,nofun⟩⟩
    · obtain ⟨none,idle,_⟩ := hung.lost.resolve_left quiet.clear
      refine ⟨kept,hung.asks,quiet.statPvalid.trans hung.invalid,.inr ⟨quiet.statQ.trans none,fun here => ?_,
        fun r' here => ?_⟩⟩
      · cases none.symm.trans (quiet.idle here)
      · rcases quiet.valid r' here with ⟨some,_⟩ | ⟨check,_⟩
        · cases none.symm.trans some
        · exact idle check
  · intro k
    exact ⟨hung.kept.step (.complete k),hung.asks,hung.invalid,hung.lost⟩

/-- The data mover answers a request before it clears it. A client that has made its own request in between
waits for ever, with the mutex: the data mover clears that request unseen. -/
theorem late_clear_hangs (irq : Bool) (before after : List (DmEvent n)) (i : Fin n) (r : DmStat × Nat)
    (asks : ((run irq before).clients i).pc.asks = some r) (unanswered : (run irq before).dm.statPvalid = false)
    (late : (run irq before).mover = .clearStat) :
    ((run irq (before ++ after)).clients i).pc.asks = some r ∧ (run irq (before ++ after)).dm.mutex = true := by
  have hung : (run irq (before ++ after)).Hung i r := by
    rw [run,Machine.exec_append]
    exact (machine n).run_rule (fun _ s => s.Hung i r) ⟨run_kept irq before,asks,unanswered,.inl late⟩
      (fun _ _ e hung => hung.step e) after
  exact ⟨hung.asks,hung.kept.locked.taken i (DmPc.holds_of_asks hung.asks)⟩

/-- One client that calls `dm_wait_ready` twice; the data mover has just answered the first call. -/
def readyTwice : List (DmEvent 1) :=
  List.replicate 5 (.mover false) ++ List.replicate 6 (.client 0 .waitReady) ++
    List.replicate 7 (.mover false) ++ List.replicate 6 (.client 0 .waitReady)

theorem late_clear_hangs_twice :
    ((run false (readyTwice ++ [.mover false,.client 0 .start])).clients 0).pc.asks = some (.ready,0) ∧
      (run false (readyTwice ++ [.mover false,.client 0 .start])).dm.mutex = true :=
  late_clear_hangs false readyTwice _ 0 (.ready,0) rfl rfl rfl

end DmState
end Snax
