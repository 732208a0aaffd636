import Snax.XdmaLoopback
import Snax.Sync.Worker

/-! Retiring a task. Each state machine watches the busy signal of its mover, and leaves out
the wait for tasks whose transfer size is zero. That is right in every run in which the size
of a task is zero exactly when its mover would not take it up. -/
namespace Snax.XDMACtrl

open Sync

variable {param : XDMACtrlParam} {clusterBaseAddress : BitVec param.addrWidth}

/-! ### Both sides alike -/

def currentCfg (s : State param) : (side : Side) → RegCut (Task param side)
  | .reader => s.currentCfgSrc
  | .writer => s.currentCfgDst

def currentState (s : State param) : Side → FsmState
  | .reader => s.currentStateSrc
  | .writer => s.currentStateDst

def postRoute (clusterBaseAddress : BitVec param.addrWidth) (s : State param) :
    (side : Side) → Option (Task param side)
  | .reader => postRouteSrc clusterBaseAddress s
  | .writer => postRouteDst clusterBaseAddress s

def start (s : State param) : Side → Bool
  | .reader => readerStart s
  | .writer => writerStart s

def busy (i : Input param) : Side → Bool
  | .reader => i.readerBusy
  | .writer => i.writerBusy

/-- If the transfer size is zero, the state machine does not wait for the busy signal. -/
def isEmpty {side : Side} (task : Task param side) : Bool := task.cfg.axiTransferBeatSize == 0

/-- The address generator of the mover takes a start pulse up only with a valid task. -/
def moves {side : Side} (task : Task param side) : Bool :=
  AddressGenUnit.cfgValid ( XDMAIntraClusterCfgIO.convertFromXDMACfgIO task.cfg).aguCfg

def pop (s : State param) (i : Input param) (side : Side) : Bool :=
  (currentState s side).pop (isEmpty (currentCfg s side).bits) (busy i side)

section Side

variable (s : State param) (i : Input param) (side : Side)

theorem currentCfg_next : currentCfg (next clusterBaseAddress s i) side =
    (currentCfg s side).next (postRoute clusterBaseAddress s side) (pop s i side) := by
  cases side <;> rfl

theorem currentState_next : currentState (next clusterBaseAddress s i) side =
    (currentState s side).next (start s side) (isEmpty (currentCfg s side).bits) (busy i side) := by
  cases side <;> rfl

theorem start_idle (starts : start s side = true) :
    currentState s side = .sIdle ∧ (currentCfg s side).maybeFull = true := by
  cases side with
  | reader =>
    simp only [start,readerStart,Bool.and_eq_true,beq_iff_eq] at starts
    exact ⟨starts.1,starts.2.1.1⟩
  | writer =>
    simp only [start,writerStart,Bool.and_eq_true,beq_iff_eq] at starts
    exact ⟨starts.1,starts.2.1⟩

end Side

/-! ### The movers -/

/-- The controller with what its movers make of the start pulses. -/
structure Watched (param : XDMACtrlParam) where
  ctrl : State param
  phase : Side → Worker.Phase

/-- The task that enters the register of a side in a cycle, the one its mover is started
for, and the one that is popped. -/
structure SideOutput (param : XDMACtrlParam) (side : Side) where
  taken : Option (Task param side)
  started : Option (Task param side)
  popped : Option (Task param side)

def watched (clusterBaseAddress : BitVec param.addrWidth) :
    Sync.Machine (Watched param) (Input param) ((side : Side) → SideOutput param side) where
  next w i := {
    ctrl := next clusterBaseAddress w.ctrl i
    phase := fun side => (w.phase side).next
      (start w.ctrl side && moves (currentCfg w.ctrl side).bits) (busy i side) }
  out w i side := {
    taken := (currentCfg w.ctrl side).taken (postRoute clusterBaseAddress w.ctrl side)
    started := if start w.ctrl side then (currentCfg w.ctrl side).deq else none
    popped := if pop w.ctrl i side then (currentCfg w.ctrl side).deq else none }

def atRest (param : XDMACtrlParam) : Watched param := ⟨initial param,fun _ => .rest⟩

/-- Watching does not interfere. -/
theorem watched_ctrl (w : Watched param) (inputs : List (Input param)) :
    ((watched clusterBaseAddress).exec w inputs).ctrl =
      (xdmaCtrl clusterBaseAddress).exec w.ctrl inputs := by
  induction inputs generalizing w with
  | nil => rfl
  | cons i rest ih => exact ih _

/-- The movers raise busy after a start pulse they take up, and only then. -/
def MoversShow (w : Watched param) (i : Input param) : Prop :=
  ∀ side, (w.phase side).Shows (busy i side)

/-- The size of the task in a register is zero exactly when a bound of its mover is. -/
def Sized {side : Side} (r : RegCut (Task param side)) : Prop :=
  r.maybeFull = true → (isEmpty r.bits = true ↔ moves r.bits = false)

instance {side : Side} (r : RegCut (Task param side)) : Decidable (Sized r) :=
  inferInstanceAs (Decidable (_ → _))

def AllSized (w : Watched param) : Prop := ∀ side, Sized (currentCfg w.ctrl side)

/-! ### One side -/

section OneSide

variable {side : Side} {r : RegCut (Task param side)} {state : FsmState} {phase : Worker.Phase}
  {starts signal : Bool} {enq : Option (Task param side)}

/-- Where the mover is while the state machine is in each of its states. -/
def Attends (r : RegCut (Task param side)) (state : FsmState) (phase : Worker.Phase) : Prop :=
  match state with
  | .sIdle => phase = .rest
  | .sWaitBusy => r.maybeFull = true ∧ phase = if moves r.bits then .called else .rest
  | .sBusy => r.maybeFull = true ∧ moves r.bits = true ∧ phase = .working

/-- A full register keeps its task until it is popped. -/
theorem next_full (full : r.maybeFull = true) (deqReady : Bool) :
    r.next enq deqReady = ⟨r.bits,!deqReady⟩ := by
  simp [RegCut.next,RegCut.taken,RegCut.enqReady,full]

theorem Sized.empty_eq (sized : Sized r) (full : r.maybeFull = true) :
    isEmpty r.bits = !moves r.bits := by
  cases works : moves r.bits with
  | false => exact (sized full).mpr works
  | true =>
    apply Bool.eq_false_iff.mpr
    intro empty
    have stopped := (sized full).mp empty
    rw [works] at stopped
    exact absurd stopped.symm Bool.false_ne_true

theorem Attends.next (attends : Attends r state phase) (sized : Sized r)
    (shows_ : phase.Shows signal)
    (fresh : starts = true → state = .sIdle ∧ r.maybeFull = true) :
    Attends (r.next enq (state.pop (isEmpty r.bits) signal))
      (state.next starts (isEmpty r.bits) signal) (phase.next (starts && moves r.bits) signal) := by
  cases state with
  | sIdle =>
    have quiet : phase = .rest := attends
    subst quiet
    cases starts with
    | false => rfl
    | true =>
      have full := (fresh rfl).2
      simp only [FsmState.pop,next_full full,FsmState.next,if_true,Bool.true_and,Worker.Phase.next]
      exact ⟨rfl,rfl⟩
  | sWaitBusy =>
    obtain ⟨full,called⟩ := attends
    have idle : starts = false := by
      apply Bool.eq_false_iff.mpr
      intro again
      cases (fresh again).1
    rw [FsmState.pop,next_full full,FsmState.next,sized.empty_eq full,idle]
    cases works : moves r.bits with
    | false =>
      rw [works] at called
      subst called
      simp [Attends,Worker.Phase.next]
    | true =>
      rw [works,if_pos rfl] at called
      subst called
      cases signal <;> simp [Attends,Worker.Phase.next,works]
  | sBusy =>
    obtain ⟨full,works,called⟩ := attends
    subst called
    have idle : starts = false := by
      apply Bool.eq_false_iff.mpr
      intro again
      cases (fresh again).1
    rw [FsmState.pop,next_full full,FsmState.next,idle]
    cases signal <;> simp [Attends,Worker.Phase.next,works]

/-- What a state machine has started and not popped yet. -/
def held (r : RegCut (Task param side)) (state : FsmState) : List (Task param side) :=
  if state = .sIdle then [] else r.deq.toList

theorem held_next (occupied : state ≠ .sIdle → r.maybeFull = true)
    (fresh : starts = true → state = .sIdle ∧ r.maybeFull = true)
    (enq : Option (Task param side)) (empty signal : Bool) :
    held r state ++ (if starts then r.deq else none).toList =
      (if state.pop empty signal then r.deq else none).toList ++
        held (r.next enq (state.pop empty signal)) (state.next starts empty signal) := by
  cases state with
  | sIdle =>
    cases starts with
    | false => simp [held,FsmState.pop,FsmState.next]
    | true => simp [held,FsmState.pop,FsmState.next,next_full (fresh rfl).2,RegCut.deq,(fresh rfl).2]
  | sWaitBusy =>
    have full := occupied (by simp)
    have idle : starts = false := by
      apply Bool.eq_false_iff.mpr
      intro again
      cases (fresh again).1
    rw [FsmState.pop,next_full full,idle]
    cases empty <;> cases signal <;> simp [held,FsmState.next,RegCut.deq,full]
  | sBusy =>
    have full := occupied (by simp)
    have idle : starts = false := by
      apply Bool.eq_false_iff.mpr
      intro again
      cases (fresh again).1
    rw [FsmState.pop,next_full full,idle]
    cases signal <;> simp [held,FsmState.next,RegCut.deq,full]

theorem Attends.occupied (attends : Attends r state phase) (moving : state ≠ .sIdle) :
    r.maybeFull = true := by
  cases state with
  | sIdle => exact absurd rfl moving
  | sWaitBusy => exact attends.1
  | sBusy => exact attends.1

/-- A task whose mover works is popped in the cycle in which the mover ends. -/
theorem Attends.ends_iff (attends : Attends r state phase) (sized : Sized r)
    (full : r.maybeFull = true) (works : moves r.bits = true) :
    state.pop (isEmpty r.bits) signal = true ↔ phase.ends signal = true := by
  rw [sized.empty_eq full,works]
  cases state with
  | sIdle =>
    have quiet : phase = .rest := attends
    simp [FsmState.pop,Worker.Phase.ends_iff,quiet]
  | sWaitBusy =>
    have called := attends.2
    rw [works,if_pos rfl] at called
    simp [FsmState.pop,Worker.Phase.ends_iff,called]
  | sBusy => simp [FsmState.pop,Worker.Phase.ends_iff,attends.2.2]

/-- A task that its mover does not take up is popped without regard to the busy signal. -/
theorem Attends.skips_iff (attends : Attends r state phase) (sized : Sized r)
    (full : r.maybeFull = true) (ignored : moves r.bits = false) :
    state.pop (isEmpty r.bits) signal = true ↔ state = .sWaitBusy := by
  rw [sized.empty_eq full,ignored]
  cases state with
  | sIdle => simp [FsmState.pop]
  | sWaitBusy => simp [FsmState.pop]
  | sBusy =>
    have works := attends.2.1
    rw [ignored] at works
    exact absurd works Bool.false_ne_true

/-- While it waits for a mover at rest, the way out for empty tasks is open. -/
theorem Attends.empty_of_rest (attends : Attends r .sWaitBusy .rest) (sized : Sized r) :
    isEmpty r.bits = true := by
  rw [sized.empty_eq attends.1]
  cases works : moves r.bits with
  | false => rfl
  | true =>
    have called := attends.2
    rw [works,if_pos rfl] at called
    cases called

end OneSide

/-! ### From the start of a task to its end -/

section Serving

variable {side : Side} {task : Task param side} {state : FsmState} {w : Watched param}

/-- The side is in a state with a task in its register. -/
structure Holds (w : Watched param) (task : Task param side) (state : FsmState) : Prop where
  cfg : currentCfg w.ctrl side = ⟨task,true⟩
  state : currentState w.ctrl side = state

def poppedBy (side : Side) (history : List ((side : Side) → SideOutput param side)) :
    List (Task param side) :=
  history.filterMap fun o => (o side).popped

theorem pop_of_holds (holds : Holds w task state) (i : Input param) :
    pop w.ctrl i side = state.pop (isEmpty task) (busy i side) := by
  rw [pop,holds.cfg,holds.state]

variable (clusterBaseAddress)

theorem Holds.next (holds : Holds w task state) {i : Input param}
    (kept : state.pop (isEmpty task) (busy i side) = false) :
    ((watched clusterBaseAddress).out w i side).popped = none ∧
      Holds ((watched clusterBaseAddress).next w i) task
        (state.next (start w.ctrl side) (isEmpty task) (busy i side)) := by
  have stays : pop w.ctrl i side = false := (pop_of_holds holds i).trans kept
  refine ⟨?_,?_,?_⟩
  · change (if pop w.ctrl i side then _ else none) = none
    rw [stays]
    rfl
  · change currentCfg (XDMACtrl.next clusterBaseAddress w.ctrl i) side = _
    rw [currentCfg_next,stays,holds.cfg,next_full rfl]
    rfl
  · change currentState (XDMACtrl.next clusterBaseAddress w.ctrl i) side = _
    rw [currentState_next,holds.cfg,holds.state]

theorem Holds.pops (holds : Holds w task state) {i : Input param}
    (leaves : state.pop (isEmpty task) (busy i side) = true) :
    ((watched clusterBaseAddress).out w i side).popped = some task := by
  change (if pop w.ctrl i side then (currentCfg w.ctrl side).deq else none) = some task
  rw [pop_of_holds holds,leaves,holds.cfg]
  rfl

/-- As long as the busy signal does not move the state, it stays with its task. -/
theorem Holds.run (signal : Bool) (holds : Holds w task state)
    (kept : state.pop (isEmpty task) signal = false)
    (stays : ∀ starts, state.next starts (isEmpty task) signal = state) {inputs : List (Input param)}
    (constant : ∀ i ∈ inputs, busy i side = signal) :
    poppedBy side ((watched clusterBaseAddress).outs w inputs) = [] ∧
      Holds ((watched clusterBaseAddress).exec w inputs) task state := by
  induction inputs generalizing w with
  | nil => exact ⟨rfl,holds⟩
  | cons i rest ih =>
    have now : busy i side = signal := constant i (List.mem_cons_self ..)
    have quiet : state.pop (isEmpty task) (busy i side) = false := by rw [now,kept]
    obtain ⟨nothing,after⟩ := holds.next clusterBaseAddress quiet
    rw [now,stays] at after
    obtain ⟨nothingLater,last⟩ := ih after fun j member => constant j (List.mem_cons_of_mem _ member)
    refine ⟨?_,last⟩
    rw [Sync.Machine.outs_cons,poppedBy,List.filterMap_cons,nothing]
    exact nothingLater

/-- Busy stays low for a while, is high for a while and falls: the task leaves then, and
not before. -/
theorem Holds.serves (holds : Holds w task .sWaitBusy) (nonempty : isEmpty task = false)
    {wait work : List (Input param)} {rise fall : Input param}
    (low : ∀ i ∈ wait, busy i side = false) (rises : busy rise side = true)
    (high : ∀ i ∈ work, busy i side = true) (falls : busy fall side = false) :
    poppedBy side ((watched clusterBaseAddress).outs w (wait ++ rise :: work)) = [] ∧
      poppedBy side ((watched clusterBaseAddress).outs w (wait ++ rise :: work ++ [fall])) = [task] := by
  have closed : FsmState.sWaitBusy.pop (isEmpty task) (busy rise side) = false := nonempty
  obtain ⟨noneWaiting,waiting⟩ := holds.run clusterBaseAddress false nonempty
    (fun _ => by rw [nonempty]; rfl) low
  obtain ⟨noneRising,working⟩ := waiting.next clusterBaseAddress closed
  rw [nonempty,rises] at working
  obtain ⟨noneWorking,done⟩ := working.run clusterBaseAddress true rfl (fun _ => rfl) high
  have nothing : poppedBy side ((watched clusterBaseAddress).outs w (wait ++ rise :: work)) = [] := by
    rw [Sync.Machine.outs_append,Sync.Machine.outs_cons,poppedBy,List.filterMap_append,
      List.filterMap_cons,noneRising]
    change poppedBy side _ ++ poppedBy side _ = []
    rw [noneWaiting,noneWorking]
    rfl
  have last : Holds ((watched clusterBaseAddress).exec w (wait ++ rise :: work)) task .sBusy := by
    rw [Sync.Machine.exec_append,Sync.Machine.exec_cons]
    exact done
  have leaves : FsmState.sBusy.pop (isEmpty task) (busy fall side) = true := by rw [falls]; rfl
  refine ⟨nothing,?_⟩
  rw [Sync.Machine.outs_append,poppedBy,List.filterMap_append]
  change poppedBy side _ ++ _ = _
  rw [nothing,Sync.Machine.outs_cons,Sync.Machine.outs_nil,List.filterMap_cons,
    last.pops clusterBaseAddress leaves]
  rfl

end Serving

/-! ### Runs -/

section Runs

variable (side : Side)

def takenBy (history : List ((side : Side) → SideOutput param side)) : List (Task param side) :=
  history.filterMap fun o => (o side).taken

def startedBy (history : List ((side : Side) → SideOutput param side)) : List (Task param side) :=
  history.filterMap fun o => (o side).started

structure Ledger (history : List ((side : Side) → SideOutput param side)) (w : Watched param) : Prop where
  attends : Attends (currentCfg w.ctrl side) (currentState w.ctrl side) (w.phase side)
  taken : takenBy side history = poppedBy side history ++ (currentCfg w.ctrl side).deq.toList
  started : startedBy side history =
    poppedBy side history ++ held (currentCfg w.ctrl side) (currentState w.ctrl side)

theorem atRest_ledger : Ledger side [] (atRest param) := by
  cases side <;> exact ⟨rfl,rfl,rfl⟩

variable {side} {history : List ((side : Side) → SideOutput param side)} {w : Watched param}

theorem Ledger.next (ledger : Ledger side history w) {i : Input param}
    (shows_ : (w.phase side).Shows (busy i side)) (sized : Sized (currentCfg w.ctrl side)) :
    Ledger side (history ++ [(watched clusterBaseAddress).out w i])
      ((watched clusterBaseAddress).next w i) := by
  have fresh := start_idle w.ctrl side
  have cfg : currentCfg ((watched clusterBaseAddress).next w i).ctrl side = _ :=
    currentCfg_next w.ctrl i side
  have state : currentState ((watched clusterBaseAddress).next w i).ctrl side = _ :=
    currentState_next w.ctrl i side
  have concat (f : ((side : Side) → SideOutput param side) → Option (Task param side)) :
      (history ++ [(watched clusterBaseAddress).out w i]).filterMap f =
        history.filterMap f ++ (f ((watched clusterBaseAddress).out w i)).toList := by
    exact Sync.filterMap_concat _ _ _
  refine ⟨?_,?_,?_⟩
  · rw [cfg,state]
    exact ledger.attends.next sized shows_ fresh
  · have moved := (currentCfg w.ctrl side).next_conserves (postRoute clusterBaseAddress w.ctrl side)
      (pop w.ctrl i side)
    rw [takenBy,poppedBy,concat,concat,cfg]
    change takenBy side history ++ _ = (poppedBy side history ++ _) ++ _
    rw [ledger.taken,List.append_assoc,List.append_assoc]
    exact congrArg _ moved.symm
  · have moved := held_next ledger.attends.occupied fresh (postRoute clusterBaseAddress w.ctrl side)
      (isEmpty (currentCfg w.ctrl side).bits) (busy i side)
    rw [startedBy,poppedBy,concat,concat,cfg,state]
    change startedBy side history ++ _ = (poppedBy side history ++ _) ++ _
    rw [ledger.started,List.append_assoc,List.append_assoc]
    exact congrArg _ moved

end Runs

/-- The tasks of a side are started and popped once each, in the order of arrival, each when
its mover has ended, or at once if its mover does not take it up. -/
structure Retirement (clusterBaseAddress : BitVec param.addrWidth) (side : Side)
    (history : List ((side : Side) → SideOutput param side)) (w : Watched param) (i : Input param) :
    Prop where
  taken : takenBy side history = poppedBy side history ++ (currentCfg w.ctrl side).deq.toList
  started : startedBy side history =
    poppedBy side history ++ held (currentCfg w.ctrl side) (currentState w.ctrl side)
  fresh : start w.ctrl side = true → w.phase side = .rest
  ends : (currentCfg w.ctrl side).maybeFull = true → moves (currentCfg w.ctrl side).bits = true →
    (pop w.ctrl i side = true ↔ (w.phase side).ends (busy i side) = true)
  skips : (currentCfg w.ctrl side).maybeFull = true → moves (currentCfg w.ctrl side).bits = false →
    (pop w.ctrl i side = true ↔ currentState w.ctrl side = .sWaitBusy)
  unstuck : currentState w.ctrl side = .sWaitBusy → w.phase side = .rest →
    isEmpty (currentCfg w.ctrl side).bits = true
  /-- Whenever the mover works after the start, and however long, the task leaves after it. -/
  serves : start w.ctrl side = true → moves (currentCfg w.ctrl side).bits = true →
    ∀ wait work rise fall, (∀ j ∈ wait, busy j side = false) → busy rise side = true →
      (∀ j ∈ work, busy j side = true) → busy fall side = false →
      poppedBy side ((watched clusterBaseAddress).outs w (i :: wait ++ rise :: work)) = [] ∧
        poppedBy side ((watched clusterBaseAddress).outs w (i :: wait ++ rise :: work ++ [fall])) =
          [(currentCfg w.ctrl side).bits]
  leaves : start w.ctrl side = true → moves (currentCfg w.ctrl side).bits = false →
    ∀ j, poppedBy side ((watched clusterBaseAddress).outs w [i,j]) = [(currentCfg w.ctrl side).bits]

section Start

variable {side : Side} {w : Watched param} (starts : start w.ctrl side = true)
include starts

theorem starting_holds : Holds w (currentCfg w.ctrl side).bits .sIdle := by
  obtain ⟨idle,full⟩ := start_idle w.ctrl side starts
  refine ⟨?_,idle⟩
  rw [← full]

variable (clusterBaseAddress) in
/-- The cycle of the start pops nothing, and the state machine waits then. -/
theorem started_holds (i : Input param) :
    ((watched clusterBaseAddress).out w i side).popped = none ∧
      Holds ((watched clusterBaseAddress).next w i) (currentCfg w.ctrl side).bits .sWaitBusy := by
  have after := (starting_holds starts).next clusterBaseAddress (i := i) rfl
  rw [starts] at after
  exact after

end Start

theorem Ledger.retirement {side : Side} {history : List ((side : Side) → SideOutput param side)}
    {w : Watched param} (ledger : Ledger side history w) (sized : Sized (currentCfg w.ctrl side))
    (i : Input param) : Retirement clusterBaseAddress side history w i where
  taken := ledger.taken
  started := ledger.started
  fresh starts := by
    have attends := ledger.attends
    rw [(start_idle w.ctrl side starts).1] at attends
    exact attends
  ends full works := ledger.attends.ends_iff sized full works
  skips full ignored := ledger.attends.skips_iff sized full ignored
  unstuck waiting resting := by
    have attends := ledger.attends
    rw [waiting,resting] at attends
    exact attends.empty_of_rest sized
  serves starts works wait work rise fall low rises high falls := by
    obtain ⟨nothing,holds⟩ := started_holds clusterBaseAddress starts i
    have nonempty : isEmpty (currentCfg w.ctrl side).bits = false := by
      rw [sized.empty_eq (start_idle w.ctrl side starts).2,works]
      rfl
    have served := holds.serves clusterBaseAddress nonempty low rises high falls
    have skip (rest : List (Input param)) :
        poppedBy side ((watched clusterBaseAddress).outs w (i :: rest)) =
          poppedBy side ((watched clusterBaseAddress).outs
            ((watched clusterBaseAddress).next w i) rest) := by
      rw [Sync.Machine.outs_cons,poppedBy,List.filterMap_cons,nothing]
      rfl
    rw [List.cons_append,List.cons_append,skip,skip]
    exact served
  leaves starts ignored j := by
    obtain ⟨nothing,holds⟩ := started_holds clusterBaseAddress starts i
    have empty : isEmpty (currentCfg w.ctrl side).bits = true := by
      rw [sized.empty_eq (start_idle w.ctrl side starts).2,ignored]
      rfl
    rw [Sync.Machine.outs_cons,Sync.Machine.outs_cons,Sync.Machine.outs_nil,poppedBy,
      List.filterMap_cons,nothing,List.filterMap_cons,holds.pops clusterBaseAddress empty]
    rfl

/-- Retiring, in every run in which the sizes of the tasks tell whether their movers work. -/
theorem retires_tasks (clusterBaseAddress : BitVec param.addrWidth) (inputs : List (Input param))
    (timing : (watched clusterBaseAddress).Each (fun _ w i => MoversShow w i) (atRest param) inputs)
    (sized : (watched clusterBaseAddress).Each (fun _ w _ => AllSized w) (atRest param) inputs) :
    (watched clusterBaseAddress).Each
      (fun history w i => ∀ side, Retirement clusterBaseAddress side history w i)
      (atRest param) inputs := by
  have each : (watched clusterBaseAddress).Each (fun history w _ => ∀ side, Ledger side history w)
      (atRest param) inputs :=
    Sync.Machine.each_of_run_rule (fun history w => ∀ side, Ledger side history w)
      (timing.and sized) (fun side => atRest_ledger side)
      fun _ _ _ ledger both side => (ledger side).next (both.1 side) (both.2 side)
  exact (each.and sized).mono fun _ _ i both side => (both.1 side).retirement (both.2 side) i

/-- Of a launch the size is zero whenever the product of the writer's bounds is a multiple
of the size's range, on both sides. -/
theorem isEmpty_preRoute (launch : Launch param) (taskID : BitVec 4) (side : Side) (entry : Nat) :
    isEmpty (⟨launch.preRoute taskID side,entry⟩ : Task param side) = true ↔
      2 ^ param.beatWidth ∣ launch.bounds.prod := by
  change (launch.axiTransferBeatSize == 0) = true ↔ _
  rw [beq_iff_eq,launch.axiTransferBeatSize_eq,BitVec.toNat_eq,BitVec.toNat_ofNat]
  exact (Nat.dvd_iff_mod_eq_zero ..).symm

/-- The same words, 1024 at a time, 512 times over: 2^19 beats. -/
def longCopy : Launch XDMA.defaultParam where
  readerPtr := localCopy.readerPtr
  writerPtr := localCopy.writerPtr
  fields _ := ⟨⟨0,Vector.replicate 1 8,
    Vector.ofFn fun i => if i.val = 0 then 1024 else if i.val = 1 then 512 else 1,
    Vector.ofFn fun i => if i.val = 0 then 64 else 0,0⟩,⟨0,0⟩,Vector.replicate _ 0⟩

/-- Its size is cut to zero: both movers are called, and the tasks are popped before either
has shown that it is busy. -/
theorem retires_tasks_longCopy :
    let w := (watched defaultBase).exec (atRest _)
      [quietCycle (some longCopy),quietCycle none,quietCycle none]
    ∀ side, moves (currentCfg w.ctrl side).bits = true ∧ w.phase side = .called ∧
      pop w.ctrl (quietCycle none) side = true := by
  intro w side
  cases side <;> decide +kernel

theorem retires_tasks_localCopy :
    (watched defaultBase).Each
      (fun history w i => ∀ side, Retirement defaultBase side history w i) (atRest _)
      [quietCycle (some localCopy),quietCycle none,quietCycle none,busyCycle none true true,
        busyCycle none false true,quietCycle none] := by
  apply retires_tasks
  · refine .cons ?_ (.cons ?_ (.cons ?_ (.cons ?_ (.cons ?_ (.cons ?_ (.nil _)))))) <;>
      intro side <;> cases side <;> decide +kernel
  · refine .cons ?_ (.cons ?_ (.cons ?_ (.cons ?_ (.cons ?_ (.cons ?_ (.nil _)))))) <;>
      intro side <;> cases side <;> decide +kernel

end Snax.XDMACtrl
