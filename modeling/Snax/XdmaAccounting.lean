import Snax.ChainedWrite
import Snax.XdmaCtrl

/-! The counts of local tasks. A launch counts as local when its two first pointers share a
cluster, and its retirement when a copy of it leaves the destination side here; the counts
agree as long as exactly one copy of each such launch is written in this cluster. -/
namespace Snax.XDMACtrl

open DstConfigRouter

variable {param : XDMACtrlParam} {clusterBaseAddress : BitVec param.addrWidth}

def taskLinks (task : Task param .writer) : Nat := links task.cfg

theorem taskChain : Chain (dstRule clusterBaseAddress) taskLinks where
  chained_iff task := (chain : Chain (rule param clusterBaseAddress) links).chained_iff task.cfg
  shifted task := (chain : Chain (rule param clusterBaseAddress) links).shifted task.cfg

/-- The copies of a task, with its number. -/
theorem copies_task (task : Task param .writer) :
    copies (dstRule clusterBaseAddress) taskLinks task =
      (deliveries clusterBaseAddress task.cfg).map fun cfg => ⟨cfg,task.entry⟩ := by
  have each (n : Nat) (cfg : Cfg param) (entry : Nat) :
      copiesFrom (dstRule clusterBaseAddress).shifted n ⟨cfg,entry⟩ =
        (copiesFrom (rule param clusterBaseAddress).shifted n cfg).map fun cfg => ⟨cfg,entry⟩ := by
    induction n generalizing cfg with
    | zero => rfl
    | succ n ih => exact congrArg _ (ih _)
  exact each _ _ _

theorem localLoopback_copy {cfg copy : Cfg param} (member : copy ∈ deliveries clusterBaseAddress cfg) :
    copy.localLoopback = cfg.localLoopback := by
  obtain ⟨k,kth⟩ := List.mem_iff_getElem?.mp member
  have within : k ≤ links cfg := by
    have inside := (List.getElem?_eq_some_iff.mp kth).choose
    rw [copies_length] at inside
    exact Nat.le_of_lt_succ inside
  rw [deliveries,copies,copiesFrom_getElem? _ cfg within,Option.some_inj] at kth
  have others := congrArg XDMACfgIO.localLoopback (others_iterate cfg k)
  rw [← kth]
  exact others

/-- Exactly one copy of the task is written in this cluster. -/
def LandsOnce (clusterBaseAddress : BitVec param.addrWidth) (cfg : Cfg param) : Prop :=
  ((deliveries clusterBaseAddress cfg).filter
    ((rule param clusterBaseAddress).sel · .toLocal)).length = 1

def isLocal (task : Task param .writer) : Bool := task.cfg.localLoopback

/-- The numbers of the local tasks among some. -/
def locals (tasks : List (Task param .writer)) : List Nat := (tasks.filter isLocal).map Task.entry

theorem locals_append (xs ys : List (Task param .writer)) : locals (xs ++ ys) = locals xs ++ locals ys := by
  simp [locals]

theorem locals_single (task : Task param .writer) :
    locals [task] = if isLocal task then [task.entry] else [] := by
  cases counts : isLocal task <;> simp [locals,counts]

/-- Of the copies of a local task one is delivered here, and counts for it. -/
theorem locals_copies {task : Task param .writer}
    (once : isLocal task = true → LandsOnce clusterBaseAddress task.cfg) :
    locals ((copies (dstRule clusterBaseAddress) taskLinks task).filter
      ((dstRule clusterBaseAddress).sel · .toLocal)) = locals [task] := by
  have here : (copies (dstRule clusterBaseAddress) taskLinks task).filter
      ((dstRule clusterBaseAddress).sel · .toLocal) =
    ((deliveries clusterBaseAddress task.cfg).filter
      ((rule param clusterBaseAddress).sel · .toLocal)).map fun cfg => ⟨cfg,task.entry⟩ := by
    rw [copies_task,List.filter_map]
    rfl
  have flag : ∀ cfg ∈ (deliveries clusterBaseAddress task.cfg).filter
      ((rule param clusterBaseAddress).sel · .toLocal), cfg.localLoopback = isLocal task :=
    fun cfg member => localLoopback_copy (List.mem_filter.mp member).1
  rw [here,locals_single]
  cases counts : isLocal task with
  | true =>
    obtain ⟨cfg,single⟩ := List.length_eq_one_iff.mp (once counts)
    rw [single] at flag ⊢
    have same := flag cfg (List.mem_singleton_self _)
    rw [counts] at same
    simp [locals,isLocal,same]
  | false =>
    rw [counts] at flag
    rw [locals,List.filter_eq_nil_iff.mpr]
    · rfl
    · intro copy member
      obtain ⟨cfg,inside,rfl⟩ := List.mem_map.mp member
      simp [isLocal,flag cfg inside]

theorem locals_flatMap {tasks : List (Task param .writer)}
    (once : ∀ task ∈ tasks, isLocal task = true → LandsOnce clusterBaseAddress task.cfg) :
    locals ((tasks.flatMap (copies (dstRule clusterBaseAddress) taskLinks)).filter
      ((dstRule clusterBaseAddress).sel · .toLocal)) = locals tasks := by
  induction tasks with
  | nil => rfl
  | cons task tasks ih =>
    rw [List.flatMap_cons,List.filter_append,locals_append,
      locals_copies (once task (List.mem_cons_self ..)),
      ih fun other member => once other (List.mem_cons_of_mem _ member),← locals_append]
    rfl

/-! ### Numbered lists -/

/-- Each entry with the count it brings an 8-bit counter to. -/
def stamped (entries : List Nat) : List (Nat × BitVec 8) :=
  entries.zipIdx.map fun p => (p.1,BitVec.ofNat 8 (p.2 + 1))

theorem stamped_concat (entries : List Nat) (entry : Nat) :
    stamped (entries ++ [entry]) = stamped entries ++ [(entry,BitVec.ofNat 8 entries.length + 1)] := by
  simp [stamped,List.zipIdx_append,BitVec.ofNat_add]

theorem stamped_within {xs ys : List Nat} (front : xs <+: ys) : stamped xs <+: stamped ys := by
  obtain ⟨rest,rfl⟩ := front
  rw [stamped,stamped,List.zipIdx_append,List.map_append]
  exact List.prefix_append _ _

theorem stamped_length (entries : List Nat) : (stamped entries).length = entries.length := by
  simp [stamped]

/-! ### One cycle -/

theorem locals_toList (task : Option (Task param .writer)) :
    locals task.toList = if task.any isLocal then (task.map Task.entry).toList else [] := by
  cases task with
  | none => rfl
  | some task => rw [Option.toList_some,locals_single]; rfl

theorem locals_judged (task : Option (Task param .writer)) :
    locals (task.map judged).toList = locals task.toList := by
  cases task with
  | none => rfl
  | some task =>
    rw [Option.map_some,Option.toList_some,locals_single,Option.toList_some,locals_single]
    rfl

theorem isLocal_fromRemote {s : State param} {i : Input param} {task : Task param .writer}
    (arrives : fromRemote s i .writer = some task) : isLocal task = false := by
  obtain ⟨cfg,_,rfl⟩ := Option.map_eq_some_iff.mp arrives
  rfl

/-- The destination router accepts the launch, or else nothing local. -/
theorem accepted_cases (clusterBaseAddress : BitVec param.addrWidth) (s : State param) (i : Input param) :
    (∃ launch, launched clusterBaseAddress s i = some launch ∧
      (out clusterBaseAddress s i).dst.accepted =
        some ⟨launch.preRoute (taskID s launch) .writer,s.cycle + 1⟩) ∨
    (launched clusterBaseAddress s i = none ∧
      ∀ task, (out clusterBaseAddress s i).dst.accepted = some task → isLocal task = false) := by
  change (∃ _, _ ∧ accepted (dstRule clusterBaseAddress) s.dstRouter
    (dstInput clusterBaseAddress s i) = _) ∨ (_ ∧ ∀ task, accepted (dstRule clusterBaseAddress)
      s.dstRouter (dstInput clusterBaseAddress s i) = some task → _)
  cases launch : launched clusterBaseAddress s i with
  | some l =>
    have ready : fromLocalReady (dstRule clusterBaseAddress) s.dstRouter = true := by
      apply Bool.eq_true_of_not_eq_false
      intro stalled
      simp [launched,stalled] at launch
    have given : (dstInput clusterBaseAddress s i).fromLocal =
        some ⟨l.preRoute (taskID s l) .writer,s.cycle + 1⟩ := by
      simp [dstInput,preRoute,launch]
    refine .inl ⟨l,rfl,?_⟩
    rw [accepted,if_pos ready,given,Option.some_or]
  | none =>
    have absent : (dstInput clusterBaseAddress s i).fromLocal = none := by
      simp [dstInput,preRoute,launch]
    refine .inr ⟨rfl,fun task taken => ?_⟩
    rw [accepted,absent,Option.none_or] at taken
    split at taken
    · exact isLocal_fromRemote taken
    · cases taken

/-- A local task is accepted by the destination router exactly when one is launched. -/
theorem locals_accepted (clusterBaseAddress : BitVec param.addrWidth) (s : State param) (i : Input param) :
    locals (out clusterBaseAddress s i).dst.accepted.toList =
      if (launched clusterBaseAddress s i).any Launch.localLoopback then [s.cycle + 1] else [] := by
  rcases accepted_cases clusterBaseAddress s i with
    ⟨l,launch,taken⟩ | ⟨launch,remote⟩
  · rw [launch,taken,Option.toList_some,locals_single]
    rfl
  · rw [launch,locals_toList,if_neg]
    · rfl
    · cases taken : (out clusterBaseAddress s i).dst.accepted with
      | none => simp
      | some task => simp [remote task taken]

theorem localFinish_eq (clusterBaseAddress : BitVec param.addrWidth) (s : State param) (i : Input param) :
    localFinish s i = (out clusterBaseAddress s i).dstPopped.any isLocal := by
  cases pop : dstPop s i <;> cases full : s.currentCfgDst.maybeFull <;>
    simp [localFinish,out,pop,full,RegCut.deq,isLocal]

theorem locals_popped (clusterBaseAddress : BitVec param.addrWidth) (s : State param) (i : Input param) :
    locals (out clusterBaseAddress s i).dstPopped.toList =
      if localFinish s i then [s.currentCfgDst.bits.entry] else [] := by
  rw [localFinish_eq clusterBaseAddress,locals_toList]
  cases pop : dstPop s i <;> cases full : s.currentCfgDst.maybeFull <;>
    simp [out,pop,full,RegCut.deq]

/-- The current configuration of the destination side passes on what it is given. -/
theorem next_current (s : State param) (i : Input param) :
    locals (out clusterBaseAddress s i).dstPopped.toList ++
        locals (next clusterBaseAddress s i).currentCfgDst.deq.toList =
      locals s.currentCfgDst.deq.toList ++
        locals ((out clusterBaseAddress s i).dst.delivered .toLocal).toList := by
  have moved := s.currentCfgDst.next_conserves (postRouteDst clusterBaseAddress s) (dstPop s i)
  have taken : s.currentCfgDst.taken (postRouteDst clusterBaseAddress s) =
      ((out clusterBaseAddress s i).dst.delivered .toLocal).map judged := by
    change _ = (fire (dstRule clusterBaseAddress) s.dstRouter
      (dstInput clusterBaseAddress s i) .toLocal).map judged
    cases ready : s.currentCfgDst.enqReady <;>
      simp [RegCut.taken,fire,outReady,dstInput,ready,postRouteDst]
  rw [taken] at moved
  have counted := congrArg locals moved
  rw [locals_append,locals_append,locals_judged] at counted
  exact counted

/-! ### Runs -/

def dstHistory (history : List (Output param)) : List (DstConfigRouter.Output (Task param .writer)) :=
  history.map Output.dst

/-- The local tasks that were launched and those that have retired, each with the count that
software sees from then on. -/
def submittedBy (history : List (Output param)) : List (Nat × BitVec 8) :=
  history.filterMap Output.submitted
def finishedBy (history : List (Output param)) : List (Nat × BitVec 8) :=
  history.filterMap Output.finished
def retiredBy (history : List (Output param)) : List (Task param .writer) :=
  history.filterMap Output.dstPopped

theorem submittedBy_concat (history : List (Output param)) (x : Output param) :
    submittedBy (history ++ [x]) = submittedBy history ++ x.submitted.toList := Sync.filterMap_concat _ _ _

theorem finishedBy_concat (history : List (Output param)) (x : Output param) :
    finishedBy (history ++ [x]) = finishedBy history ++ x.finished.toList := Sync.filterMap_concat _ _ _

theorem retiredBy_concat (history : List (Output param)) (x : Output param) :
    retiredBy (history ++ [x]) = retiredBy history ++ x.dstPopped.toList := Sync.filterMap_concat _ _ _

structure Accounts (clusterBaseAddress : BitVec param.addrWidth) (history : List (Output param))
    (s : State param) : Prop where
  routed : Routed (dstRule clusterBaseAddress) taskLinks (dstHistory history) s.dstRouter
  once : ∀ task ∈ acceptedBy (dstHistory history), isLocal task = true →
    LandsOnce clusterBaseAddress task.cfg
  retired : locals (deliveredBy .toLocal (dstHistory history)) =
    locals (retiredBy history) ++ locals s.currentCfgDst.deq.toList
  submitted : submittedBy history = stamped (locals (acceptedBy (dstHistory history)))
  finished : finishedBy history = stamped (locals (retiredBy history))
  localSubmitted : s.localSubmitted = BitVec.ofNat 8 (locals (acceptedBy (dstHistory history))).length
  localFinished : s.localFinished = BitVec.ofNat 8 (locals (retiredBy history)).length

/-- Every launch that counts as local in this cycle is written here exactly once. -/
def LaunchesLandOnce (clusterBaseAddress : BitVec param.addrWidth) (s : State param) (i : Input param) :
    Prop :=
  ∀ launch, launched clusterBaseAddress s i = some launch → launch.localLoopback = true →
    LandsOnce clusterBaseAddress (launch.preRoute (taskID s launch) .writer)

theorem initial_accounts : Accounts clusterBaseAddress [] (initial param) where
  routed := initial_routed
  once _ member := absurd member List.not_mem_nil
  retired := rfl
  submitted := rfl
  finished := rfl
  localSubmitted := rfl
  localFinished := rfl

theorem next_accounts {history : List (Output param)} {s : State param}
    (accounts : Accounts clusterBaseAddress history s) {i : Input param}
    (lands : LaunchesLandOnce clusterBaseAddress s i) :
    Accounts clusterBaseAddress (history ++ [out clusterBaseAddress s i]) (next clusterBaseAddress s i) := by
  have split : dstHistory (history ++ [out clusterBaseAddress s i]) =
      dstHistory history ++ [(out clusterBaseAddress s i).dst] := List.map_append
  have retired := retiredBy_concat history (out clusterBaseAddress s i)
  have launches := locals_accepted clusterBaseAddress s i
  have retires := locals_popped clusterBaseAddress s i
  refine ⟨?_,?_,?_,?_,?_,?_,?_⟩
  · rw [split]
    exact next_routed taskChain accounts.routed _
  · intro task member counts
    rw [split,acceptedBy_concat] at member
    rcases List.mem_append.mp member with before | now
    · exact accounts.once task before counts
    · have taken := Option.mem_toList.mp now
      rcases accepted_cases clusterBaseAddress s i with
        ⟨l,launch,given⟩ | ⟨_,remote⟩
      · rw [given] at taken
        obtain rfl := Option.some_inj.mp taken
        exact lands l launch counts
      · rw [remote task taken] at counts
        exact absurd counts Bool.false_ne_true
  · rw [split,deliveredBy_concat,locals_append,accounts.retired,retired,locals_append,
      List.append_assoc,List.append_assoc,next_current]
  · rw [submittedBy_concat,split,acceptedBy_concat,locals_append,launches]
    cases counts : (launched clusterBaseAddress s i).any Launch.localLoopback with
    | false => simpa [out,counts] using accounts.submitted
    | true =>
      rw [if_pos rfl,stamped_concat,← accounts.submitted,← accounts.localSubmitted]
      simp [out,counts,next,BasicCounter.next]
  · rw [finishedBy_concat,retired,locals_append,retires]
    cases counts : localFinish s i with
    | false => simpa [out,counts] using accounts.finished
    | true =>
      rw [if_pos rfl,stamped_concat,← accounts.finished,← accounts.localFinished]
      simp [out,counts,next,BasicCounter.next]
  · rw [split,acceptedBy_concat,locals_append,launches]
    cases counts : (launched clusterBaseAddress s i).any Launch.localLoopback with
    | false => simpa [next,counts,BasicCounter.next] using accounts.localSubmitted
    | true =>
      simp [next,counts,BasicCounter.next,accounts.localSubmitted,BitVec.ofNat_add]
  · rw [retired,locals_append,retires]
    cases counts : localFinish s i with
    | false => simpa [next,counts,BasicCounter.next] using accounts.localFinished
    | true =>
      simp [next,counts,BasicCounter.next,accounts.localFinished,BitVec.ofNat_add]

/-- The local tasks retire in the order of their launches, each at the count that software
was given for it; the counters show how many there were of both, and once no configuration
is left on the destination side all have retired. -/
structure Balanced (history : List (Output param)) (s : State param) : Prop where
  order : finishedBy history <+: submittedBy history
  atMost : (finishedBy history).length ≤ (submittedBy history).length
  localSubmitted : s.localSubmitted = BitVec.ofNat 8 (submittedBy history).length
  localFinished : s.localFinished = BitVec.ofNat 8 (finishedBy history).length
  drained : s.dstRouter.bufferedCfg.elems = [] → s.currentCfgDst.maybeFull = false →
    finishedBy history = submittedBy history ∧ s.localFinished = s.localSubmitted

theorem Accounts.delivered {history : List (Output param)} {s : State param}
    (accounts : Accounts clusterBaseAddress history s) :
    locals (deliveredBy .toLocal (dstHistory history)) <+: locals (acceptedBy (dstHistory history)) := by
  have within := accounts.routed.delivered_within .toLocal
  rw [← locals_flatMap accounts.once]
  exact (within.filter _).map _

theorem Accounts.balanced {history : List (Output param)} {s : State param}
    (accounts : Accounts clusterBaseAddress history s) : Balanced history s := by
  have retired : locals (retiredBy history) <+: locals (acceptedBy (dstHistory history)) := by
    apply List.IsPrefix.trans _ accounts.delivered
    rw [accounts.retired]
    exact List.prefix_append _ _
  have order : finishedBy history <+: submittedBy history := by
    rw [accounts.finished,accounts.submitted]
    exact stamped_within retired
  have localSubmitted : s.localSubmitted = BitVec.ofNat 8 (submittedBy history).length := by
    rw [accounts.submitted,stamped_length,accounts.localSubmitted]
  have localFinished : s.localFinished = BitVec.ofNat 8 (finishedBy history).length := by
    rw [accounts.finished,stamped_length,accounts.localFinished]
  refine ⟨order,order.length_le,localSubmitted,localFinished,fun empty none => ?_⟩
  have delivered := accounts.routed.delivered .toLocal
  have all := accounts.routed.order
  have quiet := accounts.routed.sound.transmitted_empty empty .toLocal
  rw [heads_empty empty,List.append_nil] at all
  rw [transmitted,quiet,all] at delivered
  have same : locals (retiredBy history) = locals (acceptedBy (dstHistory history)) := by
    have left := accounts.retired
    rw [delivered] at left
    simp only [RegCut.deq,none,Bool.false_eq_true,if_false,List.append_nil] at left
    rw [locals_flatMap accounts.once] at left
    rw [left]
    simp [locals]
  have equal : finishedBy history = submittedBy history := by
    rw [accounts.finished,accounts.submitted,same]
  exact ⟨equal,by rw [localFinished,localSubmitted,equal]⟩

/-- Task accounting, in every run whose local launches are each written here exactly once. -/
theorem local_accounting (clusterBaseAddress : BitVec param.addrWidth) (inputs : List (Input param))
    (lands : (xdmaCtrl clusterBaseAddress).Each (fun _ => LaunchesLandOnce clusterBaseAddress)
      (initial param) inputs) :
    Balanced ((xdmaCtrl clusterBaseAddress).outs (initial param) inputs)
      ((xdmaCtrl clusterBaseAddress).exec (initial param) inputs) :=
  (Sync.Machine.run_rule_each (Accounts clusterBaseAddress) lands initial_accounts
    (fun _ _ _ accounts once => next_accounts accounts once)).balanced

/-- A copy with one destination, in this cluster, lands there once. -/
theorem landsOnce_of_single {cfg : Cfg param} (here : InCluster clusterBaseAddress (cfg.dest 0))
    (single : cfg.dest 1 = 0) : LandsOnce clusterBaseAddress cfg := by
  have unchained : (rule param clusterBaseAddress).sel cfg .chainedWrite = false := by simp [rule,single]
  rw [LandsOnce,deliveries,chain.copies_single unchained]
  simp [(toLocal_iff cfg).mpr here]

def defaultBase : BitVec XDMA.defaultParam.addrWidth := 0x10000000

/-- A launch of the default parameters with word strides and one loop. -/
def copyLaunch (readerPtr : BitVec 48) (writerPtr : Vector (BitVec 48) 4) (bound : BitVec 22) :
    Launch XDMA.defaultParam where
  readerPtr := readerPtr
  writerPtr := writerPtr
  fields _ := ⟨⟨0,Vector.replicate 1 8,#v[bound,1,1,1,1],#v[64,0,0,0,0],0⟩,⟨0,0⟩,
    Vector.replicate _ 0⟩

/-- A cycle without traffic on the link in which nobody is busy. -/
def quietCycle (launch : Option (Launch XDMA.defaultParam)) : Input XDMA.defaultParam :=
  ⟨launch,none,true,false,false,false⟩

/-- Both pointers lie in the cluster after this one. -/
def elsewhere : Launch XDMA.defaultParam := copyLaunch 0x10400000 #v[0x10401000,0,0,0] 16

/-- A launch counted as local leaves for another cluster: nothing of it is left, the other
cluster has reported the task finished, and the local counts differ for good. -/
theorem local_accounting_elsewhere :
    let ctrl := xdmaCtrl defaultBase
    let inputs := [quietCycle (some elsewhere),quietCycle none,quietCycle none,
      { quietCycle none with remoteTaskFinished := true }]
    let s := ctrl.exec (initial _) inputs
    s.srcRouter.maybeFull = false ∧ s.dstRouter.bufferedCfg.elems.length = 0 ∧
      s.currentCfgSrc.maybeFull = false ∧ s.currentCfgDst.maybeFull = false ∧
      s.remoteFinished = 1 ∧ s.localSubmitted = 1 ∧ s.localFinished = 0 := by
  decide +kernel

theorem local_accounting_here :
    let inputs := [quietCycle (some (copyLaunch 0x10000000 #v[0x10001000,0,0,0] 16)),quietCycle none]
    Balanced ((xdmaCtrl defaultBase).outs (initial _) inputs)
      ((xdmaCtrl defaultBase).exec (initial _) inputs) := by
  apply local_accounting
  intro before i after split launch fires _
  have offered : i.launch = some launch := by
    unfold launched at fires
    split at fires
    · exact fires
    · cases fires
  have member : i ∈ [quietCycle (some (copyLaunch 0x10000000 #v[0x10001000,0,0,0] 16)),
      quietCycle none] := by
    rw [split]
    simp
  rcases List.mem_pair.mp member with rfl | rfl
  · obtain rfl := Option.some_inj.mp offered
    have here : InCluster defaultBase 0x10001000 := by decide +kernel
    exact landsOnce_of_single here rfl
  · cases offered

end Snax.XDMACtrl
