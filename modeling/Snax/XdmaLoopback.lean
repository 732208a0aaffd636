import Snax.XdmaAccounting
import Snax.Sync.Rendezvous

/-! Local loopback. The two state machines recognise the halves of one task by comparing
the pointers in their registers. That is right in every run in which tasks with the same
pointers never stand against each other there, and then both halves start together. -/
namespace Snax.XDMACtrl

open DstConfigRouter Sync.Rendezvous

variable {param : XDMACtrlParam} {clusterBaseAddress : BitVec param.addrWidth}

/-! ### The order of the tasks on both sides -/

structure Tag where
  entry : Nat
  isLocal : Bool
  /-- A further destination follows. -/
  further : Bool

def tag {side : Side} (task : Task param side) : Tag :=
  ⟨task.entry,task.cfg.localLoopback,task.cfg.dest 1 != 0⟩

def srcTags (s : State param) : List Tag := (s.currentCfgSrc.bits :: s.srcRouter.deq.toList).map tag
def dstTags (s : State param) : List Tag :=
  (s.currentCfgDst.bits :: s.dstRouter.bufferedCfg.elems).map tag

/-- In the order of entry; only a copy shares the number of the one it follows. -/
def Follows (x y : Tag) : Prop :=
  x.entry < y.entry ∨ (x.entry = y.entry ∧ x.isLocal = y.isLocal ∧ x.further = true)

/-- What the source router takes in. -/
def arrivingSrc (clusterBaseAddress : BitVec param.addrWidth) (s : State param) (i : Input param) :
    Option (Task param .reader) :=
  s.srcRouter.taken ((preRoute clusterBaseAddress s i .reader).or (fromRemote s i .reader))

/-- What the buffer of the destination router takes in, a copy included. -/
def arrivingDst (clusterBaseAddress : BitVec param.addrWidth) (s : State param) (i : Input param) :
    Option (Task param .writer) :=
  if bufferReady s.dstRouter then
    arbiterOut (dstRule clusterBaseAddress) s.dstRouter (preRoute clusterBaseAddress s i .writer)
      (fromRemote s i .writer)
  else none

theorem src_sublist (clusterBaseAddress : BitVec param.addrWidth) (s : State param) (i : Input param) :
    (srcTags (next clusterBaseAddress s i)).Sublist
      (srcTags s ++ (arrivingSrc clusterBaseAddress s i).toList.map tag) := by
  cases full : s.srcRouter.maybeFull with
  | false =>
    have quiet : postRouteSrc clusterBaseAddress s = none := by
      rw [postRouteSrc,SrcConfigRouter.offered_empty _ full,Option.map_none]
    have kept : (next clusterBaseAddress s i).currentCfgSrc.bits = s.currentCfgSrc.bits := by
      simp [next,quiet,RegCut.next,RegCut.taken]
    have after : (next clusterBaseAddress s i).srcRouter.deq =
        arrivingSrc clusterBaseAddress s i := by
      change (s.srcRouter.next ((preRoute clusterBaseAddress s i .reader).or
        (fromRemote s i .reader)) _).deq = _
      rw [RegCut.next,arrivingSrc]
      cases s.srcRouter.taken ((preRoute clusterBaseAddress s i .reader).or (fromRemote s i .reader)) <;>
        simp [RegCut.deq,full]
    rw [srcTags,srcTags,kept,after,RegCut.deq,full]
    simp
  | true =>
    have closed : arrivingSrc clusterBaseAddress s i = none := by
      simp [arrivingSrc,RegCut.taken,RegCut.enqReady,full]
    have after : (next clusterBaseAddress s i).srcRouter = ⟨s.srcRouter.bits,
        !SrcConfigRouter.outReady (srcRule clusterBaseAddress) s.srcRouter
          (srcInput clusterBaseAddress s i)⟩ := by
      simp [next,SrcConfigRouter.next,RegCut.next,RegCut.taken,RegCut.enqReady,full]
    have waits (kept : (next clusterBaseAddress s i).currentCfgSrc.bits = s.currentCfgSrc.bits) :
        (srcTags (next clusterBaseAddress s i)).Sublist
          (srcTags s ++ (arrivingSrc clusterBaseAddress s i).toList.map tag) := by
      rw [srcTags,srcTags,kept,after,closed]
      simp only [RegCut.deq,full]
      split <;> simp
    cases room : s.currentCfgSrc.maybeFull with
    | true => exact waits (by simp [next,RegCut.next,RegCut.taken,RegCut.enqReady,room])
    | false =>
      by_cases here : srcRule clusterBaseAddress s.srcRouter.bits = .cTypeLocal
      · have moved : tag (next clusterBaseAddress s i).currentCfgSrc.bits = tag s.srcRouter.bits := by
          have offers : postRouteSrc clusterBaseAddress s = some { s.srcRouter.bits with
              cfg := { s.srcRouter.bits.cfg with remoteLoopback := false } } := by
            rw [postRouteSrc,SrcConfigRouter.offered_full _ full,if_pos here,Option.map_some]
          simp [next,offers,RegCut.next,RegCut.taken,RegCut.enqReady,room]
          rfl
        have gone : (next clusterBaseAddress s i).srcRouter.deq = none := by
          simp [after,SrcConfigRouter.outReady,here,srcInput,RegCut.enqReady,room,RegCut.deq]
        rw [srcTags,List.map_cons,moved,gone,srcTags]
        simp [RegCut.deq,full]
      · have quiet : postRouteSrc clusterBaseAddress s = none := by
          rw [postRouteSrc,SrcConfigRouter.offered_full _ full,if_neg here,Option.map_none]
        exact waits (by simp [next,quiet,RegCut.next,RegCut.taken])

/-- A task taken by the destination side leaves the router at once. -/
theorem pops_toLocal {s : DstConfigRouter.State (Task param .writer)}
    (sound : Sound (dstRule clusterBaseAddress) s) {h : Task param .writer}
    {rest : List (Task param .writer)} (elems : s.bufferedCfg.elems = h :: rest)
    {i : DstConfigRouter.Input (Task param .writer)} (ready : i.toLocalReady = true)
    (goes : (dstRule clusterBaseAddress).sel h .toLocal = true) :
    inReady (dstRule clusterBaseAddress) s i = true := by
  apply (inReady_front elems i).mpr
  intro c selected
  cases c with
  | toLocal => exact .inl ready
  | toRemote =>
    have here := (toLocal_iff h.cfg).mp goes
    exact absurd here ((toRemote_iff h.cfg).mp selected).1
  | chainedWrite => exact sound.copy_ready elems selected

theorem offered_some {s : DstConfigRouter.State (Task param .writer)} {c : DstConfigRouter.Port}
    {h : Task param .writer} (offers : offered (dstRule clusterBaseAddress) s c = some h) :
    ∃ rest, s.bufferedCfg.elems = h :: rest ∧ (dstRule clusterBaseAddress).sel h c = true ∧
      s.dataTransmitted c = false := by
  unfold offered at offers
  split at offers
  · obtain ⟨rest,elems⟩ := List.head?_eq_some_iff.mp offers
    rename_i valid
    rw [outValid_front elems,Bool.and_eq_true,Bool.not_eq_true'] at valid
    exact ⟨rest,elems,valid.1,valid.2⟩
  · cases offers

theorem tag_judged (task : Task param .writer) : tag (judged task) = tag task := rfl

theorem dst_sublist {s : State param} (sound : Sound (dstRule clusterBaseAddress) s.dstRouter)
    (i : Input param) : (dstTags (next clusterBaseAddress s i)).Sublist
      (dstTags s ++ (arrivingDst clusterBaseAddress s i).toList.map tag) := by
  have after : (next clusterBaseAddress s i).dstRouter.bufferedCfg.elems = _ :=
    next_elems s.dstRouter (dstInput clusterBaseAddress s i)
  change _ = _ ++ (arrivingDst clusterBaseAddress s i).toList at after
  have kept (same : (next clusterBaseAddress s i).currentCfgDst.bits = s.currentCfgDst.bits) :
      (dstTags (next clusterBaseAddress s i)).Sublist
        (dstTags s ++ (arrivingDst clusterBaseAddress s i).toList.map tag) := by
    rw [dstTags,dstTags,same,after,List.map_cons,List.map_cons,List.map_append,List.cons_append]
    apply List.Sublist.cons_cons
    apply List.Sublist.append_right
    apply List.Sublist.map
    split
    · exact List.tail_sublist _
    · exact List.Sublist.refl _
  cases room : s.currentCfgDst.maybeFull with
  | true => exact kept (by simp [next,RegCut.next,RegCut.taken,RegCut.enqReady,room])
  | false =>
    cases offers : offered (dstRule clusterBaseAddress) s.dstRouter .toLocal with
    | none => exact kept (by simp [next,postRouteDst,offers,RegCut.next,RegCut.taken])
    | some h =>
      obtain ⟨rest,elems,goes,_⟩ := offered_some offers
      have ready : (dstInput clusterBaseAddress s i).toLocalReady = true := by
        simp [dstInput,RegCut.enqReady,room]
      rw [pops_toLocal sound elems ready goes,if_pos rfl,elems,List.tail_cons] at after
      have moved : (next clusterBaseAddress s i).currentCfgDst.bits = judged h := by
        simp [next,postRouteDst,offers,RegCut.next,RegCut.taken,RegCut.enqReady,room]
      rw [dstTags,dstTags,moved,after,elems,List.map_cons,tag_judged]
      simp

/-! ### Arrivals -/

theorem isLocal_preRoute {s : State param} {i : Input param} {side : Side} {task : Task param side}
    (arrives : (preRoute clusterBaseAddress s i side).or (fromRemote s i side) = some task) :
    task.entry = s.cycle + 1 ∧ task.cfg.localLoopback =
      (launched clusterBaseAddress s i).any Launch.localLoopback := by
  unfold preRoute at arrives
  cases launch : launched clusterBaseAddress s i with
  | some l =>
    rw [launch,Option.map_some,Option.some_or,Option.some_inj] at arrives
    subst arrives
    exact ⟨rfl,rfl⟩
  | none =>
    rw [launch,Option.map_none,Option.none_or] at arrives
    obtain ⟨cfg,_,rfl⟩ := Option.map_eq_some_iff.mp arrives
    exact ⟨rfl,rfl⟩

theorem arrivingSrc_tag {s : State param} {i : Input param} {task : Task param .reader}
    (arrives : arrivingSrc clusterBaseAddress s i = some task) :
    task.entry = s.cycle + 1 ∧ task.cfg.localLoopback =
      (launched clusterBaseAddress s i).any Launch.localLoopback := by
  unfold arrivingSrc RegCut.taken at arrives
  split at arrives
  · exact isLocal_preRoute arrives
  · cases arrives

/-- The buffer takes a new task, or the copy of its front. -/
theorem arrivingDst_cases {s : State param} {i : Input param} {task : Task param .writer}
    (arrives : arrivingDst clusterBaseAddress s i = some task) :
    (task.entry = s.cycle + 1 ∧ task.cfg.localLoopback =
      (launched clusterBaseAddress s i).any Launch.localLoopback) ∨
    ∃ h rest, s.dstRouter.bufferedCfg.elems = h :: rest ∧ task.entry = h.entry ∧
      task.cfg.localLoopback = h.cfg.localLoopback ∧ h.cfg.dest 1 ≠ 0 ∧
      outValid (dstRule clusterBaseAddress) s.dstRouter .chainedWrite = true := by
  unfold arrivingDst at arrives
  split at arrives
  · cases chained : outValid (dstRule clusterBaseAddress) s.dstRouter .chainedWrite with
    | false =>
      rw [arbiterOut_unchained chained] at arrives
      exact .inl (isLocal_preRoute arrives)
    | true =>
      have offers : offered (dstRule clusterBaseAddress) s.dstRouter .chainedWrite =
          s.dstRouter.bufferedCfg.deqBits := by simp [offered,chained]
      rcases elems : s.dstRouter.bufferedCfg.elems with _ | ⟨h,rest⟩
      · rw [outValid_empty elems] at chained
        exact absurd chained Bool.false_ne_true
      · rw [arbiterOut_chained elems chained,Option.some_inj] at arrives
        subst arrives
        have valid := chained
        rw [outValid_front elems,Bool.and_eq_true] at valid
        have further : h.cfg.dest 1 ≠ 0 := by
          have goes := valid.1
          simp only [dstRule,rule,Bool.and_eq_true,bne_iff_ne] at goes
          exact goes.1
        exact .inr ⟨h,rest,rfl,rfl,rfl,further,rfl⟩
  · cases arrives

structure Ordered (clusterBaseAddress : BitVec param.addrWidth) (s : State param) : Prop where
  src : (srcTags s).Pairwise (·.entry < ·.entry)
  srcMost : ∀ x ∈ srcTags s, x.entry ≤ s.cycle
  dst : (dstTags s).Pairwise Follows
  dstMost : ∀ x ∈ dstTags s, x.entry ≤ s.cycle
  agree : ∀ x ∈ srcTags s, ∀ y ∈ dstTags s, x.entry = y.entry → x.isLocal = y.isLocal
  sound : Sound (dstRule clusterBaseAddress) s.dstRouter

theorem pairwise_arrival {R : Tag → Tag → Prop} {xs ys : List Tag} {side : Side}
    {task : Option (Task param side)} (before : xs.Pairwise R)
    (last : ∀ t, task = some t → ∀ x ∈ xs, R x (tag t))
    (after : ys.Sublist (xs ++ task.toList.map tag)) : ys.Pairwise R := by
  apply List.Pairwise.sublist after
  cases task with
  | none => simpa using before
  | some t => exact List.pairwise_append.mpr ⟨before,List.pairwise_singleton _ _,by simpa using last t rfl⟩

theorem mem_arrival {xs ys : List Tag} {side : Side} {task : Option (Task param side)} {x : Tag}
    (after : ys.Sublist (xs ++ task.toList.map tag)) (member : x ∈ ys) :
    x ∈ xs ∨ ∃ t, task = some t ∧ x = tag t := by
  rcases List.mem_append.mp (after.subset member) with old | new
  · exact .inl old
  · obtain ⟨t,arrived,rfl⟩ := List.mem_map.mp new
    exact .inr ⟨t,Option.mem_toList.mp arrived,rfl⟩

theorem initial_ordered : Ordered clusterBaseAddress (initial param) where
  src := List.pairwise_singleton _ _
  srcMost x member := by
    obtain rfl := List.mem_singleton.mp member
    exact Nat.le_refl _
  dst := List.pairwise_singleton _ _
  dstMost x member := by
    obtain rfl := List.mem_singleton.mp member
    exact Nat.le_refl _
  agree x xIn y yIn _ := by
    obtain rfl := List.mem_singleton.mp xIn
    obtain rfl := List.mem_singleton.mp yIn
    rfl
  sound := initial_sound

theorem front_tag {s : State param} {h : Task param .writer} {rest : List (Task param .writer)}
    (elems : s.dstRouter.bufferedCfg.elems = h :: rest) : tag h ∈ dstTags s := by
  simp [dstTags,elems]

theorem Ordered.next {s : State param} (ordered : Ordered clusterBaseAddress s) (i : Input param) :
    Ordered clusterBaseAddress (next clusterBaseAddress s i) := by
  have srcAfter := src_sublist clusterBaseAddress s i
  have dstAfter := dst_sublist ordered.sound i
  refine ⟨pairwise_arrival ordered.src ?_ srcAfter,fun x member => ?_,
    pairwise_arrival ordered.dst ?_ dstAfter,fun x member => ?_,fun x xIn y yIn same => ?_,
    ordered.sound.next _⟩
  · intro t arrives x member
    have late := (arrivingSrc_tag arrives).1
    have early := ordered.srcMost x member
    change x.entry < t.entry
    omega
  · change x.entry ≤ s.cycle + 1
    rcases mem_arrival srcAfter member with old | ⟨t,arrives,rfl⟩
    · exact Nat.le_succ_of_le (ordered.srcMost x old)
    · exact Nat.le_of_eq (arrivingSrc_tag arrives).1
  · intro t arrives x member
    rcases arrivingDst_cases arrives with ⟨late,_⟩ | ⟨h,rest,elems,entry,flag,further,chained⟩
    · have early := ordered.dstMost x member
      left
      change x.entry < t.entry
      omega
    · -- The copy goes to an empty place behind its origin, the only entry of the buffer.
      have alone := ordered.sound.alone chained
      obtain rfl : rest = [] := by simpa [elems] using alone
      have order := ordered.dst
      rw [dstTags,elems] at order member
      simp only [List.map_cons,List.map_nil,List.pairwise_cons,forall_eq,List.mem_cons,
        List.not_mem_nil,or_false] at order member
      rcases member with rfl | rfl
      · rcases order.1 with before | ⟨same,flags,more⟩
        · exact .inl (Nat.lt_of_lt_of_eq before entry.symm)
        · exact .inr ⟨same.trans entry.symm,flags.trans flag.symm,more⟩
      · exact .inr ⟨entry.symm,flag.symm,by simpa [tag] using further⟩
  · change x.entry ≤ s.cycle + 1
    rcases mem_arrival dstAfter member with old | ⟨t,arrives,rfl⟩
    · exact Nat.le_succ_of_le (ordered.dstMost x old)
    · rcases arrivingDst_cases arrives with ⟨late,_⟩ | ⟨h,rest,elems,entry,_,_,_⟩
      · exact Nat.le_of_eq late
      · have early := ordered.dstMost _ (front_tag elems)
        exact Nat.le_succ_of_le (Nat.le_trans (Nat.le_of_eq entry) early)
  · rcases mem_arrival srcAfter xIn with xOld | ⟨t,xNew,rfl⟩
    · rcases mem_arrival dstAfter yIn with yOld | ⟨u,yNew,rfl⟩
      · exact ordered.agree x xOld y yOld same
      · rcases arrivingDst_cases yNew with ⟨late,_⟩ | ⟨h,rest,elems,entry,flag,_,_⟩
        · have early := ordered.srcMost x xOld
          change x.entry = u.entry at same
          omega
        · exact (ordered.agree x xOld _ (front_tag elems) (same.trans entry)).trans flag.symm
    · obtain ⟨xLate,xFlag⟩ := arrivingSrc_tag xNew
      change t.entry = y.entry at same
      rcases mem_arrival dstAfter yIn with yOld | ⟨u,yNew,rfl⟩
      · have early := ordered.dstMost y yOld
        omega
      · rcases arrivingDst_cases yNew with ⟨_,yFlag⟩ | ⟨h,rest,elems,entry,_,_,_⟩
        · exact xFlag.trans yFlag.symm
        · have early := ordered.dstMost _ (front_tag elems)
          change t.entry = u.entry at same
          change h.entry ≤ s.cycle at early
          omega

/-! ### The two state machines -/

def srcLane (s : State param) : Lane :=
  ⟨s.currentCfgSrc.bits.entry,s.currentCfgSrc.bits.cfg.localLoopback,
    s.currentCfgSrc.maybeFull && s.currentStateSrc == .sIdle⟩

def dstLane (s : State param) : Lane :=
  ⟨s.currentCfgDst.bits.entry,s.currentCfgDst.bits.cfg.localLoopback,
    s.currentCfgDst.maybeFull && s.currentStateDst == .sIdle⟩

/-- A state machine that has left its idle state has a configuration. -/
def Occupied {side : Side} (r : RegCut (Task param side)) (state : FsmState) : Prop :=
  state ≠ .sIdle → r.maybeFull = true

/-- The register keeps its task, or an idle machine gets another one. -/
theorem fsm_cases {side : Side} {r : RegCut (Task param side)} {state : FsmState} {start : Bool}
    (empty busy : Bool) (occupied : Occupied r state) (starts : start = true → r.maybeFull = true)
    (enq : Option (Task param side)) :
    ((r.next enq (state.pop empty busy)).bits = r.bits ∧
      ((r.next enq (state.pop empty busy)).maybeFull && state.next start empty busy == .sIdle) =
        ((r.maybeFull && state == .sIdle) && !start)) ∨
    ∃ task, enq = some task ∧ r.maybeFull = false ∧
      r.next enq (state.pop empty busy) = ⟨task,true⟩ ∧ state.next start empty busy = .sIdle := by
  cases full : r.maybeFull with
  | true =>
    left
    cases state <;> cases start <;> cases empty <;> cases busy <;>
      simp [RegCut.next,RegCut.taken,RegCut.enqReady,FsmState.pop,FsmState.next,full]
  | false =>
    have idle : state = .sIdle := by
      by_contra moving
      simpa [full] using occupied moving
    have unstarted : start = false := by
      apply Bool.eq_false_iff.mpr
      intro started
      simpa [full] using starts started
    subst idle unstarted
    cases enq with
    | none => left; simp [RegCut.next,RegCut.taken,FsmState.pop,full]
    | some task =>
      right
      refine ⟨task,rfl,rfl,?_,rfl⟩
      simp [RegCut.next,RegCut.taken,RegCut.enqReady,full]

theorem Occupied.next {side : Side} {r : RegCut (Task param side)} {state : FsmState}
    {start empty busy : Bool} (occupied : Occupied r state)
    (starts : start = true → r.maybeFull = true) (enq : Option (Task param side)) :
    Occupied (r.next enq (state.pop empty busy)) (state.next start empty busy) := by
  cases full : r.maybeFull with
  | true =>
    intro moving
    cases state <;> cases start <;> cases empty <;> cases busy <;>
      simp_all [RegCut.next,RegCut.taken,RegCut.enqReady,FsmState.pop,FsmState.next]
  | false =>
    have idle : state = .sIdle := by
      by_contra moving
      simpa [full] using occupied moving
    have unstarted : start = false := by
      apply Bool.eq_false_iff.mpr
      intro started
      simpa [full] using starts started
    subst idle unstarted
    intro moving
    exact absurd rfl moving

theorem readerStart_fresh {s : State param} (start : readerStart s = true) :
    (srcLane s).fresh = true := by
  simp only [readerStart,Bool.and_eq_true] at start
  simp only [srcLane,start.1,start.2.1.1,Bool.and_self]

theorem writerStart_fresh {s : State param} (start : writerStart s = true) :
    (dstLane s).fresh = true := by
  simp only [writerStart,Bool.and_eq_true] at start
  simp only [dstLane,start.1,start.2.1,Bool.and_self]

/-- No task meets another one with the same pointers: wherever a waiting local task matches
the register of the other side, that register holds its own other half; and no local task
that reaches the writer has a further destination. -/
structure Unambiguous (s : State param) : Prop where
  src : (srcLane s).fresh = true → (srcLane s).paired = true → counterpart s = true →
    s.currentCfgSrc.bits.entry = s.currentCfgDst.bits.entry
  dst : (dstLane s).fresh = true → (dstLane s).paired = true → counterpart s = true →
    s.currentCfgSrc.bits.entry = s.currentCfgDst.bits.entry
  single : s.currentCfgDst.maybeFull = true → (dstLane s).paired = true →
    s.currentCfgDst.bits.cfg.remoteLoopback = false

structure Paired (clusterBaseAddress : BitVec param.addrWidth) (s : State param) : Prop where
  ordered : Ordered clusterBaseAddress s
  joint : Joint (srcLane s) (dstLane s)
  srcOccupied : Occupied s.currentCfgSrc s.currentStateSrc
  dstOccupied : Occupied s.currentCfgDst s.currentStateDst
  remoteLoopback : s.currentCfgDst.bits.cfg.remoteLoopback = (s.currentCfgDst.bits.cfg.dest 1 != 0)
  /-- A local task with a further destination is still waiting, if it ever got here. -/
  chained : (dstLane s).paired = true → s.currentCfgDst.bits.cfg.dest 1 ≠ 0 →
    s.currentCfgDst.maybeFull = true

theorem remoteLoopback_judged (task : Task param .writer) :
    (judged task).cfg.remoteLoopback = ((judged task).cfg.dest 1 != 0) := by
  change (param.maxMulticastDest != 1 && task.cfg.dest 1 != 0) = (task.cfg.dest 1 != 0)
  by_cases one : param.maxMulticastDest = 1
  · rw [dest_beyond task.cfg (Nat.le_of_eq one)]
    simp
  · have several : (param.maxMulticastDest != 1) = true := bne_iff_ne.mpr one
    rw [several,Bool.true_and]

section Cycle

variable {s : State param} (paired : Paired clusterBaseAddress s)
include paired

theorem Paired.agree (same : (srcLane s).label = (dstLane s).label) :
    (srcLane s).paired = (dstLane s).paired :=
  paired.ordered.agree (tag s.currentCfgSrc.bits) (List.mem_cons_self ..)
    (tag s.currentCfgDst.bits) (List.mem_cons_self ..) same

theorem Paired.meets (clear : Unambiguous s) :
    Meets (srcLane s) (dstLane s) (readerStart s) (writerStart s) where
  onlyA start isLocal := by
    have fresh := readerStart_fresh start
    change s.currentCfgSrc.bits.cfg.localLoopback = true at isLocal
    simp only [readerStart,isLocal,Bool.true_and,Bool.not_true,Bool.false_and,Bool.or_false,
      Bool.and_eq_true] at start
    exact clear.src fresh isLocal start.2.2
  onlyB start isLocal := by
    have fresh := writerStart_fresh start
    have full : s.currentCfgDst.maybeFull = true := (Bool.and_eq_true_iff.mp fresh).1
    have single := clear.single full isLocal
    change s.currentCfgDst.bits.cfg.localLoopback = true at isLocal
    simp only [writerStart,isLocal,single,Bool.true_and,Bool.not_true,Bool.false_and,Bool.or_false,
      Bool.and_eq_true] at start
    exact clear.dst fresh isLocal start.2.2
  both isLocal same freshSrc freshDst := by
    have other : (dstLane s).paired = true := (paired.agree same).symm.trans isLocal
    obtain ⟨srcFull,srcIdle⟩ := Bool.and_eq_true_iff.mp freshSrc
    obtain ⟨dstFull,dstIdle⟩ := Bool.and_eq_true_iff.mp freshDst
    have single := clear.single dstFull other
    change s.currentCfgSrc.bits.cfg.localLoopback = true at isLocal
    change s.currentCfgDst.bits.cfg.localLoopback = true at other
    simp [readerStart,writerStart,srcFull,srcIdle,dstFull,dstIdle,single,isLocal,other]

theorem Paired.moves_src (i : Input param) :
    Moves (readerStart s) (srcLane s) (srcLane (next clusterBaseAddress s i)) := by
  have starts (start : readerStart s = true) : s.currentCfgSrc.maybeFull = true :=
    (Bool.and_eq_true_iff.mp (readerStart_fresh start)).1
  rcases fsm_cases (srcEmpty s) i.readerBusy paired.srcOccupied starts
    (postRouteSrc clusterBaseAddress s) with ⟨bits,fresh⟩ | ⟨task,given,room,after,idle⟩
  · exact .stays (congrArg Task.entry bits) (congrArg (·.cfg.localLoopback) bits) fresh
  · obtain ⟨origin,offers,rfl⟩ := Option.map_eq_some_iff.mp given
    have full : s.srcRouter.deq = some origin := (Option.filter_eq_some_iff.mp offers).1
    have order := paired.ordered.src
    rw [srcTags,full] at order
    refine .replaced (.inl ?_) ?_
    · change _ < (s.currentCfgSrc.next _ _).bits.entry
      rw [srcPop,after]
      exact List.rel_of_pairwise_cons order (List.mem_singleton_self _)
    · change ((s.currentCfgSrc.next _ _).maybeFull && s.currentStateSrc.next _ _ _ == .sIdle) = true
      rw [srcPop,after,idle]
      rfl

theorem Paired.moves_dst (i : Input param) :
    Moves (writerStart s) (dstLane s) (dstLane (next clusterBaseAddress s i)) := by
  have starts (start : writerStart s = true) : s.currentCfgDst.maybeFull = true :=
    (Bool.and_eq_true_iff.mp (writerStart_fresh start)).1
  rcases fsm_cases (dstEmpty s) i.writerBusy paired.dstOccupied starts
    (postRouteDst clusterBaseAddress s) with ⟨bits,fresh⟩ | ⟨task,given,room,after,idle⟩
  · exact .stays (congrArg Task.entry bits) (congrArg (·.cfg.localLoopback) bits) fresh
  · obtain ⟨origin,offers,rfl⟩ := Option.map_eq_some_iff.mp given
    obtain ⟨rest,elems,_,_⟩ := offered_some offers
    have order := paired.ordered.dst
    rw [dstTags,elems] at order
    have follows := List.rel_of_pairwise_cons order (List.mem_cons_self ..)
    have now : (next clusterBaseAddress s i).currentCfgDst = ⟨judged origin,true⟩ := after
    have label : (dstLane (next clusterBaseAddress s i)).label = origin.entry :=
      congrArg (·.bits.entry) now
    have isLocal : (dstLane (next clusterBaseAddress s i)).paired = origin.cfg.localLoopback :=
      congrArg (·.bits.cfg.localLoopback) now
    refine .replaced ?_ ?_
    · rw [label,isLocal]
      rcases follows with before | ⟨same,flags,further⟩
      · exact .inl before
      · right
        have unpaired : (dstLane s).paired = false := by
          apply Bool.eq_false_iff.mpr
          intro isLocal
          have held := paired.chained isLocal (by simpa [tag] using further)
          rw [room] at held
          exact Bool.false_ne_true held
        exact ⟨same.symm,unpaired,flags.symm.trans unpaired⟩
    · change ((next clusterBaseAddress s i).currentCfgDst.maybeFull &&
        s.currentStateDst.next _ _ _ == .sIdle) = true
      rw [now,idle]
      rfl

theorem Paired.next (clear : Unambiguous s) (i : Input param) :
    Paired clusterBaseAddress (next clusterBaseAddress s i) := by
  have ordered := paired.ordered.next i
  have srcStarts (start : readerStart s = true) : s.currentCfgSrc.maybeFull = true :=
    (Bool.and_eq_true_iff.mp (readerStart_fresh start)).1
  have dstStarts (start : writerStart s = true) : s.currentCfgDst.maybeFull = true :=
    (Bool.and_eq_true_iff.mp (writerStart_fresh start)).1
  have dst := fsm_cases (dstEmpty s) i.writerBusy paired.dstOccupied dstStarts
    (postRouteDst clusterBaseAddress s)
  refine ⟨ordered,?_,paired.srcOccupied.next srcStarts _,paired.dstOccupied.next dstStarts _,?_,?_⟩
  · apply paired.joint.next (paired.meets clear) (paired.moves_src i) (paired.moves_dst i)
    exact ordered.agree _ (List.mem_cons_self ..) _ (List.mem_cons_self ..)
  · rcases dst with ⟨bits,_⟩ | ⟨task,given,_,after,_⟩
    · have kept : (XDMACtrl.next clusterBaseAddress s i).currentCfgDst.bits =
        s.currentCfgDst.bits := bits
      rw [kept]
      exact paired.remoteLoopback
    · obtain ⟨origin,_,rfl⟩ := Option.map_eq_some_iff.mp given
      have now : (XDMACtrl.next clusterBaseAddress s i).currentCfgDst = ⟨judged origin,true⟩ := after
      rw [now]
      exact remoteLoopback_judged origin
  · rcases dst with ⟨bits,_⟩ | ⟨task,_,_,after,_⟩
    · -- What stays would have been there before, which the condition excludes.
      intro isLocal further
      have kept : (XDMACtrl.next clusterBaseAddress s i).currentCfgDst.bits =
        s.currentCfgDst.bits := bits
      rw [kept] at further
      have before : (dstLane s).paired = true := by
        rw [← isLocal]
        exact congrArg (·.cfg.localLoopback) kept.symm
      have single := clear.single (paired.chained before further) before
      rw [paired.remoteLoopback] at single
      exact absurd single (by simpa using further)
    · intro _ _
      have now : (XDMACtrl.next clusterBaseAddress s i).currentCfgDst = ⟨task,true⟩ := after
      rw [now]

end Cycle

theorem initial_paired : Paired clusterBaseAddress (initial param) where
  ordered := initial_ordered
  joint := ⟨fun _ _ => rfl,fun isLocal _ => absurd isLocal Bool.false_ne_true,
    fun isLocal _ => absurd isLocal Bool.false_ne_true⟩
  srcOccupied moving := absurd rfl moving
  dstOccupied moving := absurd rfl moving
  remoteLoopback := by
    have null : (zeroCfg param .writer).dest 1 = 0 := by
      simp only [zeroCfg, XDMACfgIO.dest,Vector.getElem?_replicate]
      split <;> rfl
    change false = ((zeroCfg param .writer).dest 1 != 0)
    rw [null]
    rfl
  chained isLocal := absurd isLocal Bool.false_ne_true

/-! ### Runs -/

/-- A copy in the cluster at 0x10000000. -/
def localCopy : Launch XDMA.defaultParam := copyLaunch 0x10000000 #v[0x10001000,0,0,0] 16

def busyCycle (launch : Option (Launch XDMA.defaultParam)) (readerBusy writerBusy : Bool) :
    Input XDMA.defaultParam :=
  ⟨launch,none,true,readerBusy,writerBusy,false⟩

end Snax.XDMACtrl
