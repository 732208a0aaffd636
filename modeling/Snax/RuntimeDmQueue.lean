import Snax.RuntimeDm

/-! The queue of the data mover hands on its tasks in order and unchanged as long as no client inserts into
a full queue. One client always finds room; two of them do not, as the queue's counter is polled before
the mutex is taken. -/
namespace Snax

open Sync (Locked LockMove Machine)

namespace DmTransfer

theorem words_join (x : BitVec 64) : x.extractLsb' 32 32 ++ x.extractLsb' 0 32 = x := by
  apply BitVec.eq_of_getLsbD_eq
  intro i inside
  rw [BitVec.getLsbD_append]
  by_cases low : i < 32
  · simp [low]
  · have high : i - 32 < 32 := by omega
    have back : 32 + (i - 32) = i := by omega
    simp [low,high,back]

/-- No word of a task is stored twice. -/
theorem stores_once (t : DmTransfer) {w : DmWord} {v v' : BitVec 32} (one : (w,v) ∈ t.stores)
    (two : (w,v') ∈ t.stores) : v = v' := by
  cases t <;> cases w <;> simp_all [stores]

theorem reads_all (t : DmTransfer) {w : DmWord} {v twod : BitVec 32} (store : (w,v) ∈ t.stores)
    (kind : (.twod,twod) ∈ t.stores) : w = .twod ∨ w ∈ reads twod := by
  cases t <;> cases w <;> simp_all [stores,reads]

/-- The slot holds what the stores of a task leave in it. -/
def Stored (t : DmTransfer) (slot : DmSlot) : Prop := ∀ p ∈ t.stores, slot p.1 = p.2

theorem twod_stored (t : DmTransfer) {slot : DmSlot} (stored : t.Stored slot) :
    (.twod,slot .twod) ∈ t.stores := by
  cases t with
  | oned src dst size cfg =>
    rw [stored (.twod,0) (by simp [stores])]
    simp [stores]
  | twod src dst size sstrd dstrd nreps cfg =>
    rw [stored (.twod,1) (by simp [stores])]
    simp [stores]

/-- A task that is stored and read back is started as it was given. -/
theorem ofSlot_stored (t : DmTransfer) {slot : DmSlot} (stored : t.Stored slot) : ofSlot slot = t := by
  cases t <;> simp_all [Stored,stores,ofSlot,words_join]

end DmTransfer

/-- The client has counted in its task and has not moved the front on. -/
def DmPc.bumps : DmPc → Nat
  | .readBump | .bumpFront _ => 1
  | _ => 0

/-- The data mover has started a transfer and has not moved the back on. -/
def DmMoverPc.bumps : DmMoverPc → Nat
  | .bumpBack => 1
  | _ => 0

/-- What a client does to the queue, of which it knows the front. -/
def DmPc.Inserts (dm : Dm) : DmPc → Prop
  | .insert t slot rest => slot = dm.pushed.length % dmTaskQueueSize ∧
      (∀ p ∈ t.stores, dm.queue slot p.1 = p.2 ∨ p ∈ rest) ∧ ∀ p ∈ rest, p ∈ t.stores
  | .bumpFront front => front = dm.queueFront
  | _ => True

/-- What the data mover has read of the task that it starts next. -/
def DmMoverPc.Reads (dm : Dm) : DmMoverPc → Prop
  | .readTwod slot => slot = dm.started.length % dmTaskQueueSize
  | .readWords slot todo got => slot = dm.started.length % dmTaskQueueSize ∧
      ∀ t, dm.pushed[dm.started.length]? = some t → ∀ p ∈ t.stores, got p.1 = p.2 ∨ p.1 ∈ todo
  | _ => True

/-- The tasks that have not been started are in their slots, and those that have been were started as they
were put in. -/
structure Dm.Ordered (dm : Dm) : Prop where
  slots : ∀ k t, dm.started.length ≤ k → dm.pushed[k]? = some t → t.Stored (dm.queue (k % dmTaskQueueSize))
  order : dm.started <+: dm.pushed

theorem DmPc.inserts_outside {pc : DmPc} (out : pc.holds = false) (dm : Dm) : pc.Inserts dm := by
  cases pc with
  | insert | bumpFront => cases out
  | _ => trivial

theorem DmPc.bumps_outside {pc : DmPc} (out : pc.holds = false) : pc.bumps = 0 := by
  cases pc with
  | readBump | bumpFront => cases out
  | _ => rfl

variable {call : DmCall} {blocked : Bool} {c c' : DmClient} {dm dm' : Dm} {pc pc' : DmMoverPc}

/-- What a client that does not work on the queue leaves as it is. -/
structure Dm.Same (dm dm' : Dm) : Prop where
  queue : dm'.queue = dm.queue
  queueFront : dm'.queueFront = dm.queueFront
  queueBack : dm'.queueBack = dm.queueBack
  pushed : dm'.pushed = dm.pushed
  started : dm'.started = dm.started

/-- The store of a word. -/
def Dm.put (dm : Dm) (slot : Nat) (w : DmWord) (v : BitVec 32) : Dm :=
  { dm with queue := Function.update dm.queue slot (Function.update (dm.queue slot) w v) }

/-- A client's step on the queue: it goes to the slot behind the newest task, fills it, counts the task in and
moves the front on. -/
inductive DmPush (c c' : DmClient) (dm dm' : Dm) : Prop
  | other (same : dm.Same dm') (bumps : c'.pc.bumps = c.pc.bumps) (outside : ∀ dm, c'.pc.Inserts dm)
  | front {t : DmTransfer} (here : c.pc = .readFront t) (next : c'.pc = .insert t dm.queueFront t.stores)
    (moved : dm' = dm)
  | store {t : DmTransfer} {slot : Nat} {w : DmWord} {v : BitVec 32} {rest : List (DmWord × BitVec 32)}
    (here : c.pc = .insert t slot ((w,v) :: rest)) (next : c'.pc = .insert t slot rest)
    (moved : dm' = dm.put slot w v)
  | count {t : DmTransfer} {slot : Nat} (here : c.pc = .insert t slot []) (next : c'.pc = .readBump)
    (moved : dm' = { dm with queueFill := dm.queueFill + 1, pushed := dm.pushed ++ [t] })
  | turn (here : c.pc = .readBump) (next : c'.pc = .bumpFront dm.queueFront) (moved : dm' = dm)
  | bump {front : Nat} (here : c.pc = .bumpFront front) (next : c'.pc = .release)
    (moved : dm' = { dm with queueFront := (front + 1) % dmTaskQueueSize })

theorem dmClient_push (acts : dmClient call c dm = some (c',dm')) : DmPush c c' dm dm' := by
  have keep : dm.Same dm := ⟨rfl,rfl,rfl,rfl,rfl⟩
  obtain ⟨pc,waited⟩ := c
  cases pc with
  | idle => cases call <;> cases acts <;> exact .other keep rfl fun _ => trivial
  | poll | lock | waitFill | waitStat | waitLock | waitValid | wakeWait =>
    simp only [dmClient] at acts
    split at acts <;> cases acts
    exact .other ⟨rfl,rfl,rfl,rfl,rfl⟩ rfl fun _ => trivial
  | readFront t => cases acts; exact .front rfl rfl rfl
  | insert t slot rest =>
    cases rest with
    | nil => cases acts; exact .count rfl rfl rfl
    | cons store rest => cases acts; exact .store rfl rfl rfl
  | readBump => cases acts; exact .turn rfl rfl rfl
  | bumpFront front => cases acts; exact .bump rfl rfl rfl
  | wakeSet k =>
    cases k <;> cases acts <;> exact .other ⟨rfl,rfl,rfl,rfl,rfl⟩ rfl fun _ => trivial
  | _ => cases acts; exact .other ⟨rfl,rfl,rfl,rfl,rfl⟩ rfl fun _ => trivial

/-- A step of the data mover on the queue: it goes to the slot of the oldest task, reads it, starts the transfer
and moves the back on. -/
inductive DmPull (pc pc' : DmMoverPc) (dm dm' : Dm) : Prop
  | other (same : dm.Same dm') (bumps : pc'.bumps = pc.bumps) (outside : ∀ dm, pc'.Reads dm)
  | back (here : pc = .readBack) (next : pc' = .readTwod dm.queueBack) (moved : dm' = dm)
  | kind {slot : Nat} (here : pc = .readTwod slot) (moved : dm' = dm)
    (next : pc' = .readWords slot (DmTransfer.reads (dm.queue slot .twod))
      (Function.update (fun _ => 0) .twod (dm.queue slot .twod)))
  | word {slot : Nat} {w : DmWord} {todo : List DmWord} {got : DmSlot} (here : pc = .readWords slot (w :: todo) got)
    (next : pc' = .readWords slot todo (Function.update got w (dm.queue slot w))) (moved : dm' = dm)
  | start {slot : Nat} {got : DmSlot} (here : pc = .readWords slot [] got) (next : pc' = .bumpBack)
    (moved : dm' = { dm with
      started := dm.started ++ [.ofSlot got], outstanding := dm.outstanding ++ [dm.started.length] })
  | bump (here : pc = .bumpBack) (next : pc' = .decFill)
    (moved : dm' = { dm with queueBack := (dm.queueBack + 1) % dmTaskQueueSize })

theorem dmMain_pull (acts : dmMain blocked pc dm = some (pc',dm')) : DmPull pc pc' dm dm' := by
  cases pc with
  | wouldBlock | wfi | top | statCheck | statSwitch | idleCheck | sleepFill | sleepStat =>
    simp only [dmMain] at acts
    split at acts <;> cases acts
    all_goals exact .other ⟨rfl,rfl,rfl,rfl,rfl⟩ rfl fun _ => trivial
  | readBack => cases acts; exact .back rfl rfl rfl
  | readTwod slot => cases acts; exact .kind rfl rfl rfl
  | readWords slot todo got =>
    cases todo with
    | nil => cases acts; exact .start rfl rfl rfl
    | cons w todo => cases acts; exact .word rfl rfl rfl
  | bumpBack => cases acts; exact .bump rfl rfl rfl
  | _ => cases acts; exact .other ⟨rfl,rfl,rfl,rfl,rfl⟩ rfl fun _ => trivial

theorem DmPc.Inserts.same {pc : DmPc} (inserts : pc.Inserts dm) (same : dm.Same dm') : pc.Inserts dm' := by
  cases pc with
  | insert t slot rest =>
    simp only [Inserts,same.pushed,same.queue]
    exact inserts
  | bumpFront front => exact inserts.trans same.queueFront.symm
  | _ => trivial

theorem DmMoverPc.Reads.same {pc : DmMoverPc} (reads : pc.Reads dm) (same : dm.Same dm') : pc.Reads dm' := by
  cases pc with
  | readTwod slot => exact reads.trans (by rw [same.started])
  | readWords slot todo got =>
    simp only [Reads,same.pushed,same.started]
    exact reads
  | _ => trivial

theorem Dm.Ordered.same (ordered : dm.Ordered) (same : dm.Same dm') : dm'.Ordered := by
  refine ⟨?_,?_⟩
  · rw [same.queue,same.pushed,same.started]
    exact ordered.slots
  · rw [same.pushed,same.started]
    exact ordered.order

/-- A store into the slot behind the newest task leaves the others, as long as there is room. -/
theorem Dm.Ordered.store (ordered : dm.Ordered) {w : DmWord} {v : BitVec 32}
    (room : dm.pushed.length < dm.started.length + dmTaskQueueSize) :
    (dm.put (dm.pushed.length % dmTaskQueueSize) w v).Ordered := by
  refine ⟨fun k t later task => ?_,ordered.order⟩
  have inside : k < dm.pushed.length := (List.getElem?_eq_some_iff.mp task).1
  have apart : k % dmTaskQueueSize ≠ dm.pushed.length % dmTaskQueueSize := by
    have later : dm.started.length ≤ k := later
    simp only [dmTaskQueueSize] at room ⊢
    omega
  change t.Stored (Function.update dm.queue _ _ _)
  rw [Function.update_of_ne apart]
  exact ordered.slots k t later task

/-- The stores of a task, one after the other. -/
theorem DmPc.Inserts.store {t : DmTransfer} {slot : Nat} {w : DmWord} {v : BitVec 32}
    {rest : List (DmWord × BitVec 32)} (inserts : DmPc.Inserts dm (.insert t slot ((w,v) :: rest))) :
    DmPc.Inserts (dm.put slot w v) (.insert t slot rest) := by
  obtain ⟨here,stored,own⟩ := inserts
  refine ⟨here,fun p member => ?_,fun p member => own p (List.mem_cons_of_mem _ member)⟩
  obtain ⟨w',v'⟩ := p
  change Function.update dm.queue slot (Function.update (dm.queue slot) w v) slot w' = v' ∨ _
  rw [Function.update_self]
  by_cases same : w' = w
  · subst same
    left
    rw [Function.update_self]
    exact t.stores_once (own (w',v) List.mem_cons_self) member
  · rw [Function.update_of_ne same]
    refine (stored (w',v') member).imp_right fun later => ?_
    rcases List.mem_cons.mp later with first | later
    · exact absurd (Prod.mk.inj first).1 same
    · exact later

theorem Dm.Ordered.count (ordered : dm.Ordered) {t : DmTransfer} (fill : Nat)
    (stored : t.Stored (dm.queue (dm.pushed.length % dmTaskQueueSize))) :
    Dm.Ordered { dm with queueFill := fill, pushed := dm.pushed ++ [t] } := by
  refine ⟨fun k t' later task => ?_,ordered.order.trans (List.prefix_append ..)⟩
  change (dm.pushed ++ [t])[k]? = some t' at task
  rcases Nat.lt_trichotomy k dm.pushed.length with before | here | past
  · rw [List.getElem?_append_left before] at task
    exact ordered.slots k t' later task
  · subst here
    rw [List.getElem?_concat_length] at task
    cases task
    exact stored
  · have bound := (List.getElem?_eq_some_iff.mp task).1
    simp only [List.length_append,List.length_cons,List.length_nil] at bound
    omega

/-- The transfer that is started is the oldest task. -/
theorem Dm.Ordered.start (ordered : dm.Ordered) {got : DmSlot} {slot : Nat}
    (ahead : dm.started.length < dm.pushed.length) (reads : DmMoverPc.Reads dm (.readWords slot [] got)) :
    Dm.Ordered { dm with
      started := dm.started ++ [.ofSlot got], outstanding := dm.outstanding ++ [dm.started.length] } := by
  have task := List.getElem?_eq_getElem ahead
  generalize dm.pushed[dm.started.length] = t at task
  have whole : t.Stored got := fun p member =>
    (reads.2 t task p member).resolve_right List.not_mem_nil
  refine ⟨fun k t' later => ?_,?_⟩
  · simp only [List.length_append,List.length_cons,List.length_nil] at later
    exact ordered.slots k t' (by omega)
  · change dm.started ++ [DmTransfer.ofSlot got] <+: dm.pushed
    obtain ⟨rest,split⟩ := ordered.order
    rw [← split,List.getElem?_append_right le_rfl,Nat.sub_self] at task
    rw [t.ofSlot_stored whole,← split]
    cases rest with
    | nil => cases task
    | cons first rest => cases task; exact ⟨rest,by simp⟩

namespace DmState

variable {n : Nat}

/-- A client that inserts has room for its task. -/
def Room (s : DmState n) : Prop :=
  ∀ i t slot rest, (s.clients i).pc = .insert t slot rest → s.dm.queueFill < dmTaskQueueSize

/-- What holds of the queue at all times when there is room for every task. -/
structure Fifo (s : DmState n) : Prop where
  kept : s.Kept
  backSmall : s.dm.queueBack < dmTaskQueueSize
  frontSmall : s.dm.queueFront < dmTaskQueueSize
  back : (s.dm.queueBack + s.mover.bumps) % dmTaskQueueSize = s.dm.started.length % dmTaskQueueSize
  front : (s.dm.queueFront + ∑ i, (s.clients i).pc.bumps) % dmTaskQueueSize = s.dm.pushed.length % dmTaskQueueSize
  ordered : s.dm.Ordered
  reads : s.mover.Reads s.dm
  inserts : ∀ i, (s.clients i).pc.Inserts s.dm

theorem Fifo.start (irq : Bool) : (init irq : DmState n).Fifo where
  kept := .start irq
  backSmall := Nat.zero_lt_succ 3
  frontSmall := Nat.zero_lt_succ 3
  back := rfl
  front := by simp [init,DmPc.bumps]
  ordered := ⟨fun _ _ _ none => (by cases none),List.prefix_rfl⟩
  reads := trivial
  inserts _ := trivial

/-- While one client is inside, no other one knows the front or has moved it. -/
theorem Kept.others {s : DmState n} (kept : s.Kept) {i j : Fin n} (held : (s.clients i).pc.holds = true)
    (apart : j ≠ i) : (s.clients j).pc.bumps = 0 ∧ ∀ dm, (s.clients j).pc.Inserts dm :=
  have out : (s.clients j).pc.holds = false := kept.locked.outside held apart
  ⟨DmPc.bumps_outside out,DmPc.inserts_outside out⟩

theorem Kept.bumps_inside {s : DmState n} (kept : s.Kept) {i : Fin n} (held : (s.clients i).pc.holds = true) :
    ∑ j, (s.clients j).pc.bumps = (s.clients i).pc.bumps :=
  Finset.sum_eq_single_of_mem i (Finset.mem_univ i) fun _ _ apart => (kept.others held apart).1

/-- The queue after a step of the client that is inside. -/
theorem Fifo.inside {s : DmState n} (fifo : s.Fifo) {i : Fin n}
    (acts : dmClient call (s.clients i) s.dm = some (c',dm')) (held : (s.clients i).pc.holds = true)
    (frontSmall : dm'.queueFront < dmTaskQueueSize)
    (front : (dm'.queueFront + c'.pc.bumps) % dmTaskQueueSize = dm'.pushed.length % dmTaskQueueSize)
    (ordered : dm'.Ordered) (reads : s.mover.Reads dm') (inserts : c'.pc.Inserts dm') :
    Fifo ⟨Function.update s.clients i c',s.mover,dm'⟩ := by
  have counted := dmClient_counted acts
  have kept := fifo.kept.client acts
  have sum : ∑ j, (Function.update s.clients i c' j).pc.bumps = c'.pc.bumps := by
    have whole := Sync.Threads.sum_update (fun c : DmClient => c.pc.bumps) s.clients i c'
    have before := fifo.kept.bumps_inside held
    omega
  refine ⟨kept,?_,frontSmall,?_,?_,ordered,reads,fun j => ?_⟩
  · exact counted.queueBack ▸ fifo.backSmall
  · change (dm'.queueBack + s.mover.bumps) % _ = dm'.started.length % _
    rw [counted.queueBack,counted.started]
    exact fifo.back
  · change (dm'.queueFront + ∑ j, (Function.update s.clients i c' j).pc.bumps) % _ = _
    rw [sum]
    exact front
  · by_cases own : j = i
    · subst own
      simpa using inserts
    · simpa [own] using (fifo.kept.others held own).2 dm'

theorem Fifo.client {s : DmState n} (fifo : s.Fifo) (room : s.Room) {i : Fin n}
    (acts : dmClient call (s.clients i) s.dm = some (c',dm')) :
    Fifo ⟨Function.update s.clients i c',s.mover,dm'⟩ := by
  have inserts := fifo.inserts i
  have ahead := fifo.kept.counts.ahead
  have fill := fifo.kept.counts.fill
  have front := fun held => fifo.kept.bumps_inside (i := i) held ▸ fifo.front
  rcases dmClient_push acts with ⟨same,bumps,outside⟩ | ⟨here,next,rfl⟩ | ⟨here,next,rfl⟩ |
    ⟨here,next,rfl⟩ | ⟨here,next,rfl⟩ | ⟨here,next,rfl⟩
  · have whole := Sync.Threads.sum_update (fun c : DmClient => c.pc.bumps) s.clients i c'
    have sum : ∑ j, (Function.update s.clients i c' j).pc.bumps = ∑ j, (s.clients j).pc.bumps := by omega
    refine ⟨fifo.kept.client acts,same.queueBack ▸ fifo.backSmall,same.queueFront ▸ fifo.frontSmall,?_,?_,
      fifo.ordered.same same,fifo.reads.same same,fun j => ?_⟩
    · change (dm'.queueBack + s.mover.bumps) % _ = dm'.started.length % _
      rw [same.queueBack,same.started]
      exact fifo.back
    · change (dm'.queueFront + ∑ j, (Function.update s.clients i c' j).pc.bumps) % _ = dm'.pushed.length % _
      rw [sum,same.queueFront,same.pushed]
      exact fifo.front
    · by_cases own : j = i
      · subst own
        simpa using outside dm'
      · simpa [own] using (fifo.inserts j).same same
  · have held : (s.clients i).pc.holds = true := by rw [here]; rfl
    have front := front held
    rw [here] at front
    have small := Nat.mod_eq_of_lt fifo.frontSmall
    apply fifo.inside acts held fifo.frontSmall
    · rw [next]
      exact front
    · exact fifo.ordered
    · exact fifo.reads
    · rw [next]
      exact ⟨small.symm.trans front,fun p member => .inr member,fun p member => member⟩
  · rename_i t slot w v rest
    have held : (s.clients i).pc.holds = true := by rw [here]; rfl
    have front := front held
    rw [here] at front inserts
    obtain rfl := inserts.1
    have space := room i _ _ _ here
    apply fifo.inside acts held fifo.frontSmall
    · rw [next]
      exact front
    · exact fifo.ordered.store (by omega)
    · -- the data mover reads the words of its slot one after the other, and has them in its own registers
      exact fifo.reads
    · rw [next]
      exact inserts.store
  · rename_i t slot
    have held : (s.clients i).pc.holds = true := by rw [here]; rfl
    have front := front held
    rw [here] at front inserts
    obtain ⟨rfl,stored,_⟩ := inserts
    have whole : t.Stored (s.dm.queue (s.dm.pushed.length % dmTaskQueueSize)) := fun p member =>
      (stored p member).resolve_right List.not_mem_nil
    apply fifo.inside acts held fifo.frontSmall
    · rw [next]
      simp only [DmPc.bumps,List.length_append,List.length_cons,List.length_nil,dmTaskQueueSize] at front ⊢
      omega
    · exact fifo.ordered.count _ whole
    · have reads := fifo.reads
      generalize s.mover = mover at reads ahead
      cases mover with
      | readTwod slot => exact reads
      | readWords slot todo got =>
        simp only [DmMoverPc.reading] at ahead
        refine ⟨reads.1,fun t' task => reads.2 t' ?_⟩
        change (s.dm.pushed ++ [t])[s.dm.started.length]? = some t' at task
        rwa [List.getElem?_append_left ahead] at task
      | _ => trivial
    · rw [next]
      trivial
  · have held : (s.clients i).pc.holds = true := by rw [here]; rfl
    have front := front held
    rw [here] at front
    apply fifo.inside acts held fifo.frontSmall
    · rw [next]
      exact front
    · exact fifo.ordered
    · exact fifo.reads
    · rw [next]
      exact rfl
  · rename_i front'
    have held : (s.clients i).pc.holds = true := by rw [here]; rfl
    have front := front held
    rw [here] at front inserts
    obtain rfl : front' = s.dm.queueFront := inserts
    apply fifo.inside acts held (Nat.mod_lt _ (by decide))
    · rw [next]
      simp only [DmPc.bumps,dmTaskQueueSize] at front ⊢
      omega
    · exact ⟨fifo.ordered.slots,fifo.ordered.order⟩
    · exact fifo.reads
    · rw [next]
      trivial

theorem Fifo.mover {s : DmState n} (fifo : s.Fifo) (acts : dmMain blocked s.mover s.dm = some (pc',dm')) :
    Fifo ⟨s.clients,pc',dm'⟩ := by
  have kept := fifo.kept.mover acts
  have still := dmMain_kept acts
  have reads := fifo.reads
  have back := fifo.back
  have ahead := fifo.kept.counts.ahead
  rcases dmMain_pull acts with ⟨same,bumps,outside⟩ | ⟨here,rfl,rfl⟩ | ⟨here,rfl,rfl⟩ | ⟨here,rfl,rfl⟩ |
    ⟨here,rfl,rfl⟩ | ⟨here,rfl,rfl⟩
  · refine ⟨kept,same.queueBack ▸ fifo.backSmall,same.queueFront ▸ fifo.frontSmall,?_,?_,fifo.ordered.same same,
      outside dm',fun i => (fifo.inserts i).same same⟩
    · change (dm'.queueBack + pc'.bumps) % _ = dm'.started.length % _
      rw [bumps,same.queueBack,same.started]
      exact back
    · change (dm'.queueFront + ∑ i, (s.clients i).pc.bumps) % _ = dm'.pushed.length % _
      rw [same.queueFront,same.pushed]
      exact fifo.front
  · rw [here] at back
    have small := Nat.mod_eq_of_lt fifo.backSmall
    exact ⟨kept,fifo.backSmall,fifo.frontSmall,back,fifo.front,fifo.ordered,small.symm.trans back,fifo.inserts⟩
  · rename_i slot
    rw [here] at back reads
    refine ⟨kept,fifo.backSmall,fifo.frontSmall,back,fifo.front,fifo.ordered,⟨reads,fun t task p member => ?_⟩,
      fifo.inserts⟩
    have stored := fifo.ordered.slots _ t le_rfl task
    rw [← show slot = _ from reads] at stored
    obtain ⟨w,v⟩ := p
    rcases t.reads_all member (t.twod_stored stored) with rfl | later
    · left
      rw [Function.update_self]
      exact stored _ member
    · exact .inr later
  · rename_i slot w todo got
    rw [here] at back reads
    refine ⟨kept,fifo.backSmall,fifo.frontSmall,back,fifo.front,fifo.ordered,
      ⟨reads.1,fun t task p member => ?_⟩,fifo.inserts⟩
    by_cases same : p.1 = w
    · left
      have stored := fifo.ordered.slots _ t le_rfl task
      rw [← reads.1] at stored
      rw [same,Function.update_self,← same]
      exact stored p member
    · rw [Function.update_of_ne same]
      refine (reads.2 t task p member).imp_right fun later => ?_
      rcases List.mem_cons.mp later with first | later
      · exact absurd first same
      · exact later
  · rename_i slot got
    rw [here] at back reads ahead
    refine ⟨kept,fifo.backSmall,fifo.frontSmall,?_,fifo.front,fifo.ordered.start ahead reads,trivial,fifo.inserts⟩
    simp only [DmMoverPc.bumps,List.length_append,List.length_cons,List.length_nil,dmTaskQueueSize] at back ⊢
    omega
  · rw [here] at back
    refine ⟨kept,Nat.mod_lt _ (by decide),fifo.frontSmall,?_,fifo.front,⟨fifo.ordered.slots,fifo.ordered.order⟩,
      trivial,fifo.inserts⟩
    simp only [DmMoverPc.bumps,dmTaskQueueSize] at back ⊢
    omega

theorem Fifo.step {s : DmState n} (fifo : s.Fifo) (room : s.Room) (e : DmEvent n) : (s.next e).Fifo := by
  apply next_cases s e fifo
  · intro i call c dm acts
    exact fifo.client room acts
  · intro blocked pc dm acts
    exact fifo.mover acts
  · intro k
    exact ⟨fifo.kept.step (.complete k),fifo.backSmall,fifo.frontSmall,fifo.back,fifo.front,
      ⟨fifo.ordered.slots,fifo.ordered.order⟩,fifo.reads,fifo.inserts⟩

/-- As long as there is room for every task that is inserted, the transfers are started in the order and with
the arguments of the tasks that were counted in, whatever the number of clients. -/
theorem transfers_in_order_of_room (irq : Bool) (events : List (DmEvent n))
    (room : (machine n).Each (fun _ s _ => s.Room) (init irq) events) :
    (run irq events).dm.started <+: (run irq events).dm.pushed :=
  ((machine n).run_rule_each (fun _ => Fifo) room (Fifo.start irq)
    fun _ _ e fifo room => fifo.step room e).ordered.order

/-- A single client has found room itself, and nobody else has taken it. -/
theorem room_of_one (irq : Bool) (events : List (DmEvent 1)) : (run irq events).Room := by
  intro i t slot rest here
  have few := run_claimed irq events
  rw [claimed,Finset.univ_unique,Finset.sum_singleton,Subsingleton.elim default i,here] at few
  simp only [DmPc.passed,dmTaskQueueSize] at few ⊢
  omega

/-- One client, in every order of steps with the data mover and the DMA: the transfers are started in the order
of its tasks and with their arguments, word by word. -/
theorem transfers_in_order (irq : Bool) (events : List (DmEvent 1)) :
    (run irq events).dm.started <+: (run irq events).dm.pushed :=
  transfers_in_order_of_room irq events fun before _ _ _ => room_of_one irq before

def firstClient : Fin 2 := Fin.castSucc (Fin.last 0)

def secondClient : Fin 2 := Fin.last 1

/-- Two clients see the last free slot. -/
def twoFull : List (DmEvent 2) :=
  List.replicate 45 (.client firstClient (.memcpyAsync 64 128 8)) ++
    List.replicate 2 (.client firstClient (.memcpyAsync 64 128 16)) ++
    List.replicate 2 (.client secondClient (.memcpyAsync 64 128 32)) ++
    List.replicate 13 (.client firstClient .start) ++ List.replicate 13 (.client secondClient .start) ++
    List.replicate 11 (.mover false)

example : ((run false twoFull).dm.started = [.oned 128 64 32 0]) ∧
    (run false twoFull).dm.pushed.head? = some (.oned 128 64 8 0) := by
  decide +kernel

/-- A client on its own. -/
def clientSteps (call : DmCall) : Nat → DmClient × Dm → Option (DmClient × Dm)
  | 0, x => some x
  | k + 1, x => (dmClient call x.1 x.2).bind (clientSteps call k)

theorem exec_clientSteps (s : DmState n) (i : Fin n) {k : Nat}
    (steps : clientSteps call k (s.clients i,s.dm) = some (c',dm')) :
    (machine n).exec s (List.replicate k (.client i call)) = ⟨Function.update s.clients i c',s.mover,dm'⟩ := by
  induction k generalizing s with
  | zero =>
    cases steps
    rw [Function.update_eq_self]
    rfl
  | succ k ih =>
    obtain ⟨⟨c,dm⟩,first,later⟩ := Option.bind_eq_some_iff.mp steps
    have moved : (machine n).next s (.client i call) = ⟨Function.update s.clients i c,s.mover,dm⟩ := by
      simp only [machine,next,first]
    rw [List.replicate_succ,Machine.exec_cons,moved,ih _ (by simpa using later)]
    simp

/-- A client that has found room fills its slot undisturbed. -/
theorem clientSteps_insert (call : DmCall) (dst src : BitVec 64) (size : BitVec 32) (waited : Nat) (free : dm.mutex = false) :
    ∃ dm', clientSteps call 13 (⟨.lock (.oned src dst size 0),waited⟩,dm) = some (⟨.idle,waited⟩,dm') ∧
      dm'.queueFill = dm.queueFill + 1 ∧ dm'.mutex = false := by
  obtain ⟨_,_,_,_,mutex⟩ := dm
  cases free
  exact ⟨_,rfl,rfl,rfl⟩

theorem clientSteps_poll (dst src : BitVec 64) (size : BitVec 32) (waited : Nat)
    (room : dm.queueFill < dmTaskQueueSize) :
    clientSteps (.memcpyAsync dst src size) 2 (⟨.idle,waited⟩,dm) =
      some (⟨.lock (.oned src dst size 0),waited⟩,dm) := by
  simp [clientSteps,dmClient,room]

/-- One client fills three of the four slots. -/
theorem clientSteps_three : ∃ dm, clientSteps (.memcpyAsync 0 0 0) 45 (⟨.idle,0⟩,(init false : DmState n).dm) =
    some (⟨.idle,0⟩,dm) ∧ dm.queueFill = 3 ∧ dm.mutex = false := by
  exact ⟨_,rfl,rfl,rfl⟩

/-- The clients of a list go on, and then the others of a longer list. -/
theorem update_member {clients : Fin n → DmClient} {i : Fin n} {l : List (Fin n)} {c : DmClient} :
    (fun j => if j ∈ l then c else Function.update clients i c j) = fun j => if j ∈ i :: l then c else clients j := by
  funext j
  by_cases own : j = i
  · simp [own]
  · simp [own]

/-- All clients of a list find room, one after the other. -/
theorem exec_polls (dst src : BitVec 64) (size : BitVec 32) (l : List (Fin n)) (once : l.Nodup) (s : DmState n)
    (idle : ∀ i ∈ l, s.clients i = ⟨.idle,0⟩) (room : s.dm.queueFill < dmTaskQueueSize) :
    (machine n).exec s (l.flatMap fun i => List.replicate 2 (.client i (.memcpyAsync dst src size))) =
      ⟨fun j => if j ∈ l then ⟨.lock (.oned src dst size 0),0⟩ else s.clients j,s.mover,s.dm⟩ := by
  induction l generalizing s with
  | nil => simp
  | cons i l ih =>
    obtain ⟨apart,once⟩ := List.nodup_cons.mp once
    have first : clientSteps (.memcpyAsync dst src size) 2 (s.clients i,s.dm) =
        some (⟨.lock (.oned src dst size 0),0⟩,s.dm) := by
      rw [idle i List.mem_cons_self]
      exact clientSteps_poll dst src size 0 room
    have later := ih once ⟨Function.update s.clients i ⟨.lock (.oned src dst size 0),0⟩,s.mover,s.dm⟩ ?_ room
    · rw [List.flatMap_cons,Machine.exec_append,exec_clientSteps s i first,later]
      simp only [update_member]
    · intro j member
      have other : j ≠ i := fun same => apart (same ▸ member)
      change Function.update s.clients i _ j = _
      rw [Function.update_of_ne other]
      exact idle j (List.mem_cons_of_mem _ member)

/-- All of them insert their tasks, one after the other. -/
theorem exec_inserts (dst src : BitVec 64) (size : BitVec 32) (l : List (Fin n)) (once : l.Nodup) (s : DmState n)
    (locks : ∀ i ∈ l, s.clients i = ⟨.lock (.oned src dst size 0),0⟩) (free : s.dm.mutex = false) :
    ((machine n).exec s (l.flatMap fun i => List.replicate 13 (.client i .start))).dm.queueFill =
      s.dm.queueFill + l.length := by
  induction l generalizing s with
  | nil => rfl
  | cons i l ih =>
    obtain ⟨apart,once⟩ := List.nodup_cons.mp once
    obtain ⟨dm,steps,more,again⟩ := clientSteps_insert .start dst src size 0 free
    rw [← locks i List.mem_cons_self] at steps
    have later := ih once ⟨Function.update s.clients i ⟨.idle,0⟩,s.mover,dm⟩ ?_ again
    · rw [List.flatMap_cons,Machine.exec_append,exec_clientSteps s i steps,later]
      change dm.queueFill + _ = _
      rw [more,List.length_cons,Nat.add_assoc,Nat.add_comm 1]
    · intro j member
      have other : j ≠ i := fun same => apart (same ▸ member)
      change Function.update s.clients i _ j = _
      rw [Function.update_of_ne other]
      exact locks j (List.mem_cons_of_mem _ member)

/-- In every order of steps the queue holds at most three tasks and one for each client, where it has four slots,
and for any number of clients it comes to that: the last slot is seen free by all of them. -/
theorem queue_fill_bound (n : Nat) : (∀ irq (events : List (DmEvent n)), (run irq events).dm.queueFill ≤ 3 + n) ∧
    (0 < n → ∃ events : List (DmEvent n), (run false events).dm.queueFill = 3 + n) := by
  refine ⟨fun irq events => (Nat.le_add_right ..).trans (run_claimed irq events),fun some => ?_⟩
  obtain ⟨dm,steps,three,free⟩ := clientSteps_three
  have threeIn := exec_clientSteps (init false : DmState n) ⟨0,some⟩ steps
  have idle : Function.update (init false : DmState n).clients ⟨0,some⟩ ⟨.idle,0⟩ = (init false : DmState n).clients :=
    Function.update_eq_self _ _
  rw [idle] at threeIn
  have polled := exec_polls 0 0 0 (List.finRange n) (List.nodup_finRange n)
    (⟨(init false : DmState n).clients,.top,dm⟩ : DmState n) (fun _ _ => rfl) (by rw [three]; decide)
  have inserted := exec_inserts 0 0 0 (List.finRange n) (List.nodup_finRange n)
    ⟨fun j => if j ∈ List.finRange n then ⟨.lock (.oned 0 0 0 0),0⟩ else ⟨.idle,0⟩,.top,dm⟩
    (fun i member => if_pos member) free
  refine ⟨List.replicate 45 (.client ⟨0,some⟩ (.memcpyAsync 0 0 0)) ++ (((List.finRange n).flatMap fun i =>
    List.replicate 2 (.client i (.memcpyAsync 0 0 0))) ++ (List.finRange n).flatMap fun i =>
      List.replicate 13 (.client i .start)),?_⟩
  have whole := (machine n).exec_append ⟨(init false : DmState n).clients,.top,dm⟩
    ((List.finRange n).flatMap fun i => List.replicate 2 (.client i (.memcpyAsync 0 0 0)))
    ((List.finRange n).flatMap fun i => List.replicate 13 (.client i .start))
  rw [run,Machine.exec_append,threeIn]
  change ((machine n).exec ⟨(init false : DmState n).clients,.top,dm⟩ _).dm.queueFill = _
  rw [whole,polled]
  exact inserted.trans (by rw [three,List.length_finRange])

end DmState
end Snax
