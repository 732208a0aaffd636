import Snax.Scheduler

/-! The order of the times at which the harts and the scheduler call the world. The scheduler takes the
hart with the smaller cycle, but an instruction that waits for an operand calls the world later than
that. -/
namespace Snax

namespace Interp

variable {σ : Type}

/-- The calls of the world, the last one first: the time of each and the world it meets. -/
abbrev Log (σ : Type) := List (Nat × σ)

/-- `advance_to`, `snax_read`, `snax_write`, `dma_submit` and `dma_busy` are logged. -/
def World.logged (W : World σ) : World (σ × Log σ) where
  advanceTo := fun w m t =>
    let (world,mem) := W.advanceTo w.1 m t
    ((world,(t,w.1) :: w.2),mem)
  nextEventCycle := fun w => W.nextEventCycle w.1
  dmaSubmit := fun w m d t =>
    let (world,mem,txid) := W.dmaSubmit w.1 m d t
    ((world,(t,w.1) :: w.2),mem,txid)
  dmaBusy := fun w t =>
    let (world,v) := W.dmaBusy w.1 t
    ((world,(t,w.1) :: w.2),v)
  dmaCompletedId := fun w t =>
    let (world,v) := W.dmaCompletedId w.1 t
    ((world,w.2),v)
  snaxWrite := fun w m csr val t =>
    let (world,mem) := W.snaxWrite w.1 m csr val t
    ((world,(t,w.1) :: w.2),mem)
  snaxWriteSerializes := fun w csr t => W.snaxWriteSerializes w.1 csr t
  snaxRead := fun w m csr t =>
    let (world,mem,out,isPoll) := W.snaxRead w.1 m csr t
    ((world,(t,w.1) :: w.2),mem,out,isPoll)
  fence := fun w i t => (W.fence w.1 i t,w.2)

/-- The time of the last call. -/
def last (log : Log σ) : Nat := (log.head?.map Prod.fst).getD 0

/-- The time that the world has reached, which no call puts beyond its own. -/
structure Clocked (W : World σ) (clock : σ → Nat) : Prop where
  advanceTo : ∀ w m t, clock (W.advanceTo w m t).1 ≤ max (clock w) t
  dmaSubmit : ∀ w m d t, clock (W.dmaSubmit w m d t).1 ≤ max (clock w) t
  dmaBusy : ∀ w t, clock (W.dmaBusy w t).1 ≤ max (clock w) t
  dmaCompletedId : ∀ w t, clock (W.dmaCompletedId w t).1 ≤ clock w
  snaxWrite : ∀ w m csr val t, clock (W.snaxWrite w m csr val t).1 ≤ max (clock w) t
  snaxRead : ∀ w m csr t, clock (W.snaxRead w m csr t).1 ≤ max (clock w) t
  fence : ∀ w i t, clock (W.fence w i t) ≤ clock w

/-- The times never decrease, and no call meets a world that is ahead of it. -/
structure Causal (clock : σ → Nat) (log : Log σ) : Prop where
  ordered : (log.map Prod.fst).Pairwise (· ≥ ·)
  current : ∀ e ∈ log, clock e.2 ≤ e.1

/-! ### The condition -/

/-- The instruction calls the world. -/
def touchesWorld (insn : Word) : Bool :=
  match (opcode insn).toNat with
  | 0x73 => f3 insn != 0 && inSnaxWindow (insn >>> 20)
  | 0x2b => f7 insn == 0x02 || f7 insn == 0x04 && rs2 insn == 2
  | _ => false

/-- A hart whose next instruction calls the world and waits for an operand does not overtake the other
one, and an event that nobody runs up to is not in the past. -/
def timely (W : World σ) (s : Scheduler (σ × Log σ)) : Bool :=
  match pick s.m with
  | some i =>
    let h := s.m.hart i
    let insn := ld32 s.m.mem h.pc
    !(touchesWorld insn && readsReg insn h.pendReg) ||
      decide (∀ j, j ≠ i → runnable (s.m.hart j) = true → h.pendReady ≤ (s.m.hart j).cycle + 1)
  | none => bothAtBarrier s.m || allDone s.m ||
    (W.nextEventCycle s.m.world.1).all fun t => decide (last s.m.world.2 ≤ t)

/-! ### Calls of one step -/

/-- Calls at time `t` only. -/
structure Calls (clock : σ → Nat) (t : Nat) (w w' : σ × Log σ) (new : Log σ) : Prop where
  log : w'.2 = new ++ w.2
  now : ∀ e ∈ new, e.1 = t ∧ clock e.2 ≤ max (clock w.1) t
  quiet : new = [] → clock w'.1 ≤ clock w.1
  clock : clock w'.1 ≤ max (clock w.1) t

section Calls

variable {clock : σ → Nat} {t : Nat} {w w' w'' : σ × Log σ} {new new' : Log σ}

theorem Calls.refl (w : σ × Log σ) : Calls clock t w w [] :=
  ⟨rfl,fun _ member => absurd member List.not_mem_nil,fun _ => Nat.le_refl _,Nat.le_max_left _ _⟩

theorem Calls.single {world : σ} (bound : clock world ≤ max (clock w.1) t) :
    Calls clock t w (world,(t,w.1) :: w.2) [(t,w.1)] where
  log := rfl
  now := by
    intro e member
    obtain rfl := List.mem_singleton.mp member
    exact ⟨rfl,Nat.le_max_left _ _⟩
  quiet := fun none => absurd none (List.cons_ne_nil _ _)
  clock := bound

/-- A change of the world that is not logged. -/
theorem Calls.silent {world : σ} (bound : clock world ≤ clock w.1) : Calls clock t w (world,w.2) [] :=
  ⟨rfl,fun _ member => absurd member List.not_mem_nil,fun _ => bound,
    Nat.le_trans bound (Nat.le_max_left _ _)⟩

theorem Calls.trans (first : Calls clock t w w' new) (later : Calls clock t w' w'' new') :
    Calls clock t w w'' (new' ++ new) where
  log := by rw [later.log,first.log,List.append_assoc]
  now := by
    intro e member
    have bound := first.clock
    rcases List.mem_append.mp member with after | before
    · obtain ⟨same,here⟩ := later.now e after
      exact ⟨same,by omega⟩
    · exact first.now e before
  quiet := by
    intro none
    obtain ⟨rfl,rfl⟩ := List.append_eq_nil_iff.mp none
    exact Nat.le_trans (later.quiet rfl) (first.quiet rfl)
  clock := by
    have before := first.clock
    have after := later.clock
    omega

/-- Calls at time `t` that have a reason, if there are any. -/
def CallsFor (clock : σ → Nat) (t : Nat) (reason : Prop) (w w' : σ × Log σ) : Prop :=
  ∃ new, Calls clock t w w' new ∧ (new ≠ [] → reason)

theorem CallsFor.none {reason : Prop} (w : σ × Log σ) : CallsFor clock t reason w w :=
  ⟨[],.refl w,fun called => (called rfl).elim⟩

theorem CallsFor.silent {reason : Prop} {world : σ} (bound : clock world ≤ clock w.1) :
    CallsFor clock t reason w (world,w.2) :=
  ⟨[],.silent bound,fun called => (called rfl).elim⟩

theorem CallsFor.single {reason : Prop} {world : σ} (why : reason) (bound : clock world ≤ max (clock w.1) t) :
    CallsFor clock t reason w (world,(t,w.1) :: w.2) :=
  ⟨_,.single bound,fun _ => why⟩

theorem CallsFor.trans {reason : Prop} (first : CallsFor clock t reason w w')
    (later : CallsFor clock t reason w' w'') : CallsFor clock t reason w w'' := by
  obtain ⟨new,calls,why⟩ := first
  obtain ⟨new',calls',why'⟩ := later
  refine ⟨new' ++ new,calls.trans calls',fun called => ?_⟩
  by_cases none : new' = []
  · subst none
    exact why called
  · exact why' none

variable {W : World σ} {m : Machine (σ × Log σ)} {i : Fin 2} {insn : Word}

theorem calls_csrRead (clocked : Clocked W clock) (now : (m.hart i).cycle = t) (csr : Word) :
    CallsFor clock t (inSnaxWindow csr = true) m.world (csrRead W.logged m i csr).1.world := by
  unfold csrRead
  rw [now]
  dsimp only
  split
  case h_10 =>
    split
    · rename_i inside
      exact (CallsFor.single inside (clocked.advanceTo _ _ _)).trans (.single inside (clocked.snaxRead _ _ _ _))
    · exact .none _
  all_goals exact .none _

theorem csrRead_hart {τ : Type} {V : World τ} {n : Machine τ} (csr : Word) :
    (csrRead V n i csr).1.hart = n.hart := by
  unfold csrRead
  dsimp only
  split
  case h_10 =>
    split
    · rfl
    · rfl
  all_goals rfl

theorem calls_csrWrite (clocked : Clocked W clock) (now : (m.hart i).cycle = t) (csr val : Word) :
    CallsFor clock t (inSnaxWindow csr = true) m.world (csrWrite W.logged m i csr val).world := by
  unfold csrWrite
  rw [now]
  split
  · rename_i inside
    exact .single inside (clocked.snaxWrite _ _ _ _ _)
  · exact .none _

theorem csrCharge_world {τ : Type} {V : World τ} (n : Machine τ) (csr : Word) :
    (csrCharge V n i csr).world = n.world := by
  unfold csrCharge
  split
  · rfl
  · rfl

theorem calls_csrOp (insn : Word) (clocked : Clocked W clock) (now : (m.hart i).cycle = t) :
    CallsFor clock t (inSnaxWindow (insn >>> 20) = true) m.world (csrOp W.logged m i insn).1.world := by
  have read := calls_csrRead clocked now (insn >>> 20)
  have later : ((csrRead W.logged m i (insn >>> 20)).1.hart i).cycle = t := by rw [csrRead_hart,now]
  unfold csrOp
  dsimp only
  split
  · exact read
  · refine read.trans ?_
    rw [Machine.setReg,Machine.setHart,csrCharge_world]
    exact calls_csrWrite clocked later _ _

theorem calls_system (clocked : Clocked W clock) (now : (m.hart i).cycle = t) (op : opcode insn = 0x73) :
    CallsFor clock t (touchesWorld insn = true) m.world (system W.logged m i insn).1.world := by
  unfold system
  split
  · exact .none _
  rename_i some
  split
  · exact .none _
  · obtain ⟨new,calls,why⟩ := calls_csrOp insn clocked now
    refine ⟨new,calls,fun called => ?_⟩
    simp only [touchesWorld,op]
    change (f3 insn != 0 && inSnaxWindow (insn >>> 20)) = true
    rw [why called,Bool.and_true,bne_iff_ne]
    exact some

theorem calls_dmstati (insn : Word) (clocked : Clocked W clock) (now : (m.hart i).cycle = t) :
    CallsFor clock t (rs2 insn = 2) m.world (dmstati W.logged m i insn).1.world := by
  unfold dmstati
  rw [now]
  dsimp only
  split
  · exact .silent (clocked.dmaCompletedId _ _)
  · rename_i two
    exact .single (BitVec.eq_of_toNat_eq two) (clocked.dmaBusy _ _)
  · exact .none _

theorem calls_xdma (clocked : Clocked W clock) (now : (m.hart i).cycle = t) (op : opcode insn = 0x2b) :
    CallsFor clock t (touchesWorld insn = true) m.world (xdma W.logged m i insn).1.world := by
  have touches : touchesWorld insn = (f7 insn == 0x02 || f7 insn == 0x04 && rs2 insn == 2) := by
    simp only [touchesWorld,op]
    rfl
  unfold xdma
  dsimp only
  split
  · exact .none _
  · exact .none _
  · exact .none _
  · exact .none _
  · rename_i seven
    have two : f7 insn = 0x02 := BitVec.eq_of_toNat_eq seven
    have why : touchesWorld insn = true := by rw [touches,two]; rfl
    unfold dmcpyi
    rw [now]
    exact .single why (clocked.dmaSubmit _ _ _ _)
  · rename_i seven
    have four : f7 insn = 0x04 := BitVec.eq_of_toNat_eq seven
    obtain ⟨new,calls,why⟩ := calls_dmstati insn clocked now
    refine ⟨new,calls,fun called => ?_⟩
    rw [touches,four,why called]
    rfl
  · exact .none _

/-- An instruction calls the world at the cycle of its issue. -/
theorem calls_of_effect {e : Machine (σ × Log σ)} (clocked : Clocked W clock) (now : (m.hart i).cycle = t)
    (effect : Effect W.logged m i insn e) :
    CallsFor clock t (touchesWorld insn = true) m.world e.world := by
  cases effect with
  | registers => exact .none _
  | host mem b op request =>
    unfold Machine.htifTohost
    split
    · exact .none _
    · exact .none _
  | fence => exact .silent (clocked.fence _ _ _)
  | system op => exact calls_system clocked now op
  | xdma op => exact calls_xdma clocked now op

end Calls

/-! ### Cycles of the harts -/

/-- Time only grows, and the other hart keeps its cycle and may at most have been halted. -/
structure Ran (i : Fin 2) (m e : Machine σ) : Prop where
  cycle : (m.hart i).cycle ≤ (e.hart i).cycle
  others : ∀ j, j ≠ i → (e.hart j).cycle = (m.hart j).cycle ∧
    ((e.hart j).state = (m.hart j).state ∨ (e.hart j).state = .halted)

section Ran

variable {W : World σ} {m e e' : Machine σ} {i : Fin 2} {insn : Word}

theorem Ran.refl (m : Machine σ) : Ran i m m := ⟨Nat.le_refl _,fun _ _ => ⟨rfl,.inl rfl⟩⟩

theorem Ran.trans (first : Ran i m e) (later : Ran i e e') : Ran i m e' where
  cycle := Nat.le_trans first.cycle later.cycle
  others := by
    intro j other
    obtain ⟨cycle,state⟩ := first.others j other
    obtain ⟨cycle',state'⟩ := later.others j other
    refine ⟨cycle'.trans cycle,?_⟩
    rcases state' with same | halted
    · rw [same]
      exact state
    · exact .inr halted

theorem ran_setHart {h : Hart} (grows : (m.hart i).cycle ≤ h.cycle) : Ran i m (m.setHart i h) where
  cycle := by rwa [hart_setHart]
  others := fun j other => by
    rw [hart_setHart_ne _ other]
    exact ⟨rfl,.inl rfl⟩

/-- What does not change the harts. -/
theorem ran_of_hart (same : e.hart = m.hart) : Ran i m e where
  cycle := by rw [same]
  others := fun j _ => by
    rw [same]
    exact ⟨rfl,.inl rfl⟩

theorem ran_world (world : σ) : Ran i m { m with world := world } := ran_of_hart rfl

theorem ran_setReg (r : Reg) (v : Word) : Ran i m (m.setReg i r v) := ran_setHart (Nat.le_refl _)

theorem ran_csrWrite (csr val : Word) : Ran i m (csrWrite W m i csr val) := by
  unfold csrWrite
  split
  · exact ran_of_hart rfl
  · exact ran_setHart (Nat.le_refl _)

theorem ran_csrCharge (csr : Word) : Ran i m (csrCharge W m i csr) := by
  unfold csrCharge
  split
  · exact ran_setHart (Nat.le_add_right _ _)
  · exact .refl m

theorem ran_csrOp : Ran i m (csrOp W m i insn).1 := by
  have read : Ran i m (csrRead W m i (insn >>> 20)).1 := ran_of_hart (csrRead_hart _)
  unfold csrOp
  dsimp only
  split
  · exact read.trans (ran_setReg _ _)
  · exact ((read.trans (ran_csrWrite _ _)).trans (ran_csrCharge _)).trans (ran_setReg _ _)

theorem ran_system : Ran i m (system W m i insn).1 := by
  unfold system
  split
  · exact .refl m
  · split
    · exact ran_setHart (Nat.le_refl _)
    · exact ran_csrOp

theorem ran_dmstati : Ran i m (dmstati W m i insn).1 := by
  unfold dmstati
  dsimp only
  split
  · exact (ran_world _).trans (ran_setReg _ _)
  · exact (ran_world _).trans (ran_setReg _ _)
  · exact (ran_world _).trans (ran_setReg _ _)

theorem ran_xdma : Ran i m (xdma W m i insn).1 := by
  unfold xdma
  dsimp only
  split
  · exact ran_of_hart rfl
  · exact ran_of_hart rfl
  · exact ran_of_hart rfl
  · exact ran_of_hart rfl
  · exact (ran_of_hart rfl : Ran i m _).trans ((ran_setReg _ _).trans (ran_of_hart rfl))
  · exact ran_dmstati
  · exact .refl m

theorem ran_of_effect (effect : Effect W m i insn e) : Ran i m e := by
  cases effect with
  | @registers h mem kept =>
    have memory : Ran i m { m with mem := mem } := ran_of_hart rfl
    exact memory.trans (ran_setHart kept.cycle.ge)
  | host mem b op request =>
    unfold Machine.htifTohost
    split
    · exact ⟨Nat.le_refl _,fun _ _ => ⟨rfl,.inr rfl⟩⟩
    · exact ran_of_hart rfl
  | fence => exact ran_of_hart rfl
  | system op => exact ran_system
  | xdma op => exact ran_xdma

theorem issue_cycle_ge (h : Hart) (insn : Word) : h.cycle + 1 ≤ (h.issue insn).cycle := by
  unfold Hart.issue
  dsimp only
  split
  · exact Nat.le_max_left _ _
  · exact Nat.le_refl _

theorem issue_cycle_le {h : Hart} {insn : Word} {t : Nat} (early : h.cycle + 1 ≤ t)
    (waits : readsReg insn h.pendReg = true → h.pendReady ≤ t) : (h.issue insn).cycle ≤ t := by
  unfold Hart.issue
  dsimp only
  split
  · rename_i reads
    exact Nat.max_le.mpr ⟨early,waits reads⟩
  · exact early

theorem sameTime_retire (h : Hart) (pc next : Word) (step : Step) : SameTime h (h.retire pc next step) := by
  unfold Hart.retire
  dsimp only
  split_ifs <;> exact ⟨rfl,rfl⟩

end Ran

/-! ### The invariant -/

/-- No hart will ever run again. -/
structure Stuck (m : Machine σ) : Prop where
  idle : ∀ i, (m.hart i).state ≠ .run ∧ (m.hart i).state ≠ .blockedPoll
  apart : bothAtBarrier m = false

/-- The last call is not ahead of a hart that runs, nor of both harts if one of them can run again. -/
structure InOrder (clock : σ → Nat) (m : Machine (σ × Log σ)) : Prop where
  causal : Causal clock m.world.2
  clock : clock m.world.1 ≤ last m.world.2
  running : ∀ i, (m.hart i).state = .run → last m.world.2 ≤ (m.hart i).cycle + 1
  behind : (∃ i, last m.world.2 ≤ (m.hart i).cycle) ∨ Stuck m

theorem two_cores (i : Fin 2) : i = core0 ∨ i = core1 :=
  match i with
  | ⟨0,_⟩ => .inl rfl
  | ⟨1,_⟩ => .inr rfl

theorem pick_none {m : Machine σ} (idle : pick m = none) (i : Fin 2) : (m.hart i).state ≠ .run := by
  have none : runnable (m.hart core0) = false ∧ runnable (m.hart core1) = false := by
    unfold pick at idle
    dsimp only at idle
    cases first : runnable (m.hart core0) <;> cases second : runnable (m.hart core1) <;>
      simp only [first,second,reduceIte,reduceCtorEq,Bool.and_false,Bool.and_true] at idle
    exact ⟨rfl,rfl⟩
  intro runs
  have runnable : runnable (m.hart i) = true := by rw [Interp.runnable,runs]; rfl
  rcases two_cores i with rfl | rfl
  · exact absurd (none.1.symm.trans runnable) Bool.false_ne_true
  · exact absurd (none.2.symm.trans runnable) Bool.false_ne_true

/-- The hart that is picked runs and is not ahead of the other one, if that runs too. -/
theorem pick_some {m : Machine σ} {i : Fin 2} (picked : pick m = some i) :
    (m.hart i).state = .run ∧
      ∀ j, j ≠ i → (m.hart j).state = .run → (m.hart i).cycle ≤ (m.hart j).cycle := by
  unfold pick at picked
  dsimp only at picked
  have runs (j : Fin 2) : runnable (m.hart j) = true ↔ (m.hart j).state = .run := beq_iff_eq
  split at picked
  · rename_i both
    rw [Bool.and_eq_true,runs,runs] at both
    obtain rfl := Option.some.inj picked
    split
    · rename_i first
      refine ⟨both.1,fun j other _ => ?_⟩
      rcases two_cores j with rfl | rfl
      · exact absurd rfl other
      · exact first
    · rename_i second
      refine ⟨both.2,fun j other _ => ?_⟩
      rcases two_cores j with rfl | rfl
      · omega
      · exact absurd rfl other
  · rename_i apart
    split at picked
    · rename_i first
      obtain rfl := Option.some.inj picked
      refine ⟨(runs _).mp first,fun j other running => ?_⟩
      rcases two_cores j with rfl | rfl
      · exact absurd rfl other
      · exact absurd (by rw [first,(runs _).mpr running]; rfl) apart
    · rename_i first
      split at picked
      · rename_i second
        obtain rfl := Option.some.inj picked
        refine ⟨(runs _).mp second,fun j other running => ?_⟩
        rcases two_cores j with rfl | rfl
        · exact absurd ((runs _).mpr running) first
        · exact absurd rfl other
      · cases picked

theorem last_append {new log : Log σ} {t : Nat} (now : ∀ e ∈ new, e.1 = t) (some : new ≠ []) :
    last (new ++ log) = t := by
  cases new with
  | nil => exact absurd rfl some
  | cons e rest => exact now e List.mem_cons_self

section Invariant

variable {clock : σ → Nat} {m e : Machine (σ × Log σ)} {i : Fin 2}

theorem le_last {log : Log σ} (ordered : (log.map Prod.fst).Pairwise (· ≥ ·)) :
    ∀ x ∈ log, x.1 ≤ last log := by
  intro x member
  cases log with
  | nil => exact absurd member List.not_mem_nil
  | cons first rest =>
    rcases List.mem_cons.mp member with rfl | later
    · exact Nat.le_refl _
    · exact (List.pairwise_cons.mp ordered).1 x.1 (List.mem_map_of_mem later)

/-- Calls at a time that is not in the past keep the log in order. -/
theorem Causal.calls {w w' : σ × Log σ} {t : Nat} {new : Log σ} (causal : Causal clock w.2)
    (reached : clock w.1 ≤ last w.2) (calls : Calls clock t w w' new) (late : new ≠ [] → last w.2 ≤ t) :
    Causal clock w'.2 ∧ clock w'.1 ≤ last w'.2 := by
  by_cases none : new = []
  · subst none
    rw [calls.log]
    exact ⟨causal,Nat.le_trans (calls.quiet rfl) reached⟩
  · have later := late none
    have bound : max (clock w.1) t = t := Nat.max_eq_right (Nat.le_trans reached later)
    refine ⟨⟨?_,fun x member => ?_⟩,?_⟩
    · rw [calls.log,List.map_append,List.pairwise_append]
      refine ⟨?_,causal.ordered,fun x new y old => ?_⟩
      · refine List.pairwise_of_forall_mem_list fun x first y second => ?_
        obtain ⟨x,member,rfl⟩ := List.mem_map.mp first
        obtain ⟨y,member',rfl⟩ := List.mem_map.mp second
        exact ((calls.now y member').1.trans (calls.now x member).1.symm).le
      · obtain ⟨x,member,rfl⟩ := List.mem_map.mp new
        obtain ⟨y,member',rfl⟩ := List.mem_map.mp old
        rw [(calls.now x member).1]
        exact Nat.le_trans (le_last causal.ordered y member') later
    · rw [calls.log] at member
      rcases List.mem_append.mp member with fresh | old
      · obtain ⟨here,met⟩ := calls.now x fresh
        rw [here]
        exact Nat.le_trans met bound.le
      · exact causal.current x old
    · rw [calls.log,last_append (fun x fresh => (calls.now x fresh).1) none]
      exact Nat.le_trans calls.clock bound.le

/-- The invariant after a step of hart `i` that leaves the calls and the cycles as described. -/
theorem InOrder.step {t : Nat} {new : Log σ} (order : InOrder clock m) (ran : Ran i m e)
    (calls : Calls clock t m.world e.world new) (grown : (m.hart i).cycle + 1 ≤ (e.hart i).cycle)
    (reached : t ≤ (e.hart i).cycle) (late : (m.hart i).cycle + 1 ≤ t) (runs : (m.hart i).state = .run)
    (waits : new ≠ [] → ∀ j, j ≠ i → (m.hart j).state = .run → t ≤ (m.hart j).cycle + 1) :
    InOrder clock e ∧ ∃ j, last e.world.2 ≤ (e.hart j).cycle := by
  have before := order.running i runs
  obtain ⟨causal,current⟩ := order.causal.calls order.clock calls fun _ => Nat.le_trans before late
  have own : last e.world.2 ≤ (e.hart i).cycle := by
    by_cases none : new = []
    · rw [calls.log,none,List.nil_append]
      exact Nat.le_trans before grown
    · rw [calls.log,last_append (fun x fresh => (calls.now x fresh).1) none]
      exact reached
  refine ⟨⟨causal,current,fun j running => ?_,.inl ⟨i,own⟩⟩,i,own⟩
  by_cases here : j = i
  · subst here
    exact Nat.le_succ_of_le own
  · obtain ⟨cycle,state⟩ := ran.others j here
    rcases state with same | halted
    · rw [same] at running
      rw [cycle]
      by_cases none : new = []
      · rw [calls.log,none,List.nil_append]
        exact order.running j running
      · rw [calls.log,last_append (fun x fresh => (calls.now x fresh).1) none]
        exact waits none j here running
    · rw [halted] at running
      exact HartState.noConfusion running

/-- What only lets time pass and stops harts. -/
theorem InOrder.stops (order : InOrder clock m) (world : e.world = m.world)
    (cycles : ∀ j, (e.hart j).cycle = (m.hart j).cycle)
    (states : ∀ j, (e.hart j).state = .run → (m.hart j).state = .run)
    (behind : ∃ j, last m.world.2 ≤ (m.hart j).cycle) : InOrder clock e := by
  refine ⟨?_,?_,fun j running => ?_,?_⟩
  · rw [world]
    exact order.causal
  · rw [world]
    exact order.clock
  · rw [world,cycles]
    exact order.running j (states j running)
  · obtain ⟨j,late⟩ := behind
    exact .inl ⟨j,by rwa [world,cycles]⟩

theorem InOrder.release (order : InOrder clock m) (met : bothAtBarrier m = true) :
    InOrder clock (releaseBarrier m) := by
  have late : last m.world.2 ≤ max (m.hart core0).cycle (m.hart core1).cycle := by
    rcases order.behind with ⟨j,late⟩ | stuck
    · rcases two_cores j with rfl | rfl
      · exact Nat.le_trans late (Nat.le_max_left _ _)
      · exact Nat.le_trans late (Nat.le_max_right _ _)
    · exact absurd (stuck.apart.symm.trans met) Bool.false_ne_true
  have released (j : Fin 2) : last m.world.2 ≤ ((releaseBarrier m).hart j).cycle :=
    Nat.le_trans late (Nat.le_add_right _ _)
  exact ⟨order.causal,order.clock,fun j _ => Nat.le_succ_of_le (released j),.inl ⟨core0,released core0⟩⟩

theorem wake_run {h : Hart} {t : Nat} (idle : h.state ≠ .run) (runs : (h.wake t).state = .run) :
    t ≤ (h.wake t).cycle := by
  unfold Hart.wake at runs ⊢
  split at runs
  · rename_i blocked
    rw [if_pos blocked]
    exact Nat.le_max_left _ _
  · exact absurd runs idle

theorem InOrder.event {W : World σ} {t : Nat} (order : InOrder clock m) (clocked : Clocked W clock)
    (idle : ∀ j, (m.hart j).state ≠ .run) (apart : bothAtBarrier m = false) (late : last m.world.2 ≤ t) :
    InOrder clock (advance W.logged m t) := by
  obtain ⟨causal,current⟩ := order.causal.calls order.clock (Calls.single (clocked.advanceTo _ m.mem t))
    fun _ => late
  refine ⟨causal,current,fun j running => Nat.le_succ_of_le (wake_run (idle j) running),?_⟩
  by_cases blocked : ∃ j, (m.hart j).state = .blockedPoll
  · obtain ⟨j,blocked⟩ := blocked
    refine .inl ⟨j,?_⟩
    change t ≤ ((m.hart j).wake t).cycle
    rw [Hart.wake,if_pos blocked]
    exact Nat.le_max_left _ _
  · have same (j : Fin 2) : (advance W.logged m t).hart j = m.hart j :=
      if_neg fun here => blocked ⟨j,here⟩
    refine .inr ⟨fun j => ?_,?_⟩
    · rw [same]
      exact ⟨idle j,fun here => blocked ⟨j,here⟩⟩
    · rw [bothAtBarrier,same,same]
      exact apart

theorem InOrder.signalled (order : InOrder clock m) (behind : ∃ j, last m.world.2 ≤ (m.hart j).cycle)
    (step : Step) : InOrder clock (signalled m i step) := by
  have stopped (state : HartState) (spins : Word) (idle : state ≠ .run) :
      InOrder clock (m.setHart i { m.hart i with state := state, pollSpins := spins }) := by
    refine order.stops rfl (fun j => ?_) (fun j running => ?_) behind
    · by_cases here : j = i
      · subst here
        rw [hart_setHart]
      · rw [hart_setHart_ne _ here]
    · by_cases here : j = i
      · subst here
        rw [hart_setHart] at running
        exact absurd running idle
      · rwa [hart_setHart_ne _ here] at running
  cases step with
  | normal => exact order
  | barrier =>
    dsimp only [Interp.signalled]
    split
    · rename_i met
      exact order.release met
    · exact order
  | halt => exact ⟨order.causal,order.clock,order.running,.inl behind⟩
  | wfi => exact stopped .parked (m.hart i).pollSpins HartState.noConfusion
  | pollRead =>
    dsimp only [Interp.signalled]
    split
    · exact stopped .blockedPoll 0 HartState.noConfusion
    · exact order

/-- One round keeps the invariant. -/
theorem inOrder_turn {W : World σ} (clocked : Clocked W clock) {s s' : Scheduler (σ × Log σ)}
    {out : Option (Taken (σ × Log σ))} (turn : Turn W.logged s s' out) (soon : timely W s = true)
    (order : InOrder clock s.m) : InOrder clock s'.m := by
  cases turn with
  | rest => exact order
  | release idle met => exact order.release met
  | @event t idle apart going next =>
    simp only [timely,idle,apart,going,Bool.false_or] at soon
    rw [show W.nextEventCycle s.m.world.1 = some t from next,Option.all_some,decide_eq_true_eq] at soon
    exact order.event clocked (pick_none idle) apart soon
  | @step i m step picked ran =>
    obtain ⟨runs,first⟩ := pick_some picked
    simp only [timely,picked,Bool.or_eq_true,Bool.not_eq_true',decide_eq_true_eq] at soon
    obtain ⟨e,next,effect,rfl⟩ := interpStep_cases ran
    have grown := issue_cycle_ge (s.m.hart i) (ld32 s.m.mem (s.m.hart i).pc)
    have issued : ((s.m.setHart i ((s.m.hart i).issue (ld32 s.m.mem (s.m.hart i).pc))).hart i).cycle =
        ((s.m.hart i).issue (ld32 s.m.mem (s.m.hart i).pc)).cycle := by rw [hart_setHart]
    have did := ran_of_effect effect
    obtain ⟨new,calls,why⟩ := calls_of_effect clocked issued effect
    have reached := did.cycle
    rw [issued] at reached
    have retired := sameTime_retire (e.hart i) (s.m.hart i).pc next step
    have waits : new ≠ [] → ∀ j, j ≠ i → (s.m.hart j).state = .run →
        ((s.m.hart i).issue (ld32 s.m.mem (s.m.hart i).pc)).cycle ≤ (s.m.hart j).cycle + 1 := by
      intro called j other running
      refine issue_cycle_le (Nat.succ_le_succ (first j other running)) fun reads => ?_
      rcases soon with silent | waits
      · rw [why called,reads] at silent
        cases silent
      · exact waits j other (by rw [runnable,running]; rfl)
    have whole : Ran i s.m (e.setHart i ((e.hart i).retire (s.m.hart i).pc next step)) :=
      ((ran_setHart (Nat.le_trans (Nat.le_succ _) grown)).trans did).trans (ran_setHart retired.cycle.ge)
    have cycle : ((e.setHart i ((e.hart i).retire (s.m.hart i).pc next step)).hart i).cycle =
        (e.hart i).cycle := by rw [hart_setHart,retired.cycle]
    obtain ⟨kept,behind⟩ := order.step (e := e.setHart i ((e.hart i).retire (s.m.hart i).pc next step)) whole
      calls (by rw [cycle]; exact Nat.le_trans grown reached) (by rw [cycle]; exact reached) grown runs waits
    exact kept.signalled behind step

end Invariant

end Interp

end Snax
