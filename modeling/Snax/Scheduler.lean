import Snax.Interp
import Snax.Sync.Machine

/-! `sim/src/sched.cpp`: the loop that picks one of the two harts of the simulator at a time, by their
cycles, and what one turn of it can do. -/
namespace Snax

namespace Interp

variable {σ : Type}

/-- The compute core and the core that moves data. -/
abbrev core0 : Fin 2 := ⟨0,Nat.zero_lt_two⟩
abbrev core1 : Fin 2 := ⟨1,Nat.one_lt_two⟩

/-- The scheduler keeps the staging registers in the machine. -/
structure Scheduler (σ : Type) where
  m : Machine σ
  steps : Nat
  maxInsns : Nat
  deadlocked : Bool

/-! ### The loop -/

def runnable (h : Hart) : Bool := h.state == .run

def Hart.done (h : Hart) : Bool := h.state == .halted || h.state == .parked

def allDone (m : Machine σ) : Bool := (m.hart core0).done && (m.hart core1).done

def bothAtBarrier (m : Machine σ) : Bool :=
  (m.hart core0).state == .atBarrier && (m.hart core1).state == .atBarrier

def hwBarrierReleaseCost : Nat := 2

def releaseBarrier (m : Machine σ) : Machine σ :=
  let t := max (m.hart core0).cycle (m.hart core1).cycle + hwBarrierReleaseCost
  { m with hart := fun i => { m.hart i with cycle := t, state := .run } }

/-- The runnable hart with the smaller cycle, the first one on a tie. -/
def pick (m : Machine σ) : Option (Fin 2) :=
  let h0 := m.hart core0
  let h1 := m.hart core1
  if runnable h0 && runnable h1 then some (if h0.cycle ≤ h1.cycle then core0 else core1)
  else if runnable h0 then some core0
  else if runnable h1 then some core1
  else none

/-- A blocked poll runs again at the event. -/
def Hart.wake (h : Hart) (t : Nat) : Hart :=
  if h.state = .blockedPoll then { h with state := .run, cycle := max t h.cycle } else h

variable (W : World σ)

/-- The world goes on to its next event. -/
def advance (m : Machine σ) (t : Nat) : Machine σ :=
  let (world,mem) := W.advanceTo m.world m.mem t
  { m with world := world, mem := mem, hart := fun i => (m.hart i).wake t }

/-- What the scheduler does after a step of hart `i`. -/
def signalled (m : Machine σ) (i : Fin 2) : Step → Machine σ
  | .barrier => if bothAtBarrier m then releaseBarrier m else m
  | .halt => { m with exited := true }
  | .wfi => m.setHart i { m.hart i with state := .parked }
  | .pollRead =>
    if 64 < (m.hart i).pollSpins.toNat then
      m.setHart i { m.hart i with state := .blockedPoll, pollSpins := 0 }
    else m
  | .normal => m

/-- The loop goes on, or is left, or the simulator ends in it. -/
inductive Loop (σ : Type) where
  | again (s : Scheduler σ)
  | left (s : Scheduler σ)
  | aborted

/-- One round of `Scheduler::run`. -/
def iteration (s : Scheduler σ) : Loop σ :=
  if s.m.exited || decide (s.maxInsns ≤ s.steps) then .left s
  else match pick s.m with
    | none =>
      if bothAtBarrier s.m then .again { s with m := releaseBarrier s.m }
      else if allDone s.m then .left s
      else match W.nextEventCycle s.m.world with
        | none => .left { s with deadlocked := true }
        | some t => .again { s with m := advance W s.m t }
    | some i => match interpStep W s.m i with
      | none => .aborted
      | some (m,step) => .again { s with m := signalled m i step, steps := s.steps + 1 }

/-- A step that a hart has taken. -/
structure Taken (σ : Type) where
  i : Fin 2
  before : Machine σ
  after : Machine σ

/-- The step of a hart in this round, if there is one. -/
def taken (s : Scheduler σ) : Option (Taken σ) :=
  if s.m.exited || decide (s.maxInsns ≤ s.steps) then none
  else match pick s.m with
    | none => none
    | some i => match interpStep W s.m i with
      | none => none
      | some (m,_) => some ⟨i,s.m,m⟩

/-- `Scheduler::run`, round by round, with the steps of the harts. -/
def scheduler : Sync.Machine (Scheduler σ) Unit (Option (Taken σ)) where
  next s _ := match iteration W s with
    | .again s' => s'
    | .left s' => s'
    | .aborted => s
  out s _ := taken W s

/-! ### What an instruction can do -/

/-- The bytes that a store, an AMO or a store-conditional writes: where they start and their number. -/
def written (m : Machine σ) (i : Fin 2) (insn : Word) : Option (Word × Nat) :=
  let a := (m.hart i).x.get (rs1 insn)
  match (opcode insn).toNat with
  | 0x23 => match (f3 insn).toNat with
    | 0 => some (a + immS insn,1)
    | 1 => some (a + immS insn,2)
    | 2 => some (a + immS insn,4)
    | _ => none
  | 0x27 => match (f3 insn).toNat with
    | 2 => some (a + immS insn,4)
    | 3 => some (a + immS insn,8)
    | _ => none
  | 0x2f => if ((f7 insn).extractLsb' 2 5).toNat = 0x02 then none else some (a,4)
  | _ => none

def Outside (bytes : Option (Word × Nat)) (x : Word) : Prop :=
  ∀ b n, bytes = some (b,n) → n ≤ (x - b).toNat

/-- A hart whose registers may have changed. -/
structure SameTime (h h' : Hart) : Prop where
  cycle : h'.cycle = h.cycle
  state : h'.state = h.state

/-- The effect of an instruction: on the registers, on the bytes it writes, a request to the host, or
what the world is asked. -/
inductive Effect (m : Machine σ) (i : Fin 2) (insn : Word) : Machine σ → Prop
  | registers {h : Hart} {mem : Bytes.Memory 32} (kept : SameTime (m.hart i) h)
      (frame : ∀ x, Outside (written m i insn) x → mem x = m.mem x) :
      Effect m i insn ({ m with mem := mem }.setHart i h)
  | host (mem : Bytes.Memory 32) (b : Word) (op : opcode insn = 0x23)
      (request : (m.hart i).x.get (rs1 insn) + immS insn = m.tohost) :
      Effect m i insn ({ m with mem := mem }.htifTohost b)
  | fence : Effect m i insn { m with world := W.fence m.world i.val (m.hart i).cycle }
  | system (op : opcode insn = 0x73) : Effect m i insn (system W m i insn).1
  | xdma (op : opcode insn = 0x2b) : Effect m i insn (xdma W m i insn).1

theorem sameTime_set (h : Hart) (r : Reg) (v : Word) : SameTime h { h with x := h.x.set r v } := ⟨rfl,rfl⟩

theorem sameTime_pend (h : Hart) (r : Reg) (n : Nat) : SameTime h (h.pend r n) := by
  unfold Hart.pend
  split
  · exact ⟨rfl,rfl⟩
  · exact ⟨rfl,rfl⟩

theorem SameTime.trans {h h' h'' : Hart} (first : SameTime h h') (later : SameTime h' h'') : SameTime h h'' :=
  ⟨later.cycle.trans first.cycle,later.state.trans first.state⟩

section Effects

variable {W : World σ} {m : Machine σ} {i : Fin 2} {insn : Word}

/-- Only registers of the hart change. -/
theorem Effect.local {h : Hart} (kept : SameTime (m.hart i) h) : Effect W m i insn (m.setHart i h) :=
  @Effect.registers _ W m i insn h m.mem kept fun _ _ => rfl

theorem Effect.nothing : Effect W m i insn m := by
  have whole : Effect W m i insn (m.setHart i (m.hart i)) := .local ⟨rfl,rfl⟩
  rwa [setHart_self] at whole

theorem Effect.setPending (r : Reg) (v : Word) (n : Nat) : Effect W m i insn (m.setPending i r v n) := by
  rw [Machine.setPending,Machine.setReg,setHart_setHart,hart_setHart]
  exact .local ((sameTime_set _ r v).trans (sameTime_pend _ r n))

/-- Only memory changes. -/
theorem Effect.memory {mem : Bytes.Memory 32} (frame : ∀ x, Outside (written m i insn) x → mem x = m.mem x) :
    Effect W m i insn { m with mem := mem } := by
  have whole : Effect W m i insn ({ m with mem := mem }.setHart i (m.hart i)) := .registers ⟨rfl,rfl⟩ frame
  have same : ({ m with mem := mem } : Machine σ).setHart i (m.hart i) = { m with mem := mem } :=
    setHart_self { m with mem := mem } i
  rwa [same] at whole

theorem store_frame {bytes : Option (Word × Nat)} {x a : Word} {n v : Nat} (outside : Outside bytes x)
    (here : bytes = some (a,n)) : Bytes.store m.mem a (Bytes.split n v) x = m.mem x := by
  refine Bytes.store_outside _ ?_
  rw [Bytes.length_split]
  exact outside a n here

theorem Effect.store (op : opcode insn = 0x23) :
    Effect W m i insn (storeOp m (f3 insn) ((m.hart i).x.get (rs1 insn) + immS insn)
      ((m.hart i).x.get (rs2 insn))).1 := by
  unfold storeOp
  dsimp only
  split
  · rename_i request
    exact .host _ _ op request
  · refine .memory fun x outside => ?_
    simp only [written,op] at outside
    simp only [stored]
    generalize (f3 insn).toNat = three at outside ⊢
    split
    · exact store_frame outside rfl
    · exact store_frame outside rfl
    · exact store_frame outside rfl
    · rfl

theorem Effect.storeFp (op : opcode insn = 0x27) :
    Effect W m i insn (storeFp m i insn ((m.hart i).x.get (rs1 insn) + immS insn)) := by
  unfold Interp.storeFp
  dsimp only
  split
  · rename_i three
    exact .memory fun x outside => store_frame outside (by simp [written,op,three])
  · rename_i three
    exact .memory fun x outside => store_frame outside (by simp [written,op,three])
  · exact .nothing

theorem Effect.amo (op : opcode insn = 0x2f) : Effect W m i insn (amoOp m i insn) := by
  unfold amoOp
  dsimp only
  split
  · exact .local (sameTime_set _ _ _)
  · rename_i five
    exact .registers (sameTime_set _ _ _) fun x outside => store_frame outside (by simp [written,op,five])
  · rename_i notReserved _
    have bytes : written m i insn = some ((m.hart i).x.get (rs1 insn),4) := by
      simp only [written,op]
      exact if_neg notReserved
    exact .registers (sameTime_set _ _ _) fun x outside => store_frame outside bytes

theorem Effect.loadFp (addr : Word) : Effect W m i insn (loadFp m i insn addr) := by
  unfold Interp.loadFp
  dsimp only
  split
  · exact .local ⟨rfl,rfl⟩
  · exact .local ⟨rfl,rfl⟩
  · exact .nothing

theorem effect_of_execute {m' : Machine σ} {pc next : Word} {step : Step}
    (ran : execute W m i pc insn = some (m',next,step)) : Effect W m i insn m' := by
  unfold execute at ran
  dsimp only at ran
  split at ran
  · cases ran
    exact .local (sameTime_set _ _ _)
  · cases ran
    exact .local (sameTime_set _ _ _)
  · cases ran
    exact .local (sameTime_set _ _ _)
  · cases ran
    exact .local (sameTime_set _ _ _)
  · cases ran
    exact .nothing
  · cases ran
    exact .setPending _ _ _
  · rename_i op
    cases ran
    exact .store (BitVec.eq_of_toNat_eq op)
  · cases ran
    exact .local (sameTime_set _ _ _)
  · split at ran
    · cases ran
      exact .setPending _ _ _
    · cases ran
      exact .local (sameTime_set _ _ _)
  · cases ran
    exact .fence
  · rename_i op
    cases ran
    exact .amo (BitVec.eq_of_toNat_eq op)
  · rename_i op
    cases ran
    exact .system (BitVec.eq_of_toNat_eq op)
  · cases ran
    exact .loadFp _
  · rename_i op
    cases ran
    exact .storeFp (BitVec.eq_of_toNat_eq op)
  · cases ran
    exact .local ⟨rfl,rfl⟩
  · rename_i op
    cases ran
    exact .xdma (BitVec.eq_of_toNat_eq op)
  · cases ran

/-- A step is the issue, the effect and the end of an instruction. -/
theorem interpStep_cases {m' : Machine σ} {step : Step} (ran : interpStep W m i = some (m',step)) :
    ∃ e next, Effect W (m.setHart i ((m.hart i).issue (ld32 m.mem (m.hart i).pc))) i
        (ld32 m.mem (m.hart i).pc) e ∧
      m' = e.setHart i ((e.hart i).retire (m.hart i).pc next step) := by
  unfold interpStep at ran
  dsimp only at ran
  cases done : execute W (m.setHart i ((m.hart i).issue (ld32 m.mem (m.hart i).pc))) i (m.hart i).pc
      (ld32 m.mem (m.hart i).pc) with
  | none =>
    rw [done] at ran
    cases ran
  | some result =>
    obtain ⟨e,next,_⟩ := result
    rw [done] at ran
    cases ran
    exact ⟨e,next,effect_of_execute done,rfl⟩

end Effects

/-! ### What a round can do -/

/-- The scheduler and the step after a round. -/
inductive Turn (s : Scheduler σ) : Scheduler σ → Option (Taken σ) → Prop
  | rest (deadlocked : Bool) : Turn s { s with deadlocked := deadlocked } none
  | step {i : Fin 2} {m : Machine σ} {step : Step} (picked : pick s.m = some i)
      (ran : interpStep W s.m i = some (m,step)) :
      Turn s { s with m := signalled m i step, steps := s.steps + 1 } (some ⟨i,s.m,m⟩)
  | release (idle : pick s.m = none) (met : bothAtBarrier s.m = true) :
      Turn s { s with m := releaseBarrier s.m } none
  | event {t : Nat} (idle : pick s.m = none) (apart : bothAtBarrier s.m = false)
      (going : allDone s.m = false) (next : W.nextEventCycle s.m.world = some t) :
      Turn s { s with m := advance W s.m t } none

theorem next_turn (s : Scheduler σ) : Turn W s ((scheduler W).next s ()) ((scheduler W).out s ()) := by
  simp only [scheduler,iteration,taken]
  by_cases ended : (s.m.exited || decide (s.maxInsns ≤ s.steps)) = true
  · simp only [ended,if_true]
    exact .rest s.deadlocked
  simp only [if_neg ended]
  cases picked : pick s.m with
  | some i =>
    cases ran : interpStep W s.m i with
    | none =>
      simp only [ran]
      exact .rest s.deadlocked
    | some result =>
      simp only [ran]
      exact .step picked ran
  | none =>
    by_cases met : bothAtBarrier s.m = true
    · simp only [met,if_true]
      exact .release picked met
    simp only [if_neg met]
    by_cases done : allDone s.m = true
    · simp only [done,if_true]
      exact .rest s.deadlocked
    simp only [if_neg done]
    cases next : W.nextEventCycle s.m.world with
    | none => exact .rest true
    | some t => exact .event picked (by simpa using met) (by simpa using done) next

end Interp

end Snax
