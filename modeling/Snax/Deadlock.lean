import Mathlib.Logic.Relation
import Snax.SimClock

/-! When `Scheduler::run` ends. The branch for harts that all wait asks the world for its next event,
and the world announces completions that are long past. -/
namespace Snax
namespace Interp

open Relation (ReflTransGen)

section Rounds

variable {σ : Type} (W : World σ)

/-- A round after which the loop goes on. -/
def Goes (s t : Scheduler σ) : Prop := iteration W s = .again t

/-- A state of the loop in a run from `s`. -/
def Visits : Scheduler σ → Scheduler σ → Prop := ReflTransGen (Goes W)

/-- The run comes to a round that leaves the loop. -/
def Returns (s : Scheduler σ) : Prop := ∃ t, Visits W s t ∧ ∀ u, ¬ Goes W t u

/-- No hart can run, and the harts are not both at the barrier. -/
structure Waits (s : Scheduler σ) : Prop where
  going : s.m.exited = false ∧ s.steps < s.maxInsns
  none : pick s.m = none
  apart : bothAtBarrier s.m = false

/-- The branch in which the world is asked, as not both harts have finished. -/
structure Idle (s : Scheduler σ) : Prop extends Waits s where
  undone : allDone s.m = false

variable {W} {s t u : Scheduler σ}

theorem goes_unique (first : Goes W s t) (second : Goes W s u) : t = u :=
  Loop.again.inj (first.symm.trans second)

theorem visits_loop (loop : Goes W s s) (visits : Visits W s t) : t = s := by
  induction visits with
  | refl => rfl
  | tail _ last ih => exact goes_unique (ih ▸ last) loop

/-- A round that leads back to its own state is never left. -/
theorem not_returns_of_loop (loop : Goes W t t) (visits : Visits W s t) : ¬ Returns W s := by
  rintro ⟨u,ends,final⟩
  have unique : Relator.RightUnique (Goes W) := fun _ _ _ => goes_unique
  rcases ReflTransGen.total_of_right_unique unique visits ends with on | back
  · obtain rfl := visits_loop loop on
    exact final _ loop
  · rcases ReflTransGen.cases_head back with rfl | ⟨v,first,_⟩
    · exact final _ loop
    · exact final v first

theorem pick_none_iff (m : Machine σ) : pick m = none ↔ ∀ i, (m.hart i).state ≠ .run := by
  have each : (∀ i, (m.hart i).state ≠ .run) ↔
      (m.hart core0).state ≠ .run ∧ (m.hart core1).state ≠ .run := Fin.forall_fin_two
  rw [each,pick]
  generalize m.hart core0 = h0
  generalize m.hart core1 = h1
  by_cases first : h0.state = .run <;> by_cases second : h1.state = .run <;>
    simp [runnable,first,second]

theorem iteration_going (going : s.m.exited = false ∧ s.steps < s.maxInsns) :
    (s.m.exited || decide (s.maxInsns ≤ s.steps)) = false := by
  rw [going.1,Bool.false_or]
  exact decide_eq_false (Nat.not_le_of_lt going.2)

theorem iteration_done (waits : Waits s) (done : allDone s.m = true) : iteration W s = .left s := by
  rw [iteration,iteration_going waits.going,if_neg Bool.false_ne_true,waits.none]
  simp only [waits.apart,done,Bool.false_eq_true,if_false,if_true]

theorem iteration_idle (idle : Idle s) : iteration W s = match W.nextEventCycle s.m.world with
    | none => .left { s with deadlocked := true }
    | some t => .again { s with m := advance W s.m t } := by
  have apart : ¬ bothAtBarrier s.m = true := Bool.eq_false_iff.mp idle.apart
  have undone : ¬ allDone s.m = true := Bool.eq_false_iff.mp idle.undone
  rw [iteration,iteration_going idle.going,if_neg Bool.false_ne_true,idle.none]
  exact (if_neg apart).trans (if_neg undone)

/-- How a round goes on: a hart takes a step, the barrier is released, or the world advances. -/
inductive Onward (W : World σ) (s t : Scheduler σ) : Prop where
  | step (fewer : t.steps = s.steps + 1) (going : s.steps < s.maxInsns)
      (cap : t.maxInsns = s.maxInsns)
  | released (waits : pick s.m = none) (same : t = { s with m := releaseBarrier s.m })
  | advanced (idle : Idle s) (time : Nat) (event : W.nextEventCycle s.m.world = some time)
      (same : t = { s with m := advance W s.m time })

theorem goes_onward (goes : Goes W s t) : Onward W s t := by
  unfold Goes iteration at goes
  split at goes
  · cases goes
  · next open_ =>
    have going : s.m.exited = false ∧ s.steps < s.maxInsns := by simpa using open_
    split at goes
    · next none =>
      split at goes
      · exact .released none (Loop.again.inj goes).symm
      · split at goes
        · cases goes
        · next apart undone =>
          split at goes
          · cases goes
          · next time event =>
            have waits : Waits s := ⟨going,none,Bool.eq_false_of_not_eq_true apart⟩
            have idle : Idle s := ⟨waits,Bool.eq_false_of_not_eq_true undone⟩
            exact .advanced idle time event (Loop.again.inj goes).symm
    · split at goes
      · cases goes
      · obtain rfl := Loop.again.inj goes
        exact .step rfl going.2 rfl

end Rounds

end Interp

namespace SimWorld

open Interp (Machine Scheduler Goes Visits Returns Waits Idle Onward pick)

/-- The engine is idle, and no completion lies ahead of a hart. -/
structure NoEvent (m : Machine SimWorld) : Prop where
  idle : m.world.engineActive = false
  accel : ∀ i, m.world.accelStart < m.world.accelEnd → m.world.accelEnd ≤ (m.hart i).cycle
  dma : ∀ i, m.world.dmaBusyUntil ≤ (m.hart i).cycle

/-- What the loop promises from a state on: it ends, and where no hart can run it stops if both have
finished, and otherwise declares a deadlock exactly when nothing is to come. -/
structure Detects (W : Interp.World SimWorld) (s : Scheduler SimWorld) : Prop where
  returns : Returns W s
  finished : ∀ t, Visits W s t → Waits t → Interp.allDone t.m = true →
    Interp.iteration W t = .left t
  declared : ∀ t, Visits W s t → Idle t →
    (Interp.iteration W t = .left { t with deadlocked := true } ↔ NoEvent t.m)

/-- With the engine idle, an event that the world announces lies ahead, and a hart polls for it. -/
def Announced (t : Scheduler SimWorld) : Prop :=
  Idle t → t.m.world.engineActive = false → t.m.world.nextEventCycle ≠ none →
    (∃ i, (t.m.hart i).state = .blockedPoll) ∧ ¬ NoEvent t.m

variable {r : Registers} {s t : Scheduler SimWorld}

theorem noEvent_of_none {m : Machine SimWorld} (none : m.world.nextEventCycle = none) : NoEvent m := by
  unfold nextEventCycle at none
  split at none
  · cases none
  · next idle =>
    have quiet : m.world.dmaBusyUntil = 0 ∧ ¬ m.world.accelStart < m.world.accelEnd := by
      by_cases completed : m.world.accelStart < m.world.accelEnd
      · rw [if_pos completed] at none
        dsimp only at none
        split at none <;> cases none
      · rw [if_neg completed] at none
        refine ⟨?_,completed⟩
        by_contra busy
        rw [if_pos ⟨busy,rfl⟩] at none
        cases none
    have stopped := Bool.eq_false_of_not_eq_true idle
    refine ⟨stopped,fun i completed => absurd completed quiet.2,fun i => ?_⟩
    rw [quiet.1]
    exact Nat.zero_le _

/-! ### The measure of a run -/

/-- What the engine has left below its cap. -/
def engineLeft (w : SimWorld) : Nat :=
  if w.engineActive then 1 + (w.engine.shape.cap - w.engine.ctl.cyc) else 0

/-- The steps that are left, and the rounds to the next one. -/
def left (s : Scheduler SimWorld) : Nat × Nat :=
  (s.maxInsns - s.steps,if pick s.m = none then 1 + engineLeft s.m.world else 0)

theorem advanceTo_idle {w : SimWorld} (idle : w.engineActive = false) (t : Nat) : w.advanceTo t = w := by
  rw [advanceTo,idle]
  rfl

theorem stepTo_stopped {target : Nat} {e : AccelEngine} (n : Nat)
    (stopped : e.ctl.running = true → target ≤ e.ctl.cyc) : stepTo target n e = e := by
  cases n with
  | zero => rfl
  | succ n => exact if_neg fun going => Nat.not_le_of_lt going.2 (stopped going.1)

/-- The next event of a running engine is its next cycle. -/
theorem advanceTo_left {w : SimWorld} (active : w.engineActive = true) :
    engineLeft (w.advanceTo (w.accelStart + w.engine.ctl.cyc + 1)) < engineLeft w := by
  have span : w.accelStart + w.engine.ctl.cyc + 1 - w.accelStart = w.engine.ctl.cyc + 1 := by omega
  have ahead : ¬ ((!w.engineActive ||
      decide (w.accelStart + w.engine.ctl.cyc + 1 ≤ w.accelStart)) = true) := by
    rw [active,decide_eq_false (by omega)]
    exact Bool.false_ne_true
  have counts := w.engine.step_counts
  have once : stepTo (w.engine.ctl.cyc + 1) (w.engine.ctl.cyc + 1) w.engine =
      if w.engine.ctl.running then w.engine.step.1 else w.engine := by
    rw [stepTo]
    by_cases running : w.engine.ctl.running = true
    · rw [if_pos ⟨running,Nat.lt_succ_self _⟩,if_pos running]
      exact stepTo_stopped _ fun going => (counts.going going).2.1.ge
    · rw [if_neg (fun going => running going.1),if_neg running]
  rw [advanceTo,if_neg ahead,span,once]
  have some : engineLeft w = 1 + (w.engine.shape.cap - w.engine.ctl.cyc) := if_pos active
  by_cases running : w.engine.ctl.running = true
  · simp only [if_pos running]
    by_cases on : w.engine.step.1.ctl.running = true
    · rw [if_pos on]
      obtain ⟨below,cyc,shape⟩ := counts.going on
      simp only [engineLeft,active,if_true,cyc,shape]
      omega
    · rw [if_neg on,some]
      exact Nat.lt_of_lt_of_le Nat.zero_lt_one (Nat.le_add_right _ _)
  · simp only [if_neg running]
    rw [some]
    exact Nat.lt_of_lt_of_le Nat.zero_lt_one (Nat.le_add_right _ _)

theorem pick_released (m : Machine SimWorld) : pick (Interp.releaseBarrier m) ≠ none := by
  rw [Ne,Interp.pick_none_iff]
  exact fun stopped => stopped Interp.core0 rfl

/-- A poll that is woken runs. -/
theorem pick_advance {m : Machine SimWorld} {W : Interp.World SimWorld} (t : Nat) {i : Fin 2}
    (blocked : (m.hart i).state = .blockedPoll) : pick (Interp.advance W m t) ≠ none := by
  rw [Ne,Interp.pick_none_iff]
  refine fun stopped => stopped i ?_
  change ((m.hart i).wake t).state = .run
  rw [Interp.Hart.wake,if_pos blocked]

/-- Without a blocked poll only the world changes. -/
theorem advance_unblocked {m : Machine SimWorld} (t : Nat)
    (unblocked : ∀ i, (m.hart i).state ≠ .blockedPoll) :
    Interp.advance (world r) m t = { m with
      world := ({ m.world with mem := m.mem } : SimWorld).advanceTo t
      mem := (({ m.world with mem := m.mem } : SimWorld).advanceTo t).mem } := by
  have harts : (fun i => (m.hart i).wake t) = m.hart := funext fun i => if_neg (unblocked i)
  change { m with
    world := ({ m.world with mem := m.mem } : SimWorld).advanceTo t
    mem := (({ m.world with mem := m.mem } : SimWorld).advanceTo t).mem
    hart := fun i => (m.hart i).wake t } = _
  rw [harts]

/-- Each round takes a step of a hart or comes nearer to one. -/
theorem left_decreases (announced : Announced s) (goes : Goes (world r) s t) :
    Prod.Lex (· < ·) (· < ·) (left t) (left s) := by
  cases Interp.goes_onward goes with
  | step fewer going cap =>
    refine .left _ _ ?_
    rw [fewer,cap]
    omega
  | released waits same =>
    subst same
    refine .right _ ?_
    rw [if_neg (pick_released s.m),if_pos waits]
    omega
  | advanced idle time event same =>
    subst same
    refine .right _ ?_
    rw [if_pos idle.none]
    by_cases polls : ∃ i, (s.m.hart i).state = .blockedPoll
    · obtain ⟨i,blocked⟩ := polls
      rw [if_neg (pick_advance time blocked)]
      omega
    · have unblocked (i : Fin 2) : (s.m.hart i).state ≠ .blockedPoll := fun here => polls ⟨i,here⟩
      have active : s.m.world.engineActive = true := by
        by_contra stopped
        have event' : s.m.world.nextEventCycle = some time := event
        have some : s.m.world.nextEventCycle ≠ none := by
          rw [event']
          exact Option.some_ne_none time
        exact polls (announced idle (Bool.eq_false_of_not_eq_true stopped) some).1
      have now : s.m.world.accelStart + s.m.world.engine.ctl.cyc + 1 = time := by
        have event' : s.m.world.nextEventCycle = some time := event
        rw [nextEventCycle,if_pos active] at event'
        exact Option.some.inj event'
      have less := advanceTo_left (w := { s.m.world with mem := s.m.mem }) active
      simp only [now] at less
      rw [advance_unblocked time unblocked]
      have waits : pick { s.m with
          world := ({ s.m.world with mem := s.m.mem } : SimWorld).advanceTo time
          mem := (({ s.m.world with mem := s.m.mem } : SimWorld).advanceTo time).mem } = none :=
        idle.none
      rw [if_pos waits]
      exact Nat.add_lt_add_left less 1

theorem returns_of_announced (announced : ∀ t, Visits (world r) s t → Announced t) :
    Returns (world r) s := by
  have order := WellFounded.prod_lex Nat.lt_wfRel.wf Nat.lt_wfRel.wf
  induction measured : left s using order.induction generalizing s with
  | h _ ih =>
    subst measured
    by_cases final : ∀ u, ¬ Goes (world r) s u
    · exact ⟨s,.refl,final⟩
    · obtain ⟨u,goes⟩ := not_forall_not.mp final
      have less := left_decreases (announced s .refl) goes
      obtain ⟨t,visits,final⟩ := ih _ less (fun v visits => announced v (.head goes visits)) rfl
      exact ⟨t,.head goes visits,final⟩

/-! ### The branch for waiting harts -/

theorem declares_iff (idle : Idle t) :
    Interp.iteration (world r) t = .left { t with deadlocked := true } ↔
      t.m.world.nextEventCycle = none := by
  rw [Interp.iteration_idle idle]
  change (match t.m.world.nextEventCycle with
    | none => Interp.Loop.left { t with deadlocked := true }
    | some time => .again { t with m := Interp.advance (world r) t.m time }) = _ ↔ _
  cases t.m.world.nextEventCycle with
  | none => exact iff_of_true rfl rfl
  | some time => exact iff_of_false (fun same => nomatch same) (Option.some_ne_none _)

/-- The loop around a past event that nobody polls for. -/
theorem not_returns_of_past (visits : Visits (world r) s t) (idle : Idle t)
    (stopped : t.m.world.engineActive = false) {time : Nat}
    (event : t.m.world.nextEventCycle = some time)
    (unblocked : ∀ i, (t.m.hart i).state ≠ .blockedPoll) : ¬ Returns (world r) s := by
  let u : Scheduler SimWorld := { t with m := { t.m with world := { t.m.world with mem := t.m.mem } } }
  have idle' : Idle u := ⟨⟨idle.going,idle.none,idle.apart⟩,idle.undone⟩
  have enters (v : Scheduler SimWorld) (idle : Idle v) (stopped : v.m.world.engineActive = false)
      (event : v.m.world.nextEventCycle = some time)
      (unblocked : ∀ i, (v.m.hart i).state ≠ .blockedPoll) :
      Goes (world r) v { v with m := { v.m with world := { v.m.world with mem := v.m.mem } } } := by
    have known : (world r).nextEventCycle v.m.world = some time := event
    rw [Goes,Interp.iteration_idle idle,known]
    simp only
    rw [advance_unblocked time unblocked,advanceTo_idle (w := { v.m.world with mem := v.m.mem }) stopped]
  exact Interp.not_returns_of_loop (enters u idle' stopped event unblocked)
    (.tail visits (enters t idle stopped event unblocked))

/-- A run of the loop ends and declares exactly the deadlocks, if and only if none of its states has
an event announced that lies in the past or that no hart polls for. -/
theorem deadlock_detection (r : Registers) (s : Scheduler SimWorld) :
    Detects (world r) s ↔ ∀ t, Visits (world r) s t → Announced t := by
  constructor
  · rintro ⟨returns,_,declared⟩ t visits idle stopped some
    obtain ⟨time,event⟩ := Option.ne_none_iff_exists'.mp some
    refine ⟨?_,fun past => some ((declares_iff idle).mp ((declared t visits idle).mpr past))⟩
    by_contra unblocked
    exact not_returns_of_past visits idle stopped event (fun i here => unblocked ⟨i,here⟩) returns
  · intro announced
    refine ⟨returns_of_announced announced,fun _ _ => Interp.iteration_done,fun t visits idle => ?_⟩
    rw [declares_iff idle]
    refine ⟨noEvent_of_none,fun past => ?_⟩
    by_contra some
    exact (announced t visits idle past.idle some).2 past

/-- Hart 0 waits at the barrier and hart 1 for an interrupt, long after a transfer of hart 1. -/
def waiting : Scheduler SimWorld where
  m :=
    { Machine.boot { fresh with dmaBusyUntil := 29 } (fun _ => 0) 0x200 with
      hart := fun i => { (Machine.boot { fresh with dmaBusyUntil := 29 } (fun _ => 0) 0x200).hart i with
        cycle := 100
        state := if i = Interp.core0 then .atBarrier else .parked } }
  steps := 50
  maxInsns := 2000000000
  deadlocked := false

/-- Nothing is to come, and the loop never ends. -/
theorem deadlock_detection_waiting :
    ¬ ∀ (r : Registers) (s : Scheduler SimWorld), Detects (world r) s := by
  intro claimed
  have idle : Idle waiting := ⟨⟨⟨rfl,by decide⟩,rfl,rfl⟩,rfl⟩
  have silent : ∀ i, (waiting.m.hart i).state ≠ .blockedPoll :=
    Fin.forall_fin_two.mpr ⟨(fun same => nomatch same),(fun same => nomatch same)⟩
  let r : Registers := ⟨fun w m _ _ _ => (w,m),fun _ _ _ => true,fun w m _ _ => (w,m,0,false)⟩
  have event : waiting.m.world.nextEventCycle = some 29 := rfl
  exact not_returns_of_past .refl idle rfl event silent (claimed r waiting).returns

end SimWorld

end Snax
