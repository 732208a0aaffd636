import Snax.Causality
import Snax.GrantAttribution

/-! The clock of the simulated world is the cycle of its engine. No call puts it beyond its own time, so
that calls in order neither read a later cycle of the engine nor submit a transfer before it. -/
namespace Snax

namespace AccelEngine

/-- What a commit leaves alone. -/
def held (e : AccelEngine) : Control × Shape := (e.ctl,e.shape)

@[simp] theorem commitReader_held (g : List Bool) (x : Readback) (id : ReaderId) :
    (commitReader g x id).engine.held = x.engine.held := rfl

@[simp] theorem commitWriter_held (g : List Bool) (x : Readback) (id : WriterId) :
    (commitWriter g x id).engine.held = x.engine.held := rfl

/-- A commit that happens or not. -/
theorem ite_held (c : Prop) [Decidable c] (x y : Readback) :
    (if c then x else y).engine.held = if c then x.engine.held else y.engine.held :=
  apply_ite (fun x : Readback => x.engine.held) c x y

@[simp] theorem commitZ_held (g : List Bool) (x : Readback) : (commitZ g x).engine.held = x.engine.held := by
  unfold commitZ
  dsimp only
  split
  · rfl
  · rfl

@[simp] theorem commitY_held (g : List Bool) (x : Readback) : (commitY g x).engine.held = x.engine.held := by
  unfold commitY
  dsimp only
  split
  · rfl
  · rfl

@[simp] theorem commitReadZ_held (g : List Bool) (x : Readback) :
    (commitReadZ g x).engine.held = x.engine.held := by
  unfold commitReadZ
  dsimp only
  split
  · rfl
  · rfl

@[simp] theorem commitReadY_held (g : List Bool) (x : Readback) :
    (commitReadY g x).engine.held = x.engine.held := by
  unfold commitReadY
  dsimp only
  split
  · rfl
  · rfl

theorem foldl_held {α : Type} {f : Readback → α → Readback}
    (kept : ∀ x a, (f x a).engine.held = x.engine.held) (l : List α) (x : Readback) :
    (l.foldl f x).engine.held = x.engine.held := by
  induction l generalizing x with
  | nil => rfl
  | cons a rest ih => exact (ih (f x a)).trans (kept x a)

@[simp] theorem commitDtBC_held (g : List Bool) (x : Readback) :
    (commitDtBC g x).engine.held = x.engine.held := by
  refine foldl_held (fun x l => ?_) _ x
  unfold commitLane7
  split
  · dsimp only
    split
    · rfl
    · rfl
  · rfl

theorem commitsP1_held (g : List Bool) (x : Readback) : (commitsP1 g x).engine.held = x.engine.held := by
  simp only [commitsP1,commitReader_held,commitWriter_held,ite_held,ite_self]

theorem commitsOs_held (g : List Bool) (x : Readback) : (commitsOs g x).engine.held = x.engine.held := rfl

theorem commitsSimd_held (g : List Bool) (x : Readback) : (commitsSimd g x).engine.held = x.engine.held := by
  refine (foldl_held (fun x p => ?_) _ _).trans (foldl_held (fun x p => ?_) _ x)
  · simp only [commitWriter_held,ite_held,ite_self]
  · simp only [commitReader_held,ite_held,ite_self]

theorem commitsP2_held (suc isc : Bool) (g : List Bool) (x : Readback) :
    (commitsP2 suc isc g x).engine.held = x.engine.held := by
  simp only [commitsP2,commitReader_held,commitWriter_held,commitZ_held,commitY_held,commitReadZ_held,
    commitReadY_held,commitDtBC_held,ite_held,ite_self]

theorem fabricPhase_held (e : AccelEngine) (requests : List Request)
    {commits : List Bool → Readback → Readback}
    (kept : ∀ g x, (commits g x).engine.held = x.engine.held) :
    (e.fabricPhase requests commits).1.held = e.held := kept _ _

/-! ### The cycle of the engine -/

theorem sampleFifo_held (e : AccelEngine) : e.sampleFifo.held = e.held := by
  unfold sampleFifo
  split <;> rfl

/-- A cycle counts at most one, and exactly one below the cap if the engine runs on. -/
structure CountsOne (e e' : AccelEngine) : Prop where
  cyc : e'.ctl.cyc ≤ e.ctl.cyc + 1
  going : e'.ctl.running = true →
    e.ctl.cyc < e.shape.cap ∧ e'.ctl.cyc = e.ctl.cyc + 1 ∧ e'.shape = e.shape

theorem counts_stopped {e e' f : AccelEngine} (stopped : f.ctl.running = false)
    (cyc : f.ctl.cyc ≤ e.ctl.cyc + 1) (same : e'.held = f.held) : CountsOne e e' := by
  obtain ⟨ctl,_⟩ := Prod.mk.inj same
  refine ⟨ctl ▸ cyc,fun going => ?_⟩
  rw [ctl,stopped] at going
  cases going

/-- The fabric phase after the cores. -/
theorem counts_phase {e e' f : AccelEngine} (below : ¬e.shape.cap ≤ e.ctl.cyc) (still : Still e.ticked f)
    (same : e'.held = f.held) : CountsOne e e' := by
  obtain ⟨ctl,shape⟩ := Prod.mk.inj same
  have cyc : e'.ctl.cyc = e.ctl.cyc + 1 := (congrArg Control.cyc ctl).trans still.cyc
  exact ⟨cyc.le,fun _ => ⟨Nat.lt_of_not_le below,cyc,shape.trans still.shape⟩⟩

/-- A cycle that the engine does not run. -/
theorem counts_quiet {e : AccelEngine} (stopped : (!e.ctl.running) = true) : CountsOne e e :=
  counts_stopped (f := e) (by simpa using stopped) (Nat.le_succ _) rfl

theorem stepP1_counts (e : AccelEngine) : CountsOne e e.stepP1.1 := by
  unfold stepP1
  extract_lets e1 x
  have still : Still e.ticked e1 := still_core (moves_beforeP1 _ fun _ _ _ => trivial)
  split_ifs with stopped top
  · exact counts_quiet stopped
  · exact counts_stopped (f := e.capped) rfl (Nat.le_succ _) rfl
  · exact counts_stopped (f := e1.capped) rfl still.cyc.le rfl
  · exact counts_phase top still ((sampleFifo_held _).trans (fabricPhase_held _ _ commitsP1_held))

theorem stepOs_counts (e : AccelEngine) : CountsOne e e.stepOs.1 := by
  unfold stepOs
  extract_lets e1 e2 ended _ x
  have still : Still e.ticked e2 := still_core (moves_beforeOs _ fun _ _ _ => trivial)
  split_ifs with stopped top
  · exact counts_quiet stopped
  · exact counts_stopped (f := e.capped) rfl (Nat.le_succ _) rfl
  · exact counts_stopped (f := e2.capped) rfl still.cyc.le (sampleFifo_held _)
  · exact counts_phase top still ((sampleFifo_held _).trans (fabricPhase_held _ _ commitsOs_held))

theorem stepIs_counts (e : AccelEngine) : CountsOne e e.stepIs.1 := by
  unfold stepIs
  extract_lets e1 ended _ x
  have still : Still e.ticked e1 := still_core (moves_beforeIs _ fun _ _ _ => trivial)
  split_ifs with stopped top
  · exact counts_quiet stopped
  · exact counts_stopped (f := e.capped) rfl (Nat.le_succ _) rfl
  · exact counts_stopped (f := e1.capped) rfl still.cyc.le (sampleFifo_held _)
  · exact counts_phase top still ((sampleFifo_held _).trans
      (fabricPhase_held _ _ fun g x => commitWriter_held g x .w3))

theorem stepSimd_counts (e : AccelEngine) : CountsOne e e.stepSimd.1 := by
  unfold stepSimd
  extract_lets e1 e2
  have still : Still e.ticked e2 := still_core (moves_beforeSimd _ fun _ _ _ => trivial)
  split_ifs with stopped top
  · exact counts_quiet stopped
  · exact counts_stopped (f := e.capped) rfl (Nat.le_succ _) rfl
  · exact counts_stopped (f := e2.capped) rfl still.cyc.le rfl
  · exact counts_phase top still (fabricPhase_held _ _ commitsSimd_held)

theorem stepP2_counts (e : AccelEngine) : CountsOne e e.stepP2.1 := by
  unfold stepP2
  extract_lets e1 suc isc e2 x
  have still : Still e.ticked e2 := still_beforeP2 _
  split_ifs with stopped top
  · exact counts_quiet stopped
  · exact counts_stopped (f := e.capped) rfl (Nat.le_succ _) rfl
  · exact counts_stopped (f := e2.finishP2) rfl still.cyc.le rfl
  · exact counts_phase top still ((sampleFifo_held _).trans (fabricPhase_held _ _ (commitsP2_held suc isc)))

theorem step_counts (e : AccelEngine) : CountsOne e e.step.1 := by
  unfold step
  split_ifs
  · exact stepP1_counts e
  · exact stepOs_counts e
  · exact stepIs_counts e
  · exact stepSimd_counts e
  · exact stepP2_counts e

end AccelEngine

namespace SimWorld

/-- The cycle that the engine has reached while it runs. -/
def clock (w : SimWorld) : Nat := if w.engineActive then w.accelStart + w.engine.ctl.cyc else 0

theorem stepTo_cyc (target : Nat) (rounds : Nat) (e : AccelEngine) :
    (stepTo target rounds e).ctl.cyc ≤ max e.ctl.cyc target := by
  induction rounds generalizing e with
  | zero => exact Nat.le_max_left _ _
  | succ n ih =>
    unfold stepTo
    split
    · rename_i going
      have one := e.step_counts.cyc
      have rest := ih e.step.1
      omega
    · exact Nat.le_max_left _ _

theorem advanceTo_clock (w : SimWorld) (t : Nat) : (w.advanceTo t).clock ≤ max w.clock t := by
  unfold advanceTo
  split
  · exact Nat.le_max_left _ _
  rename_i going
  simp only [Bool.or_eq_true,Bool.not_eq_true',decide_eq_true_eq,not_or,Bool.not_eq_false,not_le] at going
  have bound := stepTo_cyc (t - w.accelStart) (t - w.accelStart) w.engine
  dsimp only
  split
  · simp only [clock,going.1,if_true]
    omega
  · exact Nat.zero_le _

theorem enqueueLive_clock (w : SimWorld) (d : DmaDesc) (at_ : Nat) :
    (w.enqueueLive d at_).clock ≤ max w.clock at_ := by
  unfold enqueueLive
  split
  · exact advanceTo_clock w at_
  · exact Nat.le_max_left _ _

theorem dmaSubmit_clock (w : SimWorld) (d : DmaDesc) (at_ : Nat) :
    (w.dmaSubmit d at_).clock ≤ max w.clock at_ := enqueueLive_clock _ d at_

/-! ### The simulated world -/

open Bytes (Memory)
open Interp (Word World Clocked)

/-- The operations on the SNAX registers. -/
structure Registers where
  write : SimWorld → Memory 32 → Word → Word → Nat → SimWorld × Memory 32
  serializes : SimWorld → Word → Nat → Bool
  read : SimWorld → Memory 32 → Word → Nat → SimWorld × Memory 32 × Word × Bool

/-- The world around the clock and the DMA, for given operations on the registers. -/
def world (r : Registers) : World SimWorld where
  advanceTo := fun w m t =>
    let w := ({ w with mem := m } : SimWorld).advanceTo t
    (w,w.mem)
  nextEventCycle := nextEventCycle
  dmaSubmit := fun w m d t =>
    let w := ({ w with mem := m } : SimWorld).dmaSubmit d t
    (w,w.mem,w.dmaTxid)
  dmaBusy := fun w t => (w,w.dmaBusy t)
  dmaCompletedId := fun w t => (w,w.dmaCompletedId t)
  snaxWrite := r.write
  snaxWriteSerializes := r.serializes
  snaxRead := r.read
  fence := fun w _ _ => w

/-- The registers may step the engine up to the time of the access, or start it there. -/
theorem clocked_world {r : Registers}
    (writes : ∀ w m csr val t, clock (r.write w m csr val t).1 ≤ max (clock w) t)
    (reads : ∀ w m csr t, clock (r.read w m csr t).1 ≤ max (clock w) t) : Clocked (world r) clock where
  advanceTo w m t := advanceTo_clock { w with mem := m } t
  dmaSubmit w m d t := dmaSubmit_clock { w with mem := m } d t
  dmaBusy w t := Nat.le_max_left _ _
  dmaCompletedId w t := Nat.le_refl _
  snaxWrite := writes
  snaxRead := reads
  fence w i t := Nat.le_refl _

/-- Registers that do nothing. -/
def quiet : World SimWorld := world ⟨fun w m _ _ _ => (w,m),fun _ _ _ => true,fun w m _ _ => (w,m,0,false)⟩

theorem clocked_quiet : Clocked quiet clock :=
  clocked_world (fun _ _ _ _ _ => Nat.le_max_left _ _) fun _ _ _ _ => Nat.le_max_left _ _

end SimWorld

namespace Interp

/-- Hart 0 computes a register with `first` and writes it to a SNAX register, hart 1 reads that one
twice. -/
def twoReaders {σ : Type} (world : σ) (first : Word) : Scheduler (σ × Log σ) where
  m := Machine.boot (world,[]) (st32 (st32 (st32 (st32 (st32 (st32 (fun _ => 0) 0x200 0xf14022f3)
    0x204 0x00029663) 0x208 first) 0x20c 0x3c031073) 0x210 0x3c0023f3) 0x214 0x3c0023f3) 0x200
  steps := 0
  maxInsns := 2000000000
  deadlocked := false

end Interp

open Interp in
/-- In every run whose rounds meet the condition the times of the calls never decrease, and no call meets
a world that is ahead of it. -/
theorem world_calls_causal {σ : Type} (W : World σ) {s : Scheduler (σ × Log σ)} {rounds : List Unit}
    (start : s.m.world.2 = [])
    (soon : (scheduler W.logged).Each (fun _ s _ => timely W s = true) s rounds) :
    (((scheduler W.logged).exec s rounds).m.world.2.map Prod.fst).Pairwise (· ≥ ·) ∧
      ∀ clock, Clocked W clock → clock s.m.world.1 = 0 →
        ∀ e ∈ ((scheduler W.logged).exec s rounds).m.world.2, clock e.2 ≤ e.1 := by
  have run (clock : σ → Nat) (clocked : Clocked W clock) (zero : clock s.m.world.1 = 0) :
      InOrder clock ((scheduler W.logged).exec s rounds).m := by
    refine Sync.Machine.run_rule_each (fun _ s => InOrder clock s.m) soon ?_ ?_
    · have none : last s.m.world.2 = 0 := by
        rw [start]
        rfl
      refine ⟨⟨?_,fun e member => ?_⟩,?_,fun i _ => ?_,.inl ⟨core0,?_⟩⟩
      · rw [start]
        exact List.Pairwise.nil
      · rw [start] at member
        exact absurd member List.not_mem_nil
      · rw [zero]
        exact Nat.zero_le _
      · rw [none]
        exact Nat.zero_le _
      · rw [none]
        exact Nat.zero_le _
    · intro history s round order soon
      exact inOrder_turn clocked (next_turn W.logged s) soon order
  refine ⟨?_,fun clock clocked zero => (run clock clocked zero).causal.current⟩
  have still : Clocked W fun _ => 0 := by
    constructor <;> intros <;> exact Nat.zero_le _
  exact (run _ still rfl).causal.ordered

open Interp in
/-- The register comes from an addition. -/
theorem world_calls_causal_addi :
    (((scheduler SimWorld.quiet.logged).exec (twoReaders SimWorld.fresh 0x00000313)
        (List.replicate 8 ())).m.world.2.map Prod.fst).Pairwise (· ≥ ·) ∧
      ∀ e ∈ ((scheduler SimWorld.quiet.logged).exec (twoReaders SimWorld.fresh 0x00000313)
        (List.replicate 8 ())).m.world.2, e.2.clock ≤ e.1 := by
  have run := @world_calls_causal _ SimWorld.quiet (twoReaders SimWorld.fresh 0x00000313)
    (List.replicate 8 ()) rfl (by decide +kernel)
  exact ⟨run.1,run.2 SimWorld.clock SimWorld.clocked_quiet rfl⟩

open Interp in
/-- It comes from a division: the write waits until cycle 35, the second read is at cycle 4. -/
theorem world_calls_go_back : ¬ ∀ (s : Scheduler (Unit × Log Unit)) (rounds : List Unit), s.m.world.2 = [] →
    (((scheduler World.null.logged).exec s rounds).m.world.2.map Prod.fst).Pairwise (· ≥ ·) := by
  intro all
  exact absurd (all (twoReaders () 0x02004333) (List.replicate 8 ()) rfl) (by decide +kernel)

end Snax
