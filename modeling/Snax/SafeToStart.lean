import Snax.StaleReads
import Snax.Sync.Bisect

/-! `sim/src/world.cpp`: the safe-to-start sweep of `verify_datapath`. It bisects the gates of R10
and R11 for the least one at which a whole run of the engine reads no stale word. -/
namespace Snax

namespace SimWorld

/-- What the sweep takes from the invocation. -/
structure Setup where
  ports : Nat → Port
  cfg : SimbacoreCfg
  dtRankUnroll : BitVec 32

namespace Setup

variable (s : Setup)

def phase2 : Bool := s.cfg.mode.getLsbD 20

def enOsCore : Bool := s.cfg.mode.getLsbD 21

def enIsCore : Bool := s.cfg.mode.getLsbD 19

/-- `verify_datapath` returns at once unless this is an osCore GEMM of whole tiles. -/
def checkable : Bool :=
  s.cfg.seqLen.toInt.tmod 16 == 0 && s.cfg.dInner.toInt.tmod 24 == 0 && (s.ports 0).enabled &&
    (s.ports 14).enabled

def swCyc : Int :=
  if s.cfg.mode >>> 10 &&& 3 = 2 ∧ s.dtRankUnroll ≠ 0 ∧ s.cfg.dtRank ≠ 0 then
    (s.cfg.seqLen.setWidth 64 * s.cfg.dInner.setWidth 64 * s.cfg.dtRank.setWidth 64 /
      (4 * s.dtRankUnroll).setWidth 64).toInt
  else 0

def r10Total : Int :=
  (s.cfg.seqLen.toNat / 16 * (if 24 ≤ s.cfg.dInner.toNat then s.cfg.dInner.toNat / 24 else 0) : Nat)

def r11Total : Int := (s.cfg.seqLen.toNat * s.cfg.dInner.toNat : Nat)

/-- The arguments of the engine at gates `r10c` and `r11c`. -/
def args (r10c r11c : Int) : AccelEngine.Args where
  ports := s.ports
  cfg := s.cfg
  r10StartCnt := r10c
  r11StartCnt := r11c
  swCyc := s.swCyc
  recFires := false
  recFifo := false

end Setup

/-- `while (eng.step() && ++guard < n)`. -/
def stepWhile : Nat → AccelEngine → AccelEngine
  | 0, e => e
  | n + 1, e => if e.step.1.ctl.running then stepWhile n e.step.1 else e.step.1

/-- `run`: the stale reads of z and of y in a run of a new engine. -/
def run (depth : Nat → Int) (s : Setup) (r10c r11c : Int) : Int × Int :=
  let e := AccelEngine.configure depth AccelEngine.fresh (s.args r10c r11c)
  if e.ctl.running then
    let e := stepWhile 500000000 e
    (e.res.staleZ,e.res.staleY)
  else (-1,-1)

/-- The gate of R10 is safe, the isCore being released last. -/
def safeZ (depth : Nat → Int) (s : Setup) (r10c : Int) : Bool := (run depth s r10c s.r11Total).1 == 0

/-- The gate of R11 is safe with the SUC released at `r10c`. -/
def safeY (depth : Nat → Int) (s : Setup) (r10c r11c : Int) : Bool := (run depth s r10c r11c).2 == 0

/-- `s2s_opt_r10_`, `s2s_opt_r11_` and the totals. -/
structure Optima where
  r10 : Int
  r11 : Int
  totalR10 : Int
  totalR11 : Int

/-- The sweep, where `verify_datapath` makes it. -/
def sweep (depth : Nat → Int) (s : Setup) : Option Optima :=
  if s.phase2 && s.checkable && s.enOsCore && 0 < s.r10Total && 0 < s.r11Total then
    let minR10 := Bisect.first (safeZ depth s) s.r10Total
    let minR11 := if s.enIsCore then Bisect.first (safeY depth s minR10) s.r11Total else s.r11Total
    some ⟨minR10,minR11,s.r10Total,s.r11Total⟩
  else none

end SimWorld

/-! ### The counters over a run -/

namespace AccelEngine

/-- A cycle of P2 takes nothing from the counter of z, and without the isCore that of y stays. -/
theorem stepP2_stale (e : AccelEngine) : e.res.staleZ ≤ e.stepP2.1.res.staleZ ∧
    (e.shape.enIsc = false → e.stepP2.1.res.staleY = e.res.staleY) := by
  unfold stepP2
  extract_lets e1 suc isc e2 x
  have landed : Still e.ticked e1 := still_core (moves_landP2 _)
  have still : Still e.ticked e2 := still_beforeP2 _
  have same1 : e1.shape = e.shape := landed.shape
  have marks := still.marks
  simp only [AccelEngine.marks,Prod.mk.injEq] at marks
  obtain ⟨_,_,staleZ,staleY⟩ := marks
  have phase : x.1 = (commitsP2 suc isc (Snax.fabric.out e2.fabric
      (e2.fabricCycle (e2.requestsP2 suc isc))) ⟨e2.arbitrated (e2.requestsP2 suc isc),[]⟩).engine := by
    unfold x
    rw [fabricPhase_eq]
  split
  · exact ⟨Nat.le_refl _,fun _ => rfl⟩
  · split
    · exact ⟨Nat.le_refl _,fun _ => rfl⟩
    · split
      · exact ⟨staleZ.ge,fun _ => staleY⟩
      · have sampled := (still_sampleFifo x.1).marks
        simp only [AccelEngine.marks,Prod.mk.injEq] at sampled
        obtain ⟨_,_,lastZ,lastY⟩ := sampled
        obtain ⟨⟨gi,gj,z⟩,⟨gk,gl,y⟩⟩ := commitsP2_views suc isc (Snax.fabric.out e2.fabric
          (e2.fabricCycle (e2.requestsP2 suc isc))) ⟨e2.arbitrated (e2.requestsP2 suc isc),[]⟩
        rw [← phase] at z y
        refine ⟨?_,fun alone => ?_⟩
        · have count := congrArg (fun v => v.2.2.2) z
          simp only [viewZ,viewAfter] at count
          rw [lastZ,count]
          exact staleZ.ge.trans (Nat.le_add_right _ _)
        · have held : isc = false := by
            unfold isc iscRel
            rw [same1,alone,Bool.false_and]
          have count := congrArg (fun v => v.2.2.2) y
          simp only [viewY,viewAfter,held,Bool.false_eq_true,↓reduceIte] at count
          rw [lastY,count]
          exact staleY

theorem configureP2_fresh (depth : Nat → Int) (e : AccelEngine) (a : Args) :
    (e.configureP2 depth a).shape.enIsc = e.shape.enIsc ∧ (e.configureP2 depth a).res = Result.empty ∧
    (e.configureP2 depth a).ctl.running = true := by
  unfold configureP2
  extract_lets e1 e2 e3 e4 _ _ e5 e6 e7 _ e8 e9 e10 e11 e12 _ e13 e14 _ e15 e16 _ e17 _ _ e18
  have kept10 : e10.shape.enIsc = e8.shape.enIsc := by
    unfold e10
    split
    · split <;> rfl
    · rfl
  have kept14 : e14.shape.enIsc = e10.shape.enIsc := by
    unfold e14
    split <;> rfl
  exact ⟨kept14.trans kept10,rfl,rfl⟩

/-- An engine in a P2 invocation. -/
structure InP2 (e : AccelEngine) : Prop where
  fits : Fits e
  kinds : Kinds e
  watch : Watch e

theorem inP2_configure (depth : Nat → Int) {a : Args} (p2 : IsP2 a) :
    InP2 (configure depth AccelEngine.fresh a) := by
  obtain ⟨fits,kinds,watch⟩ := watch_run depth [] p2 [] nofun
  exact ⟨fits,kinds,watch⟩

theorem InP2.step {e : AccelEngine} (p2 : InP2 e) : InP2 e.step.1 ∧ e.step.1.shape = e.shape ∧
    e.res.staleZ ≤ e.step.1.res.staleZ ∧
    (e.shape.enIsc = false → e.step.1.res.staleY = e.res.staleY) := by
  obtain ⟨fits,kinds⟩ := step_kept p2.fits p2.kinds
  have here : e.step = e.stepP2 := by simp [AccelEngine.step,p2.watch.kind]
  refine ⟨⟨fits,kinds,(stepP2_watch p2.fits p2.kinds p2.watch).1⟩,(step_attributed p2.fits p2.kinds).2.2,?_⟩
  rw [here]
  exact stepP2_stale e

end AccelEngine

namespace SimWorld

open AccelEngine

theorem stepWhile_stale (n : Nat) {e : AccelEngine} (p2 : InP2 e) :
    e.res.staleZ ≤ (stepWhile n e).res.staleZ ∧
    (e.shape.enIsc = false → (stepWhile n e).res.staleY = e.res.staleY) := by
  induction n generalizing e with
  | zero => exact ⟨Nat.le_refl _,fun _ => rfl⟩
  | succ n ih =>
    obtain ⟨next,shape,more,same⟩ := p2.step
    obtain ⟨later,kept⟩ := ih next
    rw [shape] at kept
    rw [stepWhile]
    split
    · exact ⟨more.trans later,fun alone => (kept alone).trans (same alone)⟩
    · exact ⟨more,same⟩

/-- The cycles at the start of a run. -/
def steps : Nat → AccelEngine → AccelEngine
  | 0, e => e
  | k + 1, e => steps k e.step.1

theorem steps_stopped (k : Nat) {e : AccelEngine} (stopped : e.ctl.running = false) : steps k e = e := by
  induction k with
  | zero => rfl
  | succ k ih => rw [steps,step_stopped stopped,ih]

/-- What is stale after some cycles stays so to the end of the run. -/
theorem steps_stale {k n : Nat} (within : k ≤ n) {e : AccelEngine} (p2 : InP2 e) :
    (steps k e).res.staleZ ≤ (stepWhile n e).res.staleZ := by
  induction k generalizing n e with
  | zero => exact (stepWhile_stale n p2).1
  | succ k ih =>
    obtain ⟨m,rfl⟩ : ∃ m, n = m + 1 := ⟨n - 1,by omega⟩
    rw [steps,stepWhile]
    split
    · exact ih (Nat.le_of_succ_le_succ within) p2.step.1
    · rename_i stopped
      rw [steps_stopped k (by simpa using stopped)]

/-! ### The sweep -/

theorem isP2_of_running {depth : Nat → Int} {s : Setup} (p2 : s.phase2 = true) {r10c r11c : Int}
    (running : (configure depth AccelEngine.fresh (s.args r10c r11c)).ctl.running = true) :
    IsP2 (s.args r10c r11c) := by
  have enSuc : (AccelEngine.fresh.decode (s.args r10c r11c)).shape.enSuc = true := p2
  refine ⟨p2,?_⟩
  by_contra small
  have stopped : configure depth AccelEngine.fresh (s.args r10c r11c) =
      AccelEngine.fresh.decode (s.args r10c r11c) := by
    have few : (AccelEngine.fresh.decode (s.args r10c r11c)).shape.mI ≤ 0 ∨
        (AccelEngine.fresh.decode (s.args r10c r11c)).shape.osN ≤ 0 := by
      change s.cfg.seqLen.toInt.tdiv 16 ≤ 0 ∨
        (if 24 ≤ s.cfg.dInner.toInt then s.cfg.dInner.toInt.tdiv 24 else 0) ≤ 0
      by_cases rows : 16 ≤ s.cfg.seqLen.toInt
      · have columns : ¬ 24 ≤ s.cfg.dInner.toInt := fun columns => small ⟨rows,columns⟩
        exact .inr (by rw [if_neg columns])
      · rcases Int.le_total 0 s.cfg.seqLen.toInt with up | down
        · exact .inl (Int.tdiv_eq_zero_of_lt up (by omega)).le
        · have positive : 0 ≤ (-s.cfg.seqLen.toInt).tdiv 16 := Int.tdiv_nonneg (by omega) (by decide)
          rw [Int.neg_tdiv] at positive
          exact .inl (by omega)
    have nothing : (decide ((AccelEngine.fresh.decode (s.args r10c r11c)).shape.mI ≤ 0) ||
        decide ((AccelEngine.fresh.decode (s.args r10c r11c)).shape.osN ≤ 0)) = true := by
      simpa using few
    simp only [configure,enSuc,nothing,Bool.not_true,Bool.and_false,Bool.false_and,Bool.false_eq_true,
      ↓reduceIte]
  rw [stopped] at running
  exact Bool.false_ne_true running

/-- Without the isCore no word of y is read, so that every gate of R11 is safe or none. -/
theorem safeY_alone {depth : Nat → Int} {s : Setup} (p2 : s.phase2 = true) (alone : s.enIsCore = false)
    (r10c g : Int) : safeY depth s r10c g =
      (configure depth AccelEngine.fresh (s.args r10c g)).ctl.running := by
  rw [safeY,run]
  cases running : (configure depth AccelEngine.fresh (s.args r10c g)).ctl.running with
  | false => rfl
  | true =>
    have isP2 := isP2_of_running p2 running
    obtain ⟨_,kept⟩ := stepWhile_stale 500000000 (inP2_configure depth isP2)
    have start := configure_isP2 depth AccelEngine.fresh isP2
    obtain ⟨enIsc,res,_⟩ := configureP2_fresh depth (AccelEngine.fresh.decode (s.args r10c g)) (s.args r10c g)
    rw [← start] at enIsc res
    have enIsc := enIsc.trans alone
    have none : (stepWhile 500000000 (configure depth AccelEngine.fresh (s.args r10c g))).res.staleY = 0 := by
      rw [kept enIsc,res]
      rfl
    simp [none]

theorem sweep_some {depth : Nat → Int} {s : Setup} {o : Optima} (found : sweep depth s = some o) :
    s.phase2 = true ∧ 0 < s.r10Total ∧ 0 < s.r11Total ∧ o.totalR10 = s.r10Total ∧ o.totalR11 = s.r11Total ∧
    o.r10 = Bisect.first (safeZ depth s) s.r10Total ∧
    o.r11 = if s.enIsCore then Bisect.first (safeY depth s o.r10) s.r11Total else s.r11Total := by
  unfold sweep at found
  split at found
  · rename_i made
    simp only [Bool.and_eq_true,decide_eq_true_eq] at made
    obtain ⟨⟨⟨⟨p2,_⟩,_⟩,r10⟩,r11⟩ := made
    obtain rfl := Option.some.inj found
    exact ⟨p2,r10,r11,rfl,rfl,rfl,rfl⟩
  · exact nomatch found

/-- Both optima are the least safe gates, and all gates above them are safe. -/
def LeastGates (depth : Nat → Int) (s : Setup) (o : Optima) : Prop :=
  Bisect.Threshold (safeZ depth s) o.totalR10 o.r10 ∧ Bisect.Threshold (safeY depth s o.r10) o.totalR11 o.r11

theorem r11_not_least {depth : Nat → Int} {s : Setup} (p2 : s.phase2 = true) (positive : 0 < s.r10Total)
    (alone : s.enIsCore = false) (r10c : Int) :
    ¬ Bisect.Threshold (safeY depth s r10c) s.r11Total s.r11Total := by
  intro found
  have more : 1 < s.r11Total := by
    have rows : 16 ≤ s.cfg.seqLen.toNat := by
      by_contra few
      rw [Setup.r10Total,Nat.div_eq_of_lt (by omega),Nat.zero_mul] at positive
      exact absurd positive (by decide)
    have columns : 24 ≤ s.cfg.dInner.toNat := by
      by_contra few
      rw [Setup.r10Total,if_neg few,Nat.mul_zero] at positive
      exact absurd positive (by decide)
    have area : 16 * 24 ≤ s.cfg.seqLen.toNat * s.cfg.dInner.toNat := Nat.mul_le_mul rows columns
    rw [Setup.r11Total]
    omega
  have first := found.below 1 (Int.le_refl 1) more
  have last := found.hit
  rw [safeY_alone p2 alone] at first last
  have any : IsP2 (s.args r10c s.r11Total) := isP2_of_running p2 last
  have isP2 : IsP2 (s.args r10c 1) := ⟨any.1,any.2⟩
  rw [configure_isP2 depth AccelEngine.fresh isP2] at first
  have running := (configureP2_fresh depth (AccelEngine.fresh.decode (s.args r10c 1)) (s.args r10c 1)).2.2
  exact Bool.false_ne_true (first.symm.trans running)

end SimWorld

open SimWorld in
/-- The sweep returns the least safe gates, with all gates above them safe, if and only if there is
an isCore, the totals are safe and above a safe gate there are only safe ones. -/
theorem sweep_minimal {depth : Nat → Int} {s : Setup} {o : Optima} (found : sweep depth s = some o) :
    LeastGates depth s o ↔
      (safeZ depth s s.r10Total = true ∧ Bisect.Rising (safeZ depth s) s.r10Total) ∧
      s.enIsCore = true ∧ ∀ g, Bisect.Threshold (safeZ depth s) s.r10Total g →
        safeY depth s g s.r11Total = true ∧ Bisect.Rising (safeY depth s g) s.r11Total := by
  obtain ⟨p2,r10,r11,total10,total11,least10,least11⟩ := sweep_some found
  rw [LeastGates,total10,total11]
  constructor
  · rintro ⟨z,y⟩
    have rising := (Bisect.first_iff r10).mp (least10 ▸ z)
    cases core : s.enIsCore with
    | false =>
      rw [core,if_neg Bool.false_ne_true] at least11
      rw [least11] at y
      exact absurd y (r11_not_least p2 r10 core o.r10)
    | true =>
      rw [core,if_pos rfl] at least11
      refine ⟨rising,rfl,fun g threshold => ?_⟩
      rw [threshold.unique z]
      exact (Bisect.first_iff r11).mp (least11 ▸ y)
  · rintro ⟨rising,core,all⟩
    rw [core,if_pos rfl] at least11
    have z : Bisect.Threshold (safeZ depth s) s.r10Total o.r10 := least10 ▸ (Bisect.first_iff r10).mpr rising
    refine ⟨z,?_⟩
    rw [least11]
    exact (Bisect.first_iff r11).mpr (all o.r10 z)

namespace SimWorld

open AccelEngine

/-- One tile of 48 words of z, which R10 reads in the order in which W0 writes them. -/
def oneTilePorts (p : Nat) : Port :=
  if p = 0 then wordPort 0x10000080 1 8 true
  else if p = 1 then wordPort 0x100000c0 1 8 true
  else if p = 10 ∨ p = 14 then wordPort 0x10000000 48 8 true
  else wordPort 0x10000000 1 8 false

def oneTile : Setup := ⟨oneTilePorts,⟨0x380000,16,1,1,24,1⟩,0⟩

theorem oneTile_swept : ∃ o, sweep (snaxStreamerDepth none) oneTile = some o := by
  rw [sweep,if_pos (by decide)]
  exact ⟨_,rfl⟩

/-- At its only gate R10 reads the first word before W0 has written it. -/
theorem oneTile_stale : safeZ (snaxStreamerDepth none) oneTile oneTile.r10Total = false := by
  have isP2 : IsP2 (oneTile.args oneTile.r10Total oneTile.r11Total) := by decide
  have early := steps_stale (k := 3) (n := 500000000) (by decide)
    (inP2_configure (snaxStreamerDepth none) isP2)
  have running : (configure (snaxStreamerDepth none) AccelEngine.fresh
      (oneTile.args oneTile.r10Total oneTile.r11Total)).ctl.running = true := by decide +kernel
  have one : (steps 3 (configure (snaxStreamerDepth none) AccelEngine.fresh
      (oneTile.args oneTile.r10Total oneTile.r11Total))).res.staleZ = 1 := by decide +kernel
  rw [safeZ,run,running,if_pos rfl]
  generalize stepWhile 500000000 (configure (snaxStreamerDepth none) AccelEngine.fresh
      (oneTile.args oneTile.r10Total oneTile.r11Total)) = e at early
  simp only [beq_eq_false_iff_ne]
  omega

end SimWorld

open SimWorld

theorem sweep_minimal_one_tile : ∃ o, sweep (snaxStreamerDepth none) oneTile = some o ∧
    (LeastGates (snaxStreamerDepth none) oneTile o ↔
      (safeZ (snaxStreamerDepth none) oneTile oneTile.r10Total = true ∧
        Bisect.Rising (safeZ (snaxStreamerDepth none) oneTile) oneTile.r10Total) ∧
      oneTile.enIsCore = true ∧
      ∀ g, Bisect.Threshold (safeZ (snaxStreamerDepth none) oneTile) oneTile.r10Total g →
        safeY (snaxStreamerDepth none) oneTile g oneTile.r11Total = true ∧
        Bisect.Rising (safeY (snaxStreamerDepth none) oneTile g) oneTile.r11Total) :=
  oneTile_swept.imp fun _ found => ⟨found,sweep_minimal found⟩

/-- The only gate is unsafe, and the sweep returns it. -/
theorem sweep_returns_stale : ¬ ∀ (depth : Nat → Int) (s : Setup) (o : Optima), sweep depth s = some o →
    LeastGates depth s o := by
  intro all
  obtain ⟨o,found⟩ := oneTile_swept
  have minimal := (all _ _ o found).1
  obtain ⟨_,_,_,total,_⟩ := sweep_some found
  have only : o.r10 = oneTile.r10Total := by
    have low := minimal.low
    have high := minimal.high
    rw [total,show oneTile.r10Total = 1 by decide] at high
    rw [show oneTile.r10Total = 1 by decide]
    omega
  have hit := minimal.hit
  rw [only,oneTile_stale] at hit
  exact Bool.false_ne_true hit

end Snax
