import Snax.Streamer
import Snax.Sync.Episode
import Snax.CsrMap

/-! Idle soundness of the streamer: while an address generator runs the streamer reports
busy, a launch finds all movers at rest, the configuration stands still between launches
and every mover is started once. It holds of a run exactly when no delayed start pulse
comes in the cycle in which the streamer finishes. -/
namespace Snax.AddressGenUnit

variable {param : AddressGenUnitParam}

theorem started (s : State param) {i : Input param} (start : (i.start && cfgValid i.cfg) = true) :
    (next s i).currentState = .sBUSY := by
  simp [next,start]

/-- Nothing but a start with all bounds set wakes an idle address generator. -/
theorem stays_idle {s : State param} {i : Input param} (idle : s.currentState = .sIDLE)
    (quiet : (i.start && cfgValid i.cfg) = false) : (next s i).currentState = .sIDLE := by
  simp [next,quiet,idle]

theorem stays_empty {s : State param} (i : Input param) (idle : s.currentState = .sIDLE)
    (empty : ComplexQueueConcat.allEmpty s.outputBuffer = true) :
    ComplexQueueConcat.allEmpty (next s i).outputBuffer = true := by
  simp only [ComplexQueueConcat.allEmpty,decide_eq_true_eq] at empty ⊢
  intro c
  have drained : (s.outputBuffer c).elems = [] := by simpa [Queue.deqValid] using empty c
  simp [next,idle,ComplexQueueConcat.scatter,Queue.deqValid,drained]

end Snax.AddressGenUnit

namespace Snax.Streamer.Run

open Sync

variable {d : Design}

/-! ### The property -/

/-- The configuration delivered by the last launch, and the reset values before the first. -/
def launchedCfg (history : List (Output d)) : Csr d.param :=
  ((history.filterMap fun o => o.csr.readWriteReg).getLast?).getD fun _ => 0

/-- The cycles since the last launch, its own included. -/
def busyPeriod (history : List (Output d)) : List (Output d) := episode Output.configFire history

/-- While an address generator runs the streamer is busy and says so. -/
def Covered (s : State d) : Prop :=
  ∀ k, (s.addressgen k).currentState = .sBUSY → s.state = .sBUSY ∧ readOnlyReg s ⟨0,Nat.two_pos⟩ ≠ 0

structure SoundCycle (history : List (Output d)) (s : State d) (i : Input d) : Prop where
  refused : (out s i).configFire = true → ∀ k, moverBusy s k = false
  aguHeld : ∀ k, (out s i).aguCfg k = aguCfg (launchedCfg (history ++ [out s i])) k
  masksHeld : ∀ k, (out s i).readerwriterCfg k =
    (wiring d k).mover.masks (launchedCfg (history ++ [out s i]))
  extensionHeld : ∀ e, (out s i).extensionCfg e =
    (host d e).registersOf (launchedCfg (history ++ [out s i]))
  delayed : ∀ k, (wiring d k).start ≠ none →
    (busyPeriod (history ++ [out s i])).countP (fun o => o.start k) ≤ 1
  launched : ∀ k, (wiring d k).start = none → busyPeriod (history ++ [out s i]) ≠ [] →
    (busyPeriod (history ++ [out s i])).countP (fun o => o.start k) = 1

/-- Idle soundness of a run: of every state it reaches and of every cycle it takes. -/
structure IdleSound (d : Design) (s : State d) (inputs : List (Input d)) : Prop where
  covered : ∀ front, front <+: inputs → Covered ((streamer d).exec s front)
  cycles : (streamer d).Each SoundCycle s inputs

/-- No delayed start that a mover would take comes while everything has finished. -/
def NoLateStart (s : State d) (i : Input d) : Prop :=
  s.state = .sBUSY → (∀ k, moverBusy s k = false) → (∀ e, extensionBusy i e = false) →
    ∀ k, (addressgenInput s i k).start = true →
      AddressGenUnit.cfgValid (addressgenInput s i k).cfg = false

/-! ### One cycle -/

theorem busy_iff (s : State d) : streamerBusy s = true ↔ s.state = .sBUSY := by simp [streamerBusy]

theorem ready_iff (s : State d) : streamerReady s = true ↔ s.state = .sIDLE := by
  simp [streamerReady]

theorem reports_busy {s : State d} (busy : s.state = .sBUSY) : readOnlyReg s ⟨0,Nat.two_pos⟩ ≠ 0 := by
  simp [readOnlyReg,streamerBusy,busy]

theorem fire_idle {s : State d} {i : Input d} (fire : configFire s i = true) : s.state = .sIDLE := by
  rw [configFire,Bool.and_eq_true] at fire
  exact (ready_iff s).mp fire.2

theorem finish_iff (s : State d) (i : Input d) : streamerFinish s i = true ↔
    (∀ k, moverBusy s k = false) ∧ ∀ e, extensionBusy i e = false := by
  simp [streamerFinish]

theorem not_busy_iff (s : State d) (k : MoverIndex d) : moverBusy s k = false ↔
    (s.addressgen k).currentState = .sIDLE ∧
    ComplexQueueConcat.allEmpty (s.addressgen k).outputBuffer = true := by
  cases phase : (s.addressgen k).currentState <;> simp [moverBusy,phase]

/-- A mover at rest that gets no start it would take stays at rest. -/
theorem stays_rest {s : State d} {i : Input d} {k : MoverIndex d} (rest : moverBusy s k = false)
    (quiet : ((addressgenInput s i k).start && AddressGenUnit.cfgValid (addressgenInput s i k).cfg) =
      false) : moverBusy (next s i) k = false := by
  obtain ⟨idle,empty⟩ := (not_busy_iff s k).mp rest
  exact (not_busy_iff _ k).mpr
    ⟨AddressGenUnit.stays_idle idle quiet,AddressGenUnit.stays_empty _ idle empty⟩

/-- Without a launch an idle streamer starts nothing. -/
theorem no_start {s : State d} {i : Input d} (idle : s.state = .sIDLE)
    (fire : configFire s i = false) (k : MoverIndex d) : start s i k = false := by
  unfold start
  split
  · exact fire
  · split
    · simp [delayedStartPulses,streamerBusy,idle]
    · rfl

theorem next_idle {s : State d} {i : Input d} (after : (next s i).state = .sIDLE) :
    (s.state = .sIDLE ∧ configFire s i = false) ∨ (s.state = .sBUSY ∧ streamerFinish s i = true) := by
  cases phase : s.state with
  | sIDLE =>
    cases fire : configFire s i with
    | true => simp [next,phase,fire] at after
    | false => exact .inl ⟨rfl,rfl⟩
  | sBUSY =>
    cases finish : streamerFinish s i with
    | true => exact .inr ⟨rfl,rfl⟩
    | false => simp [next,phase,finish] at after

/-! ### The run -/

/-- An idle streamer has all its movers at rest. -/
def Rested (s : State d) : Prop := s.state = .sIDLE → ∀ k, moverBusy s k = false

theorem rested_next {s : State d} {i : Input d} (rested : Rested s) (noLate : NoLateStart s i) :
    Rested (next s i) := by
  intro after k
  rcases next_idle after with ⟨idle,fire⟩ | ⟨busy,finish⟩
  · apply stays_rest (rested idle k)
    have quiet : (addressgenInput s i k).start = false := no_start idle fire k
    rw [quiet,Bool.false_and]
  · obtain ⟨movers,extensions⟩ := (finish_iff s i).mp finish
    apply stays_rest (movers k)
    cases pulse : (addressgenInput s i k).start with
    | false => rfl
    | true => exact noLate busy movers extensions k pulse

theorem covered_of_rested {s : State d} (rested : Rested s) : Covered s := by
  intro k running
  cases phase : s.state with
  | sIDLE =>
    have idle := ((not_busy_iff s k).mp (rested phase k)).1
    rw [running] at idle
    contradiction
  | sBUSY => exact ⟨rfl,reports_busy phase⟩

/-- The stored configuration is the one launched last. -/
theorem csrCfg_launched {history : List (Output d)} {s : State d} (i : Input d)
    (stored : s.csrCfgReg = launchedCfg history) :
    csrCfg s i = launchedCfg (history ++ [out s i]) := by
  have delivered : (out s i).csr.readWriteReg =
      if configFire s i then some s.csrManager.regs else none := by
    have accepts : ReqRspManager.launched s.csrManager (csrManagerInput s i) = true →
        streamerReady s = true := by
      intro launch
      obtain ⟨req,taken,launching⟩ := (ReqRspManager.launched_iff _ _).mp launch
      have offered := ReqRspManager.accepted_offered taken
      exact ((ReqRspManager.accepted_launching offered launching).mp taken).1
    have same : configFire s i = ReqRspManager.launched s.csrManager (csrManagerInput s i) := by
      rw [configFire]
      cases launch : ReqRspManager.launched s.csrManager (csrManagerInput s i) with
      | true => rw [accepts launch,Bool.and_self]
      | false => rfl
    rw [same]
    rfl
  unfold csrCfg launchedCfg
  rw [List.filterMap_append,stored]
  cases fire : configFire s i with
  | true => simp [delivered,fire]
  | false => simp [delivered,fire,launchedCfg]

/-- In the running busy period a delayed mover has been started once at most, and not at
all while its flag is down. -/
structure Pulsed (history : List (Output d)) (s : State d) : Prop where
  once : ∀ k, (busyPeriod history).countP (fun o => o.start k) ≤ 1
  fresh : s.state = .sBUSY → ∀ k r (inside : r - delayedStartCsrBaseIndex d.param <
    d.param.delayedStartCount), (wiring d k).start = some r →
    s.delayedStreamersHaveStarted ⟨r - delayedStartCsrBaseIndex d.param,inside⟩ = false →
    (busyPeriod history).countP (fun o => o.start k) = 0
  global : ∀ k, (wiring d k).start = none → busyPeriod history ≠ [] →
    (busyPeriod history).countP (fun o => o.start k) = 1
  opened : s.state = .sBUSY → busyPeriod history ≠ []

theorem start_global {k : MoverIndex d} (own : (wiring d k).start = none) (s : State d) (i : Input d) :
    start s i k = configFire s i := by
  simp only [start,own]

/-- A delayed start comes while the streamer is busy, with the flag of its mover down. -/
theorem start_delayed {k : MoverIndex d} {r : Nat} (own : (wiring d k).start = some r) {s : State d}
    {i : Input d} (pulse : start s i k = true) : s.state = .sBUSY ∧
    ∃ inside : r - delayedStartCsrBaseIndex d.param < d.param.delayedStartCount,
      currentStartCSR s ⟨r - delayedStartCsrBaseIndex d.param,inside⟩ = true ∧
      s.delayedStreamersHaveStarted ⟨r - delayedStartCsrBaseIndex d.param,inside⟩ = false := by
  simp only [start,own] at pulse
  split at pulse
  · rename_i inside
    simp only [delayedStartPulses,Bool.and_eq_true,Bool.not_eq_true',busy_iff] at pulse
    exact ⟨pulse.2,inside,pulse.1.1,pulse.1.2⟩
  · contradiction

theorem flag_up {s : State d} {i : Input d} {j : Fin d.param.delayedStartCount} (busy : s.state = .sBUSY)
    (csr : currentStartCSR s j = true) : (next s i).delayedStreamersHaveStarted j = true := by
  simp [next,(busy_iff s).mpr busy,csr]

theorem flag_down {s : State d} {i : Input d} {j : Fin d.param.delayedStartCount} (busy : s.state = .sBUSY)
    (down : (next s i).delayedStreamersHaveStarted j = false) :
    s.delayedStreamersHaveStarted j = false := by
  have notReady : streamerReady s = false := by simp [streamerReady,busy]
  simp only [next,(busy_iff s).mpr busy,notReady,Bool.true_and,Bool.false_eq_true,↓reduceIte] at down
  split at down
  · contradiction
  · exact down

theorem busy_before {s : State d} {i : Input d} (after : (next s i).state = .sBUSY)
    (noFire : configFire s i = false) : s.state = .sBUSY := by
  cases phase : s.state with
  | sBUSY => rfl
  | sIDLE => simp [next,phase,noFire] at after

theorem pulsed_fire {history : List (Output d)} {s : State d} {i : Input d}
    (fire : configFire s i = true) : Pulsed (history ++ [out s i]) (next s i) := by
  have opening : (out s i).configFire = true := fire
  have count (k : MoverIndex d) : (busyPeriod (history ++ [out s i])).countP (fun o => o.start k) =
      (start s i k).toNat := by
    rw [busyPeriod,countP_episode_append,if_pos opening]
    rfl
  constructor
  · intro k
    rw [count]
    exact Bool.toNat_le _
  · intro _ k r _ own _
    rw [count]
    cases pulse : start s i k with
    | false => rfl
    | true =>
      have busy := (start_delayed own pulse).1
      rw [fire_idle fire] at busy
      contradiction
  · intro k own _
    rw [count,start_global own,fire]
    rfl
  · intro _
    rw [busyPeriod,episode_open history opening]
    exact List.cons_ne_nil _ _

theorem pulsed_continue {history : List (Output d)} {s : State d} {i : Input d}
    (pulsed : Pulsed history s) (noFire : configFire s i = false) :
    Pulsed (history ++ [out s i]) (next s i) := by
  have going : (out s i).configFire = false := noFire
  have count (k : MoverIndex d) : (busyPeriod (history ++ [out s i])).countP (fun o => o.start k) =
      if busyPeriod history = [] then 0
      else (busyPeriod history).countP (fun o => o.start k) + (start s i k).toNat := by
    rw [busyPeriod,countP_episode_append,going,if_neg Bool.false_ne_true]
    rfl
  have kept : busyPeriod (history ++ [out s i]) ≠ [] → busyPeriod history ≠ [] := by
    intro running none
    apply running
    rw [busyPeriod,episode_append,extend,going,if_neg Bool.false_ne_true]
    exact if_pos none
  constructor
  · intro k
    rw [count]
    split
    · exact Nat.zero_le _
    · have before := pulsed.once k
      cases pulse : start s i k with
      | false => simpa using before
      | true =>
        cases own : (wiring d k).start with
        | none => rw [start_global own,noFire] at pulse; contradiction
        | some r =>
          obtain ⟨busy,inside,_,flag⟩ := start_delayed own pulse
          rw [pulsed.fresh busy k r inside own flag]
          exact Nat.le_refl 1
  · intro after k r inside own down
    have busy := busy_before after noFire
    have flag := flag_down busy down
    rw [count,pulsed.fresh busy k r inside own flag]
    split
    · rfl
    · cases pulse : start s i k with
      | false => rfl
      | true =>
        obtain ⟨_,_,csr,_⟩ := start_delayed own pulse
        rw [flag_up busy csr] at down
        contradiction
  · intro k own running
    have before := kept running
    rw [count,if_neg before,pulsed.global k own before,start_global own,noFire]
    rfl
  · intro after none
    have before := pulsed.opened (busy_before after noFire)
    rw [busyPeriod,episode_continue history going before] at none
    simp at none

theorem pulsed_next {history : List (Output d)} {s : State d} (i : Input d) (pulsed : Pulsed history s) :
    Pulsed (history ++ [out s i]) (next s i) := by
  cases fire : configFire s i with
  | true => exact pulsed_fire fire
  | false => exact pulsed_continue pulsed fire

/-- What every run keeps, late starts or not. -/
structure Valid (history : List (Output d)) (s : State d) : Prop where
  stored : s.csrCfgReg = launchedCfg history
  pulsed : Pulsed history s

theorem valid_initial (d : Design) (before : Bool) : Valid [] (initial d before) :=
  ⟨rfl,fun _ => Nat.zero_le _,fun _ _ _ _ _ _ => rfl,fun _ _ none => absurd rfl none,
    fun busy => by simp [initial] at busy⟩

theorem valid_next (history : List (Output d)) (s : State d) (i : Input d) (valid : Valid history s) :
    Valid (history ++ [out s i]) (next s i) := by
  refine ⟨?_,pulsed_next i valid.pulsed⟩
  rw [← csrCfg_launched i valid.stored]
  rfl

theorem rested_initial (d : Design) (before : Bool) : Rested (initial d before) := by
  intro _ k
  apply (not_busy_iff _ k).mpr
  simp [initial,AddressGenUnit.initial,ComplexQueueConcat.allEmpty,Queue.deqValid]

/-- Where an idle streamer has its movers at rest, a cycle is sound. -/
theorem sound_of_rested {history : List (Output d)} {s : State d} (i : Input d)
    (valid : Valid history s) (rested : Rested s) : SoundCycle history s i := by
  have held := csrCfg_launched i valid.stored
  have pulsed := pulsed_next i valid.pulsed
  refine ⟨fun fire k => rested (fire_idle fire) k,fun k => ?_,fun k => ?_,fun e => ?_,
    fun k _ => pulsed.once k,fun k own running => pulsed.global k own running⟩
  · rw [← held]
    rfl
  · rw [← held]
    rfl
  · rw [← held]
    rfl

/-- A late start leaves the streamer idle over a running address generator. -/
theorem uncovered_of_late {s : State d} {i : Input d} (late : ¬ NoLateStart s i) :
    ¬ Covered (next s i) := by
  unfold NoLateStart at late
  push Not at late
  obtain ⟨busy,movers,extensions,k,pulse,bounds⟩ := late
  intro covered
  have running : ((next s i).addressgen k).currentState = .sBUSY := by
    apply AddressGenUnit.started
    rw [pulse,Bool.true_and]
    simpa using bounds
  have finish := (finish_iff s i).mpr ⟨movers,extensions⟩
  have idle : (next s i).state = .sIDLE := by simp [next,busy,finish]
  rw [(covered k running).1] at idle
  contradiction

/-- Idle soundness holds of a run exactly when no cycle of it has a late start. -/
theorem idle_sound (d : Design) (before : Bool) (inputs : List (Input d)) :
    IdleSound d (initial d before) inputs ↔
      (streamer d).Each (fun _ => NoLateStart) (initial d before) inputs := by
  constructor
  · intro sound front i after split
    by_contra late
    apply uncovered_of_late late
    have reached := sound.covered (front ++ [i]) ⟨after,by simp [split]⟩
    rwa [Machine.exec_append] at reached
  · intro noLate
    have rested (front : List (Input d)) (within : front <+: inputs) :
        Rested ((streamer d).exec (initial d before) front) := by
      obtain ⟨rest,rfl⟩ := within
      exact Machine.run_rule_each (m := streamer d) (fun _ s => Rested s) noLate.front
        (rested_initial d before) fun _ _ _ inv step => rested_next inv step
    constructor
    · intro front within
      exact covered_of_rested (rested front within)
    · rintro front i after rfl
      have valid := Machine.run_rule (m := streamer d) Valid (valid_initial d before) valid_next front
      exact sound_of_rested i valid (rested front ⟨i :: after,rfl⟩)

theorem onDemand_unrolled : ∀ p ∈ [readerSide] ++ [] ++ [],
    p.spatialBounds ≠ [] ∧ p.spatialBounds.prod = p.numChannel := by decide

theorem no_pairs : ([] : List ReaderWriterParam).length % 2 = 0 := rfl

theorem one_host : [readerSide].length = [([] : List DataPathExtensionParam)].length := rfl

theorem no_hosts :
    ([] : List ReaderWriterParam).length = ([] : List (List DataPathExtensionParam)).length := rfl

/-- A streamer whose only mover is a Reader with a start register of its own. -/
def onDemandParam : StreamerParam where
  readerParams := [readerSide]
  writerParams := []
  readerWriterParams := []
  readerDatapathExtension := [[]]
  writerDatapathExtension := []
  readerwriterDatapathExtension := []
  csrAddrWidth := 32
  hasReader := readerSide_some
  unrolled := onDemand_unrolled
  paired := no_pairs
  readerExtensions := one_host
  writerExtensions := no_hosts
  readerWriterExtensions := no_hosts

theorem onDemand_built : (elaborate onDemandParam).isSome = true := by decide +kernel

def onDemand : Design := ⟨onDemandParam,_,(Option.some_get onDemand_built).symm⟩

/-- A cycle of the bus in which no data path takes an address. -/
def busCycle (write : Option (BitVec 32 × BitVec 32)) : Input onDemand where
  req := write.map fun w => ⟨w.1,true,w.2,15,false⟩
  rspReady := true
  addrReady := fun _ _ => false
  extensionBusy := fun _ => false

/-- The start register of the mover is set before the launch, and the launch is repeated
one cycle after the streamer has gone idle. -/
def presetStart : List (Input onDemand) :=
  [busCycle (some (3,2)),busCycle (some (4,8)),busCycle (some (6,1)),busCycle (some (7,1)),
    busCycle none]

/-- The mover runs under an idle streamer, which then accepts the next launch. -/
theorem idle_sound_presetStart :
    (¬ ∀ (d : Design) (before : Bool) (inputs : List (Input d)), IdleSound d (initial d before) inputs) ∧
    ¬ Covered ((streamer onDemand).exec (initial onDemand false) presetStart) ∧
    (out ((streamer onDemand).exec (initial onDemand false) presetStart)
      (busCycle (some (7,1)))).configFire = true := by
  have reached : ((streamer onDemand).exec (initial onDemand false) presetStart).state = .sIDLE ∧
      (((streamer onDemand).exec (initial onDemand false) presetStart).addressgen
        ⟨0,by decide +kernel⟩).currentState = .sBUSY := by decide +kernel
  have uncovered : ¬ Covered ((streamer onDemand).exec (initial onDemand false) presetStart) := by
    intro covered
    have busy := (covered _ reached.2).1
    rw [reached.1] at busy
    contradiction
  refine ⟨fun sound => ?_,uncovered,by decide +kernel⟩
  exact uncovered ((sound onDemand false presetStart).covered presetStart (List.prefix_refl _))

end Snax.Streamer.Run
