import Snax.DataPathExtension
import Snax.DecoupledCut
import Snax.StreamReduction

/-! `DataPathExtensionHost.scala`: extensions in a row, each one enabled or bypassed, with a
cut between neighbours. What leaves is the composition of what the enabled extensions do. -/
namespace Snax

open Sync

/-- The circuit of an extension between `ext_data_i` and `ext_data_o`. -/
structure Extension (α : Type) where
  userCsrNum : Nat
  State : Type
  ready : State → BusInput (List (BitVec 32)) α → Bool
  output : State → BusInput (List (BitVec 32)) α → DataBus α
  busy : State → BusInput (List (BitVec 32)) α → Bool
  next : State → BusInput (List (BitVec 32)) α → State

/-- The ports of an extension with its bypass. -/
structure PortInput (α : Type) where
  enable : Bool
  csr : List (BitVec 32)
  start : Bool
  data : DataBus α
  ready : Bool

/-- Unless it is selected the circuit is offered nothing and finds no receiver. -/
def PortInput.ext {α : Type} (i : PortInput α) : BusInput (List (BitVec 32)) α :=
  ⟨i.csr,i.start,i.enable && i.data.valid,i.data.bits,i.enable && i.ready⟩

namespace Extension

variable {α : Type} (e : Extension α)

/-- The circuit alone. -/
def core : Machine e.State (BusInput (List (BitVec 32)) α) (ExtOutput α α) where
  next := e.next
  out s i :=
    { accepted := if e.ready s i then i.offered else none
      delivered := if i.ready then (e.output s i).offered else none
      busy := e.busy s i }

def dataReady (s : e.State) (i : PortInput α) : Bool := if i.enable then e.ready s i.ext else i.ready

def dataOut (s : e.State) (i : PortInput α) : DataBus α := if i.enable then e.output s i.ext else i.data

def busyOut (s : e.State) (i : PortInput α) : Bool := e.busy s i.ext || (i.enable && i.data.valid)

/-- The circuit between demux and mux. -/
def wrapped : Machine e.State (PortInput α) (ExtOutput α α) where
  next s i := e.next s i.ext
  out s i :=
    { accepted := if e.dataReady s i then i.data.offered else none
      delivered := if i.ready then (e.dataOut s i).offered else none
      busy := e.busyOut s i }

end Extension

/-- `io.cfg`, the bits of `enable` from the lowest on. -/
structure HostCfg where
  enable : List Bool
  userCsr : List (BitVec 32)

namespace HostCfg

variable {α : Type}

def port (cfg : HostCfg) (e : Extension α) (start : Bool) (data : DataBus α) (ready : Bool) : PortInput α :=
  ⟨cfg.enable.headD false,cfg.userCsr.take e.userCsrNum,start,data,ready⟩

/-- What the first extension leaves to the others. -/
def behind (cfg : HostCfg) (e : Extension α) : HostCfg := ⟨cfg.enable.tail,cfg.userCsr.drop e.userCsrNum⟩

def userCsrNum (es : List (Extension α)) : Nat := (es.map Extension.userCsrNum).sum

/-- The configuration in a list of CSRs, and the CSRs behind it. -/
def connectCfgWithList (es : List (Extension α)) (csrList : List (BitVec 32)) :
    HostCfg × List (BitVec 32) :=
  match es with
  | [] => (⟨[],[]⟩,csrList)
  | _ :: _ =>
    (⟨List.ofFn fun i : Fin es.length => (csrList.headD 0).getLsbD i.val,
      csrList.tail.take (userCsrNum es)⟩,csrList.tail.drop (userCsrNum es))

end HostCfg

structure HostInput (α : Type) where
  cfg : HostCfg
  start : Bool
  data : DataBus α
  ready : Bool

/-- The extensions behind a `data_o`, each with the cut in front of it. -/
def Behind (halfCut : Bool) {α : Type} : List (Extension α) → Type
  | [] => PUnit
  | e :: es => Cut α halfCut × e.State × Behind halfCut es

namespace Behind

variable {α : Type} {halfCut : Bool}

/-- The ready of the `data_o` in front. -/
def ready : (es : List (Extension α)) → Behind halfCut es → HostCfg → Bool → Bool → Bool
  | [], _, _, _, outReady => outReady
  | e :: es, (c,s,rest), cfg, start, outReady =>
    c.ready (e.dataReady s (cfg.port e start c.out (ready es rest (cfg.behind e) start outReady)))

/-- What the first extension sees. -/
def port (e : Extension α) (es : List (Extension α)) (b : Behind halfCut (e :: es)) (i : HostInput α) :
    PortInput α :=
  i.cfg.port e i.start b.1.out (ready es b.2.2 (i.cfg.behind e) i.start i.ready)

/-- What the others see. -/
def rest (e : Extension α) (es : List (Extension α)) (b : Behind halfCut (e :: es)) (i : HostInput α) :
    HostInput α :=
  ⟨i.cfg.behind e,i.start,e.dataOut b.2.1 (port e es b i),i.ready⟩

def out : (es : List (Extension α)) → Behind halfCut es → HostInput α → DataBus α
  | [], _, i => i.data
  | e :: es, b, i => out es b.2.2 (rest e es b i)

def busy : (es : List (Extension α)) → Behind halfCut es → HostInput α → Bool
  | [], _, _ => false
  | e :: es, b, i => e.busyOut b.2.1 (port e es b i) || busy es b.2.2 (rest e es b i)

def next : (es : List (Extension α)) → Behind halfCut es → HostInput α → Behind halfCut es
  | [], _, _ => PUnit.unit
  | e :: es, b, i =>
    (b.1.next i.data (e.dataReady b.2.1 (port e es b i)),e.next b.2.1 (port e es b i).ext,
      next es b.2.2 (rest e es b i))

def machine (es : List (Extension α)) : Machine (Behind halfCut es) (HostInput α) (ExtOutput α α) where
  next := next es
  out b i :=
    { accepted := if ready es b i.cfg i.start i.ready then i.data.offered else none
      delivered := if i.ready then (out es b i).offered else none
      busy := busy es b i }

end Behind

structure HostParam (α : Type) where
  extensionList : List (Extension α)
  headCut : Bool
  tailCut : Bool
  halfCut : Bool

/-- The first extension and those behind it. -/
def ExtChain (halfCut : Bool) {α : Type} : List (Extension α) → Type
  | [] => PUnit
  | e :: es => e.State × Behind halfCut es

namespace ExtChain

variable {α : Type} {halfCut : Bool}

def port (e : Extension α) (es : List (Extension α)) (c : ExtChain halfCut (e :: es)) (i : HostInput α) :
    PortInput α :=
  i.cfg.port e i.start i.data (Behind.ready es c.2 (i.cfg.behind e) i.start i.ready)

def rest (e : Extension α) (es : List (Extension α)) (c : ExtChain halfCut (e :: es)) (i : HostInput α) :
    HostInput α :=
  ⟨i.cfg.behind e,i.start,e.dataOut c.1 (port e es c i),i.ready⟩

def ready : (es : List (Extension α)) → ExtChain halfCut es → HostInput α → Bool
  | [], _, i => i.ready
  | e :: es, c, i => e.dataReady c.1 (port e es c i)

def out : (es : List (Extension α)) → ExtChain halfCut es → HostInput α → DataBus α
  | [], _, i => i.data
  | e :: es, c, i => Behind.out es c.2 (rest e es c i)

def busy : (es : List (Extension α)) → ExtChain halfCut es → HostInput α → Bool
  | [], _, _ => false
  | e :: es, c, i => e.busyOut c.1 (port e es c i) || Behind.busy es c.2 (rest e es c i)

def next : (es : List (Extension α)) → ExtChain halfCut es → HostInput α → ExtChain halfCut es
  | [], _, _ => PUnit.unit
  | e :: es, c, i => (e.next c.1 (port e es c i).ext,Behind.next es c.2 (rest e es c i))

def machine (es : List (Extension α)) : Machine (ExtChain halfCut es) (HostInput α) (ExtOutput α α) where
  next := next es
  out c i :=
    { accepted := if ready es c i then i.data.offered else none
      delivered := if i.ready then (out es c i).offered else none
      busy := busy es c i }

end ExtChain

/-- The cuts at the ends stand beside the path: the direct connections come later and win. -/
structure HostState {α : Type} (p : HostParam α) where
  headBuffer : Option (Cut α p.halfCut)
  tailBuffer : Option (Cut α p.halfCut)
  chain : ExtChain p.halfCut p.extensionList

/-- With no extension the ends are connected. -/
def extensionHost {α : Type} (p : HostParam α) : Machine (HostState p) (HostInput α) (ExtOutput α α) where
  next s i :=
    { headBuffer := s.headBuffer.map fun b => b.next i.data (ExtChain.ready _ s.chain i)
      tailBuffer := s.tailBuffer.map fun b => b.next (ExtChain.out _ s.chain i) i.ready
      chain := ExtChain.next _ s.chain i }
  out s i := (ExtChain.machine _).out s.chain i

/-- The registers after reset, the extensions in the states given. -/
def Behind.reset {α : Type} (zero : α) (halfCut : Bool) (init : (e : Extension α) → e.State) :
    (es : List (Extension α)) → Behind halfCut es
  | [] => PUnit.unit
  | e :: es => (Cut.reset zero halfCut,init e,Behind.reset zero halfCut init es)

def ExtChain.reset {α : Type} (zero : α) (halfCut : Bool) (init : (e : Extension α) → e.State) :
    (es : List (Extension α)) → ExtChain halfCut es
  | [] => PUnit.unit
  | e :: es => (init e,Behind.reset zero halfCut init es)

def HostState.reset {α : Type} (p : HostParam α) (zero : α) (init : (e : Extension α) → e.State) :
    HostState p where
  headBuffer := if p.headCut && !p.extensionList.isEmpty then some (Cut.reset zero _) else none
  tailBuffer := if p.tailCut && !p.extensionList.isEmpty then some (Cut.reset zero _) else none
  chain := ExtChain.reset zero p.halfCut init p.extensionList

/-! ### Tasks -/

variable {α : Type}

/-- A start pulse in the first cycle and none later. -/
def Pulsed (starts : List Bool) : Prop := ∃ n, starts = true :: List.replicate n false

/-- A run of a circuit under one configuration, from its start pulse on. -/
structure ExtTask (csr : List (BitVec 32)) (inputs : List (BusInput (List (BitVec 32)) α)) : Prop where
  csr : ∀ i ∈ inputs, i.csr = csr
  start : Pulsed (inputs.map BusInput.start)

/-- No word is offered together with the start pulse. -/
def Quiet (inputs : List (BusInput (List (BitVec 32)) α)) : Prop :=
  ∀ i, inputs.head? = some i → i.valid = false

structure HostTask (cfg : HostCfg) (inputs : List (HostInput α)) : Prop where
  cfg : ∀ i ∈ inputs, i.cfg = cfg
  start : Pulsed (inputs.map HostInput.start)

/-- An extension over a task: its configuration, its state before and after, and what the cut
in front of it holds before and after. -/
structure Stage (α : Type) where
  e : Extension α
  enable : Bool
  csr : List (BitVec 32)
  start : e.State
  finish : e.State
  before : List α
  after : List α
  /-- Whether nothing is offered together with the start pulse. -/
  quiet : Prop

/-- The circuit has run alone over the task; enabled it has turned the words it accepted into
those that leave, bypassed it has no part in them. -/
def Stage.Works (x : Stage α) (accepted delivered : List α) : Prop :=
  ∃ inputs, ExtTask x.csr inputs ∧ (x.quiet → Quiet inputs) ∧ x.finish = x.e.core.exec x.start inputs ∧
    if x.enable then
      accepted = acceptedWords (x.e.core.outs x.start inputs) ∧
        delivered = deliveredWords (x.e.core.outs x.start inputs)
    else delivered = accepted

/-- Words pass the stages in order: what was in a cut and what has come is what the extension
has accepted and what is still in the cut. -/
def Composed : List (Stage α) → List α → List α → Prop
  | [], words, result => result = words
  | x :: stages, words, result => ∃ accepted delivered, x.Works accepted delivered ∧
      x.before ++ words = accepted ++ x.after ∧ Composed stages delivered result

def Behind.stages {halfCut : Bool} : (es : List (Extension α)) → HostCfg → Behind halfCut es →
    Behind halfCut es → List (Stage α)
  | [], _, _, _ => []
  | e :: es, cfg, b, b' =>
    ⟨e,cfg.enable.headD false,cfg.userCsr.take e.userCsrNum,b.2.1,b'.2.1,b.1.contents,b'.1.contents,
        b.1.contents = []⟩ ::
      Behind.stages es (cfg.behind e) b.2.2 b'.2.2

def ExtChain.stages {halfCut : Bool} (quiet : Prop) : (es : List (Extension α)) → HostCfg →
    ExtChain halfCut es → ExtChain halfCut es → List (Stage α)
  | [], _, _, _ => []
  | e :: es, cfg, c, c' =>
    ⟨e,cfg.enable.headD false,cfg.userCsr.take e.userCsrNum,c.1,c'.1,[],[],quiet⟩ ::
      Behind.stages es (cfg.behind e) c.2 c'.2

/-! ### One extension -/

namespace Extension

variable {e : Extension α}

/-- The circuit runs alone on what it sees between demux and mux. -/
theorem wrapped_exec (s : e.State) (inputs : List (PortInput α)) :
    e.wrapped.exec s inputs = e.core.exec s (inputs.map PortInput.ext) := by
  induction inputs generalizing s with
  | nil => rfl
  | cons i rest ih => exact ih _

theorem wrapped_enabled {inputs : List (PortInput α)} (enabled : ∀ i ∈ inputs, i.enable = true)
    (s : e.State) :
    acceptedWords (e.wrapped.outs s inputs) = acceptedWords (e.core.outs s (inputs.map PortInput.ext)) ∧
      deliveredWords (e.wrapped.outs s inputs) =
        deliveredWords (e.core.outs s (inputs.map PortInput.ext)) := by
  induction inputs generalizing s with
  | nil => exact ⟨rfl,rfl⟩
  | cons i rest ih =>
    obtain ⟨taken,given⟩ := ih (fun j member => enabled j (List.mem_cons_of_mem _ member)) (e.next s i.ext)
    have on := enabled i List.mem_cons_self
    have same : (e.wrapped.out s i).accepted = (e.core.out s i.ext).accepted ∧
        (e.wrapped.out s i).delivered = (e.core.out s i.ext).delivered := by
      simp [wrapped,core,dataReady,dataOut,on,PortInput.ext,BusInput.offered,DataBus.offered]
    rw [List.map_cons,Machine.outs_cons,Machine.outs_cons,acceptedWords_cons,deliveredWords_cons,
      acceptedWords_cons,deliveredWords_cons,same.1,same.2]
    exact ⟨congrArg _ taken,congrArg _ given⟩

theorem wrapped_bypassed {inputs : List (PortInput α)} (disabled : ∀ i ∈ inputs, i.enable = false)
    (s : e.State) : deliveredWords (e.wrapped.outs s inputs) = acceptedWords (e.wrapped.outs s inputs) := by
  induction inputs generalizing s with
  | nil => rfl
  | cons i rest ih =>
    have later := ih (fun j member => disabled j (List.mem_cons_of_mem _ member)) (e.next s i.ext)
    have off := disabled i List.mem_cons_self
    have same : (e.wrapped.out s i).delivered = (e.wrapped.out s i).accepted := by
      simp [wrapped,dataReady,dataOut,off]
    rw [Machine.outs_cons,deliveredWords_cons,acceptedWords_cons,same]
    exact congrArg _ later

end Extension

/-- What the ports of an extension see of a task. -/
structure PortTask (enable : Bool) (csr : List (BitVec 32)) (inputs : List (PortInput α)) : Prop where
  enable : ∀ i ∈ inputs, i.enable = enable
  csr : ∀ i ∈ inputs, i.csr = csr
  start : Pulsed (inputs.map PortInput.start)

theorem PortTask.works {x : Stage α} {inputs : List (PortInput α)} (task : PortTask x.enable x.csr inputs)
    (quiet : x.quiet → ∀ i, inputs.head? = some i → i.data.valid = false)
    (finish : x.finish = x.e.wrapped.exec x.start inputs) :
    x.Works (acceptedWords (x.e.wrapped.outs x.start inputs))
      (deliveredWords (x.e.wrapped.outs x.start inputs)) := by
  refine ⟨inputs.map PortInput.ext,⟨fun i member => ?_,?_⟩,fun still i first => ?_,
    finish.trans (Extension.wrapped_exec _ _),?_⟩
  · obtain ⟨j,inside,rfl⟩ := List.mem_map.mp member
    exact task.csr j inside
  · rw [List.map_map]
    exact task.start
  · rw [List.head?_map,Option.map_eq_some_iff] at first
    obtain ⟨j,first,rfl⟩ := first
    simp [PortInput.ext,quiet still j first]
  · split
    · next on => exact Extension.wrapped_enabled (fun i member => (task.enable i member).trans on) _
    · next off =>
      exact Extension.wrapped_bypassed (fun i member => (task.enable i member).trans (by simpa using off)) _

/-! ### The chain -/

namespace HostTask

variable {cfg : HostCfg} {inputs : List (HostInput α)} {State Output : Type}
  {m : Machine State (HostInput α) Output}

/-- The ports of an extension see one configuration and the start pulse of the task. -/
theorem port (task : HostTask cfg inputs) (e : Extension α) {f : State → HostInput α → PortInput α}
    (wired : ∀ s i, ∃ data ready, f s i = i.cfg.port e i.start data ready) (s : State) :
    PortTask (cfg.enable.headD false) (cfg.userCsr.take e.userCsrNum) (m.translate f s inputs) := by
  have all : ∀ j ∈ m.translate f s inputs, ∃ start data ready, j = cfg.port e start data ready := by
    intro j member
    obtain ⟨t,i,inside,rfl⟩ := Machine.mem_translate member
    obtain ⟨data,ready,same⟩ := wired t i
    exact ⟨i.start,data,ready,same.trans (by rw [task.cfg i inside])⟩
  refine ⟨fun j member => ?_,fun j member => ?_,?_⟩
  · obtain ⟨_,_,_,rfl⟩ := all j member
    rfl
  · obtain ⟨_,_,_,rfl⟩ := all j member
    rfl
  · rw [Machine.map_translate (h := HostInput.start) fun t i => ?_]
    · exact task.start
    · obtain ⟨_,_,same⟩ := wired t i
      rw [same]
      rfl

/-- The others see a task under what is left of the configuration. -/
theorem rest (task : HostTask cfg inputs) (e : Extension α) {f : State → HostInput α → HostInput α}
    (wired : ∀ s i, ∃ data ready, f s i = ⟨i.cfg.behind e,i.start,data,ready⟩) (s : State) :
    HostTask (cfg.behind e) (m.translate f s inputs) := by
  refine ⟨fun j member => ?_,?_⟩
  · obtain ⟨t,i,inside,rfl⟩ := Machine.mem_translate member
    obtain ⟨_,_,same⟩ := wired t i
    rw [same,task.cfg i inside]
  · rw [Machine.map_translate (h := HostInput.start) fun t i => ?_]
    · exact task.start
    · obtain ⟨_,_,same⟩ := wired t i
      rw [same]

end HostTask

namespace Behind

variable {halfCut : Bool}

/-- A run of a cut, an extension and those behind it, taken apart. -/
structure Split (e : Extension α) (es : List (Extension α)) (b : Behind halfCut (e :: es))
    (inputs : List (HostInput α)) (ports : List (PortInput α)) (rests : List (HostInput α)) : Prop where
  finish : ((machine (e :: es)).exec b inputs).2.1 = e.wrapped.exec b.2.1 ports
  behind : ((machine (e :: es)).exec b inputs).2.2 = (machine es).exec b.2.2 rests
  link : deliveredWords (e.wrapped.outs b.2.1 ports) = acceptedWords ((machine es).outs b.2.2 rests)
  result : deliveredWords ((machine (e :: es)).outs b inputs) =
    deliveredWords ((machine es).outs b.2.2 rests)
  cut : b.1.contents ++ acceptedWords ((machine (e :: es)).outs b inputs) =
    acceptedWords (e.wrapped.outs b.2.1 ports) ++ ((machine (e :: es)).exec b inputs).1.contents

theorem split (e : Extension α) (es : List (Extension α)) (inputs : List (HostInput α))
    (b : Behind halfCut (e :: es)) :
    Split e es b inputs ((machine (e :: es)).translate (port e es) b inputs)
      ((machine (e :: es)).translate (rest e es) b inputs) := by
  induction inputs generalizing b with
  | nil => exact ⟨rfl,rfl,rfl,rfl,List.append_nil _⟩
  | cons i inputs ih =>
    have later := ih (next (e :: es) b i)
    -- one cycle: the cut gives what the extension accepts, and takes in what comes
    have moved := b.1.next_conserves i.data (e.dataReady b.2.1 (port e es b i))
    have taken : (e.wrapped.out b.2.1 (port e es b i)).accepted =
        if e.dataReady b.2.1 (port e es b i) then b.1.out.offered else none := rfl
    have came : ((machine (e :: es)).out b i).accepted =
        if b.1.ready (e.dataReady b.2.1 (port e es b i)) then i.data.offered else none := rfl
    have link : (e.wrapped.out b.2.1 (port e es b i)).delivered =
        ((machine es).out b.2.2 (rest e es b i)).accepted := rfl
    have result : ((machine (e :: es)).out b i).delivered =
        ((machine es).out b.2.2 (rest e es b i)).delivered := rfl
    rw [← taken,← came] at moved
    refine ⟨later.finish,later.behind,?_,?_,?_⟩
    · rw [Machine.translate,Machine.translate,Machine.outs_cons,Machine.outs_cons,deliveredWords_cons,
        acceptedWords_cons,link]
      exact congrArg _ later.link
    · rw [Machine.translate,Machine.outs_cons,Machine.outs_cons,deliveredWords_cons,deliveredWords_cons,
        result]
      exact congrArg _ later.result
    · rw [Machine.translate,Machine.outs_cons,Machine.outs_cons,acceptedWords_cons,acceptedWords_cons,
        ← List.append_assoc,← moved,List.append_assoc,List.append_assoc]
      exact congrArg _ later.cut

/-- A task of the extensions behind a port. -/
theorem composed {cfg : HostCfg} (es : List (Extension α)) {inputs : List (HostInput α)}
    (task : HostTask cfg inputs) (b : Behind halfCut es) :
    Composed (stages es cfg b ((machine es).exec b inputs))
      (acceptedWords ((machine es).outs b inputs)) (deliveredWords ((machine es).outs b inputs)) := by
  induction es generalizing cfg inputs with
  | nil =>
    clear task
    induction inputs with
    | nil => rfl
    | cons i inputs ih =>
      rw [Machine.outs_cons,deliveredWords_cons,acceptedWords_cons]
      exact congrArg _ ih
  | cons e es ih =>
    have parts := split e es inputs b
    have tail := ih (task.rest (m := machine (e :: es)) e (f := rest e es)
      (fun b i => ⟨_,_,rfl⟩) b) b.2.2
    have works := (task.port (m := machine (e :: es)) e (f := port e es)
      (fun b i => ⟨_,_,rfl⟩) b).works (x := ⟨e,_,_,b.2.1,((machine (e :: es)).exec b inputs).2.1,
        b.1.contents,((machine (e :: es)).exec b inputs).1.contents,b.1.contents = []⟩) ?_ parts.finish
    · rw [← parts.behind,← parts.link,← parts.result] at tail
      exact ⟨_,_,works,parts.cut,tail⟩
    · intro empty i first
      cases inputs with
      | nil => simp [Machine.translate] at first
      | cons j inputs =>
        obtain rfl : port e es b j = i := by simpa [Machine.translate] using first
        have none : b.1.out.offered.isSome = false := by
          rw [Cut.out_offered,show b.1.contents = [] from empty]
          rfl
        rw [DataBus.offered_isSome] at none
        exact none

end Behind

namespace ExtChain

variable {halfCut : Bool}

theorem composed {cfg : HostCfg} (es : List (Extension α)) {inputs : List (HostInput α)}
    (task : HostTask cfg inputs) {quiet : Prop}
    (still : quiet → ∀ i, inputs.head? = some i → i.data.valid = false) (c : ExtChain halfCut es) :
    Composed (stages quiet es cfg c ((machine es).exec c inputs))
      (acceptedWords ((machine es).outs c inputs)) (deliveredWords ((machine es).outs c inputs)) := by
  cases es with
  | nil =>
    clear task still
    induction inputs with
    | nil => rfl
    | cons i inputs ih =>
      rw [Machine.outs_cons,deliveredWords_cons,acceptedWords_cons]
      exact congrArg _ ih
  | cons e es =>
    have parts : ∀ (inputs : List (HostInput α)) (c : ExtChain halfCut (e :: es)),
        let ports := (machine (e :: es)).translate (port e es) c inputs
        let rests := (machine (e :: es)).translate (rest e es) c inputs
        ((machine (e :: es)).exec c inputs).1 = e.wrapped.exec c.1 ports ∧
          ((machine (e :: es)).exec c inputs).2 = (Behind.machine es).exec c.2 rests ∧
          acceptedWords ((machine (e :: es)).outs c inputs) = acceptedWords (e.wrapped.outs c.1 ports) ∧
          acceptedWords ((Behind.machine es).outs c.2 rests) = deliveredWords (e.wrapped.outs c.1 ports) ∧
          deliveredWords ((Behind.machine es).outs c.2 rests) =
            deliveredWords ((machine (e :: es)).outs c inputs) := by
      intro inputs
      induction inputs with
      | nil => exact fun c => ⟨rfl,rfl,rfl,rfl,rfl⟩
      | cons i inputs ih =>
        intro c
        obtain ⟨finish,behind,came,link,result⟩ := ih (next (e :: es) c i)
        refine ⟨finish,behind,?_,?_,?_⟩
        · rw [Machine.translate,Machine.outs_cons,Machine.outs_cons,acceptedWords_cons,acceptedWords_cons]
          exact congrArg _ came
        · rw [Machine.translate,Machine.translate,Machine.outs_cons,Machine.outs_cons,
            acceptedWords_cons,deliveredWords_cons]
          exact congrArg _ link
        · rw [Machine.translate,Machine.outs_cons,Machine.outs_cons,deliveredWords_cons,deliveredWords_cons]
          exact congrArg _ result
    obtain ⟨finish,behind,came,link,result⟩ := parts inputs c
    have tail := Behind.composed es (task.rest (m := machine (e :: es)) e (f := rest e es)
      (fun c i => ⟨_,_,rfl⟩) c) c.2
    have works := (task.port (m := machine (e :: es)) e (f := port e es)
      (fun c i => ⟨_,_,rfl⟩) c).works (x := ⟨e,_,_,c.1,((machine (e :: es)).exec c inputs).1,[],[],quiet⟩)
      ?_ finish
    · rw [← behind,link,result] at tail
      refine ⟨_,_,works,?_,tail⟩
      rw [came]
      exact (List.append_nil _).symm
    · intro kept i first
      cases inputs with
      | nil => simp [Machine.translate] at first
      | cons j inputs =>
        obtain rfl : port e es c j = i := by simpa [Machine.translate] using first
        exact still kept j rfl

end ExtChain

/-- The cuts beside the path have no part in a run. -/
theorem extensionHost_run (p : HostParam α) (inputs : List (HostInput α)) (s : HostState p) :
    (extensionHost p).outs s inputs = (ExtChain.machine _).outs s.chain inputs ∧
      ((extensionHost p).exec s inputs).chain = (ExtChain.machine _).exec s.chain inputs := by
  induction inputs generalizing s with
  | nil => exact ⟨rfl,rfl⟩
  | cons i rest ih =>
    obtain ⟨outs,finish⟩ := ih ((extensionHost p).next s i)
    exact ⟨congrArg _ outs,finish⟩

/-! ### Stream functions -/

/-- The circuit of a stage computes a stream function in its tasks: what has left is a front
of the function of what it has accepted, all of it once the circuit is done. -/
structure Computes (x : Stage α) (f : List α → List α) (done : x.e.State → Prop) : Prop where
  mono : ∀ {words more}, words <+: more → f words <+: f more
  front : ∀ inputs, ExtTask x.csr inputs → (x.quiet → Quiet inputs) →
    deliveredWords (x.e.core.outs x.start inputs) <+: f (acceptedWords (x.e.core.outs x.start inputs))
  all : ∀ inputs, ExtTask x.csr inputs → (x.quiet → Quiet inputs) → done (x.e.core.exec x.start inputs) →
    deliveredWords (x.e.core.outs x.start inputs) = f (acceptedWords (x.e.core.outs x.start inputs))

/-- A stream function for each extension, from its state at the start and its CSRs. -/
abbrev StreamFunctions (α : Type) := (e : Extension α) → e.State → List (BitVec 32) → List α → List α

def Stage.stream (F : StreamFunctions α) (x : Stage α) (words : List α) : List α :=
  if x.enable then F x.e x.start x.csr (x.before ++ words) else x.before ++ words

/-- The stream functions of the enabled extensions in list order. -/
def composition (F : StreamFunctions α) (stages : List (Stage α)) (words : List α) : List α :=
  stages.foldl (fun ws x => x.stream F ws) words

/-- Nothing is left in the cut, and the circuit is done where it is enabled. -/
def Stage.Settled (done : (e : Extension α) → e.State → Prop) (x : Stage α) : Prop :=
  x.after = [] ∧ (x.enable = true → done x.e x.finish)

section

variable {F : StreamFunctions α} {done : (e : Extension α) → e.State → Prop} {stages : List (Stage α)}

theorem Stage.stream_mono {x : Stage α} (computes : x.enable = true →
    Computes x (F x.e x.start x.csr) (done x.e)) {words more : List α} (front : words <+: more) :
    x.stream F words <+: x.stream F more := by
  have wider := (List.prefix_append_right_inj x.before).mpr front
  unfold stream
  split
  · next on => exact (computes on).mono wider
  · exact wider

theorem composition_mono (computes : ∀ x ∈ stages, x.enable = true →
    Computes x (F x.e x.start x.csr) (done x.e)) {words more : List α} (front : words <+: more) :
    composition F stages words <+: composition F stages more := by
  induction stages generalizing words more with
  | nil => exact front
  | cons x stages ih =>
    exact ih (fun y member => computes y (List.mem_cons_of_mem _ member))
      (Stage.stream_mono (computes x List.mem_cons_self) front)

/-- What an extension delivers is a front of its stream function. -/
theorem Stage.Works.front {x : Stage α} {words accepted delivered : List α}
    (works : x.Works accepted delivered)
    (computes : x.enable = true → Computes x (F x.e x.start x.csr) (done x.e))
    (cut : x.before ++ words = accepted ++ x.after) :
    delivered <+: x.stream F words ∧ (x.Settled done → delivered = x.stream F words) := by
  obtain ⟨inputs,task,quiet,finish,words⟩ := works
  unfold stream
  split at words
  · next on =>
    obtain ⟨rfl,rfl⟩ := words
    have computes := computes on
    rw [if_pos on]
    refine ⟨(computes.front inputs task quiet).trans (computes.mono (cut ▸ List.prefix_append _ _)),?_⟩
    rintro ⟨empty,ends⟩
    rw [empty,List.append_nil] at cut
    rw [cut,computes.all inputs task quiet (finish ▸ ends on)]
  · next off =>
    subst words
    rw [if_neg off,cut]
    refine ⟨List.prefix_append _ _,?_⟩
    rintro ⟨empty,_⟩
    rw [empty,List.append_nil]

theorem Composed.front {words result : List α} (composed : Composed stages words result)
    (computes : ∀ x ∈ stages, x.enable = true → Computes x (F x.e x.start x.csr) (done x.e)) :
    result <+: composition F stages words ∧
      ((∀ x ∈ stages, x.Settled done) → result = composition F stages words) := by
  induction stages generalizing words with
  | nil => exact ⟨composed ▸ List.prefix_rfl,fun _ => composed⟩
  | cons x stages ih =>
    obtain ⟨accepted,delivered,works,cut,rest⟩ := composed
    have later := fun y member => computes y (List.mem_cons_of_mem x member)
    obtain ⟨front,all⟩ := works.front (computes x List.mem_cons_self) cut
    obtain ⟨fronts,alls⟩ := ih rest later
    refine ⟨fronts.trans (composition_mono later front),fun settled => ?_⟩
    rw [alls fun y member => settled y (List.mem_cons_of_mem _ member),
      all (settled x List.mem_cons_self)]
    rfl

end

/-! ### The host -/

/-- The stages are the extensions in list order, with the bits of the enable mask from the
lowest on and consecutive slices of the user CSRs. -/
structure Assigned (es : List (Extension α)) (cfg : HostCfg) (stages : List (Stage α)) : Prop where
  extensions : stages.map Stage.e = es
  enables : stages.map Stage.enable = (List.range es.length).map fun k => cfg.enable.getD k false
  slices : (stages.map Stage.csr).flatten = cfg.userCsr.take (HostCfg.userCsrNum es)
  sizes : HostCfg.userCsrNum es ≤ cfg.userCsr.length →
    stages.map (fun x => x.csr.length) = es.map Extension.userCsrNum

theorem Assigned.cons {e : Extension α} {es : List (Extension α)} {cfg : HostCfg} {x : Stage α}
    {stages : List (Stage α)} (rest : Assigned es (cfg.behind e) stages) (first : x.e = e)
    (enable : x.enable = cfg.enable.headD false) (csr : x.csr = cfg.userCsr.take e.userCsrNum) :
    Assigned (e :: es) cfg (x :: stages) := by
  have total : HostCfg.userCsrNum (e :: es) = e.userCsrNum + HostCfg.userCsrNum es := rfl
  refine ⟨by rw [List.map_cons,first,rest.extensions],?_,?_,fun room => ?_⟩
  · rw [List.map_cons,enable,rest.enables,List.length_cons,List.range_succ_eq_map,List.map_cons,
      List.map_map]
    cases h : cfg.enable <;> simp [HostCfg.behind,h]
  · rw [List.map_cons,List.flatten_cons,rest.slices,csr,total,List.take_add]
    rfl
  · rw [List.map_cons,List.map_cons,csr,rest.sizes (by simp [HostCfg.behind]; omega),List.length_take,
      Nat.min_eq_left (by omega)]

theorem Behind.assigned {halfCut : Bool} (es : List (Extension α)) (cfg : HostCfg)
    (b b' : Behind halfCut es) : Assigned es cfg (Behind.stages es cfg b b') := by
  induction es generalizing cfg with
  | nil => exact ⟨rfl,rfl,by simp [Behind.stages,HostCfg.userCsrNum],fun _ => rfl⟩
  | cons e es ih => exact (ih (cfg.behind e) b.2.2 b'.2.2).cons rfl rfl rfl

theorem ExtChain.assigned {halfCut : Bool} (quiet : Prop) (es : List (Extension α)) (cfg : HostCfg)
    (c c' : ExtChain halfCut es) : Assigned es cfg (ExtChain.stages quiet es cfg c c') := by
  cases es with
  | nil => exact ⟨rfl,rfl,by simp [ExtChain.stages,HostCfg.userCsrNum],fun _ => rfl⟩
  | cons e es => exact (Behind.assigned es (cfg.behind e) c.2 c'.2).cons rfl rfl rfl

/-- Nothing is offered to the host in the cycle of the start pulse. -/
def HostQuiet (inputs : List (HostInput α)) : Prop :=
  ∀ i, inputs.head? = some i → i.data.valid = false

/-- Over a task the words pass the extensions in list order, and for any stream functions that
the enabled ones compute the words that leave are a front of their composition, all of it once
the cuts are empty and the extensions done. -/
theorem host_composition (p : HostParam α) {s : HostState p} {cfg : HostCfg}
    {inputs : List (HostInput α)} (task : HostTask cfg inputs) :
    let history := (extensionHost p).outs s inputs
    let stages := ExtChain.stages (HostQuiet inputs) p.extensionList cfg s.chain
      ((extensionHost p).exec s inputs).chain
    Assigned p.extensionList cfg stages ∧
      Composed stages (acceptedWords history) (deliveredWords history) ∧
      ∀ (F : StreamFunctions α) (done : (e : Extension α) → e.State → Prop),
        (∀ x ∈ stages, x.enable = true → Computes x (F x.e x.start x.csr) (done x.e)) →
        deliveredWords history <+: composition F stages (acceptedWords history) ∧
          ((∀ x ∈ stages, x.Settled done) →
            deliveredWords history = composition F stages (acceptedWords history)) := by
  obtain ⟨outs,finish⟩ := extensionHost_run p inputs s
  have composed := ExtChain.composed p.extensionList task (fun still : HostQuiet inputs => still) s.chain
  rw [← outs,← finish] at composed
  exact ⟨ExtChain.assigned _ _ _ _ _,composed,fun F done computes => composed.front computes⟩

/-! ### An extension in the host -/

/-- `ElementwiseAdd` between its ports. -/
abbrev elementwiseAddExtension (lanes w : Nat) : Extension (Lanes lanes w) where
  userCsrNum := 1
  State := ElementwiseAdd.State lanes w
  ready _ i := i.ready
  output s i :=
    ⟨s.value == (i.csr.headD 0 - 1).setWidth 8 && (i.valid && i.ready),ElementwiseAdd.sum s i.bits⟩
  busy s _ := s.value != 0
  next s i := ElementwiseAdd.next s ⟨i.csr.headD 0,i.start,i.offered,i.ready⟩

namespace ElementwiseAdd

variable {lanes w : Nat}

def ofBus (i : BusInput (List (BitVec 32)) (Lanes lanes w)) : ExtInput (BitVec 32) (Lanes lanes w) :=
  ⟨i.csr.headD 0,i.start,i.offered,i.ready⟩

/-- Between its ports the extension moves the words of the machine above. -/
theorem extension_words (inputs : List (BusInput (List (BitVec 32)) (Lanes lanes w)))
    (s : State lanes w) :
    acceptedWords ((elementwiseAddExtension lanes w).core.outs s inputs) =
        acceptedWords ((elementwiseAdd lanes w).outs s (inputs.map ofBus)) ∧
      deliveredWords ((elementwiseAddExtension lanes w).core.outs s inputs) =
        deliveredWords ((elementwiseAdd lanes w).outs s (inputs.map ofBus)) := by
  induction inputs generalizing s with
  | nil => exact ⟨rfl,rfl⟩
  | cons i rest ih =>
    obtain ⟨taken,given⟩ := ih (ElementwiseAdd.next s (ofBus i))
    have same : ((elementwiseAddExtension lanes w).core.out s i).delivered =
        ((elementwiseAdd lanes w).out s (ofBus i)).delivered := by
      change (if i.ready then DataBus.offered ⟨_,_⟩ else none) = delivered s (ofBus i)
      unfold DataBus.offered delivered accepted ofBus BusInput.offered
      cases i.ready <;> cases i.valid <;> simp
    rw [List.map_cons,Machine.outs_cons,Machine.outs_cons,acceptedWords_cons,deliveredWords_cons,
      acceptedWords_cons,deliveredWords_cons,same]
    exact ⟨congrArg _ taken,congrArg _ given⟩

/-- The sums of the groups, whatever cycles the words come in. -/
theorem extension_sums {csr : List (BitVec 32)} (proper : ProperSize (csr.headD 0))
    {s : State lanes w} (clear : s.regs = fun _ => 0)
    {inputs : List (BusInput (List (BitVec 32)) (Lanes lanes w))} (task : ExtTask csr inputs)
    (quiet : Quiet inputs) :
    deliveredWords ((elementwiseAddExtension lanes w).core.outs s inputs) =
      (Grouping.of (csr.headD 0).toNat
        (acceptedWords ((elementwiseAddExtension lanes w).core.outs s inputs))).whole.map laneSum := by
  obtain ⟨taken,given⟩ := extension_words inputs s
  rw [taken,given]
  obtain ⟨n,starts⟩ := task.start
  cases inputs with
  | nil => simp at starts
  | cons first rest =>
    obtain ⟨pulse,later⟩ := List.cons.inj starts
    have silent : (ofBus first).data = none := by
      change BusInput.offered first = none
      simp [BusInput.offered,quiet first rfl]
    have took : accepted s (ofBus first) = none := by rw [accepted,silent,ite_self]
    have gave : delivered s (ofBus first) = none := by rw [delivered,took,Option.map_none,ite_self]
    have stable : ∀ i ∈ rest.map ofBus, i.csr = csr.headD 0 ∧ i.start = false := by
      intro i member
      obtain ⟨j,inside,rfl⟩ := List.mem_map.mp member
      refine ⟨congrArg (·.headD 0) (task.csr j (List.mem_cons_of_mem _ inside)),?_⟩
      have off : j.start ∈ rest.map BusInput.start := List.mem_map_of_mem inside
      rw [later] at off
      exact (List.mem_replicate.mp off).2
    have fresh : (ElementwiseAdd.next s (ofBus first)).value = 0 := by
      change BasicCounter.next true first.start _ _ _ = 0
      rw [pulse,BasicCounter.next_reset]
    have regs : (ElementwiseAdd.next s (ofBus first)).regs = fun _ => 0 := by
      change nextRegs s _ (accepted s (ofBus first)) = _
      rw [took]
      exact clear
    obtain ⟨_,words⟩ := stream_run proper fresh regs stable
    rw [List.map_cons,Machine.outs_cons,acceptedWords_cons,deliveredWords_cons]
    change (delivered s (ofBus first)).toList ++ _ = _
    rw [gave,Option.toList_none,List.nil_append]
    change _ = List.map laneSum (Grouping.of _ ((accepted s (ofBus first)).toList ++ _)).whole
    rw [took]
    exact words

/-- The stream function of the extension, for its group size and clear registers. -/
theorem computes {csr : List (BitVec 32)} (proper : ProperSize (csr.headD 0)) {s finish : State lanes w}
    (clear : s.regs = fun _ => 0) (enable : Bool) (before after : List (Lanes lanes w)) {quiet : Prop}
    (still : quiet) :
    Computes ⟨elementwiseAddExtension lanes w,enable,csr,s,finish,before,after,quiet⟩
      (fun words => (Grouping.of (csr.headD 0).toNat words).whole.map laneSum) fun _ => True where
  mono front := (Grouping.whole_mono front).map laneSum
  front _ task quiet := (extension_sums proper clear task (quiet still)) ▸ List.prefix_rfl
  all _ task quiet _ := extension_sums proper clear task (quiet still)

end ElementwiseAdd

/-- Two adders, the second one bypassed. -/
def twoAdders : HostParam (Lanes 1 8) :=
  ⟨[elementwiseAddExtension 1 8,elementwiseAddExtension 1 8],true,false,true⟩

def twoAddersCfg : HostCfg := (HostCfg.connectCfgWithList twoAdders.extensionList [1,2,3,4]).1

/-- A start pulse, then words in every cycle under a receiver that stalls once. -/
def twoAddersInputs : List (HostInput (Lanes 1 8)) :=
  ⟨twoAddersCfg,true,⟨false,fun _ => 0⟩,true⟩ ::
    [true,true,false,true].map fun ready => ⟨twoAddersCfg,false,⟨true,fun _ => 5⟩,ready⟩

def twoAddersState : HostState twoAdders :=
  ⟨some (Cut.reset (fun _ => 0) _),none,
    (ElementwiseAdd.initial 1 8,Cut.reset (fun _ => 0) _,ElementwiseAdd.initial 1 8,PUnit.unit)⟩

def groupSums : StreamFunctions (Lanes 1 8) := fun _ _ csr words =>
  (Grouping.of (csr.headD 0).toNat words).whole.map laneSum

theorem twoAdders_quiet : HostQuiet twoAddersInputs := by
  intro i first
  obtain rfl := Option.some.inj first
  rfl

theorem host_composition_twoAdders :
    let history := (extensionHost twoAdders).outs twoAddersState twoAddersInputs
    let stages := ExtChain.stages (HostQuiet twoAddersInputs) twoAdders.extensionList twoAddersCfg
      twoAddersState.chain ((extensionHost twoAdders).exec twoAddersState twoAddersInputs).chain
    deliveredWords history <+: composition groupSums stages (acceptedWords history) := by
  have task : HostTask twoAddersCfg twoAddersInputs := ⟨by simp [twoAddersInputs],⟨4,rfl⟩⟩
  refine ((host_composition twoAdders task).2.2 groupSums (fun _ _ => True) fun x member on => ?_).1
  rcases List.mem_cons.mp member with rfl | later
  · have proper : ProperSize ((twoAddersCfg.userCsr.take 1).headD 0) := by decide
    exact ElementwiseAdd.computes proper rfl true [] [] twoAdders_quiet
  · obtain rfl := List.mem_singleton.mp later
    exact absurd on (by decide)

end Snax
