import Mathlib.Data.Fintype.Basic
import Snax.Queue
import Snax.XdmaCfgIO
import Snax.Sync.Machine

/-! The two configuration routers of `xdma/xdmaFrontend/XDMACtrl.scala` and what they are
built from: the register cuts of `utils/CustomOperators.scala` and the splitter of
`utils/MuxDemuxDecoupled.scala`. They route any type of entry by a rule. -/
namespace Snax

/-- `RegQueue` with one entry, as `-|>` inserts it. The register keeps its bits after they
are dequeued. -/
structure RegCut (α : Type) where
  bits : α
  maybeFull : Bool

namespace RegCut

variable {α : Type}

def enqReady (r : RegCut α) : Bool := !r.maybeFull

def deq (r : RegCut α) : Option α := if r.maybeFull then some r.bits else none

def taken (r : RegCut α) (enq : Option α) : Option α := if r.enqReady then enq else none

def next (r : RegCut α) (enq : Option α) (deqReady : Bool) : RegCut α :=
  match r.taken enq with
  | some x => ⟨x,true⟩
  | none => ⟨r.bits,r.maybeFull && !deqReady⟩

/-- What was inside and what is taken in leaves or stays. -/
theorem next_conserves (r : RegCut α) (enq : Option α) (deqReady : Bool) :
    (if deqReady then r.deq else none).toList ++ (r.next enq deqReady).deq.toList =
      r.deq.toList ++ (r.taken enq).toList := by
  cases full : r.maybeFull <;> cases enq <;> cases deqReady <;>
    simp [next,taken,enqReady,deq,full]

end RegCut

namespace SplitterDecoupled

variable {ι : Type} [Fintype ι]

def outValid (inValid : Bool) (sel dataTransmitted : ι → Bool) (c : ι) : Bool :=
  sel c && inValid && !dataTransmitted c

/-- `nextTransferAllowed.reduceTree(_ & _)`. -/
def inReady (sel dataTransmitted outReady : ι → Bool) : Bool :=
  decide (∀ c, (!sel c || (outReady c || dataTransmitted c)) = true)

def next (inValid : Bool) (sel dataTransmitted outReady : ι → Bool) : ι → Bool :=
  if inValid && inReady sel dataTransmitted outReady then fun _ => false
  else fun c => dataTransmitted c || (outValid inValid sel dataTransmitted c && outReady c)

end SplitterDecoupled

namespace XDMACfgIO

variable {param : XDMACtrlParam} {s : Side}

/-- The address of the cluster that a pointer lies in, as this side cuts it off. -/
def clusterOf (s : Side) (ptr : BitVec param.addrWidth) :
    BitVec (param.addrWidth - (param.side s).tcdmPrefix) :=
  ptr.extractLsb' (param.side s).tcdmPrefix _

/-- The next task of a chained write: the first destination becomes the source. -/
def shifted (cfg : XDMACfgIO param s) : XDMACfgIO param s :=
  { cfg with
    readerPtr := cfg.dest 0
    writerPtr := Vector.ofFn fun i => cfg.dest (i.val + 1) }

end XDMACfgIO

/-! ### The destination side -/
namespace DstConfigRouter

/-- The outputs of the splitter: the copy that is fed back, this cluster and the others. -/
inductive Port
  | chainedWrite
  | toLocal
  | toRemote
  deriving DecidableEq

instance : Fintype Port where
  elems := {.chainedWrite,.toLocal,.toRemote}
  complete := by
    intro c
    cases c <;> decide

/-- The rule check: the ports that an entry goes to, and what is fed back. -/
structure Rule (τ : Type) where
  sel : τ → Port → Bool
  shifted : τ → τ

def rule (param : XDMACtrlParam) (clusterBaseAddress : BitVec param.addrWidth) :
    Rule ( XDMACfgIO param .writer) where
  sel cfg
    | .chainedWrite => cfg.dest 1 != 0 && !cfg.origination
    | .toLocal =>
      XDMACfgIO.clusterOf .writer (cfg.dest 0) == XDMACfgIO.clusterOf .writer clusterBaseAddress
    | .toRemote =>
      !( XDMACfgIO.clusterOf .writer (cfg.dest 0) == XDMACfgIO.clusterOf .writer clusterBaseAddress) &&
        cfg.dest 0 != 0
  shifted := XDMACfgIO.shifted

variable {τ : Type}

structure State (τ : Type) where
  bufferedCfg : Queue τ 2
  dataTransmitted : Port → Bool

structure Input (τ : Type) where
  fromLocal : Option τ
  fromRemote : Option τ
  toLocalReady : Bool
  toRemoteReady : Bool

/-- What enters the router in a cycle, what passes each port, and what leaves the buffer. -/
structure Output (τ : Type) where
  accepted : Option τ
  delivered : Port → Option τ
  popped : Option τ

variable (rule : Rule τ)

def sel (s : State τ) (c : Port) : Bool := s.bufferedCfg.deqBits.elim false (rule.sel · c)

def outValid (s : State τ) (c : Port) : Bool :=
  SplitterDecoupled.outValid s.bufferedCfg.deqValid (sel rule s) s.dataTransmitted c

/-- `io.out(c)` of the splitter. -/
def offered (s : State τ) (c : Port) : Option τ :=
  if outValid rule s c then s.bufferedCfg.deqBits else none

def bufferReady (s : State τ) : Bool := s.bufferedCfg.enqReady false false

/-- The arbiter prefers the fed back copy, then the local input. -/
def arbiterOut (s : State τ) (fromLocal fromRemote : Option τ) : Option τ :=
  ((offered rule s .chainedWrite).map rule.shifted).or (fromLocal.or fromRemote)

def fromLocalReady (s : State τ) : Bool := !outValid rule s .chainedWrite && bufferReady s

def fromRemoteReady (s : State τ) (fromLocal : Option τ) : Bool :=
  !outValid rule s .chainedWrite && fromLocal.isNone && bufferReady s

def outReady (s : State τ) (i : Input τ) : Port → Bool
  | .chainedWrite => bufferReady s
  | .toLocal => i.toLocalReady
  | .toRemote => i.toRemoteReady

def inReady (s : State τ) (i : Input τ) : Bool :=
  SplitterDecoupled.inReady (sel rule s) s.dataTransmitted (outReady s i)

def next (s : State τ) (i : Input τ) : State τ where
  bufferedCfg := s.bufferedCfg.next false (arbiterOut rule s i.fromLocal i.fromRemote) (inReady rule s i)
  dataTransmitted :=
    SplitterDecoupled.next s.bufferedCfg.deqValid (sel rule s) s.dataTransmitted (outReady s i)

/-- An entry passes a port that is ready. -/
def fire (s : State τ) (i : Input τ) (c : Port) : Option τ :=
  if outReady s i c then offered rule s c else none

def accepted (s : State τ) (i : Input τ) : Option τ :=
  if fromLocalReady rule s then i.fromLocal.or i.fromRemote else none

def out (s : State τ) (i : Input τ) : Output τ where
  accepted := accepted rule s i
  delivered := fire rule s i
  popped := if inReady rule s i then s.bufferedCfg.deqBits else none

def initial (τ : Type) : State τ := ⟨Queue.empty Nat.two_pos,fun _ => false⟩

end DstConfigRouter

def dstConfigRouter {τ : Type} (rule : DstConfigRouter.Rule τ) :
    Sync.Machine (DstConfigRouter.State τ) (DstConfigRouter.Input τ) (DstConfigRouter.Output τ) where
  next := DstConfigRouter.next rule
  out := DstConfigRouter.out rule

/-! ### The source side -/
namespace SrcConfigRouter

inductive Route
  | cTypeLocal
  | cTypeRemote
  | cTypeDiscard
  deriving DecidableEq

def rule (param : XDMACtrlParam) (clusterBaseAddress : BitVec param.addrWidth)
    (cfg : XDMACfgIO param .reader) : Route :=
  if XDMACfgIO.clusterOf .reader cfg.readerPtr = XDMACfgIO.clusterOf .reader clusterBaseAddress then
    .cTypeLocal
  else if cfg.readerPtr = 0 then .cTypeDiscard
  else .cTypeRemote

variable {τ : Type} (rule : τ → Route)

structure Input (τ : Type) where
  fromLocal : Option τ
  fromRemote : Option τ
  toLocalReady : Bool
  toRemoteReady : Bool

def fromLocalReady (s : RegCut τ) : Bool := s.enqReady

def fromRemoteReady (s : RegCut τ) (fromLocal : Option τ) : Bool := fromLocal.isNone && s.enqReady

/-- The demultiplexer: an entry is valid at the output it is selected for. -/
def offered (s : RegCut τ) (route : Route) : Option τ := s.deq.filter fun x => rule x = route

theorem offered_full {s : RegCut τ} (full : s.maybeFull = true) (route : Route) :
    offered rule s route = if rule s.bits = route then some s.bits else none := by
  simp [offered,RegCut.deq,full,Option.filter]

theorem offered_empty {s : RegCut τ} (empty : s.maybeFull = false) (route : Route) :
    offered rule s route = none := by
  simp [offered,RegCut.deq,empty]

/-- A discarded entry is always taken. -/
def outReady (s : RegCut τ) (i : Input τ) : Bool :=
  match rule s.bits with
  | .cTypeLocal => i.toLocalReady
  | .cTypeRemote => i.toRemoteReady
  | .cTypeDiscard => true

def next (s : RegCut τ) (i : Input τ) : RegCut τ :=
  s.next (i.fromLocal.or i.fromRemote) (outReady rule s i)

end SrcConfigRouter
end Snax
