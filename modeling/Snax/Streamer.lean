import Snax.CsrLayout
import Snax.ReqRspManager

/-! `streamer/Streamer.scala` as a machine: the CSR manager, the two-state FSM, the start
pulses, the stored configuration and the performance counter, over the address generators
of all data movers. The data paths of the movers enter as the cycles in which they take
an address, the extensions as the cycles in which they are busy. -/
namespace Snax.Streamer

/-- A data mover with its start wire, `none` where it is the global one. -/
structure MoverWiring where
  isReader : Bool
  mover : Mover Nat
  start : Option Nat

def Group.wirings (g : Group) (isReader : Nat → Bool) : List MoverWiring :=
  (g.mover.zip g.start).zipIdx.map fun x => ⟨isReader x.2,x.1.1,x.1.2⟩

/-- Even reader-writer interfaces are readers. -/
def Hardware.movers (hw : Hardware) : List MoverWiring :=
  hw.reader.wirings (fun _ => true) ++ hw.writer.wirings (fun _ => false) ++
    hw.readerWriter.wirings (fun i => i % 2 == 0)

def Hardware.hosts (hw : Hardware) : List (ExtensionHost Nat) :=
  hw.reader.extension ++ hw.writer.extension ++ hw.readerWriter.extension

/-- An elaborated streamer. -/
structure Design where
  param : StreamerParam
  hw : Hardware
  built : elaborate param = some hw

theorem word_positive : 0 < 32 := by decide
theorem word_bytes : 8 ∣ 32 := by decide

@[reducible] def csrManagerParam (param : StreamerParam) : ReqRspParam where
  numReadWriteReg := csrNumReadWrite param
  numReadOnlyReg := 2
  addrWidth := param.csrAddrWidth
  ioDataWidth := 32
  regDataWidth := 32
  registers := Nat.succ_pos _
  regPositive := word_positive
  wholeWords := Nat.dvd_refl _
  wide := Nat.le_refl _
  wholeBytes := word_bytes

/-- The read-write registers, stored or delivered. -/
abbrev Csr (param : StreamerParam) := Fin (csrNumReadWrite param) → BitVec 32

/-- A register by its index; elaboration hands out only indices that exist. -/
def reg {param : StreamerParam} (csr : Csr param) (r : Nat) : BitVec 32 :=
  if inside : r < csrNumReadWrite param then csr ⟨r,inside⟩ else 0

namespace Mover

variable {param : StreamerParam}

/-- The configuration of a mover, sliced from the registers. -/
def agu (m : Mover Nat) (csr : Csr param) : AddressGenUnitCfgIO m.param.aguParam where
  ptr := (reg csr m.aguCfg.ptrHigh ++ reg csr m.aguCfg.ptrLow).setWidth _
  spatialStrides := Vector.ofFn fun d => (reg csr (m.aguCfg.spatialStrides.getD d 0)).setWidth _
  temporalBounds := Vector.ofFn fun d => (reg csr (m.aguCfg.temporalBounds.getD d 0)).setWidth _
  temporalStrides := Vector.ofFn fun d => (reg csr (m.aguCfg.temporalStrides.getD d 0)).setWidth _
  addressRemapIndex := (m.aguCfg.addressRemapIndex.elim 0 (reg csr)).setWidth _

/-- Bit `c` of the concatenated words, the first of which is the most significant. -/
def wordsBit (words : List (BitVec 32)) (c : Nat) : Bool :=
  (words.reverse.getD (c / 32) 0).getLsbD (c % 32)

def masks (m : Mover Nat) (csr : Csr param) : ReaderWriterCfgIO m.param where
  enabledChannel := fun c =>
    m.readerwriterCfg.enabledChannel.elim true fun words => wordsBit (words.map (reg csr)) c
  enabledByte := m.readerwriterCfg.enabledByte.elim (BitVec.allOnes _) fun r => (reg csr r).setWidth _

end Mover

/-- `cfg.enable` and `cfg.userCsr` of a host with extensions. -/
def ExtensionHost.registersOf {param : StreamerParam} (host : ExtensionHost Nat) (csr : Csr param) :
    Option (BitVec 32 × List (BitVec 32)) :=
  host.cfg.map fun cfg => (reg csr cfg.1,cfg.2.map (reg csr))

namespace Run

variable (d : Design)

abbrev MoverIndex := Fin d.hw.movers.length
abbrev HostIndex := Fin d.hw.hosts.length

abbrev wiring (k : MoverIndex d) : MoverWiring := d.hw.movers.get k
abbrev moverParam (k : MoverIndex d) : ReaderWriterParam := (wiring d k).mover.param
abbrev host (e : HostIndex d) : ExtensionHost Nat := d.hw.hosts.get e

structure State where
  csrManager : ReqRspManager.State (csrManagerParam d.param)
  state : Phase
  delayedStreamersHaveStarted : Fin d.param.delayedStartCount → Bool
  csrCfgReg : Csr d.param
  /-- `RegNext(streamer_busy)`, which has no reset value. -/
  streamerBusyBefore : Bool
  performanceCounter : BitVec 32
  addressgen : (k : MoverIndex d) → AddressGenUnit.State (moverParam d k).aguParam

/-- The CSR bus, and the timing of the data paths and of the extensions. -/
structure Input where
  req : Option (ReqRspManager.Request (csrManagerParam d.param))
  rspReady : Bool
  addrReady : (k : MoverIndex d) → Fin (moverParam d k).numChannel → Bool
  extensionBusy : HostIndex d → Bool

structure Output where
  csr : ReqRspManager.Output (csrManagerParam d.param)
  configFire : Bool
  start : MoverIndex d → Bool
  aguCfg : (k : MoverIndex d) → AddressGenUnitCfgIO (moverParam d k).aguParam
  readerwriterCfg : (k : MoverIndex d) → ReaderWriterCfgIO (moverParam d k)
  extensionCfg : HostIndex d → Option (BitVec 32 × List (BitVec 32))

variable {d}

def initial (d : Design) (streamerBusyBefore : Bool) : State d where
  csrManager := ReqRspManager.initial _
  state := .sIDLE
  delayedStreamersHaveStarted := fun _ => false
  csrCfgReg := fun _ => 0
  streamerBusyBefore := streamerBusyBefore
  performanceCounter := 0
  addressgen := fun _ => AddressGenUnit.initial _

def streamerBusy (s : State d) : Bool := s.state == .sBUSY
def streamerReady (s : State d) : Bool := s.state == .sIDLE

def readOnlyReg (s : State d) (r : Fin 2) : BitVec 32 :=
  if r.val = 0 then (if streamerBusy s then 1 else 0) else s.performanceCounter

def csrManagerInput (s : State d) (i : Input d) : ReqRspManager.Input (csrManagerParam d.param) where
  req := i.req
  rspReady := i.rspReady
  readWriteRegReady := streamerReady s
  readOnlyReg := readOnlyReg s

/-- `csrManager.io.readWriteRegIO.fire`. -/
def configFire (s : State d) (i : Input d) : Bool :=
  ReqRspManager.launched s.csrManager (csrManagerInput s i) && streamerReady s

def csrCfg (s : State d) (i : Input d) : Csr d.param :=
  if configFire s i then s.csrManager.regs else s.csrCfgReg

/-- `busy` of a Reader and of a Writer alike. -/
def moverBusy (s : State d) (k : MoverIndex d) : Bool :=
  (s.addressgen k).currentState == .sBUSY ||
    !ComplexQueueConcat.allEmpty (s.addressgen k).outputBuffer

def extensionBusy (i : Input d) (e : HostIndex d) : Bool := (host d e).cfg.isSome && i.extensionBusy e

def streamerFinish (s : State d) (i : Input d) : Bool :=
  !(decide (∃ k, moverBusy s k = true) || decide (∃ e, extensionBusy i e = true))

def delayedStartCsrBaseIndex (param : StreamerParam) : Nat :=
  csrNumReadWrite param - (param.delayedStartCount + 1)

def currentStartCSR (s : State d) (i : Fin d.param.delayedStartCount) : Bool :=
  (reg s.csrManager.regs (delayedStartCsrBaseIndex d.param + i.val)).getLsbD 0

def delayedStartPulses (s : State d) (i : Fin d.param.delayedStartCount) : Bool :=
  currentStartCSR s i && !s.delayedStreamersHaveStarted i && streamerBusy s

def start (s : State d) (i : Input d) (k : MoverIndex d) : Bool :=
  match (wiring d k).start with
  | none => configFire s i
  | some r =>
    if inside : r - delayedStartCsrBaseIndex d.param < d.param.delayedStartCount then
      delayedStartPulses s ⟨r - delayedStartCsrBaseIndex d.param,inside⟩
    else false

def aguCfg (csr : Csr d.param) (k : MoverIndex d) : AddressGenUnitCfgIO (moverParam d k).aguParam :=
  (wiring d k).mover.agu csr

/-- The bounds as the address generator sees them: a Reader overrides the innermost one. -/
def addressgenCfg (csr : Csr d.param) (k : MoverIndex d) :
    AddressGenUnitCfgIO (moverParam d k).aguParam :=
  if (wiring d k).isReader then (aguCfg csr k).readOnce else aguCfg csr k

def addressgenInput (s : State d) (i : Input d) (k : MoverIndex d) :
    AddressGenUnit.Input (moverParam d k).aguParam where
  cfg := addressgenCfg (csrCfg s i) k
  start := start s i k
  addrReady := i.addrReady k

def next (s : State d) (i : Input d) : State d where
  csrManager := ReqRspManager.next s.csrManager (csrManagerInput s i)
  state := match s.state with
    | .sIDLE => if configFire s i then .sBUSY else .sIDLE
    | .sBUSY => if streamerFinish s i then .sIDLE else .sBUSY
  delayedStreamersHaveStarted := fun j =>
    if streamerBusy s && currentStartCSR s j then true
    else if streamerReady s then false
    else s.delayedStreamersHaveStarted j
  csrCfgReg := if configFire s i then s.csrManager.regs else s.csrCfgReg
  streamerBusyBefore := streamerBusy s
  performanceCounter :=
    if streamerBusy s && !s.streamerBusyBefore then 0
    else if streamerBusy s then s.performanceCounter + 1
    else s.performanceCounter
  addressgen := fun k => AddressGenUnit.next (s.addressgen k) (addressgenInput s i k)

def out (s : State d) (i : Input d) : Output d where
  csr := ReqRspManager.out s.csrManager (csrManagerInput s i)
  configFire := configFire s i
  start := start s i
  aguCfg := aguCfg (csrCfg s i)
  readerwriterCfg := fun k => (wiring d k).mover.masks (csrCfg s i)
  extensionCfg := fun e => (host d e).registersOf (csrCfg s i)

end Run

def streamer (d : Design) : Sync.Machine (Run.State d) (Run.Input d) (Run.Output d) where
  next := Run.next
  out := Run.out

end Snax.Streamer
