import Snax.CycStreamer
import Snax.DmaEngine

/-! `sim/src/cyc_engine.hpp` and `cyc_engine.cpp`: the accelerator engine of the simulator, its
members and `configure`. The streamer objects are kept in maps by name; `long` is an integer,
since its overflow is undefined. -/
namespace Snax

/-- A decoded port descriptor: the address generator with what `decode_ports` adds to it. -/
structure Port extends Agu where
  nS : Nat
  enabled : Bool

structure SimbacoreCfg where
  mode : BitVec 32
  seqLen : BitVec 32
  dModel : BitVec 32
  dtRank : BitVec 32
  dInner : BitVec 32
  dFinal : BitVec 32
  deriving DecidableEq

/-- `data_reader_params.fifo_depth` and `data_writer_params.fifo_depth` of the cluster. -/
def hjsonDepths : List Int := [8,3,8,1,6,3,2,4,1,6,7,2,6,4,4,8,3,4]

/-- `snax_streamer_depth`; the override is the 18 numbers of `MEMSIM_STREAMER_DEPTHS`, if set. -/
def snaxStreamerDepth (override : Option (List Int)) (port : Nat) : Int :=
  match override with
  | some v => if v.length = 18 then (v.map fun x => if 0 < x then x else 1).getD port 4
      else hjsonDepths.getD port 4
  | none => hjsonDepths.getD port 4

namespace AccelEngine

inductive ReaderId where
  | r0 | r1 | r3c | r4c | r13 | r10 | r2sw | r3sw | r5sw | r11 | r12
  | rd (port : Nat)
  deriving DecidableEq

inductive WriterId where
  | w0 | w1 | w2 | w3
  | wr (port : Nat)
  deriving DecidableEq

/-- What posts to the fabric; the dt_BC reader R7 is stepped by hand. -/
inductive UnitId where
  | reader (id : ReaderId)
  | writer (id : WriterId)
  | dtBC
  deriving DecidableEq

/-- What `configure` decides for an invocation. -/
structure Shape where
  ports : Nat → Port
  seqLen : Int
  dInner : Int
  dModel : Int
  dFinal : Int
  enOs : Bool
  enSuc : Bool
  enIsc : Bool
  swMode : Nat
  r10Cnt : Int
  r11Cnt : Int
  mI : Int
  osN : Int
  kOs : Int
  kIs : Int
  nTilesOs : Int
  nTilesIs : Int
  iters : Int
  wbptOs : Int
  wbptIs : Int
  wz : Int
  wy : Int
  swCyc : Int
  swEn : Bool
  kind : Nat
  hasConv : Bool
  w0p1En : Bool
  w1En : Bool
  r13En : Bool
  p1swEn : Bool
  r11p1En : Bool
  sucStateLd : Bool
  sucStateSv : Bool
  r13Tot : Int
  w3stTot : Int
  r7FifoD : Int
  r7DataD : Int
  serDesA : Int
  isSimd : Bool
  simdREn : Nat → Bool
  simdRBeats : Nat → Int
  simdWEn : Nat → Bool
  cap : Nat
  recFires : Bool
  recFifo : Bool

/-- The osCore array, and the elements that P1 streams on from it. -/
structure OsCore where
  asOs : Int
  tilesOs : Int
  osOwed : Int
  zwr : Int → Bool
  oscElem : Int
  swElem : Int

/-- The SUC with its dt_BC reader. -/
structure SuCore where
  issued : Nat → Int
  landed : Nat → Int
  pend : Nat → Int
  agu7 : Int
  consumed7 : Int
  k7 : Int
  haveBc : Bool
  outSu : Int
  yInWord : Int
  ywr : Int → Bool
  r13Pop : Int
  w3Push : Int

structure SwitchCore where
  swDt : Int
  swAcc : Int
  swFirst : Nat
  swLast : Nat

structure IsCore where
  asIs : Int
  tilesIs : Int
  isOwed : Int
  iscAload : Int
  iscSinceA : Int

structure Control where
  running : Bool
  sucStarted : Bool
  iscStarted : Bool
  cyc : Nat
  gR10 : Int
  gR11 : Int
  gIscore : Int
  relR10 : Bool
  relR11 : Bool

/-- `EngineResult`; a row of `fifo` holds the occupancy of the 18 ports. -/
structure Result where
  busy : Nat
  oscEnd : Nat
  sucStart : Nat
  sucEnd : Nat
  iscStart : Nat
  iscEnd : Nat
  swStart : Nat
  swEnd : Nat
  staleZ : Nat
  staleY : Nat
  r10Fire : List (BitVec 32)
  r11Fire : List (BitVec 32)
  fifo : List (Vector (BitVec 16) 18)
  deriving DecidableEq

def Result.empty : Result := ⟨0,0,0,0,0,0,0,0,0,0,[],[],[]⟩

end AccelEngine

structure AccelEngine where
  shape : AccelEngine.Shape
  readers : AccelEngine.ReaderId → CycReader
  writers : AccelEngine.WriterId → CycWriter
  os : AccelEngine.OsCore
  su : AccelEngine.SuCore
  sw : AccelEngine.SwitchCore
  isc : AccelEngine.IsCore
  simdRPops : Nat → Int
  ctl : AccelEngine.Control
  dma : DmaEngine
  fabric : Fabric
  res : AccelEngine.Result

namespace AccelEngine

def Shape.fresh : Shape where
  ports _ := ⟨⟨0,#v[0,0],#v[0,0,0,0],#v[0,0,0,0],0⟩,0,false⟩
  seqLen := 0
  dInner := 0
  dModel := 0
  dFinal := 0
  enOs := false
  enSuc := false
  enIsc := false
  swMode := 0
  r10Cnt := 0
  r11Cnt := 0
  mI := 0
  osN := 0
  kOs := 0
  kIs := 0
  nTilesOs := 0
  nTilesIs := 0
  iters := 0
  wbptOs := 1
  wbptIs := 1
  wz := 0
  wy := 0
  swCyc := 0
  swEn := false
  kind := 0
  hasConv := false
  w0p1En := false
  w1En := false
  r13En := false
  p1swEn := false
  r11p1En := false
  sucStateLd := false
  sucStateSv := false
  r13Tot := 0
  w3stTot := 0
  r7FifoD := 4
  r7DataD := 8
  serDesA := 0
  isSimd := false
  simdREn _ := false
  simdRBeats _ := 0
  simdWEn _ := false
  cap := 0
  recFires := false
  recFifo := false

/-- A default-constructed engine. -/
def fresh : AccelEngine where
  shape := Shape.fresh
  readers _ := CycReader.fresh
  writers _ := CycWriter.fresh
  os := ⟨0,0,0,fun _ => false,0,0⟩
  su := ⟨fun _ => 0,fun _ => 0,fun _ => 0,0,0,0,false,0,0,fun _ => false,0,0⟩
  sw := ⟨0,0,0,0⟩
  isc := ⟨0,0,0,0,0⟩
  simdRPops _ := 0
  ctl := ⟨false,false,false,0,0,0,0,false,false⟩
  dma := DmaEngine.fresh
  fabric := Fabric.reset
  res := Result.empty

/-! ### The streamer objects -/

def setReader (e : AccelEngine) (id : ReaderId) (r : CycReader) : AccelEngine :=
  { e with readers := fun other => if other = id then r else e.readers other }

def setWriter (e : AccelEngine) (id : WriterId) (w : CycWriter) : AccelEngine :=
  { e with writers := fun other => if other = id then w else e.writers other }

/-- `configure` of a reader on a port, with the depth of another one or the same. -/
def configureReader (depth : Nat → Int) (e : AccelEngine) (id : ReaderId) (port nch tok : Nat) :
    AccelEngine :=
  e.setReader id ((e.readers id).reconfigure (e.shape.ports port).toAgu nch 1 (depth port) tok)

def configureWriter (depth : Nat → Int) (e : AccelEngine) (id : WriterId) (port nch nsp tok : Nat) :
    AccelEngine :=
  e.setWriter id (CycWriter.reconfigure (e.shape.ports port).toAgu nch nsp tok (depth port))

/-! ### Configuration -/

structure Args where
  ports : Nat → Port
  cfg : SimbacoreCfg
  r10StartCnt : Int
  r11StartCnt : Int
  swCyc : Int
  /-- The members that the callers set after `configure`. -/
  recFires : Bool
  recFifo : Bool

/-- `(uint64_t)work * 8 + 500000`. -/
def capOf (work : Int) : Nat := (BitVec.ofInt 64 (work * 8 + 500000)).toNat

def beatsPerTile (beats tiles : Int) : Int := beats.tdiv (max 1 tiles)

/-- `cyc_`, the gauges, the result, the DMA queue and the fabric start anew. -/
def restart (e : AccelEngine) (running : Bool) : AccelEngine :=
  { e with
    ctl := { e.ctl with running := running, cyc := 0, gR10 := 0, gR11 := 0, gIscore := 0 }
    dma := e.dma.clear
    fabric := Fabric.reset
    res := Result.empty }

def unlatch (e : AccelEngine) : AccelEngine :=
  { e with ctl := { e.ctl with relR10 := false, relR11 := false } }

def unstart (e : AccelEngine) : AccelEngine :=
  { e with ctl := { e.ctl with sucStarted := false, iscStarted := false } }

/-- What `configure` takes from its arguments before it looks at the mode. -/
def decode (e : AccelEngine) (a : Args) : AccelEngine :=
  let seqLen := a.cfg.seqLen.toInt
  let dInner := a.cfg.dInner.toInt
  { e with
    shape := { e.shape with
      ports := a.ports
      seqLen := seqLen
      dInner := dInner
      dModel := a.cfg.dModel.toInt
      dFinal := a.cfg.dFinal.toInt
      enOs := a.cfg.mode.getLsbD 21
      enSuc := a.cfg.mode.getLsbD 20
      enIsc := a.cfg.mode.getLsbD 19
      swMode := (a.cfg.mode >>> 10 &&& 3).toNat
      r10Cnt := a.r10StartCnt
      r11Cnt := a.r11StartCnt
      mI := seqLen.tdiv 16
      osN := if 24 ≤ dInner then dInner.tdiv 24 else 0
      kind := 0
      isSimd := false
      recFires := a.recFires
      recFifo := a.recFifo }
    ctl := { e.ctl with running := false } }

/-- The sizes of the GEMM stages. -/
def sized (e : AccelEngine) (kind : Nat) : AccelEngine :=
  { e with
    shape := { e.shape with
      kind := kind
      kOs := e.shape.dModel
      kIs := e.shape.osN
      iters := e.shape.seqLen * e.shape.dInner
      nTilesOs := e.shape.mI * e.shape.osN
      nTilesIs := e.shape.mI * e.shape.dFinal } }

def noTilesDone (e : AccelEngine) : AccelEngine :=
  { e with
    os := { e.os with asOs := 0, tilesOs := 0, osOwed := 0 }
    isc := { e.isc with asIs := 0, tilesIs := 0, isOwed := 0 } }

/-- The work bound of `cap_` where both arrays run. -/
def pipelineWork (s : Shape) : Int := s.nTilesOs * s.kOs + s.iters + s.nTilesIs * s.kIs

def configureP1 (depth : Nat → Int) (e : AccelEngine) : AccelEngine :=
  let e := e.sized 2
  let e := { e with shape := { e.shape with hasConv := e.shape.swMode == 1 } }
  if e.shape.dFinal ≤ 0 then { e with ctl := { e.ctl with running := false } }
  else
    let e := configureReader depth e .r0 0 2 0
    let e := configureReader depth e .r1 1 4 1
    let e := { e with shape := { e.shape with
      w0p1En := (e.shape.ports 14).enabled
      w1En := (e.shape.ports 15).enabled } }
    let e := if e.shape.w0p1En then configureWriter depth e .w0 14 1 1 2 else e
    let e := if e.shape.w1En then configureWriter depth e .w1 15 1 1 2 else e
    let beats := if e.shape.w0p1En then (e.writers .w0).totalBeats
      else if e.shape.w1En then (e.writers .w1).totalBeats else 0
    let e := { e with shape := { e.shape with
      wbptOs := if e.shape.w0p1En || e.shape.w1En then beatsPerTile beats e.shape.nTilesOs else 0
      p1swEn := e.shape.hasConv && (e.shape.ports 3).enabled } }
    let e := if e.shape.p1swEn then
        configureReader depth (configureReader depth e .r3c 3 1 10) .r4c 4 1 11
      else e
    let e := configureReader depth e .r12 12 4 7
    let e := { e with shape := { e.shape with r11p1En := (e.shape.ports 11).enabled } }
    let e := if e.shape.r11p1En then configureReader depth e .r11 11 1 6 else e
    let e := { e with shape := { e.shape with r13En := (e.shape.ports 13).enabled } }
    let e := if e.shape.r13En then configureReader depth e .r13 13 4 12 else e
    let e := configureWriter depth e .w3 17 4 1 8
    let e := { e with shape := { e.shape with
      wbptIs := max 1 (beatsPerTile (e.writers .w3).totalBeats e.shape.nTilesIs)
      cap := capOf (pipelineWork e.shape) } }
    let e := { e.noTilesDone with os := { e.noTilesDone.os with oscElem := 0, swElem := 0 } }
    (e.restart true).unlatch

def configureOs (depth : Nat → Int) (e : AccelEngine) : AccelEngine :=
  let e := { e with shape := { e.shape with
    kind := 3
    kOs := e.shape.dModel
    nTilesOs := e.shape.mI * e.shape.osN } }
  let e := configureReader depth e .r0 0 2 0
  let e := configureReader depth e .r1 1 4 1
  let e := configureWriter depth e .w0 14 1 1 2
  let beats := (e.writers .w0).totalBeats
  let e := { e with
    shape := { e.shape with
      wz := beats
      wbptOs := max 1 (beatsPerTile beats e.shape.nTilesOs)
      cap := capOf (e.shape.nTilesOs * e.shape.kOs) }
    os := { e.os with asOs := 0, tilesOs := 0, osOwed := 0 } }
  (e.restart true).unlatch.unstart

def configureIs (depth : Nat → Int) (e : AccelEngine) : AccelEngine :=
  let e := { e with shape := { e.shape with
    kind := 4
    kIs := e.shape.osN
    nTilesIs := e.shape.mI * e.shape.dFinal } }
  let e := configureWriter depth e .w3 17 4 1 8
  let e := { e with
    shape := { e.shape with
      wbptIs := max 1 (beatsPerTile (e.writers .w3).totalBeats e.shape.nTilesIs)
      cap := capOf (e.shape.nTilesIs * max 1 e.shape.kIs) }
    isc := { e.isc with asIs := 0, tilesIs := 0, isOwed := 0 } }
  (e.restart (0 < e.shape.nTilesIs && 0 < e.shape.kIs)).unlatch.unstart

/-- `PORT_NCH_SIMD`. -/
def portNchSimd : List Nat := [2,4,1,1,1,1,1,4,1,1,1,1,4,4,1,1,1,4]

/-- The product of the bounds, a reused dimension included. -/
def simdBeats (p : Port) : Int := p.toAgu.effectiveBounds.foldl (· * ·) 1

def configureSimdReader (depth : Nat → Int) (e : AccelEngine) (p : Nat) : AccelEngine :=
  let on := (e.shape.ports p).enabled
  let e := { e with
    shape := { e.shape with
      simdREn := fun q => if q = p then on else e.shape.simdREn q
      simdRBeats := fun q => if q = p then (if on then simdBeats (e.shape.ports p) else 0)
        else e.shape.simdRBeats q }
    simdRPops := fun q => if q = p then 0 else e.simdRPops q }
  if on then configureReader depth e (.rd p) p (portNchSimd.getD p 1) p else e

def configureSimdWriter (depth : Nat → Int) (e : AccelEngine) (p : Nat) : AccelEngine :=
  let on := (e.shape.ports p).enabled
  let e := { e with shape := { e.shape with
    simdWEn := fun q => if q = p - 14 then on else e.shape.simdWEn q } }
  if on then configureWriter depth e (.wr (p - 14)) p (portNchSimd.getD p 1) 1 p else e

/-- `maxbeats`: the longest of the enabled ports. -/
def simdMaxBeats (e : AccelEngine) : Int :=
  ((List.range 18).filter fun p => (e.shape.ports p).enabled).foldl (fun longest p =>
    max longest (if p < 14 then simdBeats (e.shape.ports p) else (e.writers (.wr (p - 14))).totalBeats)) 0

def configureSimd (depth : Nat → Int) (e : AccelEngine) : AccelEngine :=
  let e := { e with shape := { e.shape with kind := 5, isSimd := true } }
  let e := (List.range 14).foldl (configureSimdReader depth) e
  let e := (List.range' 14 4).foldl (configureSimdWriter depth) e
  let e := { e with shape := { e.shape with cap := capOf e.simdMaxBeats } }
  e.restart ((List.range 18).any fun p => (e.shape.ports p).enabled)

def configureP2 (depth : Nat → Int) (e : AccelEngine) (a : Args) : AccelEngine :=
  let e := e.sized 1
  let e := configureReader depth e .r0 0 2 0
  let e := configureReader depth e .r1 1 4 1
  let e := configureWriter depth e .w0 14 1 1 2
  let e := { e with
    shape := { e.shape with
      wbptOs := max 1 (beatsPerTile (e.writers .w0).totalBeats e.shape.nTilesOs)
      wz := (e.writers .w0).totalBeats
      r7FifoD := depth 7
      r7DataD := depth 7 }
    os := { e.os with zwr := fun _ => !e.shape.enOs } }
  let e := configureReader depth e .r10 10 1 4
  let e := configureWriter depth e .w2 16 1 1 5
  let e := { e with
    shape := { e.shape with
      wy := (e.writers .w2).totalBeats
      swCyc := a.swCyc
      swEn := 0 < a.swCyc && (e.shape.ports 2).enabled }
    su := ⟨fun _ => 0,fun _ => 0,fun _ => 0,0,0,0,false,0,0,fun _ => false,0,0⟩
    sw := ⟨0,0,0,0⟩ }
  let e := if e.shape.swEn then
      let e := configureReader depth (configureReader depth e .r2sw 2 1 9) .r3sw 3 1 10
      if (e.shape.ports 5).enabled then configureReader depth e .r5sw 5 1 11 else e
    else e
  let e := configureReader depth e .r11 11 1 6
  let e := configureReader depth e .r12 12 4 7
  let e := { e with shape := { e.shape with r13En := (e.shape.ports 13).enabled } }
  let e := if e.shape.r13En then configureReader depth e .r13 13 4 12 else e
  let e := { e with shape := { e.shape with
    sucStateLd := !e.shape.enIsc && a.cfg.mode.getLsbD 1 && e.shape.r13En
    sucStateSv := !e.shape.enIsc && a.cfg.mode.getLsbD 0 && (e.shape.ports 17).enabled } }
  let e := configureWriter depth e .w3 17 4 (if e.shape.sucStateSv then 2 else 1) 8
  let e := { e with shape := { e.shape with
    r13Tot := if e.shape.r13En then (BitVec.ofInt 32 (CycReader.total (e.readers .r13).cfg)).toInt else 0
    w3stTot := (e.writers .w3).totalBeats
    wbptIs := max 1 (beatsPerTile (e.writers .w3).totalBeats e.shape.nTilesIs)
    serDesA := 48
    cap := capOf (pipelineWork e.shape) } }
  let e := { e.noTilesDone with isc := { e.noTilesDone.isc with iscAload := 48, iscSinceA := 0 } }
  (e.restart true).unlatch.unstart

/-- `AccelEngine::configure`. -/
def configure (depth : Nat → Int) (e : AccelEngine) (a : Args) : AccelEngine :=
  let e := e.decode a
  if !e.shape.enOs && !e.shape.enSuc && !e.shape.enIsc then configureSimd depth e
  else if e.shape.mI ≤ 0 || e.shape.osN ≤ 0 then e
  else if !e.shape.enSuc then
    if e.shape.enOs && e.shape.enIsc then configureP1 depth e
    else if e.shape.enOs then configureOs depth e
    else if e.shape.enIsc then configureIs depth e
    else e
  else configureP2 depth e a

end AccelEngine
end Snax
