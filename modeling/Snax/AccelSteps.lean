import Snax.AccelEngine
import Snax.Sync.Machine

/-! `sim/src/cyc_engine.cpp`: one cycle of the engine, for each kind of invocation. All kinds land
the reads of the last cycle, run their cores, and then let the active units post their requests,
have the fabric arbitrate and commit the flags in the order of the posts. -/
namespace Snax.AccelEngine

/-! ### Moves of the streamer objects -/

def pops (e : AccelEngine) (id : ReaderId) : AccelEngine := e.setReader id (e.readers id).pop.1

def pushes (e : AccelEngine) (id : WriterId) : AccelEngine :=
  e.setWriter id ((e.writers id).pushed 1)

def lands (e : AccelEngine) (id : ReaderId) : AccelEngine := e.setReader id (e.readers id).landReads

/-- `r.land_reads(); if (r.done) r.reset();` -/
def landsAnew (e : AccelEngine) (id : ReaderId) : AccelEngine :=
  let e := e.lands id
  if (e.readers id).done then e.setReader id (e.readers id).reset else e

def occ (e : AccelEngine) (id : ReaderId) : Int := (e.readers id).fifoOcc

def hasRoom (e : AccelEngine) (id : WriterId) : Bool :=
  (e.writers id).fifoOcc < (e.writers id).cfg.depth

/-- All beats are written. -/
def drained (e : AccelEngine) (id : WriterId) : Bool :=
  (e.writers id).totalBeats ≤ (e.writers id).written

/-! ### The fabric phase -/

/-- A request on the fabric, with the lane that posts it. -/
structure Request where
  unit : UnitId
  lane : Nat
  post : Post

def readerPosts (e : AccelEngine) (id : ReaderId) : List Request :=
  (e.readers id).proposals.map fun p => ⟨.reader id,p.1,p.2⟩

def writerPosts (e : AccelEngine) (id : WriterId) : List Request :=
  (e.writers id).proposals.map fun p => ⟨.writer id,p.1,p.2⟩

/-- The condition under which lane `l` of the dt_BC reader posts, and reads a flag. -/
def wants7 (e : AccelEngine) (l : Nat) : Bool :=
  e.su.issued l < e.su.agu7 && e.su.issued l - e.su.consumed7 < e.shape.r7DataD

def dtBCPosts (e : AccelEngine) : List Request :=
  ((List.range 4).filter e.wants7).map fun l =>
    ⟨.dtBC,l,⟨Agu.r7bank (e.shape.ports 7).toAgu (e.su.issued l) l,3 <<< 4 ||| l,
      if e.su.landed l - e.su.consumed7 ≤ 1 then 1 else 0⟩⟩

/-- The engine in its commit pass, with the lanes that have read a flag; `gi` is their number. -/
structure Readback where
  engine : AccelEngine
  consulted : List (UnitId × Nat)

def commitReader (g : List Bool) (x : Readback) (id : ReaderId) : Readback :=
  let c := (x.engine.readers id).commit g x.consulted.length
  ⟨x.engine.setReader id c.1,x.consulted ++ c.2.map fun l => (.reader id,l)⟩

def commitWriter (g : List Bool) (x : Readback) (id : WriterId) : Readback :=
  let c := (x.engine.writers id).commitFlags g x.consulted.length
  ⟨x.engine.setWriter id c.1,x.consulted ++ c.2.map fun l => (.writer id,l)⟩

def grant7 (e : AccelEngine) (l : Nat) : AccelEngine :=
  { e with su := { e.su with
    issued := fun m => if m = l then e.su.issued m + 1 else e.su.issued m
    pend := fun m => if m = l then 1 else e.su.pend m } }

def commitLane7 (g : List Bool) (x : Readback) (l : Nat) : Readback :=
  if x.engine.wants7 l then
    ⟨if g.getD x.consulted.length false then x.engine.grant7 l else x.engine,x.consulted ++ [(.dtBC,l)]⟩
  else x

def commitDtBC (g : List Bool) (x : Readback) : Readback := (List.range 4).foldl (commitLane7 g) x

/-- `word_off`: the word of a loop position, from the base of the port. -/
def wordOff (ts ti : List Int) : Int := (Agu.toff ti ts).tdiv 8

/-- W0's commit in P2, which marks the word it has written. -/
def commitZ (g : List Bool) (x : Readback) : Readback :=
  let off := wordOff (x.engine.writers .w0).cfg.ts (x.engine.writers .w0).ti
  let y := commitWriter g x .w0
  if (x.engine.writers .w0).written < (y.engine.writers .w0).written ∧ 0 ≤ off ∧ off < y.engine.shape.wz then
    { y with engine := { y.engine with os := { y.engine.os with
      zwr := fun w => if w = off then true else y.engine.os.zwr w } } }
  else y

/-- W2's commit in P2. -/
def commitY (g : List Bool) (x : Readback) : Readback :=
  let off := wordOff (x.engine.writers .w2).cfg.ts (x.engine.writers .w2).ti
  let y := commitWriter g x .w2
  if (x.engine.writers .w2).written < (y.engine.writers .w2).written ∧ 0 ≤ off ∧ off < y.engine.shape.wy then
    { y with engine := { y.engine with su := { y.engine.su with
      ywr := fun w => if w = off then true else y.engine.su.ywr w } } }
  else y

/-- R10's commit in P2. The word and the grants are those the reader shows before it. -/
def commitReadZ (g : List Bool) (x : Readback) : Readback :=
  let off := wordOff (x.engine.readers .r10).cfg.ts (x.engine.readers .r10).ti
  let y := commitReader g x .r10
  if (x.engine.readers .r10).pendingPush < (y.engine.readers .r10).pendingPush ∧ 0 ≤ off ∧
      off < y.engine.shape.wz ∧ y.engine.os.zwr off = false then
    { y with engine := { y.engine with res := { y.engine.res with staleZ := y.engine.res.staleZ + 1 } } }
  else y

/-- R11's commit in P2. -/
def commitReadY (g : List Bool) (x : Readback) : Readback :=
  let off := wordOff (x.engine.readers .r11).cfg.ts (x.engine.readers .r11).ti
  let y := commitReader g x .r11
  if (x.engine.readers .r11).pendingPush < (y.engine.readers .r11).pendingPush ∧ 0 ≤ off ∧
      off < y.engine.shape.wy ∧ y.engine.su.ywr off = false then
    { y with engine := { y.engine with res := { y.engine.res with staleY := y.engine.res.staleY + 1 } } }
  else y

/-- What a cycle shows: the requests of its proposals and the lanes its commits have consulted. -/
structure Trace where
  requests : List Request
  consulted : List (UnitId × Nat)

def quiet : Trace := ⟨[],[]⟩

/-- The DMA takes its banks, the requests are posted and arbitrated, the flags are committed. -/
def fabricPhase (e : AccelEngine) (requests : List Request)
    (commits : List Bool → Readback → Readback) : AccelEngine × Trace :=
  let d := e.dma.step e.ctl.cyc
  let f := (e.fabric.loaded ⟨d.2,requests.map Request.post⟩).arbitrate
  let x := commits f.1 ⟨{ e with dma := d.1, fabric := f.2 },[]⟩
  (x.engine,⟨requests,x.consulted⟩)

/-! ### The FIFO trace -/

def readerSample (e : AccelEngine) (port : Nat) (id : ReaderId) : Nat × Int := (port,e.occ id)

def writerSample (e : AccelEngine) (port : Nat) (id : WriterId) : Nat × Int :=
  (port,(e.writers id).fifoOcc)

/-- The groups that all lanes of the dt_BC reader have landed. -/
def landed7 (e : AccelEngine) : Int :=
  min (min (min (e.su.landed 0) (e.su.landed 1)) (e.su.landed 2)) (e.su.landed 3)

/-- The ports that `sample_fifo` sets. -/
def samples (e : AccelEngine) : List (Nat × Int) :=
  if e.shape.kind = 1 then
    (if e.shape.enOs then [e.readerSample 0 .r0,e.readerSample 1 .r1,e.writerSample 14 .w0] else []) ++
    (if e.su.haveBc || 0 < e.su.consumed7 || 0 < e.su.landed 0 then [(7,e.landed7 - e.su.consumed7)]
      else []) ++
    [e.readerSample 10 .r10,e.writerSample 16 .w2] ++
    (if e.shape.swEn then [e.readerSample 2 .r2sw,e.readerSample 3 .r3sw] ++
      (if (e.shape.ports 5).enabled then [e.readerSample 5 .r5sw] else []) else []) ++
    (if e.shape.enIsc then [e.readerSample 11 .r11,e.readerSample 12 .r12] ++
      (if e.shape.r13En then [e.readerSample 13 .r13] else []) ++ [e.writerSample 17 .w3] else [])
  else if e.shape.kind = 3 then
    [e.readerSample 0 .r0,e.readerSample 1 .r1,e.writerSample 14 .w0]
  else if e.shape.kind = 4 then [e.writerSample 17 .w3]
  else if e.shape.kind = 5 then
    ((List.range 14).filter e.shape.simdREn).map (fun p => e.readerSample p (.rd p)) ++
    ((List.range 4).filter e.shape.simdWEn).map (fun p => e.writerSample (p + 14) (.wr p))
  else if e.shape.kind = 2 then
    [e.readerSample 0 .r0,e.readerSample 1 .r1] ++
    (if e.shape.w0p1En then [e.writerSample 14 .w0] else []) ++
    (if e.shape.w1En then [e.writerSample 15 .w1] else []) ++
    (if e.shape.p1swEn then [e.readerSample 3 .r3c,e.readerSample 4 .r4c] else []) ++
    [e.readerSample 12 .r12] ++
    (if e.shape.r11p1En then [e.readerSample 11 .r11] else []) ++
    (if e.shape.r13En then [e.readerSample 13 .r13] else []) ++ [e.writerSample 17 .w3]
  else []

def sampleRow (e : AccelEngine) : Vector (BitVec 16) 18 :=
  Vector.ofFn fun p : Fin 18 => match e.samples.lookup p.val with
    | some occupancy => BitVec.ofInt 16 occupancy
    | none => -1

def sampleFifo (e : AccelEngine) : AccelEngine :=
  if e.shape.recFifo then { e with res := { e.res with fifo := e.res.fifo ++ [e.sampleRow] } } else e

/-! ### The arrays -/

/-- The start of a cycle: nothing while not running, the end at the cap. -/
def ticked (e : AccelEngine) : AccelEngine := { e with ctl := { e.ctl with cyc := e.ctl.cyc + 1 } }

def stopped (e : AccelEngine) : AccelEngine := { e with ctl := { e.ctl with running := false } }

def capped (e : AccelEngine) : AccelEngine :=
  { e.stopped with res := { e.res with busy := e.ctl.cyc } }

/-- An owed output group of the osCore drips into the FIFO of its writer. -/
def osDrip (e : AccelEngine) (w : WriterId) : AccelEngine :=
  if 0 < e.os.osOwed && e.hasRoom w then
    { e.pushes w with os := { e.os with osOwed := e.os.osOwed - 1 } }
  else e

/-- The next array step of the osCore is not the last one of a tile, or nothing is owed. -/
def osFree (e : AccelEngine) : Bool := (e.os.asOs + 1).tmod e.shape.kOs != 0 || e.os.osOwed == 0

/-- An array step of the osCore; `tile` is what the last one of a tile does. -/
def osArray (e : AccelEngine) (held : Bool) (tile : AccelEngine → AccelEngine) : AccelEngine :=
  if decide (e.os.tilesOs < e.shape.nTilesOs) && decide (0 < e.occ .r0) && decide (0 < e.occ .r1) &&
      (!held || e.osFree) then
    let e := (e.pops .r0).pops .r1
    let e := { e with os := { e.os with asOs := e.os.asOs + 1 } }
    if e.os.asOs.tmod e.shape.kOs = 0 then tile e else e
  else e

def osTile (e : AccelEngine) : AccelEngine :=
  { e with
    os := { e.os with tilesOs := e.os.tilesOs + 1, osOwed := e.os.osOwed + e.shape.wbptOs }
    ctl := { e.ctl with gR10 := e.ctl.gR10 + 1 }
    res := if e.shape.recFires then
        { e.res with r10Fire := e.res.r10Fire ++ [BitVec.ofNat 32 e.ctl.cyc] }
      else e.res }

def isDrip (e : AccelEngine) : AccelEngine :=
  if 0 < e.isc.isOwed && e.hasRoom .w3 then
    { e.pushes .w3 with isc := { e.isc with isOwed := e.isc.isOwed - 1 } }
  else e

def isFree (e : AccelEngine) : Bool := (e.isc.asIs + 1).tmod e.shape.kIs != 0 || e.isc.isOwed == 0

/-- An array step of the isCore, its operands popped already. -/
def isArray (e : AccelEngine) : AccelEngine :=
  let e := { e with isc := { e.isc with asIs := e.isc.asIs + 1 } }
  if e.isc.asIs.tmod e.shape.kIs = 0 then
    { e with
      isc := { e.isc with tilesIs := e.isc.tilesIs + 1, isOwed := e.isc.isOwed + e.shape.wbptIs }
      ctl := { e.ctl with gIscore := e.ctl.gIscore + 1 } }
  else e

/-! ### P1 and IS_OSGEMM -/

/-- The TCDM writer of the osCore's output. -/
def osw (s : Shape) : Option WriterId :=
  if s.w0p1En then some .w0 else if s.w1En then some .w1 else none

def osTileP1 (e : AccelEngine) : AccelEngine :=
  { e with
    os := { e.os with
      tilesOs := e.os.tilesOs + 1
      oscElem := e.os.oscElem + 16 * 24
      osOwed := if (osw e.shape).isSome then e.os.osOwed + e.shape.wbptOs else e.os.osOwed }
    ctl := { e.ctl with gR10 := e.ctl.gR10 + 1 } }

/-- The convolution takes four elements, one group of R3 and at a tile row one of R4. -/
def convolve (e : AccelEngine) : AccelEngine :=
  if e.shape.p1swEn then
    if e.os.swElem < e.os.oscElem && e.os.swElem < e.shape.iters && 0 < e.occ .r3c && 0 < e.occ .r4c then
      let e := e.pops .r3c
      let e := if e.os.swElem.tmod 24 = 0 ∧ 0 < e.occ .r4c then e.pops .r4c else e
      { e with os := { e.os with swElem := e.os.swElem + 4 } }
    else e
  else { e with os := { e.os with swElem := e.os.oscElem } }

def streamAhead (e : AccelEngine) : Bool :=
  e.shape.r11p1En || e.isc.asIs * e.shape.iters ≤ e.os.swElem * e.shape.nTilesIs * e.shape.kIs

def isCoreP1 (e : AccelEngine) : AccelEngine :=
  if e.isc.tilesIs < e.shape.nTilesIs && e.streamAhead && 0 < e.occ .r12 &&
      (!e.shape.r13En || 0 < e.occ .r13) && (!e.shape.r11p1En || 0 < e.occ .r11) && e.isFree then
    let e := e.pops .r12
    let e := if e.shape.r11p1En then e.pops .r11 else e
    let e := if e.shape.r13En then e.pops .r13 else e
    e.isArray
  else e

def landP1 (e : AccelEngine) : AccelEngine :=
  let e := (e.landsAnew .r0).landsAnew .r1
  let e := if e.shape.p1swEn then (e.landsAnew .r3c).landsAnew .r4c else e
  let e := e.landsAnew .r12
  let e := if e.shape.r11p1En then e.landsAnew .r11 else e
  if e.shape.r13En then e.landsAnew .r13 else e

def coresP1 (e : AccelEngine) : AccelEngine :=
  let e := match osw e.shape with
    | some w => e.osDrip w
    | none => e
  ((e.osArray (osw e.shape).isSome osTileP1).convolve.isDrip).isCoreP1

def requestsP1 (e : AccelEngine) : List Request :=
  e.readerPosts .r0 ++ e.readerPosts .r1 ++
  (if e.shape.w0p1En then e.writerPosts .w0 else if e.shape.w1En then e.writerPosts .w1 else []) ++
  (if e.shape.p1swEn then e.readerPosts .r3c ++ e.readerPosts .r4c else []) ++
  e.readerPosts .r12 ++ (if e.shape.r11p1En then e.readerPosts .r11 else []) ++
  (if e.shape.r13En then e.readerPosts .r13 else []) ++ e.writerPosts .w3

def commitsP1 (g : List Bool) (x : Readback) : Readback :=
  let x := commitReader g (commitReader g x .r0) .r1
  let x := if x.engine.shape.w0p1En then commitWriter g x .w0
    else if x.engine.shape.w1En then commitWriter g x .w1 else x
  let x := if x.engine.shape.p1swEn then commitReader g (commitReader g x .r3c) .r4c else x
  let x := commitReader g x .r12
  let x := if x.engine.shape.r11p1En then commitReader g x .r11 else x
  let x := if x.engine.shape.r13En then commitReader g x .r13 else x
  commitWriter g x .w3

def isDone (e : AccelEngine) : Bool := e.isc.tilesIs == e.shape.nTilesIs && e.drained .w3

def stepP1 (e : AccelEngine) : AccelEngine × Trace :=
  if !e.ctl.running then (e,quiet)
  else if e.shape.cap ≤ e.ctl.cyc then (e.capped,quiet)
  else
    let e := e.ticked.landP1.coresP1
    if e.isDone then (e.capped,quiet)
    else
      let x := e.fabricPhase e.requestsP1 commitsP1
      (x.1.sampleFifo,x.2)

/-! ### The standalone arrays -/

def requestsOs (e : AccelEngine) : List Request :=
  e.readerPosts .r0 ++ e.readerPosts .r1 ++ e.writerPosts .w0

def commitsOs (g : List Bool) (x : Readback) : Readback :=
  commitWriter g (commitReader g (commitReader g x .r0) .r1) .w0

def stepOs (e : AccelEngine) : AccelEngine × Trace :=
  if !e.ctl.running then (e,quiet)
  else if e.shape.cap ≤ e.ctl.cyc then (e.capped,quiet)
  else
    let e := ((e.ticked.landsAnew .r0).landsAnew .r1).osDrip .w0
    let e := e.osArray true osTile
    if e.os.tilesOs == e.shape.nTilesOs && e.shape.wz ≤ (e.writers .w0).written then
      (({ e.capped with res := { e.capped.res with oscEnd := e.ctl.cyc } } : AccelEngine).sampleFifo,quiet)
    else
      let x := e.fabricPhase e.requestsOs commitsOs
      (x.1.sampleFifo,x.2)

/-- The inputs of the standalone isCore come without conflicts. -/
def isCoreAlone (e : AccelEngine) : AccelEngine :=
  if e.isc.tilesIs < e.shape.nTilesIs && e.isFree then e.isArray else e

def stepIs (e : AccelEngine) : AccelEngine × Trace :=
  if !e.ctl.running then (e,quiet)
  else if e.shape.cap ≤ e.ctl.cyc then (e.capped,quiet)
  else
    let e := e.ticked.isDrip.isCoreAlone
    if e.isDone then
      (({ e.capped with res := { e.capped.res with iscEnd := e.ctl.cyc } } : AccelEngine).sampleFifo,quiet)
    else
      let x := e.fabricPhase (e.writerPosts .w3) fun g x => commitWriter g x .w3
      (x.1.sampleFifo,x.2)

/-! ### SIMD -/

def simdReads (e : AccelEngine) (p : Nat) : Bool :=
  e.shape.simdREn p && e.simdRPops p < e.shape.simdRBeats p

def simdWrites (e : AccelEngine) (p : Nat) : Bool :=
  e.shape.simdWEn p && (e.writers (.wr p)).written < (e.writers (.wr p)).totalBeats

def simdConsume (e : AccelEngine) (p : Nat) : AccelEngine :=
  if e.shape.simdREn p then
    let e := e.lands (.rd p)
    if e.simdRPops p < e.shape.simdRBeats p && 0 < e.occ (.rd p) then
      { e.pops (.rd p) with simdRPops := fun q => if q = p then e.simdRPops q + 1 else e.simdRPops q }
    else e
  else e

def simdProduce (e : AccelEngine) (p : Nat) : AccelEngine :=
  if e.shape.simdWEn p && (e.writers (.wr p)).written + (e.writers (.wr p)).fifoOcc <
      (e.writers (.wr p)).totalBeats && e.hasRoom (.wr p) then e.pushes (.wr p)
  else e

def requestsSimd (e : AccelEngine) : List Request :=
  ((List.range 14).flatMap fun p => if e.simdReads p then e.readerPosts (.rd p) else []) ++
  (List.range 4).flatMap fun p => if e.simdWrites p then e.writerPosts (.wr p) else []

def commitsSimd (g : List Bool) (x : Readback) : Readback :=
  (List.range 4).foldl
    (fun x p => if x.engine.simdWrites p then commitWriter g x (.wr p) else x)
    ((List.range 14).foldl
      (fun x p => if x.engine.simdReads p then commitReader g x (.rd p) else x) x)

def stepSimd (e : AccelEngine) : AccelEngine × Trace :=
  if !e.ctl.running then (e,quiet)
  else if e.shape.cap ≤ e.ctl.cyc then (e.capped,quiet)
  else
    let e := (List.range 14).foldl simdConsume e.ticked
    let e := ((List.range 4).foldl simdProduce e).sampleFifo
    if (List.range 14).all (fun p => !e.simdReads p) && (List.range 4).all fun p => !e.simdWrites p then
      (e.capped,quiet)
    else e.fabricPhase e.requestsSimd commitsSimd

/-! ### P2 -/

def sucRel (e : AccelEngine) : Bool := !e.shape.enOs || e.ctl.relR10 || e.shape.r10Cnt ≤ e.ctl.gR10

def iscRel (e : AccelEngine) : Bool := e.shape.enIsc && (e.ctl.relR11 || e.shape.r11Cnt ≤ e.ctl.gR11)

def land7 (e : AccelEngine) : AccelEngine :=
  { e with su := { e.su with
    landed := fun l => if l < 4 then e.su.landed l + e.su.pend l else e.su.landed l
    pend := fun l => if l < 4 then 0 else e.su.pend l } }

def landP2 (e : AccelEngine) : AccelEngine :=
  let e := if e.shape.enOs then (e.landsAnew .r0).landsAnew .r1 else e
  let e := e.land7.lands .r10
  let e := if e.shape.swEn then
      let e := (e.landsAnew .r2sw).landsAnew .r3sw
      if (e.readers .r5sw).active || (e.readers .r5sw).done then e.landsAnew .r5sw else e
    else e
  let e := if e.shape.enIsc then
      let e := (e.landsAnew .r11).landsAnew .r12
      if e.shape.r13En then e.lands .r13 else e
    else e
  if e.shape.sucStateLd then e.lands .r13 else e

/-- `suc_start` and `isc_start`. -/
def marksStart (e : AccelEngine) (suc isc : Bool) : AccelEngine :=
  { e with
    ctl := { e.ctl with
      sucStarted := suc || e.ctl.sucStarted
      iscStarted := isc || e.ctl.iscStarted }
    res := { e.res with
      sucStart := if suc && !e.ctl.sucStarted then e.ctl.cyc else e.res.sucStart
      iscStart := if isc && !e.ctl.iscStarted then e.ctl.cyc else e.res.iscStart } }

/-- The address generator of R7 runs ahead, and a refresh consumes four groups. -/
def refresh7 (e : AccelEngine) : AccelEngine :=
  let e := if (List.range 4).all fun l => e.su.agu7 - e.su.issued l < e.shape.r7FifoD then
      { e with su := { e.su with agu7 := e.su.agu7 + 1 } }
    else e
  if e.su.k7 = 0 ∧ e.su.haveBc = false ∧ 4 ≤ e.landed7 - e.su.consumed7 then
    { e with su := { e.su with consumed7 := e.su.consumed7 + 4, haveBc := true } }
  else e

/-- The dt projection of the switchCore, at most eight elements ahead of the scan. -/
def switchStep (e : AccelEngine) : AccelEngine :=
  if e.shape.swEn && e.sw.swDt < e.shape.iters && e.sw.swDt - e.su.outSu < 8 then
    let needRead : Bool := e.sw.swDt.tmod 8 == 0
    if !needRead || (0 < e.occ .r2sw && 0 < e.occ .r3sw) then
      if e.sw.swAcc + e.shape.iters < e.shape.swCyc then
        { e with sw := { e.sw with swAcc := e.sw.swAcc + e.shape.iters } }
      else
        let e := if needRead then (e.pops .r2sw).pops .r3sw else e
        { e with sw :=
          { swAcc := e.sw.swAcc + e.shape.iters - e.shape.swCyc
            swFirst := if e.sw.swDt = 0 then e.ctl.cyc else e.sw.swFirst
            swDt := e.sw.swDt + 1
            swLast := e.ctl.cyc } }
    else e
  else e

/-- One output element of the scan; eight of them make a word of y. -/
def scanStep (e : AccelEngine) (released : Bool) : AccelEngine :=
  if released && e.su.outSu < e.shape.iters && e.su.haveBc && 0 < e.occ .r10 &&
      (!e.shape.swEn || e.su.outSu < e.sw.swDt) then
    let e := { e with
      su := { e.su with outSu := e.su.outSu + 1, yInWord := e.su.yInWord + 1 }
      ctl := { e.ctl with gR11 := e.ctl.gR11 + 1 }
      res := if e.shape.recFires then
          { e.res with r11Fire := e.res.r11Fire ++ [BitVec.ofNat 32 e.ctl.cyc] }
        else e.res }
    let e : AccelEngine := if e.su.yInWord = 8 then { e.pushes .w2 with su := { e.su with yInWord := 0 } } else e
    let e := if e.su.outSu.tmod 8 = 0 then e.pops .r10 else e
    { e with su := { e.su with
      k7 := if e.su.k7 + 1 = 4 then 0 else e.su.k7 + 1
      haveBc := if e.su.k7 + 1 = 4 then false else e.su.haveBc } }
  else e

/-- The state groups go with the progress of the scan, R13 one ahead. -/
def stateCarry (e : AccelEngine) : AccelEngine :=
  let e := if e.shape.sucStateLd && 0 < e.occ .r13 && 0 < e.shape.iters &&
        e.su.r13Pop * e.shape.iters ≤ e.su.outSu * e.shape.r13Tot + e.shape.iters then
      { e.pops .r13 with su := { e.su with r13Pop := e.su.r13Pop + 1 } }
    else e
  if e.shape.sucStateSv && e.su.w3Push < e.shape.w3stTot && 0 < e.shape.iters &&
      (e.su.w3Push + 1) * e.shape.iters ≤ e.su.outSu * e.shape.w3stTot then
    { e.pushes .w3 with su := { e.su with w3Push := e.su.w3Push + 1 } }
  else e

/-- The input-stationary isCore: a tile of A is loaded with the array idle, then reused. -/
def isCoreP2 (e : AccelEngine) (released : Bool) : AccelEngine :=
  if released && e.isc.tilesIs < e.shape.nTilesIs then
    if 0 < e.isc.iscAload then { e with isc := { e.isc with iscAload := e.isc.iscAload - 1 } }
    else if 0 < e.occ .r11 && 0 < e.occ .r12 && e.isFree then
      let e := (e.pops .r11).pops .r12
      let e := if e.shape.r13En && 0 < e.occ .r13 then e.pops .r13 else e
      let e := e.isArray
      if e.isc.iscSinceA + 1 = e.shape.dFinal then
        { e with isc := { e.isc with iscSinceA := 0, iscAload := e.shape.serDesA } }
      else { e with isc := { e.isc with iscSinceA := e.isc.iscSinceA + 1 } }
    else e
  else e

def coresP2 (e : AccelEngine) (suc isc : Bool) : AccelEngine :=
  let e := if e.shape.enOs then (e.osDrip .w0).osArray true osTile else e
  (e.refresh7.switchStep.scanStep suc).stateCarry.isDrip.isCoreP2 isc

/-- `osc_end` and `suc_end`. -/
def marksEnd (e : AccelEngine) : AccelEngine :=
  { e with res := { e.res with
    oscEnd := if e.res.oscEnd = 0 ∧ e.os.tilesOs = e.shape.nTilesOs ∧
        e.shape.wz ≤ (e.writers .w0).written then e.ctl.cyc else e.res.oscEnd
    sucEnd := if e.res.sucEnd = 0 ∧ e.shape.iters ≤ e.su.outSu then e.ctl.cyc else e.res.sucEnd } }

def isDoneP2 (e : AccelEngine) : Bool :=
  if e.shape.enIsc then e.isDone
  else e.shape.iters ≤ e.su.outSu && e.drained .w2 &&
    (!e.shape.sucStateSv || e.shape.w3stTot ≤ (e.writers .w3).written)

def finishP2 (e : AccelEngine) : AccelEngine :=
  { e.stopped with res := { e.res with
    busy := e.ctl.cyc
    iscEnd := e.ctl.cyc
    swStart := e.sw.swFirst
    swEnd := e.sw.swLast
    oscEnd := if e.res.oscEnd = 0 then e.ctl.cyc else e.res.oscEnd
    sucEnd := if e.res.sucEnd = 0 then e.ctl.cyc else e.res.sucEnd } }

def requestsP2 (e : AccelEngine) (suc isc : Bool) : List Request :=
  (if e.shape.enOs then e.readerPosts .r0 ++ e.readerPosts .r1 ++ e.writerPosts .w0 else []) ++
  e.dtBCPosts ++ (if suc then e.readerPosts .r10 else []) ++ e.writerPosts .w2 ++
  (if e.shape.swEn then e.readerPosts .r2sw ++ e.readerPosts .r3sw ++
    (if (e.readers .r5sw).active then e.readerPosts .r5sw else []) else []) ++
  (if isc then e.readerPosts .r11 ++ e.readerPosts .r12 ++
    (if e.shape.r13En then e.readerPosts .r13 else []) else []) ++
  (if e.shape.sucStateLd then e.readerPosts .r13 else []) ++
  (if e.shape.enIsc || e.shape.sucStateSv then e.writerPosts .w3 else [])

def commitsP2 (suc isc : Bool) (g : List Bool) (x : Readback) : Readback :=
  let x := if x.engine.shape.enOs then commitZ g (commitReader g (commitReader g x .r0) .r1) else x
  let x := commitDtBC g x
  let x := if suc then commitReadZ g x else x
  let x := commitY g x
  let x := if x.engine.shape.swEn then
      let x := commitReader g (commitReader g x .r2sw) .r3sw
      if (x.engine.readers .r5sw).active then commitReader g x .r5sw else x
    else x
  let x := if isc then
      let x := commitReader g (commitReadY g x) .r12
      if x.engine.shape.r13En then commitReader g x .r13 else x
    else x
  let x := if x.engine.shape.sucStateLd then commitReader g x .r13 else x
  if x.engine.shape.enIsc || x.engine.shape.sucStateSv then commitWriter g x .w3 else x

def stepP2 (e : AccelEngine) : AccelEngine × Trace :=
  if !e.ctl.running then (e,quiet)
  else if e.shape.cap ≤ e.ctl.cyc then (e.capped,quiet)
  else
    let e := e.ticked.landP2
    let suc := e.sucRel
    let isc := e.iscRel
    let e := ((e.marksStart suc isc).coresP2 suc isc).marksEnd
    if e.isDoneP2 then (e.finishP2,quiet)
    else
      let x := e.fabricPhase (e.requestsP2 suc isc) (commitsP2 suc isc)
      (x.1.sampleFifo,x.2)

/-! ### The engine and its callers -/

/-- `AccelEngine::step`. -/
def step (e : AccelEngine) : AccelEngine × Trace :=
  if e.shape.kind = 2 then e.stepP1
  else if e.shape.kind = 3 then e.stepOs
  else if e.shape.kind = 4 then e.stepIs
  else if e.shape.kind = 5 then e.stepSimd
  else e.stepP2

inductive Call where
  | configure (args : Args)
  | step
  | dmaEnqueue (tcdmAddr bytes : BitVec 32) (l3 : Bool) (atRel : Nat)
  | releaseR10
  | releaseR11

def next (depth : Nat → Int) (e : AccelEngine) : Call → AccelEngine
  | .configure args => configure depth e args
  | .step => e.step.1
  | .dmaEnqueue tcdmAddr bytes l3 atRel => { e with dma := e.dma.enqueue tcdmAddr bytes l3 atRel }
  | .releaseR10 => { e with ctl := { e.ctl with relR10 := true } }
  | .releaseR11 => { e with ctl := { e.ctl with relR11 := true } }

/-- What a caller sees after a call: the requests on the fabric, the gauges and the result. -/
structure View where
  trace : Trace
  running : Bool
  cyc : Nat
  gR10 : Int
  gR11 : Int
  gIscore : Int
  res : Result

def view (e : AccelEngine) (t : Trace) : View :=
  ⟨t,e.ctl.running,e.ctl.cyc,e.ctl.gR10,e.ctl.gR11,e.ctl.gIscore,e.res⟩

end AccelEngine

def accelEngine (depth : Nat → Int) : Sync.Machine AccelEngine AccelEngine.Call AccelEngine.View where
  next := AccelEngine.next depth
  out e c := AccelEngine.view (AccelEngine.next depth e c) (match c with
    | .step => e.step.2
    | _ => AccelEngine.quiet)

end Snax
