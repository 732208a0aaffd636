import Snax.AccelFrame
import Snax.Sync.Bytes

/-! `sim/src/world.cpp`, `world.hpp`: the cluster DMA and the clock of the simulated world. The bytes
of a transfer move when it is submitted; its time on the single channel is kept apart. -/
namespace Snax

open Bytes (Memory load store)

/-- `DmaDesc`, without the hart that submits it. -/
structure DmaDesc where
  src : BitVec 64
  dst : BitVec 64
  size : BitVec 32
  dstStride : BitVec 32
  srcStride : BitVec 32
  rows : BitVec 32
  is2d : Bool
  srcIsL3 : Bool
  dstIsL3 : Bool

/-- The part of `SimWorld` that the DMA and the clock use. -/
structure SimWorld where
  mem : Memory 32
  engine : AccelEngine
  engineActive : Bool
  accelStart : Nat
  accelEnd : Nat
  perf : BitVec 32
  mode : BitVec 32
  dmaTxid : BitVec 32
  dmaBusyUntil : Nat
  dmaBusyAddr : BitVec 32
  dmaEngineOn : Bool
  invKind : Nat
  invFinalized : Bool
  invDma : DmaEngine

namespace SimWorld

def fresh : SimWorld where
  mem := fun _ => 0
  engine := AccelEngine.fresh
  engineActive := false
  accelStart := 0
  accelEnd := 0
  perf := 0
  mode := 0
  dmaTxid := 0
  dmaBusyUntil := 0
  dmaBusyAddr := 0
  dmaEngineOn := false
  invKind := 0
  invFinalized := false
  invDma := DmaEngine.fresh

/-! ### Time -/

/-- `while (engine_.active() && engine_.cyc() < target_rel) engine_.step()`. A cycle advances the
engine's own count, so that `target_rel` rounds are enough. -/
def stepTo (target : Nat) : Nat → AccelEngine → AccelEngine
  | 0, e => e
  | n + 1, e => if e.ctl.running ∧ e.ctl.cyc < target then stepTo target n e.step.1 else e

/-- A mode without any of the three subcores. -/
def isSimd (mode : BitVec 32) : Bool := !(mode.getLsbD 21 || mode.getLsbD 20 || mode.getLsbD 19)

/-- The engine has finished. -/
def latch (w : SimWorld) : SimWorld :=
  { w with
    engineActive := false
    accelEnd := w.accelStart + w.engine.res.busy
    perf := if isSimd w.mode then 0 else BitVec.ofNat 32 w.engine.res.busy }

def advanceTo (w : SimWorld) (t : Nat) : SimWorld :=
  if !w.engineActive || t ≤ w.accelStart then w
  else
    let w := { w with engine := stepTo (t - w.accelStart) (t - w.accelStart) w.engine }
    if w.engine.ctl.running then w else w.latch

/-- `next_event_cycle`, with `none` for `UINT64_MAX`. -/
def nextEventCycle (w : SimWorld) : Option Nat :=
  if w.engineActive then some (w.accelStart + w.engine.ctl.cyc + 1)
  else
    let e := if w.accelStart < w.accelEnd then some w.accelEnd else none
    if w.dmaBusyUntil ≠ 0 ∧ e.all (w.dmaBusyUntil < ·) then some w.dmaBusyUntil else e

/-! ### DMA -/

def dmaFirstBeatL3 : Nat := 19
def dmaFirstBeatTcdm : Nat := 10

end SimWorld

namespace DmaDesc

variable (d : DmaDesc)

/-- One row unless the transfer is two-dimensional. -/
def repeats : BitVec 32 := if d.is2d then d.rows else 1

/-- Beats of 64 bytes, counted in 64 bits. -/
def beats : Nat := (d.size.toNat * d.repeats.toNat + 63) / 64

def l3 : Bool := d.srcIsL3 || d.dstIsL3

def firstBeat : Nat := if d.l3 then SimWorld.dmaFirstBeatL3 else SimWorld.dmaFirstBeatTcdm

/-- One of the two sides lies in the TCDM. -/
def inTcdm : Bool := !d.srcIsL3 || !d.dstIsL3

/-- The side that lands in the TCDM. -/
def tcdmAddr : BitVec 32 := (if d.dstIsL3 then d.src else d.dst).setWidth 32

/-- Row by row, each read before it is written. -/
def moveBytes (m : Memory 32) : Memory 32 :=
  (List.range d.repeats.toNat).foldl (fun m r =>
    store m (d.dst.setWidth 32 + BitVec.ofNat 32 r * d.dstStride)
      (load m (d.src.setWidth 32 + BitVec.ofNat 32 r * d.srcStride) d.size.toNat)) m

end DmaDesc

namespace SimWorld

/-- The end of a transfer that is submitted at `at_`: the latency of the first beat is paid when the
channel is idle. -/
def busyAfter (busyUntil : Nat) (d : DmaDesc) (at_ : Nat) : Nat :=
  if busyUntil ≤ at_ then at_ + d.firstBeat + d.beats else busyUntil + d.beats

/-- The engine takes the transfer while it runs. -/
def enqueueLive (w : SimWorld) (d : DmaDesc) (at_ : Nat) : SimWorld :=
  if w.engineActive && decide (w.accelStart ≤ at_) && d.inTcdm then
    let w := w.advanceTo at_
    { w with engine :=
        { w.engine with dma :=
            w.engine.dma.enqueue d.tcdmAddr (d.size * d.repeats) d.l3 (at_ - w.accelStart) } }
  else w

/-- `dma_submit`; the identifier it returns is the count of the transfers. -/
def dmaSubmit (w : SimWorld) (d : DmaDesc) (at_ : Nat) : SimWorld :=
  let w := { w with
    mem := d.moveBytes w.mem
    dmaBusyUntil := busyAfter w.dmaBusyUntil d at_
    dmaBusyAddr := if d.inTcdm then d.tcdmAddr else w.dmaBusyAddr
    invDma :=
      if w.dmaEngineOn && w.invKind != 0 && !w.invFinalized && decide (w.accelStart ≤ at_) && d.inTcdm then
        w.invDma.enqueue d.tcdmAddr (d.size * d.repeats) d.l3 (at_ - w.accelStart)
      else w.invDma }
  let w := w.enqueueLive d at_
  { w with dmaTxid := w.dmaTxid + 1 }

def dmaBusy (w : SimWorld) (at_ : Nat) : BitVec 32 := if at_ < w.dmaBusyUntil then 1 else 0

/-- `dma_completed_id`, which does not look at the time. -/
def dmaCompletedId (w : SimWorld) (_at : Nat) : BitVec 32 := w.dmaTxid

/-! ### What a submission changes -/

@[simp] theorem advanceTo_dmaTxid (w : SimWorld) (t : Nat) : (w.advanceTo t).dmaTxid = w.dmaTxid := by
  unfold advanceTo latch
  dsimp only
  split_ifs <;> rfl

@[simp] theorem advanceTo_dmaBusyUntil (w : SimWorld) (t : Nat) :
    (w.advanceTo t).dmaBusyUntil = w.dmaBusyUntil := by
  unfold advanceTo latch
  dsimp only
  split_ifs <;> rfl

@[simp] theorem enqueueLive_dmaTxid (w : SimWorld) (d : DmaDesc) (at_ : Nat) :
    (w.enqueueLive d at_).dmaTxid = w.dmaTxid := by
  unfold enqueueLive
  split
  · exact advanceTo_dmaTxid w at_
  · rfl

@[simp] theorem enqueueLive_dmaBusyUntil (w : SimWorld) (d : DmaDesc) (at_ : Nat) :
    (w.enqueueLive d at_).dmaBusyUntil = w.dmaBusyUntil := by
  unfold enqueueLive
  split
  · exact advanceTo_dmaBusyUntil w at_
  · rfl

@[simp] theorem dmaSubmit_dmaTxid (w : SimWorld) (d : DmaDesc) (at_ : Nat) :
    (w.dmaSubmit d at_).dmaTxid = w.dmaTxid + 1 := by
  simp only [dmaSubmit,enqueueLive_dmaTxid]

@[simp] theorem dmaSubmit_dmaBusyUntil (w : SimWorld) (d : DmaDesc) (at_ : Nat) :
    (w.dmaSubmit d at_).dmaBusyUntil = busyAfter w.dmaBusyUntil d at_ := by
  simp only [dmaSubmit,enqueueLive_dmaBusyUntil]

end SimWorld

end Snax
