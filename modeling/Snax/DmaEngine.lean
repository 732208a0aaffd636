import Mathlib.Data.BitVec

/-! `sim/src/cyc.hpp`, `DmaEngine`: queued cluster DMA transfers, drained one beat of 64 bytes at
a time. A beat owns the eight banks of its superbank for one cycle of its period. -/
namespace Snax

structure DmaEngine.Xfer where
  tcdmAddr : BitVec 32
  beats : BitVec 32
  period : Int
  atRel : Nat
  deriving DecidableEq

structure DmaEngine where
  q : List DmaEngine.Xfer
  head : Nat
  doneCnt : BitVec 32
  active : Bool
  addr : BitVec 32
  beatsLeft : BitVec 32
  period : Int
  timer : Int
  beatPeriodL3 : Int
  beatPeriodTcdm : Int

namespace DmaEngine

def fresh : DmaEngine := ⟨[],0,0,false,0,0,1,0,1,1⟩

def clear (d : DmaEngine) : DmaEngine := { d with q := [], head := 0, doneCnt := 0, active := false }

/-- The same queue is drained again. -/
def rewind (d : DmaEngine) : DmaEngine := { d with head := 0, doneCnt := 0, active := false }

/-- The beats of a transfer are counted in 32 bits. -/
def enqueue (d : DmaEngine) (tcdmAddr bytes : BitVec 32) (l3 : Bool) (atRel : Nat) : DmaEngine :=
  if (bytes + 63) / 64 = 0 then d
  else { d with q := d.q ++
    [⟨tcdmAddr,(bytes + 63) / 64,if l3 then d.beatPeriodL3 else d.beatPeriodTcdm,atRel⟩] }

def busy (d : DmaEngine) : Bool := d.active || d.head < d.q.length

/-- `0xFFu << (((addr >> 6) & 3) * 8)`. -/
def superbank (addr : BitVec 32) : BitVec 32 := 0xFF <<< (((addr >>> 6) &&& 3).toNat * 8)

def launch (d : DmaEngine) (x : Xfer) : DmaEngine :=
  { d with
    head := d.head + 1
    active := true
    addr := x.tcdmAddr
    beatsLeft := x.beats
    period := x.period
    timer := x.period }

/-- A cycle of the transfer under way, with the banks it owns. -/
def beat (d : DmaEngine) : DmaEngine × BitVec 32 :=
  (if d.timer - 1 ≤ 0 then
      { d with
        addr := d.addr + 64
        beatsLeft := d.beatsLeft - 1
        active := d.beatsLeft - 1 != 0
        doneCnt := if d.beatsLeft - 1 = 0 then d.doneCnt + 1 else d.doneCnt
        timer := d.period }
    else { d with timer := d.timer - 1 },
    if 0 < d.period ∧ d.timer = d.period then superbank d.addr else 0)

/-- The cycle `cyc` of the invocation; 0 where no bank is owned. -/
def step (d : DmaEngine) (cyc : Nat) : DmaEngine × BitVec 32 :=
  if d.active then d.beat
  else match d.q[d.head]? with
    | some x => if cyc < x.atRel then (d,0) else (d.launch x).beat
    | none => (d,0)

end DmaEngine
end Snax
