import Snax.SimbacoreStreamer

/-! The streamers of the simulator and the address generators of the cluster walk alike: configured by the
same registers, the k-th vector of a generator holds the addresses of the simulator's k-th group. -/
namespace Snax.Simbacore

open MixedRadix SimWorld AddressGenUnit

/-! ### Narrow addresses -/

variable {raw : Nat → BitVec 32} {p : Nat}

/-- What both sides can hold: positive bounds and strides that do not go back, no wider than the counters
of the generators. -/
structure Fits (a : Agu) : Prop where
  walk : a.Walk
  bounds : ∀ b ∈ a.bounds, b < 2 ^ 19
  strides : ∀ x ∈ a.steps, x < 2 ^ 18

theorem stride0_decoded (port : p < 18) :
    (aguCfg raw p).stride0 = (decodePorts raw p).tStride[0].setWidth _ := by
  have entry : (aguCfg raw p).stride0 = (raw (register p .temporalStrides 0)).setWidth _ :=
    Vector.getElem_ofFn _
  have read : (decodePorts raw p).tStride[0] = raw (baseCsr p + 2 + nSpatial p + 4 + 0) := Vector.getElem_ofFn _
  rw [entry,read,register_temporalStrides port (by decide)]

/-- R3 with an innermost loop of three that stays, in two groups 64 bytes apart. -/
def stillR3 (i : Nat) : BitVec 32 := [0x10000100,0,8,3,2,1,1,0,64,0,0,0].getD (i - baseCsr 3) 0

/-- W0 with two groups of eight bytes. -/
def pairW0 (i : Nat) : BitVec 32 := [0x10000100,0,8,2,1,1,1,8,0,0,0,0].getD (i - baseCsr 14) 0

def pairInput (start : Bool) : AddressGenUnit.Input (portParam 14).aguParam :=
  ⟨aguCfg pairW0 14,start,fun _ => true⟩

end Snax.Simbacore
