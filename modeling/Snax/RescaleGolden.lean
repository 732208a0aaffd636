import Mathlib.Data.Nat.Log
import Snax.Sync.Wire

/-! The golden models of `util/sim/snax_utils.py` that the rescale units are compared with.
Python's integers are unbounded, those of numpy wrap, and `>>` rounds down. -/
namespace Snax.Golden

/-- `np.int32` and `np.int64` of an integer, and what their arithmetic keeps of a result. -/
def int32 (x : Int) : Int := x.bmod (2 ^ 32)

def int64 (x : Int) : Int := x.bmod (2 ^ 64)

theorem int32_of_fits {x : Int} (fits : Sync.Wire.Fits 32 x) : int32 x = x := Sync.Wire.bmod_of_fits fits

theorem int64_of_fits {x : Int} (fits : Sync.Wire.Fits 64 x) : int64 x = x := Sync.Wire.bmod_of_fits fits

theorem int32_add (x y : Int) : int32 (int32 x + int32 y) = int32 (x + y) := by
  rw [int32,int32,int32,int32,Int.bmod_add_bmod,Int.add_bmod_bmod]

/-- `np.clip`. -/
def clip (x minInt maxInt : Int) : Int := min (max x minInt) maxInt

/-- The saturation of a wire of 32 bits to 8. -/
theorem toInt_saturated (y : BitVec 32) :
    (if (2 ^ (8 - 1) : Int) ≤ y.toInt then BitVec.ofInt 8 (2 ^ (8 - 1) - 1)
      else if y.toInt < -2 ^ (8 - 1) then BitVec.ofInt 8 (-2 ^ (8 - 1)) else y.signExtend 8).toInt =
      clip y.toInt (-128) 127 := by
  have high : (BitVec.ofInt 8 (2 ^ (8 - 1) - 1)).toInt = 127 := by decide
  have low : (BitVec.ofInt 8 (-2 ^ (8 - 1))).toInt = -128 := by decide
  unfold clip
  split
  · rw [high]
    omega
  · split
    · rw [low]
      omega
    · rw [Sync.Wire.toInt_cast rfl ⟨by omega,by omega⟩]
      omega

def postprocessingSimdGoldenModel (dataIn inputZp outputZp : Int) (shift : Nat)
    (maxInt minInt : Int) (doubleRound : Bool) (multiplier : Int) : Int :=
  let var := int64 (int64 (dataIn - inputZp) * int64 multiplier)
  let var := int32 (var >>> (shift - 1))
  let var := if doubleRound then (if 0 ≤ var then int32 (var + 1) else int32 (var - 1)) else var
  let var := var >>> (1 : Nat)
  clip (var + outputZp) minInt maxInt

def goldenModelRescaleUp (dataIn inputZp outputZp : Int) (shift : Nat)
    (maxInt minInt multiplier : Int) : Int :=
  let var2 := int64 (int64 (dataIn - inputZp) * int64 multiplier)
  let shiftedOne := int64 (2 ^ (shift - 1))
  let var3 := int64 (var2 + shiftedOne)
  let var6 := int32 (var3 >>> shift)
  clip (int32 (var6 + int32 outputZp)) minInt maxInt

/-- The exact rescale, rounded as TOSA rounds it. -/
def postprocessingSimdGoldenModelV2 (dataIn inputZp outputZp : Int) (shift : Nat)
    (maxInt minInt : Int) (doubleRound : Bool) (multiplier : Int) : Int :=
  let var1 := dataIn - inputZp
  let var2 := int64 (int64 var1 * int64 multiplier)
  let var3 := int64 (var2 + int64 (2 ^ (shift - 1)))
  let var4 :=
    if doubleRound then
      (if 0 < var1 then int64 (var3 + int64 (2 ^ 30)) else int64 (var3 - int64 (2 ^ 30)))
    else var3
  let var5 := if 31 < shift then var4 else var3
  let var6 := int32 (var5 >>> shift)
  clip (var6 + outputZp) minInt maxInt

/-- The approximate rescale on operands of 16 bits. `ceil(np.log2(multiplier))` is `Nat.clog`;
a shift by a negative count raises, and so does the use of the unset `var_4`. -/
def postprocessingSimdGoldenModelV3 (dataIn inputZp outputZp : Int) (shift : Nat)
    (maxInt minInt : Int) (doubleRound : Bool) (multiplier : Nat) : Option Int :=
  let bitsToShiftInput := 9 + shift - Nat.clog 2 multiplier - 16
  let bitsToShiftMultiplier := Nat.clog 2 multiplier - 16
  let var1 := (dataIn - inputZp) >>> bitsToShiftInput
  let multiplier := multiplier >>> bitsToShiftMultiplier
  if shift ≤ bitsToShiftInput + bitsToShiftMultiplier then none
  else if doubleRound && 30 < bitsToShiftInput + bitsToShiftMultiplier then none
  else
    let shift := shift - bitsToShiftInput - bitsToShiftMultiplier
    let var2 := int32 (int32 var1 * int32 multiplier)
    let var3 := int32 (var2 + int32 (2 ^ (shift - 1)))
    let account := int32 (2 ^ (30 - bitsToShiftMultiplier - bitsToShiftInput))
    let var4 := if 0 < var1 then int32 (var3 + account) else int32 (var3 - account)
    let var5 : Option Int :=
      if 31 - bitsToShiftMultiplier - bitsToShiftInput < shift then
        (if doubleRound then some var4 else none)
      else some var3
    var5.map fun (x : Int) => clip (int32 (x >>> shift) + outputZp) minInt maxInt

end Snax.Golden
