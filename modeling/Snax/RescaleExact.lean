import Snax.RescaleGolden
import Snax.RescaleSIMD

/-! `simd/RescalePE.scala` against its golden model: as long as the shifted product stays
strictly inside 32 bits no wire of the unit loses anything. -/
namespace Snax

open Sync.Wire

/-- The widths of both configurations of `simd/Parameter.scala`. -/
structure StandardWidths (p : RescaleSIMDParams) : Prop where
  input : p.inputType = 32
  output : p.outputType = 8
  constant : p.constantType = 8
  constantMul : p.constantMulType = 32

namespace RescalePE

variable {p : RescaleSIMDParams} {ctrl : RescalePECtrl p} {input : BitVec p.inputType}

theorem fits_constant (standard : StandardWidths p) (x : BitVec p.constantType) : Fits 8 x.toInt :=
  (fits_toInt x).mono standard.constant.le

/-- The product that the unit shifts. -/
def exactProduct (ctrl : RescalePECtrl p) (input : BitVec p.inputType) : Int :=
  (input.toInt - ctrl.inputZp.toInt) * ctrl.multiplier.toInt

theorem var0_toInt (standard : StandardWidths p)
    (difference : Fits 32 (input.toInt - ctrl.inputZp.toInt)) :
    (var0 ctrl input).toInt = exactProduct ctrl input ∧ Fits 64 (exactProduct ctrl input) := by
  have wide : max p.inputType p.constantType = 32 := by rw [standard.input,standard.constant]; rfl
  have factor : Fits 32 ctrl.multiplier.toInt :=
    (fits_toInt ctrl.multiplier).mono standard.constantMul.le
  have product : Fits 64 (exactProduct ctrl input) := difference.mul factor
  have left := toInt_widen input (Nat.le_max_left p.inputType p.constantType)
  have right := toInt_widen ctrl.inputZp (Nat.le_max_right p.inputType p.constantType)
  have less := toInt_sub left right (difference.mono wide.ge)
  have cut := toInt_cast less (difference.mono (by decide : 32 ≤ 64))
  have extended := toInt_cast (v := 64) (rfl : ctrl.multiplier.toInt = _) (factor.mono (by decide))
  exact ⟨toInt_mul cut extended product,product⟩

/-- The product without its last `shift - 1` bits. -/
def exactShifted (ctrl : RescalePECtrl p) (input : BitVec p.inputType) : Int :=
  exactProduct ctrl input / 2 ^ (ctrl.shift.toNat - 1)

theorem shift_sub_one (standard : StandardWidths p) (positive : 1 ≤ ctrl.shift.toNat) :
    (ctrl.shift - 1).toNat = ctrl.shift.toNat - 1 := by
  have width : 0 < p.constantType := standard.constant ▸ Nat.succ_pos 7
  have one : (1 : BitVec p.constantType).toNat = 1 := BitVec.toNat_one width
  rw [BitVec.toNat_sub_of_le (BitVec.le_def.mpr (one.trans_le positive)),one]

theorem var1_toInt (standard : StandardWidths p)
    (difference : Fits 32 (input.toInt - ctrl.inputZp.toInt)) (positive : 1 ≤ ctrl.shift.toNat)
    (inside : Fits 32 (exactShifted ctrl input)) :
    (var1 ctrl input).toInt = exactShifted ctrl input := by
  have shifted : ((var0 ctrl input).sshiftRight (ctrl.shift - 1).toNat).toInt =
      exactShifted ctrl input := by
    rw [toInt_shift,(var0_toInt standard difference).1,shift_sub_one standard positive]
    rfl
  rw [var1,extract_eq_signExtend _ (by decide)]
  exact toInt_cast shifted inside

/-- The rounding step, which moves away from zero. -/
def roundedShift (doubleRound : Bool) (x : Int) : Int :=
  if doubleRound then (if 0 ≤ x then x + 1 else x - 1) else x

/-- Strictly inside 32 bits. -/
def StrictlyInside (x : Int) : Prop := -2 ^ 31 < x ∧ x < 2 ^ 31 - 1

theorem StrictlyInside.fits {x : Int} (inside : StrictlyInside x) : Fits 32 x := by
  unfold StrictlyInside at inside
  exact ⟨by omega,by omega⟩

theorem StrictlyInside.rounded {x : Int} (inside : StrictlyInside x) (doubleRound : Bool) :
    Fits 32 (roundedShift doubleRound x) := by
  unfold StrictlyInside at inside
  unfold roundedShift
  split
  · split <;> exact ⟨by omega,by omega⟩
  · exact ⟨by omega,by omega⟩

theorem rounded_toInt {x : BitVec 32} (inside : StrictlyInside x.toInt) (doubleRound : Bool) :
    (if doubleRound then (if x.msb then x - 1 else x + 1) else x).toInt =
      roundedShift doubleRound x.toInt := by
  have one : (1 : BitVec 32).toInt = 1 := rfl
  unfold StrictlyInside at inside
  unfold roundedShift
  cases doubleRound with
  | false => rfl
  | true =>
    simp only [↓reduceIte]
    by_cases negative : x.toInt < 0
    · rw [if_pos (by simpa [BitVec.msb_eq_toInt] using negative),if_neg (by omega),
        toInt_sub rfl one ⟨by omega,by omega⟩]
    · rw [if_neg (by simpa [BitVec.msb_eq_toInt] using negative),if_pos (by omega),
        toInt_add rfl one ⟨by omega,by omega⟩]

/-- What the golden model clamps. -/
def exactScaled (ctrl : RescalePECtrl p) (input : BitVec p.inputType) : Int :=
  roundedShift ctrl.doubleRound (exactShifted ctrl input) / 2 + ctrl.outputZp.toInt

theorem fits_exactScaled (standard : StandardWidths p)
    (inside : StrictlyInside (exactShifted ctrl input)) : Fits 32 (exactScaled ctrl input) := by
  obtain ⟨low,high⟩ := inside.rounded ctrl.doubleRound
  obtain ⟨small,large⟩ := fits_constant standard ctrl.outputZp
  unfold exactScaled
  exact ⟨by omega,by omega⟩

theorem var2_toInt (standard : StandardWidths p)
    (difference : Fits 32 (input.toInt - ctrl.inputZp.toInt)) (positive : 1 ≤ ctrl.shift.toNat)
    (inside : StrictlyInside (exactShifted ctrl input)) :
    (var2 ctrl input).toInt = exactScaled ctrl input := by
  have wide : max 32 p.constantType = 32 := by rw [standard.constant]; rfl
  have first := var1_toInt standard difference positive inside.fits
  have rounded := rounded_toInt (first ▸ inside) ctrl.doubleRound
  have scaled := fits_exactScaled standard inside
  rw [first] at rounded
  have half : (((if ctrl.doubleRound then
      (if (var1 ctrl input).msb then var1 ctrl input - 1 else var1 ctrl input + 1)
      else var1 ctrl input).sshiftRight 1).signExtend (max 32 p.constantType)).toInt =
      roundedShift ctrl.doubleRound (exactShifted ctrl input) / 2 := by
    rw [toInt_widen _ (Nat.le_max_left _ _),toInt_shift,rounded]
    rfl
  have zero := toInt_widen ctrl.outputZp (Nat.le_max_right 32 p.constantType)
  have sum := toInt_add half zero (scaled.mono wide.ge)
  rw [var2,← BitVec.signExtend_eq_setWidth_of_le _ (Nat.le_max_left _ _)]
  exact toInt_cast sum scaled

theorem var3_clamps (standard : StandardWidths p) (ordered : ctrl.minInt.toInt ≤ ctrl.maxInt.toInt) :
    (var3 ctrl input).toInt = Golden.clip (var2 ctrl input).toInt ctrl.minInt.toInt ctrl.maxInt.toInt := by
  have low : (ctrl.minInt.signExtend 32).toInt = ctrl.minInt.toInt :=
    toInt_cast rfl ((fits_constant standard _).mono (by decide))
  have high : (ctrl.maxInt.signExtend 32).toInt = ctrl.maxInt.toInt :=
    toInt_cast rfl ((fits_constant standard _).mono (by decide))
  unfold var3 Golden.clip
  split
  · omega
  · split <;> omega

theorem clip_mem {x low high : Int} (ordered : low ≤ high) :
    low ≤ Golden.clip x low high ∧ Golden.clip x low high ≤ high := by
  unfold Golden.clip
  omega

theorem output_toInt (standard : StandardWidths p) (ordered : ctrl.minInt.toInt ≤ ctrl.maxInt.toInt) :
    (output ctrl input).toInt =
      Golden.clip (var2 ctrl input).toInt ctrl.minInt.toInt ctrl.maxInt.toInt := by
  have clamped : (var3 ctrl input).toInt =
      Golden.clip (var2 ctrl input).toInt ctrl.minInt.toInt ctrl.maxInt.toInt :=
    var3_clamps standard ordered
  have narrow : Fits 8 (var3 ctrl input).toInt := by
    have between := clip_mem (x := (var2 ctrl input).toInt) ordered
    have low := (fits_constant standard ctrl.minInt).1
    have high := (fits_constant standard ctrl.maxInt).2
    rw [← clamped] at between
    exact ⟨by omega,by omega⟩
  have byte : ((var3 ctrl input).extractLsb' 0 8).toInt = (var3 ctrl input).toInt := by
    rw [extract_eq_signExtend _ (by decide)]
    exact toInt_cast rfl narrow
  rw [output,toInt_widen _ standard.output.ge,byte,clamped]

theorem golden_eq (standard : StandardWidths p)
    (difference : Fits 32 (input.toInt - ctrl.inputZp.toInt))
    (inside : StrictlyInside (exactShifted ctrl input)) :
    Golden.postprocessingSimdGoldenModel input.toInt ctrl.inputZp.toInt ctrl.outputZp.toInt
        ctrl.shift.toNat ctrl.maxInt.toInt ctrl.minInt.toInt ctrl.doubleRound ctrl.multiplier.toInt =
      Golden.clip (exactScaled ctrl input) ctrl.minInt.toInt ctrl.maxInt.toInt := by
  have factor : Fits 32 ctrl.multiplier.toInt :=
    (fits_toInt ctrl.multiplier).mono standard.constantMul.le
  have product : Fits 64 (exactProduct ctrl input) := difference.mul factor
  have shifted : exactProduct ctrl input >>> (ctrl.shift.toNat - 1) = exactShifted ctrl input :=
    shiftRight_eq _ _
  have rounded : (if ctrl.doubleRound then
      (if 0 ≤ exactShifted ctrl input then Golden.int32 (exactShifted ctrl input + 1)
        else Golden.int32 (exactShifted ctrl input - 1))
      else exactShifted ctrl input) = roundedShift ctrl.doubleRound (exactShifted ctrl input) := by
    have keeps := inside.rounded ctrl.doubleRound
    unfold roundedShift at keeps ⊢
    split
    · split
      · exact bmod_of_fits (by simp_all)
      · exact bmod_of_fits (by simp_all)
    · rfl
  have half (x : Int) : x >>> (1 : Nat) = x / 2 := shiftRight_eq x 1
  simp only [Golden.postprocessingSimdGoldenModel,Golden.int64_of_fits (difference.mono (by decide)),
    Golden.int64_of_fits (factor.mono (by decide))]
  rw [← exactProduct,Golden.int64_of_fits product,shifted,Golden.int32_of_fits inside.fits,rounded,half]
  rfl

/-- The result is always in the clamp interval, and it is the one of the golden model as long
as the shifted product is strictly inside 32 bits. -/
theorem rescale_pe (standard : StandardWidths p) (ctrl : RescalePECtrl p)
    (input : BitVec p.inputType) (ordered : ctrl.minInt.toInt ≤ ctrl.maxInt.toInt) :
    (ctrl.minInt.toInt ≤ (output ctrl input).toInt ∧
      (output ctrl input).toInt ≤ ctrl.maxInt.toInt) ∧
    (Fits 32 (input.toInt - ctrl.inputZp.toInt) → 1 ≤ ctrl.shift.toNat →
      StrictlyInside (exactShifted ctrl input) →
      (output ctrl input).toInt =
        Golden.postprocessingSimdGoldenModel input.toInt ctrl.inputZp.toInt ctrl.outputZp.toInt
          ctrl.shift.toNat ctrl.maxInt.toInt ctrl.minInt.toInt ctrl.doubleRound
          ctrl.multiplier.toInt) := by
  rw [output_toInt standard ordered]
  refine ⟨clip_mem ordered,fun difference positive inside => ?_⟩
  rw [golden_eq standard difference inside,var2_toInt standard difference positive inside]

/-- Three quarters of the input, rounded away from zero. -/
def threeQuarters : RescalePECtrl RescaleSIMD.defaultConfig := ⟨0,1,3,2,127,-128,true,1⟩

theorem default_standard : StandardWidths RescaleSIMD.defaultConfig := ⟨rfl,rfl,rfl,rfl⟩

theorem rescale_pe_threeQuarters : (output threeQuarters (-30 : BitVec 32)).toInt = -22 := by
  rw [(rescale_pe default_standard threeQuarters (-30 : BitVec 32) (by decide)).2 (by decide)
    (by decide) (by unfold StrictlyInside; decide)]
  decide

end RescalePE
end Snax
