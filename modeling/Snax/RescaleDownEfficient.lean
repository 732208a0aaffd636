import Mathlib.Data.Nat.Log
import Snax.BatchPacking
import Snax.RescaleGolden

/-! `RescaleDownEfficient.scala` from 32 to 8 bits against its golden model: how both derive
their shift amounts from multiplier and shift, and what the PE makes of them. -/
namespace Snax

open Sync.Wire

namespace RescaleDownCsr

variable {csr : RescaleDownCsr}

/-- The bits of the multiplier. At a power of two the golden model counts one less. -/
def bits (csr : RescaleDownCsr) : Nat := Nat.log2 csr.multiplier.toNat + 1

def inputShift (csr : RescaleDownCsr) : Nat := csr.shift.toNat - (csr.bits + 7)

def multiplierShift (csr : RescaleDownCsr) : Nat := csr.bits - 16

/-- The configurations for which the unit is to give the golden result. -/
structure Proper (csr : RescaleDownCsr) : Prop where
  positive : 1 ≤ csr.multiplier.toNat
  multiplier : csr.multiplier.toNat < 2 ^ 31
  shiftLow : 2 ≤ csr.shift.toNat
  shiftHigh : csr.shift.toNat ≤ 62
  postShift : csr.inputShift + csr.multiplierShift < csr.shift.toNat
  outputZp : Fits 8 csr.outputZp.toInt

/-- The derived shift amounts fit their wires, and the golden model derives the same ones. -/
structure Derives (csr : RescaleDownCsr) : Prop where
  power : ¬ csr.multiplier.toNat.isPowerOfTwo ∨ csr.bits ≤ 16 ∧ csr.shift.toNat ≤ csr.bits + 6
  total : csr.inputShift + csr.multiplierShift ≤ 29

theorem Proper.bits_le (proper : csr.Proper) : csr.bits ≤ 31 :=
  (Nat.log2_lt (Nat.ne_of_gt proper.positive)).mpr proper.multiplier

theorem clog_eq (proper : csr.Proper) : Nat.clog 2 csr.multiplier.toNat =
    if csr.multiplier.toNat.isPowerOfTwo then csr.bits - 1 else csr.bits := by
  have nonzero : csr.multiplier.toNat ≠ 0 := Nat.ne_of_gt proper.positive
  have low := Nat.log2_self_le nonzero
  have high : csr.multiplier.toNat < 2 ^ csr.bits := Nat.lt_log2_self
  split
  · next power =>
    obtain ⟨k,same⟩ := power
    rw [bits,same,Nat.clog_pow 2 k Nat.one_lt_two,Nat.log2_two_pow]
    rfl
  · next other =>
    refine Nat.le_antisymm ((Nat.clog_le_iff_le_pow Nat.one_lt_two).mpr high.le) ?_
    rw [bits,Nat.succ_le_iff,Nat.lt_clog_iff_pow_lt Nat.one_lt_two]
    exact Nat.lt_of_le_of_ne low fun same => other ⟨_,same.symm⟩

/-- The golden model's amounts. -/
theorem golden_shifts (proper : csr.Proper) (derives : csr.Derives) :
    9 + csr.shift.toNat - Nat.clog 2 csr.multiplier.toNat - 16 = csr.inputShift ∧
      Nat.clog 2 csr.multiplier.toNat - 16 = csr.multiplierShift := by
  have positive : 1 ≤ csr.bits := Nat.succ_pos _
  have few := proper.bits_le
  unfold inputShift multiplierShift
  rw [clog_eq proper]
  rcases derives.power with other | ⟨narrow,short⟩
  · rw [if_neg other]
    omega
  · split <;> omega

theorem usedBits_toNat (proper : csr.Proper) : csr.usedBitsInMultiplier.toNat = csr.bits := by
  have few := proper.bits_le
  have positive := proper.positive
  have nonzero : csr.multiplier ≠ 0 := by
    intro zero
    rw [zero] at positive
    exact absurd positive (by decide)
  unfold bits at few ⊢
  rw [usedBitsInMultiplier,reversedEncoder_eq nonzero,BitVec.toNat_ofNat,Nat.mod_eq_of_lt (by omega)]
  omega

theorem bitsToShiftInput_toNat (proper : csr.Proper) (derives : csr.Derives) :
    csr.bitsToShiftInput.toNat = csr.inputShift := by
  have few := proper.bits_le
  have used := usedBits_toNat proper
  have high := proper.shiftHigh
  have post := proper.postShift
  have total := derives.total
  have full : csr.fullBitsToShiftInput.toNat = (csr.shift.toNat + 64 - (csr.bits + 7)) % 64 := by
    have nine : (9 : BitVec 33).toNat = 9 := rfl
    have sixteen : (16 : BitVec 33).toNat = 16 := rfl
    simp only [fullBitsToShiftInput,BitVec.toNat_setWidth,BitVec.toNat_sub,BitVec.toNat_add,used,nine,
      sixteen]
    omega
  have sign : csr.fullBitsToShiftInput.slt 0 = true ↔ csr.shift.toNat < csr.bits + 7 := by
    unfold inputShift multiplierShift at post total
    have zero : (0 : BitVec 6).toInt = 0 := rfl
    rw [BitVec.slt_iff_toInt_lt,BitVec.toInt_eq_toNat_cond,full,zero]
    split <;> omega
  unfold bitsToShiftInput
  unfold inputShift multiplierShift at total
  unfold inputShift
  by_cases short : csr.shift.toNat < csr.bits + 7
  · rw [if_pos (sign.mpr short)]
    simp
    omega
  · rw [if_neg (by rw [sign]; exact short),BitVec.toNat_setWidth,full]
    omega

theorem bitsToShiftMultiplier_toNat (proper : csr.Proper) :
    csr.bitsToShiftMultiplier.toNat = csr.multiplierShift := by
  have few := proper.bits_le
  have used := usedBits_toNat proper
  have full : csr.fullBitsToShiftMultiplier.toNat = (csr.bits + 48) % 64 := by
    have sixteen : (16 : BitVec 6).toNat = 16 := rfl
    simp only [fullBitsToShiftMultiplier,BitVec.toNat_sub,used,sixteen]
    omega
  have sign : csr.fullBitsToShiftMultiplier.slt 0 = true ↔ csr.bits < 16 := by
    have zero : (0 : BitVec 6).toInt = 0 := rfl
    rw [BitVec.slt_iff_toInt_lt,BitVec.toInt_eq_toNat_cond,full,zero]
    split <;> omega
  unfold bitsToShiftMultiplier multiplierShift
  by_cases short : csr.bits < 16
  · rw [if_pos (sign.mpr short)]
    simp
    omega
  · rw [if_neg (by rw [sign]; exact short),BitVec.toNat_setWidth,full]
    omega

theorem preShiftedMultiplier_toNat (proper : csr.Proper) :
    csr.preShiftedMultiplier.toNat = csr.multiplier.toNat / 2 ^ csr.multiplierShift := by
  have high : csr.multiplier.toNat < 2 ^ csr.bits := Nat.lt_log2_self
  have narrow : csr.multiplier.toNat / 2 ^ csr.multiplierShift < 2 ^ 16 := by
    rw [Nat.div_lt_iff_lt_mul (Nat.two_pow_pos _),← Nat.pow_add]
    refine high.trans_le (Nat.pow_le_pow_right (by decide) ?_)
    unfold multiplierShift
    omega
  rw [preShiftedMultiplier,BitVec.toNat_setWidth,BitVec.toNat_ushiftRight,bitsToShiftMultiplier_toNat proper,
    Nat.shiftRight_eq_div_pow,Nat.mod_eq_of_lt narrow]

/-- What the shifts before the multiplication leave for after it. -/
def restShift (csr : RescaleDownCsr) : Nat := csr.shift.toNat - csr.inputShift - csr.multiplierShift

theorem restShift_bounds (proper : csr.Proper) : 1 ≤ csr.restShift ∧ csr.restShift ≤ 23 := by
  have few := proper.bits_le
  have post := proper.postShift
  unfold restShift
  unfold inputShift multiplierShift at post ⊢
  omega

theorem postShift_toNat (proper : csr.Proper) (derives : csr.Derives) :
    csr.postShift.toNat = csr.restShift := by
  have input := bitsToShiftInput_toNat proper derives
  have multiplier := bitsToShiftMultiplier_toNat proper
  have high := proper.shiftHigh
  have post := proper.postShift
  obtain ⟨low,few⟩ := restShift_bounds proper
  unfold restShift at low few ⊢
  simp only [postShift,BitVec.toNat_setWidth,BitVec.toNat_sub,input,multiplier]
  omega

theorem thirtyOneMinusShifts_toNat (proper : csr.Proper) (derives : csr.Derives) :
    csr.thirtyOneMinusShifts.toNat = 31 - csr.inputShift - csr.multiplierShift := by
  have input := bitsToShiftInput_toNat proper derives
  have multiplier := bitsToShiftMultiplier_toNat proper
  have total := derives.total
  have all : (31 : BitVec 6).toNat = 31 := rfl
  simp only [thirtyOneMinusShifts,BitVec.toNat_setWidth,BitVec.toNat_sub,input,multiplier,all]
  omega

theorem thirtyOneMinusShifts_toInt (proper : csr.Proper) (derives : csr.Derives) :
    csr.thirtyOneMinusShifts.toInt = (31 - csr.inputShift - csr.multiplierShift : Nat) := by
  rw [BitVec.toInt_eq_toNat_of_lt,thirtyOneMinusShifts_toNat proper derives]
  rw [thirtyOneMinusShifts_toNat proper derives]
  omega

theorem fits_two_pow {n : Nat} (narrow : n ≤ 30) : Fits 32 (2 ^ n) := by
  have few : (2 : Int) ^ n ≤ 2 ^ 30 := pow_le_pow_right₀ (by decide) narrow
  have positive : (0 : Int) < 2 ^ n := pow_pos (by decide) n
  exact ⟨by omega,by omega⟩

theorem toInt_one_shift {n : Nat} (narrow : n ≤ 30) : (1 <<< n : BitVec 32).toInt = 2 ^ n := by
  rw [BitVec.natCast_eq_ofNat,BitVec.toInt_ofNat',Nat.shiftLeft_eq,Nat.one_mul]
  push_cast
  exact bmod_of_fits (w := 32) (fits_two_pow narrow)

/-- The golden model's account of the double rounding. -/
theorem account_toInt (proper : csr.Proper) (derives : csr.Derives) :
    csr.doubleRoundingAccount.toInt = 2 ^ (30 - csr.multiplierShift - csr.inputShift) := by
  have value := thirtyOneMinusShifts_toInt proper derives
  have amount := thirtyOneMinusShifts_toNat proper derives
  have total := derives.total
  have one : (1 : BitVec 6).toInt = 1 := rfl
  have several : (1 : BitVec 6).slt csr.thirtyOneMinusShifts = true := by
    rw [BitVec.slt_iff_toInt_lt,value,one]
    omega
  have less : (csr.thirtyOneMinusShifts - 1).toNat = 30 - csr.multiplierShift - csr.inputShift := by
    have unit : (1 : BitVec 6).toNat = 1 := rfl
    simp only [BitVec.toNat_sub,amount,unit]
    omega
  rw [doubleRoundingAccount,if_pos several,less]
  exact toInt_one_shift (by omega)

end RescaleDownCsr

namespace RescaleDownEfficientPE

variable {csr : RescaleDownCsr} {x : BitVec 32}

open RescaleDownCsr

def difference (csr : RescaleDownCsr) (x : BitVec 32) : Int := x.toInt - csr.inputZp.toInt

/-- The operands as the golden model has them. -/
def operand (csr : RescaleDownCsr) (x : BitVec 32) : Int := difference csr x / 2 ^ csr.inputShift

def factor (csr : RescaleDownCsr) : Int := (csr.multiplier.toNat / 2 ^ csr.multiplierShift : Nat)

/-- An element whose operand fits the 16 bits of its wire. -/
structure InRange (csr : RescaleDownCsr) (x : BitVec 32) : Prop where
  difference : Fits 32 (difference csr x)
  narrow : Fits 16 (operand csr x)

theorem zeroCompensated_toInt (range : InRange csr x) :
    (zeroCompensated csr x).toInt = difference csr x := by
  have left : (x.signExtend 32).toInt = x.toInt := toInt_widen x (by decide)
  have right : (csr.inputZp.signExtend 32).toInt = csr.inputZp.toInt := toInt_widen _ (by decide)
  rw [zeroCompensated,← BitVec.signExtend_eq_setWidth_of_le _ (Nat.le_max_left _ _)]
  exact toInt_cast (toInt_sub left right range.difference) range.difference

theorem preShifted_toInt (proper : csr.Proper) (derives : csr.Derives) (range : InRange csr x) :
    (preShifted csr x).toInt = operand csr x := by
  have quotient : ((zeroCompensated csr x).sshiftRight csr.bitsToShiftInput.toNat).toInt =
      operand csr x := by
    rw [toInt_shift,zeroCompensated_toInt range,bitsToShiftInput_toNat proper derives]
    rfl
  exact toInt_cast quotient range.narrow

theorem factor_bounds (proper : csr.Proper) : 0 ≤ factor csr ∧ factor csr < 2 ^ 16 := by
  have value := preShiftedMultiplier_toNat proper
  have narrow := csr.preShiftedMultiplier.isLt
  unfold factor
  omega

theorem product_bounds (proper : csr.Proper) (range : InRange csr x) :
    -2 ^ 31 ≤ operand csr x * factor csr ∧ operand csr x * factor csr < 2 ^ 31 := by
  obtain ⟨low,high⟩ := range.narrow
  obtain ⟨positive,few⟩ := factor_bounds proper
  constructor
  · calc (-2 ^ 31 : Int) ≤ -2 ^ 15 * factor csr := by omega
      _ ≤ _ := mul_le_mul_of_nonneg_right (by omega) positive
  · calc operand csr x * factor csr ≤ 2 ^ 15 * factor csr := mul_le_mul_of_nonneg_right (by omega) positive
      _ < 2 ^ 31 := by omega

theorem multiplied_toInt (proper : csr.Proper) (derives : csr.Derives) (range : InRange csr x) :
    (multiplied csr x).toInt = operand csr x * factor csr := by
  obtain ⟨low,high⟩ := product_bounds proper range
  have left := toInt_cast (v := 32) (preShifted_toInt proper derives range) (range.narrow.mono (by decide))
  have right : (csr.preShiftedMultiplier.setWidth 32).toInt = factor csr := by
    have narrow := csr.preShiftedMultiplier.isLt
    rw [toInt_setWidth ⟨by omega,by omega⟩,preShiftedMultiplier_toNat proper]
    rfl
  exact toInt_mul left right ⟨by omega,by omega⟩

/-- From here on the wires are as wide as the integers of the golden model. -/
theorem shifted_toInt (proper : csr.Proper) (derives : csr.Derives) (range : InRange csr x) :
    (shifted csr x).toInt = Golden.int32 (operand csr x * factor csr + 2 ^ (csr.restShift - 1)) := by
  obtain ⟨low,high⟩ := restShift_bounds proper
  have less : (csr.postShift - 1).toNat = csr.restShift - 1 := by
    have one : (1 : BitVec 5) ≤ csr.postShift :=
      BitVec.le_def.mpr ((postShift_toNat proper derives).symm ▸ low)
    rw [BitVec.toNat_sub_of_le one,postShift_toNat proper derives]
    rfl
  have one : (shiftedOne csr).toInt = 2 ^ (csr.restShift - 1) := by
    rw [shiftedOne,less]
    exact toInt_one_shift (by omega)
  rw [shifted,BitVec.toInt_add,multiplied_toInt proper derives range,one]
  rfl

/-- The golden model's value before its last shift. -/
def rounded (csr : RescaleDownCsr) (x : BitVec 32) : Int :=
  Golden.int32 (operand csr x * factor csr + 2 ^ (csr.restShift - 1))

def account (csr : RescaleDownCsr) : Int := 2 ^ (30 - csr.multiplierShift - csr.inputShift)

def approximate (csr : RescaleDownCsr) (x : BitVec 32) : Int :=
  if 31 - csr.multiplierShift - csr.inputShift < csr.restShift then
    (if 0 < operand csr x then Golden.int32 (rounded csr x + account csr)
      else Golden.int32 (rounded csr x - account csr))
  else rounded csr x

theorem golden_eq (proper : csr.Proper) (derives : csr.Derives) (range : InRange csr x) :
    Golden.postprocessingSimdGoldenModelV3 x.toInt csr.inputZp.toInt csr.outputZp.toInt
        csr.shift.toNat 127 (-128) true csr.multiplier.toNat =
      some (Golden.clip (Golden.int32 (approximate csr x / 2 ^ csr.restShift) + csr.outputZp.toInt)
        (-128) 127) := by
  obtain ⟨low,high⟩ := range.narrow
  obtain ⟨positive,few⟩ := factor_bounds proper
  obtain ⟨least,most⟩ := product_bounds proper range
  obtain ⟨some,short⟩ := restShift_bounds proper
  obtain ⟨input,multiplier⟩ := golden_shifts proper derives
  have total := derives.total
  have post := proper.postShift
  have left : Golden.int32 (operand csr x) = operand csr x :=
    Golden.int32_of_fits (range.narrow.mono (by decide))
  have right : Golden.int32 (factor csr) = factor csr := Golden.int32_of_fits ⟨by omega,by omega⟩
  have product : Golden.int32 (operand csr x * factor csr) = operand csr x * factor csr :=
    Golden.int32_of_fits ⟨by omega,by omega⟩
  have one : Golden.int32 (2 ^ (csr.restShift - 1)) = 2 ^ (csr.restShift - 1) :=
    Golden.int32_of_fits (fits_two_pow (by omega))
  have more : Golden.int32 (2 ^ (30 - csr.multiplierShift - csr.inputShift)) = account csr :=
    Golden.int32_of_fits (fits_two_pow (by omega))
  have first : (x.toInt - csr.inputZp.toInt) >>> csr.inputShift = operand csr x := shiftRight_eq _ _
  have second : ((csr.multiplier.toNat >>> csr.multiplierShift : Nat) : Int) = factor csr := by
    rw [Nat.shiftRight_eq_div_pow]
    rfl
  have rest : csr.shift.toNat - csr.inputShift - csr.multiplierShift = csr.restShift := rfl
  have raises : ¬ csr.shift.toNat ≤ csr.inputShift + csr.multiplierShift := by omega
  have negative : ¬ 30 < csr.inputShift + csr.multiplierShift := by omega
  simp only [Golden.postprocessingSimdGoldenModelV3,input,multiplier,first,second,rest,left,right,product,
    one,more,raises,negative,decide_false,Bool.and_false,Bool.false_eq_true,↓reduceIte,shiftRight_eq]
  unfold approximate rounded
  split <;> rfl

theorem scaled32_toInt (proper : csr.Proper) (derives : csr.Derives) (range : InRange csr x) :
    (scaled32 csr x).toInt = if 0 < difference csr x then Golden.int32 (rounded csr x + account csr)
      else Golden.int32 (rounded csr x - account csr) := by
  have value := shifted_toInt proper derives range
  have constant := account_toInt proper derives
  have sign : (0 : BitVec 32).slt (zeroCompensated csr x) = true ↔ 0 < difference csr x := by
    rw [BitVec.slt_iff_toInt_lt,zeroCompensated_toInt range]
    rfl
  unfold scaled32
  by_cases positive : 0 < difference csr x
  · rw [if_pos (sign.mpr positive),if_pos positive,BitVec.toInt_add,value,constant]
    rfl
  · rw [if_neg (by rw [sign]; exact positive),if_neg positive,BitVec.toInt_sub,value,constant]
    rfl

/-- For an operand of zero the last shift hides the account, whatever its sign. -/
theorem account_hidden (proper : csr.Proper) (long : 31 - csr.multiplierShift - csr.inputShift < csr.restShift)
    (derives : csr.Derives) (zero : operand csr x = 0) :
    Golden.int32 (rounded csr x + account csr) / 2 ^ csr.restShift = 0 ∧
      Golden.int32 (rounded csr x - account csr) / 2 ^ csr.restShift = 0 := by
  obtain ⟨low,high⟩ := restShift_bounds proper
  have total := derives.total
  obtain ⟨k,shift⟩ : ∃ k, csr.restShift = k + 1 := ⟨csr.restShift - 1,by omega⟩
  have some : (0 : Int) < account csr := pow_pos (by decide) _
  have few : account csr ≤ 2 ^ (k - 1) := pow_le_pow_right₀ (by decide) (by omega)
  have less : (2 : Int) ^ (k - 1) < 2 ^ k := pow_lt_pow_right₀ (by decide) (by omega)
  have large : (2 : Int) ^ k ≤ 2 ^ 22 := pow_le_pow_right₀ (by decide) (by omega)
  have constant : rounded csr x = 2 ^ k := by
    rw [rounded,zero,shift,Int.zero_mul,Int.zero_add,Nat.add_sub_cancel]
    exact Golden.int32_of_fits ⟨by omega,by omega⟩
  rw [constant,shift,Golden.int32_of_fits ⟨by omega,by omega⟩,Golden.int32_of_fits ⟨by omega,by omega⟩,
    pow_succ]
  exact ⟨Int.ediv_eq_zero_of_lt (by omega) (by omega),Int.ediv_eq_zero_of_lt (by omega) (by omega)⟩

/-- The unit decides on the whole difference, the golden model on its operand: where these
decide differently the operand is zero. -/
theorem correctShiftValue_quotient (proper : csr.Proper) (derives : csr.Derives) (range : InRange csr x) :
    (correctShiftValue csr x).toInt / 2 ^ csr.restShift = approximate csr x / 2 ^ csr.restShift := by
  obtain ⟨low,high⟩ := restShift_bounds proper
  have total := derives.total
  have compare : csr.thirtyOneMinusShifts.slt (csr.postShift.setWidth 6) = true ↔
      31 - csr.multiplierShift - csr.inputShift < csr.restShift := by
    have port : (csr.postShift.setWidth 6).toInt = csr.restShift := by
      have narrow := csr.postShift.isLt
      rw [toInt_setWidth ⟨by omega,by omega⟩,postShift_toNat proper derives]
    rw [BitVec.slt_iff_toInt_lt,thirtyOneMinusShifts_toInt proper derives,port]
    omega
  have floor : operand csr x = difference csr x / 2 ^ csr.inputShift := rfl
  have unit : (0 : Int) < 2 ^ csr.inputShift := pow_pos (by decide) _
  unfold correctShiftValue approximate
  by_cases long : 31 - csr.multiplierShift - csr.inputShift < csr.restShift
  · rw [if_pos (compare.mpr long),if_pos long,scaled32_toInt proper derives range]
    rcases lt_or_ge 0 (operand csr x) with up | down
    · have positive : 0 < difference csr x := by
        by_contra negative
        have below := Int.ediv_nonpos_of_nonpos_of_neg (Int.not_lt.mp negative) unit
        omega
      rw [if_pos positive,if_pos up]
    · rw [if_neg (Int.not_lt.mpr down)]
      by_cases positive : 0 < difference csr x
      · have zero : operand csr x = 0 := by
          have nonneg := Int.ediv_nonneg positive.le unit.le
          omega
        obtain ⟨more,fewer⟩ := account_hidden proper long derives zero
        rw [if_pos positive,more,fewer]
      · rw [if_neg positive]
  · rw [if_neg (by rw [compare]; exact long),if_neg long,shifted_toInt proper derives range]
    rfl

theorem approximate_fits (csr : RescaleDownCsr) (x : BitVec 32) : Fits 32 (approximate csr x) := by
  unfold approximate rounded
  split
  · split <;> exact fits_bmod 32 _
  · exact fits_bmod 32 _

theorem zeroCompensatedOut_toInt (proper : csr.Proper) (derives : csr.Derives) (range : InRange csr x) :
    (zeroCompensatedOut csr x).toInt =
      Golden.int32 (approximate csr x / 2 ^ csr.restShift) + csr.outputZp.toInt := by
  obtain ⟨low,high⟩ := restShift_bounds proper
  obtain ⟨negative,positive⟩ := proper.outputZp
  have quotient : ((correctShiftValue csr x).sshiftRight csr.postShift.toNat).toInt =
      approximate csr x / 2 ^ csr.restShift := by
    rw [toInt_shift,postShift_toNat proper derives,correctShiftValue_quotient proper derives range]
  have zero : ((csr.outputZp.setWidth 8).signExtend 32).toInt = csr.outputZp.toInt := by
    rw [toInt_widen _ (by decide),← BitVec.signExtend_eq_setWidth_of_le _ (by decide)]
    exact toInt_cast rfl proper.outputZp
  have half : Fits 31 (approximate csr x / 2 ^ csr.restShift) := by
    obtain ⟨k,shift⟩ : ∃ k, csr.restShift = k + 1 := ⟨csr.restShift - 1,by omega⟩
    obtain ⟨least,most⟩ := approximate_fits csr x
    have first : Fits 31 (approximate csr x / 2) := ⟨by omega,by omega⟩
    rw [shift,pow_succ',← Int.ediv_ediv_of_nonneg (by decide)]
    exact fits_shift first k
  rw [Golden.int32_of_fits (half.mono (by decide))]
  obtain ⟨least,most⟩ := half
  exact toInt_add quotient zero ⟨by omega,by omega⟩

theorem dataOut_toInt (proper : csr.Proper) (derives : csr.Derives) (range : InRange csr x) :
    (dataOut csr x 8).toInt =
      Golden.clip (Golden.int32 (approximate csr x / 2 ^ csr.restShift) + csr.outputZp.toInt) (-128) 127 := by
  rw [← zeroCompensatedOut_toInt proper derives range]
  exact Golden.toInt_saturated _

/-- The unit gives the golden result where both derive the same shift amounts, those fit the
wires and the shifted difference fits its 16 bits. -/
theorem rescale_down_efficient (proper : csr.Proper) (derives : csr.Derives) (range : InRange csr x) :
    Golden.postprocessingSimdGoldenModelV3 x.toInt csr.inputZp.toInt csr.outputZp.toInt
        csr.shift.toNat 127 (-128) true csr.multiplier.toNat = some (dataOut csr x 8).toInt := by
  rw [golden_eq proper derives range,dataOut_toInt proper derives range]

/-- A factor of five divided by `2 ^ 12`, with operands and multiplier shifted. -/
def fiveParts : RescaleDownCsr := ⟨0,1342177280,0,40,0⟩

theorem fiveParts_proper : fiveParts.Proper :=
  ⟨by decide,by decide,by decide,by decide,by decide,by decide,by decide⟩

theorem fiveParts_derives : fiveParts.Derives := by
  refine ⟨.inl fun ⟨k,power⟩ => ?_,by decide⟩
  have exponent : Nat.log2 fiveParts.multiplier.toNat = k := by rw [power,Nat.log2_two_pow]
  rw [← exponent] at power
  exact absurd power (by decide)

theorem rescale_down_efficient_fiveParts :
    Golden.postprocessingSimdGoldenModelV3 (100000 : BitVec 32).toInt 0 0 40 127 (-128) true
      fiveParts.multiplier.toNat = some (dataOut fiveParts (100000 : BitVec 32) 8).toInt :=
  rescale_down_efficient fiveParts_proper fiveParts_derives ⟨by decide,by decide⟩

/-- A power of two, of whose operands the unit loses one bit more. -/
def powerOfTwo : RescaleDownCsr := ⟨0,64,0,38,0⟩

theorem rescale_down_efficient_powerOfTwo : ¬ ∀ (csr : RescaleDownCsr) (x : BitVec 32), csr.Proper →
    Fits 32 (difference csr x) →
    Golden.postprocessingSimdGoldenModelV3 x.toInt csr.inputZp.toInt csr.outputZp.toInt
      csr.shift.toNat 127 (-128) true csr.multiplier.toNat = some (dataOut csr x 8).toInt := by
  intro claimed
  have proper : powerOfTwo.Proper :=
    ⟨by decide,by decide,by decide,by decide,by decide,by decide,by decide⟩
  have values := claimed powerOfTwo (BitVec.ofInt 32 (-127 * 2 ^ 24)) proper (by decide)
  exact absurd values (by decide)

end RescaleDownEfficientPE
end Snax
