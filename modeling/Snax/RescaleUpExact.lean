import Snax.RescaleGolden
import Snax.RescaleUp

/-! `RescaleUpPE` from 8 to 32 bits against its golden model. The wire behind the rounding is a
bit narrower than the product, and the rounding constant is cut to it: the result is the
golden one exactly while neither shows. -/
namespace Snax.RescaleUpPE

open Sync.Wire

variable {csr : RescaleUpCsr} {x : BitVec 8}

def exactProduct (csr : RescaleUpCsr) (x : BitVec 8) : Int :=
  (x.toInt - csr.inputZp.toInt) * csr.multiplier.toNat

def exactRounded (csr : RescaleUpCsr) (x : BitVec 8) : Int :=
  exactProduct csr x + 2 ^ (csr.shift.toNat - 1)

/-- The rescaled element. -/
def exact (csr : RescaleUpCsr) (x : BitVec 8) : Int :=
  exactRounded csr x / 2 ^ csr.shift.toNat + csr.outputZp.toInt

/-- A configuration whose result on an element is to be the exact one. -/
structure InRange (csr : RescaleUpCsr) (x : BitVec 8) : Prop where
  inputZp : Fits 8 csr.inputZp.toInt
  multiplier : csr.multiplier.toNat < 2 ^ 31
  shiftLow : 2 ≤ csr.shift.toNat
  shiftHigh : csr.shift.toNat ≤ 62
  result : Fits 32 (exact csr x)

/-- The rounded product stays below the sign of its wire, and where the rounding constant is
cut from the wire altogether the product does not need it. -/
def KeepsRounding (csr : RescaleUpCsr) (x : BitVec 8) : Prop :=
  if csr.shift.toNat ≤ 40 then exactRounded csr x < 2 ^ 39 else 0 ≤ exactProduct csr x

instance (csr : RescaleUpCsr) (x : BitVec 8) : Decidable (KeepsRounding csr x) :=
  inferInstanceAs (Decidable (if csr.shift.toNat ≤ 40 then _ < (2 : Int) ^ 39 else (0 : Int) ≤ _))

theorem difference_bounds (range : InRange csr x) :
    -255 ≤ x.toInt - csr.inputZp.toInt ∧ x.toInt - csr.inputZp.toInt ≤ 255 := by
  obtain ⟨low,high⟩ := fits_toInt x
  obtain ⟨zpLow,zpHigh⟩ := range.inputZp
  omega

theorem product_bounds (range : InRange csr x) :
    -(255 * (2 ^ 31 - 1)) ≤ exactProduct csr x ∧ exactProduct csr x ≤ 255 * (2 ^ 31 - 1) := by
  obtain ⟨low,high⟩ := difference_bounds range
  have few : (csr.multiplier.toNat : Int) < 2 ^ 31 := by exact_mod_cast range.multiplier
  have some : (0 : Int) ≤ csr.multiplier.toNat := Int.natCast_nonneg _
  unfold exactProduct
  constructor
  · calc -(255 * (2 ^ 31 - 1)) ≤ -255 * (csr.multiplier.toNat : Int) := by omega
      _ ≤ _ := mul_le_mul_of_nonneg_right low some
  · calc _ ≤ 255 * (csr.multiplier.toNat : Int) := mul_le_mul_of_nonneg_right high some
      _ ≤ 255 * (2 ^ 31 - 1) := by omega

theorem fits_product (range : InRange csr x) : Fits 40 (exactProduct csr x) := by
  obtain ⟨low,high⟩ := product_bounds range
  exact ⟨by omega,by omega⟩

theorem multiplied_toInt (range : InRange csr x) : (multiplied csr x).toInt = exactProduct csr x := by
  obtain ⟨low,high⟩ := difference_bounds range
  have left : (x.signExtend 32).toInt = x.toInt := toInt_widen x (by decide)
  have right : (csr.inputZp.signExtend 32).toInt = csr.inputZp.toInt := toInt_widen _ (by decide)
  have difference := toInt_sub left right ⟨by omega,by omega⟩
  have small : Fits 9 (x.toInt - csr.inputZp.toInt) := ⟨by omega,by omega⟩
  have cut := toInt_cast (v := 9) difference small
  have wide := toInt_cast (v := 41) cut (small.mono (by decide))
  have positive : Fits 41 (csr.multiplier.toNat : Int) := by
    have few : (csr.multiplier.toNat : Int) < 2 ^ 31 := by exact_mod_cast range.multiplier
    exact ⟨by omega,by omega⟩
  exact toInt_mul wide (toInt_setWidth positive) ((fits_product range).mono (by decide))

theorem shift_port (range : InRange csr x) : (csr.shift.setWidth 6).toNat = csr.shift.toNat := by
  have high := range.shiftHigh
  rw [BitVec.toNat_setWidth,Nat.mod_eq_of_lt (by omega)]

/-- The wire behind the rounding carries the rounded product modulo its width. -/
theorem shifted_toInt (range : InRange csr x) :
    (shifted csr x).toInt = (exactRounded csr x).bmod (2 ^ 40) / 2 ^ csr.shift.toNat := by
  have low := range.shiftLow
  have product : ((multiplied csr x).setWidth 40).toInt = exactProduct csr x := by
    rw [← BitVec.signExtend_eq_setWidth_of_le _ (by decide)]
    exact toInt_cast (multiplied_toInt range) (fits_product range)
  have less : (csr.shift.setWidth 6 - 1).toNat = csr.shift.toNat - 1 := by
    have one : (1 : BitVec 6) ≤ csr.shift.setWidth 6 :=
      BitVec.le_def.mpr ((shift_port range).symm ▸ (by omega : 1 ≤ csr.shift.toNat))
    rw [BitVec.toNat_sub_of_le one,shift_port range]
    rfl
  have one : (shiftedOne csr (w := 8)).toInt = ((2 : Int) ^ (csr.shift.toNat - 1)).bmod (2 ^ 40) := by
    rw [shiftedOne,less,BitVec.natCast_eq_ofNat,BitVec.toInt_ofNat',Nat.shiftLeft_eq,Nat.one_mul]
    norm_cast
  rw [shifted,toInt_shift,BitVec.toInt_add,product,one,Int.add_bmod_bmod,shift_port range]
  rfl

theorem dataOut_toInt (range : InRange csr x) : (dataOut 32 csr x).toInt =
    ((exactRounded csr x).bmod (2 ^ 40) / 2 ^ csr.shift.toNat + csr.outputZp.toInt).bmod (2 ^ 32) := by
  have cut : ((shifted csr x).signExtend 32).toInt = (shifted csr x).toInt.bmod (2 ^ 32) :=
    BitVec.toInt_signExtend_eq_toInt_bmod_of_le _ (by decide)
  rw [dataOut,BitVec.toInt_add,cut,toInt_widen _ (Nat.le_refl 32),Int.bmod_add_bmod,shifted_toInt range]

/-- Whether what the narrow wire carries still gives the exact quotient. -/
theorem wrapped_quotient (range : InRange csr x) :
    ((exactRounded csr x).bmod (2 ^ 40) / 2 ^ csr.shift.toNat =
      exactRounded csr x / 2 ^ csr.shift.toNat ∧ KeepsRounding csr x) ∨
    ∃ lost : Int, (exactRounded csr x).bmod (2 ^ 40) / 2 ^ csr.shift.toNat =
      exactRounded csr x / 2 ^ csr.shift.toNat - lost ∧ 1 ≤ lost ∧ lost ≤ 128 ∧
      ¬ KeepsRounding csr x := by
  obtain ⟨low,high⟩ := product_bounds range
  have shiftLow := range.shiftLow
  obtain ⟨k,shift⟩ : ∃ k, csr.shift.toNat = k + 1 := ⟨csr.shift.toNat - 1,by omega⟩
  have rounded : exactRounded csr x = exactProduct csr x + 2 ^ k := by rw [exactRounded,shift]; rfl
  have power : (0 : Int) < 2 ^ k := pow_pos (by decide) k
  by_cases short : csr.shift.toNat ≤ 40
  · have constant : (2 : Int) ^ k ≤ 2 ^ 39 := pow_le_pow_right₀ (by decide) (by omega)
    by_cases below : exactRounded csr x < 2 ^ 39
    · refine .inl ⟨?_,by rwa [KeepsRounding,if_pos short]⟩
      rw [bmod_of_fits (w := 40) ⟨by omega,by omega⟩]
    · obtain ⟨rest,split⟩ : ∃ rest, 40 = rest + csr.shift.toNat := ⟨40 - csr.shift.toNat,by omega⟩
      have wraps : (exactRounded csr x).bmod (2 ^ 40) =
          exactRounded csr x + -(2 ^ rest) * 2 ^ csr.shift.toNat := by
        have inside : Fits 40 (exactRounded csr x - 2 ^ 40) := ⟨by omega,by omega⟩
        have same : (exactRounded csr x).bmod (2 ^ 40) = (exactRounded csr x - 2 ^ 40).bmod (2 ^ 40) := by
          have period := Int.sub_mul_bmod_self_left (exactRounded csr x) (2 ^ 40) 1
          simpa using period.symm
        rw [same,bmod_of_fits inside,Int.neg_mul,← pow_add,← split]
        rfl
      have few : rest ≤ 7 := by
        by_contra more
        have : (2 : Int) ^ k ≤ 2 ^ 31 := pow_le_pow_right₀ (by decide) (by omega)
        omega
      refine .inr ⟨2 ^ rest,?_,one_le_pow₀ (by decide),?_,by rwa [KeepsRounding,if_pos short]⟩
      · rw [wraps,Int.add_mul_ediv_right _ _ (pow_ne_zero _ (by decide))]
        rfl
      · calc (2 : Int) ^ rest ≤ 2 ^ 7 := pow_le_pow_right₀ (by decide) few
          _ = 128 := rfl
  · have constant : (2 : Int) ^ 40 ≤ 2 ^ k := pow_le_pow_right₀ (by decide) (by omega)
    have cut : (exactRounded csr x).bmod (2 ^ 40) = exactProduct csr x := by
      obtain ⟨more,split⟩ : ∃ more, k = 40 + more := ⟨k - 40,by omega⟩
      rw [rounded,split,pow_add]
      have period := Int.add_mul_bmod_self_left (exactProduct csr x) (2 ^ 40) (2 ^ more)
      have fits := bmod_of_fits (fits_product range)
      rw [fits] at period
      exact_mod_cast period
    have whole : exactRounded csr x / 2 ^ csr.shift.toNat = 0 := by
      rw [rounded,shift]
      exact Int.ediv_eq_zero_of_lt (by omega) (by rw [pow_succ]; omega)
    have keeps : KeepsRounding csr x ↔ 0 ≤ exactProduct csr x := by rw [KeepsRounding,if_neg short]
    rw [cut,whole,keeps,shift]
    by_cases positive : 0 ≤ exactProduct csr x
    · exact .inl ⟨Int.ediv_eq_zero_of_lt positive (by rw [pow_succ]; omega),positive⟩
    · refine .inr ⟨1,?_,le_refl _,by decide,positive⟩
      rw [Int.ediv_eq_iff_of_pos (by positivity)]
      rw [pow_succ]
      omega

/-- The unit gives the exact result when no wire cuts the rounding, and only then. -/
theorem dataOut_iff (range : InRange csr x) : (dataOut 32 csr x).toInt = exact csr x ↔ KeepsRounding csr x := by
  have whole := bmod_of_fits range.result
  rw [dataOut_toInt range]
  rcases wrapped_quotient range with ⟨same,keeps⟩ | ⟨lost,differs,some,few,fails⟩
  · rw [same]
    exact iff_of_true whole keeps
  · refine iff_of_false (fun equal => ?_) fails
    have gap : exactRounded csr x / 2 ^ csr.shift.toNat - lost + csr.outputZp.toInt =
        exact csr x - lost := by
      unfold exact
      omega
    rw [differs,gap] at equal
    exact bmod_sub_ne (by omega) (by omega) _ equal

theorem golden_eq_exact (range : InRange csr x) :
    Golden.goldenModelRescaleUp x.toInt csr.inputZp.toInt csr.outputZp.toInt csr.shift.toNat
      (2 ^ 31 - 1) (-2 ^ 31) csr.multiplier.toNat = exact csr x := by
  obtain ⟨low,high⟩ := difference_bounds range
  obtain ⟨productLow,productHigh⟩ := product_bounds range
  have few : (csr.multiplier.toNat : Int) < 2 ^ 31 := by exact_mod_cast range.multiplier
  have shiftHigh := range.shiftHigh
  have constant : (2 : Int) ^ (csr.shift.toNat - 1) ≤ 2 ^ 61 := pow_le_pow_right₀ (by decide) (by omega)
  have power : (0 : Int) < 2 ^ (csr.shift.toNat - 1) := pow_pos (by decide) _
  have sum : Golden.int32 (Golden.int32 (exactRounded csr x / 2 ^ csr.shift.toNat) +
      Golden.int32 csr.outputZp.toInt) = exact csr x := by
    rw [Golden.int32_add]
    exact Golden.int32_of_fits range.result
  have difference : Golden.int64 (x.toInt - csr.inputZp.toInt) = x.toInt - csr.inputZp.toInt :=
    Golden.int64_of_fits ⟨by omega,by omega⟩
  have factor : Golden.int64 csr.multiplier.toNat = csr.multiplier.toNat :=
    Golden.int64_of_fits ⟨by omega,by omega⟩
  have product : Golden.int64 (exactProduct csr x) = exactProduct csr x :=
    Golden.int64_of_fits ⟨by omega,by omega⟩
  have one : Golden.int64 (2 ^ (csr.shift.toNat - 1)) = 2 ^ (csr.shift.toNat - 1) :=
    Golden.int64_of_fits ⟨by omega,by omega⟩
  have rounded : Golden.int64 (exactRounded csr x) = exactRounded csr x := by
    rw [exactRounded]
    exact Golden.int64_of_fits ⟨by linarith,by linarith⟩
  obtain ⟨small,large⟩ := range.result
  simp only [Golden.goldenModelRescaleUp,difference,factor]
  rw [← exactProduct,product,one,← exactRounded,rounded,shiftRight_eq,sum,Golden.clip]
  omega

/-- The golden model is the exact rescale, and the unit agrees with it exactly while the narrow
wire shows neither in the sign nor in the rounding constant. -/
theorem rescale_up_pe (csr : RescaleUpCsr) (x : BitVec 8) (range : InRange csr x) :
    Golden.goldenModelRescaleUp x.toInt csr.inputZp.toInt csr.outputZp.toInt csr.shift.toNat
        (2 ^ 31 - 1) (-2 ^ 31) csr.multiplier.toNat = exact csr x ∧
      ((dataOut 32 csr x).toInt =
          Golden.goldenModelRescaleUp x.toInt csr.inputZp.toInt csr.outputZp.toInt
            csr.shift.toNat (2 ^ 31 - 1) (-2 ^ 31) csr.multiplier.toNat ↔
        KeepsRounding csr x) := by
  rw [golden_eq_exact range]
  exact ⟨rfl,dataOut_iff range⟩

/-- Scaling by a small fraction, as 31 bits of multiplier and a shift of 41 write it. -/
def smallScale : RescaleUpCsr := ⟨0,2 ^ 30,0,41⟩

theorem smallScale_inRange (x : BitVec 8) (fits : Fits 32 (exact smallScale x)) : InRange smallScale x :=
  ⟨by decide,by decide,by decide,by decide,fits⟩

theorem rescale_up_pe_smallScale : (dataOut 32 smallScale (1 : BitVec 8)).toInt = 0 :=
  ((rescale_up_pe smallScale 1 (smallScale_inRange 1 (by decide))).2.mpr (by decide)).trans (by decide)

/-- A small negative element comes out as -1 and not as 0. -/
theorem rescale_up_pe_negative : ¬ ∀ csr x, InRange csr x → (dataOut 32 csr x).toInt =
    Golden.goldenModelRescaleUp x.toInt csr.inputZp.toInt csr.outputZp.toInt csr.shift.toNat
      (2 ^ 31 - 1) (-2 ^ 31) csr.multiplier.toNat := by
  intro all
  have wrong := all smallScale (-1) (smallScale_inRange _ (by decide))
  revert wrong
  decide

end Snax.RescaleUpPE
