import Mathlib.Algebra.Order.Ring.Abs
import Mathlib.Algebra.Order.Ring.Int
import Mathlib.Data.BitVec
import Mathlib.Tactic.Linarith
import Mathlib.Tactic.Ring

/-! Signed wires of a fixed width, read as integers. An operation whose result fits its wire
is the operation on integers; where it does not fit, the wire carries the result modulo the
power of two. -/
namespace Sync.Wire

/-- A number that a signed wire of `w` bits can carry. -/
def Fits (w : Nat) (x : Int) : Prop := -2 ^ w ≤ 2 * x ∧ 2 * x < 2 ^ w

instance (w : Nat) (x : Int) : Decidable (Fits w x) := inferInstanceAs (Decidable (_ ∧ _))

variable {w v : Nat} {x y : Int}

theorem fits_toInt (x : BitVec w) : Fits w x.toInt := ⟨x.le_two_mul_toInt,x.two_mul_toInt_lt⟩

theorem Fits.mono (fits : Fits w x) (wider : w ≤ v) : Fits v x := by
  have room : (2 : Int) ^ w ≤ 2 ^ v := pow_le_pow_right₀ (by decide) wider
  exact ⟨(Int.neg_le_neg room).trans fits.1,fits.2.trans_le room⟩

theorem Fits.mul (xFits : Fits w x) (yFits : Fits v y) : Fits (w + v) (x * y) := by
  have left : |2 * x| ≤ 2 ^ w := abs_le.mpr ⟨xFits.1,xFits.2.le⟩
  have right : |2 * y| ≤ 2 ^ v := abs_le.mpr ⟨yFits.1,yFits.2.le⟩
  have both : |2 * (2 * (x * y))| ≤ 2 ^ (w + v) := by
    rw [show 2 * (2 * (x * y)) = 2 * x * (2 * y) by ring,abs_mul,pow_add]
    exact mul_le_mul left right (abs_nonneg _) (pow_nonneg (by decide) w)
  have positive : (0 : Int) < 2 ^ (w + v) := pow_pos (by decide) _
  obtain ⟨low,high⟩ := abs_le.mp both
  exact ⟨by linarith,by linarith⟩

theorem bmod_of_fits (fits : Fits w x) : x.bmod (2 ^ w) = x := by
  apply Int.bmod_eq_of_le_mul_two
  · rw [Int.mul_comm]
    exact_mod_cast fits.1
  · rw [Int.mul_comm]
    exact_mod_cast fits.2

/-- What a wire carries of a number fits it. -/
theorem fits_bmod (w : Nat) (x : Int) : Fits w (x.bmod (2 ^ w)) := by
  rw [← BitVec.toInt_ofInt]
  exact fits_toInt _

/-- A number that fits is not what the wire carries of a slightly smaller one. -/
theorem bmod_sub_ne {lost : Int} (positive : 0 < lost) (small : lost < 2 ^ w) (x : Int) :
    (x - lost).bmod (2 ^ w) ≠ x := by
  intro same
  have divides : ((2 ^ w : Nat) : Int) ∣ x - lost - (x - lost).bmod (2 ^ w) := Int.dvd_self_sub_bmod
  rw [same,show x - lost - x = -lost by omega,Int.dvd_neg] at divides
  have large := Int.le_of_dvd positive divides
  push_cast at large
  exact absurd small (Int.not_lt.mpr large)

/-- A wire connected to one of another width. -/
theorem toInt_cast {x : BitVec w} {a : Int} (value : x.toInt = a) (fits : Fits v a) :
    (x.signExtend v).toInt = a := by
  subst value
  rw [BitVec.toInt_signExtend]
  rcases Nat.le_total v w with narrow | wide
  · rw [Nat.min_eq_left narrow,bmod_of_fits fits]
  · rw [Nat.min_eq_right wide,bmod_of_fits (fits_toInt x)]

theorem toInt_widen (x : BitVec w) (wider : w ≤ v) : (x.signExtend v).toInt = x.toInt :=
  toInt_cast rfl ((fits_toInt x).mono wider)

theorem toInt_add {x y : BitVec w} {a b : Int} (left : x.toInt = a) (right : y.toInt = b)
    (fits : Fits w (a + b)) : (x + y).toInt = a + b := by
  rw [BitVec.toInt_add,left,right,bmod_of_fits fits]

theorem toInt_sub {x y : BitVec w} {a b : Int} (left : x.toInt = a) (right : y.toInt = b)
    (fits : Fits w (a - b)) : (x - y).toInt = a - b := by
  rw [BitVec.toInt_sub,left,right,bmod_of_fits fits]

theorem toInt_mul {x y : BitVec w} {a b : Int} (left : x.toInt = a) (right : y.toInt = b)
    (fits : Fits w (a * b)) : (x * y).toInt = a * b := by
  rw [BitVec.toInt_mul,left,right,bmod_of_fits fits]

/-- An unsigned wire read as a signed one of more bits. -/
theorem toInt_setWidth {x : BitVec w} (fits : Fits v (x.toNat : Int)) :
    (x.setWidth v).toInt = x.toNat := by
  rw [BitVec.toInt_setWidth,bmod_of_fits fits]

theorem extract_eq_signExtend (x : BitVec w) (narrow : v ≤ w) : x.extractLsb' 0 v = x.signExtend v := by
  rw [BitVec.signExtend_eq_setWidth_of_le _ narrow,BitVec.setWidth_eq_extractLsb' narrow]

theorem shiftRight_eq (x : Int) (n : Nat) : x >>> n = x / 2 ^ n := by
  rw [Int.shiftRight_eq_div_pow]
  push_cast
  rfl

/-- The shift of a wire rounds towards minus infinity. -/
theorem toInt_shift (x : BitVec w) (n : Nat) : (x.sshiftRight n).toInt = x.toInt / 2 ^ n := by
  rw [BitVec.toInt_sshiftRight,shiftRight_eq]

theorem fits_shift (fits : Fits w x) (n : Nat) : Fits w (x / 2 ^ n) := by
  have shifted := fits_toInt ((BitVec.ofInt w x).sshiftRight n)
  rwa [toInt_shift,BitVec.toInt_ofInt,bmod_of_fits fits] at shifted

end Sync.Wire
