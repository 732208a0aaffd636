import Mathlib.Algebra.Order.Field.Power
import Mathlib.Algebra.Order.Field.Rat
import Mathlib.Algebra.Order.Ring.Int
import Mathlib.Tactic.Linarith
import Mathlib.Tactic.Positivity
import Mathlib.Tactic.Ring

/-! Numbers with a bounded count of binary digits, and rounding to the nearest of them, where a
tie goes to the number whose last digit is even. -/
namespace Sync

/-- A binary format, without an upper bound on its exponents. -/
structure Format where
  precision : Nat
  /-- The exponent of the last digit of the smallest numbers. -/
  minExponent : Int

namespace Format

variable (f : Format)

def Representable (z : ℚ) : Prop :=
  ∃ m e : ℤ, |m| < 2 ^ f.precision ∧ f.minExponent ≤ e ∧ z = m * 2 ^ e

/-- The last digit is zero, so that the number does without it. -/
def Even (z : ℚ) : Prop := Representable ⟨f.precision - 1,f.minExponent + 1⟩ z

/-- `r` is `x` rounded to the nearest number of the format, ties to even. -/
structure NearestEven (x r : ℚ) : Prop where
  representable : f.Representable r
  nearest : ∀ z, f.Representable z → |x - r| ≤ |x - z|
  even : ∀ z, f.Representable z → z ≠ r → |x - z| = |x - r| → f.Even r

variable {f} {x y z r s low high : ℚ} {q : Nat} {k : ℤ}

/-! ### Signs and order -/

theorem representable_neg (representable : f.Representable z) : f.Representable (-z) := by
  obtain ⟨m,e,digits,small,rfl⟩ := representable
  exact ⟨-m,e,(abs_neg m).trans_lt digits,small,by rw [Int.cast_neg,neg_mul]⟩

theorem nearestEven_neg (rounded : f.NearestEven x r) : f.NearestEven (-x) (-r) := by
  have mirrored (z : ℚ) : |-x - z| = |x - -z| := by
    rw [← abs_neg]
    congr 1
    ring
  refine ⟨representable_neg rounded.representable,fun z representable => ?_,
    fun z representable other same => ?_⟩
  · rw [mirrored,mirrored,neg_neg]
    exact rounded.nearest _ (representable_neg representable)
  · rw [mirrored,mirrored,neg_neg] at same
    refine representable_neg (rounded.even _ (representable_neg representable) ?_ same)
    exact fun back => other (neg_eq_iff_eq_neg.mp back)

theorem nearestEven_neg_iff : f.NearestEven (-x) r ↔ f.NearestEven x (-r) :=
  ⟨fun rounded => neg_neg x ▸ nearestEven_neg rounded,fun rounded => neg_neg r ▸ nearestEven_neg rounded⟩

theorem representable_zero : f.Representable 0 :=
  ⟨0,f.minExponent,by rw [abs_zero]; positivity,le_refl _,by rw [Int.cast_zero,zero_mul]⟩

theorem nearestEven_zero_iff : f.NearestEven 0 r ↔ r = 0 := by
  constructor
  · intro rounded
    have near := rounded.nearest 0 representable_zero
    rw [sub_zero,abs_zero,zero_sub,abs_neg] at near
    exact abs_eq_zero.mp (le_antisymm near (abs_nonneg r))
  · rintro rfl
    exact ⟨representable_zero,fun z _ => by rw [sub_zero,abs_zero]; exact abs_nonneg _,
      fun _ _ _ _ => representable_zero⟩

/-- Rounding keeps the order. -/
theorem nearestEven_mono (less : x < y) (first : f.NearestEven x r) (second : f.NearestEven y s) :
    r ≤ s := by
  by_contra! crossed
  have left := first.nearest s second.representable
  have right := second.nearest r first.representable
  rw [← sq_le_sq] at left right
  nlinarith

/-! ### Neighbours -/

/-- Two numbers of the format with none between them. -/
structure Neighbours (f : Format) (low high : ℚ) : Prop where
  less : low < high
  lower : f.Representable low
  upper : f.Representable high
  gap : ∀ z, f.Representable z → z ≤ low ∨ high ≤ z

/-- Between neighbours the nearer one is the rounded number, and in their middle the even one. -/
theorem Neighbours.nearestEven_iff (pair : Neighbours f low high) (above : low ≤ x) (below : x ≤ high) :
    f.NearestEven x r ↔ r = low ∧ (2 * x < low + high ∨ 2 * x = low + high ∧ f.Even low) ∨
      r = high ∧ (low + high < 2 * x ∨ 2 * x = low + high ∧ f.Even high) := by
  have less := pair.less
  have toLow : |x - low| = x - low := abs_of_nonneg (sub_nonneg.mpr above)
  have toHigh : |x - high| = high - x := by
    rw [abs_sub_comm]
    exact abs_of_nonneg (sub_nonneg.mpr below)
  have outside (z : ℚ) (representable : f.Representable z) :
      z ≤ low ∧ |x - z| = x - z ∨ high ≤ z ∧ |x - z| = z - x := by
    rcases pair.gap z representable with left | right
    · exact .inl ⟨left,abs_of_nonneg (by linarith)⟩
    · refine .inr ⟨right,?_⟩
      rw [abs_sub_comm]
      exact abs_of_nonneg (by linarith)
  constructor
  · intro rounded
    have nearLow := rounded.nearest low pair.lower
    have nearHigh := rounded.nearest high pair.upper
    rcases outside r rounded.representable with ⟨left,distance⟩ | ⟨right,distance⟩
    · obtain rfl : r = low := by linarith
      refine .inl ⟨rfl,?_⟩
      rcases lt_or_eq_of_le (show 2 * x ≤ r + high by linarith) with closer | middle
      · exact .inl closer
      · exact .inr ⟨middle,rounded.even high pair.upper less.ne' (by linarith)⟩
    · obtain rfl : r = high := by linarith
      refine .inr ⟨rfl,?_⟩
      rcases lt_or_eq_of_le (show low + r ≤ 2 * x by linarith) with closer | middle
      · exact .inl closer
      · exact .inr ⟨middle.symm,rounded.even low pair.lower less.ne (by linarith)⟩
  · rintro (⟨rfl,near⟩ | ⟨rfl,near⟩)
    · refine ⟨pair.lower,fun z representable => ?_,fun z representable other same => ?_⟩
      · rcases outside z representable with ⟨_,distance⟩ | ⟨_,distance⟩ <;>
          rcases near with closer | ⟨middle,_⟩ <;> linarith
      · rcases near with closer | ⟨_,even⟩
        · rcases outside z representable with ⟨_,distance⟩ | ⟨_,distance⟩
          · exact absurd (by linarith) other
          · linarith
        · exact even
    · refine ⟨pair.upper,fun z representable => ?_,fun z representable other same => ?_⟩
      · rcases outside z representable with ⟨_,distance⟩ | ⟨_,distance⟩ <;>
          rcases near with closer | ⟨middle,_⟩ <;> linarith
      · rcases near with closer | ⟨_,even⟩
        · rcases outside z representable with ⟨_,distance⟩ | ⟨_,distance⟩
          · linarith
          · exact absurd (by linarith) other
        · exact even

/-! ### Numbers with all their digits -/

theorem representable_of_le (digits : q ≤ 2 ^ f.precision) (some : 0 < f.precision)
    (small : f.minExponent ≤ k) : f.Representable (q * 2 ^ k) := by
  rcases Nat.lt_or_eq_of_le digits with fits | carries
  · refine ⟨q,k,?_,small,rfl⟩
    rw [Nat.abs_cast]
    exact_mod_cast fits
  · -- The carry out of the digits leaves a single one.
    refine ⟨1,k + f.precision,?_,by omega,?_⟩
    · rw [abs_one]
      exact one_lt_pow₀ (by norm_num) some.ne'
    · rw [carries,zpow_add₀ two_ne_zero,zpow_natCast]
      push_cast
      ring

theorem even_of_even (even : q % 2 = 0) (digits : q ≤ 2 ^ f.precision) (several : 2 ≤ f.precision)
    (small : f.minExponent ≤ k) : f.Even (q * 2 ^ k) := by
  obtain ⟨h,rfl⟩ := Nat.dvd_of_mod_eq_zero even
  have half : ((2 * h : Nat) : ℚ) * 2 ^ k = h * 2 ^ (k + 1) := by
    rw [zpow_add_one₀ two_ne_zero]
    push_cast
    ring
  have split : 2 ^ f.precision = 2 * 2 ^ (f.precision - 1) := by
    rw [← pow_succ',Nat.sub_add_cancel (by omega)]
  rw [half]
  refine representable_of_le ?_ (Nat.sub_pos_of_lt several) (Int.add_le_add_right small 1)
  exact Nat.le_of_mul_le_mul_left (split ▸ digits) two_pos

theorem mul_zpow_lt {m e : ℤ} {n d : Nat} (digits : |m| < 2 ^ n) (full : 2 ^ d ≤ q)
    (fine : e + n ≤ k + d) : (m : ℚ) * 2 ^ e < q * 2 ^ k := by
  have bounded : (m : ℚ) < 2 ^ n := by exact_mod_cast (le_abs_self m).trans_lt digits
  calc (m : ℚ) * 2 ^ e < 2 ^ n * 2 ^ e := mul_lt_mul_of_pos_right bounded (by positivity)
    _ = 2 ^ (e + n) := by rw [zpow_add₀ two_ne_zero,zpow_natCast,mul_comm]
    _ ≤ 2 ^ (k + d) := zpow_le_zpow_right₀ one_le_two fine
    _ = 2 ^ d * 2 ^ k := by rw [zpow_add₀ two_ne_zero,zpow_natCast,mul_comm]
    _ ≤ q * 2 ^ k := mul_le_mul_of_nonneg_right (by exact_mod_cast full) (by positivity)

section Full

variable (full : 2 ^ (f.precision - 1) ≤ q)
include full

/-- A number with more digits is below, and one with as many is a multiple of the last. -/
theorem gap_of_full (representable : f.Representable z) :
    z ≤ q * 2 ^ k ∨ ((q + 1 : Nat) : ℚ) * 2 ^ k ≤ z := by
  obtain ⟨m,e,digits,_,rfl⟩ := representable
  by_contra! between
  rcases le_or_gt k e with coarse | fine
  · obtain ⟨n,rfl⟩ := Int.le.dest coarse
    have unit : (0 : ℚ) < 2 ^ k := by positivity
    have multiple : (m : ℚ) * 2 ^ (k + n) = (m * 2 ^ n : ℤ) * 2 ^ k := by
      rw [zpow_add₀ two_ne_zero,zpow_natCast]
      push_cast
      ring
    rw [multiple] at between
    have above : (q : ℤ) < m * 2 ^ n := by exact_mod_cast lt_of_mul_lt_mul_right between.1 unit.le
    have below : m * 2 ^ n < (q + 1 : Nat) := by exact_mod_cast lt_of_mul_lt_mul_right between.2 unit.le
    omega
  · have units : e + (f.precision : ℤ) ≤ k + (f.precision - 1 : Nat) := by omega
    exact absurd between.1 (mul_zpow_lt digits full units).asymm

theorem even_iff (digits : q ≤ 2 ^ f.precision) (several : 2 ≤ f.precision)
    (small : f.minExponent ≤ k) : f.Even (q * 2 ^ k) ↔ q % 2 = 0 := by
  refine ⟨?_,fun even => even_of_even even digits several small⟩
  rintro ⟨m,e,short,_,same⟩
  rcases le_or_gt e k with fine | coarse
  · exact absurd same.symm (mul_zpow_lt short full (Int.add_le_add_right fine _)).ne
  · obtain ⟨n,rfl⟩ := Int.le.dest (Int.add_one_le_iff.mpr coarse)
    have unit : (0 : ℚ) < 2 ^ k := by positivity
    have double : (q : ℚ) = (m * 2 ^ n * 2 : ℤ) := by
      apply mul_right_cancel₀ unit.ne'
      rw [same,zpow_add₀ two_ne_zero,zpow_add_one₀ two_ne_zero,zpow_natCast]
      push_cast
      ring
    have whole : (q : ℤ) = m * 2 ^ n * 2 := by exact_mod_cast double
    omega

theorem neighbours_of_full (digits : q < 2 ^ f.precision) (some : 0 < f.precision)
    (small : f.minExponent ≤ k) : f.Neighbours (q * 2 ^ k) ((q + 1 : Nat) * 2 ^ k) where
  less := mul_lt_mul_of_pos_right (by exact_mod_cast q.lt_succ_self) (by positivity)
  lower := representable_of_le digits.le some small
  upper := representable_of_le digits some small
  gap _ representable := gap_of_full full representable

end Full

/-! ### Rounding digits away -/

/-- `M` without its last `j` digits, rounded to the nearest, ties to even. -/
def rounded (M j : Nat) : Nat :=
  if 2 ^ j < 2 * (M % 2 ^ j) ∨ 2 * (M % 2 ^ j) = 2 ^ j ∧ M / 2 ^ j % 2 = 1 then M / 2 ^ j + 1
  else M / 2 ^ j

theorem nearestEven_iff {M j : Nat} {c : ℤ} (several : 2 ≤ f.precision)
    (full : 2 ^ (f.precision - 1) ≤ M / 2 ^ j) (digits : M / 2 ^ j < 2 ^ f.precision)
    (small : f.minExponent ≤ c + j) :
    f.NearestEven (M * 2 ^ c) r ↔ r = rounded M j * 2 ^ (c + j) := by
  have unit : (0 : ℚ) < 2 ^ c := by positivity
  have scale : (2 : ℚ) ^ (c + j) = (2 ^ j : Nat) * 2 ^ c := by
    rw [zpow_add₀ two_ne_zero,zpow_natCast,mul_comm]
    push_cast
    rfl
  have rest := Nat.mod_lt M (Nat.two_pow_pos j)
  have split := Nat.div_add_mod' M (2 ^ j)
  unfold rounded
  have pair := neighbours_of_full full digits (by omega) small
  have evenLow := even_iff full digits.le several small
  have evenHigh := even_iff (full.trans (Nat.le_succ _)) digits several small
  generalize M / 2 ^ j = q at *
  generalize M % 2 ^ j = R at *
  generalize 2 ^ j = U at *
  have twice : 2 * ((M : ℚ) * 2 ^ c) = (2 * M : Nat) * 2 ^ c := by
    push_cast
    ring
  have sum : (q : ℚ) * 2 ^ (c + j) + (q + 1 : Nat) * 2 ^ (c + j) = (2 * (q * U) + U : Nat) * 2 ^ c := by
    rw [scale]
    push_cast
    ring
  have above : (q : ℚ) * 2 ^ (c + j) ≤ M * 2 ^ c := by
    rw [scale,← mul_assoc,← split]
    exact mul_le_mul_of_nonneg_right (by exact_mod_cast Nat.le_add_right _ _) unit.le
  have below : (M : ℚ) * 2 ^ c ≤ (q + 1 : Nat) * 2 ^ (c + j) := by
    rw [scale,← mul_assoc,← split]
    refine mul_le_mul_of_nonneg_right ?_ unit.le
    exact_mod_cast (by rw [Nat.succ_mul]; omega : q * U + R ≤ (q + 1) * U)
  rw [pair.nearestEven_iff above below,evenLow,evenHigh,sum,twice,mul_lt_mul_iff_left₀ unit,
    mul_lt_mul_iff_left₀ unit,mul_left_inj' unit.ne',Nat.cast_lt,Nat.cast_lt,Nat.cast_inj]
  by_cases up : U < 2 * R ∨ 2 * R = U ∧ q % 2 = 1
  · have leaves : ¬ (2 * M < 2 * (q * U) + U ∨ 2 * M = 2 * (q * U) + U ∧ q % 2 = 0) := by omega
    have carries : 2 * (q * U) + U < 2 * M ∨ 2 * M = 2 * (q * U) + U ∧ (q + 1) % 2 = 0 := by omega
    simp only [if_pos up,leaves,carries,and_false,and_true,false_or]
  · have stays : 2 * M < 2 * (q * U) + U ∨ 2 * M = 2 * (q * U) + U ∧ q % 2 = 0 := by omega
    have short : ¬ (2 * (q * U) + U < 2 * M ∨ 2 * M = 2 * (q * U) + U ∧ (q + 1) % 2 = 0) := by omega
    simp only [if_neg up,stays,short,and_false,and_true,or_false]

end Format

end Sync
