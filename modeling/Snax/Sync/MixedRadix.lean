import Mathlib.Algebra.BigOperators.Group.List.Basic
import Mathlib.Tactic.Ring

/-! Mixed-radix numerals, least significant wheel first, and the odometer that counts
through them one carry chain at a time. -/
namespace MixedRadix

def digits : List Nat → Nat → List Nat
  | [], _ => []
  | b :: bs, k => k % b :: digits bs (k / b)

/-- Weighted digit sum: the offset of a nested loop iteration. -/
def dot : List Nat → List Nat → Nat
  | d :: ds, x :: xs => d * x + dot ds xs
  | _, _ => 0

/-- One odometer tick. A wheel turns when every faster wheel is at its last digit. -/
def turn : Bool → List Nat → List Nat → List Nat
  | carry, b :: bs, d :: ds =>
    (if carry then (if d + 1 < b then d + 1 else 0) else d) :: turn (carry && d + 1 == b) bs ds
  | _, _, _ => []

/-- Every wheel shows its last digit. -/
def atEnd : List Nat → List Nat → Bool
  | b :: bs, d :: ds => d + 1 == b && atEnd bs ds
  | _, _ => true

theorem digits_zero (bs : List Nat) : digits bs 0 = List.replicate bs.length 0 := by
  induction bs with
  | nil => rfl
  | cons b bs ih => simp [digits,ih,List.replicate_succ]

theorem turn_false (bs : List Nat) (k : Nat) : turn false bs (digits bs k) = digits bs k := by
  induction bs generalizing k with
  | nil => rfl
  | cons b bs ih => simp [digits,turn,ih]

theorem succ_div_of_carry {b k : Nat} (positive : 0 < b) (carry : k % b + 1 = b) :
    (k + 1) % b = 0 ∧ (k + 1) / b = k / b + 1 := by
  have split := Nat.div_add_mod k b
  have next : k + 1 = b * (k / b + 1) := by rw [Nat.mul_add]; omega
  rw [next]
  exact ⟨Nat.mul_mod_right _ _,Nat.mul_div_cancel_left _ positive⟩

theorem succ_div_of_no_carry {b k : Nat} (room : k % b + 1 < b) :
    (k + 1) % b = k % b + 1 ∧ (k + 1) / b = k / b := by
  have split := Nat.div_add_mod k b
  have next : k + 1 = (k % b + 1) + b * (k / b) := by omega
  constructor
  · rw [next,Nat.add_mul_mod_self_left,Nat.mod_eq_of_lt room]
  · conv_lhs => rw [next]
    rw [Nat.add_mul_div_left _ _ (by omega),Nat.div_eq_of_lt room,Nat.zero_add]

/-- Counting is ticking: the odometer shows the digits of the number of ticks. -/
theorem turn_digits (bs : List Nat) (positive : ∀ b ∈ bs, 0 < b) (k : Nat) :
    turn true bs (digits bs k) = digits bs (k + 1) := by
  induction bs generalizing k with
  | nil => rfl
  | cons b bs ih =>
    have bp : 0 < b := positive b (by simp)
    have small := Nat.mod_lt k bp
    by_cases carry : k % b + 1 = b
    · obtain ⟨low,high⟩ := succ_div_of_carry bp carry
      simp [digits,turn,low,high,carry,ih fun x hx => positive x (by simp [hx])]
    · obtain ⟨low,high⟩ := succ_div_of_no_carry (show k % b + 1 < b by omega)
      have room : k % b + 1 < b := by omega
      have still : (k % b + 1 == b) = false := by simpa using carry
      simp [digits,turn,low,high,room,still,turn_false]

theorem atEnd_digits (bs : List Nat) (positive : ∀ b ∈ bs, 0 < b) (k : Nat) :
    atEnd bs (digits bs k) = true ↔ bs.prod ∣ k + 1 := by
  induction bs generalizing k with
  | nil => simp [atEnd]
  | cons b bs ih =>
    have bp : 0 < b := positive b (by simp)
    simp only [digits,atEnd,Bool.and_eq_true,beq_iff_eq,List.prod_cons,
      ih (fun x hx => positive x (by simp [hx]))]
    constructor
    · rintro ⟨carry,high⟩
      obtain ⟨low,quotient⟩ := succ_div_of_carry bp carry
      rw [← quotient] at high
      rw [← Nat.mul_div_cancel' (Nat.dvd_of_mod_eq_zero low)]
      exact Nat.mul_dvd_mul_left b high
    · intro whole
      have low : (k + 1) % b = 0 := Nat.mod_eq_zero_of_dvd (Dvd.dvd.trans (Nat.dvd_mul_right _ _) whole)
      have carry : k % b + 1 = b := by
        by_contra other
        have small := Nat.mod_lt k bp
        have := (succ_div_of_no_carry (show k % b + 1 < b by omega)).1
        omega
      refine ⟨carry,?_⟩
      rw [← (succ_div_of_carry bp carry).2]
      exact (Nat.dvd_div_iff_mul_dvd (Nat.dvd_of_mod_eq_zero low)).mpr whole

/-- Within one sweep the wheels are all at their last digit exactly at the last tick. -/
theorem atEnd_digits_of_lt (bs : List Nat) (positive : ∀ b ∈ bs, 0 < b) {k : Nat}
    (inside : k < bs.prod) : atEnd bs (digits bs k) = true ↔ k + 1 = bs.prod := by
  rw [atEnd_digits bs positive]
  constructor
  · intro whole
    have := Nat.le_of_dvd (by omega) whole
    omega
  · intro last
    rw [last]

theorem digits_prod (bs : List Nat) (positive : ∀ b ∈ bs, 0 < b) :
    digits bs bs.prod = List.replicate bs.length 0 := by
  induction bs with
  | nil => rfl
  | cons b bs ih =>
    have bp : 0 < b := positive b (by simp)
    simp [digits,List.replicate_succ,Nat.mul_div_cancel_left _ bp,
      ih fun x hx => positive x (by simp [hx])]

/-- Repeating the fastest wheel with weight zero does not move the offset. -/
theorem dot_digits_zero_weight (b : Nat) (bs xs : List Nat) (k : Nat) :
    dot (digits (b :: bs) k) (0 :: xs) = dot (digits bs (k / b)) xs := by
  simp [digits,dot]

end MixedRadix
