import Mathlib.Algebra.BigOperators.Group.Finset.Basic
import Mathlib.Data.Int.Interval
import Mathlib.Tactic.Ring

/-! Counted loops over the integers, and how a loop is cut into blocks that are run one after the other. -/
namespace Sync

/-- The values of `i` in `for (i = lower; i <= upper; i += incr)`, or `upper <= i` for a negative `incr`. -/
def sweep (lower upper incr : Int) : List Int :=
  (List.range ((upper - lower).fdiv incr + 1).toNat).map fun k : Nat => lower + k * incr

variable {lower upper incr : Int} {n : Nat}

/-- The test of the loop. -/
def Enters (lower upper incr : Int) : Prop := (0 < incr ∧ lower ≤ upper) ∨ (incr < 0 ∧ upper ≤ lower)

instance (lower upper incr : Int) : Decidable (Enters lower upper incr) :=
  inferInstanceAs (Decidable ((_ ∧ _) ∨ (_ ∧ _)))

theorem enters_iff (moves : incr ≠ 0) : Enters lower upper incr ↔ 0 ≤ (upper - lower).fdiv incr := by
  unfold Enters
  rcases lt_or_gt_of_ne moves with down | up
  · have flip := Int.neg_fdiv_neg (upper - lower) incr
    rw [← flip,Int.fdiv_eq_ediv_of_nonneg _ (by omega),Int.ediv_nonneg_iff_of_pos (by omega)]
    omega
  · rw [Int.fdiv_eq_ediv_of_nonneg _ up.le,Int.ediv_nonneg_iff_of_pos up]
    omega

/-- The loop, one iteration after the other. -/
theorem sweep_step (moves : incr ≠ 0) : sweep lower upper incr =
    if Enters lower upper incr then lower :: sweep (lower + incr) upper incr else [] := by
  have less : (upper - (lower + incr)).fdiv incr = (upper - lower).fdiv incr - 1 := by
    have one := Int.sub_mul_fdiv_right (upper - lower) 1 moves
    rw [one_mul] at one
    rw [← one]
    congr 1
    omega
  unfold sweep
  rw [less]
  split
  · next enters =>
    have count := (enters_iff moves).mp enters
    have more : ((upper - lower).fdiv incr + 1).toNat = ((upper - lower).fdiv incr - 1 + 1).toNat + 1 := by omega
    rw [more,List.range_succ_eq_map,List.map_cons,List.map_map]
    refine congrArg₂ List.cons (by simp) (List.map_congr_left fun k _ => ?_)
    simp only [Function.comp_apply,Nat.succ_eq_add_one,Nat.cast_add,Nat.cast_one]
    ring
  · next leaves =>
    have count := mt (enters_iff moves).mpr leaves
    have none : ((upper - lower).fdiv incr + 1).toNat = 0 := by omega
    rw [none]
    rfl

/-- A loop of `n` iterations. -/
theorem sweep_count (moves : incr ≠ 0) (lower : Int) (n : Nat) :
    sweep lower (lower + n * incr - incr) incr = (List.range n).map fun k : Nat => lower + k * incr := by
  have whole : lower + n * incr - incr - lower = (n - 1 : Int) * incr := by ring
  have count : ((lower + n * incr - incr - lower).fdiv incr + 1).toNat = n := by
    rw [whole,Int.mul_fdiv_cancel _ moves]
    omega
  rw [sweep,count]

/-- Blocks of any sizes, side by side. -/
theorem flatMap_blocks (size : Nat → Nat) (blocks : Nat) :
    ((List.range blocks).flatMap fun t =>
      (List.range (size t)).map fun k => (∑ i ∈ Finset.range t, size i) + k) =
      List.range (∑ i ∈ Finset.range blocks, size i) := by
  induction blocks with
  | zero => rfl
  | succ blocks ih =>
    rw [List.range_succ,List.flatMap_append,ih,Finset.sum_range_succ,List.range_add,List.flatMap_singleton]

/-- Two rows of blocks of the same sizes are the same only block by block. -/
theorem flatMap_range_inj {α : Type} {f g : Nat → List α} (blocks : Nat)
    (even : ∀ t < blocks, (f t).length = (g t).length) :
    (List.range blocks).flatMap f = (List.range blocks).flatMap g ↔ ∀ t < blocks, f t = g t := by
  induction blocks with
  | zero => simp
  | succ blocks ih =>
    rw [List.range_succ,List.flatMap_append,List.flatMap_append,List.flatMap_singleton,List.flatMap_singleton]
    have shorter := ih fun t inside => even t (Nat.lt_succ_of_lt inside)
    constructor
    · intro same t inside
      obtain ⟨front,last⟩ := List.append_inj' same (even blocks (Nat.lt_succ_self blocks))
      rcases Nat.lt_succ_iff_lt_or_eq.mp inside with before | rfl
      · exact shorter.mp front t before
      · exact last
    · intro same
      rw [shorter.mpr fun t inside => same t (Nat.lt_succ_of_lt inside),same blocks (Nat.lt_succ_self blocks)]

/-- Rounds of blocks are one row of blocks. -/
theorem flatMap_rounds {α : Type} (f : Nat → List α) (rounds row : Nat) :
    ((List.range rounds).flatMap fun q => (List.range row).flatMap fun t => f (q * row + t)) =
      (List.range (rounds * row)).flatMap f := by
  induction rounds with
  | zero => simp
  | succ rounds ih =>
    rw [List.range_succ,List.flatMap_append,ih,List.flatMap_singleton,Nat.succ_mul,List.range_add,
      List.flatMap_append,List.flatMap_map]

end Sync
