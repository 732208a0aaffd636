import Mathlib.Data.Nat.ModEq
import Mathlib.Logic.Function.Basic

/-! A ring of slots that is visited again and again, visit `v` at slot `v % n`. Each slot is refilled
between two of its visits, which may take a while. -/
namespace Sync

variable {α : Type} {n : Nat} {content : Nat → α} {lo hi : Nat} {slots : Nat → α}

/-- The slots of the visits from `lo` up to `hi` hold what these visits need. -/
def Holds (n : Nat) (content : Nat → α) (lo hi : Nat) (slots : Nat → α) : Prop :=
  ∀ v, lo ≤ v → v < hi → slots (v % n) = content v

/-- Visits that are less than a turn apart are at different slots. -/
theorem slot_ne {v w : Nat} (before : v < w) (near : w < v + n) : w % n ≠ v % n := by
  intro same
  have divides : n ∣ w - v := (Nat.modEq_iff_dvd' (Nat.le_of_lt before)).mp same.symm
  have := Nat.eq_zero_of_dvd_of_lt divides (by omega)
  omega

theorem holds_preload (fits : ∀ s, s < n → slots s = content s) : Holds n content 0 n slots := by
  intro v _ inside
  rw [Nat.mod_eq_of_lt inside]
  exact fits v inside

/-- A refill of the oldest slot begins. -/
theorem Holds.issue {x : α} (holds : Holds n content lo hi slots) (near : hi ≤ lo + n) :
    Holds n content (lo + 1) hi (Function.update slots (lo % n) x) := by
  intro v above below
  rw [Function.update_of_ne (slot_ne above (Nat.lt_of_lt_of_le below near))]
  exact holds v (Nat.le_of_succ_le above) below

/-- A refill ends, for the visit one turn later. -/
theorem Holds.fill {done : Nat} (holds : Holds n content lo (done + n) slots) (begun : done < lo) :
    Holds n content lo (done + 1 + n) (Function.update slots (done % n) (content (done + n))) := by
  intro v above below
  by_cases last : v = done + n
  · subst last
    rw [Nat.add_mod_right,Function.update_self]
  · have inside : v < done + n := by omega
    rw [Function.update_of_ne (slot_ne (Nat.lt_of_lt_of_le begun above) inside)]
    exact holds v above inside

/-- The oldest slot is refilled for the visit one turn later. -/
theorem Holds.refill {done : Nat} (holds : Holds n content done (done + n) slots) :
    Holds n content (done + 1) (done + 1 + n) (Function.update slots (done % n) (content (done + n))) := by
  have issued := (holds.issue (x := content (done + n)) (Nat.le_refl _)).fill (Nat.lt_succ_self done)
  rwa [Function.update_idem] at issued

/-- A visit changes what its slot holds. -/
theorem Holds.visit {v : Nat} {x : α} (holds : Holds n content lo hi slots) (above : lo ≤ v) (below : v < hi)
    (near : hi ≤ lo + n) :
    Holds n (Function.update content v x) lo hi (Function.update slots (v % n) x) := by
  intro w above' below'
  by_cases here : w = v
  · subst here
    rw [Function.update_self,Function.update_self]
  · have apart : w % n ≠ v % n := by
      rcases Nat.lt_or_gt_of_ne here with before | after
      · exact (slot_ne before (by omega)).symm
      · exact slot_ne after (by omega)
    rw [Function.update_of_ne apart,Function.update_of_ne here]
    exact holds w above' below'

/-- The slots of one turn, counted from a visit at the first slot. -/
theorem Holds.turn (holds : Holds n content lo (lo + n) slots) (whole : n ∣ lo) {s : Nat} (inside : s < n) :
    slots s = content (lo + s) := by
  have here := holds (lo + s) (Nat.le_add_right _ _) (Nat.add_lt_add_left inside lo)
  rwa [Nat.add_mod,Nat.mod_eq_zero_of_dvd whole,Nat.zero_add,Nat.mod_mod,Nat.mod_eq_of_lt inside] at here

end Sync
