import Mathlib.Logic.Function.Basic

/-! A mutex: of any number of threads at most one is inside, and the mutex is taken then. -/
namespace Sync

variable {ι : Type} {inside : ι → Bool} {mutex : Bool} {i j : ι}

structure Locked (inside : ι → Bool) (mutex : Bool) : Prop where
  taken : ∀ i, inside i = true → mutex = true
  alone : ∀ i j, inside i = true → inside j = true → i = j

/-- What one step may do to a thread's being inside and to the mutex. -/
inductive LockMove : Bool → Bool → Bool → Bool → Prop
  | keep {inside mutex : Bool} : LockMove inside inside mutex mutex
  | take : LockMove false true false true
  | give {mutex : Bool} : LockMove true false mutex false

namespace Locked

theorem start : Locked (fun _ : ι => false) false :=
  ⟨fun _ entered => absurd entered Bool.false_ne_true,fun _ _ entered => absurd entered Bool.false_ne_true⟩

theorem outside (locked : Locked inside mutex) (held : inside i = true) (apart : j ≠ i) : inside j = false := by
  cases entered : inside j with
  | false => rfl
  | true => exact absurd (locked.alone j i entered held) apart

theorem free (locked : Locked inside false) (i : ι) : inside i = false := by
  cases entered : inside i with
  | false => rfl
  | true => exact (locked.taken i entered).symm

/-- Entering takes a free mutex, leaving gives it back. -/
theorem move [DecidableEq ι] (locked : Locked inside mutex) {inside' mutex' : Bool}
    (move : LockMove (inside i) inside' mutex mutex') : Locked (Function.update inside i inside') mutex' := by
  generalize before : inside i = own at move
  cases move with
  | keep =>
    rw [← before,Function.update_eq_self]
    exact locked
  | take =>
    have only : ∀ j, Function.update inside i true j = true → j = i := by
      intro j entered
      by_contra apart
      rw [Function.update_of_ne apart,locked.free j] at entered
      cases entered
    exact ⟨fun _ _ => rfl,fun j k left right => (only j left).trans (only k right).symm⟩
  | give =>
    have none : ∀ j, ¬ Function.update inside i false j = true := by
      intro j entered
      by_cases apart : j = i
      · subst apart
        exact absurd entered (by simp)
      · rw [Function.update_of_ne apart] at entered
        exact apart (locked.alone j i entered before)
    exact ⟨fun j entered => absurd entered (none j),fun j _ entered => absurd entered (none j)⟩

end Locked
end Sync
