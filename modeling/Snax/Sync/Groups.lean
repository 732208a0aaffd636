import Mathlib.Data.List.Induction

/-! A sequence cut into consecutive groups of one size, and the incomplete group at its
end, as the items come in one after the other. -/
namespace Sync

structure Grouping (α : Type) where
  whole : List (List α)
  part : List α

namespace Grouping

variable {α : Type}

def push (n : Nat) (g : Grouping α) (x : α) : Grouping α :=
  if g.part.length + 1 = n then ⟨g.whole ++ [g.part ++ [x]],[]⟩ else ⟨g.whole,g.part ++ [x]⟩

def of (n : Nat) (l : List α) : Grouping α := l.foldl (push n) ⟨[],[]⟩

@[simp] theorem of_nil (n : Nat) : of n ([] : List α) = ⟨[],[]⟩ := rfl

theorem of_concat (n : Nat) (l : List α) (x : α) : of n (l ++ [x]) = push n (of n l) x := by
  simp [of]

/-- A cycle in which an item may come in. -/
def pushed (n : Nat) (g : Grouping α) : Option α → Grouping α
  | none => g
  | some x => push n g x

/-- The groups that the cycle completes. -/
def completed (n : Nat) (g : Grouping α) : Option α → List (List α)
  | none => []
  | some x => if g.part.length + 1 = n then [g.part ++ [x]] else []

theorem pushed_whole (n : Nat) (g : Grouping α) (o : Option α) :
    (g.pushed n o).whole = g.whole ++ g.completed n o := by
  cases o with
  | none => simp [pushed,completed]
  | some x =>
    simp only [pushed,completed,push]
    split <;> simp

theorem of_toList (n : Nat) (l : List α) (o : Option α) :
    of n (l ++ o.toList) = (of n l).pushed n o := by
  cases o with
  | none => simp [pushed]
  | some x => exact of_concat n l x

/-- The groups are the sequence again, all of them but the last of the right size. -/
theorem of_spec {n : Nat} (positive : 0 < n) (l : List α) :
    (of n l).whole.flatten ++ (of n l).part = l ∧ (∀ g ∈ (of n l).whole, g.length = n) ∧
      (of n l).part.length < n := by
  induction l using List.reverseRecOn with
  | nil => simpa using positive
  | append_singleton l x ih =>
    obtain ⟨all,even,short⟩ := ih
    rw [of_concat,push]
    split
    · next last =>
      refine ⟨by simp [← List.append_assoc,all],fun g member => ?_,positive⟩
      rcases List.mem_append.mp member with old | new
      · exact even g old
      · rw [List.mem_singleton.mp new]
        simpa using last
    · next more =>
      refine ⟨by simp [← List.append_assoc,all],even,?_⟩
      rw [List.length_append,List.length_singleton]
      omega

/-- More items complete more groups, and leave those that are complete. -/
theorem whole_mono {n : Nat} {l more : List α} (front : l <+: more) :
    (of n l).whole <+: (of n more).whole := by
  obtain ⟨rest,rfl⟩ := front
  induction rest using List.reverseRecOn with
  | nil => simp
  | append_singleton rest x ih =>
    rw [← List.append_assoc]
    have step := of_toList n (l ++ rest) (some x)
    rw [Option.toList_some] at step
    rw [step,pushed_whole]
    exact ih.trans (List.prefix_append _ _)

theorem part_length_lt {n : Nat} (positive : 0 < n) (l : List α) : (of n l).part.length < n :=
  (of_spec positive l).2.2

theorem part_of_one (l : List α) : (of 1 l).part = [] :=
  List.length_eq_zero_iff.mp (Nat.lt_one_iff.mp (part_length_lt Nat.one_pos l))

theorem whole_length_of_one (l : List α) : (of 1 l).whole.length = l.length := by
  induction l using List.reverseRecOn with
  | nil => rfl
  | append_singleton l x ih => simp [of_concat,push,part_of_one,ih]

end Grouping
end Sync
