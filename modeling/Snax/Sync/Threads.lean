import Mathlib.Algebra.BigOperators.Group.Finset.Piecewise
import Mathlib.Algebra.Order.BigOperators.Group.Finset
import Snax.Sync.Machine

/-! Threads beside one shared memory, in any order of steps. A step of a thread reads its own state and the
shared one and writes both; a thread that has to wait does nothing. A schedule is the list of the
threads that are given a step, each with what it is told from outside. -/
namespace Sync

structure Threads (ι Input P S : Type) where
  act : ι → Input → P → S → Option (P × S)

namespace Threads

structure Config (ι P S : Type) where
  locals : ι → P
  shared : S

variable {ι Input P S : Type} [DecidableEq ι] (t : Threads ι Input P S)

def next (c : Config ι P S) (i : ι × Input) : Config ι P S :=
  match t.act i.1 i.2 (c.locals i.1) c.shared with
  | some (p,s) => ⟨Function.update c.locals i.1 p,s⟩
  | none => c

def machine : Machine (Config ι P S) (ι × Input) Unit where
  next := t.next
  out _ _ := ()

abbrev exec : Config ι P S → List (ι × Input) → Config ι P S := t.machine.exec

variable {t}

@[simp] theorem exec_nil (c : Config ι P S) : t.exec c [] = c := rfl

@[simp] theorem exec_append (c : Config ι P S) (front back : List (ι × Input)) :
    t.exec c (front ++ back) = t.exec (t.exec c front) back :=
  t.machine.exec_append c front back

theorem next_of_act {c : Config ι P S} {i : ι} {x : Input} {p : P} {s : S}
    (acts : t.act i x (c.locals i) c.shared = some (p,s)) :
    t.next c (i,x) = ⟨Function.update c.locals i p,s⟩ := by
  simp only [next,acts]

theorem next_of_waits {c : Config ι P S} {i : ι} {x : Input}
    (waits : t.act i x (c.locals i) c.shared = none) : t.next c (i,x) = c := by
  simp only [next,waits]

/-- A step changes no thread but the one that is given it. -/
theorem next_other (c : Config ι P S) (i : ι × Input) {j : ι} (apart : j ≠ i.1) :
    (t.next c i).locals j = c.locals j := by
  unfold next
  split
  · exact Function.update_of_ne apart ..
  · rfl

/-- The rule of a step: what holds of the configuration and of it after every step a thread can take. -/
theorem next_cases {motive : Config ι P S → Prop} (c : Config ι P S) (i : ι × Input) (waits : motive c)
    (acts : ∀ p s, t.act i.1 i.2 (c.locals i.1) c.shared = some (p,s) →
      motive ⟨Function.update c.locals i.1 p,s⟩) : motive (t.next c i) := by
  unfold next
  split
  · exact acts _ _ ‹_›
  · exact waits

/-- What every step of every thread keeps holds after every schedule. -/
theorem exec_rule (inv : Config ι P S → Prop) {c : Config ι P S} (start : inv c)
    (step : ∀ c i x p s, inv c → t.act i x (c.locals i) c.shared = some (p,s) →
      inv ⟨Function.update c.locals i p,s⟩) (schedule : List (ι × Input)) : inv (t.exec c schedule) :=
  t.machine.run_rule (fun _ => inv) start
    (fun _ c i valid => next_cases c i valid fun p s acts => step c i.1 i.2 p s valid acts) schedule

/-- The rule of a round: what a thread reaches with its own next step and keeps, every thread has
reached once every one has been given a step. -/
theorem round_rule (inv : Config ι P S → Prop) (goal : ι → Config ι P S → Prop)
    (keep : ∀ c i, inv c → inv (t.next c i)) (reach : ∀ c i x, inv c → goal i (t.next c (i,x)))
    (stays : ∀ c i j, inv c → j ≠ i.1 → goal j c → goal j (t.next c i)) {c : Config ι P S} (start : inv c)
    (schedule : List (ι × Input)) :
    inv (t.exec c schedule) ∧ ∀ i ∈ schedule.map Prod.fst, goal i (t.exec c schedule) := by
  induction schedule using List.reverseRecOn with
  | nil => exact ⟨start,fun i member => by simp at member⟩
  | append_singleton front last ih =>
    obtain ⟨valid,there⟩ := ih
    rw [exec_append]
    refine ⟨keep _ _ valid,fun i member => ?_⟩
    rw [List.map_append,List.mem_append] at member
    by_cases own : i = last.1
    · subst own
      exact reach _ last.1 last.2 valid
    · refine stays _ last i valid own (there i (member.resolve_right fun late => own ?_))
      simpa using late

/-- The projection rule: where every step is seen as some steps of other threads, every run is seen as
one of their runs. -/
theorem exec_projects {κ J Q R : Type} [DecidableEq κ] {u : Threads κ J Q R}
    (view : Config ι P S → Config κ Q R) (inv : Config ι P S → Prop) {c : Config ι P S} (start : inv c)
    (keep : ∀ c i, inv c → inv (t.next c i))
    (step : ∀ c i, inv c → ∃ more, view (t.next c i) = u.exec (view c) more)
    (schedule : List (ι × Input)) :
    inv (t.exec c schedule) ∧ ∃ seen, view (t.exec c schedule) = u.exec (view c) seen := by
  induction schedule using List.reverseRecOn with
  | nil => exact ⟨start,[],rfl⟩
  | append_singleton front last ih =>
    obtain ⟨valid,seen,same⟩ := ih
    obtain ⟨more,moved⟩ := step _ last valid
    rw [exec_append]
    refine ⟨keep _ last valid,seen ++ more,?_⟩
    rw [exec_append,← same]
    exact moved

/-- A sum over the threads of which one has changed. -/
theorem sum_of_one [Fintype ι] {M : Type} [AddCommMonoid M] {a b : ι → M} (i : ι)
    (others : ∀ j, j ≠ i → b j = a j) : (∑ j, b j) + a i = (∑ j, a j) + b i := by
  have split := fun f : ι → M => Finset.sum_sdiff (f := f) (Finset.subset_univ {i})
  have same : ∑ j ∈ Finset.univ \ {i}, b j = ∑ j ∈ Finset.univ \ {i}, a j :=
    Finset.sum_congr rfl fun j member => others j (by simpa using member)
  rw [← split a,← split b,Finset.sum_singleton,Finset.sum_singleton,same,add_right_comm]

theorem sum_update [Fintype ι] {M : Type} [AddCommMonoid M] (weight : P → M) (locals : ι → P) (i : ι) (p : P) :
    (∑ j, weight (Function.update locals i p j)) + weight (locals i) =
      (∑ j, weight (locals j)) + weight p := by
  have one := sum_of_one (a := fun j => weight (locals j)) (b := fun j => weight (Function.update locals i p j))
    i fun j apart => by rw [Function.update_of_ne apart]
  simpa using one

omit [DecidableEq ι] in
theorem weight_le_sum [Fintype ι] (weight : P → Nat) (locals : ι → P) (i : ι) :
    weight (locals i) ≤ ∑ j, weight (locals j) :=
  Finset.single_le_sum (f := fun j => weight (locals j)) (fun _ _ => Nat.zero_le _) (Finset.mem_univ i)

omit [DecidableEq ι] in
/-- A sum of at most one for each thread that reaches their number is one for each. -/
theorem weight_of_full [Fintype ι] {weight : P → Nat} {locals : ι → P} (most : ∀ p, weight p ≤ 1)
    (full : ∑ j, weight (locals j) = Fintype.card ι) (i : ι) : weight (locals i) = 1 := by
  have bound : ∀ j ∈ Finset.univ, weight (locals j) ≤ 1 := fun j _ => most _
  have same : ∑ j, weight (locals j) = ∑ _j : ι, 1 := by simpa using full
  exact (Finset.sum_eq_sum_iff_of_le bound).mp same i (Finset.mem_univ i)

end Threads
end Sync
