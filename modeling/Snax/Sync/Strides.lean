import Mathlib.Data.List.Forall2
import Mathlib.Data.List.Nodup
import Mathlib.Algebra.Order.Ring.Int
import Mathlib.Tactic.Ring

/-! Strided loop nests: a dimension is a bound with a stride, a position takes one index below each
bound. The offsets of a nest reach from its lowest corner to its highest one, and nested loops visit
every position once. -/
namespace Strides

/-- One index below each bound. -/
def Inside (dims : List (Int × Int)) (t : List Int) : Prop :=
  List.Forall₂ (fun d x => 0 ≤ x ∧ x < d.1) dims t

def offset : List (Int × Int) → List Int → Int
  | d :: ds, x :: t => x * d.2 + offset ds t
  | _, _ => 0

def lowest : List (Int × Int) → Int
  | [] => 0
  | d :: ds => min 0 ((d.1 - 1) * d.2) + lowest ds

def highest : List (Int × Int) → Int
  | [] => 0
  | d :: ds => max 0 ((d.1 - 1) * d.2) + highest ds

/-- The positions in the order of nested loops, the first dimension outermost. -/
def walk : List (Int × Int) → List (List Int)
  | [] => [[]]
  | d :: ds => (List.range d.1.toNat).flatMap fun x : Nat => (walk ds).map fun t => (x : Int) :: t

/-- Every dimension has an index. -/
def Open (dims : List (Int × Int)) : Prop := ∀ d ∈ dims, 0 < d.1

instance (dims : List (Int × Int)) : Decidable (Open dims) :=
  inferInstanceAs (Decidable (∀ d ∈ dims, 0 < d.1))

variable {dims more : List (Int × Int)} {t u : List Int}

theorem inside_append : Inside (dims ++ more) t ↔ ∃ front back, t = front ++ back ∧
    Inside dims front ∧ Inside more back := by
  induction dims generalizing t with
  | nil =>
    constructor
    · exact fun inside => ⟨[],t,rfl,.nil,inside⟩
    · rintro ⟨front,back,rfl,none,inside⟩
      cases none
      exact inside
  | cons d dims ih =>
    constructor
    · intro inside
      cases inside with
      | cons first rest =>
        obtain ⟨front,back,rfl,before,after⟩ := ih.mp rest
        exact ⟨_ :: front,back,rfl,.cons first before,after⟩
    · rintro ⟨front,back,rfl,before,after⟩
      cases before with
      | cons first rest => exact .cons first (ih.mpr ⟨_,back,rfl,rest,after⟩)

theorem open_of_inside (inside : Inside dims t) : Open dims := by
  induction inside with
  | nil => exact nofun
  | cons first rest ih =>
    intro d member
    rcases List.mem_cons.mp member with rfl | later
    · exact first.1.trans_lt first.2
    · exact ih d later

theorem offset_append (inside : Inside dims t) : offset (dims ++ more) (t ++ u) =
    offset dims t + offset more u := by
  induction inside with
  | nil => simp [offset]
  | cons first rest ih =>
    simp only [List.cons_append,offset,ih]
    ring

theorem dvd_offset {n : Int} (strides : ∀ d ∈ dims, n ∣ d.2) (t : List Int) : n ∣ offset dims t := by
  induction dims generalizing t with
  | nil => exact Int.dvd_zero n
  | cons d dims ih =>
    cases t with
    | nil => exact Int.dvd_zero n
    | cons x t =>
      exact Int.dvd_add (Int.dvd_mul_of_dvd_right (strides d List.mem_cons_self))
        (ih (fun e member => strides e (List.mem_cons_of_mem d member)) t)

theorem highest_negated : highest dims = - lowest (dims.map fun d => (d.1,- d.2)) := by
  induction dims with
  | nil => rfl
  | cons d dims ih =>
    simp only [highest,lowest,List.map_cons,ih,mul_neg]
    omega

theorem offset_negated : offset dims t = - offset (dims.map fun d => (d.1,- d.2)) t := by
  induction dims generalizing t with
  | nil => rfl
  | cons d dims ih =>
    cases t with
    | nil => rfl
    | cons x t =>
      simp only [offset,List.map_cons,ih (t := t)]
      ring

theorem inside_negated : Inside (dims.map fun d => (d.1,- d.2)) t ↔ Inside dims t :=
  List.forall₂_map_left_iff

theorem lowest_le (inside : Inside dims t) : lowest dims ≤ offset dims t := by
  induction inside with
  | nil => exact Int.le_refl 0
  | @cons d x dims t first rest ih =>
    refine Int.add_le_add ?_ ih
    rcases Int.le_total 0 d.2 with up | down
    · exact (min_le_left _ _).trans (Int.mul_nonneg first.1 up)
    · exact (min_le_right _ _).trans (Int.mul_le_mul_of_nonpos_right (by omega) down)

theorem le_highest (inside : Inside dims t) : offset dims t ≤ highest dims := by
  have low := lowest_le (inside_negated.mpr inside)
  rw [highest_negated,offset_negated]
  exact Int.neg_le_neg low

theorem lowest_attained (nonempty : Open dims) : ∃ t, Inside dims t ∧ offset dims t = lowest dims := by
  induction dims with
  | nil => exact ⟨[],.nil,rfl⟩
  | cons d dims ih =>
    obtain ⟨t,inside,least⟩ := ih fun e member => nonempty e (List.mem_cons_of_mem d member)
    have here := nonempty d List.mem_cons_self
    rcases Int.le_total 0 d.2 with up | down
    · refine ⟨0 :: t,.cons ⟨Int.le_refl 0,here⟩ inside,?_⟩
      have first : min 0 ((d.1 - 1) * d.2) = 0 := min_eq_left (Int.mul_nonneg (by omega) up)
      rw [offset,lowest,least,first,Int.zero_mul]
    · refine ⟨(d.1 - 1) :: t,.cons ⟨by omega,by omega⟩ inside,?_⟩
      have first : min 0 ((d.1 - 1) * d.2) = (d.1 - 1) * d.2 :=
        min_eq_right (Int.mul_nonpos_of_nonneg_of_nonpos (by omega) down)
      rw [offset,lowest,least,first]

theorem highest_attained (nonempty : Open dims) : ∃ t, Inside dims t ∧ offset dims t = highest dims := by
  have negated : Open (dims.map fun d => (d.1,- d.2)) := by
    intro e member
    obtain ⟨d,present,rfl⟩ := List.mem_map.mp member
    exact nonempty d present
  obtain ⟨t,inside,least⟩ := lowest_attained negated
  refine ⟨t,inside_negated.mp inside,?_⟩
  rw [highest_negated,offset_negated,least]

/-- A nest stays within an interval if and only if its two corners do. -/
theorem corners (nonempty : Open dims) (low high : Int) : (∃ t, Inside dims t ∧
    ¬ (low ≤ offset dims t ∧ offset dims t < high)) ↔ lowest dims < low ∨ high ≤ highest dims := by
  constructor
  · rintro ⟨t,inside,out⟩
    have := lowest_le inside
    have := le_highest inside
    omega
  · rintro (below | above)
    · obtain ⟨t,inside,least⟩ := lowest_attained nonempty
      exact ⟨t,inside,by omega⟩
    · obtain ⟨t,inside,most⟩ := highest_attained nonempty
      exact ⟨t,inside,by omega⟩

/-! ### Nested loops -/

theorem mem_walk : t ∈ walk dims ↔ Inside dims t := by
  induction dims generalizing t with
  | nil =>
    rw [walk,List.mem_singleton]
    exact ⟨fun none => none ▸ .nil,fun inside => by cases inside; rfl⟩
  | cons d dims ih =>
    rw [walk,List.mem_flatMap]
    constructor
    · rintro ⟨x,below,member⟩
      obtain ⟨u,inside,rfl⟩ := List.mem_map.mp member
      have := List.mem_range.mp below
      exact .cons ⟨by omega,by omega⟩ (ih.mp inside)
    · intro inside
      cases inside with
      | @cons _ x _ u first rest =>
        refine ⟨x.toNat,List.mem_range.mpr (by omega),List.mem_map.mpr ⟨u,ih.mpr rest,?_⟩⟩
        rw [Int.toNat_of_nonneg first.1]

theorem nodup_walk (dims : List (Int × Int)) : (walk dims).Nodup := by
  induction dims with
  | nil => exact List.nodup_singleton []
  | cons d dims ih =>
    rw [walk,List.nodup_flatMap]
    refine ⟨fun x _ => ih.map fun u v same => (List.cons.inj same).2,?_⟩
    refine List.nodup_range.imp fun {x y} apart => ?_
    intro t first second
    obtain ⟨u,_,rfl⟩ := List.mem_map.mp first
    obtain ⟨v,_,same⟩ := List.mem_map.mp second
    exact apart (by have := (List.cons.inj same).1; omega)

theorem walk_length (dims : List (Int × Int)) :
    (walk dims).length = (dims.map fun d => d.1.toNat).prod := by
  induction dims with
  | nil => rfl
  | cons d dims ih =>
    rw [walk,List.length_flatMap]
    simp [ih]

end Strides
