import Mathlib.Algebra.BigOperators.Group.List.Basic
import Mathlib.Data.Nat.Log
import Mathlib.Tactic.Ring

/-! `reduceTree`: a reduction in layers, each of which halves what is above the next
smaller power of two. An operation that a map turns into a product is reduced to the
product of the whole list, however the tree is cut. -/
namespace Sync.ReduceTree

variable {α : Type}

def pairs (op : α → α → α) : List α → List α
  | a :: b :: rest => op a b :: pairs op rest
  | rest => rest

/-- The first elements are promoted, the others are combined in pairs. -/
def layer (op : α → α → α) (xs : List α) : List α :=
  let m := 2 ^ Nat.log2 (xs.length - 1)
  xs.take (2 * m - xs.length) ++ pairs op (xs.drop (2 * m - xs.length))

/-- As many layers as there are elements; a single element is its own layer. -/
def reduceTree (op : α → α → α) (xs : List α) : Option α := ((layer op)^[xs.length] xs).head?

section Product

variable {β : Type} [Monoid β] {op : α → α → α} {f : α → β} (hom : ∀ a b, f (op a b) = f a * f b)
include hom

theorem prod_pairs (xs : List α) : ((pairs op xs).map f).prod = (xs.map f).prod := by
  fun_induction pairs op xs with
  | case1 a b rest ih => simp [hom,ih,mul_assoc]
  | case2 rest short => rfl

theorem prod_layer (xs : List α) : ((layer op xs).map f).prod = (xs.map f).prod := by
  rw [layer,List.map_append,List.prod_append,prod_pairs hom,← List.prod_append,← List.map_append,
    List.take_append_drop]

theorem prod_iterate (n : Nat) (xs : List α) : (((layer op)^[n] xs).map f).prod = (xs.map f).prod := by
  induction n generalizing xs with
  | zero => rfl
  | succ n ih => rw [Function.iterate_succ_apply,ih,prod_layer hom]

end Product

theorem length_pairs (op : α → α → α) (xs : List α) : (pairs op xs).length = (xs.length + 1) / 2 := by
  fun_induction pairs op xs with
  | case1 a b rest ih =>
    simp only [List.length_cons,ih]
    omega
  | case2 rest short =>
    rcases rest with _ | ⟨a,_ | ⟨b,rest⟩⟩
    · simp
    · simp
    · exact absurd rfl (short a b rest)

/-- A layer leaves the next smaller power of two. -/
theorem length_layer (op : α → α → α) {xs : List α} (several : 2 ≤ xs.length) :
    (layer op xs).length = 2 ^ Nat.log2 (xs.length - 1) := by
  have low : 2 ^ Nat.log2 (xs.length - 1) ≤ xs.length - 1 := Nat.log2_self_le (by omega)
  have high : xs.length - 1 < 2 ^ (Nat.log2 (xs.length - 1) + 1) := Nat.lt_log2_self
  rw [Nat.pow_succ] at high
  simp only [layer,List.length_append,List.length_take,length_pairs,List.length_drop]
  omega

theorem layer_of_short (op : α → α → α) {xs : List α} (short : xs.length ≤ 1) : layer op xs = xs := by
  rcases xs with _ | ⟨a,_ | ⟨b,rest⟩⟩
  · rfl
  · rfl
  · simp at short

theorem length_iterate (op : α → α → α) (n : Nat) {xs : List α} (positive : 0 < xs.length)
    (enough : xs.length ≤ n + 1) : ((layer op)^[n] xs).length = 1 := by
  induction n generalizing xs with
  | zero => exact Nat.le_antisymm enough positive
  | succ n ih =>
    rw [Function.iterate_succ_apply]
    rcases Nat.lt_or_ge 1 xs.length with several | short
    · have low : 2 ^ Nat.log2 (xs.length - 1) ≤ xs.length - 1 := Nat.log2_self_le (by omega)
      have size := length_layer op several
      apply ih
      · rw [size]
        exact Nat.two_pow_pos _
      · rw [size]
        omega
    · rw [layer_of_short op short]
      exact ih positive (by omega)

/-- The reduction of a list that is not empty stands for its product. -/
theorem reduceTree_prod {β : Type} [Monoid β] {op : α → α → α} {f : α → β}
    (hom : ∀ a b, f (op a b) = f a * f b) {xs : List α} (positive : 0 < xs.length) :
    ∃ x, reduceTree op xs = some x ∧ f x = (xs.map f).prod := by
  have product := prod_iterate hom xs.length xs
  obtain ⟨x,single⟩ := List.length_eq_one_iff.mp
    (length_iterate op xs.length positive (Nat.le_succ _))
  refine ⟨x,by rw [reduceTree,single]; rfl,?_⟩
  rw [single] at product
  simpa using product

/-! ### Neighbours combined, level by level -/

/-- Position `i` of a level holds what the two neighbours above it give. -/
def level (op : α → α → α) (x : Nat → α) : Nat → Nat → α
  | 0,i => x i
  | d + 1,i => op (level op x d (2 * i)) (level op x d (2 * i + 1))

/-- With an addition it is the sum of the `2 ^ d` elements above it. -/
theorem level_sum [AddMonoid α] (x : Nat → α) (d i : Nat) :
    level (· + ·) x d i = ((List.range (2 ^ d)).map fun k => x (i * 2 ^ d + k)).sum := by
  induction d generalizing i with
  | zero => simp [level]
  | succ d ih =>
    have left : 2 * i * 2 ^ d = i * 2 ^ (d + 1) := by ring
    have right (k : Nat) : (2 * i + 1) * 2 ^ d + k = i * 2 ^ (d + 1) + (2 ^ d + k) := by ring
    have size : 2 ^ (d + 1) = 2 ^ d + 2 ^ d := by ring
    rw [level,ih,ih,left]
    simp only [right]
    conv_rhs => rw [size,List.range_add,List.map_append,List.sum_append,List.map_map,← size]
    rfl

end Sync.ReduceTree
