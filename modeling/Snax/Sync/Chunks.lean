import Mathlib.Data.List.Basic

/-! Words sent as chunks, the same number of chunks for every word. What has arrived is cut
into the words that are complete and the chunks of the next one. -/
namespace Sync.Chunks

variable {α β : Type}

theorem length_flatten_of_even {n : Nat} {words : List (List α)} (even : ∀ w ∈ words, w.length = n) :
    words.flatten.length = n * words.length := by
  induction words with
  | nil => simp
  | cons w words ih =>
    rw [List.flatten_cons,List.length_append,even w List.mem_cons_self,
      ih fun w member => even w (List.mem_cons_of_mem _ member),List.length_cons,
      Nat.mul_succ,Nat.add_comm]

/-- Of the words that were sent the first ones are complete. -/
theorem complete_prefix {n : Nat} (positive : 0 < n) {full words : List (List α)} {part : List α}
    (even : ∀ w ∈ full, w.length = n) (even' : ∀ w ∈ words, w.length = n)
    (front : full.flatten ++ part <+: words.flatten) : full <+: words := by
  induction full generalizing words with
  | nil => exact List.nil_prefix
  | cons w full ih =>
    have size := even w List.mem_cons_self
    cases words with
    | nil =>
      have empty := List.prefix_nil.mp front
      rw [List.flatten_cons,List.append_assoc,List.append_eq_nil_iff] at empty
      rw [empty.1] at size
      exact absurd size (by simp; omega)
    | cons w' words =>
      rw [List.flatten_cons,List.flatten_cons,List.append_assoc] at front
      obtain ⟨back,whole⟩ := front
      rw [List.append_assoc] at whole
      obtain ⟨rfl,rest⟩ := List.append_inj whole (by rw [size,even' w' List.mem_cons_self])
      exact List.cons_prefix_cons.mpr ⟨rfl,ih (fun x member => even x (List.mem_cons_of_mem _ member))
        (fun x member => even' x (List.mem_cons_of_mem _ member)) ⟨back,rest⟩⟩

/-- Slices of one size, side by side. -/
theorem flatMap_slices (l : List α) (n k : Nat) :
    ((List.range k).flatMap fun j => (l.drop (j * n)).take n) = l.take (k * n) := by
  induction k with
  | zero => simp
  | succ k ih =>
    rw [List.range_succ,List.flatMap_append,ih,Nat.succ_mul,List.take_add]
    simp

/-- The slice of a row of blocks of one size. -/
theorem slice_flatMap {n k i : Nat} (f : Nat → List α) (even : ∀ j < k, (f j).length = n) (inside : i < k) :
    (((List.range k).flatMap f).drop (i * n)).take n = f i := by
  induction k generalizing f i with
  | zero => exact absurd inside (Nat.not_lt_zero i)
  | succ k ih =>
    have first := even 0 (Nat.succ_pos k)
    rw [List.range_succ_eq_map,List.flatMap_cons,List.flatMap_map]
    cases i with
    | zero => rw [Nat.zero_mul,List.drop_zero,← first,List.take_left]
    | succ i =>
      rw [Nat.succ_mul,Nat.add_comm,← List.drop_drop,← first,List.drop_left,first]
      exact ih (fun j => f (j + 1)) (fun j before => even (j + 1) (Nat.succ_lt_succ before))
        (Nat.lt_of_succ_lt_succ inside)

theorem length_flatMap_even {n k : Nat} (f : Nat → List α) (even : ∀ j < k, (f j).length = n) :
    ((List.range k).flatMap f).length = k * n := by
  induction k with
  | zero => simp
  | succ k ih =>
    rw [List.range_succ,List.flatMap_append,List.length_append,
      ih fun j before => even j (Nat.lt_succ_of_lt before),List.flatMap_singleton,even k (Nat.lt_succ_self k),
      Nat.succ_mul]

end Sync.Chunks
