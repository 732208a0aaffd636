import Snax.Sync.SlotRing

/-! A queue in a buffer of `n` cells, between a pointer to its oldest entry and one behind its newest. -/
namespace Sync

variable {α : Type} {n : Nat}

/-- The pointer to the next cell, which wraps. -/
def bump (p : Fin n) : Fin n := if room : p.val + 1 < n then ⟨p.val + 1,room⟩ else ⟨0,p.pos⟩

theorem bump_val (p : Fin n) : (bump p).val = (p.val + 1) % n := by
  unfold bump
  split
  · next room => exact (Nat.mod_eq_of_lt room).symm
  · next last =>
    have full : p.val + 1 = n := by omega
    rw [full,Nat.mod_self]

/-- The cell so many places behind a pointer. -/
def cell (p : Fin n) (k : Nat) : Fin n := ⟨(p.val + k) % n,Nat.mod_lt _ p.pos⟩

theorem cell_bump (p : Fin n) (k : Nat) : cell (bump p) k = cell p (k + 1) := by
  apply Fin.ext
  change ((bump p).val + k) % n = (p.val + (k + 1)) % n
  rw [bump_val,Nat.mod_add_mod,Nat.add_assoc,Nat.add_comm 1 k]

theorem bump_cell (p : Fin n) (k : Nat) : bump (cell p k) = cell p (k + 1) := by
  apply Fin.ext
  rw [bump_val]
  exact Nat.mod_add_mod _ _ _

theorem cell_zero (p : Fin n) : cell p 0 = p := Fin.ext (Nat.mod_eq_of_lt p.isLt)

theorem cell_ne {p : Fin n} {j k : Nat} (before : j < k) (near : k < j + n) : cell p k ≠ cell p j := by
  intro same
  have apart : (p.val + k) % n ≠ (p.val + j) % n := slot_ne (by omega) (by omega)
  exact apart (congrArg Fin.val same)

/-- The entries of the queue lie in the cells from its front on. -/
structure Circular (ram : Fin n → α) (front behind : Fin n) (xs : List α) : Prop where
  fits : xs.length ≤ n
  behind : behind = cell front xs.length
  cells : ∀ k x, xs[k]? = some x → ram (cell front k) = x

namespace Circular

variable {ram : Fin n → α} {front behind : Fin n} {x : α} {xs : List α}

theorem nil (ram : Fin n → α) (p : Fin n) : Circular ram p p [] where
  fits := Nat.zero_le n
  behind := (cell_zero p).symm
  cells _ _ none := nomatch none

theorem head (queue : Circular ram front behind (x :: xs)) : ram front = x := by
  have first := queue.cells 0 x rfl
  rwa [cell_zero] at first

theorem pop (queue : Circular ram front behind (x :: xs)) : Circular ram (bump front) behind xs where
  fits := Nat.le_of_succ_le queue.fits
  behind := queue.behind.trans (cell_bump front xs.length).symm
  cells k y found := by
    rw [cell_bump]
    exact queue.cells (k + 1) y found

theorem push (queue : Circular ram front behind xs) (room : xs.length < n) (x : α) :
    Circular (Function.update ram behind x) front (bump behind) (xs ++ [x]) where
  fits := by
    rw [List.length_append]
    exact room
  behind := by
    rw [queue.behind,bump_cell,List.length_append]
    rfl
  cells k y found := by
    obtain ⟨inside,_⟩ := List.getElem?_eq_some_iff.mp found
    rw [List.length_append,List.length_singleton] at inside
    rcases Nat.lt_or_eq_of_le (Nat.le_of_lt_succ inside) with older | newest
    · have apart : cell front k ≠ behind := by
        rw [queue.behind]
        exact (cell_ne older (by omega)).symm
      rw [Function.update_of_ne apart]
      refine queue.cells k y ?_
      rwa [List.getElem?_append_left older] at found
    · subst newest
      rw [← queue.behind,Function.update_self]
      simpa using found

/-- The pointers meet where the queue is empty or full. -/
theorem match_iff (queue : Circular ram front behind xs) :
    behind = front ↔ xs.length = 0 ∨ xs.length = n := by
  have fits := queue.fits
  constructor
  · intro same
    by_contra middle
    rw [not_or] at middle
    have apart := cell_ne (p := front) (Nat.pos_of_ne_zero middle.1) (by omega)
    rw [cell_zero,← queue.behind] at apart
    exact apart same
  · rintro (none | full)
    · rw [queue.behind,none,cell_zero]
    · rw [queue.behind,full]
      apply Fin.ext
      change (front.val + n) % n = front.val
      rw [Nat.add_mod_right,Nat.mod_eq_of_lt front.isLt]

/-- How far the pointers are apart, unless the queue is full. -/
theorem apart (queue : Circular ram front behind xs) (room : xs.length < n) :
    front.val + xs.length = behind.val ∨ front.val + xs.length = behind.val + n := by
  have place : behind.val = (front.val + xs.length) % n := congrArg Fin.val queue.behind
  have low := front.isLt
  rcases Nat.lt_or_ge (front.val + xs.length) n with inside | wraps
  · exact .inl (place.trans (Nat.mod_eq_of_lt inside)).symm
  · rw [Nat.mod_eq_sub_mod wraps,Nat.mod_eq_of_lt (by omega)] at place
    exact .inr (by omega)

end Circular
end Sync
