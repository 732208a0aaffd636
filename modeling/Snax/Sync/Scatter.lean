import Mathlib.Data.List.Nodup

/-! Writes to a register file, one after the other, each through an index of its own. A
write outside of the file changes nothing. -/
namespace Sync

structure Write (α : Type) where
  index : Nat
  value : α

variable {α : Type} {n : Nat}

def Write.apply (regs : Fin n → α) (w : Write α) : Fin n → α := fun r =>
  if r.val = w.index then w.value else regs r

/-- The file after the writes of a list. -/
def scatter (regs : Fin n → α) (writes : List (Write α)) : Fin n → α := writes.foldl Write.apply regs

@[simp] theorem scatter_nil (regs : Fin n → α) : scatter regs [] = regs := rfl

@[simp] theorem scatter_cons (regs : Fin n → α) (w : Write α) (rest : List (Write α)) :
    scatter regs (w :: rest) = scatter (w.apply regs) rest := rfl

theorem scatter_other {writes : List (Write α)} {r : Fin n} (regs : Fin n → α)
    (away : ∀ w ∈ writes, r.val ≠ w.index) : scatter regs writes r = regs r := by
  induction writes generalizing regs with
  | nil => rfl
  | cons w rest ih =>
    rw [scatter_cons,ih _ fun v member => away v (List.mem_cons_of_mem _ member),Write.apply,
      if_neg (away w List.mem_cons_self)]

/-- With no index written twice, each write is there at the end. -/
theorem scatter_mem {writes : List (Write α)} {w : Write α} {r : Fin n} (regs : Fin n → α)
    (once : (writes.map Write.index).Nodup) (member : w ∈ writes) (place : r.val = w.index) :
    scatter regs writes r = w.value := by
  induction writes generalizing regs with
  | nil => simp at member
  | cons v rest ih =>
    rw [List.map_cons,List.nodup_cons] at once
    rw [scatter_cons]
    rcases List.mem_cons.mp member with rfl | later
    · rw [scatter_other]
      · simp [Write.apply,place]
      · intro v later same
        exact once.1 (List.mem_map.mpr ⟨v,later,same.symm.trans place⟩)
    · exact ih _ once.2 later

/-- The order of writes to different registers does not matter. -/
theorem scatter_perm {writes writes' : List (Write α)} (regs : Fin n → α)
    (once : (writes.map Write.index).Nodup) (same : writes.Perm writes') :
    scatter regs writes = scatter regs writes' := by
  have once' : (writes'.map Write.index).Nodup := (same.map _).nodup_iff.mp once
  funext r
  by_cases written : ∃ w ∈ writes, r.val = w.index
  · obtain ⟨w,member,place⟩ := written
    rw [scatter_mem regs once member place,scatter_mem regs once' (same.mem_iff.mp member) place]
  · rw [scatter_other regs fun w member place => written ⟨w,member,place⟩,
      scatter_other regs fun w member place => written ⟨w,same.mem_iff.mpr member,place⟩]

end Sync
