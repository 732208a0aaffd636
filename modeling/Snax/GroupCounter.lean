import Snax.Counter
import Snax.Sync.Groups

/-! The counter of the words of a group, eight bits wide under a ceiling of 32 bits: it
stands at the size of the incomplete group. -/
namespace Snax

open Sync

/-- The group sizes the counter can reach. -/
def ProperSize (n : BitVec 32) : Prop := 1 ≤ n.toNat ∧ n.toNat ≤ 256

instance : DecidablePred ProperSize := fun _ => inferInstanceAs (Decidable (_ ∧ _))

theorem lastIndex_size {n : BitVec 32} (proper : ProperSize n) :
    lastIndex (n.setWidth 8) = n.toNat - 1 := by
  obtain ⟨low,high⟩ := proper
  have same : n.setWidth 8 = BitVec.ofNat 8 (n.toNat - 1 + 1) := by
    rw [Nat.sub_add_cancel low]
    exact BitVec.eq_of_toNat_eq (by simp)
  rw [same]
  exact lastIndex_ofNat_succ _ (by decide) (by omega)

theorem counter_last {n : BitVec 32} (proper : ProperSize n) (value : BitVec 8) :
    BasicCounter.lastVal true true (n.setWidth 8) value = decide (value.toNat + 1 = n.toNat) := by
  have low := proper.1
  simp only [BasicCounter.lastVal,lastIndex_size proper,↓reduceIte,Bool.and_true]
  rw [Bool.eq_iff_iff,beq_iff_eq,decide_eq_true_iff]
  omega

/-- The counter stands at the size of the incomplete group, under any ceiling that ends the
count with the group. -/
theorem tick_push {α : Type} {w n : Nat} {ceil value : BitVec w} (last : lastIndex ceil = n - 1)
    (fits : n ≤ 2 ^ w) {g : Grouping α} (count : value.toNat = g.part.length)
    (short : g.part.length < n) (x : α) :
    (BasicCounter.next true false true ceil value).toNat = (g.push n x).part.length := by
  simp only [BasicCounter.next,last,↓reduceIte,Bool.false_eq_true,Grouping.push]
  by_cases whole : g.part.length + 1 = n
  · rw [if_neg (by omega),if_pos whole]
    rfl
  · have more : value.toNat < n - 1 := by omega
    rw [if_pos more,if_neg whole,List.length_append,List.length_singleton,← count]
    exact BasicCounter.toNat_add_one value more (by omega)

theorem counter_push {α : Type} {n : BitVec 32} (proper : ProperSize n) {value : BitVec 8}
    {g : Grouping α} (count : value.toNat = g.part.length) (short : g.part.length < n.toNat) (x : α) :
    (BasicCounter.next true false true (n.setWidth 8) value).toNat = (g.push n.toNat x).part.length :=
  tick_push (lastIndex_size proper) proper.2 count short x

theorem sub_one_toNat {n : BitVec 32} (proper : ProperSize n) : (n - 1).toNat = n.toNat - 1 := by
  have one : (1 : BitVec 32) ≤ n := BitVec.le_def.mpr proper.1
  rw [BitVec.toNat_sub_of_le one]
  rfl

/-- A counter that ticks with the words that come in. -/
theorem counter_pushed {α : Type} {n : BitVec 32} (proper : ProperSize n) {value : BitVec 8}
    {g : Grouping α} (count : value.toNat = g.part.length) (short : g.part.length < n.toNat) (o : Option α) :
    (BasicCounter.next true false o.isSome (n.setWidth 8) value).toNat = (g.pushed n.toNat o).part.length ∧
      (g.pushed n.toNat o).part.length < n.toNat := by
  cases o with
  | none => exact ⟨by simpa [Grouping.pushed] using count,short⟩
  | some x =>
    refine ⟨counter_push proper count short x,?_⟩
    simp only [Grouping.pushed,Grouping.push]
    split
    · exact Nat.zero_lt_of_lt short
    · rw [List.length_append,List.length_singleton]
      omega

end Snax
