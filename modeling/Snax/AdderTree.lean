import Mathlib.Data.BitVec
import Snax.Counter
import Snax.DataPathExtension
import Snax.Sync.ReduceTree

/-! `versacore/AdderTree.scala` with integer types. Each level adds neighbours and keeps the
sums at the low indices; the configuration chooses the level that is the output. -/
namespace Snax

/-- `IntType` of `fp_unit`. -/
structure IntType where
  width : Nat

/-- `inputType == SInt`. On the right is Chisel's object of that name, which no data type equals. -/
def IntType.isSInt (_ : IntType) : Bool := false

structure AdderTreeParam where
  inputType : IntType
  outputType : IntType
  numElements : Nat
  groupSizes : List Nat
  elementsPow2 : numElements.isPowerOfTwo
  groupsPow2 : ∀ size ∈ groupSizes, size.isPowerOfTwo
  groupsNumber : groupSizes.length < 32 ∧ 1 ≤ groupSizes.length

namespace AdderTree

variable (p : AdderTreeParam)

abbrev In := Lanes p.numElements p.inputType.width
abbrev Out := Lanes p.numElements p.outputType.width
abbrev Cfg := BitVec (log2Ceil (p.groupSizes.length + 1))

/-- `asTypeOf(adderTreeInputType).asTypeOf(UInt(outputType.width.W))`. -/
def adderTreeInput (a : BitVec p.inputType.width) : BitVec p.outputType.width :=
  if p.inputType.isSInt then a.signExtend _ else a.setWidth _

/-- `Adder` of three integer types. -/
def adder (a b : BitVec p.outputType.width) : BitVec p.outputType.width := a + b

def layers (x : In p) : Nat → Out p
  | 0 => fun i => adderTreeInput p (x i)
  | d + 1 => fun i =>
    if inside : 2 * i.val + 1 < p.numElements then
      adder p (layers x d ⟨2 * i.val,Nat.lt_of_succ_lt inside⟩) (layers x d ⟨2 * i.val + 1,inside⟩)
    else 0

def adderResults (x : In p) : List (Out p) := p.groupSizes.map fun size => layers p x (log2Ceil size)

def out (cfg : Cfg p) (x : In p) : Out p :=
  (adderResults p x).getD cfg.toNat ((adderResults p x).headD fun _ => 0)

/-! ### The sums of the groups -/

variable {p}

/-- The elements by index. -/
def element (x : In p) (i : Nat) : BitVec p.inputType.width :=
  if inside : i < p.numElements then x ⟨i,inside⟩ else 0

/-- The group `k` of `size` inputs. -/
def group (x : In p) (size k : Nat) : List (BitVec p.inputType.width) :=
  (List.range size).map fun i => element x (k * size + i)

/-- Its sum modulo `2 ^ outputType.width`. -/
def groupSum (x : In p) (size k : Nat) : BitVec p.outputType.width :=
  ((group x size k).map (BitVec.signExtend _)).sum

def negatives (x : In p) (size k : Nat) : Nat := (group x size k).countP BitVec.msb

theorem element_of_lt (x : In p) {i : Nat} (inside : i < p.numElements) : element x i = x ⟨i,inside⟩ :=
  dif_pos inside

/-- The levels are full as far as there are whole groups. -/
theorem layers_level (x : In p) (d : Nat) (i : Fin p.numElements)
    (whole : (i.val + 1) * 2 ^ d ≤ p.numElements) :
    layers p x d i = Sync.ReduceTree.level (· + ·) (fun k => adderTreeInput p (element x k)) d i.val := by
  induction d generalizing i with
  | zero => rw [layers,Sync.ReduceTree.level,element_of_lt]
  | succ d ih =>
    have right : (2 * i.val + 1 + 1) * 2 ^ d ≤ p.numElements := by
      calc (2 * i.val + 1 + 1) * 2 ^ d = (i.val + 1) * 2 ^ (d + 1) := by ring
        _ ≤ _ := whole
    have left : (2 * i.val + 1) * 2 ^ d ≤ p.numElements :=
      (Nat.mul_le_mul_right _ (Nat.le_succ _)).trans right
    have inside : 2 * i.val + 1 < p.numElements :=
      (Nat.le_mul_of_pos_right _ (Nat.two_pow_pos d)).trans right
    simp only [layers,dif_pos inside,Sync.ReduceTree.level]
    rw [ih _ left,ih _ right]
    rfl

/-- A wider wire takes the bits of a negative number as a positive one. -/
theorem setWidth_eq {w v : Nat} (wider : w ≤ v) (a : BitVec w) :
    a.setWidth v = a.signExtend v + BitVec.ofNat v ((if a.msb then 1 else 0) * 2 ^ w) := by
  have room : 2 ^ w ≤ 2 ^ v := Nat.pow_le_pow_right (Nat.succ_pos 1) wider
  have small := a.isLt
  apply BitVec.eq_of_toNat_eq
  rw [BitVec.toNat_add,BitVec.toNat_ofNat,BitVec.toNat_signExtend,BitVec.toNat_setWidth_of_le wider]
  cases a.msb with
  | false => simp [Nat.mod_eq_of_lt (small.trans_le room)]
  | true =>
    have whole : a.toNat + (2 ^ v - 2 ^ w) + 2 ^ w = a.toNat + 2 ^ v := by omega
    simp only [↓reduceIte,Nat.one_mul,Nat.add_mod_mod]
    rw [whole,Nat.add_mod_right,Nat.mod_eq_of_lt (by omega)]

theorem sum_setWidth {w v : Nat} (wider : w ≤ v) (l : List (BitVec w)) :
    (l.map (BitVec.setWidth v)).sum =
      (l.map (BitVec.signExtend v)).sum + BitVec.ofNat v (l.countP BitVec.msb * 2 ^ w) := by
  induction l with
  | nil => simp
  | cons a l ih =>
    rw [List.map_cons,List.map_cons,List.sum_cons,List.sum_cons,List.countP_cons,ih,setWidth_eq wider a,
      Nat.add_mul,BitVec.ofNat_add]
    ac_rfl

theorem ofNat_eq_zero_iff {w v : Nat} (wider : w ≤ v) (n : Nat) :
    BitVec.ofNat v (n * 2 ^ w) = 0#v ↔ 2 ^ (v - w) ∣ n := by
  have split : 2 ^ v = 2 ^ (v - w) * 2 ^ w := by rw [← Nat.pow_add,Nat.sub_add_cancel wider]
  rw [← BitVec.toNat_inj,BitVec.toNat_ofNat,BitVec.toNat_zero,← Nat.dvd_iff_mod_eq_zero,split]
  exact Nat.mul_dvd_mul_iff_right (Nat.two_pow_pos w)

theorem out_eq (x : In p) {g : Nat} (chosen : g < p.groupSizes.length) :
    out p (BitVec.ofNat _ g) x = layers p x (log2Ceil (p.groupSizes.get ⟨g,chosen⟩)) := by
  have fits : g < 2 ^ log2Ceil (p.groupSizes.length + 1) :=
    (Nat.lt_succ_of_lt chosen).trans_le (le_two_pow_log2Ceil _)
  have listed : g < (adderResults p x).length := by
    rw [adderResults,List.length_map]
    exact chosen
  rw [out,BitVec.toNat_ofNat,Nat.mod_eq_of_lt fits,List.getD_eq_getElem?_getD,List.getElem?_eq_getElem listed]
  simp [adderResults]

/-- An output is the sum of the zero-extended inputs of its group. -/
theorem out_sum (x : In p) {g : Nat} (chosen : g < p.groupSizes.length) {k : Fin p.numElements}
    (due : k.val < p.numElements / p.groupSizes.get ⟨g,chosen⟩) :
    out p (BitVec.ofNat _ g) x k =
      ((group x (p.groupSizes.get ⟨g,chosen⟩) k).map (BitVec.setWidth _)).sum := by
  obtain ⟨d,power⟩ := p.groupsPow2 _ (p.groupSizes.get_mem ⟨g,chosen⟩)
  have whole : (k.val + 1) * 2 ^ d ≤ p.numElements := by
    rw [power] at due
    exact (Nat.le_div_iff_mul_le (Nat.two_pow_pos d)).mp due
  rw [out_eq x chosen,power,log2Ceil_two_pow,layers_level x d k whole,Sync.ReduceTree.level_sum,group,
    List.map_map]
  rfl

/-- The outputs are the sums of the sign-extended groups exactly where the zeros before the
negative inputs cancel: always for equal widths, and never for a single negative input. -/
theorem adder_tree (wider : p.inputType.width ≤ p.outputType.width) (x : In p) {g : Nat}
    (chosen : g < p.groupSizes.length) {k : Fin p.numElements}
    (due : k.val < p.numElements / p.groupSizes.get ⟨g,chosen⟩) :
    out p (BitVec.ofNat _ g) x k = groupSum x (p.groupSizes.get ⟨g,chosen⟩) k ↔
      2 ^ (p.outputType.width - p.inputType.width) ∣ negatives x (p.groupSizes.get ⟨g,chosen⟩) k := by
  rw [out_sum x chosen due,sum_setWidth wider,← ofNat_eq_zero_iff wider]
  exact add_eq_left

theorem emitted_elements : (8).isPowerOfTwo := ⟨3,rfl⟩

theorem emitted_groups : ∀ size ∈ [1,2,4], size.isPowerOfTwo := by
  intro size member
  simp only [List.mem_cons,List.not_mem_nil,or_false] at member
  rcases member with rfl | rfl | rfl
  · exact ⟨0,rfl⟩
  · exact ⟨1,rfl⟩
  · exact ⟨2,rfl⟩

theorem emitted_number : [1,2,4].length < 32 ∧ 1 ≤ [1,2,4].length := ⟨by decide,by decide⟩

/-- `AdderTreeEmitterUInt`. -/
def emitted : AdderTreeParam where
  inputType := ⟨8⟩
  outputType := ⟨9⟩
  numElements := 8
  groupSizes := [1,2,4]
  elementsPow2 := emitted_elements
  groupsPow2 := emitted_groups
  groupsNumber := emitted_number

/-- All inputs are minus one. -/
def minusOnes : In emitted := fun _ => 255

theorem emitted_positive : 0 < emitted.numElements := Nat.succ_pos 7

def firstElement : Fin emitted.numElements := ⟨0,emitted_positive⟩

theorem emitted_first : 0 < emitted.groupSizes.length := Nat.succ_pos 2

theorem emitted_second : 1 < emitted.groupSizes.length := Nat.lt_of_sub_eq_succ rfl

theorem adder_tree_pairs : out emitted 1 minusOnes firstElement = groupSum minusOnes 2 0 ↔
    2 ^ (9 - 8) ∣ negatives minusOnes 2 0 :=
  adder_tree (p := emitted) (Nat.le_succ 8) minusOnes emitted_second (k := firstElement) (by decide)

theorem adder_tree_widened : ¬ ∀ (p : AdderTreeParam), p.inputType.width ≤ p.outputType.width →
    ∀ (x : In p) (g : Nat) (chosen : g < p.groupSizes.length) (k : Fin p.numElements),
      k.val < p.numElements / p.groupSizes.get ⟨g,chosen⟩ →
        out p (BitVec.ofNat _ g) x k = groupSum x (p.groupSizes.get ⟨g,chosen⟩) k := by
  intro claimed
  have single := claimed emitted (Nat.le_succ 8) minusOnes 0 emitted_first firstElement (by decide)
  exact absurd single (by decide)

end AdderTree
end Snax
