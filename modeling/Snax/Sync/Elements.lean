import Mathlib.Data.List.GetD
import Mathlib.Logic.Equiv.Fin.Basic
import Snax.Sync.BitList

/-! Words cut into elements of one width, the first from the low end: vectors and matrices of
elements as words, and what a word keeps of them. -/
namespace Sync

variable {w m n k : Nat}

/-- Element `k` of a word. -/
def element (w : Nat) (x : BitVec m) (k : Nat) : BitVec w := x.extractLsb' (k * w) w

/-- The elements side by side, with zeros above them. -/
def packed (m : Nat) (f : Fin n → BitVec w) : BitVec m :=
  BitList.word m ((List.ofFn f).flatMap BitList.bits)

/-- The low bits of a word. -/
def lowPart (used : Nat) (x : BitVec m) : BitVec m := (x.setWidth used).setWidth m

theorem lowPart_of_lt {used : Nat} {x : BitVec m} (small : x.toNat < 2 ^ used) : lowPart used x = x := by
  apply BitVec.eq_of_toNat_eq
  rw [lowPart,BitVec.toNat_setWidth,BitVec.toNat_setWidth,Nat.mod_eq_of_lt small,Nat.mod_eq_of_lt x.isLt]

theorem getD_flatMap_bits (positive : 0 < w) (l : List (BitVec w)) (b : Nat) :
    (l.flatMap BitList.bits).getD b false = (l.getD (b / w) 0).getLsbD (b % w) := by
  induction l generalizing b with
  | nil => simp
  | cons x l ih =>
    rw [List.flatMap_cons]
    rcases Nat.lt_or_ge b w with first | later
    · rw [Nat.div_eq_of_lt first,Nat.mod_eq_of_lt first,List.getD_append _ _ _ _ (by simpa using first)]
      simp [BitList.bits,first]
    · obtain ⟨b,rfl⟩ := Nat.exists_eq_add_of_le later
      rw [List.getD_append_right _ _ _ _ (by simp),BitList.bits_length,Nat.add_sub_cancel_left,ih,
        Nat.add_div_left _ positive,Nat.add_mod_left,List.getD_cons_succ]

theorem getLsbD_packed (positive : 0 < w) (f : Fin n → BitVec w) {b : Nat} (inside : b < m) :
    (packed m f).getLsbD b = ((List.ofFn f).getD (b / w) 0).getLsbD (b % w) := by
  rw [← getD_flatMap_bits positive,packed,← BitList.getElem_word m _ inside,BitVec.getLsbD_eq_getElem]

/-- The word may be too short for the later elements. -/
theorem element_packed_of_lt (f : Fin n → BitVec w) (inside : k < n) (fits : (k + 1) * w ≤ m) :
    element w (packed m f) k = f ⟨k,inside⟩ := by
  apply BitVec.eq_of_getLsbD_eq
  intro j low
  have positive : 0 < w := Nat.zero_lt_of_lt low
  rw [Nat.succ_mul] at fits
  rw [element,BitVec.getLsbD_extractLsb',getLsbD_packed positive f (by omega),
    Nat.mul_add_mod_of_lt low,Nat.mul_comm,Nat.mul_add_div positive,Nat.div_eq_of_lt low]
  simp [low,inside]

theorem element_packed (f : Fin n → BitVec w) (fits : n * w ≤ m) (k : Fin n) :
    element w (packed m f) k.val = f k :=
  element_packed_of_lt f k.isLt ((Nat.mul_le_mul_right w k.isLt).trans fits)

/-- Cutting a word and packing it again leaves its low bits. -/
theorem packed_element (x : BitVec m) :
    packed m (fun k : Fin n => element w x k.val) = lowPart (n * w) x := by
  apply BitVec.eq_of_getLsbD_eq
  intro b inside
  rcases Nat.eq_zero_or_pos w with rfl | positive
  · have empty : (List.ofFn fun k : Fin n => element 0 x k.val).flatMap BitList.bits = [] := by
      simp [BitList.bits]
    rw [packed,empty]
    simp [BitList.word,lowPart]
  · rw [getLsbD_packed positive _ inside]
    have place := Nat.div_add_mod' b w
    rcases Nat.lt_or_ge b (n * w) with low | high
    · have index : b / w < n := Nat.div_lt_of_lt_mul (by rwa [Nat.mul_comm])
      simp [lowPart,element,index,low,inside,place,Nat.mod_lt b positive]
    · have index : ¬ b / w < n := Nat.not_lt.mpr ((Nat.le_div_iff_mul_le positive).mpr high)
      simp [lowPart,index,Nat.not_lt.mpr high]

/-- A matrix of elements, row by row. -/
def asUInt (m : Nat) {rows cols : Nat} (v : Fin rows → Fin cols → BitVec w) : BitVec m :=
  packed m fun k : Fin (rows * cols) => v k.divNat k.modNat

def asVec (rows cols w : Nat) (x : BitVec m) : Fin rows → Fin cols → BitVec w := fun i j =>
  element w x (i.val * cols + j.val)

theorem asVec_asUInt {rows cols : Nat} (v : Fin rows → Fin cols → BitVec w)
    (fits : rows * cols * w ≤ m) : asVec rows cols w (asUInt m v) = v := by
  funext i j
  have place := element_packed (fun k : Fin (rows * cols) => v k.divNat k.modNat) fits
    (finProdFinEquiv (i,j))
  obtain ⟨row,col⟩ := Prod.mk.inj (finProdFinEquiv.symm_apply_apply (i,j))
  have index : (finProdFinEquiv (i,j)).val = i.val * cols + j.val := by
    rw [finProdFinEquiv_apply_val,Nat.add_comm,Nat.mul_comm]
  rwa [row,col,index] at place

theorem asUInt_asVec {rows cols : Nat} (x : BitVec m) :
    asUInt m (asVec rows cols w x) = lowPart (rows * cols * w) x := by
  rw [← packed_element,asUInt]
  refine congrArg _ (funext fun k => ?_)
  exact congrArg (element w x) (Nat.div_add_mod' k.val cols)

end Sync
