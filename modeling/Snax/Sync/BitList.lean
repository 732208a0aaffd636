import Mathlib.Data.BitVec
import Mathlib.Data.List.FinRange

/-! Wires of unknown length as lists of bits, least significant first, so that the wire
concatenation `a ## b` is `b ++ a`. Fixed-width words are laid down on such a list and
sliced off its low end again; what lies beyond the end of the list reads as zero. -/
namespace BitList

def bits (x : BitVec w) : List Bool := List.ofFn fun i : Fin w => x.getLsbD i

/-- The low `w` bits. -/
def word (w : Nat) (l : List Bool) : BitVec w := (BitVec.ofBoolListLE l).setWidth w

/-- Slice a word off the low end. -/
def slice (w : Nat) : StateM (List Bool) (BitVec w) := fun l => (word w l,l.drop w)

/-- Slice `n` words off, the first from the low end. -/
def sliceVec (w : Nat) : (n : Nat) → StateM (List Bool) (Vector (BitVec w) n)
  | 0 => pure #v[]
  | n + 1 => do
    let front ← sliceVec w n
    let last ← slice w
    return front.push last

def bitsVec (v : Vector (BitVec w) n) : List Bool := v.toList.flatMap bits

@[simp] theorem bits_length (x : BitVec w) : (bits x).length = w := by simp [bits]

@[simp] theorem bits_zero : bits (0 : BitVec w) = List.replicate w false := by simp [bits]

@[simp] theorem getElem_word (w : Nat) (l : List Bool) {k : Nat} (inside : k < w) :
    (word w l)[k] = l.getD k false := by
  simp [word]

@[simp] theorem word_bits_append (x : BitVec w) (rest : List Bool) :
    word w (bits x ++ rest) = x := by
  apply BitVec.eq_of_getElem_eq
  intro k inside
  rw [getElem_word _ _ inside,List.getD_eq_getElem?_getD,List.getElem?_append_left (by simpa using inside)]
  simp [bits,inside]

theorem bits_word (l : List Bool) (long : w ≤ l.length) : bits (word w l) = l.take w := by
  apply List.ext_getElem
  · simp [long]
  · intro k inside _
    have within : k < l.length := by simp at inside; omega
    simp [bits,within]

@[simp] theorem bitsVec_length (v : Vector (BitVec w) n) : (bitsVec v).length = n * w := by
  simp [bitsVec,List.length_flatMap]

theorem bitsVec_ofFn (f : Nat → BitVec w) (n : Nat) :
    bitsVec (Vector.ofFn fun k : Fin n => f k.val) = (List.range n).flatMap fun k => bits (f k) := by
  rw [bitsVec,Vector.toList_ofFn,List.ofFn_eq_map,List.flatMap_map,← List.map_coe_finRange_eq_range,
    List.flatMap_map]

theorem bitsVec_pair (v : Vector (BitVec w) 2) :
    bitsVec v = bits (v.get ⟨0,Nat.two_pos⟩) ++ bits (v.get ⟨1,Nat.one_lt_two⟩) := by
  have both : v.toList = [v.get ⟨0,Nat.two_pos⟩,v.get ⟨1,Nat.one_lt_two⟩] := by
    apply List.ext_getElem
    · simp
    · intro k inside _
      have cases : k = 0 ∨ k = 1 := by simp at inside; omega
      rcases cases with rfl | rfl <;> simp [Vector.get]
  simp [bitsVec,both]

theorem slice_bits (x : BitVec w) (rest : List Bool) : slice w (bits x ++ rest) = (x,rest) := by
  simp [slice]

/-- Slicing as many words as were laid down returns them and leaves the rest. -/
theorem sliceVec_bitsVec (v : Vector (BitVec w) n) (rest : List Bool) :
    sliceVec w n (bitsVec v ++ rest) = (v,rest) := by
  induction n generalizing rest with
  | zero =>
    obtain rfl : v = #v[] := Vector.eq_empty
    rfl
  | succ n ih =>
    have layout : bitsVec v ++ rest = bitsVec v.pop ++ (bits v.back ++ rest) := by
      conv_lhs => rw [← Vector.push_pop_back v]
      simp only [bitsVec,Vector.toList_push,List.flatMap_append,List.flatMap_singleton,
        List.append_assoc]
    rw [layout]
    change (let (front,left) := sliceVec w n _; let (last,left) := slice w left
      ((front.push last,left) : Vector (BitVec w) (n + 1) × List Bool)) = _
    simp only [ih,slice_bits,Vector.push_pop_back]

theorem bind_slice (x : BitVec w) (rest : List Bool) (k : BitVec w → StateM (List Bool) α) :
    (slice w >>= k) (bits x ++ rest) = k x rest := by
  change k (slice w _).1 (slice w _).2 = _
  rw [slice_bits]

theorem bind_sliceVec (v : Vector (BitVec w) n) (rest : List Bool)
    (k : Vector (BitVec w) n → StateM (List Bool) α) :
    (sliceVec w n >>= k) (bitsVec v ++ rest) = k v rest := by
  change k (sliceVec w n _).1 (sliceVec w n _).2 = _
  rw [sliceVec_bitsVec]

/-- The `k`-th of the words that a list is cut into. -/
def chunk (w : Nat) (l : List Bool) (k : Nat) : BitVec w := word w (l.drop (k * w))

theorem chunk_beyond (l : List Bool) (k : Nat) (beyond : l.length ≤ k * w) : chunk w l k = 0 := by
  apply BitVec.eq_of_getElem_eq
  intro j _
  rw [chunk,List.drop_eq_nil_of_le beyond]
  simp

/-- Zeros above the last bit do not change the words. -/
theorem chunk_append_zeros (l : List Bool) (m k : Nat) :
    chunk w (l ++ List.replicate m false) k = chunk w l k := by
  apply BitVec.eq_of_getElem_eq
  intro j inside
  simp only [chunk,getElem_word _ _ inside,List.getD_eq_getElem?_getD,List.getElem?_drop]
  rcases Nat.lt_or_ge (k * w + j) l.length with below | beyond
  · rw [List.getElem?_append_left below]
  · rw [List.getElem?_append_right beyond,List.getElem?_eq_none beyond,List.getElem?_replicate]
    split <;> rfl

/-- Cutting a list into words loses nothing. -/
theorem chunks_flatten (n : Nat) (l : List Bool) (long : l.length = n * w) :
    (List.range n).flatMap (fun k => bits (chunk w l k)) = l := by
  induction n generalizing l with
  | zero =>
    rw [Nat.zero_mul] at long
    exact (List.eq_nil_of_length_eq_zero long).symm
  | succ n ih =>
    have split : (n + 1) * w = w + n * w := by rw [Nat.add_mul,Nat.one_mul,Nat.add_comm]
    have rest := ih (l.drop w) (by simp [long,split])
    rw [List.range_succ_eq_map,List.flatMap_cons,List.flatMap_map]
    conv_rhs => rw [← List.take_append_drop w l,← rest]
    congr 1
    · rw [chunk,Nat.zero_mul,List.drop_zero,bits_word l (by omega)]
    · apply List.flatMap_congr
      intro k _
      rw [chunk,chunk,List.drop_drop,Nat.add_one_mul,Nat.add_comm]

end BitList
