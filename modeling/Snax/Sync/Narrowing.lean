import Mathlib.Data.Nat.ModEq

/-! Values carried through a field of another width: cut or widened on the way in, and
widened or cut back on the way out. What comes back is the value exactly when the field
has room for it. -/
namespace Sync.Narrowing

/-- A value survives a field of `v` bits exactly when it fits there. -/
theorem setWidth_setWidth_iff (v : Nat) (x : BitVec w) :
    (x.setWidth v).setWidth w = x ↔ x.toNat < 2 ^ v := by
  rw [BitVec.toNat_eq,BitVec.toNat_setWidth,BitVec.toNat_setWidth]
  constructor
  · intro same
    rw [← same]
    exact Nat.lt_of_le_of_lt (Nat.mod_le _ _) (Nat.mod_lt _ (Nat.two_pow_pos v))
  · intro fits
    rw [Nat.mod_eq_of_lt fits,Nat.mod_eq_of_lt x.isLt]

/-- A value that fits in `v` bits reads the same in any further width. -/
theorem setWidth_setWidth_of_lt {v u : Nat} {x : BitVec w} (fits : x.toNat < 2 ^ v) :
    (x.setWidth v).setWidth u = x.setWidth u := by
  rw [BitVec.toNat_eq]
  simp [Nat.mod_eq_of_lt fits]

/-- Dropping the low bits and putting zeros back restores exactly the multiples. -/
theorem append_zeros_iff {lo : Nat} (inside : lo ≤ w) (x : BitVec w) :
    (x.extractLsb' lo (w - lo) ++ BitVec.ofNat lo 0).setWidth w = x ↔ 2 ^ lo ∣ x.toNat := by
  have room : x.toNat / 2 ^ lo < 2 ^ (w - lo) := by
    rw [Nat.div_lt_iff_lt_mul (Nat.two_pow_pos lo),← Nat.pow_add,Nat.sub_add_cancel inside]
    exact x.isLt
  have value : ((x.extractLsb' lo (w - lo) ++ BitVec.ofNat lo 0).setWidth w).toNat = x.toNat / 2 ^ lo * 2 ^ lo := by
    rw [BitVec.toNat_setWidth,BitVec.toNat_append,BitVec.extractLsb'_toNat,Nat.shiftRight_eq_div_pow,
      Nat.mod_eq_of_lt room,Nat.shiftLeft_eq]
    have small := Nat.div_mul_le_self x.toNat (2 ^ lo)
    simp [Nat.mod_eq_of_lt (Nat.lt_of_le_of_lt small x.isLt)]
  rw [BitVec.toNat_eq,value]
  exact ⟨fun same => ⟨_,by rw [Nat.mul_comm,same]⟩,fun divides => Nat.div_mul_cancel divides⟩

end Sync.Narrowing
