import Mathlib.Data.Fintype.EquivFin
import Mathlib.Data.Nat.Prime.Basic
import Snax.SimBanks
import Snax.SparseRouting

/-! The address remappings of `AddressGenUnit.scala` as permutations of the addresses, and
what they leave of a legal access to the sparse interconnect. -/
namespace Snax

namespace AddressGenUnit

/-! ### The swizzles -/

/-- Bits `[7:5]` under a key that the row of 256 bytes determines. -/
def swizzle (key : Nat → Nat) (a : Nat) : Nat :=
  256 * (a / 256) + 32 * ((a / 32 % 8) ^^^ key (a / 256)) + a % 32

variable {key : Nat → Nat}

theorem group_xor_lt (small : ∀ r, key r < 8) (a : Nat) : (a / 32 % 8) ^^^ key (a / 256) < 8 :=
  Nat.xor_lt_two_pow (n := 3) (Nat.mod_lt _ (by decide)) (small _)

theorem swizzle_row (small : ∀ r, key r < 8) (a : Nat) : swizzle key a / 256 = a / 256 := by
  have group := group_xor_lt small a
  unfold swizzle
  omega

theorem swizzle_low (a : Nat) : swizzle key a % 32 = a % 32 := by
  unfold swizzle
  omega

theorem swizzle_group (small : ∀ r, key r < 8) (a : Nat) :
    swizzle key a / 32 % 8 = (a / 32 % 8) ^^^ key (a / 256) := by
  have group := group_xor_lt small a
  unfold swizzle
  omega

theorem swizzle_swizzle (small : ∀ r, key r < 8) (a : Nat) : swizzle key (swizzle key a) = a := by
  have twice : swizzle key (swizzle key a) = 256 * (swizzle key a / 256) +
      32 * ((swizzle key a / 32 % 8) ^^^ key (swizzle key a / 256)) + swizzle key a % 32 := rfl
  rw [twice,swizzle_row small,swizzle_low,swizzle_group small,Nat.xor_assoc,Nat.xor_self,Nat.xor_zero]
  omega

/-- A key of two bits leaves bit 7. -/
theorem swizzle_half (small : ∀ r, key r < 4) (a : Nat) : swizzle key a / 128 = a / 128 := by
  have split : ∀ x < 8, ∀ y < 4, (x ^^^ y) / 4 = x / 4 := by decide
  have half := split (a / 32 % 8) (Nat.mod_lt _ (by decide)) (key (a / 256)) (small _)
  have group := group_xor_lt (fun r => (small r).trans (by decide)) a
  unfold swizzle
  omega

theorem swizzle_lt (small : ∀ r, key r < 8) (wide : 12 ≤ w) {a : Nat} (inside : a < 2 ^ w) :
    swizzle key a < 2 ^ w := by
  have rows : 2 ^ w = 2 ^ (w - 8) * 256 := by
    rw [show (256 : Nat) = 2 ^ 8 by decide,← Nat.pow_add,Nat.sub_add_cancel (by omega)]
  rw [rows] at inside ⊢
  rw [← Nat.div_lt_iff_lt_mul (by decide)] at inside ⊢
  rwa [swizzle_row small]

/-- A mapping that swizzles the addresses. -/
def Swizzles (key : Nat → Nat) (f : BitVec w → BitVec w) : Prop :=
  (∀ r, key r < 8) ∧ ∀ a, (f a).toNat = swizzle key a.toNat

theorem row_field (wide : 12 ≤ w) (a : BitVec w) : field a.toNat 8 (w - 8) = a.toNat / 256 := by
  refine Nat.mod_eq_of_lt (Nat.div_lt_of_lt_mul ?_)
  rw [← Nat.pow_add,Nat.add_sub_cancel' (by omega)]
  exact a.isLt

/-- The three fields of a swizzled address, put together again. -/
theorem swizzles_of_cat {f : BitVec w → BitVec w} (wide : 12 ≤ w) (small : ∀ r, key r < 8)
    (fields : ∀ a : BitVec w, f a = BitVec.ofNat w (cat (cat (field a.toNat 8 (w - 8))
      (field a.toNat 5 3 ^^^ key (a.toNat / 256)) 3) (field a.toNat 0 5) 5)) : Swizzles key f := by
  refine ⟨small,fun a => ?_⟩
  have value : cat (cat (field a.toNat 8 (w - 8)) (field a.toNat 5 3 ^^^ key (a.toNat / 256)) 3)
      (field a.toNat 0 5) 5 = swizzle key a.toNat := by
    rw [row_field wide]
    simp only [cat,field,swizzle,Nat.reducePow,Nat.div_one]
    omega
  rw [fields,value,BitVec.toNat_ofNat,Nat.mod_eq_of_lt (swizzle_lt small wide a.isLt)]

theorem xor_swizzles (wide : 12 ≤ w) : Swizzles (· % 8) (xorBankSwizzleMapping (w := w)) :=
  swizzles_of_cat wide (fun r => Nat.mod_lt r (by decide)) fun _ => rfl

theorem half_swizzles (wide : 12 ≤ w) : Swizzles (· % 4) (halfXorBankSwizzleMapping (w := w)) := by
  refine ⟨fun r => (Nat.mod_lt r (by decide)).trans (by decide),fun a => ?_⟩
  have small : ∀ r, r % 4 < 8 := fun r => (Nat.mod_lt r (by decide)).trans (by decide)
  have split : ∀ x < 8, ∀ y < 4, x ^^^ y = 4 * (x / 4) + (x % 4 ^^^ y) := by decide
  have group := split (a.toNat / 32 % 8) (Nat.mod_lt _ (by decide)) (a.toNat / 256 % 4)
    (Nat.mod_lt _ (by decide))
  have upper : field a.toNat 7 (w - 7) = a.toNat / 128 := by
    refine Nat.mod_eq_of_lt (Nat.div_lt_of_lt_mul ?_)
    rw [← Nat.pow_add,Nat.add_sub_cancel' (by omega)]
    exact a.isLt
  have value : cat (cat (field a.toNat 7 (w - 7)) (field a.toNat 5 2 ^^^ field a.toNat 8 2) 2)
      (field a.toNat 0 5) 5 = swizzle (· % 4) a.toNat := by
    have low : a.toNat / 32 % 8 % 4 = a.toNat / 32 % 4 := by omega
    rw [low] at group
    rw [upper]
    simp only [cat,field,swizzle,Nat.reducePow,Nat.div_one,group]
    omega
  rw [halfXorBankSwizzleMapping,value,BitVec.toNat_ofNat,Nat.mod_eq_of_lt (swizzle_lt small wide a.isLt)]

/-- The deep key as a function of the row. -/
def rowKey (w r : Nat) : Nat :=
  ((List.range ((w - 8 + 2) / 3)).map fun g =>
    field r (3 * g) (min (8 + 3 * g + 2) (w - 1) + 1 - (8 + 3 * g))).foldl (· ^^^ ·) 0

theorem deepKey_eq (w a : Nat) : deepKey w a = rowKey w (a / 256) := by
  have shifted (lo n : Nat) : field a (8 + lo) n = field (a / 256) lo n := by
    rw [field,field,Nat.div_div_eq_div_mul,show (256 : Nat) = 2 ^ 8 by decide,← Nat.pow_add]
  simp only [deepKey,rowKey,shifted]

theorem deep_swizzles (wide : 12 ≤ w) : Swizzles (rowKey w) (deepXorBankSwizzleMapping (w := w)) := by
  have small : ∀ r, rowKey w r < 8 := by
    intro r
    have same : rowKey w r = deepKey w (256 * r) := by
      rw [deepKey_eq,Nat.mul_div_cancel_left _ (by decide)]
    rw [same]
    exact deepKey_lt w _
  refine swizzles_of_cat wide small fun a => ?_
  rw [deepXorBankSwizzleMapping,deepKey_eq]

theorem Swizzles.involutive {f : BitVec w → BitVec w} (swizzles : Swizzles key f) :
    Function.Involutive f := by
  intro a
  refine BitVec.eq_of_toNat_eq ?_
  rw [swizzles.2,swizzles.2,swizzle_swizzle swizzles.1]

/-! ### The affine mapping -/

theorem field_split (x lo m n : Nat) : field x lo (m + n) = cat (field x (lo + m) n) (field x lo m) m := by
  rw [field,field,field,cat,Nat.pow_add 2 lo m,← Nat.div_div_eq_div_mul,Nat.pow_add,Nat.mod_mul,
    Nat.add_comm,Nat.mul_comm]

theorem cat_inj {hi lo hi' lo' n : Nat} (low : lo < 2 ^ n) (low' : lo' < 2 ^ n)
    (same : cat hi lo n = cat hi' lo' n) : hi = hi' ∧ lo = lo' := by
  unfold cat at same
  have highs := congrArg (· / 2 ^ n) same
  have lows := congrArg (· % 2 ^ n) same
  simp only [Nat.mul_add_mod_self_right,Nat.mod_eq_of_lt low,Nat.mod_eq_of_lt low'] at lows
  simp only [Nat.add_comm _ lo,Nat.add_comm _ lo',Nat.add_mul_div_right _ _ (Nat.two_pow_pos n),
    Nat.div_eq_of_lt low,Nat.div_eq_of_lt low',Nat.zero_add] at highs
  exact ⟨highs,lows⟩

theorem cat_lt {hi lo m n : Nat} (high : hi < 2 ^ m) (low : lo < 2 ^ n) : cat hi lo n < 2 ^ (m + n) := by
  have room := Nat.mul_le_mul_right (2 ^ n) (Nat.succ_le_of_lt high)
  rw [Nat.succ_mul,← Nat.pow_add] at room
  unfold cat
  omega

/-- The value of an address with the `shift` bits on top moved above the `low` ones. -/
theorem toNat_affine {low shift : Nat} (some : 0 < shift) (fits : low + shift ≤ w) (a : BitVec w) :
    (affineAddressMapping (2 ^ (low + shift)) (2 ^ low) a).toNat =
      cat (cat (field a.toNat low (w - shift - low)) (field a.toNat (w - shift) shift) shift)
        (field a.toNat 0 low) low := by
  have other : ¬ 2 ^ low = 2 ^ (low + shift) := fun same => by
    have := Nat.pow_right_injective (Nat.le_refl 2) same
    omega
  have difference : low + shift - low = shift := by omega
  rw [affineAddressMapping,if_neg other]
  simp only [log2Ceil_two_pow,difference,BitVec.toNat_ofNat]
  refine Nat.mod_eq_of_lt ?_
  have bound := cat_lt (cat_lt (field_lt a.toNat low (w - shift - low)) (field_lt a.toNat (w - shift) shift))
    (field_lt a.toNat 0 low)
  rwa [show w - shift - low + shift + low = w by omega] at bound

/-- An address is its three fields. -/
theorem fields_eq {low shift : Nat} (fits : low + shift ≤ w) (a : BitVec w) :
    a.toNat = cat (field a.toNat (w - shift) shift)
      (cat (field a.toNat low (w - shift - low)) (field a.toNat 0 low) low) (w - shift) := by
  have whole : field a.toNat 0 w = a.toNat := by simp [field,Nat.mod_eq_of_lt a.isLt]
  have lower := field_split a.toNat 0 low (w - shift - low)
  have upper := field_split a.toNat 0 (w - shift) shift
  rw [show low + (w - shift - low) = w - shift by omega,Nat.zero_add] at lower
  rw [show w - shift + shift = w by omega,Nat.zero_add,whole,lower] at upper
  exact upper

theorem affine_injective {low shift : Nat} (fits : low + shift ≤ w) :
    Function.Injective (affineAddressMapping (w := w) (2 ^ (low + shift)) (2 ^ low)) := by
  rcases Nat.eq_zero_or_pos shift with rfl | some
  · intro a b same
    simpa [affineAddressMapping] using same
  · intro a b same
    have values := congrArg BitVec.toNat same
    rw [toNat_affine some fits,toNat_affine some fits] at values
    obtain ⟨uppers,lows⟩ := cat_inj (field_lt _ _ _) (field_lt _ _ _) values
    obtain ⟨middles,tops⟩ := cat_inj (field_lt _ _ _) (field_lt _ _ _) uppers
    refine BitVec.eq_of_toNat_eq ?_
    rw [fields_eq fits a,fields_eq fits b,middles,tops,lows]

theorem affine_low {low shift : Nat} (fits : low + shift ≤ w) (a : BitVec w) :
    (affineAddressMapping (2 ^ (low + shift)) (2 ^ low) a).toNat % 2 ^ low = a.toNat % 2 ^ low := by
  rcases Nat.eq_zero_or_pos shift with rfl | some
  · simp [affineAddressMapping]
  · rw [toNat_affine some fits,cat,Nat.mul_add_mod_self_right]
    simp [field]

/-! ### The selected mapping -/

/-- What elaboration asks of a logical word size: 256 bytes of physical word size and twelve
bits for the swizzles, two powers of two otherwise. -/
def Elaborates (physWordSize : Nat) (size : Int) (w : Nat) : Prop :=
  if size = 0 ∨ size = -1 ∨ size = -2 then physWordSize = 256 ∧ 12 ≤ w
  else ∃ low shift, size = 2 ^ low ∧ physWordSize = 2 ^ (low + shift) ∧ low + shift ≤ w

/-- The bytes that stay together: a logical word, or the four banks of a group. -/
def unit (size : Int) : Nat := if size = 0 ∨ size = -1 ∨ size = -2 then 32 else size.toNat

theorem mapping_swizzles (physWordSize : Nat) {size : Int} (swizzled : size = 0 ∨ size = -1 ∨ size = -2)
    (wide : 12 ≤ w) : ∃ key : Nat → Nat, Swizzles key (mapping (w := w) physWordSize size) ∧
      (size = -1 → ∀ r, key r < 4) := by
  rcases swizzled with rfl | rfl | rfl
  · exact ⟨_,xor_swizzles wide,fun h => absurd h (by decide)⟩
  · exact ⟨_,half_swizzles wide,fun _ r => Nat.mod_lt r (by decide)⟩
  · exact ⟨_,deep_swizzles wide,fun h => absurd h (by decide)⟩

theorem mapping_affine {physWordSize : Nat} {size : Int} (affine : ¬ (size = 0 ∨ size = -1 ∨ size = -2)) :
    mapping (w := w) physWordSize size = affineAddressMapping physWordSize size.toNat := by
  obtain ⟨zero,rest⟩ := not_or.mp affine
  obtain ⟨half,deep⟩ := not_or.mp rest
  funext a
  rw [mapping,if_neg zero,if_neg half,if_neg deep]

theorem mapping_bijective {physWordSize : Nat} {size : Int} (elaborates : Elaborates physWordSize size w) :
    Function.Bijective (mapping (w := w) physWordSize size) := by
  unfold Elaborates at elaborates
  split at elaborates
  · next swizzled =>
    obtain ⟨key,swizzles,_⟩ := mapping_swizzles physWordSize swizzled elaborates.2
    exact swizzles.involutive.bijective
  · next affine =>
    obtain ⟨low,shift,rfl,rfl,fits⟩ := elaborates
    rw [mapping_affine affine]
    have size : ((2 : Int) ^ low).toNat = 2 ^ low := by
      exact_mod_cast Int.toNat_natCast (2 ^ low)
    have finite : Finite (BitVec w) := Finite.of_injective BitVec.toFin fun _ _ => BitVec.toFin_inj.mp
    rw [size]
    exact Finite.injective_iff_bijective.mp (affine_injective fits)

theorem mapping_unit {physWordSize : Nat} {size : Int} (elaborates : Elaborates physWordSize size w)
    (a : BitVec w) : (mapping physWordSize size a).toNat % unit size = a.toNat % unit size := by
  unfold Elaborates at elaborates
  unfold unit
  split at elaborates
  · next swizzled =>
    obtain ⟨key,swizzles,_⟩ := mapping_swizzles physWordSize swizzled elaborates.2
    rw [if_pos swizzled,swizzles.2,swizzle_low]
  · next affine =>
    obtain ⟨low,shift,rfl,rfl,fits⟩ := elaborates
    have size : ((2 : Int) ^ low).toNat = 2 ^ low := by
      exact_mod_cast Int.toNat_natCast (2 ^ low)
    rw [if_neg affine,mapping_affine affine,size]
    exact affine_low fits a

/-! ### Legal accesses -/

/-- The requests with their addresses remapped, each port by its own mapping. -/
def remapped {sp : SparseInterconnectParam} (physWordSize : Fin sp.numInp → Nat) (size : Fin sp.numInp → Int)
    (i : SparseInterconnect.Input sp) : SparseInterconnect.Input sp :=
  { i with tcdmBits := fun n =>
      { i.tcdmBits n with addr := mapping (physWordSize n) (size n) (i.tcdmBits n).addr } }

theorem unit_power {physWordSize : Nat} {size : Int} (elaborates : Elaborates physWordSize size w) :
    ∃ u, unit size = 2 ^ u := by
  unfold Elaborates at elaborates
  unfold unit
  split at elaborates
  · next swizzled => exact ⟨5,if_pos swizzled⟩
  · next affine =>
    obtain ⟨low,shift,rfl,_,_⟩ := elaborates
    refine ⟨low,?_⟩
    rw [if_neg affine]
    exact_mod_cast Int.toNat_natCast (2 ^ low)

/-- The place of a bank in its row depends on the low bits of the address alone. -/
theorem bankSelect_mod {sp : SparseInterconnectParam} (i : SparseInterconnect.Input sp) (n : Fin sp.numInp)
    {g : Nat} (divides : g ∣ sp.numOut) :
    (SparseInterconnect.bankSelect i n).val % g =
      (i.tcdmBits n).addr.toNat % (2 ^ SparseInterconnect.byteOffsetWidth sp * g) /
        2 ^ SparseInterconnect.byteOffsetWidth sp := by
  have banks : 2 ^ SparseInterconnect.bankSelectWidth sp = sp.numOut := sp.powerOfTwo
  change ((i.tcdmBits n).addr.extractLsb' (SparseInterconnect.byteOffsetWidth sp)
    (SparseInterconnect.bankSelectWidth sp)).toNat % g = _
  rw [BitVec.extractLsb'_toNat,Nat.shiftRight_eq_div_pow,banks,Nat.mod_mod_of_dvd _ divides,
    Nat.mod_mul_right_div_self]

/-- Accesses stay legal where a row of the port's granularity fits a unit of its mapping. -/
theorem legal_remapped {sp : SparseInterconnectParam} {physWordSize : Fin sp.numInp → Nat}
    {size : Fin sp.numInp → Int} (elaborates : ∀ n, Elaborates (physWordSize n) (size n) sp.tcdmAddrWidth)
    (fits : ∀ n, SparseInterconnect.granularity sp n * 2 ^ SparseInterconnect.byteOffsetWidth sp ≤
      unit (size n)) {i : SparseInterconnect.Input sp} (legal : SparseInterconnect.Legal i) :
    SparseInterconnect.Legal (remapped physWordSize size i) := by
  intro n valid
  have divides := (SparseInterconnect.granularity_divides n).2
  rw [← legal n valid,bankSelect_mod _ n divides,bankSelect_mod _ n divides]
  obtain ⟨u,power⟩ := unit_power (elaborates n)
  obtain ⟨j,_,row⟩ := (Nat.dvd_prime_pow Nat.prime_two).mp (sp.powerOfTwo.symm ▸ divides)
  have low := mapping_unit (elaborates n) (i.tcdmBits n).addr
  have room := fits n
  rw [row,power,← Nat.pow_add] at room
  rw [power] at low
  have within : 2 ^ (SparseInterconnect.byteOffsetWidth sp + j) ∣ 2 ^ u :=
    Nat.pow_dvd_pow 2 (by have := (Nat.pow_le_pow_iff_right (by decide)).mp room; omega)
  have same := congrArg (· % 2 ^ (SparseInterconnect.byteOffsetWidth sp + j)) low
  simp only [Nat.mod_mod_of_dvd _ within] at same
  rw [row,← Nat.pow_add]
  exact congrArg (· / _) same

/-- The mapping that a remap index selects. -/
def selectedSize (param : AddressGenUnitParam) (index : BitVec (log2Ceil param.tcdmLogicWordSize.length)) :
    Int :=
  param.tcdmLogicWordSize.getD index.toNat (param.tcdmLogicWordSize.head param.remapNonempty)

/-- What a swizzle keeps besides. -/
structure KeepsRow (size : Int) (f : BitVec w → BitVec w) : Prop where
  involutive : Function.Involutive f
  row : ∀ a, (f a).toNat / 256 = a.toNat / 256
  low : ∀ a, (f a).toNat % 32 = a.toNat % 32
  bank : ∀ a, (f a).toNat / 8 % 4 = a.toNat / 8 % 4
  half : size = -1 → ∀ a, (f a).toNat.testBit 7 = a.toNat.testBit 7

theorem mapping_keepsRow {physWordSize : Nat} {size : Int} (swizzled : size = 0 ∨ size = -1 ∨ size = -2)
    (wide : 12 ≤ w) : KeepsRow size (mapping (w := w) physWordSize size) := by
  obtain ⟨key,swizzles,narrow⟩ := mapping_swizzles physWordSize swizzled wide
  have low : ∀ a, (mapping (w := w) physWordSize size a).toNat % 32 = a.toNat % 32 := fun a => by
    rw [swizzles.2,swizzle_low]
  refine ⟨swizzles.involutive,fun a => by rw [swizzles.2,swizzle_row swizzles.1],low,fun a => ?_,
    fun half a => ?_⟩
  · have := low a
    omega
  · have upper : (mapping physWordSize size a).toNat / 2 ^ 7 = a.toNat / 2 ^ 7 := by
      rw [swizzles.2]
      exact swizzle_half (narrow half) _
    have bit := congrArg (fun x => x.testBit 0) upper
    simpa only [Nat.testBit_div_two_pow,Nat.zero_add] using bit

/-- Every remap index selects a permutation of the addresses that leaves the place of a byte
in its unit; the swizzles are involutions within their rows; and accesses stay legal in the
sparse interconnect as long as a row of the port's granularity is within a unit: four banks
of eight bytes for the swizzles. -/
theorem address_remappings (param : AddressGenUnitParam)
    (elaborates : ∀ size ∈ param.tcdmLogicWordSize,
      Elaborates param.tcdmPhysWordSize size param.addressWidth) (wide : 12 ≤ param.addressWidth)
    (index : BitVec (log2Ceil param.tcdmLogicWordSize.length)) :
    Function.Bijective (remap param index) ∧
    (∀ a, (remap param index a).toNat % unit (selectedSize param index) =
      a.toNat % unit (selectedSize param index)) ∧
    ((selectedSize param index = 0 ∨ selectedSize param index = -1 ∨ selectedSize param index = -2) →
      KeepsRow (selectedSize param index) (remap param index)) ∧
    ∀ (sp : SparseInterconnectParam) (physWordSize : Fin sp.numInp → Nat) (size : Fin sp.numInp → Int),
      (∀ n, Elaborates (physWordSize n) (size n) sp.tcdmAddrWidth) →
      (∀ n, SparseInterconnect.granularity sp n * 2 ^ SparseInterconnect.byteOffsetWidth sp ≤
        unit (size n)) →
      ∀ i, SparseInterconnect.Legal i → SparseInterconnect.Legal (remapped physWordSize size i) := by
  have selected : selectedSize param index ∈ param.tcdmLogicWordSize := by
    unfold selectedSize
    rw [List.getD_eq_getElem?_getD]
    cases listed : param.tcdmLogicWordSize[index.toNat]? with
    | none => exact List.head_mem _
    | some size => exact List.mem_of_getElem? listed
  have fine := elaborates _ selected
  exact ⟨mapping_bijective fine,mapping_unit fine,fun swizzled => mapping_keepsRow swizzled wide,
    fun sp physWordSize size elaborates fits i legal => legal_remapped elaborates fits legal⟩

/-- The deep swizzle of a port of the cluster. -/
theorem address_remappings_port : Function.Bijective (remap PortShape.lonePort 3) :=
  (address_remappings PortShape.lonePort (by
    intro size member
    have cases : size = 256 ∨ size = 0 ∨ size = -1 ∨ size = -2 := by
      simpa [PortShape.lonePort,PortShape.aguParam] using member
    rcases cases with rfl | rfl | rfl | rfl
    · exact ⟨8,0,rfl,rfl,by decide⟩
    all_goals exact ⟨rfl,PortShape.nineteen⟩) PortShape.nineteen 3).1

end AddressGenUnit
end Snax
