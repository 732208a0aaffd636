import Snax.AddressLaw
import Snax.SimStreamer

/-! The simulator's streamers against the address generator of the port they stand for:
the bank a lane posts for a group is the bank of the address the generator remaps for that
channel and step, but for the deep remapping, which the simulator does not have. -/
namespace Snax

namespace AddressGenUnit

theorem field_lt (x lo n : Nat) : field x lo n < 2 ^ n := Nat.mod_lt _ (Nat.two_pow_pos n)

theorem testBit_field (x lo n j : Nat) :
    (field x lo n).testBit j = (decide (j < n) && x.testBit (lo + j)) := by
  rw [field,Nat.testBit_mod_two_pow,Nat.testBit_div_two_pow,Nat.add_comm]

theorem testBit_cat (hi : Nat) {lo n : Nat} (low : lo < 2 ^ n) (j : Nat) :
    (cat hi lo n).testBit j = if j < n then lo.testBit j else hi.testBit (j - n) := by
  rw [cat,Nat.mul_comm,Nat.testBit_two_pow_mul_add _ low]

theorem xor_field_lt (x lo lo' n : Nat) : field x lo n ^^^ field x lo' n < 2 ^ n :=
  Nat.xor_lt_two_pow (field_lt _ _ _) (field_lt _ _ _)

/-- Bits `[7:3]`, the bank of an address. -/
def bank (address : BitVec w) : Nat := field address.toNat 3 5

theorem testBit_bank (address : BitVec w) (i : Nat) :
    (bank address).testBit i = (decide (i < 5) && address.getLsbD (3 + i)) := by
  rw [bank,testBit_field,BitVec.testBit_toNat]

theorem bank_ext {x y : Nat} (small : x < 2 ^ 5) (small' : y < 2 ^ 5)
    (same : ∀ i < 5, x.testBit i = y.testBit i) : x = y := by
  refine Nat.eq_of_testBit_eq fun i => ?_
  by_cases inside : i < 5
  · exact same i inside
  · rw [Nat.testBit_lt_two_pow (Nat.lt_of_lt_of_le small (Nat.pow_le_pow_right (by decide) (by omega))),
      Nat.testBit_lt_two_pow (Nat.lt_of_lt_of_le small' (Nat.pow_le_pow_right (by decide) (by omega)))]

theorem bank_lt (address : BitVec w) : bank address < 2 ^ 5 := field_lt _ _ _

theorem deepKey_lt (w a : Nat) : deepKey w a < 2 ^ 3 := by
  have fold (l : List Nat) (acc : Nat) (start : acc < 2 ^ 3) (small : ∀ x ∈ l, x < 2 ^ 3) :
      l.foldl (· ^^^ ·) acc < 2 ^ 3 := by
    induction l generalizing acc with
    | nil => exact start
    | cons x l ih =>
      exact ih _ (Nat.xor_lt_two_pow start (small x List.mem_cons_self))
        fun y member => small y (List.mem_cons_of_mem x member)
  refine fold _ 0 (by decide) fun x member => ?_
  obtain ⟨g,_,rfl⟩ := List.mem_map.mp member
  exact Nat.lt_of_lt_of_le (field_lt _ _ _) (Nat.pow_le_pow_right (by decide) (by omega))

/-- What the mappings put into bit `i` of the bank, for a physical word of 256 bytes. -/
def swizzleBit (index w a i : Nat) : Bool :=
  match index with
  | 0 => a.testBit (3 + i)
  | 1 => a.testBit (3 + i) ^^ (decide (2 ≤ i) && a.testBit (6 + i))
  | 2 => a.testBit (3 + i) ^^ (decide (2 ≤ i ∧ i < 4) && a.testBit (6 + i))
  | _ => a.testBit (3 + i) ^^ (decide (2 ≤ i) && (deepKey w a).testBit (i - 2))

theorem testBit_xorSwizzle (address : BitVec w) (wide : 12 ≤ w) {i : Nat} (inside : i < 5) :
    (bank (xorBankSwizzleMapping address)).testBit i = swizzleBit 1 w address.toNat i := by
  have low := field_lt address.toNat 0 5
  rw [testBit_bank,xorBankSwizzleMapping,BitVec.getLsbD_ofNat,testBit_cat _ low,
    testBit_cat _ (xor_field_lt _ _ _ _)]
  have width : 3 + i < w := by omega
  by_cases group : 2 ≤ i
  · have place : 5 + (3 + i - 5) = 3 + i := by omega
    have key : 8 + (3 + i - 5) = 6 + i := by omega
    simp [swizzleBit,testBit_field,inside,width,group,place,key,show ¬ 3 + i < 5 by omega,
      show 3 + i - 5 < 3 by omega]
  · simp [swizzleBit,testBit_field,inside,width,group,show 3 + i < 5 by omega]

theorem testBit_halfSwizzle (address : BitVec w) (wide : 12 ≤ w) {i : Nat} (inside : i < 5) :
    (bank (halfXorBankSwizzleMapping address)).testBit i = swizzleBit 2 w address.toNat i := by
  have low := field_lt address.toNat 0 5
  rw [testBit_bank,halfXorBankSwizzleMapping,BitVec.getLsbD_ofNat,testBit_cat _ low,
    testBit_cat _ (xor_field_lt _ _ _ _)]
  have width : 3 + i < w := by omega
  by_cases group : 2 ≤ i
  · by_cases top : i < 4
    · have place : 5 + (3 + i - 5) = 3 + i := by omega
      have key : 8 + (3 + i - 5) = 6 + i := by omega
      simp [swizzleBit,testBit_field,inside,width,group,top,place,key,show ¬ 3 + i < 5 by omega,
        show 3 + i - 5 < 2 by omega]
    · have place : 7 + (3 + i - 5 - 2) = 3 + i := by omega
      simp [swizzleBit,testBit_field,inside,width,top,place,show ¬ 3 + i < 5 by omega,
        show ¬ 3 + i - 5 < 2 by omega,show 3 + i - 5 - 2 < w - 7 by omega]
  · simp [swizzleBit,testBit_field,inside,width,group,show 3 + i < 5 by omega]

theorem testBit_deepSwizzle (address : BitVec w) (wide : 12 ≤ w) {i : Nat} (inside : i < 5) :
    (bank (deepXorBankSwizzleMapping address)).testBit i = swizzleBit 3 w address.toNat i := by
  have low := field_lt address.toNat 0 5
  have middle : field address.toNat 5 3 ^^^ deepKey w address.toNat < 2 ^ 3 :=
    Nat.xor_lt_two_pow (field_lt _ _ _) (deepKey_lt _ _)
  rw [testBit_bank,deepXorBankSwizzleMapping,BitVec.getLsbD_ofNat,testBit_cat _ low,
    testBit_cat _ middle]
  have width : 3 + i < w := by omega
  by_cases group : 2 ≤ i
  · have place : 5 + (i - 2) = 3 + i := by omega
    have key : 3 + i - 5 = i - 2 := by omega
    simp [swizzleBit,testBit_field,inside,width,group,place,key,show ¬ 3 + i < 5 by omega,
      show i - 2 < 3 by omega]
  · simp [swizzleBit,testBit_field,inside,width,group,show 3 + i < 5 by omega]

/-- The bank bits behind the selected one of the cluster's four remappings. -/
theorem testBit_mapping (address : BitVec w) (wide : 12 ≤ w) {index : Nat} (offered : index < 4)
    {i : Nat} (inside : i < 5) :
    (bank (mapping 256 ([256,0,-1,-2].getD index 256) address)).testBit i =
      swizzleBit index w address.toNat i := by
  obtain rfl | rfl | rfl | rfl : index = 0 ∨ index = 1 ∨ index = 2 ∨ index = 3 := by omega
  · simp [mapping,affineAddressMapping,swizzleBit,testBit_bank,inside,BitVec.testBit_toNat]
  · simpa [mapping] using testBit_xorSwizzle address wide inside
  · simpa [mapping] using testBit_halfSwizzle address wide inside
  · simpa [mapping] using testBit_deepSwizzle address wide inside

/-- Without the deep key the bank hangs on the low eleven bits alone. -/
theorem swizzleBit_congr (w w' : Nat) {index a a' i : Nat} (shallow : index < 3) (inside : i < 5)
    (low : a % 2 ^ 11 = a' % 2 ^ 11) : swizzleBit index w a i = swizzleBit index w' a' i := by
  have same (j : Nat) (below : j < 11) : a.testBit j = a'.testBit j := by
    have := congrArg (fun x => x.testBit j) low
    simpa only [Nat.testBit_mod_two_pow,below,decide_true,Bool.true_and] using this
  obtain rfl | rfl | rfl : index = 0 ∨ index = 1 ∨ index = 2 := by omega
  · exact same _ (by omega)
  · simp only [swizzleBit,same (3 + i) (by omega),same (6 + i) (by omega)]
  · simp only [swizzleBit,same (3 + i) (by omega),same (6 + i) (by omega)]

end AddressGenUnit

open AddressGenUnit

theorem getLsbD_mask (i : Nat) : (31 : BitVec 32).getLsbD i = decide (i < 5) := by
  by_cases inside : i < 32
  · revert i
    decide
  · simp [BitVec.getLsbD_of_ge,Nat.not_lt.mp inside]
    omega

theorem postedBank_lt (addr : BitVec 64) (remap : BitVec 32) : postedBank addr remap < 2 ^ 5 := by
  have : ((aguSwz (addr.setWidth 32) remap >>> 3) &&& 31).toNat ≤ (31 : BitVec 32).toNat := by
    rw [BitVec.toNat_and]
    exact Nat.and_le_right
  exact Nat.lt_of_le_of_lt this (by decide)

/-- `agu_swz` is the remapping of the same index, and the identity for the deep one. -/
theorem testBit_postedBank (addr : BitVec 64) (remap : BitVec 32) (offered : remap.toNat < 4)
    {i : Nat} (inside : i < 5) :
    (postedBank addr remap).testBit i =
      swizzleBit (if remap.toNat = 3 then 0 else remap.toNat) 64 addr.toNat i := by
  have plain : (postedBank addr remap).testBit i =
      (aguSwz (addr.setWidth 32) remap).getLsbD (3 + i) := by
    rw [postedBank,BitVec.testBit_toNat,BitVec.getLsbD_and,getLsbD_mask,BitVec.getLsbD_ushiftRight]
    simp [inside]
  rw [plain]
  have word (j : Nat) (below : j < 32) :
      (addr.setWidth 32).getLsbD j = addr.toNat.testBit j := by
    rw [BitVec.getLsbD_setWidth,BitVec.testBit_toNat]
    simp [below]
  have key : (addr.setWidth 32 >>> 3).getLsbD (3 + i) = addr.toNat.testBit (6 + i) := by
    rw [BitVec.getLsbD_ushiftRight,word _ (by omega),← Nat.add_assoc]
  obtain zero | one | two | three : remap.toNat = 0 ∨ remap.toNat = 1 ∨ remap.toNat = 2 ∨
      remap.toNat = 3 := by omega
  · obtain rfl : remap = 0 := BitVec.eq_of_toNat_eq zero
    exact word _ (by omega)
  · obtain rfl : remap = 1 := BitVec.eq_of_toNat_eq one
    have mask := (by decide : ∀ i < 5, (0xE0 : BitVec 32).getLsbD (3 + i) = decide (2 ≤ i)) i inside
    change (addr.setWidth 32 ^^^ ((addr.setWidth 32 >>> 3) &&& 0xE0)).getLsbD (3 + i) =
      (addr.toNat.testBit (3 + i) ^^ (decide (2 ≤ i) && addr.toNat.testBit (6 + i)))
    rw [BitVec.getLsbD_xor,BitVec.getLsbD_and,word _ (by omega),key,mask,Bool.and_comm]
  · obtain rfl : remap = 2 := BitVec.eq_of_toNat_eq two
    have mask := (by decide : ∀ i < 5,
      (0x60 : BitVec 32).getLsbD (3 + i) = decide (2 ≤ i ∧ i < 4)) i inside
    change (addr.setWidth 32 ^^^ ((addr.setWidth 32 >>> 3) &&& 0x60)).getLsbD (3 + i) =
      (addr.toNat.testBit (3 + i) ^^ (decide (2 ≤ i ∧ i < 4) && addr.toNat.testBit (6 + i)))
    rw [BitVec.getLsbD_xor,BitVec.getLsbD_and,word _ (by omega),key,mask,Bool.and_comm]
  · obtain rfl : remap = 3 := BitVec.eq_of_toNat_eq three
    exact word _ (by omega)

/-- Bank against bank, for two addresses that agree on their low eleven bits. -/
theorem postedBank_eq_iff {addr : BitVec 64} {address : BitVec w} (wide : 12 ≤ w)
    {remap : BitVec 32} (offered : remap.toNat < 4)
    (low : addr.toNat % 2 ^ 11 = address.toNat % 2 ^ 11) :
    postedBank addr remap = bank (mapping 256 ([256,0,-1,-2].getD remap.toNat 256) address) ↔
      remap ≠ 3 ∨ deepKey w address.toNat = 0 := by
  by_cases deep : remap.toNat = 3
  · have three : remap = 3 := BitVec.eq_of_toNat_eq deep
    have posted (i : Nat) (inside : i < 5) :
        (postedBank addr remap).testBit i = address.toNat.testBit (3 + i) := by
      rw [testBit_postedBank addr remap offered inside,if_pos deep]
      exact swizzleBit_congr 64 w (show 0 < 3 by decide) inside low
    have remapped (i : Nat) (inside : i < 5) :
        (bank (mapping 256 ([256,0,-1,-2].getD remap.toNat 256) address)).testBit i =
          (address.toNat.testBit (3 + i) ^^
            (decide (2 ≤ i) && (deepKey w address.toNat).testBit (i - 2))) := by
      rw [testBit_mapping address wide offered inside,deep]
      rfl
    simp only [three,ne_eq,not_true_eq_false,false_or]
    rw [← three]
    constructor
    · intro same
      refine Nat.eq_of_testBit_eq fun j => ?_
      by_cases inside : j < 3
      · have bit := posted (j + 2) (by omega)
        rw [same,remapped (j + 2) (by omega),Nat.add_sub_cancel] at bit
        rw [Nat.zero_testBit]
        cases key : (deepKey w address.toNat).testBit j with
        | false => rfl
        | true => simp [key] at bit
      · rw [Nat.testBit_lt_two_pow (Nat.lt_of_lt_of_le (deepKey_lt _ _)
          (Nat.pow_le_pow_right (by decide) (by omega))),Nat.zero_testBit]
    · intro none
      refine bank_ext (postedBank_lt _ _) (bank_lt _) fun i inside => ?_
      rw [posted i inside,remapped i inside,none]
      simp
  · refine iff_of_true (bank_ext (postedBank_lt _ _) (bank_lt _) fun i inside => ?_)
      (.inl fun three => deep (by rw [three]; rfl))
    rw [testBit_postedBank addr remap offered inside,testBit_mapping address wide offered inside,
      if_neg deep]
    exact swizzleBit_congr _ _ (by omega) inside low

/-- The channels of a port: one line of them, or two by two. -/
inductive PortShape where
  | line (lanes : Nat) (positive : 0 < lanes)
  | square

namespace PortShape

def spatialBounds : PortShape → List Nat
  | line lanes _ => [lanes]
  | square => [2,2]

def numChannel : PortShape → Nat
  | line lanes _ => lanes
  | square => 4

theorem spatialPositive (shape : PortShape) : ∀ b ∈ shape.spatialBounds, 0 < b := by
  cases shape with
  | line lanes positive => simpa [spatialBounds] using positive
  | square => decide

theorem spatialFits (shape : PortShape) : shape.spatialBounds.prod ≤ shape.numChannel := by
  cases shape <;> simp [spatialBounds,numChannel]

theorem four_loops : 0 < 4 := by decide
theorem four_mappings : ([256,0,-1,-2] : List Int) ≠ [] := by decide

theorem widthPositive {addressWidth : Nat} (wide : 12 ≤ addressWidth) : 0 < addressWidth := by omega

/-- A streamer that is set up with the port's spatial dimensions, or a line where the
second stride of a square doubles the first. -/
def Spatial (shape : PortShape) (nsp : Nat) (a : Agu) : Prop :=
  match shape with
  | line _ _ => nsp ≠ 2
  | square => nsp = 2 ∨ a.Doubled

section Param

variable (shape : PortShape) (addressWidth : Nat) (wide : 12 ≤ addressWidth) (depth : Nat)
  (depthPositive : 0 < depth)

/-- The address generator of a port of the cluster, of any address width that the bank
swizzles elaborate for. -/
def aguParam : AddressGenUnitParam where
  spatialBounds := shape.spatialBounds
  temporalDimension := 4
  addressWidth := addressWidth
  numChannel := shape.numChannel
  outputBufferDepth := depth
  tcdmPhysWordSize := 256
  tcdmLogicWordSize := [256,0,-1,-2]
  spatialPositive := shape.spatialPositive
  spatialFits := shape.spatialFits
  temporalPositive := four_loops
  widthPositive := widthPositive wide
  depthPositive := depthPositive
  remapNonempty := four_mappings

/-- The configuration words of a descriptor as the generator's registers hold them. -/
def aguCfg (a : Agu) :
    AddressGenUnitCfgIO (shape.aguParam addressWidth wide depth depthPositive) where
  ptr := a.base.setWidth addressWidth
  spatialStrides := Vector.ofFn fun i => (a.sStride.toList.getD i.val 0).setWidth addressWidth
  temporalBounds := a.tBound.map fun b => b.setWidth addressWidth
  temporalStrides := a.tStride.map fun x => x.setWidth addressWidth
  addressRemapIndex := a.remap.setWidth _

end Param

open MixedRadix

variable {shape : PortShape} {a : Agu}

/-- The offset of a lane in the naturals. -/
def laneOffset (shape : PortShape) (a : Agu) (lane : Nat) : Nat :=
  dot (digits shape.spatialBounds lane) (a.sStride.toList.map BitVec.toNat)

theorem soff_eq (walk : Agu.Walk a) {nsp : Nat} (spatial : shape.Spatial nsp a)
    {r : StreamerCfg} (dims : r.nSpatial = nsp) (strides : r.sstride = a.sStride.map BitVec.toInt)
    (block : nsp = 2 → r.sbound = 2) {lane : Nat} (inside : lane < shape.numChannel) :
    r.soff lane = shape.laneOffset a lane := by
  have first := Agu.toInt_of_nonneg (walk.lanes a.sStride[0] (by simp))
  have second := Agu.toInt_of_nonneg (walk.lanes a.sStride[1] (by simp))
  rw [StreamerCfg.soff,dims,strides,laneOffset,Agu.sStride_toList]
  simp only [Vector.getElem_map,first,second,List.map_cons,List.map_nil]
  cases shape with
  | line lanes positive =>
    rw [if_neg spatial]
    simp only [spatialBounds,digits,dot,Nat.mod_eq_of_lt (show lane < lanes from inside)]
    push_cast
    rfl
  | square =>
    have quotient : lane / 2 % 2 = lane / 2 := by
      have : lane < 4 := inside
      omega
    simp only [spatialBounds,digits,dot,quotient,Nat.add_zero]
    by_cases two : nsp = 2
    · rw [if_pos two,block two]
      push_cast
      rfl
    · rw [if_neg two]
      have double := spatial.resolve_left two
      rw [Agu.Doubled,first,second] at double
      have whole := Nat.div_add_mod lane 2
      rw [show a.sStride[1].toNat = 2 * a.sStride[0].toNat by omega]
      rw [← Int.natCast_mul]
      congr 1
      calc lane * a.sStride[0].toNat
          = (2 * (lane / 2) + lane % 2) * a.sStride[0].toNat := by rw [whole]
        _ = lane % 2 * a.sStride[0].toNat + lane / 2 * (2 * a.sStride[0].toNat) := by ring

theorem dot_mod_map (m : Nat) (f : Nat → Nat) (same : ∀ x, f x % m = x % m) (ds xs : List Nat) :
    dot ds (xs.map f) % m = dot ds xs % m := by
  induction ds generalizing xs with
  | nil => rfl
  | cons d ds ih =>
    cases xs with
    | nil => rfl
    | cons x xs =>
      simp only [List.map_cons,dot]
      rw [Nat.add_mod,Nat.mul_mod,same,← Nat.mul_mod,ih,← Nat.add_mod]

section Low

variable {addressWidth depth : Nat} (wide : 12 ≤ addressWidth) (depthPositive : 0 < depth)

variable (shape) in
theorem aguCfg_bounds (fits : ∀ b ∈ a.bounds, b < 2 ^ addressWidth) :
    (shape.aguCfg addressWidth wide depth depthPositive a).bounds = a.bounds := by
  change (a.tBound.map fun b => b.setWidth addressWidth).toList.map BitVec.toNat = _
  rw [Vector.toList_map,List.map_map]
  refine List.map_congr_left fun b member => ?_
  exact (BitVec.toNat_setWidth ..).trans (Nat.mod_eq_of_lt (fits b.toNat (List.mem_map_of_mem member)))

variable (shape) in
theorem aguCfg_steps : (shape.aguCfg addressWidth wide depth depthPositive a).steps =
    a.steps.map fun x => x % 2 ^ addressWidth % 2 ^ (addressWidth - 1) := by
  change (a.tStride.map fun x => x.setWidth addressWidth).toList.map
    (fun x => (x.setWidth (addressWidth - 1)).toNat) = _
  rw [Vector.toList_map,Agu.steps,List.map_map,List.map_map]
  exact List.map_congr_left fun x _ => by simp

theorem aguCfg_lanes (lane : Nat) : dot (digits shape.spatialBounds lane)
    ((shape.aguCfg addressWidth wide depth depthPositive a).spatialStrides.toList.map BitVec.toNat) =
    dot (digits shape.spatialBounds lane)
      ((a.sStride.toList.map BitVec.toNat).map fun x => x % 2 ^ addressWidth) := by
  rw [Agu.sStride_toList]
  cases shape <;> simp [aguCfg,aguParam,spatialBounds,digits,dot,Agu.sStride_toList,Vector.toList_ofFn]

variable (shape) in
/-- The generator's address and the sum in the naturals agree on the low eleven bits. -/
theorem address_low (fits : ∀ b ∈ a.bounds, b < 2 ^ addressWidth) (n : Nat)
    (c : Fin (shape.aguParam addressWidth wide depth depthPositive).numChannel) :
    ((shape.aguCfg addressWidth wide depth depthPositive a).address n c).toNat % 2 ^ 11 =
      (a.base.toNat + dot (digits a.bounds n) a.steps + shape.laneOffset a c) % 2 ^ 11 := by
  have narrow : 2 ^ 11 ∣ 2 ^ addressWidth := Nat.pow_dvd_pow 2 (by omega)
  have narrow' : 2 ^ 11 ∣ 2 ^ (addressWidth - 1) := Nat.pow_dvd_pow 2 (by omega)
  have offset : ((shape.aguCfg addressWidth wide depth depthPositive a).address n c).toNat =
      (a.base.toNat % 2 ^ addressWidth + dot (digits a.bounds n)
        (a.steps.map fun x => x % 2 ^ addressWidth % 2 ^ (addressWidth - 1)) +
        dot (digits shape.spatialBounds c)
          ((a.sStride.toList.map BitVec.toNat).map fun x => x % 2 ^ addressWidth)) %
        2 ^ addressWidth := by
    rw [← aguCfg_lanes wide depthPositive,← aguCfg_steps shape wide depthPositive,
      ← aguCfg_bounds shape wide depthPositive fits,← BitVec.toNat_setWidth]
    exact BitVec.toNat_ofNat ..
  have steps := dot_mod_map (2 ^ 11) (fun x => x % 2 ^ addressWidth % 2 ^ (addressWidth - 1))
    (fun x => by rw [Nat.mod_mod_of_dvd _ narrow',Nat.mod_mod_of_dvd _ narrow]) (digits a.bounds n) a.steps
  have lanes := dot_mod_map (2 ^ 11) (fun x => x % 2 ^ addressWidth)
    (fun x => Nat.mod_mod_of_dvd _ narrow) (digits shape.spatialBounds c) (a.sStride.toList.map BitVec.toNat)
  have base := Nat.mod_mod_of_dvd a.base.toNat narrow
  rw [offset,Nat.mod_mod_of_dvd _ narrow,laneOffset]
  omega

/-- The remapping the port's index selects, among the four. -/
theorem remap_aguCfg (index : a.remap.toNat < 4)
    (address : AddressGenUnit.Address (shape.aguParam addressWidth wide depth depthPositive)) :
    AddressGenUnit.remap (shape.aguParam addressWidth wide depth depthPositive)
        (shape.aguCfg addressWidth wide depth depthPositive a).addressRemapIndex address =
      mapping 256 ([256,0,-1,-2].getD a.remap.toNat 256) address := by
  have two : log2Ceil ([256,0,-1,-2] : List Int).length = 2 := by decide +kernel
  have same : (a.remap.setWidth (log2Ceil ([256,0,-1,-2] : List Int).length)).toNat =
      a.remap.toNat := by
    rw [two,BitVec.toNat_setWidth]
    omega
  rw [← same,AddressGenUnit.remap]
  simp only [aguParam,aguCfg,List.head_cons]

/-- The bank of a request at the address that step `n` of the loop nest has on lane `c`. -/
theorem postedBank_lane (walk : Agu.Walk a) (fits : ∀ b ∈ a.bounds, b < 2 ^ addressWidth)
    (index : a.remap.toNat < 4) {nsp : Nat} (spatial : shape.Spatial nsp a) {r : StreamerCfg}
    (dims : r.nSpatial = nsp) (strides : r.sstride = a.sStride.map BitVec.toInt)
    (block : nsp = 2 → r.sbound = 2) (n : Nat)
    (c : Fin (shape.aguParam addressWidth wide depth depthPositive).numChannel) :
    postedBank (a.base + BitVec.ofNat 64 (dot (digits a.bounds n) a.steps) +
        BitVec.ofInt 64 (r.soff c)) a.remap =
      bank ((shape.aguCfg addressWidth wide depth depthPositive a).vector n c) ↔
    a.remap ≠ 3 ∨ deepKey addressWidth
      ((shape.aguCfg addressWidth wide depth depthPositive a).address n c).toNat = 0 := by
  have low := address_low shape wide depthPositive fits n c
  rw [ AddressGenUnitCfgIO.vector,remap_aguCfg wide depthPositive index]
  refine postedBank_eq_iff wide index ?_
  refine Eq.trans ?_ low.symm
  rw [soff_eq walk spatial dims strides block c.isLt,BitVec.ofInt_natCast,BitVec.toNat_add,
    BitVec.toNat_add,BitVec.toNat_ofNat,BitVec.toNat_ofNat]
  omega

/-- Over every run of a started port: what a reader, a writer and the hand-stepped dt_BC
reader post for step `n` and channel `c` is the bank of the generator's n-th vector exactly
where the deep remapping is not selected, or its key is zero. -/
theorem posted_bank_iff (walk : Agu.Walk a) (fits : ∀ b ∈ a.bounds, b < 2 ^ addressWidth)
    (index : a.remap.toNat < 4) {nsp : Nat} (spatial : shape.Spatial nsp a)
    (s : AddressGenUnit.State (shape.aguParam addressWidth wide depth depthPositive))
    (i : AddressGenUnit.Input (shape.aguParam addressWidth wide depth depthPositive))
    (held : i.cfg = shape.aguCfg addressWidth wide depth depthPositive a) (start : i.start = true)
    (rest : List (AddressGenUnit.Input (shape.aguParam addressWidth wide depth depthPositive)))
    (running : ∀ i ∈ rest, Running (shape.aguCfg addressWidth wide depth depthPositive a) i)
    {n : Nat} (inside : n < a.bounds.prod)
    {t : AddressVector (shape.aguParam addressWidth wide depth depthPositive)}
    (nth : (enqueued ((addressGenUnit _).outs (AddressGenUnit.next s i) rest))[n]? = some t)
    (c : Fin (shape.aguParam addressWidth wide depth depthPositive).numChannel) :
    let shallow := a.remap ≠ 3 ∨ deepKey addressWidth
      ((shape.aguCfg addressWidth wide depth depthPositive a).address n c).toNat = 0
    (∀ fd prt st, st.laneIssued c = n / a.reuse →
      ((CycReader.lanePost (CycReader.configure a shape.numChannel nsp fd prt) st c).bank =
        bank (t c) ↔ shallow)) ∧
    (∀ prt fd calls, ((cycWriter (CycWriter.configure a shape.numChannel nsp prt fd)).exec
        CycWriter.configured calls).written = n →
      ((CycWriter.lanePost (CycWriter.configure a shape.numChannel nsp prt fd)
        ((cycWriter (CycWriter.configure a shape.numChannel nsp prt fd)).exec
          CycWriter.configured calls) c).bank = bank (t c) ↔ shallow)) ∧
    (shape = square → (a.r7bank (n / a.reuse) c = bank (t c) ↔ shallow) ∧
      (a.stepBank (n / a.reuse) c = bank (t c) ↔ shallow)) := by
  intro shallow
  have valid : cfgValid (shape.aguCfg addressWidth wide depth depthPositive a) = true := by
    rw [ AddressGenUnitCfgIO.cfgValid_iff,aguCfg_bounds shape wide depthPositive fits]
    exact walk.bounds_positive
  have swept := run_swept _ s i held start (.inr valid) rest running
  obtain rfl : (shape.aguCfg addressWidth wide depth depthPositive a).vector n = t := by
    rw [swept_enqueued swept,List.getElem?_map] at nth
    obtain ⟨k,atIndex,rfl⟩ := Option.map_eq_some_iff.mp nth
    obtain ⟨_,rfl⟩ := List.getElem?_eq_some_iff.mp atIndex
    rw [List.getElem_range]
  have block : nsp = 2 → (if nsp = 2 then 2 else shape.numChannel) = 2 := fun two => if_pos two
  refine ⟨fun fd prt st issued => ?_,fun prt fd calls count => ?_,fun square => ?_⟩
  · rw [CycReader.lanePost,issued,CycReader.laneAddr_eq walk _ _ _ _ _ inside]
    exact postedBank_lane wide depthPositive walk fits index spatial rfl rfl block n c
  · rw [CycWriter.lanePost,CycWriter.laneAddr_eq walk _ _ _ _ _ calls count]
    exact postedBank_lane wide depthPositive walk fits index spatial rfl rfl block n c
  · have hand : Agu.handBank a.strides a.handBounds a (n / a.reuse) c =
        bank ((shape.aguCfg addressWidth wide depth depthPositive a).vector n c) ↔ shallow := by
      rw [CycReader.handBank_eq walk c inside,CycReader.laneAddr_eq walk _ _ _ _ _ inside]
      have spatial : shape.Spatial 2 a := by
        rw [square]
        exact .inl rfl
      exact postedBank_lane wide depthPositive walk fits index spatial rfl rfl (fun _ => rfl) n c
    exact ⟨hand,hand⟩

end Low

/-- Two loops of two and three groups on a one-lane port, at byte 256. -/
def nestAgu (remap : BitVec 32) : Agu where
  base := 256
  sStride := Vector.replicate 2 8
  tBound := Vector.ofFn fun d => BitVec.ofNat 32 ([2,3].getD d 1)
  tStride := Vector.ofFn fun d => BitVec.ofNat 32 ([8,2048].getD d 0)
  remap := remap

theorem nestAgu_tBound (remap : BitVec 32) : (nestAgu remap).tBound.toList = [2,3,1,1] := by
  simp [nestAgu,Vector.toList_ofFn,List.ofFn_succ]

theorem nestAgu_walk (remap : BitVec 32) : Agu.Walk (nestAgu remap) := by
  have strides : (nestAgu remap).tStride.toList = [8,2048,0,0] := by
    simp [nestAgu,Vector.toList_ofFn,List.ofFn_succ]
  have lanes : (nestAgu remap).sStride.toList = [8,8] := by simp [nestAgu]
  refine ⟨?_,?_,?_,?_⟩
  · simp [nestAgu_tBound]
  · simp [strides]
  · simp [lanes]
  · rw [Agu.bounds,nestAgu_tBound]
    decide

theorem nestAgu_fits (remap : BitVec 32) : ∀ b ∈ (nestAgu remap).bounds, b < 2 ^ 19 := by
  rw [Agu.bounds,nestAgu_tBound]
  decide

theorem nestAgu_groups (remap : BitVec 32) : (nestAgu remap).bounds.prod = 6 := by
  rw [Agu.bounds,nestAgu_tBound]
  decide

theorem nestAgu_spatial (remap : BitVec 32) : (line 1 Nat.one_pos).Spatial 1 (nestAgu remap) :=
  show 1 ≠ 2 by decide

theorem nineteen : 12 ≤ 19 := by decide

/-- One lane, the 19 address bits of the 512 KiB TCDM, a buffer of one address. -/
abbrev lonePort : AddressGenUnitParam := (line 1 Nat.one_pos).aguParam 19 nineteen 1 Nat.one_pos

def loneInput (remap : BitVec 32) (start : Bool) : AddressGenUnit.Input lonePort :=
  ⟨(line 1 Nat.one_pos).aguCfg 19 nineteen 1 Nat.one_pos (nestAgu remap),start,fun _ => true⟩

/-- Step 2 under the plain XOR swizzle, byte 256 + 2048: a reader posts the bank of the
generator's third vector. -/
theorem posted_bank_iff_nest :
    ∃ t, (enqueued ((addressGenUnit lonePort).outs
        (AddressGenUnit.next (initial lonePort) (loneInput 1 true))
        (List.replicate 3 (loneInput 1 false))))[2]? = some t ∧
      (CycReader.lanePost (CycReader.configure (nestAgu 1) 1 1 4 0)
        ⟨fun _ => 2,fun _ => 1,1,true⟩ 0).bank = bank (t ⟨0,Nat.one_pos⟩) := by
  obtain ⟨t,third⟩ := Option.isSome_iff_exists.mp (show ((enqueued ((addressGenUnit lonePort).outs
    (AddressGenUnit.next (initial lonePort) (loneInput 1 true))
    (List.replicate 3 (loneInput 1 false))))[2]?).isSome = true by decide +kernel)
  have agree := (posted_bank_iff nineteen Nat.one_pos (nestAgu_walk 1) (nestAgu_fits 1) (by decide)
    (nestAgu_spatial 1) (initial lonePort) (loneInput 1 true) rfl rfl
    (List.replicate 3 (loneInput 1 false)) (by simp [loneInput,Running])
    (by rw [nestAgu_groups]; decide) third ⟨0,Nat.one_pos⟩).1 4 0 ⟨fun _ => 2,fun _ => 1,1,true⟩
    (by decide +kernel)
  exact ⟨t,third,agree.mpr (.inl (by decide))⟩

/-- The first step under the deep swizzle: byte 256 goes to bank 4 of the generator, and a
reader posts bank 0. -/
theorem posted_bank_deep :
    ¬ ∀ (shape : PortShape) (addressWidth : Nat) (wide : 12 ≤ addressWidth) (depth : Nat)
      (depthPositive : 0 < depth) (a : Agu) (_ : Agu.Walk a)
      (_ : ∀ b ∈ a.bounds, b < 2 ^ addressWidth) (_ : a.remap.toNat < 4) (nsp : Nat)
      (_ : shape.Spatial nsp a)
      (s : AddressGenUnit.State (shape.aguParam addressWidth wide depth depthPositive))
      (i : AddressGenUnit.Input (shape.aguParam addressWidth wide depth depthPositive))
      (_ : i.cfg = shape.aguCfg addressWidth wide depth depthPositive a) (_ : i.start = true)
      (rest : List (AddressGenUnit.Input (shape.aguParam addressWidth wide depth depthPositive)))
      (_ : ∀ i ∈ rest, Running (shape.aguCfg addressWidth wide depth depthPositive a) i)
      (n : Nat) (_ : n < a.bounds.prod)
      (t : AddressVector (shape.aguParam addressWidth wide depth depthPositive))
      (_ : (enqueued ((addressGenUnit _).outs (AddressGenUnit.next s i) rest))[n]? = some t)
      (c : Fin (shape.aguParam addressWidth wide depth depthPositive).numChannel) (fd : Int)
      (prt : Nat) (st : CycReader.State), st.laneIssued c = n / a.reuse →
      (CycReader.lanePost (CycReader.configure a shape.numChannel nsp fd prt) st c).bank =
        bank (t c) := by
  intro all
  have first : (((enqueued ((addressGenUnit lonePort).outs
      (AddressGenUnit.next (initial lonePort) (loneInput 3 true)) [loneInput 3 false]))[0]?).map
      fun t => bank (t ⟨0,Nat.one_pos⟩)) = some 4 := by decide +kernel
  obtain ⟨t,atIndex,four⟩ := Option.map_eq_some_iff.mp first
  have same := all (line 1 Nat.one_pos) 19 nineteen 1 Nat.one_pos (nestAgu 3) (nestAgu_walk 3)
    (nestAgu_fits 3) (by decide) 1 (nestAgu_spatial 3) (initial lonePort) (loneInput 3 true) rfl rfl
    [loneInput 3 false] (by simp [loneInput,Running]) 0 (by rw [nestAgu_groups]; decide) t atIndex
    ⟨0,Nat.one_pos⟩ 4 0 ⟨fun _ => 0,fun _ => 0,0,true⟩ (by decide +kernel)
  rw [four] at same
  exact absurd same (by decide +kernel)

end PortShape

end Snax
