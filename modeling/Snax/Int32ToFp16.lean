import Snax.BatchPacking
import Snax.Sync.NearestEven

/-! `Int32ToFp16PE` against IEEE-754 binary16: its result is the number of the format that is
nearest to the integer, ties to even, and the golden model computes the same bits. -/
namespace Snax

open Sync

/-- `int32_to_fp16_golden`. -/
def int32ToFp16Golden (x : Int) : Nat :=
  let sign := if x < 0 then 1 else 0
  let absVal := x.natAbs
  if absVal = 0 then sign <<< 15
  else
    let msbIndex := Nat.log2 absVal
    let expRaw := msbIndex + 15
    if 31 ≤ expRaw then sign <<< 15 ||| 0x1F <<< 10
    else
      let shiftAmt := 31 - msbIndex
      let magNorm := absVal <<< shiftAmt &&& 0xFFFFFFFF
      let frac := magNorm >>> 21 &&& 0x3FF
      let guard := magNorm >>> 20 &&& 1 != 0
      let roundBit := magNorm >>> 19 &&& 1 != 0
      let sticky := magNorm &&& (1 <<< 19) - 1 != 0
      let lsb := frac &&& 1 != 0
      let increment := guard && (roundBit || sticky || lsb)
      let carried := frac + if increment then 1 else 0
      let fracRounded := if carried = 1024 then 0 else carried
      let expField := if carried = 1024 then expRaw + 1 else expRaw
      if 31 ≤ expField then sign <<< 15 ||| 0x1F <<< 10
      else sign <<< 15 ||| expField <<< 10 ||| fracRounded

namespace Binary16

/-- The numbers of binary16 and those beyond its largest. -/
def format : Format := ⟨11,-24⟩

/-- What an encoding stands for, nothing for a NaN. -/
def decode (b : BitVec 16) : Option (WithBot (WithTop ℚ)) :=
  let exponent := (b.extractLsb' 10 5).toNat
  let fraction := (b.extractLsb' 0 10).toNat
  if exponent = 31 then
    if fraction = 0 then some (if b.msb then ⊥ else ⊤) else none
  else
    let magnitude : ℚ :=
      if exponent = 0 then fraction * 2 ^ (-24 : ℤ)
      else (1024 + fraction : Nat) * 2 ^ ((exponent : ℤ) - 25)
    some (((if b.msb then -magnitude else magnitude : ℚ) : WithTop ℚ) : WithBot (WithTop ℚ))

/-- A rounded number, or an infinity beyond the largest one. -/
def saturate (r : ℚ) : WithBot (WithTop ℚ) :=
  if 65504 < r then ⊤ else if r < -65504 then ⊥ else ((r : WithTop ℚ) : WithBot (WithTop ℚ))

theorem saturate_mono {r s : ℚ} (below : r ≤ s) : saturate r ≤ saturate s := by
  unfold saturate
  split
  · rw [if_pos (by linarith)]
  · split
    · exact bot_le
    · split
      · exact le_top
      · rw [if_neg (by linarith)]
        exact WithBot.coe_le_coe.mpr (WithTop.coe_le_coe.mpr below)

theorem saturate_over {m : ℚ} (beyond : 65504 < m) (sign : Bool) :
    saturate (if sign then -m else m) = if sign then ⊥ else ⊤ := by
  cases sign with
  | false => exact if_pos beyond
  | true =>
    change saturate (-m) = ⊥
    rw [saturate,if_neg (by linarith),if_pos (by linarith)]

theorem saturate_within {m : ℚ} (positive : 0 ≤ m) (within : m ≤ 65504) (sign : Bool) :
    saturate (if sign then -m else m) = (((if sign then -m else m : ℚ) : WithTop ℚ) : WithBot (WithTop ℚ)) := by
  cases sign with
  | false =>
    change saturate m = _
    rw [saturate,if_neg (by linarith),if_neg (by linarith)]
    rfl
  | true =>
    change saturate (-m) = _
    rw [saturate,if_neg (by linarith),if_neg (by linarith)]
    rfl

def pack (sign : Bool) (exponent : BitVec 5) (fraction : BitVec 10) : BitVec 16 :=
  BitVec.ofBool sign ++ exponent ++ fraction

theorem toNat_pack (sign : Bool) (exponent : BitVec 5) (fraction : BitVec 10) :
    (pack sign exponent fraction).toNat =
      sign.toNat <<< 15 ||| exponent.toNat <<< 10 ||| fraction.toNat := by
  rw [pack,BitVec.toNat_append,BitVec.toNat_append,Nat.shiftLeft_or_distrib,← Nat.shiftLeft_add,
    BitVec.toNat_ofBool]

theorem toNat_pack_fields (sign : Bool) (exponent : BitVec 5) (fraction : BitVec 10) :
    (pack sign exponent fraction).toNat =
      sign.toNat * 2 ^ 15 + exponent.toNat * 2 ^ 10 + fraction.toNat := by
  rw [pack,BitVec.toNat_append,BitVec.toNat_append,← Nat.shiftLeft_add_eq_or_of_lt fraction.isLt,
    ← Nat.shiftLeft_add_eq_or_of_lt exponent.isLt,Nat.shiftLeft_eq,Nat.shiftLeft_eq,BitVec.toNat_ofBool]
  omega

section Fields

variable (sign : Bool) (exponent : BitVec 5) (fraction : BitVec 10)

theorem exponent_pack : ((pack sign exponent fraction).extractLsb' 10 5).toNat = exponent.toNat := by
  rw [BitVec.extractLsb'_toNat,toNat_pack_fields,Nat.shiftRight_eq_div_pow]
  omega

theorem fraction_pack : ((pack sign exponent fraction).extractLsb' 0 10).toNat = fraction.toNat := by
  rw [BitVec.extractLsb'_toNat,toNat_pack_fields,Nat.shiftRight_eq_div_pow]
  omega

theorem msb_pack : (pack sign exponent fraction).msb = sign := by
  rw [BitVec.msb_eq_decide,toNat_pack_fields]
  cases sign with
  | false => exact decide_eq_false (by simp only [Bool.toNat_false]; omega)
  | true => exact decide_eq_true (by simp only [Bool.toNat_true]; omega)

theorem decode_infinity : decode (pack sign 31 0) = some (if sign then ⊥ else ⊤) := by
  rw [decode,exponent_pack,fraction_pack,msb_pack]
  rfl

theorem decode_normal (low : 1 ≤ exponent.toNat) (high : exponent.toNat ≤ 30) :
    decode (pack sign exponent fraction) = some (((if sign then
        -((1024 + fraction.toNat : Nat) * 2 ^ ((exponent.toNat : ℤ) - 25))
      else (1024 + fraction.toNat : Nat) * 2 ^ ((exponent.toNat : ℤ) - 25) : ℚ) : WithTop ℚ) :
        WithBot (WithTop ℚ)) := by
  rw [decode,exponent_pack,fraction_pack,msb_pack,if_neg (by omega),if_neg (by omega)]

end Fields

theorem decode_zero : decode (pack false 0 0) = some (((0 : ℚ) : WithTop ℚ) : WithBot (WithTop ℚ)) := by
  rw [decode,exponent_pack,fraction_pack,msb_pack]
  simp

end Binary16

namespace Int32ToFp16PE

variable (x : BitVec 32)

/-! ### The magnitude and its digits -/

def exponent : Nat := Nat.log2 x.toInt.natAbs

/-- The magnitude with its leading bit in bit 31. -/
def normalised : Nat := x.toInt.natAbs * 2 ^ (31 - exponent x)

/-- The eleven digits that stay, a carry out of them included. -/
def significand : Nat := Format.rounded (normalised x) 21

/-- What the digits stand for. -/
def magnitude : ℚ := significand x * 2 ^ ((exponent x : ℤ) - 10)

theorem toNat_abs : (abs x).toNat = x.toInt.natAbs := by
  have cond := BitVec.toInt_eq_toNat_cond x
  have bound := x.isLt
  rw [abs]
  split
  next negative =>
    have less : x.toInt < 0 := BitVec.slt_iff_toInt_lt.mp negative
    rw [BitVec.toNat_neg]
    omega
  next other =>
    have least : ¬ x.toInt < 0 := fun less => other (BitVec.slt_iff_toInt_lt.mpr less)
    omega

theorem natAbs_le : x.toInt.natAbs ≤ 2 ^ 31 := by
  have cond := BitVec.toInt_eq_toNat_cond x
  have bound := x.isLt
  omega

section NonZero

variable {x} (nonzero : x ≠ 0)
include nonzero

theorem natAbs_ne_zero : x.toInt.natAbs ≠ 0 := fun zero =>
  nonzero (BitVec.eq_of_toInt_eq (Int.natAbs_eq_zero.mp zero))

theorem abs_ne_zero : abs x ≠ 0 := fun zero =>
  natAbs_ne_zero nonzero ((toNat_abs x).symm.trans (congrArg BitVec.toNat zero))

theorem exponent_le : exponent x ≤ 31 := by
  have small := natAbs_le x
  exact Nat.le_of_lt_succ ((Nat.log2_lt (natAbs_ne_zero nonzero)).mpr (by omega))

theorem msbIndex_toNat : (msbIndex x).toNat = exponent x := by
  have small := exponent_le nonzero
  rw [msbIndex,reversedEncoder_eq (abs_ne_zero nonzero),toNat_abs,BitVec.toNat_sub,BitVec.toNat_ofNat]
  change (2 ^ 5 - (31 - exponent x) % 2 ^ 5 + 31) % 2 ^ 5 = exponent x
  omega

theorem normalised_bounds : 2 ^ 31 ≤ normalised x ∧ normalised x < 2 ^ 32 := by
  have small := exponent_le nonzero
  have low := Nat.log2_self_le (natAbs_ne_zero nonzero)
  have high := Nat.lt_log2_self (n := x.toInt.natAbs)
  have scale := Nat.two_pow_pos (31 - exponent x)
  constructor
  · calc 2 ^ 31 = 2 ^ exponent x * 2 ^ (31 - exponent x) := by rw [← pow_add]; congr 1; omega
      _ ≤ normalised x := Nat.mul_le_mul_right _ low
  · calc normalised x < 2 ^ (exponent x + 1) * 2 ^ (31 - exponent x) := Nat.mul_lt_mul_of_pos_right high scale
      _ = 2 ^ 32 := by rw [← pow_add]; congr 1; omega

theorem magNorm_toNat : (magNorm x).toNat = normalised x := by
  have small := exponent_le nonzero
  have shift : ((31 : BitVec 5) - msbIndex x).toNat = 31 - exponent x := by
    rw [BitVec.toNat_sub,msbIndex_toNat nonzero]
    change (2 ^ 5 - exponent x + 31) % 2 ^ 5 = _
    omega
  rw [magNorm,BitVec.toNat_shiftLeft,shift,toNat_abs,Nat.shiftLeft_eq]
  exact Nat.mod_eq_of_lt (normalised_bounds nonzero).2

theorem significand_bounds : 2 ^ 10 ≤ significand x ∧ significand x ≤ 2 ^ 11 := by
  have bounds := normalised_bounds nonzero
  unfold significand Format.rounded
  split <;> omega

theorem frac_toNat : (frac x).toNat = normalised x / 2 ^ 21 % 2 ^ 10 := by
  rw [frac,BitVec.extractLsb'_toNat,magNorm_toNat nonzero,Nat.shiftRight_eq_div_pow]

theorem increment_iff : increment x = true ↔ 2 ^ 21 < 2 * (normalised x % 2 ^ 21) ∨
    2 * (normalised x % 2 ^ 21) = 2 ^ 21 ∧ normalised x / 2 ^ 21 % 2 = 1 := by
  have sticky : ((magNorm x).extractLsb' 0 19 != 0) = true ↔ normalised x % 2 ^ 19 ≠ 0 := by
    rw [bne_iff_ne,Ne,← BitVec.toNat_inj,BitVec.extractLsb'_toNat,magNorm_toNat nonzero]
    rfl
  have lsb : (frac x).getLsbD 0 = true ↔ normalised x / 2 ^ 21 % 2 = 1 := by
    rw [BitVec.getLsbD,frac_toNat nonzero,Nat.testBit_zero,decide_eq_true_iff]
    omega
  have bit (k : Nat) : (magNorm x).getLsbD k = true ↔ normalised x / 2 ^ k % 2 = 1 := by
    rw [BitVec.getLsbD,magNorm_toNat nonzero,Nat.testBit_eq_decide_div_mod_eq,decide_eq_true_iff]
  rw [increment,Bool.and_eq_true,Bool.or_eq_true,Bool.or_eq_true,bit,bit,sticky,lsb]
  omega

theorem fracPlus_toNat : (fracPlus x).toNat + 1024 = significand x := by
  have short := frac_toNat nonzero
  have bounds := normalised_bounds nonzero
  have sum : (fracPlus x).toNat = (frac x).toNat + (increment x).toNat := by
    have fits := (frac x).isLt
    have bit := (increment x).toNat_lt
    rw [fracPlus,BitVec.toNat_add,BitVec.toNat_setWidth,BitVec.toNat_setWidth,BitVec.toNat_ofBool]
    omega
  rw [sum,significand,Format.rounded]
  by_cases up : increment x = true
  · rw [if_pos ((increment_iff nonzero).mp up),up,Bool.toNat_true]
    omega
  · rw [if_neg (fun more => up ((increment_iff nonzero).mpr more)),Bool.eq_false_of_not_eq_true up,
      Bool.toNat_false]
    omega

theorem mantOverflow_iff : mantOverflow x = true ↔ significand x = 2048 := by
  have plus := fracPlus_toNat nonzero
  have bounds := significand_bounds nonzero
  rw [mantOverflow,BitVec.getLsbD,Nat.testBit_eq_decide_div_mod_eq,decide_eq_true_iff]
  omega

theorem fracRounded_toNat :
    (fracRounded x).toNat = if significand x = 2048 then 0 else significand x - 1024 := by
  have plus := fracPlus_toNat nonzero
  have bounds := significand_bounds nonzero
  unfold fracRounded
  by_cases carry : significand x = 2048
  · rw [if_pos ((mantOverflow_iff nonzero).mpr carry),if_pos carry]
    rfl
  · rw [if_neg (fun more => carry ((mantOverflow_iff nonzero).mp more)),if_neg carry,BitVec.toNat_setWidth]
    omega

theorem expRounded_toNat :
    (expRounded x).toNat = exponent x + 15 + if significand x = 2048 then 1 else 0 := by
  have small := exponent_le nonzero
  have before : ((msbIndex x).setWidth 6 + 15).toNat = exponent x + 15 := by
    rw [BitVec.toNat_add,BitVec.toNat_setWidth,msbIndex_toNat nonzero]
    change (exponent x % 2 ^ 6 + 15) % 2 ^ 6 = _
    omega
  have after : ((msbIndex x).setWidth 6 + 15 + 1).toNat = exponent x + 15 + 1 := by
    rw [BitVec.toNat_add,before]
    change (exponent x + 15 + 1) % 2 ^ 6 = _
    omega
  unfold expRounded
  by_cases carry : significand x = 2048
  · rw [if_pos carry,if_pos ((mantOverflow_iff nonzero).mpr carry)]
    exact after
  · rw [if_neg carry,if_neg (fun more => carry ((mantOverflow_iff nonzero).mp more))]
    exact before

theorem out_of_ne_zero : out x =
    if 31 ≤ (expRounded x).toNat then Binary16.pack x.msb 31 0
    else Binary16.pack x.msb ((expRounded x).setWidth 5) (fracRounded x) := by
  have magnitude : (abs x == 0) = false := beq_false_of_ne (abs_ne_zero nonzero)
  rw [out,magnitude]
  rfl

/-! ### The rounded number -/

theorem natAbs_eq : (x.toInt.natAbs : ℚ) = normalised x * 2 ^ ((exponent x : ℤ) - 31) := by
  have small := exponent_le nonzero
  have back : (2 : ℚ) ^ (31 - exponent x) * 2 ^ ((exponent x : ℤ) - 31) = 1 := by
    rw [← zpow_natCast,← zpow_add₀ two_ne_zero,Nat.cast_sub small]
    norm_num
  rw [normalised,Nat.cast_mul,Nat.cast_pow,Nat.cast_ofNat,mul_assoc,back,mul_one]

theorem nearest_magnitude (r : ℚ) : Binary16.format.NearestEven x.toInt.natAbs r ↔
    r = magnitude x := by
  have bounds := normalised_bounds nonzero
  have full : 2 ^ (11 - 1) ≤ normalised x / 2 ^ 21 := by omega
  have digits : normalised x / 2 ^ 21 < 2 ^ 11 := by omega
  have unit : (exponent x : ℤ) - 31 + (21 : Nat) = (exponent x : ℤ) - 10 := by omega
  have small : (-24 : ℤ) ≤ (exponent x : ℤ) - 31 + (21 : Nat) := by omega
  have several : 2 ≤ Binary16.format.precision := Nat.le_add_left 2 9
  rw [natAbs_eq nonzero,Format.nearestEven_iff several full digits small,unit,magnitude,significand]

/-- The exponent overflows exactly where the rounded magnitude exceeds the largest number. -/
theorem overflow_iff :
    31 ≤ (expRounded x).toNat ↔ (65504 : ℚ) < magnitude x := by
  have bounds := significand_bounds nonzero
  have low : (1024 : ℚ) ≤ significand x := by exact_mod_cast bounds.1
  have high : (significand x : ℚ) ≤ 2048 := by exact_mod_cast bounds.2
  rw [expRounded_toNat nonzero]
  rcases Nat.lt_trichotomy (exponent x) 15 with less | last | more
  · have scale : (2 : ℚ) ^ ((exponent x : ℤ) - 10) ≤ 2 ^ (4 : ℤ) :=
      zpow_le_zpow_right₀ one_le_two (by omega)
    refine iff_of_false (by split <;> omega) (not_lt.mpr ?_)
    calc (significand x : ℚ) * 2 ^ ((exponent x : ℤ) - 10) ≤ 2048 * 2 ^ (4 : ℤ) :=
          mul_le_mul high scale (by positivity) (by norm_num)
      _ ≤ 65504 := by norm_num
  · have scale : (2 : ℚ) ^ ((exponent x : ℤ) - 10) = 32 := by
      rw [last]
      norm_num
    have product : (65504 : ℚ) < significand x * 32 ↔ 2047 < significand x := by
      rw [show (65504 : ℚ) = (2047 : Nat) * 32 by norm_num,mul_lt_mul_iff_left₀ (by norm_num),Nat.cast_lt]
    rw [magnitude,scale,product]
    split <;> omega
  · have scale : (2 : ℚ) ^ (6 : ℤ) ≤ 2 ^ ((exponent x : ℤ) - 10) :=
      zpow_le_zpow_right₀ one_le_two (by omega)
    refine iff_of_true (by omega) ?_
    calc (65504 : ℚ) < 1024 * 2 ^ (6 : ℤ) := by norm_num
      _ ≤ significand x * 2 ^ ((exponent x : ℤ) - 10) :=
          mul_le_mul low scale (by positivity) (by positivity)

/-- Without an overflow the fields are those of the rounded magnitude. -/
theorem fields_magnitude : ((1024 + (fracRounded x).toNat : Nat) : ℚ) *
    2 ^ (((expRounded x).toNat : ℤ) - 25) = magnitude x := by
  have bounds := significand_bounds nonzero
  rw [fracRounded_toNat nonzero,expRounded_toNat nonzero]
  split
  · next carry =>
    have up : ((exponent x + 15 + 1 : Nat) : ℤ) - 25 = (exponent x : ℤ) - 10 + 1 := by omega
    rw [up,magnitude,zpow_add_one₀ two_ne_zero,carry]
    push_cast
    ring
  · have same : ((exponent x + 15 + 0 : Nat) : ℤ) - 25 = (exponent x : ℤ) - 10 := by omega
    have whole : 1024 + (significand x - 1024) = significand x := Nat.add_sub_cancel' bounds.1
    rw [same,whole,magnitude]

end NonZero

/-- The number of the format that the integer is rounded to. -/
def value : ℚ := if x.msb then -magnitude x else magnitude x

theorem value_zero : value 0 = 0 := by
  have digits : significand 0 = 0 := by decide +kernel
  change magnitude 0 = 0
  rw [magnitude,digits,Nat.cast_zero,zero_mul]

theorem nearest_iff (r : ℚ) : Binary16.format.NearestEven x.toInt r ↔ r = value x := by
  by_cases zero : x = 0
  · have none : x.toInt = 0 := by
      rw [zero]
      rfl
    rw [none,Int.cast_zero,Format.nearestEven_zero_iff,zero,value_zero]
  · have sign := BitVec.msb_eq_toInt (x := x)
    have rounded := nearest_magnitude zero
    rw [value,sign]
    by_cases negative : x.toInt < 0
    · have mirrored : (x.toInt : ℚ) = -(x.toInt.natAbs : ℚ) := by
        rw [← Int.cast_natCast,Int.ofNat_natAbs_of_nonpos negative.le,Int.cast_neg,neg_neg]
      rw [mirrored,Format.nearestEven_neg_iff,rounded,if_pos (decide_eq_true negative),neg_eq_iff_eq_neg]
    · have kept : (x.toInt : ℚ) = (x.toInt.natAbs : ℚ) := by
        rw [← Int.cast_natCast,Int.natAbs_of_nonneg (not_lt.mp negative)]
      rw [kept,rounded,if_neg (by rwa [decide_eq_true_iff])]

theorem decode_out : Binary16.decode (out x) = some (Binary16.saturate (value x)) := by
  by_cases zero : x = 0
  · have bits : out 0 = Binary16.pack false 0 0 := by decide +kernel
    have kept := Binary16.saturate_within (le_refl 0) (by norm_num) false
    rw [if_neg Bool.false_ne_true] at kept
    rw [zero,bits,value_zero,kept,Binary16.decode_zero]
  · rw [out_of_ne_zero zero,value]
    split
    · next large =>
      rw [Binary16.decode_infinity,Binary16.saturate_over ((overflow_iff zero).mp large)]
    · next small =>
      have within := not_lt.mp (fun beyond => small ((overflow_iff zero).mpr beyond))
      have positive : 0 ≤ magnitude x := by
        unfold magnitude
        positivity
      have digits := expRounded_toNat zero
      have field : ((expRounded x).setWidth 5).toNat = (expRounded x).toNat := by
        rw [BitVec.toNat_setWidth]
        omega
      rw [Binary16.decode_normal _ _ _ (by omega) (by omega),Binary16.saturate_within positive within,
        field,fields_magnitude zero]

/-! ### The golden model -/

theorem carried_eq {M : Nat} (low : 2 ^ 31 ≤ M) (high : M < 2 ^ 32) :
    (M >>> 21 &&& 0x3FF) + (if (M >>> 20 &&& 1 != 0 && (M >>> 19 &&& 1 != 0 ||
      M &&& (1 <<< 19) - 1 != 0 || M >>> 21 &&& 0x3FF &&& 1 != 0)) = true then 1 else 0) =
      Format.rounded M 21 - 1024 := by
  have tenBits (n : Nat) : n &&& 0x3FF = n % 2 ^ 10 := Nat.and_two_pow_sub_one_eq_mod n 10
  have sticky : M &&& (1 <<< 19) - 1 = M % 2 ^ 19 := Nat.and_two_pow_sub_one_eq_mod M 19
  simp only [sticky,tenBits,Nat.and_one_is_mod,Nat.shiftRight_eq_div_pow,Bool.and_eq_true,
    Bool.or_eq_true,bne_iff_ne]
  unfold Format.rounded
  split <;> split <;> omega

theorem golden_eq : (out x).toNat = int32ToFp16Golden x.toInt := by
  have sign : x.msb.toNat = if x.toInt < 0 then 1 else 0 := by
    rw [BitVec.msb_eq_toInt]
    by_cases negative : x.toInt < 0
    · rw [if_pos negative,decide_eq_true negative,Bool.toNat_true]
    · rw [if_neg negative,decide_eq_false negative,Bool.toNat_false]
  by_cases zero : x = 0
  · rw [zero]
    decide +kernel
  · have bounds := normalised_bounds zero
    have masked : x.toInt.natAbs <<< (31 - Nat.log2 x.toInt.natAbs) &&& 0xFFFFFFFF = normalised x := by
      rw [Nat.shiftLeft_eq]
      exact (Nat.and_two_pow_sub_one_eq_mod _ 32).trans (Nat.mod_eq_of_lt bounds.2)
    have carries : significand x - 1024 = 1024 ↔ significand x = 2048 := by
      have digits := significand_bounds zero
      omega
    have field := expRounded_toNat zero
    simp only [int32ToFp16Golden,masked,carried_eq bounds.1 bounds.2,if_neg (natAbs_ne_zero zero),← sign]
    rw [out_of_ne_zero zero]
    change _ = if 31 ≤ exponent x + 15 then _ else if 31 ≤ (if significand x - 1024 = 1024 then
      exponent x + 15 + 1 else exponent x + 15) then _ else _ ||| (if significand x - 1024 = 1024 then
      exponent x + 15 + 1 else exponent x + 15) <<< 10 ||| if significand x - 1024 = 1024 then 0
      else significand x - 1024
    have raised : (if significand x - 1024 = 1024 then exponent x + 15 + 1 else exponent x + 15) =
        (expRounded x).toNat := by
      rw [field]
      by_cases carry : significand x = 2048
      · rw [if_pos (carries.mpr carry),if_pos carry]
      · rw [if_neg (fun more => carry (carries.mp more)),if_neg carry]
    have cut : (if significand x - 1024 = 1024 then 0 else significand x - 1024) = (fracRounded x).toNat := by
      rw [fracRounded_toNat zero]
      by_cases carry : significand x = 2048
      · rw [if_pos (carries.mpr carry),if_pos carry]
      · rw [if_neg (fun more => carry (carries.mp more)),if_neg carry]
    rw [raised,cut]
    by_cases beyond : 31 ≤ (expRounded x).toNat
    · rw [if_pos beyond,if_pos beyond,ite_self,Binary16.toNat_pack]
      exact Nat.or_zero _
    · have kept : ((expRounded x).setWidth 5).toNat = (expRounded x).toNat := by
        rw [BitVec.toNat_setWidth]
        omega
      rw [if_neg beyond,if_neg beyond,if_neg (by omega),Binary16.toNat_pack,kept]

theorem value_mono {x y : BitVec 32} (ordered : x.toInt ≤ y.toInt) : value x ≤ value y := by
  rcases lt_or_eq_of_le ordered with less | same
  · have below : (x.toInt : ℚ) < y.toInt := Int.cast_lt.mpr less
    exact Format.nearestEven_mono below ((nearest_iff x _).mpr rfl) ((nearest_iff y _).mpr rfl)
  · rw [BitVec.eq_of_toInt_eq same]

/-- Every integer is converted to the nearest number of the format, ties to even, or to the
infinity of its sign; the bits are the golden ones, and the order of the integers is kept. -/
theorem int32_to_fp16 (x : BitVec 32) :
    (∃ r, (∀ s, Binary16.format.NearestEven x.toInt s ↔ s = r) ∧
      Binary16.decode (out x) = some (Binary16.saturate r)) ∧
    out 0 = 0 ∧ (out x).toNat = int32ToFp16Golden x.toInt ∧
    ∀ y : BitVec 32, x.toInt ≤ y.toInt →
      ∃ u v, Binary16.decode (out x) = some u ∧ Binary16.decode (out y) = some v ∧ u ≤ v := by
  have zero : out 0 = 0 := by decide +kernel
  refine ⟨⟨value x,nearest_iff x,decode_out x⟩,zero,golden_eq x,fun y ordered => ?_⟩
  exact ⟨_,_,decode_out x,decode_out y,Binary16.saturate_mono (value_mono ordered)⟩

/-- The minimum, a tie that goes down to even, and the first number that becomes infinite. -/
example : out (BitVec.intMin 32) = 0xFC00 ∧ out 2049 = 0x6800 ∧ out 65520 = 0x7C00 := by decide +kernel

end Int32ToFp16PE

end Snax
