import Mathlib.Data.BitVec

/-! The counters of `utils/Counter.scala`. Each definition is the next-state or output
wire of one module; `ceil` may arrive truncated, so `ceil - 1` wraps as the wire does. -/
namespace Snax

/-- Chisel's `log2Ceil` and `log2Up`. -/
def log2Ceil (n : Nat) : Nat := if n ≤ 1 then 0 else Nat.log2 (n - 1) + 1

def log2Up (n : Nat) : Nat := max 1 (log2Ceil n)

theorem le_two_pow_log2Ceil (n : Nat) : n ≤ 2 ^ log2Ceil n := by
  unfold log2Ceil
  split
  · omega
  · have := Nat.lt_log2_self (n := n - 1)
    omega

theorem le_two_pow_log2Up (n : Nat) : n ≤ 2 ^ log2Up n :=
  (le_two_pow_log2Ceil n).trans (Nat.pow_le_pow_right (by omega) (by simp [log2Up]))

theorem log2Ceil_two_pow (n : Nat) : log2Ceil (2 ^ n) = n := by
  have below := le_two_pow_log2Ceil (2 ^ n)
  have lower : n ≤ log2Ceil (2 ^ n) := (Nat.pow_le_pow_iff_right (by decide)).mp below
  rcases Nat.eq_zero_or_pos n with rfl | positive
  · rfl
  · have large : ¬ 2 ^ n ≤ 1 := by
      have := Nat.one_lt_two_pow positive.ne'
      omega
    have upper : Nat.log2 (2 ^ n - 1) < n :=
      (Nat.log2_lt (by omega)).mpr (Nat.sub_lt (Nat.two_pow_pos n) Nat.one_pos)
    rw [log2Ceil,if_neg large] at lower ⊢
    omega

/-- `io.ceil - 1.U`: the literal is one bit wide, so a zero-width ceiling widens to one bit. -/
def lastIndex (ceil : BitVec w) : Nat := (ceil.toNat + 2 ^ max w 1 - 1) % 2 ^ max w 1

theorem lastIndex_of_ne_zero (ceil : BitVec w) (positive : ceil ≠ 0) :
    lastIndex ceil = ceil.toNat - 1 := by
  have nonzero : 0 < ceil.toNat := by
    rcases Nat.eq_zero_or_pos ceil.toNat with h | h
    · exact absurd (BitVec.eq_of_toNat_eq (by simpa using h)) positive
    · exact h
  have room : 2 ^ w ≤ 2 ^ max w 1 := Nat.pow_le_pow_right (by omega) (by omega)
  have small := ceil.isLt
  have split : ceil.toNat + 2 ^ max w 1 - 1 = (ceil.toNat - 1) + 2 ^ max w 1 := by omega
  rw [lastIndex,split,Nat.add_mod_right,Nat.mod_eq_of_lt (by omega)]

/-- A ceiling of `n + 1` that wraps to the port width still ends the count at `n`. -/
theorem lastIndex_ofNat_succ (n : Nat) (wide : 0 < w) (fits : n + 1 ≤ 2 ^ w) :
    lastIndex (BitVec.ofNat w (n + 1)) = n := by
  have width : max w 1 = w := by omega
  rcases Nat.lt_or_eq_of_le fits with below | full
  · rw [lastIndex,BitVec.toNat_ofNat,Nat.mod_eq_of_lt below,width]
    rw [show n + 1 + 2 ^ w - 1 = n + 2 ^ w by omega,Nat.add_mod_right,Nat.mod_eq_of_lt (by omega)]
  · rw [lastIndex,BitVec.toNat_ofNat,full,Nat.mod_self,width]
    rw [Nat.mod_eq_of_lt (by omega)]
    omega

namespace BasicCounter

def next (hasCeil reset tick : Bool) (ceil value : BitVec w) : BitVec w :=
  if hasCeil then
    if reset then 0
    else if tick then (if value.toNat < lastIndex ceil then value + 1 else 0) else value
  else if reset then 0 else if tick then value + 1 else value

def lastVal (hasCeil tick : Bool) (ceil value : BitVec w) : Bool :=
  (if hasCeil then value.toNat == lastIndex ceil else value == BitVec.allOnes w) && tick

@[simp] theorem next_reset (hasCeil tick : Bool) (ceil value : BitVec w) :
    next hasCeil true tick ceil value = 0 := by
  cases hasCeil <;> rfl

@[simp] theorem next_hold (hasCeil : Bool) (ceil value : BitVec w) :
    next hasCeil false false ceil value = value := by
  cases hasCeil <;> rfl

@[simp] theorem lastVal_hold (hasCeil : Bool) (ceil value : BitVec w) :
    lastVal hasCeil false ceil value = false := by simp [lastVal]

/-- A count below the ceiling has room for one more in the counter's width. -/
theorem toNat_add_one (value : BitVec w) {bound : Nat} (below : value.toNat < bound)
    (fits : bound < 2 ^ w) : (value + 1).toNat = value.toNat + 1 := by
  have width : w ≠ 0 := by rintro rfl; simp at fits; omega
  have one : (1 : BitVec w).toNat = 1 := by
    have : 1 < 2 ^ w := Nat.one_lt_two_pow width
    simp [Nat.mod_eq_of_lt this]
  rw [BitVec.toNat_add,one,Nat.mod_eq_of_lt (by omega)]

/-- One tick under a nonzero ceiling, on naturals. -/
theorem next_tick (ceil value : BitVec w) (positive : ceil ≠ 0)
    (below : value.toNat < ceil.toNat) :
    (next true false true ceil value).toNat =
      if value.toNat + 1 < ceil.toNat then value.toNat + 1 else 0 := by
  simp only [next,↓reduceIte,Bool.false_eq_true,lastIndex_of_ne_zero ceil positive]
  by_cases room : value.toNat + 1 < ceil.toNat
  · rw [if_pos (by omega),if_pos room,toNat_add_one value below ceil.isLt]
  · rw [if_neg (by omega),if_neg room]
    rfl

/-- The counter wraps at a ceiling that its width can count up to, also where the ceiling
itself does not fit the width. -/
theorem next_ofNat {f : Nat} (fits : f ≤ 2 ^ w) (value : BitVec w) (below : value.toNat < f)
    (tick : Bool) : (next true false tick (BitVec.ofNat w f) value).toNat =
      if tick then (if value.toNat + 1 < f then value.toNat + 1 else 0) else value.toNat := by
  cases tick with
  | false => simp
  | true =>
    obtain ⟨last,rfl⟩ : ∃ last, f = last + 1 := ⟨f - 1,by omega⟩
    rcases Nat.eq_zero_or_pos w with rfl | wide
    · have zero (x : BitVec 0) : x.toNat = 0 := Nat.lt_one_iff.mp x.isLt
      simp only [zero,↓reduceIte]
      rw [if_neg (by omega)]
    · simp only [next,↓reduceIte,Bool.false_eq_true,lastIndex_ofNat_succ last wide fits]
      by_cases room : value.toNat < last
      · rw [if_pos room,if_pos (by omega),toNat_add_one value room (by omega)]
      · rw [if_neg room,if_neg (by omega)]
        rfl

theorem lastVal_tick (ceil value : BitVec w) (positive : ceil ≠ 0)
    (below : value.toNat < ceil.toNat) :
    lastVal true true ceil value = (value.toNat + 1 == ceil.toNat) := by
  simp only [lastVal,↓reduceIte,Bool.and_true,lastIndex_of_ne_zero ceil positive]
  rw [Bool.eq_iff_iff,beq_iff_eq,beq_iff_eq]
  omega

end BasicCounter

namespace UpDownCounter

/-- Only one tick counts at a time: both together leave the value unchanged. -/
def next (reset tickUp tickDown : Bool) (ceil value : BitVec w) : BitVec w :=
  if reset then 0
  else if tickUp ^^ tickDown then
    if tickUp then (if value.toNat < lastIndex ceil then value + 1 else 0)
    else if 0 < value.toNat then value - 1 else BitVec.ofNat w (lastIndex ceil)
  else value

def lastVal (ceil value : BitVec w) : Bool := value.toNat == lastIndex ceil

def firstVal (value : BitVec w) : Bool := value.toNat == 0

/-- Between its end values the counter follows the natural balance of its ticks. -/
theorem next_balance (up down : Bool) (ceil value : BitVec w)
    (fits : lastIndex ceil < 2 ^ w) (bound : value.toNat ≤ lastIndex ceil)
    (room : up = true → down = false → value.toNat < lastIndex ceil)
    (stock : down = true → up = false → 0 < value.toNat) :
    (next false up down ceil value).toNat + down.toNat = value.toNat + up.toNat := by
  cases up <;> cases down <;> simp only [next,Bool.xor_true,Bool.xor_false,Bool.not_false,
    Bool.not_true,Bool.false_eq_true,↓reduceIte,Bool.toNat_false,Bool.toNat_true,Nat.add_zero]
  · have positive := stock rfl rfl
    have width : w ≠ 0 := by rintro rfl; have := value.isLt; simp at this; omega
    have one : (1 : BitVec w).toNat = 1 := by
      have : 1 < 2 ^ w := Nat.one_lt_two_pow width
      simp [Nat.mod_eq_of_lt this]
    have := value.isLt
    rw [if_pos positive,BitVec.toNat_sub,one]
    rw [show 2 ^ w - 1 + value.toNat = (value.toNat - 1) + 2 ^ w by omega,Nat.add_mod_right,
      Nat.mod_eq_of_lt (by omega)]
    omega
  · have space := room rfl rfl
    rw [if_pos space,BasicCounter.toNat_add_one value space fits]

end UpDownCounter

/-- `ProgrammableCounter` with a ceiling: the small counter counts the ticks, the value
accumulates the step. -/
structure ProgrammableCounter (w : Nat) where
  smallCounter : BitVec w
  value : BitVec w
  deriving DecidableEq, Repr

namespace ProgrammableCounter

def reset (w : Nat) : ProgrammableCounter w := ⟨0,0⟩

def lastVal (tick : Bool) (ceil : BitVec w) (c : ProgrammableCounter w) : Bool :=
  BasicCounter.lastVal true tick ceil c.smallCounter

/-- The step port is one bit narrower than the value. -/
def next (reset tick : Bool) (ceil : BitVec w) (step : BitVec (w - 1))
    (c : ProgrammableCounter w) : ProgrammableCounter w where
  smallCounter := BasicCounter.next true reset tick ceil c.smallCounter
  value :=
    if reset || (c.lastVal tick ceil && tick) then 0
    else if tick then c.value + step.setWidth w else c.value

@[simp] theorem next_reset (tick : Bool) (ceil : BitVec w) (step : BitVec (w - 1))
    (c : ProgrammableCounter w) : c.next true tick ceil step = reset w := by
  simp [next,reset]

@[simp] theorem next_hold (ceil : BitVec w) (step : BitVec (w - 1)) (c : ProgrammableCounter w) :
    c.next false false ceil step = c := by
  simp [next,lastVal]

/-- The counter stands at wheel position `d`: its value is `d` steps. -/
def At (step : BitVec (w - 1)) (d : Nat) (c : ProgrammableCounter w) : Prop :=
  c.smallCounter.toNat = d ∧ c.value = BitVec.ofNat w (d * step.toNat)

theorem reset_at (step : BitVec (w - 1)) : At step 0 (reset w) := by simp [At,reset]

theorem at_zero {step : BitVec (w - 1)} {c : ProgrammableCounter w} (place : At step 0 c) :
    c = reset w := by
  obtain ⟨small,value⟩ := place
  have zero : c.smallCounter = 0 := BitVec.eq_of_toNat_eq (by simpa using small)
  cases c
  simp_all [reset]

theorem lastVal_at {ceil : BitVec w} {step : BitVec (w - 1)} {d : Nat} {c : ProgrammableCounter w}
    (positive : ceil ≠ 0) (place : At step d c) (below : d < ceil.toNat) (tick : Bool) :
    c.lastVal tick ceil = (tick && d + 1 == ceil.toNat) := by
  cases tick with
  | false => simp [lastVal]
  | true => simp [lastVal,BasicCounter.lastVal_tick ceil _ positive (place.1 ▸ below),place.1]

/-- One tick is one turn of the wheel, and the accumulated value follows it. -/
theorem next_at {ceil : BitVec w} {step : BitVec (w - 1)} {d : Nat} {c : ProgrammableCounter w}
    (positive : ceil ≠ 0) (place : At step d c) (below : d < ceil.toNat) (tick : Bool) :
    At step (if tick then (if d + 1 < ceil.toNat then d + 1 else 0) else d)
      (c.next false tick ceil step) := by
  cases tick with
  | false => simpa using place
  | true =>
    have small := BasicCounter.next_tick ceil c.smallCounter positive (place.1 ▸ below)
    have last := lastVal_at positive place below true
    simp only [Bool.true_and] at last
    by_cases room : d + 1 < ceil.toNat
    · have more : (d + 1 == ceil.toNat) = false := by simp; omega
      refine ⟨by simp [next,small,place.1,room],?_⟩
      simp only [next,last,more,Bool.false_and,Bool.or_false,Bool.false_eq_true,↓reduceIte,room,
        place.2]
      rw [Nat.add_mul,Nat.one_mul,BitVec.ofNat_add]
      congr 1
      exact BitVec.eq_of_toNat_eq (by simp)
    · have final : (d + 1 == ceil.toNat) = true := by simp; omega
      refine ⟨by simp [next,small,place.1,room],?_⟩
      simp [next,last,final,room]

end ProgrammableCounter
end Snax
