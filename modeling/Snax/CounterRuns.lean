import Mathlib.Data.Int.Basic
import Snax.Counter
import Snax.Sync.Machine

/-! The counters of `utils/Counter.scala` over whole runs, under a ceiling that the width can count
up to and that may not fit the port itself. -/
namespace Snax

structure TickInput where
  reset : Bool
  tick : Bool

structure UpDownInput where
  reset : Bool
  tickUp : Bool
  tickDown : Bool

/-- A register that stands at its reset value: it starts there, or the last cycle was a reset. -/
def AtReset {σ ι : Type} (zero start : σ) (reset : ι → Bool) (past : List ι) : Prop :=
  match past.getLast? with
  | none => start = zero
  | some i => reset i = true

/-- Reset brings the register back, whatever was before. -/
theorem exec_atReset {σ ι ω : Type} {m : Sync.Machine σ ι ω} {zero start : σ} {reset : ι → Bool}
    (resets : ∀ s i, reset i = true → m.next s i = zero) {past : List ι}
    (atReset : AtReset zero start reset past) : m.exec start past = zero := by
  rcases List.eq_nil_or_concat past with rfl | ⟨front,i,rfl⟩
  · exact atReset
  · rw [AtReset,List.concat_eq_append,List.getLast?_append] at atReset
    rw [List.concat_eq_append,Sync.Machine.exec_append]
    exact resets _ i atReset

variable {w C : Nat}

namespace BasicCounter

def machine (ceil : BitVec w) : Sync.Machine (BitVec w) TickInput Bool where
  next value i := next true i.reset i.tick ceil value
  out value i := lastVal true i.tick ceil value

theorem lastVal_ofNat (wide : 0 < w) (positive : 1 ≤ C) (fits : C ≤ 2 ^ w) (tick : Bool)
    (value : BitVec w) :
    lastVal true tick (BitVec.ofNat w C) value = (tick && value.toNat + 1 == C) := by
  obtain ⟨last,rfl⟩ : ∃ last, C = last + 1 := ⟨C - 1,by omega⟩
  simp only [lastVal,↓reduceIte,lastIndex_ofNat_succ last wide fits,Bool.and_comm]
  congr 1
  rw [Bool.eq_iff_iff,beq_iff_eq,beq_iff_eq,Nat.add_right_cancel_iff]

/-- One turn more on a wheel of `C` places. -/
theorem succ_mod (positive : 1 ≤ C) (n : Nat) :
    (n + 1) % C = if n % C + 1 < C then n % C + 1 else 0 := by
  have below := Nat.mod_lt n positive
  rw [Nat.add_mod]
  rcases Nat.lt_or_ge 1 C with more | one
  · rw [Nat.mod_eq_of_lt more]
    split
    · next room => exact Nat.mod_eq_of_lt room
    · next full =>
      have last : n % C + 1 = C := by omega
      rw [last,Nat.mod_self]
  · obtain rfl : C = 1 := by omega
    rw [Nat.mod_one,if_neg (by omega)]

theorem dvd_succ_iff (positive : 1 ≤ C) (n : Nat) : n % C + 1 = C ↔ C ∣ n + 1 := by
  have below := Nat.mod_lt n positive
  rw [Nat.dvd_iff_mod_eq_zero,succ_mod positive]
  split <;> omega

/-- The ticks since the last reset, modulo the ceiling. -/
theorem exec_toNat (positive : 1 ≤ C) (fits : C ≤ 2 ^ w) {inputs : List TickInput}
    (open_ : ∀ i ∈ inputs, i.reset = false) :
    ((machine (BitVec.ofNat w C)).exec 0 inputs).toNat = inputs.countP (·.tick) % C := by
  induction inputs using List.reverseRecOn with
  | nil => simp
  | append_singleton front i ih =>
    have before := ih fun j inside => open_ j (List.mem_append_left _ inside)
    have running : i.reset = false := open_ i (List.mem_append_right _ List.mem_cons_self)
    have below : ((machine (BitVec.ofNat w C)).exec 0 front).toNat < C := by
      rw [before]
      exact Nat.mod_lt _ positive
    rw [Sync.Machine.exec_append,List.countP_append]
    change (next true i.reset i.tick _ _).toNat = _
    rw [running,next_ofNat fits _ below,before]
    cases ticks : i.tick with
    | false => simp [ticks]
    | true =>
      have one : [i].countP (·.tick) = 1 := by simp [ticks]
      rw [one,succ_mod positive,if_pos rfl]

end BasicCounter

namespace ProgrammableCounter

def machine (ceil : BitVec w) (step : BitVec (w - 1)) :
    Sync.Machine (ProgrammableCounter w) TickInput Bool where
  next c i := c.next i.reset i.tick ceil step
  out c i := c.lastVal i.tick ceil

/-- One tick under a ceiling that the width can count up to. -/
theorem next_at_ofNat (wide : 0 < w) (positive : 1 ≤ C) (fits : C ≤ 2 ^ w) {step : BitVec (w - 1)}
    {d : Nat} {c : ProgrammableCounter w} (place : At step d c) (below : d < C) :
    At step (if d + 1 < C then d + 1 else 0) (c.next false true (BitVec.ofNat w C) step) := by
  have small := BasicCounter.next_ofNat fits c.smallCounter (place.1 ▸ below) true
  have last : c.lastVal true (BitVec.ofNat w C) = (d + 1 == C) := by
    rw [lastVal,BasicCounter.lastVal_ofNat wide positive fits,place.1,Bool.true_and]
  rw [if_pos rfl,place.1] at small
  refine ⟨small,?_⟩
  by_cases room : d + 1 < C
  · have more : (d + 1 == C) = false := beq_false_of_ne (Nat.ne_of_lt room)
    simp only [next,last,more,Bool.false_and,Bool.or_false,Bool.false_eq_true,↓reduceIte,room,place.2]
    rw [Nat.add_mul,Nat.one_mul,BitVec.ofNat_add]
    congr 1
    exact BitVec.eq_of_toNat_eq (by simp)
  · have final : (d + 1 == C) = true := beq_iff_eq.mpr (by omega)
    simp only [next,last,final,Bool.and_self,Bool.or_true,↓reduceIte,room,Nat.zero_mul]
    rfl

theorem exec_at (wide : 0 < w) (positive : 1 ≤ C) (fits : C ≤ 2 ^ w) (step : BitVec (w - 1))
    {inputs : List TickInput} (open_ : ∀ i ∈ inputs, i.reset = false) :
    At step (inputs.countP (·.tick) % C) ((machine (BitVec.ofNat w C) step).exec (reset w) inputs) := by
  induction inputs using List.reverseRecOn with
  | nil => simpa using reset_at step
  | append_singleton front i ih =>
    have before := ih fun j inside => open_ j (List.mem_append_left _ inside)
    have running : i.reset = false := open_ i (List.mem_append_right _ List.mem_cons_self)
    rw [Sync.Machine.exec_append,List.countP_append]
    change At step _ (next i.reset i.tick _ step _)
    rw [running]
    cases ticks : i.tick with
    | false =>
      rw [next_hold]
      simpa [ticks] using before
    | true =>
      have one : [i].countP (·.tick) = 1 := by simp [ticks]
      rw [one,BasicCounter.succ_mod positive]
      exact next_at_ofNat wide positive fits before (Nat.mod_lt _ positive)

end ProgrammableCounter

namespace UpDownCounter

def machine (ceil : BitVec w) : Sync.Machine (BitVec w) UpDownInput (Bool × Bool) where
  next value i := next i.reset i.tickUp i.tickDown ceil value
  out value _ := (firstVal value,lastVal ceil value)

/-- The up ticks less the down ticks. -/
def balance (inputs : List UpDownInput) : Int := inputs.countP (·.tickUp) - inputs.countP (·.tickDown)

/-- It is ticked up only below `C - 1` and down only above 0. -/
def Paced (C : Nat) (inputs : List UpDownInput) : Prop :=
  ∀ front i, front ++ [i] <+: inputs →
    (i.tickUp = true → i.tickDown = false → balance front < C - 1) ∧
    (i.tickDown = true → i.tickUp = false → 0 < balance front)

theorem balance_concat (front : List UpDownInput) (i : UpDownInput) :
    balance (front ++ [i]) = balance front + i.tickUp.toNat - i.tickDown.toNat := by
  have single (p : UpDownInput → Bool) : [i].countP p = (p i).toNat := by cases h : p i <;> simp [h]
  simp only [balance,List.countP_append,single]
  omega

theorem exec_toNat (wide : 0 < w) (proper : 2 ≤ C) (fits : C ≤ 2 ^ w) {inputs : List UpDownInput}
    (open_ : ∀ i ∈ inputs, i.reset = false) (paced : Paced C inputs) :
    (((machine (BitVec.ofNat w C)).exec 0 inputs).toNat : Int) = balance inputs ∧
      balance inputs ≤ C - 1 := by
  obtain ⟨last,rfl⟩ : ∃ last, C = last + 1 := ⟨C - 1,by omega⟩
  have ceiling := lastIndex_ofNat_succ last wide fits
  induction inputs using List.reverseRecOn with
  | nil => simp [balance]
  | append_singleton front i ih =>
    have before := ih (fun j inside => open_ j (List.mem_append_left _ inside))
      fun early j inside => paced early j (inside.trans (List.prefix_append _ _))
    have running : i.reset = false := open_ i (List.mem_append_right _ List.mem_cons_self)
    obtain ⟨up,down⟩ := paced front i List.prefix_rfl
    have moved := next_balance i.tickUp i.tickDown (BitVec.ofNat w (last + 1))
      ((machine (BitVec.ofNat w (last + 1))).exec 0 front) (by rw [ceiling]; omega)
      (by rw [ceiling]; omega) (fun ticked alone => by rw [ceiling]; have := up ticked alone; omega)
      (fun ticked alone => by have := down ticked alone; omega)
    rw [Sync.Machine.exec_append,balance_concat]
    change (((next i.reset i.tickUp i.tickDown _ _).toNat : Nat) : Int) = _ ∧ _
    rw [running]
    refine ⟨by omega,?_⟩
    cases ticked : i.tickUp with
    | false =>
      rw [Bool.toNat_false]
      omega
    | true =>
      cases alone : i.tickDown with
      | false =>
        have := up ticked alone
        rw [Bool.toNat_true,Bool.toNat_false]
        omega
      | true =>
        rw [Bool.toNat_true]
        omega

end UpDownCounter

/-- The counters of width `w` under the ceiling `C`, which arrives truncated, from their reset values
on. The cycle in which `lastVal` is read may be a reset itself. -/
structure CountsTruncated (w C : Nat) : Prop where
  basic : ∀ (start : BitVec w) (past inputs : List TickInput), AtReset 0 start (·.reset) past →
    (∀ i ∈ inputs, i.reset = false) →
    ((BasicCounter.machine (BitVec.ofNat w C)).exec start (past ++ inputs)).toNat =
      inputs.countP (·.tick) % C ∧
    ∀ i, (BasicCounter.machine (BitVec.ofNat w C)).out
      ((BasicCounter.machine (BitVec.ofNat w C)).exec start (past ++ inputs)) i =
        (i.tick && decide (C ∣ inputs.countP (·.tick) + 1))
  programmable : ∀ (step : BitVec (w - 1)) (start : ProgrammableCounter w)
    (past inputs : List TickInput), AtReset (.reset w) start (·.reset) past →
    (∀ i ∈ inputs, i.reset = false) →
    ((ProgrammableCounter.machine (BitVec.ofNat w C) step).exec start (past ++ inputs)).value.toNat =
      inputs.countP (·.tick) % C * step.toNat % 2 ^ w
  upDown : 2 ≤ C → ∀ (start : BitVec w) (past inputs : List UpDownInput),
    AtReset 0 start (·.reset) past → (∀ i ∈ inputs, i.reset = false) → UpDownCounter.Paced C inputs →
    (((UpDownCounter.machine (BitVec.ofNat w C)).exec start (past ++ inputs)).toNat : Int) =
      UpDownCounter.balance inputs ∧
    ∀ i, (UpDownCounter.machine (BitVec.ofNat w C)).out
      ((UpDownCounter.machine (BitVec.ofNat w C)).exec start (past ++ inputs)) i =
        (decide (UpDownCounter.balance inputs = 0),decide (UpDownCounter.balance inputs = C - 1))

/-- The ceiling of no bits is widened by the literal that is taken off, and never met. -/
theorem not_countsTruncated_zero : ¬ CountsTruncated 0 1 := by
  intro counts
  have last := (counts.basic 0 [] [] rfl (fun _ inside => absurd inside List.not_mem_nil)).2 ⟨false,true⟩
  exact absurd last (by decide)

/-- The counters meet their law exactly where the width is not zero. -/
theorem counts_truncated (w C : Nat) (positive : 1 ≤ C) (fits : C ≤ 2 ^ w) :
    CountsTruncated w C ↔ 0 < w := by
  constructor
  · intro counts
    rcases Nat.eq_zero_or_pos w with rfl | wide
    · obtain rfl : C = 1 := Nat.le_antisymm fits positive
      exact absurd counts not_countsTruncated_zero
    · exact wide
  · intro wide
    refine ⟨fun start past inputs atReset open_ => ?_,fun step start past inputs atReset open_ => ?_,
      fun proper start past inputs atReset open_ paced => ?_⟩
    · have zero := exec_atReset (m := BasicCounter.machine (BitVec.ofNat w C))
        (fun s i resets => by simp [BasicCounter.machine,resets]) atReset
      rw [Sync.Machine.exec_append,zero]
      have value := BasicCounter.exec_toNat positive fits open_
      refine ⟨value,fun i => ?_⟩
      change BasicCounter.lastVal true i.tick _ _ = _
      rw [BasicCounter.lastVal_ofNat wide positive fits,value]
      congr 1
      rw [Bool.eq_iff_iff,beq_iff_eq,decide_eq_true_iff]
      exact BasicCounter.dvd_succ_iff positive _
    · have zero := exec_atReset (m := ProgrammableCounter.machine (BitVec.ofNat w C) step)
        (fun s i resets => by simp [ProgrammableCounter.machine,resets]) atReset
      rw [Sync.Machine.exec_append,zero,
        (ProgrammableCounter.exec_at wide positive fits step open_).2,BitVec.toNat_ofNat]
    · have zero := exec_atReset (m := UpDownCounter.machine (BitVec.ofNat w C))
        (fun s i resets => by simp [UpDownCounter.machine,UpDownCounter.next,resets]) atReset
      rw [Sync.Machine.exec_append,zero]
      obtain ⟨value,bounded⟩ := UpDownCounter.exec_toNat wide proper fits open_ paced
      refine ⟨value,fun i => ?_⟩
      have last := lastIndex_ofNat_succ (C - 1) wide (by omega)
      rw [Nat.sub_add_cancel positive] at last
      change (UpDownCounter.firstVal _,UpDownCounter.lastVal _ _) = _
      rw [UpDownCounter.firstVal,UpDownCounter.lastVal,last,← value]
      congr 1
      · rw [Bool.eq_iff_iff,beq_iff_eq,decide_eq_true_iff]
        omega
      · rw [Bool.eq_iff_iff,beq_iff_eq,decide_eq_true_iff]
        omega

theorem counts_truncated_full : CountsTruncated 2 4 ↔ 0 < 2 :=
  counts_truncated 2 4 (by decide) (by decide)

/-- A width that holds no bits counts to one. -/
theorem counts_truncated_zero_width : ¬ ∀ w C, 1 ≤ C → C ≤ 2 ^ w → CountsTruncated w C :=
  fun claimed => not_countsTruncated_zero (claimed 0 1 (by decide) (by decide))

end Snax
