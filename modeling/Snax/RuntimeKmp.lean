import Mathlib.Data.Int.ModEq
import Mathlib.Tactic.Linarith
import Snax.Sync.Sweep

/-! `omp/kmp.c`: how a statically scheduled loop is shared by the threads of the team. Signed arithmetic is that
of the integers, as long as it does not overflow; what is computed without a sign comes back into a
`kmp_int32` by its low word. -/
namespace Snax

open Sync (Enters sweep sweep_count flatMap_blocks flatMap_range_inj flatMap_rounds)

inductive SchedType
  | staticChunked
  | static
  | other
  deriving DecidableEq

/-- What `__kmpc_for_static_init_4` is given by its pointers: `*plastiter`, `*plower`, `*pupper`, `*pstride`. -/
structure StaticLoop where
  lastiter : Bool
  lower : Int
  upper : Int
  stride : Int
  deriving DecidableEq

def kmpInt32 (x : Int) : Int := x.bmod (2 ^ 32)

/-- The schedule without a chunk size. -/
def staticInit (threadNum nbThreads : Nat) (loop : StaticLoop) (incr : Int) : StaticLoop :=
  let loopSize := ((loop.upper - loop.lower).tdiv incr + 1) % 2 ^ 32
  let chunk := kmpInt32 (loopSize / nbThreads)
  let leftOver := kmpInt32 (loopSize - chunk * nbThreads)
  if threadNum < leftOver then
    let lower := kmpInt32 (loop.lower + threadNum * (chunk + 1) * incr)
    let upper := lower + (chunk + 1) * incr - incr
    ⟨upper == loop.upper && lower ≤ loop.upper,lower,upper,kmpInt32 loopSize⟩
  else
    let lower := kmpInt32 (loop.lower + threadNum * chunk * incr + leftOver)
    let upper := lower + chunk * incr - incr
    ⟨upper == loop.upper && lower ≤ loop.upper,lower,upper,kmpInt32 loopSize⟩

/-- The schedule with a chunk size. -/
def staticChunkedInit (threadNum nbThreads : Nat) (loop : StaticLoop) (incr chunk : Int) : StaticLoop :=
  let span := incr * chunk
  let stride := span * nbThreads
  let lower := kmpInt32 (loop.lower + span * threadNum)
  let beginLastChunk := loop.upper - loop.upper.tmod span
  ⟨(beginLastChunk - lower).tmod stride == 0,lower,lower + span - incr,stride⟩

/-- `__kmpc_for_static_init_4` -/
def kmpcForStaticInit4 (threadNum nbThreads : Nat) (sched : SchedType) (loop : StaticLoop) (incr chunk : Int) :
    StaticLoop :=
  match sched with
  | .staticChunked => staticChunkedInit threadNum nbThreads loop incr chunk
  | .static => staticInit threadNum nbThreads loop incr
  | .other => loop

def InInt32 (x : Int) : Prop := -2 ^ 31 ≤ x ∧ x < 2 ^ 31

/-- A loop of `n` iterations, with no overflow in it. -/
structure LoopFits (lower upper incr : Int) (n : Nat) : Prop where
  moves : incr ≠ 0
  enters : Enters lower upper incr
  count : (upper - lower).fdiv incr + 1 = n
  few : n < 2 ^ 31
  first : InInt32 lower
  behind : InInt32 (lower + n * incr)

variable {lower upper incr : Int} {n threads t : Nat} {loop : StaticLoop}

theorem kmpInt32_of_fits {x : Int} (fits : InInt32 x) : kmpInt32 x = x := by
  obtain ⟨low,high⟩ := fits
  apply Int.bmod_eq_of_le
  · norm_num
    omega
  · norm_num
    omega

namespace LoopFits

theorem tdiv_eq (fits : LoopFits lower upper incr n) : (upper - lower).tdiv incr = n - 1 := by
  have count := fits.count
  rcases fits.enters with ⟨up,ordered⟩ | ⟨down,ordered⟩
  · rw [← Int.fdiv_eq_tdiv_of_nonneg (by omega) up.le]
    omega
  · have flip := Int.neg_fdiv_neg (upper - lower) incr
    rw [← Int.neg_tdiv_neg,← Int.fdiv_eq_tdiv_of_nonneg (by omega) (by omega)]
    omega

theorem positive (fits : LoopFits lower upper incr n) : 0 < n := by
  have enters := (Sync.enters_iff fits.moves).mp fits.enters
  have count := fits.count
  omega

theorem sweep_eq (fits : LoopFits lower upper incr n) :
    sweep lower upper incr = (List.range n).map fun k : Nat => lower + k * incr := by
  have count := fits.count
  rw [sweep,count]
  rfl

/-- What lies between the first iteration and the end of the loop does not overflow. -/
theorem between (fits : LoopFits lower upper incr n) {y : Int}
    (inside : (0 ≤ y ∧ y ≤ n * incr) ∨ (n * incr ≤ y ∧ y ≤ 0)) : InInt32 (lower + y) := by
  obtain ⟨low,high⟩ := fits.first
  obtain ⟨low',high'⟩ := fits.behind
  constructor <;> omega

theorem scaled (fits : LoopFits lower upper incr n) {x : Nat} (inside : x ≤ n) :
    (0 ≤ x * incr ∧ x * incr ≤ n * incr) ∨ (n * incr ≤ x * incr ∧ x * incr ≤ 0) := by
  have casted : (x : Int) ≤ n := Int.ofNat_le.mpr inside
  rcases fits.enters with ⟨up,_⟩ | ⟨down,_⟩
  · exact .inl ⟨Int.mul_nonneg (Int.natCast_nonneg x) up.le,Int.mul_le_mul_of_nonneg_right casted up.le⟩
  · refine .inr ⟨Int.mul_le_mul_of_nonpos_right casted down.le,?_⟩
    exact Int.mul_nonpos_of_nonneg_of_nonpos (Int.natCast_nonneg x) down.le

end LoopFits

/-- How many iterations thread `t` gets, and how many the threads before it get. -/
def shareSize (n threads t : Nat) : Nat := n / threads + if t < n % threads then 1 else 0

def shareStart (n threads t : Nat) : Nat := t * (n / threads) + min t (n % threads)

theorem sum_shareSize (n threads t : Nat) : ∑ i ∈ Finset.range t, shareSize n threads i = shareStart n threads t := by
  induction t with
  | zero => simp [shareStart]
  | succ t ih =>
    rw [Finset.sum_range_succ,ih,shareStart,shareStart,shareSize,Nat.succ_mul]
    split <;> omega

theorem shareStart_all (n : Nat) (some : 0 < threads) : shareStart n threads threads = n := by
  have rest := Nat.mod_lt n some
  have whole := Nat.div_add_mod n threads
  rw [shareStart]
  omega

theorem shareStart_le (n : Nat) (inside : t ≤ threads) : shareStart n threads t ≤ n := by
  have rows := Nat.mul_le_mul_right (n / threads) inside
  have whole := Nat.div_add_mod n threads
  rw [shareStart]
  omega

/-- By how much the bounds of a thread miss its share: what is left over is counted in iterations, but not
multiplied by the increment. -/
def skew (incr : Int) (n threads t : Nat) : Int := if t < n % threads then 0 else (n % threads : Nat) * (1 - incr)

/-- The skewed start of a thread's share is still within the loop. -/
theorem skewed_between (fits : LoopFits lower upper incr n) (some : t < threads)
    (shared : incr = 1 ∨ threads ≤ n) : InInt32 (lower + (shareStart n threads t * incr + skew incr n threads t)) := by
  apply fits.between
  have start := fits.scaled (shareStart_le n some.le)
  unfold skew
  split
  · rw [add_zero]
    exact start
  · next late =>
    rcases shared with rfl | enough
    · simpa using start
    · -- the thread's rows come first, and what is left over is less than one of them
      have rest : min t (n % threads) = n % threads := min_eq_right (by omega)
      have row : 0 < n / threads := Nat.div_pos enough (by omega)
      have rows : t ≤ t * (n / threads) := Nat.le_mul_of_pos_right t row
      have within := shareStart_le n some.le
      have value : (shareStart n threads t : Int) * incr + (n % threads : Nat) * (1 - incr) =
          (t * (n / threads) : Nat) * incr + (n % threads : Nat) := by
        rw [shareStart,rest]
        push_cast
        ring
      rw [shareStart,rest] at within
      rw [value]
      generalize t * (n / threads) = x at rows within
      generalize n % threads = r at late within
      rcases fits.enters with ⟨up,_⟩ | ⟨down,_⟩
      · left
        have more : (r : Int) ≤ r * incr := le_mul_of_one_le_right (Int.natCast_nonneg r) up
        have whole := Int.mul_le_mul_of_nonneg_right (Int.ofNat_le.mpr within) up.le
        have low := Int.mul_nonneg (Int.natCast_nonneg x) up.le
        push_cast at whole
        constructor
        · omega
        · linarith
      · right
        have back : (x : Int) * incr ≤ -x := by nlinarith
        have whole := Int.mul_le_mul_of_nonpos_right (Int.ofNat_le.mpr (show x ≤ n by omega)) down.le
        constructor
        · linarith
        · omega

theorem kmpInt32_natCast {x : Nat} (few : x < 2 ^ 31) : kmpInt32 x = x := by
  apply kmpInt32_of_fits
  constructor <;> omega

/-- What the schedule without a chunk size comes to when nothing overflows. -/
theorem staticInit_eq (fits : LoopFits loop.lower loop.upper incr n) (some : t < threads)
    (shared : incr = 1 ∨ threads ≤ n) :
    let lower := loop.lower + (shareStart n threads t * incr + skew incr n threads t)
    let upper := lower + shareSize n threads t * incr - incr
    staticInit t threads loop incr = ⟨upper == loop.upper && lower ≤ loop.upper,lower,upper,n⟩ := by
  intro lower upper
  have few := fits.few
  have inside : kmpInt32 lower = lower := kmpInt32_of_fits (skewed_between fits some shared)
  have size : ((loop.upper - loop.lower).tdiv incr + 1) % 2 ^ 32 = (n : Int) := by
    rw [fits.tdiv_eq,Int.sub_add_cancel]
    exact Int.emod_eq_of_lt (Int.natCast_nonneg n) (by omega)
  have chunk : kmpInt32 ((n : Int) / (threads : Nat)) = (n / threads : Nat) := by
    rw [← Int.natCast_div]
    exact kmpInt32_natCast (Nat.lt_of_le_of_lt (Nat.div_le_self ..) few)
  have leftOver : kmpInt32 ((n : Int) - (n / threads : Nat) * (threads : Nat)) = (n % threads : Nat) := by
    have whole := Nat.div_add_mod' n threads
    have value : (n : Int) - (n / threads : Nat) * (threads : Nat) = (n % threads : Nat) := by
      rw [← Nat.cast_mul]
      omega
    rw [value]
    exact kmpInt32_natCast (Nat.lt_of_le_of_lt (Nat.mod_le ..) few)
  have whole := kmpInt32_natCast few
  simp only [staticInit,size,chunk,leftOver,whole]
  by_cases early : t < n % threads
  · have first : min t (n % threads) = t := min_eq_left early.le
    have start : loop.lower + t * ((n / threads : Nat) + 1) * incr = lower := by
      simp only [lower,shareStart,skew,early,first,if_true]
      push_cast
      ring
    have next : lower + ((n / threads : Nat) + 1) * incr - incr = upper := by
      simp only [upper,shareSize,early,if_true]
      push_cast
      ring
    rw [if_pos (Int.ofNat_lt.mpr early),start,inside,next]
  · have first : min t (n % threads) = n % threads := min_eq_right (Nat.le_of_not_lt early)
    have start : loop.lower + t * (n / threads : Nat) * incr + (n % threads : Nat) = lower := by
      simp only [lower,shareStart,skew,early,first,if_false]
      push_cast
      ring
    have next : lower + (n / threads : Nat) * incr - incr = upper := by
      simp only [upper,shareSize,early,if_false]
      push_cast
      ring
    rw [if_neg (mt Int.ofNat_lt.mp early),start,inside,next]

/-- The share of a thread, as it should be. -/
def share (lower incr : Int) (n threads t : Nat) : List Int :=
  (List.range (shareSize n threads t)).map fun k : Nat => lower + (shareStart n threads t + k : Nat) * incr

theorem flatMap_share (fits : LoopFits lower upper incr n) (some : 0 < threads) :
    ((List.range threads).flatMap fun t => share lower incr n threads t) = sweep lower upper incr := by
  have blocks := flatMap_blocks (shareSize n threads) threads
  simp only [sum_shareSize,shareStart_all n some] at blocks
  rw [fits.sweep_eq,← blocks,List.map_flatMap]
  simp only [share,List.map_map]
  rfl

theorem sweep_static (fits : LoopFits loop.lower loop.upper incr n) (some : t < threads)
    (shared : incr = 1 ∨ threads ≤ n) :
    sweep (staticInit t threads loop incr).lower (staticInit t threads loop incr).upper incr =
      (List.range (shareSize n threads t)).map fun k : Nat =>
        loop.lower + (shareStart n threads t * incr + skew incr n threads t) + k * incr := by
  rw [staticInit_eq fits some shared]
  exact sweep_count fits.moves _ _

/-- The schedule without a chunk size hands out every iteration once and in order if and only if nothing is left
over or the increment is one: what is left over is added to the bounds as it is. -/
theorem static_init_partitions (loop : StaticLoop) {incr : Int} {n threads : Nat} (chunk : Int)
    (fits : LoopFits loop.lower loop.upper incr n) (some : 0 < threads) (shared : incr = 1 ∨ threads ≤ n) :
    ((List.range threads).flatMap fun t =>
        let own := kmpcForStaticInit4 t threads .static loop incr chunk
        sweep own.lower own.upper incr) = sweep loop.lower loop.upper incr ↔ incr = 1 ∨ threads ∣ n := by
  rw [← flatMap_share fits some,flatMap_range_inj]
  · constructor
    · intro same
      by_contra neither
      obtain ⟨skewed,left⟩ := not_or.mp neither
      -- the first thread that gets no iteration of those left over starts in the wrong place
      have rest : n % threads < threads := Nat.mod_lt n some
      have uneven : n % threads ≠ 0 := fun none => left (Nat.dvd_of_mod_eq_zero none)
      have row : 0 < n / threads := Nat.div_pos (shared.resolve_left skewed) some
      have block := same (n % threads) rest
      have own := sweep_static fits rest shared
      have head : (sweep (staticInit (n % threads) threads loop incr).lower
          (staticInit (n % threads) threads loop incr).upper incr)[0]? =
          (share loop.lower incr n threads (n % threads))[0]? := congrArg (·[0]?) block
      have some : 0 < shareSize n threads (n % threads) := Nat.lt_add_right _ row
      rw [own,share,List.getElem?_map,List.getElem?_map,List.getElem?_range some] at head
      simp only [Option.map_some,Option.some.injEq,skew,lt_irrefl,if_false,Nat.add_zero,Nat.cast_zero,zero_mul,
        add_zero] at head
      have zero : ((n % threads : Nat) : Int) * (1 - incr) = 0 := by linarith
      rcases Int.mul_eq_zero.mp zero with none | one
      · exact uneven (Int.ofNat_eq_zero.mp none)
      · exact skewed (by omega)
    · intro even t inside
      have straight : skew incr n threads t = 0 := by
        unfold skew
        split
        · rfl
        · rcases even with rfl | whole
          · simp
          · simp [Nat.mod_eq_zero_of_dvd whole]
      change sweep (staticInit t threads loop incr).lower (staticInit t threads loop incr).upper incr = _
      rw [sweep_static fits inside shared,straight,share]
      refine List.map_congr_left fun k _ => ?_
      push_cast
      ring
  · intro t inside
    change (sweep (staticInit t threads loop incr).lower (staticInit t threads loop incr).upper incr).length = _
    rw [sweep_static fits inside shared,share,List.length_map,List.length_map]

/-- Two threads, five iterations with an increment of two: the last one is left over. -/
theorem loopFits_five : LoopFits 0 8 2 5 where
  moves := by decide
  enters := by decide
  count := by decide
  few := by decide
  first := by norm_num [InInt32]
  behind := by norm_num [InInt32]

theorem static_init_partitions_five :
    ((List.range 2).flatMap fun t =>
        let own := kmpcForStaticInit4 t 2 .static ⟨false,0,8,1⟩ 2 1
        sweep own.lower own.upper 2) = sweep 0 8 2 ↔ (2 : Int) = 1 ∨ 2 ∣ 5 :=
  static_init_partitions ⟨false,0,8,1⟩ 1 loopFits_five (by decide) (.inr (by decide))

/-- With an increment of one, the thread that is told of the last iteration is the one that makes it. -/
theorem static_init_last (loop : StaticLoop) {n threads t : Nat} (chunk : Int)
    (fits : LoopFits loop.lower loop.upper 1 n) (some : t < threads) :
    let own := kmpcForStaticInit4 t threads .static loop 1 chunk
    own.lastiter = true ↔ loop.upper ∈ sweep own.lower own.upper 1 := by
  intro own
  have bounds : own = _ := staticInit_eq fits some (.inl rfl)
  have straight : skew 1 n threads t = 0 := by
    unfold skew
    split <;> simp
  have count := fits.count
  rw [Int.fdiv_one] at count
  have member : loop.upper ∈ sweep own.lower own.upper 1 ↔
      ∃ k < shareSize n threads t, loop.lower + shareStart n threads t + k = loop.upper := by
    have swept := sweep_static fits some (.inl rfl)
    change sweep own.lower own.upper 1 = _ at swept
    rw [swept]
    simp [straight]
  have last : own.lastiter = true ↔ loop.lower + shareStart n threads t + shareSize n threads t - 1 = loop.upper ∧
      loop.lower + shareStart n threads t ≤ loop.upper := by
    rw [bounds,straight]
    simp
  -- the shares end where the loop ends
  have within : shareStart n threads t + shareSize n threads t ≤ n := by
    rw [← sum_shareSize,← Finset.sum_range_succ,sum_shareSize]
    exact shareStart_le n some
  rw [member,last]
  constructor
  · rintro ⟨ends,starts⟩
    exact ⟨shareSize n threads t - 1,by omega,by omega⟩
  · rintro ⟨k,inside,here⟩
    constructor <;> omega

theorem static_init_last_five :
    let own := kmpcForStaticInit4 1 2 .static ⟨false,0,4,1⟩ 1 1
    own.lastiter = true ↔ (4 : Int) ∈ sweep own.lower own.upper 1 :=
  static_init_last ⟨false,0,4,1⟩ 1 (n := 5) (by constructor <;> norm_num [Enters,InInt32]) (by decide)

/-! ### Chunks of a given size -/

theorem inInt32_between (first : InInt32 lower) (behind : InInt32 (lower + n * incr)) {x : Nat} (inside : x ≤ n) :
    InInt32 (lower + x * incr) := by
  obtain ⟨low,high⟩ := first
  obtain ⟨low',high'⟩ := behind
  have casted : (x : Int) ≤ n := Int.ofNat_le.mpr inside
  rcases le_total 0 incr with up | down
  · have more := Int.mul_nonneg (Int.natCast_nonneg x) up
    have less := Int.mul_le_mul_of_nonneg_right casted up
    constructor <;> omega
  · have more := Int.mul_nonpos_of_nonneg_of_nonpos (Int.natCast_nonneg x) down
    have less := Int.mul_le_mul_of_nonpos_right casted down
    constructor <;> omega

/-- The bound up to which the loop of a chunk goes, which is not beyond the last iteration. -/
def clampUpper (incr upper globalUpper : Int) : Int := if 0 < incr then min upper globalUpper else max upper globalUpper

/-- The upper bound is at the last iteration, or not yet at one more. -/
theorem LoopFits.last (fits : LoopFits lower upper incr n) :
    (0 < incr ∧ lower + (n - 1) * incr ≤ upper ∧ upper < lower + n * incr) ∨
      (incr < 0 ∧ upper ≤ lower + (n - 1) * incr ∧ lower + n * incr < upper) := by
  have count := fits.count
  rcases fits.enters with ⟨up,_⟩ | ⟨down,_⟩
  · left
    rw [Int.fdiv_eq_ediv_of_nonneg _ up.le] at count
    have low := Int.ediv_mul_le (upper - lower) up.ne'
    have high := Int.lt_ediv_add_one_mul_self (upper - lower) up
    have value : (upper - lower) / incr = n - 1 := by omega
    rw [value] at low high
    rw [Int.sub_add_cancel] at high
    exact ⟨up,by omega,by omega⟩
  · right
    rw [← Int.neg_fdiv_neg,Int.fdiv_eq_ediv_of_nonneg _ (by omega)] at count
    have low := Int.ediv_mul_le (-(upper - lower)) (show -incr ≠ 0 by omega)
    have high := Int.lt_ediv_add_one_mul_self (-(upper - lower)) (show 0 < -incr by omega)
    have value : -(upper - lower) / -incr = n - 1 := by omega
    rw [value] at low high
    rw [Int.sub_add_cancel] at high
    rw [mul_neg] at low high
    exact ⟨down,by omega,by omega⟩

/-- Chunk `j` of a loop. -/
theorem sweep_chunk (fits : LoopFits lower upper incr n) (m j : Nat) :
    sweep (lower + (j * m : Nat) * incr)
        (clampUpper incr (lower + (j * m : Nat) * incr + m * incr - incr) upper) incr =
      (List.range (min m (n - j * m))).map fun k : Nat => lower + (j * m + k : Nat) * incr := by
  generalize j * m = x
  have next : lower + x * incr + m * incr - incr = lower + ((x + m : Nat) - 1 : Int) * incr := by
    push_cast
    ring
  have shape : ∀ l, (List.range l).map (fun k : Nat => lower + x * incr + k * incr) =
      (List.range l).map fun k : Nat => lower + (x + k : Nat) * incr := fun l =>
    List.map_congr_left fun k _ => by push_cast; ring
  rcases Nat.lt_or_ge n (x + m) with cut | whole
  · -- the last chunk ends with the loop
    have clamp : clampUpper incr (lower + x * incr + m * incr - incr) upper = upper := by
      have casted : (n : Int) ≤ (x + m : Nat) - 1 := by omega
      rw [next]
      unfold clampUpper
      rcases fits.last with ⟨up,_,high⟩ | ⟨down,_,high⟩
      · rw [if_pos up]
        have more := Int.mul_le_mul_of_nonneg_right casted up.le
        exact min_eq_right (by omega)
      · rw [if_neg (by omega)]
        have more := Int.mul_le_mul_of_nonpos_right casted down.le
        exact max_eq_right (by omega)
    have count : ((upper - (lower + x * incr)).fdiv incr + 1).toNat = min m (n - x) := by
      have count := fits.count
      rw [← Int.sub_sub,Int.sub_mul_fdiv_right _ _ fits.moves]
      omega
    rw [clamp,sweep,count,shape]
  · have clamp : clampUpper incr (lower + x * incr + m * incr - incr) upper = lower + x * incr + m * incr - incr := by
      have casted : ((x + m : Nat) - 1 : Int) ≤ n - 1 := by omega
      rw [next]
      unfold clampUpper
      rcases fits.last with ⟨up,low,_⟩ | ⟨down,low,_⟩
      · rw [if_pos up]
        have more := Int.mul_le_mul_of_nonneg_right casted up.le
        exact min_eq_left (by omega)
      · rw [if_neg (by omega)]
        have more := Int.mul_le_mul_of_nonpos_right casted down.le
        exact max_eq_left (by omega)
    have count : min m (n - x) = m := min_eq_left (by omega)
    rw [clamp,sweep_count fits.moves,count,shape]

theorem sum_chunks (n m j : Nat) : ∑ i ∈ Finset.range j, min m (n - i * m) = min (j * m) n := by
  induction j with
  | zero => simp
  | succ j ih =>
    rw [Finset.sum_range_succ,ih,Nat.succ_mul]
    omega

/-- The bounds of round `q` of a thread are those of chunk `q * threads + t`. -/
theorem chunk_bounds {m q : Nat} (some : t < threads) (first : InInt32 loop.lower)
    (round : InInt32 (loop.lower + (threads * m : Nat) * incr)) :
    let own := staticChunkedInit t threads loop incr m
    own.lower + q * own.stride = loop.lower + ((q * threads + t) * m : Nat) * incr ∧
      own.upper + q * own.stride = loop.lower + ((q * threads + t) * m : Nat) * incr + m * incr - incr := by
  have inside := inInt32_between first round (Nat.mul_le_mul_right m some.le)
  have start : kmpInt32 (loop.lower + incr * m * t) = loop.lower + incr * m * t := by
    apply kmpInt32_of_fits
    have same : ((t * m : Nat) : Int) * incr = incr * m * t := by push_cast; ring
    rw [← same]
    exact inside
  simp only [staticChunkedInit,start]
  push_cast
  constructor <;> ring

/-- What a thread does in round `q`: the compiled loop moves both bounds on by the stride. -/
def StaticLoop.round (own : StaticLoop) (incr globalUpper : Int) (q : Nat) : List Int :=
  sweep (own.lower + q * own.stride) (clampUpper incr (own.upper + q * own.stride) globalUpper) incr

/-- The schedule with a chunk size, where the threads take their chunks in rounds: after enough rounds every
iteration has been made once, and none twice or beyond the end. -/
theorem chunked_init_partitions (loop : StaticLoop) {incr : Int} {n threads m rounds : Nat}
    (fits : LoopFits loop.lower loop.upper incr n)
    (round : InInt32 (loop.lower + (threads * m : Nat) * incr)) (enough : n ≤ rounds * threads * m) :
    ((List.range rounds).flatMap fun q => (List.range threads).flatMap fun t =>
        (kmpcForStaticInit4 t threads .staticChunked loop incr m).round incr loop.upper q) =
      sweep loop.lower loop.upper incr := by
  have blocks := flatMap_blocks (fun j => min m (n - j * m)) (rounds * threads)
  simp only [sum_chunks,min_eq_right enough] at blocks
  have chunks : ∀ q ∈ List.range rounds, ∀ t ∈ List.range threads,
      (staticChunkedInit t threads loop incr m).round incr loop.upper q =
      (List.range (min m (n - (q * threads + t) * m))).map fun k : Nat =>
        loop.lower + (min ((q * threads + t) * m) n + k : Nat) * incr := by
    intro q _ t inside
    obtain ⟨low,high⟩ := chunk_bounds (q := q) (List.mem_range.mp inside) fits.first round
    rw [StaticLoop.round,low,high,sweep_chunk fits]
    refine List.map_congr_left fun k member => ?_
    have here : (q * threads + t) * m ≤ n := by
      have some := List.mem_range.mp member
      omega
    rw [min_eq_left here]
  refine (List.flatMap_congr fun q inside => List.flatMap_congr (chunks q inside)).trans
    ((flatMap_rounds (fun j => (List.range (min m (n - j * m))).map fun k : Nat =>
      loop.lower + (min (j * m) n + k : Nat) * incr) rounds threads).trans ?_)
  rw [fits.sweep_eq,← blocks,List.map_flatMap]
  simp only [List.map_map]
  rfl

theorem loopFits_ten : LoopFits 0 9 1 10 where
  moves := by decide
  enters := by decide
  count := by decide
  few := by decide
  first := by norm_num [InInt32]
  behind := by norm_num [InInt32]

/-- Ten iterations in chunks of three, for two threads. -/
theorem chunked_init_partitions_ten :
    ((List.range 2).flatMap fun q => (List.range 2).flatMap fun t =>
        (kmpcForStaticInit4 t 2 .staticChunked ⟨false,0,9,1⟩ 1 (3 : Nat)).round 1 9 q) = sweep 0 9 1 :=
  chunked_init_partitions ⟨false,0,9,1⟩ loopFits_ten (by norm_num [InInt32]) (by decide)

/-- The chunk that the upper bound is in. -/
theorem last_chunk (fits : LoopFits lower upper incr n) (up : 0 < incr) {m : Nat} {a : Int}
    (chunked : 0 < m) (aligned : lower = incr * m * a) : upper / (incr * m) = a + ((n - 1) / m : Nat) := by
  have span : incr * m ≠ 0 := (Int.mul_pos up (Int.natCast_pos.mpr chunked)).ne'
  have count := fits.count
  have few := fits.positive
  rw [Int.fdiv_eq_ediv_of_nonneg _ up.le] at count
  have whole : upper = (upper - lower) + incr * m * a := by omega
  have trips : (upper - lower) / incr = (n - 1 : Nat) := by omega
  rw [whole,Int.add_mul_ediv_left _ _ span,← Int.ediv_ediv_of_nonneg up.le,trips,← Int.natCast_div,add_comm]

/-- With a chunk size, the thread that has the last chunk is told of it if the loop begins at a multiple of the
chunk's span, as one that counts from zero does; if it does not, no thread is told. -/
theorem chunked_init_last (loop : StaticLoop) {incr : Int} {n threads m t : Nat}
    (fits : LoopFits loop.lower loop.upper incr n) (up : 0 < incr) (positive : 0 ≤ loop.upper) (chunked : 0 < m)
    (some : t < threads) (round : InInt32 (loop.lower + (threads * m : Nat) * incr)) :
    (kmpcForStaticInit4 t threads .staticChunked loop incr m).lastiter = true ↔
      incr * m ∣ loop.lower ∧ t = (n - 1) / m % threads := by
  have span : 0 < incr * m := Int.mul_pos up (Int.natCast_pos.mpr chunked)
  have start : (staticChunkedInit t threads loop incr m).lower = loop.lower + incr * m * t := by
    have bounds := (chunk_bounds (q := 0) some fits.first round).1
    simp only [Nat.cast_zero,zero_mul,add_zero,Nat.zero_add] at bounds
    rw [bounds]
    push_cast
    ring
  have begins : loop.upper - loop.upper.tmod (incr * m) = incr * m * (loop.upper / (incr * m)) := by
    rw [Int.tmod_eq_emod_of_nonneg positive]
    have whole := Int.mul_ediv_add_emod loop.upper (incr * m)
    omega
  have told : (kmpcForStaticInit4 t threads .staticChunked loop incr m).lastiter = true ↔
      incr * m * threads ∣ incr * m * (loop.upper / (incr * m)) - (loop.lower + incr * m * t) := by
    change ((_ - (staticChunkedInit t threads loop incr m).lower).tmod _ == 0) = true ↔ _
    rw [start,begins,beq_iff_eq]
    exact Int.dvd_iff_tmod_eq_zero.symm
  have divides_iff : ∀ a, loop.lower = incr * m * a →
      (incr * m * threads ∣ incr * m * (loop.upper / (incr * m)) - (loop.lower + incr * m * t) ↔
        t = (n - 1) / m % threads) := by
    intro a aligned
    have value : incr * m * (loop.upper / (incr * m)) - (loop.lower + incr * m * t) =
        incr * m * (((n - 1) / m : Nat) - t) := by
      rw [last_chunk fits up chunked aligned,aligned]
      ring
    rw [value,Int.mul_dvd_mul_iff_left span.ne',← Nat.modEq_iff_dvd,Nat.ModEq,Nat.mod_eq_of_lt some]
  rw [told]
  constructor
  · intro divides
    have aligned : incr * m ∣ loop.lower := by
      have whole := (Int.dvd_mul_right (incr * m) threads).trans divides
      have part := Int.dvd_mul_right (incr * m) (loop.upper / (incr * m) - t)
      have both := Int.dvd_sub part whole
      have value : incr * m * (loop.upper / (incr * m) - t) -
          (incr * m * (loop.upper / (incr * m)) - (loop.lower + incr * m * t)) = loop.lower := by ring
      rwa [value] at both
    obtain ⟨a,multiple⟩ := aligned
    exact ⟨⟨a,multiple⟩,(divides_iff a multiple).mp divides⟩
  · rintro ⟨⟨a,multiple⟩,here⟩
    exact (divides_iff a multiple).mpr here

theorem chunked_init_last_ten :
    (kmpcForStaticInit4 1 2 .staticChunked ⟨false,0,9,1⟩ 1 (3 : Nat)).lastiter = true ↔
      (1 : Int) * (3 : Nat) ∣ 0 ∧ 1 = (10 - 1) / 3 % 2 :=
  chunked_init_last ⟨false,0,9,1⟩ loopFits_ten (by decide) (by decide) (by decide) (by decide)
    (by norm_num [InInt32])

end Snax
