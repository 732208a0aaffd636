import Mathlib.Tactic.Ring
import Mathlib.Algebra.BigOperators.Group.List.Basic
import Mathlib.Algebra.Order.Ring.Int

/-! `skip128` of `double-gemm-conflict-free/data/datagen.py`: the loop nest of a streamer,
rewritten so that its blocks of 128 bytes lie in one half of blocks of 256 bytes. -/
namespace Snax
namespace SkipBlock

/-- `SKIP_BLOCK`. -/
def skipBlock : Int := 128

inductive SkipError where
  /-- `strides[0]` or `bounds[0]` of an empty list. -/
  | indexError
  | zeroDivision
  /-- "beat stride .. must divide 128" -/
  | beatStride (s0 : Int)
  /-- "dim0 bound .. not divisible by .." -/
  | dim0Bound (bound inner : Int)
  /-- "outer stride .. must be a multiple of 128" -/
  | outerStride (s : Int)
  /-- "skip-128 needs .. loop dims (max 4)" -/
  | loopDims (count : Nat)
  deriving DecidableEq

/-- The loop over the outer dimensions, as long as the shorter of the lists. -/
def outer : List Int → List Int → Except SkipError (List Int × List Int)
  | b :: bounds, s :: strides =>
    if Int.fmod s skipBlock = 0 ∨ s = 0 then
      match outer bounds strides with
      | .ok (bs,ss) => .ok (b :: bs,2 * s :: ss)
      | .error e => .error e
    else .error (.outerStride s)
  | _, _ => .ok ([],[])

def skip128 (bounds strides : List Int) : Except SkipError (List Int × List Int) :=
  match strides,bounds with
  | [], _ => .error .indexError
  | s0 :: strides, bounds =>
    if s0 = 0 then .error .zeroDivision
    else if Int.fmod skipBlock s0 ≠ 0 then .error (.beatStride s0)
    else
      let inner := Int.fdiv skipBlock s0
      match bounds with
      | [] => .error .indexError
      | b0 :: bounds =>
        if Int.fmod b0 inner ≠ 0 then .error (.dim0Bound b0 inner)
        else match outer bounds strides with
          | .error e => .error e
          | .ok (bs,ss) =>
            if bs.length + 2 ≤ 4 then .ok (inner :: Int.fdiv b0 inner :: bs,s0 :: 2 * skipBlock :: ss)
            else .error (.loopDims (bs.length + 2))

/-! ### What a streamer walks -/

/-- The accesses of a loop nest; a bound below one has none. -/
def count (bounds : List Int) : Nat := (bounds.map Int.toNat).prod

/-- The offset of access `k`, dimension 0 fastest. -/
def offset : List Int → List Int → Nat → Int
  | b :: bounds, s :: strides, k => (k % b.toNat : Nat) * s + offset bounds strides (k / b.toNat)
  | _, _, _ => 0

/-- `L & 127`. -/
def low (l : Int) : Int := l % 128

/-- `L & ~127`. -/
def high (l : Int) : Int := l - l % 128

/-- The half of its block of 256 bytes that a byte lies in. -/
def half (addr : Int) : Int := addr / 128 % 2

/-- `addr[7:3]`. -/
def bank (addr : Int) : Int := addr / 8 % 32

/-- The outer dimensions go twice as far, and stay multiples of the block. -/
theorem outer_offset {bounds strides bs ss : List Int} (accepted : outer bounds strides = .ok (bs,ss))
    (enough : bounds.length ≤ strides.length) (k : Nat) :
    bs = bounds ∧ offset bs ss k = 2 * offset bounds strides k ∧ 128 ∣ offset bounds strides k := by
  induction bounds generalizing strides bs ss k with
  | nil =>
    obtain ⟨rfl,rfl⟩ : [] = bs ∧ [] = ss := by simpa [outer] using accepted
    exact ⟨rfl,rfl,Int.dvd_zero _⟩
  | cons b bounds ih =>
    cases strides with
    | nil => simp at enough
    | cons s strides =>
      rw [outer] at accepted
      split at accepted
      · next whole =>
        cases rest : outer bounds strides with
        | error e => simp [rest] at accepted
        | ok pair =>
          obtain ⟨bs',ss'⟩ := pair
          simp only [rest,Except.ok.injEq,Prod.mk.injEq] at accepted
          obtain ⟨rfl,rfl⟩ := accepted
          obtain ⟨same,doubled,divides⟩ := ih rest (by simpa using enough) (k / b.toNat)
          have stride : (128 : Int) ∣ s := by
            rcases whole with multiple | rfl
            · exact Int.dvd_of_fmod_eq_zero multiple
            · exact Int.dvd_zero _
          refine ⟨by rw [same],?_,?_⟩
          · simp only [offset,doubled]
            ring
          · exact Int.dvd_add (Int.dvd_mul_of_dvd_right stride) divides
      · contradiction

/-- What an accepted nest is made of. -/
structure Accepted (bounds strides newBounds newStrides : List Int) (s0 inner blocks : Int)
    (outerBounds outerStrides doubled : List Int) : Prop where
  bounds : bounds = inner * blocks :: outerBounds
  strides : strides = s0 :: outerStrides
  block : inner * s0 = 128
  newBounds : newBounds = inner :: blocks :: outerBounds
  newStrides : newStrides = s0 :: 256 :: doubled
  doubled : outer outerBounds outerStrides = .ok (outerBounds,doubled)

theorem skip128_cases {bounds strides newBounds newStrides : List Int}
    (accepted : skip128 bounds strides = .ok (newBounds,newStrides))
    (enough : bounds.length ≤ strides.length) :
    ∃ s0 inner blocks outerBounds outerStrides doubled,
      Accepted bounds strides newBounds newStrides s0 inner blocks outerBounds outerStrides doubled := by
  cases strides with
  | nil => simp [skip128] at accepted
  | cons s0 strides =>
    cases bounds with
    | nil =>
      simp only [skip128] at accepted
      split_ifs at accepted
    | cons b0 bounds =>
      simp only [skip128] at accepted
      split_ifs at accepted with zero beat bound
      · cases rest : outer bounds strides with
        | error e => simp [rest] at accepted
        | ok pair =>
          obtain ⟨bs,ss⟩ := pair
          have same := (outer_offset rest (by simpa using enough) 0).1
          subst same
          simp only [rest] at accepted
          split_ifs at accepted
          · obtain ⟨rfl,rfl⟩ : _ = newBounds ∧ _ = newStrides := by simpa using accepted
            refine ⟨s0,Int.fdiv skipBlock s0,Int.fdiv b0 (Int.fdiv skipBlock s0),bs,strides,ss,
              ⟨?_,rfl,?_,rfl,rfl,rest⟩⟩
            · rw [Int.mul_fdiv_cancel' (Int.dvd_of_fmod_eq_zero (by simpa using bound))]
            · exact Int.fdiv_mul_cancel (Int.dvd_of_fmod_eq_zero (by simpa using beat))

section Accepted

variable {bounds strides newBounds newStrides : List Int} {s0 inner blocks : Int}
  {outerBounds outerStrides doubled : List Int}

theorem Accepted.inner_pos
    (a : Accepted bounds strides newBounds newStrides s0 inner blocks outerBounds outerStrides doubled)
    (positive : 0 < s0) : 0 < inner := by
  by_contra none
  have := Int.mul_nonpos_of_nonpos_of_nonneg (not_lt.mp none) positive.le
  rw [a.block] at this
  omega

theorem toNat_mul_of_pos (positive : 0 < inner) (blocks : Int) :
    (inner * blocks).toNat = inner.toNat * blocks.toNat := by
  rcases Int.le_total 0 blocks with some | none
  · exact Int.toNat_mul positive.le some
  · rw [Int.toNat_of_nonpos (Int.mul_nonpos_of_nonneg_of_nonpos positive.le none),
      Int.toNat_of_nonpos none,Nat.mul_zero]

theorem Accepted.count_eq
    (a : Accepted bounds strides newBounds newStrides s0 inner blocks outerBounds outerStrides doubled)
    (positive : 0 < s0) : count newBounds = count bounds := by
  rw [a.newBounds,a.bounds]
  simp [count,toNat_mul_of_pos (a.inner_pos positive),Nat.mul_assoc]

/-- Dimension 0 split in two: a beat in its block, the block, and the outer dimensions. -/
theorem Accepted.offsets
    (a : Accepted bounds strides newBounds newStrides s0 inner blocks outerBounds outerStrides doubled)
    (positive : 0 < s0) (enough : bounds.length ≤ strides.length) (k : Nat) :
    ∃ beat rest : Int, 0 ≤ beat ∧ beat + s0 ≤ 128 ∧ 128 ∣ rest ∧
      offset bounds strides k = beat + rest ∧ offset newBounds newStrides k = beat + 2 * rest := by
  have inner_pos := a.inner_pos positive
  have size : (inner.toNat : Int) = inner := Int.toNat_of_nonneg inner_pos.le
  have shorter : outerBounds.length ≤ outerStrides.length := by
    rw [a.bounds,a.strides] at enough
    simpa using enough
  obtain ⟨_,doubled',divides⟩ := outer_offset a.doubled shorter (k / (inner.toNat * blocks.toNat))
  have inside : k % inner.toNat < inner.toNat := Nat.mod_lt _ (by omega)
  have splits : ((k % (inner.toNat * blocks.toNat) : Nat) : Int) =
      (k % inner.toNat : Nat) + inner * (k / inner.toNat % blocks.toNat : Nat) := by
    rw [Nat.mod_mul]
    push_cast
    rw [size]
  refine ⟨(k % inner.toNat : Nat) * s0,
    128 * (k / inner.toNat % blocks.toNat : Nat) +
      offset outerBounds outerStrides (k / (inner.toNat * blocks.toNat)),?_,?_,?_,?_,?_⟩
  · exact Int.mul_nonneg (Int.natCast_nonneg _) positive.le
  · have last : ((k % inner.toNat : Nat) : Int) + 1 ≤ inner := by omega
    have := Int.mul_le_mul_of_nonneg_right last positive.le
    rw [a.block,Int.add_mul,Int.one_mul] at this
    exact this
  · exact Int.dvd_add (Int.dvd_mul_right _ _) divides
  · rw [a.bounds,a.strides]
    simp only [offset,toNat_mul_of_pos inner_pos,splits]
    rw [← a.block]
    ring
  · rw [a.newBounds,a.newStrides]
    simp only [offset,Nat.div_div_eq_div_mul,doubled']
    ring

end Accepted

/-- The bytes of a beat in the half that starts at the base. -/
theorem half_eq {base beat rest j s0 : Int} (aligned : base % 128 = 0) (inside : 0 ≤ beat)
    (fits : beat + s0 ≤ 128) (multiple : 128 ∣ rest) (byte : 0 ≤ j ∧ j < s0) :
    half (base + (beat + 2 * rest) + j) = half base := by
  obtain ⟨blocks,rfl⟩ := multiple
  unfold half
  omega

theorem bank_half (addr : Int) : bank addr / 16 = half addr := by
  unfold bank half
  omega

/-- What the rewritten streamer keeps of the given one. -/
structure Kept (bounds strides newBounds newStrides : List Int) (s0 : Int) : Prop where
  total : count newBounds = count bounds
  order : ∀ k, offset newBounds newStrides k =
    2 * high (offset bounds strides k) + low (offset bounds strides k)
  /-- Every byte of every beat lies in the half of the base. -/
  halves : ∀ base, base % 128 = 0 → ∀ k j, 0 ≤ j ∧ j < s0 →
    half (base + offset newBounds newStrides k + j) = half base

theorem kept_of_accepted {bounds strides newBounds newStrides : List Int} {s0 : Int}
    (accepted : skip128 bounds strides = .ok (newBounds,newStrides))
    (enough : bounds.length ≤ strides.length) (beat : strides.head? = some s0) (positive : 0 < s0) :
    Kept bounds strides newBounds newStrides s0 := by
  obtain ⟨s,inner,blocks,outerBounds,outerStrides,doubled,a⟩ := skip128_cases accepted enough
  obtain rfl : s = s0 := by
    rw [a.strides] at beat
    exact Option.some.inj beat
  refine ⟨a.count_eq positive,fun k => ?_,fun base aligned k j byte => ?_⟩
  · obtain ⟨beat,rest,inside,fits,⟨blocks,rfl⟩,old,new⟩ := a.offsets positive enough k
    rw [old,new,high,low]
    omega
  · obtain ⟨beat,rest,inside,fits,multiple,_,new⟩ := a.offsets positive enough k
    rw [new]
    exact half_eq aligned inside fits multiple byte

/-- Two rewritten streamers with positive beat strides, one based in the lower halves and
one in the upper halves: each keeps its accesses, and no byte of one is in a bank of the
other. -/
theorem skip128_keeps {bounds strides newBounds newStrides : List Int} {s0 : Int}
    (accepted : skip128 bounds strides = .ok (newBounds,newStrides))
    (enough : bounds.length ≤ strides.length) (beat : strides.head? = some s0) (positive : 0 < s0) :
    Kept bounds strides newBounds newStrides s0 ∧
      ∀ {bounds' strides' newBounds' newStrides' : List Int} {s0' : Int},
        skip128 bounds' strides' = .ok (newBounds',newStrides') →
        bounds'.length ≤ strides'.length → strides'.head? = some s0' → 0 < s0' →
        ∀ base base', base % 256 = 0 → base' % 256 = 128 → ∀ k k' j j', 0 ≤ j ∧ j < s0 →
          0 ≤ j' ∧ j' < s0' → bank (base + offset newBounds newStrides k + j) ≠
            bank (base' + offset newBounds' newStrides' k' + j') := by
  have kept := kept_of_accepted accepted enough beat positive
  refine ⟨kept,fun accepted' enough' beat' positive' base base' low high k k' j j' byte byte' same => ?_⟩
  have kept' := kept_of_accepted accepted' enough' beat' positive'
  have left := kept.halves base (by omega) k j byte
  have right := kept'.halves base' (by omega) k' j' byte'
  rw [← bank_half,same,bank_half,right] at left
  unfold half at left
  omega

/-- The nest of a `W0` port: one dimension of eight-byte beats. -/
theorem skip128_keeps_sweep : Kept [64] [8] [16,4] [8,256] 8 :=
  (skip128_keeps (show skip128 [64] [8] = .ok ([16,4],[8,256]) by decide) (by decide) rfl (by decide)).1

/-- A negative beat stride passes the assertions and leaves no loop; a bound without a
stride is dropped. -/
theorem skip128_drops :
    (¬ ∀ (bounds strides newBounds newStrides : List Int) (s0 : Int),
      skip128 bounds strides = .ok (newBounds,newStrides) → bounds.length ≤ strides.length →
        strides.head? = some s0 → Kept bounds strides newBounds newStrides s0) ∧
    ¬ ∀ (bounds strides newBounds newStrides : List Int) (s0 : Int),
      skip128 bounds strides = .ok (newBounds,newStrides) →
        strides.head? = some s0 → 0 < s0 → Kept bounds strides newBounds newStrides s0 := by
  constructor
  · intro all
    have total := (all [32] [-8] [-16,-2] [-8,256] (-8) (by decide) (by decide) rfl).total
    exact absurd total (by decide)
  · intro all
    have total := (all [32,3] [8] [16,2] [8,256] 8 (by decide) rfl (by decide)).total
    exact absurd total (by decide)

end SkipBlock
end Snax
