import Snax.AdderTree
import Snax.Sync.Elements
import Snax.Sync.Machine

/-! `versacore/Array.scala` with integer types, and `Multiplier.scala` and `Accumulator.scala`: the words of
the operands are spread over the multipliers, the adder tree sums up the products of each output element, and
the accumulators of the chosen data type take the sums over a handshake. -/
namespace Snax

open Sync

/-- `Seq(Mu, Ku, Nu)`. -/
structure ArrayDim where
  mu : Nat
  ku : Nat
  nu : Nat

/-- What `SpatialArrayParam` has for one data type. -/
structure DataTypeParam where
  macNum : Nat
  inputTypeA : IntType
  inputTypeB : IntType
  inputTypeC : IntType
  outputTypeD : IntType
  arrayDim : List ArrayDim
  macNumPow2 : macNum.isPowerOfTwo
  macs : ∀ dim ∈ arrayDim, dim.mu * dim.ku * dim.nu ≤ macNum
  reductionPow2 : ∀ dim ∈ arrayDim, dim.ku.isPowerOfTwo
  dimsNumber : arrayDim.length < 32 ∧ 1 ≤ arrayDim.length

structure SpatialArrayParam where
  arrayInputAWidth : Nat
  arrayInputBWidth : Nat
  arrayInputCWidth : Nat
  arrayOutputDWidth : Nat
  dataTypes : List DataTypeParam
  wideA : ∀ t ∈ dataTypes, ∀ dim ∈ t.arrayDim, dim.mu * dim.ku * t.inputTypeA.width ≤ arrayInputAWidth
  wideB : ∀ t ∈ dataTypes, ∀ dim ∈ t.arrayDim, dim.ku * dim.nu * t.inputTypeB.width ≤ arrayInputBWidth
  wideC : ∀ t ∈ dataTypes, ∀ dim ∈ t.arrayDim, dim.mu * dim.nu * t.inputTypeC.width ≤ arrayInputCWidth
  wideD : ∀ t ∈ dataTypes, ∀ dim ∈ t.arrayDim, dim.mu * dim.nu * t.outputTypeD.width ≤ arrayOutputDWidth
  shapes : (dataTypes.map fun t => t.arrayDim.length).sum < 32
  types : 0 < dataTypes.length

namespace SpatialArray

/-- The mapping over the reversed dimensions in `computeMultiIndex`. -/
def remainders : Nat → List Nat → List Nat
  | _, [] => []
  | remainder, dim :: dims => remainder % dim :: remainders (remainder / dim) dims

def computeMultiIndex (flatIdx : Nat) (dims : List Nat) : List Nat :=
  (remainders flatIdx dims.reverse).reverse

def dataForwardN (macNum elemBits : Nat) (dims strides : List Nat) (input : BitVec w) :
    Lanes macNum elemBits := fun i =>
  if i.val < dims.foldl (· * ·) 1 then
    element elemBits input (List.zipWith (· * ·) (computeMultiIndex i.val dims) strides).sum
  else 0

section Feeding

variable (t : DataTypeParam)

/-- `MuxLookup` over the shapes; the first shape is the default. -/
def shape (arrayShapeCfg : BitVec 32) : ArrayDim :=
  t.arrayDim.getD arrayShapeCfg.toNat (t.arrayDim.headD ⟨0,0,0⟩)

def inputA (dim : ArrayDim) (word : BitVec w) : Lanes t.macNum t.inputTypeA.width :=
  dataForwardN _ _ [dim.mu,dim.nu,dim.ku] [dim.ku,0,1] word

def inputB (dim : ArrayDim) (word : BitVec w) : Lanes t.macNum t.inputTypeB.width :=
  dataForwardN _ _ [dim.mu,dim.nu,dim.ku] [0,dim.ku,1] word

def inputC (dim : ArrayDim) (word : BitVec w) : Lanes t.macNum t.inputTypeC.width :=
  dataForwardN _ _ [dim.mu,dim.nu,1] [dim.nu,1,0] word

/-- `Multiplier` of three integer types. `asTypeOf` takes an operand as a signed number of its own width. -/
def multiplier (a : BitVec t.inputTypeA.width) (b : BitVec t.inputTypeB.width) :
    BitVec t.inputTypeC.width :=
  a.signExtend _ * b.signExtend _

theorem groupsPow2 : ∀ size ∈ t.arrayDim.map ArrayDim.ku, size.isPowerOfTwo := by
  intro size member
  obtain ⟨dim,inside,rfl⟩ := List.mem_map.mp member
  exact t.reductionPow2 dim inside

theorem groupsNumber :
    (t.arrayDim.map ArrayDim.ku).length < 32 ∧ 1 ≤ (t.arrayDim.map ArrayDim.ku).length := by
  rw [List.length_map]
  exact t.dimsNumber

def adderTree : AdderTreeParam where
  inputType := t.inputTypeC
  outputType := t.outputTypeD
  numElements := t.macNum
  groupSizes := t.arrayDim.map ArrayDim.ku
  elementsPow2 := t.macNumPow2
  groupsPow2 := groupsPow2 t
  groupsNumber := groupsNumber t

def products (dim : ArrayDim) (a : BitVec v) (b : BitVec w) : AdderTree.In (adderTree t) := fun i =>
  multiplier t (inputA t dim a i) (inputB t dim b i)

/-- What the accumulators get: the configuration port of the tree is narrower than the configuration. -/
def sums (arrayShapeCfg : BitVec 32) (a : BitVec v) (b : BitVec w) : Lanes t.macNum t.outputTypeD.width :=
  AdderTree.out (adderTree t) (arrayShapeCfg.setWidth _) (products t (shape t arrayShapeCfg) a b)

def addends (arrayShapeCfg : BitVec 32) (c : BitVec w) : Lanes t.macNum t.outputTypeD.width := fun i =>
  (inputC t (shape t arrayShapeCfg) c i).setWidth _

end Feeding

/-! ### The products -/

theorem multiIndex_three {m n k mu nu ku : Nat} (row : m < mu) (col : n < nu) (step : k < ku) :
    computeMultiIndex ((m * nu + n) * ku + k) [mu,nu,ku] = [m,n,k] := by
  have low : ((m * nu + n) * ku + k) % ku = k := Nat.mul_add_mod_of_lt step
  have high : ((m * nu + n) * ku + k) / ku = m * nu + n := by
    rw [Nat.mul_comm,Nat.mul_add_div (Nat.zero_lt_of_lt step),Nat.div_eq_of_lt step,Nat.add_zero]
  have low' : (m * nu + n) % nu = n := Nat.mul_add_mod_of_lt col
  have high' : (m * nu + n) / nu = m := by
    rw [Nat.mul_comm,Nat.mul_add_div (Nat.zero_lt_of_lt col),Nat.div_eq_of_lt col,Nat.add_zero]
  simp [computeMultiIndex,remainders,low,high,low',high',Nat.mod_eq_of_lt row]

theorem flat_lt {m n k mu nu ku : Nat} (row : m < mu) (col : n < nu) (step : k < ku) :
    (m * nu + n) * ku + k < mu * nu * ku :=
  calc (m * nu + n) * ku + k < (m * nu + n + 1) * ku := by
        rw [Nat.succ_mul]
        omega
    _ ≤ (m + 1) * nu * ku := by
        apply Nat.mul_le_mul_right
        rw [Nat.succ_mul]
        omega
    _ ≤ mu * nu * ku := Nat.mul_le_mul_right _ (Nat.mul_le_mul_right _ row)

section Products

variable {t : DataTypeParam} {dim : ArrayDim} {m n k : Nat}

theorem inputA_eq (row : m < dim.mu) (col : n < dim.nu) (step : k < dim.ku) (word : BitVec w)
    (inside : (m * dim.nu + n) * dim.ku + k < t.macNum) :
    inputA t dim word ⟨_,inside⟩ = element _ word (m * dim.ku + k) := by
  have flat := flat_lt row col step
  rw [inputA,dataForwardN,if_pos (by simpa using flat),multiIndex_three row col step]
  simp

theorem inputB_eq (row : m < dim.mu) (col : n < dim.nu) (step : k < dim.ku) (word : BitVec w)
    (inside : (m * dim.nu + n) * dim.ku + k < t.macNum) :
    inputB t dim word ⟨_,inside⟩ = element _ word (n * dim.ku + k) := by
  have flat := flat_lt row col step
  rw [inputB,dataForwardN,if_pos (by simpa using flat),multiIndex_three row col step]
  simp

theorem inputC_eq (row : m < dim.mu) (col : n < dim.nu) (word : BitVec w)
    (inside : m * dim.nu + n < t.macNum) :
    inputC t dim word ⟨_,inside⟩ = element _ word (m * dim.nu + n) := by
  have flat := flat_lt row col Nat.zero_lt_one
  have place := multiIndex_three row col Nat.zero_lt_one
  simp only [Nat.mul_one,Nat.add_zero] at flat place
  rw [inputC,dataForwardN,if_pos (by simpa using flat),place]
  simp

/-- The output elements of a shape are the first ones of the accumulators. -/
theorem place_lt (listed : dim ∈ t.arrayDim) (row : m < dim.mu) (col : n < dim.nu) :
    m * dim.nu + n < t.macNum / dim.ku := by
  obtain ⟨d,power⟩ := t.reductionPow2 dim listed
  have positive : 0 < dim.ku := power ▸ Nat.two_pow_pos d
  have flat := flat_lt row col Nat.zero_lt_one
  simp only [Nat.mul_one,Nat.add_zero] at flat
  apply (Nat.le_div_iff_mul_le positive).mpr
  calc (m * dim.nu + n + 1) * dim.ku ≤ dim.mu * dim.nu * dim.ku := Nat.mul_le_mul_right _ flat
    _ = dim.mu * dim.ku * dim.nu := Nat.mul_right_comm _ _ _
    _ ≤ t.macNum := t.macs dim listed

theorem place_inside (listed : dim ∈ t.arrayDim) (row : m < dim.mu) (col : n < dim.nu) :
    m * dim.nu + n < t.macNum :=
  (place_lt listed row col).trans_le (Nat.div_le_self _ _)

/-- The products of row `m` of the left operand and column `n` of the right one. -/
def dot (t : DataTypeParam) (dim : ArrayDim) (a : BitVec v) (b : BitVec w) (m n : Nat) :
    BitVec t.outputTypeD.width :=
  ((List.range dim.ku).map fun k => (multiplier t (element _ a (m * dim.ku + k))
    (element _ b (n * dim.ku + k))).setWidth t.outputTypeD.width).sum

theorem group_products (listed : dim ∈ t.arrayDim) (row : m < dim.mu) (col : n < dim.nu) (a : BitVec v)
    (b : BitVec w) : AdderTree.group (products t dim a b) dim.ku (m * dim.nu + n) =
      (List.range dim.ku).map fun k =>
        multiplier t (element _ a (m * dim.ku + k)) (element _ b (n * dim.ku + k)) := by
  apply List.map_congr_left
  intro k member
  have step := List.mem_range.mp member
  have inside : (m * dim.nu + n) * dim.ku + k < t.macNum := by
    have flat := flat_lt row col step
    have room := t.macs dim listed
    rw [Nat.mul_right_comm] at room
    omega
  apply (AdderTree.element_of_lt _ inside).trans
  exact congrArg₂ (multiplier t) (inputA_eq row col step a inside) (inputB_eq row col step b inside)

theorem shape_eq {g : Nat} (chosen : g < t.arrayDim.length) :
    shape t (BitVec.ofNat 32 g) = t.arrayDim[g] := by
  have few := t.dimsNumber.1
  have small : (BitVec.ofNat 32 g).toNat = g := by
    rw [BitVec.toNat_ofNat,Nat.mod_eq_of_lt (by omega)]
  rw [shape,small,List.getD_eq_getElem?_getD,List.getElem?_eq_getElem chosen]
  rfl

/-- The configuration chooses the same shape at the tree. -/
theorem port_eq {g : Nat} (chosen : g < t.arrayDim.length) :
    (BitVec.ofNat 32 g).setWidth (log2Ceil ((adderTree t).groupSizes.length + 1)) = BitVec.ofNat _ g := by
  have few := t.dimsNumber.1
  apply BitVec.eq_of_toNat_eq
  rw [BitVec.toNat_setWidth,BitVec.toNat_ofNat,BitVec.toNat_ofNat,Nat.mod_eq_of_lt (by omega : g < 2 ^ 32)]

/-- For every shape, the accumulators get the product of the two operands. -/
theorem sums_eq (t : DataTypeParam) {g : Nat} (chosen : g < t.arrayDim.length) {m n : Nat}
    (row : m < t.arrayDim[g].mu) (col : n < t.arrayDim[g].nu) (a : BitVec v) (b : BitVec w) :
    sums t (BitVec.ofNat 32 g) a b ⟨_,place_inside (t.arrayDim.getElem_mem chosen) row col⟩ =
      dot t t.arrayDim[g] a b m n := by
  have listed := t.arrayDim.getElem_mem chosen
  have chosen' : g < (adderTree t).groupSizes.length := by simpa [adderTree] using chosen
  have size : (adderTree t).groupSizes.get ⟨g,chosen'⟩ = t.arrayDim[g].ku := by simp [adderTree]
  have due : m * t.arrayDim[g].nu + n <
      (adderTree t).numElements / (adderTree t).groupSizes.get ⟨g,chosen'⟩ := by
    rw [size]
    exact place_lt listed row col
  have sum := AdderTree.out_sum (products t t.arrayDim[g] a b) chosen'
    (k := ⟨_,place_inside listed row col⟩) due
  rw [sums,shape_eq chosen,port_eq chosen]
  apply sum.trans
  rw [size,group_products listed row col]
  exact congrArg List.sum List.map_map

end Products

/-! ### The accumulators -/

end SpatialArray

/-- `Accumulator`, with its blocks. -/
structure Accumulator (t : DataTypeParam) where
  accumulatorReg : Lanes t.macNum t.outputTypeD.width
  inputDataFire : Bool
  keepOutput : Bool

structure AccumulatorInput (t : DataTypeParam) where
  in1 : Option (Lanes t.macNum t.outputTypeD.width)
  in2 : Option (Lanes t.macNum t.outputTypeD.width)
  accAddExtIn : Bool
  enable : Bool
  ready : Bool

namespace Accumulator

variable {t : DataTypeParam}

def outValid (s : Accumulator t) : Bool := s.inputDataFire || s.keepOutput

def keepOutputNext (s : Accumulator t) (i : AccumulatorInput t) : Bool := s.outValid && !i.ready

/-- Of both inputs. -/
def inReady (s : Accumulator t) (i : AccumulatorInput t) : Bool := !s.keepOutput && !s.keepOutputNext i

def in1Fire (s : Accumulator t) (i : AccumulatorInput t) : Bool := i.in1.isSome && s.inReady i

def in2Fire (s : Accumulator t) (i : AccumulatorInput t) : Bool := i.in2.isSome && s.inReady i

def accUpdate (s : Accumulator t) (i : AccumulatorInput t) : Bool :=
  s.in1Fire i && i.enable && (!i.accAddExtIn || (s.in2Fire i && i.accAddExtIn))

def next (s : Accumulator t) (i : AccumulatorInput t) : Accumulator t where
  accumulatorReg l := if s.accUpdate i then
      i.in1.getD (fun _ => 0) l + (if i.accAddExtIn then i.in2.getD (fun _ => 0) l else s.accumulatorReg l)
    else s.accumulatorReg l
  inputDataFire := s.accUpdate i
  keepOutput := s.keepOutputNext i

/-- The result that has not been taken. -/
def pending (s : Accumulator t) : Option (Lanes t.macNum t.outputTypeD.width) :=
  if s.outValid then some s.accumulatorReg else none

end Accumulator

namespace SpatialArray

variable (p : SpatialArrayParam)

abbrev State := (t : Fin p.dataTypes.length) → Accumulator (p.dataTypes.get t)

/-- The operands are valid when they are `some`; `in_subtraction` carries nothing. -/
structure Input where
  inA : Option (BitVec p.arrayInputAWidth)
  inB : Option (BitVec p.arrayInputBWidth)
  inC : Option (BitVec p.arrayInputCWidth)
  ready : Bool
  arrayShapeCfg : BitVec 32
  dataTypeCfg : BitVec 32
  accAddExtIn : Bool

/-- A pair of operands that is taken, with what comes in beside it. -/
structure Operation where
  a : BitVec p.arrayInputAWidth
  b : BitVec p.arrayInputBWidth
  c : Option (BitVec p.arrayInputCWidth)
  arrayShapeCfg : BitVec 32

structure Output where
  accepted : Option (Operation p)
  delivered : Option (BitVec p.arrayOutputDWidth)

variable {p}

def accumulatorInput (i : Input p) (t : Fin p.dataTypes.length) :
    AccumulatorInput (p.dataTypes.get t) where
  in1 := i.inA.bind fun a => i.inB.map fun b => sums _ i.arrayShapeCfg a b
  in2 := i.inC.map (addends _ i.arrayShapeCfg)
  accAddExtIn := i.accAddExtIn
  enable := decide (i.dataTypeCfg.toNat = t.val)
  ready := i.ready

/-- `MuxLookup` over the data types; the first one is the default. -/
def selected (p : SpatialArrayParam) (dataTypeCfg : BitVec 32) : Fin p.dataTypes.length :=
  if inside : dataTypeCfg.toNat < p.dataTypes.length then ⟨_,inside⟩ else ⟨0,p.types⟩

def in1Fire (s : State p) (i : Input p) : Bool := (s (selected p i.dataTypeCfg)).in1Fire (accumulatorInput i _)

def in2Fire (s : State p) (i : Input p) : Bool := (s (selected p i.dataTypeCfg)).in2Fire (accumulatorInput i _)

/-- Of `in_a` and of `in_b`. -/
def abReady (s : State p) (i : Input p) : Bool :=
  if i.accAddExtIn then in1Fire s i && in2Fire s i else in1Fire s i

def cReady (s : State p) (i : Input p) : Bool :=
  if i.accAddExtIn then in1Fire s i && in2Fire s i else false

def accepted (s : State p) (i : Input p) : Option (Operation p) :=
  if abReady s i then
    i.inA.bind fun a => i.inB.map fun b => ⟨a,b,if cReady s i then i.inC else none,i.arrayShapeCfg⟩
  else none

/-- Without a data type of this number the default is the whole port of the first accumulators. -/
def dBits (s : State p) (i : Input p) : BitVec p.arrayOutputDWidth :=
  if i.dataTypeCfg.toNat < p.dataTypes.length then packed _ (s (selected p i.dataTypeCfg)).accumulatorReg
  else (BitVec.ofBool i.ready ++ BitVec.ofBool (s (selected p i.dataTypeCfg)).outValid ++
    packed ((p.dataTypes.get (selected p i.dataTypeCfg)).macNum *
        (p.dataTypes.get (selected p i.dataTypeCfg)).outputTypeD.width)
      (s (selected p i.dataTypeCfg)).accumulatorReg).setWidth _

def delivered (s : State p) (i : Input p) : Option (BitVec p.arrayOutputDWidth) :=
  if (s (selected p i.dataTypeCfg)).outValid && i.ready then some (dBits s i) else none

def next (s : State p) (i : Input p) : State p := fun t => (s t).next (accumulatorInput i t)

def out (s : State p) (i : Input p) : Output p := ⟨accepted s i,delivered s i⟩

end SpatialArray

def spatialArray (p : SpatialArrayParam) :
    Machine (SpatialArray.State p) (SpatialArray.Input p) (SpatialArray.Output p) where
  next := SpatialArray.next
  out := SpatialArray.out

namespace SpatialArray

variable {p : SpatialArrayParam}

/-! ### What the operations come to -/

/-- The accumulators after an operation. -/
def accumulate (t : DataTypeParam) (r : Lanes t.macNum t.outputTypeD.width) (x : Operation p) :
    Lanes t.macNum t.outputTypeD.width := fun l =>
  sums t x.arrayShapeCfg x.a x.b l + ((x.c.map (addends t x.arrayShapeCfg)).getD r) l

/-- The accumulators after each of the operations. -/
def results (t : DataTypeParam) :
    Lanes t.macNum t.outputTypeD.width → List (Operation p) → List (Lanes t.macNum t.outputTypeD.width)
  | _, [] => []
  | r, x :: xs => accumulate t r x :: results t (accumulate t r x) xs

theorem results_snoc (t : DataTypeParam) (r : Lanes t.macNum t.outputTypeD.width) (xs : List (Operation p))
    (x : Operation p) :
    results t r (xs ++ [x]) = results t r xs ++ [accumulate t (xs.foldl (accumulate t) r) x] := by
  induction xs generalizing r with
  | nil => rfl
  | cons y xs ih => simp [results,ih]

section Tile

variable {t : DataTypeParam} {g m n : Nat}

theorem accumulate_at (chosen : g < t.arrayDim.length) (row : m < t.arrayDim[g].mu)
    (col : n < t.arrayDim[g].nu) (r : Lanes t.macNum t.outputTypeD.width) {x : Operation p}
    (shaped : x.arrayShapeCfg = BitVec.ofNat 32 g) :
    accumulate t r x ⟨_,place_inside (t.arrayDim.getElem_mem chosen) row col⟩ =
      dot t t.arrayDim[g] x.a x.b m n +
        x.c.elim (r ⟨_,place_inside (t.arrayDim.getElem_mem chosen) row col⟩) fun c =>
          (element t.inputTypeC.width c (m * t.arrayDim[g].nu + n)).setWidth _ := by
  rw [accumulate,shaped,sums_eq t chosen row col]
  cases x.c with
  | none => rfl
  | some c =>
    have fed := inputC_eq row col c (place_inside (t.arrayDim.getElem_mem chosen) row col)
    simp only [Option.map_some,Option.getD_some,Option.elim_some,addends,shape_eq chosen,fed]

theorem foldl_at (chosen : g < t.arrayDim.length) (row : m < t.arrayDim[g].mu)
    (col : n < t.arrayDim[g].nu) (r : Lanes t.macNum t.outputTypeD.width) (xs : List (Operation p))
    (shaped : ∀ x ∈ xs, x.arrayShapeCfg = BitVec.ofNat 32 g) (alone : ∀ x ∈ xs, x.c = none) :
    (xs.foldl (accumulate t) r) ⟨_,place_inside (t.arrayDim.getElem_mem chosen) row col⟩ =
      r ⟨_,place_inside (t.arrayDim.getElem_mem chosen) row col⟩ +
        (xs.map fun x => dot t t.arrayDim[g] x.a x.b m n).sum := by
  induction xs generalizing r with
  | nil => simp
  | cons x xs ih =>
    have first := accumulate_at chosen row col r (shaped x (by simp))
    rw [alone x (by simp),Option.elim_none] at first
    rw [List.foldl_cons,ih _ (fun y member => shaped y (by simp [member]))
      (fun y member => alone y (by simp [member])),first,List.map_cons,List.sum_cons]
    ac_rfl

/-- For every shape: after operations of which the first one brings in the addend, element `(m, n)` is its
element plus the product of the operands, row by column, over all the operations. -/
theorem accumulated_product (chosen : g < t.arrayDim.length) (row : m < t.arrayDim[g].mu)
    (col : n < t.arrayDim[g].nu) (r : Lanes t.macNum t.outputTypeD.width) (first : Operation p)
    (c : BitVec p.arrayInputCWidth) (added : first.c = some c) (more : List (Operation p))
    (shaped : ∀ x ∈ first :: more, x.arrayShapeCfg = BitVec.ofNat 32 g) (alone : ∀ x ∈ more, x.c = none) :
    ((first :: more).foldl (accumulate t) r) ⟨_,place_inside (t.arrayDim.getElem_mem chosen) row col⟩ =
      (element t.inputTypeC.width c (m * t.arrayDim[g].nu + n)).setWidth _ +
        ((first :: more).map fun x => dot t t.arrayDim[g] x.a x.b m n).sum := by
  have start := accumulate_at chosen row col r (shaped first (by simp))
  rw [added,Option.elim_some] at start
  rw [List.foldl_cons,foldl_at chosen row col _ more (fun x member => shaped x (by simp [member])) alone,
    start,List.map_cons,List.sum_cons]
  ac_rfl

end Tile

theorem pair_macNum : (4).isPowerOfTwo := ⟨2,rfl⟩

theorem pair_macs : ∀ dim ∈ [ArrayDim.mk 1 2 2], dim.mu * dim.ku * dim.nu ≤ 4 := by simp

theorem pair_reduction : ∀ dim ∈ [ArrayDim.mk 1 2 2], dim.ku.isPowerOfTwo := by
  simp only [List.mem_singleton,forall_eq]
  exact ⟨1,rfl⟩

theorem pair_dims : [ArrayDim.mk 1 2 2].length < 32 ∧ 1 ≤ [ArrayDim.mk 1 2 2].length :=
  ⟨by decide,by decide⟩

/-- Bytes, a row of two against two columns of two. -/
def pairType : DataTypeParam where
  macNum := 4
  inputTypeA := ⟨8⟩
  inputTypeB := ⟨8⟩
  inputTypeC := ⟨16⟩
  outputTypeD := ⟨16⟩
  arrayDim := [ArrayDim.mk 1 2 2]
  macNumPow2 := pair_macNum
  macs := pair_macs
  reductionPow2 := pair_reduction
  dimsNumber := pair_dims

theorem pair_wideA : ∀ t ∈ [pairType], ∀ dim ∈ t.arrayDim, dim.mu * dim.ku * t.inputTypeA.width ≤ 16 := by
  simp [pairType]

theorem pair_wideB : ∀ t ∈ [pairType], ∀ dim ∈ t.arrayDim, dim.ku * dim.nu * t.inputTypeB.width ≤ 32 := by
  simp [pairType]

theorem pair_wideC : ∀ t ∈ [pairType], ∀ dim ∈ t.arrayDim, dim.mu * dim.nu * t.inputTypeC.width ≤ 32 := by
  simp [pairType]

theorem pair_wideD : ∀ t ∈ [pairType], ∀ dim ∈ t.arrayDim, dim.mu * dim.nu * t.outputTypeD.width ≤ 32 := by
  simp [pairType]

theorem pair_shapes : ([pairType].map fun t => t.arrayDim.length).sum < 32 := by decide

theorem pair_types : 0 < [pairType].length := Nat.one_pos

def pairArray : SpatialArrayParam where
  arrayInputAWidth := 16
  arrayInputBWidth := 32
  arrayInputCWidth := 32
  arrayOutputDWidth := 32
  dataTypes := [pairType]
  wideA := pair_wideA
  wideB := pair_wideB
  wideC := pair_wideC
  wideD := pair_wideD
  shapes := pair_shapes
  types := pair_types

/-- The row (2, -1) against the column (3, 4). -/
example : dot pairType ⟨1,2,2⟩ (0xFF02 : BitVec 16) (0x04030201 : BitVec 32) 0 1 = 2 := by decide

/-! ### Runs -/

section Runs

variable {s : State p} {i : Input p} {t : Fin p.dataTypes.length}

theorem selected_eq (typed : i.dataTypeCfg.toNat = t.val) : selected p i.dataTypeCfg = t := by
  have inside : i.dataTypeCfg.toNat < p.dataTypes.length := typed ▸ t.isLt
  rw [selected,dif_pos inside]
  exact Fin.ext typed

/-- The operation that is at the ports. -/
def offered (i : Input p) : Option (Operation p) :=
  i.inA.bind fun a => i.inB.bind fun b =>
    if i.accAddExtIn then i.inC.map fun c => ⟨a,b,some c,i.arrayShapeCfg⟩
    else some ⟨a,b,none,i.arrayShapeCfg⟩

theorem accepted_eq (typed : i.dataTypeCfg.toNat = t.val) :
    accepted s i = if (s t).inReady (accumulatorInput i t) then offered i else none := by
  obtain rfl := selected_eq typed
  have pair : in1Fire s i =
      ((i.inA.isSome && i.inB.isSome) && (s (selected p i.dataTypeCfg)).inReady
        (accumulatorInput i (selected p i.dataTypeCfg))) := by
    simp only [in1Fire,Accumulator.in1Fire]
    congr 1
    simp only [accumulatorInput]
    cases i.inA <;> cases i.inB <;> rfl
  have addend : in2Fire s i =
      (i.inC.isSome && (s (selected p i.dataTypeCfg)).inReady
        (accumulatorInput i (selected p i.dataTypeCfg))) := by
    simp only [in2Fire,Accumulator.in2Fire]
    congr 1
    simp only [accumulatorInput]
    cases i.inC <;> rfl
  rw [accepted,abReady,cReady,pair,addend]
  obtain ⟨inA,inB,inC,ready,shape,cfg,ext⟩ := i
  generalize (s _).inReady _ = moves
  cases moves <;> cases ext <;> cases inA <;> cases inB <;> cases inC <;> rfl

theorem accUpdate_eq (typed : i.dataTypeCfg.toNat = t.val) :
    (s t).accUpdate (accumulatorInput i t) = (accepted s i).isSome := by
  rw [accepted_eq typed]
  simp only [Accumulator.accUpdate,Accumulator.in1Fire,Accumulator.in2Fire,offered]
  cases (s t).inReady (accumulatorInput i t) <;> simp only [accumulatorInput,typed] <;>
    cases i.inA <;> cases i.inB <;> cases i.inC <;> cases i.accAddExtIn <;> simp

theorem offered_some {x : Operation p} (offers : offered i = some x) :
    i.inA = some x.a ∧ i.inB = some x.b ∧ i.arrayShapeCfg = x.arrayShapeCfg ∧
      i.accAddExtIn = x.c.isSome ∧ (i.accAddExtIn = true → i.inC = x.c) := by
  obtain ⟨inA,inB,inC,ready,shape,cfg,ext⟩ := i
  cases inA <;> cases inB <;> cases inC <;> cases ext <;> cases offers <;> simp

/-- The accumulators of the chosen type update with the operation that is taken. -/
theorem next_register (typed : i.dataTypeCfg.toNat = t.val) :
    (next s i t).accumulatorReg =
      (accepted s i).elim (s t).accumulatorReg (accumulate _ (s t).accumulatorReg) := by
  funext l
  have updates := accUpdate_eq (s := s) typed
  change (if (s t).accUpdate (accumulatorInput i t) = true then _ else _) = _
  rw [updates]
  cases taken : accepted s i with
  | none => rfl
  | some x =>
    rw [accepted_eq typed] at taken
    split at taken
    · obtain ⟨a,b,shaped,external,added⟩ := offered_some taken
      rw [Option.isSome_some,if_pos rfl,Option.elim_some,accumulate]
      simp only [accumulatorInput,a,b,shaped,Option.bind_some,Option.map_some,Option.getD_some]
      cases c : x.c with
      | none => simp [external,c]
      | some word =>
        rw [c] at external added
        simp [external,added external]
    · contradiction

/-- The accumulators of the other types keep what they hold. -/
theorem next_other {u : Fin p.dataTypes.length} (typed : i.dataTypeCfg.toNat = t.val) (other : u ≠ t) :
    (next s i u).accumulatorReg = (s u).accumulatorReg := by
  have disabled : (s u).accUpdate (accumulatorInput i u) = false := by
    have different : t.val ≠ u.val := fun same => other (Fin.ext same.symm)
    simp [Accumulator.accUpdate,accumulatorInput,typed,different]
  simp [next,Accumulator.next,disabled]

/-- What the receiver has not taken yet, and what is taken in. -/
theorem next_pending (typed : i.dataTypeCfg.toNat = t.val) :
    (next s i t).pending = if (s t).outValid && !i.ready then (s t).pending
      else (accepted s i).map (accumulate _ (s t).accumulatorReg) := by
  have register := next_register (s := s) typed
  have taken := accepted_eq (s := s) typed
  have fires : (next s i t).inputDataFire = (accepted s i).isSome := accUpdate_eq typed
  have kept : (next s i t).keepOutput = ((s t).outValid && !i.ready) := rfl
  cases stall : (s t).outValid && !i.ready with
  | true =>
    have closed : (s t).inReady (accumulatorInput i t) = false := by
      simp [Accumulator.inReady,Accumulator.keepOutputNext,accumulatorInput,stall]
    rw [closed,if_neg Bool.false_ne_true] at taken
    rw [taken,Option.elim_none] at register
    have valid : (s t).outValid = true := (Bool.and_eq_true_iff.mp stall).1
    rw [if_pos rfl,Accumulator.pending,Accumulator.pending,valid,Accumulator.outValid,kept,stall,
      Bool.or_true,register]
  | false =>
    rw [if_neg Bool.false_ne_true,Accumulator.pending,Accumulator.outValid,fires,kept,stall,Bool.or_false,
      register]
    cases accepted s i <;> rfl

def acceptedBy (history : List (Output p)) : List (Operation p) := history.filterMap Output.accepted

def deliveredBy (history : List (Output p)) : List (BitVec p.arrayOutputDWidth) :=
  history.filterMap Output.delivered

theorem acceptedBy_snoc (history : List (Output p)) (s : State p) (i : Input p) :
    acceptedBy (history ++ [out s i]) = acceptedBy history ++ (accepted s i).toList := by
  rw [acceptedBy,List.filterMap_append]
  cases h : accepted s i <;> simp [acceptedBy,out,h]

theorem deliveredBy_snoc (history : List (Output p)) (s : State p) (i : Input p) :
    deliveredBy (history ++ [out s i]) = deliveredBy history ++ (delivered s i).toList := by
  rw [deliveredBy,List.filterMap_append]
  cases h : delivered s i <;> simp [deliveredBy,out,h]

theorem delivered_eq (typed : i.dataTypeCfg.toNat = t.val) :
    delivered s i = if i.ready then (s t).pending.map (packed _) else none := by
  have inside : i.dataTypeCfg.toNat < p.dataTypes.length := typed ▸ t.isLt
  rw [delivered,dBits,if_pos inside]
  obtain rfl := selected_eq typed
  rw [Accumulator.pending]
  cases (s (selected p i.dataTypeCfg)).outValid <;> cases i.ready <;> rfl

/-- After a history the accumulators hold what the operations come to, and the results have gone out in
order but for the one that is pending. -/
structure Serves (t : Fin p.dataTypes.length) (s₀ : State p) (history : List (Output p)) (s : State p) :
    Prop where
  register : (s t).accumulatorReg = (acceptedBy history).foldl (accumulate _) (s₀ t).accumulatorReg
  results : deliveredBy history ++ ((s t).pending.map (packed _)).toList =
    (results _ (s₀ t).accumulatorReg (acceptedBy history)).map (packed _)
  others : ∀ u, u ≠ t → (s u).accumulatorReg = (s₀ u).accumulatorReg

theorem Serves.next {s₀ : State p} {history : List (Output p)} (serves : Serves t s₀ history s)
    (typed : i.dataTypeCfg.toNat = t.val) : Serves t s₀ (history ++ [out s i]) (next s i) := by
  have pending := next_pending (s := s) typed
  have gives := delivered_eq (s := s) typed
  have taken := accepted_eq (s := s) typed
  refine ⟨?_,?_,fun u other => (next_other typed other).trans (serves.others u other)⟩
  · rw [next_register typed,acceptedBy_snoc,serves.register]
    cases accepted s i <;> simp
  · rw [acceptedBy_snoc,deliveredBy_snoc,List.append_assoc]
    cases stall : (s t).outValid && !i.ready with
    | true =>
      -- the receiver does not take the pending result, and nothing is taken in
      have blocked : i.ready = false := by
        simpa using (Bool.and_eq_true_iff.mp stall).2
      have closed : (s t).inReady (accumulatorInput i t) = false := by
        simp [Accumulator.inReady,Accumulator.keepOutputNext,accumulatorInput,stall]
      rw [closed,if_neg Bool.false_ne_true] at taken
      rw [stall,if_pos rfl] at pending
      rw [blocked,if_neg Bool.false_ne_true] at gives
      rw [taken,gives,pending,Option.toList_none,Option.toList_none,List.nil_append,List.append_nil]
      exact serves.results
    | false =>
      have leaves : (delivered s i).toList = ((s t).pending.map (packed _)).toList := by
        rw [gives,Accumulator.pending]
        cases valid : (s t).outValid with
        | false => simp
        | true =>
          have open' : i.ready = true := by simpa [valid] using stall
          rw [open',if_pos rfl]
      rw [stall,if_neg Bool.false_ne_true] at pending
      rw [leaves,pending,← List.append_assoc,serves.results]
      cases accepted s i with
      | none => simp
      | some x =>
        rw [Option.toList_some,results_snoc,← serves.register]
        simp

theorem accepted_all {inputs : List (Input p)} (typed : ∀ i ∈ inputs, i.dataTypeCfg.toNat = t.val)
    (flowing : (s t).keepOutput = false) (ready : ∀ i ∈ inputs, i.ready = true) :
    acceptedBy ((spatialArray p).outs s inputs) = inputs.filterMap offered := by
  induction inputs generalizing s with
  | nil => rfl
  | cons i inputs ih =>
    have open' := ready i (by simp)
    have free : (s t).inReady (accumulatorInput i t) = true := by
      simp [Accumulator.inReady,Accumulator.keepOutputNext,accumulatorInput,flowing,open']
    have takes : accepted s i = offered i := by
      rw [accepted_eq (typed i (by simp)),free,if_pos rfl]
    have flowing' : (next s i t).keepOutput = false := by
      simp [next,Accumulator.next,Accumulator.keepOutputNext,accumulatorInput,open']
    have later := ih (s := next s i) (fun j member => typed j (by simp [member])) flowing'
      (fun j member => ready j (by simp [member]))
    have split : acceptedBy ((spatialArray p).outs s (i :: inputs)) =
        (accepted s i).toList ++ acceptedBy ((spatialArray p).outs (next s i) inputs) := by
      have same : ((spatialArray p).out s i).accepted = accepted s i := rfl
      rw [Machine.outs_cons,acceptedBy,List.filterMap_cons,same]
      cases accepted s i <;> rfl
    rw [split,later,takes,List.filterMap_cons]
    cases offered i <;> rfl

/-- Whatever the stalls, the results of the operations go out in order, each as the accumulators hold it
after the operation, and at most one is pending; the other data types keep their accumulators; and a
receiver that is always ready has every operation taken in the cycle in which it is at the ports. -/
theorem delivers_results (p : SpatialArrayParam) (t : Fin p.dataTypes.length) (s : State p)
    (inputs : List (Input p)) (typed : ∀ i ∈ inputs, i.dataTypeCfg.toNat = t.val)
    (clear : (s t).outValid = false) :
    (deliveredBy ((spatialArray p).outs s inputs) ++
        (((spatialArray p).exec s inputs t).pending.map (packed _)).toList =
      (results _ (s t).accumulatorReg (acceptedBy ((spatialArray p).outs s inputs))).map (packed _)) ∧
    (∀ u, u ≠ t → ((spatialArray p).exec s inputs u).accumulatorReg = (s u).accumulatorReg) ∧
    ((∀ i ∈ inputs, i.ready = true) →
      acceptedBy ((spatialArray p).outs s inputs) = inputs.filterMap offered) := by
  have quiet : (s t).pending = none := by rw [Accumulator.pending,clear,if_neg Bool.false_ne_true]
  have start : Serves t s [] s := ⟨rfl,by simp [quiet,deliveredBy,acceptedBy,results],fun _ _ => rfl⟩
  have serves := Machine.run_rule_each (Serves t s) (Machine.Each.of_inputs (m := spatialArray p) typed)
    start fun _ _ _ serves typed => serves.next typed
  have flowing : (s t).keepOutput = false := by
    rw [Accumulator.outValid,Bool.or_eq_false_iff] at clear
    exact clear.2
  exact ⟨serves.results,serves.others,accepted_all typed flowing⟩

/-- An operation with addends, a stalled cycle and a cycle that takes the result. -/
def pairInputs : List (Input pairArray) :=
  [⟨some 0xFF02,some 0x04030201,some 0x00070005,true,0,0,true⟩,
    ⟨some 0xFF02,some 0x04030201,none,false,0,0,false⟩,⟨none,none,none,true,0,0,false⟩]

def pairState : State pairArray := fun _ => ⟨fun _ => 0,false,false⟩

def pairIndex : Fin pairArray.dataTypes.length := ⟨0,pair_types⟩

theorem delivers_results_pair : deliveredBy ((spatialArray pairArray).outs pairState pairInputs) ++
      (((spatialArray pairArray).exec pairState pairInputs pairIndex).pending.map (packed _)).toList =
    (results _ (pairState pairIndex).accumulatorReg
      (acceptedBy ((spatialArray pairArray).outs pairState pairInputs))).map (packed _) :=
  (delivers_results pairArray pairIndex pairState pairInputs (by decide) rfl).1

end Runs

end SpatialArray

end Snax
