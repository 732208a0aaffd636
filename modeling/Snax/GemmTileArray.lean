import Mathlib.Algebra.Order.Ring.Abs
import Mathlib.Algebra.Order.Ring.Int
import Mathlib.Data.BitVec
import Mathlib.Data.List.FinRange
import Mathlib.Tactic.Linarith

/-! `gemm/GemmTileArray.scala`: the mesh of tiles, each the dot product of a row and a column
with an accumulator. All tiles get the same control inputs, so the mesh has one set of
control registers here. -/
namespace Snax

/-- The widths of the configuration ports are 32 bits by assertion. -/
structure GemmParams where
  dataWidthA : Nat
  dataWidthB : Nat
  dataWidthMul : Nat
  dataWidthC : Nat
  dataWidthAccum : Nat
  meshRow : Nat
  tileSize : Nat
  meshCol : Nat
  deriving DecidableEq

namespace GemmArray

variable (p : GemmParams)

/-- A word on the A port, one row of the block for every row of the mesh. -/
abbrev WordA := Fin p.meshRow → Fin p.tileSize → BitVec p.dataWidthA

/-- A word on the B port, one column of the block for every column of the mesh. -/
abbrev WordB := Fin p.meshCol → Fin p.tileSize → BitVec p.dataWidthB

/-- A word on the C or on the D port. -/
abbrev WordC := Fin p.meshRow → Fin p.meshCol → BitVec p.dataWidthC

/-- A pair of operands with the constants that are subtracted from them. -/
structure CutBundle where
  a : WordA p
  b : WordB p
  c : BitVec p.dataWidthA
  d : BitVec p.dataWidthB

/-- What the cut shows while it holds nothing. -/
def idleBundle : CutBundle p := ⟨fun _ _ => 0,fun _ _ => 0,0,0⟩

abbrev Accumulators := Fin p.meshRow → Fin p.meshCol → BitVec p.dataWidthAccum

variable {p}

def CutBundle.operands (x : CutBundle p) : WordA p × WordB p := (x.a,x.b)

/-- `-&`: one bit wider, so that nothing is lost. -/
def subtracted (x s : BitVec w) : BitVec (w + 1) := x.signExtend (w + 1) - s.signExtend (w + 1)

/-- A product as wide as both factors, cut to the width of the products. -/
def product (v : Nat) (x : BitVec m) (y : BitVec n) : BitVec v :=
  (x.signExtend (m + n) * y.signExtend (m + n)).signExtend v

def mulAddResultVec (x : CutBundle p) (row : Fin p.meshRow) (col : Fin p.meshCol)
    (i : Fin p.tileSize) : BitVec p.dataWidthMul :=
  product _ (subtracted (x.a row i) x.c) (subtracted (x.b col i) x.d)

/-- The sum of the products, in their width, is extended to that of the accumulator. -/
def mulAddResult (x : CutBundle p) (row : Fin p.meshRow) (col : Fin p.meshCol) :
    BitVec p.dataWidthAccum :=
  (((List.finRange p.tileSize).map (mulAddResultVec x row col)).foldl (· + ·) 0).signExtend _

/-- The first pair of a tile is added to the word on the C port, the others to the register. -/
def loadC (c : WordC p) : Accumulators p := fun row col => (c row col).signExtend _

def accumulate (acc : Accumulators p) (x : CutBundle p) : Accumulators p :=
  fun row col => acc row col + mulAddResult x row col

def dataOut (acc : Accumulators p) : WordC p := fun row col => (acc row col).signExtend _

/-- The registers of the mesh. -/
structure State (p : GemmParams) where
  accumulationReg : Accumulators p
  dataIFireReg : Bool
  keepOutput : Bool

def initial (p : GemmParams) : State p := ⟨fun _ _ => 0,false,false⟩

def dValid (s : State p) : Bool := s.dataIFireReg || s.keepOutput

def abcReady (s : State p) (dReady : Bool) : Bool := !s.keepOutput && !(dValid s && !dReady)

def next (s : State p) (dotprodAB addCI : Bool) (x : CutBundle p) (c : WordC p) (dReady : Bool) :
    State p where
  accumulationReg :=
    if (addCI && abcReady s dReady) && (dotprodAB && abcReady s dReady) then accumulate (loadC c) x
    else if dotprodAB && abcReady s dReady then accumulate s.accumulationReg x
    else s.accumulationReg
  dataIFireReg := dotprodAB && abcReady s dReady
  keepOutput := dValid s && !dReady

/-! ### What the tiles compute -/

theorem toInt_subtracted (x s : BitVec w) : (subtracted x s).toInt = x.toInt - s.toInt := by
  have upper := BitVec.two_mul_toInt_lt (x := x)
  have upper' := BitVec.two_mul_toInt_lt (x := s)
  have lower := BitVec.le_two_mul_toInt (x := x)
  have lower' := BitVec.le_two_mul_toInt (x := s)
  rw [subtracted,BitVec.toInt_sub,BitVec.toInt_signExtend_of_le (Nat.le_succ w),
    BitVec.toInt_signExtend_of_le (Nat.le_succ w)]
  refine Int.bmod_eq_of_le_mul_two ?_ ?_
  · push_cast [pow_succ]
    linarith
  · push_cast [pow_succ]
    linarith

theorem product_eq (v : Nat) (x : BitVec m) (y : BitVec n) :
    product v x y = BitVec.ofInt v (x.toInt * y.toInt) := by
  have left : |2 * x.toInt| ≤ 2 ^ m := abs_le.mpr ⟨BitVec.le_two_mul_toInt,BitVec.two_mul_toInt_lt.le⟩
  have right : |2 * y.toInt| ≤ 2 ^ n := abs_le.mpr ⟨BitVec.le_two_mul_toInt,BitVec.two_mul_toInt_lt.le⟩
  have both : |2 * x.toInt * (2 * y.toInt)| ≤ 2 ^ m * 2 ^ n := by
    rw [abs_mul]
    exact mul_le_mul left right (abs_nonneg _) (by positivity)
  obtain ⟨lower,upper⟩ := abs_le.mp both
  have positive : (0 : Int) < 2 ^ m * 2 ^ n := by positivity
  have exact' : (x.signExtend (m + n) * y.signExtend (m + n)).toInt = x.toInt * y.toInt := by
    rw [BitVec.toInt_mul,BitVec.toInt_signExtend_of_le (Nat.le_add_right m n),
      BitVec.toInt_signExtend_of_le (Nat.le_add_left n m)]
    refine Int.bmod_eq_of_le_mul_two ?_ ?_
    · push_cast [pow_add]
      linarith
    · push_cast [pow_add]
      linarith
  rw [product,BitVec.signExtend,exact']

/-- The integer dot product of a row and a column, less the constants. -/
def dot (x : CutBundle p) (row : Fin p.meshRow) (col : Fin p.meshCol) : Int :=
  ((List.finRange p.tileSize).map fun i =>
    ((x.a row i).toInt - x.c.toInt) * ((x.b col i).toInt - x.d.toInt)).foldl (· + ·) 0

theorem foldl_ofInt (v : Nat) (l : List Int) (acc : Int) :
    (l.map (BitVec.ofInt v)).foldl (· + ·) (BitVec.ofInt v acc) = BitVec.ofInt v (l.foldl (· + ·) acc) := by
  induction l generalizing acc with
  | nil => rfl
  | cons x l ih =>
    rw [List.map_cons,List.foldl_cons,List.foldl_cons,← BitVec.ofInt_add,ih]

/-- The sum of a tile's products is the dot product, cut to the width of the products. -/
theorem mulAddResult_eq (x : CutBundle p) (row : Fin p.meshRow) (col : Fin p.meshCol) :
    mulAddResult x row col = BitVec.ofInt _ (BitVec.ofInt p.dataWidthMul (dot x row col)).toInt := by
  have products : (List.finRange p.tileSize).map (mulAddResultVec x row col) =
      ((List.finRange p.tileSize).map fun i =>
        ((x.a row i).toInt - x.c.toInt) * ((x.b col i).toInt - x.d.toInt)).map
        (BitVec.ofInt p.dataWidthMul) := by
    rw [List.map_map]
    refine List.map_congr_left fun i _ => ?_
    rw [mulAddResultVec,product_eq,toInt_subtracted,toInt_subtracted]
    rfl
  rw [mulAddResult,products,BitVec.signExtend,dot]
  exact congrArg (fun z => BitVec.ofInt _ (BitVec.toInt z)) (foldl_ofInt p.dataWidthMul _ 0)

/-- A tile of the result: the word on the C port and the dot products of its pairs, each cut to
the width of the products, added up in the width of the accumulator. -/
def tile (c : WordC p) (pairs : List (CutBundle p)) : WordC p := fun row col =>
  (BitVec.ofInt p.dataWidthAccum
    ((pairs.map fun x => (BitVec.ofInt p.dataWidthMul (dot x row col)).toInt).foldl (· + ·)
      (c row col).toInt)).signExtend _

theorem dataOut_foldl (c : WordC p) (pairs : List (CutBundle p)) :
    dataOut (pairs.foldl accumulate (loadC c)) = tile c pairs := by
  have sums (acc : Int) (row : Fin p.meshRow) (col : Fin p.meshCol) (start : Accumulators p)
      (begin : start row col = BitVec.ofInt _ acc) : (pairs.foldl accumulate start) row col =
      BitVec.ofInt _ ((pairs.map fun x => (BitVec.ofInt p.dataWidthMul (dot x row col)).toInt).foldl
        (· + ·) acc) := by
    induction pairs generalizing acc start with
    | nil => exact begin
    | cons x pairs ih =>
      refine ih _ _ ?_
      rw [accumulate,begin,mulAddResult_eq,BitVec.ofInt_add]
  funext row col
  rw [dataOut,sums (c row col).toInt row col (loadC c) rfl,tile]

theorem ofInt_narrowed {v w : Nat} (wide : w ≤ v) (z : Int) :
    BitVec.ofInt w (BitVec.ofInt v z).toInt = BitVec.ofInt w z := by
  refine BitVec.eq_of_toInt_eq ?_
  rw [BitVec.toInt_ofInt,BitVec.toInt_ofInt,BitVec.toInt_ofInt]
  exact Int.bmod_bmod_of_dvd (Nat.pow_dvd_pow 2 wide)

/-- Where the products are as wide as the accumulator, they lose nothing that it keeps. -/
theorem tile_eq (wide : p.dataWidthAccum ≤ p.dataWidthMul) (c : WordC p) (pairs : List (CutBundle p))
    (row : Fin p.meshRow) (col : Fin p.meshCol) : tile c pairs row col =
      (BitVec.ofInt p.dataWidthAccum
        ((pairs.map fun x => dot x row col).foldl (· + ·) (c row col).toInt)).signExtend _ := by
  rw [tile]
  congr 1
  rw [← foldl_ofInt,← foldl_ofInt,List.map_map,List.map_map]
  congr 1
  exact List.map_congr_left fun x _ => ofInt_narrowed wide _

end GemmArray
end Snax
