import Mathlib.Algebra.Order.Group.Nat
import Snax.DataPathExtension
import Snax.WidthUpConverter
import Snax.Sync.Groups
import Snax.Sync.Chunks
import Snax.Sync.Elements

/-! `Transposer.scala`: matrices that come in words of several columns of all their rows
leave transposed, in words of the same kind. -/
namespace Snax

open Sync

/-- A matrix in words: word `w` holds the columns from `w * (cols / transfers)` on. -/
structure MatrixLayout where
  rows : Nat
  cols : Nat
  transfers : Nat
  elementWidth : Nat
  ioWidth : Nat
  rowsPositive : 0 < rows
  colsPositive : 0 < cols
  rowsDivide : transfers ∣ rows
  colsDivide : transfers ∣ cols
  fits : rows * (cols / transfers) * elementWidth ≤ ioWidth

namespace MatrixLayout

variable (L : MatrixLayout)

abbrev Matrix := Fin L.rows → Fin L.cols → BitVec L.elementWidth

/-- The columns of a word. -/
def width : Nat := L.cols / L.transfers

/-- The bits of a word that hold elements. -/
def used : Nat := L.rows * L.width * L.elementWidth

theorem transfers_pos : 0 < L.transfers := Nat.pos_of_dvd_of_pos L.colsDivide L.colsPositive

theorem width_pos : 0 < L.width :=
  Nat.div_pos (Nat.le_of_dvd L.colsPositive L.colsDivide) L.transfers_pos

theorem transfers_mul_width : L.transfers * L.width = L.cols := Nat.mul_div_cancel' L.colsDivide

theorem col_lt (w : Fin L.transfers) (j : Fin L.width) : w.val * L.width + j.val < L.cols := by
  have room : (w.val + 1) * L.width ≤ L.transfers * L.width := Nat.mul_le_mul_right _ w.isLt
  rw [L.transfers_mul_width,Nat.succ_mul] at room
  have inside := j.isLt
  omega

theorem word_lt (j : Fin L.cols) : j.val / L.width < L.transfers := by
  refine Nat.div_lt_of_lt_mul ?_
  rw [Nat.mul_comm,L.transfers_mul_width]
  exact j.isLt

/-- Word `w` of a matrix. -/
def word (M : L.Matrix) (w : Fin L.transfers) : BitVec L.ioWidth :=
  asUInt L.ioWidth fun i (j : Fin L.width) => M i ⟨w.val * L.width + j.val,L.col_lt w j⟩

def encode (M : L.Matrix) : List (BitVec L.ioWidth) := List.ofFn (L.word M)

def decode (g : List (BitVec L.ioWidth)) : L.Matrix := fun i j =>
  asVec L.rows L.width L.elementWidth (g.getD (j.val / L.width) 0) i
    ⟨j.val % L.width,Nat.mod_lt _ L.width_pos⟩

@[simp] theorem encode_length (M : L.Matrix) : (L.encode M).length = L.transfers := by simp [encode]

theorem decode_encode (M : L.Matrix) : L.decode (L.encode M) = M := by
  funext i j
  have found : (L.encode M).getD (j.val / L.width) 0 = L.word M ⟨_,L.word_lt j⟩ := by
    simp [encode,L.word_lt j]
  have fits : L.rows * L.width * L.elementWidth ≤ L.ioWidth := L.fits
  rw [decode,found,word,asVec_asUInt _ fits]
  exact congrArg (M i) (Fin.ext (Nat.div_add_mod' _ _))

/-- A word keeps the bits that hold elements. -/
theorem encode_decode {g : List (BitVec L.ioWidth)} (whole : g.length = L.transfers) :
    L.encode (L.decode g) = g.map (lowPart L.used) := by
  apply List.ext_getElem
  · simp [whole]
  · intro w inside inside'
    have within : w < g.length := by simpa using inside'
    simp only [encode,List.getElem_ofFn,List.getElem_map,word]
    have kept : lowPart L.used g[w] = lowPart (L.rows * L.width * L.elementWidth) g[w] := rfl
    rw [kept,← asUInt_asVec]
    refine congrArg _ (funext fun i => funext fun j => ?_)
    have here : (w * L.width + j.val) / L.width = w := by
      rw [Nat.mul_comm,Nat.mul_add_div L.width_pos,Nat.div_eq_of_lt j.isLt,Nat.add_zero]
    have place : (w * L.width + j.val) % L.width = j.val := Nat.mul_add_mod_of_lt j.isLt
    simp only [decode,here,place,List.getD_eq_getElem _ _ within]

theorem flip_fits : L.cols * (L.rows / L.transfers) * L.elementWidth ≤ L.ioWidth := by
  have same : L.cols * (L.rows / L.transfers) = L.rows * (L.cols / L.transfers) := by
    rw [← Nat.mul_div_assoc _ L.rowsDivide,← Nat.mul_div_assoc _ L.colsDivide,Nat.mul_comm]
  rw [same]
  exact L.fits

/-- The layout of the transposed matrices. -/
abbrev flip : MatrixLayout where
  rows := L.cols
  cols := L.rows
  transfers := L.transfers
  elementWidth := L.elementWidth
  ioWidth := L.ioWidth
  rowsPositive := L.colsPositive
  colsPositive := L.rowsPositive
  rowsDivide := L.colsDivide
  colsDivide := L.rowsDivide
  fits := L.flip_fits

def transpose (M : L.Matrix) : L.flip.Matrix := fun j i => M i j

/-- The words of the transposed matrix. -/
def transposed (g : List (BitVec L.ioWidth)) : List (BitVec L.ioWidth) :=
  L.flip.encode (L.transpose (L.decode g))

@[simp] theorem transposed_length (g : List (BitVec L.ioWidth)) :
    (L.transposed g).length = L.transfers := L.flip.encode_length _

/-- Transposing twice gives back what the words hold of the matrix. -/
theorem transposed_transposed {g : List (BitVec L.ioWidth)} (whole : g.length = L.transfers) :
    L.flip.transposed (L.transposed g) = g.map (lowPart L.used) := by
  have back : L.flip.decode (L.transposed g) = L.transpose (L.decode g) := L.flip.decode_encode _
  have again : L.flip.transposed (L.transposed g) =
      L.encode (L.flip.transpose (L.flip.decode (L.transposed g))) := rfl
  rw [again,back]
  exact L.encode_decode whole

theorem transposed_heq {L L' : MatrixLayout} (same : L' = L) {g : List (BitVec L.ioWidth)}
    {g' : List (BitVec L'.ioWidth)} (words : HEq g' g) : HEq (L'.transposed g') (L.transposed g) := by
  subst same
  obtain rfl := eq_of_heq words
  rfl

end MatrixLayout

/-! ### The unit -/

def elementPerTransfer (row col ioWidth elementWidth : Nat) : Nat :=
  min ioWidth (row * col * elementWidth) / elementWidth

def transferPerTranspose (row col ioWidth elementWidth : Nat) : Nat :=
  (row * col + elementPerTransfer row col ioWidth elementWidth - 1) /
    elementPerTransfer row col ioWidth elementWidth

/-- Parameters under which the unit elaborates, with words that are whole columns. -/
structure TransposerParam where
  row : Nat
  col : Nat
  ioWidth : Nat
  elementWidth : Nat
  positive : 0 < elementPerTransfer row col ioWidth elementWidth
  exact : ioWidth = elementPerTransfer row col ioWidth elementWidth * elementWidth
  rowDivides : transferPerTranspose row col ioWidth elementWidth ∣ row
  colDivides : transferPerTranspose row col ioWidth elementWidth ∣ col

namespace TransposerParam

variable (p : TransposerParam)

abbrev perTransfer : Nat := elementPerTransfer p.row p.col p.ioWidth p.elementWidth

abbrev transfers : Nat := transferPerTranspose p.row p.col p.ioWidth p.elementWidth

theorem elements_pos : 0 < p.row * p.col := by
  by_contra none
  have zero : p.row * p.col = 0 := Nat.eq_zero_of_not_pos none
  have positive := p.positive
  simp [elementPerTransfer,zero] at positive

theorem row_pos : 0 < p.row := Nat.pos_of_mul_pos_right p.elements_pos

theorem col_pos : 0 < p.col := Nat.pos_of_mul_pos_left p.elements_pos

theorem transfers_fits : p.row * (p.col / p.transfers) * p.elementWidth ≤ p.ioWidth := by
  have rounded : p.row * p.col ≤ p.transfers * p.perTransfer := by
    have up := Nat.lt_div_mul_add (a := p.row * p.col + p.perTransfer - 1) p.positive
    change _ < p.transfers * p.perTransfer + p.perTransfer at up
    omega
  have whole : p.transfers * (p.row * (p.col / p.transfers)) = p.row * p.col := by
    rw [Nat.mul_left_comm,Nat.mul_div_cancel' p.colDivides]
  have positive : 0 < p.transfers := Nat.pos_of_dvd_of_pos p.colDivides p.col_pos
  calc p.row * (p.col / p.transfers) * p.elementWidth
      ≤ p.perTransfer * p.elementWidth :=
        Nat.mul_le_mul_right _ (Nat.le_of_mul_le_mul_left (whole ▸ rounded) positive)
    _ = p.ioWidth := p.exact.symm

/-- The layout of the matrices that come in. -/
abbrev layout : MatrixLayout where
  rows := p.row
  cols := p.col
  transfers := p.transfers
  elementWidth := p.elementWidth
  ioWidth := p.ioWidth
  rowsPositive := p.row_pos
  colsPositive := p.col_pos
  rowsDivide := p.rowDivides
  colsDivide := p.colDivides
  fits := p.transfers_fits

theorem elementPerTransfer_comm (row col ioWidth elementWidth : Nat) :
    elementPerTransfer col row ioWidth elementWidth =
      elementPerTransfer row col ioWidth elementWidth := by
  rw [elementPerTransfer,Nat.mul_comm col,elementPerTransfer]

theorem transferPerTranspose_comm (row col ioWidth elementWidth : Nat) :
    transferPerTranspose col row ioWidth elementWidth =
      transferPerTranspose row col ioWidth elementWidth := by
  rw [transferPerTranspose,elementPerTransfer_comm,Nat.mul_comm col,transferPerTranspose]

theorem swap_positive : 0 < elementPerTransfer p.col p.row p.ioWidth p.elementWidth :=
  (elementPerTransfer_comm ..).symm ▸ p.positive

theorem swap_exact :
    p.ioWidth = elementPerTransfer p.col p.row p.ioWidth p.elementWidth * p.elementWidth := by
  rw [elementPerTransfer_comm]
  exact p.exact

theorem swap_rowDivides : transferPerTranspose p.col p.row p.ioWidth p.elementWidth ∣ p.col :=
  (transferPerTranspose_comm ..).symm ▸ p.colDivides

theorem swap_colDivides : transferPerTranspose p.col p.row p.ioWidth p.elementWidth ∣ p.row :=
  (transferPerTranspose_comm ..).symm ▸ p.rowDivides

/-- The unit for the transposed matrices. -/
abbrev swap : TransposerParam where
  row := p.col
  col := p.row
  ioWidth := p.ioWidth
  elementWidth := p.elementWidth
  positive := p.swap_positive
  exact := p.swap_exact
  rowDivides := p.swap_rowDivides
  colDivides := p.swap_colDivides

theorem swap_layout : p.swap.layout = p.layout.flip := by
  simp only [layout,swap,MatrixLayout.flip,transferPerTranspose_comm p.row]

end TransposerParam

namespace TransposerUnit

variable {p : TransposerParam}

abbrev Input (p : TransposerParam) := BusInput Unit (BitVec p.ioWidth)

abbrev Word (p : TransposerParam) := BitVec p.ioWidth

/-- `inputMatrixType` and `outputMatrixType`. -/
abbrev InPart (p : TransposerParam) := Fin p.row → Fin (p.col / p.transfers) → BitVec p.elementWidth

abbrev OutPart (p : TransposerParam) := Fin p.col → Fin (p.row / p.transfers) → BitVec p.elementWidth

/-- The converters, which take part only where a matrix has several words. -/
structure State (p : TransposerParam) where
  up : WidthUpConverter.State (InPart p) p.transfers
  down : WidthDownConverter.State (OutPart p) p.transfers

def matrixInput (bits : Vector (InPart p) p.transfers) : Fin p.row → Fin p.col → BitVec p.elementWidth :=
  fun i j => bits.get ⟨j.val / p.layout.width,p.layout.word_lt j⟩ i
    ⟨j.val % p.layout.width,Nat.mod_lt _ p.layout.width_pos⟩

def matrixOutput (matrixInput : Fin p.row → Fin p.col → BitVec p.elementWidth) :
    Fin p.col → Fin p.row → BitVec p.elementWidth := fun j i => matrixInput i j

/-- Entry `(i,j)` is wired to entry `(i,j % w)` of part `j / w`. -/
def downBits (matrixOutput : Fin p.col → Fin p.row → BitVec p.elementWidth) :
    Vector (OutPart p) p.transfers :=
  Vector.ofFn fun b => fun i j =>
    matrixOutput i ⟨b.val * p.layout.flip.width + j.val,p.layout.flip.col_lt b j⟩

/-- The direct connection. -/
def directWord (x : Word p) : Word p :=
  asUInt p.ioWidth (matrixOutput (asVec p.row p.col p.elementWidth x))

def upBits (s : State p) (i : Input p) : Vector (InPart p) p.transfers :=
  WidthUpConverter.outBits s.up (asVec p.row (p.col / p.transfers) p.elementWidth i.bits)

def downIn (s : State p) (i : Input p) : Option (Vector (OutPart p) p.transfers) :=
  if WidthUpConverter.outValid s.up i.valid then
    some (downBits (matrixOutput (matrixInput (upBits s i))))
  else none

def downReady (s : State p) (i : Input p) : Bool := WidthDownConverter.inReady s.down i.ready

def accepted (s : State p) (i : Input p) : Option (Word p) :=
  if p.transfers = 1 then (if i.ready then i.offered else none)
  else if WidthUpConverter.inReady s.up (downReady s i) then i.offered else none

def delivered (s : State p) (i : Input p) : Option (Word p) :=
  if p.transfers = 1 then (if i.ready then i.offered.map directWord else none)
  else (WidthDownConverter.outFire s.down (downIn s i) i.ready).map (asUInt p.ioWidth)

def next (s : State p) (i : Input p) : State p :=
  if p.transfers = 1 then s
  else
    { up := WidthUpConverter.next s.up i.start i.valid
        (asVec p.row (p.col / p.transfers) p.elementWidth i.bits) (downReady s i)
      down := WidthDownConverter.next s.down i.start (downIn s i) i.ready }

/-- The extension around the units ties its busy low. -/
def out (s : State p) (i : Input p) : ExtOutput (Word p) (Word p) where
  accepted := accepted s i
  delivered := delivered s i
  busy := false

/-- The registers have no reset value but the counters. -/
structure Fresh (s : State p) : Prop where
  up : s.up.counter = 0
  down : s.down.counter = 0

end TransposerUnit

def transposerUnit (p : TransposerParam) : Machine (TransposerUnit.State p) (TransposerUnit.Input p)
    (ExtOutput (TransposerUnit.Word p) (TransposerUnit.Word p)) where
  next := TransposerUnit.next
  out := TransposerUnit.out

namespace TransposerUnit

variable {s : State p} {i : Input p} {g : Grouping (Word p)}

/-- The words of completed matrices that have not left. -/
def pending (s : State p) : List (Word p) :=
  if p.transfers = 1 then [] else (WidthDownConverter.rest s.down).map (asUInt p.ioWidth)

/-- The words of the transposed matrix. -/
def transposed (group : List (Word p)) : List (Word p) := p.layout.transposed group

abbrev part (x : Word p) : InPart p := asVec p.row (p.col / p.transfers) p.elementWidth x

/-- The words of the incomplete matrix are in the up converter. -/
structure Holds (g : Grouping (Word p)) (s : State p) : Prop where
  up : WidthUpConverter.Collects (g.part.map part) s.up
  down : s.down.counter.toNat < p.transfers

theorem transfers_pos (p : TransposerParam) : 0 < p.transfers := p.layout.transfers_pos

theorem Fresh.holds (fresh : Fresh s) : Holds ⟨[],[]⟩ s :=
  ⟨.fresh (transfers_pos p) fresh.up,by simpa [fresh.down] using transfers_pos p⟩

theorem pending_fresh (fresh : Fresh s) : pending s = [] := by
  rw [pending,WidthDownConverter.rest_of_zero fresh.down,List.map_nil,ite_self]

theorem offered_some {x : Word p} (given : i.offered = some x) : i.valid = true ∧ i.bits = x := by
  unfold BusInput.offered at given
  split at given
  · next valid => exact ⟨valid,Option.some.inj given⟩
  · contradiction

/-! ### Words that are matrices -/

theorem asUInt_cast {m w rows cols cols' : Nat} (same : cols' = cols)
    (v : Fin rows → Fin cols → BitVec w) :
    asUInt m v = asUInt m fun i (j : Fin cols') => v i (j.cast same) := by
  subst same
  rfl

theorem transposed_direct (direct : p.transfers = 1) (x : Word p) :
    transposed [x] = [directWord x] := by
  have width : p.layout.width = p.col := by
    change p.col / p.transfers = p.col
    rw [direct,Nat.div_one]
  have rows : p.row / p.transfers = p.row := by rw [direct,Nat.div_one]
  have entry : p.layout.decode [x] = asVec p.row p.col p.elementWidth x := by
    funext i j
    have first : j.val / p.layout.width = 0 := Nat.div_eq_of_lt (width ▸ j.isLt)
    have place : j.val % p.layout.width = j.val := Nat.mod_eq_of_lt (width ▸ j.isLt)
    have column : i.val * p.layout.width + j.val = i.val * p.col + j.val := by rw [width]
    simp only [MatrixLayout.decode,asVec,first,place,column,List.getD_cons_zero]
  have image : transposed [x] = List.ofFn (p.layout.flip.word (p.layout.transpose
      (asVec p.row p.col p.elementWidth x))) := by
    rw [← entry]
    rfl
  rw [image]
  apply List.ext_getElem
  · rw [List.length_ofFn]
    exact direct
  · intro k inside inside'
    obtain rfl : k = 0 := Nat.lt_one_iff.mp inside'
    rw [List.getElem_ofFn,MatrixLayout.word,List.getElem_cons_zero,directWord,asUInt_cast rows]
    refine congrArg (asUInt p.ioWidth) (funext fun i => funext fun j => ?_)
    have same : 0 * p.layout.flip.width + j.val = j.val := by omega
    exact congrArg _ (Fin.ext same)

/-- The parts given to the down converter are the words of the transposed matrix. -/
theorem down_words {bits : Vector (InPart p) p.transfers} {group : List (Word p)}
    (parts : bits.toList = group.map part) :
    (downBits (matrixOutput (matrixInput bits))).toList.map (asUInt p.ioWidth) =
      transposed group := by
  have entry : matrixInput bits = p.layout.decode group := by
    funext i j
    have inside : j.val / p.layout.width < bits.toList.length := by
      rw [Vector.length_toList]
      exact p.layout.word_lt j
    have inside' : j.val / p.layout.width < group.length := by simpa [parts] using inside
    have found : bits.get ⟨j.val / p.layout.width,p.layout.word_lt j⟩ =
        part group[j.val / p.layout.width] := by
      change bits.toList[j.val / p.layout.width] = _
      simp only [parts,List.getElem_map]
    simp only [matrixInput,found,MatrixLayout.decode,List.getD_eq_getElem _ _ inside']
    rfl
  rw [entry,downBits,Vector.toList_ofFn,List.map_ofFn]
  rfl

/-! ### A cycle -/

theorem Holds.direct (holds : Holds g s) (direct : p.transfers = 1) : g.part = [] := by
  have short := holds.up.short
  rw [List.length_map,direct] at short
  exact List.length_eq_zero_iff.mp (Nat.lt_one_iff.mp short)

theorem Holds.cycle_direct (holds : Holds g s) (direct : p.transfers = 1) :
    Holds (g.pushed p.transfers (accepted s i)) (next s i) ∧
      (delivered s i).toList ++ pending (next s i) =
        pending s ++ (g.completed p.transfers (accepted s i)).flatMap transposed := by
  have empty := holds.direct direct
  have still : next s i = s := if_pos direct
  have given : delivered s i = (accepted s i).map directWord := by
    rw [delivered,accepted,if_pos direct,if_pos direct]
    split <;> rfl
  have none : pending s = [] := if_pos direct
  rw [still,given,none]
  cases accepted s i with
  | none => exact ⟨holds,rfl⟩
  | some x =>
    have whole : g.part.length + 1 = p.transfers := by simp [empty,direct]
    have vacant : (g.push p.transfers x).part = g.part := by rw [Grouping.push,if_pos whole,empty]
    refine ⟨⟨?_,holds.down⟩,?_⟩
    · rw [Grouping.pushed,vacant]
      exact holds.up
    · rw [Grouping.completed,if_pos whole,empty,List.flatMap_singleton,List.nil_append,List.nil_append,
        transposed_direct direct]
      rfl

theorem next_of_many (many : p.transfers ≠ 1) : next s i =
    { up := WidthUpConverter.next s.up i.start i.valid (part i.bits) (downReady s i)
      down := WidthDownConverter.next s.down i.start (downIn s i) i.ready } := if_neg many

/-- What the down converter gives, under what it takes in the cycle. -/
theorem Holds.down_cycle (holds : Holds g s) (many : p.transfers ≠ 1) (start : i.start = false) :
    (next s i).down.counter.toNat < p.transfers ∧
      (delivered s i).toList ++ pending (next s i) = pending s ++
        ((WidthDownConverter.inFire s.down (downIn s i) i.ready).map
          fun parts => parts.toList.map (asUInt p.ioWidth)).getD [] := by
  have moved := congrArg (List.map (asUInt p.ioWidth))
    (WidthDownConverter.next_rest s.down (downIn s i) i.ready holds.down)
  have below := WidthDownConverter.counter_below s.down (downIn s i) i.ready holds.down
  rw [pending,pending,if_neg many,if_neg many,delivered,if_neg many,next_of_many many,start]
  refine ⟨below,?_⟩
  generalize WidthDownConverter.inFire s.down (downIn s i) i.ready = taken at moved ⊢
  generalize WidthDownConverter.outFire s.down (downIn s i) i.ready = given at moved ⊢
  cases taken <;> cases given <;> simpa using moved

theorem Holds.cycle_many (holds : Holds g s) (many : p.transfers ≠ 1) (start : i.start = false) :
    Holds (g.pushed p.transfers (accepted s i)) (next s i) ∧
      (delivered s i).toList ++ pending (next s i) =
        pending s ++ (g.completed p.transfers (accepted s i)).flatMap transposed := by
  obtain ⟨below,moved⟩ := holds.down_cycle (i := i) many start
  rw [moved]
  have up : (next s i).up =
      WidthUpConverter.next s.up false i.valid (part i.bits) (downReady s i) := by
    rw [next_of_many many,start]
  cases taken : accepted s i with
  | none =>
    have quiet : WidthUpConverter.inFire s.up i.valid (downReady s i) = false := by
      rw [accepted,if_neg many] at taken
      cases valid : i.valid <;> cases ready : WidthUpConverter.inReady s.up (downReady s i) <;>
        simp_all [WidthUpConverter.inFire,BusInput.offered]
    have closed : WidthDownConverter.inFire s.down (downIn s i) i.ready = none := by
      unfold WidthDownConverter.inFire downIn
      cases last : WidthUpConverter.atLast s.up <;> cases valid : i.valid <;>
        simp_all [WidthUpConverter.inFire,WidthUpConverter.inReady,WidthUpConverter.outValid,downReady]
    rw [closed]
    exact ⟨⟨up ▸ holds.up.idle quiet,below⟩,rfl⟩
  | some x =>
    rw [accepted,if_neg many] at taken
    obtain ⟨ready,offered⟩ := Option.ite_none_right_eq_some.mp taken
    obtain ⟨valid,rfl⟩ := offered_some offered
    have fires : WidthUpConverter.inFire s.up i.valid (downReady s i) = true := by
      simp [WidthUpConverter.inFire,valid,ready]
    by_cases whole : g.part.length + 1 = p.transfers
    · have last : WidthUpConverter.atLast s.up = true :=
        holds.up.atLast_iff.mpr (by simpa using whole)
      have open' : WidthDownConverter.inReady s.down i.ready = true := by
        simpa [WidthUpConverter.inReady,last,downReady] using ready
      have gives : WidthDownConverter.inFire s.down (downIn s i) i.ready =
          some (downBits (matrixOutput (matrixInput (upBits s i)))) := by
        simp [WidthDownConverter.inFire,open',downIn,WidthUpConverter.outValid,last,valid]
      have parts : (upBits s i).toList = (g.part ++ [i.bits]).map part := by
        rw [upBits,holds.up.outBits_last last,List.map_append]
        rfl
      have vacant : (g.push p.transfers i.bits).part = [] := by simp [Grouping.push,whole]
      rw [gives,Option.map_some,Option.getD_some,down_words parts]
      refine ⟨⟨?_,below⟩,by simp [Grouping.completed,whole]⟩
      rw [Grouping.pushed,vacant,up]
      exact holds.up.fire_last fires (by simpa using whole)
    · have early : WidthUpConverter.atLast s.up = false := by
        rw [← Bool.not_eq_true,holds.up.atLast_iff]
        simpa using whole
      have closed : WidthDownConverter.inFire s.down (downIn s i) i.ready = none := by
        simp [WidthDownConverter.inFire,downIn,WidthUpConverter.outValid,early]
      have more : (g.push p.transfers i.bits).part = g.part ++ [i.bits] := by
        simp [Grouping.push,whole]
      rw [closed]
      refine ⟨⟨?_,below⟩,by simp [Grouping.completed,whole]⟩
      rw [Grouping.pushed,more,up,List.map_append]
      exact holds.up.fire_more fires (by simpa using whole)

theorem Holds.cycle (holds : Holds g s) (start : i.start = false) :
    Holds (g.pushed p.transfers (accepted s i)) (next s i) ∧
      (delivered s i).toList ++ pending (next s i) =
        pending s ++ (g.completed p.transfers (accepted s i)).flatMap transposed := by
  by_cases direct : p.transfers = 1
  · exact holds.cycle_direct direct
  · exact holds.cycle_many direct start

/-! ### A stream -/

/-- The words of the matrices that have been accepted whole. -/
def matrices (p : TransposerParam) (words : List (Word p)) : List (List (Word p)) :=
  (Grouping.of p.transfers words).whole

/-- What the unit promises in a cycle. -/
structure TransposeContract (history : List (ExtOutput (Word p) (Word p))) (s : State p) (i : Input p) :
    Prop where
  words : deliveredWords history ++ pending s = (matrices p (acceptedWords history)).flatMap transposed
  flows : ∀ y rest, pending s = y :: rest → i.ready = true → delivered s i = some y
  takes : pending s = [] → i.ready = true → accepted s i = i.offered

/-- The state of a stream after a history. -/
def Streams (history : List (ExtOutput (Word p) (Word p))) (s : State p) : Prop :=
  Holds (Grouping.of p.transfers (acceptedWords history)) s ∧
    deliveredWords history ++ pending s = (matrices p (acceptedWords history)).flatMap transposed

theorem Streams.next {history : List (ExtOutput (Word p) (Word p))} (streams : Streams history s)
    (start : i.start = false) : Streams (history ++ [out s i]) (next s i) := by
  obtain ⟨holds,words⟩ := streams
  obtain ⟨holds',moved⟩ := holds.cycle (i := i) start
  have taken : (out s i).accepted = accepted s i := rfl
  have given : (out s i).delivered = delivered s i := rfl
  rw [Streams,matrices,acceptedWords_concat,deliveredWords_concat,Grouping.of_toList,taken,given,
    Grouping.pushed_whole]
  refine ⟨holds',?_⟩
  rw [List.append_assoc,moved,← List.append_assoc,words,List.flatMap_append]
  rfl

theorem flows {y : Word p} {rest : List (Word p)} (below : s.down.counter.toNat < p.transfers)
    (waits : pending s = y :: rest) (ready : i.ready = true) : delivered s i = some y := by
  by_cases direct : p.transfers = 1
  · simp [pending,direct] at waits
  · rw [pending,if_neg direct] at waits
    have busy : s.down.counter ≠ 0 := fun zero => by
      simp [WidthDownConverter.rest_of_zero zero] at waits
    have positive : 0 < s.down.counter.toNat := by
      rcases Nat.eq_zero_or_pos s.down.counter.toNat with zero | positive
      · exact absurd (BitVec.eq_of_toNat_eq (by simpa using zero)) busy
      · exact positive
    have inside : s.down.counter.toNat - 1 < s.down.storedData.toList.length := by
      rw [Vector.length_toList]
      omega
    rw [WidthDownConverter.rest_of_toNat positive,List.drop_eq_getElem_cons inside,
      List.map_cons] at waits
    rw [delivered,if_neg direct,WidthDownConverter.outFire,if_pos ready,WidthDownConverter.out,
      if_neg busy,List.getD_eq_getElem _ _ inside,Option.map_some,(List.cons.inj waits).1]

theorem takes (below : s.down.counter.toNat < p.transfers) (empty : pending s = [])
    (ready : i.ready = true) : accepted s i = i.offered := by
  by_cases direct : p.transfers = 1
  · rw [accepted,if_pos direct,if_pos ready]
  · rw [pending,if_neg direct,List.map_eq_nil_iff] at empty
    have zero : s.down.counter = 0 := by
      by_contra busy
      have nonzero : s.down.counter.toNat ≠ 0 := fun zero =>
        busy (BitVec.eq_of_toNat_eq (by simpa using zero))
      rw [WidthDownConverter.rest_of_toNat (by omega),List.drop_eq_nil_iff,Vector.length_toList] at empty
      omega
    have open' : downReady s i = true := by
      simp [downReady,WidthDownConverter.inReady,zero,ready]
    rw [accepted,if_neg direct,if_pos]
    rw [WidthUpConverter.inReady,open']
    exact ite_self true

theorem stream_run (fresh : Fresh s) {inputs : List (Input p)} (quiet : ∀ i ∈ inputs, i.start = false) :
    Streams ((transposerUnit p).outs s inputs) ((transposerUnit p).exec s inputs) :=
  Machine.run_rule_each Streams (Machine.Each.of_inputs quiet)
    ⟨fresh.holds,by simp [pending_fresh fresh,matrices]⟩ fun _ _ _ streams start => streams.next start

/-- A start pulse makes any state fresh. -/
theorem fresh_start (start : i.start = true) : Fresh (next s i) := by
  by_cases direct : p.transfers = 1
  · have narrow : ∀ x : BitVec (log2Ceil p.transfers), x = 0 := fun x => by
      have small := x.isLt
      have one : 2 ^ log2Ceil p.transfers = 1 := by rw [direct]; rfl
      exact BitVec.eq_of_toNat_eq (by simp; omega)
    exact ⟨narrow _,narrow _⟩
  · rw [next_of_many direct,start]
    constructor
    · simp [WidthUpConverter.next]
    · simp [WidthDownConverter.next]

/-! ### There and back -/

theorem matrices_spec (words : List (Word p)) :
    (matrices p words).flatten ++ (Grouping.of p.transfers words).part = words ∧
      (∀ m ∈ matrices p words, m.length = p.transfers) ∧
        (Grouping.of p.transfers words).part.length < p.transfers :=
  Grouping.of_spec (transfers_pos p) words

theorem transposed_back {m : List (Word p)} (whole : m.length = p.transfers) :
    transposed (p := p.swap) (transposed (p := p) m) = m.map (lowPart p.layout.used) := by
  have flipped : transposed (p := p.swap) (transposed (p := p) m) =
      p.layout.flip.transposed (transposed (p := p) m) :=
    eq_of_heq (MatrixLayout.transposed_heq p.swap_layout (heq_of_eq rfl))
  exact flipped.trans (p.layout.transposed_transposed whole)

theorem flatMap_back {ms : List (List (Word p))} (even : ∀ m ∈ ms, m.length = p.transfers) :
    (ms.map (transposed (p := p))).flatMap (transposed (p := p.swap)) =
      ms.flatten.map (lowPart p.layout.used) := by
  induction ms with
  | nil => rfl
  | cons m ms ih =>
    have back := transposed_back (even m List.mem_cons_self)
    have rest := ih fun x member => even x (List.mem_cons_of_mem _ member)
    rw [List.map_cons,List.flatMap_cons,List.flatten_cons,List.map_append,← back,← rest]

/-- The matrices of the words that come back are among those that went out. -/
theorem matrices_back {words : List (Word p)} {back : List (Word p.swap)}
    (link : back <+: (matrices p words).flatMap (transposed (p := p))) :
    matrices p.swap back <+: (matrices p words).map (transposed (p := p)) ∧
      (back = (matrices p words).flatMap (transposed (p := p)) →
        matrices p.swap back = (matrices p words).map (transposed (p := p))) := by
  obtain ⟨whole,even,short⟩ := matrices_spec back
  have same : p.swap.transfers = p.transfers := TransposerParam.transferPerTranspose_comm ..
  have even' : ∀ m ∈ matrices p.swap back, m.length = p.transfers := fun m member =>
    (even m member).trans same
  have short' := Nat.lt_of_lt_of_eq short same
  have sent : ∀ m ∈ (matrices p words).map (transposed (p := p)), m.length = p.transfers := by
    intro m member
    obtain ⟨g,_,rfl⟩ := List.mem_map.mp member
    exact p.layout.transposed_length g
  rw [List.flatMap_def] at link ⊢
  have front := Chunks.complete_prefix (transfers_pos p) even' sent (whole.symm ▸ link)
  refine ⟨front,fun all => front.eq_of_length ?_⟩
  have count := congrArg List.length (whole.trans all)
  rw [List.length_append,Chunks.length_flatten_of_even even',Chunks.length_flatten_of_even sent] at count
  have quotient := congrArg (· / p.transfers) count
  simpa [Nat.mul_add_div (transfers_pos p),Nat.div_eq_of_lt short',transfers_pos p] using quotient

/-- The words of the whole matrices, without the bits that hold no element. -/
def restored (p : TransposerParam) (words : List (Word p)) : List (Word p) :=
  (matrices p words).flatten.map (lowPart p.layout.used)

theorem restored_eq {words : List (Word p)} (full : ∀ x ∈ words, x.toNat < 2 ^ p.layout.used) :
    restored p words = (matrices p words).flatten := by
  refine (List.map_congr_left fun x member => lowPart_of_lt (full x ?_)).trans (List.map_id _)
  rw [← (matrices_spec words).1]
  exact List.mem_append_left _ member

/-- What a second unit, for the transposed matrices, makes of the words of the first. -/
structure Restores (words : List (Word p)) (given : List (Word p.swap)) (back : List (Word p)) :
    Prop where
  inOrder : back <+: restored p words
  complete : given = (matrices p words).flatMap (transposed (p := p)) → back = restored p words
  same : (∀ x ∈ words, x.toNat < 2 ^ p.layout.used) → restored p words = (matrices p words).flatten

theorem restores {words : List (Word p)} {given back : List (Word p.swap)}
    (link : given <+: (matrices p words).flatMap (transposed (p := p)))
    (law : back = (matrices p.swap given).flatMap (transposed (p := p.swap))) :
    Restores words given back := by
  obtain ⟨front,all⟩ := matrices_back link
  have whole : ((matrices p words).map (transposed (p := p))).flatMap (transposed (p := p.swap)) =
    restored p words := flatMap_back (matrices_spec words).2.1
  refine ⟨?_,fun complete => ?_,restored_eq⟩
  · rw [law,← whole]
    obtain ⟨rest,split⟩ := front
    rw [← split,List.flatMap_append]
    exact List.prefix_append _ _
  · rw [law,all complete]
    exact whole

/-- A fresh unit transposes its matrices in order, and a second one for the transposed
matrices, given what the first has delivered, turns them back. -/
theorem transposer_stream (p : TransposerParam) {s : State p} {inputs : List (Input p)} (fresh : Fresh s)
    (quiet : ∀ i ∈ inputs, i.start = false) :
    let history := (transposerUnit p).outs s inputs
    (transposerUnit p).Each TransposeContract s inputs ∧
      ∀ (s' : State p.swap) (inputs' : List (Input p.swap)), Fresh s' →
        (∀ i ∈ inputs', i.start = false) →
        let history' := (transposerUnit p.swap).outs s' inputs'
        acceptedWords history' <+: deliveredWords history →
          Restores (acceptedWords history) (acceptedWords history')
            (deliveredWords history' ++ pending ((transposerUnit p.swap).exec s' inputs')) := by
  intro history
  constructor
  · rintro before i after rfl
    obtain ⟨holds,words⟩ := stream_run fresh fun j member => quiet j (List.mem_append_left _ member)
    exact ⟨words,fun y rest waits ready => flows holds.down waits ready,
      fun empty ready => takes holds.down empty ready⟩
  · intro s' inputs' fresh' quiet' history' link
    obtain ⟨_,words⟩ := stream_run fresh quiet
    refine restores (link.trans ?_) (stream_run fresh' quiet').2
    rw [← words]
    exact List.prefix_append _ _

theorem fours_positive : 0 < elementPerTransfer 4 4 64 8 := by decide
theorem fours_exact : 64 = elementPerTransfer 4 4 64 8 * 8 := by decide
theorem fours_divide : transferPerTranspose 4 4 64 8 ∣ 4 := by decide

/-- Four rows and columns of bytes in two words. -/
def fours : TransposerParam where
  row := 4
  col := 4
  ioWidth := 64
  elementWidth := 8
  positive := fours_positive
  exact := fours_exact
  rowDivides := fours_divide
  colDivides := fours_divide

def foursFresh : State fours := ⟨⟨fun _ => fun _ _ => 0,0⟩,⟨Vector.replicate _ fun _ _ => 0,0⟩⟩

def foursWord (x : BitVec 64) : Input fours := ⟨(),false,true,x,true⟩

theorem transposer_stream_fours :
    let inputs := [foursWord 0x0706050403020100,foursWord 0x0F0E0D0C0B0A0908]
    let history := (transposerUnit fours).outs foursFresh inputs
    (transposerUnit fours).Each TransposeContract foursFresh inputs ∧
      ∀ (s' : State fours.swap) (inputs' : List (Input fours.swap)), Fresh s' →
        (∀ i ∈ inputs', i.start = false) →
        let history' := (transposerUnit fours.swap).outs s' inputs'
        acceptedWords history' <+: deliveredWords history →
          Restores (acceptedWords history) (acceptedWords history')
            (deliveredWords history' ++ pending ((transposerUnit fours.swap).exec s' inputs')) :=
  transposer_stream fours ⟨rfl,rfl⟩ (by simp [foursWord])

end TransposerUnit

end Snax
