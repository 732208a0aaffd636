import Mathlib.Algebra.Ring.Nat
import Mathlib.Algebra.Order.Ring.Int
import Snax.Arbiter
import Snax.DataPathExtension
import Snax.GroupCounter
import Snax.Sync.Scatter

/-! `RescaleDownEfficient.scala` and `Int32ToFP16.scala`: narrow elements are packed into an
output register over several input words, by the same counter and the same three hold signals. -/
namespace Snax

open Sync

/-- The widths of a narrowing unit. It counts one PE for 32 bits of a word, so that wider
elements would leave it short of PEs. -/
structure NarrowParam where
  inWidth : Nat
  outWidth : Nat
  dataWidth : Nat
  outPositive : 0 < outWidth
  narrower : outWidth < inWidth
  outDivides : outWidth ∣ inWidth
  inDivides : inWidth ∣ dataWidth
  inFits : inWidth ≤ 32

namespace NarrowParam

variable (p : NarrowParam)

abbrev In := Lanes (p.dataWidth / p.inWidth) p.inWidth
abbrev Out := Lanes (p.dataWidth / p.outWidth) p.outWidth

def numConversions : Nat := p.inWidth / p.outWidth

def numPEs : Nat := p.dataWidth / 32

def counterWidth : Nat := log2Ceil (p.numConversions * 32)

theorem inPositive : 0 < p.inWidth := Nat.zero_lt_of_lt p.narrower

theorem two_le_numConversions : 2 ≤ p.numConversions := by
  obtain ⟨k,same⟩ := p.outDivides
  have narrower := p.narrower
  rw [numConversions,same,Nat.mul_div_cancel_left k p.outPositive]
  rcases k with _ | _ | k
  · omega
  · omega
  · omega

theorem numPEs_le : p.numPEs ≤ p.dataWidth / p.inWidth :=
  Nat.div_le_div_left p.inFits p.inPositive

/-- All PEs over all conversions fill no more than an output word. -/
theorem packed_le : p.numConversions * p.numPEs ≤ p.dataWidth / p.outWidth := by
  rw [Nat.le_div_iff_mul_le p.outPositive]
  calc p.numConversions * p.numPEs * p.outWidth
      = p.inWidth / p.outWidth * p.outWidth * p.numPEs := Nat.mul_right_comm _ _ _
    _ = p.inWidth * p.numPEs := by rw [Nat.div_mul_cancel p.outDivides]
    _ ≤ 32 * p.numPEs := Nat.mul_le_mul_right _ p.inFits
    _ ≤ p.dataWidth := Nat.mul_div_le _ _

end NarrowParam

/-- What the two units have of their own: the ROM behind their CSR, and their PE. -/
structure Narrowing (κ : Type) (p : NarrowParam) where
  extraLoop : κ → Nat
  pe : κ → BitVec p.inWidth → BitVec p.outWidth

/-- `extra_loops_rom(index)`, which cuts the index to the width of the ROM. -/
def extraLoopsRom (choices : List Nat) (index : BitVec 32) : Nat :=
  choices.getD (index.toNat % 2 ^ log2Ceil choices.length) 0

/-- The `PriorityEncoder` over the reversed bits of a word. -/
def reversedEncoder (x : BitVec 32) : Nat :=
  (priorityEncoder (Fin.last 31) fun i => x.getMsbD i.val).val

/-- It finds the leading one. -/
theorem reversedEncoder_eq {x : BitVec 32} (nonzero : x ≠ 0) :
    reversedEncoder x = 31 - Nat.log2 x.toNat := by
  have some : x.toNat ≠ 0 := fun zero => nonzero (BitVec.eq_of_toNat_eq zero)
  have low : Nat.log2 x.toNat < 32 := (Nat.log2_lt some).mpr x.isLt
  have bit (k : Fin 32) : x.getMsbD k.val = x.toNat.testBit (31 - k.val) := by
    have inside := k.isLt
    rw [BitVec.getMsbD,decide_eq_true inside,Bool.true_and]
    rfl
  have place : 31 - (31 - Nat.log2 x.toNat) = Nat.log2 x.toNat := by omega
  have leading : x.getMsbD (31 - Nat.log2 x.toNat) = true := by
    rw [bit ⟨31 - Nat.log2 x.toNat,by omega⟩]
    simp only [place]
    exact Nat.testBit_log2 some
  have first : ∃ k : Fin 32, x.getMsbD k.val = true := ⟨⟨31 - Nat.log2 x.toNat,by omega⟩,leading⟩
  obtain ⟨set,least⟩ := priorityEncoder_spec (Fin.last 31) first
  refine Nat.le_antisymm (least ⟨31 - Nat.log2 x.toNat,by omega⟩ leading) ?_
  by_contra early
  have high := (bit _).symm.trans set
  rw [Nat.testBit_lt_two_pow] at high
  · contradiction
  · refine (Nat.log2_lt some).mp ?_
    unfold reversedEncoder at early
    omega

/-! ### The PEs -/

structure RescaleDownCsr where
  inputZp : BitVec 32
  multiplier : BitVec 32
  outputZp : BitVec 32
  shift : BitVec 32
  extraLoop : BitVec 32

namespace RescaleDownCsr

def usedBitsInMultiplier (csr : RescaleDownCsr) : BitVec 6 :=
  BitVec.ofNat 6 (32 - reversedEncoder csr.multiplier)

def fullBitsToShiftInput (csr : RescaleDownCsr) : BitVec 6 :=
  (9 + csr.shift.setWidth 33 - csr.usedBitsInMultiplier.setWidth 33 - 16).setWidth 6

def bitsToShiftInput (csr : RescaleDownCsr) : BitVec 5 :=
  if csr.fullBitsToShiftInput.slt 0 then 0 else csr.fullBitsToShiftInput.setWidth 5

def fullBitsToShiftMultiplier (csr : RescaleDownCsr) : BitVec 6 := csr.usedBitsInMultiplier - 16

def bitsToShiftMultiplier (csr : RescaleDownCsr) : BitVec 5 :=
  if csr.fullBitsToShiftMultiplier.slt 0 then 0 else csr.fullBitsToShiftMultiplier.setWidth 5

def preShiftedMultiplier (csr : RescaleDownCsr) : BitVec 16 :=
  (csr.multiplier >>> csr.bitsToShiftMultiplier.toNat).setWidth 16

def postShift (csr : RescaleDownCsr) : BitVec 5 :=
  (csr.shift - csr.bitsToShiftInput.setWidth 32 - csr.bitsToShiftMultiplier.setWidth 32).setWidth 5

def thirtyOneMinusShifts (csr : RescaleDownCsr) : BitVec 6 :=
  31 - csr.bitsToShiftInput.setWidth 6 - csr.bitsToShiftMultiplier.setWidth 6

def doubleRoundingAccount (csr : RescaleDownCsr) : BitVec 32 :=
  if (1 : BitVec 6).slt csr.thirtyOneMinusShifts then 1 <<< (csr.thirtyOneMinusShifts - 1).toNat else 0

end RescaleDownCsr

namespace RescaleDownEfficientPE

variable {w : Nat} (csr : RescaleDownCsr) (x : BitVec w)

def zeroCompensated : BitVec w :=
  (x.signExtend (max w 32) - csr.inputZp.signExtend (max w 32)).setWidth w

def preShifted : BitVec 16 :=
  ((zeroCompensated csr x).sshiftRight csr.bitsToShiftInput.toNat).signExtend 16

def multiplied : BitVec 32 := (preShifted csr x).signExtend 32 * csr.preShiftedMultiplier.setWidth 32

/-- `post_shift - 1` wraps in the five bits of the port. -/
def shiftedOne : BitVec 32 := 1 <<< (csr.postShift - 1).toNat

def shifted : BitVec 32 := multiplied csr x + shiftedOne csr

def scaled32 : BitVec 32 :=
  if (0 : BitVec w).slt (zeroCompensated csr x) then shifted csr x + csr.doubleRoundingAccount
  else shifted csr x - csr.doubleRoundingAccount

def correctShiftValue : BitVec 32 :=
  if csr.thirtyOneMinusShifts.slt (csr.postShift.setWidth 6) then scaled32 csr x else shifted csr x

/-- The port of the output zero point has eight bits. -/
def zeroCompensatedOut : BitVec 32 :=
  (correctShiftValue csr x).sshiftRight csr.postShift.toNat + (csr.outputZp.setWidth 8).signExtend 32

def dataOut (v : Nat) : BitVec v :=
  if (2 ^ (v - 1) : Int) ≤ (zeroCompensatedOut csr x).toInt then BitVec.ofInt v (2 ^ (v - 1) - 1)
  else if (zeroCompensatedOut csr x).toInt < -2 ^ (v - 1) then BitVec.ofInt v (-2 ^ (v - 1))
  else (zeroCompensatedOut csr x).signExtend v

end RescaleDownEfficientPE

namespace Int32ToFp16PE

variable (x : BitVec 32)

def abs : BitVec 32 := if x.slt 0 then -x else x

def msbIndex : BitVec 5 := 31 - BitVec.ofNat 5 (reversedEncoder (abs x))

def magNorm : BitVec 32 := abs x <<< (31 - msbIndex x).toNat

def frac : BitVec 10 := (magNorm x).extractLsb' 21 10

/-- Round to nearest, ties to even. -/
def increment : Bool :=
  (magNorm x).getLsbD 20 &&
    ((magNorm x).getLsbD 19 || (magNorm x).extractLsb' 0 19 != 0 || (frac x).getLsbD 0)

def fracPlus : BitVec 11 := (frac x).setWidth 11 + (BitVec.ofBool (increment x)).setWidth 11

def mantOverflow : Bool := (fracPlus x).getLsbD 10

def fracRounded : BitVec 10 := if mantOverflow x then 0 else (fracPlus x).setWidth 10

def expRounded : BitVec 6 :=
  let pre := (msbIndex x).setWidth 6 + 15
  if mantOverflow x then pre + 1 else pre

def out : BitVec 16 :=
  if abs x == 0 then BitVec.ofBool x.msb ++ (0 : BitVec 15)
  else if 31 ≤ (expRounded x).toNat then BitVec.ofBool x.msb ++ (31 : BitVec 5) ++ (0 : BitVec 10)
  else BitVec.ofBool x.msb ++ (expRounded x).setWidth 5 ++ fracRounded x

end Int32ToFp16PE

/-! ### The packing -/

namespace BatchPacking

structure State (p : NarrowParam) where
  value : BitVec p.counterWidth
  regs : p.Out
  dataValid : Bool
  keepDataValid : Bool

variable {κ : Type} {p : NarrowParam} (u : Narrowing κ p)

/-- The words of a group: `numConversions * extra_loop`. -/
def size (csr : κ) : Nat := p.numConversions * u.extraLoop csr

def effectivePEs (csr : κ) : Nat := p.numPEs / u.extraLoop csr

/-- `reg_index` of PE `i`. -/
def regIndex (csr : κ) (value : BitVec p.counterWidth) (i : Nat) : Nat :=
  value.toNat / p.numConversions * p.numConversions * effectivePEs u csr +
    value.toNat % p.numConversions * effectivePEs u csr + i

def outValid (s : State p) : Bool := s.dataValid || s.keepDataValid

def inReady (s : State p) (i : ExtInput κ p.In) : Bool :=
  !(outValid s && !i.ready) && !s.keepDataValid

def accepted (s : State p) (i : ExtInput κ p.In) : Option p.In := if inReady s i then i.data else none

def atLast (s : State p) (csr : κ) : Bool := s.value.toNat == size u csr - 1

def updatePrevious (s : State p) (i : ExtInput κ p.In) : Bool :=
  (accepted s i).isSome && !atLast u s i.csr

/-- The last word of a group is taken by its valid alone. -/
def updateFinal (s : State p) (i : ExtInput κ p.In) : Bool := i.data.isSome && atLast u s i.csr

/-- Only the first `effectivePEs` PEs store their results. -/
def writes (csr : κ) (value : BitVec p.counterWidth) (x : p.In) : List (Write (BitVec p.outWidth)) :=
  ((List.finRange (p.dataWidth / p.inWidth)).filter fun i => i.val < effectivePEs u csr).map fun i =>
    ⟨regIndex u csr value i.val,u.pe csr (x i)⟩

def nextRegs (s : State p) (i : ExtInput κ p.In) : p.Out :=
  match i.data with
  | none => s.regs
  | some x =>
    if updatePrevious u s i || updateFinal u s i then scatter s.regs (writes u i.csr s.value x)
    else s.regs

def ceil (csr : κ) : BitVec p.counterWidth := BitVec.ofNat _ (size u csr)

def next (s : State p) (i : ExtInput κ p.In) : State p where
  value := BasicCounter.next true i.start (accepted s i).isSome (ceil u i.csr) s.value
  regs := nextRegs u s i
  dataValid := updateFinal u s i
  keepDataValid := outValid s && !i.ready

def out (s : State p) (i : ExtInput κ p.In) : ExtOutput p.In p.Out where
  accepted := accepted s i
  delivered := if outValid s && i.ready then some s.regs else none
  busy := s.value != 0 || i.data.isSome

/-- `data_valid` has no reset value, but no word is the last of a group during the reset. -/
def initial (p : NarrowParam) : State p := ⟨0,fun _ => 0,false,false⟩

def machine : Machine (State p) (ExtInput κ p.In) (ExtOutput p.In p.Out) where
  next := next u
  out := out


variable {u} {csr : κ} {s : State p} {i : ExtInput κ p.In} {g : Grouping p.In}
  {value : BitVec p.counterWidth}

/-! ### The counter -/

/-- The choices of `extra_loop` the unit is made for. -/
structure Proper (u : Narrowing κ p) (csr : κ) : Prop where
  positive : 0 < u.extraLoop csr
  fits : u.extraLoop csr ≤ 32
  divides : u.extraLoop csr ∣ p.numPEs

theorem two_le_size (proper : Proper u csr) : 2 ≤ size u csr :=
  calc 2 ≤ p.numConversions * 1 := by simpa using p.two_le_numConversions
    _ ≤ size u csr := Nat.mul_le_mul_left _ proper.positive

theorem size_le (proper : Proper u csr) : size u csr ≤ 2 ^ p.counterWidth :=
  (Nat.mul_le_mul_left _ proper.fits).trans (le_two_pow_log2Ceil _)

theorem lastIndex_ceil (proper : Proper u csr) : lastIndex (ceil u csr) = size u csr - 1 := by
  have two := two_le_size proper
  have fits := size_le proper
  have wide : 0 < p.counterWidth := by
    by_contra narrow
    rw [Nat.eq_zero_of_not_pos narrow] at fits
    omega
  have same : ceil u csr = BitVec.ofNat p.counterWidth (size u csr - 1 + 1) := by
    rw [Nat.sub_add_cancel (by omega)]
    rfl
  rw [same]
  exact lastIndex_ofNat_succ _ wide (by omega)

/-- The index of a PE goes on from conversion to conversion and from batch to batch. -/
theorem regIndex_eq (value : BitVec p.counterWidth) (i : Nat) :
    regIndex u csr value i = value.toNat * effectivePEs u csr + i := by
  have parts := Nat.div_add_mod' value.toNat p.numConversions
  rw [regIndex,← Nat.add_mul,parts]

/-- All blocks of a group fit into the output word. -/
theorem block_le (proper : Proper u csr) {k : Nat} (inside : k < size u csr) :
    k * effectivePEs u csr + effectivePEs u csr ≤ p.dataWidth / p.outWidth :=
  calc k * effectivePEs u csr + effectivePEs u csr
      = (k + 1) * effectivePEs u csr := (Nat.succ_mul _ _).symm
    _ ≤ p.numConversions * u.extraLoop csr * effectivePEs u csr := Nat.mul_le_mul_right _ inside
    _ = p.numConversions * p.numPEs := by
        rw [Nat.mul_assoc,effectivePEs,Nat.mul_div_cancel' proper.divides]
    _ ≤ p.dataWidth / p.outWidth := p.packed_le

theorem effectivePEs_le : effectivePEs u csr ≤ p.dataWidth / p.inWidth :=
  (Nat.div_le_self _ _).trans p.numPEs_le

/-! ### The output register -/

/-- The blocks of an output word are the first elements of the words of a group, converted. -/
def IsPacked (u : Narrowing κ p) (csr : κ) (g : List p.In) (y : p.Out) : Prop :=
  ∀ k x, g[k]? = some x → ∀ i, i < effectivePEs u csr →
    ∃ (a : i < p.dataWidth / p.inWidth) (b : k * effectivePEs u csr + i < p.dataWidth / p.outWidth),
      y ⟨_,b⟩ = u.pe csr (x ⟨i,a⟩)

theorem writes_once (value : BitVec p.counterWidth) (x : p.In) :
    ((writes u csr value x).map Write.index).Nodup := by
  rw [writes,List.map_map]
  refine List.Nodup.map_on ?_ ((List.nodup_finRange _).filter _)
  intro i _ j _ same
  have place : regIndex u csr value i.val = regIndex u csr value j.val := same
  rw [regIndex_eq,regIndex_eq] at place
  exact Fin.ext (by omega)

/-- A word goes to the block of the counter's value. -/
theorem scatter_block (regs : p.Out) {value : BitVec p.counterWidth} {x : p.In} {i : Nat}
    (inside : i < effectivePEs u csr) (a : i < p.dataWidth / p.inWidth)
    (b : value.toNat * effectivePEs u csr + i < p.dataWidth / p.outWidth) :
    scatter regs (writes u csr value x) ⟨_,b⟩ = u.pe csr (x ⟨i,a⟩) := by
  refine scatter_mem (w := ⟨regIndex u csr value i,u.pe csr (x ⟨i,a⟩)⟩) regs (writes_once value x) ?_ ?_
  · refine List.mem_map.mpr ⟨⟨i,a⟩,List.mem_filter.mpr ⟨List.mem_finRange _,?_⟩,rfl⟩
    exact decide_eq_true inside
  · exact (regIndex_eq value i).symm

/-- The blocks before it stay. -/
theorem scatter_before (regs : p.Out) {value : BitVec p.counterWidth} {x : p.In}
    {r : Fin (p.dataWidth / p.outWidth)} (before : r.val < value.toNat * effectivePEs u csr) :
    scatter regs (writes u csr value x) r = regs r := by
  refine scatter_other regs fun w member => ?_
  obtain ⟨i,_,rfl⟩ := List.mem_map.mp member
  dsimp only
  rw [regIndex_eq]
  omega

theorem packed_push (proper : Proper u csr) {part : List p.In} {regs : p.Out}
    (packed : IsPacked u csr part regs) (count : value.toNat = part.length)
    (short : part.length < size u csr) (x : p.In) :
    IsPacked u csr (part ++ [x]) (scatter regs (writes u csr value x)) := by
  intro k y kth i inside
  have a : i < p.dataWidth / p.inWidth := Nat.lt_of_lt_of_le inside effectivePEs_le
  rcases Nat.lt_trichotomy k part.length with earlier | rfl | later
  · rw [List.getElem?_append_left earlier] at kth
    obtain ⟨a,b,same⟩ := packed k y kth i inside
    refine ⟨a,b,(scatter_before regs ?_).trans same⟩
    calc k * effectivePEs u csr + i < (k + 1) * effectivePEs u csr := by
          rw [Nat.succ_mul]
          omega
      _ ≤ value.toNat * effectivePEs u csr := Nat.mul_le_mul_right _ (count ▸ earlier)
  · rw [List.getElem?_concat_length,Option.some_inj] at kth
    have room := block_le proper short
    subst kth
    refine ⟨a,by omega,?_⟩
    have b : value.toNat * effectivePEs u csr + i < p.dataWidth / p.outWidth := by
      rw [count]
      omega
    have place : scatter regs (writes u csr value x) ⟨_,b⟩ = u.pe csr (x ⟨i,a⟩) :=
      scatter_block regs inside a b
    simpa only [count] using place
  · rw [List.getElem?_eq_none (by simp; omega)] at kth
    contradiction

/-! ### The hold signals -/

/-- The word that waits to leave. -/
def held (s : State p) : Option p.Out := if outValid s then some s.regs else none

/-- The counter is at the start of a group while a word waits. -/
def Free (s : State p) : Prop := outValid s = true → s.value = 0

theorem not_outValid_of_last (free : Free s) (proper : Proper u csr) (last : atLast u s csr = true) :
    outValid s = false := by
  rw [← Bool.not_eq_true]
  intro valid
  have two := two_le_size proper
  rw [atLast,beq_iff_eq,free valid] at last
  simp at last
  omega

theorem accepted_of_not_outValid (empty : outValid s = false) : accepted s i = i.data := by
  have keep : s.keepDataValid = false := by
    rw [outValid,Bool.or_eq_false_iff] at empty
    exact empty.2
  simp [accepted,inReady,empty,keep]

/-- The valid of the last word is as good as its handshake. -/
theorem updateFinal_eq (free : Free s) (proper : Proper u i.csr) :
    updateFinal u s i = ((accepted s i).isSome && atLast u s i.csr) := by
  cases last : atLast u s i.csr with
  | false => simp [updateFinal,last]
  | true =>
    rw [updateFinal,last,accepted_of_not_outValid (not_outValid_of_last free proper last)]

theorem nextRegs_eq (free : Free s) (proper : Proper u i.csr) :
    nextRegs u s i =
      ((accepted s i).elim s.regs fun x => scatter s.regs (writes u i.csr s.value x)) := by
  have final := updateFinal_eq free proper
  have moves : (updatePrevious u s i || updateFinal u s i) = (accepted s i).isSome := by
    rw [final,updatePrevious]
    cases (accepted s i).isSome <;> cases atLast u s i.csr <;> rfl
  unfold nextRegs
  rw [moves]
  cases data : i.data with
  | none => simp [accepted,data]
  | some x =>
    cases ready : inReady s i <;> simp [accepted,ready,data]

/-- A refused word leaves counter and register alone. -/
theorem accepted_of_stalled (valid : outValid s = true) (stalled : i.ready = false) :
    accepted s i = none := by simp [accepted,inReady,valid,stalled]

theorem Free.next (free : Free s) (proper : Proper u i.csr) : Free (next u s i) := by
  intro valid
  change BasicCounter.next true i.start (accepted s i).isSome (ceil u i.csr) s.value = 0
  rcases Bool.or_eq_true_iff.mp valid with final | keep
  · have taken : ((accepted s i).isSome && atLast u s i.csr) = true :=
      (updateFinal_eq free proper).symm.trans final
    obtain ⟨some,last⟩ := Bool.and_eq_true_iff.mp taken
    have value : s.value.toNat = size u i.csr - 1 := by simpa [atLast] using last
    simp [BasicCounter.next,some,lastIndex_ceil proper,value]
  · obtain ⟨valid,stalled⟩ := Bool.and_eq_true_iff.mp keep
    have refused := accepted_of_stalled (i := i) valid (by simpa using stalled)
    simp [BasicCounter.next,refused,free valid]

theorem free_exec {past : List (ExtInput κ p.In)} (earlier : ∀ i ∈ past, Proper u i.csr) :
    Free ((machine u).exec (initial p) past) :=
  Machine.run_rule_each (fun _ s => Free s) (Machine.Each.of_inputs earlier)
    (fun valid => absurd valid (by simp [outValid,initial])) fun _ _ _ free proper => free.next proper

/-! ### A group -/

/-- The state with the incomplete group `g` behind it. -/
structure Holds (u : Narrowing κ p) (csr : κ) (g : Grouping p.In) (s : State p) : Prop where
  free : Free s
  count : s.value.toNat = g.part.length
  short : g.part.length < size u csr
  blocks : IsPacked u csr g.part s.regs

theorem Holds.atLast_iff (holds : Holds u csr g s) :
    atLast u s csr = true ↔ g.part.length + 1 = size u csr := by
  have count := holds.count
  have short := holds.short
  rw [atLast,beq_iff_eq]
  omega

/-- With no word taken, a word that waits stays or leaves. -/
theorem Holds.pass (holds : Holds u csr g s) (proper : Proper u csr) (stable : i.csr = csr)
    (start : i.start = false) (refused : accepted s i = none) :
    Holds u csr g (next u s i) ∧
      (out s i).delivered.toList ++ (held (next u s i)).toList = (held s).toList := by
  have proper' : Proper u i.csr := stable ▸ proper
  have final : updateFinal u s i = false := by simp [updateFinal_eq holds.free proper',refused]
  have regs : (next u s i).regs = s.regs := by
    change nextRegs u s i = s.regs
    rw [nextRegs_eq holds.free proper',refused]
    rfl
  have value : (next u s i).value = s.value := by
    change BasicCounter.next true i.start (accepted s i).isSome (ceil u i.csr) s.value = s.value
    simp [start,refused]
  refine ⟨⟨holds.free.next proper',value ▸ holds.count,holds.short,regs ▸ holds.blocks⟩,?_⟩
  have waits : outValid (next u s i) = (outValid s && !i.ready) := by
    change (updateFinal u s i || (outValid s && !i.ready)) = _
    rw [final,Bool.false_or]
  cases valid : outValid s <;> cases ready : i.ready <;>
    simp [out,held,valid,ready,waits,regs]

/-- A word is taken while none waits, or while the one that waits leaves. -/
theorem Holds.take (holds : Holds u csr g s) (proper : Proper u csr) (stable : i.csr = csr)
    (start : i.start = false) {x : p.In} (taken : accepted s i = some x) :
    Holds u csr (g.push (size u csr) x) (next u s i) ∧
      ∃ outs, List.Forall₂ (IsPacked u csr) (g.completed (size u csr) (some x)) outs ∧
        (out s i).delivered.toList ++ (held (next u s i)).toList = (held s).toList ++ outs := by
  subst stable
  have regs : (next u s i).regs = scatter s.regs (writes u i.csr s.value x) := by
    change nextRegs u s i = _
    rw [nextRegs_eq holds.free proper,taken]
    rfl
  have value : (next u s i).value.toNat = (g.push (size u i.csr) x).part.length := by
    change (BasicCounter.next true i.start (accepted s i).isSome (ceil u i.csr) s.value).toNat = _
    rw [start,taken]
    exact tick_push (lastIndex_ceil proper) (size_le proper) holds.count holds.short x
  have packed := packed_push proper holds.blocks holds.count holds.short x
  have moves : (outValid s && !i.ready) = false := by
    rw [← Bool.not_eq_true]
    intro stalled
    obtain ⟨valid,stalled⟩ := Bool.and_eq_true_iff.mp stalled
    rw [accepted_of_stalled valid (by simpa using stalled)] at taken
    contradiction
  have leaves : (out s i).delivered = held s := by
    cases valid : outValid s <;> cases ready : i.ready <;> simp_all [out,held]
  have waits : outValid (next u s i) = atLast u s i.csr := by
    change (updateFinal u s i || (outValid s && !i.ready)) = _
    simp [updateFinal_eq holds.free proper,taken,moves]
  have free := holds.free.next proper
  have two := two_le_size proper
  by_cases whole : g.part.length + 1 = size u i.csr
  · have vacant : (g.push (size u i.csr) x).part = [] := by simp [Grouping.push,whole]
    refine ⟨⟨free,value,by rw [vacant]; exact Nat.zero_lt_of_lt two,?_⟩,[(next u s i).regs],?_,?_⟩
    · rw [vacant]
      intro k y kth
      simp at kth
    · simp only [Grouping.completed,whole,↓reduceIte]
      exact List.forall₂_cons.mpr ⟨regs ▸ packed,.nil⟩
    · have last := waits.trans (holds.atLast_iff.mpr whole)
      have word : held (next u s i) = some (next u s i).regs := if_pos last
      rw [leaves,word]
      rfl
  · have more : (g.push (size u i.csr) x).part = g.part ++ [x] := by simp [Grouping.push,whole]
    have short := holds.short
    refine ⟨⟨free,value,?_,?_⟩,[],?_,?_⟩
    · rw [more,List.length_append,List.length_singleton]
      omega
    · rw [more,regs]
      exact packed
    · simp only [Grouping.completed,whole,↓reduceIte]
      exact .nil
    · have early : outValid (next u s i) = false := by
        rw [waits,← Bool.not_eq_true,holds.atLast_iff]
        exact whole
      have none : held (next u s i) = none := by simp [held,early]
      rw [leaves,none]
      rfl

theorem Holds.cycle (holds : Holds u csr g s) (proper : Proper u csr) (stable : i.csr = csr)
    (start : i.start = false) :
    Holds u csr (g.pushed (size u csr) (accepted s i)) (next u s i) ∧
      ∃ outs, List.Forall₂ (IsPacked u csr) (g.completed (size u csr) (accepted s i)) outs ∧
        (out s i).delivered.toList ++ (held (next u s i)).toList = (held s).toList ++ outs := by
  cases taken : accepted s i with
  | none =>
    obtain ⟨holds',words⟩ := holds.pass proper stable start taken
    exact ⟨holds',[],.nil,by simpa using words⟩
  | some x => exact holds.take proper stable start taken

/-- The words that leave are the full groups, packed, behind the word that waited at first. -/
def InOrder (u : Narrowing κ p) (csr : κ) (first : Option p.Out) (history : List (ExtOutput p.In p.Out))
    (s : State p) : Prop :=
  ∃ outs, List.Forall₂ (IsPacked u csr) (Grouping.of (size u csr) (acceptedWords history)).whole outs ∧
    deliveredWords history ++ (held s).toList = first.toList ++ outs

/-- What the unit promises in a cycle of a stream that began with `first` waiting. -/
structure PackContract (u : Narrowing κ p) (csr : κ) (first : Option p.Out)
    (history : List (ExtOutput p.In p.Out)) (s : State p) (i : ExtInput κ p.In) : Prop where
  words : InOrder u csr first history s
  leaves : (out s i).delivered = if i.ready then held s else none
  stalled : ∀ y, held s = some y → i.ready = false → accepted s i = none ∧ held (next u s i) = some y
  flows : held s = none → accepted s i = i.data

theorem Holds.stalled (holds : Holds u csr g s) (proper : Proper u csr) (stable : i.csr = csr)
    {y : p.Out} (waits : held s = some y) (stalled : i.ready = false) :
    accepted s i = none ∧ held (next u s i) = some y := by
  have valid : outValid s = true := by
    by_contra empty
    simp [held,empty] at waits
  have refused := accepted_of_stalled (i := i) valid stalled
  have regs : (next u s i).regs = s.regs := by
    change nextRegs u s i = s.regs
    rw [nextRegs_eq holds.free (stable ▸ proper),refused]
    rfl
  have still : outValid (next u s i) = true := by
    change (updateFinal u s i || (outValid s && !i.ready)) = true
    simp [valid,stalled]
  rw [held,if_pos valid] at waits
  refine ⟨refused,?_⟩
  rw [held,if_pos still,regs,waits]

theorem Holds.contract {first : Option p.Out} {history : List (ExtOutput p.In p.Out)}
    (holds : Holds u csr g s) (proper : Proper u csr) (stable : i.csr = csr)
    (words : InOrder u csr first history s) :
    PackContract u csr first history s i := by
  refine ⟨words,?_,fun y waits stall => holds.stalled proper stable waits stall,fun empty => ?_⟩
  · cases valid : outValid s <;> cases ready : i.ready <;> simp [out,held,valid,ready]
  · refine accepted_of_not_outValid ?_
    rw [← Bool.not_eq_true]
    intro valid
    simp [held,valid] at empty

/-- The state of a stream after a history. -/
def Streams (u : Narrowing κ p) (csr : κ) (first : Option p.Out) (history : List (ExtOutput p.In p.Out))
    (s : State p) : Prop :=
  Holds u csr (Grouping.of (size u csr) (acceptedWords history)) s ∧ InOrder u csr first history s

theorem Streams.next {first : Option p.Out} {history : List (ExtOutput p.In p.Out)}
    (streams : Streams u csr first history s) (proper : Proper u csr) (stable : i.csr = csr)
    (start : i.start = false) : Streams u csr first (history ++ [out s i]) (next u s i) := by
  obtain ⟨holds,outs,packed,words⟩ := streams
  obtain ⟨holds',more,packed',moved⟩ := holds.cycle proper stable start
  have taken : (out s i).accepted = accepted s i := rfl
  rw [Streams,InOrder,acceptedWords_concat,deliveredWords_concat,Grouping.of_toList,taken,
    Grouping.pushed_whole]
  refine ⟨holds',outs ++ more,List.rel_append packed packed',?_⟩
  rw [List.append_assoc,moved,← List.append_assoc,words,List.append_assoc]

/-- A stream from a cleared counter. -/
theorem stream_run (proper : Proper u csr) (free : Free s) (fresh : s.value = 0)
    {stream : List (ExtInput κ p.In)} (stable : ∀ i ∈ stream, i.csr = csr ∧ i.start = false) :
    (machine u).Each (PackContract u csr (held s)) s stream := by
  have each := Machine.Each.of_inputs (m := machine u) (s := s) stable
  have holds : Holds u csr (Grouping.of (size u csr) ([] : List p.In)) s :=
    ⟨free,by simp [fresh],Nat.zero_lt_of_lt (two_le_size proper),fun k x kth => by simp at kth⟩
  have run := Machine.each_of_run_rule (Streams u csr (held s)) each ⟨holds,[],.nil,by simp⟩
    fun _ _ _ streams quiet => streams.next proper quiet.1 quiet.2
  exact (run.and each).mono fun _ _ _ both => both.1.1.contract proper both.2.1 both.1.2

theorem start_value {first : ExtInput κ p.In} (start : first.start = true) :
    (next u s first).value = 0 := by simp [next,start]

end BatchPacking

/-! ### The two units -/

theorem fp16_narrower : 16 < 32 := Nat.lt_of_sub_eq_succ rfl
theorem fp16_positive : 0 < 16 := Nat.succ_pos 15
theorem fp16_divides : 16 ∣ 32 := ⟨2,rfl⟩
theorem fp16_fits : 32 ≤ 32 := Nat.le_refl 32

def int32ToFp16Param (dataWidth : Nat) (whole : 32 ∣ dataWidth) : NarrowParam where
  inWidth := 32
  outWidth := 16
  dataWidth := dataWidth
  outPositive := fp16_positive
  narrower := fp16_narrower
  outDivides := fp16_divides
  inDivides := whole
  inFits := fp16_fits

inductive BatchConverter where
  | rescaleDownEfficientDynamic (p : NarrowParam) (extraLoopsChoice : List Nat)
  | int32ToFp16Converter (dataWidth : Nat) (whole : 32 ∣ dataWidth) (extraLoopsChoice : List Nat)

namespace BatchConverter

def Csr : BatchConverter → Type
  | rescaleDownEfficientDynamic _ _ => RescaleDownCsr
  | int32ToFp16Converter _ _ _ => BitVec 32

def param : BatchConverter → NarrowParam
  | rescaleDownEfficientDynamic p _ => p
  | int32ToFp16Converter dataWidth whole _ => int32ToFp16Param dataWidth whole

def narrowing : (c : BatchConverter) → Narrowing c.Csr c.param
  | rescaleDownEfficientDynamic p choices =>
    ⟨fun csr => extraLoopsRom choices csr.extraLoop,
      fun csr x => RescaleDownEfficientPE.dataOut csr x p.outWidth⟩
  | int32ToFp16Converter _ _ choices =>
    ⟨fun csr => extraLoopsRom choices csr,fun _ x => Int32ToFp16PE.out x⟩

open BatchPacking

/-- From a start pulse on, after any cycles, the words of the stream leave in packed groups. -/
theorem batch_packing (c : BatchConverter) {csr : c.Csr} {past stream : List (ExtInput c.Csr c.param.In)}
    {first : ExtInput c.Csr c.param.In} (earlier : ∀ i ∈ past, Proper c.narrowing i.csr)
    (proper : Proper c.narrowing csr) (pulse : first.csr = csr ∧ first.start = true)
    (stable : ∀ i ∈ stream, i.csr = csr ∧ i.start = false) :
    let s := (machine c.narrowing).exec (initial c.param) (past ++ [first])
    (machine c.narrowing).Each (PackContract c.narrowing csr (held s)) s stream := by
  have free : Free ((machine c.narrowing).exec (initial c.param) (past ++ [first])) := by
    refine free_exec fun i member => ?_
    rcases List.mem_append.mp member with old | new
    · exact earlier i old
    · rw [List.mem_singleton.mp new,pulse.1]
      exact proper
  refine stream_run proper free ?_ stable
  rw [Machine.exec_append]
  exact start_value pulse.2

/-- Two elements in a word, converted in one loop or in two. -/
def twoLanes : BatchConverter := .int32ToFp16Converter 64 ⟨2,rfl⟩ [1,2]

/-- The second choice: a group of four words. -/
def twoLoops (start : Bool) (data : Option twoLanes.param.In) :
    ExtInput twoLanes.Csr twoLanes.param.In :=
  ⟨(1 : BitVec 32),start,data,true⟩

theorem twoLoops_proper : Proper twoLanes.narrowing (1 : BitVec 32) := ⟨by decide,by decide,by decide⟩

theorem batch_packing_twoLoops :
    (machine twoLanes.narrowing).Each
      (PackContract twoLanes.narrowing (1 : BitVec 32)
        (held ((machine twoLanes.narrowing).exec (initial twoLanes.param) ([] ++ [twoLoops true none]))))
      ((machine twoLanes.narrowing).exec (initial twoLanes.param) ([] ++ [twoLoops true none]))
      (List.replicate 5 (twoLoops false (some fun _ => 3))) :=
  batch_packing twoLanes (fun _ member => absurd member List.not_mem_nil) twoLoops_proper ⟨rfl,rfl⟩
    fun _ member => (List.eq_of_mem_replicate member) ▸ ⟨rfl,rfl⟩

end BatchConverter
end Snax
