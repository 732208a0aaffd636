import Snax.BatchPacking
import Snax.RescaleGolden

/-! `RescaleDown.scala`, the exact unit: the results of all words of a group but the last wait
in registers, and those of the last one join them on the output bus in the same cycle. -/
namespace Snax

open Sync

structure RescaleDownExactCsr where
  inputZp : BitVec 32
  multiplier : BitVec 32
  outputZp : BitVec 32
  shift : BitVec 32

namespace RescaleDownPE

variable {w : Nat} (csr : RescaleDownExactCsr) (x : BitVec w)

def zeroCompensated : BitVec w :=
  (x.signExtend (max w 32) - csr.inputZp.signExtend (max w 32)).setWidth w

def multiplied : BitVec (w + 32) :=
  ((zeroCompensated csr x).signExtend (w + 33) * csr.multiplier.setWidth (w + 33)).setWidth (w + 32)

/-- `shift - 1` wraps in the eight bits of the port. -/
def shiftedOne : BitVec (w + 32) := BitVec.ofNat _ (2 ^ (csr.shift.setWidth 8 - 1).toNat)

def shifted : BitVec (w + 32) := multiplied csr x + shiftedOne csr

/-- Double rounding. -/
def scaled32 : BitVec (w + 32) :=
  if (zeroCompensated csr x).slt 0 then shifted csr x - BitVec.ofNat _ (2 ^ 30)
  else shifted csr x + BitVec.ofNat _ (2 ^ 30)

def correctShiftValue : BitVec (w + 32) :=
  if 31 < (csr.shift.setWidth 8).toNat then scaled32 csr x else shifted csr x

def shiftedValue : BitVec (w + 32) := (correctShiftValue csr x).sshiftRight (csr.shift.setWidth 8).toNat

def zeroCompensatedOut : BitVec w :=
  (((shiftedValue csr x).setWidth w).signExtend (max w 32) +
    csr.outputZp.signExtend (max w 32)).setWidth w

def dataOut (v : Nat) : BitVec v :=
  if (2 ^ (v - 1) : Int) ≤ (zeroCompensatedOut csr x).toInt then BitVec.ofInt v (2 ^ (v - 1) - 1)
  else if (zeroCompensatedOut csr x).toInt < -2 ^ (v - 1) then BitVec.ofInt v (-2 ^ (v - 1))
  else (zeroCompensatedOut csr x).signExtend v

end RescaleDownPE

namespace NarrowParam

variable (p : NarrowParam)

theorem outLanes_eq : p.dataWidth / p.outWidth = p.numConversions * (p.dataWidth / p.inWidth) := by
  obtain ⟨k,split⟩ := p.outDivides
  obtain ⟨lanes,whole⟩ := p.inDivides
  rw [numConversions,whole,Nat.mul_div_cancel_left _ p.inPositive,split,
    Nat.mul_div_cancel_left _ p.outPositive,Nat.mul_assoc,Nat.mul_div_cancel_left _ p.outPositive]

/-- The registers of the unit: an output word without the results of one input word. -/
def regsNum : Nat := p.dataWidth / p.outWidth - p.dataWidth / p.inWidth

theorem regsNum_eq : p.regsNum = (p.numConversions - 1) * (p.dataWidth / p.inWidth) := by
  rw [regsNum,outLanes_eq,Nat.sub_mul,Nat.one_mul]

theorem wire_lt {j : Nat} (inside : j < p.dataWidth / p.outWidth) (beyond : ¬ j < p.regsNum) :
    j - p.regsNum < p.dataWidth / p.inWidth := by
  unfold regsNum at beyond ⊢
  omega

end NarrowParam

namespace RescaleDown

variable {p : NarrowParam}

structure State (p : NarrowParam) where
  value : BitVec (log2Ceil p.numConversions)
  regs : Lanes p.regsNum p.outWidth

abbrev Input (p : NarrowParam) := ExtInput RescaleDownExactCsr p.In

def pe (csr : RescaleDownExactCsr) (x : BitVec p.inWidth) : BitVec p.outWidth :=
  RescaleDownPE.dataOut csr x p.outWidth

def accepted (i : Input p) : Option p.In := if i.ready then i.data else none

def atLast (s : State p) : Bool := s.value.toNat == p.numConversions - 1

def outWord (s : State p) (csr : RescaleDownExactCsr) (x : p.In) : p.Out := fun j =>
  if inside : j.val < p.regsNum then s.regs ⟨j.val,inside⟩
  else pe csr (x ⟨j.val - p.regsNum,p.wire_lt j.isLt inside⟩)

def delivered (s : State p) (i : Input p) : Option p.Out :=
  if atLast s then (accepted i).map (outWord s i.csr) else none

def writes (s : State p) (csr : RescaleDownExactCsr) (x : p.In) : List (Write (BitVec p.outWidth)) :=
  (List.finRange (p.dataWidth / p.inWidth)).map fun i =>
    ⟨s.value.toNat * (p.dataWidth / p.inWidth) + i.val,pe csr (x i)⟩

def nextRegs (s : State p) (i : Input p) : Lanes p.regsNum p.outWidth :=
  match accepted i with
  | none => s.regs
  | some x => if atLast s then s.regs else scatter s.regs (writes s i.csr x)

def next (s : State p) (i : Input p) : State p where
  value := BasicCounter.next true i.start (accepted i).isSome (BitVec.ofNat _ p.numConversions) s.value
  regs := nextRegs s i

def out (s : State p) (i : Input p) : ExtOutput p.In p.Out where
  accepted := accepted i
  delivered := delivered s i
  busy := s.value != 0 || i.data.isSome

def initial (p : NarrowParam) : State p := ⟨0,fun _ => 0⟩

end RescaleDown

def rescaleDown (p : NarrowParam) :
    Machine (RescaleDown.State p) (RescaleDown.Input p) (ExtOutput p.In p.Out) where
  next := RescaleDown.next
  out := RescaleDown.out

namespace RescaleDown

variable {p : NarrowParam} {s : State p} {i : Input p} {csr : RescaleDownExactCsr} {g : Grouping p.In}

/-! ### The stream -/

/-- The elements of an output word are those of the words of a group, rescaled, in order. -/
def IsRescaled (csr : RescaleDownExactCsr) (g : List p.In) (y : p.Out) : Prop :=
  ∀ k x, g[k]? = some x → ∀ i (a : i < p.dataWidth / p.inWidth),
    ∃ b : k * (p.dataWidth / p.inWidth) + i < p.dataWidth / p.outWidth, y ⟨_,b⟩ = pe csr (x ⟨i,a⟩)

/-- The same of the words that wait in the registers. -/
def IsStored (csr : RescaleDownExactCsr) (part : List p.In) (regs : Lanes p.regsNum p.outWidth) : Prop :=
  ∀ k x, part[k]? = some x → ∀ i (a : i < p.dataWidth / p.inWidth),
    ∃ b : k * (p.dataWidth / p.inWidth) + i < p.regsNum, regs ⟨_,b⟩ = pe csr (x ⟨i,a⟩)

/-- All blocks but the last fit into the registers. -/
theorem block_lt {k i : Nat} (inside : k + 1 < p.numConversions) (a : i < p.dataWidth / p.inWidth) :
    k * (p.dataWidth / p.inWidth) + i < p.regsNum :=
  calc k * (p.dataWidth / p.inWidth) + i < (k + 1) * (p.dataWidth / p.inWidth) := by
        rw [Nat.succ_mul]
        omega
    _ ≤ (p.numConversions - 1) * (p.dataWidth / p.inWidth) := Nat.mul_le_mul_right _ (by omega)
    _ = p.regsNum := p.regsNum_eq.symm

theorem regsNum_le : p.regsNum ≤ p.dataWidth / p.outWidth := Nat.sub_le _ _

theorem writes_once (s : State p) (csr : RescaleDownExactCsr) (x : p.In) :
    ((writes s csr x).map Write.index).Nodup := by
  rw [writes,List.map_map]
  refine List.Nodup.map_on (fun i _ j _ same => ?_) (List.nodup_finRange _)
  exact Fin.ext (Nat.add_left_cancel same)

theorem stored_push {part : List p.In} (stored : IsStored csr part s.regs)
    (count : s.value.toNat = part.length) (more : part.length + 1 < p.numConversions) (x : p.In) :
    IsStored csr (part ++ [x]) (scatter s.regs (writes s csr x)) := by
  intro k y kth i a
  rcases Nat.lt_trichotomy k part.length with earlier | rfl | later
  · rw [List.getElem?_append_left earlier] at kth
    obtain ⟨b,same⟩ := stored k y kth i a
    refine ⟨b,(scatter_other s.regs fun w member => ?_).trans same⟩
    obtain ⟨j,_,rfl⟩ := List.mem_map.mp member
    have room : k * (p.dataWidth / p.inWidth) + i < (k + 1) * (p.dataWidth / p.inWidth) := by
      rw [Nat.succ_mul]
      omega
    have block : (k + 1) * (p.dataWidth / p.inWidth) ≤ s.value.toNat * (p.dataWidth / p.inWidth) :=
      Nat.mul_le_mul_right _ (count ▸ earlier)
    change k * (p.dataWidth / p.inWidth) + i ≠ s.value.toNat * (p.dataWidth / p.inWidth) + j.val
    omega
  · rw [List.getElem?_concat_length,Option.some_inj] at kth
    subst kth
    refine ⟨block_lt more a,?_⟩
    refine scatter_mem (w := ⟨s.value.toNat * (p.dataWidth / p.inWidth) + i,pe csr (x ⟨i,a⟩)⟩) s.regs
      (writes_once s csr x) ?_ (by rw [count])
    exact List.mem_map.mpr ⟨⟨i,a⟩,List.mem_finRange _,rfl⟩
  · rw [List.getElem?_eq_none (by simp; omega)] at kth
    contradiction

/-- The last word of a group joins the stored ones. -/
theorem outWord_rescaled {part : List p.In} (stored : IsStored csr part s.regs)
    (last : part.length + 1 = p.numConversions) (x : p.In) :
    IsRescaled csr (part ++ [x]) (outWord s csr x) := by
  have whole := p.outLanes_eq
  have size := p.regsNum_eq
  have filled : p.regsNum = part.length * (p.dataWidth / p.inWidth) := by
    rw [size,← last,Nat.add_sub_cancel]
  intro k y kth i a
  rcases Nat.lt_trichotomy k part.length with earlier | rfl | later
  · rw [List.getElem?_append_left earlier] at kth
    obtain ⟨b,same⟩ := stored k y kth i a
    refine ⟨Nat.lt_of_lt_of_le b regsNum_le,?_⟩
    unfold outWord
    rw [dif_pos b,same]
  · rw [List.getElem?_concat_length,Option.some_inj] at kth
    subst kth
    have inside : part.length * (p.dataWidth / p.inWidth) + i < p.dataWidth / p.outWidth := by
      rw [whole,← last,Nat.succ_mul]
      omega
    refine ⟨inside,?_⟩
    unfold outWord
    rw [dif_neg (by simp only; omega)]
    congr 2
    exact Fin.ext (by simp only; omega)
  · rw [List.getElem?_eq_none (by simp; omega)] at kth
    contradiction

/-- The state with the incomplete group `g` behind it. -/
structure Holds (csr : RescaleDownExactCsr) (g : Grouping p.In) (s : State p) : Prop where
  count : s.value.toNat = g.part.length
  short : g.part.length < p.numConversions
  stored : IsStored csr g.part s.regs

theorem lastIndex_ratio (p : NarrowParam) :
    lastIndex (BitVec.ofNat (log2Ceil p.numConversions) p.numConversions) = p.numConversions - 1 := by
  have two := p.two_le_numConversions
  have fits := le_two_pow_log2Ceil p.numConversions
  have wide : 0 < log2Ceil p.numConversions := by
    by_contra narrow
    rw [Nat.eq_zero_of_not_pos narrow] at fits
    omega
  have same : BitVec.ofNat (log2Ceil p.numConversions) p.numConversions =
      BitVec.ofNat _ (p.numConversions - 1 + 1) := congrArg (BitVec.ofNat _) (by omega)
  rw [same]
  exact lastIndex_ofNat_succ _ wide (by omega)

theorem Holds.cycle (holds : Holds csr g s) (stable : i.csr = csr) (start : i.start = false) :
    Holds csr (g.pushed p.numConversions (accepted i)) (next s i) ∧
      List.Forall₂ (IsRescaled csr) (g.completed p.numConversions (accepted i)) (delivered s i).toList := by
  have two := p.two_le_numConversions
  have short := holds.short
  have count := holds.count
  have value : (next s i).value = BasicCounter.next true false (accepted i).isSome
      (BitVec.ofNat _ p.numConversions) s.value := by rw [← start]; rfl
  have regs : (next s i).regs = nextRegs s i := rfl
  have last : atLast s = true ↔ g.part.length + 1 = p.numConversions := by
    rw [atLast,beq_iff_eq]
    omega
  cases taken : accepted i with
  | none =>
    refine ⟨⟨?_,short,?_⟩,?_⟩
    · simpa [value,taken,Grouping.pushed] using count
    · rw [regs,nextRegs,taken]
      exact holds.stored
    · have quiet : delivered s i = none := by simp [delivered,taken]
      rw [quiet]
      exact .nil
  | some x =>
    have counted : (next s i).value.toNat = (g.push p.numConversions x).part.length := by
      rw [value,taken]
      exact tick_push (lastIndex_ratio p) (le_two_pow_log2Ceil _) count short x
    by_cases whole : g.part.length + 1 = p.numConversions
    · have vacant : (g.push p.numConversions x).part = [] := by simp [Grouping.push,whole]
      refine ⟨⟨counted,?_,?_⟩,?_⟩
      · change (g.push p.numConversions x).part.length < _
        rw [vacant]
        exact Nat.zero_lt_of_lt two
      · change IsStored csr (g.push p.numConversions x).part _
        rw [vacant]
        intro k y kth
        simp at kth
      · have word : delivered s i = some (outWord s csr x) := by
          simp [delivered,last.mpr whole,taken,stable]
        simp only [Grouping.completed,whole,↓reduceIte,word,Option.toList_some]
        exact List.forall₂_cons.mpr ⟨outWord_rescaled holds.stored whole x,.nil⟩
    · have more : (g.push p.numConversions x).part = g.part ++ [x] := by simp [Grouping.push,whole]
      have early : atLast s = false := by
        rw [← Bool.not_eq_true,last]
        exact whole
      refine ⟨⟨counted,?_,?_⟩,?_⟩
      · change (g.push p.numConversions x).part.length < _
        rw [more,List.length_append,List.length_singleton]
        omega
      · change IsStored csr (g.push p.numConversions x).part _
        rw [more,regs,nextRegs,taken]
        simp only [early,Bool.false_eq_true,↓reduceIte,stable]
        exact stored_push holds.stored count (by omega) x
      · have quiet : delivered s i = none := by simp [delivered,early]
        simp only [Grouping.completed,whole,↓reduceIte,quiet,Option.toList_none]
        exact .nil

/-- What the unit promises in a cycle of a stream: every full group so far has left as a word,
and a word is taken whenever the receiver is ready. -/
structure DownContract (packed : List p.In → p.Out → Prop) (history : List (ExtOutput p.In p.Out))
    (s : State p) (i : Input p) : Prop where
  words : List.Forall₂ packed (Grouping.of p.numConversions (acceptedWords history)).whole
    (deliveredWords history)
  takes : accepted i = if i.ready then i.data else none
  leaves : (delivered s i).isSome = true ↔ (accepted i).isSome = true ∧
    (Grouping.of p.numConversions (acceptedWords history)).part.length + 1 = p.numConversions

theorem stream_run (fresh : s.value = 0) {stream : List (Input p)}
    (stable : ∀ i ∈ stream, i.csr = csr ∧ i.start = false) :
    (rescaleDown p).Each (DownContract (IsRescaled csr)) s stream := by
  have two := p.two_le_numConversions
  have each := Machine.Each.of_inputs (m := rescaleDown p) (s := s) stable
  have holds : Holds csr (Grouping.of p.numConversions ([] : List p.In)) s :=
    ⟨by simp [fresh],Nat.zero_lt_of_lt two,fun k x kth => by simp at kth⟩
  have run := Machine.each_of_run_rule (fun history s =>
      Holds csr (Grouping.of p.numConversions (acceptedWords history)) s ∧
      List.Forall₂ (IsRescaled csr) (Grouping.of p.numConversions (acceptedWords history)).whole
        (deliveredWords history)) each ⟨holds,.nil⟩ ?_
  · refine (run.and each).mono fun history s' i both => ⟨both.1.2,rfl,?_⟩
    have count := both.1.1.count
    have short := both.1.1.short
    have last : atLast s' = true ↔
        (Grouping.of p.numConversions (acceptedWords history)).part.length + 1 = p.numConversions := by
      rw [atLast,beq_iff_eq]
      omega
    rw [delivered,← last]
    cases atLast s' <;> cases accepted i <;> simp
  · rintro history s' i ⟨holds,words⟩ ⟨csr,start⟩
    obtain ⟨holds',more⟩ := holds.cycle csr start
    have taken : (out s' i).accepted = accepted i := rfl
    have given : (out s' i).delivered = delivered s' i := rfl
    change Holds _ (Grouping.of _ (acceptedWords (history ++ [out s' i]))) _ ∧
      List.Forall₂ _ (Grouping.of _ (acceptedWords (history ++ [out s' i]))).whole
        (deliveredWords (history ++ [out s' i]))
    rw [acceptedWords_concat,deliveredWords_concat,Grouping.of_toList,taken,given,Grouping.pushed_whole]
    exact ⟨holds',List.rel_append words more⟩

theorem start_value {first : Input p} (start : first.start = true) : (next s first).value = 0 := by
  simp [next,start]

end RescaleDown

/-! ### The PE from 32 to 8 bits -/

namespace RescaleDownPE

open Wire

variable {csr : RescaleDownExactCsr} {x : BitVec 32}

def difference (csr : RescaleDownExactCsr) (x : BitVec 32) : Int := x.toInt - csr.inputZp.toInt

def exactRounded (csr : RescaleDownExactCsr) (x : BitVec 32) : Int :=
  difference csr x * csr.multiplier.toNat + 2 ^ (csr.shift.toNat - 1)

/-- The rounded product, with double rounding for long shifts. -/
def exactScaled (csr : RescaleDownExactCsr) (x : BitVec 32) : Int :=
  if 31 < csr.shift.toNat then
    (if 0 < difference csr x then exactRounded csr x + 2 ^ 30 else exactRounded csr x - 2 ^ 30)
  else exactRounded csr x

/-- A configuration whose result on an element is to be the exact one. -/
structure InRange (csr : RescaleDownExactCsr) (x : BitVec 32) : Prop where
  difference : Fits 32 (difference csr x)
  multiplier : csr.multiplier.toNat < 2 ^ 31
  shiftLow : 2 ≤ csr.shift.toNat
  shiftHigh : csr.shift.toNat ≤ 62
  sum : Fits 32 (Golden.int32 (exactScaled csr x / 2 ^ csr.shift.toNat) + csr.outputZp.toInt)

theorem product_bounds (range : InRange csr x) :
    -2 ^ 62 ≤ difference csr x * csr.multiplier.toNat ∧ difference csr x * csr.multiplier.toNat ≤ 2 ^ 62 := by
  obtain ⟨low,high⟩ := range.difference
  have few : (csr.multiplier.toNat : Int) < 2 ^ 31 := by exact_mod_cast range.multiplier
  have some : (0 : Int) ≤ csr.multiplier.toNat := Int.natCast_nonneg _
  constructor
  · calc (-2 ^ 62 : Int) ≤ -2 ^ 31 * (csr.multiplier.toNat : Int) := by omega
      _ ≤ _ := mul_le_mul_of_nonneg_right (by omega) some
  · calc _ ≤ 2 ^ 31 * (csr.multiplier.toNat : Int) := mul_le_mul_of_nonneg_right (by omega) some
      _ ≤ 2 ^ 62 := by omega

theorem constant_bounds (range : InRange csr x) :
    (0 : Int) < 2 ^ (csr.shift.toNat - 1) ∧ (2 : Int) ^ (csr.shift.toNat - 1) ≤ 2 ^ 61 := by
  have high := range.shiftHigh
  exact ⟨pow_pos (by decide) _,pow_le_pow_right₀ (by decide) (by omega)⟩

theorem rounded_bounds (range : InRange csr x) :
    -2 ^ 62 ≤ exactRounded csr x ∧ exactRounded csr x ≤ 2 ^ 62 + 2 ^ 61 := by
  obtain ⟨low,high⟩ := product_bounds range
  obtain ⟨some,few⟩ := constant_bounds range
  unfold exactRounded
  exact ⟨by linarith,by linarith⟩

theorem shift_port (range : InRange csr x) : (csr.shift.setWidth 8).toNat = csr.shift.toNat := by
  have high := range.shiftHigh
  rw [BitVec.toNat_setWidth,Nat.mod_eq_of_lt (by omega)]

theorem zeroCompensated_toInt (range : InRange csr x) :
    (zeroCompensated csr x).toInt = difference csr x := by
  have left : (x.signExtend 32).toInt = x.toInt := toInt_widen x (by decide)
  have right : (csr.inputZp.signExtend 32).toInt = csr.inputZp.toInt := toInt_widen _ (by decide)
  rw [zeroCompensated,← BitVec.signExtend_eq_setWidth_of_le _ (Nat.le_max_left _ _)]
  exact toInt_cast (toInt_sub left right range.difference) range.difference

theorem multiplied_toInt (range : InRange csr x) :
    (multiplied csr x).toInt = difference csr x * csr.multiplier.toNat := by
  obtain ⟨low,high⟩ := product_bounds range
  have few : (csr.multiplier.toNat : Int) < 2 ^ 31 := by exact_mod_cast range.multiplier
  have product : Fits 64 (difference csr x * csr.multiplier.toNat) := ⟨by linarith,by linarith⟩
  have left := toInt_cast (v := 65) (zeroCompensated_toInt range) (range.difference.mono (by decide))
  have right := toInt_setWidth (x := csr.multiplier) (v := 65) ⟨by omega,by omega⟩
  have whole := toInt_mul left right (product.mono (by decide))
  rw [multiplied,← BitVec.signExtend_eq_setWidth_of_le _ (by decide)]
  exact toInt_cast whole product

theorem shifted_toInt (range : InRange csr x) : (shifted csr x).toInt = exactRounded csr x := by
  have low := range.shiftLow
  obtain ⟨some,few⟩ := constant_bounds range
  obtain ⟨least,most⟩ := rounded_bounds range
  have fits : Fits 64 (exactRounded csr x) := ⟨by linarith,by linarith⟩
  have less : (csr.shift.setWidth 8 - 1).toNat = csr.shift.toNat - 1 := by
    have one : (1 : BitVec 8) ≤ csr.shift.setWidth 8 :=
      BitVec.le_def.mpr ((shift_port range).symm ▸ (by omega : 1 ≤ csr.shift.toNat))
    rw [BitVec.toNat_sub_of_le one,shift_port range]
    rfl
  have one : (shiftedOne csr (w := 32)).toInt = 2 ^ (csr.shift.toNat - 1) := by
    rw [shiftedOne,less,BitVec.toInt_ofNat']
    push_cast
    exact bmod_of_fits (w := 64) ⟨by linarith,by linarith⟩
  exact toInt_add (multiplied_toInt range) one fits

/-- Where a difference is zero the double rounding goes the other way, which the shift hides. -/
theorem correctShiftValue_quotient (range : InRange csr x) :
    (correctShiftValue csr x).toInt / 2 ^ csr.shift.toNat = exactScaled csr x / 2 ^ csr.shift.toNat := by
  obtain ⟨least,most⟩ := rounded_bounds range
  have rounded := shifted_toInt range
  have account : (BitVec.ofNat (32 + 32) (2 ^ 30)).toInt = 2 ^ 30 := by decide
  have sign : (zeroCompensated csr x).slt 0 = true ↔ difference csr x < 0 := by
    rw [BitVec.slt_iff_toInt_lt,zeroCompensated_toInt range]
    rfl
  have more : Fits 64 (exactRounded csr x + 2 ^ 30) := ⟨by linarith,by linarith⟩
  have less : Fits 64 (exactRounded csr x - 2 ^ 30) := ⟨by linarith,by linarith⟩
  have up : (shifted csr x + BitVec.ofNat (32 + 32) (2 ^ 30)).toInt = exactRounded csr x + 2 ^ 30 :=
    toInt_add rounded account more
  have down : (shifted csr x - BitVec.ofNat (32 + 32) (2 ^ 30)).toInt = exactRounded csr x - 2 ^ 30 :=
    toInt_sub rounded account less
  unfold correctShiftValue exactScaled scaled32
  rw [shift_port range]
  by_cases long : 31 < csr.shift.toNat
  · rw [if_pos long,if_pos long]
    rcases lt_trichotomy (difference csr x) 0 with negative | zero | positive
    · rw [if_pos (sign.mpr negative),if_neg (by omega),down]
    · rw [if_neg (by rw [sign]; omega),if_neg (by omega),up]
      obtain ⟨k,shift⟩ : ∃ k, csr.shift.toNat = k + 1 := ⟨csr.shift.toNat - 1,by omega⟩
      have constant : exactRounded csr x = 2 ^ k := by
        rw [exactRounded,zero,shift,Int.zero_mul,Int.zero_add,Nat.add_sub_cancel]
      have large : (2 : Int) ^ 31 ≤ 2 ^ k := pow_le_pow_right₀ (by decide) (by omega)
      rw [constant,shift,Int.ediv_eq_zero_of_lt (by omega) (by rw [pow_succ]; omega),
        Int.ediv_eq_zero_of_lt (by omega) (by rw [pow_succ]; omega)]
    · rw [if_neg (by rw [sign]; omega),if_pos positive,up]
  · rw [if_neg long,if_neg long,rounded]

theorem zeroCompensatedOut_toInt (range : InRange csr x) : (zeroCompensatedOut csr x).toInt =
    Golden.int32 (exactScaled csr x / 2 ^ csr.shift.toNat) + csr.outputZp.toInt := by
  have quotient : (shiftedValue csr x).toInt = exactScaled csr x / 2 ^ csr.shift.toNat := by
    rw [shiftedValue,toInt_shift,shift_port range,correctShiftValue_quotient range]
  have truncated : (((shiftedValue csr x).setWidth 32).signExtend 32).toInt =
      Golden.int32 (exactScaled csr x / 2 ^ csr.shift.toNat) := by
    rw [toInt_widen _ (Nat.le_refl 32),← BitVec.signExtend_eq_setWidth_of_le _ (by decide),
      BitVec.toInt_signExtend_eq_toInt_bmod_of_le _ (by decide),quotient]
    rfl
  have zero : (csr.outputZp.signExtend 32).toInt = csr.outputZp.toInt := toInt_widen _ (by decide)
  rw [zeroCompensatedOut,← BitVec.signExtend_eq_setWidth_of_le _ (Nat.le_max_left _ _)]
  exact toInt_cast (toInt_add truncated zero range.sum) range.sum

theorem dataOut_toInt (range : InRange csr x) : (dataOut csr x 8).toInt =
    Golden.clip (Golden.int32 (exactScaled csr x / 2 ^ csr.shift.toNat) + csr.outputZp.toInt) (-128) 127 := by
  rw [← zeroCompensatedOut_toInt range]
  exact Golden.toInt_saturated _

theorem golden_eq (range : InRange csr x) :
    Golden.postprocessingSimdGoldenModelV2 x.toInt csr.inputZp.toInt csr.outputZp.toInt
        csr.shift.toNat 127 (-128) true csr.multiplier.toNat =
      Golden.clip (Golden.int32 (exactScaled csr x / 2 ^ csr.shift.toNat) + csr.outputZp.toInt)
        (-128) 127 := by
  obtain ⟨some,few⟩ := constant_bounds range
  obtain ⟨low,high⟩ := product_bounds range
  obtain ⟨least,most⟩ := rounded_bounds range
  obtain ⟨negative,positive⟩ := range.difference
  have small : (csr.multiplier.toNat : Int) < 2 ^ 31 := by exact_mod_cast range.multiplier
  have sub : Golden.int64 (difference csr x) = difference csr x := Golden.int64_of_fits ⟨by omega,by omega⟩
  have factor : Golden.int64 csr.multiplier.toNat = csr.multiplier.toNat :=
    Golden.int64_of_fits ⟨by omega,by omega⟩
  have product : Golden.int64 (difference csr x * csr.multiplier.toNat) =
      difference csr x * csr.multiplier.toNat := Golden.int64_of_fits ⟨by linarith,by linarith⟩
  have one : Golden.int64 (2 ^ (csr.shift.toNat - 1)) = 2 ^ (csr.shift.toNat - 1) :=
    Golden.int64_of_fits ⟨by linarith,by linarith⟩
  have account : Golden.int64 (2 ^ 30) = 2 ^ 30 := Golden.int64_of_fits ⟨by decide,by decide⟩
  have rounded : Golden.int64 (exactRounded csr x) = exactRounded csr x :=
    Golden.int64_of_fits ⟨by linarith,by linarith⟩
  have up : Golden.int64 (exactRounded csr x + 2 ^ 30) = exactRounded csr x + 2 ^ 30 :=
    Golden.int64_of_fits ⟨by linarith,by linarith⟩
  have down : Golden.int64 (exactRounded csr x - 2 ^ 30) = exactRounded csr x - 2 ^ 30 :=
    Golden.int64_of_fits ⟨by linarith,by linarith⟩
  have first : x.toInt - csr.inputZp.toInt = difference csr x := rfl
  have sum : difference csr x * csr.multiplier.toNat + 2 ^ (csr.shift.toNat - 1) = exactRounded csr x := rfl
  simp only [Golden.postprocessingSimdGoldenModelV2,first,sub,factor,product,one,sum,rounded,account,
    up,down,↓reduceIte,shiftRight_eq]
  rfl

end RescaleDownPE

/-! ### The unit from 32 to 8 bits -/

namespace RescaleDown

theorem down_narrower : 8 < 32 := Nat.lt_of_sub_eq_succ rfl
theorem down_positive : 0 < 8 := Nat.succ_pos 7
theorem down_divides : 8 ∣ 32 := ⟨4,rfl⟩
theorem down_fits : 32 ≤ 32 := Nat.le_refl 32

/-- `HasRescaleDown` for a data path of any width. -/
def defaultParam (dataWidth : Nat) (whole : 32 ∣ dataWidth) : NarrowParam where
  inWidth := 32
  outWidth := 8
  dataWidth := dataWidth
  outPositive := down_positive
  narrower := down_narrower
  outDivides := down_divides
  inDivides := whole
  inFits := down_fits

variable {dataWidth : Nat} {whole : 32 ∣ dataWidth}

/-- The elements of an output word are those of the golden model, in order. -/
def IsGolden (csr : RescaleDownExactCsr) (g : List (defaultParam dataWidth whole).In)
    (y : (defaultParam dataWidth whole).Out) : Prop :=
  ∀ k x, g[k]? = some x → ∀ i (a : i < dataWidth / 32), ∃ b : k * (dataWidth / 32) + i < dataWidth / 8,
    RescaleDownPE.InRange csr (x ⟨i,a⟩) →
      (y ⟨_,b⟩).toInt = Golden.postprocessingSimdGoldenModelV2 (x ⟨i,a⟩).toInt csr.inputZp.toInt
        csr.outputZp.toInt csr.shift.toNat 127 (-128) true csr.multiplier.toNat

theorem IsRescaled.golden {csr : RescaleDownExactCsr} {g : List (defaultParam dataWidth whole).In}
    {y : (defaultParam dataWidth whole).Out} (rescaled : IsRescaled csr g y) : IsGolden csr g y := by
  intro k x kth i a
  obtain ⟨b,same⟩ := rescaled k x kth i a
  refine ⟨b,fun range => ?_⟩
  calc (y ⟨_,b⟩).toInt = (RescaleDownPE.dataOut csr (x ⟨i,a⟩) 8).toInt := congrArg BitVec.toInt same
    _ = _ := (RescaleDownPE.dataOut_toInt range).trans (RescaleDownPE.golden_eq range).symm

/-- From a start pulse on, whatever was before it, every four words that are accepted leave as
one word, in the cycle in which the last of them is accepted. -/
theorem rescale_down (s : State (defaultParam dataWidth whole)) {csr : RescaleDownExactCsr}
    {first : Input (defaultParam dataWidth whole)} (pulse : first.start = true)
    {stream : List (Input (defaultParam dataWidth whole))}
    (stable : ∀ i ∈ stream, i.csr = csr ∧ i.start = false) :
    (rescaleDown (defaultParam dataWidth whole)).Each (DownContract (IsGolden csr)) (next s first) stream :=
  (stream_run (start_value pulse) stable).mono fun _ _ _ contract =>
    ⟨contract.words.imp fun _ _ => IsRescaled.golden,contract.takes,contract.leaves⟩

theorem oneElement_whole : 32 ∣ 32 := ⟨1,rfl⟩

/-- One element in a word, scaled by a quarter. -/
def quarter (start : Bool) (data : Option Nat) : Input (defaultParam 32 oneElement_whole) :=
  ⟨⟨0,1,0,2⟩,start,data.map fun n _ => BitVec.ofNat 32 n,true⟩

theorem rescale_down_quarter :
    (rescaleDown (defaultParam 32 oneElement_whole)).Each (DownContract (IsGolden ⟨0,1,0,2⟩))
      (next (initial (defaultParam 32 oneElement_whole)) (quarter true none))
      [quarter false (some 8),quarter false none,quarter false (some 600),quarter false (some 10),
        quarter false (some 11)] := by
  refine rescale_down _ rfl fun i member => ?_
  simp only [List.mem_cons,List.not_mem_nil,or_false] at member
  rcases member with rfl | rfl | rfl | rfl | rfl <;> exact ⟨rfl,rfl⟩

end RescaleDown
end Snax
