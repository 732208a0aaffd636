import Snax.SimbacoreWalk
import Snax.Sync.Scatter

/-! `sw/snax/simbacore/src/snax-simbacore-lib.c`: the functions that configure the streamer through the
macros of the generated header. The ports that a function does not use get a bound of zero, which the
simulator takes for disabled; the generator of a Reader overrides the bound when its stride is zero. -/
namespace Snax.Simbacore

open Streamer SimWorld
open Sync (Write scatter scatter_mem scatter_other scatter_perm)

/-- The value of a macro of the header. -/
def csr (name : MacroName) : Nat := ((csrMap streamer).find? fun d => d.name = name).elim 0 Define.value

/-- What is passed for a port: the base pointer, and the arrays of strides and bounds. -/
structure PortArgs where
  ptr : BitVec 32
  ss : Nat → BitVec 32
  tb : Nat → BitVec 32
  ts : Nat → BitVec 32

abbrev CsrWrites := List (Write (BitVec 32))

/-- `write_csr` for `n` registers from a base address on; the source unrolls the loop. -/
def writeCsrs (base n : Nat) (values : Nat → BitVec 32) : CsrWrites :=
  (List.range n).map fun k => ⟨base + k,values k⟩

/-- The body of `if (R_en)`. Each `_Static_assert` pins the length of an unrolled loop to the header. -/
def setPort (p : Nat) (a : PortArgs) : CsrWrites :=
  writeCsrs (csr (.address (.mover (tag p) .ptrLow))) 1 (fun _ => a.ptr) ++
  writeCsrs (csr (.address (.mover (tag p) .spatialStrides))) (csr (.count (.mover (tag p) .spatialStrides))) a.ss ++
  writeCsrs (csr (.address (.mover (tag p) .temporalBounds))) (csr (.count (.mover (tag p) .temporalBounds))) a.tb ++
  writeCsrs (csr (.address (.mover (tag p) .temporalStrides))) (csr (.count (.mover (tag p) .temporalStrides))) a.ts

/-- The `else` of `if (R_en)`. -/
def disablePort (p : Nat) : CsrWrites :=
  writeCsrs (csr (.address (.mover (tag p) .temporalBounds))) 1 fun _ => 0

/-- R13 in `set_simd_streamer_no_b`: fully initialized, with strides that are not zero. -/
def disableR13 : CsrWrites :=
  writeCsrs (csr (.address (.mover (tag 13) .spatialStrides))) 1 (fun _ => 1) ++
  writeCsrs (csr (.address (.mover (tag 13) .temporalBounds))) 4 (fun _ => 0) ++
  writeCsrs (csr (.address (.mover (tag 13) .temporalStrides))) 4 fun _ => 1

def setStreamerCsr (args : Nat → PortArgs) (en : Nat → Bool) : CsrWrites :=
  (List.range 18).flatMap fun p => if en p then setPort p (args p) else disablePort p

/-- R0, R1 and W0. -/
def setOsgemmStreamerCsr (A B D : PortArgs) : CsrWrites :=
  setPort 0 A ++ setPort 1 B ++ setPort 14 D ++
    [2,3,4,5,6,7,8,9,10,11,12,13,15,16,17].flatMap disablePort

/-- R11, R12, and the partial sums in R13 and W3. -/
def setIsgemmStreamerCsr (A B CD : PortArgs) : CsrWrites :=
  setPort 11 A ++ setPort 12 B ++ setPort 13 CD ++ setPort 17 CD ++
    [0,1,2,3,4,5,6,7,8,9,10,14,15,16].flatMap disablePort

/-- R7, R13 and W3. -/
def setSimdStreamerCsr (A B C : PortArgs) : CsrWrites :=
  setPort 7 A ++ setPort 13 B ++ setPort 17 C ++
    [0,1,2,3,4,5,6,8,9,10,11,12,14,15,16].flatMap disablePort

def setSimdStreamerNoB (A C : PortArgs) : CsrWrites :=
  setPort 7 A ++ setPort 17 C ++ [0,1,2,3,4,5,6,8,9,10,11,12,14,15,16].flatMap disablePort ++ disableR13

/-- The CSRs up to the last one of the streamer's configuration; `snax_write` keeps those from 960 on. -/
abbrev Csrs := Fin 1178 → BitVec 32

/-- `raw_`: the streamer's registers, from zero on. -/
def Csrs.raw (csrs : Csrs) (i : Nat) : BitVec 32 := if h : 960 + i < 1178 then csrs ⟨960 + i,h⟩ else 0

/-! ### Where the writes go -/

theorem csr_eq : ∀ p ∈ List.range 18,
    csr (.address (.mover (tag p) .ptrLow)) = 960 + baseCsr p ∧
    csr (.address (.mover (tag p) .spatialStrides)) = 960 + (baseCsr p + 2) ∧
    csr (.address (.mover (tag p) .temporalBounds)) = 960 + (baseCsr p + 2 + nSpatial p) ∧
    csr (.address (.mover (tag p) .temporalStrides)) = 960 + (baseCsr p + 2 + nSpatial p + 4) ∧
    csr (.count (.mover (tag p) .spatialStrides)) = nSpatial p ∧
    csr (.count (.mover (tag p) .temporalBounds)) = 4 ∧
    csr (.count (.mover (tag p) .temporalStrides)) = 4 ∧
    baseCsr p + block p ≤ 218 := by
  decide +kernel

theorem mem_writeCsrs {base n : Nat} {values : Nat → BitVec 32} {w : Write (BitVec 32)} :
    w ∈ writeCsrs base n values ↔ ∃ k < n, w = ⟨base + k,values k⟩ := by
  simp only [writeCsrs,List.mem_map,List.mem_range]
  exact exists_congr fun k => and_congr_right fun _ => eq_comm

theorem writeCsrs_index (base n : Nat) (values : Nat → BitVec 32) :
    (writeCsrs base n values).map Write.index = List.range' base n := by
  rw [writeCsrs,List.map_map,List.range'_eq_map_range]
  rfl

theorem baseCsr_succ (p : Nat) : baseCsr (p + 1) = baseCsr p + block p := by
  rw [baseCsr,List.range_succ,List.foldl_append]
  rfl

/-- The blocks of the ports follow each other. -/
theorem block_le {p q : Nat} (before : p < q) : baseCsr p + block p ≤ baseCsr q := by
  induction q with
  | zero => omega
  | succ q ih =>
    rw [baseCsr_succ]
    rcases Nat.lt_succ_iff_lt_or_eq.mp before with less | rfl
    · exact (ih less).trans (Nat.le_add_right _ _)
    · exact Nat.le_refl _

variable {p : Nat}

/-- Writes that stay among the registers of a port, none of them twice. -/
structure Within (p : Nat) (ws : CsrWrites) : Prop where
  inside : ∀ w ∈ ws, 960 + baseCsr p ≤ w.index ∧ w.index < 960 + (baseCsr p + block p)
  once : (ws.map Write.index).Nodup

theorem setPort_eq (port : p < 18) (a : PortArgs) : setPort p a =
    writeCsrs (960 + baseCsr p) 1 (fun _ => a.ptr) ++ writeCsrs (960 + (baseCsr p + 2)) (nSpatial p) a.ss ++
    writeCsrs (960 + (baseCsr p + 2 + nSpatial p)) 4 a.tb ++
    writeCsrs (960 + (baseCsr p + 2 + nSpatial p + 4)) 4 a.ts := by
  obtain ⟨ptr,ss,tb,ts,strides,bounds,loops,-⟩ := csr_eq p (List.mem_range.mpr port)
  rw [setPort,ptr,ss,tb,ts,strides,bounds,loops]

theorem disablePort_eq (port : p < 18) :
    disablePort p = writeCsrs (960 + (baseCsr p + 2 + nSpatial p)) 1 fun _ => 0 := by
  obtain ⟨-,-,tb,-⟩ := csr_eq p (List.mem_range.mpr port)
  rw [disablePort,tb]

theorem setPort_within (port : p < 18) (a : PortArgs) : Within p (setPort p a) := by
  constructor
  · intro w member
    simp only [setPort_eq port,List.mem_append,mem_writeCsrs] at member
    rcases member with ((⟨k,inside,rfl⟩ | ⟨k,inside,rfl⟩) | ⟨k,inside,rfl⟩) | ⟨k,inside,rfl⟩ <;>
      simp only [block] <;> omega
  · have runs (base n : Nat) : (List.range' base n).Nodup := List.nodup_range'
    simp only [setPort_eq port,List.map_append,writeCsrs_index,List.nodup_append,runs,true_and]
    refine ⟨⟨?_,?_⟩,?_⟩
    all_goals
      intro x low y high
      simp only [List.mem_append,List.mem_range'_1] at low high
      omega

theorem disablePort_within (port : p < 18) : Within p (disablePort p) := by
  constructor
  · intro w member
    rw [disablePort_eq port,mem_writeCsrs] at member
    obtain ⟨k,inside,rfl⟩ := member
    simp only [block]
    omega
  · rw [disablePort_eq port,writeCsrs_index]
    exact List.nodup_range'

theorem disableR13_within : Within 13 disableR13 := by
  constructor <;> decide +kernel

/-- Functions that write to the ports of a list, one after the other. -/
theorem ports_once {l : List Nat} {f : Nat → CsrWrites} (different : l.Nodup) (within : ∀ p ∈ l, Within p (f p)) :
    ((l.flatMap f).map Write.index).Nodup := by
  rw [List.map_flatMap,List.nodup_flatMap]
  refine ⟨fun p member => (within p member).once,?_⟩
  refine different.imp_of_mem fun {p q} left right apart => ?_
  rw [Function.onFun,List.disjoint_left]
  intro x here there
  obtain ⟨w,inP,rfl⟩ := List.mem_map.mp here
  obtain ⟨v,inQ,same⟩ := List.mem_map.mp there
  have := (within p left).inside w inP
  have := (within q right).inside v inQ
  rcases Nat.lt_or_gt_of_ne apart with less | less
  · have := block_le less
    omega
  · have := block_le less
    omega

theorem raw_written {ws : CsrWrites} {w : Write (BitVec 32)} {i : Nat} (csrs : Csrs)
    (once : (ws.map Write.index).Nodup) (member : w ∈ ws) (place : w.index = 960 + i) (inside : i < 218) :
    Csrs.raw (scatter csrs ws) i = w.value := by
  rw [Csrs.raw,dif_pos (by omega)]
  exact scatter_mem csrs once member place.symm

theorem raw_kept {ws : CsrWrites} {i : Nat} (csrs : Csrs) (away : ∀ w ∈ ws, w.index ≠ 960 + i) :
    Csrs.raw (scatter csrs ws) i = csrs.raw i := by
  rw [Csrs.raw,Csrs.raw]
  split
  · exact scatter_other csrs fun w member => (away w member).symm
  · rfl

/-- Of all the writes a port sees its own. -/
theorem raw_port {l : List Nat} {f : Nat → CsrWrites} (different : l.Nodup) (within : ∀ p ∈ l, Within p (f p))
    (csrs : Csrs) (port : p < 18) (member : p ∈ l) {i : Nat} (inside : i < block p) :
    Csrs.raw (scatter csrs (l.flatMap f)) (baseCsr p + i) = Csrs.raw (scatter csrs (f p)) (baseCsr p + i) := by
  have last := (csr_eq p (List.mem_range.mpr port)).2.2.2.2.2.2.2
  by_cases written : ∃ w ∈ f p, w.index = 960 + (baseCsr p + i)
  · obtain ⟨w,own,place⟩ := written
    rw [raw_written csrs (ports_once different within) (List.mem_flatMap.mpr ⟨p,member,own⟩) place (by omega),
      raw_written csrs (within p member).once own place (by omega)]
  · rw [raw_kept,raw_kept]
    · exact fun w own place => written ⟨w,own,place⟩
    · intro w any place
      obtain ⟨q,listed,own⟩ := List.mem_flatMap.mp any
      have := (within q listed).inside w own
      rcases Nat.lt_trichotomy p q with less | rfl | less
      · have := block_le less
        omega
      · exact written ⟨w,own,place⟩
      · have := block_le less
        omega

/-! ### What the ports become -/

/-- An enabled port has what is passed; the high word of its base and its remapping stay. -/
def PortArgs.onto (a : PortArgs) (old : Port) : Port :=
  { old with
    base := (old.base >>> 32).setWidth 32 ++ a.ptr
    sStride := Vector.ofFn fun k : Fin 2 => if k.val < old.nS then a.ss k.val else 0
    tBound := Vector.ofFn fun k : Fin 4 => a.tb k.val
    tStride := Vector.ofFn fun k : Fin 4 => a.ts k.val
    enabled := a.tb 0 != 0 }

theorem first_loop : 0 < 4 := by decide

theorem first_stride : 0 < 2 := by decide

/-- A disabled port keeps all but its innermost bound. -/
def disabled (old : Port) : Port :=
  { old with tBound := old.tBound.set 0 0 first_loop, enabled := false }

/-- R13 when it is initialized to a disabled port. -/
def cleared (old : Port) : Port :=
  { old with
    sStride := old.sStride.set 0 1 first_stride
    tBound := Vector.replicate 4 0
    tStride := Vector.replicate 4 1
    enabled := false }

theorem decodePorts_congr {raw raw' : Nat → BitVec 32}
    (same : ∀ i < block p, raw (baseCsr p + i) = raw' (baseCsr p + i)) : decodePorts raw p = decodePorts raw' p := by
  have base : raw (baseCsr p + 1) ++ raw (baseCsr p) = raw' (baseCsr p + 1) ++ raw' (baseCsr p) := by
    have low : raw (baseCsr p) = raw' (baseCsr p) := same 0 (by simp only [block]; omega)
    rw [low,same 1 (by simp only [block]; omega)]
  have spatial (k : Nat) : (if k < nSpatial p then raw (baseCsr p + 2 + k) else 0) =
      if k < nSpatial p then raw' (baseCsr p + 2 + k) else 0 := by
    split
    · rw [Nat.add_assoc,same _ (by simp only [block]; omega)]
    · rfl
  have loops (i k : Nat) (inside : 2 + nSpatial p + i + k < block p) :
      raw (baseCsr p + 2 + nSpatial p + i + k) = raw' (baseCsr p + 2 + nSpatial p + i + k) := by
    rw [show baseCsr p + 2 + nSpatial p + i + k = baseCsr p + (2 + nSpatial p + i + k) by omega]
    exact same _ inside
  have bounds (k : Fin 4) := loops 0 k (by simp only [block]; omega)
  have strides (k : Fin 4) := loops 4 k (by simp only [block]; omega)
  have remap := loops 8 0 (by simp only [block]; omega)
  simp only [Nat.add_zero] at bounds remap
  simp only [decodePorts,base,spatial,bounds,strides,remap]

/-- A port among those that a function writes to is decoded from its own writes. -/
theorem decodePorts_port {l : List Nat} {f : Nat → CsrWrites} (different : l.Nodup)
    (within : ∀ p ∈ l, Within p (f p)) (csrs : Csrs) (port : p < 18) (member : p ∈ l) :
    decodePorts (Csrs.raw (scatter csrs (l.flatMap f))) p = decodePorts (Csrs.raw (scatter csrs (f p))) p :=
  decodePorts_congr fun _ inside => raw_port different within csrs port member inside

theorem high_append (high low : BitVec 32) : ((high ++ low) >>> 32).setWidth 32 = high := by
  apply BitVec.eq_of_getLsbD_eq
  intro i inside
  rw [BitVec.getLsbD_setWidth,BitVec.getLsbD_ushiftRight,BitVec.getLsbD_append]
  simp [inside]

/-- A run of registers that a function writes to. -/
theorem raw_run {ws : CsrWrites} (csrs : Csrs) (once : (ws.map Write.index).Nodup) {i n : Nat}
    {values : Nat → BitVec 32} (part : writeCsrs (960 + i) n values ⊆ ws) {k : Nat} (inside : k < n)
    (fits : i + n ≤ 218) : Csrs.raw (scatter csrs ws) (i + k) = values k :=
  raw_written csrs once (part (mem_writeCsrs.mpr ⟨k,inside,rfl⟩)) (Nat.add_assoc 960 i k) (by omega)

theorem decode_setPort (port : p < 18) (a : PortArgs) (csrs : Csrs) :
    decodePorts (Csrs.raw (scatter csrs (setPort p a))) p = a.onto (decodePorts csrs.raw p) := by
  have once := (setPort_within port a).once
  have last := (csr_eq p (List.mem_range.mpr port)).2.2.2.2.2.2.2
  have parts := setPort_eq port a
  simp only [block] at last
  have first : (⟨960 + baseCsr p + 0,a.ptr⟩ : Write (BitVec 32)) ∈ setPort p a := by
    simp only [parts,List.mem_append,mem_writeCsrs]
    exact .inl (.inl (.inl ⟨0,Nat.one_pos,rfl⟩))
  have low := raw_written csrs once first (Nat.add_zero _) (by omega)
  have spatial (k : Nat) (inside : k < nSpatial p) :
      Csrs.raw (scatter csrs (setPort p a)) (baseCsr p + 2 + k) = a.ss k :=
    raw_run csrs once (fun w own => by simp only [parts,List.mem_append,own,true_or,or_true]) inside (by omega)
  have bounds (k : Fin 4) : Csrs.raw (scatter csrs (setPort p a)) (baseCsr p + 2 + nSpatial p + k) = a.tb k :=
    raw_run csrs once (fun w own => by simp only [parts,List.mem_append,own,true_or,or_true]) k.isLt (by omega)
  have strides (k : Fin 4) : Csrs.raw (scatter csrs (setPort p a)) (baseCsr p + 2 + nSpatial p + 4 + k) = a.ts k :=
    raw_run csrs once (fun w own => by simp only [parts,List.mem_append,own,or_true]) k.isLt (by omega)
  have kept (i : Nat) (other : i = baseCsr p + 1 ∨ i = baseCsr p + 2 + nSpatial p + 8) :
      Csrs.raw (scatter csrs (setPort p a)) i = csrs.raw i := by
    apply raw_kept
    intro w member
    simp only [parts,List.mem_append,mem_writeCsrs] at member
    rcases member with ((⟨k,inside,rfl⟩ | ⟨k,inside,rfl⟩) | ⟨k,inside,rfl⟩) | ⟨k,inside,rfl⟩ <;>
      dsimp only <;> omega
  have lanes (k : Nat) : (if k < nSpatial p then Csrs.raw (scatter csrs (setPort p a)) (baseCsr p + 2 + k) else 0) =
      if k < nSpatial p then a.ss k else 0 := by
    split
    · rw [spatial k ‹_›]
    · rfl
  simp only [PortArgs.onto,decodePorts,low,lanes,bounds,strides,kept _ (.inl rfl),kept _ (.inr rfl),high_append]
  rfl

theorem decode_disablePort (port : p < 18) (csrs : Csrs) :
    decodePorts (Csrs.raw (scatter csrs (disablePort p))) p = disabled (decodePorts csrs.raw p) := by
  have once := (disablePort_within port).once
  have last := (csr_eq p (List.mem_range.mpr port)).2.2.2.2.2.2.2
  simp only [block] at last
  have first : (⟨960 + (baseCsr p + 2 + nSpatial p) + 0,0⟩ : Write (BitVec 32)) ∈ disablePort p := by
    rw [disablePort_eq port,mem_writeCsrs]
    exact ⟨0,Nat.one_pos,rfl⟩
  have kept (i : Nat) (other : i ≠ baseCsr p + 2 + nSpatial p) :
      Csrs.raw (scatter csrs (disablePort p)) i = csrs.raw i := by
    apply raw_kept
    intro w member
    rw [disablePort_eq port,mem_writeCsrs] at member
    obtain ⟨k,inside,rfl⟩ := member
    dsimp only
    omega
  have bounds (k : Fin 4) : Csrs.raw (scatter csrs (disablePort p)) (baseCsr p + 2 + nSpatial p + k) =
      if k = 0 then 0 else csrs.raw (baseCsr p + 2 + nSpatial p + k) := by
    by_cases innermost : k = 0
    · subst innermost
      exact raw_written csrs once first (Nat.add_zero _) (by omega)
    · rw [if_neg innermost]
      exact kept _ fun same => innermost (Fin.ext (by simpa using same))
  have lanes (k : Nat) :
      (if k < nSpatial p then Csrs.raw (scatter csrs (disablePort p)) (baseCsr p + 2 + k) else 0) =
        if k < nSpatial p then csrs.raw (baseCsr p + 2 + k) else 0 := by
    split
    · exact kept _ (by omega)
    · rfl
  have strides (k : Fin 4) := kept (baseCsr p + 2 + nSpatial p + 4 + k) (by omega)
  simp only [disabled,decodePorts,lanes,bounds,strides,kept (baseCsr p) (by omega),
    kept (baseCsr p + 1) (by omega),kept (baseCsr p + 2 + nSpatial p + 8) (by omega)]
  rfl

theorem decode_disableR13 (csrs : Csrs) :
    decodePorts (Csrs.raw (scatter csrs disableR13)) 13 = cleared (decodePorts csrs.raw 13) := by
  have once := disableR13_within.once
  obtain ⟨-,ss,tb,ts,-,-,-,last⟩ := csr_eq 13 (by decide)
  have line : nSpatial 13 = 1 := rfl
  have parts : disableR13 = writeCsrs (960 + (baseCsr 13 + 2)) 1 (fun _ => 1) ++
      writeCsrs (960 + (baseCsr 13 + 2 + nSpatial 13)) 4 (fun _ => 0) ++
      writeCsrs (960 + (baseCsr 13 + 2 + nSpatial 13 + 4)) 4 (fun _ => 1) := by
    rw [disableR13,ss,tb,ts]
  simp only [block] at last
  have run (n : Nat) {i : Nat} {value : BitVec 32} (part : writeCsrs (960 + i) n (fun _ => value) ⊆ disableR13) {k : Nat}
      (inside : k < n) (fits : i + n ≤ 218) : Csrs.raw (scatter csrs disableR13) (i + k) = value :=
    raw_run csrs once part inside fits
  have spatial (k : Nat) : (if k < nSpatial 13 then Csrs.raw (scatter csrs disableR13) (baseCsr 13 + 2 + k) else 0) =
      if k < nSpatial 13 then 1 else 0 := by
    split
    · exact run 1 (fun w own => by simp only [parts,List.mem_append,own,true_or]) (by omega) (by omega)
    · rfl
  have bounds (k : Fin 4) : Csrs.raw (scatter csrs disableR13) (baseCsr 13 + 2 + nSpatial 13 + k) = 0 :=
    run 4 (fun w own => by simp only [parts,List.mem_append,own,true_or,or_true]) k.isLt (by omega)
  have strides (k : Fin 4) : Csrs.raw (scatter csrs disableR13) (baseCsr 13 + 2 + nSpatial 13 + 4 + k) = 1 :=
    run 4 (fun w own => by simp only [parts,List.mem_append,own,or_true]) k.isLt (by omega)
  have kept (i : Nat) (other : i < baseCsr 13 + 2 ∨ baseCsr 13 + 2 + nSpatial 13 + 8 ≤ i) :
      Csrs.raw (scatter csrs disableR13) i = csrs.raw i := by
    apply raw_kept
    intro w member
    simp only [parts,List.mem_append,mem_writeCsrs] at member
    rcases member with (⟨k,inside,rfl⟩ | ⟨k,inside,rfl⟩) | ⟨k,inside,rfl⟩ <;>
      dsimp only <;> omega
  simp only [cleared,decodePorts,spatial,bounds,strides,kept (baseCsr 13) (.inl (by omega)),
    kept (baseCsr 13 + 1) (.inl (by omega)),kept (baseCsr 13 + 2 + nSpatial 13 + 8) (.inr (Nat.le_refl _))]
  rfl

/-! ### The functions -/

/-- What the arguments of `set_streamer_csr` make of a port. -/
def PortArgs.apply (a : PortArgs) (en : Bool) (old : Port) : Port := if en then a.onto old else disabled old

theorem setOrDisable_within (port : p < 18) (args : Nat → PortArgs) (en : Nat → Bool) :
    Within p (if en p then setPort p (args p) else disablePort p) := by
  split
  · exact setPort_within port _
  · exact disablePort_within port

/-- Whatever the registers held, the simulator and the generator find the arguments in the enabled ports, and
in the others what was there, with an innermost bound of zero. -/
theorem set_streamer_csr_decodes (args : Nat → PortArgs) (en : Nat → Bool) (csrs : Csrs) {p : Nat} (port : p < 18) :
    decodePorts (Csrs.raw (scatter csrs (setStreamerCsr args en))) p =
        (args p).apply (en p) (decodePorts csrs.raw p) ∧
      Decoded ((args p).apply (en p) (decodePorts csrs.raw p))
        (aguCfg (Csrs.raw (scatter csrs (setStreamerCsr args en))) p) := by
  have simulator : decodePorts (Csrs.raw (scatter csrs (setStreamerCsr args en))) p =
      (args p).apply (en p) (decodePorts csrs.raw p) := by
    rw [setStreamerCsr,decodePorts_port List.nodup_range
      (fun q member => setOrDisable_within (List.mem_range.mp member) args en) csrs port (List.mem_range.mpr port),
      PortArgs.apply]
    cases en p with
    | true => exact decode_setPort port (args p) csrs
    | false => exact decode_disablePort port csrs
  refine ⟨simulator,?_⟩
  rw [← simulator]
  exact decoded port

/-- A line of two words from byte 256 on. -/
def lineArgs : PortArgs := ⟨0x10000100,fun _ => 8,fun k => if k = 0 then 2 else 1,fun _ => 8⟩

theorem set_streamer_csr_decodes_line :
    decodePorts (Csrs.raw (scatter (fun _ => 5) (setStreamerCsr (fun _ => lineArgs) fun p => p == 7))) 7 =
        lineArgs.apply (7 == 7) (decodePorts (Csrs.raw fun _ => 5) 7) ∧
      Decoded (lineArgs.apply (7 == 7) (decodePorts (Csrs.raw fun _ => 5) 7))
        (aguCfg (Csrs.raw (scatter (fun _ => 5) (setStreamerCsr (fun _ => lineArgs) fun p => p == 7))) 7) :=
  set_streamer_csr_decodes (fun _ => lineArgs) (fun p => p == 7) (fun _ => 5) (by decide)

/-- `set_streamer_csr` with the ports of a list enabled. -/
def configure (used : List (Nat × PortArgs)) : CsrWrites :=
  setStreamerCsr (fun p => (used.lookup p).getD ⟨0,fun _ => 0,fun _ => 0,fun _ => 0⟩) fun p => (used.lookup p).isSome

theorem configure_of_perm (ports : List Nat) (all : ports.Perm (List.range 18)) (args : Nat → PortArgs)
    (en : Nat → Bool) (csrs : Csrs) :
    scatter csrs (ports.flatMap fun p => if en p then setPort p (args p) else disablePort p) =
      scatter csrs (setStreamerCsr args en) := by
  refine scatter_perm csrs (ports_once (all.nodup_iff.mpr List.nodup_range) fun p member => ?_) (all.flatMap_right _)
  exact setOrDisable_within (List.mem_range.mp (all.mem_iff.mp member)) args en

theorem osgemm_configures (A B D : PortArgs) (csrs : Csrs) :
    scatter csrs (setOsgemmStreamerCsr A B D) = scatter csrs (configure [(0,A),(1,B),(14,D)]) := by
  rw [configure,← configure_of_perm [0,1,14,2,3,4,5,6,7,8,9,10,11,12,13,15,16,17] (by decide)]
  simp [setOsgemmStreamerCsr,List.lookup_cons]

theorem isgemm_configures (A B CD : PortArgs) (csrs : Csrs) :
    scatter csrs (setIsgemmStreamerCsr A B CD) =
      scatter csrs (configure [(11,A),(12,B),(13,CD),(17,CD)]) := by
  rw [configure,← configure_of_perm [11,12,13,17,0,1,2,3,4,5,6,7,8,9,10,14,15,16] (by decide)]
  simp [setIsgemmStreamerCsr,List.lookup_cons]

theorem simd_configures (A B C : PortArgs) (csrs : Csrs) :
    scatter csrs (setSimdStreamerCsr A B C) = scatter csrs (configure [(7,A),(13,B),(17,C)]) := by
  rw [configure,← configure_of_perm [7,13,17,0,1,2,3,4,5,6,8,9,10,11,12,14,15,16] (by decide)]
  simp [setSimdStreamerCsr,List.lookup_cons]

/-- The ports of `set_simd_streamer_no_b`, of which R13 is the last. -/
def noBPort (A C : PortArgs) (p : Nat) : CsrWrites :=
  if p = 13 then disableR13 else if p = 7 then setPort p A else if p = 17 then setPort p C else disablePort p

theorem no_b_eq (A C : PortArgs) : setSimdStreamerNoB A C =
    [7,17,0,1,2,3,4,5,6,8,9,10,11,12,14,15,16,13].flatMap (noBPort A C) := by
  simp [setSimdStreamerNoB,noBPort]

theorem noBPort_within (port : p < 18) (A C : PortArgs) : Within p (noBPort A C p) := by
  unfold noBPort
  split
  · subst p
    exact disableR13_within
  · split
    · exact setPort_within port A
    · split
      · exact setPort_within port C
      · exact disablePort_within port

/-- The functions for single cores leave the registers that `set_streamer_csr` leaves, with their own ports
enabled and no other; the one without B alone clears R13 in place of its innermost bound. -/
theorem shorthands_configure (csrs : Csrs) (A B C : PortArgs) :
    scatter csrs (setOsgemmStreamerCsr A B C) = scatter csrs (configure [(0,A),(1,B),(14,C)]) ∧
    scatter csrs (setIsgemmStreamerCsr A B C) = scatter csrs (configure [(11,A),(12,B),(13,C),(17,C)]) ∧
    scatter csrs (setSimdStreamerCsr A B C) = scatter csrs (configure [(7,A),(13,B),(17,C)]) ∧
    ∀ p < 18, decodePorts (Csrs.raw (scatter csrs (setSimdStreamerNoB A C))) p =
      if p = 13 then cleared (decodePorts csrs.raw p)
      else decodePorts (Csrs.raw (scatter csrs (configure [(7,A),(17,C)]))) p := by
  refine ⟨osgemm_configures A B C csrs,isgemm_configures A B C csrs,simd_configures A B C csrs,fun p port => ?_⟩
  have all : [7,17,0,1,2,3,4,5,6,8,9,10,11,12,14,15,16,13].Perm (List.range 18) := by decide
  rw [no_b_eq,decodePorts_port (all.nodup_iff.mpr List.nodup_range)
    (fun q member => noBPort_within (List.mem_range.mp (all.mem_iff.mp member)) A C) csrs port
    (all.mem_iff.mpr (List.mem_range.mpr port)),configure,(set_streamer_csr_decodes _ _ csrs port).1]
  by_cases psum : p = 13
  · subst psum
    exact decode_disableR13 csrs
  · rw [if_neg psum,noBPort,if_neg psum]
    by_cases input : p = 7
    · subst input
      exact decode_setPort port A csrs
    · by_cases output : p = 17
      · subst output
        exact decode_setPort port C csrs
      · rw [if_neg input,if_neg output,decode_disablePort port]
        have none : List.lookup p [(7,A),(17,C)] = none := by
          simp [List.lookup_cons,beq_false_of_ne input,beq_false_of_ne output]
        rw [none]
        rfl

/-! ### Disabled ports -/

/-- What the generator of a port is configured with. -/
def generatorCfg (raw : Nat → BitVec 32) (p : Nat) : AddressGenUnitCfgIO (portParam p).aguParam :=
  if p < 14 then (aguCfg raw p).readOnce else aguCfg raw p

/-- The vectors that a port still runs through when its innermost bound is zero: none, but for a reader whose
innermost stride is zero. -/
def residue (cfg : AddressGenUnitCfgIO (portParam p).aguParam) : Nat :=
  if p < 14 ∧ cfg.stride0 = 0 then cfg.outerBounds.prod else 0

theorem bound0_decoded {raw : Nat → BitVec 32} (port : p < 18) :
    (aguCfg raw p).bound0 = (getElem (decodePorts raw p).tBound 0 first_loop).setWidth _ := by
  have entry : (aguCfg raw p).bound0 = (raw (register p .temporalBounds 0)).setWidth _ := Vector.getElem_ofFn _
  have read : (decodePorts raw p).tBound[0] = raw (baseCsr p + 2 + nSpatial p + 0) := Vector.getElem_ofFn _
  rw [entry,read,register_temporalBounds port (by decide)]

theorem total_of_bound0 {raw : Nat → BitVec 32} (zero : (aguCfg raw p).bound0 = 0) :
    (generatorCfg raw p).total = residue (aguCfg raw p) := by
  have none : (aguCfg raw p).total = 0 := by
    rw [ AddressGenUnitCfgIO.total, AddressGenUnitCfgIO.bounds_eq,zero,List.prod_cons]
    exact Nat.zero_mul _
  rw [generatorCfg,residue]
  by_cases reader : p < 14
  · rw [if_pos reader]
    by_cases still : (aguCfg raw p).stride0 = 0
    · rw [if_pos ⟨reader,still⟩]
      exact ( AddressGenUnitCfgIO.readOnce_total _ still).1
    · rw [if_neg fun both => still both.2, AddressGenUnitCfgIO.readOnce_of_stride _ still]
      exact none
  · rw [if_neg reader,if_neg fun both => reader both.1]
    exact none

/-- Disabling a port leaves its outer loops and its stride, and nothing of its innermost loop. -/
theorem total_disabled {raw raw' : Nat → BitVec 32} (port : p < 18)
    (off : decodePorts raw' p = disabled (decodePorts raw p)) :
    (generatorCfg raw' p).total = residue (aguCfg raw p) := by
  have stride : (aguCfg raw' p).stride0 = (aguCfg raw p).stride0 := by
    rw [stride0_decoded port,stride0_decoded port,off]
    rfl
  have zero : (aguCfg raw' p).bound0 = 0 := by
    rw [bound0_decoded port,off,disabled,Vector.getElem_set_self]
    exact BitVec.setWidth_zero _ _
  have outer : (aguCfg raw' p).outerBounds = (aguCfg raw p).outerBounds := by
    have rest : (disabled (decodePorts raw p)).tBound.toList.tail = (decodePorts raw p).tBound.toList.tail := by
      rw [disabled,Vector.toList_set,vector_toList_cons _ (show 0 < 4 by decide)]
      rfl
    rw [ AddressGenUnitCfgIO.outerBounds, AddressGenUnitCfgIO.outerBounds, AddressGenUnitCfgIO.bounds,
      AddressGenUnitCfgIO.bounds,(decoded port).bounds,(decoded port).bounds,off,← List.map_tail,← List.map_tail,
      ← List.map_tail,← List.map_tail,rest]
  rw [total_of_bound0 zero,residue,residue,stride,outer]

/-- A port that the driver disables is disabled for the simulator, whatever its registers held. Its generator
does nothing in any run either, unless it is a reader whose innermost stride register holds zero: that one goes
through its outer loops, and pushes addresses as long as there is room. -/
theorem disabled_port_runs (args : Nat → PortArgs) {en : Nat → Bool} (csrs : Csrs) {p : Nat} (port : p < 18)
    (off : en p = false) (s : AddressGenUnit.State (portParam p).aguParam) (idle : s.currentState = .sIDLE)
    {i : AddressGenUnit.Input (portParam p).aguParam}
    (held : i.cfg = generatorCfg (Csrs.raw (scatter csrs (setStreamerCsr args en))) p) (start : i.start = true)
    (rest : List (AddressGenUnit.Input (portParam p).aguParam)) (running : ∀ j ∈ rest,
      AddressGenUnit.Running (generatorCfg (Csrs.raw (scatter csrs (setStreamerCsr args en))) p) j) :
    let sweep := (addressGenUnit (portParam p).aguParam).outs (AddressGenUnit.next s i) rest
    (decodePorts (Csrs.raw (scatter csrs (setStreamerCsr args en))) p).enabled = false ∧
      (AddressGenUnit.accepted sweep).length =
        min (residue (aguCfg csrs.raw p)) (AddressGenUnit.readyCycles sweep) := by
  intro sweep
  have decodes := (set_streamer_csr_decodes args en csrs port).1
  rw [PortArgs.apply,off,if_neg Bool.false_ne_true] at decodes
  have swept := AddressGenUnit.run_swept _ s i held start (.inl idle) rest running
  refine ⟨congrArg Port.enabled decodes,?_⟩
  rw [← total_disabled port decodes]
  exact swept.count

/-- The CSRs after a use of R3 with an innermost loop that stays. -/
def stillCsrs : Csrs := fun r => stillR3 (r - 960)

def offInput (start : Bool) : AddressGenUnit.Input (portParam 3).aguParam :=
  ⟨generatorCfg (Csrs.raw (scatter stillCsrs (setStreamerCsr (fun _ => lineArgs) fun p => p == 7))) 3,start,
    fun _ => true⟩

theorem offInput_held (start : Bool) : (offInput start).cfg =
    generatorCfg (Csrs.raw (scatter stillCsrs (setStreamerCsr (fun _ => lineArgs) fun p => p == 7))) 3 := rfl

theorem offInput_start (start : Bool) : (offInput start).start = start := rfl

/-- R3 is disabled, and its generator goes through its outer loops all the same. -/
theorem disabled_port_runs_still :
    let sweep := (addressGenUnit (portParam 3).aguParam).outs
      (AddressGenUnit.next (AddressGenUnit.initial _) (offInput true)) (List.replicate 3 (offInput false))
    (decodePorts (Csrs.raw (scatter stillCsrs (setStreamerCsr (fun _ => lineArgs) fun p => p == 7))) 3).enabled =
        false ∧
      (AddressGenUnit.accepted sweep).length =
        min (residue (aguCfg stillCsrs.raw 3)) (AddressGenUnit.readyCycles sweep) :=
  disabled_port_runs (fun _ => lineArgs) stillCsrs (by decide) rfl (AddressGenUnit.initial _) rfl
    (offInput_held true) (offInput_start true) _
    fun _ member => List.eq_of_mem_replicate member ▸ ⟨offInput_held false,offInput_start false⟩

/-- R13 is safe after `set_simd_streamer_no_b`: its generator pushes nothing in any run. -/
theorem cleared_port_rests (A C : PortArgs) (csrs : Csrs) (s : AddressGenUnit.State (portParam 13).aguParam)
    (idle : s.currentState = .sIDLE) {i : AddressGenUnit.Input (portParam 13).aguParam}
    (held : i.cfg = generatorCfg (Csrs.raw (scatter csrs (setSimdStreamerNoB A C))) 13) (start : i.start = true)
    (rest : List (AddressGenUnit.Input (portParam 13).aguParam)) (running : ∀ j ∈ rest,
      AddressGenUnit.Running (generatorCfg (Csrs.raw (scatter csrs (setSimdStreamerNoB A C))) 13) j) :
    AddressGenUnit.accepted ((addressGenUnit (portParam 13).aguParam).outs (AddressGenUnit.next s i) rest) = [] := by
  have decodes := (shorthands_configure csrs A ⟨0,fun _ => 0,fun _ => 0,fun _ => 0⟩ C).2.2.2 13 (by decide)
  rw [if_pos rfl] at decodes
  have stride : (aguCfg (Csrs.raw (scatter csrs (setSimdStreamerNoB A C))) 13).stride0 ≠ 0 := by
    rw [stride0_decoded (by decide),decodes,cleared,Vector.getElem_replicate]
    decide +kernel
  have zero : (aguCfg (Csrs.raw (scatter csrs (setSimdStreamerNoB A C))) 13).bound0 = 0 := by
    rw [bound0_decoded (by decide),decodes,cleared,Vector.getElem_replicate]
    exact BitVec.setWidth_zero _ _
  have swept := AddressGenUnit.run_swept _ s i held start (.inl idle) rest running
  have count := swept.count
  rw [total_of_bound0 zero,residue,if_neg fun both => stride both.2,Nat.zero_min] at count
  exact List.length_eq_zero_iff.mp count

def clearedInput (start : Bool) : AddressGenUnit.Input (portParam 13).aguParam :=
  ⟨generatorCfg (Csrs.raw (scatter (fun _ => 5) (setSimdStreamerNoB lineArgs lineArgs))) 13,start,fun _ => true⟩

theorem clearedInput_held (start : Bool) : (clearedInput start).cfg =
    generatorCfg (Csrs.raw (scatter (fun _ => 5) (setSimdStreamerNoB lineArgs lineArgs))) 13 := rfl

theorem clearedInput_start (start : Bool) : (clearedInput start).start = start := rfl

theorem cleared_port_rests_line :
    AddressGenUnit.accepted ((addressGenUnit (portParam 13).aguParam).outs
      (AddressGenUnit.next (AddressGenUnit.initial _) (clearedInput true)) (List.replicate 3 (clearedInput false))) = [] :=
  cleared_port_rests lineArgs lineArgs (fun _ => 5) (AddressGenUnit.initial _) rfl
    (clearedInput_held true) (clearedInput_start true) _
    fun _ member => List.eq_of_mem_replicate member ▸ ⟨clearedInput_held false,clearedInput_start false⟩

end Snax.Simbacore
