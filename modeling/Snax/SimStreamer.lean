import Snax.Fabric
import Snax.Sync.MixedRadix

/-! `sim/src/machine.hpp`, `cyc.cpp` and `cyc_engine.cpp`: how the simulator's streamers
address the TCDM. Readers and writers walk the loop nest of a port descriptor and post one
request per lane; the dt_BC reader is stepped by hand, in two copies. -/
namespace Snax

/-- A streamer port descriptor, `int32_t` fields as the CSR words they are read from. -/
structure Agu where
  base : BitVec 64
  sStride : Vector (BitVec 32) 2
  tBound : Vector (BitVec 32) 4
  tStride : Vector (BitVec 32) 4
  remap : BitVec 32

namespace Agu

theorem sStride_toList (a : Agu) : a.sStride.toList = [a.sStride[0],a.sStride[1]] := by
  obtain ⟨base,⟨⟨sStride⟩,size⟩,tBound,tStride,remap⟩ := a
  match sStride,size with
  | [_,_],_ => rfl

/-- The second spatial stride doubles the first, so that a square is also a line. -/
def Doubled (a : Agu) : Prop := a.sStride[1].toInt = 2 * a.sStride[0].toInt

end Agu

def aguSwz (a remap : BitVec 32) : BitVec 32 :=
  if remap = 1 then a ^^^ ((a >>> 3) &&& 0xE0)
  else if remap = 2 then a ^^^ ((a >>> 3) &&& 0x60)
  else a

/-- `(agu_swz((uint32_t)addr, remap) >> 3) & 31`. -/
def postedBank (addr : BitVec 64) (remap : BitVec 32) : Nat :=
  ((aguSwz (addr.setWidth 32) remap >>> 3) &&& 31).toNat

namespace Agu

/-- `t_bound[i] ? t_bound[i] : 1`. -/
def effective (bound : BitVec 32) : Int := if bound.toInt ≠ 0 then bound.toInt else 1

def effectiveBounds (a : Agu) : List Int := a.tBound.toList.map effective

/-- A stride-0 innermost loop is read once and replayed. -/
def reuse (a : Agu) : Int :=
  if a.tStride[0].toInt = 0 ∧ 1 < a.tBound[0].toInt then a.tBound[0].toInt else 1

def strides (a : Agu) : List Int := a.tStride.toList.map BitVec.toInt

/-- The loop `ti0[d] = r % eb[d]; r /= eb[d]`. -/
def unroll : List Int → Int → List Int
  | [], _ => []
  | e :: es, r => r.tmod e :: unroll es (r.tdiv e)

def toff : List Int → List Int → Int
  | t :: ti, s :: ts => t * s + toff ti ts
  | _, _ => 0

end Agu

/-- What `configure` stores, common to the two streamer classes. -/
structure StreamerCfg where
  base : BitVec 64
  ts : List Int
  eb : List Int
  numChannel : Nat
  nSpatial : Nat
  sstride : Vector Int 2
  sbound : Nat
  port : Nat
  remap : BitVec 32

namespace StreamerCfg

def soff (r : StreamerCfg) (lane : Nat) : Int :=
  if r.nSpatial = 2 then (lane % r.sbound : Nat) * r.sstride[0] + (lane / r.sbound : Nat) * r.sstride[1]
  else lane * r.sstride[0]

/-- `base + toff + soff`, in `uint64_t`. -/
def addrAt (r : StreamerCfg) (ti : List Int) (lane : Nat) : BitVec 64 :=
  r.base + BitVec.ofInt 64 (Agu.toff ti r.ts) + BitVec.ofInt 64 (r.soff lane)

def token (r : StreamerCfg) (lane : Nat) : Nat := r.port <<< 4 ||| lane

end StreamerCfg

namespace CycReader

structure Cfg extends StreamerCfg where
  dataDepth : Int
  addrDepth : Int
  reuse : Int

def configure (a : Agu) (nch nsp : Nat) (fd : Int) (prt : Nat) : Cfg where
  base := a.base
  ts := a.strides
  eb := (if 1 < a.reuse then 1 else Agu.effective a.tBound[0]) :: a.effectiveBounds.tail
  numChannel := nch
  nSpatial := nsp
  sstride := a.sStride.map BitVec.toInt
  sbound := if nsp = 2 then 2 else nch
  port := prt
  remap := a.remap
  dataDepth := fd
  addrDepth := fd
  reuse := a.reuse

structure State where
  laneIssued : Nat → Int
  laneLanded : Nat → Int
  consumed : Int
  active : Bool

/-- The product of the bounds, in `long`. -/
def total (r : Cfg) : Int := r.eb.foldl (fun acc e => (BitVec.ofInt 64 (acc * e)).toInt) 1

def laneAddr (r : Cfg) (group : Int) (lane : Nat) : BitVec 64 :=
  r.addrAt (Agu.unroll r.eb (group.tmod (if total r ≠ 0 then total r else 1))) lane

def minLanded (r : Cfg) (s : State) : Int :=
  (List.range (r.numChannel - 1)).foldl (fun m l => min (s.laneLanded (l + 1)) m) (s.laneLanded 0)

/-- The request lane `l` proposes for its next group. -/
def lanePost (r : Cfg) (s : State) (l : Nat) : Post where
  bank := postedBank (laneAddr r (s.laneIssued l) l) r.remap
  tok := r.token l
  prio := if minLanded r s - s.consumed ≤ 1 then 1 else 0

def issues (r : Cfg) (s : State) (l : Nat) : Bool :=
  s.laneIssued l - s.consumed < r.dataDepth && s.laneIssued l - s.laneLanded l < r.addrDepth

def propose (r : Cfg) (s : State) : List Post :=
  if s.active then ((List.range r.numChannel).filter (issues r s)).map (lanePost r s) else []

end CycReader

namespace CycWriter

structure Cfg extends StreamerCfg where
  depth : Int

def configure (a : Agu) (nch nsp prt : Nat) (depth : Int) : Cfg where
  base := a.base
  ts := a.strides
  eb := a.effectiveBounds
  numChannel := nch
  nSpatial := nsp
  sstride := a.sStride.map BitVec.toInt
  sbound := if nsp = 2 then 2 else nch
  port := prt
  remap := a.remap
  depth := depth

structure State where
  ti : List Int
  laneDone : Nat → Bool
  fifoOcc : Int
  written : Int
  done : Bool

def configured : State := ⟨[0,0,0,0],fun _ => false,0,0,false⟩

def lanePost (r : Cfg) (s : State) (l : Nat) : Post where
  bank := postedBank (r.addrAt s.ti l) r.remap
  tok := r.token l
  prio := if r.depth - 1 ≤ s.fifoOcc then 1 else 0

def propose (r : Cfg) (s : State) : List Post :=
  if s.done || s.fifoOcc ≤ 0 then []
  else ((List.range r.numChannel).filter fun l => !s.laneDone l).map (lanePost r s)

/-- The loop `if (++ti[d] < eb[d]) break; ti[d] = 0`. -/
def advance : List Int → List Int → List Int
  | e :: es, t :: ti => if t + 1 < e then (t + 1) :: ti else 0 :: advance es ti
  | _, ti => ti

def push (s : State) (groups : Int) : State := { s with fifoOcc := s.fifoOcc + groups }

/-- `granted l` is what the fabric answered the post of lane `l`, if it made one. -/
def commit (r : Cfg) (s : State) (granted : Nat → Bool) : State :=
  if s.done || s.fifoOcc ≤ 0 then s
  else
    let laneDone := fun l => s.laneDone l || (decide (l < r.numChannel) && granted l)
    if (List.range r.numChannel).all laneDone then
      { s with
        written := s.written + 1
        fifoOcc := s.fifoOcc - 1
        laneDone := fun _ => false
        ti := advance r.eb s.ti }
    else { s with laneDone := laneDone }

inductive Call where
  | push (groups : Int)
  | commit (granted : Nat → Bool)

end CycWriter

/-- A writer between its producer and the fabric, with what it has posted when it is
called to commit. -/
def cycWriter (r : CycWriter.Cfg) : Sync.Machine CycWriter.State CycWriter.Call (List Post) where
  next s
    | .push groups => CycWriter.push s groups
    | .commit granted => CycWriter.commit r s granted
  out s
    | .push _ => []
    | .commit _ => CycWriter.propose r s

namespace Agu

/-- The hand-stepped dt_BC reader: four lanes in two by two. -/
def handBank (ts eb : List Int) (port : Agu) (st : Int) (lane : Nat) : Nat :=
  postedBank (port.base + BitVec.ofInt 64 (toff (unroll eb st) ts) +
    BitVec.ofInt 64 ((lane % 2 : Nat) * port.sStride[0].toInt +
      (lane / 2 : Nat) * port.sStride[1].toInt)) port.remap

/-- `r7eb_` and `eb`: the innermost bound goes where its stride is 0. -/
def handBounds (port : Agu) : List Int :=
  (if port.tStride[0].toInt = 0 ∧ 1 < port.tBound[0].toInt then 1 else effective port.tBound[0]) ::
    port.effectiveBounds.tail

/-- `AccelEngine::r7bank`, on what `configure` took from port R7. -/
def r7bank (r7 : Agu) (st : Int) (lane : Nat) : Nat := handBank r7.strides r7.handBounds r7 st lane

/-- `step_bank` of `cyc_suc_duration`. -/
def stepBank (r7Agu : Agu) (s : Int) (lane : Nat) : Nat :=
  handBank r7Agu.strides r7Agu.handBounds r7Agu s lane

end Agu
open MixedRadix

/-- A list of naturals as the simulator's signed values. -/
def signed (l : List Nat) : List Int := l.map fun n : Nat => (n : Int)

namespace Agu

theorem unroll_digits (bs : List Nat) (n : Nat) : unroll (signed bs) n = signed (digits bs n) := by
  induction bs generalizing n with
  | nil => rfl
  | cons b bs ih =>
    simp only [signed,List.map_cons,unroll,digits] at ih ⊢
    rw [← Int.ofNat_tmod,← Int.ofNat_tdiv,ih]

theorem toff_dot (ds xs : List Nat) : toff (signed ds) (signed xs) = (dot ds xs : Nat) := by
  induction ds generalizing xs with
  | nil => rfl
  | cons d ds ih =>
    cases xs with
    | nil => rfl
    | cons x xs =>
      simp only [signed,List.map_cons,toff,dot] at ih ⊢
      rw [ih]
      push_cast
      rfl

theorem toInt_of_nonneg {x : BitVec 32} (nonneg : 0 ≤ x.toInt) : x.toInt = x.toNat := by
  rw [BitVec.toInt_eq_toNat_cond] at *
  split
  · rfl
  · have := x.isLt
    rename_i high
    rw [if_neg high] at nonneg
    omega

/-- The bounds and strides of a descriptor, as naturals. -/
def bounds (a : Agu) : List Nat := a.tBound.toList.map BitVec.toNat
def steps (a : Agu) : List Nat := a.tStride.toList.map BitVec.toNat

/-- Positive bounds, strides that do not go back, and a `long` number of groups. -/
structure Walk (a : Agu) : Prop where
  bounds : ∀ b ∈ a.tBound.toList, 1 ≤ b.toInt
  strides : ∀ x ∈ a.tStride.toList, 0 ≤ x.toInt
  lanes : ∀ x ∈ a.sStride.toList, 0 ≤ x.toInt
  groups : a.bounds.prod < 2 ^ 63

variable {a : Agu}

theorem Walk.effectiveBounds (walk : Walk a) : a.effectiveBounds = signed a.bounds := by
  rw [Agu.effectiveBounds,Agu.bounds,signed,List.map_map]
  refine List.map_congr_left fun b member => ?_
  have positive := walk.bounds b member
  rw [effective,if_pos (by omega)]
  exact toInt_of_nonneg (by omega)

theorem Walk.strides_eq (walk : Walk a) : a.strides = signed a.steps := by
  rw [Agu.strides,Agu.steps,signed,List.map_map]
  exact List.map_congr_left fun x member => toInt_of_nonneg (walk.strides x member)

theorem Walk.bounds_positive (walk : Walk a) : ∀ b ∈ a.bounds, 0 < b := by
  intro b member
  obtain ⟨x,inside,rfl⟩ := List.mem_map.mp member
  have positive := walk.bounds x inside
  have := toInt_of_nonneg (x := x) (by omega)
  omega

theorem bounds_cons (a : Agu) : a.bounds = a.tBound[0].toNat :: a.bounds.tail := by
  obtain ⟨base,sStride,⟨⟨tBound⟩,size⟩,tStride,remap⟩ := a
  cases tBound with
  | nil => simp at size
  | cons b tBound => rfl

theorem steps_cons (a : Agu) : a.steps = a.tStride[0].toNat :: a.steps.tail := by
  obtain ⟨base,sStride,tBound,⟨⟨tStride⟩,size⟩,remap⟩ := a
  cases tStride with
  | nil => simp at size
  | cons x tStride => rfl

/-- How often a group that a reader fetches is replayed, and the bounds it walks then. -/
def replays (a : Agu) : Nat :=
  if a.tStride[0].toNat = 0 ∧ 1 < a.tBound[0].toNat then a.tBound[0].toNat else 1

def readBounds (a : Agu) : List Nat :=
  (if a.tStride[0].toNat = 0 ∧ 1 < a.tBound[0].toNat then 1 else a.tBound[0].toNat) :: a.bounds.tail

theorem Walk.first (walk : Walk a) :
    a.tBound[0].toInt = a.tBound[0].toNat ∧ 1 ≤ a.tBound[0].toNat ∧
      a.tStride[0].toInt = a.tStride[0].toNat := by
  have positive := walk.bounds a.tBound[0] (by simp)
  have bound := toInt_of_nonneg (x := a.tBound[0]) (by omega)
  exact ⟨bound,by omega,toInt_of_nonneg (walk.strides a.tStride[0] (by simp))⟩

theorem Walk.reuse_eq (walk : Walk a) : a.reuse = a.replays := by
  obtain ⟨bound,_,stride⟩ := walk.first
  rw [Agu.reuse,replays,bound,stride]
  by_cases collapse : a.tStride[0].toNat = 0 ∧ 1 < a.tBound[0].toNat
  · rw [if_pos collapse,if_pos (by omega)]
  · rw [if_neg collapse,if_neg (by omega)]
    rfl

theorem Walk.handBounds_eq (walk : Walk a) : a.handBounds = signed a.readBounds := by
  obtain ⟨bound,positive,stride⟩ := walk.first
  have rest : a.effectiveBounds.tail = signed a.bounds.tail := by
    rw [walk.effectiveBounds,signed,signed,List.map_tail]
  rw [handBounds,readBounds,rest,bound,stride]
  by_cases collapse : a.tStride[0].toNat = 0 ∧ 1 < a.tBound[0].toNat
  · rw [if_pos (by omega),if_pos collapse]
    rfl
  · rw [if_neg (by omega),if_neg collapse,effective,if_pos (by omega),bound]
    rfl

/-- The collapsed walk visits the same offsets, each once for all its replays. -/
theorem collapse_offset (a : Agu) (n : Nat) :
    dot (digits a.readBounds (n / a.replays)) a.steps = dot (digits a.bounds n) a.steps := by
  rw [bounds_cons a,steps_cons a,readBounds,replays]
  by_cases collapse : a.tStride[0].toNat = 0 ∧ 1 < a.tBound[0].toNat
  · rw [if_pos collapse,if_pos collapse,collapse.1,dot_digits_zero_weight,dot_digits_zero_weight,
      Nat.div_one]
  · rw [if_neg collapse,if_neg collapse,Nat.div_one]

theorem Walk.group_lt (walk : Walk a) {n : Nat} (inside : n < a.bounds.prod) :
    n / a.replays < a.readBounds.prod ∧ a.readBounds.prod < 2 ^ 63 := by
  have groups := walk.groups
  obtain ⟨_,positive,_⟩ := walk.first
  rw [bounds_cons a,List.prod_cons] at inside groups
  rw [readBounds,replays,List.prod_cons]
  by_cases collapse : a.tStride[0].toNat = 0 ∧ 1 < a.tBound[0].toNat
  · rw [if_pos collapse,if_pos collapse,Nat.one_mul]
    refine ⟨Nat.div_lt_of_lt_mul inside,?_⟩
    exact Nat.lt_of_le_of_lt (Nat.le_mul_of_pos_left _ positive) groups
  · rw [if_neg collapse,if_neg collapse,Nat.div_one]
    exact ⟨inside,groups⟩

theorem Walk.readBounds_positive (walk : Walk a) : ∀ b ∈ a.readBounds, 0 < b := by
  obtain ⟨_,positive,_⟩ := walk.first
  intro b member
  rw [readBounds,List.mem_cons] at member
  rcases member with rfl | later
  · split <;> omega
  · exact walk.bounds_positive b (List.mem_of_mem_tail later)

end Agu

namespace CycReader

/-- The `long` product of positive bounds is the product where that fits. -/
theorem foldl_long (bs : List Nat) (acc : Nat) (positive : ∀ b ∈ bs, 0 < b)
    (fits : acc * bs.prod < 2 ^ 63) :
    (signed bs).foldl (fun acc e => (BitVec.ofInt 64 (acc * e)).toInt) (acc : Int) =
      (acc * bs.prod : Nat) := by
  induction bs generalizing acc with
  | nil => simp [signed]
  | cons b bs ih =>
    have rest : 0 < bs.prod :=
      List.prod_pos_iff_forall_pos_nat.mpr fun x member => positive x (List.mem_cons_of_mem b member)
    rw [List.prod_cons,← Nat.mul_assoc] at fits ⊢
    have small : acc * b < 2 ^ 63 := Nat.lt_of_le_of_lt (Nat.le_mul_of_pos_right _ rest) fits
    have step : (BitVec.ofInt 64 ((acc : Int) * b)).toInt = (acc * b : Nat) := by
      rw [BitVec.toInt_ofInt,← Int.natCast_mul]
      apply Int.bmod_eq_of_le <;> omega
    change (signed bs).foldl _ (BitVec.ofInt 64 ((acc : Int) * b)).toInt = _
    rw [step]
    exact ih _ (fun x member => positive x (List.mem_cons_of_mem b member)) fits

/-- The address of a group of the collapsed walk that step `n` of the loop nest falls into. -/
theorem laneAddr_eq {a : Agu} (walk : Agu.Walk a) (nch nsp : Nat) (fd : Int) (prt lane : Nat)
    {n : Nat} (inside : n < a.bounds.prod) :
    laneAddr (configure a nch nsp fd prt) (n / a.reuse) lane =
      a.base + BitVec.ofNat 64 (dot (digits a.bounds n) a.steps) +
        BitVec.ofInt 64 ((configure a nch nsp fd prt).soff lane) := by
  obtain ⟨below,fits⟩ := walk.group_lt inside
  have bounds : (configure a nch nsp fd prt).eb = signed a.readBounds := by
    rw [← walk.handBounds_eq,configure,Agu.handBounds,walk.reuse_eq,Agu.replays]
    obtain ⟨bound,positive,stride⟩ := walk.first
    rw [bound,stride]
    split <;> split <;> simp_all
  have whole : total (configure a nch nsp fd prt) = a.readBounds.prod := by
    rw [total,bounds]
    exact (foldl_long _ 1 walk.readBounds_positive (by omega)).trans (by rw [Nat.one_mul])
  have group : (n / a.reuse : Int).tmod (if total (configure a nch nsp fd prt) ≠ 0 then
      total (configure a nch nsp fd prt) else 1) = (n / a.replays : Nat) := by
    have nonzero : (a.readBounds.prod : Int) ≠ 0 :=
      Int.natCast_ne_zero.mpr (Nat.ne_of_gt (Nat.zero_lt_of_lt below))
    rw [whole,walk.reuse_eq,if_pos nonzero,← Int.natCast_ediv,← Int.ofNat_tmod,
      Nat.mod_eq_of_lt below]
  rw [laneAddr,group,bounds,Agu.unroll_digits,StreamerCfg.addrAt,← Agu.collapse_offset a n,
    ← BitVec.ofInt_natCast,← Agu.toff_dot,← walk.strides_eq]
  rfl

/-- The hand-stepped walk is that of a reader with two by two lanes. -/
theorem handBank_eq {a : Agu} (walk : Agu.Walk a) (lane : Nat) {n : Nat} (inside : n < a.bounds.prod) :
    Agu.handBank a.strides a.handBounds a (n / a.reuse) lane =
      postedBank (laneAddr (configure a 4 2 0 0) (n / a.reuse) lane) a.remap := by
  rw [laneAddr_eq walk 4 2 0 0 lane inside,Agu.handBank,walk.handBounds_eq,walk.reuse_eq,
    ← Int.natCast_ediv,Agu.unroll_digits,walk.strides_eq,Agu.toff_dot,Agu.collapse_offset,
    BitVec.ofInt_natCast]
  simp [StreamerCfg.soff,configure]

end CycReader

namespace CycWriter

theorem advance_digits (bs : List Nat) (positive : ∀ b ∈ bs, 0 < b) (k : Nat) :
    advance (signed bs) (signed (digits bs k)) = signed (digits bs (k + 1)) := by
  induction bs generalizing k with
  | nil => rfl
  | cons b bs ih =>
    have bp : 0 < b := positive b List.mem_cons_self
    have small := Nat.mod_lt k bp
    simp only [signed,digits,List.map_cons,advance] at ih ⊢
    by_cases carry : k % b + 1 = b
    · obtain ⟨low,high⟩ := succ_div_of_carry bp carry
      rw [if_neg (by omega),low,high,ih fun x member => positive x (List.mem_cons_of_mem b member)]
      rfl
    · obtain ⟨low,high⟩ := succ_div_of_no_carry (show k % b + 1 < b by omega)
      rw [if_pos (by omega),low,high]
      push_cast
      rfl

/-- The loop position of a writer is that of the groups it has written. -/
structure Positioned (a : Agu) (s : State) : Prop where
  written : 0 ≤ s.written
  ti : s.ti = signed (digits a.bounds s.written.toNat)

theorem positioned_run {a : Agu} (walk : Agu.Walk a) (nch nsp prt : Nat) (depth : Int)
    (calls : List Call) :
    Positioned a ((cycWriter (configure a nch nsp prt depth)).exec configured calls) := by
  refine Sync.Machine.run_rule (fun _ s => Positioned a s) ?_ ?_ calls
  · refine ⟨Int.le_refl 0,?_⟩
    have four : a.bounds.length = 4 := by simp [Agu.bounds]
    rw [show (configured.written).toNat = 0 from rfl,digits_zero,four]
    rfl
  · rintro _ s (groups | granted) positioned
    · exact ⟨positioned.written,positioned.ti⟩
    · change Positioned a (commit _ s granted)
      unfold commit
      split
      · exact positioned
      · simp only
        split
        · refine ⟨by have := positioned.written; simp only; omega,?_⟩
          have count : (s.written + 1).toNat = s.written.toNat + 1 := by
            have := positioned.written
            omega
          change advance a.effectiveBounds s.ti = _
          rw [walk.effectiveBounds,positioned.ti,advance_digits _ walk.bounds_positive,count]
        · exact ⟨positioned.written,positioned.ti⟩

/-- The address of the group a writer stands at. -/
theorem laneAddr_eq {a : Agu} (walk : Agu.Walk a) (nch nsp prt lane : Nat) (depth : Int)
    (calls : List Call) {n : Nat}
    (count : ((cycWriter (configure a nch nsp prt depth)).exec configured calls).written = n) :
    (configure a nch nsp prt depth).addrAt
        ((cycWriter (configure a nch nsp prt depth)).exec configured calls).ti lane =
      a.base + BitVec.ofNat 64 (dot (digits a.bounds n) a.steps) +
        BitVec.ofInt 64 ((configure a nch nsp prt depth).soff lane) := by
  rw [StreamerCfg.addrAt,(positioned_run walk nch nsp prt depth calls).ti,count,Int.toNat_natCast,
    ← BitVec.ofInt_natCast,← Agu.toff_dot,← walk.strides_eq]
  rfl

end CycWriter
end Snax
