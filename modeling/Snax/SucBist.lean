import Mathlib.Algebra.Order.Ring.Int
import Mathlib.Tactic.Linarith
import Snax.AccelUnits
import Snax.StreamerConservation

/-! The delivery self-test of the SUC, `cyc_suc_bist` in `sim/src/cyc.cpp`: a reader on a fabric
of its own, and a consumer that takes its groups four at a time. -/
namespace Snax

/-- A reader with the ring that holds the numbers of its landed groups. -/
structure TrackedReader where
  reader : CycReader
  prodDelivered : Nat
  idxRing : Nat → Int
  irHead : Nat
  irTail : Nat
  irCnt : Nat

namespace TrackedReader

/-- A count stored as an `int`. -/
def index (n : Nat) : Int := (BitVec.ofNat 32 n).toInt

variable (r : TrackedReader)

def popIdx : Option (Int × TrackedReader) :=
  if r.irCnt = 0 then none
  else some (r.idxRing r.irHead,{ r with irHead := (r.irHead + 1) % 64, irCnt := r.irCnt - 1 })

def pushIdx : TrackedReader :=
  { r with
    idxRing := fun i => if i = r.irTail then index r.prodDelivered else r.idxRing i
    prodDelivered := r.prodDelivered + 1
    irTail := (r.irTail + 1) % 64
    irCnt := r.irCnt + 1 }

/-- The loop of `land_reads` at `room` free places. -/
def fill (m : Int) : Nat → TrackedReader → TrackedReader
  | 0,r => r
  | room + 1,r => if (r.prodDelivered : Int) < m then fill m room r.pushIdx else r

def landReads : TrackedReader :=
  fill (CycReader.minLanded r.reader.landReads.cfg r.reader.landReads.toState) (64 - r.irCnt)
    { r with reader := r.reader.landReads }

def reset : TrackedReader :=
  { r with reader := r.reader.reset, prodDelivered := 0, irHead := 0, irTail := 0, irCnt := 0 }

end TrackedReader

namespace SucBist

open TrackedReader (index)

/-- The locals of `suc_bist_pass` and its result; `order` are the numbers that `pop_idx` has given,
which the source drops. -/
structure State where
  r : TrackedReader
  f : Fabric
  iter : Nat
  expect : Nat
  k : Nat
  haveBc : Bool
  faultDone : Bool
  poisonCount : Nat
  idx : List Int
  order : List Int

def initial (agu : Agu) : State where
  r := ⟨CycReader.fresh.reconfigure agu 4 2 4 7,0,fun _ => 0,0,0,0⟩
  f := Fabric.reset
  iter := 0
  expect := 0
  k := 0
  haveBc := false
  faultDone := false
  poisonCount := 0
  idx := []
  order := []

variable (inject : Bool) (s : State)

def consumeTurn (s : State) (p : Nat) : State :=
  match s.r.popIdx with
  | none =>
    { s with
      poisonCount := s.poisonCount + 1
      idx := if s.idx.length < 8 then s.idx ++ [index (s.expect + p)] else s.idx }
  | some (v,r) => { s with r := { r with reader := r.reader.pop.1 }, order := s.order ++ [v] }

/-- A refresh: `RPR` groups, of which those that are missing are poison. -/
def consume : State :=
  let s := (List.range 4).foldl consumeTurn s
  { s with expect := s.expect + 4, haveBc := true }

/-- The reads granted in the last cycle count as landed. -/
def early : Bool :=
  !s.faultDone && s.k == 0 && !s.haveBc && s.r.irCnt < 4 && 4 ≤ s.r.irCnt + s.r.reader.pendingPush

def faultStage : State := if inject && early s then consume { s with faultDone := true } else s

def landStage : State :=
  { s with r := if s.r.landReads.reader.done then s.r.landReads.reset else s.r.landReads }

def refreshStage : State := if s.k == 0 && !s.haveBc && 4 ≤ s.r.irCnt then consume s else s

/-- The requests of the reader, with no DMA beside them. -/
def requests : Fabric.Cycle := ⟨0,CycReader.propose s.r.reader.cfg s.r.reader.toState⟩

def issueStage : State :=
  { s with
    r := { s.r with reader := (s.r.reader.commit (fabric.out s.f (requests s)) 0).1 }
    f := fabric.next s.f (requests s) }

/-- An output in each cycle of a refresh, `delaySU` of them. -/
def outputStage : State :=
  if s.haveBc then
    { s with
      iter := s.iter + 1
      k := if s.k + 1 = 4 then 0 else s.k + 1
      haveBc := s.k + 1 != 4 }
  else s

def cycle : State := outputStage (issueStage (refreshStage (landStage (faultStage inject s))))

/-- The loop, for at most so many cycles. -/
def loop (iters : Int) (inject : Bool) : Nat → State → State
  | 0,s => s
  | n + 1,s => if s.iter < iters then loop iters inject n (cycle inject s) else s

def cap : Nat := 2000000000

/-- `suc_bist_pass`. -/
def pass (agu : Agu) (iters : Int) (inject : Bool) : State := loop iters inject cap (initial agu)

end SucBist

structure SucBistResult where
  cleanComplete : Bool
  cleanPoisonFree : Bool
  faultDetected : Bool
  groups : Nat
  cleanPoisonCount : Nat
  faultPoisonCount : Nat
  firstIdx : List Int

def cycSucBist (r7Agu : Agu) (seqLen dInnerTile : BitVec 32) : SucBistResult :=
  let iters := seqLen.toInt * dInnerTile.toInt
  let clean := SucBist.pass r7Agu iters false
  let fault := SucBist.pass r7Agu iters true
  { cleanComplete := clean.iter == iters
    cleanPoisonFree := clean.poisonCount == 0
    faultDetected := fault.poisonCount > 0
    groups := clean.expect
    cleanPoisonCount := clean.poisonCount
    faultPoisonCount := fault.poisonCount
    firstIdx := if clean.poisonCount = 0 then fault.idx else clean.idx }

namespace CycReader

/-- A pop changes no lane. -/
theorem pop_frame (r : CycReader) : ∃ consumed reuseLeft occ,
    r.pop.1 = { r with consumed := consumed, reuseLeft := reuseLeft, fifoOcc := occ } := by
  rw [pop]
  split
  · exact ⟨r.consumed,_,r.fifoOcc,rfl⟩
  · split
    · exact ⟨_,_,_,rfl⟩
    · exact ⟨r.consumed,r.reuseLeft,r.fifoOcc,rfl⟩

theorem minLanded_four {r : CycReader} (four : r.cfg.numChannel = 4) : minLanded r.cfg r.toState =
    min (r.laneLanded 3) (min (r.laneLanded 2) (min (r.laneLanded 1) (r.laneLanded 0))) := by
  rw [minLanded,four]
  rfl

theorem Sound.consumed_le {r : CycReader} {groups : List Int} (sound : Sound r groups) :
    r.consumed ≤ groups.length := by
  have whole := sound.whole
  have positive := sound.positive
  obtain ⟨left,below⟩ := sound.replay
  rcases lt_or_ge 0 r.consumed with some | none
  · have spare : 0 ≤ (r.consumed - 1) * (r.cfg.reuse - 1) := mul_nonneg (by omega) (by omega)
    nlinarith
  · omega

end CycReader

namespace TrackedReader

variable {agu : Agu} {r : TrackedReader} {order : List Int}

/-- Between the stages of a cycle: the ring holds the numbers of the groups that have landed and
were not popped, in their order. -/
structure Sane (agu : Agu) (r : TrackedReader) (order : List Int) : Prop where
  cfg : r.reader.cfg = CycReader.configure agu 4 2 4 7
  active : r.reader.active = true
  done : r.reader.done = false
  sound : ∃ groups, CycReader.Sound r.reader groups ∧ groups.length = order.length
  landed : (r.prodDelivered : Int) = CycReader.minLanded r.reader.cfg r.reader.toState
  count : r.prodDelivered = order.length + r.irCnt
  head : r.irHead < 64
  tail : r.irTail = (r.irHead + r.irCnt) % 64
  ring : ∀ j < r.irCnt, r.idxRing ((r.irHead + j) % 64) = index (order.length + j)
  ordered : order = (List.range order.length).map index
  single : ∀ l < 4, r.reader.pend l ≤ 1
  pushed : ∀ l < 4, r.reader.pend l ≤ r.reader.pendingPush

/-- How the counts of a lane stand to each other. -/
structure LaneAt (r : TrackedReader) (l : Nat) : Prop where
  inFlight : r.reader.laneLanded l + r.reader.pend l = r.reader.laneIssued l
  pend : 0 ≤ r.reader.pend l
  issued : r.reader.laneIssued l ≤ r.reader.consumed + 4
  landed : r.prodDelivered ≤ r.reader.laneLanded l

theorem Sane.four (sane : Sane agu r order) : r.reader.cfg.numChannel = 4 := by rw [sane.cfg]; rfl

theorem Sane.lane (sane : Sane agu r order) {l : Nat} (inside : l < 4) : LaneAt r l := by
  obtain ⟨groups,sound,_⟩ := sane.sound
  have lane : l < r.reader.cfg.numChannel := by rwa [sane.four]
  have issued := sound.issued l lane
  rw [sane.cfg] at issued
  exact ⟨sound.inFlight l lane,sound.pend l lane,issued,sane.landed ▸ r.reader.minLanded_le lane⟩

theorem Sane.consumed_le (sane : Sane agu r order) : r.reader.consumed ≤ order.length := by
  obtain ⟨groups,sound,length⟩ := sane.sound
  exact length ▸ sound.consumed_le

theorem Sane.irCnt_le (sane : Sane agu r order) : r.irCnt ≤ 4 := by
  have lane := sane.lane (show 0 < 4 by decide)
  obtain ⟨inFlight,pend,issued,landed⟩ := lane
  have consumed := sane.consumed_le
  have count := sane.count
  omega

/-- Without replays, and before the first refresh, as many groups are consumed as popped. -/
theorem Sane.fed (sane : Sane agu r order) (fed : agu.reuse = 1 ∨ order.length = 0) :
    r.reader.consumed = order.length := by
  obtain ⟨groups,sound,length⟩ := sane.sound
  have whole := sound.whole
  have replay := sound.replay
  have reuse : r.reader.cfg.reuse = agu.reuse := by rw [sane.cfg]; rfl
  rcases fed with single | first
  · rw [reuse,single] at whole replay
    omega
  · have consumed := sane.consumed_le
    have positive := sound.positive
    omega

/-- After a refresh with replays too few groups are consumed for the next one. -/
theorem Sane.starved (sane : Sane agu r order) (replayed : 1 < agu.reuse) (refreshed : order.length = 4) :
    r.reader.consumed ≤ 2 := by
  obtain ⟨groups,sound,length⟩ := sane.sound
  have whole := sound.whole
  have replay := sound.replay
  have reuse : r.reader.cfg.reuse = agu.reuse := by rw [sane.cfg]; rfl
  rw [reuse] at whole replay
  by_contra! many
  have least : 3 * agu.reuse ≤ r.reader.consumed * agu.reuse :=
    mul_le_mul_of_nonneg_right many (by omega)
  omega

/-! ### Landing -/

theorem fill_one {m : Int} {room : Nat} {r : TrackedReader} (some : 0 < room)
    (one : m ≤ r.prodDelivered + 1) :
    fill m room r = if (r.prodDelivered : Int) < m then r.pushIdx else r := by
  obtain ⟨room,rfl⟩ := Nat.exists_eq_succ_of_ne_zero some.ne'
  rw [fill]
  split
  · cases room with
    | zero => rfl
    | succ room =>
      have full : ¬ ((r.pushIdx.prodDelivered : Int) < m) := by
        simp only [pushIdx]
        omega
      rw [fill,if_neg full]
  · rfl

/-- What a landing does. -/
structure Lands (r r' : TrackedReader) : Prop where
  quiet : ∀ l < 4, r'.reader.pend l = 0
  issued : r'.reader.laneIssued = r.reader.laneIssued
  consumed : r'.reader.consumed = r.reader.consumed
  grown : r.irCnt < r'.irCnt → r'.irCnt = r.irCnt + 1 ∧ 0 < r.reader.pendingPush

theorem Sane.landReads (sane : Sane agu r order) : Sane agu r.landReads order ∧ Lands r r.landReads := by
  obtain ⟨groups,sound,length⟩ := sane.sound
  have four := sane.four
  have lanes (l : Nat) (inside : l < 4) :
      r.reader.landReads.laneLanded l = r.reader.laneLanded l + r.reader.pend l := by
    simp only [CycReader.landReads,CycReader.landed,four,if_pos inside]
  have quiet (l : Nat) (inside : l < 4) : r.reader.landReads.pend l = 0 := by
    simp only [CycReader.landReads,CycReader.landed,four,if_pos inside]
  have few := sane.irCnt_le
  have before := sane.landed
  rw [CycReader.minLanded_four four] at before
  have after := CycReader.minLanded_four (r := r.reader.landReads) four
  rw [lanes 3 (by decide),lanes 2 (by decide),lanes 1 (by decide),lanes 0 (by decide)] at after
  have s0 := sane.single 0 (by decide)
  have s1 := sane.single 1 (by decide)
  have s2 := sane.single 2 (by decide)
  have s3 := sane.single 3 (by decide)
  have p0 := (sane.lane (show 0 < 4 by decide)).pend
  have p1 := (sane.lane (show 1 < 4 by decide)).pend
  have p2 := (sane.lane (show 2 < 4 by decide)).pend
  have p3 := (sane.lane (show 3 < 4 by decide)).pend
  have u0 := sane.pushed 0 (by decide)
  have u1 := sane.pushed 1 (by decide)
  have u2 := sane.pushed 2 (by decide)
  have u3 := sane.pushed 3 (by decide)
  have one : CycReader.minLanded r.reader.landReads.cfg r.reader.landReads.toState ≤ r.prodDelivered + 1 := by
    omega
  have count := sane.count
  have free : 0 < 64 - r.irCnt := by omega
  have filled := fill_one (r := { r with reader := r.reader.landReads }) free one
  rw [TrackedReader.landReads,filled]
  have kept : CycReader.Sound r.reader.landReads groups := sound.landReads
  have pushed (l : Nat) (inside : l < 4) : r.reader.landReads.pend l ≤ r.reader.landReads.pendingPush := by
    rw [quiet l inside]
    have pend := (sane.lane inside).pend
    exact pend.trans (sane.pushed l inside)
  split
  · next more =>
    constructor
    · exact
        { cfg := sane.cfg
          active := sane.active
          done := sane.done
          sound := ⟨groups,kept,length⟩
          landed := by simp only [pushIdx] at more ⊢; omega
          count := by simp only [pushIdx]; omega
          head := sane.head
          tail := by
            have tail := sane.tail
            simp only [pushIdx]
            omega
          ring := fun j inside => by
            have tail := sane.tail
            simp only [pushIdx] at inside ⊢
            rcases Nat.lt_or_eq_of_le (Nat.le_of_lt_succ inside) with old | new
            · rw [if_neg (by omega)]
              exact sane.ring j old
            · rw [if_pos (by omega),count,new]
          ordered := sane.ordered
          single := fun l inside => (quiet l inside).le.trans (by decide)
          pushed := pushed }
    · exact ⟨quiet,rfl,rfl,fun _ => ⟨rfl,by simp only at more; omega⟩⟩
  · next no =>
    constructor
    · exact
        { sane with
          sound := ⟨groups,kept,length⟩
          landed := by simp only at no ⊢; omega
          single := fun l inside => (quiet l inside).le.trans (by decide)
          pushed := pushed }
    · exact ⟨quiet,rfl,rfl,fun grown => absurd grown (lt_irrefl _)⟩

/-! ### Popping -/

/-- The ring gives its oldest number, and the reader a group with it. -/
theorem Sane.pop (sane : Sane agu r order) (some : 0 < r.irCnt) :
    ∃ r', r.popIdx = Option.some (index order.length,r') ∧
      Sane agu { r' with reader := r'.reader.pop.1 } (order ++ [index order.length]) ∧
      r'.irCnt + 1 = r.irCnt ∧ r'.reader = r.reader := by
  obtain ⟨groups,sound,length⟩ := sane.sound
  have count := sane.count
  have first := sane.ring 0 some
  rw [Nat.add_zero,Nat.mod_eq_of_lt sane.head,Nat.add_zero] at first
  refine ⟨{ r with irHead := (r.irHead + 1) % 64, irCnt := r.irCnt - 1 },?_,?_,Nat.sub_add_cancel some,rfl⟩
  · rw [popIdx,if_neg some.ne',first]
  have there : r.reader.consumed < CycReader.minLanded r.reader.cfg r.reader.toState := by
    have consumed := sane.consumed_le
    have landed := sane.landed
    omega
  have popped := sound.pop
  have offered : ∃ group, r.reader.offered = Option.some group := by
    by_cases again : 0 < r.reader.reuseLeft
    · exact ⟨_,if_pos again⟩
    · exact ⟨_,(if_neg again).trans (if_pos there)⟩
  obtain ⟨group,offered⟩ := offered
  rw [offered] at popped
  obtain ⟨consumed,reuseLeft,occ,frame⟩ := r.reader.pop_frame
  have tail := sane.tail
  have ordered : order ++ [index order.length] = (List.range (order.length + 1)).map index := by
    rw [List.range_succ,List.map_append,← sane.ordered,List.map_singleton]
  constructor
  · exact frame ▸ sane.cfg
  · exact frame ▸ sane.active
  · exact frame ▸ sane.done
  · exact ⟨_,popped,by rw [List.length_append,List.length_append,length]; rfl⟩
  · simp only [frame]
    exact sane.landed
  · rw [List.length_append,List.length_singleton]
    simp only
    omega
  · exact Nat.mod_lt _ (by decide)
  · simp only
    omega
  · intro j inside
    have old := sane.ring (j + 1) (by simp only at inside; omega)
    have place : ((r.irHead + 1) % 64 + j) % 64 = (r.irHead + (j + 1)) % 64 := by omega
    rw [List.length_append,List.length_singleton]
    simp only
    rw [place,old,Nat.add_assoc,Nat.add_comm 1]
  · rw [List.length_append]
    exact ordered
  · exact frame ▸ sane.single
  · exact frame ▸ sane.pushed

end TrackedReader

namespace SucBist

open TrackedReader (index Sane Lands)

variable {agu : Agu} {inject : Bool} {iters : Int} {s : State} {n : Nat}

theorem consumeTurn_missing (empty : s.r.irCnt = 0) (p : Nat) :
    (consumeTurn s p).poisonCount = s.poisonCount + 1 ∧ (consumeTurn s p).r = s.r := by
  have none : s.r.popIdx = none := if_pos empty
  rw [consumeTurn,none]
  exact ⟨rfl,rfl⟩

/-- Turns for which there are groups. -/
structure Served (s s' : State) (n : Nat) : Prop where
  frame : ∃ r order, s' = { s with r := r, order := order }
  left : s'.r.irCnt + n = s.r.irCnt
  served : s'.order.length = s.order.length + n
  issued : s'.r.reader.laneIssued = s.r.reader.laneIssued
  pend : s'.r.reader.pend = s.r.reader.pend

theorem served_turns (sane : Sane agu s.r s.order) (enough : n ≤ s.r.irCnt) :
    Sane agu ((List.range n).foldl consumeTurn s).r ((List.range n).foldl consumeTurn s).order ∧
      Served s ((List.range n).foldl consumeTurn s) n := by
  induction n with
  | zero => exact ⟨sane,⟨_,_,rfl⟩,rfl,rfl,rfl,rfl⟩
  | succ n ih =>
    obtain ⟨before,frame,left,served,issued,pend⟩ := ih (by omega)
    rw [List.range_succ,List.foldl_append,List.foldl_cons,List.foldl_nil]
    generalize (List.range n).foldl consumeTurn s = t at *
    obtain ⟨r',popped,after,fewer,same⟩ := before.pop (by omega)
    obtain ⟨consumed,reuseLeft,occ,keeps⟩ := r'.reader.pop_frame
    have turn : consumeTurn t n = { t with
        r := { r' with reader := r'.reader.pop.1 }
        order := t.order ++ [index t.order.length] } := by
      rw [consumeTurn,popped]
    rw [turn]
    refine ⟨after,?_,?_,?_,?_,?_⟩
    · obtain ⟨r,order,frame⟩ := frame
      exact ⟨_,_,by rw [frame]⟩
    · simp only
      omega
    · simp only [List.length_append,List.length_singleton]
      omega
    · simp only [keeps]
      rw [same]
      exact issued
    · simp only [keeps]
      rw [same]
      exact pend

/-- Each turn either takes a group or counts a poison. -/
theorem poison_turns (s : State) (n : Nat) :
    s.poisonCount + n + ((List.range n).foldl consumeTurn s).r.irCnt =
      ((List.range n).foldl consumeTurn s).poisonCount + s.r.irCnt := by
  induction n with
  | zero => rfl
  | succ n ih =>
    rw [List.range_succ,List.foldl_append,List.foldl_cons,List.foldl_nil]
    generalize (List.range n).foldl consumeTurn s = t at *
    by_cases empty : t.r.irCnt = 0
    · obtain ⟨more,same⟩ := consumeTurn_missing empty n
      rw [more,same]
      omega
    · have popped : consumeTurn t n = { t with
          r := { t.r with
            reader := t.r.reader.pop.1
            irHead := (t.r.irHead + 1) % 64
            irCnt := t.r.irCnt - 1 }
          order := t.order ++ [t.r.idxRing t.r.irHead] } := by
        rw [consumeTurn,TrackedReader.popIdx,if_neg empty]
      rw [popped]
      simp only
      omega

theorem poison_le_turn (s : State) (p : Nat) : s.poisonCount ≤ (consumeTurn s p).poisonCount := by
  rw [consumeTurn]
  split
  · exact Nat.le_succ _
  · exact Nat.le_refl _

theorem poison_le_consume (s : State) : s.poisonCount ≤ (consume s).poisonCount := by
  have turns (ps : List Nat) (s : State) : s.poisonCount ≤ (ps.foldl consumeTurn s).poisonCount := by
    induction ps generalizing s with
    | nil => exact Nat.le_refl _
    | cons p ps ih => exact (poison_le_turn s p).trans (ih _)
  exact turns _ s

theorem poison_consume (s : State) (short : s.r.irCnt < 4) : 0 < (consume s).poisonCount := by
  have turns := poison_turns s 4
  change 0 < ((List.range 4).foldl consumeTurn s).poisonCount
  omega

theorem poison_le_cycle (inject : Bool) (s : State) : s.poisonCount ≤ (cycle inject s).poisonCount := by
  have fault : s.poisonCount ≤ (faultStage inject s).poisonCount := by
    rw [faultStage]
    split
    · exact poison_le_consume { s with faultDone := true }
    · exact Nat.le_refl _
  have refresh (s : State) : s.poisonCount ≤ (refreshStage s).poisonCount := by
    rw [refreshStage]
    split
    · exact poison_le_consume _
    · exact Nat.le_refl _
  have output (s : State) : (outputStage s).poisonCount = s.poisonCount := by
    rw [outputStage]
    split <;> rfl
  rw [cycle,output]
  exact fault.trans (refresh (landStage _))

theorem poison_le_loop (iters : Int) (inject : Bool) (n : Nat) (s : State) :
    s.poisonCount ≤ (loop iters inject n s).poisonCount := by
  induction n generalizing s with
  | zero => exact Nat.le_refl _
  | succ n ih =>
    rw [loop]
    split
    · exact (poison_le_cycle inject s).trans (ih _)
    · exact Nat.le_refl _

/-! ### Issuing -/

/-- Where a lane asks, a lane is granted. -/
theorem exists_answer {r : CycReader} (f : Fabric) (four : r.cfg.numChannel = 4)
    (active : r.active = true) {l : Nat} (inside : l < 4)
    (asks : CycReader.issues r.cfg r.toState l = true) :
    ∃ m < 4, r.answer (fabric.out f ⟨0,CycReader.propose r.cfg r.toState⟩) 0 m = true := by
  have posted : CycReader.propose r.cfg r.toState =
      ((List.range 4).filter (CycReader.issues r.cfg r.toState)).map (CycReader.lanePost r.cfg r.toState) := by
    rw [CycReader.propose,active,four]
    rfl
  have room : (⟨0,CycReader.propose r.cfg r.toState⟩ : Fabric.Cycle).posts.length ≤ 64 := by
    have few := List.length_filter_le (CycReader.issues r.cfg r.toState) (List.range 4)
    rw [List.length_range] at few
    simp only [posted,List.length_map]
    omega
  have member : CycReader.lanePost r.cfg r.toState l ∈ CycReader.propose r.cfg r.toState := by
    rw [posted]
    exact List.mem_map_of_mem (List.mem_filter.mpr ⟨List.mem_range.mpr inside,asks⟩)
  have urgency : 0 ≤ (CycReader.lanePost r.cfg r.toState l).prio := by
    simp only [CycReader.lanePost]
    split <;> decide
  generalize made : (⟨0,CycReader.propose r.cfg r.toState⟩ : Fabric.Cycle) = c at room ⊢
  have posts : c.posts = CycReader.propose r.cfg r.toState := by rw [← made]
  have free : (f.loaded c).dmaOwned[Fabric.place (CycReader.lanePost r.cfg r.toState l)] = false := by
    rw [Fabric.loaded_of_room f room,← made]
    simp
  obtain ⟨⟨q,i⟩,chosen⟩ := Fabric.best_of_request free
    (p := { CycReader.lanePost r.cfg r.toState l with
      bank := Fabric.place (CycReader.lanePost r.cfg r.toState l) })
    (by rw [Fabric.loaded_of_room f room,posts]; exact List.mem_map_of_mem member) rfl urgency
  obtain ⟨_,atIndex,here,_⟩ := Fabric.best_eq_some chosen
  rw [Fabric.loaded_of_room f room,List.getElem?_map,Option.map_eq_some_iff] at atIndex
  obtain ⟨p,found,rfl⟩ := atIndex
  have won : Fabric.GrantedAt f c i p := by
    refine (Fabric.grantedAt_iff room).mpr ⟨found,?_⟩
    have same : Fabric.place p = Fabric.place (CycReader.lanePost r.cfg r.toState l) := Fin.ext here
    exact same ▸ chosen
  rw [posts,posted,List.getElem?_map,Option.map_eq_some_iff] at found
  obtain ⟨m,found,rfl⟩ := found
  obtain ⟨lane,wanted⟩ := List.mem_filter.mp (List.mem_of_getElem? found)
  have lane := List.mem_range.mp lane
  refine ⟨m,lane,?_⟩
  rw [CycReader.answer,wanted,← (AccelEngine.filter_range_getElem? lane wanted).mp found,Nat.zero_add,
    List.getD_eq_getElem?_getD,won.2]
  rfl

/-- The groups that the lanes may still issue. -/
def deficit (r : CycReader) : Int :=
  4 * (r.consumed + 4) - (r.laneIssued 0 + r.laneIssued 1 + r.laneIssued 2 + r.laneIssued 3)

/-- What the issue of a cycle does. -/
structure Issues (s s' : State) : Prop where
  frame : ∃ r f, s' = { s with r := { s.r with reader := r }, f := f }
  consumed : s'.r.reader.consumed = s.r.reader.consumed
  lanes : ∀ l < 4, s'.r.reader.laneIssued l ≤ s.r.reader.laneIssued l + 1
  deficit : deficit s'.r.reader ≤ max (deficit s.r.reader - 1) 0

theorem issues_of_quiet (sane : Sane agu s.r s.order) (quiet : ∀ l < 4, s.r.reader.pend l = 0) :
    Sane agu (issueStage s).r (issueStage s).order ∧ Issues s (issueStage s) := by
  obtain ⟨groups,sound,length⟩ := sane.sound
  have four := sane.four
  have progress (l : Nat) (inside : l < 4) (asks : CycReader.issues s.r.reader.cfg s.r.reader.toState l = true) :=
    exists_answer s.f four sane.active inside asks
  have commit := CycReader.commit_eq s.r.reader
    (fabric.out s.f (requests s)) 0
  have kept := sound.commit (fabric.out s.f (requests s)) 0
  change ∀ l, l < 4 → _ → ∃ m < 4, s.r.reader.answer (fabric.out s.f (requests s)) 0 m = true at progress
  unfold issueStage
  generalize fabric.out s.f (requests s) = granted at *
  rw [sane.active,if_pos rfl,four] at commit
  have lanes (l : Nat) : (s.r.reader.commit granted 0).1.laneIssued l = s.r.reader.laneIssued l +
      if l < 4 ∧ s.r.reader.answer granted 0 l = true then 1 else 0 := by
    rw [commit]
    simp only [CycReader.grantAll,Bool.and_eq_true,decide_eq_true_eq]
    split <;> omega
  have pends (l : Nat) (inside : l < 4) : (s.r.reader.commit granted 0).1.pend l =
      if s.r.reader.answer granted 0 l = true then 1 else 0 := by
    rw [commit]
    simp only [CycReader.grantAll,Bool.and_eq_true,decide_eq_true_eq,quiet l inside,inside,true_and]
    rfl
  have pushed : (s.r.reader.commit granted 0).1.pendingPush =
      (((List.range 4).filter (s.r.reader.answer granted 0)).length : Int) := by
    rw [commit]
    simp only [CycReader.grantAll]
    omega
  have consumed : (s.r.reader.commit granted 0).1.consumed = s.r.reader.consumed := by rw [commit]; rfl
  constructor
  · exact
      { cfg := by simp only [commit]; exact sane.cfg
        active := by simp only [commit]; exact sane.active
        done := by simp only [commit]; exact sane.done
        sound := ⟨groups,kept,length⟩
        landed := by simp only [commit]; exact sane.landed
        count := sane.count
        head := sane.head
        tail := sane.tail
        ring := sane.ring
        ordered := sane.ordered
        single := fun l inside => by
          simp only
          rw [pends l inside]
          split <;> decide
        pushed := fun l inside => by
          simp only
          rw [pends l inside,pushed]
          split
          · next won =>
            have member : l ∈ (List.range 4).filter (s.r.reader.answer granted 0) :=
              List.mem_filter.mpr ⟨List.mem_range.mpr inside,won⟩
            have some := List.length_pos_of_mem member
            omega
          · exact Int.natCast_nonneg _ }
  · refine ⟨⟨_,_,rfl⟩,consumed,fun l _ => ?_,?_⟩
    · simp only
      rw [lanes]
      split <;> omega
    · have wants (l : Nat) (inside : l < 4) :
          s.r.reader.laneIssued l < s.r.reader.consumed + 4 →
          CycReader.issues s.r.reader.cfg s.r.reader.toState l = true := by
        intro less
        have flight := (sane.lane inside).inFlight
        have none := quiet l inside
        have depths : s.r.reader.cfg.dataDepth = 4 ∧ s.r.reader.cfg.addrDepth = 4 := by
          rw [sane.cfg]
          exact ⟨rfl,rfl⟩
        simp only [CycReader.issues,depths.1,depths.2,Bool.and_eq_true,decide_eq_true_eq]
        omega
      have bounds (l : Nat) (inside : l < 4) := (sane.lane inside).issued
      have b0 := bounds 0 (by decide)
      have b1 := bounds 1 (by decide)
      have b2 := bounds 2 (by decide)
      have b3 := bounds 3 (by decide)
      simp only [deficit,lanes,consumed]
      by_cases some : ∃ l < 4, s.r.reader.laneIssued l < s.r.reader.consumed + 4
      · obtain ⟨l,inside,less⟩ := some
        obtain ⟨m,lane,won⟩ := progress l inside (wants l inside less)
        have moves : (if m < 4 ∧ s.r.reader.answer granted 0 m = true then (1 : Int) else 0) = 1 :=
          if_pos ⟨lane,won⟩
        have cases : m = 0 ∨ m = 1 ∨ m = 2 ∨ m = 3 := by omega
        rcases cases with rfl | rfl | rfl | rfl <;> rw [moves] <;> split <;> split <;> split <;> omega
      · have none (l : Nat) (inside : l < 4) : s.r.reader.consumed + 4 ≤ s.r.reader.laneIssued l :=
          not_lt.mp fun less => some ⟨l,inside,less⟩
        have n0 := none 0 (by decide)
        have n1 := none 1 (by decide)
        have n2 := none 2 (by decide)
        have n3 := none 3 (by decide)
        split <;> split <;> split <;> split <;> omega

/-! ### A clean cycle -/

/-- The test at the start of a cycle, `c` cycles after its begin. -/
structure Running (agu : Agu) (s : State) (c : Nat) : Prop where
  sane : Sane agu s.r s.order
  expect : s.expect = s.order.length
  poison : s.poisonCount = 0
  phase : s.haveBc = true ∧ 0 < s.k ∧ s.k < 4 ∧ s.iter + 4 = s.expect + s.k ∨
    s.haveBc = false ∧ s.k = 0 ∧ s.iter = s.expect
  whole : s.expect % 4 = 0
  young : ∀ l < 4, s.r.reader.laneIssued l ≤ c
  behind : s.iter = 0 ∨ s.iter + 4 ≤ c
  starved : 1 < agu.reuse → s.expect ≤ 4

theorem running_initial (agu : Agu) : Running agu (initial agu) 0 where
  sane :=
    { cfg := rfl
      active := rfl
      done := rfl
      sound := ⟨[],CycReader.sound_reset _ (CycReader.reuse_positive agu)
        ⟨Int.natCast_nonneg 4,Int.natCast_nonneg 4⟩,rfl⟩
      landed := rfl
      count := rfl
      head := Nat.succ_pos 63
      tail := rfl
      ring := fun j inside => absurd inside (Nat.not_lt_zero j)
      ordered := rfl
      single := fun _ _ => Int.natCast_nonneg 1
      pushed := fun _ _ => le_refl 0 }
  expect := rfl
  poison := rfl
  phase := .inr ⟨rfl,rfl,rfl⟩
  whole := rfl
  young _ _ := le_refl 0
  behind := .inl rfl
  starved _ := Nat.zero_le 4

/-- What a clean cycle does: it starts a refresh, or waits for one, or delivers within one. -/
inductive Advance (s s' : State) : Prop where
  | refreshed (idle : s.haveBc = false) (busy : s'.haveBc = true ∧ s'.k = 1)
      (iter : s'.iter = s.iter + 1) (expect : s'.expect = s.expect + 4) (landed : 4 ≤ s.r.landReads.irCnt)
      (deficit : deficit s'.r.reader ≤ 15)
  | waited (idle : s.haveBc = false ∧ s'.haveBc = false) (iter : s'.iter = s.iter)
      (expect : s'.expect = s.expect) (few : s'.r.irCnt < 4) (fault : s'.faultDone = s.faultDone)
      (deficit : s.r.reader.consumed = s.order.length → deficit s'.r.reader < deficit s.r.reader)
  | served (busy : s.haveBc = true) (iter : s'.iter = s.iter + 1) (expect : s'.expect = s.expect)
      (phase : s'.haveBc = true ∧ s'.k = s.k + 1 ∨ s'.haveBc = false ∧ s.k = 3)
      (deficit : deficit s'.r.reader ≤ max (deficit s.r.reader - 1) 0)

theorem consume_of_enough (sane : Sane agu s.r s.order) (enough : 4 ≤ s.r.irCnt) :
    ∃ r order, consume s = { s with r := r, order := order, expect := s.expect + 4, haveBc := true } ∧
      Sane agu r order ∧ order.length = s.order.length + 4 ∧
      r.reader.laneIssued = s.r.reader.laneIssued ∧ r.reader.pend = s.r.reader.pend := by
  obtain ⟨after,⟨r,order,frame⟩,_,served,issued,pend⟩ := served_turns sane enough
  refine ⟨r,order,by rw [consume,frame],?_⟩
  rw [frame] at after served issued pend
  exact ⟨after,served,issued,pend⟩

theorem landStage_of_sane (sane : Sane agu s.r s.order) :
    landStage s = { s with r := s.r.landReads } := by
  have alive := sane.landReads.1.done
  rw [landStage,if_neg (by rw [alive]; exact Bool.false_ne_true)]

/-- Where no refresh is possible after the landing, a lane has something to issue. -/
theorem deficit_pos (sane : Sane agu s.r s.order) (fed : s.r.reader.consumed = s.order.length)
    (few : s.r.landReads.irCnt < 4) : 0 < deficit s.r.reader := by
  obtain ⟨landed,lands⟩ := sane.landReads
  have count := landed.count
  have least := landed.landed
  rw [CycReader.minLanded_four landed.four] at least
  have l0 := landed.lane (show 0 < 4 by decide)
  have l1 := landed.lane (show 1 < 4 by decide)
  have l2 := landed.lane (show 2 < 4 by decide)
  have l3 := landed.lane (show 3 < 4 by decide)
  obtain ⟨f0,p0,i0,m0⟩ := l0
  obtain ⟨f1,p1,i1,m1⟩ := l1
  obtain ⟨f2,p2,i2,m2⟩ := l2
  obtain ⟨f3,p3,i3,m3⟩ := l3
  have q0 := lands.quiet 0 (by decide)
  have q1 := lands.quiet 1 (by decide)
  have q2 := lands.quiet 2 (by decide)
  have q3 := lands.quiet 3 (by decide)
  rw [lands.issued] at f0 f1 f2 f3 i0 i1 i2 i3
  rw [lands.consumed] at i0 i1 i2 i3
  unfold deficit
  omega

theorem running_served {c : Nat} (running : Running agu s c) (busy : s.haveBc = true) :
    Running agu (cycle false s) (c + 1) ∧ Advance s (cycle false s) := by
  obtain ⟨landed,lands⟩ := running.sane.landReads
  obtain ⟨sane,expect,poison,phase,whole,young,behind,starved⟩ := running
  have stays : refreshStage { s with r := s.r.landReads } = { s with r := s.r.landReads } :=
    if_neg (by simp [busy])
  have same : deficit s.r.landReads.reader = deficit s.r.reader := by
    rw [deficit,deficit,lands.issued,lands.consumed]
  have start : cycle false s = outputStage (issueStage { s with r := s.r.landReads }) := by
    rw [← stays,← landStage_of_sane sane]
    rfl
  obtain ⟨kept,⟨reader,f,frame⟩,consumed,lanes,less⟩ :=
    issues_of_quiet (s := { s with r := s.r.landReads }) landed lands.quiet
  rw [frame] at kept consumed lanes less
  rw [start,frame,outputStage,if_pos busy]
  simp only [same] at less
  have turn : 0 < s.k ∧ s.k < 4 ∧ s.iter + 4 = s.expect + s.k := by
    rcases phase with ⟨_,some⟩ | ⟨idle,_⟩
    · exact some
    · rw [busy] at idle
      cases idle
  constructor
  · constructor
    · exact kept
    · exact expect
    · exact poison
    · by_cases last : s.k + 1 = 4
      · exact .inr ⟨by simp [last],by simp [last],by simp only; omega⟩
      · refine .inl ⟨bne_iff_ne.mpr last,?_⟩
        simp only [if_neg last]
        omega
    · exact whole
    · intro l inside
      have moves := lanes l inside
      have before := young l inside
      simp only [lands.issued] at moves ⊢
      push_cast
      omega
    · simp only
      omega
    · exact starved
  · refine .served busy rfl rfl ?_ less
    by_cases last : s.k + 1 = 4
    · exact .inr ⟨by simp [last],Nat.succ.inj last⟩
    · exact .inl ⟨bne_iff_ne.mpr last,if_neg last⟩

theorem running_waited {c : Nat} (running : Running agu s c) (idle : s.haveBc = false)
    (few : s.r.landReads.irCnt < 4) :
    Running agu (cycle false s) (c + 1) ∧ Advance s (cycle false s) := by
  obtain ⟨landed,lands⟩ := running.sane.landReads
  obtain ⟨sane,expect,poison,phase,whole,young,behind,starved⟩ := running
  have stays : refreshStage { s with r := s.r.landReads } = { s with r := s.r.landReads } :=
    if_neg (by simp [few])
  have same : deficit s.r.landReads.reader = deficit s.r.reader := by
    rw [deficit,deficit,lands.issued,lands.consumed]
  have start : cycle false s = outputStage (issueStage { s with r := s.r.landReads }) := by
    rw [← stays,← landStage_of_sane sane]
    rfl
  obtain ⟨kept,⟨reader,f,frame⟩,consumed,lanes,less⟩ :=
    issues_of_quiet (s := { s with r := s.r.landReads }) landed lands.quiet
  rw [frame] at kept consumed lanes less
  rw [start,frame,outputStage,if_neg (by rw [idle]; exact Bool.false_ne_true)]
  simp only [same] at less
  constructor
  · refine ⟨kept,expect,poison,phase,whole,fun l inside => ?_,behind.imp_right Nat.le_succ_of_le,starved⟩
    have moves := lanes l inside
    have before := young l inside
    simp only [lands.issued] at moves ⊢
    push_cast
    omega
  · refine .waited ⟨idle,idle⟩ rfl rfl few rfl fun fed => ?_
    have some := deficit_pos sane fed few
    simp only
    omega

theorem running_refreshed {c : Nat} (running : Running agu s c) (idle : s.haveBc = false)
    (enough : 4 ≤ s.r.landReads.irCnt) :
    Running agu (cycle false s) (c + 1) ∧ Advance s (cycle false s) := by
  obtain ⟨landed,lands⟩ := running.sane.landReads
  obtain ⟨sane,expect,poison,phase,whole,young,behind,starved⟩ := running
  obtain ⟨zero,iter⟩ : s.k = 0 ∧ s.iter = s.expect := by
    rcases phase with ⟨busy,_⟩ | ⟨_,rest⟩
    · rw [busy] at idle
      cases idle
    · exact rest
  have refresh : refreshStage { s with r := s.r.landReads } = consume { s with r := s.r.landReads } :=
    if_pos (by simp [idle,zero,enough])
  obtain ⟨r,order,taken,after,length,issued,pend⟩ :=
    consume_of_enough (s := { s with r := s.r.landReads }) landed enough
  simp only at issued pend length
  rw [lands.issued] at issued
  have start : cycle false s = outputStage (issueStage { s with
      r := r, order := order, expect := s.expect + 4, haveBc := true }) := by
    rw [← show consume { s with r := s.r.landReads } = _ from taken,← refresh,← landStage_of_sane sane]
    rfl
  obtain ⟨kept,⟨reader,f,frame⟩,consumed,lanes,less⟩ := issues_of_quiet (s := { s with
    r := r, order := order, expect := s.expect + 4, haveBc := true }) after
    (fun l inside => by simp only [pend]; exact lands.quiet l inside)
  rw [frame] at kept consumed lanes less
  rw [start,frame,outputStage,if_pos rfl]
  have more := after.consumed_le
  have count := landed.count
  have l0 := landed.lane (show 0 < 4 by decide)
  obtain ⟨f0,p0,i0,m0⟩ := l0
  rw [lands.issued] at f0 i0
  have y0 := young 0 (by decide)
  have one : (if s.k + 1 = 4 then 0 else s.k + 1) = 1 := by rw [zero]; rfl
  constructor
  · refine ⟨kept,?_,poison,.inl ⟨?_,?_⟩,?_,fun l inside => ?_,?_,fun replayed => ?_⟩
    · simp only
      omega
    · simp [zero]
    · simp only [one]
      omega
    · simp only
      omega
    · have moves := lanes l inside
      have before := young l inside
      simp only [issued] at moves ⊢
      push_cast
      omega
    · simp only
      omega
    · have early := starved replayed
      by_contra! late
      simp only at late
      have two := landed.starved replayed (by omega)
      omega
  · refine .refreshed idle ⟨by simp [zero],by simp [zero]⟩ rfl rfl enough ?_
    have l1 := landed.lane (show 1 < 4 by decide)
    have l2 := landed.lane (show 2 < 4 by decide)
    have l3 := landed.lane (show 3 < 4 by decide)
    obtain ⟨f1,p1,i1,m1⟩ := l1
    obtain ⟨f2,p2,i2,m2⟩ := l2
    obtain ⟨f3,p3,i3,m3⟩ := l3
    rw [lands.issued] at f1 f2 f3
    change deficit reader ≤ max (deficit r.reader - 1) 0 at less
    change deficit reader ≤ 15
    have full : deficit r.reader ≤ 16 := by
      rw [deficit,issued]
      omega
    omega

theorem running_cycle {c : Nat} (running : Running agu s c) :
    Running agu (cycle false s) (c + 1) ∧ Advance s (cycle false s) := by
  cases busy : s.haveBc with
  | true => exact running_served running busy
  | false =>
    rcases lt_or_ge s.r.landReads.irCnt 4 with few | enough
    · exact running_waited running busy few
    · exact running_refreshed running busy enough

/-! ### The clean pass -/

/-- The cycles that the test still takes at most: a refresh takes 16 at most, and 4 to deliver. -/
def rank (iters : Int) (s : State) : Int :=
  let busy : Int := if s.haveBc then 4 - s.k else 0
  if iters ≤ s.expect then busy
  else busy + max (deficit s.r.reader - busy) 0 + 4 + 16 * ((iters - s.expect + 3) / 4 - 1)

theorem deficit_nonneg (sane : Sane agu s.r s.order) : 0 ≤ deficit s.r.reader := by
  have l0 := (sane.lane (show 0 < 4 by decide)).issued
  have l1 := (sane.lane (show 1 < 4 by decide)).issued
  have l2 := (sane.lane (show 2 < 4 by decide)).issued
  have l3 := (sane.lane (show 3 < 4 by decide)).issued
  unfold deficit
  omega

/-- The refreshes that are still needed are fed. -/
def Fed (agu : Agu) (iters : Int) : Prop := agu.reuse = 1 ∨ iters ≤ 4

theorem rank_cycle {c : Nat} (running : Running agu s c) (fed : Fed agu iters) (going : s.iter < iters) :
    0 < rank iters s ∧ rank iters (cycle false s) < rank iters s := by
  obtain ⟨after,advance⟩ := running_cycle running
  have left := deficit_nonneg running.sane
  have left' := deficit_nonneg after.sane
  have phase := running.phase
  have phase' := after.phase
  have whole := running.whole
  have expect := running.expect
  have consumed : s.haveBc = false → s.r.reader.consumed = s.order.length := by
    intro idle
    refine running.sane.fed (fed.imp_right fun few => ?_)
    rw [idle] at phase
    simp only [Bool.false_eq_true,false_and,false_or,true_and] at phase
    omega
  generalize cycle false s = t at *
  cases advance with
  | refreshed idle busy iter more landed deficit =>
    rw [idle] at phase
    rw [busy.1] at phase'
    simp only [Bool.false_eq_true,Bool.true_eq_false,false_and,false_or,or_false,true_and] at phase phase'
    simp only [rank,idle,busy.1,busy.2,Bool.false_eq_true,if_true,if_false,more]
    push_cast
    constructor
    · split <;> omega
    · split <;> split <;> omega
  | waited idle iter same few fault deficit =>
    have less := deficit (consumed idle.1)
    rw [idle.1] at phase
    simp only [Bool.false_eq_true,false_and,false_or,true_and] at phase
    simp only [rank,idle.1,idle.2,Bool.false_eq_true,if_false,same]
    constructor
    · split <;> omega
    · split <;> omega
  | served busy iter same next deficit =>
    rw [busy] at phase
    simp only [Bool.true_eq_false,false_and,or_false,true_and] at phase
    rcases next with ⟨busy',k⟩ | ⟨idle,k⟩
    · simp only [rank,busy,busy',if_true,same,k]
      push_cast
      constructor
      · split <;> omega
      · split <;> omega
    · simp only [rank,busy,idle,if_true,Bool.false_eq_true,if_false,same,k]
      push_cast
      constructor
      · split <;> omega
      · split <;> omega

theorem running_loop {c : Nat} (running : Running agu s c) (iters : Int) (n : Nat) :
    ∃ c' ≤ c + n, Running agu (loop iters false n s) c' := by
  induction n generalizing s c with
  | zero => exact ⟨c,le_refl c,running⟩
  | succ n ih =>
    rw [loop]
    split
    · obtain ⟨c',bound,end_⟩ := ih (running_cycle running).1
      exact ⟨c',by omega,end_⟩
    · exact ⟨c,by omega,running⟩

theorem iter_cycle {c : Nat} (running : Running agu s c) : (cycle false s).iter ≤ s.iter + 1 := by
  cases (running_cycle running).2 with
  | refreshed _ _ iter => exact iter.le
  | waited _ iter => exact iter.le.trans (Nat.le_succ _)
  | served _ iter => exact iter.le

/-- A pass that is fed ends with all outputs, within the cycles of its rank. -/
theorem loop_complete {c : Nat} (running : Running agu s c) (fed : Fed agu iters) (within : s.iter ≤ iters)
    (enough : rank iters s ≤ n) : (loop iters false n s).iter = iters := by
  induction n generalizing s c with
  | zero =>
    rw [loop]
    by_contra! short
    have some := (rank_cycle running fed (by omega)).1
    omega
  | succ n ih =>
    rw [loop]
    split
    · next going =>
      have less := (rank_cycle running fed going).2
      have one := iter_cycle running
      exact ih (running_cycle running).1 (by omega) (by omega)
    · omega

/-! ### The injected pass -/

/-- Before the first refresh, with the fault still to come. -/
structure Fresh (agu : Agu) (s : State) (c : Nat) : Prop extends Running agu s c where
  idle : s.haveBc = false
  first : s.expect = 0
  armed : s.faultDone = false
  few : s.r.irCnt < 4

theorem fresh_initial (agu : Agu) : Fresh agu (initial agu) 0 where
  toRunning := running_initial agu
  idle := rfl
  first := rfl
  armed := rfl
  few := Nat.succ_pos 3

/-- The fault comes before the fourth group has landed, and otherwise the cycle is a clean one. -/
theorem fresh_cycle {c : Nat} (fresh : Fresh agu s c) : 0 < (cycle true s).poisonCount ∨
    Fresh agu (cycle true s) (c + 1) ∧ deficit (cycle true s).r.reader < deficit s.r.reader := by
  obtain ⟨running,idle,first,armed,few⟩ := fresh
  by_cases fires : early s = true
  · refine .inl (Nat.lt_of_lt_of_le (poison_consume { s with faultDone := true } few) ?_)
    have fault : faultStage true s = consume { s with faultDone := true } := if_pos fires
    have rest := poison_le_cycle false (faultStage true s)
    rw [fault] at rest
    refine rest.trans (le_of_eq ?_)
    rw [cycle,cycle,fault]
    rfl
  · have clean : cycle true s = cycle false s := by
      have quiet : faultStage true s = s := if_neg fires
      rw [cycle,quiet]
      rfl
    obtain ⟨after,advance⟩ := running_cycle running
    rw [clean]
    obtain ⟨_,lands⟩ := running.sane.landReads
    obtain ⟨zero,iter⟩ : s.k = 0 ∧ s.iter = s.expect := by
      rcases running.phase with ⟨busy,_⟩ | ⟨_,rest⟩
      · rw [busy] at idle
        cases idle
      · exact rest
    have consumed := running.sane.fed (.inr (running.expect.symm.trans first))
    cases advance with
    | refreshed _ _ _ _ landed =>
      obtain ⟨one,pushed⟩ := lands.grown (by omega)
      refine absurd ?_ fires
      simp only [early,armed,idle,zero,Bool.not_false,beq_self_eq_true,Bool.and_self,Bool.true_and,
        Bool.and_eq_true,decide_eq_true_eq]
      omega
    | waited idle' _ same few' fault less =>
      exact .inr ⟨⟨after,idle'.2,same.trans first,fault.trans armed,few'⟩,less consumed⟩
    | served busy =>
      rw [idle] at busy
      cases busy

theorem fault_loop {c : Nat} (fresh : Fresh agu s c) (needed : 0 < iters)
    (enough : deficit s.r.reader < n) : 0 < (loop iters true n s).poisonCount := by
  induction n generalizing s c with
  | zero =>
    have left := deficit_nonneg fresh.sane
    omega
  | succ n ih =>
    have iter : s.iter = 0 := by
      rcases fresh.phase with ⟨busy,_⟩ | ⟨_,_,same⟩
      · rw [fresh.idle] at busy
        cases busy
      · exact same.trans fresh.first
    rw [loop,if_pos (by omega)]
    rcases fresh_cycle fresh with found | ⟨later,less⟩
    · exact found.trans_le (poison_le_loop iters true n _)
    · exact ih later (by omega)

/-! ### The self-test -/

/-- What the self-test is to report on a descriptor. -/
structure Exact (agu : Agu) (seqLen dInnerTile : BitVec 32) : Prop where
  complete : (cycSucBist agu seqLen dInnerTile).cleanComplete = true
  poisonFree : (cycSucBist agu seqLen dInnerTile).cleanPoisonFree = true
  inOrder : (pass agu (seqLen.toInt * dInnerTile.toInt) false).order =
    (List.range (cycSucBist agu seqLen dInnerTile).groups).map fun i : Nat => (i : Int)
  detected : 0 < seqLen.toInt * dInnerTile.toInt →
    (cycSucBist agu seqLen dInnerTile).faultDetected = true

theorem running_pass (agu : Agu) (iters : Int) :
    ∃ c ≤ cap, Running agu (pass agu iters false) c := by
  obtain ⟨c,bound,running⟩ := running_loop (running_initial agu) iters cap
  exact ⟨c,by omega,running⟩

theorem Running.order_eq {c : Nat} (running : Running agu s c) (short : c < 2 ^ 31) :
    s.order = (List.range s.expect).map fun i : Nat => (i : Int) := by
  rw [running.expect]
  conv_lhs => rw [running.sane.ordered]
  refine List.map_congr_left fun i member => ?_
  have inside := List.mem_range.mp member
  have count := running.sane.count
  obtain ⟨flight,pend,_,landed⟩ := running.sane.lane (show 0 < 4 by decide)
  have young := running.young 0 (by decide)
  have fits : i < 2 ^ 31 := by omega
  rw [index,BitVec.toInt_eq_toNat_cond,BitVec.toNat_ofNat,Nat.mod_eq_of_lt (by omega),if_pos (by omega)]

/-- Whatever the counts, no group of the clean pass is poison, the groups come in their order, and
the injected pass is found out. -/
theorem exact_of_complete {seqLen dInnerTile : BitVec 32}
    (complete : (cycSucBist agu seqLen dInnerTile).cleanComplete = true) :
    Exact agu seqLen dInnerTile := by
  obtain ⟨c,bound,running⟩ := running_pass agu (seqLen.toInt * dInnerTile.toInt)
  have short : c < 2 ^ 31 := by
    unfold cap at bound
    omega
  refine ⟨complete,beq_iff_eq.mpr running.poison,running.order_eq short,fun needed => ?_⟩
  exact decide_eq_true (fault_loop (fresh_initial agu) needed (by change (16 : Int) < cap; decide))

theorem rank_initial (agu : Agu) (few : iters ≤ 499999996) : rank iters (initial agu) ≤ cap := by
  have start : rank iters (initial agu) = if iters ≤ 0 then 0
      else 0 + max (16 - 0) 0 + 4 + 16 * ((iters - 0 + 3) / 4 - 1) := rfl
  rw [start]
  unfold cap
  split <;> omega

/-- The self-test is exact for every descriptor without replays, and for those with replays up to
the one refresh that they let through. A refresh takes 4 to 16 cycles, so that up to a
quarter of the cycles of the cap it is never reached, and from the whole on always. -/
theorem suc_bist (agu : Agu) (seqLen dInnerTile : BitVec 32) :
    (0 ≤ seqLen.toInt * dInnerTile.toInt ∧ seqLen.toInt * dInnerTile.toInt ≤ 499999996 ∧
        (agu.reuse = 1 ∨ seqLen.toInt * dInnerTile.toInt ≤ 4) → Exact agu seqLen dInnerTile) ∧
    (Exact agu seqLen dInnerTile →
      0 ≤ seqLen.toInt * dInnerTile.toInt ∧ seqLen.toInt * dInnerTile.toInt ≤ 1999999996 ∧
        (agu.reuse = 1 ∨ seqLen.toInt * dInnerTile.toInt ≤ 4)) ∧
    (Exact agu seqLen dInnerTile ↔ (cycSucBist agu seqLen dInnerTile).cleanComplete = true) := by
  refine ⟨fun ⟨nonneg,few,fed⟩ => exact_of_complete ?_,fun exact => ?_,Exact.complete,exact_of_complete⟩
  · exact beq_iff_eq.mpr (loop_complete (running_initial agu) fed nonneg (rank_initial agu few))
  · obtain ⟨c,bound,running⟩ := running_pass agu (seqLen.toInt * dInnerTile.toInt)
    have reached : ((pass agu (seqLen.toInt * dInnerTile.toInt) false).iter : Int) =
        seqLen.toInt * dInnerTile.toInt := beq_iff_eq.mp exact.complete
    rw [← reached]
    have behind := running.behind
    have phase := running.phase
    unfold cap at bound
    refine ⟨Int.natCast_nonneg _,by omega,?_⟩
    by_cases single : agu.reuse = 1
    · exact .inl single
    · have positive := CycReader.reuse_positive agu
      have starved := running.starved (by omega)
      exact .inr (by omega)

/-- Each group is read once and delivered twice. -/
def twice : Agu := ⟨0,#v[8,16],#v[2,8,1,1],#v[0,32,0,0],0⟩

/-- The second refresh never comes. -/
theorem suc_bist_twice : ¬ ∀ (agu : Agu) (seqLen dInnerTile : BitVec 32),
    (∀ d : Fin 4, 1 ≤ agu.tBound[d].toInt) → 0 ≤ seqLen.toInt → 0 ≤ dInnerTile.toInt →
      Exact agu seqLen dInnerTile := by
  intro claimed
  have exact := claimed twice 5 1 (by decide) (by decide) (by decide)
  obtain ⟨_,_,fed⟩ := (suc_bist twice 5 1).2.1 exact
  exact absurd fed (by decide)

end SucBist

end Snax
