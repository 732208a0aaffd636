import Snax.RefillLoop
import Snax.Sync.Layout
import Mathlib.Data.List.Nodup

/-! `sw/apps/main-tiled-oscore/src/main.c`: the tile loops of both phases. While the accelerator works
on a tile the operands of the next one are loaded and the outputs of the one before are spilled, all to
and from pairs of buffers. -/
namespace Snax

open Sync (Cores)
open RefillParams (Sound)

/-! ### Buffers and transfers -/

/-- The arrays that have two buffers in TCDM. -/
inductive TileArray where
  | oscoreWeightP1
  | convWeight
  | convBias
  | iscoreWeightP1
  | convOutTile
  | oscoreWeightP2
  | dtWeight1
  | dtWeight2
  | dtBias
  | a
  | d
  | iscoreWeightP2
  | xTile
  | zTile
  | yTile
deriving DecidableEq

/-- `BASE_PTR_READER_n_LOW` and `BASE_PTR_WRITER_n_LOW`. -/
inductive BasePtr where
  | reader (n : Nat)
  | writer (n : Nat)
deriving DecidableEq

inductive TilePhase where
  | one
  | two
deriving DecidableEq

namespace TilePhase

/-- The base pointers that move from tile to tile, in the order in which they are written. -/
def basePtrs : TilePhase → List (BasePtr × TileArray)
  | .one => [(.reader 1,.oscoreWeightP1),(.reader 3,.convWeight),(.reader 4,.convBias),
      (.reader 12,.iscoreWeightP1),(.writer 1,.convOutTile)]
  | .two => [(.reader 1,.oscoreWeightP2),(.reader 3,.dtWeight1),(.reader 4,.dtBias),
      (.reader 5,.dtWeight2),(.reader 6,.a),(.reader 8,.d),(.reader 9,.xTile),(.reader 10,.zTile),
      (.reader 11,.yTile),(.reader 12,.iscoreWeightP2),(.writer 0,.zTile),(.writer 2,.yTile)]

def writers : TilePhase → List BasePtr
  | .one => [.writer 1]
  | .two => [.writer 0,.writer 2]

/-- The arrays that an iteration loads, and those that it spills. -/
def loads : TilePhase → List TileArray
  | .one => [.oscoreWeightP1,.convWeight,.convBias,.iscoreWeightP1]
  | .two => [.oscoreWeightP2,.dtWeight1,.dtWeight2,.dtBias,.a,.d,.iscoreWeightP2,.xTile]

def spills : TilePhase → List TileArray
  | .one => [.convOutTile]
  | .two => [.zTile,.yTile]

end TilePhase

/-- A transfer of the tile loops: a tile of an operand into its buffer, a tile of an output to its slice
of L3, or the bias into the psum buffer of the second phase. -/
inductive TileDma where
  | load (array : TileArray) (tile : Nat)
  | spill (array : TileArray) (tile : Nat)
  | bias
deriving DecidableEq

/-- The shared state. A buffer is none while something may be writing it, `latched` are the base pointers
at the start of the current run, and `spilled` is what has come to the slices of L3. -/
structure TileState where
  kernel : Kernel
  basePtr : BasePtr → TileArray × Nat
  latched : BasePtr → TileArray × Nat
  run : TilePhase × Nat
  buffers : TileArray × Nat → Option Nat
  transfers : List TileDma
  spilled : TileArray → Nat → List (Option Nat)
  biased : Bool

namespace TileState

def setBasePtr (s : TileState) (reg : BasePtr) (buffer : TileArray × Nat) : TileState :=
  { s with basePtr := Function.update s.basePtr reg buffer }

/-- The buffers that a run writes. -/
def fill (s : TileState) (buffers : List (TileArray × Nat)) (tile : Option Nat) : TileState :=
  { s with buffers := fun b => if b ∈ buffers then tile else s.buffers b }

/-- `_set_streamer_start` and `_set_simbacore_start`. -/
def start (s : TileState) (phase : TilePhase) (tile : Nat) : TileState :=
  { s.fill (phase.writers.map s.basePtr) none with
    kernel := s.kernel.start, latched := s.basePtr, run := (phase,tile) }

def stop (s : TileState) : TileState :=
  { s.fill (s.run.1.writers.map s.latched) (some s.run.2) with
    kernel := { s.kernel with running := false } }

/-- `snrt_dma_start_1d`. -/
def dmaStart (s : TileState) (x : TileDma) : TileState :=
  { s with
    transfers := s.transfers ++ [x]
    buffers := match x with
      | .load array tile => Function.update s.buffers (array,tile % 2) none
      | _ => s.buffers }

def complete (s : TileState) (x : TileDma) : TileState :=
  { s with
    transfers := s.transfers.erase x
    buffers := match x with
      | .load array tile => Function.update s.buffers (array,tile % 2) (some tile)
      | _ => s.buffers
    spilled := match x with
      | .spill array tile => Function.update s.spilled array
          (Function.update (s.spilled array) tile (s.spilled array tile ++ [s.buffers (array,tile % 2)]))
      | _ => s.spilled
    biased := match x with
      | .bias => true
      | _ => s.biased }

/-- What happens beside the cores. Transfers may complete in any order. -/
inductive Beside (p : RefillParams) (s : TileState) : TileState → Prop
  | kernel {k : Kernel} (changes : Kernel.Beside p s.kernel k) (same : k.running = s.kernel.running) :
      Beside p s { s with kernel := k }
  | stop (running : s.kernel.running = true) (finished : s.kernel.ended = s.kernel.started * p.nVisits) :
      Beside p s s.stop
  | transfer {x : TileDma} (pending : x ∈ s.transfers) : Beside p s (s.complete x)

end TileState

/-! ### The cores -/

/-- Core 0 in an iteration: in the kernel call (with its place in the refill loop), at the base pointers
of the next tile, at the barrier that ends the iteration. Behind the loop of the first phase it comes to
the barrier behind the preload of the bias and configures the streamers. -/
inductive ComputePc where
  | call
  | basePtrs (left : List (BasePtr × TileArray))
  | last
  | bias
  | configure (left : List (BasePtr × TileArray))
  | configured
  | done

structure ComputeCore where
  phase : TilePhase
  i : Nat
  pc : ComputePc
  refill : PollCore

/-- Behind a call the DM core is before the next one. -/
def RefillParams.again (p : RefillParams) (c : RefillCore) : RefillCore :=
  match c.pc with
  | .between => ⟨p.refillHead 0,c.call + 1⟩
  | _ => c

/-- The DM core in an iteration: in the refill loop, at the transfers of the iteration, at the wait and
the barrier behind them. -/
inductive LoadPc where
  | refill
  | issue (left : List TileDma)
  | waitAll
  | last
  | preload
  | preloading
  | bias
  | configured
  | done

structure LoadCore where
  phase : TilePhase
  i : Nat
  pc : LoadPc
  refill : RefillCore

/-- The first address of L1 that is free, and the lengths of the buffers. -/
structure TileLengths where
  l1Next : Nat
  oscoreInLTile : Nat
  iscoreOutP1 : Nat
  iscoreOutP2 : Nat
  tile : TileArray → Nat

structure TileParams where
  refill : RefillParams
  nbTiles : Nat
  positive : 1 ≤ nbTiles
  lengths : TileLengths

namespace TileParams

variable (t : TileParams)

/-- Iteration `i` computes tile `i - 1`. -/
def Computes (i : Nat) : Prop := 1 ≤ i ∧ i ≤ t.nbTiles

instance (i : Nat) : Decidable (t.Computes i) := inferInstanceAs (Decidable (_ ∧ _))

/-- The transfers of an iteration: the operands of tile `i`, the outputs of tile `i - 2`. -/
def work (phase : TilePhase) (i : Nat) : List TileDma :=
  (if i < t.nbTiles then phase.loads.map (.load · i) else []) ++
    if 2 ≤ i then phase.spills.map (.spill · (i - 2)) else []

/-- The head of the tile loop on either core. -/
def computeHead (phase : TilePhase) (i : Nat) : ComputePc :=
  if i < t.nbTiles + 2 then if t.Computes i then .call else .last
  else match phase with
    | .one => .bias
    | .two => .done

def loadHead (phase : TilePhase) (i : Nat) : LoadPc :=
  if i < t.nbTiles + 2 then if t.Computes i then .refill else .issue (t.work phase i)
  else match phase with
    | .one => .preload
    | .two => .done

/-- Whether the base pointers of the next tile are due: in the first phase right behind the start, in the
second behind the refill loop. -/
def basePtrsDue (phase : TilePhase) (before after : PollPc) : Bool :=
  match phase with
  | .one => decide (before = .start)
  | .two => decide (before = .fallback11 ∧ after = .busy)

/-- The final tile has no next one. -/
def nextBasePtrs (phase : TilePhase) (tile : Nat) : List (BasePtr × TileArray) :=
  if tile = t.nbTiles - 1 then [] else phase.basePtrs

def computeStep (c : ComputeCore) (s : TileState) : Option (ComputeCore × TileState) :=
  match c.pc with
  | .call => (t.refill.pollStep c.refill s.kernel).map fun (refill,kernel) =>
      ({ c with
          pc := if basePtrsDue c.phase c.refill.pc refill.pc then
            .basePtrs (t.nextBasePtrs c.phase (c.i - 1)) else .call
          refill := refill },
        if c.refill.pc = .start then s.start c.phase (c.i - 1) else { s with kernel := kernel })
  | .basePtrs ((reg,array) :: left) =>
      some ({ c with pc := .basePtrs left },s.setBasePtr reg (array,c.i % 2))
  | .basePtrs [] => some ({ c with pc := .call },s)
  | .configure ((reg,array) :: left) =>
      some ({ c with pc := .configure left },s.setBasePtr reg (array,0))
  | .configure [] => some ({ c with pc := .configured },s)
  | .last | .bias | .configured | .done => none

def loadStep (c : LoadCore) (s : TileState) : Option (LoadCore × TileState) :=
  match c.pc with
  | .refill => match c.refill.pc with
    | .between => some ({ c with pc := .issue (t.work c.phase c.i) },s)
    | _ => (t.refill.refillStep c.refill s.kernel).map fun (refill,kernel) =>
        ({ c with refill := refill },{ s with kernel := kernel })
  | .issue (x :: left) => some ({ c with pc := .issue left },s.dmaStart x)
  | .issue [] => some ({ c with pc := .waitAll },s)
  | .waitAll =>
      some (if s.transfers.isEmpty && s.kernel.pending.isEmpty then { c with pc := .last } else c,s)
  | .preload => some ({ c with pc := .preloading },s.dmaStart .bias)
  | .preloading =>
      some (if s.transfers.isEmpty && s.kernel.pending.isEmpty then { c with pc := .bias } else c,s)
  | .last | .bias | .configured | .done => none

/-- `snrt_cluster_hw_barrier`. -/
def computeMeets (c : ComputeCore) : Option ComputeCore :=
  match c.pc with
  | .call => (t.refill.pollMeets c.refill).map fun refill =>
      if c.refill.pc = .between then
        { c with i := c.i + 1, pc := t.computeHead c.phase (c.i + 1), refill := refill }
      else { c with refill := refill }
  | .last => some { c with i := c.i + 1, pc := t.computeHead c.phase (c.i + 1) }
  | .bias => some { c with phase := .two, i := 0, pc := .configure TilePhase.two.basePtrs }
  | .configured => some { c with pc := t.computeHead c.phase c.i }
  | .basePtrs _ | .configure _ | .done => none

def loadMeets (c : LoadCore) : Option LoadCore :=
  match c.pc with
  | .refill => match c.refill.pc with
    | .between => none
    | _ => (t.refill.refillMeets c.refill).map fun refill => { c with refill := refill }
  | .last => some { c with
      i := c.i + 1
      pc := t.loadHead c.phase (c.i + 1)
      refill := t.refill.again c.refill }
  | .bias => some { c with phase := .two, i := 0, pc := .configured }
  | .configured => some { c with pc := t.loadHead c.phase c.i }
  | _ => none

def cores : Cores ComputeCore LoadCore TileState where
  first := t.computeStep
  second := t.loadStep
  firstMeets := t.computeMeets
  secondMeets := t.loadMeets
  beside := TileState.Beside t.refill

/-- After the preload of the first phase and its configuration. -/
def preloaded : Cores.Config ComputeCore LoadCore TileState where
  first := ⟨.one,0,t.computeHead .one 0,t.refill.preloaded.first⟩
  second := ⟨.one,0,t.loadHead .one 0,t.refill.preloaded.second⟩
  shared :=
    { kernel := t.refill.preloaded.shared
      basePtr := fun reg =>
        match TilePhase.one.basePtrs.find? (·.1 = reg) with
        | some (_,array) => (array,0)
        | none => (.oscoreWeightP1,0)
      latched := fun _ => (.oscoreWeightP1,0)
      run := (.one,0)
      buffers := fun _ => none
      transfers := []
      spilled := fun _ _ => []
      biased := false }

end TileParams

/-! ### Addresses -/

inductive TcdmBuffer where
  | oscoreIn (slot : Nat)
  | iscoreOutP1
  | iscoreOutP2
  | tile (array : TileArray) (slot : Nat)
deriving DecidableEq

/-- `(p + (a - 1)) & ~(a - 1)` for a power of two. -/
def alignTo (a p : Nat) : Nat := (p + (a - 1)) / a * a

/-- The order of the pairs of buffers. -/
def TilePhase.arrays : TilePhase → List TileArray
  | .one => [.oscoreWeightP1,.convWeight,.convBias,.iscoreWeightP1,.convOutTile]
  | .two => [.oscoreWeightP2,.dtWeight1,.dtWeight2,.dtBias,.a,.d,.iscoreWeightP2,.xTile,.zTile,.yTile]

namespace TileParams

variable (t : TileParams)

def oscoreInBase : Nat := alignTo 2048 t.lengths.l1Next
def iscoreOutP1Base : Nat := alignTo 256 (t.oscoreInBase + t.refill.nbSlots * t.lengths.oscoreInLTile)
def iscoreOutP2Base : Nat := t.iscoreOutP1Base + t.lengths.iscoreOutP1
def pingpongBase : Nat := alignTo 64 (t.iscoreOutP2Base + t.lengths.iscoreOutP2)

/-- Pairs of buffers, each at the next multiple of 64. -/
def pingpong : Nat → List TileArray → List (TcdmBuffer × Nat × Nat)
  | _, [] => []
  | base, array :: arrays =>
    let second := alignTo 64 (base + t.lengths.tile array)
    (.tile array 0,base,t.lengths.tile array) :: (.tile array 1,second,t.lengths.tile array) ::
      pingpong (alignTo 64 (second + t.lengths.tile array)) arrays

/-- The buffers of a phase with their addresses and lengths. The pairs of the second phase overlay those
of the first, whose psum buffer it reads as `dt_in` and `BC`. -/
def tcdm (phase : TilePhase) : List (TcdmBuffer × Nat × Nat) :=
  (List.range t.refill.nbSlots).map (fun s =>
      (.oscoreIn s,t.oscoreInBase + s * t.lengths.oscoreInLTile,t.lengths.oscoreInLTile)) ++
    (.iscoreOutP1,t.iscoreOutP1Base,t.lengths.iscoreOutP1) ::
      (.iscoreOutP2,t.iscoreOutP2Base,t.lengths.iscoreOutP2) :: t.pingpong t.pingpongBase phase.arrays

end TileParams

theorem le_alignTo {a : Nat} (positive : 0 < a) (p : Nat) : p ≤ alignTo a p := by
  have := Nat.div_add_mod (p + (a - 1)) a
  have := Nat.mod_lt (p + (a - 1)) positive
  unfold alignTo
  rw [Nat.mul_comm]
  omega

namespace TileParams

variable {t : TileParams}

/-- One buffer ends before the other begins. -/
def Before (x y : TcdmBuffer × Nat × Nat) : Prop := x.2.1 + x.2.2 ≤ y.2.1

theorem pingpong_base_le {base : Nat} {arrays : List TileArray} {x : TcdmBuffer × Nat × Nat}
    (member : x ∈ t.pingpong base arrays) : base ≤ x.2.1 := by
  induction arrays generalizing base with
  | nil => cases member
  | cons array arrays ih =>
    have first := le_alignTo (by decide : 0 < 64) (base + t.lengths.tile array)
    have second := le_alignTo (by decide : 0 < 64)
      (alignTo 64 (base + t.lengths.tile array) + t.lengths.tile array)
    rcases List.mem_cons.mp member with rfl | member
    · exact Nat.le_refl _
    · rcases List.mem_cons.mp member with rfl | member
      · exact (Nat.le_add_right _ _).trans first
      · have := ih member
        omega

theorem pingpong_pairwise (base : Nat) (arrays : List TileArray) :
    (t.pingpong base arrays).Pairwise Before := by
  induction arrays generalizing base with
  | nil => exact .nil
  | cons array arrays ih =>
    have second := le_alignTo (by decide : 0 < 64)
      (alignTo 64 (base + t.lengths.tile array) + t.lengths.tile array)
    have first := le_alignTo (by decide : 0 < 64) (base + t.lengths.tile array)
    refine .cons (fun y later => ?_) (.cons (fun y later => ?_) (ih _))
    · rcases List.mem_cons.mp later with rfl | later
      · exact first
      · have := pingpong_base_le later
        change base + t.lengths.tile array ≤ y.2.1
        omega
    · exact second.trans (pingpong_base_le later)

/-- The buffers of a phase follow each other without overlap. -/
theorem tcdm_pairwise (phase : TilePhase) : (t.tcdm phase).Pairwise Before := by
  have ring : t.oscoreInBase + t.refill.nbSlots * t.lengths.oscoreInLTile ≤ t.iscoreOutP1Base :=
    le_alignTo (by decide) _
  have pairs : t.iscoreOutP2Base + t.lengths.iscoreOutP2 ≤ t.pingpongBase := le_alignTo (by decide) _
  have fixed : t.iscoreOutP2Base = t.iscoreOutP1Base + t.lengths.iscoreOutP1 := rfl
  have behind (y : TcdmBuffer × Nat × Nat)
      (later : y ∈ (TcdmBuffer.iscoreOutP1,t.iscoreOutP1Base,t.lengths.iscoreOutP1) ::
        (.iscoreOutP2,t.iscoreOutP2Base,t.lengths.iscoreOutP2) ::
          t.pingpong t.pingpongBase phase.arrays) :
      t.iscoreOutP1Base ≤ y.2.1 := by
    rcases List.mem_cons.mp later with rfl | later
    · exact Nat.le_refl _
    · rcases List.mem_cons.mp later with rfl | later
      · exact Nat.le_add_right _ _
      · have := pingpong_base_le later
        omega
  refine List.pairwise_append.mpr ⟨?slots,.cons (fun y later => ?_) (.cons (fun y later => ?_)
    (pingpong_pairwise _ _)),fun x early y later => ?_⟩
  case slots =>
    refine List.pairwise_map.mpr (List.pairwise_lt_range.imp fun {r s} before => ?_)
    have slots := Nat.mul_le_mul_right t.lengths.oscoreInLTile (Nat.succ_le_of_lt before)
    rw [Nat.succ_mul] at slots
    change t.oscoreInBase + r * t.lengths.oscoreInLTile + t.lengths.oscoreInLTile ≤
      t.oscoreInBase + s * t.lengths.oscoreInLTile
    omega
  · rcases List.mem_cons.mp later with rfl | later
    · exact Nat.le_refl _
    · have := pingpong_base_le later
      change t.iscoreOutP1Base + t.lengths.iscoreOutP1 ≤ y.2.1
      omega
  · exact pairs.trans (pingpong_base_le later)
  · obtain ⟨slot,inside,rfl⟩ := List.mem_map.mp early
    have slots := Nat.mul_le_mul_right t.lengths.oscoreInLTile
      (Nat.succ_le_of_lt (List.mem_range.mp inside))
    rw [Nat.succ_mul] at slots
    have := behind y later
    change t.oscoreInBase + slot * t.lengths.oscoreInLTile + t.lengths.oscoreInLTile ≤ y.2.1
    omega

theorem mem_pingpong {base : Nat} {arrays : List TileArray} {array : TileArray} (member : array ∈ arrays)
    {slot : Nat} (inside : slot < 2) : ∃ x ∈ t.pingpong base arrays, x.1 = .tile array slot := by
  induction arrays generalizing base with
  | nil => cases member
  | cons other arrays ih =>
    rcases List.mem_cons.mp member with rfl | member
    · rcases Nat.lt_or_eq_of_le (Nat.le_of_lt_succ inside) with low | rfl
      · obtain rfl := Nat.lt_one_iff.mp low
        exact ⟨_,List.mem_cons_self,rfl⟩
      · exact ⟨_,List.mem_cons_of_mem _ List.mem_cons_self,rfl⟩
    · obtain ⟨x,among,same⟩ := ih member
      exact ⟨x,List.mem_cons_of_mem _ (List.mem_cons_of_mem _ among),same⟩

variable (t) in
/-- Both buffers are at addresses of the phase, and share none. -/
def Apart (phase : TilePhase) (one other : TcdmBuffer) : Prop :=
  ∃ x ∈ t.tcdm phase, ∃ y ∈ t.tcdm phase, x.1 = one ∧ y.1 = other ∧ Layout.Apart x y

theorem apart_of_ne {phase : TilePhase} {one other : TcdmBuffer} (differ : one ≠ other)
    (left : ∃ x ∈ t.tcdm phase, x.1 = one) (right : ∃ y ∈ t.tcdm phase, y.1 = other) :
    t.Apart phase one other := by
  obtain ⟨x,inLeft,rfl⟩ := left
  obtain ⟨y,inRight,rfl⟩ := right
  have ordered : (t.tcdm phase).Pairwise Layout.Apart := (tcdm_pairwise phase).imp Or.inl
  exact ⟨x,inLeft,y,inRight,rfl,rfl,ordered.forall inLeft inRight fun same => differ (congrArg _ same)⟩

theorem mem_tcdm {phase : TilePhase} {array : TileArray} (member : array ∈ phase.arrays) {slot : Nat}
    (inside : slot < 2) : ∃ x ∈ t.tcdm phase, x.1 = .tile array slot := by
  have pairs : ∃ x ∈ t.pingpong t.pingpongBase phase.arrays, x.1 = .tile array slot :=
    mem_pingpong member inside
  obtain ⟨x,among,same⟩ := pairs
  exact ⟨x,List.mem_append_right _ (List.mem_cons_of_mem _ (List.mem_cons_of_mem _ among)),same⟩

end TileParams

end Snax
