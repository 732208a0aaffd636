import Snax.TilePipeline

/-! The cores of the tile pipeline meet at the same barriers, so they are in the same iteration of the
same loop; what the buffers hold is an invariant of that iteration. -/
namespace Snax

open RefillParams (Sound)

namespace RefillParams

/-- Behind the start core 0 does not come back to it, and only the start has the kernel run. -/
theorem pollStep_going {p : RefillParams} {c c' : PollCore} {k k' : Kernel} (going : c.pc ≠ .start)
    (moves : p.pollStep c k = some (c',k')) :
    c'.pc ≠ .start ∧ k'.running = k.running ∧
      (c'.pc = .busy ∨ c'.pc = .between →
        (c.pc = .busy ∨ c.pc = .between) ∨ c.pc = .fallback11 ∧ c'.pc = .busy) ∧
      (c.pc = .busy ∨ c.pc = .between → c'.pc = .busy ∨ c'.pc = .between) := by
  cases pollStep_cases moves with
  | start here => exact absurd here going
  | wait => exact ⟨going,rfl,.inl,id⟩
  | ends here => exact ⟨PollPc.noConfusion,rfl,fun _ => .inl (.inl here),fun _ => .inr rfl⟩
  | settled11 here | fallback11 here =>
    exact ⟨PollPc.noConfusion,rfl,fun _ => .inr ⟨here,rfl⟩,fun _ => .inl rfl⟩
  | shown here | keep10 here | release10 here | keep11 here | release11 here | settled10 here
    | fallback10 here =>
    exact ⟨PollPc.noConfusion,rfl,(·.elim PollPc.noConfusion PollPc.noConfusion),
      fun ended => by rw [here] at ended; exact ended.elim PollPc.noConfusion PollPc.noConfusion⟩

theorem pollStep_start {p : RefillParams} {c c' : PollCore} {k k' : Kernel} (here : c.pc = .start)
    (moves : p.pollStep c k = some (c',k')) : c'.pc = p.pollHead 0 ∧ k' = k.start := by
  unfold pollStep at moves
  rw [here] at moves
  cases moves
  exact ⟨rfl,rfl⟩

theorem pollHead_ne_busy {p : RefillParams} (r : Nat) : p.pollHead r ≠ .busy := by
  unfold pollHead
  split
  · exact PollPc.noConfusion
  · exact PollPc.noConfusion

theorem Sound.met_between {p : RefillParams} {c0 c0' : PollCore} {c1 : RefillCore} {k : Kernel}
    (sound : Sound p c0 c1 k) (here : p.pollMeets c0 = some c0') (there : c1.pc = .between) :
    c0.pc = .between ∧ c0' = { c0 with pc := .start, call := c0.call + 1 } := by
  obtain ⟨c1',meets⟩ : ∃ c1', p.refillMeets c1 = some c1' := ⟨_,by rw [refillMeets,there]⟩
  cases sound.met here meets with
  | handover _ behind | drained _ behind => exact absurd (there.symm.trans behind) RefillPc.noConfusion
  | between before => exact ⟨before,rfl⟩

theorem again_between {p : RefillParams} {c : RefillCore} (here : c.pc = .between) :
    p.again c = ⟨p.refillHead 0,c.call + 1⟩ := by
  rw [again,here]

theorem again_of_ne {p : RefillParams} {c : RefillCore} (before : c.pc ≠ .between) : p.again c = c := by
  unfold again
  split
  · exact absurd ‹_› before
  · rfl

theorem refillStep_running {p : RefillParams} {c c' : RefillCore} {k k' : Kernel}
    (moves : p.refillStep c k = some (c',k')) : k'.running = k.running := by
  unfold refillStep at moves
  split at moves <;> cases moves
  · rfl
  · rfl

end RefillParams

namespace TilePhase

/-- Each register holds the base pointer of one array. -/
theorem basePtrs_unique (phase : TilePhase) :
    ∀ x ∈ phase.basePtrs, ∀ y ∈ phase.basePtrs, x.1 = y.1 → x = y := by
  cases phase <;> decide

theorem loads_disjoint (phase : TilePhase) :
    ∀ array ∈ phase.loads, ∀ array' ∈ phase.spills, array' ≠ array := by
  cases phase <;> decide

theorem spills_disjoint (phase phase' : TilePhase) :
    ∀ array ∈ phase.spills, array ∈ phase'.spills → phase = phase' := by
  cases phase <;> cases phase' <;> decide

theorem loads_nodup (phase : TilePhase) : phase.loads.Nodup := by
  cases phase <;> decide

theorem spills_nodup (phase : TilePhase) : phase.spills.Nodup := by
  cases phase <;> decide

theorem one_or_two (phase : TilePhase) : phase = .one ∨ phase = .two := by
  cases phase
  · exact .inl rfl
  · exact .inr rfl

theorem basePtrs_nodup (phase : TilePhase) : phase.basePtrs.Nodup := by
  cases phase <;> decide

end TilePhase

/-! ### Where the cores are -/

def ComputePc.Configures : ComputePc → Prop
  | .configure _ | .configured => True
  | _ => False

def ComputeCore.Started (c : ComputeCore) : Prop :=
  match c.pc with
  | .call => c.refill.pc ≠ .start
  | .basePtrs _ => True
  | _ => False

/-- The base pointers that are still those of tile `i - 1`, or those that are still to be configured. -/
def ComputeCore.todo (c : ComputeCore) : List (BasePtr × TileArray) :=
  match c.pc with
  | .call => match c.phase with
    | .one => if c.refill.pc = .start then c.phase.basePtrs else []
    | .two => if c.refill.pc = .busy ∨ c.refill.pc = .between then [] else c.phase.basePtrs
  | .basePtrs left | .configure left => left
  | .configured => []
  | .last | .bias | .done => c.phase.basePtrs

namespace TileParams

variable (t : TileParams)

def ComputeFits (c : ComputeCore) : Prop :=
  match c.pc with
  | .call => t.Computes c.i
  | .basePtrs left => t.Computes c.i ∧ left <:+ c.phase.basePtrs ∧
      c.refill.pc = match c.phase with
        | .one => t.refill.pollHead 0
        | .two => .busy
  | .last => c.i < t.nbTiles + 2 ∧ ¬t.Computes c.i ∧ c.refill.pc = .start
  | .bias => c.phase = .one ∧ c.i = t.nbTiles + 2 ∧ c.refill.pc = .start
  | .configure left => (c.phase = .two ∧ c.i = 0 ∧ c.refill.pc = .start) ∧ left <:+ c.phase.basePtrs
  | .configured => c.phase = .two ∧ c.i = 0 ∧ c.refill.pc = .start
  | .done => c.phase = .two ∧ c.i = t.nbTiles + 2 ∧ c.refill.pc = .start

def LoadFits (c : LoadCore) : Prop :=
  match c.pc with
  | .refill => t.Computes c.i
  | .issue left => (c.i < t.nbTiles + 2 ∧
      c.refill.pc = if t.Computes c.i then .between else t.refill.refillHead 0) ∧
      left <:+ t.work c.phase c.i
  | .waitAll | .last => c.i < t.nbTiles + 2 ∧
      c.refill.pc = if t.Computes c.i then .between else t.refill.refillHead 0
  | .preload | .preloading | .bias =>
      c.phase = .one ∧ c.i = t.nbTiles + 2 ∧ c.refill.pc = t.refill.refillHead 0
  | .configured => c.phase = .two ∧ c.i = 0 ∧ c.refill.pc = t.refill.refillHead 0
  | .done => c.phase = .two ∧ c.i = t.nbTiles + 2 ∧ c.refill.pc = t.refill.refillHead 0

/-- The cores are in the same iteration of the same loop. -/
structure Agrees (c0 : ComputeCore) (c1 : LoadCore) : Prop where
  phase : c1.phase = c0.phase
  i : c1.i = c0.i
  configures : c0.pc.Configures ↔ c1.pc = .configured
  computeFits : t.ComputeFits c0
  loadFits : t.LoadFits c1

/-- The transfers of the iteration that are still to be issued, and those that may be under way. -/
def left (c : LoadCore) : List TileDma :=
  match c.pc with
  | .refill | .configured => t.work c.phase c.i
  | .issue left => left
  | _ => []

def underWay (c : LoadCore) : List TileDma :=
  match c.pc with
  | .issue _ | .waitAll => t.work c.phase c.i
  | .preloading => [.bias]
  | _ => []

/-- Whether an output of a phase has come to its slice. -/
def Spilled (c : LoadCore) (s : TileState) (phase : TilePhase) (array : TileArray) (tile : Nat) : Prop :=
  (phase = .one ∧ c.phase = .two) ∨ phase = c.phase ∧
    (tile + 2 < c.i ∨ tile + 2 = c.i ∧ .spill array tile ∉ t.left c ++ s.transfers)

/-- Tile `i - 1` is in its buffers, tile `i` is loaded into the others, from which tile `i - 2` is
spilled. -/
structure Loaded (c : LoadCore) (s : TileState) : Prop where
  underWay : ∀ x ∈ s.transfers, x ∈ t.underWay c
  distinct : (t.left c ++ s.transfers).Nodup
  next : ∀ array ∈ c.phase.loads, c.i < t.nbTiles →
    .load array c.i ∈ t.left c ++ s.transfers ∨ s.buffers (array,c.i % 2) = some c.i
  current : ∀ array ∈ c.phase.loads, t.Computes c.i →
    s.buffers (array,(c.i - 1) % 2) = some (c.i - 1)
  output : ∀ array ∈ c.phase.spills, ∀ tile, tile + 2 = c.i → tile < t.nbTiles →
    s.buffers (array,tile % 2) = some tile
  once : ∀ phase, ∀ array ∈ phase.spills, ∀ tile < t.nbTiles, t.Spilled c s phase array tile →
    s.spilled array tile = [some tile]
  never : ∀ phase, ∀ array ∈ phase.spills, ∀ tile, ¬(tile < t.nbTiles ∧ t.Spilled c s phase array tile) →
    s.spilled array tile = []
  biasing : c.pc = .preloading → .bias ∈ s.transfers ∨ s.biased = true
  biased : c.phase = .two ∨ c.pc = .bias → s.biased = true

/-- The run of tile `i - 1` has the base pointers of its buffers and leaves its outputs there. -/
structure Running (c : ComputeCore) (s : TileState) : Prop where
  run : c.Started → s.run = (c.phase,c.i - 1)
  latched : c.Started → ∀ x ∈ c.phase.basePtrs, s.latched x.1 = (x.2,(c.i - 1) % 2)
  output : c.Started → s.kernel.running = false → ∀ array ∈ c.phase.spills,
    s.buffers (array,(c.i - 1) % 2) = some (c.i - 1)
  stale : ¬c.pc.Configures → ∀ x ∈ c.todo, c.i ≤ t.nbTiles → s.basePtr x.1 = (x.2,(c.i - 1) % 2)
  fresh : ∀ x ∈ c.phase.basePtrs, x ∉ c.todo → c.i < t.nbTiles → s.basePtr x.1 = (x.2,c.i % 2)

variable {t} {c0 c0' : ComputeCore} {c1 c1' : LoadCore} {s s' : TileState}

theorem mem_work {phase : TilePhase} {i : Nat} {x : TileDma} (among : x ∈ t.work phase i) :
    (∃ array ∈ phase.loads, x = .load array i ∧ i < t.nbTiles) ∨
      ∃ array ∈ phase.spills, ∃ tile, x = .spill array tile ∧ tile + 2 = i := by
  rcases List.mem_append.mp among with loaded | spilled
  · split at loaded
    · obtain ⟨array,member,rfl⟩ := List.mem_map.mp loaded
      exact .inl ⟨array,member,rfl,‹_›⟩
    · cases loaded
  · split at spilled
    · obtain ⟨array,member,rfl⟩ := List.mem_map.mp spilled
      exact .inr ⟨array,member,i - 2,rfl,Nat.sub_add_cancel ‹_›⟩
    · cases spilled

theorem load_mem_work {phase : TilePhase} {i : Nat} {array : TileArray} (member : array ∈ phase.loads)
    (inside : i < t.nbTiles) : .load array i ∈ t.work phase i := by
  rw [work,if_pos inside]
  exact List.mem_append_left _ (List.mem_map_of_mem member)

theorem spill_mem_work {phase : TilePhase} {tile : Nat} {array : TileArray}
    (member : array ∈ phase.spills) : .spill array tile ∈ t.work phase (tile + 2) := by
  rw [work,if_pos (Nat.le_add_left 2 tile)]
  exact List.mem_append_right _ (List.mem_map_of_mem member)

theorem work_nodup (phase : TilePhase) (i : Nat) : (t.work phase i).Nodup := by
  have loads : (phase.loads.map (TileDma.load · i)).Nodup :=
    phase.loads_nodup.map fun a b same => (TileDma.load.inj same).1
  have spills : (phase.spills.map (TileDma.spill · (i - 2))).Nodup :=
    phase.spills_nodup.map fun a b same => (TileDma.spill.inj same).1
  unfold work
  refine List.Nodup.append ?_ ?_ fun x left right => ?_
  · split
    · exact loads
    · exact List.nodup_nil
  · split
    · exact spills
    · exact List.nodup_nil
  · split at left
    · split at right
      · obtain ⟨a,_,rfl⟩ := List.mem_map.mp left
        obtain ⟨b,_,same⟩ := List.mem_map.mp right
        cases same
      · cases right
    · cases left

end TileParams
namespace TileParams

variable {t : TileParams} {c0 c0' : ComputeCore} {c1 c1' : LoadCore} {s s' : TileState}

/-- The steps of core 0. -/
inductive ComputeMove (t : TileParams) (c : ComputeCore) (s : TileState) : ComputeCore → TileState → Prop
  | startOne {refill : PollCore} (here : c.pc = .call) (begin : c.refill.pc = .start)
      (first : c.phase = .one)
      (moves : t.refill.pollStep c.refill s.kernel = some (refill,s.kernel.start)) :
      ComputeMove t c s { c with pc := .basePtrs (t.nextBasePtrs c.phase (c.i - 1)), refill := refill }
        (s.start c.phase (c.i - 1))
  | startTwo {refill : PollCore} (here : c.pc = .call) (begin : c.refill.pc = .start)
      (second : c.phase = .two)
      (moves : t.refill.pollStep c.refill s.kernel = some (refill,s.kernel.start)) :
      ComputeMove t c s { c with refill := refill } (s.start c.phase (c.i - 1))
  | poll {refill : PollCore} {kernel : Kernel} (here : c.pc = .call) (going : c.refill.pc ≠ .start)
      (moves : t.refill.pollStep c.refill s.kernel = some (refill,kernel))
      (early : c.phase = .two → refill.pc = .busy ∨ refill.pc = .between →
        c.refill.pc = .busy ∨ c.refill.pc = .between) :
      ComputeMove t c s { c with refill := refill } { s with kernel := kernel }
  | due {refill : PollCore} {kernel : Kernel} (here : c.pc = .call) (second : c.phase = .two)
      (behind : c.refill.pc = .fallback11) (busy : refill.pc = .busy)
      (moves : t.refill.pollStep c.refill s.kernel = some (refill,kernel)) :
      ComputeMove t c s { c with pc := .basePtrs (t.nextBasePtrs c.phase (c.i - 1)), refill := refill }
        { s with kernel := kernel }
  | write {reg : BasePtr} {array : TileArray} {left : List (BasePtr × TileArray)}
      (here : c.pc = .basePtrs ((reg,array) :: left)) :
      ComputeMove t c s { c with pc := .basePtrs left } (s.setBasePtr reg (array,c.i % 2))
  | written (here : c.pc = .basePtrs []) : ComputeMove t c s { c with pc := .call } s
  | configure {reg : BasePtr} {array : TileArray} {left : List (BasePtr × TileArray)}
      (here : c.pc = .configure ((reg,array) :: left)) :
      ComputeMove t c s { c with pc := .configure left } (s.setBasePtr reg (array,0))
  | configured (here : c.pc = .configure []) : ComputeMove t c s { c with pc := .configured } s

theorem computeStep_cases (moves : t.computeStep c0 s = some (c0',s')) : ComputeMove t c0 s c0' s' := by
  unfold computeStep at moves
  split at moves
  case h_1 here =>
    obtain ⟨⟨refill,kernel⟩,polls,moved⟩ := Option.map_eq_some_iff.mp moves
    cases moved
    by_cases begin : c0.refill.pc = .start
    · obtain ⟨-,rfl⟩ := RefillParams.pollStep_start begin polls
      rw [if_pos begin]
      rcases phase : c0.phase with _ | _
      · have step := ComputeMove.startOne here begin phase polls
        simpa [basePtrsDue,phase,begin] using step
      · have step := ComputeMove.startTwo here begin phase polls
        simpa [basePtrsDue,phase,begin,here] using step
    · have ⟨_,_,ends,_⟩ := RefillParams.pollStep_going begin polls
      rw [if_neg begin]
      by_cases due : c0.phase = .two ∧ c0.refill.pc = .fallback11 ∧ refill.pc = .busy
      · obtain ⟨second,behind,busy⟩ := due
        have step := ComputeMove.due here second behind busy polls
        simpa [basePtrsDue,second,behind,busy] using step
      · have early (second : c0.phase = .two) (ended : refill.pc = .busy ∨ refill.pc = .between) :=
          (ends ended).resolve_right fun last => due ⟨second,last⟩
        have step := ComputeMove.poll here begin polls early
        have none : basePtrsDue c0.phase c0.refill.pc refill.pc = false := by
          unfold basePtrsDue
          cases phase : c0.phase
          · simpa using begin
          · simpa [phase] using due
        simpa [none,here] using step
  case h_2 here =>
    cases moves
    exact .write here
  case h_3 here =>
    cases moves
    exact .written here
  case h_4 here =>
    cases moves
    exact .configure here
  case h_5 here =>
    cases moves
    exact .configured here
  all_goals cases moves

/-- The steps of the DM core. -/
inductive LoadMove (t : TileParams) (c : LoadCore) (s : TileState) : LoadCore → TileState → Prop
  | refilled (here : c.pc = .refill) (behind : c.refill.pc = .between) :
      LoadMove t c s { c with pc := .issue (t.work c.phase c.i) } s
  | refill {refill : RefillCore} {kernel : Kernel} (here : c.pc = .refill)
      (moves : t.refill.refillStep c.refill s.kernel = some (refill,kernel)) :
      LoadMove t c s { c with refill := refill } { s with kernel := kernel }
  | issue {x : TileDma} {left : List TileDma} (here : c.pc = .issue (x :: left)) :
      LoadMove t c s { c with pc := .issue left } (s.dmaStart x)
  | issued (here : c.pc = .issue []) : LoadMove t c s { c with pc := .waitAll } s
  | wait : LoadMove t c s c s
  | waited (here : c.pc = .waitAll) (none : s.transfers = []) : LoadMove t c s { c with pc := .last } s
  | preload (here : c.pc = .preload) : LoadMove t c s { c with pc := .preloading } (s.dmaStart .bias)
  | preloaded (here : c.pc = .preloading) (none : s.transfers = []) :
      LoadMove t c s { c with pc := .bias } s

theorem loadStep_cases (moves : t.loadStep c1 s = some (c1',s')) : LoadMove t c1 s c1' s' := by
  unfold loadStep at moves
  split at moves
  case h_1 here =>
    split at moves
    · cases moves
      exact .refilled here ‹_›
    · obtain ⟨⟨refill,kernel⟩,refills,moved⟩ := Option.map_eq_some_iff.mp moves
      cases moved
      exact .refill here refills
  case h_2 here =>
    cases moves
    exact .issue here
  case h_3 here =>
    cases moves
    exact .issued here
  case h_4 here =>
    cases moves
    split
    · rename_i empty
      exact .waited here (List.isEmpty_iff.mp (Bool.and_eq_true_iff.mp empty).1)
    · exact .wait
  case h_5 here =>
    cases moves
    exact .preload here
  case h_6 here =>
    cases moves
    split
    · rename_i empty
      exact .preloaded here (List.isEmpty_iff.mp (Bool.and_eq_true_iff.mp empty).1)
    · exact .wait
  all_goals cases moves

theorem nextBasePtrs_suffix (phase : TilePhase) (tile : Nat) :
    t.nextBasePtrs phase tile <:+ phase.basePtrs := by
  unfold nextBasePtrs
  split
  · exact List.nil_suffix
  · exact List.suffix_rfl

theorem Agrees.computeStep (agrees : t.Agrees c0 c1) (move : ComputeMove t c0 s c0' s') :
    t.Agrees c0' c1 := by
  have configures := agrees.configures
  have fits := agrees.computeFits
  cases move with
  | startOne here begin first moves =>
    simp only [ComputeFits,here] at fits
    simp only [ComputePc.Configures,here] at configures
    have head := (RefillParams.pollStep_start begin moves).1
    exact { agrees with
      configures := configures
      computeFits := ⟨fits,nextBasePtrs_suffix _ _,by rw [first]; exact head⟩ }
  | startTwo here | poll here =>
    simp only [ComputeFits,here] at fits
    exact { agrees with
      computeFits := by
        simp only [ComputeFits,here]
        exact fits }
  | due here second _ busy =>
    simp only [ComputeFits,here] at fits
    simp only [ComputePc.Configures,here] at configures
    exact { agrees with
      configures := configures
      computeFits := ⟨fits,nextBasePtrs_suffix _ _,by rw [second]; exact busy⟩ }
  | write here =>
    simp only [ComputeFits,here] at fits
    simp only [ComputePc.Configures,here] at configures
    exact { agrees with
      configures := configures
      computeFits := ⟨fits.1,(List.suffix_cons _ _).trans fits.2.1,fits.2.2⟩ }
  | written here =>
    simp only [ComputeFits,here] at fits
    simp only [ComputePc.Configures,here] at configures
    exact { agrees with
      configures := configures
      computeFits := fits.1 }
  | configure here =>
    simp only [ComputeFits,here] at fits
    simp only [ComputePc.Configures,here] at configures
    exact { agrees with
      configures := configures
      computeFits := ⟨fits.1,(List.suffix_cons _ _).trans fits.2⟩ }
  | configured here =>
    simp only [ComputeFits,here] at fits
    simp only [ComputePc.Configures,here] at configures
    exact { agrees with
      configures := configures
      computeFits := fits.1 }

theorem Agrees.loadStep (agrees : t.Agrees c0 c1) (move : LoadMove t c1 s c1' s') : t.Agrees c0 c1' := by
  have configures := agrees.configures
  have fits := agrees.loadFits
  cases move with
  | refilled here behind =>
    simp only [LoadFits,here] at fits
    rw [here] at configures
    have inside : c1.i < t.nbTiles + 2 := Nat.lt_add_right 1 (Nat.lt_succ_of_le fits.2)
    exact { agrees with
      configures := configures.trans ⟨LoadPc.noConfusion,LoadPc.noConfusion⟩
      loadFits := ⟨⟨inside,by rw [if_pos fits]; exact behind⟩,List.suffix_rfl⟩ }
  | refill here =>
    exact { agrees with
      loadFits := by
        simp only [LoadFits,here] at fits ⊢
        exact fits }
  | issue here =>
    simp only [LoadFits,here] at fits
    rw [here] at configures
    exact { agrees with
      configures := configures.trans ⟨LoadPc.noConfusion,LoadPc.noConfusion⟩
      loadFits := ⟨fits.1,(List.suffix_cons _ _).trans fits.2⟩ }
  | issued here =>
    simp only [LoadFits,here] at fits
    rw [here] at configures
    exact { agrees with
      configures := configures.trans ⟨LoadPc.noConfusion,LoadPc.noConfusion⟩
      loadFits := fits.1 }
  | wait => exact agrees
  | waited here | preload here | preloaded here =>
    simp only [LoadFits,here] at fits
    rw [here] at configures
    exact { agrees with
      configures := configures.trans ⟨LoadPc.noConfusion,LoadPc.noConfusion⟩
      loadFits := fits }

/-- The barriers at which the cores meet: inside the refill loop, at the end of an iteration with and
without a run, and on both sides of the configuration of the second phase. -/
inductive TileMet (t : TileParams) (c0 : ComputeCore) (c1 : LoadCore) : ComputeCore → LoadCore → Prop
  | inside {refill0 : PollCore} {refill1 : RefillCore} (here : c0.pc = .call) (there : c1.pc = .refill)
      (going : c0.refill.pc ≠ .start ∧ c0.refill.pc ≠ .busy ∧ c0.refill.pc ≠ .between)
      (going' : refill0.pc ≠ .start ∧ refill0.pc ≠ .busy ∧ refill0.pc ≠ .between)
      (met : t.refill.Met c0.refill c1.refill refill0 refill1) :
      TileMet t c0 c1 { c0 with refill := refill0 } { c1 with refill := refill1 }
  | again {refill0 : PollCore} {refill1 : RefillCore} (here : c0.pc = .call) (there : c1.pc = .last)
      (ended : c0.refill.pc = .between) (begin : refill0.pc = .start)
      (head : refill1.pc = t.refill.refillHead 0)
      (met : t.refill.Met c0.refill c1.refill refill0 refill1) :
      TileMet t c0 c1
        { c0 with i := c0.i + 1, pc := t.computeHead c0.phase (c0.i + 1), refill := refill0 }
        { c1 with i := c1.i + 1, pc := t.loadHead c1.phase (c1.i + 1), refill := refill1 }
  | pass (here : c0.pc = .last) (there : c1.pc = .last) :
      TileMet t c0 c1 { c0 with i := c0.i + 1, pc := t.computeHead c0.phase (c0.i + 1) }
        { c1 with i := c1.i + 1, pc := t.loadHead c1.phase (c1.i + 1) }
  | bias (here : c0.pc = .bias) (there : c1.pc = .bias) :
      TileMet t c0 c1 { c0 with phase := .two, i := 0, pc := .configure TilePhase.two.basePtrs }
        { c1 with phase := .two, i := 0, pc := .configured }
  | configured (here : c0.pc = .configured) (there : c1.pc = .configured) :
      TileMet t c0 c1 { c0 with pc := t.computeHead c0.phase c0.i }
        { c1 with pc := t.loadHead c1.phase c1.i }

/-- Before the end of the refill loop both cores are in it. -/
theorem Agrees.met (agrees : t.Agrees c0 c1) (sound : Sound t.refill c0.refill c1.refill s.kernel)
    (here : t.computeMeets c0 = some c0') (there : t.loadMeets c1 = some c1') :
    TileMet t c0 c1 c0' c1' := by
  have i := agrees.i
  have configures := agrees.configures
  have fits0 := agrees.computeFits
  have fits1 := agrees.loadFits
  unfold computeMeets at here
  split at here
  case h_1 at0 =>
    simp only [ComputeFits,at0] at fits0
    simp only [ComputePc.Configures,at0,false_iff] at configures
    obtain ⟨refill0,meets0,moved0⟩ := Option.map_eq_some_iff.mp here
    unfold loadMeets at there
    split at there
    case h_1 at1 =>
      split at there
      · cases there
      · rename_i going
        obtain ⟨refill1,meets1,rfl⟩ := Option.map_eq_some_iff.mp there
        have met := sound.met meets0 meets1
        have inside : (c0.refill.pc ≠ .start ∧ c0.refill.pc ≠ .busy ∧ c0.refill.pc ≠ .between) ∧
            refill0.pc ≠ .start ∧ refill0.pc ≠ .busy ∧ refill0.pc ≠ .between := by
          cases met with
          | @handover r before =>
            have ⟨start,between⟩ := t.refill.pollHead_ne (r + 1)
            rw [before]
            exact ⟨⟨PollPc.noConfusion,PollPc.noConfusion,PollPc.noConfusion⟩,start,
              RefillParams.pollHead_ne_busy _,between⟩
          | drained before =>
            rw [before]
            exact ⟨⟨PollPc.noConfusion,PollPc.noConfusion,PollPc.noConfusion⟩,PollPc.noConfusion,
              PollPc.noConfusion,PollPc.noConfusion⟩
          | between _ behind => exact absurd behind going
        rw [if_neg inside.1.2.2] at moved0
        cases moved0
        exact .inside at0 at1 inside.1 inside.2 met
    case h_2 at1 =>
      simp only [LoadFits,at1,i,if_pos fits0] at fits1
      cases there
      obtain ⟨before,rfl⟩ := sound.met_between meets0 fits1.2
      rw [if_pos before] at moved0
      cases moved0
      rw [RefillParams.again_between fits1.2]
      exact .again at0 at1 before rfl rfl (.between before fits1.2)
    case h_3 at1 =>
      simp only [LoadFits,at1,i] at fits1
      exact absurd (fits1.2.1 ▸ fits0.2) (Nat.not_le_of_lt (Nat.lt_add_of_pos_right Nat.two_pos))
    case h_4 at1 => exact absurd at1 configures
    case h_5 => cases there
  case h_2 at0 =>
    simp only [ComputeFits,at0] at fits0
    simp only [ComputePc.Configures,at0,false_iff] at configures
    cases here
    unfold loadMeets at there
    split at there
    case h_1 at1 =>
      simp only [LoadFits,at1,i] at fits1
      exact absurd fits1 fits0.2.1
    case h_2 at1 =>
      simp only [LoadFits,at1,i,if_neg fits0.2.1] at fits1
      cases there
      have same : t.refill.again c1.refill = c1.refill := by
        have ⟨_,before⟩ := t.refill.refillHead_ne 0
        rw [← fits1.2] at before
        exact RefillParams.again_of_ne before
      rw [same]
      exact .pass at0 at1
    case h_3 at1 =>
      simp only [LoadFits,at1,i] at fits1
      exact absurd (fits1.2.1 ▸ fits0.1) (Nat.lt_irrefl _)
    case h_4 at1 => exact absurd at1 configures
    case h_5 => cases there
  case h_3 at0 =>
    simp only [ComputeFits,at0] at fits0
    simp only [ComputePc.Configures,at0,false_iff] at configures
    cases here
    unfold loadMeets at there
    split at there
    case h_1 at1 =>
      simp only [LoadFits,at1,i] at fits1
      exact absurd (fits0.2.1 ▸ fits1.2) (Nat.not_le_of_lt (Nat.lt_add_of_pos_right Nat.two_pos))
    case h_2 at1 =>
      simp only [LoadFits,at1,i] at fits1
      exact absurd (fits0.2.1 ▸ fits1.1) (Nat.lt_irrefl _)
    case h_3 at1 =>
      cases there
      exact .bias at0 at1
    case h_4 at1 => exact absurd at1 configures
    case h_5 => cases there
  case h_4 at0 =>
    simp only [ComputePc.Configures,at0,true_iff] at configures
    cases here
    unfold loadMeets at there
    rw [configures] at there
    cases there
    exact .configured at0 configures
  all_goals cases here

theorem computeHead_fits {c : ComputeCore} (inside : c.i ≤ t.nbTiles + 2)
    (begin : c.refill.pc = .start) :
    t.ComputeFits { c with pc := t.computeHead c.phase c.i } ∧
      ¬(t.computeHead c.phase c.i).Configures := by
  unfold computeHead
  split
  · rename_i inside
    split
    · rename_i computes
      exact ⟨computes,id⟩
    · rename_i idle
      exact ⟨⟨inside,idle,begin⟩,id⟩
  · rename_i beyond
    have last : c.i = t.nbTiles + 2 := Nat.le_antisymm inside (Nat.not_lt.mp beyond)
    split
    · exact ⟨⟨‹_›,last,begin⟩,id⟩
    · exact ⟨⟨‹_›,last,begin⟩,id⟩

theorem loadHead_fits {c : LoadCore} (inside : c.i ≤ t.nbTiles + 2)
    (head : c.refill.pc = t.refill.refillHead 0) :
    t.LoadFits { c with pc := t.loadHead c.phase c.i } ∧ t.loadHead c.phase c.i ≠ .configured := by
  unfold loadHead
  split
  · rename_i inside
    split
    · rename_i computes
      exact ⟨computes,LoadPc.noConfusion⟩
    · rename_i idle
      exact ⟨⟨⟨inside,by rw [if_neg idle]; exact head⟩,List.suffix_rfl⟩,LoadPc.noConfusion⟩
  · rename_i beyond
    have last : c.i = t.nbTiles + 2 := Nat.le_antisymm inside (Nat.not_lt.mp beyond)
    split
    · exact ⟨⟨‹_›,last,head⟩,LoadPc.noConfusion⟩
    · exact ⟨⟨‹_›,last,head⟩,LoadPc.noConfusion⟩

theorem Agrees.meet (agrees : t.Agrees c0 c1) (met : TileMet t c0 c1 c0' c1') : t.Agrees c0' c1' := by
  have configures := agrees.configures
  have fits0 := agrees.computeFits
  have fits1 := agrees.loadFits
  have same := agrees.i
  cases met with
  | inside here there =>
    exact { agrees with
      computeFits := by
        simp only [ComputeFits,here] at fits0 ⊢
        exact fits0
      loadFits := by
        simp only [LoadFits,there] at fits1 ⊢
        exact fits1 }
  | @again refill0 refill1 here there ended begin head met =>
    simp only [LoadFits,there] at fits1
    have ⟨compute,nowhere⟩ := computeHead_fits (c := ⟨c0.phase,c0.i + 1,c0.pc,refill0⟩)
      (same ▸ fits1.1) begin
    have ⟨load,nowhere'⟩ := loadHead_fits (c := ⟨c1.phase,c1.i + 1,c1.pc,refill1⟩) fits1.1 head
    exact ⟨agrees.phase,congrArg Nat.succ same,⟨(absurd · nowhere),(absurd · nowhere')⟩,compute,load⟩
  | pass here there =>
    simp only [ComputeFits,here] at fits0
    simp only [LoadFits,there,same,if_neg fits0.2.1] at fits1
    have ⟨compute,nowhere⟩ := computeHead_fits (c := ⟨c0.phase,c0.i + 1,c0.pc,c0.refill⟩)
      fits0.1 fits0.2.2
    have ⟨load,nowhere'⟩ := loadHead_fits (c := ⟨c1.phase,c1.i + 1,c1.pc,c1.refill⟩)
      (same ▸ fits1.1) fits1.2
    exact ⟨agrees.phase,congrArg Nat.succ same,⟨(absurd · nowhere),(absurd · nowhere')⟩,compute,load⟩
  | bias here there =>
    simp only [ComputeFits,here] at fits0
    simp only [LoadFits,there] at fits1
    have compute := fits0.2.2
    exact ⟨rfl,rfl,⟨fun _ => rfl,fun _ => trivial⟩,⟨⟨rfl,rfl,compute⟩,List.suffix_rfl⟩,rfl,rfl,fits1.2.2⟩
  | configured here there =>
    simp only [ComputeFits,here] at fits0
    simp only [LoadFits,there] at fits1
    have begin0 : c0.i ≤ t.nbTiles + 2 := by rw [fits0.2.1]; exact Nat.zero_le _
    have begin1 : c1.i ≤ t.nbTiles + 2 := by rw [fits1.2.1]; exact Nat.zero_le _
    have ⟨compute,nowhere⟩ := computeHead_fits begin0 fits0.2.2
    have ⟨load,nowhere'⟩ := loadHead_fits begin1 fits1.2.2
    exact ⟨agrees.phase,same,⟨(absurd · nowhere),(absurd · nowhere')⟩,compute,load⟩

end TileParams

end Snax
