import Snax.TileBuffers

/-! Runs of the tile pipeline: operands are loaded and outputs are spilled beside the run of another
tile. -/
namespace Snax

open Sync (Cores)
open RefillParams (Sound)

namespace RefillParams

/-- Core 0 does not touch the transfers. -/
theorem pollStep_pending {p : RefillParams} {c c' : PollCore} {k k' : Kernel}
    (moves : p.pollStep c k = some (c',k')) : k'.pending = k.pending := by
  cases pollStep_cases moves <;> rfl

/-- Nothing is under way before the first refill of a call. -/
def Fresh (p : RefillParams) (c : RefillCore) (k : Kernel) : Prop :=
  c.pc = p.refillHead 0 → k.pending = []

theorem Fresh.early {p : RefillParams} {c0 : PollCore} {c1 : RefillCore} {k : Kernel}
    (fresh : Fresh p c1 k) (sound : Sound p c0 c1 k) (early : p.refillPassed c1.pc = 0) :
    k.pending = [] ∧ k.issued = c1.call * p.nVisits + 0 := by
  have inside := sound.refillInside
  have refilled := sound.refilled
  rcases here : c1.pc with r | r | _ | _ | _
  · rw [here] at early inside refilled
    obtain rfl : r = 0 := early
    have some : 0 < p.nVisits := inside
    exact ⟨fresh (by rw [here,refillHead,if_pos some]),refilled⟩
  · rw [here] at early
    exact absurd early (Nat.succ_ne_zero r)
  · rw [here] at early refilled
    have none : p.nVisits = 0 := early
    refine ⟨fresh (by rw [here,refillHead,if_neg (Nat.not_lt.mpr none.le)]),refilled.trans ?_⟩
    exact congrArg _ none
  · rw [here] at early refilled
    have none : p.nVisits = 0 := early
    exact ⟨sound.empty (.inl here),refilled.trans (congrArg _ none)⟩
  · rw [here] at early
    exact absurd early (Nat.succ_ne_zero _)

theorem Fresh.refillStep {p : RefillParams} {c c' : RefillCore} {k k' : Kernel} (fresh : Fresh p c k)
    (inside : p.RefillInside c.pc) (moves : p.refillStep c k = some (c',k')) : Fresh p c' k' := by
  unfold RefillParams.refillStep at moves
  split at moves
  case h_1 r here =>
    cases moves
    rw [here] at inside
    intro again
    change p.refillHead (r + 1) = p.refillHead 0 at again
    rw [refillHead,refillHead,if_pos (Nat.lt_of_le_of_lt (Nat.zero_le r) inside)] at again
    split at again <;> cases again
  case h_2 here =>
    split at moves <;> cases moves
    · intro again
      exact absurd again.symm (p.refillHead_ne 0).1
    · exact fresh
  all_goals cases moves

theorem Fresh.meet {p : RefillParams} {c0 c0' : PollCore} {c1 c1' : RefillCore} {k : Kernel}
    (sound : Sound p c0 c1 k) (met : Met p c0 c1 c0' c1') : Fresh p c1' k := by
  cases met with
  | handover _ there =>
    intro again
    unfold refillHead at again
    split at again <;> cases again
  | drained => exact fun again => absurd again.symm (p.refillHead_ne 0).2
  | between _ there => exact fun _ => sound.empty (.inr there)

theorem Fresh.beside {p : RefillParams} {c : RefillCore} {k k' : Kernel} (fresh : Fresh p c k)
    (changes : Kernel.Beside p k k') : Fresh p c k' := by
  cases changes with
  | begin | finish | count10 | count11 | stop => exact fresh
  | transfer oldest =>
    exact fun again => absurd ((fresh again).symm.trans oldest) (List.cons_ne_nil _ _).symm

end RefillParams

namespace TileParams

variable {t : TileParams} {c0 c0' : ComputeCore} {c1 c1' : LoadCore} {s s' : TileState}

/-- The invariant of the tile loops. -/
structure Pipelined (t : TileParams) (c0 : ComputeCore) (c1 : LoadCore) (s : TileState) : Prop where
  sound : Sound t.refill c0.refill c1.refill s.kernel
  fresh : t.refill.Fresh c1.refill s.kernel
  agrees : t.Agrees c0 c1
  loaded : t.Loaded c1 s
  running : t.Running c0 s

/-- The first phase starts with the first buffers. -/
theorem preloaded_basePtr :
    ∀ x ∈ TilePhase.one.basePtrs, t.preloaded.shared.basePtr x.1 = (x.2,0) := by
  intro x member
  simp only [TilePhase.basePtrs,List.mem_cons,List.not_mem_nil,or_false] at member
  rcases member with rfl | rfl | rfl | rfl | rfl <;> rfl

theorem pipelined_preloaded (divides : t.refill.nbSlots ∣ t.refill.nbLTiles) :
    t.Pipelined t.preloaded.first t.preloaded.second t.preloaded.shared := by
  obtain ⟨computeFits,quiet⟩ := computeHead_fits (t := t) (c := ⟨.one,0,.done,t.refill.preloaded.first⟩)
    (Nat.zero_le _) rfl
  obtain ⟨loadFits,quiet'⟩ := loadHead_fits (t := t) (c := ⟨.one,0,.done,t.refill.preloaded.second⟩)
    (Nat.zero_le _) rfl
  have begin : t.refill.preloaded.first.pc = .start := rfl
  obtain ⟨whole,idle⟩ := todo_computeHead (t := t) .one 0 begin
  have left := t.left_loadHead .one 0 t.refill.preloaded.second
  rw [if_pos (Nat.succ_pos _)] at left
  refine ⟨RefillParams.sound_preloaded divides,fun _ => rfl,
    ⟨rfl,rfl,⟨(absurd · quiet),(absurd · quiet')⟩,computeFits,loadFits⟩,?loaded,?running⟩
  case loaded =>
    exact {
      underWay := fun _ among => absurd among List.not_mem_nil
      distinct := by
        change (t.left ⟨.one,0,t.loadHead .one 0,t.refill.preloaded.second⟩ ++ []).Nodup
        rw [left,List.append_nil]
        exact work_nodup _ _
      next := fun array member inside => by
        change _ ∈ t.left ⟨.one,0,t.loadHead .one 0,t.refill.preloaded.second⟩ ++ [] ∨ _
        rw [left]
        exact .inl (List.mem_append_left _ (load_mem_work member inside))
      current := fun _ _ computes => absurd computes.1 (Nat.not_succ_le_zero 0)
      output := fun _ _ tile before => absurd before (Nat.succ_ne_zero _)
      once := fun other array member tile inside done => by
        rcases done with ⟨_,second⟩ | ⟨_,past | ⟨now,_⟩⟩
        · cases second
        · exact absurd past (Nat.not_lt_zero _)
        · exact absurd now (Nat.succ_ne_zero _)
      never := fun _ _ _ _ _ => rfl
      biasing := (absurd · (t.loadHead_ne .one 0).1)
      biased := fun second => second.elim TilePhase.noConfusion (absurd · (t.loadHead_ne .one 0).2) }
  case running =>
    refine ⟨(absurd · idle),(absurd · idle),(absurd · idle),fun _ x member _ => ?_,
      fun x member done => absurd (whole ▸ member) done⟩
    change x ∈ (⟨.one,0,t.computeHead .one 0,t.refill.preloaded.first⟩ : ComputeCore).todo at member
    rw [whole] at member
    exact preloaded_basePtr x member

/-- The kernel runs only while core 0 is in the call of an iteration. -/
theorem started_of_running (sound : Sound t.refill c0.refill c1.refill s.kernel)
    (agrees : t.Agrees c0 c1) (runs : s.kernel.running = true) : c0.Started ∧ t.Computes c0.i := by
  have begun : c0.refill.pc ≠ .start := fun start =>
    absurd ((sound.stopped (.inl start)).symm.trans runs) Bool.noConfusion
  have fits := agrees.computeFits
  unfold ComputeFits at fits
  unfold ComputeCore.Started
  split at fits <;> rename_i here <;> rw [here]
  · exact ⟨begun,fits⟩
  · exact ⟨trivial,fits.1⟩
  · exact absurd fits.2.2 begun
  · exact absurd fits.2.2 begun
  · exact absurd fits.1.2.2 begun
  · exact absurd fits.2.2 begun
  · exact absurd fits.2.2 begun

theorem pipelined_reached (divides : t.refill.nbSlots ∣ t.refill.nbLTiles)
    {c : Cores.Config ComputeCore LoadCore TileState} (reached : t.cores.Reaches t.preloaded c) :
    t.Pipelined c.first c.second c.shared := by
  refine Cores.run_rule ?first ?second ?meet ?beside (pipelined_preloaded divides) reached
  case first =>
    rintro c0 c1 s c0' s' ⟨sound,fresh,agrees,loaded,running⟩ moves
    have move := computeStep_cases moves
    refine ⟨?_,?_,agrees.computeStep move,loaded.computeStep agrees running move,
      running.computeStep agrees move⟩
    · cases move with
      | startOne _ _ _ polls | startTwo _ _ _ polls | poll _ _ polls | due _ _ _ _ polls =>
        exact sound.pollStep polls
      | write | written | configure | configured => exact sound
    · cases move with
      | startOne _ _ _ polls | startTwo _ _ _ polls | poll _ _ polls | due _ _ _ _ polls =>
        exact fun again => (RefillParams.pollStep_pending polls).trans (fresh again)
      | write | written | configure | configured => exact fresh
  case second =>
    rintro c0 c1 s c1' s' ⟨sound,fresh,agrees,loaded,running⟩ moves
    have move := loadStep_cases moves
    refine ⟨?_,?_,agrees.loadStep move,loaded.loadStep agrees move,running.loadStep agrees move⟩
    · cases move with
      | refill _ refills => exact sound.refillStep divides refills
      | refilled | issue | issued | wait | waited | preload | preloaded => exact sound
    · cases move with
      | refill _ refills => exact fresh.refillStep sound.refillInside refills
      | refilled | issue | issued | wait | waited | preload | preloaded => exact fresh
  case meet =>
    rintro c0 c1 s c0' c1' ⟨sound,fresh,agrees,loaded,running⟩ here there
    have met := agrees.met sound here there
    refine ⟨?_,?_,agrees.meet met,loaded.meet running agrees sound met,running.meet agrees met⟩
    · cases met with
      | inside _ _ _ _ met | again _ _ _ _ _ met => exact sound.meet met
      | pass | bias | configured => exact sound
    · cases met with
      | inside _ _ _ _ met | again _ _ _ _ _ met => exact RefillParams.Fresh.meet sound met
      | pass | bias | configured => exact fresh
  case beside =>
    rintro c0 c1 s s' ⟨sound,fresh,agrees,loaded,running⟩ changes
    cases changes with
    | kernel changes same =>
      refine ⟨sound.beside changes,fresh.beside changes,agrees,{ loaded with },?_⟩
      exact running.frame rfl rfl id id (fun _ => id) (fun _ _ _ => id) ⟨rfl,rfl,rfl,same⟩
        fun _ _ _ => rfl
    | stop runs finished =>
      obtain ⟨started,computes⟩ := started_of_running sound agrees runs
      exact ⟨sound.beside (.stop finished),fresh,agrees,loaded.stop agrees running started computes,
        running.stop started⟩
    | transfer pending =>
      exact ⟨sound,fresh,agrees,loaded.complete agrees.loadFits pending,
        running.complete agrees.phase (loaded.underWay _ pending)⟩

end TileParams

/-! ### Hazards -/

/-- The buffer that a transfer reads or writes. -/
def TileDma.buffer : TileDma → TcdmBuffer
  | .load array tile | .spill array tile => .tile array (tile % 2)
  | .bias => .iscoreOutP2

theorem TilePhase.arrays_complete (phase : TilePhase) :
    (∀ array ∈ phase.loads, array ∈ phase.arrays) ∧ (∀ array ∈ phase.spills, array ∈ phase.arrays) ∧
      ∀ x ∈ phase.basePtrs, x.2 ∈ phase.arrays := by
  cases phase <;> decide

namespace TileParams

variable (t : TileParams)

/-- The buffers that a run reads or writes. -/
def uses (s : TileState) : List TcdmBuffer :=
  s.run.1.basePtrs.map (fun x => .tile (s.latched x.1).1 (s.latched x.1).2) ++
    .iscoreOutP1 :: .iscoreOutP2 :: (List.range t.refill.nbSlots).map .oscoreIn

/-- Before the start of a run: no transfer is under way, the operands of the tile are in the buffers at
the base pointers, and what was in the output buffers has been spilled. -/
structure Ready (phase : TilePhase) (tile : Nat) (s : TileState) : Prop where
  complete : s.transfers = [] ∧ s.kernel.pending = []
  operands : ∀ array ∈ phase.loads, s.buffers (array,tile % 2) = some tile
  ring : ∀ slot < t.refill.nbSlots, s.kernel.slots slot = some slot
  bias : phase = .two → s.biased = true
  basePtrs : ∀ x ∈ phase.basePtrs, s.basePtr x.1 = (x.2,tile % 2)
  spilled : ∀ array ∈ phase.spills, ∀ older, older + 2 ≤ tile → s.spilled array older = [some older]

/-- During a run: the operands stay in the buffers at the base pointers, transfers are to and from other
addresses, and a slot of the ring is refilled only behind its visit. -/
structure Undisturbed (phase : TilePhase) (tile : Nat) (s : TileState) : Prop where
  run : s.run = (phase,tile)
  latched : ∀ x ∈ phase.basePtrs, s.latched x.1 = (x.2,tile % 2)
  operands : ∀ array ∈ phase.loads, s.buffers (array,tile % 2) = some tile
  transfers : ∀ x ∈ s.transfers, ∀ used ∈ t.uses s, t.Apart phase x.buffer used
  visits : ∀ call r, s.kernel.begun = s.kernel.ended + 1 → s.kernel.ended = call * t.refill.nVisits + r →
    s.kernel.slots (r % t.refill.nbSlots) = some (r % t.refill.nbLTiles)
  refills : s.kernel.issued ≤ s.kernel.ended

/-- What comes to the slices of L3: nothing or the output of the tile, from a buffer that holds it. -/
structure SpilledOnce (c : LoadCore) (s : TileState) : Prop where
  source : ∀ array tile, .spill array tile ∈ s.transfers → s.buffers (array,tile % 2) = some tile
  slices : ∀ phase : TilePhase, ∀ array ∈ phase.spills, ∀ tile,
    s.spilled array tile = [] ∨ s.spilled array tile = [some tile]
  first : c.phase = .two → ∀ tile < t.nbTiles, s.spilled .convOutTile tile = [some tile]
  all : c.pc = .done → ∀ phase : TilePhase, ∀ array ∈ phase.spills, ∀ tile < t.nbTiles,
    s.spilled array tile = [some tile]

variable {t} {c0 : ComputeCore} {c1 : LoadCore} {s : TileState}

/-- While the kernel is in an iteration that computes the DM core is in it. -/
theorem Agrees.loading (agrees : t.Agrees c0 c1) (computes : t.Computes c1.i) :
    c1.pc = .refill ∨ (∃ left, c1.pc = .issue left ∨ c1.pc = .waitAll ∨ c1.pc = .last) ∧
      c1.refill.pc = .between := by
  have fits := agrees.loadFits
  unfold LoadFits at fits
  split at fits
  case h_1 here => exact .inl here
  case h_2 left here =>
    rw [if_pos computes] at fits
    exact .inr ⟨⟨left,.inl here⟩,fits.1.2⟩
  case h_3 here =>
    rw [if_pos computes] at fits
    exact .inr ⟨⟨[],.inr (.inl here)⟩,fits.2⟩
  case h_4 here =>
    rw [if_pos computes] at fits
    exact .inr ⟨⟨[],.inr (.inr here)⟩,fits.2⟩
  case h_5 | h_6 | h_7 | h_9 =>
    have inside := computes.2
    rw [fits.2.1] at inside
    exact absurd inside (Nat.not_le_of_lt (Nat.lt_add_of_pos_right Nat.two_pos))
  case h_8 =>
    have begun := computes.1
    rw [fits.2.1] at begun
    exact absurd begun (Nat.not_succ_le_zero 0)

theorem Pipelined.ready (pipelined : t.Pipelined c0 c1 s)
    (divides : t.refill.nbSlots ∣ t.refill.nbLTiles) (here : c0.pc = .call)
    (begin : c0.refill.pc = .start) : t.Ready c0.phase (c0.i - 1) s := by
  obtain ⟨sound,fresh,agrees,loaded,running⟩ := pipelined
  have computes : t.Computes c0.i := by
    have fits := agrees.computeFits
    simpa only [ComputeFits,here] using fits
  have early : t.refill.refillPassed c1.refill.pc = 0 := by
    rw [sound.passed,begin]
    rfl
  have refilling : c1.pc = .refill := by
    refine (agrees.loading (agrees.i ▸ computes)).resolve_right fun behind => ?_
    rw [behind.2] at early
    exact absurd early (Nat.succ_ne_zero _)
  obtain ⟨empty,all⟩ := fresh.early sound early
  refine ⟨⟨loaded.none (by simp only [TileParams.underWay,refilling]),empty⟩,?operands,
    fun slot inside => sound.ring divides all empty inside,
    fun second => loaded.biased (.inl (agrees.phase.trans second)),?basePtrs,?spilled⟩
  case operands =>
    have current := loaded.current
    rw [agrees.phase,agrees.i] at current
    exact fun array member => current array member computes
  case basePtrs =>
    have quiet : ¬c0.pc.Configures := by rw [here]; exact id
    exact fun x member => running.stale quiet x (todo_start here begin ▸ member) computes.2
  case spilled =>
    intro array member older before
    refine loaded.once c0.phase array member older ?_ (.inr ⟨agrees.phase.symm,.inl ?_⟩)
    · have := computes.2
      omega
    · have := computes.1
      rw [agrees.i]
      omega

/-- A transfer beside a run is to or from the other buffer of its pair. -/
theorem Pipelined.beside (pipelined : t.Pipelined c0 c1 s) (runs : s.kernel.running = true) {x : TileDma}
    (pending : x ∈ s.transfers) : ∃ array ∈ c0.phase.arrays, x.buffer = .tile array (c0.i % 2) := by
  obtain ⟨sound,_,agrees,loaded,_⟩ := pipelined
  obtain ⟨_,computes⟩ := started_of_running sound agrees runs
  have underWay := loaded.underWay x pending
  obtain ⟨loads,spills,_⟩ := c0.phase.arrays_complete
  have work : x ∈ t.work c0.phase c0.i := by
    rw [← agrees.phase,← agrees.i]
    rcases agrees.loading (agrees.i ▸ computes) with here | ⟨⟨left,here | here | here⟩,_⟩
    · simp only [TileParams.underWay,here] at underWay
      cases underWay
    · simpa only [TileParams.underWay,here] using underWay
    · simpa only [TileParams.underWay,here] using underWay
    · simp only [TileParams.underWay,here] at underWay
      cases underWay
  rcases mem_work work with ⟨array,member,rfl,_⟩ | ⟨array,member,tile,rfl,before⟩
  · exact ⟨array,loads array member,rfl⟩
  · refine ⟨array,spills array member,?_⟩
    rw [← before,Nat.add_mod_right]
    rfl

theorem Pipelined.undisturbed (pipelined : t.Pipelined c0 c1 s)
    (divides : t.refill.nbSlots ∣ t.refill.nbLTiles) (runs : s.kernel.running = true) :
    t.Undisturbed c0.phase (c0.i - 1) s := by
  have elsewhere {x : TileDma} (pending : x ∈ s.transfers) := pipelined.beside runs pending
  obtain ⟨sound,_,agrees,loaded,running⟩ := pipelined
  obtain ⟨started,computes⟩ := started_of_running sound agrees runs
  have run := running.run started
  have latched := running.latched started
  refine ⟨run,latched,?operands,?transfers,fun call r visiting visit => ?visits,sound.behind⟩
  case visits => exact sound.visited divides visiting visit
  case operands =>
    have current := loaded.current
    rw [agrees.phase,agrees.i] at current
    exact fun array member => current array member computes
  case transfers =>
    intro x pending used member
    obtain ⟨array,inside,buffer⟩ := elsewhere pending
    have here : ∃ y ∈ t.tcdm c0.phase, y.1 = x.buffer :=
      buffer ▸ mem_tcdm inside (Nat.mod_lt _ Nat.two_pos)
    have slots : (c0.i - 1) % 2 ≠ c0.i % 2 := by
      have := computes.1
      omega
    rw [uses,run] at member
    rcases List.mem_append.mp member with pair | fixed
    · obtain ⟨y,register,rfl⟩ := List.mem_map.mp pair
      rw [latched y register]
      have array' := c0.phase.arrays_complete.2.2 y register
      refine apart_of_ne ?_ here (mem_tcdm array' (Nat.mod_lt _ Nat.two_pos))
      rw [buffer]
      exact fun same => slots (TcdmBuffer.tile.inj same).2.symm
    · refine apart_of_ne ?_ here ?_
      · rw [buffer]
        rintro rfl
        simp at fixed
      · rcases List.mem_cons.mp fixed with rfl | fixed
        · exact ⟨_,List.mem_append_right _ List.mem_cons_self,rfl⟩
        · rcases List.mem_cons.mp fixed with rfl | ring
          · exact ⟨_,List.mem_append_right _ (List.mem_cons_of_mem _ List.mem_cons_self),rfl⟩
          · obtain ⟨slot,inside,rfl⟩ := List.mem_map.mp ring
            exact ⟨_,List.mem_append_left _ (List.mem_map_of_mem inside),rfl⟩

theorem Pipelined.spilledOnce (pipelined : t.Pipelined c0 c1 s) : t.SpilledOnce c1 s := by
  obtain ⟨_,_,agrees,loaded,_⟩ := pipelined
  refine ⟨fun array tile pending => ?_,fun phase array member tile => ?_,fun second tile inside => ?_,
    fun done phase array member tile inside => ?_⟩
  · obtain ⟨member,before,inside⟩ := spill_of_mem_underWay agrees.loadFits (loaded.underWay _ pending)
    exact loaded.output array member tile before inside
  · by_cases spilled : tile < t.nbTiles ∧ t.Spilled c1 s phase array tile
    · exact .inr (loaded.once phase array member tile spilled.1 spilled.2)
    · exact .inl (loaded.never phase array member tile spilled)
  · exact loaded.once .one .convOutTile (by decide) tile inside (.inl ⟨rfl,second⟩)
  · have fits := agrees.loadFits
    simp only [LoadFits,done] at fits
    refine loaded.once phase array member tile inside ?_
    rcases phase.one_or_two with rfl | rfl
    · exact .inl ⟨rfl,fits.1⟩
    · refine .inr ⟨fits.1.symm,.inl ?_⟩
      rw [fits.2.1]
      exact Nat.add_lt_add_right inside 2

/-- In both phases a run starts with its operands in the buffers at its base pointers and is not
disturbed there, its outputs are spilled once, and no two buffers of a phase overlap. -/
theorem tile_pipeline (t : TileParams) (divides : t.refill.nbSlots ∣ t.refill.nbLTiles)
    (c : Cores.Config ComputeCore LoadCore TileState) (reached : t.cores.Reaches t.preloaded c) :
    (c.first.pc = .call → c.first.refill.pc = .start → t.Ready c.first.phase (c.first.i - 1) c.shared) ∧
    (c.shared.kernel.running = true → t.Undisturbed c.first.phase (c.first.i - 1) c.shared) ∧
    t.SpilledOnce c.second c.shared ∧ ∀ phase, (t.tcdm phase).Pairwise Before := by
  have pipelined := pipelined_reached divides reached
  exact ⟨pipelined.ready divides,pipelined.undisturbed divides,pipelined.spilledOnce,tcdm_pairwise⟩

end TileParams

namespace TileParams

/-- One tile, in buffers of a word each. -/
def oneTile : TileParams where
  refill := .twoSlots
  nbTiles := 1
  positive := Nat.le_refl 1
  lengths :=
    { l1Next := 1
      oscoreInLTile := 64
      iscoreOutP1 := 8
      iscoreOutP2 := 8
      tile := fun _ => 8 }

theorem oneTile_reached : ∃ c, oneTile.cores.Reaches oneTile.preloaded c ∧ c.first.phase = .one ∧
    c.first.i = 1 ∧ c.first.pc = .basePtrs [] ∧ c.shared.kernel.running = true := by
  have issue1 : oneTile.cores.Reaches oneTile.preloaded _ := .single (.second rfl)
  have issue2 := issue1.tail (.second rfl)
  have issue3 := issue2.tail (.second rfl)
  have issue4 := issue3.tail (.second rfl)
  have issued := issue4.tail (.second rfl)
  have load1 := issued.tail (.beside (.transfer (x := .load .oscoreWeightP1 0) (by decide)))
  have load2 := load1.tail (.beside (.transfer (x := .load .convWeight 0) (by decide)))
  have load3 := load2.tail (.beside (.transfer (x := .load .convBias 0) (by decide)))
  have load4 := load3.tail (.beside (.transfer (x := .load .iscoreWeightP1 0) (by decide)))
  have waited := load4.tail (.second rfl)
  have met := waited.tail (.meet rfl rfl)
  have started := met.tail (.first rfl)
  exact ⟨_,started,rfl,rfl,rfl,rfl⟩

/-- The only tile runs on the operands in the first buffers. -/
theorem tile_pipeline_oneTile : ∃ c, oneTile.cores.Reaches oneTile.preloaded c ∧
    c.shared.kernel.running = true ∧ c.shared.buffers (.oscoreWeightP1,0) = some 0 ∧
    c.shared.latched (.writer 1) = (.convOutTile,0) := by
  obtain ⟨c,reached,first,one,_,runs⟩ := oneTile_reached
  have undisturbed := (tile_pipeline oneTile (Nat.dvd_refl 2) c reached).2.1 runs
  rw [first,one] at undisturbed
  exact ⟨c,reached,runs,undisturbed.operands .oscoreWeightP1 (by decide),
    undisturbed.latched (.writer 1,.convOutTile) (by decide)⟩

end TileParams

end Snax
