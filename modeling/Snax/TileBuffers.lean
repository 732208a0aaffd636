import Snax.TileLockstep

/-! What the steps of the cores and of the transfers do to the base pointers, to the buffers and to the
slices of the tile pipeline. -/
namespace Snax

open RefillParams (Sound)

/-! ### Core 0 and its base pointers -/

namespace TileParams

variable {t : TileParams} {c0 c0' : ComputeCore} {c1 c1' : LoadCore} {s s' : TileState}

theorem todo_start {c : ComputeCore} (here : c.pc = .call) (begin : c.refill.pc = .start) :
    c.todo = c.phase.basePtrs := by
  rcases phase : c.phase with _ | _
  · simp [ComputeCore.todo,here,begin,phase]
  · simp [ComputeCore.todo,here,begin,phase]

theorem todo_one {c : ComputeCore} (here : c.pc = .call) (first : c.phase = .one)
    (going : c.refill.pc ≠ .start) : c.todo = [] := by
  simp [ComputeCore.todo,here,first,going]

theorem todo_two {c : ComputeCore} (here : c.pc = .call) (second : c.phase = .two)
    (refilling : c.refill.pc ≠ .busy ∧ c.refill.pc ≠ .between) : c.todo = c.phase.basePtrs := by
  simp [ComputeCore.todo,here,second,refilling]

theorem todo_ended {c : ComputeCore} (here : c.pc = .call)
    (ended : c.refill.pc = .busy ∨ c.refill.pc = .between) : c.todo = [] := by
  rcases phase : c.phase with _ | _
  · refine todo_one here phase fun begin => ?_
    rw [begin] at ended
    exact ended.elim PollPc.noConfusion PollPc.noConfusion
  · simp [ComputeCore.todo,here,phase,ended]

theorem todo_computeHead (phase : TilePhase) (i : Nat) {refill : PollCore} (begin : refill.pc = .start) :
    (⟨phase,i,t.computeHead phase i,refill⟩ : ComputeCore).todo = phase.basePtrs ∧
      ¬(⟨phase,i,t.computeHead phase i,refill⟩ : ComputeCore).Started := by
  unfold computeHead
  split
  · split
    · exact ⟨todo_start rfl begin,fun started => started begin⟩
    · exact ⟨rfl,id⟩
  · split
    · exact ⟨rfl,id⟩
    · exact ⟨rfl,id⟩

/-- While the base pointers stay what happens to the other buffers does not matter. -/
theorem Running.frame (running : t.Running c0 s) (phase : c0'.phase = c0.phase) (i : c0'.i = c0.i)
    (started : c0'.Started → c0.Started) (configures : c0.pc.Configures → c0'.pc.Configures)
    (todo : ∀ x ∈ c0'.todo, x ∈ c0.todo)
    (fresh : c0.i < t.nbTiles → ∀ x ∈ c0.phase.basePtrs, x ∈ c0.todo → x ∈ c0'.todo)
    (same : s'.run = s.run ∧ s'.latched = s.latched ∧ s'.basePtr = s.basePtr ∧
      s'.kernel.running = s.kernel.running)
    (buffers : ∀ array ∈ c0.phase.spills, ∀ slot, s'.buffers (array,slot) = s.buffers (array,slot)) :
    t.Running c0' s' := by
  obtain ⟨run,latched,basePtr,still⟩ := same
  constructor
  · intro here
    rw [run,phase,i]
    exact running.run (started here)
  · rw [latched,phase,i]
    exact fun here => running.latched (started here)
  · rw [still,phase,i]
    intro here idle array member
    rw [buffers array member]
    exact running.output (started here) idle array member
  · rw [basePtr,i]
    exact fun quiet x member => running.stale (quiet ∘ configures) x (todo x member)
  · rw [basePtr,phase,i]
    exact fun x member done inside => running.fresh x member (done ∘ fresh inside x member) inside

theorem Running.start (running : t.Running c0 s) (here : c0.pc = .call) (begin : c0.refill.pc = .start)
    (computes : t.Computes c0.i) (phase : c0'.phase = c0.phase) (i : c0'.i = c0.i)
    (some : ∀ x ∈ c0'.todo, x ∈ c0.phase.basePtrs)
    (all : c0.i < t.nbTiles → c0'.todo = c0.phase.basePtrs) :
    t.Running c0' (s.start c0.phase (c0.i - 1)) := by
  have quiet : ¬c0.pc.Configures := by rw [here]; exact id
  have stale (x : BasePtr × TileArray) (member : x ∈ c0.phase.basePtrs) :
      s.basePtr x.1 = (x.2,(c0.i - 1) % 2) :=
    running.stale quiet x (todo_start here begin ▸ member) computes.2
  constructor
  · intro _
    rw [phase,i]
    rfl
  · intro _ x member
    rw [phase] at member
    rw [i]
    exact stale x member
  · exact fun _ idle => Bool.noConfusion idle
  · intro _ x member _
    rw [i]
    exact stale x (some x member)
  · intro x member done inside
    rw [phase] at member
    rw [i] at inside
    exact absurd (all inside ▸ member) done

/-- The next base pointer of a list that is being written. -/
theorem Running.write (running : t.Running c0 s) {reg : BasePtr} {array : TileArray}
    {left : List (BasePtr × TileArray)} (before : c0.todo = (reg,array) :: left)
    (after : c0'.todo = left) (suffix : (reg,array) :: left <:+ c0.phase.basePtrs)
    (phase : c0'.phase = c0.phase) (i : c0'.i = c0.i)
    (started : c0'.Started → c0.Started) (configures : c0.pc.Configures → c0'.pc.Configures) :
    t.Running c0' (s.setBasePtr reg (array,c0.i % 2)) := by
  have other (x : BasePtr × TileArray) (member : x ∈ c0.phase.basePtrs) (differs : x ≠ (reg,array)) :
      (s.setBasePtr reg (array,c0.i % 2)).basePtr x.1 = s.basePtr x.1 := by
    refine Function.update_of_ne (fun same => differs ?_) _ _
    exact c0.phase.basePtrs_unique x member _ (suffix.subset List.mem_cons_self) same
  have distinct : (reg,array) ∉ left :=
    (List.nodup_cons.mp (c0.phase.basePtrs_nodup.sublist suffix.sublist)).1
  constructor
  · rw [phase,i]
    exact fun here => running.run (started here)
  · rw [phase,i]
    exact fun here => running.latched (started here)
  · rw [phase,i]
    exact fun here => running.output (started here)
  · rw [after,i]
    intro quiet x member inside
    have whole := suffix.subset (List.mem_cons_of_mem _ member)
    rw [other x whole fun same => distinct (same ▸ member)]
    exact running.stale (quiet ∘ configures) x (before ▸ List.mem_cons_of_mem _ member) inside
  · rw [after,phase,i]
    intro x member done inside
    by_cases same : x = (reg,array)
    · rw [same]
      exact Function.update_self ..
    · rw [other x member same]
      refine running.fresh x member (fun old => ?_) inside
      rw [before] at old
      exact (List.mem_cons.mp old).elim same done

theorem Running.computeStep (running : t.Running c0 s) (agrees : t.Agrees c0 c1)
    (move : ComputeMove t c0 s c0' s') : t.Running c0' s' := by
  have fits := agrees.computeFits
  cases move with
  | startOne here begin first =>
    simp only [ComputeFits,here] at fits
    refine running.start here begin fits rfl rfl (nextBasePtrs_suffix _ _).subset fun inside => ?_
    exact if_neg (Nat.ne_of_lt (Nat.sub_lt_sub_right fits.1 inside))
  | @startTwo refill here begin second moves =>
    simp only [ComputeFits,here] at fits
    have head := (RefillParams.pollStep_start begin moves).1
    obtain ⟨_,between⟩ := t.refill.pollHead_ne 0
    have whole : ({ c0 with refill := refill } : ComputeCore).todo = c0.phase.basePtrs :=
      todo_two (c := { c0 with refill := refill }) here second
        (by rw [head]; exact ⟨RefillParams.pollHead_ne_busy _,between⟩)
    exact running.start here begin fits rfl rfl (fun x member => whole ▸ member) fun _ => whole
  | @poll refill kernel here going moves early =>
    obtain ⟨going',still,_,last⟩ := RefillParams.pollStep_going going moves
    have same : ({ c0 with refill := refill } : ComputeCore).todo = c0.todo := by
      rcases c0.phase.one_or_two with first | second
      · exact (todo_one (c := { c0 with refill := refill }) here first going').trans
          (todo_one here first going).symm
      · by_cases ended : c0.refill.pc = .busy ∨ c0.refill.pc = .between
        · exact (todo_ended (c := { c0 with refill := refill }) here (last ended)).trans
            (todo_ended here ended).symm
        · have within := mt (early second) ended
          exact (todo_two (c := { c0 with refill := refill }) here second (not_or.mp within)).trans
            (todo_two here second (not_or.mp ended)).symm
    refine running.frame rfl rfl ?_ id (fun _ member => same ▸ member)
      (fun _ _ _ member => same ▸ member) ⟨rfl,rfl,rfl,still⟩ fun _ _ _ => rfl
    simp only [ComputeCore.Started,here]
    exact fun _ => going
  | @due refill kernel here second behind busy moves =>
    simp only [ComputeFits,here] at fits
    have going : c0.refill.pc ≠ .start := by rw [behind]; exact PollPc.noConfusion
    obtain ⟨_,still,_⟩ := RefillParams.pollStep_going going moves
    have whole : c0.todo = c0.phase.basePtrs :=
      todo_two here second (by rw [behind]; exact ⟨PollPc.noConfusion,PollPc.noConfusion⟩)
    refine running.frame rfl rfl ?_ (by rw [here]; exact False.elim) ?_ ?_ ⟨rfl,rfl,rfl,still⟩
      fun _ _ _ => rfl
    · simp only [ComputeCore.Started,here]
      exact fun _ => going
    · rw [whole]
      exact fun x member => (nextBasePtrs_suffix _ _).subset member
    · intro inside x member _
      change x ∈ t.nextBasePtrs c0.phase (c0.i - 1)
      rw [nextBasePtrs,if_neg (Nat.ne_of_lt (Nat.sub_lt_sub_right fits.1 inside))]
      exact member
  | write here =>
    simp only [ComputeFits,here] at fits
    refine running.write ?_ rfl fits.2.1 rfl rfl ?_ (by rw [here]; exact False.elim)
    · simp only [ComputeCore.todo,here]
    · simp only [ComputeCore.Started,here]
      exact id
  | written here =>
    simp only [ComputeFits,here] at fits
    have none : c0.todo = [] := by simp only [ComputeCore.todo,here]
    have none' : ({ c0 with pc := .call } : ComputeCore).todo = [] := by
      rcases c0.phase.one_or_two with first | second
      · refine todo_one (c := { c0 with pc := .call }) rfl first ?_
        rw [fits.2.2,first]
        exact (t.refill.pollHead_ne 0).1
      · refine todo_ended (c := { c0 with pc := .call }) rfl (.inl ?_)
        rw [fits.2.2,second]
    refine running.frame rfl rfl ?_ (by rw [here]; exact False.elim) (fun x member => ?_)
      (fun _ x _ member => ?_) ⟨rfl,rfl,rfl,rfl⟩ fun _ _ _ => rfl
    · simp only [ComputeCore.Started,here]
      exact fun _ => trivial
    · rw [none'] at member
      cases member
    · rw [none] at member
      cases member
  | configure here =>
    simp only [ComputeFits,here] at fits
    have slot : 0 = c0.i % 2 := by rw [fits.1.2.1]
    rw [slot]
    refine running.write ?_ rfl fits.2 rfl rfl ?_ fun _ => trivial
    · simp only [ComputeCore.todo,here]
    · simp only [ComputeCore.Started,here]
      exact id
  | configured here =>
    have none : c0.todo = [] := by simp only [ComputeCore.todo,here]
    refine running.frame rfl rfl ?_ (fun _ => trivial) (fun x member => absurd member List.not_mem_nil)
      (fun _ x _ member => ?_) ⟨rfl,rfl,rfl,rfl⟩ fun _ _ _ => rfl
    · simp only [ComputeCore.Started,here]
      exact id
    · rw [none] at member
      cases member

/-- At the end of a run the base pointers are those of the next tile. -/
theorem Running.meet (running : t.Running c0 s) (agrees : t.Agrees c0 c1)
    (met : TileMet t c0 c1 c0' c1') : t.Running c0' s := by
  have fits := agrees.computeFits
  cases met with
  | @inside refill0 refill1 here there going going' =>
    have same : ({ c0 with refill := refill0 } : ComputeCore).todo = c0.todo := by
      rcases c0.phase.one_or_two with first | second
      · exact (todo_one (c := { c0 with refill := refill0 }) here first going'.1).trans
          (todo_one here first going.1).symm
      · exact (todo_two (c := { c0 with refill := refill0 }) here second going'.2).trans
          (todo_two here second going.2).symm
    refine running.frame rfl rfl ?_ id (fun _ member => same ▸ member)
      (fun _ _ _ member => same ▸ member) ⟨rfl,rfl,rfl,rfl⟩ fun _ _ _ => rfl
    simp only [ComputeCore.Started,here]
    exact fun _ => going.1
  | again here there ended begin =>
    obtain ⟨whole,idle⟩ := todo_computeHead (t := t) c0.phase (c0.i + 1) begin
    have none := todo_ended here (.inr ended)
    refine ⟨(absurd · idle),(absurd · idle),(absurd · idle),fun _ x member inside => ?_,
      fun x member done => absurd (whole ▸ member) done⟩
    rw [whole] at member
    exact running.fresh x member (by rw [none]; exact List.not_mem_nil) inside
  | pass here there =>
    simp only [ComputeFits,here] at fits
    obtain ⟨whole,idle⟩ := todo_computeHead (t := t) c0.phase (c0.i + 1) fits.2.2
    refine ⟨(absurd · idle),(absurd · idle),(absurd · idle),fun _ x member inside => ?_,
      fun x member done => absurd (whole ▸ member) done⟩
    rw [whole] at member
    have first : c0.i = 0 := by
      have beyond := fits.2.1
      unfold Computes at beyond
      change c0.i + 1 ≤ t.nbTiles at inside
      omega
    have stale := running.stale (by rw [here]; exact id) x (by simpa only [ComputeCore.todo,here])
      (by omega)
    change s.basePtr x.1 = (x.2,c0.i % 2)
    rw [stale,first]
  | bias here there =>
    exact ⟨False.elim,False.elim,False.elim,(absurd trivial ·),fun x member done => absurd member done⟩
  | configured here there =>
    simp only [ComputeFits,here] at fits
    obtain ⟨whole,idle⟩ := todo_computeHead (t := t) c0.phase c0.i fits.2.2
    refine ⟨(absurd · idle),(absurd · idle),(absurd · idle),fun _ x member inside => ?_,
      fun x member done => absurd (whole ▸ member) done⟩
    rw [whole] at member
    have fresh := running.fresh x member (by simp only [ComputeCore.todo,here]; exact List.not_mem_nil)
      (by rw [fits.2.1]; exact t.positive)
    rw [fresh,fits.2.1]

end TileParams

/-! ### Outputs and transfers -/

namespace TileParams

variable {t : TileParams} {c0 c0' : ComputeCore} {c1 c1' : LoadCore} {s s' : TileState}

/-- The writers have the base pointers of the outputs. -/
theorem writers_map {phase : TilePhase} {basePtr : BasePtr → TileArray × Nat} {slot : Nat}
    (all : ∀ x ∈ phase.basePtrs, basePtr x.1 = (x.2,slot)) :
    phase.writers.map basePtr = phase.spills.map fun array => (array,slot) := by
  cases phase
  · have conv := all (.writer 1,.convOutTile) (by decide)
    simp [TilePhase.writers,TilePhase.spills,conv]
  · have z := all (.writer 0,.zTile) (by decide)
    have y := all (.writer 2,.yTile) (by decide)
    simp [TilePhase.writers,TilePhase.spills,z,y]

theorem fill_output (phase : TilePhase) {slot : Nat} {array : TileArray} (member : array ∈ phase.spills)
    (s : TileState) (tile : Option Nat) :
    (s.fill (phase.spills.map fun array => (array,slot)) tile).buffers (array,slot) = tile :=
  if_pos (List.mem_map_of_mem member)

theorem fill_other (phase : TilePhase) {slot slot' : Nat} {array : TileArray}
    (other : array ∉ phase.spills ∨ slot' ≠ slot) (s : TileState) (tile : Option Nat) :
    (s.fill (phase.spills.map fun array => (array,slot)) tile).buffers (array,slot') =
      s.buffers (array,slot') := by
  refine if_neg fun among => ?_
  obtain ⟨array',member,same⟩ := List.mem_map.mp among
  cases same
  exact other.elim (absurd member) (absurd rfl)

/-- What a run writes is not what is loaded or spilled beside it. -/
theorem Loaded.fill (loaded : t.Loaded c1 s) (computes : t.Computes c1.i) (tile : Option Nat) :
    t.Loaded c1 (s.fill (c1.phase.spills.map fun array => (array,(c1.i - 1) % 2)) tile) := by
  have apart (array : TileArray) (member : array ∈ c1.phase.loads) : array ∉ c1.phase.spills :=
    fun spilled => c1.phase.loads_disjoint array member array spilled rfl
  exact { loaded with
    next := fun array member inside => by
      rw [fill_other _ (.inl (apart array member))]
      exact loaded.next array member inside
    current := fun array member inside => by
      rw [fill_other _ (.inl (apart array member))]
      exact loaded.current array member inside
    output := fun array member tile before inside => by
      have odd : tile % 2 ≠ (c1.i - 1) % 2 := by
        have := computes.1
        omega
      rw [fill_other _ (.inr odd)]
      exact loaded.output array member tile before inside }

theorem Loaded.computeStep (loaded : t.Loaded c1 s) (agrees : t.Agrees c0 c1) (running : t.Running c0 s)
    (move : ComputeMove t c0 s c0' s') : t.Loaded c1 s' := by
  have fits := agrees.computeFits
  cases move with
  | startOne here begin _ _ | startTwo here begin _ _ =>
    simp only [ComputeFits,here] at fits
    have stale (x : BasePtr × TileArray) (member : x ∈ c0.phase.basePtrs) :=
      running.stale (by rw [here]; exact id) x (todo_start here begin ▸ member) fits.2
    have outputs := writers_map stale
    rw [← agrees.phase,← agrees.i] at outputs
    have filled := loaded.fill (agrees.i ▸ fits) none
    rw [← outputs] at filled
    rw [← agrees.phase]
    exact { filled with }
  | poll | due | write | configure => exact { loaded with }
  | written | configured => exact loaded

theorem Loaded.stop (loaded : t.Loaded c1 s) (agrees : t.Agrees c0 c1) (running : t.Running c0 s)
    (started : c0.Started) (computes : t.Computes c0.i) : t.Loaded c1 s.stop := by
  have outputs := writers_map (running.latched started)
  rw [← agrees.phase,← agrees.i] at outputs
  have filled := loaded.fill (agrees.i ▸ computes) (some s.run.2)
  rw [← outputs] at filled
  have run : s.run.1 = c1.phase := by rw [running.run started,agrees.phase]
  rw [← run] at filled
  exact { filled with }

theorem Running.stop (running : t.Running c0 s) (started : c0.Started) : t.Running c0 s.stop := by
  have run := running.run started
  have outputs := writers_map (running.latched started)
  exact { running with
    output := fun _ _ array member => by
      change (s.fill (s.run.1.writers.map s.latched) (some s.run.2)).buffers _ = _
      rw [run,outputs]
      exact fill_output _ member _ _ }

/-- A transfer that may be under way is no load of an output. -/
theorem load_of_mem_underWay {array : TileArray} {tile : Nat}
    (among : .load array tile ∈ t.underWay c1) :
    array ∈ c1.phase.loads ∧ tile = c1.i ∧ c1.i < t.nbTiles := by
  unfold underWay at among
  split at among
  case h_1 | h_2 =>
    rcases mem_work among with ⟨_,member,same,inside⟩ | ⟨_,_,_,same,_⟩
    · cases same
      exact ⟨member,rfl,inside⟩
    · cases same
  case h_3 => cases List.mem_singleton.mp among
  case h_4 => cases among

theorem spill_of_mem_underWay (fits : t.LoadFits c1) {array : TileArray} {tile : Nat}
    (among : .spill array tile ∈ t.underWay c1) :
    array ∈ c1.phase.spills ∧ tile + 2 = c1.i ∧ tile < t.nbTiles := by
  unfold underWay at among
  split at among
  case h_1 here | h_2 here =>
    rcases mem_work among with ⟨_,_,same,_⟩ | ⟨_,member,_,same,before⟩
    · cases same
    · cases same
      have inside : c1.i < t.nbTiles + 2 := by
        simp only [LoadFits,here] at fits
        first | exact fits.1.1 | exact fits.1
      exact ⟨member,before,Nat.lt_of_add_lt_add_right (before ▸ inside)⟩
  case h_3 => cases List.mem_singleton.mp among
  case h_4 => cases among

theorem buffers_dmaStart (s : TileState) (x : TileDma) {buffer : TileArray × Nat}
    (other : ∀ array tile, x = .load array tile → buffer ≠ (array,tile % 2)) :
    (s.dmaStart x).buffers buffer = s.buffers buffer := by
  cases x with
  | load array tile => exact Function.update_of_ne (other array tile rfl) _ _
  | spill | bias => rfl

theorem buffers_complete (s : TileState) (x : TileDma) {buffer : TileArray × Nat}
    (other : ∀ array tile, x = .load array tile → buffer ≠ (array,tile % 2)) :
    (s.complete x).buffers buffer = s.buffers buffer := by
  cases x with
  | load array tile => exact Function.update_of_ne (other array tile rfl) _ _
  | spill | bias => rfl

/-- Which outputs have come to their slices depends on the transfers of outputs alone. -/
theorem spilled_iff (phase : c1'.phase = c1.phase) (i : c1'.i = c1.i) {array : TileArray} {tile : Nat}
    (spills : .spill array tile ∈ t.left c1' ++ s'.transfers ↔
      .spill array tile ∈ t.left c1 ++ s.transfers) (other : TilePhase) :
    t.Spilled c1' s' other array tile ↔ t.Spilled c1 s other array tile := by
  unfold Spilled
  rw [phase,i,spills]

theorem Loaded.frame (loaded : t.Loaded c1 s) (phase : c1'.phase = c1.phase) (i : c1'.i = c1.i)
    (buffers : s'.buffers = s.buffers) (spilled : s'.spilled = s.spilled)
    (underWay : ∀ x ∈ s'.transfers, x ∈ t.underWay c1') (distinct : (t.left c1' ++ s'.transfers).Nodup)
    (same : ∀ x ≠ TileDma.bias, x ∈ t.left c1' ++ s'.transfers ↔ x ∈ t.left c1 ++ s.transfers)
    (biasing : c1'.pc = .preloading → .bias ∈ s'.transfers ∨ s'.biased = true)
    (biased : c1'.phase = .two ∨ c1'.pc = .bias → s'.biased = true) : t.Loaded c1' s' where
  underWay := underWay
  distinct := distinct
  next := by
    rw [phase,i,buffers]
    intro array member inside
    rw [same _ TileDma.noConfusion]
    exact loaded.next array member inside
  current := by
    rw [phase,i,buffers]
    exact loaded.current
  output := by
    rw [phase,i,buffers]
    exact loaded.output
  once := by
    rw [spilled]
    intro other array member tile inside done
    exact loaded.once other array member tile inside
      ((spilled_iff phase i (same _ TileDma.noConfusion) other).mp done)
  never := by
    rw [spilled]
    intro other array member tile open_
    rw [spilled_iff phase i (same _ TileDma.noConfusion) other] at open_
    exact loaded.never other array member tile open_
  biasing := biasing
  biased := biased

/-- The next transfer of an iteration is issued. -/
theorem Loaded.issue (loaded : t.Loaded c1 s) (agrees : t.Agrees c0 c1) {x : TileDma}
    {left : List TileDma} (here : c1.pc = .issue (x :: left)) :
    t.Loaded { c1 with pc := .issue left } (s.dmaStart x) := by
  have fits := agrees.loadFits
  simp only [LoadFits,here] at fits
  have worked : x ∈ t.work c1.phase c1.i := fits.2.subset List.mem_cons_self
  have before : t.left c1 = x :: left := by simp only [TileParams.left,here]
  have order : (left ++ (s.transfers ++ [x])).Perm (t.left c1 ++ s.transfers) := by
    rw [before,← List.append_assoc]
    exact List.perm_append_singleton _ _
  have loads (array : TileArray) (tile : Nat) (same : x = .load array tile) :
      array ∈ c1.phase.loads ∧ tile = c1.i := by
    rcases mem_work worked with ⟨_,member,is,_⟩ | ⟨_,_,_,is,_⟩
    · cases same.symm.trans is
      exact ⟨member,rfl⟩
    · cases same.symm.trans is
  have same (other : TilePhase) (array : TileArray) (tile : Nat) :
      t.Spilled { c1 with pc := .issue left } (s.dmaStart x) other array tile ↔
        t.Spilled c1 s other array tile := by
    refine spilled_iff ?_ ?_ ?_ other
    · rfl
    · rfl
    · exact order.mem_iff
  exact {
    underWay := fun y among => by
      have under := loaded.underWay
      simp only [TileParams.underWay,here] at under
      rcases List.mem_append.mp among with old | new
      · exact under y old
      · rwa [List.mem_singleton.mp new]
    distinct := order.nodup_iff.mpr loaded.distinct
    next := fun array member inside => by
      by_cases issued : x = .load array c1.i
      · exact .inl (order.mem_iff.mpr (before ▸ issued ▸ List.mem_append_left _ List.mem_cons_self))
      · rw [buffers_dmaStart]
        · exact (loaded.next array member inside).imp_left order.mem_iff.mpr
        · intro array' tile is at_
          obtain ⟨-,rfl⟩ := loads array' tile is
          cases at_
          exact issued is
    current := fun array member inside => by
      rw [buffers_dmaStart]
      · exact loaded.current array member inside
      · intro array' tile is at_
        obtain ⟨-,rfl⟩ := loads array' tile is
        have parity : (c1.i - 1) % 2 = c1.i % 2 := (Prod.mk.inj at_).2
        have begun : 1 ≤ c1.i := inside.1
        omega
    output := fun array member tile before inside => by
      rw [buffers_dmaStart]
      · exact loaded.output array member tile before inside
      · intro array' tile' is at_
        exact c1.phase.loads_disjoint array' (loads array' tile' is).1 array member (Prod.mk.inj at_).1
    once := fun other array member tile inside done =>
      loaded.once other array member tile inside ((same other array tile).mp done)
    never := fun other array member tile unspilled => by
      rw [same other array tile] at unspilled
      exact loaded.never other array member tile unspilled
    biasing := LoadPc.noConfusion
    biased := fun second => loaded.biased (second.imp_right LoadPc.noConfusion) }

theorem Loaded.none (loaded : t.Loaded c1 s) (empty : t.underWay c1 = []) : s.transfers = [] := by
  refine List.eq_nil_iff_forall_not_mem.mpr fun x among => ?_
  have under := loaded.underWay x among
  rw [empty] at under
  cases under

theorem Loaded.loadStep (loaded : t.Loaded c1 s) (agrees : t.Agrees c0 c1)
    (move : LoadMove t c1 s c1' s') : t.Loaded c1' s' := by
  cases move with
  | refilled here =>
    have none := loaded.none (by simp only [TileParams.underWay,here])
    have left : t.left c1 = t.work c1.phase c1.i := by simp only [TileParams.left,here]
    refine loaded.frame rfl rfl rfl rfl (fun x among => ?_) ?_ (fun x _ => ?_) LoadPc.noConfusion
      fun second => loaded.biased (second.imp_right LoadPc.noConfusion)
    · rw [none] at among
      cases among
    · exact left ▸ loaded.distinct
    · rw [left]
      rfl
  | refill here =>
    refine loaded.frame rfl rfl rfl rfl ?_ ?_ (fun x _ => ?_) loaded.biasing loaded.biased
    · intro x among
      have under := loaded.underWay x among
      simp only [TileParams.underWay,here] at under ⊢
      exact under
    · have distinct := loaded.distinct
      simp only [TileParams.left,here] at distinct ⊢
      exact distinct
    · simp only [TileParams.left,here]
  | issue here => exact loaded.issue agrees here
  | issued here =>
    have left : t.left c1 = [] := by simp only [TileParams.left,here]
    refine loaded.frame rfl rfl rfl rfl ?_ ?_ (fun x _ => ?_) LoadPc.noConfusion
      fun second => loaded.biased (second.imp_right LoadPc.noConfusion)
    · have under := loaded.underWay
      simp only [TileParams.underWay,here] at under
      exact under
    · have distinct := loaded.distinct
      rwa [left] at distinct
    · rw [left]
      rfl
  | wait => exact loaded
  | waited here none =>
    have left : t.left c1 = [] := by simp only [TileParams.left,here]
    refine loaded.frame rfl rfl rfl rfl (fun x among => ?_) ?_ (fun x _ => ?_) LoadPc.noConfusion
      fun second => loaded.biased (second.imp_right LoadPc.noConfusion)
    · rw [none] at among
      cases among
    · have distinct := loaded.distinct
      rwa [left] at distinct
    · rw [left]
      rfl
  | preload here =>
    have none := loaded.none (by simp only [TileParams.underWay,here])
    have left : t.left c1 = [] := by simp only [TileParams.left,here]
    have queued : (s.dmaStart .bias).transfers = [.bias] := by
      change s.transfers ++ [TileDma.bias] = _
      rw [none]
      rfl
    refine loaded.frame rfl rfl rfl rfl (fun x among => ?_) ?_ (fun x real => ?_) (fun _ => .inl ?_)
      fun second => loaded.biased (second.imp_right LoadPc.noConfusion)
    · rw [queued] at among
      exact among
    · rw [queued]
      exact List.nodup_singleton _
    · rw [queued,left,none]
      exact ⟨fun among => absurd (List.mem_singleton.mp among) real,fun among => absurd among List.not_mem_nil⟩
    · rw [queued]
      exact List.mem_singleton_self _
  | preloaded here none =>
    have left : t.left c1 = [] := by simp only [TileParams.left,here]
    refine loaded.frame rfl rfl rfl rfl (fun x among => ?_) ?_ (fun x _ => ?_) LoadPc.noConfusion
      fun second => second.elim (fun two => loaded.biased (.inl two)) fun _ => ?_
    · rw [none] at among
      cases among
    · have distinct := loaded.distinct
      rwa [left] at distinct
    · rw [left]
      rfl
    · refine (loaded.biasing here).resolve_left fun among => ?_
      rw [none] at among
      cases among

theorem Loaded.erased (loaded : t.Loaded c1 s) (x : TileDma) :
    (∀ y ∈ s.transfers.erase x, y ∈ t.underWay c1) ∧ (t.left c1 ++ s.transfers.erase x).Nodup ∧
      ∀ y ≠ x, y ∈ t.left c1 ++ s.transfers.erase x ↔ y ∈ t.left c1 ++ s.transfers := by
  refine ⟨fun y among => loaded.underWay y (List.mem_of_mem_erase among),?_,fun y other => ?_⟩
  · exact loaded.distinct.sublist (List.Sublist.append_left List.erase_sublist _)
  · rw [List.mem_append,List.mem_append,List.mem_erase_of_ne other]

/-- A transfer that completes is no longer among those to come. -/
theorem Loaded.gone (loaded : t.Loaded c1 s) {x : TileDma} (pending : x ∈ s.transfers) :
    x ∉ t.left c1 ++ s.transfers.erase x := by
  obtain ⟨_,transfers,apart⟩ := List.nodup_append.mp loaded.distinct
  intro among
  rcases List.mem_append.mp among with left | again
  · exact apart x left x pending rfl
  · exact transfers.not_mem_erase again

theorem Loaded.completeLoad (loaded : t.Loaded c1 s) {array : TileArray} {tile : Nat}
    (pending : .load array tile ∈ s.transfers) : t.Loaded c1 (s.complete (.load array tile)) := by
  obtain ⟨underWay,distinct,still⟩ := loaded.erased (.load array tile)
  obtain ⟨member,rfl,inside⟩ := load_of_mem_underWay (loaded.underWay _ pending)
  have same (other : TilePhase) (array' : TileArray) (tile : Nat) :
      t.Spilled c1 (s.complete (.load array c1.i)) other array' tile ↔
        t.Spilled c1 s other array' tile := by
    refine spilled_iff ?_ ?_ ?_ other
    · rfl
    · rfl
    · exact still _ TileDma.noConfusion
  exact { loaded with
    underWay := underWay
    distinct := distinct
    next := fun array' member' _ => by
      by_cases here : array' = array
      · rw [here]
        exact .inr (Function.update_self ..)
      · refine (loaded.next array' member' inside).imp (fun among => ?_) fun held => ?_
        · exact (still _ fun is => here (TileDma.load.inj is).1).mpr among
        · rwa [buffers_complete]
          intro _ _ is at_
          cases is
          exact here (Prod.mk.inj at_).1
    current := fun array' member' computes => by
      rw [buffers_complete]
      · exact loaded.current array' member' computes
      · intro _ _ is at_
        cases is
        have parity : (c1.i - 1) % 2 = c1.i % 2 := (Prod.mk.inj at_).2
        have begun : 1 ≤ c1.i := computes.1
        omega
    output := fun array' member' tile before inside => by
      rw [buffers_complete]
      · exact loaded.output array' member' tile before inside
      · intro _ _ is at_
        cases is
        exact c1.phase.loads_disjoint array member array' member' (Prod.mk.inj at_).1
    once := fun other array' member' tile inside done =>
      loaded.once other array' member' tile inside ((same other array' tile).mp done)
    never := fun other array' member' tile unspilled => by
      rw [same other array' tile] at unspilled
      exact loaded.never other array' member' tile unspilled
    biasing := fun preloading => (loaded.biasing preloading).imp_left fun among =>
      (List.mem_erase_of_ne TileDma.noConfusion).mpr among }

/-- The slice of a tile receives its output once. -/
theorem Loaded.completeSpill (loaded : t.Loaded c1 s) (fits : t.LoadFits c1) {array : TileArray}
    {tile : Nat} (pending : .spill array tile ∈ s.transfers) :
    t.Loaded c1 (s.complete (.spill array tile)) := by
  obtain ⟨underWay,distinct,still⟩ := loaded.erased (.spill array tile)
  obtain ⟨member,before,inside⟩ := spill_of_mem_underWay fits (loaded.underWay _ pending)
  have unspilled : s.spilled array tile = [] := by
    refine loaded.never c1.phase array member tile fun done => ?_
    rcases done.2 with ⟨first,second⟩ | ⟨_,past | ⟨_,absent⟩⟩
    · exact absurd (first.symm.trans second) TilePhase.noConfusion
    · exact absurd (before ▸ past) (Nat.lt_irrefl _)
    · exact absent (List.mem_append_right _ pending)
  have slice : (s.complete (.spill array tile)).spilled array tile = [some tile] := by
    change Function.update s.spilled array _ array tile = _
    have held := loaded.output array member tile before inside
    rw [Function.update_self,Function.update_self,unspilled,held]
    rfl
  have elsewhere (array' : TileArray) (tile' : Nat) (other : ¬(array' = array ∧ tile' = tile)) :
      (s.complete (.spill array tile)).spilled array' tile' = s.spilled array' tile' := by
    change Function.update s.spilled array _ array' tile' = _
    by_cases here : array' = array
    · subst here
      rw [Function.update_self,Function.update_of_ne fun same => other ⟨rfl,same⟩]
    · rw [Function.update_of_ne here]
  have same (phase : TilePhase) (array' : TileArray) (tile' : Nat)
      (other : ¬(array' = array ∧ tile' = tile)) :
      t.Spilled c1 (s.complete (.spill array tile)) phase array' tile' ↔
        t.Spilled c1 s phase array' tile' := by
    refine spilled_iff ?_ ?_ ?_ phase
    · rfl
    · rfl
    · exact still _ fun is => other (TileDma.spill.inj is)
  exact { loaded with
    underWay := underWay
    distinct := distinct
    next := fun array' member' inside => (loaded.next array' member' inside).imp_left
      (still _ TileDma.noConfusion).mpr
    once := fun phase array' member' tile' inside done => by
      by_cases here : array' = array ∧ tile' = tile
      · rw [here.1,here.2]
        exact slice
      · rw [elsewhere array' tile' here]
        exact loaded.once phase array' member' tile' inside ((same phase array' tile' here).mp done)
    never := fun phase array' member' tile' unspilled => by
      by_cases here : array' = array ∧ tile' = tile
      · obtain ⟨rfl,rfl⟩ := here
        refine absurd ⟨inside,.inr ⟨phase.spills_disjoint _ _ member' member,.inr ⟨before,?_⟩⟩⟩ unspilled
        exact loaded.gone pending
      · rw [same phase array' tile' here] at unspilled
        rw [elsewhere array' tile' here]
        exact loaded.never phase array' member' tile' unspilled
    biasing := fun preloading => (loaded.biasing preloading).imp_left fun among =>
      (List.mem_erase_of_ne TileDma.noConfusion).mpr among }

theorem Loaded.complete (loaded : t.Loaded c1 s) (fits : t.LoadFits c1) {x : TileDma}
    (pending : x ∈ s.transfers) : t.Loaded c1 (s.complete x) := by
  cases x with
  | load => exact loaded.completeLoad pending
  | spill => exact loaded.completeSpill fits pending
  | bias =>
    obtain ⟨underWay,distinct,still⟩ := loaded.erased .bias
    exact loaded.frame rfl rfl rfl rfl underWay distinct still (fun _ => .inr rfl) fun _ => rfl

/-- Only operands are loaded. -/
theorem Running.buffers (running : t.Running c0 s) (phase : c1.phase = c0.phase)
    (same : s'.run = s.run ∧ s'.latched = s.latched ∧ s'.basePtr = s.basePtr ∧
      s'.kernel.running = s.kernel.running)
    (changed : ∀ array ∉ c1.phase.loads, ∀ slot, s'.buffers (array,slot) = s.buffers (array,slot)) :
    t.Running c0 s' := by
  refine running.frame rfl rfl id id (fun _ => id) (fun _ _ _ => id) same fun array member slot => ?_
  refine changed array (fun loaded => ?_) slot
  exact c0.phase.loads_disjoint array (phase ▸ loaded) array member rfl

theorem Running.loadStep (running : t.Running c0 s) (agrees : t.Agrees c0 c1)
    (move : LoadMove t c1 s c1' s') : t.Running c0 s' := by
  have fits := agrees.loadFits
  cases move with
  | refilled | issued | wait | waited | preloaded => exact running
  | refill here moves =>
    have still := RefillParams.refillStep_running moves
    exact running.buffers agrees.phase ⟨rfl,rfl,rfl,still⟩ fun _ _ _ => rfl
  | issue here =>
    simp only [LoadFits,here] at fits
    refine running.buffers agrees.phase ⟨rfl,rfl,rfl,rfl⟩ fun array other slot => ?_
    refine buffers_dmaStart _ _ fun array' tile is at_ => other ?_
    rcases mem_work (fits.2.subset List.mem_cons_self) with ⟨_,member,same,_⟩ | ⟨_,_,_,same,_⟩
    · cases is.symm.trans same
      rwa [(Prod.mk.inj at_).1]
    · cases is.symm.trans same
  | preload => exact running.buffers agrees.phase ⟨rfl,rfl,rfl,rfl⟩ fun _ _ _ => rfl

theorem Running.complete (running : t.Running c0 s) (phase : c1.phase = c0.phase) {x : TileDma}
    (underWay : x ∈ t.underWay c1) : t.Running c0 (s.complete x) := by
  refine running.buffers phase ⟨rfl,rfl,rfl,rfl⟩ fun array other slot => ?_
  refine buffers_complete _ _ fun array' tile is at_ => other ?_
  rw [is] at underWay
  rw [(Prod.mk.inj at_).1]
  exact (load_of_mem_underWay underWay).1

theorem left_loadHead (phase : TilePhase) (i : Nat) (refill : RefillCore) :
    t.left ⟨phase,i,t.loadHead phase i,refill⟩ = if i < t.nbTiles + 2 then t.work phase i else [] := by
  unfold loadHead
  split
  · split
    · rfl
    · rfl
  · split
    · rfl
    · rfl

theorem loadHead_ne (phase : TilePhase) (i : Nat) :
    t.loadHead phase i ≠ .preloading ∧ t.loadHead phase i ≠ .bias := by
  unfold loadHead
  split
  · split
    · exact ⟨LoadPc.noConfusion,LoadPc.noConfusion⟩
    · exact ⟨LoadPc.noConfusion,LoadPc.noConfusion⟩
  · split
    · exact ⟨LoadPc.noConfusion,LoadPc.noConfusion⟩
    · exact ⟨LoadPc.noConfusion,LoadPc.noConfusion⟩

/-- The next iteration: what has been loaded is current, and what the run left is to be spilled. -/
theorem Loaded.advance (loaded : t.Loaded c1 s) (here : c1.pc = .last) (refill : RefillCore)
    (output : ∀ array ∈ c1.phase.spills, ∀ tile, tile + 1 = c1.i → tile < t.nbTiles →
      s.buffers (array,tile % 2) = some tile) :
    t.Loaded ⟨c1.phase,c1.i + 1,t.loadHead c1.phase (c1.i + 1),refill⟩ s := by
  have none := loaded.none (by simp only [TileParams.underWay,here])
  have left : t.left c1 = [] := by simp only [TileParams.left,here]
  have left' := t.left_loadHead c1.phase (c1.i + 1) refill
  have spilled (other : TilePhase) (array : TileArray) (member : array ∈ other.spills) (tile : Nat)
      (inside : tile < t.nbTiles) :
      t.Spilled ⟨c1.phase,c1.i + 1,t.loadHead c1.phase (c1.i + 1),refill⟩ s other array tile ↔
        t.Spilled c1 s other array tile := by
    unfold Spilled
    rw [left,left',none]
    refine or_congr Iff.rfl (and_congr_right fun same => ?_)
    constructor
    · rintro (past | ⟨due,absent⟩)
      · rcases Nat.lt_or_eq_of_le (Nat.le_of_lt_succ past) with past | now
        · exact .inl past
        · exact .inr ⟨now,List.not_mem_nil⟩
      · refine absurd ?_ absent
        have next : tile + 2 = c1.i + 1 := due
        rw [if_pos (by omega)]
        have spilled : .spill array tile ∈ t.work other (tile + 2) := spill_mem_work member
        rw [due,same] at spilled
        exact List.mem_append_left _ spilled
    · rintro (past | ⟨now,_⟩)
      · exact .inl (Nat.lt_succ_of_lt past)
      · exact .inl (Nat.lt_succ_of_le now.le)
  exact {
    underWay := fun x among => by
      rw [none] at among
      cases among
    distinct := by
      rw [left',none,List.append_nil]
      split
      · exact work_nodup _ _
      · exact List.nodup_nil
    next := fun array member inside => by
      rw [left',if_pos (Nat.lt_add_right 2 inside)]
      exact .inl (List.mem_append_left _ (load_mem_work member inside))
    current := fun array member computes => by
      refine (loaded.next array member computes.2).resolve_left fun among => ?_
      rw [left,none] at among
      cases among
    output := fun array member tile before => output array member tile (Nat.succ.inj before)
    once := fun other array member tile inside done =>
      loaded.once other array member tile inside ((spilled other array member tile inside).mp done)
    never := fun other array member tile unspilled =>
      loaded.never other array member tile fun done =>
        unspilled ⟨done.1,(spilled other array member tile done.1).mpr done.2⟩
    biasing := (absurd · (t.loadHead_ne _ _).1)
    biased := fun second => loaded.biased (.inl (second.resolve_right (t.loadHead_ne _ _).2)) }

/-- The first phase has spilled all of its outputs when the second one begins. -/
theorem Loaded.second (loaded : t.Loaded c1 s) (fits : t.LoadFits c1) (here : c1.pc = .bias) :
    t.Loaded { c1 with phase := .two, i := 0, pc := .configured } s := by
  have none := loaded.none (by simp only [TileParams.underWay,here])
  simp only [LoadFits,here] at fits
  exact {
    underWay := fun x among => by
      rw [none] at among
      cases among
    distinct := by
      rw [none,List.append_nil]
      exact work_nodup .two 0
    next := fun array member inside => .inl (List.mem_append_left _ (load_mem_work member inside))
    current := fun _ _ computes => absurd computes.1 (Nat.not_succ_le_zero 0)
    output := fun _ _ tile before => absurd before (Nat.succ_ne_zero _)
    once := fun other array member tile inside done => by
      rcases done with ⟨rfl,_⟩ | ⟨_,past | ⟨now,_⟩⟩
      · refine loaded.once .one array member tile inside (.inr ⟨fits.1.symm,.inl ?_⟩)
        rw [fits.2.1]
        exact Nat.add_lt_add_right inside 2
      · exact absurd past (Nat.not_lt_zero _)
      · exact absurd now (Nat.succ_ne_zero _)
    never := fun other array member tile unspilled => by
      refine loaded.never other array member tile fun spilled => unspilled ⟨spilled.1,.inl ⟨?_,rfl⟩⟩
      rcases spilled.2 with ⟨first,_⟩ | ⟨same,_⟩
      · exact first
      · exact same.trans fits.1
    biasing := LoadPc.noConfusion
    biased := fun _ => loaded.biased (.inr here) }

theorem Loaded.meet (loaded : t.Loaded c1 s) (running : t.Running c0 s) (agrees : t.Agrees c0 c1)
    (sound : Sound t.refill c0.refill c1.refill s.kernel) (met : TileMet t c0 c1 c0' c1') :
    t.Loaded c1' s := by
  have fits0 := agrees.computeFits
  have fits1 := agrees.loadFits
  cases met with
  | inside here there =>
    refine loaded.frame rfl rfl rfl rfl ?_ ?_ (fun x _ => ?_) loaded.biasing loaded.biased
    · intro x among
      have under := loaded.underWay x among
      simp only [TileParams.underWay,there] at under ⊢
      exact under
    · have distinct := loaded.distinct
      simp only [TileParams.left,there] at distinct ⊢
      exact distinct
    · simp only [TileParams.left,there]
  | again here there ended =>
    have started : c0.Started := by
      simp only [ComputeCore.Started,here,ended]
      exact PollPc.noConfusion
    refine loaded.advance there _ fun array member tile before _ => ?_
    have left := running.output started (sound.stopped (.inr ended)) array (agrees.phase ▸ member)
    rwa [← agrees.i,← before,Nat.add_sub_cancel] at left
  | pass here there =>
    simp only [ComputeFits,here] at fits0
    refine loaded.advance there _ fun array member tile before inside => absurd ?_ fits0.2.1
    rw [← agrees.i,← before]
    exact ⟨Nat.le_add_left 1 tile,inside⟩
  | bias _ there => exact loaded.second fits1 there
  | configured _ there =>
    have none := loaded.none (by simp only [TileParams.underWay,there])
    simp only [LoadFits,there] at fits1
    have left : t.left { c1 with pc := t.loadHead c1.phase c1.i } = t.left c1 := by
      rw [left_loadHead,if_pos (by rw [fits1.2.1]; exact Nat.succ_pos _)]
      simp only [TileParams.left,there]
    refine loaded.frame rfl rfl rfl rfl (fun x among => ?_) ?_ (fun x _ => by rw [left])
      (absurd · (t.loadHead_ne _ _).1) fun _ => loaded.biased (.inl fits1.1)
    · rw [none] at among
      cases among
    · rw [left]
      exact loaded.distinct

end TileParams

end Snax
