import Snax.StaleReads

/-! The occupancy of the streamer FIFOs of the engine: what the producers of a writer may push, and
what a reader can show. The scan and its state carry push without a look at the depth. -/
namespace Snax
namespace AccelEngine

/-- A reader whose cached occupancy is what it can show. -/
structure Steady (r : CycReader) : Prop where
  lanes : 0 < r.cfg.numChannel
  cached : r.fifoOcc = r.visible
  sound : ∃ groups, CycReader.Sound r groups

def Within (w : CycWriter) : Prop := 0 ≤ w.fifoOcc ∧ w.fifoOcc ≤ w.cfg.depth

/-- A lane of the dt_BC reader is at most its data depth ahead of the scan. -/
structure Lane7 (e : AccelEngine) (l : Nat) : Prop where
  pend : 0 ≤ e.su.pend l
  inFlight : e.su.landed l + e.su.pend l ≤ e.su.issued l
  issued : e.su.issued l - e.su.consumed7 ≤ e.shape.r7DataD

/-- All FIFOs are within their depths. -/
structure Contained (e : AccelEngine) : Prop where
  readers : ∀ id, Steady (e.readers id)
  writers : ∀ id, Within (e.writers id)
  dtBC : ∀ l < 4, Lane7 e l

/-! ### The streamer objects -/

theorem Steady.occ {r : CycReader} (steady : Steady r) : r.fifoOcc ≤ r.cfg.dataDepth := by
  obtain ⟨groups,sound⟩ := steady.sound
  have lowest := r.minLanded_le steady.lanes
  have landed := sound.inFlight 0 steady.lanes
  have pend := sound.pend 0 steady.lanes
  have issued := sound.issued 0 steady.lanes
  have deep := sound.depths.1
  rw [steady.cached,CycReader.visible]
  split
  · split <;> omega
  · omega

theorem Steady.landReads {r : CycReader} (steady : Steady r) : Steady r.landReads := by
  obtain ⟨groups,sound⟩ := steady.sound
  exact ⟨steady.lanes,rfl,groups,sound.landReads⟩

theorem Steady.pop {r : CycReader} (steady : Steady r) : Steady r.pop.1 := by
  obtain ⟨groups,sound⟩ := steady.sound
  have popped := sound.pop
  refine ⟨?_,?_,?_⟩
  · have cfg : r.pop.1.cfg = r.cfg := CycReader.next_cfg r .pop
    rw [cfg]
    exact steady.lanes
  · have cached := steady.cached
    rw [CycReader.pop]
    split
    · exact cached
    · split
      · rfl
      · exact cached
  · cases offered : r.offered with
    | none => exact ⟨groups,by rw [offered] at popped; exact popped⟩
    | some group => exact ⟨_,by rw [offered] at popped; exact popped⟩

theorem Steady.commit {r : CycReader} (steady : Steady r) (g : List Bool) (gi : Nat) :
    Steady (r.commit g gi).1 := by
  obtain ⟨groups,sound⟩ := steady.sound
  refine ⟨?_,?_,groups,sound.commit g gi⟩
  · have cfg : (r.commit g gi).1.cfg = r.cfg := CycReader.next_cfg r (.commit g gi)
    rw [cfg]
    exact steady.lanes
  · have cached := steady.cached
    rw [CycReader.commit_eq]
    simp only
    split <;> exact cached

theorem steady_reset {r : CycReader} (lanes : 0 < r.cfg.numChannel) (reuse : 0 < r.cfg.reuse)
    (depths : 0 ≤ r.cfg.dataDepth ∧ 0 ≤ r.cfg.addrDepth) : Steady r.reset := by
  refine ⟨lanes,?_,[],CycReader.sound_reset r reuse depths⟩
  have none : CycReader.minLanded r.reset.cfg r.reset.toState = 0 := by
    unfold CycReader.minLanded
    change (List.range (r.cfg.numChannel - 1)).foldl (fun m _ => min (0 : Int) m) 0 = 0
    induction List.range (r.cfg.numChannel - 1) with
    | nil => rfl
    | cons l ls ih => exact ih
  rw [CycReader.visible,none]
  change 0 = if 1 < r.cfg.reuse then (if (0 : Int) < 0 then 1 else 0) else 0 - 0
  split <;> rfl

theorem Steady.reset {r : CycReader} (steady : Steady r) : Steady r.reset := by
  obtain ⟨groups,sound⟩ := steady.sound
  exact steady_reset steady.lanes (by have := sound.replay; omega) sound.depths

theorem Within.commit {w : CycWriter} (within : Within w) (g : List Bool) (gi : Nat) :
    Within (w.commitFlags g gi).1 := by
  rw [CycWriter.commitFlags_eq,CycWriter.commit]
  split
  · exact within
  · rename_i waiting
    have some : 0 < w.fifoOcc := by simp at waiting; exact waiting.2
    obtain ⟨_,above⟩ := within
    simp only
    split
    · exact ⟨by simp only; omega,by simp only; omega⟩
    · exact ⟨some.le,above⟩

theorem Within.pushed {w : CycWriter} (within : Within w) (below : Below w) : Within (w.pushed 1) := by
  obtain ⟨positive,_⟩ := within
  rw [Below] at below
  exact ⟨by simp only [CycWriter.pushed,CycWriter.push]; omega,
    by simp only [CycWriter.pushed,CycWriter.push]; omega⟩

/-! ### The engine -/

theorem Contained.setReader {e : AccelEngine} (contained : Contained e) {id : ReaderId} {r : CycReader}
    (steady : Steady r) : Contained (e.setReader id r) := by
  refine ⟨fun other => ?_,contained.writers,fun l lane => ?_⟩
  · by_cases here : other = id
    · simpa [AccelEngine.setReader,here] using steady
    · simpa [AccelEngine.setReader,here] using contained.readers other
  · have := contained.dtBC l lane
    exact ⟨this.pend,this.inFlight,this.issued⟩

theorem Contained.setWriter {e : AccelEngine} (contained : Contained e) {id : WriterId} {w : CycWriter}
    (within : Within w) : Contained (e.setWriter id w) := by
  refine ⟨contained.readers,fun other => ?_,fun l lane => ?_⟩
  · by_cases here : other = id
    · simpa [AccelEngine.setWriter,here] using within
    · simpa [AccelEngine.setWriter,here] using contained.writers other
  · have := contained.dtBC l lane
    exact ⟨this.pend,this.inFlight,this.issued⟩

theorem Contained.of_eq {e e' : AccelEngine} (contained : Contained e) (readers : e'.readers = e.readers)
    (writers : e'.writers = e.writers) (lanes : e'.lanes7 = e.lanes7)
    (depth : e'.shape.r7DataD = e.shape.r7DataD) : Contained e' := by
  simp only [lanes7,Prod.mk.injEq] at lanes
  obtain ⟨issued,landed,pend,taken⟩ := lanes
  refine ⟨fun id => by rw [readers]; exact contained.readers id,
    fun id => by rw [writers]; exact contained.writers id,fun l lane => ?_⟩
  have here := contained.dtBC l lane
  exact ⟨by rw [pend]; exact here.pend,by rw [landed,pend,issued]; exact here.inFlight,
    by rw [issued,taken,depth]; exact here.issued⟩

/-- The moves of a cycle keep the FIFOs contained where no writer is pushed at its depth. -/
theorem Moves.contained {e e' : AccelEngine} (moves : Moves (fun _ w => Below w) e e')
    (contained : Contained e) : Contained e' := by
  induction moves with
  | refl e => exact contained
  | trans _ _ first later => exact later (first contained)
  | core shape fabric dma cyc lanes marks readers writers =>
    exact contained.of_eq readers writers lanes (by rw [shape])
  | pops e id => exact contained.setReader (contained.readers id).pop
  | lands e id => exact contained.setReader (contained.readers id).landReads
  | landsAnew e id =>
    unfold AccelEngine.landsAnew
    extract_lets e1
    have landed : Contained e1 := contained.setReader (contained.readers id).landReads
    split
    · exact landed.setReader (landed.readers id).reset
    · exact landed
  | @pushes e id below => exact contained.setWriter ((contained.writers id).pushed below)
  | land7 e =>
    refine ⟨contained.readers,contained.writers,fun l lane => ?_⟩
    obtain ⟨pend,inFlight,issued⟩ := contained.dtBC l lane
    exact ⟨by simp [AccelEngine.land7,lane],by simpa [AccelEngine.land7,lane] using inFlight,issued⟩
  | @taken7 e ready =>
    refine ⟨contained.readers,contained.writers,fun l lane => ?_⟩
    obtain ⟨pend,inFlight,issued⟩ := contained.dtBC l lane
    exact ⟨pend,inFlight,by simp only; omega⟩

/-! ### The commit pass -/

theorem contained_ite {c : Prop} [Decidable c] {x y : Readback} (yes : Contained x.engine)
    (no : Contained y.engine) : Contained (if c then x else y).engine := by
  split
  · exact yes
  · exact no

theorem contained_reader (g : List Bool) {x : Readback} (id : ReaderId) (contained : Contained x.engine) :
    Contained (commitReader g x id).engine :=
  contained.setReader ((contained.readers id).commit g _)

theorem contained_writer (g : List Bool) {x : Readback} (id : WriterId) (contained : Contained x.engine) :
    Contained (commitWriter g x id).engine :=
  contained.setWriter ((contained.writers id).commit g _)

theorem contained_dtBC (g : List Bool) {x : Readback} (contained : Contained x.engine) :
    Contained (commitDtBC g x).engine := by
  rw [commitDtBC,foldl_commitLane7]
  refine ⟨contained.readers,contained.writers,fun l lane => ?_⟩
  obtain ⟨pend,inFlight,issued⟩ := contained.dtBC l lane
  cases won : x.engine.flag g x.consulted.length .dtBC l with
  | false =>
    exact ⟨by simpa [grantAll7,won] using pend,by simpa [grantAll7,won] using inFlight,
      by simpa [grantAll7,won] using issued⟩
  | true =>
    have wanted : x.engine.wants7 l = true := (Bool.and_eq_true_iff.mp won).1
    have ahead : x.engine.su.issued l - x.engine.su.consumed7 < x.engine.shape.r7DataD :=
      of_decide_eq_true (Bool.and_eq_true_iff.mp wanted).2
    exact ⟨by simp [grantAll7,won,lane],by simp [grantAll7,won,lane]; omega,
      by simp [grantAll7,won,lane]; omega⟩

theorem contained_Z (g : List Bool) {x : Readback} (contained : Contained x.engine) :
    Contained (commitZ g x).engine :=
  contained_ite ((contained_writer g .w0 contained).of_eq rfl rfl rfl rfl) (contained_writer g .w0 contained)

theorem contained_Y (g : List Bool) {x : Readback} (contained : Contained x.engine) :
    Contained (commitY g x).engine :=
  contained_ite ((contained_writer g .w2 contained).of_eq rfl rfl rfl rfl) (contained_writer g .w2 contained)

theorem contained_readZ (g : List Bool) {x : Readback} (contained : Contained x.engine) :
    Contained (commitReadZ g x).engine :=
  contained_ite ((contained_reader g .r10 contained).of_eq rfl rfl rfl rfl)
    (contained_reader g .r10 contained)

theorem contained_readY (g : List Bool) {x : Readback} (contained : Contained x.engine) :
    Contained (commitReadY g x).engine :=
  contained_ite ((contained_reader g .r11 contained).of_eq rfl rfl rfl rfl)
    (contained_reader g .r11 contained)

theorem contained_commitsP1 (g : List Bool) {x : Readback} (contained : Contained x.engine) :
    Contained (commitsP1 g x).engine := by
  have c1 := contained_reader g .r1 (contained_reader g .r0 contained)
  have c2 := contained_ite (c := (commitReader g (commitReader g x .r0) .r1).engine.shape.w0p1En = true)
    (contained_writer g .w0 c1)
    (contained_ite (c := (commitReader g (commitReader g x .r0) .r1).engine.shape.w1En = true)
      (contained_writer g .w1 c1) c1)
  unfold commitsP1
  extract_lets x1 x2 x3 x4 x5 x6
  have c3 : Contained x3.engine :=
    contained_ite (contained_reader g .r4c (contained_reader g .r3c c2)) c2
  have c4 : Contained x4.engine := contained_reader g .r12 c3
  have c5 : Contained x5.engine := contained_ite (contained_reader g .r11 c4) c4
  have c6 : Contained x6.engine := contained_ite (contained_reader g .r13 c5) c5
  exact contained_writer g .w3 c6

theorem contained_commitsOs (g : List Bool) {x : Readback} (contained : Contained x.engine) :
    Contained (commitsOs g x).engine :=
  contained_writer g .w0 (contained_reader g .r1 (contained_reader g .r0 contained))

theorem contained_foldl {f : Readback → Nat → Readback}
    (kept : ∀ x p, Contained x.engine → Contained (f x p).engine) {x : Readback} (ps : List Nat)
    (contained : Contained x.engine) : Contained (ps.foldl f x).engine := by
  induction ps generalizing x with
  | nil => exact contained
  | cons p ps ih => exact ih (kept x p contained)

theorem contained_commitsSimd (g : List Bool) {x : Readback} (contained : Contained x.engine) :
    Contained (commitsSimd g x).engine :=
  contained_foldl (fun _ p kept => contained_ite (contained_writer g (.wr p) kept) kept) _
    (contained_foldl (fun _ p kept => contained_ite (contained_reader g (.rd p) kept) kept) _ contained)

theorem contained_commitsP2 (suc isc : Bool) (g : List Bool) {x : Readback}
    (contained : Contained x.engine) : Contained (commitsP2 suc isc g x).engine := by
  unfold commitsP2
  extract_lets x1 x2 x3 x4 x5 x6 x7 x8 x9
  have c1 : Contained x1.engine :=
    contained_ite (contained_Z g (contained_reader g .r1 (contained_reader g .r0 contained))) contained
  have c2 : Contained x2.engine := contained_dtBC g c1
  have c3 : Contained x3.engine := contained_ite (contained_readZ g c2) c2
  have c4 : Contained x4.engine := contained_Y g c3
  have c5 : Contained x5.engine := contained_reader g .r3sw (contained_reader g .r2sw c4)
  have c6 : Contained x6.engine :=
    contained_ite (contained_ite (contained_reader g .r5sw c5) c5) c4
  have c7 : Contained x7.engine := contained_reader g .r12 (contained_readY g c6)
  have c8 : Contained x8.engine :=
    contained_ite (contained_ite (contained_reader g .r13 c7) c7) c6
  have c9 : Contained x9.engine := contained_ite (contained_reader g .r13 c8) c8
  exact contained_ite (contained_writer g .w3 c9) c9

/-! ### A cycle -/

theorem Moves.writer_kept {k : WriterId} {e e' : AccelEngine} (moves : Moves (fun id _ => id ≠ k) e e') :
    e'.writers k = e.writers k := by
  induction moves with
  | refl e => rfl
  | trans _ _ first later => exact later.trans first
  | core shape fabric dma cyc lanes marks readers writers => rw [writers]
  | pops e id => rfl
  | lands e id => rfl
  | landsAnew e id =>
    unfold AccelEngine.landsAnew
    extract_lets e1
    split <;> rfl
  | @pushes e id other => simp [AccelEngine.pushes,AccelEngine.setWriter,Ne.symm other]
  | land7 e => rfl
  | taken7 ready => rfl

theorem contained_phase {e : AccelEngine} {requests : List Request} {commits : List Bool → Readback → Readback}
    (contained : Contained e) (kept : ∀ g x, Contained x.engine → Contained (commits g x).engine) :
    Contained (e.fabricPhase requests commits).1 := by
  rw [fabricPhase_eq]
  exact kept _ _ (contained.of_eq rfl rfl rfl rfl)

theorem Contained.sampled {e : AccelEngine} (contained : Contained e) : Contained e.sampleFifo :=
  (moves_sampleFifo e).contained contained

theorem contained_stepP1 {e : AccelEngine} (contained : Contained e) : Contained e.stepP1.1 := by
  unfold stepP1
  extract_lets e1 x
  have before : Contained e1 :=
    (moves_beforeP1 e.ticked fun _ _ below => below).contained (contained.of_eq rfl rfl rfl rfl)
  have after : Contained x.1 := contained_phase before fun g x => contained_commitsP1 g
  split
  · exact contained
  · split
    · exact contained.of_eq rfl rfl rfl rfl
    · split
      · exact before.of_eq rfl rfl rfl rfl
      · exact after.sampled

theorem contained_stepOs {e : AccelEngine} (contained : Contained e) : Contained e.stepOs.1 := by
  unfold stepOs
  extract_lets e1 e2 ended _ x
  have before : Contained e2 :=
    (moves_beforeOs e.ticked fun _ _ below => below).contained (contained.of_eq rfl rfl rfl rfl)
  have after : Contained x.1 := contained_phase before fun g x => contained_commitsOs g
  split
  · exact contained
  · split
    · exact contained.of_eq rfl rfl rfl rfl
    · split
      · refine Contained.sampled ?_
        exact before.of_eq rfl rfl rfl rfl
      · exact after.sampled

theorem contained_stepIs {e : AccelEngine} (contained : Contained e) : Contained e.stepIs.1 := by
  unfold stepIs
  extract_lets e1 ended _ x
  have before : Contained e1 :=
    (moves_beforeIs e.ticked fun _ _ below => below).contained (contained.of_eq rfl rfl rfl rfl)
  have after : Contained x.1 := contained_phase before fun g x => contained_writer g .w3
  split
  · exact contained
  · split
    · exact contained.of_eq rfl rfl rfl rfl
    · split
      · refine Contained.sampled ?_
        exact before.of_eq rfl rfl rfl rfl
      · exact after.sampled

theorem contained_stepSimd {e : AccelEngine} (contained : Contained e) : Contained e.stepSimd.1 := by
  unfold stepSimd
  extract_lets e1 e2
  have before : Contained e2 :=
    (moves_beforeSimd e.ticked fun _ _ below => below).contained (contained.of_eq rfl rfl rfl rfl)
  split
  · exact contained
  · split
    · exact contained.of_eq rfl rfl rfl rfl
    · split
      · exact before.of_eq rfl rfl rfl rfl
      · exact contained_phase before fun g x => contained_commitsSimd g

/-- The scan completes no word of y at a full W2, and the state carry pushes nothing at a full W3. -/
structure Roomy (e : AccelEngine) : Prop where
  word : e.scanTurn.scanFires e.landP2.sucRel = true → e.scanTurn.su.yInWord + 1 = 8 →
    Below (e.writers .w2)
  state : (e.scanTurn.scanStep e.landP2.sucRel).savesState = true → Below (e.writers .w3)

theorem Roomy.moves {e : AccelEngine} (roomy : Roomy e) : Moves (fun _ w => Below w) e e.beforeP2 := by
  refine moves_beforeP2 e (fun _ _ below => below) (fun fires whole => ?_) fun saves => ?_
  · have kept : e.scanTurn.writers .w2 = e.writers .w2 :=
      (moves_scanTurn e fun _ _ => by decide).writer_kept
    rw [kept]
    exact roomy.word fires whole
  · have first : Moves (fun id _ => id ≠ .w3) e e.scanTurn := moves_scanTurn e fun _ _ => by decide
    have kept := (first.trans (moves_scanStep _ e.landP2.sucRel fun _ _ => by decide)).writer_kept
    rw [kept]
    exact roomy.state saves

theorem contained_stepP2 {e : AccelEngine} (contained : Contained e)
    (roomy : e.ctl.running = true → e.ctl.cyc < e.shape.cap → Roomy e.ticked) :
    Contained e.stepP2.1 := by
  unfold stepP2
  extract_lets e1 suc isc e2 x
  split
  · exact contained
  · rename_i going
    split
    · exact contained.of_eq rfl rfl rfl rfl
    · rename_i early
      have before : Contained e2 :=
        (roomy (by simpa using going) (Nat.lt_of_not_le early)).moves.contained
          (contained.of_eq rfl rfl rfl rfl)
      have after : Contained x.1 := contained_phase before fun g x => contained_commitsP2 suc isc g
      split
      · exact before.of_eq rfl rfl rfl rfl
      · exact after.sampled

/-- A cycle of P2 has room where its cores do not look at the depth. -/
def RoomyCycle (e : AccelEngine) : Prop :=
  e.ctl.running = true → e.ctl.cyc < e.shape.cap → e.shape.kind = 1 → Roomy e.ticked

theorem contained_step {e : AccelEngine} (kinds : Kinds e) (contained : Contained e)
    (roomy : RoomyCycle e) : Contained e.step.1 := by
  unfold step
  split
  · exact contained_stepP1 contained
  · split
    · exact contained_stepOs contained
    · split
      · exact contained_stepIs contained
      · split
        · exact contained_stepSimd contained
        · refine contained_stepP2 contained fun going early => roomy going early ?_
          have := kinds.known going
          omega

/-! ### A configuration -/

theorem steady_reconfigure (r : CycReader) (a : Agu) {nch : Nat} (nsp : Nat) {fd : Int} (prt : Nat)
    (lanes : 0 < nch) (deep : 0 < fd) : Steady (r.reconfigure a nch nsp fd prt) :=
  steady_reset lanes (CycReader.reuse_positive a) ⟨deep.le,deep.le⟩

theorem within_reconfigure (a : Agu) (nch nsp prt : Nat) {depth : Int} (deep : 0 < depth) :
    Within (CycWriter.reconfigure a nch nsp prt depth) := ⟨Int.le_refl 0,deep.le⟩

/-- The streamers of the two kinds, without the lanes of the dt_BC reader. -/
def StreamersContained (e : AccelEngine) : Prop :=
  (∀ id, Steady (e.readers id)) ∧ ∀ id, Within (e.writers id)

theorem Programs.streamers {depth : Nat → Int} (deep : ∀ port, 0 < depth port) {scan : Bool}
    {e e' : AccelEngine} (programs : Programs depth scan e e') (contained : StreamersContained e) :
    StreamersContained e' := by
  induction programs with
  | refl e => exact contained
  | trans _ _ first later => exact later (first contained)
  | core kind lanes readers writers =>
    exact ⟨fun id => by rw [readers]; exact contained.1 id,fun id => by rw [writers]; exact contained.2 id⟩
  | @reader e id port nch tok some narrow =>
    refine ⟨fun other => ?_,contained.2⟩
    by_cases here : other = id
    · simp only [AccelEngine.configureReader,AccelEngine.setReader,here,↓reduceIte]
      exact steady_reconfigure _ _ 1 tok some (deep port)
    · simpa [AccelEngine.configureReader,AccelEngine.setReader,here] using contained.1 other
  | @writer e id port nch nsp tok narrow =>
    refine ⟨contained.1,fun other => ?_⟩
    by_cases here : other = id
    · simp only [AccelEngine.configureWriter,AccelEngine.setWriter,here,↓reduceIte]
      exact within_reconfigure _ nch nsp tok (deep port)
    · simpa [AccelEngine.configureWriter,AccelEngine.setWriter,here] using contained.2 other

theorem Programs.lanes {depth : Nat → Int} {e e' : AccelEngine} (programs : Programs depth false e e') :
    e'.lanes7 = e.lanes7 ∧ e'.shape.r7DataD = e.shape.r7DataD := by
  generalize none : false = scan at programs
  induction programs with
  | refl e => exact ⟨rfl,rfl⟩
  | trans _ _ first later => exact ⟨later.1.trans first.1,later.2.trans first.2⟩
  | core kind lanes readers writers => exact lanes.resolve_left fun scans => nomatch none.trans scans
  | reader e some narrow => exact ⟨rfl,rfl⟩
  | writer e narrow => exact ⟨rfl,rfl⟩

theorem contained_configure {depth : Nat → Int} (deep : ∀ port, 0 < depth port) {e : AccelEngine}
    (contained : Contained e) (a : Args) : Contained (configure depth e a) := by
  have decoded : Contained (e.decode a) := contained.of_eq rfl rfl rfl rfl
  have streamers {k : Nat} {e1 : AccelEngine} (starts : Starts k (e.decode a) e1) : StreamersContained e1 :=
    ⟨fun id => by rw [starts.readers]; exact decoded.readers id,
      fun id => by rw [starts.writers]; exact decoded.writers id⟩
  have other {k : Nat} {e' : AccelEngine}
      (made : ∃ e1, Starts k (e.decode a) e1 ∧ Programs depth false e1 e') : Contained e' := by
    obtain ⟨e1,starts,programs⟩ := made
    have kept := programs.streamers deep (streamers starts)
    have started : Contained e1 := decoded.of_eq starts.readers starts.writers starts.lanes.1 starts.lanes.2
    have lanes : ({ e1 with readers := e'.readers, writers := e'.writers } : AccelEngine).Contained :=
      ⟨kept.1,kept.2,fun l lane => ⟨(started.dtBC l lane).pend,(started.dtBC l lane).inFlight,
        (started.dtBC l lane).issued⟩⟩
    exact lanes.of_eq rfl rfl programs.lanes.1 programs.lanes.2
  unfold configure
  extract_lets e1
  split
  · exact other (programs_Simd depth _)
  · split
    · exact decoded
    · split
      · split
        · exact other (programs_P1 depth _)
        · split
          · exact other (programs_Os depth _)
          · split
            · exact other (programs_Is depth _)
            · exact decoded
      · obtain ⟨⟨e2,starts,programs⟩,_,r7,lanes⟩ := programs_P2 depth (e.decode a) a
        have kept := programs.streamers deep (streamers starts)
        simp only [lanes7,Prod.mk.injEq] at lanes
        obtain ⟨issued,landed,pend,taken⟩ := lanes
        refine ⟨kept.1,kept.2,fun l _ => ⟨?_,?_,?_⟩⟩
        · exact (congrFun pend l).ge
        · exact (congrArg₂ (· + ·) (congrFun landed l) (congrFun pend l)).trans_le (congrFun issued l).ge
        · exact ((congrArg₂ (· - ·) (congrFun issued l) taken).trans_le (deep 7).le).trans r7.ge

theorem steady_fresh : Steady CycReader.fresh where
  lanes := by decide
  cached := by decide
  sound := ⟨[],{ CycReader.sound_reset CycReader.fresh (by decide) (by decide) with }⟩

theorem contained_fresh : Contained fresh :=
  ⟨fun _ => steady_fresh,fun _ => ⟨Int.le_refl 0,(by decide : (0 : Int) ≤ 8)⟩,
    fun _ _ => ⟨Int.le_refl 0,Int.le_refl 0,(by decide : (0 : Int) - 0 ≤ 8)⟩⟩

theorem snaxStreamerDepth_pos (override : Option (List Int)) (port : Nat) :
    0 < snaxStreamerDepth override port := by
  have hjson : 0 < hjsonDepths.getD port 4 := by
    by_cases inside : port < 18
    · have all : ∀ q : Fin 18, 0 < hjsonDepths.getD q.val 4 := by decide
      exact all ⟨port,inside⟩
    · rw [List.getD_eq_getElem?_getD,List.getElem?_eq_none (Nat.le_of_not_lt inside)]
      decide
  unfold snaxStreamerDepth
  split
  · split
    · rename_i v _
      rw [List.getD_eq_getElem?_getD,List.getElem?_map]
      cases v[port]? with
      | none => decide
      | some x =>
        simp only [Option.map_some,Option.getD_some]
        split
        · assumption
        · decide
    · exact hjson
  · exact hjson

/-- What the FIFOs show is within their depths. -/
structure Bounded (e : AccelEngine) : Prop where
  writers : ∀ id, 0 ≤ (e.writers id).fifoOcc ∧ (e.writers id).fifoOcc ≤ (e.writers id).cfg.depth
  readers : ∀ id, e.occ id ≤ (e.readers id).cfg.dataDepth ∧
    (e.readers id).visible ≤ (e.readers id).cfg.dataDepth
  dtBC : e.landed7 - e.su.consumed7 ≤ e.shape.r7DataD

theorem Contained.bounded {e : AccelEngine} (contained : Contained e) : Bounded e := by
  refine ⟨contained.writers,fun id => ?_,?_⟩
  · have steady := contained.readers id
    exact ⟨steady.occ,steady.cached.symm.trans_le steady.occ⟩
  · obtain ⟨pend,inFlight,issued⟩ := contained.dtBC 0 (by decide)
    have lowest : e.landed7 ≤ e.su.landed 0 :=
      ((min_le_left _ _).trans (min_le_left _ _)).trans (min_le_left _ _)
    omega

theorem contained_next {depth : Nat → Int} (deep : ∀ port, 0 < depth port) {e : AccelEngine}
    (kinds : Kinds e) (contained : Contained e) {c : Call} (roomy : c = .step → RoomyCycle e) :
    Contained (next depth e c) := by
  cases c with
  | configure a => exact contained_configure deep contained a
  | step => exact contained_step kinds contained (roomy rfl)
  | dmaEnqueue tcdmAddr bytes l3 atRel => exact contained.of_eq rfl rfl rfl rfl
  | releaseR10 => exact contained.of_eq rfl rfl rfl rfl
  | releaseR11 => exact contained.of_eq rfl rfl rfl rfl

instance (w : CycWriter) : Decidable (Below w) := inferInstanceAs (Decidable (_ < _))

instance (e : AccelEngine) : Decidable (Roomy e) :=
  decidable_of_iff ((e.scanTurn.scanFires e.landP2.sucRel = true → e.scanTurn.su.yInWord + 1 = 8 →
    Below (e.writers .w2)) ∧
    ((e.scanTurn.scanStep e.landP2.sucRel).savesState = true → Below (e.writers .w3)))
    ⟨fun both => ⟨both.1,both.2⟩,fun roomy => ⟨roomy.word,roomy.state⟩⟩

instance (e : AccelEngine) : Decidable (RoomyCycle e) := by
  unfold RoomyCycle
  infer_instance

end AccelEngine

open AccelEngine in
/-- The FIFOs of all kinds stay within their depths over every run in which the scan and the state
carry of P2 push nothing at a full writer. -/
theorem fifos_bounded (override : Option (List Int)) (calls : List Call)
    (roomy : (accelEngine (snaxStreamerDepth override)).Each (fun _ e c => c = .step → RoomyCycle e)
      fresh calls) : Bounded ((accelEngine (snaxStreamerDepth override)).exec fresh calls) := by
  refine Contained.bounded ?_
  induction calls using List.reverseRecOn with
  | nil => exact contained_fresh
  | append_singleton front c ih =>
    have kinds := (reachable_kept (snaxStreamerDepth override) front).2
    rw [Sync.Machine.exec_append]
    exact contained_next (snaxStreamerDepth_pos override) kinds (ih roomy.front) roomy.last

namespace AccelEngine

/-- Each output of the scan saves a group of state, whose four lanes share a bank. -/
def statePorts (p : Nat) : Port :=
  if p = 7 then ⟨⟨0x10000000,inFirst 8 16,inFirst 1 1,inFirst 0 0,0⟩,2,true⟩
  else if p = 10 then wordPort 0x10000040 48 256 true
  else if p = 16 then wordPort 0x10000050 48 256 true
  else if p = 17 then ⟨⟨0x100000a0,inFirst 256 512,inFirst 384 1,inFirst 1024 0,0⟩,2,true⟩
  else wordPort 0x10000000 1 8 false

def stateSave : Args where
  ports := statePorts
  cfg := ⟨0x100001,16,4,1,24,1⟩
  r10StartCnt := 0
  r11StartCnt := 0
  swCyc := 0
  recFires := false
  recFifo := false

end AccelEngine

open AccelEngine

/-- Nine cycles fill the FIFO of W3. -/
theorem fifos_bounded_until_full : Bounded ((accelEngine (snaxStreamerDepth none)).exec fresh
    (.configure stateSave :: List.replicate 9 .step)) :=
  fifos_bounded none (.configure stateSave :: List.replicate 9 .step) (by decide +kernel)

/-- In the tenth cycle the state carry pushes a fifth group into the four places of W3. -/
theorem fifos_overflow : ¬ ∀ (override : Option (List Int)) (calls : List Call),
    Bounded ((accelEngine (snaxStreamerDepth override)).exec fresh calls) := by
  intro all
  have bounded := (all none (.configure stateSave :: List.replicate 10 .step)).writers .w3
  exact absurd bounded.2 (by decide +kernel)

end Snax
