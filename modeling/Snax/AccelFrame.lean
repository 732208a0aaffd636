import Snax.AccelSteps

/-! The moves of a cycle before its requests are posted: the streamer objects are landed, popped and
pushed, and the cores count. What the moves leave alone are the counts of the lanes, the fabric and
the configuration. -/
namespace Snax.AccelEngine

/-- The marks on the words of z and y, and the counts of stale reads. -/
def marks (e : AccelEngine) : (Int → Bool) × (Int → Bool) × Nat × Nat :=
  (e.os.zwr,e.su.ywr,e.res.staleZ,e.res.staleY)

/-- The lanes of the dt_BC reader, and the groups that the scan has taken from them. -/
def lanes7 (e : AccelEngine) : (Nat → Int) × (Nat → Int) × (Nat → Int) × Int :=
  (e.su.issued,e.su.landed,e.su.pend,e.su.consumed7)

/-- `e'` comes from `e` by moves of the streamer objects and by counting; a writer is pushed where
it meets `room`. -/
inductive Moves (room : WriterId → CycWriter → Prop) : AccelEngine → AccelEngine → Prop
  | refl (e : AccelEngine) : Moves room e e
  | trans {e e' e'' : AccelEngine} (first : Moves room e e') (later : Moves room e' e'') : Moves room e e''
  | core {e e' : AccelEngine} (shape : e'.shape = e.shape) (fabric : e'.fabric = e.fabric)
      (dma : e'.dma = e.dma) (cyc : e'.ctl.cyc = e.ctl.cyc) (lanes : e'.lanes7 = e.lanes7)
      (marks : e'.marks = e.marks) (readers : e'.readers = e.readers)
      (writers : e'.writers = e.writers) : Moves room e e'
  | pops (e : AccelEngine) (id : ReaderId) : Moves room e (e.pops id)
  | lands (e : AccelEngine) (id : ReaderId) : Moves room e (e.lands id)
  | landsAnew (e : AccelEngine) (id : ReaderId) : Moves room e (e.landsAnew id)
  | pushes (e : AccelEngine) {id : WriterId} (free : room id (e.writers id)) :
      Moves room e (e.pushes id)
  | land7 (e : AccelEngine) : Moves room e e.land7
  | taken7 {e : AccelEngine} (ready : 4 ≤ e.landed7 - e.su.consumed7) :
      Moves room e { e with su := { e.su with consumed7 := e.su.consumed7 + 4, haveBc := true } }

/-- The guard of a push that the cores make. -/
def Below (w : CycWriter) : Prop := w.fifoOcc < w.cfg.depth

section Phases

variable {room : WriterId → CycWriter → Prop}

theorem moves_ite {c : Prop} [Decidable c] {e a b : AccelEngine} (yes : c → Moves room e a)
    (no : Moves room e b) : Moves room e (if c then a else b) := by
  split
  · rename_i holds
    exact yes holds
  · exact no

theorem below_of_hasRoom {e : AccelEngine} {id : WriterId} (space : e.hasRoom id = true) :
    Below (e.writers id) :=
  (of_decide_eq_true space : (e.writers id).fifoOcc < (e.writers id).cfg.depth)

theorem moves_landP1 (e : AccelEngine) : Moves room e e.landP1 := by
  unfold landP1
  extract_lets e1 e2 e3 e4
  have arrays : Moves room e e1 := .trans (.landsAnew e .r0) (.landsAnew _ .r1)
  have switched : Moves room e1 e2 :=
    moves_ite (fun _ => .trans (.landsAnew e1 .r3c) (.landsAnew _ .r4c)) (.refl e1)
  have weights : Moves room e2 e3 := .landsAnew e2 .r12
  have inputs : Moves room e3 e4 := moves_ite (fun _ => .landsAnew e3 .r11) (.refl e3)
  exact (((arrays.trans switched).trans weights).trans inputs).trans
    (moves_ite (fun _ => .landsAnew e4 .r13) (.refl e4))

theorem moves_landP2 (e : AccelEngine) : Moves room e e.landP2 := by
  unfold landP2
  extract_lets e1 e2 e3 e4 e5 e6
  have arrays : Moves room e e1 :=
    moves_ite (fun _ => .trans (.landsAnew e .r0) (.landsAnew _ .r1)) (.refl e)
  have scan : Moves room e1 e2 := .trans (.land7 e1) (.lands _ .r10)
  have switched : Moves room e2 e4 := moves_ite (fun _ => .trans
    (.trans (.landsAnew e2 .r2sw) (.landsAnew _ .r3sw))
    (moves_ite (fun _ => .landsAnew e3 .r5sw) (.refl e3))) (.refl e2)
  have inputs : Moves room e4 e6 := moves_ite (fun _ => .trans
    (.trans (.landsAnew e4 .r11) (.landsAnew _ .r12))
    (moves_ite (fun _ => .lands e5 .r13) (.refl e5))) (.refl e4)
  exact (((arrays.trans scan).trans switched).trans inputs).trans
    (moves_ite (fun _ => .lands e6 .r13) (.refl e6))

/-! ### The arrays -/

theorem moves_osTile (e : AccelEngine) : Moves room e e.osTile := by
  refine .core rfl rfl rfl rfl rfl ?_ rfl rfl
  simp only [marks,osTile]
  cases e.shape.recFires <;> rfl

theorem moves_osTileP1 (e : AccelEngine) : Moves room e e.osTileP1 :=
  .core rfl rfl rfl rfl rfl rfl rfl rfl

theorem moves_osArray (e : AccelEngine) (held : Bool) {tile : AccelEngine → AccelEngine}
    (kept : ∀ e, Moves room e (tile e)) : Moves room e (e.osArray held tile) := by
  unfold osArray
  extract_lets e1 _ e2
  have popped : Moves room e e1 := .trans (.pops e .r0) (.pops _ .r1)
  have stepped : Moves room e1 e2 := .core rfl rfl rfl rfl rfl rfl rfl rfl
  exact moves_ite (fun _ => (popped.trans stepped).trans (moves_ite (fun _ => kept e2) (.refl e2)))
    (.refl e)

theorem moves_isArray (e : AccelEngine) : Moves room e e.isArray :=
  moves_ite (fun _ => .core rfl rfl rfl rfl rfl rfl rfl rfl) (.core rfl rfl rfl rfl rfl rfl rfl rfl)

theorem moves_isCoreAlone (e : AccelEngine) : Moves room e e.isCoreAlone :=
  moves_ite (fun _ => moves_isArray e) (.refl e)

theorem moves_convolve (e : AccelEngine) : Moves room e e.convolve := by
  unfold convolve
  extract_lets e1 e2
  have popped : Moves room e1 e2 := moves_ite (fun _ => .pops e1 .r4c) (.refl e1)
  have taken : Moves room e e2 := .trans (.pops e .r3c) popped
  exact moves_ite (fun _ => moves_ite (fun _ => taken.trans (.core rfl rfl rfl rfl rfl rfl rfl rfl))
    (.refl e)) (.core rfl rfl rfl rfl rfl rfl rfl rfl)

theorem moves_isCoreP1 (e : AccelEngine) : Moves room e e.isCoreP1 := by
  unfold isCoreP1
  extract_lets e1 e2 e3
  have first : Moves room e e1 := .pops e .r12
  have second : Moves room e1 e2 := moves_ite (fun _ => .pops e1 .r11) (.refl e1)
  have third : Moves room e2 e3 := moves_ite (fun _ => .pops e2 .r13) (.refl e2)
  exact moves_ite (fun _ => ((first.trans second).trans third).trans (moves_isArray e3)) (.refl e)

theorem moves_isCoreP2 (e : AccelEngine) (released : Bool) : Moves room e (e.isCoreP2 released) := by
  unfold isCoreP2
  extract_lets _ e1 e2 e3 _
  have popped : Moves room e e1 := .trans (.pops e .r11) (.pops _ .r12)
  have sums : Moves room e1 e2 := moves_ite (fun _ => .pops e1 .r13) (.refl e1)
  have stepped : Moves room e e3 := (popped.trans sums).trans (moves_isArray e2)
  exact moves_ite (fun _ => moves_ite (fun _ => .core rfl rfl rfl rfl rfl rfl rfl rfl)
    (moves_ite (fun _ => stepped.trans (moves_ite (fun _ => .core rfl rfl rfl rfl rfl rfl rfl rfl)
      (.core rfl rfl rfl rfl rfl rfl rfl rfl))) (.refl e))) (.refl e)

theorem moves_osDrip (e : AccelEngine) (w : WriterId)
    (free : Below (e.writers w) → room w (e.writers w)) : Moves room e (e.osDrip w) := by
  refine moves_ite (fun owed => ?_) (.refl e)
  exact .trans (.pushes e (free (below_of_hasRoom (Bool.and_eq_true_iff.mp owed).2)))
    (.core rfl rfl rfl rfl rfl rfl rfl rfl)

theorem moves_isDrip (e : AccelEngine) (free : Below (e.writers .w3) → room .w3 (e.writers .w3)) :
    Moves room e e.isDrip := by
  refine moves_ite (fun owed => ?_) (.refl e)
  exact .trans (.pushes e (free (below_of_hasRoom (Bool.and_eq_true_iff.mp owed).2)))
    (.core rfl rfl rfl rfl rfl rfl rfl rfl)

theorem moves_coresP1 (e : AccelEngine) (free : ∀ id w, Below w → room id w) :
    Moves room e e.coresP1 := by
  unfold coresP1
  extract_lets e1
  have dripped : Moves room e e1 := by
    unfold e1
    split
    · exact moves_osDrip e _ (free _ _)
    · exact .refl e
  exact (((dripped.trans (moves_osArray _ _ moves_osTileP1)).trans (moves_convolve _)).trans
    (moves_isDrip _ (free _ _))).trans (moves_isCoreP1 _)

/-! ### SIMD -/

theorem moves_foldl {f : AccelEngine → Nat → AccelEngine} (kept : ∀ e p, Moves room e (f e p))
    (e : AccelEngine) (ps : List Nat) : Moves room e (ps.foldl f e) := by
  induction ps generalizing e with
  | nil => exact .refl e
  | cons p ps ih => exact (kept e p).trans (ih _)

theorem moves_simdConsume (e : AccelEngine) (p : Nat) : Moves room e (e.simdConsume p) := by
  unfold simdConsume
  extract_lets e1
  have landed : Moves room e e1 := .lands e (.rd p)
  exact moves_ite (fun _ => landed.trans (moves_ite (fun _ => .trans (.pops e1 (.rd p))
    (.core rfl rfl rfl rfl rfl rfl rfl rfl)) (.refl e1))) (.refl e)

theorem moves_simdProduce (free : ∀ id w, Below w → room id w) (e : AccelEngine) (p : Nat) :
    Moves room e (e.simdProduce p) :=
  moves_ite (fun more => .pushes e (free _ _ (below_of_hasRoom (Bool.and_eq_true_iff.mp more).2))) (.refl e)

/-! ### The scan -/

theorem moves_refresh7 (e : AccelEngine) : Moves room e e.refresh7 := by
  unfold refresh7
  extract_lets _ e1 _
  have ahead : Moves room e e1 :=
    moves_ite (fun _ => .core rfl rfl rfl rfl rfl rfl rfl rfl) (.refl e)
  exact ahead.trans (moves_ite (fun ready => .taken7 ready.2.2) (.refl e1))

theorem moves_switchStep (e : AccelEngine) : Moves room e e.switchStep := by
  unfold switchStep
  extract_lets needRead _ e1
  have popped : Moves room e e1 :=
    moves_ite (fun _ => .trans (.pops e .r2sw) (.pops _ .r3sw)) (.refl e)
  exact moves_ite (fun _ => moves_ite (fun _ => moves_ite
    (fun _ => .core rfl rfl rfl rfl rfl rfl rfl rfl)
    (popped.trans (.core rfl rfl rfl rfl rfl rfl rfl rfl))) (.refl e)) (.refl e)

/-- The scan makes an output in this step. -/
def scanFires (e : AccelEngine) (released : Bool) : Bool :=
  released && e.su.outSu < e.shape.iters && e.su.haveBc && 0 < e.occ .r10 &&
    (!e.shape.swEn || e.su.outSu < e.sw.swDt)

theorem moves_scanStep (e : AccelEngine) (released : Bool)
    (open2 : e.scanFires released = true → e.su.yInWord + 1 = 8 → room .w2 (e.writers .w2)) :
    Moves room e (e.scanStep released) := by
  unfold scanStep
  extract_lets _ _ _ e1 _ _ e2 e3 _
  have counted : Moves room e e1 := by
    refine .core rfl rfl rfl rfl rfl ?_ rfl rfl
    simp only [marks,e1]
    cases e.shape.recFires <;> rfl
  refine moves_ite (fun fires => ?_) (.refl e)
  have pushed : Moves room e1 e2 := moves_ite
    (fun whole => .trans (.pushes e1 (open2 fires whole)) (.core rfl rfl rfl rfl rfl rfl rfl rfl))
    (.refl e1)
  have popped : Moves room e2 e3 := moves_ite (fun _ => .pops e2 .r10) (.refl e2)
  exact ((counted.trans pushed).trans popped).trans (.core rfl rfl rfl rfl rfl rfl rfl rfl)

/-- The state carry has a group to push in this step. -/
def savesState (e : AccelEngine) : Bool :=
  e.shape.sucStateSv && e.su.w3Push < e.shape.w3stTot && 0 < e.shape.iters &&
    (e.su.w3Push + 1) * e.shape.iters ≤ e.su.outSu * e.shape.w3stTot

theorem moves_stateCarry (e : AccelEngine) (open3 : e.savesState = true → room .w3 (e.writers .w3)) :
    Moves room e e.stateCarry := by
  unfold stateCarry
  extract_lets _ _ e1 _ _
  have loaded : Moves room e e1 := moves_ite
    (fun _ => .trans (.pops e .r13) (.core rfl rfl rfl rfl rfl rfl rfl rfl)) (.refl e)
  have same : e1.savesState = e.savesState ∧ e1.writers = e.writers := by
    unfold e1
    split <;> exact ⟨rfl,rfl⟩
  refine loaded.trans (moves_ite (fun saves => ?_) (.refl e1))
  have free : room .w3 (e1.writers .w3) := by
    rw [same.2]
    exact open3 (same.1.symm.trans saves)
  exact .trans (.pushes e1 free) (.core rfl rfl rfl rfl rfl rfl rfl rfl)

/-! ### The first part of a cycle -/

theorem moves_sampleFifo (e : AccelEngine) : Moves room e e.sampleFifo :=
  moves_ite (fun _ => .core rfl rfl rfl rfl rfl rfl rfl rfl) (.refl e)

theorem moves_beforeP1 (e : AccelEngine) (free : ∀ id w, Below w → room id w) :
    Moves room e e.landP1.coresP1 := (moves_landP1 e).trans (moves_coresP1 _ free)

theorem moves_beforeOs (e : AccelEngine) (free : ∀ id w, Below w → room id w) :
    Moves room e ((((e.landsAnew .r0).landsAnew .r1).osDrip .w0).osArray true osTile) :=
  ((Moves.landsAnew e .r0).trans (.landsAnew _ .r1)).trans
    ((moves_osDrip _ .w0 (free _ _)).trans (moves_osArray _ _ moves_osTile))

theorem moves_beforeIs (e : AccelEngine) (free : ∀ id w, Below w → room id w) :
    Moves room e e.isDrip.isCoreAlone := (moves_isDrip e (free _ _)).trans (moves_isCoreAlone _)

theorem moves_beforeSimd (e : AccelEngine) (free : ∀ id w, Below w → room id w) :
    Moves room e ((List.range 4).foldl simdProduce ((List.range 14).foldl simdConsume e)).sampleFifo :=
  ((moves_foldl moves_simdConsume _ _).trans (moves_foldl (moves_simdProduce free) _ _)).trans
    (moves_sampleFifo _)

theorem moves_marksStart (e : AccelEngine) (suc isc : Bool) : Moves room e (e.marksStart suc isc) :=
  .core rfl rfl rfl rfl rfl rfl rfl rfl

theorem moves_marksEnd (e : AccelEngine) : Moves room e e.marksEnd := .core rfl rfl rfl rfl rfl rfl rfl rfl

/-- The engine when the scan has its turn, in the cycle of P2 that `e` starts. -/
def scanTurn (e : AccelEngine) : AccelEngine :=
  let e := (e.landP2.marksStart e.landP2.sucRel e.landP2.iscRel)
  (if e.shape.enOs then (e.osDrip .w0).osArray true osTile else e).refresh7.switchStep

theorem moves_scanTurn (e : AccelEngine) (free : ∀ w, Below w → room .w0 w) :
    Moves room e e.scanTurn := by
  unfold scanTurn
  extract_lets e1
  have started : Moves room e e1 := (moves_landP2 e).trans (moves_marksStart _ _ _)
  have array : Moves room e1 (if e1.shape.enOs then (e1.osDrip .w0).osArray true osTile else e1) :=
    moves_ite (fun _ => (moves_osDrip e1 .w0 (free _)).trans (moves_osArray _ _ moves_osTile)) (.refl e1)
  exact ((started.trans array).trans (moves_refresh7 _)).trans (moves_switchStep _)

/-- What P2 does before its requests. -/
def beforeP2 (e : AccelEngine) : AccelEngine :=
  ((e.landP2.marksStart e.landP2.sucRel e.landP2.iscRel).coresP2 e.landP2.sucRel e.landP2.iscRel).marksEnd

theorem moves_beforeP2 (e : AccelEngine) (free : ∀ id w, Below w → room id w)
    (open2 : e.scanTurn.scanFires e.landP2.sucRel = true → e.scanTurn.su.yInWord + 1 = 8 →
      room .w2 (e.scanTurn.writers .w2))
    (open3 : (e.scanTurn.scanStep e.landP2.sucRel).savesState = true →
      room .w3 ((e.scanTurn.scanStep e.landP2.sucRel).writers .w3)) : Moves room e e.beforeP2 :=
  ((((moves_scanTurn e (free _)).trans (moves_scanStep _ _ open2)).trans (moves_stateCarry _ open3)).trans
    ((moves_isDrip _ (free _ _)).trans (moves_isCoreP2 _ _))).trans (moves_marksEnd _)

end Phases

/-! ### What the moves leave alone -/

/-- What the first part of a cycle leaves of a reader. -/
structure KeptReader (r r' : CycReader) : Prop where
  done : r'.done = false
  cfg : r'.cfg = r.cfg
  laneIssued : r'.laneIssued = r.laneIssued
  ti : r'.ti = r.ti
  pendingPush : r'.pendingPush = r.pendingPush

structure KeptWriter (w w' : CycWriter) : Prop where
  cfg : w'.cfg = w.cfg
  written : w'.written = w.written
  laneDone : w'.laneDone = w.laneDone
  ti : w'.ti = w.ti

/-- What the first part of a cycle leaves as it is: the counts of the lanes and the fabric. -/
structure Still (e e' : AccelEngine) : Prop where
  shape : e'.shape = e.shape
  fabric : e'.fabric = e.fabric
  dma : e'.dma = e.dma
  cyc : e'.ctl.cyc = e.ctl.cyc
  issued : e'.su.issued = e.su.issued
  marks : e'.marks = e.marks
  readers : ∀ id, (e.readers id).done = false → KeptReader (e.readers id) (e'.readers id)
  writers : ∀ id, KeptWriter (e.writers id) (e'.writers id)

theorem KeptReader.refl {r : CycReader} (going : r.done = false) : KeptReader r r :=
  ⟨going,rfl,rfl,rfl,rfl⟩

theorem KeptReader.trans {r r' r'' : CycReader} (first : KeptReader r r') (later : KeptReader r' r'') :
    KeptReader r r'' :=
  ⟨later.done,later.cfg.trans first.cfg,later.laneIssued.trans first.laneIssued,later.ti.trans first.ti,
    later.pendingPush.trans first.pendingPush⟩

theorem KeptWriter.refl (w : CycWriter) : KeptWriter w w := ⟨rfl,rfl,rfl,rfl⟩

theorem KeptWriter.trans {w w' w'' : CycWriter} (first : KeptWriter w w') (later : KeptWriter w' w'') :
    KeptWriter w w'' :=
  ⟨later.cfg.trans first.cfg,later.written.trans first.written,later.laneDone.trans first.laneDone,
    later.ti.trans first.ti⟩

theorem still_refl (e : AccelEngine) : Still e e :=
  ⟨rfl,rfl,rfl,rfl,rfl,rfl,fun _ going => .refl going,fun _ => .refl _⟩

theorem Still.trans {e e' e'' : AccelEngine} (first : Still e e') (later : Still e' e'') : Still e e'' where
  shape := later.shape.trans first.shape
  fabric := later.fabric.trans first.fabric
  dma := later.dma.trans first.dma
  cyc := later.cyc.trans first.cyc
  issued := later.issued.trans first.issued
  marks := later.marks.trans first.marks
  readers id going := (first.readers id going).trans (later.readers id (first.readers id going).done)
  writers id := (first.writers id).trans (later.writers id)

theorem still_setReader {e : AccelEngine} {id : ReaderId} {r : CycReader}
    (kept : (e.readers id).done = false → KeptReader (e.readers id) r) : Still e (e.setReader id r) := by
  refine ⟨rfl,rfl,rfl,rfl,rfl,rfl,fun other going => ?_,fun other => .refl _⟩
  by_cases here : other = id
  · subst here
    simpa [setReader] using kept going
  · simpa [setReader,here] using KeptReader.refl going

theorem Moves.still {room : WriterId → CycWriter → Prop} {e e' : AccelEngine} (moves : Moves room e e') :
    Still e e' := by
  induction moves with
  | refl e => exact still_refl e
  | trans _ _ first later => exact first.trans later
  | core shape fabric dma cyc lanes marks readers writers =>
    refine ⟨shape,fabric,dma,cyc,congrArg Prod.fst lanes,marks,fun id going => ?_,fun id => ?_⟩
    · rw [readers]
      exact .refl going
    · rw [writers]
      exact .refl _
  | pops e id =>
    refine still_setReader fun going => ?_
    rw [CycReader.pop]
    split
    · exact ⟨going,rfl,rfl,rfl,rfl⟩
    · split
      · exact ⟨going,rfl,rfl,rfl,rfl⟩
      · exact .refl going
  | lands e id => exact still_setReader fun going => ⟨going,rfl,rfl,rfl,rfl⟩
  | landsAnew e id =>
    unfold AccelEngine.landsAnew
    extract_lets e1
    have landed : Still e e1 := still_setReader fun going => ⟨going,rfl,rfl,rfl,rfl⟩
    refine landed.trans ?_
    split
    · rename_i ended
      exact still_setReader fun going => absurd (going.symm.trans ended) Bool.false_ne_true
    · exact still_refl _
  | @pushes e id _ =>
    refine ⟨rfl,rfl,rfl,rfl,rfl,rfl,fun other going => .refl going,fun other => ?_⟩
    by_cases here : other = id
    · subst here
      simp only [AccelEngine.pushes,setWriter,↓reduceIte]
      exact ⟨rfl,rfl,rfl,rfl⟩
    · simpa [AccelEngine.pushes,setWriter,here] using KeptWriter.refl _
  | land7 e => exact ⟨rfl,rfl,rfl,rfl,rfl,rfl,fun _ going => .refl going,fun _ => .refl _⟩
  | taken7 _ => exact ⟨rfl,rfl,rfl,rfl,rfl,rfl,fun _ going => .refl going,fun _ => .refl _⟩

end Snax.AccelEngine
