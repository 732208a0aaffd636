import Snax.StaleReads

/-! Engines that an invocation of one kind cannot tell apart. They agree on the members that the
kind reads; the streamers of other kinds and their settings are left from before. -/
namespace Snax

/-- Readers that differ in the position of the last grant alone. Where it is `watched`, both name
one word. -/
structure CycReader.Alike (watched : Prop) (r r' : CycReader) : Prop where
  rest : r' = { r with ti := r'.ti }
  word : watched → AccelEngine.wordOff r.cfg.ts r'.ti = AccelEngine.wordOff r.cfg.ts r.ti

namespace CycReader

theorem pop_ti (r : CycReader) (ti : List Int) :
    ({ r with ti := ti } : CycReader).pop = ({ r.pop.1 with ti := ti },r.pop.2) := by
  simp only [pop]
  split_ifs <;> rfl

theorem pop_kept (r : CycReader) : r.pop.1.cfg = r.cfg ∧ r.pop.1.ti = r.ti := by
  simp only [pop]
  split_ifs <;> exact ⟨rfl,rfl⟩

theorem commit_cfg (r : CycReader) (g : List Bool) (gi : Nat) : (r.commit g gi).1.cfg = r.cfg := by
  rw [commit_eq]
  simp only
  split <;> rfl

/-- Only a grant of lane 0 sets the position. -/
theorem commit_ti (r : CycReader) (ti : List Int) (g : List Bool) (gi : Nat) :
    ({ r with ti := ti } : CycReader).commit g gi = ({ (r.commit g gi).1 with
      ti := if r.active && decide (0 < r.cfg.numChannel) && r.answer g gi 0 then (r.commit g gi).1.ti
        else ti },(r.commit g gi).2) := by
  have answer : ({ r with ti := ti } : CycReader).answer g gi = r.answer g gi := rfl
  rw [commit_eq,commit_eq,answer]
  refine Prod.ext ?_ rfl
  cases active : r.active with
  | false => simp [active]
  | true =>
    simp only [↓reduceIte,Bool.true_and,grantAll]
    cases decide (0 < r.cfg.numChannel) && r.answer g gi 0 <;> rfl

theorem commit_kept_ti (r : CycReader) (g : List Bool) (gi : Nat)
    (kept : (r.active && decide (0 < r.cfg.numChannel) && r.answer g gi 0) = false) :
    (r.commit g gi).1.ti = r.ti := by
  rw [commit_eq]
  cases active : r.active with
  | false => rfl
  | true =>
    rw [active,Bool.true_and] at kept
    simp only [↓reduceIte,grantAll,kept]
    rfl

namespace Alike

variable {watched : Prop} {r r' : CycReader}

theorem refl (r : CycReader) : Alike watched r r := ⟨rfl,fun _ => rfl⟩

theorem map (alike : Alike watched r r') (f : CycReader → CycReader)
    (moved : ∀ r ti, f { r with ti := ti } = { f r with ti := ti })
    (cfg : ∀ r, (f r).cfg = r.cfg) (ti : ∀ r, (f r).ti = r.ti) : Alike watched (f r) (f r') := by
  obtain ⟨rest,word⟩ := alike
  refine ⟨?_,fun watch => by rw [cfg,ti,ti]; exact word watch⟩
  rw [ti]
  conv_lhs => rw [rest]
  rw [moved]

theorem pop (alike : Alike watched r r') : Alike watched r.pop.1 r'.pop.1 :=
  alike.map (fun r => r.pop.1) (fun r ti => by rw [pop_ti]) (fun r => (pop_kept r).1)
    fun r => (pop_kept r).2

theorem landReads (alike : Alike watched r r') : Alike watched r.landReads r'.landReads :=
  alike.map CycReader.landReads (fun _ _ => rfl) (fun _ => rfl) fun _ => rfl

theorem reset (alike : Alike watched r r') : Alike watched r.reset r'.reset :=
  alike.map CycReader.reset (fun _ _ => rfl) (fun _ => rfl) fun _ => rfl

theorem fifoOcc (alike : Alike watched r r') : r'.fifoOcc = r.fifoOcc := by rw [alike.rest]

theorem done (alike : Alike watched r r') : r'.done = r.done := by rw [alike.rest]

theorem active (alike : Alike watched r r') : r'.active = r.active := by rw [alike.rest]

theorem pendingPush (alike : Alike watched r r') : r'.pendingPush = r.pendingPush := by rw [alike.rest]

theorem proposals (alike : Alike watched r r') : r'.proposals = r.proposals := by
  rw [alike.rest]
  rfl

theorem wordShown (alike : Alike watched r r') (watch : watched) :
    AccelEngine.wordShown r' = AccelEngine.wordShown r := by
  have cfg : r'.cfg = r.cfg := by rw [alike.rest]
  rw [AccelEngine.wordShown,AccelEngine.wordShown,cfg]
  exact alike.word watch

theorem commit (alike : Alike watched r r') (g : List Bool) (gi : Nat) :
    Alike watched (r.commit g gi).1 (r'.commit g gi).1 ∧ (r'.commit g gi).2 = (r.commit g gi).2 := by
  have made := commit_ti r r'.ti g gi
  rw [← alike.rest] at made
  rw [made]
  refine ⟨⟨rfl,fun watch => ?_⟩,rfl⟩
  rw [commit_cfg]
  simp only
  split
  · rfl
  · rename_i still
    rw [commit_kept_ti r g gi (Bool.eq_false_iff.mpr still)]
    exact alike.word watch

end Alike

/-- The reader has read as far ahead as it can, and nobody pops it. -/
structure Spent (r : CycReader) : Prop where
  going : r.done = false
  full : r.active = true → ∀ l < r.cfg.numChannel, r.cfg.dataDepth ≤ r.laneIssued l - r.consumed

theorem Spent.landReads {r : CycReader} (spent : Spent r) : Spent r.landReads := ⟨spent.going,spent.full⟩

theorem Spent.issues {r : CycReader} (spent : Spent r) (active : r.active = true) {l : Nat}
    (lane : l < r.cfg.numChannel) : issues r.cfg r.toState l = false := by
  have := spent.full active l lane
  rw [CycReader.issues,Bool.and_eq_false_iff]
  exact .inl (decide_eq_false (by omega))

theorem Spent.proposals {r : CycReader} (spent : Spent r) : r.proposals = [] := by
  rw [CycReader.proposals]
  split
  · rename_i active
    rw [List.map_eq_nil_iff,List.filter_eq_nil_iff]
    intro l inside
    rw [spent.issues active (List.mem_range.mp inside)]
    exact Bool.false_ne_true
  · rfl

theorem Spent.commit {r : CycReader} (spent : Spent r) (g : List Bool) (gi : Nat) :
    Spent (r.commit g gi).1 ∧ (r.commit g gi).2 = [] := by
  refine ⟨?_,by rw [commit_eq,spent.proposals]; rfl⟩
  rw [commit_eq]
  cases active : r.active with
  | false => exact ⟨spent.going,fun on => absurd (active.symm.trans on) Bool.false_ne_true⟩
  | true =>
    refine ⟨spent.going,fun _ l lane => ?_⟩
    have quiet : r.answer g gi l = false := by rw [answer,spent.issues active lane,Bool.false_and]
    simp only [↓reduceIte,grantAll,quiet,Bool.and_false,Bool.false_eq_true]
    exact spent.full active l lane

end CycReader

/-- DMA engines that differ in the transfer under way only where there is none. -/
structure DmaEngine.Alike (d d' : DmaEngine) : Prop where
  queue : d'.q = d.q ∧ d'.head = d.head ∧ d'.doneCnt = d.doneCnt
  periods : d'.beatPeriodL3 = d.beatPeriodL3 ∧ d'.beatPeriodTcdm = d.beatPeriodTcdm
  idle : d'.active = d.active
  transfer : d.active = true → d' = d

namespace DmaEngine.Alike

variable {d d' : DmaEngine}

theorem of_eq (same : d' = d) : Alike d d' := by
  subst same
  exact ⟨⟨rfl,rfl,rfl⟩,⟨rfl,rfl⟩,rfl,fun _ => rfl⟩

theorem enqueue (alike : Alike d d') (tcdmAddr bytes : BitVec 32) (l3 : Bool) (atRel : Nat) :
    Alike (d.enqueue tcdmAddr bytes l3 atRel) (d'.enqueue tcdmAddr bytes l3 atRel) := by
  obtain ⟨⟨queue,head,count⟩,⟨long,short⟩,idle,transfer⟩ := alike
  unfold DmaEngine.enqueue
  split
  · exact ⟨⟨queue,head,count⟩,⟨long,short⟩,idle,transfer⟩
  · rw [queue,long,short]
    exact ⟨⟨rfl,head,count⟩,⟨rfl,rfl⟩,idle,fun active => by rw [transfer active]⟩

/-- A launch sets all there is of a transfer. -/
theorem step (alike : Alike d d') (cyc : Nat) :
    Alike (d.step cyc).1 (d'.step cyc).1 ∧ (d'.step cyc).2 = (d.step cyc).2 := by
  cases active : d.active with
  | true =>
    rw [alike.transfer active]
    exact ⟨of_eq rfl,rfl⟩
  | false =>
    have ⟨queue,head,count⟩ := alike.queue
    have still : d'.active = false := alike.idle.trans active
    unfold DmaEngine.step
    rw [active,still,queue,head]
    simp only [Bool.false_eq_true,↓reduceIte]
    split
    · split
      · exact ⟨alike,rfl⟩
      · rename_i x _ _
        have launched : d'.launch x = d.launch x := by
          simp only [launch,queue,head,count,alike.periods]
        rw [launched]
        exact ⟨of_eq rfl,rfl⟩
    · exact ⟨alike,rfl⟩

end DmaEngine.Alike

namespace AccelEngine

/-! ### What a kind reads -/

/-- The kinds of invocation that `step` tells apart. -/
inductive Kind where
  | p2 | p1 | os | is | simd
  deriving DecidableEq

/-- What every `configure` sets. -/
def Shape.decoded (s : Shape) : Shape :=
  { Shape.fresh with
    ports := s.ports
    seqLen := s.seqLen
    dInner := s.dInner
    dModel := s.dModel
    dFinal := s.dFinal
    enOs := s.enOs
    enSuc := s.enSuc
    enIsc := s.enIsc
    swMode := s.swMode
    r10Cnt := s.r10Cnt
    r11Cnt := s.r11Cnt
    mI := s.mI
    osN := s.osN
    kind := s.kind
    cap := s.cap
    isSimd := s.isSimd
    recFires := s.recFires
    recFifo := s.recFifo }

namespace Kind

/-- `kind_`. -/
def code : Kind → Nat
  | p2 => 1
  | p1 => 2
  | os => 3
  | is => 4
  | simd => 5

/-- The settings that the kind reads. -/
def shape : Kind → Shape → Shape
  | p2, s =>
    { s with
      hasConv := false
      w0p1En := false
      w1En := false
      p1swEn := false
      r11p1En := false
      simdREn := fun _ => false
      simdRBeats := fun _ => 0
      simdWEn := fun _ => false }
  | p1, s =>
    { s with
      wz := 0
      wy := 0
      swCyc := 0
      swEn := false
      sucStateLd := false
      sucStateSv := false
      r13Tot := 0
      w3stTot := 0
      r7FifoD := 0
      r7DataD := 0
      serDesA := 0
      simdREn := fun _ => false
      simdRBeats := fun _ => 0
      simdWEn := fun _ => false }
  | os, s => { s.decoded with kOs := s.kOs, nTilesOs := s.nTilesOs, wbptOs := s.wbptOs, wz := s.wz }
  | is, s => { s.decoded with kIs := s.kIs, nTilesIs := s.nTilesIs, wbptIs := s.wbptIs }
  | simd, s => s.decoded

/-- Only P2 reads the latches. -/
def control : Kind → Control → Control
  | p2, c => c
  | _, c => { c with sucStarted := false, iscStarted := false, relR10 := false, relR11 := false }

/-- The members that the kind reads beside the settings, the streamers and the DMA. -/
def seen : Kind → AccelEngine → AccelEngine
  | p2, e =>
    { fresh with
      os := { e.os with oscElem := 0, swElem := 0 }
      su := e.su
      sw := e.sw
      isc := e.isc
      ctl := e.ctl
      fabric := e.fabric
      res := e.res }
  | p1, e =>
    { fresh with
      os := { e.os with zwr := fun _ => false }
      isc := { e.isc with iscAload := 0, iscSinceA := 0 }
      ctl := control p1 e.ctl
      fabric := e.fabric
      res := e.res }
  | os, e =>
    { fresh with
      os := { e.os with zwr := fun _ => false, oscElem := 0, swElem := 0 }
      ctl := control os e.ctl
      fabric := e.fabric
      res := e.res }
  | is, e =>
    { fresh with
      isc := { e.isc with iscAload := 0, iscSinceA := 0 }
      ctl := control is e.ctl
      fabric := e.fabric
      res := e.res }
  | simd, e => { fresh with ctl := control simd e.ctl, fabric := e.fabric, res := e.res }

/-- The readers that the kind configures. -/
def reads : Kind → Shape → ReaderId → Bool
  | p2, _, .r0 | p2, _, .r1 | p2, _, .r10 | p2, _, .r11 | p2, _, .r12 => true
  | p2, s, .r2sw | p2, s, .r3sw => s.swEn
  | p2, s, .r5sw => s.swEn && (s.ports 5).enabled
  | p2, s, .r13 => s.r13En || s.sucStateLd
  | p1, _, .r0 | p1, _, .r1 | p1, _, .r12 => true
  | p1, s, .r3c | p1, s, .r4c => s.p1swEn
  | p1, s, .r11 => s.r11p1En
  | p1, s, .r13 => s.r13En
  | os, _, .r0 | os, _, .r1 => true
  | simd, s, .rd p => decide (p < 14) && s.simdREn p
  | _, _, _ => false

/-- The readers whose position counts stale reads: of z where the osCore writes it, of y where the
isCore runs. -/
def watches : Kind → Shape → ReaderId → Bool
  | p2, s, .r10 => s.enOs
  | p2, s, .r11 => s.enIsc
  | _, _, _ => false

/-- The kinds with an osCore, and those with an isCore. -/
def runsOs (k : Kind) : Bool := k == p2 || k == p1 || k == os

def runsIs (k : Kind) : Bool := k == p2 || k == p1 || k == is

def writes : Kind → Shape → WriterId → Bool
  | p2, _, .w0 | p2, _, .w2 | p2, _, .w3 => true
  | p1, s, .w0 => s.w0p1En
  | p1, s, .w1 => s.w1En
  | p1, _, .w3 => true
  | os, _, .w0 => true
  | is, _, .w3 => true
  | simd, s, .wr p => decide (p < 4) && s.simdWEn p
  | _, _, _ => false

theorem seen_setReader (k : Kind) (e : AccelEngine) (id : ReaderId) (r : CycReader) :
    k.seen (e.setReader id r) = k.seen e := by cases k <;> rfl

theorem seen_setWriter (k : Kind) (e : AccelEngine) (id : WriterId) (w : CycWriter) :
    k.seen (e.setWriter id w) = k.seen e := by cases k <;> rfl

end Kind

/-- The SIMD members of a port below 14, and of a writer port. -/
structure SamePorts (e e' : AccelEngine) : Prop where
  reads : ∀ p < 14, e'.shape.simdREn p = e.shape.simdREn p
  beats : ∀ p < 14, e'.shape.simdRBeats p = e.shape.simdRBeats p
  pops : ∀ p < 14, e'.simdRPops p = e.simdRPops p
  writes : ∀ p < 4, e'.shape.simdWEn p = e.shape.simdWEn p

/-- An invocation of kind `k` under way cannot tell the engines apart. R5 may be left from an earlier
one where it is not configured, and z counts as written where no osCore writes it. -/
structure Alike (k : Kind) (e e' : AccelEngine) : Prop where
  kind : e.shape.kind = k.code
  shape : k.shape e.shape = k.shape e'.shape
  core : k.seen e = k.seen e'
  dma : e.dma.Alike e'.dma
  readers : ∀ id, k.reads e.shape id = true →
    (e.readers id).Alike (k.watches e.shape id = true) (e'.readers id)
  writers : ∀ id, k.writes e.shape id = true → e'.writers id = e.writers id
  ports : k = .simd → SamePorts e e'
  spare : k = .p2 → e.shape.swEn = true → (e.shape.ports 5).enabled = false →
    (e.readers .r5sw).Spent ∧ (e'.readers .r5sw).Spent
  loaded : k = .p2 → e.shape.enOs = false → ∀ w, e.os.zwr w = true

/-- `e₁` is `e` with other counters. -/
structure Beside (e e₁ : AccelEngine) : Prop where
  shape : e₁.shape = e.shape
  readers : e₁.readers = e.readers
  writers : e₁.writers = e.writers
  dma : e₁.dma = e.dma
  pops : e₁.simdRPops = e.simdRPops
  zwr : ∀ w, e.os.zwr w = true → e₁.os.zwr w = true

section Moves

variable {k : Kind} {e e' : AccelEngine}

theorem alike_ite {c c' : Prop} [Decidable c] [Decidable c'] {a a' b b' : AccelEngine} (same : c' ↔ c)
    (yes : c → Alike k a a') (no : ¬ c → Alike k b b') :
    Alike k (if c then a else b) (if c' then a' else b') := by
  by_cases holds : c
  · rw [if_pos holds,if_pos (same.mpr holds)]
    exact yes holds
  · rw [if_neg holds,if_neg fun other => holds (same.mp other)]
    exact no holds

namespace Alike

theorem same {α : Type} (alike : Alike k e e') (f : Shape → AccelEngine → α) :
    f (k.shape e'.shape) (k.seen e') = f (k.shape e.shape) (k.seen e) := by rw [alike.shape,alike.core]

/-- A move of the counters by what the kind reads of the settings. -/
theorem update (alike : Alike k e e') (f : Shape → AccelEngine → AccelEngine)
    (kept : ∀ s e, k.seen (f s (k.seen e)) = k.seen (f s e)) (beside : ∀ s e, Beside e (f s e)) :
    Alike k (f (k.shape e.shape) e) (f (k.shape e'.shape) e') := by
  rw [← alike.shape]
  generalize k.shape e.shape = s
  have core : k.seen (f s e) = k.seen (f s e') := by rw [← kept s e,alike.core,kept]
  obtain ⟨shape,readers,writers,dma,pops,zwr⟩ := beside s e
  obtain ⟨shape',readers',writers',dma',pops',_⟩ := beside s e'
  refine ⟨by rw [shape]; exact alike.kind,by rw [shape,shape']; exact alike.shape,core,
    by rw [dma,dma']; exact alike.dma,?_,?_,?_,?_,?_⟩
  · rw [shape,readers,readers']
    exact alike.readers
  · rw [shape,writers,writers']
    exact alike.writers
  · intro simd
    obtain ⟨reads,beats,popped,writes⟩ := alike.ports simd
    exact ⟨by rw [shape,shape']; exact reads,by rw [shape,shape']; exact beats,
      by rw [pops,pops']; exact popped,by rw [shape,shape']; exact writes⟩
  · rw [shape,readers,readers']
    exact alike.spare
  · rw [shape]
    exact fun p2 off w => zwr w (alike.loaded p2 off w)

theorem setReader (alike : Alike k e e') {id : ReaderId} {r r' : CycReader}
    (moved : k.reads e.shape id = true → r.Alike (k.watches e.shape id = true) r')
    (spare : id = .r5sw → r.Spent ∧ r'.Spent ∨ k.reads e.shape .r5sw = true) :
    Alike k (e.setReader id r) (e'.setReader id r') := by
  have core : k.seen (e.setReader id r) = k.seen (e'.setReader id r') := by
    rw [k.seen_setReader,k.seen_setReader,alike.core]
  refine ⟨alike.kind,alike.shape,core,alike.dma,fun other needed => ?_,alike.writers,
    fun simd => ⟨(alike.ports simd).reads,(alike.ports simd).beats,(alike.ports simd).pops,
      (alike.ports simd).writes⟩,fun p2 sw off => ?_,alike.loaded⟩
  · by_cases here : other = id
    · subst here
      simpa [AccelEngine.setReader] using moved needed
    · simpa [AccelEngine.setReader,here] using alike.readers other needed
  · by_cases here : id = .r5sw
    · subst here
      rcases spare rfl with spent | needed
      · simpa [AccelEngine.setReader] using spent
      · subst p2
        have on : (e.shape.swEn && (e.shape.ports 5).enabled) = true := needed
        exact absurd ((Bool.and_eq_true_iff.mp on).2.symm.trans off) Bool.true_eq_false.mp
    · simpa [AccelEngine.setReader,Ne.symm here] using alike.spare p2 sw off

theorem setWriter (alike : Alike k e e') {id : WriterId} {w w' : CycWriter}
    (moved : k.writes e.shape id = true → w' = w) : Alike k (e.setWriter id w) (e'.setWriter id w') := by
  have core : k.seen (e.setWriter id w) = k.seen (e'.setWriter id w') := by
    rw [k.seen_setWriter,k.seen_setWriter,alike.core]
  refine ⟨alike.kind,alike.shape,core,alike.dma,alike.readers,fun other needed => ?_,
    fun simd => ⟨(alike.ports simd).reads,(alike.ports simd).beats,(alike.ports simd).pops,
      (alike.ports simd).writes⟩,alike.spare,alike.loaded⟩
  by_cases here : other = id
  · subst here
    simpa [AccelEngine.setWriter] using moved needed
  · simpa [AccelEngine.setWriter,here] using alike.writers other needed

/-! ### The moves of the streamers -/

/-- The reader is one that the kind uses. -/
theorem used (alike : Alike k e e') (id : ReaderId) (needed : k.reads e.shape id = true)
    {r r' : CycReader} (moved : r.Alike (k.watches e.shape id = true) r') :
    Alike k (e.setReader id r) (e'.setReader id r') :=
  alike.setReader (fun _ => moved) fun five => .inr (five ▸ needed)

theorem pops (alike : Alike k e e') (id : ReaderId) (needed : k.reads e.shape id = true) :
    Alike k (e.pops id) (e'.pops id) := alike.used id needed (alike.readers id needed).pop

theorem lands (alike : Alike k e e') (id : ReaderId) (needed : k.reads e.shape id = true) :
    Alike k (e.lands id) (e'.lands id) := alike.used id needed (alike.readers id needed).landReads

theorem landsAnew (alike : Alike k e e') (id : ReaderId) (needed : k.reads e.shape id = true) :
    Alike k (e.landsAnew id) (e'.landsAnew id) := by
  have landed := alike.lands id needed
  have reader := landed.readers id needed
  exact alike_ite (by rw [reader.done]) (fun _ => landed.used id needed reader.reset) fun _ => landed

theorem pushes (alike : Alike k e e') (id : WriterId) (needed : k.writes e.shape id = true) :
    Alike k (e.pushes id) (e'.pushes id) :=
  alike.setWriter fun _ => by rw [alike.writers id needed]

theorem occ (alike : Alike k e e') (id : ReaderId) (needed : k.reads e.shape id = true) :
    e'.occ id = e.occ id := (alike.readers id needed).fifoOcc

theorem hasRoom (alike : Alike k e e') (id : WriterId) (needed : k.writes e.shape id = true) :
    e'.hasRoom id = e.hasRoom id := by rw [AccelEngine.hasRoom,AccelEngine.hasRoom,alike.writers id needed]

theorem drained (alike : Alike k e e') (id : WriterId) (needed : k.writes e.shape id = true) :
    e'.drained id = e.drained id := by rw [AccelEngine.drained,AccelEngine.drained,alike.writers id needed]

/-! ### The arrays -/

theorem osMembers (alike : Alike k e e') (runs : k.runsOs = true) :
    e'.os.asOs = e.os.asOs ∧ e'.os.tilesOs = e.os.tilesOs ∧ e'.os.osOwed = e.os.osOwed ∧
      e'.shape.kOs = e.shape.kOs ∧ e'.shape.nTilesOs = e.shape.nTilesOs := by
  cases k with
  | p2 | p1 | os => exact ⟨alike.same fun _ e => e.os.asOs,alike.same fun _ e => e.os.tilesOs,
      alike.same fun _ e => e.os.osOwed,alike.same fun s _ => s.kOs,alike.same fun s _ => s.nTilesOs⟩
  | is | simd => exact absurd runs (by decide)

theorem isMembers (alike : Alike k e e') (runs : k.runsIs = true) :
    e'.isc.asIs = e.isc.asIs ∧ e'.isc.tilesIs = e.isc.tilesIs ∧ e'.isc.isOwed = e.isc.isOwed ∧
      e'.shape.kIs = e.shape.kIs ∧ e'.shape.nTilesIs = e.shape.nTilesIs := by
  cases k with
  | p2 | p1 | is => exact ⟨alike.same fun _ e => e.isc.asIs,alike.same fun _ e => e.isc.tilesIs,
      alike.same fun _ e => e.isc.isOwed,alike.same fun s _ => s.kIs,alike.same fun s _ => s.nTilesIs⟩
  | os | simd => exact absurd runs (by decide)

theorem ticked (alike : Alike k e e') : Alike k e.ticked e'.ticked :=
  alike.update (fun _ => AccelEngine.ticked) (fun _ e => by cases k <;> rfl)
    fun _ _ => ⟨rfl,rfl,rfl,rfl,rfl,fun _ => id⟩

theorem capped (alike : Alike k e e') : Alike k e.capped e'.capped :=
  alike.update (fun _ => AccelEngine.capped) (fun _ e => by cases k <;> rfl)
    fun _ _ => ⟨rfl,rfl,rfl,rfl,rfl,fun _ => id⟩

theorem osDrip (alike : Alike k e e') (runs : k.runsOs = true) {w : WriterId}
    (needed : k.writes e.shape w = true) : Alike k (e.osDrip w) (e'.osDrip w) := by
  refine alike_ite (by rw [(alike.osMembers runs).2.2.1,alike.hasRoom _ needed]) (fun _ => ?_) fun _ => alike
  exact (alike.pushes _ needed).update (fun _ e => { e with os := { e.os with osOwed := e.os.osOwed - 1 } })
    (fun _ e => by cases k <;> rfl) fun _ _ => ⟨rfl,rfl,rfl,rfl,rfl,fun _ => id⟩

theorem isDrip (alike : Alike k e e') (runs : k.runsIs = true)
    (needed : k.writes e.shape .w3 = true) : Alike k e.isDrip e'.isDrip := by
  refine alike_ite (by rw [(alike.isMembers runs).2.2.1,alike.hasRoom _ needed]) (fun _ => ?_) fun _ => alike
  exact (alike.pushes _ needed).update (fun _ e => { e with isc := { e.isc with isOwed := e.isc.isOwed - 1 } })
    (fun _ e => by cases k <;> rfl) fun _ _ => ⟨rfl,rfl,rfl,rfl,rfl,fun _ => id⟩

theorem osTile (alike : Alike k e e') (runs : k.runsOs = true) : Alike k e.osTile e'.osTile := by
  cases k with
  | p2 | p1 | os =>
    exact alike.update (fun s e => { e with
        os := { e.os with tilesOs := e.os.tilesOs + 1, osOwed := e.os.osOwed + s.wbptOs }
        ctl := { e.ctl with gR10 := e.ctl.gR10 + 1 }
        res := if s.recFires then
            { e.res with r10Fire := e.res.r10Fire ++ [BitVec.ofNat 32 e.ctl.cyc] }
          else e.res })
      (fun _ _ => rfl) fun _ _ => ⟨rfl,rfl,rfl,rfl,rfl,fun _ => id⟩
  | is | simd => exact absurd runs (by decide)

theorem osArray (alike : Alike k e e') (runs : k.runsOs = true) (held : Bool)
    {tile : AccelEngine → AccelEngine} (kept : ∀ {e e'}, Alike k e e' → Alike k (tile e) (tile e'))
    (r0 : k.reads e.shape .r0 = true) (r1 : k.reads e.shape .r1 = true) :
    Alike k (e.osArray held tile) (e'.osArray held tile) := by
  obtain ⟨asOs,tilesOs,osOwed,kOs,nTilesOs⟩ := alike.osMembers runs
  refine alike_ite ?_ (fun _ => ?_) fun _ => alike
  · rw [AccelEngine.osFree,AccelEngine.osFree,asOs,tilesOs,osOwed,kOs,nTilesOs,alike.occ .r0 r0,alike.occ .r1 r1]
  · have popped : Alike k ((e.pops .r0).pops .r1) ((e'.pops .r0).pops .r1) :=
      (alike.pops .r0 r0).pops .r1 r1
    have stepped := popped.update (fun _ e => { e with os := { e.os with asOs := e.os.asOs + 1 } })
      (fun _ e => by cases k <;> rfl) fun _ _ => ⟨rfl,rfl,rfl,rfl,rfl,fun _ => id⟩
    obtain ⟨asOs,_,_,kOs,_⟩ := stepped.osMembers runs
    exact alike_ite (by rw [asOs,kOs]) (fun _ => kept stepped) fun _ => stepped

theorem isArray (alike : Alike k e e') (runs : k.runsIs = true) : Alike k e.isArray e'.isArray := by
  have stepped := alike.update (fun _ e => { e with isc := { e.isc with asIs := e.isc.asIs + 1 } })
    (fun _ e => by cases k <;> rfl) fun _ _ => ⟨rfl,rfl,rfl,rfl,rfl,fun _ => id⟩
  obtain ⟨asIs,_,_,kIs,_⟩ := stepped.isMembers runs
  refine alike_ite (by rw [asIs,kIs]) (fun _ => ?_) fun _ => stepped
  cases k with
  | p2 | p1 | is =>
    exact stepped.update (fun s e => { e with
        isc := { e.isc with tilesIs := e.isc.tilesIs + 1, isOwed := e.isc.isOwed + s.wbptIs }
        ctl := { e.ctl with gIscore := e.ctl.gIscore + 1 } })
      (fun _ _ => rfl) fun _ _ => ⟨rfl,rfl,rfl,rfl,rfl,fun _ => id⟩
  | os | simd => exact absurd runs (by decide)

theorem isFree (alike : Alike k e e') (runs : k.runsIs = true) : e'.isFree = e.isFree := by
  obtain ⟨asIs,_,isOwed,kIs,_⟩ := alike.isMembers runs
  rw [AccelEngine.isFree,AccelEngine.isFree,asIs,isOwed,kIs]

/-! ### The spare reader -/

/-- A reader left from before, which has nothing more to read, may move on either side. -/
theorem spared (alike : Alike .p2 e e') (off : (e.shape.ports 5).enabled = false) {r r' : CycReader}
    (left : r.Spent) (right : r'.Spent) : Alike .p2 (e.setReader .r5sw r) (e'.setReader .r5sw r') := by
  refine alike.setReader (fun needed => ?_) fun _ => .inl ⟨left,right⟩
  have on : (e.shape.swEn && (e.shape.ports 5).enabled) = true := needed
  rw [off,Bool.and_false] at on
  exact absurd on Bool.false_ne_true

theorem setReader_self (e : AccelEngine) (id : ReaderId) : e.setReader id (e.readers id) = e := by
  have same : (fun other => if other = id then e.readers id else e.readers other) = e.readers := by
    funext other
    split
    · rename_i here
      rw [here]
    · rfl
  rw [AccelEngine.setReader,same]

/-- What the landing of R5 does to a spent reader. -/
theorem landed_spent (e : AccelEngine) (spent : (e.readers .r5sw).Spent) :
    ∃ r : CycReader, r.Spent ∧
      (if (e.readers .r5sw).active || (e.readers .r5sw).done then e.landsAnew .r5sw else e) =
        e.setReader .r5sw r := by
  by_cases lands : ((e.readers .r5sw).active || (e.readers .r5sw).done) = true
  · refine ⟨(e.readers .r5sw).landReads,spent.landReads,?_⟩
    have going : ((e.lands .r5sw).readers .r5sw).done = false := by
      simpa [AccelEngine.lands,AccelEngine.setReader] using spent.landReads.going
    rw [if_pos lands,AccelEngine.landsAnew]
    simp only [going,Bool.false_eq_true,↓reduceIte]
    rfl
  · exact ⟨e.readers .r5sw,spent,by rw [if_neg lands,setReader_self]⟩

theorem landsSpare (alike : Alike .p2 e e') (sw : e.shape.swEn = true) : Alike .p2
    (if (e.readers .r5sw).active || (e.readers .r5sw).done then e.landsAnew .r5sw else e)
    (if (e'.readers .r5sw).active || (e'.readers .r5sw).done then e'.landsAnew .r5sw else e') := by
  cases on : (e.shape.ports 5).enabled with
  | true =>
    have needed : Kind.reads .p2 e.shape .r5sw = true := Bool.and_eq_true_iff.mpr ⟨sw,on⟩
    have reader := alike.readers .r5sw needed
    exact alike_ite (by rw [reader.active,reader.done]) (fun _ => alike.landsAnew .r5sw needed) fun _ => alike
  | false =>
    obtain ⟨left,right⟩ := alike.spare rfl sw on
    obtain ⟨r,spent,here⟩ := landed_spent e left
    obtain ⟨r',spent',there⟩ := landed_spent e' right
    rw [here,there]
    exact alike.spared on spent spent'

end Alike

/-! ### The fabric phase -/

/-- The commit passes of two engines that are alike, at the same flag. -/
structure Readback.Alike (k : Kind) (x x' : Readback) : Prop where
  engine : AccelEngine.Alike k x.engine x'.engine
  consulted : x'.consulted = x.consulted

theorem back_ite {c c' : Prop} [Decidable c] [Decidable c'] {x x' y y' : Readback} (same : c' ↔ c)
    (yes : c → Readback.Alike k x x') (no : ¬ c → Readback.Alike k y y') :
    Readback.Alike k (if c then x else y) (if c' then x' else y') := by
  by_cases holds : c
  · rw [if_pos holds,if_pos (same.mpr holds)]
    exact yes holds
  · rw [if_neg holds,if_neg fun other => holds (same.mp other)]
    exact no holds

namespace Readback.Alike

variable {x x' : Readback}

theorem reader (back : Readback.Alike k x x') (id : ReaderId)
    (needed : k.reads x.engine.shape id = true) (g : List Bool) :
    Readback.Alike k (commitReader g x id) (commitReader g x' id) := by
  have ⟨moved,flags⟩ := (back.engine.readers id needed).commit g x.consulted.length
  rw [commitReader,commitReader,back.consulted]
  exact ⟨back.engine.used id needed moved,by simp only [flags]⟩

theorem writer (back : Readback.Alike k x x') (id : WriterId)
    (needed : k.writes x.engine.shape id = true) (g : List Bool) :
    Readback.Alike k (commitWriter g x id) (commitWriter g x' id) := by
  rw [commitWriter,commitWriter,back.consulted,back.engine.writers id needed]
  exact ⟨back.engine.setWriter fun _ => rfl,rfl⟩

theorem wants7 (back : Readback.Alike .p2 x x') : x'.engine.wants7 = x.engine.wants7 := by
  have su : x'.engine.su = x.engine.su := back.engine.same fun _ e => e.su
  have depth : x'.engine.shape.r7DataD = x.engine.shape.r7DataD := back.engine.same fun s _ => s.r7DataD
  funext l
  rw [AccelEngine.wants7,AccelEngine.wants7,su,depth]

theorem dtBC (back : Readback.Alike .p2 x x') (g : List Bool) :
    Readback.Alike .p2 (commitDtBC g x) (commitDtBC g x') := by
  unfold commitDtBC
  induction List.range 4 generalizing x x' with
  | nil => exact back
  | cons l ls ih =>
    refine ih ?_
    refine back_ite (by rw [back.wants7]) (fun _ => ⟨?_,by rw [back.consulted]⟩) fun _ => back
    refine alike_ite (by rw [back.consulted]) (fun _ => ?_) fun _ => back.engine
    exact back.engine.update (fun _ e => e.grant7 l) (fun _ _ => rfl)
      fun _ _ => ⟨rfl,rfl,rfl,rfl,rfl,fun _ => id⟩

/-- R5's commit: a spent reader has posted nothing and reads no flag. -/
theorem committed_spent (x : Readback) (spent : (x.engine.readers .r5sw).Spent) (g : List Bool) :
    ∃ r : CycReader, r.Spent ∧
      (if (x.engine.readers .r5sw).active then commitReader g x .r5sw else x) =
        ⟨x.engine.setReader .r5sw r,x.consulted⟩ := by
  by_cases active : (x.engine.readers .r5sw).active = true
  · obtain ⟨kept,none⟩ := spent.commit g x.consulted.length
    refine ⟨_,kept,?_⟩
    rw [if_pos active,commitReader,none,List.map_nil,List.append_nil]
  · exact ⟨_,spent,by rw [if_neg active,AccelEngine.Alike.setReader_self]⟩

theorem spare (back : Readback.Alike .p2 x x') (sw : x.engine.shape.swEn = true) (g : List Bool) :
    Readback.Alike .p2 (if (x.engine.readers .r5sw).active then commitReader g x .r5sw else x)
      (if (x'.engine.readers .r5sw).active then commitReader g x' .r5sw else x') := by
  cases on : (x.engine.shape.ports 5).enabled with
  | true =>
    have needed : Kind.reads .p2 x.engine.shape .r5sw = true := Bool.and_eq_true_iff.mpr ⟨sw,on⟩
    exact back_ite (by rw [(back.engine.readers .r5sw needed).active])
      (fun _ => back.reader .r5sw needed g) fun _ => back
  | false =>
    obtain ⟨left,right⟩ := back.engine.spare rfl sw on
    obtain ⟨r,spent,here⟩ := committed_spent x left g
    obtain ⟨r',spent',there⟩ := committed_spent x' right g
    rw [here,there]
    exact ⟨back.engine.spared on spent spent',back.consulted⟩

theorem z (back : Readback.Alike .p2 x x') (g : List Bool) :
    Readback.Alike .p2 (commitZ g x) (commitZ g x') := by
  have w0 : x'.engine.writers .w0 = x.engine.writers .w0 := back.engine.writers .w0 rfl
  have written : Readback.Alike .p2 (commitWriter g x .w0) (commitWriter g x' .w0) := back.writer _ rfl g
  have w0' : (commitWriter g x' .w0).engine.writers .w0 = (commitWriter g x .w0).engine.writers .w0 :=
    written.engine.writers .w0 rfl
  have wz : (commitWriter g x' .w0).engine.shape.wz = (commitWriter g x .w0).engine.shape.wz :=
    written.engine.same fun s _ => s.wz
  refine back_ite (by rw [w0,w0',wz]) (fun _ => ⟨?_,written.consulted⟩) fun _ => written
  rw [w0]
  exact written.engine.update (fun _ e => { e with os := { e.os with
      zwr := fun w => if w = wordOff (x.engine.writers .w0).cfg.ts (x.engine.writers .w0).ti then true
        else e.os.zwr w } }) (fun _ _ => rfl)
    fun _ _ => ⟨rfl,rfl,rfl,rfl,rfl,fun w set => by simp only [set,ite_self]⟩

theorem y (back : Readback.Alike .p2 x x') (g : List Bool) :
    Readback.Alike .p2 (commitY g x) (commitY g x') := by
  have w2 : x'.engine.writers .w2 = x.engine.writers .w2 := back.engine.writers .w2 rfl
  have written : Readback.Alike .p2 (commitWriter g x .w2) (commitWriter g x' .w2) := back.writer _ rfl g
  have w2' : (commitWriter g x' .w2).engine.writers .w2 = (commitWriter g x .w2).engine.writers .w2 :=
    written.engine.writers .w2 rfl
  have wy : (commitWriter g x' .w2).engine.shape.wy = (commitWriter g x .w2).engine.shape.wy :=
    written.engine.same fun s _ => s.wy
  refine back_ite (by rw [w2,w2',wy]) (fun _ => ⟨?_,written.consulted⟩) fun _ => written
  rw [w2]
  exact written.engine.update (fun _ e => { e with su := { e.su with
      ywr := fun w => if w = wordOff (x.engine.writers .w2).cfg.ts (x.engine.writers .w2).ti then true
        else e.su.ywr w } }) (fun _ _ => rfl) fun _ _ => ⟨rfl,rfl,rfl,rfl,rfl,fun _ => id⟩

/-- Without an osCore every word of z counts as written, and the word does not matter. -/
theorem readZ (back : Readback.Alike .p2 x x') (g : List Bool) :
    Readback.Alike .p2 (commitReadZ g x) (commitReadZ g x') := by
  have reader := back.engine.readers .r10 rfl
  have read : Readback.Alike .p2 (commitReader g x .r10) (commitReader g x' .r10) := back.reader _ rfl g
  have reader' := read.engine.readers .r10 rfl
  have wz : (commitReader g x' .r10).engine.shape.wz = (commitReader g x .r10).engine.shape.wz :=
    read.engine.same fun s _ => s.wz
  have zwr : (commitReader g x' .r10).engine.os.zwr = (commitReader g x .r10).engine.os.zwr :=
    read.engine.same fun _ e => e.os.zwr
  refine back_ite ?_ (fun _ => ⟨?_,read.consulted⟩) fun _ => read
  · cases watch : x.engine.shape.enOs with
    | true =>
      have word : wordOff (x'.engine.readers .r10).cfg.ts (x'.engine.readers .r10).ti =
          wordOff (x.engine.readers .r10).cfg.ts (x.engine.readers .r10).ti := reader.wordShown watch
      rw [word,reader.pendingPush,reader'.pendingPush,wz,zwr]
    | false =>
      have loaded := read.engine.loaded rfl watch
      rw [zwr]
      simp only [loaded,Bool.true_eq_false,and_false]
  · exact read.engine.update (fun _ e => { e with res := { e.res with staleZ := e.res.staleZ + 1 } })
      (fun _ _ => rfl) fun _ _ => ⟨rfl,rfl,rfl,rfl,rfl,fun _ => id⟩

theorem readY (back : Readback.Alike .p2 x x') (watch : x.engine.shape.enIsc = true) (g : List Bool) :
    Readback.Alike .p2 (commitReadY g x) (commitReadY g x') := by
  have reader := back.engine.readers .r11 rfl
  have read : Readback.Alike .p2 (commitReader g x .r11) (commitReader g x' .r11) := back.reader _ rfl g
  have reader' := read.engine.readers .r11 rfl
  have wy : (commitReader g x' .r11).engine.shape.wy = (commitReader g x .r11).engine.shape.wy :=
    read.engine.same fun s _ => s.wy
  have ywr : (commitReader g x' .r11).engine.su.ywr = (commitReader g x .r11).engine.su.ywr :=
    read.engine.same fun _ e => e.su.ywr
  have word : wordOff (x'.engine.readers .r11).cfg.ts (x'.engine.readers .r11).ti =
      wordOff (x.engine.readers .r11).cfg.ts (x.engine.readers .r11).ti := reader.wordShown watch
  refine back_ite (by rw [word,reader.pendingPush,reader'.pendingPush,wy,ywr])
    (fun _ => ⟨?_,read.consulted⟩) fun _ => read
  exact read.engine.update (fun _ e => { e with res := { e.res with staleY := e.res.staleY + 1 } })
    (fun _ _ => rfl) fun _ _ => ⟨rfl,rfl,rfl,rfl,rfl,fun _ => id⟩

end Readback.Alike

namespace Alike

theorem readerPosts (alike : Alike k e e') (id : ReaderId) (needed : k.reads e.shape id = true) :
    e'.readerPosts id = e.readerPosts id := by
  rw [AccelEngine.readerPosts,AccelEngine.readerPosts,(alike.readers id needed).proposals]

theorem writerPosts (alike : Alike k e e') (id : WriterId) (needed : k.writes e.shape id = true) :
    e'.writerPosts id = e.writerPosts id := by
  rw [AccelEngine.writerPosts,AccelEngine.writerPosts,alike.writers id needed]

/-- The same requests meet the same DMA and get the same flags. -/
theorem fabricPhase (alike : Alike k e e') {requests requests' : List Request}
    (posted : requests' = requests) (commits : List Bool → Readback → Readback)
    (kept : ∀ g {x x'}, Readback.Alike k x x' → x.engine.shape = e.shape →
      Readback.Alike k (commits g x) (commits g x')) :
    Alike k (e.fabricPhase requests commits).1 (e'.fabricPhase requests' commits).1 ∧
      (e'.fabricPhase requests' commits).2 = (e.fabricPhase requests commits).2 := by
  subst posted
  have cyc : e'.ctl.cyc = e.ctl.cyc := by cases k <;> exact alike.same fun _ e => e.ctl.cyc
  have fabric : e'.fabric = e.fabric := by cases k <;> exact alike.same fun _ e => e.fabric
  obtain ⟨dma,mask⟩ := alike.dma.step e.ctl.cyc
  have transfers : (e.dma.step e.ctl.cyc).1.Alike (e'.dma.step e'.ctl.cyc).1 := by
    rw [cyc]
    exact dma
  have cycle : e'.fabricCycle requests' = e.fabricCycle requests' := by
    rw [fabricCycle,fabricCycle,cyc,mask]
  have turn : Snax.fabric.next e'.fabric (e'.fabricCycle requests') =
      Snax.fabric.next e.fabric (e.fabricCycle requests') := by rw [fabric,cycle]
  have set (e : AccelEngine) (d : DmaEngine) (f : Fabric) :
      k.seen { e with dma := d, fabric := f } = k.seen { k.seen e with fabric := f } := by
    cases k <;> rfl
  have arbitrated : Alike k (e.arbitrated requests') (e'.arbitrated requests') := by
    refine ⟨alike.kind,alike.shape,?_,transfers,alike.readers,alike.writers,
      fun simd => ⟨(alike.ports simd).reads,(alike.ports simd).beats,(alike.ports simd).pops,
        (alike.ports simd).writes⟩,alike.spare,alike.loaded⟩
    rw [AccelEngine.arbitrated,AccelEngine.arbitrated,set e,set e',alike.core,turn]
  rw [fabricPhase_eq,fabricPhase_eq,fabric,cycle]
  have done := kept (Snax.fabric.out e.fabric (e.fabricCycle requests'))
    (⟨arbitrated,rfl⟩ : Readback.Alike k ⟨e.arbitrated requests',[]⟩ ⟨e'.arbitrated requests',[]⟩) rfl
  exact ⟨done.engine,by simp only [done.consulted]⟩

theorem setting (alike : Alike k e e') (f : Shape → Bool) :
    f (k.shape e'.shape) = true ↔ f (k.shape e.shape) = true := by rw [alike.shape]

end Alike

theorem landsAnew_shape (e : AccelEngine) (id : ReaderId) : (e.landsAnew id).shape = e.shape := by
  unfold landsAnew
  extract_lets e1
  split <;> rfl

/-- What a call leaves and shows is alike. -/
structure AlikeStep (k : Kind) (t t' : AccelEngine × Trace) : Prop where
  engine : Alike k t.1 t'.1
  trace : t'.2 = t.2

theorem alikeStep_ite {c c' : Prop} [Decidable c] [Decidable c'] {t t' u u' : AccelEngine × Trace}
    (same : c' ↔ c) (yes : c → AlikeStep k t t') (no : ¬ c → AlikeStep k u u') :
    AlikeStep k (if c then t else u) (if c' then t' else u') := by
  by_cases holds : c
  · rw [if_pos holds,if_pos (same.mpr holds)]
    exact yes holds
  · rw [if_neg holds,if_neg fun other => holds (same.mp other)]
    exact no holds

theorem list_ite {α : Type} {c c' : Bool} {l l' : List α} (same : c' = c) (yes : c = true → l' = l) :
    (if c' then l' else []) = if c then l else [] := by
  rw [same]
  cases c with
  | true => exact yes rfl
  | false => rfl

namespace Alike

/-- The end of a cycle that goes on, once both engines sample the same row. -/
theorem sampleFifo (alike : Alike k e e') (samples : e'.samples = e.samples) :
    Alike k e.sampleFifo e'.sampleFifo := by
  have row : e'.sampleRow = e.sampleRow := by rw [sampleRow,sampleRow,samples]
  have records : e'.shape.recFifo = true ↔ e.shape.recFifo = true := by
    cases k <;> exact alike.setting fun s => s.recFifo
  refine alike_ite records (fun _ => ?_) fun _ => alike
  rw [row]
  exact alike.update (fun _ a => { a with res := { a.res with fifo := a.res.fifo ++ [e.sampleRow] } })
    (fun _ _ => by cases k <;> rfl) fun _ _ => ⟨rfl,rfl,rfl,rfl,rfl,fun _ => id⟩

theorem readerSample (alike : Alike k e e') (port : Nat) (id : ReaderId)
    (needed : k.reads e.shape id = true) : e'.readerSample port id = e.readerSample port id := by
  rw [AccelEngine.readerSample,AccelEngine.readerSample,alike.occ id needed]

theorem writerSample (alike : Alike k e e') (port : Nat) (id : WriterId)
    (needed : k.writes e.shape id = true) : e'.writerSample port id = e.writerSample port id := by
  rw [AccelEngine.writerSample,AccelEngine.writerSample,alike.writers id needed]

/-- The two ways in which a cycle of any kind does nothing. -/
theorem guarded (alike : Alike k e e') {t t' : AccelEngine × Trace} (cycle : AlikeStep k t t') :
    AlikeStep k (if !e.ctl.running then (e,quiet) else if e.shape.cap ≤ e.ctl.cyc then (e.capped,quiet) else t)
      (if !e'.ctl.running then (e',quiet) else if e'.shape.cap ≤ e'.ctl.cyc then (e'.capped,quiet)
        else t') := by
  have running : e'.ctl.running = e.ctl.running := by
    cases k <;> exact alike.same fun _ e => e.ctl.running
  have cyc : e'.ctl.cyc = e.ctl.cyc := by cases k <;> exact alike.same fun _ e => e.ctl.cyc
  have cap : e'.shape.cap = e.shape.cap := by cases k <;> exact alike.same fun s _ => s.cap
  refine alikeStep_ite (by rw [running]) (fun _ => ⟨alike,rfl⟩) fun _ => ?_
  exact alikeStep_ite (by rw [cyc,cap]) (fun _ => ⟨alike.capped,rfl⟩) fun _ => cycle

/-! ### P1 and IS_OSGEMM -/

theorem landP1 (alike : Alike .p1 e e') : Alike .p1 e.landP1 e'.landP1 := by
  unfold AccelEngine.landP1
  extract_lets e1 e2 e3 e4 f1 f2 f3 f4
  have a1 : Alike .p1 e1 f1 := (alike.landsAnew .r0 rfl).landsAnew .r1 rfl
  have a2 : Alike .p1 e2 f2 := alike_ite (a1.setting fun s => s.p1swEn)
    (fun on => (a1.landsAnew .r3c on).landsAnew .r4c (by rw [landsAnew_shape]; exact on)) fun _ => a1
  have a3 : Alike .p1 e3 f3 := a2.landsAnew .r12 rfl
  have a4 : Alike .p1 e4 f4 :=
    alike_ite (a3.setting fun s => s.r11p1En) (fun on => a3.landsAnew .r11 on) fun _ => a3
  exact alike_ite (a4.setting fun s => s.r13En) (fun on => a4.landsAnew .r13 on) fun _ => a4

theorem osTileP1 (alike : Alike .p1 e e') : Alike .p1 e.osTileP1 e'.osTileP1 :=
  alike.update (fun s e => { e with
      os := { e.os with
        tilesOs := e.os.tilesOs + 1
        oscElem := e.os.oscElem + 16 * 24
        osOwed := if (osw s).isSome then e.os.osOwed + s.wbptOs else e.os.osOwed }
      ctl := { e.ctl with gR10 := e.ctl.gR10 + 1 } })
    (fun _ _ => rfl) fun _ _ => ⟨rfl,rfl,rfl,rfl,rfl,fun _ => id⟩

theorem convolve (alike : Alike .p1 e e') : Alike .p1 e.convolve e'.convolve := by
  have swElem : e'.os.swElem = e.os.swElem := alike.same fun _ e => e.os.swElem
  have oscElem : e'.os.oscElem = e.os.oscElem := alike.same fun _ e => e.os.oscElem
  have iters : e'.shape.iters = e.shape.iters := alike.same fun s _ => s.iters
  refine alike_ite (alike.setting fun s => s.p1swEn) (fun on => ?_) fun _ => ?_
  · refine alike_ite ?_ (fun _ => ?_) fun _ => alike
    · rw [swElem,oscElem,iters,alike.occ .r3c on,alike.occ .r4c on]
    · have a1 : Alike .p1 (e.pops .r3c) (e'.pops .r3c) := alike.pops .r3c on
      have occ : (e'.pops .r3c).occ .r4c = (e.pops .r3c).occ .r4c := a1.occ .r4c on
      have first : (e'.pops .r3c).os.swElem = (e.pops .r3c).os.swElem := swElem
      have a2 : Alike .p1
          (if (e.pops .r3c).os.swElem.tmod 24 = 0 ∧ 0 < (e.pops .r3c).occ .r4c then
            (e.pops .r3c).pops .r4c else e.pops .r3c)
          (if (e'.pops .r3c).os.swElem.tmod 24 = 0 ∧ 0 < (e'.pops .r3c).occ .r4c then
            (e'.pops .r3c).pops .r4c else e'.pops .r3c) :=
        alike_ite (by rw [first,occ]) (fun _ => a1.pops .r4c on) fun _ => a1
      exact a2.update (fun _ e => { e with os := { e.os with swElem := e.os.swElem + 4 } })
        (fun _ _ => rfl) fun _ _ => ⟨rfl,rfl,rfl,rfl,rfl,fun _ => id⟩
  · exact alike.update (fun _ e => { e with os := { e.os with swElem := e.os.oscElem } })
      (fun _ _ => rfl) fun _ _ => ⟨rfl,rfl,rfl,rfl,rfl,fun _ => id⟩

theorem isCoreP1 (alike : Alike .p1 e e') : Alike .p1 e.isCoreP1 e'.isCoreP1 := by
  have ahead : e'.streamAhead = e.streamAhead := alike.same fun s e =>
    s.r11p1En || decide (e.isc.asIs * s.iters ≤ e.os.swElem * s.nTilesIs * s.kIs)
  have tiles : e'.isc.tilesIs < e'.shape.nTilesIs ↔ e.isc.tilesIs < e.shape.nTilesIs := by
    obtain ⟨_,tilesIs,_,_,nTilesIs⟩ := alike.isMembers rfl
    rw [tilesIs,nTilesIs]
  have sums : (!e'.shape.r13En || decide (0 < e'.occ .r13)) = (!e.shape.r13En || decide (0 < e.occ .r13)) := by
    have same : e'.shape.r13En = e.shape.r13En := alike.same fun s _ => s.r13En
    rw [same]
    cases on : e.shape.r13En with
    | true => rw [alike.occ .r13 on]
    | false => rfl
  have inputs : (!e'.shape.r11p1En || decide (0 < e'.occ .r11)) =
      (!e.shape.r11p1En || decide (0 < e.occ .r11)) := by
    have same : e'.shape.r11p1En = e.shape.r11p1En := alike.same fun s _ => s.r11p1En
    rw [same]
    cases on : e.shape.r11p1En with
    | true => rw [alike.occ .r11 on]
    | false => rfl
  unfold AccelEngine.isCoreP1
  extract_lets e1 e2 e3 f1 f2 f3
  have a1 : Alike .p1 e1 f1 := alike.pops .r12 rfl
  have a2 : Alike .p1 e2 f2 :=
    alike_ite (a1.setting fun s => s.r11p1En) (fun on => a1.pops .r11 on) fun _ => a1
  have a3 : Alike .p1 e3 f3 :=
    alike_ite (a2.setting fun s => s.r13En) (fun on => a2.pops .r13 on) fun _ => a2
  refine alike_ite ?_ (fun _ => a3.isArray rfl) fun _ => alike
  simp only [Bool.and_eq_true,decide_eq_true_eq,tiles,ahead,alike.occ .r12 rfl,sums,inputs,alike.isFree rfl]

theorem osw_same (alike : Alike .p1 e e') : osw e'.shape = osw e.shape := alike.same fun s _ => osw s

theorem osw_writes {s : Shape} {w : WriterId} (output : osw s = some w) : Kind.writes .p1 s w = true := by
  unfold osw at output
  split at output
  · rename_i on
    obtain rfl := Option.some.inj output
    exact on
  · split at output
    · rename_i on
      obtain rfl := Option.some.inj output
      exact on
    · exact nomatch output

theorem coresP1 (alike : Alike .p1 e e') : Alike .p1 e.coresP1 e'.coresP1 := by
  unfold AccelEngine.coresP1
  extract_lets e1 f1
  have a1 : Alike .p1 e1 f1 := by
    simp only [e1,f1,alike.osw_same]
    cases output : osw e.shape with
    | some w => exact alike.osDrip rfl (osw_writes output)
    | none => exact alike
  have a2 : Alike .p1 (e1.osArray (osw e1.shape).isSome AccelEngine.osTileP1)
      (f1.osArray (osw f1.shape).isSome AccelEngine.osTileP1) := by
    rw [a1.osw_same]
    exact a1.osArray rfl _ osTileP1 rfl rfl
  exact (a2.convolve.isDrip rfl rfl).isCoreP1

theorem requestsP1 (alike : Alike .p1 e e') : e'.requestsP1 = e.requestsP1 := by
  have w0p1En : e'.shape.w0p1En = e.shape.w0p1En := alike.same fun s _ => s.w0p1En
  have w1En : e'.shape.w1En = e.shape.w1En := alike.same fun s _ => s.w1En
  have p1swEn : e'.shape.p1swEn = e.shape.p1swEn := alike.same fun s _ => s.p1swEn
  have r11p1En : e'.shape.r11p1En = e.shape.r11p1En := alike.same fun s _ => s.r11p1En
  have r13En : e'.shape.r13En = e.shape.r13En := alike.same fun s _ => s.r13En
  have output : (if e'.shape.w0p1En then e'.writerPosts .w0 else if e'.shape.w1En then e'.writerPosts .w1
      else []) = if e.shape.w0p1En then e.writerPosts .w0 else if e.shape.w1En then e.writerPosts .w1
      else [] := by
    rw [w0p1En,w1En]
    split
    · rename_i on
      exact alike.writerPosts .w0 on
    · exact list_ite rfl fun on => alike.writerPosts .w1 on
  rw [AccelEngine.requestsP1,AccelEngine.requestsP1,alike.readerPosts .r0 rfl,alike.readerPosts .r1 rfl,output,
    list_ite p1swEn fun on => congrArg₂ (· ++ ·) (alike.readerPosts .r3c on)
      (alike.readerPosts .r4c on),alike.readerPosts .r12 rfl,
    list_ite r11p1En fun on => alike.readerPosts .r11 on,
    list_ite r13En fun on => alike.readerPosts .r13 on,
    alike.writerPosts .w3 rfl]

theorem commitsP1 (g : List Bool) {x x' : Readback} (back : Readback.Alike .p1 x x') :
    Readback.Alike .p1 (commitsP1 g x) (commitsP1 g x') := by
  unfold AccelEngine.commitsP1
  extract_lets x1 x2 x3 x4 x5 x6 y1 y2 y3 y4 y5 y6
  have b1 : Readback.Alike .p1 x1 y1 := (back.reader .r0 rfl g).reader .r1 rfl g
  have b2 : Readback.Alike .p1 x2 y2 := back_ite (b1.engine.setting fun s => s.w0p1En)
    (fun on => b1.writer .w0 on g) fun _ => back_ite (b1.engine.setting fun s => s.w1En)
      (fun on => b1.writer .w1 on g) fun _ => b1
  have b3 : Readback.Alike .p1 x3 y3 := back_ite (b2.engine.setting fun s => s.p1swEn)
    (fun on => (b2.reader .r3c on g).reader .r4c on g) fun _ => b2
  have b4 : Readback.Alike .p1 x4 y4 := b3.reader .r12 rfl g
  have b5 : Readback.Alike .p1 x5 y5 :=
    back_ite (b4.engine.setting fun s => s.r11p1En) (fun on => b4.reader .r11 on g) fun _ => b4
  have b6 : Readback.Alike .p1 x6 y6 :=
    back_ite (b5.engine.setting fun s => s.r13En) (fun on => b5.reader .r13 on g) fun _ => b5
  exact b6.writer .w3 rfl g

theorem samplesP1 (alike : Alike .p1 e e') : e'.samples = e.samples := by
  have kind : e'.shape.kind = e.shape.kind := alike.same fun s _ => s.kind
  have w0p1En : e'.shape.w0p1En = e.shape.w0p1En := alike.same fun s _ => s.w0p1En
  have w1En : e'.shape.w1En = e.shape.w1En := alike.same fun s _ => s.w1En
  have p1swEn : e'.shape.p1swEn = e.shape.p1swEn := alike.same fun s _ => s.p1swEn
  have r11p1En : e'.shape.r11p1En = e.shape.r11p1En := alike.same fun s _ => s.r11p1En
  have r13En : e'.shape.r13En = e.shape.r13En := alike.same fun s _ => s.r13En
  have two : e.shape.kind = 2 := alike.kind
  simp only [AccelEngine.samples,kind,two,Nat.reduceEqDiff,↓reduceIte,OfNat.ofNat_ne_one]
  rw [alike.readerSample 0 .r0 rfl,alike.readerSample 1 .r1 rfl,
    list_ite w0p1En fun on => congrArg (fun x => [x]) (alike.writerSample 14 .w0 on),
    list_ite w1En fun on => congrArg (fun x => [x]) (alike.writerSample 15 .w1 on),
    list_ite p1swEn fun on => congrArg₂ (fun x y => [x,y]) (alike.readerSample 3 .r3c on)
      (alike.readerSample 4 .r4c on),
    alike.readerSample 12 .r12 rfl,
    list_ite r11p1En fun on => congrArg (fun x => [x]) (alike.readerSample 11 .r11 on),
    list_ite r13En fun on => congrArg (fun x => [x]) (alike.readerSample 13 .r13 on),
    alike.writerSample 17 .w3 rfl]

theorem isDone (alike : Alike k e e') (runs : k.runsIs = true) (w3 : k.writes e.shape .w3 = true) :
    e'.isDone = e.isDone := by
  obtain ⟨_,tilesIs,_,_,nTilesIs⟩ := alike.isMembers runs
  rw [AccelEngine.isDone,AccelEngine.isDone,tilesIs,nTilesIs,alike.drained .w3 w3]

theorem stepP1 (alike : Alike .p1 e e') : AlikeStep .p1 e.stepP1 e'.stepP1 := by
  have moved : Alike .p1 e.ticked.landP1.coresP1 e'.ticked.landP1.coresP1 := alike.ticked.landP1.coresP1
  have ⟨phase,trace⟩ := moved.fabricPhase moved.requestsP1 AccelEngine.commitsP1
    fun g _ _ back _ => commitsP1 g back
  exact alike.guarded (alikeStep_ite (by rw [moved.isDone rfl rfl]) (fun _ => ⟨moved.capped,rfl⟩)
    fun _ => ⟨phase.sampleFifo phase.samplesP1,trace⟩)

/-! ### The standalone arrays -/

theorem samplesOs (alike : Alike .os e e') : e'.samples = e.samples := by
  have kind : e'.shape.kind = e.shape.kind := alike.same fun s _ => s.kind
  have three : e.shape.kind = 3 := alike.kind
  simp only [AccelEngine.samples,kind,three,Nat.reduceEqDiff,↓reduceIte,OfNat.ofNat_ne_one]
  rw [alike.readerSample 0 .r0 rfl,alike.readerSample 1 .r1 rfl,alike.writerSample 14 .w0 rfl]

theorem samplesIs (alike : Alike .is e e') : e'.samples = e.samples := by
  have kind : e'.shape.kind = e.shape.kind := alike.same fun s _ => s.kind
  have four : e.shape.kind = 4 := alike.kind
  simp only [AccelEngine.samples,kind,four,Nat.reduceEqDiff,↓reduceIte,OfNat.ofNat_ne_one]
  rw [alike.writerSample 17 .w3 rfl]

theorem requestsOs (alike : Alike .os e e') : e'.requestsOs = e.requestsOs := by
  rw [AccelEngine.requestsOs,AccelEngine.requestsOs,alike.readerPosts .r0 rfl,alike.readerPosts .r1 rfl,
    alike.writerPosts .w0 rfl]

theorem osDone (alike : Alike .os e e') :
    (e'.os.tilesOs == e'.shape.nTilesOs && decide (e'.shape.wz ≤ (e'.writers .w0).written)) =
      (e.os.tilesOs == e.shape.nTilesOs && decide (e.shape.wz ≤ (e.writers .w0).written)) := by
  have wz : e'.shape.wz = e.shape.wz := alike.same fun s _ => s.wz
  obtain ⟨_,tilesOs,_,_,nTilesOs⟩ := alike.osMembers rfl
  rw [tilesOs,nTilesOs,wz,alike.writers .w0 rfl]

theorem stepOs (alike : Alike .os e e') : AlikeStep .os e.stepOs e'.stepOs := by
  have landed : Alike .os ((e.ticked.landsAnew .r0).landsAnew .r1)
      ((e'.ticked.landsAnew .r0).landsAnew .r1) :=
    (alike.ticked.landsAnew .r0 rfl).landsAnew .r1 rfl
  have dripped : Alike .os (((e.ticked.landsAnew .r0).landsAnew .r1).osDrip .w0)
      (((e'.ticked.landsAnew .r0).landsAnew .r1).osDrip .w0) := landed.osDrip rfl rfl
  have moved := dripped.osArray rfl true (fun alike => alike.osTile rfl) rfl rfl
  have ⟨phase,trace⟩ := moved.fabricPhase moved.requestsOs commitsOs fun g _ _ back _ =>
    ((back.reader .r0 rfl g).reader .r1 rfl g).writer .w0 rfl g
  have ended := moved.update (fun _ e => { e.capped with res := { e.capped.res with oscEnd := e.ctl.cyc } })
    (fun _ _ => rfl) fun _ _ => ⟨rfl,rfl,rfl,rfl,rfl,fun _ => id⟩
  exact alike.guarded (alikeStep_ite (by rw [moved.osDone])
    (fun _ => ⟨ended.sampleFifo ended.samplesOs,rfl⟩) fun _ => ⟨phase.sampleFifo phase.samplesOs,trace⟩)

theorem stepIs (alike : Alike .is e e') : AlikeStep .is e.stepIs e'.stepIs := by
  have dripped := alike.ticked.isDrip rfl rfl
  have moved : Alike .is e.ticked.isDrip.isCoreAlone e'.ticked.isDrip.isCoreAlone := by
    obtain ⟨_,tilesIs,_,_,nTilesIs⟩ := dripped.isMembers rfl
    exact alike_ite (by rw [tilesIs,nTilesIs,dripped.isFree rfl]) (fun _ => dripped.isArray rfl)
      fun _ => dripped
  have ⟨phase,trace⟩ := moved.fabricPhase (moved.writerPosts .w3 rfl)
    (fun g x => commitWriter g x .w3) fun g _ _ back _ => back.writer .w3 rfl g
  have ended := moved.update (fun _ e => { e.capped with res := { e.capped.res with iscEnd := e.ctl.cyc } })
    (fun _ _ => rfl) fun _ _ => ⟨rfl,rfl,rfl,rfl,rfl,fun _ => id⟩
  exact alike.guarded (alikeStep_ite (by rw [moved.isDone rfl rfl])
    (fun _ => ⟨ended.sampleFifo ended.samplesIs,rfl⟩) fun _ => ⟨phase.sampleFifo phase.samplesIs,trace⟩)

/-! ### SIMD -/

theorem reads_simd {s : Shape} {p : Nat} (port : p < 14) (on : s.simdREn p = true) :
    Kind.reads .simd s (.rd p) = true := Bool.and_eq_true_iff.mpr ⟨decide_eq_true port,on⟩

theorem writes_simd {s : Shape} {p : Nat} (port : p < 4) (on : s.simdWEn p = true) :
    Kind.writes .simd s (.wr p) = true := Bool.and_eq_true_iff.mpr ⟨decide_eq_true port,on⟩

theorem foldl (alike : Alike k e e') {f : AccelEngine → Nat → AccelEngine} (ps : List Nat)
    (kept : ∀ {e e'}, ∀ p ∈ ps, Alike k e e' → Alike k (f e p) (f e' p)) :
    Alike k (ps.foldl f e) (ps.foldl f e') := by
  induction ps generalizing e e' with
  | nil => exact alike
  | cons p ps ih =>
    exact ih (kept p List.mem_cons_self alike) fun q inside => kept q (List.mem_cons_of_mem p inside)

theorem simdReads (alike : Alike .simd e e') {p : Nat} (port : p < 14) :
    e'.simdReads p = e.simdReads p := by
  obtain ⟨reads,beats,pops,_⟩ := alike.ports rfl
  rw [AccelEngine.simdReads,AccelEngine.simdReads,reads p port,beats p port,pops p port]

theorem simdWrites (alike : Alike .simd e e') {p : Nat} (port : p < 4) :
    e'.simdWrites p = e.simdWrites p := by
  rw [AccelEngine.simdWrites,AccelEngine.simdWrites,(alike.ports rfl).writes p port]
  cases on : e.shape.simdWEn p with
  | true => rw [alike.writers (.wr p) (writes_simd port on)]
  | false => rfl

/-- A pop is counted at its port. -/
theorem counted (alike : Alike .simd e e') (p : Nat) : Alike .simd
    { e with simdRPops := fun q => if q = p then e.simdRPops q + 1 else e.simdRPops q }
    { e' with simdRPops := fun q => if q = p then e'.simdRPops q + 1 else e'.simdRPops q } := by
  obtain ⟨reads,beats,pops,writes⟩ := alike.ports rfl
  refine ⟨alike.kind,alike.shape,alike.core,alike.dma,alike.readers,alike.writers,
    fun _ => ⟨reads,beats,fun q port => ?_,writes⟩,alike.spare,alike.loaded⟩
  simp only [pops q port]

theorem simdConsume (alike : Alike .simd e e') {p : Nat} (port : p < 14) :
    Alike .simd (e.simdConsume p) (e'.simdConsume p) := by
  refine alike_ite (by rw [(alike.ports rfl).reads p port]) (fun on => ?_) fun _ => alike
  have needed := reads_simd port on
  have landed := alike.lands (.rd p) needed
  obtain ⟨_,beats,pops,_⟩ := landed.ports rfl
  exact alike_ite (by rw [beats p port,pops p port,landed.occ (.rd p) needed])
    (fun _ => (landed.pops (.rd p) needed).counted p) fun _ => landed

theorem simdProduce (alike : Alike .simd e e') {p : Nat} (port : p < 4) :
    Alike .simd (e.simdProduce p) (e'.simdProduce p) := by
  have same := (alike.ports rfl).writes p port
  cases on : e.shape.simdWEn p with
  | true =>
    have needed := writes_simd port on
    exact alike_ite (by rw [same,alike.writers (.wr p) needed,alike.hasRoom (.wr p) needed])
      (fun _ => alike.pushes (.wr p) needed) fun _ => alike
  | false =>
    rw [AccelEngine.simdProduce,AccelEngine.simdProduce,same,on]
    exact alike

theorem samplesSimd (alike : Alike .simd e e') : e'.samples = e.samples := by
  have kind : e'.shape.kind = e.shape.kind := alike.same fun s _ => s.kind
  have five : e.shape.kind = 5 := alike.kind
  obtain ⟨reads,_,_,writes⟩ := alike.ports rfl
  have readers : ((List.range 14).filter e'.shape.simdREn).map (fun p => e'.readerSample p (.rd p)) =
      ((List.range 14).filter e.shape.simdREn).map fun p => e.readerSample p (.rd p) := by
    rw [List.filter_congr fun p inside => reads p (List.mem_range.mp inside)]
    refine List.map_congr_left fun p inside => alike.readerSample p (.rd p) ?_
    obtain ⟨port,on⟩ := List.mem_filter.mp inside
    exact reads_simd (List.mem_range.mp port) on
  have writers : ((List.range 4).filter e'.shape.simdWEn).map (fun p => e'.writerSample (p + 14) (.wr p)) =
      ((List.range 4).filter e.shape.simdWEn).map fun p => e.writerSample (p + 14) (.wr p) := by
    rw [List.filter_congr fun p inside => writes p (List.mem_range.mp inside)]
    refine List.map_congr_left fun p inside => alike.writerSample (p + 14) (.wr p) ?_
    obtain ⟨port,on⟩ := List.mem_filter.mp inside
    exact writes_simd (List.mem_range.mp port) on
  simp only [AccelEngine.samples,kind,five,Nat.reduceEqDiff,↓reduceIte,OfNat.ofNat_ne_one]
  rw [readers,writers]

theorem requestsSimd (alike : Alike .simd e e') : e'.requestsSimd = e.requestsSimd := by
  rw [AccelEngine.requestsSimd,AccelEngine.requestsSimd]
  refine congrArg₂ (· ++ ·) (List.flatMap_congr fun p inside => ?_) (List.flatMap_congr fun p inside => ?_)
  · have port := List.mem_range.mp inside
    exact list_ite (alike.simdReads port) fun on =>
      alike.readerPosts (.rd p) (reads_simd port (Bool.and_eq_true_iff.mp on).1)
  · have port := List.mem_range.mp inside
    exact list_ite (alike.simdWrites port) fun on =>
      alike.writerPosts (.wr p) (writes_simd port (Bool.and_eq_true_iff.mp on).1)

theorem back_foldl {f : Readback → Nat → Readback} {x x' : Readback} (back : Readback.Alike k x x')
    (ps : List Nat) (kept : ∀ {x x'}, ∀ p ∈ ps, Readback.Alike k x x' → Readback.Alike k (f x p) (f x' p)) :
    Readback.Alike k (ps.foldl f x) (ps.foldl f x') := by
  induction ps generalizing x x' with
  | nil => exact back
  | cons p ps ih =>
    exact ih (kept p List.mem_cons_self back) fun q inside => kept q (List.mem_cons_of_mem p inside)

theorem commitsSimd (g : List Bool) {x x' : Readback} (back : Readback.Alike .simd x x') :
    Readback.Alike .simd (commitsSimd g x) (commitsSimd g x') := by
  refine back_foldl (back_foldl back _ fun p inside back => ?_) _ fun p inside back => ?_
  · have port := List.mem_range.mp inside
    exact back_ite (by rw [back.engine.simdReads port]) (fun on =>
      back.reader (.rd p) (reads_simd port (Bool.and_eq_true_iff.mp on).1) g) fun _ => back
  · have port := List.mem_range.mp inside
    exact back_ite (by rw [back.engine.simdWrites port]) (fun on =>
      back.writer (.wr p) (writes_simd port (Bool.and_eq_true_iff.mp on).1) g) fun _ => back

theorem simdDone (alike : Alike .simd e e') :
    ((List.range 14).all (fun p => !e'.simdReads p) && (List.range 4).all fun p => !e'.simdWrites p) =
      ((List.range 14).all (fun p => !e.simdReads p) && (List.range 4).all fun p => !e.simdWrites p) := by
  have reads : (List.range 14).all (fun p => !e'.simdReads p) =
      (List.range 14).all fun p => !e.simdReads p := by
    rw [Bool.eq_iff_iff,List.all_eq_true,List.all_eq_true]
    exact forall₂_congr fun p inside => by rw [alike.simdReads (List.mem_range.mp inside)]
  have writes : (List.range 4).all (fun p => !e'.simdWrites p) =
      (List.range 4).all fun p => !e.simdWrites p := by
    rw [Bool.eq_iff_iff,List.all_eq_true,List.all_eq_true]
    exact forall₂_congr fun p inside => by rw [alike.simdWrites (List.mem_range.mp inside)]
  rw [reads,writes]

theorem stepSimd (alike : Alike .simd e e') : AlikeStep .simd e.stepSimd e'.stepSimd := by
  have consumed : Alike .simd ((List.range 14).foldl AccelEngine.simdConsume e.ticked)
      ((List.range 14).foldl AccelEngine.simdConsume e'.ticked) :=
    alike.ticked.foldl _ fun p inside alike => alike.simdConsume (List.mem_range.mp inside)
  have produced : Alike .simd
      ((List.range 4).foldl AccelEngine.simdProduce ((List.range 14).foldl AccelEngine.simdConsume e.ticked))
      ((List.range 4).foldl AccelEngine.simdProduce
        ((List.range 14).foldl AccelEngine.simdConsume e'.ticked)) :=
    consumed.foldl _ fun p inside alike => alike.simdProduce (List.mem_range.mp inside)
  have moved := produced.sampleFifo produced.samplesSimd
  have ⟨phase,trace⟩ := moved.fabricPhase moved.requestsSimd AccelEngine.commitsSimd
    fun g _ _ back _ => commitsSimd g back
  exact alike.guarded (alikeStep_ite (by rw [moved.simdDone]) (fun _ => ⟨moved.capped,rfl⟩)
    fun _ => ⟨phase,trace⟩)

/-! ### P2 -/

theorem landP2 (alike : Alike .p2 e e') : Alike .p2 e.landP2 e'.landP2 := by
  unfold AccelEngine.landP2
  extract_lets e1 e2 e3 e4 e5 e6 f1 f2 f3 f4 f5 f6
  have a1 : Alike .p2 e1 f1 := alike_ite (alike.setting fun s => s.enOs)
    (fun _ => (alike.landsAnew .r0 rfl).landsAnew .r1 rfl) fun _ => alike
  have a7 : Alike .p2 e1.land7 f1.land7 := a1.update (fun _ => AccelEngine.land7) (fun _ _ => rfl)
    fun _ _ => ⟨rfl,rfl,rfl,rfl,rfl,fun _ => id⟩
  have a2 : Alike .p2 e2 f2 := a7.lands .r10 rfl
  have a4 : Alike .p2 e4 f4 := by
    refine alike_ite (a2.setting fun s => s.swEn) (fun on => ?_) fun _ => a2
    have on3 : e3.shape.swEn = true := by
      unfold e3
      rw [landsAnew_shape,landsAnew_shape]
      exact on
    have a3 : Alike .p2 e3 f3 :=
      (a2.landsAnew .r2sw on).landsAnew .r3sw (by rw [landsAnew_shape]; exact on)
    exact a3.landsSpare on3
  have a6 : Alike .p2 e6 f6 := by
    refine alike_ite (a4.setting fun s => s.enIsc) (fun _ => ?_) fun _ => a4
    have a5 : Alike .p2 e5 f5 := (a4.landsAnew .r11 rfl).landsAnew .r12 rfl
    exact alike_ite (a5.setting fun s => s.r13En)
      (fun on => a5.lands .r13 (Bool.or_eq_true_iff.mpr (.inl on))) fun _ => a5
  exact alike_ite (a6.setting fun s => s.sucStateLd)
    (fun on => a6.lands .r13 (Bool.or_eq_true_iff.mpr (.inr on))) fun _ => a6

theorem marksStart (alike : Alike .p2 e e') (suc isc : Bool) :
    Alike .p2 (e.marksStart suc isc) (e'.marksStart suc isc) :=
  alike.update (fun _ e => e.marksStart suc isc) (fun _ _ => rfl)
    fun _ _ => ⟨rfl,rfl,rfl,rfl,rfl,fun _ => id⟩

theorem sucRel (alike : Alike .p2 e e') : e'.sucRel = e.sucRel :=
  alike.same fun s e => !s.enOs || e.ctl.relR10 || decide (s.r10Cnt ≤ e.ctl.gR10)

theorem iscRel (alike : Alike .p2 e e') : e'.iscRel = e.iscRel :=
  alike.same fun s e => s.enIsc && (e.ctl.relR11 || decide (s.r11Cnt ≤ e.ctl.gR11))

theorem refresh7 (alike : Alike .p2 e e') : Alike .p2 e.refresh7 e'.refresh7 := by
  unfold AccelEngine.refresh7
  extract_lets _ e1 _ _ f1 _
  have room : ((List.range 4).all fun l => decide (e'.su.agu7 - e'.su.issued l < e'.shape.r7FifoD)) =
      (List.range 4).all fun l => decide (e.su.agu7 - e.su.issued l < e.shape.r7FifoD) :=
    alike.same fun s e => (List.range 4).all fun l => decide (e.su.agu7 - e.su.issued l < s.r7FifoD)
  have a1 : Alike .p2 e1 f1 := alike_ite (by rw [room]) (fun _ =>
    alike.update (fun _ e => { e with su := { e.su with agu7 := e.su.agu7 + 1 } }) (fun _ _ => rfl)
      fun _ _ => ⟨rfl,rfl,rfl,rfl,rfl,fun _ => id⟩) fun _ => alike
  have su : f1.su = e1.su := a1.same fun _ e => e.su
  exact alike_ite (by rw [landed7,landed7,su]) (fun _ =>
    a1.update (fun _ e => { e with su := { e.su with consumed7 := e.su.consumed7 + 4, haveBc := true } })
      (fun _ _ => rfl) fun _ _ => ⟨rfl,rfl,rfl,rfl,rfl,fun _ => id⟩) fun _ => a1

theorem switchStep (alike : Alike .p2 e e') : Alike .p2 e.switchStep e'.switchStep := by
  have sw : e'.sw = e.sw := alike.same fun _ e => e.sw
  have su : e'.su = e.su := alike.same fun _ e => e.su
  have swEn : e'.shape.swEn = e.shape.swEn := alike.same fun s _ => s.swEn
  have iters : e'.shape.iters = e.shape.iters := alike.same fun s _ => s.iters
  have swCyc : e'.shape.swCyc = e.shape.swCyc := alike.same fun s _ => s.swCyc
  unfold AccelEngine.switchStep
  extract_lets need _ e1 need' _ f1
  have needed : need' = need := by
    unfold need need'
    rw [sw]
  refine alike_ite (by rw [swEn,sw,iters,su]) (fun more => ?_) fun _ => alike
  have on : e.shape.swEn = true := (Bool.and_eq_true_iff.mp (Bool.and_eq_true_iff.mp more).1).1
  refine alike_ite (by rw [needed,alike.occ .r2sw on,alike.occ .r3sw on]) (fun _ => ?_) fun _ => alike
  refine alike_ite (by rw [sw,iters,swCyc]) (fun _ => ?_) fun _ => ?_
  · exact alike.update (fun s e => { e with sw := { e.sw with swAcc := e.sw.swAcc + s.iters } })
      (fun _ _ => rfl) fun _ _ => ⟨rfl,rfl,rfl,rfl,rfl,fun _ => id⟩
  · have a1 : Alike .p2 e1 f1 := alike_ite (by rw [needed])
      (fun _ => (alike.pops .r2sw on).pops .r3sw on) fun _ => alike
    exact a1.update (fun s e => { e with sw :=
          { swAcc := e.sw.swAcc + s.iters - s.swCyc
            swFirst := if e.sw.swDt = 0 then e.ctl.cyc else e.sw.swFirst
            swDt := e.sw.swDt + 1
            swLast := e.ctl.cyc } })
      (fun _ _ => rfl) fun _ _ => ⟨rfl,rfl,rfl,rfl,rfl,fun _ => id⟩

theorem scanStep (alike : Alike .p2 e e') (released : Bool) :
    Alike .p2 (e.scanStep released) (e'.scanStep released) := by
  have sw : e'.sw = e.sw := alike.same fun _ e => e.sw
  have su : e'.su = e.su := alike.same fun _ e => e.su
  have swEn : e'.shape.swEn = e.shape.swEn := alike.same fun s _ => s.swEn
  have iters : e'.shape.iters = e.shape.iters := alike.same fun s _ => s.iters
  unfold AccelEngine.scanStep
  extract_lets _ _ _ e1 _ _ e2 e3 _ _ _ _ f1 _ _ f2 f3 _
  refine alike_ite (by rw [swEn,sw,iters,su,alike.occ .r10 rfl]) (fun _ => ?_) fun _ => alike
  have a1 : Alike .p2 e1 f1 := alike.update (fun s e => { e with
      su := { e.su with outSu := e.su.outSu + 1, yInWord := e.su.yInWord + 1 }
      ctl := { e.ctl with gR11 := e.ctl.gR11 + 1 }
      res := if s.recFires then
          { e.res with r11Fire := e.res.r11Fire ++ [BitVec.ofNat 32 e.ctl.cyc] }
        else e.res }) (fun _ _ => rfl) fun _ _ => ⟨rfl,rfl,rfl,rfl,rfl,fun _ => id⟩
  have su1 : f1.su = e1.su := a1.same fun _ e => e.su
  have a2 : Alike .p2 e2 f2 := alike_ite (by rw [su1]) (fun _ =>
    (a1.pushes .w2 rfl).update (fun _ e => { e with su := { e.su with yInWord := 0 } }) (fun _ _ => rfl)
      fun _ _ => ⟨rfl,rfl,rfl,rfl,rfl,fun _ => id⟩) fun _ => a1
  have su2 : f2.su = e2.su := a2.same fun _ e => e.su
  have a3 : Alike .p2 e3 f3 := alike_ite (by rw [su2]) (fun _ => a2.pops .r10 rfl) fun _ => a2
  exact a3.update (fun _ e => { e with su := { e.su with
      k7 := if e.su.k7 + 1 = 4 then 0 else e.su.k7 + 1
      haveBc := if e.su.k7 + 1 = 4 then false else e.su.haveBc } }) (fun _ _ => rfl)
    fun _ _ => ⟨rfl,rfl,rfl,rfl,rfl,fun _ => id⟩

theorem stateCarry (alike : Alike .p2 e e') : Alike .p2 e.stateCarry e'.stateCarry := by
  have loads : (e'.shape.sucStateLd && decide (0 < e'.occ .r13) && decide (0 < e'.shape.iters) &&
      decide (e'.su.r13Pop * e'.shape.iters ≤ e'.su.outSu * e'.shape.r13Tot + e'.shape.iters)) =
      (e.shape.sucStateLd && decide (0 < e.occ .r13) && decide (0 < e.shape.iters) &&
        decide (e.su.r13Pop * e.shape.iters ≤ e.su.outSu * e.shape.r13Tot + e.shape.iters)) := by
    have su : e'.su = e.su := alike.same fun _ e => e.su
    have iters : e'.shape.iters = e.shape.iters := alike.same fun s _ => s.iters
    have total : e'.shape.r13Tot = e.shape.r13Tot := alike.same fun s _ => s.r13Tot
    have enabled : e'.shape.sucStateLd = e.shape.sucStateLd := alike.same fun s _ => s.sucStateLd
    rw [enabled,su,iters,total]
    cases on : e.shape.sucStateLd with
    | true => rw [alike.occ .r13 (Bool.or_eq_true_iff.mpr (.inr on))]
    | false => rfl
  unfold AccelEngine.stateCarry
  extract_lets _ _ e1 _ _ _ _ f1 _ _
  have a1 : Alike .p2 e1 f1 := by
    refine alike_ite (by rw [loads]) (fun more => ?_) fun _ => alike
    have on := (Bool.and_eq_true_iff.mp (Bool.and_eq_true_iff.mp (Bool.and_eq_true_iff.mp more).1).1).1
    exact (alike.pops .r13 (Bool.or_eq_true_iff.mpr (.inr on))).update
      (fun _ e => { e with su := { e.su with r13Pop := e.su.r13Pop + 1 } }) (fun _ _ => rfl)
      fun _ _ => ⟨rfl,rfl,rfl,rfl,rfl,fun _ => id⟩
  have saves : f1.savesState = e1.savesState := a1.same fun s e =>
    s.sucStateSv && decide (e.su.w3Push < s.w3stTot) && decide (0 < s.iters) &&
      decide ((e.su.w3Push + 1) * s.iters ≤ e.su.outSu * s.w3stTot)
  exact alike_ite (Iff.of_eq (congrArg (· = true) saves)) (fun _ => (a1.pushes .w3 rfl).update
    (fun _ e => { e with su := { e.su with w3Push := e.su.w3Push + 1 } }) (fun _ _ => rfl)
      fun _ _ => ⟨rfl,rfl,rfl,rfl,rfl,fun _ => id⟩) fun _ => a1

theorem isCoreP2 (alike : Alike .p2 e e') (released : Bool) :
    Alike .p2 (e.isCoreP2 released) (e'.isCoreP2 released) := by
  have isc : e'.isc = e.isc := alike.same fun _ e => e.isc
  have tiles : e'.shape.nTilesIs = e.shape.nTilesIs := alike.same fun s _ => s.nTilesIs
  unfold AccelEngine.isCoreP2
  extract_lets _ e1 e2 e3 _ _ f1 f2 f3 _
  refine alike_ite (by rw [isc,tiles]) (fun _ => ?_) fun _ => alike
  refine alike_ite (by rw [isc]) (fun _ => ?_) fun _ => ?_
  · exact alike.update (fun _ e => { e with isc := { e.isc with iscAload := e.isc.iscAload - 1 } })
      (fun _ _ => rfl) fun _ _ => ⟨rfl,rfl,rfl,rfl,rfl,fun _ => id⟩
  · refine alike_ite (by rw [alike.occ .r11 rfl,alike.occ .r12 rfl,alike.isFree rfl]) (fun _ => ?_)
      fun _ => alike
    have a1 : Alike .p2 e1 f1 := (alike.pops .r11 rfl).pops .r12 rfl
    have sums : (f1.shape.r13En && decide (0 < f1.occ .r13)) = (e1.shape.r13En && decide (0 < e1.occ .r13)) := by
      have same : f1.shape.r13En = e1.shape.r13En := a1.same fun s _ => s.r13En
      rw [same]
      cases on : e1.shape.r13En with
      | true => rw [a1.occ .r13 (Bool.or_eq_true_iff.mpr (.inl on))]
      | false => rfl
    have a2 : Alike .p2 e2 f2 := alike_ite (by rw [sums]) (fun more =>
      a1.pops .r13 (Bool.or_eq_true_iff.mpr (.inl (Bool.and_eq_true_iff.mp more).1))) fun _ => a1
    have a3 : Alike .p2 e3 f3 := a2.isArray rfl
    have isc3 : f3.isc = e3.isc := a3.same fun _ e => e.isc
    have dFinal : f3.shape.dFinal = e3.shape.dFinal := a3.same fun s _ => s.dFinal
    refine alike_ite (by rw [isc3,dFinal]) (fun _ => ?_) fun _ => ?_
    · exact a3.update (fun s e => { e with isc := { e.isc with iscSinceA := 0, iscAload := s.serDesA } })
        (fun _ _ => rfl) fun _ _ => ⟨rfl,rfl,rfl,rfl,rfl,fun _ => id⟩
    · exact a3.update (fun _ e => { e with isc := { e.isc with iscSinceA := e.isc.iscSinceA + 1 } })
        (fun _ _ => rfl) fun _ _ => ⟨rfl,rfl,rfl,rfl,rfl,fun _ => id⟩

theorem coresP2 (alike : Alike .p2 e e') (suc isc : Bool) :
    Alike .p2 (e.coresP2 suc isc) (e'.coresP2 suc isc) := by
  unfold AccelEngine.coresP2
  extract_lets e1 f1
  have a1 : Alike .p2 e1 f1 := alike_ite (alike.setting fun s => s.enOs)
    (fun _ => (alike.osDrip rfl rfl).osArray rfl true (fun alike => alike.osTile rfl) rfl rfl) fun _ => alike
  exact ((((a1.refresh7.switchStep).scanStep suc).stateCarry).isDrip rfl rfl).isCoreP2 isc

theorem marksEnd (alike : Alike .p2 e e') : Alike .p2 e.marksEnd e'.marksEnd := by
  have w0 := alike.writers .w0 rfl
  unfold AccelEngine.marksEnd
  rw [w0]
  exact alike.update (fun s a => { a with res := { a.res with
      oscEnd := if a.res.oscEnd = 0 ∧ a.os.tilesOs = s.nTilesOs ∧
          s.wz ≤ (e.writers .w0).written then a.ctl.cyc else a.res.oscEnd
      sucEnd := if a.res.sucEnd = 0 ∧ s.iters ≤ a.su.outSu then a.ctl.cyc else a.res.sucEnd } })
    (fun _ _ => rfl) fun _ _ => ⟨rfl,rfl,rfl,rfl,rfl,fun _ => id⟩

theorem finishP2 (alike : Alike .p2 e e') : Alike .p2 e.finishP2 e'.finishP2 :=
  alike.update (fun _ => AccelEngine.finishP2) (fun _ _ => rfl) fun _ _ => ⟨rfl,rfl,rfl,rfl,rfl,fun _ => id⟩

theorem isDoneP2 (alike : Alike .p2 e e') : e'.isDoneP2 = e.isDoneP2 := by
  have su : e'.su = e.su := alike.same fun _ e => e.su
  have enIsc : e'.shape.enIsc = e.shape.enIsc := alike.same fun s _ => s.enIsc
  have iters : e'.shape.iters = e.shape.iters := alike.same fun s _ => s.iters
  have saves : e'.shape.sucStateSv = e.shape.sucStateSv := alike.same fun s _ => s.sucStateSv
  have total : e'.shape.w3stTot = e.shape.w3stTot := alike.same fun s _ => s.w3stTot
  rw [AccelEngine.isDoneP2,AccelEngine.isDoneP2,enIsc,alike.isDone rfl rfl,su,iters,saves,total,
    alike.drained .w2 rfl,alike.writers .w3 rfl]

theorem dtBCPosts (alike : Alike .p2 e e') : e'.dtBCPosts = e.dtBCPosts := by
  have su : e'.su = e.su := alike.same fun _ e => e.su
  have ports : e'.shape.ports = e.shape.ports := alike.same fun s _ => s.ports
  have wants : e'.wants7 = e.wants7 :=
    (⟨alike,rfl⟩ : Readback.Alike .p2 ⟨e,[]⟩ ⟨e',[]⟩).wants7
  rw [AccelEngine.dtBCPosts,AccelEngine.dtBCPosts,wants,su,ports]

theorem sparePosts (alike : Alike .p2 e e') (sw : e.shape.swEn = true) :
    (if (e'.readers .r5sw).active then e'.readerPosts .r5sw else []) =
      if (e.readers .r5sw).active then e.readerPosts .r5sw else [] := by
  cases on : (e.shape.ports 5).enabled with
  | true =>
    have needed : Kind.reads .p2 e.shape .r5sw = true := Bool.and_eq_true_iff.mpr ⟨sw,on⟩
    exact list_ite (alike.readers .r5sw needed).active fun _ => alike.readerPosts .r5sw needed
  | false =>
    obtain ⟨left,right⟩ := alike.spare rfl sw on
    rw [AccelEngine.readerPosts,AccelEngine.readerPosts,left.proposals,right.proposals]
    simp only [List.map_nil,ite_self]

theorem requestsP2 (alike : Alike .p2 e e') (suc isc : Bool) :
    e'.requestsP2 suc isc = e.requestsP2 suc isc := by
  have enOs : e'.shape.enOs = e.shape.enOs := alike.same fun s _ => s.enOs
  have swEn : e'.shape.swEn = e.shape.swEn := alike.same fun s _ => s.swEn
  have r13En : e'.shape.r13En = e.shape.r13En := alike.same fun s _ => s.r13En
  have loads : e'.shape.sucStateLd = e.shape.sucStateLd := alike.same fun s _ => s.sucStateLd
  have enIsc : e'.shape.enIsc = e.shape.enIsc := alike.same fun s _ => s.enIsc
  have saves : e'.shape.sucStateSv = e.shape.sucStateSv := alike.same fun s _ => s.sucStateSv
  have switched (on : e.shape.swEn = true) : e'.readerPosts .r2sw ++ e'.readerPosts .r3sw ++
      (if (e'.readers .r5sw).active then e'.readerPosts .r5sw else []) =
      e.readerPosts .r2sw ++ e.readerPosts .r3sw ++
        (if (e.readers .r5sw).active then e.readerPosts .r5sw else []) := by
    rw [alike.readerPosts .r2sw on,alike.readerPosts .r3sw on,alike.sparePosts on]
  rw [AccelEngine.requestsP2,AccelEngine.requestsP2,enOs,alike.readerPosts .r0 rfl,
    alike.readerPosts .r1 rfl,alike.writerPosts .w0 rfl,alike.dtBCPosts,alike.readerPosts .r10 rfl,
    alike.writerPosts .w2 rfl,list_ite swEn switched,alike.readerPosts .r11 rfl,alike.readerPosts .r12 rfl,
    list_ite r13En fun on => alike.readerPosts .r13 (Bool.or_eq_true_iff.mpr (.inl on)),
    list_ite loads fun on => alike.readerPosts .r13 (Bool.or_eq_true_iff.mpr (.inr on)),
    enIsc,saves,alike.writerPosts .w3 rfl]

/-- The released isCore is enabled, so R11 shows the words that are checked. -/
theorem commitsP2 (g : List Bool) (suc : Bool) {isc : Bool} {x x' : Readback}
    (back : Readback.Alike .p2 x x') (enabled : isc = true → x.engine.shape.enIsc = true) :
    Readback.Alike .p2 (commitsP2 suc isc g x) (commitsP2 suc isc g x') := by
  unfold AccelEngine.commitsP2
  extract_lets x1 x2 x3 x4 x5 x6 x7 x8 x9 y1 y2 y3 y4 y5 y6 y7 y8 y9
  have b1 : Readback.Alike .p2 x1 y1 := back_ite (back.engine.setting fun s => s.enOs)
    (fun _ => ((back.reader .r0 rfl g).reader .r1 rfl g).z g) fun _ => back
  have b2 : Readback.Alike .p2 x2 y2 := b1.dtBC g
  have b3 : Readback.Alike .p2 x3 y3 := by
    unfold x3 y3
    cases suc with
    | true => exact b2.readZ g
    | false => exact b2
  have b4 : Readback.Alike .p2 x4 y4 := b3.y g
  have b6 : Readback.Alike .p2 x6 y6 := back_ite (b4.engine.setting fun s => s.swEn)
    (fun on => ((b4.reader .r2sw on g).reader .r3sw on g).spare on g) fun _ => b4
  have s1 : x1.engine.shape = x.engine.shape := by
    unfold x1
    split
    · exact (commitZ_answered g _).shape
    · rfl
  have s3 : x3.engine.shape = x2.engine.shape := by
    unfold x3
    split
    · exact (commitReadZ_answered g _).shape
    · rfl
  have s6 : x6.engine.shape = x4.engine.shape := by
    unfold x6 x5
    split
    · split <;> rfl
    · rfl
  have same : x6.engine.shape = x.engine.shape :=
    (s6.trans ((commitY_answered g _).shape.trans s3)).trans ((answered_dtBC g _).shape.trans s1)
  have b8 : Readback.Alike .p2 x8 y8 := by
    unfold x8 y8
    refine back_ite Iff.rfl (fun released => ?_) fun _ => b6
    have b7 : Readback.Alike .p2 x7 y7 :=
      (b6.readY (by rw [same]; exact enabled released) g).reader .r12 rfl g
    exact back_ite (b7.engine.setting fun s => s.r13En)
      (fun on => b7.reader .r13 (Bool.or_eq_true_iff.mpr (.inl on)) g) fun _ => b7
  have b9 : Readback.Alike .p2 x9 y9 := back_ite (b8.engine.setting fun s => s.sucStateLd)
    (fun on => b8.reader .r13 (Bool.or_eq_true_iff.mpr (.inr on)) g) fun _ => b8
  exact back_ite (b9.engine.setting fun s => s.enIsc || s.sucStateSv) (fun _ => b9.writer .w3 rfl g)
    fun _ => b9

theorem samplesP2 (alike : Alike .p2 e e') : e'.samples = e.samples := by
  have kind : e'.shape.kind = e.shape.kind := alike.same fun s _ => s.kind
  have one : e.shape.kind = 1 := alike.kind
  have su : e'.su = e.su := alike.same fun _ e => e.su
  have enOs : e'.shape.enOs = e.shape.enOs := alike.same fun s _ => s.enOs
  have swEn : e'.shape.swEn = e.shape.swEn := alike.same fun s _ => s.swEn
  have ports : e'.shape.ports = e.shape.ports := alike.same fun s _ => s.ports
  have r13En : e'.shape.r13En = e.shape.r13En := alike.same fun s _ => s.r13En
  have enIsc : e'.shape.enIsc = e.shape.enIsc := alike.same fun s _ => s.enIsc
  have switched (on : e.shape.swEn = true) : [e'.readerSample 2 .r2sw,e'.readerSample 3 .r3sw] ++
      (if (e.shape.ports 5).enabled then [e'.readerSample 5 .r5sw] else []) =
      [e.readerSample 2 .r2sw,e.readerSample 3 .r3sw] ++
        (if (e.shape.ports 5).enabled then [e.readerSample 5 .r5sw] else []) := by
    rw [alike.readerSample 2 .r2sw on,alike.readerSample 3 .r3sw on,
      list_ite rfl fun five => congrArg (fun x => [x])
        (alike.readerSample 5 .r5sw (Bool.and_eq_true_iff.mpr ⟨on,five⟩))]
  have sums (on : e.shape.r13En = true) : [e'.readerSample 13 .r13] = [e.readerSample 13 .r13] := by
    rw [alike.readerSample 13 .r13 (Bool.or_eq_true_iff.mpr (.inl on))]
  simp only [AccelEngine.samples,kind,one,↓reduceIte]
  rw [alike.readerSample 0 .r0 rfl,alike.readerSample 1 .r1 rfl,alike.writerSample 14 .w0 rfl,enOs,landed7,
    landed7,su,alike.readerSample 10 .r10 rfl,alike.writerSample 16 .w2 rfl,ports,list_ite swEn switched,
    alike.readerSample 11 .r11 rfl,alike.readerSample 12 .r12 rfl,list_ite r13En sums,
    alike.writerSample 17 .w3 rfl,enIsc]

theorem beforeP2 (alike : Alike .p2 e e') : Alike .p2 e.beforeP2 e'.beforeP2 := by
  have landed := alike.landP2
  rw [AccelEngine.beforeP2,AccelEngine.beforeP2,landed.sucRel,landed.iscRel]
  exact ((landed.marksStart _ _).coresP2 _ _).marksEnd

/-- The rest of a cycle of P2, with the releases that it has found. -/
theorem afterP2 (alike : Alike .p2 e e') {suc suc' isc isc' : Bool} (suc_same : suc' = suc)
    (isc_same : isc' = isc) (enabled : isc = true → e.shape.enIsc = true) : AlikeStep .p2
      (if e.isDoneP2 then (e.finishP2,quiet) else
        ((e.fabricPhase (e.requestsP2 suc isc) (AccelEngine.commitsP2 suc isc)).1.sampleFifo,
          (e.fabricPhase (e.requestsP2 suc isc) (AccelEngine.commitsP2 suc isc)).2))
      (if e'.isDoneP2 then (e'.finishP2,quiet) else
        ((e'.fabricPhase (e'.requestsP2 suc' isc') (AccelEngine.commitsP2 suc' isc')).1.sampleFifo,
          (e'.fabricPhase (e'.requestsP2 suc' isc') (AccelEngine.commitsP2 suc' isc')).2)) := by
  subst suc_same isc_same
  have ⟨phase,trace⟩ := alike.fabricPhase (alike.requestsP2 suc' isc') (AccelEngine.commitsP2 suc' isc')
    fun g x _ back shape => commitsP2 g _ back fun released => by
      rw [shape]
      exact enabled released
  exact alikeStep_ite (by rw [alike.isDoneP2]) (fun _ => ⟨alike.finishP2,rfl⟩)
    fun _ => ⟨phase.sampleFifo phase.samplesP2,trace⟩

theorem stepP2 (alike : Alike .p2 e e') : AlikeStep .p2 e.stepP2 e'.stepP2 := by
  have landed := alike.ticked.landP2
  have still : e.ticked.beforeP2.shape = e.ticked.landP2.shape :=
    (still_beforeP2 e.ticked).shape.trans (still_core (moves_landP2 e.ticked)).shape.symm
  refine alike.guarded (alike.ticked.beforeP2.afterP2 landed.sucRel landed.iscRel fun released => ?_)
  rw [still]
  exact (Bool.and_eq_true_iff.mp released).1

/-! ### The calls -/

theorem step (alike : Alike k e e') : AlikeStep k e.step e'.step := by
  have kind : e'.shape.kind = e.shape.kind := by cases k <;> exact alike.same fun s _ => s.kind
  have code := alike.kind
  unfold AccelEngine.step
  rw [kind,code]
  cases k with
  | p2 => exact alike.stepP2
  | p1 => exact alike.stepP1
  | os => exact alike.stepOs
  | is => exact alike.stepIs
  | simd => exact alike.stepSimd

theorem view (alike : Alike k e e') (t : Trace) : e'.view t = e.view t := by
  cases k <;> exact alike.same fun _ e => e.view t

theorem dmaEnqueue (alike : Alike k e e') (tcdmAddr bytes : BitVec 32) (l3 : Bool) (atRel : Nat) :
    Alike k { e with dma := e.dma.enqueue tcdmAddr bytes l3 atRel }
      { e' with dma := e'.dma.enqueue tcdmAddr bytes l3 atRel } := by
  have blind (e : AccelEngine) (d : DmaEngine) : k.seen { e with dma := d } = k.seen e := by cases k <;> rfl
  exact ⟨alike.kind,alike.shape,by rw [blind e,blind e']; exact alike.core,alike.dma.enqueue _ _ _ _,
    alike.readers,alike.writers,fun simd => ⟨(alike.ports simd).reads,(alike.ports simd).beats,
      (alike.ports simd).pops,(alike.ports simd).writes⟩,alike.spare,alike.loaded⟩

/-- Every call but a configuration keeps engines alike, and shows the same. -/
theorem call (alike : Alike k e e') (depth : Nat → Int) {c : Call} (goes : c.isConfigure = false) :
    Alike k (next depth e c) (next depth e' c) ∧
      (accelEngine depth).out e' c = (accelEngine depth).out e c := by
  cases c with
  | configure a => exact nomatch goes
  | step =>
    obtain ⟨kept,trace⟩ := alike.step
    refine ⟨kept,?_⟩
    change e'.step.1.view e'.step.2 = e.step.1.view e.step.2
    rw [trace,kept.view]
  | dmaEnqueue tcdmAddr bytes l3 atRel =>
    have kept := alike.dmaEnqueue tcdmAddr bytes l3 atRel
    exact ⟨kept,kept.view quiet⟩
  | releaseR10 =>
    have kept := alike.update (fun _ e => { e with ctl := { e.ctl with relR10 := true } })
      (fun _ e => by cases k <;> rfl) fun _ _ => ⟨rfl,rfl,rfl,rfl,rfl,fun _ => id⟩
    exact ⟨kept,kept.view quiet⟩
  | releaseR11 =>
    have kept := alike.update (fun _ e => { e with ctl := { e.ctl with relR11 := true } })
      (fun _ e => by cases k <;> rfl) fun _ _ => ⟨rfl,rfl,rfl,rfl,rfl,fun _ => id⟩
    exact ⟨kept,kept.view quiet⟩

end Alike

end Moves

end AccelEngine
end Snax
