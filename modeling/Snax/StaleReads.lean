import Snax.GrantAttribution
import Snax.StreamerConservation

/-! The stale-read counters of P2 against the reads that are granted: a word of z is committed once
W0 has written its group, and a grant to R10 reads the word at the loop position of its group; W2
and R11 are the same for y. -/
namespace Snax.AccelEngine

/-! ### The words a writer has committed -/

/-- One of the groups written has this word. -/
def committed (w : CycWriter) (off : Int) : Bool :=
  (List.range w.written.toNat).any fun k => wordOff w.cfg.ts (CycWriter.position w.cfg.eb k) == off

/-- A word of the extent that nobody has written; `loaded` is for words that were there at the start. -/
def uncommitted (w : CycWriter) (loaded : Bool) (extent off : Int) : Bool :=
  decide (0 ≤ off) && decide (off < extent) && !(loaded || committed w off)

/-- The marks of the engine agree with the writer. -/
structure Marked (w : CycWriter) (loaded : Bool) (extent : Int) (mark : Int → Bool) : Prop where
  written : 0 ≤ w.written
  ti : w.ti = CycWriter.position w.cfg.eb w.written.toNat
  mark : ∀ off, 0 ≤ off → off < extent → mark off = (loaded || committed w off)

theorem commitFlags_cases (w : CycWriter) (g : List Bool) (gi : Nat) :
    (w.commitFlags g gi).1.cfg = w.cfg ∧
    ((w.commitFlags g gi).1.written = w.written ∧ (w.commitFlags g gi).1.ti = w.ti ∨
      (w.commitFlags g gi).1.written = w.written + 1 ∧
        (w.commitFlags g gi).1.ti = CycWriter.advance w.cfg.eb w.ti) := by
  rw [CycWriter.commitFlags_eq,CycWriter.commit]
  refine ⟨rfl,?_⟩
  split
  · exact .inl ⟨rfl,rfl⟩
  · simp only
    split
    · exact .inr ⟨rfl,rfl⟩
    · exact .inl ⟨rfl,rfl⟩

theorem committed_of_same {w w' : CycWriter} (cfg : w'.cfg = w.cfg) (written : w'.written = w.written) :
    committed w' = committed w := by
  funext off
  rw [committed,committed,cfg,written]

/-- The commit of a writer with its mark. -/
theorem Marked.commit {w : CycWriter} {loaded : Bool} {extent : Int} {mark : Int → Bool}
    (marked : Marked w loaded extent mark) (g : List Bool) (gi : Nat) :
    Marked (w.commitFlags g gi).1 loaded extent
      (if w.written < (w.commitFlags g gi).1.written ∧ 0 ≤ wordOff w.cfg.ts w.ti ∧
          wordOff w.cfg.ts w.ti < extent then
        fun off => if off = wordOff w.cfg.ts w.ti then true else mark off else mark) := by
  obtain ⟨cfg,⟨written,ti⟩ | ⟨written,ti⟩⟩ := commitFlags_cases w g gi
  · rw [if_neg (by omega)]
    refine ⟨by rw [written]; exact marked.written,by rw [ti,cfg,written]; exact marked.ti,?_⟩
    rw [committed_of_same cfg written]
    exact marked.mark
  · have positive := marked.written
    have count : (w.written + 1).toNat = w.written.toNat + 1 := by omega
    have more (off : Int) : committed (w.commitFlags g gi).1 off =
        (committed w off || wordOff w.cfg.ts w.ti == off) := by
      rw [committed,committed,cfg,written,count,List.range_succ,List.any_append,marked.ti]
      simp
    refine ⟨by omega,?_,fun off above below => ?_⟩
    · rw [ti,cfg,written,count,marked.ti,CycWriter.advance_position]
    · rw [more]
      have before := marked.mark off above below
      by_cases here : off = wordOff w.cfg.ts w.ti
      · subst here
        rw [if_pos ⟨by omega,above,below⟩]
        simp
      · have other : (wordOff w.cfg.ts w.ti == off) = false :=
          beq_false_of_ne fun same => here same.symm
        rw [other,Bool.or_false]
        split
        · exact (if_neg here).trans before
        · exact before

/-! ### The detector -/

/-- The word of the group that the reader is granted next. -/
def wordNext (r : CycReader) : Int := wordOff r.cfg.ts (r.position (r.laneIssued 0))

/-- The word at the position that the reader shows, that of its last grant. -/
def wordShown (r : CycReader) : Int := wordOff r.cfg.ts r.ti

/-- The detector sees a grant as the claim counts it: after a cycle without one the two words have
the same verdict, after a granted one the next word is fine. -/
def Examined (r : CycReader) (stale : Int → Bool) : Prop :=
  if r.pendingPush = 0 then stale (wordShown r) = stale (wordNext r) else stale (wordNext r) = false

instance (r : CycReader) (stale : Int → Bool) : Decidable (Examined r stale) := by
  unfold Examined
  infer_instance

/-- A reader of one lane, which the last cycle has granted once or not at all. -/
structure Single (r : CycReader) : Prop where
  lane : r.cfg.numChannel = 1
  pushed : r.pendingPush = 0 ∨ r.pendingPush = 1

/-- The reader is granted between two states. -/
def granted (r r' : CycReader) : Bool := r'.laneIssued 0 != r.laneIssued 0

theorem commit_single {r : CycReader} (single : Single r) (g : List Bool) (gi : Nat) :
    Single (r.commit g gi).1 ∧
    ((r.commit g gi).1.pendingPush = if granted r (r.commit g gi).1 then 1 else 0) := by
  have pushes : (r.commit g gi).1.pendingPush = ((r.active && r.answer g gi 0).toNat : Int) := by
    rw [CycReader.commit_eq]
    cases r.active with
    | false => rfl
    | true =>
      simp only [↓reduceIte,single.lane,CycReader.grantAll]
      cases won : r.answer g gi 0 <;> simp [List.range_succ,won]
  have issued : (r.commit g gi).1.laneIssued 0 = r.laneIssued 0 + (r.active && r.answer g gi 0).toNat :=
    laneIssued_commit r g gi (by rw [single.lane]; exact Nat.one_pos)
  have same : granted r (r.commit g gi).1 = (r.active && r.answer g gi 0) := by
    rw [granted,issued]
    cases r.active && r.answer g gi 0 <;> simp
  have cfg : (r.commit g gi).1.cfg = r.cfg := by
    rw [CycReader.commit_eq]
    simp only
    split <;> rfl
  refine ⟨⟨by rw [cfg]; exact single.lane,?_⟩,?_⟩
  · rw [pushes]
    cases r.active && r.answer g gi 0 <;> simp
  · rw [pushes,same]
    cases r.active && r.answer g gi 0 <;> rfl

/-- What the detector adds to its counter. -/
def detected (r r' : CycReader) (stale : Int → Bool) : Nat :=
  if r.pendingPush < r'.pendingPush ∧ stale (wordShown r) = true then 1 else 0

/-- The detector is right about a cycle if and only if its grant is examined. -/
theorem detected_iff {r r' : CycReader} (single : Single r)
    (pushes : r'.pendingPush = if granted r r' then 1 else 0) (stale : Int → Bool) :
    detected r r' stale = (granted r r' && stale (wordNext r)).toNat ↔
      (granted r r' = true → Examined r stale) := by
  rw [detected,pushes,Examined]
  cases granted r r' with
  | false =>
    have positive : ¬ r.pendingPush < 0 := by have := single.pushed; omega
    simp [positive]
  | true =>
    rcases single.pushed with zero | one
    · rw [zero]
      cases stale (wordShown r) <;> cases stale (wordNext r) <;> simp
    · rw [one]
      cases stale (wordNext r) <;> simp

/-! ### The commit pass -/

/-- The reader of the words, their writer, their marks and the counter. -/
def viewZ (e : AccelEngine) : CycReader × CycWriter × (Int → Bool) × Nat :=
  (e.readers .r10,e.writers .w0,e.os.zwr,e.res.staleZ)

def viewY (e : AccelEngine) : CycReader × CycWriter × (Int → Bool) × Nat :=
  (e.readers .r11,e.writers .w2,e.su.ywr,e.res.staleY)

/-- The marks after a commit of their writer. -/
def marksAfter (w w' : CycWriter) (extent : Int) (mark : Int → Bool) : Int → Bool :=
  if w.written < w'.written ∧ 0 ≤ wordOff w.cfg.ts w.ti ∧ wordOff w.cfg.ts w.ti < extent then
    fun off => if off = wordOff w.cfg.ts w.ti then true else mark off
  else mark

def unmarked (extent : Int) (mark : Int → Bool) (off : Int) : Bool :=
  decide (0 ≤ off) && decide (off < extent) && !mark off

/-- The view after a commit of the writer, where it has one, and then of the reader. -/
def viewAfter (v : CycReader × CycWriter × (Int → Bool) × Nat) (extent : Int) (writes reads : Bool)
    (g : List Bool) (gi gj : Nat) : CycReader × CycWriter × (Int → Bool) × Nat :=
  let w := if writes then (v.2.1.commitFlags g gi).1 else v.2.1
  let mark := if writes then marksAfter v.2.1 w extent v.2.2.1 else v.2.2.1
  let r := if reads then (v.1.commit g gj).1 else v.1
  (r,w,mark,v.2.2.2 + if reads then detected v.1 r (unmarked extent mark) else 0)

theorem viewZ_commitZ (g : List Bool) (x : Readback) : viewZ (commitZ g x).engine =
    viewAfter (viewZ x.engine) x.engine.shape.wz true false g x.consulted.length 0 := by
  simp only [viewAfter,viewZ,marksAfter,commitZ,commitWriter,setWriter,↓reduceIte]
  split <;> rfl

theorem viewAfter_reads (v : CycReader × CycWriter × (Int → Bool) × Nat) (extent : Int) (g : List Bool)
    (gi gj : Nat) : viewAfter v extent false true g gi gj = ((v.1.commit g gj).1,v.2.1,v.2.2.1,
      v.2.2.2 + detected v.1 (v.1.commit g gj).1 (unmarked extent v.2.2.1)) := rfl

theorem unmarked_iff (extent : Int) (mark : Int → Bool) (off : Int) : unmarked extent mark off = true ↔
    0 ≤ off ∧ off < extent ∧ mark off = false := by
  simp [unmarked,and_assoc]

theorem viewZ_commitReadZ (g : List Bool) (x : Readback) : viewZ (commitReadZ g x).engine =
    viewAfter (viewZ x.engine) x.engine.shape.wz false true g 0 x.consulted.length := by
  have object : (commitReader g x .r10).engine.readers .r10 =
      ((x.engine.readers .r10).commit g x.consulted.length).1 := by simp [commitReader,setReader]
  have shape : (commitReader g x .r10).engine.shape = x.engine.shape := rfl
  have marks : (commitReader g x .r10).engine.os = x.engine.os := rfl
  rw [viewAfter_reads,detected,commitReadZ]
  simp only [viewZ,object,shape,marks,unmarked_iff,wordShown]
  split
  · rw [← object]
    rfl
  · rw [← object]
    rfl

theorem viewY_commitY (g : List Bool) (x : Readback) : viewY (commitY g x).engine =
    viewAfter (viewY x.engine) x.engine.shape.wy true false g x.consulted.length 0 := by
  simp only [viewAfter,viewY,marksAfter,commitY,commitWriter,setWriter,↓reduceIte]
  split <;> rfl

theorem viewY_commitReadY (g : List Bool) (x : Readback) : viewY (commitReadY g x).engine =
    viewAfter (viewY x.engine) x.engine.shape.wy false true g 0 x.consulted.length := by
  have object : (commitReader g x .r11).engine.readers .r11 =
      ((x.engine.readers .r11).commit g x.consulted.length).1 := by simp [commitReader,setReader]
  have shape : (commitReader g x .r11).engine.shape = x.engine.shape := rfl
  have marks : (commitReader g x .r11).engine.su = x.engine.su := rfl
  rw [viewAfter_reads,detected,commitReadY]
  simp only [viewY,object,shape,marks,unmarked_iff,wordShown]
  split
  · rw [← object]
    rfl
  · rw [← object]
    rfl

/-- Both views. -/
def views (e : AccelEngine) := (viewZ e,viewY e)

theorem views_commitReader (g : List Bool) (x : Readback) {id : ReaderId} (other : id ≠ .r10 ∧ id ≠ .r11) :
    views (commitReader g x id).engine = views x.engine := by
  simp [views,viewZ,viewY,commitReader,setReader,Ne.symm other.1,Ne.symm other.2]

theorem views_commitWriter (g : List Bool) (x : Readback) {id : WriterId} (other : id ≠ .w0 ∧ id ≠ .w2) :
    views (commitWriter g x id).engine = views x.engine := by
  simp [views,viewZ,viewY,commitWriter,setWriter,Ne.symm other.1,Ne.symm other.2]

theorem views_commitDtBC (g : List Bool) (x : Readback) :
    views (commitDtBC g x).engine = views x.engine := by
  rw [commitDtBC,foldl_commitLane7]
  rfl

theorem viewY_commitZ (g : List Bool) (x : Readback) : viewY (commitZ g x).engine = viewY x.engine := by
  rw [commitZ]
  split <;> rfl

theorem viewY_commitReadZ (g : List Bool) (x : Readback) :
    viewY (commitReadZ g x).engine = viewY x.engine := by
  rw [commitReadZ]
  split <;> rfl

theorem viewZ_commitY (g : List Bool) (x : Readback) : viewZ (commitY g x).engine = viewZ x.engine := by
  rw [commitY]
  split <;> rfl

theorem viewZ_commitReadY (g : List Bool) (x : Readback) :
    viewZ (commitReadY g x).engine = viewZ x.engine := by
  rw [commitReadY]
  split <;> rfl

theorem viewAfter_both (v : CycReader × CycWriter × (Int → Bool) × Nat) (extent : Int)
    (writes reads : Bool) (g : List Bool) (gi gj : Nat) :
    viewAfter (viewAfter v extent writes false g gi 0) extent false reads g 0 gj =
      viewAfter v extent writes reads g gi gj := rfl

theorem views_ite {c : Prop} [Decidable c] {a b : Readback}
    {v : (CycReader × CycWriter × (Int → Bool) × Nat) × (CycReader × CycWriter × (Int → Bool) × Nat)}
    (yes : views a.engine = v) (no : views b.engine = v) : views (if c then a else b).engine = v := by
  split
  · exact yes
  · exact no

/-- A commit of P2 on the two views: W0, R10, W2 and R11 in this order, where they commit. -/
theorem commitsP2_views (suc isc : Bool) (g : List Bool) (x : Readback) :
    (∃ gi gj, viewZ (commitsP2 suc isc g x).engine =
      viewAfter (viewZ x.engine) x.engine.shape.wz x.engine.shape.enOs suc g gi gj) ∧
    ∃ gi gj, viewY (commitsP2 suc isc g x).engine =
      viewAfter (viewY x.engine) x.engine.shape.wy true isc g gi gj := by
  unfold commitsP2
  extract_lets x1 x2 x3 x4 x5 x6 x7 x8 x9
  have arrays : views (commitReader g (commitReader g x .r0) .r1).engine = views x.engine :=
    (views_commitReader g _ (by decide)).trans (views_commitReader g x (by decide))
  have z1 : ∃ gi, viewZ x1.engine =
      viewAfter (viewZ x.engine) x.engine.shape.wz x.engine.shape.enOs false g gi 0 := by
    cases written : x.engine.shape.enOs with
    | false => exact ⟨0,by simp only [x1,written,Bool.false_eq_true,↓reduceIte]; rfl⟩
    | true =>
      have view := viewZ_commitZ g (commitReader g (commitReader g x .r0) .r1)
      have same : viewZ (commitReader g (commitReader g x .r0) .r1).engine = viewZ x.engine :=
        congrArg Prod.fst arrays
      rw [same] at view
      exact ⟨_,by simp only [x1,written,↓reduceIte]; exact view⟩
  have y1 : viewY x1.engine = viewY x.engine := by
    unfold x1
    split
    · exact (viewY_commitZ g _).trans (congrArg Prod.snd arrays)
    · rfl
  have shape1 : x1.engine.shape = x.engine.shape := by
    unfold x1
    split
    · exact (commitZ_answered g _).shape
    · rfl
  have same2 : views x2.engine = views x1.engine := views_commitDtBC g x1
  have shape2 : x2.engine.shape = x.engine.shape := (answered_dtBC g x1).shape.trans shape1
  have z3 : ∃ gj, viewZ x3.engine = viewAfter (viewZ x2.engine) x.engine.shape.wz false suc g 0 gj := by
    cases reads : suc with
    | false => exact ⟨0,by simp only [x3,reads,Bool.false_eq_true,↓reduceIte]; rfl⟩
    | true =>
      have view := viewZ_commitReadZ g x2
      rw [shape2] at view
      exact ⟨_,by simp only [x3,reads,↓reduceIte]; exact view⟩
  have y3 : viewY x3.engine = viewY x2.engine := by
    unfold x3
    split
    · exact viewY_commitReadZ g x2
    · rfl
  have shape3 : x3.engine.shape = x.engine.shape :=
    (answered_ite g suc (commitReadZ_answered g x2)).shape.trans shape2
  have y4 : viewY x4.engine =
      viewAfter (viewY x3.engine) x.engine.shape.wy true false g x3.consulted.length 0 := by
    rw [← shape3]
    exact viewY_commitY g x3
  have z4 : viewZ x4.engine = viewZ x3.engine := viewZ_commitY g x3
  have same5 : views x5.engine = views x4.engine :=
    (views_commitReader g _ (by decide)).trans (views_commitReader g x4 (by decide))
  have same6 : views x6.engine = views x4.engine :=
    views_ite (views_ite ((views_commitReader g x5 (by decide)).trans same5) same5) rfl
  have shape6 : x6.engine.shape = x.engine.shape := by
    have switched := (answered_ite g x4.engine.shape.swEn (answered_switch g x4 rfl)).shape
    exact switched.trans ((commitY_answered g x3).shape.trans shape3)
  have y8 : ∃ gj, viewY x8.engine = viewAfter (viewY x6.engine) x.engine.shape.wy false isc g 0 gj := by
    cases reads : isc with
    | false => exact ⟨0,by simp only [x8,reads,Bool.false_eq_true,↓reduceIte]; rfl⟩
    | true =>
      have view := viewY_commitReadY g x6
      rw [shape6] at view
      have same7 : views x7.engine = views (commitReadY g x6).engine :=
        views_commitReader g _ (by decide)
      have same8 : views x8.engine = views (commitReadY g x6).engine := by
        simp only [x8,reads,↓reduceIte]
        exact views_ite ((views_commitReader g x7 (by decide)).trans same7) same7
      exact ⟨_,(congrArg Prod.snd same8).trans view⟩
  have z8 : viewZ x8.engine = viewZ x6.engine := by
    have same7 : viewZ x7.engine = viewZ x6.engine :=
      (congrArg Prod.fst (views_commitReader g _ (by decide))).trans (viewZ_commitReadY g x6)
    unfold x8
    split
    · split
      · exact (congrArg Prod.fst (views_commitReader g x7 (by decide))).trans same7
      · exact same7
    · rfl
  have same9 : views x9.engine = views x8.engine := views_ite (views_commitReader g x8 (by decide)) rfl
  have last : views (if x9.engine.shape.enIsc || x9.engine.shape.sucStateSv then commitWriter g x9 .w3
      else x9).engine = views x8.engine :=
    views_ite ((views_commitWriter g x9 (by decide)).trans same9) same9
  obtain ⟨gi,z1⟩ := z1
  obtain ⟨gj,z3⟩ := z3
  obtain ⟨gk,y8⟩ := y8
  refine ⟨⟨gi,gj,?_⟩,⟨x3.consulted.length,gk,?_⟩⟩
  · have whole : viewZ x8.engine = viewZ x3.engine :=
      z8.trans ((congrArg Prod.fst same6).trans z4)
    rw [show viewZ _ = viewZ x8.engine from congrArg Prod.fst last,whole,z3,
      show viewZ x2.engine = viewZ x1.engine from congrArg Prod.fst same2,z1,viewAfter_both]
  · rw [show viewY _ = viewY x8.engine from congrArg Prod.snd last,y8,
      show viewY x6.engine = viewY x4.engine from congrArg Prod.snd same6,y4,y3,
      show viewY x2.engine = viewY x1.engine from congrArg Prod.snd same2,y1,viewAfter_both]

/-! ### A cycle -/

/-- The reader is granted a word that is stale. -/
def readsStale (r r' : CycReader) (stale : Int → Bool) : Bool := granted r r' && stale (wordNext r)

/-- A cycle that the detector judges as the claim does. -/
def Fair (r r' : CycReader) (stale : Int → Bool) : Prop := granted r r' = true → Examined r stale

/-- What the views keep from cycle to cycle. -/
structure Watched (v : CycReader × CycWriter × (Int → Bool) × Nat) (loaded : Bool) (extent : Int) :
    Prop where
  single : Single v.1
  marked : Marked v.2.1 loaded extent v.2.2.1

/-- The count of the cycle is right if and only if the cycle is fair. -/
def Counts (v v' : CycReader × CycWriter × (Int → Bool) × Nat) (loaded : Bool) (extent : Int) : Prop :=
  v'.2.2.2 = v.2.2.2 + (readsStale v.1 v'.1 (uncommitted v'.2.1 loaded extent)).toNat ↔
    Fair v.1 v'.1 (uncommitted v'.2.1 loaded extent)

theorem granted_self (r : CycReader) : granted r r = false := by simp [granted]

theorem Watched.after {v : CycReader × CycWriter × (Int → Bool) × Nat} {loaded : Bool} {extent : Int}
    (watched : Watched v loaded extent) (writes reads : Bool) (g : List Bool) (gi gj : Nat) :
    Watched (viewAfter v extent writes reads g gi gj) loaded extent ∧
    Counts v (viewAfter v extent writes reads g gi gj) loaded extent := by
  have marked : Marked (viewAfter v extent writes reads g gi gj).2.1 loaded extent
      (viewAfter v extent writes reads g gi gj).2.2.1 := by
    cases writes with
    | false => exact watched.marked
    | true => exact watched.marked.commit g gi
  have verdict : unmarked extent (viewAfter v extent writes reads g gi gj).2.2.1 =
      uncommitted (viewAfter v extent writes reads g gi gj).2.1 loaded extent := by
    funext off
    by_cases inside : 0 ≤ off ∧ off < extent
    · rw [unmarked,uncommitted,marked.mark off inside.1 inside.2]
    · rw [unmarked,uncommitted,← Bool.decide_and,decide_eq_false inside,Bool.false_and,Bool.false_and]
  cases reads with
  | false =>
    refine ⟨⟨watched.single,marked⟩,?_⟩
    have none : granted v.1 v.1 = false := granted_self v.1
    refine ⟨fun _ some => absurd (none.symm.trans some) Bool.false_ne_true,fun _ => ?_⟩
    change v.2.2.2 + 0 = _
    rw [readsStale,show granted v.1 (viewAfter v extent writes false g gi gj).1 = false from none]
    rfl
  | true =>
    obtain ⟨single,pushes⟩ := commit_single watched.single g gj
    refine ⟨⟨single,marked⟩,?_⟩
    have right := detected_iff watched.single pushes
      (unmarked extent (viewAfter v extent writes true g gi gj).2.2.1)
    rw [Counts,← verdict]
    exact Nat.add_left_cancel_iff.trans right

theorem Still.watched {e e' : AccelEngine} (still : Still e e') (going : ∀ id, (e.readers id).done = false)
    (loaded : Bool) (extent : Int) :
    (Watched (viewZ e) loaded extent → Watched (viewZ e') loaded extent) ∧
    (Watched (viewY e) loaded extent → Watched (viewY e') loaded extent) := by
  have marks := still.marks
  simp only [AccelEngine.marks,Prod.mk.injEq] at marks
  obtain ⟨zwr,ywr,_,_⟩ := marks
  have single {r r' : CycReader} (kept : KeptReader r r') (single : Single r) : Single r' :=
    ⟨by rw [kept.cfg]; exact single.lane,by rw [kept.pendingPush]; exact single.pushed⟩
  have marked {w w' : CycWriter} (kept : KeptWriter w w') {mark : Int → Bool}
      (marked : Marked w loaded extent mark) : Marked w' loaded extent mark := by
    refine ⟨by rw [kept.written]; exact marked.written,by rw [kept.ti,kept.cfg,kept.written]; exact marked.ti,?_⟩
    rw [committed_of_same kept.cfg kept.written]
    exact marked.mark
  constructor
  · intro watched
    refine ⟨single (still.readers .r10 (going .r10)) watched.single,?_⟩
    rw [viewZ,zwr]
    exact marked (still.writers .w0) watched.marked
  · intro watched
    refine ⟨single (still.readers .r11 (going .r11)) watched.single,?_⟩
    rw [viewY,ywr]
    exact marked (still.writers .w2) watched.marked

/-- A cycle in which neither reader is granted. -/
theorem Still.counts {e e' : AccelEngine} (still : Still e e') (going : ∀ id, (e.readers id).done = false)
    {loaded : Bool} {extent : Int} :
    Counts (viewZ e) (viewZ e') loaded extent ∧ Counts (viewY e) (viewY e') loaded extent := by
  have marks := still.marks
  simp only [AccelEngine.marks,Prod.mk.injEq] at marks
  obtain ⟨_,_,staleZ,staleY⟩ := marks
  have none (id : ReaderId) : granted (e.readers id) (e'.readers id) = false := by
    rw [granted,(still.readers id (going id)).laneIssued]
    exact granted_self _
  constructor
  · have silent : granted (viewZ e).1 (viewZ e').1 = false := none .r10
    refine ⟨fun _ some => absurd (silent.symm.trans some) Bool.false_ne_true,fun _ => ?_⟩
    rw [readsStale,silent]
    exact staleZ
  · have silent : granted (viewY e).1 (viewY e').1 = false := none .r11
    refine ⟨fun _ some => absurd (silent.symm.trans some) Bool.false_ne_true,fun _ => ?_⟩
    rw [readsStale,silent]
    exact staleY

/-- Cycles that differ from each other only in what the cores do beside the readers. -/
theorem counts_congr {v w v' w' : CycReader × CycWriter × (Int → Bool) × Nat} {loaded : Bool} {extent : Int}
    (counts : Counts w w' loaded extent) (cfg : w.1.cfg = v.1.cfg) (issued : w.1.laneIssued = v.1.laneIssued)
    (ti : w.1.ti = v.1.ti) (pushed : w.1.pendingPush = v.1.pendingPush) (count : w.2.2.2 = v.2.2.2)
    (issued' : w'.1.laneIssued = v'.1.laneIssued) (cfg' : w'.2.1.cfg = v'.2.1.cfg)
    (written' : w'.2.1.written = v'.2.1.written) (count' : w'.2.2.2 = v'.2.2.2) :
    Counts v v' loaded extent := by
  have stale : uncommitted w'.2.1 loaded extent = uncommitted v'.2.1 loaded extent := by
    funext off
    rw [uncommitted,uncommitted,committed_of_same cfg' written']
  simp only [Counts,readsStale,Fair,granted,Examined,wordShown,wordNext,CycReader.position,stale,cfg,issued,
    ti,pushed,count,issued',count'] at counts ⊢
  exact counts

/-- What the state keeps in a P2 invocation. -/
structure Watch (e : AccelEngine) : Prop where
  kind : e.shape.kind = 1
  z : Watched (viewZ e) (!e.shape.enOs) e.shape.wz
  y : Watched (viewY e) false e.shape.wy

/-- The two counts of a cycle are right if and only if its grants are fair. -/
structure Judged (e e' : AccelEngine) : Prop where
  z : Counts (viewZ e) (viewZ e') (!e.shape.enOs) e.shape.wz
  y : Counts (viewY e) (viewY e') false e.shape.wy

theorem Watch.still {e e' : AccelEngine} (watch : Watch e) (fits : Fits e) (still : Still e e') :
    Watch e' ∧ Judged e e' := by
  obtain ⟨z,_⟩ := still.watched fits.done (!e.shape.enOs) e.shape.wz
  obtain ⟨_,y⟩ := still.watched fits.done false e.shape.wy
  refine ⟨⟨by rw [still.shape]; exact watch.kind,?_,?_⟩,(still.counts fits.done).1,(still.counts fits.done).2⟩
  · rw [still.shape]
    exact z watch.z
  · rw [still.shape]
    exact y watch.y

theorem Watch.ticked {e : AccelEngine} (watch : Watch e) : Watch e.ticked := ⟨watch.kind,watch.z,watch.y⟩

theorem Watch.commits {f : AccelEngine} (watch : Watch f) (suc isc : Bool) (g : List Bool) (x : Readback)
    (shape : x.engine.shape = f.shape) (z : viewZ x.engine = viewZ f) (y : viewY x.engine = viewY f)
    (kept : (commitsP2 suc isc g x).engine.shape = f.shape) :
    Watch (commitsP2 suc isc g x).engine ∧ Judged f (commitsP2 suc isc g x).engine := by
  obtain ⟨⟨gi,gj,afterZ⟩,⟨gk,gl,afterY⟩⟩ := commitsP2_views suc isc g x
  rw [shape,z] at afterZ
  rw [shape,y] at afterY
  obtain ⟨watchedZ,countsZ⟩ := watch.z.after f.shape.enOs suc g gi gj
  obtain ⟨watchedY,countsY⟩ := watch.y.after true isc g gk gl
  rw [← afterZ] at watchedZ countsZ
  rw [← afterY] at watchedY countsY
  exact ⟨⟨by rw [kept]; exact watch.kind,by rw [kept]; exact watchedZ,by rw [kept]; exact watchedY⟩,
    countsZ,countsY⟩

theorem Judged.around {e f f' e' : AccelEngine} (judged : Judged f f') (fits : Fits e)
    (fits' : Fits f') (before : Still e f) (after : Still f' e') : Judged e e' := by
  have marks := before.marks
  have marks' := after.marks
  simp only [AccelEngine.marks,Prod.mk.injEq] at marks marks'
  have r10 := before.readers .r10 (fits.done .r10)
  have r11 := before.readers .r11 (fits.done .r11)
  have r10' := after.readers .r10 (fits'.done .r10)
  have r11' := after.readers .r11 (fits'.done .r11)
  constructor
  · have counts := judged.z
    rw [before.shape] at counts
    exact counts_congr counts r10.cfg r10.laneIssued r10.ti r10.pendingPush marks.2.2.1
      r10'.laneIssued.symm (after.writers .w0).cfg.symm (after.writers .w0).written.symm marks'.2.2.1.symm
  · have counts := judged.y
    rw [before.shape] at counts
    exact counts_congr counts r11.cfg r11.laneIssued r11.ti r11.pendingPush marks.2.2.2
      r11'.laneIssued.symm (after.writers .w2).cfg.symm (after.writers .w2).written.symm marks'.2.2.2.symm

/-- A cycle of P2 keeps the watch and counts right exactly where it is fair. -/
theorem stepP2_watch {e : AccelEngine} (fits : Fits e) (kinds : Kinds e) (watch : Watch e) :
    Watch e.step.1 ∧ Judged e e.step.1 := by
  have here : e.step = e.stepP2 := by simp [step,watch.kind]
  rw [here]
  unfold stepP2
  extract_lets e1 suc isc e2 x
  have landed : Still e.ticked e1 := still_core (moves_landP2 _)
  have still : Still e.ticked e2 := still_beforeP2 _
  have released (present : isc = true) : e1.shape.enIsc = true := (Bool.and_eq_true_iff.mp present).1
  have same : e2.shape = e.shape := still.shape
  have same1 : e1.shape = e.shape := landed.shape
  clear_value e2 e1
  split
  · exact watch.still fits (still_refl e)
  · split
    · exact watch.still fits (still_capped e)
    · split
      · obtain ⟨kept,judged⟩ := watch.ticked.still fits.ticked (still.trans (still_finishP2 e2))
        exact ⟨kept,judged.z,judged.y⟩
      · have apart : e2.shape.sucStateLd = true → isc = false := by
          intro loads
          rw [same] at loads
          refine Bool.eq_false_iff.mpr fun present => ?_
          have there := released present
          rw [same1,kinds.one watch.kind loads] at there
          exact Bool.false_ne_true there
        have fits2 : Fits e2 := fits.ticked.of_still still
        have shown : x.1 = (commitsP2 suc isc (Snax.fabric.out e2.fabric
            (e2.fabricCycle (e2.requestsP2 suc isc))) ⟨e2.arbitrated (e2.requestsP2 suc isc),[]⟩).engine := by
          unfold x
          rw [fabricPhase_eq]
        clear_value x suc isc
        have answered := commitsP2_answered (Snax.fabric.out e2.fabric
          (e2.fabricCycle (e2.requestsP2 suc isc))) suc isc
          ⟨e2.arbitrated (e2.requestsP2 suc isc),[]⟩ apart
        obtain ⟨watch2,_⟩ := watch.ticked.still fits.ticked still
        obtain ⟨watch3,judged⟩ := watch2.commits suc isc _ ⟨e2.arbitrated (e2.requestsP2 suc isc),[]⟩ rfl rfl
          rfl answered.shape
        rw [← shown] at watch3 judged
        have fits3 : Fits x.1 := by
          rw [shown]
          refine ⟨fun id => (answered.done id).trans (fits2.done id),fun u => ?_⟩
          refine (answered.channels u).trans_le ((fits2.width u).trans' (Nat.le_of_eq ?_))
          cases u <;> rfl
        have around := judged.around fits.ticked fits3 still (still_sampleFifo x.1)
        exact ⟨(watch3.still fits3 (still_sampleFifo x.1)).1,around.z,around.y⟩

/-! ### A configured invocation -/

theorem single_reconfigure (r : CycReader) (a : Agu) (nsp prt : Nat) (depth : Int) :
    Single (r.reconfigure a 1 nsp depth prt) := ⟨rfl,.inl rfl⟩

theorem marked_reconfigure (a : Agu) (nch nsp prt : Nat) (depth : Int) (loaded : Bool) (extent : Int) :
    Marked (CycWriter.reconfigure a nch nsp prt depth) loaded extent fun _ => loaded where
  written := Int.le_refl 0
  ti := (CycWriter.written_run a nch nsp prt depth []).ti
  mark _ _ _ := (Bool.or_false loaded).symm

/-- What the watch is about in the course of `configure`. -/
def gate (e : AccelEngine) :=
  (e.readers .r10,e.writers .w0,e.writers .w2,e.os.zwr,e.su.ywr,e.shape.enOs)

theorem gate_configureP2 (depth : Nat → Int) (e : AccelEngine) (a : Args) :
    gate (e.configureP2 depth a) =
      ((e.readers .r10).reconfigure (e.shape.ports 10).toAgu 1 1 (depth 10) 4,
        CycWriter.reconfigure (e.shape.ports 14).toAgu 1 1 2 (depth 14),
        CycWriter.reconfigure (e.shape.ports 16).toAgu 1 1 5 (depth 16),fun _ => !e.shape.enOs,
        fun _ => false,e.shape.enOs) ∧
    ∃ r : CycReader, (e.configureP2 depth a).readers .r11 =
      r.reconfigure (e.shape.ports 11).toAgu 1 1 (depth 11) 6 := by
  unfold configureP2
  extract_lets e1 e2 e3 e4 _ _ e5 e6 e7 _ e8 e9 e10 e11 e12 _ e13 e14 _ e15 e16 _ e17 _ _ e18
  have kept10 : gate e10 = gate e8 ∧ e10.shape.ports = e.shape.ports := by
    unfold e10
    split
    · split <;> exact ⟨rfl,rfl⟩
    · exact ⟨rfl,rfl⟩
  have kept14 : gate e14 = gate e10 ∧ e14.readers .r11 = e11.readers .r11 := by
    unfold e14
    split <;> exact ⟨rfl,rfl⟩
  refine ⟨(kept14.1.trans kept10.1 : gate e14 = gate e8),e10.readers .r11,?_⟩
  refine Eq.trans (kept14.2 : e14.readers .r11 = e11.readers .r11) ?_
  rw [← kept10.2]
  rfl

theorem watch_configureP2 (depth : Nat → Int) (e : AccelEngine) (a : Args) :
    Watch (e.configureP2 depth a) := by
  obtain ⟨⟨e',starts,programs⟩,_⟩ := programs_P2 depth e a
  obtain ⟨same,r,r11⟩ := gate_configureP2 depth e a
  simp only [gate,Prod.mk.injEq] at same
  obtain ⟨r10,w0,w2,zwr,ywr,enOs⟩ := same
  refine ⟨programs.kind.trans starts.kind,⟨?_,?_⟩,⟨?_,?_⟩⟩
  · rw [viewZ,r10]
    exact single_reconfigure _ _ _ _ _
  · rw [viewZ,w0,zwr,enOs]
    exact marked_reconfigure _ _ _ _ _ _ _
  · rw [viewY,r11]
    exact single_reconfigure _ _ _ _ _
  · rw [viewY,w2,ywr]
    exact marked_reconfigure _ _ _ _ _ _ _

/-! ### Runs -/

/-- The arguments configure P2: the SUC is enabled and there is a tile. -/
def IsP2 (a : Args) : Prop :=
  a.cfg.mode.getLsbD 20 = true ∧ 16 ≤ a.cfg.seqLen.toInt ∧ 24 ≤ a.cfg.dInner.toInt

instance (a : Args) : Decidable (IsP2 a) := by
  unfold IsP2
  infer_instance

/-- The cycle grants R10 a word of z that W0 has not committed by then. -/
def readsStaleZ (e : AccelEngine) : Bool :=
  readsStale (e.readers .r10) (e.step.1.readers .r10)
    (uncommitted (e.step.1.writers .w0) (!e.shape.enOs) e.shape.wz)

/-- The cycle grants R11 a word of y that W2 has not committed by then. -/
def readsStaleY (e : AccelEngine) : Bool :=
  readsStale (e.readers .r11) (e.step.1.readers .r11)
    (uncommitted (e.step.1.writers .w2) false e.shape.wy)

/-- The detector compares the granted words with the right verdicts in this cycle. -/
def FairCycle (e : AccelEngine) : Prop :=
  Fair (e.readers .r10) (e.step.1.readers .r10)
      (uncommitted (e.step.1.writers .w0) (!e.shape.enOs) e.shape.wz) ∧
    Fair (e.readers .r11) (e.step.1.readers .r11)
      (uncommitted (e.step.1.writers .w2) false e.shape.wy)

instance (e : AccelEngine) : Decidable (FairCycle e) := by
  unfold FairCycle Fair
  infer_instance

def Call.isConfigure : Call → Bool
  | .configure _ => true
  | _ => false

def stalesIn (stale : AccelEngine → Bool) (e : AccelEngine) : Call → Nat
  | .step => (stale e).toNat
  | _ => 0

/-- The cycles of a run that read a stale word. -/
def staleReads (depth : Nat → Int) (stale : AccelEngine → Bool) : AccelEngine → List Call → Nat
  | _, [] => 0
  | e, c :: calls => stalesIn stale e c + staleReads depth stale (next depth e c) calls

/-- Both counters of the result are the stale reads of the run. -/
def CountedAfter (depth : Nat → Int) (e : AccelEngine) (calls : List Call) : Prop :=
  ((accelEngine depth).exec e calls).res.staleZ = staleReads depth readsStaleZ e calls ∧
    ((accelEngine depth).exec e calls).res.staleY = staleReads depth readsStaleY e calls

theorem staleReads_snoc (depth : Nat → Int) (stale : AccelEngine → Bool) (e : AccelEngine)
    (calls : List Call) (c : Call) : staleReads depth stale e (calls ++ [c]) =
      staleReads depth stale e calls + stalesIn stale ((accelEngine depth).exec e calls) c := by
  induction calls generalizing e with
  | nil => simp [staleReads]
  | cons d calls ih =>
    rw [List.cons_append,staleReads,staleReads,ih,Nat.add_assoc]
    rfl

theorem configure_isP2 (depth : Nat → Int) (e : AccelEngine) {a : Args} (p2 : IsP2 a) :
    configure depth e a = configureP2 depth (e.decode a) a := by
  obtain ⟨suc,rows,columns⟩ := p2
  have enSuc : (e.decode a).shape.enSuc = true := suc
  have mI : ¬ (e.decode a).shape.mI ≤ 0 := by
    change ¬ a.cfg.seqLen.toInt.tdiv 16 ≤ 0
    rw [Int.tdiv_eq_ediv_of_nonneg (by omega)]
    omega
  have osN : ¬ (e.decode a).shape.osN ≤ 0 := by
    change ¬ (if 24 ≤ a.cfg.dInner.toInt then a.cfg.dInner.toInt.tdiv 24 else 0) ≤ 0
    rw [if_pos columns,Int.tdiv_eq_ediv_of_nonneg (by omega)]
    omega
  simp [configure,enSuc,mI,osN]

theorem watch_next (depth : Nat → Int) {e : AccelEngine} (fits : Fits e) (kinds : Kinds e)
    (watch : Watch e) {c : Call} (same : c.isConfigure = false) : Watch (next depth e c) := by
  cases c with
  | configure a => exact nomatch same
  | step => exact (stepP2_watch fits kinds watch).1
  | dmaEnqueue tcdmAddr bytes l3 atRel => exact ⟨watch.kind,watch.z,watch.y⟩
  | releaseR10 => exact ⟨watch.kind,watch.z,watch.y⟩
  | releaseR11 => exact ⟨watch.kind,watch.z,watch.y⟩

/-- The engine right after its configuration. -/
abbrev configured (depth : Nat → Int) (front : List Call) (a : Args) : AccelEngine :=
  (accelEngine depth).exec fresh (front ++ [.configure a])

theorem configured_eq (depth : Nat → Int) (front : List Call) {a : Args} (p2 : IsP2 a) :
    configured depth front a =
      configureP2 depth (((accelEngine depth).exec fresh front).decode a) a := by
  rw [configured,Sync.Machine.exec_append]
  exact configure_isP2 depth _ p2

/-- What holds in every state of a P2 invocation. -/
theorem watch_run (depth : Nat → Int) (front : List Call) {a : Args} (p2 : IsP2 a) (calls : List Call)
    (one : ∀ c ∈ calls, c.isConfigure = false) :
    Fits ((accelEngine depth).exec (configured depth front a) calls) ∧
    Kinds ((accelEngine depth).exec (configured depth front a) calls) ∧
    Watch ((accelEngine depth).exec (configured depth front a) calls) := by
  have kept (calls : List Call) : Fits ((accelEngine depth).exec (configured depth front a) calls) ∧
      Kinds ((accelEngine depth).exec (configured depth front a) calls) := by
    rw [← Sync.Machine.exec_append]
    exact reachable_kept depth _
  refine ⟨(kept calls).1,(kept calls).2,?_⟩
  induction calls using List.reverseRecOn with
  | nil =>
    rw [Sync.Machine.exec_nil,configured_eq depth front p2]
    exact watch_configureP2 depth _ a
  | append_singleton calls c ih =>
    have watch := ih fun c inside => one c (List.mem_append_left _ inside)
    rw [Sync.Machine.exec_append]
    exact watch_next depth (kept calls).1 (kept calls).2 watch
      (one c (List.mem_append_right _ (List.mem_singleton.mpr rfl)))

/-- One call more: right counters stay right if and only if the call is fair. -/
theorem countedAfter_snoc (depth : Nat → Int) {e : AccelEngine} {run : List Call} {c : Call}
    (fits : Fits ((accelEngine depth).exec e run)) (kinds : Kinds ((accelEngine depth).exec e run))
    (watch : Watch ((accelEngine depth).exec e run)) (same : c.isConfigure = false)
    (counted : CountedAfter depth e run) :
    CountedAfter depth e (run ++ [c]) ↔ (c = .step → FairCycle ((accelEngine depth).exec e run)) := by
  obtain ⟨staleZ,staleY⟩ := counted
  rw [CountedAfter,staleReads_snoc,staleReads_snoc,Sync.Machine.exec_append,← staleZ,← staleY]
  generalize (accelEngine depth).exec e run = s at fits kinds watch
  cases c with
  | configure a => exact nomatch same
  | step =>
    obtain ⟨_,judged⟩ := stepP2_watch fits kinds watch
    exact ⟨fun right _ => ⟨judged.z.mp right.1,judged.y.mp right.2⟩,
      fun fair => ⟨judged.z.mpr (fair rfl).1,judged.y.mpr (fair rfl).2⟩⟩
  | dmaEnqueue tcdmAddr bytes l3 atRel => exact ⟨nofun,fun _ => ⟨rfl,rfl⟩⟩
  | releaseR10 => exact ⟨nofun,fun _ => ⟨rfl,rfl⟩⟩
  | releaseR11 => exact ⟨nofun,fun _ => ⟨rfl,rfl⟩⟩

end AccelEngine

open AccelEngine in
/-- In a P2 invocation the counters are the stale reads all along if and only if in every cycle the
detector compares the granted words with the right verdicts. -/
theorem stale_reads_counted (depth : Nat → Int) (front : List Call) (a : Args) (p2 : IsP2 a)
    (calls : List Call) (one : ∀ c ∈ calls, c.isConfigure = false) :
    (∀ run, run <+: calls → CountedAfter depth (configured depth front a) run) ↔
    (accelEngine depth).Each (fun _ e c => c = .step → FairCycle e) (configured depth front a) calls := by
  have start : CountedAfter depth (configured depth front a) [] := by
    rw [CountedAfter,Sync.Machine.exec_nil,configured_eq depth front p2]
    exact ⟨rfl,rfl⟩
  have more {run : List Call} {c : Call} (inside : run ++ [c] <+: calls) := fun counted => by
    obtain ⟨fits,kinds,watch⟩ := watch_run depth front p2 run fun d member =>
      one d (inside.subset (List.mem_append_left _ member))
    exact countedAfter_snoc depth fits kinds watch
      (one c (inside.subset (List.mem_append_right _ (List.mem_singleton.mpr rfl)))) counted
  constructor
  · rintro all before c after rfl
    have inside : before ++ [c] <+: before ++ c :: after := ⟨after,by simp⟩
    exact (more inside (all before (List.prefix_append _ _))).mp (all _ inside)
  · intro each run inside
    induction run using List.reverseRecOn with
    | nil => exact start
    | append_singleton run c ih =>
      obtain ⟨after,rfl⟩ := inside
      refine (more ⟨after,rfl⟩ (ih ((List.prefix_append _ _).trans ⟨after,rfl⟩))).mpr ?_
      exact each run c after (by simp)

namespace AccelEngine

/-- A value in the first dimension, another one in the rest. -/
def inFirst {n : Nat} (x rest : BitVec 32) : Vector (BitVec 32) n :=
  Vector.ofFn fun d : Fin n => if d.val = 0 then x else rest

def wordPort (base : BitVec 64) (bound stride : BitVec 32) (enabled : Bool) : Port :=
  ⟨⟨base,inFirst 8 0,inFirst bound 1,inFirst stride 0,0⟩,1,enabled⟩

/-- Three tiles of one word of z each, in the order in which R10 reads them. -/
def threeTilePorts (p : Nat) : Port :=
  if p = 0 then wordPort 0x10000080 12 0 true
  else if p = 1 then wordPort 0x100000c0 12 0 true
  else if p = 10 ∨ p = 14 then wordPort 0x10000000 3 8 true
  else wordPort 0x10000000 1 8 false

/-- R10 is released after the second tile. -/
def threeTiles : Args where
  ports := threeTilePorts
  cfg := ⟨0x380000,16,4,1,72,1⟩
  r10StartCnt := 2
  r11StartCnt := 1000
  swCyc := 0
  recFires := false
  recFifo := false

instance (depth : Nat → Int) (e : AccelEngine) (calls : List Call) :
    Decidable (CountedAfter depth e calls) := by
  unfold CountedAfter
  infer_instance

instance (c : Call) : Decidable (c = .step) :=
  match c with
  | .step => .isTrue rfl
  | .configure _ | .dmaEnqueue _ _ _ _ | .releaseR10 | .releaseR11 => .isFalse nofun

end AccelEngine

open AccelEngine

/-- Up to the first read of z the counters are right. -/
theorem stale_reads_counted_at_first : CountedAfter (snaxStreamerDepth none)
    (configured (snaxStreamerDepth none) [] threeTiles) (List.replicate 10 .step) :=
  (stale_reads_counted (snaxStreamerDepth none) [] threeTiles (by decide) (List.replicate 10 .step)
    (by decide)).mpr (by decide +kernel) (List.replicate 10 .step) List.prefix_rfl

/-- R10 reads the second and the third word before they are written, and nothing is counted. -/
theorem stale_reads_missed : ¬ ∀ (depth : Nat → Int) (front : List Call) (a : Args), IsP2 a →
    ∀ calls : List Call, (∀ c ∈ calls, c.isConfigure = false) →
      CountedAfter depth (configured depth front a) calls := by
  intro all
  have counted := all (snaxStreamerDepth none) [] threeTiles (by decide) (List.replicate 14 .step) (by decide)
  exact absurd counted (by decide +kernel)

end Snax
