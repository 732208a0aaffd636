import Snax.AccelUnits
import Snax.AccelFrame

/-! What `configure` does to the streamer objects, for each kind of invocation, and what every
engine keeps over it: the widths of its units and the kind of an invocation under way. -/
namespace Snax.AccelEngine

def readerWidth : ReaderId → Nat
  | .r0 => 2
  | .r1 | .r12 | .r13 => 4
  | .rd p => portNchSimd.getD p 1
  | _ => 1

def writerWidth : WriterId → Nat
  | .w3 => 4
  | .wr p => portNchSimd.getD (p + 14) 1
  | _ => 1

def unitWidth : UnitId → Nat
  | .reader id => readerWidth id
  | .writer id => writerWidth id
  | .dtBC => 4

/-- What every engine keeps: no reader ends, and no unit has more lanes than its ports. -/
structure Fits (e : AccelEngine) : Prop where
  done : ∀ id, (e.readers id).done = false
  width : ∀ u, e.channels u ≤ unitWidth u

/-- The two uses of R13 exclude each other. -/
def OneCarry (s : Shape) : Prop := s.sucStateLd = true → s.enIsc = false

/-- An invocation under way is of one of the five kinds, and in P2 R13 has one use. -/
structure Kinds (e : AccelEngine) : Prop where
  known : e.ctl.running = true → 1 ≤ e.shape.kind ∧ e.shape.kind ≤ 5
  one : e.shape.kind = 1 → OneCarry e.shape

theorem Fits.of_eq {e e' : AccelEngine} (fits : Fits e) (readers : e'.readers = e.readers)
    (writers : e'.writers = e.writers) : Fits e' := by
  refine ⟨fun id => by rw [readers]; exact fits.done id,fun u => ?_⟩
  have width := fits.width u
  cases u with
  | reader id => rwa [AccelEngine.channels,readers]
  | writer id => rwa [AccelEngine.channels,writers]
  | dtBC => exact width

theorem Fits.configureReader {e : AccelEngine} (fits : Fits e) (depth : Nat → Int) {id : ReaderId}
    {port nch tok : Nat} (narrow : nch ≤ readerWidth id) :
    Fits (configureReader depth e id port nch tok) := by
  refine ⟨fun other => ?_,fun u => ?_⟩
  · by_cases here : other = id
    · subst here
      simp [AccelEngine.configureReader,setReader,CycReader.reconfigure,CycReader.reset]
    · simpa [AccelEngine.configureReader,setReader,here] using fits.done other
  · have width := fits.width u
    cases u with
    | reader other =>
      by_cases here : other = id
      · subst here
        simpa [channels,unitWidth,AccelEngine.configureReader,setReader,CycReader.reconfigure,
          CycReader.reset,CycReader.configure] using narrow
      · simpa [channels,AccelEngine.configureReader,setReader,here] using width
    | writer other => exact width
    | dtBC => exact width

theorem Fits.configureWriter {e : AccelEngine} (fits : Fits e) (depth : Nat → Int) {id : WriterId}
    {port nch nsp tok : Nat} (narrow : nch ≤ writerWidth id) :
    Fits (configureWriter depth e id port nch nsp tok) := by
  refine ⟨fits.done,fun u => ?_⟩
  have width := fits.width u
  cases u with
  | writer other =>
    by_cases here : other = id
    · subst here
      simpa [channels,unitWidth,AccelEngine.configureWriter,setWriter,CycWriter.reconfigure,
        CycWriter.configure] using narrow
    · simpa [channels,AccelEngine.configureWriter,setWriter,here] using width
  | reader other => exact width
  | dtBC => exact width

theorem Still.laneCount {e e' : AccelEngine} (still : Still e e')
    (going : ∀ id, (e.readers id).done = false) (u : UnitId) : e'.laneCount u = e.laneCount u := by
  funext l
  cases u with
  | reader id => exact congrFun (still.readers id (going id)).laneIssued l
  | writer id =>
    simp only [AccelEngine.laneCount,(still.writers id).written,(still.writers id).laneDone]
  | dtBC => exact congrFun still.issued l

theorem Still.channels {e e' : AccelEngine} (still : Still e e')
    (going : ∀ id, (e.readers id).done = false) (u : UnitId) : e'.channels u = e.channels u := by
  cases u with
  | reader id => exact congrArg (fun c => c.numChannel) (still.readers id (going id)).cfg
  | writer id => exact congrArg (fun c => c.numChannel) (still.writers id).cfg
  | dtBC => rfl

theorem Fits.of_still {e e' : AccelEngine} (fits : Fits e) (still : Still e e') : Fits e' :=
  ⟨fun id => (still.readers id (fits.done id)).done,fun u => (still.channels fits.done u).trans_le (fits.width u)⟩

theorem ticked_channels (e : AccelEngine) (u : UnitId) : e.ticked.channels u = e.channels u := by
  cases u <;> rfl

theorem ticked_laneCount (e : AccelEngine) (u : UnitId) : e.ticked.laneCount u = e.laneCount u := by
  cases u <;> rfl

theorem Fits.ticked {e : AccelEngine} (fits : Fits e) : Fits e.ticked :=
  ⟨fits.done,fun u => (ticked_channels e u).trans_le (fits.width u)⟩

/-! ### The moves of a configuration -/

/-- `e'` comes from `e` by configuring streamers and setting other members; those of the dt_BC
reader are set where `scan` says so. -/
inductive Programs (depth : Nat → Int) (scan : Bool) : AccelEngine → AccelEngine → Prop
  | refl (e : AccelEngine) : Programs depth scan e e
  | trans {e e' e'' : AccelEngine} (first : Programs depth scan e e')
      (later : Programs depth scan e' e'') : Programs depth scan e e''
  | core {e e' : AccelEngine} (kind : e'.shape.kind = e.shape.kind)
      (lanes : scan = true ∨ e'.lanes7 = e.lanes7 ∧ e'.shape.r7DataD = e.shape.r7DataD)
      (readers : e'.readers = e.readers) (writers : e'.writers = e.writers) : Programs depth scan e e'
  | reader (e : AccelEngine) {id : ReaderId} {port nch tok : Nat} (some : 0 < nch)
      (narrow : nch ≤ readerWidth id) : Programs depth scan e (configureReader depth e id port nch tok)
  | writer (e : AccelEngine) {id : WriterId} {port nch nsp tok : Nat} (narrow : nch ≤ writerWidth id) :
      Programs depth scan e (configureWriter depth e id port nch nsp tok)

/-- The engine with its kind set, from which the configuration of the kind programs it. -/
structure Starts (kind : Nat) (e e' : AccelEngine) : Prop where
  kind : e'.shape.kind = kind
  lanes : e'.lanes7 = e.lanes7 ∧ e'.shape.r7DataD = e.shape.r7DataD
  readers : e'.readers = e.readers
  writers : e'.writers = e.writers

section Kinds

variable {scan : Bool} (depth : Nat → Int) (e : AccelEngine)

theorem programs_ite {c : Prop} [Decidable c] {e a b : AccelEngine} (yes : Programs depth scan e a)
    (no : Programs depth scan e b) : Programs depth scan e (if c then a else b) := by
  split
  · exact yes
  · exact no

theorem programs_P1 : ∃ e', Starts 2 e e' ∧ Programs depth false e' (e.configureP1 depth) := by
  unfold configureP1
  extract_lets e1 _ e2 _ e3 e4 _ e5 e6 e7 beats _ e8 e9 e10 _ e11 e12 _ e13 e14 e15 _ e16 _ _ e17
  refine ⟨e2,⟨rfl,⟨rfl,rfl⟩,rfl,rfl⟩,programs_ite depth (.core rfl (.inr ⟨rfl,rfl⟩) rfl rfl) ?_⟩
  have p4 : Programs depth false e2 e4 :=
    .trans (.reader e2 (by decide) (by decide)) (.reader e3 (by decide) (by decide))
  have p5 : Programs depth false e4 e5 := .core rfl (.inr ⟨rfl,rfl⟩) rfl rfl
  have p6 : Programs depth false e5 e6 := programs_ite depth (.writer e5 (by decide)) (.refl e5)
  have p7 : Programs depth false e6 e7 := programs_ite depth (.writer e6 (by decide)) (.refl e6)
  have p8 : Programs depth false e7 e8 := .core rfl (.inr ⟨rfl,rfl⟩) rfl rfl
  have p9 : Programs depth false e8 e9 := programs_ite depth
    (.trans (.reader e8 (by decide) (by decide)) (.reader _ (by decide) (by decide))) (.refl e8)
  have p10 : Programs depth false e9 e10 := .reader e9 (by decide) (by decide)
  have p11 : Programs depth false e10 e11 := .core rfl (.inr ⟨rfl,rfl⟩) rfl rfl
  have p12 : Programs depth false e11 e12 :=
    programs_ite depth (.reader e11 (by decide) (by decide)) (.refl e11)
  have p13 : Programs depth false e12 e13 := .core rfl (.inr ⟨rfl,rfl⟩) rfl rfl
  have p14 : Programs depth false e13 e14 :=
    programs_ite depth (.reader e13 (by decide) (by decide)) (.refl e13)
  have p15 : Programs depth false e14 e15 := .writer e14 (by decide)
  have p17 : Programs depth false e15 (e17.restart true).unlatch := .core rfl (.inr ⟨rfl,rfl⟩) rfl rfl
  exact (((((p4.trans p5).trans p6).trans (p7.trans p8)).trans (p9.trans p10)).trans
    ((p11.trans p12).trans (p13.trans p14))).trans (p15.trans p17)

theorem programs_Os : ∃ e', Starts 3 e e' ∧ Programs depth false e' (e.configureOs depth) := by
  unfold configureOs
  extract_lets _ e1 e2 e3 e4 beats _ _ e5
  refine ⟨e1,⟨rfl,⟨rfl,rfl⟩,rfl,rfl⟩,?_⟩
  have p3 : Programs depth false e1 e3 :=
    .trans (.reader e1 (by decide) (by decide)) (.reader e2 (by decide) (by decide))
  have p4 : Programs depth false e3 e4 := .writer e3 (by decide)
  exact (p3.trans p4).trans (.core rfl (.inr ⟨rfl,rfl⟩) rfl rfl)

theorem programs_Is : ∃ e', Starts 4 e e' ∧ Programs depth false e' (e.configureIs depth) := by
  unfold configureIs
  extract_lets _ e1 e2 _ _ e3
  refine ⟨e1,⟨rfl,⟨rfl,rfl⟩,rfl,rfl⟩,?_⟩
  have p2 : Programs depth false e1 e2 := .writer e1 (by decide)
  exact p2.trans (.core rfl (.inr ⟨rfl,rfl⟩) rfl rfl)

theorem portNchSimd_pos (p : Nat) : 1 ≤ portNchSimd.getD p 1 := by
  by_cases inside : p < 18
  · have all : ∀ q : Fin 18, 1 ≤ portNchSimd.getD q.val 1 := by decide
    exact all ⟨p,inside⟩
  · rw [List.getD_eq_getElem?_getD,List.getElem?_eq_none (Nat.le_of_not_lt inside),Option.getD_none]

theorem programs_simdReader (p : Nat) : Programs depth false e (configureSimdReader depth e p) := by
  unfold configureSimdReader
  extract_lets on _ e1
  have set : Programs depth false e e1 := .core rfl (.inr ⟨rfl,rfl⟩) rfl rfl
  exact set.trans (programs_ite depth (.reader e1 (portNchSimd_pos p) (Nat.le_refl _)) (.refl e1))

theorem programs_simdWriter {p : Nat} (writer : 14 ≤ p) :
    Programs depth false e (configureSimdWriter depth e p) := by
  unfold configureSimdWriter
  extract_lets on _ e1
  have set : Programs depth false e e1 := .core rfl (.inr ⟨rfl,rfl⟩) rfl rfl
  refine set.trans (programs_ite depth (.writer e1 ?_) (.refl e1))
  rw [writerWidth,Nat.sub_add_cancel writer]

theorem programs_foldl {f : AccelEngine → Nat → AccelEngine} (ps : List Nat)
    (kept : ∀ e, ∀ p ∈ ps, Programs depth scan e (f e p)) : Programs depth scan e (ps.foldl f e) := by
  induction ps generalizing e with
  | nil => exact .refl e
  | cons p ps ih =>
    exact (kept e p List.mem_cons_self).trans
      (ih _ fun e q inside => kept e q (List.mem_cons_of_mem p inside))

theorem programs_Simd : ∃ e', Starts 5 e e' ∧ Programs depth false e' (e.configureSimd depth) := by
  unfold configureSimd
  extract_lets _ e1 e2 e3 _ e4
  refine ⟨e1,⟨rfl,⟨rfl,rfl⟩,rfl,rfl⟩,?_⟩
  have p2 : Programs depth false e1 e2 :=
    programs_foldl depth e1 _ fun e p _ => programs_simdReader depth e p
  have p3 : Programs depth false e2 e3 := programs_foldl depth e2 _ fun e p inside =>
    programs_simdWriter depth e (List.mem_range'_1.mp inside).1
  exact (p2.trans p3).trans (.core rfl (.inr ⟨rfl,rfl⟩) rfl rfl)

/-- P2 starts the scan anew, and then only the streamers and the sizes are set. -/
theorem programs_P2 (a : Args) : (∃ e', Starts 1 e e' ∧ Programs depth true e' (e.configureP2 depth a)) ∧
    OneCarry (e.configureP2 depth a).shape ∧ (e.configureP2 depth a).shape.r7DataD = depth 7 ∧
    (e.configureP2 depth a).lanes7 = (fun _ => 0,fun _ => 0,fun _ => 0,0) := by
  unfold configureP2
  extract_lets e1 e2 e3 e4 _ _ e5 e6 e7 _ e8 e9 e10 e11 e12 _ e13 e14 _ e15 e16 _ e17 _ _ e18
  have p4 : Programs depth true e1 e4 := .trans
    (.trans (.reader e1 (by decide) (by decide)) (.reader e2 (by decide) (by decide)))
    (.writer e3 (by decide))
  have p5 : Programs depth true e4 e5 := .core rfl (.inl rfl) rfl rfl
  have p7 : Programs depth true e5 e7 :=
    .trans (.reader e5 (by decide) (by decide)) (.writer e6 (by decide))
  have p8 : Programs depth true e7 e8 := .core rfl (.inl rfl) rfl rfl
  have p9 : Programs depth true e8 e9 :=
    .trans (.reader e8 (by decide) (by decide)) (.reader _ (by decide) (by decide))
  have p10 : Programs depth true e8 e10 := programs_ite depth (p9.trans (programs_ite depth
    (.reader e9 (by decide) (by decide)) (.refl e9))) (.refl e8)
  have p12 : Programs depth true e10 e12 :=
    .trans (.reader e10 (by decide) (by decide)) (.reader e11 (by decide) (by decide))
  have p13 : Programs depth true e12 e13 := .core rfl (.inl rfl) rfl rfl
  have p14 : Programs depth true e13 e14 :=
    programs_ite depth (.reader e13 (by decide) (by decide)) (.refl e13)
  have p15 : Programs depth true e14 e15 := .core rfl (.inl rfl) rfl rfl
  have p16 : Programs depth true e15 e16 := .writer e15 (by decide)
  have p18 : Programs depth true e16 (e18.restart true).unlatch.unstart := .core rfl (.inl rfl) rfl rfl
  have one : OneCarry e15.shape := by
    intro loads
    have both : (!e14.shape.enIsc && a.cfg.mode.getLsbD 1 && e14.shape.r13En) = true := loads
    simp only [Bool.and_eq_true,Bool.not_eq_true'] at both
    exact both.1.1
  have kept10 : e10.lanes7 = e8.lanes7 ∧ e10.shape.r7DataD = e8.shape.r7DataD := by
    unfold e10
    split
    · split <;> exact ⟨rfl,rfl⟩
    · exact ⟨rfl,rfl⟩
  have kept14 : e14.lanes7 = e10.lanes7 ∧ e14.shape.r7DataD = e10.shape.r7DataD := by
    unfold e14
    split <;> exact ⟨rfl,rfl⟩
  exact ⟨⟨e1,⟨rfl,⟨rfl,rfl⟩,rfl,rfl⟩,(((p4.trans p5).trans (p7.trans p8)).trans (p10.trans p12)).trans
    (((p13.trans p14).trans p15).trans (p16.trans p18))⟩,one,kept14.2.trans kept10.2,kept14.1.trans kept10.1⟩

end Kinds

theorem Programs.kind {depth : Nat → Int} {scan : Bool} {e e' : AccelEngine}
    (programs : Programs depth scan e e') : e'.shape.kind = e.shape.kind := by
  induction programs with
  | refl e => rfl
  | trans _ _ first later => exact later.trans first
  | core kind lanes readers writers => exact kind
  | reader e some narrow => rfl
  | writer e narrow => rfl

theorem Programs.fits {depth : Nat → Int} {scan : Bool} {e e' : AccelEngine}
    (programs : Programs depth scan e e') (fits : Fits e) : Fits e' := by
  induction programs with
  | refl e => exact fits
  | trans _ _ first later => exact later (first fits)
  | core kind lanes readers writers => exact fits.of_eq readers writers
  | reader e some narrow => exact fits.configureReader depth narrow
  | writer e narrow => exact fits.configureWriter depth narrow

theorem configure_kept (depth : Nat → Int) {e : AccelEngine} (fits : Fits e) (a : Args) :
    Fits (configure depth e a) ∧ Kinds (configure depth e a) := by
  have decoded : Fits (e.decode a) := fits.of_eq rfl rfl
  have other {k : Nat} {scan : Bool} {e' : AccelEngine}
      (made : ∃ e1, Starts k (e.decode a) e1 ∧ Programs depth scan e1 e') (known : 1 < k ∧ k ≤ 5) :
      Fits e' ∧ Kinds e' := by
    obtain ⟨e1,starts,programs⟩ := made
    have kind := programs.kind.trans starts.kind
    refine ⟨programs.fits (decoded.of_eq starts.readers starts.writers),fun _ => ?_,fun only => ?_⟩
    · rw [kind]
      omega
    · rw [kind] at only
      omega
  have stopped : Fits (e.decode a) ∧ Kinds (e.decode a) := ⟨decoded,nofun,nofun⟩
  unfold configure
  extract_lets e1
  split
  · exact other (programs_Simd depth _) (by decide)
  · split
    · exact stopped
    · split
      · split
        · exact other (programs_P1 depth _) (by decide)
        · split
          · exact other (programs_Os depth _) (by decide)
          · split
            · exact other (programs_Is depth _) (by decide)
            · exact stopped
      · obtain ⟨⟨e2,starts,programs⟩,one,_⟩ := programs_P2 depth (e.decode a) a
        refine ⟨programs.fits (decoded.of_eq starts.readers starts.writers),fun _ => ?_,fun _ => one⟩
        rw [programs.kind,starts.kind]
        decide

theorem fits_fresh : Fits fresh := by
  refine ⟨fun _ => rfl,fun u => ?_⟩
  cases u with
  | reader id =>
    cases id with
    | rd p => exact portNchSimd_pos p
    | _ => decide
  | writer id =>
    cases id with
    | wr p => exact portNchSimd_pos _
    | _ => decide
  | dtBC => exact Nat.le_refl 4

end Snax.AccelEngine
