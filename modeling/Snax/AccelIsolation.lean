import Snax.AccelAlike

/-! An invocation of a reused engine against one of a new engine: what `configure` sets does not
depend on what was there before. It leaves the position of the last grant of each reader, R5 where
the switchCore runs without it, and all there is to see where it returns early. -/
namespace Snax
namespace AccelEngine

/-! ### The settings -/

def writerBeats (a : Agu) (nch nsp prt : Nat) (depth : Int) : Int :=
  (CycWriter.reconfigure a nch nsp prt depth).totalBeats

def Shape.sized (s : Shape) (kind : Nat) : Shape :=
  { s with
    kind := kind
    kOs := s.dModel
    kIs := s.osN
    iters := s.seqLen * s.dInner
    nTilesOs := s.mI * s.osN
    nTilesIs := s.mI * s.dFinal }

/-- The state carry of P2, and the sizes of the isCore; `total` are the groups of R13. -/
def Shape.carried (depth : Nat → Int) (a : Args) (total : Int) (s : Shape) : Shape :=
  let s := { s with
    sucStateLd := !s.enIsc && a.cfg.mode.getLsbD 1 && s.r13En
    sucStateSv := !s.enIsc && a.cfg.mode.getLsbD 0 && (s.ports 17).enabled }
  let beats := writerBeats (s.ports 17).toAgu 4 (if s.sucStateSv then 2 else 1) 8 (depth 17)
  { s with
    r13Tot := total
    w3stTot := beats
    wbptIs := max 1 (beatsPerTile beats s.nTilesIs)
    serDesA := 48
    cap := capOf (pipelineWork s) }

def Shape.scan (depth : Nat → Int) (a : Args) (s : Shape) : Shape :=
  let s := s.sized 1
  let beats := writerBeats (s.ports 14).toAgu 1 1 2 (depth 14)
  { s with
    wbptOs := max 1 (beatsPerTile beats s.nTilesOs)
    wz := beats
    r7FifoD := depth 7
    r7DataD := depth 7
    wy := writerBeats (s.ports 16).toAgu 1 1 5 (depth 16)
    swCyc := a.swCyc
    swEn := 0 < a.swCyc && (s.ports 2).enabled
    r13En := (s.ports 13).enabled }

/-- What P1 makes of the settings. -/
def Shape.p1 (depth : Nat → Int) (s : Shape) : Shape :=
  let s := s.sized 2
  let s := { s with
    hasConv := s.swMode == 1
    w0p1En := (s.ports 14).enabled
    w1En := (s.ports 15).enabled }
  let beats := if s.w0p1En then writerBeats (s.ports 14).toAgu 1 1 2 (depth 14)
    else if s.w1En then writerBeats (s.ports 15).toAgu 1 1 2 (depth 15) else 0
  let s := { s with
    wbptOs := if s.w0p1En || s.w1En then beatsPerTile beats s.nTilesOs else 0
    p1swEn := s.hasConv && (s.ports 3).enabled
    r11p1En := (s.ports 11).enabled
    r13En := (s.ports 13).enabled }
  { s with
    wbptIs := max 1 (beatsPerTile (writerBeats (s.ports 17).toAgu 4 1 8 (depth 17)) s.nTilesIs)
    cap := capOf (pipelineWork s) }

/-- What the standalone arrays make of the settings. -/
def Shape.osgemm (depth : Nat → Int) (s : Shape) : Shape :=
  let s := { s with
    kind := 3
    kOs := s.dModel
    nTilesOs := s.mI * s.osN }
  let beats := writerBeats (s.ports 14).toAgu 1 1 2 (depth 14)
  { s with
    wz := beats
    wbptOs := max 1 (beatsPerTile beats s.nTilesOs)
    cap := capOf (s.nTilesOs * s.kOs) }

def Shape.isgemm (depth : Nat → Int) (s : Shape) : Shape :=
  let s := { s with
    kind := 4
    kIs := s.osN
    nTilesIs := s.mI * s.dFinal }
  { s with
    wbptIs := max 1 (beatsPerTile (writerBeats (s.ports 17).toAgu 4 1 8 (depth 17)) s.nTilesIs)
    cap := capOf (s.nTilesIs * max 1 s.kIs) }

def totalOf (cfg : CycReader.Cfg) (on : Bool) : Int :=
  if on then (BitVec.ofInt 32 (CycReader.total cfg)).toInt else 0

/-- What P2 makes of the settings. -/
def Shape.p2 (depth : Nat → Int) (a : Args) (s : Shape) : Shape :=
  (s.scan depth a).carried depth a
    (totalOf (CycReader.configure (s.ports 13).toAgu 4 1 (depth 13) 12) (s.ports 13).enabled)

theorem shape_configureP2 (depth : Nat → Int) (e : AccelEngine) (a : Args) :
    (e.configureP2 depth a).shape = e.shape.p2 depth a := by
  unfold configureP2
  extract_lets e1 e2 e3 e4 _ _ e5 e6 e7 _ e8 e9 e10 e11 e12 _ e13 e14 _ e15 e16 _ e17 _ _ e18
  have s10 : e10.shape = e8.shape := by
    unfold e10
    split
    · split <;> rfl
    · rfl
  have s13 : e13.shape = e.shape.scan depth a :=
    (congrArg (fun s : Shape => { s with r13En := (s.ports 13).enabled }) s10 :)
  have s14 : e14.shape = e13.shape := by
    unfold e14
    split <;> rfl
  have ports : e13.shape.ports = e.shape.ports := congrArg (fun s => s.ports) s13
  have total : totalOf (e14.readers .r13).cfg e14.shape.r13En =
      totalOf (CycReader.configure (e.shape.ports 13).toAgu 4 1 (depth 13) 12) (e.shape.ports 13).enabled := by
    have on : e13.shape.r13En = (e.shape.ports 13).enabled := congrArg (fun s => s.r13En) s13
    rw [s14,on]
    cases enabled : (e.shape.ports 13).enabled with
    | false => simp only [totalOf,Bool.false_eq_true,↓reduceIte]
    | true =>
      have made : e14 = configureReader depth e13 .r13 13 4 12 := if_pos (on.trans enabled)
      have cfg : (e14.readers .r13).cfg =
          CycReader.configure (e.shape.ports 13).toAgu 4 1 (depth 13) 12 := by
        rw [made,← ports]
        rfl
      rw [cfg]
  have last : e17.shape = e14.shape.carried depth a (totalOf (e14.readers .r13).cfg e14.shape.r13En) := rfl
  exact last.trans (by rw [total,s14,s13]; rfl)

theorem p2_decoded (depth : Nat → Int) (a : Args) (e e' : AccelEngine) :
    Kind.shape .p2 ((e.decode a).shape.p2 depth a) = Kind.shape .p2 ((e'.decode a).shape.p2 depth a) := rfl

/-! ### What a configuration makes -/

def portOf : ReaderId → Nat
  | .r0 => 0
  | .r1 => 1
  | .r2sw => 2
  | .r3sw | .r3c => 3
  | .r4c => 4
  | .r5sw => 5
  | .r10 => 10
  | .r11 => 11
  | .r12 => 12
  | .r13 => 13
  | .rd p => p

/-- `T_R0` and so on; the SIMD readers have the numbers of their ports. -/
def tokenOf : ReaderId → Nat
  | .r0 => 0
  | .r1 => 1
  | .r2sw => 9
  | .r3sw | .r3c => 10
  | .r4c | .r5sw => 11
  | .r10 => 4
  | .r11 => 6
  | .r12 => 7
  | .r13 => 12
  | .rd p => p

/-- A reader that is configured for an invocation, whatever it was before. -/
def asConfigured (depth : Nat → Int) (ports : Nat → Port) (id : ReaderId) (r : CycReader) : CycReader :=
  r.reconfigure (ports (portOf id)).toAgu (readerWidth id) 1 (depth (portOf id)) (tokenOf id)

/-- A reader differs after its configuration in the position that it keeps. -/
theorem asConfigured_alike (depth : Nat → Int) (ports : Nat → Port) (id : ReaderId) (r r' : CycReader)
    {watched : Prop} (word : watched → wordOff (ports (portOf id)).strides r'.ti =
      wordOff (ports (portOf id)).strides r.ti) :
    (asConfigured depth ports id r).Alike watched (asConfigured depth ports id r') := ⟨rfl,word⟩

/-- A writer that is configured for an invocation. -/
def asWritten (depth : Nat → Int) (s : Shape) : WriterId → CycWriter
  | .w0 => CycWriter.reconfigure (s.ports 14).toAgu 1 1 2 (depth 14)
  | .w1 => CycWriter.reconfigure (s.ports 15).toAgu 1 1 2 (depth 15)
  | .w2 => CycWriter.reconfigure (s.ports 16).toAgu 1 1 5 (depth 16)
  | .w3 => CycWriter.reconfigure (s.ports 17).toAgu 4 (if s.sucStateSv then 2 else 1) 8 (depth 17)
  | .wr p => CycWriter.reconfigure (s.ports (p + 14)).toAgu (portNchSimd.getD (p + 14) 1) 1 (p + 14)
      (depth (p + 14))

/-- The counters of an engine that starts an invocation. -/
def starting (k : Kind) (s : Shape) (running : Bool) : AccelEngine :=
  { fresh with
    os := { fresh.os with zwr := fun _ => k == .p2 && !s.enOs }
    isc := { fresh.isc with iscAload := if k == .p2 then 48 else 0 }
    ctl := { fresh.ctl with running := running } }

/-- `e` is `e₀` configured for kind `k` with settings `s`. -/
structure Anew (depth : Nat → Int) (k : Kind) (s : Shape) (running : Bool) (e₀ e : AccelEngine) :
    Prop where
  shape : k.shape e.shape = s
  core : k.seen e = starting k s running
  dma : e.dma = e₀.dma.clear
  readers : ∀ id, k.reads s id = true → e.readers id = asConfigured depth s.ports id (e₀.readers id)
  writers : ∀ id, k.writes s id = true → e.writers id = asWritten depth s id
  spare : k = .p2 → s.swEn = true → (s.ports 5).enabled = false → e.readers .r5sw = e₀.readers .r5sw

/-- What is left of an earlier invocation cannot be told from what a new engine has. -/
structure Cleared (k : Kind) (s : Shape) (e : AccelEngine) : Prop where
  word : ∀ id, k.watches s id = true → wordOff (s.ports (portOf id)).strides (e.readers id).ti = 0
  spent : k = .p2 → s.swEn = true → (s.ports 5).enabled = false → (e.readers .r5sw).Spent

namespace Kind

variable {k : Kind} (gemm : k ≠ .simd) (s : Shape)
include gemm

theorem reads_shape (id : ReaderId) : k.reads (k.shape s) id = k.reads s id := by
  cases k with
  | simd => exact absurd rfl gemm
  | _ => cases id <;> rfl

theorem writes_shape (id : WriterId) : k.writes (k.shape s) id = k.writes s id := by
  cases k with
  | simd => exact absurd rfl gemm
  | _ => cases id <;> rfl

theorem watches_shape (id : ReaderId) : k.watches (k.shape s) id = k.watches s id := by
  cases k with
  | simd => exact absurd rfl gemm
  | _ => cases id <;> rfl

end Kind

theorem Anew.alike {depth : Nat → Int} {k : Kind} {s : Shape} {running : Bool} {e₀ e₀' e e' : AccelEngine}
    (anew : Anew depth k s running e₀ e) (anew' : Anew depth k s running e₀' e')
    (gemm : k ≠ .simd) (code : s.kind = k.code) (cleared : Cleared k s e₀) (cleared' : Cleared k s e₀')
    (dma : e₀.dma.clear.Alike e₀'.dma.clear) : Alike k e e' := by
  have shape := anew.shape
  have kind : e.shape.kind = s.kind := by rw [← shape]; cases k <;> rfl
  refine ⟨kind.trans code,shape.trans anew'.shape.symm,anew.core.trans anew'.core.symm,
    by rw [anew.dma,anew'.dma]; exact dma,fun id used => ?_,fun id used => ?_,fun simd => absurd simd gemm,
    fun p2 sw off => ?_,fun p2 off w => ?_⟩
  · rw [← Kind.reads_shape gemm,shape] at used
    rw [anew.readers id used,anew'.readers id used,← Kind.watches_shape gemm,shape]
    exact asConfigured_alike depth s.ports id _ _ fun watched =>
      (cleared'.word id watched).trans (cleared.word id watched).symm
  · rw [← Kind.writes_shape gemm,shape] at used
    rw [anew.writers id used,anew'.writers id used]
  · subst p2
    have on : s.swEn = true := (congrArg (fun s => s.swEn) shape).symm.trans sw
    have idle : (s.ports 5).enabled = false := (congrArg (fun s => (s.ports 5).enabled) shape).symm.trans off
    rw [anew.spare rfl on idle,anew'.spare rfl on idle]
    exact ⟨cleared.spent rfl on idle,cleared'.spent rfl on idle⟩
  · subst p2
    have none : s.enOs = false := (congrArg (fun s => s.enOs) shape).symm.trans off
    have zwr : e.os.zwr = fun _ => true && !s.enOs := congrArg (fun e => e.os.zwr) anew.core
    rw [zwr,none]
    rfl

/-! ### The standalone arrays -/

theorem anew_Os (depth : Nat → Int) (e : AccelEngine) :
    Anew depth .os (Kind.shape .os (e.shape.osgemm depth)) true e (e.configureOs depth) := by
  refine ⟨rfl,rfl,rfl,fun id used => ?_,fun id used => ?_,nofun⟩
  · cases id with
    | r0 | r1 => rfl
    | _ => exact absurd used Bool.false_ne_true
  · cases id with
    | w0 => rfl
    | _ => exact absurd used Bool.false_ne_true

theorem anew_Is (depth : Nat → Int) (e : AccelEngine) :
    Anew depth .is (Kind.shape .is (e.shape.isgemm depth))
      (decide (0 < e.shape.mI * e.shape.dFinal) && decide (0 < e.shape.osN)) e (e.configureIs depth) := by
  refine ⟨rfl,rfl,rfl,fun id used => ?_,fun id used => ?_,nofun⟩
  · cases id <;> exact absurd used Bool.false_ne_true
  · cases id with
    | w3 => rfl
    | _ => exact absurd used Bool.false_ne_true

/-! ### P1 -/

theorem shape_configureP1 (depth : Nat → Int) (e : AccelEngine) (some : 0 < e.shape.dFinal) :
    (e.configureP1 depth).shape = e.shape.p1 depth := by
  unfold configureP1
  extract_lets e1 _ e2 _ e3 e4 _ e5 e6 e7 beats _ e8 e9 e10 _ e11 e12 _ e13 e14 e15 _ e16 _ _ e17
  have goes : ¬ e2.shape.dFinal ≤ 0 := not_le_of_gt some
  rw [if_neg goes]
  have s6 : e6.shape = e5.shape := by unfold e6; split <;> rfl
  have s7 : e7.shape = e5.shape := by
    refine Eq.trans ?_ s6
    unfold e7
    split <;> rfl
  have s9 : e9.shape = e8.shape := by unfold e9; split <;> rfl
  have s12 : e12.shape = e11.shape := by unfold e12; split <;> rfl
  have s14 : e14.shape = e13.shape := by unfold e14; split <;> rfl
  have output : beats = if e5.shape.w0p1En then writerBeats (e.shape.ports 14).toAgu 1 1 2 (depth 14)
      else if e5.shape.w1En then writerBeats (e.shape.ports 15).toAgu 1 1 2 (depth 15) else 0 := by
    unfold beats
    rw [s7]
    cases zOn : e5.shape.w0p1En with
    | true =>
      have made : e6 = configureWriter depth e5 .w0 14 1 1 2 := if_pos zOn
      have kept : e7.writers .w0 = e6.writers .w0 := by unfold e7; split <;> rfl
      rw [if_pos rfl,if_pos rfl,kept,made]
      rfl
    | false =>
      rw [if_neg Bool.false_ne_true,if_neg Bool.false_ne_true]
      cases xOn : e5.shape.w1En with
      | true =>
        have made : e7 = configureWriter depth e6 .w1 15 1 1 2 := if_pos ((congrArg Shape.w1En s6).trans xOn)
        have ports : e6.shape.ports = e.shape.ports := (congrArg (fun s => s.ports) s6 :)
        rw [if_pos rfl,if_pos rfl,made,← ports]
        rfl
      | false => rw [if_neg Bool.false_ne_true,if_neg Bool.false_ne_true]
  have last : e17.shape = { e14.shape with
      wbptIs := max 1 (beatsPerTile (writerBeats (e14.shape.ports 17).toAgu 4 1 8 (depth 17)) e14.shape.nTilesIs)
      cap := capOf (pipelineWork e14.shape) } := rfl
  have s13 : e13.shape = { e12.shape with r13En := (e12.shape.ports 13).enabled } := rfl
  have s11 : e11.shape = { e9.shape with r11p1En := (e9.shape.ports 11).enabled } := rfl
  have s8 : e8.shape = { e7.shape with
      wbptOs := if e7.shape.w0p1En || e7.shape.w1En then beatsPerTile beats e7.shape.nTilesOs else 0
      p1swEn := e7.shape.hasConv && (e7.shape.ports 3).enabled } := rfl
  exact last.trans (by rw [s14,s13,s12,s11,s9,s8,s7,output]; rfl)

theorem readers_configureP1 (depth : Nat → Int) (e : AccelEngine) (some : 0 < e.shape.dFinal) (id : ReaderId)
    (used : Kind.reads .p1 (e.shape.p1 depth) id = true) :
    (e.configureP1 depth).readers id = asConfigured depth e.shape.ports id (e.readers id) := by
  unfold configureP1
  extract_lets e1 _ e2 _ e3 e4 _ e5 e6 e7 beats _ e8 e9 e10 _ e11 e12 _ e13 e14 e15 _ e16 _ _ e17
  have goes : ¬ e2.shape.dFinal ≤ 0 := not_le_of_gt some
  rw [if_neg goes]
  have kept6 : (e6.readers,e6.shape) = (e5.readers,e5.shape) := by unfold e6; split <;> rfl
  have kept7 : (e7.readers,e7.shape) = (e5.readers,e5.shape) := by
    refine Eq.trans ?_ kept6
    unfold e7
    split <;> rfl
  obtain ⟨readers7,shape7⟩ := Prod.mk.inj kept7
  have ports7 : e7.shape.ports = e.shape.ports := (congrArg (fun s => s.ports) shape7 :)
  have kept9 (others : id ≠ .r3c ∧ id ≠ .r4c) : e9.readers id = e8.readers id := by
    unfold e9
    split
    · simp [configureReader,setReader,others.1,others.2]
    · rfl
  have ports9 : e9.shape.ports = e.shape.ports := by
    refine Eq.trans ?_ ports7
    unfold e9
    split <;> rfl
  have kept12 (other : id ≠ .r11) : e12.readers id = e10.readers id := by
    unfold e12
    split
    · simp [configureReader,setReader,other,e11]
    · rfl
  have ports12 : e12.shape.ports = e.shape.ports := by
    refine Eq.trans ?_ ports9
    unfold e12
    split <;> rfl
  have kept14 (other : id ≠ .r13) : e14.readers id = e12.readers id := by
    unfold e14
    split
    · simp [configureReader,setReader,other,e13]
    · rfl
  have conv (used : (e.shape.p1 depth).p1swEn = true) :
      e9 = configureReader depth (configureReader depth e8 .r3c 3 1 10) .r4c 4 1 11 :=
    if_pos ((congrArg (fun s : Shape => s.hasConv && (s.ports 3).enabled) shape7 :).trans used)
  change e14.readers id = _
  cases id with
  | r0 | r1 =>
    rw [kept14 (by simp),kept12 (by simp)]
    exact (kept9 (by simp)).trans (congrFun readers7 _)
  | r3c =>
    rw [kept14 (by simp),kept12 (by simp)]
    refine (congrArg (fun e => e.readers .r3c) (conv used)).trans ?_
    rw [← ports7]
    exact congrArg (asConfigured depth e7.shape.ports .r3c) (congrFun readers7 _)
  | r4c =>
    rw [kept14 (by simp),kept12 (by simp)]
    refine (congrArg (fun e => e.readers .r4c) (conv used)).trans ?_
    rw [← ports7]
    exact congrArg (asConfigured depth e7.shape.ports .r4c) (congrFun readers7 _)
  | r11 =>
    have on : e11.shape.r11p1En = true := (congrArg (fun ports => (ports 11).enabled) ports9 :).trans used
    have made : e12 = configureReader depth e11 .r11 11 1 6 := if_pos on
    rw [kept14 (by simp),made,← ports9]
    exact congrArg (asConfigured depth e9.shape.ports .r11) ((kept9 (by simp)).trans (congrFun readers7 _))
  | r12 =>
    rw [kept14 (by simp),kept12 (by simp),← ports9]
    exact congrArg (asConfigured depth e9.shape.ports .r12) ((kept9 (by simp)).trans (congrFun readers7 _))
  | r13 =>
    have on : e13.shape.r13En = true := (congrArg (fun ports => (ports 13).enabled) ports12 :).trans used
    have made : e14 = configureReader depth e13 .r13 13 4 12 := if_pos on
    have kept : e12.readers .r13 = e.readers .r13 :=
      (kept12 (by simp)).trans ((kept9 (by simp)).trans (congrFun readers7 _))
    rw [made,← ports12]
    exact congrArg (asConfigured depth e12.shape.ports .r13) kept
  | r2sw | r3sw | r5sw | r10 | rd p => exact absurd used Bool.false_ne_true

theorem writers_configureP1 (depth : Nat → Int) (e : AccelEngine) (some : 0 < e.shape.dFinal) (id : WriterId)
    (used : Kind.writes .p1 (e.shape.p1 depth) id = true) :
    (e.configureP1 depth).writers id = asWritten depth (Kind.shape .p1 (e.shape.p1 depth)) id := by
  unfold configureP1
  extract_lets e1 _ e2 _ e3 e4 _ e5 e6 e7 beats _ e8 e9 e10 _ e11 e12 _ e13 e14 e15 _ e16 _ _ e17
  have goes : ¬ e2.shape.dFinal ≤ 0 := not_le_of_gt some
  rw [if_neg goes]
  have shape6 : e6.shape = e5.shape := by unfold e6; split <;> rfl
  have kept9 : (e9.writers,e9.shape.ports) = (e7.writers,e7.shape.ports) := by unfold e9; split <;> rfl
  have kept12 : (e12.writers,e12.shape.ports) = (e10.writers,e10.shape.ports) := by
    unfold e12
    split <;> rfl
  have kept14 : (e14.writers,e14.shape.ports) = (e12.writers,e12.shape.ports) := by
    unfold e14
    split <;> rfl
  obtain ⟨writers,ports⟩ := Prod.mk.inj (kept14.trans (kept12.trans kept9))
  cases id with
  | w0 =>
    have made : e6 = configureWriter depth e5 .w0 14 1 1 2 := if_pos used
    have kept : e7.writers .w0 = e6.writers .w0 := by unfold e7; split <;> rfl
    refine (congrFun writers .w0).trans (kept.trans ?_)
    rw [made]
    rfl
  | w1 =>
    have on : e6.shape.w1En = true := (congrArg (fun s => s.w1En) shape6).trans used
    have made : e7 = configureWriter depth e6 .w1 15 1 1 2 := if_pos on
    have ports6 : e6.shape.ports = e.shape.ports := (congrArg (fun s => s.ports) shape6 :)
    refine (congrFun writers .w1).trans ?_
    rw [made]
    exact congrArg (fun ports : Nat → Port => CycWriter.reconfigure (ports 15).toAgu 1 1 2 (depth 15)) ports6
  | w3 =>
    have shape7 : e7.shape = e6.shape := by unfold e7; split <;> rfl
    have ports7 : e14.shape.ports = e.shape.ports :=
      ports.trans (congrArg (fun s => s.ports) (shape7.trans shape6) :)
    exact congrArg (fun ports : Nat → Port => CycWriter.reconfigure (ports 17).toAgu 4 1 8 (depth 17)) ports7
  | w2 | wr p => exact absurd used Bool.false_ne_true

theorem seen_configureP1 (depth : Nat → Int) (e : AccelEngine) (some : 0 < e.shape.dFinal) :
    Kind.seen .p1 (e.configureP1 depth) = starting .p1 (Kind.shape .p1 (e.shape.p1 depth)) true ∧
      (e.configureP1 depth).dma = e.dma.clear := by
  unfold configureP1
  extract_lets e1 _ e2 _ e3 e4 _ e5 e6 e7 beats _ e8 e9 e10 _ e11 e12 _ e13 e14 e15 _ e16 _ _ e17
  have goes : ¬ e2.shape.dFinal ≤ 0 := not_le_of_gt some
  rw [if_neg goes]
  have kept6 : e6.dma = e.dma := by unfold e6; split <;> rfl
  have kept7 : e7.dma = e6.dma := by unfold e7; split <;> rfl
  have kept9 : e9.dma = e7.dma := by unfold e9; split <;> rfl
  have kept12 : e12.dma = e9.dma := by unfold e12; split <;> rfl
  have kept14 : e14.dma = e12.dma := by unfold e14; split <;> rfl
  have kept : e14.dma = e.dma := by rw [kept14,kept12,kept9,kept7,kept6]
  exact ⟨rfl,congrArg (fun d => d.clear) kept⟩

theorem anew_P1 (depth : Nat → Int) (e : AccelEngine) (some : 0 < e.shape.dFinal) :
    Anew depth .p1 (Kind.shape .p1 (e.shape.p1 depth)) true e (e.configureP1 depth) := by
  have ⟨core,dma⟩ := seen_configureP1 depth e some
  refine ⟨by rw [shape_configureP1 depth e some],core,dma,fun id used => ?_,fun id used => ?_,nofun⟩
  · rw [Kind.reads_shape (by decide : Kind.p1 ≠ .simd)] at used
    exact readers_configureP1 depth e some id used
  · rw [Kind.writes_shape (by decide : Kind.p1 ≠ .simd)] at used
    exact writers_configureP1 depth e some id used

/-! ### P2 -/

theorem readers_configureP2 (depth : Nat → Int) (e : AccelEngine) (a : Args) (id : ReaderId)
    (used : Kind.reads .p2 (e.shape.p2 depth a) id = true) :
    (e.configureP2 depth a).readers id = asConfigured depth e.shape.ports id (e.readers id) := by
  unfold configureP2
  extract_lets e1 e2 e3 e4 _ _ e5 e6 e7 _ e8 e9 e10 e11 e12 _ e13 e14 _ e15 e16 _ e17 _ _ e18
  have kept10 (others : id ≠ .r2sw ∧ id ≠ .r3sw ∧ id ≠ .r5sw) : e10.readers id = e8.readers id := by
    obtain ⟨two,three,five⟩ := others
    unfold e10
    split
    · split <;> simp [configureReader,setReader,two,three,five,e9]
    · rfl
  have ports10 : e10.shape.ports = e.shape.ports := by
    unfold e10
    split
    · split <;> rfl
    · rfl
  have kept14 (other : id ≠ .r13) : e14.readers id = e12.readers id := by
    unfold e14
    split
    · simp [configureReader,setReader,other,e13]
    · rfl
  change e14.readers id = _
  cases id with
  | r0 | r1 | r10 => exact (kept14 (by simp)).trans (kept10 (by simp))
  | r11 =>
    have here : e12.readers .r11 = asConfigured depth e10.shape.ports .r11 (e10.readers .r11) := rfl
    rw [kept14 (by simp),here,ports10,kept10 (by simp)]
    rfl
  | r12 =>
    have here : e12.readers .r12 = asConfigured depth e10.shape.ports .r12 (e10.readers .r12) := rfl
    rw [kept14 (by simp),here,ports10,kept10 (by simp)]
    rfl
  | r13 =>
    have on : (e.shape.ports 13).enabled = true := by
      rcases Bool.or_eq_true_iff.mp used with on | loads
      · exact on
      · exact (Bool.and_eq_true_iff.mp loads).2
    have on13 : e13.shape.r13En = true := (congrArg (fun ports => (ports 13).enabled) ports10).trans on
    have made : e14 = configureReader depth e13 .r13 13 4 12 := if_pos on13
    have here : (configureReader depth e13 .r13 13 4 12).readers .r13 =
        asConfigured depth e10.shape.ports .r13 (e10.readers .r13) := rfl
    rw [made,here,ports10,kept10 (by simp)]
    rfl
  | r2sw | r3sw =>
    have on : e8.shape.swEn = true := used
    refine (kept14 (by simp)).trans ?_
    change e10.readers _ = _
    unfold e10
    rw [if_pos on]
    split <;> rfl
  | r5sw =>
    obtain ⟨on,five⟩ := Bool.and_eq_true_iff.mp used
    refine (kept14 (by simp)).trans ?_
    change e10.readers _ = _
    have made : e10 = configureReader depth e9 .r5sw 5 1 11 := (if_pos on).trans (if_pos five)
    rw [made]
    rfl
  | r3c | r4c | rd p => exact absurd used Bool.false_ne_true

theorem writers_configureP2 (depth : Nat → Int) (e : AccelEngine) (a : Args) :
    (e.configureP2 depth a).writers .w0 = CycWriter.reconfigure (e.shape.ports 14).toAgu 1 1 2 (depth 14) ∧
    (e.configureP2 depth a).writers .w2 = CycWriter.reconfigure (e.shape.ports 16).toAgu 1 1 5 (depth 16) ∧
    (e.configureP2 depth a).writers .w3 = CycWriter.reconfigure (e.shape.ports 17).toAgu 4
      (if (e.shape.p2 depth a).sucStateSv then 2 else 1) 8 (depth 17) := by
  have shape := shape_configureP2 depth e a
  unfold configureP2 at shape ⊢
  extract_lets e1 e2 e3 e4 _ _ e5 e6 e7 _ e8 e9 e10 e11 e12 _ e13 e14 _ e15 e16 _ e17 _ _ e18 at shape ⊢
  have kept10 : e10.writers = e8.writers ∧ e10.shape.ports = e.shape.ports := by
    unfold e10
    split
    · split <;> exact ⟨rfl,rfl⟩
    · exact ⟨rfl,rfl⟩
  have kept14 : e14.writers = e10.writers ∧ e14.shape.ports = e10.shape.ports := by
    unfold e14
    split <;> exact ⟨rfl,rfl⟩
  have saves : e15.shape.sucStateSv = (e.shape.p2 depth a).sucStateSv := congrArg (fun s => s.sucStateSv) shape
  refine ⟨congrFun (kept14.1.trans kept10.1) .w0,congrFun (kept14.1.trans kept10.1) .w2,?_⟩
  have here : e16.writers .w3 = CycWriter.reconfigure (e14.shape.ports 17).toAgu 4
      (if e15.shape.sucStateSv then 2 else 1) 8 (depth 17) := rfl
  exact here.trans (by rw [kept14.2,kept10.2,saves])

theorem seen_configureP2 (depth : Nat → Int) (e : AccelEngine) (a : Args) :
    Kind.seen .p2 (e.configureP2 depth a) = { AccelEngine.fresh with
      os := { AccelEngine.fresh.os with zwr := fun _ => !e.shape.enOs }
      isc := { AccelEngine.fresh.isc with iscAload := 48 }
      ctl := { AccelEngine.fresh.ctl with running := true } } ∧
    (e.configureP2 depth a).dma = e.dma.clear := by
  unfold configureP2
  extract_lets e1 e2 e3 e4 _ _ e5 e6 e7 _ e8 e9 e10 e11 e12 _ e13 e14 _ e15 e16 _ e17 _ _ e18
  have kept10 : (e10.os,e10.su,e10.sw,e10.dma) = (e8.os,e8.su,e8.sw,e8.dma) := by
    unfold e10
    split
    · split <;> rfl
    · rfl
  have kept14 : (e14.os,e14.su,e14.sw,e14.dma) = (e10.os,e10.su,e10.sw,e10.dma) := by
    unfold e14
    split <;> rfl
  have kept := kept14.trans kept10
  simp only [Prod.mk.injEq] at kept
  obtain ⟨os,su,sw,dma⟩ := kept
  have zwr : e14.os.zwr = fun _ => !e.shape.enOs := congrArg (fun os => os.zwr) os
  refine ⟨?_,congrArg (fun d => d.clear) dma⟩
  have last : Kind.seen .p2 ((e18.restart true).unlatch.unstart) = { AccelEngine.fresh with
      os := { AccelEngine.fresh.os with zwr := e14.os.zwr }
      su := e14.su
      sw := e14.sw
      isc := { AccelEngine.fresh.isc with iscAload := 48 }
      ctl := { AccelEngine.fresh.ctl with running := true } } := rfl
  rw [last,zwr,su,sw]
  rfl

theorem spare_configureP2 (depth : Nat → Int) (e : AccelEngine) (a : Args)
    (off : (e.shape.ports 5).enabled = false) :
    (e.configureP2 depth a).readers .r5sw = e.readers .r5sw := by
  unfold configureP2
  extract_lets _ _ _ _ _ _ _ _ _ _ e8 e9 e10 _ e12 _ _ e14 _ _ _ _ _ _ _ _
  have kept10 : e10.readers .r5sw = e8.readers .r5sw := by
    have idle : (e9.shape.ports 5).enabled = false := off
    unfold e10
    rw [idle,if_neg Bool.false_ne_true]
    split <;> rfl
  have kept14 : e14.readers .r5sw = e12.readers .r5sw := by
    unfold e14
    split <;> rfl
  exact kept14.trans kept10

theorem anew_P2 (depth : Nat → Int) (e : AccelEngine) (a : Args) :
    Anew depth .p2 (Kind.shape .p2 (e.shape.p2 depth a)) true e (e.configureP2 depth a) := by
  have ⟨core,dma⟩ := seen_configureP2 depth e a
  have ⟨w0,w2,w3⟩ := writers_configureP2 depth e a
  refine ⟨by rw [shape_configureP2],core,dma,fun id used => ?_,fun id used => ?_,
    fun _ _ off => spare_configureP2 depth e a off⟩
  · rw [Kind.reads_shape (by decide : Kind.p2 ≠ .simd)] at used
    exact readers_configureP2 depth e a id used
  · cases id with
    | w0 => exact w0
    | w2 => exact w2
    | w3 => exact w3
    | w1 | wr p => exact absurd used Bool.false_ne_true

/-! ### SIMD -/

/-- `e` is `e₀` with the first `m` reader and the first `n` writer ports configured. -/
structure Ports (depth : Nat → Int) (m n : Nat) (e₀ e : AccelEngine) : Prop where
  shape : e.shape.decoded = e₀.shape.decoded
  core : Kind.seen .simd e = Kind.seen .simd e₀
  dma : e.dma = e₀.dma
  reads : ∀ p < m, e.shape.simdREn p = (e₀.shape.ports p).enabled
  beats : ∀ p < m, e.shape.simdRBeats p =
    if (e₀.shape.ports p).enabled then simdBeats (e₀.shape.ports p) else 0
  pops : ∀ p < m, e.simdRPops p = 0
  readers : ∀ p, e.readers (.rd p) = if p < m ∧ (e₀.shape.ports p).enabled then
    asConfigured depth e₀.shape.ports (.rd p) (e₀.readers (.rd p)) else e₀.readers (.rd p)
  writes : ∀ p < n, e.shape.simdWEn p = (e₀.shape.ports (p + 14)).enabled
  writers : ∀ p < n, (e₀.shape.ports (p + 14)).enabled = true →
    e.writers (.wr p) = asWritten depth e₀.shape (.wr p)

section Ports

variable {depth : Nat → Int} {m n : Nat} {e₀ e : AccelEngine}

theorem Ports.same (made : Ports depth m n e₀ e) : e.shape.ports = e₀.shape.ports :=
  (congrArg (fun s => s.ports) made.shape :)

theorem Ports.reader (made : Ports depth m n e₀ e) :
    Ports depth (m + 1) n e₀ (configureSimdReader depth e m) := by
  have ports := made.same
  obtain ⟨shape,core,dma,reads,beats,pops,readers,writes,writers⟩ := made
  unfold configureSimdReader
  extract_lets on _ e1
  have enabled : on = (e₀.shape.ports m).enabled := by rw [← ports]
  generalize made : (if on = true then configureReader depth e1 (.rd m) m (portNchSimd.getD m 1) m else e1) = x
  have kept : (x.shape,x.dma,x.simdRPops,x.writers) = (e1.shape,e1.dma,e1.simdRPops,e1.writers) := by
    rw [← made]
    split <;> rfl
  obtain ⟨shape1,dma1,pops1,writers1⟩ : x.shape = e1.shape ∧ x.dma = e1.dma ∧
      x.simdRPops = e1.simdRPops ∧ x.writers = e1.writers := by simpa only [Prod.mk.injEq] using kept
  have core1 : Kind.seen .simd x = Kind.seen .simd e := by
    rw [← made]
    split <;> rfl
  refine ⟨by rw [shape1]; exact shape,core1.trans core,dma1.trans dma,fun p below => ?_,fun p below => ?_,
    fun p below => ?_,fun p => ?_,by rw [shape1]; exact writes,by rw [writers1]; exact writers⟩
  · rw [shape1]
    rcases Nat.lt_succ_iff_lt_or_eq.mp below with earlier | here
    · exact (if_neg (Nat.ne_of_lt earlier)).trans (reads p earlier)
    · rw [here]
      exact (if_pos rfl).trans enabled
  · rw [shape1]
    rcases Nat.lt_succ_iff_lt_or_eq.mp below with earlier | here
    · exact (if_neg (Nat.ne_of_lt earlier)).trans (beats p earlier)
    · rw [here,← enabled,← ports]
      exact if_pos rfl
  · rw [pops1]
    rcases Nat.lt_succ_iff_lt_or_eq.mp below with earlier | here
    · exact (if_neg (Nat.ne_of_lt earlier)).trans (pops p earlier)
    · rw [here]
      exact if_pos rfl
  · by_cases here : p = m
    · subst here
      have before : e.readers (.rd p) = e₀.readers (.rd p) := by
        rw [readers p,if_neg fun both => Nat.lt_irrefl p both.1]
      rw [← made,← before,← enabled,← ports]
      simp only [Nat.lt_succ_self,true_and]
      split
      · exact if_pos rfl
      · rfl
    · have other : p < m + 1 ↔ p < m := by omega
      have kept : x.readers (.rd p) = e.readers (.rd p) := by
        rw [← made]
        split
        · simp [configureReader,setReader,here,e1]
        · rfl
      rw [kept,readers p]
      simp only [other]

theorem Ports.writer (made : Ports depth m n e₀ e) :
    Ports depth m (n + 1) e₀ (configureSimdWriter depth e (n + 14)) := by
  have ports := made.same
  obtain ⟨shape,core,dma,reads,beats,pops,readers,writes,writers⟩ := made
  unfold configureSimdWriter
  extract_lets on _ e1
  have enabled : on = (e₀.shape.ports (n + 14)).enabled := by rw [← ports]
  generalize made : (if on = true then
    configureWriter depth e1 (.wr (n + 14 - 14)) (n + 14) (portNchSimd.getD (n + 14) 1) 1 (n + 14) else e1) = x
  have kept : (x.shape,x.dma,x.simdRPops,x.readers) = (e1.shape,e1.dma,e1.simdRPops,e1.readers) := by
    rw [← made]
    split <;> rfl
  obtain ⟨shape1,dma1,pops1,readers1⟩ : x.shape = e1.shape ∧ x.dma = e1.dma ∧
      x.simdRPops = e1.simdRPops ∧ x.readers = e1.readers := by simpa only [Prod.mk.injEq] using kept
  have core1 : Kind.seen .simd x = Kind.seen .simd e := by
    rw [← made]
    split <;> rfl
  refine ⟨by rw [shape1]; exact shape,core1.trans core,dma1.trans dma,by rw [shape1]; exact reads,
    by rw [shape1]; exact beats,by rw [pops1]; exact pops,by rw [readers1]; exact readers,
    fun p below => ?_,fun p below used => ?_⟩
  · rw [shape1]
    rcases Nat.lt_succ_iff_lt_or_eq.mp below with earlier | here
    · exact (if_neg (Nat.ne_of_lt earlier)).trans (writes p earlier)
    · rw [here]
      exact (if_pos rfl).trans enabled
  · rcases Nat.lt_succ_iff_lt_or_eq.mp below with earlier | here
    · have other : ¬ WriterId.wr p = WriterId.wr n := fun same => Nat.ne_of_lt earlier (WriterId.wr.inj same)
      rw [← writers p earlier used,← made]
      split
      · exact if_neg other
      · rfl
    · rw [here] at used ⊢
      rw [← made,if_pos (enabled.trans used),asWritten,← ports]
      exact if_pos rfl

end Ports

theorem ports_fold (depth : Nat → Int) (e : AccelEngine) (m n : Nat) : Ports depth m n e
    ((List.range' 14 n).foldl (configureSimdWriter depth) ((List.range m).foldl (configureSimdReader depth) e)) := by
  induction n with
  | zero =>
    induction m with
    | zero =>
      exact ⟨rfl,rfl,rfl,fun _ below => absurd below (Nat.not_lt_zero _),
        fun _ below => absurd below (Nat.not_lt_zero _),fun _ below => absurd below (Nat.not_lt_zero _),
        fun p => (if_neg fun both => Nat.not_lt_zero p both.1).symm,
        fun _ below => absurd below (Nat.not_lt_zero _),fun _ below => absurd below (Nat.not_lt_zero _)⟩
    | succ m ih =>
      rw [List.range_succ,List.foldl_append]
      exact Ports.reader ih
  | succ n ih =>
    rw [List.range'_concat,List.foldl_append,Nat.one_mul,Nat.add_comm 14 n]
    exact ih.writer

/-- `maxbeats`, of the ports alone. -/
def longest (depth : Nat → Int) (ports : Nat → Port) : Int :=
  ((List.range 18).filter fun p => (ports p).enabled).foldl (fun longest p =>
    max longest (if p < 14 then simdBeats (ports p)
      else writerBeats (ports p).toAgu (portNchSimd.getD p 1) 1 p (depth p))) 0

theorem Ports.longest {depth : Nat → Int} {e₀ e : AccelEngine} (made : Ports depth 14 4 e₀ e) :
    e.simdMaxBeats = longest depth e₀.shape.ports := by
  rw [simdMaxBeats,AccelEngine.longest,made.same]
  refine List.foldl_ext _ _ _ fun most p listed => ?_
  obtain ⟨inside,used⟩ := List.mem_filter.mp listed
  split
  · rfl
  · rename_i writer
    have below := List.mem_range.mp inside
    have back : p - 14 + 14 = p := by omega
    have here := made.writers (p - 14) (by omega) (by rw [back]; exact used)
    rw [asWritten,back] at here
    rw [here]
    rfl

theorem alike_Simd (depth : Nat → Int) {e e' : AccelEngine} (a : Args)
    (dma : e.dma.clear.Alike e'.dma.clear) :
    Alike .simd ((e.decode a).configureSimd depth) ((e'.decode a).configureSimd depth) := by
  unfold configureSimd
  extract_lets _ e1 e2 e3 _ e4 _ f1 f2 f3 _ f4
  have made : Ports depth 14 4 e1 e3 := ports_fold depth e1 14 4
  have made' : Ports depth 14 4 f1 f3 := ports_fold depth f1 14 4
  have cap : e4.shape.cap = f4.shape.cap := by
    change capOf e3.simdMaxBeats = capOf f3.simdMaxBeats
    rw [made.longest,made'.longest]
    rfl
  have running : ((List.range 18).any fun p => (f4.shape.ports p).enabled) =
      (List.range 18).any fun p => (e4.shape.ports p).enabled := by
    have ports : f4.shape.ports = e4.shape.ports := made'.same.trans made.same.symm
    rw [ports]
  have settings : Kind.shape .simd e4.shape = Kind.shape .simd f4.shape := by
    have here : Kind.shape .simd e4.shape = { e3.shape.decoded with cap := e4.shape.cap } := rfl
    have there : Kind.shape .simd f4.shape = { f3.shape.decoded with cap := f4.shape.cap } := rfl
    rw [here,there,made.shape,made'.shape,cap]
    rfl
  refine ⟨(congrArg (fun s => s.kind) made.shape :),settings,?_,?_,fun id used => ?_,fun id used => ?_,
    fun _ => ⟨fun p below => ?_,fun p below => ?_,fun p below => ?_,fun p below => ?_⟩,nofun,nofun⟩
  · rw [running]
    rfl
  · change DmaEngine.Alike e3.dma.clear f3.dma.clear
    rw [made.dma,made'.dma]
    exact dma
  · cases id with
    | rd p =>
      obtain ⟨below,on⟩ := Bool.and_eq_true_iff.mp used
      have inside := of_decide_eq_true below
      have enabled : (a.ports p).enabled = true := (made.reads p inside).symm.trans on
      have here := (made.readers p).trans (if_pos ⟨inside,enabled⟩)
      have there := (made'.readers p).trans (if_pos ⟨inside,enabled⟩)
      change (e3.readers (.rd p)).Alike _ (f3.readers (.rd p))
      rw [here,there]
      exact asConfigured_alike depth a.ports (.rd p) _ _ nofun
    | _ => exact absurd used Bool.false_ne_true
  · cases id with
    | wr p =>
      obtain ⟨below,on⟩ := Bool.and_eq_true_iff.mp used
      have inside := of_decide_eq_true below
      have enabled : (a.ports (p + 14)).enabled = true := (made.writes p inside).symm.trans on
      exact (made'.writers p inside enabled).trans (made.writers p inside enabled).symm
    | _ => exact absurd used Bool.false_ne_true
  · exact (made'.reads p below).trans (made.reads p below).symm
  · exact (made'.beats p below).trans (made.beats p below).symm
  · exact (made'.pops p below).trans (made.pops p below).symm
  · exact (made'.writes p below).trans (made.writes p below).symm

/-! ### The DMA -/

/-- The beat periods that the engine is made with. -/
def periods (e : AccelEngine) : Int × Int := (e.dma.beatPeriodL3,e.dma.beatPeriodTcdm)

theorem periods_step (d : DmaEngine) (cyc : Nat) :
    (d.step cyc).1.beatPeriodL3 = d.beatPeriodL3 ∧ (d.step cyc).1.beatPeriodTcdm = d.beatPeriodTcdm := by
  unfold DmaEngine.step
  split
  · unfold DmaEngine.beat
    split <;> exact ⟨rfl,rfl⟩
  · split
    · split
      · exact ⟨rfl,rfl⟩
      · unfold DmaEngine.beat
        split <;> exact ⟨rfl,rfl⟩
    · exact ⟨rfl,rfl⟩

section Commits

variable (g : List Bool) (x : Readback)

theorem dma_ite {c : Prop} [Decidable c] {x y : Readback} {d : DmaEngine} (yes : x.engine.dma = d)
    (no : y.engine.dma = d) : (if c then x else y).engine.dma = d := by
  split
  · exact yes
  · exact no

theorem dma_commitDtBC : (commitDtBC g x).engine.dma = x.engine.dma := by
  have lane (x : Readback) (l : Nat) : (commitLane7 g x l).engine.dma = x.engine.dma := by
    unfold commitLane7
    split
    · split <;> rfl
    · rfl
  simp only [commitDtBC,List.range,List.range.loop,List.foldl_cons,List.foldl_nil,lane]

theorem dma_commitZ : (commitZ g x).engine.dma = x.engine.dma := dma_ite rfl rfl

theorem dma_commitY : (commitY g x).engine.dma = x.engine.dma := dma_ite rfl rfl

theorem dma_commitReadZ : (commitReadZ g x).engine.dma = x.engine.dma := dma_ite rfl rfl

theorem dma_commitReadY : (commitReadY g x).engine.dma = x.engine.dma := dma_ite rfl rfl

theorem dma_commitsP1 : (commitsP1 g x).engine.dma = x.engine.dma := by
  unfold commitsP1
  extract_lets x1 x2 x3 x4 x5 x6
  have d2 : x2.engine.dma = x.engine.dma := dma_ite rfl (dma_ite rfl rfl)
  have d3 : x3.engine.dma = x.engine.dma := dma_ite d2 d2
  have d5 : x5.engine.dma = x.engine.dma := dma_ite d3 d3
  exact (dma_ite d5 d5 : x6.engine.dma = x.engine.dma)

theorem dma_foldl {f : Readback → Nat → Readback} (kept : ∀ x p, (f x p).engine.dma = x.engine.dma)
    (ps : List Nat) : (ps.foldl f x).engine.dma = x.engine.dma := by
  induction ps generalizing x with
  | nil => rfl
  | cons p ps ih => exact (ih (f x p)).trans (kept x p)

theorem dma_commitsSimd : (commitsSimd g x).engine.dma = x.engine.dma := by
  unfold commitsSimd
  refine (dma_foldl _ (fun x p => ?_) _).trans (dma_foldl _ (fun x p => ?_) _)
  · exact dma_ite rfl rfl
  · exact dma_ite rfl rfl

theorem dma_commitsP2 (suc isc : Bool) : (commitsP2 suc isc g x).engine.dma = x.engine.dma := by
  unfold commitsP2
  extract_lets x1 x2 x3 x4 x5 x6 x7 x8 x9
  have d1 : x1.engine.dma = x.engine.dma := dma_ite (dma_commitZ g _) rfl
  have d2 : x2.engine.dma = x.engine.dma := (dma_commitDtBC g x1).trans d1
  have d3 : x3.engine.dma = x.engine.dma := by
    unfold x3
    split
    · exact (dma_commitReadZ g x2).trans d2
    · exact d2
  have d4 : x4.engine.dma = x.engine.dma := (dma_commitY g x3).trans d3
  have d6 : x6.engine.dma = x.engine.dma := dma_ite (dma_ite d4 d4) d4
  have d7 : x7.engine.dma = x.engine.dma := (dma_commitReadY g x6).trans d6
  have d8 : x8.engine.dma = x.engine.dma := by
    unfold x8
    split
    · exact dma_ite d7 d7
    · exact d6
  have d9 : x9.engine.dma = x.engine.dma := dma_ite d8 d8
  exact dma_ite d9 d9

end Commits

theorem periods_phase (e : AccelEngine) (requests : List Request) {commits : List Bool → Readback → Readback}
    (kept : ∀ g x, (commits g x).engine.dma = x.engine.dma) :
    (e.fabricPhase requests commits).1.periods = e.periods := by
  rw [fabricPhase_eq]
  simp only [periods,kept,arbitrated]
  rw [(periods_step _ _).1,(periods_step _ _).2]

theorem Still.periods {e e' : AccelEngine} (still : Still e e') : e'.periods = e.periods := by
  rw [AccelEngine.periods,AccelEngine.periods,still.dma]

theorem periods_sampled (e : AccelEngine) : e.sampleFifo.periods = e.periods := (still_sampleFifo e).periods

theorem periods_ite {c : Prop} [Decidable c] {t u : AccelEngine × Trace} {d : Int × Int}
    (yes : t.1.periods = d) (no : u.1.periods = d) : (if c then t else u).1.periods = d := by
  split
  · exact yes
  · exact no

theorem periods_stepP1 (e : AccelEngine) : e.stepP1.1.periods = e.periods := by
  unfold stepP1
  extract_lets e1 x
  have still : e1.periods = e.periods := (still_core (moves_beforeP1 _ fun _ _ _ => trivial)).periods
  exact periods_ite rfl (periods_ite rfl (periods_ite still
    ((periods_sampled _).trans ((periods_phase e1 _ dma_commitsP1).trans still))))

theorem periods_stepOs (e : AccelEngine) : e.stepOs.1.periods = e.periods := by
  unfold stepOs
  extract_lets e1 e2 ended _ x
  have still : e2.periods = e.periods := (still_core (moves_beforeOs _ fun _ _ _ => trivial)).periods
  have phase : (e2.fabricPhase e2.requestsOs commitsOs).1.periods = e2.periods :=
    periods_phase e2 _ fun _ _ => rfl
  exact periods_ite rfl (periods_ite rfl (periods_ite ((periods_sampled _).trans still)
    ((periods_sampled _).trans (phase.trans still))))

theorem periods_stepIs (e : AccelEngine) : e.stepIs.1.periods = e.periods := by
  unfold stepIs
  extract_lets e1 ended _ x
  have still : e1.periods = e.periods := (still_core (moves_beforeIs _ fun _ _ _ => trivial)).periods
  have phase : (e1.fabricPhase (e1.writerPosts .w3) fun g x => commitWriter g x .w3).1.periods = e1.periods :=
    periods_phase e1 _ fun _ _ => rfl
  exact periods_ite rfl (periods_ite rfl (periods_ite ((periods_sampled _).trans still)
    ((periods_sampled _).trans (phase.trans still))))

theorem periods_stepSimd (e : AccelEngine) : e.stepSimd.1.periods = e.periods := by
  unfold stepSimd
  extract_lets e1 e2
  have still : e2.periods = e.periods := (still_core (moves_beforeSimd _ fun _ _ _ => trivial)).periods
  exact periods_ite rfl (periods_ite rfl (periods_ite still
    ((periods_phase e2 _ dma_commitsSimd).trans still)))

theorem periods_stepP2 (e : AccelEngine) : e.stepP2.1.periods = e.periods := by
  unfold stepP2
  extract_lets e1 suc isc e2 x
  have still : e2.periods = e.periods := (still_beforeP2 e.ticked).periods
  exact periods_ite rfl (periods_ite rfl (periods_ite still
    ((periods_sampled _).trans ((periods_phase e2 _ fun g x => dma_commitsP2 g x suc isc).trans still))))

/-! ### The modes -/

/-- The kind that `configure` sets up, if it does not return before. -/
def Args.kind (a : Args) : Option Kind :=
  let s := (fresh.decode a).shape
  if !s.enOs && !s.enSuc && !s.enIsc then some .simd
  else if s.mI ≤ 0 || s.osN ≤ 0 then none
  else if s.enSuc then some .p2
  else if s.enOs && s.enIsc then (if s.dFinal ≤ 0 then none else some .p1)
  else if s.enOs then some .os
  else some .is

/-- What an invocation cannot show of the time before it, where `configure` keeps it: the counters
and the result if it returns before it sets them, and in P2 the words that R10 and R11 have named
last, and what R5 has to read where only the switchCore is on. -/
structure Clean (e : AccelEngine) (a : Args) : Prop where
  counters : a.kind = none → e.ctl.cyc = 0 ∧ e.ctl.gR10 = 0 ∧ e.ctl.gR11 = 0 ∧ e.ctl.gIscore = 0 ∧
    e.res = Result.empty
  spare : a.kind = some .p2 → 0 < a.swCyc → (a.ports 2).enabled = true → (a.ports 5).enabled = false →
    (e.readers .r5sw).Spent
  z : a.kind = some .p2 → (fresh.decode a).shape.enOs = true →
    wordOff (a.ports 10).strides (e.readers .r10).ti = 0
  y : a.kind = some .p2 → (fresh.decode a).shape.enIsc = true →
    wordOff (a.ports 11).strides (e.readers .r11).ti = 0

/-- Engines that do not run, and show the same. -/
structure Halted (e e' : AccelEngine) : Prop where
  still : e.ctl.running = false
  still' : e'.ctl.running = false
  view : ∀ t, e'.view t = e.view t

/-- Nobody can tell the engines apart before the next configuration. -/
def Mirrors (e e' : AccelEngine) : Prop := Halted e e' ∨ ∃ k, Alike k e e'

theorem Halted.call {e e' : AccelEngine} (halted : Halted e e') (depth : Nat → Int) {c : Call}
    (goes : c.isConfigure = false) : Halted (next depth e c) (next depth e' c) ∧
      (accelEngine depth).out e' c = (accelEngine depth).out e c := by
  obtain ⟨still,still',view⟩ := halted
  cases c with
  | configure a => exact absurd goes.symm Bool.false_ne_true
  | step =>
    have same : next depth e .step = e := congrArg Prod.fst (step_stopped still)
    have same' : next depth e' .step = e' := congrArg Prod.fst (step_stopped still')
    rw [same,same']
    refine ⟨⟨still,still',view⟩,?_⟩
    change e'.step.1.view e'.step.2 = e.step.1.view e.step.2
    rw [step_stopped still,step_stopped still']
    exact view quiet
  | dmaEnqueue tcdmAddr bytes l3 atRel => exact ⟨⟨still,still',view⟩,view quiet⟩
  | releaseR10 => exact ⟨⟨still,still',view⟩,view quiet⟩
  | releaseR11 => exact ⟨⟨still,still',view⟩,view quiet⟩

theorem Mirrors.call {e e' : AccelEngine} (mirrors : Mirrors e e') (depth : Nat → Int) {c : Call}
    (goes : c.isConfigure = false) : Mirrors (next depth e c) (next depth e' c) ∧
      (accelEngine depth).out e' c = (accelEngine depth).out e c := by
  rcases mirrors with halted | ⟨k,alike⟩
  · have ⟨kept,shown⟩ := halted.call depth goes
    exact ⟨.inl kept,shown⟩
  · have ⟨kept,shown⟩ := alike.call depth goes
    exact ⟨.inr ⟨k,kept⟩,shown⟩

theorem mirrors_ite {c c' : Prop} [Decidable c] [Decidable c'] {a a' b b' : AccelEngine} (same : c' ↔ c)
    (yes : c → Mirrors a a') (no : ¬ c → Mirrors b b') :
    Mirrors (if c then a else b) (if c' then a' else b') := by
  by_cases holds : c
  · rw [if_pos holds,if_pos (same.mpr holds)]
    exact yes holds
  · rw [if_neg holds,if_neg fun other => holds (same.mp other)]
    exact no holds

theorem Clean.halted {e e' : AccelEngine} {a : Args} (clean : Clean e a) (clean' : Clean e' a)
    (quits : a.kind = none) : Halted (e.decode a) (e'.decode a) := by
  obtain ⟨cyc,r10,r11,isCore,res⟩ := clean.counters quits
  obtain ⟨cyc',r10',r11',isCore',res'⟩ := clean'.counters quits
  refine ⟨rfl,rfl,fun t => ?_⟩
  change View.mk t false e'.ctl.cyc e'.ctl.gR10 e'.ctl.gR11 e'.ctl.gIscore e'.res =
    View.mk t false e.ctl.cyc e.ctl.gR10 e.ctl.gR11 e.ctl.gIscore e.res
  rw [cyc,r10,r11,isCore,res,cyc',r10',r11',isCore',res']

theorem Clean.cleared {e : AccelEngine} {a : Args} (clean : Clean e a) (depth : Nat → Int)
    (p2 : a.kind = some .p2) :
    Cleared .p2 (Kind.shape .p2 ((fresh.decode a).shape.p2 depth a)) (e.decode a) := by
  refine ⟨fun id watched => ?_,fun _ sw off => ?_⟩
  · cases id with
    | r10 => exact clean.z p2 watched
    | r11 => exact clean.y p2 watched
    | _ => exact absurd watched Bool.false_ne_true
  · obtain ⟨some,two⟩ := Bool.and_eq_true_iff.mp sw
    exact clean.spare p2 (of_decide_eq_true some) two off

theorem cleared_none {k : Kind} (other : k ≠ .p2) (s : Shape) (e : AccelEngine) : Cleared k s e := by
  refine ⟨fun id watched => ?_,fun p2 => absurd p2 other⟩
  cases k with
  | p2 => exact absurd rfl other
  | _ => exact absurd watched Bool.false_ne_true

theorem Anew.plain {depth : Nat → Int} {k : Kind} {s : Shape} {running : Bool} {e₀ e₀' e e' : AccelEngine}
    (anew : Anew depth k s running e₀ e) (anew' : Anew depth k s running e₀' e') (gemm : k ≠ .simd)
    (other : k ≠ .p2) (code : s.kind = k.code) (dma : e₀.dma.clear.Alike e₀'.dma.clear) : Alike k e e' :=
  anew.alike anew' gemm code (cleared_none other s e₀) (cleared_none other s e₀') dma

/-- Two engines that are clean for an invocation show the same of it. -/
theorem configure_mirrors (depth : Nat → Int) {e e' : AccelEngine} {a : Args} (clean : Clean e a)
    (clean' : Clean e' a) (dma : e.dma.clear.Alike e'.dma.clear) :
    Mirrors (configure depth e a) (configure depth e' a) := by
  unfold configure
  extract_lets e1 f1
  refine mirrors_ite Iff.rfl (fun _ => .inr ⟨.simd,alike_Simd depth a dma⟩) fun gemm => ?_
  refine mirrors_ite Iff.rfl (fun empty => .inl (clean.halted clean' ((if_neg gemm).trans (if_pos empty))))
    fun sizes => ?_
  have sized {k : Option Kind} (rest : (if e1.shape.enSuc then some .p2
      else if e1.shape.enOs && e1.shape.enIsc then (if e1.shape.dFinal ≤ 0 then none else some .p1)
      else if e1.shape.enOs then some .os else some .is) = k) : a.kind = k :=
    (if_neg gemm).trans ((if_neg sizes).trans rest)
  refine mirrors_ite Iff.rfl (fun noSuc => ?_) fun suc => .inr ⟨.p2,?_⟩
  · have off : ¬ e1.shape.enSuc = true := by simpa using noSuc
    refine mirrors_ite Iff.rfl (fun both => ?_) fun single => mirrors_ite Iff.rfl (fun _ => .inr ⟨.os,?_⟩)
      fun noOs => mirrors_ite Iff.rfl (fun _ => .inr ⟨.is,?_⟩) fun noIsc => ?_
    · rcases Int.lt_or_le 0 e1.shape.dFinal with goes | none
      · exact .inr ⟨.p1,(anew_P1 depth e1 goes).plain (anew_P1 depth f1 goes) nofun nofun rfl dma⟩
      · have quits := sized ((if_neg off).trans ((if_pos both).trans (if_pos none)))
        have ⟨_,_,view⟩ := clean.halted clean' quits
        have stays : e1.configureP1 depth = _ := if_pos none
        have stays' : f1.configureP1 depth = _ := if_pos none
        rw [stays,stays']
        exact .inl ⟨rfl,rfl,view⟩
    · exact (anew_Os depth e1).plain (anew_Os depth f1) nofun nofun rfl dma
    · exact (anew_Is depth e1).plain (anew_Is depth f1) nofun nofun rfl dma
    · exact absurd gemm (by simp_all)
  · have on : e1.shape.enSuc = true := by simpa using suc
    exact (anew_P2 depth e1 a).alike (anew_P2 depth f1 a) nofun rfl
      (clean.cleared depth (sized (if_pos on))) (clean'.cleared depth (sized (if_pos on))) dma

theorem Mirrors.run {e e' : AccelEngine} (mirrors : Mirrors e e') (depth : Nat → Int) {calls : List Call}
    (one : ∀ c ∈ calls, c.isConfigure = false) :
    (accelEngine depth).outs e' calls = (accelEngine depth).outs e calls := by
  induction calls generalizing e e' with
  | nil => rfl
  | cons c calls ih =>
    have ⟨kept,shown⟩ := mirrors.call depth (one c List.mem_cons_self)
    rw [Sync.Machine.outs_cons,Sync.Machine.outs_cons,shown]
    exact congrArg _ (ih kept fun other inside => one other (List.mem_cons_of_mem c inside))

theorem Mirrors.view {e e' : AccelEngine} (mirrors : Mirrors e e') (t : Trace) : e'.view t = e.view t := by
  rcases mirrors with halted | ⟨k,alike⟩
  · exact halted.view t
  · exact alike.view t

/-! ### Reachable engines -/

theorem periods_configure (depth : Nat → Int) (e : AccelEngine) (a : Args) :
    (configure depth e a).periods = e.periods := by
  have cleared {e' : AccelEngine} (dma : e'.dma = e.dma.clear) : e'.periods = e.periods := by
    rw [periods,dma]
    rfl
  have ite {c : Prop} [Decidable c] {a b : AccelEngine} (yes : a.periods = e.periods)
      (no : ¬ c → b.periods = e.periods) : (if c then a else b).periods = e.periods := by
    split
    · exact yes
    · rename_i other
      exact no other
  unfold configure
  extract_lets e1
  refine ite (cleared ?_) fun _ => ite rfl fun _ => ?_
  · exact congrArg DmaEngine.clear (ports_fold depth _ 14 4).dma
  · split
    · refine ite ?_ fun _ => ite (cleared (anew_Os depth e1).dma) fun _ => ite (cleared (anew_Is depth e1).dma)
        fun _ => rfl
      rcases Int.lt_or_le 0 e1.shape.dFinal with goes | none
      · exact cleared (anew_P1 depth e1 goes).dma
      · have stays : e1.configureP1 depth = _ := if_pos none
        rw [stays]
        rfl
    · exact cleared (anew_P2 depth e1 a).dma

theorem reachable_periods (depth : Nat → Int) (calls : List Call) :
    ((accelEngine depth).exec fresh calls).periods = (1,1) := by
  refine Sync.Machine.run_rule (m := accelEngine depth) (fun _ e => e.periods = (1,1)) rfl
    (fun _ e c same => Eq.trans ?_ same) calls
  cases c with
  | configure a => exact periods_configure depth e a
  | step =>
    change e.step.1.periods = e.periods
    unfold step
    exact periods_ite (periods_stepP1 e) (periods_ite (periods_stepOs e) (periods_ite (periods_stepIs e)
      (periods_ite (periods_stepSimd e) (periods_stepP2 e))))
  | dmaEnqueue tcdmAddr bytes l3 atRel =>
    change periods { e with dma := e.dma.enqueue tcdmAddr bytes l3 atRel } = _
    unfold periods DmaEngine.enqueue
    split <;> rfl
  | releaseR10 => rfl
  | releaseR11 => rfl

theorem toff_zero (n : Nat) (ts : List Int) : Agu.toff (List.replicate n 0) ts = 0 := by
  induction n generalizing ts with
  | zero => rfl
  | succ n ih =>
    cases ts with
    | nil => rfl
    | cons t ts =>
      rw [List.replicate_succ,Agu.toff,ih]
      omega

theorem clean_fresh (a : Args) : Clean fresh a := by
  have first (ts : List Int) : wordOff ts (List.replicate 4 0) = 0 := by
    rw [wordOff,toff_zero]
    rfl
  refine ⟨fun _ => ⟨rfl,rfl,rfl,rfl,rfl⟩,fun _ _ _ _ => ⟨rfl,fun active => absurd active Bool.false_ne_true⟩,
    fun _ _ => first _,fun _ _ => first _⟩

end AccelEngine

open AccelEngine

/-- An invocation of an engine that is clean for it shows, call by call, what a new engine shows. -/
theorem invocation_isolated (depth : Nat → Int) (before : List Call) (a : Args) (after : List Call)
    (one : ∀ c ∈ after, c.isConfigure = false) (clean : Clean ((accelEngine depth).exec fresh before) a) :
    (accelEngine depth).outs ((accelEngine depth).exec fresh before) (.configure a :: after) =
      (accelEngine depth).outs fresh (.configure a :: after) := by
  have periods := reachable_periods depth before
  generalize (accelEngine depth).exec fresh before = e at clean periods
  obtain ⟨long,short⟩ := Prod.mk.inj periods
  have dma : e.dma.clear.Alike fresh.dma.clear :=
    ⟨⟨rfl,rfl,rfl⟩,⟨long.symm,short.symm⟩,rfl,fun active => absurd active Bool.false_ne_true⟩
  have mirrors := configure_mirrors depth clean (clean_fresh a) dma
  rw [Sync.Machine.outs_cons,Sync.Machine.outs_cons]
  exact (congrArg₂ List.cons (mirrors.view quiet) (mirrors.run depth one)).symm

namespace AccelEngine

def switchPorts (five : Bool) (p : Nat) : Port :=
  wordPort 0x10000000 4 8 (p == 2 || p == 3 || (p == 5 && five))

/-- A scan with the switchCore in front of it. -/
def switched (five : Bool) : Args where
  ports := switchPorts five
  cfg := ⟨0x100000,16,4,1,24,1⟩
  r10StartCnt := 0
  r11StartCnt := 0
  swCyc := 4
  recFires := false
  recFifo := false

end AccelEngine

/-- A scan without R5 after one that was broken off. -/
theorem invocation_isolated_scan : (accelEngine (snaxStreamerDepth none)).outs
      ((accelEngine (snaxStreamerDepth none)).exec fresh [.configure (switched false),.step])
      [.configure (switched false),.step] =
    (accelEngine (snaxStreamerDepth none)).outs fresh [.configure (switched false),.step] :=
  invocation_isolated (snaxStreamerDepth none) [.configure (switched false),.step] (switched false) [.step]
    (by decide) ⟨fun none => absurd none (by decide),fun _ _ _ _ => ⟨by decide +kernel,fun on => absurd on (by decide +kernel)⟩,
      fun _ on => absurd on (by decide),fun _ on => absurd on (by decide)⟩

/-- R5 goes on with the words of the invocation before. -/
theorem invocation_shows_spare : ¬ ∀ (override : Option (List Int)) (before : List Call) (a : Args)
    (after : List Call), (∀ c ∈ after, c.isConfigure = false) →
      (accelEngine (snaxStreamerDepth override)).outs
          ((accelEngine (snaxStreamerDepth override)).exec fresh before) (.configure a :: after) =
        (accelEngine (snaxStreamerDepth override)).outs fresh (.configure a :: after) := by
  intro all
  have same := all none [.configure (switched true)] (switched false) [.step] (by decide)
  have posts := congrArg (fun views => views.map fun v : View => v.trace.requests.length) same
  exact absurd posts (by decide +kernel)

end Snax
