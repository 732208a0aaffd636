import Snax.BlockGemmLaw

/-! Configurations of the block matrix multiplication with a bound of zero: which of them
an idle core ignores, and what a busy core still has to hand out. -/
namespace Snax.BlockGemm

variable {p : GemmParams}

/-- The number of outputs is zero, or no product is needed for one. -/
def Degenerate (c : BlockGemmCtrl) : Prop := c.m = 0 ∨ c.n = 0 ∨ c.k = 0

/-- The cycle without the offered configuration. -/
def withdrawn (i : Input p) : Input p := { i with ctrlValid := false }

/-- The core takes and gives nothing. -/
structure Still (s : State p) (i : Input p) : Prop where
  idle : s.busy = false
  pair : pair s i = none
  c : cFire s i = none
  d : dFire s i = none

/-- What a degenerate configuration, and any busy state, promise. -/
structure IdleContract (s : State p) (i : Input p) : Prop where
  /-- Until the next configuration is offered the core is still. -/
  ignored : configValid s i = true → Degenerate i.ctrl → Still s i ∧
    ∀ rest : List (Input p), (∀ j ∈ rest, j.ctrlValid = false) → ∀ j,
      Still ((blockGemm p).exec (next s i) rest) j
  /-- The next configuration is accepted and runs as if there had been no other. -/
  unaffected : configValid s i = true → Degenerate i.ctrl →
    ∀ rest : List (Input p), (∀ j ∈ rest, j.ctrlValid = false) → ∀ j, j.ctrlValid = true →
      configValid ((blockGemm p).exec (next s i) rest) j = true ∧
      next ((blockGemm p).exec (next s i) rest) j =
        next ((blockGemm p).exec (next s (withdrawn i)) rest) j
  remaining : s.busy = true → s.dOutputCounter.toNat < s.m.toNat * s.n.toNat

/-- The source refuses a bound of zero of M and of K: of a degenerate configuration these
are the ones it compares. -/
def Guarded (c : BlockGemmCtrl) : Prop := c.n = 0 → c.m = 0 ∨ c.k = 0

/-- Two idle states that differ in what the next configuration overwrites. -/
structure SameButConfig (s t : State p) : Prop where
  idle : s.busy = false ∧ t.busy = false
  k : s.k = t.k
  m : s.m = t.m
  n : s.n = t.n
  computeFireCounter : s.computeFireCounter = t.computeFireCounter
  dOutputIfvalidCounter : s.dOutputIfvalidCounter = t.dOutputIfvalidCounter
  dOutputCounter : s.dOutputCounter = t.dOutputCounter
  cut : s.cut = t.cut
  array : s.array = t.array

theorem still_of_idle {s : State p} (idle : s.busy = false) (i : Input p) : Still s i where
  idle := idle
  pair := by simp [pair,nothing_in idle,DataCut.taken]
  c := by simp [cFire,idle]
  d := by simp [dFire,dValid,idle]

theorem configValid_of_idle {s : State p} (idle : s.busy = false) (i : Input p) :
    configValid s i = i.ctrlValid := by
  simp [configValid,idle]

theorem zeroLoopBoundCase_iff (c : BlockGemmCtrl) :
    c.zeroLoopBoundCase = true ↔ c.m = 0 ∨ c.k = 0 := by
  simp [BlockGemmCtrl.zeroLoopBoundCase,or_assoc]

/-- Where the source compares the bound that is zero, the core stays idle. -/
theorem next_refused {s : State p} {i : Input p} (idle : s.busy = false)
    (refused : configValid s i = true → i.ctrl.zeroLoopBoundCase = true) :
    (next s i).busy = false := by
  cases taken : configValid s i with
  | false => simp [next,idle,taken]
  | true => simp [next,idle,refused taken]

theorem exec_idle {s : State p} (idle : s.busy = false) {rest : List (Input p)}
    (quiet : ∀ j ∈ rest, j.ctrlValid = false) : ((blockGemm p).exec s rest).busy = false := by
  induction rest generalizing s with
  | nil => exact idle
  | cons i rest ih =>
    refine ih (next_refused idle fun taken => ?_) fun j member => quiet j (.tail _ member)
    rw [configValid_of_idle idle,quiet i (.head _)] at taken
    contradiction

/-- What a cycle does to an idle core. -/
theorem next_of_idle {s : State p} (idle : s.busy = false) (i : Input p) :
    next s i = {
      busy := i.ctrlValid && !i.ctrl.zeroLoopBoundCase
      m := if i.ctrlValid && !i.ctrl.zeroLoopBoundCase then i.ctrl.m else s.m
      n := if i.ctrlValid && !i.ctrl.zeroLoopBoundCase then i.ctrl.n else s.n
      k := if i.ctrlValid && !i.ctrl.zeroLoopBoundCase then i.ctrl.k else s.k
      subtractionA := if i.ctrlValid then i.ctrl.subtractionA p else s.subtractionA
      subtractionB := if i.ctrlValid then i.ctrl.subtractionB p else s.subtractionB
      computeFireCounter := 0
      dOutputIfvalidCounter := 0
      dOutputCounter := 0
      performanceCounter := if i.ctrlValid then 0 else s.performanceCounter
      cut := s.cut.next none false
      array := GemmArray.next s.array false false (s.cut.out.getD (GemmArray.idleBundle p))
        (i.c.getD fun _ _ => 0) true } := by
  have silent : dFire s i = none := (still_of_idle idle i).d
  have lacking : aBDataValid s i = false := by simp [aBDataValid,idle]
  have alone : addC s i = false := by simp [addC,idle]
  have grabs : arrayDReady s i = true := by simp [arrayDReady,dValid,idle]
  have shut : cutReady s i = false := by simp [cutReady,idle]
  simp [next,configValid_of_idle idle,idle,nextModK_idle idle,silent,lacking,alone,grabs,shut,
    nothing_in idle]

/-- A refused configuration changes nothing that the next one does not overwrite. -/
theorem same_of_refused {s : State p} {i : Input p} (idle : s.busy = false)
    (refused : i.ctrl.zeroLoopBoundCase = true) :
    SameButConfig (next s i) (next s (withdrawn i)) := by
  rw [next_of_idle idle i,next_of_idle idle (withdrawn i)]
  constructor <;> simp [withdrawn,refused]

theorem SameButConfig.quiet {s t : State p} (same : SameButConfig s t) {i : Input p}
    (quiet : i.ctrlValid = false) : SameButConfig (next s i) (next t i) := by
  rw [next_of_idle same.idle.1,next_of_idle same.idle.2]
  constructor <;> simp [quiet,same.k,same.m,same.n,same.cut,same.array]

theorem SameButConfig.exec {s t : State p} (same : SameButConfig s t) {rest : List (Input p)}
    (quiet : ∀ j ∈ rest, j.ctrlValid = false) :
    SameButConfig ((blockGemm p).exec s rest) ((blockGemm p).exec t rest) := by
  induction rest generalizing s t with
  | nil => exact same
  | cons i rest ih => exact ih (same.quiet (quiet i (.head _))) fun j member => quiet j (.tail _ member)

/-- The next configuration overwrites the difference. -/
theorem SameButConfig.configured {s t : State p} (same : SameButConfig s t) {i : Input p}
    (offered : i.ctrlValid = true) : next s i = next t i := by
  rw [next_of_idle same.idle.1,next_of_idle same.idle.2]
  simp [offered,same.k,same.m,same.n,same.cut,same.array]

/-- An output is left while the core is busy: the guard makes it so at the start, and the
comparison with `M * N - 1` keeps it. -/
def Remaining (s : State p) : Prop := s.busy = true → s.dOutputCounter.toNat < s.m.toNat * s.n.toNat

theorem toNat_pos_of_ne {x : BitVec w} (some : x ≠ 0) : 0 < x.toNat :=
  Nat.pos_of_ne_zero fun zero => some (BitVec.eq_of_toNat_eq (by rw [zero]; rfl))

theorem next_remaining {s : State p} {i : Input p} (remaining : Remaining s)
    (guarded : configValid s i = true → Guarded i.ctrl) : Remaining (next s i) := by
  intro busy'
  cases busy : s.busy with
  | false =>
    rw [next_of_idle busy] at busy' ⊢
    have taken : i.ctrlValid = true ∧ i.ctrl.zeroLoopBoundCase = false := by simpa using busy'
    have bounds : ¬ (i.ctrl.m = 0 ∨ i.ctrl.k = 0) := fun zero => by
      simp [(zeroLoopBoundCase_iff _).mpr zero] at taken
    have columns : i.ctrl.n ≠ 0 := fun zero =>
      bounds (guarded (by rw [configValid_of_idle busy,taken.1]) zero)
    simpa [taken] using ⟨toNat_pos_of_ne (not_or.mp bounds).1,toNat_pos_of_ne columns⟩
  | true =>
    have below := remaining busy
    have refused : configValid s i = false := by simp [configValid,busy]
    have m : (next s i).m = s.m := by simp [next,refused]
    have n : (next s i).n = s.n := by simp [next,refused]
    rw [m,n]
    cases out : (dFire s i).isSome with
    | false => simpa [next,out,busy] using below
    | true =>
      have more : ¬ computationFinish s i = true := fun finish => by
        simp [next,busy,finish] at busy'
      rw [computationFinish_iff_last busy out below] at more
      have counted : (next s i).dOutputCounter = s.dOutputCounter + 1 := by simp [next,out]
      rw [counted,BasicCounter.toNat_add_one _ below (tiles_lt ⟨s.k,s.n,s.m,0⟩)]
      omega

/-- A guarded configuration is ignored where it is degenerate. -/
theorem idleContract_of_guarded {s : State p} {i : Input p} (remaining : Remaining s)
    (guarded : configValid s i = true → Guarded i.ctrl) : IdleContract s i := by
  have idle_of : configValid s i = true → s.busy = false := fun taken => by
    simpa [configValid] using (Bool.and_eq_true_iff.mp taken).2
  have refused_of : configValid s i = true → Degenerate i.ctrl → i.ctrl.zeroLoopBoundCase = true := by
    intro taken degenerate
    rw [zeroLoopBoundCase_iff]
    rcases degenerate with m | n | k
    · exact .inl m
    · exact guarded taken n
    · exact .inr k
  refine ⟨?_,?_,remaining⟩
  · intro taken degenerate
    have idle := idle_of taken
    have refused := refused_of taken degenerate
    exact ⟨still_of_idle idle i,fun rest quiet j =>
      still_of_idle (exec_idle (next_refused idle fun _ => refused) quiet) j⟩
  · intro taken degenerate rest quiet j offered
    have same := (same_of_refused (idle_of taken) (refused_of taken degenerate)).exec quiet
    exact ⟨by rw [configValid_of_idle same.idle.1,offered],same.configured offered⟩

/-- A configuration that slips through the guard starts the core. -/
theorem guarded_of_idleContract {s : State p} {i : Input p} (contract : IdleContract s i)
    (taken : configValid s i = true) : Guarded i.ctrl := by
  intro columns
  by_contra bounds
  have still := (contract.ignored taken (.inr (.inl columns))).2 [] (fun _ member => nomatch member) i
  have idle : s.busy = false := by simpa [configValid] using (Bool.and_eq_true_iff.mp taken).2
  have idle' : (next s i).busy = false := still.idle
  have through : i.ctrl.zeroLoopBoundCase = false :=
    Bool.eq_false_iff.mpr fun zero => bounds ((zeroLoopBoundCase_iff _).mp zero)
  simp [next,idle,taken,through] at idle'

/-- A run ignores its degenerate configurations, and always has an output left while it is
busy, exactly if none of those accepted has a zero bound of N alone. -/
theorem degenerate_ignored (inputs : List (Input p)) :
    (blockGemm p).Each (fun _ s i => IdleContract s i) (initial p) inputs ↔
      (blockGemm p).Each (fun _ s i => configValid s i = true → Guarded i.ctrl) (initial p) inputs := by
  constructor
  · intro each
    exact each.mono fun _ _ _ contract taken => guarded_of_idleContract contract taken
  · intro each
    have remaining := Sync.Machine.each_of_run_rule (fun _ s => Remaining s) each
      (by simp [Remaining,initial])
      fun _ _ _ remaining guarded => next_remaining remaining guarded
    exact (remaining.and each).mono fun _ _ _ both => idleContract_of_guarded both.1 both.2

/-- One row of tiles, no column. -/
def noColumns : List (Input narrowArray) :=
  [⟨⟨1,0,1,0⟩,true,none,none,none,true⟩,⟨⟨0,0,0,0⟩,false,none,none,none,true⟩]

/-- A bound of zero of N starts the core, which then has no output left to finish with. -/
theorem degenerate_noColumns :
    (¬ ∀ (p : GemmParams) (inputs : List (Input p)),
      (blockGemm p).Each (fun _ s i => IdleContract s i) (initial p) inputs) ∧
    ((blockGemm narrowArray).exec (initial narrowArray) noColumns).busy = true ∧
    ((blockGemm narrowArray).exec (initial narrowArray) noColumns).dOutputCounter.toNat =
      ((blockGemm narrowArray).exec (initial narrowArray) noColumns).m.toNat *
        ((blockGemm narrowArray).exec (initial narrowArray) noColumns).n.toNat := by
  refine ⟨fun all => ?_,by decide +kernel,by decide +kernel⟩
  have idle := (((all narrowArray noColumns [] _ _ rfl).ignored (by decide +kernel)
    (.inr (.inl rfl))).2 [] (fun _ member => nomatch member) ⟨⟨0,0,0,0⟩,false,none,none,none,true⟩).idle
  revert idle
  decide +kernel

end Snax.BlockGemm
