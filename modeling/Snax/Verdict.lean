import Snax.LayoutAudit
import Snax.SafeToStart

/-! `sim/src/world.cpp` and `main.cpp`: the verdict of a verified run. Every invocation audits its
ports, the first invocation of P2 checks the datapath, and the last line of the program shows what
is left of both. -/
namespace Snax

namespace SimWorld

/-- What the verification of an invocation looks at: the setup, the memory, the start counts of the
application, and the outcomes of the comparisons in floating point and of the BIST. -/
structure Invocation extends Setup where
  mem : BitVec 32 → BitVec 8
  r10StartCnt : BitVec 32
  r11StartCnt : BitVec 32
  goldens : List Bool
  bistOk : Bool

namespace Invocation

variable (v : Invocation)

/-! ### The integer check of the osCore GEMM -/

def M : Nat := v.cfg.seqLen.toInt.toNat

def K : Nat := v.cfg.dModel.toInt.toNat

def N : Nat := v.cfg.dInner.toInt.toNat

def flatA (m k : Nat) : BitVec 32 := BitVec.ofNat 32 (m / 16 * (v.K * 16) + k * 16 + m % 16)

def convfmt (m n : Nat) : BitVec 32 :=
  BitVec.ofNat 32 ((((n / 24 * (v.M / 16) + m / 16) * 6 + n % 24 / 4) * 16 + m % 16) * 4 + n % 24 % 4)

/-- An element of the product, from the documented layout of A or from a permuted one. -/
def gemm (mem : BitVec 32 → BitVec 8) (m n : Nat) (scramble : Bool) : BitVec 8 :=
  (List.range v.K).foldl (fun acc k =>
    let a := if scramble then v.flatA (k % v.M) ((m * 7 + k) % v.K) else v.flatA m k
    acc + mem ((v.ports 0).base.setWidth 32 + a) *
      mem ((v.ports 1).base.setWidth 32 + BitVec.ofNat 32 (k * v.N + n))) 0

/-- The memory with `rt_bad` and `fault_bad`. -/
structure RoundTrip where
  mem : BitVec 32 → BitVec 8
  bad : Nat
  faults : Nat

/-- One element is written, read back, and compared with the permuted one. -/
def roundTrip (x : RoundTrip) (m n : Nat) : RoundTrip :=
  let ref := v.gemm x.mem m n false
  let at_ := (v.ports 14).base.setWidth 32 + v.convfmt m n
  let mem := fun a => if a = at_ then ref else x.mem a
  { mem := mem
    bad := if mem at_ = ref then x.bad else x.bad + 1
    faults := if v.gemm mem m n true = ref then x.faults else x.faults + 1 }

def roundTrips : RoundTrip :=
  (List.range v.M).foldl (fun x m => (List.range v.N).foldl (fun x n => v.roundTrip x m n) x) ⟨v.mem,0,0⟩

def r0Ok : Bool :=
  ((v.ports 0).tStride.toList.getD 0 0).toInt == 16 &&
    ((v.ports 0).tStride.toList.getD 1 0).toInt == v.cfg.dModel.toInt * 16 &&
    (s0 (v.ports 0) == 0 || s0 (v.ports 0) * 2 == 16)

def w0Ok : Bool := ((v.ports 14).tStride.toList.getD 0 0).toInt == 8

/-- The SUC reads the buffer that the osCore writes. -/
def pcOk : Bool := !(v.ports 10).enabled || (v.ports 10).base == (v.ports 14).base

/-- `r0_ok && w0_ok && rt_bad == 0 && discriminates && pc_ok`. -/
def structural : Bool :=
  v.r0Ok && v.w0Ok && v.roundTrips.bad == 0 && decide (0 < v.roundTrips.faults) && v.pcOk

/-! ### The other checks -/

/-- The safe-to-start check runs. -/
def gated : Bool := v.phase2 && v.enOsCore && 0 < v.r10Total && 0 < v.r11Total

/-- The engine reads stale words at the start counts of the application. -/
def unsafeStart (depth : Nat → Int) : Bool :=
  let app := run depth v.toSetup (if v.r10StartCnt ≠ 0 then v.r10StartCnt.toNat else v.r10Total)
    (if v.r11StartCnt ≠ 0 then v.r11StartCnt.toNat else v.r11Total)
  0 < app.1 || 0 < app.2

/-- The checks of `verify_datapath` that run, each with its outcome. -/
def checks (depth : Nat → Int) : List Bool :=
  if v.checkable then
    v.structural :: v.goldens ++ (if v.gated then [!v.unsafeStart depth] else []) ++
      (if (v.ports 7).enabled then [v.bistOk] else [])
  else []

end Invocation

/-! ### The flags -/

/-- `verify_ran_`, `layout_pass_`, `n_layout_errs_` and `layout_invs_`. -/
structure Flags where
  verifyRan : Bool
  layoutPass : Bool
  nLayoutErrs : Nat
  layoutInvs : Nat

def Flags.fresh : Flags := ⟨false,true,0,0⟩

/-- `verify_datapath`, on `layout_pass_`. -/
def verifyDatapath (depth : Nat → Int) (v : Invocation) (layoutPass : Bool) : Bool :=
  if !v.checkable then layoutPass
  else
    let layoutPass := v.structural
    let layoutPass := v.goldens.foldl (· && ·) layoutPass
    let layoutPass := if v.gated && v.unsafeStart depth then false else layoutPass
    if (v.ports 7).enabled then layoutPass && v.bistOk else layoutPass

/-- The verification calls of `run_invocation`. -/
def runInvocation (depth : Nat → Int) (f : Flags) (v : Invocation) : Flags :=
  let errors := verifyLayout v.ports
  let f := { f with
    layoutInvs := f.layoutInvs + 1
    nLayoutErrs := f.nLayoutErrs + errors.length
    layoutPass := f.layoutPass && errors.isEmpty }
  if v.phase2 && !f.verifyRan then
    { f with verifyRan := true, layoutPass := verifyDatapath depth v f.layoutPass }
  else f

/-- What an invocation has shown. -/
structure Findings where
  errors : List LayoutError
  checks : List Bool

/-- The checks of the datapath run once, in the first invocation of P2. -/
def findings (depth : Nat → Int) (f : Flags) (v : Invocation) : Findings :=
  ⟨verifyLayout v.ports,if v.phase2 && !f.verifyRan then v.checks depth else []⟩

/-- Nothing is wrong with the invocation. -/
def Findings.Clean (x : Findings) : Prop := x.errors = [] ∧ ∀ ok ∈ x.checks, ok = true

def Flags.layoutOk (f : Flags) : Bool := !f.verifyRan || f.layoutPass

/-- `main` prints SUCCESS, with the verification on. -/
def Flags.succeeds (f : Flags) (exited : Bool) : Bool := exited && f.layoutOk

def verified (depth : Nat → Int) : Sync.Machine Flags Invocation Findings where
  next := runInvocation depth
  out := findings depth

/-! ### Runs -/

theorem foldl_and (oks : List Bool) (b : Bool) : oks.foldl (· && ·) b = (b && oks.all id) := by
  induction oks generalizing b with
  | nil => simp
  | cons ok oks ih => rw [List.foldl_cons,ih,List.all_cons,id,Bool.and_assoc]

/-- The check of the datapath forgets what it was given, unless it returns at once. -/
theorem verifyDatapath_eq (depth : Nat → Int) (v : Invocation) (layoutPass : Bool) :
    verifyDatapath depth v layoutPass =
      if v.checkable then (v.checks depth).all id else layoutPass := by
  rw [verifyDatapath,Invocation.checks]
  cases v.checkable with
  | false => rfl
  | true =>
    simp only [Bool.not_true,Bool.false_eq_true,↓reduceIte,foldl_and,List.all_cons,List.all_append,id]
    cases v.structural && v.goldens.all id <;> cases v.gated <;> cases v.unsafeStart depth <;>
      cases (v.ports 7).enabled <;> simp

/-- An error of the audit reaches the verdict: the datapath was checked before, or it is checked now
and the check returns at once or fails itself. -/
def Heard (depth : Nat → Int) (f : Flags) (v : Invocation) : Prop :=
  verifyLayout v.ports ≠ [] → f.verifyRan = true ∨
    v.phase2 = true ∧ (v.checkable = true → ∃ ok ∈ v.checks depth, ok = false)

/-- The flags know of everything that was found. -/
def Known (f : Flags) (history : List Findings) : Prop :=
  (∀ x ∈ history, x.Clean) ∨ f.verifyRan = true ∧ f.layoutPass = false

theorem all_false {oks : List Bool} : oks.all id = false ↔ ∃ ok ∈ oks, ok = false := by
  rw [List.all_eq_false]
  simp only [id,Bool.not_eq_true]

theorem runInvocation_ran (depth : Nat → Int) (f : Flags) (v : Invocation) :
    (runInvocation depth f v).verifyRan = (f.verifyRan || v.phase2) := by
  unfold runInvocation
  cases v.phase2 <;> cases ran : f.verifyRan <;> simp [ran]

theorem runInvocation_pass (depth : Nat → Int) (f : Flags) (v : Invocation) :
    (runInvocation depth f v).layoutPass =
      if v.phase2 && !f.verifyRan && v.checkable then (v.checks depth).all id
      else f.layoutPass && (verifyLayout v.ports).isEmpty := by
  unfold runInvocation
  cases v.phase2 <;> cases f.verifyRan <;> simp [verifyDatapath_eq]

/-- What an invocation finds reaches the flags where its audit is heard. -/
theorem unclean_known {depth : Nat → Int} {f : Flags} {v : Invocation} (heard : Heard depth f v)
    (unclean : ¬ (findings depth f v).Clean) :
    (runInvocation depth f v).verifyRan = true ∧ (runInvocation depth f v).layoutPass = false := by
  rw [runInvocation_ran,runInvocation_pass]
  by_cases errors : verifyLayout v.ports = []
  · have failed : ∃ ok ∈ (findings depth f v).checks, ok = false := by
      by_contra fine
      exact unclean ⟨errors,fun ok member => by
        cases ok with
        | true => rfl
        | false => exact absurd ⟨false,member,rfl⟩ fine⟩
    obtain ⟨ok,member,failed⟩ := failed
    unfold findings at member
    split at member
    · rename_i first
      have checkable : v.checkable = true := by
        by_contra other
        rw [Invocation.checks,if_neg other] at member
        exact nomatch member
      rw [if_pos (by rw [first,checkable]; rfl)]
      exact ⟨by rw [(Bool.and_eq_true_iff.mp first).1,Bool.or_true],all_false.mpr ⟨ok,member,failed⟩⟩
    · exact nomatch member
  · have located : (verifyLayout v.ports).isEmpty = false := by
      rw [List.isEmpty_eq_false_iff]
      exact errors
    rcases heard errors with ran | ⟨p2,fails⟩
    · simp [ran,located]
    · refine ⟨by rw [p2,Bool.or_true],?_⟩
      split
      · rename_i here
        exact all_false.mpr (fails (Bool.and_eq_true_iff.mp here).2)
      · rw [located,Bool.and_false]

theorem known_next {depth : Nat → Int} {f : Flags} {history : List Findings} (known : Known f history)
    {v : Invocation} (heard : Heard depth f v) :
    Known (runInvocation depth f v) (history ++ [findings depth f v]) := by
  rcases known with clean | ⟨ran,failed⟩
  · by_cases here : (findings depth f v).Clean
    · refine .inl fun x member => ?_
      rcases List.mem_append.mp member with before | now
      · exact clean x before
      · rw [List.mem_singleton.mp now]
        exact here
    · exact .inr (unclean_known heard here)
  · refine .inr ⟨by rw [runInvocation_ran,ran,Bool.true_or],?_⟩
    rw [runInvocation_pass,ran,failed]
    simp

/-- An error that is not heard leaves the verdict a success. -/
theorem unheard_succeeds {depth : Nat → Int} {f : Flags} {v : Invocation} (unheard : ¬ Heard depth f v) :
    (runInvocation depth f v).layoutOk = true ∧ ¬ (findings depth f v).Clean := by
  unfold Heard at unheard
  push_neg at unheard
  obtain ⟨errors,first,passes⟩ := unheard
  refine ⟨?_,fun clean => errors clean.1⟩
  have ran : f.verifyRan = false := by simpa using first
  rw [Flags.layoutOk,runInvocation_ran,runInvocation_pass,ran]
  cases p2 : v.phase2 with
  | false => rfl
  | true =>
    obtain ⟨checkable,fine⟩ := passes p2
    have all : (v.checks depth).all id = true :=
      List.all_eq_true.mpr fun ok member => by simpa using fine ok member
    simp [checkable,all]

end SimWorld

open SimWorld in
/-- Along a whole run SUCCESS is printed only if nothing was found wrong, if and only if the errors of
every audit are heard. -/
theorem verdict_sound (depth : Nat → Int) (invocations : List Invocation) :
    (∀ run, run <+: invocations → ∀ exited,
      ((verified depth).exec Flags.fresh run).succeeds exited = true →
        ∀ x ∈ (verified depth).outs Flags.fresh run, x.Clean) ↔
    (verified depth).Each (fun _ f v => Heard depth f v) Flags.fresh invocations := by
  constructor
  · rintro sound before v after rfl
    by_contra unheard
    obtain ⟨succeeds,unclean⟩ := unheard_succeeds unheard
    refine unclean (sound (before ++ [v]) ⟨after,by simp⟩ true ?_ _ ?_)
    · rw [Sync.Machine.exec_append]
      exact succeeds
    · rw [Sync.Machine.outs_append]
      exact List.mem_append_right _ List.mem_cons_self
  · rintro each run ⟨later,rfl⟩ exited succeeds
    have known := Sync.Machine.run_rule_each (fun history f => Known f history) each.front
      (.inl fun x none => nomatch none) fun history f v known heard => known_next known heard
    rcases known with clean | ⟨ran,failed⟩
    · exact clean
    · simp [Flags.succeeds,Flags.layoutOk,ran,failed] at succeeds

namespace SimWorld

/-- W3 at address 0, in a SIMD pass. -/
def strayPorts (p : Nat) : Port := AccelEngine.wordPort (if p = 17 then 0 else 0x10000000) 1 8 (p == 17)

def strayWriter : Invocation where
  ports := strayPorts
  cfg := ⟨0,16,1,1,24,1⟩
  dtRankUnroll := 0
  mem _ := 0
  r10StartCnt := 0
  r11StartCnt := 0
  goldens := []
  bistOk := true

end SimWorld

open SimWorld

/-- The audit locates the writer outside the TCDM, and the run still succeeds. -/
theorem verdict_missed : ¬ ∀ (depth : Nat → Int) (invocations : List Invocation), ∀ run,
    run <+: invocations → ∀ exited, ((verified depth).exec Flags.fresh run).succeeds exited = true →
      ∀ x ∈ (verified depth).outs Flags.fresh run, x.Clean := by
  intro all
  have clean := all (snaxStreamerDepth none) [strayWriter] [strayWriter] List.prefix_rfl true
    (by decide +kernel) _ List.mem_cons_self
  exact absurd clean.1 (by decide +kernel)

end Snax
