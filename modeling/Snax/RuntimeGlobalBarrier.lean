import Snax.HwBarrier
import Snax.RuntimeBarrier

/-! The barrier over all clusters, `snrt_global_barrier`: the cores of a cluster meet at its hardware
barrier, the DM cores of all clusters at the one in memory, and the cores of a cluster once more.
A core that stalls in the hardware barrier is one whose bit is set there; the barrier unit of a
cluster is a thread of its own, which clears the bits when all are set. -/
namespace Snax

open Sync (Threads)

inductive GlobalPc
  | outside
  /-- In the first hardware barrier. -/
  | first
  /-- A DM core, among the DM cores of all clusters. -/
  | software
  | between
  /-- In the second hardware barrier. -/
  | second
  deriving DecidableEq

/-- A core, with how often it has called the barrier and come back, and where it is in the software
barrier if it is a DM core. -/
structure GlobalCore where
  pc : GlobalPc
  hart : BarrierHart
  begun : Nat
  returns : Nat

structure GlobalShared (ι : Type) (cores : Nat) where
  /-- `arrival_q` of the barrier unit of each cluster. -/
  arrival : ι → Fin (cores + 1) → Bool
  /-- `_snrt_barrier` -/
  barrier : SnrtBarrier

variable {ι : Type} [DecidableEq ι] {cores : Nat}

namespace GlobalShared

/-- `csrr x0, 0x7C2` -/
def hwArrive (s : GlobalShared ι cores) (a : ι) (i : Fin (cores + 1)) : GlobalShared ι cores :=
  { s with arrival := fun b j => if b = a ∧ j = i then true else s.arrival b j }

def hwOpen (s : GlobalShared ι cores) (a : ι) : GlobalShared ι cores :=
  { s with arrival := fun b j => if b = a then false else s.arrival b j }

theorem hwOpen_same (s : GlobalShared ι cores) (a : ι) (i : Fin (cores + 1)) :
    (s.hwOpen a).arrival a i = false := if_pos rfl

theorem hwOpen_other (s : GlobalShared ι cores) {a b : ι} (apart : b ≠ a) (i : Fin (cores + 1)) :
    (s.hwOpen a).arrival b i = s.arrival b i := if_neg apart

end GlobalShared

/-- The DM core is the last one of its cluster. -/
def snrtIsDmCore (i : Fin (cores + 1)) : Bool := i == Fin.last cores

def snrtGlobalBarrier (n : BitVec 32) (a : ι) (i : Fin (cores + 1)) (core : GlobalCore)
    (s : GlobalShared ι cores) : Option (GlobalCore × GlobalShared ι cores) :=
  match core.pc with
  | .outside => some ({ core with pc := .first, begun := core.begun + 1 },s.hwArrive a i)
  | .first =>
    if s.arrival a i then none
    else some ({ core with pc := if snrtIsDmCore i then .software else .between },s)
  | .software =>
    -- the same text as in the partial barrier, with `_snrt_barrier` and the number of clusters
    match snrtPartialBarrier n core.hart s.barrier with
    | none => none
    | some (hart,barr) =>
      some ({ core with pc := if hart.pc = .outside then .between else .software, hart := hart },
        { s with barrier := barr })
  | .between => some ({ core with pc := .second },s.hwArrive a i)
  | .second =>
    if s.arrival a i then none
    else some ({ core with pc := .outside, returns := core.returns + 1 },s)

/-- The thread `(a,some i)` is core `i` of cluster `a`, `(a,none)` the barrier unit of the cluster. -/
def globalBarrierAct (n : BitVec 32) (t : ι × Option (Fin (cores + 1))) (core : GlobalCore)
    (s : GlobalShared ι cores) : Option (GlobalCore × GlobalShared ι cores) :=
  match t.2 with
  | some i => snrtGlobalBarrier n t.1 i core s
  | none => if ∀ i, s.arrival t.1 i = true then some (core,s.hwOpen t.1) else none

def globalBarrierThreads (ι : Type) [DecidableEq ι] (cores : Nat) (n : BitVec 32) :
    Threads (ι × Option (Fin (cores + 1))) Unit GlobalCore (GlobalShared ι cores) where
  act t _ := globalBarrierAct n t

abbrev GlobalConfig (ι : Type) (cores : Nat) :=
  Threads.Config (ι × Option (Fin (cores + 1))) GlobalCore (GlobalShared ι cores)

def globalBarrierBegin (ι : Type) (cores : Nat) : GlobalConfig ι cores :=
  ⟨fun _ => ⟨.outside,⟨.outside,0,0⟩,0,0⟩,⟨fun _ _ => false,⟨0,0⟩⟩⟩

namespace GlobalCore

/-- The hart is between its calls, and has made `q` of them. -/
def Rests (q : Nat) (hart : BarrierHart) : Prop := hart = ⟨.outside,q,q⟩

/-- The hart is in its call number `q`. -/
inductive Runs (q : Nat) : BarrierHart → Prop
  | outside : Runs q ⟨.outside,q,q⟩
  | entered (prevIt : BitVec 32) : Runs q ⟨.entered prevIt,q,q⟩
  | last : Runs q ⟨.last,q + 1,q⟩
  | cleared : Runs q ⟨.cleared,q + 1,q⟩
  | waiting (prevIt : BitVec 32) : Runs q ⟨.waiting prevIt,q + 1,q⟩

theorem Runs.step {n : BitVec 32} {q : Nat} {hart hart' : BarrierHart} {barr barr' : SnrtBarrier}
    (runs : Runs q hart) (acts : snrtPartialBarrier n hart barr = some (hart',barr')) :
    Rests (q + 1) hart' ∨ hart'.pc ≠ .outside ∧ Runs q hart' := by
  cases runs with
  | outside =>
    cases acts
    exact .inr ⟨BarrierPc.noConfusion,.entered _⟩
  | entered prevIt =>
    cases acts
    by_cases full : barr.cnt + 1 = n
    · rw [if_pos full]
      exact .inr ⟨BarrierPc.noConfusion,.last⟩
    · rw [if_neg full]
      exact .inr ⟨BarrierPc.noConfusion,.waiting _⟩
  | last =>
    cases acts
    exact .inr ⟨BarrierPc.noConfusion,.cleared⟩
  | cleared =>
    cases acts
    exact .inl rfl
  | waiting prevIt =>
    rw [snrtPartialBarrier_waiting] at acts
    split at acts
    · cases acts
    · cases acts
      exact .inl rfl

/-- Where a core can be when the barrier unit of its cluster has opened `e` times and the bit of the core
is `waits`; `dm` says whether it is the DM core. -/
inductive Stage (dm : Prop) : Nat → Bool → GlobalCore → Prop
  | outside {q : Nat} {hart : BarrierHart} (rests : dm → Rests q hart) :
    Stage dm (2 * q) false ⟨.outside,hart,q,q⟩
  | first {q : Nat} {hart : BarrierHart} (rests : dm → Rests q hart) :
    Stage dm (2 * q) true ⟨.first,hart,q + 1,q⟩
  | opened {q : Nat} {hart : BarrierHart} (rests : dm → Rests q hart) :
    Stage dm (2 * q + 1) false ⟨.first,hart,q + 1,q⟩
  | software {q : Nat} {hart : BarrierHart} (is_dm : dm) (runs : Runs q hart) :
    Stage dm (2 * q + 1) false ⟨.software,hart,q + 1,q⟩
  | between {q : Nat} {hart : BarrierHart} (rests : dm → Rests (q + 1) hart) :
    Stage dm (2 * q + 1) false ⟨.between,hart,q + 1,q⟩
  | second {q : Nat} {hart : BarrierHart} (rests : dm → Rests (q + 1) hart) :
    Stage dm (2 * q + 1) true ⟨.second,hart,q + 1,q⟩
  | reopened {q : Nat} {hart : BarrierHart} (rests : dm → Rests (q + 1) hart) :
    Stage dm (2 * q + 2) false ⟨.second,hart,q + 1,q⟩

variable {dm : Prop} {e : Nat} {waits : Bool} {core : GlobalCore}

theorem Stage.bounds (stage : Stage dm e waits core) : 2 * core.returns ≤ e ∧ e ≤ 2 * core.begun := by
  cases stage with
  | outside | first | opened | software | between | second | reopened => simp only; omega

/-- The unit has opened about twice as often as the DM core has been in the software barrier. -/
theorem Stage.of_dm (stage : Stage dm e waits core) (is_dm : dm) :
    e ≤ 2 * core.hart.returns + 1 ∧ 2 * core.hart.arrivals ≤ e + 1 := by
  cases stage with
  | outside rests | first rests | opened rests | between rests | second rests | reopened rests =>
    obtain rfl := rests is_dm
    simp only
    omega
  | software _ runs =>
    cases runs <;> simp only <;> omega

theorem Stage.dm_of_software (stage : Stage dm e waits core) (inside : core.pc = .software) : dm := by
  cases stage with
  | outside | first | opened | between | second | reopened => cases inside
  | software is_dm => exact is_dm

theorem Stage.of_open (stage : Stage dm e true core) : Stage dm (e + 1) false core := by
  cases stage with
  | first rests => exact .opened rests
  | second rests => exact .reopened rests

/-- A step of a core is one of its hart in the software barrier, or it leaves that barrier alone. -/
theorem hart_step {n : BitVec 32} {a : ι} {i : Fin (cores + 1)} {s s' : GlobalShared ι cores}
    {core' : GlobalCore} (acts : snrtGlobalBarrier n a i core s = some (core',s')) :
    core'.hart = core.hart ∧ s'.barrier = s.barrier ∨
      core.pc = .software ∧ snrtPartialBarrier n core.hart s.barrier = some (core'.hart,s'.barrier) := by
  obtain ⟨pc,hart,begun,returns⟩ := core
  cases pc with
  | outside | between =>
    cases acts
    exact .inl ⟨rfl,rfl⟩
  | first | second =>
    simp only [snrtGlobalBarrier] at acts
    split at acts
    · cases acts
    · cases acts
      exact .inl ⟨rfl,rfl⟩
  | software =>
    simp only [snrtGlobalBarrier] at acts
    cases moves : snrtPartialBarrier n hart s.barrier with
    | none =>
      rw [moves] at acts
      cases acts
    | some moved =>
      rw [moves] at acts
      cases acts
      exact .inr ⟨rfl,rfl⟩

/-- A step of a core moves it on in the round of its barrier unit, and sets its own bit at most. -/
theorem Stage.step {n : BitVec 32} {a : ι} {i : Fin (cores + 1)} {s s' : GlobalShared ι cores}
    {core' : GlobalCore} (stage : Stage (i = Fin.last cores) e (s.arrival a i) core)
    (acts : snrtGlobalBarrier n a i core s = some (core',s')) :
    Stage (i = Fin.last cores) e (s'.arrival a i) core' ∧
      ∀ b j, (b,j) ≠ (a,i) → s'.arrival b j = s.arrival b j := by
  have arrives : (s.hwArrive a i).arrival a i = true ∧
      ∀ b j, (b,j) ≠ (a,i) → (s.hwArrive a i).arrival b j = s.arrival b j := by
    refine ⟨if_pos ⟨rfl,rfl⟩,fun b j apart => if_neg fun same => apart ?_⟩
    rw [same.1,same.2]
  generalize bit : s.arrival a i = waits at stage
  cases stage with
  | outside rests =>
    cases acts
    exact ⟨arrives.1.symm ▸ .first rests,arrives.2⟩
  | first | second =>
    simp only [snrtGlobalBarrier,bit,if_true] at acts
    cases acts
  | opened rests =>
    simp only [snrtGlobalBarrier,bit,Bool.false_eq_true,if_false] at acts
    cases acts
    refine ⟨?_,fun _ _ _ => rfl⟩
    rw [bit]
    by_cases dm : i = Fin.last cores
    · obtain rfl := rests dm
      rw [if_pos (by simpa [snrtIsDmCore] using dm)]
      exact .software dm .outside
    · rw [if_neg (by simpa [snrtIsDmCore] using dm)]
      exact .between fun same => absurd same dm
  | @software q hart dm runs =>
    simp only [snrtGlobalBarrier] at acts
    cases moves : snrtPartialBarrier n hart s.barrier with
    | none =>
      rw [moves] at acts
      cases acts
    | some moved =>
      obtain ⟨hart',barr⟩ := moved
      rw [moves] at acts
      cases acts
      refine ⟨?_,fun _ _ _ => rfl⟩
      rw [bit]
      rcases runs.step moves with rests | ⟨inside,runs'⟩
      · rw [if_pos (by rw [rests])]
        exact .between fun _ => rests
      · rw [if_neg inside]
        exact .software dm runs'
  | between rests =>
    cases acts
    exact ⟨arrives.1.symm ▸ .second rests,arrives.2⟩
  | reopened rests =>
    simp only [snrtGlobalBarrier,bit,Bool.false_eq_true,if_false] at acts
    cases acts
    exact ⟨bit.symm ▸ .outside rests,fun _ _ _ => rfl⟩

end GlobalCore

namespace GlobalConfig

/-- The barrier unit of cluster `a` has opened `e a` times. -/
def Opened (e : ι → Nat) (c : GlobalConfig ι cores) : Prop :=
  ∀ a i, GlobalCore.Stage (i = Fin.last cores) (e a) (c.shared.arrival a i) (c.locals (a,some i))

theorem Opened.step {n : BitVec 32} {e : ι → Nat} {c : GlobalConfig ι cores} (opened : Opened e c)
    {t : ι × Option (Fin (cores + 1))} {core : GlobalCore} {s : GlobalShared ι cores}
    (acts : globalBarrierAct n t (c.locals t) c.shared = some (core,s)) :
    ∃ e', Opened e' ⟨Function.update c.locals t core,s⟩ := by
  obtain ⟨a,unit⟩ := t
  cases unit with
  | none =>
    simp only [globalBarrierAct] at acts
    split at acts
    · rename_i all
      cases acts
      refine ⟨Function.update e a (e a + 1),fun b j => ?_⟩
      have stage := opened b j
      simp only [Function.update_eq_self]
      by_cases here : b = a
      · subst here
        rw [all j] at stage
        rw [Function.update_self,GlobalShared.hwOpen_same]
        exact stage.of_open
      · rw [Function.update_of_ne here,GlobalShared.hwOpen_other _ here]
        exact stage
    · cases acts
  | some i =>
    have ⟨moved,frame⟩ := (opened a i).step acts
    refine ⟨e,fun b j => ?_⟩
    dsimp only
    by_cases here : (b,j) = (a,i)
    · cases here
      rw [Function.update_self]
      exact moved
    · have other : (b,some j) ≠ (a,some i) := fun same => here (by simpa using same)
      rw [Function.update_of_ne other,frame b j here]
      exact opened b j

/-- What the DM cores do in the software barrier. -/
def dmView (c : GlobalConfig ι cores) : BarrierConfig ι :=
  ⟨fun a => (c.locals (a,some (Fin.last cores))).hart,c.shared.barrier⟩

theorem dmView_step {n : BitVec 32} {e : ι → Nat} {c : GlobalConfig ι cores} (opened : Opened e c)
    {t : ι × Option (Fin (cores + 1))} {core : GlobalCore} {s : GlobalShared ι cores}
    (acts : globalBarrierAct n t (c.locals t) c.shared = some (core,s)) :
    ∃ more, dmView ⟨Function.update c.locals t core,s⟩ = (barrierThreads ι n).exec (dmView c) more := by
  -- only a step in the software barrier changes what the DM cores see
  have unseen : core.hart = (c.locals t).hart → s.barrier = c.shared.barrier →
      dmView ⟨Function.update c.locals t core,s⟩ = (barrierThreads ι n).exec (dmView c) [] := by
    intro hart barr
    simp only [dmView,barr,Threads.exec_nil,Threads.Config.mk.injEq,and_true]
    funext b
    by_cases here : (b,some (Fin.last cores)) = t
    · rw [here,Function.update_self,hart]
    · rw [Function.update_of_ne here]
  obtain ⟨a,unit⟩ := t
  cases unit with
  | none =>
    simp only [globalBarrierAct] at acts
    split at acts
    · cases acts
      exact ⟨[],unseen rfl rfl⟩
    · cases acts
  | some i =>
    rcases GlobalCore.hart_step acts with ⟨hart,barr⟩ | ⟨inside,moves⟩
    · exact ⟨[],unseen hart barr⟩
    · obtain rfl := (opened a i).dm_of_software inside
      refine ⟨[(a,())],?_⟩
      have seen := Threads.next_of_act (t := barrierThreads ι n) (c := dmView c) (i := a) (x := ()) moves
      refine Eq.trans ?_ seen.symm
      simp only [dmView,Threads.Config.mk.injEq,and_true]
      funext b
      by_cases here : b = a
      · subst here
        rw [Function.update_self,Function.update_self]
      · have other : (b,some (Fin.last cores)) ≠ (a,some (Fin.last cores)) := fun same => here (by simpa using same)
        rw [Function.update_of_ne here,Function.update_of_ne other]

theorem reaches_view {n : BitVec 32} (schedule : List ((ι × Option (Fin (cores + 1))) × Unit)) :
    (∃ e, Opened e ((globalBarrierThreads ι cores n).exec (globalBarrierBegin ι cores) schedule)) ∧
      ∃ seen, dmView ((globalBarrierThreads ι cores n).exec (globalBarrierBegin ι cores) schedule) =
        (barrierThreads ι n).exec (barrierBegin ι 0) seen := by
  have start : Opened (fun _ => 0) (globalBarrierBegin ι cores) := fun _ _ => .outside (q := 0) fun _ => rfl
  refine Threads.exec_projects dmView (fun c => ∃ e, Opened e c) ⟨_,start⟩ ?_ ?_ schedule
  · rintro c i ⟨e,opened⟩
    exact Threads.next_cases (motive := fun c => ∃ e, Opened e c) c i ⟨e,opened⟩
      fun core s acts => opened.step acts
  · rintro c i ⟨e,opened⟩
    exact Threads.next_cases (motive := fun c' => ∃ more, dmView c' = (barrierThreads ι n).exec (dmView c) more)
      c i ⟨[],rfl⟩ fun core s acts => dmView_step opened acts

end GlobalConfig

/-- No core of any cluster comes back from its k-th call before every core of every cluster has begun
its own k-th, in any order of the steps. -/
theorem global_barrier_separates {ι : Type} [Fintype ι] [DecidableEq ι] {n : BitVec 32}
    (clusters : n.toNat = Fintype.card ι) (cores : Nat)
    (schedule : List ((ι × Option (Fin (cores + 1))) × Unit)) (a b : ι) (i j : Fin (cores + 1)) :
    (((globalBarrierThreads ι cores n).exec (globalBarrierBegin ι cores) schedule).locals (a,some i)).returns ≤
      (((globalBarrierThreads ι cores n).exec (globalBarrierBegin ι cores) schedule).locals (b,some j)).begun := by
  obtain ⟨⟨e,opened⟩,seen,same⟩ := GlobalConfig.reaches_view (n := n) schedule
  generalize (globalBarrierThreads ι cores n).exec (globalBarrierBegin ι cores) schedule = c at opened same
  have apart := partial_barrier_separates clusters 0 seen a b
  rw [← same] at apart
  have here := (opened a i).bounds.1
  have dmA := ((opened a (Fin.last cores)).of_dm rfl).1
  have dmB := ((opened b (Fin.last cores)).of_dm rfl).2
  have there := (opened b j).bounds.2
  simp only [GlobalConfig.dmView] at apart
  omega

theorem global_barrier_separates_pair :
    (((globalBarrierThreads (Fin 2) 1 2).exec (globalBarrierBegin (Fin 2) 1)
      [((0,some 0),()),((0,some 1),()),((0,none),()),((0,some 1),()),((0,some 0),())]).locals
        (0,some 0)).returns ≤
    (((globalBarrierThreads (Fin 2) 1 2).exec (globalBarrierBegin (Fin 2) 1)
      [((0,some 0),()),((0,some 1),()),((0,none),()),((0,some 1),()),((0,some 0),())]).locals
        (1,some 0)).begun :=
  global_barrier_separates (by decide) 1 _ 0 1 0 0

end Snax
