import Mathlib.Algebra.BigOperators.Option
import Mathlib.Data.BitVec
import Mathlib.Data.Fintype.BigOperators
import Snax.RuntimeGlobalBarrier

/-! The sum over all cores of all clusters, `snrt_global_all_to_all_reduction`: every core adds its value to
one word, all meet at the global barrier, and each reads the word. The word is not cleared between two
calls, and nothing holds a core back from its next call while another still reads. -/
namespace Snax

open Sync (Threads)

inductive ReductionPc
  | idle
  | barrier
  | reading
  deriving DecidableEq

structure ReductionCore where
  pc : ReductionPc
  core : GlobalCore
  /-- The values of its calls, in their order. -/
  given : List (BitVec 32)
  /-- What its calls have returned. -/
  results : List (BitVec 32)

structure ReductionShared (ι : Type) (cores : Nat) where
  global : GlobalShared ι cores
  /-- `_reduction_result` -/
  result : BitVec 32

variable {ι : Type} [DecidableEq ι] {cores : Nat}

def snrtGlobalAllToAllReduction (n : BitVec 32) (a : ι) (i : Fin (cores + 1)) (value : BitVec 32)
    (h : ReductionCore) (s : ReductionShared ι cores) : Option (ReductionCore × ReductionShared ι cores) :=
  match h.pc with
  | .idle => some ({ h with pc := .barrier, given := h.given ++ [value] },{ s with result := s.result + value })
  | .barrier =>
    match snrtGlobalBarrier n a i h.core s.global with
    | none => none
    | some (core,global) =>
      some ({ h with pc := if core.pc = .outside then .reading else .barrier, core := core },
        { s with global := global })
  | .reading => some ({ h with pc := .idle, results := h.results ++ [s.result] },s)

def reductionThreads (ι : Type) [DecidableEq ι] (cores : Nat) (n : BitVec 32) :
    Threads (ι × Option (Fin (cores + 1))) (BitVec 32) ReductionCore (ReductionShared ι cores) where
  act t value h s :=
    match t.2 with
    | some i => snrtGlobalAllToAllReduction n t.1 i value h s
    | none => if ∀ i, s.global.arrival t.1 i = true then some (h,{ s with global := s.global.hwOpen t.1 }) else none

abbrev ReductionConfig (ι : Type) (cores : Nat) :=
  Threads.Config (ι × Option (Fin (cores + 1))) ReductionCore (ReductionShared ι cores)

def reductionBegin (ι : Type) (cores : Nat) : ReductionConfig ι cores :=
  ⟨fun _ => ⟨.idle,⟨.outside,⟨.outside,0,0⟩,0,0⟩,[],[]⟩,⟨⟨fun _ _ => false,⟨0,0⟩⟩,0⟩⟩

namespace ReductionCore

/-- Where a core can be in its call number `k`, or before it. -/
inductive Stage (k : Nat) (h : ReductionCore) : Prop
  | idle (pc : h.pc = .idle) (core : h.core.pc = .outside) (begun : h.core.begun = k)
      (returns : h.core.returns = k) (given : h.given.length = k) (results : h.results.length = k)
  | barrier (pc : h.pc = .barrier) (begun : h.core.begun ≤ k + 1)
      (core : h.core.pc = .outside → h.core.begun = k) (inside : h.core.pc ≠ .outside → h.core.begun = k + 1)
      (returns : h.core.returns = k) (given : h.given.length = k + 1) (results : h.results.length = k)
  | reading (pc : h.pc = .reading) (core : h.core.pc = .outside) (begun : h.core.begun = k + 1)
      (returns : h.core.returns = k + 1) (given : h.given.length = k + 1) (results : h.results.length = k)

theorem Stage.bounds {k : Nat} {h : ReductionCore} (stage : h.Stage k) :
    h.core.begun ≤ h.given.length ∧ h.given.length ≤ h.core.returns + 1 := by
  cases stage <;> omega

/-- A step in the global barrier stays in the call, or is the one that comes back from it. -/
theorem call_step {n : BitVec 32} {a : ι} {i : Fin (cores + 1)} {core core' : GlobalCore}
    {s s' : GlobalShared ι cores} (acts : snrtGlobalBarrier n a i core s = some (core',s')) :
    core'.pc ≠ .outside ∧ core'.returns = core.returns ∧
        core'.begun = (if core.pc = .outside then core.begun + 1 else core.begun) ∨
      core'.pc = .outside ∧ core.pc ≠ .outside ∧ core'.returns = core.returns + 1 ∧
        core'.begun = core.begun := by
  obtain ⟨pc,hart,begun,returns⟩ := core
  cases pc with
  | outside | between =>
    cases acts
    exact .inl ⟨GlobalPc.noConfusion,rfl,rfl⟩
  | first =>
    simp only [snrtGlobalBarrier] at acts
    split at acts
    · cases acts
    · cases acts
      refine .inl ⟨?_,rfl,rfl⟩
      dsimp only
      split <;> exact GlobalPc.noConfusion
  | second =>
    simp only [snrtGlobalBarrier] at acts
    split at acts
    · cases acts
    · cases acts
      exact .inr ⟨rfl,GlobalPc.noConfusion,rfl,rfl⟩
  | software =>
    simp only [snrtGlobalBarrier] at acts
    split at acts
    · cases acts
    · cases acts
      refine .inl ⟨?_,rfl,rfl⟩
      dsimp only
      split <;> exact GlobalPc.noConfusion

/-- What a step of a core does: it gives a value, is in the barrier, or reads the word. -/
inductive Moves (n : BitVec 32) (a : ι) (i : Fin (cores + 1)) (value : BitVec 32) (h h' : ReductionCore)
    (s s' : ReductionShared ι cores) : Prop
  | gives (given : h'.given = h.given ++ [value]) (results : h'.results = h.results)
      (core : h'.core = h.core) (global : s'.global = s.global) (word : s'.result = s.result + value)
  | waits (given : h'.given = h.given) (results : h'.results = h.results) (word : s'.result = s.result)
      (core : snrtGlobalBarrier n a i h.core s.global = some (h'.core,s'.global))
  | reads (reading : h.pc = .reading) (given : h'.given = h.given)
      (results : h'.results = h.results ++ [s.result]) (core : h'.core = h.core) (same : s' = s)

theorem moves_of_act {n : BitVec 32} {a : ι} {i : Fin (cores + 1)} {value : BitVec 32}
    {h h' : ReductionCore} {s s' : ReductionShared ι cores}
    (acts : snrtGlobalAllToAllReduction n a i value h s = some (h',s')) : Moves n a i value h h' s s' := by
  obtain ⟨pc,core,given,results⟩ := h
  cases pc with
  | idle =>
    cases acts
    exact .gives rfl rfl rfl rfl rfl
  | reading =>
    cases acts
    exact .reads rfl rfl rfl rfl rfl
  | barrier =>
    simp only [snrtGlobalAllToAllReduction] at acts
    split at acts
    · cases acts
    · rename_i moves
      cases acts
      exact .waits rfl rfl rfl moves

theorem Stage.step {n : BitVec 32} {a : ι} {i : Fin (cores + 1)} {value : BitVec 32} {k : Nat}
    {h h' : ReductionCore} {s s' : ReductionShared ι cores} (stage : h.Stage k)
    (acts : snrtGlobalAllToAllReduction n a i value h s = some (h',s')) : ∃ k', h'.Stage k' := by
  obtain ⟨pc,core,given,results⟩ := h
  cases stage with
  | idle pc core begun returns given results =>
    obtain rfl := pc
    cases acts
    exact ⟨k,.barrier rfl (begun.trans_le (Nat.le_succ k)) (fun _ => begun) (fun inside => absurd core inside) returns
      (by simpa using given) results⟩
  | barrier pc begun core inside returns given results =>
    obtain rfl := pc
    simp only [snrtGlobalAllToAllReduction] at acts
    split at acts
    · cases acts
    · rename_i moves
      cases acts
      rcases call_step moves with ⟨stays,same,again⟩ | ⟨back,before,counts,same⟩
      · refine ⟨k,.barrier (if_neg stays) ?_ (fun out => absurd out stays) (fun _ => ?_)
          (same.trans returns) given results⟩
        · split at again
          · rename_i out
            exact again.trans_le (Nat.succ_le_succ (core out).le)
          · exact again.trans_le begun
        · split at again
          · rename_i out
            exact again.trans (congrArg (· + 1) (core out))
          · rename_i inner
            exact again.trans (inside inner)
      · exact ⟨k,.reading (if_pos back) back (same.trans (inside before)) (by rw [counts,returns]) given results⟩
  | reading pc core begun returns given results =>
    obtain rfl := pc
    cases acts
    exact ⟨k + 1,.idle rfl core begun returns given (by simpa using results)⟩

end ReductionCore

namespace ReductionConfig

variable {n : BitVec 32}

/-- What the cores do in the global barrier. -/
def barrierView (c : ReductionConfig ι cores) : GlobalConfig ι cores :=
  ⟨fun t => (c.locals t).core,c.shared.global⟩

/-- What the thread with number `t` has given so far, as far as its call number `k`. -/
def givenBy (c : ReductionConfig ι cores) (m : ι → Option (Fin (cores + 1)) → Nat)
    (t : ι × Option (Fin (cores + 1))) : BitVec 32 :=
  ((c.locals t).given.take (m t.1 t.2)).sum

variable [Fintype ι]

/-- The result of a call `k` sums up all calls up to it, and of the next calls those that have begun. -/
def Explained (c : ReductionConfig ι cores) (k : Nat) (value : BitVec 32) : Prop :=
  ∃ m : ι → Option (Fin (cores + 1)) → Nat,
    (∀ b j, k + 1 ≤ m b (some j) ∧ m b (some j) ≤ k + 2 ∧ m b (some j) ≤ (c.locals (b,some j)).given.length) ∧
      value = ∑ t, givenBy c m t

structure Inv (n : BitVec 32) (c : ReductionConfig ι cores) : Prop where
  view : ∃ seen, barrierView c = (globalBarrierThreads ι cores n).exec (globalBarrierBegin ι cores) seen
  own : ∀ a i, ∃ k, (c.locals (a,some i)).Stage k
  units : ∀ a, (c.locals (a,none)).given = []
  word : c.shared.result = ∑ t, (c.locals t).given.sum
  past : ∀ a i k value, (c.locals (a,some i)).results[k]? = some value → Explained c k value

theorem view_step {c : ReductionConfig ι cores} {t : ι × Option (Fin (cores + 1))} {h : ReductionCore}
    {s : ReductionShared ι cores}
    (moves : barrierView ⟨Function.update c.locals t h,s⟩ = barrierView c ∨
      globalBarrierAct n t (c.locals t).core c.shared.global = some (h.core,s.global))
    (view : ∃ seen, barrierView c = (globalBarrierThreads ι cores n).exec (globalBarrierBegin ι cores) seen) :
    ∃ seen, barrierView ⟨Function.update c.locals t h,s⟩ =
      (globalBarrierThreads ι cores n).exec (globalBarrierBegin ι cores) seen := by
  obtain ⟨seen,same⟩ := view
  rcases moves with still | acts
  · exact ⟨seen,still.trans same⟩
  · refine ⟨seen ++ [(t,())],?_⟩
    rw [Threads.exec_append,← same]
    have next := Threads.next_of_act (t := globalBarrierThreads ι cores n) (c := barrierView c) (i := t)
      (x := ()) acts
    refine Eq.trans ?_ next.symm
    simp only [barrierView,Threads.Config.mk.injEq,and_true]
    funext u
    by_cases here : u = t
    · subst here
      rw [Function.update_self,Function.update_self]
    · rw [Function.update_of_ne here,Function.update_of_ne here]

/-- What explains a result still does when more is given. -/
theorem Explained.of_more {c c' : ReductionConfig ι cores} {k : Nat} {value : BitVec 32}
    (explained : Explained c k value)
    (more : ∀ t, ∃ later, (c'.locals t).given = (c.locals t).given ++ later)
    (units : ∀ a, (c'.locals (a,none)).given = (c.locals (a,none)).given) : Explained c' k value := by
  obtain ⟨m,bounds,sum⟩ := explained
  refine ⟨m,fun b j => ?_,sum.trans (Finset.sum_congr rfl fun t _ => ?_)⟩
  · obtain ⟨later,grown⟩ := more (b,some j)
    have := bounds b j
    rw [grown,List.length_append]
    omega
  · obtain ⟨b,j⟩ := t
    cases j with
    | none => rw [givenBy,givenBy,units b]
    | some j =>
      obtain ⟨later,grown⟩ := more (b,some j)
      rw [givenBy,givenBy,grown,List.take_append_of_le_length (bounds b j).2.2]

/-- A core that reads the word finds all that has been given, and nobody is more than a call ahead. -/
theorem Inv.explains {c : ReductionConfig ι cores} (clusters : n.toNat = Fintype.card ι) (inv : Inv n c)
    {a : ι} {i : Fin (cores + 1)} (reading : (c.locals (a,some i)).pc = .reading) :
    Explained c (c.locals (a,some i)).results.length c.shared.result := by
  obtain ⟨seen,view⟩ := inv.view
  have apart := global_barrier_separates clusters cores seen
  rw [← view] at apart
  simp only [barrierView] at apart
  obtain ⟨k,here⟩ := inv.own a i
  refine ⟨fun b j => (c.locals (b,j)).given.length,fun b j => ?_,inv.word.trans ?_⟩
  · obtain ⟨q,there⟩ := inv.own b j
    have before := apart a b i j
    have after := apart b a j i
    have bounds := there.bounds
    cases here with
    | idle pc | barrier pc =>
      rw [reading] at pc
      cases pc
    | reading _ _ begun returns _ results =>
      dsimp only
      omega
  · refine Finset.sum_congr rfl fun t _ => ?_
    rw [givenBy,List.take_length]

theorem given_update {c : ReductionConfig ι cores} {t : ι × Option (Fin (cores + 1))} {h : ReductionCore}
    {later : List (BitVec 32)}
    (given : h.given = (c.locals t).given ++ later) (u : ι × Option (Fin (cores + 1))) :
    ∃ later, (Function.update c.locals t h u).given = (c.locals u).given ++ later := by
  by_cases here : u = t
  · subst here
    exact ⟨later,by rw [Function.update_self,given]⟩
  · exact ⟨[],by rw [Function.update_of_ne here,List.append_nil]⟩

theorem Inv.step {c : ReductionConfig ι cores} (clusters : n.toNat = Fintype.card ι) (inv : Inv n c)
    {t : ι × Option (Fin (cores + 1))} {value : BitVec 32} {h : ReductionCore} {s : ReductionShared ι cores}
    (acts : (reductionThreads ι cores n).act t value (c.locals t) c.shared = some (h,s)) :
    Inv n ⟨Function.update c.locals t h,s⟩ := by
  obtain ⟨a,unit⟩ := t
  cases unit with
  | none =>
    simp only [reductionThreads] at acts
    split at acts
    · rename_i all
      cases acts
      have same : Function.update c.locals (a,none) (c.locals (a,none)) = c.locals := Function.update_eq_self ..
      refine ⟨view_step (.inr ?_) inv.view,?_,?_,?_,?_⟩
      · exact if_pos all
      · rw [same]
        exact inv.own
      · rw [same]
        exact inv.units
      · rw [same]
        exact inv.word
      · rw [same]
        exact fun b j k value got => (inv.past b j k value got).of_more
          (fun t => ⟨[],(List.append_nil _).symm⟩) fun _ => rfl
    · cases acts
  | some i =>
    obtain ⟨k,stage⟩ := inv.own a i
    have own : ∀ b j, ∃ k, (Function.update c.locals (a,some i) h (b,some j)).Stage k := by
      intro b j
      by_cases here : (b,some j) = (a,some i)
      · rw [here,Function.update_self]
        exact stage.step acts
      · rw [Function.update_of_ne here]
        exact inv.own b j
    have units : ∀ b, Function.update c.locals (a,some i) h (b,none) = c.locals (b,none) := fun b =>
      Function.update_of_ne (by simp) ..
    have noted := Threads.sum_update (fun h => h.given.sum) c.locals (a,some i) h
    -- the results of the other calls are explained as before, also when more has been given
    have past : ∀ later, h.given = (c.locals (a,some i)).given ++ later → ∀ b j k value,
        (c.locals (b,some j)).results[k]? = some value →
          Explained ⟨Function.update c.locals (a,some i) h,s⟩ k value := by
      intro later given b j k value got
      exact (inv.past b j k value got).of_more (given_update given) fun b => congrArg ReductionCore.given (units b)
    have results : h.results = (c.locals (a,some i)).results → ∀ b j,
        (Function.update c.locals (a,some i) h (b,some j)).results = (c.locals (b,some j)).results := by
      intro same b j
      by_cases here : (b,some j) = (a,some i)
      · rw [here,Function.update_self,same]
      · rw [Function.update_of_ne here]
    cases ReductionCore.moves_of_act acts with
    | gives given same core global word =>
      refine ⟨view_step (.inl ?_) inv.view,own,fun b => (congrArg _ (units b)).trans (inv.units b),?_,?_⟩
      · simp only [barrierView,global,Threads.Config.mk.injEq,and_true]
        funext u
        by_cases here : u = (a,some i)
        · rw [here,Function.update_self,core]
        · rw [Function.update_of_ne here]
      · rw [given,List.sum_append,List.sum_singleton,← inv.word,← add_assoc,add_right_comm] at noted
        exact word.trans (add_right_cancel noted).symm
      · intro b j k value got
        rw [results same b j] at got
        exact past _ given b j k value got
    | waits given same word core =>
      refine ⟨view_step (.inr core) inv.view,own,fun b => (congrArg _ (units b)).trans (inv.units b),?_,?_⟩
      · rw [given] at noted
        exact word.trans (inv.word.trans (add_right_cancel noted).symm)
      · intro b j k value got
        rw [results same b j] at got
        exact past [] (by rw [given,List.append_nil]) b j k value got
    | reads reading given got core same =>
      subst same
      have explains : Explained ⟨Function.update c.locals (a,some i) h,c.shared⟩ _ _ :=
        (inv.explains clusters reading).of_more (given_update (given.trans (List.append_nil _).symm)) fun b =>
          congrArg ReductionCore.given (units b)
      refine ⟨view_step (.inl ?_) inv.view,own,fun b => (congrArg _ (units b)).trans (inv.units b),?_,?_⟩
      · simp only [barrierView,Threads.Config.mk.injEq,and_true]
        funext u
        by_cases here : u = (a,some i)
        · rw [here,Function.update_self,core]
        · rw [Function.update_of_ne here]
      · rw [given] at noted
        exact inv.word.trans (add_right_cancel noted).symm
      · intro b j k value there
        by_cases here : (b,some j) = (a,some i)
        · dsimp only at there
          rw [here,Function.update_self,got] at there
          rcases Nat.lt_or_ge k (c.locals (a,some i)).results.length with earlier | now
          · rw [List.getElem?_append_left earlier] at there
            exact past [] (by rw [given,List.append_nil]) a i k value there
          · obtain ⟨rfl,rfl⟩ : k = (c.locals (a,some i)).results.length ∧ value = c.shared.result := by
              rw [List.getElem?_append_right now,List.getElem?_singleton] at there
              split at there
              · exact ⟨by omega,(Option.some.inj there).symm⟩
              · cases there
            exact explains
        · dsimp only at there
          rw [Function.update_of_ne here] at there
          exact past [] (by rw [given,List.append_nil]) b j k value there

theorem inv_begin (n : BitVec 32) : Inv n (reductionBegin ι cores) where
  view := ⟨[],rfl⟩
  own _ _ := ⟨0,.idle rfl rfl rfl rfl rfl rfl⟩
  units _ := rfl
  word := Eq.symm (Finset.sum_eq_zero fun _ _ => rfl)
  past _ _ _ _ got := by cases got

end ReductionConfig

/-- The result of a core's k-th call is the sum of what all cores have given in the first k calls, and of
what some of them have given in the next one already. -/
theorem all_to_all_reduction_law {ι : Type} [Fintype ι] [DecidableEq ι] {n : BitVec 32}
    (clusters : n.toNat = Fintype.card ι) {cores : Nat}
    (schedule : List ((ι × Option (Fin (cores + 1))) × BitVec 32)) {a : ι} {i : Fin (cores + 1)} {k : Nat}
    {value : BitVec 32}
    (got : (((reductionThreads ι cores n).exec (reductionBegin ι cores) schedule).locals (a,some i)).results[k]? =
      some value) :
    ∃ m : ι → Fin (cores + 1) → Nat, (∀ b j, k + 1 ≤ m b j ∧ m b j ≤ k + 2 ∧ m b j ≤
        (((reductionThreads ι cores n).exec (reductionBegin ι cores) schedule).locals (b,some j)).given.length) ∧
      value = ∑ b, ∑ j, ((((reductionThreads ι cores n).exec (reductionBegin ι cores) schedule).locals
        (b,some j)).given.take (m b j)).sum := by
  have inv := Threads.exec_rule (t := reductionThreads ι cores n) (ReductionConfig.Inv n)
    (ReductionConfig.inv_begin n) (fun c t x h s inv acts => inv.step clusters acts) schedule
  generalize (reductionThreads ι cores n).exec (reductionBegin ι cores) schedule = c at got inv ⊢
  obtain ⟨m,bounds,sum⟩ := inv.past a i k value got
  refine ⟨fun b j => m b (some j),bounds,sum.trans ?_⟩
  rw [Fintype.sum_prod_type]
  refine Finset.sum_congr rfl fun b _ => ?_
  rw [Fintype.sum_option,ReductionConfig.givenBy,inv.units b,List.take_nil,List.sum_nil,zero_add]
  rfl

/-- One cluster of two cores gives 5 and 7; the DM core comes back first and gives 9 before the other core
has read the word, which returns 21 where it has returned 12. -/
def overtakenSchedule : List ((Fin 1 × Option (Fin 2)) × BitVec 32) :=
  let unit := ((Fin.last 0,none),0)
  let core := fun value => ((Fin.last 0,some (Fin.castSucc (Fin.last 0))),value)
  let dm := fun value => ((Fin.last 0,some (Fin.last 1)),value)
  [core 5,dm 7,core 0,dm 0,unit,core 0,core 0,dm 0,dm 0,dm 0,dm 0,dm 0,dm 0,unit,dm 0,dm 0,dm 9,core 0,core 0]

theorem all_to_all_reduction_overtaken : ∃ m : Fin 1 → Fin 2 → Nat, (∀ b j, 0 + 1 ≤ m b j ∧ m b j ≤ 0 + 2 ∧
    m b j ≤ (((reductionThreads (Fin 1) 1 1).exec (reductionBegin (Fin 1) 1) overtakenSchedule).locals
      (b,some j)).given.length) ∧
    21 = ∑ b, ∑ j, ((((reductionThreads (Fin 1) 1 1).exec (reductionBegin (Fin 1) 1) overtakenSchedule).locals
      (b,some j)).given.take (m b j)).sum :=
  all_to_all_reduction_law (n := 1) (a := 0) (i := 0) (k := 0) (by decide) overtakenSchedule (by decide +kernel)

end Snax
