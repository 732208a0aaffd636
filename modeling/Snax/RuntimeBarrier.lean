import Snax.Sync.Threads

/-! The barrier the harts keep in memory, `snrt_partial_barrier`: a counter of the harts that have come
and the number of the round. Any number of harts call it again and again; every step is one access
to the memory, and the accesses of different harts come in any order. -/
namespace Snax

open Sync (Threads)

structure SnrtBarrier where
  cnt : BitVec 32
  iteration : BitVec 32
  deriving DecidableEq

inductive BarrierPc
  /-- Between two calls. -/
  | outside
  /-- The iteration is read. -/
  | entered (prevIt : BitVec 32)
  /-- The hart has found `cnt == n`. -/
  | last
  /-- It has written `cnt = 0`. -/
  | cleared
  | waiting (prevIt : BitVec 32)
  deriving DecidableEq

/-- A hart, with how often it has added itself to the counter and how often it has come back. -/
structure BarrierHart where
  pc : BarrierPc
  arrivals : Nat
  returns : Nat
  deriving DecidableEq

def snrtPartialBarrier (n : BitVec 32) (h : BarrierHart) (barr : SnrtBarrier) :
    Option (BarrierHart × SnrtBarrier) :=
  match h.pc with
  | .outside => some ({ h with pc := .entered barr.iteration },barr)
  | .entered prevIt =>
    -- `__atomic_add_fetch`: the comparison is with the value this hart has written
    some ({ h with pc := if barr.cnt + 1 = n then .last else .waiting prevIt, arrivals := h.arrivals + 1 },
      { barr with cnt := barr.cnt + 1 })
  | .last => some ({ h with pc := .cleared },{ barr with cnt := 0 })
  | .cleared => some ({ h with pc := .outside, returns := h.returns + 1 },
      { barr with iteration := barr.iteration + 1 })
  | .waiting prevIt =>
    if prevIt = barr.iteration then none
    else some ({ h with pc := .outside, returns := h.returns + 1 },barr)

def barrierThreads (ι : Type) (n : BitVec 32) : Threads ι Unit BarrierHart SnrtBarrier where
  act _ _ := snrtPartialBarrier n

abbrev BarrierConfig (ι : Type) := Threads.Config ι BarrierHart SnrtBarrier

/-- No hart has called the barrier yet; its rounds count from `v`. -/
def barrierBegin (ι : Type) (v : BitVec 32) : BarrierConfig ι :=
  ⟨fun _ => ⟨.outside,0,0⟩,⟨0,v⟩⟩

theorem snrtPartialBarrier_waiting (n prevIt : BitVec 32) (arrivals returns : Nat) (barr : SnrtBarrier) :
    snrtPartialBarrier n ⟨.waiting prevIt,arrivals,returns⟩ barr =
      if prevIt = barr.iteration then none else some (⟨.outside,arrivals,returns + 1⟩,barr) := rfl

namespace BarrierHart

/-- Whether the hart is counted in the round with number `it`. -/
def weight (it : BitVec 32) (h : BarrierHart) : Nat :=
  match h.pc with
  | .last | .cleared => 1
  | .waiting prevIt => if prevIt = it then 1 else 0
  | .outside | .entered _ => 0

theorem weight_waiting (it prevIt : BitVec 32) (arrivals returns : Nat) :
    weight it ⟨.waiting prevIt,arrivals,returns⟩ = if prevIt = it then 1 else 0 := rfl

theorem weight_le (it : BitVec 32) (h : BarrierHart) : h.weight it ≤ 1 := by
  unfold weight
  split
  · exact Nat.le_refl 1
  · exact Nat.le_refl 1
  · split <;> decide
  · exact Nat.zero_le 1
  · exact Nat.zero_le 1

/-- The hart is the one that opens the next round. -/
def Opens (h : BarrierHart) : Prop := h.pc = .last ∨ h.pc = .cleared

/-- Where a hart can be in round `r`: still on its way out of the round before, on its way in, or there. -/
inductive Stage (v : BitVec 32) (r : Nat) : BarrierHart → Prop
  | outside : Stage v r ⟨.outside,r,r⟩
  | entered : Stage v r ⟨.entered (v + BitVec.ofNat 32 r),r,r⟩
  | last : Stage v r ⟨.last,r + 1,r⟩
  | cleared : Stage v r ⟨.cleared,r + 1,r⟩
  | waiting : Stage v r ⟨.waiting (v + BitVec.ofNat 32 r),r + 1,r⟩
  | leaving {k : Nat} (former : r = k + 1) : Stage v r ⟨.waiting (v + BitVec.ofNat 32 k),r,k⟩

theorem Stage.returns_le {v : BitVec 32} {r : Nat} {h : BarrierHart} (stage : h.Stage v r) :
    h.returns ≤ r ∧ r ≤ h.arrivals := by
  cases stage with
  | outside | entered => exact ⟨Nat.le_refl r,Nat.le_refl r⟩
  | last | cleared | waiting => exact ⟨Nat.le_refl r,Nat.le_succ r⟩
  | leaving former => exact ⟨Nat.le_of_lt (former ▸ Nat.lt_succ_self _),Nat.le_refl r⟩

/-- How far the hart has come, over all its calls. -/
def place (h : BarrierHart) : Nat :=
  4 * h.returns + match h.pc with
    | .outside => 0
    | .entered _ => 1
    | .last => 2
    | .cleared | .waiting _ => 3

theorem place_le (h : BarrierHart) : h.place ≤ 4 * h.returns + 3 := by
  unfold place
  split <;> omega

theorem Stage.le_place {v : BitVec 32} {r : Nat} {h : BarrierHart} (stage : h.Stage v r) :
    4 * r ≤ h.place + 1 := by
  cases stage with
  | outside | entered | last | cleared | waiting => simp [place,Nat.add_assoc]
  | leaving former =>
    simp [place]
    omega

/-- Who has come to the end of round `r` is counted in it. -/
theorem Stage.counted {v : BitVec 32} {r : Nat} {h : BarrierHart} (stage : h.Stage v r)
    (late : 4 * r + 3 ≤ h.place) : h.weight (v + BitVec.ofNat 32 r) = 1 ∧ h.place = 4 * r + 3 := by
  cases stage with
  | outside | entered | last => simp [place] at late
  | cleared => exact ⟨rfl,rfl⟩
  | waiting => exact ⟨if_pos rfl,rfl⟩
  | leaving former =>
    simp [place] at late
    omega

theorem place_lt {n : BitVec 32} {h h' : BarrierHart} {barr barr' : SnrtBarrier}
    (acts : snrtPartialBarrier n h barr = some (h',barr')) : h.place < h'.place := by
  obtain ⟨pc,arrivals,returns⟩ := h
  cases pc with
  | outside | last | cleared =>
    cases acts
    simp [place]
    try omega
  | entered prevIt =>
    cases acts
    by_cases full : barr.cnt + 1 = n
    · simp only [place,if_pos full]
      omega
    · simp only [place,if_neg full]
      omega
  | waiting prevIt =>
    rw [snrtPartialBarrier_waiting] at acts
    split at acts
    · cases acts
    · cases acts
      simp [place]
      omega

end BarrierHart

/-- The number of a round is not the one of the next. -/
theorem roundNumber_ne (v : BitVec 32) (r : Nat) : v + BitVec.ofNat 32 r ≠ v + BitVec.ofNat 32 (r + 1) := by
  intro same
  rw [BitVec.add_right_inj,BitVec.ofNat_add] at same
  have zero : (1 : BitVec 32) = 0 := BitVec.self_eq_add_right.mp same
  exact absurd zero (by decide)

theorem roundNumber_succ (v : BitVec 32) (r : Nat) :
    v + BitVec.ofNat 32 r + 1 = v + BitVec.ofNat 32 (r + 1) := by
  rw [BitVec.ofNat_add,BitVec.add_assoc]
  rfl

namespace BarrierConfig

variable {ι : Type} [Fintype ι] {n v : BitVec 32} {r : Nat} {c : BarrierConfig ι}

/-- How many harts are counted in the round. -/
def arrived (c : BarrierConfig ι) : Nat := ∑ i, (c.locals i).weight c.shared.iteration

/-- Harts are coming, or all have come and one of them opens the next round. -/
inductive Phase (n : BitVec 32) (c : BarrierConfig ι) : Prop
  | gathers (nobody : ∀ i, ¬ (c.locals i).Opens) (count : c.shared.cnt.toNat = arrived c)
      (room : arrived c < n.toNat)
  | last (i : ι) (here : (c.locals i).pc = .last) (alone : ∀ j, (c.locals j).Opens → j = i)
      (full : arrived c = n.toNat)
  | cleared (i : ι) (here : (c.locals i).pc = .cleared) (alone : ∀ j, (c.locals j).Opens → j = i)
      (full : arrived c = n.toNat) (zero : c.shared.cnt = 0)

structure Round (n v : BitVec 32) (r : Nat) (c : BarrierConfig ι) : Prop where
  iteration : c.shared.iteration = v + BitVec.ofNat 32 r
  stage : ∀ i, (c.locals i).Stage v r
  phase : Phase n c

variable [DecidableEq ι]

theorem arrived_update (c : BarrierConfig ι) (i : ι) (h : BarrierHart) (cnt : BitVec 32) :
    arrived ⟨Function.update c.locals i h,⟨cnt,c.shared.iteration⟩⟩ +
        (c.locals i).weight c.shared.iteration =
      arrived c + h.weight c.shared.iteration :=
  Threads.sum_update (BarrierHart.weight c.shared.iteration) c.locals i h

omit [DecidableEq ι] in
theorem arrived_le (c : BarrierConfig ι) : arrived c ≤ Fintype.card ι := by
  have each : arrived c ≤ ∑ _i : ι, 1 := Finset.sum_le_sum fun i _ => (c.locals i).weight_le _
  simpa using each

omit [DecidableEq ι] in
/-- A hart that is not counted leaves room for itself. -/
theorem arrived_lt {i : ι} (absent : (c.locals i).weight c.shared.iteration = 0) :
    arrived c < Fintype.card ι := by
  refine Nat.lt_of_le_of_ne (arrived_le c) fun full => ?_
  have one := Threads.weight_of_full (fun h => BarrierHart.weight_le c.shared.iteration h) full i
  exact absurd (absent.symm.trans one) (by decide)

omit [Fintype ι] in
theorem opens_update {i : ι} {h : BarrierHart} (closed : ¬ h.Opens) {j : ι}
    (opens : (Function.update c.locals i h j).Opens) : j ≠ i ∧ (c.locals j).Opens := by
  by_cases same : j = i
  · subst same
    exact absurd (by simpa using opens) closed
  · exact ⟨same,by simpa [same] using opens⟩

/-- A step of a hart that is not counted and does not open a round, before it and after it. -/
theorem Phase.of_uncounted {i : ι} {h : BarrierHart} (phase : Phase n c)
    (before : (c.locals i).weight c.shared.iteration = 0) (after : h.weight c.shared.iteration = 0) :
    Phase n ⟨Function.update c.locals i h,c.shared⟩ := by
  have count := arrived_update c i h c.shared.cnt
  have same : arrived ⟨Function.update c.locals i h,c.shared⟩ = arrived c := by
    rw [before,after] at count
    exact count
  have closed : ¬ h.Opens := by
    rintro (last | cleared)
    · simp [BarrierHart.weight,last] at after
    · simp [BarrierHart.weight,cleared] at after
  have other : ∀ k, (c.locals k).Opens → k ≠ i := by
    rintro k opens rfl
    rcases opens with last | cleared
    · simp [BarrierHart.weight,last] at before
    · simp [BarrierHart.weight,cleared] at before
  cases phase with
  | gathers nobody cnt room =>
    exact .gathers (fun j opens => nobody j (opens_update closed opens).2) (by rw [same]; exact cnt)
      (by rw [same]; exact room)
  | last k here alone full =>
    have apart := other k (.inl here)
    refine .last k ?_ (fun j opens => alone j (opens_update closed opens).2) (same.trans full)
    simpa [apart] using here
  | cleared k here alone full zero =>
    have apart := other k (.inr here)
    refine .cleared k ?_ (fun j opens => alone j (opens_update closed opens).2) (same.trans full) zero
    simpa [apart] using here

theorem Round.uncounted (round : Round n v r c) {i : ι} {h : BarrierHart}
    (before : (c.locals i).weight c.shared.iteration = 0) (after : h.weight c.shared.iteration = 0)
    (stage : h.Stage v r) : Round n v r ⟨Function.update c.locals i h,c.shared⟩ where
  iteration := round.iteration
  stage j := by
    by_cases same : j = i
    · subst same
      simpa using stage
    · simpa [same] using round.stage j
  phase := round.phase.of_uncounted before after

/-- The hart that adds itself is the last one if the counter reaches `n`, and waits otherwise. -/
theorem Round.arrives (harts : n.toNat = Fintype.card ι) (round : Round n v r c) {i : ι}
    (here : c.locals i = ⟨.entered (v + BitVec.ofNat 32 r),r,r⟩) :
    Round n v r ⟨Function.update c.locals i ⟨if c.shared.cnt + 1 = n then .last
      else .waiting (v + BitVec.ofNat 32 r),r + 1,r⟩,⟨c.shared.cnt + 1,c.shared.iteration⟩⟩ := by
  have absent : (c.locals i).weight c.shared.iteration = 0 := by rw [here]; rfl
  have few : arrived c < n.toNat := harts ▸ arrived_lt absent
  have stage : ∀ h : BarrierHart, h.Stage v r → ∀ j, (Function.update c.locals i h j).Stage v r := by
    intro h own j
    by_cases same : j = i
    · subst same
      simpa using own
    · simpa [same] using round.stage j
  cases round.phase with
  | last _ _ _ full | cleared _ _ _ full _ => exact absurd full (Nat.ne_of_lt few)
  | gathers nobody count room =>
    have cnt : (c.shared.cnt + 1).toNat = arrived c + 1 := by
      have := n.isLt
      rw [BitVec.toNat_add,count]
      exact Nat.mod_eq_of_lt (by simp; omega)
    by_cases full : c.shared.cnt + 1 = n
    · rw [if_pos full]
      refine ⟨round.iteration,stage _ .last,.last i (by simp) (fun j opens => ?_) ?_⟩
      · by_contra apart
        exact nobody j (by simpa [apart] using opens)
      · have moved := arrived_update c i ⟨.last,r + 1,r⟩ (c.shared.cnt + 1)
        rw [absent] at moved
        rw [← full,cnt]
        exact moved
    · rw [if_neg full]
      have moved := arrived_update c i ⟨.waiting (v + BitVec.ofNat 32 r),r + 1,r⟩ (c.shared.cnt + 1)
      rw [absent,BarrierHart.weight_waiting,if_pos round.iteration.symm] at moved
      refine ⟨round.iteration,stage _ .waiting,.gathers (fun j opens => ?_) (cnt.trans moved.symm) ?_⟩
      · refine nobody j (opens_update (fun own => ?_) opens).2
        exact own.elim BarrierPc.noConfusion BarrierPc.noConfusion
      · refine Nat.lt_of_le_of_ne (moved.trans_le few) fun all => full (BitVec.eq_of_toNat_eq ?_)
        exact cnt.trans (moved.symm.trans all)

theorem Round.clears (round : Round n v r c) {i : ι} (here : c.locals i = ⟨.last,r + 1,r⟩) :
    Round n v r ⟨Function.update c.locals i ⟨.cleared,r + 1,r⟩,⟨0,c.shared.iteration⟩⟩ := by
  have opens : (c.locals i).Opens := .inl (by rw [here])
  have stage : ∀ j, (Function.update c.locals i ⟨.cleared,r + 1,r⟩ j).Stage v r := by
    intro j
    by_cases same : j = i
    · subst same
      simpa using BarrierHart.Stage.cleared
    · simpa [same] using round.stage j
  cases round.phase with
  | gathers nobody _ _ => exact absurd opens (nobody i)
  | cleared k cleared alone _ _ =>
    obtain rfl := alone i opens
    rw [here] at cleared
    exact absurd cleared BarrierPc.noConfusion
  | last k _ alone full =>
    obtain rfl := alone i opens
    refine ⟨round.iteration,stage,.cleared i (by simp) (fun j again => ?_) ?_ rfl⟩
    · by_contra apart
      exact apart (alone j (by simpa [apart] using again))
    · have moved := arrived_update c i ⟨.cleared,r + 1,r⟩ 0
      rw [here] at moved
      exact (Nat.add_right_cancel moved).trans full

/-- The next round begins: every hart but the one that opens it waits, and none is counted. -/
theorem Round.opens (harts : n.toNat = Fintype.card ι) (round : Round n v r c) {i : ι}
    (here : c.locals i = ⟨.cleared,r + 1,r⟩) :
    Round n v (r + 1) ⟨Function.update c.locals i ⟨.outside,r + 1,r + 1⟩,
      ⟨c.shared.cnt,c.shared.iteration + 1⟩⟩ := by
  have opens : (c.locals i).Opens := .inr (by rw [here])
  cases round.phase with
  | gathers nobody _ _ => exact absurd opens (nobody i)
  | last k last alone _ =>
    obtain rfl := alone i opens
    rw [here] at last
    exact absurd last BarrierPc.noConfusion
  | cleared k _ alone full zero =>
    obtain rfl := alone i opens
    have waits : ∀ j, j ≠ i → c.locals j = ⟨.waiting (v + BitVec.ofNat 32 r),r + 1,r⟩ := by
      intro j apart
      have counted := Threads.weight_of_full (fun h => BarrierHart.weight_le c.shared.iteration h)
        (full.trans harts) j
      have stage := round.stage j
      generalize at_j : c.locals j = h at counted stage
      cases stage with
      | outside | entered => exact absurd counted Nat.zero_ne_one
      | last => exact absurd (alone j (.inl (by rw [at_j]))) apart
      | cleared => exact absurd (alone j (.inr (by rw [at_j]))) apart
      | waiting => rfl
      | leaving former =>
        subst former
        rw [BarrierHart.weight_waiting,round.iteration,if_neg (roundNumber_ne v _)] at counted
        exact absurd counted Nat.zero_ne_one
    have iteration : c.shared.iteration + 1 = v + BitVec.ofNat 32 (r + 1) := by
      rw [round.iteration,roundNumber_succ]
    have all : ∀ j, (Function.update c.locals i ⟨.outside,r + 1,r + 1⟩ j).Stage v (r + 1) ∧
        ¬ (Function.update c.locals i ⟨.outside,r + 1,r + 1⟩ j).Opens ∧
        (Function.update c.locals i ⟨.outside,r + 1,r + 1⟩ j).weight (v + BitVec.ofNat 32 (r + 1)) = 0 := by
      intro j
      by_cases same : j = i
      · subst same
        rw [Function.update_self]
        exact ⟨.outside,fun again => again.elim BarrierPc.noConfusion BarrierPc.noConfusion,rfl⟩
      · rw [Function.update_of_ne same,waits j same]
        exact ⟨.leaving rfl,fun again => again.elim BarrierPc.noConfusion BarrierPc.noConfusion,
          if_neg (roundNumber_ne v r)⟩
    have empty : arrived ⟨Function.update c.locals i ⟨.outside,r + 1,r + 1⟩,
        ⟨c.shared.cnt,c.shared.iteration + 1⟩⟩ = 0 := by
      refine Finset.sum_eq_zero fun j _ => ?_
      rw [iteration]
      exact (all j).2.2
    refine ⟨iteration,fun j => (all j).1,.gathers (fun j => (all j).2.1) ?_ ?_⟩
    · rw [empty,zero]
      rfl
    · rw [empty,harts]
      exact Fintype.card_pos_iff.mpr ⟨i⟩

/-- A step of a hart keeps the round or begins the next one. -/
theorem Round.step (harts : n.toNat = Fintype.card ι) (round : Round n v r c) {i : ι} {h : BarrierHart}
    {s : SnrtBarrier} (acts : snrtPartialBarrier n (c.locals i) c.shared = some (h,s)) :
    Round n v r ⟨Function.update c.locals i h,s⟩ ∨ Round n v (r + 1) ⟨Function.update c.locals i h,s⟩ := by
  have stage := round.stage i
  generalize here : c.locals i = own at acts stage
  cases stage with
  | outside =>
    cases acts
    refine .inl (round.uncounted (by rw [here]; rfl) rfl ?_)
    rw [round.iteration]
    exact .entered
  | entered =>
    cases acts
    exact .inl (round.arrives harts here)
  | last =>
    cases acts
    exact .inl (round.clears here)
  | cleared =>
    cases acts
    exact .inr (round.opens harts here)
  | waiting =>
    rw [snrtPartialBarrier_waiting,if_pos round.iteration.symm] at acts
    cases acts
  | @leaving k former =>
    subst former
    have apart : v + BitVec.ofNat 32 k ≠ c.shared.iteration := round.iteration ▸ roundNumber_ne v k
    rw [snrtPartialBarrier_waiting,if_neg apart] at acts
    cases acts
    exact .inl (round.uncounted (by rw [here]; exact if_neg apart) rfl .outside)

omit [DecidableEq ι] in
theorem round_begin (harts : n.toNat = Fintype.card ι) (some_hart : Nonempty ι) :
    Round n v 0 (barrierBegin ι v) := by
  have empty : arrived (barrierBegin ι v) = 0 := Finset.sum_eq_zero fun _ _ => rfl
  refine ⟨(BitVec.add_zero v).symm,fun _ => .outside,.gathers (fun _ opens => ?_) empty.symm ?_⟩
  · exact opens.elim BarrierPc.noConfusion BarrierPc.noConfusion
  · rw [empty,harts]
    exact Fintype.card_pos_iff.mpr some_hart

theorem reaches_round (harts : n.toNat = Fintype.card ι) (some_hart : Nonempty ι)
    (schedule : List (ι × Unit)) :
    ∃ r, Round n v r ((barrierThreads ι n).exec (barrierBegin ι v) schedule) := by
  refine Threads.exec_rule (fun c => ∃ r, Round n v r c) ⟨0,round_begin harts some_hart⟩ ?_ schedule
  rintro c i x h s ⟨r,round⟩ acts
  rcases round.step harts acts with same | next
  · exact ⟨r,same⟩
  · exact ⟨r + 1,next⟩

/-- At least round `r`, and every hart at least at `place`. -/
def Late (n v : BitVec 32) (r place : Nat) (c : BarrierConfig ι) : Prop :=
  (∃ k, r ≤ k ∧ Round n v k c) ∧ ∀ i, place ≤ (c.locals i).place

omit [Fintype ι] in
theorem place_le_next (c : BarrierConfig ι) (i : ι × Unit) (j : ι) :
    (c.locals j).place ≤ (((barrierThreads ι n).next c i).locals j).place := by
  refine Threads.next_cases (motive := fun c' => (c.locals j).place ≤ (c'.locals j).place) c i
    (Nat.le_refl _) fun h s acts => ?_
  by_cases same : j = i.1
  · subst same
    simpa using Nat.le_of_lt (BarrierHart.place_lt acts)
  · simp [same]

variable {place : Nat}

theorem Late.next (harts : n.toNat = Fintype.card ι) (late : Late n v r place c) (i : ι × Unit) :
    Late n v r place ((barrierThreads ι n).next c i) := by
  obtain ⟨⟨k,least,round⟩,all⟩ := late
  refine ⟨?_,fun j => Nat.le_trans (all j) (place_le_next c i j)⟩
  refine Threads.next_cases (motive := fun c => ∃ k, r ≤ k ∧ Round n v k c) c i ⟨k,least,round⟩ ?_
  intro h s acts
  rcases round.step harts acts with same | next
  · exact ⟨k,least,same⟩
  · exact ⟨k + 1,Nat.le_succ_of_le least,next⟩

omit [DecidableEq ι] in
/-- Only a hart that waits for the end of its round has no step. -/
theorem Round.place_of_waits (round : Round n v r c) {i : ι}
    (waits : snrtPartialBarrier n (c.locals i) c.shared = none) : (c.locals i).place = 4 * r + 3 := by
  have stage := round.stage i
  generalize c.locals i = h at waits stage
  cases stage with
  | outside | entered | last | cleared => cases waits
  | waiting => rfl
  | @leaving k former =>
    subst former
    have apart : v + BitVec.ofNat 32 k ≠ c.shared.iteration := round.iteration ▸ roundNumber_ne v k
    rw [snrtPartialBarrier_waiting,if_neg apart] at waits
    cases waits

theorem Late.moves (harts : n.toNat = Fintype.card ι) (late : Late n v r place c) (low : place < 4 * r + 3)
    (i : ι) : place + 1 ≤ (((barrierThreads ι n).next c (i,())).locals i).place := by
  obtain ⟨⟨k,least,round⟩,all⟩ := late
  cases acts : snrtPartialBarrier n (c.locals i) c.shared with
  | none =>
    rw [Threads.next_of_waits acts,round.place_of_waits acts]
    omega
  | some moved =>
    rw [Threads.next_of_act acts]
    simp only [Function.update_self]
    exact Nat.lt_of_le_of_lt (all i) (BarrierHart.place_lt acts)

/-- A schedule that gives every hart a step brings on all of them that are not at the end of the round. -/
theorem Late.sweep (harts : n.toNat = Fintype.card ι) (late : Late n v r place c) (low : place < 4 * r + 3)
    {schedule : List (ι × Unit)} (fair : ∀ i, i ∈ schedule.map Prod.fst) :
    Late n v r (place + 1) ((barrierThreads ι n).exec c schedule) := by
  have ⟨after,moved⟩ := Threads.round_rule (Late n v r place)
    (fun i c => place + 1 ≤ (c.locals i).place) (fun c i late => late.next harts i)
    (fun c i _ late => late.moves harts low i)
    (fun c i j _ _ there => Nat.le_trans there (place_le_next c i j)) late schedule
  exact ⟨after.1,fun i => moved i (fair i)⟩

/-- When all have come to the end of the round, one of them opens the next. -/
theorem Late.opens (harts : n.toNat = Fintype.card ι) (late : Late n v r (4 * r + 3) c)
    {schedule : List (ι × Unit)} (fair : ∀ i, i ∈ schedule.map Prod.fst) :
    Late n v (r + 1) (4 * r + 3) ((barrierThreads ι n).exec c schedule) := by
  have ⟨after,moved⟩ := Threads.round_rule (Late n v r (4 * r + 3))
    (fun i c => (c.locals i).pc = .cleared → 4 * r + 4 ≤ (c.locals i).place)
    (fun c i late => late.next harts i) ?_ ?_ late schedule
  · generalize (barrierThreads ι n).exec c schedule = c' at after moved
    obtain ⟨⟨k,least,round⟩,all⟩ := after
    refine ⟨⟨k,?_,round⟩,all⟩
    by_contra early
    obtain rfl : k = r := by omega
    have ends := fun i => (round.stage i).counted (all i)
    have full : arrived c' = n.toNat := by
      have one : arrived c' = ∑ _i : ι, 1 := Finset.sum_congr rfl fun i _ => round.iteration ▸ (ends i).1
      rw [one,harts]
      simp
    cases round.phase with
    | gathers _ _ room => exact absurd full (Nat.ne_of_lt room)
    | last i here _ _ =>
      have place := (ends i).2
      rw [BarrierHart.place,here] at place
      simp only at place
      omega
    | cleared i here _ _ _ =>
      have place := (ends i).2
      have := moved i (fair i) here
      omega
  · intro c i x late cleared
    have there := late.2 i
    cases acts : snrtPartialBarrier n (c.locals i) c.shared with
    | none =>
      rw [Threads.next_of_waits acts] at cleared
      rw [snrtPartialBarrier,cleared] at acts
      cases acts
    | some moved =>
      rw [Threads.next_of_act acts]
      simp only [Function.update_self]
      exact Nat.lt_of_le_of_lt there (BarrierHart.place_lt acts)
  · intro c i j _ apart there cleared
    rw [Threads.next_other c i apart] at cleared ⊢
    exact there cleared

/-- Five sweeps over the harts are one round of the barrier. -/
theorem Late.round (harts : n.toNat = Fintype.card ι) (late : Late n v r (4 * r - 1) c)
    (sweeps : List (List (ι × Unit))) (five : sweeps.length = 5)
    (fair : ∀ sweep ∈ sweeps, ∀ i, i ∈ sweep.map Prod.fst) :
    Late n v (r + 1) (4 * (r + 1) - 1) ((barrierThreads ι n).exec c sweeps.flatten) := by
  obtain ⟨a,b,d,e,f,rfl⟩ : ∃ a b d e f, sweeps = [a,b,d,e,f] := by
    match sweeps,five with
    | [a,b,d,e,f],_ => exact ⟨a,b,d,e,f,rfl⟩
  simp only [List.mem_cons,List.not_mem_nil,or_false,forall_eq_or_imp,forall_eq] at fair
  obtain ⟨fairA,fairB,fairD,fairE,fairF⟩ := fair
  simp only [List.flatten_cons,List.flatten_nil,List.append_nil,Threads.exec_append]
  have entered : Late n v r (4 * r) ((barrierThreads ι n).exec c a) := by
    have sweep := late.sweep harts (by omega) fairA
    exact ⟨sweep.1,fun i => Nat.le_trans (by omega) (sweep.2 i)⟩
  have ends := ((entered.sweep harts (by omega) fairB).sweep harts (by omega) fairD).sweep harts
    (by omega) fairE
  exact ends.opens harts fairF

theorem Late.rounds (harts : n.toNat = Fintype.card ι) (late : Late n v r (4 * r - 1) c) (k : Nat)
    (sweeps : List (List (ι × Unit))) (many : sweeps.length = 5 * k)
    (fair : ∀ sweep ∈ sweeps, ∀ i, i ∈ sweep.map Prod.fst) :
    Late n v (r + k) (4 * (r + k) - 1) ((barrierThreads ι n).exec c sweeps.flatten) := by
  induction k generalizing r c sweeps with
  | zero =>
    obtain rfl := List.length_eq_zero_iff.mp many
    exact late
  | succ k ih =>
    have first := late.round harts (sweeps.take 5) (by simp; omega) fun sweep member =>
      fair sweep (List.mem_of_mem_take member)
    have rest := ih first (sweeps.drop 5) (by simp; omega) fun sweep member =>
      fair sweep (List.mem_of_mem_drop member)
    rw [← List.take_append_drop 5 sweeps,List.flatten_append,Threads.exec_append]
    rw [Nat.add_right_comm r 1 k] at rest
    exact rest

omit [DecidableEq ι] in
theorem Round.late (round : Round n v r c) : Late n v r (4 * r - 1) c :=
  ⟨⟨r,Nat.le_refl r,round⟩,fun i => Nat.sub_le_iff_le_add.mpr (round.stage i).le_place⟩

end BarrierConfig

/-- No hart comes back from its k-th call before every hart has added itself in its own k-th, in any
order of the steps and over any number of calls, also where the counters wrap around. -/
theorem partial_barrier_separates {ι : Type} [Fintype ι] [DecidableEq ι] {n : BitVec 32}
    (harts : n.toNat = Fintype.card ι) (v : BitVec 32) (schedule : List (ι × Unit)) (i j : ι) :
    (((barrierThreads ι n).exec (barrierBegin ι v) schedule).locals i).returns ≤
      (((barrierThreads ι n).exec (barrierBegin ι v) schedule).locals j).arrivals := by
  obtain ⟨r,round⟩ := BarrierConfig.reaches_round (v := v) harts ⟨i⟩ schedule
  exact Nat.le_trans (round.stage i).returns_le.1 (round.stage j).returns_le.2

theorem partial_barrier_separates_pair :
    (((barrierThreads (Fin 2) 2).exec (barrierBegin (Fin 2) (-1))
      [(0,()),(1,()),(0,()),(1,()),(1,()),(1,()),(0,())]).locals 0).returns ≤
    (((barrierThreads (Fin 2) 2).exec (barrierBegin (Fin 2) (-1))
      [(0,()),(1,()),(0,()),(1,()),(1,()),(1,()),(0,())]).locals 1).arrivals :=
  partial_barrier_separates (by decide) (-1) _ 0 1

/-- The barrier never hangs: from wherever the harts have come to, five sweeps over them for every call
and one more bring each of them back from that many further calls. -/
theorem partial_barrier_progresses {ι : Type} [Fintype ι] [DecidableEq ι] {n : BitVec 32}
    (harts : n.toNat = Fintype.card ι) (v : BitVec 32) (schedule : List (ι × Unit)) (k : Nat)
    {sweeps : List (List (ι × Unit))} (many : sweeps.length = 5 * k + 1)
    (fair : ∀ sweep ∈ sweeps, ∀ i, i ∈ sweep.map Prod.fst) (i : ι) :
    (((barrierThreads ι n).exec (barrierBegin ι v) schedule).locals i).returns + k ≤
      (((barrierThreads ι n).exec (barrierBegin ι v) (schedule ++ sweeps.flatten)).locals i).returns := by
  obtain ⟨r,round⟩ := BarrierConfig.reaches_round (v := v) harts ⟨i⟩ schedule
  obtain ⟨most,last,rfl⟩ : ∃ most last, sweeps = most ++ [last] :=
    (List.eq_nil_or_concat' sweeps).resolve_left fun none => by simp [none] at many
  have rounds := round.late.rounds harts k most (by simpa using many) fun sweep member =>
    fair sweep (List.mem_append_left _ member)
  have ends := rounds.sweep harts (by omega) (fair last (by simp))
  rw [List.flatten_append,List.flatten_singleton,Threads.exec_append,Threads.exec_append]
  have before := (round.stage i).returns_le.1
  have after := Nat.le_trans (ends.2 i) (BarrierHart.place_le _)
  omega

theorem partial_barrier_progresses_pair :
    (((barrierThreads (Fin 2) 2).exec (barrierBegin (Fin 2) (-1)) [(1,()),(1,())]).locals 0).returns + 2 ≤
    (((barrierThreads (Fin 2) 2).exec (barrierBegin (Fin 2) (-1))
      ([(1,()),(1,())] ++ (List.replicate 11 [(0,()),(1,())]).flatten)).locals 0).returns :=
  partial_barrier_progresses (by decide) (-1) _ 2 (by decide) (by decide) 0

end Snax
