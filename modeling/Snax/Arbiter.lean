import Snax.Sync.Machine
import Snax.Sync.Ring
import Mathlib.Data.Fin.Tuple.Basic

/-! `sparse_interconnect/RoundRobinArbiter.scala` and `PriorityRoundRobinArbiter.scala`:
one pointer, written in every cycle, and one lock serve the requesters of the highest
priority. -/
namespace Snax

variable {numInp : Nat}

/-- `PriorityEncoder`: the lowest index set, or the last one where none is. -/
def priorityEncoder (last : Fin numInp) (v : Fin numInp → Bool) : Fin numInp := (Fin.find? v).getD last

theorem priorityEncoder_spec (last : Fin numInp) {v : Fin numInp → Bool} (any : ∃ k, v k = true) :
    v (priorityEncoder last v) = true ∧ ∀ m, v m = true → priorityEncoder last v ≤ m := by
  obtain ⟨first,found⟩ := Option.isSome_iff_exists.mp (Fin.isSome_find?_iff.mpr any)
  obtain ⟨set,least⟩ := Fin.find?_eq_some_iff.mp found
  rw [priorityEncoder,found,Option.getD_some]
  refine ⟨set,fun m asks => ?_⟩
  by_contra below
  rw [least m (by omega)] at asks
  contradiction

namespace RoundRobinArbiter

structure State (numInp : Nat) where
  previous : Fin numInp
  lock : Bool

def last (positive : 0 < numInp) : Fin numInp := ⟨numInp - 1,Nat.sub_lt positive Nat.one_pos⟩

def initial (positive : 0 < numInp) : State numInp := ⟨last positive,false⟩

def anyValid (requests : Fin numInp → Bool) : Bool := decide (∃ k, requests k = true)

def nextRequests (s : State numInp) (requests : Fin numInp → Bool) (k : Fin numInp) : Bool :=
  if s.previous < k then requests k else false

def selectedRequest (s : State numInp) (requests : Fin numInp → Bool) : Fin numInp :=
  if s.lock && requests s.previous then s.previous
  else if anyValid (nextRequests s requests) then
    priorityEncoder (last s.previous.pos) (nextRequests s requests)
  else priorityEncoder (last s.previous.pos) requests

/-- The pointer follows the selection in every cycle, taken or not, valid or not. -/
def next (s : State numInp) (requests : Fin numInp → Bool) (ready : Bool) : State numInp where
  previous := selectedRequest s requests
  lock := anyValid requests && !ready

theorem anyValid_iff (requests : Fin numInp → Bool) :
    anyValid requests = true ↔ ∃ k, requests k = true := by simp [anyValid]

/-- The selection is a round-robin turn of the pointer. -/
theorem selectedRequest_turn (s : State numInp) {requests : Fin numInp → Bool}
    (any : ∃ k, requests k = true) :
    Sync.Ring.Turn requests s.previous s.lock (selectedRequest s requests) := by
  unfold selectedRequest
  by_cases stays : s.lock = true ∧ requests s.previous = true
  · rw [if_pos (by simp [stays])]
    exact ⟨stays.2,fun _ _ => rfl,fun moves => absurd stays moves⟩
  · rw [if_neg (by simpa using stays)]
    by_cases later : ∃ k, nextRequests s requests k = true
    · obtain ⟨set,least⟩ := priorityEncoder_spec (last s.previous.pos) later
      rw [if_pos ((anyValid_iff _).mpr later)]
      have beyond : s.previous < priorityEncoder (last s.previous.pos) (nextRequests s requests) := by
        by_contra no
        simp [nextRequests,no] at set
      have asked : requests (priorityEncoder (last s.previous.pos) (nextRequests s requests)) = true := by
        simpa [nextRequests,beyond] using set
      refine ⟨asked,fun locked asks => absurd ⟨locked,asks⟩ stays,fun _ m asks => ?_⟩
      by_cases high : s.previous < m
      · have below := least m (by simpa [nextRequests,high] using asks)
        simp only [Sync.Ring.ahead,beyond,high,↓reduceIte]
        omega
      · simp only [Sync.Ring.ahead,beyond,high,↓reduceIte]
        omega
    · obtain ⟨set,least⟩ := priorityEncoder_spec (last s.previous.pos) any
      rw [if_neg (by rwa [anyValid_iff])]
      refine ⟨set,fun locked asks => absurd ⟨locked,asks⟩ stays,fun _ m asks => ?_⟩
      have low (k : Fin numInp) (asks : requests k = true) : ¬ s.previous < k := by
        intro high
        exact later ⟨k,by simpa [nextRequests,high] using asks⟩
      have below := least m asks
      simp only [Sync.Ring.ahead,low m asks,low _ set,↓reduceIte]
      omega

end RoundRobinArbiter

structure PriorityRequest (priorityWidth : Nat) where
  valid : Bool
  priority : BitVec priorityWidth

namespace PriorityRoundRobinArbiter

open RoundRobinArbiter (State)

variable {priorityWidth : Nat}

abbrev Requests (numInp priorityWidth : Nat) := Fin numInp → PriorityRequest priorityWidth

structure Input (numInp priorityWidth : Nat) where
  requests : Requests numInp priorityWidth
  ready : Bool

structure Output (numInp : Nat) where
  valid : Bool
  bits : Fin numInp

def effectivePriorities (requests : Requests numInp priorityWidth) (k : Fin numInp) :
    BitVec priorityWidth :=
  if (requests k).valid then (requests k).priority else 0

def maxPriority (requests : Requests numInp priorityWidth) : BitVec priorityWidth :=
  (List.ofFn (effectivePriorities requests)).foldl (fun a b => if a > b then a else b) 0

/-- The requests of the highest priority, as the inner arbiter sees them. -/
def masked (requests : Requests numInp priorityWidth) (k : Fin numInp) : Bool :=
  (requests k).valid && (requests k).priority == maxPriority requests

def next (s : State numInp) (i : Input numInp priorityWidth) : State numInp :=
  RoundRobinArbiter.next s (masked i.requests) i.ready

def out (s : State numInp) (i : Input numInp priorityWidth) : Output numInp where
  valid := RoundRobinArbiter.anyValid (masked i.requests)
  bits := RoundRobinArbiter.selectedRequest s (masked i.requests)

end PriorityRoundRobinArbiter

def priorityRoundRobinArbiter (numInp priorityWidth : Nat) :
    Sync.Machine (RoundRobinArbiter.State numInp)
      (PriorityRoundRobinArbiter.Input numInp priorityWidth)
      (PriorityRoundRobinArbiter.Output numInp) where
  next := PriorityRoundRobinArbiter.next
  out := PriorityRoundRobinArbiter.out

namespace PriorityRoundRobinArbiter

open RoundRobinArbiter (State initial)

variable {priorityWidth : Nat}

/-- `k` requests, with the highest priority among the requesters. -/
def Maximal (i : Input numInp priorityWidth) (k : Fin numInp) : Prop :=
  (i.requests k).valid = true ∧
  ∀ m, (i.requests m).valid = true → (i.requests m).priority ≤ (i.requests k).priority

def Selects (s : State numInp) (i : Input numInp priorityWidth) (k : Fin numInp) : Prop :=
  (out s i).valid = true ∧ (out s i).bits = k

def Grants (s : State numInp) (i : Input numInp priorityWidth) (k : Fin numInp) : Prop :=
  Selects s i k ∧ i.ready = true

/-- `j` requests, at the priority of whoever is granted in this cycle. -/
def EqualToGranted (s : State numInp) (i : Input numInp priorityWidth) (j : Fin numInp) : Prop :=
  (i.requests j).valid = true ∧
  ∀ k, Grants s i k → (i.requests k).priority = (i.requests j).priority

/-- `j` requests, at the priority of whoever is selected in this cycle, granted or not. -/
def EqualToSelected (s : State numInp) (i : Input numInp priorityWidth) (j : Fin numInp) : Prop :=
  (i.requests j).valid = true ∧
  ∀ k, Selects s i k → (i.requests k).priority = (i.requests j).priority

/-- Over a run: a selection is there when a request is and has the highest priority; one
not taken stays while it keeps that priority; and nobody is granted twice around an equal,
in the given sense, that is not granted in between. -/
structure Contract (equal : State numInp → Input numInp priorityWidth → Fin numInp → Prop)
    (s : State numInp) (inputs : List (Input numInp priorityWidth)) : Prop where
  selects : (priorityRoundRobinArbiter numInp priorityWidth).Each (fun _ s i =>
    ((out s i).valid = true ↔ ∃ k, (i.requests k).valid = true) ∧
    ((out s i).valid = true → Maximal i (out s i).bits)) s inputs
  keeps : ∀ before first mid last after, inputs = before ++ first :: (mid ++ last :: after) →
    ∀ k, Selects ((priorityRoundRobinArbiter numInp priorityWidth).exec s before) first k →
      first.ready = false → (∀ i ∈ mid, i.ready = false) → (∀ i ∈ mid ++ [last], Maximal i k) →
      Selects ((priorityRoundRobinArbiter numInp priorityWidth).exec s (before ++ first :: mid)) last k
  fair : ∀ before first mid last after, inputs = before ++ first :: (mid ++ last :: after) →
    ∀ i j, i ≠ j →
      Grants ((priorityRoundRobinArbiter numInp priorityWidth).exec s before) first i →
      Grants ((priorityRoundRobinArbiter numInp priorityWidth).exec s (before ++ first :: mid)) last i →
      (priorityRoundRobinArbiter numInp priorityWidth).Each (fun _ s x => equal s x j)
        ((priorityRoundRobinArbiter numInp priorityWidth).exec s (before ++ [first])) (mid ++ [last]) →
      ∃ front x back, mid = front ++ x :: back ∧
        Grants ((priorityRoundRobinArbiter numInp priorityWidth).exec s (before ++ first :: front)) x j

theorem le_foldl_max (priorities : List (BitVec priorityWidth)) (a : BitVec priorityWidth) :
    a ≤ priorities.foldl (fun a b => if a > b then a else b) a ∧
    (∀ p ∈ priorities, p ≤ priorities.foldl (fun a b => if a > b then a else b) a) ∧
    (priorities.foldl (fun a b => if a > b then a else b) a = a ∨
      priorities.foldl (fun a b => if a > b then a else b) a ∈ priorities) := by
  induction priorities generalizing a with
  | nil => exact ⟨BitVec.le_refl a,fun p inside => absurd inside List.not_mem_nil,.inl rfl⟩
  | cons b priorities ih =>
    obtain ⟨start,all,attained⟩ := ih (if a > b then a else b)
    have larger : a ≤ (if a > b then a else b) ∧ b ≤ (if a > b then a else b) := by
      split
      · rename_i above
        exact ⟨BitVec.le_refl a,BitVec.le_of_lt above⟩
      · rename_i notAbove
        exact ⟨BitVec.not_lt.mp notAbove,BitVec.le_refl b⟩
    refine ⟨BitVec.le_trans larger.1 start,fun p inside => ?_,?_⟩
    · rcases List.mem_cons.mp inside with rfl | later
      · exact BitVec.le_trans larger.2 start
      · exact all p later
    · rw [List.foldl_cons]
      rcases attained with same | inside
      · rw [same]
        split
        · exact .inl rfl
        · exact .inr List.mem_cons_self
      · exact .inr (List.mem_cons_of_mem b inside)

theorem effectivePriorities_le (requests : Requests numInp priorityWidth) (k : Fin numInp) :
    effectivePriorities requests k ≤ maxPriority requests :=
  (le_foldl_max _ 0).2.1 _ (List.mem_ofFn.mpr ⟨k,rfl⟩)

theorem maxPriority_attained (requests : Requests numInp priorityWidth) {k : Fin numInp}
    (asks : (requests k).valid = true) : ∃ m, (requests m).valid = true ∧
      (requests m).priority = maxPriority requests := by
  have effective (m : Fin numInp) (valid : (requests m).valid = true) :
      effectivePriorities requests m = (requests m).priority := by simp [effectivePriorities,valid]
  have zero (m : Fin numInp) (below : maxPriority requests = 0) (valid : (requests m).valid = true) :
      (requests m).priority = maxPriority requests := by
    have least := effectivePriorities_le requests m
    rw [below,effective m valid] at least
    rw [below]
    exact BitVec.le_antisymm least (BitVec.not_lt.mp BitVec.not_lt_zero)
  rcases (le_foldl_max (List.ofFn (effectivePriorities requests)) 0).2.2 with none | inside
  · exact ⟨k,asks,zero k none asks⟩
  · obtain ⟨m,same⟩ := List.mem_ofFn.mp inside
    cases valid : (requests m).valid with
    | true => exact ⟨m,valid,(effective m valid).symm.trans same⟩
    | false =>
      have none : maxPriority requests = 0 := by
        rw [maxPriority,← same]
        simp [effectivePriorities,valid]
      exact ⟨k,asks,zero k none asks⟩

theorem masked_iff (i : Input numInp priorityWidth) (k : Fin numInp) :
    masked i.requests k = true ↔ Maximal i k := by
  have effective (m : Fin numInp) (valid : (i.requests m).valid = true) :
      (i.requests m).priority ≤ maxPriority i.requests := by
    have least := effectivePriorities_le i.requests m
    rwa [effectivePriorities,if_pos valid] at least
  simp only [masked,Bool.and_eq_true,beq_iff_eq,Maximal]
  constructor
  · rintro ⟨valid,highest⟩
    exact ⟨valid,fun m asks => highest ▸ effective m asks⟩
  · rintro ⟨valid,highest⟩
    obtain ⟨m,asks,attained⟩ := maxPriority_attained i.requests valid
    refine ⟨valid,BitVec.le_antisymm (effective k valid) ?_⟩
    rw [← attained]
    exact highest m asks

/-- The selection is there exactly when a request is. -/
theorem valid_iff (s : State numInp) (i : Input numInp priorityWidth) :
    (out s i).valid = true ↔ ∃ k, (i.requests k).valid = true := by
  simp only [out,RoundRobinArbiter.anyValid_iff]
  constructor
  · rintro ⟨k,asks⟩
    exact ⟨k,((masked_iff i k).mp asks).1⟩
  · rintro ⟨k,asks⟩
    obtain ⟨m,valid,attained⟩ := maxPriority_attained i.requests asks
    exact ⟨m,by simp [masked,valid,attained]⟩

theorem turn_of_valid {s : State numInp} {i : Input numInp priorityWidth}
    (valid : (out s i).valid = true) :
    Sync.Ring.Turn (masked i.requests) s.previous s.lock (out s i).bits := by
  apply RoundRobinArbiter.selectedRequest_turn
  rwa [← RoundRobinArbiter.anyValid_iff]

theorem maximal_of_valid {s : State numInp} {i : Input numInp priorityWidth}
    (valid : (out s i).valid = true) : Maximal i (out s i).bits :=
  (masked_iff i _).mp (turn_of_valid valid).requested

theorem next_of_valid {s : State numInp} {i : Input numInp priorityWidth}
    (valid : (out s i).valid = true) : next s i = ⟨(out s i).bits,!i.ready⟩ := by
  have any : RoundRobinArbiter.anyValid (masked i.requests) = true := valid
  simp [next,RoundRobinArbiter.next,any,out]

/-- A locked pointer that keeps the highest priority is selected. -/
theorem selects_locked {k : Fin numInp} {i : Input numInp priorityWidth} (asks : Maximal i k) :
    Selects ⟨k,true⟩ i k := by
  have valid : (out ⟨k,true⟩ i).valid = true := (valid_iff _ i).mpr ⟨k,asks.1⟩
  exact ⟨valid,(turn_of_valid valid).kept rfl ((masked_iff i k).mpr asks)⟩

theorem locked_run {k : Fin numInp} (mid : List (Input numInp priorityWidth))
    (blocked : ∀ i ∈ mid, i.ready = false) (asks : ∀ i ∈ mid, Maximal i k) :
    (priorityRoundRobinArbiter numInp priorityWidth).exec ⟨k,true⟩ mid = ⟨k,true⟩ := by
  induction mid with
  | nil => rfl
  | cons i mid ih =>
    obtain ⟨valid,same⟩ := selects_locked (asks i List.mem_cons_self)
    have stays : next ⟨k,true⟩ i = ⟨k,true⟩ := by
      rw [next_of_valid valid,same,blocked i List.mem_cons_self]
      rfl
    rw [Sync.Machine.exec_cons]
    change (priorityRoundRobinArbiter numInp priorityWidth).exec (next ⟨k,true⟩ i) mid = _
    rw [stays]
    exact ih (fun i inside => blocked i (List.mem_cons_of_mem _ inside))
      (fun i inside => asks i (List.mem_cons_of_mem _ inside))

/-- An equal of the selected requester has the highest priority itself. -/
theorem maximal_of_equal {s : State numInp} {i : Input numInp priorityWidth} {j : Fin numInp}
    (equal : EqualToSelected s i j) : (out s i).valid = true ∧ Maximal i j := by
  have valid := (valid_iff s i).mpr ⟨j,equal.1⟩
  refine ⟨valid,equal.1,fun m asks => ?_⟩
  rw [← equal.2 _ ⟨valid,rfl⟩]
  exact (maximal_of_valid valid).2 m asks

/-- While an equal waits for its turn, `i` gets none before it. -/
theorem waiting_run {i j : Fin numInp} {s : State numInp} {mid : List (Input numInp priorityWidth)}
    {last : Input numInp priorityWidth} (waiting : Sync.Ring.Waiting i j s.previous s.lock)
    (equal : (priorityRoundRobinArbiter numInp priorityWidth).Each
      (fun _ s x => EqualToSelected s x j) s (mid ++ [last]))
    (again : Selects ((priorityRoundRobinArbiter numInp priorityWidth).exec s mid) last i) :
    ∃ front x back, mid = front ++ x :: back ∧
      Grants ((priorityRoundRobinArbiter numInp priorityWidth).exec s front) x j := by
  induction mid generalizing s with
  | nil =>
    obtain ⟨valid,asks⟩ := maximal_of_equal (equal [] last [] rfl)
    exact absurd again.2 (waiting.next true (turn_of_valid valid)
      ((masked_iff last j).mpr asks)).1
  | cons x mid ih =>
    obtain ⟨valid,asks⟩ : (out s x).valid = true ∧ Maximal x j :=
      maximal_of_equal (equal [] x (mid ++ [last]) rfl)
    by_cases served : Grants s x j
    · exact ⟨[],x,mid,rfl,served⟩
    · have on := (waiting.next x.ready (turn_of_valid valid)
        ((masked_iff x j).mpr asks)).2 fun both => served ⟨⟨valid,both.1⟩,both.2⟩
      have later : Sync.Ring.Waiting i j (next s x).previous (next s x).lock := by
        rw [next_of_valid valid]
        exact on
      obtain ⟨front,y,back,rfl,granted⟩ := ih later (fun before y after split =>
        equal (x :: before) y after (by rw [List.cons_append,split]; rfl)) again
      exact ⟨x :: front,y,back,rfl,granted⟩

/-- The arbiter selects among the highest priority, keeps what it selected, and is fair
to whoever equals the selected requester in every cycle. -/
theorem arbitration (s : State numInp) (inputs : List (Input numInp priorityWidth)) :
    Contract EqualToSelected s inputs := by
  constructor
  · intro before i after _
    exact ⟨valid_iff _ i,maximal_of_valid⟩
  · intro before first mid last after _ k selected blocked rest asks
    have locked : next ((priorityRoundRobinArbiter numInp priorityWidth).exec s before) first =
        ⟨k,true⟩ := by
      rw [next_of_valid selected.1,selected.2,blocked]
      rfl
    rw [Sync.Machine.exec_append,Sync.Machine.exec_cons]
    change Selects ((priorityRoundRobinArbiter numInp priorityWidth).exec (next _ first) mid) last k
    rw [locked,locked_run mid rest fun i inside => asks i (List.mem_append_left _ inside)]
    exact selects_locked (asks last (by simp))
  · intro before first mid last after _ i j different granted again equal
    have gone : next ((priorityRoundRobinArbiter numInp priorityWidth).exec s before) first =
        ⟨i,false⟩ := by
      rw [next_of_valid granted.1.1,granted.1.2,granted.2]
      rfl
    have run (front : List (Input numInp priorityWidth)) :
        (priorityRoundRobinArbiter numInp priorityWidth).exec s (before ++ first :: front) =
          (priorityRoundRobinArbiter numInp priorityWidth).exec ⟨i,false⟩ front := by
      rw [Sync.Machine.exec_append,Sync.Machine.exec_cons,← gone]
      rfl
    rw [run [],Sync.Machine.exec_nil] at equal
    rw [run mid] at again
    obtain ⟨front,x,back,rfl,served⟩ := waiting_run (.start different) equal again.1
    exact ⟨front,x,back,rfl,by rwa [run]⟩

/-- Two requesters: both at priority 0, then the first alone raised and not taken, then
both at 0 again. -/
def blockedAbove : List (Input 2 1) :=
  [⟨fun _ => ⟨true,0⟩,true⟩,⟨fun k => ⟨true,if k = 0 then 1 else 0⟩,false⟩,⟨fun _ => ⟨true,0⟩,true⟩]

/-- The lock taken in the blocked cycle serves the first requester again. -/
theorem arbitration_blockedAbove :
    ¬ ∀ (numInp priorityWidth : Nat) (positive : 0 < numInp)
      (inputs : List (Input numInp priorityWidth)),
      Contract EqualToGranted (initial positive) inputs := by
  intro contract
  have fair := (contract 2 1 Nat.two_pos blockedAbove).fair [] _ [_] _ [] rfl 0 1 (by decide)
    ⟨⟨by decide,by decide⟩,rfl⟩ ⟨⟨by decide,by decide⟩,rfl⟩
  have equal : (priorityRoundRobinArbiter 2 1).Each (fun _ s x => EqualToGranted s x 1)
      ((priorityRoundRobinArbiter 2 1).exec (initial Nat.two_pos) [blockedAbove.head (by decide)])
      blockedAbove.tail :=
    .cons ⟨rfl,fun _ granted => by cases granted.2⟩ (.cons ⟨rfl,fun _ _ => rfl⟩ (.nil _))
  obtain ⟨front,x,back,split,served⟩ := fair equal
  obtain ⟨rfl,rfl,rfl⟩ : front = [] ∧ x = _ ∧ back = [] := by
    cases front with
    | nil => simpa [eq_comm] using split
    | cons y front => simp at split
  cases served.2

end PriorityRoundRobinArbiter
end Snax
