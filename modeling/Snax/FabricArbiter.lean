import Snax.Arbiter
import Snax.Fabric
import Mathlib.Order.Monotone.Basic

/-! The simulator's fabric against the arbiter it stands for: one bank of `Fabric` beside
`PriorityRoundRobinArbiter` on the same requests. Both serve the nearest of the highest
priority ahead of their pointer; a cycle without requests sends only the arbiter's pointer
back to the start. -/
namespace Snax.Fabric

open RoundRobinArbiter (State initial last)

variable {numInp priorityWidth : Nat}

/-- The requesters of the highest priority on a bank. -/
def Top (c : Cycle) (b : Fin NB) (t : Nat) : Prop :=
  ∃ p ∈ c.posts, place p = b ∧ p.tok = t ∧ ∀ q ∈ c.posts, place q = b → q.prio ≤ p.prio

def Idle (c : Cycle) (b : Fin NB) : Prop := ∀ p ∈ c.posts, place p ≠ b

/-- The requests of a bank as the inputs of its arbiter, with the bank ready. -/
def arbiterInput (priorityWidth : Nat) (token : Fin numInp → Nat) (b : Fin NB) (c : Cycle) :
    PriorityRoundRobinArbiter.Input numInp priorityWidth where
  requests := fun k =>
    match c.posts.find? fun p => place p == b && p.tok == token k with
    | some p => ⟨true,BitVec.ofInt priorityWidth p.prio⟩
    | none => ⟨false,0⟩
  ready := true

/-- A cycle in which no DMA beat is on the bank and every request there is of a numbered
requester, once, urgent or not. -/
structure OnBank (token : Fin numInp → Nat) (b : Fin NB) (c : Cycle) : Prop where
  room : c.posts.length ≤ 64
  free : c.dmaMask[b] = false
  numbered : ∀ p ∈ c.posts, place p = b → ∃ k, p.tok = token k
  once : ∀ p ∈ c.posts, ∀ q ∈ c.posts, place p = b → place q = b → p.tok = q.tok → p = q
  urgency : ∀ p ∈ c.posts, place p = b → p.prio = 0 ∨ p.prio = 1

/-- The highest-priority requesters stand on both sides of the pointer. -/
def Split (pointer : BitVec 8) (c : Cycle) (b : Fin NB) : Prop :=
  ∃ s t, Top c b s ∧ Top c b t ∧ s < pointer.toNat ∧ pointer.toNat ≤ t

section Run

variable (priorityWidth) (token : Fin numInp → Nat) (b : Fin NB) (positive : 0 < numInp)

/-- The arbiter beside the fabric, after the same cycles from reset. -/
def beside (cycles : List Cycle) : State numInp :=
  (priorityRoundRobinArbiter numInp priorityWidth).exec (initial positive)
    (cycles.map (arbiterInput priorityWidth token b))

/-- In the cycle after `front` both grant the same requester, or nobody. -/
def AgreesAt (front : List Cycle) (c : Cycle) : Prop :=
  ∀ k, Grants (fabric.exec reset front) c b (token k) ↔
    PriorityRoundRobinArbiter.Grants (beside priorityWidth token b positive front)
      (arbiterInput priorityWidth token b c) k

def Agrees (cycles : List Cycle) : Prop :=
  ∀ before c after, cycles = before ++ c :: after →
    AgreesAt priorityWidth token b positive before c

/-- The cycle before was without requests. -/
def IdleLast (front : List Cycle) : Prop := ∃ before z, front = before ++ [z] ∧ Idle z b

/-- Right after an idle cycle the pointer does not split the requesters. -/
def Steady (cycles : List Cycle) : Prop :=
  ∀ before c after, cycles = before ++ c :: after → IdleLast b before →
    ¬ Split ((fabric.exec reset before).pointer b) c b

end Run

/-- The fabric grants the nearest of the highest priority ahead of its pointer. -/
theorem grants_nearest {token : Fin numInp → Nat} {b : Fin NB} {c : Cycle}
    (small : ∀ k, token k < 256) (on : OnBank token b c) (f : Fabric) (t : Nat) :
    Grants f c b t ↔ Top c b t ∧ ∀ m, Top c b m → rank f.rr[b] t ≤ rank f.rr[b] m := by
  have nearest {r : Post × Nat} (chosen : (f.loaded c).best b = some r) :
      Top c b r.1.tok ∧ ∀ m, Top c b m → rank f.rr[b] r.1.tok ≤ rank f.rr[b] m := by
    obtain ⟨_,atIndex,here,notWorse⟩ := best_eq_some chosen
    simp only [loaded_of_room f on.room,List.getElem?_map,Option.map_eq_some_iff] at atIndex notWorse
    obtain ⟨p,posted,same⟩ := atIndex
    have member := List.mem_of_getElem? posted
    rw [← same] at here notWorse ⊢
    have order (q : Post) (asks : q ∈ c.posts) (bank : place q = b) := notWorse _
      (List.mem_map_of_mem asks) (congrArg Fin.val bank)
    have top : ∀ q ∈ c.posts, place q = b → q.prio ≤ p.prio := by
      intro q asks bank
      rcases order q asks bank with above | ⟨equal,_⟩
      · exact Int.le_of_lt above
      · exact Int.le_of_eq equal
    refine ⟨⟨p,member,Fin.ext here,rfl,top⟩,?_⟩
    rintro m ⟨q,asks,bank,rfl,highest⟩
    rcases order q asks bank with above | ⟨_,near⟩
    · exact absurd (highest p member (Fin.ext here)) (Int.not_le.mpr above)
    · exact near
  rw [grants_iff on.room]
  constructor
  · rintro ⟨r,chosen,rfl⟩
    exact nearest chosen
  · rintro ⟨⟨p,asks,bank,rfl,highest⟩,first⟩
    have asked : { p with bank := place p } ∈ (f.loaded c).requests := by
      rw [loaded_of_room f on.room]
      exact List.mem_map_of_mem asks
    obtain ⟨r,chosen⟩ := best_of_request (b := b)
      (by simpa [loaded_of_room f on.room] using on.free) asked (congrArg Fin.val bank)
      (by rcases on.urgency p asks bank with zero | one <;> simp only <;> omega)
    obtain ⟨⟨q,member,bank',same,top⟩,least⟩ := nearest chosen
    refine ⟨r,chosen,?_⟩
    obtain ⟨k,numbered⟩ := on.numbered p asks bank
    obtain ⟨k',numbered'⟩ := on.numbered q member bank'
    have equal := rank_inj (Nat.le_antisymm (least _ ⟨p,asks,bank,rfl,highest⟩)
      (first _ ⟨q,member,bank',same,top⟩))
    rw [← same,numbered,numbered'] at equal ⊢
    rwa [Nat.mod_eq_of_lt (small k'),Nat.mod_eq_of_lt (small k)] at equal

theorem find?_asks {token : Fin numInp → Nat} {b : Fin NB} {c : Cycle} (on : OnBank token b c)
    {p : Post} (asks : p ∈ c.posts) (bank : place p = b) :
    c.posts.find? (fun q => place q == b && q.tok == p.tok) = some p := by
  cases found : c.posts.find? (fun q => place q == b && q.tok == p.tok) with
  | none =>
    have := List.find?_eq_none.mp found p asks
    simp [bank] at this
  | some q =>
    have accepted := List.find?_some found
    simp only [Bool.and_eq_true,beq_iff_eq] at accepted
    rw [on.once q (List.mem_of_find?_eq_some found) p asks accepted.1 bank accepted.2]

theorem arbiterInput_valid {token : Fin numInp → Nat} {b : Fin NB} {c : Cycle} (k : Fin numInp) :
    ((arbiterInput priorityWidth token b c).requests k).valid = true ↔ Asks c b (token k) := by
  simp only [arbiterInput,Asks]
  cases found : c.posts.find? (fun p => place p == b && p.tok == token k) with
  | none =>
    refine iff_of_false Bool.false_ne_true ?_
    rintro ⟨p,asks,bank,same⟩
    have := List.find?_eq_none.mp found p asks
    simp [bank,same] at this
  | some p =>
    have accepted := List.find?_some found
    simp only [Bool.and_eq_true,beq_iff_eq] at accepted
    exact iff_of_true rfl ⟨p,List.mem_of_find?_eq_some found,accepted⟩

theorem urgency_le (wide : 0 < priorityWidth) {p q : Int} (first : p = 0 ∨ p = 1)
    (second : q = 0 ∨ q = 1) :
    BitVec.ofInt priorityWidth p ≤ BitVec.ofInt priorityWidth q ↔ p ≤ q := by
  have one : 1 < 2 ^ priorityWidth := Nat.one_lt_two_pow (by omega)
  rcases first with rfl | rfl <;> rcases second with rfl | rfl <;>
    simp [BitVec.le_def,Nat.mod_eq_of_lt one]

/-- The requesters the arbiter takes for maximal are those of the fabric. -/
theorem maximal_iff_top {token : Fin numInp → Nat} {b : Fin NB} {c : Cycle}
    (wide : 0 < priorityWidth) (on : OnBank token b c) (k : Fin numInp) :
    PriorityRoundRobinArbiter.Maximal (arbiterInput priorityWidth token b c) k ↔
      Top c b (token k) := by
  have priority {k : Fin numInp} {p : Post} (asks : p ∈ c.posts) (bank : place p = b)
      (same : p.tok = token k) :
      ((arbiterInput priorityWidth token b c).requests k).priority =
        BitVec.ofInt priorityWidth p.prio := by
    simp [arbiterInput,← same,find?_asks on asks bank]
  constructor
  · rintro ⟨valid,highest⟩
    obtain ⟨p,asks,bank,same⟩ := (arbiterInput_valid k).mp valid
    refine ⟨p,asks,bank,same,fun q others here => ?_⟩
    obtain ⟨m,numbered⟩ := on.numbered q others here
    have order := highest m ((arbiterInput_valid m).mpr ⟨q,others,here,numbered⟩)
    rw [priority asks bank same,priority others here numbered] at order
    exact (urgency_le wide (on.urgency q others here) (on.urgency p asks bank)).mp order
  · rintro ⟨p,asks,bank,same,highest⟩
    refine ⟨(arbiterInput_valid k).mpr ⟨p,asks,bank,same⟩,fun m valid => ?_⟩
    obtain ⟨q,others,here,numbered⟩ := (arbiterInput_valid m).mp valid
    rw [priority asks bank same,priority others here numbered]
    exact (urgency_le wide (on.urgency q others here) (on.urgency p asks bank)).mpr
      (highest q others here)

theorem ahead_inj {p k m : Fin numInp} (same : Sync.Ring.ahead p k = Sync.Ring.ahead p m) : k = m := by
  unfold Sync.Ring.ahead at same
  split at same <;> split at same <;> omega

/-- An unlocked arbiter grants the nearest of the highest priority ahead of its pointer. -/
theorem arbiter_grants_nearest {s : State numInp} (unlocked : s.lock = false)
    {i : PriorityRoundRobinArbiter.Input numInp priorityWidth} (ready : i.ready = true)
    (k : Fin numInp) :
    PriorityRoundRobinArbiter.Grants s i k ↔ PriorityRoundRobinArbiter.Maximal i k ∧
      ∀ m, PriorityRoundRobinArbiter.Maximal i m →
        Sync.Ring.ahead s.previous k ≤ Sync.Ring.ahead s.previous m := by
  have nearest (valid : (PriorityRoundRobinArbiter.out s i).valid = true) (m : Fin numInp)
      (asks : PriorityRoundRobinArbiter.Maximal i m) :
      Sync.Ring.ahead s.previous (PriorityRoundRobinArbiter.out s i).bits ≤
        Sync.Ring.ahead s.previous m :=
    (PriorityRoundRobinArbiter.turn_of_valid valid).nearest (by simp [unlocked]) m
      ((PriorityRoundRobinArbiter.masked_iff i m).mpr asks)
  constructor
  · rintro ⟨⟨valid,rfl⟩,_⟩
    exact ⟨PriorityRoundRobinArbiter.maximal_of_valid valid,nearest valid⟩
  · rintro ⟨maximal,first⟩
    have valid := (PriorityRoundRobinArbiter.valid_iff s i).mpr ⟨k,maximal.1⟩
    have same := Nat.le_antisymm (nearest valid k maximal)
      (first _ (PriorityRoundRobinArbiter.maximal_of_valid valid))
    exact ⟨⟨valid,ahead_inj same⟩,ready⟩

/-- The two pointers order the requesters in the same way. -/
def SameOrder (token : Fin numInp → Nat) (pointer : BitVec 8) (p : Fin numInp) : Prop :=
  ∀ k m, Sync.Ring.ahead p k ≤ Sync.Ring.ahead p m ↔ rank pointer (token k) ≤ rank pointer (token m)

theorem sameOrder_reset {token : Fin numInp → Nat} (increasing : StrictMono token)
    (small : ∀ k, token k < 256) (positive : 0 < numInp) :
    SameOrder token 0 (last positive) := by
  intro k m
  have order := increasing.le_iff_le (a := k) (b := m)
  have := small k
  have := small m
  have zero : (0 : BitVec 8).toNat = 0 := rfl
  simp only [Sync.Ring.ahead,last,rank,Fin.lt_def,zero]
  rw [Fin.le_def] at order
  split <;> split <;> omega

theorem sameOrder_behind {token : Fin numInp → Nat} (increasing : StrictMono token)
    (small : ∀ k, token k < 256) (w : Fin numInp) :
    SameOrder token (BitVec.ofNat 8 (token w + 1)) w := by
  intro k m
  have order := increasing.le_iff_le (a := k) (b := m)
  have first := increasing.lt_iff_lt (a := w) (b := k)
  have second := increasing.lt_iff_lt (a := w) (b := m)
  have := small k
  have := small m
  have := small w
  simp only [Sync.Ring.ahead,rank,BitVec.toNat_ofNat]
  split <;> split <;> omega

section Run

variable {token : Fin numInp → Nat} {b : Fin NB} {c : Cycle} {f : Fabric} {s : State numInp}

/-- Where the pointers order the top requesters alike, both grant the same one. -/
theorem agrees_of_order (wide : 0 < priorityWidth) (small : ∀ k, token k < 256)
    (on : OnBank token b c) (unlocked : s.lock = false)
    (order : ∀ k m, Top c b (token k) → Top c b (token m) →
      (Sync.Ring.ahead s.previous k ≤ Sync.Ring.ahead s.previous m ↔
        rank f.rr[b] (token k) ≤ rank f.rr[b] (token m))) (k : Fin numInp) :
    Grants f c b (token k) ↔
      PriorityRoundRobinArbiter.Grants s (arbiterInput priorityWidth token b c) k := by
  rw [grants_nearest small on f (token k),arbiter_grants_nearest unlocked rfl,maximal_iff_top wide on]
  refine and_congr_right fun top => ?_
  constructor
  · intro nearest m maximal
    have other := (maximal_iff_top wide on m).mp maximal
    exact (order k m top other).mpr (nearest _ other)
  · rintro nearest _ ⟨p,asks,bank,rfl,highest⟩
    obtain ⟨m,numbered⟩ := on.numbered p asks bank
    have other : Top c b (token m) := ⟨p,asks,bank,numbered,highest⟩
    rw [numbered]
    exact (order k m top other).mp (nearest m ((maximal_iff_top wide on m).mpr other))

variable (priorityWidth) in
/-- A requester on the bank makes the arbiter grant one. -/
theorem arbiter_grants_of_asks {p : Post} (on : OnBank token b c) (asks : p ∈ c.posts)
    (bank : place p = b) (s : State numInp) : PriorityRoundRobinArbiter.Grants s
      (arbiterInput priorityWidth token b c)
      (PriorityRoundRobinArbiter.out s (arbiterInput priorityWidth token b c)).bits := by
  obtain ⟨k,numbered⟩ := on.numbered p asks bank
  have valid := (PriorityRoundRobinArbiter.valid_iff s (arbiterInput priorityWidth token b c)).mpr
    ⟨k,(arbiterInput_valid k).mpr ⟨p,asks,bank,numbered⟩⟩
  exact ⟨⟨valid,rfl⟩,rfl⟩

/-- From the start of the ring the arbiter grants the lowest token, the fabric the first
from its pointer: the same unless the pointer stands between them. -/
theorem agrees_last_iff (wide : 0 < priorityWidth) (increasing : StrictMono token)
    (small : ∀ k, token k < 256) (positive : 0 < numInp) (on : OnBank token b c)
    (unlocked : s.lock = false) (atLast : s.previous = last positive) :
    (∀ k, Grants f c b (token k) ↔
      PriorityRoundRobinArbiter.Grants s (arbiterInput priorityWidth token b c) k) ↔
    ¬ Split f.rr[b] c b := by
  have lowest (k m : Fin numInp) :
      Sync.Ring.ahead s.previous k ≤ Sync.Ring.ahead s.previous m ↔ token k ≤ token m := by
    rw [increasing.le_iff_le,atLast,Fin.le_def]
    simp only [Sync.Ring.ahead,last,Fin.lt_def]
    split <;> split <;> omega
  have := f.rr[b].isLt
  constructor
  · rintro agree ⟨low,high,lowTop,highTop,below,above⟩
    obtain ⟨p,asks,bank,rfl,highest⟩ := lowTop
    have granted := arbiter_grants_of_asks priorityWidth on asks bank s
    obtain ⟨_,nearest⟩ := (grants_nearest small on f _).mp ((agree _).mpr granted)
    obtain ⟨k,numbered⟩ := on.numbered p asks bank
    have first := ((arbiter_grants_nearest unlocked rfl _).mp granted).2 k
      ((maximal_iff_top wide on k).mpr ⟨p,asks,bank,numbered,highest⟩)
    rw [lowest,← numbered] at first
    have near := nearest high highTop
    have top := small k
    obtain ⟨q,others,here,rfl,_⟩ := highTop
    obtain ⟨m,numbered'⟩ := on.numbered q others here
    have := small m
    simp only [rank] at near
    omega
  · intro unsplit
    refine agrees_of_order wide small on unlocked fun k m top other => ?_
    have oneSide : ¬ (token k < f.rr[b].toNat ∧ f.rr[b].toNat ≤ token m) :=
      fun both => unsplit ⟨_,_,top,other,both⟩
    have otherSide : ¬ (token m < f.rr[b].toNat ∧ f.rr[b].toNat ≤ token k) :=
      fun both => unsplit ⟨_,_,other,top,both⟩
    have := small k
    have := small m
    rw [lowest]
    simp only [rank]
    omega

variable (priorityWidth) (token) (b) (positive : 0 < numInp)

/-- After cycles in which both agree: the arbiter is unlocked, its pointer is at the start
of the ring after an idle cycle and orders the requesters as the fabric's does otherwise. -/
structure Related (front : List Cycle) : Prop where
  unlocked : (beside priorityWidth token b positive front).lock = false
  restart : IdleLast b front → (beside priorityWidth token b positive front).previous = last positive
  order : ¬ IdleLast b front → SameOrder token (fabric.exec reset front).rr[b]
    (beside priorityWidth token b positive front).previous

variable {priorityWidth token b positive}

theorem related_nil (increasing : StrictMono token) (small : ∀ k, token k < 256) :
    Related priorityWidth token b positive [] := by
  refine ⟨rfl,fun _ => rfl,fun _ => ?_⟩
  have zero : (fabric.exec reset []).rr[b] = 0 := by simp [reset]
  rw [zero]
  exact sameOrder_reset increasing small positive

theorem idleLast_append (front : List Cycle) : IdleLast b (front ++ [c]) ↔ Idle c b := by
  constructor
  · rintro ⟨before,z,same,idle⟩
    obtain ⟨_,single⟩ := List.append_inj' same rfl
    obtain rfl : c = z := by simpa using single
    exact idle
  · exact fun idle => ⟨front,c,rfl,idle⟩

theorem agreesAt_iff (wide : 0 < priorityWidth) (increasing : StrictMono token)
    (small : ∀ k, token k < 256) {front : List Cycle} (on : OnBank token b c)
    (related : Related priorityWidth token b positive front) :
    AgreesAt priorityWidth token b positive front c ↔
      (IdleLast b front → ¬ Split (fabric.exec reset front).rr[b] c b) := by
  by_cases idle : IdleLast b front
  · rw [AgreesAt,agrees_last_iff wide increasing small positive on related.unlocked
      (related.restart idle)]
    exact ⟨fun unsplit _ => unsplit,fun unsplit => unsplit idle⟩
  · exact iff_of_true (agrees_of_order wide small on related.unlocked fun k m _ _ =>
      related.order idle k m) fun last => absurd last idle

/-- Without a request the arbiter selects its last input. -/
theorem selectedRequest_idle {requests : Fin numInp → Bool} (silent : ∀ k, requests k = false)
    (s : State numInp) : RoundRobinArbiter.selectedRequest s requests = last positive := by
  have nobody : Fin.find? requests = none := Fin.find?_eq_none_iff.mpr (by simpa using silent)
  have later : ¬ RoundRobinArbiter.anyValid (RoundRobinArbiter.nextRequests s requests) = true := by
    simp [RoundRobinArbiter.anyValid,RoundRobinArbiter.nextRequests,silent]
  rw [RoundRobinArbiter.selectedRequest,if_neg (by simp [silent]),if_neg later,priorityEncoder,nobody]
  rfl

theorem related_next (small : ∀ k, token k < 256) (increasing : StrictMono token)
    {front : List Cycle} (on : OnBank token b c)
    (agrees : AgreesAt priorityWidth token b positive front c) :
    Related priorityWidth token b positive (front ++ [c]) := by
  have besideNext : beside priorityWidth token b positive (front ++ [c]) =
      PriorityRoundRobinArbiter.next (beside priorityWidth token b positive front)
        (arbiterInput priorityWidth token b c) := by
    simp only [beside,List.map_append,Sync.Machine.exec_append]
    rfl
  refine ⟨by simp [besideNext,PriorityRoundRobinArbiter.next,RoundRobinArbiter.next,arbiterInput],
    fun idle => ?_,fun busy => ?_⟩
  · rw [besideNext]
    refine selectedRequest_idle (fun k => ?_) _
    rw [idleLast_append] at idle
    have silent : ((arbiterInput priorityWidth token b c).requests k).valid = false := by
      rw [← Bool.not_eq_true,arbiterInput_valid]
      rintro ⟨p,asks,bank,_⟩
      exact idle p asks bank
    simp [PriorityRoundRobinArbiter.masked,silent]
  · rw [idleLast_append] at busy
    simp only [Idle,not_forall,not_not] at busy
    obtain ⟨p,asks,bank⟩ := busy
    have granted := arbiter_grants_of_asks priorityWidth on asks bank
      (beside priorityWidth token b positive front)
    obtain ⟨r,chosen,served⟩ := (grants_iff on.room).mp ((agrees _).mpr granted)
    rw [besideNext,PriorityRoundRobinArbiter.next_of_valid granted.1.1,Sync.Machine.exec_append]
    change SameOrder token (fabric.next _ c).rr[b] _
    rw [next_rr,chosen]
    simp only [served]
    exact sameOrder_behind increasing small _

end Run

theorem forall_split_append {p : List Cycle → Cycle → Prop} {front : List Cycle} {c : Cycle} :
    (∀ before x after, front ++ [c] = before ++ x :: after → p before x) ↔
      (∀ before x after, front = before ++ x :: after → p before x) ∧ p front c := by
  constructor
  · exact fun all => ⟨fun before x after split => all before x (after ++ [c]) (by simp [split]),
      all front c [] rfl⟩
  · rintro ⟨all,whole⟩ before x after split
    rcases List.eq_nil_or_concat after with rfl | ⟨after,z,rfl⟩
    · obtain ⟨rfl,single⟩ := List.append_inj' split rfl
      obtain rfl : c = x := by simpa using single
      exact whole
    · rw [List.concat_eq_append,← List.cons_append,← List.append_assoc] at split
      exact all before x after (List.append_inj' split rfl).1

/-- One bank of the fabric grants as its arbiter does over a whole run exactly when no
pointer that an idle cycle left standing splits the next requesters. -/
theorem agrees_iff_steady (wide : 0 < priorityWidth) (token : Fin numInp → Nat)
    (increasing : StrictMono token) (small : ∀ k, token k < 256) (positive : 0 < numInp)
    (b : Fin NB) (cycles : List Cycle) (on : ∀ c ∈ cycles, OnBank token b c) :
    Agrees priorityWidth token b positive cycles ↔ Steady b cycles := by
  suffices both : (Agrees priorityWidth token b positive cycles ↔ Steady b cycles) ∧
      (Agrees priorityWidth token b positive cycles →
        Related priorityWidth token b positive cycles) from both.1
  induction cycles using List.reverseRecOn with
  | nil =>
    exact ⟨iff_of_true (by intro before c after split; simp at split)
      (by intro before c after split; simp at split),fun _ => related_nil increasing small⟩
  | append_singleton front c ih =>
    obtain ⟨same,related⟩ := ih fun c member => on c (List.mem_append_left _ member)
    have onLast := on c (by simp)
    rw [Agrees,Steady,forall_split_append,forall_split_append]
    refine ⟨?_,fun agrees => related_next small increasing onLast agrees.2⟩
    constructor
    · exact fun ⟨agrees,now⟩ => ⟨same.mp agrees,
        (agreesAt_iff wide increasing small onLast (related agrees)).mp now⟩
    · exact fun ⟨steady,now⟩ => ⟨same.mpr steady,
        (agreesAt_iff wide increasing small onLast (related (same.mpr steady))).mpr now⟩

/-- One lane after the other asks for bank 0, at priority 0. -/
def lanes (toks : List Nat) : Cycle := ⟨0,toks.map fun t => ⟨0,t,0⟩⟩

theorem lanes_onBank {toks : List Nat} (few : toks.length ≤ 3) (low : ∀ t ∈ toks, t < 3) :
    OnBank (fun k : Fin 3 => k.val) 0 (lanes toks) := by
  refine ⟨by simp [lanes]; omega,by simp [lanes],fun p asks _ => ?_,fun p asks q others _ _ same => ?_,
    fun p asks _ => ?_⟩ <;> simp only [lanes,List.mem_map] at asks
  · obtain ⟨t,member,rfl⟩ := asks
    exact ⟨⟨t,low t member⟩,rfl⟩
  · simp only [lanes,List.mem_map] at others
    obtain ⟨t,_,rfl⟩ := asks
    obtain ⟨t',_,rfl⟩ := others
    simpa using same
  · obtain ⟨t,_,rfl⟩ := asks
    exact .inl rfl

/-- A lone requester after an idle cycle is granted by both. -/
theorem agrees_iff_steady_lone :
    Agrees 1 (fun k : Fin 3 => k.val) 0 (by decide) [lanes [1],lanes [],lanes [0]] := by
  refine (agrees_iff_steady (by decide) _ (fun _ _ below => below) (fun k => by omega) _ 0 _ ?_).mpr ?_
  · intro c member
    simp only [List.mem_cons,List.not_mem_nil,or_false] at member
    rcases member with rfl | rfl | rfl <;> exact lanes_onBank (by decide) (by decide)
  · rintro before c after split _ ⟨s,t,⟨p,asks,_,rfl,_⟩,⟨q,others,_,rfl,_⟩,below,above⟩
    have member : c ∈ [lanes [1],lanes [],lanes [0]] := by rw [split]; simp
    have alone : p.tok = q.tok := by
      simp only [List.mem_cons,List.not_mem_nil,or_false] at member
      rcases member with rfl | rfl | rfl <;>
        simp only [lanes,List.map_cons,List.map_nil,List.mem_singleton,List.not_mem_nil]
          at asks others <;> rw [asks,others]
    omega

/-- Lane 1, an idle cycle, then lanes 0 and 2: the arbiter starts again from lane 0, the
fabric goes on to lane 2. -/
theorem agrees_idle :
    ¬ ∀ (numInp priorityWidth : Nat) (_ : 0 < priorityWidth) (token : Fin numInp → Nat)
      (_ : StrictMono token) (_ : ∀ k, token k < 256) (positive : 0 < numInp) (b : Fin NB)
      (cycles : List Cycle) (_ : ∀ c ∈ cycles, OnBank token b c),
      Agrees priorityWidth token b positive cycles := by
  intro agrees
  have both := agrees 3 1 (by decide) (fun k => k.val) (fun _ _ below => below) (fun k => by omega)
    (by decide) 0 [lanes [1],lanes [],lanes [0,2]] (by
      intro c member
      simp only [List.mem_cons,List.not_mem_nil,or_false] at member
      rcases member with rfl | rfl | rfl <;> exact lanes_onBank (by decide) (by decide))
    [lanes [1],lanes []] _ [] rfl 2
  have granted := both.mp ⟨1,⟨0,2,0⟩,⟨rfl,by decide +kernel⟩,rfl,rfl⟩
  exact absurd granted.1.2 (by decide +kernel)

end Snax.Fabric
