import Snax.PsumRing

/-! `sw/apps/is-osgemm-tiled-async/src/main.c`, `sw/apps/P2-async-OS-no-IS/src/main.c`: one loop for two
rings, each with its own cursor and its own gauge. Core 0 polls both gauges and publishes in two flags
which rings have a slot to refill, the DM core refills these. -/
namespace Snax

open Sync (Cores)

/-- The ring of the osCore and the other one, of the psums or of BC. -/
inductive Ring where
  | os
  | is
deriving DecidableEq

/-- The constants of a loop. Psums are spilled before the slot is reloaded. -/
structure PacedParams where
  nbSlots : Nat
  nbLTiles : Nat
  visits : Ring → Nat
  step : Ring → Nat
  spills : Ring → Bool
  r10StartCnt : Option Nat

namespace PacedParams

/-- The loop of `test_is_osgemm_tiled_async`. -/
def isOsgemm (nbSlots nbLTiles osStep isStep : Nat) : PacedParams where
  nbSlots := nbSlots
  nbLTiles := nbLTiles
  visits := fun _ => nbLTiles
  step := fun
    | .os => osStep
    | .is => isStep
  spills := fun
    | .os => false
    | .is => true
  r10StartCnt := none

/-- `refill_loop` of the P2 kernel, where the second ring is the one of BC. -/
def p2Async (nbSlots nbLTiles kI bcVisits osStep bcStep : Nat) (r10StartCnt : Option Nat) : PacedParams where
  nbSlots := nbSlots
  nbLTiles := nbLTiles
  visits := fun
    | .os => kI * nbLTiles
    | .is => bcVisits
  step := fun
    | .os => osStep
    | .is => bcStep
  spills := fun _ => false
  r10StartCnt := r10StartCnt

/-- What the DM core issues for visit `r`. -/
def transfers (p : PacedParams) (ring : Ring) (r : Nat) : List Transfer :=
  (if p.spills ring then [.spill (r % p.nbSlots) r] else []) ++
    [.reload (r % p.nbSlots) ((r + p.nbSlots) % p.nbLTiles)]

end PacedParams

/-- The gauges, `do_os` and `do_is`, the transfers that the loop has issued, and how many are done. -/
structure Paced where
  gauge : Ring → Nat
  flag : Ring → Bool
  dma : List (Ring × Transfer)
  done : Nat
  r10Start : Bool

namespace Paced

variable (k : Paced)

def dmaStart (ring : Ring) (ts : List Transfer) : Paced := { k with dma := k.dma ++ ts.map (ring,·) }

def publish (ring : Ring) (ready : Bool) : Paced := { k with flag := Function.update k.flag ring ready }

/-- The transfers of one of the rings. -/
def issued (ring : Ring) : List Transfer := (k.dma.filter (·.1 = ring)).map Prod.snd

/-- What happens beside the cores. -/
inductive Beside : Paced → Prop
  | count (ring : Ring) {g : Nat} (grows : k.gauge ring ≤ g) :
      Beside { k with gauge := Function.update k.gauge ring g }
  | transfer (pending : k.done < k.dma.length) : Beside { k with done := k.done + 1 }

end Paced

/-! ### The cores -/

/-- Where core 0 is in the loop or behind it; it keeps what it has read of the gauges. -/
inductive PickPc where
  | head
  | readOs
  | readIs (os : Bool)
  | release (os is : Bool)
  | decide (os is : Bool)
  | publishOs (os is : Bool)
  | publishIs (is : Bool)
  | published
  | countOs
  | countIs
  | counted
  | drained
  | fallback
  | left
deriving DecidableEq

inductive ServePc where
  | head
  | published
  | refillOs
  | refillIs
  | countOs
  | countIs
  | counted
  | waitAll
  | drained
  | left
deriving DecidableEq

/-- The cursors of a core, the iterations it has begun and the barriers it has passed. -/
structure PickCore where
  pc : PickPc
  r : Ring → Nat
  iterations : Nat
  barriers : Nat
  r10Released : Bool

structure ServeCore where
  pc : ServePc
  r : Ring → Nat
  iterations : Nat
  barriers : Nat

namespace PacedParams

variable (p : PacedParams)

/-- The condition of the loop. -/
def More (r : Ring → Nat) : Prop := r .os < p.visits .os ∨ r .is < p.visits .is

instance (r : Ring → Nat) : Decidable (p.More r) := inferInstanceAs (Decidable (_ ∨ _))

def ready (ring : Ring) (r : Ring → Nat) (k : Paced) : Bool :=
  decide (r ring < p.visits ring ∧ (r ring + 1) * p.step ring ≤ k.gauge ring)

/-- `if (do_os) r_os++`. -/
def advance (ring : Ring) (r : Ring → Nat) (k : Paced) : Ring → Nat :=
  if k.flag ring then Function.update r ring (r ring + 1) else r

/-- `if (do_os)` with its transfers. -/
def serve (ring : Ring) (r : Ring → Nat) (k : Paced) : Paced :=
  if k.flag ring then k.dmaStart ring (p.transfers ring (r ring)) else k

def pickStep (c : PickCore) (k : Paced) : Option (PickCore × Paced) :=
  match c.pc with
  | .head =>
    if p.More c.r then some ({ c with pc := .readOs, iterations := c.iterations + 1 },k)
    else some ({ c with pc := .drained },k)
  | .readOs => some ({ c with pc := .readIs (p.ready .os c.r k) },k)
  | .readIs os => some ({ c with pc := .release os (p.ready .is c.r k) },k)
  | .release os is => match p.r10StartCnt with
    | some cnt =>
      if !c.r10Released && decide (cnt ≤ k.gauge .os) then
        some ({ c with pc := .decide os is, r10Released := true },{ k with r10Start := true })
      else some ({ c with pc := .decide os is },k)
    | none => some ({ c with pc := .decide os is },k)
  | .decide os is => some ({ c with pc := if !os && !is then .readOs else .publishOs os is },k)
  | .publishOs os is => some ({ c with pc := .publishIs is },k.publish .os os)
  | .publishIs is => some ({ c with pc := .published },k.publish .is is)
  | .countOs => some ({ c with pc := .countIs, r := advance .os c.r k },k)
  | .countIs => some ({ c with pc := .counted, r := advance .is c.r k },k)
  | .fallback => match p.r10StartCnt with
    | some cnt =>
      if c.r10Released then some ({ c with pc := .left },k)
      else if k.gauge .os < cnt then some (c,k)
      else some ({ c with pc := .left },{ k with r10Start := true })
    | none => some ({ c with pc := .left },k)
  | .published | .counted | .drained | .left => none

def serveStep (c : ServeCore) (k : Paced) : Option (ServeCore × Paced) :=
  match c.pc with
  | .head =>
    if p.More c.r then some ({ c with pc := .published, iterations := c.iterations + 1 },k)
    else some ({ c with pc := .waitAll },k)
  | .refillOs => some ({ c with pc := .refillIs },p.serve .os c.r k)
  | .refillIs => some ({ c with pc := .countOs },p.serve .is c.r k)
  | .countOs => some ({ c with pc := .countIs, r := advance .os c.r k },k)
  | .countIs => some ({ c with pc := .counted, r := advance .is c.r k },k)
  | .waitAll => if k.done < k.dma.length then none else some ({ c with pc := .drained },k)
  | .published | .counted | .drained | .left => none

/-- `snrt_cluster_hw_barrier`, which does not know at which of its calls a core waits. -/
def pickMeets (c : PickCore) : Option PickCore :=
  match c.pc with
  | .published => some { c with pc := .countOs, barriers := c.barriers + 1 }
  | .counted => some { c with pc := .head, barriers := c.barriers + 1 }
  | .drained => some { c with pc := .fallback, barriers := c.barriers + 1 }
  | _ => none

def serveMeets (c : ServeCore) : Option ServeCore :=
  match c.pc with
  | .published => some { c with pc := .refillOs, barriers := c.barriers + 1 }
  | .counted => some { c with pc := .head, barriers := c.barriers + 1 }
  | .drained => some { c with pc := .left, barriers := c.barriers + 1 }
  | _ => none

def cores : Cores PickCore ServeCore Paced where
  first := p.pickStep
  second := p.serveStep
  firstMeets := pickMeets
  secondMeets := serveMeets
  beside := Paced.Beside

/-- In front of the loop. -/
def entered (gauge : Ring → Nat) (flag : Ring → Bool) : Cores.Config PickCore ServeCore Paced where
  first := ⟨.head,fun _ => 0,0,0,false⟩
  second := ⟨.head,fun _ => 0,0,0⟩
  shared := ⟨gauge,flag,[],0,false⟩

end PacedParams

/-! ### The invariant -/

/-- Up to the first barrier of an iteration or of what follows the loop, between the two barriers, behind. -/
inductive PacePhase where
  | pick
  | act
  | behind
deriving DecidableEq

def PickPc.phase : PickPc → PacePhase
  | .countOs | .countIs | .counted => .act
  | .fallback | .left => .behind
  | _ => .pick

def ServePc.phase : ServePc → PacePhase
  | .refillOs | .refillIs | .countOs | .countIs | .counted => .act
  | .left => .behind
  | _ => .pick

/-- A core knows that the loop goes on, or that it does not. -/
def PickPc.Body : PickPc → Prop
  | .readOs | .readIs _ | .release _ _ | .decide _ _ | .publishOs _ _ | .publishIs _ | .published => True
  | _ => False

def PickPc.Behind : PickPc → Prop
  | .drained | .fallback | .left => True
  | _ => False

def ServePc.Body : ServePc → Prop
  | .published => True
  | _ => False

def ServePc.Behind : ServePc → Prop
  | .waitAll | .drained | .left => True
  | _ => False

/-- The rings that are served in this iteration and not counted yet, as far as core 0 knows. -/
def PickPc.chosen (flag : Ring → Bool) : PickPc → Ring → Bool
  | .readIs os,.os => os
  | .release os _,.os | .decide os _,.os | .publishOs os _,.os => os
  | .release _ is,.is | .decide _ is,.is | .publishOs _ is,.is | .publishIs is,.is => is
  | .publishIs _,.os => flag .os
  | .published,ring | .countOs,ring => flag ring
  | .countIs,.is => flag .is
  | _,_ => false

/-- The increments that are still to come between the two barriers. -/
def PickPc.due (flag : Ring → Bool) : PickPc → Ring → Bool
  | .countOs,ring => flag ring
  | .countIs,.is => flag .is
  | _,_ => false

def ServePc.due (flag : Ring → Bool) : ServePc → Ring → Bool
  | .refillOs,ring | .refillIs,ring | .countOs,ring => flag ring
  | .countIs,.is => flag .is
  | _,_ => false

/-- What is issued but not counted. -/
def ServePc.served (flag : Ring → Bool) : ServePc → Ring → Bool
  | .refillIs,.os => flag .os
  | .countOs,ring => flag ring
  | .countIs,.is => flag .is
  | _,_ => false

/-- The barriers that are still to come, counted from the start of the iteration. -/
def PickPc.ahead : PickPc → Nat
  | .head | .drained => 1
  | .fallback | .left => 0
  | .countOs | .countIs | .counted => 2
  | _ => 3

def ServePc.ahead : ServePc → Nat
  | .head | .waitAll | .drained => 1
  | .left => 0
  | .published => 3
  | _ => 2

/-- The steps until the end of an iteration, at most. -/
@[simp] def PickPc.rest : PickPc → Nat
  | .head => 11
  | .readOs => 10
  | .readIs _ => 9
  | .release _ _ => 8
  | .decide _ _ => 7
  | .publishOs _ _ => 6
  | .publishIs _ => 5
  | .published => 4
  | .countOs => 3
  | .countIs => 2
  | .counted => 1
  | _ => 0

@[simp] def ServePc.rest : ServePc → Nat
  | .head => 7
  | .published => 6
  | .refillOs => 5
  | .refillIs => 4
  | .countOs => 3
  | .countIs => 2
  | .counted => 1
  | _ => 0

/-- A ring is not served in what is left of this iteration. -/
@[simp] def PickPc.passes (flag : Ring → Bool) : PickPc → Ring → Bool
  | .readIs os,.os => !os
  | .release os _,.os | .decide os _,.os | .publishOs os _,.os => !os
  | .release _ is,.is | .decide _ is,.is | .publishOs _ is,.is | .publishIs is,.is => !is
  | .publishIs _,.os => !flag .os
  | .published,ring => !flag ring
  | _,_ => false

@[simp] def ServePc.passes (flag : Ring → Bool) : ServePc → Ring → Bool
  | .refillOs,ring => !flag ring
  | .refillIs,.is => !flag .is
  | .refillIs,.os | .countOs,_ | .countIs,_ | .counted,_ => true
  | _,_ => false

/-- The steps of a core until a ring is served, at most; an iteration that passes it over costs more than
the steps of the next one. -/
@[simp] def PickPc.cost (flag : Ring → Bool) (pc : PickPc) (ring : Ring) : Nat :=
  pc.rest + if pc.passes flag ring then 20 else 0

@[simp] def ServePc.cost (flag : Ring → Bool) (pc : ServePc) (ring : Ring) : Nat :=
  pc.rest + if pc.passes flag ring then 20 else 0

/-- The steps until the cores are behind the loop, when every visit has been served. -/
def PickPc.exit : PickPc → Nat
  | .countOs => 6
  | .countIs => 5
  | .counted => 4
  | .head => 2
  | _ => 1

def ServePc.exit : ServePc → Nat
  | .refillOs => 8
  | .refillIs => 7
  | .countOs => 6
  | .countIs => 5
  | .counted => 4
  | .head => 3
  | .waitAll => 2
  | _ => 1

namespace PacedParams

variable (p : PacedParams)

/-- The number of visits of a ring that the DM core has served. -/
def served (c : ServeCore) (k : Paced) (ring : Ring) : Nat := c.r ring + (c.pc.served k.flag ring).toNat

structure Agree (c0 : PickCore) (c1 : ServeCore) (k : Paced) : Prop where
  phase : c1.pc.phase = c0.pc.phase
  cursors : ∀ ring, c0.r ring + (c0.pc.due k.flag ring).toNat = c1.r ring + (c1.pc.due k.flag ring).toNat
  bound : ∀ ring, c0.r ring ≤ p.visits ring ∧ c0.r ring * p.step ring ≤ k.gauge ring
  chosen : ∀ ring, c0.pc.chosen k.flag ring = true →
    c0.r ring < p.visits ring ∧ (c0.r ring + 1) * p.step ring ≤ k.gauge ring
  issued : ∀ ring, k.issued ring = (List.range (served c1 k ring)).flatMap (p.transfers ring)
  body0 : c0.pc.Body → p.More c0.r
  behind0 : c0.pc.Behind → ¬p.More c0.r
  body1 : c1.pc.Body → p.More c1.r
  behind1 : c1.pc.Behind → ¬p.More c1.r
  barriers : c0.barriers = c1.barriers
  count0 : c0.barriers + c0.pc.ahead = 2 * c0.iterations + 1
  count1 : c1.barriers + c1.pc.ahead = 2 * c1.iterations + 1

variable {p} {c0 c0' : PickCore} {c1 c1' : ServeCore} {k k' : Paced}

theorem ready_iff {ring : Ring} {r : Ring → Nat} : p.ready ring r k = true ↔
    r ring < p.visits ring ∧ (r ring + 1) * p.step ring ≤ k.gauge ring := by
  rw [ready,decide_eq_true_eq]

theorem agree_entered (gauge : Ring → Nat) (flag : Ring → Bool) :
    Agree p (entered gauge flag).first (entered gauge flag).second (entered gauge flag).shared where
  phase := rfl
  cursors := fun _ => rfl
  bound := fun _ => ⟨Nat.zero_le _,(Nat.zero_mul _).le.trans (Nat.zero_le _)⟩
  chosen := fun _ => Bool.noConfusion
  issued := fun _ => rfl
  body0 := False.elim
  behind0 := False.elim
  body1 := False.elim
  behind1 := False.elim
  barriers := rfl
  count0 := rfl
  count1 := rfl

theorem body_spec {pc : PickPc} (body : pc.Body) :
    pc.phase = .pick ∧ pc.ahead = 3 ∧ ¬pc.Behind ∧ ∀ flag ring, pc.due flag ring = false := by
  cases pc <;> first | exact body.elim | exact ⟨rfl,rfl,id,fun _ _ => rfl⟩

theorem pick_spec {pc : ServePc} (pick : pc.phase = .pick) (flag : Ring → Bool) (ring : Ring) :
    pc.due flag ring = false ∧ pc.served flag ring = false := by
  cases pc <;> first | exact ⟨rfl,rfl⟩ | cases pick

/-- The steps with which core 0 chooses the rings of an iteration. -/
theorem Agree.choose (agree : Agree p c0 c1 k) {pc : PickPc} {released start : Bool} {flag : Ring → Bool}
    (here : c0.pc.Body) (there : pc.Body)
    (chosen : ∀ ring, pc.chosen flag ring = true →
      c0.r ring < p.visits ring ∧ (c0.r ring + 1) * p.step ring ≤ k.gauge ring) :
    Agree p { c0 with pc := pc, r10Released := released } c1 { k with flag := flag, r10Start := start } := by
  have ⟨phase,ahead,_,due⟩ := body_spec here
  have ⟨phase',ahead',notBehind,due'⟩ := body_spec there
  have pick : c1.pc.phase = .pick := agree.phase.trans phase
  exact { agree with
    phase := pick.trans phase'.symm
    cursors := fun ring => by
      have same := agree.cursors ring
      rw [due,(pick_spec pick _ ring).1] at same
      rw [due',(pick_spec pick _ ring).1]
      exact same
    chosen := chosen
    issued := fun ring => by
      have issued := agree.issued ring
      rw [served,(pick_spec pick _ ring).2] at issued
      rw [served,(pick_spec pick _ ring).2]
      exact issued
    body0 := fun _ => agree.body0 here
    behind0 := (absurd · notBehind)
    count0 := by
      rw [ahead',← ahead]
      exact agree.count0 }

theorem advance_self (ring : Ring) (r : Ring → Nat) (k : Paced) :
    advance ring r k ring = r ring + (k.flag ring).toNat := by
  unfold advance
  cases k.flag ring with
  | true => rw [if_pos rfl,Function.update_self]; rfl
  | false => rw [if_neg Bool.false_ne_true]; rfl

theorem advance_of_ne {ring other : Ring} (apart : other ≠ ring) (r : Ring → Nat) (k : Paced) :
    advance ring r k other = r other := by
  unfold advance
  split
  · exact Function.update_of_ne apart _ _
  · rfl

/-- Core 0 counts a ring. -/
theorem Agree.count (agree : Agree p c0 c1 k) {pc : PickPc} (ring : Ring)
    (here : c0.pc.phase = .act ∧ c0.pc.ahead = 2)
    (there : pc.phase = .act ∧ pc.ahead = 2 ∧ ¬pc.Body ∧ ¬pc.Behind)
    (flag : c0.pc.chosen k.flag ring = k.flag ring) (due : c0.pc.due k.flag = c0.pc.chosen k.flag)
    (due' : pc.due k.flag = pc.chosen k.flag) (counted : pc.chosen k.flag ring = false)
    (others : ∀ other, other ≠ ring → pc.chosen k.flag other = c0.pc.chosen k.flag other) :
    Agree p { c0 with pc := pc, r := advance ring c0.r k } c1 k := by
  have cursor : ∀ other, advance ring c0.r k other + (pc.chosen k.flag other).toNat =
      c0.r other + (c0.pc.chosen k.flag other).toNat := by
    intro other
    by_cases same : other = ring
    · subst same
      rw [advance_self,counted,flag]
      rfl
    · rw [advance_of_ne same,others other same]
  exact { agree with
    phase := agree.phase.trans (here.1.trans there.1.symm)
    cursors := fun other => by
      have same := agree.cursors other
      rw [due] at same
      rw [due']
      exact (cursor other).trans same
    bound := fun other => by
      change advance ring c0.r k other ≤ p.visits other ∧
        advance ring c0.r k other * p.step other ≤ k.gauge other
      by_cases same : other = ring
      · subst same
        have := agree.chosen other
        rw [flag] at this
        rw [advance_self]
        cases chosen : k.flag other with
        | true => exact this chosen
        | false => exact agree.bound other
      · rw [advance_of_ne same]
        exact agree.bound other
    chosen := fun other chosen => by
      by_cases same : other = ring
      · subst same
        exact absurd (counted.symm.trans chosen) Bool.false_ne_true
      · change advance ring c0.r k other < _ ∧ (advance ring c0.r k other + 1) * _ ≤ _
        rw [advance_of_ne same]
        exact agree.chosen other ((others other same).symm.trans chosen)
    body0 := (absurd · there.2.2.1)
    behind0 := (absurd · there.2.2.2)
    count0 := (congrArg (c0.barriers + ·) (there.2.1.trans here.2.symm)).trans agree.count0 }

/-- The last step of core 0. -/
theorem Agree.leave (agree : Agree p c0 c1 k) {start : Bool} (here : c0.pc = .fallback) :
    Agree p { c0 with pc := .left } c1 { k with r10Start := start } := by
  have ⟨phase,same,count⟩ : c1.pc.phase = .behind ∧ c0.pc.due k.flag = PickPc.left.due k.flag ∧
      c0.pc.ahead = PickPc.left.ahead := by
    rw [agree.phase,here]
    exact ⟨rfl,rfl,rfl⟩
  have behind : c0.pc.Behind := by rw [here]; trivial
  exact { agree with
    phase := phase
    cursors := same ▸ agree.cursors
    chosen := fun _ => Bool.noConfusion
    body0 := False.elim
    behind0 := fun _ => agree.behind0 behind
    count0 := (congrArg (c0.barriers + ·) count.symm).trans agree.count0 }

theorem Agree.pickStep (agree : Agree p c0 c1 k) (moves : p.pickStep c0 k = some (c0',k')) :
    Agree p c0' c1 k' := by
  have chosen := agree.chosen
  unfold PacedParams.pickStep at moves
  split at moves
  case h_1 here =>
    have pick : c1.pc.phase = .pick := agree.phase.trans (by rw [here]; rfl)
    have same := agree.cursors
    have passed := agree.count0
    rw [here] at same passed
    split at moves <;> cases moves
    · rename_i more
      exact { agree with
        phase := pick
        cursors := same
        chosen := fun _ => Bool.noConfusion
        body0 := fun _ => more
        behind0 := False.elim
        count0 := by
          change c0.barriers + 3 = 2 * (c0.iterations + 1) + 1
          change c0.barriers + 1 = 2 * c0.iterations + 1 at passed
          omega }
    · rename_i done
      exact { agree with
        phase := pick
        cursors := same
        chosen := fun _ => Bool.noConfusion
        body0 := False.elim
        behind0 := fun _ => done
        count0 := passed }
  case h_2 here =>
    rw [here] at chosen
    cases moves
    refine agree.choose (by rw [here]; trivial) trivial fun ring chosen => ?_
    cases ring with
    | os => exact ready_iff.mp chosen
    | is => cases chosen
  case h_3 os here =>
    rw [here] at chosen
    cases moves
    refine agree.choose (by rw [here]; trivial) trivial fun ring => ?_
    cases ring with
    | os => exact chosen .os
    | is => exact ready_iff.mp
  case h_4 os is here =>
    rw [here] at chosen
    have body : c0.pc.Body := by rw [here]; trivial
    split at moves
    · split at moves <;> cases moves
      · refine agree.choose body trivial fun ring => ?_
        cases ring with
        | os => exact chosen .os
        | is => exact chosen .is
      · refine agree.choose body trivial fun ring => ?_
        cases ring with
        | os => exact chosen .os
        | is => exact chosen .is
    · cases moves
      refine agree.choose body trivial fun ring => ?_
      cases ring with
      | os => exact chosen .os
      | is => exact chosen .is
  case h_5 os is here =>
    rw [here] at chosen
    cases moves
    have body : c0.pc.Body := by rw [here]; trivial
    split
    · exact agree.choose body trivial fun _ => Bool.noConfusion
    · refine agree.choose body trivial fun ring => ?_
      cases ring with
      | os => exact chosen .os
      | is => exact chosen .is
  case h_6 os is here =>
    rw [here] at chosen
    cases moves
    refine agree.choose (by rw [here]; trivial) trivial fun ring => ?_
    cases ring with
    | os => exact fun new => chosen .os (by simpa [PickPc.chosen] using new)
    | is => exact chosen .is
  case h_7 is here =>
    rw [here] at chosen
    cases moves
    refine agree.choose (by rw [here]; trivial) trivial fun ring => ?_
    cases ring with
    | os => exact fun new => chosen .os (by simpa [PickPc.chosen] using new)
    | is => exact fun new => chosen .is (by simpa [PickPc.chosen] using new)
  case h_8 here =>
    cases moves
    refine agree.count .os (by rw [here]; exact ⟨rfl,rfl⟩) ⟨rfl,rfl,id,id⟩ (by rw [here]; rfl)
      ?_ ?_ rfl ?_
    · rw [here]
      funext ring
      rfl
    · funext ring
      cases ring <;> rfl
    · intro other apart
      rw [here]
      cases other with
      | os => exact absurd rfl apart
      | is => rfl
  case h_9 here =>
    cases moves
    refine agree.count .is (by rw [here]; exact ⟨rfl,rfl⟩) ⟨rfl,rfl,id,id⟩ (by rw [here]; rfl)
      ?_ ?_ rfl ?_
    · rw [here]
      funext ring
      cases ring <;> rfl
    · funext ring
      rfl
    · intro other apart
      rw [here]
      cases other with
      | os => rfl
      | is => exact absurd rfl apart
  case h_10 here =>
    split at moves
    · split at moves
      · cases moves
        exact agree.leave here
      · split at moves <;> cases moves
        · exact agree
        · exact agree.leave here
    · cases moves
      exact agree.leave here
  all_goals cases moves

theorem issued_dmaStart (ring other : Ring) (ts : List Transfer) :
    (k.dmaStart ring ts).issued other = k.issued other ++ if ring = other then ts else [] := by
  have new : ((ts.map (ring,·)).filter (·.1 = other)).map Prod.snd = if ring = other then ts else [] := by
    split
    · rename_i same
      rw [List.filter_eq_self.mpr (by simp [same]),List.map_map]
      exact List.map_id ts
    · rename_i apart
      rw [List.filter_eq_nil_iff.mpr (by simp [apart])]
      rfl
  rw [Paced.issued,Paced.dmaStart,List.filter_append,List.map_append,new]
  rfl

theorem serve_self {ring : Ring} {r : Ring → Nat}
    (issued : k.issued ring = (List.range (r ring)).flatMap (p.transfers ring)) :
    (p.serve ring r k).issued ring =
      (List.range (r ring + (k.flag ring).toNat)).flatMap (p.transfers ring) := by
  unfold serve
  cases k.flag ring with
  | true =>
    rw [if_pos rfl,issued_dmaStart,if_pos rfl,issued]
    change _ = (List.range (r ring + 1)).flatMap _
    rw [List.range_succ,List.flatMap_append,List.flatMap_singleton]
  | false => rwa [if_neg Bool.false_ne_true]

theorem serve_of_ne {ring other : Ring} (apart : ring ≠ other) (r : Ring → Nat) :
    (p.serve ring r k).issued other = k.issued other := by
  unfold serve
  split
  · rw [issued_dmaStart,if_neg apart,List.append_nil]
  · rfl

theorem serve_eq (ring : Ring) (r : Ring → Nat) :
    p.serve ring r k = { k with dma := (p.serve ring r k).dma } := by
  unfold serve
  split <;> rfl

/-- The steps of the DM core between the two barriers. -/
theorem Agree.act (agree : Agree p c0 c1 k) {pc : ServePc} {r : Ring → Nat} {dma : List (Ring × Transfer)}
    (here : c1.pc.phase = .act ∧ c1.pc.ahead = 2)
    (there : pc.phase = .act ∧ pc.ahead = 2 ∧ ¬pc.Body ∧ ¬pc.Behind)
    (cursors : ∀ ring, r ring + (pc.due k.flag ring).toNat = c1.r ring + (c1.pc.due k.flag ring).toNat)
    (issued : ∀ ring, Paced.issued { k with dma := dma } ring =
      (List.range (r ring + (pc.served k.flag ring).toNat)).flatMap (p.transfers ring)) :
    Agree p c0 { c1 with pc := pc, r := r } { k with dma := dma } :=
  { agree with
    phase := there.1.trans (here.1.symm.trans agree.phase)
    cursors := fun ring => (agree.cursors ring).trans (cursors ring).symm
    issued := issued
    body1 := (absurd · there.2.2.1)
    behind1 := (absurd · there.2.2.2)
    count1 := (congrArg (c1.barriers + ·) (there.2.1.trans here.2.symm)).trans agree.count1 }

theorem Agree.serveStep (agree : Agree p c0 c1 k) (moves : p.serveStep c1 k = some (c1',k')) :
    Agree p c0 c1' k' := by
  have issued := agree.issued
  have same := agree.cursors
  unfold PacedParams.serveStep at moves
  split at moves
  case h_1 here =>
    have pick : PacePhase.pick = c0.pc.phase := by
      rw [← agree.phase,here]
      rfl
    have passed := agree.count1
    simp only [served,here] at issued
    rw [here] at same passed
    split at moves <;> cases moves
    · rename_i more
      exact { agree with
        phase := pick
        cursors := same
        issued := issued
        body1 := fun _ => more
        behind1 := False.elim
        count1 := by
          change c1.barriers + 3 = 2 * (c1.iterations + 1) + 1
          change c1.barriers + 1 = 2 * c1.iterations + 1 at passed
          omega }
    · rename_i done
      exact { agree with
        phase := pick
        cursors := same
        issued := issued
        body1 := False.elim
        behind1 := fun _ => done
        count1 := passed }
  case h_2 here =>
    cases moves
    simp only [served,here] at issued
    rw [serve_eq]
    refine agree.act (by rw [here]; exact ⟨rfl,rfl⟩) ⟨rfl,rfl,id,id⟩ (fun ring => by rw [here]; rfl)
      fun ring => ?_
    rw [← serve_eq]
    cases ring with
    | os => exact serve_self (issued .os)
    | is => exact (serve_of_ne Ring.noConfusion _).trans (issued .is)
  case h_3 here =>
    cases moves
    simp only [served,here] at issued
    rw [serve_eq]
    refine agree.act (by rw [here]; exact ⟨rfl,rfl⟩) ⟨rfl,rfl,id,id⟩ (fun ring => by rw [here]; rfl)
      fun ring => ?_
    rw [← serve_eq]
    cases ring with
    | os => exact (serve_of_ne Ring.noConfusion _).trans (issued .os)
    | is => exact serve_self (issued .is)
  case h_4 here =>
    cases moves
    simp only [served,here] at issued
    refine agree.act (by rw [here]; exact ⟨rfl,rfl⟩) ⟨rfl,rfl,id,id⟩ (fun ring => ?_) fun ring => ?_
    · rw [here]
      cases ring with
      | os => rw [advance_self]; rfl
      | is => rw [advance_of_ne Ring.noConfusion]; rfl
    · cases ring with
      | os => rw [advance_self]; exact issued .os
      | is => rw [advance_of_ne Ring.noConfusion]; exact issued .is
  case h_5 here =>
    cases moves
    simp only [served,here] at issued
    refine agree.act (by rw [here]; exact ⟨rfl,rfl⟩) ⟨rfl,rfl,id,id⟩ (fun ring => ?_) fun ring => ?_
    · rw [here]
      cases ring with
      | os => rw [advance_of_ne Ring.noConfusion]; rfl
      | is => rw [advance_self]; rfl
    · cases ring with
      | os => rw [advance_of_ne Ring.noConfusion]; exact issued .os
      | is => rw [advance_self]; exact issued .is
  case h_6 here =>
    have pick : PacePhase.pick = c0.pc.phase := by
      rw [← agree.phase,here]
      rfl
    have behind := agree.behind1
    have passed := agree.count1
    simp only [served,here] at issued
    rw [here] at same passed behind
    split at moves <;> cases moves
    exact { agree with
      phase := pick
      cursors := same
      issued := issued
      body1 := False.elim
      behind1 := behind
      count1 := passed }
  all_goals cases moves

/-- Up to the first barrier the cores have the same cursors. -/
theorem Agree.same (agree : Agree p c0 c1 k) (pick : c0.pc.phase = .pick) : c0.r = c1.r := by
  funext ring
  have same := agree.cursors ring
  rw [(pick_spec (agree.phase.trans pick) _ ring).1] at same
  have none : c0.pc.due k.flag ring = false := by
    cases at0 : c0.pc <;> first | rfl | (rw [at0] at pick; cases pick)
  rwa [none] at same

/-- The barriers at which the cores meet. -/
inductive Met (c0 : PickCore) (c1 : ServeCore) : PickCore → ServeCore → Prop
  | published (here : c0.pc = .published) (there : c1.pc = .published) :
      Met c0 c1 { c0 with pc := .countOs, barriers := c0.barriers + 1 }
        { c1 with pc := .refillOs, barriers := c1.barriers + 1 }
  | counted (here : c0.pc = .counted) (there : c1.pc = .counted) :
      Met c0 c1 { c0 with pc := .head, barriers := c0.barriers + 1 }
        { c1 with pc := .head, barriers := c1.barriers + 1 }
  | drained (here : c0.pc = .drained) (there : c1.pc = .drained) :
      Met c0 c1 { c0 with pc := .fallback, barriers := c0.barriers + 1 }
        { c1 with pc := .left, barriers := c1.barriers + 1 }

theorem Met.move (met : Met c0 c1 c0' c1') : p.cores.Move ⟨c0,c1,k⟩ ⟨c0',c1',k⟩ := by
  have here : pickMeets c0 = some c0' := by
    unfold pickMeets
    cases met <;> rename_i at0 at1 <;> rw [at0]
  have there : serveMeets c1 = some c1' := by
    unfold serveMeets
    cases met <;> rename_i at0 at1 <;> rw [at1]
  exact .meet here there

theorem Agree.met (agree : Agree p c0 c1 k) (here : pickMeets c0 = some c0')
    (there : serveMeets c1 = some c1') : Met c0 c1 c0' c1' := by
  have phase := agree.phase
  unfold pickMeets at here
  unfold serveMeets at there
  split at here
  case h_1 at0 =>
    have more : p.More c0.r := agree.body0 (by rw [at0]; trivial)
    rw [agree.same (by rw [at0]; rfl)] at more
    rw [at0] at phase
    cases here
    split at there
    case h_1 at1 =>
      cases there
      exact .published at0 at1
    case h_2 at1 =>
      rw [at1] at phase
      cases phase
    case h_3 at1 => exact absurd more (agree.behind1 (by rw [at1]; trivial))
    case h_4 => cases there
  case h_2 at0 =>
    rw [at0] at phase
    cases here
    split at there
    case h_2 at1 =>
      cases there
      exact .counted at0 at1
    case h_4 => cases there
    all_goals
      rename_i at1
      rw [at1] at phase
      cases phase
  case h_3 at0 =>
    have done : ¬p.More c0.r := agree.behind0 (by rw [at0]; trivial)
    rw [agree.same (by rw [at0]; rfl)] at done
    rw [at0] at phase
    cases here
    split at there
    case h_1 at1 => exact absurd (agree.body1 (by rw [at1]; trivial)) done
    case h_2 at1 =>
      rw [at1] at phase
      cases phase
    case h_3 at1 =>
      cases there
      exact .drained at0 at1
    case h_4 => cases there
  case h_4 => cases here

theorem Agree.meet (agree : Agree p c0 c1 k) (met : Met c0 c1 c0' c1') : Agree p c0' c1' k := by
  have cursors := agree.cursors
  have chosen := agree.chosen
  have issued := agree.issued
  have behind := agree.behind0
  have count0 := agree.count0
  have count1 := agree.count1
  have barriers := congrArg Nat.succ agree.barriers
  cases met with
  | published here there =>
    simp only [served,there] at issued
    rw [here] at cursors chosen count0
    rw [there] at cursors count1
    exact { agree with
      phase := rfl
      cursors := fun ring => congrArg (· + (k.flag ring).toNat) (cursors ring)
      chosen := chosen
      issued := issued
      body0 := False.elim
      behind0 := False.elim
      body1 := False.elim
      behind1 := False.elim
      barriers := barriers
      count0 := (Nat.add_right_comm _ _ _).trans count0
      count1 := (Nat.add_right_comm _ _ _).trans count1 }
  | counted here there =>
    simp only [served,there] at issued
    rw [here] at cursors count0
    rw [there] at cursors count1
    exact { agree with
      phase := rfl
      cursors := cursors
      chosen := fun _ => Bool.noConfusion
      issued := issued
      body0 := False.elim
      behind0 := False.elim
      body1 := False.elim
      behind1 := False.elim
      barriers := barriers
      count0 := (Nat.add_right_comm _ _ _).trans count0
      count1 := (Nat.add_right_comm _ _ _).trans count1 }
  | drained here there =>
    simp only [served,there] at issued
    rw [here] at cursors count0 behind
    rw [there] at cursors count1
    have done : ¬p.More c1.r := agree.behind1 (by rw [there]; trivial)
    exact { agree with
      phase := rfl
      cursors := cursors
      chosen := fun _ => Bool.noConfusion
      issued := issued
      body0 := False.elim
      behind0 := behind
      body1 := False.elim
      behind1 := fun _ => done
      barriers := barriers
      count0 := count0
      count1 := count1 }

theorem Agree.beside (agree : Agree p c0 c1 k) (changes : k.Beside k') : Agree p c0 c1 k' := by
  cases changes with
  | @count ring g grows =>
    have more : ∀ other, k.gauge other ≤ Function.update k.gauge ring g other := by
      intro other
      by_cases same : other = ring
      · subst same
        rwa [Function.update_self]
      · rw [Function.update_of_ne same]
    exact { agree with
      bound := fun other => (agree.bound other).imp id (·.trans (more other))
      chosen := fun other chosen => (agree.chosen other chosen).imp id (·.trans (more other)) }
  | transfer => exact { agree with }

theorem agree_reached {gauge : Ring → Nat} {flag : Ring → Bool} {c : Cores.Config PickCore ServeCore Paced}
    (reached : p.cores.Reaches (entered gauge flag) c) : Agree p c.first c.second c.shared := by
  refine Cores.run_rule ?first ?second ?meet ?beside (agree_entered gauge flag) reached
  case first => exact fun _ _ _ _ _ agree moves => agree.pickStep moves
  case second => exact fun _ _ _ _ _ agree moves => agree.serveStep moves
  case meet => exact fun _ _ _ _ _ agree here there => agree.meet (agree.met here there)
  case beside => exact fun _ _ _ _ agree changes => agree.beside changes

/-! ### Progress -/

theorem more_of_ready {ring : Ring} {r : Ring → Nat} (ready : p.ready ring r k = true) : p.More r := by
  have left := (ready_iff.mp ready).1
  cases ring with
  | os => exact .inl left
  | is => exact .inr left

/-- A step of core 0 brings a ring nearer that has a slot to refill. -/
theorem pickStep_cost (moves : p.pickStep c0 k = some (c0',k')) (going : c0.pc.phase ≠ .behind) {ring : Ring}
    (ready : c0.pc.phase = .pick → p.ready ring c0.r k = true) :
    c0'.pc.cost k'.flag ring < c0.pc.cost k.flag ring := by
  unfold PacedParams.pickStep at moves
  split at moves
  case h_1 here =>
    rw [if_pos (more_of_ready (ready (by rw [here]; rfl)))] at moves
    cases moves
    rw [here]
    simp
  case h_2 here =>
    cases moves
    have now := ready (by rw [here]; rfl)
    rw [here]
    cases ring with
    | os => simp [now]
    | is => simp
  case h_3 os here =>
    cases moves
    have now := ready (by rw [here]; rfl)
    rw [here]
    cases ring with
    | os => simp
    | is => simp [now]
  case h_4 os is here =>
    rw [here]
    split at moves
    · split at moves <;> cases moves <;> cases ring <;> simp
    · cases moves
      cases ring <;> simp
  case h_5 os is here =>
    cases moves
    rw [here]
    cases os <;> cases is <;> cases ring <;> simp
  case h_6 os is here =>
    cases moves
    rw [here]
    cases ring <;> simp [Paced.publish]
  case h_7 is here =>
    cases moves
    rw [here]
    cases ring <;> simp [Paced.publish]
  case h_8 here | h_9 here =>
    cases moves
    rw [here]
    cases ring <;> simp
  case h_10 here =>
    rw [here] at going
    exact absurd rfl going
  all_goals cases moves

theorem pickStep_flag (moves : p.pickStep c0 k = some (c0',k')) (act : c0.pc.phase ≠ .pick) :
    k'.flag = k.flag := by
  unfold PacedParams.pickStep at moves
  split at moves
  case h_8 | h_9 =>
    cases moves
    rfl
  case h_10 =>
    split at moves
    · split at moves
      · cases moves
        rfl
      · split at moves <;> cases moves <;> rfl
    · cases moves
      rfl
  case h_1 here | h_2 here | h_3 here | h_4 here | h_5 here | h_6 here | h_7 here =>
    rw [here] at act
    exact absurd rfl act
  all_goals cases moves

theorem cost_of_pick {pc : ServePc} (pick : pc.phase = .pick) (flag flag' : Ring → Bool) (ring : Ring) :
    pc.cost flag ring = pc.cost flag' ring := by
  cases pc <;> first | rfl | cases pick

theorem serveStep_flag (moves : p.serveStep c1 k = some (c1',k')) : k'.flag = k.flag := by
  unfold PacedParams.serveStep at moves
  split at moves
  case h_2 | h_3 =>
    cases moves
    rw [serve_eq]
  case h_1 | h_6 => split at moves <;> cases moves <;> rfl
  all_goals cases moves <;> rfl

/-- A step of the DM core serves the ring or brings it nearer. -/
theorem serveStep_cost (moves : p.serveStep c1 k = some (c1',k')) {ring : Ring}
    (more : c1.pc.phase = .pick → p.More c1.r) (inside : ¬c1.pc.Behind) :
    served c1' k' ring = served c1 k ring + 1 ∨ c1'.pc.cost k'.flag ring < c1.pc.cost k.flag ring := by
  unfold PacedParams.serveStep at moves
  split at moves
  case h_1 here =>
    rw [if_pos (more (by rw [here]; rfl))] at moves
    cases moves
    rw [here]
    exact .inr (by simp)
  case h_2 here =>
    cases moves
    rw [serve_eq,served,served,here]
    cases ring <;> cases flag : k.flag .os <;> simp [ServePc.served,flag]
  case h_3 here =>
    cases moves
    rw [serve_eq,served,served,here]
    cases ring <;> cases flag : k.flag .is <;> simp [ServePc.served,flag]
  case h_4 here | h_5 here =>
    cases moves
    rw [here]
    cases ring <;> exact .inr (by simp)
  case h_6 here =>
    rw [here] at inside
    exact absurd trivial inside
  all_goals cases moves

theorem served_of_pick {ring : Ring} (pick : c1.pc.phase = .pick) : served c1 k ring = c1.r ring := by
  rw [served,(pick_spec pick _ ring).2]
  rfl

/-- Before the first barrier core 0 may serve a ring whose next slot is free. -/
theorem Agree.ready (agree : Agree p c0 c1 k) {ring : Ring} (left : served c1 k ring < p.visits ring)
    (reached : (served c1 k ring + 1) * p.step ring ≤ k.gauge ring) (pick : c0.pc.phase = .pick) :
    p.ready ring c0.r k = true := by
  rw [served_of_pick (agree.phase.trans pick),← agree.same pick] at left reached
  exact ready_iff.mpr ⟨left,reached⟩

/-- Unless both cores are behind the loop one of them moves, or they meet. -/
theorem Agree.moves (agree : Agree p c0 c1 k) (inside : ¬(c0.pc.Behind ∧ c1.pc.Behind)) :
    ∃ c', p.cores.Move ⟨c0,c1,k⟩ c' := by
  have step0 : (∃ c0' k', p.pickStep c0 k = some (c0',k')) → ∃ c', p.cores.Move ⟨c0,c1,k⟩ c' :=
    fun ⟨_,_,moves⟩ => ⟨_,.first moves⟩
  have step1 : (∃ c1' k', p.serveStep c1 k = some (c1',k')) → ∃ c', p.cores.Move ⟨c0,c1,k⟩ c' :=
    fun ⟨_,_,moves⟩ => ⟨_,.second moves⟩
  have phase := agree.phase
  have behind0 := agree.behind0
  have body0 := agree.body0
  have serves : c1.pc.phase = .act → c1.pc ≠ .counted → ∃ c1' k', p.serveStep c1 k = some (c1',k') := by
    intro act going
    unfold PacedParams.serveStep
    cases at1 : c1.pc <;> rw [at1] at act going <;>
      first | exact absurd rfl going | exact ⟨_,_,rfl⟩ | cases act
  have enters : c1.pc = .head → ∃ c1' k', p.serveStep c1 k = some (c1',k') := by
    intro at1
    unfold PacedParams.serveStep
    rw [at1]
    by_cases more : p.More c1.r
    · exact ⟨_,_,if_pos more⟩
    · exact ⟨_,_,if_neg more⟩
  cases at0 : c0.pc with
  | head =>
    refine step0 ?_
    unfold PacedParams.pickStep
    rw [at0]
    by_cases more : p.More c0.r
    · exact ⟨_,_,if_pos more⟩
    · exact ⟨_,_,if_neg more⟩
  | readOs | readIs | decide | publishOs | publishIs | countOs | countIs =>
    refine step0 ?_
    unfold PacedParams.pickStep
    rw [at0]
    exact ⟨_,_,rfl⟩
  | release =>
    refine step0 ?_
    unfold PacedParams.pickStep
    rw [at0]
    dsimp only
    split
    · split <;> exact ⟨_,_,rfl⟩
    · exact ⟨_,_,rfl⟩
  | published =>
    have more : p.More c0.r := body0 (by rw [at0]; trivial)
    have pick : c0.pc.phase = .pick := by rw [at0]; rfl
    rw [agree.same pick] at more
    rw [pick] at phase
    cases at1 : c1.pc with
    | head => exact step1 (enters at1)
    | published => exact ⟨_,(Met.published at0 at1).move⟩
    | waitAll | drained | left => exact absurd more (agree.behind1 (by rw [at1]; trivial))
    | refillOs | refillIs | countOs | countIs | counted =>
      rw [at1] at phase
      cases phase
  | counted =>
    rw [at0] at phase
    by_cases at1 : c1.pc = .counted
    · exact ⟨_,(Met.counted at0 at1).move⟩
    · exact step1 (serves phase at1)
  | drained =>
    rw [at0] at inside phase
    cases at1 : c1.pc with
    | head => exact step1 (enters at1)
    | published =>
      have more := agree.body1 (by rw [at1]; trivial)
      rw [← agree.same (by rw [at0]; rfl)] at more
      exact absurd more (behind0 (by rw [at0]; trivial))
    | waitAll | drained | left =>
      rw [at1] at inside
      exact absurd ⟨trivial,trivial⟩ inside
    | refillOs | refillIs | countOs | countIs | counted =>
      rw [at1] at phase
      cases phase
  | fallback | left =>
    rw [at0] at inside phase
    cases at1 : c1.pc with
    | left =>
      rw [at1] at inside
      exact absurd ⟨trivial,trivial⟩ inside
    | _ =>
      rw [at1] at phase
      cases phase

/-- The moves until a ring is served, at most. -/
def wait (ring : Ring) (c : Cores.Config PickCore ServeCore Paced) : Nat :=
  c.first.pc.cost c.shared.flag ring + c.second.pc.cost c.shared.flag ring

/-- A ring with a slot to refill is served after so many moves, whatever the gauge of the other ring. -/
theorem Agree.serves (agree : Agree p c0 c1 k) {ring : Ring} (left : served c1 k ring < p.visits ring)
    (reached : (served c1 k ring + 1) * p.step ring ≤ k.gauge ring)
    {c' : Cores.Config PickCore ServeCore Paced} (move : p.cores.Move ⟨c0,c1,k⟩ c') :
    served c'.second c'.shared ring = served c1 k ring + 1 ∨ wait ring c' < wait ring ⟨c0,c1,k⟩ := by
  have ready := agree.ready left reached
  have more : c0.pc.phase = .pick → p.More c0.r := fun pick => more_of_ready (ready pick)
  have outside : ¬c1.pc.Behind := by
    intro behind
    have done := agree.behind1 behind
    have all : served c1 k ring = c1.r ring := by
      cases at1 : c1.pc <;> rw [at1] at behind <;> first | exact behind.elim | (rw [served,at1]; rfl)
    rw [all] at left
    cases ring with
    | os => exact done (.inl left)
    | is => exact done (.inr left)
  have going : c0.pc.phase ≠ .behind := by
    intro behind
    have phase := agree.phase.trans behind
    cases at1 : c1.pc <;> rw [at1] at phase outside <;> first | exact outside trivial | cases phase
  cases move with
  | @first _ c0' _ _ k' moves =>
    refine .inr ?_
    have cost := pickStep_cost moves going ready
    have same : c1.pc.cost k'.flag ring = c1.pc.cost k.flag ring := by
      by_cases pick : c0.pc.phase = .pick
      · exact cost_of_pick (agree.phase.trans pick) _ _ _
      · rw [pickStep_flag moves pick]
    exact Nat.add_lt_add_of_lt_of_le cost same.le
  | @second _ _ c1' _ k' moves =>
    have flags : k'.flag = k.flag := serveStep_flag moves
    refine (serveStep_cost moves (fun pick => ?_) outside).imp id fun cost => ?_
    · have here : c0.pc.phase = .pick := agree.phase.symm.trans pick
      rw [← agree.same here]
      exact more here
    · refine Nat.add_lt_add_of_le_of_lt ?_ cost
      change c0.pc.cost k'.flag ring ≤ _
      rw [flags]
  | meet here there =>
    cases agree.met here there with
    | published at0 at1 =>
      rw [wait,wait,at0,at1]
      simp
      omega
    | counted at0 at1 =>
      rw [wait,wait,at0,at1]
      simp
    | drained at0 at1 =>
      rw [at1] at outside
      exact absurd trivial outside

theorem due_of_served {pc : ServePc} {flag : Ring → Bool} {ring : Ring} (served : pc.served flag ring = true) :
    pc.due flag ring = true := by
  cases pc <;> cases ring <;> first | exact served | cases served

theorem chosen_of_due {pc : PickPc} {flag : Ring → Bool} {ring : Ring} (due : pc.due flag ring = true) :
    pc.chosen flag ring = true := by
  cases pc <;> cases ring <;> first | exact due | cases due

/-- What the DM core has served core 0 has seen on the gauge. -/
theorem Agree.paced (agree : Agree p c0 c1 k) (ring : Ring) :
    served c1 k ring ≤ p.visits ring ∧ served c1 k ring * p.step ring ≤ k.gauge ring := by
  have most : served c1 k ring ≤ c0.r ring + (c0.pc.due k.flag ring).toNat := by
    rw [agree.cursors ring,served]
    refine Nat.add_le_add_left ?_ _
    cases done : c1.pc.served k.flag ring with
    | true => rw [due_of_served done]
    | false => exact Nat.zero_le _
  have bound : c0.r ring + (c0.pc.due k.flag ring).toNat ≤ p.visits ring ∧
      (c0.r ring + (c0.pc.due k.flag ring).toNat) * p.step ring ≤ k.gauge ring := by
    cases due : c0.pc.due k.flag ring with
    | true => exact agree.chosen ring (chosen_of_due due)
    | false => exact agree.bound ring
  exact ⟨most.trans bound.1,(Nat.mul_le_mul_right _ most).trans bound.2⟩

theorem visits_le {r : Ring → Nat} (done : ¬p.More r) (ring : Ring) : p.visits ring ≤ r ring := by
  cases ring with
  | os => exact Nat.not_lt.mp fun left => done (.inl left)
  | is => exact Nat.not_lt.mp fun left => done (.inr left)

theorem Agree.complete (agree : Agree p c0 c1 k) (behind : c1.pc.Behind) (ring : Ring) :
    served c1 k ring = p.visits ring := by
  have all := visits_le (agree.behind1 behind) ring
  exact Nat.le_antisymm (agree.paced ring).1 (all.trans (Nat.le_add_right _ _))

/-- The moves until the cores are behind the loop, when every visit has been served. -/
def exits (c : Cores.Config PickCore ServeCore Paced) : Nat := c.first.pc.exit + c.second.pc.exit

theorem Agree.exits (agree : Agree p c0 c1 k) (all : ∀ ring, served c1 k ring = p.visits ring)
    (inside : ¬(c0.pc.Behind ∧ c1.pc.Behind)) {c' : Cores.Config PickCore ServeCore Paced}
    (move : p.cores.Move ⟨c0,c1,k⟩ c') : exits c' < exits ⟨c0,c1,k⟩ := by
  have phase := agree.phase
  have done : c0.pc.phase = .pick → ¬p.More c0.r := by
    intro pick
    have none : ∀ ring, ¬c0.r ring < p.visits ring := fun ring => by
      rw [agree.same pick,← all ring,served_of_pick (phase.trans pick)]
      exact Nat.lt_irrefl _
    rintro (left | left)
    · exact none .os left
    · exact none .is left
  cases move with
  | first moves =>
    refine Nat.add_lt_add_right ?_ _
    change p.pickStep c0 k = _ at moves
    unfold PacedParams.pickStep at moves
    split at moves
    case h_1 at0 =>
      rw [if_neg (done (by rw [at0]; rfl))] at moves
      cases moves
      rw [at0]
      exact Nat.lt_succ_self 1
    case h_2 at0 | h_3 at0 | h_4 at0 | h_5 at0 | h_6 at0 | h_7 at0 =>
      exact absurd (agree.body0 (by rw [at0]; trivial)) (done (by rw [at0]; rfl))
    case h_8 at0 | h_9 at0 =>
      cases moves
      rw [at0]
      exact Nat.lt_succ_self _
    case h_10 at0 =>
      rw [at0] at phase inside
      cases at1 : c1.pc with
      | left =>
        rw [at1] at inside
        exact absurd ⟨trivial,trivial⟩ inside
      | _ =>
        rw [at1] at phase
        cases phase
    all_goals cases moves
  | second moves =>
    refine Nat.add_lt_add_left ?_ _
    change p.serveStep c1 k = _ at moves
    unfold PacedParams.serveStep at moves
    split at moves
    case h_1 at1 =>
      have pick : c0.pc.phase = .pick := by
        rw [← phase,at1]
        rfl
      rw [if_neg (agree.same pick ▸ done pick)] at moves
      cases moves
      rw [at1]
      exact Nat.lt_succ_self 2
    case h_2 at1 | h_3 at1 | h_4 at1 | h_5 at1 =>
      cases moves
      rw [at1]
      exact Nat.lt_succ_self _
    case h_6 at1 =>
      split at moves <;> cases moves
      rw [at1]
      exact Nat.lt_succ_self 1
    all_goals cases moves
  | meet here there =>
    cases agree.met here there with
    | published at0 at1 => exact absurd (agree.body0 (by rw [at0]; trivial)) (done (by rw [at0]; rfl))
    | counted at0 at1 =>
      rw [PacedParams.exits,PacedParams.exits,at0,at1]
      exact (by decide : 2 + 3 < 4 + 4)
    | drained at0 at1 =>
      rw [at0,at1] at inside
      exact absurd ⟨trivial,trivial⟩ inside

/-! ### Runs -/

/-- The protocol of the two cores. They have the same cursors whenever one of them is at the head of the
loop, meet at the same barriers and leave the loop in the same iteration. -/
structure DoublePacing (p : PacedParams) (c : Cores.Config PickCore ServeCore Paced) : Prop where
  cursors : c.first.pc = .head ∨ c.second.pc = .head → c.first.r = c.second.r
  barrier : ∀ c0' c1', pickMeets c.first = some c0' → serveMeets c.second = some c1' →
    Met c.first c.second c0' c1'
  leave : (c.first.pc.Behind → c.second.pc = .head ∨ c.second.pc.Behind) ∧
    (c.second.pc.Behind → c.first.pc = .head ∨ c.first.pc.Behind)
  same : c.first.pc.Behind → c.second.pc.Behind →
    c.first.iterations = c.second.iterations ∧ c.first.barriers = c.second.barriers
  -- every visit is served once and in order, behind the loop all of them are
  issued : ∀ ring, c.shared.issued ring =
    (List.range (served c.second c.shared ring)).flatMap (p.transfers ring)
  paced : ∀ ring r, r < served c.second c.shared ring →
    r < p.visits ring ∧ (r + 1) * p.step ring ≤ c.shared.gauge ring
  complete : c.second.pc.Behind → ∀ ring, served c.second c.shared ring = p.visits ring
  -- a ring whose gauge has counted its next visit is served whatever the other gauge says
  serves : ∀ ring, served c.second c.shared ring < p.visits ring →
    (served c.second c.shared ring + 1) * p.step ring ≤ c.shared.gauge ring →
    (∃ c', p.cores.Move c c') ∧ ∀ c', p.cores.Move c c' →
      served c'.second c'.shared ring = served c.second c.shared ring + 1 ∨ wait ring c' < wait ring c
  exits : (∀ ring, served c.second c.shared ring = p.visits ring) →
    ¬(c.first.pc.Behind ∧ c.second.pc.Behind) →
    (∃ c', p.cores.Move c c') ∧ ∀ c', p.cores.Move c c' → PacedParams.exits c' < PacedParams.exits c
  apart : ∀ k', c.shared.Beside k' → ∀ ring, served c.second k' ring = served c.second c.shared ring ∧
    wait ring { c with shared := k' } = wait ring c

theorem Agree.leave_same (agree : Agree p c0 c1 k) (behind0 : c0.pc.Behind) (behind1 : c1.pc.Behind) :
    c0.iterations = c1.iterations ∧ c0.barriers = c1.barriers := by
  have phase := agree.phase
  have ahead : c0.pc.ahead = c1.pc.ahead := by
    cases at0 : c0.pc <;> cases at1 : c1.pc <;> rw [at0] at behind0 phase <;> rw [at1] at behind1 phase <;>
      first | exact behind0.elim | exact behind1.elim | rfl | cases phase
  have count0 := agree.count0
  have count1 := agree.count1
  rw [ahead,agree.barriers,count1] at count0
  exact ⟨by omega,agree.barriers⟩

theorem Agree.leave0 (agree : Agree p c0 c1 k) (behind : c0.pc.Behind) : c1.pc = .head ∨ c1.pc.Behind := by
  have phase := agree.phase
  cases at1 : c1.pc with
  | head => exact .inl rfl
  | waitAll | drained | left => exact .inr trivial
  | published =>
    have more := agree.body1 (by rw [at1]; trivial)
    rw [at1] at phase
    rw [← agree.same phase.symm] at more
    exact absurd more (agree.behind0 behind)
  | refillOs | refillIs | countOs | countIs | counted =>
    rw [at1] at phase
    cases at0 : c0.pc <;> rw [at0] at phase behind <;> first | exact behind.elim | cases phase

theorem Agree.leave1 (agree : Agree p c0 c1 k) (behind : c1.pc.Behind) : c0.pc = .head ∨ c0.pc.Behind := by
  have phase := agree.phase
  have body := agree.body0
  have same := agree.same
  have done := agree.behind1 behind
  cases at0 : c0.pc with
  | head => exact .inl rfl
  | drained | fallback | left => exact .inr trivial
  | countOs | countIs | counted =>
    rw [at0] at phase
    cases at1 : c1.pc <;> rw [at1] at phase behind <;> first | exact behind.elim | cases phase
  | _ =>
    rw [at0] at body same
    exact absurd (body trivial) (same rfl ▸ done)

theorem Agree.cursors_of_head (agree : Agree p c0 c1 k) (head : c0.pc = .head ∨ c1.pc = .head) :
    c0.r = c1.r := by
  refine agree.same ?_
  rcases head with at0 | at1
  · rw [at0]
    rfl
  · rw [← agree.phase,at1]
    rfl

theorem wait_beside (changes : k.Beside k') (ring : Ring) :
    served c1 k' ring = served c1 k ring ∧ wait ring ⟨c0,c1,k'⟩ = wait ring ⟨c0,c1,k⟩ := by
  cases changes <;> exact ⟨rfl,rfl⟩

theorem double_paced (p : PacedParams) (gauge : Ring → Nat) (flag : Ring → Bool)
    (c : Cores.Config PickCore ServeCore Paced) (reached : p.cores.Reaches (entered gauge flag) c) :
    DoublePacing p c := by
  have agree := agree_reached reached
  exact {
    cursors := agree.cursors_of_head
    barrier := fun _ _ => agree.met
    leave := ⟨agree.leave0,agree.leave1⟩
    same := agree.leave_same
    issued := agree.issued
    paced := fun ring r inside =>
      have ⟨visits,gauge⟩ := agree.paced ring
      ⟨inside.trans_le visits,(Nat.mul_le_mul_right _ inside).trans gauge⟩
    complete := agree.complete
    serves := fun ring left reached =>
      ⟨agree.moves fun ⟨_,behind⟩ => Nat.ne_of_lt left (agree.complete behind ring),
        fun _ move => agree.serves left reached move⟩
    exits := fun all inside => ⟨agree.moves inside,fun _ move => agree.exits all inside move⟩
    apart := fun _ changes ring => wait_beside changes ring }

theorem isOsgemm_reached : ∃ c, (isOsgemm 1 1 1 1).cores.Reaches (entered (fun _ => 0) fun _ => false) c ∧
    c.first.pc = .drained ∧ c.second.pc = .waitAll := by
  have counted := Relation.ReflTransGen.single (r := (isOsgemm 1 1 1 1).cores.Step)
    (a := entered (fun _ => 0) fun _ => false) (.beside (.count .is (g := 1) (by decide)))
  have begun := (counted.tail (.first rfl)).tail (.second rfl)
  have read := ((begun.tail (.first rfl)).tail (.first rfl)).tail (.first rfl)
  have decided := ((read.tail (.first rfl)).tail (.first rfl)).tail (.first rfl)
  have met := decided.tail (.meet rfl rfl)
  have served := (met.tail (.second rfl)).tail (.second rfl)
  have nextEnd := (((served.tail (.first rfl)).tail (.first rfl)).tail (.second rfl)).tail (.second rfl)
  have next := nextEnd.tail (.meet rfl rfl)
  have counted' := next.tail (.beside (.count .os (g := 1) (by decide)))
  have begun' := (counted'.tail (.first rfl)).tail (.second rfl)
  have read' := ((begun'.tail (.first rfl)).tail (.first rfl)).tail (.first rfl)
  have decided' := ((read'.tail (.first rfl)).tail (.first rfl)).tail (.first rfl)
  have met' := decided'.tail (.meet rfl rfl)
  have served' := (met'.tail (.second rfl)).tail (.second rfl)
  have doneEnd := (((served'.tail (.first rfl)).tail (.first rfl)).tail (.second rfl)).tail (.second rfl)
  have done := doneEnd.tail (.meet rfl rfl)
  exact ⟨_,(done.tail (.first rfl)).tail (.second rfl),rfl,rfl⟩

/-- With one tile the psum ring is served in the first iteration and the ring of the osCore in the second;
the loop of the P2 kernel follows the protocol from its start on. -/
theorem double_paced_isOsgemm :
    (∃ c : Cores.Config PickCore ServeCore Paced,
      c.shared.issued .os = [.reload 0 0] ∧ c.shared.issued .is = [.spill 0 0,.reload 0 0] ∧
      c.first.iterations = c.second.iterations) ∧
    DoublePacing (p2Async 2 4 3 4 8 2 (some 20)) (entered (fun _ => 0) fun _ => false) := by
  obtain ⟨c,reached,at0,at1⟩ := isOsgemm_reached
  have paced := double_paced (isOsgemm 1 1 1 1) _ _ c reached
  have behind : c.second.pc.Behind := by rw [at1]; trivial
  have osAll := paced.issued .os
  have isAll := paced.issued .is
  rw [paced.complete behind] at osAll isAll
  exact ⟨⟨c,osAll,isAll,(paced.same (by rw [at0]; trivial) behind).1⟩,double_paced _ _ _ _ .refl⟩

end PacedParams

end Snax
