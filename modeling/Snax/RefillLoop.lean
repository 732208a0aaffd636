import Snax.Sync.Cores
import Snax.Sync.SlotRing

/-! `sw/apps/main-tiled-oscore/src/main.c`: the ring of `oscore_in` that the two cores refill while the
kernel computes. Core 0 polls the gauges and releases the delayed readers, the DM core issues the
transfers, the accelerator visits the slots. -/
namespace Snax

open Sync (Cores Holds)

/-- The constants of the loop. A kernel call enables a delayed reader by giving its start count. -/
structure RefillParams where
  nbSlots : Nat
  nbLTiles : Nat
  kI : Nat
  gaugeStep : Nat
  positive : 0 < gaugeStep
  r10StartCnt : Nat → Option Nat
  r11StartCnt : Nat → Option Nat

/-- `N_visits`. -/
def RefillParams.nVisits (p : RefillParams) : Nat := p.kI * p.nbLTiles

/-! ### Kernel, ring and DMA -/

/-- The L-tile in each slot, none while a transfer may be writing it. Visits and transfers are counted
over all calls, the gauges and the writes to the release registers in the current one. -/
structure Kernel where
  slots : Nat → Option Nat
  pending : List (Nat × Nat)
  completed : Nat
  started : Nat
  running : Bool
  begun : Nat
  ended : Nat
  r10Gauge : Nat
  r11Gauge : Nat
  r10Releases : Nat
  r11Releases : Nat

namespace Kernel

/-- The number of refills so far. -/
def issued (k : Kernel) : Nat := k.completed + k.pending.length

def start (k : Kernel) : Kernel :=
  { k with started := k.started + 1, running := true, r10Gauge := 0, r11Gauge := 0, r10Releases := 0
           r11Releases := 0 }

/-- `snrt_dma_start_1d` of an L-tile into a slot. -/
def dmaStart (k : Kernel) (slot tile : Nat) : Kernel :=
  { k with slots := Function.update k.slots slot none, pending := k.pending ++ [(slot,tile)] }

/-- What happens beside the cores. A visit starts once its slot has been refilled, a count of R10 shows
that visits are over, transfers complete in order. -/
inductive Beside (p : RefillParams) (k : Kernel) : Kernel → Prop
  | begin (turn : k.begun = k.ended) (left : k.begun < k.started * p.nVisits)
      (filled : k.begun < k.completed + p.nbSlots) : Beside p k { k with begun := k.begun + 1 }
  | finish (visiting : k.begun = k.ended + 1) : Beside p k { k with ended := k.ended + 1 }
  | count10 {g : Nat} (grows : k.r10Gauge ≤ g)
      (shows : ∀ r, (r + 1) * p.gaugeStep ≤ g → (k.started - 1) * p.nVisits + r < k.ended) :
      Beside p k { k with r10Gauge := g }
  | count11 {g : Nat} (grows : k.r11Gauge ≤ g) : Beside p k { k with r11Gauge := g }
  | transfer {slot tile : Nat} {rest : List (Nat × Nat)} (oldest : k.pending = (slot,tile) :: rest) :
      Beside p k { k with
        slots := Function.update k.slots slot (some tile), pending := rest, completed := k.completed + 1 }
  | stop (finished : k.ended = k.started * p.nVisits) : Beside p k { k with running := false }

end Kernel

/-! ### The cores -/

/-- Where core 0 is in a call: before the start, in the loop, at the barriers and polls behind it. -/
inductive PollPc where
  | start
  | poll (r : Nat)
  | release10 (r : Nat)
  | release11 (r : Nat)
  | handover (r : Nat)
  | drained
  | fallback10
  | fallback11
  | busy
  | between
deriving DecidableEq

structure PollCore where
  pc : PollPc
  call : Nat
  r10Released : Bool
  r11Released : Bool

inductive RefillPc where
  | handover (r : Nat)
  | refill (r : Nat)
  | waitAll
  | drained
  | between

structure RefillCore where
  pc : RefillPc
  call : Nat

namespace RefillParams

variable (p : RefillParams)

/-- The head of the loop on either core. -/
def pollHead (r : Nat) : PollPc := if r < p.nVisits then .poll r else .drained
def refillHead (r : Nat) : RefillPc := if r < p.nVisits then .handover r else .waitAll

/-- `write_csr(DELAYED_START_READER_10, 1)`, then on to `next`. -/
def released10 (c : PollCore) (k : Kernel) (next : PollPc) : PollCore × Kernel :=
  ({ c with pc := next, r10Released := true },{ k with r10Releases := k.r10Releases + 1 })

def released11 (c : PollCore) (k : Kernel) (next : PollPc) : PollCore × Kernel :=
  ({ c with pc := next, r11Released := true },{ k with r11Releases := k.r11Releases + 1 })

/-- Core 0: the start of the kernel, `oscore_in_refill_loop`, and the wait for the end of the kernel. -/
def pollStep (c : PollCore) (k : Kernel) : Option (PollCore × Kernel) :=
  match c.pc with
  | .start => some ({ c with pc := p.pollHead 0, r10Released := false, r11Released := false },k.start)
  | .poll r => some (if k.r10Gauge < (r + 1) * p.gaugeStep then c else { c with pc := .release10 r },k)
  | .release10 r => match p.r10StartCnt c.call with
    | some cnt =>
      if !c.r10Released && decide (cnt ≤ (r + 1) * p.gaugeStep) then some (released10 c k (.release11 r))
      else some ({ c with pc := .release11 r },k)
    | none => some ({ c with pc := .release11 r },k)
  | .release11 r => match p.r11StartCnt c.call with
    | some cnt =>
      if !c.r11Released && decide (cnt ≤ k.r11Gauge) then some (released11 c k (.handover r))
      else some ({ c with pc := .handover r },k)
    | none => some ({ c with pc := .handover r },k)
  | .fallback10 => match p.r10StartCnt c.call with
    | some cnt =>
      if c.r10Released then some ({ c with pc := .fallback11 },k)
      else if k.r10Gauge < cnt then some (c,k) else some (released10 c k .fallback11)
    | none => some ({ c with pc := .fallback11 },k)
  | .fallback11 => match p.r11StartCnt c.call with
    | some cnt =>
      if c.r11Released then some ({ c with pc := .busy },k)
      else if k.r11Gauge < cnt then some (c,k) else some (released11 c k .busy)
    | none => some ({ c with pc := .busy },k)
  | .busy => some (if k.running then c else { c with pc := .between },k)
  | .handover _ | .drained | .between => none

/-- The DM core: refill `r` once core 0 has handed it over, and `snrt_dma_wait_all` behind the loop. -/
def refillStep (c : RefillCore) (k : Kernel) : Option (RefillCore × Kernel) :=
  match c.pc with
  | .refill r =>
    some ({ c with pc := p.refillHead (r + 1) },
      k.dmaStart (r % p.nbSlots) ((r + p.nbSlots) % p.nbLTiles))
  | .waitAll => some (if k.pending.isEmpty then { c with pc := .drained } else c,k)
  | .handover _ | .drained | .between => none

/-- `snrt_cluster_hw_barrier`. -/
def pollMeets (c : PollCore) : Option PollCore :=
  match c.pc with
  | .handover r => some { c with pc := p.pollHead (r + 1) }
  | .drained => some { c with pc := .fallback10 }
  | .between => some { c with pc := .start, call := c.call + 1 }
  | _ => none

def refillMeets (c : RefillCore) : Option RefillCore :=
  match c.pc with
  | .handover r => some { c with pc := .refill r }
  | .drained => some { c with pc := .between }
  | .between => some { pc := p.refillHead 0, call := c.call + 1 }
  | _ => none

/-- Kernel calls with `oscore_in_refill_loop`, one after the other. -/
def cores : Cores PollCore RefillCore Kernel where
  first := p.pollStep
  second := p.refillStep
  firstMeets := p.pollMeets
  secondMeets := p.refillMeets
  beside := Kernel.Beside p

/-- After the preload of the first L-tiles. -/
def preloaded : Cores.Config PollCore RefillCore Kernel where
  first := ⟨.start,0,false,false⟩
  second := ⟨p.refillHead 0,0⟩
  shared :=
    { slots := fun s => if s < p.nbSlots then some s else none
      pending := []
      completed := 0
      started := 0
      running := false
      begun := 0
      ended := 0
      r10Gauge := 0
      r11Gauge := 0
      r10Releases := 0
      r11Releases := 0 }

/-! ### The invariant -/

/-- The barriers that core 0 has passed in its call, the gauge it has seen, its loop index. -/
def pollPassed : PollPc → Nat
  | .start => 0
  | .poll r | .release10 r | .release11 r | .handover r => r
  | .drained => p.nVisits
  | .fallback10 | .fallback11 | .busy | .between => p.nVisits + 1

def polled : PollPc → Nat
  | .start => 0
  | .poll r => r
  | .release10 r | .release11 r | .handover r => r + 1
  | .drained | .fallback10 | .fallback11 | .busy | .between => p.nVisits

def PollInside : PollPc → Prop
  | .poll r | .release10 r | .release11 r | .handover r => r < p.nVisits
  | _ => True

/-- The barriers that the DM core has passed in its call, its refills, its loop index. -/
def refillPassed : RefillPc → Nat
  | .handover r => r
  | .refill r => r + 1
  | .waitAll | .drained => p.nVisits
  | .between => p.nVisits + 1

def refilled : RefillPc → Nat
  | .handover r | .refill r => r
  | .waitAll | .drained | .between => p.nVisits

def RefillInside : RefillPc → Prop
  | .handover r | .refill r => r < p.nVisits
  | _ => True

/-- The ring holds the tiles of the coming visits, the queue the refills that are not complete, and the
cores have passed the same barriers. -/
structure Sound (c0 : PollCore) (c1 : RefillCore) (k : Kernel) : Prop where
  holds : Holds p.nbSlots (fun v => some (v % p.nbLTiles)) k.issued (k.completed + p.nbSlots) k.slots
  queue : k.pending = (List.range' k.completed k.pending.length).map
    fun v => (v % p.nbSlots,(v + p.nbSlots) % p.nbLTiles)
  turns : k.ended ≤ k.begun ∧ k.begun ≤ k.ended + 1 ∧ k.begun ≤ k.completed + p.nbSlots
  left : k.begun ≤ k.started * p.nVisits
  behind : k.issued ≤ k.ended
  shows : ∀ r, (r + 1) * p.gaugeStep ≤ k.r10Gauge → (k.started - 1) * p.nVisits + r < k.ended
  idle : k.running = false → k.ended = k.started * p.nVisits
  call : c1.call = c0.call
  passed : p.refillPassed c1.pc = p.pollPassed c0.pc
  pollInside : p.PollInside c0.pc
  refillInside : p.RefillInside c1.pc
  started : k.started = if c0.pc = .start then c0.call else c0.call + 1
  polled : p.polled c0.pc * p.gaugeStep ≤ k.r10Gauge
  refilled : k.issued = c1.call * p.nVisits + p.refilled c1.pc
  empty : c1.pc = .drained ∨ c1.pc = .between → k.pending = []
  stopped : c0.pc = .start ∨ c0.pc = .between → k.running = false

variable {p} {c0 c0' : PollCore} {c1 c1' : RefillCore} {k k' : Kernel}

theorem pollPassed_pollHead (r : Nat) (inside : r ≤ p.nVisits) : p.pollPassed (p.pollHead r) = r := by
  unfold pollHead
  split
  · rfl
  · rename_i beyond
    exact Nat.le_antisymm (Nat.not_lt.mp beyond) inside

theorem polled_pollHead (r : Nat) (inside : r ≤ p.nVisits) : p.polled (p.pollHead r) = r := by
  unfold pollHead
  split
  · rfl
  · rename_i beyond
    exact Nat.le_antisymm (Nat.not_lt.mp beyond) inside

theorem pollInside_pollHead (r : Nat) : p.PollInside (p.pollHead r) := by
  unfold pollHead
  split
  · assumption
  · trivial

theorem pollHead_ne (r : Nat) : p.pollHead r ≠ .start ∧ p.pollHead r ≠ .between := by
  unfold pollHead
  split
  · exact ⟨PollPc.noConfusion,PollPc.noConfusion⟩
  · exact ⟨PollPc.noConfusion,PollPc.noConfusion⟩

theorem refillPassed_refillHead (r : Nat) (inside : r ≤ p.nVisits) :
    p.refillPassed (p.refillHead r) = r := by
  unfold refillHead
  split
  · rfl
  · rename_i beyond
    exact Nat.le_antisymm (Nat.not_lt.mp beyond) inside

theorem refilled_refillHead (r : Nat) (inside : r ≤ p.nVisits) : p.refilled (p.refillHead r) = r := by
  unfold refillHead
  split
  · rfl
  · rename_i beyond
    exact Nat.le_antisymm (Nat.not_lt.mp beyond) inside

theorem refillInside_refillHead (r : Nat) : p.RefillInside (p.refillHead r) := by
  unfold refillHead
  split
  · assumption
  · trivial

theorem refillHead_ne (r : Nat) : p.refillHead r ≠ .drained ∧ p.refillHead r ≠ .between := by
  unfold refillHead
  split
  · exact ⟨RefillPc.noConfusion,RefillPc.noConfusion⟩
  · exact ⟨RefillPc.noConfusion,RefillPc.noConfusion⟩

/-- The ring is not longer than a K-step; without tiles there are no visits. -/
theorem slot_mod (divides : p.nbSlots ∣ p.nbLTiles) {s : Nat} (inside : s < p.nbSlots) :
    s % p.nbLTiles = s := by
  rcases Nat.eq_zero_or_pos p.nbLTiles with none | some
  · rw [none,Nat.mod_zero]
  · exact Nat.mod_eq_of_lt (Nat.lt_of_lt_of_le inside (Nat.le_of_dvd some divides))

theorem sound_preloaded (divides : p.nbSlots ∣ p.nbLTiles) :
    Sound p p.preloaded.first p.preloaded.second p.preloaded.shared where
  holds := by
    change Holds p.nbSlots (fun v => some (v % p.nbLTiles)) 0 (0 + p.nbSlots) fun s => if s < p.nbSlots then some s else none
    rw [Nat.zero_add]
    refine Sync.holds_preload fun s inside => ?_
    rw [if_pos inside,slot_mod divides inside]
  queue := rfl
  turns := ⟨Nat.le_refl _,Nat.zero_le _,Nat.zero_le _⟩
  left := Nat.zero_le _
  behind := Nat.le_refl _
  shows := fun r gauge => absurd gauge (Nat.not_le_of_lt (Nat.mul_pos (Nat.succ_pos r) p.positive))
  idle := fun _ => (Nat.zero_mul _).symm
  call := rfl
  passed := refillPassed_refillHead 0 (Nat.zero_le _)
  pollInside := trivial
  refillInside := refillInside_refillHead 0
  started := rfl
  polled := (Nat.zero_mul _).le
  refilled := by
    rw [preloaded,refilled_refillHead 0 (Nat.zero_le _)]
    exact (Nat.zero_mul _).symm
  empty := fun _ => rfl
  stopped := fun _ => rfl

/-- What core 0 does between the start of a call and its end. -/
theorem Sound.poll (sound : Sound p c0 c1 k) (call : c0'.call = c0.call)
    (going : c0.pc ≠ .start ∧ c0'.pc ≠ .start) (passed : p.pollPassed c0'.pc = p.pollPassed c0.pc)
    (polled : p.polled c0'.pc * p.gaugeStep ≤ k.r10Gauge) (inside : p.PollInside c0'.pc)
    (stopped : c0'.pc = .between → k.running = false)
    (same : k' = { k with r10Releases := k'.r10Releases, r11Releases := k'.r11Releases }) :
    Sound p c0' c1 k' := by
  have started : k.started = if c0'.pc = .start then c0'.call else c0'.call + 1 := by
    have before := sound.started
    rw [if_neg going.1] at before
    rw [if_neg going.2,call,before]
  rw [same]
  exact { sound with
    call := sound.call.trans call.symm
    passed := sound.passed.trans passed.symm
    pollInside := inside
    started := started
    polled := polled
    stopped := fun ended => ended.elim (fun start => absurd start going.2) stopped }

/-- The steps of core 0. -/
inductive PollMove (p : RefillParams) (c : PollCore) (k : Kernel) : PollCore → Kernel → Prop
  | start (here : c.pc = .start) :
      PollMove p c k { c with pc := p.pollHead 0, r10Released := false, r11Released := false } k.start
  | wait : PollMove p c k c k
  | shown {r : Nat} (here : c.pc = .poll r) (reached : (r + 1) * p.gaugeStep ≤ k.r10Gauge) :
      PollMove p c k { c with pc := .release10 r } k
  | keep10 {r : Nat} (here : c.pc = .release10 r) : PollMove p c k { c with pc := .release11 r } k
  | release10 {r cnt : Nat} (here : c.pc = .release10 r) (enabled : p.r10StartCnt c.call = some cnt)
      (held : c.r10Released = false) (reached : cnt ≤ (r + 1) * p.gaugeStep) :
      PollMove p c k { c with pc := .release11 r, r10Released := true }
        { k with r10Releases := k.r10Releases + 1 }
  | keep11 {r : Nat} (here : c.pc = .release11 r) : PollMove p c k { c with pc := .handover r } k
  | release11 {r cnt : Nat} (here : c.pc = .release11 r) (enabled : p.r11StartCnt c.call = some cnt)
      (held : c.r11Released = false) (reached : cnt ≤ k.r11Gauge) :
      PollMove p c k { c with pc := .handover r, r11Released := true }
        { k with r11Releases := k.r11Releases + 1 }
  | settled10 (here : c.pc = .fallback10) (settled : c.r10Released = true ∨ p.r10StartCnt c.call = none) :
      PollMove p c k { c with pc := .fallback11 } k
  | fallback10 {cnt : Nat} (here : c.pc = .fallback10) (enabled : p.r10StartCnt c.call = some cnt)
      (held : c.r10Released = false) (reached : cnt ≤ k.r10Gauge) :
      PollMove p c k { c with pc := .fallback11, r10Released := true }
        { k with r10Releases := k.r10Releases + 1 }
  | settled11 (here : c.pc = .fallback11) (settled : c.r11Released = true ∨ p.r11StartCnt c.call = none) :
      PollMove p c k { c with pc := .busy } k
  | fallback11 {cnt : Nat} (here : c.pc = .fallback11) (enabled : p.r11StartCnt c.call = some cnt)
      (held : c.r11Released = false) (reached : cnt ≤ k.r11Gauge) :
      PollMove p c k { c with pc := .busy, r11Released := true }
        { k with r11Releases := k.r11Releases + 1 }
  | ends (here : c.pc = .busy) (idle : k.running = false) : PollMove p c k { c with pc := .between } k

theorem pollStep_cases (moves : p.pollStep c0 k = some (c0',k')) : PollMove p c0 k c0' k' := by
  unfold pollStep at moves
  split at moves
  case h_1 here =>
    cases moves
    exact .start here
  case h_2 r here =>
    split at moves <;> cases moves
    · exact .wait
    · exact .shown here (by omega)
  case h_3 r here =>
    split at moves
    · rename_i cnt enabled
      split at moves <;> cases moves
      · rename_i due
        simp only [Bool.and_eq_true,Bool.not_eq_true',decide_eq_true_eq] at due
        exact .release10 here enabled due.1 due.2
      · exact .keep10 here
    · cases moves
      exact .keep10 here
  case h_4 r here =>
    split at moves
    · rename_i cnt enabled
      split at moves <;> cases moves
      · rename_i due
        simp only [Bool.and_eq_true,Bool.not_eq_true',decide_eq_true_eq] at due
        exact .release11 here enabled due.1 due.2
      · exact .keep11 here
    · cases moves
      exact .keep11 here
  case h_5 here =>
    split at moves
    · rename_i cnt enabled
      split at moves
      · cases moves
        exact .settled10 here (.inl ‹_›)
      · rename_i held
        split at moves <;> cases moves
        · exact .wait
        · exact .fallback10 here enabled (by simpa using held) (by omega)
    · cases moves
      exact .settled10 here (.inr ‹_›)
  case h_6 here =>
    split at moves
    · rename_i cnt enabled
      split at moves
      · cases moves
        exact .settled11 here (.inl ‹_›)
      · rename_i held
        split at moves <;> cases moves
        · exact .wait
        · exact .fallback11 here enabled (by simpa using held) (by omega)
    · cases moves
      exact .settled11 here (.inr ‹_›)
  case h_7 here =>
    split at moves <;> cases moves
    · exact .wait
    · exact .ends here (by simpa using ‹¬k.running = true›)
  all_goals cases moves

theorem polled_of_passed (pc : PollPc) {r : Nat} (inside : r < p.nVisits)
    (passed : r < p.pollPassed pc) : r + 1 ≤ p.polled pc ∧ pc ≠ .start := by
  cases pc with
  | start => exact absurd passed (Nat.not_lt_zero r)
  | poll => exact ⟨passed,PollPc.noConfusion⟩
  | release10 | release11 | handover => exact ⟨Nat.le_succ_of_le passed,PollPc.noConfusion⟩
  | drained | fallback10 | fallback11 | busy | between => exact ⟨inside,PollPc.noConfusion⟩

/-- Core 0 has seen a visit end before the DM core refills its slot. -/
theorem Sound.handed (sound : Sound p c0 c1 k) {r : Nat} (here : c1.pc = .refill r) :
    (r + 1) * p.gaugeStep ≤ k.r10Gauge ∧ c1.call * p.nVisits + r < k.ended := by
  have inside : p.RefillInside c1.pc := sound.refillInside
  have passed : p.refillPassed c1.pc = p.pollPassed c0.pc := sound.passed
  rw [here] at inside passed
  have ⟨seen,going⟩ := p.polled_of_passed c0.pc inside (Nat.lt_of_succ_le passed.le)
  have gauge : (r + 1) * p.gaugeStep ≤ k.r10Gauge :=
    (Nat.mul_le_mul_right _ seen).trans sound.polled
  refine ⟨gauge,?_⟩
  have ended := sound.shows r gauge
  rwa [sound.started,if_neg going,Nat.add_sub_cancel,← sound.call] at ended

theorem Sound.start (sound : Sound p c0 c1 k) (here : c0.pc = .start) :
    Sound p { c0 with pc := p.pollHead 0, r10Released := false, r11Released := false } c1 k.start := by
  have started := sound.started
  have passed := sound.passed
  rw [here] at started passed
  exact { sound with
    left := sound.left.trans (Nat.mul_le_mul_right _ (Nat.le_succ _))
    shows := fun r gauge => absurd gauge (Nat.not_le_of_lt (Nat.mul_pos (Nat.succ_pos r) p.positive))
    idle := Bool.noConfusion
    passed := passed.trans (p.pollPassed_pollHead 0 (Nat.zero_le _)).symm
    pollInside := p.pollInside_pollHead 0
    started := by
      rw [if_neg (p.pollHead_ne 0).1]
      exact congrArg Nat.succ started
    polled := by
      rw [p.polled_pollHead 0 (Nat.zero_le _)]
      exact (Nat.zero_mul _).le
    stopped := fun ended => ended.elim (absurd · (p.pollHead_ne 0).1) (absurd · (p.pollHead_ne 0).2) }

theorem Sound.pollStep (sound : Sound p c0 c1 k) (moves : p.pollStep c0 k = some (c0',k')) :
    Sound p c0' c1 k' := by
  have inside := sound.pollInside
  have seen := sound.polled
  cases pollStep_cases moves with
  | start here => exact sound.start here
  | wait => exact sound
  | shown here reached =>
    rw [here] at inside
    exact sound.poll rfl (by rw [here]; exact ⟨PollPc.noConfusion,PollPc.noConfusion⟩) (by rw [here]; rfl)
      reached inside PollPc.noConfusion rfl
  | keep10 here | release10 here | keep11 here | release11 here =>
    rw [here] at inside seen
    exact sound.poll rfl (by rw [here]; exact ⟨PollPc.noConfusion,PollPc.noConfusion⟩) (by rw [here]; rfl)
      seen inside PollPc.noConfusion rfl
  | settled10 here | fallback10 here | settled11 here | fallback11 here =>
    rw [here] at seen
    exact sound.poll rfl (by rw [here]; exact ⟨PollPc.noConfusion,PollPc.noConfusion⟩) (by rw [here]; rfl)
      seen trivial PollPc.noConfusion rfl
  | ends here idle =>
    rw [here] at seen
    exact sound.poll rfl (by rw [here]; exact ⟨PollPc.noConfusion,PollPc.noConfusion⟩) (by rw [here]; rfl)
      seen trivial (fun _ => idle) rfl

/-- The ring has the tiles of a call at the same slots in every call. -/
theorem visit_mod (divides : p.nbSlots ∣ p.nbLTiles) (call r : Nat) :
    (call * p.nVisits + r) % p.nbLTiles = r % p.nbLTiles ∧
      (call * p.nVisits + r) % p.nbSlots = r % p.nbSlots := by
  have whole : p.nbLTiles ∣ call * p.nVisits := Nat.dvd_mul_left_of_dvd (Nat.dvd_mul_left _ _) _
  constructor
  · rw [Nat.add_mod,Nat.mod_eq_zero_of_dvd whole,Nat.zero_add,Nat.mod_mod]
  · rw [Nat.add_mod,Nat.mod_eq_zero_of_dvd (divides.trans whole),Nat.zero_add,Nat.mod_mod]

theorem Sound.refill (divides : p.nbSlots ∣ p.nbLTiles) (sound : Sound p c0 c1 k) {r : Nat}
    (here : c1.pc = .refill r) :
    Sound p c0 { c1 with pc := p.refillHead (r + 1) }
      (k.dmaStart (r % p.nbSlots) ((r + p.nbSlots) % p.nbLTiles)) := by
  have ended := (sound.handed here).2
  have inside := sound.refillInside
  have passed := sound.passed
  have refilled := sound.refilled
  rw [here] at inside passed refilled
  have slot : r % p.nbSlots = k.issued % p.nbSlots := by
    rw [refilled]
    exact (visit_mod divides c1.call r).2.symm
  have tile : (r + p.nbSlots) % p.nbLTiles = (k.issued + p.nbSlots) % p.nbLTiles := by
    rw [refilled]
    change _ = (c1.call * p.nVisits + r + p.nbSlots) % p.nbLTiles
    rw [Nat.add_assoc,(visit_mod divides c1.call (r + p.nbSlots)).1]
  have next : (k.dmaStart (r % p.nbSlots) ((r + p.nbSlots) % p.nbLTiles)).issued = k.issued + 1 := by
    simp only [Kernel.issued,Kernel.dmaStart,List.length_append,List.length_singleton]
    exact (Nat.add_assoc _ _ _).symm
  exact { sound with
    holds := by
      rw [next]
      change Holds _ _ _ _ (Function.update k.slots (r % p.nbSlots) none)
      rw [slot]
      exact sound.holds.issue (Nat.add_le_add_right (Nat.le_add_right _ _) _)
    queue := by
      change k.pending ++ [_] = (List.range' k.completed (k.pending ++ [_]).length).map _
      rw [List.length_append,List.length_singleton,List.range'_1_concat,List.map_append,← sound.queue]
      rw [slot,tile]
      rfl
    behind := by
      rw [next,refilled]
      exact ended
    passed := (p.refillPassed_refillHead (r + 1) inside).trans passed
    refillInside := p.refillInside_refillHead (r + 1)
    refilled := by
      rw [next,p.refilled_refillHead (r + 1) inside,refilled]
      rfl
    empty := fun drained => drained.elim (absurd · (p.refillHead_ne _).1) (absurd · (p.refillHead_ne _).2) }

theorem Sound.refillStep (divides : p.nbSlots ∣ p.nbLTiles) (sound : Sound p c0 c1 k)
    (moves : p.refillStep c1 k = some (c1',k')) : Sound p c0 c1' k' := by
  unfold RefillParams.refillStep at moves
  split at moves
  case h_1 r here =>
    cases moves
    exact sound.refill divides here
  case h_2 here =>
    have passed := sound.passed
    have refilled := sound.refilled
    rw [here] at passed refilled
    split at moves <;> cases moves
    · rename_i none
      exact { sound with
        passed := passed
        refillInside := trivial
        refilled := refilled
        empty := fun _ => List.isEmpty_iff.mp none }
    · exact sound
  all_goals cases moves

/-- The barriers at which the cores meet. -/
inductive Met (p : RefillParams) (c0 : PollCore) (c1 : RefillCore) : PollCore → RefillCore → Prop
  | handover {r : Nat} (here : c0.pc = .handover r) (there : c1.pc = .handover r) :
      Met p c0 c1 { c0 with pc := p.pollHead (r + 1) } { c1 with pc := .refill r }
  | drained (here : c0.pc = .drained) (there : c1.pc = .drained) :
      Met p c0 c1 { c0 with pc := .fallback10 } { c1 with pc := .between }
  | between (here : c0.pc = .between) (there : c1.pc = .between) :
      Met p c0 c1 { c0 with pc := .start, call := c0.call + 1 } { pc := p.refillHead 0, call := c1.call + 1 }

theorem Sound.met (sound : Sound p c0 c1 k) (here : p.pollMeets c0 = some c0')
    (there : p.refillMeets c1 = some c1') : Met p c0 c1 c0' c1' := by
  have inside0 := sound.pollInside
  have inside1 := sound.refillInside
  have passed := sound.passed
  unfold pollMeets at here
  unfold refillMeets at there
  split at here
  case h_1 r at0 =>
    rw [at0] at inside0 passed
    split at there
    case h_1 r' at1 =>
      rw [at1] at passed
      obtain rfl : r' = r := passed
      cases here
      cases there
      exact .handover at0 at1
    case h_2 at1 =>
      rw [at1] at passed
      exact absurd passed (Nat.ne_of_gt inside0)
    case h_3 at1 =>
      rw [at1] at passed
      exact absurd passed (Nat.ne_of_gt (Nat.lt_succ_of_lt inside0))
    case h_4 => cases there
  case h_2 at0 =>
    rw [at0] at passed
    split at there
    case h_1 r' at1 =>
      rw [at1] at inside1 passed
      exact absurd passed (Nat.ne_of_lt inside1)
    case h_2 at1 =>
      cases here
      cases there
      exact .drained at0 at1
    case h_3 at1 =>
      rw [at1] at passed
      exact absurd passed (Nat.succ_ne_self _)
    case h_4 => cases there
  case h_3 at0 =>
    rw [at0] at passed
    split at there
    case h_1 r' at1 =>
      rw [at1] at inside1 passed
      exact absurd passed (Nat.ne_of_lt (Nat.lt_succ_of_lt inside1))
    case h_2 at1 =>
      rw [at1] at passed
      exact absurd passed.symm (Nat.succ_ne_self _)
    case h_3 at1 =>
      cases here
      cases there
      exact .between at0 at1
    case h_4 => cases there
  case h_4 => cases here

theorem Sound.meet (sound : Sound p c0 c1 k) (met : Met p c0 c1 c0' c1') : Sound p c0' c1' k := by
  have inside := sound.pollInside
  have started := sound.started
  have seen := sound.polled
  have refilled := sound.refilled
  have empty := sound.empty
  have stopped := sound.stopped
  cases met with
  | @handover r here there =>
    rw [here] at inside started seen
    rw [there] at refilled
    exact { sound with
      passed := (p.pollPassed_pollHead (r + 1) inside).symm
      pollInside := p.pollInside_pollHead (r + 1)
      refillInside := inside
      started := by rw [started,if_neg PollPc.noConfusion,if_neg (p.pollHead_ne (r + 1)).1]
      polled := by rwa [p.polled_pollHead (r + 1) inside]
      refilled := refilled
      empty := fun drained => drained.elim RefillPc.noConfusion RefillPc.noConfusion
      stopped := fun ends => ends.elim (absurd · (p.pollHead_ne _).1) (absurd · (p.pollHead_ne _).2) }
  | drained here there =>
    rw [here] at started seen
    rw [there] at refilled empty
    exact { sound with
      passed := rfl
      pollInside := trivial
      refillInside := trivial
      started := started
      polled := seen
      refilled := refilled
      empty := fun _ => empty (.inl rfl)
      stopped := fun ends => ends.elim PollPc.noConfusion PollPc.noConfusion }
  | between here there =>
    rw [here] at started stopped
    rw [there] at refilled
    exact { sound with
      call := congrArg Nat.succ sound.call
      passed := p.refillPassed_refillHead 0 (Nat.zero_le _)
      pollInside := trivial
      refillInside := p.refillInside_refillHead 0
      started := started
      polled := (Nat.zero_mul _).le.trans (Nat.zero_le _)
      refilled := by
        rw [refilled,p.refilled_refillHead 0 (Nat.zero_le _)]
        exact (Nat.succ_mul _ _).symm
      empty := fun drained => drained.elim (absurd · (p.refillHead_ne _).1) (absurd · (p.refillHead_ne _).2)
      stopped := fun _ => stopped (.inr rfl) }

theorem Sound.beside (sound : Sound p c0 c1 k) (changes : Kernel.Beside p k k') : Sound p c0 c1 k' := by
  have ⟨behind,ahead,filled⟩ := sound.turns
  cases changes with
  | begin turn left filled =>
    exact { sound with
      turns := ⟨Nat.le_succ_of_le behind,turn ▸ Nat.le_refl _,filled⟩
      left := left }
  | finish visiting =>
    have before := sound.left
    exact { sound with
      turns := ⟨visiting ▸ Nat.le_refl _,visiting ▸ Nat.le_succ _,filled⟩
      behind := Nat.le_succ_of_le sound.behind
      shows := fun r gauge => Nat.lt_succ_of_lt (sound.shows r gauge)
      idle := fun idle => by
        have := sound.idle idle
        omega }
  | count10 grows shows => exact { sound with shows := shows, polled := sound.polled.trans grows }
  | count11 => exact { sound with }
  | @transfer slot tile rest oldest =>
    have queue := sound.queue
    have same : k.issued = k.completed + 1 + rest.length := by
      rw [Kernel.issued,oldest,List.length_cons,Nat.add_right_comm,Nat.add_assoc]
    rw [oldest,List.length_cons,List.range'_succ,List.map_cons,List.cons.injEq,Prod.mk.injEq] at queue
    obtain ⟨⟨rfl,rfl⟩,queue⟩ := queue
    have refilled := sound.refilled
    have ended := sound.behind
    rw [same] at refilled ended
    exact { sound with
      holds := by
        change Holds _ _ (k.completed + 1 + rest.length) _ _
        rw [← same]
        exact sound.holds.fill (same ▸ Nat.le_add_right _ _)
      queue := queue
      turns := ⟨behind,ahead,filled.trans (Nat.add_le_add_right (Nat.le_succ _) _)⟩
      behind := ended
      refilled := refilled
      empty := fun drained => absurd (sound.empty drained) (oldest ▸ List.cons_ne_nil _ _) }
  | stop finished => exact { sound with idle := fun _ => finished, stopped := fun _ => rfl }

/-! ### The releases -/

/-- A delayed reader in the current call. Behind its fallback it has been released if it is enabled. -/
structure Released (pc : PollPc) (behind : List PollPc) (startCnt : Option Nat) (released : Bool)
    (releases : Nat) : Prop where
  once : releases = released.toNat
  only : pc ≠ .start → released = true → startCnt.isSome = true
  all : pc ∈ behind → released = startCnt.isSome

def R10 (p : RefillParams) (c : PollCore) (k : Kernel) : Prop :=
  Released c.pc [.fallback11,.busy,.between] (p.r10StartCnt c.call) c.r10Released k.r10Releases

def R11 (p : RefillParams) (c : PollCore) (k : Kernel) : Prop :=
  Released c.pc [.busy,.between] (p.r11StartCnt c.call) c.r11Released k.r11Releases

section Released

variable {pc pc' : PollPc} {behind : List PollPc} {startCnt : Option Nat} {released : Bool} {releases : Nat}

theorem Released.move (kept : Released pc behind startCnt released releases) (going : pc ≠ .start)
    (all : pc' ∈ behind → released = startCnt.isSome) : Released pc' behind startCnt released releases where
  once := kept.once
  only := fun _ => kept.only going
  all := all

theorem Released.fire {cnt : Nat} (kept : Released pc behind startCnt released releases)
    (held : released = false) (enabled : startCnt = some cnt) :
    Released pc' behind startCnt true (releases + 1) where
  once := congrArg Nat.succ (kept.once.trans (congrArg Bool.toNat held))
  only := fun _ _ => enabled ▸ rfl
  all := fun _ => enabled ▸ rfl

/-- Behind the fallback nothing is left to release. -/
theorem Released.settle (kept : Released pc behind startCnt released releases) (going : pc ≠ .start)
    (settled : released = true ∨ startCnt = none) : Released pc' behind startCnt released releases := by
  refine kept.move going fun _ => ?_
  rcases settled with yes | none
  · rw [yes,kept.only going yes]
  · subst none
    cases released with
    | true => exact absurd (kept.only going rfl) Bool.noConfusion
    | false => rfl

theorem Released.le_one (kept : Released pc behind startCnt released releases) : releases ≤ 1 :=
  kept.once ▸ Bool.toNat_le released

end Released

theorem pollHead_not_mem {behind : List PollPc} (late : ∀ pc ∈ behind, p.pollPassed pc = p.nVisits + 1)
    (r : Nat) (inside : r ≤ p.nVisits) : p.pollHead r ∉ behind := by
  intro among
  have := late _ among
  rw [p.pollPassed_pollHead r inside] at this
  exact absurd (this ▸ inside) (Nat.not_succ_le_self _)

theorem R10.pollStep (kept : R10 p c0 k) (moves : p.pollStep c0 k = some (c0',k')) : R10 p c0' k' := by
  cases pollStep_cases moves with
  | start =>
    refine ⟨rfl,fun _ => Bool.noConfusion,fun among => absurd among ?_⟩
    exact pollHead_not_mem (by simp [pollPassed]) 0 (Nat.zero_le _)
  | wait => exact kept
  | shown here | keep10 here | keep11 here | release11 here =>
    exact kept.move (by rw [here]; exact PollPc.noConfusion) (by simp)
  | release10 here enabled held | fallback10 here enabled held => exact kept.fire held enabled
  | settled10 here settled => exact kept.settle (by rw [here]; exact PollPc.noConfusion) settled
  | settled11 here | fallback11 here | ends here =>
    exact kept.move (by rw [here]; exact PollPc.noConfusion) fun _ => kept.all (by simp [here])

theorem R11.pollStep (kept : R11 p c0 k) (moves : p.pollStep c0 k = some (c0',k')) : R11 p c0' k' := by
  cases pollStep_cases moves with
  | start =>
    refine ⟨rfl,fun _ => Bool.noConfusion,fun among => absurd among ?_⟩
    exact pollHead_not_mem (by simp [pollPassed]) 0 (Nat.zero_le _)
  | wait => exact kept
  | shown here | keep10 here | keep11 here | release10 here | settled10 here | fallback10 here =>
    exact kept.move (by rw [here]; exact PollPc.noConfusion) (by simp)
  | release11 here enabled held | fallback11 here enabled held => exact kept.fire held enabled
  | settled11 here settled => exact kept.settle (by rw [here]; exact PollPc.noConfusion) settled
  | ends here => exact kept.move (by rw [here]; exact PollPc.noConfusion) fun _ => kept.all (by simp [here])

/-- At a barrier no reader is released. -/
theorem Met.released {behind : List PollPc} {startCnt : Nat → Option Nat} {released : Bool} {releases : Nat}
    (met : Met p c0 c1 c0' c1') (late : ∀ pc ∈ behind, p.pollPassed pc = p.nVisits + 1)
    (first : PollPc.fallback10 ∉ behind) (inside : p.PollInside c0.pc)
    (kept : Released c0.pc behind (startCnt c0.call) released releases) :
    Released c0'.pc behind (startCnt c0'.call) released releases := by
  cases met with
  | handover here =>
    rw [here] at inside
    exact kept.move (by rw [here]; exact PollPc.noConfusion) (absurd · (pollHead_not_mem late _ inside))
  | drained here => exact kept.move (by rw [here]; exact PollPc.noConfusion) (absurd · first)
  | between =>
    refine ⟨kept.once,fun going => absurd rfl going,fun among => ?_⟩
    exact absurd (late _ among) (Nat.succ_ne_zero _).symm

theorem Met.flags (met : Met p c0 c1 c0' c1') :
    c0'.r10Released = c0.r10Released ∧ c0'.r11Released = c0.r11Released := by
  cases met <;> exact ⟨rfl,rfl⟩

theorem R10.meet (kept : R10 p c0 k) (met : Met p c0 c1 c0' c1') (inside : p.PollInside c0.pc) :
    R10 p c0' k := by
  rw [R10,met.flags.1]
  exact met.released (by simp [pollPassed]) (by simp) inside kept

theorem R11.meet (kept : R11 p c0 k) (met : Met p c0 c1 c0' c1') (inside : p.PollInside c0.pc) :
    R11 p c0' k := by
  rw [R11,met.flags.2]
  exact met.released (by simp [pollPassed]) (by simp) inside kept

/-- What releases a reader has seen its gauge at its start count. -/
theorem Sound.reached (sound : Sound p c0 c1 k) (moves : p.pollStep c0 k = some (c0',k')) :
    (k.r10Releases < k'.r10Releases → ∃ cnt, p.r10StartCnt c0.call = some cnt ∧ cnt ≤ k.r10Gauge) ∧
    (k.r11Releases < k'.r11Releases → ∃ cnt, p.r11StartCnt c0.call = some cnt ∧ cnt ≤ k.r11Gauge) := by
  have seen := sound.polled
  cases pollStep_cases moves with
  | start => exact ⟨(absurd · (Nat.not_lt_zero _)),(absurd · (Nat.not_lt_zero _))⟩
  | wait | shown | keep10 | keep11 | settled10 | settled11 | ends =>
    exact ⟨(absurd · (Nat.lt_irrefl _)),(absurd · (Nat.lt_irrefl _))⟩
  | release10 here enabled held reached =>
    rw [here] at seen
    exact ⟨fun _ => ⟨_,enabled,reached.trans seen⟩,(absurd · (Nat.lt_irrefl _))⟩
  | fallback10 here enabled held reached =>
    exact ⟨fun _ => ⟨_,enabled,reached⟩,(absurd · (Nat.lt_irrefl _))⟩
  | release11 here enabled held reached | fallback11 here enabled held reached =>
    exact ⟨(absurd · (Nat.lt_irrefl _)),fun _ => ⟨_,enabled,reached⟩⟩

theorem R10.frame (kept : R10 p c0 k) (same : k'.r10Releases = k.r10Releases) : R10 p c0 k' := by
  rwa [R10,same]

theorem R11.frame (kept : R11 p c0 k) (same : k'.r11Releases = k.r11Releases) : R11 p c0 k' := by
  rwa [R11,same]

/-- Only core 0 releases readers. -/
theorem refillStep_releases (moves : p.refillStep c1 k = some (c1',k')) :
    k'.r10Releases = k.r10Releases ∧ k'.r11Releases = k.r11Releases := by
  unfold RefillParams.refillStep at moves
  split at moves <;> cases moves
  · exact ⟨rfl,rfl⟩
  · exact ⟨rfl,rfl⟩

theorem beside_releases (changes : Kernel.Beside p k k') :
    k'.r10Releases = k.r10Releases ∧ k'.r11Releases = k.r11Releases := by
  cases changes <;> exact ⟨rfl,rfl⟩

/-! ### Runs -/

def Invariant (p : RefillParams) (c0 : PollCore) (c1 : RefillCore) (k : Kernel) : Prop :=
  Sound p c0 c1 k ∧ R10 p c0 k ∧ R11 p c0 k

theorem invariant_reached (divides : p.nbSlots ∣ p.nbLTiles)
    {c : Cores.Config PollCore RefillCore Kernel} (reached : p.cores.Reaches p.preloaded c) :
    Invariant p c.first c.second c.shared := by
  refine Cores.run_rule ?first ?second ?meet ?beside ?start reached
  case first =>
    rintro c0 c1 k c0' k' ⟨sound,r10,r11⟩ moves
    exact ⟨sound.pollStep moves,r10.pollStep moves,r11.pollStep moves⟩
  case second =>
    rintro c0 c1 k c1' k' ⟨sound,r10,r11⟩ moves
    have ⟨same10,same11⟩ := refillStep_releases moves
    exact ⟨sound.refillStep divides moves,r10.frame same10,r11.frame same11⟩
  case meet =>
    rintro c0 c1 k c0' c1' ⟨sound,r10,r11⟩ here there
    have met := sound.met here there
    exact ⟨sound.meet met,r10.meet met sound.pollInside,r11.meet met sound.pollInside⟩
  case beside =>
    rintro c0 c1 k k' ⟨sound,r10,r11⟩ changes
    have ⟨same10,same11⟩ := beside_releases changes
    exact ⟨sound.beside changes,r10.frame same10,r11.frame same11⟩
  case start =>
    exact ⟨sound_preloaded divides,⟨rfl,fun _ => Bool.noConfusion,by simp [preloaded]⟩,
      ⟨rfl,fun _ => Bool.noConfusion,by simp [preloaded]⟩⟩

/-- The tile of a visit is in its slot for as long as the visit lasts. -/
theorem Sound.visited (sound : Sound p c0 c1 k) (divides : p.nbSlots ∣ p.nbLTiles)
    (visiting : k.begun = k.ended + 1) {call r : Nat} (visit : k.ended = call * p.nVisits + r) :
    k.slots (r % p.nbSlots) = some (r % p.nbLTiles) := by
  have ⟨_,_,filled⟩ := sound.turns
  have here := sound.holds k.ended sound.behind (by omega)
  have ⟨tile,slot⟩ := visit_mod divides call r
  rw [visit,slot] at here
  exact here.trans (congrArg some tile)

/-- Between two calls the ring is as it was after the preload. -/
theorem Sound.ring (sound : Sound p c0 c1 k) (divides : p.nbSlots ∣ p.nbLTiles) {calls : Nat}
    (all : k.issued = calls * p.nVisits + 0) (empty : k.pending = []) {s : Nat} (inside : s < p.nbSlots) :
    k.slots s = some s := by
  have done : k.completed = k.issued := by rw [Kernel.issued,empty]; rfl
  have holds := sound.holds
  rw [done] at holds
  have whole : p.nbSlots ∣ k.issued := by
    rw [Nat.dvd_iff_mod_eq_zero,all,(visit_mod divides _ 0).2,Nat.zero_mod]
  rw [holds.turn whole inside,all,Nat.add_assoc,Nat.zero_add,(visit_mod divides _ s).1,
    slot_mod divides inside]

/-- Behind the loop the ring is as it was after the preload. -/
theorem Sound.restored (sound : Sound p c0 c1 k) (divides : p.nbSlots ∣ p.nbLTiles)
    (behind : c1.pc = .drained ∨ c1.pc = .between) {s : Nat} (inside : s < p.nbSlots) :
    k.slots s = some s := by
  have all : k.issued = (c1.call + 1) * p.nVisits + 0 := by
    rw [sound.refilled,Nat.succ_mul]
    rcases behind with here | here <;> rw [here] <;> rfl
  exact sound.ring divides all (sound.empty behind) inside

/-- Every visit sees its tile, no refill comes before the gauge has shown the end of its visit, and each
enabled reader is released once in a call, with its gauge at its start count. -/
theorem refill_schedule (p : RefillParams) (divides : p.nbSlots ∣ p.nbLTiles)
    (c : Cores.Config PollCore RefillCore Kernel) (reached : p.cores.Reaches p.preloaded c) :
    (∀ call r, c.shared.begun = c.shared.ended + 1 → c.shared.ended = call * p.nVisits + r →
      c.shared.slots (r % p.nbSlots) = some (r % p.nbLTiles)) ∧
    (∀ r, c.second.pc = .refill r →
      (r + 1) * p.gaugeStep ≤ c.shared.r10Gauge ∧ c.second.call * p.nVisits + r < c.shared.ended) ∧
    (c.second.pc = .drained ∨ c.second.pc = .between → ∀ s < p.nbSlots, c.shared.slots s = some s) ∧
    (c.shared.r10Releases ≤ 1 ∧ c.shared.r11Releases ≤ 1) ∧
    (c.first.pc = .busy ∨ c.first.pc = .between →
      c.shared.r10Releases = (p.r10StartCnt c.first.call).isSome.toNat ∧
      c.shared.r11Releases = (p.r11StartCnt c.first.call).isSome.toNat) ∧
    ∀ c', p.cores.Step c c' →
      (c.shared.r10Releases < c'.shared.r10Releases →
        ∃ cnt, p.r10StartCnt c.first.call = some cnt ∧ cnt ≤ c.shared.r10Gauge) ∧
      (c.shared.r11Releases < c'.shared.r11Releases →
        ∃ cnt, p.r11StartCnt c.first.call = some cnt ∧ cnt ≤ c.shared.r11Gauge) := by
  have ⟨sound,r10,r11⟩ := invariant_reached divides reached
  refine ⟨fun call r visiting visit => sound.visited divides visiting visit,fun r => sound.handed,
    fun behind s => sound.restored divides behind,⟨r10.le_one,r11.le_one⟩,fun last => ?once,
    fun c' step => ?gauge⟩
  case once =>
    have late : c.first.pc ∈ [PollPc.busy,.between] := by simpa using last
    rw [r10.once,r11.once,r10.all (List.mem_cons_of_mem _ late),r11.all late]
    exact ⟨rfl,rfl⟩
  case gauge =>
    cases step with
    | first moves => exact sound.reached moves
    | second moves =>
      have ⟨same10,same11⟩ := refillStep_releases moves
      exact ⟨fun fired => absurd same10 (Nat.ne_of_gt fired),fun fired => absurd same11 (Nat.ne_of_gt fired)⟩
    | meet => exact ⟨(absurd · (Nat.lt_irrefl _)),(absurd · (Nat.lt_irrefl _))⟩
    | beside changes =>
      have ⟨same10,same11⟩ := beside_releases changes
      exact ⟨fun fired => absurd same10 (Nat.ne_of_gt fired),fun fired => absurd same11 (Nat.ne_of_gt fired)⟩

/-- Two slots for two tiles, the first of which is refilled during the second visit. -/
def twoSlots : RefillParams where
  nbSlots := 2
  nbLTiles := 2
  kI := 1
  gaugeStep := 1
  positive := Nat.zero_lt_one
  r10StartCnt := fun _ => some 1
  r11StartCnt := fun _ => none

theorem twoSlots_reached : ∃ c, twoSlots.cores.Reaches twoSlots.preloaded c ∧ c.second.pc = .refill 0 ∧
    c.shared.begun = c.shared.ended + 1 ∧ c.shared.ended = 1 := by
  have begun := Relation.ReflTransGen.single (r := twoSlots.cores.Step) (a := twoSlots.preloaded) (.first rfl)
  have visited := begun.tail (.beside (.begin rfl (by decide) (by decide)))
  have ended := visited.tail (.beside (.finish rfl))
  have visiting := ended.tail (.beside (.begin rfl (by decide) (by decide)))
  have counted := visiting.tail (.beside (.count10 (g := 1) (by decide) (fun r shown => by
    obtain rfl : r = 0 := by simp [twoSlots] at shown; exact shown
    decide)))
  have shown := counted.tail (.first rfl)
  have released := shown.tail (.first rfl)
  have kept := released.tail (.first rfl)
  have met := kept.tail (.meet rfl rfl)
  exact ⟨_,met,rfl,rfl,rfl⟩

/-- While R10 has been released and the first slot is refilled, the second visit sees its tile. -/
theorem refill_schedule_twoSlots : ∃ c, twoSlots.cores.Reaches twoSlots.preloaded c ∧
    c.second.pc = .refill 0 ∧ c.shared.slots 1 = some 1 ∧ 1 ≤ c.shared.r10Gauge := by
  obtain ⟨c,reached,here,visiting,visit⟩ := twoSlots_reached
  have schedule := refill_schedule twoSlots (Nat.dvd_refl 2) c reached
  exact ⟨c,reached,here,schedule.1 0 1 visiting visit,(schedule.2.1 0 here).1⟩

end RefillParams

end Snax
