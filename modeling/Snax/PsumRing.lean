import Snax.Sync.Cores
import Snax.Sync.SlotRing

/-! `sw/apps/isgemm-tiled-async/src/main.c`: psums that wait in L3 while a ring of them is in TCDM. Every
visit adds to the psum in its slot, the DM core then spills it and reloads the slot for the visit one
turn later. A and B of a K-step, which are loaded in front of it, are part of its updates. -/
namespace Snax

open Sync (Cores Holds)

/-- The constants of the program; a K-step adds `update k t` to the psum of L-tile `t`. -/
structure PsumParams (V : Type) where
  nbSlots : Nat
  nbLTiles : Nat
  nbKTiles : Nat
  gaugeStep : Nat
  positive : 0 < gaugeStep
  bias : Nat → V
  update : Nat → Nat → V

/-- The psum of an L-tile after the first `k` K-steps. -/
def PsumParams.running {V : Type} [Add V] (p : PsumParams V) : Nat → Nat → V
  | 0,t => p.bias t
  | k + 1,t => p.running k t + p.update k t

/-! ### isCore, ring and DMA -/

inductive Transfer where
  | spill (slot tile : Nat)
  | reload (slot tile : Nat)

/-- The ring slot that a transfer reads or writes. -/
def Transfer.slot : Transfer → Nat
  | .spill slot _ | .reload slot _ => slot

/-- Visits and transfers are counted over all K-steps, the gauge in the current one. A visit that is
under way keeps the psum it has read. -/
structure Psums (V : Type) where
  slots : Nat → V
  l3 : Nat → V
  pending : List Transfer
  completed : Nat
  started : Nat
  running : Bool
  reading : Option V
  ended : Nat
  gauge : Nat

namespace Psums

variable {V : Type} (s : Psums V)

/-- The number of transfers so far. -/
def issued : Nat := s.completed + s.pending.length

def start : Psums V := { s with started := s.started + 1, running := true, gauge := 0 }

def dmaStart (t : Transfer) : Psums V := { s with pending := s.pending ++ [t] }

def transfer (t : Transfer) : Psums V :=
  match t with
  | .spill slot tile => { s with l3 := Function.update s.l3 tile (s.slots slot) }
  | .reload slot tile => { s with slots := Function.update s.slots slot (s.l3 tile) }

variable [Add V]

/-- What happens beside the cores. A visit starts once its slot has been reloaded, the gauge shows that
visits are over, transfers are done one after the other. -/
inductive Beside (p : PsumParams V) (s : Psums V) : Psums V → Prop
  | read (turn : s.reading = none) (left : s.ended < s.started * p.nbLTiles)
      (reloaded : s.ended < s.completed / 2 + p.nbSlots) :
      Beside p s { s with reading := some (s.slots (s.ended % p.nbLTiles % p.nbSlots)) }
  | write {x : V} (visiting : s.reading = some x) :
      Beside p s { s with
        slots := Function.update s.slots (s.ended % p.nbLTiles % p.nbSlots)
          (x + p.update (s.ended / p.nbLTiles) (s.ended % p.nbLTiles))
        reading := none, ended := s.ended + 1 }
  | count {g : Nat} (grows : s.gauge ≤ g)
      (shows : ∀ r, (r + 1) * p.gaugeStep ≤ g → (s.started - 1) * p.nbLTiles + r < s.ended) :
      Beside p s { s with gauge := g }
  | transfer {t : Transfer} {rest : List Transfer} (oldest : s.pending = t :: rest) :
      Beside p s { s.transfer t with pending := rest, completed := s.completed + 1 }
  | stop (finished : s.ended = s.started * p.nbLTiles) : Beside p s { s with running := false }

end Psums

/-! ### The cores -/

/-- Where core 0 is in a K-step. -/
inductive PacePc where
  | loaded
  | start
  | poll (r : Nat)
  | handover (r : Nat)
  | drained
  | busy
  | between
  | finished
deriving DecidableEq

inductive SpillPc where
  | loaded
  | handover (r : Nat)
  | spill (r : Nat)
  | reload (r : Nat)
  | waitAll
  | drained
  | between
  | finished
deriving DecidableEq

structure PaceCore where
  pc : PacePc
  k : Nat

structure SpillCore where
  pc : SpillPc
  k : Nat

namespace PsumParams

variable {V : Type} (p : PsumParams V)

/-- The heads of the loop over the K-steps and of the ring loop, on either core. -/
def paceLoop (k : Nat) : PaceCore := ⟨if k < p.nbKTiles then .loaded else .finished,k⟩
def spillLoop (k : Nat) : SpillCore := ⟨if k < p.nbKTiles then .loaded else .finished,k⟩
def paceHead (r : Nat) : PacePc := if r < p.nbLTiles then .poll r else .drained
def spillHead (r : Nat) : SpillPc := if r < p.nbLTiles then .handover r else .waitAll

/-- Core 0: `start_simbacore_and_streamers`, the polls of `ISCORE_TILE_CNT`, `wait_simbacore_and_streamer`. -/
def paceStep (c : PaceCore) (s : Psums V) : Option (PaceCore × Psums V) :=
  match c.pc with
  | .start => some ({ c with pc := p.paceHead 0 },s.start)
  | .poll r => some (if s.gauge < (r + 1) * p.gaugeStep then c else { c with pc := .handover r },s)
  | .busy => some (if s.running then c else { c with pc := .between },s)
  | .loaded | .handover _ | .drained | .between | .finished => none

/-- The DM core: the spill and the reload of visit `r`, `snrt_dma_wait_all` behind the loop. -/
def spillStep (c : SpillCore) (s : Psums V) : Option (SpillCore × Psums V) :=
  match c.pc with
  | .spill r => some ({ c with pc := .reload r },s.dmaStart (.spill (r % p.nbSlots) r))
  | .reload r =>
    some ({ c with pc := p.spillHead (r + 1) },
      s.dmaStart (.reload (r % p.nbSlots) ((r + p.nbSlots) % p.nbLTiles)))
  | .waitAll => some (if s.pending.isEmpty then { c with pc := .drained } else c,s)
  | .loaded | .handover _ | .drained | .between | .finished => none

/-- `snrt_cluster_hw_barrier`. -/
def paceMeets (c : PaceCore) : Option PaceCore :=
  match c.pc with
  | .loaded => some { c with pc := .start }
  | .handover r => some { c with pc := p.paceHead (r + 1) }
  | .drained => some { c with pc := .busy }
  | .between => some (p.paceLoop (c.k + 1))
  | _ => none

def spillMeets (c : SpillCore) : Option SpillCore :=
  match c.pc with
  | .loaded => some { c with pc := p.spillHead 0 }
  | .handover r => some { c with pc := .spill r }
  | .drained => some { c with pc := .between }
  | .between => some (p.spillLoop (c.k + 1))
  | _ => none

variable [Add V]

def cores : Cores PaceCore SpillCore (Psums V) where
  first := p.paceStep
  second := p.spillStep
  firstMeets := p.paceMeets
  secondMeets := p.spillMeets
  beside := Psums.Beside p

/-- The bias is in L3, its first tiles are in the ring. -/
def preloaded : Cores.Config PaceCore SpillCore (Psums V) where
  first := p.paceLoop 0
  second := p.spillLoop 0
  shared :=
    { slots := p.bias
      l3 := p.bias
      pending := []
      completed := 0
      started := 0
      running := false
      reading := none
      ended := 0
      gauge := 0 }

/-! ### The invariant -/

/-- The transfers, in the order in which they are issued. -/
def transferOf (i : Nat) : Transfer :=
  let r := i / 2 % p.nbLTiles
  if i % 2 = 0 then .spill (r % p.nbSlots) r else .reload (r % p.nbSlots) ((r + p.nbSlots) % p.nbLTiles)

/-- What the slot of visit `v` holds, and the L3 tile between the spill before it and its own. -/
def psumAt (ended v : Nat) : V :=
  p.running (v / p.nbLTiles + if v < ended then 1 else 0) (v % p.nbLTiles)
def staged (v : Nat) : V := p.running (v / p.nbLTiles) (v % p.nbLTiles)

omit [Add V]

/-- The barriers that a core has passed in its K-step. -/
def pacePassed : PacePc → Nat
  | .loaded | .finished => 0
  | .start => 1
  | .poll r | .handover r => r + 1
  | .drained => p.nbLTiles + 1
  | .busy | .between => p.nbLTiles + 2

def spillPassed : SpillPc → Nat
  | .loaded | .finished => 0
  | .handover r => r + 1
  | .spill r | .reload r => r + 2
  | .waitAll | .drained => p.nbLTiles + 1
  | .between => p.nbLTiles + 2

/-- The visits whose end core 0 has seen, the transfers that the DM core has issued. -/
def polled : PacePc → Nat
  | .loaded | .start | .finished => 0
  | .poll r => r
  | .handover r => r + 1
  | .drained | .busy | .between => p.nbLTiles

def spilled : SpillPc → Nat
  | .loaded | .finished => 0
  | .handover r | .spill r => 2 * r
  | .reload r => 2 * r + 1
  | .waitAll | .drained | .between => 2 * p.nbLTiles

def PaceInside : PacePc → Prop
  | .poll r | .handover r => r < p.nbLTiles
  | _ => True

def SpillInside : SpillPc → Prop
  | .handover r | .spill r | .reload r => r < p.nbLTiles
  | _ => True

/-- Between two K-steps. -/
def Outside (pc : PacePc) : Prop := pc = .loaded ∨ pc = .start ∨ pc = .finished

instance (pc : PacePc) : Decidable (Outside pc) := inferInstanceAs (Decidable (_ ∨ _))

def Drained (pc : SpillPc) : Prop := pc = .drained ∨ pc = .between ∨ pc = .loaded ∨ pc = .finished

variable [Add V]

/-- Ring and L3 hold the psums that the coming visits and spills need, the queue the transfers that are
not done, and the cores have passed the same barriers. -/
structure Sound (c0 : PaceCore) (c1 : SpillCore) (s : Psums V) : Prop where
  ring : Holds p.nbSlots (p.psumAt s.ended) (s.completed / 2) (s.completed / 2 + p.nbSlots) s.slots
  l3 : Holds p.nbLTiles p.staged ((s.completed + 1) / 2) ((s.completed + 1) / 2 + p.nbLTiles) s.l3
  queue : s.pending = (List.range' s.completed s.pending.length).map p.transferOf
  ahead : s.ended ≤ s.completed / 2 + p.nbSlots
  left : s.ended ≤ s.started * p.nbLTiles
  reading : ∀ x, s.reading = some x →
    x = p.staged s.ended ∧ s.ended < s.completed / 2 + p.nbSlots ∧ s.ended < s.started * p.nbLTiles
  behind : (s.issued + 1) / 2 ≤ s.ended
  shows : ∀ r, (r + 1) * p.gaugeStep ≤ s.gauge → (s.started - 1) * p.nbLTiles + r < s.ended
  idle : s.running = false → s.ended = s.started * p.nbLTiles
  kStep : c1.k = c0.k
  loop : c0.k ≤ p.nbKTiles ∧ (c0.pc = .finished ↔ c0.k = p.nbKTiles) ∧
    (c1.pc = .finished ↔ c1.k = p.nbKTiles)
  passed : p.spillPassed c1.pc = p.pacePassed c0.pc
  paceInside : p.PaceInside c0.pc
  spillInside : p.SpillInside c1.pc
  started : s.started = if Outside c0.pc then c0.k else c0.k + 1
  polled : p.polled c0.pc * p.gaugeStep ≤ s.gauge
  spilled : s.issued = 2 * (c1.k * p.nbLTiles) + p.spilled c1.pc
  empty : Drained c1.pc → s.pending = []
  stopped : Outside c0.pc ∨ c0.pc = .between → s.running = false

variable {p} {c0 c0' : PaceCore} {c1 c1' : SpillCore} {s s' : Psums V}

/-! The heads of the ring loop. -/

omit [Add V] in
theorem paceHead_spec (r : Nat) (inside : r ≤ p.nbLTiles) :
    p.pacePassed (p.paceHead r) = r + 1 ∧ p.polled (p.paceHead r) = r ∧ p.PaceInside (p.paceHead r) := by
  unfold paceHead
  split
  · exact ⟨rfl,rfl,‹_›⟩
  · obtain rfl : r = p.nbLTiles := Nat.le_antisymm inside (Nat.not_lt.mp ‹_›)
    exact ⟨rfl,rfl,trivial⟩

omit [Add V] in
theorem paceHead_inside (r : Nat) :
    ¬Outside (p.paceHead r) ∧ p.paceHead r ≠ .between ∧ p.paceHead r ≠ .finished := by
  unfold paceHead
  split <;> simp [Outside]

omit [Add V] in
theorem spillHead_spec (r : Nat) (inside : r ≤ p.nbLTiles) :
    p.spillPassed (p.spillHead r) = r + 1 ∧ p.spilled (p.spillHead r) = 2 * r ∧
      p.SpillInside (p.spillHead r) := by
  unfold spillHead
  split
  · exact ⟨rfl,rfl,‹_›⟩
  · obtain rfl : r = p.nbLTiles := Nat.le_antisymm inside (Nat.not_lt.mp ‹_›)
    exact ⟨rfl,rfl,trivial⟩

omit [Add V] in
theorem spillHead_inside (r : Nat) : ¬Drained (p.spillHead r) ∧ p.spillHead r ≠ .finished := by
  unfold spillHead
  split <;> simp [Drained]

/-! The heads of the loop of K-steps. -/

omit [Add V] in
theorem paceLoop_spec (k : Nat) (inside : k ≤ p.nbKTiles) :
    p.pacePassed (p.paceLoop k).pc = 0 ∧ p.polled (p.paceLoop k).pc = 0 ∧ p.PaceInside (p.paceLoop k).pc ∧
      Outside (p.paceLoop k).pc ∧ ((p.paceLoop k).pc = .finished ↔ k = p.nbKTiles) := by
  unfold paceLoop
  by_cases more : k < p.nbKTiles
  · rw [if_pos more]
    exact ⟨rfl,rfl,trivial,.inl rfl,PacePc.noConfusion,fun last => absurd more (last ▸ Nat.lt_irrefl _)⟩
  · rw [if_neg more]
    exact ⟨rfl,rfl,trivial,.inr (.inr rfl),fun _ => Nat.le_antisymm inside (Nat.not_lt.mp more),fun _ => rfl⟩

omit [Add V] in
theorem spillLoop_spec (k : Nat) (inside : k ≤ p.nbKTiles) :
    p.spillPassed (p.spillLoop k).pc = 0 ∧ p.spilled (p.spillLoop k).pc = 0 ∧
      p.SpillInside (p.spillLoop k).pc ∧ ((p.spillLoop k).pc = .finished ↔ k = p.nbKTiles) := by
  unfold spillLoop
  by_cases more : k < p.nbKTiles
  · rw [if_pos more]
    exact ⟨rfl,rfl,trivial,SpillPc.noConfusion,fun last => absurd more (last ▸ Nat.lt_irrefl _)⟩
  · rw [if_neg more]
    exact ⟨rfl,rfl,trivial,fun _ => Nat.le_antisymm inside (Nat.not_lt.mp more),fun _ => rfl⟩

theorem psumAt_ahead {ended v : Nat} (ahead : ended ≤ v) : p.psumAt ended v = p.staged v := by
  rw [psumAt,if_neg (Nat.not_lt.mpr ahead)]
  rfl

theorem staged_first {t : Nat} (inside : p.nbLTiles = 0 ∨ t < p.nbLTiles) : p.staged t = p.bias t := by
  rw [staged]
  rcases inside with none | inside
  · rw [none,Nat.div_zero,Nat.mod_zero]
    rfl
  · rw [Nat.div_eq_of_lt inside,Nat.mod_eq_of_lt inside]
    rfl

theorem sound_preloaded (divides : p.nbSlots ∣ p.nbLTiles) :
    Sound p p.preloaded.first p.preloaded.second p.preloaded.shared := by
  have ⟨pacePassed,polled,paceInside,outside,paceLast⟩ := p.paceLoop_spec 0 (Nat.zero_le _)
  have ⟨spillPassed,spilled,spillInside,spillLast⟩ := p.spillLoop_spec 0 (Nat.zero_le _)
  exact {
    ring := by
      simp only [preloaded,Nat.zero_div,Nat.zero_add]
      refine Sync.holds_preload fun s inside => ?_
      rw [psumAt_ahead (Nat.zero_le s)]
      refine (staged_first ?_).symm
      refine (Nat.eq_zero_or_pos p.nbLTiles).imp id fun some => ?_
      exact Nat.lt_of_lt_of_le inside (Nat.le_of_dvd some divides)
    l3 := by
      simp only [preloaded,Nat.zero_add,Nat.reduceDiv]
      exact Sync.holds_preload fun t inside => (staged_first (.inr inside)).symm
    queue := rfl
    ahead := Nat.zero_le _
    left := Nat.zero_le _
    reading := fun _ none => by cases none
    behind := by simp only [preloaded,Psums.issued,List.length_nil,Nat.zero_add,Nat.reduceDiv,Nat.le_refl]
    shows := fun r gauge => absurd gauge (Nat.not_le_of_lt (Nat.mul_pos (Nat.succ_pos r) p.positive))
    idle := fun _ => (Nat.zero_mul _).symm
    kStep := rfl
    loop := ⟨Nat.zero_le _,paceLast,spillLast⟩
    passed := spillPassed.trans pacePassed.symm
    paceInside := paceInside
    spillInside := spillInside
    started := (if_pos outside).symm
    polled := by
      rw [preloaded,polled,Nat.zero_mul]
    spilled := by
      rw [preloaded,spilled]
      exact (Nat.zero_mul _).symm ▸ rfl
    empty := fun _ => rfl
    stopped := fun _ => rfl }

/-- What core 0 does inside a K-step. -/
theorem Sound.pace (sound : Sound p c0 c1 s) {pc : PacePc} (going : ¬Outside c0.pc ∧ ¬Outside pc)
    (passed : p.pacePassed pc = p.pacePassed c0.pc) (polled : p.polled pc * p.gaugeStep ≤ s.gauge)
    (inside : p.PaceInside pc) (stopped : pc = .between → s.running = false) :
    Sound p { c0 with pc := pc } c1 s := by
  have notLast : c0.k ≠ p.nbKTiles := fun last => going.1 (.inr (.inr (sound.loop.2.1.mpr last)))
  have started := sound.started
  rw [if_neg going.1] at started
  exact { sound with
    loop := ⟨sound.loop.1,⟨fun last => absurd (.inr (.inr last)) going.2,(absurd · notLast)⟩,sound.loop.2.2⟩
    passed := sound.passed.trans passed.symm
    paceInside := inside
    started := by rwa [if_neg going.2]
    polled := polled
    stopped := fun ended => ended.elim (absurd · going.2) stopped }

theorem Sound.start (sound : Sound p c0 c1 s) (here : c0.pc = .start) :
    Sound p { c0 with pc := p.paceHead 0 } c1 s.start := by
  have ⟨headPassed,headPolled,headInside⟩ := p.paceHead_spec 0 (Nat.zero_le _)
  have ⟨inside,notBetween,notLast⟩ := p.paceHead_inside 0
  have outside : Outside c0.pc := .inr (.inl here)
  have started := sound.started
  have passed := sound.passed
  rw [if_pos outside] at started
  rw [here] at passed
  have more : c0.k ≠ p.nbKTiles := fun last =>
    PacePc.noConfusion (here.symm.trans (sound.loop.2.1.mpr last))
  exact { sound with
    left := sound.left.trans (Nat.mul_le_mul_right _ (Nat.le_succ _))
    reading := fun x reading =>
      have ⟨value,near,before⟩ := sound.reading x reading
      ⟨value,near,before.trans_le (Nat.mul_le_mul_right _ (Nat.le_succ _))⟩
    shows := fun r gauge => absurd gauge (Nat.not_le_of_lt (Nat.mul_pos (Nat.succ_pos r) p.positive))
    idle := Bool.noConfusion
    loop := ⟨sound.loop.1,⟨(absurd · notLast),(absurd · more)⟩,sound.loop.2.2⟩
    passed := passed.trans headPassed.symm
    paceInside := headInside
    started := by
      rw [if_neg inside]
      exact congrArg Nat.succ started
    polled := by
      rw [headPolled]
      exact (Nat.zero_mul _).le
    stopped := fun ended => ended.elim (absurd · inside) (absurd · notBetween) }

theorem Sound.paceStep (sound : Sound p c0 c1 s) (moves : p.paceStep c0 s = some (c0',s')) :
    Sound p c0' c1 s' := by
  have inside := sound.paceInside
  have seen := sound.polled
  unfold PsumParams.paceStep at moves
  split at moves
  case h_1 here =>
    cases moves
    exact sound.start here
  case h_2 r here =>
    rw [here] at inside
    split at moves <;> cases moves
    · exact sound
    · have reached := Nat.not_lt.mp ‹¬s.gauge < _›
      exact sound.pace (by simp [here,Outside]) (by rw [here]; rfl) reached inside PacePc.noConfusion
  case h_3 here =>
    rw [here] at seen
    split at moves <;> cases moves
    · exact sound
    · have idle : s.running = false := by simpa using ‹¬s.running = true›
      exact sound.pace (by simp [here,Outside]) (by rw [here]; rfl) seen trivial fun _ => idle
  all_goals cases moves

omit [Add V] in
theorem polled_of_passed (pc : PacePc) {r : Nat} (inside : r < p.nbLTiles) (passed : r + 2 = p.pacePassed pc) :
    r + 1 ≤ p.polled pc ∧ ¬Outside pc := by
  cases pc <;> simp only [pacePassed] at passed <;> simp only [polled,Outside,reduceCtorEq,or_self,
    not_false_eq_true,and_true] <;> omega

/-- Core 0 has seen a visit end before the DM core spills its psum. -/
theorem Sound.handed (sound : Sound p c0 c1 s) {r : Nat} (here : c1.pc = .spill r ∨ c1.pc = .reload r) :
    (r + 1) * p.gaugeStep ≤ s.gauge ∧ c1.k * p.nbLTiles + r < s.ended := by
  have inside : r < p.nbLTiles := by
    have inside := sound.spillInside
    rcases here with here | here <;> rwa [here] at inside
  have passed : r + 2 = p.pacePassed c0.pc := by
    have passed := sound.passed
    rcases here with here | here <;> rwa [here] at passed
  have ⟨seen,going⟩ := p.polled_of_passed c0.pc inside passed
  have gauge : (r + 1) * p.gaugeStep ≤ s.gauge := (Nat.mul_le_mul_right _ seen).trans sound.polled
  refine ⟨gauge,?_⟩
  have ended := sound.shows r gauge
  rwa [sound.started,if_neg going,Nat.add_sub_cancel,← sound.kStep] at ended

omit [Add V] in
theorem visit_mod {k r : Nat} (inside : r < p.nbLTiles) : (k * p.nbLTiles + r) % p.nbLTiles = r := by
  rw [Nat.mul_add_mod',Nat.mod_eq_of_lt inside]

omit [Add V] in
theorem transferOf_even (v : Nat) :
    p.transferOf (2 * v) = .spill (v % p.nbLTiles % p.nbSlots) (v % p.nbLTiles) := by
  rw [transferOf,Nat.mul_div_cancel_left v Nat.zero_lt_two,Nat.mul_mod_right,if_pos rfl]

omit [Add V] in
theorem transferOf_odd (v : Nat) :
    p.transferOf (2 * v + 1) =
      .reload (v % p.nbLTiles % p.nbSlots) ((v % p.nbLTiles + p.nbSlots) % p.nbLTiles) := by
  rw [transferOf,Nat.mul_add_div Nat.zero_lt_two,Nat.mul_add_mod]
  rfl

omit [Add V] in
theorem transferOf_spill {k r : Nat} (inside : r < p.nbLTiles) :
    p.transferOf (2 * (k * p.nbLTiles) + 2 * r) = .spill (r % p.nbSlots) r := by
  rw [← Nat.mul_add,transferOf_even,visit_mod inside]

omit [Add V] in
theorem transferOf_reload {k r : Nat} (inside : r < p.nbLTiles) :
    p.transferOf (2 * (k * p.nbLTiles) + (2 * r + 1)) =
      .reload (r % p.nbSlots) ((r + p.nbSlots) % p.nbLTiles) := by
  rw [← Nat.add_assoc,← Nat.mul_add,transferOf_odd,visit_mod inside]

omit [Add V] in
theorem queue_dmaStart {t : Transfer}
    (queue : s.pending = (List.range' s.completed s.pending.length).map p.transferOf)
    (next : t = p.transferOf s.issued) :
    (s.dmaStart t).pending =
      (List.range' s.completed (s.dmaStart t).pending.length).map p.transferOf := by
  change s.pending ++ [t] = (List.range' s.completed (s.pending ++ [t]).length).map _
  rw [List.length_append,List.length_singleton,List.range'_1_concat,List.map_append,← queue,next]
  rfl

omit [Add V] in
theorem issued_dmaStart (t : Transfer) : (s.dmaStart t).issued = s.issued + 1 := by
  simp only [Psums.issued,Psums.dmaStart,List.length_append,List.length_singleton]
  exact (Nat.add_assoc _ _ _).symm

/-- What the DM core does inside a K-step. -/
theorem Sound.dmaStart (sound : Sound p c0 c1 s) {t : Transfer} {pc : SpillPc} {r : Nat}
    (here : c1.pc = .spill r ∨ c1.pc = .reload r) (next : t = p.transferOf s.issued)
    (last : s.issued + 1 ≤ 2 * (c1.k * p.nbLTiles + r + 1)) (notLast : pc ≠ .finished)
    (passed : p.spillPassed pc = p.spillPassed c1.pc) (inside : p.SpillInside pc)
    (spilled : p.spilled pc = p.spilled c1.pc + 1) (going : ¬Drained pc) :
    Sound p c0 { c1 with pc := pc } (s.dmaStart t) := by
  have ended := (sound.handed here).2
  have notFinished : c1.pc ≠ .finished := by
    rcases here with here | here <;> rw [here] <;> exact SpillPc.noConfusion
  have more : c1.k ≠ p.nbKTiles := fun last => notFinished (sound.loop.2.2.mpr last)
  exact { sound with
    queue := queue_dmaStart sound.queue next
    behind := by
      rw [issued_dmaStart]
      change _ ≤ s.ended
      omega
    loop := ⟨sound.loop.1,sound.loop.2.1,⟨(absurd · notLast),(absurd · more)⟩⟩
    passed := passed.trans sound.passed
    spillInside := inside
    spilled := by rw [issued_dmaStart,sound.spilled,spilled,Nat.add_assoc]
    empty := (absurd · going) }

theorem Sound.spillStep (sound : Sound p c0 c1 s) (moves : p.spillStep c1 s = some (c1',s')) :
    Sound p c0 c1' s' := by
  have inside := sound.spillInside
  have issued := sound.spilled
  unfold PsumParams.spillStep at moves
  split at moves
  case h_1 r here =>
    rw [here] at inside issued
    cases moves
    refine sound.dmaStart (.inl here) ?_ ?_ SpillPc.noConfusion ?_ inside ?_ (by simp [Drained])
    · rw [issued]
      exact (transferOf_spill inside).symm
    · change s.issued = _ + 2 * r at issued
      omega
    · rw [here]
      rfl
    · rw [here]
      rfl
  case h_2 r here =>
    rw [here] at inside issued
    cases moves
    have ⟨passed,spilled,inside'⟩ := p.spillHead_spec (r + 1) inside
    have ⟨going,notLast⟩ := p.spillHead_inside (r + 1)
    refine sound.dmaStart (.inr here) ?_ ?_ notLast ?_ inside' ?_ going
    · rw [issued]
      exact (transferOf_reload inside).symm
    · change s.issued = _ + (2 * r + 1) at issued
      omega
    · rw [passed,here]
      rfl
    · rw [spilled,here]
      rfl
  case h_3 here =>
    have passed := sound.passed
    have more : c1.k ≠ p.nbKTiles := fun last => SpillPc.noConfusion (here.symm.trans (sound.loop.2.2.mpr last))
    rw [here] at passed issued
    split at moves <;> cases moves
    · rename_i none
      exact { sound with
        loop := ⟨sound.loop.1,sound.loop.2.1,⟨SpillPc.noConfusion,(absurd · more)⟩⟩
        passed := passed
        spillInside := trivial
        spilled := issued
        empty := fun _ => List.isEmpty_iff.mp none }
    · exact sound
  all_goals cases moves

/-- The barriers at which the cores meet. -/
inductive Met (p : PsumParams V) (c0 : PaceCore) (c1 : SpillCore) : PaceCore → SpillCore → Prop
  | loaded (here : c0.pc = .loaded) (there : c1.pc = .loaded) :
      Met p c0 c1 { c0 with pc := .start } { c1 with pc := p.spillHead 0 }
  | handover {r : Nat} (here : c0.pc = .handover r) (there : c1.pc = .handover r) :
      Met p c0 c1 { c0 with pc := p.paceHead (r + 1) } { c1 with pc := .spill r }
  | drained (here : c0.pc = .drained) (there : c1.pc = .drained) :
      Met p c0 c1 { c0 with pc := .busy } { c1 with pc := .between }
  | between (here : c0.pc = .between) (there : c1.pc = .between) :
      Met p c0 c1 (p.paceLoop (c0.k + 1)) (p.spillLoop (c1.k + 1))

omit [Add V] in
theorem met_of_meets (same : p.spillPassed c1.pc = p.pacePassed c0.pc) (inside0 : p.PaceInside c0.pc)
    (inside1 : p.SpillInside c1.pc) (here : p.paceMeets c0 = some c0') (there : p.spillMeets c1 = some c1') :
    Met p c0 c1 c0' c1' := by
  unfold paceMeets at here
  unfold spillMeets at there
  split at here
  case h_1 at0 =>
    rw [at0] at same
    split at there
    case h_1 at1 =>
      cases here
      cases there
      exact .loaded at0 at1
    case h_5 => cases there
    all_goals
      rename_i at1
      rw [at1] at same
      exact absurd same (Nat.succ_ne_zero _)
  case h_2 r at0 =>
    rw [at0] at same inside0
    split at there
    case h_1 at1 =>
      rw [at1] at same
      exact absurd same.symm (Nat.succ_ne_zero _)
    case h_2 r' at1 =>
      rw [at1] at same
      obtain rfl : r' = r := Nat.succ.inj same
      cases here
      cases there
      exact .handover at0 at1
    case h_5 => cases there
    all_goals
      rename_i at1
      rw [at1] at same
      simp only [PaceInside,spillPassed,pacePassed] at same inside0
      omega
  case h_3 at0 =>
    rw [at0] at same
    split at there
    case h_3 at1 =>
      cases here
      cases there
      exact .drained at0 at1
    case h_5 => cases there
    all_goals
      rename_i at1
      rw [at1] at same inside1
      simp only [SpillInside,spillPassed,pacePassed] at same inside1
      omega
  case h_4 at0 =>
    rw [at0] at same
    split at there
    case h_4 at1 =>
      cases here
      cases there
      exact .between at0 at1
    case h_5 => cases there
    all_goals
      rename_i at1
      rw [at1] at same inside1
      simp only [SpillInside,spillPassed,pacePassed] at same inside1
      omega
  case h_5 => cases here

/-- A K-step goes on. -/
theorem Sound.going (sound : Sound p c0 c1 s) (going : c0.pc ≠ .finished) {pc0 : PacePc} {pc1 : SpillPc}
    (here : pc0 ≠ .finished) (there : pc1 ≠ .finished) :
    c0.k ≤ p.nbKTiles ∧ (pc0 = .finished ↔ c0.k = p.nbKTiles) ∧ (pc1 = .finished ↔ c1.k = p.nbKTiles) := by
  have ⟨below,last,_⟩ := sound.loop
  have more : c0.k ≠ p.nbKTiles := fun all => going (last.mpr all)
  have more' : c1.k ≠ p.nbKTiles := sound.kStep ▸ more
  exact ⟨below,⟨(absurd · here),(absurd · more)⟩,⟨(absurd · there),(absurd · more')⟩⟩

theorem Sound.meet (sound : Sound p c0 c1 s) (met : Met p c0 c1 c0' c1') : Sound p c0' c1' s := by
  have inside := sound.paceInside
  have started := sound.started
  have seen := sound.polled
  have spilled := sound.spilled
  have stopped := sound.stopped
  cases met with
  | loaded here there =>
    have ⟨headPassed,headSpilled,headInside⟩ := p.spillHead_spec 0 (Nat.zero_le _)
    have ⟨notDrained,notLast⟩ := p.spillHead_inside 0
    have loop := sound.going (by simp [here]) (PacePc.noConfusion : PacePc.start ≠ _) notLast
    rw [here] at started seen stopped
    rw [there] at spilled
    exact { sound with
      loop := loop
      passed := headPassed
      paceInside := trivial
      spillInside := headInside
      started := started.trans ((if_pos (.inl rfl)).trans (if_pos (.inr (.inl rfl))).symm)
      polled := seen
      spilled := by rw [headSpilled]; exact spilled
      empty := (absurd · notDrained)
      stopped := fun _ => stopped (.inl (.inl rfl)) }
  | @handover r here there =>
    have ⟨notOutside,notBetween,notLast⟩ := p.paceHead_inside (r + 1)
    have loop := sound.going (by simp [here]) notLast (SpillPc.noConfusion : SpillPc.spill r ≠ _)
    rw [here] at inside started seen
    have ⟨headPassed,headPolled,headInside⟩ := p.paceHead_spec (r + 1) inside
    rw [there] at spilled
    exact { sound with
      loop := loop
      passed := headPassed.symm
      paceInside := headInside
      spillInside := inside
      started := started.trans ((if_neg (by simp [Outside])).trans (if_neg notOutside).symm)
      polled := by rwa [headPolled]
      spilled := spilled
      empty := fun drained => absurd drained (by simp [Drained])
      stopped := fun ended => ended.elim (absurd · notOutside) (absurd · notBetween) }
  | drained here there =>
    have loop := sound.going (by simp [here]) (PacePc.noConfusion : PacePc.busy ≠ _)
      (SpillPc.noConfusion : SpillPc.between ≠ _)
    have empty := sound.empty (.inl there)
    rw [here] at started seen
    rw [there] at spilled
    exact { sound with
      loop := loop
      passed := rfl
      paceInside := trivial
      spillInside := trivial
      started := started.trans ((if_neg (by simp [Outside])).trans (if_neg (by simp [Outside])).symm)
      polled := seen
      spilled := spilled
      empty := fun _ => empty
      stopped := fun ended => absurd ended (by simp [Outside]) }
  | between here there =>
    have ⟨below,last,_⟩ := sound.loop
    have next : c0.k + 1 ≤ p.nbKTiles :=
      Nat.lt_of_le_of_ne below fun all => PacePc.noConfusion (here.symm.trans (last.mpr all))
    have ⟨pacePassed,polled,paceInside,outside,paceLast⟩ := p.paceLoop_spec (c0.k + 1) next
    have ⟨spillPassed,spilled',spillInside,spillLast⟩ := p.spillLoop_spec (c1.k + 1) (sound.kStep ▸ next)
    have empty := sound.empty (.inr (.inl there))
    rw [here] at started
    rw [there] at spilled
    exact { sound with
      kStep := congrArg Nat.succ sound.kStep
      loop := ⟨next,paceLast,spillLast.trans (sound.kStep ▸ Iff.rfl)⟩
      passed := spillPassed.trans pacePassed.symm
      paceInside := paceInside
      spillInside := spillInside
      started := started.trans ((if_neg (by simp [Outside])).trans (if_pos outside).symm)
      polled := by
        rw [polled]
        exact (Nat.zero_mul _).le.trans (Nat.zero_le _)
      spilled := by
        rw [spilled,spilled']
        change _ + 2 * p.nbLTiles = 2 * ((c1.k + 1) * p.nbLTiles) + 0
        rw [Nat.succ_mul c1.k,Nat.mul_add 2]
        rfl
      empty := fun _ => empty
      stopped := fun _ => stopped (.inr here) }

theorem psumAt_succ (e : Nat) :
    p.psumAt (e + 1) =
      Function.update (p.psumAt e) e (p.staged e + p.update (e / p.nbLTiles) (e % p.nbLTiles)) := by
  funext v
  by_cases here : v = e
  · subst here
    rw [Function.update_self,psumAt,if_pos (Nat.lt_succ_self v)]
    rfl
  · rw [Function.update_of_ne here,psumAt,psumAt]
    have same : v < e + 1 ↔ v < e := by omega
    simp only [same]

/-- The psum that visit `v` leaves behind is the one that the visit of the next K-step needs. -/
theorem psumAt_next (some : 0 < p.nbLTiles) {ended v : Nat} (past : v < ended) :
    p.psumAt ended v = p.staged (v + p.nbLTiles) := by
  rw [psumAt,if_pos past,staged,Nat.add_div_right v some,Nat.add_mod_right]

theorem Sound.below (sound : Sound p c0 c1 s) : s.completed / 2 ≤ s.ended := by
  have behind := sound.behind
  rw [Psums.issued] at behind
  omega

theorem Sound.tiles (sound : Sound p c0 c1 s) {v : Nat} (past : v < s.ended) : 0 < p.nbLTiles := by
  refine Nat.pos_of_ne_zero fun none => ?_
  have left := sound.left
  rw [none,Nat.mul_zero] at left
  exact Nat.not_lt_zero v (Nat.lt_of_lt_of_le past left)

/-- After a spill the L3 tile is the one that the next K-step needs. -/
theorem Sound.spill (sound : Sound p c0 c1 s) (divides : p.nbSlots ∣ p.nbLTiles) {v : Nat}
    (here : s.completed = 2 * v) (past : v < s.ended) :
    Holds p.nbLTiles p.staged (v + 1) (v + 1 + p.nbLTiles)
      (Function.update s.l3 (v % p.nbLTiles) (s.slots (v % p.nbLTiles % p.nbSlots))) := by
  have some := sound.tiles past
  have slots : 0 < p.nbSlots := Nat.pos_of_dvd_of_pos divides some
  have ring := sound.ring
  have l3 := sound.l3
  have spilled : (2 * v + 1) / 2 = v := by omega
  rw [here,Nat.mul_div_cancel_left v Nat.zero_lt_two] at ring
  rw [here,spilled] at l3
  rw [Nat.mod_mod_of_dvd v divides,ring v (Nat.le_refl v) (Nat.lt_add_of_pos_right slots),
    psumAt_next some past]
  exact l3.refill

/-- After a reload the slot is ready for the visit one turn later. -/
theorem Sound.reload (sound : Sound p c0 c1 s) (divides : p.nbSlots ∣ p.nbLTiles) {v : Nat}
    (here : s.completed = 2 * v + 1) (past : v < s.ended) :
    Holds p.nbSlots (p.psumAt s.ended) (v + 1) (v + 1 + p.nbSlots)
      (Function.update s.slots (v % p.nbLTiles % p.nbSlots)
        (s.l3 ((v % p.nbLTiles + p.nbSlots) % p.nbLTiles))) := by
  have some := sound.tiles past
  have slots : 0 < p.nbSlots := Nat.pos_of_dvd_of_pos divides some
  have fits : p.nbSlots ≤ p.nbLTiles := Nat.le_of_dvd some divides
  have ring := sound.ring
  have l3 := sound.l3
  have ahead := sound.ahead
  have reloaded : (2 * v + 1) / 2 = v := by omega
  have spilled : (2 * v + 1 + 1) / 2 = v + 1 := by omega
  rw [here,reloaded] at ring ahead
  rw [here,spilled] at l3
  -- the tile of the reload is spilled in the same pass before it, or was in the K-step before
  have fresh : s.l3 ((v + p.nbSlots) % p.nbLTiles) = p.psumAt s.ended (v + p.nbSlots) := by
    rw [l3 (v + p.nbSlots) (by omega) (by omega),psumAt_ahead ahead]
  rw [Nat.mod_mod_of_dvd v divides,Nat.mod_add_mod,fresh]
  exact ring.refill

/-- The oldest transfer is done. -/
theorem Sound.transferred (sound : Sound p c0 c1 s) {t : Transfer} {rest : List Transfer} {slots l3 : Nat → V}
    (oldest : s.pending = t :: rest)
    (ring : Holds p.nbSlots (p.psumAt s.ended) ((s.completed + 1) / 2) ((s.completed + 1) / 2 + p.nbSlots) slots)
    (staged : Holds p.nbLTiles p.staged ((s.completed + 1 + 1) / 2)
      ((s.completed + 1 + 1) / 2 + p.nbLTiles) l3) :
    Sound p c0 c1 { s with
      slots := slots, l3 := l3, pending := rest, completed := s.completed + 1 } := by
  have queue := sound.queue
  rw [oldest,List.length_cons,List.range'_succ,List.map_cons,List.cons.injEq] at queue
  have same : s.issued = s.completed + 1 + rest.length := by
    rw [Psums.issued,oldest,List.length_cons,Nat.add_right_comm,Nat.add_assoc]
  have behind := sound.behind
  have spilled := sound.spilled
  rw [same] at behind spilled
  have later : s.completed / 2 + p.nbSlots ≤ (s.completed + 1) / 2 + p.nbSlots :=
    Nat.add_le_add_right (Nat.div_le_div_right (Nat.le_succ _)) _
  exact { sound with
    ring := ring
    l3 := staged
    queue := queue.2
    ahead := sound.ahead.trans later
    reading := fun x reading =>
      have ⟨value,near,before⟩ := sound.reading x reading
      ⟨value,near.trans_le later,before⟩
    behind := behind
    spilled := spilled
    empty := fun drained => absurd (sound.empty drained) (oldest ▸ List.cons_ne_nil _ _) }

theorem Sound.transfer (sound : Sound p c0 c1 s) (divides : p.nbSlots ∣ p.nbLTiles) {t : Transfer}
    {rest : List Transfer} (oldest : s.pending = t :: rest) :
    Sound p c0 c1 { s.transfer t with pending := rest, completed := s.completed + 1 } := by
  have behind := sound.behind
  have queue := sound.queue
  rw [Psums.issued,oldest,List.length_cons] at behind
  rw [oldest,List.length_cons,List.range'_succ,List.map_cons,List.cons.injEq] at queue
  rw [queue.1]
  rcases Nat.mod_two_eq_zero_or_one s.completed with even | odd
  · have here : s.completed = 2 * (s.completed / 2) := by omega
    have same : (s.completed + 1) / 2 = s.completed / 2 := by omega
    have next : (s.completed + 1 + 1) / 2 = s.completed / 2 + 1 := by omega
    have l3 := sound.spill divides here (by omega)
    rw [here,transferOf_even,← here]
    refine sound.transferred oldest ?_ ?_
    · rw [same]
      exact sound.ring
    · rw [next]
      exact l3
  · have here : s.completed = 2 * (s.completed / 2) + 1 := by omega
    have same : (s.completed + 1 + 1) / 2 = (s.completed + 1) / 2 := by omega
    have next : (s.completed + 1) / 2 = s.completed / 2 + 1 := by omega
    have ring := sound.reload divides here (by omega)
    rw [here,transferOf_odd,← here]
    refine sound.transferred oldest ?_ ?_
    · rw [next]
      exact ring
    · rw [same]
      exact sound.l3

theorem Sound.beside (sound : Sound p c0 c1 s) (divides : p.nbSlots ∣ p.nbLTiles)
    (changes : Psums.Beside p s s') : Sound p c0 c1 s' := by
  cases changes with
  | read turn left reloaded =>
    refine { sound with reading := fun x reading => ?_ }
    cases reading
    refine ⟨?_,reloaded,left⟩
    rw [Nat.mod_mod_of_dvd _ divides,sound.ring s.ended sound.below reloaded,psumAt_ahead (Nat.le_refl _)]
  | @write x visiting =>
    obtain ⟨rfl,near,before⟩ := sound.reading x visiting
    exact { sound with
      ring := by
        rw [psumAt_succ,Nat.mod_mod_of_dvd _ divides]
        exact sound.ring.visit sound.below near (Nat.le_refl _)
      ahead := near
      left := before
      reading := fun _ none => by cases none
      behind := Nat.le_succ_of_le sound.behind
      shows := fun r gauge => Nat.lt_succ_of_lt (sound.shows r gauge)
      idle := fun idle => absurd (sound.idle idle) (Nat.ne_of_lt before) }
  | count grows shows => exact { sound with shows := shows, polled := sound.polled.trans grows }
  | transfer oldest => exact sound.transfer divides oldest
  | stop finished => exact { sound with idle := fun _ => finished, stopped := fun _ => rfl }

/-! ### Runs -/

theorem sound_reached (divides : p.nbSlots ∣ p.nbLTiles) {c : Cores.Config PaceCore SpillCore (Psums V)}
    (reached : p.cores.Reaches p.preloaded c) : Sound p c.first c.second c.shared := by
  refine Cores.run_rule ?first ?second ?meet ?beside (sound_preloaded divides) reached
  case first => exact fun _ _ _ _ _ sound moves => sound.paceStep moves
  case second => exact fun _ _ _ _ _ sound moves => sound.spillStep moves
  case meet =>
    exact fun _ _ _ _ _ sound here there =>
      sound.meet (met_of_meets sound.passed sound.paceInside sound.spillInside here there)
  case beside => exact fun _ _ _ _ sound changes => sound.beside divides changes

omit [Add V] in
/-- Visit `r` of K-step `k` is visit `r` of the ring. -/
theorem visit_slot (divides : p.nbSlots ∣ p.nbLTiles) (k r : Nat) :
    (k * p.nbLTiles + r) % p.nbSlots = r % p.nbSlots := by
  have whole : p.nbSlots ∣ k * p.nbLTiles := Nat.dvd_mul_left_of_dvd divides k
  rw [Nat.add_mod,Nat.mod_eq_zero_of_dvd whole,Nat.zero_add,Nat.mod_mod]

theorem staged_visit {k r : Nat} (inside : r < p.nbLTiles) : p.staged (k * p.nbLTiles + r) = p.running k r := by
  have some : 0 < p.nbLTiles := Nat.zero_lt_of_lt inside
  rw [staged,visit_mod inside,Nat.mul_comm,Nat.mul_add_div some,Nat.div_eq_of_lt inside]
  rfl

theorem Sound.visited (sound : Sound p c0 c1 s) (divides : p.nbSlots ∣ p.nbLTiles)
    (visiting : s.reading.isSome) {k r : Nat} (inside : r < p.nbLTiles) (visit : s.ended = k * p.nbLTiles + r) :
    s.slots (r % p.nbSlots) = p.running k r := by
  obtain ⟨x,reading⟩ := Option.isSome_iff_exists.mp visiting
  have ⟨_,near,_⟩ := sound.reading x reading
  have here := sound.ring s.ended sound.below near
  rwa [psumAt_ahead (Nat.le_refl _),visit,visit_slot divides,staged_visit inside] at here

omit [Add V] in
theorem slot_transferOf (divides : p.nbSlots ∣ p.nbLTiles) (i : Nat) :
    (p.transferOf i).slot = i / 2 % p.nbSlots := by
  rw [transferOf]
  split <;> exact Nat.mod_mod_of_dvd _ divides

theorem Sound.untouched (sound : Sound p c0 c1 s) (divides : p.nbSlots ∣ p.nbLTiles)
    (visiting : s.reading.isSome) {t : Transfer} (pending : t ∈ s.pending) : t.slot ≠ s.ended % p.nbSlots := by
  obtain ⟨x,reading⟩ := Option.isSome_iff_exists.mp visiting
  have ⟨_,near,_⟩ := sound.reading x reading
  have behind := sound.behind
  rw [sound.queue] at pending
  obtain ⟨i,among,rfl⟩ := List.mem_map.mp pending
  rw [List.mem_range'_1] at among
  rw [slot_transferOf divides]
  rw [Psums.issued] at behind
  exact (Sync.slot_ne (by omega) (by omega)).symm

/-- After the last K-step the psums are complete, in L3 and in the slots that were reloaded for a K-step
that does not follow. -/
theorem Sound.complete (sound : Sound p c0 c1 s) (divides : p.nbSlots ∣ p.nbLTiles)
    (finished : c1.pc = .finished) {t : Nat} (inside : t < p.nbLTiles) :
    s.l3 t = p.running p.nbKTiles t ∧ (t < p.nbSlots → s.slots t = p.running p.nbKTiles t) := by
  have ⟨_,last0,last1⟩ := sound.loop
  have all : c1.k = p.nbKTiles := last1.mp finished
  have paced : c0.pc = .finished := last0.mpr (sound.kStep ▸ all)
  have started : s.started = p.nbKTiles := by
    rw [sound.started,if_pos (.inr (.inr paced)),← sound.kStep,all]
  have completed : s.completed = 2 * (p.nbKTiles * p.nbLTiles) := by
    have issued := sound.spilled
    rw [Psums.issued,sound.empty (.inr (.inr (.inr finished))),finished,all] at issued
    exact issued
  have ring := sound.ring
  have l3 := sound.l3
  have spilled : (2 * (p.nbKTiles * p.nbLTiles) + 1) / 2 = p.nbKTiles * p.nbLTiles := by omega
  rw [completed,Nat.mul_div_cancel_left _ Nat.zero_lt_two] at ring
  rw [completed,spilled] at l3
  have left := sound.left
  rw [started] at left
  refine ⟨(l3.turn (Nat.dvd_mul_left _ _) inside).trans (staged_visit inside),fun slot => ?_⟩
  rw [ring.turn (Nat.dvd_mul_left_of_dvd divides _) slot,psumAt_ahead (left.trans (Nat.le_add_right _ _)),
    staged_visit inside]

/-- Each visit finds the running psum of its tile in a slot that no transfer touches, and in the end L3 has
for every tile its bias and every update once. -/
theorem psum_ring {V : Type} [Add V] (p : PsumParams V) (divides : p.nbSlots ∣ p.nbLTiles)
    (c : Cores.Config PaceCore SpillCore (Psums V)) (reached : p.cores.Reaches p.preloaded c) :
    (∀ k r, r < p.nbLTiles → c.shared.reading.isSome → c.shared.ended = k * p.nbLTiles + r →
      c.shared.slots (r % p.nbSlots) = p.running k r ∧
      ∀ t ∈ c.shared.pending, t.slot ≠ r % p.nbSlots) ∧
    (c.second.pc = .finished → ∀ t < p.nbLTiles,
      c.shared.l3 t = p.running p.nbKTiles t ∧
      (t < p.nbSlots → c.shared.slots t = p.running p.nbKTiles t)) := by
  have sound := sound_reached divides reached
  constructor
  · intro k r inside visiting visit
    refine ⟨sound.visited divides visiting inside visit,fun t pending => ?_⟩
    have apart := sound.untouched divides visiting pending
    rwa [visit,visit_slot divides] at apart
  · exact fun finished t inside => sound.complete divides finished inside

/-- One tile, one K-step. -/
def oneTile : PsumParams Nat where
  nbSlots := 1
  nbLTiles := 1
  nbKTiles := 1
  gaugeStep := 1
  positive := Nat.zero_lt_one
  bias := fun _ => 5
  update := fun _ _ => 7

theorem oneTile_reached : ∃ c, oneTile.cores.Reaches oneTile.preloaded c ∧ c.second.pc = .finished := by
  have loaded := Relation.ReflTransGen.single (r := oneTile.cores.Step) (a := oneTile.preloaded) (.meet rfl rfl)
  have started := loaded.tail (.first rfl)
  have read := started.tail (.beside (.read rfl (by decide) (by decide)))
  have written := read.tail (.beside (.write rfl))
  have counted := written.tail (.beside (.count (g := 1) (by decide) (fun r shown => by
    obtain rfl : r = 0 := by simpa [oneTile] using shown
    decide)))
  have shown := counted.tail (.first rfl)
  have handed := shown.tail (.meet rfl rfl)
  have spilling := handed.tail (.second rfl)
  have reloading := spilling.tail (.second rfl)
  have spilled := reloading.tail (.beside (.transfer rfl))
  have reloaded := spilled.tail (.beside (.transfer rfl))
  have drained := reloaded.tail (.second rfl)
  have waiting := drained.tail (.meet rfl rfl)
  have stopped := waiting.tail (.beside (.stop rfl))
  have between := stopped.tail (.first rfl)
  exact ⟨_,between.tail (.meet rfl rfl),rfl⟩

/-- In the end its psum is in L3. -/
theorem psum_ring_oneTile : ∃ c, oneTile.cores.Reaches oneTile.preloaded c ∧ c.shared.l3 0 = 12 := by
  obtain ⟨c,reached,finished⟩ := oneTile_reached
  exact ⟨c,reached,((psum_ring oneTile (Nat.dvd_refl 1) c reached).2 finished 0 Nat.zero_lt_one).1⟩

end PsumParams

end Snax
