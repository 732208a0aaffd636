import Snax.CycStreamer

/-! What the simulator's streamers conserve between a configuration and whatever the stepper
does with them: a reader's lanes stay between the consumer and the two FIFO depths, and a
writer writes every pushed group once, at the loop position of its index. -/
namespace Snax

namespace CycReader

inductive Call where
  | landReads
  | pop
  | commit (granted : List Bool) (gi : Nat)
  | reset

/-- The group that a pop delivers. -/
def offered (r : CycReader) : Option Int :=
  if 0 < r.reuseLeft then some (r.consumed - 1)
  else if r.consumed < minLanded r.cfg r.toState then some r.consumed else none

inductive Event where
  | restarted
  | delivered (group : Int)
  | other

def next (r : CycReader) : Call → CycReader
  | .landReads => r.landReads
  | .pop => r.pop.1
  | .commit granted gi => (r.commit granted gi).1
  | .reset => r.reset

def event (r : CycReader) : Call → Event
  | .pop => match r.offered with
    | some group => .delivered group
    | none => .other
  | .reset => .restarted
  | _ => .other

end CycReader

def cycReader : Sync.Machine CycReader CycReader.Call CycReader.Event where
  next := CycReader.next
  out := CycReader.event

namespace CycReader

/-- The groups delivered since the last reset. -/
def deliveries (history : List Event) : List Int :=
  history.foldl (fun groups e => match e with
    | .restarted => []
    | .delivered group => groups ++ [group]
    | .other => groups) []

/-- What holds of a reader with the deliveries since its last reset. -/
structure Conserves (r : CycReader) (groups : List Int) : Prop where
  consumed : ∀ l < r.cfg.numChannel, r.consumed ≤ r.laneLanded l
  landed : ∀ l < r.cfg.numChannel, r.laneLanded l ≤ r.laneIssued l
  issued : ∀ l < r.cfg.numChannel, r.laneIssued l ≤ r.consumed + r.cfg.dataDepth
  outstanding : ∀ l < r.cfg.numChannel, r.laneIssued l - r.laneLanded l ≤ r.cfg.addrDepth
  delivered : groups = (List.range groups.length).map fun i : Nat => (i : Int) / r.cfg.reuse
  whole : (groups.length : Int) = r.consumed * r.cfg.reuse - r.reuseLeft
  replay : 0 ≤ r.reuseLeft ∧ r.reuseLeft < r.cfg.reuse
  ready : ∀ group, r.offered = some group → ∀ l < r.cfg.numChannel, group < r.laneLanded l

/-- No lane has issued past the end of the walk. -/
def Within (r : CycReader) : Prop :=
  ∀ l < r.cfg.numChannel, 0 < r.laneIssued l → r.laneIssued l ≤ total r.cfg

/-- The lane is granted by a call. -/
def Wins (r : CycReader) (l : Nat) : Call → Prop
  | .commit granted gi => r.active = true ∧ l < r.cfg.numChannel ∧ r.answer granted gi l = true
  | _ => False

theorem minLanded_le (r : CycReader) {l : Nat} (lane : l < r.cfg.numChannel) :
    minLanded r.cfg r.toState ≤ r.laneLanded l := by
  have lower (lanes : List Nat) (m : Int) :
      lanes.foldl (fun m l => min (r.laneLanded (l + 1)) m) m ≤ m ∧
      ∀ k ∈ lanes, lanes.foldl (fun m l => min (r.laneLanded (l + 1)) m) m ≤ r.laneLanded (k + 1) := by
    induction lanes generalizing m with
    | nil => simp
    | cons k lanes ih =>
      obtain ⟨below,each⟩ := ih (min (r.laneLanded (k + 1)) m)
      rw [List.foldl_cons]
      refine ⟨below.trans (min_le_right _ _),fun j member => ?_⟩
      rcases List.mem_cons.mp member with rfl | member
      · exact below.trans (min_le_left _ _)
      · exact each j member
  obtain ⟨first,others⟩ := lower (List.range (r.cfg.numChannel - 1)) (r.laneLanded 0)
  cases l with
  | zero => exact first
  | succ k => exact others k (List.mem_range.mpr (by omega))

/-! ### One call -/

/-- The bookkeeping behind `Conserves`. -/
structure Sound (r : CycReader) (groups : List Int) : Prop where
  inFlight : ∀ l < r.cfg.numChannel, r.laneLanded l + r.pend l = r.laneIssued l
  pend : ∀ l < r.cfg.numChannel, 0 ≤ r.pend l
  consumed : ∀ l < r.cfg.numChannel, r.consumed ≤ r.laneLanded l
  positive : 0 ≤ r.consumed
  issued : ∀ l < r.cfg.numChannel, r.laneIssued l ≤ r.consumed + r.cfg.dataDepth
  outstanding : ∀ l < r.cfg.numChannel, r.laneIssued l - r.laneLanded l ≤ r.cfg.addrDepth
  delivered : groups = (List.range groups.length).map fun i : Nat => (i : Int) / r.cfg.reuse
  whole : (groups.length : Int) = r.consumed * r.cfg.reuse - r.reuseLeft
  replay : 0 ≤ r.reuseLeft ∧ r.reuseLeft < r.cfg.reuse
  used : 0 < r.reuseLeft → 0 < r.consumed
  depths : 0 ≤ r.cfg.dataDepth ∧ 0 ≤ r.cfg.addrDepth

theorem Sound.conserves {r : CycReader} {groups : List Int} (sound : Sound r groups) :
    Conserves r groups where
  consumed := sound.consumed
  landed l lane := by
    have := sound.inFlight l lane
    have := sound.pend l lane
    omega
  issued := sound.issued
  outstanding := sound.outstanding
  delivered := sound.delivered
  whole := sound.whole
  replay := sound.replay
  ready group offered l lane := by
    unfold CycReader.offered at offered
    split at offered
    · obtain rfl := Option.some.inj offered
      have := sound.consumed l lane
      omega
    · split at offered
      · next waiting =>
        obtain rfl := Option.some.inj offered
        exact waiting.trans_le (r.minLanded_le lane)
      · cases offered

theorem deliveries_snoc (history : List Event) (e : Event) :
    deliveries (history ++ [e]) = match e with
      | .restarted => []
      | .delivered group => deliveries history ++ [group]
      | .other => deliveries history := by
  rw [deliveries,List.foldl_append]
  rfl

/-- One more delivery: the next replay of the group, or the first of the next one. -/
theorem delivered_snoc {reuse consumed reuseLeft : Int} {groups : List Int} (positive : 0 < reuse)
    (delivered : groups = (List.range groups.length).map fun i : Nat => (i : Int) / reuse)
    (whole : (groups.length : Int) = consumed * reuse - reuseLeft)
    (replay : 0 ≤ reuseLeft ∧ reuseLeft < reuse) :
    groups ++ [if 0 < reuseLeft then consumed - 1 else consumed] =
      (List.range (groups.length + 1)).map fun i : Nat => (i : Int) / reuse := by
  have group : (groups.length : Int) / reuse = if 0 < reuseLeft then consumed - 1 else consumed := by
    rw [whole]
    split
    · have split : consumed * reuse - reuseLeft = (reuse - reuseLeft) + (consumed - 1) * reuse := by ring
      rw [split,Int.add_mul_ediv_right _ _ positive.ne',Int.ediv_eq_zero_of_lt (by omega) (by omega),
        Int.zero_add]
    · have none : reuseLeft = 0 := by omega
      rw [none,Int.sub_zero,Int.mul_ediv_cancel _ positive.ne']
  rw [List.range_succ,List.map_append,← delivered,List.map_singleton,group]

theorem Sound.landReads {r : CycReader} {groups : List Int} (sound : Sound r groups) :
    Sound r.landReads groups where
  inFlight l lane := by
    have := sound.inFlight l lane
    simp only [CycReader.landReads,landed] at lane ⊢
    rw [if_pos lane,if_pos lane]
    omega
  pend l lane := by
    simp only [CycReader.landReads,landed] at lane ⊢
    rw [if_pos lane]
  consumed l lane := by
    have := sound.consumed l lane
    have := sound.pend l lane
    simp only [CycReader.landReads,landed] at lane ⊢
    rw [if_pos lane]
    omega
  positive := sound.positive
  issued := sound.issued
  outstanding l lane := by
    have := sound.outstanding l lane
    have := sound.pend l lane
    simp only [CycReader.landReads,landed] at lane ⊢
    rw [if_pos lane]
    omega
  delivered := sound.delivered
  whole := sound.whole
  replay := sound.replay
  used := sound.used
  depths := sound.depths

theorem Sound.pop {r : CycReader} {groups : List Int} (sound : Sound r groups) :
    Sound r.pop.1 (match r.offered with
      | some group => groups ++ [group]
      | none => groups) := by
  obtain ⟨left,below⟩ := sound.replay
  have whole := sound.whole
  have positive := sound.positive
  have grown := delivered_snoc (by omega) sound.delivered whole sound.replay
  unfold CycReader.pop offered
  by_cases again : 0 < r.reuseLeft
  · rw [if_pos again] at grown ⊢
    rw [if_pos again]
    exact
      { inFlight := sound.inFlight
        pend := sound.pend
        consumed := sound.consumed
        positive := positive
        issued := sound.issued
        outstanding := sound.outstanding
        delivered := by rw [List.length_append]; exact grown
        whole := by rw [List.length_append,List.length_singleton]; push_cast; omega
        replay := by simp only; omega
        used := fun _ => sound.used again
        depths := sound.depths }
  · rw [if_neg again] at grown ⊢
    rw [if_neg again]
    have none : r.reuseLeft = 0 := by omega
    by_cases waiting : r.consumed < minLanded r.cfg r.toState
    · rw [if_pos waiting,if_pos waiting]
      have replays : (if 1 < r.cfg.reuse then r.cfg.reuse - 1 else r.reuseLeft) = r.cfg.reuse - 1 := by
        split <;> omega
      exact
        { inFlight := sound.inFlight
          pend := sound.pend
          consumed := fun l lane => (waiting.trans_le (r.minLanded_le lane))
          positive := by simp only [taken]; omega
          issued := fun l lane => by
            have := sound.issued l lane
            simp only [taken]
            omega
          outstanding := sound.outstanding
          delivered := by rw [List.length_append]; exact grown
          whole := by
            simp only [taken,replays,List.length_append,List.length_singleton]
            push_cast
            rw [whole,none]
            ring
          replay := by simp only [taken,replays]; omega
          used := fun _ => by simp only [taken]; omega
          depths := sound.depths }
    · rw [if_neg waiting,if_neg waiting]
      exact sound

/-- Only lanes with room in both FIFOs are granted anything. -/
theorem answer_issues {r : CycReader} {granted : List Bool} {gi l : Nat}
    (won : r.answer granted gi l = true) :
    r.laneIssued l - r.consumed < r.cfg.dataDepth ∧ r.laneIssued l - r.laneLanded l < r.cfg.addrDepth := by
  simp only [answer,issues,Bool.and_eq_true,decide_eq_true_eq] at won
  exact won.1

theorem Sound.grantAll {r : CycReader} {groups : List Int} (sound : Sound r groups) (push : Int)
    (granted : List Bool) (gi : Nat) :
    Sound ({ r with pendingPush := push }.grantAll r.cfg.numChannel (r.answer granted gi)) groups where
  inFlight l lane := by
    have := sound.inFlight l lane
    simp only [CycReader.grantAll]
    split <;> omega
  pend l lane := by
    have := sound.pend l lane
    simp only [CycReader.grantAll]
    split <;> omega
  consumed := sound.consumed
  positive := sound.positive
  issued l lane := by
    have := sound.issued l lane
    simp only [CycReader.grantAll]
    split
    · next won =>
      have := (answer_issues (Bool.and_eq_true_iff.mp won).2).1
      omega
    · assumption
  outstanding l lane := by
    have := sound.outstanding l lane
    simp only [CycReader.grantAll]
    split
    · next won =>
      have := (answer_issues (Bool.and_eq_true_iff.mp won).2).2
      omega
    · assumption
  delivered := sound.delivered
  whole := sound.whole
  replay := sound.replay
  used := sound.used
  depths := sound.depths

theorem Sound.commit {r : CycReader} {groups : List Int} (sound : Sound r groups)
    (granted : List Bool) (gi : Nat) : Sound (r.commit granted gi).1 groups := by
  rw [commit_eq]
  dsimp only
  split
  · exact sound.grantAll 0 granted gi
  · exact { sound with }

/-- A reset reader, whatever it was doing before. -/
theorem sound_reset (r : CycReader) (reuse : 0 < r.cfg.reuse)
    (depths : 0 ≤ r.cfg.dataDepth ∧ 0 ≤ r.cfg.addrDepth) : Sound r.reset [] where
  inFlight _ _ := rfl
  pend _ _ := Int.le_refl 0
  consumed _ _ := Int.le_refl 0
  positive := Int.le_refl 0
  issued _ _ := by simpa [CycReader.reset] using depths.1
  outstanding _ _ := by simpa [CycReader.reset] using depths.2
  delivered := rfl
  whole := by simp [CycReader.reset]
  replay := ⟨Int.le_refl 0,reuse⟩
  used some := by simp [CycReader.reset] at some
  depths := depths

theorem Sound.next {r : CycReader} {history : List Event} (sound : Sound r (deliveries history))
    (c : Call) : Sound (next r c) (deliveries (history ++ [event r c])) := by
  rw [deliveries_snoc]
  cases c with
  | landReads => exact sound.landReads
  | pop =>
    have popped := sound.pop
    simp only [event]
    cases offered : r.offered <;> (rw [offered] at popped; exact popped)
  | commit granted gi => exact sound.commit granted gi
  | reset => exact sound_reset r (by have := sound.replay; omega) sound.depths

theorem reuse_positive (a : Agu) : 0 < a.reuse := by
  unfold Agu.reuse
  split <;> omega

theorem next_laneIssued {r : CycReader} {c : Call} {l : Nat} (wins : Wins r l c) :
    (next r c).laneIssued l = r.laneIssued l + 1 := by
  cases c with
  | commit granted gi =>
    obtain ⟨active,lane,won⟩ := wins
    simp [next,commit_eq,active,CycReader.grantAll,lane,won]
  | _ => exact wins.elim

theorem next_cfg (r : CycReader) (c : Call) : (next r c).cfg = r.cfg := by
  cases c with
  | pop =>
    simp only [next,CycReader.pop]
    split
    · rfl
    · split <;> rfl
  | commit granted gi =>
    simp only [next,commit_eq]
    split <;> rfl
  | _ => rfl

/-- A lane whose count grows is granted, or starts again from nothing. -/
theorem laneIssued_next (r : CycReader) (c : Call) {l : Nat} (lane : l < r.cfg.numChannel) :
    Wins r l c ∨ (next r c).laneIssued l = r.laneIssued l ∨ (next r c).laneIssued l = 0 := by
  cases c with
  | landReads => exact .inr (.inl rfl)
  | pop =>
    refine .inr (.inl ?_)
    simp only [next,CycReader.pop]
    split
    · rfl
    · split <;> rfl
  | commit granted gi =>
    cases active : r.active with
    | false => exact .inr (.inl (by simp [next,commit_eq,active]))
    | true =>
      cases won : r.answer granted gi l with
      | false => exact .inr (.inl (by simp [next,commit_eq,active,CycReader.grantAll,won]))
      | true => exact .inl ⟨active,lane,won⟩
  | reset => exact .inr (.inr rfl)

/-- No call grants a lane that has issued the whole walk. -/
def Fresh (r : CycReader) (c : Call) : Prop :=
  ∀ l < r.cfg.numChannel, Wins r l c → r.laneIssued l < total r.cfg

theorem Within.next {r : CycReader} {c : Call} (within : Within r) (stays : Fresh r c) :
    Within (next r c) := by
  intro l lane issued
  rw [next_cfg] at lane ⊢
  rcases laneIssued_next r c lane with wins | same | zero
  · have := stays l lane wins
    rw [next_laneIssued wins]
    omega
  · rw [same] at issued ⊢
    exact within l lane issued
  · omega

theorem sound_run (r : CycReader) (a : Agu) (nch nsp : Nat) {fd : Int} (prt : Nat) (deep : 0 < fd)
    (calls : List Call) : Sound (cycReader.exec (r.reconfigure a nch nsp fd prt) calls)
      (deliveries (cycReader.outs (r.reconfigure a nch nsp fd prt) calls)) :=
  Sync.Machine.run_rule (fun history r => Sound r (deliveries history))
    (sound_reset _ (reuse_positive a) ⟨deep.le,deep.le⟩) (fun _ _ c sound => sound.next c) calls

theorem within_iff (r : CycReader) (a : Agu) (nch nsp : Nat) {fd : Int} (prt : Nat) (deep : 0 < fd)
    (calls : List Call) :
    (∀ front, front <+: calls → Within (cycReader.exec (r.reconfigure a nch nsp fd prt) front)) ↔
      cycReader.Each (fun _ s c => Fresh s c) (r.reconfigure a nch nsp fd prt) calls := by
  constructor
  · rintro all before c after rfl l lane wins
    have grown := all (before ++ [c]) ⟨after,by simp⟩
    rw [Sync.Machine.exec_append] at grown
    have bound := grown l (by rw [← next_cfg _ c] at lane; exact lane)
    have count : (cycReader.exec (cycReader.exec (r.reconfigure a nch nsp fd prt) before)
        [c]).laneIssued l = _ := next_laneIssued wins
    have positive : 0 ≤ (cycReader.exec (r.reconfigure a nch nsp fd prt) before).laneIssued l := by
      have sound := sound_run r a nch nsp prt deep before
      have := sound.inFlight l lane
      have := sound.pend l lane
      have := sound.consumed l lane
      have := sound.positive
      omega
    rw [count] at bound
    have := bound (by omega)
    have same : (cycReader.exec (cycReader.exec (r.reconfigure a nch nsp fd prt) before) [c]).cfg =
      (cycReader.exec (r.reconfigure a nch nsp fd prt) before).cfg := next_cfg _ c
    rw [same] at this
    omega
  · intro each front ⟨rest,split⟩
    subst split
    refine Sync.Machine.run_rule_each (fun _ s => Within s) each.front ?_ fun _ _ _ => Within.next
    intro l _ issued
    exact absurd issued (by simp [reconfigure,CycReader.reset])

end CycReader

namespace CycWriter

inductive Demand where
  | push (groups : Nat)
  | commit (granted : List Bool) (gi : Nat)

def next (w : CycWriter) : Demand → CycWriter
  | .push groups => w.pushed groups
  | .commit granted gi => (w.commitFlags granted gi).1

/-- The lane is granted by a commit. -/
def wins (w : CycWriter) (granted : List Bool) (gi l : Nat) : Bool :=
  !(w.done || decide (w.fifoOcc ≤ 0)) && decide (l < w.cfg.numChannel) && w.answer granted gi l

/-- The lanes that write in a call, with the addresses they write. -/
def event (w : CycWriter) : Demand → List (Nat × BitVec 64)
  | .push _ => []
  | .commit granted gi => ((List.range w.cfg.numChannel).filter (w.wins granted gi)).map fun l =>
    (l,w.cfg.addrAt w.ti l)

end CycWriter

def writerUnit : Sync.Machine CycWriter CycWriter.Demand (List (Nat × BitVec 64)) where
  next := CycWriter.next
  out := CycWriter.event

namespace CycWriter

open MixedRadix

/-- The position of a group in the loop nest; a bound below one counts as one. -/
def position (bounds : List Int) (group : Nat) : List Int :=
  signed (digits (bounds.map fun e => (max 1 e).toNat) group)

theorem advance_position (bounds : List Int) (group : Nat) :
    advance bounds (position bounds group) = position bounds (group + 1) := by
  have clipped (es : List Int) (digitsOf : List Nat) :
      advance es (signed digitsOf) = advance (signed (es.map fun e => (max 1 e).toNat)) (signed digitsOf) := by
    induction es generalizing digitsOf with
    | nil => rfl
    | cons e es ih =>
      cases digitsOf with
      | nil => rfl
      | cons t rest =>
        have bound : ((t : Int) + 1 < e) ↔ (t : Int) + 1 < ((max 1 e).toNat : Int) := by omega
        have rest' := ih rest
        simp only [signed,List.map_cons,advance] at rest' ⊢
        simp only [bound,rest']
  rw [position,clipped,advance_digits _ (by
    intro b member
    obtain ⟨e,_,rfl⟩ := List.mem_map.mp member
    omega)]
  rfl

/-- The addresses that lane `l` has written. -/
def writes (l : Nat) (history : List (List (Nat × BitVec 64))) : List (BitVec 64) :=
  history.flatten.filterMap fun write => if write.1 = l then some write.2 else none

def pushes (calls : List Demand) : Int :=
  calls.foldl (fun n c => match c with
    | .push groups => n + groups
    | .commit _ _ => n) 0

/-- Every lane has written the groups in order, each once and at its position, up to the group
that is being written; and nothing is written that was not pushed. -/
structure Writes (w : CycWriter) (calls : List Demand) (history : List (List (Nat × BitVec 64))) :
    Prop where
  addresses : ∀ l < w.cfg.numChannel, writes l history =
    (List.range (w.written.toNat + (w.laneDone l).toNat)).map fun k =>
      w.cfg.addrAt (position w.cfg.eb k) l
  pushed : w.written + w.fifoOcc = pushes calls
  written : 0 ≤ w.written ∧ w.written ≤ pushes calls
  under : ∀ l < w.cfg.numChannel, w.laneDone l = true → w.written < pushes calls

theorem filterMap_lane {α : Type} (p : Nat → Bool) (f : Nat → α) (n l : Nat) :
    (((List.range n).filter p).map fun m => (m,f m)).filterMap
      (fun write : Nat × α => if write.1 = l then some write.2 else none) =
      if decide (l < n) && p l then [f l] else [] := by
  induction n with
  | zero => rfl
  | succ n ih =>
    rw [List.range_succ,List.filter_append,List.map_append,List.filterMap_append,ih,
      List.filter_singleton]
    by_cases here : l = n
    · subst here
      cases p l <;> simp
    · have other : ¬ n = l := fun same => here same.symm
      have below : decide (l < n + 1) = decide (l < n) := decide_eq_decide.mpr (by omega)
      rw [below]
      cases p n <;> simp [other]

theorem writes_snoc (l : Nat) (history : List (List (Nat × BitVec 64))) (w : CycWriter) (c : Demand) :
    writes l (history ++ [event w c]) = writes l history ++ match c with
      | .push _ => []
      | .commit granted gi => if w.wins granted gi l then [w.cfg.addrAt w.ti l] else [] := by
  rw [writes,List.flatten_append,List.filterMap_append]
  congr 1
  cases c with
  | push groups => rfl
  | commit granted gi =>
    rw [event,List.flatten_singleton,filterMap_lane]
    have bounded : (decide (l < w.cfg.numChannel) && w.wins granted gi l) = w.wins granted gi l := by
      rw [wins]
      cases decide (l < w.cfg.numChannel) <;> simp
    rw [bounded]

theorem pushes_snoc (calls : List Demand) (c : Demand) :
    pushes (calls ++ [c]) = match c with
      | .push groups => pushes calls + groups
      | .commit _ _ => pushes calls := by
  rw [pushes,List.foldl_append]
  rfl

/-- The bookkeeping behind `Writes`. -/
structure Sound (w : CycWriter) (count : Int) (history : List (List (Nat × BitVec 64))) : Prop where
  alive : w.done = false
  ti : w.ti = position w.cfg.eb w.written.toNat
  addresses : ∀ l < w.cfg.numChannel, writes l history =
    (List.range (w.written.toNat + (w.laneDone l).toNat)).map fun k =>
      w.cfg.addrAt (position w.cfg.eb k) l
  pushed : w.written + w.fifoOcc = count
  written : 0 ≤ w.written
  waiting : 0 ≤ w.fifoOcc
  under : ∀ l, w.laneDone l = true → 0 < w.fifoOcc

theorem Sound.push {w : CycWriter} {count : Int} {history : List (List (Nat × BitVec 64))}
    (sound : Sound w count history) (groups : Nat) :
    Sound (w.pushed groups) (count + groups) (history ++ [[]]) where
  alive := sound.alive
  ti := sound.ti
  addresses l lane := by
    have same : writes l (history ++ [[]]) = writes l history := by simp [writes]
    rw [same]
    exact sound.addresses l lane
  pushed := by
    have := sound.pushed
    simp only [CycWriter.pushed,CycWriter.push]
    omega
  written := sound.written
  waiting := by
    have := sound.waiting
    simp only [CycWriter.pushed,CycWriter.push]
    omega
  under l marked := by
    have := sound.under l marked
    simp only [CycWriter.pushed,CycWriter.push]
    omega

theorem Sound.commit {w : CycWriter} {count : Int} {history : List (List (Nat × BitVec 64))}
    (sound : Sound w count history) (granted : List Bool) (gi : Nat) :
    Sound (w.commitFlags granted gi).1 count (history ++ [event w (.commit granted gi)]) := by
  have wrote (l : Nat) := writes_snoc l history w (.commit granted gi)
  simp only at wrote
  rw [commitFlags_eq]
  by_cases empty : w.fifoOcc ≤ 0
  · have silent (l : Nat) : w.wins granted gi l = false := by simp [wins,empty]
    have same : CycWriter.commit w.cfg w.toState (w.answer granted gi) = w.toState := by
      simp [CycWriter.commit,empty]
    rw [same]
    refine ⟨sound.alive,sound.ti,fun l lane => ?_,sound.pushed,sound.written,sound.waiting,sound.under⟩
    rw [wrote,silent,if_neg Bool.false_ne_true,List.append_nil]
    exact sound.addresses l lane
  · have busy : (w.done || decide (w.fifoOcc ≤ 0)) = false := by simp [sound.alive,empty]
    have won (l : Nat) (lane : l < w.cfg.numChannel) : w.wins granted gi l = w.answer granted gi l := by
      simp [wins,busy,lane]
    have address (l : Nat) (lane : l < w.cfg.numChannel) : writes l (history ++
        [event w (.commit granted gi)]) =
        (List.range (w.written.toNat + (w.laneDone l || w.answer granted gi l).toNat)).map fun k =>
          w.cfg.addrAt (position w.cfg.eb k) l := by
      rw [wrote,sound.addresses l lane,won l lane,sound.ti]
      cases marked : w.laneDone l with
      | true =>
        have silent : w.answer granted gi l = false := by simp [answer,marked]
        simp [silent]
      | false => cases w.answer granted gi l <;> simp [List.range_succ]
    have count' : (w.written + 1).toNat = w.written.toNat + 1 := by have := sound.written; omega
    simp only [CycWriter.commit,busy,Bool.false_eq_true,↓reduceIte]
    split
    · next whole =>
      refine
        { alive := sound.alive
          ti := ?_
          addresses := fun l lane => ?_
          pushed := ?_
          written := by have := sound.written; simp only; omega
          waiting := by simp only; omega
          under := fun _ marked => absurd marked Bool.false_ne_true }
      · simp only
        rw [sound.ti,advance_position,count']
      · have done := List.all_eq_true.mp whole l (List.mem_range.mpr lane)
        rw [decide_eq_true lane,Bool.true_and] at done
        rw [address l lane,done]
        simp only [count',Bool.toNat_true,Bool.toNat_false,Nat.add_zero]
      · have := sound.pushed
        simp only
        omega
    · exact
        { alive := sound.alive
          ti := sound.ti
          addresses := fun l lane => by
            rw [address l lane]
            simp only [decide_eq_true lane,Bool.true_and]
          pushed := sound.pushed
          written := sound.written
          waiting := sound.waiting
          under := fun _ _ => by simp only; omega }

theorem written_run (a : Agu) (nch nsp prt : Nat) (depth : Int) (calls : List Demand) :
    Sound (writerUnit.exec (reconfigure a nch nsp prt depth) calls) (pushes calls)
      (writerUnit.outs (reconfigure a nch nsp prt depth) calls) := by
  induction calls using List.reverseRecOn with
  | nil =>
    have bounds : (reconfigure a nch nsp prt depth).cfg.eb.length = 4 := by
      simp [reconfigure,configure,Agu.effectiveBounds]
    refine ⟨rfl,?_,fun _ _ => rfl,rfl,Int.le_refl 0,Int.le_refl 0,fun _ marked => absurd marked Bool.false_ne_true⟩
    change [0,0,0,0] = position _ 0
    rw [position,digits_zero,List.length_map]
    change _ = signed (List.replicate (reconfigure a nch nsp prt depth).cfg.eb.length 0)
    rw [bounds]
    rfl
  | append_singleton calls c ih =>
    rw [Sync.Machine.exec_append,Sync.Machine.outs_append,pushes_snoc]
    cases c with
    | push groups => exact ih.push groups
    | commit granted gi => exact ih.commit granted gi

theorem Sound.writes {w : CycWriter} {calls : List Demand} {history : List (List (Nat × BitVec 64))}
    (sound : Sound w (pushes calls) history) : Writes w calls history where
  addresses := sound.addresses
  pushed := sound.pushed
  written := ⟨sound.written,by have := sound.pushed; have := sound.waiting; omega⟩
  under l _ marked := by
    have := sound.pushed
    have := sound.under l marked
    omega

end CycWriter

open CycReader in
/-- From a configuration on, whatever is granted, landed, popped and restarted, a reader
conserves its groups, and it stays within the walk exactly when no lane that has issued all of
it is granted more; a writer writes what was pushed. -/
theorem streamers_conserve (a : Agu) (nch nsp prt : Nat) (depth : Int) (deep : 0 < depth) :
    (∀ (r : CycReader) (calls : List CycReader.Call),
      (∀ front, front <+: calls →
        CycReader.Conserves (cycReader.exec (r.reconfigure a nch nsp depth prt) front)
          (CycReader.deliveries (cycReader.outs (r.reconfigure a nch nsp depth prt) front)) ∧
        CycReader.Within (cycReader.exec (r.reconfigure a nch nsp depth prt) front)) ↔
      cycReader.Each (fun _ s c => CycReader.Fresh s c) (r.reconfigure a nch nsp depth prt) calls) ∧
    ∀ calls, CycWriter.Writes (writerUnit.exec (CycWriter.reconfigure a nch nsp prt depth) calls) calls
      (writerUnit.outs (CycWriter.reconfigure a nch nsp prt depth) calls) := by
  refine ⟨fun r calls => ?_,fun calls => (CycWriter.written_run a nch nsp prt depth calls).writes⟩
  rw [← within_iff r a nch nsp prt deep calls]
  exact ⟨fun both front prefixed => (both front prefixed).2,
    fun within front prefixed => ⟨(sound_run r a nch nsp prt deep front).conserves,within front prefixed⟩⟩

/-- A walk of one group. -/
def oneGroup : Agu := ⟨0x10000000,#v[8,0],#v[1,1,1,1],#v[8,0,0,0],0⟩

theorem streamers_conserve_one_group :
    (∀ (r : CycReader) (calls : List CycReader.Call),
      (∀ front, front <+: calls →
        CycReader.Conserves (cycReader.exec (r.reconfigure oneGroup 1 1 2 0) front)
          (CycReader.deliveries (cycReader.outs (r.reconfigure oneGroup 1 1 2 0) front)) ∧
        CycReader.Within (cycReader.exec (r.reconfigure oneGroup 1 1 2 0) front)) ↔
      cycReader.Each (fun _ s c => CycReader.Fresh s c) (r.reconfigure oneGroup 1 1 2 0) calls) ∧
    ∀ calls, CycWriter.Writes (writerUnit.exec (CycWriter.reconfigure oneGroup 1 1 0 2) calls) calls
      (writerUnit.outs (CycWriter.reconfigure oneGroup 1 1 0 2) calls) :=
  streamers_conserve oneGroup 1 1 0 2 (by decide)

/-- Two cycles in which the lane wins its bank. -/
def twoGrants : List CycReader.Call := [.commit [true] 0,.landReads,.commit [true] 0]

/-- The lane reads the only group a second time. -/
theorem streamers_conserve_beyond :
    ¬ ∀ (a : Agu) (nch nsp prt : Nat) (depth : Int), 0 < depth →
      ∀ (r : CycReader) (calls : List CycReader.Call),
        CycReader.Within (cycReader.exec (r.reconfigure a nch nsp depth prt) calls) := by
  intro all
  have within := all oneGroup 1 1 0 2 (by decide) CycReader.fresh twoGrants
  exact absurd (within 0 (by decide +kernel) (by decide +kernel)) (by decide +kernel)

end Snax
