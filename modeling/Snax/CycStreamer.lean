import Snax.SimStreamer

/-! `sim/src/cyc.hpp` and `cyc.cpp`: the streamer classes as the steppers drive them. A commit
reads one grant flag for every lane that has posted, in the order of the lanes. What a reader is
granted lands in the next cycle, and a group can be popped once all lanes have landed it. -/
namespace Snax

/-- A `CycReader`; `State` holds the members that a proposal reads. -/
structure CycReader extends CycReader.State where
  cfg : CycReader.Cfg
  pend : Nat → Int
  reuseLeft : Int
  fifoOcc : Int
  ti : List Int
  pendingPush : Int
  done : Bool

namespace CycReader

/-- A reader that was never configured. -/
def fresh : CycReader where
  laneIssued _ := 0
  laneLanded _ := 0
  consumed := 0
  active := false
  cfg := ⟨⟨0,[0,0,0,0],[1,1,1,1],1,1,#v[8,0],1,0,0⟩,8,4,1⟩
  pend _ := 0
  reuseLeft := 0
  fifoOcc := 0
  ti := [0,0,0,0]
  pendingPush := 0
  done := false

/-- Restarts the walk; the position of the last grant stays. -/
def reset (r : CycReader) : CycReader :=
  { r with
    laneIssued := fun _ => 0
    laneLanded := fun _ => 0
    pend := fun _ => 0
    consumed := 0
    reuseLeft := 0
    fifoOcc := 0
    pendingPush := 0
    done := false
    active := true }

/-- `CycReader::configure` on an object that was in use before. -/
def reconfigure (r : CycReader) (a : Agu) (nch nsp : Nat) (fd : Int) (prt : Nat) : CycReader :=
  reset { r with cfg := configure a nch nsp fd prt }

/-- The groups the consumer sees, those that all lanes have landed. -/
def visible (r : CycReader) : Int :=
  if 1 < r.cfg.reuse then (if r.consumed < minLanded r.cfg r.toState then 1 else 0)
  else minLanded r.cfg r.toState - r.consumed

def landed (r : CycReader) : CycReader :=
  { r with
    laneLanded := fun l => if l < r.cfg.numChannel then r.laneLanded l + r.pend l else r.laneLanded l
    pend := fun l => if l < r.cfg.numChannel then 0 else r.pend l }

def landReads (r : CycReader) : CycReader := { r.landed with fifoOcc := r.landed.visible }

def taken (r : CycReader) : CycReader :=
  { r with
    consumed := r.consumed + 1
    reuseLeft := if 1 < r.cfg.reuse then r.cfg.reuse - 1 else r.reuseLeft }

/-- The value that `pop` returns tells whether it delivered a group. -/
def pop (r : CycReader) : CycReader × Bool :=
  if 0 < r.reuseLeft then ({ r with reuseLeft := r.reuseLeft - 1 },true)
  else if r.consumed < minLanded r.cfg r.toState then
    ({ r.taken with fifoOcc := r.taken.visible },true)
  else (r,false)

/-- The loop position of a group, `set_ti`. -/
def position (r : CycReader) (group : Int) : List Int :=
  Agu.unroll r.cfg.eb (group.tmod (if total r.cfg ≠ 0 then total r.cfg else 1))

def grant (r : CycReader) (l : Nat) : CycReader :=
  { r with
    ti := if l = 0 then r.position (r.laneIssued l) else r.ti
    laneIssued := fun m => if m = l then r.laneIssued m + 1 else r.laneIssued m
    pend := fun m => if m = l then r.pend m + 1 else r.pend m
    pendingPush := r.pendingPush + 1 }

/-- One turn of the loop in `commit`. `granted[grant_idx++]` is read at `gi` and the number of
lanes that have read a flag before. -/
def commitLane (granted : List Bool) (gi : Nat) (acc : CycReader × List Nat) (l : Nat) :
    CycReader × List Nat :=
  if issues acc.1.cfg acc.1.toState l then
    (if granted.getD (gi + acc.2.length) false then acc.1.grant l else acc.1,acc.2 ++ [l])
  else acc

/-- The reader after a commit, and the lanes that have read a flag. -/
def commit (r : CycReader) (granted : List Bool) (gi : Nat) : CycReader × List Nat :=
  if r.active then
    (List.range r.cfg.numChannel).foldl (commitLane granted gi) ({ r with pendingPush := 0 },[])
  else ({ r with pendingPush := 0 },[])

/-- What `propose` posts, with the lanes that post it. -/
def proposals (r : CycReader) : List (Nat × Post) :=
  if r.active then ((List.range r.cfg.numChannel).filter (issues r.cfg r.toState)).map fun l =>
    (l,lanePost r.cfg r.toState l)
  else []

theorem proposals_posts (r : CycReader) : r.proposals.map Prod.snd = propose r.cfg r.toState := by
  rw [proposals,propose]
  split
  · rw [List.map_map]
    rfl
  · rfl

/-! ### What a commit does -/

/-- The flag of lane `l`, if it has posted. -/
def answer (r : CycReader) (granted : List Bool) (gi l : Nat) : Bool :=
  issues r.cfg r.toState l &&
    granted.getD (gi + ((List.range l).filter (issues r.cfg r.toState)).length) false

/-- Of the lanes below `n`, those that are granted move on at once. -/
def grantAll (r : CycReader) (n : Nat) (answers : Nat → Bool) : CycReader :=
  { r with
    ti := if decide (0 < n) && answers 0 then r.position (r.laneIssued 0) else r.ti
    laneIssued := fun l => if decide (l < n) && answers l then r.laneIssued l + 1 else r.laneIssued l
    pend := fun l => if decide (l < n) && answers l then r.pend l + 1 else r.pend l
    pendingPush := r.pendingPush + ((List.range n).filter answers).length }

theorem grantAll_zero (r : CycReader) (answers : Nat → Bool) : r.grantAll 0 answers = r := by
  simp [grantAll]

theorem grantAll_succ_none (r : CycReader) {n : Nat} {answers : Nat → Bool}
    (none : answers n = false) : r.grantAll (n + 1) answers = r.grantAll n answers := by
  have same (l : Nat) : (decide (l < n + 1) && answers l) = (decide (l < n) && answers l) := by
    by_cases here : l = n
    · rw [here,none,Bool.and_false,Bool.and_false]
    · rw [show decide (l < n + 1) = decide (l < n) from decide_eq_decide.mpr (by omega)]
  simp only [grantAll,same,List.range_succ,List.filter_append,List.filter_singleton,none,cond_false,
    List.append_nil]

theorem grantAll_succ_granted (r : CycReader) {n : Nat} {answers : Nat → Bool}
    (won : answers n = true) : r.grantAll (n + 1) answers = (r.grantAll n answers).grant n := by
  have same (l : Nat) : (decide (l < n + 1) && answers l) =
      if l = n then true else decide (l < n) && answers l := by
    by_cases here : l = n
    · simp [here,won]
    · rw [if_neg here,show decide (l < n + 1) = decide (l < n) from decide_eq_decide.mpr (by omega)]
  have count : (((List.range (n + 1)).filter answers).length : Int) =
      ((List.range n).filter answers).length + 1 := by
    rw [List.range_succ,List.filter_append,List.filter_singleton,won,List.length_append]
    rfl
  have issued (l : Nat) : (if (if l = n then true else decide (l < n) && answers l) = true then
      r.laneIssued l + 1 else r.laneIssued l) = if l = n then
        (if (decide (l < n) && answers l) = true then r.laneIssued l + 1 else r.laneIssued l) + 1
      else if (decide (l < n) && answers l) = true then r.laneIssued l + 1 else r.laneIssued l := by
    by_cases here : l = n <;> simp [here]
  have pended (l : Nat) : (if (if l = n then true else decide (l < n) && answers l) = true then
      r.pend l + 1 else r.pend l) = if l = n then
        (if (decide (l < n) && answers l) = true then r.pend l + 1 else r.pend l) + 1
      else if (decide (l < n) && answers l) = true then r.pend l + 1 else r.pend l := by
    by_cases here : l = n <;> simp [here]
  have moved : (if (decide (0 < n + 1) && answers 0) = true then r.position (r.laneIssued 0) else r.ti) =
      if n = 0 then (r.grantAll n answers).position ((r.grantAll n answers).laneIssued n)
      else (r.grantAll n answers).ti := by
    by_cases first : n = 0
    · subst first
      simp [grantAll,won,position]
    · rw [if_neg first,same,if_neg (Ne.symm first)]
      rfl
  rw [grant,← moved]
  simp only [grantAll,count,same,issued,pended,Int.add_assoc]

theorem foldl_commitLane (r : CycReader) (granted : List Bool) (gi n : Nat) :
    (List.range n).foldl (commitLane granted gi) (r,[]) =
      (r.grantAll n (r.answer granted gi),(List.range n).filter (issues r.cfg r.toState)) := by
  induction n with
  | zero => rw [grantAll_zero]; rfl
  | succ n ih =>
    have unread : issues (r.grantAll n (r.answer granted gi)).cfg
        (r.grantAll n (r.answer granted gi)).toState n = issues r.cfg r.toState n := by
      simp [issues,grantAll]
    rw [List.range_succ,List.foldl_append,ih,List.foldl_cons,List.foldl_nil,commitLane,unread,
      List.filter_append,List.filter_singleton]
    cases want : issues r.cfg r.toState n with
    | false =>
      have silent : r.answer granted gi n = false := by rw [answer,want,Bool.false_and]
      rw [grantAll_succ_none r silent]
      simp
    | true =>
      have flag : granted.getD (gi + ((List.range n).filter (issues r.cfg r.toState)).length) false =
          r.answer granted gi n := by rw [answer,want,Bool.true_and]
      rw [flag]
      cases won : r.answer granted gi n with
      | false =>
        rw [grantAll_succ_none r won]
        simp
      | true =>
        rw [grantAll_succ_granted r won]
        simp

/-- A commit grants each lane the flag of its own post, and reads one flag a post. -/
theorem commit_eq (r : CycReader) (granted : List Bool) (gi : Nat) :
    r.commit granted gi =
      (if r.active then { r with pendingPush := 0 }.grantAll r.cfg.numChannel (r.answer granted gi)
        else { r with pendingPush := 0 },r.proposals.map Prod.fst) := by
  rw [commit,proposals]
  cases r.active with
  | false => rfl
  | true =>
    simp only [↓reduceIte,List.map_map]
    rw [foldl_commitLane]
    exact Prod.ext rfl (List.map_id _).symm

end CycReader

/-- A `CycWriter`. -/
structure CycWriter extends CycWriter.State where
  cfg : CycWriter.Cfg

namespace CycWriter

/-- A writer that was never configured. -/
def fresh : CycWriter where
  toState := configured
  cfg := ⟨⟨0,[0,0,0,0],[1,1,1,1],1,1,#v[8,0],1,0,0⟩,8⟩

/-- `CycWriter::configure`; the depth is a member that the engine sets afterwards. -/
def reconfigure (a : Agu) (nch nsp prt : Nat) (depth : Int) : CycWriter where
  toState := configured
  cfg := configure a nch nsp prt depth

def pushed (w : CycWriter) (groups : Int) : CycWriter := { w with toState := push w.toState groups }

/-- `total_beats`. -/
def totalBeats (w : CycWriter) : Int := w.cfg.eb.foldl (fun acc e => (BitVec.ofInt 64 (acc * e)).toInt) 1

def mark (w : CycWriter) (l : Nat) : CycWriter :=
  { w with laneDone := fun m => if m = l then true else w.laneDone m }

/-- One turn of the loop in `commit`, with `all` and the lanes that have read a flag. -/
def commitLane (granted : List Bool) (gi : Nat) (acc : CycWriter × Bool × List Nat) (l : Nat) :
    CycWriter × Bool × List Nat :=
  if acc.1.laneDone l then acc
  else if granted.getD (gi + acc.2.2.length) false then (acc.1.mark l,acc.2.1,acc.2.2 ++ [l])
  else (acc.1,false,acc.2.2 ++ [l])

/-- The whole group is written. -/
def complete (w : CycWriter) : CycWriter :=
  { w with
    written := w.written + 1
    fifoOcc := w.fifoOcc - 1
    laneDone := fun _ => false
    ti := advance w.cfg.eb w.ti }

/-- `CycWriter::commit` on the flags of the fabric, with the lanes that have read one. -/
def commitFlags (w : CycWriter) (granted : List Bool) (gi : Nat) : CycWriter × List Nat :=
  if w.done || w.fifoOcc ≤ 0 then (w,[])
  else
    let x := (List.range w.cfg.numChannel).foldl (commitLane granted gi) (w,true,[])
    (if x.2.1 then x.1.complete else x.1,x.2.2)

/-- What `propose` posts, with the lanes that post it. -/
def proposals (w : CycWriter) : List (Nat × Post) :=
  if w.done || w.fifoOcc ≤ 0 then []
  else ((List.range w.cfg.numChannel).filter fun l => !w.laneDone l).map fun l =>
    (l,lanePost w.cfg w.toState l)

theorem proposals_posts (w : CycWriter) : w.proposals.map Prod.snd = propose w.cfg w.toState := by
  rw [proposals,propose]
  split
  · rfl
  · rw [List.map_map]
    rfl

/-- The flag of lane `l`, if it has posted. -/
def answer (w : CycWriter) (granted : List Bool) (gi l : Nat) : Bool :=
  !w.laneDone l && granted.getD (gi + ((List.range l).filter fun m => !w.laneDone m).length) false

/-- Of the lanes below `n`, those that are granted are done at once. -/
def markAll (w : CycWriter) (n : Nat) (answers : Nat → Bool) : CycWriter :=
  { w with laneDone := fun l => w.laneDone l || (decide (l < n) && answers l) }

theorem foldl_commitLane (w : CycWriter) (granted : List Bool) (gi n : Nat) :
    (List.range n).foldl (commitLane granted gi) (w,true,[]) =
      (w.markAll n (w.answer granted gi),
        (List.range n).all (fun l => w.laneDone l || w.answer granted gi l),
        (List.range n).filter fun l => !w.laneDone l) := by
  induction n with
  | zero => simp [markAll]
  | succ n ih =>
    have marked (l : Nat) : (decide (l < n + 1) && w.answer granted gi l) =
        if l = n then w.answer granted gi n else decide (l < n) && w.answer granted gi l := by
      by_cases here : l = n
      · simp [here]
      · rw [if_neg here,show decide (l < n + 1) = decide (l < n) from decide_eq_decide.mpr (by omega)]
    have unread : (w.markAll n (w.answer granted gi)).laneDone n = w.laneDone n := by simp [markAll]
    rw [List.range_succ,List.foldl_append,ih,List.foldl_cons,List.foldl_nil,commitLane,unread,
      List.filter_append,List.filter_singleton,List.all_append,List.all_cons,List.all_nil,Bool.and_true]
    cases finished : w.laneDone n with
    | true =>
      have silent : w.answer granted gi n = false := by rw [answer,finished]; rfl
      have same : w.markAll (n + 1) (w.answer granted gi) = w.markAll n (w.answer granted gi) := by
        simp only [markAll,marked,silent]
        congr 2
        funext l
        by_cases here : l = n <;> simp [here]
      simp [same]
    | false =>
      have flag : granted.getD (gi + ((List.range n).filter fun l => !w.laneDone l).length) false =
          w.answer granted gi n := by rw [answer,finished]; rfl
      have same : w.markAll (n + 1) (w.answer granted gi) =
          if w.answer granted gi n then (w.markAll n (w.answer granted gi)).mark n
          else w.markAll n (w.answer granted gi) := by
        cases won : w.answer granted gi n with
        | true =>
          simp only [markAll,mark,marked,won,↓reduceIte]
          congr 2
          funext l
          by_cases here : l = n <;> simp [here]
        | false =>
          simp only [markAll,marked,won,Bool.false_eq_true,↓reduceIte]
          congr 2
          funext l
          by_cases here : l = n <;> simp [here]
      rw [flag,same]
      cases w.answer granted gi n <;> simp

/-- A commit answers each lane with the flag of its own post, and reads one flag a post. -/
theorem commitFlags_eq (w : CycWriter) (granted : List Bool) (gi : Nat) :
    w.commitFlags granted gi =
      ({ w with toState := commit w.cfg w.toState (w.answer granted gi) },w.proposals.map Prod.fst) := by
  rw [commitFlags,proposals,commit]
  split
  · rfl
  · have consulted : ((List.range w.cfg.numChannel).filter fun l => !w.laneDone l) =
        (((List.range w.cfg.numChannel).filter fun l => !w.laneDone l).map fun l =>
          (l,lanePost w.cfg w.toState l)).map Prod.fst := by
      rw [List.map_map]
      exact (List.map_id _).symm
    have finished : ((List.range w.cfg.numChannel).all fun l =>
          w.laneDone l || (decide (l < w.cfg.numChannel) && w.answer granted gi l)) =
        (List.range w.cfg.numChannel).all fun l => w.laneDone l || w.answer granted gi l := by
      rw [Bool.eq_iff_iff,List.all_eq_true,List.all_eq_true]
      refine forall₂_congr fun l member => ?_
      rw [decide_eq_true (List.mem_range.mp member),Bool.true_and]
    rw [foldl_commitLane,← consulted]
    refine Prod.ext ?_ rfl
    simp only [finished]
    split <;> rfl

end CycWriter
end Snax
