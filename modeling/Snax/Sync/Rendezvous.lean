/-! Two lanes through which numbered jobs pass in order, one at a time each. A paired job
passes both lanes and starts on each only while the other lane holds it too. Then it starts
on both at once, whichever lane it reaches first. -/
namespace Sync.Rendezvous

/-- The job in a lane; the lane keeps it after it is done. -/
structure Lane where
  label : Nat
  paired : Bool
  /-- The job is there and has not started. -/
  fresh : Bool

/-- One cycle of a lane: the job stays, and starts or not, or a later one takes its place. -/
inductive Moves (start : Bool) (a a' : Lane) : Prop
  | stays (label : a'.label = a.label) (paired : a'.paired = a.paired)
      (fresh : a'.fresh = (a.fresh && !start))
  | replaced (later : a.label < a'.label ∨ (a'.label = a.label ∧ a.paired = false ∧ a'.paired = false))
      (fresh : a'.fresh = true)

structure Joint (a b : Lane) : Prop where
  together : a.paired = true → a.label = b.label → a.fresh = b.fresh
  ahead : b.paired = true → a.label < b.label → b.fresh = true
  behind : a.paired = true → b.label < a.label → a.fresh = true

/-- A paired job starts only where the other lane holds it, and there on both. -/
structure Meets (a b : Lane) (startA startB : Bool) : Prop where
  onlyA : startA = true → a.paired = true → a.label = b.label
  onlyB : startB = true → b.paired = true → a.label = b.label
  both : a.paired = true → a.label = b.label → a.fresh = true → b.fresh = true → startA = startB

theorem Moves.label_le {start : Bool} {a a' : Lane} (moves : Moves start a a') : a.label ≤ a'.label := by
  cases moves with
  | stays label _ _ => exact Nat.le_of_eq label.symm
  | replaced later _ => exact later.elim Nat.le_of_lt fun same => Nat.le_of_eq same.1.symm

/-- A fresh job that cannot start yet is still fresh a cycle later. -/
theorem Moves.fresh_of {start : Bool} {a a' : Lane} (moves : Moves start a a')
    (waits : a'.label = a.label → a'.paired = a.paired → a.fresh = true ∧ start = false) :
    a'.fresh = true := by
  cases moves with
  | stays label paired fresh =>
    obtain ⟨before,idle⟩ := waits label paired
    rw [fresh,before,idle]
    rfl
  | replaced _ fresh => exact fresh

theorem Joint.next {a b a' b' : Lane} {startA startB : Bool} (joint : Joint a b)
    (meets : Meets a b startA startB) (movesA : Moves startA a a') (movesB : Moves startB b b')
    (agree' : a'.label = b'.label → a'.paired = b'.paired) : Joint a' b' := by
  have waitsA : a.paired = true → b.label < a.label → a.fresh = true ∧ startA = false := by
    intro paired before
    refine ⟨joint.behind paired before,?_⟩
    cases start : startA with
    | false => rfl
    | true => exact absurd (meets.onlyA start paired) (Nat.ne_of_gt before)
  have waitsB : b.paired = true → a.label < b.label → b.fresh = true ∧ startB = false := by
    intro paired before
    refine ⟨joint.ahead paired before,?_⟩
    cases start : startB with
    | false => rfl
    | true => exact absurd (meets.onlyB start paired) (Nat.ne_of_lt before)
  refine ⟨fun paired same => ?_,fun paired before => ?_,fun paired before => ?_⟩
  · cases movesA with
    | stays labelA pairedA freshA =>
      cases movesB with
      | stays labelB pairedB freshB =>
        have one : a.label = b.label := by rw [← labelA,same,labelB]
        have is_paired : a.paired = true := by rw [← pairedA,paired]
        have fresh := joint.together is_paired one
        rw [freshA,freshB,fresh]
        cases waiting : b.fresh with
        | false => rfl
        | true => rw [meets.both is_paired one (fresh.trans waiting) waiting]
      | replaced later freshB =>
        have is_paired : a.paired = true := by rw [← pairedA,paired]
        rcases later with before | ⟨label,_,unpaired⟩
        · obtain ⟨waiting,idle⟩ := waitsA is_paired (by omega)
          rw [freshA,freshB,waiting,idle]
          rfl
        · rw [agree' same,unpaired] at paired
          exact absurd paired Bool.false_ne_true
    | replaced later freshA =>
      rcases later with before | ⟨label,_,unpaired⟩
      · rw [freshA]
        symm
        apply movesB.fresh_of
        intro labelB pairedB
        apply waitsB
        · rw [← pairedB,← agree' same,paired]
        · omega
      · rw [unpaired] at paired
        exact absurd paired Bool.false_ne_true
  · apply movesB.fresh_of
    intro labelB pairedB
    apply waitsB
    · rw [← pairedB,paired]
    · have := movesA.label_le
      omega
  · apply movesA.fresh_of
    intro labelA pairedA
    apply waitsA
    · rw [← pairedA,paired]
    · have := movesB.label_le
      omega

section Start

variable {a b : Lane} {startA startB : Bool} (joint : Joint a b) (meets : Meets a b startA startB)
include joint meets

end Start

end Sync.Rendezvous
