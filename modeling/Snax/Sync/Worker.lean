/-! A worker that is called to one job after the other. It shows that it is busy some time
after the call and until the job is done. -/
namespace Sync.Worker

inductive Phase
  | rest
  /-- Called, and not busy yet. -/
  | called
  | working
  deriving DecidableEq

namespace Phase

def next (phase : Phase) (call busy : Bool) : Phase :=
  match phase with
  | .rest => if call then .called else .rest
  | .called => if busy then .working else .called
  | .working => if busy then .working else if call then .called else .rest

/-- A worker that has not been called is not busy. -/
def Shows (phase : Phase) (busy : Bool) : Prop := phase = .rest → busy = false

instance (phase : Phase) (busy : Bool) : Decidable (phase.Shows busy) :=
  inferInstanceAs (Decidable (_ → _))

/-- The job is done: busy has risen after the call and falls now. -/
def ends (phase : Phase) (busy : Bool) : Bool := phase == .working && !busy

theorem ends_iff {phase : Phase} {busy : Bool} :
    phase.ends busy = true ↔ phase = .working ∧ busy = false := by
  cases phase <;> cases busy <;> simp [ends]

end Phase

end Sync.Worker
