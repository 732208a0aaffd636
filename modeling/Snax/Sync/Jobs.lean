import Mathlib.Data.List.Basic

/-! A worker is given one job after the other, each for a number of items, and turns the
items of one stream into results: the n-th item under the job whose turn the n-th is. -/
namespace Sync.Jobs

variable {κ ι ο : Type} (len : κ → Nat) (work : κ → ι → ο)

/-- Every job as often as it has items. -/
def schedule (jobs : List κ) : List κ := jobs.flatMap fun job => List.replicate (len job) job

def results (jobs : List κ) (items : List ι) : List ο := List.zipWith work (schedule len jobs) items

variable {len work}

@[simp] theorem schedule_nil : schedule len ([] : List κ) = [] := rfl

@[simp] theorem results_nil (jobs : List κ) : results len work jobs [] = [] := List.zipWith_nil_right

theorem schedule_append (jobs more : List κ) :
    schedule len (jobs ++ more) = schedule len jobs ++ schedule len more := List.flatMap_append

@[simp] theorem schedule_snoc (jobs : List κ) (job : κ) :
    schedule len (jobs ++ [job]) = schedule len jobs ++ List.replicate (len job) job := by
  simp [schedule]

theorem length_schedule_snoc (jobs : List κ) (job : κ) :
    (schedule len (jobs ++ [job])).length = (schedule len jobs).length + len job := by simp

/-- The turns of the last job. -/
theorem schedule_last {jobs : List κ} {job : κ} {n : Nat} (turn : n < len job) :
    (schedule len (jobs ++ [job]))[(schedule len jobs).length + n]? = some job := by
  rw [schedule_snoc,List.getElem?_append_right (Nat.le_add_right _ _),Nat.add_sub_cancel_left,
    List.getElem?_replicate,if_pos turn]

theorem results_length {jobs : List κ} {items : List ι} (few : items.length ≤ (schedule len jobs).length) :
    (results len work jobs items).length = items.length := by
  rw [results,List.length_zipWith]
  omega

/-- One more item, worked on under the job whose turn it is. -/
theorem results_snoc {jobs : List κ} {items : List ι} {job : κ}
    (turn : (schedule len jobs)[items.length]? = some job) (item : ι) :
    results len work jobs (items ++ [item]) = results len work jobs items ++ [work job item] := by
  unfold results
  generalize schedule len jobs = turns at turn
  induction items generalizing turns with
  | nil =>
    cases turns with
    | nil => simp at turn
    | cons first turns =>
      obtain rfl : first = job := by simpa using turn
      simp
  | cons x items ih =>
    cases turns with
    | nil => simp at turn
    | cons first turns => simpa using ih turns (by simpa using turn)

/-- More jobs change nothing about the items that had their turn. -/
theorem results_more {jobs : List κ} {items : List ι} (few : items.length ≤ (schedule len jobs).length)
    (more : List κ) : results len work (jobs ++ more) items = results len work jobs items := by
  unfold results
  rw [schedule_append]
  generalize schedule len jobs = turns at few
  induction items generalizing turns with
  | nil => simp
  | cons x items ih =>
    cases turns with
    | nil => simp at few
    | cons first turns => simpa using ih turns (by simpa using few)

theorem results_eq_map (jobs : List κ) (items : List ι) :
    results len work jobs items = (results len Prod.mk jobs items).map fun turn => work turn.1 turn.2 := by
  rw [results,results,List.map_zipWith]

end Sync.Jobs
