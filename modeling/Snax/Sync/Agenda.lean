import Mathlib.Data.List.Basic

/-! Jobs served one after the other in their order, each as soon as it is released and the
one before it has ended: when each starts, and how many have ended by a given time. -/
namespace Sync.Agenda

variable {κ : Type} (release length : κ → Nat)

/-- The start of job `i` when the first may start at time `t`. -/
def start : List κ → Nat → Nat → Nat
  | [],t,_ => t
  | job :: _,t,0 => max t (release job)
  | job :: jobs,t,i + 1 => start jobs (max t (release job) + length job) i

/-- The jobs that have ended by time `c`. -/
def ended (jobs : List κ) (t c : Nat) : Nat :=
  jobs.zipIdx.countP fun (job,i) => start release length jobs t i + length job ≤ c

variable {release length} {jobs : List κ} {job other : κ} {i k : Nat}

theorem le_start (jobs : List κ) (t i : Nat) : t ≤ start release length jobs t i := by
  induction jobs generalizing t i with
  | nil => exact Nat.le_refl t
  | cons job jobs ih =>
    cases i with
    | zero => exact Nat.le_max_left _ _
    | succ i => exact Nat.le_trans (Nat.le_add_right_of_le (Nat.le_max_left _ _)) (ih _ i)

theorem release_le (member : jobs[i]? = some job) (t : Nat) :
    release job ≤ start release length jobs t i := by
  induction jobs generalizing t i with
  | nil => simp at member
  | cons first jobs ih =>
    cases i with
    | zero =>
      obtain rfl : first = job := by simpa using member
      exact Nat.le_max_right _ _
    | succ i => exact ih (by simpa using member) _

/-- A job ends before the next ones start. -/
theorem end_le_start (member : jobs[i]? = some job) (later : i < k) (t : Nat) :
    start release length jobs t i + length job ≤ start release length jobs t k := by
  induction jobs generalizing t i k with
  | nil => simp at member
  | cons first jobs ih =>
    obtain ⟨k,rfl⟩ : ∃ n, k = n + 1 := ⟨k - 1,by omega⟩
    cases i with
    | zero =>
      obtain rfl : first = job := by simpa using member
      exact le_start jobs _ k
    | succ i => exact ih (by simpa using member) (Nat.lt_of_succ_lt_succ later) _

theorem ended_cons (job : κ) (jobs : List κ) (t c : Nat) : ended release length (job :: jobs) t c =
    (if max t (release job) + length job ≤ c then 1 else 0) +
      ended release length jobs (max t (release job) + length job) c := by
  rw [ended,List.zipIdx_cons,List.countP_cons,List.zipIdx_succ,List.countP_map,Nat.add_comm]
  simp only [decide_eq_true_eq]
  rfl

/-- Before the first may start none has ended. -/
theorem ended_zero (positive : ∀ job ∈ jobs, 0 < length job) {t c : Nat} (early : c ≤ t) :
    ended release length jobs t c = 0 := by
  induction jobs generalizing t with
  | nil => rfl
  | cons job jobs ih =>
    have some := positive job (List.mem_cons_self ..)
    have room := Nat.le_max_left t (release job)
    rw [ended_cons,if_neg (by omega),ih (fun other member => positive other (List.mem_cons_of_mem _ member))
      (by omega)]

theorem ended_le (jobs : List κ) (t c : Nat) : ended release length jobs t c ≤ jobs.length :=
  Nat.le_trans List.countP_le_length (Nat.le_of_eq List.length_zipIdx)

end Sync.Agenda
