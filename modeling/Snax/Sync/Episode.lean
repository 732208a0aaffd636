import Mathlib.Data.List.Basic

/-! The part of a history since the last opening output, which is the running episode
of a component that opens one episode after the other. -/
namespace Sync

variable {α : Type}

def extend (opens : α → Bool) (running : List α) (o : α) : List α :=
  if opens o then [o] else if running = [] then [] else running ++ [o]

/-- The outputs from the last opening one on; none before the first. -/
def episode (opens : α → Bool) (history : List α) : List α := history.foldl (extend opens) []

variable {opens : α → Bool}

theorem episode_append (history : List α) (o : α) :
    episode opens (history ++ [o]) = extend opens (episode opens history) o := by
  simp [episode]

theorem episode_open (history : List α) {o : α} (opening : opens o = true) :
    episode opens (history ++ [o]) = [o] := by
  rw [episode_append,extend,if_pos opening]

theorem episode_continue (history : List α) {o : α} (going : opens o = false)
    (running : episode opens history ≠ []) :
    episode opens (history ++ [o]) = episode opens history ++ [o] := by
  simp [episode_append,extend,going,running]

/-- A count over the running episode starts anew with an opening output. -/
theorem countP_episode_append (p : α → Bool) (history : List α) (o : α) :
    (episode opens (history ++ [o])).countP p =
      if opens o then (p o).toNat
      else if episode opens history = [] then 0
      else (episode opens history).countP p + (p o).toNat := by
  have single : [o].countP p = (p o).toNat := by cases h : p o <;> simp [h]
  rw [episode_append,extend]
  split
  · exact single
  · split
    · rfl
    · rw [List.countP_append,single]

end Sync
