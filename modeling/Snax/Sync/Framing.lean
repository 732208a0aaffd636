import Mathlib.Data.List.Induction

/-! Messages cut into frames, where the first frame of a message announces how many
frames the message has. A frame that announces none belongs to no message. -/
namespace Framing

variable {α : Type} (announced : α → Nat)

/-- The messages received in full, and the frames of the one under way. -/
structure Intake (α : Type) where
  complete : List (List α)
  current : List α

def push (r : Intake α) (frame : α) : Intake α :=
  let count := announced (r.current.headD frame)
  if count = 0 then r
  else if r.current.length + 1 < count then ⟨r.complete,r.current ++ [frame]⟩
  else ⟨r.complete ++ [r.current ++ [frame]],[]⟩

def intake (frames : List α) : Intake α := frames.foldl (push announced) ⟨[],[]⟩

/-- A message whose first frame announces its length. -/
def Whole (message : List α) : Prop :=
  ∃ first rest, message = first :: rest ∧ announced first = message.length

variable {announced}

theorem intake_concat (frames : List α) (frame : α) :
    intake announced (frames ++ [frame]) = push announced (intake announced frames) frame := by
  simp [intake]

theorem push_first {r : Intake α} (frame : α) (fresh : r.current = []) :
    push announced r frame =
      if announced frame = 0 then r
      else if announced frame = 1 then ⟨r.complete ++ [[frame]],[]⟩ else ⟨r.complete,[frame]⟩ := by
  obtain ⟨complete,current⟩ := r
  obtain rfl : current = [] := fresh
  by_cases none : announced frame = 0
  · simp [push,none]
  · by_cases one : announced frame = 1
    · simp [push,one]
    · have more : 1 < announced frame := by omega
      simp [push,none,one,more]

theorem push_later {r : Intake α} {first : α} {rest : List α} (frame : α)
    (underway : r.current = first :: rest) (more : r.current.length < announced first) :
    push announced r frame =
      if r.current.length + 1 = announced first then ⟨r.complete ++ [r.current ++ [frame]],[]⟩
      else ⟨r.complete,r.current ++ [frame]⟩ := by
  have some : announced first ≠ 0 := by omega
  rw [underway] at more
  simp only [push,underway,List.headD_cons,if_neg some]
  by_cases last : (first :: rest).length + 1 = announced first
  · rw [if_neg (by omega),if_pos last]
  · rw [if_pos (by omega),if_neg last]

/-- The frames of a message, one after the other, add up to that message. -/
theorem foldl_whole {first : α} {rest : List α} (complete : List (List α)) (got todo : List α)
    (split : first :: rest = got ++ todo) (left : todo ≠ [])
    (count : announced first = (first :: rest).length) :
    todo.foldl (push announced) ⟨complete,got⟩ = ⟨complete ++ [first :: rest],[]⟩ := by
  induction todo generalizing got with
  | nil => exact absurd rfl left
  | cons frame todo ih =>
    have size : announced first = got.length + (todo.length + 1) := by rw [count,split]; simp
    have head : got.headD frame = first := by
      cases got with
      | nil => exact (List.cons.inj split).1.symm
      | cons other got => exact (List.cons.inj split).1.symm
    have some : announced first ≠ 0 := by omega
    cases todo with
    | nil =>
      have last : ¬ got.length + 1 < announced first := by simp at size; omega
      simp only [List.foldl_cons,List.foldl_nil,push,head,if_neg some,if_neg last,split]
    | cons next todo =>
      have room : got.length + 1 < announced first := by simp at size; omega
      have step : push announced ⟨complete,got⟩ frame = ⟨complete,got ++ [frame]⟩ := by
        simp only [push,head,if_neg some,if_pos room]
      rw [List.foldl_cons,step]
      exact ih (got ++ [frame]) (by simpa using split) (by simp)

/-- A message that lacks frames is under way. -/
theorem intake_short (first : α) (rest : List α) (short : (first :: rest).length < announced first) :
    intake announced (first :: rest) = ⟨[],first :: rest⟩ := by
  induction rest using List.reverseRecOn with
  | nil =>
    have more : 1 < announced first := by simpa using short
    change push announced ⟨[],[]⟩ first = _
    rw [push_first first rfl,if_neg (by omega),if_neg (by omega)]
  | append_singleton rest frame ih =>
    have size : (first :: (rest ++ [frame])).length = (first :: rest).length + 1 := by simp
    have before := ih (by omega)
    rw [← List.cons_append,intake_concat,before,push_later frame rfl (by simp only; omega),
      if_neg (by simp only; omega)]

theorem intake_append_whole {frames message : List α} (between : (intake announced frames).current = [])
    (whole : Whole announced message) :
    intake announced (frames ++ message) = ⟨(intake announced frames).complete ++ [message],[]⟩ := by
  obtain ⟨first,rest,rfl,count⟩ := whole
  have start : intake announced frames = ⟨(intake announced frames).complete,[]⟩ := by
    rw [← between]
  rw [intake,List.foldl_append]
  change (first :: rest).foldl (push announced) (intake announced frames) = _
  rw [start]
  exact foldl_whole _ [] _ rfl (by simp) count

theorem intake_whole {message : List α} (whole : Whole announced message) :
    intake announced message = ⟨[message],[]⟩ := by
  have fresh : (intake announced ([] : List α)).current = [] := rfl
  exact intake_append_whole fresh whole

theorem intake_flatten (messages : List (List α)) (whole : ∀ m ∈ messages, Whole announced m) :
    intake announced messages.flatten = ⟨messages,[]⟩ := by
  induction messages using List.reverseRecOn with
  | nil => rfl
  | append_singleton messages message ih =>
    have before := ih fun m hm => whole m (by simp [hm])
    rw [List.flatten_append,List.flatten_singleton,
      intake_append_whole (by rw [before]) (whole message (by simp)),before]

theorem foldl_complete (r : Intake α) (frames : List α) :
    r.complete <+: (frames.foldl (push announced) r).complete := by
  induction frames generalizing r with
  | nil => exact List.prefix_rfl
  | cons frame frames ih =>
    refine List.IsPrefix.trans ?_ (ih (push announced r frame))
    unfold push
    dsimp only
    split
    · exact List.prefix_rfl
    · split
      · exact List.prefix_rfl
      · exact List.prefix_append _ _

/-- What has been received in full stays received as more frames come in. -/
theorem complete_of_prefix {front frames : List α} (before : front <+: frames) :
    (intake announced front).complete <+: (intake announced frames).complete := by
  obtain ⟨rest,rfl⟩ := before
  rw [intake,intake,List.foldl_append]
  exact foldl_complete _ rest

end Framing
