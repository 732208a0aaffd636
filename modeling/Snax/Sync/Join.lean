/-! Joining two streams: the k-th entries of both make one item, if `pair` lets them. -/
namespace Sync.Join

variable {α β γ : Type} (pair : α → β → Option γ)

def joined : List α → List β → List γ
  | a :: left, b :: right => (pair a b).toList ++ joined left right
  | _, _ => []

@[simp] theorem joined_nil_left (right : List β) : joined pair [] right = [] := by
  cases right <;> rfl

@[simp] theorem joined_nil_right (left : List α) : joined pair left [] = [] := by
  cases left <;> rfl

variable {pair}

theorem joined_append_left (left : List α) (a : α) (right : List β) :
    joined pair (left ++ [a]) right =
      joined pair left right ++ (right[left.length]?.bind (pair a)).toList := by
  induction left generalizing right with
  | nil => cases right <;> simp [joined]
  | cons x left ih =>
    cases right with
    | nil => simp
    | cons y right => simp [joined,ih]

theorem joined_silent {left : List α} (silent : ∀ a ∈ left, ∀ b, pair a b = none) (right : List β) :
    joined pair left right = [] := by
  induction left generalizing right with
  | nil => simp
  | cons x left ih =>
    cases right with
    | nil => simp
    | cons y right =>
      simp [joined,silent x (by simp) y,ih fun a member => silent a (by simp [member])]

/-- Entries that came too early for their partner must be ones that pair with none. -/
theorem joined_append_right {left : List α} {right : List β}
    (silent : ∀ (k : Nat) (a : α), left[k]? = some a → right.length ≤ k → ∀ b, pair a b = none)
    (more : List β) : joined pair left (right ++ more) = joined pair left right := by
  induction left generalizing right with
  | nil => simp
  | cons x left ih =>
    cases right with
    | nil =>
      rw [List.nil_append,joined_nil_right]
      refine joined_silent (fun a member b => ?_) more
      obtain ⟨k,atIndex⟩ := List.getElem?_of_mem member
      exact silent k a atIndex (by simp) b
    | cons y right =>
      simp only [List.cons_append,joined]
      rw [ih fun k a atIndex late => silent (k + 1) a (by simpa using atIndex) (by simpa using late)]

end Sync.Join
