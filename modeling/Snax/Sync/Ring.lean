import Mathlib.Data.Fin.Basic

/-! Round-robin turns on a ring: the pointer stays on a locked requester and otherwise
moves to the requester nearest ahead of it, so it never jumps over one that keeps asking. -/
namespace Sync.Ring

variable {n : Nat}

/-- The steps from `p` ahead to `k`, a full turn from `p` to itself. -/
def ahead (p k : Fin n) : Nat := if p < k then k.val - p.val else k.val + n - p.val

/-- How far beyond `i` the place `x` lies. -/
def past (i x : Fin n) : Nat := if i ≤ x then x.val - i.val else x.val + n - i.val

theorem past_self (i : Fin n) : past i i = 0 := by simp [past]

theorem past_inj {i x y : Fin n} (same : past i x = past i y) : x = y := by
  unfold past at same
  split at same <;> split at same <;> omega

/-- A step that does not go beyond `j` lands between the pointer and `j`. -/
theorem past_step {i j p k : Fin n} (before : past i p < past i j) (near : ahead p k ≤ ahead p j) :
    past i p < past i k ∧ past i k ≤ past i j := by
  unfold past ahead at *
  constructor <;> split at near <;> split at near <;> split at before <;> split at before <;>
    split <;> first | omega | (split <;> omega)

/-- One turn: a locked pointer stays while its place asks, any other moves to the nearest
place that asks. -/
structure Turn (requests : Fin n → Bool) (p : Fin n) (locked : Bool) (k : Fin n) : Prop where
  requested : requests k = true
  kept : locked = true → requests p = true → k = p
  nearest : ¬ (locked = true ∧ requests p = true) → ∀ m, requests m = true → ahead p k ≤ ahead p m

/-- The pointer went on from `i` and has not gone beyond `j`. -/
structure Waiting (i j p : Fin n) (locked : Bool) : Prop where
  within : past i p ≤ past i j
  reached : p = j → locked = true
  left : p = i → locked = false

theorem Waiting.start {i j : Fin n} (different : i ≠ j) : Waiting i j i false := by
  refine ⟨?_,fun same => absurd same different,fun _ => rfl⟩
  rw [past_self]
  exact Nat.zero_le _

/-- While `j` asks, no turn goes back to `i`, and the pointer waits on until `j` is served. -/
theorem Waiting.next {i j p k : Fin n} {locked : Bool} {requests : Fin n → Bool} (accepted : Bool)
    (waiting : Waiting i j p locked) (turn : Turn requests p locked k) (asks : requests j = true) :
    k ≠ i ∧ (¬ (k = j ∧ accepted = true) → Waiting i j k (!accepted)) := by
  have moved : k ≠ i ∧ past i k ≤ past i j := by
    by_cases stays : locked = true ∧ requests p = true
    · have same := turn.kept stays.1 stays.2
      refine ⟨?_,same ▸ waiting.within⟩
      rintro rfl
      rw [waiting.left same.symm] at stays
      exact Bool.false_ne_true stays.1
    · have before : past i p < past i j := by
        apply Nat.lt_of_le_of_ne waiting.within
        intro same
        obtain rfl := past_inj same
        exact stays ⟨waiting.reached rfl,asks⟩
      obtain ⟨beyond,within⟩ := past_step before (turn.nearest stays j asks)
      refine ⟨?_,within⟩
      rintro rfl
      rw [past_self] at beyond
      exact Nat.not_lt_zero _ beyond
  refine ⟨moved.1,fun unserved => ⟨moved.2,fun reached => ?_,fun back => absurd back moved.1⟩⟩
  cases accepted with
  | true => exact absurd ⟨reached,rfl⟩ unserved
  | false => rfl

end Sync.Ring
