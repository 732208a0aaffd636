import Mathlib.Order.Basic

/-! Bisection of `1..n` for the first number that is good. It keeps the last good midpoint, and
starts with `n` as if that were good. -/
namespace Bisect

/-- At most `fuel` rounds on `lo..hi`, with the last good midpoint. -/
def search (good : Int → Bool) : Nat → Int → Int → Int → Int
  | 0, _, _, best => best
  | fuel + 1, lo, hi, best =>
    if lo ≤ hi then
      let mid := lo + (hi - lo) / 2
      if good mid then search good fuel lo (mid - 1) mid else search good fuel (mid + 1) hi best
    else best

/-- The bisection of `1..n`. -/
def first (good : Int → Bool) (n : Int) : Int := search good n.toNat 1 n n

/-- `g` is the least good number of `1..n`, and all greater ones are good. -/
structure Threshold (good : Int → Bool) (n g : Int) : Prop where
  low : 1 ≤ g
  high : g ≤ n
  hit : good g = true
  below : ∀ h, 1 ≤ h → h < g → good h = false
  above : ∀ h, g < h → h ≤ n → good h = true

/-- After a good number only good ones follow. -/
def Rising (good : Int → Bool) (n : Int) : Prop :=
  ∀ g h, 1 ≤ g → g < h → h ≤ n → good g = true → good h = true

variable {good : Int → Bool} {n : Int}

theorem Threshold.unique {g h : Int} (left : Threshold good n g) (right : Threshold good n h) : g = h := by
  rcases Int.lt_trichotomy g h with before | same | after
  · exact absurd ((right.below g left.low before).symm.trans left.hit) Bool.false_ne_true
  · exact same
  · exact absurd ((left.below h right.low after).symm.trans right.hit) Bool.false_ne_true

/-- What a round knows: the numbers below `lo` are bad, those above `hi` are good, and the last good
midpoint is the first of them. -/
structure Round (good : Int → Bool) (n lo hi best : Int) : Prop where
  start : 1 ≤ lo
  ends : hi ≤ n
  ordered : lo ≤ hi + 1
  bad : ∀ h, 1 ≤ h → h < lo → good h = false
  fine : ∀ h, hi < h → h ≤ n → good h = true
  last : best = hi + 1 ∧ best ≤ n ∨ hi = n ∧ best = n

theorem Round.threshold {lo hi best : Int} (round : Round good n lo hi best) (positive : 0 < n)
    (top : good n = true) (empty : hi < lo) : Threshold good n best := by
  obtain ⟨start,ends,ordered,bad,fine,last⟩ := round
  rcases last with ⟨rfl,inside⟩ | ⟨rfl,rfl⟩
  · exact ⟨by omega,inside,fine _ (by omega) inside,fun h one less => bad h one (by omega),
      fun h more inside => fine h (by omega) inside⟩
  · exact absurd ((bad best positive (by omega)).symm.trans top) Bool.false_ne_true

theorem Round.lower {lo hi best mid : Int} (round : Round good n lo hi best) (rising : Rising good n)
    (left : lo ≤ mid) (right : mid ≤ hi) (here : good mid = true) : Round good n lo (mid - 1) mid := by
  obtain ⟨start,ends,ordered,bad,fine,last⟩ := round
  refine ⟨start,by omega,by omega,bad,fun h more inside => ?_,.inl ⟨by omega,by omega⟩⟩
  rcases Int.lt_or_eq_of_le (show mid ≤ h by omega) with after | rfl
  · exact rising mid h (by omega) after inside here
  · exact here

theorem Round.upper {lo hi best mid : Int} (round : Round good n lo hi best) (rising : Rising good n)
    (left : lo ≤ mid) (right : mid ≤ hi) (here : good mid = false) : Round good n (mid + 1) hi best := by
  obtain ⟨start,ends,ordered,bad,fine,last⟩ := round
  refine ⟨by omega,ends,by omega,fun h one less => ?_,fine,last⟩
  rcases Int.lt_or_eq_of_le (show h ≤ mid by omega) with before | rfl
  · refine Bool.eq_false_iff.mpr fun again => ?_
    have follows := rising h mid one before (by omega) again
    exact Bool.false_ne_true (here.symm.trans follows)
  · exact here

theorem search_threshold (rising : Rising good n) (positive : 0 < n) (top : good n = true) (fuel : Nat)
    {lo hi best : Int} (enough : (hi + 1 - lo).toNat ≤ fuel) (round : Round good n lo hi best) :
    Threshold good n (search good fuel lo hi best) := by
  induction fuel generalizing lo hi best with
  | zero =>
    have ordered := round.ordered
    exact round.threshold positive top (by omega)
  | succ fuel ih =>
    rw [search]
    split
    · have halves : lo ≤ lo + (hi - lo) / 2 ∧ lo + (hi - lo) / 2 ≤ hi := by omega
      generalize lo + (hi - lo) / 2 = mid at halves
      obtain ⟨left,right⟩ := halves
      simp only
      cases here : good mid with
      | true => exact ih (by omega) (round.lower rising left right here)
      | false => exact ih (by omega) (round.upper rising left right here)
    · exact round.threshold positive top (by omega)

/-- Bisection finds the threshold if and only if the last number is good and goodness rises. -/
theorem first_iff (positive : 0 < n) :
    Threshold good n (first good n) ↔ good n = true ∧ Rising good n := by
  constructor
  · intro found
    have up (h : Int) (more : first good n ≤ h) (inside : h ≤ n) : good h = true := by
      rcases Int.lt_or_eq_of_le more with after | rfl
      · exact found.above h after inside
      · exact found.hit
    refine ⟨up n found.high (Int.le_refl n),fun g h one less inside here => up h ?_ inside⟩
    by_contra before
    exact absurd ((found.below g one (by omega)).symm.trans here) Bool.false_ne_true
  · rintro ⟨top,rising⟩
    have round : Round good n 1 n n := ⟨Int.le_refl 1,Int.le_refl n,by omega,fun h one less => by omega,
      fun h more inside => by omega,.inr ⟨rfl,rfl⟩⟩
    exact search_threshold rising positive top n.toNat (by omega) round

end Bisect
