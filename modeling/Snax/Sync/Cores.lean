import Mathlib.Logic.Relation

/-! Two programs that run beside a shared state and meet at barriers. Each program is deterministic, the
order of the steps and what happens beside them are not. -/
namespace Sync

/-- A step of a program is `none` where it has to wait; at a barrier it says where it goes on. -/
structure Cores (P Q S : Type) where
  first : P → S → Option (P × S)
  second : Q → S → Option (Q × S)
  firstMeets : P → Option P
  secondMeets : Q → Option Q
  beside : S → S → Prop

namespace Cores

structure Config (P Q S : Type) where
  first : P
  second : Q
  shared : S

variable {P Q S : Type} {c : Cores P Q S}

variable (c) in
inductive Step : Config P Q S → Config P Q S → Prop
  | first {p p' : P} {q : Q} {s s' : S} (moves : c.first p s = some (p',s')) : Step ⟨p,q,s⟩ ⟨p',q,s'⟩
  | second {p : P} {q q' : Q} {s s' : S} (moves : c.second q s = some (q',s')) : Step ⟨p,q,s⟩ ⟨p,q',s'⟩
  | meet {p p' : P} {q q' : Q} {s : S} (here : c.firstMeets p = some p')
      (there : c.secondMeets q = some q') : Step ⟨p,q,s⟩ ⟨p',q',s⟩
  | beside {p : P} {q : Q} {s s' : S} (changes : c.beside s s') : Step ⟨p,q,s⟩ ⟨p,q,s'⟩

variable (c) in
/-- A step of one of the programs or of both. -/
inductive Move : Config P Q S → Config P Q S → Prop
  | first {p p' : P} {q : Q} {s s' : S} (moves : c.first p s = some (p',s')) : Move ⟨p,q,s⟩ ⟨p',q,s'⟩
  | second {p : P} {q q' : Q} {s s' : S} (moves : c.second q s = some (q',s')) : Move ⟨p,q,s⟩ ⟨p,q',s'⟩
  | meet {p p' : P} {q q' : Q} {s : S} (here : c.firstMeets p = some p')
      (there : c.secondMeets q = some q') : Move ⟨p,q,s⟩ ⟨p',q',s⟩

variable (c) in
def Reaches : Config P Q S → Config P Q S → Prop := Relation.ReflTransGen c.Step

/-- What every kind of step keeps holds in every configuration that is reached. -/
theorem run_rule {inv : P → Q → S → Prop}
    (first : ∀ p q s p' s', inv p q s → c.first p s = some (p',s') → inv p' q s')
    (second : ∀ p q s q' s', inv p q s → c.second q s = some (q',s') → inv p q' s')
    (meet : ∀ p q s p' q', inv p q s → c.firstMeets p = some p' → c.secondMeets q = some q' → inv p' q' s)
    (beside : ∀ p q s s', inv p q s → c.beside s s' → inv p q s')
    {a b : Config P Q S} (start : inv a.first a.second a.shared) (reached : c.Reaches a b) :
    inv b.first b.second b.shared := by
  induction reached with
  | refl => exact start
  | tail _ step ih =>
    cases step with
    | first moves => exact first _ _ _ _ _ ih moves
    | second moves => exact second _ _ _ _ _ ih moves
    | meet here there => exact meet _ _ _ _ _ ih here there
    | beside changes => exact beside _ _ _ _ ih changes

end Cores
end Sync
