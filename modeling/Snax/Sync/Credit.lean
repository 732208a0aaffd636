/-! Credit flow control: a sender takes a credit per request, answers arrive later in a
store that cannot refuse them, and a credit returns when the store is popped. -/
namespace Sync.Credit

structure Lane where
  credit : Nat
  waiting : Nat
  stored : Nat

/-- One cycle: a request sent out, a filler stored at once, an answer, a pop. -/
structure Moves where
  request : Bool
  filler : Bool
  answer : Bool
  pop : Bool

/-- Credits in use are the requests in flight and the items stored, within the depth. -/
structure Sound (depth : Nat) (l : Lane) : Prop where
  balance : l.credit = l.waiting + l.stored
  bound : l.credit ≤ depth

/-- What sender, memory and consumer respect: a credit is taken only below the depth or
together with a pop, answers have a request, pops an item, and a filler overtakes nothing. -/
structure Allowed (depth : Nat) (l : Lane) (m : Moves) : Prop where
  credit : m.request = true ∨ m.filler = true → l.credit < depth ∨ m.pop = true
  oneKind : m.filler = true → m.request = false ∧ l.waiting = 0
  answer : m.answer = true → 0 < l.waiting
  pop : m.pop = true → 0 < l.stored

variable {depth : Nat} {l l' : Lane} {m : Moves}

/-- An arriving item finds room, or its place is freed in the same cycle. -/
theorem room (sound : Sound depth l) (allowed : Allowed depth l m)
    (arrives : m.answer = true ∨ m.filler = true) : l.stored < depth ∨ m.pop = true := by
  have balance := sound.balance
  have bound := sound.bound
  rcases arrives with answer | filler
  · have := allowed.answer answer
    exact Or.inl (by omega)
  · have := (allowed.oneKind filler).2
    rcases allowed.credit (Or.inr filler) with below | pop
    · exact Or.inl (by omega)
    · exact Or.inr pop

theorem sound_step (sound : Sound depth l) (allowed : Allowed depth l m)
    (credit : l'.credit + m.pop.toNat = l.credit + (m.request || m.filler).toNat)
    (waiting : l'.waiting + m.answer.toNat = l.waiting + m.request.toNat)
    (stored : l'.stored + m.pop.toNat = l.stored + (m.answer || m.filler).toNat) :
    Sound depth l' := by
  have balance := sound.balance
  have bound := sound.bound
  have one := allowed.oneKind
  have free := allowed.credit
  have flight := allowed.answer
  obtain ⟨request,filler,answer,pop⟩ := m
  constructor <;> cases request <;> cases filler <;> cases answer <;> cases pop <;>
    simp_all <;> omega

end Sync.Credit
