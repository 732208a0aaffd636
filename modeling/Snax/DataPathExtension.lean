import Snax.Counter
import Snax.Sync.Machine

/-! `DataPathExtension.scala`: the ports every extension of the data path has. A stream is
announced by a start pulse, from which on its configuration stands. -/
namespace Snax

/-- A word of the data path, cut into elements. -/
abbrev Lanes (n w : Nat) := Fin n → BitVec w

/-- What an extension sees in a cycle: `csr_i`, `start_i`, the word offered at `data_i`
and the ready of `data_o`. -/
structure ExtInput (κ α : Type) where
  csr : κ
  start : Bool
  data : Option α
  ready : Bool

/-- The same for an extension that looks at the bits of the bus also while they are not
valid. -/
structure BusInput (κ α : Type) where
  csr : κ
  start : Bool
  valid : Bool
  bits : α
  ready : Bool

def BusInput.offered {κ α : Type} (i : BusInput κ α) : Option α := if i.valid then some i.bits else none

/-- The widths of an extension that gives several words of wider elements for one word. -/
structure WidenParam where
  inWidth : Nat
  outWidth : Nat
  dataWidth : Nat
  inPositive : 0 < inWidth
  wider : inWidth ≤ outWidth
  inElements : inWidth ∣ dataWidth
  outElements : outWidth ∣ dataWidth

namespace WidenParam

variable (p : WidenParam)

abbrev In := Lanes (p.dataWidth / p.inWidth) p.inWidth
abbrev Out := Lanes (p.dataWidth / p.outWidth) p.outWidth

def ratio : Nat := p.outWidth / p.inWidth

theorem ratio_pos : 0 < p.ratio := Nat.div_pos p.wider p.inPositive

/-- The elements of all output words are among those of the input word. -/
theorem lane_lt (j : Fin p.ratio) (i : Fin (p.dataWidth / p.outWidth)) :
    j.val * (p.dataWidth / p.outWidth) + i.val < p.dataWidth / p.inWidth := by
  have room : (j.val + 1) * (p.dataWidth / p.outWidth) ≤ p.ratio * (p.dataWidth / p.outWidth) :=
    Nat.mul_le_mul_right _ j.isLt
  have fits : p.ratio * (p.dataWidth / p.outWidth) ≤ p.dataWidth / p.inWidth := by
    rw [Nat.le_div_iff_mul_le p.inPositive]
    calc p.ratio * (p.dataWidth / p.outWidth) * p.inWidth
        = p.outWidth / p.inWidth * p.inWidth * (p.dataWidth / p.outWidth) := by
          rw [ratio,Nat.mul_right_comm]
      _ ≤ p.outWidth * (p.dataWidth / p.outWidth) := Nat.mul_le_mul_right _ (Nat.div_mul_le_self _ _)
      _ ≤ p.dataWidth := Nat.mul_div_le _ _
  rw [Nat.succ_mul] at room
  have inside := i.isLt
  omega

/-- Element `i` of output word `j`. -/
def lane (j : Fin p.ratio) (i : Fin (p.dataWidth / p.outWidth)) : Fin (p.dataWidth / p.inWidth) :=
  ⟨j.val * (p.dataWidth / p.outWidth) + i.val,p.lane_lt j i⟩

end WidenParam

/-- The words that move in a cycle, and `busy_o`. -/
structure ExtOutput (α β : Type) where
  accepted : Option α
  delivered : Option β
  busy : Bool

/-- A stream under one configuration: the ready of the cycle of its start pulse, and the
offers and readies of the cycles after it. -/
structure Session (κ α : Type) where
  csr : κ
  startReady : Bool
  cycles : List (Option α × Bool)

namespace Session

variable {κ α β State : Type}

def startCycle (x : Session κ α) : ExtInput κ α := ⟨x.csr,true,none,x.startReady⟩

def stream (x : Session κ α) : List (ExtInput κ α) :=
  x.cycles.map fun c => ⟨x.csr,false,c.1,c.2⟩

def inputs (x : Session κ α) : List (ExtInput κ α) := x.startCycle :: x.stream

/-- Every session has a proper configuration and starts while the unit is not busy. -/
def WellStarted (m : Sync.Machine State (ExtInput κ α) (ExtOutput α β)) (proper : κ → Prop) :
    State → List (Session κ α) → Prop
  | _, [] => True
  | s, x :: rest => proper x.csr ∧ (m.out s x.startCycle).busy = false ∧
      WellStarted m proper (m.exec s x.inputs) rest

instance WellStarted.decidable {m : Sync.Machine State (ExtInput κ α) (ExtOutput α β)}
    {p : κ → Prop} [DecidablePred p] :
    (s : State) → (l : List (Session κ α)) → Decidable (WellStarted m p s l)
  | _, [] => .isTrue trivial
  | s, x :: rest =>
    have := WellStarted.decidable (m := m) (p := p) (m.exec s x.inputs) rest
    inferInstanceAs (Decidable (_ ∧ _ ∧ _))

/-- The state in which the last of the sessions starts. -/
def before (m : Sync.Machine State (ExtInput κ α) (ExtOutput α β)) (s : State)
    (l : List (Session κ α)) : State := m.exec s (l.flatMap inputs)

theorem WellStarted.last {m : Sync.Machine State (ExtInput κ α) (ExtOutput α β)}
    {proper : κ → Prop} {s : State} {l : List (Session κ α)} {x : Session κ α}
    (well : WellStarted m proper s (l ++ [x])) :
    proper x.csr ∧ (m.out (before m s l) x.startCycle).busy = false := by
  induction l generalizing s with
  | nil => exact ⟨well.1,well.2.1⟩
  | cons y l ih =>
    have := ih well.2.2
    rwa [before,List.flatMap_cons,Sync.Machine.exec_append]

/-- The session rule: what a session that starts while not busy leads from idle to idle
holds in every state a session starts from. -/
theorem WellStarted.rule {m : Sync.Machine State (ExtInput κ α) (ExtOutput α β)}
    {proper : κ → Prop} {s : State} {l : List (Session κ α)} {x : Session κ α}
    (rest : State → Prop) (well : WellStarted m proper s (l ++ [x]))
    (keeps : ∀ s (y : Session κ α), proper y.csr → (m.out s y.startCycle).busy = false → rest s →
      rest (m.exec s y.inputs)) (start : rest s) : rest (before m s l) := by
  induction l generalizing s with
  | nil => exact start
  | cons y l ih =>
    rw [before,List.flatMap_cons,Sync.Machine.exec_append]
    exact ih well.2.2 (keeps s y well.1 well.2.1 start)

end Session

/-- The words a history has accepted, and those it has delivered. -/
def acceptedWords (history : List (ExtOutput α β)) : List α := history.filterMap ExtOutput.accepted

def deliveredWords (history : List (ExtOutput α β)) : List β := history.filterMap ExtOutput.delivered

@[simp] theorem acceptedWords_nil : acceptedWords ([] : List (ExtOutput α β)) = [] := rfl

@[simp] theorem deliveredWords_nil : deliveredWords ([] : List (ExtOutput α β)) = [] := rfl

theorem acceptedWords_append (history later : List (ExtOutput α β)) :
    acceptedWords (history ++ later) = acceptedWords history ++ acceptedWords later :=
  List.filterMap_append

theorem deliveredWords_append (history later : List (ExtOutput α β)) :
    deliveredWords (history ++ later) = deliveredWords history ++ deliveredWords later :=
  List.filterMap_append

theorem acceptedWords_cons (o : ExtOutput α β) (later : List (ExtOutput α β)) :
    acceptedWords (o :: later) = o.accepted.toList ++ acceptedWords later := by
  cases h : o.accepted <;> simp [acceptedWords,h]

theorem deliveredWords_cons (o : ExtOutput α β) (later : List (ExtOutput α β)) :
    deliveredWords (o :: later) = o.delivered.toList ++ deliveredWords later := by
  cases h : o.delivered <;> simp [deliveredWords,h]

theorem acceptedWords_concat (history : List (ExtOutput α β)) (o : ExtOutput α β) :
    acceptedWords (history ++ [o]) = acceptedWords history ++ o.accepted.toList := by
  cases h : o.accepted <;> simp [acceptedWords,h]

theorem deliveredWords_concat (history : List (ExtOutput α β)) (o : ExtOutput α β) :
    deliveredWords (history ++ [o]) = deliveredWords history ++ o.delivered.toList := by
  cases h : o.delivered <;> simp [deliveredWords,h]

end Snax
