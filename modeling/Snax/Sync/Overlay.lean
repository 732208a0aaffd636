/-! Programs that write registers. Whatever a program does, what it leaves behind is an
overlay over the registers it found: for each address it has written, the last value. -/
namespace Sync.Overlay

variable {α ε β γ : Type}

/-- Registers, and the addresses written so far. -/
structure Bus (α : Type) where
  regs : Nat → α
  written : List Nat

/-- A program may return early. -/
abbrev Program (α ε β : Type) := ExceptT ε (StateM (Bus α)) β

def write (addr : Nat) (value : α) : Program α ε Unit :=
  modify fun bus => ⟨fun a => if a = addr then value else bus.regs a,bus.written ++ [addr]⟩

def read (addr : Nat) : Program α ε α := do
  let bus ← get
  return bus.regs addr

/-- `for (i = start; i < start + count; i++)`. -/
def forRange (body : Nat → Program α ε Unit) : Nat → Nat → Program α ε Unit
  | _, 0 => pure ()
  | i, n + 1 => do
    body i
    forRange body (i + 1) n

/-! ### Overlays -/

def apply (S : Nat → Option α) (regs : Nat → α) : Nat → α := fun a => (S a).getD (regs a)

/-- The later overlay on top. -/
def atop (T S : Nat → Option α) : Nat → Option α := fun a => (T a).or (S a)

def nowhere : Nat → Option α := fun _ => none

def point (addr : Nat) (value : α) : Nat → Option α := fun a => if a = addr then some value else none

/-- Consecutive addresses from `base + start` on, the value at `base + i` being `f i`. -/
def region (base start n : Nat) (f : Nat → α) : Nat → Option α :=
  fun a => if base + start ≤ a ∧ a < base + start + n then some (f (a - base)) else none

theorem apply_atop (T S : Nat → Option α) (regs : Nat → α) :
    apply (atop T S) regs = apply T (apply S regs) := by
  funext a
  cases here : T a <;> simp [apply,atop,here]

theorem apply_some {S : Nat → Option α} {a : Nat} {value : α} (there : S a = some value)
    (regs : Nat → α) : apply S regs a = value := by
  rw [apply,there,Option.getD_some]

theorem apply_none {S : Nat → Option α} {a : Nat} (untouched : S a = none) (regs : Nat → α) :
    apply S regs a = regs a := by
  rw [apply,untouched,Option.getD_none]

theorem point_self (addr : Nat) (value : α) : point addr value addr = some value := if_pos rfl

theorem point_ne {a addr : Nat} (other : a ≠ addr) (value : α) : point addr value a = none :=
  if_neg other

theorem region_inside {base start n a : Nat} (f : Nat → α) (low : base + start ≤ a)
    (high : a < base + start + n) : region base start n f a = some (f (a - base)) :=
  if_pos ⟨low,high⟩

theorem region_outside {base start n a : Nat} (f : Nat → α)
    (outside : a < base + start ∨ base + start + n ≤ a) : region base start n f a = none := by
  apply if_neg
  omega

/-! ### What a program leaves -/

/-- From these registers the program returns `b` and leaves the overlay, which covers exactly
the registers written. -/
def Leaves (p : Program α ε β) (regs : Nat → α) (b : β) (S : Nat → Option α) : Prop :=
  ∀ written, ∃ log, p.run ⟨regs,written⟩ = (.ok b,⟨apply S regs,written ++ log⟩) ∧
    ∀ a, a ∈ log ↔ (S a).isSome = true

theorem Leaves.bind {p : Program α ε β} {q : β → Program α ε γ} {regs : Nat → α} {b : β} {c : γ}
    {S T : Nat → Option α} (first : Leaves p regs b S) (later : Leaves (q b) (apply S regs) c T) :
    Leaves (p >>= q) regs c (atop T S) := by
  intro written
  obtain ⟨log,run,within⟩ := first written
  obtain ⟨logLater,runLater,withinLater⟩ := later (written ++ log)
  refine ⟨log ++ logLater,?_,fun a => ?_⟩
  · have step : (p >>= q).run ⟨regs,written⟩ =
        match p.run ⟨regs,written⟩ with
        | (.ok b,bus) => (q b).run bus
        | (.error e,bus) => (.error e,bus) := by
      change (match p.run ⟨regs,written⟩ with
        | (x,bus) => (ExceptT.bindCont q x) bus) = _
      rcases p.run ⟨regs,written⟩ with ⟨x,bus⟩
      cases x <;> rfl
    rw [step,run]
    change (q b).run _ = _
    rw [runLater,apply_atop,List.append_assoc]
  · rw [atop,Option.isSome_or,List.mem_append,within a,withinLater a,Bool.or_eq_true,or_comm]

/-- The iterations one over the other. -/
def loop (S : Nat → Nat → Option α) : Nat → Nat → Nat → Option α
  | _, 0 => nowhere
  | i, n + 1 => atop (loop S (i + 1) n) (S i)

/-- Pairs of consecutive registers, the `i`-th at `base + i * 2`. -/
def pairs (base start n : Nat) (low high : Nat → α) : Nat → Option α := fun a =>
  if base + start * 2 ≤ a ∧ a < base + (start + n) * 2 then
    some (if (a - base) % 2 = 0 then low ((a - base) / 2) else high ((a - base) / 2))
  else none

theorem pairs_low {base start n i : Nat} (low high : Nat → α) (least : start ≤ i)
    (most : i < start + n) : pairs base start n low high (base + i * 2) = some (low i) := by
  rw [pairs,if_pos (by omega),Nat.add_sub_cancel_left,if_pos (Nat.mul_mod_left _ _),
    Nat.mul_div_left i Nat.two_pos]

theorem pairs_high {base start n i : Nat} (low high : Nat → α) (least : start ≤ i)
    (most : i < start + n) : pairs base start n low high (base + 1 + i * 2) = some (high i) := by
  have index : base + 1 + i * 2 - base = 1 + i * 2 := by omega
  rw [pairs,if_pos (by omega),index,if_neg (by omega)]
  congr 2
  omega

theorem pairs_outside {base start n a : Nat} (low high : Nat → α)
    (outside : a < base + start * 2 ∨ base + (start + n) * 2 ≤ a) :
    pairs base start n low high a = none := by
  apply if_neg
  omega

end Sync.Overlay
