import Snax.Scheduler
import Snax.InterpConforms
import Mathlib.Data.List.ReduceOption

/-! Load-reserved and store-conditional words over the runs of the two harts. `SC.W` never looks at a
reservation, so that it is right as long as nobody else writes a word between the two. -/
namespace Snax

namespace Interp

variable {σ : Type}

namespace Taken

/-- What hart, instruction and registers a step starts from. -/
def insn (e : Taken σ) : Word := ld32 e.before.mem (e.before.hart e.i).pc
def base (e : Taken σ) : Word := (e.before.hart e.i).x.get (rs1 e.insn)
def operand (e : Taken σ) : Word := (e.before.hart e.i).x.get (rs2 e.insn)
def f5 (e : Taken σ) : BitVec 5 := (f7 e.insn).extractLsb' 2 5

/-- The step is an `LR.W` of the word at `a`. -/
def reserves (e : Taken σ) (a : Word) : Bool := opcode e.insn == 0x2f && e.f5 == 0x02 && e.base == a

/-- The step is an `SC.W` to the word at `a`. -/
def conditional (e : Taken σ) (a : Word) : Bool := opcode e.insn == 0x2f && e.f5 == 0x03 && e.base == a

/-- The step stores to a byte of the word at `a`, updates it or writes it conditionally. -/
def writes (e : Taken σ) (a : Word) : Bool :=
  match written e.before e.i e.insn with
  | none => false
  | some (b,n) => (List.range 4).any fun k => decide ((a + BitVec.ofNat 32 k - b).toNat < n)

end Taken

/-- A reservation that a hart never made, that it holds, or that it has used. -/
inductive Reservation where
  | none
  | held
  | used
  deriving DecidableEq

/-- The reservation of hart `i` on the word at `a` after one more step. -/
def Reservation.next (i : Fin 2) (a : Word) (r : Reservation) (e : Taken σ) : Reservation :=
  if e.i ≠ i then r
  else if e.reserves a then .held
  else if e.conditional a ∧ r = .held then .used
  else r

def reservation (i : Fin 2) (a : Word) (steps : List (Taken σ)) : Reservation :=
  steps.foldl (Reservation.next i a) .none

/-- A store-conditional does not come twice on one reservation, and no word is written that the other
hart has reserved. -/
structure Exclusive (steps : List (Taken σ)) (e : Taken σ) : Prop where
  once : ∀ a, e.conditional a = true → reservation e.i a steps ≠ .used
  alone : ∀ i a, i ≠ e.i → e.writes a = true → reservation i a steps ≠ .held

theorem held_of_next {i : Fin 2} {a : Word} {e : Taken σ} {r : Reservation}
    (other : e.i = i → e.reserves a = false) (held : r.next i a e = .held) : r = .held := by
  unfold Reservation.next at held
  split_ifs at held with own anew spent
  · exact held
  · rw [other (not_not.mp own)] at anew
    exact absurd anew Bool.false_ne_true
  · exact held

/-- Without another load-reserved, a reservation that is held has been held all along. -/
theorem held_of_foldl {i : Fin 2} {a : Word} {steps : List (Taken σ)} {r : Reservation}
    (others : ∀ e ∈ steps, e.i = i → e.reserves a = false)
    (held : steps.foldl (Reservation.next i a) r = .held) : r = .held := by
  induction steps generalizing r with
  | nil => exact held
  | cons e rest ih =>
    have first := ih (fun e' member => others e' (List.mem_cons_of_mem _ member)) held
    exact held_of_next (others e List.mem_cons_self) first

theorem base_of_reserves {e : Taken σ} {a : Word} (taken : e.reserves a = true) : e.base = a := by
  simp only [Taken.reserves,Bool.and_eq_true,beq_iff_eq] at taken
  exact taken.2

theorem base_of_conditional {e : Taken σ} {a : Word} (taken : e.conditional a = true) : e.base = a := by
  simp only [Taken.conditional,Bool.and_eq_true,beq_iff_eq] at taken
  exact taken.2

/-- A reservation that is held comes from a load-reserved. -/
theorem reserves_of_held {i : Fin 2} {a : Word} {steps : List (Taken σ)}
    (held : reservation i a steps = .held) : ∃ lr ∈ steps, lr.i = i ∧ lr.base = a := by
  by_contra absent
  have others : ∀ e ∈ steps, e.i = i → e.reserves a = false := by
    intro e member own
    cases taken : e.reserves a with
    | false => rfl
    | true => exact absurd ⟨e,member,own,base_of_reserves taken⟩ absent
  exact Reservation.noConfusion (held_of_foldl others held)

theorem exclusive_iff {steps : List (Taken σ)} {e : Taken σ} :
    Exclusive steps e ↔ (e.conditional e.base = true → reservation e.i e.base steps ≠ .used) ∧
      ∀ lr ∈ steps, lr.i ≠ e.i → e.writes lr.base = true → reservation lr.i lr.base steps ≠ .held := by
  refine ⟨fun exclusive => ⟨exclusive.once e.base,fun lr _ => exclusive.alone lr.i lr.base⟩,
    fun both => ⟨fun a taken => ?_,fun i a other writes held => ?_⟩⟩
  · obtain rfl := base_of_conditional taken
    exact both.1 taken
  · obtain ⟨lr,member,rfl,rfl⟩ := reserves_of_held held
    exact both.2 lr member other writes held

instance (steps : List (Taken σ)) (e : Taken σ) : Decidable (Exclusive steps e) :=
  decidable_of_iff' _ exclusive_iff

/-! ### What a step does to a word -/

variable {W : World σ}

theorem outside_of_writes {e : Taken σ} {a : Word} (other : e.writes a = false) {k : Nat} (inside : k < 4) :
    Outside (written e.before e.i e.insn) (a + BitVec.ofNat 32 k) := by
  intro b n here
  simp only [Taken.writes,here,List.any_eq_false,decide_eq_true_eq,not_lt] at other
  exact other k (List.mem_range.mpr inside)

/-- A step that does not write a word leaves it as it was, but for the requests to the host and what is
left to the world. -/
theorem word_kept {e : Taken σ} {step : Step} {a : Word}
    (ran : interpStep W e.before e.i = some (e.after,step)) (other : e.writes a = false)
    (alone : opcode e.insn ≠ 0x73 ∧ opcode e.insn ≠ 0x2b)
    (guest : opcode e.insn = 0x23 → e.base + immS e.insn ≠ e.before.tohost) :
    ld32 e.after.mem a = ld32 e.before.mem a := by
  obtain ⟨m,next,effect,same⟩ := interpStep_cases ran
  have issued : ((e.before.setHart e.i ((e.before.hart e.i).issue e.insn)).hart e.i).x =
      (e.before.hart e.i).x := by
    rw [hart_setHart,issue_x]
  rw [same]
  change ld32 m.mem a = _
  change Effect W (e.before.setHart e.i ((e.before.hart e.i).issue e.insn)) e.i e.insn m at effect
  cases effect with
  | registers kept frame =>
    have bytes : written (e.before.setHart e.i ((e.before.hart e.i).issue e.insn)) e.i e.insn =
        written e.before e.i e.insn := by
      simp only [written,issued]
    rw [bytes] at frame
    have equal := Bytes.load_congr (n := 4) fun k inside => frame _ (outside_of_writes other inside)
    exact congrArg (fun bs => BitVec.ofNat 32 (Bytes.combine bs)) equal
  | host mem b op request =>
    rw [issued] at request
    exact absurd request (guest op)
  | fence => rfl
  | system op => exact absurd op alone.1
  | xdma op => exact absurd op alone.2

/-! ### Runs -/

variable (W)

variable {W}

end Interp

end Snax
