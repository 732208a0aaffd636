import Mathlib.Data.List.Induction

/-! Synchronous machines: every input is one clock cycle, outputs may depend on the
inputs of the same cycle, and the outputs of a run are its history. The rules below
carry a property of history and state over a whole run from one step. -/
namespace Sync

theorem getElem?_of_prefix {α : Type} {l whole : List α} (front : l <+: whole) {k : Nat} {x : α}
    (kth : l[k]? = some x) : whole[k]? = some x := by
  obtain ⟨rest,rfl⟩ := front
  obtain ⟨inside,_⟩ := List.getElem?_eq_some_iff.mp kth
  rw [List.getElem?_append_left inside,kth]

theorem filterMap_concat {α β : Type} (f : α → Option β) (l : List α) (x : α) :
    (l ++ [x]).filterMap f = l.filterMap f ++ (f x).toList := by
  rw [List.filterMap_append]
  cases found : f x <;> simp [found]

structure Machine (State Input Output : Type) where
  next : State → Input → State
  out : State → Input → Output

namespace Machine

variable {State Input Output : Type} (m : Machine State Input Output)

def exec : State → List Input → State
  | s, [] => s
  | s, i :: rest => exec (m.next s i) rest

def outs : State → List Input → List Output
  | _, [] => []
  | s, i :: rest => m.out s i :: outs (m.next s i) rest

@[simp] theorem exec_nil (s : State) : m.exec s [] = s := rfl
@[simp] theorem outs_nil (s : State) : m.outs s [] = [] := rfl

@[simp] theorem exec_cons (s : State) (i : Input) (rest : List Input) :
    m.exec s (i :: rest) = m.exec (m.next s i) rest := rfl

@[simp] theorem outs_cons (s : State) (i : Input) (rest : List Input) :
    m.outs s (i :: rest) = m.out s i :: m.outs (m.next s i) rest := rfl

@[simp] theorem exec_append (s : State) (front back : List Input) :
    m.exec s (front ++ back) = m.exec (m.exec s front) back := by
  induction front generalizing s with
  | nil => rfl
  | cons i rest ih => exact ih _

@[simp] theorem outs_append (s : State) (front back : List Input) :
    m.outs s (front ++ back) = m.outs s front ++ m.outs (m.exec s front) back := by
  induction front generalizing s with
  | nil => rfl
  | cons i rest ih => simp [ih]

@[simp] theorem outs_length (s : State) (inputs : List Input) :
    (m.outs s inputs).length = inputs.length := by
  induction inputs generalizing s with
  | nil => rfl
  | cons i rest ih => simp [ih]

/-- `p` holds at every cycle of a run, of the history before the cycle, the state it
starts from and its input. -/
def Each (p : List Output → State → Input → Prop) (s : State) (inputs : List Input) : Prop :=
  ∀ before i after, inputs = before ++ i :: after → p (m.outs s before) (m.exec s before) i

variable {m} {p q : List Output → State → Input → Prop}

@[simp] theorem Each.nil (s : State) : m.Each p s [] := by
  intro before i after split
  simp at split

theorem Each.cons {s : State} {i : Input} {rest : List Input} (first : p [] s i)
    (later : m.Each (fun history => p (m.out s i :: history)) (m.next s i) rest) :
    m.Each p s (i :: rest) := by
  intro before j after split
  cases before with
  | nil =>
    obtain ⟨rfl,rfl⟩ := List.cons.inj split
    exact first
  | cons k before =>
    obtain ⟨rfl,same⟩ := List.cons.inj split
    exact later before j after same

theorem Each.front {s : State} {front back : List Input} (each : m.Each p s (front ++ back)) :
    m.Each p s front := by
  rintro before i after rfl
  exact each before i (after ++ back) (by simp)

theorem Each.last {s : State} {front : List Input} {i : Input}
    (each : m.Each p s (front ++ [i])) : p (m.outs s front) (m.exec s front) i :=
  each front i [] rfl

theorem Each.concat {s : State} {front : List Input} {i : Input} (each : m.Each p s front)
    (last : p (m.outs s front) (m.exec s front) i) : m.Each p s (front ++ [i]) := by
  intro before j after split
  rcases List.eq_nil_or_concat after with rfl | ⟨more,k,rfl⟩
  · obtain ⟨rfl,same⟩ := List.append_inj' split rfl
    obtain rfl := (List.cons.inj same).1
    exact last
  · refine each before j more ?_
    have shape : before ++ j :: (more ++ [k]) = (before ++ j :: more) ++ [k] := by simp
    rw [List.concat_eq_append,shape] at split
    exact (List.append_inj' split rfl).1

theorem each_cons_iff {s : State} {i : Input} {rest : List Input} :
    m.Each p s (i :: rest) ↔
      p [] s i ∧ m.Each (fun history => p (m.out s i :: history)) (m.next s i) rest :=
  ⟨fun each => ⟨each [] i rest rfl,fun before j after split => each (i :: before) j after (by rw [split]; rfl)⟩,
    fun both => Each.cons both.1 both.2⟩

instance Each.decidable : {p : List Output → State → Input → Prop} → [∀ h s i, Decidable (p h s i)] →
    (s : State) → (inputs : List Input) → Decidable (m.Each p s inputs)
  | _, _, s, [] => .isTrue (Each.nil s)
  | p, _, s, i :: rest =>
    have := Each.decidable (p := fun history => p (m.out s i :: history)) (m.next s i) rest
    decidable_of_iff' _ each_cons_iff

theorem Each.mono {s : State} {inputs : List Input} (each : m.Each p s inputs)
    (weaken : ∀ history s i, p history s i → q history s i) : m.Each q s inputs :=
  fun before i after split => weaken _ _ _ (each before i after split)

theorem Each.and {s : State} {inputs : List Input} (left : m.Each p s inputs)
    (right : m.Each q s inputs) : m.Each (fun h s i => p h s i ∧ q h s i) s inputs :=
  fun before i after split => ⟨left before i after split,right before i after split⟩

/-- A condition on inputs alone holds at every cycle when it holds of every input. -/
theorem Each.of_inputs {p : Input → Prop} {s : State} {inputs : List Input}
    (all : ∀ i ∈ inputs, p i) : m.Each (fun _ _ i => p i) s inputs := by
  rintro before i after rfl
  exact all i (by simp)

/-- The run rule: what holds of the empty history and is kept by every cycle that
meets `p` holds after every run whose cycles all meet `p`. -/
theorem run_rule_each (inv : List Output → State → Prop) {s : State} {inputs : List Input}
    (each : m.Each p s inputs) (start : inv [] s)
    (step : ∀ history s i, inv history s → p history s i → inv (history ++ [m.out s i]) (m.next s i)) :
    inv (m.outs s inputs) (m.exec s inputs) := by
  induction inputs using List.reverseRecOn with
  | nil => exact start
  | append_singleton front i ih =>
    simpa using step _ _ _ (ih each.front) each.last

theorem run_rule (inv : List Output → State → Prop) {s : State} (start : inv [] s)
    (step : ∀ history s i, inv history s → inv (history ++ [m.out s i]) (m.next s i))
    (inputs : List Input) : inv (m.outs s inputs) (m.exec s inputs) :=
  run_rule_each (p := fun _ _ _ => True) inv (fun _ _ _ _ => trivial) start
    (fun history s i valid _ => step history s i valid)

/-- A kept property holds before every cycle, not only after the last one. -/
theorem each_of_run_rule (inv : List Output → State → Prop) {s : State} {inputs : List Input}
    (each : m.Each p s inputs) (start : inv [] s)
    (step : ∀ history s i, inv history s → p history s i → inv (history ++ [m.out s i]) (m.next s i)) :
    m.Each (fun history s _ => inv history s) s inputs := by
  rintro before i after rfl
  exact run_rule_each inv each.front start step

/-- The dichotomy rule: a run whose cycles all meet `q` stays good, and the first cycle that
does not meet it spoils every run that goes on from there. -/
theorem run_dichotomy (good bad : List Output → State → Prop) {s : State} {inputs : List Input}
    (each : m.Each p s inputs) (start : good [] s)
    (keep : ∀ history s i, good history s → p history s i → q history s i →
      good (history ++ [m.out s i]) (m.next s i))
    (spoil : ∀ history s i, good history s → p history s i → ¬ q history s i →
      bad (history ++ [m.out s i]) (m.next s i))
    (spoiled : ∀ history s i, bad history s → p history s i → bad (history ++ [m.out s i]) (m.next s i)) :
    (m.Each q s inputs ∧ good (m.outs s inputs) (m.exec s inputs)) ∨
      (¬ m.Each q s inputs ∧ bad (m.outs s inputs) (m.exec s inputs)) := by
  induction inputs using List.reverseRecOn with
  | nil => exact .inl ⟨Each.nil s,start⟩
  | append_singleton front i ih =>
    have last := each.last
    rw [outs_append,exec_append]
    rcases ih each.front with ⟨all,fine⟩ | ⟨some,spoilt⟩
    · by_cases meets : q (m.outs s front) (m.exec s front) i
      · exact .inl ⟨all.concat meets,keep _ _ i fine last meets⟩
      · exact .inr ⟨fun whole => meets whole.last,spoil _ _ i fine last meets⟩
    · exact .inr ⟨fun whole => some whole.front,spoiled _ _ i spoilt last⟩

/-- The progress rule: a potential that no cycle lowers and every eager cycle raises until
the run is done bounds the number of eager cycles before that. -/
theorem run_progress (potential : List Output → State → Nat) (done : List Output → State → Prop)
    (eager : Input → Bool) {s : State} {inputs : List Input} (each : m.Each p s inputs)
    (stays : ∀ history s i, p history s i → done history s →
      done (history ++ [m.out s i]) (m.next s i))
    (advance : ∀ history s i, p history s i → ¬ done history s →
      potential history s + (eager i).toNat ≤ potential (history ++ [m.out s i]) (m.next s i)) :
    done (m.outs s inputs) (m.exec s inputs) ∨
      inputs.countP eager ≤ potential (m.outs s inputs) (m.exec s inputs) := by
  induction inputs using List.reverseRecOn with
  | nil => exact Or.inr (Nat.zero_le _)
  | append_singleton front i ih =>
    have last := each.last
    rw [exec_append,outs_append,List.countP_append]
    by_cases finished : done (m.outs s front) (m.exec s front)
    · exact Or.inl (stays _ _ i last finished)
    · have before := (ih each.front).resolve_left finished
      have after := advance _ _ i last finished
      have count : [i].countP eager = (eager i).toNat := by cases h : eager i <;> simp [h]
      refine Or.inr ?_
      rw [count]
      exact Nat.le_trans (Nat.add_le_add_right before _) after

variable (m) in
/-- The cycles of a run that meet `q`. -/
def cycles (q : State → Input → Bool) : State → List Input → Nat
  | _, [] => 0
  | s, i :: rest => (q s i).toNat + cycles q (m.next s i) rest

theorem cycles_append (q : State → Input → Bool) (s : State) (front back : List Input) :
    m.cycles q s (front ++ back) = m.cycles q s front + m.cycles q (m.exec s front) back := by
  induction front generalizing s with
  | nil => simp [cycles]
  | cons i rest ih => rw [List.cons_append,cycles,ih,cycles,exec_cons,Nat.add_assoc]

/-- The progress rule for cycles that the state is part of. -/
theorem run_progress_cycles (potential : List Output → State → Nat) (done : State → Prop)
    (eager : State → Input → Bool) {s : State} {inputs : List Input} (each : m.Each p s inputs)
    (stays : ∀ history s i, p history s i → done s → done (m.next s i))
    (advance : ∀ history s i, p history s i → ¬ done s →
      potential history s + (eager s i).toNat ≤ potential (history ++ [m.out s i]) (m.next s i)) :
    done (m.exec s inputs) ∨ m.cycles eager s inputs ≤ potential (m.outs s inputs) (m.exec s inputs) := by
  induction inputs using List.reverseRecOn with
  | nil => exact Or.inr (Nat.zero_le _)
  | append_singleton front i ih =>
    have last := each.last
    rw [exec_append,outs_append,cycles_append]
    by_cases finished : done (m.exec s front)
    · exact Or.inl (stays _ _ i last finished)
    · have before := (ih each.front).resolve_left finished
      have after := advance _ _ i last finished
      exact Or.inr (Nat.le_trans (Nat.add_le_add_right before _) after)

/-- The termination rule: a measure that every cycle lowers until the run is done bounds the
number of cycles before that. -/
theorem run_ends (valid : List Output → State → Prop) (done : State → Prop)
    (measure : List Output → State → Nat)
    (step : ∀ history s i, valid history s → ¬ done s → p history s i → done (m.next s i) ∨
      valid (history ++ [m.out s i]) (m.next s i) ∧
        measure (history ++ [m.out s i]) (m.next s i) < measure history s)
    {s : State} {inputs : List Input} (each : m.Each p s inputs) (start : valid [] s)
    (long : measure [] s < inputs.length) : ∃ front, front <+: inputs ∧ done (m.exec s front) := by
  have lowered : (∃ front, front <+: inputs ∧ done (m.exec s front)) ∨
      valid (m.outs s inputs) (m.exec s inputs) ∧
        measure (m.outs s inputs) (m.exec s inputs) + inputs.length ≤ measure [] s := by
    clear long
    induction inputs using List.reverseRecOn with
    | nil => exact .inr ⟨start,Nat.le_refl _⟩
    | append_singleton inputs i ih =>
      rcases ih each.front with ⟨front,prefixed,reached⟩ | ⟨kept,lower⟩
      · exact .inl ⟨front,prefixed.trans (List.prefix_append _ _),reached⟩
      · by_cases finished : done (m.exec s inputs)
        · exact .inl ⟨inputs,List.prefix_append _ _,finished⟩
        · rcases step _ _ i kept finished each.last with ended | ⟨kept',lower'⟩
          · exact .inl ⟨inputs ++ [i],List.prefix_rfl,by simpa using ended⟩
          · refine .inr ⟨by simpa using kept',?_⟩
            rw [outs_append,exec_append,List.length_append,List.length_singleton]
            exact Nat.le_trans (Nat.succ_le_of_lt (Nat.add_lt_add_right lower' _)) lower
  rcases lowered with reached | ⟨_,lower⟩
  · exact reached
  · omega

/-! ### Simulation -/

variable {State' Input' : Type}

variable (m) in
/-- The inputs another machine is given while this one runs. -/
def translate (f : State → Input → Input') : State → List Input → List Input'
  | _, [] => []
  | s, i :: rest => f s i :: translate f (m.next s i) rest

theorem mem_translate {f : State → Input → Input'} {s : State} {inputs : List Input} {j : Input'}
    (member : j ∈ m.translate f s inputs) : ∃ t i, i ∈ inputs ∧ j = f t i := by
  induction inputs generalizing s with
  | nil => exact absurd member List.not_mem_nil
  | cons i rest ih =>
    rcases List.mem_cons.mp member with rfl | later
    · exact ⟨s,i,List.mem_cons_self,rfl⟩
    · obtain ⟨t,k,inside,same⟩ := ih later
      exact ⟨t,k,List.mem_cons_of_mem _ inside,same⟩

theorem map_translate {γ : Type} {f : State → Input → Input'} {g : Input' → γ} {h : Input → γ}
    (same : ∀ s i, g (f s i) = h i) (s : State) (inputs : List Input) :
    (m.translate f s inputs).map g = inputs.map h := by
  induction inputs generalizing s with
  | nil => rfl
  | cons i rest ih =>
    rw [translate,List.map_cons,List.map_cons,same,ih]

/-- Machines that agree in every cycle, on states that stay related, agree over every run. -/
theorem simulation {n : Machine State' Input' Output} (f : State → Input → Input')
    (related : State → State' → Prop)
    (step : ∀ s t i, related s t →
      m.out s i = n.out t (f s i) ∧ related (m.next s i) (n.next t (f s i)))
    (inputs : List Input) {s : State} {t : State'} (start : related s t) :
    m.outs s inputs = n.outs t (m.translate f s inputs) ∧
    related (m.exec s inputs) (n.exec t (m.translate f s inputs)) := by
  induction inputs generalizing s t with
  | nil => exact ⟨rfl,start⟩
  | cons i rest ih =>
    obtain ⟨same,kept⟩ := step s t i start
    obtain ⟨outputs,states⟩ := ih kept
    refine ⟨?_,states⟩
    rw [outs_cons,same,outputs]
    rfl

end Machine
end Sync
