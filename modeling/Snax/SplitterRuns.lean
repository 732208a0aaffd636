import Snax.ConfigRouter
import Snax.Sync.Machine

/-! `SplitterDecoupled` between one stream and its outputs, over whole runs. The select vector goes with
the word in front and is any other while there is none. -/
namespace Snax.SplitterDecoupled

variable {ι α : Type} [Fintype ι]

/-- The words that have left the input, and the flags of the outputs. -/
structure State (ι : Type) where
  position : Nat
  dataTransmitted : ι → Bool

structure Input (ι : Type) where
  valid : Bool
  idleSel : ι → Bool
  outReady : ι → Bool

/-- The word that leaves the input in a cycle, and the word that passes each output. -/
structure Event (ι α : Type) where
  accepted : Option α
  delivered : ι → Option α

variable (select : α → ι → Bool) (stream : Nat → α)

def sel (s : State ι) (i : Input ι) : ι → Bool :=
  if i.valid then select (stream s.position) else i.idleSel

def fires (s : State ι) (i : Input ι) : Bool :=
  i.valid && inReady (sel select stream s i) s.dataTransmitted i.outReady

def event (s : State ι) (i : Input ι) : Event ι α where
  accepted := if fires select stream s i then some (stream s.position) else none
  delivered c :=
    if outValid i.valid (sel select stream s i) s.dataTransmitted c && i.outReady c then
      some (stream s.position)
    else none

def machine : Sync.Machine (State ι) (Input ι) (Event ι α) where
  next s i :=
    { position := s.position + (fires select stream s i).toNat
      dataTransmitted := next i.valid (sel select stream s i) s.dataTransmitted i.outReady }
  out := event select stream

def reset (ι : Type) : State ι := ⟨0,fun _ => false⟩

/-- The first words of the stream, and those of them that an output is selected for. -/
def words (n : Nat) : List α := (List.range n).map stream

def wordsFor (c : ι) (n : Nat) : List α := (words stream n).filter (select · c)

def acceptedBy (history : List (Event ι α)) : List α := history.filterMap (·.accepted)
def deliveredBy (c : ι) (history : List (Event ι α)) : List α := history.filterMap (·.delivered c)

variable {select stream} {s : State ι} {i : Input ι} {history : List (Event ι α)}

theorem words_succ (n : Nat) : words stream (n + 1) = words stream n ++ [stream n] := by
  rw [words,words,List.range_succ,List.map_append]
  rfl

theorem wordsFor_succ (c : ι) (n : Nat) : wordsFor select stream c (n + 1) =
    wordsFor select stream c n ++ if select (stream n) c then [stream n] else [] := by
  rw [wordsFor,words_succ,List.filter_append,List.filter_singleton]
  cases select (stream n) c <;> rfl

/-! ### One cycle -/

theorem sel_valid (valid : i.valid = true) : sel select stream s i = select (stream s.position) :=
  if_pos valid

/-- A word that waits has left when every output that it is for has it or takes it. -/
theorem fires_iff : fires select stream s i = true ↔ i.valid = true ∧ ∀ c,
    select (stream s.position) c = true → i.outReady c = true ∨ s.dataTransmitted c = true := by
  rw [fires,Bool.and_eq_true]
  refine and_congr_right fun valid => ?_
  rw [sel_valid valid,inReady,decide_eq_true_iff]
  refine forall_congr' fun c => ?_
  cases select (stream s.position) c <;> simp

theorem delivered_eq (c : ι) : (event select stream s i).delivered c =
    if i.valid && select (stream s.position) c && !s.dataTransmitted c && i.outReady c then
      some (stream s.position)
    else none := by
  simp only [event,outValid]
  cases valid : i.valid with
  | false => simp
  | true => simp only [sel_valid valid,Bool.and_true,Bool.true_and]

theorem next_fired (fired : fires select stream s i = true) :
    (machine select stream).next s i = ⟨s.position + 1,fun _ => false⟩ := by
  have flags : next i.valid (sel select stream s i) s.dataTransmitted i.outReady = fun _ => false :=
    if_pos fired
  change State.mk _ _ = _
  rw [flags,fired]
  rfl

theorem next_waiting (waits : fires select stream s i = false) : (machine select stream).next s i =
    ⟨s.position,fun c => s.dataTransmitted c || ((event select stream s i).delivered c).isSome⟩ := by
  have flags : next i.valid (sel select stream s i) s.dataTransmitted i.outReady = fun c =>
      s.dataTransmitted c || ((event select stream s i).delivered c).isSome := by
    refine (if_neg (Bool.eq_false_iff.mp waits)).trans (funext fun c => ?_)
    simp only [event]
    cases outValid i.valid (sel select stream s i) s.dataTransmitted c && i.outReady c <;> rfl
  change State.mk _ _ = _
  rw [flags,waits]
  rfl

/-! ### Runs -/

variable (select stream) in
/-- What has left the input, and what each output has been given: its words up to the front, and the
word in front once its flag is up. -/
structure Given (history : List (Event ι α)) (s : State ι) : Prop where
  accepted : acceptedBy history = words stream s.position
  delivered : ∀ c, deliveredBy c history = wordsFor select stream c s.position ++
    if s.dataTransmitted c then [stream s.position] else []
  selected : ∀ c, s.dataTransmitted c = true → select (stream s.position) c = true

theorem given_reset : Given select stream [] (reset ι) where
  accepted := rfl
  delivered _ := rfl
  selected _ flag := absurd flag Bool.false_ne_true

/-- After a cycle an output has its words up to the front, and the word in front if it had that before
or takes it now. -/
theorem Given.deliver (given : Given select stream history s) (c : ι) :
    deliveredBy c (history ++ [event select stream s i]) = wordsFor select stream c s.position ++
      if s.dataTransmitted c || ((event select stream s i).delivered c).isSome then
        [stream s.position]
      else [] := by
  rw [deliveredBy,Sync.filterMap_concat,← deliveredBy,given.delivered,List.append_assoc,delivered_eq]
  cases flag : s.dataTransmitted c with
  | true => simp
  | false => cases i.valid && select (stream s.position) c && !false && i.outReady c <;> rfl

theorem Given.step (given : Given select stream history s) (i : Input ι) :
    Given select stream (history ++ [event select stream s i]) ((machine select stream).next s i) := by
  cases fired : fires select stream s i with
  | false =>
    rw [next_waiting fired]
    refine ⟨?_,given.deliver,fun c flag => ?_⟩
    · rw [acceptedBy,Sync.filterMap_concat,← acceptedBy,given.accepted,event,fired]
      exact List.append_nil _
    · rcases Bool.or_eq_true_iff.mp flag with before | now
      · exact given.selected c before
      · rw [delivered_eq] at now
        split at now
        · next passes => simp_all
        · cases now
  | true =>
    obtain ⟨valid,all⟩ := fires_iff.mp fired
    rw [next_fired fired]
    refine ⟨?_,fun c => ?_,fun c flag => absurd flag Bool.false_ne_true⟩
    · rw [acceptedBy,Sync.filterMap_concat,← acceptedBy,given.accepted,event,fired,words_succ]
      rfl
    · rw [given.deliver,wordsFor_succ,delivered_eq,valid,List.append_assoc]
      congr 1
      cases selected : select (stream s.position) c with
      | false =>
        have flag : s.dataTransmitted c = false :=
          Bool.eq_false_iff.mpr fun up => Bool.false_ne_true (selected.symm.trans (given.selected c up))
        simp [flag]
      | true => rcases all c selected with ready | flag <;> simp_all

theorem given_run (inputs : List (Input ι)) : Given select stream
    ((machine select stream).outs (reset ι) inputs) ((machine select stream).exec (reset ι) inputs) :=
  Sync.Machine.run_rule (Given select stream) given_reset (fun _ _ i given => given.step i) inputs

/-- The word in front leaves with the cycle after which every output has all its words up to it. -/
theorem Given.fires_iff (given : Given select stream history s) (i : Input ι) :
    fires select stream s i = true ↔ i.valid = true ∧ ∀ c,
      deliveredBy c (history ++ [event select stream s i]) =
        wordsFor select stream c (s.position + 1) := by
  rw [SplitterDecoupled.fires_iff]
  refine and_congr_right fun valid => forall_congr' fun c => ?_
  rw [given.deliver,wordsFor_succ,List.append_cancel_left_eq,delivered_eq,valid]
  cases selected : select (stream s.position) c with
  | false =>
    have flag : s.dataTransmitted c = false :=
      Bool.eq_false_iff.mpr fun up => Bool.false_ne_true (selected.symm.trans (given.selected c up))
    simp [flag]
  | true => cases s.dataTransmitted c <;> cases i.outReady c <;> simp

theorem position_le (s : State ι) (inputs : List (Input ι)) :
    s.position ≤ ((machine select stream).exec s inputs).position := by
  induction inputs generalizing s with
  | nil => exact Nat.le_refl _
  | cons i rest ih =>
    have first : s.position ≤ ((machine select stream).next s i).position := Nat.le_add_right _ _
    exact first.trans (ih _)

theorem position_lt_of_fires (fired : fires select stream s i = true) (rest : List (Input ι)) :
    s.position < ((machine select stream).exec s (i :: rest)).position := by
  have first : s.position < ((machine select stream).next s i).position := by
    rw [next_fired fired]
    exact Nat.lt_succ_self _
  exact first.trans_le (position_le _ rest)

/-- An output that is still to be served is served by the cycle or ready in a later one. -/
theorem ready_later {c : ι} {rest : List (Input ι)} (valid : i.valid = true)
    (selected : select (stream s.position) c = true)
    (ready : s.dataTransmitted c = true ∨ ∃ j ∈ i :: rest, j.outReady c = true) :
    (s.dataTransmitted c || ((event select stream s i).delivered c).isSome) = true ∨
      ∃ j ∈ rest, j.outReady c = true := by
  rw [delivered_eq,valid,selected]
  rcases ready with up | ⟨j,inside,open_⟩
  · exact .inl (by rw [up]; rfl)
  · rcases List.mem_cons.mp inside with rfl | behind
    · refine .inl ?_
      rw [open_]
      cases s.dataTransmitted c <;> rfl
    · exact .inr ⟨j,behind,open_⟩

/-- A word that is offered until each output that it is for has been ready has left by then. -/
theorem leaves (s : State ι) (i : Input ι) (inputs : List (Input ι))
    (offered : ∀ j ∈ i :: inputs, j.valid = true)
    (ready : ∀ c, select (stream s.position) c = true →
      s.dataTransmitted c = true ∨ ∃ j ∈ i :: inputs, j.outReady c = true) :
    s.position < ((machine select stream).exec s (i :: inputs)).position := by
  have valid : i.valid = true := offered i List.mem_cons_self
  induction inputs generalizing s i with
  | nil =>
    refine position_lt_of_fires (fires_iff.mpr ⟨valid,fun c selected => ?_⟩) []
    rcases ready c selected with up | ⟨j,inside,open_⟩
    · exact .inr up
    · obtain rfl := List.mem_singleton.mp inside
      exact .inl open_
  | cons j rest ih =>
    cases fired : fires select stream s i with
    | true => exact position_lt_of_fires fired _
    | false =>
      have later : ∀ k ∈ j :: rest, k.valid = true := fun k inside =>
        offered k (List.mem_cons_of_mem _ inside)
      have waiting := next_waiting fired
      have kept : ((machine select stream).next s i).position = s.position := by rw [waiting]
      rw [Sync.Machine.exec_cons,← kept]
      refine ih _ j later (fun c selected => ?_) (later j List.mem_cons_self)
      rw [kept] at selected
      rw [waiting]
      exact ready_later valid selected (ready c selected)

variable (select stream) in
/-- Each word of the stream goes once to each output that it is for, in order, and leaves the input in
the cycle in which the last of them has it. -/
structure Multicasts : Prop where
  accepted : ∀ inputs, acceptedBy ((machine select stream).outs (reset ι) inputs) =
    words stream ((machine select stream).exec (reset ι) inputs).position
  delivered : ∀ inputs c, ∃ n, deliveredBy c ((machine select stream).outs (reset ι) inputs) =
      wordsFor select stream c n ∧
    (n = ((machine select stream).exec (reset ι) inputs).position ∨
      n = ((machine select stream).exec (reset ι) inputs).position + 1 ∧
        select (stream ((machine select stream).exec (reset ι) inputs).position) c = true)
  leaves : ∀ inputs i, fires select stream ((machine select stream).exec (reset ι) inputs) i = true ↔
    i.valid = true ∧ ∀ c, deliveredBy c ((machine select stream).outs (reset ι) (inputs ++ [i])) =
      wordsFor select stream c (((machine select stream).exec (reset ι) inputs).position + 1)
  dropped : ∀ inputs i, i.valid = true →
    (∀ c, select (stream ((machine select stream).exec (reset ι) inputs).position) c = false) →
    (event select stream ((machine select stream).exec (reset ι) inputs) i).accepted =
      some (stream ((machine select stream).exec (reset ι) inputs).position) ∧
    ∀ c, (event select stream ((machine select stream).exec (reset ι) inputs) i).delivered c = none
  progress : ∀ before i more, (∀ j ∈ i :: more, j.valid = true) →
    (∀ c, select (stream ((machine select stream).exec (reset ι) before).position) c = true →
      ∃ j ∈ i :: more, j.outReady c = true) →
    ((machine select stream).exec (reset ι) before).position <
      ((machine select stream).exec (reset ι) (before ++ i :: more)).position

theorem splitter_decoupled (select : α → ι → Bool) (stream : Nat → α) : Multicasts select stream := by
  refine ⟨fun inputs => (given_run inputs).accepted,fun inputs c => ?_,fun inputs i => ?_,
    fun inputs i valid nobody => ?_,fun before i more offered ready => ?_⟩
  · have given : Given select stream _ _ := given_run inputs
    cases flag : ((machine select stream).exec (reset ι) inputs).dataTransmitted c with
    | false =>
      refine ⟨_,?_,.inl rfl⟩
      rw [given.delivered,flag]
      exact List.append_nil _
    | true =>
      refine ⟨_,?_,.inr ⟨rfl,given.selected c flag⟩⟩
      rw [given.delivered,flag,wordsFor_succ,given.selected c flag]
  · rw [(given_run inputs).fires_iff i,Sync.Machine.outs_append]
    rfl
  · have fired : fires select stream ((machine select stream).exec (reset ι) inputs) i = true :=
      fires_iff.mpr ⟨valid,fun c selected => absurd ((nobody c).symm.trans selected) Bool.false_ne_true⟩
    refine ⟨if_pos fired,fun c => ?_⟩
    rw [delivered_eq,nobody]
    cases i.valid <;> rfl
  · rw [Sync.Machine.exec_append]
    exact leaves _ i more offered fun c selected => .inr (ready c selected)

end Snax.SplitterDecoupled
