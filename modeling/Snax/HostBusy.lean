import Snax.ExtensionHost

/-! The busy of `DataPathExtensionHost.scala`. Every word on its way shows itself in it but
two kinds: a word in the cut in front of a bypassed extension, and one that an extension
keeps without saying so. -/
namespace Snax

open Sync

variable {α : Type}

/-- Whether a state keeps a word that has not contributed to a delivered one. -/
abbrev KeepsWord (α : Type) := (e : Extension α) → e.State → Prop

/-- A circuit that keeps nothing and is offered nothing gives nothing, and keeps nothing after. -/
def Accounted (es : List (Extension α)) (holds : KeepsWord α) : Prop :=
  ∀ e ∈ es, ∀ s i, ¬ holds e s → i.valid = false →
    (e.output s i).valid = false ∧ ¬ holds e (e.next s i)

/-- An extension in a cycle: what stands in front of it, what it keeps and what it says. -/
structure Place where
  enable : Bool
  offered : Bool
  /-- The cut in front of it has a word. -/
  inside : Prop
  holding : Prop
  extBusy : Bool

namespace Place

def shown (x : Place) : Bool := x.extBusy || (x.enable && x.offered)

/-- A word that the extension itself does not show. -/
def Hidden (x : Place) : Prop := x.inside ∧ x.enable = false ∨ x.holding ∧ x.extBusy = false

end Place

def InFlight (places : List Place) : Prop := ∃ x ∈ places, x.inside ∨ x.holding

/-- A hidden word is covered by what another extension shows. -/
def Seen (places : List Place) : Prop := ∀ x ∈ places, x.Hidden → ∃ y ∈ places, y.shown = true

theorem seen_iff {places : List Place} (wired : ∀ x ∈ places, x.inside → x.offered = true) :
    Seen places ↔ (InFlight places → places.any Place.shown = true) := by
  rw [List.any_eq_true]
  constructor
  · rintro seen ⟨x,member,inside | holding⟩
    · by_cases on : x.enable = true
      · exact ⟨x,member,by simp [Place.shown,on,wired x member inside]⟩
      · exact seen x member (.inl ⟨inside,by simpa using on⟩)
    · by_cases speaks : x.extBusy = true
      · exact ⟨x,member,by simp [Place.shown,speaks]⟩
      · exact seen x member (.inr ⟨holding,by simpa using speaks⟩)
  · rintro shows x member (⟨inside,_⟩ | ⟨holding,_⟩)
    · exact shows ⟨x,member,.inl inside⟩
    · exact shows ⟨x,member,.inr holding⟩

namespace Behind

variable {halfCut : Bool} (holds : KeepsWord α)

def places : (es : List (Extension α)) → Behind halfCut es → HostInput α → List Place
  | [], _, _ => []
  | e :: es, b, i =>
    ⟨(port e es b i).enable,(port e es b i).data.valid,b.1.contents ≠ [],holds e b.2.1,
        e.busy b.2.1 (port e es b i).ext⟩ ::
      places es b.2.2 (rest e es b i)

/-- No word is on its way. -/
def Vacant : (es : List (Extension α)) → Behind halfCut es → Prop
  | [], _ => True
  | e :: es, b => b.1.contents = [] ∧ ¬ holds e b.2.1 ∧ Vacant es b.2.2

theorem busy_eq (es : List (Extension α)) (b : Behind halfCut es) (i : HostInput α) :
    busy es b i = (places holds es b i).any Place.shown := by
  induction es generalizing i with
  | nil => rfl
  | cons e es ih => exact congrArg _ (ih _ _)

theorem places_wired (es : List (Extension α)) (b : Behind halfCut es) (i : HostInput α) :
    ∀ x ∈ places holds es b i, x.inside → x.offered = true := by
  induction es generalizing i with
  | nil => exact fun x member => absurd member List.not_mem_nil
  | cons e es ih =>
    intro x member inside
    rcases List.mem_cons.mp member with rfl | later
    · change b.1.out.valid = true
      rw [← DataBus.offered_isSome,Cut.out_offered]
      exact List.isSome_head?.mpr inside
    · exact ih _ _ x later inside

theorem inFlight_iff (es : List (Extension α)) (b : Behind halfCut es) (i : HostInput α) :
    InFlight (places holds es b i) ↔ ¬ Vacant holds es b := by
  induction es generalizing i with
  | nil => simp [InFlight,places,Vacant]
  | cons e es ih =>
    have rest' := ih b.2.2 (rest e es b i)
    simp only [InFlight,places,Vacant,List.exists_mem_cons_iff] at rest' ⊢
    rw [rest']
    tauto

/-- With nothing on its way and nothing offered a cycle leaves nothing on its way. -/
theorem Vacant.next {holds : KeepsWord α} {es : List (Extension α)} (accounts : Accounted es holds)
    {b : Behind halfCut es} (vacant : Vacant holds es b) {i : HostInput α} (none : i.data.valid = false) :
    Vacant holds es (next es b i) ∧ (out es b i).valid = false := by
  induction es generalizing i with
  | nil => exact ⟨trivial,none⟩
  | cons e es ih =>
    obtain ⟨empty,free,behind⟩ := vacant
    have silent : b.1.out.valid = false := by
      rw [← DataBus.offered_isSome,Cut.out_offered,empty]
      rfl
    have off : (port e es b i).ext.valid = false := by
      change (_ && b.1.out.valid) = false
      rw [silent,Bool.and_false]
    obtain ⟨quiet,kept⟩ := accounts e List.mem_cons_self b.2.1 (port e es b i).ext free off
    have given : (rest e es b i).data.valid = false := by
      change (e.dataOut b.2.1 (port e es b i)).valid = false
      unfold Extension.dataOut
      split
      · exact quiet
      · exact silent
    obtain ⟨later,result⟩ := ih (fun x member => accounts x (List.mem_cons_of_mem _ member)) behind given
    exact ⟨⟨Cut.next_empty empty none _,kept,later⟩,result⟩

end Behind

namespace ExtChain

variable {halfCut : Bool} (holds : KeepsWord α)

def places : (es : List (Extension α)) → ExtChain halfCut es → HostInput α → List Place
  | [], _, _ => []
  | e :: es, c, i =>
    ⟨(port e es c i).enable,i.data.valid,False,holds e c.1,e.busy c.1 (port e es c i).ext⟩ ::
      Behind.places holds es c.2 (rest e es c i)

def Vacant : (es : List (Extension α)) → ExtChain halfCut es → Prop
  | [], _ => True
  | e :: es, c => ¬ holds e c.1 ∧ Behind.Vacant holds es c.2

theorem busy_eq (es : List (Extension α)) (c : ExtChain halfCut es) (i : HostInput α) :
    busy es c i = (places holds es c i).any Place.shown := by
  cases es with
  | nil => rfl
  | cons e es =>
    have behind := Behind.busy_eq holds es c.2 (rest e es c i)
    exact congrArg
      ((e.busy c.1 (port e es c i).ext || ((port e es c i).enable && i.data.valid)) || ·) behind

theorem places_wired (es : List (Extension α)) (c : ExtChain halfCut es) (i : HostInput α) :
    ∀ x ∈ places holds es c i, x.inside → x.offered = true := by
  cases es with
  | nil => exact fun x member => absurd member List.not_mem_nil
  | cons e es =>
    intro x member inside
    rcases List.mem_cons.mp member with rfl | later
    · exact absurd inside id
    · exact Behind.places_wired holds es c.2 _ x later inside

theorem inFlight_iff (es : List (Extension α)) (c : ExtChain halfCut es) (i : HostInput α) :
    InFlight (places holds es c i) ↔ ¬ Vacant holds es c := by
  cases es with
  | nil => simp [InFlight,places,Vacant]
  | cons e es =>
    have rest' := Behind.inFlight_iff holds es c.2 (rest e es c i)
    simp only [InFlight,places,Vacant,List.exists_mem_cons_iff] at rest' ⊢
    rw [rest']
    tauto

theorem Vacant.next {holds : KeepsWord α} {es : List (Extension α)} (accounts : Accounted es holds)
    {c : ExtChain halfCut es} (vacant : Vacant holds es c) {i : HostInput α} (none : i.data.valid = false) :
    Vacant holds es (next es c i) := by
  cases es with
  | nil => trivial
  | cons e es =>
    have off : (port e es c i).ext.valid = false := by
      change (_ && i.data.valid) = false
      rw [none,Bool.and_false]
    obtain ⟨quiet,kept⟩ := accounts e List.mem_cons_self c.1 (port e es c i).ext vacant.1 off
    have given : (rest e es c i).data.valid = false := by
      change (e.dataOut c.1 (port e es c i)).valid = false
      unfold Extension.dataOut
      split
      · exact quiet
      · exact none
    exact ⟨kept,(vacant.2.next (fun x member => accounts x (List.mem_cons_of_mem _ member)) given).1⟩

end ExtChain

/-- What busy promises in a cycle: a word on its way keeps it high, and when it is low with
nothing offered no word is left for what may be configured next. -/
structure BusyContract {p : HostParam α} (holds : KeepsWord α) (s : HostState p)
    (i : HostInput α) : Prop where
  high : ¬ ExtChain.Vacant holds _ s.chain → ((extensionHost p).out s i).busy = true
  handover : ((extensionHost p).out s i).busy = false → i.data.valid = false →
    ExtChain.Vacant holds _ ((extensionHost p).next s i).chain

theorem busyContract_iff {p : HostParam α} {holds : KeepsWord α}
    (accounts : Accounted p.extensionList holds) {s : HostState p} {i : HostInput α} :
    BusyContract holds s i ↔ Seen (ExtChain.places holds _ s.chain i) := by
  have busy : ((extensionHost p).out s i).busy = (ExtChain.places holds _ s.chain i).any Place.shown :=
    ExtChain.busy_eq holds _ _ _
  rw [seen_iff (ExtChain.places_wired holds _ _ _),ExtChain.inFlight_iff,← busy]
  refine ⟨BusyContract.high,fun high => ⟨high,fun low none => ?_⟩⟩
  have vacant : ExtChain.Vacant holds _ s.chain := by
    by_contra some
    rw [high some] at low
    exact Bool.false_ne_true low.symm
  exact vacant.next accounts none

/-- Busy keeps its contract in every cycle of a run exactly if in every cycle a hidden word is
covered. -/
theorem host_busy (p : HostParam α) {holds : KeepsWord α} (accounts : Accounted p.extensionList holds)
    (s : HostState p) (inputs : List (HostInput α)) :
    (extensionHost p).Each (fun _ s i => BusyContract holds s i) s inputs ↔
      (extensionHost p).Each (fun _ s i => Seen (ExtChain.places holds _ s.chain i)) s inputs :=
  ⟨fun each => each.mono fun _ _ _ => (busyContract_iff accounts).mp,
    fun each => each.mono fun _ _ _ => (busyContract_iff accounts).mpr⟩

/-- A circuit that is busy on its own keeps a word. -/
def busyHolds : KeepsWord (Lanes 1 8) := fun e s => e.busy s ⟨[],false,false,fun _ => 0,false⟩ = true

theorem twoAdders_accounts : Accounted twoAdders.extensionList busyHolds := by
  intro e member s i free silent
  obtain rfl : e = elementwiseAddExtension 1 8 := by simpa [twoAdders] using member
  have zero : s.value = 0 := by simpa [busyHolds] using free
  refine ⟨by simp [silent],?_⟩
  have taken : ElementwiseAdd.accepted s (ElementwiseAdd.ofBus i) = none := by
    simp [ElementwiseAdd.accepted,ElementwiseAdd.ofBus,BusInput.offered,silent]
  have still : (ElementwiseAdd.next s (ElementwiseAdd.ofBus i)).value = 0 := by
    change BasicCounter.next true i.start (ElementwiseAdd.accepted s (ElementwiseAdd.ofBus i)).isSome
      _ s.value = 0
    rw [taken,zero]
    cases i.start <;> simp
  change ¬ (((ElementwiseAdd.next s (ElementwiseAdd.ofBus i)).value != 0) = true)
  simp [still]

/-- Both adders are bypassed, and the receiver is not ready. -/
def bypassedCfg : HostCfg := ⟨[false,false],[2,3]⟩

def stalledInput (start valid : Bool) : HostInput (Lanes 1 8) :=
  ⟨bypassedCfg,start,⟨valid,fun _ => 5⟩,false⟩

theorem host_busy_twoAdders :
    (extensionHost twoAdders).Each (fun _ s i => BusyContract busyHolds s i) twoAddersState
        [stalledInput true false] ↔
      (extensionHost twoAdders).Each (fun _ s i => Seen (ExtChain.places busyHolds _ s.chain i))
        twoAddersState [stalledInput true false] :=
  host_busy twoAdders twoAdders_accounts twoAddersState [stalledInput true false]

/-- A word in the cut in front of a bypassed extension does not show in busy. -/
theorem host_busy_bypassed :
    ¬ ∀ (p : HostParam (Lanes 1 8)) (holds : KeepsWord (Lanes 1 8)), Accounted p.extensionList holds →
      ∀ (s : HostState p), ExtChain.Vacant holds _ s.chain → ∀ inputs,
        (extensionHost p).Each (fun _ s i => BusyContract holds s i) s inputs := by
  intro all
  have start : ExtChain.Vacant busyHolds _ twoAddersState.chain := by
    exact ⟨Bool.false_ne_true,Cut.reset_contents _ _,Bool.false_ne_true,trivial⟩
  have each := all twoAdders busyHolds twoAdders_accounts twoAddersState start
    [stalledInput true false,stalledInput false true,stalledInput false false]
  have third := each [stalledInput true false,stalledInput false true] (stalledInput false false) [] rfl
  refine absurd (third.high fun vacant => ?_) (by decide)
  have empty := congrArg List.length vacant.2.1
  revert empty
  decide

end Snax
