import Snax.Counter
import Snax.Sync.Crossing
import Snax.Sync.Machine

/-! `utils/AsyncQueue.scala`: a ring of slots between two clocks, full and empty decided
from Gray-coded pointers that cross through two registers each. An instant of the machine
carries the edge of either clock, of both or of none; an edge writes the registers of its
own domain from the values before it. -/
namespace Snax

/-- `isPow2(depth)`, with at least two slots. -/
structure AsyncQueueParam where
  depth : Nat
  powerOfTwo : 2 ^ log2Up depth = depth

namespace AsyncQueue

variable (param : AsyncQueueParam) (α : Type)

def counterBits : Nat := log2Up param.depth

abbrev Pointer := BitVec (counterBits param)

structure State where
  enqCounter : Pointer param
  deqCounter : Pointer param
  /-- `RegNext(deqPointerGray)` and its `RegNext`, in the enqueue domain. -/
  deqGraySync : Pointer param
  deqGraySeen : Pointer param
  /-- `RegNext(enqPointerGray)` and its `RegNext`, in the dequeue domain. -/
  enqGraySync : Pointer param
  enqGraySeen : Pointer param
  mem : Pointer param → α

structure Input where
  enqEdge : Bool
  deqEdge : Bool
  enqData : Option α
  deqReady : Bool

structure Output where
  /-- The word written at an enqueue edge, with its slot. -/
  enq : Option (Pointer param × α)
  /-- The word given at a dequeue edge, with its slot. -/
  deq : Option (Pointer param × α)

variable {param α}

def gray (x : BitVec w) : BitVec w := x ^^^ (x >>> 1)

/-- The memory has no reset value. -/
def initial (param : AsyncQueueParam) (mem : Pointer param → α) : State param α :=
  ⟨0,0,0,0,0,0,mem⟩

def full (s : State param α) : Bool := gray (s.enqCounter + 1) == s.deqGraySeen

def empty (s : State param α) : Bool := gray s.deqCounter == s.enqGraySeen

/-- The word offered and accepted, which an enqueue edge writes. -/
def enqFire (s : State param α) (i : Input α) : Option α := if full s then none else i.enqData

def deqFire (s : State param α) (i : Input α) : Bool := !empty s && i.deqReady

def next (s : State param α) (i : Input α) : State param α where
  enqCounter := if i.enqEdge && (enqFire s i).isSome then s.enqCounter + 1 else s.enqCounter
  deqCounter := if i.deqEdge && deqFire s i then s.deqCounter + 1 else s.deqCounter
  deqGraySync := if i.enqEdge then gray s.deqCounter else s.deqGraySync
  deqGraySeen := if i.enqEdge then s.deqGraySync else s.deqGraySeen
  enqGraySync := if i.deqEdge then gray s.enqCounter else s.enqGraySync
  enqGraySeen := if i.deqEdge then s.enqGraySync else s.enqGraySeen
  mem := match i.enqEdge, enqFire s i with
    | true, some word => fun slot => if slot = s.enqCounter then word else s.mem slot
    | _, _ => s.mem

def out (s : State param α) (i : Input α) : Output param α where
  enq := if i.enqEdge then (enqFire s i).map fun word => (s.enqCounter,word) else none
  deq := if i.deqEdge && deqFire s i then some (s.deqCounter,s.mem s.deqCounter) else none

end AsyncQueue

def asyncQueue (param : AsyncQueueParam) (α : Type) :
    Sync.Machine (AsyncQueue.State param α) (AsyncQueue.Input α) (AsyncQueue.Output param α) where
  next := AsyncQueue.next
  out := AsyncQueue.out

namespace AsyncQueue

open Sync

variable {param : AsyncQueueParam} {α : Type}

def enqueued (history : List (Output param α)) : List α := (history.filterMap Output.enq).map Prod.snd
def dequeued (history : List (Output param α)) : List α := (history.filterMap Output.deq).map Prod.snd

/-- The slot of the `k`-th word. -/
def slot (param : AsyncQueueParam) (k : Nat) : Pointer param := BitVec.ofNat _ k

/-- Words leave in the order they came, and one slot stays free. -/
structure SafeState (history : List (Output param α)) : Prop where
  order : dequeued history <+: enqueued history
  stored : (enqueued history).length ≤ (dequeued history).length + (param.depth - 1)

/-- A write goes to a slot without unread word, and a read finds the word written there. -/
structure SafeEdge (history : List (Output param α)) (s : State param α) (i : Input α) : Prop where
  fresh : ∀ place word, (out s i).enq = some (place,word) →
    ∀ k, (dequeued history).length ≤ k → k < (enqueued history).length → slot param k ≠ place
  there : ∀ place word, (out s i).deq = some (place,word) →
    place = slot param (dequeued history).length ∧
    (enqueued history)[(dequeued history).length]? = some word

/-- After two dequeue edges without enqueue the empty flag tells the true occupancy. -/
def Settles (param : AsyncQueueParam) (start : State param α) (inputs : List (Input α)) : Prop :=
  ∀ before window, inputs = before ++ window →
    (∀ o ∈ (asyncQueue param α).outs ((asyncQueue param α).exec start before) window, o.enq = none) →
    2 ≤ window.countP Input.deqEdge →
    (empty ((asyncQueue param α).exec start inputs) = true ↔
      (dequeued ((asyncQueue param α).outs start inputs)).length =
        (enqueued ((asyncQueue param α).outs start inputs)).length)

structure Crosses (param : AsyncQueueParam) (start : State param α) (inputs : List (Input α)) : Prop where
  reached : SafeState ((asyncQueue param α).outs start inputs)
  edges : (asyncQueue param α).Each SafeEdge start inputs
  settles : Settles param start inputs

/-! ### Gray codes and slots -/

theorem getLsbD_gray (x : BitVec w) (b : Nat) :
    (gray x).getLsbD b = (x.getLsbD b ^^ x.getLsbD (b + 1)) := by
  simp [gray,Nat.add_comm 1 b]

/-- Gray codes agree only where the pointers do: bit by bit from the top. -/
theorem gray_injective {x y : BitVec w} (same : gray x = gray y) : x = y := by
  have bits (below b : Nat) (top : w ≤ b + below) : x.getLsbD b = y.getLsbD b := by
    induction below generalizing b with
    | zero => rw [BitVec.getLsbD_of_ge x b top,BitVec.getLsbD_of_ge y b top]
    | succ below ih =>
      have above := ih (b + 1) (by omega)
      have code := congrArg (fun z => z.getLsbD b) same
      simp only [getLsbD_gray,above] at code
      simpa using code
  exact BitVec.eq_of_getLsbD_eq fun b _ => bits w b (Nat.le_add_left _ _)

theorem slot_succ (param : AsyncQueueParam) (k : Nat) : slot param (k + 1) = slot param k + 1 := by
  simp [slot,BitVec.ofNat_add]

/-- Counts less than a turn apart have their own slots. -/
theorem slot_inj {j k : Nat} (le : j ≤ k) (near : k < j + param.depth)
    (same : slot param j = slot param k) : j = k := by
  have turn : 2 ^ counterBits param = param.depth := param.powerOfTwo
  have values := congrArg BitVec.toNat same
  simp only [slot,BitVec.toNat_ofNat,turn] at values
  have whole : (k - j) % param.depth = 0 := Nat.sub_mod_eq_zero_of_mod_eq values.symm
  rw [Nat.mod_eq_of_lt (by omega)] at whole
  omega

theorem slot_turn (param : AsyncQueueParam) (k : Nat) : slot param (k + param.depth) = slot param k := by
  have turn : 2 ^ counterBits param = param.depth := param.powerOfTwo
  apply BitVec.eq_of_toNat_eq
  simp [slot,turn]

theorem gray_slot_eq {j k : Nat} (le : j ≤ k) (near : k < j + param.depth) :
    gray (slot param j) = gray (slot param k) ↔ j = k :=
  ⟨fun same => slot_inj le near (gray_injective same),fun same => by rw [same]⟩

/-! ### The counts behind the registers -/

/-- The registers hold the pointers of the counts, and the slots the words between them. -/
structure Tracks (history : List (Output param α)) (s : State param α) (c : Crossing) : Prop where
  sound : c.Sound (param.depth - 1)
  written : c.written = (enqueued history).length
  read : c.read = (dequeued history).length
  enqCounter : s.enqCounter = slot param c.written
  deqCounter : s.deqCounter = slot param c.read
  deqGraySync : s.deqGraySync = gray (slot param c.readSync)
  deqGraySeen : s.deqGraySeen = gray (slot param c.readSeen)
  enqGraySync : s.enqGraySync = gray (slot param c.writtenSync)
  enqGraySeen : s.enqGraySeen = gray (slot param c.writtenSeen)
  held : ∀ k, c.read ≤ k → k < c.written → (enqueued history)[k]? = some (s.mem (slot param k))
  order : dequeued history <+: enqueued history

variable {history : List (Output param α)} {s : State param α} {c : Crossing}

theorem depth_pos (param : AsyncQueueParam) : 0 < param.depth := by
  rw [← param.powerOfTwo]
  exact Nat.two_pow_pos _

theorem Tracks.empty_iff (tracks : Tracks history s c) : empty s = true ↔ c.read = c.writtenSeen := by
  have depth := depth_pos param
  have sound := tracks.sound
  have stored := sound.stored_le
  have seen := Nat.le_trans sound.writtenSeen_le sound.writtenSync_le
  rw [empty,beq_iff_eq,tracks.deqCounter,tracks.enqGraySeen]
  exact gray_slot_eq sound.read_le (by omega)

/-- Not full leaves room for one more word beyond the reads seen. -/
theorem Tracks.room (tracks : Tracks history s c) (notFull : full s = false) :
    c.written < c.readSeen + (param.depth - 1) := by
  have depth := depth_pos param
  have within := tracks.sound.written_le
  apply Nat.lt_of_le_of_ne within
  intro filled
  have wrapped : c.written + 1 = c.readSeen + param.depth := by omega
  rw [full,tracks.enqCounter,tracks.deqGraySeen,← slot_succ,wrapped,slot_turn,beq_self_eq_true] at notFull
  contradiction

theorem Tracks.there (tracks : Tracks history s c) (notEmpty : empty s = false) :
    c.read < c.writtenSeen := by
  apply Nat.lt_of_le_of_ne tracks.sound.read_le
  intro drained
  rw [tracks.empty_iff.mpr drained] at notEmpty
  contradiction

theorem not_full_of_fire {i : Input α} (fire : (enqFire s i).isSome = true) : full s = false := by
  unfold enqFire at fire
  split at fire
  · contradiction
  · simpa using ‹¬ full s = true›

theorem enqueued_next (history : List (Output param α)) (s : State param α) (i : Input α) :
    enqueued (history ++ [out s i]) =
      enqueued history ++ (if i.enqEdge then enqFire s i else none).toList := by
  cases edge : i.enqEdge <;> cases fire : enqFire s i <;> simp [enqueued,out,edge,fire]

theorem dequeued_next (history : List (Output param α)) (s : State param α) (i : Input α) :
    dequeued (history ++ [out s i]) =
      dequeued history ++ (if i.deqEdge && deqFire s i then [s.mem s.deqCounter] else []) := by
  cases edge : i.deqEdge <;> cases fire : deqFire s i <;> simp [dequeued,out,edge,fire]

/-- The slot of the word to be read holds it. -/
theorem Tracks.front (tracks : Tracks history s c) (notEmpty : empty s = false) :
    (enqueued history)[(dequeued history).length]? = some (s.mem s.deqCounter) := by
  have sound := tracks.sound
  have before := tracks.there notEmpty
  rw [← tracks.read,tracks.deqCounter]
  exact tracks.held c.read (Nat.le_refl _)
    (Nat.lt_of_lt_of_le before (Nat.le_trans sound.writtenSeen_le sound.writtenSync_le))

theorem prefix_snoc {l m : List α} {x : α} (front : l <+: m) (at_end : m[l.length]? = some x) :
    l ++ [x] <+: m := by
  obtain ⟨rest,rfl⟩ := front
  rw [List.getElem?_append_right (Nat.le_refl _),Nat.sub_self] at at_end
  cases rest with
  | nil => contradiction
  | cons y rest =>
    obtain rfl := Option.some.inj at_end
    exact ⟨rest,by simp⟩

theorem Tracks.next_order (tracks : Tracks history s c) (i : Input α) :
    dequeued (history ++ [out s i]) <+: enqueued (history ++ [out s i]) := by
  rw [enqueued_next,dequeued_next]
  apply List.IsPrefix.trans _ (List.prefix_append _ _)
  cases fire : i.deqEdge && deqFire s i with
  | false => simpa using tracks.order
  | true =>
    simp only [deqFire,Bool.and_eq_true,Bool.not_eq_true'] at fire
    exact prefix_snoc tracks.order (tracks.front fire.2.1)

theorem Tracks.next_held (tracks : Tracks history s c) (i : Input α) (k : Nat) (unread : c.read ≤ k)
    (stored : k < c.written + (i.enqEdge && (enqFire s i).isSome).toNat) :
    (enqueued (history ++ [out s i]))[k]? = some ((next s i).mem (slot param k)) := by
  rw [enqueued_next]
  have old (before : k < c.written) (kept : (next s i).mem (slot param k) = s.mem (slot param k)) :
      (enqueued history ++ (if i.enqEdge then enqFire s i else none).toList)[k]? =
        some ((next s i).mem (slot param k)) := by
    rw [List.getElem?_append_left (by rw [← tracks.written]; exact before),kept]
    exact tracks.held k unread before
  cases edge : i.enqEdge with
  | false =>
    rw [edge] at stored
    exact edge ▸ old (by simpa using stored) (by simp [next,edge])
  | true =>
    cases fire : enqFire s i with
    | none =>
      rw [edge,fire] at stored
      have same := old (by simpa using stored) (by simp [next,edge,fire])
      rwa [edge,fire] at same
    | some word =>
      by_cases before : k < c.written
      · have apart : slot param k ≠ s.enqCounter := by
          rw [tracks.enqCounter]
          intro same
          have near := tracks.sound.stored_le
          have depth := depth_pos param
          have := slot_inj (Nat.le_of_lt before) (by omega) same
          omega
        have same := old before (by simp [next,edge,fire,apart])
        rwa [edge,fire] at same
      · rw [edge,fire] at stored
        have last : k = c.written := by simp at stored; omega
        rw [last,List.getElem?_append_right (by rw [tracks.written]),tracks.written]
        simp [next,edge,fire,tracks.enqCounter,tracks.written]

theorem Tracks.next (tracks : Tracks history s c) (i : Input α) :
    Tracks (history ++ [out s i]) (next s i)
      (c.next i.enqEdge i.deqEdge (enqFire s i).isSome (deqFire s i)) := by
  have moves : deqFire s i = true → empty s = false := by
    intro fire
    simp only [deqFire,Bool.and_eq_true,Bool.not_eq_true'] at fire
    exact fire.1
  refine ⟨tracks.sound.next (fun fire => tracks.room (not_full_of_fire fire))
    (fun fire => tracks.there (moves fire)),?_,?_,?_,?_,?_,?_,?_,?_,?_,tracks.next_order i⟩
  · rw [enqueued_next,List.length_append,← tracks.written]
    cases edge : i.enqEdge <;> cases fire : enqFire s i <;> simp [Crossing.next]
  · rw [dequeued_next,List.length_append,← tracks.read]
    cases edge : i.deqEdge <;> cases fire : deqFire s i <;> simp [Crossing.next]
  · simp only [AsyncQueue.next,Crossing.next,tracks.enqCounter]
    split
    · rw [slot_succ]
    · rfl
  · simp only [AsyncQueue.next,Crossing.next,tracks.deqCounter]
    split
    · rw [slot_succ]
    · rfl
  · cases edge : i.enqEdge <;> simp [AsyncQueue.next,Crossing.next,edge,tracks.deqCounter,tracks.deqGraySync]
  · cases edge : i.enqEdge <;> simp [AsyncQueue.next,Crossing.next,edge,tracks.deqGraySync,tracks.deqGraySeen]
  · cases edge : i.deqEdge <;> simp [AsyncQueue.next,Crossing.next,edge,tracks.enqCounter,tracks.enqGraySync]
  · cases edge : i.deqEdge <;> simp [AsyncQueue.next,Crossing.next,edge,tracks.enqGraySync,tracks.enqGraySeen]
  · intro k unread stored
    simp only [Crossing.next] at unread stored
    apply tracks.next_held i k
    · split at unread <;> omega
    · cases fire : i.enqEdge && (enqFire s i).isSome <;> simp [fire] at stored ⊢ <;> omega

theorem tracks_start (param : AsyncQueueParam) (mem : Pointer param → α) :
    Tracks [] (initial param mem) ⟨0,0,0,0,0,0⟩ := by
  have zero : gray (slot param 0) = 0 := by simp [gray,slot]
  refine ⟨Crossing.sound_start _,rfl,rfl,rfl,rfl,zero.symm,zero.symm,zero.symm,zero.symm,?_,
    List.prefix_refl _⟩
  intro k _ stored
  exact absurd stored (Nat.not_lt_zero k)

theorem tracks_run (param : AsyncQueueParam) (mem : Pointer param → α) (inputs : List (Input α)) :
    ∃ c, Tracks ((asyncQueue param α).outs (initial param mem) inputs)
      ((asyncQueue param α).exec (initial param mem) inputs) c :=
  Machine.run_rule (m := asyncQueue param α) (fun history s => ∃ c, Tracks history s c)
    ⟨_,tracks_start param mem⟩ (fun _ _ i ⟨_,tracks⟩ => ⟨_,tracks.next i⟩) inputs

theorem Tracks.safe (tracks : Tracks history s c) : SafeState history := by
  refine ⟨tracks.order,?_⟩
  rw [← tracks.written,← tracks.read]
  exact tracks.sound.stored_le

theorem Tracks.safe_edge (tracks : Tracks history s c) (i : Input α) : SafeEdge history s i := by
  constructor
  · intro place word write k unread stored same
    obtain ⟨_,rfl⟩ : (enqFire s i).isSome = true ∧ s.enqCounter = place := by
      simp only [out] at write
      split at write
      · obtain ⟨w,fire,pair⟩ := Option.map_eq_some_iff.mp write
        exact ⟨by rw [fire]; rfl,(Prod.mk.inj pair).1⟩
      · contradiction
    rw [tracks.enqCounter] at same
    rw [← tracks.read] at unread
    rw [← tracks.written] at stored
    have near := tracks.sound.stored_le
    have depth := depth_pos param
    have := slot_inj (Nat.le_of_lt stored) (by omega) same
    omega
  · intro place word read
    simp only [out] at read
    split at read
    · rename_i fire
      simp only [deqFire,Bool.and_eq_true,Bool.not_eq_true'] at fire
      obtain ⟨rfl,rfl⟩ := Prod.mk.inj (Option.some.inj read)
      refine ⟨?_,tracks.front fire.2.1⟩
      rw [← tracks.read,tracks.deqCounter]
    · contradiction

/-- Over a window without enqueue the write count reaches the dequeue domain in two edges. -/
theorem Tracks.settle (tracks : Tracks history s c) (window : List (Input α))
    (quiet : ∀ o ∈ (asyncQueue param α).outs s window, o.enq = none) :
    ∃ c', Tracks (history ++ (asyncQueue param α).outs s window) ((asyncQueue param α).exec s window) c' ∧
      (1 ≤ window.countP Input.deqEdge → c'.writtenSync = c'.written) ∧
      (2 ≤ window.countP Input.deqEdge → c'.writtenSeen = c'.written) := by
  induction window using List.reverseRecOn with
  | nil => exact ⟨c,by simpa using tracks,by simp,by simp⟩
  | append_singleton window i ih =>
    obtain ⟨c',later,once,twice⟩ := ih fun o inside => quiet o (by simp [inside])
    have silent := quiet (out ((asyncQueue param α).exec s window) i)
      (by rw [Machine.outs_append]; exact List.mem_append_right _ List.mem_cons_self)
    have noWrite : (i.enqEdge && (enqFire ((asyncQueue param α).exec s window) i).isSome) = false := by
      cases edge : i.enqEdge with
      | false => rfl
      | true => simpa [out,edge] using silent
    refine ⟨c'.next i.enqEdge i.deqEdge (enqFire ((asyncQueue param α).exec s window) i).isSome
      (deqFire ((asyncQueue param α).exec s window) i),?_,?_,?_⟩
    · rw [Machine.outs_append,Machine.exec_append,← List.append_assoc]
      exact later.next i
    · intro some_edge
      cases edge : i.deqEdge with
      | true => simp [Crossing.next,noWrite]
      | false =>
        simp only [Crossing.next,noWrite,Bool.false_eq_true,↓reduceIte]
        exact once (by simpa [edge] using some_edge)
    · intro two_edges
      cases edge : i.deqEdge with
      | true =>
        simp only [Crossing.next,noWrite,Bool.false_eq_true,↓reduceIte]
        exact once (by simpa [edge] using two_edges)
      | false =>
        simp only [Crossing.next,noWrite,Bool.false_eq_true,↓reduceIte]
        exact twice (by simpa [edge] using two_edges)

theorem settles (param : AsyncQueueParam) (mem : Pointer param → α) (inputs : List (Input α)) :
    Settles param (initial param mem) inputs := by
  rintro before window rfl quiet two_edges
  obtain ⟨c,tracks⟩ := tracks_run param mem before
  obtain ⟨c',later,_,seen⟩ := tracks.settle window quiet
  rw [Machine.exec_append,Machine.outs_append,later.empty_iff,seen two_edges,later.written,later.read]

/-- The queue carries its words across the clock domains in every interleaving of edges. -/
theorem crosses (param : AsyncQueueParam) (mem : Pointer param → α) (inputs : List (Input α)) :
    Crosses param (initial param mem) inputs := by
  refine ⟨?_,?_,settles param mem inputs⟩
  · obtain ⟨c,tracks⟩ := tracks_run param mem inputs
    exact tracks.safe
  · rintro before i after rfl
    obtain ⟨c,tracks⟩ := tracks_run param mem before
    exact tracks.safe_edge i

end AsyncQueue
end Snax
