import Snax.SimWorld

/-! The two answers of the simulated DMA, the identifier of the last transfer and the busy flag,
against the times at which its transfers end. -/
namespace Snax

namespace SimWorld

/-! ### The channel -/

/-- The ends of transfers submitted one after the other to a channel that is free from `free` on: a
transfer follows all earlier ones, and pays its latency when it finds the channel idle. -/
def finishes : Nat → List (DmaDesc × Nat) → List Nat
  | _, [] => []
  | free, (d,at_) :: rest =>
    let stop := (if free ≤ at_ then at_ + d.firstBeat else free) + d.beats
    stop :: finishes stop rest

/-- The worlds and the identifiers after the submissions. -/
def submitAll : SimWorld → List (DmaDesc × Nat) → SimWorld
  | w, [] => w
  | w, (d,at_) :: rest => submitAll (w.dmaSubmit d at_) rest

def identifiers : SimWorld → List (DmaDesc × Nat) → List (BitVec 32)
  | _, [] => []
  | w, (d,at_) :: rest => (w.dmaSubmit d at_).dmaTxid :: identifiers (w.dmaSubmit d at_) rest

/-- Before the first transfer. -/
def noDma (w : SimWorld) : SimWorld := { w with dmaTxid := 0, dmaBusyUntil := 0 }

/-- The answers at `t` are right about transfers with these identifiers and ends. -/
structure Answers (w : SimWorld) (ids : List (BitVec 32)) (ends : List Nat) (t : Nat) : Prop where
  completed : ∀ p ∈ ids.zip ends, p.1 ≤ w.dmaCompletedId t → p.2 ≤ t
  idle : w.dmaBusy t = 0 ↔ ∀ stop ∈ ends, stop ≤ t
  rising : ∀ t', t ≤ t' → w.dmaCompletedId t ≤ w.dmaCompletedId t'
  falling : ∀ t', t ≤ t' → w.dmaBusy t' ≤ w.dmaBusy t

/-! ### The end of the last transfer -/

theorem busyAfter_eq (free : Nat) (d : DmaDesc) (at_ : Nat) :
    busyAfter free d at_ = (if free ≤ at_ then at_ + d.firstBeat else free) + d.beats := by
  unfold busyAfter
  split <;> rfl

theorem le_busyAfter (free : Nat) (d : DmaDesc) (at_ : Nat) : free ≤ busyAfter free d at_ := by
  unfold busyAfter
  split <;> omega

/-- The channel is free when the last transfer ends, and then all of them have. -/
theorem submitAll_busyUntil_le_iff (w : SimWorld) (subs : List (DmaDesc × Nat)) (t : Nat) :
    (submitAll w subs).dmaBusyUntil ≤ t ↔
      w.dmaBusyUntil ≤ t ∧ ∀ stop ∈ finishes w.dmaBusyUntil subs, stop ≤ t := by
  induction subs generalizing w with
  | nil => simp [submitAll,finishes]
  | cons s rest ih =>
    obtain ⟨d,at_⟩ := s
    have first := le_busyAfter w.dmaBusyUntil d at_
    rw [submitAll,ih,dmaSubmit_dmaBusyUntil,finishes]
    simp only [← busyAfter_eq,List.forall_mem_cons]
    constructor
    · rintro ⟨here,later⟩
      exact ⟨first.trans here,here,later⟩
    · rintro ⟨-,here,later⟩
      exact ⟨here,later⟩

/-- The last transfer has the identifier that counts as completed. -/
theorem last_transfer (w : SimWorld) {subs : List (DmaDesc × Nat)} (some : subs ≠ []) :
    ((submitAll w subs).dmaTxid,(submitAll w subs).dmaBusyUntil) ∈
      (identifiers w subs).zip (finishes w.dmaBusyUntil subs) := by
  induction subs generalizing w with
  | nil => exact absurd rfl some
  | cons s rest ih =>
    obtain ⟨d,at_⟩ := s
    rw [submitAll,identifiers,finishes]
    simp only [← busyAfter_eq,List.zip_cons_cons]
    by_cases last : rest = []
    · subst last
      simp [submitAll]
    · have later := ih (w.dmaSubmit d at_) last
      rw [dmaSubmit_dmaBusyUntil] at later
      exact List.mem_cons_of_mem _ later

theorem dmaBusy_eq_zero_iff (w : SimWorld) (t : Nat) : w.dmaBusy t = 0 ↔ w.dmaBusyUntil ≤ t := by
  unfold dmaBusy
  split
  · exact ⟨fun one => absurd one (by decide),fun before => absurd before (by omega)⟩
  · exact ⟨fun _ => by omega,fun _ => rfl⟩

theorem dmaBusy_falling (w : SimWorld) {t t' : Nat} (later : t ≤ t') : w.dmaBusy t' ≤ w.dmaBusy t := by
  by_cases busy : t' < w.dmaBusyUntil
  · rw [dmaBusy,dmaBusy,if_pos busy,if_pos (by omega)]
    exact BitVec.le_refl _
  · rw [(dmaBusy_eq_zero_iff w t').mpr (by omega)]
    exact Nat.zero_le _

end SimWorld

open SimWorld in
/-- The answers are right from the end of the last transfer on, and at no time before. -/
theorem dma_answers_exact (w : SimWorld) (subs : List (DmaDesc × Nat)) (t : Nat) :
    Answers (submitAll w.noDma subs) (identifiers w.noDma subs) (finishes 0 subs) t ↔
      (submitAll w.noDma subs).dmaBusyUntil ≤ t := by
  have ends := submitAll_busyUntil_le_iff w.noDma subs t
  constructor
  · intro right
    by_cases none : subs = []
    · subst none
      exact Nat.zero_le t
    · exact right.completed _ (last_transfer w.noDma none) (BitVec.le_refl _)
  · intro free
    have all := (ends.mp free).2
    refine ⟨fun p member _ => all _ (List.of_mem_zip member).2,?_,fun _ _ => BitVec.le_refl _,
      fun _ later => dmaBusy_falling _ later⟩
    rw [dmaBusy_eq_zero_iff]
    exact ⟨fun _ => all,fun _ => free⟩

namespace SimWorld

/-- One beat from L3. -/
def oneBeat : DmaDesc := ⟨0x80000000,0x10000000,64,0,0,1,false,true,false⟩

end SimWorld

open SimWorld in
/-- The identifier of a transfer counts as completed in the cycle of its submission, twenty cycles
before the transfer ends. -/
theorem dma_completed_early :
    ¬ ∀ (subs : List (DmaDesc × Nat)), (subs.map Prod.snd).Pairwise (· ≤ ·) →
      ∀ t, (∀ s ∈ subs, s.2 ≤ t) →
        Answers (submitAll fresh subs) (identifiers fresh subs) (finishes 0 subs) t := by
  intro right
  have early := (right [(oneBeat,0)] (by simp) 0 (by simp)).completed (1,20) (by
    simp [identifiers,fresh,finishes]
    decide) (by simp [dmaCompletedId,submitAll,fresh])
  exact absurd early (by decide)

end Snax
