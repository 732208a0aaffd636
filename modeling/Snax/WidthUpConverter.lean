import Snax.WidthConverter

/-! `utils/WidthConverter.scala`: the converter that collects the parts of a wide word. All
parts but the last are stored, the last passes through in the cycle the word leaves. -/
namespace Snax.WidthUpConverter

variable {α : Type} {ratio : Nat}

structure State (α : Type) (ratio : Nat) where
  stored : Fin (ratio - 1) → α
  counter : BitVec (log2Ceil ratio)

def atLast (s : State α ratio) : Bool := s.counter.toNat == ratio - 1

def outBits (s : State α ratio) (bits : α) : Vector α ratio :=
  Vector.ofFn fun b => if h : b.val < ratio - 1 then s.stored ⟨b.val,h⟩ else bits

def outValid (s : State α ratio) (valid : Bool) : Bool := atLast s && valid

def inReady (s : State α ratio) (outReady : Bool) : Bool := if atLast s then outReady else true

def inFire (s : State α ratio) (valid outReady : Bool) : Bool := valid && inReady s outReady

/-- The register of the part that is due follows the input, valid or not. -/
def next (s : State α ratio) (start valid : Bool) (bits : α) (outReady : Bool) : State α ratio where
  stored := fun b => if s.counter.toNat == b.val then bits else s.stored b
  counter := BasicCounter.next true start (inFire s valid outReady) (BitVec.ofNat _ ratio) s.counter

/-- The parts of the incomplete word stand in the registers. -/
structure Collects (part : List α) (s : State α ratio) : Prop where
  count : s.counter.toNat = part.length
  short : part.length < ratio
  parts : ∀ b (inside : b < ratio - 1) x, part[b]? = some x → s.stored ⟨b,inside⟩ = x

variable {s : State α ratio} {part : List α} {valid outReady : Bool} {bits : α}

theorem Collects.fresh (positive : 0 < ratio) (zero : s.counter = 0) : Collects ([] : List α) s :=
  ⟨by simp [zero],positive,fun _ _ _ kth => by simp at kth⟩

theorem Collects.atLast_iff (collects : Collects part s) :
    atLast s = true ↔ part.length + 1 = ratio := by
  have count := collects.count
  have short := collects.short
  rw [atLast,beq_iff_eq]
  omega

theorem Collects.idle (collects : Collects part s) (quiet : inFire s valid outReady = false) :
    Collects part (next s false valid bits outReady) := by
  refine ⟨?_,collects.short,fun b inside x kth => ?_⟩
  · simpa [next,quiet] using collects.count
  · have before := (List.getElem?_eq_some_iff.mp kth).1
    have other : s.counter.toNat ≠ b := by rw [collects.count]; omega
    simpa [next,other] using collects.parts b inside x kth

theorem counter_fire (collects : Collects part s) (fires : inFire s valid outReady = true) :
    (next s false valid bits outReady).counter.toNat =
      if part.length + 1 < ratio then part.length + 1 else 0 := by
  have count := collects.count
  have short := collects.short
  rw [next,WidthDownConverter.counter_tick _ (by omega),fires,if_pos rfl,count]

/-- The last part leaves the registers to the next word. -/
theorem Collects.fire_last (collects : Collects part s) (fires : inFire s valid outReady = true)
    (whole : part.length + 1 = ratio) : Collects ([] : List α) (next s false valid bits outReady) := by
  refine Collects.fresh (Nat.zero_lt_of_lt collects.short) (BitVec.eq_of_toNat_eq ?_)
  rw [counter_fire collects fires,if_neg (by omega)]
  rfl

theorem Collects.fire_more (collects : Collects part s) (fires : inFire s valid outReady = true)
    (more : part.length + 1 ≠ ratio) : Collects (part ++ [bits]) (next s false valid bits outReady) := by
  have count := collects.count
  have short := collects.short
  refine ⟨?_,by simp; omega,fun b inside x kth => ?_⟩
  · rw [counter_fire collects fires,if_pos (by omega)]
    simp
  · rcases Nat.lt_or_ge b part.length with before | last
    · rw [List.getElem?_append_left before] at kth
      have other : s.counter.toNat ≠ b := by omega
      simpa [next,other] using collects.parts b inside x kth
    · have here : b < (part ++ [bits]).length := (List.getElem?_eq_some_iff.mp kth).1
      have due : b = part.length := by
        simp at here
        omega
      subst due
      have same : bits = x := by simpa using kth
      simp [next,count,same]

/-- The last part completes the word. -/
theorem Collects.outBits_last (collects : Collects part s) (last : atLast s = true) :
    (outBits s bits).toList = part ++ [bits] := by
  have whole := collects.atLast_iff.mp last
  apply List.ext_getElem
  · simp [whole]
  · intro b inside inside'
    have within : b < ratio := by simpa using inside
    simp only [outBits,Vector.getElem_toList,Vector.getElem_ofFn]
    split
    · next early =>
      have before : b < part.length := by omega
      rw [List.getElem_append_left before]
      exact collects.parts b early _ (List.getElem?_eq_getElem before)
    · next late =>
      have due : b = part.length := by omega
      subst due
      simp

end Snax.WidthUpConverter
