import Snax.Counter

/-! `utils/WidthConverter.scala`: the converter that takes a wide word in one handshake
and hands out its parts one by one. The first part passes through in the cycle the word
is taken, the others wait in registers. -/
namespace Snax.WidthDownConverter

variable {α : Type} [Zero α] {ratio : Nat}

structure State (α : Type) (ratio : Nat) where
  storedData : Vector α (ratio - 1)
  counter : BitVec (log2Ceil ratio)

/-- `io.out`, valid when it is `some`; part 0 comes straight from the input. -/
def out (s : State α ratio) (bits : Option (Vector α ratio)) : Option α :=
  if s.counter = 0 then bits.map fun parts => parts.toList.headD 0
  else some (s.storedData.toList.getD (s.counter.toNat - 1) 0)

def inReady (s : State α ratio) (outReady : Bool) : Bool := if s.counter = 0 then outReady else false

def inFire (s : State α ratio) (bits : Option (Vector α ratio)) (outReady : Bool) :
    Option (Vector α ratio) := if inReady s outReady then bits else none

def outFire (s : State α ratio) (bits : Option (Vector α ratio)) (outReady : Bool) : Option α :=
  if outReady then out s bits else none

def next (s : State α ratio) (start : Bool) (bits : Option (Vector α ratio)) (outReady : Bool) :
    State α ratio where
  storedData := match inFire s bits outReady with
    | some parts => parts.drop 1
    | none => s.storedData
  counter := BasicCounter.next true start (outFire s bits outReady).isSome
    (BitVec.ofNat _ ratio) s.counter

/-- The parts of the word taken last that have not been handed out yet. -/
def rest (s : State α ratio) : List α :=
  if s.counter = 0 then [] else s.storedData.toList.drop (s.counter.toNat - 1)

/-- The counter wraps at the ratio, also where the ratio does not fit the counter's width. -/
theorem counter_tick (value : BitVec (log2Ceil ratio)) (below : value.toNat < ratio) (tick : Bool) :
    (BasicCounter.next true false tick (BitVec.ofNat _ ratio) value).toNat =
      if tick then (if value.toNat + 1 < ratio then value.toNat + 1 else 0) else value.toNat :=
  BasicCounter.next_ofNat (le_two_pow_log2Ceil ratio) value below tick

theorem counter_below (s : State α ratio) (bits : Option (Vector α ratio)) (outReady : Bool)
    (below : s.counter.toNat < ratio) : (next s false bits outReady).counter.toNat < ratio := by
  rw [next,counter_tick _ below]
  split
  · split <;> omega
  · exact below

omit [Zero α] in
theorem rest_of_zero {s : State α ratio} (zero : s.counter = 0) : rest s = [] := if_pos zero

omit [Zero α] in
theorem rest_of_toNat {s : State α ratio} (positive : 0 < s.counter.toNat) :
    rest s = s.storedData.toList.drop (s.counter.toNat - 1) := by
  have nonzero : s.counter ≠ 0 := by
    intro zero
    simp [zero] at positive
  exact if_neg nonzero

theorem head_append_drop (parts : Vector α ratio) (positive : 0 < ratio) :
    parts.toList.headD 0 :: parts.toList.drop 1 = parts.toList := by
  have size : parts.toList.length = ratio := by simp
  generalize parts.toList = l at size
  cases l with
  | nil => simp at size; omega
  | cons part others => rfl

theorem counted (s : State α ratio) (bits : Option (Vector α ratio)) (outReady : Bool)
    (below : s.counter.toNat < ratio) : (next s false bits outReady).counter.toNat =
      if (outFire s bits outReady).isSome then
        (if s.counter.toNat + 1 < ratio then s.counter.toNat + 1 else 0) else s.counter.toNat :=
  counter_tick s.counter below (outFire s bits outReady).isSome

/-- At counter zero a word that is taken sends its first part and leaves the others. -/
theorem next_rest_fresh (s : State α ratio) (bits : Option (Vector α ratio)) (outReady : Bool)
    (below : s.counter.toNat < ratio) (fresh : s.counter = 0) :
    (outFire s bits outReady).toList ++ rest (next s false bits outReady) =
      rest s ++ ((inFire s bits outReady).map Vector.toList).getD [] := by
  have count := counted s bits outReady below
  have zero : s.counter.toNat = 0 := by simp [fresh]
  rw [rest_of_zero fresh]
  by_cases fires : outReady = true ∧ bits.isSome = true
  · obtain ⟨parts,rfl⟩ := Option.isSome_iff_exists.mp fires.2
    have sent : outFire s (some parts) outReady = some (parts.toList.headD 0) := by
      simp only [outFire,out,if_pos fresh,if_pos fires.1,Option.map_some]
    have took : inFire s (some parts) outReady = some parts := by
      simp only [inFire,inReady,if_pos fresh,if_pos fires.1]
    have split := head_append_drop parts (by omega)
    rw [sent,zero] at count
    have stored : (next s false (some parts) outReady).storedData.toList = parts.toList.drop 1 := by
      simp only [next,took,Vector.toList_drop]
    by_cases more : 0 + 1 < ratio
    · have one : (next s false (some parts) outReady).counter.toNat = 1 := by simpa [more] using count
      rw [rest_of_toNat (by omega),one,stored,sent,took]
      simpa using split
    · have none_left : (next s false (some parts) outReady).counter = 0 := by
        apply BitVec.eq_of_toNat_eq
        simpa [more] using count
      have single : parts.toList.drop 1 = [] := by
        apply List.drop_eq_nil_of_le
        simp
        omega
      rw [single] at split
      rw [rest_of_zero none_left,sent,took]
      simpa using split
  · have idle : outFire s bits outReady = none ∧ inFire s bits outReady = none := by
      cases outReady <;> cases bits <;> simp_all [outFire,out,inFire,inReady]
    have still : (next s false bits outReady).counter = 0 := by
      apply BitVec.eq_of_toNat_eq
      simpa [idle.1,zero] using count
    rw [rest_of_zero still,idle.1,idle.2]
    rfl

/-- Above zero the stored parts go out and no word is taken. -/
theorem next_rest_stored (s : State α ratio) (bits : Option (Vector α ratio)) (outReady : Bool)
    (below : s.counter.toNat < ratio) (busy : s.counter ≠ 0) :
    (outFire s bits outReady).toList ++ rest (next s false bits outReady) =
      rest s ++ ((inFire s bits outReady).map Vector.toList).getD [] := by
  have count := counted s bits outReady below
  have positive : 0 < s.counter.toNat := by
    rcases Nat.eq_zero_or_pos s.counter.toNat with zero | positive
    · exact absurd (BitVec.eq_of_toNat_eq (by simpa using zero)) busy
    · exact positive
  have closed : inFire s bits outReady = none := by
    simp only [inFire,inReady,if_neg busy,Bool.false_eq_true,↓reduceIte]
  have stored : (next s false bits outReady).storedData = s.storedData := by
    simp only [next,closed]
  have inside : s.counter.toNat - 1 < s.storedData.toList.length := by simp; omega
  rw [rest_of_toNat positive,closed]
  cases outReady with
  | false =>
    have silent : outFire s bits false = none := rfl
    have still : (next s false bits false).counter.toNat = s.counter.toNat := by
      simpa [silent] using count
    rw [rest_of_toNat (by omega),still,stored,silent]
    simp
  | true =>
    have sent : outFire s bits true = some (s.storedData.toList.getD (s.counter.toNat - 1) 0) := by
      simp only [outFire,out,if_neg busy,↓reduceIte]
    have first := List.drop_eq_getElem_cons inside
    rw [sent] at count ⊢
    rw [List.getD_eq_getElem?_getD,List.getElem?_eq_getElem inside,Option.getD_some,first]
    by_cases more : s.counter.toNat + 1 < ratio
    · have up : (next s false bits true).counter.toNat = s.counter.toNat + 1 := by
        simpa [more] using count
      have place : s.counter.toNat + 1 - 1 = s.counter.toNat - 1 + 1 := by omega
      rw [rest_of_toNat (by omega),up,stored,place]
      simp
    · have wrapped : (next s false bits true).counter = 0 := by
        apply BitVec.eq_of_toNat_eq
        simpa [more] using count
      have beyond : s.storedData.toList.drop (s.counter.toNat - 1 + 1) = [] := by
        apply List.drop_eq_nil_of_le
        simp
        omega
      rw [rest_of_zero wrapped,beyond]
      simp

/-- Nothing is lost or reordered: what goes out and what remains is what was left, followed
by the word taken in this cycle. -/
theorem next_rest (s : State α ratio) (bits : Option (Vector α ratio)) (outReady : Bool)
    (below : s.counter.toNat < ratio) :
    (outFire s bits outReady).toList ++ rest (next s false bits outReady) =
      rest s ++ ((inFire s bits outReady).map Vector.toList).getD [] := by
  by_cases fresh : s.counter = 0
  · exact next_rest_fresh s bits outReady below fresh
  · exact next_rest_stored s bits outReady below fresh

end Snax.WidthDownConverter
