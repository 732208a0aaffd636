import Snax.Counter
import Snax.Sync.Chunks
import Snax.Sync.Elements
import Snax.Sync.Groups
import Snax.Sync.Machine

/-! `utils/ParallelSerialConverter.scala`: a word goes out as its lowest chunks, as many as the
termination factor says, and chunks that come in are collected to words again. -/
namespace Snax

open Sync

structure ParallelAndSerialConverterParams where
  parallelWidth : Nat
  serialWidth : Nat
  earlyTerminate : Bool
  allowedTerminateFactors : List Nat
  serialPositive : 0 < serialWidth
  wide : serialWidth ≤ parallelWidth
  whole : serialWidth < parallelWidth → parallelWidth % serialWidth = 0
  allowed : earlyTerminate = true → allowedTerminateFactors ≠ [] ∧
    ∀ f ∈ allowedTerminateFactors, 1 ≤ f ∧ f ≤ parallelWidth / serialWidth

namespace ParallelAndSerialConverterParams

variable (p : ParallelAndSerialConverterParams)

def ratio : Nat := p.parallelWidth / p.serialWidth

abbrev Word := BitVec p.parallelWidth
abbrev Chunk := BitVec p.serialWidth
abbrev Factor := BitVec (log2Ceil (p.ratio + 1))

/-- Without early termination there is no port and every chunk is due. -/
def dueChunks (terminateFactor : p.Factor) : p.Factor :=
  if p.earlyTerminate then terminateFactor else BitVec.ofNat _ p.ratio

theorem ratio_positive : 1 ≤ p.ratio := Nat.div_pos p.wide p.serialPositive

theorem ratio_mul : p.ratio * p.serialWidth = p.parallelWidth := by
  refine Nat.div_mul_cancel ?_
  rcases Nat.lt_or_eq_of_le p.wide with narrower | same
  · exact Nat.dvd_of_mod_eq_zero (p.whole narrower)
  · rw [same]

/-- The lowest `f` chunks of a word. -/
def lowChunks (f : Nat) (word : p.Word) : List p.Chunk := (List.range f).map (element p.serialWidth word)

@[simp] theorem lowChunks_length (f : Nat) (word : p.Word) : (p.lowChunks f word).length = f := by
  simp [lowChunks]

theorem length_flatMap_lowChunks (f : Nat) (words : List p.Word) :
    (words.flatMap (p.lowChunks f)).length = f * words.length := by
  induction words with
  | nil => rfl
  | cons word words ih => simp [ih,Nat.mul_succ,Nat.add_comm]

end ParallelAndSerialConverterParams

variable (p : ParallelAndSerialConverterParams)

/-! ### The two units -/

namespace ParallelToSerial

structure State where
  storedData : Fin (p.ratio - 1) → p.Chunk
  value : BitVec (log2Ceil p.ratio)

/-- The parallel input is valid when it is `some`. -/
structure Input where
  bits : Option p.Word
  terminateFactor : p.Factor
  ready : Bool
  start : Bool

structure Output where
  accepted : Option p.Word
  offered : Option p.Chunk
  delivered : Option p.Chunk

variable {p}

/-- Chunk `j` of the word that was taken, for `j` from 1 on; no chunk is 0. -/
def stored (s : State p) (j : Nat) : p.Chunk :=
  if inside : 1 ≤ j ∧ j - 1 < p.ratio - 1 then s.storedData ⟨j - 1,inside.2⟩ else 0

def offered (s : State p) (i : Input p) : Option p.Chunk :=
  if s.value = 0 then i.bits.map fun word => element p.serialWidth word 0
  else some (stored s s.value.toNat)

def accepted (s : State p) (i : Input p) : Option p.Word :=
  if s.value = 0 then (if i.ready then i.bits else none) else none

def delivered (s : State p) (i : Input p) : Option p.Chunk := if i.ready then offered s i else none

def next (s : State p) (i : Input p) : State p where
  storedData b := match accepted s i with
    | some word => element p.serialWidth word (b.val + 1)
    | none => s.storedData b
  value := BasicCounter.next true i.start (delivered s i).isSome
    ((p.dueChunks i.terminateFactor).setWidth _) s.value

def out (s : State p) (i : Input p) : Output p := ⟨accepted s i,offered s i,delivered s i⟩

end ParallelToSerial

def parallelToSerial :
    Machine (ParallelToSerial.State p) (ParallelToSerial.Input p) (ParallelToSerial.Output p) where
  next := ParallelToSerial.next
  out := ParallelToSerial.out

namespace SerialToParallel

structure State where
  outBitsSeq : Fin p.ratio → p.Chunk
  value : BitVec (log2Ceil p.ratio + 1)
  lastDataWriteFire : Bool
  stalled : Bool

structure Input where
  bits : Option p.Chunk
  terminateFactor : p.Factor
  ready : Bool
  start : Bool

structure Output where
  accepted : Option p.Chunk
  offered : Option p.Word
  delivered : Option p.Word

variable {p}

def offered (s : State p) : Option p.Word :=
  if s.lastDataWriteFire || s.stalled then some (packed _ s.outBitsSeq) else none

def outputStall (s : State p) (ready : Bool) : Bool := (offered s).isSome && !ready

def inReady (s : State p) (ready : Bool) : Bool := !outputStall s ready

def accepted (s : State p) (i : Input p) : Option p.Chunk := if inReady s i.ready then i.bits else none

def delivered (s : State p) (i : Input p) : Option p.Word := if i.ready then offered s else none

def next (s : State p) (i : Input p) : State p where
  outBitsSeq b := match accepted s i with
    | some chunk => if s.value.toNat = b.val then chunk else s.outBitsSeq b
    | none => s.outBitsSeq b
  value := BasicCounter.next true i.start (accepted s i).isSome
    ((p.dueChunks i.terminateFactor).setWidth _) s.value
  lastDataWriteFire := s.value.toNat == (p.dueChunks i.terminateFactor - 1).toNat && (accepted s i).isSome
  stalled := outputStall s i.ready

def out (s : State p) (i : Input p) : Output p := ⟨accepted s i,offered s,delivered s i⟩

end SerialToParallel

def serialToParallel :
    Machine (SerialToParallel.State p) (SerialToParallel.Input p) (SerialToParallel.Output p) where
  next := SerialToParallel.next
  out := SerialToParallel.out

/-! ### Words to chunks -/

namespace ParallelToSerial

variable {p} {s : State p} {i : Input p} {f : Nat}

/-- A cycle between two start pulses. -/
structure Steady (f : Nat) (i : Input p) : Prop where
  start : i.start = false
  factor : (p.dueChunks i.terminateFactor).toNat = f

/-- The chunks of the word taken last that are still to go out. -/
def rest (f : Nat) (s : State p) : List p.Chunk :=
  if s.value = 0 then [] else (List.range' s.value.toNat (f - s.value.toNat)).map (stored s)

def acceptedWords (history : List (Output p)) : List p.Word := history.filterMap Output.accepted

def deliveredChunks (history : List (Output p)) : List p.Chunk := history.filterMap Output.delivered

theorem value_eq_zero : s.value = 0 ↔ s.value.toNat = 0 := by
  rw [← BitVec.toNat_inj]
  rfl

theorem rest_of_pos (busy : s.value.toNat ≠ 0) :
    rest f s = (List.range' s.value.toNat (f - s.value.toNat)).map (stored s) :=
  if_neg fun zero => busy (value_eq_zero.mp zero)

theorem next_value (steady : Steady f i) (few : f ≤ p.ratio) (below : s.value.toNat < f) :
    (next s i).value.toNat = if (delivered s i).isSome then
      (if s.value.toNat + 1 < f then s.value.toNat + 1 else 0) else s.value.toNat := by
  have fits := few.trans (le_two_pow_log2Ceil p.ratio)
  have ceil : (p.dueChunks i.terminateFactor).setWidth (log2Ceil p.ratio) = BitVec.ofNat _ f := by
    rw [← steady.factor]
    apply BitVec.eq_of_toNat_eq
    rw [BitVec.toNat_setWidth,BitVec.toNat_ofNat]
  rw [next,steady.start,ceil]
  exact BasicCounter.next_ofNat fits s.value below _

theorem stored_next_some {word : p.Word} (taken : accepted s i = some word) {j : Nat} (some : 1 ≤ j)
    (inside : j < p.ratio) : stored (next s i) j = element p.serialWidth word j := by
  have within : 1 ≤ j ∧ j - 1 < p.ratio - 1 := ⟨some,by omega⟩
  rw [stored,dif_pos within]
  simp only [next,taken,Nat.sub_add_cancel some]

theorem stored_next_none (quiet : accepted s i = none) (j : Nat) : stored (next s i) j = stored s j := by
  simp only [stored,next,quiet]

theorem lowChunks_head {f : Nat} (positive : 1 ≤ f) (word : p.Word) : p.lowChunks f word =
    element p.serialWidth word 0 :: (List.range' 1 (f - 1)).map (element p.serialWidth word) := by
  obtain ⟨n,rfl⟩ : ∃ n, f = n + 1 := ⟨f - 1,by omega⟩
  rw [ParallelAndSerialConverterParams.lowChunks,List.range_eq_range',List.range'_succ]
  rfl

/-- A word that is taken sends its first chunk and leaves the others. -/
theorem cycle_fresh (steady : Steady f i) (positive : 1 ≤ f) (few : f ≤ p.ratio) (fresh : s.value = 0) :
    (delivered s i).toList ++ rest f (next s i) =
      rest f s ++ (accepted s i).toList.flatMap (p.lowChunks f) := by
  have zero := value_eq_zero.mp fresh
  have count := next_value steady few (s := s) (by omega)
  have nothing : rest f s = [] := if_pos fresh
  rw [nothing,List.nil_append]
  cases ready : i.ready with
  | false =>
    have quiet : accepted s i = none := by simp [accepted,ready]
    have silent : delivered s i = none := by simp [delivered,ready]
    rw [silent,Option.isSome_none,if_neg Bool.false_ne_true,zero] at count
    rw [quiet,silent,rest,if_pos (value_eq_zero.mpr count)]
    rfl
  | true =>
    cases bits : i.bits with
    | none =>
      have quiet : accepted s i = none := by simp [accepted,bits]
      have silent : delivered s i = none := by simp [delivered,offered,bits,fresh]
      rw [silent,Option.isSome_none,if_neg Bool.false_ne_true,zero] at count
      rw [quiet,silent,rest,if_pos (value_eq_zero.mpr count)]
      rfl
    | some word =>
      have taken : accepted s i = some word := by simp [accepted,bits,ready,fresh]
      have first : delivered s i = some (element p.serialWidth word 0) := by
        simp [delivered,offered,bits,ready,fresh]
      rw [first,Option.isSome_some,if_pos rfl,zero] at count
      rw [first,taken,Option.toList_some,Option.toList_some,List.flatMap_singleton,lowChunks_head positive,
        List.singleton_append,List.cons_inj_right]
      by_cases more : 0 + 1 < f
      · rw [if_pos more] at count
        rw [rest_of_pos (by omega),count]
        refine List.map_congr_left fun j member => ?_
        obtain ⟨low,high⟩ := List.mem_range'_1.mp member
        exact stored_next_some taken (by omega) (by omega)
      · rw [if_neg more] at count
        have single : f - 1 = 0 := by omega
        rw [rest,if_pos (value_eq_zero.mpr count),single]
        rfl

/-- Above zero the stored chunks go out and no word is taken. -/
theorem cycle_stored (steady : Steady f i) (few : f ≤ p.ratio) (below : s.value.toNat < f)
    (busy : s.value ≠ 0) : (delivered s i).toList ++ rest f (next s i) =
      rest f s ++ (accepted s i).toList.flatMap (p.lowChunks f) := by
  have nonzero : s.value.toNat ≠ 0 := fun zero => busy (value_eq_zero.mpr zero)
  have count := next_value steady few below
  have quiet : accepted s i = none := if_neg busy
  have kept : stored (next s i) = stored s := funext (stored_next_none quiet)
  rw [quiet,Option.toList_none,List.flatMap_nil,List.append_nil,rest_of_pos nonzero]
  cases ready : i.ready with
  | false =>
    have silent : delivered s i = none := by simp [delivered,ready]
    rw [silent,Option.isSome_none,if_neg Bool.false_ne_true] at count
    rw [silent,rest_of_pos (by omega),count,kept]
    rfl
  | true =>
    have due : delivered s i = some (stored s s.value.toNat) := by
      simp only [delivered,offered,ready,if_neg busy,↓reduceIte]
    have split : f - s.value.toNat = f - (s.value.toNat + 1) + 1 := by omega
    rw [due,Option.isSome_some,if_pos rfl] at count
    rw [due,Option.toList_some,List.singleton_append,split,List.range'_succ,List.map_cons,List.cons_inj_right]
    by_cases more : s.value.toNat + 1 < f
    · rw [if_pos more] at count
      rw [rest_of_pos (by omega),count,kept]
    · rw [if_neg more] at count
      have last : f - (s.value.toNat + 1) = 0 := by omega
      rw [rest,if_pos (value_eq_zero.mpr count),last]
      rfl

theorem cycle (steady : Steady f i) (positive : 1 ≤ f) (few : f ≤ p.ratio) (below : s.value.toNat < f) :
    (delivered s i).toList ++ rest f (next s i) =
      rest f s ++ (accepted s i).toList.flatMap (p.lowChunks f) := by
  by_cases fresh : s.value = 0
  · exact cycle_fresh steady positive few fresh
  · exact cycle_stored steady few below fresh

theorem next_below (steady : Steady f i) (few : f ≤ p.ratio) (below : s.value.toNat < f) :
    (next s i).value.toNat < f := by
  rw [next_value steady few below]
  split
  · split <;> omega
  · exact below

/-- After these words and chunks the state is `s`. -/
structure Emits (f : Nat) (words : List p.Word) (chunks : List p.Chunk) (s : State p) : Prop where
  chunks : chunks ++ rest f s = words.flatMap (p.lowChunks f)
  below : s.value.toNat < f

theorem Emits.cycle {words : List p.Word} {chunks : List p.Chunk} (emits : Emits f words chunks s)
    (steady : Steady f i) (positive : 1 ≤ f) (few : f ≤ p.ratio) :
    Emits f (words ++ (accepted s i).toList) (chunks ++ (delivered s i).toList) (next s i) := by
  refine ⟨?_,next_below steady few emits.below⟩
  rw [List.append_assoc,ParallelToSerial.cycle steady positive few emits.below,← List.append_assoc,
    emits.chunks,List.flatMap_append]

theorem Emits.fresh (positive : 1 ≤ f) (zero : s.value = 0) : Emits f [] [] s :=
  ⟨if_pos zero,(value_eq_zero.mp zero).symm ▸ positive⟩

theorem Emits.rest_eq_nil {words : List p.Word} {chunks : List p.Chunk} (emits : Emits f words chunks s) :
    rest f s = [] ↔ s.value = 0 := by
  have below := emits.below
  by_cases fresh : s.value = 0
  · simp [rest,fresh]
  · have busy : s.value.toNat ≠ 0 := fun zero => fresh (value_eq_zero.mpr zero)
    have some : f - s.value.toNat ≠ 0 := by omega
    refine iff_of_false ?_ fresh
    simp [rest_of_pos busy,some]

theorem Emits.short {words : List p.Word} {chunks : List p.Chunk} (emits : Emits f words chunks s) :
    (rest f s).length < f := by
  have below := emits.below
  by_cases fresh : s.value.toNat = 0
  · rw [rest,if_pos (value_eq_zero.mpr fresh)]
    exact Nat.zero_lt_of_lt below
  · rw [rest_of_pos fresh,List.length_map,List.length_range']
    omega

/-- The unit in a cycle between two start pulses: what has gone out and what is still to go
out are the lowest chunks of the words, and a word is taken when none is to go out. -/
structure Contract (f : Nat) (history : List (Output p)) (s : State p) (i : Input p) : Prop where
  emits : deliveredChunks history ++ rest f s = (acceptedWords history).flatMap (p.lowChunks f)
  short : (rest f s).length < f
  offers : offered s i =
    if rest f s = [] then i.bits.map fun word => element p.serialWidth word 0 else (rest f s).head?
  gives : delivered s i = if i.ready then offered s i else none
  takes : accepted s i = if rest f s = [] ∧ i.ready = true then i.bits else none

theorem Emits.offers {words : List p.Word} {chunks : List p.Chunk} (emits : Emits f words chunks s)
    (i : Input p) : offered s i =
      if rest f s = [] then i.bits.map fun word => element p.serialWidth word 0 else (rest f s).head? := by
  by_cases fresh : s.value = 0
  · rw [if_pos (emits.rest_eq_nil.mpr fresh),offered,if_pos fresh]
  · have below := emits.below
    have busy : s.value.toNat ≠ 0 := fun zero => fresh (value_eq_zero.mpr zero)
    obtain ⟨n,split⟩ : ∃ n, f - s.value.toNat = n + 1 := ⟨f - s.value.toNat - 1,by omega⟩
    rw [if_neg (by rw [emits.rest_eq_nil]; exact fresh),offered,if_neg fresh,rest_of_pos busy,split]
    rfl

theorem Emits.contract {history : List (Output p)}
    (emits : Emits f (acceptedWords history) (deliveredChunks history) s) (i : Input p) :
    Contract f history s i := by
  refine ⟨emits.chunks,emits.short,emits.offers i,rfl,?_⟩
  rw [accepted]
  by_cases fresh : s.value = 0
  · rw [if_pos fresh]
    simp only [emits.rest_eq_nil.mpr fresh,true_and]
  · rw [if_neg fresh,if_neg fun both => fresh (emits.rest_eq_nil.mp both.1)]

theorem session {stream : List (Input p)} (positive : 1 ≤ f) (few : f ≤ p.ratio) (fresh : s.value = 0)
    (steady : ∀ i ∈ stream, Steady f i) : (parallelToSerial p).Each (Contract f) s stream := by
  have each := Machine.Each.of_inputs (m := parallelToSerial p) (s := s) steady
  refine (Machine.each_of_run_rule (fun history s =>
    Emits f (acceptedWords history) (deliveredChunks history) s) each (.fresh positive fresh) ?_).mono
      fun history s' i emits => emits.contract i
  intro history s' i emits steady
  have next := emits.cycle steady positive few
  have words : acceptedWords (history ++ [out s' i]) = acceptedWords history ++ (accepted s' i).toList := by
    rw [acceptedWords,List.filterMap_append]
    cases same : accepted s' i <;> simp [out,same,acceptedWords]
  have chunks : deliveredChunks (history ++ [out s' i]) =
      deliveredChunks history ++ (delivered s' i).toList := by
    rw [deliveredChunks,List.filterMap_append]
    cases same : delivered s' i <;> simp [out,same,deliveredChunks]
  change Emits f (acceptedWords (history ++ [out s' i])) (deliveredChunks (history ++ [out s' i])) _
  rw [words,chunks]
  exact next

theorem start_value {first : Input p} (start : first.start = true) (s : State p) :
    (next s first).value = 0 := by
  simp [next,start]

/-! A start pulse while chunks are left to go out. -/

def unstarted (i : Input p) : Input p := { i with start := false }

/-- The cycle leaves no chunk of the word taken last. -/
def Drained (f : Nat) (s : State p) (i : Input p) : Prop :=
  if (delivered s i).isSome then s.value.toNat + 1 = f else s.value.toNat = 0

instance (f : Nat) (s : State p) (i : Input p) : Decidable (Drained f s i) :=
  inferInstanceAs (Decidable (if (delivered s i).isSome then s.value.toNat + 1 = f else s.value.toNat = 0))

theorem drained_iff (steady : Steady f (unstarted i)) (few : f ≤ p.ratio) (below : s.value.toNat < f) :
    Drained f s i ↔ (next s (unstarted i)).value = 0 := by
  have same : delivered s (unstarted i) = delivered s i := rfl
  rw [value_eq_zero,next_value steady few below,same,Drained]
  split
  · split <;> omega
  · rfl

/-- Then the pulse does nothing. -/
theorem next_unstarted (ends : i.start = true → (next s (unstarted i)).value = 0) :
    next s i = next s (unstarted i) := by
  have same : (next s i).value = (next s (unstarted i)).value := by
    cases start : i.start with
    | false => simp only [next,unstarted,start]; rfl
    | true => rw [start_value start,ends start]
  exact congrArg (State.mk (next s i).storedData) same

theorem cycle_length (steady : Steady f (unstarted i)) (positive : 1 ≤ f) (few : f ≤ p.ratio)
    (below : s.value.toNat < f) :
    (delivered s i).toList.length + (rest f (next s (unstarted i))).length =
      (rest f s).length + f * (accepted s i).toList.length := by
  have conserved := congrArg List.length (cycle steady positive few below)
  rwa [List.length_append,List.length_append,p.length_flatMap_lowChunks] at conserved

/-- Fewer chunks have gone out, or are still to go out, than the words have. -/
structure Lacks (f : Nat) (words : List p.Word) (chunks : List p.Chunk) (s : State p) : Prop where
  count : chunks.length + (rest f s).length < f * words.length

theorem rest_started (start : i.start = true) : rest f (next s i) = [] :=
  if_pos (start_value start s)

/-- What is lost stays lost. -/
theorem Lacks.cycle {words : List p.Word} {chunks : List p.Chunk} (lacks : Lacks f words chunks s)
    (steady : Steady f (unstarted i)) (positive : 1 ≤ f) (few : f ≤ p.ratio) (below : s.value.toNat < f) :
    Lacks f (words ++ (accepted s i).toList) (chunks ++ (delivered s i).toList) (next s i) := by
  have conserved := cycle_length steady positive few below
  have count := lacks.count
  have fewer : (rest f (next s i)).length ≤ (rest f (next s (unstarted i))).length := by
    cases start : i.start with
    | false => rw [next_unstarted fun pulse => absurd (start.symm.trans pulse) Bool.false_ne_true]
    | true =>
      rw [rest_started start]
      exact Nat.zero_le _
  refine ⟨?_⟩
  rw [List.length_append,List.length_append,Nat.mul_add]
  omega

/-- A pulse in a cycle that is not drained loses the chunks that are left. -/
theorem Emits.lacks {words : List p.Word} {chunks : List p.Chunk} (emits : Emits f words chunks s)
    (steady : Steady f (unstarted i)) (positive : 1 ≤ f) (few : f ≤ p.ratio) (start : i.start = true)
    (left : ¬ Drained f s i) :
    Lacks f (words ++ (accepted s i).toList) (chunks ++ (delivered s i).toList) (next s i) := by
  have after := emits.cycle steady positive few
  have some : rest f (next s (unstarted i)) ≠ [] := fun nothing =>
    left ((drained_iff steady few emits.below).mpr (after.rest_eq_nil.mp nothing))
  have count := congrArg List.length after.chunks
  have positive := List.length_pos_of_ne_nil some
  refine ⟨?_⟩
  rw [List.length_append] at count
  rw [rest_started start,List.length_nil,← p.length_flatMap_lowChunks]
  exact count ▸ Nat.lt_add_of_pos_right positive

theorem Emits.not_lacks {words : List p.Word} {chunks : List p.Chunk} (emits : Emits f words chunks s) :
    ¬ Lacks f words chunks s := by
  intro lacks
  have count := congrArg List.length emits.chunks
  rw [List.length_append,p.length_flatMap_lowChunks] at count
  exact absurd lacks.count (Nat.not_lt.mpr count.ge)

theorem restarted_below (steady : Steady f (unstarted i)) (few : f ≤ p.ratio)
    (below : s.value.toNat < f) : (next s i).value.toNat < f := by
  cases start : i.start with
  | false =>
    rw [next_unstarted fun pulse => absurd (start.symm.trans pulse) Bool.false_ne_true]
    exact next_below steady few below
  | true =>
    rw [value_eq_zero.mp (start_value start s)]
    exact Nat.zero_lt_of_lt below

end ParallelToSerial

/-! ### Chunks to words -/

namespace SerialToParallel

variable {p} {s : State p} {i : Input p} {f : Nat}

structure Steady (f : Nat) (i : Input p) : Prop where
  start : i.start = false
  factor : (p.dueChunks i.terminateFactor).toNat = f

def acceptedChunks (history : List (Output p)) : List p.Chunk := history.filterMap Output.accepted

def deliveredWords (history : List (Output p)) : List p.Word := history.filterMap Output.delivered

theorem next_value (steady : Steady f i) (few : f ≤ p.ratio) (below : s.value.toNat < f) :
    (next s i).value.toNat = if (accepted s i).isSome then
      (if s.value.toNat + 1 < f then s.value.toNat + 1 else 0) else s.value.toNat := by
  have fits : f ≤ 2 ^ (log2Ceil p.ratio + 1) :=
    (few.trans (le_two_pow_log2Ceil p.ratio)).trans (Nat.pow_le_pow_right (by decide) (Nat.le_succ _))
  have ceil : (p.dueChunks i.terminateFactor).setWidth (log2Ceil p.ratio + 1) = BitVec.ofNat _ f := by
    rw [← steady.factor]
    apply BitVec.eq_of_toNat_eq
    rw [BitVec.toNat_setWidth,BitVec.toNat_ofNat]
  rw [next,steady.start,ceil]
  exact BasicCounter.next_ofNat fits s.value below _

/-- The chunks of the incomplete word stand in the registers. -/
structure Collects (f : Nat) (part : List p.Chunk) (s : State p) : Prop where
  count : s.value.toNat = part.length
  short : part.length < f
  chunks : ∀ (b : Fin p.ratio) (inside : b.val < part.length), s.outBitsSeq b = part[b.val]

theorem Collects.fresh (positive : 1 ≤ f) (zero : s.value.toNat = 0) : Collects f [] s :=
  ⟨zero,positive,fun _ inside => absurd inside (Nat.not_lt_zero _)⟩

theorem Collects.idle {part : List p.Chunk} (collects : Collects f part s) (steady : Steady f i)
    (few : f ≤ p.ratio) (quiet : accepted s i = none) : Collects f part (next s i) := by
  have short := collects.short
  have count := next_value steady few (collects.count.symm ▸ short)
  rw [quiet,Option.isSome_none,if_neg Bool.false_ne_true] at count
  refine ⟨count.trans collects.count,short,fun b inside => ?_⟩
  simp only [next,quiet]
  exact collects.chunks b inside

/-- The registers after a chunk. -/
theorem Collects.written {part : List p.Chunk} {chunk : p.Chunk} (collects : Collects f part s)
    (taken : accepted s i = some chunk) (b : Fin p.ratio) (inside : b.val < (part ++ [chunk]).length) :
    (next s i).outBitsSeq b = (part ++ [chunk])[b.val] := by
  have count := collects.count
  rw [List.length_append,List.length_singleton] at inside
  simp only [next,taken]
  by_cases due : s.value.toNat = b.val
  · rw [if_pos due]
    simp [← due,count]
  · have before : b.val < part.length := by omega
    rw [if_neg due,List.getElem_append_left before]
    exact collects.chunks b before

theorem Collects.push {part : List p.Chunk} {chunk : p.Chunk} (collects : Collects f part s)
    (steady : Steady f i) (few : f ≤ p.ratio) (taken : accepted s i = some chunk)
    (more : part.length + 1 ≠ f) : Collects f (part ++ [chunk]) (next s i) := by
  have short := collects.short
  have count := next_value steady few (collects.count.symm ▸ short)
  rw [taken,Option.isSome_some,if_pos rfl,collects.count,if_pos (by omega)] at count
  exact ⟨by simp [count],by simp; omega,collects.written taken⟩

/-- The last chunk of a word leaves the whole word in the registers. -/
theorem Collects.last {part : List p.Chunk} {chunk : p.Chunk} (collects : Collects f part s)
    (steady : Steady f i) (few : f ≤ p.ratio) (taken : accepted s i = some chunk)
    (last : part.length + 1 = f) : Collects f ([] : List p.Chunk) (next s i) ∧
      p.lowChunks f (packed p.parallelWidth (next s i).outBitsSeq) = part ++ [chunk] := by
  have short := collects.short
  have count := next_value steady few (collects.count.symm ▸ short)
  rw [taken,Option.isSome_some,if_pos rfl,collects.count,if_neg (by omega)] at count
  refine ⟨.fresh (Nat.zero_lt_of_lt short) count,List.ext_getElem (by simp [last]) fun b left right => ?_⟩
  have inside : b < p.ratio := by
    rw [p.lowChunks_length] at left
    omega
  have slice := element_packed (next s i).outBitsSeq p.ratio_mul.le ⟨b,inside⟩
  simp only [ParallelAndSerialConverterParams.lowChunks,List.getElem_map,List.getElem_range]
  exact slice.trans (collects.written taken ⟨b,inside⟩ right)

/-- The words have the groups of chunks as their lowest ones. -/
def Packed (f : Nat) (groups : List (List p.Chunk)) (words : List p.Word) : Prop :=
  List.Forall₂ (fun group word => p.lowChunks f word = group) groups words

/-- After the chunks in `g` and these words the state is `s`; `pending` is what the first state
offered. -/
structure Packs (f : Nat) (pending : Option p.Word) (g : Grouping p.Chunk) (words : List p.Word)
    (s : State p) : Prop where
  collects : Collects f g.part s
  words : ∃ whole, Packed f g.whole whole ∧ pending.toList ++ whole = words ++ (offered s).toList

theorem offered_of_stall {word : p.Word} (waits : offered s = some word) (stall : i.ready = false) :
    offered (next s i) = some word := by
  have quiet : accepted s i = none := by simp [accepted,inReady,outputStall,waits,stall]
  have still : (next s i).stalled = true := by simp [next,outputStall,waits,stall]
  have kept : (next s i).outBitsSeq = s.outBitsSeq := by
    funext b
    simp only [next,quiet]
  rw [offered,still,Bool.or_true,if_pos rfl,kept,← waits,offered]
  refine (if_pos ?_).symm
  by_contra idle
  rw [offered,if_neg idle] at waits
  cases waits

/-- The register of the last chunk is the one below the factor. -/
theorem fire_iff (factor : (p.dueChunks i.terminateFactor).toNat = f) (positive : 1 ≤ f) :
    (next s i).lastDataWriteFire = true ↔ s.value.toNat + 1 = f ∧ (accepted s i).isSome = true := by
  have room := (p.dueChunks i.terminateFactor).isLt
  have one : (1 : p.Factor).toNat = 1 := Nat.mod_eq_of_lt (Nat.lt_of_le_of_lt positive (factor ▸ room))
  have due : s.value.toNat = (p.dueChunks i.terminateFactor - 1).toNat ↔ s.value.toNat + 1 = f := by
    rw [BitVec.toNat_sub_of_le (BitVec.le_def.mpr (by omega)),one]
    omega
  rw [next,Bool.and_eq_true,beq_iff_eq,due]

theorem offered_none (quiet : s.lastDataWriteFire = false) (moved : s.stalled = false) :
    offered s = none := by
  rw [offered,quiet,moved]
  rfl

theorem Packs.cycle {pending : Option p.Word} {g : Grouping p.Chunk} {words : List p.Word}
    (packs : Packs f pending g words s) (steady : Steady f i) (positive : 1 ≤ f) (few : f ≤ p.ratio) :
    Packs f pending (g.pushed f (accepted s i)) (words ++ (delivered s i).toList) (next s i) := by
  obtain ⟨whole,groups,all⟩ := packs.words
  have collects := packs.collects
  by_cases stall : outputStall s i.ready = true
  · -- Nothing moves and the word is offered again.
    obtain ⟨waits,full⟩ : (offered s).isSome = true ∧ i.ready = false := by
      simpa [outputStall] using stall
    obtain ⟨word,offers⟩ := Option.isSome_iff_exists.mp waits
    have quiet : accepted s i = none := by simp [accepted,inReady,stall]
    have silent : delivered s i = none := by simp [delivered,full]
    rw [quiet,silent,Option.toList_none,List.append_nil]
    refine ⟨collects.idle steady few quiet,whole,groups,?_⟩
    rw [offered_of_stall offers full,all,offers]
  · -- What is offered leaves, and the registers are free.
    have leaves : delivered s i = offered s := by
      unfold delivered
      split
      · rfl
      · next full =>
        cases offers : offered s
        · rfl
        · simp [outputStall,offers,full] at stall
    have moved : (next s i).stalled = false := Bool.eq_false_iff.mpr stall
    rw [leaves]
    cases taken : accepted s i with
    | none =>
      have quiet : (next s i).lastDataWriteFire = false := by simp [next,taken]
      have nothing := offered_none quiet moved
      exact ⟨collects.idle steady few taken,whole,groups,by rw [nothing,all]; simp⟩
    | some chunk =>
      have fire : (next s i).lastDataWriteFire = true ↔ g.part.length + 1 = f := by
        rw [fire_iff steady.factor positive,collects.count,taken]
        exact and_iff_left rfl
      by_cases last : g.part.length + 1 = f
      · obtain ⟨vacant,same⟩ := collects.last steady few taken last
        have offers : offered (next s i) = some (packed _ (next s i).outBitsSeq) := by
          rw [offered,fire.mpr last]
          rfl
        refine ⟨?_,whole ++ [packed _ (next s i).outBitsSeq],?_,?_⟩
        · simpa [Grouping.pushed,Grouping.push,last] using vacant
        · rw [Grouping.pushed_whole]
          refine List.rel_append groups ?_
          simpa [Grouping.completed,last] using same
        · rw [offers,← List.append_assoc,all]
          rfl
      · have nothing := offered_none (Bool.eq_false_iff.mpr fun early => last (fire.mp early)) moved
        refine ⟨?_,whole,?_,?_⟩
        · simpa [Grouping.pushed,Grouping.push,last] using collects.push steady few taken last
        · simpa [Grouping.pushed,Grouping.push,last] using groups
        · rw [nothing,all]
          simp

/-- The unit in a cycle between two start pulses: every group of chunks has become a word,
which is offered until it is taken. -/
structure Contract (f : Nat) (pending : Option p.Word) (history : List (Output p)) (s : State p)
    (i : Input p) : Prop where
  packs : ∃ whole, Packed f (Grouping.of f (acceptedChunks history)).whole whole ∧
    pending.toList ++ whole = deliveredWords history ++ (offered s).toList
  takes : accepted s i = if (offered s).isSome = true ∧ i.ready = false then none else i.bits
  gives : delivered s i = if i.ready then offered s else none
  holds : ∀ word, offered s = some word → i.ready = false → offered (next s i) = some word

theorem Packs.contract {pending : Option p.Word} {history : List (Output p)}
    (packs : Packs f pending (Grouping.of f (acceptedChunks history)) (deliveredWords history) s)
    (i : Input p) : Contract f pending history s i := by
  refine ⟨packs.words,?_,rfl,fun word => offered_of_stall⟩
  unfold accepted inReady outputStall
  cases (offered s).isSome <;> cases i.ready <;> rfl

theorem Packs.fresh (positive : 1 ≤ f) (zero : s.value = 0) :
    Packs f (offered s) (Grouping.of f ([] : List p.Chunk)) [] s :=
  ⟨.fresh positive (congrArg BitVec.toNat zero),[],.nil,List.append_nil _⟩

theorem session {stream : List (Input p)} (positive : 1 ≤ f) (few : f ≤ p.ratio) (zero : s.value = 0)
    (steady : ∀ i ∈ stream, Steady f i) : (serialToParallel p).Each (Contract f (offered s)) s stream := by
  have each := Machine.Each.of_inputs (m := serialToParallel p) (s := s) steady
  refine (Machine.each_of_run_rule (fun history t =>
    Packs f (offered s) (Grouping.of f (acceptedChunks history)) (deliveredWords history) t) each
      (.fresh positive zero) ?_).mono fun history t i packs => packs.contract i
  intro history t i packs steady
  have next := packs.cycle steady positive few
  have chunks : acceptedChunks (history ++ [out t i]) = acceptedChunks history ++ (accepted t i).toList := by
    rw [acceptedChunks,List.filterMap_append]
    cases same : accepted t i <;> simp [out,same,acceptedChunks]
  have words : deliveredWords (history ++ [out t i]) = deliveredWords history ++ (delivered t i).toList := by
    rw [deliveredWords,List.filterMap_append]
    cases same : delivered t i <;> simp [out,same,deliveredWords]
  change Packs f _ (Grouping.of f (acceptedChunks (history ++ [out t i])))
    (deliveredWords (history ++ [out t i])) _
  rw [chunks,words,Grouping.of_toList]
  exact next

theorem start_value {first : Input p} (start : first.start = true) (s : State p) :
    (next s first).value = 0 := by
  simp [next,start]

/-! A start pulse while a word is incomplete. -/

def unstarted (i : Input p) : Input p := { i with start := false }

/-- The cycle leaves no incomplete word. -/
def Drained (f : Nat) (s : State p) (i : Input p) : Prop :=
  if (accepted s i).isSome then s.value.toNat + 1 = f else s.value.toNat = 0

instance (f : Nat) (s : State p) (i : Input p) : Decidable (Drained f s i) :=
  inferInstanceAs (Decidable (if (accepted s i).isSome then s.value.toNat + 1 = f else s.value.toNat = 0))

theorem value_eq_zero : s.value = 0 ↔ s.value.toNat = 0 := by
  rw [← BitVec.toNat_inj]
  rfl

theorem drained_iff (steady : Steady f (unstarted i)) (few : f ≤ p.ratio) (below : s.value.toNat < f) :
    Drained f s i ↔ (next s (unstarted i)).value = 0 := by
  have same : accepted s (unstarted i) = accepted s i := rfl
  rw [value_eq_zero,next_value steady few below,same,Drained]
  split
  · split <;> omega
  · rfl

/-- Then the pulse does nothing. -/
theorem next_unstarted (ends : i.start = true → (next s (unstarted i)).value = 0) :
    next s i = next s (unstarted i) := by
  have same : (next s i).value = (next s (unstarted i)).value := by
    cases start : i.start with
    | false => simp only [next,unstarted,start]; rfl
    | true => rw [start_value start,ends start]
  exact congrArg (fun value => State.mk (next s i).outBitsSeq value (next s i).lastDataWriteFire
    (next s i).stalled) same

theorem next_below (steady : Steady f i) (few : f ≤ p.ratio) (below : s.value.toNat < f) :
    (next s i).value.toNat < f := by
  rw [next_value steady few below]
  split
  · split <;> omega
  · exact below

theorem restarted_below (steady : Steady f (unstarted i)) (few : f ≤ p.ratio)
    (below : s.value.toNat < f) : (next s i).value.toNat < f := by
  cases start : i.start with
  | false =>
    rw [next_unstarted fun pulse => absurd (start.symm.trans pulse) Bool.false_ne_true]
    exact next_below steady few below
  | true =>
    rw [value_eq_zero.mp (start_value start s)]
    exact Nat.zero_lt_of_lt below

/-- The chunks in the words that leave or are offered, and in the registers, are those that
were there before and the one that comes in. -/
theorem cycle_length (steady : Steady f (unstarted i)) (positive : 1 ≤ f) (few : f ≤ p.ratio)
    (below : s.value.toNat < f) :
    f * ((delivered s i).toList.length + (offered (next s i)).toList.length) +
        (next s (unstarted i)).value.toNat =
      f * (offered s).toList.length + s.value.toNat + (accepted s i).toList.length := by
  have count : (next s (unstarted i)).value.toNat = if (accepted s i).isSome then
      (if s.value.toNat + 1 < f then s.value.toNat + 1 else 0) else s.value.toNat :=
    next_value steady few below
  by_cases stall : outputStall s i.ready = true
  · obtain ⟨waits,full⟩ : (offered s).isSome = true ∧ i.ready = false := by
      simpa [outputStall] using stall
    obtain ⟨word,offers⟩ := Option.isSome_iff_exists.mp waits
    have quiet : accepted s i = none := by simp [accepted,inReady,stall]
    have silent : delivered s i = none := by simp [delivered,full]
    rw [count,silent,quiet,offered_of_stall offers full,offers]
    simp
  · have leaves : delivered s i = offered s := by
      cases offers : offered s <;> simp_all [delivered,outputStall]
    have moved : (next s i).stalled = false := Bool.eq_false_iff.mpr stall
    have fire := fire_iff (s := s) (i := i) steady.factor positive
    have after : (offered (next s i)).toList.length = ((next s i).lastDataWriteFire).toNat := by
      rw [offered,moved,Bool.or_false]
      cases (next s i).lastDataWriteFire <;> rfl
    rw [count,leaves,after,Nat.mul_add]
    cases taken : accepted s i with
    | none =>
      have never : (next s i).lastDataWriteFire = false := by simp [next,taken]
      simp [never]
    | some chunk =>
      rw [taken] at fire
      by_cases last : s.value.toNat + 1 = f
      · rw [fire.mpr ⟨last,rfl⟩]
        simp only [Bool.toNat_true,Option.isSome_some,Option.toList_some,List.length_singleton,last,
          Nat.lt_irrefl,↓reduceIte]
        omega
      · rw [Bool.eq_false_iff.mpr fun early => last (fire.mp early).1]
        simp only [Bool.toNat_false,Option.isSome_some,Option.toList_some,List.length_singleton,↓reduceIte]
        rw [if_pos (by omega)]
        omega

/-- The words and the registers have fewer chunks than came in. -/
structure Lacks (f : Nat) (chunks : List p.Chunk) (words : List p.Word) (s : State p) : Prop where
  count : f * (words.length + (offered s).toList.length) + s.value.toNat < chunks.length

/-- What is lost stays lost. -/
theorem Lacks.cycle {chunks : List p.Chunk} {words : List p.Word} (lacks : Lacks f chunks words s)
    (steady : Steady f (unstarted i)) (positive : 1 ≤ f) (few : f ≤ p.ratio) (below : s.value.toNat < f) :
    Lacks f (chunks ++ (accepted s i).toList) (words ++ (delivered s i).toList) (next s i) := by
  have conserved := cycle_length steady positive few below
  have count := lacks.count
  have fewer : (next s i).value.toNat ≤ (next s (unstarted i)).value.toNat := by
    cases start : i.start with
    | false => rw [next_unstarted fun pulse => absurd (start.symm.trans pulse) Bool.false_ne_true]
    | true =>
      rw [value_eq_zero.mp (start_value start s)]
      exact Nat.zero_le _
  refine ⟨?_⟩
  rw [List.length_append,List.length_append,Nat.add_assoc words.length,Nat.mul_add]
  rw [Nat.mul_add] at count
  omega

/-- From nothing offered on, the chunks are all in the words and in the registers. -/
theorem Packs.length {chunks : List p.Chunk} {words : List p.Word} (positive : 1 ≤ f)
    (packs : Packs f none (Grouping.of f chunks) words s) :
    f * (words.length + (offered s).toList.length) + s.value.toNat = chunks.length := by
  obtain ⟨whole,packed,all⟩ := packs.words
  obtain ⟨joined,even,_⟩ := Grouping.of_spec positive chunks
  have words := congrArg List.length all
  have total := congrArg List.length joined
  rw [List.length_append,Chunks.length_flatten_of_even even,packed.length_eq] at total
  rw [Option.toList_none,List.nil_append,List.length_append] at words
  rw [← words,packs.collects.count,total]

/-- A pulse in a cycle that is not drained loses the chunks of the incomplete word. -/
theorem Packs.lacks {chunks : List p.Chunk} {words : List p.Word}
    (packs : Packs f none (Grouping.of f chunks) words s) (steady : Steady f (unstarted i))
    (positive : 1 ≤ f) (few : f ≤ p.ratio) (start : i.start = true) (left : ¬ Drained f s i) :
    Lacks f (chunks ++ (accepted s i).toList) (words ++ (delivered s i).toList) (next s i) := by
  have below := packs.collects.count.symm ▸ packs.collects.short
  have conserved := cycle_length steady positive few below
  have count := packs.length positive
  have some : (next s (unstarted i)).value.toNat ≠ 0 := fun zero =>
    left ((drained_iff steady few below).mpr (value_eq_zero.mpr zero))
  refine ⟨?_⟩
  rw [value_eq_zero.mp (start_value start s),List.length_append,List.length_append,
    Nat.add_assoc words.length,Nat.mul_add]
  rw [Nat.mul_add] at count
  omega

end SerialToParallel

/-! ### Words to chunks to words -/

namespace SerialLink

abbrev State := ParallelToSerial.State p × SerialToParallel.State p

structure Input where
  bits : Option p.Word
  terminateFactor : p.Factor
  ready : Bool
  start : Bool

structure Output where
  accepted : Option p.Word
  offered : Option p.Word
  delivered : Option p.Word

variable {p}

def sender (s : State p) (i : Input p) : ParallelToSerial.Input p :=
  ⟨i.bits,i.terminateFactor,SerialToParallel.inReady s.2 i.ready,i.start⟩

def receiver (s : State p) (i : Input p) : SerialToParallel.Input p :=
  ⟨ParallelToSerial.offered s.1 (sender s i),i.terminateFactor,i.ready,i.start⟩

def next (s : State p) (i : Input p) : State p :=
  (ParallelToSerial.next s.1 (sender s i),SerialToParallel.next s.2 (receiver s i))

def out (s : State p) (i : Input p) : Output p :=
  ⟨ParallelToSerial.accepted s.1 (sender s i),SerialToParallel.offered s.2,
    SerialToParallel.delivered s.2 (receiver s i)⟩

end SerialLink

/-- The two units one behind the other. -/
def serialLink : Machine (SerialLink.State p) (SerialLink.Input p) (SerialLink.Output p) where
  next := SerialLink.next
  out := SerialLink.out

namespace SerialLink

variable {p} {s : State p} {i : Input p} {f : Nat}

structure Steady (f : Nat) (i : Input p) : Prop where
  start : i.start = false
  factor : (p.dueChunks i.terminateFactor).toNat = f

def acceptedWords (history : List (Output p)) : List p.Word := history.filterMap Output.accepted

def deliveredWords (history : List (Output p)) : List p.Word := history.filterMap Output.delivered

/-- The chunks that are sent are those that are received. -/
theorem transfer (s : State p) (i : Input p) :
    SerialToParallel.accepted s.2 (receiver s i) = ParallelToSerial.delivered s.1 (sender s i) := rfl

/-- After these words in and out the state is `s`, whatever chunks went from one to the other. -/
def Carries (f : Nat) (pending : Option p.Word) (words delivered : List p.Word) (s : State p) : Prop :=
  ∃ chunks, ParallelToSerial.Emits f words chunks s.1 ∧
    SerialToParallel.Packs f pending (Grouping.of f chunks) delivered s.2

theorem Carries.cycle {pending : Option p.Word} {words delivered : List p.Word}
    (carries : Carries f pending words delivered s) (steady : Steady f i) (positive : 1 ≤ f)
    (few : f ≤ p.ratio) : Carries f pending (words ++ (out s i).accepted.toList)
      (delivered ++ (out s i).delivered.toList) (next s i) := by
  obtain ⟨chunks,emits,packs⟩ := carries
  have sent := emits.cycle (i := sender s i) ⟨steady.start,steady.factor⟩ positive few
  have received := packs.cycle (i := receiver s i) ⟨steady.start,steady.factor⟩ positive few
  rw [transfer,← Grouping.of_toList] at received
  exact ⟨_,sent,received⟩

/-- Every word of the sender but the one on its way has come out once and in order with the
same lowest chunks, or is offered; when nothing is left to send none is on its way. -/
structure RoundTrip (f : Nat) (pending : Option p.Word) (history : List (Output p)) (s : State p) :
    Prop where
  words : ∃ arrived onTheWay copies, acceptedWords history = arrived ++ onTheWay ∧
    onTheWay.length ≤ 1 ∧ (ParallelToSerial.rest f s.1 = [] → onTheWay = []) ∧
    List.Forall₂ (fun word copy => p.lowChunks f copy = p.lowChunks f word) arrived copies ∧
    pending.toList ++ copies = deliveredWords history ++ (SerialToParallel.offered s.2).toList

theorem Carries.roundTrip {pending : Option p.Word} {history : List (Output p)} (positive : 1 ≤ f)
    (carries : Carries f pending (acceptedWords history) (deliveredWords history) s) :
    RoundTrip f pending history s := by
  obtain ⟨chunks,emits,packs⟩ := carries
  obtain ⟨copies,packed,all⟩ := packs.words
  obtain ⟨joined,even,short⟩ := Grouping.of_spec positive chunks
  have low : ∀ w ∈ (acceptedWords history).map (p.lowChunks f), w.length = f := by
    intro w member
    obtain ⟨word,_,rfl⟩ := List.mem_map.mp member
    exact p.lowChunks_length f word
  have sent : (Grouping.of f chunks).whole.flatten ++
      ((Grouping.of f chunks).part ++ ParallelToSerial.rest f s.1) =
        ((acceptedWords history).map (p.lowChunks f)).flatten := by
    rw [← List.append_assoc,joined,emits.chunks,List.flatMap_def]
  have front := Chunks.complete_prefix positive even low ⟨_,by rw [List.append_assoc,sent]⟩
  have size := congrArg List.length sent
  rw [List.length_append,List.length_append,Chunks.length_flatten_of_even even,
    Chunks.length_flatten_of_even low,List.length_map] at size
  have left := emits.short
  have few : (Grouping.of f chunks).whole.length ≤ (acceptedWords history).length := by
    simpa using front.length_le
  obtain ⟨more,count⟩ := Nat.exists_eq_add_of_le few
  rw [count,Nat.mul_add] at size
  refine ⟨(acceptedWords history).take (Grouping.of f chunks).whole.length,
    (acceptedWords history).drop (Grouping.of f chunks).whole.length,copies,
    (List.take_append_drop ..).symm,?_,fun nothing => ?_,?_,all⟩
  · rw [List.length_drop,count,Nat.add_sub_cancel_left]
    by_contra several
    have two := Nat.mul_le_mul_left f (Nat.not_le.mp several)
    omega
  · rw [nothing,List.length_nil] at size
    refine List.drop_eq_nil_iff.mpr ?_
    by_contra some
    have one := Nat.mul_le_mul_left f (show 1 ≤ more by omega)
    omega
  · rw [List.prefix_iff_eq_take.mp front,← List.map_take] at packed
    exact List.forall₂_map_left_iff.mp packed

theorem session {stream : List (Input p)} (positive : 1 ≤ f) (few : f ≤ p.ratio)
    (sender : s.1.value = 0) (receiver : s.2.value = 0) (steady : ∀ i ∈ stream, Steady f i) :
    (serialLink p).Each
      (fun history t _ => RoundTrip f (SerialToParallel.offered s.2) history t) s stream := by
  have each := Machine.Each.of_inputs (m := serialLink p) (s := s) steady
  have start : Carries f (SerialToParallel.offered s.2) [] [] s :=
    ⟨[],.fresh positive sender,.fresh positive receiver⟩
  refine (Machine.each_of_run_rule (fun history t => Carries f (SerialToParallel.offered s.2)
    (acceptedWords history) (deliveredWords history) t) each start ?_).mono
      fun history t i carries => carries.roundTrip positive
  intro history t i carries steady
  have next := carries.cycle steady positive few
  have words : acceptedWords (history ++ [out t i]) =
      acceptedWords history ++ (out t i).accepted.toList := by
    rw [acceptedWords,List.filterMap_append]
    cases same : (out t i).accepted <;> simp [same,acceptedWords]
  have delivered : deliveredWords (history ++ [out t i]) =
      deliveredWords history ++ (out t i).delivered.toList := by
    rw [deliveredWords,List.filterMap_append]
    cases same : (out t i).delivered <;> simp [same,deliveredWords]
  change Carries f _ (acceptedWords (history ++ [out t i])) (deliveredWords (history ++ [out t i])) _
  rw [words,delivered]
  exact next

end SerialLink

/-- From a start pulse on, in any state, either unit and the two together keep their contract
for as long as the termination factor stays. -/
theorem parallel_serial_converters {f : Nat} (positive : 1 ≤ f) (few : f ≤ p.ratio) :
    (∀ (s : ParallelToSerial.State p) (first : ParallelToSerial.Input p) stream, first.start = true →
      (∀ i ∈ stream, ParallelToSerial.Steady f i) →
      (parallelToSerial p).Each (ParallelToSerial.Contract f) (ParallelToSerial.next s first) stream) ∧
    (∀ (s : SerialToParallel.State p) (first : SerialToParallel.Input p) stream, first.start = true →
      (∀ i ∈ stream, SerialToParallel.Steady f i) →
      (serialToParallel p).Each
        (SerialToParallel.Contract f (SerialToParallel.offered (SerialToParallel.next s first)))
        (SerialToParallel.next s first) stream) ∧
    ∀ (s : SerialLink.State p) (first : SerialLink.Input p) stream, first.start = true →
      (∀ i ∈ stream, SerialLink.Steady f i) →
      (serialLink p).Each (fun history t _ =>
          SerialLink.RoundTrip f (SerialToParallel.offered (SerialLink.next s first).2) history t)
        (SerialLink.next s first) stream := by
  refine ⟨?_,?_,?_⟩
  · intro s first stream start steady
    exact ParallelToSerial.session positive few (ParallelToSerial.start_value start s) steady
  · intro s first stream start steady
    exact SerialToParallel.session positive few (SerialToParallel.start_value start s) steady
  · intro s first stream start steady
    have sends : (SerialLink.sender s first).start = true := start
    have receives : (SerialLink.receiver s first).start = true := start
    have sender : (SerialLink.next s first).1.value = 0 := ParallelToSerial.start_value sends s.1
    have receiver : (SerialLink.next s first).2.value = 0 := SerialToParallel.start_value receives s.2
    exact SerialLink.session positive few sender receiver steady

theorem twoOfThree_positive : 0 < 8 := Nat.succ_pos 7
theorem twoOfThree_wide : 8 ≤ 24 := Nat.le_of_sub_eq_zero rfl
theorem twoOfThree_whole : 8 < 24 → 24 % 8 = 0 := fun _ => rfl
theorem twoOfThree_allowed : true = true → [1,2,3] ≠ [] ∧ ∀ f ∈ [1,2,3], 1 ≤ f ∧ f ≤ 24 / 8 := by decide

/-- Words of three bytes. -/
def threeBytes : ParallelAndSerialConverterParams where
  parallelWidth := 24
  serialWidth := 8
  earlyTerminate := true
  allowedTerminateFactors := [1,2,3]
  serialPositive := twoOfThree_positive
  wide := twoOfThree_wide
  whole := twoOfThree_whole
  allowed := twoOfThree_allowed

/-- The lower two bytes of each word are wanted. -/
def twoOfThree (start : Bool) (bits : Option Nat) (ready : Bool) : SerialLink.Input threeBytes :=
  ⟨bits.map (BitVec.ofNat _),2,ready,start⟩

def twoOfThreeFresh : SerialLink.State threeBytes := (⟨fun _ => 0,0⟩,⟨fun _ => 0,0,false,false⟩)

theorem parallel_serial_converters_twoOfThree : (serialLink threeBytes).Each
    (fun history t _ => SerialLink.RoundTrip 2
      (SerialToParallel.offered (SerialLink.next twoOfThreeFresh (twoOfThree true none true)).2) history t)
    (SerialLink.next twoOfThreeFresh (twoOfThree true none true))
    [twoOfThree false (some 0x030201) true,twoOfThree false none true,
      twoOfThree false (some 0x060504) false,twoOfThree false none true] := by
  refine (parallel_serial_converters threeBytes (f := 2) (by decide) (by decide)).2.2 _ _ _ rfl fun i member => ?_
  simp only [List.mem_cons,List.not_mem_nil,or_false] at member
  rcases member with rfl | rfl | rfl | rfl <;> exact ⟨rfl,rfl⟩

end Snax
