import Snax.VersaCore

/-! One cycle of a busy VersaCore for the output tile under way: the ports of A and B, the counters of the
pairs, and the word that is handed to the output converter. -/
namespace Snax.VersaCore

open Sync

variable {p : VersaCoreParam}

/-! ### The ports of A and B -/

section Single

variable {w : Nat} {positive : 0 < w} {s : SerialToParallel.State (single w positive)}
  {i : SerialToParallel.Input (single w positive)}

theorem single_ratio (positive : 0 < w) : (single w positive).ratio = 1 := Nat.div_self positive

theorem single_due (due : i.terminateFactor = 1) :
    ((single w positive).dueChunks i.terminateFactor).toNat = 1 := by
  have port : 1 < 2 ^ log2Ceil ((single w positive).ratio + 1) := by
    rw [single_ratio]
    decide
  rw [due]
  change (1 : BitVec (log2Ceil ((single w positive).ratio + 1))).toNat = 1
  exact Nat.mod_eq_of_lt port

theorem single_steady (due : i.terminateFactor = 1) :
    SerialToParallel.Steady 1 (SerialToParallel.unstarted i) :=
  ⟨rfl,single_due due⟩

theorem element_whole (x : BitVec w) : element w x 0 = x := by
  apply BitVec.eq_of_toNat_eq
  simp [element]

/-- The word in the unit, the one that comes in and the one that leaves. -/
def held (s : SerialToParallel.State (single w positive)) : Option (BitVec w) := SerialToParallel.offered s

def entered (s : SerialToParallel.State (single w positive)) (i : SerialToParallel.Input (single w positive)) :
    Option (BitVec w) := SerialToParallel.accepted s i

def leaving (s : SerialToParallel.State (single w positive)) (i : SerialToParallel.Input (single w positive)) :
    Option (BitVec w) := SerialToParallel.delivered s i

theorem single_value (due : i.terminateFactor = 1) (zero : s.value.toNat = 0) :
    (SerialToParallel.next s i).value.toNat = 0 := by
  have few : 1 ≤ (single w positive).ratio := (single_ratio positive).ge
  apply Nat.lt_one_iff.mp
  exact SerialToParallel.restarted_below (single_steady due) few (zero ▸ Nat.zero_lt_one)

theorem single_moves (due : i.terminateFactor = 1) (zero : s.value.toNat = 0)
    (moves : SerialToParallel.outputStall s i.ready = false) :
    held (SerialToParallel.next s i) = entered s i := by
  have fires := SerialToParallel.fire_iff (s := s) (single_due due) (Nat.le_refl 1)
  rw [zero] at fires
  have still : (SerialToParallel.next s i).stalled = false := moves
  rw [held,entered]
  cases takes : SerialToParallel.accepted s i with
  | none =>
    have quiet : (SerialToParallel.next s i).lastDataWriteFire = false := by
      simp [SerialToParallel.next,takes]
    exact SerialToParallel.offered_none quiet still
  | some word =>
    have valid : (SerialToParallel.next s i).lastDataWriteFire = true := by
      rw [fires,takes]
      exact ⟨rfl,rfl⟩
    have first : 0 < (single w positive).ratio := (single_ratio positive).symm ▸ Nat.one_pos
    have register : (SerialToParallel.next s i).outBitsSeq ⟨0,first⟩ = word := by
      simp [SerialToParallel.next,takes,zero]
    have fits : (single w positive).ratio * w ≤ w := by rw [single_ratio,Nat.one_mul]
    have whole := element_packed (SerialToParallel.next s i).outBitsSeq fits ⟨0,first⟩
    rw [register] at whole
    rw [SerialToParallel.offered,valid,Bool.true_or,if_pos rfl]
    exact congrArg some ((element_whole _).symm.trans whole)

/-- A word is taken at once and leaves in order. -/
theorem single_conserves (due : i.terminateFactor = 1) (zero : s.value.toNat = 0) :
    (leaving s i).toList ++ (held (SerialToParallel.next s i)).toList =
      (held s).toList ++ (entered s i).toList := by
  cases stall : SerialToParallel.outputStall s i.ready with
  | true =>
    obtain ⟨waits,blocked⟩ : (SerialToParallel.offered s).isSome = true ∧ i.ready = false := by
      simpa [SerialToParallel.outputStall] using stall
    obtain ⟨word,offers⟩ := Option.isSome_iff_exists.mp waits
    have quiet : SerialToParallel.accepted s i = none := by
      simp [SerialToParallel.accepted,SerialToParallel.inReady,stall]
    have silent : SerialToParallel.delivered s i = none := by simp [SerialToParallel.delivered,blocked]
    rw [leaving,entered,quiet,silent,held,held,SerialToParallel.offered_of_stall offers blocked,offers]
    rfl
  | false =>
    have leaves : leaving s i = held s := by
      rw [leaving,held,SerialToParallel.delivered]
      split
      · rfl
      · next blocked =>
        cases offers : SerialToParallel.offered s
        · rfl
        · simp [SerialToParallel.outputStall,offers,blocked] at stall
    rw [leaves,single_moves due zero stall]

end Single

/-! ### Tasks -/

abbrev Op (p : VersaCoreParam) := SpatialArray.Operation p.array

/-- The accumulators that a task uses. -/
abbrev chosen (p : VersaCoreParam) (task : VersaCoreCfg) : Fin p.array.dataTypes.length :=
  SpatialArray.selected p.array task.dataTypeCfg

abbrev Registers (p : VersaCoreParam) (task : VersaCoreCfg) :=
  Lanes (p.array.dataTypes.get (chosen p task)).macNum (p.array.dataTypes.get (chosen p task)).outputTypeD.width

abbrev accumulateAll (p : VersaCoreParam) (task : VersaCoreCfg) :
    Registers p task → List (Op p) → Registers p task :=
  List.foldl (SpatialArray.accumulate _)

/-- The pairs of an output tile. -/
abbrev length (task : VersaCoreCfg) : Nat := task.aBInputTimesOneOutput.toNat

structure Valid (p : VersaCoreParam) (task : VersaCoreCfg) : Prop where
  computes : 0 < length task
  type : task.dataTypeCfg.toNat < p.array.dataTypes.length
  take : task.takeInNewC = 0 ∨ task.takeInNewC = 1
  counted : task.outputTimes.toNat * outputDSerialFactor p task < 2 ^ 32

/-! ### The tile that is being computed -/

/-- The array is at work on a tile, from the registers `r` on: `part` are the operations so far. -/
structure AtTile (task : VersaCoreCfg) (s : State p) (r : Registers p task) (part : List (Op p)) : Prop where
  size : part.length ≤ length task
  computed : s.computeFireCounter.toNat = part.length % length task
  grabbed : s.dOutputValidCounter.toNat + (s.array (chosen p task)).outValid.toNat = part.length
  full : part.length = length task → task.outputTimes ≠ 0 ∧ (s.array (chosen p task)).outValid = true
  register : (s.array (chosen p task)).accumulatorReg = accumulateAll p task r part

section AtTile

variable {task : VersaCoreCfg} {s : State p} {r : Registers p task} {part : List (Op p)} {i : Input p}

theorem length_sub_one (valid : Valid p task) :
    (task.aBInputTimesOneOutput - 1).toNat = length task - 1 := by
  have one : (1 : BitVec 32) ≤ task.aBInputTimesOneOutput := BitVec.le_def.mpr valid.computes
  rw [BitVec.toNat_sub_of_le one]
  rfl

theorem length_eq (task : VersaCoreCfg) : task.aBInputTimesOneOutput = BitVec.ofNat 32 (length task) := by
  simp [length]

/-- The converter is offered the result of the last pair of a tile. -/
theorem AtTile.due (tile : AtTile task s r part) (valid : Valid p task) (same : s.csr = task)
    (working : s.busy = true) : outputDue s = true ↔ part.length = length task := by
  subst same
  have grabbed := tile.grabbed
  have less := length_sub_one valid
  have positive := valid.computes
  simp only [outputDue,arrayValid,working,Bool.and_true,Bool.and_eq_true,Bool.not_eq_true',beq_eq_false_iff_ne,
    beq_iff_eq]
  constructor
  · rintro ⟨⟨_,shown⟩,last⟩
    rw [shown,last,less,Bool.toNat_true] at grabbed
    omega
  · intro whole
    obtain ⟨outputs,shown⟩ := tile.full whole
    rw [shown,Bool.toNat_true] at grabbed
    exact ⟨⟨outputs,shown⟩,BitVec.eq_of_toNat_eq (by omega)⟩

theorem typed (valid : Valid p task) (same : s.csr = task) (i : Input p) :
    (arrayInput s i).dataTypeCfg.toNat = (chosen p task).val := by
  have inside := valid.type
  simp only [arrayInput,same,chosen,SpatialArray.selected,dif_pos inside]

/-- The addends come in with the first pair of a tile. -/
theorem operation_c (same : s.csr = task) (working : s.busy = true) {x : Op p}
    (taken : operation s i = some x) (valid : Valid p task) :
    (x.c.isSome = true ↔ s.computeFireCounter = 0 ∧ task.takeInNewC = 1) ∧
      (x.c.isSome = true → x.c = SerialToParallel.offered s.cS2p) ∧
      afterCut s = some (x.a,x.b) := by
  rw [operation,SpatialArray.accepted_eq (typed valid same i)] at taken
  split at taken
  · obtain ⟨a,b,_,external,addend⟩ := SpatialArray.offered_some taken
    have asks : (arrayInput s i).accAddExtIn = (s.computeFireCounter == 0 && task.takeInNewC == 1) := by
      simp [arrayInput,accAddExtIn,same,working]
    refine ⟨?_,fun some => ?_,?_⟩
    · rw [← external,asks]
      simp
    · rw [← external] at some
      rw [← addend some,arrayInput,working]
      rfl
    · have left : (afterCut s).map Prod.fst = some x.a := a
      have right : (afterCut s).map Prod.snd = some x.b := b
      cases out : afterCut s with
      | none => simp [out] at left
      | some pair =>
        rw [out] at left right
        rw [← Option.some.inj left,← Option.some.inj right]
  · contradiction

theorem computeTick_eq (same : s.csr = task) (working : s.busy = true) (valid : Valid p task) (i : Input p) :
    computeTick s i = (operation s i).isSome := by
  rw [computeTick,working,Bool.and_true,addCFire,mulABFire,pairFire,same]
  cases taken : operation s i with
  | none => simp
  | some x =>
    obtain ⟨asks,_,_⟩ := operation_c same working taken valid
    have word : inCFire s i = x.c.isSome := by simp [inCFire,taken]
    rw [word]
    by_cases first : s.computeFireCounter = 0
    · rcases valid.take with none | one
      · simp [first,none]
      · have given : x.c.isSome = true := asks.mpr ⟨first,one⟩
        simp [first,one,given]
    · have later : (s.computeFireCounter == 0) = false := beq_false_of_ne first
      rw [later]
      simp

/-- The counter of the computed or of the shown pairs, in a cycle that does not finish the task. -/
theorem counter_next (valid : Valid p task) (tick : Bool) {value : BitVec 32} {n : Nat}
    (at' : value.toNat = n % length task) :
    (BasicCounter.next true false tick task.aBInputTimesOneOutput value).toNat =
      (n + tick.toNat) % length task := by
  have below : value.toNat < length task := at' ▸ Nat.mod_lt _ valid.computes
  have counts := BasicCounter.next_ofNat task.aBInputTimesOneOutput.isLt.le value below tick
  rw [← length_eq task] at counts
  rw [counts,← Nat.mod_add_mod,← at']
  cases tick with
  | false => exact (Nat.mod_eq_of_lt below).symm
  | true =>
    rw [if_pos rfl,Bool.toNat_true]
    split
    · next more => exact (Nat.mod_eq_of_lt more).symm
    · next last =>
      have wraps : value.toNat + 1 = length task := Nat.le_antisymm below (Nat.not_lt.mp last)
      rw [wraps,Nat.mod_self]

/-- What leaves to the converter. -/
def word (s : State p) (i : Input p) : Option (dP2sParams p).Word :=
  ParallelToSerial.accepted s.dP2s (dInput s i)

/-- What a cycle of a busy core does for the tile: nothing is handed out, or the whole tile is; the pair
that is taken belongs to the tile or to the next one. -/
inductive Turn (task : VersaCoreCfg) (s : State p) (i : Input p) (r : Registers p task) (part : List (Op p)) :
    Registers p task → List (Op p) → Prop
  | stays (silent : word s i = none) : Turn task s i r part r (part ++ (operation s i).toList)
  | hands (whole : part.length = length task)
    (given : word s i = some (packed _ (accumulateAll p task r part))) :
    Turn task s i r part (accumulateAll p task r part) (operation s i).toList

theorem isSome_toNat {α : Type} (x : Option α) : x.isSome.toNat = x.toList.length := by
  cases x <;> rfl

/-- A stalled result: the array stands still. -/
theorem AtTile.stalled (tile : AtTile task s r part) (valid : Valid p task) (same : s.csr = task)
    (working : s.busy = true) (stall : arrayReady s i = false) :
    part.length = length task ∧ operation s i = none ∧ word s i = none ∧
      (s.array (chosen p task)).outValid = true := by
  have due : outputDue s = true := by
    by_contra idle
    rw [arrayReady,if_neg idle] at stall
    contradiction
  have whole := (tile.due valid same working).mp due
  have shown := (tile.full whole).2
  rw [arrayReady,if_pos due] at stall
  have ready : (arrayInput s i).ready = false := by
    simp only [arrayInput,arrayReady,if_pos due,stall]
  have closed : (s.array (chosen p task)).inReady
      (SpatialArray.accumulatorInput (arrayInput s i) (chosen p task)) = false := by
    simp [Accumulator.inReady,Accumulator.keepOutputNext,SpatialArray.accumulatorInput,shown,ready]
  refine ⟨whole,?_,?_,shown⟩
  · rw [operation,SpatialArray.accepted_eq (typed valid same i),closed,if_neg Bool.false_ne_true]
  · rw [word,ParallelToSerial.accepted]
    split
    · next free =>
      rw [decide_eq_true free,Bool.true_and] at stall
      exact if_neg (by simp [dInput,stall])
    · rfl

/-- A result that may leave. -/
theorem AtTile.given (tile : AtTile task s r part) (valid : Valid p task) (same : s.csr = task)
    (working : s.busy = true) (ready : arrayReady s i = true) :
    word s i = if part.length = length task then some (packed _ (accumulateAll p task r part)) else none := by
  have due := tile.due valid same working
  by_cases whole : part.length = length task
  · rw [if_pos whole,← tile.register]
    rw [arrayReady,if_pos (due.mpr whole),Bool.and_eq_true,decide_eq_true_eq] at ready
    obtain ⟨free,open'⟩ := ready
    have inside : s.csr.dataTypeCfg.toNat < p.array.dataTypes.length := same ▸ valid.type
    have bits : (dInput s i).bits = some (SpatialArray.dBits s.array (arrayInput s i)) :=
      if_pos (due.mpr whole)
    have flows : (dInput s i).ready = true := open'
    rw [word,ParallelToSerial.accepted,if_pos free,flows,if_pos rfl,bits]
    subst same
    exact congrArg some (if_pos inside)
  · have idle : ¬ outputDue s = true := fun shown => whole (due.mp shown)
    have bits : (dInput s i).bits = none := if_neg idle
    rw [if_neg whole,word,ParallelToSerial.accepted,bits,ite_self,ite_self]

theorem next_outValid (valid : Valid p task) (same : s.csr = task) (i : Input p) :
    ((next s i).array (chosen p task)).outValid =
      ((operation s i).isSome || ((s.array (chosen p task)).outValid && !arrayReady s i)) := by
  have fires : ((next s i).array (chosen p task)).inputDataFire = (operation s i).isSome :=
    SpatialArray.accUpdate_eq (typed valid same i)
  rw [Accumulator.outValid,fires]
  rfl

theorem AtTile.computed_next (tile : AtTile task s r part) (valid : Valid p task) (same : s.csr = task)
    (working : s.busy = true) (more : versacoreFinish s i = false) :
    (next s i).computeFireCounter.toNat = (part.length + (operation s i).toList.length) % length task := by
  change (BasicCounter.next true (versacoreFinish s i) _ s.csr.aBInputTimesOneOutput _).toNat = _
  rw [more,same,computeTick_eq same working valid i,counter_next valid _ tile.computed,isSome_toNat]

theorem AtTile.register_next (tile : AtTile task s r part) (valid : Valid p task) (same : s.csr = task) :
    ((next s i).array (chosen p task)).accumulatorReg =
      accumulateAll p task r (part ++ (operation s i).toList) := by
  have register : ((next s i).array (chosen p task)).accumulatorReg =
      (operation s i).elim (s.array (chosen p task)).accumulatorReg
        (SpatialArray.accumulate _ (s.array (chosen p task)).accumulatorReg) :=
    SpatialArray.next_register (typed valid same i)
  rw [register,tile.register]
  apply Eq.trans _ (List.foldl_append).symm
  cases operation s i <;> rfl

theorem AtTile.shown_next (tile : AtTile task s r part) (valid : Valid p task) (same : s.csr = task)
    (working : s.busy = true) (more : versacoreFinish s i = false) (ready : arrayReady s i = true) :
    (next s i).dOutputValidCounter.toNat = part.length % length task := by
  have grabbed := tile.grabbed
  have size := tile.size
  have shows : arrayValid s = (s.array (chosen p task)).outValid := by
    subst same
    rfl
  have before : s.dOutputValidCounter.toNat =
      (part.length - (s.array (chosen p task)).outValid.toNat) % length task := by
    rw [← grabbed,Nat.add_sub_cancel]
    apply (Nat.mod_eq_of_lt _).symm
    cases waits : (s.array (chosen p task)).outValid with
    | true =>
      rw [waits,Bool.toNat_true] at grabbed
      omega
    | false =>
      rw [waits,Bool.toNat_false] at grabbed
      have short : part.length ≠ length task := fun whole => by simp [(tile.full whole).2] at waits
      omega
  change (BasicCounter.next true (versacoreFinish s i) (arrayValid s && arrayReady s i && s.busy)
    s.csr.aBInputTimesOneOutput _).toNat = _
  rw [more,ready,working,shows,Bool.and_true,Bool.and_true,same,counter_next valid _ before,
    Nat.sub_add_cancel (grabbed ▸ Nat.le_add_left _ _)]

/-- The array moves: `before` pairs of the tile under way stay behind, none when the tile is handed out. -/
theorem AtTile.flowing (tile : AtTile task s r part) (valid : Valid p task) (same : s.csr = task)
    (working : s.busy = true) (more : versacoreFinish s i = false) (ready : arrayReady s i = true)
    {r' : Registers p task} {part' : List (Op p)} {before : Nat} (below : before < length task)
    (counted : part.length % length task = before)
    (size : part'.length = before + (operation s i).toList.length)
    (register : accumulateAll p task r (part ++ (operation s i).toList) = accumulateAll p task r' part')
    (outputs : part'.length = length task → task.outputTimes ≠ 0) : AtTile task (next s i) r' part' := by
  have shown := next_outValid valid same i
  rw [ready,Bool.not_true,Bool.and_false,Bool.or_false] at shown
  have one := Bool.toNat_le (operation s i).isSome
  have number := isSome_toNat (operation s i)
  refine ⟨by omega,?_,?_,fun full => ⟨outputs full,?_⟩,(tile.register_next valid same).trans register⟩
  · rw [tile.computed_next valid same working more,size,← counted,Nat.mod_add_mod]
  · rw [tile.shown_next valid same working more ready,counted,shown,number,size]
  · rw [shown]
    cases taken : operation s i with
    | none =>
      rw [taken,Option.toList_none,List.length_nil] at size
      omega
    | some x => rfl

/-- One cycle of a busy core for the tile under way. -/
theorem AtTile.cycle (tile : AtTile task s r part) (valid : Valid p task) (same : s.csr = task)
    (working : s.busy = true) (more : versacoreFinish s i = false) :
    ∃ r' part', Turn task s i r part r' part' ∧
      ((part'.length = length task → task.outputTimes ≠ 0) → AtTile task (next s i) r' part') := by
  cases ready : arrayReady s i with
  | false =>
    obtain ⟨whole,still,silent,waits⟩ := tile.stalled valid same working ready
    refine ⟨r,_,.stays silent,fun outputs => ?_⟩
    have computed := tile.computed_next valid same working more
    have register := tile.register_next valid same (i := i)
    rw [still,Option.toList_none,List.append_nil] at outputs register ⊢
    rw [still] at computed
    have shown : ((next s i).array (chosen p task)).outValid = (s.array (chosen p task)).outValid := by
      rw [next_outValid valid same,still,ready,waits]
      rfl
    have kept : (next s i).dOutputValidCounter = s.dOutputValidCounter := by
      change BasicCounter.next true (versacoreFinish s i) (arrayValid s && arrayReady s i && s.busy) _ _ = _
      rw [more,ready,Bool.and_false,Bool.false_and,BasicCounter.next_hold]
    refine ⟨tile.size,computed,?_,fun _ => ⟨outputs whole,shown.trans waits⟩,register⟩
    rw [kept,shown]
    exact tile.grabbed
  | true =>
    have given := tile.given valid same working ready
    by_cases whole : part.length = length task
    · rw [if_pos whole] at given
      have none : part.length % length task = 0 := by rw [whole,Nat.mod_self]
      exact ⟨_,_,.hands whole given,tile.flowing valid same working more ready valid.computes none
        (Nat.zero_add _).symm List.foldl_append⟩
    · rw [if_neg whole] at given
      have short : part.length < length task := Nat.lt_of_le_of_ne tile.size whole
      exact ⟨_,_,.stays given,tile.flowing valid same working more ready short (Nat.mod_eq_of_lt short)
        List.length_append rfl⟩

end AtTile

end Snax.VersaCore
