import Snax.VersaCoreTile

/-! The law of a task of VersaCore: whatever the stalls, the pairs of operands are taken in tiles of the
configured length, and the tiles go out in order. -/
namespace Snax.VersaCore

open Sync

variable {p : VersaCoreParam}

/-! ### The tiles of a task -/

/-- The words of the tiles, each from the registers that the one before it leaves. -/
def tileWords (p : VersaCoreParam) (task : VersaCoreCfg) :
    Registers p task → List (List (Op p)) → List (dP2sParams p).Word
  | _, [] => []
  | r, tile :: tiles =>
    packed _ (accumulateAll p task r tile) :: tileWords p task (accumulateAll p task r tile) tiles

/-- The addend comes in with the first pair of a tile when the task asks for it, and with no other one. -/
def Fed (task : VersaCoreCfg) : List (Op p) → Prop
  | [] => True
  | first :: more => (first.c.isSome = true ↔ task.takeInNewC = 1) ∧ ∀ x ∈ more, x.c = none

theorem tileWords_snoc {task : VersaCoreCfg} (r : Registers p task) (tiles : List (List (Op p)))
    (tile : List (Op p)) : tileWords p task r (tiles ++ [tile]) =
      tileWords p task r tiles ++
        [packed _ (accumulateAll p task (accumulateAll p task r tiles.flatten) tile)] := by
  induction tiles generalizing r with
  | nil => rfl
  | cons head tiles ih =>
    have later := ih (accumulateAll p task r head)
    have split : accumulateAll p task (accumulateAll p task r head) tiles.flatten =
        accumulateAll p task r (head :: tiles).flatten := List.foldl_append.symm
    rw [split] at later
    exact congrArg (List.cons _) later

theorem tileWords_length {task : VersaCoreCfg} (r : Registers p task) (tiles : List (List (Op p))) :
    (tileWords p task r tiles).length = tiles.length := by
  induction tiles generalizing r with
  | nil => rfl
  | cons tile tiles ih => exact congrArg (· + 1) (ih _)

theorem Fed.snoc {task : VersaCoreCfg} {tile : List (Op p)} {x : Op p} (fed : Fed task tile)
    (asks : x.c.isSome = true ↔ tile = [] ∧ task.takeInNewC = 1) : Fed task (tile ++ [x]) := by
  cases tile with
  | nil => exact ⟨by simpa using asks,by simp⟩
  | cons first more =>
    refine ⟨fed.1,fun y member => ?_⟩
    rcases List.mem_append.mp member with before | last
    · exact fed.2 y before
    · rw [List.mem_singleton.mp last]
      simpa using asks

theorem Fed.addend {task : VersaCoreCfg} {first : Op p} {more : List (Op p)} (fed : Fed task (first :: more))
    (takes : task.takeInNewC = 1) :
    ∃ c, first.c = some c ∧ (first :: more).filterMap SpatialArray.Operation.c = [c] := by
  obtain ⟨c,added⟩ := Option.isSome_iff_exists.mp (fed.1.mpr takes)
  have rest : more.filterMap SpatialArray.Operation.c = [] := List.filterMap_eq_nil_iff.mpr fed.2
  exact ⟨c,added,by rw [List.filterMap_cons,added,rest]⟩

section Factors

variable (task : VersaCoreCfg)

theorem shape_mem (t : DataTypeParam) (cfg : BitVec 32) : SpatialArray.shape t cfg ∈ t.arrayDim := by
  have shapes := t.dimsNumber.2
  rw [SpatialArray.shape,List.getD_eq_getElem?_getD]
  cases found : t.arrayDim[cfg.toNat]? with
  | some dim => exact List.mem_of_getElem? found
  | none =>
    cases dims : t.arrayDim with
    | nil => simp [dims] at shapes
    | cons first rest => simp

theorem inputCSerialFactor_le : 1 ≤ inputCSerialFactor p task ∧
    inputCSerialFactor p task ≤ (cS2pParams p).ratio := by
  rw [inputCSerialFactor]
  split
  · exact ⟨Nat.le_refl 1,(cS2pParams p).ratio_positive⟩
  · exact ⟨Nat.le_max_left _ _,p.factorsC _ (List.get_mem _ _) _ (shape_mem _ _)⟩

theorem outputDSerialFactor_le : 1 ≤ outputDSerialFactor p task ∧
    outputDSerialFactor p task ≤ (dP2sParams p).ratio := by
  rw [outputDSerialFactor]
  split
  · exact ⟨Nat.le_refl 1,(dP2sParams p).ratio_positive⟩
  · exact ⟨Nat.le_max_left _ _,p.factorsD _ (List.get_mem _ _) _ (shape_mem _ _)⟩

theorem dueChunks_ofNat {q : ParallelAndSerialConverterParams} (early : q.earlyTerminate = true) {f : Nat}
    (few : f ≤ q.ratio) : (q.dueChunks (BitVec.ofNat _ f)).toNat = f := by
  have room := le_two_pow_log2Ceil (q.ratio + 1)
  rw [ParallelAndSerialConverterParams.dueChunks,if_pos early,BitVec.toNat_ofNat]
  exact Nat.mod_eq_of_lt (by omega)

variable {s : State p} {i : Input p} {task}

theorem quiet (working : s.busy = true) : configFire s i = none := if_pos working

theorem cSteady (same : s.csr = task) (working : s.busy = true) :
    SerialToParallel.Steady (inputCSerialFactor p task) (cInput s i) := by
  refine ⟨by simp [cInput,quiet working],?_⟩
  rw [cInput,same]
  exact dueChunks_ofNat rfl (inputCSerialFactor_le task).2

theorem dSteady (same : s.csr = task) (working : s.busy = true) :
    ParallelToSerial.Steady (outputDSerialFactor p task) (dInput s i) := by
  refine ⟨by simp [dInput,quiet working],?_⟩
  rw [dInput,same]
  exact dueChunks_ofNat rfl (outputDSerialFactor_le task).2

/-- The addends of the operations are what leaves the unit of `C`. -/
theorem delivered_c (same : s.csr = task) (working : s.busy = true) (valid : Valid p task)
    (takes : task.takeInNewC = 1) :
    SerialToParallel.delivered s.cS2p (cInput s i) = (operation s i).bind SpatialArray.Operation.c := by
  have ready : (cInput s i).ready = addCFire s i := by simp [cInput,working]
  rw [SerialToParallel.delivered,ready,addCFire,inCFire,pairFire,same,takes]
  cases taken : operation s i with
  | none =>
    simp only [Option.isSome_none,Bool.false_and,Bool.or_false]
    rfl
  | some x =>
    obtain ⟨asks,given,_⟩ := operation_c same working taken valid
    cases addend : x.c with
    | none =>
      simp only [addend,Option.isSome_none,Option.bind_some,Bool.and_false,Bool.false_and,Bool.false_or]
      exact if_neg (by simp)
    | some word =>
      have external : x.c.isSome = true := addend ▸ rfl
      obtain ⟨first,_⟩ := asks.mp external
      simp only [addend,Option.bind_some,first]
      exact (given external).symm.trans addend

end Factors

theorem accepted_none {q : ParallelAndSerialConverterParams} {t : SerialToParallel.State q}
    {j : SerialToParallel.Input q} (silent : j.bits = none) : SerialToParallel.accepted t j = none := by
  rw [SerialToParallel.accepted,silent,ite_self]

/-! ### The streams -/

section Streams

variable {task : VersaCoreCfg} {s : State p} {i : Input p}

def waitingA (s : State p) : List (BitVec p.array.arrayInputAWidth) :=
  s.cut.contents.map Prod.fst ++ (held s.aS2p).toList

def waitingB (s : State p) : List (BitVec p.array.arrayInputBWidth) :=
  s.cut.contents.map Prod.snd ++ (held s.bS2p).toList

theorem given_eq (valid : Valid p task) (same : s.csr = task) (working : s.busy = true) :
    s.cut.given (combinedIn s) (pairFire s i) = (operation s i).map fun x => (x.a,x.b) := by
  rw [PipelineCut.given,pairFire]
  cases taken : operation s i with
  | none => rfl
  | some x => exact (operation_c same working taken valid).2.2

/-- Both units give up their words when a pair enters the cut. -/
theorem leaving_eq :
    leaving s.aS2p (aInput s i) = (s.cut.taken (combinedIn s) (pairFire s i)).map Prod.fst ∧
    leaving s.bS2p (bInput s i) = (s.cut.taken (combinedIn s) (pairFire s i)).map Prod.snd := by
  have readyA : (aInput s i).ready = operandReady s i := rfl
  have readyB : (bInput s i).ready = operandReady s i := rfl
  rw [leaving,SerialToParallel.delivered,readyA,leaving,SerialToParallel.delivered,readyB,operandReady,
    PipelineCut.taken,combinedIn]
  cases s.busy with
  | false =>
    rw [if_neg Bool.false_ne_true,Option.isSome_none,Bool.and_false,if_neg Bool.false_ne_true,
      if_neg Bool.false_ne_true,ite_self]
    exact ⟨rfl,rfl⟩
  | true =>
    cases SerialToParallel.offered s.aS2p <;> cases SerialToParallel.offered s.bS2p <;>
      cases s.cut.inReady _ (pairFire s i) <;> exact ⟨rfl,rfl⟩

theorem toList_map {α β : Type} (f : α → β) (x : Option α) : (x.map f).toList = x.toList.map f := by
  cases x <;> rfl

theorem toList_bind {α β : Type} (f : α → Option β) (x : Option α) :
    (x.bind f).toList = x.toList.filterMap f := by
  cases x with
  | none => rfl
  | some x => cases h : f x <;> simp [h]

/-- A register in front of the cut: what leaves the one enters the other. -/
theorem flow {α β : Type} (f : α → β) {given taken : Option α} {contents contents' : List α}
    {gone come before after : Option β} (cut : given.toList ++ contents' = contents ++ taken.toList)
    (register : gone.toList ++ after.toList = before.toList ++ come.toList) (leaves : gone = taken.map f) :
    given.toList.map f ++ (contents'.map f ++ after.toList) =
      contents.map f ++ before.toList ++ come.toList := by
  have items := congrArg (List.map f) cut
  rw [List.map_append,List.map_append,← toList_map f taken,← leaves] at items
  rw [List.append_assoc,← register,← List.append_assoc,items,List.append_assoc]

/-- The words of A go into the operations in order. -/
theorem flow_a (valid : Valid p task) (same : s.csr = task) (working : s.busy = true)
    (zero : s.aS2p.value.toNat = 0) :
    (operation s i).toList.map SpatialArray.Operation.a ++ waitingA (next s i) =
      waitingA s ++ (entered s.aS2p (aInput s i)).toList := by
  have items := flow Prod.fst (s.cut.next_conserves (combinedIn s) (pairFire s i))
    (single_conserves (s := s.aS2p) (i := aInput s i) rfl zero) leaving_eq.1
  rw [given_eq valid same working,toList_map,List.map_map] at items
  exact items

theorem flow_b (valid : Valid p task) (same : s.csr = task) (working : s.busy = true)
    (zero : s.bS2p.value.toNat = 0) :
    (operation s i).toList.map SpatialArray.Operation.b ++ waitingB (next s i) =
      waitingB s ++ (entered s.bS2p (bInput s i)).toList := by
  have items := flow Prod.snd (s.cut.next_conserves (combinedIn s) (pairFire s i))
    (single_conserves (s := s.bS2p) (i := bInput s i) rfl zero) leaving_eq.2
  rw [given_eq valid same working,toList_map,List.map_map] at items
  exact items

def acceptedA (history : List (Output p)) : List (BitVec p.array.arrayInputAWidth) :=
  history.filterMap Output.a

def acceptedB (history : List (Output p)) : List (BitVec p.array.arrayInputBWidth) :=
  history.filterMap Output.b

def acceptedC (history : List (Output p)) : List (cS2pParams p).Chunk := history.filterMap Output.c

def deliveredD (history : List (Output p)) : List (dP2sParams p).Chunk := history.filterMap Output.d

/-- The addends of the operations. -/
def carried (operations : List (Op p)) : List (cS2pParams p).Word :=
  operations.filterMap SpatialArray.Operation.c

theorem leaving_c (valid : Valid p task) (same : s.csr = task) (working : s.busy = true)
    (takes : task.takeInNewC = 1) :
    (SerialToParallel.delivered s.cS2p (cInput s i)).toList = carried (operation s i).toList := by
  rw [delivered_c same working valid takes]
  exact toList_bind _ _

end Streams

/-! ### The course of a task -/

/-- After a history of a busy core: the operations are the tiles whose words have been handed out, and
`part` of the tile under way; they carry the words of A and B in order and the words of C one by tile, and
the chunks of D are those of the tiles. -/
structure Course (p : VersaCoreParam) (task : VersaCoreCfg) (r : Registers p task) (history : List (Output p))
    (s : State p) (tiles : List (List (Op p))) (part : List (Op p)) : Prop where
  busy : s.busy = true
  csr : s.csr = task
  whole : ∀ tile ∈ tiles, tile.length = length task
  fed : ∀ tile ∈ tiles ++ [part], Fed task tile
  shaped : ∀ x ∈ tiles.flatten ++ part, x.arrayShapeCfg = task.arrayShapeCfg
  left : (tiles.flatten ++ part).map SpatialArray.Operation.a ++ waitingA s = acceptedA history
  right : (tiles.flatten ++ part).map SpatialArray.Operation.b ++ waitingB s = acceptedB history
  addends : ∃ words, SerialToParallel.Packs (inputCSerialFactor p task) none
    (Grouping.of (inputCSerialFactor p task) (acceptedC history)) words s.cS2p ∧
    (task.takeInNewC = 1 → words = carried (tiles.flatten ++ part))
  emits : ParallelToSerial.Emits (outputDSerialFactor p task) (tileWords p task r tiles)
    (deliveredD history) s.dP2s
  counted : s.dOutputCounter.toNat = (deliveredD history).length
  due : (deliveredD history).length ≤ task.outputTimes.toNat * outputDSerialFactor p task
  idle : task.outputTimes = 0 → tiles = []
  tile : AtTile task s (accumulateAll p task r tiles.flatten) part
  singleA : s.aS2p.value.toNat = 0
  singleB : s.bS2p.value.toNat = 0
  others : ∀ t, t ≠ chosen p task → (s.array t).outValid = false

/-- The core finishes when the chunks of all outputs are out. -/
theorem Course.outputFinish_iff {task : VersaCoreCfg} {r : Registers p task} {history : List (Output p)}
    {s : State p} {tiles : List (List (Op p))} {part : List (Op p)}
    (course : Course p task r history s tiles part) : outputFinish s = true ↔
      (deliveredD history).length = task.outputTimes.toNat * outputDSerialFactor p task := by
  rw [outputFinish,course.busy,course.counted,course.csr,Bool.and_true,decide_eq_true_eq]

section Step

variable {task : VersaCoreCfg} {r : Registers p task} {history : List (Output p)} {s : State p}
  {tiles tiles' : List (List (Op p))} {part part' : List (Op p)} {i : Input p}

theorem Course.room (course : Course p task r history s tiles part) (more : versacoreFinish s i = false)
    (outputs : task.outputTimes ≠ 0) :
    (deliveredD history).length < task.outputTimes.toNat * outputDSerialFactor p task := by
  apply Nat.lt_of_le_of_ne course.due
  intro all
  have finish := course.outputFinish_iff.mpr all
  have some : (s.csr.outputTimes == 0) = false := course.csr ▸ beq_false_of_ne outputs
  rw [versacoreFinish,computationFinish,some,Bool.false_and,if_neg Bool.false_ne_true,finish] at more
  contradiction

/-- A task without outputs finishes with the last pair of its tile. -/
theorem Course.short (course : Course p task r history s tiles part) (valid : Valid p task)
    (more : versacoreFinish s i = false) (silent : task.outputTimes = 0) :
    part.length + (operation s i).toList.length < length task := by
  have short : part.length < length task :=
    Nat.lt_of_le_of_ne course.tile.size fun full => (course.tile.full full).1 silent
  have finish : outputFinish s = true := by
    have due := course.due
    apply course.outputFinish_iff.mpr
    rw [silent] at due ⊢
    exact Nat.le_antisymm due (by simp)
  have none : (s.csr.outputTimes == 0) = true := by rw [course.csr,silent]; rfl
  have positive : task.aBInputTimesOneOutput ≠ 0 := fun zero => by
    have computes := valid.computes
    simp [length,zero] at computes
  have computed := course.tile.computed
  rw [Nat.mod_eq_of_lt short] at computed
  rw [versacoreFinish,computationFinish,none,course.busy,Bool.and_true,if_pos rfl,finish,Bool.and_true,
    Bool.and_true,BasicCounter.lastVal,if_pos rfl,course.csr,lastIndex_of_ne_zero _ positive,computed,
    computeTick_eq course.csr course.busy valid,Bool.and_eq_false_iff] at more
  rw [← isSome_toNat]
  rcases more with early | still
  · have early : part.length ≠ task.aBInputTimesOneOutput.toNat - 1 := by simpa using early
    have one := Bool.toNat_le (operation s i).isSome
    simp only [length] at short ⊢
    omega
  · rw [still]
    exact short

theorem operation_shape (valid : Valid p task) (same : s.csr = task) {x : Op p}
    (taken : operation s i = some x) : x.arrayShapeCfg = task.arrayShapeCfg := by
  rw [operation,SpatialArray.accepted_eq (typed valid same i)] at taken
  split at taken
  · have shape := (SpatialArray.offered_some taken).2.2.1
    rw [← shape,← same]
    rfl
  · contradiction

theorem deliveredD_snoc (history : List (Output p)) (s : State p) (i : Input p) :
    deliveredD (history ++ [out s i]) =
      deliveredD history ++ (ParallelToSerial.delivered s.dP2s (dInput s i)).toList := filterMap_concat _ _ _

theorem Course.emits_next (course : Course p task r history s tiles part)
    (words : tileWords p task r tiles' = tileWords p task r tiles ++ (word s i).toList) :
    ParallelToSerial.Emits (outputDSerialFactor p task) (tileWords p task r tiles')
      (deliveredD (history ++ [out s i])) (next s i).dP2s := by
  rw [words,deliveredD_snoc]
  exact course.emits.cycle (dSteady course.csr course.busy) (outputDSerialFactor_le task).1
    (outputDSerialFactor_le task).2

/-- The output counter has room for every chunk of the task. -/
theorem Course.counted_next (course : Course p task r history s tiles part) (valid : Valid p task)
    (more : versacoreFinish s i = false)
    (words : tileWords p task r tiles' = tileWords p task r tiles ++ (word s i).toList)
    (idle : task.outputTimes = 0 → tiles' = []) :
    (next s i).dOutputCounter.toNat = (deliveredD (history ++ [out s i])).length ∧
      (deliveredD (history ++ [out s i])).length ≤
        task.outputTimes.toNat * outputDSerialFactor p task := by
  have counter : (next s i).dOutputCounter =
      if (ParallelToSerial.delivered s.dP2s (dInput s i)).isSome then s.dOutputCounter + 1
      else s.dOutputCounter := by
    change BasicCounter.next false (versacoreFinish s i) (_ && s.busy) 0 _ = _
    rw [more,course.busy,Bool.and_true]
    rfl
  have chunks := deliveredD_snoc history s i
  rw [counter]
  cases gives : ParallelToSerial.delivered s.dP2s (dInput s i) with
  | none =>
    rw [gives,Option.toList_none,List.append_nil] at chunks
    rw [chunks]
    exact ⟨course.counted,course.due⟩
  | some chunk =>
    rw [gives] at chunks
    have outputs : task.outputTimes ≠ 0 := by
      intro silent
      have nothing := (course.emits_next words).chunks
      rw [idle silent,chunks,List.append_assoc] at nothing
      exact List.append_ne_nil_of_right_ne_nil _ (List.cons_ne_nil _ _) nothing
    have room := course.room more outputs
    have grows := BasicCounter.toNat_add_one s.dOutputCounter (course.counted ▸ room) valid.counted
    rw [chunks,List.length_append,Option.toList_some,List.length_singleton]
    exact ⟨grows.trans (congrArg (· + 1) course.counted),room⟩

theorem Course.addends_next (course : Course p task r history s tiles part) (valid : Valid p task) :
    ∃ words, SerialToParallel.Packs (inputCSerialFactor p task) none
        (Grouping.of (inputCSerialFactor p task) (acceptedC (history ++ [out s i]))) words (next s i).cS2p ∧
      (task.takeInNewC = 1 → words = carried (tiles.flatten ++ part ++ (operation s i).toList)) := by
  obtain ⟨words,packs,same⟩ := course.addends
  have cycle := packs.cycle (i := cInput s i) (cSteady course.csr course.busy)
    (inputCSerialFactor_le task).1 (inputCSerialFactor_le task).2
  have taken : acceptedC (history ++ [out s i]) =
      acceptedC history ++ (SerialToParallel.accepted s.cS2p (cInput s i)).toList := filterMap_concat _ _ _
  rw [← Grouping.of_toList] at cycle
  refine ⟨_,taken ▸ cycle,fun takes => ?_⟩
  have carries : carried (tiles.flatten ++ part ++ (operation s i).toList) =
      carried (tiles.flatten ++ part) ++ carried (operation s i).toList := List.filterMap_append
  rw [leaving_c valid course.csr course.busy takes,same takes,carries]

/-- The accumulators of the other data types stand still. -/
theorem next_others (valid : Valid p task) (same : s.csr = task) (i : Input p)
    {t : Fin p.array.dataTypes.length} (other : t ≠ chosen p task) (clear : (s.array t).outValid = false) :
    ((next s i).array t).outValid = false := by
  have type := typed valid same i
  have disabled : (s.array t).accUpdate (SpatialArray.accumulatorInput (arrayInput s i) t) = false := by
    have different : (chosen p task).val ≠ t.val := fun same => other (Fin.ext same.symm)
    simp [Accumulator.accUpdate,SpatialArray.accumulatorInput,type,different]
  change ((s.array t).accUpdate _ || (s.array t).outValid && _) = false
  rw [disabled,clear]
  rfl

/-- What a cycle adds to the streams. -/
theorem Course.extend (course : Course p task r history s tiles part) (valid : Valid p task)
    (more : versacoreFinish s i = false)
    (all : tiles'.flatten ++ part' = tiles.flatten ++ part ++ (operation s i).toList)
    (words : tileWords p task r tiles' = tileWords p task r tiles ++ (word s i).toList)
    (whole : ∀ tile ∈ tiles', tile.length = length task)
    (fed : ∀ tile ∈ tiles' ++ [part'], Fed task tile)
    (idle : task.outputTimes = 0 → tiles' = [])
    (tile : AtTile task (next s i) (accumulateAll p task r tiles'.flatten) part') :
    Course p task r (history ++ [out s i]) (next s i) tiles' part' := by
  have same := course.csr
  have working := course.busy
  obtain ⟨counted,due⟩ := course.counted_next valid more words idle
  refine ⟨?_,?_,whole,fed,?_,?_,?_,all ▸ course.addends_next valid,
    course.emits_next words,counted,due,idle,tile,single_value rfl course.singleA,
    single_value rfl course.singleB,fun t other => next_others valid same i other (course.others t other)⟩
  · change (if s.busy then !versacoreFinish s i else _) = true
    rw [working,more]
    rfl
  · change (configFire s i).elim s.csr _ = task
    rw [quiet working]
    exact same
  · rw [all]
    intro x member
    rcases List.mem_append.mp member with before | now
    · exact course.shaped x before
    · exact operation_shape valid same (Option.mem_toList.mp now)
  · have flow := flow_a (i := i) valid same working course.singleA
    have taken : acceptedA (history ++ [out s i]) =
        acceptedA history ++ (entered s.aS2p (aInput s i)).toList := filterMap_concat _ _ _
    rw [all,List.map_append,List.append_assoc,flow,taken,← course.left,List.append_assoc]
  · have flow := flow_b (i := i) valid same working course.singleB
    have taken : acceptedB (history ++ [out s i]) =
        acceptedB history ++ (entered s.bS2p (bInput s i)).toList := filterMap_concat _ _ _
    rw [all,List.map_append,List.append_assoc,flow,taken,← course.right,List.append_assoc]

/-- A pair that is taken brings in the addend exactly when it is the first one of its tile. -/
theorem AtTile.asks {registers : Registers p task} (tile : AtTile task s registers part)
    (valid : Valid p task) (same : s.csr = task) (working : s.busy = true) {x : Op p}
    (taken : operation s i = some x) :
    x.c.isSome = true ↔ part.length % length task = 0 ∧ task.takeInNewC = 1 := by
  rw [(operation_c same working taken valid).1,← tile.computed,← BitVec.toNat_inj]
  rfl

theorem Course.cycle (course : Course p task r history s tiles part) (valid : Valid p task)
    (more : versacoreFinish s i = false) :
    ∃ tiles' part', Course p task r (history ++ [out s i]) (next s i) tiles' part' := by
  have same := course.csr
  have working := course.busy
  obtain ⟨r',part',turn,later⟩ := course.tile.cycle valid same working more
  have fedPart : Fed task part := course.fed part (by simp)
  cases turn with
  | stays silent =>
    -- a task without outputs has finished before its tile is full
    have outputs : (part ++ (operation s i).toList).length = length task → task.outputTimes ≠ 0 := by
      intro full none
      have short := course.short valid more none
      rw [List.length_append] at full
      omega
    refine ⟨tiles,_,course.extend valid more (List.append_assoc _ _ _).symm (by rw [silent]; simp)
      course.whole (fun tile member => ?_) course.idle (later outputs)⟩
    rcases List.mem_append.mp member with done | under
    · exact course.fed tile (List.mem_append_left _ done)
    · obtain rfl := List.mem_singleton.mp under
      cases taken : operation s i with
      | none => simpa using fedPart
      | some x =>
        have few := (later outputs).size
        rw [taken,List.length_append] at few
        have short : part.length < length task := few
        refine fedPart.snoc ?_
        rw [course.tile.asks valid same working taken,Nat.mod_eq_of_lt short,List.length_eq_zero_iff]
  | hands whole given =>
    have outputs : task.outputTimes ≠ 0 := (course.tile.full whole).1
    have flat : (tiles ++ [part]).flatten = tiles.flatten ++ part := by simp
    have handed : accumulateAll p task r (tiles ++ [part]).flatten =
        accumulateAll p task (accumulateAll p task r tiles.flatten) part := by
      rw [flat]
      exact List.foldl_append
    refine ⟨tiles ++ [part],_,course.extend valid more (by rw [flat]) ?_ ?_ ?_
      (fun silent => absurd silent outputs) (handed ▸ later fun _ => outputs)⟩
    · rw [tileWords_snoc,given]
      rfl
    · intro tile member
      rcases List.mem_append.mp member with done | last
      · exact course.whole tile done
      · rw [List.mem_singleton.mp last,whole]
    · intro tile member
      rcases List.mem_append.mp member with done | under
      · exact course.fed tile done
      · obtain rfl := List.mem_singleton.mp under
        cases taken : operation s i with
        | none => trivial
        | some x =>
          refine ⟨?_,by simp⟩
          rw [course.tile.asks valid same working taken,whole,Nat.mod_self]
          simp

end Step

/-! ### The law -/

/-- A core between two tasks: nothing is on its way. -/
structure Rested (p : VersaCoreParam) (s : State p) : Prop where
  idle : s.busy = false
  outputs : s.dOutputCounter = 0
  computed : s.computeFireCounter = 0
  shown : s.dOutputValidCounter = 0
  a : s.aS2p.value = 0 ∧ held s.aS2p = none
  b : s.bS2p.value = 0 ∧ held s.bS2p = none
  c : s.cS2p.value = 0 ∧ SerialToParallel.offered s.cS2p = none
  d : s.dP2s.value = 0
  cut : s.cut.contents = []
  array : ∀ t, (s.array t).outValid = false

theorem reset_rested (p : VersaCoreParam) : Rested p (reset p) :=
  ⟨rfl,rfl,rfl,rfl,⟨rfl,rfl⟩,⟨rfl,rfl⟩,⟨rfl,rfl⟩,rfl,PipelineCut.empty_contents _,fun _ => rfl⟩

section Law

variable {task : VersaCoreCfg} {s : State p} {i : Input p}

theorem Rested.combinedIn_none (rested : Rested p s) : combinedIn s = none := by simp [combinedIn,rested.idle]

theorem Rested.afterCut_none (rested : Rested p s) : afterCut s = none := by
  rw [afterCut,rested.combinedIn_none]
  exact PipelineCut.out_of_hollow rested.cut

theorem Rested.registers (rested : Rested p s) (i : Input p) (t : Fin p.array.dataTypes.length) :
    ((next s i).array t).accumulatorReg = (s.array t).accumulatorReg ∧
      ((next s i).array t).outValid = false := by
  have still : (s.array t).accUpdate (SpatialArray.accumulatorInput (arrayInput s i) t) = false := by
    have left : (arrayInput s i).inA = none := congrArg (Option.map Prod.fst) rested.afterCut_none
    simp [Accumulator.accUpdate,Accumulator.in1Fire,SpatialArray.accumulatorInput,left]
  refine ⟨funext fun l => if_neg (by simp [still]),?_⟩
  change ((s.array t).accUpdate _ || (s.array t).outValid && _) = false
  rw [still,rested.array t]
  rfl

theorem Rested.hollow (rested : Rested p s) (i : Input p) : (next s i).cut.contents = [] := by
  have conserves := s.cut.next_conserves (combinedIn s) (pairFire s i)
  have empty : s.cut.taken (combinedIn s) (pairFire s i) = none := by
    rw [rested.combinedIn_none,PipelineCut.taken,ite_self]
  rw [rested.cut,empty] at conserves
  exact (List.append_eq_nil_iff.mp conserves).2

theorem Rested.continues (rested : Rested p s) (i : Input p) : versacoreFinish s i = false := by
  rw [versacoreFinish,outputFinish,rested.idle,Bool.and_false,Bool.and_false]

theorem Rested.counters (rested : Rested p s) (i : Input p) : (next s i).dOutputCounter = 0 ∧
    (next s i).computeFireCounter = 0 ∧ (next s i).dOutputValidCounter = 0 := by
  simp only [next,rested.continues,computeTick,rested.idle,Bool.and_false,BasicCounter.next_hold]
  exact ⟨rested.outputs,rested.computed,rested.shown⟩

theorem Rested.waitingA_next (rested : Rested p s) (i : Input p) :
    waitingA (next s i) = (entered s.aS2p (aInput s i)).toList := by
  have moves : SerialToParallel.outputStall s.aS2p (aInput s i).ready = false :=
    congrArg (fun word => Option.isSome word && _) rested.a.2
  rw [waitingA,rested.hollow]
  exact congrArg Option.toList (single_moves rfl (congrArg BitVec.toNat rested.a.1) moves)

theorem Rested.waitingB_next (rested : Rested p s) (i : Input p) :
    waitingB (next s i) = (entered s.bS2p (bInput s i)).toList := by
  have moves : SerialToParallel.outputStall s.bS2p (bInput s i).ready = false :=
    congrArg (fun word => Option.isSome word && _) rested.b.2
  rw [waitingB,rested.hollow]
  exact congrArg Option.toList (single_moves rfl (congrArg BitVec.toNat rested.b.1) moves)

/-- Without a chunk at C the start pulse of the configuration drops nothing. -/
theorem Rested.emptyC (rested : Rested p s) (none : i.inC = none) (pulse : (configFire s i).isSome = true) :
    SerialToParallel.accepted s.cS2p (cInput s i) = Option.none ∧ (next s i).cS2p.value = 0 ∧
      SerialToParallel.offered (next s i).cS2p = Option.none := by
  have quiet : SerialToParallel.accepted s.cS2p (cInput s i) = Option.none := accepted_none none
  refine ⟨quiet,SerialToParallel.start_value pulse s.cS2p,SerialToParallel.offered_none ?_ ?_⟩
  · simp [next,SerialToParallel.next,quiet]
  · simp [next,SerialToParallel.next,SerialToParallel.outputStall,rested.c.2]

theorem Rested.emptyD (rested : Rested p s) (i : Input p) :
    ParallelToSerial.delivered s.dP2s (dInput s i) = none := by
  have fresh : ParallelToSerial.offered s.dP2s (dInput s i) = none := by
    rw [ParallelToSerial.offered,if_pos rested.d]
    simp [dInput,outputDue,rested.idle]
  rw [ParallelToSerial.delivered,fresh,ite_self]

/-- The task begins with the words that come in beside its configuration. -/
theorem Rested.started (rested : Rested p s) (valid : Valid p task) (asks : i.ctrl = some task)
    (none : i.inC = none) :
    Course p task (s.array (chosen p task)).accumulatorReg [out s i] (next s i) [] [] := by
  have fires : configFire s i = some task := by simp [configFire,rested.idle,asks]
  have pulse : (configFire s i).isSome = true := congrArg Option.isSome fires
  obtain ⟨register,clear⟩ := rested.registers i (chosen p task)
  obtain ⟨outputs,computed,shown⟩ := rested.counters i
  obtain ⟨quietC,startC,freshC⟩ := rested.emptyC none pulse
  have startD : (next s i).dP2s.value = 0 := ParallelToSerial.start_value pulse s.dP2s
  have silentC : acceptedC [out s i] = [] :=
    (filterMap_concat Output.c [] (out s i)).trans (congrArg Option.toList quietC)
  have silentD : deliveredD [out s i] = [] :=
    (filterMap_concat Output.d [] (out s i)).trans (congrArg Option.toList (rested.emptyD i))
  have computes := valid.computes
  refine ⟨?_,?_,by simp,?_,by simp,?_,?_,?_,?_,?_,?_,fun _ => rfl,⟨Nat.zero_le _,?_,?_,?_,register⟩,
    single_value rfl (congrArg BitVec.toNat rested.a.1),single_value rfl (congrArg BitVec.toNat rested.b.1),
    fun t _ => (rested.registers i t).2⟩
  · simp [next,rested.idle,fires]
  · have counts : task.aBInputTimesOneOutput ≠ 0 := fun zero => by simp [length,zero] at computes
    change (configFire s i).elim s.csr (configured s.csr) = task
    rw [fires,Option.elim_some,configured,if_neg counts]
  · intro tile member
    obtain rfl : tile = [] := by simpa using member
    trivial
  · rw [rested.waitingA_next]
    exact (filterMap_concat Output.a [] (out s i)).symm
  · rw [rested.waitingB_next]
    exact (filterMap_concat Output.b [] (out s i)).symm
  · have packs := SerialToParallel.Packs.fresh (inputCSerialFactor_le (p := p) task).1 startC
    rw [freshC] at packs
    rw [silentC]
    exact ⟨[],packs,fun _ => rfl⟩
  · rw [silentD]
    exact .fresh (outputDSerialFactor_le task).1 startD
  · rw [outputs,silentD]
    rfl
  · rw [silentD]
    exact Nat.zero_le _
  · rw [computed]
    exact (Nat.zero_mod _).symm
  · rw [shown,clear]
    rfl
  · exact fun full => absurd full.symm (Nat.ne_of_gt computes)

/-- When the core finishes a task with outputs, as many tiles as the task says have gone out, and nothing
else. -/
theorem Course.finished {r : Registers p task} {history : List (Output p)} {tiles : List (List (Op p))}
    {part : List (Op p)} (course : Course p task r history s tiles part)
    (finish : versacoreFinish s i = true) : tiles.length = task.outputTimes.toNat ∧
      deliveredD history =
        (tileWords p task r tiles).flatMap ((dP2sParams p).lowChunks (outputDSerialFactor p task)) := by
  have all := course.outputFinish_iff.mp (Bool.and_eq_true_iff.mp finish).2
  have chunks := course.emits.chunks
  have short := course.emits.short
  have counts := congrArg List.length chunks
  rw [List.length_append,ParallelAndSerialConverterParams.length_flatMap_lowChunks,tileWords_length,all,
    Nat.mul_comm] at counts
  have positive := (outputDSerialFactor_le (p := p) task).1
  have same : tiles.length = task.outputTimes.toNat := by
    -- fewer tiles have too few chunks, and one tile more has less than its chunks still waiting
    rcases Nat.lt_trichotomy tiles.length task.outputTimes.toNat with fewer | same | more
    · have less := Nat.mul_lt_mul_of_pos_left fewer positive
      omega
    · exact same
    · have room := Nat.mul_le_mul_left (outputDSerialFactor p task) more
      rw [Nat.mul_succ] at room
      omega
  rw [same,Nat.add_eq_left,List.length_eq_zero_iff] at counts
  rw [counts,List.append_nil] at chunks
  exact ⟨same,chunks⟩

/-- A task that runs, from the cycle of its configuration on. -/
theorem Rested.course (rested : Rested p s) (valid : Valid p task) {first : Input p}
    (asks : first.ctrl = some task) (none : first.inC = none) {inputs : List (Input p)}
    (runs : (versaCore p).Each (fun _ t i => versacoreFinish t i = false) (next s first) inputs) :
    ∃ tiles part, Course p task (s.array (chosen p task)).accumulatorReg
      ((versaCore p).outs s (first :: inputs)) ((versaCore p).exec s (first :: inputs)) tiles part :=
  Machine.run_rule_each (m := versaCore p) (fun history t => ∃ tiles part,
      Course p task (s.array (chosen p task)).accumulatorReg (out s first :: history) t tiles part) runs
    ⟨[],[],rested.started valid asks none⟩ fun history t i known more => by
      obtain ⟨tiles,part,course⟩ := known
      exact course.cycle valid more

/-! ### The product of a tile -/

/-- The elements of a word are the addends plus the products of the rows and columns over the pairs. -/
def Product (task : VersaCoreCfg) (tile : List (Op p)) (word : (dP2sParams p).Word) : Prop :=
  ∃ c : BitVec p.array.arrayInputCWidth, tile.filterMap SpatialArray.Operation.c = [c] ∧
    ∀ m n, m < (dim (p := p) task).mu → n < (dim (p := p) task).nu →
      element (p.array.dataTypes.get (chosen p task)).outputTypeD.width word (m * (dim (p := p) task).nu + n) =
        (element (p.array.dataTypes.get (chosen p task)).inputTypeC.width c
            (m * (dim (p := p) task).nu + n)).setWidth _ +
          (tile.map fun x => SpatialArray.dot (p.array.dataTypes.get (chosen p task)) (dim (p := p) task)
            x.a x.b m n).sum

/-- With a shape that the data type has, a tile that begins with an addend comes to its product. -/
theorem tile_product {r : Registers p task} {tile : List (Op p)}
    (shape : task.arrayShapeCfg.toNat < (p.array.dataTypes.get (chosen p task)).arrayDim.length)
    (takes : task.takeInNewC = 1) (pairs : tile ≠ []) (fed : Fed task tile)
    (shaped : ∀ x ∈ tile, x.arrayShapeCfg = task.arrayShapeCfg) :
    Product task tile (packed _ (accumulateAll p task r tile)) := by
  have same : task.arrayShapeCfg = BitVec.ofNat 32 task.arrayShapeCfg.toNat := by simp
  have listed : dim (p := p) task =
      (p.array.dataTypes.get (chosen p task)).arrayDim[task.arrayShapeCfg.toNat] :=
    (congrArg (SpatialArray.shape _) same).trans (SpatialArray.shape_eq shape)
  cases tile with
  | nil => contradiction
  | cons first more =>
    obtain ⟨c,added,one⟩ := fed.addend takes
    refine ⟨c,one,fun m n row col => ?_⟩
    · rw [listed] at row col ⊢
      have member := (p.array.dataTypes.get (chosen p task)).arrayDim.getElem_mem shape
      have place := SpatialArray.place_inside member row col
      have wide : (m * (p.array.dataTypes.get (chosen p task)).arrayDim[task.arrayShapeCfg.toNat].nu + n + 1) *
          (p.array.dataTypes.get (chosen p task)).outputTypeD.width ≤ p.array.arrayOutputDWidth := by
        have flat := SpatialArray.flat_lt row col Nat.zero_lt_one
        simp only [Nat.mul_one,Nat.add_zero] at flat
        exact (Nat.mul_le_mul_right _ flat).trans (p.array.wideD _ (List.get_mem _ _) _ member)
      apply (element_packed_of_lt _ place wide).trans
      exact SpatialArray.accumulated_product shape row col r first c added more
        (fun x inside => (shaped x inside).trans same) fed.2

/-- A task of a rested core, whatever the delays and the stalls, as long as it runs: the pairs that come in
are computed in tiles of the configured length, each with an addend if the task asks for one; the tiles go
out in order; and when the core finishes, all outputs of the task have gone out and nothing else. -/
theorem task_law (p : VersaCoreParam) (task : VersaCoreCfg) (valid : Valid p task) (s : State p)
    (rested : Rested p s) (first : Input p) (asks : first.ctrl = some task) (none : first.inC = none)
    (inputs : List (Input p))
    (runs : (versaCore p).Each (fun _ t i => versacoreFinish t i = false) (next s first) inputs) :
    ∃ tiles part, Course p task (s.array (chosen p task)).accumulatorReg
        ((versaCore p).outs s (first :: inputs)) ((versaCore p).exec s (first :: inputs)) tiles part ∧
      ∀ i, versacoreFinish ((versaCore p).exec s (first :: inputs)) i = true →
        tiles.length = task.outputTimes.toNat ∧
          deliveredD ((versaCore p).outs s (first :: inputs)) =
            (tileWords p task (s.array (chosen p task)).accumulatorReg tiles).flatMap
              ((dP2sParams p).lowChunks (outputDSerialFactor p task)) := by
  obtain ⟨tiles,part,course⟩ := rested.course valid asks none runs
  exact ⟨tiles,part,course,fun i finish => course.finished finish⟩

theorem Course.products {r : Registers p task} {history : List (Output p)} {tiles : List (List (Op p))}
    {part : List (Op p)} (course : Course p task r history s tiles part) (valid : Valid p task)
    (shape : task.arrayShapeCfg.toNat < (p.array.dataTypes.get (chosen p task)).arrayDim.length)
    (takes : task.takeInNewC = 1) : List.Forall₂ (Product task) tiles (tileWords p task r tiles) := by
  have whole := course.whole
  have fed : ∀ tile ∈ tiles, Fed task tile := fun tile member =>
    course.fed tile (List.mem_append_left _ member)
  have shaped : ∀ tile ∈ tiles, ∀ x ∈ tile, x.arrayShapeCfg = task.arrayShapeCfg :=
    fun tile member x inside =>
      course.shaped x (List.mem_append_left _ (List.mem_flatten.mpr ⟨tile,member,inside⟩))
  clear course
  induction tiles generalizing r with
  | nil => exact .nil
  | cons tile tiles ih =>
    have pairs : tile ≠ [] := by
      intro empty
      have positive := valid.computes
      rw [← whole tile (by simp),empty] at positive
      contradiction
    exact .cons (tile_product shape takes pairs (fed tile (by simp)) (shaped tile (by simp)))
      (ih (fun t member => whole t (by simp [member])) (fun t member => fed t (by simp [member]))
        fun t member => shaped t (by simp [member]))

end Law

theorem pair_positiveC : 0 < 16 := Nat.succ_pos 15

theorem pair_wholeC (_ : 16 < 32) : 32 % 16 = 0 := rfl

theorem pair_factors : ∀ t ∈ [SpatialArray.pairType], ∀ dim ∈ t.arrayDim,
    chunksOf t.outputTypeD.width 16 dim ≤ 32 / 16 := by
  intro t type dim listed
  obtain rfl := List.mem_singleton.mp type
  obtain rfl : dim = ⟨1,2,2⟩ := List.mem_singleton.mp listed
  exact Nat.le_refl 2

theorem pair_factorsC : ∀ t ∈ [SpatialArray.pairType], ∀ dim ∈ t.arrayDim,
    chunksOf t.inputTypeC.width 16 dim ≤ 32 / 16 := by
  intro t type dim listed
  obtain rfl := List.mem_singleton.mp type
  obtain rfl : dim = ⟨1,2,2⟩ := List.mem_singleton.mp listed
  exact Nat.le_refl 2

theorem pair_divisible : ∀ t ∈ [SpatialArray.pairType], ∀ dim ∈ t.arrayDim,
    16 < dim.mu * dim.nu * t.outputTypeD.width → dim.mu * dim.nu * t.outputTypeD.width % 16 = 0 := by
  intro t type dim listed _
  obtain rfl := List.mem_singleton.mp type
  obtain rfl : dim = ⟨1,2,2⟩ := List.mem_singleton.mp listed
  rfl

/-- The array of the row and the two columns, with serial ports for the addends and the outputs. -/
def pairCore : VersaCoreParam where
  array := SpatialArray.pairArray
  serialInputCDataWidth := 16
  serialOutputDDataWidth := 16
  adderTreeDelay := 1
  positiveA := pair_positiveC
  positiveB := Nat.succ_pos 31
  positiveC := pair_positiveC
  positiveD := pair_positiveC
  sameSerial := rfl
  sameArray := rfl
  wideC := Nat.le_of_ble_eq_true rfl
  wideD := Nat.le_of_ble_eq_true rfl
  wholeC := pair_wholeC
  wholeD := pair_wholeC
  factorsC := pair_factorsC
  factorsD := pair_factors
  divisible := pair_divisible

/-- One pair, with an addend. -/
def pairTask : VersaCoreCfg := ⟨1,1,1,0,0⟩

/-- The operands with the configuration, the chunks of the addend, and three cycles to the last output. -/
def pairStream : List (Input pairCore) :=
  [⟨none,none,none,some 5,true⟩,⟨none,none,none,some 7,true⟩,⟨none,none,none,none,true⟩,
    ⟨none,none,none,none,true⟩,⟨none,none,none,none,true⟩]

def pairFirst : Input pairCore := ⟨some pairTask,some 0xFF02,some 0x04030201,none,true⟩

theorem pair_valid : Valid pairCore pairTask := ⟨by decide,by decide,.inr rfl,by decide⟩

example : deliveredD ((versaCore pairCore).outs (reset pairCore) (pairFirst :: pairStream)) = [5,9] := by
  decide +kernel

theorem pair_runs : (versaCore pairCore).Each (fun _ t i => versacoreFinish t i = false)
    (next (reset pairCore) pairFirst) pairStream :=
  .cons rfl (.cons rfl (.cons rfl (.cons rfl (.cons rfl (.nil _)))))

theorem task_law_pair : ∃ tiles part, Course pairCore pairTask
      ((reset pairCore).array (chosen pairCore pairTask)).accumulatorReg
      ((versaCore pairCore).outs (reset pairCore) (pairFirst :: pairStream))
      ((versaCore pairCore).exec (reset pairCore) (pairFirst :: pairStream)) tiles part :=
  let ⟨tiles,part,course,_⟩ := task_law pairCore pairTask pair_valid (reset pairCore)
    (reset_rested pairCore) pairFirst rfl rfl pairStream pair_runs
  ⟨tiles,part,course⟩

end Snax.VersaCore
