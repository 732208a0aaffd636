import Snax.BlockGemm
import Snax.Counter

/-! The law of the block matrix multiplication: what one cycle does for the tile that is being
computed, and from it what every run does. -/
namespace Snax.BlockGemm

open GemmArray Sync.Jobs

variable {p : GemmParams}

/-! ### Histories -/

def configs (history : List (Output p)) : List BlockGemmCtrl := history.filterMap (·.config)

def pairs (history : List (Output p)) : List (WordA p × WordB p) := history.filterMap (·.pair)

def cs (history : List (Output p)) : List (WordC p) := history.filterMap (·.c)

def ds (history : List (Output p)) : List (WordC p) := history.filterMap (·.d)

/-! ### Tasks -/

/-- The number of output tiles of a task. -/
def tiles (task : BlockGemmCtrl) : Nat := task.m.toNat * task.n.toNat

theorem tiles_lt (task : BlockGemmCtrl) : tiles task < 2 ^ 64 :=
  calc tiles task ≤ 2 ^ 32 * task.n.toNat := Nat.mul_le_mul_right _ task.m.isLt.le
    _ < 2 ^ 32 * 2 ^ 32 := Nat.mul_lt_mul_of_pos_left task.n.isLt (by decide)

/-- The operand pairs that the tasks need. -/
def needed : List BlockGemmCtrl → Nat
  | [] => 0
  | task :: tasks => tiles task * task.k.toNat + needed tasks

@[simp] theorem needed_append (tasks more : List BlockGemmCtrl) :
    needed (tasks ++ more) = needed tasks + needed more := by
  induction tasks with
  | nil => simp [needed]
  | cons task tasks ih => simp [needed,ih,Nat.add_assoc]

/-- The operands of one output tile. -/
structure Operands (p : GemmParams) where
  c : WordC p
  pairs : List (WordA p × WordB p)

/-- A pair with the constants of its task. -/
def bundle (task : BlockGemmCtrl) (pair : WordA p × WordB p) : CutBundle p :=
  ⟨pair.1,pair.2,task.subtractionA p,task.subtractionB p⟩

/-- The output tile of a task, from its operands. -/
def work (task : BlockGemmCtrl) (x : Operands p) : WordC p := tile x.c (x.pairs.map (bundle task))

/-! ### Counters -/

theorem k_sub_one {s : State p} (positive : 0 < s.k.toNat) : (s.k - 1).toNat = s.k.toNat - 1 := by
  have one : (1 : BitVec 32) ≤ s.k := BitVec.le_def.mpr positive
  rw [BitVec.toNat_sub_of_le one]
  rfl

theorem nextModK_toNat {s : State p} (working : s.busy = true) {value : BitVec 32}
    (below : value.toNat < s.k.toNat) (fire : Bool) :
    (nextModK s fire value).toNat = if fire then (value.toNat + 1) % s.k.toNat else value.toNat := by
  have bound := s.k.isLt
  have less := k_sub_one (Nat.zero_lt_of_lt below)
  by_cases one : s.k = 1
  · have single : s.k.toNat = 1 := by simp [one]
    have zero : value.toNat = 0 := by omega
    simp [nextModK,one,zero]
  · have several : (s.k == 1) = false := beq_false_of_ne one
    cases fire with
    | false => simp only [nextModK,several,working,Bool.false_and,Bool.not_true,Bool.false_eq_true,↓reduceIte]
    | true =>
      by_cases last : value.toNat + 1 = s.k.toNat
      · have wraps : value = s.k - 1 := BitVec.eq_of_toNat_eq (by omega)
        have same : (value == s.k - 1) = true := beq_iff_eq.mpr wraps
        simp only [nextModK,several,working,bne,same,Bool.not_true,Bool.and_false,Bool.and_true,
          Bool.false_eq_true,↓reduceIte,last,Nat.mod_self]
        rfl
      · have more : value.toNat + 1 < s.k.toNat := by omega
        have other : (value == s.k - 1) = false :=
          beq_false_of_ne fun same => last (by rw [same,less]; omega)
        simp only [nextModK,several,working,bne,other,Bool.not_false,Bool.and_true,Bool.false_eq_true,
          ↓reduceIte,Nat.mod_eq_of_lt more]
        exact BasicCounter.toNat_add_one value below bound

theorem nextModK_idle {s : State p} (resting : s.busy = false) (fire : Bool) (value : BitVec 32) :
    nextModK s fire value = 0 := by
  simp [nextModK,resting]

/-! ### The tile that is being computed -/

/-- The mesh is at work on a tile: `part` are the pairs it has computed, `current` the word on the
C port that came with the first of them. The counters tell how many pairs are computed and how
many of their results are grabbed. -/
structure AtTile (s : State p) (current : WordC p) (part : List (CutBundle p)) : Prop where
  size : part.length ≤ s.k.toNat
  computed : s.computeFireCounter.toNat = part.length % s.k.toNat
  grabbed : s.dOutputIfvalidCounter.toNat + (GemmArray.dValid s.array).toNat = part.length
  full : part.length = s.k.toNat → part ≠ [] → GemmArray.dValid s.array = true
  kept : s.array.keepOutput = true → part.length = s.k.toNat ∧ part ≠ []
  register : part ≠ [] → s.array.accumulationReg = part.foldl accumulate (loadC current)

section AtTile

variable {s : State p} {current : WordC p} {part : List (CutBundle p)}

/-- The port shows the result of the last pair of a tile. -/
theorem AtTile.port_valid (tile : AtTile s current part) (working : s.busy = true)
    (positive : 0 < s.k.toNat) : dValid s = true ↔ part.length = s.k.toNat := by
  have grabbed := tile.grabbed
  have full := tile.full
  have less := k_sub_one positive
  by_cases one : s.k = 1
  · have single : s.k.toNat = 1 := by simp [one]
    have size := tile.size
    cases valid : GemmArray.dValid s.array with
    | true =>
      rw [valid,Bool.toNat_true] at grabbed
      have : part.length = 1 := by omega
      simp [dValid,one,valid,working,this]
    | false =>
      have short : ¬ part.length = s.k.toNat := fun same => by
        have some : part ≠ [] := fun none => by simp [none] at same; omega
        simp [full same some] at valid
      simp [dValid,one,valid]
      omega
  · have several : (s.k == 1) = false := beq_false_of_ne one
    simp only [dValid,several,working,Bool.and_true,Bool.false_eq_true,↓reduceIte,Bool.and_eq_true,
      beq_iff_eq]
    constructor
    · rintro ⟨last,valid⟩
      rw [valid,last,less,Bool.toNat_true] at grabbed
      omega
    · intro same
      have valid := full same fun none => by simp [none] at same; omega
      rw [valid,Bool.toNat_true] at grabbed
      exact ⟨BitVec.eq_of_toNat_eq (by omega),valid⟩

/-- A stalled result: the mesh stands still. -/
theorem AtTile.stalled (tile : AtTile s current part) (working : s.busy = true)
    (positive : 0 < s.k.toNat) {i : Input p} (whole : part.length = s.k.toNat)
    (stall : i.dReady = false) :
    dFire s i = none ∧ computeFire s i = false ∧ cFire s i = none ∧ AtTile (next s i) current part := by
  have port := (tile.port_valid working positive).mpr whole
  have some : part ≠ [] := fun none => by simp [none] at whole; omega
  have valid := tile.full whole some
  have unready : arrayDReady s i = false := by simp [arrayDReady,port,stall]
  have closed : abcReady s i = false := by simp [abcReady,GemmArray.abcReady,valid,unready]
  have still : computeFire s i = false := by simp [computeFire,closed]
  have below : s.computeFireCounter.toNat < s.k.toNat := tile.computed ▸ Nat.mod_lt _ positive
  have grabbed := tile.grabbed
  rw [valid,Bool.toNat_true] at grabbed
  have quiet : gemmOutputFire s i = false := by simp [gemmOutputFire,unready]
  have registers : (next s i).array = ⟨s.array.accumulationReg,false,true⟩ := by
    change GemmArray.next s.array _ _ _ _ (arrayDReady s i) = _
    rw [GemmArray.next,show GemmArray.abcReady s.array (arrayDReady s i) = false from closed,valid,unready]
    simp
  have k : (next s i).k = s.k := by simp [next,configValid,working]
  refine ⟨by simp [dFire,stall],still,by simp [cFire,addCFire,closed],?_⟩
  refine ⟨by rw [k]; exact tile.size,?_,?_,fun _ _ => by simp [registers,GemmArray.dValid],
    fun _ => ⟨by rw [k,whole],some⟩,fun _ => by rw [registers]; exact tile.register some⟩
  · change (nextModK s (computeFire s i) s.computeFireCounter).toNat = _
    rw [still,nextModK_toNat working below,if_neg Bool.false_ne_true,k]
    exact tile.computed
  · change (nextModK s (gemmOutputFire s i) s.dOutputIfvalidCounter).toNat + _ = _
    rw [quiet,nextModK_toNat working (by omega),if_neg Bool.false_ne_true,registers]
    exact grabbed

theorem out_of_valid {i : Input p} (valid : aBDataValid s i = true) : s.cut.out.isSome = true := by
  unfold aBDataValid at valid
  split at valid <;> simp_all

/-- The cut gives up the pair that is computed. -/
theorem given_isSome (working : s.busy = true) (i : Input p) :
    (s.cut.given (cutReady s i)).isSome = computeFire s i := by
  cases fires : computeFire s i with
  | false => simp [DataCut.given,cutReady,fires]
  | true =>
    have present := out_of_valid (Bool.and_eq_true_iff.mp fires).2
    simpa [DataCut.given,cutReady,working,fires] using present

/-- A word on the C port is taken with the first pair of a tile. -/
theorem cFire_eq (working : s.busy = true) (i : Input p) :
    cFire s i = if s.computeFireCounter == 0 && computeFire s i then i.c else none := by
  rw [cFire,addCFire,addC,computeFire,working]
  generalize (s.computeFireCounter == 0) = first
  cases first <;> cases abcReady s i <;> cases aBDataValid s i <;> cases i.c <;> rfl

/-- Where the results are grabbed, the next one is that of the pair computed now. -/
theorem dValid_next (working : s.busy = true) {i : Input p} (ready : arrayDReady s i = true) :
    GemmArray.dValid (next s i).array = computeFire s i := by
  have kept' : (next s i).array.keepOutput = false := by simp [next,GemmArray.next,ready]
  rw [GemmArray.dValid,kept',Bool.or_false]
  simp [next,GemmArray.next,computeFire,abcReady,ready,working,Bool.and_comm]

/-- What is left of a tile once it is handed out. -/
def leftOver (s : State p) (part : List (CutBundle p)) : List (CutBundle p) :=
  if part.length = s.k.toNat then [] else part

theorem leftOver_eq (some : leftOver s part ≠ []) : leftOver s part = part := by
  unfold leftOver at some ⊢
  split at some
  · exact absurd rfl some
  · rw [if_neg (by assumption)]

theorem AtTile.leftOver_length (tile : AtTile s current part) (positive : 0 < s.k.toNat) :
    (leftOver s part).length = part.length % s.k.toNat ∧ (leftOver s part).length < s.k.toNat := by
  have size := tile.size
  unfold leftOver
  split
  · rename_i whole
    rw [whole,Nat.mod_self]
    exact ⟨rfl,positive⟩
  · rw [Nat.mod_eq_of_lt (by omega)]
    exact ⟨rfl,by omega⟩

theorem AtTile.counter_zero (tile : AtTile s current part) (positive : 0 < s.k.toNat) :
    s.computeFireCounter = 0 ↔ leftOver s part = [] := by
  rw [← List.length_eq_zero_iff,(tile.leftOver_length positive).1,← tile.computed,BitVec.toNat_eq]
  rfl

/-- The results that are grabbed in a cycle in which the mesh is ready. -/
theorem AtTile.grabbed_next (tile : AtTile s current part) (working : s.busy = true)
    (positive : 0 < s.k.toNat) :
    (nextModK s (GemmArray.dValid s.array) s.dOutputIfvalidCounter).toNat = (leftOver s part).length := by
  have grabbed := tile.grabbed
  have size := tile.size
  rw [(tile.leftOver_length positive).1]
  cases valid : GemmArray.dValid s.array with
  | true =>
    rw [valid,Bool.toNat_true] at grabbed
    rw [nextModK_toNat working (by omega),if_pos rfl,grabbed]
  | false =>
    rw [valid,Bool.toNat_false,Nat.add_zero] at grabbed
    have short : part.length ≠ s.k.toNat := fun whole => by
      have some : part ≠ [] := fun none => by simp [none] at whole; omega
      simp [tile.full whole some] at valid
    rw [nextModK_toNat working (by omega),if_neg Bool.false_ne_true,grabbed,Nat.mod_eq_of_lt (by omega)]

/-- The word on the C port that the pairs after this cycle were started with. -/
def startedWith (s : State p) (i : Input p) (part : List (CutBundle p)) (current : WordC p) : WordC p :=
  if leftOver s part = [] then i.c.getD fun _ _ => 0 else current

/-- A mesh that is not stalled hands out what is complete and computes the pair at the cut. -/
theorem AtTile.flowing (tile : AtTile s current part) (working : s.busy = true)
    (positive : 0 < s.k.toNat) {i : Input p}
    (open' : part.length = s.k.toNat → i.dReady = true) :
    AtTile (next s i) (startedWith s i part current)
        (leftOver s part ++ (s.cut.given (cutReady s i)).toList) ∧
      dFire s i = (if part.length = s.k.toNat then some (dataOut s.array.accumulationReg) else none) ∧
      cFire s i = (if leftOver s part = [] then
        (s.cut.given (cutReady s i)).map fun _ => startedWith s i part current else none) := by
  obtain ⟨rest,below⟩ := tile.leftOver_length positive
  have port := tile.port_valid working positive
  have ready : arrayDReady s i = true := by
    cases valid : dValid s with
    | false => simp [arrayDReady,valid]
    | true => simp [arrayDReady,valid,open' (port.mp valid)]
  have handed : dFire s i =
      (if part.length = s.k.toNat then some (dataOut s.array.accumulationReg) else none) := by
    by_cases whole : part.length = s.k.toNat
    · simp [dFire,port.mpr whole,open' whole,whole]
    · have quiet : dValid s = false := by simpa using mt port.mp whole
      simp [dFire,quiet,whole]
  have fires : computeFire s i = (GemmArray.abcReady s.array true && aBDataValid s i) := by
    simp [computeFire,abcReady,ready,working]
  have k : (next s i).k = s.k := by simp [next,configValid,working]
  have kept' : (next s i).array.keepOutput = false := by
    simp [next,GemmArray.next,ready]
  have valid' := dValid_next working ready
  have counted : (next s i).computeFireCounter.toNat =
      ((leftOver s part).length + (computeFire s i).toNat) % s.k.toNat := by
    change (nextModK s (computeFire s i) s.computeFireCounter).toNat = _
    rw [nextModK_toNat working (tile.computed ▸ Nat.mod_lt _ positive),tile.computed,← rest]
    cases computeFire s i with
    | false => simp [Nat.mod_eq_of_lt below]
    | true => rfl
  have grabbed : (next s i).dOutputIfvalidCounter.toNat = (leftOver s part).length := by
    change (nextModK s (gemmOutputFire s i) s.dOutputIfvalidCounter).toNat = _
    rw [gemmOutputFire,ready,Bool.and_true]
    exact tile.grabbed_next working positive
  have zero := tile.counter_zero positive
  cases computes : computeFire s i with
  | false =>
    have silent : s.cut.given (cutReady s i) = none := by simp [DataCut.given,cutReady,computes]
    have still : (next s i).array.accumulationReg = s.array.accumulationReg := by
      have closed : (aBDataValid s i && GemmArray.abcReady s.array true) = false := by
        rw [Bool.and_comm,← fires,computes]
      simp [next,GemmArray.next,ready,closed]
    rw [silent,Option.toList_none,List.append_nil]
    refine ⟨⟨k ▸ below.le,?_,?_,?_,?_,?_⟩,handed,?_⟩
    · rw [counted,computes,k]
      rfl
    · rw [grabbed,valid',computes]
      rfl
    · exact fun whole => absurd (k ▸ whole) (Nat.ne_of_lt below)
    · simp [kept']
    · intro some
      have same := leftOver_eq some
      rw [still,startedWith,if_neg some,same]
      exact tile.register (same ▸ some)
    · rw [cFire_eq working,computes,Bool.and_false,if_neg Bool.false_ne_true,Option.map_none,ite_self]
  | true =>
    obtain ⟨open'',valid⟩ := Bool.and_eq_true_iff.mp (fires.symm.trans computes)
    obtain ⟨x,front⟩ := Option.isSome_iff_exists.mp (out_of_valid valid)
    have left : s.cut.given (cutReady s i) = some x := by
      simp [DataCut.given,cutReady,working,computes,front]
    rw [left,Option.toList_some]
    refine ⟨⟨?_,?_,?_,fun _ _ => valid'.trans computes,fun kept => absurd kept (by simp [kept']),fun _ => ?_⟩,
      handed,?_⟩
    · rw [List.length_append,List.length_singleton,k]
      exact below
    · rw [counted,computes,k,List.length_append]
      rfl
    · rw [grabbed,valid',computes,List.length_append]
      rfl
    · rw [List.foldl_append,List.foldl_cons,List.foldl_nil]
      have mesh : (next s i).array.accumulationReg = if addC s i then
          accumulate (loadC (i.c.getD fun _ _ => 0)) x else accumulate s.array.accumulationReg x := by
        simp [next,GemmArray.next,ready,front,open'',valid]
      by_cases fresh : leftOver s part = []
      · have first : s.computeFireCounter = 0 := zero.mpr fresh
        have word : i.c.isSome = true := by
          simp only [aBDataValid,first,beq_self_eq_true,↓reduceIte,Bool.and_eq_true] at valid
          exact valid.1.2
        have adds : addC s i = true := by simp [addC,first,working,word,valid]
        rw [mesh,adds,startedWith,fresh]
        rfl
      · have later : (s.computeFireCounter == 0) = false := beq_false_of_ne (mt zero.mp fresh)
        have adds : addC s i = false := by rw [addC,later,Bool.false_and,Bool.false_and,Bool.false_and]
        have same := leftOver_eq fresh
        rw [mesh,adds,startedWith,if_neg fresh,same,← tile.register (same ▸ fresh)]
        rfl
    · rw [cFire_eq working,computes,Bool.and_true]
      by_cases fresh : leftOver s part = []
      · have first : s.computeFireCounter = 0 := zero.mpr fresh
        have word : i.c.isSome = true := by
          simp only [aBDataValid,first,beq_self_eq_true,↓reduceIte,Bool.and_eq_true] at valid
          exact valid.1.2
        obtain ⟨c,taken⟩ := Option.isSome_iff_exists.mp word
        simp [first,fresh,startedWith,taken]
      · have later : (s.computeFireCounter == 0) = false := beq_false_of_ne (mt zero.mp fresh)
        rw [later,if_neg Bool.false_ne_true,if_neg fresh]

/-- The words on the C port that are taken for the tile under way. -/
def opened (current : WordC p) (part : List (CutBundle p)) : List (WordC p) :=
  if part = [] then [] else [current]

/-- One cycle of a busy core for the tiles: at most one tile is handed out, at most one pair is
computed. -/
theorem AtTile.cycle (tile : AtTile s current part) (working : s.busy = true)
    (positive : 0 < s.k.toNat) (i : Input p) :
    ∃ current' part' handed, AtTile (next s i) current' part' ∧
      handed.flatMap Operands.pairs ++ part'.map CutBundle.operands =
        (part ++ (s.cut.given (cutReady s i)).toList).map CutBundle.operands ∧
      handed.map Operands.c ++ opened current' part' = opened current part ++ (cFire s i).toList ∧
      (∀ x ∈ part', x ∈ part ∨ x ∈ s.cut.given (cutReady s i)) ∧
      ((dFire s i = none ∧ handed = []) ∨ (part.length = s.k.toNat ∧
        dFire s i = some (GemmArray.tile current part) ∧
        handed = [⟨current,part.map CutBundle.operands⟩])) := by
  by_cases stall : part.length = s.k.toNat ∧ i.dReady = false
  · obtain ⟨silent,still,closed,same⟩ := tile.stalled working positive stall.1 stall.2
    have nothing : s.cut.given (cutReady s i) = none := by simp [DataCut.given,cutReady,still]
    refine ⟨current,part,[],same,by simp [nothing],by simp [closed],fun x member => .inl member,
      .inl ⟨silent,rfl⟩⟩
  · have open' : part.length = s.k.toNat → i.dReady = true := fun whole => by
      simpa [whole] using stall
    obtain ⟨after,out,word⟩ := tile.flowing working positive open'
    have nonzero : ¬ 0 = s.k.toNat := by omega
    have filled (whole : part.length = s.k.toNat) : part ≠ [] := fun vacant => by
      simp [vacant] at whole
      omega
    refine ⟨_,_,if part.length = s.k.toNat then [⟨current,part.map CutBundle.operands⟩] else [],
      after,?_,?_,?_,?_⟩
    · by_cases whole : part.length = s.k.toNat <;> simp [leftOver,whole]
    · rw [word]
      cases left : s.cut.given (cutReady s i) with
      | none =>
        by_cases whole : part.length = s.k.toNat
        · simp [leftOver,whole,opened,filled whole]
        · by_cases vacant : part = [] <;> simp [leftOver,whole,opened,vacant,startedWith,nonzero]
      | some x =>
        by_cases whole : part.length = s.k.toNat
        · simp [leftOver,whole,opened,filled whole,startedWith]
        · by_cases vacant : part = [] <;> simp [leftOver,whole,opened,vacant,startedWith,nonzero]
    · intro x member
      rcases List.mem_append.mp member with old | new
      · by_cases whole : part.length = s.k.toNat
        · simp [leftOver,whole] at old
        · exact .inl (by simpa [leftOver,whole] using old)
      · exact .inr (Option.mem_toList.mp new)
    · by_cases whole : part.length = s.k.toNat
      · refine .inr ⟨whole,?_,if_pos whole⟩
        rw [out,if_pos whole,tile.register (filled whole),dataOut_foldl]
      · exact .inl ⟨by rw [out,if_neg whole],if_neg whole⟩

end AtTile

/-! ### Runs -/

/-- The registers hold the configuration of a task. -/
structure Runs (s : State p) (task : BlockGemmCtrl) : Prop where
  m : s.m = task.m
  n : s.n = task.n
  k : s.k = task.k
  subtractionA : s.subtractionA = task.subtractionA p
  subtractionB : s.subtractionB = task.subtractionB p

/-- The task under way: how many of its tiles are handed out, and the pairs they took. -/
structure AtTask (s : State p) (tasks : List BlockGemmCtrl) (items : List (Operands p)) : Prop where
  split : ∃ earlier task, tasks = earlier ++ [task] ∧ Runs s task ∧
    items.length = (schedule tiles earlier).length + s.dOutputCounter.toNat ∧
    s.dOutputCounter.toNat < tiles task ∧
    (items.flatMap Operands.pairs).length = needed earlier + s.dOutputCounter.toNat * task.k.toNat
  positive : 0 < s.k.toNat

/-- Between tasks everything taken is handed out. -/
structure Drained (s : State p) (tasks : List BlockGemmCtrl) (items : List (Operands p))
    (part : List (CutBundle p)) : Prop where
  vacant : part = []
  hollow : s.cut.contents = []
  all : items.length = (schedule tiles tasks).length
  spent : (items.flatMap Operands.pairs).length = needed tasks

structure Sound (history : List (Output p)) (s : State p) (items : List (Operands p))
    (current : WordC p) (part : List (CutBundle p)) : Prop where
  tile : AtTile s current part
  outputs : ds history = results tiles work (configs history) items
  count : (ds history).length = items.length
  sizes : ∀ (n : Nat) (item : Operands p) (task : BlockGemmCtrl), items[n]? = some item →
    (schedule tiles (configs history))[n]? = some task → item.pairs.length = task.k.toNat
  stream : pairs history =
    items.flatMap Operands.pairs ++ (part ++ s.cut.contents).map CutBundle.operands
  words : cs history = items.map Operands.c ++ opened current part
  constants : ∀ x ∈ part ++ s.cut.contents, x.c = s.subtractionA ∧ x.d = s.subtractionB
  bounded : (pairs history).length ≤ needed (configs history)
  idle : s.busy = false → Drained s (configs history) items part
  busy : s.busy = true → AtTask s (configs history) items

/-- What the environment keeps to: the bounds of a task are not zero, and a pair is offered for
the tasks accepted only. -/
@[mk_iff]
structure Proper (history : List (Output p)) (s : State p) (i : Input p) : Prop where
  config : configValid s i = true → 0 < i.ctrl.m.toNat ∧ 0 < i.ctrl.n.toNat ∧ 0 < i.ctrl.k.toNat
  operands : (pair s i).isSome = true → (pairs history).length < needed (configs history)

instance (history : List (Output p)) (s : State p) (i : Input p) : Decidable (Proper history s i) :=
  decidable_of_iff' _ (proper_iff history s i)

theorem configs_snoc (history : List (Output p)) (s : State p) (i : Input p) :
    configs (history ++ [out s i]) = configs history ++ if configValid s i then [i.ctrl] else [] := by
  rw [configs,List.filterMap_append]
  cases h : configValid s i <;> simp [configs,out,h]

theorem pairs_snoc (history : List (Output p)) (s : State p) (i : Input p) :
    pairs (history ++ [out s i]) = pairs history ++ (pair s i).toList := by
  rw [pairs,List.filterMap_append]
  cases h : pair s i <;> simp [pairs,out,h]

theorem cs_snoc (history : List (Output p)) (s : State p) (i : Input p) :
    cs (history ++ [out s i]) = cs history ++ (cFire s i).toList := by
  rw [cs,List.filterMap_append]
  cases h : cFire s i <;> simp [cs,out,h]

theorem ds_snoc (history : List (Output p)) (s : State p) (i : Input p) :
    ds (history ++ [out s i]) = ds history ++ (dFire s i).toList := by
  rw [ds,List.filterMap_append]
  cases h : dFire s i <;> simp [ds,out,h]

section Runs

variable {history : List (Output p)} {s : State p} {i : Input p} {items : List (Operands p)}
  {current : WordC p} {part : List (CutBundle p)}

theorem nothing_in (resting : s.busy = false) (i : Input p) : combinedABIn s i = none := by
  unfold combinedABIn
  split
  · simp [resting]
  · rfl

theorem nonzero_bounds {task : BlockGemmCtrl}
    (bounds : 0 < task.m.toNat ∧ 0 < task.n.toNat ∧ 0 < task.k.toNat) : task.zeroLoopBoundCase = false := by
  obtain ⟨m,_,k⟩ := bounds
  have m' : task.m ≠ 0 := fun zero => by simp [zero] at m
  have k' : task.k ≠ 0 := fun zero => by simp [zero] at k
  simp only [BlockGemmCtrl.zeroLoopBoundCase,beq_false_of_ne m',beq_false_of_ne k',Bool.or_false]

/-- An idle core takes a configuration and nothing else. -/
theorem Sound.next_idle (sound : Sound history s items current part) (proper : Proper history s i)
    (resting : s.busy = false) : Sound (history ++ [out s i]) (next s i) items current part := by
  obtain ⟨vacant,hollow,all,spent⟩ := sound.idle resting
  subst vacant
  have nothing := nothing_in resting i
  have quiet : pair s i = none := by simp [pair,nothing,DataCut.taken]
  have closed : cFire s i = none := by simp [cFire,resting]
  have unready : cutReady s i = false := by simp [cutReady,resting]
  have silent : dFire s i = none := by simp [dFire,dValid,resting]
  have grabbed := sound.tile.grabbed
  have invalid : GemmArray.dValid s.array = false := by
    cases h : GemmArray.dValid s.array
    · rfl
    · simp [h] at grabbed
  have lacking : aBDataValid s i = false := by simp [aBDataValid,resting]
  have kept' : (next s i).array.keepOutput = false := by simp [next,GemmArray.next,invalid]
  have invalid' : GemmArray.dValid (next s i).array = false := by
    simp [GemmArray.dValid,kept']
    simp [next,GemmArray.next,lacking]
  have conserves := s.cut.next_conserves (combinedABIn s i) (cutReady s i)
  have hollow' : (next s i).cut.contents = [] := by
    rw [nothing,unready,hollow] at conserves
    simpa [DataCut.given,DataCut.taken,next,nothing,unready] using conserves
  have zero : (next s i).computeFireCounter = 0 := nextModK_idle resting _ _
  have zero' : (next s i).dOutputIfvalidCounter = 0 := nextModK_idle resting _ _
  have tasks : configs (history ++ [out s i]) = _ := configs_snoc history s i
  refine ⟨⟨Nat.zero_le _,?_,?_,fun _ some => absurd rfl some,by simp [kept'],fun some => absurd rfl some⟩,
    ?_,?_,?_,?_,?_,?_,?_,fun resting' => ?_,fun working => ?_⟩
  · simp [zero]
  · simp [zero',invalid']
  · rw [ds_snoc,silent,tasks,Option.toList_none,List.append_nil,results_more all.le]
    exact sound.outputs
  · rw [ds_snoc,silent,Option.toList_none,List.append_nil]
    exact sound.count
  · intro n item task atIndex turn
    refine sound.sizes n item task atIndex ?_
    obtain ⟨inside,_⟩ := List.getElem?_eq_some_iff.mp atIndex
    rw [tasks,schedule_append,List.getElem?_append_left (all ▸ inside)] at turn
    exact turn
  · rw [pairs_snoc,quiet,Option.toList_none,List.append_nil,hollow',sound.stream,hollow]
  · rw [cs_snoc,closed,Option.toList_none,List.append_nil]
    exact sound.words
  · simp [hollow']
  · rw [pairs_snoc,quiet,Option.toList_none,List.append_nil,tasks,needed_append]
    exact Nat.le_add_right_of_le sound.bounded
  · have refused : configValid s i = false := by
      by_contra taken
      have bounds := proper.config (by simpa using taken)
      simp [next,resting,nonzero_bounds bounds,taken] at resting'
    rw [tasks,refused,if_neg Bool.false_ne_true,List.append_nil]
    exact ⟨rfl,hollow',all,spent⟩
  · have taken : configValid s i = true ∧ i.ctrl.zeroLoopBoundCase = false := by
      simpa [next,resting] using working
    obtain ⟨m,n,k⟩ := proper.config taken.1
    have fresh : (next s i).dOutputCounter = 0 := by simp [next,silent,resting]
    have same : (next s i).k = i.ctrl.k := by simp [next,taken]
    rw [tasks,taken.1,if_pos rfl]
    refine ⟨⟨configs history,i.ctrl,rfl,?_,?_,?_,?_⟩,same ▸ k⟩
    · constructor <;> simp [next,taken]
    · simpa [fresh] using all
    · rw [fresh]
      exact Nat.mul_pos m n
    · simpa [fresh] using spent

/-- What is in the cut or enters it has the constants of the task. -/
theorem Sound.entering (sound : Sound history s items current part) (working : s.busy = true)
    {x : CutBundle p}
    (inside : x ∈ s.cut.contents ++ (s.cut.taken (combinedABIn s i) (cutReady s i)).toList) :
    x.c = s.subtractionA ∧ x.d = s.subtractionB := by
  rcases List.mem_append.mp inside with old | new
  · exact sound.constants x (List.mem_append_right _ old)
  · have offered : combinedABIn s i = some x := by
      have taken := Option.mem_toList.mp new
      unfold DataCut.taken at taken
      split at taken
      · exact taken
      · exact absurd taken (by simp)
    unfold combinedABIn at offered
    split at offered
    · rw [working,if_pos rfl] at offered
      obtain rfl := Option.some.inj offered
      exact ⟨rfl,rfl⟩
    · exact absurd offered (by simp)

/-- The comparison with `M * N - 1` is met by the last output. -/
theorem computationFinish_iff_last (working : s.busy = true) (out : (dFire s i).isSome = true)
    (below : s.dOutputCounter.toNat < s.m.toNat * s.n.toNat) :
    computationFinish s i = true ↔ s.dOutputCounter.toNat + 1 = s.m.toNat * s.n.toNat := by
  have fits : s.m.toNat * s.n.toNat < 2 ^ 64 := tiles_lt ⟨s.k,s.n,s.m,0⟩
  have product : (s.m.setWidth 64 * s.n.setWidth 64).toNat = s.m.toNat * s.n.toNat := by
    rw [BitVec.toNat_mul,BitVec.toNat_setWidth_of_le (by decide),
      BitVec.toNat_setWidth_of_le (by decide)]
    exact Nat.mod_eq_of_lt fits
  have one : (1 : BitVec 64) ≤ s.m.setWidth 64 * s.n.setWidth 64 := by
    refine BitVec.le_def.mpr ?_
    rw [product]
    exact Nat.one_le_of_lt below
  have last : (s.m.setWidth 64 * s.n.setWidth 64 - 1).toNat = s.m.toNat * s.n.toNat - 1 := by
    rw [BitVec.toNat_sub_of_le one,product]
    rfl
  simp only [computationFinish,out,working,Bool.and_true,beq_iff_eq]
  rw [BitVec.toNat_eq,last]
  omega

/-- The last tile of a task finishes it. -/
theorem computationFinish_iff {task : BlockGemmCtrl} (runs : Runs s task) (working : s.busy = true)
    (out : (dFire s i).isSome = true) (below : s.dOutputCounter.toNat < tiles task) :
    computationFinish s i = true ↔ s.dOutputCounter.toNat + 1 = tiles task := by
  have count : s.m.toNat * s.n.toNat = tiles task := by rw [tiles,runs.m,runs.n]
  rw [← count] at below ⊢
  exact computationFinish_iff_last working out below

/-- The tile that the mesh has computed is that of the task. -/
theorem Sound.tile_eq (sound : Sound history s items current part) {task : BlockGemmCtrl}
    (runs : Runs s task) :
    GemmArray.tile current part = work task ⟨current,part.map CutBundle.operands⟩ := by
  have same : (part.map CutBundle.operands).map (bundle task) = part := by
    rw [List.map_map]
    refine (List.map_congr_left fun x member => ?_).trans (List.map_id part)
    obtain ⟨c,d⟩ := sound.constants x (List.mem_append_left _ member)
    rw [runs.subtractionA] at c
    rw [runs.subtractionB] at d
    change (⟨x.a,x.b,task.subtractionA p,task.subtractionB p⟩ : CutBundle p) = x
    rw [← c,← d]
  rw [work,same]

/-- A busy core: at most one tile is handed out, one pair computed and one pair taken. -/
theorem Sound.next_busy (sound : Sound history s items current part) (proper : Proper history s i)
    (working : s.busy = true) :
    ∃ items' current' part', Sound (history ++ [out s i]) (next s i) items' current' part' := by
  obtain ⟨⟨earlier,task,split,runs,spread,below,spent⟩,positive⟩ := sound.busy working
  obtain ⟨current',part',handed,tile',grouped,words',origin,handing⟩ := sound.tile.cycle working positive i
  have refused : configValid s i = false := by simp [configValid,working]
  have tasks : configs (history ++ [out s i]) = configs history := by
    rw [configs_snoc,refused,if_neg Bool.false_ne_true,List.append_nil]
  have conserves := s.cut.next_conserves (combinedABIn s i) (cutReady s i)
  have turn : (schedule tiles (configs history))[items.length]? = some task := by
    rw [split,spread]
    exact schedule_last below
  have runs' : Runs (next s i) task := by
    constructor <;> simp [next,refused,runs.m,runs.n,runs.k,runs.subtractionA,runs.subtractionB]
  have stream' : pairs (history ++ [out s i]) = (items ++ handed).flatMap Operands.pairs ++
      (part' ++ (next s i).cut.contents).map CutBundle.operands := by
    have taken : (pair s i).toList =
        ((s.cut.taken (combinedABIn s i) (cutReady s i)).toList).map CutBundle.operands := by
      rw [pair]
      cases s.cut.taken (combinedABIn s i) (cutReady s i) <;> rfl
    calc pairs (history ++ [out s i])
        = items.flatMap Operands.pairs ++ (part ++ (s.cut.contents ++
            (s.cut.taken (combinedABIn s i) (cutReady s i)).toList)).map CutBundle.operands := by
          rw [pairs_snoc,sound.stream,taken]
          simp
      _ = items.flatMap Operands.pairs ++ ((part ++ (s.cut.given (cutReady s i)).toList).map
            CutBundle.operands ++ (next s i).cut.contents.map CutBundle.operands) := by
          rw [← conserves]
          simp [next]
      _ = _ := by
          rw [← grouped]
          simp
  have constants' : ∀ x ∈ part' ++ (next s i).cut.contents,
      x.c = (next s i).subtractionA ∧ x.d = (next s i).subtractionB := by
    have fixed (x : CutBundle p) (known : x.c = s.subtractionA ∧ x.d = s.subtractionB) :
        x.c = (next s i).subtractionA ∧ x.d = (next s i).subtractionB := by
      simpa [next,refused] using known
    intro x member
    refine fixed x ?_
    rcases List.mem_append.mp member with computed | waiting
    · rcases origin x computed with old | left
      · exact sound.constants x (List.mem_append_left _ old)
      · have inside : x ∈ s.cut.contents ++ (s.cut.taken (combinedABIn s i) (cutReady s i)).toList := by
          rw [← conserves]
          exact List.mem_append_left _ (Option.mem_toList.mpr left)
        exact sound.entering working inside
    · have inside : x ∈ s.cut.contents ++ (s.cut.taken (combinedABIn s i) (cutReady s i)).toList := by
        rw [← conserves]
        exact List.mem_append_right _ waiting
      exact sound.entering working inside
  have bounded' : (pairs (history ++ [out s i])).length ≤ needed (configs (history ++ [out s i])) := by
    rw [tasks,pairs_snoc,List.length_append,length_toList]
    cases taken : (pair s i).isSome with
    | false => simpa using sound.bounded
    | true => exact proper.operands taken
  have words'' : cs (history ++ [out s i]) = (items ++ handed).map Operands.c ++ opened current' part' := by
    rw [cs_snoc,sound.words,List.append_assoc,← words',List.map_append,List.append_assoc]
  refine ⟨items ++ handed,current',part',?_⟩
  rcases handing with ⟨silent,rfl⟩ | ⟨whole,out',rfl⟩
  · have finish : computationFinish s i = false := by simp [computationFinish,silent]
    have busy' : (next s i).busy = true := by simp [next,working,finish]
    have count' : (next s i).dOutputCounter = s.dOutputCounter := by simp [next,silent,working]
    rw [List.append_nil] at stream' words'' ⊢
    refine ⟨tile',?_,?_,?_,stream',words'',constants',bounded',fun resting => ?_,fun _ => ⟨?_,?_⟩⟩
    · rw [ds_snoc,silent,tasks]
      simpa using sound.outputs
    · rw [ds_snoc,silent]
      simpa using sound.count
    · rw [tasks]
      exact sound.sizes
    · rw [busy'] at resting
      exact absurd resting (by decide)
    · rw [tasks,count']
      exact ⟨earlier,task,split,runs',spread,below,spent⟩
    · rw [runs'.k,← runs.k]
      exact positive
  · have k : task.k.toNat = part.length := by rw [whole,runs.k]
    have count' : (next s i).dOutputCounter.toNat = s.dOutputCounter.toNat + 1 := by
      have counted : (next s i).dOutputCounter = s.dOutputCounter + 1 := by simp [next,out']
      rw [counted]
      exact BasicCounter.toNat_add_one _ below (tiles_lt task)
    have spent' : ((items ++ [(⟨current,part.map CutBundle.operands⟩ : Operands p)]).flatMap
        Operands.pairs).length = needed earlier + (s.dOutputCounter.toNat + 1) * task.k.toNat := by
      rw [List.flatMap_append,List.length_append,spent,Nat.succ_mul,k]
      simp
      omega
    have finish := computationFinish_iff (i := i) runs working (by rw [out']; rfl) below
    refine ⟨tile',?_,?_,?_,stream',words'',constants',bounded',fun resting => ?_,fun working' => ⟨?_,?_⟩⟩
    · rw [ds_snoc,out',tasks,results_snoc turn,← sound.tile_eq runs,sound.outputs]
      rfl
    · rw [ds_snoc,out',List.length_append,List.length_append,sound.count]
      rfl
    · intro n item task' atIndex turn'
      rw [tasks] at turn'
      rcases Nat.lt_or_ge n items.length with old | new
      · rw [List.getElem?_append_left old] at atIndex
        exact sound.sizes n item task' atIndex turn'
      · rw [List.getElem?_append_right new] at atIndex
        obtain ⟨last,_⟩ := List.getElem?_eq_some_iff.mp atIndex
        obtain rfl : n = items.length := by
          rw [List.length_singleton] at last
          omega
        rw [Nat.sub_self] at atIndex
        obtain rfl := Option.some.inj atIndex
        obtain rfl := Option.some.inj (turn'.symm.trans turn)
        rw [List.length_map,k]
    · have ended : s.dOutputCounter.toNat + 1 = tiles task := by
        refine finish.mp ?_
        simpa [next,working] using resting
      have total : ((items ++ [(⟨current,part.map CutBundle.operands⟩ : Operands p)]).flatMap
          Operands.pairs).length = needed (configs history) := by
        rw [spent',split,needed_append,ended]
        rfl
      have left := congrArg List.length stream'
      rw [List.length_append,total,List.length_map,List.length_append] at left
      rw [tasks] at bounded' ⊢
      refine ⟨List.length_eq_zero_iff.mp (by omega),List.length_eq_zero_iff.mp (by omega),?_,total⟩
      rw [split,length_schedule_snoc,List.length_append,spread,List.length_singleton]
      omega
    · have more : s.dOutputCounter.toNat + 1 ≠ tiles task := by
        refine mt finish.mpr ?_
        simpa [next,working] using working'
      rw [tasks]
      refine ⟨earlier,task,split,runs',?_,by omega,count' ▸ spent'⟩
      rw [count',List.length_append,spread,List.length_singleton,Nat.add_assoc]
    · rw [runs'.k,← runs.k]
      exact positive

end Runs

/-! ### The law -/

/-- The law of the core, for a way to compute a tile from its operands. The operands taken are
those of the tiles handed out, in order, and the first ones of the next tile; each tile has as many
pairs as its task says; between tasks everything is handed out. -/
structure Grouped (compute : BlockGemmCtrl → Operands p → WordC p) (history : List (Output p))
    (busy : Bool) (items : List (Operands p)) : Prop where
  outputs : ds history = results tiles compute (configs history) items
  count : (ds history).length = items.length
  pairs : items.flatMap Operands.pairs <+: pairs history
  cs : items.map Operands.c <+: cs history
  sizes : ∀ (n : Nat) (item : Operands p) (task : BlockGemmCtrl), items[n]? = some item →
    (schedule tiles (configs history))[n]? = some task → item.pairs.length = task.k.toNat
  consumed : (BlockGemm.pairs history).length ≤ needed (configs history)
  complete : busy = false → items.length = (schedule tiles (configs history)).length ∧
    items.flatMap Operands.pairs = BlockGemm.pairs history ∧ items.map Operands.c = BlockGemm.cs history

theorem Sound.grouped {history : List (Output p)} {s : State p} {items : List (Operands p)}
    {current : WordC p} {part : List (CutBundle p)} (sound : Sound history s items current part) :
    Grouped work history s.busy items where
  outputs := sound.outputs
  count := sound.count
  pairs := sound.stream ▸ List.prefix_append _ _
  cs := sound.words ▸ List.prefix_append _ _
  sizes := sound.sizes
  consumed := sound.bounded
  complete resting := by
    obtain ⟨vacant,hollow,all,_⟩ := sound.idle resting
    refine ⟨all,?_,?_⟩
    · rw [sound.stream,vacant,hollow]
      simp
    · rw [sound.words,vacant]
      simp [opened]

/-- Between tasks the counters of the tile are zero, and that of the task is cleared. -/
theorem Sound.counters {history : List (Output p)} {s : State p} {items : List (Operands p)}
    {current : WordC p} {part : List (CutBundle p)} (sound : Sound history s items current part)
    (resting : s.busy = false) : s.computeFireCounter = 0 ∧ s.dOutputIfvalidCounter = 0 ∧
      ∀ i, (next s i).dOutputCounter = 0 := by
  have vacant := (sound.idle resting).vacant
  have computed := sound.tile.computed
  have grabbed := sound.tile.grabbed
  rw [vacant,List.length_nil] at computed grabbed
  refine ⟨BitVec.eq_of_toNat_eq (by simpa using computed),BitVec.eq_of_toNat_eq (by simp; omega),
    fun i => ?_⟩
  have silent : dFire s i = none := by simp [dFire,dValid,resting]
  simp [next,silent,resting]

theorem sound_initial (p : GemmParams) : Sound [] (initial p) [] (fun _ _ => 0) [] where
  tile := ⟨Nat.zero_le _,rfl,rfl,fun _ filled => absurd rfl filled,fun kept => (nomatch kept),
    fun filled => absurd rfl filled⟩
  outputs := rfl
  count := rfl
  sizes _ _ _ none := by simp at none
  stream := by simp [pairs,initial]
  words := rfl
  constants := by simp [initial]
  bounded := Nat.le_refl _
  idle _ := ⟨rfl,by simp [initial],rfl,rfl⟩
  busy working := nomatch working

/-- What holds in every cycle of a proper run. -/
def Good (history : List (Output p)) (s : State p) : Prop :=
  ∃ items current part, Sound history s items current part

theorem good_next {history : List (Output p)} {s : State p} {i : Input p} (good : Good history s)
    (proper : Proper history s i) : Good (history ++ [out s i]) (next s i) := by
  obtain ⟨items,current,part,sound⟩ := good
  cases working : s.busy with
  | false => exact ⟨items,current,part,sound.next_idle proper working⟩
  | true => exact sound.next_busy proper working

/-! ### Returning to idle -/

/-- The receiver is ready, a word is offered on the C port, and pairs as long as some are needed. -/
structure Eager (history : List (Output p)) (i : Input p) : Prop where
  d : i.dReady = true
  c : i.c.isSome = true
  operands : (pairs history).length < needed (configs history) → i.a.isSome = true ∧ i.b.isSome = true

/-- The steps that the pairs of the task still have to make, from the port to the result. -/
def lacking (history : List (Output p)) (s : State p) : Nat :=
  4 * (needed (configs history) - (pairs history).length) + DataCut.travel s.cut.stages +
    s.cut.contents.length + (GemmArray.dValid s.array).toNat

section Eager

variable {history : List (Output p)} {s : State p} {i : Input p} {items : List (Operands p)}
  {current : WordC p} {part : List (CutBundle p)}

/-- A busy core with nothing on its way needs another pair. -/
theorem Sound.needs (sound : Sound history s items current part) (working : s.busy = true)
    (hollow : s.cut.contents = []) (invalid : GemmArray.dValid s.array = false) :
    (pairs history).length < needed (configs history) := by
  obtain ⟨⟨earlier,task,split,runs,spread,below,spent⟩,positive⟩ := sound.busy working
  have short : part.length < task.k.toNat := by
    have size := sound.tile.size
    rw [runs.k] at size
    rcases Nat.lt_or_eq_of_le size with short | whole
    · exact short
    · have filled : part ≠ [] := fun vacant => by
        rw [vacant,List.length_nil,← runs.k] at whole
        omega
      have valid := sound.tile.full (by rw [runs.k]; exact whole) filled
      rw [valid] at invalid
      contradiction
  have taken := congrArg List.length sound.stream
  rw [hollow,List.append_nil,List.length_append,List.length_map,spent] at taken
  have room := Nat.mul_le_mul_right task.k.toNat below
  rw [Nat.succ_mul] at room
  rw [split,needed_append]
  simp only [needed]
  omega

/-- In an eager cycle the task comes to its end, or nearer to it. -/
theorem Sound.eager_progress (sound : Sound history s items current part) (working : s.busy = true)
    (proper : Proper history s i) (eager : Eager history i) :
    lacking (history ++ [out s i]) (next s i) < lacking history s := by
  have ready : arrayDReady s i = true := by simp [arrayDReady,eager.d]
  have valid' := dValid_next working ready
  have tasks : configs (history ++ [out s i]) = configs history := by
    rw [configs_snoc,show configValid s i = false by simp [configValid,working],
      if_neg Bool.false_ne_true,List.append_nil]
  have conserves := congrArg List.length (s.cut.next_conserves (combinedABIn s i) (cutReady s i))
  rw [List.length_append,List.length_append,length_toList,length_toList] at conserves
  have taken : (pairs (history ++ [out s i])).length = (pairs history).length +
      (s.cut.taken (combinedABIn s i) (cutReady s i)).isSome.toNat := by
    rw [pairs_snoc,List.length_append,length_toList,pair,Option.isSome_map]
  have room : (s.cut.taken (combinedABIn s i) (cutReady s i)).isSome.toNat ≤
      needed (configs history) - (pairs history).length := by
    cases takes : (s.cut.taken (combinedABIn s i) (cutReady s i)).isSome with
    | false => exact Nat.zero_le _
    | true =>
      have more := proper.operands (by rw [pair,Option.isSome_map,takes])
      rw [Bool.toNat_true]
      omega
  have left := given_isSome working i
  rw [lacking,lacking,tasks,taken,valid']
  change 4 * _ + DataCut.travel (s.cut.next (combinedABIn s i) (cutReady s i)).stages +
    (s.cut.next (combinedABIn s i) (cutReady s i)).contents.length + _ < _
  cases moving : s.cut.inReady (cutReady s i) with
  | true =>
    have travelled : DataCut.travel (s.cut.next (combinedABIn s i) (cutReady s i)).stages + _ = _ :=
      DataCut.next_travel moving
    have takes : s.cut.taken (combinedABIn s i) (cutReady s i) = combinedABIn s i := if_pos moving
    rw [takes] at conserves room ⊢
    rw [left] at conserves
    have steps : 1 ≤ s.cut.contents.length + (GemmArray.dValid s.array).toNat +
        (combinedABIn s i).isSome.toNat := by
      by_contra still
      have hollow : s.cut.contents = [] := List.length_eq_zero_iff.mp (by omega)
      have invalid : GemmArray.dValid s.array = false := by
        cases h : GemmArray.dValid s.array
        · rfl
        · simp [h] at still
      obtain ⟨a,b⟩ := eager.operands (sound.needs working hollow invalid)
      obtain ⟨a,given⟩ := Option.isSome_iff_exists.mp a
      obtain ⟨b,given'⟩ := Option.isSome_iff_exists.mp b
      simp [combinedABIn,given,given',working] at still
    omega
  | false =>
    have waits : s.cut.out.isSome = true ∧ cutReady s i = false := by
      cases h : s.cut.out <;> simp [DataCut.inReady,h] at moving ⊢
      exact moving
    have still : computeFire s i = false := by simpa [cutReady,working] using waits.2
    have valid : GemmArray.dValid s.array = true := by
      have data : aBDataValid s i = true := by simp [aBDataValid,waits.1,eager.c,working]
      cases kept : s.array.keepOutput with
      | true => simp [GemmArray.dValid,kept]
      | false => simp [computeFire,abcReady,GemmArray.abcReady,kept,ready,working,data] at still
    have closed : s.cut.taken (combinedABIn s i) (cutReady s i) = none := by simp [DataCut.taken,moving]
    rw [DataCut.next_stages_of_closed moving,closed,still,valid]
    rw [closed,left,still] at conserves
    simp only [Option.isSome_none,Bool.toNat_false,Bool.toNat_true] at conserves ⊢
    omega

end Eager

theorem good_run {inputs : List (Input p)} (proper : (blockGemm p).Each Proper (initial p) inputs) :
    Good ((blockGemm p).outs (initial p) inputs) ((blockGemm p).exec (initial p) inputs) :=
  Sync.Machine.run_rule_each Good proper ⟨_,_,_,sound_initial p⟩ fun _ _ _ => good_next

/-- Every proper run keeps the law; between tasks the counters are zero, the one of the task from
the next cycle on; and an eager environment brings a busy core back to idle. -/
theorem block_gemm {inputs : List (Input p)} (proper : (blockGemm p).Each Proper (initial p) inputs) :
    (∃ items, Grouped work ((blockGemm p).outs (initial p) inputs)
      ((blockGemm p).exec (initial p) inputs).busy items) ∧
    (((blockGemm p).exec (initial p) inputs).busy = false →
      ((blockGemm p).exec (initial p) inputs).computeFireCounter = 0 ∧
      ((blockGemm p).exec (initial p) inputs).dOutputIfvalidCounter = 0 ∧
      ∀ i, ((blockGemm p).exec (initial p) (inputs ++ [i])).dOutputCounter = 0) ∧
    ∀ rest, (blockGemm p).Each (fun history s i =>
          Proper ((blockGemm p).outs (initial p) inputs ++ history) s i ∧
          Eager ((blockGemm p).outs (initial p) inputs ++ history) i)
        ((blockGemm p).exec (initial p) inputs) rest →
      lacking ((blockGemm p).outs (initial p) inputs) ((blockGemm p).exec (initial p) inputs) < rest.length →
      ∃ front, front <+: rest ∧ ((blockGemm p).exec (initial p) (inputs ++ front)).busy = false := by
  have good := good_run proper
  obtain ⟨items,current,part,sound⟩ := good
  refine ⟨⟨items,sound.grouped⟩,fun resting => ?_,fun rest eager long => ?_⟩
  · obtain ⟨computed,grabbed,cleared⟩ := sound.counters resting
    refine ⟨computed,grabbed,fun i => ?_⟩
    rw [Sync.Machine.exec_append]
    exact cleared i
  · obtain ⟨front,prefixed,ended⟩ := Sync.Machine.run_ends
      (fun history s => Good ((blockGemm p).outs (initial p) inputs ++ history) s)
      (fun s => s.busy = false)
      (fun history => lacking ((blockGemm p).outs (initial p) inputs ++ history))
      (fun history s i good busy both => by
        obtain ⟨items,current,part,sound⟩ := good
        have lower := sound.eager_progress (by simpa using busy) both.1 both.2
        have kept := good_next ⟨items,current,part,sound⟩ both.1
        rw [List.append_assoc] at lower kept
        exact .inr ⟨kept,lower⟩)
      eager (by simpa using ⟨items,current,part,sound⟩) (by simpa using long)
    exact ⟨front,prefixed,by rwa [Sync.Machine.exec_append]⟩

def smallArray : GemmParams := ⟨8,8,16,32,32,2,2,2⟩

/-- The operand words that hold one value everywhere, in a cycle with a ready receiver. -/
def cycle (ctrl : Option BlockGemmCtrl) (a b : Option (BitVec 8)) (c : Option (BitVec 32)) :
    Input smallArray :=
  ⟨ctrl.getD ⟨0,0,0,0⟩,ctrl.isSome,a.map fun x _ _ => x,b.map fun x _ _ => x,c.map fun x _ _ => x,true⟩

/-- A task of two tiles with two pairs each. -/
def twoTiles : List (Input smallArray) :=
  cycle (some ⟨2,1,2,0⟩) none none none :: (List.replicate 4 (cycle none (some 3) (some 5) (some 7)) ++
    List.replicate 4 (cycle none none none (some 7)))

theorem block_gemm_two_tiles :
    ∃ items, Grouped work ((blockGemm smallArray).outs (initial smallArray) twoTiles)
      ((blockGemm smallArray).exec (initial smallArray) twoTiles).busy items :=
  (block_gemm (by decide +kernel)).1

/-- The output tile of a task where no dot product is cut. -/
def wholeWork (task : BlockGemmCtrl) (x : Operands p) : WordC p := fun row col =>
  (BitVec.ofInt p.dataWidthAccum (((x.pairs.map (bundle task)).map fun pair => dot pair row col).foldl
    (· + ·) (x.c row col).toInt)).signExtend _

/-- Products of eight bits. -/
def narrowArray : GemmParams := ⟨8,8,8,32,32,1,1,1⟩

theorem one_element : 0 < 1 := by decide

/-- A task of one tile with one pair, up to the first cycle of rest. -/
def oneTile : List (Input narrowArray) :=
  ⟨⟨1,1,1,0⟩,true,none,none,none,true⟩ ::
    ⟨⟨0,0,0,0⟩,false,some fun _ _ => 16,some fun _ _ => 16,none,true⟩ ::
    List.replicate 3 ⟨⟨0,0,0,0⟩,false,none,none,some fun _ _ => 0,true⟩

/-- The only element of an output tile. -/
def element (word : WordC narrowArray) : BitVec 32 := word ⟨0,one_element⟩ ⟨0,one_element⟩

/-- The product of 16 and 16 is cut to zero, and the counter of tiles still stands at one. -/
theorem block_gemm_narrow :
    (¬ ∀ (p : GemmParams) (inputs : List (Input p)), (blockGemm p).Each Proper (initial p) inputs →
      ∃ items, Grouped wholeWork ((blockGemm p).outs (initial p) inputs)
        ((blockGemm p).exec (initial p) inputs).busy items) ∧
    ¬ ∀ (p : GemmParams) (inputs : List (Input p)), (blockGemm p).Each Proper (initial p) inputs →
      ((blockGemm p).exec (initial p) inputs).busy = false →
      ((blockGemm p).exec (initial p) inputs).computeFireCounter = 0 ∧
      ((blockGemm p).exec (initial p) inputs).dOutputIfvalidCounter = 0 ∧
      ((blockGemm p).exec (initial p) inputs).dOutputCounter = 0 := by
  constructor
  · intro all
    obtain ⟨items,law⟩ := all narrowArray oneTile (by decide +kernel)
    obtain ⟨count,pairs,words⟩ := law.complete (by decide +kernel)
    obtain ⟨item,rfl⟩ := List.length_eq_one_iff.mp (count.trans (by decide +kernel))
    obtain ⟨c,operands⟩ := item
    rw [List.flatMap_singleton] at pairs
    obtain rfl : c = _ := congrArg (List.headD · fun _ _ => 0) words
    obtain rfl : operands = _ := pairs
    exact absurd (congrArg (List.map element) law.outputs) (by decide +kernel)
  · intro all
    exact absurd (all narrowArray oneTile (by decide +kernel) (by decide +kernel)) (by decide +kernel)

end Snax.BlockGemm
