import Mathlib.Algebra.Order.Ring.Int
import Snax.Reshuffler
import Snax.Sync.Chunks

/-! A run of the reshuffler: from the cycle in which an idle unit takes a configuration until
it is idle again. -/
namespace Snax.Reshuffler

open Sync

variable {p : ReshufflerParams}

/-- The configurations that have a run: opcode 3 names no data path. -/
structure Proper (c : ReshufflerCtrl) : Prop where
  opcode : c.opcode.toNat ≤ 2
  reduceLen : 1 ≤ c.reduceLen.toNat
  tloop2Len : 1 ≤ c.tloop2Len.toNat

/-- The words of a run. -/
def total (c : ReshufflerCtrl) : Nat :=
  if c.opcode = 2 then c.reduceLen.toNat * c.tloop2Len.toNat else c.tloop2Len.toNat

/-- What the first data path makes of a word. -/
def pass (c : ReshufflerCtrl) (x : Word) : Word := if c.opcode = 1 then transpose x else x

/-- The word whose lanes are the maxima of a group. -/
def pooled (p : ReshufflerParams) (group : List Word) : Word :=
  packed 512 (signedMax (group.map (lanesOf p)))

/-- What a run makes of its words. -/
def results (p : ReshufflerParams) (c : ReshufflerCtrl) (words : List Word) : List Word :=
  if c.opcode = 2 then (Grouping.of c.reduceLen.toNat words).whole.map (pooled p)
  else words.map (pass c)

def acceptedWords (history : List Output) : List Word := history.filterMap Output.accepted

def deliveredWords (history : List Output) : List Word := history.filterMap Output.delivered

/-- Idle, and nothing is left of an earlier run. -/
structure AtRest (s : State p) : Prop where
  idle : s.busy = false
  mux : muxValid s = false
  lane : peOutValid s = false

structure Cleared (s : State p) : Prop where
  input : s.peInputFireCounter = 0
  output : s.peOutFireCounter = 0
  write : s.writeCounter = 0

/-! ### The results -/

theorem lanesOf_packed (f : Pool p) : lanesOf p (packed 512 f) = f :=
  funext fun k => element_packed f p.bus.le k

theorem transpose_eq (x : Word) : transpose x = asUInt 512 fun i j => asVec 8 8 8 x j i := by
  unfold transpose asVec element
  congr
  funext i j
  congr 1
  omega

/-- Two transpositions cancel. -/
theorem transpose_transpose (x : Word) : transpose (transpose x) = x := by
  rw [transpose_eq,transpose_eq,asVec_asUInt _ (by decide)]
  exact (asUInt_asVec x).trans (lowPart_of_lt x.isLt)

/-! ### Words that pass through -/

variable {c : ReshufflerCtrl} {s : State p} {i : Input} {ws ys : List Word}

theorem csr_of_busy (busy : s.busy = true) (i : Input) : (next s i).ctrlCsr = s.ctrlCsr := by
  simp [next,configValid,busy]

/-- The transposer's register holds the last word if it has not gone out. -/
structure MuxPath (c : ReshufflerCtrl) (ws ys : List Word) (s : State p) : Prop where
  ctrl : s.ctrlCsr = c
  lane : peOutValid s = false
  input : s.peInputFireCounter = 0
  output : s.peOutFireCounter = 0
  words : ws.map (pass c) = ys ++ if muxValid s then [s.transposeMux.dataReg] else []

section Mux

variable (proper : Proper c) (other : c.opcode ≠ 2) (ctrl : s.ctrlCsr = c) (busy : s.busy = true)
include proper other ctrl busy

theorem selects_mux : doMAXPool s = false ∧ doTranspose s = true := by
  have few := proper.opcode
  have two : c.opcode.toNat ≠ 2 := fun same => other (BitVec.eq_of_toNat_eq same)
  have kinds : c.opcode = 0 ∨ c.opcode = 1 := by
    rcases Nat.eq_zero_or_pos c.opcode.toNat with zero | some
    · exact .inl (BitVec.eq_of_toNat_eq zero)
    · exact .inr (BitVec.eq_of_toNat_eq (show c.opcode.toNat = 1 by omega))
  unfold doMAXPool doTranspose
  rw [ctrl,busy]
  rcases kinds with same | same <;> rw [same] <;> decide

theorem mux_offered :
    (offered s).toList = if muxValid s then [s.transposeMux.dataReg] else [] := by
  obtain ⟨pool,mux⟩ := selects_mux proper other ctrl busy
  simp only [offered,pool,mux,Bool.false_eq_true,↓reduceIte]
  split <;> rfl

theorem mux_accepted : accepted s i = muxFire s i := by
  obtain ⟨pool,mux⟩ := selects_mux proper other ctrl busy
  simp only [accepted,inputReady,muxFire,pool,mux,Bool.false_eq_true,↓reduceIte,Bool.true_and]

theorem mux_stall : muxStall s i = (muxValid s && !i.ready) := by
  obtain ⟨pool,mux⟩ := selects_mux proper other ctrl busy
  rw [muxStall,mux,Bool.true_and]

end Mux

theorem MuxPath.cycle (path : MuxPath c ws ys s) (proper : Proper c) (other : c.opcode ≠ 2)
    (busy : s.busy = true) :
    MuxPath c (ws ++ (accepted s i).toList) (ys ++ (delivered s i).toList) (next s i) := by
  obtain ⟨pool,mux⟩ := selects_mux proper other path.ctrl busy
  have offers := mux_offered proper other path.ctrl busy
  have taken := mux_accepted proper other path.ctrl busy (i := i)
  have stalls := mux_stall proper other path.ctrl busy (i := i)
  have ctrl : (next s i).ctrlCsr = c := (csr_of_busy busy i).trans path.ctrl
  have lane : peOutValid (next s i) = false := by
    have quiet : peStall s i = false := by simp [peStall,path.lane]
    simp [peOutValid,next,nextLane,peInputFire,pool,quiet]
  have input : (next s i).peInputFireCounter = 0 := by
    simp [next,nextCounter,peInputFire,pool,busy,path.input]
  have output : (next s i).peOutFireCounter = 0 := by
    simp [next,nextCounter,peOutFire,path.lane,busy,path.output]
  have words : (ws ++ (accepted s i).toList).map (pass c) =
      (ys ++ if muxValid s then [s.transposeMux.dataReg] else []) ++ (accepted s i).toList.map (pass c) := by
    rw [List.map_append,path.words]
  refine ⟨ctrl,lane,input,output,words.trans ?_⟩
  by_cases stall : muxStall s i = true
  · -- The word waits and none is taken.
    obtain ⟨waits,full⟩ : muxValid s = true ∧ i.ready = false := by simpa [stalls] using stall
    have quiet : muxFire s i = none := by simp [muxFire,muxInReady,stall]
    have silent : delivered s i = none := by simp [delivered,full]
    have valid : muxValid (next s i) = true := by simp [muxValid,next,nextMux,stall]
    have kept : (next s i).transposeMux.dataReg = s.transposeMux.dataReg := by simp [next,nextMux,quiet]
    rw [taken,quiet,silent,waits,valid,kept]
    simp
  · -- The word in the register goes out, and the next one may take its place.
    have free : muxStall s i = false := Bool.eq_false_iff.mpr stall
    have leaves : (delivered s i).toList = if muxValid s then [s.transposeMux.dataReg] else [] := by
      rw [← offers,delivered]
      cases ready : i.ready with
      | true => rfl
      | false =>
        have empty : muxValid s = false := by simpa [stalls,ready] using free
        rw [empty,if_neg Bool.false_ne_true] at offers
        rw [offers]
        rfl
    rw [leaves,taken,List.append_cancel_left_eq]
    cases fire : muxFire s i with
    | none =>
      have empty : muxValid (next s i) = false := by simp [muxValid,next,nextMux,fire,free]
      rw [empty]
      rfl
    | some x =>
      have valid : muxValid (next s i) = true := by simp [muxValid,next,nextMux,fire]
      have stored : (next s i).transposeMux.dataReg = pass c x := by
        simp [next,nextMux,fire,pass,path.ctrl]
      rw [valid,stored]
      rfl

/-- A ready receiver moves a word in every cycle in which there is one. -/
theorem MuxPath.moves (path : MuxPath c ws ys s) (proper : Proper c) (other : c.opcode ≠ 2)
    (busy : s.busy = true) (ready : i.ready = true) (some : i.data.isSome = true ∨ (offered s).isSome = true) :
    (accepted s i).isSome = true ∨ (delivered s i).isSome = true := by
  obtain ⟨pool,mux⟩ := selects_mux proper other path.ctrl busy
  have gives : delivered s i = offered s := if_pos ready
  have stalls := mux_stall proper other path.ctrl busy (i := i)
  rw [gives]
  by_cases waits : muxValid s = true
  · right
    simp [offered,pool,mux,waits]
  · have idle : muxValid s = false := Bool.eq_false_iff.mpr waits
    have empty : offered s = none := by simp [offered,pool,mux,idle]
    have free : muxInReady s i = true := by
      have kept : s.transposeMux.keepOutput = false := (Bool.or_eq_false_iff.mp idle).2
      simp [muxInReady,kept,stalls,idle]
    left
    rw [empty] at some
    rw [mux_accepted proper other path.ctrl busy,muxFire,mux,free]
    simpa using some

/-! ### Words that are pooled -/

/-- The incomplete group stands in the lanes, or the last whole one if it has not gone out. The
lanes count their inputs and their outputs. -/
structure PoolPath (c : ReshufflerCtrl) (g : Grouping Word) (s : State p) : Prop where
  ctrl : s.ctrlCsr = c
  mux : muxValid s = false
  short : g.part.length < c.reduceLen.toNat
  input : s.peInputFireCounter.toNat = g.part.length
  output : s.peOutFireCounter.toNat =
    if peOutValid s then (if g.part = [] then c.reduceLen.toNat - 1 else g.part.length - 1)
    else g.part.length
  running : g.part ≠ [] → s.lane.resReg = signedMax (g.part.map (lanesOf p))
  keep : s.lane.keepOutput = true → g.part = []

def heldResult (s : State p) : List Word := if resultDue s then [packed 512 s.lane.resReg] else []

section Pool

variable {g : Grouping Word}

theorem last_toNat {w : Nat} (wide : w ≤ 32) {x : BitVec w} (positive : 1 ≤ x.toNat) :
    ((x - 1).setWidth 32).toNat = x.toNat - 1 := by
  have small := x.isLt
  have one : (1 : BitVec w).toNat = 1 := Nat.mod_eq_of_lt (Nat.lt_of_le_of_lt positive small)
  have room : (1 : BitVec w) ≤ x := BitVec.le_def.mpr (one.symm ▸ positive)
  have fits : 2 ^ w ≤ 2 ^ 32 := Nat.pow_le_pow_right (by decide) wide
  rw [BitVec.toNat_setWidth,BitVec.toNat_sub_of_le room,one,Nat.mod_eq_of_lt (by omega)]

theorem nextCounter_toNat (ctrl : s.ctrlCsr = c) (busy : s.busy = true) (positive : 1 ≤ c.reduceLen.toNat)
    (fire : Bool) (counter : BitVec 32) : (nextCounter s fire counter).toNat =
      if fire then (if counter.toNat = c.reduceLen.toNat - 1 then 0 else (counter + 1).toNat)
      else counter.toNat := by
  have last : counter = (c.reduceLen - 1).setWidth 32 ↔ counter.toNat = c.reduceLen.toNat - 1 := by
    rw [← BitVec.toNat_inj,last_toNat (by decide) positive]
  unfold nextCounter
  rw [ctrl,busy]
  generalize (c.reduceLen - 1).setWidth 32 = bound at last
  cases fire with
  | false => simp
  | true =>
    by_cases same : counter = bound
    · rw [if_pos rfl,if_pos (last.mp same)]
      simp [same]
    · rw [if_pos rfl,if_neg fun h => same (last.mpr h)]
      simp [same]

theorem PoolPath.due_iff (path : PoolPath c g s) (positive : 1 ≤ c.reduceLen.toNat) :
    resultDue s = true ↔ peOutValid s = true ∧ g.part = [] := by
  have short := path.short
  have output := path.output
  rw [resultDue,Bool.and_eq_true,beq_iff_eq,← BitVec.toNat_inj,path.ctrl,last_toNat (by decide) positive,output]
  refine and_congr_right fun valid => ?_
  rw [if_pos valid]
  by_cases empty : g.part = []
  · simp [empty]
  · have some := List.length_pos_iff.mpr empty
    rw [if_neg empty]
    exact iff_of_false (by omega) empty

variable (pools : c.opcode = 2) (ctrl : s.ctrlCsr = c) (busy : s.busy = true)
include pools ctrl busy

theorem selects_pool : doMAXPool s = true ∧ doTranspose s = false := by
  unfold doMAXPool doTranspose
  rw [ctrl,pools,busy]
  decide

theorem pool_offered : (offered s).toList = heldResult s := by
  simp only [offered,heldResult,(selects_pool pools ctrl busy).1,↓reduceIte]
  split <;> rfl

theorem pool_accepted : accepted s i = if peInReady s i then i.data else none := by
  simp only [accepted,inputReady,(selects_pool pools ctrl busy).1,↓reduceIte]

/-- Only the last result of a group waits for the receiver. -/
theorem pool_stall : peStall s i = (resultDue s && !i.ready) := by
  rw [peStall,peOutReady,(selects_pool pools ctrl busy).1,Bool.true_and]
  cases due : resultDue s with
  | false => simp
  | true =>
    have valid : peOutValid s = true := by
      rw [resultDue,Bool.and_eq_true] at due
      exact due.1
    simp [valid]

theorem mux_rests (rests : muxValid s = false) : muxValid (next s i) = false := by
  have stall : muxStall s i = false := by
    rw [muxStall,rests]
    rfl
  have fire : muxFire s i = none := by
    rw [muxFire,(selects_pool pools ctrl busy).2]
    rfl
  change ((muxFire s i).isSome || muxStall s i) = false
  rw [fire,stall]
  rfl

end Pool

/-- A word that is taken is the next one of its group. -/
theorem PoolPath.next_res {g : Grouping Word} (path : PoolPath c g s) (pools : c.opcode = 2)
    (busy : s.busy = true) (narrow : p.inputWidth ≤ 8) {x : Word} (taken : accepted s i = some x) :
    (next s i).lane.resReg = signedMax ((g.part ++ [x]).map (lanesOf p)) := by
  have written : (next s i).lane.resReg = nextRes s (some x) := by
    simp [next,nextLane,taken,(selects_pool pools path.ctrl busy).1]
  rw [written,nextRes]
  by_cases empty : g.part = []
  · have first : s.peInputFireCounter = 0 := by
      apply BitVec.eq_of_toNat_eq
      rw [path.input,empty]
      rfl
    rw [first,empty,beq_self_eq_true,if_pos rfl]
    funext k
    have low : (-128 : Int) ≤ (lanesOf p x k).toInt := by
      have room : (2 : Int) ^ p.inputWidth ≤ 2 ^ 8 := pow_le_pow_right₀ (by decide) narrow
      have bound := (lanesOf p x k).le_two_mul_toInt
      omega
    change _ = lanesOf p x k
    split
    · rfl
    · next least =>
      have same : (lanesOf p x k).toInt = -128 := by omega
      rw [← same,BitVec.ofInt_toInt]
  · have later : s.peInputFireCounter ≠ 0 := by
      intro zero
      have count := path.input
      rw [zero] at count
      exact empty (List.length_eq_zero_iff.mp count.symm)
    have some : g.part.map (lanesOf p) ≠ [] := by simpa using empty
    rw [if_neg (by simpa using later),path.running empty,List.map_append,List.map_singleton,
      signedMax_concat some]

section PoolCycle

variable {g : Grouping Word} (path : PoolPath c g s) (proper : Proper c) (pools : c.opcode = 2)
  (busy : s.busy = true)
include path proper pools busy

/-- The result of a group waits and no word is taken. -/
theorem PoolPath.cycle_stall (stall : peStall s i = true) :
    accepted s i = none ∧ delivered s i = none ∧ PoolPath c g (next s i) ∧
      heldResult (next s i) = heldResult s := by
  obtain ⟨pool,mux⟩ := selects_pool pools path.ctrl busy
  obtain ⟨due,full⟩ : resultDue s = true ∧ i.ready = false := by
    simpa [pool_stall pools path.ctrl busy] using stall
  obtain ⟨valid,empty⟩ := (path.due_iff proper.reduceLen).mp due
  have quiet : accepted s i = none := by
    rw [pool_accepted pools path.ctrl busy,peInReady,stall]
    rfl
  have silent : delivered s i = none := by simp [delivered,full]
  have ctrl : (next s i).ctrlCsr = c := (csr_of_busy busy i).trans path.ctrl
  have input : (next s i).peInputFireCounter = s.peInputFireCounter := by
    simp [next,peInputFire,quiet,nextCounter,busy]
  have output : (next s i).peOutFireCounter = s.peOutFireCounter := by
    have held : peOutReady s i = false := by simpa [peStall,valid] using stall
    simp [next,peOutFire,held,nextCounter,busy]
  have valid' : peOutValid (next s i) = true := by simp [peOutValid,next,nextLane,stall]
  have kept : (next s i).lane.resReg = s.lane.resReg := by simp [next,nextLane,nextRes,quiet]
  have mux' := mux_rests pools path.ctrl busy path.mux (i := i)
  have path' : PoolPath c g (next s i) := by
    refine ⟨ctrl,mux',path.short,input ▸ path.input,?_,fun some => absurd empty some,fun _ => empty⟩
    rw [output,valid',path.output,valid]
  refine ⟨quiet,silent,path',?_⟩
  rw [heldResult,heldResult,kept,due,(path'.due_iff proper.reduceLen).mpr ⟨valid',empty⟩]

/-- In the other cycles the result of a group goes out, or what the lanes hold is a step on the
way to one, and the outputs have caught up with the inputs. -/
theorem PoolPath.cycle_moves (free : peStall s i = false) :
    (delivered s i).toList = heldResult s ∧
      (next s i).peOutFireCounter.toNat = g.part.length ∧ (next s i).lane.keepOutput = false := by
  obtain ⟨pool,mux⟩ := selects_pool pools path.ctrl busy
  have due := path.due_iff proper.reduceLen
  have short := path.short
  have output := path.output
  have positive := proper.reduceLen
  have stalls := pool_stall pools path.ctrl busy (i := i)
  refine ⟨?_,?_,free⟩
  · rw [← pool_offered pools path.ctrl busy,delivered]
    cases ready : i.ready with
    | true => rfl
    | false =>
      have nothing : resultDue s = false := by simpa [stalls,ready] using free
      rw [pool_offered pools path.ctrl busy,heldResult,nothing]
      rfl
  · have fires : peOutFire s i = peOutValid s := by
      rw [peStall] at free
      rw [peOutFire]
      cases valid : peOutValid s with
      | false => rfl
      | true => simpa [valid] using free
    change (nextCounter s (peOutFire s i) s.peOutFireCounter).toNat = _
    rw [nextCounter_toNat path.ctrl busy positive,fires]
    cases valid : peOutValid s with
    | false => simpa [valid] using output
    | true =>
      rw [valid,if_pos rfl] at output
      have small := c.reduceLen.isLt
      rw [if_pos rfl]
      by_cases empty : g.part = []
      · rw [if_pos empty] at output
        rw [if_pos output,empty]
        rfl
      · have some := List.length_pos_iff.mpr empty
        rw [if_neg empty] at output
        rw [if_neg (by omega),BitVec.toNat_add,output]
        have one : (1 : BitVec 32).toNat = 1 := rfl
        omega

theorem PoolPath.next_input : (next s i).peInputFireCounter.toNat =
    (g.pushed c.reduceLen.toNat (accepted s i)).part.length := by
  have short := path.short
  have input := path.input
  have small := c.reduceLen.isLt
  have fires : peInputFire s i = (accepted s i).isSome := by
    rw [peInputFire,(selects_pool pools path.ctrl busy).1,Bool.true_and]
  change (nextCounter s (peInputFire s i) s.peInputFireCounter).toNat = _
  rw [nextCounter_toNat path.ctrl busy proper.reduceLen,fires,input]
  cases accepted s i with
  | none => rfl
  | some x =>
    rw [Option.isSome_some,if_pos rfl,Grouping.pushed,Grouping.push]
    by_cases whole : g.part.length + 1 = c.reduceLen.toNat
    · rw [if_pos (by omega),if_pos whole]
      rfl
    · have one : (1 : BitVec 32).toNat = 1 := rfl
      rw [if_neg (by omega),if_neg whole,BitVec.toNat_add,input,List.length_append,one,List.length_singleton]
      omega

theorem PoolPath.cycle (narrow : p.inputWidth ≤ 8) :
    PoolPath c (g.pushed c.reduceLen.toNat (accepted s i)) (next s i) ∧
      (delivered s i).toList ++ heldResult (next s i) = heldResult s ++
        (g.completed c.reduceLen.toNat (accepted s i)).map (pooled p) := by
  by_cases stall : peStall s i = true
  · obtain ⟨quiet,silent,path',same⟩ := path.cycle_stall proper pools busy stall
    rw [quiet,silent,same]
    exact ⟨path',(List.append_nil _).symm⟩
  obtain ⟨leaves,output,keep⟩ := path.cycle_moves proper pools busy (Bool.eq_false_iff.mpr stall)
  have input := path.next_input proper pools busy (i := i)
  have ctrl : (next s i).ctrlCsr = c := (csr_of_busy busy i).trans path.ctrl
  have mux := mux_rests pools path.ctrl busy path.mux (i := i)
  have valid : peOutValid (next s i) = (accepted s i).isSome := by
    rw [peOutValid,keep,Bool.or_false]
    change peInputFire s i = _
    rw [peInputFire,(selects_pool pools path.ctrl busy).1,Bool.true_and]
  have short := path.short
  rw [leaves,List.append_cancel_left_eq]
  have released : (next s i).lane.keepOutput = true → (g.pushed c.reduceLen.toNat (accepted s i)).part = [] :=
    fun kept => absurd kept (by rw [keep]; exact Bool.false_ne_true)
  cases taken : accepted s i with
  | none =>
    rw [taken] at input valid released
    have kept : (next s i).lane.resReg = s.lane.resReg := by simp [next,nextLane,nextRes,taken]
    have path' : PoolPath c g (next s i) := by
      refine ⟨ctrl,mux,short,input,?_,fun some => kept.trans (path.running some),released⟩
      rw [output,valid]
      rfl
    refine ⟨path',?_⟩
    have nothing : resultDue (next s i) = false := by
      rw [resultDue,valid]
      rfl
    rw [heldResult,nothing]
    rfl
  | some x =>
    rw [taken] at input valid released
    have res := path.next_res pools busy narrow taken
    rw [Option.isSome_some] at valid
    simp only [Grouping.pushed,Grouping.push,Grouping.completed] at input released ⊢
    by_cases whole : g.part.length + 1 = c.reduceLen.toNat
    · rw [if_pos whole] at input released ⊢
      have path' : PoolPath c ⟨g.whole ++ [g.part ++ [x]],[]⟩ (next s i) := by
        refine ⟨ctrl,mux,Nat.zero_lt_of_lt short,input,?_,fun some => absurd rfl some,released⟩
        rw [output,valid,if_pos rfl,if_pos rfl]
        omega
      refine ⟨path',?_⟩
      have due := (path'.due_iff proper.reduceLen).mpr ⟨valid,rfl⟩
      rw [heldResult,due,if_pos rfl,if_pos whole,res]
      rfl
    · rw [if_neg whole] at input released ⊢
      have more : g.part ++ [x] ≠ [] := by simp
      have path' : PoolPath c ⟨g.whole,g.part ++ [x]⟩ (next s i) := by
        refine ⟨ctrl,mux,by simp only [List.length_append,List.length_singleton]; omega,input,?_,fun _ => res,
          released⟩
        rw [output,valid,if_pos rfl,if_neg more,List.length_append,List.length_singleton,Nat.add_sub_cancel]
      refine ⟨path',?_⟩
      have nothing : resultDue (next s i) = false := by
        rw [← Bool.not_eq_true,path'.due_iff proper.reduceLen]
        exact fun both => more both.2
      rw [heldResult,nothing,if_neg whole]
      rfl

end PoolCycle

theorem PoolPath.moves {g : Grouping Word} (path : PoolPath c g s) (proper : Proper c)
    (pools : c.opcode = 2) (busy : s.busy = true) (ready : i.ready = true)
    (some : i.data.isSome = true ∨ (offered s).isSome = true) :
    (accepted s i).isSome = true ∨ (delivered s i).isSome = true := by
  have gives : delivered s i = offered s := if_pos ready
  have offers : offered s = if resultDue s then Option.some (packed 512 s.lane.resReg) else none := by
    simp only [offered,(selects_pool pools path.ctrl busy).1,↓reduceIte]
  rw [gives]
  by_cases due : resultDue s = true
  · right
    simp [offers,due]
  · have early : resultDue s = false := Bool.eq_false_iff.mpr due
    have kept : s.lane.keepOutput = false := by
      rw [← Bool.not_eq_true]
      intro keep
      have valid : peOutValid s = true := by simp [peOutValid,keep]
      exact due ((path.due_iff proper.reduceLen).mpr ⟨valid,path.keep keep⟩)
    left
    rw [offers,early] at some
    rw [pool_accepted pools path.ctrl busy,peInReady,pool_stall pools path.ctrl busy,early,kept]
    simpa using some

/-! ### A run -/

/-- One of the two data paths is at work, and the other at rest. -/
inductive Path (c : ReshufflerCtrl) (ws ys : List Word) (s : State p) : Prop
  | mux (other : c.opcode ≠ 2) (path : MuxPath c ws ys s)
  | pool (pools : c.opcode = 2) (path : PoolPath c (Grouping.of c.reduceLen.toNat ws) s)
      (words : results p c ws = ys ++ heldResult s)

theorem results_of_pool (pools : c.opcode = 2) (ws : List Word) :
    results p c ws = (Grouping.of c.reduceLen.toNat ws).whole.map (pooled p) := if_pos pools

theorem results_of_mux (other : c.opcode ≠ 2) (ws : List Word) : results p c ws = ws.map (pass c) :=
  if_neg other

/-- Two runs that transpose, one after the other. -/
theorem results_transposed (transposes : c.opcode = 1) (words : List Word) :
    results p c (results p c words) = words := by
  have other : c.opcode ≠ 2 := by
    rw [transposes]
    decide
  have passes (x : Word) : pass c (pass c x) = x := by
    unfold pass
    rw [if_pos transposes,if_pos transposes,transpose_transpose]
  rw [results_of_mux other,results_of_mux other]
  induction words with
  | nil => rfl
  | cons x words ih => rw [List.map_cons,List.map_cons,passes,ih]

/-- The words of the results, and of the incomplete group. -/
theorem length_of_results (proper : Proper c) (ws : List Word) :
    ∃ l, ws.length = (if c.opcode = 2 then c.reduceLen.toNat else 1) * (results p c ws).length + l ∧
      (l = 0 ↔ c.opcode = 2 → (Grouping.of c.reduceLen.toNat ws).part = []) := by
  by_cases pools : c.opcode = 2
  · obtain ⟨all,even,short⟩ := Grouping.of_spec proper.reduceLen ws
    have size := congrArg List.length all
    rw [List.length_append,Chunks.length_flatten_of_even even] at size
    refine ⟨(Grouping.of c.reduceLen.toNat ws).part.length,?_,?_⟩
    · rw [results_of_pool pools,List.length_map,if_pos pools,size]
    · simp [pools]
  · refine ⟨0,?_,?_⟩
    · rw [results_of_mux pools,List.length_map,if_neg pools,Nat.one_mul]
      rfl
    · exact iff_of_true rfl fun same => absurd same pools

namespace Path

theorem ctrl_eq (path : Path c ws ys s) : s.ctrlCsr = c := by
  rcases path with ⟨_,path⟩ | ⟨_,path,_⟩
  · exact path.ctrl
  · exact path.ctrl

variable (path : Path c ws ys s) (proper : Proper c) (busy : s.busy = true)
include path proper busy

theorem finish_iff (write : s.writeCounter.toNat = ys.length) : computationFinish s i = true ↔
    ys.length + 1 = c.tloop2Len.toNat ∧ (delivered s i).isSome = true := by
  have positive := proper.tloop2Len
  rw [computationFinish,busy,Bool.and_true,Bool.and_eq_true,beq_iff_eq,← BitVec.toNat_inj,
    path.ctrl_eq,last_toNat (by decide) positive,write]
  refine and_congr_left fun _ => ?_
  omega

theorem results_eq : results p c ws = ys ++ (offered s).toList := by
  rcases path with ⟨other,path⟩ | ⟨pools,path,words⟩
  · rw [results_of_mux other,path.words,mux_offered proper other path.ctrl busy]
  · rw [words,pool_offered pools path.ctrl busy]

theorem moves (ready : i.ready = true) (some : i.data.isSome = true ∨ (offered s).isSome = true) :
    (accepted s i).isSome = true ∨ (delivered s i).isSome = true := by
  rcases path with ⟨other,path⟩ | ⟨pools,path,words⟩
  · exact path.moves proper other busy ready some
  · exact path.moves proper pools busy ready some

theorem cycle (narrow : c.opcode = 2 → p.inputWidth ≤ 8) :
    Path c (ws ++ (accepted s i).toList) (ys ++ (delivered s i).toList) (next s i) := by
  rcases path with ⟨other,path⟩ | ⟨pools,path,words⟩
  · exact .mux other (path.cycle proper other busy)
  · obtain ⟨path',moved⟩ := path.cycle proper pools busy (narrow pools) (i := i)
    rw [← Grouping.of_toList] at path'
    refine .pool pools path' ?_
    rw [results_of_pool pools,Grouping.of_toList,Grouping.pushed_whole,List.map_append,
      ← results_of_pool pools,words,List.append_assoc,← moved,List.append_assoc]

/-- The last result goes out when all words have come in, and leaves both data paths at rest. -/
theorem finish (last : ys.length + 1 = c.tloop2Len.toNat) (gives : (delivered s i).isSome = true)
    (bounded : ws.length ≤ total c) (stops : total c ≤ ws.length → i.data = none) :
    accepted s i = none ∧ ws.length = total c ∧ muxValid (next s i) = false ∧
      peOutValid (next s i) = false ∧ (next s i).peInputFireCounter = 0 ∧
      (next s i).peOutFireCounter = 0 := by
  have results := path.results_eq proper busy
  obtain ⟨l,size,whole⟩ := length_of_results (p := p) proper ws
  obtain ⟨y,offers,ready⟩ : ∃ y, offered s = some y ∧ i.ready = true := by
    obtain ⟨y,same⟩ := Option.isSome_iff_exists.mp gives
    unfold delivered at same
    split at same
    · next ready => exact ⟨y,same,ready⟩
    · contradiction
  have count : (Reshuffler.results p c ws).length = c.tloop2Len.toNat := by
    rw [results,offers,← last]
    simp
  have all : total c = (if c.opcode = 2 then c.reduceLen.toNat else 1) * c.tloop2Len.toNat := by
    unfold total
    split
    · rfl
    · rw [Nat.one_mul]
  rw [count,← all] at size
  have stopped : i.data = none := stops (by omega)
  have quiet : accepted s i = none := by simp [accepted,stopped]
  refine ⟨quiet,by omega,?_⟩
  rcases path with ⟨other,path⟩ | ⟨pools,path,words⟩
  · have next := path.cycle proper other busy (i := i)
    refine ⟨?_,next.lane,next.input,next.output⟩
    have free : muxStall s i = false := by simp [mux_stall proper other path.ctrl busy,ready]
    rw [mux_accepted proper other path.ctrl busy] at quiet
    change ((muxFire s i).isSome || muxStall s i) = false
    rw [quiet,free]
    rfl
  · have free : peStall s i = false := by simp [pool_stall pools path.ctrl busy,ready]
    obtain ⟨_,output,keep⟩ := path.cycle_moves proper pools busy free
    have input := path.next_input proper pools busy (i := i)
    have empty : (Grouping.of c.reduceLen.toNat ws).part = [] := whole.mp (by omega) pools
    rw [quiet] at input
    rw [empty] at output
    refine ⟨mux_rests pools path.ctrl busy path.mux,?_,?_,BitVec.eq_of_toNat_eq output⟩
    · rw [peOutValid,keep,Bool.or_false]
      change peInputFire s i = false
      simp [peInputFire,quiet]
    · refine BitVec.eq_of_toNat_eq (input.trans ?_)
      rw [Grouping.pushed,empty]
      rfl

end Path

/-- After these words in and out a run of `c` is in state `s`. -/
structure Run (c : ReshufflerCtrl) (ws ys : List Word) (s : State p) : Prop where
  bounded : ws.length ≤ total c
  busy : s.busy = true → Path c ws ys s ∧ s.writeCounter.toNat = ys.length ∧ ys.length < c.tloop2Len.toNat
  idle : s.busy = false → AtRest s ∧ ys = results p c ws ∧ ys.length = c.tloop2Len.toNat ∧
    ws.length = total c ∧ s.peInputFireCounter = 0 ∧ s.peOutFireCounter = 0

theorem idle_quiet (idle : s.busy = false) (i : Input) :
    accepted s i = none ∧ offered s = none ∧ delivered s i = none := by
  have pool : doMAXPool s = false := by simp [doMAXPool,idle]
  have mux : doTranspose s = false := by simp [doTranspose,idle]
  have nothing : offered s = none := by simp [offered,pool,mux]
  refine ⟨by simp [accepted,inputReady,pool,mux],nothing,?_⟩
  rw [delivered,nothing]
  exact ite_self _

/-- An idle cycle clears the counters, and leaves what is at rest so. -/
theorem idle_cycle (rest : AtRest s) (i : Input) :
    Cleared (next s i) ∧ muxValid (next s i) = false ∧ peOutValid (next s i) = false := by
  obtain ⟨_,_,silent⟩ := idle_quiet rest.idle i
  have pool : doMAXPool s = false := by simp [doMAXPool,rest.idle]
  have mux : doTranspose s = false := by simp [doTranspose,rest.idle]
  refine ⟨⟨?_,?_,?_⟩,?_,?_⟩
  · simp [next,nextCounter,rest.idle]
  · simp [next,nextCounter,rest.idle]
  · simp [next,silent,rest.idle]
  · change ((muxFire s i).isSome || muxStall s i) = false
    simp [muxFire,muxStall,mux,rest.mux]
  · change (peInputFire s i || peStall s i) = false
    simp [peInputFire,peStall,pool,rest.lane]

/-- A cycle in which no configuration is taken, and in which no word is offered after the last. -/
structure Lawful (c : ReshufflerCtrl) (ws : List Word) (s : State p) (i : Input) : Prop where
  config : configValid s i = none
  stops : total c ≤ ws.length → i.data = none

theorem Run.cycle (run : Run c ws ys s) (proper : Proper c) (narrow : c.opcode = 2 → p.inputWidth ≤ 8)
    (lawful : Lawful c ws s i) :
    Run c (ws ++ (accepted s i).toList) (ys ++ (delivered s i).toList) (next s i) := by
  cases working : s.busy with
  | false =>
    obtain ⟨rest,same,count,all,input,output⟩ := run.idle working
    obtain ⟨quiet,nothing,silent⟩ := idle_quiet working i
    obtain ⟨cleared,mux,lane⟩ := idle_cycle rest i
    have idle : (next s i).busy = false := by simp [next,working,lawful.config]
    rw [quiet,silent,Option.toList_none,List.append_nil,List.append_nil]
    refine ⟨run.bounded,fun busy => absurd busy (by rw [idle]; exact Bool.false_ne_true),fun _ => ?_⟩
    exact ⟨⟨idle,mux,lane⟩,same,count,all,cleared.input,cleared.output⟩
  | true =>
    obtain ⟨path,write,more⟩ := run.busy working
    have path' := path.cycle proper working narrow (i := i)
    have bounded : (ws ++ (accepted s i).toList).length ≤ total c := by
      rcases Nat.lt_or_ge ws.length (total c) with few | all
      · have one : (accepted s i).toList.length ≤ 1 := by cases accepted s i <;> simp
        rw [List.length_append]
        omega
      · have quiet : accepted s i = none := by simp [accepted,lawful.stops all]
        simpa [quiet] using run.bounded
    have finishes := path.finish_iff proper working write (i := i)
    have small := c.tloop2Len.isLt
    have write' : (next s i).writeCounter.toNat = (ys ++ (delivered s i).toList).length := by
      cases given : delivered s i with
      | none => simpa [next,given,working] using write
      | some y =>
        have one : (1 : BitVec 32).toNat = 1 := rfl
        have more' : (next s i).writeCounter = s.writeCounter + 1 := by simp [next,given]
        rw [more',BitVec.toNat_add,write,one,Option.toList_some,List.length_append,List.length_singleton]
        omega
    have busy' : (next s i).busy = !computationFinish s i := by simp [next,working]
    refine ⟨bounded,fun busy => ⟨path',write',?_⟩,fun idle => ?_⟩
    · rw [busy',Bool.not_eq_true',← Bool.not_eq_true,finishes] at busy
      cases given : delivered s i with
      | none => simpa using more
      | some y =>
        rw [given] at busy
        simp only [Option.isSome_some,and_true] at busy
        simp only [Option.toList_some,List.length_append,List.length_singleton]
        omega
    · have ended : computationFinish s i = true := by simpa [busy'] using idle
      obtain ⟨last,gives⟩ := finishes.mp ended
      obtain ⟨quiet,all,mux,lane,input,output⟩ := path.finish proper working last gives run.bounded lawful.stops
      have leaves : (delivered s i).toList = (offered s).toList := by
        unfold delivered at gives ⊢
        split at gives
        · next ready => rw [if_pos ready]
        · simp at gives
      have results := path.results_eq proper working
      rw [quiet,Option.toList_none,List.append_nil,leaves,results]
      refine ⟨⟨idle,mux,lane⟩,rfl,?_,all,input,output⟩
      rw [← leaves]
      obtain ⟨y,given⟩ := Option.isSome_iff_exists.mp gives
      simpa [given] using last

/-- The unit in a cycle of a run: what has come out and what is offered are the results of the
words, and a ready receiver moves one whenever there is one. An idle unit is at rest, its group
counters are zero, and all counters are after that cycle. -/
structure RunContract (c : ReshufflerCtrl) (history : List Output) (s : State p) (i : Input) : Prop where
  results : results p c (acceptedWords history) = deliveredWords history ++ (offered s).toList
  busy : s.busy = true ↔ (deliveredWords history).length < c.tloop2Len.toNat
  bounded : (acceptedWords history).length ≤ total c ∧ (deliveredWords history).length ≤ c.tloop2Len.toNat
  moves : s.busy = true → i.ready = true → (i.data.isSome = true ∨ (offered s).isSome = true) →
    (accepted s i).isSome = true ∨ (delivered s i).isSome = true
  ended : s.busy = false → AtRest s ∧ (acceptedWords history).length = total c ∧
    s.peInputFireCounter = 0 ∧ s.peOutFireCounter = 0 ∧ Cleared (next s i)

theorem Run.contract {history : List Output} (run : Run c (acceptedWords history) (deliveredWords history) s)
    (proper : Proper c) (i : Input) : RunContract c history s i := by
  cases working : s.busy with
  | true =>
    obtain ⟨path,write,more⟩ := run.busy working
    exact ⟨path.results_eq proper working,iff_of_true working more,⟨run.bounded,more.le⟩,
      fun _ => path.moves proper working,fun idle => absurd (working.symm.trans idle) (by decide)⟩
  | false =>
    obtain ⟨rest,same,count,all,input,output⟩ := run.idle working
    obtain ⟨quiet,nothing,silent⟩ := idle_quiet working i
    refine ⟨by simp [nothing,← same],iff_of_false (by simp [working]) (by omega),⟨run.bounded,count.le⟩,
      fun busy => absurd (working.symm.trans busy) (by decide),fun _ => ?_⟩
    exact ⟨rest,all,input,output,(idle_cycle rest i).1⟩

/-- The cycle in which a unit at rest takes a configuration. -/
theorem Run.start {csr : BitVec 32} (proper : Proper (ctrlOf csr)) (rest : AtRest s) {first : Input}
    (given : first.ctrl = some csr) : Run (ctrlOf csr) [] [] (next s first) := by
  obtain ⟨cleared,mux,lane⟩ := idle_cycle rest first
  have config : configValid s first = some csr := by simp [configValid,rest.idle,given]
  have busy : (next s first).busy = true := by simp [next,rest.idle,config]
  have ctrl : (next s first).ctrlCsr = ctrlOf csr := by simp [next,config]
  refine ⟨Nat.zero_le _,fun _ => ⟨?_,?_,proper.tloop2Len⟩,fun idle => absurd (busy.symm.trans idle) (by decide)⟩
  · by_cases pools : (ctrlOf csr).opcode = 2
    · have due : resultDue (next s first) = false := by
        rw [resultDue,lane]
        rfl
      have keep : (next s first).lane.keepOutput = false := (Bool.or_eq_false_iff.mp lane).2
      refine .pool pools ⟨ctrl,mux,proper.reduceLen,?_,?_,fun some => absurd rfl some,fun _ => rfl⟩ ?_
      · rw [cleared.input]
        rfl
      · rw [cleared.output,lane]
        rfl
      · rw [results_of_pool pools,heldResult,due]
        rfl
    · refine .mux pools ⟨ctrl,lane,cleared.input,cleared.output,?_⟩
      rw [mux]
      rfl
  · rw [cleared.write]
    rfl

theorem words_concat (history : List Output) (s : State p) (i : Input) :
    acceptedWords (history ++ [out s i]) = acceptedWords history ++ (accepted s i).toList ∧
      deliveredWords (history ++ [out s i]) = deliveredWords history ++ (delivered s i).toList := by
  constructor
  · rw [acceptedWords,List.filterMap_append]
    cases same : accepted s i <;> simp [out,same,acceptedWords]
  · rw [deliveredWords,List.filterMap_append]
    cases same : delivered s i <;> simp [out,same,deliveredWords]

/-- The cycles in which the receiver is ready for a word that is there. -/
def eager (s : State p) (i : Input) : Bool := i.ready && (i.data.isSome || (offered s).isSome)

/-- From the cycle in which a unit at rest takes a configuration on, until it takes the next one,
the contract holds in every cycle; and after more eager cycles than there are words in and out
the run has ended. Two runs that transpose give back the words. -/
theorem reshuffler_run_law {csr : BitVec 32} (proper : Proper (ctrlOf csr))
    (narrow : (ctrlOf csr).opcode = 2 → p.inputWidth ≤ 8) {s : State p} (rest : AtRest s)
    {first : Input} (given : first.ctrl = some csr) {stream : List Input}
    (lawful : (reshuffler p).Each (fun history t i => Lawful (ctrlOf csr) (acceptedWords history) t i)
      (next s first) stream) :
    (reshuffler p).Each (RunContract (ctrlOf csr)) (next s first) stream ∧
      (total (ctrlOf csr) + (ctrlOf csr).tloop2Len.toNat < (reshuffler p).cycles eager (next s first) stream →
        ((reshuffler p).exec (next s first) stream).busy = false ∧
        deliveredWords ((reshuffler p).outs (next s first) stream) =
          results p (ctrlOf csr) (acceptedWords ((reshuffler p).outs (next s first) stream)) ∧
        (deliveredWords ((reshuffler p).outs (next s first) stream)).length =
          (ctrlOf csr).tloop2Len.toNat) ∧
      ((ctrlOf csr).opcode = 1 → ∀ words,
        results p (ctrlOf csr) (results p (ctrlOf csr) words) = words) := by
  have start := Run.start proper rest given
  have step : ∀ history t i, Run (ctrlOf csr) (acceptedWords history) (deliveredWords history) t →
      Lawful (ctrlOf csr) (acceptedWords history) t i →
      Run (ctrlOf csr) (acceptedWords (history ++ [(reshuffler p).out t i]))
        (deliveredWords (history ++ [(reshuffler p).out t i])) ((reshuffler p).next t i) := by
    intro history t i run lawful
    obtain ⟨words,delivered⟩ := words_concat history t i
    change Run _ (acceptedWords (history ++ [out t i])) (deliveredWords (history ++ [out t i])) _
    rw [words,delivered]
    exact run.cycle proper narrow lawful
  have contract := (Machine.each_of_run_rule (fun history t =>
    Run (ctrlOf csr) (acceptedWords history) (deliveredWords history) t) lawful start step).mono
      fun history t i run => run.contract proper i
  have run := Machine.run_rule_each (fun history t =>
    Run (ctrlOf csr) (acceptedWords history) (deliveredWords history) t) lawful start step
  refine ⟨contract,fun long => ?_,fun transposes words => ?_⟩
  · have ends := Machine.run_progress_cycles
      (fun history _ => (acceptedWords history).length + (deliveredWords history).length)
      (fun t => t.busy = false) eager (lawful.and contract) ?_ ?_
    · have few : (deliveredWords ((reshuffler p).outs (next s first) stream)).length ≤
          (ctrlOf csr).tloop2Len.toNat := by
        cases working : ((reshuffler p).exec (next s first) stream).busy with
        | true => exact (run.busy working).2.2.le
        | false => exact (run.idle working).2.2.1.le
      have bounded := run.bounded
      have idle := ends.resolve_right (by omega)
      obtain ⟨_,same,count,_⟩ := run.idle idle
      exact ⟨idle,same,count⟩
    · intro history t i both idle
      change (next t i).busy = false
      simp [next,idle,both.1.config]
    · intro history t i both working
      have busy : t.busy = true := by simpa using working
      have moves := both.2.moves busy
      obtain ⟨words,delivered⟩ := words_concat history t i
      change _ ≤ (acceptedWords (history ++ [out t i])).length + (deliveredWords (history ++ [out t i])).length
      rw [words,delivered,List.length_append,List.length_append]
      cases attempt : eager t i with
      | false => simp only [Bool.toNat_false]; omega
      | true =>
        rw [eager,Bool.and_eq_true,Bool.or_eq_true] at attempt
        rcases moves attempt.1 attempt.2 with taken | given
        · obtain ⟨x,same⟩ := Option.isSome_iff_exists.mp taken
          rw [same]
          simp only [Bool.toNat_true,Option.toList_some,List.length_singleton]
          omega
        · obtain ⟨y,same⟩ := Option.isSome_iff_exists.mp given
          rw [same]
          simp only [Bool.toNat_true,Option.toList_some,List.length_singleton]
          omega
  · exact results_transposed transposes words

theorem initial_rest (p : ReshufflerParams) (ctrlCsr : ReshufflerCtrl) : AtRest (initial p ctrlCsr) :=
  ⟨rfl,rfl,rfl⟩

/-- `DefaultConfig.ReshufflerConfig`. -/
def defaultConfig : ReshufflerParams := ⟨64,8,rfl⟩

/-- One maximum of two words. -/
def twoToOne : BitVec 32 := 0x10A

theorem twoToOne_proper : Proper (ctrlOf twoToOne) := ⟨by decide,by decide,by decide⟩

def afterConfig : State defaultConfig :=
  next (initial defaultConfig (ctrlOf 0)) ⟨some twoToOne,none,true⟩

theorem reshuffler_run_law_twoToOne : (reshuffler defaultConfig).Each (RunContract (ctrlOf twoToOne)) afterConfig
    [⟨none,some 5,true⟩,⟨none,some 7,false⟩,⟨none,none,true⟩] := by
  have given : (⟨some twoToOne,none,true⟩ : Input).ctrl = some twoToOne := rfl
  refine (reshuffler_run_law twoToOne_proper (fun _ => Nat.le_refl 8) (initial_rest defaultConfig (ctrlOf 0))
    given ?_).1
  refine .cons ⟨ite_self _,fun many => absurd many (by decide)⟩
    (.cons ⟨ite_self _,fun many => ?_⟩ (.cons ⟨ite_self _,fun _ => rfl⟩ (.nil _)))
  have two : total (ctrlOf twoToOne) = 2 := by decide
  have one : (acceptedWords [out afterConfig ⟨none,some 5,true⟩]).length ≤ 1 := List.length_filterMap_le ..
  exact absurd (two ▸ many.trans one) (by decide)

end Snax.Reshuffler
