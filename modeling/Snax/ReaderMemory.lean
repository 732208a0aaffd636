import Snax.AddressLaw
import Snax.Reader
import Snax.Sync.Credit

/-! A Reader in front of a TCDM that grants requests and answers them in order per
channel, at any time from the next cycle on, with any data. Its invariant ties address
queue, credit counter, requests in flight and lane queue of each channel to one stream
of words, whatever the consumer does. -/
namespace Snax.ReaderMemory

variable (param : ReaderParam)

structure State where
  reader : Reader.State param
  outstanding : Fin param.numChannel → List (Reader.Address param)

structure Input where
  aguCfg : AddressGenUnitCfgIO param.aguParam
  readerwriterCfg : ReaderWriterCfgIO param.toReaderWriterParam
  start : Bool
  dataReady : Bool
  grant : Fin param.numChannel → Bool
  /-- The answer the memory is ready to give, sent only if a request is unanswered. -/
  respond : Fin param.numChannel → Option (Reader.Word param)

/-- What happens in one cycle: the configuration in force, vectors entering the address buffer, requests granted and
answered, words entering a lane with the address they stand for, combined words leaving
the data buffer, and words delivered on `io.data`. -/
structure Event where
  aguCfg : AddressGenUnitCfgIO param.aguParam
  enable : Fin param.numChannel → Bool
  pushed : Option (Fin param.numChannel → Reader.Address param)
  accepted : Fin param.numChannel → Option (Reader.Address param)
  answered : Fin param.numChannel → Option (Reader.Address param × Reader.Word param)
  filled : Fin param.numChannel → Option (Reader.Address param × Reader.Word param)
  popped : Option (Reader.WideWord param)
  delivered : Option (Reader.WideWord param)

variable {param}

def initial (param : ReaderParam) : State param := ⟨Reader.initial param,fun _ => []⟩

def tcdmRsp (s : State param) (i : Input param) (c : Fin param.numChannel) :
    Option (Reader.Word param) :=
  if (s.outstanding c).isEmpty then none else i.respond c

def readerInput (s : State param) (i : Input param) : Reader.Input param where
  aguCfg := i.aguCfg
  readerwriterCfg := i.readerwriterCfg
  start := i.start
  tcdmReqReady := i.grant
  tcdmRsp := tcdmRsp s i
  dataReady := i.dataReady

def enable (i : Input param) (c : Fin param.numChannel) : Bool := i.readerwriterCfg.enable c

/-- The address a channel submits, as a real request or, when disabled, as a fake one. -/
def submitted (s : State param) (i : Input param) (c : Fin param.numChannel) :
    Option (Reader.Address param) :=
  if Reader.reqSubmit s.reader (readerInput s i) c then Reader.addrBits s.reader c else none

def accepted (s : State param) (i : Input param) (c : Fin param.numChannel) :
    Option (Reader.Address param) :=
  if Reader.tcdmReqFire s.reader (readerInput s i) c then Reader.addrBits s.reader c else none

def answered (s : State param) (i : Input param) (c : Fin param.numChannel) :
    Option (Reader.Address param × Reader.Word param) :=
  (s.outstanding c).head?.bind fun addr => (i.respond c).map fun data => (addr,data)

def filled (s : State param) (i : Input param) (c : Fin param.numChannel) :
    Option (Reader.Address param × Reader.Word param) :=
  if enable i c then answered s i c else (submitted s i c).map (·,0)

def popped (s : State param) (i : Input param) : Bool :=
  Reader.dataFifoPopped s.reader (readerInput s i)

def next (s : State param) (i : Input param) : State param where
  reader := Reader.next s.reader (readerInput s i)
  outstanding := fun c =>
    (if (answered s i c).isSome then (s.outstanding c).tail else s.outstanding c) ++
      (accepted s i c).toList

def out (s : State param) (i : Input param) : Event param where
  aguCfg := i.aguCfg
  enable := enable i
  pushed := (AddressGenUnit.out s.reader.addressgen
    (Reader.addressgenInput s.reader (readerInput s i))).pushed
  accepted := accepted s i
  answered := answered s i
  filled := filled s i
  popped := if popped s i then ComplexQueueConcat.front s.reader.dataBuffer else none
  delivered :=
    if Reader.outFire s.reader (readerInput s i) then ComplexQueueConcat.front s.reader.dataBuffer
    else none

def system (param : ReaderParam) : Sync.Machine (State param) (Input param) (Event param) where
  next := next
  out := out

def pushedOn (c : Fin param.numChannel) (history : List (Event param)) : List (Reader.Address param) :=
  (history.filterMap Event.pushed).map (· c)

def answeredOn (c : Fin param.numChannel) (history : List (Event param)) :
    List (Reader.Address param × Reader.Word param) := history.filterMap (·.answered c)

def filledOn (c : Fin param.numChannel) (history : List (Event param)) :
    List (Reader.Address param × Reader.Word param) := history.filterMap (·.filled c)

def poppedWords (history : List (Event param)) : List (Reader.WideWord param) :=
  history.filterMap Event.popped

def front (s : State param) : Option (Reader.WideWord param) :=
  ComplexQueueConcat.front s.reader.dataBuffer

def addrQueue (s : State param) (c : Fin param.numChannel) : List (Reader.Address param) :=
  (s.reader.addressgen.outputBuffer c).elems

def lane (s : State param) (c : Fin param.numChannel) : List (Reader.Word param) :=
  (s.reader.dataBuffer c).elems

def utilization (s : State param) (c : Fin param.numChannel) : Nat :=
  (s.reader.fifoUtilization c).toNat

def credits (s : State param) (c : Fin param.numChannel) : Sync.Credit.Lane where
  credit := utilization s c
  waiting := (s.outstanding c).length
  stored := (lane s c).length

/-- A disabled channel with a request unanswered hears no answer and submits no zero. -/
def MaskHeld (s : State param) (i : Input param) : Prop :=
  ∀ c, enable i c = true ∨ s.outstanding c = [] ∨ (answered s i c = none ∧ submitted s i c = none)

/-- The words of a channel, from the generator to the combined output. -/
structure Aligned (history : List (Event param)) (s : State param) : Prop where
  addresses : ∀ c, pushedOn c history =
    (filledOn c history).map Prod.fst ++ s.outstanding c ++ addrQueue s c
  words : ∀ c, (filledOn c history).map Prod.snd =
    (poppedWords history).map (· c) ++ lane s c
  credit : ∀ c, Sync.Credit.Sound param.bufferDepth (credits s c)

theorem submitted_isSome (s : State param) (i : Input param) (c : Fin param.numChannel) :
    (submitted s i c).isSome = Reader.reqSubmit s.reader (readerInput s i) c := by
  unfold submitted
  cases h : Reader.reqSubmit s.reader (readerInput s i) c with
  | false => rfl
  | true =>
    rw [if_pos rfl]
    simp only [Reader.reqSubmit,Bool.and_eq_true] at h
    exact h.1

/-- A submitted request left the address queue for the memory or for the lane. -/
theorem reqSubmit_eq (s : State param) (i : Input param) (c : Fin param.numChannel) :
    Reader.reqSubmit s.reader (readerInput s i) c =
      if enable i c then Reader.tcdmReqFire s.reader (readerInput s i) c
      else (Reader.addrBits s.reader c).isSome && Reader.rspReady s.reader (readerInput s i) c := by
  have same : (readerInput s i).readerwriterCfg.enable c = enable i c := rfl
  cases h : enable i c <;>
    simp [Reader.reqSubmit,Reader.addrReady,DataRequestor.addrReady,Reader.tcdmReqFire,
      Reader.tcdmReqValid,DataRequestor.tcdmReqValid,same,h]
  intro valid _ _
  exact valid

theorem accepted_eq (s : State param) (i : Input param) (c : Fin param.numChannel) :
    accepted s i c = if enable i c then submitted s i c else none := by
  have same : (readerInput s i).readerwriterCfg.enable c = enable i c := rfl
  unfold accepted submitted
  rw [reqSubmit_eq]
  cases h : enable i c with
  | true => rfl
  | false => simp [Reader.tcdmReqFire,Reader.tcdmReqValid,DataRequestor.tcdmReqValid,same,h]

theorem reqSubmit_ready {s : State param} {i : Input param} {c : Fin param.numChannel}
    (submit : Reader.reqSubmit s.reader (readerInput s i) c = true) :
    Reader.rspReady s.reader (readerInput s i) c = true := by
  rw [reqSubmit_eq] at submit
  cases h : enable i c with
  | true =>
    have same : (readerInput s i).readerwriterCfg.enable c = true := h
    simp [h,Reader.tcdmReqFire,Reader.tcdmReqValid,DataRequestor.tcdmReqValid,same] at submit
    exact submit.1.2
  | false =>
    simp [h] at submit
    exact submit.2

theorem tcdmRsp_eq (s : State param) (i : Input param) (c : Fin param.numChannel) :
    tcdmRsp s i c = (answered s i c).map Prod.snd := by
  unfold tcdmRsp answered
  cases queue : s.outstanding c <;> cases i.respond c <;> simp

/-- What the responser offers to a lane is the word recorded for it. -/
theorem laneData_eq (s : State param) (i : Input param) (c : Fin param.numChannel) :
    Reader.laneData s.reader (readerInput s i) c = (filled s i c).map Prod.snd := by
  have same : (readerInput s i).readerwriterCfg.enable c = enable i c := rfl
  have response : (readerInput s i).tcdmRsp c = tcdmRsp s i c := rfl
  unfold Reader.laneData DataResponser.dataOut filled
  rw [same,response]
  cases h : enable i c with
  | true => simp [tcdmRsp_eq]
  | false =>
    rw [← submitted_isSome]
    cases submitted s i c <;> simp

theorem addrQueue_next (s : State param) (i : Input param) (c : Fin param.numChannel) :
    (submitted s i c).toList ++ addrQueue (next s i) c =
      addrQueue s c ++ ((out s i).pushed.map (· c)).toList := by
  have leaving : submitted s i c = (s.reader.addressgen.outputBuffer c).given
      (Reader.addrReady s.reader (readerInput s i) c) := Queue.given_of_fire _ _
  rw [leaving]
  exact AddressGenUnit.buffer_next s.reader.addressgen
    (Reader.addressgenInput s.reader (readerInput s i)) c

theorem outstanding_next (s : State param) (i : Input param) (c : Fin param.numChannel) :
    ((answered s i c).map Prod.fst).toList ++ (next s i).outstanding c =
      s.outstanding c ++ (accepted s i c).toList := by
  cases queue : s.outstanding c <;> cases response : i.respond c <;>
    simp [next,answered,queue,response]

theorem popped_valid {s : State param} {i : Input param} (pop : popped s i = true) :
    ∀ c, lane s c ≠ [] := by
  simp only [popped,Reader.dataFifoPopped,Bool.and_eq_true] at pop
  exact (ComplexQueueConcat.allValid_iff _).mp pop.1

theorem popped_isSome (s : State param) (i : Input param) :
    (out s i).popped.isSome = popped s i := by
  cases pop : popped s i with
  | false => simp [out,pop]
  | true =>
    simp only [out,pop,↓reduceIte,ComplexQueueConcat.front_isSome,ComplexQueueConcat.allValid_iff]
    exact popped_valid pop

/-- A combined word leaves all lanes at once, one slice from the front of each. -/
theorem popped_slice (s : State param) (i : Input param) (c : Fin param.numChannel) :
    (out s i).popped.map (· c) = if popped s i then (lane s c).head? else none := by
  cases pop : popped s i with
  | false => simp [out,pop]
  | true =>
    have valid := popped_isSome s i
    rw [pop,Option.isSome_iff_exists] at valid
    obtain ⟨word,front⟩ := valid
    rw [front,if_pos rfl]
    simp only [out,pop,↓reduceIte] at front
    exact (ComplexQueueConcat.front_eq_some.mp front c).symm

/-- What the channel's moves are in the terms of credit flow control. -/
def moves (s : State param) (i : Input param) (c : Fin param.numChannel) : Sync.Credit.Moves where
  request := (accepted s i c).isSome
  filler := !enable i c && (submitted s i c).isSome
  answer := (answered s i c).isSome
  pop := popped s i

theorem depth_fits (param : ReaderParam) : param.bufferDepth + 1 ≤ 2 ^ log2Up (param.bufferDepth + 1) :=
  le_two_pow_log2Up _

theorem lastIndex_ceil : lastIndex (DataResponser.ceil param.bufferDepth) = param.bufferDepth :=
  lastIndex_ofNat_succ _ (by simp [log2Up]) (depth_fits param)

theorem submit_eq_moves (s : State param) (i : Input param) (c : Fin param.numChannel) :
    Reader.reqSubmit s.reader (readerInput s i) c = ((moves s i c).request || (moves s i c).filler) := by
  rw [← submitted_isSome,moves,accepted_eq]
  cases enable i c <;> simp

/-- The wiring of requestor and responser keeps to the discipline of credits. -/
theorem allowed_moves {s : State param} {i : Input param} {c : Fin param.numChannel}
    (sound : Sync.Credit.Sound param.bufferDepth (credits s c)) (held : MaskHeld s i) :
    Sync.Credit.Allowed param.bufferDepth (credits s c) (moves s i c) where
  credit := by
    intro request
    rw [← Bool.or_eq_true,← submit_eq_moves] at request
    have ready := reqSubmit_ready request
    have bound := sound.bound
    simp only [Reader.rspReady,DataResponser.rspReady,UpDownCounter.lastVal,lastIndex_ceil,
      Bool.or_eq_true,Bool.not_eq_true',beq_eq_false_iff_ne] at ready
    rcases ready with below | pop
    · exact Or.inl (Nat.lt_of_le_of_ne bound below)
    · exact Or.inr pop
  oneKind := by
    intro filler
    simp only [moves,Bool.and_eq_true,Bool.not_eq_true'] at filler
    refine ⟨by simp [moves,accepted_eq,filler.1],?_⟩
    rcases held c with on | none | ⟨_,quiet⟩
    · simp [filler.1] at on
    · simp [credits,none]
    · simp [quiet] at filler
  answer := by
    intro answer
    simp only [moves,answered] at answer
    cases queue : s.outstanding c with
    | nil => simp [queue] at answer
    | cons addr rest => simp [credits,queue]
  pop := fun pop => by simpa [credits,List.length_pos_iff] using popped_valid pop c

/-- A word offered to a lane is an answer or a filler. -/
theorem filled_isSome {s : State param} {i : Input param} (held : MaskHeld s i)
    (c : Fin param.numChannel) :
    (filled s i c).isSome = ((moves s i c).answer || (moves s i c).filler) := by
  simp only [filled,moves]
  cases on : enable i c with
  | true => simp
  | false =>
    rcases held c with enabled | none | ⟨quiet,_⟩
    · simp [on] at enabled
    · simp [answered,none]
    · simp [quiet]

/-- The ready signal that the responser ignores is high whenever it matters. -/
theorem lane_room {s : State param} {i : Input param} {c : Fin param.numChannel}
    (sound : Sync.Credit.Sound param.bufferDepth (credits s c)) (held : MaskHeld s i)
    (arrives : (Reader.laneData s.reader (readerInput s i) c).isSome = true) :
    Reader.laneReady s.reader (readerInput s i) c = true := by
  rw [laneData_eq,Option.isSome_map,filled_isSome held,Bool.or_eq_true] at arrives
  have room := Sync.Credit.room sound (allowed_moves sound held) arrives
  have valid : Reader.dataFifoPopped s.reader (readerInput s i) = true →
      Reader.outValid s.reader = true := by
    simp only [Reader.dataFifoPopped,Bool.and_eq_true]
    exact And.left
  simp only [Reader.laneReady,Queue.enqReady,Bool.true_and,Bool.or_eq_true,decide_eq_true_eq,
    Bool.and_eq_true]
  exact room.imp id fun pop => ⟨valid pop,pop⟩

theorem lane_next {s : State param} {i : Input param} {c : Fin param.numChannel}
    (sound : Sync.Credit.Sound param.bufferDepth (credits s c)) (held : MaskHeld s i) :
    ((out s i).popped.map (· c)).toList ++ lane (next s i) c =
      lane s c ++ ((filled s i c).map Prod.snd).toList := by
  have pops : (ComplexQueueConcat.allValid s.reader.dataBuffer &&
      Reader.dataFifoPopped s.reader (readerInput s i)) = popped s i := by
    simp only [popped,Reader.dataFifoPopped,Reader.outValid,← Bool.and_assoc,Bool.and_self]
  have conserved := Queue.next_conserves true (s.reader.dataBuffer c)
    (Reader.laneData s.reader (readerInput s i) c) (popped s i)
  have taken : (s.reader.dataBuffer c).taken true (Reader.laneData s.reader (readerInput s i) c)
      (popped s i) = (filled s i c).map Prod.snd := by
    rw [← laneData_eq]
    cases arrives : Reader.laneData s.reader (readerInput s i) c with
    | none => simp
    | some word =>
      refine Queue.taken_of_ready ?_
      rw [← pops]
      exact lane_room sound held (by simp [arrives])
  have after : lane (next s i) c = ((s.reader.dataBuffer c).next true
      (Reader.laneData s.reader (readerInput s i) c) (popped s i)).elems := by
    simp only [lane,next,Reader.next,ComplexQueueConcat.gather,pops]
  rw [popped_slice,after]
  rw [taken] at conserved
  exact conserved

theorem credits_next {s : State param} {i : Input param} {c : Fin param.numChannel}
    (sound : Sync.Credit.Sound param.bufferDepth (credits s c)) (held : MaskHeld s i) :
    Sync.Credit.Sound param.bufferDepth (credits (next s i) c) := by
  have allowed := allowed_moves sound held
  have bound := sound.bound
  have balance := sound.balance
  refine Sync.Credit.sound_step sound allowed ?_ ?_ ?_
  · have fits : lastIndex (DataResponser.ceil param.bufferDepth) <
        2 ^ log2Up (param.bufferDepth + 1) := by
      have := depth_fits param
      rw [lastIndex_ceil]
      omega
    have moved := UpDownCounter.next_balance (Reader.reqSubmit s.reader (readerInput s i) c)
      (popped s i) (DataResponser.ceil param.bufferDepth) (s.reader.fifoUtilization c) fits
      (by rw [lastIndex_ceil]; exact bound)
      (fun submit keep => by
        rw [submit_eq_moves,Bool.or_eq_true] at submit
        rw [lastIndex_ceil]
        exact (allowed.credit submit).resolve_right (by simp [moves,keep]))
      (fun pop _ => by
        have := allowed.pop pop
        change 0 < (credits s c).credit
        omega)
    rw [submit_eq_moves] at moved
    have after : (credits (next s i) c).credit = (UpDownCounter.next false
      (Reader.reqSubmit s.reader (readerInput s i) c) (popped s i)
      (DataResponser.ceil param.bufferDepth) (s.reader.fifoUtilization c)).toNat := rfl
    rw [after,submit_eq_moves]
    exact moved
  · have flow := congrArg List.length (outstanding_next s i c)
    simp only [List.length_append,length_toList,Option.isSome_map] at flow
    simp only [credits,moves]
    omega
  · have flow := congrArg List.length (lane_next (c := c) sound held)
    rw [List.length_append,List.length_append,length_toList,length_toList,Option.isSome_map,
      Option.isSome_map,filled_isSome held,popped_isSome] at flow
    simp only [credits,moves] at flow ⊢
    omega

/-- The flight of a channel starts with a submission and ends in its lane. -/
theorem flight_next {s : State param} {i : Input param} (held : MaskHeld s i)
    (c : Fin param.numChannel) :
    ((filled s i c).map Prod.fst).toList ++ (next s i).outstanding c =
      s.outstanding c ++ (submitted s i c).toList := by
  have flow := outstanding_next s i c
  rw [accepted_eq] at flow
  cases on : enable i c with
  | true => simpa [filled,on] using flow
  | false =>
    rcases held c with enabled | none | ⟨deaf,quiet⟩
    · simp [on] at enabled
    · have deaf : answered s i c = Option.none := by simp [answered,none]
      simp only [deaf,none,on,Option.map_none,Option.toList_none,List.nil_append,
        Bool.false_eq_true,↓reduceIte,List.append_nil] at flow
      cases sub : submitted s i c <;> simp [filled,on,sub,flow,none]
    · simp only [deaf,on,Option.map_none,Option.toList_none,List.nil_append,Bool.false_eq_true,
        ↓reduceIte,List.append_nil] at flow
      simp [filled,on,quiet,flow]

theorem filledOn_next (history : List (Event param)) (s : State param) (i : Input param)
    (c : Fin param.numChannel) :
    filledOn c (history ++ [out s i]) = filledOn c history ++ (filled s i c).toList := by
  cases full : filled s i c <;> simp [filledOn,out,full]

theorem answeredOn_next (history : List (Event param)) (s : State param) (i : Input param)
    (c : Fin param.numChannel) :
    answeredOn c (history ++ [out s i]) = answeredOn c history ++ (answered s i c).toList := by
  cases full : answered s i c <;> simp [answeredOn,out,full]

theorem pushedOn_next (history : List (Event param)) (s : State param) (i : Input param)
    (c : Fin param.numChannel) :
    pushedOn c (history ++ [out s i]) =
      pushedOn c history ++ ((out s i).pushed.map (· c)).toList := by
  cases pushed : (out s i).pushed <;> simp [pushedOn,pushed]

theorem poppedWords_next (history : List (Event param)) (s : State param) (i : Input param)
    (c : Fin param.numChannel) :
    (poppedWords (history ++ [out s i])).map (· c) =
      (poppedWords history).map (· c) ++ ((out s i).popped.map (· c)).toList := by
  cases word : (out s i).popped <;> simp [poppedWords,word]

theorem aligned_next {history : List (Event param)} {s : State param} {i : Input param}
    (aligned : Aligned history s) (held : MaskHeld s i) :
    Aligned (history ++ [out s i]) (next s i) where
  addresses c := by
    have queued := addrQueue_next s i c
    have flying := flight_next held c
    rw [Option.toList_map] at flying
    rw [pushedOn_next,filledOn_next,aligned.addresses c,List.map_append]
    calc (filledOn c history).map Prod.fst ++ s.outstanding c ++ addrQueue s c ++
          ((out s i).pushed.map (· c)).toList
        = (filledOn c history).map Prod.fst ++ (s.outstanding c ++ (submitted s i c).toList) ++
          addrQueue (next s i) c := by simp only [List.append_assoc,queued]
      _ = _ := by simp only [← flying,List.append_assoc]
  words c := by
    have flow := lane_next (aligned.credit c) held
    rw [Option.toList_map (o := filled s i c)] at flow
    rw [filledOn_next,poppedWords_next,List.map_append,aligned.words c,List.append_assoc,
      List.append_assoc,flow]
  credit c := credits_next (aligned.credit c) held

/-- The k-th combined word, popped or in front, is the k-th fill of each lane, filed under
the k-th address. -/
theorem aligned_fetched {history : List (Event param)} {s : State param}
    (aligned : Aligned history s) {k : Nat} {word : Reader.WideWord param}
    (kth : (poppedWords history ++ (front s).toList)[k]? = some word) (c : Fin param.numChannel) :
    ∃ addr, (pushedOn c history)[k]? = some addr ∧
      (filledOn c history)[k]? = some (addr,word c) := by
  have slice : ((poppedWords history ++ (front s).toList).map (· c))[k]? = some (word c) := by
    rw [List.getElem?_map,kth,Option.map_some]
  have inLane : ((front s).toList).map (· c) <+: lane s c := by
    cases present : front s with
    | none => simp
    | some wide =>
      have head := ComplexQueueConcat.front_eq_some.mp present c
      obtain ⟨rest,list⟩ := List.head?_eq_some_iff.mp head
      exact ⟨rest,list.symm⟩
  have stored : ((filledOn c history).map Prod.snd)[k]? = some (word c) := by
    rw [aligned.words c]
    rw [List.map_append] at slice
    exact Sync.getElem?_of_prefix ((List.prefix_append_right_inj _).mpr inLane) slice
  rw [List.getElem?_map] at stored
  obtain ⟨entry,atIndex,same⟩ := Option.map_eq_some_iff.mp stored
  refine ⟨entry.1,?_,by rw [atIndex,← same]⟩
  rw [aligned.addresses c,List.append_assoc]
  exact Sync.getElem?_of_prefix (List.prefix_append _ _) (by simp [atIndex])

/-- Nothing queued, in flight or stored: where a task finds a Reader after reset. -/
structure Quiet (s : State param) : Prop where
  queued : ∀ c, addrQueue s c = []
  flying : ∀ c, s.outstanding c = []
  stored : ∀ c, lane s c = []
  credit : ∀ c, s.reader.fifoUtilization c = 0

theorem initial_quiet : Quiet (initial param) :=
  ⟨fun _ => rfl,fun _ => rfl,fun _ => rfl,fun _ => rfl⟩

theorem quiet_aligned {s : State param} (quiet : Quiet s) : Aligned [] s where
  addresses c := by simp [pushedOn,filledOn,quiet.queued c,quiet.flying c]
  words c := by simp [filledOn,poppedWords,quiet.stored c]
  credit c := by
    constructor <;> simp [credits,utilization,quiet.flying c,quiet.stored c,quiet.credit c]

theorem run_aligned {s : State param} (quiet : Quiet s) {inputs : List (Input param)}
    (held : (system param).Each (fun _ s i => MaskHeld s i) s inputs) :
    Aligned ((system param).outs s inputs) ((system param).exec s inputs) :=
  Sync.Machine.run_rule_each Aligned held (quiet_aligned quiet)
    fun _ _ _ aligned held => aligned_next aligned held

/-- Requests are outstanding on the channels of the mask only. -/
def Masked (mask : Fin param.numChannel → Bool) (s : State param) : Prop :=
  ∀ c, s.outstanding c ≠ [] → mask c = true

theorem masked_held {mask : Fin param.numChannel → Bool} {s : State param} {i : Input param}
    (masked : Masked mask s) (held : enable i = mask) : MaskHeld s i := by
  intro c
  rw [held]
  by_cases waiting : s.outstanding c = []
  · exact Or.inr (Or.inl waiting)
  · exact Or.inl (masked c waiting)

theorem masked_next {mask : Fin param.numChannel → Bool} {s : State param} {i : Input param}
    (masked : Masked mask s) (held : enable i = mask) : Masked mask (next s i) := by
  intro c waiting
  cases on : mask c with
  | true => rfl
  | false =>
    have none : s.outstanding c = [] := by
      by_contra flying
      simp [masked c flying] at on
    have off : enable i c = false := by rw [held]; exact on
    simp [next,none,accepted_eq,off] at waiting

/-- A mask held over a run is held on every channel that has a request unanswered. -/
theorem mask_each {mask : Fin param.numChannel → Bool} {s : State param} (masked : Masked mask s)
    {inputs : List (Input param)} (held : ∀ i ∈ inputs, enable i = mask) :
    (system param).Each (fun _ s i => MaskHeld s i) s inputs := by
  have stays : (system param).Each (fun _ s _ => Masked mask s) s inputs :=
    Sync.Machine.each_of_run_rule (fun _ s => Masked mask s) (Sync.Machine.Each.of_inputs held)
      masked fun _ _ _ masked held => masked_next masked held
  exact (stays.and (Sync.Machine.Each.of_inputs held)).mono
    fun _ _ _ both => masked_held both.1 both.2

/-- Under a held mask a lane is filled by the answers, or by zeros. -/
def FilledBy (mask : Fin param.numChannel → Bool) (history : List (Event param)) : Prop :=
  ∀ c, if mask c then filledOn c history = answeredOn c history
    else ∀ entry ∈ filledOn c history, entry.2 = 0

theorem filledBy_next {mask : Fin param.numChannel → Bool} {history : List (Event param)}
    {s : State param} {i : Input param} (sources : FilledBy mask history) (held : enable i = mask) :
    FilledBy mask (history ++ [out s i]) := by
  intro c
  have before := sources c
  have same : enable i c = mask c := by rw [held]
  rw [filledOn_next]
  cases on : mask c with
  | true =>
    rw [on,if_pos rfl] at before
    rw [if_pos rfl,answeredOn_next,before,filled,same,on,if_pos rfl]
  | false =>
    rw [on] at before
    simp only [Bool.false_eq_true,↓reduceIte] at before ⊢
    intro entry member
    rcases List.mem_append.mp member with old | new
    · exact before entry old
    · simp [filled,same,on] at new
      obtain ⟨addr,_,rfl⟩ := new
      rfl

/-- Credit safety: credits count the requests in flight and the words stored, never more
than the depth; every offered word finds room; and the k-th combined word joins, channel
by channel, the answer to the channel's k-th address, or zero on a disabled channel. -/
theorem credit_safety (mask : Fin param.numChannel → Bool) (inputs : List (Input param))
    (held : ∀ i ∈ inputs, enable i = mask) :
    let history := (system param).outs (initial param) inputs
    let s := (system param).exec (initial param) inputs
    (∀ c, (s.outstanding c).length + (lane s c).length = utilization s c ∧
      utilization s c ≤ param.bufferDepth) ∧
    (∀ i, enable i = mask → ∀ c, (Reader.laneData s.reader (readerInput s i) c).isSome = true →
      Reader.laneReady s.reader (readerInput s i) c = true) ∧
    (∀ (k : Nat) (word : Reader.WideWord param), (poppedWords history)[k]? = some word →
      ∀ c, ∃ addr, (pushedOn c history)[k]? = some addr ∧
        if mask c then (answeredOn c history)[k]? = some (addr,word c) else word c = 0) ∧
    (∀ c, (pushedOn c history).length = (poppedWords history).length + (lane s c).length +
      (s.outstanding c).length + (addrQueue s c).length) := by
  intro history s
  have fresh : Masked mask (initial param) := fun c waiting => absurd rfl waiting
  have each := mask_each fresh held
  have aligned : Aligned history s := run_aligned initial_quiet each
  have masked : Masked mask s := Sync.Machine.run_rule_each (fun _ s => Masked mask s)
    (Sync.Machine.Each.of_inputs held) fresh fun _ _ _ masked held => masked_next masked held
  have sources : FilledBy mask history := Sync.Machine.run_rule_each (fun past _ => FilledBy mask past)
    (Sync.Machine.Each.of_inputs held) (fun c => by cases mask c <;> simp [filledOn,answeredOn])
    fun _ _ _ sources held => filledBy_next sources held
  refine ⟨fun c => ?_,fun i same c arrives => ?_,fun k word kth c => ?_,fun c => ?_⟩
  · exact ⟨(aligned.credit c).balance.symm,(aligned.credit c).bound⟩
  · exact lane_room (aligned.credit c) (masked_held masked same) arrives
  · obtain ⟨addr,addressed,atIndex⟩ := aligned_fetched aligned
      (Sync.getElem?_of_prefix (List.prefix_append _ _) kth) c
    refine ⟨addr,addressed,?_⟩
    have source := sources c
    cases on : mask c with
    | true =>
      rw [on,if_pos rfl] at source
      rw [if_pos rfl,← source,atIndex]
    | false =>
      rw [on] at source
      simp only [Bool.false_eq_true,↓reduceIte] at source ⊢
      exact source _ (List.mem_of_getElem? atIndex)
  · have addresses := congrArg List.length (aligned.addresses c)
    have words := congrArg List.length (aligned.words c)
    simp only [List.length_append,List.length_map] at addresses words
    omega

/-- Two byte-wide channels under one temporal loop, one entry in every buffer. -/
def pairParam : ReaderParam where
  spatialBounds := [2]
  temporalDimension := 1
  tcdmDataWidth := 8
  tcdmSize := 1
  tcdmPhysWordSize := 256
  tcdmLogicWordSize := [256]
  numChannel := 2
  addressBufferDepth := 1
  dataBufferDepth := 1
  configurableChannel := true
  configurableByteMask := false
  crossClockDomain := false
  delayedStart := false
  spatialPositive := two_channels_positive
  spatialFits := two_channels_fit
  temporalPositive := Nat.one_pos
  addressDepthPositive := Nat.one_pos
  dataDepthPositive := Nat.one_pos
  remapNonempty := one_mapping
  noByteMask := rfl
  sameClock := rfl

def pairCfg (bound stride : BitVec 10) : AddressGenUnitCfgIO pairParam.aguParam where
  ptr := 0
  spatialStrides := #v[1]
  temporalBounds := #v[bound]
  temporalStrides := #v[stride]
  addressRemapIndex := 0

/-- A cycle of a memory that grants and answers at once and holds 9 everywhere. -/
def pairInput (cfg : AddressGenUnitCfgIO pairParam.aguParam) (mask : Fin 2 → Bool)
    (start ready : Bool) : Input pairParam where
  aguCfg := cfg
  readerwriterCfg := ⟨mask,0⟩
  start := start
  dataReady := ready
  grant := fun _ => true
  respond := fun _ => some 9

def firstOnly : Fin pairParam.numChannel → Bool := fun c => c.val == 0

/-- With the second channel disabled, the second combined word ends in a zero. -/
theorem credit_safety_pair :
    let inputs := pairInput (pairCfg 2 2) firstOnly true true ::
      List.replicate 7 (pairInput (pairCfg 2 2) firstOnly false true)
    ∃ word, (poppedWords ((system pairParam).outs (initial pairParam) inputs))[1]? = some word ∧
      word ⟨1,by decide⟩ = 0 := by
  intro inputs
  refine ⟨_,rfl,?_⟩
  have held : ∀ i ∈ inputs, enable i = firstOnly := by
    intro i member
    simp only [inputs,List.mem_cons,List.mem_replicate] at member
    rcases member with rfl | ⟨_,rfl⟩ <;> rfl
  obtain ⟨_,_,word⟩ := (credit_safety firstOnly inputs held).2.2.1 1 _ rfl ⟨1,by decide⟩
  exact word

end Snax.ReaderMemory
