import Snax.ReaderMemory
import Snax.Writer
import Snax.Sync.Join

/-! Address and data pairing in the Writer. A disabled channel empties both its queues
whatever arrives first, so an enabled channel pairs the k-th address with the k-th data
word only while equally many of both have left its queues. -/
namespace Snax.WriterPairing

open Sync.Join

variable (param : WriterParam)

/-- A task is the configuration it runs under. -/
structure Task where
  aguCfg : AddressGenUnitCfgIO param.aguParam
  enable : Fin param.numChannel → Bool

/-- What happens in one cycle: the configuration in force and whether it is started, the
vector pushed, the data word accepted, what leaves each queue, and the writes granted. -/
structure Event where
  task : Task param
  start : Bool
  pushed : Option (Fin param.numChannel → Writer.Address param)
  accepted : Option (Writer.WideWord param)
  addrPopped : Fin param.numChannel → Option (Writer.Address param)
  dataPopped : Fin param.numChannel → Option (Writer.Word param)
  written : Fin param.numChannel → Option (Writer.Address param × Writer.Word param)

variable {param}

def enable (i : Writer.Input param) (c : Fin param.numChannel) : Bool := i.readerwriterCfg.enable c

def addrPopped (s : Writer.State param) (i : Writer.Input param) (c : Fin param.numChannel) :
    Option (Writer.Address param) :=
  if Writer.addrReady s i c then Writer.addrBits s c else none

def dataPopped (s : Writer.State param) (i : Writer.Input param) (c : Fin param.numChannel) :
    Option (Writer.Word param) :=
  if Writer.addrReady s i c then Writer.dataBits s c else none

def accepted (s : Writer.State param) (i : Writer.Input param) : Option (Writer.WideWord param) :=
  if Writer.dataReady s i then i.data else none

def written (s : Writer.State param) (i : Writer.Input param) (c : Fin param.numChannel) :
    Option (Writer.Address param × Writer.Word param) :=
  if Writer.tcdmReqFire s i c then
    (Writer.tcdmReqBits s i c).map fun req => (req.addr,req.data)
  else none

def out (s : Writer.State param) (i : Writer.Input param) : Event param where
  task := ⟨i.aguCfg,enable i⟩
  start := i.start
  pushed := (AddressGenUnit.out s.addressgen (Writer.addressgenInput s i)).pushed
  accepted := accepted s i
  addrPopped := addrPopped s i
  dataPopped := dataPopped s i
  written := written s i

def system (param : WriterParam) :
    Sync.Machine (Writer.State param) (Writer.Input param) (Event param) where
  next := Writer.next
  out := out

/-- A vector of addresses with the channel mask it was issued under. -/
abbrev Issue (param : WriterParam) :=
  (Fin param.numChannel → Writer.Address param) × (Fin param.numChannel → Bool)

def issued (history : List (Event param)) : List (Issue param) :=
  history.filterMap fun e => e.pushed.map fun vector => (vector,e.task.enable)

def tasks (history : List (Event param)) : List (Task param) :=
  history.filterMap fun e => if e.start then some e.task else none

def acceptedWords (history : List (Event param)) : List (Writer.WideWord param) :=
  history.filterMap Event.accepted

def addrPopsOn (c : Fin param.numChannel) (history : List (Event param)) :
    List (Writer.Address param) := history.filterMap (·.addrPopped c)

def dataPopsOn (c : Fin param.numChannel) (history : List (Event param)) :
    List (Writer.Word param) := history.filterMap (·.dataPopped c)

def writesOn (c : Fin param.numChannel) (history : List (Event param)) :
    List (Writer.Address param × Writer.Word param) := history.filterMap (·.written c)

def addrQueue (s : Writer.State param) (c : Fin param.numChannel) : List (Writer.Address param) :=
  (s.addressgen.outputBuffer c).elems

def lane (s : Writer.State param) (c : Fin param.numChannel) : List (Writer.Word param) :=
  (s.dataBuffer c).elems

/-- The write that an issued vector and a data word make on a channel. -/
def pairOn (c : Fin param.numChannel) (x : Issue param) (word : Writer.WideWord param) :
    Option (Writer.Address param × Writer.Word param) :=
  if x.2 c then some (x.1 c,word c) else none

/-- Tasks are started on a Writer that is not busy, and configured by their start only. -/
structure Protocol (history : List (Event param)) (s : Writer.State param)
    (i : Writer.Input param) : Prop where
  idle : i.start = true → Writer.busy s = false
  held : i.start = false → ∀ e, history.getLast? = some e →
    i.aguCfg = e.task.aguCfg ∧ enable i = e.task.enable

/-- At the start of a task that generates addresses, as many data words as addresses have
left the queues of every channel that the task enables. -/
def StartInStep (history : List (Event param)) (_ : Writer.State param)
    (i : Writer.Input param) : Prop :=
  i.start = true → AddressGenUnit.cfgValid i.aguCfg = true → ∀ c, enable i c = true →
    (addrPopsOn c history).length = (dataPopsOn c history).length

structure Paired (history : List (Event param)) (s : Writer.State param) : Prop where
  addresses : ∀ c, (issued history).map (·.1 c) = addrPopsOn c history ++ addrQueue s c
  words : ∀ c, (acceptedWords history).map (· c) = dataPopsOn c history ++ lane s c
  written : ∀ c, writesOn c history =
    joined (pairOn c) ((issued history).take (addrPopsOn c history).length) (acceptedWords history)
  served : ∀ (c : Fin param.numChannel) (k : Nat) (x : Issue param), (issued history)[k]? = some x →
    k < (addrPopsOn c history).length → x.2 c = true → k < (acceptedWords history).length
  current : ∀ (c : Fin param.numChannel) (k : Nat) (x : Issue param), (issued history)[k]? = some x →
    (addrPopsOn c history).length ≤ k → ∀ e, history.getLast? = some e → x.2 = e.task.enable
  inStep : Writer.busy s = true → ∀ e, history.getLast? = some e → ∀ c, e.task.enable c = true →
    (addrPopsOn c history).length = (dataPopsOn c history).length
  fresh : history = [] → Writer.busy s = false

variable {history : List (Event param)} {s : Writer.State param} {i : Writer.Input param}

theorem issued_next (history : List (Event param)) (s : Writer.State param) (i : Writer.Input param) :
    issued (history ++ [out s i]) =
      issued history ++ ((out s i).pushed.map fun vector => (vector,enable i)).toList := by
  have same : (out s i).task.enable = enable i := rfl
  cases pushed : (out s i).pushed <;> simp [issued,pushed,same]

theorem tasks_next (history : List (Event param)) (s : Writer.State param) (i : Writer.Input param) :
    tasks (history ++ [out s i]) =
      tasks history ++ if i.start then [⟨i.aguCfg,enable i⟩] else [] := by
  cases start : i.start <;> simp [tasks,out,start]

theorem acceptedWords_next (history : List (Event param)) (s : Writer.State param)
    (i : Writer.Input param) :
    acceptedWords (history ++ [out s i]) = acceptedWords history ++ (accepted s i).toList := by
  cases word : accepted s i <;> simp [acceptedWords,out,word]

theorem addrPopsOn_next (history : List (Event param)) (s : Writer.State param)
    (i : Writer.Input param) (c : Fin param.numChannel) :
    addrPopsOn c (history ++ [out s i]) = addrPopsOn c history ++ (addrPopped s i c).toList := by
  cases addr : addrPopped s i c <;> simp [addrPopsOn,out,addr]

theorem dataPopsOn_next (history : List (Event param)) (s : Writer.State param)
    (i : Writer.Input param) (c : Fin param.numChannel) :
    dataPopsOn c (history ++ [out s i]) = dataPopsOn c history ++ (dataPopped s i c).toList := by
  cases word : dataPopped s i c <;> simp [dataPopsOn,out,word]

theorem writesOn_next (history : List (Event param)) (s : Writer.State param)
    (i : Writer.Input param) (c : Fin param.numChannel) :
    writesOn c (history ++ [out s i]) = writesOn c history ++ (written s i c).toList := by
  cases write : written s i c <;> simp [writesOn,out,write]

theorem addrQueue_next (s : Writer.State param) (i : Writer.Input param) (c : Fin param.numChannel) :
    (addrPopped s i c).toList ++ addrQueue (Writer.next s i) c =
      addrQueue s c ++ ((out s i).pushed.map (· c)).toList :=
  AddressGenUnit.buffer_next s.addressgen (Writer.addressgenInput s i) c

theorem lane_next (s : Writer.State param) (i : Writer.Input param) (c : Fin param.numChannel) :
    (dataPopped s i c).toList ++ lane (Writer.next s i) c =
      lane s c ++ ((accepted s i).map (· c)).toList :=
  ComplexQueueConcat.scatter_conserves false s.dataBuffer i.data (Writer.addrReady s i) c

theorem busy_iff (s : Writer.State param) : Writer.busy s = true ↔
    s.addressgen.currentState = .sBUSY ∨ ∃ c, addrQueue s c ≠ [] := by
  simp [Writer.busy,ComplexQueueConcat.allEmpty,Queue.deqValid_iff,addrQueue]

/-- On an enabled channel both queues give up an entry exactly with a write. -/
theorem enabled_pops {c : Fin param.numChannel} (on : enable i c = true) :
    addrPopped s i c = (written s i c).map Prod.fst ∧
      dataPopped s i c = (written s i c).map Prod.snd := by
  have same : i.readerwriterCfg.enable c = true := on
  have ready : Writer.addrReady s i c = Writer.tcdmReqFire s i c := by
    simp [Writer.addrReady,DataRequestor.addrReady,same]
  unfold addrPopped dataPopped written Writer.tcdmReqBits
  rw [ready]
  cases fire : Writer.tcdmReqFire s i c with
  | false => simp
  | true =>
    simp only [Writer.tcdmReqFire,Writer.tcdmReqValid,DataRequestor.tcdmReqValid,same,↓reduceIte,
      Bool.false_eq_true,Bool.and_eq_true] at fire
    obtain ⟨addr,atAddr⟩ := Option.isSome_iff_exists.mp fire.1.1
    obtain ⟨word,atWord⟩ := Option.isSome_iff_exists.mp fire.1.2
    simp [atAddr,atWord]

theorem disabled_written {c : Fin param.numChannel} (off : enable i c = false) :
    written s i c = none := by
  have same : i.readerwriterCfg.enable c = false := off
  simp [written,Writer.tcdmReqFire,Writer.tcdmReqValid,DataRequestor.tcdmReqValid,same]

theorem addrPopped_cons {c : Fin param.numChannel} {addr : Writer.Address param}
    (pop : addrPopped s i c = some addr) : ∃ rest, addrQueue s c = addr :: rest := by
  unfold addrPopped at pop
  split at pop
  · exact List.head?_eq_some_iff.mp pop
  · contradiction

theorem dataPopped_cons {c : Fin param.numChannel} {word : Writer.Word param}
    (pop : dataPopped s i c = some word) : ∃ rest, lane s c = word :: rest := by
  unfold dataPopped at pop
  split at pop
  · exact List.head?_eq_some_iff.mp pop
  · contradiction

/-- While the Writer is busy the mask of the cycle is the mask of everything waiting. -/
theorem paired_now (inv : Paired history s) (protocol : Protocol history s i)
    (busy : Writer.busy s = true) :
    (∀ (c : Fin param.numChannel) (k : Nat) (x : Issue param), (issued history)[k]? = some x →
      (addrPopsOn c history).length ≤ k → x.2 = enable i) ∧
    ∀ c, enable i c = true → (addrPopsOn c history).length = (dataPopsOn c history).length := by
  have noStart : i.start = false := by
    rw [← Bool.not_eq_true]
    intro start
    have := protocol.idle start
    simp [busy] at this
  cases last : history.getLast? with
  | none =>
    have := inv.fresh (List.getLast?_eq_none_iff.mp last)
    simp [busy] at this
  | some e =>
    have held := (protocol.held noStart e last).2
    refine ⟨fun c k x atIndex waiting => ?_,fun c on => ?_⟩
    · rw [held]
      exact inv.current c k x atIndex waiting e last
    · rw [held] at on
      exact inv.inStep busy e last c on

theorem addrPops_le (inv : Paired history s) (c : Fin param.numChannel) :
    (addrPopsOn c history).length ≤ (issued history).length := by
  have addresses := congrArg List.length (inv.addresses c)
  simp only [List.length_map,List.length_append] at addresses
  omega

/-- The address in front of a channel is that of the first vector it has not given up. -/
theorem front_issue (inv : Paired history s) {c : Fin param.numChannel}
    {addr : Writer.Address param} {rest : List (Writer.Address param)}
    (queue : addrQueue s c = addr :: rest) :
    ∃ x, (issued history)[(addrPopsOn c history).length]? = some x ∧ x.1 c = addr := by
  have place : ((issued history).map (·.1 c))[(addrPopsOn c history).length]? = some addr := by
    rw [inv.addresses c,queue,List.getElem?_append_right (Nat.le_refl _),Nat.sub_self]
    rfl
  rw [List.getElem?_map] at place
  exact Option.map_eq_some_iff.mp place

theorem front_word (inv : Paired history s) {c : Fin param.numChannel}
    {word : Writer.Word param} {rest : List (Writer.Word param)} (stored : lane s c = word :: rest) :
    ∃ w, (acceptedWords history)[(dataPopsOn c history).length]? = some w ∧ w c = word := by
  have place : ((acceptedWords history).map (· c))[(dataPopsOn c history).length]? = some word := by
    rw [inv.words c,stored,List.getElem?_append_right (Nat.le_refl _),Nat.sub_self]
    rfl
  rw [List.getElem?_map] at place
  exact Option.map_eq_some_iff.mp place

/-- A popped address belongs to a vector issued under the current mask; on an enabled
channel it is written with the data word of the same number. -/
theorem pop_issue (inv : Paired history s) (protocol : Protocol history s i)
    {c : Fin param.numChannel} {addr : Writer.Address param} (pop : addrPopped s i c = some addr) :
    ∃ x, (issued history)[(addrPopsOn c history).length]? = some x ∧ x.1 c = addr ∧ x.2 = enable i ∧
      (enable i c = true → ∃ w, (acceptedWords history)[(addrPopsOn c history).length]? = some w ∧
        written s i c = some (addr,w c)) := by
  obtain ⟨rest,queue⟩ := addrPopped_cons pop
  have busy : Writer.busy s = true := (busy_iff s).mpr (Or.inr ⟨c,by simp [queue]⟩)
  obtain ⟨masks,counts⟩ := paired_now inv protocol busy
  obtain ⟨x,atIndex,address⟩ := front_issue inv queue
  refine ⟨x,atIndex,address,masks c _ x atIndex (Nat.le_refl _),fun on => ?_⟩
  obtain ⟨addrs,words⟩ := enabled_pops (s := s) on
  rw [pop] at addrs
  obtain ⟨⟨a,d⟩,write,first⟩ := Option.map_eq_some_iff.mp addrs.symm
  have data : dataPopped s i c = some d := by rw [words,write,Option.map_some]
  obtain ⟨behind,stored⟩ := dataPopped_cons data
  obtain ⟨w,place,slice⟩ := front_word inv stored
  rw [← counts c on] at place
  refine ⟨w,place,?_⟩
  rw [write,slice]
  exact congrArg some (Prod.ext first rfl)

theorem addrPops_length (history : List (Event param)) (s : Writer.State param)
    (i : Writer.Input param) (c : Fin param.numChannel) :
    (addrPopsOn c (history ++ [out s i])).length =
      (addrPopsOn c history).length + (addrPopped s i c).isSome.toNat := by
  rw [addrPopsOn_next,List.length_append,length_toList]

/-- No address of an enabled channel has left its queue ahead of its data word. -/
theorem served_now (inv : Paired history s) (protocol : Protocol history s i)
    {c : Fin param.numChannel} {k : Nat} {x : Issue param} (atIndex : (issued history)[k]? = some x)
    (gone : k < (addrPopsOn c (history ++ [out s i])).length) (on : x.2 c = true) :
    k < (acceptedWords history).length := by
  rw [addrPops_length] at gone
  by_cases before : k < (addrPopsOn c history).length
  · exact inv.served c k x atIndex before on
  · cases pop : addrPopped s i c with
    | none =>
      simp only [pop,Option.isSome_none,Bool.toNat_false] at gone
      omega
    | some addr =>
      simp only [pop,Option.isSome_some,Bool.toNat_true] at gone
      have here : k = (addrPopsOn c history).length := by omega
      obtain ⟨y,atY,_,mask,writes⟩ := pop_issue inv protocol pop
      rw [here,atY] at atIndex
      obtain rfl := Option.some.inj atIndex
      rw [mask] at on
      obtain ⟨w,place,_⟩ := writes on
      rw [here]
      exact (List.getElem?_eq_some_iff.mp place).1

theorem written_next (inv : Paired history s) (protocol : Protocol history s i)
    (c : Fin param.numChannel) :
    writesOn c (history ++ [out s i]) =
      joined (pairOn c) ((issued (history ++ [out s i])).take
        (addrPopsOn c (history ++ [out s i])).length) (acceptedWords (history ++ [out s i])) := by
  have bound := addrPops_le inv c
  have silent : ∀ (k : Nat) (x : Issue param),
      ((issued history).take (addrPopsOn c (history ++ [out s i])).length)[k]? = some x →
      (acceptedWords history).length ≤ k → ∀ w, pairOn c x w = none := by
    intro k x atIndex late w
    obtain ⟨inside,_⟩ := List.getElem?_eq_some_iff.mp atIndex
    rw [List.length_take] at inside
    rw [List.getElem?_take_of_lt (by omega)] at atIndex
    have off : x.2 c = false := by
      rw [← Bool.not_eq_true]
      intro on
      have := served_now inv protocol atIndex (by omega) on
      omega
    simp [pairOn,off]
  have room : (addrPopsOn c (history ++ [out s i])).length ≤ (issued history).length := by
    rw [addrPops_length]
    cases pop : addrPopped s i c with
    | none => simpa using bound
    | some addr =>
      obtain ⟨x,atIndex,_⟩ := pop_issue inv protocol pop
      exact (List.getElem?_eq_some_iff.mp atIndex).1
  rw [writesOn_next,inv.written c,issued_next,acceptedWords_next,
    List.take_append_of_le_length room,joined_append_right silent,addrPops_length]
  cases pop : addrPopped s i c with
  | none =>
    have still : written s i c = none := by
      cases on : enable i c with
      | false => exact disabled_written on
      | true =>
        have addrs := (enabled_pops (s := s) on).1
        rw [pop] at addrs
        exact Option.map_eq_none_iff.mp addrs.symm
    simp [still]
  | some addr =>
    obtain ⟨x,atIndex,address,mask,writes⟩ := pop_issue inv protocol pop
    have length : ((issued history).take (addrPopsOn c history).length).length =
        (addrPopsOn c history).length := by
      rw [List.length_take]
      omega
    simp only [Option.isSome_some,Bool.toNat_true,List.take_add_one,atIndex,Option.toList_some]
    rw [joined_append_left,length]
    congr 1
    cases on : enable i c with
    | false =>
      have off : ∀ w, pairOn c x w = none := fun w => by simp [pairOn,mask,on]
      rw [disabled_written on]
      cases (acceptedWords history)[(addrPopsOn c history).length]? <;> simp [off]
    | true =>
      obtain ⟨w,place,write⟩ := writes on
      simp [place,write,pairOn,mask,on,address]

/-- A Writer becomes busy only by the start of a task that generates addresses. -/
theorem busy_next (busy : Writer.busy (Writer.next s i) = true) :
    Writer.busy s = true ∨ (i.start = true ∧ AddressGenUnit.cfgValid i.aguCfg = true) := by
  by_contra none
  rw [not_or] at none
  obtain ⟨rest,quiet⟩ := none
  rw [busy_iff,not_or,not_exists] at rest
  obtain ⟨notBusy,empty⟩ := rest
  have phase : s.addressgen.currentState = .sIDLE := by
    cases h : s.addressgen.currentState with
    | sIDLE => rfl
    | sBUSY => exact absurd h notBusy
  have noPush : (out s i).pushed = none := AddressGenUnit.pushed_idle phase _
  rcases (busy_iff _).mp busy with running | ⟨c,queued⟩
  · have fired : (i.start && AddressGenUnit.cfgValid i.aguCfg) = false := by
      rw [← Bool.not_eq_true,Bool.and_eq_true]
      exact quiet
    have after : (Writer.next s i).addressgen.currentState =
        (AddressGenUnit.next s.addressgen (Writer.addressgenInput s i)).currentState := rfl
    rw [after] at running
    simp [AddressGenUnit.next,Writer.addressgenInput,fired,phase] at running
  · have flow := addrQueue_next s i c
    have none : addrQueue s c = [] := by
      by_contra waiting
      exact empty c waiting
    rw [none,noPush] at flow
    exact queued (List.append_eq_nil_iff.mp flow).2

theorem paired_next (inv : Paired history s) (protocol : Protocol history s i)
    (inStep : StartInStep history s i) : Paired (history ++ [out s i]) (Writer.next s i) where
  addresses c := by
    have flow := addrQueue_next s i c
    have slices : ((((out s i).pushed.map fun vector => (vector,enable i)).toList).map
        fun x : Issue param => x.1 c) = ((out s i).pushed.map (· c)).toList := by
      cases (out s i).pushed <;> rfl
    rw [issued_next,List.map_append,slices,inv.addresses c,addrPopsOn_next,List.append_assoc,
      List.append_assoc,flow]
  words c := by
    have flow := lane_next s i c
    rw [Option.toList_map] at flow
    rw [acceptedWords_next,List.map_append,inv.words c,dataPopsOn_next,List.append_assoc,
      List.append_assoc,flow]
  written := written_next inv protocol
  served c k x atIndex gone on := by
    have bound := addrPops_le inv c
    have inside : k < (issued history).length := by
      rw [addrPops_length] at gone
      cases pop : addrPopped s i c with
      | none => simp only [pop,Option.isSome_none,Bool.toNat_false] at gone; omega
      | some addr =>
        obtain ⟨y,atY,_⟩ := pop_issue inv protocol pop
        have := (List.getElem?_eq_some_iff.mp atY).1
        simp only [pop,Option.isSome_some,Bool.toNat_true] at gone
        omega
    rw [issued_next,List.getElem?_append_left inside] at atIndex
    have early := served_now inv protocol atIndex gone on
    rw [acceptedWords_next,List.length_append]
    omega
  current c k x atIndex waiting e last := by
    have same : e.task.enable = enable i := by
      rw [List.getLast?_append_of_ne_nil _ (by simp)] at last
      simp only [List.getLast?_singleton,Option.some.injEq] at last
      rw [← last]
      rfl
    rw [same]
    rw [addrPops_length] at waiting
    rw [issued_next] at atIndex
    by_cases old : k < (issued history).length
    · rw [List.getElem?_append_left old] at atIndex
      have addresses := congrArg List.length (inv.addresses c)
      simp only [List.length_map,List.length_append] at addresses
      have queued : addrQueue s c ≠ [] := by
        rw [← List.length_pos_iff]
        omega
      exact (paired_now inv protocol ((busy_iff s).mpr (Or.inr ⟨c,queued⟩))).1 c k x atIndex (by omega)
    · rw [List.getElem?_append_right (by omega)] at atIndex
      have member := List.mem_of_getElem? atIndex
      rw [Option.mem_toList,Option.map_eq_some_iff] at member
      obtain ⟨_,_,rfl⟩ := member
      rfl
  inStep busy e last c on := by
    have same : e.task.enable = enable i := by
      rw [List.getLast?_append_of_ne_nil _ (by simp)] at last
      simp only [List.getLast?_singleton,Option.some.injEq] at last
      rw [← last]
      rfl
    rw [same] at on
    have counts : (addrPopsOn c history).length = (dataPopsOn c history).length := by
      rcases busy_next busy with already | ⟨start,valid⟩
      · exact (paired_now inv protocol already).2 c on
      · exact inStep start valid c on
    obtain ⟨addrs,words⟩ := enabled_pops (s := s) on
    rw [addrPopsOn_next,dataPopsOn_next,addrs,words]
    cases written s i c <;> simp [counts]
  fresh no := by simp at no

/-- The vectors that a task issues, in order. -/
def taskIssues (task : Task param) : List (Issue param) :=
  (List.range task.aguCfg.total).map fun k => (task.aguCfg.vector k,task.enable)

/-- The vectors issued so far are those of the tasks started so far, the last one under way. -/
structure Programmed (history : List (Event param)) (s : Writer.State param) : Prop where
  none : tasks history = [] → issued history = [] ∧ s.addressgen.currentState = .sIDLE
  some : ∀ before task, tasks history = before ++ [task] →
    (∀ e, history.getLast? = Option.some e → e.task = task) ∧
    ∃ past, AddressGenUnit.Swept task.aguCfg past s.addressgen ∧
      issued history = before.flatMap taskIssues ++
        (AddressGenUnit.enqueued past).map fun vector => (vector,task.enable)

/-- An idle generator has issued every vector of every task. -/
theorem issued_idle (inv : Programmed history s) (idle : s.addressgen.currentState = .sIDLE) :
    issued history = (tasks history).flatMap taskIssues := by
  rcases List.eq_nil_or_concat' (tasks history) with empty | ⟨before,task,split⟩
  · rw [(inv.none empty).1,empty]
    rfl
  · obtain ⟨_,past,swept,issues⟩ := inv.some before task split
    rw [issues,split,List.flatMap_append,AddressGenUnit.swept_enqueued swept,
      AddressGenUnit.swept_idle swept idle,List.map_map]
    simp [taskIssues,Function.comp_def]

theorem programmed_next (inv : Programmed history s) (protocol : Protocol history s i) :
    Programmed (history ++ [out s i]) (Writer.next s i) := by
  have last : ∀ e, (history ++ [out s i]).getLast? = Option.some e → e.task = ⟨i.aguCfg,enable i⟩ := by
    intro e atEnd
    rw [List.getLast?_append_of_ne_nil _ (by simp)] at atEnd
    simp only [List.getLast?_singleton,Option.some.injEq] at atEnd
    rw [← atEnd]
    rfl
  cases start : i.start with
  | true =>
    have rest := protocol.idle start
    have idle : s.addressgen.currentState = .sIDLE := by
      cases phase : s.addressgen.currentState with
      | sIDLE => rfl
      | sBUSY => rw [(busy_iff s).mpr (Or.inl phase)] at rest; contradiction
    have noPush : (out s i).pushed = Option.none := AddressGenUnit.pushed_idle idle _
    refine ⟨fun empty => ?_,fun before task split => ?_⟩
    · rw [tasks_next,start] at empty
      simp at empty
    · rw [tasks_next,start,if_pos rfl] at split
      obtain ⟨rfl,same⟩ := List.append_inj' split rfl
      obtain rfl := (List.cons.inj same).1
      refine ⟨last,[],AddressGenUnit.started_swept i.aguCfg s.addressgen _ rfl start (Or.inl idle),?_⟩
      rw [issued_next,noPush,issued_idle inv idle]
      rfl
  | false =>
    have same : tasks (history ++ [out s i]) = tasks history := by rw [tasks_next,start]; simp
    refine ⟨fun empty => ?_,fun before task split => ?_⟩
    · rw [same] at empty
      obtain ⟨issues,idle⟩ := inv.none empty
      have noPush : (out s i).pushed = Option.none := AddressGenUnit.pushed_idle idle _
      have quiet : AddressGenUnit.fire s.addressgen (Writer.addressgenInput s i) = false := by
        simp [AddressGenUnit.fire,idle]
      refine ⟨by rw [issued_next,noPush,issues]; rfl,?_⟩
      exact (AddressGenUnit.next_hold (i := Writer.addressgenInput s i) start quiet).2.trans idle
    · rw [same] at split
      obtain ⟨held,past,swept,issues⟩ := inv.some before task split
      have current : task = ⟨i.aguCfg,enable i⟩ := by
        cases final : history.getLast? with
        | none =>
          rw [List.getLast?_eq_none_iff] at final
          simp [final,tasks] at split
        | some e =>
          obtain ⟨cfg,mask⟩ := protocol.held start e final
          rw [← held e final,cfg,mask]
      subst current
      refine ⟨last,_,AddressGenUnit.running_swept swept ⟨rfl,start⟩,?_⟩
      rw [issued_next,issues,AddressGenUnit.enqueued_next,List.map_append,List.append_assoc]
      congr 2
      have event : (AddressGenUnit.out s.addressgen (Writer.addressgenInput s i)).pushed =
        (out s i).pushed := rfl
      rw [event]
      cases (out s i).pushed <;> rfl

theorem initial_paired : Paired [] (Writer.initial param) where
  addresses c := rfl
  words c := rfl
  written c := by simp [writesOn,issued]
  served c k x atIndex := by simp [issued] at atIndex
  current c k x atIndex := by simp [issued] at atIndex
  inStep busy e last := by simp at last
  fresh _ := by simp [Writer.busy,Writer.initial,AddressGenUnit.initial,ComplexQueueConcat.allEmpty,
    Queue.deqValid]

theorem initial_programmed : Programmed [] (Writer.initial param) :=
  ⟨fun _ => ⟨rfl,rfl⟩,fun before task split => by simp [tasks] at split⟩

/-- A Writer whose tasks all enable some channel is busy until it has accepted as many words as
they generate addresses. -/
theorem busy_while_lacking {inputs : List (Writer.Input param)}
    (protocol : (system param).Each Protocol (Writer.initial param) inputs)
    (inStep : (system param).Each StartInStep (Writer.initial param) inputs)
    (someChannel : ∀ task ∈ tasks ((system param).outs (Writer.initial param) inputs),
      ∃ c, task.enable c = true)
    (lacks : (acceptedWords ((system param).outs (Writer.initial param) inputs)).length <
      ((tasks ((system param).outs (Writer.initial param) inputs)).map (·.aguCfg.total)).sum) :
    Writer.busy ((system param).exec (Writer.initial param) inputs) = true := by
  have paired : Paired _ _ := Sync.Machine.run_rule_each Paired (protocol.and inStep) initial_paired
    fun _ _ _ inv both => paired_next inv both.1 both.2
  have programmed : Programmed _ _ := Sync.Machine.run_rule_each Programmed protocol
    initial_programmed fun _ _ _ inv held => programmed_next inv held
  by_contra rest
  obtain ⟨idle,empty⟩ := not_or.mp (mt (busy_iff _).mpr rest)
  have issues := issued_idle programmed (by
    cases phase : ((system param).exec (Writer.initial param) inputs).addressgen.currentState with
    | sIDLE => rfl
    | sBUSY => exact absurd phase idle)
  have total : (issued ((system param).outs (Writer.initial param) inputs)).length =
      ((tasks ((system param).outs (Writer.initial param) inputs)).map (·.aguCfg.total)).sum := by
    rw [issues,List.length_flatMap]
    simp [taskIssues]
  obtain ⟨x,place⟩ : ∃ x, (issued ((system param).outs (Writer.initial param) inputs))[
      (issued ((system param).outs (Writer.initial param) inputs)).length - 1]? = some x :=
    ⟨_,List.getElem?_eq_getElem (by omega)⟩
  have member := List.mem_of_getElem? place
  rw [issues] at member
  obtain ⟨task,among,own⟩ := List.mem_flatMap.mp member
  obtain ⟨c,on⟩ := someChannel task among
  have mask : x.2 = task.enable := by
    obtain ⟨k,_,rfl⟩ := List.mem_map.mp own
    rfl
  -- The last address has left the queue of a channel that it is for, with its word.
  have left := congrArg List.length (paired.addresses c)
  have none : addrQueue ((system param).exec (Writer.initial param) inputs) c = [] := by
    by_contra waiting
    exact empty ⟨c,waiting⟩
  rw [none,List.append_nil,List.length_map] at left
  have served := paired.served c _ x place (by omega) (mask ▸ on)
  omega

def pairWriter : WriterParam where
  toReaderWriterParam := ReaderMemory.pairParam.toReaderWriterParam
  sameClock := rfl

def pairWord (value : Nat) : Writer.WideWord pairWriter := fun _ => BitVec.ofNat _ value

/-- A cycle of a memory that grants everything, under the producer's offer. -/
def pairInput (cfg : AddressGenUnitCfgIO pairWriter.aguParam) (on start : Bool)
    (data : Option Nat) : Writer.Input pairWriter where
  aguCfg := cfg
  readerwriterCfg := ⟨fun _ => on,0⟩
  start := start
  tcdmReqReady := fun _ => true
  data := data.map pairWord

/-- The first word of a task arrives under the reset configuration, which enables nothing. -/
def early : List (Writer.Input pairWriter) :=
  [pairInput (ReaderMemory.pairCfg 0 0) false false (some 1),
    pairInput (ReaderMemory.pairCfg 0 0) false false none,
    pairInput (ReaderMemory.pairCfg 2 2) true true none,
    pairInput (ReaderMemory.pairCfg 2 2) true false (some 2),
    pairInput (ReaderMemory.pairCfg 2 2) true false none]

/-- The same task with both its words supplied after its start. -/
def inTime : List (Writer.Input pairWriter) :=
  pairInput (ReaderMemory.pairCfg 2 2) true true none ::
    pairInput (ReaderMemory.pairCfg 2 2) true false (some 1) ::
    pairInput (ReaderMemory.pairCfg 2 2) true false none ::
    pairInput (ReaderMemory.pairCfg 2 2) true false (some 2) ::
    List.replicate 2 (pairInput (ReaderMemory.pairCfg 2 2) true false none)

end Snax.WriterPairing
