import Snax.ReaderWriter
import Snax.Sync.Machine

/-! Port sharing in the ReaderWriter is transparent: behind one port both halves run as a
Reader and a Writer with ports of their own would on the same memory, under the same
order of accepted requests. -/
namespace Snax.ReaderWriter

open Sync

variable {pair : ReaderWriterPair} {M : Type}

/-- A memory that takes the accepted requests of a cycle and answers them in the next: an
accepted read always, an accepted write perhaps, nothing else. -/
structure Tcdm (pair : ReaderWriterPair) (M : Type) where
  serve : M → (Channel pair → Option (Req pair)) → M × (Channel pair → Option (Word pair))
  answersReads : ∀ memory reqs c req, reqs c = some req → req.write = false →
    ((serve memory reqs).2 c).isSome = true
  silent : ∀ memory reqs c, reqs c = none → (serve memory reqs).2 c = none

/-- What can be seen of both halves in a cycle. -/
structure Event (pair : ReaderWriterPair) where
  accepted : Channel pair → Option (Req pair)
  /-- The accepted reads with the answers of the memory. -/
  reads : Channel pair → Option (Req pair × Word pair)
  received : Channel pair → Option (Word pair)
  delivered : Option (Reader.WideWord pair.reader)
  dataReady : Bool
  readerBusy : Bool
  writerBusy : Bool

def event (reader : Reader.State pair.reader) (writer : Writer.State pair.writer) (i : Tasks pair)
    (readerReady writerReady : Channel pair → Bool) (received : Channel pair → Option (Word pair))
    (accepted : Channel pair → Option (Req pair)) (answer : Channel pair → Option (Word pair)) :
    Event pair where
  accepted := accepted
  reads := fun c => ((accepted c).filter fun req => !req.write).bind fun req =>
    (answer c).map fun word => (req,word)
  received := received
  delivered := if Reader.outFire reader (readerInput i readerReady received) then
    ComplexQueueConcat.front reader.dataBuffer else none
  dataReady := Writer.dataReady writer (writerInput i writerReady)
  readerBusy := Reader.busy reader
  writerBusy := Writer.busy writer

/-! ### Behind one port -/

namespace Shared

structure State (pair : ReaderWriterPair) (M : Type) where
  halves : ReaderWriter.State pair
  memory : M
  rsp : Channel pair → Option (Word pair)

structure Input (pair : ReaderWriterPair) where
  tasks : Tasks pair
  grant : Channel pair → Bool

def portInput (s : State pair M) (i : Input pair) : ReaderWriter.Input pair := ⟨i.tasks,i.grant,s.rsp⟩

def accepted (s : State pair M) (i : Input pair) (c : Channel pair) : Option (Req pair) :=
  if i.grant c then tcdmReq s.halves i.tasks c else none

def next (tcdm : Tcdm pair M) (s : State pair M) (i : Input pair) : State pair M where
  halves := ReaderWriter.next s.halves (portInput s i)
  memory := (tcdm.serve s.memory (accepted s i)).1
  rsp := (tcdm.serve s.memory (accepted s i)).2

def out (tcdm : Tcdm pair M) (s : State pair M) (i : Input pair) : Event pair :=
  event s.halves.reader s.halves.writer i.tasks (readerReady s.halves (portInput s i))
    (writerReady s.halves (portInput s i)) (readerRsp s.halves (portInput s i)) (accepted s i)
    (tcdm.serve s.memory (accepted s i)).2

def system (tcdm : Tcdm pair M) : Machine (State pair M) (Input pair) (Event pair) where
  next := next tcdm
  out := out tcdm

def initial (pair : ReaderWriterPair) (readerSelBefore : Bool) (memory : M) : State pair M :=
  ⟨ReaderWriter.initial pair readerSelBefore,memory,fun _ => none⟩

end Shared

/-! ### On ports of their own -/

namespace Alone

/-- A Reader and a Writer, and the answers to the accepted reads of the Reader. -/
structure State (pair : ReaderWriterPair) (M : Type) where
  reader : Reader.State pair.reader
  writer : Writer.State pair.writer
  memory : M
  rsp : Channel pair → Option (Word pair)

structure Input (pair : ReaderWriterPair) where
  tasks : Tasks pair
  readerGrant : Channel pair → Bool
  writerGrant : Channel pair → Bool

def readerAccepted (s : State pair M) (i : Input pair) (c : Channel pair) : Option (Req pair) :=
  if i.readerGrant c then readerReq s.reader i.tasks c else none

def writerAccepted (s : State pair M) (i : Input pair) (c : Channel pair) : Option (Req pair) :=
  if i.writerGrant c then writerReq s.writer i.tasks c else none

def accepted (s : State pair M) (i : Input pair) (c : Channel pair) : Option (Req pair) :=
  (readerAccepted s i c).or (writerAccepted s i c)

def next (tcdm : Tcdm pair M) (s : State pair M) (i : Input pair) : State pair M where
  reader := Reader.next s.reader (readerInput i.tasks i.readerGrant s.rsp)
  writer := Writer.next s.writer (writerInput i.tasks i.writerGrant)
  memory := (tcdm.serve s.memory (accepted s i)).1
  rsp := fun c =>
    if (readerAccepted s i c).isSome then (tcdm.serve s.memory (accepted s i)).2 c else none

def out (tcdm : Tcdm pair M) (s : State pair M) (i : Input pair) : Event pair :=
  event s.reader s.writer i.tasks i.readerGrant i.writerGrant s.rsp (accepted s i)
    (tcdm.serve s.memory (accepted s i)).2

def system (tcdm : Tcdm pair M) : Machine (State pair M) (Input pair) (Event pair) where
  next := next tcdm
  out := out tcdm

def initial (pair : ReaderWriterPair) (memory : M) : State pair M :=
  ⟨Reader.initial pair.reader,Writer.initial pair.writer,memory,fun _ => none⟩

end Alone

/-- The grants of the shared port, split between the halves by the owner of the cycle. -/
def aloneInput (s : Shared.State pair M) (i : Shared.Input pair) : Alone.Input pair :=
  ⟨i.tasks,readerReady s.halves (Shared.portInput s i),writerReady s.halves (Shared.portInput s i)⟩

/-- An accepted request of the Writer is the head of both queues of the channel. -/
def WriterHead (s : Writer.State pair.writer) (c : Channel pair) (req : Req pair) : Prop :=
  req.write = true ∧
  (∃ addr rest, (s.addressgen.outputBuffer (writerChannel c)).elems = addr :: rest ∧
    req.addr.toNat = addr.toNat) ∧
  ∃ data rest, (s.dataBuffer (writerChannel c)).elems = data :: rest ∧ req.data.toNat = data.toNat

def ReaderHead (s : Reader.State pair.reader) (c : Channel pair) (req : Req pair) : Prop :=
  req.write = false ∧ ∃ addr rest, (s.addressgen.outputBuffer c).elems = addr :: rest ∧ req.addr = addr

/-- A half pops its queues on a channel. -/
def writerPops (s : Writer.State pair.writer) (i : Tasks pair) (ready : Channel pair → Bool)
    (c : Channel pair) : Bool := Writer.addrReady s (writerInput i ready) (writerChannel c)

def readerPops (s : Reader.State pair.reader) (i : Tasks pair) (ready : Channel pair → Bool)
    (rsp : Channel pair → Option (Word pair)) (c : Channel pair) : Bool :=
  Reader.addrReady s (readerInput i ready rsp) c

/-- A request accepted in a cycle is the head request of the owner, which pops it; the
other half pops none of the channels it has enabled. -/
structure Owned (s : Shared.State pair M) (i : Shared.Input pair) : Prop where
  writer : sel s.halves i.tasks = 0 → ∀ c req, Shared.accepted s i c = some req →
    WriterHead s.halves.writer c req ∧
    writerPops s.halves.writer i.tasks (writerReady s.halves (Shared.portInput s i)) c = true
  reader : sel s.halves i.tasks ≠ 0 → ∀ c req, Shared.accepted s i c = some req →
    ReaderHead s.halves.reader c req ∧
    readerPops s.halves.reader i.tasks (readerReady s.halves (Shared.portInput s i))
      (readerRsp s.halves (Shared.portInput s i)) c = true
  readerKeeps : sel s.halves i.tasks = 0 → ∀ c, i.tasks.readerCfg.enable c = true →
    readerPops s.halves.reader i.tasks (readerReady s.halves (Shared.portInput s i))
      (readerRsp s.halves (Shared.portInput s i)) c = false
  writerKeeps : sel s.halves i.tasks ≠ 0 → ∀ c, i.tasks.writerCfg.enable (writerChannel c) = true →
    writerPops s.halves.writer i.tasks (writerReady s.halves (Shared.portInput s i)) c = false

/-- Transparency of a run: who owns the port is served; the Reader receives in every cycle
exactly the answers to its requests accepted one cycle before; and both halves, the memory
and all that is seen of them are those of a Reader and a Writer on ports of their own. -/
structure Transparent (tcdm : Tcdm pair M) (before : Bool) (memory : M)
    (inputs : List (Shared.Input pair)) : Prop where
  owned : (Shared.system tcdm).Each (fun _ s i => Owned s i) (Shared.initial pair before memory) inputs
  answered : ∀ front i later back, inputs = front ++ i :: later :: back → ∀ c,
    (Shared.out tcdm ((Shared.system tcdm).exec (Shared.initial pair before memory) (front ++ [i]))
        later).received c =
      ((Shared.out tcdm ((Shared.system tcdm).exec (Shared.initial pair before memory) front)
        i).reads c).map Prod.snd
  complete : (Shared.system tcdm).Each (fun _ s i => ∀ c req, (Shared.out tcdm s i).accepted c = some req →
    req.write = false → ∃ word, (Shared.out tcdm s i).reads c = some (req,word))
    (Shared.initial pair before memory) inputs
  outputs : (Shared.system tcdm).outs (Shared.initial pair before memory) inputs =
    (Alone.system tcdm).outs (Alone.initial pair memory)
      ((Shared.system tcdm).translate aloneInput (Shared.initial pair before memory) inputs)
  halves :
    let s := (Shared.system tcdm).exec (Shared.initial pair before memory) inputs
    let t := (Alone.system tcdm).exec (Alone.initial pair memory)
      ((Shared.system tcdm).translate aloneInput (Shared.initial pair before memory) inputs)
    s.halves.reader = t.reader ∧ s.halves.writer = t.writer ∧ s.memory = t.memory

/-! ### Ownership -/

theorem sel_cases (s : State pair) (i : Tasks pair) :
    (sel s i = 0 ∧ ∀ c, tcdmReq s i c = writerReq s.writer i c) ∨
    (sel s i = 1 ∧ (∀ c, tcdmReq s i c = readerReq s.reader i c) ∧ ∀ c, writerReq s.writer i c = none) := by
  unfold tcdmReq sel
  by_cases owner : ∃ c, (writerReq s.writer i c).isSome = true
  · simp only [owner,decide_true,↓reduceIte]
    exact .inl ⟨trivial,fun c => rfl⟩
  · simp only [owner,decide_false,Bool.false_eq_true,↓reduceIte]
    refine .inr ⟨trivial,fun c => rfl,fun c => ?_⟩
    rw [← Option.not_isSome_iff_eq_none]
    exact fun offered => owner ⟨c,offered⟩

theorem writerReady_of_owner {s : State pair} {i : Input pair} (owner : sel s i.tasks = 0) (c : Channel pair) :
    writerReady s i c = i.tcdmReqReady c ∧ readerReady s i c = false := by
  simp [writerReady,readerReady,MuxDecoupled.inReady,owner]

theorem readerReady_of_owner {s : State pair} {i : Input pair} (owner : sel s i.tasks = 1) (c : Channel pair) :
    readerReady s i c = i.tcdmReqReady c ∧ writerReady s i c = false := by
  simp [writerReady,readerReady,MuxDecoupled.inReady,owner]

theorem sameAddressWidth (pair : ReaderWriterPair) :
    pair.writer.aguParam.addressWidth = pair.reader.aguParam.addressWidth := by
  simp only [pair.sameSize]

theorem toPort_addr (req : RegReq pair.writer.aguParam.addressWidth pair.writer.tcdmDataWidth) :
    (toPort req : Req pair).addr.toNat = req.addr.toNat := by
  have bound := Nat.lt_of_lt_of_eq req.addr.isLt (congrArg (2 ^ ·) (sameAddressWidth pair))
  rw [toPort,BitVec.toNat_setWidth]
  exact Nat.mod_eq_of_lt bound

theorem toPort_data (req : RegReq pair.writer.aguParam.addressWidth pair.writer.tcdmDataWidth) :
    (toPort req : Req pair).data.toNat = req.data.toNat := by
  have bound := Nat.lt_of_lt_of_eq req.data.isLt (congrArg (2 ^ ·) pair.sameData)
  rw [toPort,BitVec.toNat_setWidth]
  exact Nat.mod_eq_of_lt bound

/-- An offer of the Writer is the head of its queues, on an enabled channel. -/
theorem writerReq_head {s : Writer.State pair.writer} {i : Tasks pair} {c : Channel pair} {req : Req pair}
    (offered : writerReq s i c = some req) (ready : Channel pair → Bool) : WriterHead s c req ∧
    (writerPops s i ready c = ready c) := by
  obtain ⟨own,sent,rfl⟩ := Option.map_eq_some_iff.mp offered
  simp only [Writer.out] at sent
  split at sent
  · rename_i valid
    obtain ⟨addr,head,sent⟩ := Option.bind_eq_some_iff.mp sent
    obtain ⟨data,front,rfl⟩ := Option.map_eq_some_iff.mp sent
    have enabled : i.writerCfg.enable (writerChannel c) = true := by
      by_contra off
      simp [Writer.tcdmReqValid,DataRequestor.tcdmReqValid,writerInput,off] at valid
    obtain ⟨addrs,addresses⟩ := List.head?_eq_some_iff.mp head
    obtain ⟨words,data_words⟩ := List.head?_eq_some_iff.mp front
    refine ⟨⟨rfl,⟨addr,addrs,addresses,toPort_addr _⟩,data,words,data_words,toPort_data _⟩,?_⟩
    have again : Writer.tcdmReqValid s (writerInput i ready) (writerChannel c) = true := valid
    have granted : (writerInput i ready).tcdmReqReady (writerChannel c) = ready c := rfl
    have enable : (writerInput i ready).readerwriterCfg.enable (writerChannel c) = true := enabled
    rw [writerPops,Writer.addrReady,DataRequestor.addrReady,if_pos enable,Writer.tcdmReqFire,again,granted,
      Bool.true_and]
  · contradiction

theorem readerReq_head {s : Reader.State pair.reader} {i : Tasks pair} {c : Channel pair} {req : Req pair}
    (offered : readerReq s i c = some req) (ready : Channel pair → Bool)
    (rsp : Channel pair → Option (Word pair)) : ReaderHead s c req ∧
    (readerPops s i ready rsp c = ready c) := by
  simp only [readerReq,Reader.out] at offered
  split at offered
  · rename_i valid
    obtain ⟨addr,head,rfl⟩ := Option.map_eq_some_iff.mp offered
    have enabled : i.readerCfg.enable c = true := by
      by_contra off
      simp [Reader.tcdmReqValid,DataRequestor.tcdmReqValid,readerInput,off] at valid
    obtain ⟨addrs,addresses⟩ := List.head?_eq_some_iff.mp head
    refine ⟨⟨rfl,addr,addrs,addresses,rfl⟩,?_⟩
    have again : Reader.tcdmReqValid s (readerInput i ready rsp) c = true := valid
    have enable : (readerInput i ready rsp).readerwriterCfg.enable c = true := enabled
    rw [readerPops,Reader.addrReady,DataRequestor.addrReady,if_pos enable,Reader.tcdmReqFire,again,
      Bool.true_and]
    rfl
  · contradiction

/-- An enabled channel that is not granted keeps its queues. -/
theorem writer_keeps {s : Writer.State pair.writer} {i : Tasks pair} {ready : Channel pair → Bool}
    {c : Channel pair} (enabled : i.writerCfg.enable (writerChannel c) = true) (refused : ready c = false) :
    writerPops s i ready c = false := by
  have granted : (writerInput i ready).tcdmReqReady (writerChannel c) = false := refused
  have enable : (writerInput i ready).readerwriterCfg.enable (writerChannel c) = true := enabled
  rw [writerPops,Writer.addrReady,DataRequestor.addrReady,if_pos enable,Writer.tcdmReqFire,granted,
    Bool.and_false]

theorem reader_keeps {s : Reader.State pair.reader} {i : Tasks pair} {ready : Channel pair → Bool}
    {rsp : Channel pair → Option (Word pair)} {c : Channel pair}
    (enabled : i.readerCfg.enable c = true) (refused : ready c = false) :
    readerPops s i ready rsp c = false := by
  have granted : (readerInput i ready rsp).tcdmReqReady c = false := refused
  have enable : (readerInput i ready rsp).readerwriterCfg.enable c = true := enabled
  rw [readerPops,Reader.addrReady,DataRequestor.addrReady,if_pos enable,Reader.tcdmReqFire,granted,
    Bool.and_false]

variable {tcdm : Tcdm pair M} {s : Shared.State pair M} {i : Shared.Input pair}

theorem accepted_eq_some {c : Channel pair} {req : Req pair} (taken : Shared.accepted s i c = some req) :
    i.grant c = true ∧ tcdmReq s.halves i.tasks c = some req := by
  unfold Shared.accepted at taken
  split at taken
  · exact ⟨‹_›,taken⟩
  · contradiction

theorem owned (s : Shared.State pair M) (i : Shared.Input pair) : Owned s i := by
  rcases sel_cases s.halves i.tasks with ⟨owner,offers⟩ | ⟨owner,offers,_⟩
  · have split := writerReady_of_owner (i := Shared.portInput s i) owner
    refine ⟨fun _ c req taken => ?_,fun other => absurd owner other,fun _ c enabled => ?_,
      fun other => absurd owner other⟩
    · obtain ⟨granted,sent⟩ := accepted_eq_some taken
      rw [offers] at sent
      obtain ⟨head,pops⟩ := writerReq_head sent (writerReady s.halves (Shared.portInput s i))
      exact ⟨head,pops.trans ((split c).1.trans granted)⟩
    · exact reader_keeps enabled (split c).2
  · have split := readerReady_of_owner (i := Shared.portInput s i) owner
    have notWriter : sel s.halves i.tasks ≠ 0 := by simp [owner]
    refine ⟨fun other => absurd other notWriter,fun _ c req taken => ?_,
      fun other => absurd other notWriter,fun _ c enabled => ?_⟩
    · obtain ⟨granted,sent⟩ := accepted_eq_some taken
      rw [offers] at sent
      obtain ⟨head,pops⟩ := readerReq_head sent (readerReady s.halves (Shared.portInput s i))
        (readerRsp s.halves (Shared.portInput s i))
      exact ⟨head,pops.trans ((split c).1.trans granted)⟩
    · exact writer_keeps enabled (split c).2

/-! ### Simulation -/

/-- The halves and the memory agree, and so does what the Reader is about to receive. -/
structure Related (s : Shared.State pair M) (t : Alone.State pair M) : Prop where
  reader : s.halves.reader = t.reader
  writer : s.halves.writer = t.writer
  memory : s.memory = t.memory
  rsp : (fun c => if s.halves.readerSelBefore then s.rsp c else none) = t.rsp

variable {t : Alone.State pair M}

/-- The grants split by the owner accept the same requests, those of the Reader when it owns
the port and none of it otherwise. -/
theorem accepted_split (related : Related s t) (i : Shared.Input pair) :
    Shared.accepted s i = Alone.accepted t (aloneInput s i) ∧
    ∀ c, Alone.readerAccepted t (aloneInput s i) c =
      if sel s.halves i.tasks == 1 then Shared.accepted s i c else none := by
  have each (c : Channel pair) :
      Shared.accepted s i c = Alone.accepted t (aloneInput s i) c ∧
      Alone.readerAccepted t (aloneInput s i) c =
        if sel s.halves i.tasks == 1 then Shared.accepted s i c else none := by
    rcases sel_cases s.halves i.tasks with ⟨owner,offers⟩ | ⟨owner,offers,_⟩
    · obtain ⟨writes,reads⟩ := writerReady_of_owner (i := Shared.portInput s i) owner c
      have granted : writerReady s.halves (Shared.portInput s i) c = i.grant c := writes
      simp [Shared.accepted,Alone.accepted,Alone.writerAccepted,Alone.readerAccepted,aloneInput,
        granted,reads,offers,owner,related.writer]
    · obtain ⟨reads,writes⟩ := readerReady_of_owner (i := Shared.portInput s i) owner c
      have granted : readerReady s.halves (Shared.portInput s i) c = i.grant c := reads
      simp [Shared.accepted,Alone.accepted,Alone.writerAccepted,Alone.readerAccepted,aloneInput,
        granted,writes,offers,owner,related.reader]
  exact ⟨funext fun c => (each c).1,fun c => (each c).2⟩

theorem related_step (related : Related s t) (i : Shared.Input pair) :
    Shared.out tcdm s i = Alone.out tcdm t (aloneInput s i) ∧
    Related (Shared.next tcdm s i) (Alone.next tcdm t (aloneInput s i)) := by
  obtain ⟨accepted,reads⟩ := accepted_split related i
  have received : readerRsp s.halves (Shared.portInput s i) = t.rsp := related.rsp
  constructor
  · unfold Shared.out Alone.out
    rw [accepted,received,related.reader,related.writer,related.memory]
    rfl
  · refine ⟨?_,?_,?_,?_⟩
    · simp only [Shared.next,ReaderWriter.next,Alone.next,received,related.reader]
      rfl
    · simp only [Shared.next,ReaderWriter.next,Alone.next,related.writer]
      rfl
    · simp only [Shared.next,Alone.next,accepted,related.memory]
    · funext c
      have owner : (Shared.next tcdm s i).halves.readerSelBefore = (sel s.halves i.tasks == 1) := rfl
      have answer : (Alone.next tcdm t (aloneInput s i)).rsp c =
          if (Alone.readerAccepted t (aloneInput s i) c).isSome then
            (tcdm.serve s.memory (Shared.accepted s i)).2 c else none := by
        rw [accepted,related.memory]
        rfl
      rw [owner,answer,reads c]
      split
      · cases taken : Shared.accepted s i c with
        | none => exact tcdm.silent _ _ _ taken
        | some req => rfl
      · rfl

theorem related_start (pair : ReaderWriterPair) (before : Bool) (memory : M) :
    Related (Shared.initial pair before memory) (Alone.initial pair memory) := by
  refine ⟨rfl,rfl,rfl,?_⟩
  funext c
  cases before <;> rfl

/-! ### Answers -/

/-- What the Reader receives next is what the memory answers to its accepted request. -/
theorem received_next (s : Shared.State pair M) (i later : Shared.Input pair) (c : Channel pair) :
    (Shared.out tcdm (Shared.next tcdm s i) later).received c =
      ((Shared.out tcdm s i).reads c).map Prod.snd := by
  have received : (Shared.out tcdm (Shared.next tcdm s i) later).received c =
      if sel s.halves i.tasks == 1 then (tcdm.serve s.memory (Shared.accepted s i)).2 c else none := rfl
  have reads : (Shared.out tcdm s i).reads c =
      ((Shared.accepted s i c).filter fun req => !req.write).bind fun req =>
        ((tcdm.serve s.memory (Shared.accepted s i)).2 c).map fun word => (req,word) := rfl
  rw [received,reads]
  cases taken : Shared.accepted s i c with
  | none => rw [tcdm.silent _ _ _ taken]; simp
  | some req =>
    rcases sel_cases s.halves i.tasks with ⟨owner,_⟩ | ⟨owner,_,_⟩
    · have write := ((owned s i).writer owner c req taken).1.1
      simp [owner,write,Option.filter]
    · have read := ((owned s i).reader (by simp [owner]) c req taken).1.1
      simp only [owner,beq_self_eq_true,↓reduceIte,Option.filter,read,Bool.not_false,Option.bind_some,
        Option.map_map]
      cases (tcdm.serve s.memory (Shared.accepted s i)).2 c <;> rfl

theorem reads_complete {c : Channel pair} {req : Req pair}
    (taken : (Shared.out tcdm s i).accepted c = some req) (read : req.write = false) :
    ∃ word, (Shared.out tcdm s i).reads c = some (req,word) := by
  have same : Shared.accepted s i c = some req := taken
  obtain ⟨word,answer⟩ := Option.isSome_iff_exists.mp (tcdm.answersReads s.memory _ c req same read)
  refine ⟨word,?_⟩
  simp [Shared.out,event,same,read,answer,Option.filter]

/-- Port sharing is transparent in every run. -/
theorem port_sharing (tcdm : Tcdm pair M) (before : Bool) (memory : M)
    (inputs : List (Shared.Input pair)) : Transparent tcdm before memory inputs := by
  obtain ⟨outputs,states⟩ := Machine.simulation (m := Shared.system tcdm) (n := Alone.system tcdm)
    aloneInput Related (fun s t i related => related_step related i) inputs
    (related_start pair before memory)
  refine ⟨fun _ i _ _ => owned _ i,fun front i later back _ c => ?_,
    fun _ _ _ _ c req taken read => reads_complete taken read,outputs,
    states.reader,states.writer,states.memory⟩
  rw [Machine.exec_append]
  exact received_next _ i later c

end Snax.ReaderWriter
