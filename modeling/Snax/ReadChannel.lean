import Snax.ReqRspManager

/-! The read side of `ReqRspManager.scala`: a read answers in the cycle it is accepted
or from the buffer in a later one, and an assertion guards its address. -/
namespace Snax
namespace ReqRspManager

variable {param : ReqRspParam}

def numBeats (param : ReqRspParam) : Nat :=
  (param.numReadWriteReg + param.numReadOnlyReg + wordsPerBeat param - 1) / wordsPerBeat param

/-- The bound that the source compares a read address with. -/
def maxReadAddr (param : ReqRspParam) : Nat :=
  (param.numReadWriteReg + param.numReadOnlyReg + numBeats param - 1) / wordsPerBeat param

/-- "csr read address overflow!" -/
def readOverflow (req : Request param) : Bool := !decide (req.addr.toNat ≤ maxReadAddr param)

/-- Register `k` in the order of the address map. -/
def slot (s : State param) (i : Input param) (k : Nat) : Reg param :=
  if h : k < param.numReadWriteReg then s.regs ⟨k,h⟩
  else if h : k - param.numReadWriteReg < param.numReadOnlyReg then
    i.readOnlyReg ⟨k - param.numReadWriteReg,h⟩
  else 0

/-- What the registers of an address spell in this cycle, least significant first. -/
def wordAt (s : State param) (i : Input param) (addr : Nat) : BitVec param.ioDataWidth :=
  ofBits (fun b => (slot s i (addr * wordsPerBeat param + b / param.regDataWidth)).getLsbD
    (b % param.regDataWidth)) param.ioDataWidth

/-- A cycle of the read port: the word a read accepted in it asks for, and the response
the receiver takes in it. -/
structure ReadCycle (param : ReqRspParam) where
  asked : Option (BitVec param.ioDataWidth)
  delivered : Option (BitVec param.ioDataWidth)

def readCycle (s : State param) (i : Input param) : ReadCycle param where
  asked := (readReg s i).map fun req => wordAt s i req.addr.toNat
  delivered := if rspValid s i && i.rspReady then some (rspData s i) else none

def readPort (param : ReqRspParam) : Sync.Machine (State param) (Input param) (ReadCycle param) where
  next := next
  out := readCycle

/-- The response that waits for its receiver. -/
def held (s : State param) : List (BitVec param.ioDataWidth) :=
  if s.readRegBusy then [s.readRegBuffer] else []

/-- What the read channel promises in a cycle. -/
structure ReadContract (history : List (ReadCycle param)) (s : State param) (i : Input param) :
    Prop where
  /-- One response for each read accepted, in order. -/
  inOrder : history.filterMap ReadCycle.asked = history.filterMap ReadCycle.delivered ++ held s
  answers : ∀ req, readReg s i = some req →
    rspValid s i = true ∧ rspData s i = wordAt s i req.addr.toNat
  silent : readReg s i = none → s.readRegBusy = false → rspValid s i = false
  waits : s.readRegBusy = true →
    accepted s i = none ∧ rspValid s i = true ∧ rspData s i = s.readRegBuffer
  stays : rspValid s i = true → i.rspReady = false →
    (next s i).readRegBusy = true ∧ (next s i).readRegBuffer = rspData s i
  asserted : ∀ req, readReg s i = some req →
    (readOverflow req = true ↔ numBeats param ≤ req.addr.toNat)

theorem all32_getD (s : State param) (i : Input param) (k : Nat) :
    (all32 s i).getD k 0 = slot s i k := by
  unfold all32 slot
  rw [List.getD_eq_getElem?_getD,List.getElem?_append]
  simp only [List.length_ofFn]
  split
  · next inside => simp [inside]
  · next outside =>
    split
    · next inside => simp [inside]
    · next beyond => simp [beyond]

theorem allRegisters_eq (s : State param) (i : Input param) (addr : Nat) :
    allRegisters s i addr = wordAt s i addr := by
  unfold allRegisters wordAt
  simp only [all32_getD]

/-- No request is accepted while a response waits. -/
theorem accepted_of_busy {s : State param} (busy : s.readRegBusy = true) (i : Input param) :
    accepted s i = none := by
  simp [accepted,reqReady,busy]

theorem readReg_of_busy {s : State param} (busy : s.readRegBusy = true) (i : Input param) :
    readReg s i = none := by
  simp [readReg,accepted_of_busy busy]

theorem rsp_of_read {s : State param} {i : Input param} {req : Request param}
    (read : readReg s i = some req) :
    rspValid s i = true ∧ rspData s i = wordAt s i req.addr.toNat := by
  simp [rspValid,rspData,read,allRegisters_eq]

theorem rsp_of_busy {s : State param} (busy : s.readRegBusy = true) (i : Input param) :
    rspValid s i = true ∧ rspData s i = s.readRegBuffer := by
  simp [rspValid,rspData,readReg_of_busy busy,busy]

/-- A cycle moves one response from the port to the receiver or to the buffer. -/
theorem readCycle_conserves (s : State param) (i : Input param) :
    held s ++ (readCycle s i).asked.toList = (readCycle s i).delivered.toList ++ held (next s i) := by
  cases busy : s.readRegBusy with
  | true =>
    obtain ⟨valid,data⟩ := rsp_of_busy busy i
    cases ready : i.rspReady <;>
      simp [held,readCycle,next,busy,valid,data,ready,readReg_of_busy busy]
  | false =>
    cases read : readReg s i with
    | none => simp [held,readCycle,next,rspValid,busy,read]
    | some req =>
      obtain ⟨valid,data⟩ := rsp_of_read read
      cases ready : i.rspReady <;> simp [held,readCycle,next,busy,valid,data,ready,read]

theorem responses_in_order (inputs : List (Input param)) :
    ((readPort param).outs (initial param) inputs).filterMap ReadCycle.asked =
      ((readPort param).outs (initial param) inputs).filterMap ReadCycle.delivered ++
        held ((readPort param).exec (initial param) inputs) := by
  refine Sync.Machine.run_rule (m := readPort param) (fun history s =>
    history.filterMap ReadCycle.asked = history.filterMap ReadCycle.delivered ++ held s) rfl ?_ inputs
  intro history s i before
  have step := readCycle_conserves s i
  change (history ++ [readCycle s i]).filterMap _ = (history ++ [readCycle s i]).filterMap _ ++ held (next s i)
  have last : ∀ f : ReadCycle param → Option (BitVec param.ioDataWidth),
      [readCycle s i].filterMap f = (f (readCycle s i)).toList := by
    intro f
    cases h : f (readCycle s i) <;> simp [h]
  rw [List.filterMap_append,List.filterMap_append,last,last,before,List.append_assoc,step,
    List.append_assoc]

theorem total_pos (param : ReqRspParam) : 0 < param.numReadWriteReg + param.numReadOnlyReg :=
  Nat.add_pos_left param.registers _

/-- The words cover the registers, and no word is without one. -/
theorem numBeats_cover (param : ReqRspParam) :
    param.numReadWriteReg + param.numReadOnlyReg ≤ numBeats param * wordsPerBeat param ∧
      (numBeats param - 1) * wordsPerBeat param < param.numReadWriteReg + param.numReadOnlyReg ∧
      0 < numBeats param := by
  have wide := wordsPerBeat_pos param
  have some_reg := total_pos param
  have positive : 0 < numBeats param := Nat.div_pos (by omega) wide
  have below := Nat.div_mul_le_self
    (param.numReadWriteReg + param.numReadOnlyReg + wordsPerBeat param - 1) (wordsPerBeat param)
  have above := Nat.lt_div_mul_add (a :=
    param.numReadWriteReg + param.numReadOnlyReg + wordsPerBeat param - 1) wide
  change numBeats param * wordsPerBeat param ≤ _ at below
  change _ < numBeats param * wordsPerBeat param + _ at above
  have split := Nat.sub_one_mul (numBeats param) (wordsPerBeat param)
  refine ⟨by omega,?_,positive⟩
  omega

/-- The bound never refuses a word that exists. -/
theorem numBeats_le_maxReadAddr (param : ReqRspParam) : numBeats param ≤ maxReadAddr param + 1 := by
  obtain ⟨_,last,positive⟩ := numBeats_cover param
  have wide := wordsPerBeat_pos param
  have room : (numBeats param - 1) * wordsPerBeat param ≤
      param.numReadWriteReg + param.numReadOnlyReg + numBeats param - 1 := by omega
  have := (Nat.le_div_iff_mul_le wide).mpr room
  unfold maxReadAddr
  omega

/-- The bound is the last word exactly if the last word has an empty slot for each word. -/
theorem maxReadAddr_lt_iff (param : ReqRspParam) :
    maxReadAddr param < numBeats param ↔
      param.numReadWriteReg + param.numReadOnlyReg + numBeats param ≤
        numBeats param * wordsPerBeat param := by
  obtain ⟨_,_,positive⟩ := numBeats_cover param
  have some_reg := total_pos param
  unfold maxReadAddr
  rw [Nat.div_lt_iff_lt_mul (wordsPerBeat_pos param)]
  omega

theorem readOverflow_iff (req : Request param) :
    (readOverflow req = true ↔ numBeats param ≤ req.addr.toNat) ↔
      (req.addr.toNat < numBeats param ∨ maxReadAddr param < req.addr.toNat) := by
  have reach := numBeats_le_maxReadAddr param
  simp only [readOverflow,Bool.not_eq_true',decide_eq_false_iff_not,not_le]
  constructor
  · intro exact_
    by_cases inside : req.addr.toNat < numBeats param
    · exact .inl inside
    · exact .inr (exact_.mpr (Nat.le_of_not_lt inside))
  · rintro (inside | beyond)
    · constructor <;> intro _ <;> omega
    · constructor <;> intro _ <;> omega

theorem readReg_iff (s : State param) (i : Input param) (req : Request param) :
    readReg s i = some req ↔ i.req = some req ∧ req.write = false ∧ s.readRegBusy = false := by
  cases busy : s.readRegBusy with
  | true => simp [readReg_of_busy busy]
  | false =>
    cases offered : i.req with
    | none => simp [readReg,accepted,reqReady,offered]
    | some other =>
      cases write : other.write with
      | true =>
        simp only [readReg,Option.filter_eq_some_iff,Bool.not_eq_true',Option.some.injEq]
        constructor
        · rintro ⟨taken,read⟩
          have same := accepted_offered taken
          rw [offered,Option.some.injEq] at same
          subst same
          rw [write] at read
          contradiction
        · rintro ⟨rfl,read,_⟩
          rw [write] at read
          contradiction
      | false =>
        have free : launching other = false := by simp [launching,write]
        simp only [readReg,accepted,reqReady,offered,busy,free,Option.any_some,Bool.false_eq_true,
          ↓reduceIte,Option.filter_some,write,Bool.not_false,Option.some.injEq,and_true]
        constructor
        · rintro rfl
          exact ⟨rfl,write⟩
        · exact And.left

/-- All but the assertion holds in every cycle of every run. -/
theorem read_contract_iff (inputs : List (Input param)) (i : Input param) :
    ReadContract ((readPort param).outs (initial param) inputs)
        ((readPort param).exec (initial param) inputs) i ↔
      ∀ req, readReg ((readPort param).exec (initial param) inputs) i = some req →
        (readOverflow req = true ↔ numBeats param ≤ req.addr.toNat) := by
  refine ⟨fun contract => contract.asserted,fun asserted => ⟨responses_in_order inputs,
    fun req read => rsp_of_read read,?_,?_,?_,asserted⟩⟩
  · intro none free
    simp [rspValid,none,free]
  · intro busy
    exact ⟨accepted_of_busy busy i,rsp_of_busy busy i⟩
  · intro valid blocked
    simp [next,valid,blocked]

/-- A read of one address in the first cycle. -/
def firstRead (addr : BitVec param.addrWidth) : Input param where
  req := some ⟨addr,false,0,0,false⟩
  rspReady := true
  readWriteRegReady := true
  readOnlyReg := fun _ => 0

/-- The read channel keeps its contract in a cycle exactly if the read it accepts does not
name a missing word that the bound admits, and an instance keeps it in all cycles exactly
if it has no such address. -/
theorem read_channel (param : ReqRspParam) :
    (∀ (inputs : List (Input param)) (i : Input param),
      ReadContract ((readPort param).outs (initial param) inputs)
          ((readPort param).exec (initial param) inputs) i ↔
        ∀ req, i.req = some req → req.write = false →
          ((readPort param).exec (initial param) inputs).readRegBusy = false →
          req.addr.toNat < numBeats param ∨ maxReadAddr param < req.addr.toNat) ∧
    ((∀ (inputs : List (Input param)) (i : Input param),
      ReadContract ((readPort param).outs (initial param) inputs)
          ((readPort param).exec (initial param) inputs) i) ↔
        param.numReadWriteReg + param.numReadOnlyReg + numBeats param ≤
            numBeats param * wordsPerBeat param ∨
          2 ^ param.addrWidth ≤ numBeats param) := by
  refine ⟨?_,?_⟩
  · intro inputs i
    rw [read_contract_iff]
    simp only [readReg_iff,readOverflow_iff]
    exact ⟨fun h req offered read free => h req ⟨offered,read,free⟩,
      fun h req both => h req both.1 both.2.1 both.2.2⟩
  · rw [← maxReadAddr_lt_iff]
    simp only [read_contract_iff,readOverflow_iff]
    constructor
    · intro all
      by_contra neither
      obtain ⟨admits,named⟩ := not_or.mp neither
      have missing : (BitVec.ofNat param.addrWidth (numBeats param)).toNat = numBeats param := by
        rw [BitVec.toNat_ofNat]
        exact Nat.mod_eq_of_lt (Nat.lt_of_not_le named)
      have := all [] (firstRead (BitVec.ofNat param.addrWidth (numBeats param))) _
        ((readReg_iff _ _ _).mpr ⟨rfl,rfl,rfl⟩)
      simp only [missing] at this
      omega
    · rintro (tight | narrow) inputs i req _
      · by_cases inside : req.addr.toNat < numBeats param
        · exact .inl inside
        · exact .inr (by omega)
      · exact .inl (Nat.lt_of_lt_of_le req.addr.isLt narrow)

theorem register_positive : 0 < 32 := Nat.succ_pos 31
theorem register_whole : 32 ∣ 32 := Nat.dvd_refl 32
theorem register_fits : 32 ≤ 32 := Nat.le_refl 32
theorem register_bytes : 8 ∣ 32 := ⟨4,rfl⟩

/-- One register of 32 bits on a bus of 32 bits. -/
def oneRegister : ReqRspParam where
  numReadWriteReg := 1
  numReadOnlyReg := 0
  addrWidth := 4
  ioDataWidth := 32
  regDataWidth := 32
  registers := Nat.one_pos
  regPositive := register_positive
  wholeWords := register_whole
  wide := register_fits
  wholeBytes := register_bytes

/-- The bound admits a read of address 1, where there is no word. -/
theorem read_channel_oneRegister :
    ¬ ∀ (inputs : List (Input oneRegister)) (i : Input oneRegister),
      ReadContract ((readPort oneRegister).outs (initial oneRegister) inputs)
        ((readPort oneRegister).exec (initial oneRegister) inputs) i := by
  intro contract
  have exact_ := (contract [] (firstRead 1)).asserted ⟨1,false,0,0,false⟩ (by decide +kernel)
  revert exact_
  decide +kernel

end ReqRspManager
end Snax
