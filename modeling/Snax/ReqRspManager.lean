import Snax.Reader
import Snax.Sync.Machine

/-! `reqRspManager/ReqRspManager.scala`: the register file behind a bus of several
registers a beat, written under byte strobes and launched by its last register. The
contract below compares what a launch delivers with the writes accepted byte by byte. -/
namespace Snax

/-- The width assertions of the generator, and strobes of whole bytes. -/
structure ReqRspParam where
  numReadWriteReg : Nat
  numReadOnlyReg : Nat
  addrWidth : Nat
  ioDataWidth : Nat
  regDataWidth : Nat
  registers : 0 < numReadWriteReg
  regPositive : 0 < regDataWidth
  wholeWords : regDataWidth ∣ ioDataWidth
  wide : regDataWidth ≤ ioDataWidth
  wholeBytes : 8 ∣ ioDataWidth

namespace ReqRspManager

variable (param : ReqRspParam)

def wordsPerBeat : Nat := param.ioDataWidth / param.regDataWidth

abbrev Reg := BitVec param.regDataWidth
abbrev Request := RegReq param.addrWidth param.ioDataWidth

structure State where
  regs : Fin param.numReadWriteReg → Reg param
  readRegBusy : Bool
  readRegBuffer : BitVec param.ioDataWidth

structure Input where
  req : Option (Request param)
  rspReady : Bool
  readWriteRegReady : Bool
  readOnlyReg : Fin param.numReadOnlyReg → Reg param

structure Output where
  reqReady : Bool
  /-- The request taken in this cycle. -/
  accepted : Option (Request param)
  rsp : Option (BitVec param.ioDataWidth)
  readWriteReg : Option (Fin param.numReadWriteReg → Reg param)

variable {param}

def initial (param : ReqRspParam) : State param := ⟨fun _ => 0,false,0⟩

/-- The bus word with the given bits, least significant first. -/
def ofBits (f : Nat → Bool) : (w : Nat) → BitVec w
  | 0 => 0
  | w + 1 => BitVec.cons (f w) (ofBits f w)

/-- `FillInterleaved(8, strb)`. -/
def fillInterleaved (req : Request param) : BitVec param.ioDataWidth :=
  ofBits (fun b => req.strb.getLsbD (b / 8)) param.ioDataWidth

/-- The pieces that `masks` and `datas` are cut into. -/
def piece (word : BitVec param.ioDataWidth) (k : Nat) : Reg param :=
  word.extractLsb' (k * param.regDataWidth) param.regDataWidth

/-- The write of one beat. A piece beyond the last register goes nowhere: the source
only asserts that it is masked. -/
def writeBeat (regs : Fin param.numReadWriteReg → Reg param) (req : Request param) :
    Fin param.numReadWriteReg → Reg param := fun r =>
  let baseAddr := req.addr.toNat * wordsPerBeat param
  if baseAddr ≤ r.val ∧ r.val < baseAddr + wordsPerBeat param then
    let mask := piece (fillInterleaved req) (r.val - baseAddr)
    (regs r &&& ~~~mask) ||| (piece req.data (r.val - baseAddr) &&& mask)
  else regs r

def startBeat (param : ReqRspParam) : Nat := (param.numReadWriteReg - 1) / wordsPerBeat param

/-- `startReg`, equal to `check_acc_status`: a write of the start register's lowest bit. -/
def launching (req : Request param) : Bool :=
  let low := (param.numReadWriteReg - 1) % wordsPerBeat param * param.regDataWidth
  req.write && req.addr.toNat == startBeat param && req.strb.getLsbD (low / 8) &&
    req.data.getLsbD low

def reqReady (s : State param) (i : Input param) : Bool :=
  if s.readRegBusy then false
  else if i.req.any launching then i.readWriteRegReady
  else true

def accepted (s : State param) (i : Input param) : Option (Request param) :=
  if reqReady s i then i.req else none

def readReg (s : State param) (i : Input param) : Option (Request param) :=
  (accepted s i).filter fun req => !req.write

def writeReg (s : State param) (i : Input param) : Option (Request param) :=
  (accepted s i).filter fun req => req.write

def all32 (s : State param) (i : Input param) : List (Reg param) :=
  List.ofFn s.regs ++ List.ofFn i.readOnlyReg

/-- One entry of `allRegisters`, padded with zeros. The source has no entry beyond the
last beat and asserts that none is read. -/
def allRegisters (s : State param) (i : Input param) (beat : Nat) : BitVec param.ioDataWidth :=
  ofBits (fun b => ((all32 s i).getD (beat * wordsPerBeat param + b / param.regDataWidth) 0).getLsbD
    (b % param.regDataWidth)) param.ioDataWidth

def rspValid (s : State param) (i : Input param) : Bool := (readReg s i).isSome || s.readRegBusy

def rspData (s : State param) (i : Input param) : BitVec param.ioDataWidth :=
  match readReg s i with
  | some req => allRegisters s i req.addr.toNat
  | none => if s.readRegBusy then s.readRegBuffer else 0

def launched (s : State param) (i : Input param) : Bool := (writeReg s i).any launching

def next (s : State param) (i : Input param) : State param where
  regs := match writeReg s i with
    | some req => writeBeat s.regs req
    | none => s.regs
  readRegBusy := rspValid s i && !i.rspReady
  readRegBuffer := rspData s i

def out (s : State param) (i : Input param) : Output param where
  reqReady := reqReady s i
  accepted := accepted s i
  rsp := if rspValid s i then some (rspData s i) else none
  readWriteReg := if launched s i then some s.regs else none

end ReqRspManager

def reqRspManager (param : ReqRspParam) : Sync.Machine (ReqRspManager.State param)
    (ReqRspManager.Input param) (ReqRspManager.Output param) where
  next := ReqRspManager.next
  out := ReqRspManager.out

namespace ReqRspManager

variable {param : ReqRspParam}

/-- A register file as bits: register, then bit. -/
abbrev File := Nat → Nat → Bool

/-- The bus bit that holds bit `j` of register `r`. -/
def busBit (param : ReqRspParam) (r j : Nat) : Nat := r % wordsPerBeat param * param.regDataWidth + j

/-- One write, byte by byte: a strobed byte of the beat replaces the byte of the file. -/
def byteWrite (file : File) (req : Request param) : File := fun r j =>
  if r / wordsPerBeat param = req.addr.toNat ∧ req.strb.getLsbD (busBit param r j / 8) = true then
    req.data.getLsbD (busBit param r j)
  else file r j

def byteFile (writes : List (Request param)) : File := writes.foldl byteWrite fun _ _ => false

def acceptedWrites (history : List (Output param)) : List (Request param) :=
  (history.filterMap Output.accepted).filter fun req => req.write

/-- What a launch promises in a cycle: it delivers every register but the start register
with all accepted writes applied, its own beat included; it is accepted exactly when the
configuration is taken and no response is pending; it fires exactly once per acceptance;
and while it is blocked it changes no register. -/
structure LaunchContract (history : List (Output param)) (s : State param) (i : Input param) :
    Prop where
  delivered : ∀ regs, (out s i).readWriteReg = some regs → ∀ r : Fin param.numReadWriteReg,
    r.val ≠ param.numReadWriteReg - 1 → ∀ j < param.regDataWidth,
      (regs r).getLsbD j = byteFile (acceptedWrites (history ++ [out s i])) r.val j
  accepts : ∀ req, i.req = some req → launching req = true →
    ((out s i).accepted = some req ↔ i.readWriteRegReady = true ∧ s.readRegBusy = false)
  fires : ((out s i).readWriteReg.isSome = true ∧ i.readWriteRegReady = true) ↔
    ∃ req, (out s i).accepted = some req ∧ launching req = true
  once : (history ++ [out s i]).countP (fun o => o.readWriteReg.isSome) =
    (acceptedWrites (history ++ [out s i])).countP launching
  blocked : ∀ req, i.req = some req → launching req = true → (out s i).accepted = none →
    (next s i).regs = s.regs

/-- The strobed bytes that a launching beat carries for registers other than the start
register are the bytes stored there. -/
def KeepsNeighbours (s : State param) (req : Request param) : Prop :=
  ∀ r : Fin param.numReadWriteReg, r.val ≠ param.numReadWriteReg - 1 →
    r.val / wordsPerBeat param = startBeat param → ∀ j < param.regDataWidth,
      req.strb.getLsbD (busBit param r.val j / 8) = true →
      req.data.getLsbD (busBit param r.val j) = (s.regs r).getLsbD j

theorem getLsbD_ofBits (f : Nat → Bool) (w j : Nat) :
    (ofBits f w).getLsbD j = (decide (j < w) && f j) := by
  induction w with
  | zero => simp [ofBits]
  | succ w ih =>
    rw [ofBits,BitVec.getLsbD_cons,ih]
    rcases Nat.lt_trichotomy j w with below | rfl | above
    · simp [below,below.ne,Nat.lt_succ_of_lt below]
    · simp
    · have far : ¬ j < w := by omega
      have out_of : ¬ j < w + 1 := by omega
      simp [above.ne',far,out_of]

theorem beat_width (param : ReqRspParam) : wordsPerBeat param * param.regDataWidth = param.ioDataWidth :=
  Nat.div_mul_cancel param.wholeWords

theorem wordsPerBeat_pos (param : ReqRspParam) : 0 < wordsPerBeat param :=
  Nat.div_pos param.wide param.regPositive

theorem busBit_lt (r : Nat) {j : Nat} (inside : j < param.regDataWidth) :
    busBit param r j < param.ioDataWidth := by
  have place := Nat.mod_lt r (wordsPerBeat_pos param)
  have room : (r % wordsPerBeat param + 1) * param.regDataWidth ≤
      wordsPerBeat param * param.regDataWidth := Nat.mul_le_mul_right _ place
  rw [beat_width,Nat.add_mul,Nat.one_mul] at room
  unfold busBit
  omega

/-- One beat on the registers is one write on the bytes. -/
theorem writeBeat_bit (regs : Fin param.numReadWriteReg → Reg param) (req : Request param)
    (r : Fin param.numReadWriteReg) {j : Nat} (inside : j < param.regDataWidth) :
    (writeBeat regs req r).getLsbD j =
      if r.val / wordsPerBeat param = req.addr.toNat ∧
          req.strb.getLsbD (busBit param r.val j / 8) = true then
        req.data.getLsbD (busBit param r.val j)
      else (regs r).getLsbD j := by
  have positive := wordsPerBeat_pos param
  have split := Nat.div_add_mod r.val (wordsPerBeat param)
  have place := Nat.mod_lt r.val positive
  have inBeat : (req.addr.toNat * wordsPerBeat param ≤ r.val ∧
      r.val < req.addr.toNat * wordsPerBeat param + wordsPerBeat param) ↔
        r.val / wordsPerBeat param = req.addr.toNat := by
    rw [Nat.div_eq_iff positive]
    constructor <;> intro h <;> constructor <;> try omega
  unfold writeBeat
  by_cases here : r.val / wordsPerBeat param = req.addr.toNat
  · have offset : r.val - req.addr.toNat * wordsPerBeat param = r.val % wordsPerBeat param := by
      rw [here,Nat.mul_comm] at split
      omega
    have bit := busBit_lt r.val inside
    have mask : (piece (fillInterleaved req) (r.val % wordsPerBeat param)).getLsbD j =
        req.strb.getLsbD (busBit param r.val j / 8) := by
      rw [piece,BitVec.getLsbD_extractLsb',fillInterleaved,getLsbD_ofBits]
      unfold busBit at bit ⊢
      simp [inside,bit]
    have data : (piece req.data (r.val % wordsPerBeat param)).getLsbD j =
        req.data.getLsbD (busBit param r.val j) := by
      rw [piece,BitVec.getLsbD_extractLsb']
      simp [inside,busBit]
    rw [if_pos (inBeat.mpr here),offset]
    simp only [BitVec.getLsbD_or,BitVec.getLsbD_and,BitVec.getLsbD_not,mask,data,inside,here,
      true_and,decide_true,Bool.true_and]
    cases req.strb.getLsbD (busBit param r.val j / 8) <;> simp
  · rw [if_neg (fun h => here (inBeat.mp h)),if_neg (fun h => here h.1)]

theorem acceptedWrites_next (history : List (Output param)) (s : State param) (i : Input param) :
    acceptedWrites (history ++ [out s i]) = acceptedWrites history ++ (writeReg s i).toList := by
  have same : (out s i).accepted = accepted s i := rfl
  unfold acceptedWrites writeReg
  cases request : accepted s i with
  | none => simp [same,request]
  | some req => cases write : req.write <;> simp [same,request,write,Option.filter]

theorem byteFile_append (writes : List (Request param)) (req : Request param) :
    byteFile (writes ++ [req]) = byteWrite (byteFile writes) req := by
  simp [byteFile]

/-- The registers hold the bytes of all accepted writes. -/
theorem regs_eq (inputs : List (Input param)) (r : Fin param.numReadWriteReg) {j : Nat}
    (inside : j < param.regDataWidth) :
    (((reqRspManager param).exec (initial param) inputs).regs r).getLsbD j =
      byteFile (acceptedWrites ((reqRspManager param).outs (initial param) inputs)) r.val j := by
  refine Sync.Machine.run_rule (m := reqRspManager param)
    (fun history s => ∀ r j, j < param.regDataWidth →
      (s.regs r).getLsbD j = byteFile (acceptedWrites history) r.val j) ?_ ?_ inputs r j inside
  · intro r j _
    simp [initial,byteFile,acceptedWrites]
  · intro history s i held r j inside
    change ((next s i).regs r).getLsbD j = byteFile (acceptedWrites (history ++ [out s i])) r.val j
    rw [acceptedWrites_next]
    cases write : writeReg s i with
    | none => simp [next,write,held r j inside]
    | some req =>
      rw [Option.toList_some,byteFile_append,byteWrite,← held r j inside]
      simp only [next,write]
      exact writeBeat_bit s.regs req r inside

/-- A launch is the acceptance of a launching write. -/
theorem launched_iff (s : State param) (i : Input param) :
    launched s i = true ↔ ∃ req, accepted s i = some req ∧ launching req = true := by
  unfold launched writeReg
  cases accepted s i with
  | none => simp
  | some req =>
    cases write : req.write with
    | true => simp [Option.filter,write]
    | false => simp [Option.filter,write,launching]

theorem accepted_launching {s : State param} {i : Input param} {req : Request param}
    (offered : i.req = some req) (launch : launching req = true) :
    accepted s i = some req ↔ i.readWriteRegReady = true ∧ s.readRegBusy = false := by
  simp only [accepted,reqReady,offered,Option.any_some,launch,↓reduceIte]
  cases s.readRegBusy <;> cases i.readWriteRegReady <;> simp

theorem accepted_offered {s : State param} {i : Input param} {req : Request param}
    (taken : accepted s i = some req) : i.req = some req := by
  unfold accepted at taken
  split at taken
  · exact taken
  · contradiction

theorem count_next (history : List (Output param)) (s : State param) (i : Input param)
    (before : history.countP (fun o => o.readWriteReg.isSome) =
      (acceptedWrites history).countP launching) :
    (history ++ [out s i]).countP (fun o => o.readWriteReg.isSome) =
      (acceptedWrites (history ++ [out s i])).countP launching := by
  rw [acceptedWrites_next,List.countP_append,List.countP_append,before]
  congr 1
  have fires : (out s i).readWriteReg.isSome = (writeReg s i).any launching := by
    have same : launched s i = (writeReg s i).any launching := rfl
    rw [← same]
    cases launch : launched s i <;> simp [out,launch]
  cases write : writeReg s i with
  | none => simp [fires,write]
  | some req => cases launch : launching req <;> simp [fires,write,launch]

theorem count_eq (inputs : List (Input param)) :
    ((reqRspManager param).outs (initial param) inputs).countP (fun o => o.readWriteReg.isSome) =
      (acceptedWrites ((reqRspManager param).outs (initial param) inputs)).countP launching :=
  Sync.Machine.run_rule (m := reqRspManager param) (fun history _ =>
    history.countP (fun o => o.readWriteReg.isSome) = (acceptedWrites history).countP launching)
    rfl (fun history s i before => count_next history s i before) inputs

/-- A launching beat adds nothing to the delivered bytes exactly where it keeps the
neighbours of the start register. -/
theorem byteWrite_launch {s : State param} {file : File} {req : Request param}
    (held : ∀ (r : Fin param.numReadWriteReg) (j : Nat), j < param.regDataWidth →
      (s.regs r).getLsbD j = file r.val j) (launch : launching req = true) :
    (∀ r : Fin param.numReadWriteReg, r.val ≠ param.numReadWriteReg - 1 →
      ∀ j < param.regDataWidth, (s.regs r).getLsbD j = byteWrite file req r.val j) ↔
    KeepsNeighbours s req := by
  have beat : req.addr.toNat = startBeat param := by
    simp only [launching,Bool.and_eq_true,beq_iff_eq] at launch
    exact launch.1.1.2
  constructor
  · intro same r other here j inside strobed
    have eq := same r other j inside
    rw [byteWrite,if_pos ⟨here.trans beat.symm,strobed⟩] at eq
    exact eq.symm
  · intro keeps r other j inside
    rw [byteWrite]
    split
    · rename_i touched
      exact (keeps r other (touched.1.trans beat) j inside touched.2).symm
    · exact held r j inside

/-- The launch contract holds in a cycle of a run exactly if a launch accepted in it
keeps the neighbours of the start register: the registers are delivered as stored. -/
theorem launch_contract (inputs : List (Input param)) (i : Input param) :
    let s := (reqRspManager param).exec (initial param) inputs
    LaunchContract ((reqRspManager param).outs (initial param) inputs) s i ↔
      ∀ req, i.req = some req → launching req = true → i.readWriteRegReady = true →
        s.readRegBusy = false → KeepsNeighbours s req := by
  intro s
  have held := fun (r : Fin param.numReadWriteReg) (j : Nat) (inside : j < param.regDataWidth) =>
    regs_eq inputs r inside
  have fired : ∀ req, accepted s i = some req → launching req = true →
      (out s i).readWriteReg = some s.regs ∧
      acceptedWrites ((reqRspManager param).outs (initial param) inputs ++ [out s i]) =
        acceptedWrites ((reqRspManager param).outs (initial param) inputs) ++ [req] := by
    intro req taken launch
    have write : req.write = true := by
      simp only [launching,Bool.and_eq_true] at launch
      exact launch.1.1.1
    refine ⟨?_,?_⟩
    · simp [out,(launched_iff s i).mpr ⟨req,taken,launch⟩]
    · rw [acceptedWrites_next]
      simp [writeReg,taken,write,Option.filter]
  constructor
  · intro contract req offered launch ready free
    have taken := (accepted_launching offered launch).mpr ⟨ready,free⟩
    obtain ⟨fire,writes⟩ := fired req taken launch
    have delivered := contract.delivered s.regs fire
    rw [writes] at delivered
    simp only [byteFile_append] at delivered
    exact (byteWrite_launch held launch).mp delivered
  · intro keeps
    refine ⟨fun regs fire => ?_,fun req offered launch => accepted_launching offered launch,?_,
      count_next _ s i (count_eq inputs),fun req offered launch blocked => ?_⟩
    · have launch : launched s i = true := by
        by_contra no
        simp [out,no] at fire
      obtain ⟨req,taken,launches⟩ := (launched_iff s i).mp launch
      obtain ⟨stored,writes⟩ := fired req taken launches
      obtain rfl := Option.some.inj (stored.symm.trans fire)
      have offered := accepted_offered taken
      obtain ⟨ready,free⟩ := (accepted_launching offered launches).mp taken
      rw [writes]
      simp only [byteFile_append]
      exact (byteWrite_launch held launches).mpr (keeps req offered launches ready free)
    · have launch : (out s i).readWriteReg.isSome = launched s i := by
        cases h : launched s i <;> simp [out,h]
      rw [launch,launched_iff]
      refine ⟨And.left,fun taken => ⟨taken,?_⟩⟩
      obtain ⟨req,taken,launches⟩ := taken
      exact ((accepted_launching (accepted_offered taken) launches).mp taken).1
    · have none : writeReg s i = none := by
        have still : accepted s i = Option.none := blocked
        simp [writeReg,still]
      simp [next,none]

/-- With one register a beat the start register has no neighbours. -/
theorem keepsNeighbours_of_narrow (narrow : wordsPerBeat param = 1) (s : State param)
    (req : Request param) : KeepsNeighbours s req := by
  intro r other here
  rw [startBeat,narrow,Nat.div_one,Nat.div_one] at here
  exact absurd here other

/-- Two registers of 32 bits in one beat. -/
def wideParam : ReqRspParam where
  numReadWriteReg := 2
  numReadOnlyReg := 0
  addrWidth := 4
  ioDataWidth := 64
  regDataWidth := 32
  registers := Nat.two_pos
  regPositive := by decide
  wholeWords := by decide
  wide := by decide
  wholeBytes := by decide

/-- One beat that writes 5 to register 0 and launches. -/
def wideLaunch : Input wideParam where
  req := some ⟨0,true,0x100000005,0xFF,false⟩
  rspReady := true
  readWriteRegReady := true
  readOnlyReg := fun _ => 0

/-- The launch delivers register 0 as it was before its own beat. -/
theorem launch_contract_wide :
    ¬ ∀ (inputs : List (Input wideParam)) (i : Input wideParam),
      LaunchContract ((reqRspManager wideParam).outs (initial wideParam) inputs)
        ((reqRspManager wideParam).exec (initial wideParam) inputs) i := by
  intro contract
  have delivered := (contract [] wideLaunch).delivered (fun _ => 0) (by decide +kernel)
    ⟨0,by decide⟩ (by decide) 0 (by decide)
  revert delivered
  decide +kernel

end ReqRspManager
end Snax
