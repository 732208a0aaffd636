import Snax.Arbiter
import Snax.Counter
import Snax.SparseConfig

/-! `sparse_interconnect/ArbitrationTree.scala` and `SparseInterconnect.scala`: one
arbiter for each bank, fed by the inputs that the configuration lists for it, and
responses routed back by the bank and the handshake of the cycle before. -/
namespace Snax

inductive AmoOp
  | none
  | swap
  | add
  | and
  | or
  | xor
  | max
  | maxu
  | min
  | minu
  | lr
  | sc
  deriving DecidableEq

structure TcdmReq (addrWidth dataWidth strbWidth priorityWidth : Nat) where
  addr : BitVec addrWidth
  write : Bool
  amo : AmoOp
  data : BitVec dataWidth
  strb : BitVec strbWidth
  priority : BitVec priorityWidth
  deriving DecidableEq

namespace ArbitrationTree

variable {numInp addrWidth dataWidth strbWidth priorityWidth : Nat}

structure Input (numInp addrWidth dataWidth strbWidth priorityWidth : Nat) where
  tcdmValid : Fin numInp → Bool
  tcdmBits : Fin numInp → TcdmReq addrWidth dataWidth strbWidth priorityWidth
  memReqReady : Bool

def arbiterInput (i : Input numInp addrWidth dataWidth strbWidth priorityWidth) :
    PriorityRoundRobinArbiter.Input numInp priorityWidth where
  requests := fun k => ⟨i.tcdmValid k,(i.tcdmBits k).priority⟩
  ready := i.memReqReady

def selection (s : RoundRobinArbiter.State numInp)
    (i : Input numInp addrWidth dataWidth strbWidth priorityWidth) :
    PriorityRoundRobinArbiter.Output numInp :=
  PriorityRoundRobinArbiter.out s (arbiterInput i)

def memReq (s : RoundRobinArbiter.State numInp)
    (i : Input numInp addrWidth dataWidth strbWidth priorityWidth) :
    Option (TcdmReq addrWidth dataWidth strbWidth priorityWidth) :=
  if (selection s i).valid then some (i.tcdmBits (selection s i).bits) else none

def tcdmReady (s : RoundRobinArbiter.State numInp)
    (i : Input numInp addrWidth dataWidth strbWidth priorityWidth) (k : Fin numInp) : Bool :=
  (selection s i).valid && k == (selection s i).bits && i.memReqReady

def next (s : RoundRobinArbiter.State numInp)
    (i : Input numInp addrWidth dataWidth strbWidth priorityWidth) : RoundRobinArbiter.State numInp :=
  PriorityRoundRobinArbiter.next s (arbiterInput i)

end ArbitrationTree

/-- Chisel's last connect: the value of the last connection whose condition holds. -/
def lastConnect (default : β) (cond : α → Bool) (value : α → β) (connections : List α) : β :=
  connections.foldl (fun wire x => if cond x then value x else wire) default

theorem lastConnect_cases (default : β) (cond : α → Bool) (value : α → β) (connections : List α) :
    (lastConnect default cond value connections = default ∧ ∀ x ∈ connections, cond x = false) ∨
    ∃ x ∈ connections, cond x = true ∧ lastConnect default cond value connections = value x := by
  induction connections generalizing default with
  | nil => exact .inl ⟨rfl,fun x inside => absurd inside List.not_mem_nil⟩
  | cons x connections ih =>
    have step : lastConnect default cond value (x :: connections) =
        lastConnect (if cond x then value x else default) cond value connections := rfl
    rw [step]
    rcases ih (if cond x then value x else default) with ⟨same,none⟩ | ⟨y,inside,holds,same⟩
    · cases here : cond x with
      | true =>
        rw [here] at same
        exact .inr ⟨x,List.mem_cons_self,here,same⟩
      | false =>
        rw [here] at same
        refine .inl ⟨same,fun y inside => ?_⟩
        rcases List.mem_cons.mp inside with rfl | later
        · exact here
        · exact none y later
    · exact .inr ⟨y,List.mem_cons_of_mem x inside,holds,same⟩

/-- The parameters, with what elaboration needs of them: as many inputs as the ports are
wide together, an arbiter with an input at all, and a power of two of banks. -/
structure SparseInterconnectParam where
  numInp : Nat
  numOut : Nat
  memAddrWidth : Nat
  tcdmAddrWidth : Nat
  dataWidth : Nat
  strbWidth : Nat
  priorityWidth : Nat
  config : SparseConfig
  powerOfTwo : 2 ^ log2Ceil numOut = numOut
  divides : config.Divides
  dividesBanks : ∀ p ∈ config.ports, p.accessGranularity ∣ numOut
  covered : numInp = Layout.sumOf SparsePortDefinition.width config.ports
  reached : 0 < config.inputsPerBank

namespace SparseInterconnect

variable (param : SparseInterconnectParam)

abbrev Req := TcdmReq param.tcdmAddrWidth param.dataWidth param.strbWidth param.priorityWidth
abbrev MemReq := TcdmReq param.memAddrWidth param.dataWidth param.strbWidth param.priorityWidth
abbrev Rsp := BitVec param.dataWidth

structure State where
  arbiters : Fin param.numOut → RoundRobinArbiter.State param.config.inputsPerBank
  prevBankRequest : Fin param.numInp → Fin param.numOut
  prevReqFire : Fin param.numInp → Bool

structure Input where
  tcdmValid : Fin param.numInp → Bool
  tcdmBits : Fin param.numInp → Req param
  memReqReady : Fin param.numOut → Bool
  memRsps : Fin param.numOut → Option (Rsp param)

structure Output where
  tcdmReady : Fin param.numInp → Bool
  memReqs : Fin param.numOut → Option (MemReq param)
  tcdmRsps : Fin param.numInp → Option (Rsp param)

def byteOffsetWidth : Nat := log2Ceil (param.dataWidth / 8)
def bankSelectWidth : Nat := log2Ceil param.numOut

theorem globalIn_inside (k : Fin param.config.inputsPerBank) (out : Fin param.numOut) :
    k.val < (param.config.getGlobalIdxList out.val).length := by
  rw [SparseConfig.getGlobalIdxList,SparseConfig.length_globalIdxList]
  exact k.isLt

theorem globalIn_bound (k : Fin param.config.inputsPerBank) (out : Fin param.numOut) :
    (param.config.getGlobalIdxList out.val).get ⟨k.val,globalIn_inside param k out⟩ < param.numInp := by
  rw [param.covered]
  exact SparseConfig.getGlobalIdxList_lt param.divides (List.get_mem _ _)

/-- `get_global_idx`, an index of an input that exists. -/
def globalIn (k : Fin param.config.inputsPerBank) (out : Fin param.numOut) : Fin param.numInp :=
  ⟨(param.config.getGlobalIdxList out.val).get ⟨k.val,globalIn_inside param k out⟩,
    globalIn_bound param k out⟩

def granularity (n : Fin param.numInp) : Nat :=
  (param.config.located n.val).elim 1 fun found => found.1.accessGranularity

def index (n : Fin param.numInp) : Nat := (param.config.located n.val).elim 0 Prod.snd

variable {param}

/-- `arbiters(out)`'s input `k` is connected to `globalIn k out`. -/
def connections (param : SparseInterconnectParam) :
    List (Fin param.numOut × Fin param.config.inputsPerBank) :=
  (List.finRange param.numOut).flatMap fun out =>
    (List.finRange param.config.inputsPerBank).map fun k => (out,k)

theorem bankSelect_bound (addr : BitVec param.tcdmAddrWidth) :
    (addr.extractLsb' (byteOffsetWidth param) (bankSelectWidth param)).toNat < param.numOut := by
  have bound := (addr.extractLsb' (byteOffsetWidth param) (bankSelectWidth param)).isLt
  rwa [bankSelectWidth,param.powerOfTwo] at bound

/-- The bank that the address selects, valid or not. -/
def bankSelect (i : Input param) (n : Fin param.numInp) : Fin param.numOut :=
  ⟨((i.tcdmBits n).addr.extractLsb' (byteOffsetWidth param) (bankSelectWidth param)).toNat,
    bankSelect_bound _⟩

/-- The request as the bank sees it, with the relevant part of the address. -/
def toBank (req : Req param) : MemReq param :=
  { req with
    addr := (req.addr.extractLsb' (bankSelectWidth param + byteOffsetWidth param)
      (param.tcdmAddrWidth - (bankSelectWidth param + byteOffsetWidth param))).setWidth _ }

def arbiterInput (i : Input param) (out : Fin param.numOut) :
    ArbitrationTree.Input param.config.inputsPerBank param.memAddrWidth param.dataWidth
      param.strbWidth param.priorityWidth where
  tcdmValid := fun k => i.tcdmValid (globalIn param k out) && bankSelect i (globalIn param k out) == out
  tcdmBits := fun k => toBank (i.tcdmBits (globalIn param k out))
  memReqReady := i.memReqReady out

def tcdmReady (s : State param) (i : Input param) (n : Fin param.numInp) : Bool :=
  lastConnect false (fun x => globalIn param x.2 x.1 == n && bankSelect i n == x.1)
    (fun x => ArbitrationTree.tcdmReady (s.arbiters x.1) (arbiterInput i x.1) x.2) (connections param)

def reqFire (s : State param) (i : Input param) (n : Fin param.numInp) : Bool :=
  i.tcdmValid n && tcdmReady s i n

theorem granularity_divides (n : Fin param.numInp) :
    0 < granularity param n ∧ granularity param n ∣ param.numOut := by
  unfold granularity
  cases found : param.config.located n.val with
  | none => exact ⟨Nat.one_pos,Nat.one_dvd _⟩
  | some found' =>
    rw [SparseConfig.located_within] at found
    have inside := (SparseConfig.within_port found).1
    exact ⟨(param.divides _ inside).1,param.dividesBanks _ inside⟩

theorem responder_bound (n : Fin param.numInp) (k : Fin (param.numOut / granularity param n)) :
    k.val * granularity param n + index param n % granularity param n < param.numOut := by
  obtain ⟨positive,rows,banks⟩ := granularity_divides n
  have row := Nat.mul_le_mul_left (granularity param n) (Nat.succ_le_of_lt k.isLt)
  have rest := Nat.mod_lt (index param n) positive
  rw [Nat.mul_succ,Nat.mul_comm _ k.val,Nat.mul_div_cancel' ⟨rows,banks⟩] at row
  omega

/-- The banks whose responses are connected to an input. -/
def responders (n : Fin param.numInp) : List (Fin param.numOut) :=
  (List.finRange (param.numOut / granularity param n)).map fun k =>
    ⟨k.val * granularity param n + index param n % granularity param n,responder_bound n k⟩

def tcdmRsp (s : State param) (i : Input param) (n : Fin param.numInp) : Option (Rsp param) :=
  lastConnect none (fun out => s.prevBankRequest n == out && s.prevReqFire n) i.memRsps (responders n)

def next (s : State param) (i : Input param) : State param where
  arbiters := fun out => ArbitrationTree.next (s.arbiters out) (arbiterInput i out)
  prevBankRequest := bankSelect i
  prevReqFire := reqFire s i

def out (s : State param) (i : Input param) : Output param where
  tcdmReady := tcdmReady s i
  memReqs := fun out => ArbitrationTree.memReq (s.arbiters out) (arbiterInput i out)
  tcdmRsps := tcdmRsp s i

/-- The arbiters start from reset, the registers of the response side from anything. -/
def initial (prevBankRequest : Fin param.numInp → Fin param.numOut)
    (prevReqFire : Fin param.numInp → Bool) : State param where
  arbiters := fun _ => RoundRobinArbiter.initial param.reached
  prevBankRequest := prevBankRequest
  prevReqFire := prevReqFire

end SparseInterconnect

def sparseInterconnect (param : SparseInterconnectParam) :
    Sync.Machine (SparseInterconnect.State param) (SparseInterconnect.Input param)
      (SparseInterconnect.Output param) where
  next := SparseInterconnect.next
  out := SparseInterconnect.out

end Snax
