import Snax.SparseInterconnect

/-! Routing of the sparse interconnect: under legal addresses every input that fires is
the one request of the bank it selects, and the answer it sees in the next cycle is the
answer of that bank. -/
namespace Snax.SparseInterconnect

open Layout

variable {param : SparseInterconnectParam}

/-- The legality assertion: the bank lies in the row of the input. -/
def Legal (i : Input param) : Prop :=
  ∀ n, i.tcdmValid n = true →
    (bankSelect i n).val % granularity param n = index param n % granularity param n

/-- The request of an input with its upper address bits, as many as the bank takes. -/
def Carries (req : Req param) (presented : MemReq param) : Prop :=
  presented.addr.toNat =
    req.addr.toNat / 2 ^ (bankSelectWidth param + byteOffsetWidth param) % 2 ^ param.memAddrWidth ∧
  presented.data = req.data ∧ presented.strb = req.strb ∧ presented.write = req.write

/-- One cycle: who fires is presented to its bank, alone; who is accepted has fired; and
exactly the banks that are asked present a request. -/
structure Forwards (s : State param) (i : Input param) : Prop where
  presents : ∀ n, reqFire s i n = true →
    ∃ req, (out s i).memReqs (bankSelect i n) = some req ∧ Carries (i.tcdmBits n) req
  alone : ∀ n m, reqFire s i n = true → reqFire s i m = true → bankSelect i n = bankSelect i m → n = m
  accepts : ∀ bank req, (out s i).memReqs bank = some req → i.memReqReady bank = true →
    ∃ n, reqFire s i n = true ∧ bankSelect i n = bank
  asked : ∀ bank, ((out s i).memReqs bank).isSome = true ↔
    ∃ n, i.tcdmValid n = true ∧ bankSelect i n = bank

/-- Two cycles in a row: an input sees the answer of the bank it fired on, or nothing. -/
def Answered (s : State param) (i later : Input param) : Prop :=
  ∀ n, (reqFire s i n = true → ((out (next s i) later).tcdmRsps n).isSome = true ∧
      (out (next s i) later).tcdmRsps n = later.memRsps (bankSelect i n)) ∧
    (reqFire s i n = false → (out (next s i) later).tcdmRsps n = none)

/-- A bank answers in the cycle after it accepted a request, and only then. -/
def BanksAnswer (s : State param) (i later : Input param) : Prop :=
  ∀ bank, (later.memRsps bank).isSome = true ↔
    ((out s i).memReqs bank).isSome = true ∧ i.memReqReady bank = true

structure Routes (param : SparseInterconnectParam) (s : State param) (inputs : List (Input param)) :
    Prop where
  listed : ∀ bank, (param.config.getGlobalIdxList bank).Nodup ∧
    ∀ g, g ∈ param.config.getGlobalIdxList bank ↔ ∃ port p idx,
      param.config.getPortAndIndex g = some (port,idx) ∧ param.config.ports[port]? = some p ∧
      idx % p.accessGranularity = bank % p.accessGranularity
  forwards : (sparseInterconnect param).Each (fun _ s i => Forwards s i) s inputs
  answered : ∀ before i later after, inputs = before ++ i :: later :: after →
    Answered ((sparseInterconnect param).exec s before) i later

theorem globalIn_inj {k l : Fin param.config.inputsPerBank} {bank : Fin param.numOut}
    (same : globalIn param k bank = globalIn param l bank) : k = l := by
  have values := congrArg Fin.val same
  simp only [globalIn] at values
  have nodup : (param.config.getGlobalIdxList bank.val).Nodup :=
    SparseConfig.nodup_globalIdxList param.divides bank.val 0
  have places := (List.Nodup.get_inj_iff nodup).mp values
  exact Fin.ext (Fin.mk.inj places)

/-- An input is listed for every bank in its row. -/
theorem exists_globalIn {n : Fin param.numInp} {bank : Fin param.numOut}
    (legal : bank.val % granularity param n = index param n % granularity param n) :
    ∃ k, globalIn param k bank = n := by
  have inside : (param.config.located n.val).isSome = true := by
    rw [SparseConfig.located_within,SparseConfig.within_isSome,← param.covered]
    exact n.isLt
  obtain ⟨⟨p,idx⟩,found⟩ := Option.isSome_iff_exists.mp inside
  have listed : n.val ∈ param.config.getGlobalIdxList bank.val := by
    refine (SparseConfig.mem_getGlobalIdxList param.divides bank.val n.val).mpr ⟨p,idx,found,?_⟩
    simpa [granularity,index,found] using legal.symm
  obtain ⟨place,here⟩ := List.get_of_mem listed
  have short : place.val < param.config.inputsPerBank :=
    Nat.lt_of_lt_of_eq place.isLt (SparseConfig.length_globalIdxList _ _ _)
  exact ⟨⟨place.val,short⟩,Fin.ext here⟩

theorem mem_connections (out : Fin param.numOut) (k : Fin param.config.inputsPerBank) :
    (out,k) ∈ connections param := by
  simp [connections]

/-- An input is ready exactly when it is the selection of a ready bank. -/
theorem ready_iff (s : State param) (i : Input param) (n : Fin param.numInp) :
    tcdmReady s i n = true ↔ ∃ k, globalIn param k (bankSelect i n) = n ∧
      (ArbitrationTree.selection (s.arbiters (bankSelect i n)) (arbiterInput i (bankSelect i n))).valid =
        true ∧
      k = (ArbitrationTree.selection (s.arbiters (bankSelect i n)) (arbiterInput i (bankSelect i n))).bits ∧
      i.memReqReady (bankSelect i n) = true := by
  have value (x : Fin param.numOut × Fin param.config.inputsPerBank)
      (holds : (globalIn param x.2 x.1 == n && bankSelect i n == x.1) = true) :
      globalIn param x.2 (bankSelect i n) = n ∧ bankSelect i n = x.1 := by
    rw [Bool.and_eq_true,beq_iff_eq,beq_iff_eq] at holds
    exact ⟨holds.2 ▸ holds.1,holds.2⟩
  unfold tcdmReady
  rcases lastConnect_cases false (fun x => globalIn param x.2 x.1 == n && bankSelect i n == x.1)
    (fun x => ArbitrationTree.tcdmReady (s.arbiters x.1) (arbiterInput i x.1) x.2) (connections param)
    with ⟨same,none⟩ | ⟨⟨bank,k⟩,_,holds,same⟩
  · rw [same]
    refine ⟨fun impossible => absurd impossible Bool.false_ne_true,?_⟩
    rintro ⟨k,own,_⟩
    have here := none _ (mem_connections (bankSelect i n) k)
    simp [own] at here
  · obtain ⟨own,rfl⟩ := value _ holds
    rw [same]
    simp only [ArbitrationTree.tcdmReady,Bool.and_eq_true,beq_iff_eq]
    constructor
    · rintro ⟨⟨valid,selected⟩,ready⟩
      exact ⟨k,own,valid,selected,ready⟩
    · rintro ⟨l,other,valid,selected,ready⟩
      obtain rfl := globalIn_inj (own.trans other.symm)
      exact ⟨⟨valid,selected⟩,ready⟩

/-- What a bank presents is the request of its selection, which asks for that bank. -/
theorem memReqs_eq_some {s : State param} {i : Input param} {bank : Fin param.numOut}
    {req : MemReq param} (presented : (out s i).memReqs bank = some req) :
    ∃ k, (ArbitrationTree.selection (s.arbiters bank) (arbiterInput i bank)).valid = true ∧
      k = (ArbitrationTree.selection (s.arbiters bank) (arbiterInput i bank)).bits ∧
      i.tcdmValid (globalIn param k bank) = true ∧ bankSelect i (globalIn param k bank) = bank ∧
      req = toBank (i.tcdmBits (globalIn param k bank)) := by
  change ArbitrationTree.memReq (s.arbiters bank) (arbiterInput i bank) = some req at presented
  unfold ArbitrationTree.memReq at presented
  split at presented
  · rename_i valid
    have asks := (PriorityRoundRobinArbiter.maximal_of_valid valid).1
    change (i.tcdmValid _ && _ == bank) = true at asks
    rw [Bool.and_eq_true,beq_iff_eq] at asks
    exact ⟨_,valid,rfl,asks.1,asks.2,(Option.some.inj presented).symm⟩
  · contradiction

theorem toNat_upper (req : Req param) : (toBank req).addr.toNat =
    req.addr.toNat / 2 ^ (bankSelectWidth param + byteOffsetWidth param) % 2 ^ param.memAddrWidth := by
  have whole : req.addr.toNat / 2 ^ (bankSelectWidth param + byteOffsetWidth param) <
      2 ^ (param.tcdmAddrWidth - (bankSelectWidth param + byteOffsetWidth param)) := by
    apply Nat.div_lt_of_lt_mul
    rw [← Nat.pow_add]
    exact Nat.lt_of_lt_of_le req.addr.isLt (Nat.pow_le_pow_right Nat.two_pos (by omega))
  simp only [toBank,BitVec.toNat_setWidth,BitVec.extractLsb'_toNat,Nat.shiftRight_eq_div_pow]
  rw [Nat.mod_eq_of_lt whole]

theorem forwards {i : Input param} (legal : Legal i) (s : State param) : Forwards s i := by
  constructor
  · intro n fire
    obtain ⟨k,own,valid,selected,_⟩ := (ready_iff s i n).mp ((Bool.and_eq_true _ _).mp fire).2
    refine ⟨toBank (i.tcdmBits n),?_,toNat_upper _,rfl,rfl,rfl⟩
    change ArbitrationTree.memReq _ _ = _
    rw [ArbitrationTree.memReq,if_pos valid,← selected]
    exact congrArg (fun n => some (toBank (i.tcdmBits n))) own
  · intro n m first second same
    obtain ⟨k,own,_,selected,_⟩ := (ready_iff s i n).mp ((Bool.and_eq_true _ _).mp first).2
    obtain ⟨l,other,_,again,_⟩ := (ready_iff s i m).mp ((Bool.and_eq_true _ _).mp second).2
    rw [← same] at other again
    rw [← own,← other,selected,again]
  · intro bank req presented ready
    obtain ⟨k,valid,selected,asks,own,_⟩ := memReqs_eq_some presented
    refine ⟨globalIn param k bank,?_,own⟩
    rw [reqFire,asks,Bool.true_and,ready_iff,own]
    exact ⟨k,rfl,valid,selected,ready⟩
  · intro bank
    constructor
    · intro some_req
      obtain ⟨req,presented⟩ := Option.isSome_iff_exists.mp some_req
      obtain ⟨k,_,_,asks,own,_⟩ := memReqs_eq_some presented
      exact ⟨_,asks,own⟩
    · rintro ⟨n,asks,rfl⟩
      obtain ⟨k,own⟩ := exists_globalIn (legal n asks)
      have valid : (ArbitrationTree.selection (s.arbiters (bankSelect i n))
          (arbiterInput i (bankSelect i n))).valid = true := by
        refine (PriorityRoundRobinArbiter.valid_iff _ _).mpr ⟨k,?_⟩
        change (i.tcdmValid (globalIn param k _) && bankSelect i (globalIn param k _) == _) = true
        rw [own,asks]
        simp
      change (ArbitrationTree.memReq _ _).isSome = true
      rw [ArbitrationTree.memReq,if_pos valid]
      rfl

/-- A legal bank is connected to the responses of the input. -/
theorem mem_responders {n : Fin param.numInp} {bank : Fin param.numOut}
    (legal : bank.val % granularity param n = index param n % granularity param n) :
    bank ∈ responders n := by
  have positive := (granularity_divides n).1
  have inside : bank.val / granularity param n < param.numOut / granularity param n :=
    Nat.div_lt_div_of_lt_of_dvd (granularity_divides n).2 bank.isLt
  refine List.mem_map.mpr ⟨⟨_,inside⟩,List.mem_finRange _,Fin.ext ?_⟩
  have split := Nat.div_add_mod bank.val (granularity param n)
  rw [Nat.mul_comm,legal] at split
  exact split

theorem answered {s : State param} {i later : Input param} (legal : Legal i)
    (banks : BanksAnswer s i later) : Answered s i later := by
  intro n
  change (_ → (tcdmRsp (next s i) later n).isSome = true ∧ tcdmRsp (next s i) later n = _) ∧
    (_ → tcdmRsp (next s i) later n = none)
  unfold tcdmRsp
  rcases lastConnect_cases none (fun out => (next s i).prevBankRequest n == out &&
    (next s i).prevReqFire n) later.memRsps (responders n) with ⟨same,none⟩ | ⟨bank,_,holds,same⟩
  · refine ⟨fun fire => ?_,fun _ => same⟩
    have asks := ((Bool.and_eq_true _ _).mp fire).1
    have here : reqFire s i n = false := by
      simpa [next] using none _ (mem_responders (legal n asks))
    rw [fire] at here
    contradiction
  · rw [Bool.and_eq_true,beq_iff_eq] at holds
    obtain ⟨own,fired⟩ := holds
    have own : bankSelect i n = bank := own
    have fired : reqFire s i n = true := fired
    rw [same,← own]
    refine ⟨fun fire => ⟨?_,rfl⟩,fun idle => absurd (idle.symm.trans fired) Bool.false_ne_true⟩
    have routed := forwards legal s
    obtain ⟨req,presented,_⟩ := routed.presents n fire
    obtain ⟨_,_,_,_,ready⟩ := (ready_iff s i n).mp ((Bool.and_eq_true _ _).mp fire).2
    exact (banks _).mpr ⟨by rw [presented]; rfl,ready⟩

theorem getGlobalIdxList_listed (param : SparseInterconnectParam) (bank g : Nat) :
    g ∈ param.config.getGlobalIdxList bank ↔ ∃ port p idx,
      param.config.getPortAndIndex g = some (port,idx) ∧ param.config.ports[port]? = some p ∧
      idx % p.accessGranularity = bank % p.accessGranularity := by
  rw [SparseConfig.mem_getGlobalIdxList param.divides,SparseConfig.located]
  constructor
  · rintro ⟨p,idx,found,congruent⟩
    obtain ⟨⟨port,place⟩,first,found⟩ := Option.bind_eq_some_iff.mp found
    obtain ⟨q,second,found⟩ := Option.bind_eq_some_iff.mp found
    obtain ⟨rfl,rfl⟩ := Prod.mk.inj (Option.some.inj found)
    exact ⟨port,q,place,first,second,congruent⟩
  · rintro ⟨port,p,idx,first,second,congruent⟩
    refine ⟨p,idx,?_,congruent⟩
    simp [first,second]

/-- Under legal addresses and banks that answer one cycle later, every run is routed. -/
theorem routing (param : SparseInterconnectParam) (s : State param) (inputs : List (Input param))
    (legal : ∀ i ∈ inputs, Legal i)
    (banks : ∀ before i later after, inputs = before ++ i :: later :: after →
      BanksAnswer ((sparseInterconnect param).exec s before) i later) : Routes param s inputs := by
  refine ⟨fun bank => ⟨SparseConfig.nodup_globalIdxList param.divides bank 0,
    getGlobalIdxList_listed param bank⟩,?_,?_⟩
  · rintro before i after rfl
    exact forwards (legal i (by simp)) _
  · rintro before i later after split
    exact answered (legal i (by simp [split])) (banks before i later after split)

theorem mixedPorts_powerOfTwo : 2 ^ log2Ceil 2 = 2 := by decide +kernel

def mixedPorts : SparseConfig := ⟨[⟨2,2⟩,⟨1,1⟩]⟩

theorem mixedPorts_divides : mixedPorts.Divides := by
  simp [SparseConfig.Divides,mixedPorts]

theorem mixedPorts_banks : ∀ p ∈ mixedPorts.ports, p.accessGranularity ∣ 2 := by
  simp [mixedPorts]

theorem mixedPorts_width : 3 = Layout.sumOf SparsePortDefinition.width mixedPorts.ports := rfl

theorem mixedPorts_reached : 0 < mixedPorts.inputsPerBank := by decide +kernel

/-- Two banks behind a wide port of two inputs and a narrow one. -/
def mixedParam : SparseInterconnectParam where
  numInp := 3
  numOut := 2
  memAddrWidth := 3
  tcdmAddrWidth := 4
  dataWidth := 8
  strbWidth := 1
  priorityWidth := 1
  config := mixedPorts
  powerOfTwo := mixedPorts_powerOfTwo
  divides := mixedPorts_divides
  dividesBanks := mixedPorts_banks
  covered := mixedPorts_width
  reached := mixedPorts_reached

def mixedCycle (valid : Bool) (addr : Nat → BitVec 4) (rsps : Nat → Option (BitVec 8)) :
    Input mixedParam where
  tcdmValid := fun _ => valid
  tcdmBits := fun n => ⟨addr n.val,false,.none,0,1,0⟩
  memReqReady := fun _ => true
  memRsps := fun out => rsps out.val

/-- All three inputs ask, two of them for bank 0, and both banks answer. -/
def mixedRun : List (Input mixedParam) :=
  [mixedCycle true (fun n => BitVec.ofNat 4 (2 * n + n % 2)) (fun _ => none),
    mixedCycle false (fun _ => 0) (fun out => some (BitVec.ofNat 8 (7 + out)))]

theorem routing_mixed :
    Routes mixedParam (initial (fun _ => ⟨0,Nat.two_pos⟩) fun _ => false) mixedRun := by
  apply routing
  · unfold Legal
    decide +kernel
  · intro before i later after split
    match before, split with
    | [], split =>
      obtain ⟨rfl,rest⟩ := List.cons.inj split
      obtain ⟨rfl,_⟩ := List.cons.inj rest
      unfold BanksAnswer
      decide +kernel
    | [x], split => simp [mixedRun] at split
    | x :: y :: before, split => simp [mixedRun] at split

end Snax.SparseInterconnect
