import Snax.SimWorld

/-! `sim/src/interp.cpp`, `hart.hpp`, `machine.hpp`: one instruction of a hart of the simulator. The
world behind the SNAX registers, the DMA and the clock is the abstract class of the source. -/
namespace Snax

namespace Interp

open Bytes (Memory load store split combine)

abbrev Word := BitVec 32

/-! ### Memory -/

def ld8 (m : Memory 32) (a : Word) : BitVec 8 := m a
def ld16 (m : Memory 32) (a : Word) : BitVec 16 := BitVec.ofNat 16 (combine (load m a 2))
def ld32 (m : Memory 32) (a : Word) : Word := BitVec.ofNat 32 (combine (load m a 4))
def ld64 (m : Memory 32) (a : Word) : BitVec 64 := BitVec.ofNat 64 (combine (load m a 8))
def st8 (m : Memory 32) (a : Word) (v : BitVec 8) : Memory 32 := store m a (split 1 v.toNat)
def st16 (m : Memory 32) (a : Word) (v : BitVec 16) : Memory 32 := store m a (split 2 v.toNat)
def st32 (m : Memory 32) (a v : Word) : Memory 32 := store m a (split 4 v.toNat)
def st64 (m : Memory 32) (a : Word) (v : BitVec 64) : Memory 32 := store m a (split 8 v.toNat)

/-! ### Harts -/

abbrev Reg := BitVec 5

/-- The integer registers; the first one is never written. -/
structure Regs where
  get : Reg → Word
  zero : get 0 = 0

def Regs.set (x : Regs) (r : Reg) (v : Word) : Regs where
  get := fun k => if r ≠ 0 ∧ k = r then v else x.get k
  zero := by
    split
    · rename_i written
      exact absurd written.2.symm written.1
    · exact x.zero

inductive HartState where
  | run
  | atBarrier
  | blockedPoll
  | halted
  | parked
  deriving DecidableEq, Repr

/-- The in-flight result that a later instruction may have to wait for is `pendReg`, 0 for none. -/
structure Hart where
  x : Regs
  f : Reg → BitVec 64
  pc : Word
  cycle : Nat
  state : HartState
  csr : Word → Word
  pollSpins : Word
  lastBackjumpPc : Word
  pendReg : Reg
  pendReady : Nat

/-- The staging registers of the DMA instructions. -/
structure DmaStage where
  src : BitVec 64
  dst : BitVec 64
  dstStride : Word
  srcStride : Word
  rows : Word

/-- `World`: its operations may change the world and, but for the queries, the memory. -/
structure World (σ : Type) where
  advanceTo : σ → Memory 32 → Nat → σ × Memory 32
  nextEventCycle : σ → Option Nat
  dmaSubmit : σ → Memory 32 → DmaDesc → Nat → σ × Memory 32 × Word
  dmaBusy : σ → Nat → σ × Word
  dmaCompletedId : σ → Nat → σ × Word
  snaxWrite : σ → Memory 32 → Word → Word → Nat → σ × Memory 32
  snaxWriteSerializes : σ → Word → Nat → Bool
  snaxRead : σ → Memory 32 → Word → Nat → σ × Memory 32 × Word × Bool
  fence : σ → Nat → Nat → σ

/-- The machine with the staging registers that the scheduler keeps for each hart. -/
structure Machine (σ : Type) where
  mem : Memory 32
  world : σ
  hart : Fin 2 → Hart
  dma : Fin 2 → DmaStage
  tohost : Word
  fromhost : Word
  exited : Bool
  exitCode : Word
  clusterBaseL : Word
  clusterBaseH : Word
  coreNum : Word

/-- The base class does nothing. -/
def World.null : World Unit where
  advanceTo := fun w m _ => (w,m)
  nextEventCycle := fun _ => none
  dmaSubmit := fun w m _ _ => (w,m,0)
  dmaBusy := fun w _ => (w,0)
  dmaCompletedId := fun w _ => (w,0)
  snaxWrite := fun w m _ _ _ => (w,m)
  snaxWriteSerializes := fun _ _ _ => true
  snaxRead := fun w m _ _ => (w,m,0,false)
  fence := fun w _ _ => w

/-- A hart that is about to start at `pc`. -/
def Hart.boot (pc : Word) : Hart where
  x := ⟨fun _ => 0,rfl⟩
  f := fun _ => 0
  pc := pc
  cycle := 0
  state := .run
  csr := fun _ => 0
  pollSpins := 0
  lastBackjumpPc := 0xffffffff
  pendReg := 0
  pendReady := 0

def Machine.boot {σ : Type} (world : σ) (mem : Memory 32) (pc : Word) : Machine σ where
  mem := mem
  world := world
  hart := fun _ => .boot pc
  dma := fun _ => ⟨0,0,0,0,1⟩
  tohost := 0
  fromhost := 0
  exited := false
  exitCode := 0
  clusterBaseL := 0x10000000
  clusterBaseH := 0
  coreNum := 2

inductive Step where
  | normal
  | barrier
  | halt
  | wfi
  | pollRead
  deriving DecidableEq, Repr

variable {σ : Type}

def Machine.setHart (m : Machine σ) (i : Fin 2) (h : Hart) : Machine σ :=
  { m with hart := Function.update m.hart i h }

@[simp] theorem hart_setHart (m : Machine σ) (i : Fin 2) (h : Hart) : (m.setHart i h).hart i = h := by
  simp [Machine.setHart]

theorem hart_setHart_ne (m : Machine σ) {i j : Fin 2} (other : j ≠ i) (h : Hart) :
    (m.setHart i h).hart j = m.hart j := by
  simp [Machine.setHart,other]

theorem setHart_self (m : Machine σ) (i : Fin 2) : m.setHart i (m.hart i) = m := by
  simp [Machine.setHart]

theorem setHart_setHart (m : Machine σ) (i : Fin 2) (h h' : Hart) :
    (m.setHart i h).setHart i h' = m.setHart i h' := by
  simp [Machine.setHart]

/-- `h.set(rd, v)` for the hart `i`. -/
def Machine.setReg (m : Machine σ) (i : Fin 2) (rd : Reg) (v : Word) : Machine σ :=
  m.setHart i { m.hart i with x := (m.hart i).x.set rd v }

/-- The acknowledgment of a request of the host protocol. -/
def acknowledge (tohost fromhost : Word) (m : Memory 32) : Memory 32 := st32 (st32 m fromhost 1) tohost 0

/-- `htif_tohost`, but for what it prints. -/
def Machine.htifTohost (m : Machine σ) (value : Word) : Machine σ :=
  if value.getLsbD 0 then
    { m with
      exitCode := value >>> 1
      exited := true
      hart := fun i => { m.hart i with state := .halted } }
  else { m with mem := acknowledge m.tohost m.fromhost m.mem }

/-! ### Fields and operands -/

/-- The fields of an instruction word. -/
def opcode (insn : Word) : BitVec 7 := insn.extractLsb' 0 7
def rd (insn : Word) : Reg := insn.extractLsb' 7 5
def f3 (insn : Word) : BitVec 3 := insn.extractLsb' 12 3
def rs1 (insn : Word) : Reg := insn.extractLsb' 15 5
def rs2 (insn : Word) : Reg := insn.extractLsb' 20 5
def f7 (insn : Word) : BitVec 7 := insn.extractLsb' 25 7

def sext (v : Word) (bits : Nat) : Word :=
  let m := (1 : Word) <<< (bits - 1)
  (v ^^^ m) - m

def immI (insn : Word) : Word := sext (insn >>> 20) 12
def immS (insn : Word) : Word := sext (((insn >>> 25) <<< 5) ||| ((insn >>> 7) &&& 0x1f)) 12

def immB (insn : Word) : Word :=
  sext (((insn >>> 31) &&& 1) <<< 12 ||| ((insn >>> 7) &&& 1) <<< 11 |||
    ((insn >>> 25) &&& 0x3f) <<< 5 ||| ((insn >>> 8) &&& 0xf) <<< 1) 13

def immJ (insn : Word) : Word :=
  sext (((insn >>> 31) &&& 1) <<< 20 ||| ((insn >>> 12) &&& 0xff) <<< 12 |||
    ((insn >>> 20) &&& 1) <<< 11 ||| ((insn >>> 21) &&& 0x3ff) <<< 1) 21

/-- `reads_reg`: the instruction waits for the register. -/
def readsReg (insn : Word) (reg : Reg) : Bool :=
  let (r1,r2) := match (opcode insn).toNat with
    | 0x37 | 0x17 | 0x6f | 0x0f => (false,false)
    | 0x67 | 0x03 | 0x07 | 0x13 => (true,false)
    | 0x63 | 0x23 | 0x27 | 0x33 | 0x2f => (true,true)
    | 0x73 => ((f3 insn).toNat == 1 || (f3 insn).toNat == 2 || (f3 insn).toNat == 3,false)
    | _ => (true,true)
  reg != 0 && (r1 && rs1 insn == reg || r2 && rs2 insn == reg)

/-! ### Timing -/

def snaxStreamerCfgLo : Nat := 960
def snaxIscoreTileCnt : Nat := 1194
def snaxCsrWriteCost : Nat := 1
def loadUseStall : Nat := 3
def mulStall : Nat := 3
def divStall : Nat := 32

/-- The cycle of the instruction itself and the wait for an in-flight operand. -/
def Hart.issue (h : Hart) (insn : Word) : Hart :=
  let h := { h with cycle := h.cycle + 1 }
  if readsReg insn h.pendReg then
    { h with cycle := max h.cycle h.pendReady, pendReg := 0 }
  else h

/-- The register holds a result only after `stall` more cycles. -/
def Hart.pend (h : Hart) (r : Reg) (stall : Nat) : Hart :=
  if r ≠ 0 then { h with pendReg := r, pendReady := h.cycle + stall } else h

/-! ### Results -/

def branchTaken (f3 : BitVec 3) (a b : Word) : Bool :=
  match f3.toNat with
  | 0 => a == b
  | 1 => a != b
  | 4 => a.slt b
  | 5 => !a.slt b
  | 6 => a.ult b
  | 7 => !a.ult b
  | _ => false

def loaded (m : Memory 32) (f3 : BitVec 3) (addr : Word) : Word :=
  match f3.toNat with
  | 0 => (ld8 m addr).signExtend 32
  | 1 => (ld16 m addr).signExtend 32
  | 2 => ld32 m addr
  | 4 => (ld8 m addr).setWidth 32
  | 5 => (ld16 m addr).setWidth 32
  | _ => 0

def stored (m : Memory 32) (f3 : BitVec 3) (addr b : Word) : Memory 32 :=
  match f3.toNat with
  | 0 => st8 m addr (b.setWidth 8)
  | 1 => st16 m addr (b.setWidth 16)
  | 2 => st32 m addr b
  | _ => m

/-- `(f7 & 0x20) ? (int32_t)a >> sh : a >> sh`. -/
def shiftRight (f7 : BitVec 7) (a : Word) (sh : Reg) : Word :=
  if f7.getLsbD 5 then a.sshiftRight sh.toNat else a >>> sh.toNat

def opImm (f3 : BitVec 3) (f7 : BitVec 7) (sh : Reg) (a imm : Word) : Word :=
  match f3.toNat with
  | 0 => a + imm
  | 2 => if a.slt imm then 1 else 0
  | 3 => if a.ult imm then 1 else 0
  | 4 => a ^^^ imm
  | 6 => a ||| imm
  | 7 => a &&& imm
  | 1 => a <<< sh.toNat
  | _ => shiftRight f7 a sh

/-- The upper half of a 64-bit product. -/
def high (p : BitVec 64) : Word := (p.sshiftRight 32).setWidth 32

def mulDiv (f3 : BitVec 3) (a b : Word) : Word :=
  let sa := a.toInt
  let sb := b.toInt
  match f3.toNat with
  | 0 => a * b
  | 1 => high (a.signExtend 64 * b.signExtend 64)
  | 2 => high (a.signExtend 64 * b.setWidth 64)
  | 3 => ((a.setWidth 64 * b.setWidth 64) >>> 32).setWidth 32
  | 4 => if sb = 0 then 0xffffffff else if sa = -2147483648 ∧ sb = -1 then a else BitVec.ofInt 32 (sa.tdiv sb)
  | 5 => if b = 0 then 0xffffffff else a / b
  | 6 => if sb = 0 then a else if sa = -2147483648 ∧ sb = -1 then 0 else BitVec.ofInt 32 (sa.tmod sb)
  | _ => if b = 0 then a else a % b

def opReg (f3 : BitVec 3) (f7 : BitVec 7) (a b : Word) : Word :=
  let sh : Reg := b.setWidth 5
  match f3.toNat with
  | 0 => if f7.getLsbD 5 then a - b else a + b
  | 1 => a <<< sh.toNat
  | 2 => if a.slt b then 1 else 0
  | 3 => if a.ult b then 1 else 0
  | 4 => a ^^^ b
  | 5 => shiftRight f7 a sh
  | 6 => a ||| b
  | _ => a &&& b

/-- The word that an AMO writes; the last four are commented `amomin.w (note: min)`, `amomax.w`,
`amominu.w` and `amomaxu.w`. -/
def amo (f5 : BitVec 5) (old b : Word) : Word :=
  match f5.toNat with
  | 0x00 => old + b
  | 0x01 => b
  | 0x04 => old ^^^ b
  | 0x08 => old ||| b
  | 0x0c => old &&& b
  | 0x10 => if old.slt b then b else old
  | 0x14 => if b.slt old then b else old
  | 0x18 => if old.ult b then b else old
  | 0x1c => if b.ult old then b else old
  | _ => old

/-! ### Registers of the machine -/

def inSnaxWindow (csr : Word) : Bool := snaxStreamerCfgLo ≤ csr.toNat && csr.toNat ≤ snaxIscoreTileCnt

variable (W : World σ)

/-- `csr_read`, with the flag of a poll. -/
def csrRead (m : Machine σ) (i : Fin 2) (csr : Word) : Machine σ × Word × Bool :=
  let cycle := (m.hart i).cycle
  match csr.toNat with
  | 0xF14 => (m,BitVec.ofNat 32 i.val,false)
  | 0x301 => (m,0x40001129,false)
  | 0xB00 | 0xC00 => (m,BitVec.ofNat 32 cycle,false)
  | 0xB80 => (m,BitVec.ofNat 32 (cycle >>> 32),false)
  | 0xC01 => (m,BitVec.ofNat 32 cycle,false)
  | 0xBC1 => (m,m.clusterBaseL,false)
  | 0xBC2 => (m,m.clusterBaseH,false)
  | 0xBC3 => (m,m.coreNum <<< 16 ||| BitVec.ofNat 32 i.val,false)
  | _ =>
    if inSnaxWindow csr then
      let (world,mem) := W.advanceTo m.world m.mem cycle
      let (world,mem,out,isPoll) := W.snaxRead world mem csr cycle
      ({ m with world := world, mem := mem },out,isPoll)
    else (m,(m.hart i).csr csr,false)

def csrWrite (m : Machine σ) (i : Fin 2) (csr val : Word) : Machine σ :=
  if inSnaxWindow csr then
    let (world,mem) := W.snaxWrite m.world m.mem csr val (m.hart i).cycle
    { m with world := world, mem := mem }
  else m.setHart i { m.hart i with csr := Function.update (m.hart i).csr csr val }

/-- The offload latency of a write that the accelerator does not hide. -/
def csrCharge (m : Machine σ) (i : Fin 2) (csr : Word) : Machine σ :=
  if inSnaxWindow csr && W.snaxWriteSerializes m.world csr (m.hart i).cycle then
    m.setHart i { m.hart i with cycle := (m.hart i).cycle + snaxCsrWriteCost }
  else m

/-- `CSRRW`, `CSRRS` and `CSRRC` with their immediate forms. -/
def csrOp (m : Machine σ) (i : Fin 2) (insn : Word) : Machine σ × Step :=
  let csr := insn >>> 20
  let a := (m.hart i).x.get (rs1 insn)
  let (m,old,isPoll) := csrRead W m i csr
  let src := if (f3 insn).getLsbD 2 then (rs1 insn).setWidth 32 else a
  let kind := (f3 insn).toNat % 4
  let neu := match kind with
    | 1 => src
    | 2 => old ||| src
    | 3 => old &&& ~~~src
    | _ => old
  let m := if kind ≠ 1 ∧ rs1 insn = 0 then m else csrCharge W (csrWrite W m i csr neu) i csr
  (m.setReg i (rd insn) old,if isPoll then .pollRead else .normal)

/-! ### DMA instructions -/

/-- The transfer that the staging registers describe. -/
def DmaStage.desc (s : DmaStage) (size : Word) (cfg : Reg) : DmaDesc where
  src := s.src
  dst := s.dst
  size := size
  dstStride := s.dstStride
  srcStride := s.srcStride
  rows := s.rows
  is2d := cfg.getLsbD 1
  srcIsL3 := s.src.getLsbD 31
  dstIsL3 := s.dst.getLsbD 31

def Machine.setDma (m : Machine σ) (i : Fin 2) (s : DmaStage) : Machine σ :=
  { m with dma := Function.update m.dma i s }

/-- `dmcpyi`. -/
def dmcpyi (m : Machine σ) (i : Fin 2) (insn size : Word) : Machine σ :=
  let (world,mem,txid) :=
    W.dmaSubmit m.world m.mem ((m.dma i).desc size (rs2 insn)) (m.hart i).cycle
  let m := { m with world := world, mem := mem }
  (m.setReg i (rd insn) txid).setDma i { m.dma i with rows := 1 }

/-- `dmstati`. -/
def dmstati (m : Machine σ) (i : Fin 2) (insn : Word) : Machine σ × Step :=
  let (world,v) := match (rs2 insn).toNat with
    | 0 => W.dmaCompletedId m.world (m.hart i).cycle
    | 2 => W.dmaBusy m.world (m.hart i).cycle
    | _ => (m.world,0)
  ({ m with world := world }.setReg i (rd insn) v,if rd insn ≠ 0 then .pollRead else .normal)

def xdma (m : Machine σ) (i : Fin 2) (insn : Word) : Machine σ × Step :=
  let a := (m.hart i).x.get (rs1 insn)
  let b := (m.hart i).x.get (rs2 insn)
  match (f7 insn).toNat with
  | 0x00 => (m.setDma i { m.dma i with src := b ++ a },.normal)
  | 0x01 => (m.setDma i { m.dma i with dst := b ++ a },.normal)
  | 0x06 => (m.setDma i { m.dma i with dstStride := b, srcStride := a },.normal)
  | 0x07 => (m.setDma i { m.dma i with rows := a },.normal)
  | 0x02 => (dmcpyi W m i insn a,.normal)
  | 0x04 => dmstati W m i insn
  | _ => (m,.normal)

/-! ### One instruction -/

/-- A store; one to `tohost` is a request to the host. -/
def storeOp (m : Machine σ) (f3 : BitVec 3) (addr b : Word) : Machine σ × Step :=
  let m := { m with mem := stored m.mem f3 addr b }
  if addr = m.tohost then
    let m := m.htifTohost b
    (m,if m.exited then .halt else .normal)
  else (m,.normal)

/-- `LR.W` only reads, `SC.W` always succeeds. -/
def amoOp (m : Machine σ) (i : Fin 2) (insn : Word) : Machine σ :=
  let addr := (m.hart i).x.get (rs1 insn)
  let b := (m.hart i).x.get (rs2 insn)
  let f5 : BitVec 5 := (f7 insn).extractLsb' 2 5
  let old := ld32 m.mem addr
  match f5.toNat with
  | 0x02 => m.setReg i (rd insn) old
  | 0x03 => { m with mem := st32 m.mem addr b }.setReg i (rd insn) 0
  | _ => { m with mem := st32 m.mem addr (amo f5 old b) }.setReg i (rd insn) old

def system (m : Machine σ) (i : Fin 2) (insn : Word) : Machine σ × Step :=
  if f3 insn = 0 then (m,if insn >>> 20 = 0x105 then .wfi else .normal)
  else if insn >>> 20 = 0x7C2 then
    (m.setHart i { m.hart i with state := .atBarrier },.barrier)
  else csrOp W m i insn

def loadFp (m : Machine σ) (i : Fin 2) (insn addr : Word) : Machine σ :=
  let h := m.hart i
  match (f3 insn).toNat with
  | 2 => m.setHart i { h with f := Function.update h.f (rd insn) ((ld32 m.mem addr).setWidth 64) }
  | 3 => m.setHart i { h with f := Function.update h.f (rd insn) (ld64 m.mem addr) }
  | _ => m

def storeFp (m : Machine σ) (i : Fin 2) (insn addr : Word) : Machine σ :=
  let v := (m.hart i).f (rs2 insn)
  match (f3 insn).toNat with
  | 2 => { m with mem := st32 m.mem addr (v.setWidth 32) }
  | 3 => { m with mem := st64 m.mem addr v }
  | _ => m

/-- Only `fcvt.d.w` and `fcvt.s.w` have a meaning. -/
def opFp (m : Machine σ) (i : Fin 2) (insn a : Word) : Machine σ :=
  let h := m.hart i
  let v : BitVec 64 := if f7 insn = 0x69 ∨ f7 insn = 0x68 then a.signExtend 64 else 0
  m.setHart i { h with f := Function.update h.f (rd insn) v }

/-- The register gets a result that is in flight for `stall` cycles. -/
def Machine.setPending (m : Machine σ) (i : Fin 2) (r : Reg) (v : Word) (stall : Nat) : Machine σ :=
  let m := m.setReg i r v
  m.setHart i ((m.hart i).pend r stall)

/-- The instruction without its issue and its end, with the next `pc`. An unknown one ends the
simulator. -/
def execute (m : Machine σ) (i : Fin 2) (pc insn : Word) : Option (Machine σ × Word × Step) :=
  let a := (m.hart i).x.get (rs1 insn)
  let b := (m.hart i).x.get (rs2 insn)
  let next := pc + 4
  match (opcode insn).toNat with
  | 0x37 => some (m.setReg i (rd insn) (insn &&& 0xfffff000),next,.normal)
  | 0x17 => some (m.setReg i (rd insn) (pc + (insn &&& 0xfffff000)),next,.normal)
  | 0x6f => some (m.setReg i (rd insn) next,pc + immJ insn,.normal)
  | 0x67 => some (m.setReg i (rd insn) next,(a + immI insn) &&& ~~~1,.normal)
  | 0x63 => some (m,if branchTaken (f3 insn) a b then pc + immB insn else next,.normal)
  | 0x03 => some (m.setPending i (rd insn) (loaded m.mem (f3 insn) (a + immI insn)) loadUseStall,next,.normal)
  | 0x23 =>
    let (m,step) := storeOp m (f3 insn) (a + immS insn) b
    some (m,next,step)
  | 0x13 => some (m.setReg i (rd insn) (opImm (f3 insn) (f7 insn) (rs2 insn) a (immI insn)),next,.normal)
  | 0x33 =>
    if f7 insn = 1 then
      some (m.setPending i (rd insn) (mulDiv (f3 insn) a b)
        (if (f3 insn).toNat < 4 then mulStall else divStall),next,.normal)
    else some (m.setReg i (rd insn) (opReg (f3 insn) (f7 insn) a b),next,.normal)
  | 0x0f => some ({ m with world := W.fence m.world i.val (m.hart i).cycle },next,.normal)
  | 0x2f => some (amoOp m i insn,next,.normal)
  | 0x73 =>
    let (m,step) := system W m i insn
    some (m,next,step)
  | 0x07 => some (loadFp m i insn (a + immI insn),next,.normal)
  | 0x27 => some (storeFp m i insn (a + immS insn),next,.normal)
  | 0x53 => some (opFp m i insn a,next,.normal)
  | 0x2b =>
    let (m,step) := xdma W m i insn
    some (m,next,step)
  | _ => none

/-- The new `pc`, and the count of polls that jump backwards. -/
def Hart.retire (h : Hart) (pc next : Word) (step : Step) : Hart :=
  let h := { h with pc := next }
  if step = .pollRead ∧ next ≤ pc then
    if h.lastBackjumpPc = next then { h with pollSpins := h.pollSpins + 1 }
    else { h with lastBackjumpPc := next, pollSpins := 1 }
  else h

/-- `interp_step`. -/
def interpStep (m : Machine σ) (i : Fin 2) : Option (Machine σ × Step) :=
  let pc := (m.hart i).pc
  let insn := ld32 m.mem pc
  match execute W (m.setHart i ((m.hart i).issue insn)) i pc insn with
  | none => none
  | some (m,next,step) => some (m.setHart i ((m.hart i).retire pc next step),step)

end Interp

end Snax
