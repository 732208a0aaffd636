import Snax.Sync.Bytes
import Mathlib.Algebra.Order.Ring.Int
import Mathlib.Data.Int.DivMod

/-! The base integer instructions of RV32 without environment calls, the multiplications and
divisions of M and the word operations of A without reservations: their encodings and what they do to
the program counter, the integer registers and memory. -/
namespace Rv32

open Bytes (Memory load store split combine)

abbrev Word := BitVec 32
abbrev Reg := BitVec 5

/-! ### Instructions -/

inductive Condition where
  | eq | ne | lt | ge | ltu | geu
  deriving DecidableEq, Repr

/-- Loads of a signed byte, a signed half, a word, a byte and a half. -/
inductive Load where
  | b | h | w | bu | hu
  deriving DecidableEq, Repr

inductive Store where
  | b | h | w
  deriving DecidableEq, Repr

inductive Imm where
  | add | slt | sltu | xor | or | and
  deriving DecidableEq, Repr

inductive Shift where
  | sll | srl | sra
  deriving DecidableEq, Repr

inductive Op where
  | add | sub | sll | slt | sltu | xor | srl | sra | or | and
  deriving DecidableEq, Repr

inductive MulDiv where
  | mul | mulh | mulhsu | mulhu | div | divu | rem | remu
  deriving DecidableEq, Repr

inductive Amo where
  | swap | add | xor | and | or | min | max | minu | maxu
  deriving DecidableEq, Repr

/-- The offsets of `jal` and `branch` count halfwords. -/
inductive Instr where
  | lui (rd : Reg) (imm : BitVec 20)
  | auipc (rd : Reg) (imm : BitVec 20)
  | jal (rd : Reg) (offset : BitVec 20)
  | jalr (rd rs1 : Reg) (imm : BitVec 12)
  | branch (c : Condition) (rs1 rs2 : Reg) (offset : BitVec 12)
  | load (k : Load) (rd rs1 : Reg) (imm : BitVec 12)
  | store (k : Store) (rs1 rs2 : Reg) (imm : BitVec 12)
  | opImm (o : Imm) (rd rs1 : Reg) (imm : BitVec 12)
  | shift (o : Shift) (rd rs1 shamt : Reg)
  | op (o : Op) (rd rs1 rs2 : Reg)
  | mulDiv (o : MulDiv) (rd rs1 rs2 : Reg)
  | fence (rd rs1 : Reg) (ordering : BitVec 12)
  | amo (o : Amo) (rd rs1 rs2 : Reg) (aq rl : Bool)
  deriving DecidableEq, Repr

/-! ### Encodings -/

def Condition.funct3 : Condition → BitVec 3
  | .eq => 0 | .ne => 1 | .lt => 4 | .ge => 5 | .ltu => 6 | .geu => 7

def Load.funct3 : Load → BitVec 3
  | .b => 0 | .h => 1 | .w => 2 | .bu => 4 | .hu => 5

def Store.funct3 : Store → BitVec 3
  | .b => 0 | .h => 1 | .w => 2

def Imm.funct3 : Imm → BitVec 3
  | .add => 0 | .slt => 2 | .sltu => 3 | .xor => 4 | .or => 6 | .and => 7

def Shift.funct3 : Shift → BitVec 3
  | .sll => 1 | .srl => 5 | .sra => 5

def Shift.funct7 : Shift → BitVec 7
  | .sll => 0 | .srl => 0 | .sra => 0x20

def Op.funct3 : Op → BitVec 3
  | .add => 0 | .sub => 0 | .sll => 1 | .slt => 2 | .sltu => 3 | .xor => 4 | .srl => 5 | .sra => 5
  | .or => 6 | .and => 7

def Op.funct7 : Op → BitVec 7
  | .sub => 0x20 | .sra => 0x20 | _ => 0

def MulDiv.funct3 : MulDiv → BitVec 3
  | .mul => 0 | .mulh => 1 | .mulhsu => 2 | .mulhu => 3 | .div => 4 | .divu => 5 | .rem => 6 | .remu => 7

def Amo.funct5 : Amo → BitVec 5
  | .swap => 0x01 | .add => 0x00 | .xor => 0x04 | .and => 0x0c | .or => 0x08
  | .min => 0x10 | .max => 0x14 | .minu => 0x18 | .maxu => 0x1c

/-- The six formats: five fields above the opcode, or those that merge some of them. -/
def formatR (funct7 : BitVec 7) (rs2 rs1 : Reg) (funct3 : BitVec 3) (rd : Reg) (opcode : BitVec 7) : Word :=
  funct7 ++ rs2 ++ rs1 ++ funct3 ++ rd ++ opcode

def formatI (imm : BitVec 12) (rs1 : Reg) (funct3 : BitVec 3) (rd : Reg) (opcode : BitVec 7) : Word :=
  imm ++ rs1 ++ funct3 ++ rd ++ opcode

def formatS (imm : BitVec 12) (rs2 rs1 : Reg) (funct3 : BitVec 3) (opcode : BitVec 7) : Word :=
  formatR (imm.extractLsb' 5 7) rs2 rs1 funct3 (imm.extractLsb' 0 5) opcode

/-- `offset` holds bits 12 to 1 of the distance. -/
def formatB (offset : BitVec 12) (rs2 rs1 : Reg) (funct3 : BitVec 3) (opcode : BitVec 7) : Word :=
  formatR (offset.extractLsb' 11 1 ++ offset.extractLsb' 4 6) rs2 rs1 funct3
    (offset.extractLsb' 0 4 ++ offset.extractLsb' 10 1) opcode

def formatU (imm : BitVec 20) (rd : Reg) (opcode : BitVec 7) : Word := imm ++ rd ++ opcode

/-- `offset` holds bits 20 to 1 of the distance. -/
def formatJ (offset : BitVec 20) (rd : Reg) (opcode : BitVec 7) : Word :=
  formatU (offset.extractLsb' 19 1 ++ offset.extractLsb' 0 10 ++ offset.extractLsb' 10 1 ++
    offset.extractLsb' 11 8) rd opcode

def encode : Instr → Word
  | .lui rd imm => formatU imm rd 0x37
  | .auipc rd imm => formatU imm rd 0x17
  | .jal rd offset => formatJ offset rd 0x6f
  | .jalr rd rs1 imm => formatI imm rs1 0 rd 0x67
  | .branch c rs1 rs2 offset => formatB offset rs2 rs1 c.funct3 0x63
  | .load k rd rs1 imm => formatI imm rs1 k.funct3 rd 0x03
  | .store k rs1 rs2 imm => formatS imm rs2 rs1 k.funct3 0x23
  | .opImm o rd rs1 imm => formatI imm rs1 o.funct3 rd 0x13
  | .shift o rd rs1 shamt => formatR o.funct7 shamt rs1 o.funct3 rd 0x13
  | .op o rd rs1 rs2 => formatR o.funct7 rs2 rs1 o.funct3 rd 0x33
  | .mulDiv o rd rs1 rs2 => formatR 1 rs2 rs1 o.funct3 rd 0x33
  | .fence rd rs1 ordering => formatI ordering rs1 0 rd 0x0f
  | .amo o rd rs1 rs2 aq rl =>
    formatR (o.funct5 ++ BitVec.ofBool aq ++ BitVec.ofBool rl) rs2 rs1 2 rd 0x2f

/-! ### Meaning -/

structure State where
  pc : Word
  x : Reg → Word
  mem : Memory 32

/-- The register `x0` reads as zero, whatever is written to it. -/
def State.read (s : State) (r : Reg) : Word := if r = 0 then 0 else s.x r

def State.write (s : State) (r : Reg) (v : Word) : State :=
  if r = 0 then s else { s with x := Function.update s.x r v }

def State.step (s : State) : State := { s with pc := s.pc + 4 }

def Condition.holds : Condition → Word → Word → Bool
  | .eq, a, b => a == b
  | .ne, a, b => a != b
  | .lt, a, b => a.toInt < b.toInt
  | .ge, a, b => b.toInt ≤ a.toInt
  | .ltu, a, b => a.toNat < b.toNat
  | .geu, a, b => b.toNat ≤ a.toNat

def Load.bytes : Load → Nat
  | .b => 1 | .h => 2 | .w => 4 | .bu => 1 | .hu => 2

def Store.bytes : Store → Nat
  | .b => 1 | .h => 2 | .w => 4

/-- The number of bytes is extended to a word, for two loads by its sign. -/
def Load.extend (k : Load) (v : Nat) : Word :=
  match k with
  | .b => (BitVec.ofNat 8 v).signExtend 32
  | .h => (BitVec.ofNat 16 v).signExtend 32
  | _ => BitVec.ofNat 32 v

def Imm.eval : Imm → Word → Word → Word
  | .add, a, b => a + b
  | .slt, a, b => if a.toInt < b.toInt then 1 else 0
  | .sltu, a, b => if a.toNat < b.toNat then 1 else 0
  | .xor, a, b => a ^^^ b
  | .or, a, b => a ||| b
  | .and, a, b => a &&& b

def Shift.eval : Shift → Word → Nat → Word
  | .sll, a, n => a <<< n
  | .srl, a, n => a >>> n
  | .sra, a, n => a.sshiftRight n

/-- The shifts use the five low bits of the second operand. -/
def Op.eval : Op → Word → Word → Word
  | .add, a, b => Imm.eval .add a b
  | .sub, a, b => a - b
  | .sll, a, b => Shift.eval .sll a (b.toNat % 32)
  | .slt, a, b => Imm.eval .slt a b
  | .sltu, a, b => Imm.eval .sltu a b
  | .xor, a, b => Imm.eval .xor a b
  | .srl, a, b => Shift.eval .srl a (b.toNat % 32)
  | .sra, a, b => Shift.eval .sra a (b.toNat % 32)
  | .or, a, b => Imm.eval .or a b
  | .and, a, b => Imm.eval .and a b

/-- A quotient by zero has all bits set and a remainder by zero is the dividend. The quotient of the
least number by -1 wraps to itself, and its remainder is zero. -/
def MulDiv.eval : MulDiv → Word → Word → Word
  | .mul, a, b => BitVec.ofInt 32 (a.toInt * b.toInt)
  | .mulh, a, b => BitVec.ofInt 32 (a.toInt * b.toInt / 2 ^ 32)
  | .mulhsu, a, b => BitVec.ofInt 32 (a.toInt * b.toNat / 2 ^ 32)
  | .mulhu, a, b => BitVec.ofNat 32 (a.toNat * b.toNat / 2 ^ 32)
  | .div, a, b => if b = 0 then -1 else BitVec.ofInt 32 (a.toInt.tdiv b.toInt)
  | .divu, a, b => if b = 0 then -1 else BitVec.ofNat 32 (a.toNat / b.toNat)
  | .rem, a, b => if b = 0 then a else BitVec.ofInt 32 (a.toInt.tmod b.toInt)
  | .remu, a, b => if b = 0 then a else BitVec.ofNat 32 (a.toNat % b.toNat)

/-- What goes back to memory. -/
def Amo.eval : Amo → Word → Word → Word
  | .swap, _, b => b
  | .add, old, b => old + b
  | .xor, old, b => old ^^^ b
  | .and, old, b => old &&& b
  | .or, old, b => old ||| b
  | .min, old, b => if old.toInt ≤ b.toInt then old else b
  | .max, old, b => if b.toInt ≤ old.toInt then old else b
  | .minu, old, b => if old.toNat ≤ b.toNat then old else b
  | .maxu, old, b => if b.toNat ≤ old.toNat then old else b

/-- A transfer of control. Without compressed instructions a target that is no multiple of four
raises an exception, and what follows is the environment's. -/
def State.jump (s : State) (rd : Reg) (target : Word) : Option State :=
  if target.toNat % 4 = 0 then some { s.write rd (s.pc + 4) with pc := target } else none

/-- The distance of an offset in halfwords. -/
def distance {n : Nat} (offset : BitVec n) : Word := offset.signExtend 32 <<< 1

/-- The target of a jump or of a branch that is taken. -/
def target (s : State) : Instr → Option Word
  | .jal _ offset => some (s.pc + distance offset)
  | .jalr _ rs1 imm => some ((s.read rs1 + imm.signExtend 32) &&& ~~~1)
  | .branch c rs1 rs2 offset =>
    if c.holds (s.read rs1) (s.read rs2) then some (s.pc + distance offset) else none
  | _ => none

/-- The memory operand is naturally aligned. -/
def aligned (s : State) : Instr → Bool
  | .load k _ rs1 imm => (s.read rs1 + imm.signExtend 32).toNat % k.bytes == 0
  | .store k rs1 _ imm => (s.read rs1 + imm.signExtend 32).toNat % k.bytes == 0
  | .amo _ _ rs1 _ _ _ => (s.read rs1).toNat % 4 == 0
  | _ => true

def run (s : State) : Instr → Option State
  | .lui rd imm => some (s.step.write rd (imm ++ (0 : BitVec 12)))
  | .auipc rd imm => some (s.step.write rd (s.pc + (imm ++ (0 : BitVec 12))))
  | .jal rd offset => s.jump rd (s.pc + distance offset)
  | .jalr rd rs1 imm => s.jump rd ((s.read rs1 + imm.signExtend 32) &&& ~~~1)
  | .branch c rs1 rs2 offset =>
    if c.holds (s.read rs1) (s.read rs2) then s.jump 0 (s.pc + distance offset) else some s.step
  | .load k rd rs1 imm =>
    some (s.step.write rd (k.extend (combine (load s.mem (s.read rs1 + imm.signExtend 32) k.bytes))))
  | .store k rs1 rs2 imm =>
    some { s.step with
      mem := store s.mem (s.read rs1 + imm.signExtend 32) (split k.bytes (s.read rs2).toNat) }
  | .opImm o rd rs1 imm => some (s.step.write rd (o.eval (s.read rs1) (imm.signExtend 32)))
  | .shift o rd rs1 shamt => some (s.step.write rd (o.eval (s.read rs1) shamt.toNat))
  | .op o rd rs1 rs2 => some (s.step.write rd (o.eval (s.read rs1) (s.read rs2)))
  | .mulDiv o rd rs1 rs2 => some (s.step.write rd (o.eval (s.read rs1) (s.read rs2)))
  | .fence _ _ _ => some s.step
  | .amo o rd rs1 rs2 _ _ =>
    let old : Word := BitVec.ofNat 32 (combine (load s.mem (s.read rs1) 4))
    some ({ s.step with
      mem := store s.mem (s.read rs1) (split 4 (o.eval old (s.read rs2)).toNat) }.write rd old)

/-- The state after the instruction, or none where it raises an exception, which a misaligned memory
operand may do. -/
def exec (s : State) (i : Instr) : Option State := if aligned s i then run s i else none

end Rv32
