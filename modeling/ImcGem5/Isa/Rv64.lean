import ImcGem5.Isa.Instruction

/-! Execution of the instructions of decoder.isa on a hart in 64-bit mode: the templates
and formats of the instructions, and those of 32 bits that compressed ones stand for.
Memory and the translation of addresses are behind a port. The word that an illegal
instruction leaves in mtval, timing and flags are left out. -/

namespace ImcGem5.Isa.Rv64
open Lib Mem

abbrev ExtMachInst := BitVec 32

inductive ExceptionCode where
  | loadAddrMisaligned | storeAddrMisaligned
  deriving DecidableEq, Repr

inductive Fault (φ : Type) where
  | unknownInst
  | illegalInst (reason : String)
  | breakpoint (pc : Addr)
  | address (addr : Addr) (code : ExceptionCode)
  | memory (fault : φ)
  deriving DecidableEq, Repr

/-- What an instruction reads and writes. `npc` is where the next instruction is, `fs` the
field of the status register. -/
@[ext] structure ExecContext (μ : Type) where
  regs : RegFile
  fregs : RegIndex → Word
  pc : Addr
  npc : Addr
  fs : BitVec 2
  mem : μ

/-- The memory as seen through the MMU. Reading it may change what is kept there. -/
structure MemPort (μ φ : Type) where
  alignmentCheckEnabled : Bool
  readMem : μ → Addr → (size : Nat) → Except φ (BitVec (8 * size) × μ)
  writeMem : μ → Addr → (size : Nat) → BitVec (8 * size) → Except φ μ

/-- FPUStatus::OFF -/
def fpuOff : BitVec 2 := 0

def returnAddrReg : RegIndex := 1

def stackPointerReg : RegIndex := 2

/-! Integers -/

/-- The first value is that of 32-bit mode. -/
def rvSelect {α : Type} (_v32 v64 : α) : α := v64

def rvSext (x : Word) : Word := rvSelect ((x.setWidth 32).signExtend 64) x

def rvZext (x : Word) : Word := rvSelect ((x.setWidth 32).setWidth 64) x

/-- Assumes that all bits past the sign are zero. -/
def sext (n : Nat) (val : Word) : Word := if val.getLsbD (n - 1) then val ||| BitVec.allOnes 64 <<< n else val

def u64 {width : Nat} (field : BitVec width) : Word := field.setWidth 64

def slice {width : Nat} (field : BitVec width) (first last : Nat) : Word := u64 (field.extractLsb' last (first + 1 - last))

def ofInt32 (x : BitVec 32) : Word := x.signExtend 64

variable {μ φ : Type}

namespace ExecContext

def reg (xc : ExecContext μ) (index : RegIndex) : Word := xc.regs.read index

/-- Writes to register 0 go nowhere. -/
def setReg (xc : ExecContext μ) (index : RegIndex) (value : Word) : ExecContext μ :=
  if index = 0 then xc else { xc with regs := Function.update xc.regs index value }

def setFreg (xc : ExecContext μ) (index : RegIndex) (value : Word) : ExecContext μ :=
  { xc with fregs := Function.update xc.fregs index value }

end ExecContext

abbrev Execute (μ φ : Type) := ExecContext μ → Except (Fault φ) (ExecContext μ)

/-! Templates -/

/-- ImmExecute of an operation that reads one register. -/
def regImm (dest src : RegIndex) (imm : Word) (op : Word → Word → Word) : Execute μ φ :=
  fun xc => .ok (xc.setReg dest (op (xc.reg src) imm))

/-- BasicExecute of an operation that reads two registers. -/
def regReg (dest src1 src2 : RegIndex) (op : Word → Word → Word) : Execute μ φ :=
  fun xc => .ok (xc.setReg dest (op (xc.reg src1) (xc.reg src2)))

def branch (imm : Word) (condition : ExecContext μ → Bool) : Execute μ φ :=
  fun xc => .ok { xc with npc := if condition xc then rvZext (xc.pc + imm) else rvZext xc.npc }

def illegalIf (condition : Bool) (reason : String) (rest : Execute μ φ) : Execute μ φ :=
  if condition then fun _ => .error (.illegalInst reason) else rest

/-- The check that the floating-point instructions make for themselves. -/
def fpuOn {α : Type} (xc : ExecContext μ) (rest : Except (Fault φ) α) : Except (Fault φ) α :=
  if xc.fs = fpuOff then .error (.illegalInst "FPU is off") else rest

variable (port : MemPort μ φ)

def alignmentOk (addr : Addr) (size : Nat) : Bool := addr.toNat % size == 0 || !port.alignmentCheckEnabled

def load (size : Nat) (base : RegIndex) (offset : Word) (memacc : BitVec (8 * size) → Execute μ φ) : Execute μ φ := fun xc =>
  let EA := rvZext (xc.reg base + offset)
  if !alignmentOk port EA size then .error (.address EA .loadAddrMisaligned)
  else match port.readMem xc.mem EA size with
    | .error fault => .error (.memory fault)
    | .ok (Mem, after) => memacc Mem { xc with mem := after }

def store (size : Nat) (base : RegIndex) (offset : Word) (memacc : ExecContext μ → Except (Fault φ) (BitVec (8 * size))) :
    Execute μ φ := fun xc => do
  let EA := rvZext (xc.reg base + offset)
  let Mem ← memacc xc
  if !alignmentOk port EA size then .error (.address EA .storeAddrMisaligned)
  else match port.writeMem xc.mem EA size Mem with
    | .error fault => .error (.memory fault)
    | .ok after => .ok { xc with mem := after }

/-! Bitfields -/

section Bitfields
variable (machInst : ExtMachInst)

def quadrant : BitVec 2 := machInst.extractLsb' 0 2
def opcode5 : BitVec 5 := machInst.extractLsb' 2 5
def rd : RegIndex := machInst.extractLsb' 7 5
def funct3 : BitVec 3 := machInst.extractLsb' 12 3
def rs1 : RegIndex := machInst.extractLsb' 15 5
def rs2 : RegIndex := machInst.extractLsb' 20 5
def fs3 : BitVec 5 := machInst.extractLsb' 27 5
def funct7 : BitVec 7 := machInst.extractLsb' 25 7
def kfunct5 : BitVec 5 := machInst.extractLsb' 25 5
def bs : BitVec 2 := machInst.extractLsb' 30 2
def shamt6 : BitVec 6 := machInst.extractLsb' 20 6
def shamt6bit5 : Bool := machInst.getLsbD 25
def imm12 : BitVec 12 := machInst.extractLsb' 20 12
def imm5 : BitVec 5 := machInst.extractLsb' 7 5
def imm7 : BitVec 7 := machInst.extractLsb' 25 7
def imm20 : BitVec 20 := machInst.extractLsb' 12 20
def bimm12bit11 : BitVec 1 := machInst.extractLsb' 7 1
def bimm12bits4to1 : BitVec 4 := machInst.extractLsb' 8 4
def bimm12bits10to5 : BitVec 6 := machInst.extractLsb' 25 6
def immsign : BitVec 1 := machInst.extractLsb' 31 1
def ujimmbits10to1 : BitVec 10 := machInst.extractLsb' 21 10
def ujimmbit11 : BitVec 1 := machInst.extractLsb' 20 1
def ujimmbits19to12 : BitVec 8 := machInst.extractLsb' 12 8

/-! The immediates of the formats -/

def iOpImm : Word := sext 12 (u64 (imm12 machInst))

def storeOffset : Word := sext 12 (u64 (imm5 machInst) ||| u64 (imm7 machInst) <<< 5)

def bOpImm : Word :=
  sext 13 (u64 (bimm12bits4to1 machInst) <<< 1 ||| u64 (bimm12bits10to5 machInst) <<< 5 ||| u64 (bimm12bit11 machInst) <<< 11 |||
    u64 (immsign machInst) <<< 12)

def uOpImm : Word := u64 (imm20 machInst)

def jOpImm : Word :=
  sext 21 (u64 (ujimmbits10to1 machInst) <<< 1 ||| u64 (ujimmbit11 machInst) <<< 11 ||| u64 (ujimmbits19to12 machInst) <<< 12 |||
    u64 (immsign machInst) <<< 20)

/-! The instructions -/

def lw : Execute μ φ := load port 4 (rs1 machInst) (iOpImm machInst) fun Mem xc => .ok (xc.setReg (rd machInst) (ofInt32 Mem))

def ld : Execute μ φ := load port 8 (rs1 machInst) (iOpImm machInst) fun Mem xc => .ok (xc.setReg (rd machInst) Mem)

/-- Boxing a double changes nothing. -/
def fld : Execute μ φ := load port 8 (rs1 machInst) (iOpImm machInst) fun Mem xc => fpuOn xc (.ok (xc.setFreg (rd machInst) Mem))

def slli : Execute μ φ :=
  illegalIf (rvSelect (shamt6bit5 machInst) false) "shmat[5] != 0"
    (regImm (rd machInst) (rs1 machInst) (u64 (shamt6 machInst)) fun x imm => rvSext (x <<< imm))

def addi : Execute μ φ := regImm (rd machInst) (rs1 machInst) (iOpImm machInst) fun x imm => rvSext (x + imm)

def srli : Execute μ φ :=
  illegalIf (rvSelect (shamt6bit5 machInst) false) "shmat[5] != 0"
    (regImm (rd machInst) (rs1 machInst) (u64 (shamt6 machInst)) fun x imm => rvSext (rvZext x >>> imm))

def srai : Execute μ φ :=
  illegalIf (rvSelect (shamt6bit5 machInst) false) "shmat[5] != 0"
    (regImm (rd machInst) (rs1 machInst) (u64 (shamt6 machInst)) fun x imm => (rvSext x).sshiftRight' imm)

def andi : Execute μ φ := regImm (rd machInst) (rs1 machInst) (iOpImm machInst) fun x imm => rvSext (x &&& imm)

def addiw : Execute μ φ :=
  regImm (rd machInst) (rs1 machInst) (iOpImm machInst) fun x imm => ofInt32 (x.setWidth 32 + imm.setWidth 32)

def sw : Execute μ φ := store port 4 (rs1 machInst) (storeOffset machInst) fun xc => .ok ((xc.reg (rs2 machInst)).setWidth 32)

def sd : Execute μ φ := store port 8 (rs1 machInst) (storeOffset machInst) fun xc => .ok (xc.reg (rs2 machInst))

def fsd : Execute μ φ := store port 8 (rs1 machInst) (storeOffset machInst) fun xc => fpuOn xc (.ok (xc.fregs (rs2 machInst)))

def add : Execute μ φ := regReg (rd machInst) (rs1 machInst) (rs2 machInst) fun x y => rvSext (x + y)

def sub : Execute μ φ := regReg (rd machInst) (rs1 machInst) (rs2 machInst) fun x y => rvSext (x - y)

def xor : Execute μ φ := regReg (rd machInst) (rs1 machInst) (rs2 machInst) fun x y => rvSext (x ^^^ y)

def or : Execute μ φ := regReg (rd machInst) (rs1 machInst) (rs2 machInst) fun x y => rvSext (x ||| y)

def and : Execute μ φ := regReg (rd machInst) (rs1 machInst) (rs2 machInst) fun x y => rvSext (x &&& y)

def lui : Execute μ φ := fun xc => .ok (xc.setReg (rd machInst) (sext 20 (uOpImm machInst) <<< 12))

def addw : Execute μ φ :=
  regReg (rd machInst) (rs1 machInst) (rs2 machInst) fun x y => ofInt32 (x.setWidth 32 + y.setWidth 32)

def subw : Execute μ φ :=
  regReg (rd machInst) (rs1 machInst) (rs2 machInst) fun x y => ofInt32 (x.setWidth 32 - y.setWidth 32)

def beq : Execute μ φ := branch (bOpImm machInst) fun xc => rvSext (xc.reg (rs1 machInst)) == rvSext (xc.reg (rs2 machInst))

def bne : Execute μ φ := branch (bOpImm machInst) fun xc => rvSext (xc.reg (rs1 machInst)) != rvSext (xc.reg (rs2 machInst))

def jalr : Execute μ φ := fun xc =>
  .ok { xc.setReg (rd machInst) (rvSext xc.npc) with npc := rvZext ((iOpImm machInst + xc.reg (rs1 machInst)) &&& ~~~1#64) }

def jal : Execute μ φ := fun xc =>
  .ok { xc.setReg (rd machInst) (rvSext xc.npc) with npc := rvZext (xc.pc + jOpImm machInst) }

def ebreak : Execute μ φ := fun xc => .error (.breakpoint xc.pc)

/-- The leaves of quadrant 3 that are not modelled are left open. -/
def decodeQuadrant3 : Option (Execute μ φ) :=
  match (opcode5 machInst).toNat, (funct3 machInst).toNat with
  | 0x00, 0x2 => some (lw port machInst)
  | 0x00, 0x3 => some (ld port machInst)
  | 0x01, 0x3 => some (fld port machInst)
  | 0x04, 0x1 => match (fs3 machInst).toNat with
    | 0x00 => some (slli machInst)
    | _ => none
  | 0x04, 0x0 => some (addi machInst)
  | 0x04, 0x5 => match (fs3 machInst).toNat with
    | 0x0 => some (srli machInst)
    | 0x8 => some (srai machInst)
    | _ => none
  | 0x04, 0x7 => some (andi machInst)
  | 0x06, 0x0 => some (addiw machInst)
  | 0x08, 0x2 => some (sw port machInst)
  | 0x08, 0x3 => some (sd port machInst)
  | 0x09, 0x3 => some (fsd port machInst)
  | 0x0c, 0x0 => match (kfunct5 machInst).toNat, (bs machInst).toNat with
    | 0x00, 0x0 => some (add machInst)
    | 0x00, 0x1 => some (sub machInst)
    | _, _ => none
  | 0x0c, 0x4 => match (funct7 machInst).toNat with
    | 0x0 => some (xor machInst)
    | _ => none
  | 0x0c, 0x6 => match (funct7 machInst).toNat with
    | 0x0 => some (or machInst)
    | _ => none
  | 0x0c, 0x7 => match (funct7 machInst).toNat with
    | 0x0 => some (and machInst)
    | _ => none
  | 0x0d, _ => some (lui machInst)
  | 0x0e, 0x0 => match (funct7 machInst).toNat with
    | 0x0 => some (addw machInst)
    | 0x20 => some (subw machInst)
    | _ => none
  | 0x18, 0x0 => some (beq machInst)
  | 0x18, 0x1 => some (bne machInst)
  | 0x19, 0x0 => some (jalr machInst)
  | 0x1b, _ => some (jal machInst)
  | 0x1c, 0x0 => match (funct7 machInst).toNat, (rs2 machInst).toNat with
    | 0x0, 0x1 => some ebreak
    | _, _ => none
  | _, _ => none

end Bitfields

end ImcGem5.Isa.Rv64
