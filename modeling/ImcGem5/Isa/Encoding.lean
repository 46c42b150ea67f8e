import ImcGem5.Isa.Instruction

/-! The two notations of the in-memory instructions: match values, masks and operand
letters in the assembler, and the decoder tree of the simulator. -/

namespace ImcGem5.Isa
open Mem

namespace Assembler

abbrev insn_t := BitVec 64

/-- INSERT_BITS(STRUCT, VALUE, MASK, SHIFT) -/
def insertBits (struct value mask : insn_t) (shift : Nat) : insn_t :=
  (struct &&& ~~~(mask <<< shift)) ||| ((value &&& mask) <<< shift)

inductive Field where
  | rs1 | rs2 | rs3 | rd
  deriving DecidableEq, Repr

def Field.mask : Field → insn_t
  | .rs1 | .rs2 | .rs3 | .rd => 0x1f

def Field.shift : Field → Nat
  | .rs1 => 15
  | .rs2 => 20
  | .rs3 => 27
  | .rd => 7

/-- INSERT_OPERAND(FIELD, INSN, VALUE) -/
def insertOperand (field : Field) (insn : insn_t) (regno : RegIndex) : insn_t :=
  insertBits insn (regno.setWidth 64) field.mask field.shift

/-- The letters of the operand strings. -/
inductive Operand where
  | s | t | r | l
  deriving DecidableEq, Repr

/-- The inner switch of riscv_ip: 'l', the fourth register, goes to the field of rd. -/
def Operand.field : Operand → Field
  | .s => .rs1
  | .t => .rs2
  | .r => .rs3
  | .l => .rd

structure Opcode where
  args : List Operand
  «match» : insn_t
  mask : insn_t

/-- The six rows of riscv_opcodes. -/
def opcode : ImcOp → Opcode
  | .addmod => ⟨[.s, .t, .r, .l], 0x0200000B, 0x0600707F⟩
  | .submod => ⟨[.s, .t, .r, .l], 0x0600000B, 0x0600707F⟩
  | .mulmod => ⟨[.s, .t, .r, .l], 0x0400000B, 0x0600707F⟩
  | .mulimc => ⟨[.s, .t, .l], 0x0600100B, 0xFE00707F⟩
  | .invmod => ⟨[.s, .t, .l], 0x0800100B, 0xFE00707F⟩
  | .cmpimc => ⟨[.s, .t, .l], 0x0A00100B, 0xFE00707F⟩

def matchOpcode (op : Opcode) (insn : insn_t) : Bool := (insn ^^^ op.match) &&& op.mask == 0

/-- The walk of riscv_ip over operand letters and parsed registers, from the match
value that create_insn installs. -/
def insertOperands : insn_t → List (Operand × RegIndex) → insn_t
  | insn, [] => insn
  | insn, (operand, regno) :: rest => insertOperands (insertOperand operand.field insn regno) rest

/-- The four bytes that install_insn writes. -/
def assemble (op : Opcode) (regs : List RegIndex) : BitVec 32 :=
  (insertOperands op.match (op.args.zip regs)).setWidth 32

end Assembler

namespace Decoder

abbrev MachInst := BitVec 32

def quadrant (machInst : MachInst) : BitVec 2 := machInst.extractLsb' 0 2
def opcode5 (machInst : MachInst) : BitVec 5 := machInst.extractLsb' 2 5
def rs4 (machInst : MachInst) : RegIndex := machInst.extractLsb' 7 5
def funct3 (machInst : MachInst) : BitVec 3 := machInst.extractLsb' 12 3
def rs1 (machInst : MachInst) : RegIndex := machInst.extractLsb' 15 5
def rs2 (machInst : MachInst) : RegIndex := machInst.extractLsb' 20 5
def funct2 (machInst : MachInst) : BitVec 2 := machInst.extractLsb' 25 2
def funct7 (machInst : MachInst) : BitVec 7 := machInst.extractLsb' 25 7
def rs3 (machInst : MachInst) : RegIndex := machInst.extractLsb' 27 5

def r4Op (machInst : MachInst) (op : ImcOp) : ImcInst :=
  ⟨op, rs1 machInst, rs2 machInst, rs3 machInst, rs4 machInst⟩

/-- Format ROp2, which has no third source. -/
def rOp2 (machInst : MachInst) (op : ImcOp) : ImcInst := ⟨op, rs1 machInst, rs2 machInst, 0, rs4 machInst⟩

/-- The decoder tree down to the six instructions; all other leaves are `none`. -/
def decode (machInst : MachInst) : Option ImcInst :=
  if quadrant machInst = 0x3 then
    if opcode5 machInst = 0x02 then
      if funct3 machInst = 0x0 then
        if funct2 machInst = 0x01 then some (r4Op machInst .addmod)
        else if funct2 machInst = 0x02 then some (r4Op machInst .mulmod)
        else if funct2 machInst = 0x03 then some (r4Op machInst .submod)
        else none
      else if funct3 machInst = 0x01 then
        if funct7 machInst = 0x03 then some (rOp2 machInst .mulimc)
        else if funct7 machInst = 0x04 then some (rOp2 machInst .invmod)
        else if funct7 machInst = 0x05 then some (rOp2 machInst .cmpimc)
        else none
      else none
    else none
  else none

end Decoder

/-- The registers an instruction names, in the order of its assembly text. -/
def ImcInst.operands (inst : ImcInst) : List RegIndex :=
  if ternaryOp inst.op then [inst.rs1, inst.rs2, inst.rs3, inst.rs4] else [inst.rs1, inst.rs2, inst.rs4]

end ImcGem5.Isa
