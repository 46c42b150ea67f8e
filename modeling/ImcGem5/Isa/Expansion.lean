import Mathlib.Data.BitVec

/-! The instructions that the C extension defines its own to stand for, in 64-bit mode with
double-precision floating point. This is a statement of purpose and not a translation of
source text: fields are bit ranges of the word, and reserved words stand for nothing. -/

namespace ImcGem5.Isa.Expansion

abbrev Reg := BitVec 5

/-! Formats -/

def rType (funct7 : BitVec 7) (rs2 rs1 : Reg) (funct3 : BitVec 3) (rd : Reg) (opcode : BitVec 7) : BitVec 32 :=
  funct7 ++ rs2 ++ rs1 ++ funct3 ++ rd ++ opcode

def iType (imm : BitVec 12) (rs1 : Reg) (funct3 : BitVec 3) (rd : Reg) (opcode : BitVec 7) : BitVec 32 :=
  imm ++ rs1 ++ funct3 ++ rd ++ opcode

def sType (imm : BitVec 12) (rs2 rs1 : Reg) (funct3 : BitVec 3) (opcode : BitVec 7) : BitVec 32 :=
  imm.extractLsb' 5 7 ++ rs2 ++ rs1 ++ funct3 ++ imm.extractLsb' 0 5 ++ opcode

def bType (imm : BitVec 13) (rs2 rs1 : Reg) (funct3 : BitVec 3) (opcode : BitVec 7) : BitVec 32 :=
  imm.extractLsb' 12 1 ++ imm.extractLsb' 5 6 ++ rs2 ++ rs1 ++ funct3 ++ imm.extractLsb' 1 4 ++ imm.extractLsb' 11 1 ++ opcode

def uType (imm : BitVec 20) (rd : Reg) (opcode : BitVec 7) : BitVec 32 := imm ++ rd ++ opcode

def jType (imm : BitVec 21) (rd : Reg) (opcode : BitVec 7) : BitVec 32 :=
  imm.extractLsb' 20 1 ++ imm.extractLsb' 1 10 ++ imm.extractLsb' 11 1 ++ imm.extractLsb' 12 8 ++ rd ++ opcode

/-! Instructions -/

def lw (rd rs1 : Reg) (imm : BitVec 12) := iType imm rs1 0b010 rd 0b0000011
def ld (rd rs1 : Reg) (imm : BitVec 12) := iType imm rs1 0b011 rd 0b0000011
def fld (rd rs1 : Reg) (imm : BitVec 12) := iType imm rs1 0b011 rd 0b0000111
def sw (rs2 rs1 : Reg) (imm : BitVec 12) := sType imm rs2 rs1 0b010 0b0100011
def sd (rs2 rs1 : Reg) (imm : BitVec 12) := sType imm rs2 rs1 0b011 0b0100011
def fsd (rs2 rs1 : Reg) (imm : BitVec 12) := sType imm rs2 rs1 0b011 0b0100111
def addi (rd rs1 : Reg) (imm : BitVec 12) := iType imm rs1 0b000 rd 0b0010011
def andi (rd rs1 : Reg) (imm : BitVec 12) := iType imm rs1 0b111 rd 0b0010011
def addiw (rd rs1 : Reg) (imm : BitVec 12) := iType imm rs1 0b000 rd 0b0011011
def slli (rd rs1 : Reg) (shamt : BitVec 6) := iType (0b000000#6 ++ shamt) rs1 0b001 rd 0b0010011
def srli (rd rs1 : Reg) (shamt : BitVec 6) := iType (0b000000#6 ++ shamt) rs1 0b101 rd 0b0010011
def srai (rd rs1 : Reg) (shamt : BitVec 6) := iType (0b010000#6 ++ shamt) rs1 0b101 rd 0b0010011
def add (rd rs1 rs2 : Reg) := rType 0b0000000 rs2 rs1 0b000 rd 0b0110011
def sub (rd rs1 rs2 : Reg) := rType 0b0100000 rs2 rs1 0b000 rd 0b0110011
def xor (rd rs1 rs2 : Reg) := rType 0b0000000 rs2 rs1 0b100 rd 0b0110011
def or (rd rs1 rs2 : Reg) := rType 0b0000000 rs2 rs1 0b110 rd 0b0110011
def and (rd rs1 rs2 : Reg) := rType 0b0000000 rs2 rs1 0b111 rd 0b0110011
def addw (rd rs1 rs2 : Reg) := rType 0b0000000 rs2 rs1 0b000 rd 0b0111011
def subw (rd rs1 rs2 : Reg) := rType 0b0100000 rs2 rs1 0b000 rd 0b0111011
def lui (rd : Reg) (imm : BitVec 20) := uType imm rd 0b0110111
def beq (rs1 rs2 : Reg) (imm : BitVec 13) := bType imm rs2 rs1 0b000 0b1100011
def bne (rs1 rs2 : Reg) (imm : BitVec 13) := bType imm rs2 rs1 0b001 0b1100011
def jal (rd : Reg) (imm : BitVec 21) := jType imm rd 0b1101111
def jalr (rd rs1 : Reg) (imm : BitVec 12) := iType imm rs1 0b000 rd 0b1100111
def ebreak := iType 1 0 0b000 0 0b1110011

/-! The fields of compressed words -/

section Fields
variable (c : BitVec 16)

def rd : Reg := c.extractLsb' 7 5
def rs2 : Reg := c.extractLsb' 2 5

/-- The registers of three-bit fields are x8 to x15. -/
def rd' : Reg := 0b01#2 ++ c.extractLsb' 7 3
def rs2' : Reg := 0b01#2 ++ c.extractLsb' 2 3

def imm6 : BitVec 6 := c.extractLsb' 12 1 ++ c.extractLsb' 2 5

/-- uimm[5:3|2|6] -/
def wordOffset : BitVec 7 := c.extractLsb' 5 1 ++ c.extractLsb' 10 3 ++ c.extractLsb' 6 1 ++ 0#2

/-- uimm[5:3|7:6] -/
def doubleOffset : BitVec 8 := c.extractLsb' 5 2 ++ c.extractLsb' 10 3 ++ 0#3

/-- uimm[5|4:2|7:6] -/
def lwspOffset : BitVec 8 := c.extractLsb' 2 2 ++ c.extractLsb' 12 1 ++ c.extractLsb' 4 3 ++ 0#2

/-- uimm[5|4:3|8:6] -/
def ldspOffset : BitVec 9 := c.extractLsb' 2 3 ++ c.extractLsb' 12 1 ++ c.extractLsb' 5 2 ++ 0#3

/-- uimm[5:2|7:6] -/
def swspOffset : BitVec 8 := c.extractLsb' 7 2 ++ c.extractLsb' 9 4 ++ 0#2

/-- uimm[5:3|8:6] -/
def sdspOffset : BitVec 9 := c.extractLsb' 7 3 ++ c.extractLsb' 10 3 ++ 0#3

/-- nzuimm[5:4|9:6|2|3] -/
def addi4spnImm : BitVec 10 := c.extractLsb' 7 4 ++ c.extractLsb' 11 2 ++ c.extractLsb' 5 1 ++ c.extractLsb' 6 1 ++ 0#2

/-- nzimm[9|4|6|8:7|5] -/
def addi16spImm : BitVec 10 :=
  c.extractLsb' 12 1 ++ c.extractLsb' 3 2 ++ c.extractLsb' 5 1 ++ c.extractLsb' 2 1 ++ c.extractLsb' 6 1 ++ 0#4

/-- imm[11|4|9:8|10|6|7|3:1|5] -/
def jumpOffset : BitVec 12 :=
  c.extractLsb' 12 1 ++ c.extractLsb' 8 1 ++ c.extractLsb' 9 2 ++ c.extractLsb' 6 1 ++ c.extractLsb' 7 1 ++ c.extractLsb' 2 1 ++
    c.extractLsb' 11 1 ++ c.extractLsb' 3 3 ++ 0#1

/-- imm[8|4:3|7:6|2:1|5] -/
def branchOffset : BitVec 9 :=
  c.extractLsb' 12 1 ++ c.extractLsb' 5 2 ++ c.extractLsb' 2 1 ++ c.extractLsb' 10 2 ++ c.extractLsb' 3 2 ++ 0#1

end Fields

def x0 : Reg := 0
def ra : Reg := 1
def sp : Reg := 2

def expandQuadrant0 (c : BitVec 16) : Option (BitVec 32) :=
  match (c.extractLsb' 13 3).toNat with
  | 0b000 => if addi4spnImm c = 0 then none else some (addi (rs2' c) sp ((addi4spnImm c).setWidth 12))
  | 0b001 => some (fld (rs2' c) (rd' c) ((doubleOffset c).setWidth 12))
  | 0b010 => some (lw (rs2' c) (rd' c) ((wordOffset c).setWidth 12))
  | 0b011 => some (ld (rs2' c) (rd' c) ((doubleOffset c).setWidth 12))
  | 0b101 => some (fsd (rs2' c) (rd' c) ((doubleOffset c).setWidth 12))
  | 0b110 => some (sw (rs2' c) (rd' c) ((wordOffset c).setWidth 12))
  | 0b111 => some (sd (rs2' c) (rd' c) ((doubleOffset c).setWidth 12))
  | _ => none

def expandAlu (c : BitVec 16) : Option (BitVec 32) :=
  match (c.extractLsb' 10 2).toNat, (c.extractLsb' 12 1).toNat, (c.extractLsb' 5 2).toNat with
  | 0b00, _, _ => some (srli (rd' c) (rd' c) (imm6 c))
  | 0b01, _, _ => some (srai (rd' c) (rd' c) (imm6 c))
  | 0b10, _, _ => some (andi (rd' c) (rd' c) ((imm6 c).signExtend 12))
  | 0b11, 0, 0b00 => some (sub (rd' c) (rd' c) (rs2' c))
  | 0b11, 0, 0b01 => some (xor (rd' c) (rd' c) (rs2' c))
  | 0b11, 0, 0b10 => some (or (rd' c) (rd' c) (rs2' c))
  | 0b11, 0, 0b11 => some (and (rd' c) (rd' c) (rs2' c))
  | 0b11, 1, 0b00 => some (subw (rd' c) (rd' c) (rs2' c))
  | 0b11, 1, 0b01 => some (addw (rd' c) (rd' c) (rs2' c))
  | _, _, _ => none

def expandQuadrant1 (c : BitVec 16) : Option (BitVec 32) :=
  match (c.extractLsb' 13 3).toNat with
  | 0b000 => some (addi (rd c) (rd c) ((imm6 c).signExtend 12))
  | 0b001 => if rd c = x0 then none else some (addiw (rd c) (rd c) ((imm6 c).signExtend 12))
  | 0b010 => some (addi (rd c) x0 ((imm6 c).signExtend 12))
  | 0b011 =>
    if rd c = sp then if addi16spImm c = 0 then none else some (addi sp sp ((addi16spImm c).signExtend 12))
    else if imm6 c = 0 then none else some (lui (rd c) ((imm6 c).signExtend 20))
  | 0b100 => expandAlu c
  | 0b101 => some (jal x0 ((jumpOffset c).signExtend 21))
  | 0b110 => some (beq (rd' c) x0 ((branchOffset c).signExtend 13))
  | 0b111 => some (bne (rd' c) x0 ((branchOffset c).signExtend 13))
  | _ => none

/-- Moves, additions and jumps to registers. -/
def expandMove (c : BitVec 16) : Option (BitVec 32) :=
  if c.extractLsb' 12 1 = 0 then
    if rs2 c = x0 then if rd c = x0 then none else some (jalr x0 (rd c) 0)
    else some (add (rd c) x0 (rs2 c))
  else
    if rs2 c = x0 then if rd c = x0 then some ebreak else some (jalr ra (rd c) 0)
    else some (add (rd c) (rd c) (rs2 c))

def expandQuadrant2 (c : BitVec 16) : Option (BitVec 32) :=
  match (c.extractLsb' 13 3).toNat with
  | 0b000 => some (slli (rd c) (rd c) (imm6 c))
  | 0b001 => some (fld (rd c) sp ((ldspOffset c).setWidth 12))
  | 0b010 => if rd c = x0 then none else some (lw (rd c) sp ((lwspOffset c).setWidth 12))
  | 0b011 => if rd c = x0 then none else some (ld (rd c) sp ((ldspOffset c).setWidth 12))
  | 0b100 => expandMove c
  | 0b101 => some (fsd (rs2 c) sp ((sdspOffset c).setWidth 12))
  | 0b110 => some (sw (rs2 c) sp ((swspOffset c).setWidth 12))
  | 0b111 => some (sd (rs2 c) sp ((sdspOffset c).setWidth 12))
  | _ => none

def expand (c : BitVec 16) : Option (BitVec 32) :=
  match (c.extractLsb' 0 2).toNat with
  | 0b00 => expandQuadrant0 c
  | 0b01 => expandQuadrant1 c
  | 0b10 => expandQuadrant2 c
  | _ => none

end ImcGem5.Isa.Expansion
