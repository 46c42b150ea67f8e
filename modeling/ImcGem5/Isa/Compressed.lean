import ImcGem5.Isa.Rv64

/-! The compressed instructions of decoder.isa in 64-bit mode. The decoder keeps the low
half of the word that it fetched. -/

namespace ImcGem5.Isa.Rv64
open Lib Mem

section Compressed
variable {μ φ : Type} (port : MemPort μ φ) (machInst : BitVec 16)

/-! Bitfields -/

def cquadrant : BitVec 2 := machInst.extractLsb' 0 2
def copcode : BitVec 3 := machInst.extractLsb' 13 3
def cfunct1 : BitVec 1 := machInst.extractLsb' 12 1
def cfunct2high : BitVec 2 := machInst.extractLsb' 10 2
def cfunct2low : BitVec 2 := machInst.extractLsb' 5 2
def rc1 : RegIndex := machInst.extractLsb' 7 5
def rc2 : RegIndex := machInst.extractLsb' 2 5
def rp1 : BitVec 3 := machInst.extractLsb' 7 3
def rp2 : BitVec 3 := machInst.extractLsb' 2 3
def fc1 : RegIndex := machInst.extractLsb' 7 5
def fc2 : RegIndex := machInst.extractLsb' 2 5
def fp2 : BitVec 3 := machInst.extractLsb' 2 3
def cjumpimm3to1 : BitVec 3 := machInst.extractLsb' 3 3
def cjumpimm4to4 : BitVec 1 := machInst.extractLsb' 11 1
def cjumpimm5to5 : BitVec 1 := machInst.extractLsb' 2 1
def cjumpimm6to6 : BitVec 1 := machInst.extractLsb' 7 1
def cjumpimm7to7 : BitVec 1 := machInst.extractLsb' 6 1
def cjumpimm9to8 : BitVec 2 := machInst.extractLsb' 9 2
def cjumpimm10to10 : BitVec 1 := machInst.extractLsb' 8 1
def cjumpimmsign : BitVec 1 := machInst.extractLsb' 12 1
def cimm8 : BitVec 8 := machInst.extractLsb' 5 8
def cimm6 : BitVec 6 := machInst.extractLsb' 7 6
def cimm5 : BitVec 5 := machInst.extractLsb' 2 5
def cimm3 : BitVec 3 := machInst.extractLsb' 10 3
def cimm2 : BitVec 2 := machInst.extractLsb' 5 2
def cimm1 : BitVec 1 := machInst.extractLsb' 12 1

/-- The operands Rp1, Rp2 and Fp2 are those of a three-bit field. -/
def popular (field : BitVec 3) : RegIndex := field.setWidth 5 + 8

/-! Immediates -/

def c4spnImm : Word :=
  slice (cimm8 machInst) 1 1 <<< 2 ||| slice (cimm8 machInst) 0 0 <<< 3 ||| slice (cimm8 machInst) 7 6 <<< 4 |||
    slice (cimm8 machInst) 5 2 <<< 6

def c16spImm : Word :=
  sext 10 (slice (cimm5 machInst) 4 4 <<< 4 ||| slice (cimm5 machInst) 0 0 <<< 5 ||| slice (cimm5 machInst) 3 3 <<< 6 |||
    slice (cimm5 machInst) 2 1 <<< 7 ||| u64 (cimm1 machInst) <<< 9)

def candiImm : Word :=
  let imm := u64 (cimm5 machInst)
  if 0 < cimm1 machInst then imm ||| ~~~0x1F#64 else imm

def ciImm : Word := sext 6 (u64 (cimm5 machInst) ||| u64 (cimm1 machInst) <<< 5)

def ciShamt : Word := u64 (cimm5 machInst) ||| u64 (cimm1 machInst) <<< 5

def clwOffset : Word := slice (cimm2 machInst) 1 1 <<< 2 ||| u64 (cimm3 machInst) <<< 3 ||| slice (cimm2 machInst) 0 0 <<< 6

def cldOffset : Word := u64 (cimm3 machInst) <<< 3 ||| u64 (cimm2 machInst) <<< 6

def clwspOffset : Word :=
  slice (cimm5 machInst) 4 2 <<< 2 ||| u64 (cimm1 machInst) <<< 5 ||| slice (cimm5 machInst) 1 0 <<< 6

def cldspOffset : Word :=
  slice (cimm5 machInst) 4 3 <<< 3 ||| u64 (cimm1 machInst) <<< 5 ||| slice (cimm5 machInst) 2 0 <<< 6

def cswspOffset : Word := slice (cimm6 machInst) 5 2 <<< 2 ||| slice (cimm6 machInst) 1 0 <<< 6

def csdspOffset : Word := slice (cimm6 machInst) 5 3 <<< 3 ||| slice (cimm6 machInst) 2 0 <<< 6

def cjImm : Word :=
  sext 12 (u64 (cjumpimm3to1 machInst) <<< 1 ||| u64 (cjumpimm4to4 machInst) <<< 4 ||| u64 (cjumpimm5to5 machInst) <<< 5 |||
    u64 (cjumpimm6to6 machInst) <<< 6 ||| u64 (cjumpimm7to7 machInst) <<< 7 ||| u64 (cjumpimm9to8 machInst) <<< 8 |||
    u64 (cjumpimm10to10 machInst) <<< 10 ||| u64 (cjumpimmsign machInst) <<< 11)

def cbImm : Word :=
  sext 9 (slice (cimm5 machInst) 2 1 <<< 1 ||| slice (cimm3 machInst) 1 0 <<< 3 ||| slice (cimm5 machInst) 0 0 <<< 5 |||
    slice (cimm5 machInst) 4 3 <<< 6 ||| slice (cimm3 machInst) 2 2 <<< 8)

/-! Quadrant 0 -/

def c_addi4spn : Execute μ φ :=
  illegalIf (c4spnImm machInst == 0) "immediate = 0"
    (regImm (popular (rp2 machInst)) stackPointerReg (c4spnImm machInst) fun x imm => rvSext (x + imm))

def c_fld : Execute μ φ :=
  load port 8 (popular (rp1 machInst)) (cldOffset machInst) fun Mem xc => fpuOn xc (.ok (xc.setFreg (popular (fp2 machInst)) Mem))

def c_lw : Execute μ φ :=
  load port 4 (popular (rp1 machInst)) (clwOffset machInst) fun Mem xc => .ok (xc.setReg (popular (rp2 machInst)) (ofInt32 Mem))

def c_ld : Execute μ φ :=
  load port 8 (popular (rp1 machInst)) (cldOffset machInst) fun Mem xc => .ok (xc.setReg (popular (rp2 machInst)) Mem)

def c_fsd : Execute μ φ :=
  store port 8 (popular (rp1 machInst)) (cldOffset machInst) fun xc => fpuOn xc (.ok (xc.fregs (popular (fp2 machInst))))

def c_sw : Execute μ φ :=
  store port 4 (popular (rp1 machInst)) (clwOffset machInst) fun xc => .ok ((xc.reg (popular (rp2 machInst))).setWidth 32)

def c_sd : Execute μ φ :=
  store port 8 (popular (rp1 machInst)) (cldOffset machInst) fun xc => .ok (xc.reg (popular (rp2 machInst)))

/-! Quadrant 1 -/

def c_addi : Execute μ φ := regImm (rc1 machInst) (rc1 machInst) (ciImm machInst) fun x imm => rvSext (x + imm)

def c_addiw : Execute μ φ :=
  illegalIf (rc1 machInst == 0) "source reg x0"
    (regImm (rc1 machInst) (rc1 machInst) (ciImm machInst) fun x imm => ofInt32 (x.setWidth 32 + imm.setWidth 32))

def c_li : Execute μ φ := fun xc => .ok (xc.setReg (rc1 machInst) (ciImm machInst))

def c_addi16sp : Execute μ φ :=
  illegalIf (c16spImm machInst == 0) "immediate = 0"
    (regImm stackPointerReg stackPointerReg (c16spImm machInst) fun x imm => rvSext (x + imm))

def c_lui : Execute μ φ :=
  let imm := ciImm machInst <<< 12
  illegalIf (imm == 0) "immediate = 0" fun xc => .ok (xc.setReg (rc1 machInst) imm)

def c_srli : Execute μ φ :=
  illegalIf (rvSelect (cimm1 machInst != 0) false) "shmat[5] != 0"
    (regImm (popular (rp1 machInst)) (popular (rp1 machInst)) (ciShamt machInst) fun x imm => rvZext x >>> imm)

def c_srai : Execute μ φ :=
  illegalIf (rvSelect (cimm1 machInst != 0) false) "shmat[5] != 0"
    (regImm (popular (rp1 machInst)) (popular (rp1 machInst)) (ciShamt machInst) fun x imm => (rvSext x).sshiftRight' imm)

def c_andi : Execute μ φ :=
  regImm (popular (rp1 machInst)) (popular (rp1 machInst)) (candiImm machInst) fun x imm => rvSext (x &&& imm)

def compressedROp (op : Word → Word → Word) : Execute μ φ :=
  regReg (popular (rp1 machInst)) (popular (rp1 machInst)) (popular (rp2 machInst)) op

def c_sub : Execute μ φ := compressedROp machInst fun x y => rvSext (x - y)

def c_xor : Execute μ φ := compressedROp machInst fun x y => rvSext (x ^^^ y)

def c_or : Execute μ φ := compressedROp machInst fun x y => rvSext (x ||| y)

def c_and : Execute μ φ := compressedROp machInst fun x y => rvSext (x &&& y)

def c_subw : Execute μ φ := compressedROp machInst fun x y => ofInt32 (x.setWidth 32 - y.setWidth 32)

def c_addw : Execute μ φ := compressedROp machInst fun x y => ofInt32 (x.setWidth 32 + y.setWidth 32)

def c_j : Execute μ φ := fun xc => .ok { xc with npc := rvZext (xc.pc + cjImm machInst) }

/-- CBOp, whose instructions leave NPC as it is when they do not jump. -/
def cbOp (condition : Word → Bool) : Execute μ φ := fun xc =>
  .ok { xc with npc := if condition (rvSext (xc.reg (popular (rp1 machInst)))) then rvZext (xc.pc + cbImm machInst) else xc.npc }

def c_beqz : Execute μ φ := cbOp machInst (· == 0)

def c_bnez : Execute μ φ := cbOp machInst (· != 0)

/-! Quadrant 2 -/

def c_slli : Execute μ φ :=
  illegalIf (rvSelect (cimm1 machInst != 0) false) "shmat[5] != 0"
    (regImm (rc1 machInst) (rc1 machInst) (ciShamt machInst) fun x imm => rvSext (x <<< imm))

def c_fldsp : Execute μ φ :=
  load port 8 stackPointerReg (cldspOffset machInst) fun Mem xc => .ok (xc.setFreg (fc1 machInst) Mem)

def c_lwsp : Execute μ φ :=
  load port 4 stackPointerReg (clwspOffset machInst) fun Mem =>
    illegalIf (rc1 machInst == 0) "source reg x0" fun xc => .ok (xc.setReg (rc1 machInst) (ofInt32 Mem))

def c_ldsp : Execute μ φ :=
  load port 8 stackPointerReg (cldspOffset machInst) fun Mem =>
    illegalIf (rc1 machInst == 0) "source reg x0" fun xc => .ok (xc.setReg (rc1 machInst) Mem)

def c_jr : Execute μ φ :=
  illegalIf (rc1 machInst == 0) "source reg x0" fun xc => .ok { xc with npc := rvZext (xc.reg (rc1 machInst)) }

def c_mv : Execute μ φ := fun xc => .ok (xc.setReg (rc1 machInst) (rvSext (xc.reg (rc2 machInst))))

def c_ebreak : Execute μ φ := fun xc => .error (.breakpoint xc.pc)

def c_jalr : Execute μ φ := fun xc =>
  .ok { xc.setReg returnAddrReg (rvSext xc.npc) with npc := rvZext (xc.reg (rc1 machInst)) }

def c_add : Execute μ φ := regReg (rc1 machInst) (rc1 machInst) (rc2 machInst) fun x y => rvSext (x + y)

def c_fsdsp : Execute μ φ := store port 8 stackPointerReg (csdspOffset machInst) fun xc => .ok (xc.fregs (fc2 machInst))

def c_swsp : Execute μ φ :=
  store port 4 stackPointerReg (cswspOffset machInst) fun xc => .ok ((xc.reg (rc2 machInst)).setWidth 32)

def c_sdsp : Execute μ φ := store port 8 stackPointerReg (csdspOffset machInst) fun xc => .ok (xc.reg (rc2 machInst))

def unknown : Execute μ φ := fun _ => .error .unknownInst

/-- Quadrants 0 to 2. Where the mode decides, it picks the instruction of 64-bit mode. -/
def decodeCompressed : Execute μ φ :=
  match (cquadrant machInst).toNat, (copcode machInst).toNat with
  | 0x0, 0x0 => c_addi4spn machInst
  | 0x0, 0x1 => c_fld port machInst
  | 0x0, 0x2 => c_lw port machInst
  | 0x0, 0x3 => c_ld port machInst
  | 0x0, 0x5 => c_fsd port machInst
  | 0x0, 0x6 => c_sw port machInst
  | 0x0, 0x7 => c_sd port machInst
  | 0x1, 0x0 => c_addi machInst
  | 0x1, 0x1 => c_addiw machInst
  | 0x1, 0x2 => c_li machInst
  | 0x1, 0x3 => match (rc1 machInst).toNat with
    | 0x2 => c_addi16sp machInst
    | _ => c_lui machInst
  | 0x1, 0x4 => match (cfunct2high machInst).toNat, (cfunct1 machInst).toNat, (cfunct2low machInst).toNat with
    | 0x0, _, _ => c_srli machInst
    | 0x1, _, _ => c_srai machInst
    | 0x2, _, _ => c_andi machInst
    | 0x3, 0x0, 0x0 => c_sub machInst
    | 0x3, 0x0, 0x1 => c_xor machInst
    | 0x3, 0x0, 0x2 => c_or machInst
    | 0x3, 0x0, 0x3 => c_and machInst
    | 0x3, 0x1, 0x0 => c_subw machInst
    | 0x3, 0x1, 0x1 => c_addw machInst
    | _, _, _ => unknown
  | 0x1, 0x5 => c_j machInst
  | 0x1, 0x6 => c_beqz machInst
  | 0x1, 0x7 => c_bnez machInst
  | 0x2, 0x0 => c_slli machInst
  | 0x2, 0x1 => c_fldsp port machInst
  | 0x2, 0x2 => c_lwsp port machInst
  | 0x2, 0x3 => c_ldsp port machInst
  | 0x2, 0x4 => match (cfunct1 machInst).toNat, (rc2 machInst).toNat, (rc1 machInst).toNat with
    | 0x0, 0x0, _ => c_jr machInst
    | 0x0, _, _ => c_mv machInst
    | 0x1, 0x0, 0x0 => c_ebreak
    | 0x1, 0x0, _ => c_jalr machInst
    | _, _, _ => c_add machInst
  | 0x2, 0x5 => c_fsdsp port machInst
  | 0x2, 0x6 => c_swsp port machInst
  | 0x2, 0x7 => c_sdsp port machInst
  | _, _ => unknown

end Compressed

/-- Compressed instructions decode always; of the others, those that they stand for. -/
def decode {μ φ : Type} (port : MemPort μ φ) (machInst : ExtMachInst) : Option (Execute μ φ) :=
  if quadrant machInst = 3 then decodeQuadrant3 port machInst else some (decodeCompressed port (machInst.setWidth 16))

def execute {μ φ : Type} (port : MemPort μ φ) (machInst : ExtMachInst) (xc : ExecContext μ) :
    Option (Except (Fault φ) (ExecContext μ)) :=
  (decode port machInst).map fun run => run xc

end ImcGem5.Isa.Rv64
