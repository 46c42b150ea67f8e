import ImcGem5.Mem.Controller

/-! Execution of the in-memory instructions: operand registers hold virtual
addresses, the instruction has them translated one by one, and one write packet
carries the physical addresses to the memory. -/

namespace ImcGem5.Isa
open Lib Mem

abbrev RegIndex := BitVec 5

/-- The integer register file; register 0 reads as zero whatever was written. -/
abbrev RegFile := RegIndex → Word

def RegFile.read (regs : RegFile) (index : RegIndex) : Word := if index = 0 then 0 else regs index

inductive AccessMode where
  | read | write
  deriving DecidableEq, Repr

/-- BaseMMU::translateAtomic: a fault, or the physical address of the first byte. -/
abbrev Translation (φ : Type) := Addr → AccessMode → Except φ Addr

/-- rs3 is not encoded, and not read, in instructions with two operand words. -/
structure ImcInst where
  op : ImcOp
  rs1 : RegIndex
  rs2 : RegIndex
  rs3 : RegIndex
  rs4 : RegIndex
  deriving DecidableEq, Repr

def ternaryOp : ImcOp → Bool
  | .addmod | .submod | .mulmod => true
  | .mulimc | .invmod | .cmpimc => false

namespace ImcInst

/-- The virtual addresses of the operand words. -/
def sources (inst : ImcInst) (regs : RegFile) : List Addr :=
  if ternaryOp inst.op then [regs.read inst.rs1, regs.read inst.rs2, regs.read inst.rs3]
  else [regs.read inst.rs1, regs.read inst.rs2]

def destination (inst : ImcInst) (regs : RegFile) : Addr := regs.read inst.rs4

end ImcInst

/-- translateAtomic and then getPaddr: the fault is dropped, and a request that was
not given a physical address fails the assertion in getPaddr. -/
def physical {φ : Type} (mmu : Translation φ) (vaddr : Addr) : Except Abort Addr :=
  match mmu vaddr .read with
  | .ok paddr => .ok paddr
  | .error _ => .error (.assertion "hasPaddr()")

def physicals {φ : Type} (mmu : Translation φ) : List Addr → Except Abort (List Addr)
  | [] => .ok []
  | vaddr :: rest => do
    let paddr ← physical mmu vaddr
    let paddrs ← physicals mmu rest
    return paddr :: paddrs

/-- The address every in-memory request is sent to. -/
def imcAddr : Addr := 0x00100100

/-- The request names a requestor and no hardware context. -/
def imcPacket (id : Nat) (op : ImcOp) (operands : List Addr) : Packet :=
  let size := 8 * operands.length
  .ofRequest { id, paddr := imcAddr, size, flags := op.flag, byteEnable := List.replicate size true } .writeReq
    (operands.flatMap fun paddr => leBytes 8 paddr.toNat)

/-- The packet of an instruction; `id` is the identity of its new request. -/
def ImcInst.packet {φ : Type} (mmu : Translation φ) (regs : RegFile) (id : Nat) (inst : ImcInst) :
    Except Abort Packet := do
  let operands ← physicals mmu (inst.sources regs ++ [inst.destination regs])
  return imcPacket id inst.op operands

/-- Execution on a processor whose data port leads to the controller. What
sendTimingReq returns is not looked at, and the instruction reports no fault. -/
def ImcInst.execute {φ : Type} (mmu : Translation φ) (regs : RegFile) (id : Nat) (inst : ImcInst) (ctrl : MemCtrl)
    (now : Tick) (random : Nat) : Except Abort (MemCtrl × Option φ × List MemLabel) := do
  let pkt ← inst.packet mmu regs id
  let (ctrl, _, labels) ← ctrl.recvTimingReq now random pkt
  return (ctrl, none, labels)

end ImcGem5.Isa
