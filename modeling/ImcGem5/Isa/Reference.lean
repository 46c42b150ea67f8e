import ImcGem5.Isa.Instruction
import ImcGem5.Proofs.InMemory

/-! What an in-memory instruction stands for: load the operand words, compute, store the
result, each access translated page by page. This is a statement of purpose and not a
translation of source text. -/

namespace ImcGem5.Isa
open Lib Mem

/-- Why a sequence of accesses ends early: a fault of the guest, or the simulator. -/
inductive Stop (φ : Type) where
  | fault (fault : φ)
  | abort (abort : Abort)

def orFault {φ α : Type} (result : Except φ α) : Except (Stop φ) α := result.mapError .fault
def orAbort {φ α : Type} (result : Except Abort α) : Except (Stop φ) α := result.mapError .abort

/-- Bytes from an address to the end of its page. -/
def room (vaddr : Addr) : Nat := 4096 - vaddr.toNat % 4096

/-- The parts of an 8-byte access that lie on one page each. -/
def pieces (vaddr : Addr) : List (Addr × Nat) :=
  if 8 ≤ room vaddr then [(vaddr, 8)]
  else [(vaddr, room vaddr), (vaddr + BitVec.ofNat 64 (room vaddr), 8 - room vaddr)]

def translatePieces {φ : Type} (mmu : Translation φ) (mode : AccessMode) :
    List (Addr × Nat) → Except φ (List (Addr × Nat))
  | [] => .ok []
  | (vaddr, length) :: rest => do
    let paddr ← mmu vaddr mode
    let paddrs ← translatePieces mmu mode rest
    return (paddr, length) :: paddrs

def readPieces (mem : AbstractMemory) : List (Addr × Nat) → Except Abort (List Byte)
  | [] => .ok []
  | (paddr, length) :: rest => do
    let bytes ← mem.hostRead paddr length
    let others ← readPieces mem rest
    return bytes ++ others

def writePieces (mem : AbstractMemory) : List (Addr × Nat) → List Byte → Except Abort AbstractMemory
  | [], _ => .ok mem
  | (paddr, length) :: rest, bytes => do
    let mem ← mem.hostWrite paddr (bytes.take length)
    writePieces mem rest (bytes.drop length)

def bytesOf (parts : List (Addr × Nat)) : List Nat := parts.flatMap fun part => span part.1 part.2

def load {φ : Type} (mmu : Translation φ) (mem : AbstractMemory) (vaddr : Addr) : Except (Stop φ) (Word × Effect) := do
  let parts ← orFault (translatePieces mmu .read (pieces vaddr))
  let bytes ← orAbort (readPieces mem parts)
  return (BitVec.ofNat 64 (leNat bytes), .read (bytesOf parts))

def loads {φ : Type} (mmu : Translation φ) (mem : AbstractMemory) : List Addr → Except (Stop φ) (List (Word × Effect))
  | [] => .ok []
  | vaddr :: rest => do
    let first ← load mmu mem vaddr
    let others ← loads mmu mem rest
    return first :: others

/-- A store to a memory that is not writeable has no effect. -/
def store {φ : Type} (mmu : Translation φ) (mem : AbstractMemory) (vaddr : Addr) (value : Word) :
    Except (Stop φ) (AbstractMemory × List Effect) := do
  let parts ← orFault (translatePieces mmu .write (pieces vaddr))
  if mem.writeable then
    let mem ← orAbort (writePieces mem parts (leBytes 8 value.toNat))
    return (mem, [.wrote (bytesOf parts)])
  else return (mem, [])

def ImcInst.loadComputeStore {φ : Type} (mmu : Translation φ) (regs : RegFile) (inst : ImcInst) (mem : AbstractMemory) :
    Except (Stop φ) (AbstractMemory × List Effect) := do
  let loaded ← loads mmu mem (inst.sources regs)
  let value ← orAbort (Proofs.compute inst.op fun position => (loaded.map (·.1)).getD position 0)
  let (mem, written) ← store mmu mem (inst.destination regs) value
  return (mem, loaded.map (·.2) ++ written)

/-- What can be observed of an instruction: its fault, the memory it leaves, and which
bytes of it were read and written. -/
structure Outcome (φ : Type) where
  fault : Option φ
  pmem : Store
  effects : List Effect

/-- A fault leaves the memory as it was. -/
def ImcInst.reference {φ : Type} (mmu : Translation φ) (regs : RegFile) (inst : ImcInst) (mem : AbstractMemory) :
    Except Abort (Outcome φ) :=
  match inst.loadComputeStore mmu regs mem with
  | .ok (next, effects) => .ok ⟨none, next.pmem, effects⟩
  | .error (.fault fault) => .ok ⟨some fault, mem.pmem, []⟩
  | .error (.abort abort) => .error abort

def effectsOf (labels : List MemLabel) : List Effect :=
  labels.filterMap fun
    | .effect effect => some effect
    | _ => none

/-- The outcome of the instruction as it is executed. -/
def ImcInst.outcome {φ : Type} (mmu : Translation φ) (regs : RegFile) (request : Nat) (inst : ImcInst) (ctrl : MemCtrl)
    (now : Tick) (random : Nat) : Except Abort (Outcome φ) := do
  let (ctrl, fault, labels) ← inst.execute mmu regs request ctrl now random
  return ⟨fault, ctrl.mem.pmem, effectsOf labels⟩

end ImcGem5.Isa
