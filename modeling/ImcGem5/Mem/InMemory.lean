import ImcGem5.Lib.Runs
import ImcGem5.Mem.Abstract

/-! In-memory computation. The handlers of SimpleMemory and PIMCtrl are the same
text six times over: operand addresses come out of the packet's data, operand
words come straight out of the backing store, and the result goes straight back. -/

namespace ImcGem5.Mem
open Lib

abbrev Word := BitVec 64

inductive ImcOp where
  | addmod | submod | mulmod | mulimc | invmod | cmpimc
  deriving DecidableEq, Repr

/-- The request flag of each operation, as request.hh has it. -/
def ImcOp.flag : ImcOp → BitVec 64
  | .addmod => 0x0001000000000000
  | .mulmod => 0x0010000000000000
  | .mulimc => 0x0100000000000000
  | .invmod => 0x1000000000000000
  | .submod => 0x0000000010000000
  | .cmpimc => 0x0000000000001000

/-- The if/else chain over the request flags. -/
def dispatch (flags : Flags) : Option ImcOp :=
  if flags.isSet ImcOp.addmod.flag then some .addmod
  else if flags.isSet ImcOp.submod.flag then some .submod
  else if flags.isSet ImcOp.mulmod.flag then some .mulmod
  else if flags.isSet ImcOp.mulimc.flag then some .mulimc
  else if flags.isSet ImcOp.invmod.flag then some .invmod
  else if flags.isSet ImcOp.cmpimc.flag then some .cmpimc
  else none

def unsignedRem (value divisor : Word) : Except Abort Word :=
  if divisor = 0 then .error .divideError else .ok (value % divisor)

/-- The remainder of int64_t, which truncates towards zero. -/
def signedRem (value divisor : Word) : Except Abort Word :=
  if divisor = 0 ∨ value = BitVec.intMin 64 ∧ divisor = -1 then .error .divideError
  else .ok (value.srem divisor)

namespace ImcOp

def addmodResult (valA valB valC : Word) : Except Abort Word := unsignedRem (valA + valB) valC

def submodResult (valA valB valC : Word) : Except Abort Word := do
  let rem ← signedRem (valA - valB) valC
  signedRem (rem + valC) valC

def mulmodResult (valA valB valC : Word) : Except Abort Word := unsignedRem (valA * valB) valC

def mulimcResult (valA valB : Word) : Except Abort Word := .ok (valA * valB)

/-- The loop of INVMOD. The temporaries t, q, x0 and x1 are of type int: quotients
are cut to 32 bits, and val_a comes back sign-extended from one. -/
def invmodLoop (valA valB : Word) (x0 x1 : BitVec 32) : Except Abort (BitVec 32) :=
  if 1 < valA then
    if valB = 0 then .error .divideError
    else invmodLoop ((valB.setWidth 32).signExtend 64) (valA % valB) (x1 - (valA / valB).setWidth 32 * x0) x0
  else .ok x1
termination_by valB.toNat
decreasing_by
  rename_i positive
  have nonzero : valB.toNat ≠ 0 := fun same => positive (BitVec.eq_of_toNat_eq same)
  rw [BitVec.toNat_umod]
  exact Nat.mod_lt _ (Nat.pos_of_ne_zero nonzero)

def invmodResult (valA valB : Word) : Except Abort Word :=
  if valB = 1 then .ok 0
  else do
    let x1 ← invmodLoop valA valB 0 1
    let x1 := if x1.slt 0 then x1 + valB.setWidth 32 else x1
    return x1.signExtend 64

def cmpimcResult (valA valB : Word) : Except Abort Word := .ok (if valA = valB then 1 else 0)

end ImcOp

/-- memcpy of one operand address out of the packet's data. -/
def Packet.operand (pkt : Packet) (offset : Nat) : Except Abort Addr :=
  if offset + 8 ≤ pkt.data.length then .ok (BitVec.ofNat 64 (leNat ((pkt.data.drop offset).take 8)))
  else .error .outOfBounds

namespace AbstractMemory

def hostWord (mem : AbstractMemory) (address : Addr) : Except Abort Word := do
  let bytes ← mem.hostRead address 8
  return BitVec.ofNat 64 (leNat bytes)

def setHostWord (mem : AbstractMemory) (address : Addr) (value : Word) : Except Abort AbstractMemory :=
  mem.hostWrite address (leBytes 8 value.toNat)

/-- A handler with three operand words and a destination. -/
def ternary (result : Word → Word → Word → Except Abort Word) (mem : AbstractMemory) (addrA addrB addrC addrD : Addr) :
    Except Abort (AbstractMemory × List Effect) := do
  let valA ← mem.hostWord addrA
  let valB ← mem.hostWord addrB
  let valC ← mem.hostWord addrC
  let value ← result valA valB valC
  let mem ← mem.setHostWord addrD value
  return (mem, [.read (span addrA 8), .read (span addrB 8), .read (span addrC 8), .wrote (span addrD 8)])

/-- A handler with two operand words and a destination. -/
def binary (result : Word → Word → Except Abort Word) (mem : AbstractMemory) (addrA addrB addrC : Addr) :
    Except Abort (AbstractMemory × List Effect) := do
  let valA ← mem.hostWord addrA
  let valB ← mem.hostWord addrB
  let value ← result valA valB
  let mem ← mem.setHostWord addrC value
  return (mem, [.read (span addrA 8), .read (span addrB 8), .wrote (span addrC 8)])

def ternaryHandler (result : Word → Word → Word → Except Abort Word) (mem : AbstractMemory) (pkt : Packet) :
    Except Abort (AbstractMemory × List Effect) := do
  let addrA ← pkt.operand 0
  let addrB ← pkt.operand 8
  let addrC ← pkt.operand 16
  let addrD ← pkt.operand 24
  mem.ternary result addrA addrB addrC addrD

def binaryHandler (result : Word → Word → Except Abort Word) (mem : AbstractMemory) (pkt : Packet) :
    Except Abort (AbstractMemory × List Effect) := do
  let addrA ← pkt.operand 0
  let addrB ← pkt.operand 8
  let addrC ← pkt.operand 16
  mem.binary result addrA addrB addrC

def addmod := ternaryHandler ImcOp.addmodResult
def submod := ternaryHandler ImcOp.submodResult
def mulmod := ternaryHandler ImcOp.mulmodResult
def mulimc := binaryHandler ImcOp.mulimcResult
def invmod := binaryHandler ImcOp.invmodResult
def cmpimc := binaryHandler ImcOp.cmpimcResult

def handler : ImcOp → AbstractMemory → Packet → Except Abort (AbstractMemory × List Effect)
  | .addmod => addmod
  | .submod => submod
  | .mulmod => mulmod
  | .mulimc => mulimc
  | .invmod => invmod
  | .cmpimc => cmpimc

end AbstractMemory

/-- One use of the backing store, by an access or by a handler. -/
inductive MemoryUse where
  | access (pkt : Packet)
  | inMemory (op : ImcOp) (pkt : Packet)

def AbstractMemory.step : Step AbstractMemory MemoryUse Effect Abort := fun mem use =>
  match use with
  | .access pkt => do
    let (mem, _, effects) ← mem.access pkt
    return (mem, effects)
  | .inMemory op pkt => AbstractMemory.handler op mem pkt

end ImcGem5.Mem
