import ImcGem5.Isa.Instruction

/-! Harts that share one memory: in-memory instructions of any hart interleave with
everything else that can happen at the controller. -/

namespace ImcGem5.Isa
open Lib Mem

abbrev HartID := Nat

/-- Requests are distinct objects: the request of an instruction is none of those
that other components send, however often they send theirs again. -/
def instRequest (index : Nat) : Nat := 2 * index + 1
def otherRequest (index : Nat) : Nat := 2 * index

def renamed (pkt : Packet) : Packet := { pkt with req := { pkt.req with id := otherRequest pkt.req.id } }

def renamedEvent : MemEvent → MemEvent
  | .recvTimingReq now random pkt => .recvTimingReq now random (renamed pkt)
  | .release => .release
  | .dequeue now during taken => .dequeue now (during.map fun offer => (offer.1, renamed offer.2)) taken
  | .recvRespRetry now during taken => .recvRespRetry now (during.map fun offer => (offer.1, renamed offer.2)) taken

/-- `executed` counts the in-memory instructions so far, over all harts. -/
structure Harts where
  ctrl : MemCtrl
  executed : Nat := 0

inductive HartEvent where
  | memory (event : MemEvent)
  | instruction (hart : HartID) (inst : ImcInst) (regs : RegFile) (now : Tick) (random : Nat)

/-- An instruction that completed without a fault, or what the memory did. -/
inductive HartLabel where
  | completed (hart : HartID) (request : Nat)
  | memory (label : MemLabel)

def Harts.step {φ : Type} (mmu : HartID → Translation φ) : Step Harts HartEvent HartLabel Abort := fun harts event =>
  match event with
  | .memory event => do
    let (ctrl, labels) ← harts.ctrl.step (renamedEvent event)
    return ({ harts with ctrl }, labels.map .memory)
  | .instruction hart inst regs now random => do
    let request := instRequest harts.executed
    let (ctrl, fault, labels) ← inst.execute (mmu hart) regs request harts.ctrl now random
    let completed := match fault with
      | none => [.completed hart request]
      | some _ => []
    return (⟨ctrl, harts.executed + 1⟩, labels.map .memory ++ completed)

end ImcGem5.Isa
