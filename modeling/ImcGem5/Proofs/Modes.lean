import ImcGem5.Isa.Instruction
import ImcGem5.Proofs.Dispatch
import ImcGem5.Proofs.InMemory

/-! The six ways into a memory. In-memory operations were written into three of them;
the other three let the packet fall through to an ordinary write, which stores the
operand addresses at the address of the packet. -/

namespace ImcGem5.Mem.Proofs
open Lib

inductive Mode where
  | simpleAtomic | simpleFunctional | simpleTiming | pimAtomic | pimFunctional | pimTiming
  deriving DecidableEq, Repr

def memoryAfter (mode : Mode) (ctrl : MemCtrl) (now : Tick) (random : Nat) (pkt : Packet) : Except Abort AbstractMemory :=
  match mode with
  | .simpleAtomic => (SimpleMemory.recvAtomic ctrl pkt).map (·.1.mem)
  | .simpleFunctional => (SimpleMemory.recvFunctional ctrl pkt).map (·.1.mem)
  | .simpleTiming => (SimpleMemory.recvTimingReq ctrl now random pkt).map (·.1.mem)
  | .pimAtomic => (PIMCtrl.recvAtomic ctrl pkt).map (·.1.mem)
  | .pimFunctional => (PIMCtrl.recvFunctional ctrl pkt).map (·.1.mem)
  | .pimTiming => (PIMCtrl.recvTimingReq ctrl now random pkt).map (·.1.mem)

def computes : Mode → Bool
  | .simpleFunctional | .simpleTiming | .pimTiming => true
  | .simpleAtomic | .pimAtomic | .pimFunctional => false

/-- A request for an operation, whose operands are in the memory and whose result is
defined, at a controller that takes it. -/
structure Requested (op : ImcOp) (ctrl : MemCtrl) (pkt : Packet) (value : Word) : Prop where
  dispatched : dispatch pkt.req.flags = some op
  accepts : Accepts ctrl pkt
  unscheduled : ctrl.releaseEvent = none
  needs : pkt.needsResponse = true
  fits : Fits op ctrl.mem pkt
  computed : result op ctrl.mem pkt = .ok value

/-- In this mode every request for the operation leaves its result at the destination
and everything else as it was. -/
def Agrees (mode : Mode) (op : ImcOp) : Prop :=
  ∀ ctrl now random pkt value, Requested op ctrl pkt value →
    memoryAfter mode ctrl now random pkt = .ok (stored op ctrl.mem pkt value)

theorem timing_agrees {op : ImcOp} {ctrl : MemCtrl} {pkt : Packet} {value : Word} (requested : Requested op ctrl pkt value)
    (now : Tick) (random : Nat) :
    (ctrl.recvTimingReq now random pkt).map (·.1.mem) = .ok (stored op ctrl.mem pkt value) := by
  obtain ⟨dispatched, accepts, unscheduled, _, fits, computed⟩ := requested
  obtain ⟨_, occupied⟩ := occupy_ok unscheduled now pkt
  have same := (occupy_same occupied).mem
  rw [recvTimingReq_serve accepts, pathOf, dispatched, serve, occupied]
  simp only [Option.elim, ok_bind]
  rw [same, handler_eq fits, computed]
  rfl

theorem functional_agrees {op : ImcOp} {ctrl : MemCtrl} {pkt : Packet} {value : Word} (requested : Requested op ctrl pkt value) :
    (SimpleMemory.recvFunctional ctrl pkt).map (·.1.mem) = .ok (stored op ctrl.mem pkt value) := by
  obtain ⟨dispatched, _, _, needs, fits, computed⟩ := requested
  unfold SimpleMemory.recvFunctional
  rw [dispatched]
  dsimp only
  rw [handler_eq fits, computed]
  simp only [ok_bind, (Packet.makeResponse_ok needs).1]
  rfl

def wideMemory : MemCtrl :=
  { idleMemory with mem := { idleMemory.mem with
      range := ⟨0, 0x200000⟩
      pmem := fun paddr => if paddr = 16 then 7 else 0 } }

def operandsFrom (op : ImcOp) : List Addr := if arity op = 3 then [0, 8, 16, 24] else [0, 8, 24]

def wideResult : ImcOp → Word
  | .addmod | .submod | .mulmod | .mulimc => 0
  | .invmod | .cmpimc => 1

theorem wide_requested (op : ImcOp) : Requested op wideMemory (Isa.imcPacket 0 op (operandsFrom op)) (wideResult op) := by
  refine ⟨?_, ⟨rfl, rfl, rfl, ?_⟩, rfl, ?_, ⟨?_, ?_⟩, ?_⟩
  · cases op <;> rfl
  · cases op <;> rfl
  · cases op <;> rfl
  · cases op <;> decide
  · cases op <;> decide
  · cases op with
    | invmod =>
      -- the first word is zero, so the loop ends before its first round
      have ended : ImcOp.invmodLoop 0 0 0 1 = .ok 1 := by
        rw [ImcOp.invmodLoop, if_neg (by decide)]
      have words : result .invmod wideMemory.mem (Isa.imcPacket 0 .invmod (operandsFrom .invmod)) = ImcOp.invmodResult 0 0 := rfl
      rw [words, ImcOp.invmodResult, if_neg (by decide), ended]
      rfl
    | _ => decide

theorem wide_overwritten (op : ImcOp) {mode : Mode} (silent : computes mode = false) :
    (memoryAfter mode wideMemory 0 0 (Isa.imcPacket 0 op (operandsFrom op))).map
      (fun mem => mem.pmem.word 0x00100108) = .ok 8 := by
  cases mode with
  | simpleAtomic | pimAtomic | pimFunctional => cases op <;> rfl
  | simpleFunctional | simpleTiming | pimTiming => cases silent

theorem not_agrees {mode : Mode} (silent : computes mode = false) (op : ImcOp) : ¬ Agrees mode op := by
  intro agrees
  have left := agrees wideMemory 0 0 _ _ (wide_requested op)
  have overwritten := wide_overwritten op silent
  rw [left] at overwritten
  have untouched : (stored op wideMemory.mem (Isa.imcPacket 0 op (operandsFrom op)) (wideResult op)).pmem.word 0x00100108 ≠ 8 := by
    cases op <;> decide
  exact untouched (Except.ok.inj overwritten)

/-- A mode leaves the result of every operation exactly if its code tests the flags. -/
theorem agrees_iff (mode : Mode) (op : ImcOp) : Agrees mode op ↔ computes mode = true := by
  constructor
  · intro agrees
    by_contra silent
    exact not_agrees (by simpa using silent) op agrees
  · intro computing ctrl now random pkt value requested
    cases mode with
    | simpleFunctional => exact functional_agrees requested
    | simpleTiming | pimTiming => exact timing_agrees requested now random
    | simpleAtomic | pimAtomic | pimFunctional => cases computing

/-- A CMPIMC packet of two zero words at PIMCtrl::recvAtomic: the destination keeps its
zero, and the operand address 8 is written into the packet's own range. -/
theorem atomic_cmpimc_disagrees :
    Requested .cmpimc wideMemory (Isa.imcPacket 0 .cmpimc [0, 8, 24]) 1 ∧
      ((memoryAfter .pimAtomic wideMemory 0 0 (Isa.imcPacket 0 .cmpimc [0, 8, 24])).map
        fun mem => (mem.pmem.word 24, mem.pmem.word 0x00100108)) = .ok (0, 8) ∧
      ¬ Agrees .pimAtomic .cmpimc :=
  ⟨wide_requested .cmpimc, rfl, not_agrees rfl .cmpimc⟩

end ImcGem5.Mem.Proofs
