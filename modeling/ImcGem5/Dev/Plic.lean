import ImcGem5.Lib.Containers
import ImcGem5.Mem.Controller
import ImcGem5.Riscv.Csr

/-! The platform-level interrupt controller. A source's priority reaches a context through
pendingPriority and effPriority; the largest of them is put in a queue of outputs, and three
cycles later becomes the output that the interrupt lines follow. An access to the register
bank is given by the registers it touches, so that the map of their addresses is left out.
Checkpoints are left out as well. -/

namespace ImcGem5.Dev
open Lib Mem Riscv

abbrev Word := BitVec 32

/-- The number of sources is an int. -/
structure PlicParams where
  nSrc : Nat
  nContext : Nat
  period : Tick
  isInt : nSrc < 2 ^ 31

/-- divCeil(nSrc, 32) -/
def PlicParams.nSrc32 (params : PlicParams) : Nat := (params.nSrc + 31) / 32

structure PlicOutput (params : PlicParams) where
  maxID : Fin params.nContext → Word
  maxPriority : Fin params.nContext → Word

/-- The registers come first, then the latency model. `update` is the tick of the update event
while it is scheduled, and `ip` has the interrupts posted to each thread. -/
structure Plic (params : PlicParams) where
  priority : Fin params.nSrc → Word := fun _ => 0
  pending : Fin params.nSrc32 → Word := fun _ => 0
  enable : Fin params.nContext → Fin params.nSrc32 → Word := fun _ _ => 0
  threshold : Fin params.nContext → Word := fun _ => 0
  claim : Fin params.nContext → Word := fun _ => 0
  pendingPriority : Fin params.nSrc → Word := fun _ => 0
  effPriority : Fin params.nContext → Fin params.nSrc → Word := fun _ _ => 0
  lastID : Fin params.nContext → Word := fun _ => 0
  output : PlicOutput params := ⟨fun _ => 0, fun _ => 0⟩
  outputQueue : List (Tick × PlicOutput params) := []
  update : Option Tick := none
  ip : Nat → BitVec NumInterruptTypes := fun _ => 0
  curTick : Tick := 0

/-- A register of the bank. The reserved space and the holes read as zero. -/
inductive PlicRegister (params : PlicParams) where
  | priority (src_id : Fin params.nSrc)
  | pending (src32_id : Fin params.nSrc32)
  | enable (context_id : Fin params.nContext) (src32_id : Fin params.nSrc32)
  | threshold (context_id : Fin params.nContext)
  | claim (context_id : Fin params.nContext)
  | raz

/-- What a packet touches of a register: all of it, or the bits from `first` down to `last`. -/
structure PlicAccess (params : PlicParams) where
  register : PlicRegister params
  part : Option (Nat × Nat) := none

/-- A packet holds one word of data for each access; a swap has an operation on its data. -/
structure PlicPacket (params : PlicParams) where
  accesses : List (PlicAccess params)
  data : List Word := []
  atomicOp : Option (List Word → List Word) := none

def bitRange (first last : Nat) : Word := BitVec.ofNat 32 (2 ^ (first + 1) - 2 ^ last)

def writeWithMask (old new mask : Word) : Word := old &&& ~~~mask ||| new &&& mask

namespace Plic
variable {params : PlicParams}

/-- `src_id >> 5` and `src_id & 0x1F`, the register of a source and its bit there. -/
def srcIndex (src_id : Fin params.nSrc) : Fin params.nSrc32 := ⟨src_id / 32, by
  have inside := src_id.isLt
  unfold PlicParams.nSrc32
  omega⟩

def srcOffset (src_id : Fin params.nSrc) : Nat := src_id % 32

def isPending (plic : Plic params) (src_id : Fin params.nSrc) : Bool :=
  (plic.pending (srcIndex src_id)).getLsbD (srcOffset src_id)

def isEnabled (plic : Plic params) (context_id : Fin params.nContext) (src_id : Fin params.nSrc) : Bool :=
  (plic.enable context_id (srcIndex src_id)).getLsbD (srcOffset src_id)

/-- The loop of propagateOutput over the contexts. -/
def outputs (effPriority : Fin params.nContext → Fin params.nSrc → Word) : PlicOutput params where
  maxID i := ((maxElement fun src_id => (effPriority i src_id).toNat).map fun max_id => BitVec.ofNat 32 max_id).getD 0
  maxPriority i := ((maxElement fun src_id => (effPriority i src_id).toNat).map (effPriority i)).getD 0

/-- A context without sources has no element to read. -/
def newOutput (plic : Plic params) : Except Abort (PlicOutput params) :=
  if params.nSrc = 0 ∧ params.nContext ≠ 0 then .error .outOfBounds else .ok (outputs plic.effPriority)

def propagateOutput (plic : Plic params) : Except Abort (Plic params) := do
  let new_output ← plic.newOutput
  let next_update := plic.curTick + 3 * params.period
  let update ← (if plic.update.isNone then schedule plic.curTick plic.update next_update else .ok plic.update)
  return { plic with
    outputQueue := assign next_update new_output plic.outputQueue
    update }

/-- The interrupt of a context, on thread `context_id >> 1`. -/
def intId (context_id : Nat) : Nat := if context_id % 2 = 1 then INT_EXT_SUPER else INT_EXT_MACHINE

def postInterrupt (ip : Nat → BitVec NumInterruptTypes) (thread_id int_id : Nat) : Nat → BitVec NumInterruptTypes :=
  Function.update ip thread_id (ip thread_id ||| BitVec.ofNat NumInterruptTypes 1 <<< int_id)

def clearInterrupt (ip : Nat → BitVec NumInterruptTypes) (thread_id int_id : Nat) : Nat → BitVec NumInterruptTypes :=
  Function.update ip thread_id (ip thread_id &&& ~~~(BitVec.ofNat NumInterruptTypes 1 <<< int_id))

/-- Whether updateInt posts the interrupt of a context. -/
def raises (plic : Plic params) (i : Fin params.nContext) : Bool :=
  plic.threshold i < plic.output.maxPriority i && plic.output.maxID i > 0 && plic.lastID i == 0

def updateLine (plic : Plic params) (ip : Nat → BitVec NumInterruptTypes) (i : Fin params.nContext) :
    Nat → BitVec NumInterruptTypes :=
  if plic.raises i then postInterrupt ip (i / 2) (intId i) else clearInterrupt ip (i / 2) (intId i)

def updateInt (plic : Plic params) : Plic params :=
  { plic with ip := (List.finRange params.nContext).foldl plic.updateLine plic.ip }

/-- post, once the source is known to be one. -/
def postSource (plic : Plic params) (src_id : Fin params.nSrc) : Except Abort (Plic params) :=
  let pending := Function.update plic.pending (srcIndex src_id)
    (plic.pending (srcIndex src_id) ||| 1#32 <<< srcOffset src_id)
  let value := plic.priority src_id
  propagateOutput { plic with
    pending
    pendingPriority := Function.update plic.pendingPriority src_id value
    effPriority := fun i => Function.update (plic.effPriority i) src_id (if plic.isEnabled i src_id then value else 0) }

def post (plic : Plic params) (src_id : Int) : Except Abort (Plic params) :=
  if inside : src_id < params.nSrc ∧ 0 ≤ src_id then plic.postSource ⟨src_id.toNat, by omega⟩
  else .error (.assertion "src_id < nSrc && src_id >= 0")

def clearSource (plic : Plic params) (src_id : Fin params.nSrc) : Except Abort (Plic params) :=
  let pending := Function.update plic.pending (srcIndex src_id)
    (plic.pending (srcIndex src_id) &&& ~~~(1#32 <<< srcOffset src_id))
  propagateOutput { plic with
    pending
    pendingPriority := Function.update plic.pendingPriority src_id 0
    effPriority := fun i => Function.update (plic.effPriority i) src_id 0 }

def clear (plic : Plic params) (src_id : Int) : Except Abort (Plic params) :=
  if below : src_id < params.nSrc then
    if above : 0 ≤ src_id then plic.clearSource ⟨src_id.toNat, by omega⟩
    else .error (.assertion "src_id >= 0")
  else .error (.assertion "src_id < nSrc")

def writePriority (plic : Plic params) (data : Word) (src_id : Fin params.nSrc) : Plic params :=
  let value := if plic.isPending src_id then data else 0
  { plic with
    priority := Function.update plic.priority src_id data
    pendingPriority := Function.update plic.pendingPriority src_id value
    effPriority := fun i => Function.update (plic.effPriority i) src_id (if plic.isEnabled i src_id then value else 0) }

/-- The sources whose bits are in the register are those with its index. -/
def writeEnable (plic : Plic params) (data : Word) (src32_id : Fin params.nSrc32) (context_id : Fin params.nContext) :
    Plic params :=
  { plic with
    enable := Function.update plic.enable context_id (Function.update (plic.enable context_id) src32_id data)
    effPriority := Function.update plic.effPriority context_id fun src_id =>
      if srcIndex src_id = src32_id then
        if data.getLsbD (srcOffset src_id) then plic.pendingPriority src_id else 0
      else plic.effPriority context_id src_id }

def writeThreshold (plic : Plic params) (data : Word) (context_id : Fin params.nContext) : Plic params :=
  { plic with threshold := Function.update plic.threshold context_id data }

def readClaim (plic : Plic params) (context_id : Fin params.nContext) : Except Abort (Plic params × Word) := do
  if plic.lastID context_id = 0 then
    let max_int_id := plic.output.maxID context_id
    if inside : max_int_id.toNat / 32 < params.nSrc32 then
      if (plic.pending ⟨max_int_id.toNat / 32, inside⟩).getLsbD (max_int_id.toNat % 32) then
        let plic ← clear { plic with lastID := Function.update plic.lastID context_id max_int_id } max_int_id.toInt
        return ({ plic with claim := Function.update plic.claim context_id max_int_id }, max_int_id)
      else return (plic, 0)
    else .error .outOfBounds
  else return (plic, plic.lastID context_id)

def writeClaim (plic : Plic params) (data : Word) (context_id : Fin params.nContext) : Except Abort (Plic params) := do
  let claim := Function.update plic.claim context_id data
  require (plic.lastID context_id == data) "lastID[context_id] == reg.get()"
  return updateInt { plic with
    claim
    lastID := Function.update plic.lastID context_id 0 }

def readRegister (plic : Plic params) : PlicRegister params → Except Abort (Plic params × Word)
  | .priority src_id => .ok (plic, plic.priority src_id)
  | .pending src32_id => .ok (plic, plic.pending src32_id)
  | .enable context_id src32_id => .ok (plic, plic.enable context_id src32_id)
  | .threshold context_id => .ok (plic, plic.threshold context_id)
  | .claim context_id => plic.readClaim context_id
  | .raz => .ok (plic, 0)

/-- The writer of a register. The pending registers are read only. -/
def writeRegister (plic : Plic params) (data : Word) : PlicRegister params → Except Abort (Plic params)
  | .priority src_id => .ok (plic.writePriority data src_id)
  | .pending _ => .ok plic
  | .enable context_id src32_id => .ok (plic.writeEnable data src32_id context_id)
  | .threshold context_id => .ok (plic.writeThreshold data context_id)
  | .claim context_id => plic.writeClaim data context_id
  | .raz => .ok plic

def readAccess (plic : Plic params) (access : PlicAccess params) : Except Abort (Plic params × Word) := do
  let (plic, data) ← plic.readRegister access.register
  match access.part with
  | none => return (plic, data)
  | some (first, last) => return (plic, data &&& bitRange first last)

/-- A partial write reads the register first, with what that does to a claim. -/
def writeAccess (plic : Plic params) (access : PlicAccess params) (data : Word) : Except Abort (Plic params) := do
  match access.part with
  | none => plic.writeRegister data access.register
  | some (first, last) =>
    let (plic, old) ← plic.readRegister access.register
    plic.writeRegister (writeWithMask old data (bitRange first last)) access.register

def readBank (plic : Plic params) : List (PlicAccess params) → Except Abort (Plic params × List Word)
  | [] => .ok (plic, [])
  | access :: accesses => do
    let (plic, data) ← plic.readAccess access
    let (plic, rest) ← plic.readBank accesses
    return (plic, data :: rest)

def writeBank (plic : Plic params) : List (PlicAccess params) → List Word → Except Abort (Plic params)
  | [], _ => .ok plic
  | _ :: _, [] => .error .outOfBounds
  | access :: accesses, data :: rest => do
    let plic ← plic.writeAccess access data
    plic.writeBank accesses rest

def write (plic : Plic params) (pkt : PlicPacket params) : Except Abort (Plic params) := do
  let plic ← plic.writeBank pkt.accesses pkt.data
  let plic ← plic.propagateOutput
  return plic.updateInt

/-- The data is kept only as far as a swap needs it for its write. -/
def read (plic : Plic params) (pkt : PlicPacket params) : Except Abort (Plic params) := do
  let (plic, data) ← plic.readBank pkt.accesses
  match pkt.atomicOp with
  | none => return plic
  | some atomicOp => plic.write { pkt with data := atomicOp data }

/-- The body of the update event, which is not scheduled while it runs. -/
def updateOutput (plic : Plic params) : Except Abort (Plic params) := do
  match plic.outputQueue with
  | [] => .error .outOfBounds
  | (_, output) :: outputQueue =>
    let update ← (match outputQueue with
      | [] => .ok none
      | (next, _) :: _ => schedule plic.curTick none next)
    return updateInt { plic with
      output
      outputQueue
      update }

end Plic

inductive PlicEvent (params : PlicParams) where
  | post (src_id : Int)
  | clear (src_id : Int)
  | read (pkt : PlicPacket params)
  | write (pkt : PlicPacket params)
  | update

structure PlicCall (params : PlicParams) where
  now : Tick
  event : PlicEvent params

namespace Plic
variable {params : PlicParams}

def handle (plic : Plic params) : PlicEvent params → Except Abort (Plic params)
  | .post src_id => plic.post src_id
  | .clear src_id => plic.clear src_id
  | .read pkt => plic.read pkt
  | .write pkt => plic.write pkt
  | .update => plic.updateOutput

def step : Step (Plic params) (PlicCall params) Unit Abort := fun plic call => do
  let plic ← handle { plic with curTick := call.now } call.event
  return (plic, [])

/-- Time does not go back, the update event runs while it is scheduled, and source 0, which
means no interrupt, is not used. -/
def allowed (plic : Plic params) (call : PlicCall params) : Prop :=
  plic.curTick ≤ call.now ∧
    (match call.event with
    | .post src_id => decide (1 ≤ src_id)
    | .clear src_id => decide (1 ≤ src_id)
    | .update => plic.update.isSome
    | _ => true) = true

instance (plic : Plic params) (call : PlicCall params) : Decidable (plic.allowed call) :=
  inferInstanceAs (Decidable (_ ∧ _))

/-- The external interrupt of a context is posted. -/
def posted (plic : Plic params) (i : Fin params.nContext) : Bool := (plic.ip (i / 2)).getLsbD (intId i)

end Plic

end ImcGem5.Dev
