import ImcGem5.Lib.NodeList
import ImcGem5.Mem.Mshr
import ImcGem5.Mem.PacketQueue

/-! The queue of miss status holding registers: which entries are in use, and in which order
those wait that were not sent downstream. Draining, searches by address and functional
accesses are left out. -/

namespace ImcGem5.Mem
open Lib

/-- The iterator of a node that is gone, what the queue checks itself, and what its entries
check. -/
inductive QueueFault where
  | dangling
  | assertion (condition : String)
  | panic (message : String)
  | entry (abort : Abort)
  deriving DecidableEq, Repr

def MSHR.getNumTargets (mshr : MSHR) : Nat := mshr.targets.list.length + mshr.deferredTargets.list.length

def MSHR.delay (mshr : MSHR) (delayTicks curTick : Tick) : Except Abort MSHR := do
  require (mshr.readyTime ≤ curTick) "readyTime <= curTick()"
  return { mshr with readyTime := curTick + delayTicks }

/-- What a queue asks of its entries. -/
class QueueEntry (Entry : Type) where
  readyTime : Entry → Tick
  inService : Entry → Bool
  deallocate : Entry → Except Abort Entry

instance : QueueEntry MSHR where
  readyTime := MSHR.readyTime
  inService := MSHR.inService
  deallocate := MSHR.deallocate

structure Slot (Entry : Type) where
  entry : Entry
  readyIter : Nat
  allocIter : Nat

structure Queue (Entry : Type) where
  numEntries : Nat
  numReserve : Nat
  entries : Nat → Slot Entry
  allocatedList : NodeList Nat
  readyList : NodeList Nat
  freeList : List Nat
  numInService : Int
  allocated : Int

namespace Queue

def located {α : Type} : Option α → Except QueueFault α
  | some result => .ok result
  | none => .error .dangling

def checked (condition : Bool) (text : String) : Except QueueFault Unit :=
  if condition then .ok () else .error (.assertion text)

variable {Entry : Type}

def make (numEntries reserve : Nat) (entry : Entry) : Queue Entry where
  numEntries := numEntries + reserve
  numReserve := reserve
  entries := fun _ => { entry, readyIter := 0, allocIter := 0 }
  allocatedList := .empty
  readyList := .empty
  freeList := List.range (numEntries + reserve)
  numInService := 0
  allocated := 0

def isEmpty (queue : Queue Entry) : Bool := queue.allocated == 0

def isFull (queue : Queue Entry) : Bool := decide ((queue.numEntries : Int) - queue.numReserve ≤ queue.allocated)

def entry (queue : Queue Entry) (index : Nat) : Entry := (queue.entries index).entry

def setEntry (queue : Queue Entry) (index : Nat) (entry : Entry) : Queue Entry :=
  { queue with entries := Function.update queue.entries index { queue.entries index with entry } }

def setReadyIter (queue : Queue Entry) (index iterator : Nat) : Queue Entry :=
  { queue with entries := Function.update queue.entries index { queue.entries index with readyIter := iterator } }

def setAllocIter (queue : Queue Entry) (index iterator : Nat) : Queue Entry :=
  { queue with entries := Function.update queue.entries index { queue.entries index with allocIter := iterator } }

variable [QueueEntry Entry]

def readyTime (queue : Queue Entry) (index : Nat) : Tick := QueueEntry.readyTime (queue.entry index)

def inService (queue : Queue Entry) (index : Nat) : Bool := QueueEntry.inService (queue.entry index)

def addToReadyList (queue : Queue Entry) (index : Nat) : Except QueueFault (NodeList Nat × Nat) :=
  let atEnd := match queue.readyList.nodes.getLast? with
    | none => true
    | some back => decide (queue.readyTime back.2 ≤ queue.readyTime index)
  if atEnd then .ok (queue.readyList.insert none index)
  else match queue.readyList.nodes.find? fun node => decide (queue.readyTime index < queue.readyTime node.2) with
    | some node => .ok (queue.readyList.insert (some node.1) index)
    | none => .error (.panic "Failed to add to ready list.")

def getNext (queue : Queue Entry) (curTick : Tick) : Option Nat :=
  match queue.readyList.values.head? with
  | none => none
  | some front => if curTick < queue.readyTime front then none else some front

def nextReadyTime (queue : Queue Entry) : Tick :=
  match queue.readyList.values.head? with
  | none => maxTick
  | some front => queue.readyTime front

def deallocate (queue : Queue Entry) (index : Nat) : Except QueueFault (Queue Entry) := do
  let allocatedList ← located (queue.allocatedList.erase (queue.entries index).allocIter)
  let queue := { queue with allocatedList, freeList := index :: queue.freeList, allocated := queue.allocated - 1 }
  let queue ← (if queue.inService index then .ok { queue with numInService := queue.numInService - 1 }
    else do
      let readyList ← located (queue.readyList.erase (queue.entries index).readyIter)
      return { queue with readyList })
  let entry ← (QueueEntry.deallocate (queue.entry index)).mapError .entry
  return queue.setEntry index entry

end Queue

abbrev MSHRQueue := Queue MSHR

namespace MSHRQueue

def allocate (queue : MSHRQueue) (blkSize : Nat) (pkt : Packet) (above : Option Nat) (whenReady : Tick) (order : Nat)
    (allocOnFill : Bool) : Except QueueFault (MSHRQueue × Nat) :=
  match queue.freeList with
  | [] => .error (.assertion "!freeList.empty()")
  | mshr :: freeList => do
    (require ((queue.entry mshr).getNumTargets == 0) "mshr->getNumTargets() == 0").mapError .entry
    let (entry, _) ← ((queue.entry mshr).allocate blkSize pkt above whenReady order allocOnFill).mapError .entry
    let queue := { queue with freeList }.setEntry mshr entry
    let (allocatedList, allocIter) := queue.allocatedList.insert none mshr
    let queue := { queue with allocatedList }.setAllocIter mshr allocIter
    let (readyList, readyIter) ← queue.addToReadyList mshr
    let queue := { queue with readyList }.setReadyIter mshr readyIter
    return ({ queue with allocated := queue.allocated + 1 }, mshr)

def moveToFront (queue : MSHRQueue) (mshr : Nat) : Except QueueFault MSHRQueue :=
  if queue.inService mshr then .ok queue
  else do
    let node ← Queue.located (queue.readyList.node? (queue.entries mshr).readyIter)
    Queue.checked (node.2 == mshr) "mshr == *(mshr->readyIter)"
    let readyList ← Queue.located (queue.readyList.erase (queue.entries mshr).readyIter)
    let (readyList, readyIter) := readyList.insert (readyList.nodes.head?.map Prod.fst) mshr
    return { queue with readyList }.setReadyIter mshr readyIter

def delay (queue : MSHRQueue) (mshr : Nat) (delayTicks curTick : Tick) : Except QueueFault MSHRQueue := do
  let entry ← ((queue.entry mshr).delay delayTicks curTick).mapError .entry
  let queue := queue.setEntry mshr entry
  let position := queue.readyList.findFrom (queue.entries mshr).readyIter fun other => decide (queue.readyTime other ≤ queue.readyTime mshr)
  let readyList ← Queue.located (queue.readyList.splice position (queue.entries mshr).readyIter)
  return { queue with readyList }

def markInService (queue : MSHRQueue) (mshr : Nat) (pendingModifiedResp : Bool) : Except QueueFault MSHRQueue := do
  let entry ← ((queue.entry mshr).markInService pendingModifiedResp).mapError .entry
  let queue := queue.setEntry mshr entry
  let readyList ← Queue.located (queue.readyList.erase (queue.entries mshr).readyIter)
  return { queue with readyList, numInService := queue.numInService + 1 }

def markPending (queue : MSHRQueue) (mshr : Nat) : Except QueueFault MSHRQueue := do
  Queue.checked (queue.inService mshr) "mshr->inService"
  let entry := { queue.entry mshr with inService := false }
  let queue := { queue with numInService := queue.numInService - 1 }.setEntry mshr entry
  let (readyList, readyIter) ← queue.addToReadyList mshr
  return { queue with readyList }.setReadyIter mshr readyIter

end MSHRQueue

inductive MSHRQueueOp where
  | allocate (blkSize : Nat) (pkt : Packet) (above : Option Nat) (whenReady : Tick) (order : Nat) (allocOnFill : Bool)
  | deallocate (mshr : Nat)
  | moveToFront (mshr : Nat)
  | delay (mshr : Nat) (delayTicks curTick : Tick)
  | markInService (mshr : Nat) (pendingModifiedResp : Bool)
  | markPending (mshr : Nat)
  | change (mshr : Nat) (entry : MSHR)

/-- The label is the MSHR that `allocate` returns. -/
def MSHRQueue.step : Step MSHRQueue MSHRQueueOp Nat QueueFault
  | queue, .allocate blkSize pkt above whenReady order allocOnFill => do
    let (queue, mshr) ← MSHRQueue.allocate queue blkSize pkt above whenReady order allocOnFill
    return (queue, [mshr])
  | queue, .deallocate mshr => do return (← Queue.deallocate queue mshr, [])
  | queue, .moveToFront mshr => do return (← MSHRQueue.moveToFront queue mshr, [])
  | queue, .delay mshr delayTicks curTick => do return (← MSHRQueue.delay queue mshr delayTicks curTick, [])
  | queue, .markInService mshr pendingModifiedResp => do return (← MSHRQueue.markInService queue mshr pendingModifiedResp, [])
  | queue, .markPending mshr => do return (← MSHRQueue.markPending queue mshr, [])
  | queue, .change mshr entry => .ok (queue.setEntry mshr entry, [])

/-- How the cache calls them: a new entry while one is free, and the others on entries in use, a delay before the
request is sent and a return to the queue after. -/
def MSHRQueue.Called (queue : MSHRQueue) : MSHRQueueOp → Prop
  | .allocate .. => queue.freeList ≠ []
  | .deallocate mshr | .moveToFront mshr | .markInService mshr _ => mshr ∈ queue.allocatedList.values
  | .delay mshr _ _ => mshr ∈ queue.allocatedList.values ∧ queue.inService mshr = false
  | .markPending mshr => mshr ∈ queue.allocatedList.values ∧ queue.inService mshr = true
  | .change mshr entry => mshr ∈ queue.allocatedList.values ∧ entry.inService = queue.inService mshr

instance (queue : MSHRQueue) : ∀ op, Decidable (MSHRQueue.Called queue op)
  | .allocate .. => inferInstanceAs (Decidable (queue.freeList ≠ []))
  | .deallocate mshr | .moveToFront mshr | .markInService mshr _ => inferInstanceAs (Decidable (mshr ∈ queue.allocatedList.values))
  | .delay mshr _ _ => inferInstanceAs (Decidable (mshr ∈ queue.allocatedList.values ∧ queue.inService mshr = false))
  | .markPending mshr => inferInstanceAs (Decidable (mshr ∈ queue.allocatedList.values ∧ queue.inService mshr = true))
  | .change mshr entry =>
    inferInstanceAs (Decidable (mshr ∈ queue.allocatedList.values ∧ entry.inService = queue.inService mshr))

end ImcGem5.Mem
