import ImcGem5.Lib.Heap
import ImcGem5.Mem.PacketQueue
import Mathlib.Data.Finset.Card

/-! MemCtrl of the DRAM controller, with one priority level and without policies of
quality of service: read and write queues of bursts, and responses that wait for their
ready times. The memory interface chooses among the queued bursts and says when they are
ready; what it does with banks and ranks, the data of an access, the times that go into
latencies and the queue of the port are left out. -/

namespace ImcGem5.Mem.Dram
open Lib

inductive BusState where
  | read | write
  deriving DecidableEq, Repr

structure Params where
  readBufferSize : Nat
  writeBufferSize : Nat
  writeHighThreshPerc : Nat
  writeLowThreshPerc : Nat
  minWritesPerSwitch : Nat
  minReadsPerSwitch : Nat
  frontendLatency : Tick
  backendLatency : Tick
  /-- bytesPerBurst -/
  burstSize : BitVec 32
  /-- getAddrRange().contains -/
  contains : Addr → Bool

namespace Params

/-- The products of the thresholds are 32-bit in the source, which no buffer of less than
2 ^ 25 entries makes wrap. -/
def writeHighThreshold (params : Params) : Nat := params.writeBufferSize * params.writeHighThreshPerc / 100

def writeLowThreshold (params : Params) : Nat := params.writeBufferSize * params.writeLowThreshPerc / 100

def burstMask (params : Params) : Addr := (params.burstSize - 1).setWidth 64

def burstAlign (params : Params) (addr : Addr) : Addr := addr &&& ~~~params.burstMask

end Params

/-- A packet and the requestor it is from. -/
structure Incoming where
  pkt : Packet
  requestorId : Nat

def Incoming.size (incoming : Incoming) : BitVec 32 := BitVec.ofNat 32 incoming.pkt.size

structure BurstHelper where
  burstCount : Nat
  burstsServiced : Nat := 0
  deriving DecidableEq, Repr

structure MemPacket where
  readyTime : Tick
  pkt : Incoming
  addr : Addr
  size : Nat
  burstHelper : Option Nat := none

structure MemCtrl where
  readQueue : List MemPacket := []
  writeQueue : List MemPacket := []
  respQueue : List MemPacket := []
  isInWriteQueue : Finset Addr := ∅
  helpers : Heap BurstHelper := ⟨fun _ => none, 0⟩
  totalReadQueueSize : Nat := 0
  totalWriteQueueSize : Nat := 0
  readQueueSize : Nat := 0
  writeQueueSize : Nat := 0
  readsThisTime : Nat := 0
  writesThisTime : Nat := 0
  busState : BusState := .read
  busStateNext : BusState := .read
  packetPriorities : Nat → Nat := fun _ => 0
  requestTimes : Nat × Addr → Nat := fun _ => 0
  retryRdReq : Bool := false
  retryWrReq : Bool := false
  nextReqEvent : Option Tick := none
  respondEvent : Option Tick := none
  /-- `drainState() == DrainState::Draining` -/
  draining : Bool := false

inductive Label where
  | refused (incoming : Incoming)
  | accepted (incoming : Incoming)
  /-- A burst that was made for a packet, and whether the write queue had it already. -/
  | burst (incoming : Incoming) (addr : Addr) (size : Nat) (found : Bool)
  | served (incoming : Incoming) (addr : Addr)
  | responded (incoming : Incoming) (due : Tick)
  | sentRetry
  | drainDone

/-- How many bursts a packet needs, in unsigned numbers. -/
def packetCount (params : Params) (incoming : Incoming) : Nat :=
  let offset := (incoming.pkt.addr &&& params.burstMask).setWidth 32
  ((offset + incoming.size + params.burstSize - 1) / params.burstSize).toNat

/-- The addresses and sizes that the loops over the bursts of a packet have. -/
def burstsFrom (params : Params) (incoming : Incoming) : Nat → Addr → List (Addr × Nat)
  | 0, _ => []
  | count + 1, addr =>
    let next := (addr ||| params.burstMask) + 1
    let stop := incoming.pkt.addr + incoming.size.setWidth 64
    let size := (if stop < next then stop else next) - addr
    (addr, (size.setWidth 32).toNat) :: burstsFrom params incoming count next

def bursts (params : Params) (incoming : Incoming) : List (Addr × Nat) :=
  burstsFrom params incoming (packetCount params incoming) incoming.pkt.addr

namespace MemCtrl

def readQueueFull (params : Params) (ctrl : MemCtrl) (neededEntries : Nat) : Bool :=
  decide (ctrl.totalReadQueueSize + ctrl.respQueue.length + neededEntries > params.readBufferSize)

def writeQueueFull (params : Params) (ctrl : MemCtrl) (neededEntries : Nat) : Bool :=
  decide (ctrl.totalWriteQueueSize + neededEntries > params.writeBufferSize)

/-- logRequest of one entry. -/
def logRequest (ctrl : MemCtrl) (dir : BusState) (id : Nat) (addr : Addr) : MemCtrl :=
  let ctrl := match dir with
    | .read => { ctrl with totalReadQueueSize := ctrl.totalReadQueueSize + 1 }
    | .write => { ctrl with totalWriteQueueSize := ctrl.totalWriteQueueSize + 1 }
  { ctrl with
    packetPriorities := Function.update ctrl.packetPriorities id (ctrl.packetPriorities id + 1)
    requestTimes := Function.update ctrl.requestTimes (id, addr) (ctrl.requestTimes (id, addr) + 1) }

def logResponse (ctrl : MemCtrl) (dir : BusState) (id : Nat) (addr : Addr) : Except Abort MemCtrl := do
  let ctrl := match dir with
    | .read => { ctrl with totalReadQueueSize := ctrl.totalReadQueueSize - 1 }
    | .write => { ctrl with totalWriteQueueSize := ctrl.totalWriteQueueSize - 1 }
  panicIf (ctrl.packetPriorities id == 0) "qos::MemCtrl::logResponse requestor negative packets for priority"
  panicIf (ctrl.requestTimes (id, addr) == 0) "qos::MemCtrl::logResponse requestor unmatched response for address received"
  return { ctrl with
    packetPriorities := Function.update ctrl.packetPriorities id (ctrl.packetPriorities id - 1)
    requestTimes := Function.update ctrl.requestTimes (id, addr) (ctrl.requestTimes (id, addr) - 1) }

def accessAndRespond (params : Params) (now : Tick) (incoming : Incoming) (staticLatency : Tick) : Except Abort (List Label) := do
  let needsResponse := incoming.pkt.needsResponse
  panicIf (!params.contains incoming.pkt.addr) "Can't handle address range for packet"
  if needsResponse then
    let pkt ← incoming.pkt.makeResponse
    require pkt.isResponse "pkt->isResponse()"
    return [.responded incoming (now + staticLatency + pkt.headerDelay + pkt.payloadDelay)]
  else return []

/-- Whether an entry of the write queue has all of a burst. -/
def foundInWrQ (params : Params) (ctrl : MemCtrl) (addr : Addr) (size : Nat) : Bool :=
  decide (params.burstAlign addr ∈ ctrl.isInWriteQueue) &&
    ctrl.writeQueue.any fun p => decide (p.addr ≤ addr) && decide (addr + BitVec.ofNat 64 size ≤ p.addr + BitVec.ofNat 64 p.size)

/-- What the loop of addToReadQueue carries: the controller, the bursts that the write
queue has, and the helper once there is one. -/
structure Reading where
  ctrl : MemCtrl
  pktsServicedByWrQ : Nat := 0
  burstHelper : Option Nat := none
  labels : List Label := []

def addReadBurst (params : Params) (incoming : Incoming) (pktCount : Nat) (reading : Reading) (burst : Addr × Nat) :
    Except Abort Reading := do
  let (addr, size) := burst
  if foundInWrQ params reading.ctrl addr size then
    return { reading with
      pktsServicedByWrQ := reading.pktsServicedByWrQ + 1
      labels := reading.labels ++ [.burst incoming addr size true] }
  else
    let (helpers, burstHelper) := if pktCount > 1 && reading.burstHelper.isNone then
        let (helpers, address) := reading.ctrl.helpers.alloc { burstCount := pktCount }
        (helpers, some address)
      else (reading.ctrl.helpers, reading.burstHelper)
    let ctrl := { reading.ctrl with helpers }
    let memPkt : MemPacket := { readyTime := maxTick, pkt := incoming, addr, size, burstHelper }
    require (!ctrl.readQueueFull params 1) "!readQueueFull(1)"
    let ctrl := { ctrl with readQueue := ctrl.readQueue ++ [memPkt] }
    let ctrl := ctrl.logRequest .read incoming.requestorId addr
    let ctrl := { ctrl with readQueueSize := ctrl.readQueueSize + 1 }
    return { reading with
      ctrl
      burstHelper
      labels := reading.labels ++ [.burst incoming addr size false] }

/-- Whether all bursts are already there comes with the controller. -/
def addToReadQueue (params : Params) (now : Tick) (ctrl : MemCtrl) (incoming : Incoming) (pktCount : Nat) :
    Except Abort (MemCtrl × Bool × List Label) := do
  require (!incoming.pkt.isWrite) "!pkt->isWrite()"
  require (pktCount != 0) "pkt_count != 0"
  let reading ← (burstsFrom params incoming pktCount incoming.pkt.addr).foldlM (addReadBurst params incoming pktCount) { ctrl }
  if reading.pktsServicedByWrQ = pktCount then
    let responses ← accessAndRespond params now incoming params.frontendLatency
    return (reading.ctrl, true, reading.labels ++ responses)
  else
    match reading.burstHelper with
    | none => return (reading.ctrl, false, reading.labels)
    | some address =>
      let helpers ← (reading.ctrl.helpers.modify address fun helper =>
        { helper with burstsServiced := reading.pktsServicedByWrQ }).mapError fun _ => .outOfBounds
      return ({ reading.ctrl with helpers }, false, reading.labels)

def addWriteBurst (params : Params) (incoming : Incoming) (writing : MemCtrl × List Label) (burst : Addr × Nat) :
    Except Abort (MemCtrl × List Label) := do
  let (addr, size) := burst
  let (ctrl, labels) := writing
  let merged := decide (params.burstAlign addr ∈ ctrl.isInWriteQueue)
  if !merged then
    let memPkt : MemPacket := { readyTime := maxTick, pkt := incoming, addr, size }
    require (decide (ctrl.totalWriteQueueSize < params.writeBufferSize)) "totalWriteQueueSize < writeBufferSize"
    let ctrl := { ctrl with
      writeQueue := ctrl.writeQueue ++ [memPkt]
      isInWriteQueue := insert (params.burstAlign addr) ctrl.isInWriteQueue }
    let ctrl := ctrl.logRequest .write incoming.requestorId addr
    let ctrl := { ctrl with writeQueueSize := ctrl.writeQueueSize + 1 }
    require (ctrl.totalWriteQueueSize == ctrl.isInWriteQueue.card) "totalWriteQueueSize == isInWriteQueue.size()"
    return (ctrl, labels ++ [.burst incoming addr size false])
  else return (ctrl, labels ++ [.burst incoming addr size true])

def addToWriteQueue (params : Params) (now : Tick) (ctrl : MemCtrl) (incoming : Incoming) (pktCount : Nat) :
    Except Abort (MemCtrl × List Label) := do
  require incoming.pkt.isWrite "pkt->isWrite()"
  let (ctrl, labels) ← (burstsFrom params incoming pktCount incoming.pkt.addr).foldlM (addWriteBurst params incoming) (ctrl, [])
  let responses ← accessAndRespond params now incoming params.frontendLatency
  return (ctrl, labels ++ responses)

/-- If nextReqEvent is not scheduled already, it is now. -/
def wake (now : Tick) (ctrl : MemCtrl) : Except Abort MemCtrl := do
  if ctrl.nextReqEvent.isNone then
    let nextReqEvent ← schedule now ctrl.nextReqEvent now
    return { ctrl with nextReqEvent }
  else return ctrl

def recvTimingReq (params : Params) (now : Tick) (ctrl : MemCtrl) (incoming : Incoming) : Except Abort (MemCtrl × List Label) := do
  panicIf incoming.pkt.cacheResponding "Should not see packets where cache is responding"
  panicIf (!(incoming.pkt.isRead || incoming.pkt.isWrite)) "Should only see read and writes at memory controller"
  panicIf (!params.contains incoming.pkt.addr) "Can't handle address range for packet"
  let pktCount := packetCount params incoming
  if incoming.pkt.isWrite then
    require (incoming.size != 0) "size != 0"
    if ctrl.writeQueueFull params pktCount then return ({ ctrl with retryWrReq := true }, [.refused incoming])
    else
      let (ctrl, labels) ← ctrl.addToWriteQueue params now incoming pktCount
      let ctrl ← ctrl.wake now
      return (ctrl, .accepted incoming :: labels)
  else
    require incoming.pkt.isRead "pkt->isRead()"
    require (incoming.size != 0) "size != 0"
    if ctrl.readQueueFull params pktCount then return ({ ctrl with retryRdReq := true }, [.refused incoming])
    else
      let (ctrl, allThere, labels) ← ctrl.addToReadQueue params now incoming pktCount
      let ctrl ← (if allThere then .ok ctrl else ctrl.wake now)
      return (ctrl, .accepted incoming :: labels)

def signalDrainDone (ctrl : MemCtrl) : MemCtrl × List Label := ({ ctrl with draining := false }, [.drainDone])

/-- A burst of a split packet has come. The packet is answered when it was the last. -/
def completeBurst (params : Params) (now : Tick) (ctrl : MemCtrl) (memPkt : MemPacket) : Except Abort (MemCtrl × List Label) := do
  match memPkt.burstHelper with
  | some address =>
    let helpers ← (ctrl.helpers.modify address fun helper =>
      { helper with burstsServiced := helper.burstsServiced + 1 }).mapError fun _ => .outOfBounds
    let helper ← (helpers.read address).mapError fun _ => .outOfBounds
    if helper.burstsServiced = helper.burstCount then
      let responses ← accessAndRespond params now memPkt.pkt (params.frontendLatency + params.backendLatency)
      return ({ ctrl with helpers := helpers.free address }, responses)
    else return ({ ctrl with helpers }, [])
  | none =>
    let responses ← accessAndRespond params now memPkt.pkt (params.frontendLatency + params.backendLatency)
    return (ctrl, responses)

/-- The event itself is no longer scheduled when this runs. -/
def processRespondEvent (params : Params) (now : Tick) (ctrl : MemCtrl) (allIntfDrained : Bool) : Except Abort (MemCtrl × List Label) := do
  match ctrl.respQueue with
  | [] => .error .outOfBounds
  | memPkt :: rest =>
    let (ctrl, labels) ← ctrl.completeBurst params now memPkt
    let ctrl := { ctrl with respQueue := rest }
    let (ctrl, drained) ← (match rest with
      | front :: _ => do
        require (decide (now ≤ front.readyTime)) "queue.front()->readyTime >= curTick()"
        let respondEvent ← schedule now ctrl.respondEvent front.readyTime
        return ({ ctrl with respondEvent }, [])
      | [] =>
        if ctrl.draining && ctrl.totalWriteQueueSize == 0 && ctrl.totalReadQueueSize == 0 && allIntfDrained then
          .ok ctrl.signalDrainDone
        else .ok (ctrl, []))
    let labels := .served memPkt.pkt memPkt.addr :: labels ++ drained
    if ctrl.retryRdReq then return ({ ctrl with retryRdReq := false }, labels ++ [.sentRetry])
    else return (ctrl, labels)

/-- What the memory interface says while a request is processed: whether it is busy,
the place of the burst that goes next, if any, when that is ready and when the next
request may follow, nvmWriteBlock and allIntfDrained. -/
structure Choice where
  busy : Bool := false
  allIntfDrained : Bool := false
  place : Option Nat
  readyTime : Tick
  nextReqTime : Tick
  nvmWriteBlock : Bool := false

/-- The burst that chooseNext found. -/
def chosen (choice : Choice) (queue : List MemPacket) : Option MemPacket :=
  match choice.place with
  | none => none
  | some place => queue[place]?

def processRead (params : Params) (now : Tick) (ctrl : MemCtrl) (choice : Choice) : Except Abort (MemCtrl × Option Bool) := do
  if ctrl.readQueueSize = 0 then
    if ctrl.writeQueueSize ≠ 0 ∧ (ctrl.draining ∨ ctrl.writeQueueSize > params.writeLowThreshold) then return (ctrl, some true)
    else return (ctrl, none)
  else
    match chosen choice ctrl.readQueue with
    | none => return (ctrl, none)
    | some toRead =>
      let memPkt := { toRead with readyTime := choice.readyTime }
      let ctrl := { ctrl with readsThisTime := ctrl.readsThisTime + 1 }
      require (decide (memPkt.size ≤ params.burstSize.toNat)) "pktSizeCheck(mem_pkt, mem_intr)"
      require (decide (now ≤ memPkt.readyTime)) "mem_pkt->readyTime >= curTick()"
      let ctrl ← ctrl.logResponse .read memPkt.pkt.requestorId memPkt.addr
      let ctrl := { ctrl with readQueueSize := ctrl.readQueueSize - 1 }
      let ctrl ← (match ctrl.respQueue.getLast? with
        | none => do
          let respondEvent ← schedule now ctrl.respondEvent memPkt.readyTime
          return { ctrl with respondEvent }
        | some back => do
          require (decide (back.readyTime ≤ memPkt.readyTime)) "resp_queue.back()->readyTime <= mem_pkt->readyTime"
          require ctrl.respondEvent.isSome "resp_event.scheduled()"
          return ctrl)
      let ctrl := { ctrl with respQueue := ctrl.respQueue ++ [memPkt] }
      let switchToWrites := decide (ctrl.writeQueueSize > params.writeHighThreshold) &&
        (decide (ctrl.readsThisTime ≥ params.minReadsPerSwitch) || ctrl.readQueueSize == 0) && !choice.nvmWriteBlock
      return ({ ctrl with readQueue := ctrl.readQueue.eraseIdx (choice.place.getD 0) }, some switchToWrites)

/-- The write state, with whether to switch to reads. -/
def processWrite (params : Params) (ctrl : MemCtrl) (choice : Choice) : Except Abort (MemCtrl × Option Bool) := do
  match chosen choice ctrl.writeQueue with
  | none => return (ctrl, none)
  | some memPkt =>
    require (decide (memPkt.size ≤ params.burstSize.toNat)) "pktSizeCheck(mem_pkt, mem_intr)"
    let ctrl := { ctrl with
      writesThisTime := ctrl.writesThisTime + 1
      isInWriteQueue := ctrl.isInWriteQueue.erase (params.burstAlign memPkt.addr) }
    let ctrl ← ctrl.logResponse .write memPkt.pkt.requestorId memPkt.addr
    let ctrl := { ctrl with
      writeQueueSize := ctrl.writeQueueSize - 1
      writeQueue := ctrl.writeQueue.eraseIdx (choice.place.getD 0) }
    let belowThreshold := decide (ctrl.writeQueueSize + params.minWritesPerSwitch < params.writeLowThreshold)
    let switchToReads := ctrl.writeQueueSize == 0 || (belowThreshold && !ctrl.draining) ||
      (ctrl.readQueueSize != 0 && decide (ctrl.writesThisTime ≥ params.minWritesPerSwitch)) ||
      (ctrl.readQueueSize != 0 && choice.nvmWriteBlock)
    return (ctrl, some switchToReads)

/-- The end of processNextReqEvent, that an early return skips. -/
def finishRequest (params : Params) (now : Tick) (ctrl : MemCtrl) (nextReqTime : Tick) : Except Abort (MemCtrl × List Label) := do
  let ctrl ← (if ctrl.nextReqEvent.isNone then do
      let nextReqEvent ← schedule now ctrl.nextReqEvent (max nextReqTime now)
      return { ctrl with nextReqEvent }
    else .ok ctrl)
  if ctrl.retryWrReq && decide (ctrl.writeQueueSize < params.writeBufferSize) then
    return ({ ctrl with retryWrReq := false }, [.sentRetry])
  else return (ctrl, [])

/-- The counters of a direction start again when the bus turns. -/
def switchCommand (ctrl : MemCtrl) : MemCtrl :=
  if ctrl.busState ≠ ctrl.busStateNext then
    match ctrl.busState with
    | .read => { ctrl with readsThisTime := 0 }
    | .write => { ctrl with writesThisTime := 0 }
  else ctrl

def drainIfDone (ctrl : MemCtrl) (allIntfDrained : Bool) : MemCtrl × List Label :=
  if ctrl.draining && ctrl.totalWriteQueueSize == 0 && ctrl.totalReadQueueSize == 0 && ctrl.respQueue.isEmpty && allIntfDrained then
    ctrl.signalDrainDone
  else (ctrl, [])

/-- The beginning of processNextReqEvent. -/
def turnAround (ctrl : MemCtrl) (allIntfDrained : Bool) : MemCtrl × List Label :=
  let (ctrl, labels) := ctrl.switchCommand.drainIfDone allIntfDrained
  ({ ctrl with busState := ctrl.busStateNext }, labels)

/-- The check where there is nothing to do in the read state. -/
def checkDrained (ctrl : MemCtrl) (allIntfDrained : Bool) : MemCtrl × List Label :=
  if ctrl.readQueueSize = 0 ∧ ctrl.draining ∧ ctrl.respQueue.isEmpty ∧ allIntfDrained then ctrl.signalDrainDone else (ctrl, [])

/-- The event itself is no longer scheduled when this runs. -/
def processNextReqEvent (params : Params) (now : Tick) (ctrl : MemCtrl) (choice : Choice) : Except Abort (MemCtrl × List Label) := do
  let (ctrl, labels) := ctrl.turnAround choice.allIntfDrained
  if choice.busy then return (ctrl, labels)
  else
    match ctrl.busState with
    | .read =>
      let (ctrl, switches) ← ctrl.processRead params now choice
      match switches with
      | none =>
        let (ctrl, drained) := ctrl.checkDrained choice.allIntfDrained
        return (ctrl, labels ++ drained)
      | some switchToWrites =>
        let ctrl := if switchToWrites then { ctrl with busStateNext := .write } else ctrl
        let (ctrl, retried) ← ctrl.finishRequest params now choice.nextReqTime
        return (ctrl, labels ++ retried)
    | .write =>
      let (ctrl, switches) ← ctrl.processWrite params choice
      match switches with
      | none => return (ctrl, labels)
      | some switchToReads =>
        let ctrl := if switchToReads then { ctrl with busStateNext := .read } else ctrl
        let (ctrl, retried) ← ctrl.finishRequest params now choice.nextReqTime
        return (ctrl, labels ++ retried)

/-- drain, which kicks the write queue into action. -/
def drain (now : Tick) (ctrl : MemCtrl) (allIntfDrained : Bool) : Except Abort (MemCtrl × List Label) := do
  if ctrl.totalWriteQueueSize ≠ 0 ∨ ctrl.totalReadQueueSize ≠ 0 ∨ !ctrl.respQueue.isEmpty ∨ !allIntfDrained then
    let ctrl ← (if ctrl.totalWriteQueueSize ≠ 0 then ctrl.wake now else .ok ctrl)
    return ({ ctrl with draining := true }, [])
  else return (ctrl, [])

inductive Event where
  | recvTimingReq (incoming : Incoming)
  | nextReq (choice : Choice)
  | respond (allIntfDrained : Bool)
  /-- restartScheduler, when a rank is available again -/
  | restart (due : Tick)
  | drain (allIntfDrained : Bool)

/-- An event at some tick. -/
def step (params : Params) : Step MemCtrl (Tick × Event) Label Abort := fun ctrl (now, event) =>
  match event with
  | .recvTimingReq incoming => ctrl.recvTimingReq params now incoming
  | .nextReq choice => { ctrl with nextReqEvent := none }.processNextReqEvent params now choice
  | .respond allIntfDrained => { ctrl with respondEvent := none }.processRespondEvent params now allIntfDrained
  | .restart due => do
    let nextReqEvent ← schedule now ctrl.nextReqEvent due
    return ({ ctrl with nextReqEvent }, [])
  | .drain allIntfDrained => ctrl.drain now allIntfDrained

end MemCtrl

end ImcGem5.Mem.Dram
