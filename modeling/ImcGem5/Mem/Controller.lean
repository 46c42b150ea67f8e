import ImcGem5.Mem.InMemory
import ImcGem5.Lib.Runs

/-! SimpleMemory and PIMCtrl: single-ported controllers over an AbstractMemory with
a bandwidth limit and a queue of responses. PIMCtrl was copied from SimpleMemory, so
they share their state; they differ in recvFunctional. -/

namespace ImcGem5.Mem
open Lib

structure DeferredPacket where
  tick : Tick
  pkt : Packet

/-- `duration` is `pkt->getSize() * bandwidth` cut to a tick; the bandwidth is a
double, and nothing here depends on how it rounds. -/
structure MemCtrl where
  mem : AbstractMemory
  duration : Nat → Tick
  latency : Tick := 0
  latencyVar : Tick := 0
  packetQueue : List DeferredPacket := []
  isBusy : Bool := false
  retryReq : Bool := false
  retryResp : Bool := false
  releaseEvent : Option Tick := none
  dequeueEvent : Option Tick := none

/-- What a controller does that others can see. -/
inductive MemLabel where
  | refused (pkt : Packet)
  | accepted (pkt : Packet)
  | computed (op : ImcOp) (req : Nat)
  | effect (done : Effect)
  | responded (pkt : Packet)
  | sentRetry

/-- EventManager::schedule on an event whose slot holds its tick while scheduled. -/
def schedule (now : Tick) (slot : Option Tick) (due : Tick) : Except Abort (Option Tick) := do
  require slot.isNone "!event->scheduled()"
  require (decide (now ≤ due)) "when >= getCurTick()"
  return some due

/-- EventManager::reschedule with always = true. -/
def reschedule (now : Tick) (due : Tick) : Except Abort (Option Tick) := do
  require (decide (now ≤ due)) "when >= getCurTick()"
  return some due

/-- The insertion walk, on the queue turned around: from the last response towards
the first, never past the first and never past one with the same address. -/
def insertBack (deferred : DeferredPacket) : List DeferredPacket → List DeferredPacket
  | [] => [deferred]
  | [first] => [deferred, first]
  | last :: earlier =>
    if decide (deferred.tick < last.tick) && !last.pkt.matchAddr deferred.pkt then last :: insertBack deferred earlier
    else deferred :: last :: earlier

def emplace (deferred : DeferredPacket) (queue : List DeferredPacket) : List DeferredPacket :=
  (insertBack deferred queue.reverse).reverse

namespace MemCtrl

/-- `random` is the draw of random_mt, reduced to [0, latency_var]. -/
def getLatency (ctrl : MemCtrl) (random : Nat) : Tick :=
  ctrl.latency + if ctrl.latencyVar ≠ 0 then random % (ctrl.latencyVar + 1) else 0

def recvAtomic (ctrl : MemCtrl) (pkt : Packet) : Except Abort (MemCtrl × Packet × List Effect) := do
  panicIf pkt.cacheResponding "Should not see packets where cache is responding"
  let (mem, pkt, effects) ← ctrl.mem.access pkt
  return ({ ctrl with mem }, pkt, effects)

/-- Open the busy window that the bandwidth asks for. -/
def occupy (ctrl : MemCtrl) (now : Tick) (pkt : Packet) : Except Abort MemCtrl := do
  let duration := ctrl.duration pkt.size
  if duration ≠ 0 then
    let releaseEvent ← schedule now ctrl.releaseEvent (now + duration)
    return { ctrl with releaseEvent, isBusy := true }
  else return ctrl

def respondLater (ctrl : MemCtrl) (now : Tick) (pkt : Packet) (whenToSend : Tick) : Except Abort MemCtrl := do
  require pkt.isResponse "pkt->isResponse()"
  let queue := emplace ⟨whenToSend, pkt⟩ ctrl.packetQueue
  if !ctrl.retryResp && ctrl.dequeueEvent.isNone then
    let dequeueEvent ← schedule now none ((queue.getLast?.map (·.tick)).getD 0)
    return { ctrl with packetQueue := queue, dequeueEvent }
  else return { ctrl with packetQueue := queue }

/-- The tail of recvTimingReq: an ordinary access, whose response is queued. -/
def ordinary (ctrl : MemCtrl) (now : Tick) (random : Nat) (pkt : Packet) :
    Except Abort (MemCtrl × List Effect) := do
  let receiveDelay := pkt.headerDelay + pkt.payloadDelay
  let needsResponse := pkt.needsResponse
  let (ctrl, pkt, effects) ← ctrl.recvAtomic { pkt with headerDelay := 0, payloadDelay := 0 }
  if needsResponse then
    let ctrl ← ctrl.respondLater now pkt (now + receiveDelay + ctrl.getLatency random)
    return (ctrl, effects)
  else return (ctrl, effects)

/-- What happens to a packet once the controller has taken it. -/
def process (ctrl : MemCtrl) (now : Tick) (random : Nat) (pkt : Packet) : Except Abort (MemCtrl × List MemLabel) := do
  let ctrl ← ctrl.occupy now pkt
  match dispatch pkt.req.flags with
  | some op =>
    let (mem, effects) ← AbstractMemory.handler op ctrl.mem pkt
    return ({ ctrl with mem }, [.accepted pkt, .computed op pkt.req.id] ++ effects.map .effect)
  | none =>
    let (ctrl, effects) ← ctrl.ordinary now random pkt
    return (ctrl, .accepted pkt :: effects.map .effect)

/-- The text recvTimingReq has in both controllers. -/
def recvTimingReq (ctrl : MemCtrl) (now : Tick) (random : Nat) (pkt : Packet) :
    Except Abort (MemCtrl × Bool × List MemLabel) := do
  panicIf pkt.cacheResponding "Should not see packets where cache is responding"
  panicIf (!(pkt.isRead || pkt.isWrite)) "Should only see read and writes at memory controller"
  if ctrl.retryReq then return (ctrl, false, [.refused pkt])
  else if ctrl.isBusy then return ({ ctrl with retryReq := true }, false, [.refused pkt])
  else
    let (ctrl, labels) ← ctrl.process now random pkt
    return (ctrl, true, labels)

/-- release(), fired by its event. -/
def release (ctrl : MemCtrl) : Except Abort (MemCtrl × List MemLabel) := do
  require ctrl.isBusy "isBusy"
  if ctrl.retryReq then
    -- the peer may send again from inside sendRetryReq, which is a later step here
    return ({ ctrl with isBusy := false, releaseEvent := none, retryReq := false }, [.sentRetry])
  else return ({ ctrl with isBusy := false, releaseEvent := none }, [])

def offer (now : Tick) : Step MemCtrl (Nat × Packet) MemLabel Abort := fun ctrl offered => do
  let (ctrl, _, labels) ← ctrl.recvTimingReq now offered.1 offered.2
  return (ctrl, labels)

/-- Requests that the peer sends while it is handed a response. -/
def reenter (ctrl : MemCtrl) (now : Tick) (during : List (Nat × Packet)) : Except Abort (MemCtrl × List MemLabel) :=
  run (offer now) ctrl during

/-- dequeue(): `taken` is what sendTimingResp returned, and `during` what the peer
asked for before it returned. -/
def dequeue (ctrl : MemCtrl) (now : Tick) (during : List (Nat × Packet)) (taken : Bool) :
    Except Abort (MemCtrl × List MemLabel) :=
  match ctrl.packetQueue with
  | [] => .error (.assertion "!packetQueue.empty()")
  | deferred :: _ => do
    let (ctrl, labels) ← ctrl.reenter now during
    if taken then
      let queue := ctrl.packetQueue.tail
      match queue.head? with
      | some front =>
        let dequeueEvent ← reschedule now (max front.tick now)
        return ({ ctrl with packetQueue := queue, retryResp := false, dequeueEvent }, labels ++ [.responded deferred.pkt])
      | none => return ({ ctrl with packetQueue := queue, retryResp := false }, labels ++ [.responded deferred.pkt])
    else return ({ ctrl with retryResp := true }, labels)

def recvRespRetry (ctrl : MemCtrl) (now : Tick) (during : List (Nat × Packet)) (taken : Bool) :
    Except Abort (MemCtrl × List MemLabel) := do
  require ctrl.retryResp "retryResp"
  ctrl.dequeue now during taken

/-- The loop over packetQueue in recvFunctional. -/
def satisfyFromQueue (pkt : Packet) : List DeferredPacket → Except Abort (Packet × List DeferredPacket)
  | [] => .ok (pkt, [])
  | deferred :: rest => do
    let (done, pkt, other) ← pkt.trySatisfyFunctional deferred.pkt
    if done then return (pkt, { deferred with pkt := other } :: rest)
    else
      let (pkt, rest) ← satisfyFromQueue pkt rest
      return (pkt, { deferred with pkt := other } :: rest)

def functional (ctrl : MemCtrl) (pkt : Packet) : Except Abort (MemCtrl × Packet) := do
  let (mem, pkt) ← ctrl.mem.functionalAccess pkt
  let (pkt, packetQueue) ← satisfyFromQueue pkt ctrl.packetQueue
  return ({ ctrl with mem, packetQueue }, pkt)

end MemCtrl

namespace SimpleMemory

def recvAtomic := MemCtrl.recvAtomic
def recvTimingReq := MemCtrl.recvTimingReq

/-- In functional mode SimpleMemory computes too, and answers at once. -/
def recvFunctional (ctrl : MemCtrl) (pkt : Packet) : Except Abort (MemCtrl × Packet) :=
  match dispatch pkt.req.flags with
  | some op => do
    let (mem, _) ← AbstractMemory.handler op ctrl.mem pkt
    let pkt ← pkt.makeResponse
    return ({ ctrl with mem }, pkt)
  | none => ctrl.functional pkt

end SimpleMemory

namespace PIMCtrl

def recvAtomic := MemCtrl.recvAtomic
def recvTimingReq := MemCtrl.recvTimingReq
def recvFunctional := MemCtrl.functional

end PIMCtrl

/-- One step of a controller, in whatever order its peers and events make them. -/
inductive MemEvent where
  | recvTimingReq (now : Tick) (random : Nat) (pkt : Packet)
  | release
  | dequeue (now : Tick) (during : List (Nat × Packet)) (taken : Bool)
  | recvRespRetry (now : Tick) (during : List (Nat × Packet)) (taken : Bool)

def MemCtrl.step : Step MemCtrl MemEvent MemLabel Abort := fun ctrl event =>
  match event with
  | .recvTimingReq now random pkt => MemCtrl.offer now ctrl (random, pkt)
  | .release => ctrl.release
  -- the event that fires is no longer scheduled
  | .dequeue now during taken => { ctrl with dequeueEvent := none }.dequeue now during taken
  | .recvRespRetry now during taken => ctrl.recvRespRetry now during taken

/-- The two controllers, which differ in recvFunctional only. -/
inductive Controller where
  | simpleMemory | pimCtrl
  deriving DecidableEq, Repr

def Controller.recvFunctional : Controller → MemCtrl → Packet → Except Abort (MemCtrl × Packet)
  | .simpleMemory => SimpleMemory.recvFunctional
  | .pimCtrl => PIMCtrl.recvFunctional

/-- Whatever a controller is asked: a step of the timing protocol, or an access in
one of the other modes. -/
inductive CtrlEvent where
  | timing (event : MemEvent)
  | atomic (pkt : Packet)
  | functional (pkt : Packet)

def Controller.step (which : Controller) : Step MemCtrl CtrlEvent MemLabel Abort := fun ctrl event =>
  match event with
  | .timing event => ctrl.step event
  | .atomic pkt => do
    let (ctrl, _, effects) ← ctrl.recvAtomic pkt
    return (ctrl, effects.map .effect)
  | .functional pkt => do
    let (ctrl, _) ← which.recvFunctional ctrl pkt
    return (ctrl, [])

end ImcGem5.Mem
