import ImcGem5.Mem.Controller

/-! The queue of deferred packets behind a queued port, and the peer it sends to. The
peer owes a retry once it has refused a packet, and may send packets of its own through
the same queue while it accepts one. -/

namespace ImcGem5.Mem
open Lib

def maxTick : Tick := 2 ^ 64 - 1

structure PacketQueue where
  transmitList : List DeferredPacket := []
  sendEvent : Option Tick := none
  waitingOnRetry : Bool := false
  forceOrder : Bool
  disableSanityCheck : Bool
  /-- `drainState() == DrainState::Draining` -/
  draining : Bool := false

inductive SendLabel where
  | enqueued (deferred : DeferredPacket)
  | offered (deferred : DeferredPacket) (now : Tick)
  | accepted (deferred : DeferredPacket)
  | drainDone

/-- What the peer says to a packet; while it accepts one it may enqueue others. -/
inductive SendAnswer where
  | refuse
  | accept (calls : List (Packet × Tick))

namespace PacketQueue

def deferredPacketReady (queue : PacketQueue) (now : Tick) : Bool :=
  match queue.transmitList with
  | [] => false
  | front :: _ => front.tick ≤ now

def deferredPacketReadyTime (queue : PacketQueue) : Tick :=
  match queue.transmitList with
  | [] => maxTick
  | front :: _ => front.tick

def schedSendEvent (queue : PacketQueue) (now due : Tick) : Except Abort (PacketQueue × List SendLabel) := do
  if queue.waitingOnRetry then
    require queue.sendEvent.isNone "!sendEvent.scheduled()"
    return (queue, [])
  else if due ≠ maxTick then
    let due := max due ((now + 1) % 2 ^ 64)
    match queue.sendEvent with
    | none =>
      let sendEvent ← schedule now queue.sendEvent due
      return ({ queue with sendEvent }, [])
    | some planned =>
      if due < planned then
        let sendEvent ← reschedule now due
        return ({ queue with sendEvent }, [])
      else return (queue, [])
  else if queue.draining && queue.transmitList.isEmpty && queue.sendEvent.isNone then
    return ({ queue with draining := false }, [.drainDone])
  else return (queue, [])

/-- A packet must not go before this entry. -/
def stops (forceOrder : Bool) (deferred entry : DeferredPacket) : Bool :=
  (forceOrder && entry.pkt.matchAddr deferred.pkt) || entry.tick ≤ deferred.tick

/-- The search from the back, on the list turned around. There is no result if the
packet belongs before all others. -/
def placeBack (forceOrder : Bool) (deferred : DeferredPacket) : List DeferredPacket → Option (List DeferredPacket)
  | [] => none
  | last :: earlier =>
    if stops forceOrder deferred last then some (deferred :: last :: earlier)
    else (placeBack forceOrder deferred earlier).map (last :: ·)

def schedSendTiming (queue : PacketQueue) (now : Tick) (pkt : Packet) (due : Tick) : Except Abort (PacketQueue × List SendLabel) := do
  require (now ≤ due) "when >= curTick()"
  require (!pkt.expressSnoop) "!pkt->isExpressSnoop()"
  panicIf (!queue.disableSanityCheck && queue.transmitList.length > 128) "Packet queue has grown beyond 128 packets"
  match placeBack queue.forceOrder ⟨due, pkt⟩ queue.transmitList.reverse with
  | some placed => return ({ queue with transmitList := placed.reverse }, [.enqueued ⟨due, pkt⟩])
  | none =>
    let (queue, labels) ← schedSendEvent { queue with transmitList := ⟨due, pkt⟩ :: queue.transmitList } now due
    return (queue, .enqueued ⟨due, pkt⟩ :: labels)

/-- Packets that the peer sends while it accepts one. -/
def schedEach (queue : PacketQueue) (now : Tick) : List (Packet × Tick) → Except Abort (PacketQueue × List SendLabel)
  | [] => .ok (queue, [])
  | (pkt, due) :: calls => do
    let (queue, first) ← queue.schedSendTiming now pkt due
    let (queue, rest) ← queue.schedEach now calls
    return (queue, first ++ rest)

def sendDeferredPacket (queue : PacketQueue) (now : Tick) (answer : SendAnswer) : Except Abort (PacketQueue × List SendLabel) := do
  require (!queue.waitingOnRetry) "!waitingOnRetry"
  require (queue.deferredPacketReady now) "deferredPacketReady()"
  match queue.transmitList, answer with
  | [], _ => .error .outOfBounds
  | deferred :: rest, .refuse => return ({ queue with transmitList := deferred :: rest, waitingOnRetry := true }, [.offered deferred now])
  | deferred :: rest, .accept calls =>
    let (queue, enqueued) ← schedEach { queue with transmitList := rest } now calls
    let queue := { queue with waitingOnRetry := false }
    let (queue, labels) ← queue.schedSendEvent now queue.deferredPacketReadyTime
    return (queue, .offered deferred now :: enqueued ++ [.accepted deferred] ++ labels)

def processSendEvent (queue : PacketQueue) (now : Tick) (answer : SendAnswer) : Except Abort (PacketQueue × List SendLabel) := do
  require (!queue.waitingOnRetry) "!waitingOnRetry"
  queue.sendDeferredPacket now answer

def retry (queue : PacketQueue) (now : Tick) (answer : SendAnswer) : Except Abort (PacketQueue × List SendLabel) := do
  require queue.waitingOnRetry "waitingOnRetry"
  { queue with waitingOnRetry := false }.sendDeferredPacket now answer

def drain (queue : PacketQueue) : PacketQueue := { queue with draining := !queue.transmitList.isEmpty }

def trySatisfyFunctional (queue : PacketQueue) (pkt : Packet) : Except Abort (Bool × Packet × PacketQueue) := do
  let (found, pkt, transmitList) ← pkt.satisfyFrom DeferredPacket.pkt (fun deferred pkt => { deferred with pkt }) queue.transmitList
  return (found, pkt, { queue with transmitList })

end PacketQueue

/-- A queue, the time, and whether the peer has a retry to send. -/
structure SendSide where
  queue : PacketQueue
  now : Tick := 0
  owesRetry : Bool := false

inductive SendOp where
  | advance (now : Tick)
  | schedSendTiming (pkt : Packet) (due : Tick)
  | sendEvent (answer : SendAnswer)
  | retry (answer : SendAnswer)
  | drain
  | drainResume

namespace SendSide

def new (forceOrder : Bool) : SendSide := { queue := { forceOrder, disableSanityCheck := true } }

def refused : SendAnswer → Bool
  | .refuse => true
  | .accept _ => false

def step : Step SendSide SendOp SendLabel Abort
  | side, .advance now => return ({ side with now }, [])
  | side, .schedSendTiming pkt due => do
    let (queue, labels) ← side.queue.schedSendTiming side.now pkt due
    return ({ side with queue }, labels)
  | side, .sendEvent answer => do
    let now := side.queue.sendEvent.getD side.now
    let (queue, labels) ← { side.queue with sendEvent := none }.processSendEvent now answer
    return ({ queue, now, owesRetry := refused answer }, labels)
  | side, .retry answer => do
    let (queue, labels) ← side.queue.retry side.now answer
    return ({ side with queue, owesRetry := refused answer }, labels)
  | side, .drain => return ({ side with queue := side.queue.drain }, [])
  | side, .drainResume => return ({ side with queue := { side.queue with draining := false } }, [])

/-- Packets are enqueued for now or later. -/
def Timely (now due : Tick) : Prop := now ≤ due ∧ due < maxTick

def AnswersAt (now : Tick) : SendAnswer → Prop
  | .refuse => True
  | .accept calls => ∀ call ∈ calls, Timely now call.2

def Allowed (side : SendSide) : SendOp → Prop
  | .advance now => side.now ≤ now ∧ now ≤ maxTick ∧ ∀ due ∈ side.queue.sendEvent, now ≤ due
  | .schedSendTiming _ due => Timely side.now due
  | .sendEvent answer => ∃ due ∈ side.queue.sendEvent, AnswersAt due answer
  | .retry answer => side.owesRetry = true ∧ AnswersAt side.now answer
  | .drain => True
  | .drainResume => True

instance (now due : Tick) : Decidable (Timely now due) := inferInstanceAs (Decidable (_ ∧ _))

instance (now : Tick) : DecidablePred (AnswersAt now)
  | .refuse => inferInstanceAs (Decidable True)
  | .accept calls => inferInstanceAs (Decidable (∀ call ∈ calls, Timely now call.2))

instance (side : SendSide) : DecidablePred side.Allowed
  | .advance now => inferInstanceAs (Decidable (side.now ≤ now ∧ now ≤ maxTick ∧ ∀ due ∈ side.queue.sendEvent, now ≤ due))
  | .schedSendTiming _ due => inferInstanceAs (Decidable (Timely side.now due))
  | .sendEvent answer => inferInstanceAs (Decidable (∃ due ∈ side.queue.sendEvent, AnswersAt due answer))
  | .retry answer => inferInstanceAs (Decidable (side.owesRetry = true ∧ AnswersAt side.now answer))
  | .drain => inferInstanceAs (Decidable True)
  | .drainResume => inferInstanceAs (Decidable True)

end SendSide

end ImcGem5.Mem
