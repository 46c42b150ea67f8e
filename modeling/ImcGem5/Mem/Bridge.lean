import ImcGem5.Mem.Layer

/-! Bridge: requests go from the CPU side to the memory side and responses come back, each
through a list of packets that wait for their ticks. A call to a peer is cut where control
leaves the bridge, so that whatever the peer calls before it returns is a step of its own:
a send begins when its event fires or when the peer retries, and ends when the peer returns.
A retry is the last thing that a handler does. Atomic and functional accesses and the
backdoors are left out. -/

namespace ImcGem5.Mem
open Lib

structure BridgeParams where
  period : Tick
  delay : Nat
  reqQueueLimit : Nat
  respQueueLimit : Nat

/-- What both ports of a bridge have: the packets to send, and the event for the first.
`sending` holds until the peer returns, and `waiting` from its refusal to its retry. -/
structure SendPort where
  transmitList : List DeferredPacket := []
  sendEvent : Option Tick := none
  sending : Bool := false
  waiting : Bool := false

namespace SendPort

/-- schedTimingReq and schedTimingResp. Only the first asserts that there is room. -/
def schedTiming (now : Tick) (port : SendPort) (room : Bool) (deferred : DeferredPacket) : Except Abort SendPort := do
  let sendEvent ← (if port.transmitList.isEmpty then schedule now port.sendEvent deferred.tick else .ok port.sendEvent)
  require room "transmitList.size() != reqQueueLimit"
  return { port with
    sendEvent
    transmitList := port.transmitList ++ [deferred] }

def trySendTiming (now : Tick) (port : SendPort) (text : String) : Except Abort SendPort := do
  match port.transmitList with
  | [] => .error (.assertion "!transmitList.empty()")
  | front :: _ =>
    require (decide (front.tick ≤ now)) text
    return { port with
      sending := true
      waiting := false }

def sendNext (period now : Tick) (port : SendPort) : Except Abort SendPort := do
  match port.transmitList with
  | [] => .error .outOfBounds
  | _ :: transmitList =>
    let sendEvent ← (match transmitList with
      | [] => .ok port.sendEvent
      | next :: _ => schedule now port.sendEvent (max next.tick (clockEdge period now 0)))
    return { port with
      transmitList
      sendEvent
      sending := false }

def sendFailed (port : SendPort) : SendPort :=
  { port with
    sending := false
    waiting := true }

end SendPort

structure Bridge where
  memSidePort : SendPort := {}
  cpuSidePort : SendPort := {}
  outstandingResponses : Nat := 0
  retryReq : Bool := false

inductive BridgeLabel where
  | refused (pkt : Packet)
  | accepted (deferred : DeferredPacket)
  | sentReq (deferred : DeferredPacket) (now : Tick)
  | arrived (deferred : DeferredPacket)
  | sentResp (deferred : DeferredPacket) (now : Tick)
  | sentRetry

namespace Bridge

def respQueueFull (params : BridgeParams) (bridge : Bridge) : Bool := bridge.outstandingResponses == params.respQueueLimit

def reqQueueFull (params : BridgeParams) (bridge : Bridge) : Bool :=
  bridge.memSidePort.transmitList.length == params.reqQueueLimit

def schedTimingReq (params : BridgeParams) (now : Tick) (bridge : Bridge) (deferred : DeferredPacket) : Except Abort Bridge := do
  let memSidePort ← bridge.memSidePort.schedTiming now (!bridge.reqQueueFull params) deferred
  return { bridge with memSidePort }

def schedTimingResp (now : Tick) (bridge : Bridge) (deferred : DeferredPacket) : Except Abort Bridge := do
  let cpuSidePort ← bridge.cpuSidePort.schedTiming now true deferred
  return { bridge with cpuSidePort }

/-- The packet without its delays, and the tick at which it has crossed the bridge. -/
def receive (params : BridgeParams) (now : Tick) (pkt : Packet) : DeferredPacket where
  tick := clockEdge params.period now params.delay + (pkt.headerDelay + pkt.payloadDelay)
  pkt := { pkt with
    headerDelay := 0
    payloadDelay := 0 }

def recvTimingResp (params : BridgeParams) (now : Tick) (bridge : Bridge) (pkt : Packet) :
    Except Abort (Bridge × List BridgeLabel) := do
  let deferred := receive params now pkt
  let bridge ← bridge.schedTimingResp now deferred
  return (bridge, [.arrived deferred])

def recvTimingReq (params : BridgeParams) (now : Tick) (bridge : Bridge) (pkt : Packet) :
    Except Abort (Bridge × List BridgeLabel) := do
  panicIf pkt.cacheResponding "Should not see packets where cache is responding"
  if bridge.retryReq then return (bridge, [.refused pkt])
  else
    if bridge.reqQueueFull params then return ({ bridge with retryReq := true }, [.refused pkt])
    else
      let expectsResponse := pkt.needsResponse
      let bridge ← (if expectsResponse then
          if bridge.respQueueFull params then .ok { bridge with retryReq := true }
          else do
            require (bridge.outstandingResponses != params.respQueueLimit) "outstandingResponses != respQueueLimit"
            return { bridge with outstandingResponses := bridge.outstandingResponses + 1 }
        else .ok bridge)
      if !bridge.retryReq then
        let deferred := receive params now pkt
        let bridge ← bridge.schedTimingReq params now deferred
        return (bridge, [.accepted deferred])
      else return (bridge, [.refused pkt])

def retryStalledReq (bridge : Bridge) : Bridge × List BridgeLabel :=
  if bridge.retryReq then ({ bridge with retryReq := false }, [.sentRetry]) else (bridge, [])

def trySendTimingReq (now : Tick) (bridge : Bridge) : Except Abort Bridge := do
  let memSidePort ← bridge.memSidePort.trySendTiming now "req.tick <= curTick()"
  return { bridge with memSidePort }

def trySendTimingResp (now : Tick) (bridge : Bridge) : Except Abort Bridge := do
  let cpuSidePort ← bridge.cpuSidePort.trySendTiming now "resp.tick <= curTick()"
  return { bridge with cpuSidePort }

/-- The rest of trySendTiming of the request port, once sendTimingReq has returned. -/
def sentTimingReq (params : BridgeParams) (now : Tick) (bridge : Bridge) (success : Bool) :
    Except Abort (Bridge × List BridgeLabel) := do
  if success then
    match bridge.memSidePort.transmitList with
    | [] => .error .outOfBounds
    | front :: _ =>
      let memSidePort ← bridge.memSidePort.sendNext params.period now
      let (bridge, labels) := retryStalledReq { bridge with memSidePort }
      return (bridge, .sentReq front now :: labels)
  else return ({ bridge with memSidePort := bridge.memSidePort.sendFailed }, [])

/-- The rest of trySendTiming of the response port, once sendTimingResp has returned. -/
def sentTimingResp (params : BridgeParams) (now : Tick) (bridge : Bridge) (success : Bool) :
    Except Abort (Bridge × List BridgeLabel) := do
  if success then
    match bridge.cpuSidePort.transmitList with
    | [] => .error .outOfBounds
    | front :: _ =>
      require (bridge.outstandingResponses != 0) "outstandingResponses != 0"
      let cpuSidePort ← bridge.cpuSidePort.sendNext params.period now
      let bridge := { bridge with
        cpuSidePort
        outstandingResponses := bridge.outstandingResponses - 1 }
      if !bridge.reqQueueFull params && bridge.retryReq then
        return ({ bridge with retryReq := false }, [.sentResp front now, .sentRetry])
      else return (bridge, [.sentResp front now])
  else return ({ bridge with cpuSidePort := bridge.cpuSidePort.sendFailed }, [])

/-- A bridge, and the requests for which the memory side owes a response. -/
structure State where
  bridge : Bridge := {}
  now : Tick := 0
  inFlight : List Nat := []

inductive Event where
  | recvTimingReq (pkt : Packet)
  | recvTimingResp (pkt : Packet)
  | sendReq
  | sendResp
  | recvReqRetry
  | recvRespRetry
  | reqReturned (success : Bool)
  | respReturned (success : Bool)
  | passed (now : Tick)

def offered (bridge : Bridge) : List Nat :=
  match bridge.memSidePort.transmitList with
  | [] => []
  | front :: _ => if front.pkt.needsResponse then [front.pkt.id] else []

/-- The memory side may respond from the moment at which it is called. -/
def step (params : BridgeParams) : Step State Event BridgeLabel Abort := fun state event =>
  match event with
  | .recvTimingReq pkt => do
    let (bridge, labels) ← state.bridge.recvTimingReq params state.now pkt
    return ({ state with bridge }, labels)
  | .recvTimingResp pkt => do
    let (bridge, labels) ← state.bridge.recvTimingResp params state.now pkt
    return ({ state with
      bridge
      inFlight := state.inFlight.erase pkt.id }, labels)
  | .sendReq => do
    let bridge ← { state.bridge with memSidePort.sendEvent := none }.trySendTimingReq state.now
    return ({ state with
      bridge
      inFlight := state.bridge.offered ++ state.inFlight }, [])
  | .sendResp => do
    let bridge ← { state.bridge with cpuSidePort.sendEvent := none }.trySendTimingResp state.now
    return ({ state with bridge }, [])
  | .recvReqRetry => do
    let bridge ← state.bridge.trySendTimingReq state.now
    return ({ state with
      bridge
      inFlight := state.bridge.offered ++ state.inFlight }, [])
  | .recvRespRetry => do
    let bridge ← state.bridge.trySendTimingResp state.now
    return ({ state with bridge }, [])
  | .reqReturned success => do
    let (bridge, labels) ← state.bridge.sentTimingReq params state.now success
    return ({ state with
      bridge
      inFlight := if success then state.inFlight else state.inFlight.diff state.bridge.offered }, labels)
  | .respReturned success => do
    let (bridge, labels) ← state.bridge.sentTimingResp params state.now success
    return ({ state with bridge }, labels)
  | .passed now => .ok ({ state with now }, [])

end Bridge

end ImcGem5.Mem
