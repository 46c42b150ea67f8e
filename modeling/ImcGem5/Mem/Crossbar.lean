import ImcGem5.Mem.Layer
import Mathlib.Logic.Function.Basic

/-! NoncoherentXBar and CoherentXBar in timing mode, over memories that are SimpleMemory
or PIMCtrl. Such memories send no snoops, so recvTimingSnoopReq and the snoop response
layers are never used. The caches above a coherent crossbar, and its snoop filter, are
seen in what snooping leaves in a packet. -/

namespace ImcGem5.Mem
open Lib

/-- Who stopped the simulation. -/
inductive SystemAbort where
  | crossbar (abort : Abort)
  | memory (port : PortID) (abort : Abort)
  deriving DecidableEq, Repr

def own {α : Type} (result : Except Abort α) : Except SystemAbort α := result.mapError .crossbar

def below {α : Type} (port : PortID) (result : Except Abort α) : Except SystemAbort α := result.mapError (.memory port)

structure XBarParams where
  period : Tick
  frontendLatency : Nat
  forwardLatency : Nat
  responseLatency : Nat
  headerLatency : Nat
  width : Nat
  us : Tick
  cpuSidePorts : Nat
  portMap : Addr → Nat → Option PortID

structure CoherentParams where
  bypassCaches : Bool
  pointOfCoherency : Bool
  pointOfUnification : Bool
  maxOutstandingSnoopCheck : Nat
  maxRoutingTableSizeCheck : Nat

/-- The source of a response: a memory-side port, or the port that mirrors a CPU-side
port whose cache answers a snoop. -/
inductive RespSource where
  | memSide (port : PortID)
  | snoopResp (port : PortID)
  deriving DecidableEq, Repr

/-- A crossbar and the memories below it. The tables are keyed by the identity of a
request, outstandingCMO by that of a packet. -/
structure XBar where
  memories : PortID → MemCtrl
  routeTo : List (Nat × PortID) := []
  outstandingSnoop : List Nat := []
  outstandingCMO : List (Nat × Option Packet) := []
  reqLayers : PortID → Layer PortID := fun _ => {}
  respLayers : PortID → Layer RespSource := fun _ => {}

/-- Why a request that was accepted will be answered: the memory below took it, a
snooped cache promised to respond, it is a cache clean that waits for its write, or
the crossbar responds itself. -/
inductive Answer where
  | downstream
  | promised
  | deferred
  | direct
  deriving DecidableEq, Repr

/-- `answers` says from where the packet will be answered, if at all. -/
inductive XBarLabel where
  | refused (port : PortID) (pkt : Packet)
  | accepted (port : PortID) (pkt : Packet) (answers : List Answer)
  | memory (port : PortID) (label : MemLabel)
  | responded (port : PortID) (pkt : Packet)

/-- What is left in a packet by the snoop filter and the caches it was forwarded to. -/
structure Snoop where
  cacheResponding : Bool := false
  responderHadWritable : Bool := false
  satisfied : Bool := false
  blockCached : Bool := false
  lookupLatency : Nat := 0
  snoopDelay : Tick := 0

namespace XBarParams

def findPort (params : XBarParams) (pkt : Packet) : Except Abort PortID :=
  match params.portMap pkt.addr pkt.size with
  | some port => .ok port
  | none => .error (.panic "Unable to find destination")

def calcPacketTiming (params : XBarParams) (now : Tick) (pkt : Packet) (delay : Tick) : Except Abort Packet := do
  let offset := clockEdge params.period now 0 - now
  let headerDelay := pkt.headerDelay + (offset + delay)
  panicIf (decide (headerDelay > params.us)) "Encountered header delay exceeding 1 us"
  let payload := (pkt.size + params.width - 1) / params.width * params.period
  return { pkt with headerDelay, payloadDelay := if pkt.hasData then max pkt.payloadDelay payload else pkt.payloadDelay }

end XBarParams

namespace XBar

def setReqLayer (xbar : XBar) (port : PortID) (layer : Layer PortID) : XBar :=
  { xbar with reqLayers := Function.update xbar.reqLayers port layer }

def setRespLayer (xbar : XBar) (port : PortID) (layer : Layer RespSource) : XBar :=
  { xbar with respLayers := Function.update xbar.respLayers port layer }

def setMemory (xbar : XBar) (port : PortID) (memory : MemCtrl) : XBar :=
  { xbar with memories := Function.update xbar.memories port memory }

/-- routeTo[req] = port -/
def remember (xbar : XBar) (req : Nat) (port : PortID) : Except Abort XBar := do
  require (xbar.routeTo.lookup req).isNone "routeTo.find(pkt->req) == routeTo.end()"
  return { xbar with routeTo := (req, port) :: xbar.routeTo }

def route (params : XBarParams) (xbar : XBar) (req : Nat) : Except Abort PortID :=
  match xbar.routeTo.lookup req with
  | none => .error (.assertion "route_lookup != routeTo.end()")
  | some port => do
    require (decide (port < params.cpuSidePorts)) "cpu_side_port_id < respLayers.size()"
    return port

/-- routeTo.erase(route_lookup) -/
def forget (xbar : XBar) (req : Nat) : XBar :=
  { xbar with routeTo := xbar.routeTo.eraseP fun entry => entry.1 == req }

def recvTimingResp (params : XBarParams) (cycles : Nat) (xbar : XBar) (now : Tick) (pkt : Packet)
    (memSidePort : PortID) : Except SystemAbort (XBar × Bool × List XBarLabel) := do
  let cpuSidePort ← own (xbar.route params pkt.req.id)
  let (layer, free) ← own ((xbar.respLayers cpuSidePort).tryTiming (.memSide memSidePort))
  if !free then return (xbar.setRespLayer cpuSidePort layer, false, [])
  else
    let pkt ← own (params.calcPacketTiming now pkt (params.responseLatency * params.period))
    let layer ← own (layer.succeededTiming now (clockEdge params.period now cycles + pkt.payloadDelay))
    return ((xbar.forget pkt.req.id).setRespLayer cpuSidePort layer, true,
      [.responded cpuSidePort { pkt with headerDelay := 0 }])

end XBar

namespace NoncoherentXBar

def recvTimingReq (params : XBarParams) (xbar : XBar) (now : Tick) (random : Nat) (pkt : Packet)
    (cpuSidePort : PortID) : Except SystemAbort (XBar × Bool × List XBarLabel) := do
  own (require (!pkt.expressSnoop) "!pkt->isExpressSnoop()")
  let memSidePort ← own (params.findPort pkt)
  let (layer, free) ← own ((xbar.reqLayers memSidePort).tryTiming cpuSidePort)
  if !free then return (xbar.setReqLayer memSidePort layer, false, [.refused cpuSidePort pkt])
  else
    let timed ← own (params.calcPacketTiming now pkt ((params.frontendLatency + params.forwardLatency) * params.period))
    let packetFinishTime := clockEdge params.period now 1 + timed.payloadDelay
    let expectResponse := timed.needsResponse && !timed.cacheResponding
    let (memory, success, made) ← below memSidePort ((xbar.memories memSidePort).recvTimingReq now random timed)
    let xbar := xbar.setMemory memSidePort memory
    let labels := made.map (.memory memSidePort)
    if !success then
      let layer ← own (layer.failedTiming cpuSidePort now (clockEdge params.period now 1))
      return (xbar.setReqLayer memSidePort layer, false, labels ++ [.refused cpuSidePort pkt])
    else
      let xbar ← own (if expectResponse then xbar.remember pkt.req.id cpuSidePort else .ok xbar)
      let layer ← own (layer.succeededTiming now packetFinishTime)
      return (xbar.setReqLayer memSidePort layer, true,
        labels ++ [.accepted cpuSidePort pkt (if expectResponse then [.downstream] else [])])

end NoncoherentXBar

namespace CoherentXBar

def isDestination (coherent : CoherentParams) (pkt : Packet) : Bool :=
  (pkt.req.isToPOC && coherent.pointOfCoherency) || (pkt.req.isToPOU && coherent.pointOfUnification)

def sinkPacket (coherent : CoherentParams) (pkt : Packet) : Bool :=
  (coherent.pointOfCoherency && pkt.cacheResponding) ||
  (coherent.pointOfCoherency && !(pkt.isRead || pkt.isWrite) && !pkt.needsResponse) ||
  (pkt.isCleanEviction && pkt.blockCached) ||
  (pkt.cacheResponding && (!pkt.needsWritable || pkt.responderHadWritable))

def forwardPacket (coherent : CoherentParams) (pkt : Packet) : Bool :=
  if pkt.isClean then !isDestination coherent pkt
  else pkt.isRead || pkt.isWrite || !coherent.pointOfCoherency

/-- The packet after the crossbar has looked for it in the caches above. A clean that is
not for this crossbar first asks the memory whether it could take it, and the port of a
memory has no answer to that. -/
def snoopCaches (params : XBarParams) (coherent : CoherentParams) (memSidePort : PortID) (snoop : Snoop)
    (pkt : Packet) : Except SystemAbort Packet :=
  if !coherent.bypassCaches && pkt.cmd != .writeClean then do
    own (require (pkt.snoopDelay == 0) "pkt->snoopDelay == 0")
    if pkt.isClean && !isDestination coherent pkt then
      .error (.memory memSidePort (.panic "was not expecting a tryTiming"))
    else
      return { pkt with
        cacheResponding := pkt.cacheResponding || snoop.cacheResponding
        responderHadWritable := pkt.responderHadWritable || snoop.responderHadWritable
        satisfied := pkt.satisfied || snoop.satisfied
        blockCached := pkt.blockCached || snoop.blockCached
        headerDelay := pkt.headerDelay + snoop.lookupLatency * params.period + snoop.snoopDelay }
  else .ok pkt

/-- What became of a packet: sunk, passed on to the memory, or turned around. -/
structure Delivery where
  xbar : XBar
  success : Bool
  expectResponse : Bool
  respondDirectly : Bool
  labels : List XBarLabel

def deliver (coherent : CoherentParams) (xbar : XBar) (now : Tick) (random : Nat) (pkt : Packet)
    (memSidePort : PortID) (expectSnoopResp : Bool) : Except SystemAbort Delivery :=
  let expectResponse := pkt.needsResponse && !pkt.cacheResponding
  if sinkPacket coherent pkt then .ok ⟨xbar, true, expectResponse, false, []⟩
  else if forwardPacket coherent pkt then do
    let forwarded := { pkt with
      expressSnoop := pkt.expressSnoop || pkt.cacheResponding
      writeThrough := pkt.writeThrough && !(pkt.isWrite && isDestination coherent pkt) }
    let (memory, success, made) ← below memSidePort ((xbar.memories memSidePort).recvTimingReq now random forwarded)
    return ⟨xbar.setMemory memSidePort memory, success, expectResponse, false, made.map (.memory memSidePort)⟩
  else do
    own (require pkt.needsResponse "pkt->needsResponse()")
    own (require (!expectSnoopResp) "!expect_snoop_resp")
    return ⟨xbar, true, false, true, []⟩

def checkRoutingTable (coherent : CoherentParams) (xbar : XBar) : Except Abort Unit :=
  panicIf (decide (xbar.routeTo.length > coherent.maxRoutingTableSizeCheck)) "Routing table exceeds packets"

/-- What a delivered packet expects. -/
def answersOf (expectResponse expectSnoopResp : Bool) : List Answer :=
  if expectResponse then [.downstream] else if expectSnoopResp then [.promised] else []

/-- outstandingSnoop.insert(pkt->req), with its checks. -/
def expectSnoop (coherent : CoherentParams) (xbar : XBar) (pkt : Packet) : Except Abort XBar := do
  require (decide (pkt.req.id ∉ xbar.outstandingSnoop)) "outstandingSnoop.find(pkt->req) == outstandingSnoop.end()"
  let outstandingSnoop := pkt.req.id :: xbar.outstandingSnoop
  panicIf (decide (outstandingSnoop.length > coherent.maxOutstandingSnoopCheck)) "Outstanding snoop requests exceeded"
  return { xbar with outstandingSnoop }

/-- The books kept for a packet that was delivered. -/
def record (coherent : CoherentParams) (xbar : XBar) (pkt : Packet) (cpuSidePort : PortID)
    (expectResponse expectSnoopResp : Bool) : Except Abort XBar := do
  let xbar ← (if expectSnoopResp then expectSnoop coherent xbar pkt else .ok xbar)
  if expectResponse || expectSnoopResp then
    let xbar ← xbar.remember pkt.req.id cpuSidePort
    checkRoutingTable coherent xbar
    return xbar
  else return xbar

/-- How cache maintenance ends for a packet: what answers it now expects, and whom the
crossbar answers at once, the packet itself or the clean that waited for it. -/
structure Completion where
  xbar : XBar
  answers : List Answer
  response : Option (PortID × Packet)

/-- At its destination a clean that a cache satisfies is answered when both it and the
write of that cache have come by. -/
def completeClean (params : XBarParams) (coherent : CoherentParams) (xbar : XBar) (pkt : Packet)
    (cpuSidePort : PortID) (respondDirectly : Bool) : Except Abort Completion :=
  if ((pkt.isClean && pkt.satisfied) || pkt.cmd == .writeClean) && isDestination coherent pkt then
    match xbar.outstandingCMO.lookup pkt.id with
    | some waiting =>
      let xbar := { xbar with outstandingCMO := xbar.outstandingCMO.eraseP fun entry => entry.1 == pkt.id }
      if pkt.isWrite then
        match waiting with
        | none => .error (.assertion "rsp_pkt")
        | some clean => do
          let port ← xbar.route params clean.req.id
          return ⟨xbar.forget clean.req.id, [], some (port, clean)⟩
      else .ok ⟨xbar, [.direct], some (cpuSidePort, pkt)⟩
    | none =>
      if pkt.isWrite then .ok ⟨{ xbar with outstandingCMO := (pkt.id, none) :: xbar.outstandingCMO }, [], none⟩
      else do
        let xbar := { xbar with outstandingCMO := (pkt.id, some pkt) :: xbar.outstandingCMO }
        let xbar ← xbar.remember pkt.req.id cpuSidePort
        checkRoutingTable coherent xbar
        return ⟨xbar, [.deferred], none⟩
  else if respondDirectly then .ok ⟨xbar, [.direct], some (cpuSidePort, pkt)⟩
  else .ok ⟨xbar, [], none⟩

def respond : Option (PortID × Packet) → Except Abort (List XBarLabel)
  | none => .ok []
  | some (port, pkt) => do
    let turned ← pkt.makeResponse
    return [.responded port { turned with headerDelay := 0 }]

/-- The memory turns a packet that it takes into its response, but none that
completeClean looks at, so the packet is read here as it was passed on. -/
def recvTimingReq (params : XBarParams) (coherent : CoherentParams) (xbar : XBar) (now : Tick) (random : Nat)
    (pkt : Packet) (cpuSidePort : PortID) (snoop : Snoop) : Except SystemAbort (XBar × Bool × List XBarLabel) := do
  let isExpressSnoop := pkt.expressSnoop
  own (require (isExpressSnoop == pkt.cacheResponding) "is_express_snoop == cache_responding")
  let memSidePort ← own (params.findPort pkt)
  let (layer, free) ← own (if isExpressSnoop then .ok (xbar.reqLayers memSidePort, true)
    else (xbar.reqLayers memSidePort).tryTiming cpuSidePort)
  if !free then return (xbar.setReqLayer memSidePort layer, false, [.refused cpuSidePort pkt])
  else
    let timed ← own (params.calcPacketTiming now pkt ((params.frontendLatency + params.forwardLatency) * params.period))
    let packetFinishTime := clockEdge params.period now params.headerLatency + timed.payloadDelay
    let snooped ← snoopCaches params coherent memSidePort snoop timed
    let expectSnoopResp := !pkt.cacheResponding && snooped.cacheResponding
    let delivery ← deliver coherent xbar now random snooped memSidePort expectSnoopResp
    if !delivery.success then
      own (require (!isExpressSnoop) "!is_express_snoop")
      let layer ← own (layer.failedTiming cpuSidePort now (clockEdge params.period now 1))
      return (delivery.xbar.setReqLayer memSidePort layer, false, delivery.labels ++ [.refused cpuSidePort pkt])
    else
      -- express snoops bypass the state of the crossbar
      let (recorded, layer, answers) ← own (if isExpressSnoop then .ok (delivery.xbar, layer, []) else do
        let recorded ← record coherent delivery.xbar snooped cpuSidePort delivery.expectResponse expectSnoopResp
        let layer ← layer.succeededTiming now packetFinishTime
        return (recorded, layer, answersOf delivery.expectResponse expectSnoopResp))
      let completion ← own (completeClean params coherent recorded snooped cpuSidePort delivery.respondDirectly)
      let responses ← own (respond completion.response)
      return (completion.xbar.setReqLayer memSidePort layer, true,
        delivery.labels ++ .accepted cpuSidePort pkt (completion.answers ++ answers) :: responses)

/-- A snoop response that the crossbar did not ask for would be passed on, through an
idle snoop layer, to a memory. -/
def recvTimingSnoopResp (params : XBarParams) (xbar : XBar) (now : Tick) (pkt : Packet) (cpuSidePort : PortID) :
    Except SystemAbort (XBar × Bool × List XBarLabel) :=
  if pkt.req.id ∉ xbar.outstandingSnoop then
    match xbar.routeTo.lookup pkt.req.id with
    | none => .error (.crossbar (.assertion "route_lookup != routeTo.end()"))
    | some destPort => .error (.memory destPort (.panic "was not expecting a timing snoop response"))
  else do
    let destPort ← own (xbar.route params pkt.req.id)
    let (layer, free) ← own ((xbar.respLayers destPort).tryTiming (.snoopResp cpuSidePort))
    if !free then return (xbar.setRespLayer destPort layer, false, [])
    else
      own (require (!pkt.expressSnoop) "!pkt->isExpressSnoop()")
      let pkt ← own (params.calcPacketTiming now pkt (params.responseLatency * params.period))
      own (require (cpuSidePort != destPort) "cpu_side_port_id != dest_port_id")
      let layer ← own (layer.succeededTiming now (clockEdge params.period now params.headerLatency + pkt.payloadDelay))
      let xbar := { xbar with outstandingSnoop := xbar.outstandingSnoop.erase pkt.req.id }
      return ((xbar.forget pkt.req.id).setRespLayer destPort layer, true,
        [.responded destPort { pkt with headerDelay := 0 }])

end CoherentXBar

inductive XBarType where
  | noncoherent
  | coherent (params : CoherentParams)

/-- One step of the crossbar, of a memory below it, or of one of its layers. A port
that is told to retry sends, if at all, in a later step. -/
inductive XBarEvent where
  | recvTimingReq (now : Tick) (random : Nat) (port : PortID) (pkt : Packet) (snoop : Snoop)
  | recvTimingSnoopResp (now : Tick) (port : PortID) (pkt : Packet)
  | dequeue (now : Tick) (memSidePort : PortID)
  | recvRespRetry (now : Tick) (memSidePort : PortID)
  | release (memSidePort : PortID)
  | reqLayerRelease (memSidePort : PortID)
  | reqLayerReturned (now : Tick) (memSidePort : PortID)
  | respLayerRelease (cpuSidePort : PortID)
  | respLayerReturned (now : Tick) (cpuSidePort : PortID)

namespace XBar

def headerCycles (params : XBarParams) : XBarType → Nat
  | .noncoherent => 1
  | .coherent _ => params.headerLatency

/-- A memory sends its first response; `finish` is what it does with the answer. -/
def sendTimingResp (params : XBarParams) (type : XBarType) (xbar : XBar) (now : Tick) (memSidePort : PortID)
    (finish : MemCtrl → Bool → Except Abort (MemCtrl × List MemLabel)) : Except SystemAbort (XBar × List XBarLabel) :=
  match (xbar.memories memSidePort).packetQueue with
  | [] => .error (.memory memSidePort (.assertion "!packetQueue.empty()"))
  | deferred :: _ => do
    let (xbar, taken, labels) ← xbar.recvTimingResp params (headerCycles params type) now deferred.pkt memSidePort
    let (memory, made) ← below memSidePort (finish (xbar.memories memSidePort) taken)
    return (xbar.setMemory memSidePort memory, labels ++ made.map (.memory memSidePort))

def recvTimingReq (params : XBarParams) (type : XBarType) (xbar : XBar) (now : Tick) (random : Nat) (pkt : Packet)
    (cpuSidePort : PortID) (snoop : Snoop) : Except SystemAbort (XBar × Bool × List XBarLabel) :=
  match type with
  | .noncoherent => NoncoherentXBar.recvTimingReq params xbar now random pkt cpuSidePort
  | .coherent coherent => CoherentXBar.recvTimingReq params coherent xbar now random pkt cpuSidePort snoop

def step (params : XBarParams) (type : XBarType) : Step XBar XBarEvent XBarLabel SystemAbort := fun xbar event =>
  match event with
  | .recvTimingReq now random port pkt snoop => do
    let (xbar, _, labels) ← xbar.recvTimingReq params type now random pkt port snoop
    return (xbar, labels)
  | .recvTimingSnoopResp now port pkt => do
    let (xbar, _, labels) ← CoherentXBar.recvTimingSnoopResp params xbar now pkt port
    return (xbar, labels)
  | .dequeue now port =>
    xbar.sendTimingResp params type now port fun memory taken => { memory with dequeueEvent := none }.dequeue now [] taken
  | .recvRespRetry now port =>
    xbar.sendTimingResp params type now port fun memory taken => memory.recvRespRetry now [] taken
  | .release port => do
    let (memory, made) ← below port (xbar.memories port).release
    let layer ← own (if (xbar.memories port).retryReq then (·.1) <$> (xbar.reqLayers port).recvRetry
      else .ok (xbar.reqLayers port))
    return ((xbar.setMemory port memory).setReqLayer port layer, made.map (.memory port))
  | .reqLayerRelease port => do
    let (layer, _) ← own { xbar.reqLayers port with releaseEvent := none }.releaseLayer
    return (xbar.setReqLayer port layer, [])
  | .reqLayerReturned now port => do
    let layer ← own ((xbar.reqLayers port).retrySent now (clockEdge params.period now 0))
    return (xbar.setReqLayer port layer, [])
  | .respLayerRelease port => do
    let (layer, _) ← own { xbar.respLayers port with releaseEvent := none }.releaseLayer
    return (xbar.setRespLayer port layer, [])
  | .respLayerReturned now port => do
    let layer ← own ((xbar.respLayers port).retrySent now (clockEdge params.period now 0))
    return (xbar.setRespLayer port layer, [])

end XBar

end ImcGem5.Mem
