import ImcGem5.Mem.Controller
import ImcGem5.Lib.Line

/-! BaseXBar::Layer, the flow control at one destination port of a crossbar. A call
of the layer may call back into it before it returns: sendRetry reaches a source
port that may send at once, and the peer that is handed a packet may make others
send. retryWaiting is therefore cut at sendRetry, and the calls that have not
returned are part of the state. -/

namespace ImcGem5.Mem
open Lib

inductive LayerState where
  | idle
  | busy
  | retry
  deriving DecidableEq, Repr

inductive DrainState where
  | running
  | draining
  | drained
  | resuming
  deriving DecidableEq, Repr

/-- `π` is the type of the source ports. -/
structure Layer (π : Type) where
  state : LayerState := .idle
  waitingForLayer : List π := []
  waitingForPeer : Option π := none
  releaseEvent : Option Tick := none
  drainState : DrainState := .running
  occupancy : Tick := 0
  deriving DecidableEq, Repr

/-- Clocked::clockEdge for a clock whose period does not change: the first edge that
is not in the past, and so many cycles more. -/
def clockEdge (period now : Tick) (cycles : Nat) : Tick :=
  (now + period - 1) / period * period + period * cycles

namespace Layer

variable {π : Type}

def occupyLayer (layer : Layer π) (now deadline : Tick) : Except Abort (Layer π) := do
  require (layer.state == .busy) "state == BUSY"
  require (deadline != 0) "until != 0"
  let releaseEvent ← schedule now layer.releaseEvent deadline
  return { layer with releaseEvent, occupancy := layer.occupancy + (deadline - now) }

def tryTiming [DecidableEq π] (layer : Layer π) (srcPort : π) : Except Abort (Layer π × Bool) :=
  if layer.state = .busy ∨ layer.waitingForPeer.isSome then do
    require (decide (srcPort ∉ layer.waitingForLayer)) "find(waitingForLayer, src_port) == waitingForLayer.end()"
    return ({ layer with waitingForLayer := layer.waitingForLayer ++ [srcPort] }, false)
  else return ({ layer with state := .busy }, true)

def succeededTiming (layer : Layer π) (now busyTime : Tick) : Except Abort (Layer π) := do
  require (layer.state == .busy) "state == BUSY"
  layer.occupyLayer now busyTime

def failedTiming (layer : Layer π) (srcPort : π) (now busyTime : Tick) : Except Abort (Layer π) := do
  require layer.waitingForPeer.isNone "waitingForPeer == NULL"
  require (layer.state == .busy) "state == BUSY"
  { layer with waitingForPeer := some srcPort }.occupyLayer now busyTime

/-- retryWaiting up to sendRetry, with the port that is told to retry. -/
def retryWaiting (layer : Layer π) : Except Abort (Layer π × π) :=
  match layer.waitingForLayer with
  | [] => .error (.assertion "!waitingForLayer.empty()")
  | retryingPort :: rest => do
    require (layer.state == .idle) "state == IDLE"
    return ({ layer with state := .retry, waitingForLayer := rest }, retryingPort)

/-- retryWaiting from where sendRetry returns. -/
def retrySent (layer : Layer π) (now nextEdge : Tick) : Except Abort (Layer π) :=
  if layer.state = .retry then { layer with state := .busy }.occupyLayer now nextEdge else .ok layer

def releaseLayer (layer : Layer π) : Except Abort (Layer π × Option π) := do
  require (layer.state == .busy) "state == BUSY"
  require layer.releaseEvent.isNone "!releaseEvent.scheduled()"
  let layer := { layer with state := .idle }
  if !layer.waitingForLayer.isEmpty then
    if layer.waitingForPeer.isNone then
      let (layer, retryingPort) ← layer.retryWaiting
      return (layer, some retryingPort)
    else return (layer, none)
  else if layer.waitingForPeer.isNone && layer.drainState == .draining then
    -- signalDrainDone
    return ({ layer with drainState := .drained }, none)
  else return (layer, none)

def recvRetry (layer : Layer π) : Except Abort (Layer π × Option π) :=
  match layer.waitingForPeer with
  | none => .error (.assertion "waitingForPeer != NULL")
  | some port => do
    let layer := { layer with waitingForLayer := port :: layer.waitingForLayer, waitingForPeer := none }
    if layer.state = .idle then
      let (layer, retryingPort) ← layer.retryWaiting
      return (layer, some retryingPort)
    else
      require (layer.state == .busy) "state == BUSY"
      return (layer, none)

def drain (layer : Layer π) : DrainState :=
  if layer.state ≠ .idle then .draining else .drained

end Layer

/-- A call that has not returned: the crossbar has passed on a packet of a port and
waits for the peer's answer, or the layer is inside sendRetry. -/
inductive LayerCall (π : Type) where
  | sending (port : π)
  | retrying
  deriving DecidableEq, Repr

/-- A layer with the parties it talks to: the ports that were refused and have not been
told to retry, and whether the peer has refused a packet and not yet asked for it. -/
structure LayerTraffic (π : Type) where
  period : Tick
  now : Tick := 0
  layer : Layer π := {}
  calls : List (LayerCall π) := []
  blocked : List π := []
  peerOwes : Bool := false
  deriving DecidableEq, Repr

inductive LayerMove (π : Type) where
  /-- a port presents a packet, as recvTimingReq and recvTimingResp do -/
  | send (port : π)
  /-- the peer returns, and the layer is told how long the packet occupies it -/
  | answer (success : Bool) (cycles : Nat) (payloadDelay : Tick)
  | peerRetry
  /-- the port that was told to retry returns -/
  | returned
  | release
  | wait (ticks : Tick)
  | drain
  | resume
  deriving DecidableEq, Repr

inductive LayerLabel (π : Type) where
  | refused (port : π)
  | passedOn (port : π)
  | failed (port : π)
  | retried (port : π)
  deriving DecidableEq, Repr

namespace LayerTraffic

variable {π : Type} [DecidableEq π]

/-- sendRetry, if the layer has chosen a port for it. -/
def sendRetry (traffic : LayerTraffic π) : Option π → LayerTraffic π × List (LayerLabel π)
  | none => (traffic, [])
  | some port =>
    ({ traffic with calls := .retrying :: traffic.calls, blocked := traffic.blocked.erase port }, [.retried port])

/-- Moves that cannot be made (an answer nobody waits for, an event before its tick
or inside a call) change nothing. -/
def step : Step (LayerTraffic π) (LayerMove π) (LayerLabel π) Abort := fun traffic move =>
  match move with
  | .send port => do
    let (layer, accepted) ← traffic.layer.tryTiming port
    if accepted then return ({ traffic with layer, calls := .sending port :: traffic.calls }, [.passedOn port])
    else return ({ traffic with layer, blocked := port :: traffic.blocked }, [.refused port])
  | .answer success cycles payloadDelay =>
    match traffic.calls with
    | .sending port :: calls =>
      if success then do
        let busyTime := clockEdge traffic.period traffic.now cycles + payloadDelay
        let layer ← traffic.layer.succeededTiming traffic.now busyTime
        return ({ traffic with layer, calls }, [])
      else do
        let layer ← traffic.layer.failedTiming port traffic.now (clockEdge traffic.period traffic.now 1)
        return ({ traffic with layer, calls, blocked := port :: traffic.blocked, peerOwes := true }, [.failed port])
    | _ => .ok (traffic, [])
  | .peerRetry => do
    let (layer, retryingPort) ← traffic.layer.recvRetry
    return { traffic with layer, peerOwes := false }.sendRetry retryingPort
  | .returned =>
    match traffic.calls with
    | .retrying :: calls => do
      let layer ← traffic.layer.retrySent traffic.now (clockEdge traffic.period traffic.now 0)
      return ({ traffic with layer, calls }, [])
    | _ => .ok (traffic, [])
  | .release =>
    if traffic.calls = [] ∧ traffic.layer.releaseEvent = some traffic.now then do
      -- an event that fires is no longer scheduled
      let (layer, retryingPort) ← { traffic.layer with releaseEvent := none }.releaseLayer
      return { traffic with layer }.sendRetry retryingPort
    else .ok (traffic, [])
  | .wait ticks =>
    if traffic.calls = [] ∧ ∀ due ∈ traffic.layer.releaseEvent, traffic.now + ticks ≤ due then
      .ok ({ traffic with now := traffic.now + ticks }, [])
    else .ok (traffic, [])
  | .drain => .ok ({ traffic with layer.drainState := traffic.layer.drain }, [])
  | .resume =>
    if traffic.layer.drainState = .drained then .ok ({ traffic with layer.drainState := .running }, [])
    else .ok (traffic, [])

/-- The port protocol: a port that was refused, or whose last packet has not been
answered, does not send; the peer asks only for what it refused; and nothing
occupies the layer until tick 0. -/
def Follows (traffic : LayerTraffic π) : LayerMove π → Prop
  | .send port => port ∉ traffic.blocked ∧ .sending port ∉ traffic.calls
  | .answer success cycles payloadDelay =>
    success → clockEdge traffic.period traffic.now cycles + payloadDelay ≠ 0
  | .peerRetry => traffic.peerOwes
  | _ => True

instance (traffic : LayerTraffic π) : ∀ move, Decidable (traffic.Follows move)
  | .send _ => inferInstanceAs (Decidable (_ ∧ _))
  | .answer _ _ _ => inferInstanceAs (Decidable (_ → _))
  | .peerRetry => inferInstanceAs (Decidable (_ = true))
  | .returned | .release | .wait _ | .drain | .resume => .isTrue trivial

end LayerTraffic

end ImcGem5.Mem
