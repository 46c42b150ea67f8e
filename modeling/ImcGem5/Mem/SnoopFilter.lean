import ImcGem5.Mem.Mshr
import Mathlib.Data.List.AList

/-! SnoopFilter: which CPU-side ports of a crossbar may have a line, and which have a
request for it under way. Statistics are left out. A packet here has no HAS_SHARERS flag,
so the operations that look at it are given it. -/

namespace ImcGem5.Mem

def Packet.isWriteback (pkt : Packet) : Bool := pkt.isEviction && pkt.hasData

abbrev SnoopMask := BitVec 256

structure SnoopItem where
  requested : SnoopMask := 0
  holder : SnoopMask := 0
  deriving DecidableEq, Repr

/-- `snooping` says of every CPU-side port of the crossbar whether its peer snoops, and
`fits` is what setCPUSidePorts insists on. -/
structure SnoopFilterParams where
  linesize : BitVec 32
  lookupLatency : Nat
  maxEntryCount : Nat
  snooping : List Bool
  fits : snooping.count true ≤ 256

namespace SnoopFilterParams

def isSnooping (params : SnoopFilterParams) (port : PortID) : Bool := params.snooping.getD port false

/-- localResponsePortIds: snooping ports are numbered in their order. -/
def localResponsePortId (params : SnoopFilterParams) (port : PortID) : Nat := (params.snooping.take port).count true

def cpuSidePorts (params : SnoopFilterParams) : List PortID :=
  (List.range params.snooping.length).filter params.isSnooping

def portToMask (params : SnoopFilterParams) (port : PortID) : SnoopMask :=
  if params.isSnooping port then 1#256 <<< params.localResponsePortId port else 0

def maskToPortList (params : SnoopFilterParams) (mask : SnoopMask) : List PortID :=
  params.cpuSidePorts.filter fun port => mask &&& params.portToMask port != 0

/-- The lowest bit of a line address is LineSecure. -/
def lineAddr (params : SnoopFilterParams) (addr : Addr) (isSecure : Bool) : Addr :=
  let blockAddr := addr &&& ~~~(params.linesize - 1).setWidth 64
  if isSecure then blockAddr ||| 1 else blockAddr

def lineOf (params : SnoopFilterParams) (pkt : Packet) : Addr := params.lineAddr pkt.addr pkt.isSecure

def allocate (params : SnoopFilterParams) (pkt : Packet) (port : PortID) : Bool :=
  !pkt.req.isUncacheable && params.isSnooping port && pkt.fromCache

end SnoopFilterParams

/-- `lookedUp` is the line that the iterator of reqLookupResult is at, if it is not at
the end. -/
structure SnoopFilter where
  cachedLocations : AList (fun _ : Addr => SnoopItem) := ∅
  lookedUp : Option Addr := none
  retryItem : SnoopItem := {}

/-- What lookupRequest makes of the item of a line for a packet that came from a cache. -/
def SnoopItem.request (item : SnoopItem) (pkt : Packet) (reqPort : SnoopMask) : Except Abort SnoopItem :=
  if pkt.needsResponse then
    if !pkt.cacheResponding then do
      panicIf (item.requested &&& reqPort != 0) "double request :("
      return { item with requested := item.requested ||| reqPort }
    else do
      -- the response will not be seen by this filter
      panicIf (item.holder &&& reqPort == 0) "Need to hold the value!"
      return item
  else do
    require pkt.isEviction "cpkt->isEviction()"
    panicIf (item.holder &&& reqPort == 0) "requestor is not a holder :("
    return if !pkt.blockCached then { item with holder := item.holder &&& ~~~reqPort } else item

namespace SnoopFilter

def find (filter : SnoopFilter) (line : Addr) : Option SnoopItem := filter.cachedLocations.lookup line

def set (filter : SnoopFilter) (line : Addr) (item : SnoopItem) : SnoopFilter :=
  { filter with cachedLocations := filter.cachedLocations.insert line item }

def eraseIfNullEntry (filter : SnoopFilter) (line : Addr) : SnoopFilter :=
  match filter.find line with
  | some item =>
    if item.requested ||| item.holder == 0 then { filter with cachedLocations := filter.cachedLocations.erase line }
    else filter
  | none => filter

/-- The filter, the ports to snoop, and the lookup latency. -/
def lookupRequest (params : SnoopFilterParams) (filter : SnoopFilter) (pkt : Packet) (cpuSidePort : PortID) :
    Except Abort (SnoopFilter × List PortID × Nat) :=
  let allocate := params.allocate pkt cpuSidePort
  let line := params.lineOf pkt
  let reqPort := params.portToMask cpuSidePort
  let found := filter.find line
  if found.isNone && !allocate then .ok ({ filter with lookedUp := none }, [], params.lookupLatency)
  else
    let item := found.getD {}
    let interested := item.holder ||| item.requested
    let filter := { filter.set line item with lookedUp := some line, retryItem := item }
    let ports := params.maskToPortList (interested &&& ~~~reqPort)
    if !allocate then .ok (filter, ports, params.lookupLatency)
    else do
      let item ← item.request pkt reqPort
      return (filter.set line item, ports, params.lookupLatency)

/-- An entry that was erased since lookupRequest leaves the iterator at nothing. -/
def finishRequest (params : SnoopFilterParams) (filter : SnoopFilter) (willRetry : Bool) (addr : Addr) (isSecure : Bool) :
    Except Abort SnoopFilter :=
  match filter.lookedUp with
  | none => .ok filter
  | some line =>
    match filter.find line with
    | none => .error .outOfBounds
    | some item => do
      require (line == params.lineAddr addr isSecure) "reqLookupResult.it->first == line_addr"
      let item := if willRetry then filter.retryItem else item
      return (filter.set line item).eraseIfNullEntry line

def lookupSnoop (params : SnoopFilterParams) (filter : SnoopFilter) (pkt : Packet) :
    Except Abort (SnoopFilter × List PortID × Nat) := do
  require pkt.isRequest "cpkt->isRequest()"
  let line := params.lineOf pkt
  match filter.find line with
  | none =>
    panicIf (decide (params.maxEntryCount ≤ filter.cachedLocations.entries.length)) "snoop filter exceeded capacity"
    return (filter, [], params.lookupLatency)
  | some item =>
    let interested := item.holder ||| item.requested
    require (pkt.isWriteback || pkt.req.isUncacheable || pkt.isInvalidate == pkt.needsWritable || pkt.req.isCacheMaintenance)
      "cpkt->isInvalidate() == cpkt->needsWritable()"
    let ports := params.maskToPortList interested
    if pkt.isInvalidate && item.requested == 0 then
      return ((filter.set line { item with holder := 0 }).eraseIfNullEntry line, ports, params.lookupLatency)
    else return (filter, ports, params.lookupLatency)

def updateSnoopResponse (params : SnoopFilterParams) (filter : SnoopFilter) (pkt : Packet) (hasSharers : Bool)
    (rspPort reqPort : PortID) : Except Abort SnoopFilter := do
  require pkt.isResponse "cpkt->isResponse()"
  require pkt.cacheResponding "cpkt->cacheResponding()"
  if pkt.req.isUncacheable || !params.isSnooping reqPort then return filter
  else
    let line := params.lineOf pkt
    let rspMask := params.portToMask rspPort
    let reqMask := params.portToMask reqPort
    let item := (filter.find line).getD {}
    panicIf (item.holder &&& rspMask == 0) "SF value does not have the line"
    panicIf (item.requested &&& reqMask == 0) "SF value missing the original request"
    let item := if !hasSharers then { item with holder := 0 } else item
    require (!pkt.isWriteback) "!cpkt->isWriteback()"
    let item := { requested := item.requested &&& ~~~reqMask, holder := item.holder ||| reqMask }
    require (item.requested ||| item.holder != 0) "(sf_item.requested | sf_item.holder).any()"
    return filter.set line item

def updateSnoopForward (params : SnoopFilterParams) (filter : SnoopFilter) (pkt : Packet) (hasSharers : Bool) :
    Except Abort SnoopFilter := do
  require pkt.isResponse "cpkt->isResponse()"
  require pkt.cacheResponding "cpkt->cacheResponding()"
  let line := params.lineOf pkt
  match filter.find line with
  | none => return filter
  | some item =>
    if !hasSharers then return (filter.set line { item with holder := 0 }).eraseIfNullEntry line
    else return filter

def updateResponse (params : SnoopFilterParams) (filter : SnoopFilter) (pkt : Packet) (cpuSidePort : PortID) :
    Except Abort SnoopFilter := do
  require pkt.isResponse "cpkt->isResponse()"
  if pkt.req.isUncacheable || !params.isSnooping cpuSidePort then return filter
  else
    let line := params.lineOf pkt
    match filter.find line with
    | none => return filter
    | some item =>
      let responseMask := params.portToMask cpuSidePort
      panicIf (item.requested &&& responseMask == 0) "SF value missing request bit"
      let requested := item.requested &&& ~~~responseMask
      if pkt.req.isCacheMaintenance then
        let holder := if pkt.isInvalidate then item.holder &&& ~~~responseMask else item.holder
        return (filter.set line { requested, holder }).eraseIfNullEntry line
      else
        let holder := item.holder ||| responseMask
        require (holder ||| requested != 0) "(sf_item.holder | sf_item.requested).any()"
        return filter.set line { requested, holder }

end SnoopFilter

end ImcGem5.Mem
